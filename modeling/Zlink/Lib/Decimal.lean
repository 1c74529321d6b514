import Mathlib

/-!
# Numbers in texts

A text is a list of bytes. `decimal` writes a number in decimal digits, and `stoull` reads a
64-bit number the way the standard library does: behind white space and a sign, as many digits as
there are, whatever follows them. `cutAt` splits a text at the first separator in it.
-/

namespace Zlink.Decimal

scoped instance byteLinearOrder : LinearOrder UInt8 where
  le_refl := UInt8.le_refl
  le_trans _ _ _ := UInt8.le_trans
  lt_iff_le_not_ge _ _ :=
    ⟨fun h => ⟨UInt8.le_of_lt h, UInt8.not_le.mpr h⟩, fun h => UInt8.not_le.mp h.2⟩
  le_antisymm _ _ := UInt8.le_antisymm
  le_total := UInt8.le_total
  toDecidableLE := inferInstance
  toDecidableLT := inferInstance

/-- `std::to_string`. -/
def decimal (n : ℕ) : List UInt8 :=
  if n = 0 then [0x30] else (Nat.digits 10 n).reverse.map fun d => 0x30 + UInt8.ofNat d

def isSpace (b : UInt8) : Bool :=
  b = 0x20 || (0x09 ≤ b && b ≤ 0x0D)

def isDigit (b : UInt8) : Bool :=
  0x30 ≤ b && b ≤ 0x39

def valueOf (digits : List UInt8) : ℕ :=
  digits.foldl (fun n b => 10 * n + (b - 0x30).toNat) 0

def readSign : List UInt8 → Bool × List UInt8
  | 0x2D :: text => (true, text)
  | 0x2B :: text => (false, text)
  | text => (false, text)

/-- `std::stoull`. There is no number where it throws. -/
def stoull (text : List UInt8) : Option ℕ :=
  let (negative, text) := readSign (text.dropWhile isSpace)
  let digits := text.takeWhile isDigit
  if digits = [] ∨ 2 ^ 64 ≤ valueOf digits then none
  else some (if negative then (2 ^ 64 - valueOf digits) % 2 ^ 64 else valueOf digits)

def cutAt (separator : UInt8) : List UInt8 → Option (List UInt8 × List UInt8)
  | [] => none
  | b :: text =>
    if b = separator then some ([], text)
    else (cutAt separator text).map fun parts => (b :: parts.1, parts.2)

variable {b separator : UInt8} {n m : ℕ} {text rest digits : List UInt8}

theorem cutAt_append (h : separator ∉ text) :
    cutAt separator (text ++ separator :: rest) = some (text, rest) := by
  induction text with
  | nil => exact if_pos rfl
  | cons b text ih =>
    rw [List.mem_cons, not_or] at h
    rw [List.cons_append, cutAt, if_neg (Ne.symm h.1), ih h.2]
    rfl

theorem cutAt_eq_some {first : List UInt8} : cutAt separator text = some (first, rest) ↔
      separator ∉ first ∧ text = first ++ separator :: rest := by
  constructor
  · intro h
    induction text generalizing first with
    | nil => cases h
    | cons b text ih =>
      rw [cutAt] at h
      split at h
      · rename_i hb
        cases h
        exact ⟨List.not_mem_nil, by rw [hb, List.nil_append]⟩
      · rename_i hb
        obtain ⟨⟨first', rest'⟩, hcut, heq⟩ := Option.map_eq_some_iff.mp h
        cases heq
        obtain ⟨hmem, rfl⟩ := ih hcut
        rw [List.mem_cons, not_or]
        exact ⟨⟨Ne.symm hb, hmem⟩, rfl⟩
  · rintro ⟨h, rfl⟩
    exact cutAt_append h

theorem isDigit_ofNat {d : ℕ} (hd : d < 10) : isDigit (0x30 + UInt8.ofNat d) := by
  interval_cases d <;> decide

theorem ofNat_sub {d : ℕ} (hd : d < 10) : ((0x30 : UInt8) + UInt8.ofNat d - 0x30).toNat = d := by
  interval_cases d <;> decide

theorem decimal_ne_nil (n : ℕ) : decimal n ≠ [] := by
  rw [decimal]
  split
  · exact List.cons_ne_nil _ _
  · rename_i hn
    rw [Ne, List.map_eq_nil_iff, List.reverse_eq_nil_iff]
    exact Nat.digits_ne_nil_iff_ne_zero.mpr hn

theorem isDigit_of_mem_decimal (h : b ∈ decimal n) : isDigit b := by
  rw [decimal] at h
  split at h
  · rw [List.mem_singleton.mp h]
    decide
  · obtain ⟨d, hd, rfl⟩ := List.mem_map.mp h
    exact isDigit_ofNat (Nat.digits_lt_base (by decide) (List.mem_reverse.mp hd))

theorem not_mem_decimal (h : isDigit b = false) : b ∉ decimal n := by
  intro hmem
  rw [isDigit_of_mem_decimal hmem] at h
  cases h

theorem valueOf_map_reverse {ds : List ℕ} (h : ∀ d ∈ ds, d < 10) :
    valueOf (ds.reverse.map fun d => 0x30 + UInt8.ofNat d) = Nat.ofDigits 10 ds := by
  induction ds with
  | nil => rfl
  | cons d ds ih =>
    rw [List.forall_mem_cons] at h
    rw [valueOf] at ih ⊢
    rw [List.reverse_cons, List.map_append, List.foldl_append, ih h.2, Nat.ofDigits_cons]
    simp only [List.map_cons, List.map_nil, List.foldl_cons, List.foldl_nil, ofNat_sub h.1]
    exact Nat.add_comm _ _

theorem valueOf_decimal (n : ℕ) : valueOf (decimal n) = n := by
  rw [decimal]
  split
  · rename_i hn
    exact hn.symm
  · rw [valueOf_map_reverse fun d hd => Nat.digits_lt_base (by decide) hd, Nat.ofDigits_digits]

theorem decimal_injective (h : decimal n = decimal m) : n = m := by
  rw [← valueOf_decimal n, h, valueOf_decimal]

theorem toNat_sub_lt (h : isDigit b) : (b - 0x30).toNat < 10 := by
  rw [isDigit, Bool.and_eq_true, decide_eq_true_eq, decide_eq_true_eq] at h
  rw [UInt8.toNat_sub_of_le _ _ h.1]
  have hle : b.toNat ≤ 57 := h.2
  change b.toNat - 48 < 10
  omega

theorem add_ofNat_sub (b : UInt8) : 0x30 + UInt8.ofNat (b - 0x30).toNat = b := by
  rw [UInt8.ofNat_toNat, UInt8.add_comm, UInt8.sub_add_cancel]

theorem decimal_of_lt {d : ℕ} (hd : d < 10) : decimal d = [0x30 + UInt8.ofNat d] := by
  interval_cases d <;> decide

theorem decimal_valueOf (hdigits : ∀ b ∈ digits, isDigit b) (hne : digits ≠ [])
    (hzero : digits.length ≤ 1 ∨ digits.head? ≠ some 0x30) : decimal (valueOf digits) = digits := by
  have hmap : (digits.map fun b => (b - 0x30).toNat).map (fun d => 0x30 + UInt8.ofNat d) =
      digits := by
    rw [List.map_map]
    exact List.map_id'' (fun b => add_ofNat_sub b) digits
  have hlt : ∀ d ∈ (digits.map fun b => (b - 0x30).toNat).reverse, d < 10 := by
    intro d hd
    obtain ⟨b, hb, rfl⟩ := List.mem_map.mp (List.mem_reverse.mp hd)
    exact toNat_sub_lt (hdigits b hb)
  have hvalue := valueOf_map_reverse hlt
  rw [List.reverse_reverse, hmap] at hvalue
  obtain ⟨b, text, rfl⟩ := List.exists_cons_of_ne_nil hne
  rcases hzero with hlength | hhead
  · obtain rfl : text = [] := by
      cases text with
      | nil => rfl
      | cons c text => exact absurd hlength (by simp)
    have hb := toNat_sub_lt (hdigits b List.mem_cons_self)
    rw [valueOf, List.foldl_cons, List.foldl_nil, Nat.mul_zero, Nat.zero_add, decimal_of_lt hb,
      add_ofNat_sub]
  · have hlast (h : ((b :: text).map fun b => (b - 0x30).toNat).reverse ≠ []) :
        ((b :: text).map fun b => (b - 0x30).toNat).reverse.getLast h ≠ 0 := by
      rw [List.getLast_reverse]
      intro hb
      rw [← add_ofNat_sub b, show (b - 0x30).toNat = 0 from hb] at hhead
      exact hhead rfl
    have hds := Nat.digits_ofDigits 10 (by decide) _ hlt hlast
    have hpos : valueOf (b :: text) ≠ 0 := by
      intro hb
      rw [← hvalue, hb, Nat.digits_zero] at hds
      exact absurd (congrArg List.length hds) (by simp)
    rw [decimal, if_neg hpos, hvalue, hds, List.reverse_reverse, hmap]

theorem head?_decimal (hn : n ≠ 0) : (decimal n).head? ≠ some 0x30 := by
  have hne : Nat.digits 10 n ≠ [] := Nat.digits_ne_nil_iff_ne_zero.mpr hn
  have hlast := Nat.getLast_digit_ne_zero 10 hn
  have hlt : (Nat.digits 10 n).getLast hne < 10 :=
    Nat.digits_lt_base (by decide) (List.getLast_mem hne)
  rw [decimal, if_neg hn, List.head?_map, List.head?_reverse, List.getLast?_eq_some_getLast hne,
    Option.map_some, Ne, Option.some.injEq]
  intro hzero
  have hdigit := ofNat_sub hlt
  rw [hzero] at hdigit
  exact hlast hdigit.symm

theorem length_decimal_le {k : ℕ} (hk : 0 < k) (hn : n < 10 ^ k) : (decimal n).length ≤ k := by
  rw [decimal]
  split
  · exact hk
  · rw [List.length_map, List.length_reverse]
    exact (Nat.digits_length_le_iff (by decide) n).mpr hn

theorem takeWhile_decimal : (decimal n).takeWhile isDigit = decimal n :=
  List.takeWhile_eq_self_iff.mpr fun _ h => isDigit_of_mem_decimal h

theorem readSign_dropWhile (h : isDigit b) :
    readSign ((b :: text).dropWhile isSpace) = (false, b :: text) := by
  rw [isDigit, Bool.and_eq_true, decide_eq_true_eq, decide_eq_true_eq] at h
  have hspace : isSpace b = false := by
    rw [isSpace]
    grind
  rw [List.dropWhile_cons_of_neg (by rw [hspace]; exact Bool.false_ne_true)]
  rw [readSign.eq_3]
  all_goals
    rintro _ hb
    cases hb
    exact absurd h.1 (by decide)

theorem stoull_decimal (n : ℕ) : stoull (decimal n) = if 2 ^ 64 ≤ n then none else some n := by
  obtain ⟨b, text, hb⟩ := List.exists_cons_of_ne_nil (decimal_ne_nil n)
  have hsign : readSign ((decimal n).dropWhile isSpace) = (false, decimal n) := by
    rw [hb]
    exact readSign_dropWhile (isDigit_of_mem_decimal (hb ▸ List.mem_cons_self))
  rw [stoull, hsign]
  simp only [takeWhile_decimal, decimal_ne_nil, valueOf_decimal, false_or, Bool.false_eq_true,
    if_false]

theorem eq_of_stoull_decimal (h : stoull (decimal n) = some m) : m = n := by
  rw [stoull_decimal] at h
  split at h
  · cases h
  · exact (Option.some.inj h).symm

end Zlink.Decimal
