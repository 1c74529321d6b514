import Zlink.Locations.Placement

/-!
# The keys of authority rows

A key is `zla1:`, a letter for the kind of the object, the length of its identifier in decimal
digits and the identifier itself with percent escapes. `decodeAuthorityKey` reads such a key. It
takes each identifier in the one spelling that `encodeAuthorityKey` gives it: no zero in front of
the length, escapes in upper case and only for bytes that need one.
-/

namespace Zlink.Locations

open Decimal
open ServiceWire (ascii isValidNonNulUtf8)

def identityByteLimit : ℕ := 255

def encodedKeyByteLimit : ℕ := 5 + 2 + 3 + 1 + identityByteLimit * 3

def readIdentitySize : ℕ → Text → Option ℕ
  | size, [] => some size
  | size, digit :: length =>
    if digit < 0x30 ∨ 0x39 < digit then none
    else if (identityByteLimit - (digit - 0x30).toNat) / 10 < size then none
    else readIdentitySize (size * 10 + (digit - 0x30).toNat) length

def expectedSize (length : Text) : Option ℕ :=
  if length = [] ∨ (1 < length.length ∧ length.head? = some 0x30) then none
  else (readIdentitySize 0 length).filter fun size => 0 < size ∧ size ≤ identityByteLimit

def hexValue (digit : UInt8) : Option UInt8 :=
  if 0x30 ≤ digit ∧ digit ≤ 0x39 then some (digit - 0x30)
  else if 0x41 ≤ digit ∧ digit ≤ 0x46 then some (digit - 0x41 + 10)
  else none

def escapedByte (high low : UInt8) : Option UInt8 := do
  let high ← hexValue high
  let low ← hexValue low
  let byte := high <<< 4 ||| low
  if isUnreserved byte then none else some byte

def percentDecode : Text → Option Text
  | [] => some []
  | b :: encoded =>
    if b ≠ 0x25 then
      if isUnreserved b then (percentDecode encoded).map (b :: ·) else none
    else
      match encoded with
      | high :: low :: encoded => do
          let byte ← escapedByte high low
          let decoded ← percentDecode encoded
          return byte :: decoded
      | _ => none

/-- The kind and the identifier behind `zla1:`. -/
def decodeIdentity : Text → Option (UInt8 × Text)
  | kind :: separator :: value =>
    if (kind ≠ 0x61 ∧ kind ≠ 0x73) ∨ separator ≠ 0x3A then none
    else do
      let (length, encoded) ← cutAt 0x3A value
      let size ← expectedSize length
      let decoded ← percentDecode encoded
      if decoded.length ≠ size ∨ !isValidNonNulUtf8 decoded then none
      else some (kind, decoded)
  | _ => none

def decodeAuthorityKey (value : Text) : Option (UInt8 × Text) :=
  if ¬ ascii "zla1:" <+: value ∨ value.length < 5 + 4 ∨ encodedKeyByteLimit < value.length then none
  else decodeIdentity (value.drop 5)

variable {b kind : UInt8} {size n : ℕ} {id text value : Text}

theorem le_foldl_digits (size : ℕ) (text : Text) :
    size ≤ text.foldl (fun n b => 10 * n + (b - 0x30).toNat) size := by
  induction text generalizing size with
  | nil => exact Nat.le_refl size
  | cons b text ih =>
    have hstep : size ≤ 10 * size + (b - 0x30).toNat := by omega
    exact Nat.le_trans hstep (ih _)

theorem readIdentitySize_eq_some (hsize : size ≤ identityByteLimit) :
    readIdentitySize size text = some n ↔ (∀ b ∈ text, isDigit b) ∧
      text.foldl (fun n b => 10 * n + (b - 0x30).toNat) size = n ∧ n ≤ identityByteLimit := by
  induction text generalizing size with
  | nil =>
    rw [readIdentitySize, Option.some.injEq, List.foldl_nil]
    constructor
    · rintro rfl
      exact ⟨fun b hb => absurd hb List.not_mem_nil, rfl, hsize⟩
    · exact fun h => h.2.1
  | cons b text ih =>
    have hdigit : isDigit b ↔ ¬ (b < 0x30 ∨ 0x39 < b) := by
      rw [isDigit, Bool.and_eq_true, decide_eq_true_eq, decide_eq_true_eq, not_or,
        UInt8.not_lt, UInt8.not_lt]
    rw [readIdentitySize, List.foldl_cons, List.forall_mem_cons, Nat.mul_comm size, hdigit]
    split_ifs with hb hlimit
    · exact iff_of_false (by simp) fun h => h.1.1 hb
    · refine iff_of_false (by simp) fun h => ?_
      have hle := le_foldl_digits (10 * size + (b - 0x30).toNat) text
      have hlt := toNat_sub_lt (hdigit.mpr hb)
      rw [h.2.1] at hle
      have hn := h.2.2
      unfold identityByteLimit at *
      omega
    · have hlt := toNat_sub_lt (hdigit.mpr hb)
      have hnext : 10 * size + (b - 0x30).toNat ≤ identityByteLimit := by
        unfold identityByteLimit at *
        omega
      rw [ih hnext]
      exact and_congr_left fun _ => ⟨fun h => ⟨hb, h⟩, And.right⟩

theorem expectedSize_eq_some :
    expectedSize text = some n ↔ (0 < n ∧ n ≤ identityByteLimit) ∧ text = decimal n := by
  have hread : readIdentitySize 0 text = some n ↔
      (∀ b ∈ text, isDigit b) ∧ valueOf text = n ∧ n ≤ identityByteLimit :=
    readIdentitySize_eq_some (Nat.zero_le _)
  rw [expectedSize]
  split_ifs with htext
  · refine iff_of_false nofun ?_
    rintro ⟨⟨hpos, -⟩, rfl⟩
    rcases htext with hnil | ⟨-, hhead⟩
    · exact decimal_ne_nil n hnil
    · exact head?_decimal (Nat.ne_of_gt hpos) hhead
  · rw [not_or, not_and_or, not_lt] at htext
    rw [Option.filter_eq_some_iff, hread, decide_eq_true_eq]
    constructor
    · rintro ⟨⟨hdigits, rfl, -⟩, hbounds⟩
      exact ⟨hbounds, (decimal_valueOf hdigits htext.1 htext.2).symm⟩
    · rintro ⟨hbounds, rfl⟩
      exact ⟨⟨fun b hb => isDigit_of_mem_decimal hb, valueOf_decimal n, hbounds.2⟩, hbounds⟩

theorem nibbles_shift (b : UInt8) : b >>> 4 <<< 4 ||| b &&& 0x0F = b := by
  obtain ⟨b⟩ := b
  revert b
  decide

theorem nibbles_of_lt {high low : UInt8} (hhigh : high < 16) (hlow : low < 16) :
    (high <<< 4 ||| low) >>> 4 = high ∧ (high <<< 4 ||| low) &&& 0x0F = low := by
  have hall : ∀ n m : Fin 16, (UInt8.ofNat n <<< 4 ||| UInt8.ofNat m) >>> 4 = UInt8.ofNat n ∧
        (UInt8.ofNat n <<< 4 ||| UInt8.ofNat m) &&& 0x0F = UInt8.ofNat m := by decide
  have h := hall ⟨high.toNat, hhigh⟩ ⟨low.toNat, hlow⟩
  rwa [UInt8.ofNat_toNat, UInt8.ofNat_toNat] at h

theorem hexValue_upperHexDigit (b : UInt8) : hexValue (upperHexDigit (b >>> 4)) = some (b >>> 4) ∧
      hexValue (upperHexDigit (b &&& 0x0F)) = some (b &&& 0x0F) := by
  obtain ⟨b⟩ := b
  revert b
  decide

theorem upperHexDigit_of_hexValue {digit v : UInt8} (h : hexValue digit = some v) :
    upperHexDigit v = digit ∧ v < 16 := by
  have hall : ∀ digit : BitVec 8, (hexValue ⟨digit⟩).all fun v =>
      upperHexDigit v = ⟨digit⟩ ∧ v < 16 := by decide
  have hdigit := hall digit.toBitVec
  rw [h, Option.all_some, decide_eq_true_eq] at hdigit
  exact hdigit

theorem escapedByte_eq_some {high low : UInt8} : escapedByte high low = some b ↔
    isUnreserved b = false ∧ high = upperHexDigit (b >>> 4) ∧ low = upperHexDigit (b &&& 0x0F) := by
  constructor
  · intro h
    simp only [escapedByte, Option.bind_eq_bind, Option.bind_eq_some_iff, Option.ite_none_left_eq_some,
      Option.some.injEq, Bool.not_eq_true] at h
    obtain ⟨v, hv, w, hw, hreserved, rfl⟩ := h
    obtain ⟨hhigh, hvlt⟩ := upperHexDigit_of_hexValue hv
    obtain ⟨hlow, hwlt⟩ := upperHexDigit_of_hexValue hw
    obtain ⟨hshift, hmask⟩ := nibbles_of_lt hvlt hwlt
    exact ⟨hreserved, by rw [hshift, hhigh], by rw [hmask, hlow]⟩
  · rintro ⟨hreserved, rfl, rfl⟩
    obtain ⟨hhigh, hlow⟩ := hexValue_upperHexDigit b
    simp only [escapedByte, hhigh, hlow, Option.bind_eq_bind, Option.bind_some, nibbles_shift,
      hreserved, Bool.false_eq_true, if_false]

theorem percentDecode_eq_some : percentDecode text = some id ↔ text = id.flatMap percentEncode := by
  constructor
  · intro h
    induction text using percentDecode.induct generalizing id with
    | case1 =>
      cases h
      rfl
    | case2 b encoded hb hunreserved ih =>
      rw [percentDecode.eq_def] at h
      simp only [if_pos hb, if_pos hunreserved, Option.map_eq_some_iff] at h
      obtain ⟨decoded, hdecoded, rfl⟩ := h
      rw [List.flatMap_cons, percentEncode, if_pos hunreserved, ← ih hdecoded]
      rfl
    | case3 b encoded hb hreserved =>
      rw [percentDecode.eq_def] at h
      simp only [if_pos hb, if_neg hreserved] at h
      cases h
    | case4 b hb high low encoded ih =>
      rw [percentDecode.eq_def] at h
      simp only [if_neg hb, Option.bind_eq_bind, Option.bind_eq_some_iff, pure,
        Option.some.injEq] at h
      obtain ⟨byte, hbyte, decoded, hdecoded, rfl⟩ := h
      obtain ⟨hreserved, rfl, rfl⟩ := escapedByte_eq_some.mp hbyte
      rw [List.flatMap_cons, percentEncode, hreserved, if_neg Bool.false_ne_true, ← ih hdecoded,
        not_not.mp hb]
      rfl
    | case5 b encoded hb hshort =>
      rw [percentDecode.eq_def] at h
      simp only [if_neg hb] at h
      cases h
  · rintro rfl
    induction id with
    | nil => rfl
    | cons b id ih =>
      rw [List.flatMap_cons, percentEncode]
      split
      · rename_i hunreserved
        have hb : b ≠ 0x25 := by
          rintro rfl
          exact absurd hunreserved (by decide)
        rw [List.singleton_append, percentDecode.eq_def]
        simp only [if_pos hb, if_pos hunreserved, ih, Option.map_some]
      · rename_i hreserved
        have hbyte : escapedByte (upperHexDigit (b >>> 4)) (upperHexDigit (b &&& 0x0F)) = some b :=
          escapedByte_eq_some.mpr ⟨Bool.eq_false_iff.mpr hreserved, rfl, rfl⟩
        rw [percentDecode.eq_def]
        simp [hbyte, ih]

/-- `1..255` valid UTF-8 bytes without NUL. -/
def ValidIdentity (id : Text) : Prop :=
  id ≠ [] ∧ id.length ≤ identityByteLimit ∧ isValidNonNulUtf8 id = true

theorem encodeAuthorityKey_eq_ok : encodeAuthorityKey kind id = .ok value ↔
    ValidIdentity id ∧ value = ascii "zla1:" ++ kind :: 0x3A :: (decimal id.length ++
      0x3A :: id.flatMap percentEncode) := by
  have hvalid : (id = [] ∨ 255 < id.length ∨ !isValidNonNulUtf8 id) ↔ ¬ ValidIdentity id := by
    rw [ValidIdentity, identityByteLimit, not_and_or, not_and_or, not_not, not_le,
      Bool.not_eq_true, Bool.not_eq_true']
  rw [encodeAuthorityKey]
  split_ifs with h
  · exact iff_of_false nofun fun hid => hvalid.mp h hid.1
  · rw [Except.ok.injEq, eq_comm, iff_and_self]
    exact fun _ => not_not.mp fun hid => h (hvalid.mpr hid)

theorem decodeIdentity_eq_some : decodeIdentity value = some (kind, id) ↔
    (kind = 0x61 ∨ kind = 0x73) ∧ ValidIdentity id ∧
      value = kind :: 0x3A :: (decimal id.length ++ 0x3A :: id.flatMap percentEncode) := by
  constructor
  · intro h
    rw [decodeIdentity.eq_def] at h
    split at h
    · rename_i kind' separator rest
      simp only [Option.bind_eq_bind, Option.ite_none_left_eq_some, Option.bind_eq_some_iff,
        Prod.exists, cutAt_eq_some, expectedSize_eq_some, percentDecode_eq_some, not_or, not_and_or,
        not_not, Option.some.injEq, Prod.mk.injEq, Bool.not_eq_true', Bool.not_eq_false] at h
      obtain ⟨⟨hkind, rfl⟩, length, encoded, ⟨-, rfl⟩, n, ⟨hn, rfl⟩, id', rfl, ⟨rfl, hvalid⟩, rfl,
        rfl⟩ := h
      exact ⟨hkind, ⟨List.ne_nil_of_length_pos hn.1, hn.2, hvalid⟩, rfl⟩
    · cases h
  · rintro ⟨hkind, ⟨hne, hlength, hvalid⟩, rfl⟩
    have hcut : cutAt 0x3A (decimal id.length ++ 0x3A :: id.flatMap percentEncode) =
        some (decimal id.length, id.flatMap percentEncode) :=
      cutAt_append (not_mem_decimal (by decide))
    have hsize : expectedSize (decimal id.length) = some id.length :=
      expectedSize_eq_some.mpr ⟨⟨List.length_pos_of_ne_nil hne, hlength⟩, rfl⟩
    have hdecode : percentDecode (id.flatMap percentEncode) = some id :=
      percentDecode_eq_some.mpr rfl
    have hletter : ¬ (kind ≠ 0x61 ∧ kind ≠ 0x73) := by
      rintro ⟨ha, hs⟩
      exact hkind.elim ha hs
    simp [decodeIdentity, hletter, hcut, hsize, hdecode, hvalid]

theorem length_flatMap_percentEncode_le (id : Text) :
    (id.flatMap percentEncode).length ≤ 3 * id.length := by
  induction id with
  | nil => exact Nat.le_refl _
  | cons b id ih =>
    have hb : (percentEncode b).length ≤ 3 := by
      rw [percentEncode]
      split <;> simp
    rw [List.flatMap_cons, List.length_append, List.length_cons]
    omega

theorem drop_keyPrefix (rest : Text) : (ascii "zla1:" ++ rest).drop 5 = rest :=
  List.drop_left' rfl

theorem decodeAuthorityKey_eq_some : decodeAuthorityKey value = some (kind, id) ↔
    (kind = 0x61 ∨ kind = 0x73) ∧ ValidIdentity id ∧ encodeAuthorityKey kind id = .ok value := by
  rw [encodeAuthorityKey_eq_ok, and_self_left, decodeAuthorityKey]
  constructor
  · intro h
    rw [Option.ite_none_left_eq_some, decodeIdentity_eq_some] at h
    obtain ⟨hbounds, hkind, hid, hdrop⟩ := h
    obtain ⟨rest, rfl⟩ := not_not.mp fun hno => hbounds (.inl hno)
    exact ⟨hkind, hid, by rw [← hdrop, drop_keyPrefix]⟩
  · rintro ⟨hkind, hid, rfl⟩
    have hdigits : (decimal id.length).length ≤ 3 :=
      length_decimal_le (by decide) (Nat.lt_of_le_of_lt hid.2.1 (by decide))
    have hpos : 0 < (decimal id.length).length :=
      List.length_pos_of_ne_nil (decimal_ne_nil id.length)
    have hlength := hid.2.1
    have hescapes := length_flatMap_percentEncode_le id
    have hbounds : ¬ (¬ ascii "zla1:" <+: ascii "zla1:" ++ kind :: 0x3A :: (decimal id.length ++
        0x3A :: id.flatMap percentEncode) ∨ (ascii "zla1:" ++ kind :: 0x3A :: (decimal id.length ++
          0x3A :: id.flatMap percentEncode)).length < 5 + 4 ∨
        encodedKeyByteLimit < (ascii "zla1:" ++ kind :: 0x3A :: (decimal id.length ++
          0x3A :: id.flatMap percentEncode)).length) := by
      have hkey : (ascii "zla1:").length = 5 := rfl
      simp only [List.prefix_append, not_true_eq_false, false_or, List.length_append, hkey,
        List.length_cons, encodedKeyByteLimit]
      omega
    rw [if_neg hbounds]
    exact decodeIdentity_eq_some.mpr ⟨hkind, hid, drop_keyPrefix _⟩

/-- A key is decoded exactly if it is what the encoder makes of an identity, and to this identity;
so no two identities have one key. -/
theorem authorityKey_codec : (∀ value kind id, decodeAuthorityKey value = some (kind, id) ↔
      (kind = 0x61 ∨ kind = 0x73) ∧ ValidIdentity id ∧ encodeAuthorityKey kind id = .ok value) ∧
    ∀ kind kind' id id' value, (kind = 0x61 ∨ kind = 0x73) → (kind' = 0x61 ∨ kind' = 0x73) →
      encodeAuthorityKey kind id = .ok value → encodeAuthorityKey kind' id' = .ok value →
        kind = kind' ∧ id = id' := by
  refine ⟨fun value kind id => decodeAuthorityKey_eq_some, ?_⟩
  intro kind kind' id id' value hkind hkind' hvalue hvalue'
  have hdecode := decodeAuthorityKey_eq_some.mpr
    ⟨hkind, (encodeAuthorityKey_eq_ok.mp hvalue).1, hvalue⟩
  have hdecode' := decodeAuthorityKey_eq_some.mpr
    ⟨hkind', (encodeAuthorityKey_eq_ok.mp hvalue').1, hvalue'⟩
  exact Prod.mk.inj (Option.some.inj (hdecode.symm.trans hdecode'))

end Zlink.Locations
