import Zlink.Lib.BigEndian

/-!
# Readers and writers of byte strings

A reader takes a value from the front of some bytes, or fails with a message. A value is
written as some bytes, or refused with a message. `Inverse read write` says that the reader
takes exactly what the writer writes, so that both directions of a round trip are one
statement, and the lemmas on `bind` take a composed reader apart.

A `Draft` is a list of fields with the size that was planned for them. It can be written to a
buffer that grows and to one that has been allocated with the planned size.
-/

namespace Codec

open BigEndian

abbrev Reader (α : Type) := StateT (List UInt8) (Except String) α

/-- The bytes of a value, unless it is refused. -/
abbrev Written := Except String (List UInt8)

def rejectIf {m : Type → Type} [Monad m] [MonadExceptOf String m] (bad : Prop) [Decidable bad]
    (message : String) : m Unit :=
  if bad then throw message else pure ()

namespace Reader

variable {α β : Type}

/-- The next `n` bytes. -/
def take (n : ℕ) (message : String) : Reader (List UInt8) := do
  let bytes ← get
  rejectIf (bytes.length < n) message
  set (bytes.drop n)
  pure (bytes.take n)

def byte (message : String) : Reader UInt8 := do
  match ← get with
  | [] => throw message
  | b :: bytes => set bytes; pure b

/-- A big-endian number of `n` bytes. -/
def uint (n : ℕ) (message : String) : Reader ℕ := do
  let bytes ← take n message
  pure (valueOf bytes)

/-- Nothing may be left. -/
def finish (message : String) : Reader Unit := do
  rejectIf ((← get) ≠ []) message

/-- A value that may not exist. -/
def ofOption (value : Option α) (message : String) : Reader α :=
  match value with
  | some a => pure a
  | none => throw message

def parse (read : Reader α) (bytes : List UInt8) : Except String α :=
  (read.run bytes).map Prod.fst

variable {read : Reader α} {f : α → Reader β} {a a' : α} {b : β} {bytes rest : List UInt8}
  {message : String} {n : ℕ}

theorem parse_eq_ok_iff : read.parse bytes = .ok a ↔ ∃ rest, read.run bytes = .ok (a, rest) := by
  rw [parse]
  cases read.run bytes with
  | error e => exact iff_of_false nofun (fun ⟨_, h⟩ => nomatch h)
  | ok p =>
    rw [Except.map, Except.ok.injEq]
    constructor
    · rintro rfl
      exact ⟨p.2, rfl⟩
    · rintro ⟨rest, h⟩
      rw [Except.ok.inj h]

@[simp] theorem run_bind_eq_ok : (read >>= f).run bytes = .ok (b, rest) ↔
    ∃ a mid, read.run bytes = .ok (a, mid) ∧ (f a).run mid = .ok (b, rest) := by
  rw [StateT.run_bind]
  cases read.run bytes with
  | error e => exact iff_of_false nofun (fun ⟨_, _, h, _⟩ => nomatch h)
  | ok p =>
    constructor
    · intro h
      exact ⟨p.1, p.2, rfl, h⟩
    · rintro ⟨a, mid, h, hrest⟩
      rw [Except.ok.inj h]
      exact hrest

theorem lift_ok_bind : (liftM (.ok a : Except String α) : Reader α) >>= f = f a :=
  rfl

theorem run_get_bind {f : List UInt8 → Reader β} : (get >>= f).run bytes = (f bytes).run bytes :=
  rfl

@[simp] theorem run_pure_eq_ok :
    (pure a : Reader α).run bytes = .ok (a', rest) ↔ a' = a ∧ rest = bytes := by
  rw [StateT.run_pure]
  constructor
  · intro h
    obtain ⟨rfl, rfl⟩ := Prod.mk.inj (Except.ok.inj h)
    exact ⟨rfl, rfl⟩
  · rintro ⟨rfl, rfl⟩
    rfl

@[simp] theorem run_get_eq_ok {all : List UInt8} :
    (get : Reader (List UInt8)).run bytes = .ok (all, rest) ↔ all = bytes ∧ rest = bytes :=
  run_pure_eq_ok (a := bytes)

@[simp] theorem run_set_eq_ok {next : List UInt8} {u : Unit} :
    (set next : Reader Unit).run bytes = .ok (u, rest) ↔ rest = next := by
  constructor
  · intro h
    exact (Prod.mk.inj (Except.ok.inj h)).2.symm
  · rintro rfl
    rfl

theorem run_throw_ne_ok : (throw message : Reader α).run bytes ≠ .ok (a, rest) :=
  nofun

@[simp] theorem run_lift_eq_ok {x : Except String α} :
    (liftM x : Reader α).run bytes = .ok (a, rest) ↔ x = .ok a ∧ rest = bytes := by
  cases x with
  | error e => exact iff_of_false nofun fun h => nomatch h.1
  | ok a' =>
    rw [Except.ok.injEq]
    exact run_pure_eq_ok.trans (and_congr_left' eq_comm)

@[simp] theorem run_rejectIf_eq_ok {bad : Prop} [Decidable bad] {u : Unit} :
    (rejectIf bad message : Reader Unit).run bytes = .ok (u, rest) ↔ ¬ bad ∧ rest = bytes := by
  rw [rejectIf]
  split_ifs with h
  · exact iff_of_false run_throw_ne_ok fun hok => hok.1 h
  · exact run_pure_eq_ok.trans (and_congr_left' (iff_of_true rfl h))

@[simp] theorem run_take_eq_ok {taken : List UInt8} :
    (take n message).run bytes = .ok (taken, rest) ↔ taken.length = n ∧ bytes = taken ++ rest := by
  simp only [take, run_bind_eq_ok, run_get_eq_ok, run_rejectIf_eq_ok, run_set_eq_ok, run_pure_eq_ok]
  constructor
  · rintro ⟨all, _, ⟨rfl, rfl⟩, _, _, ⟨hlength, rfl⟩, _, _, rfl, rfl, rfl⟩
    exact ⟨List.length_take_of_le (not_lt.mp hlength), (List.take_append_drop n _).symm⟩
  · rintro ⟨rfl, rfl⟩
    refine ⟨_, _, ⟨rfl, rfl⟩, (), _, ⟨?_, rfl⟩, (), _, rfl, List.take_left.symm,
      List.drop_left.symm⟩
    rw [List.length_append]
    exact not_lt.mpr (Nat.le_add_right _ _)

@[simp] theorem run_byte_eq_ok {x : UInt8} :
    (byte message).run bytes = .ok (x, rest) ↔ bytes = x :: rest := by
  rw [byte, run_bind_eq_ok]
  constructor
  · rintro ⟨all, mid, hget, h⟩
    obtain ⟨rfl, rfl⟩ := run_get_eq_ok.mp hget
    cases mid with
    | nil => exact absurd h run_throw_ne_ok
    | cons y mid =>
      obtain ⟨_, _, hset, hpure⟩ := run_bind_eq_ok.mp h
      obtain rfl := run_set_eq_ok.mp hset
      obtain ⟨rfl, rfl⟩ := run_pure_eq_ok.mp hpure
      rfl
  · rintro rfl
    exact ⟨_, _, run_get_eq_ok.mpr ⟨rfl, rfl⟩,
      run_bind_eq_ok.mpr ⟨(), _, run_set_eq_ok.mpr rfl, run_pure_eq_ok.mpr ⟨rfl, rfl⟩⟩⟩

@[simp] theorem run_uint_eq_ok {v : ℕ} : (uint n message).run bytes = .ok (v, rest) ↔
      v < 256 ^ n ∧ bytes = bytesOf n v ++ rest := by
  rw [uint, run_bind_eq_ok]
  constructor
  · rintro ⟨taken, mid, htake, hpure⟩
    obtain ⟨rfl, rfl⟩ := run_take_eq_ok.mp htake
    obtain ⟨rfl, rfl⟩ := run_pure_eq_ok.mp hpure
    exact ⟨valueOf_lt taken, by rw [bytesOf_valueOf]⟩
  · rintro ⟨hv, rfl⟩
    exact ⟨bytesOf n v, rest, run_take_eq_ok.mpr ⟨bytesOf_length n v, rfl⟩,
      run_pure_eq_ok.mpr ⟨(valueOf_bytesOf hv).symm, rfl⟩⟩

@[simp] theorem run_finish_eq_ok {u : Unit} :
    (finish message).run bytes = .ok (u, rest) ↔ bytes = [] ∧ rest = [] := by
  simp only [finish, run_bind_eq_ok, run_get_eq_ok, run_rejectIf_eq_ok]
  constructor
  · rintro ⟨all, mid, ⟨rfl, rfl⟩, hempty, rfl⟩
    exact ⟨not_not.mp hempty, not_not.mp hempty⟩
  · rintro ⟨rfl, rfl⟩
    exact ⟨_, _, ⟨rfl, rfl⟩, not_not.mpr rfl, rfl⟩

end Reader

section Except

variable {ε α β : Type}

@[simp] theorem bind_eq_ok {x : Except ε α} {f : α → Except ε β} {b : β} :
    (x >>= f) = .ok b ↔ ∃ a, x = .ok a ∧ f a = .ok b := by
  cases x with
  | error e => exact iff_of_false nofun (fun ⟨_, h, _⟩ => nomatch h)
  | ok a =>
    constructor
    · intro h
      exact ⟨a, rfl, h⟩
    · rintro ⟨a', h, hf⟩
      rw [Except.ok.inj h]
      exact hf

theorem exists_eq_ok {x : Except ε α} (h : x.isOk = true) : ∃ a, x = .ok a := by
  cases x with
  | error e => exact absurd h Bool.false_ne_true
  | ok a => exact ⟨a, rfl⟩

@[simp] theorem pure_eq_ok {a b : α} : (pure a : Except ε α) = .ok b ↔ b = a :=
  ⟨fun h => (Except.ok.inj h).symm, fun h => h ▸ rfl⟩

@[simp] theorem rejectIf_eq_ok {bad : Prop} [Decidable bad] {message : String} {u : Unit} :
    (rejectIf bad message : Except String Unit) = .ok u ↔ ¬ bad := by
  rw [rejectIf]
  split_ifs with h
  · exact iff_of_false nofun fun hok => hok h
  · exact iff_of_true rfl h

end Except

def Inverse {α : Type} (read : Reader α) (write : α → Written) : Prop :=
  ∀ bytes a rest, read.run bytes = .ok (a, rest) ↔ ∃ ws, write a = .ok ws ∧ bytes = ws ++ rest

theorem Inverse.run_append {α : Type} {read : Reader α} {write : α → Written} {a : α}
    {ws : List UInt8} (h : Inverse read write) (hw : write a = .ok ws) (rest : List UInt8) :
    read.run (ws ++ rest) = .ok (a, rest) :=
  (h _ a rest).mpr ⟨ws, hw, rfl⟩

/-- The reader takes `ws` for `a`, whatever follows. -/
def Reads {α : Type} (read : Reader α) (ws : List UInt8) (a : α) : Prop :=
  ∀ rest, read.run (ws ++ rest) = .ok (a, rest)

theorem Inverse.reads {α : Type} {read : Reader α} {write : α → Written} {a : α}
    {ws : List UInt8} (h : Inverse read write) (hw : write a = .ok ws) : Reads read ws a :=
  h.run_append hw

namespace Reads

variable {α β : Type} {read : Reader α} {f : α → Reader β} {ws ws' rest : List UInt8} {a : α}
  {b : β} {message : String}

theorem run_bind (h : Reads read ws a) (rest : List UInt8) :
    (read >>= f).run (ws ++ rest) = (f a).run rest := by
  rw [StateT.run_bind, h rest]
  rfl

theorem bind (h : Reads read ws a) (hf : Reads (f a) ws' b) : Reads (read >>= f) (ws ++ ws') b := by
  intro rest
  rw [List.append_assoc, h.run_bind, hf rest]

theorem pure (a : α) : Reads (pure a : Reader α) [] a :=
  fun _ => rfl

theorem last {g : α → β} (h : Reads read ws a) :
    Reads (do let x ← read; Pure.pure (g x)) ws (g a) := by
  intro rest
  rw [h.run_bind]
  rfl

theorem guard {bad : Prop} [Decidable bad] (hgood : ¬ bad) {next : Unit → Reader β}
    (h : Reads (next ()) ws b) : Reads (rejectIf bad message >>= next) ws b := by
  rw [rejectIf, if_neg hgood]
  exact h

theorem byte (b : UInt8) : Reads (Reader.byte message) [b] b :=
  fun _ => Reader.run_byte_eq_ok.mpr rfl

theorem take {n : ℕ} (h : ws.length = n) : Reads (Reader.take n message) ws ws :=
  fun _ => Reader.run_take_eq_ok.mpr ⟨h, rfl⟩

theorem ofOption {value : Option α} (h : value = some a) {next : α → Reader β}
    (hnext : Reads (next a) ws b) : Reads (Reader.ofOption value message >>= next) ws b := by
  rw [h]
  exact hnext

theorem lift {x : Except String α} (h : x = .ok a) {next : α → Reader β}
    (hnext : Reads (next a) ws b) : Reads ((liftM x : Reader α) >>= next) ws b := by
  rw [h]
  exact hnext

theorem parse_finish (h : Reads read ws a) :
    (do let x ← read; Reader.finish message; Pure.pure x : Reader α).parse ws = .ok a := by
  refine Reader.parse_eq_ok_iff.mpr ⟨[], ?_⟩
  have hrun := h.run_bind (f := fun x => do Reader.finish message; Pure.pure x) []
  rw [List.append_nil] at hrun
  rw [hrun]
  rfl

end Reads

def concat : List Written → Written
  | [] => pure []
  | field :: fields => do
      let bytes ← field
      let others ← concat fields
      pure (bytes ++ others)

/-- The fields into a buffer that holds `data` and has `capacity` bytes in all. -/
def fill (capacity : ℕ) (data : List UInt8) : List Written → Written
  | [] => do
      rejectIf (data.length ≠ capacity) "native wire writer size mismatch"
      pure data
  | field :: fields => do
      let bytes ← field
      rejectIf (capacity - data.length < bytes.length) "native wire writer exceeded allocated size"
      fill capacity (data ++ bytes) fields

structure Draft where
  size : ℕ
  fields : List Written

def Draft.grown (d : Draft) : Written :=
  concat d.fields

def Draft.native (d : Draft) : Written :=
  fill d.size [] d.fields

variable {fields : List Written} {bytes data : List UInt8} {capacity : ℕ}

@[simp] theorem concat_nil_eq_ok : concat [] = .ok bytes ↔ bytes = [] :=
  pure_eq_ok

@[simp] theorem concat_cons_eq_ok {field : Written} : concat (field :: fields) = .ok bytes ↔
    ∃ first others, field = .ok first ∧ concat fields = .ok others ∧ bytes = first ++ others := by
  simp only [concat, bind_eq_ok, pure_eq_ok]
  constructor
  · rintro ⟨first, hfirst, others, hothers, rfl⟩
    exact ⟨first, others, hfirst, hothers, rfl⟩
  · rintro ⟨first, others, hfirst, hothers, rfl⟩
    exact ⟨first, hfirst, others, hothers, rfl⟩

theorem concat_append_eq_ok {others : List Written} : concat (fields ++ others) = .ok bytes ↔
    ∃ first second, concat fields = .ok first ∧ concat others = .ok second ∧
      bytes = first ++ second := by
  induction fields generalizing bytes with
  | nil => simp
  | cons field fields ih =>
    simp only [List.cons_append, concat_cons_eq_ok, ih]
    constructor
    · rintro ⟨a, _, ha, ⟨b, c, hb, hc, rfl⟩, rfl⟩
      exact ⟨a ++ b, c, ⟨a, b, ha, hb, rfl⟩, hc, (List.append_assoc a b c).symm⟩
    · rintro ⟨_, c, ⟨a, b, ha, hb, rfl⟩, hc, rfl⟩
      exact ⟨a, b ++ c, ha, ⟨b, c, hb, hc, rfl⟩, List.append_assoc a b c⟩

theorem ok_of_mem_concat {field : Written} (h : concat fields = .ok bytes) (hmem : field ∈ fields) :
    ∃ ws, field = .ok ws := by
  induction fields generalizing bytes with
  | nil => exact absurd hmem List.not_mem_nil
  | cons head fields ih =>
    obtain ⟨first, others, hfirst, hothers, -⟩ := concat_cons_eq_ok.mp h
    rcases List.mem_cons.mp hmem with rfl | hmem
    · exact ⟨first, hfirst⟩
    · exact ih hothers hmem

theorem fill_of_concat (h : concat fields = .ok bytes)
    (hsize : data.length + bytes.length = capacity) :
    fill capacity data fields = .ok (data ++ bytes) := by
  induction fields generalizing data bytes with
  | nil =>
    obtain rfl := concat_nil_eq_ok.mp h
    simp only [fill, bind_eq_ok, rejectIf_eq_ok, pure_eq_ok]
    exact ⟨(), not_not.mpr hsize, List.append_nil data⟩
  | cons field fields ih =>
    obtain ⟨first, others, rfl, hothers, rfl⟩ := concat_cons_eq_ok.mp h
    rw [List.length_append] at hsize
    simp only [fill, bind_eq_ok, rejectIf_eq_ok]
    refine ⟨first, rfl, (), by omega, ?_⟩
    rw [ih hothers (by rw [List.length_append]; omega), List.append_assoc]

theorem Draft.native_of_grown {d : Draft} (h : d.grown = .ok bytes)
    (hsize : bytes.length = d.size) : d.native = .ok bytes :=
  fill_of_concat h (by rw [List.length_nil, Nat.zero_add, hsize])

end Codec
