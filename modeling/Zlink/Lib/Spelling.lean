import Zlink.Lib.Codec

/-!
# One spelling for every value

A decoder reads the fields of a record one by one and checks what it has read, an encoder checks
the record and writes the fields. `Spells read good fields` says that the reader takes a record
exactly where the text of its fields stands, and takes no other records than good ones. The rules
follow the program of the reader: a field that is read is the first of those that are written, and
for what follows the value is known to have it.
-/

namespace Codec

/-- The reader takes a good value from the text of its fields, and nothing else. -/
def Spells {β : Type} (read : Reader β) (good : β → Prop) (fields : β → List Written) : Prop :=
  ∀ bytes b rest, read.run bytes = .ok (b, rest) ↔
    good b ∧ ∃ ws, concat (fields b) = .ok ws ∧ bytes = ws ++ rest

namespace Spells

variable {α β : Type} {read : Reader α} {next : α → Reader β} {good : β → Prop}
  {fields : β → List Written} {message : String} {bytes : List UInt8} {b : β}

theorem last {b₀ : β} (h : ∀ b, good b ↔ b = b₀) : Spells (pure b₀) good fun _ => [] := by
  intro bytes b rest
  rw [Reader.run_pure_eq_ok, h b]
  refine and_congr_right fun _ => ⟨?_, ?_⟩
  · rintro rfl
    exact ⟨[], rfl, rfl⟩
  · rintro ⟨ws, hws, rfl⟩
    rw [concat_nil_eq_ok.mp hws]
    rfl

theorem congr {read : Reader β} {fields' : β → List Written} (h : Spells read good fields)
    (hfields : ∀ b, good b → concat (fields' b) = concat (fields b)) :
    Spells read good fields' := by
  intro bytes b rest
  rw [h bytes b rest]
  refine and_congr_right fun hb => ?_
  rw [hfields b hb]

theorem congr_good {read : Reader β} {good' : β → Prop} (h : Spells read good fields)
    (hgood : ∀ b, good' b ↔ good b) : Spells read good' fields := by
  intro bytes b rest
  rw [h bytes b rest, hgood b]

theorem part {goodPart : α → Prop} {fieldsPart : α → List Written} (part : β → α)
    (hread : Spells read goodPart fieldsPart) (hgood : ∀ b, good b → goodPart (part b))
    (hnext : ∀ a, goodPart a → Spells (next a) (fun b => part b = a ∧ good b) fields) :
    Spells (read >>= next) good fun b => fieldsPart (part b) ++ fields b := by
  intro bytes b rest
  rw [Reader.run_bind_eq_ok]
  constructor
  · rintro ⟨a, mid, hfirst, hrest⟩
    obtain ⟨hpart, first, hwritten, rfl⟩ := (hread _ _ _).mp hfirst
    obtain ⟨⟨rfl, hb⟩, others, hothers, rfl⟩ := (hnext a hpart _ _ _).mp hrest
    exact ⟨hb, first ++ others, concat_append_eq_ok.mpr ⟨first, others, hwritten, hothers, rfl⟩,
      (List.append_assoc first others rest).symm⟩
  · rintro ⟨hb, ws, hws, rfl⟩
    obtain ⟨first, others, hfirst, hothers, rfl⟩ := concat_append_eq_ok.mp hws
    exact ⟨part b, others ++ rest,
      (hread _ _ _).mpr ⟨hgood b hb, first, hfirst, List.append_assoc _ _ _⟩,
      (hnext _ (hgood b hb) _ _ _).mpr ⟨⟨rfl, hb⟩, others, hothers, rfl⟩⟩

theorem of_inverse {write : α → Written} (h : Inverse read write) :
    Spells read (fun _ => True) fun a => [write a] := by
  intro bytes a rest
  rw [h bytes a rest]
  simp only [true_and, concat_cons_eq_ok, concat_nil_eq_ok]
  constructor
  · rintro ⟨first, hfirst, rfl⟩
    exact ⟨first, ⟨first, [], hfirst, rfl, (List.append_nil first).symm⟩, rfl⟩
  · rintro ⟨ws, ⟨first, _, hfirst, rfl, rfl⟩, rfl⟩
    exact ⟨first, hfirst, by rw [List.append_nil]⟩

theorem field {write : α → Written} (field : β → α) (hread : Inverse read write)
    (hnext : ∀ a, Spells (next a) (fun b => field b = a ∧ good b) fields) :
    Spells (read >>= next) good fun b => write (field b) :: fields b :=
  part field (of_inverse hread) (fun _ _ => trivial) fun a _ => hnext a

theorem guard {bad : Prop} [Decidable bad] {next : Unit → Reader β}
    (hgood : ∀ b, good b → ¬ bad) (hnext : ¬ bad → Spells (next ()) good fields) :
    Spells (rejectIf bad message >>= next) good fields := by
  intro bytes b rest
  rw [Reader.run_bind_eq_ok]
  constructor
  · rintro ⟨_, _, hguard, hrest⟩
    obtain ⟨hbad, rfl⟩ := Reader.run_rejectIf_eq_ok.mp hguard
    exact (hnext hbad _ _ _).mp hrest
  · rintro ⟨hb, hws⟩
    have hbad := hgood b hb
    exact ⟨(), bytes, Reader.run_rejectIf_eq_ok.mpr ⟨hbad, rfl⟩, (hnext hbad _ _ _).mpr ⟨hb, hws⟩⟩

theorem parse_check {read : Reader β} {bad : β → Prop} [DecidablePred bad]
    (h : Spells read good fields) :
    (do
      let b ← read
      let left ← get
      rejectIf (left ≠ [] ∨ bad b) message
      pure b : Reader β).parse bytes = .ok b ↔
        (good b ∧ ¬ bad b) ∧ concat (fields b) = .ok bytes := by
  rw [Reader.parse_eq_ok_iff]
  simp only [Reader.run_bind_eq_ok, Reader.run_get_eq_ok, Reader.run_rejectIf_eq_ok,
    Reader.run_pure_eq_ok, not_or, not_not]
  constructor
  · rintro ⟨_, _, _, hread, _, _, ⟨rfl, rfl⟩, _, _, ⟨⟨rfl, hbad⟩, rfl⟩, rfl, rfl⟩
    obtain ⟨hb, ws, hws, rfl⟩ := (h _ _ _).mp hread
    exact ⟨⟨hb, hbad⟩, by rw [List.append_nil, hws]⟩
  · rintro ⟨⟨hb, hbad⟩, hws⟩
    exact ⟨[], b, [], (h _ _ _).mpr ⟨hb, bytes, hws, (List.append_nil bytes).symm⟩, [], [],
      ⟨rfl, rfl⟩, (), [], ⟨⟨rfl, hbad⟩, rfl⟩, rfl, rfl⟩

theorem parse_finish {read : Reader β} (h : Spells read good fields) : (do
      let b ← read
      Reader.finish message
      pure b : Reader β).parse bytes = .ok b ↔ good b ∧ concat (fields b) = .ok bytes := by
  rw [Reader.parse_eq_ok_iff]
  simp only [Reader.run_bind_eq_ok, Reader.run_finish_eq_ok, Reader.run_pure_eq_ok]
  constructor
  · rintro ⟨_, _, _, hread, _, _, ⟨rfl, rfl⟩, rfl, rfl⟩
    obtain ⟨hb, ws, hws, rfl⟩ := (h _ _ _).mp hread
    exact ⟨hb, by rw [List.append_nil, hws]⟩
  · rintro ⟨hb, hws⟩
    exact ⟨[], b, [], (h _ _ _).mpr ⟨hb, bytes, hws, (List.append_nil bytes).symm⟩, (), [],
      ⟨rfl, rfl⟩, rfl, rfl⟩

end Spells

end Codec
