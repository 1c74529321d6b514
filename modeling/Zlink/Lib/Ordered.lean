import Mathlib

/-!
# Maps in the order of their keys

A finite map is the list of its entries in the strict order of their keys. The order is a field
of the map, so every map has it, and a map is determined by what it finds.
-/

variable {K V W : Type*} [LinearOrder K]

structure OrderedMap (K V : Type*) [LinearOrder K] where
  entries : List (K × V)
  sorted : entries.Pairwise fun a b => a.1 < b.1
  deriving DecidableEq

namespace OrderedMap

def empty : OrderedMap K V :=
  ⟨[], .nil⟩

def find (m : OrderedMap K V) (k : K) : Option V :=
  (m.entries.find? fun e => e.1 = k).map Prod.snd

def place (k : K) (v : V) : List (K × V) → List (K × V)
  | [] => [(k, v)]
  | e :: es =>
    if k < e.1 then (k, v) :: e :: es
    else if k = e.1 then (k, v) :: es
    else e :: place k v es

variable {k k' : K} {v w : V} {es : List (K × V)} {m : OrderedMap K V}

theorem mem_place {a : K × V} (h : a ∈ place k v es) : a = (k, v) ∨ a ∈ es := by
  induction es with
  | nil => exact .inl (List.mem_singleton.mp h)
  | cons e es ih =>
    rw [place] at h
    split_ifs at h
    · exact List.mem_cons.mp h
    · exact (List.mem_cons.mp h).imp_right (List.mem_cons_of_mem e)
    · rcases List.mem_cons.mp h with rfl | h
      · exact .inr List.mem_cons_self
      · exact (ih h).imp_right (List.mem_cons_of_mem e)

theorem length_place_le (k : K) (v : V) (es : List (K × V)) :
    (place k v es).length ≤ es.length + 1 := by
  induction es with
  | nil => exact le_rfl
  | cons e es ih =>
    rw [place]
    split_ifs
    · exact le_rfl
    · exact Nat.le_succ _
    · exact Nat.succ_le_succ ih

theorem sorted_place (h : es.Pairwise fun a b => a.1 < b.1) :
    (place k v es).Pairwise fun a b => a.1 < b.1 := by
  induction es with
  | nil => exact List.pairwise_singleton _ _
  | cons e es ih =>
    obtain ⟨hhead, htail⟩ := List.pairwise_cons.mp h
    rw [place]
    split_ifs with hlt heq
    · refine List.pairwise_cons.mpr ⟨fun a ha => ?_, h⟩
      rcases List.mem_cons.mp ha with rfl | ha
      · exact hlt
      · exact hlt.trans (hhead a ha)
    · exact List.pairwise_cons.mpr ⟨fun a ha => heq ▸ hhead a ha, htail⟩
    · refine List.pairwise_cons.mpr ⟨fun a ha => ?_, ih htail⟩
      rcases mem_place ha with rfl | ha
      · exact lt_of_le_of_ne (not_lt.mp hlt) (Ne.symm heq)
      · exact hhead a ha

def insertOrAssign (m : OrderedMap K V) (k : K) (v : V) : OrderedMap K V :=
  ⟨place k v m.entries, sorted_place m.sorted⟩

def filter (p : K × V → Bool) (m : OrderedMap K V) : OrderedMap K V :=
  ⟨m.entries.filter p, m.sorted.filter p⟩

def erase (m : OrderedMap K V) (k : K) : OrderedMap K V :=
  m.filter fun e => e.1 ≠ k

def mapValues (f : V → V) (m : OrderedMap K V) : OrderedMap K V :=
  ⟨m.entries.map fun e => (e.1, f e.2), List.pairwise_map.mpr m.sorted⟩

theorem mem_of_find (h : m.find k = some v) : (k, v) ∈ m.entries := by
  obtain ⟨e, he, rfl⟩ := Option.map_eq_some_iff.mp h
  have hkey := List.find?_some (p := fun e : K × V => decide (e.1 = k)) he
  rw [← of_decide_eq_true hkey]
  exact List.mem_of_find?_eq_some he

theorem keys_nodup (m : OrderedMap K V) : (m.entries.map Prod.fst).Nodup :=
  List.pairwise_map.mpr (m.sorted.imp fun h => h.ne)

theorem eq_of_mem (hv : (k, v) ∈ m.entries) (hw : (k, w) ∈ m.entries) : v = w :=
  congrArg Prod.snd (List.inj_on_of_nodup_map m.keys_nodup hv hw rfl)

theorem find_eq_some_iff : m.find k = some v ↔ (k, v) ∈ m.entries := by
  refine ⟨mem_of_find, fun h => ?_⟩
  have hsome : (m.entries.find? fun e => e.1 = k).isSome :=
    List.find?_isSome.mpr ⟨(k, v), h, decide_eq_true rfl⟩
  obtain ⟨e, he⟩ := Option.isSome_iff_exists.mp hsome
  have hfind : m.find k = some e.2 := Option.map_eq_some_iff.mpr ⟨e, he, rfl⟩
  rw [hfind, eq_of_mem (mem_of_find hfind) h]

theorem find_filter (p : K × V → Bool) (m : OrderedMap K V) (k : K) :
    (m.filter p).find k = (m.find k).filter fun v => p (k, v) := by
  apply Option.ext
  intro v
  rw [find_eq_some_iff, Option.filter_eq_some_iff, find_eq_some_iff]
  exact List.mem_filter

theorem find_erase_self (m : OrderedMap K V) (k : K) : (m.erase k).find k = none := by
  rw [erase, find_filter]
  simp

theorem find_erase_of_ne (m : OrderedMap K V) (h : k' ≠ k) : (m.erase k).find k' = m.find k' := by
  rw [erase, find_filter]
  cases m.find k' with
  | none => rfl
  | some v => exact Option.filter_some_pos (decide_eq_true h)

theorem of_find_erase {v : V} (h : (m.erase k).find k' = some v) :
    k' ≠ k ∧ m.find k' = some v := by
  rw [erase, find_filter, Option.filter_eq_some_iff, decide_eq_true_iff] at h
  exact h.symm

theorem mem_erase {e : K × V} {k : K} : e ∈ (m.erase k).entries ↔ e ∈ m.entries ∧ e.1 ≠ k :=
  List.mem_filter.trans (and_congr_right fun _ => decide_eq_true_iff)

theorem sublist_erase {e : K × V} {left : List (K × V)} (h : (e :: left).Sublist m.entries) :
    left.Sublist (m.erase e.1).entries := by
  have hnodup : ((e :: left).map Prod.fst).Nodup := m.keys_nodup.sublist (h.map _)
  have hne := (List.nodup_cons.mp hnodup).1
  have hfilter : left.filter (fun x => x.1 ≠ e.1) = left := by
    refine List.filter_eq_self.mpr fun x hx => decide_eq_true fun hsame => hne ?_
    exact hsame ▸ List.mem_map_of_mem hx
  rw [← hfilter]
  exact ((List.sublist_cons_self e left).trans h).filter _

theorem mem_place_iff (hes : es.Pairwise fun a b => a.1 < b.1) (a : K × V) :
    a ∈ place k v es ↔ a = (k, v) ∨ a ∈ es ∧ a.1 ≠ k := by
  induction es with
  | nil => simp [place]
  | cons e es ih =>
    obtain ⟨hhead, htail⟩ := List.pairwise_cons.mp hes
    rw [place]
    split_ifs with hlt heq
    · have hother : ∀ b ∈ e :: es, b.1 ≠ k := by
        intro b hb
        rcases List.mem_cons.mp hb with rfl | hb
        · exact hlt.ne'
        · exact (hlt.trans (hhead b hb)).ne'
      rw [List.mem_cons]
      exact or_congr_right ⟨fun h => ⟨h, hother a h⟩, And.left⟩
    · have hother : ∀ b ∈ es, b.1 ≠ k := fun b hb => heq ▸ (hhead b hb).ne'
      rw [List.mem_cons, List.mem_cons]
      refine or_congr_right ⟨fun h => ⟨.inr h, hother a h⟩, fun h => ?_⟩
      rcases h.1 with rfl | hmem
      · exact absurd heq.symm h.2
      · exact hmem
    · rw [List.mem_cons, List.mem_cons, ih htail]
      constructor
      · rintro (rfl | rfl | ⟨hmem, hne⟩)
        · exact .inr ⟨.inl rfl, Ne.symm heq⟩
        · exact .inl rfl
        · exact .inr ⟨.inr hmem, hne⟩
      · rintro (rfl | ⟨rfl | hmem, hne⟩)
        · exact .inr (.inl rfl)
        · exact .inl rfl
        · exact .inr (.inr ⟨hmem, hne⟩)

theorem find_insertOrAssign_self (m : OrderedMap K V) (k : K) (v : V) :
    (m.insertOrAssign k v).find k = some v :=
  find_eq_some_iff.mpr ((mem_place_iff m.sorted _).mpr (.inl rfl))

theorem find_insertOrAssign_of_ne (m : OrderedMap K V) (v : V) (h : k' ≠ k) :
    (m.insertOrAssign k v).find k' = m.find k' := by
  apply Option.ext
  intro w
  rw [find_eq_some_iff, find_eq_some_iff]
  refine (mem_place_iff m.sorted _).trans ⟨?_, fun hmem => .inr ⟨hmem, h⟩⟩
  rintro (heq | ⟨hmem, -⟩)
  · exact absurd (congrArg Prod.fst heq) h
  · exact hmem

theorem find_insertOrAssign (m : OrderedMap K V) (k : K) (v : V) :
    (m.insertOrAssign k v).find = Function.update m.find k (some v) := by
  funext k'
  by_cases h : k' = k
  · rw [h, find_insertOrAssign_self, Function.update_self]
  · rw [find_insertOrAssign_of_ne m v h, Function.update_of_ne h]

theorem find_erase (m : OrderedMap K V) (k : K) :
    (m.erase k).find = Function.update m.find k none := by
  funext k'
  by_cases h : k' = k
  · rw [h, find_erase_self, Function.update_self]
  · rw [find_erase_of_ne m h, Function.update_of_ne h]

theorem find_mapValues (f : V → V) (m : OrderedMap K V) (k : K) :
    (m.mapValues f).find k = (m.find k).map f := by
  rw [find, find, mapValues, List.find?_map, Option.map_map, Option.map_map]
  rfl

end OrderedMap
