import Mathlib.Data.List.Basic
import Mathlib.Data.List.Infix
import Mathlib.Data.List.Perm.Basic
import Mathlib.Logic.Function.Basic
import Mathlib.Tactic.Common

/-!
# Queues in custody

A key is free, busy, or held for a ticket, and things wait for it in a queue. A ticket is
pending for one key. `Action` lists what can be done to keys, tickets and queues in one go,
`Settled` says that nothing waits for a free key, and `Tracked` that a key is held for every
pending ticket. `Custody.Turn` collects what each action keeps and breaks, and composes.
-/

/-- What has been put into the queues and taken out of them. -/
inductive Traffic (K P : Type*) where
  | appended (k : K) (ps : List P)
  | prepended (k : K) (ps : List P)
  | released (k : K) (ps : List P)

namespace Traffic

variable {K P : Type*} [DecidableEq K]

def release (k : K) : List P → List (Traffic K P)
  | [] => []
  | p :: ps => [released k (p :: ps)]

/-- The queue of a key behind some traffic. Only what stands at its front can leave it. -/
def deliver [DecidableEq P] (k : K) (q : List P) : Traffic K P → Option (List P)
  | appended k' ps => some (if k' = k then q ++ ps else q)
  | prepended k' ps => some (if k' = k then ps ++ q else q)
  | released k' ps => if k' = k then ps.isPrefixOf? q else some q

def replay [DecidableEq P] (k : K) (q : List P) (ts : List (Traffic K P)) : Option (List P) :=
  ts.foldlM (deliver k) q

/-- What comes to a key with one piece of traffic. -/
def came (k : K) : Traffic K P → List P
  | appended k' ps => if k' = k then ps else []
  | prepended k' ps => if k' = k then ps else []
  | released _ _ => []

def went (k : K) : Traffic K P → List P
  | appended _ _ => []
  | prepended _ _ => []
  | released k' ps => if k' = k then ps else []

def entered (k : K) (ts : List (Traffic K P)) : List P :=
  ts.flatMap (came k)

def left (k : K) (ts : List (Traffic K P)) : List P :=
  ts.flatMap (went k)

variable [DecidableEq P] {k k' : K} {q q' ps : List P} {ts ts' : List (Traffic K P)}

theorem replay_append (hq : replay k q ts = some q') :
    replay k q (ts ++ ts') = replay k q' ts' := by
  rw [replay, List.foldlM_append]
  exact congrArg (· >>= fun q => ts'.foldlM (deliver k) q) hq

theorem replay_cons (t : Traffic K P) :
    replay k q (t :: ts) = (deliver k q t).bind fun q => replay k q ts :=
  rfl

theorem replay_appended : replay k q [appended k' ps] = some (if k' = k then q ++ ps else q) :=
  rfl

theorem replay_prepended : replay k q [prepended k' ps] = some (if k' = k then ps ++ q else q) :=
  rfl

theorem replay_release (h : k' = k → ps = q) :
    replay k q (release k' ps) = some (if k' = k then [] else q) := by
  by_cases hk : k' = k
  · obtain rfl := h hk
    rw [if_pos hk]
    cases ps with
    | nil => rfl
    | cons p ps =>
      rw [release, replay_cons, deliver, if_pos hk, Option.bind_eq_some_iff]
      exact ⟨[], List.isPrefixOf?_eq_some_iff_append_eq.mpr (List.append_nil _), rfl⟩
  · rw [if_neg hk]
    cases ps with
    | nil => rfl
    | cons p ps => rw [release, replay_cons, deliver, if_neg hk]; rfl

theorem fifo_of_deliver {t : Traffic K P} (h : deliver k q t = some q')
    (ht : ∀ ps, t ≠ prepended k ps) : q ++ came k t = went k t ++ q' := by
  cases t with
  | appended k' ps =>
    obtain rfl := Option.some.inj h
    rw [came, went, List.nil_append]
    split_ifs with hk
    · rfl
    · exact List.append_nil q
  | prepended k' ps =>
    have hk : k' ≠ k := by
      rintro rfl
      exact ht ps rfl
    obtain rfl := Option.some.inj h
    rw [came, went, List.nil_append, if_neg hk, if_neg hk, List.append_nil]
  | released k' ps =>
    rw [deliver] at h
    rw [came, went, List.append_nil]
    split_ifs at h ⊢ with hk
    · exact (List.isPrefixOf?_eq_some_iff_append_eq.mp h).symm
    · exact Option.some.inj h

theorem perm_of_deliver {t : Traffic K P} (h : deliver k q t = some q') :
    (q ++ came k t).Perm (went k t ++ q') := by
  by_cases ht : ∃ ps, t = prepended k ps
  · obtain ⟨ps, rfl⟩ := ht
    obtain rfl := Option.some.inj h
    rw [came, went, if_pos rfl, if_pos rfl]
    exact List.perm_append_comm
  · exact .of_eq (fifo_of_deliver h fun ps heq => ht ⟨ps, heq⟩)

theorem perm_of_replay (h : replay k q ts = some q') :
    (q ++ entered k ts).Perm (left k ts ++ q') := by
  induction ts generalizing q with
  | nil =>
    obtain rfl := Option.some.inj h
    exact .of_eq (List.append_nil q)
  | cons t ts ih =>
    obtain ⟨r, hr, hrest⟩ := Option.bind_eq_some_iff.mp h
    rw [entered, left, List.flatMap_cons, List.flatMap_cons, ← List.append_assoc]
    refine ((perm_of_deliver hr).append_right _).trans ?_
    rw [List.append_assoc, List.append_assoc]
    exact (ih hrest).append_left _

theorem fifo_of_replay (h : replay k q ts = some q') (hts : ∀ ps, prepended k ps ∉ ts) :
    q ++ entered k ts = left k ts ++ q' := by
  induction ts generalizing q with
  | nil =>
    obtain rfl := Option.some.inj h
    exact List.append_nil q
  | cons t ts ih =>
    obtain ⟨r, hr, hrest⟩ := Option.bind_eq_some_iff.mp h
    have hhead := fifo_of_deliver hr fun ps heq => hts ps (heq ▸ List.mem_cons_self)
    have htail := ih hrest fun ps hmem => hts ps (List.mem_cons_of_mem t hmem)
    rw [entered, left, List.flatMap_cons, List.flatMap_cons, ← List.append_assoc, hhead,
      List.append_assoc, List.append_assoc]
    exact congrArg _ htail

end Traffic

/-- What a key is taken by. -/
inductive Tenure (T : Type*) where
  | free
  | busy
  | held (t : T)

@[ext] structure Custody (K T P : Type*) where
  tenure : K → Tenure T
  tickets : T → Option K
  queue : K → List P

namespace Custody

variable {K T P : Type*}

/-- Nothing waits for a free key. -/
def Settled (s : Custody K T P) : Prop :=
  ∀ k, s.tenure k = .free → s.queue k = []

def Tracked (s : Custody K T P) : Prop :=
  ∀ t k, s.tickets t = some k → s.tenure k = .held t

/-- The ticket that a key is held for is pending for this key. -/
def Owned (s : Custody K T P) : Prop :=
  ∀ t k, s.tenure k = .held t → s.tickets t = some k

/-- What can be done in one go. A key is `left` and a ticket is `kept` when the queue stays
as it is, and a ticket is `surrendered` when its key stays busy. -/
inductive Action (K T P : Type*) where
  | idle
  | occupy (k : K)
  | hold (k : K) (t : T)
  | leave (k : K)
  | discard (k : K)
  | append (k : K) (ps : List P)
  | prepend (k : K) (ps : List P)
  | take (k : K)
  | close (t : T) (k : K)
  | keep (t : T) (k : K)
  | surrender (t : T) (k : K)

namespace Action

variable [DecidableEq K] [DecidableEq T]

variable (s : Custody K T P)

def Enabled : Action K T P → Prop
  | hold k t => s.tenure k = .free ∧ s.tickets t = none
  | append k _ => s.tenure k ≠ .free
  | close t k | keep t k | surrender t k => s.tickets t = some k
  | _ => True

def apply : Action K T P → Custody K T P
  | idle => s
  | occupy k => { s with tenure := Function.update s.tenure k .busy }
  | hold k t =>
    { s with
      tenure := Function.update s.tenure k (.held t)
      tickets := Function.update s.tickets t (some k) }
  | leave k => { s with tenure := Function.update s.tenure k .free }
  | discard k =>
    { s with
      tenure := Function.update s.tenure k .free
      queue := Function.update s.queue k [] }
  | append k ps => { s with queue := Function.update s.queue k (s.queue k ++ ps) }
  | prepend k ps => { s with queue := Function.update s.queue k (ps ++ s.queue k) }
  | take k => { s with queue := Function.update s.queue k [] }
  | close t k =>
    { tenure := Function.update s.tenure k .free
      tickets := Function.update s.tickets t none
      queue := Function.update s.queue k [] }
  | keep t k =>
    { s with
      tenure := Function.update s.tenure k .free
      tickets := Function.update s.tickets t none }
  | surrender t k =>
    { s with
      tenure := Function.update s.tenure k .busy
      tickets := Function.update s.tickets t none }

def traffic : Action K T P → List (Traffic K P)
  | discard k | take k | close _ k => Traffic.release k (s.queue k)
  | append k ps => [.appended k ps]
  | prepend k ps => [.prepended k ps]
  | _ => []

def Settles : Action K T P → Prop
  | leave k | keep _ k => s.queue k = []
  | prepend k ps => s.tenure k = .free → ps = []
  | _ => True

/-- The action takes no key away from the ticket that it is held for. -/
def Respects : Action K T P → Prop
  | occupy k | leave k | discard k => ∀ t, s.tenure k ≠ .held t
  | _ => True

end Action

section Changes

variable [DecidableEq K] {s : Custody K T P} {k : K} {t : T} {v : Tenure T}
  {q : K → List P}

theorem owned_of_update (hv : ∀ t, v ≠ .held t) (ho : s.Owned) :
    Owned ⟨Function.update s.tenure k v, s.tickets, q⟩ := by
  intro t' k' (hheld : Function.update s.tenure k v k' = .held t')
  by_cases hk : k' = k
  · subst hk
    rw [Function.update_self] at hheld
    exact absurd hheld (hv t')
  · rw [Function.update_of_ne hk] at hheld
    exact ho t' k' hheld

theorem tracked_update_iff (hv : ∀ t, v ≠ .held t) (ho : s.Owned) (ht : s.Tracked) :
    Tracked ⟨Function.update s.tenure k v, s.tickets, q⟩ ↔ ∀ t, s.tenure k ≠ .held t := by
  constructor
  · intro h t hheld
    have hnew : Function.update s.tenure k v k = .held t := h t k (ho t k hheld)
    rw [Function.update_self] at hnew
    exact hv t hnew
  · intro h t' k' hticket
    have hk : k' ≠ k := by
      rintro rfl
      exact h t' (ht t' k' hticket)
    exact (Function.update_of_ne hk v s.tenure).trans (ht t' k' hticket)

theorem settled_free_iff {f : T → Option K} (hs : s.Settled) :
    Settled ⟨Function.update s.tenure k .free, f, s.queue⟩ ↔ s.queue k = [] := by
  constructor
  · intro h
    exact h k (Function.update_self ..)
  · intro hempty k' (hfree : Function.update s.tenure k .free k' = .free)
    by_cases hk : k' = k
    · exact hk ▸ hempty
    · rw [Function.update_of_ne hk] at hfree
      exact hs k' hfree

theorem settled_of_taken {f : T → Option K} (hv : v ≠ .free) (hs : s.Settled) :
    Settled ⟨Function.update s.tenure k v, f, s.queue⟩ := by
  intro k' (hfree : Function.update s.tenure k v k' = .free)
  by_cases hk : k' = k
  · subst hk
    rw [Function.update_self] at hfree
    exact absurd hfree hv
  · rw [Function.update_of_ne hk] at hfree
    exact hs k' hfree

theorem settled_of_queue {ps : List P} (hs : s.Settled) (hk : s.tenure k = .free → ps = []) :
    Settled ⟨s.tenure, s.tickets, Function.update s.queue k ps⟩ := by
  intro k' hfree
  by_cases h : k' = k
  · subst h
    exact (Function.update_self ..).trans (hk hfree)
  · exact (Function.update_of_ne h _ s.queue).trans (hs k' hfree)

theorem settled_of_update {f : T → Option K} {ps : List P} (hs : s.Settled)
    (hk : v = .free → ps = []) :
    Settled ⟨Function.update s.tenure k v, f, Function.update s.queue k ps⟩ := by
  intro k' (hfree : Function.update s.tenure k v k' = .free)
  by_cases h : k' = k
  · subst h
    rw [Function.update_self] at hfree
    exact (Function.update_self ..).trans (hk hfree)
  · rw [Function.update_of_ne h] at hfree
    exact (Function.update_of_ne h _ s.queue).trans (hs k' hfree)

variable [DecidableEq T]

theorem owned_of_remove (hv : ∀ t, v ≠ .held t) (hticket : s.tickets t = some k) (ho : s.Owned) :
    Owned ⟨Function.update s.tenure k v, Function.update s.tickets t none, q⟩ := by
  intro t' k' (hheld : Function.update s.tenure k v k' = .held t')
  by_cases hk : k' = k
  · subst hk
    rw [Function.update_self] at hheld
    exact absurd hheld (hv t')
  · rw [Function.update_of_ne hk] at hheld
    have hpending := ho t' k' hheld
    have hne : t' ≠ t := by
      rintro rfl
      exact hk (Option.some.inj (hpending.symm.trans hticket))
    exact (Function.update_of_ne hne _ s.tickets).trans hpending

theorem tracked_of_remove (hticket : s.tickets t = some k) (ht : s.Tracked) :
    Tracked ⟨Function.update s.tenure k v, Function.update s.tickets t none, q⟩ := by
  intro t' k' (hpending : Function.update s.tickets t none t' = some k')
  have hne : t' ≠ t := by
    rintro rfl
    rw [Function.update_self] at hpending
    cases hpending
  rw [Function.update_of_ne hne] at hpending
  have hheld := ht t' k' hpending
  have hk : k' ≠ k := by
    rintro rfl
    exact hne (Tenure.held.inj (hheld.symm.trans (ht t k' hticket)))
  exact (Function.update_of_ne hk v s.tenure).trans hheld

theorem owned_of_hold (hnone : s.tickets t = none) (ho : s.Owned) :
    Owned ⟨Function.update s.tenure k (.held t), Function.update s.tickets t (some k), q⟩ := by
  intro t' k' (hheld : Function.update s.tenure k (.held t) k' = .held t')
  by_cases hk : k' = k
  · subst hk
    rw [Function.update_self] at hheld
    obtain rfl := Tenure.held.inj hheld
    exact Function.update_self ..
  · rw [Function.update_of_ne hk] at hheld
    have hpending := ho t' k' hheld
    have hne : t' ≠ t := by
      rintro rfl
      rw [hnone] at hpending
      cases hpending
    exact (Function.update_of_ne hne _ s.tickets).trans hpending

theorem tracked_of_hold (hfree : s.tenure k = .free) (ht : s.Tracked) :
    Tracked ⟨Function.update s.tenure k (.held t), Function.update s.tickets t (some k), q⟩ := by
  intro t' k' (hpending : Function.update s.tickets t (some k) t' = some k')
  by_cases hne : t' = t
  · subst hne
    rw [Function.update_self] at hpending
    obtain rfl := Option.some.inj hpending
    exact Function.update_self ..
  · rw [Function.update_of_ne hne] at hpending
    have hheld := ht t' k' hpending
    have hk : k' ≠ k := by
      rintro rfl
      rw [hfree] at hheld
      cases hheld
    exact (Function.update_of_ne hk _ s.tenure).trans hheld

end Changes

/-- What a turn does: the queues change by its traffic, a key that it takes starts with the
queue it had, and it keeps everything settled and tracked under exactly these conditions. -/
structure Turn [DecidableEq K] [DecidableEq P] (s s' : Custody K T P)
    (ts : List (Traffic K P)) (settles respects : Prop) : Prop where
  replay (k : K) : Traffic.replay k (s.queue k) ts = some (s'.queue k)
  taken (k : K) (hfree : s.tenure k = .free) (h : s'.tenure k ≠ .free) : s'.queue k = s.queue k
  owned : s.Owned → s'.Owned
  settled : s.Settled → (s'.Settled ↔ settles)
  tracked : s.Owned → s.Tracked → (s'.Tracked ↔ respects)

namespace Action

variable [DecidableEq K] [DecidableEq T] {s : Custody K T P} {a : Action K T P}

omit [DecidableEq T] in
theorem ite_eq_update {k k' : K} {f : K → List P} {ps qs : List P} (h : k' = k → ps = qs) :
    (if k' = k then ps else f k) = Function.update f k' qs k := by
  split_ifs with hk
  · rw [h hk, hk, Function.update_self]
  · exact (Function.update_of_ne (Ne.symm hk) _ f).symm

theorem replay_traffic [DecidableEq P] (a : Action K T P) (s : Custody K T P) (k : K) :
    Traffic.replay k (s.queue k) (a.traffic s) = some ((a.apply s).queue k) := by
  cases a with
  | idle | occupy | hold | leave | keep | surrender => rfl
  | append k' ps =>
    rw [traffic, Traffic.replay_appended]
    exact congrArg some (ite_eq_update fun h => h ▸ rfl)
  | prepend k' ps =>
    rw [traffic, Traffic.replay_prepended]
    exact congrArg some (ite_eq_update fun h => h ▸ rfl)
  | discard k' | take k' | close _ k' =>
    rw [traffic, Traffic.replay_release (congrArg s.queue)]
    exact congrArg some (ite_eq_update fun _ => rfl)

theorem queue_of_taken (hen : a.Enabled s) {k : K} (hfree : s.tenure k = .free)
    (h : (a.apply s).tenure k ≠ .free) : (a.apply s).queue k = s.queue k := by
  cases a with
  | idle | occupy | hold | leave | keep | surrender => rfl
  | append | prepend | take => exact absurd hfree h
  | discard k' | close _ k' =>
    have hk : k ≠ k' := by
      rintro rfl
      exact h (Function.update_self ..)
    exact Function.update_of_ne hk ..

theorem owned_apply (hen : a.Enabled s) (ho : s.Owned) : (a.apply s).Owned := by
  cases a with
  | idle | append | prepend | take => exact ho
  | occupy | leave | discard => exact owned_of_update (fun _ => nofun) ho
  | hold => exact owned_of_hold hen.2 ho
  | close | keep | surrender => exact owned_of_remove (fun _ => nofun) hen ho

theorem tracked_apply_iff (hen : a.Enabled s) (ho : s.Owned) (ht : s.Tracked) :
    (a.apply s).Tracked ↔ a.Respects s := by
  cases a with
  | idle | append | prepend | take => exact iff_of_true ht trivial
  | occupy | leave | discard => exact tracked_update_iff (fun _ => nofun) ho ht
  | hold => exact iff_of_true (tracked_of_hold hen.1 ht) trivial
  | close | keep | surrender => exact iff_of_true (tracked_of_remove hen ht) trivial

theorem settled_apply_iff (hen : a.Enabled s) (hs : s.Settled) :
    (a.apply s).Settled ↔ a.Settles s := by
  cases a with
  | idle => exact iff_of_true hs trivial
  | leave | keep => exact settled_free_iff hs
  | discard | close => exact iff_of_true (settled_of_update hs fun _ => rfl) trivial
  | occupy | surrender =>
    exact iff_of_true (settled_of_taken nofun hs) trivial
  | hold => exact iff_of_true (settled_of_taken nofun hs) trivial
  | append k ps => exact iff_of_true (settled_of_queue hs fun h => absurd h hen) trivial
  | take => exact iff_of_true (settled_of_queue hs fun _ => rfl) trivial
  | prepend k ps =>
    constructor
    · intro h hfree
      have hempty : Function.update s.queue k (ps ++ s.queue k) k = [] := h k hfree
      rw [Function.update_self] at hempty
      exact (List.append_eq_nil_iff.mp hempty).1
    · intro h
      refine settled_of_queue hs fun hfree => ?_
      rw [h hfree, hs k hfree, List.append_nil]

theorem turn [DecidableEq P] (a : Action K T P) (hen : a.Enabled s) :
    Turn s (a.apply s) (a.traffic s) (a.Settles s) (a.Respects s) where
  replay := a.replay_traffic s
  taken _ := queue_of_taken hen
  owned := owned_apply hen
  settled := settled_apply_iff hen
  tracked := tracked_apply_iff hen

end Action

namespace Turn

variable [DecidableEq K] [DecidableEq P] {s s' s'' : Custody K T P} {ts ts' : List (Traffic K P)}
  {settles respects : Prop}

theorem of_action [DecidableEq T] (a : Action K T P) (hen : a.Enabled s) (hview : s' = a.apply s)
    (htraffic : ts = a.traffic s) (hsettles : settles ↔ a.Settles s)
    (hrespects : respects ↔ a.Respects s) : Turn s s' ts settles respects := by
  subst hview htraffic
  rw [propext hsettles, propext hrespects]
  exact a.turn hen

theorem congr {settles' respects' : Prop} (h : Turn s s' ts settles respects)
    (hsettles : settles' ↔ settles) (hrespects : respects' ↔ respects) :
    Turn s s' ts settles' respects' := by
  rwa [propext hsettles, propext hrespects]

theorem idle (h : s' = s) : Turn s s' [] True True where
  replay _ := h ▸ rfl
  taken _ _ _ := h ▸ rfl
  owned ho := h ▸ ho
  settled hs := iff_of_true (h ▸ hs) trivial
  tracked _ ht := iff_of_true (h ▸ ht) trivial

theorem trans (h : Turn s s' ts True True) (h' : Turn s' s'' ts' True True)
    (hfree : ∀ k, s.tenure k = .free → s''.tenure k = .free) :
    Turn s s'' (ts ++ ts') True True where
  replay k := (Traffic.replay_append (h.replay k)).trans (h'.replay k)
  taken k hstart hend := absurd (hfree k hstart) hend
  owned ho := h'.owned (h.owned ho)
  settled hs := h'.settled ((h.settled hs).mpr trivial)
  tracked ho ht := h'.tracked (h.owned ho) ((h.tracked ho ht).mpr trivial)

end Turn

end Custody
