import Zlink.Distribution.Partitions

/-!
# Published records

An XPUB socket chooses the pipes of a record at its first part, and asks them for room
then. The further parts go to those of the chosen pipes that are left: a pipe that refuses
a part loses the parts it has and is passive, and a pipe that comes or that gets its credit
back waits for the next record. A part that is too large for one of the pipes takes the
record back from all of them.

The parts sent of the record in progress and the records published are kept beside the
state; nothing reads them.
-/

namespace Zlink.Distribution

variable {P α : Type} [DecidableEq P]

inductive Selection (P : Type) where
  | all
  | subscribed (pipes : List P)

/-- A part to be published, with what the socket finds when it sends it. -/
structure Request (P α : Type) where
  part : LoadBalancer.Part α
  selection : Selection P
  invert : Bool
  credit : P → Credit
  tooLarge : P → Bool
  verdict : P → Verdict

/-- How `xsend` ends; a part that is too large may end a record that was begun. -/
inductive Rc where
  | sent
  | refused (admission : LoadBalancer.Admission)
  | tooLarge (aborted : Bool)

structure XPub (P α : Type) where
  dist : Dist P α
  moreSend : Bool
  lossy : Bool
  sent : List (LoadBalancer.Part α)
  published : List (List (LoadBalancer.Part α))

namespace XPub

def create (lossy : Bool) : XPub P α :=
  { dist := Dist.create fun _ => Outlet.create.terminate
    moreSend := false
    lossy := lossy
    sent := []
    published := [] }

def choose (d : Dist P α) : Selection P → Option (Dist P α)
  | .all => some d.unmatch.matchAll
  | .subscribed pipes => pipes.foldlM Dist.matchPipe d.unmatch

/-- The destinations of a record. -/
def select (d : Dist P α) (selection : Selection P) (invert : Bool) : Option (Dist P α) := do
  let d ← choose d selection
  if invert then d.reverseMatch else some d

/-- What comes before a part is sent: a first part chooses its pipes and checks them. -/
def prepare (x : XPub P α) (r : Request P α) : Option (Dist P α × LoadBalancer.Admission) :=
  if x.moreSend then some (x.dist, .ready)
  else (select x.dist r.selection r.invert).bind fun d =>
    d.checkPublishRecordHwm x.lossy r.credit

def xsend (x : XPub P α) (r : Request P α) : Option (XPub P α × Rc) := do
  let (d, admission) ← x.prepare r
  if admission = .ready then do
    let (d, sent) ← d.sendToMatching true r.part r.tooLarge r.verdict
    if !sent then
      return ({ x with dist := d, moreSend := false, sent := [] }, .tooLarge x.moreSend)
    else if r.part.more then
      return ({ x with dist := d, moreSend := true, sent := x.sent ++ [r.part] }, .sent)
    else
      return ({ x with
        dist := d.unmatch
        moreSend := false
        sent := []
        published := x.published ++ [x.sent ++ [r.part]] }, .sent)
  else return ({ x with dist := d }, .refused admission)

def xrollback (x : XPub P α) : XPub P α :=
  { x with dist := x.dist.rollback, moreSend := false, sent := [] }

inductive Event (P α : Type) where
  | publish (r : Request P α)
  | rollback
  | attach (p : P)
  | terminate (p : P)
  | pipeTerminated (p : P)
  | activateWrite (p : P) (credit : Bool)

def step (x : XPub P α) : Event P α → Option (XPub P α)
  | .publish r => (x.xsend r).map Prod.fst
  | .rollback => some x.xrollback
  | .attach p =>
    if p ∈ x.dist.pipes then none
    else ((x.dist.setOutlet p Outlet.create).attach p).map fun d => { x with dist := d }
  | .terminate p =>
    some { x with dist := x.dist.setOutlet p (x.dist.outlet p).terminate }
  | .pipeTerminated p =>
    ((x.dist.setOutlet p (x.dist.outlet p).terminate).pipeTerminated p).map fun d =>
      { x with dist := d }
  | .activateWrite p credit =>
    let (o, told) := (x.dist.outlet p).activateWrite credit
    let d := x.dist.setOutlet p o
    if told then (d.activated p).map fun d => { x with dist := d }
    else some { x with dist := d }

end XPub

namespace Outlet

variable {o : Outlet α} {more admitted : Bool} {part : LoadBalancer.Part α}
  {verdict : Verdict}

theorem fanOut_taken (h : (o.fanOut more admitted part verdict).2 = true) :
    o.active = true ∧ o.outActive = true ∧
      (o.fanOut more admitted part verdict).1 = { o with queue := o.queue.push part } := by
  by_cases hready : (o.active && o.outActive) = true
  · cases verdict with
    | accepts =>
      rw [Bool.and_eq_true] at hready
      simp [fanOut, write, hready]
    | refuses arms => simp [fanOut, write, hready] at h
  · simp [fanOut, write, hready] at h

theorem fanOut_refused (h : (o.fanOut more admitted part verdict).2 = false) :
    (o.fanOut more admitted part verdict).1.active = o.active ∧
      (o.fanOut more admitted part verdict).1.queue =
        if more then o.queue.rollback else o.queue := by
  by_cases hready : (o.active && o.outActive) = true
  · cases verdict with
    | accepts => simp [fanOut, write, hready] at h
    | refuses arms => cases more <;> simp [fanOut, write, hready, rollback]
  · cases more <;> simp [fanOut, write, hready, rollback]

end Outlet

theorem Outlet.check_spec {α : Type} (o : Outlet α) (c : Credit) :
    (o.checkPublishRecordHwm c).1.queue = o.queue ∧
      (o.checkPublishRecordHwm c).1.active = o.active := by
  unfold Outlet.checkPublishRecordHwm
  split_ifs <;> exact ⟨rfl, rfl⟩

namespace Dist

variable {d : Dist P α}

def Matching (d : Dist P α) (p : P) : Prop :=
  p ∈ d.pipes ∧ d.index p < d.matching

structure Checked (d d' : Dist P α) : Prop where
  ordered : Ordered d'
  settled : d.active = d.eligible → d'.active = d'.eligible
  more : d'.more = d.more
  mem : ∀ x, x ∈ d'.pipes ↔ x ∈ d.pipes
  queue : ∀ x, (d'.outlet x).queue = (d.outlet x).queue
  active : ∀ x, (d'.outlet x).active = (d.outlet x).active

omit [DecidableEq P] in
theorem Checked.refl (h : Ordered d) : Checked d d :=
  { ordered := h, settled := id, more := rfl, mem := fun _ => Iff.rfl
    queue := fun _ => rfl, active := fun _ => rfl }

omit [DecidableEq P] in
theorem Checked.trans {d₁ d₂ d₃ : Dist P α} (h : Checked d₁ d₂) (h' : Checked d₂ d₃) :
    Checked d₁ d₃ :=
  { ordered := h'.ordered, settled := h'.settled ∘ h.settled, more := h'.more.trans h.more
    mem := fun x => (h'.mem x).trans (h.mem x)
    queue := fun x => (h'.queue x).trans (h.queue x)
    active := fun x => (h'.active x).trans (h.active x) }

theorem Checked.setOutlet (h : Ordered d) {p : P} {o : Outlet α}
    (hqueue : o.queue = (d.outlet p).queue) (hactive : o.active = (d.outlet p).active) :
    Checked d (d.setOutlet p o) :=
  { ordered :=
      { toCounted := h.toCounted.setOutlet p o
        matching_le_active := h.matching_le_active }
    settled := id
    more := rfl
    mem := fun _ => Iff.rfl
    queue := by
      intro x
      by_cases hx : x = p
      · rw [hx, setOutlet_self, hqueue]
      · rw [setOutlet_of_ne hx]
    active := by
      intro x
      by_cases hx : x = p
      · rw [hx, setOutlet_self, hactive]
      · rw [setOutlet_of_ne hx] }

theorem checkFrom_spec (lossy : Bool) (credit : P → Credit) :
    ∀ (fuel : ℕ) (d : Dist P α) (i : ℕ) (result : LoadBalancer.Admission), Ordered d →
      d.matching - i ≤ fuel →
      ∃ d' final, checkFrom lossy credit fuel d i result = some (d', final) ∧ Checked d d' := by
  intro fuel
  induction fuel with
  | zero =>
    intro d i result h hfuel
    exact ⟨d, result, if_neg (by omega), .refl h⟩
  | succ fuel ih =>
    intro d i result h hfuel
    rw [checkFrom]
    by_cases hi : i < d.matching
    · rw [if_pos hi]
      have hlt : i < d.pipes.length := by
        have hm := h.matching_le
        have he := h.eligible_le
        omega
      obtain ⟨p, hp⟩ : ∃ p, d.pipes[i]? = some p := ⟨_, List.getElem?_eq_getElem hlt⟩
      obtain ⟨hqueue, hactive⟩ := Outlet.check_spec (d.outlet p) (credit p)
      rcases hout : (d.outlet p).checkPublishRecordHwm (credit p) with ⟨o, current⟩
      rw [hout] at hqueue hactive
      have hset : Checked d (d.setOutlet p o) := .setOutlet h hqueue hactive
      simp only [hp, hout]
      split
      · -- the pipe is dropped from the record
        obtain ⟨d₁, heq₁, h₁, -⟩ := hset.ordered.deactivate hp hi
        obtain ⟨-, -, l, hl, rfl⟩ := hset.ordered.toCounted.deactivate_eq_some heq₁
        obtain ⟨d', final, heq, hc⟩ := ih _ i result h₁ (by
          show d.matching - 1 - i ≤ fuel
          omega)
        refine ⟨d', final, ?_, hset.trans (Checked.trans ?_ hc)⟩
        · rw [heq₁]
          exact heq
        · exact
            { ordered := h₁
              settled := fun hs => congrArg (· - 1) hs
              more := rfl
              mem := fun _ => hl.mem_iff
              queue := fun _ => rfl
              active := fun _ => rfl }
      · obtain ⟨d', final, heq, hc⟩ := ih (d.setOutlet p o) (i + 1) _ hset.ordered (by
          show d.matching - (i + 1) ≤ fuel
          omega)
        exact ⟨d', final, heq, hset.trans hc⟩
    · rw [if_neg hi]
      exact ⟨d, result, rfl, .refl h⟩

structure Chosen (d d' : Dist P α) : Prop where
  kept : Kept d'
  more : d'.more = d.more
  mem : ∀ x, x ∈ d'.pipes ↔ x ∈ d.pipes
  outlet : d'.outlet = d.outlet

omit [DecidableEq P] in
theorem Chosen.refl (h : Kept d) : Chosen d d :=
  { kept := h, more := rfl, mem := fun _ => Iff.rfl, outlet := rfl }

omit [DecidableEq P] in
theorem Chosen.trans {d₁ d₂ d₃ : Dist P α} (h : Chosen d₁ d₂) (h' : Chosen d₂ d₃) : Chosen d₁ d₃ :=
  { kept := h'.kept, more := h'.more.trans h.more
    mem := fun x => (h'.mem x).trans (h.mem x), outlet := h'.outlet.trans h.outlet }

theorem Kept.unmatch (h : Kept d) : Chosen d d.unmatch := by
  have hstep : d.step .unmatch = some d.unmatch := rfl
  exact
    { kept := h.step hstep, more := rfl, mem := fun _ => Iff.rfl, outlet := rfl }

theorem Kept.matchPipes (h : Kept d) (pipes : List P) :
    ∃ d', pipes.foldlM Dist.matchPipe d = some d' ∧ Chosen d d' := by
  induction pipes generalizing d with
  | nil => exact ⟨d, rfl, .refl h⟩
  | cons p pipes ih =>
    obtain ⟨d₁, heq₁, h₁⟩ : ∃ d₁, d.matchPipe p = some d₁ ∧ Chosen d d₁ := by
      rcases h.toCounted.matchPipe p with heq | ⟨-, -, l, hl, heq⟩
      · exact ⟨d, heq, .refl h⟩
      · have hstep : d.step (.matchPipe p) = some _ := heq
        exact ⟨_, heq,
          { kept := h.step hstep, more := rfl, mem := fun _ => hl.mem_iff, outlet := rfl }⟩
    obtain ⟨d', heq, h'⟩ := ih h₁.kept
    refine ⟨d', ?_, h₁.trans h'⟩
    rw [List.foldlM_cons, heq₁]
    exact heq

end Dist

namespace XPub

open Zlink.Distribution.Dist

variable {x : XPub P α}

theorem select_spec {d : Dist P α} (h : Kept d) (selection : Selection P) (invert : Bool) :
    ∃ d', select d selection invert = some d' ∧ Chosen d d' := by
  obtain ⟨d₁, heq₁, h₁⟩ : ∃ d₁, choose d selection = some d₁ ∧ Chosen d d₁ := by
    have hunmatch := h.unmatch
    cases selection with
    | all =>
      exact ⟨_, rfl,
        { kept := hunmatch.kept.matchAll, more := rfl, mem := fun _ => Iff.rfl
          outlet := rfl }⟩
    | subscribed pipes =>
      obtain ⟨d₁, heq, h₁⟩ := hunmatch.kept.matchPipes pipes
      exact ⟨d₁, heq, hunmatch.trans h₁⟩
  rw [select, heq₁]
  simp only [Option.bind_eq_bind, Option.bind_some]
  cases invert with
  | false => exact ⟨d₁, rfl, h₁⟩
  | true =>
    obtain ⟨l, hl, heq⟩ := h₁.kept.toCounted.reverseMatch
    have hstep : d₁.step .reverseMatch = some _ := heq
    refine ⟨_, heq, h₁.trans ?_⟩
    exact
      { kept := h₁.kept.step hstep, more := rfl, mem := fun _ => hl.mem_iff
        outlet := rfl }

def Whole (record : List (LoadBalancer.Part α)) : Prop :=
  ∃ parts last, record = parts ++ [last] ∧ (∀ f ∈ parts, f.more = true) ∧ last.more = false

/-- The pipe holds the parts of the record in progress. -/
def Carries (d : Dist P α) (p : P) : Prop :=
  d.more = true ∧ d.Matching p ∧ (d.outlet p).active = true

structure Sound (x : XPub P α) : Prop where
  kept : Kept x.dist
  ordered : Ordered x.dist
  more : x.moreSend = x.dist.more
  rest : x.dist.more = false → x.sent = []
  opened : ∀ f ∈ x.sent, f.more = true
  whole : ∀ record ∈ x.published, Whole record
  carries : ∀ p, Carries x.dist p →
    (x.dist.outlet p).queue.pending = x.sent ∧ (x.dist.outlet p).outActive = true
  clean : ∀ p, ¬Carries x.dist p → (x.dist.outlet p).queue.pending = []
  records : ∀ p, (x.dist.outlet p).queue.records.Sublist x.published
  gone : ∀ p, p ∉ x.dist.pipes → (x.dist.outlet p).active = false

theorem sound_create (lossy : Bool) : Sound (create lossy : XPub P α) :=
  { kept := create_kept _
    ordered := (create_kept _).ordered rfl
    more := rfl
    rest := fun _ => rfl
    opened := List.forall_mem_nil _
    whole := List.forall_mem_nil _
    carries := fun _ h => absurd h.1 (by simp [create, Dist.create])
    clean := fun _ _ => rfl
    records := fun _ => List.Sublist.refl []
    gone := fun _ _ => rfl }

theorem Sound.pending_of_not_more (h : Sound x) (hmore : x.dist.more = false) (p : P) :
    (x.dist.outlet p).queue.pending = [] := by
  refine h.clean p ?_
  rintro ⟨hm, -⟩
  rw [hmore] at hm
  exact absurd hm Bool.false_ne_true

theorem Sound.rollback_outlet (h : Sound x) (p : P) :
    (x.dist.rollback.outlet p).queue.pending = [] ∧
      (x.dist.rollback.outlet p).queue.records = (x.dist.outlet p).queue.records ∧
      (x.dist.rollback.outlet p).active = (x.dist.outlet p).active := by
  have hout : x.dist.rollback.outlet p =
      if p ∈ x.dist.pipes.take x.dist.matching then (x.dist.outlet p).rollback
      else x.dist.outlet p := rfl
  by_cases hin : p ∈ x.dist.pipes.take x.dist.matching
  · rw [hout, if_pos hin]
    exact ⟨rfl, rfl, rfl⟩
  · rw [hout, if_neg hin]
    refine ⟨h.clean p ?_, rfl, rfl⟩
    rintro ⟨-, ⟨hp, hlt⟩, -⟩
    exact hin ((List.mem_take_iff_idxOf_lt hp).mpr hlt)

theorem Sound.xrollback (h : Sound x) : Sound x.xrollback := by
  have hroll := h.kept.rollback
  have hout := h.rollback_outlet
  exact
    { kept := hroll.1
      ordered := hroll.2
      more := rfl
      rest := fun _ => rfl
      opened := List.forall_mem_nil _
      whole := h.whole
      carries := fun _ hc => absurd hc.1 Bool.false_ne_true
      clean := fun p _ => (hout p).1
      records := by
        intro p
        show (x.dist.rollback.outlet p).queue.records.Sublist x.published
        rw [(hout p).2.1]
        exact h.records p
      gone := by
        intro p hp
        exact (hout p).2.2.trans (h.gone p hp) }

theorem Sound.moved (h : Sound x) {d : Dist P α} (hkept : Kept d) (hordered : Ordered d)
    (hmore : d.more = x.dist.more) (hcarries : ∀ p, Carries d p → Carries x.dist p ∧
      (d.outlet p).queue = (x.dist.outlet p).queue ∧ (d.outlet p).outActive = true)
    (hclean : ∀ p, ¬Carries d p → (d.outlet p).queue.pending = [])
    (hrecords : ∀ p, (d.outlet p).queue.records.Sublist x.published)
    (hgone : ∀ p, p ∉ d.pipes → (d.outlet p).active = false) : Sound { x with dist := d } :=
  { kept := hkept
    ordered := hordered
    more := h.more.trans hmore.symm
    rest := fun hm => h.rest (hmore.symm.trans hm)
    opened := h.opened
    whole := h.whole
    carries := by
      intro p hp
      obtain ⟨hc, hqueue, hout⟩ := hcarries p hp
      exact ⟨(congrArg _ hqueue).trans (h.carries p hc).1, hout⟩
    clean := hclean
    records := hrecords
    gone := hgone }

theorem prepare_spec (h : Sound x) (r : Request P α) :
    ∃ d admission, x.prepare r = some (d, admission) ∧ Sound { x with dist := d } ∧
      ∀ p, (d.outlet p).queue = (x.dist.outlet p).queue := by
  rw [prepare]
  by_cases hmore : x.moreSend = true
  · rw [if_pos hmore]
    exact ⟨x.dist, .ready, rfl, h, fun _ => rfl⟩
  · rw [if_neg hmore]
    have hdist : x.dist.more = false := by
      rw [← h.more]
      simpa using hmore
    obtain ⟨d₁, heq₁, h₁⟩ := select_spec h.kept r.selection r.invert
    have hmore₁ : d₁.more = false := h₁.more.trans hdist
    obtain ⟨d, final, heq, hc⟩ :=
      checkFrom_spec x.lossy r.credit d₁.matching d₁ 0 .ready (h₁.kept.ordered hmore₁)
        (Nat.sub_le _ _)
    have hqueue : ∀ p, (d.outlet p).queue = (x.dist.outlet p).queue := by
      intro p
      rw [hc.queue p, h₁.outlet]
    have hnot : d.more = false := hc.more.trans hmore₁
    refine ⟨d, final, ?_, h.moved ?_ hc.ordered (hnot.trans hdist.symm) ?_ ?_ ?_ ?_, hqueue⟩
    · rw [heq₁, Option.bind_some]
      exact heq
    · exact
        { toCounted := hc.ordered.toCounted
          settled := fun _ => hc.settled (h₁.kept.settled hmore₁) }
    · intro p hp
      rw [Carries, hnot] at hp
      exact absurd hp.1 Bool.false_ne_true
    · intro p _
      rw [hqueue p]
      exact h.pending_of_not_more hdist p
    · intro p
      rw [hqueue p]
      exact h.records p
    · intro p hp
      rw [hc.active p, h₁.outlet]
      exact h.gone p fun hmem => hp ((hc.mem p).mpr ((h₁.mem p).mpr hmem))

structure Reached (x : XPub P α) (part : LoadBalancer.Part α) (d : Dist P α) (p : P) : Prop where
  taken : d.Matching p → (d.outlet p).active = true ∧ (d.outlet p).outActive = true ∧
    (d.outlet p).queue.pending = (if part.more then x.sent ++ [part] else []) ∧
    (d.outlet p).queue.records = (if part.more then (x.dist.outlet p).queue.records
      else (x.dist.outlet p).queue.records ++ [x.sent ++ [part]])
  missed : ¬d.Matching p → (d.outlet p).queue.pending = [] ∧
    (d.outlet p).queue.records = (x.dist.outlet p).queue.records
  active : (d.outlet p).active = (x.dist.outlet p).active

theorem Sound.reached (h : Sound x) {part : LoadBalancer.Part α} {verdict : P → Verdict}
    {d : Dist P α} (hf : Fanned true part verdict x.dist d 0) (p : P) : Reached x part d p := by
  have hpending : (x.dist.outlet p).active = true → x.dist.Matching p →
      (x.dist.outlet p).queue.pending = x.sent := by
    intro hactive hp
    cases hmore : x.dist.more with
    | true => exact (h.carries p ⟨hmore, hp, hactive⟩).1
    | false => rw [h.pending_of_not_more hmore, h.rest hmore]
  by_cases hp : x.dist.Matching p
  · obtain ⟨hiff, hout⟩ := hf.here p hp.1 (Nat.zero_le _) hp.2
    have hmatch : d.Matching p ↔
        ((x.dist.outlet p).fanOut x.dist.more true part (verdict p)).2 = true := by
      rw [← hiff]
      exact and_iff_right (hf.perm.mem_iff.mpr hp.1)
    cases hok : ((x.dist.outlet p).fanOut x.dist.more true part (verdict p)).2 with
    | true =>
      obtain ⟨hactive, houtActive, hfan⟩ := Outlet.fanOut_taken hok
      rw [hfan] at hout
      refine
        { taken := fun _ => ?_
          missed := fun hnot => absurd (hmatch.mpr hok) hnot
          active := by rw [hout] }
      rw [hout]
      refine ⟨hactive, houtActive, ?_⟩
      rw [LoadBalancer.Queue.push, hpending hactive hp]
      split
      · exact ⟨rfl, rfl⟩
      · exact ⟨rfl, rfl⟩
    | false =>
      obtain ⟨hactive, hqueue⟩ := Outlet.fanOut_refused hok
      rw [← hout] at hactive hqueue
      refine
        { taken := fun hin => ?_
          missed := fun _ => ?_
          active := hactive }
      · rw [hmatch, hok] at hin
        exact absurd hin Bool.false_ne_true
      · rw [hqueue]
        cases hmore : x.dist.more with
        | true => exact ⟨rfl, rfl⟩
        | false => exact ⟨h.pending_of_not_more hmore p, rfl⟩
  · have hbeyond : p ∈ x.dist.pipes → x.dist.matching ≤ x.dist.index p :=
      fun hmem => Nat.le_of_not_lt fun hlt => hp ⟨hmem, hlt⟩
    obtain ⟨hout, hge⟩ := hf.rest p hbeyond
    have hnot : ¬d.Matching p := fun hin =>
      absurd hin.2 (Nat.not_lt_of_le (hge (hf.perm.mem_iff.mp hin.1)))
    refine
      { taken := fun hin => absurd hin hnot
        missed := fun _ => ?_
        active := by rw [hout] }
    rw [hout]
    exact ⟨h.clean p fun hc => hp hc.2.1, rfl⟩

theorem Sound.whole_of_last (h : Sound x) {part : LoadBalancer.Part α}
    (hlast : part.more = false) : Whole (x.sent ++ [part]) :=
  ⟨x.sent, part, rfl, h.opened, hlast⟩

theorem Sound.sent (h : Sound x) {part : LoadBalancer.Part α} (hmore : part.more = true)
    {verdict : P → Verdict} {d : Dist P α} (hf : Fanned true part verdict x.dist d 0) :
    Sound { x with
      dist := { d with more := true }, moreSend := true, sent := x.sent ++ [part] } := by
  have hreached := fun p => h.reached hf p
  have hfinish := hf.ordered.toCounted.finish true
  refine
    { kept := hfinish
      ordered := hf.ordered.finish true
      more := rfl
      rest := fun hm => absurd hm (by simp)
      opened := ?_
      whole := h.whole
      carries := ?_
      clean := ?_
      records := ?_
      gone := ?_ }
  · intro f hfm
    rcases List.mem_append.mp hfm with hold | hnew
    · exact h.opened f hold
    · rw [List.mem_singleton.mp hnew]
      exact hmore
  · rintro p ⟨-, hp, -⟩
    obtain ⟨-, hout, hpending, -⟩ := (hreached p).taken hp
    rw [if_pos hmore] at hpending
    exact ⟨hpending, hout⟩
  · intro p hp
    refine ((hreached p).missed fun hin => ?_).1
    exact hp ⟨rfl, hin, ((hreached p).taken hin).1⟩
  · intro p
    show (d.outlet p).queue.records.Sublist x.published
    by_cases hp : d.Matching p
    · rw [((hreached p).taken hp).2.2.2, if_pos hmore]
      exact h.records p
    · rw [((hreached p).missed hp).2]
      exact h.records p
  · intro p hp
    exact (hreached p).active.trans (h.gone p fun hmem => hp (hf.perm.mem_iff.mpr hmem))

theorem Sound.published (h : Sound x) {part : LoadBalancer.Part α}
    (hmore : part.more = false) {verdict : P → Verdict} {d : Dist P α}
    (hf : Fanned true part verdict x.dist d 0) : Sound { x with
      dist := Dist.unmatch { d with active := d.eligible, more := false }, moreSend := false
      sent := []
      published := x.published ++ [x.sent ++ [part]] } := by
  have hreached := fun p => h.reached hf p
  have hfinish := (hf.ordered.toCounted.finish false).unmatch
  have hno : ¬part.more = true := by
    rw [hmore]
    exact Bool.false_ne_true
  refine
    { kept := hfinish.kept
      ordered := hfinish.kept.ordered rfl
      more := rfl
      rest := fun _ => rfl
      opened := List.forall_mem_nil _
      whole := ?_
      carries := fun p hp => absurd hp.1 Bool.false_ne_true
      clean := ?_
      records := ?_
      gone := ?_ }
  · intro record hr
    rcases List.mem_append.mp hr with hold | hnew
    · exact h.whole record hold
    · rw [List.mem_singleton.mp hnew]
      exact h.whole_of_last hmore
  · intro p _
    show (d.outlet p).queue.pending = []
    by_cases hp : d.Matching p
    · rw [((hreached p).taken hp).2.2.1, if_neg hno]
    · exact ((hreached p).missed hp).1
  · intro p
    show (d.outlet p).queue.records.Sublist (x.published ++ [x.sent ++ [part]])
    by_cases hp : d.Matching p
    · rw [((hreached p).taken hp).2.2.2, if_neg hno]
      exact (h.records p).append (List.Sublist.refl _)
    · rw [((hreached p).missed hp).2]
      exact (h.records p).trans (List.sublist_append_left _ _)
  · intro p hp
    exact (hreached p).active.trans (h.gone p fun hmem => hp (hf.perm.mem_iff.mpr hmem))

theorem Sound.too_large (h : Sound x) : Sound { x with
      dist := if x.dist.more then x.dist.rollback else x.dist, moreSend := false, sent := [] } ∧
    ∀ p, ((if x.dist.more then x.dist.rollback else x.dist).outlet p).queue.pending = [] ∧
      ((if x.dist.more then x.dist.rollback else x.dist).outlet p).queue.records =
        (x.dist.outlet p).queue.records := by
  cases hmore : x.dist.more with
  | true =>
    refine ⟨h.xrollback, ?_⟩
    intro p
    obtain ⟨hpending, hrecords, -⟩ := h.rollback_outlet p
    exact ⟨hpending, hrecords⟩
  | false =>
    have hsend : x.moreSend = false := h.more.trans hmore
    have hsent := h.rest hmore
    refine ⟨?_, fun p => ⟨h.pending_of_not_more hmore p, rfl⟩⟩
    have heq : { x with dist := x.dist, moreSend := false, sent := [] } = x := by
      rw [← hsend, ← hsent]
    exact heq.symm ▸ h

theorem Sound.xsend (h : Sound x) (r : Request P α) : ∃ y rc, x.xsend r = some (y, rc) ∧ Sound y ∧
      ∀ aborted, rc = .tooLarge aborted → ∀ p, (y.dist.outlet p).queue.pending = [] ∧
          (y.dist.outlet p).queue.records = (x.dist.outlet p).queue.records := by
  obtain ⟨d, admission, heq, hd, hqueue⟩ := prepare_spec h r
  rw [XPub.xsend, heq]
  simp only [Option.bind_eq_bind, Option.bind_some]
  by_cases hready : admission = .ready
  · rw [if_pos hready, Dist.sendToMatching]
    by_cases hsize : (true && (d.pipes.take d.matching).any r.tooLarge) = true
    · rw [if_pos hsize]
      obtain ⟨hsound, hclean⟩ := hd.too_large
      refine ⟨_, _, rfl, hsound, ?_⟩
      intro _ _ p
      rw [← hqueue p]
      exact hclean p
    · rw [if_neg hsize]
      obtain ⟨d', hdist, hf⟩ : ∃ d', d.distribute true r.part r.verdict = some d' ∧
          Fanned true r.part r.verdict d d' 0 := hd.ordered.distribute
      rw [hdist]
      cases hmore : r.part.more with
      | true => exact ⟨_, .sent, rfl, hd.sent hmore hf, fun _ hrc => by cases hrc⟩
      | false =>
        have hsound := hd.published hmore hf
        exact ⟨_, .sent, rfl, hsound, fun _ hrc => by cases hrc⟩
  · rw [if_neg hready]
    exact ⟨_, .refused admission, rfl, hd, fun _ hrc => by cases hrc⟩

theorem Sound.terminate (h : Sound x) (p : P) :
    Sound { x with dist := x.dist.setOutlet p (x.dist.outlet p).terminate } := by
  refine h.moved ?_ ?_ rfl ?_ ?_ ?_ ?_
  · exact { toCounted := h.kept.toCounted.setOutlet p _, settled := h.kept.settled }
  · exact
      { toCounted := h.kept.toCounted.setOutlet p _
        matching_le_active := h.ordered.matching_le_active }
  · rintro q ⟨hmore, hq, hactive⟩
    have hne : q ≠ p := by
      rintro rfl
      rw [setOutlet_self] at hactive
      exact absurd hactive Bool.false_ne_true
    rw [setOutlet_of_ne hne] at hactive ⊢
    have hc : Carries x.dist q := ⟨hmore, hq, hactive⟩
    exact ⟨hc, rfl, (h.carries q hc).2⟩
  · intro q hq
    by_cases hne : q = p
    · rw [hne, setOutlet_self]
      rfl
    · rw [setOutlet_of_ne hne]
      refine h.clean q fun hc => hq ⟨hc.1, hc.2.1, ?_⟩
      rw [setOutlet_of_ne hne]
      exact hc.2.2
  · intro q
    by_cases hne : q = p
    · rw [hne, setOutlet_self]
      exact h.records p
    · rw [setOutlet_of_ne hne]
      exact h.records q
  · intro q hq
    by_cases hne : q = p
    · rw [hne, setOutlet_self]
      rfl
    · rw [setOutlet_of_ne hne]
      exact h.gone q hq

theorem Sound.rearranged (h : Sound x) {d : Dist P α} (hkept : Kept d) (hordered : Ordered d)
    (hmore : d.more = x.dist.more) (houtlet : d.outlet = x.dist.outlet)
    (hmatching : x.dist.more = true → ∀ p, (x.dist.outlet p).active = true →
      (d.Matching p ↔ x.dist.Matching p))
    (hgone : ∀ p, p ∉ d.pipes → (x.dist.outlet p).active = false) : Sound { x with dist := d } := by
  have hcarries : ∀ p, Carries d p ↔ Carries x.dist p := by
    intro p
    rw [Carries, Carries, hmore, houtlet]
    constructor
    · rintro ⟨hm, hp, hactive⟩
      exact ⟨hm, (hmatching hm p hactive).mp hp, hactive⟩
    · rintro ⟨hm, hp, hactive⟩
      exact ⟨hm, (hmatching hm p hactive).mpr hp, hactive⟩
  refine h.moved hkept hordered hmore ?_ ?_ ?_ ?_
  · intro p hp
    have hc := (hcarries p).mp hp
    rw [houtlet]
    exact ⟨hc, rfl, (h.carries p hc).2⟩
  · intro p hp
    rw [houtlet]
    exact h.clean p fun hc => hp ((hcarries p).mpr hc)
  · intro p
    rw [houtlet]
    exact h.records p
  · intro p hp
    rw [houtlet]
    exact hgone p hp

theorem Sound.pipeTerminated (h : Sound x) {p : P} (hdead : (x.dist.outlet p).active = false) :
    ∃ d, x.dist.pipeTerminated p = some d ∧ Sound { x with dist := d } := by
  by_cases hp : p ∈ x.dist.pipes
  · obtain ⟨d, heq, hkept, hmore, houtlet, hmem, hrest⟩ := h.kept.pipeTerminated hp
    obtain ⟨hordered, hplace⟩ := hrest h.ordered
    refine ⟨d, heq, h.rearranged hkept hordered hmore houtlet ?_ ?_⟩
    · intro _ q hactive
      have hne : q ≠ p := by
        rintro rfl
        rw [hdead] at hactive
        exact absurd hactive Bool.false_ne_true
      constructor
      · rintro ⟨hq, hlt⟩
        exact ⟨((hmem q).mp hq).1, (hplace q hq).mp hlt⟩
      · rintro ⟨hq, hlt⟩
        have hq' := (hmem q).mpr ⟨hq, hne⟩
        exact ⟨hq', (hplace q hq').mpr hlt⟩
    · intro q hq
      by_cases hne : q = p
      · rw [hne]
        exact hdead
      · exact h.gone q fun hin => hq ((hmem q).mpr ⟨hin, hne⟩)
  · refine ⟨x.dist, ?_, h⟩
    rw [Dist.pipeTerminated, if_pos hp]

theorem Sound.activated (h : Sound x) {p : P} (hactive : (x.dist.outlet p).active = true)
    (hfree : ¬Carries x.dist p) :
    ∃ d, x.dist.activated p = some d ∧ Sound { x with dist := d } := by
  have hp : p ∈ x.dist.pipes := by
    by_contra hnot
    rw [h.gone p hnot] at hactive
    exact Bool.false_ne_true hactive
  have hcalls : Calls x.dist (.activated p) := hp
  obtain ⟨d, heq, hordered⟩ := h.ordered.step h.kept hcalls trivial
  have hkept := h.kept.step heq
  have hactivated : x.dist.activated p = some d := heq
  refine ⟨d, heq, ?_⟩
  by_cases hfull : x.dist.eligible = x.dist.pipes.length
  · rw [h.kept.activated_of_full p hfull, Option.some.injEq] at hactivated
    exact hactivated ▸ h
  · have hlt := Nat.lt_of_le_of_ne h.kept.eligible_le hfull
    obtain ⟨l, hl, hr⟩ := h.kept.activated hp hlt
    rw [hl, Option.some.injEq] at hactivated
    subst hactivated
    refine h.rearranged hkept hordered rfl rfl ?_ ?_
    · intro hmore q _
      have hbeyond : x.dist.matching ≤ x.dist.index p :=
        Nat.le_of_not_lt fun hin => hfree ⟨hmore, ⟨hp, hin⟩, hactive⟩
      have hplace : q ∈ x.dist.pipes →
          (l.idxOf q < x.dist.matching ↔ x.dist.index q < x.dist.matching) := by
        intro hq
        rw [hr.place q hq]
        exact h.kept.activatedAt_matching hbeyond _
      constructor
      · rintro ⟨hq, hin⟩
        have hq' := hr.perm.mem_iff.mp hq
        exact ⟨hq', (hplace hq').mp hin⟩
      · rintro ⟨hq, hin⟩
        exact ⟨hr.perm.mem_iff.mpr hq, (hplace hq).mpr hin⟩
    · intro q hq
      exact h.gone q fun hin => hq (hr.perm.mem_iff.mpr hin)

theorem Sound.credited (h : Sound x) {p : P} (hfree : ¬Carries x.dist p) : Sound { x with
      dist := x.dist.setOutlet p { x.dist.outlet p with outActive := true } } := by
  have hsame : ∀ q, ((x.dist.setOutlet p
      { x.dist.outlet p with outActive := true }).outlet q).active = (x.dist.outlet q).active ∧
      ((x.dist.setOutlet p { x.dist.outlet p with outActive := true }).outlet q).queue =
        (x.dist.outlet q).queue := by
    intro q
    by_cases hne : q = p
    · rw [hne, setOutlet_self]
      exact ⟨rfl, rfl⟩
    · rw [setOutlet_of_ne hne]
      exact ⟨rfl, rfl⟩
  refine h.moved ?_ ?_ rfl ?_ ?_ ?_ ?_
  · exact { toCounted := h.kept.toCounted.setOutlet p _, settled := h.kept.settled }
  · exact
      { toCounted := h.kept.toCounted.setOutlet p _
        matching_le_active := h.ordered.matching_le_active }
  · rintro q ⟨hmore, hq, hq'⟩
    rw [(hsame q).1] at hq'
    have hc : Carries x.dist q := ⟨hmore, hq, hq'⟩
    have hne : q ≠ p := by
      rintro rfl
      exact hfree hc
    refine ⟨hc, (hsame q).2, ?_⟩
    rw [setOutlet_of_ne hne]
    exact (h.carries q hc).2
  · intro q hq
    rw [(hsame q).2]
    refine h.clean q fun hc => hq ⟨hc.1, hc.2.1, ?_⟩
    rw [(hsame q).1]
    exact hc.2.2
  · intro q
    rw [(hsame q).2]
    exact h.records q
  · intro q hq
    rw [(hsame q).1]
    exact h.gone q hq

theorem Sound.attach (h : Sound x) {p : P} (hp : p ∉ x.dist.pipes) :
    ∃ d, (x.dist.setOutlet p Outlet.create).attach p = some d ∧ Sound { x with dist := d } := by
  have hm := h.kept.matching_le
  have he := h.kept.eligible_le
  have hset : Counted (x.dist.setOutlet p Outlet.create) := h.kept.toCounted.setOutlet p _
  have hkept₀ : Kept (x.dist.setOutlet p Outlet.create) :=
    { toCounted := hset, settled := h.kept.settled }
  have hordered₀ : Ordered (x.dist.setOutlet p Outlet.create) :=
    { toCounted := hset, matching_le_active := h.ordered.matching_le_active }
  have hcalls : Calls (x.dist.setOutlet p Outlet.create) (.attach p) := hp
  obtain ⟨d, heq, hordered⟩ := hordered₀.step hkept₀ hcalls trivial
  have hkept := hkept₀.step heq
  rw [Dist.step, if_neg (by exact hp)] at heq
  refine ⟨d, heq, ?_⟩
  obtain ⟨l, hl, hr⟩ := hset.attach hp
  rw [hl, Option.some.injEq] at heq
  subst heq
  have hmem : ∀ q, q ∈ l ↔ q ∈ x.dist.pipes ∨ q = p := by
    intro q
    rw [hr.perm.mem_iff, List.mem_append, List.mem_singleton]
    rfl
  -- in the middle of a message the new pipe is behind the eligible ones
  have hplace : x.dist.more = true → ∀ q ∈ x.dist.pipes ++ [p],
      (l.idxOf q < x.dist.matching ↔ q ∈ x.dist.pipes ∧ x.dist.index q < x.dist.matching) := by
    intro hmore q hq
    have hat : l.idxOf q = SwapArray.exchanged x.dist.eligible x.dist.pipes.length
        ((x.dist.pipes ++ [p]).idxOf q) := by
      rw [hr.place q hq]
      show SwapArray.exchanged (if x.dist.more then x.dist.eligible else x.dist.active) _ _ = _
      rw [if_pos hmore]
      rfl
    by_cases hold : q ∈ x.dist.pipes
    · have hindex : (x.dist.pipes ++ [p]).idxOf q = x.dist.index q :=
        List.idxOf_append_of_mem hold
      have hlt := index_lt hold
      rw [hat, hindex, and_iff_right hold]
      unfold SwapArray.exchanged
      split_ifs <;> omega
    · have hindex : x.dist.pipes.length ≤ (x.dist.pipes ++ [p]).idxOf q := by
        rw [List.idxOf_append, if_neg hold]
        exact Nat.le_add_left _ _
      have hlen : (x.dist.pipes ++ [p]).idxOf q < x.dist.pipes.length + 1 := by
        have hlt := List.idxOf_lt_length_of_mem hq
        rwa [List.length_append, List.length_singleton] at hlt
      rw [hat]
      unfold SwapArray.exchanged
      constructor
      · intro hin
        split_ifs at hin <;> omega
      · exact fun hin => absurd hin.1 hold
  have hcarries : ∀ q, q ≠ p → (Carries (α := α)
      { x.dist.setOutlet p Outlet.create with
        pipes := l
        active := if x.dist.more then x.dist.active else x.dist.active + 1
        eligible := x.dist.eligible + 1 } q ↔ Carries x.dist q) := by
    intro q hne
    have hout : (x.dist.setOutlet p Outlet.create).outlet q = x.dist.outlet q :=
      setOutlet_of_ne hne _
    constructor
    · rintro ⟨hmore, ⟨hq, hlt⟩, hactive⟩
      exact ⟨hmore, (hplace hmore q (hr.perm.mem_iff.mp hq)).mp hlt, hout ▸ hactive⟩
    · rintro ⟨hmore, hq, hactive⟩
      have hq' := List.mem_append_left [p] hq.1
      exact ⟨hmore, ⟨hr.perm.mem_iff.mpr hq', (hplace hmore q hq').mpr hq⟩, hout.symm ▸ hactive⟩
  refine h.moved hkept hordered rfl ?_ ?_ ?_ ?_
  · intro q hq
    have hne : q ≠ p := by
      rintro rfl
      exact hp ((hplace hq.1 q (hr.perm.mem_iff.mp hq.2.1.1)).mp hq.2.1.2).1
    have hc := (hcarries q hne).mp hq
    have hout : (x.dist.setOutlet p Outlet.create).outlet q = x.dist.outlet q :=
      setOutlet_of_ne hne _
    exact ⟨hc, congrArg _ hout, (congrArg _ hout).trans (h.carries q hc).2⟩
  · intro q hq
    by_cases hne : q = p
    · show ((x.dist.setOutlet p Outlet.create).outlet q).queue.pending = []
      rw [hne, setOutlet_self]
      rfl
    · show ((x.dist.setOutlet p Outlet.create).outlet q).queue.pending = []
      rw [setOutlet_of_ne hne]
      exact h.clean q fun hc => hq ((hcarries q hne).mpr hc)
  · intro q
    show ((x.dist.setOutlet p Outlet.create).outlet q).queue.records.Sublist x.published
    by_cases hne : q = p
    · rw [hne, setOutlet_self]
      exact List.nil_sublist _
    · rw [setOutlet_of_ne hne]
      exact h.records q
  · intro q hq
    have hnot := fun hin => hq ((hmem q).mpr hin)
    show ((x.dist.setOutlet p Outlet.create).outlet q).active = false
    rw [setOutlet_of_ne fun heq => hnot (.inr heq)]
    exact h.gone q fun hin => hnot (.inl hin)

theorem Sound.step (h : Sound x) (e : Event P α) (hnew : ∀ p, e = .attach p → p ∉ x.dist.pipes) :
    ∃ y, x.step e = some y ∧ Sound y := by
  cases e with
  | publish r =>
    obtain ⟨y, rc, heq, hy, -⟩ := h.xsend r
    refine ⟨y, ?_, hy⟩
    rw [XPub.step, heq]
    rfl
  | rollback => exact ⟨_, rfl, h.xrollback⟩
  | attach p =>
    have hp := hnew p rfl
    obtain ⟨d, heq, hd⟩ := h.attach hp
    refine ⟨_, ?_, hd⟩
    rw [XPub.step, if_neg hp, heq]
    rfl
  | terminate p => exact ⟨_, rfl, h.terminate p⟩
  | pipeTerminated p =>
    obtain ⟨d, heq, hd⟩ := (h.terminate p).pipeTerminated (p := p) (by
      show ((x.dist.setOutlet p _).outlet p).active = false
      rw [setOutlet_self]
      rfl)
    refine ⟨_, ?_, hd⟩
    rw [XPub.step]
    exact congrArg (Option.map _) heq
  | activateWrite p credit =>
    rw [XPub.step, Outlet.activateWrite]
    by_cases htold : ((x.dist.outlet p).active && credit && !(x.dist.outlet p).outActive) = true
    · rw [if_pos htold]
      simp only [Bool.and_eq_true, Bool.not_eq_true'] at htold
      obtain ⟨⟨hactive, -⟩, hout⟩ := htold
      have hfree : ¬Carries x.dist p := by
        intro hc
        rw [(h.carries p hc).2] at hout
        exact Bool.noConfusion hout
      obtain ⟨d, heq, hd⟩ := (h.credited hfree).activated (p := p) (by
        show ((x.dist.setOutlet p _).outlet p).active = true
        rw [setOutlet_self]
        exact hactive) (by
        rintro ⟨hmore, hp, -⟩
        exact hfree ⟨hmore, hp, hactive⟩)
      refine ⟨_, ?_, hd⟩
      exact congrArg (Option.map _) heq
    · rw [if_neg htold]
      refine ⟨_, rfl, ?_⟩
      have hsame : x.dist.setOutlet p (x.dist.outlet p) = x.dist := by
        rw [Dist.setOutlet, Function.update_eq_self]
      show Sound { x with dist := x.dist.setOutlet p (x.dist.outlet p) }
      rw [hsame]
      exact h

theorem run_sound {lossy : Bool} {es : List (Event P α)}
    (hrun : Trace.run step (create lossy) es = some x) : Sound x := by
  refine Trace.run_invariant (I := Sound) ?_ (sound_create lossy) (Trace.along_true _ _) hrun
  intro x e y h _ hstep
  by_cases hnew : ∀ p, e = .attach p → p ∉ x.dist.pipes
  · obtain ⟨y', heq, hy⟩ := h.step e hnew
    rw [heq, Option.some.injEq] at hstep
    exact hstep ▸ hy
  · obtain ⟨p, hp⟩ := not_forall.mp hnew
    obtain ⟨rfl, hold⟩ := Classical.not_imp.mp hp
    rw [XPub.step, if_pos (not_not.mp hold)] at hstep
    exact absurd hstep (by simp)

/-- In every run the records of a pipe are records published, each with all its parts, and
behind them it holds the parts of the record in progress or none. A publish that ends
because a part is too large leaves no part on any pipe and adds no record. -/
theorem run_publishes (lossy : Bool) (es : List (Event P α)) (x : XPub P α)
    (hrun : Trace.run step (create lossy) es = some x) : (∀ record ∈ x.published, Whole record) ∧
    (∀ p, (x.dist.outlet p).queue.records.Sublist x.published ∧
      ((x.dist.outlet p).queue.pending = x.sent ∨ (x.dist.outlet p).queue.pending = [])) ∧
    (∀ r, ∃ y rc, x.xsend r = some (y, rc) ∧ ∀ aborted, rc = .tooLarge aborted →
      ∀ p, (y.dist.outlet p).queue.pending = [] ∧
        (y.dist.outlet p).queue.records = (x.dist.outlet p).queue.records) ∧
    ∀ e, (∀ p, e = .attach p → p ∉ x.dist.pipes) → ∃ y, x.step e = some y := by
  have h := run_sound hrun
  refine ⟨h.whole, ?_, ?_, ?_⟩
  · intro p
    refine ⟨h.records p, ?_⟩
    by_cases hc : Carries x.dist p
    · exact .inl (h.carries p hc).1
    · exact .inr (h.clean p hc)
  · intro r
    obtain ⟨y, rc, heq, -, hlarge⟩ := h.xsend r
    exact ⟨y, rc, heq, hlarge⟩
  · intro e hnew
    obtain ⟨y, heq, -⟩ := h.step e hnew
    exact ⟨y, heq⟩

/-- The second pipe refuses the second part. -/
theorem run_publishes_refused : ∃ x : XPub ℕ Unit, Trace.run step (create false)
      [.attach 1, .attach 2,
        .publish ⟨⟨true, ()⟩, .all, false, fun _ => ⟨false, true, true, true⟩,
          fun _ => false, fun _ => .accepts⟩,
        .publish ⟨⟨false, ()⟩, .all, false, fun _ => ⟨false, true, true, true⟩,
          fun _ => false, fun p => if p = 2 then .refuses true else .accepts⟩] = some x ∧
      (x.dist.outlet 1).queue.records = [[⟨true, ()⟩, ⟨false, ()⟩]] ∧
      (x.dist.outlet 2).queue.records = [] ∧
      ∀ record ∈ x.published, Whole record :=
  ⟨_, rfl, rfl, rfl, (run_publishes false [.attach 1, .attach 2,
      .publish ⟨⟨true, ()⟩, .all, false, fun _ => ⟨false, true, true, true⟩,
        fun _ => false, fun _ => .accepts⟩,
      .publish ⟨⟨false, ()⟩, .all, false, fun _ => ⟨false, true, true, true⟩,
        fun _ => false, fun p => if p = 2 then .refuses true else .accepts⟩] _ rfl).1⟩

end XPub

end Zlink.Distribution
