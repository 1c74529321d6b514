import Zlink.Jobs.Pressure

/-!
# Sockets follow the published pressure

Transitions reach the sockets without the mutex and in any order; a sequence number keeps
an old one from undoing a newer one. `Dated` ties every state on its way to a socket to its
sequence number, and `Current` says that a registered socket has applied the last
transition, has it coming, or has a setter that failed.
-/

namespace Zlink.Jobs

variable {c : Config} {s t : State} {k i : ℕ} {task : Task} {following : List Task}
  {x y z : Entry} {state : Pressure} {sequence : ℕ} {answer : ApplyResult}

namespace Entry

/-- What a socket can become: what it has applied changes only with a larger sequence. -/
structure Before (x y : Entry) : Prop where
  failed : x.setterFailed = true → y.setterFailed = true
  applied : x.hasApplied = true → y.hasApplied = true ∧
    ((y.lastAppliedSequence = x.lastAppliedSequence ∧ y.lastAppliedState = x.lastAppliedState) ∨
      x.lastAppliedSequence < y.lastAppliedSequence)

theorem Before.refl (x : Entry) : x.Before x :=
  ⟨id, fun h => ⟨h, .inl ⟨rfl, rfl⟩⟩⟩

theorem Before.le (h : x.Before y) (hx : x.hasApplied = true) :
    x.lastAppliedSequence ≤ y.lastAppliedSequence := by
  rcases (h.applied hx).2 with heq | hlt
  · exact heq.1.ge
  · exact hlt.le

theorem before_requestClose (x : Entry) : x.Before x.requestClose :=
  ⟨id, fun h => ⟨h, .inl ⟨rfl, rfl⟩⟩⟩

theorem before_close (x : Entry) : x.Before x.close :=
  ⟨id, fun h => ⟨h, .inl ⟨rfl, rfl⟩⟩⟩

def Closing (x : Entry) : Prop :=
  x.closing = true ∨ x.closeRequested = true

/-- The ways of `apply` through its checks. -/
inductive Applies (x : Entry) (state : Pressure) (sequence : ℕ) : Entry × ApplyResult → Prop where
  | closing (h : x.Closing) : Applies x state sequence (x, .closingInvalidState)
  | old (happlied : x.hasApplied = true) (hle : sequence ≤ x.lastAppliedSequence) :
      Applies x state sequence (x, .applied)
  | same (hlt : x.hasApplied = true → x.lastAppliedSequence < sequence)
      (happlied : x.hasApplied = true) (hstate : x.lastAppliedState = state) :
      Applies x state sequence ({ x with lastAppliedSequence := sequence }, .applied)
  | set (hlt : x.hasApplied = true → x.lastAppliedSequence < sequence) : Applies x state sequence
        ({ x with
          hasApplied := true, lastAppliedSequence := sequence, lastAppliedState := state },
          .applied)
  | fail (answer : ApplyResult) (hanswer : answer ≠ .applied) :
      Applies x state sequence ({ x with setterFailed := true }, answer)

theorem applies (x : Entry) (state : Pressure) (sequence : ℕ) (answer : ApplyResult) :
    x.Applies state sequence (x.apply state sequence answer) := by
  rw [apply]
  split
  · exact .closing ‹_›
  · split
    · rename_i h
      exact .old h.1 h.2
    · rename_i hnew
      have hlt (happlied : x.hasApplied = true) : x.lastAppliedSequence < sequence :=
        not_le.mp fun hle => hnew ⟨happlied, hle⟩
      split
      · rename_i h
        exact .same hlt h.1 h.2
      · split
        · exact .set hlt
        · exact .fail answer ‹_›

variable {result : Entry × ApplyResult}

theorem Applies.before (h : x.Applies state sequence result) : x.Before result.1 := by
  cases h with
  | closing | old => exact .refl x
  | same hlt happlied => exact ⟨id, fun hx => ⟨hx, .inr (hlt hx)⟩⟩
  | set hlt => exact ⟨id, fun hx => ⟨rfl, .inr (hlt hx)⟩⟩
  | fail => exact ⟨fun _ => rfl, fun hx => ⟨hx, .inl ⟨rfl, rfl⟩⟩⟩

theorem Applies.origin (h : x.Applies state sequence result)
    (hresult : result.1.hasApplied = true) :
    (x.hasApplied = true ∧ result.1.lastAppliedSequence = x.lastAppliedSequence ∧
        result.1.lastAppliedState = x.lastAppliedState) ∨
      (result.1.lastAppliedSequence = sequence ∧ result.1.lastAppliedState = state) := by
  cases h with
  | closing | old | fail => exact .inl ⟨hresult, rfl, rfl⟩
  | same hlt happlied hstate => exact .inr ⟨rfl, hstate⟩
  | set => exact .inr ⟨rfl, rfl⟩

theorem Applies.closing_iff (h : x.Applies state sequence result) :
    result.1.Closing ↔ x.Closing := by
  cases h <;> exact Iff.rfl

theorem Applies.reached (h : x.Applies state sequence result) (hopen : ¬ x.Closing) :
    result.1.setterFailed = true ∨
      (result.1.hasApplied = true ∧ sequence ≤ result.1.lastAppliedSequence) := by
  cases h with
  | closing hclosing => exact absurd hclosing hopen
  | old happlied hle => exact .inr ⟨happlied, hle⟩
  | same hlt happlied => exact .inr ⟨happlied, le_rfl⟩
  | set => exact .inr ⟨rfl, le_rfl⟩
  | fail => exact .inl rfl

theorem Applies.applied (h : x.Applies state sequence result) (hresult : result.2 = .applied) :
    result.1.hasApplied = true ∧ sequence ≤ result.1.lastAppliedSequence := by
  cases h with
  | closing => cases hresult
  | old happlied hle => exact ⟨happlied, hle⟩
  | same hlt happlied => exact ⟨happlied, le_rfl⟩
  | set => exact ⟨rfl, le_rfl⟩
  | fail answer hanswer => exact absurd hresult hanswer

end Entry

/-- Every socket is still there, and not behind where it was. -/
def Advances (xs ys : List Entry) : Prop :=
  ∀ (i : ℕ) (x : Entry), xs[i]? = some x → ∃ y, ys[i]? = some y ∧ x.Before y

namespace Advances

theorem refl (xs : List Entry) : Advances xs xs :=
  fun _ x hx => ⟨x, hx, .refl x⟩

theorem append (xs ys : List Entry) : Advances xs (xs ++ ys) := by
  intro i x hx
  obtain ⟨hi, _⟩ := List.getElem?_eq_some_iff.mp hx
  exact ⟨x, (List.getElem?_append_left hi).trans hx, .refl x⟩

theorem modify (xs : List Entry) (i : ℕ) {f : Entry → Entry} (hf : ∀ x : Entry, x.Before (f x)) :
    Advances xs (xs.modify i f) := by
  intro j x hx
  rw [List.getElem?_modify, hx]
  refine ⟨_, rfl, ?_⟩
  split
  · exact hf x
  · exact .refl x

theorem set {xs : List Entry} (hx : xs[i]? = some x) (hy : x.Before y) :
    Advances xs (xs.set i y) := by
  intro j z hz
  obtain ⟨hi, _⟩ := List.getElem?_eq_some_iff.mp hx
  by_cases hij : i = j
  · subst hij
    obtain rfl := Option.some.inj (hx.symm.trans hz)
    exact ⟨y, List.getElem?_set_self hi, hy⟩
  · exact ⟨z, (List.getElem?_set_ne hij).trans hz, .refl z⟩

theorem requestClose (sockets : List ℕ) (xs : List Entry) :
    Advances xs (State.requestClose sockets xs) := by
  intro i x hx
  rw [State.requestClose, List.getElem?_mapIdx, hx]
  refine ⟨_, rfl, ?_⟩
  split
  · exact x.before_requestClose
  · exact .refl x

end Advances

theorem Move.advances (h : Move c s t) : Advances s.entries t.entries := by
  cases h with
  | joinSocket => exact .append _ _
  | stop => exact .requestClose _ _
  | apply => exact .modify _ _ fun x => (x.applies _ _ _).before
  | attempted _ _ _ _ x _ _ hentry | attemptRefused _ _ _ _ x _ _ hentry =>
    exact .set hentry (x.applies _ _ _).before
  | close => exact .modify _ _ Entry.before_close
  | take | again | enqueue | confirm | correct => exact .refl _
  | _ => exact .refl _

def Task.Dated (states : List Pressure) (entries : List Entry) : Task → Prop
  | .finish (some transition) _ => states[transition.sequence]? = some transition.state
  | .attempt _ state sequence => states[sequence]? = some state
  | .joined socket state sequence =>
    states[sequence]? = some state ∧
      ∃ x, entries[socket]? = some x ∧ x.hasApplied = true ∧ sequence ≤ x.lastAppliedSequence
  | _ => True

theorem Task.Dated.mono {states states' : List Pressure} {entries entries' : List Entry}
    (h : task.Dated states entries)
    (hstates : ∀ (n : ℕ) (p : Pressure), states[n]? = some p → states'[n]? = some p)
    (hentries : Advances entries entries') : task.Dated states' entries' := by
  cases task with
  | finish transition grants =>
    cases transition with
    | none => trivial
    | some transition => exact hstates _ _ h
  | attempt => exact hstates _ _ h
  | joined socket state sequence =>
    obtain ⟨hstate, x, hx, happlied, hle⟩ := h
    obtain ⟨y, hy, hbefore⟩ := hentries socket x hx
    exact ⟨hstates _ _ hstate, y, hy, (hbefore.applied happlied).1, hle.trans (hbefore.le happlied)⟩
  | _ => trivial

/-- The holder of the mutex has published a pressure it has not numbered yet. -/
def Critical.Ahead : Critical → Prop
  | .confirm _ _ | .correct _ _ => True
  | _ => False

structure Dated (s : State) : Prop where
  length : s.states.length = s.pressureSequence + 1
  settled : (∀ critical, s.holder = some critical → ¬ critical.Ahead) →
    s.states[s.pressureSequence]? = some s.published
  tasks : ∀ task ∈ s.tasks, task.Dated s.states s.entries
  entries : ∀ x ∈ s.entries, x.hasApplied = true →
    s.states[x.lastAppliedSequence]? = some x.lastAppliedState

namespace Dated

theorem le_sequence (h : Dated s) (hx : x ∈ s.entries) (happlied : x.hasApplied = true) :
    x.lastAppliedSequence ≤ s.pressureSequence := by
  obtain ⟨hlt, _⟩ := List.getElem?_eq_some_iff.mp (h.entries x hx happlied)
  have := h.length
  omega

theorem mem_of_replace (h : task ∈ (s.replace k following).tasks) :
    task ∈ s.tasks ∨ task ∈ following :=
  (List.mem_append.mp h).imp_left List.mem_of_mem_eraseIdx

section Frame

variable (h : Dated s) (hstates : t.states = s.states)
  (hsequence : t.pressureSequence = s.pressureSequence) (hpublished : t.published = s.published)
include h hstates hsequence hpublished

theorem write (hholder : t.holder = s.holder) (hadvances : Advances s.entries t.entries)
    (hentries : ∀ x ∈ t.entries, x.hasApplied = true →
      s.states[x.lastAppliedSequence]? = some x.lastAppliedState)
    (htasks : ∀ task ∈ t.tasks, task ∈ s.tasks ∨ task.Dated s.states t.entries) : Dated t where
  length := by
    rw [hstates, hsequence]
    exact h.length
  settled hfree := by
    rw [hstates, hsequence, hpublished]
    exact h.settled (hholder ▸ hfree)
  tasks task htask := by
    rw [hstates]
    rcases htasks task htask with hold | hnew
    · exact (h.tasks task hold).mono (fun _ _ => id) hadvances
    · exact hnew
  entries := hstates ▸ hentries

variable (hentries : t.entries = s.entries)
  (hahead : (∀ critical, t.holder = some critical → ¬ critical.Ahead) →
    ∀ critical, s.holder = some critical → ¬ critical.Ahead)
include hentries hahead

theorem keep
    (htasks : ∀ task ∈ t.tasks, task ∈ s.tasks ∨ task.Dated s.states s.entries) : Dated t where
  length := by
    rw [hstates, hsequence]
    exact h.length
  settled hfree := by
    rw [hstates, hsequence, hpublished]
    exact h.settled (hahead hfree)
  tasks task htask := by
    rw [hstates, hentries]
    exact (htasks task htask).elim (h.tasks task) id
  entries := by
    rw [hstates, hentries]
    exact h.entries

theorem replace (htasks : t.tasks = (s.replace k following).tasks)
    (hfollowing : ∀ task ∈ following, task.Dated s.states s.entries) : Dated t :=
  h.keep hstates hsequence hpublished hentries hahead fun task htask =>
    (mem_of_replace (htasks ▸ htask)).imp_right (hfollowing task)

theorem drop (htasks : t.tasks = (s.replace k []).tasks) : Dated t :=
  h.replace hstates hsequence hpublished hentries hahead htasks fun _ hmem => nomatch hmem

theorem append (htasks : t.tasks = s.tasks ++ [task])
    (htask : task.Dated s.states s.entries) : Dated t := by
  refine h.keep hstates hsequence hpublished hentries hahead fun other hmem => ?_
  rw [htasks] at hmem
  refine (List.mem_append.mp hmem).imp_right fun hlast => ?_
  rw [List.mem_singleton.mp hlast]
  exact htask

end Frame

theorem conclude (h : Dated s) (grants : List Grant) (hpublished : s.published = state) :
    Dated (s.conclude state grants) := by
  have hlast : (s.states ++ [state])[s.pressureSequence + 1]? = some state := by
    rw [← h.length]
    exact List.getElem?_concat_length
  have hstates (n : ℕ) (p : Pressure) (hn : s.states[n]? = some p) :
      (s.states ++ [state])[n]? = some p := by
    obtain ⟨hlt, _⟩ := List.getElem?_eq_some_iff.mp hn
    exact (List.getElem?_append_left hlt).trans hn
  refine ⟨?_, fun _ => hpublished ▸ hlast, ?_, fun x hx happlied =>
    hstates _ _ (h.entries x hx happlied)⟩
  · show (s.states ++ [state]).length = s.pressureSequence + 1 + 1
    rw [List.length_append, h.length]
    rfl
  · intro task htask
    rcases List.mem_append.mp htask with hold | hnew
    · exact (h.tasks task hold).mono hstates (.refl _)
    · rw [List.mem_singleton.mp hnew]
      exact hlast

/-- The sockets behind one `apply`. -/
theorem applied_entries (h : Dated s) (hstate : s.states[sequence]? = some state)
    (hx : x ∈ s.entries) (hy : (x.apply state sequence answer).1.hasApplied = true) :
    s.states[(x.apply state sequence answer).1.lastAppliedSequence]? =
      some (x.apply state sequence answer).1.lastAppliedState := by
  rcases (x.applies state sequence answer).origin hy with ⟨happlied, heq, hsame⟩ | ⟨heq, hsame⟩
  · rw [heq, hsame]
    exact h.entries x hx happlied
  · rw [heq, hsame]
    exact hstate

theorem modify_entries (h : Dated s) (f : Entry → Entry)
    (hf : ∀ x ∈ s.entries, (f x).hasApplied = true →
      s.states[(f x).lastAppliedSequence]? = some (f x).lastAppliedState) (i : ℕ) :
    ∀ x ∈ s.entries.modify i f, x.hasApplied = true →
      s.states[x.lastAppliedSequence]? = some x.lastAppliedState := by
  intro y hy happlied
  obtain ⟨j, hj⟩ := List.mem_iff_getElem?.mp hy
  rw [List.getElem?_modify] at hj
  obtain ⟨x, hx, rfl⟩ := Option.map_eq_some_iff.mp hj
  have hmem := List.mem_of_getElem? hx
  by_cases hij : i = j
  · rw [if_pos hij] at happlied ⊢
    exact hf x hmem happlied
  · rw [if_neg hij] at happlied ⊢
    exact h.entries x hmem happlied

theorem attempt (h : Dated s) {socket : ℕ}
    (htask : s.tasks[k]? = some (.attempt socket state sequence))
    (hentry : s.entries[socket]? = some x)
    (htasks : t.tasks = (s.replace k following).tasks) (hstates : t.states = s.states)
    (hsequence : t.pressureSequence = s.pressureSequence) (hpublished : t.published = s.published)
    (hholder : t.holder = s.holder)
    (hentries : t.entries = s.entries.set socket (x.apply state sequence answer).1)
    (hfollowing : ∀ task ∈ following, task.Dated s.states t.entries) : Dated t := by
  have hstate : s.states[sequence]? = some state := h.tasks _ (List.mem_of_getElem? htask)
  refine h.write hstates hsequence hpublished hholder ?_ ?_ ?_
  · rw [hentries]
    exact .set hentry (x.applies state sequence answer).before
  · intro y hy happlied
    rw [hentries] at hy
    rcases List.mem_or_eq_of_mem_set hy with hold | rfl
    · exact h.entries y hold happlied
    · exact h.applied_entries hstate (List.mem_of_getElem? hentry) happlied
  · exact fun task hmem => (mem_of_replace (htasks ▸ hmem)).imp_right (hfollowing task)

theorem step (h : Dated s) (hs : Balanced c s) (hsteered : Steered c s) (hmove : Move c s t) :
    Dated t := by
  have hquiet (task : Task) (hmem : task ∈ s.tasks) : task ∈ s.tasks ∨
      task.Dated s.states s.entries := .inl hmem
  -- the holder of the mutex comes from or goes to where nothing is ahead
  have hnot {critical : Critical} (hholder : s.holder = some critical)
      (hcritical : ¬ critical.Ahead) : ∀ other, s.holder = some other → ¬ other.Ahead :=
    fun other hother => Option.some.inj (hholder.symm.trans hother) ▸ hcritical
  have hnone (hholder : s.holder = none) : ∀ other, s.holder = some other → ¬ other.Ahead :=
    fun other hother => nomatch hholder.symm.trans hother
  cases hmove with
  | still => exact h
  | rehold | queue => exact h.keep rfl rfl rfl rfl id hquiet
  | drop | deregister | registerStopped | cancel => exact h.append rfl rfl rfl rfl id rfl trivial
  | joinSocket =>
    refine h.write rfl rfl rfl rfl (.append _ _) ?_ ?_
    · intro x hx happlied
      rcases List.mem_append.mp hx with hold | hnew
      · exact h.entries x hold happlied
      · rw [List.mem_singleton.mp hnew] at happlied
        cases happlied
    · intro task hmem
      refine (List.mem_append.mp hmem).imp_right fun hlast => ?_
      rw [List.mem_singleton.mp hlast]
      trivial
  | tryReserve _ hholder | registerAgain _ hholder =>
    exact h.keep rfl rfl rfl rfl (fun _ => hnone hholder) hquiet
  | registerEnqueue requested hholder =>
    exact h.keep rfl rfl rfl rfl (fun _ => hnone hholder) hquiet
  | stop =>
    refine h.write rfl rfl rfl rfl (.requestClose _ _) ?_ ?_
    · intro y hy happlied
      obtain ⟨j, hj⟩ := List.mem_iff_getElem?.mp hy
      have hmap : (s.entries[j]?.map fun x =>
          if j ∈ s.receiveFlowSockets.map Prod.snd then x.requestClose else x) = some y :=
        List.getElem?_mapIdx.symm.trans hj
      obtain ⟨x, hx, rfl⟩ := Option.map_eq_some_iff.mp hmap
      have hold := h.entries x (List.mem_of_getElem? hx)
      by_cases hregistered : j ∈ s.receiveFlowSockets.map Prod.snd
      · rw [if_pos hregistered] at happlied ⊢
        exact hold happlied
      · rw [if_neg hregistered] at happlied ⊢
        exact hold happlied
    · intro task hmem
      refine (List.mem_append.mp hmem).imp_right fun hlast => ?_
      rw [List.mem_singleton.mp hlast]
      trivial
  | release k phase count htask =>
    refine h.replace rfl rfl rfl rfl id rfl fun task hmem => ?_
    split at hmem
    · cases hmem
    · rw [List.mem_singleton.mp hmem]
      trivial
  | settleTake _ _ hholder | settleEvaluate _ _ hholder =>
    exact h.drop rfl rfl rfl rfl (fun _ => hnone hholder) rfl
  | apply k state sequence socket sockets grants answer htask =>
    have hstate : s.states[sequence]? = some state := h.tasks _ (List.mem_of_getElem? htask)
    refine h.write rfl rfl rfl rfl (.modify _ _ fun x => (x.applies _ _ _).before) ?_ ?_
    · exact h.modify_entries _ (fun x hx => h.applied_entries hstate hx) socket
    · intro task hmem
      refine (mem_of_replace hmem).imp_right fun hlast => ?_
      rw [List.mem_singleton.mp hlast]
      exact hstate
  | deliver | abandon =>
    refine h.replace rfl rfl rfl rfl id rfl fun task hmem => ?_
    rw [List.mem_singleton.mp hmem]
    trivial
  | chore k task following htask hchore =>
    refine h.replace rfl rfl rfl rfl id rfl fun other hmem => ?_
    cases hchore with
    | attempt socket hholder =>
      rw [List.mem_singleton.mp hmem]
      show s.states[s.pressureSequence]? = some (pressureState s.credits)
      rw [hs.pressureState_eq]
      exact h.settled (hnone hholder)
    | dispatched | refusedClose | unregistered | retry =>
      rw [List.mem_singleton.mp hmem]
      trivial
    | _ => cases hmem
  | attempted k socket state sequence x answer htask hentry happlied =>
    have hstate : s.states[sequence]? = some state := h.tasks _ (List.mem_of_getElem? htask)
    refine h.attempt htask hentry rfl rfl rfl rfl rfl rfl fun task hmem => ?_
    obtain ⟨hi, _⟩ := List.getElem?_eq_some_iff.mp hentry
    rw [List.mem_singleton.mp hmem]
    exact ⟨hstate, _, List.getElem?_set_self hi, (x.applies _ _ _).applied happlied⟩
  | attemptRefused k socket state sequence x answer htask hentry =>
    refine h.attempt htask hentry rfl rfl rfl rfl rfl rfl fun task hmem => ?_
    rw [List.mem_singleton.mp hmem]
    trivial
  | joined => exact h.drop rfl rfl rfl rfl id rfl
  | close k socket htask =>
    refine h.write rfl rfl rfl rfl (.modify _ _ Entry.before_close) ?_ ?_
    · exact h.modify_entries Entry.close (fun x hx => h.entries x hx) socket
    · intro task hmem
      exact (mem_of_replace hmem).imp_right (fun h => by cases h)
  | again _ hholder | add _ _ hholder | evaluate _ hholder =>
    exact h.keep rfl rfl rfl rfl (fun _ => hnot hholder id) hquiet
  | enqueue _ hholder | level _ hholder =>
    exact h.append rfl rfl rfl rfl (fun _ => hnot hholder id) rfl trivial
  | taken _ _ _ hholder | take _ _ _ _ _ hholder =>
    exact h.keep rfl rfl rfl rfl (fun _ => hnot hholder id) hquiet
  | publish next grants hholder =>
    exact ⟨h.length, fun hfree => absurd trivial (hfree _ rfl), h.tasks, h.entries⟩
  | confirm next grants hholder => exact h.conclude grants (hsteered.decided _ hholder).1
  | differ next grants hholder =>
    exact h.keep rfl rfl rfl rfl (fun hfree => absurd trivial (hfree _ rfl)) hquiet
  | correct final grants hholder =>
    have hpublished : Dated (s.publishState final) :=
      ⟨h.length, fun hfree => absurd trivial (hfree _ hholder), h.tasks, h.entries⟩
    exact hpublished.conclude grants rfl

end Dated

/-- The socket whose registration is not done yet, or has just ended. -/
def Task.owner : Task → Multiset ℕ
  | .join socket | .attempt socket _ _ | .refused socket | .joined socket _ _ | .close socket =>
    {socket}
  | .release _ _ | .settle | .finish _ _ | .abandon _ => 0

def Task.joining : Task → Multiset ℕ
  | .join socket | .attempt socket _ _ | .joined socket _ _ => {socket}
  | .refused _ | .close _ | .release _ _ | .settle | .finish _ _ | .abandon _ => 0

def Task.Carries (sequence socket : ℕ) : Task → Prop
  | .finish (some transition) _ =>
    transition.sequence = sequence ∧ socket ∈ transition.sockets
  | _ => False

namespace State

/-- The sockets with the one who registers, holds or closes each. -/
def owners (s : State) : Multiset ℕ :=
  (s.tasks.map Task.owner).sum + s.registrations.map Prod.snd

def Opened (s : State) (socket : ℕ) : Prop :=
  (∃ task ∈ s.tasks, socket ∈ task.joining) ∨ socket ∈ s.receiveFlowSockets.map Prod.snd

def Fresh (s : State) (socket : ℕ) (x : Entry) : Prop :=
  x.setterFailed = true ∨ (x.hasApplied = true ∧ s.pressureSequence ≤ x.lastAppliedSequence) ∨
    ∃ task ∈ s.tasks, task.Carries s.pressureSequence socket

end State

structure Current (s : State) : Prop where
  owned : s.owners.Nodup
  known : ∀ i ∈ s.owners, i < s.entries.length
  registered : ∀ r ∈ s.receiveFlowSockets, r ∈ s.registrations
  isOpen : ∀ i, s.Opened i → ∀ x, s.entries[i]? = some x → ¬ x.Closing
  fresh : ∀ r ∈ s.receiveFlowSockets, ∀ x, s.entries[r.2]? = some x → s.Fresh r.2 x

theorem Chore.owner_le (h : Chore s task following) :
    (following.map Task.owner).sum ≤ task.owner := by
  cases h <;> first
    | exact Multiset.zero_le _
    | exact le_of_eq (add_zero _)

theorem Task.joining_le (task : Task) : task.joining ≤ task.owner := by
  cases task <;> first
    | exact le_rfl
    | exact Multiset.zero_le _

theorem Chore.joining_subset (h : Chore s task following) {other : Task}
    (hother : other ∈ following) : other.joining ≤ task.joining := by
  cases h <;> first
    | exact (List.mem_singleton.mp hother) ▸ le_rfl
    | exact (List.mem_singleton.mp hother) ▸ Multiset.zero_le _
    | cases hother

theorem Chore.not_carries (h : Chore s task following) {n : ℕ} : ¬ task.Carries n i := by
  cases h with
  | dispatched => exact fun hcarries => nomatch hcarries.2
  | _ => exact id

theorem Advances.length_le {xs ys : List Entry} (h : Advances xs ys) : xs.length ≤ ys.length := by
  by_contra hlt
  obtain ⟨y, hy, _⟩ := h ys.length _ (List.getElem?_eq_getElem (not_le.mp hlt))
  rw [List.getElem?_eq_none le_rfl] at hy
  cases hy

namespace State.Fresh

theorem later (h : s.Fresh i x) (hbefore : x.Before y)
    (hsequence : t.pressureSequence = s.pressureSequence)
    (hcarries : ∀ task ∈ s.tasks, task.Carries s.pressureSequence i →
      t.Fresh i y) : t.Fresh i y := by
  rcases h with hfailed | ⟨happlied, hle⟩ | ⟨task, hmem, htask⟩
  · exact .inl (hbefore.failed hfailed)
  · exact .inr (.inl ⟨(hbefore.applied happlied).1, hsequence ▸ hle.trans (hbefore.le happlied)⟩)
  · exact hcarries task hmem htask

end State.Fresh

namespace Current

theorem owners_replace (htask : s.tasks[k]? = some task)
    (htasks : t.tasks = (s.replace k following).tasks)
    (howner : (following.map Task.owner).sum + (t.registrations.map Prod.snd : Multiset ℕ) ≤
      task.owner + (s.registrations.map Prod.snd : Multiset ℕ)) : t.owners ≤ s.owners := by
  have hsum := sum_replace Task.owner htask following
  rw [← htasks] at hsum
  apply le_of_add_le_add_right (a := task.owner + (following.map Task.owner).sum)
  calc t.owners + (task.owner + (following.map Task.owner).sum)
      = ((t.tasks.map Task.owner).sum + task.owner) +
          ((following.map Task.owner).sum + (t.registrations.map Prod.snd : Multiset ℕ)) := by
        rw [State.owners, add_add_add_comm, add_comm (t.registrations.map Prod.snd : Multiset ℕ)]
    _ ≤ ((s.tasks.map Task.owner).sum + (following.map Task.owner).sum) +
          (task.owner + (s.registrations.map Prod.snd : Multiset ℕ)) :=
        add_le_add hsum.le howner
    _ = s.owners + (task.owner + (following.map Task.owner).sum) := by
        rw [State.owners]
        ac_rfl

theorem opened_replace (htask : s.tasks[k]? = some task)
    (htasks : t.tasks = (s.replace k following).tasks)
    (hsockets : t.receiveFlowSockets = s.receiveFlowSockets)
    (hjoining : ∀ other ∈ following, other.joining ≤ task.joining) (hi : t.Opened i) :
    s.Opened i := by
  rw [State.Opened, hsockets, htasks] at hi
  rcases hi with ⟨other, hmem, hother⟩ | hregistered
  · rcases Dated.mem_of_replace hmem with hold | hnew
    · exact .inl ⟨other, hold, hother⟩
    · exact .inl ⟨task, List.mem_of_getElem? htask, Multiset.mem_of_le (hjoining other hnew) hother⟩
  · exact .inr hregistered

theorem opened_append (htasks : t.tasks = s.tasks ++ [task]) (howner : task.owner = 0)
    (hsockets : t.receiveFlowSockets = s.receiveFlowSockets) (hi : t.Opened i) : s.Opened i := by
  rw [State.Opened, hsockets, htasks] at hi
  rcases hi with ⟨other, hmem, hother⟩ | hregistered
  · rcases List.mem_append.mp hmem with hold | hnew
    · exact .inl ⟨other, hold, hother⟩
    · have hzero := Multiset.mem_of_le task.joining_le (List.mem_singleton.mp hnew ▸ hother)
      rw [howner] at hzero
      cases hzero
  · exact .inr hregistered

theorem opened_of_mem {r : ℕ × ℕ} (hr : r ∈ s.receiveFlowSockets) : s.Opened r.2 :=
  .inr (List.mem_map_of_mem hr)

theorem conclude_owners (s : State) (state : Pressure) (grants : List Grant) :
    (s.conclude state grants).owners = s.owners := by
  rw [State.owners, State.conclude, sum_add, State.owners, Task.owner, add_zero]

theorem conclude (h : Current s) (state : Pressure) (grants : List Grant) :
    Current (s.conclude state grants) where
  owned := conclude_owners s state grants ▸ h.owned
  known i hi := h.known i (conclude_owners s state grants ▸ hi)
  registered := h.registered
  isOpen i hi := by
    have htasks : (s.conclude state grants).tasks = s.tasks ++ [.finish
        (some ⟨state, s.pressureSequence + 1, s.receiveFlowSockets.map Prod.snd⟩) grants] := rfl
    exact h.isOpen i (opened_append htasks rfl rfl hi)
  fresh r hr x hx :=
    .inr (.inr ⟨_, List.mem_append_right _ List.mem_cons_self, rfl, List.mem_map_of_mem hr⟩)

theorem owner_of_opened (h : Current s) (hi : s.Opened i) : i ∈ s.owners := by
  rcases hi with ⟨task, hmem, hi⟩ | hregistered
  · obtain ⟨k, hk⟩ := List.mem_iff_getElem?.mp hmem
    have hsum := sum_replace Task.owner hk []
    rw [List.map_nil, List.sum_nil, add_zero] at hsum
    rw [State.owners, ← hsum]
    exact Multiset.mem_add.mpr
      (.inl (Multiset.mem_add.mpr (.inr (Multiset.mem_of_le task.joining_le hi))))
  · obtain ⟨r, hr, rfl⟩ := List.mem_map.mp hregistered
    exact Multiset.mem_add.mpr (.inr (List.mem_map_of_mem (h.registered r hr)))

theorem closing_of_set {xs : List Entry} (hx : xs[i]? = some x)
    (h : (y.Closing ↔ x.Closing)) (j : ℕ) (a b : Entry) (ha : xs[j]? = some a)
    (hb : (xs.set i y)[j]? = some b) : b.Closing ↔ a.Closing := by
  obtain ⟨hi, _⟩ := List.getElem?_eq_some_iff.mp hx
  by_cases hij : i = j
  · subst hij
    obtain rfl := Option.some.inj (hx.symm.trans ha)
    obtain rfl := Option.some.inj ((List.getElem?_set_self hi).symm.trans hb)
    exact h
  · rw [List.getElem?_set_ne hij, ha] at hb
    rw [Option.some.inj hb]

section Frame

variable (h : Current s) (hregistrations : t.registrations = s.registrations)
  (hsockets : t.receiveFlowSockets = s.receiveFlowSockets)
  (hsequence : t.pressureSequence = s.pressureSequence)
include h hregistrations hsockets hsequence

theorem write (htask : s.tasks[k]? = some task)
    (hadvances : Advances s.entries t.entries)
    (hclosing : ∀ (i : ℕ) (x y : Entry), s.entries[i]? = some x → t.entries[i]? = some y →
      (y.Closing ↔ x.Closing)) (howner : (following.map Task.owner).sum ≤ task.owner)
    (hjoining : ∀ other ∈ following, other.joining ≤ task.joining)
    (htasks : t.tasks = (s.replace k following).tasks)
    (hfresh : ∀ r ∈ s.receiveFlowSockets, ∀ x y : Entry, s.entries[r.2]? = some x →
      t.entries[r.2]? = some y → task.Carries s.pressureSequence r.2 → t.Fresh r.2 y) :
    Current t := by
  have howners := owners_replace htask htasks
    (by rw [hregistrations]; exact add_le_add_left howner _)
  have hold {i : ℕ} (hi : s.Opened i) : ∃ x, s.entries[i]? = some x :=
    ⟨_, List.getElem?_eq_getElem (h.known _ (h.owner_of_opened hi))⟩
  refine ⟨Multiset.nodup_of_le howners h.owned, fun i hi =>
    (h.known i (Multiset.mem_of_le howners hi)).trans_le hadvances.length_le, ?_, ?_, ?_⟩
  · rw [hsockets, hregistrations]
    exact h.registered
  · intro i hi y hy
    have hopened := opened_replace htask htasks hsockets hjoining hi
    obtain ⟨x, hx⟩ := hold hopened
    exact fun hc => h.isOpen i hopened x hx ((hclosing _ x y hx hy).mp hc)
  · intro r hr y hy
    rw [hsockets] at hr
    obtain ⟨x, hx⟩ := hold (opened_of_mem hr)
    obtain ⟨z, hz, hbefore⟩ := hadvances _ x hx
    obtain rfl := Option.some.inj (hz.symm.trans hy)
    refine (h.fresh r hr x hx).later hbefore hsequence fun other hmem hother => ?_
    by_cases heq : other = task
    · exact hfresh r hr x z hx hz (heq ▸ hother)
    · refine .inr (.inr ⟨other, ?_, hsequence ▸ hother⟩)
      rw [htasks]
      exact mem_replace htask hmem heq

/-- The sockets behind an `apply` to one of them. -/
theorem attempt {socket : ℕ}
    (htask : s.tasks[k]? = some (.attempt socket state sequence))
    (hentry : s.entries[socket]? = some x) (howner : (following.map Task.owner).sum ≤ {socket})
    (hjoining : ∀ other ∈ following, other.joining ≤ {socket})
    (htasks : t.tasks = (s.replace k following).tasks)
    (hentries : t.entries = s.entries.set socket (x.apply state sequence answer).1) :
    Current t := by
  have happlies := x.applies state sequence answer
  refine h.write hregistrations hsockets hsequence htask ?_ ?_ howner hjoining htasks nofun
  · rw [hentries]
    exact .set hentry happlies.before
  · rw [hentries]
    exact closing_of_set hentry happlies.closing_iff

variable (hentries : t.entries = s.entries)
include hentries

theorem keep (howners : t.owners ≤ s.owners)
    (hopened : ∀ i, t.Opened i → s.Opened i)
    (htasks : ∀ task ∈ s.tasks, ∀ i, task.Carries s.pressureSequence i → task ∈ t.tasks) :
    Current t where
  owned := Multiset.nodup_of_le howners h.owned
  known i hi := hentries ▸ h.known i (Multiset.mem_of_le howners hi)
  registered := by
    rw [hsockets, hregistrations]
    exact h.registered
  isOpen i hi := hentries ▸ h.isOpen i (hopened i hi)
  fresh r hr x hx := by
    rw [hsockets] at hr
    rw [hentries] at hx
    refine (h.fresh r hr x hx).later (.refl x) hsequence fun task hmem hcarries => ?_
    exact .inr (.inr ⟨task, htasks task hmem _ hcarries, hsequence ▸ hcarries⟩)

theorem same (htasks : t.tasks = s.tasks) : Current t :=
  h.keep hregistrations hsockets hsequence hentries
    (by rw [State.owners, State.owners, htasks, hregistrations])
    (fun i hi => by rwa [State.Opened, htasks, hsockets] at hi) fun _ hmem _ _ => htasks ▸ hmem

theorem append (htasks : t.tasks = s.tasks ++ [task]) (howner : task.owner = 0) :
    Current t := by
  refine h.keep hregistrations hsockets hsequence hentries ?_
    (fun _ => opened_append htasks howner hsockets) fun _ hmem _ _ => ?_
  · rw [State.owners, State.owners, htasks, sum_add, howner, add_zero, hregistrations]
  · rw [htasks]
    exact List.mem_append_left _ hmem

theorem replace (htask : s.tasks[k]? = some task)
    (hcarries : ∀ n i, ¬ task.Carries n i) (howner : (following.map Task.owner).sum ≤ task.owner)
    (hjoining : ∀ other ∈ following, other.joining ≤ task.joining)
    (htasks : t.tasks = (s.replace k following).tasks) : Current t := by
  refine h.keep hregistrations hsockets hsequence hentries (owners_replace htask htasks ?_)
    (fun _ => opened_replace htask htasks hsockets hjoining) ?_
  · rw [hregistrations]
    exact add_le_add_left howner _
  · intro other hmem i hother
    rw [htasks]
    refine mem_replace htask hmem ?_
    rintro rfl
    exact hcarries _ i hother

end Frame

theorem apply (h : Current s) {socket : ℕ} {sockets : List ℕ} {grants : List Grant}
    (htask : s.tasks[k]? = some (.finish (some ⟨state, sequence, socket :: sockets⟩) grants)) :
    Current { s.replace k [.finish (some ⟨state, sequence, sockets⟩) grants] with
        entries := s.entries.modify socket fun x => (x.apply state sequence answer).1 } := by
  have hmodify (i : ℕ) (x y : Entry) (hx : s.entries[i]? = some x)
      (hy : (s.entries.modify socket fun x => (x.apply state sequence answer).1)[i]? = some y) :
      (if socket = i then (x.apply state sequence answer).1 else x) = y := by
    rw [List.getElem?_modify, hx] at hy
    exact Option.some.inj hy
  refine h.write rfl rfl rfl htask (.modify _ _ fun x => (x.applies _ _ _).before) ?_
    (add_zero _).le ?_ rfl ?_
  · intro i x y hx hy
    rw [← hmodify i x y hx hy]
    split
    · exact (x.applies _ _ _).closing_iff
    · exact Iff.rfl
  · intro other hmem
    rw [List.mem_singleton.mp hmem]
    exact le_rfl
  · rintro r hr x y hx hy ⟨hnumber, hmem⟩
    have heq := hmodify r.2 x y hx hy
    by_cases hsocket : socket = r.2
    · rw [if_pos hsocket] at heq
      rcases (x.applies state sequence answer).reached (h.isOpen r.2 (opened_of_mem hr) x hx) with
        hfailed | happlied
      · exact .inl (heq ▸ hfailed)
      · exact .inr (.inl (hnumber ▸ heq ▸ happlied))
    · have hrest := (List.mem_cons.mp hmem).resolve_left fun hr => hsocket hr.symm
      exact .inr (.inr ⟨_, mem_replace_following k List.mem_cons_self, hnumber, hrest⟩)

theorem not_registered (h : Current s) (htask : s.tasks[k]? = some task) (hi : i ∈ task.owner)
    {r : ℕ × ℕ} (hr : r ∈ s.registrations) : i ≠ r.2 := by
  rintro rfl
  have hsum := sum_replace Task.owner htask []
  have howned := h.owned
  rw [List.map_nil, List.sum_nil, add_zero] at hsum
  rw [State.owners, ← hsum, add_assoc] at howned
  have hdisjoint := (Multiset.nodup_add.mp (Multiset.nodup_add.mp howned).2.1).2.2
  exact Multiset.disjoint_left.mp hdisjoint hi (List.mem_map_of_mem hr)

theorem owners_ne (h : Current s) (htask : s.tasks[k]? = some task) {other : Task}
    (hother : other ∈ s.tasks.eraseIdx k) {j : ℕ} (hi : i ∈ task.owner) (hj : j ∈ other.owner) :
    i ≠ j := by
  rintro rfl
  have howned := (Multiset.nodup_add.mp h.owned).1
  rw [((perm_replace htask).map Task.owner).sum_eq, List.map_cons, List.sum_cons] at howned
  refine Multiset.disjoint_left.mp (Multiset.nodup_add.mp howned).2.2 hi ?_
  obtain ⟨l, hl⟩ := List.mem_iff_getElem?.mp hother
  obtain ⟨hlt, rfl⟩ := List.getElem?_eq_some_iff.mp hl
  rw [← ((List.getElem_cons_eraseIdx_perm hlt).map Task.owner).sum_eq, List.map_cons, List.sum_cons]
  exact Multiset.mem_add.mpr (.inl hj)

theorem close (h : Current s) {socket : ℕ} (htask : s.tasks[k]? = some (.close socket)) :
    Current { s.replace k [] with entries := s.entries.modify socket Entry.close } := by
  have howners : (s.replace k []).owners ≤ s.owners :=
    owners_replace htask rfl (add_le_add_left (Multiset.zero_le _) _)
  have hentry {i : ℕ} (hi : (s.replace k []).Opened i) :
      (s.entries.modify socket Entry.close)[i]? = s.entries[i]? := by
    have hne : socket ≠ i := by
      rcases hi with ⟨other, hmem, hi⟩ | hregistered
      · rw [State.replace, List.append_nil] at hmem
        exact h.owners_ne htask hmem (Multiset.mem_singleton_self socket)
          (Multiset.mem_of_le other.joining_le hi)
      · obtain ⟨r, hr, rfl⟩ := List.mem_map.mp hregistered
        exact h.not_registered htask (Multiset.mem_singleton_self socket) (h.registered r hr)
    exact List.getElem?_modify_ne _ _ hne
  refine ⟨Multiset.nodup_of_le howners h.owned, fun i hi => ?_, h.registered,
    fun i hi x hx => ?_, fun r hr x hx => ?_⟩
  · show i < (s.entries.modify socket Entry.close).length
    rw [List.length_modify]
    exact h.known i (Multiset.mem_of_le howners hi)
  · have hfollowing : ∀ other ∈ ([] : List Task), other.joining ≤ (Task.close socket).joining :=
      fun _ hmem => by cases hmem
    exact h.isOpen i (opened_replace htask rfl rfl hfollowing hi) x (hentry hi ▸ hx)
  · have hx' : s.entries[r.2]? = some x := hentry (opened_of_mem hr) ▸ hx
    refine (h.fresh r hr x hx').later (.refl x) rfl fun task hmem hcarries => ?_
    refine .inr (.inr ⟨task, mem_replace htask hmem ?_, hcarries⟩)
    rintro rfl
    exact hcarries

theorem joinSocket (h : Current s) :
    Current { s.add (.join s.entries.length) with entries := s.entries ++ [.new] } := by
  have howners : State.owners { s.add (.join s.entries.length) with
      entries := s.entries ++ [.new] } = s.owners + {s.entries.length} := by
    rw [State.owners, State.owners, State.add, sum_add, add_right_comm]
    rfl
  have hentry {i : ℕ} (hi : s.Opened i) : (s.entries ++ [Entry.new])[i]? = s.entries[i]? :=
    List.getElem?_append_left (h.known _ (h.owner_of_opened hi))
  refine ⟨?_, fun i hi => ?_, h.registered, fun i hi x hx => ?_, fun r hr x hx => ?_⟩
  · rw [howners]
    refine Multiset.nodup_add.mpr ⟨h.owned, Multiset.nodup_singleton _, ?_⟩
    exact Multiset.disjoint_singleton.mpr fun hmem => Nat.lt_irrefl _ (h.known _ hmem)
  · rw [howners] at hi
    show i < (s.entries ++ [Entry.new]).length
    rw [List.length_append]
    rcases Multiset.mem_add.mp hi with hold | hnew
    · exact Nat.lt_succ_of_lt (h.known i hold)
    · rw [Multiset.mem_singleton.mp hnew]
      exact Nat.lt_succ_self _
  · rcases hi with ⟨task, hmem, hi⟩ | hregistered
    · rcases List.mem_append.mp hmem with hold | hnew
      · have hopened : s.Opened i := .inl ⟨task, hold, hi⟩
        exact h.isOpen i hopened x (hentry hopened ▸ hx)
      · rw [List.mem_singleton.mp hnew] at hi
        rw [Multiset.mem_singleton.mp hi] at hx
        have hnew : (s.entries ++ [Entry.new])[s.entries.length]? = some Entry.new :=
          List.getElem?_concat_length
        rw [← Option.some.inj (hnew.symm.trans hx)]
        exact fun hclosing => hclosing.elim nofun nofun
    · have hopened : s.Opened i := .inr hregistered
      exact h.isOpen i hopened x (hentry hopened ▸ hx)
  · have hx' : s.entries[r.2]? = some x := hentry (opened_of_mem hr) ▸ hx
    refine (h.fresh r hr x hx').later (.refl x) rfl fun task hmem hcarries => ?_
    exact .inr (.inr ⟨task, List.mem_append_left _ hmem, hcarries⟩)

theorem deregister (h : Current s) {registration socket : ℕ}
    (hregistration : (registration, socket) ∈ s.registrations) : Current
      { s.add (.close socket) with
        registrations := s.registrations.filter fun r => r ≠ (registration, socket)
        receiveFlowSockets :=
          s.receiveFlowSockets.filter fun r => r ≠ (registration, socket) } := by
  have hnodup : s.registrations.Nodup :=
    List.Nodup.of_map Prod.snd (Multiset.coe_nodup.mp (Multiset.nodup_add.mp h.owned).2.1)
  have hfilter : s.registrations.filter (fun r => r ≠ (registration, socket)) =
      s.registrations.erase (registration, socket) := by
    rw [hnodup.erase_eq_filter]
    exact List.filter_congr fun r _ => (Bool.eq_iff_iff.mpr (by simp))
  have hperm : (s.registrations.map Prod.snd : Multiset ℕ) =
      {socket} + ((s.registrations.filter fun r => r ≠ (registration, socket)).map Prod.snd :
        Multiset ℕ) := by
    rw [hfilter, Multiset.coe_eq_coe.mpr
      ((List.perm_cons_erase hregistration).map Prod.snd), Multiset.singleton_add]
    rfl
  have howners : State.owners { s.add (.close socket) with
      registrations := s.registrations.filter fun r => r ≠ (registration, socket)
      receiveFlowSockets :=
        s.receiveFlowSockets.filter fun r => r ≠ (registration, socket) } = s.owners := by
    rw [State.owners, State.owners, State.add, sum_add, hperm, ← add_assoc]
    rfl
  refine ⟨howners ▸ h.owned, fun i hi => h.known i (howners ▸ hi), fun r hr => ?_,
    fun i hi => h.isOpen i ?_, fun r hr x hx => ?_⟩
  · obtain ⟨hmem, hne⟩ := List.mem_filter.mp hr
    exact List.mem_filter.mpr ⟨h.registered r hmem, hne⟩
  · rcases hi with ⟨task, hmem, hi⟩ | hregistered
    · rcases List.mem_append.mp hmem with hold | hnew
      · exact .inl ⟨task, hold, hi⟩
      · rw [List.mem_singleton.mp hnew] at hi
        cases hi
    · obtain ⟨r, hr, rfl⟩ := List.mem_map.mp hregistered
      exact opened_of_mem (List.mem_of_mem_filter hr)
  · refine (h.fresh r (List.mem_of_mem_filter hr) x hx).later (.refl x) rfl
      fun task hmem hcarries => ?_
    exact .inr (.inr ⟨task, List.mem_append_left _ hmem, hcarries⟩)

theorem stop (h : Current s) : Current s.stop := by
  have howners : s.stop.owners = s.owners := by
    rw [State.owners, State.stop, sum_add, State.owners, Task.owner, add_zero]
  refine ⟨howners ▸ h.owned, fun i hi => ?_, fun _ hr => (by cases hr), fun i hi y hy => ?_,
    fun _ hr => (by cases hr)⟩
  · show i < (State.requestClose _ s.entries).length
    rw [State.requestClose, List.length_mapIdx]
    exact h.known i (howners ▸ hi)
  · obtain ⟨task, hmem, hjoining⟩ := hi.resolve_right fun hnone => by cases hnone
    have hold : task ∈ s.tasks := by
      refine (List.mem_append.mp hmem).resolve_right fun hnew => ?_
      rw [List.mem_singleton.mp hnew] at hjoining
      cases hjoining
    obtain ⟨k, hk⟩ := List.mem_iff_getElem?.mp hold
    have hnot : i ∉ s.receiveFlowSockets.map Prod.snd := by
      intro hregistered
      obtain ⟨r, hr, rfl⟩ := List.mem_map.mp hregistered
      exact h.not_registered hk (Multiset.mem_of_le task.joining_le hjoining)
        (h.registered r hr) rfl
    have hmap : (s.entries[i]?.map fun x =>
        if i ∈ s.receiveFlowSockets.map Prod.snd then x.requestClose else x) = some y :=
      List.getElem?_mapIdx.symm.trans hy
    obtain ⟨x, hx, rfl⟩ := Option.map_eq_some_iff.mp hmap
    rw [if_neg hnot]
    exact h.isOpen i (.inl ⟨task, hold, hjoining⟩) x hx

theorem joined (h : Current s) (hdated : Dated s) {socket : ℕ}
    (htask : s.tasks[k]? = some (.joined socket state s.pressureSequence)) : Current
      { s.replace k [] with
        nextReceiveFlowRegistrationId := s.nextReceiveFlowRegistrationId + 1
        receiveFlowSockets :=
          s.receiveFlowSockets ++ [(s.nextReceiveFlowRegistrationId, socket)]
        registrations := s.registrations ++ [(s.nextReceiveFlowRegistrationId, socket)] } := by
  have hmem := List.mem_of_getElem? htask
  obtain ⟨_, z, hz, happlied, hle⟩ := hdated.tasks _ hmem
  have howners : State.owners
      { s.replace k [] with
        nextReceiveFlowRegistrationId := s.nextReceiveFlowRegistrationId + 1
        receiveFlowSockets :=
          s.receiveFlowSockets ++ [(s.nextReceiveFlowRegistrationId, socket)]
        registrations := s.registrations ++ [(s.nextReceiveFlowRegistrationId, socket)] } ≤
      s.owners := by
    refine owners_replace htask rfl (le_of_eq ?_)
    rw [List.map_nil, List.sum_nil, zero_add, List.map_append, ← Multiset.coe_add, add_comm]
    rfl
  refine ⟨Multiset.nodup_of_le howners h.owned,
    fun i hi => h.known i (Multiset.mem_of_le howners hi), fun r hr => ?_,
    fun i hi => h.isOpen i ?_, fun r hr x hx => ?_⟩
  · exact List.mem_append.mpr ((List.mem_append.mp hr).imp_left (h.registered r))
  · rcases hi with ⟨task, hmem', hi⟩ | hregistered
    · exact .inl ⟨task, (Dated.mem_of_replace hmem').resolve_right (fun hnone => nomatch hnone), hi⟩
    · obtain ⟨r, hr, rfl⟩ := List.mem_map.mp hregistered
      rcases List.mem_append.mp hr with hold | hnew
      · exact opened_of_mem hold
      · rw [List.mem_singleton.mp hnew]
        exact .inl ⟨_, hmem, Multiset.mem_singleton_self socket⟩
  · rcases List.mem_append.mp hr with hold | hnew
    · refine (h.fresh r hold x hx).later (.refl x) rfl fun task hmem hcarries => ?_
      refine .inr (.inr ⟨task, mem_replace htask hmem ?_, hcarries⟩)
      rintro rfl
      exact hcarries
    · rw [List.mem_singleton.mp hnew] at hx
      obtain rfl := Option.some.inj (hz.symm.trans hx)
      exact .inr (.inl ⟨happlied, hle⟩)

theorem step (h : Current s) (hdated : Dated s) (hmove : Move c s t) : Current t := by
  have hnone (task : Task) : ∀ other ∈ ([] : List Task), other.joining ≤ task.joining :=
    fun _ hmem => by cases hmem
  cases hmove with
  | still => exact h
  | rehold | queue | tryReserve | registerAgain | registerEnqueue | again | add | taken | take
  | evaluate | publish | differ => exact h.same rfl rfl rfl rfl rfl
  | drop | registerStopped | cancel | enqueue | level => exact h.append rfl rfl rfl rfl rfl rfl
  | joinSocket => exact h.joinSocket
  | deregister registration socket hholder hregistration => exact h.deregister hregistration
  | stop => exact h.stop
  | release k phase count htask =>
    refine h.replace rfl rfl rfl rfl htask (fun _ _ => id) ?_ ?_ rfl
    · split
      · exact le_rfl
      · exact le_of_eq (add_zero _)
    · intro other hmem
      split at hmem
      · cases hmem
      · rw [List.mem_singleton.mp hmem]
        exact le_rfl
  | settleTake _ htask | settleEvaluate _ htask =>
    exact h.replace rfl rfl rfl rfl htask (fun _ _ => id) le_rfl (hnone _) rfl
  | apply k state sequence socket sockets grants answer htask => exact h.apply htask
  | deliver _ _ _ htask | abandon _ _ _ htask =>
    refine h.replace rfl rfl rfl rfl htask (fun _ _ => id) (le_of_eq (add_zero _))
      (fun other hmem => ?_) rfl
    rw [List.mem_singleton.mp hmem]
    exact le_rfl
  | chore k task following htask hchore =>
    exact h.replace rfl rfl rfl rfl htask (fun _ _ => hchore.not_carries) hchore.owner_le
      (fun _ hmem => hchore.joining_subset hmem) rfl
  | attempted k socket state sequence x answer htask hentry =>
    refine h.attempt rfl rfl rfl htask hentry (le_of_eq (add_zero _)) (fun other hmem => ?_) rfl rfl
    rw [List.mem_singleton.mp hmem]
    exact le_rfl
  | attemptRefused k socket state sequence x answer htask hentry =>
    refine h.attempt rfl rfl rfl htask hentry (le_of_eq (add_zero _)) (fun other hmem => ?_) rfl rfl
    rw [List.mem_singleton.mp hmem]
    exact Multiset.zero_le _
  | joined k socket state htask => exact h.joined hdated htask
  | close k socket htask => exact h.close htask
  | confirm next grants => exact h.conclude next grants
  | correct final grants =>
    have hpublished : Current (s.publishState final) := h.same rfl rfl rfl rfl rfl
    exact hpublished.conclude final grants

end Current

structure Followed (c : Config) (s : State) : Prop where
  balanced : Balanced c s
  steered : Steered c s
  dated : Dated s
  current : Current s

namespace Followed

theorem start (c : Config) : Followed c State.start where
  balanced := .start c
  steered := .suiting rfl (desired_running (Nat.zero_le _))
  dated := ⟨rfl, fun _ => rfl, nofun, nofun⟩
  current := ⟨Multiset.nodup_zero, nofun, nofun, nofun, nofun⟩

theorem step (h : Followed c s) (hmove : Move c s t) : Followed c t where
  balanced := h.balanced.step hmove
  steered := h.steered.step h.balanced hmove
  dated := h.dated.step h.balanced h.steered hmove
  current := h.current.step h.dated hmove

theorem of_run {es : List Event} (hrun : Trace.run (Jobs.step c) s es = some t)
    (h : Followed c s) : Followed c t :=
  Trace.run_invariant (C := fun _ _ => True)
    (fun _ _ _ hs _ hstep => hs.step (Move.of_step hstep)) h (Trace.along_true _ _) hrun

theorem desired_of_quiet (h : Followed c s) (hquiet : s.Quiet) :
    desired c s.published s.used = s.published := by
  by_contra hne
  rcases h.steered.covered hne with hsettle | ⟨critical, hcritical, _⟩
  · rw [hquiet.2] at hsettle
    cases hsettle
  · exact nomatch hquiet.1.symm.trans hcritical

theorem applied_of_quiet (h : Followed c s) (hquiet : s.Quiet) {r : ℕ × ℕ}
    (hr : r ∈ s.receiveFlowSockets) (hx : s.entries[r.2]? = some x)
    (hfailed : x.setterFailed = false) :
    x.hasApplied = true ∧ x.lastAppliedState = s.published := by
  rcases h.current.fresh r hr x hx with hf | ⟨happlied, hge⟩ | ⟨task, hmem, _⟩
  · exact absurd hf (Bool.eq_false_iff.mp hfailed)
  · have hmem := List.mem_of_getElem? hx
    have hstate := h.dated.entries x hmem happlied
    have hsettled := h.dated.settled fun critical hcritical =>
      nomatch hquiet.1.symm.trans hcritical
    rw [Nat.le_antisymm (h.dated.le_sequence hmem happlied) hge, hsettled] at hstate
    exact ⟨happlied, (Option.some.inj hstate).symm⟩
  · rw [hquiet.2] at hmem
    cases hmem

end Followed

structure Converged (c : Config) (s : State) : Prop where
  running : pressureState s.credits = .running →
    permitsInUse s.credits < c.pauseThresholdPermitCount
  paused : pressureState s.credits = .paused → c.resumeThresholdPermitCount < permitsInUse s.credits
  /-- Registered sockets whose setter never failed have applied the published pressure. -/
  applied : ∀ r ∈ s.receiveFlowSockets, ∃ x, s.entries[r.2]? = some x ∧
    (x.setterFailed = false → x.hasApplied = true ∧ x.lastAppliedState = pressureState s.credits)

/-- A reachable state in which nothing is in progress has converged, and no step from any
reachable state lets an older transition overwrite a newer one. -/
theorem run_converged (c : Config) (es : List Event) (s : State)
    (hrun : Trace.run (step c) State.start es = some s) : (s.Quiet → Converged c s) ∧
      ∀ e t, step c s e = some t → ∀ (i : ℕ) (x : Entry), s.entries[i]? = some x →
        ∃ y, t.entries[i]? = some y ∧ x.Before y := by
  have h := Followed.of_run hrun (Followed.start c)
  refine ⟨fun hquiet => ?_, fun e t hstep => (Move.of_step hstep).advances⟩
  have hdesired := h.desired_of_quiet hquiet
  refine ⟨fun hrunning => ?_, fun hpaused => ?_, fun r hr => ?_⟩
  · rw [h.balanced.pressureState_eq] at hrunning
    rw [hrunning] at hdesired
    rw [h.balanced.permitsInUse_eq]
    exact lt_pause_of_desired hdesired
  · rw [h.balanced.pressureState_eq] at hpaused
    rw [hpaused] at hdesired
    rw [h.balanced.permitsInUse_eq]
    exact resume_lt_of_desired hdesired
  · have hlt := h.current.known r.2 (h.current.owner_of_opened (Current.opened_of_mem hr))
    refine ⟨_, List.getElem?_eq_getElem hlt, fun hfailed => ?_⟩
    rw [h.balanced.pressureState_eq]
    exact h.applied_of_quiet hquiet hr (List.getElem?_eq_getElem hlt) hfailed

/-- A socket joins, and is paused by the reservations that come behind it. -/
def pausedRun : List Event :=
  [.joinSocket, .work 0 .applied, .work 0 .applied, .work 0 .applied, .tryReserve 5, .advance,
    .advance, .advance, .advance, .work 0 .applied, .work 0 .applied, .work 0 .applied,
    .work 0 .applied]

theorem run_converged_paused : ∃ s, Trace.run (step smallQueue) State.start pausedRun = some s ∧
      (s.tasks, s.entries.map Entry.lastAppliedState) = ([], [.paused]) ∧
      (s.Quiet → Converged smallQueue s) ∧
      ∀ e t, step smallQueue s e = some t → ∀ (i : ℕ) (x : Entry), s.entries[i]? = some x →
        ∃ y, t.entries[i]? = some y ∧ x.Before y := by
  have hrun : (Trace.run (step smallQueue) State.start pausedRun).map
      (fun s => (s.tasks, s.entries.map Entry.lastAppliedState)) = some ([], [.paused]) := by
    decide +kernel
  obtain ⟨s, hs, hstates⟩ := Option.map_eq_some_iff.mp hrun
  exact ⟨s, hs, hstates, run_converged smallQueue pausedRun s hs⟩

end Zlink.Jobs
