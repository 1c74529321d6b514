import Zlink.Jobs.Supply

/-!
# The published pressure follows the permits

`Steered` says that a pressure that no longer suits the permits in use is about to be
looked at again. `Dated` ties every state on its way to a socket to its sequence number, and
`Current` says that a registered socket has applied the last transition, is about to, or
has a setter that failed.
-/

namespace Zlink.Jobs

variable {c : Config} {s t : State} {k n : ℕ} {task : Task} {following : List Task}
  {x y z : Entry} {state next : Pressure} {sequence : ℕ} {answer : ApplyResult}

theorem desired_running (h : n ≤ c.resumeThresholdPermitCount) :
    desired c .running n = .running := by
  have hlt := c.resume_lt_pause
  rw [desired, if_neg (by omega), if_neg nofun]

theorem desired_paused (h : n ≤ c.resumeThresholdPermitCount) : desired c .paused n = .running := by
  rw [desired, if_neg nofun, if_pos ⟨rfl, h⟩]

theorem lt_pause_of_desired (h : desired c .running n = .running) :
    n < c.pauseThresholdPermitCount := by
  by_contra hge
  rw [desired, if_pos ⟨rfl, not_lt.mp hge⟩] at h
  cases h

theorem resume_lt_of_desired (h : desired c .paused n = .paused) :
    c.resumeThresholdPermitCount < n := by
  by_contra hle
  rw [desired_paused (not_lt.mp hle)] at h
  cases h

theorem le_resume_of_desired (h : desired c state n = .running) (hne : state ≠ .running) :
    n ≤ c.resumeThresholdPermitCount := by
  cases state with
  | running => exact absurd rfl hne
  | paused =>
    by_contra hlt
    rw [desired, if_neg nofun, if_neg fun hle => hlt hle.2] at h
    cases h

namespace Critical

/-- The holder of the mutex will look at the pressure before it leaves. -/
def Steers : Critical → Prop
  | .enqueue _ => False
  | _ => True

def Decided (c : Config) (published : Pressure) (used : ℕ) : Critical → Prop
  | .publish next _ => next = .running → used ≤ c.resumeThresholdPermitCount
  | .confirm next _ =>
    published = next ∧ (next = .running → used ≤ c.resumeThresholdPermitCount)
  | .correct final _ => final = .running ∧ used ≤ c.resumeThresholdPermitCount
  | _ => True

theorem Decided.mono {published : Pressure} {used less : ℕ} {critical : Critical}
    (h : critical.Decided c published used) (hle : less ≤ used) :
    critical.Decided c published less := by
  cases critical with
  | publish => exact fun hnext => hle.trans (h hnext)
  | confirm => exact ⟨h.1, fun hnext => hle.trans (h.2 hnext)⟩
  | correct => exact ⟨h.1, hle.trans h.2⟩
  | _ => trivial

end Critical

/-- A pressure that does not suit the permits in use is about to be looked at. -/
structure Steered (c : Config) (s : State) : Prop where
  covered : desired c s.published s.used ≠ s.published →
    .settle ∈ s.tasks ∨ ∃ critical, s.holder = some critical ∧ critical.Steers
  decided : ∀ critical, s.holder = some critical → critical.Decided c s.published s.used

namespace Steered

theorem same (h : Steered c s) (hpublished : t.published = s.published)
    (hused : t.used = s.used) (hsettle : .settle ∈ s.tasks → .settle ∈ t.tasks)
    (hholder : t.holder = s.holder) : Steered c t where
  covered hne := by
    rw [hpublished, hused] at hne
    rw [hholder]
    exact (h.covered hne).imp_left hsettle
  decided := by
    rw [hholder, hpublished, hused]
    exact h.decided

theorem steering {critical : Critical} (hholder : t.holder = some critical)
    (hsteers : critical.Steers) (hdecided : critical.Decided c t.published t.used) :
    Steered c t where
  covered _ := .inr ⟨critical, hholder, hsteers⟩
  decided other hother := Option.some.inj (hholder.symm.trans hother) ▸ hdecided

theorem suiting (hholder : t.holder = none)
    (hdesired : desired c t.published t.used = t.published) : Steered c t where
  covered hne := absurd hdesired hne
  decided critical hcritical := by cases hholder.symm.trans hcritical

theorem replace (h : Steered c s) (htask : s.tasks[k]? = some task) (hne : .settle ≠ task)
    (htasks : t.tasks = (s.replace k following).tasks) (hpublished : t.published = s.published)
    (hused : t.used = s.used) (hholder : t.holder = s.holder) : Steered c t :=
  h.same hpublished hused (fun hmem => htasks ▸ mem_replace htask hmem hne) hholder

theorem release (h : Steered c s) (hs : Balanced c s) {phase : PermitPhase} {count : ℕ}
    (htask : s.tasks[k]? = some (.release phase count)) :
    Steered c (s.releaseCredits c k phase count) := by
  have ht := hs.release htask
  obtain ⟨hreserved, hqueued⟩ := Balanced.release_permits (c := c) htask
  have hused : (s.releaseCredits c k phase count).used ≤ s.used := by
    rw [State.used, State.used]
    omega
  refine ⟨fun hne => .inl ?_, fun critical hcritical => (h.decided critical hcritical).mono hused⟩
  apply mem_replace_following
  have hslow : ¬ State.Quick c s.credits (releaseAmount phase count) := fun hquick => by
    have hdesired := ht.desiredPressure_eq
    rw [show (s.releaseCredits c k phase count).credits =
      fetchSub s.credits (releaseAmount phase count) from rfl, hquick.2,
      hs.pressureState_eq] at hdesired
    exact hne hdesired.symm
  rw [if_neg hslow]
  exact List.mem_singleton.mpr rfl

theorem step (h : Steered c s) (hs : Balanced c s) (hmove : Move c s t) : Steered c t := by
  have ht := hs.step hmove
  cases hmove with
  | still => exact h
  | rehold => exact h.same rfl (hs.used_eq ht rfl) id rfl
  | queue held hreserved hqueued =>
    refine h.same rfl ?_ id rfl
    simp only [State.used, State.reserved, State.queued]
    omega
  | drop | joinSocket | deregister | registerStopped =>
    exact h.same rfl (hs.used_eq ht rfl) (List.mem_append_left _) rfl
  | tryReserve | registerAgain | settleTake | settleEvaluate | again | add | taken | take =>
    exact steering rfl trivial trivial
  | registerEnqueue requested hholder =>
    refine ⟨fun hne => .inl ?_, fun critical hcritical => Option.some.inj hcritical ▸ trivial⟩
    rw [hs.used_eq ht rfl] at hne
    refine (h.covered hne).resolve_right ?_
    rintro ⟨critical, hcritical, _⟩
    cases hholder.symm.trans hcritical
  | cancel => exact h.same rfl (hs.used_eq_of_waiters ht rfl) (List.mem_append_left _) rfl
  | stop =>
    have hcredits : s.stop.credits = publishWaiters ([] : List Waiter) s.credits := rfl
    exact h.same rfl (hs.used_eq_of_waiters ht hcredits) (List.mem_append_left _) rfl
  | release k phase count htask => exact h.release hs htask
  | apply _ _ _ _ _ _ _ htask | deliver _ _ _ htask | abandon _ _ _ htask
  | attempted _ _ _ _ _ _ htask | attemptRefused _ _ _ _ _ _ htask | joined _ _ _ htask
  | close _ _ htask =>
    exact h.replace htask (fun h => by cases h) rfl rfl (hs.used_eq ht rfl) rfl
  | chore k task following htask hchore =>
    refine h.replace htask ?_ rfl rfl (hs.used_eq ht rfl) rfl
    rintro rfl
    cases hchore
  | enqueue requested hholder =>
    refine ⟨fun _ => .inl ?_, fun _ hheld => by cases hheld⟩
    exact List.mem_append_right _ (List.mem_singleton.mpr rfl)
  | level grants hholder hdesired =>
    rw [hs.desiredPressure_eq, hs.pressureState_eq] at hdesired
    exact suiting rfl (by rw [hs.used_eq ht rfl]; exact hdesired)
  | evaluate grants hholder hdesired =>
    rw [hs.desiredPressure_eq, hs.pressureState_eq] at hdesired
    refine steering rfl trivial fun hnext => ?_
    rw [hs.desiredPressure_eq] at hnext
    rw [hs.used_eq ht rfl]
    exact le_resume_of_desired hnext fun hpublished => hdesired (hnext.trans hpublished.symm)
  | publish next grants hholder =>
    refine steering rfl trivial ⟨rfl, fun hnext => ?_⟩
    rw [hs.used_eq_of_pressure ht rfl]
    exact h.decided _ hholder hnext
  | confirm next grants hholder hdesired =>
    obtain ⟨rfl, _⟩ := h.decided _ hholder
    rw [hs.desiredPressure_eq] at hdesired
    exact suiting rfl (by rw [hs.used_eq ht rfl]; exact hdesired)
  | differ next grants hholder hdesired =>
    obtain ⟨rfl, hlow⟩ := h.decided _ hholder
    rw [hs.desiredPressure_eq] at hdesired
    refine steering rfl trivial ?_
    rw [hs.used_eq ht rfl, hs.desiredPressure_eq]
    cases hpublished : s.published with
    | running =>
      rw [hpublished] at hdesired hlow
      exact absurd (desired_running (hlow rfl)) hdesired
    | paused =>
      rw [hpublished] at hdesired
      have hfinal : desired c .paused s.used = .running := by
        cases hvalue : desired c .paused s.used with
        | running => rfl
        | paused => exact absurd hvalue hdesired
      exact ⟨hfinal, le_resume_of_desired hfinal (fun h => by cases h)⟩
  | correct final grants hholder =>
    obtain ⟨rfl, hlow⟩ := h.decided _ hholder
    have hcredits : ((s.publishState .running).conclude .running grants).credits =
        publishPressure .running s.credits := rfl
    refine suiting rfl ?_
    rw [hs.used_eq_of_pressure ht hcredits]
    exact desired_running hlow

end Steered

end Zlink.Jobs
