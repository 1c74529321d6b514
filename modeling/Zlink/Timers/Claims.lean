import Zlink.Timers.Fires

/-!
# Claims

A claim that `admit_timer_fire` has granted belongs to one call, to the admission it was handed
to, or to the `cancel` that has taken it from there. It is released once, and when no call is
under way none is left.
-/

namespace Zlink.Timers

variable {s t : State} {c d : Core} {x : Activity} {answer : Answer} {stops : Bool} {a : ℕ}

def one (a b : ℕ) : ℕ :=
  if b = a then 1 else 0

def oneOf (a : ℕ) : Option ℕ → ℕ
  | some b => one a b
  | none => 0

@[simp] theorem one_self (a : ℕ) : one a a = 1 :=
  if_pos rfl

theorem one_of_ne {a b : ℕ} (h : b ≠ a) : one a b = 0 :=
  if_neg h

theorem count_cons_one (a b : ℕ) (xs : List ℕ) : (b :: xs).count a = xs.count a + one a b := by
  rw [List.count_cons]
  congr 1
  simp [one]

theorem count_append_one (a b : ℕ) (xs : List ℕ) : (xs ++ [b]).count a = xs.count a + one a b := by
  rw [List.count_append, count_cons_one]
  simp

def claimsOf (a : ℕ) : Activity → ℕ
  | .claim b admitted _ => if admitted then one a b else 0
  | .cleanup taken | .cleaned taken _ | .leave taken => oneOf a taken
  | .settle (.cancel taken) | .complete (.cancel taken) => oneOf a taken
  | _ => 0

/-- The call is about to ask for the claim of this admission. -/
def admitting (a : ℕ) : Activity → ℕ
  | .admitTimerFire b _ => one a b
  | _ => 0

def owners (a : ℕ) : Activity → ℕ
  | .post _ after => oneOf a after
  | .admitTimerFire b after | .claim b _ after | .offer b _ after | .rollback b after =>
    one a b + oneOf a after
  | .queued b | .enter _ b | .callback b | .stop b | .reset b | .finish b => one a b
  | .settle (.callback b _) | .complete (.callback b _) => one a b
  | _ => 0

@[simp] theorem claimsOf_returning (after : Option ℕ) :
    ((returning after).map (claimsOf a)).sum = 0 := by
  cases after <;> rfl

@[simp] theorem admitting_returning (after : Option ℕ) :
    ((returning after).map (admitting a)).sum = 0 := by
  cases after <;> rfl

@[simp] theorem owners_returning (after : Option ℕ) :
    ((returning after).map (owners a)).sum = oneOf a after := by
  cases after <;> rfl

theorem claimsOf_next (caller : Caller) : claimsOf a caller.next = claimsOf a (.settle caller) ∧
      claimsOf a (.complete caller) = claimsOf a (.settle caller) := by
  rcases caller with ⟨_, _ | _⟩ | _ <;> exact ⟨rfl, rfl⟩

theorem admitting_next (caller : Caller) : admitting a caller.next = 0 := by
  rcases caller with ⟨_, _ | _⟩ | _ <;> rfl

theorem owners_next (caller : Caller) : owners a caller.next = owners a (.settle caller) ∧
      owners a (.complete caller) = owners a (.settle caller) := by
  rcases caller with ⟨_, _ | _⟩ | _ <;> exact ⟨rfl, rfl⟩

namespace Claims

variable {p : Claims}

def placed (p : Claims) (a : ℕ) : ℕ :=
  p.released.count a + p.held.count a

theorem placed_drop (b : ℕ) : (p.drop b).placed a = p.placed a := by
  unfold drop placed
  split
  · rename_i hmem
    dsimp only
    rw [count_append_one]
    by_cases hab : b = a
    · subst hab
      have hpos := List.count_pos_iff.mpr hmem
      rw [List.count_erase_self, one_self]
      omega
    · rw [List.count_erase_of_ne (Ne.symm hab), one_of_ne hab]
      rfl
  · rfl

theorem drop_held_le (b : ℕ) : (p.drop b).held.count a ≤ p.held.count a := by
  unfold drop
  split
  · exact List.erase_sublist.count_le a
  · exact le_rfl

theorem drop_held (b : ℕ) (h : p.held.count b ≤ 1) : (p.drop b).held.count b = 0 := by
  unfold drop
  split
  · dsimp only
    rw [List.count_erase_self]
    omega
  · rename_i hmem
    exact List.count_eq_zero.mpr hmem

theorem drop_claimed (b : ℕ) : (p.drop b).claimed = p.claimed ∧ (p.drop b).next = p.next := by
  unfold drop
  split <;> exact ⟨rfl, rfl⟩

end Claims

@[simp] theorem claims_discard (fires : ℕ) : (c.discard fires).claims = c.claims := by
  unfold Core.discard
  split <;> rfl

/-- What `cancel` takes leaves the admission. -/
theorem placed_taken (held : List ℕ) (pending : Option ℕ) (h : ∀ b, held.count b ≤ 1) :
    let taken := pending.filter fun admission => admission ∈ held
    (held.filter fun admission => taken ≠ some admission).count a + oneOf a taken =
      held.count a := by
  cases pending with
  | none => simp [oneOf]
  | some b =>
    by_cases hb : b ∈ held
    · have htaken : (some b).filter (fun admission => decide (admission ∈ held)) = some b := by
        simp [hb]
      simp only [htaken, oneOf]
      by_cases hab : b = a
      · subst hab
        have hpos := List.count_pos_iff.mpr hb
        have hle := h b
        rw [one_self, List.count_eq_zero.mpr (by simp)]
        omega
      · rw [one_of_ne hab, List.count_filter (by simpa using hab)]
        rfl
    · have htaken : (some b).filter (fun admission => decide (admission ∈ held)) = none := by
        simp [hb]
      simp [htaken, oneOf]

variable (x answer stops a) in
theorem perform_placed (h : ∀ b, c.claims.held.count b ≤ 1) :
    (perform stops c answer x).1.claims.placed a +
        ((perform stops c answer x).2.map (claimsOf a)).sum + c.claims.claimed.count a =
      (perform stops c answer x).1.claims.claimed.count a + c.claims.placed a + claimsOf a x := by
  cases x with
  | post fires after =>
    simp only [perform, post]
    split_ifs
    · rw [claims_discard, claimsOf_returning]
      exact Nat.add_comm _ _
    · rw [claimsOf_returning]
      exact Nat.add_comm _ _
    · exact Nat.add_comm _ _
  | admitTimerFire admission after =>
    simp only [perform, admitTimerFire, Claims.admitTimerFire, claimsOf, List.map_cons,
      List.map_nil,
      List.sum_cons, List.sum_nil]
    split
    · rw [count_append_one]
      simp only [Claims.placed]
      omega
    · omega
  | claim admission admitted after =>
    simp only [perform, claim]
    split
    · simp only [Claims.release, claimsOf, List.map_cons, List.map_nil, List.sum_cons, List.sum_nil]
      split
      · simp only [Claims.placed, count_append_one]
        omega
      · omega
    · simp only [Claims.hand, claimsOf, List.map_cons, List.map_nil, List.sum_cons, List.sum_nil]
      split
      · simp only [Claims.placed, count_cons_one]
        omega
      · omega
  | offer admission admitted after =>
    simp only [perform, offer]
    split
    · rw [List.map_cons, List.sum_cons, claimsOf_returning]
      exact Nat.add_comm _ _
    · exact Nat.add_comm _ _
  | rollback admission after =>
    simp only [perform, rollback]
    split
    all_goals
      rw [claimsOf_returning, Claims.placed_drop, (Claims.drop_claimed _).1]
      exact Nat.add_comm _ _
  | queued admission =>
    simp only [perform, dispatchQueued]
    split
    · exact Nat.add_comm _ _
    · split <;> exact Nat.add_comm _ _
  | direct fires =>
    simp only [perform, admitDirect]
    split
    · simp only [Claims.placed, claimsOf, List.map_cons, List.map_nil, List.sum_cons,
        List.sum_nil, count_append_one, count_cons_one]
      omega
    · exact Nat.add_comm _ _
  | enter fires claim =>
    simp only [perform, dispatchDirect]
    split_ifs <;> exact Nat.add_comm _ _
  | callback admission =>
    simp only [perform, endCallback]
    split <;> exact Nat.add_comm _ _
  | stop admission => exact Nat.add_comm _ _
  | reset admission =>
    simp only [perform, resetRunning]
    split_ifs
    · rw [claims_discard]
      exact Nat.add_comm _ _
    all_goals exact Nat.add_comm _ _
  | settle caller =>
    simp only [perform, completeCancelIfReady]
    split
    · rw [List.map_singleton, List.sum_singleton, (claimsOf_next caller).2]
      exact (add_rotate _ _ _).symm
    · rw [List.map_singleton, List.sum_singleton, (claimsOf_next caller).1]
      exact (add_rotate _ _ _).symm
  | complete caller =>
    rw [perform, List.map_singleton, List.sum_singleton, (claimsOf_next caller).1,
      (claimsOf_next caller).2]
    exact (add_rotate _ _ _).symm
  | finish admission =>
    rw [perform, Claims.placed_drop, (Claims.drop_claimed _).1]
    exact Nat.add_comm _ _
  | cancel =>
    simp only [perform, cancel]
    split
    · exact Nat.add_comm _ _
    · have htaken := placed_taken (a := a) c.claims.held c.timer.pendingFire.join h
      rw [claims_discard]
      simp only [Claims.placed, claimsOf, List.map_cons, List.map_nil, List.sum_cons,
        List.sum_nil] at htaken ⊢
      omega
  | cleanup | cleaned => exact (add_rotate _ _ _).symm
  | leave taken =>
    simp only [perform, Claims.placed, claimsOf, List.map_nil, List.sum_nil, List.count_append]
    cases taken with
    | none | some =>
      simp only [Option.toList_none, List.count_nil, oneOf, Option.toList_some, count_cons_one]
      omega

def given (a next : ℕ) : ℕ :=
  if a < next then 1 else 0

theorem given_succ (a next : ℕ) : given a (next + 1) = given a next + one a next := by
  unfold given one
  split_ifs <;> omega

variable (c x answer stops a) in
theorem perform_admitting : (perform stops c answer x).1.claims.claimed.count a +
        ((perform stops c answer x).2.map (admitting a)).sum + given a c.claims.next ≤
      c.claims.claimed.count a + admitting a x +
        given a (perform stops c answer x).1.claims.next := by
  cases x with
  | post fires after =>
    simp only [perform, post]
    split_ifs
    · rw [claims_discard, admitting_returning]
      exact le_rfl
    · rw [admitting_returning]
      exact le_rfl
    · simp only [admitting, List.map_cons, List.map_nil, List.sum_cons, List.sum_nil, given_succ]
      omega
  | admitTimerFire admission after =>
    simp only [perform, admitTimerFire, Claims.admitTimerFire, admitting, List.map_cons,
      List.map_nil,
      List.sum_cons, List.sum_nil]
    split
    · dsimp only
      rw [count_append_one]
      omega
    · omega
  | claim admission admitted after =>
    simp only [perform, claim, Claims.release, Claims.hand]
    split_ifs <;> exact le_rfl
  | offer admission admitted after =>
    simp only [perform, offer]
    split
    · rw [List.map_cons, List.sum_cons, admitting_returning]
      exact le_rfl
    · exact le_rfl
  | rollback admission after =>
    simp only [perform, rollback]
    split
    all_goals
      rw [admitting_returning, (Claims.drop_claimed _).1, (Claims.drop_claimed _).2]
      exact le_rfl
  | queued admission =>
    simp only [perform, dispatchQueued]
    split_ifs <;> exact le_rfl
  | direct fires =>
    simp only [perform, admitDirect]
    split
    · simp only [admitting, List.map_cons, List.map_nil, List.sum_cons, List.sum_nil,
        given_succ, count_append_one]
      omega
    · exact le_rfl
  | enter fires claim =>
    simp only [perform, dispatchDirect]
    split_ifs <;> exact le_rfl
  | callback admission =>
    simp only [perform, endCallback]
    split <;> exact le_rfl
  | stop | cleanup | cleaned | leave => exact le_rfl
  | reset admission =>
    simp only [perform, resetRunning]
    split_ifs
    · rw [claims_discard]
      exact le_rfl
    all_goals exact le_rfl
  | settle caller =>
    simp only [perform, completeCancelIfReady]
    split
    · exact le_rfl
    · rw [List.map_singleton, List.sum_singleton, admitting_next]
      exact le_rfl
  | complete caller =>
    rw [perform, List.map_singleton, List.sum_singleton, admitting_next]
    exact le_rfl
  | finish admission =>
    rw [perform, (Claims.drop_claimed _).1, (Claims.drop_claimed _).2]
    exact le_rfl
  | cancel =>
    simp only [perform, cancel]
    split
    · exact le_rfl
    · rw [claims_discard]
      exact le_rfl

theorem perform_owners {before after : ℕ} (htotal : after + owners a x =
      before + ((perform stops c answer x).2.map (owners a)).sum)
    (hmem : owners a x ≤ before) (hheld : c.claims.held.count a ≤ before)
    (hone : c.claims.held.count a ≤ 1) (hclaim : c.claims.held.count a + claimsOf a x ≤ 1) :
    (perform stops c answer x).1.claims.held.count a ≤ after := by
  -- a call that passes its admissions on
  have hpass (following : List Activity)
      (h : after + owners a x = before + (following.map (owners a)).sum)
      (hle : owners a x ≤ (following.map (owners a)).sum) :
      c.claims.held.count a ≤ after := by
    omega
  -- a call that lets its admission go
  have hdrop (b : ℕ) (h : after + one a b = before) : (c.claims.drop b).held.count a ≤ after := by
    by_cases hself : b = a
    · subst hself
      rw [Claims.drop_held b hone]
      exact Nat.zero_le _
    · rw [one_of_ne hself] at h
      exact (Claims.drop_held_le b).trans (hheld.trans h.ge)
  cases x with
  | post fires next =>
    simp only [perform, post] at htotal ⊢
    split_ifs at htotal ⊢
    · rw [claims_discard]
      exact hpass _ htotal (owners_returning next).ge
    · exact hpass _ htotal (owners_returning next).ge
    · exact hpass _ htotal (Nat.le_add_left _ _)
  | admitTimerFire admission next =>
    simp only [perform, admitTimerFire, Claims.admitTimerFire] at htotal ⊢
    split <;> exact hpass _ htotal le_rfl
  | claim admission admitted next =>
    simp only [perform, claim] at htotal ⊢
    split at htotal
    · rename_i hgone
      rw [if_pos hgone]
      simp only [Claims.release]
      split <;> exact hpass _ htotal le_rfl
    · rename_i hstays
      rw [if_neg hstays]
      simp only [Claims.hand]
      split
      · simp only [claimsOf, owners, List.map_cons, List.map_nil, List.sum_cons, List.sum_nil,
          if_pos ‹admitted = true›] at hclaim htotal
        dsimp only
        rw [count_cons_one]
        by_cases hself : admission = a
        · subst hself
          rw [one_self] at hclaim htotal ⊢
          simp only [owners, one_self] at hmem
          omega
        · rw [one_of_ne hself]
          omega
      · exact hpass _ htotal le_rfl
  | offer admission admitted next =>
    simp only [perform, offer] at htotal ⊢
    split at htotal
    · rename_i hposted
      rw [if_pos hposted]
      refine hpass _ htotal ?_
      rw [List.map_cons, List.sum_cons, owners_returning]
      exact le_rfl
    · rename_i hrefused
      rw [if_neg hrefused]
      exact hpass _ htotal le_rfl
  | rollback admission next =>
    have hgone : after + one a admission = before := by
      simp only [perform, rollback] at htotal
      split at htotal
      all_goals
        simp only [owners_returning, owners] at htotal
        omega
    simp only [perform, rollback]
    split <;> exact hdrop admission hgone
  | queued | enter | callback =>
    simp only [perform, dispatchQueued, dispatchDirect, endCallback] at htotal ⊢
    split_ifs at htotal ⊢ <;> exact hpass _ htotal le_rfl
  | direct fires =>
    simp only [perform, admitDirect] at htotal ⊢
    split_ifs at htotal ⊢
    · simp only [owners, List.map_cons, List.map_nil, List.sum_cons, List.sum_nil] at htotal
      rw [count_cons_one]
      omega
    · exact hpass _ htotal le_rfl
  | stop | leave => exact hpass _ htotal le_rfl
  | reset admission =>
    simp only [perform, resetRunning] at htotal ⊢
    split_ifs at htotal ⊢
    · rw [claims_discard]
      exact hpass _ htotal le_rfl
    all_goals exact hpass _ htotal le_rfl
  | settle caller =>
    simp only [perform, completeCancelIfReady] at htotal ⊢
    split_ifs at htotal ⊢
    · refine hpass _ htotal ?_
      rw [List.map_singleton, List.sum_singleton, (owners_next caller).2]
    · refine hpass _ htotal ?_
      rw [List.map_singleton, List.sum_singleton, (owners_next caller).1]
  | complete caller =>
    refine hpass _ htotal ?_
    rw [perform, List.map_singleton, List.sum_singleton, (owners_next caller).1,
      (owners_next caller).2]
  | finish admission => exact hdrop admission htotal
  | cancel =>
    simp only [perform, cancel] at htotal ⊢
    split_ifs at htotal ⊢
    · exact hpass _ htotal le_rfl
    · rw [claims_discard]
      exact (List.filter_sublist.count_le a).trans (hpass _ htotal le_rfl)
  | cleanup | cleaned => exact hpass _ htotal (Nat.zero_le _)

structure Claimed (s : State) : Prop where
  placed : ∀ a, s.core.claims.placed a + s.total (claimsOf a) = s.core.claims.claimed.count a
  once : ∀ a, s.core.claims.claimed.count a + s.total (admitting a) ≤ given a s.core.claims.next
  owned : ∀ a, s.core.claims.held.count a ≤ s.total (owners a)

namespace Claimed

theorem claimed_le (h : Claimed s) (a : ℕ) : s.core.claims.claimed.count a ≤ 1 := by
  have honce := h.once a
  have hgiven : given a s.core.claims.next ≤ 1 := by
    unfold given
    split <;> omega
  omega

theorem placed_le (h : Claimed s) (a : ℕ) :
    s.core.claims.released.count a + s.core.claims.held.count a + s.total (claimsOf a) ≤ 1 :=
  (h.placed a).trans_le (h.claimed_le a)

theorem steps (h : Claimed s) (hsteps : Steps stops s t) : Claimed t := by
  obtain ⟨x, answer, hmem, hcore, htotal⟩ := hsteps
  constructor
  · intro a
    have hperform := perform_placed x answer stops a
      (c := s.core) fun b => by have := h.placed_le b; omega
    have hsum := htotal (claimsOf a)
    have hplaced := h.placed a
    rw [hcore]
    omega
  · intro a
    have hperform := perform_admitting s.core x answer stops a
    have hsum := htotal (admitting a)
    have honce := h.once a
    rw [hcore]
    omega
  · intro a
    rw [hcore]
    have hone := h.placed_le a
    have hclaim := Pool.le_sum (w := claimsOf a) hmem
    change claimsOf a x ≤ s.total (claimsOf a) at hclaim
    exact perform_owners (htotal (owners a)) (Pool.le_sum hmem) (h.owned a) (by omega) (by omega)

theorem released_eq (h : Claimed s) (hquiet : s.activities = []) (a : ℕ) :
    s.core.claims.released.count a = s.core.claims.claimed.count a := by
  have hplaced := h.placed a
  have howned := h.owned a
  unfold State.total at hplaced howned
  rw [hquiet] at hplaced howned
  simp only [Claims.placed, List.map_nil, List.sum_nil] at hplaced howned
  omega

end Claimed

end Zlink.Timers
