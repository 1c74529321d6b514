import Zlink.Spots.Turns

/-!
# The admission of a transfer and the move of its Actor

An admission knows its Actor and a move knows its transfer, and several operations go from the
admission to the move of the Actor without a look at the transfer of this move. They are right
as long as the Actor of every pending admission is held for it, which a run keeps exactly when
no operation takes a move in a target phase away by the key of its Actor alone.
-/

namespace Zlink.Spots

namespace Coordinator

variable {s : Coordinator} {operation : Operation} {transferId key : String}

def Belongs (s : Coordinator) (transferId key : String) : Prop :=
  ∃ move, s.moves.find key = some move ∧ move.transferId = transferId ∧ move.phase.isTarget

def Tracked (s : Coordinator) : Prop :=
  ∀ transferId admission, s.admissions.find transferId = some admission →
    s.Belongs transferId admission.actorKey

theorem tracked_iff : s.Tracked ↔ s.custody.Tracked := by
  constructor
  · intro h transferId key hticket
    obtain ⟨admission, hadmission, rfl⟩ := Option.map_eq_some_iff.mp hticket
    exact tenure_eq_held_iff.mpr (h transferId admission hadmission)
  · intro h transferId admission hadmission
    exact tenure_eq_held_iff.mp (h transferId _ (tickets_of_find hadmission))

theorem tracked_next_iff (operation : Operation) (ho : s.custody.Owned) (ht : s.Tracked) :
    (s.next operation).Tracked ↔ s.Respects operation :=
  tracked_iff.trans ((turn_custody ho operation).tracked ho (tracked_iff.mp ht))

theorem eq_of_tracked {transferId' : String} {admission admission' : Admission} (ht : s.Tracked)
    (h : s.admissions.find transferId = some admission)
    (h' : s.admissions.find transferId' = some admission')
    (hkey : admission.actorKey = admission'.actorKey) : transferId = transferId' := by
  obtain ⟨move, hfind, hid, -⟩ := ht transferId admission h
  obtain ⟨move', hfind', hid', -⟩ := ht transferId' admission' h'
  rw [hkey] at hfind
  rw [← hid, ← hid', Option.some.inj (hfind.symm.trans hfind')]

def transfers (s : Coordinator) : Operation → Option (List String)
  | .beginCommit transferId _ _ _ => some [transferId]
  | .completeCommitAndTakeBacklog transferId _ _ => some [transferId]
  | .failCommit transferId _ => some [transferId]
  | .completeCommit transferId => some [transferId]
  | .cleanupExpired now blockedCandidates =>
    some ((s.cleanupExpired now blockedCandidates).2.1.map ExpiredAdmission.transferId)
  | _ => none

/-- The operation leaves everything alone except some admissions and what belongs to them. -/
def Confines (s next : Coordinator) (transferIds : List String) : Prop :=
  (∀ transferId ∉ transferIds, next.admissions.find transferId = s.admissions.find transferId) ∧
  ∀ key, (∀ transferId ∈ transferIds, ¬ s.Belongs transferId key) →
    next.moves.find key = s.moves.find key ∧ next.backlog key = s.backlog key

theorem confines_refl (transferIds : List String) : s.Confines s transferIds :=
  ⟨fun _ _ => rfl, fun _ _ => ⟨rfl, rfl⟩⟩

theorem confines_of_other {next : Coordinator} {admission : Admission} (ht : s.Tracked)
    (hadmission : s.admissions.find transferId = some admission)
    (hadmissions : ∀ other ≠ transferId, next.admissions.find other = s.admissions.find other)
    (hother : ∀ key ≠ admission.actorKey,
      next.moves.find key = s.moves.find key ∧ next.backlog key = s.backlog key) :
    s.Confines next [transferId] := by
  refine ⟨fun other h => hadmissions other (mt List.mem_singleton.mpr h), fun key h => ?_⟩
  refine hother key ?_
  rintro rfl
  exact h transferId List.mem_cons_self (ht transferId admission hadmission)

theorem find_setMove_of_ne {move : Move} {other : String} (h : other ≠ key) :
    (s.setMove key move).moves.find other = s.moves.find other :=
  OrderedMap.find_insertOrAssign_of_ne _ _ h

theorem confines_close {admission : Admission} (ht : s.Tracked)
    (hadmission : s.admissions.find transferId = some admission) :
    s.Confines (s.close transferId admission.actorKey) [transferId] :=
  confines_of_other ht hadmission (fun _ h => OrderedMap.find_erase_of_ne _ h)
    fun _ h => find_close_of_ne h

theorem confines_beginCommit {sourceActor : ActorRef} {targetSpotId : String} {now : ℤ}
    (ht : s.Tracked) :
    s.Confines (s.beginCommit transferId sourceActor targetSpotId now).1 [transferId] := by
  obtain heq | ⟨admission, hadmission, heq⟩ | ⟨admission, move, hadmission, -, -, -, heq⟩ :=
    s.beginCommit_cases transferId sourceActor targetSpotId now
  · rw [heq]
    exact confines_refl _
  · rw [heq]
    exact confines_close ht hadmission
  · rw [heq]
    exact confines_of_other ht hadmission (fun _ _ => rfl) fun _ h => ⟨find_setMove_of_ne h, rfl⟩

theorem confines_completeCommitAndTakeBacklog {sourceActor : ActorRef} {targetSpotId : String}
    (ht : s.Tracked) :
    s.Confines (s.completeCommitAndTakeBacklog transferId sourceActor targetSpotId).1
      [transferId] := by
  obtain heq | ⟨admission, hadmission, heq⟩ :=
    s.completeCommitAndTakeBacklog_cases transferId sourceActor targetSpotId
  · rw [heq]
    exact confines_refl _
  · rw [heq]
    exact confines_close ht hadmission

theorem confines_failCommit {reconcile : Bool} (ht : s.Tracked) :
    s.Confines (s.failCommit transferId reconcile).1 [transferId] := by
  obtain ⟨-, heq⟩ | ⟨admission, hadmission, ⟨move, -, heq⟩ | heq⟩ :=
    s.failCommit_cases transferId reconcile
  · rw [heq]
    exact confines_refl _
  · rw [heq]
    exact confines_of_other ht hadmission (fun _ h => OrderedMap.find_erase_of_ne _ h)
      fun _ h => ⟨find_setMove_of_ne h, rfl⟩
  · rw [heq]
    exact confines_close ht hadmission

theorem confines_completeCommit (ht : s.Tracked) :
    s.Confines (s.completeCommit transferId) [transferId] := by
  rw [completeCommit]
  cases hadmission : s.admissions.find transferId with
  | none => exact confines_refl _
  | some admission =>
    exact confines_of_other ht hadmission (fun _ h => OrderedMap.find_erase_of_ne _ h)
      fun _ h => ⟨OrderedMap.find_erase_of_ne _ h, rfl⟩

theorem confines_cleanupExpired {now : ℤ} {candidates : List String} (ht : s.Tracked) :
    s.Confines (s.cleanupExpired now candidates).1
      ((s.cleanupExpired now candidates).2.1.map ExpiredAdmission.transferId) := by
  have h := s.cleanupExpired_expiry now candidates
  constructor
  · intro transferId hmem
    exact h.kept transferId fun e he heq => hmem (heq ▸ List.mem_map_of_mem he)
  · intro key hkey
    refine h.other key ?_
    rintro e he rfl
    have hadmission := OrderedMap.find_eq_some_iff.mpr (h.reported e he)
    exact hkey e.transferId (List.mem_map_of_mem he) (ht e.transferId e.admission hadmission)

theorem confines_next {transferIds : List String} (ht : s.Tracked)
    (h : s.transfers operation = some transferIds) : s.Confines (s.next operation) transferIds := by
  cases operation with
  | beginCommit => exact Option.some.inj h ▸ confines_beginCommit ht
  | completeCommitAndTakeBacklog =>
    exact Option.some.inj h ▸ confines_completeCommitAndTakeBacklog ht
  | failCommit => exact Option.some.inj h ▸ confines_failCommit ht
  | completeCommit => exact Option.some.inj h ▸ confines_completeCommit ht
  | cleanupExpired => exact Option.some.inj h ▸ confines_cleanupExpired ht
  | _ => cases h

/-- A run keeps every pending admission tracked exactly when all its operations respect the
moves in the target phases. No Actor has two pending admissions then, and a transfer that
commits, fails or expires takes only its own move and backlog with it. -/
theorem run_tracked (operations : List Operation) :
    ((∀ done, done <+: operations → (after done).Tracked) ↔
      ∀ done operation, done ++ [operation] <+: operations → (after done).Respects operation) ∧
    ((∀ done operation, done ++ [operation] <+: operations → (after done).Respects operation) →
      (∀ done, done <+: operations → ∀ transferId transferId' admission admission',
        (after done).admissions.find transferId = some admission →
        (after done).admissions.find transferId' = some admission' →
          admission.actorKey = admission'.actorKey → transferId = transferId') ∧
      ∀ done operation transferIds, done ++ [operation] <+: operations →
        (after done).transfers operation = some transferIds →
          (after done).Confines (after (done ++ [operation])) transferIds) := by
  have htracked : (∀ done, done <+: operations → (after done).Tracked) ↔
      ∀ done operation, done ++ [operation] <+: operations → (after done).Respects operation :=
    Trace.forall_prefix_iff next (fun s => s.custody.Owned) (fun _ => owned_next)
      (fun _ => tracked_next_iff) owned_initial (by intro _ _ h; cases h) operations
  refine ⟨htracked, fun hrespects => ⟨?_, ?_⟩⟩
  · intro done hdone transferId transferId' admission admission' h h' hkey
    exact eq_of_tracked (htracked.mpr hrespects done hdone) h h' hkey
  · intro done operation transferIds hdone htransfers
    have ht := htracked.mpr hrespects done ((List.prefix_append done _).trans hdone)
    rw [after_append_singleton]
    exact confines_next ht htransfers

def joinAdmission (deadline : ℤ) : Admission :=
  { actorKey := "player:a", sourceActor := ⟨"a", "player", 1, "n1"⟩, targetSpotId := "spot-b",
    deadline }

/-- A move is cancelled by the key of its Actor, so its admission outlives it. A second transfer
of the Actor is admitted, and its move ends with the first one. -/
theorem run_ends_other_transfer :
    let doubled := after [.tryAddAdmission "t1" (joinAdmission 5), .cancelMove "player:a" "",
      .tryAddAdmission "t2" (joinAdmission 9)]
    let failed := doubled.next (.failCommit "t1" false)
    ¬ doubled.Tracked ∧ doubled.Belongs "t2" "player:a" ∧
      failed.moves.find "player:a" = none ∧ failed.admissions.find "t2" = some (joinAdmission 9) ∧
      (doubled.next (.completeCommit "t1")).moves.find "player:a" = none ∧
      (doubled.next (.beginCommit "t1" ⟨"a", "player", 1, "n1"⟩ "spot-b" 6)).moves.find
        "player:a" = none := by
  intro doubled failed
  have hfirst : doubled.admissions.find "t1" = some (joinAdmission 5) := by decide
  have hmove : doubled.moves.find "player:a" =
      some { phase := .targetPending, transferId := "t2" } := by decide
  refine ⟨fun h => ?_, ⟨_, hmove, rfl, rfl⟩, by decide, by decide, by decide, by decide⟩
  obtain ⟨move, hfind, hid, -⟩ := h "t1" _ hfirst
  obtain rfl := Option.some.inj (hmove.symm.trans hfind)
  exact absurd hid (by decide)

end Coordinator

end Zlink.Spots
