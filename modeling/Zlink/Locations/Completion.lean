import Zlink.Locations.Creation

/-!
# Completing a creation or committing it

`complete_creation` of a created object and `commit` are two ways to make the row of a reservation
ready. They ask for the same of the fence and its target. `complete_creation` asks besides for a
terminal that can be recorded, `commit` for a payload of at most 1 MiB, for a user Spot that lets
the actor in and for a deadline that has not passed.

`commit` takes the pending creation out of the row, `complete_creation` leaves it there. So wherever
one of them succeeds they differ, and they agree exactly where both refuse.
-/

namespace Zlink.Locations

open Codec (bind_eq_ok pure_eq_ok)
open Decimal
open ServiceWire (ascii)
open scoped Decimal

def AuthoritySnapshot.placed (row : AuthoritySnapshot) : AuthoritySnapshot :=
  { row with storeVersion := [], storeNow := 0 }

def Completes (outcome : Outcome ObjectCompleteCreationResult) : Prop :=
  ∃ terminal ready, outcome = .ok (.completed terminal ready)

def Commits (outcome : Outcome ObjectCommitResult) : Prop :=
  ∃ ready, outcome = .ok (.committed ready)

instance : DecidablePred Completes
  | .ok (.completed terminal ready) => .isTrue ⟨terminal, ready, rfl⟩
  | .ok (.alreadyCompleted _) => .isFalse (by rintro ⟨_, _, h⟩; cases h)
  | .ok .stale => .isFalse (by rintro ⟨_, _, h⟩; cases h)
  | .ok (.conflict _) => .isFalse (by rintro ⟨_, _, h⟩; cases h)
  | .ok .generationExhausted => .isFalse (by rintro ⟨_, _, h⟩; cases h)
  | .error _ => .isFalse (by rintro ⟨_, _, h⟩; cases h)

/-- A terminal that `complete_creation` does not refuse. -/
def CreationTerminalPublication.Publishable (publication : CreationTerminalPublication)
    (now : ℤ) : Prop :=
  publication.terminalEnvelope.length ≤ locationRecordPayloadLimit ∧ now < publication.expiresAt

namespace LocationRepository

variable {codecs : AuthorityCodecs} {s t u : LocationRepository} {key : Text}
  {row : AuthoritySnapshot} {r : ReservationState} {now deadline : ℤ}
  {object : ObjectCreationKey} {fence : ObjectReservationFence} {payload : List UInt8}
  {publication : CreationTerminalPublication}

structure SamePlacement (t u : LocationRepository) : Prop where
  rows : ∀ key, (t.authorities.find key).map AuthoritySnapshot.placed =
    (u.authorities.find key).map AuthoritySnapshot.placed
  statuses : ∀ key, (t.reservations.find key).map ReservationState.status =
    (u.reservations.find key).map ReservationState.status
  pending : t.pendingByPlacement = u.pendingByPlacement
  active : t.activeByPlacement = u.activeByPlacement

/-- `complete_creation` of a created object succeeds exactly when `commit` does, and leaves the
same behind. -/
def AgreesWithCommit (codecs : AuthorityCodecs) (s : LocationRepository) (now deadline : ℤ)
    (object : ObjectCreationKey) (fence : ObjectReservationFence) (payload : List UInt8)
    (publication : CreationTerminalPublication) : Prop :=
  let completed := s.completeCreation now ⟨object, fence, .created payload publication⟩
  let committed := s.commit codecs now deadline ⟨object, fence, payload⟩
  (Completes completed.2 ↔ Commits committed.2) ∧
    (Completes completed.2 → SamePlacement completed.1 committed.1)

structure Completable (s : LocationRepository) (now : ℤ) (object : ObjectCreationKey)
    (fence : ObjectReservationFence) (key : Text) (r : ReservationState)
    (row : AuthoritySnapshot) : Prop extends Reserves s object fence key r row where
  live : (s.directory.liveTargetDescriptor fence.target r.request.key.kind
    r.request.intent.stableType now false).isSome
  slots : capacityBundlePresent s.pendingByPlacement fence.target fence.capacityBundle = true
  revision : issues s.storeRevision 1 = true

/-- What only `commit` asks for. -/
structure Admits (codecs : AuthorityCodecs) (s : LocationRepository) (now deadline : ℤ)
    (payload : List UInt8) (row : AuthoritySnapshot) : Prop where
  size : payload.length ≤ locationRecordPayloadLimit
  member : row.allocation.objectKind = .actor →
    s.userMembershipCommitFailure codecs none (codecs.actor payload) now = .ok none
  inTime : ¬ (deadline ≠ 0 ∧ deadline ≤ now)

theorem Reserves.unique (h : Reserves s object fence key r row) {key' : Text}
    {r' : ReservationState} {row' : AuthoritySnapshot}
    (h' : Reserves s object fence key' r' row') : key' = key ∧ r' = r ∧ row' = row := by
  obtain rfl : key' = key := Except.ok.inj (h'.key_eq.symm.trans h.key_eq)
  exact ⟨rfl, Option.some.inj (h'.reservation.symm.trans h.reservation),
    Option.some.inj (h'.row_eq.symm.trans h.row_eq)⟩

theorem conclude_snd_eq_ok {R D : Type} {checks : Except (Exit R) D}
    {write : D → LocationRepository × R} {answer : R} : (s.conclude checks write).2 = .ok answer ↔
      (∃ d, checks = .ok d ∧ (write d).2 = answer) ∨ checks = .error (.answer answer) := by
  unfold conclude
  cases checks with
  | ok d => simp
  | error e => cases e <;> simp [Exit.outcome]

theorem completionChecks_ne_completed {request : ObjectCompleteCreationRequest}
    {terminal : CreationTerminalRecord} {ready : Option AuthoritySnapshot} :
    s.completionChecks now request ≠ .error (.answer (.completed terminal ready)) := by
  have hterminal : s.terminalChecks now request.completion.terminal.operation ≠
      .error (.answer (.completed terminal ready)) := by
    unfold terminalChecks
    split <;> simp [exitIf_eq_error]
  simp [completionChecks, bind_eq_error, exitIf_eq_error, exitOnNone_eq_error,
    exitOnInvalid_ne_answer, hterminal, pure, Except.pure]

theorem createdChecks_ne_completed {terminal : CreationTerminalRecord}
    {ready : Option AuthoritySnapshot} :
    s.createdChecks now fence r row ≠ .error (.answer (.completed terminal ready)) := by
  simp [createdChecks, bind_eq_error, exitIf_eq_error]

theorem commitChecks_ne_committed {request : ObjectCommitRequest} {ready : AuthoritySnapshot} :
    s.commitChecks codecs now deadline request ≠ .error (.answer (.committed ready)) := by
  have hmember (row : AuthoritySnapshot) : s.memberChecks codecs now request.readyPayload row ≠
        .error (.answer (.committed ready)) := by
    unfold memberChecks
    split <;> simp [bind_eq_error, exitIf_eq_error, exitOnInvalid_ne_answer]
  simp [commitChecks, bind_eq_error, exitIf_eq_error, exitOnNone_eq_error,
    exitOnInvalid_ne_answer, hmember, pure, Except.pure]

theorem commit_eq (h : Completable s now object fence key r row) (hstatus : r.status = .prepared)
    (hadmits : Admits codecs s now deadline payload row) :
    s.commit codecs now deadline ⟨object, fence, payload⟩ =
      (s.activate key fence r { readyRow now payload row with pendingCreation := none },
        .ok (.committed (s.stored { readyRow now payload row with pendingCreation := none }))) := by
  have hchecks : s.commitChecks codecs now deadline ⟨object, fence, payload⟩ =
      .ok (key, r, row) :=
    commitChecks_eq_ok.mpr ⟨hadmits.size, h.key_eq, ⟨h.reservation, h.fence_eq⟩,
      by simp [hstatus], ⟨h.row_eq, h.version⟩, ⟨h.live, h.slots⟩, h.revision, hadmits.member,
      hadmits.inTime⟩
  simp only [commit, hchecks, conclude]

theorem commits_iff : Commits (s.commit codecs now deadline ⟨object, fence, payload⟩).2 ↔
    ∃ key r row, Completable s now object fence key r row ∧ r.status = .prepared ∧
      Admits codecs s now deadline payload row := by
  constructor
  · rintro ⟨ready, hcommitted⟩
    rcases conclude_snd_eq_ok.mp hcommitted with ⟨⟨key, r, row⟩, hchecks, -⟩ | herror
    · obtain ⟨hsize, hkey, ⟨hr, hfence⟩, ⟨hcommitted, haborted⟩, ⟨hrow, hversion⟩,
        ⟨hlive, hslots⟩, hrevision, hmember, hinTime⟩ := commitChecks_eq_ok.mp hchecks
      have hstatus : r.status = .prepared := by
        cases hr : r.status with
        | prepared => rfl
        | committed => exact absurd hr hcommitted
        | aborted => exact absurd hr haborted
      exact ⟨key, r, row, ⟨⟨hkey, hr, hfence, hrow, hversion⟩, hlive, hslots, hrevision⟩, hstatus,
        hsize, hmember, hinTime⟩
    · exact absurd herror commitChecks_ne_committed
  · rintro ⟨key, r, row, h, hstatus, hadmits⟩
    rw [commit_eq h hstatus hadmits]
    exact ⟨_, rfl⟩

section Terminal

variable (hterminal : ∀ existing,
  s.creationTerminals.find (creationOperationKey publication.operation) = some existing →
    existing.expiresAt ≤ now)
include hterminal

theorem completeCreation_eq (hpublication : publication.Publishable now)
    (h : Completable s now object fence key r row) :
    s.completeCreation now ⟨object, fence, .created payload publication⟩ =
      ((s.activate key fence r (readyRow now payload row)).publish publication,
        .ok (.completed publication.record (some (s.stored (readyRow now payload row))))) := by
  have hcompletion : s.completionChecks now ⟨object, fence, .created payload publication⟩ =
      .ok (key, r, row) :=
    completionChecks_eq_ok.mpr ⟨hpublication, hterminal, h.key_eq, ⟨h.reservation, h.fence_eq⟩,
      h.row_eq, h.version⟩
  have hcreated : s.createdChecks now fence r row = .ok () :=
    createdChecks_eq_ok.mpr ⟨⟨h.live, h.slots⟩, h.revision⟩
  have hchecks : (do
      let found ← s.completionChecks now ⟨object, fence, .created payload publication⟩
      s.createdChecks now fence found.2.1 found.2.2
      return found) = .ok (key, r, row) := by
    simp [hcompletion, hcreated]
  simp only [completeCreation, hchecks, conclude]

theorem completes_iff :
    Completes (s.completeCreation now ⟨object, fence, .created payload publication⟩).2 ↔
      publication.Publishable now ∧ ∃ key r row, Completable s now object fence key r row := by
  constructor
  · rintro ⟨terminal, ready, hcompleted⟩
    rcases conclude_snd_eq_ok.mp hcompleted with ⟨⟨key, r, row⟩, hchecks, -⟩ | herror
    · simp only [bind_eq_ok, pure_eq_ok] at hchecks
      obtain ⟨found, hcompletion, _, hcreated, rfl⟩ := hchecks
      obtain ⟨⟨hlive, hslots⟩, hrevision⟩ := createdChecks_eq_ok.mp hcreated
      exact ⟨(completionChecks_eq_ok.mp hcompletion).1, key, r, row,
        reserves_of_completionChecks hcompletion, hlive, hslots, hrevision⟩
    · simp [bind_eq_error, completionChecks_ne_completed, createdChecks_ne_completed, pure,
        Except.pure] at herror
  · rintro ⟨hpublication, key, r, row, h⟩
    rw [completeCreation_eq hterminal hpublication h]
    exact ⟨_, _, rfl⟩

/-- Where both succeed, the row that `complete_creation` leaves still has its pending creation. -/
theorem not_samePlacement (hpublication : publication.Publishable now)
    (h : Completable s now object fence key r row) (hstatus : r.status = .prepared)
    (hpending : row.pendingCreation.isSome) (hadmits : Admits codecs s now deadline payload row) :
    ¬ SamePlacement (s.completeCreation now ⟨object, fence, .created payload publication⟩).1
      (s.commit codecs now deadline ⟨object, fence, payload⟩).1 := by
  intro hsame
  have hrows := hsame.rows key
  rw [completeCreation_eq hterminal hpublication h, commit_eq h hstatus hadmits] at hrows
  have hcompleted : ((s.activate key fence r (readyRow now payload row)).publish
      publication).authorities.find key = some (s.stored (readyRow now payload row)) :=
    find_store_self key _
  have hcommitted : (s.activate key fence r { readyRow now payload row with
      pendingCreation := none }).authorities.find key =
        some (s.stored { readyRow now payload row with pendingCreation := none }) :=
    find_store_self key _
  rw [hcompleted, hcommitted] at hrows
  have hnone : row.pendingCreation = none :=
    congrArg AuthoritySnapshot.pendingCreation (Option.some.inj hrows)
  rw [hnone] at hpending
  cases hpending

end Terminal

/-- Behind every run, as long as no terminal is recorded for the operation, `complete_creation`
agrees with `commit` exactly where neither of them has what it asks for. -/
theorem run_completeCreation_agrees (codecs : AuthorityCodecs) (revision : ℕ)
    (calls : List RepositoryCall) (now deadline : ℤ) (object : ObjectCreationKey)
    (fence : ObjectReservationFence) (payload : List UInt8)
    (publication : CreationTerminalPublication)
    (hterminal : ∀ existing, (run codecs (new revision) calls).creationTerminals.find
      (creationOperationKey publication.operation) = some existing → existing.expiresAt ≤ now) :
    AgreesWithCommit codecs (run codecs (new revision) calls) now deadline object fence payload
        publication ↔
      ∀ key r row, Completable (run codecs (new revision) calls) now object fence key r row →
        ¬ publication.Publishable now ∧
          ¬ Admits codecs (run codecs (new revision) calls) now deadline payload row := by
  have hsound : (run codecs (new revision) calls).Sound := sound_run (sound_new revision) calls
  generalize run codecs (new revision) calls = s at *
  constructor
  · rintro ⟨hiff, hsame⟩ key r row h
    obtain ⟨hstatus, hpending⟩ :=
      hsound.prepared key r row h.reservation h.row_eq (h.fence_eq ▸ h.version)
    have hboth (hpublication : publication.Publishable now)
        (hadmits : Admits codecs s now deadline payload row) : False :=
      not_samePlacement hterminal hpublication h hstatus hpending hadmits
        (hsame ((completes_iff hterminal).mpr ⟨hpublication, key, r, row, h⟩))
    constructor
    · intro hpublication
      obtain ⟨key', r', row', h', -, hadmits⟩ := commits_iff.mp
        (hiff.mp ((completes_iff hterminal).mpr ⟨hpublication, key, r, row, h⟩))
      obtain ⟨-, -, rfl⟩ := h.unique h'.toReserves
      exact hboth hpublication hadmits
    · intro hadmits
      have hcompletes := hiff.mpr (commits_iff.mpr ⟨key, r, row, h, hstatus, hadmits⟩)
      exact hboth ((completes_iff hterminal).mp hcompletes).1 hadmits
  · intro hrefused
    have hcompletes :
        ¬ Completes (s.completeCreation now ⟨object, fence, .created payload publication⟩).2 := by
      intro hcompletes
      obtain ⟨hpublication, key, r, row, h⟩ := (completes_iff hterminal).mp hcompletes
      exact (hrefused key r row h).1 hpublication
    have hcommits : ¬ Commits (s.commit codecs now deadline ⟨object, fence, payload⟩).2 := by
      intro hcommits
      obtain ⟨key, r, row, h, -, hadmits⟩ := commits_iff.mp hcommits
      exact (hrefused key r row h).2 hadmits
    exact ⟨iff_of_false hcompletes hcommits, fun h => absurd h hcompletes⟩

def roomOwner : OwnerToken := ⟨"node-1", 1⟩

def roomDirectory : Directory where
  meshNodes key :=
    if key = meshNodeKey (ascii "game") (ascii "n1") then
      some ⟨1, roomOwner, .serving, .server, 1, [⟨.userSpot, ascii "room"⟩], 0, 0, []⟩
    else none
  leases owner := if owner = "node-1" then some 5000 else none
  activeLeaseGenerations owner := if owner = "node-1" then some 1 else none
  entrySpotIdClaims _ := none

def roomRequest : ObjectReserveRequest where
  key := ⟨.userSpot, ascii "lobby"⟩
  intent := ⟨ascii "room", ascii "ref", List.replicate 32 7, 3⟩
  target := ⟨ascii "game", ascii "n1", 1, roomOwner⟩
  creatingPayload := [1]
  capacityBundle := ⟨0, 1, some ⟨.userSpot, ascii "room", 1⟩⟩
  operationDeadline := 0
  relocationPolicy := none

def roomCalls : List RepositoryCall :=
  [.directory roomDirectory, .reserve 1000 (fun _ => false) roomRequest]

def roomFence : ObjectReservationFence := (new 0).nextFence roomRequest

def roomTerminal : CreationTerminalPublication := ⟨⟨ascii "n1", 1, 0, 9⟩, [4], 2000⟩

def noCodecs : AuthorityCodecs :=
  ⟨fun _ => none, fun _ => none, fun _ => none, fun _ => true⟩

set_option maxRecDepth 4000 in
/-- The reserved room can be completed and committed; completed, it still has its pending
creation. -/
theorem reserved_room_disagrees : ¬ AgreesWithCommit noCodecs (run noCodecs (new 0) roomCalls) 1500 0
    roomRequest.key roomFence [2] roomTerminal := by
  intro h
  have hsame := (h.2 (by decide)).rows (ascii "zla1:s:5:lobby")
  exact absurd hsame (by decide)

theorem roomTerminal_unrecorded : (run noCodecs (new 0) roomCalls).creationTerminals.find
    (creationOperationKey roomTerminal.operation) = none := by
  decide

set_option maxRecDepth 4000 in
/-- The fence stands, but the terminal has expired and the deadline has passed: both refuse. -/
theorem run_completeCreation_agrees_late :
    (∃ key r row, Completable (run noCodecs (new 0) roomCalls) 1500 roomRequest.key roomFence key
      r row) ∧
      AgreesWithCommit noCodecs (run noCodecs (new 0) roomCalls) 1500 1500 roomRequest.key
        roomFence [2] { roomTerminal with operationDeadline := -creationTerminalRetention } := by
  constructor
  · exact ((@completes_iff (run noCodecs (new 0) roomCalls) 1500 roomRequest.key roomFence [2]
      roomTerminal (by simp [roomTerminal_unrecorded])).mp (by decide)).2
  · refine (run_completeCreation_agrees noCodecs 0 roomCalls 1500 1500 roomRequest.key roomFence
      [2] { roomTerminal with operationDeadline := -creationTerminalRetention } ?_).mpr
        fun key r row _ => ⟨?_, ?_⟩
    · exact fun existing hexisting => absurd (roomTerminal_unrecorded.symm.trans hexisting) (by simp)
    · exact fun hpublication => absurd hpublication.2 (by decide)
    · exact fun hadmits => hadmits.inTime ⟨by decide, by decide⟩

end LocationRepository

end Zlink.Locations
