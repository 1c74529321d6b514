import Zlink.Lib.Custody
import Zlink.Lib.Ordered

/-!
# The coordinator of Actor transfers

An Actor that moves has one move, and the packets that reach it meanwhile wait in its backlog.
A transfer that comes in from another node is an admission, which names its Actor and is
tracked by the move of this Actor. `actor_transfer_coordinator_t` changes the three in turns of
one lane. Every function here is one such turn; the time that it reads is an argument.

The routes of message follow only decide whether a dispatched packet goes to a source that has
been committed, which is an argument as well. Tasks that wait for the end of a move, the
management wake-ups and the queries change nothing and are left out.
-/

namespace Zlink.Spots

/-- `actor_move_phase_t`. A move within the node is in the phase `local`. -/
inductive MovePhase where
  | sourceReserved
  | localMove
  | sourceRemote
  | targetPending
  | targetCommitting
  | reconcile
  deriving DecidableEq

/-- `move_state_t`. The context of the target is a handle. -/
structure Move where
  phase : MovePhase
  transferId : String
  transferStartedAt : Option ℤ := none
  nextReconcileAt : Option ℤ := none
  reconcileContext : Option ℕ := none
  deriving DecidableEq

structure ActorRef where
  actorId : String
  actorType : String
  objectGeneration : ℕ
  nodeRid : String
  deriving DecidableEq

/-- `pending_actor_admission_t`, as far as the coordinator reads or writes it. -/
structure Admission where
  actorKey : String
  sourceActor : ActorRef
  targetSpotId : String
  deadline : ℤ
  sessionRelocationRoute : List (Fin 256) := []
  sessionRelocationActorType : String := ""
  sessionRelocationTargetOwnerLeaseGeneration : ℕ := 0
  sessionRelocationCommittedPreviousAuthorityOwnerGeneration : ℕ := 0
  sessionRelocationCommittedTargetAuthorityOwnerGeneration : ℕ := 0
  deriving DecidableEq

/-- `handoff_packet_t`. The application record is a handle. -/
structure Packet where
  packetName : String
  payload : List (Fin 256)
  contentType : String
  metadata : OrderedMap String String
  isRequest : Bool
  applicationRecord : Option ℕ
  deriving DecidableEq

inductive ErrorKind where
  | unavailable
  | rejected

structure Failure where
  kind : ErrorKind
  message : String

inductive AppendResult where
  | appended
  | notMoving
  | duplicateRequest
  deriving DecidableEq

/-- `actor_transfer_packet_admission_t` without what the routes of message follow tell. -/
structure PacketAdmission where
  queueSubmission : Option Bool
  appendResult : AppendResult
  releasedPacket : Option Packet

/-- `actor_move_completion_t`. -/
structure MoveCompletion where
  elapsed : Option ℤ
  backlog : List Packet
  completed : Bool

/-- The receiver that `finish_move_replay` hands the prefix to. -/
inductive PrefixReceiver where
  | absent
  | returns
  | throws

/-- `expired_actor_admission_t`. -/
structure ExpiredAdmission where
  transferId : String
  admission : Admission
  discardedBacklog : List Packet

def actorRequestIdKey : String :=
  "__zlink.actorRequestId"

def managementRetryInterval : ℤ :=
  100

def MovePhase.isTarget (phase : MovePhase) : Bool :=
  phase = .targetPending || phase = .targetCommitting

def Move.reconcileDue (now : ℤ) (move : Move) : Bool :=
  move.phase = .reconcile && move.nextReconcileAt.any (· ≤ now)

def Packet.requestId (packet : Packet) : Option String :=
  if packet.isRequest then (packet.metadata.find actorRequestIdKey).filter (· ≠ "") else none

/-- `actor_transfer_coordinator_t`. -/
structure Coordinator where
  sourceClaimsSealed : Bool
  moves : OrderedMap String Move
  admissions : OrderedMap String Admission
  completedAdmissions : OrderedMap String Admission
  backlogs : OrderedMap String (List Packet)

namespace Coordinator

def initial : Coordinator :=
  ⟨false, .empty, .empty, .empty, .empty⟩

variable (s : Coordinator)

def backlog (actorKey : String) : List Packet :=
  (s.backlogs.find actorKey).getD []

def setMove (actorKey : String) (move : Move) : Coordinator :=
  { s with moves := s.moves.insertOrAssign actorKey move }

def eraseMove (actorKey : String) : Coordinator :=
  { s with moves := s.moves.erase actorKey }

def setBacklog (actorKey : String) (packets : List Packet) : Coordinator :=
  { s with backlogs := s.backlogs.insertOrAssign actorKey packets }

def eraseBacklog (actorKey : String) : Coordinator :=
  { s with backlogs := s.backlogs.erase actorKey }

variable (transferId : String)

def setAdmission (admission : Admission) : Coordinator :=
  { s with admissions := s.admissions.insertOrAssign transferId admission }

def eraseAdmission : Coordinator :=
  { s with admissions := s.admissions.erase transferId }

/-- The first turn of `try_seal_maintenance_inventory`. -/
def trySealMaintenanceInventory : Coordinator × Bool :=
  if s.sourceClaimsSealed then (s, false) else ({ s with sourceClaimsSealed := true }, true)

def endMaintenanceInventory : Coordinator :=
  { s with sourceClaimsSealed := false }

def tryClaimSource (actorKey : String) (move : Move) : Except Failure Coordinator :=
  if s.sourceClaimsSealed then
    .error ⟨.unavailable, "Actor maintenance inventory is sealed"⟩
  else if (s.moves.find actorKey).isSome then
    .error ⟨.rejected, "Actor join is already reserved or moving"⟩
  else .ok (s.setMove actorKey move)

def tryReserveSource (actorKey transferId : String) : Except Failure Coordinator :=
  s.tryClaimSource actorKey { phase := .sourceReserved, transferId }

def tryBeginLocal (actorKey : String) : Except Failure Coordinator :=
  match s.moves.find actorKey with
  | some move =>
    if move.phase ≠ .sourceReserved then
      .error ⟨.rejected, "Actor move is already in progress"⟩
    else .ok (s.setMove actorKey { move with phase := .localMove })
  | none => s.tryClaimSource actorKey { phase := .localMove, transferId := "" }

def tryBeginSourceRemote (actorKey transferId : String) (now : ℤ) : Except Failure Coordinator :=
  match s.moves.find actorKey with
  | some move =>
    if move.phase ≠ .sourceReserved then
      .error ⟨.rejected, "Actor move is already in progress"⟩
    else
      .ok (s.setMove actorKey
        { move with phase := .sourceRemote, transferId, transferStartedAt := some now })
  | none =>
    s.tryClaimSource actorKey
      { phase := .sourceRemote, transferId, transferStartedAt := some now }

def matchesSourceReservation (actorKey transferId : String) : Bool :=
  (s.moves.find actorKey).any fun move =>
    move.phase = .sourceReserved && move.transferId = transferId

def cancelMove (actorKey expectedSourceTransfer : String) : Coordinator × List Packet :=
  if expectedSourceTransfer ≠ "" ∧
      !s.matchesSourceReservation actorKey expectedSourceTransfer then (s, [])
  else ((s.eraseMove actorKey).eraseBacklog actorKey, s.backlog actorKey)

def markReconcile (actorKey : String) (bound : ℤ) (context : Option ℕ) (now : ℤ) : Coordinator :=
  let deadline := now + bound
  match s.moves.find actorKey with
  | none =>
    s.setMove actorKey
      { phase := .reconcile, transferId := "", nextReconcileAt := some deadline,
        reconcileContext := context }
  | some move =>
    s.setMove actorKey
      { move with
        phase := .reconcile
        nextReconcileAt := some deadline
        reconcileContext := context }

def takeDueReconciles (now : ℤ) : Coordinator × List (String × Option ℕ) :=
  ({ s with
      moves := s.moves.mapValues fun move =>
        if move.reconcileDue now then
          { move with nextReconcileAt := some (now + managementRetryInterval) }
        else move },
    (s.moves.entries.filter fun e => e.2.reconcileDue now).map fun e =>
      (e.1, e.2.reconcileContext))

def completeMove (actorKey : String) (now : ℤ) : Coordinator × Option ℤ :=
  match s.moves.find actorKey with
  | none => (s, none)
  | some move => (s.eraseMove actorKey, move.transferStartedAt.map (now - ·))

/-- The coordinator behind `finish_move_replay`, the prefix that its receiver was given, and
the result unless the receiver threw. -/
def finishMoveReplay (actorKey : String) (acceptPrefix : PrefixReceiver)
    (expectedSourceTransfer : String) (now : ℤ) :
    Coordinator × List Packet × Option MoveCompletion :=
  if expectedSourceTransfer ≠ "" ∧
      !s.matchesSourceReservation actorKey expectedSourceTransfer then
    (s, [], some ⟨none, [], true⟩)
  else
    match s.moves.find actorKey with
    | none => (s, [], some ⟨none, [], true⟩)
    | some move =>
      let backlog := s.backlog actorKey
      let drained := s.eraseBacklog actorKey
      let completion : MoveCompletion := ⟨move.transferStartedAt.map (now - ·), [], true⟩
      match acceptPrefix with
      | .throws => (drained, backlog, none)
      | .returns => (drained.eraseMove actorKey, backlog, some completion)
      | .absent =>
        if backlog ≠ [] then (drained, [], some ⟨none, backlog, false⟩)
        else (drained.eraseMove actorKey, [], some completion)

def blocksDispatch (actorKey : String) : Bool :=
  (s.moves.find actorKey).any fun move => move.phase ≠ .sourceReserved

/-- `try_append_backlog_unlocked`. -/
def tryAppendBacklog (actorKey : String) (packet : Packet) : Coordinator × AppendResult :=
  if !s.blocksDispatch actorKey then (s, .notMoving)
  else if packet.requestId.any fun id =>
      (s.backlog actorKey).any fun queued => queued.requestId = some id then
    (s, .duplicateRequest)
  else (s.setBacklog actorKey (s.backlog actorKey ++ [packet]), .appended)

/-- `submit` is the answer of the queue where one has been prepared. -/
def admitDispatchPacket (actorKey : String) (targetsCommittedSource : Bool)
    (submit : Option Bool) (packet : Packet) : Coordinator × PacketAdmission :=
  let (next, appendResult) :=
    if targetsCommittedSource then (s, .notMoving) else s.tryAppendBacklog actorKey packet
  let submitted :=
    if appendResult = .notMoving ∧ !targetsCommittedSource then submit else none
  (next,
    { queueSubmission := submitted
      appendResult
      releasedPacket :=
        if appendResult = .appended ∨ submitted.isSome then none else some packet })

def prependSourceSuffix (actorKey : String) (suffix : List Packet) : Coordinator :=
  if suffix = [] then s else s.setBacklog actorKey (suffix ++ s.backlog actorKey)

def duplicatesRequest (queued : List Packet) : List Packet → Bool
  | [] => false
  | packet :: packets =>
    (packet.requestId.any fun id => queued.any fun other => other.requestId = some id) ||
      duplicatesRequest (queued ++ [packet]) packets

def stageCommitBacklog (batch : List Packet) : Coordinator × Bool :=
  match s.admissions.find transferId with
  | none => (s, false)
  | some admission =>
    let actorKey := admission.actorKey
    match s.moves.find actorKey with
    | none => (s, false)
    | some move =>
      if move.transferId ≠ transferId ∨ move.phase ≠ .targetCommitting then (s, false)
      else if duplicatesRequest (s.backlog actorKey) batch then (s, false)
      else (s.setBacklog actorKey (s.backlog actorKey ++ batch), true)

def takeBacklog (actorKey : String) : Coordinator × List Packet :=
  (s.eraseBacklog actorKey, s.backlog actorKey)

def admitAttempt (actorKey transferId : String) : Coordinator × Bool × List Packet :=
  match s.moves.find actorKey with
  | none => (s, true, [])
  | some move =>
    if !move.phase.isTarget ∨ move.transferId = transferId then (s, false, [])
    else
      (((s.eraseAdmission move.transferId).eraseBacklog actorKey).eraseMove actorKey, true,
        s.backlog actorKey)

def tryAddAdmission (admission : Admission) : Coordinator × Bool :=
  if (s.admissions.find transferId).isSome ∨ (s.completedAdmissions.find transferId).isSome then
    (s, false)
  else if (s.moves.find admission.actorKey).isSome then (s, false)
  else
    ((s.setMove admission.actorKey { phase := .targetPending, transferId }).setAdmission
      transferId admission, true)

/-- `begin_commit_on_lane`. An admission that has expired goes with the move and the backlog
of its Actor. -/
def beginCommit (sourceActor : ActorRef) (targetSpotId : String)
    (now : ℤ) : Coordinator × Option Admission × List Packet :=
  match s.admissions.find transferId with
  | none => (s, none, [])
  | some admission =>
    let actorKey := admission.actorKey
    if admission.deadline ≤ now then
      (((s.eraseBacklog actorKey).eraseMove actorKey).eraseAdmission transferId, none,
        s.backlog actorKey)
    else if admission.sourceActor ≠ sourceActor ∨ admission.targetSpotId ≠ targetSpotId then
      (s, none, [])
    else
      match s.moves.find actorKey with
      | none => (s, none, [])
      | some move =>
        if move.transferId ≠ transferId ∨ move.phase ≠ .targetPending then (s, none, [])
        else
          (s.setMove actorKey { move with phase := .targetCommitting }, some admission, [])

def completeCommitAndTakeBacklog (sourceActor : ActorRef)
    (targetSpotId : String) : Coordinator × Option (List Packet) :=
  match s.admissions.find transferId with
  | none => (s, none)
  | some admission =>
    let actorKey := admission.actorKey
    match s.moves.find actorKey with
    | none => (s, none)
    | some move =>
      if move.transferId ≠ transferId ∨ move.phase ≠ .targetCommitting ∨
          admission.sourceActor ≠ sourceActor ∨ admission.targetSpotId ≠ targetSpotId then
        (s, none)
      else
        ({ ((s.eraseBacklog actorKey).eraseMove actorKey).eraseAdmission transferId with
            completedAdmissions :=
              s.completedAdmissions.insertOrAssign transferId admission },
          some (s.backlog actorKey))

def updateAdmission (change : Admission → Bool × Admission) :
    Coordinator × Bool :=
  match s.admissions.find transferId with
  | some admission =>
    (s.setAdmission transferId (change admission).2, (change admission).1)
  | none =>
    match s.completedAdmissions.find transferId with
    | some admission =>
      ({ s with
          completedAdmissions :=
            s.completedAdmissions.insertOrAssign transferId (change admission).2 },
        (change admission).1)
    | none => (s, false)

def stageSessionRelocationRoute (route : List (Fin 256))
    (actorType : String) (targetOwnerLeaseGeneration : ℕ) : Coordinator × Bool :=
  if route = [] ∨ actorType = "" ∨ targetOwnerLeaseGeneration = 0 then (s, false)
  else
    s.updateAdmission transferId fun admission =>
      if admission.sessionRelocationRoute ≠ [] then
        (admission.sessionRelocationRoute = route &&
          admission.sessionRelocationActorType = actorType &&
          admission.sessionRelocationTargetOwnerLeaseGeneration = targetOwnerLeaseGeneration,
          admission)
      else
        (true,
          { admission with
            sessionRelocationRoute := route
            sessionRelocationActorType := actorType
            sessionRelocationTargetOwnerLeaseGeneration := targetOwnerLeaseGeneration })

def commitSessionRelocationRouteAuthority
    (previousAuthorityOwnerGeneration targetAuthorityOwnerGeneration : ℕ) :
    Coordinator × Bool :=
  if previousAuthorityOwnerGeneration = 0 ∨
      targetAuthorityOwnerGeneration ≤ previousAuthorityOwnerGeneration then (s, false)
  else
    s.updateAdmission transferId fun admission =>
      if admission.sessionRelocationRoute = [] then (false, admission)
      else if admission.sessionRelocationCommittedTargetAuthorityOwnerGeneration ≠ 0 then
        (admission.sessionRelocationCommittedPreviousAuthorityOwnerGeneration =
            previousAuthorityOwnerGeneration &&
          admission.sessionRelocationCommittedTargetAuthorityOwnerGeneration =
            targetAuthorityOwnerGeneration,
          admission)
      else
        (true,
          { admission with
            sessionRelocationCommittedPreviousAuthorityOwnerGeneration :=
              previousAuthorityOwnerGeneration
            sessionRelocationCommittedTargetAuthorityOwnerGeneration :=
              targetAuthorityOwnerGeneration })

/-- `fail_commit_on_lane`. A move that is reconciled keeps its backlog, and the Actor of the
admission gets one if it has none. -/
def failCommit (reconcile : Bool) : Coordinator × List Packet :=
  match s.admissions.find transferId with
  | none => (s, [])
  | some admission =>
    let actorKey := admission.actorKey
    let closed := s.eraseAdmission transferId
    if reconcile then
      let move := (s.moves.find actorKey).getD { phase := .sourceReserved, transferId := "" }
      (closed.setMove actorKey { move with phase := .reconcile, transferId := "" }, [])
    else ((closed.eraseMove actorKey).eraseBacklog actorKey, s.backlog actorKey)

def completeCommit : Coordinator :=
  match s.admissions.find transferId with
  | none => s
  | some admission =>
    { (s.eraseMove admission.actorKey).eraseAdmission transferId with
      completedAdmissions := s.completedAdmissions.insertOrAssign transferId admission }

/-- The loop of `cleanup_expired_on_lane` at one pending admission. -/
def expire (now : ℤ) (turn : Coordinator × List ExpiredAdmission) (entry : String × Admission) :
    Coordinator × List ExpiredAdmission :=
  let (s, expired) := turn
  let (transferId, admission) := entry
  let actorKey := admission.actorKey
  if ((s.moves.find actorKey).any fun move => move.phase = .targetPending) ∧
      admission.deadline ≤ now then
    (((s.eraseMove actorKey).eraseBacklog actorKey).eraseAdmission transferId,
      expired ++ [⟨transferId, admission, s.backlog actorKey⟩])
  else (s, expired)

/-- `cleanup_expired_on_lane` with the admissions that have expired and the candidates that
still have a move. -/
def cleanupExpired (now : ℤ) (blockedCandidates : List String) :
    Coordinator × List ExpiredAdmission × List String :=
  let (next, expired) := s.admissions.entries.foldl (expire now) (s, [])
  ({ next with
      completedAdmissions := next.completedAdmissions.filter fun e => now < e.2.deadline },
    expired,
    (blockedCandidates.filter fun key => (next.moves.find key).isSome).mergeSort)

end Coordinator

end Zlink.Spots
