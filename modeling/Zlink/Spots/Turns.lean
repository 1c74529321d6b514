import Zlink.Lib.Trace
import Zlink.Spots.Transfer

/-!
# The turns of the coordinator

The coordinator as a custody: an Actor that moves is held for a transfer while the move is in
one of the target phases, an admission is a ticket, and a backlog is a queue. Every operation
does one thing to the custody, or nothing, except the expiry, which closes one admission after
the other. `turn_custody` says so for all of them.
-/

namespace Zlink.Spots

inductive Operation where
  | trySealMaintenanceInventory
  | endMaintenanceInventory
  | tryReserveSource (actorKey transferId : String)
  | tryBeginLocal (actorKey : String)
  | tryBeginSourceRemote (actorKey transferId : String) (now : ℤ)
  | cancelMove (actorKey expectedSourceTransfer : String)
  | markReconcile (actorKey : String) (bound : ℤ) (context : Option ℕ) (now : ℤ)
  | takeDueReconciles (now : ℤ)
  | completeMove (actorKey : String) (now : ℤ)
  | finishMoveReplay (actorKey : String) (acceptPrefix : PrefixReceiver)
      (expectedSourceTransfer : String) (now : ℤ)
  | tryAppendBacklog (actorKey : String) (packet : Packet)
  | admitDispatchPacket (actorKey : String) (targetsCommittedSource : Bool)
      (submit : Option Bool) (packet : Packet)
  | prependSourceSuffix (actorKey : String) (suffix : List Packet)
  | stageCommitBacklog (transferId : String) (batch : List Packet)
  | takeBacklog (actorKey : String)
  | admitAttempt (actorKey transferId : String)
  | tryAddAdmission (transferId : String) (admission : Admission)
  | beginCommit (transferId : String) (sourceActor : ActorRef) (targetSpotId : String) (now : ℤ)
  | completeCommitAndTakeBacklog (transferId : String) (sourceActor : ActorRef)
      (targetSpotId : String)
  | stageSessionRelocationRoute (transferId : String) (route : List (Fin 256))
      (actorType : String) (targetOwnerLeaseGeneration : ℕ)
  | commitSessionRelocationRouteAuthority (transferId : String)
      (previousAuthorityOwnerGeneration targetAuthorityOwnerGeneration : ℕ)
  | failCommit (transferId : String) (reconcile : Bool)
  | completeCommit (transferId : String)
  | cleanupExpired (now : ℤ) (blockedCandidates : List String)

abbrev PacketTraffic := List (Traffic String Packet)

def Move.tenure (move : Move) : Tenure String :=
  if move.phase.isTarget then .held move.transferId else .busy

namespace Coordinator

variable (s : Coordinator)

def atAdmission (transferId : String) (traffic : String → PacketTraffic) : PacketTraffic :=
  (s.admissions.find transferId).elim [] fun admission => traffic admission.actorKey

def turn : Operation → Coordinator × PacketTraffic
  | .trySealMaintenanceInventory => (s.trySealMaintenanceInventory.1, [])
  | .endMaintenanceInventory => (s.endMaintenanceInventory, [])
  | .tryReserveSource actorKey transferId =>
    ((s.tryReserveSource actorKey transferId).toOption.getD s, [])
  | .tryBeginLocal actorKey => ((s.tryBeginLocal actorKey).toOption.getD s, [])
  | .tryBeginSourceRemote actorKey transferId now =>
    ((s.tryBeginSourceRemote actorKey transferId now).toOption.getD s, [])
  | .cancelMove actorKey expectedSourceTransfer =>
    let (next, discarded) := s.cancelMove actorKey expectedSourceTransfer
    (next, Traffic.release actorKey discarded)
  | .markReconcile actorKey bound context now => (s.markReconcile actorKey bound context now, [])
  | .takeDueReconciles now => ((s.takeDueReconciles now).1, [])
  | .completeMove actorKey now => ((s.completeMove actorKey now).1, [])
  | .finishMoveReplay actorKey acceptPrefix expectedSourceTransfer now =>
    let (next, accepted, completion) :=
      s.finishMoveReplay actorKey acceptPrefix expectedSourceTransfer now
    (next, Traffic.release actorKey (accepted ++ completion.elim [] MoveCompletion.backlog))
  | .tryAppendBacklog actorKey packet =>
    let (next, result) := s.tryAppendBacklog actorKey packet
    (next, if result = .appended then [.appended actorKey [packet]] else [])
  | .admitDispatchPacket actorKey targetsCommittedSource submit packet =>
    let (next, admission) :=
      s.admitDispatchPacket actorKey targetsCommittedSource submit packet
    (next, if admission.appendResult = .appended then [.appended actorKey [packet]] else [])
  | .prependSourceSuffix actorKey suffix =>
    (s.prependSourceSuffix actorKey suffix,
      if suffix = [] then [] else [.prepended actorKey suffix])
  | .stageCommitBacklog transferId batch =>
    let (next, staged) := s.stageCommitBacklog transferId batch
    (next, if staged then s.atAdmission transferId fun key => [.appended key batch] else [])
  | .takeBacklog actorKey =>
    let (next, backlog) := s.takeBacklog actorKey
    (next, Traffic.release actorKey backlog)
  | .admitAttempt actorKey transferId =>
    let (next, _, discarded) := s.admitAttempt actorKey transferId
    (next, Traffic.release actorKey discarded)
  | .tryAddAdmission transferId admission => ((s.tryAddAdmission transferId admission).1, [])
  | .beginCommit transferId sourceActor targetSpotId now =>
    let (next, _, discarded) := s.beginCommit transferId sourceActor targetSpotId now
    (next, s.atAdmission transferId fun key => Traffic.release key discarded)
  | .completeCommitAndTakeBacklog transferId sourceActor targetSpotId =>
    let (next, backlog) := s.completeCommitAndTakeBacklog transferId sourceActor targetSpotId
    (next, s.atAdmission transferId fun key => Traffic.release key (backlog.getD []))
  | .stageSessionRelocationRoute transferId route actorType targetOwnerLeaseGeneration =>
    ((s.stageSessionRelocationRoute transferId route actorType targetOwnerLeaseGeneration).1, [])
  | .commitSessionRelocationRouteAuthority transferId previous target =>
    ((s.commitSessionRelocationRouteAuthority transferId previous target).1, [])
  | .failCommit transferId reconcile =>
    let (next, discarded) := s.failCommit transferId reconcile
    (next, s.atAdmission transferId fun key => Traffic.release key discarded)
  | .completeCommit transferId => (s.completeCommit transferId, [])
  | .cleanupExpired now blockedCandidates =>
    let (next, expired, _) := s.cleanupExpired now blockedCandidates
    (next, expired.flatMap fun e => Traffic.release e.admission.actorKey e.discardedBacklog)

def InTarget (actorKey : String) : Prop :=
  ∃ move, s.moves.find actorKey = some move ∧ move.phase.isTarget

def Settles : Operation → Prop
  | .completeMove actorKey _ => (s.moves.find actorKey).isSome → s.backlog actorKey = []
  | .completeCommit transferId =>
    ∀ admission, s.admissions.find transferId = some admission → s.backlog admission.actorKey = []
  | .prependSourceSuffix actorKey suffix => suffix = [] ∨ (s.moves.find actorKey).isSome
  | _ => True

def Respects : Operation → Prop
  | .cancelMove actorKey expectedSourceTransfer =>
    expectedSourceTransfer = "" → ¬ s.InTarget actorKey
  | .markReconcile actorKey _ _ _ => ¬ s.InTarget actorKey
  | .completeMove actorKey _ => ¬ s.InTarget actorKey
  | .finishMoveReplay actorKey acceptPrefix expectedSourceTransfer _ =>
    expectedSourceTransfer = "" →
      acceptPrefix = .returns ∨ acceptPrefix = .absent ∧ s.backlog actorKey = [] →
        ¬ s.InTarget actorKey
  | _ => True

def custody : Custody String String Packet where
  tenure actorKey := (s.moves.find actorKey).elim .free Move.tenure
  tickets transferId := (s.admissions.find transferId).map Admission.actorKey
  queue := s.backlog

variable {s} {key transferId : String} {move : Move} {packets : List Packet}

theorem custody_setMove (s : Coordinator) (key : String) (move : Move) :
    (s.setMove key move).custody =
      { s.custody with tenure := Function.update s.custody.tenure key move.tenure } := by
  have htenure : (s.setMove key move).custody.tenure =
      (fun m : Option Move => m.elim .free Move.tenure) ∘ (s.setMove key move).moves.find := rfl
  refine Custody.ext ?_ rfl rfl
  rw [htenure, setMove, OrderedMap.find_insertOrAssign]
  exact Function.comp_update _ _ key (some move)

theorem custody_eraseMove (s : Coordinator) (key : String) : (s.eraseMove key).custody =
      { s.custody with tenure := Function.update s.custody.tenure key .free } := by
  have htenure : (s.eraseMove key).custody.tenure =
      (fun m : Option Move => m.elim .free Move.tenure) ∘ (s.eraseMove key).moves.find := rfl
  refine Custody.ext ?_ rfl rfl
  rw [htenure, eraseMove, OrderedMap.find_erase]
  exact Function.comp_update _ _ key none

theorem custody_setBacklog (s : Coordinator) (key : String) (packets : List Packet) :
    (s.setBacklog key packets).custody =
      { s.custody with queue := Function.update s.custody.queue key packets } := by
  have hqueue : (s.setBacklog key packets).custody.queue =
      (fun q : Option (List Packet) => q.getD []) ∘ (s.setBacklog key packets).backlogs.find :=
    rfl
  refine Custody.ext rfl rfl ?_
  rw [hqueue, setBacklog, OrderedMap.find_insertOrAssign]
  exact Function.comp_update _ _ key (some packets)

theorem custody_eraseBacklog (s : Coordinator) (key : String) : (s.eraseBacklog key).custody =
      { s.custody with queue := Function.update s.custody.queue key [] } := by
  have hqueue : (s.eraseBacklog key).custody.queue =
      (fun q : Option (List Packet) => q.getD []) ∘ (s.eraseBacklog key).backlogs.find := rfl
  refine Custody.ext rfl rfl ?_
  rw [hqueue, eraseBacklog, OrderedMap.find_erase]
  exact Function.comp_update _ _ key none

theorem custody_eraseAdmission (s : Coordinator) (transferId : String) :
    (s.eraseAdmission transferId).custody =
      { s.custody with tickets := Function.update s.custody.tickets transferId none } := by
  have htickets : (s.eraseAdmission transferId).custody.tickets =
      Option.map Admission.actorKey ∘ (s.eraseAdmission transferId).admissions.find := rfl
  refine Custody.ext rfl ?_ rfl
  rw [htickets, eraseAdmission, OrderedMap.find_erase]
  exact Function.comp_update _ _ transferId none

theorem custody_setAdmission (s : Coordinator) (transferId : String) (admission : Admission) :
    (s.setAdmission transferId admission).custody = { s.custody with
        tickets := Function.update s.custody.tickets transferId (some admission.actorKey) } := by
  have htickets : (s.setAdmission transferId admission).custody.tickets =
      Option.map Admission.actorKey ∘ (s.setAdmission transferId admission).admissions.find := rfl
  refine Custody.ext rfl ?_ rfl
  rw [htickets, setAdmission, OrderedMap.find_insertOrAssign]
  exact Function.comp_update _ _ transferId (some admission)

theorem tenure_of_find (h : s.moves.find key = some move) : s.custody.tenure key = move.tenure := by
  show (s.moves.find key).elim Tenure.free Move.tenure = _
  rw [h]
  rfl

theorem tenure_of_find_none (h : s.moves.find key = none) : s.custody.tenure key = .free := by
  show (s.moves.find key).elim Tenure.free Move.tenure = _
  rw [h]
  rfl

theorem tenure_eq_free_iff : s.custody.tenure key = .free ↔ s.moves.find key = none := by
  cases hfind : s.moves.find key with
  | none => exact iff_of_true (tenure_of_find_none hfind) rfl
  | some move =>
    rw [tenure_of_find hfind, Move.tenure]
    split_ifs <;> simp

theorem tenure_eq_held_iff : s.custody.tenure key = .held transferId ↔
    ∃ move, s.moves.find key = some move ∧ move.transferId = transferId ∧ move.phase.isTarget := by
  cases hfind : s.moves.find key with
  | none => simp [tenure_of_find_none hfind]
  | some move =>
    rw [tenure_of_find hfind, Move.tenure]
    split_ifs with h <;> simp [h]

theorem not_inTarget_iff : ¬ s.InTarget key ↔ ∀ t, s.custody.tenure key ≠ .held t := by
  simp only [ne_eq, tenure_eq_held_iff, InTarget]
  constructor
  · rintro h t ⟨move, hfind, -, htarget⟩
    exact h ⟨move, hfind, htarget⟩
  · rintro h ⟨move, hfind, htarget⟩
    exact h move.transferId ⟨move, hfind, rfl, htarget⟩

def IsTurn (s : Coordinator) (operation : Operation) : Prop :=
  Custody.Turn s.custody (s.turn operation).1.custody (s.turn operation).2
    (s.Settles operation) (s.Respects operation)

theorem not_inTarget_of_none (h : s.moves.find key = none) : ¬ s.InTarget key := by
  rintro ⟨move, hfind, -⟩
  rw [h] at hfind
  cases hfind

theorem not_inTarget_of_some (h : s.moves.find key = some move) (hphase : move.phase.isTarget = false) :
    ¬ s.InTarget key := by
  rintro ⟨other, hfind, htarget⟩
  obtain rfl := Option.some.inj (h.symm.trans hfind)
  rw [hphase] at htarget
  cases htarget

theorem occupy_turn (hphase : move.phase.isTarget = false) :
    Custody.Turn s.custody (s.setMove key move).custody [] True (¬ s.InTarget key) := by
  refine .of_action (.occupy key) trivial ?_ rfl Iff.rfl not_inTarget_iff
  rw [custody_setMove, Move.tenure, hphase]
  rfl

theorem begin_turn {old : Move} (hfind : s.moves.find key = some old)
    (hsource : ¬ old.phase ≠ .sourceReserved) (hphase : move.phase.isTarget = false) :
    Custody.Turn s.custody (s.setMove key move).custody [] True True := by
  have hnot : ¬ s.InTarget key := not_inTarget_of_some hfind (by rw [not_not.mp hsource]; rfl)
  exact (occupy_turn hphase).congr Iff.rfl (iff_of_true trivial hnot)

theorem claim_turn (hphase : move.phase.isTarget = false) :
    Custody.Turn s.custody ((s.tryClaimSource key move).toOption.getD s).custody [] True True := by
  rw [tryClaimSource]
  split_ifs with hsealed hmoving
  · exact .idle rfl
  · exact .idle rfl
  · have hnone := Option.not_isSome_iff_eq_none.mp hmoving
    exact (occupy_turn hphase).congr Iff.rfl (iff_of_true trivial (not_inTarget_of_none hnone))

theorem tryBeginLocal_turn : s.IsTurn (.tryBeginLocal key) := by
  show Custody.Turn s.custody ((s.tryBeginLocal key).toOption.getD s).custody [] True True
  rw [tryBeginLocal]
  split
  · rename_i move hfind
    split_ifs with hphase
    · exact .idle rfl
    · exact begin_turn hfind hphase rfl
  · exact claim_turn rfl

theorem tryBeginSourceRemote_turn {now : ℤ} :
    s.IsTurn (.tryBeginSourceRemote key transferId now) := by
  show Custody.Turn s.custody
    ((s.tryBeginSourceRemote key transferId now).toOption.getD s).custody [] True True
  rw [tryBeginSourceRemote]
  split
  · rename_i move hfind
    split_ifs with hphase
    · exact .idle rfl
    · exact begin_turn hfind hphase rfl
  · exact claim_turn rfl

theorem discard_turn : Custody.Turn s.custody ((s.eraseMove key).eraseBacklog key).custody
      (Traffic.release key (s.backlog key)) True (¬ s.InTarget key) := by
  refine .of_action (.discard key) trivial ?_ rfl Iff.rfl not_inTarget_iff
  rw [custody_eraseBacklog, custody_eraseMove]
  rfl

theorem not_inTarget_of_matches (h : s.matchesSourceReservation key transferId) :
    ¬ s.InTarget key := by
  obtain ⟨move, hfind, hmatch⟩ := (Option.any_eq_true _ _).mp h
  have hphase : move.phase = .sourceReserved := by simp_all
  exact not_inTarget_of_some hfind (by rw [hphase]; rfl)

theorem cancelMove_turn {expected : String} : s.IsTurn (.cancelMove key expected) := by
  show Custody.Turn s.custody (s.cancelMove key expected).1.custody
    (Traffic.release key (s.cancelMove key expected).2) True (expected = "" → ¬ s.InTarget key)
  rw [cancelMove]
  split_ifs with h
  · refine (Custody.Turn.idle rfl).congr Iff.rfl (iff_of_true (fun hexp => absurd hexp h.1) trivial)
  · refine discard_turn.congr Iff.rfl ⟨fun hnot => ?_, fun hnot _ => hnot⟩
    by_cases hexp : expected = ""
    · exact hnot hexp
    · have hmatch : s.matchesSourceReservation key expected := by
        simpa [hexp] using h
      exact not_inTarget_of_matches hmatch

theorem markReconcile_turn {bound now : ℤ} {context : Option ℕ} :
    s.IsTurn (.markReconcile key bound context now) := by
  show Custody.Turn s.custody (s.markReconcile key bound context now).custody [] True
    (¬ s.InTarget key)
  rw [markReconcile]
  split <;> exact occupy_turn rfl

theorem takeDueReconciles_turn {now : ℤ} : s.IsTurn (.takeDueReconciles now) := by
  refine .idle (Custody.ext (funext fun key => ?_) rfl rfl)
  show ((s.moves.mapValues _).find key).elim Tenure.free Move.tenure = _
  rw [OrderedMap.find_mapValues]
  cases hfind : s.moves.find key with
  | none => exact (tenure_of_find_none hfind).symm
  | some move =>
    refine Eq.trans ?_ (tenure_of_find hfind).symm
    show Move.tenure (if move.reconcileDue now then _ else move) = move.tenure
    split_ifs <;> rfl

theorem completeMove_turn {now : ℤ} : s.IsTurn (.completeMove key now) := by
  show Custody.Turn s.custody (s.completeMove key now).1.custody []
    ((s.moves.find key).isSome → s.backlog key = []) (¬ s.InTarget key)
  rw [completeMove]
  split
  · rename_i hfind
    exact (Custody.Turn.idle rfl).congr (by simp [hfind])
      (iff_of_true (not_inTarget_of_none hfind) trivial)
  · rename_i move hfind
    refine .of_action (.leave key) trivial ?_ rfl (by simp [hfind, Custody.Action.Settles]; rfl) not_inTarget_iff
    rw [custody_eraseMove]
    rfl

theorem take_turn :
    Custody.Turn s.custody (s.eraseBacklog key).custody (Traffic.release key (s.backlog key))
      True True :=
  .of_action (.take key) trivial (custody_eraseBacklog s key) rfl Iff.rfl Iff.rfl

theorem finishMoveReplay_turn {receiver : PrefixReceiver} {expected : String} {now : ℤ} :
    s.IsTurn (.finishMoveReplay key receiver expected now) := by
  show Custody.Turn s.custody (s.finishMoveReplay key receiver expected now).1.custody
    (Traffic.release key ((s.finishMoveReplay key receiver expected now).2.1 ++
      (s.finishMoveReplay key receiver expected now).2.2.elim [] MoveCompletion.backlog)) True
    (expected = "" → receiver = .returns ∨ receiver = .absent ∧ s.backlog key = [] →
      ¬ s.InTarget key)
  rw [finishMoveReplay]
  split_ifs with h
  · exact (Custody.Turn.idle rfl).congr Iff.rfl (iff_of_true (fun hexp => absurd hexp h.1) trivial)
  · have hended (hnot : expected = "" → ¬ s.InTarget key) : ¬ s.InTarget key := by
      by_cases hexp : expected = ""
      · exact hnot hexp
      · have hmatch : s.matchesSourceReservation key expected := by
          simpa [hexp] using h
        exact not_inTarget_of_matches hmatch
    cases hfind : s.moves.find key with
    | none =>
      exact (Custody.Turn.idle rfl).congr Iff.rfl
        (iff_of_true (fun _ _ => not_inTarget_of_none hfind) trivial)
    | some move =>
      cases receiver with
      | throws =>
        dsimp only
        rw [Option.elim_none, List.append_nil]
        exact take_turn.congr Iff.rfl (iff_of_true (by simp) trivial)
      | returns =>
        dsimp only
        rw [Option.elim_some, List.append_nil]
        refine (discard_turn (s := s)).congr Iff.rfl
          ⟨fun hnot => hended fun hexp => hnot hexp (.inl rfl), fun hnot _ _ => hnot⟩
      | absent =>
        dsimp only
        split_ifs with hempty
        · exact take_turn.congr Iff.rfl (iff_of_true (by simp [hempty]) trivial)
        · have hback : s.backlog key = [] := not_not.mp hempty
          have hdiscard : Custody.Turn s.custody
              ((s.eraseMove key).eraseBacklog key).custody (Traffic.release key []) True
              (¬ s.InTarget key) := by
            rw [← hback]
            exact discard_turn
          exact hdiscard.congr Iff.rfl
            ⟨fun hnot => hended fun hexp => hnot hexp (.inr ⟨rfl, hback⟩), fun hnot _ _ => hnot⟩

theorem append_turn (hmoving : (s.moves.find key).isSome) :
    Custody.Turn s.custody (s.setBacklog key (s.backlog key ++ packets)).custody
      [.appended key packets] True True := by
  refine .of_action (.append key packets) ?_ (custody_setBacklog s key _) rfl Iff.rfl Iff.rfl
  intro hfree
  rw [tenure_eq_free_iff.mp hfree] at hmoving
  cases hmoving

theorem tryAppendBacklog_cases (s : Coordinator) (key : String) (packet : Packet) :
    (∃ result, result ≠ .appended ∧ s.tryAppendBacklog key packet = (s, result)) ∨
    (s.moves.find key).isSome ∧ s.tryAppendBacklog key packet =
      (s.setBacklog key (s.backlog key ++ [packet]), .appended) := by
  rw [tryAppendBacklog]
  split_ifs with hblocks hduplicate
  · exact .inl ⟨.notMoving, by decide, rfl⟩
  · exact .inl ⟨.duplicateRequest, by decide, rfl⟩
  · rw [Bool.not_eq_true, Bool.not_eq_false'] at hblocks
    obtain ⟨move, hfind, -⟩ := (Option.any_eq_true _ _).mp hblocks
    exact .inr ⟨by rw [hfind]; rfl, rfl⟩

theorem tryAppendBacklog_turn {packet : Packet} : s.IsTurn (.tryAppendBacklog key packet) := by
  show Custody.Turn s.custody (s.tryAppendBacklog key packet).1.custody
    (if (s.tryAppendBacklog key packet).2 = .appended then [.appended key [packet]] else [])
    True True
  obtain ⟨result, hresult, heq⟩ | ⟨hmoving, heq⟩ := s.tryAppendBacklog_cases key packet
  · rw [heq, if_neg hresult]
    exact .idle rfl
  · rw [heq, if_pos rfl]
    exact append_turn hmoving

theorem admitDispatchPacket_turn {committed : Bool} {submit : Option Bool} {packet : Packet} :
    s.IsTurn (.admitDispatchPacket key committed submit packet) := by
  cases committed with
  | true => exact .idle rfl
  | false => exact tryAppendBacklog_turn

theorem prependSourceSuffix_turn : s.IsTurn (.prependSourceSuffix key packets) := by
  show Custody.Turn s.custody (s.prependSourceSuffix key packets).custody
    (if packets = [] then [] else [.prepended key packets])
    (packets = [] ∨ (s.moves.find key).isSome) True
  rw [prependSourceSuffix]
  split_ifs with hempty
  · exact (Custody.Turn.idle rfl).congr (iff_of_true (.inl hempty) trivial) Iff.rfl
  · refine .of_action (.prepend key packets) trivial (custody_setBacklog s key _) rfl ?_ Iff.rfl
    rw [Custody.Action.Settles, tenure_eq_free_iff]
    simp [hempty, Option.isSome_iff_ne_none]

theorem stageCommitBacklog_cases (s : Coordinator) (transferId : String) (batch : List Packet) :
    s.stageCommitBacklog transferId batch = (s, false) ∨
    ∃ admission, s.admissions.find transferId = some admission ∧
      (s.moves.find admission.actorKey).isSome ∧ s.stageCommitBacklog transferId batch =
        (s.setBacklog admission.actorKey (s.backlog admission.actorKey ++ batch), true) := by
  rw [stageCommitBacklog]
  split
  · exact .inl rfl
  · rename_i admission hadmission
    dsimp only
    split
    · exact .inl rfl
    · rename_i move hfind
      split_ifs
      · exact .inl rfl
      · exact .inl rfl
      · exact .inr ⟨admission, hadmission, by rw [hfind]; rfl, rfl⟩

theorem stageCommitBacklog_turn : s.IsTurn (.stageCommitBacklog transferId packets) := by
  show Custody.Turn s.custody (s.stageCommitBacklog transferId packets).1.custody
    (if (s.stageCommitBacklog transferId packets).2 then
      s.atAdmission transferId fun key => [.appended key packets] else []) True True
  obtain heq | ⟨admission, hadmission, hmoving, heq⟩ :=
    s.stageCommitBacklog_cases transferId packets
  · rw [heq]
    exact .idle rfl
  · rw [heq, atAdmission, hadmission]
    exact append_turn hmoving

theorem tickets_of_find {admission : Admission} (h : s.admissions.find transferId = some admission) :
    s.custody.tickets transferId = some admission.actorKey :=
  congrArg (Option.map Admission.actorKey) h

def close (s : Coordinator) (transferId key : String) : Coordinator :=
  ((s.eraseBacklog key).eraseMove key).eraseAdmission transferId

theorem close_turn (hticket : s.custody.tickets transferId = some key) :
    Custody.Turn s.custody (s.close transferId key).custody
      (Traffic.release key (s.backlog key)) True True := by
  refine .of_action (.close transferId key) hticket ?_ rfl Iff.rfl Iff.rfl
  rw [close, custody_eraseAdmission, custody_eraseMove, custody_eraseBacklog]
  rfl

theorem admitAttempt_cases (s : Coordinator) (key transferId : String) :
    (∃ admitted, s.admitAttempt key transferId = (s, admitted, [])) ∨
    ∃ move, s.moves.find key = some move ∧ move.phase.isTarget ∧
      s.admitAttempt key transferId = (s.close move.transferId key, true, s.backlog key) := by
  rw [admitAttempt]
  split
  · exact .inl ⟨true, rfl⟩
  · rename_i move hfind
    split_ifs with h
    · exact .inl ⟨false, rfl⟩
    · exact .inr ⟨move, hfind, by simpa using (not_or.mp h).1, rfl⟩

theorem admitAttempt_turn (ho : s.custody.Owned) : s.IsTurn (.admitAttempt key transferId) := by
  show Custody.Turn s.custody (s.admitAttempt key transferId).1.custody
    (Traffic.release key (s.admitAttempt key transferId).2.2) True True
  obtain ⟨admitted, heq⟩ | ⟨move, hfind, htarget, heq⟩ := s.admitAttempt_cases key transferId
  · rw [heq]
    exact .idle rfl
  · rw [heq]
    exact close_turn (ho _ _ (tenure_eq_held_iff.mpr ⟨move, hfind, rfl, htarget⟩))

theorem tryAddAdmission_turn {admission : Admission} :
    s.IsTurn (.tryAddAdmission transferId admission) := by
  show Custody.Turn s.custody (s.tryAddAdmission transferId admission).1.custody [] True True
  rw [tryAddAdmission]
  split_ifs with hknown hmoving
  · exact .idle rfl
  · exact .idle rfl
  · refine .of_action (.hold admission.actorKey transferId) ⟨?_, ?_⟩ ?_ rfl Iff.rfl Iff.rfl
    · exact tenure_of_find_none (Option.not_isSome_iff_eq_none.mp hmoving)
    · exact congrArg (Option.map Admission.actorKey)
        (Option.not_isSome_iff_eq_none.mp (not_or.mp hknown).1)
    · rw [custody_setAdmission, custody_setMove]
      rfl

theorem beginCommit_cases (s : Coordinator) (transferId : String) (sourceActor : ActorRef)
    (targetSpotId : String) (now : ℤ) :
    s.beginCommit transferId sourceActor targetSpotId now = (s, none, []) ∨
    (∃ admission, s.admissions.find transferId = some admission ∧
      s.beginCommit transferId sourceActor targetSpotId now =
        (s.close transferId admission.actorKey, none, s.backlog admission.actorKey)) ∨
    ∃ admission move, s.admissions.find transferId = some admission ∧
      s.moves.find admission.actorKey = some move ∧ move.transferId = transferId ∧
      move.phase = .targetPending ∧ s.beginCommit transferId sourceActor targetSpotId now =
        (s.setMove admission.actorKey { move with phase := .targetCommitting },
          some admission, []) := by
  rw [beginCommit]
  split
  · exact .inl rfl
  · rename_i admission hadmission
    dsimp only
    split_ifs with hexpired hactor
    · exact .inr (.inl ⟨admission, hadmission, rfl⟩)
    · exact .inl rfl
    · split
      · exact .inl rfl
      · rename_i move hfind
        split_ifs with hmove
        · exact .inl rfl
        · obtain ⟨hid, hphase⟩ := not_or.mp hmove
          exact .inr (.inr ⟨admission, move, hadmission, hfind, not_not.mp hid,
            not_not.mp hphase, rfl⟩)

theorem custody_committing (hfind : s.moves.find key = some move)
    (hphase : move.phase = .targetPending) :
    (s.setMove key { move with phase := .targetCommitting }).custody = s.custody := by
  have htenure : s.custody.tenure key = .held move.transferId := by
    rw [tenure_of_find hfind, Move.tenure, hphase]
    rfl
  rw [custody_setMove, Move.tenure]
  exact Custody.ext (Function.update_eq_self_iff.mpr htenure.symm) rfl rfl

theorem beginCommit_turn {sourceActor : ActorRef} {targetSpotId : String} {now : ℤ} :
    s.IsTurn (.beginCommit transferId sourceActor targetSpotId now) := by
  show Custody.Turn s.custody (s.beginCommit transferId sourceActor targetSpotId now).1.custody
    (s.atAdmission transferId fun key =>
      Traffic.release key (s.beginCommit transferId sourceActor targetSpotId now).2.2) True True
  rw [atAdmission]
  obtain heq | ⟨admission, hadmission, heq⟩ | ⟨admission, move, hadmission, hfind, -, hphase, heq⟩ :=
    s.beginCommit_cases transferId sourceActor targetSpotId now
  · rw [heq]
    cases s.admissions.find transferId <;> exact .idle rfl
  · rw [heq, hadmission]
    exact close_turn (tickets_of_find hadmission)
  · rw [heq, hadmission]
    exact .idle (custody_committing hfind hphase)

theorem completeCommitAndTakeBacklog_cases (s : Coordinator) (transferId : String)
    (sourceActor : ActorRef) (targetSpotId : String) :
    s.completeCommitAndTakeBacklog transferId sourceActor targetSpotId = (s, none) ∨
    ∃ admission, s.admissions.find transferId = some admission ∧
      s.completeCommitAndTakeBacklog transferId sourceActor targetSpotId =
        ({ s.close transferId admission.actorKey with
            completedAdmissions := s.completedAdmissions.insertOrAssign transferId admission },
          some (s.backlog admission.actorKey)) := by
  rw [completeCommitAndTakeBacklog]
  split
  · exact .inl rfl
  · rename_i admission hadmission
    dsimp only
    split
    · exact .inl rfl
    · split_ifs
      · exact .inl rfl
      · exact .inr ⟨admission, hadmission, rfl⟩

theorem completeCommitAndTakeBacklog_turn {sourceActor : ActorRef} {targetSpotId : String} :
    s.IsTurn (.completeCommitAndTakeBacklog transferId sourceActor targetSpotId) := by
  show Custody.Turn s.custody
    (s.completeCommitAndTakeBacklog transferId sourceActor targetSpotId).1.custody
    (s.atAdmission transferId fun key => Traffic.release key
      ((s.completeCommitAndTakeBacklog transferId sourceActor targetSpotId).2.getD [])) True True
  rw [atAdmission]
  obtain heq | ⟨admission, hadmission, heq⟩ :=
    s.completeCommitAndTakeBacklog_cases transferId sourceActor targetSpotId
  · rw [heq]
    cases s.admissions.find transferId <;> exact .idle rfl
  · rw [heq, hadmission]
    exact close_turn (tickets_of_find hadmission)

theorem failCommit_cases (s : Coordinator) (transferId : String) (reconcile : Bool) :
    s.admissions.find transferId = none ∧ s.failCommit transferId reconcile = (s, []) ∨
    ∃ admission, s.admissions.find transferId = some admission ∧
      ((∃ move, move.phase = .reconcile ∧ s.failCommit transferId reconcile =
          ((s.eraseAdmission transferId).setMove admission.actorKey move, [])) ∨
        s.failCommit transferId reconcile =
          (s.close transferId admission.actorKey, s.backlog admission.actorKey)) := by
  rw [failCommit]
  split
  · rename_i hnone
    exact .inl ⟨hnone, rfl⟩
  · rename_i admission hadmission
    refine .inr ⟨admission, hadmission, ?_⟩
    cases reconcile with
    | true => exact .inl ⟨_, rfl, rfl⟩
    | false => exact .inr rfl

theorem failCommit_turn {reconcile : Bool} : s.IsTurn (.failCommit transferId reconcile) := by
  show Custody.Turn s.custody (s.failCommit transferId reconcile).1.custody
    (s.atAdmission transferId fun key =>
      Traffic.release key (s.failCommit transferId reconcile).2) True True
  rw [atAdmission]
  obtain ⟨hnone, heq⟩ | ⟨admission, hadmission, ⟨move, hphase, heq⟩ | heq⟩ :=
    s.failCommit_cases transferId reconcile
  · rw [heq, hnone]
    exact .idle rfl
  · rw [heq, hadmission]
    refine .of_action (.surrender transferId admission.actorKey) (tickets_of_find hadmission) ?_
      rfl Iff.rfl Iff.rfl
    rw [custody_setMove, custody_eraseAdmission, Move.tenure, hphase]
    rfl
  · rw [heq, hadmission]
    exact close_turn (tickets_of_find hadmission)

theorem completeCommit_turn : s.IsTurn (.completeCommit transferId) := by
  show Custody.Turn s.custody (s.completeCommit transferId).custody []
    (∀ admission, s.admissions.find transferId = some admission →
      s.backlog admission.actorKey = []) True
  rw [completeCommit]
  cases hadmission : s.admissions.find transferId with
  | none => exact (Custody.Turn.idle rfl).congr (iff_of_true nofun trivial) Iff.rfl
  | some admission =>
    have hsettles : (∀ a, some admission = some a → s.backlog a.actorKey = []) ↔
        s.backlog admission.actorKey = [] := by simp
    refine .of_action (.keep transferId admission.actorKey) (tickets_of_find hadmission) ?_
      rfl hsettles Iff.rfl
    show ((s.eraseMove admission.actorKey).eraseAdmission transferId).custody = _
    rw [custody_eraseAdmission, custody_eraseMove]
    rfl

theorem custody_updateAdmission {change : Admission → Bool × Admission}
    (hchange : ∀ admission, (change admission).2.actorKey = admission.actorKey) :
    (s.updateAdmission transferId change).1.custody = s.custody := by
  rw [updateAdmission]
  split
  · rename_i admission hadmission
    dsimp only
    rw [custody_setAdmission, hchange]
    exact Custody.ext rfl (Function.update_eq_self_iff.mpr (tickets_of_find hadmission).symm) rfl
  · split <;> rfl

theorem stageSessionRelocationRoute_turn {route : List (Fin 256)} {actorType : String}
    {generation : ℕ} :
    s.IsTurn (.stageSessionRelocationRoute transferId route actorType generation) := by
  refine .idle ?_
  show (s.stageSessionRelocationRoute transferId route actorType generation).1.custody = _
  rw [stageSessionRelocationRoute]
  split_ifs
  · rfl
  · refine custody_updateAdmission fun admission => ?_
    split_ifs <;> rfl

theorem commitSessionRelocationRouteAuthority_turn {previous target : ℕ} :
    s.IsTurn (.commitSessionRelocationRouteAuthority transferId previous target) := by
  refine .idle ?_
  show (s.commitSessionRelocationRouteAuthority transferId previous target).1.custody = _
  rw [commitSessionRelocationRouteAuthority]
  split_ifs
  · rfl
  · refine custody_updateAdmission fun admission => ?_
    split_ifs <;> rfl

theorem expire_cases (s : Coordinator) (now : ℤ) (expired : List ExpiredAdmission)
    (transferId : String) (admission : Admission) :
    expire now (s, expired) (transferId, admission) = (s, expired) ∨
    expire now (s, expired) (transferId, admission) = (s.close transferId admission.actorKey,
        expired ++ [⟨transferId, admission, s.backlog admission.actorKey⟩]) := by
  rw [expire]
  split_ifs
  · exact .inr rfl
  · exact .inl rfl

def discards (expired : List ExpiredAdmission) : PacketTraffic :=
  expired.flatMap fun e => Traffic.release e.admission.actorKey e.discardedBacklog

structure Expiry (s next : Coordinator) (entries : List (String × Admission))
    (expired : List ExpiredAdmission) : Prop where
  turn : Custody.Turn s.custody next.custody (discards expired) True True
  free (key : String) (h : s.custody.tenure key = .free) : next.custody.tenure key = .free
  reported (e : ExpiredAdmission) (h : e ∈ expired) : (e.transferId, e.admission) ∈ entries
  other (key : String) (h : ∀ e ∈ expired, e.admission.actorKey ≠ key) :
    next.moves.find key = s.moves.find key ∧ next.backlog key = s.backlog key
  kept (transferId : String) (h : ∀ e ∈ expired, e.transferId ≠ transferId) :
    next.admissions.find transferId = s.admissions.find transferId

theorem find_close_of_ne {other : String} (h : other ≠ key) :
    (s.close transferId key).moves.find other = s.moves.find other ∧
      (s.close transferId key).backlog other = s.backlog other :=
  ⟨OrderedMap.find_erase_of_ne _ h,
    congrArg (fun q : Option (List Packet) => q.getD []) (OrderedMap.find_erase_of_ne _ h)⟩

theorem find_close_self : (s.close transferId key).moves.find key = none :=
  OrderedMap.find_erase_self _ _

theorem expiry (now : ℤ) (entries : List (String × Admission)) (s : Coordinator)
    (known : List ExpiredAdmission) (hentries : ∀ e ∈ entries, s.admissions.find e.1 = some e.2)
    (hnodup : (entries.map Prod.fst).Nodup) :
    ∃ expired, (entries.foldl (expire now) (s, known)).2 = known ++ expired ∧
      s.Expiry (entries.foldl (expire now) (s, known)).1 entries expired := by
  induction entries generalizing s known with
  | nil =>
    exact ⟨[], (List.append_nil known).symm,
      .idle rfl, fun _ h => h, fun _ h => absurd h List.not_mem_nil,
      fun _ _ => ⟨rfl, rfl⟩, fun _ _ => rfl⟩
  | cons entry entries ih =>
    obtain ⟨transferId, admission⟩ := entry
    obtain ⟨hfresh, hrest⟩ := List.nodup_cons.mp hnodup
    have hothers : ∀ e ∈ entries, s.admissions.find e.1 = some e.2 :=
      fun e he => hentries e (List.mem_cons_of_mem _ he)
    rw [List.foldl_cons]
    obtain heq | heq := s.expire_cases now known transferId admission
    · rw [heq]
      obtain ⟨expired, hexpired, h⟩ := ih s known hothers hrest
      exact ⟨expired, hexpired, h.turn, h.free,
        fun e he => List.mem_cons_of_mem _ (h.reported e he), h.other, h.kept⟩
    · rw [heq]
      have hfind : s.admissions.find transferId = some admission :=
        hentries (transferId, admission) List.mem_cons_self
      have hclosed : ∀ e ∈ entries,
          (s.close transferId admission.actorKey).admissions.find e.1 = some e.2 := by
        rintro ⟨other, a⟩ he
        have hne : other ≠ transferId := by
          rintro rfl
          exact hfresh (List.mem_map.mpr ⟨(other, a), he, rfl⟩)
        exact (OrderedMap.find_erase_of_ne _ hne).trans (hothers _ he)
      obtain ⟨expired, hexpired, h⟩ := ih _ _ hclosed hrest
      have hfree (key : String) (hkey : s.custody.tenure key = .free) :
          (s.close transferId admission.actorKey).custody.tenure key = .free := by
        rw [tenure_eq_free_iff] at hkey ⊢
        by_cases hk : key = admission.actorKey
        · exact hk ▸ find_close_self
        · exact (find_close_of_ne hk).1.trans hkey
      refine ⟨⟨transferId, admission, s.backlog admission.actorKey⟩ :: expired,
        ?_, ?_, ?_, ?_, ?_, ?_⟩
      · rw [hexpired, List.append_assoc]
        rfl
      · exact (close_turn (tickets_of_find hfind)).trans h.turn
          fun key hkey => h.free key (hfree key hkey)
      · exact fun key hkey => h.free key (hfree key hkey)
      · intro e he
        rcases List.mem_cons.mp he with rfl | he
        · exact List.mem_cons_self
        · exact List.mem_cons_of_mem _ (h.reported e he)
      · intro key hkey
        have hk : key ≠ admission.actorKey :=
          fun heq => hkey _ List.mem_cons_self heq.symm
        obtain ⟨hmoves, hbacklog⟩ :=
          h.other key fun e he => hkey e (List.mem_cons_of_mem _ he)
        exact ⟨hmoves.trans (find_close_of_ne hk).1, hbacklog.trans (find_close_of_ne hk).2⟩
      · intro other hother
        have hne : other ≠ transferId := fun heq => hother _ List.mem_cons_self heq.symm
        exact (h.kept other fun e he => hother e (List.mem_cons_of_mem _ he)).trans
          (OrderedMap.find_erase_of_ne _ hne)

theorem cleanupExpired_expiry (s : Coordinator) (now : ℤ) (candidates : List String) :
    s.Expiry (s.cleanupExpired now candidates).1 s.admissions.entries
      (s.cleanupExpired now candidates).2.1 := by
  obtain ⟨expired, hexpired, h⟩ := expiry now s.admissions.entries s []
    (fun e he => OrderedMap.find_eq_some_iff.mpr he) s.admissions.keys_nodup
  have hreported : (s.cleanupExpired now candidates).2.1 = expired := hexpired
  rw [hreported]
  exact ⟨h.turn, h.free, h.reported, h.other, h.kept⟩

theorem turn_custody (ho : s.custody.Owned) (operation : Operation) : s.IsTurn operation := by
  cases operation with
  | trySealMaintenanceInventory =>
    refine .idle ?_
    show s.trySealMaintenanceInventory.1.custody = s.custody
    rw [trySealMaintenanceInventory]
    split_ifs <;> rfl
  | endMaintenanceInventory => exact .idle rfl
  | tryReserveSource => exact claim_turn rfl
  | tryBeginLocal => exact tryBeginLocal_turn
  | tryBeginSourceRemote => exact tryBeginSourceRemote_turn
  | cancelMove => exact cancelMove_turn
  | markReconcile => exact markReconcile_turn
  | takeDueReconciles => exact takeDueReconciles_turn
  | completeMove => exact completeMove_turn
  | finishMoveReplay => exact finishMoveReplay_turn
  | tryAppendBacklog => exact tryAppendBacklog_turn
  | admitDispatchPacket => exact admitDispatchPacket_turn
  | prependSourceSuffix => exact prependSourceSuffix_turn
  | stageCommitBacklog => exact stageCommitBacklog_turn
  | takeBacklog => exact take_turn
  | admitAttempt => exact admitAttempt_turn ho
  | tryAddAdmission => exact tryAddAdmission_turn
  | beginCommit => exact beginCommit_turn
  | completeCommitAndTakeBacklog => exact completeCommitAndTakeBacklog_turn
  | stageSessionRelocationRoute => exact stageSessionRelocationRoute_turn
  | commitSessionRelocationRouteAuthority => exact commitSessionRelocationRouteAuthority_turn
  | failCommit => exact failCommit_turn
  | completeCommit => exact completeCommit_turn
  | cleanupExpired now candidates => exact (s.cleanupExpired_expiry now candidates).turn

def next (s : Coordinator) (operation : Operation) : Coordinator :=
  (s.turn operation).1

variable (operations : List Operation)

def after : Coordinator :=
  operations.foldl next initial

def trafficFrom (s : Coordinator) : List Operation → PacketTraffic
  | [] => []
  | operation :: operations =>
    (s.turn operation).2 ++ trafficFrom (s.next operation) operations

def traffic : PacketTraffic :=
  trafficFrom initial operations

theorem owned_next (operation : Operation) (ho : s.custody.Owned) :
    (s.next operation).custody.Owned :=
  (turn_custody ho operation).owned ho

theorem owned_initial : initial.custody.Owned := by
  intro transferId key hheld
  cases hheld

theorem owned_after : (after operations).custody.Owned :=
  Trace.foldl_invariant next (fun s => s.custody.Owned) (fun _ => owned_next) owned_initial
    operations

theorem after_append_singleton (operation : Operation) :
    after (operations ++ [operation]) = (after operations).next operation :=
  List.foldl_append

end Coordinator

end Zlink.Spots
