import Zlink.Spots.Turns

/-!
# The deadlines of the coordinator

The coordinator keeps a bound of its next due instant, which is read without a turn of its lane. A
turn that adds a deadline sets the bound below every instant, and a turn that looks at all the
deadlines sets it to the earliest of them.

Here the coordinator comes with its routes of message follow. Messages in flight over a route and
the suppression of notifications add no deadline and are left out. Instants are integers, with
`due_now` below and `never_due` above all of them.
-/

namespace Zlink.Spots

inductive Bound where
  | dueNow
  | at_ (instant : ℤ)
  | neverDue
  deriving DecidableEq

namespace Bound

def notAfter (instant : ℤ) : Bound → Bool
  | dueNow => true
  | at_ bound => bound ≤ instant
  | neverDue => false

def earlier (deadline : ℤ) : Bound → Bound
  | dueNow => dueNow
  | at_ bound => if deadline < bound then at_ deadline else at_ bound
  | neverDue => at_ deadline

theorem notAfter_mono {b : Bound} {d d' : ℤ} (h : b.notAfter d) (hd : d ≤ d') : b.notAfter d' := by
  cases b with
  | dueNow => rfl
  | at_ bound => exact decide_eq_true (Int.le_trans (of_decide_eq_true h) hd)
  | neverDue => cases h

theorem notAfter_earlier {b : Bound} {d deadline : ℤ} :
    (b.earlier deadline).notAfter d ↔ b.notAfter d ∨ deadline ≤ d := by
  cases b with
  | dueNow => exact iff_of_true rfl (.inl rfl)
  | at_ bound =>
    rw [earlier]
    split
    all_goals
      simp [notAfter]
      omega
  | neverDue => simp [earlier, notAfter]

end Bound

/-- `message_follow_route_t`. Fences and the route to the target are handles. -/
structure FollowRoute where
  sourceFence : ℕ
  targetActor : ActorRef
  targetRoute : ℕ
  targetFence : ℕ
  removeAt : ℤ
  transferId : String

structure Watch where
  coordinator : Coordinator
  routes : OrderedMap String (List FollowRoute)
  nextDue : Bound

namespace Coordinator

def pendingDeadlines (s : Coordinator) : List ℤ :=
  (s.admissions.entries.filter fun e =>
    (s.moves.find e.2.actorKey).any fun move => move.phase = .targetPending).map (·.2.deadline)

def completedDeadlines (s : Coordinator) : List ℤ :=
  s.completedAdmissions.entries.map (·.2.deadline)

def reconcileDeadlines (s : Coordinator) : List ℤ :=
  s.moves.entries.filterMap fun e =>
    if e.2.phase = .reconcile then e.2.nextReconcileAt else none

end Coordinator

namespace Watch

def initial : Watch :=
  ⟨.initial, .empty, .dueNow⟩

def routeDeadlines (w : Watch) : List ℤ :=
  w.routes.entries.flatMap fun e => e.2.map (·.removeAt)

/-- Everything that a scan for the next due instant looks at. -/
def deadlines (w : Watch) : List ℤ :=
  w.coordinator.pendingDeadlines ++ w.coordinator.completedDeadlines ++
    w.coordinator.reconcileDeadlines ++ w.routeDeadlines

/-- `next_due_on_lane`. -/
def nextDueOnLane (w : Watch) : Watch :=
  { w with nextDue := w.deadlines.foldl (fun next deadline => next.earlier deadline) .neverDue }

def wakeManagement (w : Watch) : Watch :=
  { w with nextDue := .dueNow }

def due (w : Watch) (now : ℤ) : Bool :=
  w.nextDue.notAfter now

end Watch

inductive BoundChange where
  | keep
  | wake
  | scan

def Coordinator.boundChange (s : Coordinator) : Operation → BoundChange
  | .markReconcile .. => .wake
  | .takeDueReconciles _ => .scan
  | .tryAddAdmission transferId admission =>
    if (s.tryAddAdmission transferId admission).2 then .wake else .keep
  | .completeCommitAndTakeBacklog transferId sourceActor targetSpotId =>
    if (s.completeCommitAndTakeBacklog transferId sourceActor targetSpotId).2.isSome then .wake
    else .keep
  | .failCommit transferId reconcile =>
    if reconcile ∧ (s.admissions.find transferId).isSome then .wake else .keep
  | .completeCommit transferId =>
    if (s.admissions.find transferId).isSome then .wake else .keep
  | .cleanupExpired .. => .scan
  | _ => .keep

inductive WatchOperation where
  | operation (operation : Operation)
  | nextActivity
  | activateMessageFollow (actorKey : String) (route : FollowRoute)
  | removeExpiredMessageFollow (now : ℤ)
  | removeMessageFollow (actorKey : String) (sourceFence targetFence : ℕ)

namespace Watch

variable (w : Watch)

def change (w : Watch) : BoundChange → Watch
  | .keep => w
  | .wake => w.wakeManagement
  | .scan => w.nextDueOnLane

def replaceRoute (existing route : FollowRoute) : FollowRoute :=
  { route with removeAt := max existing.removeAt route.removeAt }

def addRoute (route : FollowRoute) : List FollowRoute → List FollowRoute
  | [] => [route]
  | existing :: routes =>
    if existing.sourceFence = route.sourceFence then replaceRoute existing route :: routes
    else existing :: addRoute route routes

def activateMessageFollow (actorKey : String) (route : FollowRoute) : Watch :=
  wakeManagement
    { w with
      routes :=
        w.routes.insertOrAssign actorKey (addRoute route ((w.routes.find actorKey).getD [])) }

def removeExpiredMessageFollow (now : ℤ) : Watch :=
  nextDueOnLane
    { w with
      routes := (w.routes.mapValues fun routes => routes.filter fun r => now < r.removeAt).filter
        fun e => !e.2.isEmpty }

def removeMessageFollow (actorKey : String) (sourceFence targetFence : ℕ) : Watch :=
  match w.routes.find actorKey with
  | none => w
  | some routes =>
    let left := routes.eraseP fun r =>
      r.sourceFence = sourceFence && r.targetFence = targetFence
    { w with
      routes := if left.isEmpty then w.routes.erase actorKey
        else w.routes.insertOrAssign actorKey left }

/-- `next_activity` looks at the deadlines unless the bound says that there are none. -/
def nextActivity : Watch :=
  if w.nextDue = .neverDue then w else w.nextDueOnLane

def next : WatchOperation → Watch
  | .operation operation =>
    change { w with coordinator := w.coordinator.next operation }
      (w.coordinator.boundChange operation)
  | .nextActivity => w.nextActivity
  | .activateMessageFollow actorKey route => w.activateMessageFollow actorKey route
  | .removeExpiredMessageFollow now => w.removeExpiredMessageFollow now
  | .removeMessageFollow actorKey sourceFence targetFence =>
    w.removeMessageFollow actorKey sourceFence targetFence

def after (operations : List WatchOperation) : Watch :=
  operations.foldl next initial

end Watch

def Move.Waits (move : Move) : Prop :=
  move.phase = .targetPending ∨ move.phase = .reconcile

namespace Coordinator

variable {s t u : Coordinator} {key transferId : String} {move : Move} {d : ℤ}

inductive Awaits (s : Coordinator) (d : ℤ) : Prop where
  | pending (transferId : String) (admission : Admission) (move : Move)
      (admitted : s.admissions.find transferId = some admission)
      (moving : s.moves.find admission.actorKey = some move) (phase : move.phase = .targetPending)
      (deadline : admission.deadline = d)
  | completed (transferId : String) (admission : Admission)
      (admitted : s.completedAdmissions.find transferId = some admission)
      (deadline : admission.deadline = d)
  | reconcile (key : String) (move : Move) (moving : s.moves.find key = some move)
      (phase : move.phase = .reconcile) (deadline : move.nextReconcileAt = some d)

theorem mem_pendingDeadlines : d ∈ s.pendingDeadlines ↔ ∃ transferId admission move,
    s.admissions.find transferId = some admission ∧
      s.moves.find admission.actorKey = some move ∧ move.phase = .targetPending ∧
        admission.deadline = d := by
  simp only [pendingDeadlines, List.mem_map, List.mem_filter, Option.any_eq_true,
    decide_eq_true_eq, OrderedMap.find_eq_some_iff, Prod.exists]
  constructor
  · rintro ⟨transferId, admission, ⟨hmem, move, hmove, hphase⟩, rfl⟩
    exact ⟨transferId, admission, move, hmem, hmove, hphase, rfl⟩
  · rintro ⟨transferId, admission, move, hmem, hmove, hphase, rfl⟩
    exact ⟨transferId, admission, ⟨hmem, move, hmove, hphase⟩, rfl⟩

theorem mem_completedDeadlines : d ∈ s.completedDeadlines ↔ ∃ transferId admission,
    s.completedAdmissions.find transferId = some admission ∧ admission.deadline = d := by
  simp only [completedDeadlines, List.mem_map, OrderedMap.find_eq_some_iff, Prod.exists]

theorem mem_reconcileDeadlines : d ∈ s.reconcileDeadlines ↔ ∃ key move,
    s.moves.find key = some move ∧ move.phase = .reconcile ∧ move.nextReconcileAt = some d := by
  simp only [reconcileDeadlines, List.mem_filterMap, OrderedMap.find_eq_some_iff, Prod.exists,
    Option.ite_none_right_eq_some]

theorem awaits_iff : s.Awaits d ↔
    d ∈ s.pendingDeadlines ++ s.completedDeadlines ++ s.reconcileDeadlines := by
  rw [List.mem_append, List.mem_append, mem_pendingDeadlines, mem_completedDeadlines,
    mem_reconcileDeadlines]
  constructor
  · rintro (⟨transferId, admission, move, hadmitted, hmoving, hphase, hd⟩ |
      ⟨transferId, admission, hadmitted, hd⟩ | ⟨key, move, hmoving, hphase, hd⟩)
    · exact .inl (.inl ⟨transferId, admission, move, hadmitted, hmoving, hphase, hd⟩)
    · exact .inl (.inr ⟨transferId, admission, hadmitted, hd⟩)
    · exact .inr ⟨key, move, hmoving, hphase, hd⟩
  · rintro ((⟨transferId, admission, move, hadmitted, hmoving, hphase, hd⟩ |
      ⟨transferId, admission, hadmitted, hd⟩) | ⟨key, move, hmoving, hphase, hd⟩)
    · exact .pending transferId admission move hadmitted hmoving hphase hd
    · exact .completed transferId admission hadmitted hd
    · exact .reconcile key move hmoving hphase hd

structure Recedes (s t : Coordinator) : Prop where
  moves : ∀ key move, t.moves.find key = some move → move.Waits → s.moves.find key = some move
  admissions : ∀ transferId admission, t.admissions.find transferId = some admission →
    ∃ before, s.admissions.find transferId = some before ∧
      before.actorKey = admission.actorKey ∧ before.deadline = admission.deadline
  completed : ∀ transferId admission, t.completedAdmissions.find transferId = some admission →
    ∃ before, s.completedAdmissions.find transferId = some before ∧
      before.deadline = admission.deadline

theorem Recedes.refl (s : Coordinator) : Recedes s s :=
  ⟨fun _ _ h _ => h, fun _ admission h => ⟨admission, h, rfl, rfl⟩,
    fun _ admission h => ⟨admission, h, rfl⟩⟩

theorem Recedes.of_eq (moves : t.moves = s.moves) (admissions : t.admissions = s.admissions)
    (completed : t.completedAdmissions = s.completedAdmissions) : Recedes s t :=
  ⟨fun _ _ h _ => moves ▸ h, fun _ admission h => ⟨admission, admissions ▸ h, rfl, rfl⟩,
    fun _ admission h => ⟨admission, completed ▸ h, rfl⟩⟩

theorem Recedes.trans (h : Recedes s t) (h' : Recedes t u) : Recedes s u := by
  refine ⟨fun key move hmove hwaits => ?_, fun transferId admission hfind => ?_,
    fun transferId admission hfind => ?_⟩
  · exact h.moves key move (h'.moves key move hmove hwaits) hwaits
  · obtain ⟨between, hbetween, hkey, hd⟩ := h'.admissions transferId admission hfind
    obtain ⟨before, hbefore, hkey', hd'⟩ := h.admissions transferId between hbetween
    exact ⟨before, hbefore, hkey'.trans hkey, hd'.trans hd⟩
  · obtain ⟨between, hbetween, hd⟩ := h'.completed transferId admission hfind
    obtain ⟨before, hbefore, hd'⟩ := h.completed transferId between hbetween
    exact ⟨before, hbefore, hd'.trans hd⟩

theorem Recedes.awaits (h : Recedes s t) (hd : t.Awaits d) : s.Awaits d := by
  cases hd with
  | pending transferId admission move hadmitted hmoving hphase hdeadline =>
    obtain ⟨before, hbefore, hkey, hsame⟩ := h.admissions transferId admission hadmitted
    exact .pending transferId before move hbefore (hkey ▸ h.moves _ move hmoving (.inl hphase))
      hphase (hsame.trans hdeadline)
  | completed transferId admission hadmitted hdeadline =>
    obtain ⟨before, hbefore, hsame⟩ := h.completed transferId admission hadmitted
    exact .completed transferId before hbefore (hsame.trans hdeadline)
  | reconcile key move hmoving hphase hdeadline =>
    exact .reconcile key move (h.moves key move hmoving (.inr hphase)) hphase hdeadline

theorem recedes_eraseMove (s : Coordinator) (key : String) : Recedes s (s.eraseMove key) :=
  ⟨fun _ _ h _ => (OrderedMap.of_find_erase h).2, (Recedes.refl s).admissions, (Recedes.refl s).completed⟩

theorem recedes_eraseAdmission (s : Coordinator) (transferId : String) :
    Recedes s (s.eraseAdmission transferId) :=
  ⟨(Recedes.refl s).moves, fun _ admission h => ⟨admission, (OrderedMap.of_find_erase h).2, rfl, rfl⟩,
    (Recedes.refl s).completed⟩

theorem recedes_eraseBacklog (s : Coordinator) (key : String) : Recedes s (s.eraseBacklog key) :=
  .of_eq rfl rfl rfl

theorem recedes_setBacklog (s : Coordinator) (key : String) (packets : List Packet) :
    Recedes s (s.setBacklog key packets) :=
  .of_eq rfl rfl rfl

theorem recedes_setMove (s : Coordinator) (key : String) (hmove : ¬ move.Waits) :
    Recedes s (s.setMove key move) := by
  refine ⟨fun other found h hwaits => ?_, (Recedes.refl s).admissions, (Recedes.refl s).completed⟩
  by_cases hother : other = key
  · rw [hother, setMove, OrderedMap.find_insertOrAssign_self] at h
    exact absurd (Option.some.inj h ▸ hwaits) hmove
  · rwa [setMove, OrderedMap.find_insertOrAssign_of_ne _ _ hother] at h

theorem recedes_close (s : Coordinator) (transferId key : String) :
    Recedes s (s.close transferId key) :=
  ((recedes_eraseBacklog s key).trans (recedes_eraseMove _ key)).trans
    (recedes_eraseAdmission _ transferId)

theorem recedes_updateAdmission {change : Admission → Bool × Admission}
    (hchange : ∀ admission, (change admission).2.actorKey = admission.actorKey ∧
      (change admission).2.deadline = admission.deadline) :
    Recedes s (s.updateAdmission transferId change).1 := by
  rw [updateAdmission]
  split
  · rename_i admission hadmission
    refine ⟨(Recedes.refl s).moves, fun other found h => ?_, (Recedes.refl s).completed⟩
    by_cases hother : other = transferId
    · rw [hother, setAdmission, OrderedMap.find_insertOrAssign_self] at h
      obtain ⟨hkey, hd⟩ := hchange admission
      rw [← Option.some.inj h]
      exact ⟨admission, hother ▸ hadmission, hkey.symm, hd.symm⟩
    · rw [setAdmission, OrderedMap.find_insertOrAssign_of_ne _ _ hother] at h
      exact ⟨found, h, rfl, rfl⟩
  · split
    · rename_i admission hadmission
      refine ⟨(Recedes.refl s).moves, (Recedes.refl s).admissions, fun other found h => ?_⟩
      by_cases hother : other = transferId
      · rw [hother, OrderedMap.find_insertOrAssign_self] at h
        rw [← Option.some.inj h]
        exact ⟨admission, hother ▸ hadmission, (hchange admission).2.symm⟩
      · rw [OrderedMap.find_insertOrAssign_of_ne _ _ hother] at h
        exact ⟨found, h, rfl⟩
    · exact .refl s

theorem recedes_tryClaimSource (hmove : ¬ move.Waits) :
    Recedes s ((s.tryClaimSource key move).toOption.getD s) := by
  rw [tryClaimSource]
  split_ifs
  · exact .refl s
  · exact .refl s
  · exact recedes_setMove s key hmove

theorem recedes_tryBeginLocal (s : Coordinator) (key : String) :
    Recedes s ((s.tryBeginLocal key).toOption.getD s) := by
  rw [tryBeginLocal]
  split
  · split_ifs
    · exact .refl s
    · exact recedes_setMove s key (by simp [Move.Waits])
  · exact recedes_tryClaimSource (by simp [Move.Waits])

theorem recedes_tryBeginSourceRemote (s : Coordinator) (key transferId : String) (now : ℤ) :
    Recedes s ((s.tryBeginSourceRemote key transferId now).toOption.getD s) := by
  rw [tryBeginSourceRemote]
  split
  · split_ifs
    · exact .refl s
    · exact recedes_setMove s key (by simp [Move.Waits])
  · exact recedes_tryClaimSource (by simp [Move.Waits])

theorem recedes_cancelMove (s : Coordinator) (key expected : String) :
    Recedes s (s.cancelMove key expected).1 := by
  rw [cancelMove]
  split_ifs
  · exact .refl s
  · exact (recedes_eraseMove s key).trans (recedes_eraseBacklog _ key)

theorem recedes_completeMove (s : Coordinator) (key : String) (now : ℤ) :
    Recedes s (s.completeMove key now).1 := by
  rw [completeMove]
  split
  · exact .refl s
  · exact recedes_eraseMove s key

theorem recedes_finishMoveReplay (s : Coordinator) (key : String) (receiver : PrefixReceiver)
    (expected : String) (now : ℤ) : Recedes s (s.finishMoveReplay key receiver expected now).1 := by
  have hdrained := recedes_eraseBacklog s key
  rw [finishMoveReplay]
  split_ifs
  · exact .refl s
  · split
    · exact .refl s
    · cases receiver with
      | throws => exact hdrained
      | returns => exact hdrained.trans (recedes_eraseMove _ key)
      | absent =>
        dsimp only
        split_ifs
        · exact hdrained
        · exact hdrained.trans (recedes_eraseMove _ key)

theorem recedes_tryAppendBacklog (s : Coordinator) (key : String) (packet : Packet) :
    Recedes s (s.tryAppendBacklog key packet).1 := by
  obtain ⟨result, -, heq⟩ | ⟨-, heq⟩ := s.tryAppendBacklog_cases key packet
  · rw [heq]
    exact .refl s
  · rw [heq]
    exact recedes_setBacklog s key _

theorem recedes_stageCommitBacklog (s : Coordinator) (transferId : String)
    (batch : List Packet) : Recedes s (s.stageCommitBacklog transferId batch).1 := by
  obtain heq | ⟨admission, -, -, heq⟩ := s.stageCommitBacklog_cases transferId batch
  · rw [heq]
    exact .refl s
  · rw [heq]
    exact recedes_setBacklog s _ _

theorem recedes_admitAttempt (s : Coordinator) (key transferId : String) :
    Recedes s (s.admitAttempt key transferId).1 := by
  obtain ⟨admitted, heq⟩ | ⟨move, -, -, heq⟩ := s.admitAttempt_cases key transferId
  · rw [heq]
    exact .refl s
  · rw [heq]
    exact recedes_close s _ _

theorem recedes_beginCommit (s : Coordinator) (transferId : String) (sourceActor : ActorRef)
    (targetSpotId : String) (now : ℤ) :
    Recedes s (s.beginCommit transferId sourceActor targetSpotId now).1 := by
  obtain heq | ⟨admission, -, heq⟩ | ⟨admission, move, -, -, -, -, heq⟩ :=
    s.beginCommit_cases transferId sourceActor targetSpotId now
  · rw [heq]
    exact .refl s
  · rw [heq]
    exact recedes_close s _ _
  · rw [heq]
    exact recedes_setMove s _ (by simp [Move.Waits])

theorem tryAddAdmission_cases (s : Coordinator) (transferId : String) (admission : Admission) :
    s.tryAddAdmission transferId admission = (s, false) ∨ s.tryAddAdmission transferId admission =
      ((s.setMove admission.actorKey { phase := .targetPending, transferId }).setAdmission
        transferId admission, true) := by
  rw [tryAddAdmission]
  split_ifs
  · exact .inl rfl
  · exact .inl rfl
  · exact .inr rfl

theorem recedes_next {operation : Operation} (h : s.boundChange operation = .keep) :
    Recedes s (s.next operation) := by
  cases operation with
  | trySealMaintenanceInventory =>
    show Recedes s s.trySealMaintenanceInventory.1
    rw [trySealMaintenanceInventory]
    split_ifs <;> exact .of_eq rfl rfl rfl
  | endMaintenanceInventory => exact .of_eq rfl rfl rfl
  | tryReserveSource key transferId =>
    exact recedes_tryClaimSource (by simp [Move.Waits])
  | tryBeginLocal key => exact recedes_tryBeginLocal s key
  | tryBeginSourceRemote key transferId now => exact recedes_tryBeginSourceRemote s key _ now
  | cancelMove key expected => exact recedes_cancelMove s key expected
  | markReconcile | takeDueReconciles | cleanupExpired => cases h
  | completeMove key now => exact recedes_completeMove s key now
  | finishMoveReplay key receiver expected now =>
    exact recedes_finishMoveReplay s key receiver expected now
  | tryAppendBacklog key packet => exact recedes_tryAppendBacklog s key packet
  | admitDispatchPacket key committed submit packet =>
    cases committed with
    | true => exact .refl s
    | false => exact recedes_tryAppendBacklog s key packet
  | prependSourceSuffix key suffix =>
    show Recedes s (s.prependSourceSuffix key suffix)
    rw [prependSourceSuffix]
    split_ifs
    · exact .refl s
    · exact recedes_setBacklog s key _
  | stageCommitBacklog transferId batch => exact recedes_stageCommitBacklog s transferId batch
  | takeBacklog key => exact recedes_eraseBacklog s key
  | admitAttempt key transferId => exact recedes_admitAttempt s key transferId
  | tryAddAdmission transferId admission =>
    show Recedes s (s.tryAddAdmission transferId admission).1
    rw [boundChange] at h
    obtain heq | heq := s.tryAddAdmission_cases transferId admission
    · rw [heq]
      exact .refl s
    · rw [heq] at h
      cases h
  | beginCommit transferId sourceActor targetSpotId now =>
    exact recedes_beginCommit s transferId sourceActor targetSpotId now
  | completeCommitAndTakeBacklog transferId sourceActor targetSpotId =>
    show Recedes s (s.completeCommitAndTakeBacklog transferId sourceActor targetSpotId).1
    rw [boundChange] at h
    obtain heq | ⟨admission, -, heq⟩ :=
      s.completeCommitAndTakeBacklog_cases transferId sourceActor targetSpotId
    · rw [heq]
      exact .refl s
    · rw [heq] at h
      cases h
  | stageSessionRelocationRoute transferId route actorType generation =>
    show Recedes s (s.stageSessionRelocationRoute transferId route actorType generation).1
    rw [stageSessionRelocationRoute]
    split_ifs
    · exact .refl s
    · refine recedes_updateAdmission fun admission => ?_
      split_ifs <;> exact ⟨rfl, rfl⟩
  | commitSessionRelocationRouteAuthority transferId previous target =>
    show Recedes s (s.commitSessionRelocationRouteAuthority transferId previous target).1
    rw [commitSessionRelocationRouteAuthority]
    split_ifs
    · exact .refl s
    · refine recedes_updateAdmission fun admission => ?_
      split_ifs <;> exact ⟨rfl, rfl⟩
  | failCommit transferId reconcile =>
    show Recedes s (s.failCommit transferId reconcile).1
    rw [boundChange] at h
    rw [failCommit]
    split
    · exact .refl s
    · rename_i admission hadmission
      rw [hadmission] at h
      cases reconcile with
      | true => cases h
      | false => exact ((recedes_eraseAdmission s transferId).trans
          (recedes_eraseMove _ _)).trans (recedes_eraseBacklog _ _)
  | completeCommit transferId =>
    show Recedes s (s.completeCommit transferId)
    rw [boundChange] at h
    rw [completeCommit]
    split
    · exact .refl s
    · rename_i admission hadmission
      rw [hadmission] at h
      cases h

def Scheduled (s : Coordinator) : Prop :=
  ∀ key move, s.moves.find key = some move → move.phase = .reconcile →
    move.nextReconcileAt.isSome = true

def Schedules (s : Coordinator) : Operation → Prop
  | .failCommit transferId reconcile =>
    reconcile = true → ∀ admission, s.admissions.find transferId = some admission →
      ∃ move, s.moves.find admission.actorKey = some move ∧ move.nextReconcileAt.isSome = true
  | _ => True

theorem Recedes.scheduled (h : Recedes s t) (hs : s.Scheduled) : t.Scheduled :=
  fun key move hmove hphase => hs key move (h.moves key move hmove (.inr hphase)) hphase

theorem scheduled_setMove_iff (hs : s.Scheduled) : (s.setMove key move).Scheduled ↔
    (move.phase = .reconcile → move.nextReconcileAt.isSome = true) := by
  constructor
  · exact fun h => h key move (OrderedMap.find_insertOrAssign_self _ _ _)
  · intro h other found hfind hphase
    by_cases hother : other = key
    · rw [hother, setMove, OrderedMap.find_insertOrAssign_self] at hfind
      rw [← Option.some.inj hfind] at hphase ⊢
      exact h hphase
    · rw [setMove, OrderedMap.find_insertOrAssign_of_ne _ _ hother] at hfind
      exact hs other found hfind hphase

theorem Scheduled.of_moves (hs : s.Scheduled) (h : t.moves = s.moves) : t.Scheduled :=
  fun key move hfind => hs key move (h ▸ hfind)

theorem scheduled_takeDueReconciles (hs : s.Scheduled) (now : ℤ) :
    (s.takeDueReconciles now).1.Scheduled := by
  intro key move hfind hphase
  rw [takeDueReconciles, OrderedMap.find_mapValues] at hfind
  obtain ⟨before, hbefore, rfl⟩ := Option.map_eq_some_iff.mp hfind
  split_ifs at hphase ⊢
  · rfl
  · exact hs key before hbefore hphase

theorem recedes_expired (s : Coordinator) (now : ℤ) (entries : List (String × Admission))
    (expired : List ExpiredAdmission) : Recedes s (entries.foldl (expire now) (s, expired)).1 := by
  induction entries generalizing s expired with
  | nil => exact .refl s
  | cons entry entries ih =>
    rw [List.foldl_cons]
    obtain heq | heq := s.expire_cases now expired entry.1 entry.2
    · rw [heq]
      exact ih s expired
    · rw [heq]
      exact (recedes_close s entry.1 entry.2.actorKey).trans (ih _ _)

theorem scheduled_failCommit_iff (hs : s.Scheduled) (transferId : String) (reconcile : Bool) :
    (s.failCommit transferId reconcile).1.Scheduled ↔
      s.Schedules (.failCommit transferId reconcile) := by
  rw [failCommit, Schedules]
  cases hadmission : s.admissions.find transferId with
  | none => exact iff_of_true hs (by simp)
  | some admission =>
    have herased : (s.eraseAdmission transferId).Scheduled :=
      (recedes_eraseAdmission s transferId).scheduled hs
    cases reconcile with
    | false =>
      refine iff_of_true ?_ (by simp)
      exact (((recedes_eraseAdmission s transferId).trans (recedes_eraseMove _ _)).trans
        (recedes_eraseBacklog _ _)).scheduled hs
    | true =>
      show ((s.eraseAdmission transferId).setMove admission.actorKey _).Scheduled ↔ _
      refine (scheduled_setMove_iff herased).trans ?_
      cases hmove : s.moves.find admission.actorKey with
      | none | some => simp [hmove]

theorem scheduled_next_iff (operation : Operation) (hs : s.Scheduled) :
    (s.next operation).Scheduled ↔ s.Schedules operation := by
  cases operation with
  | failCommit transferId reconcile => exact scheduled_failCommit_iff hs transferId reconcile
  | markReconcile key bound context now =>
    refine iff_of_true ?_ trivial
    show (s.markReconcile key bound context now).Scheduled
    rw [markReconcile]
    split <;> exact (scheduled_setMove_iff hs).mpr fun _ => rfl
  | takeDueReconciles now => exact iff_of_true (scheduled_takeDueReconciles hs now) trivial
  | tryAddAdmission transferId admission =>
    refine iff_of_true ?_ trivial
    show (s.tryAddAdmission transferId admission).1.Scheduled
    obtain heq | heq := s.tryAddAdmission_cases transferId admission
    · rw [heq]
      exact hs
    · rw [heq]
      exact ((scheduled_setMove_iff hs).mpr (by intro h; cases h)).of_moves rfl
  | completeCommitAndTakeBacklog transferId sourceActor targetSpotId =>
    refine iff_of_true ?_ trivial
    show (s.completeCommitAndTakeBacklog transferId sourceActor targetSpotId).1.Scheduled
    obtain heq | ⟨admission, -, heq⟩ :=
      s.completeCommitAndTakeBacklog_cases transferId sourceActor targetSpotId
    · rw [heq]
      exact hs
    · rw [heq]
      exact ((recedes_close s transferId admission.actorKey).scheduled hs).of_moves rfl
  | completeCommit transferId =>
    refine iff_of_true ?_ trivial
    show (s.completeCommit transferId).Scheduled
    rw [completeCommit]
    split
    · exact hs
    · exact ((recedes_eraseMove s _).scheduled hs).of_moves rfl
  | cleanupExpired now candidates =>
    refine iff_of_true ?_ trivial
    exact ((recedes_expired s now s.admissions.entries []).scheduled hs).of_moves rfl
  | _ => exact iff_of_true ((recedes_next rfl).scheduled hs) trivial

end Coordinator

namespace Watch

variable {w : Watch} {d : ℤ}

inductive Awaits (w : Watch) (d : ℤ) : Prop where
  | coordinator (awaits : w.coordinator.Awaits d)
  | route (actorKey : String) (routes : List FollowRoute) (route : FollowRoute)
      (found : w.routes.find actorKey = some routes) (mem : route ∈ routes)
      (deadline : route.removeAt = d)

theorem awaits_iff : w.Awaits d ↔ d ∈ w.deadlines := by
  rw [deadlines, List.mem_append, ← Coordinator.awaits_iff, routeDeadlines]
  simp only [List.mem_flatMap, List.mem_map, Prod.exists, ← OrderedMap.find_eq_some_iff]
  constructor
  · rintro (h | ⟨actorKey, routes, route, hfound, hmem, hd⟩)
    · exact .inl h
    · exact .inr ⟨actorKey, routes, hfound, route, hmem, hd⟩
  · rintro (h | ⟨actorKey, routes, hfound, route, hmem, hd⟩)
    · exact .coordinator h
    · exact .route actorKey routes route hfound hmem hd

/-- The bound is not later than any deadline. -/
def Early (w : Watch) : Prop :=
  ∀ d, w.Awaits d → w.nextDue.notAfter d

theorem notAfter_foldl_earlier (ds : List ℤ) (bound : Bound) {d : ℤ} :
    (ds.foldl (fun next deadline => next.earlier deadline) bound).notAfter d ↔
      bound.notAfter d ∨ ∃ deadline ∈ ds, deadline ≤ d := by
  induction ds generalizing bound with
  | nil => simp
  | cons first ds ih =>
    rw [List.foldl_cons, ih, Bound.notAfter_earlier, or_assoc]
    simp

theorem early_nextDueOnLane (w : Watch) : w.nextDueOnLane.Early := by
  intro d hd
  have hmem : d ∈ w.nextDueOnLane.deadlines := awaits_iff.mp hd
  exact (notAfter_foldl_earlier w.deadlines .neverDue).mpr (.inr ⟨d, hmem, Int.le_refl d⟩)

theorem early_wakeManagement (w : Watch) : w.wakeManagement.Early :=
  fun _ _ => rfl

theorem Early.of_awaits {w' : Watch} (hw : w.Early) (hbound : w'.nextDue = w.nextDue)
    (h : ∀ d, w'.Awaits d → w.Awaits d) : w'.Early :=
  fun d hd => by
    rw [hbound]
    exact hw d (h d hd)

theorem early_operation (hw : w.Early) (operation : Operation) :
    (w.next (.operation operation)).Early := by
  rw [next]
  cases hchange : w.coordinator.boundChange operation with
  | wake => exact early_wakeManagement _
  | scan => exact early_nextDueOnLane _
  | keep =>
    refine hw.of_awaits rfl fun d hd => ?_
    cases hd with
    | coordinator hawaits =>
      exact .coordinator ((Coordinator.recedes_next hchange).awaits hawaits)
    | route actorKey routes route hfound hmem hdeadline =>
      exact .route actorKey routes route hfound hmem hdeadline

theorem early_removeMessageFollow (hw : w.Early) (actorKey : String) (sourceFence targetFence : ℕ) :
    (w.removeMessageFollow actorKey sourceFence targetFence).Early := by
  rw [removeMessageFollow]
  split
  · exact hw
  · rename_i routes hroutes
    refine hw.of_awaits rfl fun d hd => ?_
    cases hd with
    | coordinator hawaits => exact .coordinator hawaits
    | route key found route hfound hmem hdeadline =>
      dsimp only at hfound
      split_ifs at hfound
      · exact .route key found route (OrderedMap.of_find_erase hfound).2 hmem hdeadline
      · by_cases hkey : key = actorKey
        · rw [hkey, OrderedMap.find_insertOrAssign_self] at hfound
          rw [← Option.some.inj hfound] at hmem
          exact .route key routes route (hkey ▸ hroutes) (List.mem_of_mem_eraseP hmem) hdeadline
        · rw [OrderedMap.find_insertOrAssign_of_ne _ _ hkey] at hfound
          exact .route key found route hfound hmem hdeadline

theorem early_next (operation : WatchOperation) (hw : w.Early) : (w.next operation).Early := by
  cases operation with
  | operation operation => exact early_operation hw operation
  | nextActivity =>
    rw [next, nextActivity]
    split_ifs
    · exact hw
    · exact early_nextDueOnLane w
  | activateMessageFollow actorKey route => exact early_wakeManagement _
  | removeExpiredMessageFollow now => exact early_nextDueOnLane _
  | removeMessageFollow actorKey sourceFence targetFence =>
    exact early_removeMessageFollow hw actorKey sourceFence targetFence

theorem early_initial : initial.Early :=
  fun _ _ => rfl

theorem due_of_early (hw : w.Early) (hd : w.Awaits d) {now : ℤ} (hnow : d ≤ now) :
    w.due now = true :=
  Bound.notAfter_mono (hw d hd) hnow

def Schedules (w : Watch) : WatchOperation → Prop
  | .operation operation => w.coordinator.Schedules operation
  | _ => True

theorem coordinator_change (w : Watch) (change : BoundChange) :
    (w.change change).coordinator = w.coordinator := by
  cases change <;> rfl

theorem scheduled_next_iff (operation : WatchOperation) (hs : w.coordinator.Scheduled) :
    (w.next operation).coordinator.Scheduled ↔ w.Schedules operation := by
  cases operation with
  | operation operation =>
    rw [next, coordinator_change]
    exact Coordinator.scheduled_next_iff operation hs
  | nextActivity =>
    rw [next, nextActivity]
    split_ifs <;> exact iff_of_true hs trivial
  | activateMessageFollow | removeExpiredMessageFollow => exact iff_of_true hs trivial
  | removeMessageFollow =>
    rw [next, removeMessageFollow]
    split <;> exact iff_of_true hs trivial

/-- In every run the bound is not later than any deadline, so one that has passed is due. All the
moves of the reconcile phase are scheduled exactly when no commit fails into this phase whose move
is not. -/
theorem run_deadlines (operations : List WatchOperation) : (∀ done, done <+: operations →
      (∀ d, (after done).Awaits d → (after done).nextDue.notAfter d) ∧
      ∀ d now, (after done).Awaits d → d ≤ now → (after done).due now = true) ∧
    ((∀ done, done <+: operations → (after done).coordinator.Scheduled) ↔
      ∀ done operation, done ++ [operation] <+: operations → (after done).Schedules operation) := by
  have hearly (done : List WatchOperation) : (after done).Early :=
    Trace.foldl_invariant next Early (fun _ operation => early_next operation) early_initial done
  refine ⟨fun done _ => ⟨hearly done, fun d now hd => due_of_early (hearly done) hd⟩, ?_⟩
  exact Trace.forall_prefix_iff (P := fun w => w.coordinator.Scheduled) next (fun _ => True)
    (fun _ _ _ => trivial) (fun _ operation _ hs => scheduled_next_iff operation hs) trivial
    (by intro _ _ h; cases h) operations

def joinedAdmission : Admission :=
  { actorKey := "player:a", sourceActor := ⟨"a", "player", 1, "n1"⟩, targetSpotId := "spot-b",
    deadline := 9 }

/-- A commit fails into the reconcile phase. Its move blocks the dispatch and has no time at which
it is looked at again. -/
theorem run_unscheduled :
    let failed := after [.operation (.tryAddAdmission "t1" joinedAdmission),
      .operation (.beginCommit "t1" ⟨"a", "player", 1, "n1"⟩ "spot-b" 5),
      .operation (.failCommit "t1" true)]
    ¬ failed.coordinator.Scheduled ∧ failed.coordinator.blocksDispatch "player:a" = true := by
  intro failed
  have hmove : failed.coordinator.moves.find "player:a" =
      some { phase := .reconcile, transferId := "" } := by decide
  refine ⟨fun h => ?_, by decide⟩
  exact absurd (h _ _ hmove rfl) (by decide)

end Watch

end Zlink.Spots
