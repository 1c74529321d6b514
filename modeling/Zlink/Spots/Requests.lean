import Zlink.Spots.Backlog

/-!
# The requests in a backlog

A packet that is appended to a backlog, and each packet of a batch that is staged, must not have
the id of a request that is queued already or stands before it in the batch. A suffix that is put
back in front is not looked at. So a run keeps the requests of every backlog apart exactly when
each suffix that it puts back has new ids, each of them once.
-/

namespace Zlink.Spots

def requestIds (packets : List Packet) : List String :=
  packets.filterMap Packet.requestId

section RequestIds

variable {packet : Packet} {packets queued batch : List Packet} {id : String}

theorem requestIds_append (packets others : List Packet) :
    requestIds (packets ++ others) = requestIds packets ++ requestIds others :=
  List.filterMap_append

theorem mem_requestIds :
    id ∈ requestIds packets ↔ (packets.any fun other => other.requestId = some id) = true := by
  rw [requestIds, List.mem_filterMap, List.any_eq_true]
  simp only [decide_eq_true_eq]

theorem nodup_requestIds_of_suffix (h : packets <:+ queued) (hn : (requestIds queued).Nodup) :
    (requestIds packets).Nodup :=
  hn.sublist (h.sublist.filterMap _)

theorem nodup_requestIds_concat (hn : (requestIds queued).Nodup)
    (h : (packet.requestId.any fun id =>
      queued.any fun other => other.requestId = some id) = false) :
    (requestIds (queued ++ [packet])).Nodup := by
  rw [requestIds_append, requestIds, requestIds]
  cases hid : packet.requestId with
  | none =>
    rw [List.filterMap_cons_none hid, List.filterMap_nil, List.append_nil]
    exact hn
  | some id =>
    rw [hid, Option.any_some] at h
    rw [List.filterMap_cons_some hid, List.filterMap_nil, List.nodup_append']
    refine ⟨hn, List.nodup_singleton id, List.disjoint_singleton.mpr fun hmem => ?_⟩
    exact absurd (h.symm.trans (mem_requestIds.mp hmem)) Bool.false_ne_true

theorem nodup_of_duplicatesRequest (hn : (requestIds queued).Nodup)
    (h : Coordinator.duplicatesRequest queued batch = false) :
    (requestIds (queued ++ batch)).Nodup := by
  induction batch generalizing queued with
  | nil => rwa [List.append_nil]
  | cons packet batch ih =>
    rw [Coordinator.duplicatesRequest, Bool.or_eq_false_iff] at h
    have hbehind := ih (nodup_requestIds_concat hn h.1) h.2
    rwa [List.append_assoc] at hbehind

end RequestIds

namespace Coordinator

variable {s : Coordinator} {key transferId : String} {packets : List Packet}

def Unique (s : Coordinator) : Prop :=
  ∀ key, (requestIds (s.backlog key)).Nodup

def Distinguishes (s : Coordinator) : Operation → Prop
  | .prependSourceSuffix actorKey suffix =>
    (requestIds suffix).Nodup ∧ ∀ id ∈ requestIds suffix, id ∉ requestIds (s.backlog actorKey)
  | _ => True

/-- The traffic takes packets out of the backlogs and puts none in. -/
def Withdraws (traffic : PacketTraffic) : Prop :=
  ∀ t ∈ traffic, ∃ key packets, t = .released key packets

theorem withdraws_nil : Withdraws [] :=
  nofun

theorem withdraws_release (key : String) (packets : List Packet) :
    Withdraws (Traffic.release key packets) := by
  cases packets with
  | nil => exact withdraws_nil
  | cons packet packets =>
    intro t ht
    exact ⟨key, packet :: packets, List.mem_singleton.mp ht⟩

theorem withdraws_atAdmission (s : Coordinator) (transferId : String) (packets : List Packet) :
    Withdraws (s.atAdmission transferId fun key => Traffic.release key packets) := by
  rw [atAdmission]
  cases s.admissions.find transferId with
  | none => exact withdraws_nil
  | some admission => exact withdraws_release _ _

theorem suffix_of_withdraws {traffic : PacketTraffic} {queued left : List Packet}
    (h : Withdraws traffic) (hreplay : Traffic.replay key queued traffic = some left) :
    left <:+ queued := by
  induction traffic generalizing queued with
  | nil => exact Option.some.inj hreplay ▸ List.suffix_refl _
  | cons t traffic ih =>
    rw [Traffic.replay_cons] at hreplay
    obtain ⟨behind, hdeliver, hrest⟩ := Option.bind_eq_some_iff.mp hreplay
    obtain ⟨key', packets, rfl⟩ := h t List.mem_cons_self
    have hsuffix : behind <:+ queued := by
      rw [Traffic.deliver] at hdeliver
      split at hdeliver
      · exact ⟨packets, List.isPrefixOf?_eq_some_iff_append_eq.mp hdeliver⟩
      · exact Option.some.inj hdeliver ▸ List.suffix_refl _
    exact (ih (fun t' ht' => h t' (List.mem_cons_of_mem _ ht')) hrest).trans hsuffix

theorem unique_of_withdraws {operation : Operation} (ho : s.custody.Owned) (hs : s.Unique)
    (h : Withdraws (s.turn operation).2) : (s.next operation).Unique := fun key =>
  nodup_requestIds_of_suffix (suffix_of_withdraws h ((turn_custody ho operation).replay key))
    (hs key)

theorem backlog_setBacklog (s : Coordinator) (key : String) (packets : List Packet) :
    (s.setBacklog key packets).backlog = Function.update s.backlog key packets :=
  congrArg Custody.queue (custody_setBacklog s key packets)

theorem unique_setBacklog_iff (hs : s.Unique) :
    (s.setBacklog key packets).Unique ↔ (requestIds packets).Nodup := by
  constructor
  · intro h
    have hkey := h key
    rwa [backlog_setBacklog, Function.update_self] at hkey
  · intro h other
    rw [backlog_setBacklog]
    by_cases hother : other = key
    · rwa [hother, Function.update_self]
    · rw [Function.update_of_ne hother]
      exact hs other

theorem unique_tryAppendBacklog (hs : s.Unique) (key : String) (packet : Packet) :
    (s.tryAppendBacklog key packet).1.Unique := by
  rw [tryAppendBacklog]
  split_ifs with hblocks hduplicate
  · exact hs
  · exact hs
  · rw [Bool.not_eq_true] at hduplicate
    exact (unique_setBacklog_iff hs).mpr (nodup_requestIds_concat (hs key) hduplicate)

theorem unique_stageCommitBacklog (hs : s.Unique) (transferId : String) (batch : List Packet) :
    (s.stageCommitBacklog transferId batch).1.Unique := by
  rw [stageCommitBacklog]
  split
  · exact hs
  · rename_i admission hadmission
    dsimp only
    split
    · exact hs
    · split_ifs with hmove hduplicate
      · exact hs
      · exact hs
      · rw [Bool.not_eq_true] at hduplicate
        exact (unique_setBacklog_iff hs).mpr
          (nodup_of_duplicatesRequest (hs admission.actorKey) hduplicate)

theorem unique_prependSourceSuffix_iff (hs : s.Unique) (key : String) (suffix : List Packet) :
    (s.prependSourceSuffix key suffix).Unique ↔
      s.Distinguishes (.prependSourceSuffix key suffix) := by
  rw [prependSourceSuffix]
  split_ifs with hempty
  · rw [hempty]
    exact iff_of_true hs ⟨List.nodup_nil, fun _ h => by cases h⟩
  · rw [unique_setBacklog_iff hs, requestIds_append, List.nodup_append']
    constructor
    · exact fun h => ⟨h.1, fun id hid hqueued => h.2.2 hid hqueued⟩
    · exact fun h => ⟨h.1, hs key, fun id hid hqueued => h.2 id hid hqueued⟩

theorem unique_next_iff (operation : Operation) (ho : s.custody.Owned) (hs : s.Unique) :
    (s.next operation).Unique ↔ s.Distinguishes operation := by
  have hleaves (h : Withdraws (s.turn operation).2) : (s.next operation).Unique :=
    unique_of_withdraws ho hs h
  cases operation with
  | prependSourceSuffix key suffix => exact unique_prependSourceSuffix_iff hs key suffix
  | tryAppendBacklog key packet => exact iff_of_true (unique_tryAppendBacklog hs key packet) trivial
  | admitDispatchPacket key committed submit packet =>
    refine iff_of_true ?_ trivial
    cases committed with
    | true => exact hs
    | false => exact unique_tryAppendBacklog hs key packet
  | stageCommitBacklog transferId batch =>
    exact iff_of_true (unique_stageCommitBacklog hs transferId batch) trivial
  | cancelMove | finishMoveReplay | takeBacklog | admitAttempt =>
    exact iff_of_true (hleaves (withdraws_release _ _)) trivial
  | beginCommit | completeCommitAndTakeBacklog | failCommit =>
    exact iff_of_true (hleaves (withdraws_atAdmission s _ _)) trivial
  | cleanupExpired now candidates =>
    refine iff_of_true (hleaves fun t ht => ?_) trivial
    obtain ⟨e, -, hrelease⟩ := List.mem_flatMap.mp ht
    exact withdraws_release _ _ t hrelease
  | _ => exact iff_of_true (hleaves withdraws_nil) trivial

theorem tryAppendBacklog_refused {packet : Packet}
    (h : (s.tryAppendBacklog key packet).2 ≠ .appended) :
    (s.tryAppendBacklog key packet).1 = s := by
  obtain ⟨result, -, heq⟩ | ⟨-, heq⟩ := s.tryAppendBacklog_cases key packet
  · rw [heq]
  · rw [heq] at h
    exact absurd rfl h

theorem admitDispatchPacket_refused {committed : Bool} {submit : Option Bool} {packet : Packet}
    (h : (s.admitDispatchPacket key committed submit packet).2.appendResult ≠ .appended) :
    (s.admitDispatchPacket key committed submit packet).1 = s := by
  cases committed with
  | true => rfl
  | false => exact tryAppendBacklog_refused h

theorem stageCommitBacklog_refused {batch : List Packet}
    (h : (s.stageCommitBacklog transferId batch).2 = false) :
    (s.stageCommitBacklog transferId batch).1 = s := by
  obtain heq | ⟨admission, -, -, heq⟩ := s.stageCommitBacklog_cases transferId batch
  · rw [heq]
  · rw [heq] at h
    cases h

theorem stageCommitBacklog_accepted {batch : List Packet}
    (h : (s.stageCommitBacklog transferId batch).2 = true) :
    ∃ admission, s.admissions.find transferId = some admission ∧
      (s.stageCommitBacklog transferId batch).1 =
        s.setBacklog admission.actorKey (s.backlog admission.actorKey ++ batch) ∧
      (s.stageCommitBacklog transferId batch).1.backlog =
        Function.update s.backlog admission.actorKey (s.backlog admission.actorKey ++ batch) := by
  obtain heq | ⟨admission, hadmission, -, heq⟩ := s.stageCommitBacklog_cases transferId batch
  · rw [heq] at h
    cases h
  · rw [heq]
    exact ⟨admission, hadmission, rfl, backlog_setBacklog s _ _⟩

/-- A run keeps the requests of every backlog apart exactly when every suffix that it puts back
has new ids. Whatever it refuses changes nothing, and a batch that it accepts is appended whole. -/
theorem run_requests (operations : List Operation) :
    ((∀ done, done <+: operations → (after done).Unique) ↔
      ∀ done operation, done ++ [operation] <+: operations → (after done).Distinguishes operation) ∧
    ∀ done, done <+: operations →
      (∀ key packet, ((after done).tryAppendBacklog key packet).2 ≠ .appended →
        ((after done).tryAppendBacklog key packet).1 = after done) ∧ (∀ key committed submit packet,
        ((after done).admitDispatchPacket key committed submit packet).2.appendResult ≠ .appended →
        ((after done).admitDispatchPacket key committed submit packet).1 = after done) ∧
      (∀ transferId batch, ((after done).stageCommitBacklog transferId batch).2 = false →
        ((after done).stageCommitBacklog transferId batch).1 = after done) ∧
      ∀ transferId batch, ((after done).stageCommitBacklog transferId batch).2 = true →
        ∃ admission, (after done).admissions.find transferId = some admission ∧
          ((after done).stageCommitBacklog transferId batch).1 =
            (after done).setBacklog admission.actorKey
              ((after done).backlog admission.actorKey ++ batch) ∧
          ((after done).stageCommitBacklog transferId batch).1.backlog =
            Function.update (after done).backlog admission.actorKey
              ((after done).backlog admission.actorKey ++ batch) := by
  refine ⟨?_, fun done _ => ⟨?_, ?_, ?_, ?_⟩⟩
  · exact Trace.forall_prefix_iff next (fun s => s.custody.Owned) (fun _ => owned_next)
      (fun _ => unique_next_iff) owned_initial (fun _ => List.nodup_nil) operations
  · exact fun key packet => tryAppendBacklog_refused
  · exact fun key committed submit packet => admitDispatchPacket_refused
  · exact fun transferId batch => stageCommitBacklog_refused
  · exact fun transferId batch => stageCommitBacklog_accepted

def joinRequest : Packet :=
  { chatPacket with
    packetName := "join"
    metadata := OrderedMap.empty.insertOrAssign actorRequestIdKey "r1"
    isRequest := true }

/-- A request is taken out of the backlog, its retry is queued, and the request is put back. -/
theorem run_duplicates_request :
    ¬ (after [.tryBeginLocal "player:a", .tryAppendBacklog "player:a" joinRequest,
      .takeBacklog "player:a", .tryAppendBacklog "player:a" joinRequest,
      .prependSourceSuffix "player:a" [joinRequest]]).Unique := by
  intro h
  exact absurd (h "player:a") (by decide)

end Coordinator

end Zlink.Spots
