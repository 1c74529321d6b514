import Zlink.Lib.Trace
import Zlink.Locations.Repository

/-!
# Completing a creation

`complete_creation` of a created object and `commit` are two ways to make the row of a reservation
ready. Of a row that a reservation still stands for, every reachable repository knows that the
creation is pending: each write gives a row a version that no fence has, and only a reservation
hands out a fence with the version that it writes.

`complete_creation` leaves the pending creation in the row that it makes ready, where `commit` takes
it out, and it looks neither at the size of the payload nor at the Spot that an actor joins.
-/

namespace Zlink.Locations

open Codec (bind_eq_ok pure_eq_ok)
open Decimal
open scoped Decimal

section

variable {R D : Type} {e : Exit R} {d : D}

@[simp] theorem exitIf_eq_ok {bad : Prop} [Decidable bad] {u : Unit} :
    exitIf bad e = .ok u ↔ ¬ bad := by
  unfold exitIf
  split <;> simp [*]

@[simp] theorem exitOnNone_eq_ok {found : Option D} : exitOnNone found e = .ok d ↔ found = some d := by
  cases found <;> simp [exitOnNone]

@[simp] theorem exitOnInvalid_eq_ok {result : Except String D} :
    (exitOnInvalid result : Except (Exit R) D) = .ok d ↔ result = .ok d := by
  cases result <;> simp [exitOnInvalid, Except.mapError]

theorem exitIf_eq_error {bad : Prop} [Decidable bad] {e' : Exit R} :
    exitIf bad e = .error e' ↔ bad ∧ e = e' := by
  unfold exitIf
  split <;> simp [*]

theorem exitOnNone_eq_error {found : Option D} {e' : Exit R} :
    exitOnNone found e = .error e' ↔ found = none ∧ e = e' := by
  cases found <;> simp [exitOnNone]

theorem exitOnInvalid_ne_answer {result : Except String D} {answer : R} :
    exitOnInvalid result ≠ .error (.answer answer) := by
  cases result <;> simp [exitOnInvalid, Except.mapError]

theorem bind_eq_error {A : Type} {checks : Except (Exit R) D} {following : D → Except (Exit R) A} :
    (checks >>= following) = .error e ↔
      checks = .error e ∨ ∃ d, checks = .ok d ∧ following d = .error e := by
  cases checks <;> simp [bind, Except.bind]

end

namespace LocationRepository

variable {codecs : AuthorityCodecs} {s t u : LocationRepository} {key : Text}
  {row : AuthoritySnapshot} {r : ReservationState} {now : ℤ}

theorem conclude_cases {R D : Type} (s : LocationRepository) (checks : Except (Exit R) D)
    (write : D → LocationRepository × R) : (s.conclude checks write).1 = s ∨
      ∃ d, checks = .ok d ∧ (s.conclude checks write).1 = (write d).1 := by
  unfold conclude
  cases checks with
  | error e => exact .inl rfl
  | ok d => exact .inr ⟨d, rfl, rfl⟩

def Fresh (s t : LocationRepository) (version : Text) : Prop :=
  ∃ n, s.storeRevision < n ∧ n ≤ t.storeRevision ∧ version = decimal n

structure Moves (s t : LocationRepository) : Prop where
  revision : s.storeRevision ≤ t.storeRevision
  rows : ∀ key row, t.authorities.find key = some row →
    s.authorities.find key = some row ∨ Fresh s t row.storeVersion
  reservations : ∀ key r, t.reservations.find key = some r → s.reservations.find key = some r ∨
      ∃ r₀, s.reservations.find key = some r₀ ∧ r.fence = r₀.fence ∧
        ∀ row, t.authorities.find key = some row → Fresh s t row.storeVersion

namespace Moves

theorem of_eq (hrevision : t.storeRevision = s.storeRevision)
    (hrows : t.authorities = s.authorities) (hreservations : t.reservations = s.reservations) :
    Moves s t where
  revision := Nat.le_of_eq hrevision.symm
  rows _ _ hrow := .inl (hrows ▸ hrow)
  reservations _ _ hr := .inl (hreservations ▸ hr)

theorem refl (s : LocationRepository) : Moves s s :=
  of_eq rfl rfl rfl

theorem trans (h : Moves s t) (h' : Moves t u) : Moves s u := by
  have hfirst {version : Text} (hfresh : Fresh s t version) : Fresh s u version := by
    obtain ⟨n, hlt, hle, heq⟩ := hfresh
    exact ⟨n, hlt, Nat.le_trans hle h'.revision, heq⟩
  have hsecond {version : Text} (hfresh : Fresh t u version) : Fresh s u version := by
    obtain ⟨n, hlt, hle, heq⟩ := hfresh
    exact ⟨n, Nat.lt_of_le_of_lt h.revision hlt, hle, heq⟩
  refine ⟨Nat.le_trans h.revision h'.revision, fun key row hrow => ?_, fun key r hr => ?_⟩
  · rcases h'.rows key row hrow with hold | hfresh
    · exact (h.rows key row hold).imp_right hfirst
    · exact .inr (hsecond hfresh)
  · rcases h'.reservations key r hr with hold | ⟨r₁, hr₁, hfence₁, hlost₁⟩
    · rcases h.reservations key r hold with hsame | ⟨r₀, hr₀, hfence₀, hlost₀⟩
      · exact .inl hsame
      · refine .inr ⟨r₀, hr₀, hfence₀, fun row hrow => ?_⟩
        rcases h'.rows key row hrow with hrow | hfresh
        · exact hfirst (hlost₀ row hrow)
        · exact hsecond hfresh
    · rcases h.reservations key r₁ hr₁ with hsame | ⟨r₀, hr₀, hfence₀, -⟩
      · exact .inr ⟨r₁, hsame, hfence₁, fun row hrow => hsecond (hlost₁ row hrow)⟩
      · exact .inr ⟨r₀, hr₀, hfence₁.trans hfence₀, fun row hrow => hsecond (hlost₁ row hrow)⟩

end Moves

theorem fresh_store (key : Text) (row : AuthoritySnapshot) :
    Fresh s (s.store key row) s.nextStoreVersion :=
  ⟨s.storeRevision + 1, Nat.lt_succ_self _, Nat.le_refl _, rfl⟩

theorem find_store_self (key : Text) (row : AuthoritySnapshot) :
    (s.store key row).authorities.find key = some (s.stored row) :=
  OrderedMap.find_insertOrAssign_self _ _ _

theorem moves_store (s : LocationRepository) (key : Text) (row : AuthoritySnapshot) :
    Moves s (s.store key row) where
  revision := Nat.le_succ _
  rows k found hfound := by
    by_cases hkey : k = key
    · rw [hkey, find_store_self] at hfound
      obtain rfl := Option.some.inj hfound
      exact .inr (fresh_store key row)
    · exact .inl ((OrderedMap.find_insertOrAssign_of_ne _ _ hkey).symm.trans hfound)
  reservations k r hr := .inl hr

theorem moves_filter (s : LocationRepository) (keep : Text × AuthoritySnapshot → Bool) :
    Moves s { s with authorities := s.authorities.filter keep } where
  revision := Nat.le_refl _
  rows k found hfound := by
    rw [OrderedMap.find_filter] at hfound
    exact .inl (Option.filter_eq_some_iff.mp hfound).1
  reservations k r hr := .inl hr

theorem moves_erase (s : LocationRepository) (key : Text) : Moves s (s.erase key) :=
  s.moves_filter _

theorem Moves.store (h : Moves s t) (key : Text) (row : AuthoritySnapshot) :
    Moves s (t.store key row) :=
  h.trans (t.moves_store key row)

theorem Moves.erase (h : Moves s t) (key : Text) : Moves s (t.erase key) :=
  h.trans (t.moves_erase key)

theorem Moves.setReservation (h : Moves s t) (hr : s.reservations.find key = some r)
    {r' : ReservationState} (hfence : r'.fence = r.fence)
    (hlost : ∀ row, t.authorities.find key = some row → Fresh s t row.storeVersion) :
    Moves s (t.setReservation key r') where
  revision := h.revision
  rows := h.rows
  reservations k found hfound := by
    by_cases hkey : k = key
    · subst hkey
      rw [LocationRepository.setReservation, OrderedMap.find_insertOrAssign_self] at hfound
      obtain rfl := Option.some.inj hfound
      exact .inr ⟨r, hr, hfence, hlost⟩
    · exact h.reservations k found ((OrderedMap.find_insertOrAssign_of_ne _ _ hkey).symm.trans hfound)

theorem moves_activate (fence : ObjectReservationFence) (hr : s.reservations.find key = some r)
    (ready : AuthoritySnapshot) : Moves s (s.activate key fence r ready) := by
  have hlost : ∀ row, (s.store key ready).authorities.find key = some row →
      Fresh s (s.store key ready) row.storeVersion := by
    intro row hrow
    rw [find_store_self] at hrow
    obtain rfl := Option.some.inj hrow
    exact fresh_store key ready
  have hcommitted : Moves s ((s.store key ready).setReservation key
      { r with snapshot := s.stored ready, status := .committed }) :=
    (s.moves_store key ready).setReservation hr rfl hlost
  exact hcommitted.trans (.of_eq rfl rfl rfl)

theorem moves_withdraw (hr : s.reservations.find key = some r) : Moves s (s.withdraw key r) := by
  have herase : Moves s ((s.erase key).releasePending r) :=
    (s.moves_erase key).trans (.of_eq rfl rfl rfl)
  refine herase.setReservation hr rfl fun row hrow => ?_
  exact absurd (hrow.symm.trans (OrderedMap.find_erase_self _ _)) (by simp)

theorem moves_eraseActive (s : LocationRepository) (key : Text) : Moves s (s.eraseActive key) := by
  unfold eraseActive
  cases s.authorities.find key with
  | none => exact .refl s
  | some row =>
    have hcounters : Moves s (s.subActive row.allocation.target row.allocation.capacityBundle) :=
      .of_eq rfl rfl rfl
    exact hcounters.erase key

theorem Moves.foldl {α : Type*} {f : LocationRepository → α → LocationRepository}
    (hf : ∀ s a, Moves s (f s a)) (s : LocationRepository) (as : List α) :
    Moves s (as.foldl f s) := by
  induction as generalizing s with
  | nil => exact .refl s
  | cons a as ih => exact (hf s a).trans (ih (f s a))

theorem moves_conclude {R D : Type} {checks : Except (Exit R) D}
    {write : D → LocationRepository × R}
    (h : ∀ d, checks = .ok d → Moves s (write d).1) : Moves s (s.conclude checks write).1 := by
  rcases s.conclude_cases checks write with heq | ⟨d, hchecks, heq⟩
  · rw [heq]
    exact .refl s
  · rw [heq]
    exact h d hchecks

theorem moves_mutate (s : LocationRepository) (now : ℤ) (key : Text) (found : AuthoritySnapshot)
    (mutation : AuthorityMutation) : Moves s (s.mutate now key found mutation).1 := by
  cases mutation with
  | put | restore => exact s.moves_store key _
  | reincarnate payload =>
    have hcounters : Moves s { s with
        objectGeneration := s.objectGeneration + 1
        authorityOwnerGeneration := s.authorityOwnerGeneration + 1 } := .of_eq rfl rfl rfl
    exact hcounters.store key _
  | retarget payload target =>
    have hcounters : Moves s ({ s with
        authorityOwnerGeneration := s.authorityOwnerGeneration + 1 }.moveActive
          found.allocation.target target found.allocation.capacityBundle) := by
      unfold moveActive
      split <;> exact .of_eq rfl rfl rfl
    exact hcounters.store key _
  | delete =>
    have hrevision : Moves s ({ s with storeRevision := s.storeRevision + 1 }.subActive
        found.allocation.target found.allocation.capacityBundle) :=
      ⟨Nat.le_succ _, fun _ _ hrow => .inl hrow, fun _ _ hr => .inl hr⟩
    exact hrevision.erase key

theorem moves_compareExchangeAuthority (s : LocationRepository) (now steadyNow : ℤ)
    (key version : Text) (mutation : AuthorityMutation) :
    Moves s (s.compareExchangeAuthority codecs now steadyNow key version mutation).1 :=
  moves_conclude fun found _ => s.moves_mutate now key found mutation

theorem terminalChecks_eq_ok {operation : CreationOperationIdentity} {u : Unit} :
    s.terminalChecks now operation = .ok u ↔
      ∀ existing, s.creationTerminals.find (creationOperationKey operation) = some existing →
        existing.expiresAt ≤ now := by
  unfold terminalChecks
  cases s.creationTerminals.find (creationOperationKey operation) with
  | none | some => simp

theorem completionChecks_eq_ok {request : ObjectCompleteCreationRequest} :
    s.completionChecks now request = .ok (key, r, row) ↔
      (request.completion.terminal.terminalEnvelope.length ≤ locationRecordPayloadLimit ∧
        now < request.completion.terminal.expiresAt) ∧ (∀ existing, s.creationTerminals.find
        (creationOperationKey request.completion.terminal.operation) = some existing →
          existing.expiresAt ≤ now) ∧ objectKey request.key = .ok key ∧
      (s.reservations.find key = some r ∧ r.fence = request.fence) ∧
      s.authorities.find key = some row ∧
      row.storeVersion = request.fence.expectedStoreVersion := by
  simp [completionChecks, terminalChecks_eq_ok, pure, Except.pure, and_assoc]

theorem createdChecks_eq_ok {fence : ObjectReservationFence} {u : Unit} :
    s.createdChecks now fence r row = .ok u ↔
      ((s.directory.liveTargetDescriptor fence.target r.request.key.kind
          r.request.intent.stableType now false).isSome ∧
        capacityBundlePresent s.pendingByPlacement fence.target fence.capacityBundle = true) ∧
      issues s.storeRevision 1 = true := by
  simp [createdChecks, Option.isSome_iff_ne_none]

structure Reserves (s : LocationRepository) (object : ObjectCreationKey)
    (fence : ObjectReservationFence) (key : Text) (r : ReservationState)
    (row : AuthoritySnapshot) : Prop where
  key_eq : objectKey object = .ok key
  reservation : s.reservations.find key = some r
  fence_eq : r.fence = fence
  row_eq : s.authorities.find key = some row
  version : row.storeVersion = fence.expectedStoreVersion

theorem reserves_of_completionChecks {request : ObjectCompleteCreationRequest}
    (h : s.completionChecks now request = .ok (key, r, row)) :
    Reserves s request.key request.fence key r row := by
  obtain ⟨-, -, hkey, ⟨hr, hfence⟩, hrow, hversion⟩ := completionChecks_eq_ok.mp h
  exact ⟨hkey, hr, hfence, hrow, hversion⟩

theorem moves_completeCreation (s : LocationRepository) (now : ℤ)
    (request : ObjectCompleteCreationRequest) : Moves s (s.completeCreation now request).1 := by
  have hwithdraw (terminal : CreationTerminalPublication) :
      Moves s (s.conclude (s.completionChecks now request) fun found =>
        ((s.withdraw found.1 found.2.1).publish terminal,
          ObjectCompleteCreationResult.completed terminal.record none)).1 := by
    refine moves_conclude fun found hfound => ?_
    have hr := (reserves_of_completionChecks hfound).reservation
    exact (moves_withdraw hr).trans (.of_eq rfl rfl rfl)
  unfold completeCreation
  cases request.completion with
  | rejected terminal | failed terminal => exact hwithdraw terminal
  | created readyPayload terminal =>
    refine moves_conclude fun found hchecks => ?_
    have hfound : s.completionChecks now request = .ok found := by
      simp only [bind_eq_ok] at hchecks
      obtain ⟨found', hfound, u, -, heq⟩ := hchecks
      cases heq
      exact hfound
    have hr := (reserves_of_completionChecks hfound).reservation
    exact (moves_activate request.fence hr _).trans (.of_eq rfl rfl rfl)

theorem memberChecks_eq_ok {payload : List UInt8} {u : Unit} :
    s.memberChecks codecs now payload row = .ok u ↔ (row.allocation.objectKind = .actor →
        s.userMembershipCommitFailure codecs none (codecs.actor payload) now = .ok none) := by
  unfold memberChecks
  split
  · rename_i hactor
    simp [hactor]
  · rename_i hother
    simp [hother]

theorem commitChecks_eq_ok {deadline : ℤ} {request : ObjectCommitRequest} :
    s.commitChecks codecs now deadline request = .ok (key, r, row) ↔
      request.readyPayload.length ≤ locationRecordPayloadLimit ∧ objectKey request.key = .ok key ∧
      (s.reservations.find key = some r ∧ r.fence = request.fence) ∧
      (r.status ≠ .committed ∧ r.status ≠ .aborted) ∧ (s.authorities.find key = some row ∧
        row.storeVersion = request.fence.expectedStoreVersion) ∧
      ((s.directory.liveTargetDescriptor request.fence.target r.request.key.kind
          r.request.intent.stableType now false).isSome ∧
        capacityBundlePresent s.pendingByPlacement request.fence.target
          request.fence.capacityBundle = true) ∧ issues s.storeRevision 1 = true ∧
      (row.allocation.objectKind = .actor →
        s.userMembershipCommitFailure codecs none (codecs.actor request.readyPayload) now =
          .ok none) ∧ ¬ (deadline ≠ 0 ∧ deadline ≤ now) := by
  simp [commitChecks, memberChecks_eq_ok, Option.isSome_iff_ne_none, and_assoc, pure, Except.pure]

theorem moves_commit (s : LocationRepository) (now deadline : ℤ) (request : ObjectCommitRequest) :
    Moves s (s.commit codecs now deadline request).1 :=
  moves_conclude fun _ hchecks =>
    moves_activate request.fence (commitChecks_eq_ok.mp hchecks).2.2.1.1 _

theorem moves_abort (s : LocationRepository) (now : ℤ) (request : ObjectAbortRequest) :
    Moves s (s.abort now request).1 := by
  refine moves_conclude fun ⟨key, r⟩ hchecks => moves_withdraw ?_
  simp only [bind_eq_ok, exitOnInvalid_eq_ok, exitOnNone_eq_ok, Option.filter_eq_some_iff] at hchecks
  obtain ⟨key', -, r', ⟨hr, -⟩, -, -, -, -, -, -, heq⟩ := hchecks
  cases heq
  exact hr

theorem moves_releaseEndedReservationOnLane (s : LocationRepository) (waited : Text → Bool)
    (key : Text) (snapshot : AuthoritySnapshot) (request : Option ObjectReserveRequest) :
    Moves s (s.releaseEndedReservationOnLane codecs now waited key snapshot request).1 := by
  unfold releaseEndedReservationOnLane
  split
  · exact .refl s
  · exact moves_conclude fun members _ => Moves.foldl moves_eraseActive s _
  · refine moves_conclude fun r hchecks => moves_withdraw ?_
    simp only [releaseReservedChecks, bind_eq_ok, exitOnNone_eq_ok] at hchecks
    obtain ⟨-, -, -, -, -, -, hr⟩ := hchecks
    exact hr

theorem moves_releaseEndedReservation (s : LocationRepository) (waited : Text → Bool)
    (key version : Text) (request : Option ObjectReserveRequest) :
    Moves s (s.releaseEndedReservation codecs now waited key version request).1 := by
  unfold releaseEndedReservation
  split
  · exact .refl s
  · split
    · exact .refl s
    · exact s.moves_releaseEndedReservationOnLane waited key _ request

theorem moves_moveParticipant (now : ℤ) (request : AggregatePrepareRequest)
    (moved : LocationRepository × ℕ) (participant : AggregateParticipant) :
    Moves moved.1 (moveParticipant now request moved participant).1 := by
  unfold moveParticipant moveRow
  cases moved.1.authorities.find participant.key with
  | none => exact .refl moved.1
  | some row =>
    cases participant.newOwner with
    | false => exact moved.1.moves_store participant.key _
    | true => exact (moved.1.moves_store participant.key _).trans (.of_eq rfl rfl rfl)

theorem moves_moveParticipants (now : ℤ) (request : AggregatePrepareRequest)
    (moved : LocationRepository × ℕ) (participants : List AggregateParticipant) :
    Moves moved.1 (participants.foldl (moveParticipant now request) moved).1 := by
  induction participants generalizing moved with
  | nil => exact .refl _
  | cons participant participants ih =>
    exact (moves_moveParticipant now request moved participant).trans (ih _)

theorem moves_prepareAggregate (s : LocationRepository) (now : ℤ)
    (request : AggregatePrepareRequest) : Moves s (s.prepareAggregate codecs now request).1 :=
  moves_conclude fun _ _ => .of_eq rfl rfl rfl

theorem moves_commitAggregate (s : LocationRepository) (now : ℤ) (fence : AggregateFence) :
    Moves s (s.commitAggregate now fence).1 :=
  moves_conclude fun request _ =>
    (moves_moveParticipants now request (s, s.authorityOwnerGeneration) request.participants).trans
      (.of_eq rfl rfl rfl)

theorem moves_abortAggregate (s : LocationRepository) (fence : AggregateFence) :
    Moves s (s.abortAggregate fence).1 :=
  moves_conclude fun _ _ => .of_eq rfl rfl rfl

theorem moves_readCreationTerminal (s : LocationRepository) (now : ℤ)
    (operation : CreationOperationIdentity) : Moves s (s.readCreationTerminal now operation) := by
  unfold readCreationTerminal
  split <;> exact .of_eq rfl rfl rfl

theorem moves_releaseRow (s : LocationRepository) (e : Text × AuthoritySnapshot) :
    Moves s (s.releaseRow e) := by
  unfold releaseRow
  split <;> exact .of_eq rfl rfl rfl

theorem moves_removeAllByOwner (s : LocationRepository) (now : ℤ) (owner : OwnerToken) :
    Moves s (s.removeAllByOwner now owner) := by
  unfold removeAllByOwner
  split
  · exact .refl s
  · exact (Moves.foldl moves_releaseRow s _).trans (moves_filter _ _)

structure Sound (s : LocationRepository) : Prop where
  issued : ∀ key r, s.reservations.find key = some r →
    ∃ n ≤ s.storeRevision, r.fence.expectedStoreVersion = decimal n
  prepared : ∀ key r row, s.reservations.find key = some r → s.authorities.find key = some row →
    row.storeVersion = r.fence.expectedStoreVersion →
      r.status = .prepared ∧ row.pendingCreation.isSome

theorem sound_new (revision : ℕ) : (new revision).Sound where
  issued _ _ hr := by cases hr
  prepared _ _ _ hr := by cases hr

theorem ne_of_fresh {n : ℕ} {version : Text} (hn : n ≤ s.storeRevision)
    (h : Fresh s t version) : version ≠ decimal n := by
  obtain ⟨m, hlt, -, rfl⟩ := h
  intro heq
  rw [decimal_injective heq] at hlt
  exact Nat.not_lt_of_le hn hlt

theorem Moves.sound (h : Moves s t) (hs : s.Sound) : t.Sound where
  issued key r hr := by
    have hfence : ∃ n ≤ s.storeRevision, r.fence.expectedStoreVersion = decimal n := by
      rcases h.reservations key r hr with hold | ⟨r₀, hr₀, hfence, -⟩
      · exact hs.issued key r hold
      · rw [hfence]
        exact hs.issued key r₀ hr₀
    obtain ⟨n, hn, heq⟩ := hfence
    exact ⟨n, Nat.le_trans hn h.revision, heq⟩
  prepared key r row hr hrow hversion := by
    rcases h.reservations key r hr with hold | ⟨r₀, hr₀, hfence, hlost⟩
    · rcases h.rows key row hrow with hrow | hfresh
      · exact hs.prepared key r row hold hrow hversion
      · obtain ⟨n, hn, heq⟩ := hs.issued key r hold
        exact absurd (hversion.trans heq) (ne_of_fresh hn hfresh)
    · obtain ⟨n, hn, heq⟩ := hs.issued key r₀ hr₀
      rw [hfence] at hversion
      exact absurd (hversion.trans heq) (ne_of_fresh hn (hlost row hrow))

theorem sound_reserveNew (hs : s.Sound) (now : ℤ) (key : Text) (request : ObjectReserveRequest) :
    (s.reserveNew now key request).1.Sound := by
  unfold reserveNew
  rcases s.conclude_cases (s.reserveNewChecks now request) _ with heq | ⟨_, -, heq⟩
  · rw [heq]
    exact hs
  · rw [heq]
    refine ⟨fun k r hr => ?_, fun k r row hr hrow hversion => ?_⟩
    · by_cases hkey : k = key
      · subst hkey
        obtain rfl := Option.some.inj ((OrderedMap.find_insertOrAssign_self _ _ _).symm.trans hr)
        exact ⟨s.storeRevision + 1, Nat.le_refl _, rfl⟩
      · obtain ⟨n, hn, hfence⟩ := hs.issued k r
          ((OrderedMap.find_insertOrAssign_of_ne _ _ hkey).symm.trans hr)
        exact ⟨n, Nat.le_succ_of_le hn, hfence⟩
    · by_cases hkey : k = key
      · subst hkey
        obtain rfl := Option.some.inj ((OrderedMap.find_insertOrAssign_self _ _ _).symm.trans hr)
        obtain rfl := Option.some.inj ((OrderedMap.find_insertOrAssign_self _ _ _).symm.trans hrow)
        exact ⟨rfl, rfl⟩
      · exact hs.prepared k r row ((OrderedMap.find_insertOrAssign_of_ne _ _ hkey).symm.trans hr)
          ((OrderedMap.find_insertOrAssign_of_ne _ _ hkey).symm.trans hrow) hversion

theorem sound_reserve (hs : s.Sound) (now : ℤ) (waited : Text → Bool)
    (request : ObjectReserveRequest) : (s.reserve codecs now waited request).1.Sound := by
  unfold reserve
  split
  · exact hs
  · rename_i key _
    split
    · exact sound_reserveNew hs now key request
    · rename_i row _
      have hreleased :
          (s.releaseEndedReservationOnLane codecs now waited key row (some request)).1.Sound :=
        (s.moves_releaseEndedReservationOnLane waited key row (some request)).sound hs
      dsimp only
      split
      · exact hreleased
      · exact sound_reserveNew hreleased now key request
      · split <;> exact hreleased

theorem sound_step (hs : s.Sound) (call : RepositoryCall) : (step codecs s call).Sound := by
  cases call with
  | directory directory => exact ⟨hs.issued, hs.prepared⟩
  | compareExchangeAuthority now steadyNow key version mutation =>
    exact (s.moves_compareExchangeAuthority now steadyNow key version mutation).sound hs
  | readCreationTerminal now operation => exact (s.moves_readCreationTerminal now operation).sound hs
  | completeCreation now request => exact (s.moves_completeCreation now request).sound hs
  | releaseEndedReservation now waited key version request =>
    exact (s.moves_releaseEndedReservation waited key version request).sound hs
  | reserve now waited request => exact sound_reserve hs now waited request
  | commit now deadline request => exact (s.moves_commit now deadline request).sound hs
  | abort now request => exact (s.moves_abort now request).sound hs
  | prepareAggregate now request => exact (s.moves_prepareAggregate now request).sound hs
  | commitAggregate now fence => exact (s.moves_commitAggregate now fence).sound hs
  | abortAggregate fence => exact (s.moves_abortAggregate fence).sound hs
  | removeAllByOwner now owner => exact (s.moves_removeAllByOwner now owner).sound hs

theorem sound_run (hs : s.Sound) (calls : List RepositoryCall) : (run codecs s calls).Sound := by
  induction calls generalizing s with
  | nil => exact hs
  | cons call calls ih => exact ih (sound_step hs call)

end LocationRepository

end Zlink.Locations
