import Zlink.Spots.Turns

/-!
# The packets of an Actor that moves

Every packet that is put into a backlog leaves it once and from the front, or is still there.
A run leaves packets behind for an Actor without a move exactly when one of its operations
does: a move that is completed without a look at its backlog, a commit that is, or a suffix
that is put back after the move has ended.
-/

namespace Zlink.Spots.Coordinator

variable {s : Coordinator}

def Settled (s : Coordinator) : Prop :=
  ∀ key, s.moves.find key = none → s.backlog key = []

theorem settled_iff : s.Settled ↔ s.custody.Settled :=
  forall_congr' fun _ => imp_congr_left tenure_eq_free_iff.symm

theorem settled_next_iff (operation : Operation) (ho : s.custody.Owned) (hs : s.Settled) :
    (s.next operation).Settled ↔ s.Settles operation :=
  settled_iff.trans ((turn_custody ho operation).settled (settled_iff.mp hs))

theorem replay_trafficFrom (operations : List Operation) (ho : s.custody.Owned) (key : String) :
    Traffic.replay key (s.backlog key) (s.trafficFrom operations) =
      some ((operations.foldl next s).backlog key) := by
  induction operations generalizing s with
  | nil => rfl
  | cons operation operations ih =>
    have hfirst : Traffic.replay key (s.backlog key) (s.turn operation).2 =
        some ((s.next operation).backlog key) := (turn_custody ho operation).replay key
    rw [trafficFrom, Traffic.replay_append hfirst]
    exact ih (owned_next operation ho)

theorem backlog_of_begun {operation : Operation} {key : String} (ho : s.custody.Owned)
    (hnone : s.moves.find key = none) (hsome : (s.next operation).moves.find key ≠ none) :
    (s.next operation).backlog key = s.backlog key :=
  (turn_custody ho operation).taken key (tenure_of_find_none hnone)
    fun hfree => hsome (tenure_eq_free_iff.mp hfree)

/-- In every run each packet that entered a backlog has left it once or is still in it, in
order where nothing is put in front, and no Actor without a move has a backlog as long as
every operation settles what it ends. -/
theorem run_backlog (operations : List Operation) :
    (∀ key, Traffic.replay key [] (traffic operations) = some ((after operations).backlog key)) ∧
    (∀ key, (Traffic.entered key (traffic operations)).Perm
      (Traffic.left key (traffic operations) ++ (after operations).backlog key)) ∧
    (∀ key, (∀ packets, .prepended key packets ∉ traffic operations) →
      Traffic.entered key (traffic operations) =
        Traffic.left key (traffic operations) ++ (after operations).backlog key) ∧
    ((∀ done, done <+: operations → (after done).Settled) ↔
      ∀ done operation, done ++ [operation] <+: operations → (after done).Settles operation) ∧
    ((∀ done operation, done ++ [operation] <+: operations → (after done).Settles operation) →
      ∀ done operation key, done ++ [operation] <+: operations →
        (after done).moves.find key = none → (after (done ++ [operation])).moves.find key ≠ none →
          (after (done ++ [operation])).backlog key = []) := by
  have hreplay (key : String) : Traffic.replay key [] (traffic operations) =
      some ((after operations).backlog key) :=
    replay_trafficFrom operations owned_initial key
  have hsettled : (∀ done, done <+: operations → (after done).Settled) ↔
      ∀ done operation, done ++ [operation] <+: operations → (after done).Settles operation :=
    Trace.forall_prefix_iff next (fun s => s.custody.Owned) (fun _ => owned_next)
      (fun _ => settled_next_iff) owned_initial (fun _ _ => rfl) operations
  refine ⟨hreplay, fun key => Traffic.perm_of_replay (hreplay key),
    fun key => Traffic.fifo_of_replay (hreplay key), hsettled, ?_⟩
  intro hsettles done operation key hdone hnone hsome
  have hempty := hsettled.mpr hsettles done ((List.prefix_append done _).trans hdone) key hnone
  rw [after_append_singleton] at hsome ⊢
  exact (backlog_of_begun (owned_after done) hnone hsome).trans hempty

def chatPacket : Packet :=
  ⟨"chat", [⟨7, by decide⟩], "application/json", .empty, false, none⟩

/-- A move is completed over a packet that waits. No move is left, the packet is, and the next
move of the Actor inherits it. The same holds of a suffix that is put back when its move has
been cancelled. -/
theorem run_strands_packets :
    let completed := after [.tryBeginSourceRemote "player:a" "t1" 0,
      .tryAppendBacklog "player:a" chatPacket, .completeMove "player:a" 5]
    let restored := after [.tryBeginSourceRemote "player:a" "t1" 0,
      .tryAppendBacklog "player:a" chatPacket, .takeBacklog "player:a",
      .cancelMove "player:a" "", .prependSourceSuffix "player:a" [chatPacket]]
    ¬ completed.Settled ∧ ¬ restored.Settled ∧
      ((completed.next (.tryBeginLocal "player:a")).takeBacklog "player:a").2 = [chatPacket] := by
  intro completed restored
  have hcompleted : completed.moves.find "player:a" = none ∧
      completed.backlog "player:a" ≠ [] := by decide
  have hrestored : restored.moves.find "player:a" = none ∧
      restored.backlog "player:a" ≠ [] := by decide
  exact ⟨fun h => hcompleted.2 (h _ hcompleted.1), fun h => hrestored.2 (h _ hrestored.1),
    by decide⟩

end Zlink.Spots.Coordinator
