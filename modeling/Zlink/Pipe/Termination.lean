import Zlink.Pipe.Handshake
import Mathlib.Tactic

/-!
# Both ends take leave once

What an end has sent, and what it has processed, can be read off its state. The
invariant says that what one end has sent is what the other has processed, followed by
what lies in the mailbox between them. That no assertion fails, that nothing is
acknowledged twice and that both ends finish follows from it, with the count of the
delimiters: a reader that has not asked for termination itself finds exactly one.
-/

namespace Zlink

open Protocol

namespace Pipe

namespace Handshake

@[simp] theorem Side.peer_peer (s : Side) : s.peer.peer = s := by
  cases s <;> rfl

theorem Side.peer_ne (s : Side) : s.peer ≠ s := by
  cases s <;> decide

theorem Side.eq_peer_of_ne {s t : Side} (h : t ≠ s) : t = s.peer := by
  cases t <;> cases s <;> first | rfl | exact absurd rfl h

namespace Endpoint

def sent (e : Endpoint) : List Command :=
  match e.state with
  | .active | .delimiterReceived | .waitingForDelimiter => []
  | .termAckSent => [.pipeTermAck]
  | .termReqSent1 =>
    if e.finished = 0 then [.pipeTerm] else [.pipeTerm, .pipeTermAck]
  | .termReqSent2 => [.pipeTerm, .pipeTermAck]

def processed (e : Endpoint) : List Command :=
  (match e.state with
    | .waitingForDelimiter | .termAckSent | .termReqSent2 => [.pipeTerm]
    | _ => []) ++
  if e.finished = 0 then [] else [.pipeTermAck]

def delimiters (e : Endpoint) : ℕ :=
  e.unread.countP Frame.isDelimiter + e.delimiterRead.toNat +
    (decide (e.state = .delimiterReceived)).toNat

/-- What is left to do for an end: commands to process, frames to read, a delimiter to
write or to process, and to finish. -/
def weight (e : Endpoint) : ℕ :=
  2 * (decide (e.finished = 0)).toNat + e.mailbox.length + e.mailbox.count .pipeTerm +
    4 * e.locked.toNat + 3 * e.unread.length + 2 * e.delimiterRead.toNat

/-- The end has still to write its delimiter. -/
def owes (e : Endpoint) : Bool :=
  e.locked || decide (e.state = .active) || decide (e.state = .delimiterReceived)

variable {e : Endpoint}

theorem processed_of_finished (h : e.finished ≠ 0) : .pipeTermAck ∈ e.processed := by
  simp [processed, h]

theorem processed_ne_nil (h : .pipeTermAck ∈ e.sent) : e.processed ≠ [] := by
  unfold sent at h
  unfold processed
  split at h
  · simp at h
  · simp at h
  · simp at h
  · simp [*]
  · split at h
    · simp at h
    · simp [*]
  · simp [*]

theorem sent_cases (e : Endpoint) : e.sent = [] ∨ e.sent = [.pipeTermAck] ∨ e.sent = [.pipeTerm] ∨
      e.sent = [.pipeTerm, .pipeTermAck] := by
  unfold sent
  split
  · simp
  · simp
  · simp
  · simp
  · split <;> simp
  · simp

theorem processed_cases (e : Endpoint) :
    e.processed = [] ∨ e.processed = [.pipeTermAck] ∨ e.processed = [.pipeTerm] ∨
      e.processed = [.pipeTerm, .pipeTermAck] := by
  unfold processed
  split <;> split <;> simp

theorem state_of_sent (h : e.sent = [.pipeTermAck]) : e.state = .termAckSent := by
  unfold sent at h
  split at h
  · cases h
  · cases h
  · cases h
  · assumption
  · split at h <;> cases h
  · cases h

end Endpoint

structure Agree (a b : Endpoint) : Prop where
  traffic : a.sent = b.processed ++ b.mailbox
  acks : a.termAcks = a.sent.count .pipeTermAck
  once : a.finished ≤ 1
  leaving : a.finished ≠ 0 → a.sent ≠ []
  linked : a.linked = decide (a.finished = 0 ∧ b.finished = 0)
  outOpen : a.outOpen = decide (.pipeTermAck ∉ a.sent)
  asked : a.asked = true → a.state ≠ .active ∧ a.state ≠ .delimiterReceived
  locked : a.locked = true → a.asked = true
  taken : b.taken ≤ b.inPipe.flushed.length
  opened : b.inPipe.opened.countP Frame.isDelimiter = 0
  delimiter : b.sent = [] → b.delimiters + a.owes.toNat = 1
  flushed : b.sent = [] → a.owes = false → b.inPipe.complete = []

namespace Agree

variable {a b : Endpoint}

theorem finished_eq_zero (h : Agree a b) (hack : .pipeTermAck ∉ a.sent) : b.finished = 0 := by
  by_contra hne
  apply hack
  rw [h.traffic]
  exact List.mem_append_left _ (Endpoint.processed_of_finished hne)

theorem sent_ne_nil (h : Agree a b) (hne : b.processed ≠ []) : a.sent ≠ [] := by
  rw [h.traffic]
  exact List.append_ne_nil_of_left_ne_nil hne _

theorem listen (h : Agree a b) (hsent : a.sent = []) {st : LifecycleState}
    {ms : List Command} {r : Bool} (hst : ({ a with state := st } : Endpoint).sent = [])
    (hasked : a.asked = true → st ≠ .active ∧ st ≠ .delimiterReceived)
    (howes : b.sent = [] → ({ a with state := st } : Endpoint).owes = a.owes) :
    Agree { a with state := st, mailbox := ms, delimiterRead := r } b where
  traffic := hst.trans (hsent.symm.trans h.traffic)
  acks := h.acks.trans (congrArg _ (hsent.trans hst.symm))
  once := h.once
  leaving hne _ := h.leaving hne hsent
  linked := h.linked
  outOpen := h.outOpen.trans (by rw [hsent, ← hst]; rfl)
  asked := hasked
  locked := h.locked
  taken := h.taken
  opened := h.opened
  delimiter hnil := (congrArg _ (congrArg _ (howes hnil))).trans (h.delimiter hnil)
  flushed hnil hfree := h.flushed hnil ((howes hnil).symm.trans hfree)

end Agree

def Ends.weight (x : Ends) : ℕ :=
  x.me.weight + x.peer.weight

structure Ends.Ok (x : Ends) : Prop where
  out : Agree x.me x.peer
  back : Agree x.peer x.me

structure Ends.Advances (x y : Ends) : Prop where
  ok : y.Ok
  lighter : y.weight < x.weight
  asked : y.me.asked = x.me.asked
  peerAsked : y.peer.asked = x.peer.asked

def Pair.Ok (x : Pair) : Prop :=
  ∀ s, (x.ends s).Ok

theorem Pair.ofEnds_ok {s : Side} {x : Ends} (h : x.Ok) : (Pair.ofEnds s x).Ok := by
  intro t
  by_cases ht : t = s
  · subst ht
    simpa [Pair.ends, Pair.ofEnds, t.peer_ne] using h
  · have hs : t.peer = s := (Side.eq_peer_of_ne (Ne.symm ht)).symm
    have hx : Pair.ends (Pair.ofEnds s x) t = { me := x.peer, peer := x.me } := by
      simp [Pair.ends, Pair.ofEnds, ht, hs]
    rw [hx]
    exact ⟨h.back, h.out⟩

theorem Pair.init_ok (delay : Side → Bool) : (Pair.init delay).Ok := by
  intro s
  have h (d d' : Bool) : Agree (Endpoint.init d) (Endpoint.init d') := by
    constructor <;> simp [Endpoint.init, Endpoint.sent, Endpoint.processed,
      Endpoint.delimiters, Endpoint.owes, Endpoint.unread, OutPipe.empty,
      OutPipe.committed]
  exact ⟨h _ _, h _ _⟩

namespace Ends

variable {x y : Ends}

theorem Ok.linked (h : x.Ok) (hfin : x.me.finished = 0)
    (hack : .pipeTermAck ∉ x.me.sent) : x.me.linked = true := by
  rw [h.out.linked]
  exact decide_eq_true ⟨hfin, h.out.finished_eq_zero hack⟩

theorem send_eq (hlink : x.me.linked = true) (hfin : x.peer.finished = 0) (c : Command) :
    x.send c = some { x with peer := { x.peer with mailbox := x.peer.mailbox ++ [c] } } := by
  simp [send, hlink, hfin]

variable {n : ℕ} {d k l : Bool} {q : OutPipe}

theorem Ok.acknowledge (h : x.Ok) (hfin : x.me.finished = 0) {st : LifecycleState} {ms : List Command}
    {r : Bool}
    (hst : st = .termAckSent ∨ st = .termReqSent2)
    (hsent : ({ x.me with state := st } : Endpoint).sent = x.me.sent ++ [.pipeTermAck])
    (hproc : ({ x.me with state := st } : Endpoint).processed ++ ms =
      x.me.processed ++ x.me.mailbox)
    (hn : n ≤ x.me.inPipe.flushed.length) (hk : l = true → k = true)
    (hq : q.flushed = x.peer.inPipe.flushed)
    (hopen : q.opened.countP Frame.isDelimiter = 0) :
    Ends.Ok
      { me := { x.me with
          state := st, outOpen := false, termAcks := x.me.termAcks + 1,
          mailbox := ms, taken := n, delay := d, locked := l, asked := k,
          delimiterRead := r }
        peer := { x.peer with
          mailbox := x.peer.mailbox ++ [.pipeTermAck], inPipe := q } } := by
  have hpeer : x.peer.sent ≠ [] := by
    rw [h.back.traffic, ← hproc]
    rcases hst with rfl | rfl <;> simp [Endpoint.processed]
  have hstate : st ≠ .active ∧ st ≠ .delimiterReceived := by
    rcases hst with rfl | rfl <;> decide
  constructor
  · constructor
    · calc
        _ = x.me.sent ++ [.pipeTermAck] := hsent
        _ = x.peer.processed ++ (x.peer.mailbox ++ [.pipeTermAck]) := by
            rw [h.out.traffic, List.append_assoc]
    · calc
        _ = x.me.sent.count Command.pipeTermAck + 1 := congrArg Nat.succ h.out.acks
        _ = (x.me.sent ++ [Command.pipeTermAck]).count Command.pipeTermAck := by simp
        _ = _ := congrArg _ hsent.symm
    · exact h.out.once
    · exact fun hne => absurd hfin hne
    · exact h.out.linked
    · have hmem : .pipeTermAck ∈ ({ x.me with state := st } : Endpoint).sent := by
        rw [hsent]
        simp
      exact (decide_eq_false (not_not_intro hmem)).symm
    · exact fun _ => hstate
    · exact hk
    · exact hq ▸ h.out.taken
    · exact hopen
    all_goals exact fun hnil => absurd hnil hpeer
  · constructor
    · exact h.back.traffic.trans hproc.symm
    · exact h.back.acks
    · exact h.back.once
    · exact h.back.leaving
    · exact h.back.linked
    · exact h.back.outOpen
    · exact h.back.asked
    · exact h.back.locked
    · exact hn
    · exact h.back.opened
    all_goals
      intro hnil
      exact absurd (hsent.symm.trans hnil) (List.append_ne_nil_of_right_ne_nil _ (by simp))

/-- What an end that has not asked for termination, and has not answered, may still
send. -/
theorem Ok.silent (h : x.Ok) (hsent : x.me.sent = []) :
    x.me.finished = 0 ∧ x.me.linked = true ∧ x.peer.finished = 0 ∧ x.me.outOpen = true := by
  have hack : .pipeTermAck ∉ x.me.sent := by simp [hsent]
  have hfin : x.me.finished = 0 := by
    by_contra hne
    exact h.out.leaving hne hsent
  refine ⟨hfin, h.linked hfin hack, h.out.finished_eq_zero hack, ?_⟩
  rw [h.out.outOpen]
  exact decide_eq_true hack

theorem concludeWaiting_eq (hlink : x.me.linked = true) (hfin : x.peer.finished = 0)
    (hout : x.me.outOpen = true) :
    x.concludeWaiting = some
      { me := { x.me with
          state := .termAckSent, outOpen := false, termAcks := x.me.termAcks + 1 }
        peer := { x.peer with
          mailbox := x.peer.mailbox ++ [.pipeTermAck]
          inPipe := x.peer.inPipe.unwriteAll } } := by
  simp [concludeWaiting, rollback, hout, closeOut, sendPipeTermAck, send, hlink, hfin,
    transitionToInactiveState]

theorem Ok.concludeWaiting (h : x.Ok) (hst : x.me.state = .waitingForDelimiter)
    {r : Bool} (hk : l = true → k = true) :
    Ends.Ok
      { me := { x.me with
          state := .termAckSent, outOpen := false, termAcks := x.me.termAcks + 1
          delay := d, locked := l, asked := k, delimiterRead := r }
        peer := { x.peer with
          mailbox := x.peer.mailbox ++ [.pipeTermAck]
          inPipe := x.peer.inPipe.unwriteAll } } := by
  have hsent : x.me.sent = [] := by simp [Endpoint.sent, hst]
  apply h.acknowledge (h.silent hsent).1 (.inl rfl)
  · rw [hsent]
    rfl
  · simp [Endpoint.processed, hst]
  · exact h.back.taken
  · exact hk
  · rfl
  · rfl

variable {cs : List Command}

/-- A first command `pipe_term` is the first one of all. -/
theorem Ok.pipeTerm_head (h : x.Ok) (hbox : x.me.mailbox = .pipeTerm :: cs) :
    x.me.processed = [] ∧ x.me.finished = 0 := by
  have htraffic := h.back.traffic
  rw [hbox] at htraffic
  have hproc : x.me.processed = [] := by
    rcases x.peer.sent_cases with hs | hs | hs | hs <;>
      rcases x.me.processed_cases with hp | hp | hp | hp <;>
      simp [hs, hp] at htraffic ⊢
  refine ⟨hproc, ?_⟩
  by_contra hne
  exact absurd (Endpoint.processed_of_finished hne) (by simp [hproc])

theorem Ok.pipeTermAck_head (h : x.Ok)
    (hbox : x.me.mailbox = .pipeTermAck :: cs) : cs = [] ∧ x.me.finished = 0 ∧
      (x.me.state = .termReqSent1 ∧ x.peer.state = .termAckSent ∨
        x.me.state = .termAckSent ∨ x.me.state = .termReqSent2) := by
  have htraffic := h.back.traffic
  rw [hbox] at htraffic
  have hpeer : x.peer.processed ≠ [] := by
    apply Endpoint.processed_ne_nil
    rw [htraffic]
    simp
  have hsent := h.out.sent_ne_nil hpeer
  have hfin : x.me.finished = 0 ∧ cs = [] := by
    rcases x.peer.sent_cases with hs | hs | hs | hs <;>
      by_cases hf : x.me.finished = 0 <;>
      cases hst : x.me.state <;>
      simp [hs, Endpoint.processed, hf, hst] at htraffic ⊢ <;> exact htraffic
  refine ⟨hfin.2, hfin.1, ?_⟩
  cases hst : x.me.state with
  | active | delimiterReceived | waitingForDelimiter => simp [Endpoint.sent, hst] at hsent
  | termAckSent => exact .inr (.inl rfl)
  | termReqSent2 => exact .inr (.inr rfl)
  | termReqSent1 =>
    refine .inl ⟨rfl, ?_⟩
    have hs : x.peer.sent = [.pipeTermAck] := by
      simp [htraffic, Endpoint.processed, hst, hfin]
    exact Endpoint.state_of_sent hs

theorem acknowledgePeerTermination_eq (hlink : x.me.linked = true)
    (hfin : x.peer.finished = 0) (st : LifecycleState) : x.acknowledgePeerTermination st = some
      { me := { x.me with state := st, outOpen := false, termAcks := x.me.termAcks + 1 }
        peer := { x.peer with mailbox := x.peer.mailbox ++ [.pipeTermAck] } } := by
  simp [acknowledgePeerTermination, sendPipeTermAck, send, transitionToInactiveState,
    closeOut, hlink, hfin]

theorem consumeDelimiter_eq (h : x.me.taken ≤ x.me.inPipe.flushed.length) :
    ∃ (pending : Bool) (n : ℕ),
      x.consumeDelimiter = (pending, { x with me := { x.me with taken := n } }) ∧
      (pending = true → n = x.me.taken) ∧ x.me.taken ≤ n ∧ n ≤ x.me.inPipe.flushed.length := by
  unfold consumeDelimiter
  split
  · exact ⟨false, x.me.taken, rfl, by simp, le_rfl, h⟩
  · rename_i hhead
    have hlt := (List.getElem?_eq_some_iff.mp hhead).1
    exact ⟨false, x.me.taken + 1, rfl, by simp, Nat.le_succ _, hlt⟩
  · exact ⟨true, x.me.taken, rfl, by simp, le_rfl, h⟩

theorem unread_length_le {e : Endpoint} (h : e.taken ≤ n) :
    ({ e with taken := n } : Endpoint).unread.length ≤ e.unread.length := by
  simp only [Endpoint.unread, List.length_drop]
  exact Nat.sub_le_sub_left h _

/-- The answer to `pipe_term`. -/
theorem Ok.answer (h : x.Ok) (hbox : x.me.mailbox = .pipeTerm :: cs) {st : LifecycleState}
    (hst : x.me.state = .termReqSent1 ∧ st = .termReqSent2 ∨ x.me.sent = [] ∧ st = .termAckSent)
    (hle : x.me.taken ≤ n) (hn : n ≤ x.me.inPipe.flushed.length) :
    let y : Ends :=
      { me := { x.me with
          state := st, outOpen := false, termAcks := x.me.termAcks + 1,
          mailbox := cs, taken := n }
        peer := { x.peer with mailbox := x.peer.mailbox ++ [.pipeTermAck] } }
    x.Advances y := by
  obtain ⟨hproc, hfin⟩ := h.pipeTerm_head hbox
  refine ⟨?_, ?_, rfl, rfl⟩
  · apply h.acknowledge hfin
    · exact hst.symm.imp And.right And.right
    · rcases hst with ⟨hst, rfl⟩ | ⟨hsent, rfl⟩
      · simp [Endpoint.sent, hst, hfin]
      · rw [hsent]
        rfl
    · rw [hproc, hbox]
      rcases hst with ⟨-, rfl⟩ | ⟨-, rfl⟩ <;> simp [Endpoint.processed, hfin]
    · exact hn
    · exact h.out.locked
    · rfl
    · exact h.out.opened
  · have hlen := unread_length_le (e := x.me) hle
    simp only [weight, Endpoint.weight, hbox, Endpoint.unread, List.length_cons,
      List.length_append, List.count_append, List.count_cons_self] at hlen ⊢
    simp
    omega

theorem Ok.wait (h : x.Ok) (hbox : x.me.mailbox = .pipeTerm :: cs) (hst : x.me.state = .active) :
    let y : Ends :=
      { x with me := { x.me with state := .waitingForDelimiter, mailbox := cs } }
    x.Advances y := by
  obtain ⟨hproc, hfin⟩ := h.pipeTerm_head hbox
  have hpeer : x.peer.sent = .pipeTerm :: cs := by
    rw [h.back.traffic, hproc, hbox]
    rfl
  have hsent : x.me.sent = [] := by simp [Endpoint.sent, hst]
  refine ⟨?_, ?_, rfl, rfl⟩
  · constructor
    · exact h.out.listen hsent rfl (fun _ => by decide)
        (fun hnil => absurd (hpeer.symm.trans hnil) (by simp))
    · exact { h.back with
        traffic := hpeer.trans (by simp [Endpoint.processed, hfin])
        delimiter := fun _ => by
          simpa [Endpoint.delimiters, hst, Endpoint.unread] using h.back.delimiter hsent
        flushed := fun _ => h.back.flushed hsent }
  · simp only [weight, Endpoint.weight, hbox, Endpoint.unread, List.length_cons,
      List.count_cons_self]
    omega

theorem processPipeTerm_spec (h : x.Ok) (hbox : x.me.mailbox = .pipeTerm :: cs) :
    ∃ y, ({ x with me := { x.me with mailbox := cs } } : Ends).processPipeTerm = some y ∧
      x.Advances y := by
  obtain ⟨hproc, hfin⟩ := h.pipeTerm_head hbox
  cases hst : x.me.state with
  | waitingForDelimiter | termAckSent | termReqSent2 => simp [Endpoint.processed, hst] at hproc
  | delimiterReceived =>
    have hsent : x.me.sent = [] := by simp [Endpoint.sent, hst]
    obtain ⟨-, hlink, hpeer, -⟩ := h.silent hsent
    rw [processPipeTerm, hst]
    exact ⟨_, acknowledgePeerTermination_eq
      (x := { x with me := { x.me with mailbox := cs } }) hlink hpeer _,
      h.answer hbox (.inr ⟨hsent, rfl⟩) le_rfl h.back.taken⟩
  | termReqSent1 =>
    have hack : .pipeTermAck ∉ x.me.sent := by simp [Endpoint.sent, hst, hfin]
    rw [processPipeTerm, hst]
    exact ⟨_, acknowledgePeerTermination_eq
      (x := { x with me := { x.me with mailbox := cs } }) (h.linked hfin hack)
      (h.out.finished_eq_zero hack) _,
      h.answer hbox (.inl ⟨hst, rfl⟩) le_rfl h.back.taken⟩
  | active =>
    have hsent : x.me.sent = [] := by simp [Endpoint.sent, hst]
    obtain ⟨-, hlink, hpeer, -⟩ := h.silent hsent
    obtain ⟨pending, n, hread, hsame, hle, hn⟩ := consumeDelimiter_eq
      (x := { x with me := { x.me with mailbox := cs } }) h.back.taken
    rw [processPipeTerm, hst]
    simp only [hread]
    split
    · rename_i hwait
      obtain rfl := hsame (Bool.and_eq_true_iff.mp hwait).2
      exact ⟨_, rfl, h.wait hbox hst⟩
    · exact ⟨_, acknowledgePeerTermination_eq
        (x := { x with me := { x.me with mailbox := cs, taken := n } }) hlink hpeer _,
        h.answer hbox (.inr ⟨hsent, rfl⟩) hle hn⟩

theorem Ok.linked_eq (h : x.Ok) : x.me.linked = x.peer.linked := by
  rw [h.out.linked, h.back.linked]
  exact decide_eq_decide.mpr and_comm

theorem detachPeerLink_eq (h : x.me.linked = x.peer.linked) : x.detachPeerLink =
      { me := { x.me with linked := false }, peer := { x.peer with linked := false } } := by
  unfold detachPeerLink
  split
  · rfl
  · rename_i hlink
    have hme := Bool.eq_false_of_not_eq_true hlink
    have hpeer := h.symm.trans hme
    cases x with
    | mk a b =>
      cases a
      cases b
      simp_all

theorem processPipeTermAck_eq (hst : x.me.state = .termAckSent ∨ x.me.state = .termReqSent2)
    (hlink : x.me.linked = x.peer.linked) : x.processPipeTermAck = some
      { me := { x.me with linked := false, finished := x.me.finished + 1 }
        peer := { x.peer with linked := false } } := by
  rcases hst with hst | hst <;>
    simp only [processPipeTermAck, hst, detachPeerLink_eq hlink]

theorem Ok.finish (h : x.Ok) (hbox : x.me.mailbox = [.pipeTermAck]) (hfin : x.me.finished = 0)
    (hst : x.me.state = .termAckSent ∨ x.me.state = .termReqSent2) :
    let y : Ends :=
      { me := { x.me with mailbox := [], linked := false, finished := 1 }
        peer := { x.peer with linked := false } }
    x.Advances y := by
  have hsent : ({ x.me with finished := 1 } : Endpoint).sent = x.me.sent := by
    rcases hst with hst | hst <;> simp [Endpoint.sent, hst]
  have hne : x.me.sent ≠ [] := by
    rcases hst with hst | hst <;> simp [Endpoint.sent, hst]
  refine ⟨?_, ?_, rfl, rfl⟩
  · constructor
    · exact { h.out with
        traffic := hsent.trans h.out.traffic
        acks := h.out.acks.trans (congrArg _ hsent.symm)
        once := le_rfl
        leaving := fun _ hnil => hne (hsent.symm.trans hnil)
        linked := by simp
        outOpen := h.out.outOpen.trans (by rw [← hsent]; rfl) }
    · exact { h.back with
        traffic := by
          refine h.back.traffic.trans ?_
          rw [hbox]
          simp [Endpoint.processed, hfin]
        linked := by simp
        delimiter := fun hnil => absurd (hsent.symm.trans hnil) hne
        flushed := fun hnil => absurd (hsent.symm.trans hnil) hne }
  · simp [weight, Endpoint.weight, hbox, hfin, Endpoint.unread]

theorem Ok.finishAsking (h : x.Ok) (hbox : x.me.mailbox = [.pipeTermAck])
    (hfin : x.me.finished = 0) (hst : x.me.state = .termReqSent1)
    (hpeer : x.peer.state = .termAckSent) :
    let y : Ends :=
      { me := { x.me with
          mailbox := [], linked := false, outOpen := false,
          termAcks := x.me.termAcks + 1, finished := 1 }
        peer := { x.peer with
          linked := false, mailbox := x.peer.mailbox ++ [.pipeTermAck] } }
    x.Advances y := by
  have hsent : x.me.sent = [.pipeTerm] := by simp [Endpoint.sent, hst, hfin]
  have hsent' : ({ x.me with finished := 1 } : Endpoint).sent =
      x.me.sent ++ [.pipeTermAck] := by simp [Endpoint.sent, hst, hfin]
  have hne : x.peer.sent ≠ [] := by simp [Endpoint.sent, hpeer]
  refine ⟨?_, ?_, rfl, rfl⟩
  · constructor
    · exact { h.out with
        traffic := by
          refine hsent'.trans ?_
          rw [h.out.traffic, List.append_assoc]
          rfl
        acks := by
          refine (congrArg Nat.succ h.out.acks).trans ?_
          refine Eq.trans ?_ (congrArg _ hsent'.symm)
          simp
        once := le_rfl
        leaving := fun _ hnil => by simpa using hsent'.symm.trans hnil
        linked := by simp
        outOpen := by
          refine Eq.symm (decide_eq_false (not_not_intro ?_))
          refine hsent'.symm ▸ ?_
          simp
        delimiter := fun hnil => absurd hnil hne
        flushed := fun hnil => absurd hnil hne }
    · exact { h.back with
        traffic := by
          refine h.back.traffic.trans ?_
          rw [hbox]
          simp [Endpoint.processed, hfin, hst]
        linked := by simp
        delimiter := fun hnil => by simpa using hsent'.symm.trans hnil
        flushed := fun hnil => by simpa using hsent'.symm.trans hnil }
  · simp only [weight, Endpoint.weight, hbox, hfin, Endpoint.unread,
      List.length_append, List.count_append]
    simp
    omega

theorem processPipeTermAck_spec (h : x.Ok) (hbox : x.me.mailbox = .pipeTermAck :: cs) :
    ∃ y, ({ x with me := { x.me with mailbox := cs } } : Ends).processPipeTermAck =
      some y ∧ x.Advances y := by
  obtain ⟨rfl, hfin, hst⟩ := h.pipeTermAck_head hbox
  rcases hst with ⟨hst, hpeer⟩ | hst
  · have hack : .pipeTermAck ∉ x.me.sent := by simp [Endpoint.sent, hst, hfin]
    have hlink := h.linked hfin hack
    have hpfin := h.out.finished_eq_zero hack
    refine ⟨_, ?_, h.finishAsking hbox hfin hst hpeer⟩
    simp [processPipeTermAck, hst, hlink, hpfin, closeOut, detachPeerLink, hfin]
  · refine ⟨_, ?_, h.finish hbox hfin hst⟩
    rw [processPipeTermAck_eq (x := { x with me := { x.me with mailbox := [] } }) hst h.linked_eq]
    simp [hfin]

theorem deliver_spec (h : x.Ok) (hbox : x.me.mailbox ≠ []) :
    ∃ y, x.deliver = some y ∧ x.Advances y := by
  unfold deliver
  split
  · exact absurd ‹_› hbox
  · rename_i c cs hc
    cases c with
    | pipeTerm => exact processPipeTerm_spec h hc
    | pipeTermAck => exact processPipeTermAck_spec h hc

/-- Storing the delay, or that `terminate` was called, touches no agreement. -/
theorem Ok.mark (h : x.Ok) (howes : x.peer.sent = [] → l = x.me.locked)
    (hk : k = true → x.me.state ≠ .active ∧ x.me.state ≠ .delimiterReceived)
    (hl : l = true → k = true) :
    Ends.Ok { x with me := { x.me with delay := d, locked := l, asked := k } } := by
  constructor
  · exact { h.out with
      asked := hk
      locked := hl
      delimiter := fun hnil => by
        obtain rfl := howes hnil
        exact h.out.delimiter hnil
      flushed := fun hnil => by
        obtain rfl := howes hnil
        exact h.out.flushed hnil }
  · exact { h.back with traffic := h.back.traffic }

theorem Ok.told (h : x.Ok)
    (hst : x.me.state ≠ .active ∧ x.me.state ≠ .delimiterReceived) : (x.told d).Ok :=
  h.mark (fun _ => rfl) (fun _ => hst) (fun _ => rfl)

theorem Ok.ask (h : x.Ok) (hst : x.me.state = .active ∨ x.me.state = .delimiterReceived) : Ends.Ok
      { me := { x.me with
          delay := d, asked := true, state := .termReqSent1, locked := true }
        peer := { x.peer with mailbox := x.peer.mailbox ++ [.pipeTerm] } } := by
  have hsent : x.me.sent = [] := by
    rcases hst with hst | hst <;> simp [Endpoint.sent, hst]
  have hproc : x.me.processed = [] := by
    rcases hst with hst | hst <;>
      simp [Endpoint.processed, hst, (h.silent hsent).1]
  have howes : x.me.owes = true := by
    rcases hst with hst | hst <;> simp [Endpoint.owes, hst]
  obtain ⟨hfin, hlink, hpeer, hout⟩ := h.silent hsent
  have hsent' : ({ x.me with state := .termReqSent1 } : Endpoint).sent =
      [.pipeTerm] := by simp [Endpoint.sent, hfin]
  constructor
  · exact { h.out with
      traffic := by
        refine hsent'.trans ?_
        have htraffic := hsent.symm.trans h.out.traffic
        exact (congrArg (· ++ [Command.pipeTerm]) htraffic).trans (List.append_assoc _ _ _)
      acks := by
        refine (h.out.acks.trans ?_).trans (congrArg _ hsent'.symm)
        rw [hsent]
        rfl
      leaving := fun hne => absurd hfin hne
      outOpen := by
        refine hout.trans (Eq.symm (decide_eq_true ?_))
        refine hsent'.symm ▸ ?_
        decide
      asked := fun _ => ⟨nofun, nofun⟩
      locked := fun _ => rfl
      delimiter := fun hnil => by
        have hone := h.out.delimiter hnil
        rw [howes] at hone
        exact hone
      flushed := fun _ hfree => nomatch hfree }
  · exact { h.back with
      traffic := by
        refine h.back.traffic.trans ?_
        rw [hproc]
        simp [Endpoint.processed, hfin]
      delimiter := fun hnil => nomatch hsent'.symm.trans hnil
      flushed := fun hnil => nomatch hsent'.symm.trans hnil }

theorem sendPipeTerm_spec (h : x.Ok)
    (hst : x.me.state = .active ∨ x.me.state = .delimiterReceived) :
    ∃ y, (do
      let x ← (x.told d).sendPipeTerm
      return (x.transitionToInactiveState .termReqSent1).lock) = some y ∧ y.Ok := by
  have hsent : x.me.sent = [] := by
    rcases hst with hst | hst <;> simp [Endpoint.sent, hst]
  obtain ⟨-, hlink, hpeer, -⟩ := h.silent hsent
  rw [sendPipeTerm, send_eq (x := x.told d) hlink hpeer]
  exact ⟨_, rfl, h.ask hst⟩

theorem terminate_spec (h : x.Ok) (d : Bool) : ∃ y, x.terminate d = some y ∧ y.Ok := by
  unfold terminate
  cases hst : x.me.state with
  | active => exact sendPipeTerm_spec h (.inl hst)
  | delimiterReceived => exact sendPipeTerm_spec h (.inr hst)
  | termReqSent1 | termReqSent2 | termAckSent => exact ⟨_, rfl, h.told (by simp [hst])⟩
  | waitingForDelimiter =>
    have htold : (x.told d).Ok := h.told (by simp [hst])
    obtain ⟨-, hlink, hfin, hout⟩ := htold.silent (by simp [Endpoint.sent, told, hst])
    have hne : x.peer.sent ≠ [] :=
      h.back.sent_ne_nil (by simp [Endpoint.processed, hst])
    cases d with
    | false =>
      simp only [Bool.not_false, if_true, concludeWaiting_eq hlink hfin hout]
      exact ⟨_, rfl, htold.concludeWaiting hst fun _ => rfl⟩
    | true =>
      exact ⟨_, rfl, h.mark (fun hnil => absurd hnil hne) (by simp [hst]) fun _ => rfl⟩

theorem terminate_of_waiting (h : x.Ok) (hst : x.me.state = .waitingForDelimiter) :
    (∃ y, x.terminate false = some y ∧ y.me.state = .termAckSent ∧
      y.peer.mailbox = x.peer.mailbox ++ [.pipeTermAck]) ∧
    ∃ y, x.terminate true = some y ∧ y.me.state = .waitingForDelimiter ∧ y.peer = x.peer := by
  obtain ⟨-, hlink, hfin, hout⟩ := h.silent (by simp [Endpoint.sent, hst])
  constructor
  · have hconclude := concludeWaiting_eq (x := x.told false) hlink hfin hout
    simp only [terminate, hst, Bool.not_false, if_true, hconclude]
    exact ⟨_, rfl, rfl, rfl⟩
  · refine ⟨(x.told true).lock, ?_, hst, rfl⟩
    simp [terminate, hst]

theorem terminate_again (h : x.Ok) (hasked : x.me.asked = true)
    (hst : x.me.state ≠ .waitingForDelimiter) (d : Bool) :
    x.terminate d = some { x with me := { x.me with delay := d } } := by
  have hold := h.out.asked hasked
  have htold : x.told d = { x with me := { x.me with delay := d } } := by
    rw [told, ← hasked]
  unfold terminate
  split
  · rw [htold]
  · rw [htold]
  · rw [htold]
  · exact absurd ‹_› hold.1
  · exact absurd ‹_› hst
  · exact absurd ‹_› hold.2

theorem setNodelay_spec (h : x.Ok) : ∃ y, x.setNodelay = some y ∧ y.Ok := by
  have hmark : x.undelay.Ok := h.mark (fun _ => rfl) h.out.asked h.out.locked
  unfold setNodelay
  split
  · rename_i hst
    obtain ⟨-, hlink, hfin, hout⟩ := hmark.silent (by simp [Endpoint.sent, undelay, hst])
    rw [concludeWaiting_eq hlink hfin hout]
    exact ⟨_, rfl, hmark.concludeWaiting hst h.out.locked⟩
  · exact ⟨_, rfl, hmark⟩

theorem Ok.fill (h : x.Ok) (htaken : x.peer.taken ≤ q.flushed.length)
    (hopen : q.opened.countP Frame.isDelimiter = 0) (hl : l = true → x.me.locked = true)
    (hdelim : x.peer.sent = [] → (q.committed.drop x.peer.taken).countP Frame.isDelimiter +
          ({ x.me with locked := l } : Endpoint).owes.toNat =
        x.peer.unread.countP Frame.isDelimiter + x.me.owes.toNat) (hflushed : x.peer.sent = [] →
      ({ x.me with locked := l } : Endpoint).owes = false → q.complete = []) : Ends.Ok
      { me := { x.me with locked := l }, peer := { x.peer with inPipe := q } } := by
  constructor
  · exact { h.out with
      locked := fun hlock => h.out.locked (hl hlock)
      taken := htaken
      opened := hopen
      delimiter := fun hnil => by
        have hone := h.out.delimiter hnil
        have hsame := hdelim hnil
        simp only [Endpoint.delimiters, Endpoint.unread] at hone hsame ⊢
        omega
      flushed := hflushed }
  · exact { h.back with traffic := h.back.traffic }

theorem drop_committed_write (h : n ≤ q.flushed.length) (f : Frame) :
    (q.write f false).committed.drop n = q.committed.drop n ++ (q.opened ++ [f]) := by
  rw [OutPipe.committed_write, if_neg (by simp)]
  rw [List.drop_append_of_le_length]
  exact h.trans (by simp [OutPipe.committed])

theorem write_ok (h : x.Ok) (msg : Msg) : (x.write msg).Ok := by
  unfold write
  split
  · rename_i hst
    have howes : x.me.owes = true := by simp [Endpoint.owes, hst.1]
    have hdata : (Frame.data msg).isDelimiter = false := rfl
    apply h.fill (l := x.me.locked)
    · rw [OutPipe.flushed_write]
      exact h.out.taken
    · rw [OutPipe.opened_write]
      split
      · simp [List.countP_append, h.out.opened, hdata]
      · rfl
    · exact id
    · intro _
      congr 1
      cases hmore : (Frame.data msg).more with
      | true =>
        rw [OutPipe.committed_write]
        rfl
      | false =>
        rw [drop_committed_write h.out.taken]
        simp [List.countP_append, h.out.opened, hdata, Endpoint.unread]
    · intro _ hfree
      exact absurd (howes.symm.trans hfree) (by simp)
  · exact h

theorem flush_ok (h : x.Ok) : x.flush.Ok := by
  unfold flush
  split
  · apply h.fill (l := x.me.locked)
    · exact h.out.taken.trans (by simp [OutPipe.flush])
    · exact h.out.opened
    · exact id
    · intro _
      rw [OutPipe.committed_flush]
      rfl
    · exact fun _ _ => rfl
  · exact h

theorem delimit_spec (h : x.Ok) (hlock : x.me.locked = true) : x.Advances x.delimit := by
  have howes : x.me.owes = true := by simp [Endpoint.owes, hlock]
  have hfree : ({ x.me with locked := false } : Endpoint).owes = false := by
    simp [Endpoint.owes, h.out.asked (h.out.locked hlock)]
  have hdrop := drop_committed_write (q := x.peer.inPipe.unwriteAll)
    (n := x.peer.taken) h.out.taken .delimiter
  by_cases hack : .pipeTermAck ∈ x.me.sent
  · -- An end that has acknowledged writes no more, and its peer has asked.
    have hne := h.back.sent_ne_nil (Endpoint.processed_ne_nil hack)
    have hout : x.me.outOpen = false := by simp [h.out.outOpen, hack]
    have heq : x.delimit = { x with me := { x.me with locked := false } } := by
      simp [delimit, hout]
    rw [heq]
    refine ⟨?_, ?_, rfl, rfl⟩
    · apply h.fill (q := x.peer.inPipe) (l := false) h.out.taken h.out.opened (by simp)
      all_goals exact fun hnil => absurd hnil hne
    · simp only [weight, Endpoint.weight, hlock, Endpoint.unread]
      simp
  · have hout : x.me.outOpen = true := by simp [h.out.outOpen, hack]
    have hst : x.me.state ≠ .termAckSent := by
      intro hst
      exact hack (by simp [Endpoint.sent, hst])
    have heq : x.delimit =
        { me := { x.me with locked := false }
          peer := { x.peer with
            inPipe := (x.peer.inPipe.unwriteAll.write .delimiter false).flush } } := by
      simp [delimit, hout, hst, rollback]
    rw [heq]
    refine ⟨?_, ?_, rfl, rfl⟩
    · apply h.fill
      · exact h.out.taken.trans (by simp [OutPipe.flush, OutPipe.unwriteAll, OutPipe.flushed_write])
      · rfl
      · rintro ⟨⟩
      · intro _
        rw [OutPipe.committed_flush, hdrop, hfree, howes, List.countP_append]
        rfl
      · exact fun _ _ => rfl
    · simp only [weight, Endpoint.weight, hlock, Endpoint.unread, OutPipe.committed_flush, hdrop]
      simp [OutPipe.unwriteAll, OutPipe.committed]
      omega

theorem unread_of_head {e : Endpoint} {f : Frame} (h : e.head = some f) :
    e.unread = f :: ({ e with taken := e.taken + 1 } : Endpoint).unread := by
  obtain ⟨hlt, hget⟩ := List.getElem?_eq_some_iff.mp h
  have hlt' : e.taken < e.inPipe.committed.length :=
    hlt.trans_le (by simp [OutPipe.committed])
  rw [Endpoint.unread, List.drop_eq_getElem_cons hlt', ← hget]
  simp only [OutPipe.committed, List.getElem_append_left hlt]
  rfl

theorem Ok.take (h : x.Ok) (hread : x.me.delimiterRead = false) {f : Frame}
    (hhead : x.me.head = some f) :
    let y : Ends := { x with me := { x.me with
      taken := x.me.taken + 1, delimiterRead := f.isDelimiter } }
    x.Advances y := by
  have hunread := unread_of_head hhead
  refine ⟨?_, ?_, rfl, rfl⟩
  · constructor
    · exact { h.out with traffic := h.out.traffic }
    · exact { h.back with
        taken := (List.getElem?_eq_some_iff.mp hhead).1
        delimiter := fun hnil => by
          have hone := h.back.delimiter hnil
          rw [Endpoint.delimiters, hunread, hread, List.countP_cons] at hone
          simp only [Endpoint.delimiters, Endpoint.unread] at hone ⊢
          cases hf : f.isDelimiter <;> simp [hf] at hone ⊢ <;> omega }
  · simp only [weight, Endpoint.weight, hunread, hread, List.length_cons]
    cases f.isDelimiter <;> simp [Endpoint.unread] <;> omega

theorem read_ok (h : x.Ok) (hread : x.me.delimiterRead = false) : x.read.Ok := by
  unfold read
  split
  · exact h
  · split
    · exact h
    · rename_i hhead
      exact (h.take hread hhead).1

theorem Ok.receiveDelimiter (h : x.Ok) (hread : x.me.delimiterRead = true)
    (hst : x.me.state = .active) :
    let y : Ends := { x with me := { x.me with
      state := .delimiterReceived, delimiterRead := false } }
    x.Advances y := by
  have hsent : x.me.sent = [] := by simp [Endpoint.sent, hst]
  refine ⟨⟨?_, ?_⟩, ?_, rfl, rfl⟩
  · apply h.out.listen hsent rfl
    · exact fun hasked => absurd hst (h.out.asked hasked).1
    · intro _
      simp [Endpoint.owes, hst]
  · exact { h.back with
      traffic := by
        refine h.back.traffic.trans ?_
        simp [Endpoint.processed, hst]
      delimiter := fun _ => by
        have hone := h.back.delimiter hsent
        simpa [Endpoint.delimiters, hst, hread, Endpoint.unread] using hone
      flushed := fun _ => h.back.flushed hsent }
  · simp [weight, Endpoint.weight, hread, Endpoint.unread]

theorem Ok.ignoreDelimiter (h : x.Ok) (hread : x.me.delimiterRead = true) (hsent : x.me.sent ≠ []) :
    let y : Ends := { x with me := { x.me with delimiterRead := false } }
    x.Advances y := by
  refine ⟨⟨?_, ?_⟩, ?_, rfl, rfl⟩
  · exact { h.out with traffic := h.out.traffic }
  · exact { h.back with
      delimiter := fun hnil => absurd hnil hsent
      flushed := fun hnil => absurd hnil hsent }
  · simp [weight, Endpoint.weight, hread, Endpoint.unread]

theorem processDelimiter_spec (h : x.Ok) (hread : x.me.delimiterRead = true) :
    ∃ y, ({ x with me := { x.me with delimiterRead := false } } : Ends).processDelimiter =
      some y ∧ x.Advances y := by
  unfold processDelimiter
  cases hst : x.me.state with
  | termReqSent1 =>
    have hsent : x.me.sent ≠ [] := by
      by_cases hfin : x.me.finished = 0 <;> simp [Endpoint.sent, hst, hfin]
    exact ⟨_, rfl, h.ignoreDelimiter hread hsent⟩
  | termReqSent2 | termAckSent =>
    exact ⟨_, rfl, h.ignoreDelimiter hread (by simp [Endpoint.sent, hst])⟩
  | delimiterReceived =>
    -- The state counts for one delimiter, the one in the reader's hands for another.
    have hone := h.back.delimiter (by simp [Endpoint.sent, hst])
    simp [Endpoint.delimiters, hst, hread] at hone
    omega
  | active => exact ⟨_, rfl, h.receiveDelimiter hread hst⟩
  | waitingForDelimiter =>
    obtain ⟨-, hlink, hfin, hout⟩ := h.silent (by simp [Endpoint.sent, hst])
    refine ⟨_, concludeWaiting_eq hlink hfin hout, h.concludeWaiting hst h.out.locked, ?_, rfl, rfl⟩
    simp only [weight, Endpoint.weight, hread, Endpoint.unread, List.length_append,
      List.count_append]
    simp [OutPipe.unwriteAll, OutPipe.committed]
    omega

theorem underLock_ok (h : x.Ok) {op : Option Ends} (hop : ∃ y, op = some y ∧ y.Ok) :
    ∃ y, x.underLock op = some y ∧ y.Ok := by
  unfold underLock
  split
  · exact ⟨x, rfl, h⟩
  · exact hop

theorem act_spec (h : x.Ok) (a : Action) : ∃ y, x.act a = some y ∧ y.Ok := by
  cases a with
  | write msg => exact underLock_ok h ⟨_, rfl, write_ok h msg⟩
  | flush => exact underLock_ok h ⟨_, rfl, flush_ok h⟩
  | read =>
    refine ⟨_, rfl, ?_⟩
    split
    · exact h
    · exact read_ok h (Bool.eq_false_of_not_eq_true ‹_›)
  | processDelimiter =>
    apply underLock_ok h
    split
    · obtain ⟨y, hy, hadv⟩ := processDelimiter_spec h ‹_›
      exact ⟨y, hy, hadv.ok⟩
    · exact ⟨x, rfl, h⟩
  | deliver =>
    apply underLock_ok h
    by_cases hbox : x.me.mailbox = []
    · exact ⟨x, by simp [deliver, hbox], h⟩
    · obtain ⟨y, hy, hadv⟩ := deliver_spec h hbox
      exact ⟨y, hy, hadv.ok⟩
  | terminate d => exact underLock_ok h (terminate_spec h d)
  | delimit =>
    refine ⟨_, rfl, ?_⟩
    split
    · exact (delimit_spec h ‹_›).1
    · exact h
  | setNodelay => exact underLock_ok h (setNodelay_spec h)

end Ends

namespace Pair

variable {x : Pair}

theorem step_ok (h : x.Ok) (e : Side × Action) : ∃ y, x.step e = some y ∧ y.Ok := by
  obtain ⟨y, hy, hok⟩ := Ends.act_spec (h e.1) e.2
  exact ⟨ofEnds e.1 y, by rw [step, hy]; rfl, ofEnds_ok hok⟩

theorem run_ok (h : x.Ok) (es : List (Side × Action)) :
    ∃ y, Trace.run step x es = some y ∧ y.Ok := by
  induction es generalizing x with
  | nil => exact ⟨x, rfl, h⟩
  | cons e es ih =>
    obtain ⟨y, hy, hok⟩ := step_ok h e
    obtain ⟨z, hz, hok'⟩ := ih hok
    exact ⟨z, by rw [Trace.run, hy]; exact hz, hok'⟩

/-- The steps of the two ends and of the mailboxes, without a call from above. -/
def Internal (e : Side × Action) : Prop :=
  e.2 = .read ∨ e.2 = .processDelimiter ∨ e.2 = .deliver ∨ e.2 = .delimit

def weight (x : Pair) : ℕ :=
  (x .first).weight + (x .second).weight

theorem weight_eq (x : Pair) (s : Side) : x.weight = (x.ends s).weight := by
  cases s
  · rfl
  · exact Nat.add_comm _ _

theorem weight_ofEnds (s : Side) (x : Ends) : (ofEnds s x).weight = x.weight := by
  rw [weight_eq _ s]
  simp [ends, ofEnds, s.peer_ne, Ends.weight]

theorem step_advances {s : Side} {a : Action} {y : Ends} (hact : (x.ends s).act a = some y)
    (hadv : (x.ends s).Advances y) : ∃ z, x.step (s, a) = some z ∧ z.Ok ∧ z.weight < x.weight ∧
      ∀ t, (z t).asked = (x t).asked := by
  refine ⟨ofEnds s y, by rw [step, hact]; rfl, ofEnds_ok hadv.ok, ?_, ?_⟩
  · rw [weight_ofEnds, weight_eq x s]
    exact hadv.lighter
  · intro t
    by_cases ht : t = s
    · subst ht
      simpa [ofEnds, ends] using hadv.asked
    · obtain rfl := Side.eq_peer_of_ne ht
      simpa [ofEnds, ends, ht] using hadv.peerAsked

/-- With nothing in the mailboxes, an end that has asked is finished, unless one of the
two waits for its delimiter. -/
theorem quiet_cases {a b : Endpoint} (hout : a.sent = b.processed) (hback : b.sent = a.processed)
    (hst : a.state ≠ .active ∧ a.state ≠ .delimiterReceived) : a.finished ≠ 0 ∧ b.finished ≠ 0 ∨
      a.state = .waitingForDelimiter ∧ b.state = .termReqSent1 ∨
      a.state = .termReqSent1 ∧ b.state = .waitingForDelimiter := by
  unfold Endpoint.sent Endpoint.processed at hout hback
  cases ha : a.state <;> cases hb : b.state <;> by_cases hfa : a.finished = 0 <;>
    by_cases hfb : b.finished = 0 <;>
    simp_all

theorem head_of_waiting {a b : Endpoint} (h : Agree a b)
    (hst : b.state = .waitingForDelimiter) (hread : b.delimiterRead = false)
    (howes : a.owes = false) : ∃ f, b.head = some f := by
  have hsent : b.sent = [] := by simp [Endpoint.sent, hst]
  have hone := h.delimiter hsent
  rw [howes] at hone
  simp only [Endpoint.delimiters, hread, hst] at hone
  have hcomplete := h.flushed hsent howes
  have hlt : b.taken < b.inPipe.flushed.length := by
    by_contra hge
    have hnil : b.unread = [] := by
      rw [Endpoint.unread, OutPipe.committed, hcomplete, List.append_nil]
      exact List.drop_eq_nil_of_le (Nat.le_of_not_lt hge)
    simp [hnil] at hone
  exact ⟨_, List.getElem?_eq_getElem hlt⟩

theorem progress (h : x.Ok) (hasked : ∃ s, (x s).asked = true) (hopen : ∃ s, (x s).finished = 0) :
    ∃ e, Internal e ∧ ∃ y, x.step e = some y ∧ y.Ok ∧ y.weight < x.weight ∧
      ∀ t, (y t).asked = (x t).asked := by
  by_cases hlock : ∃ s, (x s).locked = true
  · obtain ⟨s, hs⟩ := hlock
    refine ⟨(s, .delimit), .inr (.inr (.inr rfl)), ?_⟩
    exact step_advances (by rw [Ends.act]; exact congrArg some (if_pos hs))
      (Ends.delimit_spec (h s) hs)
  have hfree (s : Side) : (x s).locked = false :=
    Bool.eq_false_of_not_eq_true (not_exists.mp hlock s)
  have hunder (s : Side) (op : Option Ends) : (x.ends s).underLock op = op :=
    if_neg (by simp [ends, hfree s])
  by_cases hbox : ∃ s, (x s).mailbox ≠ []
  · obtain ⟨s, hs⟩ := hbox
    obtain ⟨y, hy, hadv⟩ := Ends.deliver_spec (h s) hs
    refine ⟨(s, .deliver), .inr (.inr (.inl rfl)), ?_⟩
    exact step_advances (by rw [Ends.act, hunder, hy]) hadv
  by_cases hread : ∃ s, (x s).delimiterRead = true
  · obtain ⟨s, hs⟩ := hread
    obtain ⟨y, hy, hadv⟩ := Ends.processDelimiter_spec (h s) hs
    refine ⟨(s, .processDelimiter), .inr (.inl rfl), ?_⟩
    exact step_advances (by rw [Ends.act, hunder]; exact (if_pos hs).trans hy) hadv
  -- Nothing is under way: only a reader that waits for its delimiter is left.
  obtain ⟨s, hs⟩ := hasked
  have hempty (t : Side) : (x t).mailbox = [] := by
    by_contra hne
    exact hbox ⟨t, hne⟩
  have htraffic (t : Side) : (x t).sent = (x t.peer).processed := by
    have htraffic := (h t).out.traffic
    rwa [show (x.ends t).peer.mailbox = [] from hempty _, List.append_nil] at htraffic
  have hback : (x s.peer).sent = (x s).processed := by
    simpa using htraffic s.peer
  have hwait (t : Side) (hst : (x t).state = .waitingForDelimiter)
      (hpeer : (x t.peer).state = .termReqSent1) :
      ∃ e, Internal e ∧ ∃ y, x.step e = some y ∧ y.Ok ∧ y.weight < x.weight ∧
        ∀ t, (y t).asked = (x t).asked := by
    have hnot : (x t).delimiterRead = false :=
      Bool.eq_false_of_not_eq_true (not_exists.mp hread t)
    obtain ⟨f, hf⟩ := head_of_waiting (h t).back hst hnot
      (by simp [Endpoint.owes, ends, hfree, hpeer])
    have hact : (x.ends t).act .read = some { x.ends t with me := { x t with
        taken := (x t).taken + 1, delimiterRead := f.isDelimiter } } := by
      have hhead : (x t).head = some f := hf
      simp [Ends.act, Ends.read, ends, hnot, hst, hhead]
    exact ⟨(t, .read), .inl rfl, step_advances hact ((h t).take hnot hf)⟩
  rcases quiet_cases (htraffic s) hback ((h s).out.asked hs) with hfin | ⟨hme, hpeer⟩ | ⟨hme, hpeer⟩
  · obtain ⟨t, ht⟩ := hopen
    have hcases : t = s ∨ t = s.peer := by cases t <;> cases s <;> simp [Side.peer]
    rcases hcases with rfl | rfl
    · exact absurd ht hfin.1
    · exact absurd ht hfin.2
  · exact hwait s hme hpeer
  · exact hwait s.peer hpeer (by simpa using hme)

/-- Once an end has been told to terminate, deliveries and reads alone bring both ends
to their end. -/
theorem finishes (h : x.Ok) (hasked : ∃ s, (x s).asked = true) :
    ∃ es z, (∀ e ∈ es, Internal e) ∧ Trace.run step x es = some z ∧ ∀ s, (z s).finished = 1 := by
  induction hn : x.weight using Nat.strong_induction_on generalizing x with
  | h n ih =>
    by_cases hopen : ∃ s, (x s).finished = 0
    · obtain ⟨e, he, y, hy, hok, hlt, hsame⟩ := progress h hasked hopen
      obtain ⟨s, hs⟩ := hasked
      obtain ⟨es, z, hes, hz, hfin⟩ :=
        ih y.weight (hn ▸ hlt) hok ⟨s, (hsame s).trans hs⟩ rfl
      refine ⟨e :: es, z, ?_, by rw [Trace.run, hy]; exact hz, hfin⟩
      exact fun f hf => (List.mem_cons.mp hf).elim (fun heq => heq ▸ he) (hes f)
    · refine ⟨[], x, by simp, rfl, fun s => ?_⟩
      have hone := (h s).out.once
      have hne := not_exists.mp hopen s
      exact le_antisymm hone (Nat.pos_of_ne_zero hne)

theorem step_terminate {s : Side} {d : Bool} (hlock : (x s).locked = false) :
    x.step (s, .terminate d) = ((x.ends s).terminate d).map (ofEnds s) := by
  rw [step, Ends.act, Ends.underLock, if_neg]
  simp [ends, hlock]

/-- **Termination.** Whatever the two ends are told, and in whatever order their
commands are delivered and their queues are read, no assertion fails. Each end sends at
most one acknowledgement and is finished at most once, and once one of them has been
told to terminate, deliveries and reads alone finish both. A repeated `terminate` stores
the delay and nothing else. The exception is an end that still waits for a delimiter its
peer has sent: told to drop what is pending it acknowledges at once, told to wait it
sends no command and waits on. -/
theorem run_terminates (delay : Side → Bool) (es : List (Side × Action)) :
    ∃ y, Trace.run step (init delay) es = some y ∧ (∀ s, (y s).termAcks ≤ 1 ∧ (y s).finished ≤ 1) ∧
      ((∃ s, (y s).asked = true) → ∃ fs z, (∀ e ∈ fs, Internal e) ∧ Trace.run step y fs = some z ∧
          ∀ s, (z s).finished = 1) ∧ (∀ s d, (y s).asked = true → (y s).locked = false →
        (y s).state ≠ .waitingForDelimiter →
        y.step (s, .terminate d) = some (Function.update y s { y s with delay := d })) ∧
      ∀ s, (y s).state = .waitingForDelimiter → (y s).locked = false →
        (∃ z, y.step (s, .terminate false) = some z ∧ (z s).state = .termAckSent ∧
          (z s.peer).mailbox = (y s.peer).mailbox ++ [.pipeTermAck]) ∧
        ∃ z, y.step (s, .terminate true) = some z ∧
          (z s).state = .waitingForDelimiter ∧ z s.peer = y s.peer := by
  obtain ⟨y, hy, hok⟩ := run_ok (init_ok delay) es
  refine ⟨y, hy, fun s => ⟨?_, (hok s).out.once⟩, finishes hok, ?_, ?_⟩
  · have hacks : (y s).termAcks = (y s).sent.count .pipeTermAck := (hok s).out.acks
    rw [hacks]
    rcases (y s).sent_cases with hs | hs | hs | hs <;> rw [hs] <;> decide
  · intro s d hasked hlock hst
    rw [step_terminate hlock, Ends.terminate_again (hok s) hasked hst d]
    refine congrArg some (funext fun t => ?_)
    by_cases ht : t = s
    · subst ht
      simp [ofEnds, ends]
    · have hpeer : t = s.peer := Side.eq_peer_of_ne ht
      simp [ofEnds, ends, hpeer, s.peer_ne]
  · intro s hst hlock
    rw [step_terminate hlock, step_terminate hlock]
    obtain ⟨⟨u, hu, hack, hbox⟩, v, hv, hwait, hpeer⟩ :=
      Ends.terminate_of_waiting (hok s) hst
    rw [hu, hv]
    constructor
    · exact ⟨_, rfl, by simpa [ofEnds] using hack, by simpa [ofEnds, s.peer_ne, ends] using hbox⟩
    · exact ⟨_, rfl, by simpa [ofEnds] using hwait, by simpa [ofEnds, s.peer_ne, ends] using hpeer⟩

/-- An end told to wait for its delimiter, then told not to: it acknowledges at the
second call. -/
def impatient : List (Side × Action) :=
  [(.first, .write { flags := 0, data := [], requestReply := none }), (.first, .flush),
    (.first, .terminate true), (.first, .delimit), (.second, .deliver),
    (.second, .terminate true), (.second, .delimit)]

theorem impatient_runs : (Trace.run step (init fun _ => true) impatient).isSome := by
  decide

/-- A repeated `terminate` can do more than set the delay. -/
theorem terminate_not_idempotent :
    ¬ ∀ (delay : Side → Bool) (es : List (Side × Action)) (y : Pair) (s : Side) (d : Bool),
      Trace.run step (init delay) es = some y → (y s).asked = true → (y s).locked = false →
      y.step (s, .terminate d) = some (Function.update y s { y s with delay := d }) := by
  intro h
  have hsame := h (fun _ => true) impatient
    ((Trace.run step (init fun _ => true) impatient).get impatient_runs) .second false
    (Option.some_get _).symm (by decide) (by decide)
  have hstate := congrArg (Option.map fun y : Pair => (y .second).state) hsame
  revert hstate
  decide

end Pair

end Handshake

end Pipe

end Zlink
