import Zlink.Pipe.Link

/-!
# What a turn of the reading end changes

A frame that was taken is counted first. What follows decides about credit: it
changes the reader's own notes and nothing that the writer can see, and the credit
it may send is the ledger as it stands.
-/

namespace Zlink.Pipe

open Protocol Suspension

namespace Reader

variable {r s : Reader}

def Agrees (r s : Reader) : Prop :=
  s = { r with
    lastCreditBytesRead := s.lastCreditBytesRead
    prefetched := s.prefetched }

theorem Agrees.refl (r : Reader) : Agrees r r := rfl

theorem Agrees.trans {t : Reader} (h : Agrees r s) (h' : Agrees s t) : Agrees r t := by
  rw [Agrees] at h h' ⊢
  rw [h', h]

section

variable (h : Agrees r s)
include h

theorem Agrees.inGeneration : s.inGeneration = r.inGeneration := by rw [h]
theorem Agrees.bytesRead : s.bytesRead = r.bytesRead := by rw [h]
theorem Agrees.inIncompleteBytes : s.inIncompleteBytes = r.inIncompleteBytes := by
  rw [h]
theorem Agrees.published : s.published = r.published := by rw [h]
theorem Agrees.taken : s.taken = r.taken := by rw [h]
theorem Agrees.credit : s.credit = r.credit := by rw [h]; rfl

end

def Concludes (r : Reader) (x : Reader × Option Ledger) : Prop :=
  Agrees r x.1 ∧ ∀ ledger, x.2 = some ledger → ledger = r.credit

def Turns {β : Type} (r : Reader) (p : Look β) (P : β → Prop) : Prop :=
  p.Holds (Agrees r) (fun _ _ => True) P

theorem writerWaiting_turns (exhausted : Bool) :
    Turns r (r.writerWaiting exhausted) (fun _ => True) := by
  rw [writerWaiting]
  apply Prog.Holds.load (Agrees.refl r)
  intro first _
  split
  · trivial
  split
  · exact Prog.Holds.load (Agrees.refl r) fun _ _ => trivial
  · trivial

theorem drained_turns (wanted : Bool) : Turns r (r.drained wanted) (fun x => Agrees r x.2) := by
  rw [drained]
  cases wanted with
  | false => exact Agrees.refl r
  | true =>
    apply Prog.Holds.load (Agrees.refl r)
    intro n _
    split
    · exact Agrees.refl r
    · exact (rfl : Agrees r { r with prefetched := n })

theorem decideCredit_turns (exhausted : Bool) :
    Turns r (r.decideCredit exhausted) (Concludes r) := by
  rw [decideCredit]
  split
  · exact ⟨Agrees.refl r, fun _ h => by simp at h⟩
  apply (writerWaiting_turns exhausted).bind
  intro waiting _
  apply (drained_turns _).bind
  rintro ⟨drained, s⟩ hs
  dsimp only at hs ⊢
  split
  · refine ⟨hs.trans rfl, fun ledger h => ?_⟩
    dsimp only at h
    split at h
    · exact (Option.some.inj h).symm.trans hs.credit
    · simp at h
  · exact ⟨hs, fun _ h => by simp at h⟩

theorem accountInboundFrame_turns (m : Frame) (exhausted : Bool) :
    Turns (r.countFrame m) (r.accountInboundFrame m exhausted) (Concludes (r.countFrame m)) := by
  rw [accountInboundFrame]
  split
  · exact ⟨Agrees.refl _, fun _ h => by simp at h⟩
  · exact decideCredit_turns exhausted

end Reader

namespace ReaderThread

/-- A stopped turn goes on as its rule says. -/
def Sound : ReaderThread → Prop
  | idle _ => True
  | busy r q k => Reader.Turns r (.ask r q k) (Reader.Concludes r)

end ReaderThread

namespace Link

theorem readerTurn_spec {l : Link} {r : Reader} {p : Look (Reader × Option Ledger)}
    (hp : Reader.Turns r p (Reader.Concludes r)) :
    ∃ t sent, l.readerTurn p = { l with reader := t, credits := l.credits ++ sent } ∧
      r.Agrees t.seen ∧ t.Sound ∧
      (sent = [] ∨ sent = [{ generation := r.inGeneration, ledger := r.credit }]) := by
  match p with
  | .done (s, none) =>
    exact ⟨.idle s, [], by simp [readerTurn], hp.1, trivial, .inl rfl⟩
  | .done (s, some ledger) =>
    refine ⟨.idle s, _, rfl, hp.1, trivial, .inr ?_⟩
    rw [hp.2 ledger rfl, hp.1.inGeneration]
  | .ask s q k =>
    have hs := (Prog.holds_ask.mp hp).1
    refine ⟨.busy s q k, [], by simp [readerTurn], hs, ?_, .inl rfl⟩
    -- The turn may as well have begun in the state it shows.
    rw [ReaderThread.Sound]
    refine Prog.Holds.mono hp (fun t ht => ?_) (fun _ _ h => h) fun x hx => ?_
    · rw [Reader.Agrees] at hs ht ⊢
      rw [ht, hs]
    · refine ⟨?_, fun ledger h => (hx.2 ledger h).trans hs.credit.symm⟩
      have hx' := hx.1
      rw [Reader.Agrees] at hs hx' ⊢
      rw [hx', hs]

end Link

end Zlink.Pipe
