import Mathlib.Algebra.Order.BigOperators.Group.List
import Mathlib.Data.List.Range
import Zlink.Lib.Trace
import Zlink.Pipe.Operations
import Zlink.Pipe.Reading

/-!
# Conservation of credit across generations

The two ends start a new generation at different times: the reader at its hiccup,
the writer when the command arrives, with credits of the old generation still on
their way. `Audited` keeps beside a link what the reader has read in each
generation, where each credit on its way came from, and which credits were applied
in which generation.

What was credited is never more than what was read in the writer's generation, and
that is never more than what was written in it.
-/

namespace Zlink.Pipe

open Protocol Suspension

def dataBytes (frames : List Frame) : ℕ :=
  (frames.map Frame.committedAccountedBytes).sum

@[simp] theorem dataBytes_nil : dataBytes [] = 0 := rfl

@[simp] theorem dataBytes_append (as bs : List Frame) :
    dataBytes (as ++ bs) = dataBytes as + dataBytes bs := by
  simp [dataBytes]

@[simp] theorem dataBytes_data (m : Msg) : dataBytes [.data m] = (Frame.data m).accountedBytes := by
  simp [dataBytes, Frame.committedAccountedBytes, Frame.isDelimiter]

@[simp] theorem dataBytes_delimiter : dataBytes [.delimiter] = 0 := rfl

theorem isDelimiter_of_recordWellFormed {parts : List Frame} {m : Frame}
    (h : Writer.recordWellFormed parts = true) (hm : m ∈ parts) : m.isDelimiter = false := by
  induction parts with
  | nil => simp at hm
  | cons p ps ih =>
    cases ps with
    | nil =>
      simp only [Writer.recordWellFormed, Bool.and_eq_true, Bool.not_eq_true'] at h
      rw [List.mem_singleton] at hm
      exact hm ▸ h.1.1.2
    | cons q qs =>
      rw [Writer.recordWellFormed] at h
      · simp only [Bool.and_eq_true, Bool.not_eq_true'] at h
        rcases List.mem_cons.mp hm with rfl | hm
        · exact h.1.1.1.2
        · exact ih h.2 hm
      · simp

theorem dataBytes_of_recordWellFormed {parts : List Frame}
    (h : Writer.recordWellFormed parts = true) : dataBytes parts = Writer.bytesOf parts := by
  rw [dataBytes, Writer.bytesOf]
  congr 1
  apply List.map_congr_left
  intro m hm
  rw [Frame.committedAccountedBytes, isDelimiter_of_recordWellFormed h hm]
  rfl

theorem dataBytes_le_of_isPrefix {as bs : List Frame} (h : as <+: bs) :
    dataBytes as ≤ dataBytes bs := by
  obtain ⟨cs, rfl⟩ := h
  simp

namespace Writer

variable {R : Ledger → Prop} {w v u : Writer}

structure Extends (w v : Writer) : Prop where
  conflate : v.conflate = w.conflate
  outGeneration : v.outGeneration = w.outGeneration
  flushed : w.outPipe.flushed <+: v.outPipe.flushed
  committed : w.outPipe.committed <+: v.outPipe.committed

theorem Extends.refl (w : Writer) : Extends w w :=
  ⟨rfl, rfl, List.prefix_rfl, List.prefix_rfl⟩

theorem Extends.trans (h : Extends w v) (h' : Extends v u) : Extends w u where
  conflate := h'.conflate.trans h.conflate
  outGeneration := h'.outGeneration.trans h.outGeneration
  flushed := h.flushed.trans h'.flushed
  committed := h.committed.trans h'.committed

theorem extends_of_eq (hc : v.conflate = w.conflate) (hg : v.outGeneration = w.outGeneration)
    (hf : v.outPipe.flushed = w.outPipe.flushed)
    (hq : v.outPipe.committed = w.outPipe.committed) : Extends w v where
  conflate := hc
  outGeneration := hg
  flushed := hf ▸ List.prefix_rfl
  committed := hq ▸ List.prefix_rfl

theorem Shows.extends (h : Shows R w v) : Extends w v :=
  extends_of_eq h.conflate h.outGeneration h.flushed h.committed

theorem Shows.extended (h : Shows R w v) : Extends v w :=
  extends_of_eq h.conflate.symm h.outGeneration.symm h.flushed.symm h.committed.symm

theorem flush_extends (w : Writer) : Extends w w.flush where
  conflate := by rw [flush_eq]
  outGeneration := by rw [flush_eq]
  flushed := flushed_flush w
  committed := (committed_flush w).symm ▸ List.prefix_rfl

theorem Queues.extends {m : Frame} (h : Queues w m v) (hc : v.conflate = w.conflate)
    (hg : v.outGeneration = w.outGeneration) : Extends w v where
  conflate := hc
  outGeneration := hg
  flushed := h.flushed
  committed := by
    rw [h.committed]
    split
    · exact List.prefix_rfl
    · exact List.prefix_append _ _

theorem transitionToInactiveState_extends (w : Writer) (state : LifecycleState) :
    Extends w (w.transitionToInactiveState state) := by
  rw [transitionToInactiveState]
  split
  · exact Extends.refl w
  · exact extends_of_eq rfl rfl rfl rfl

theorem delimitOutbound_extends (w : Writer) : Extends w w.delimitOutbound := by
  rw [delimitOutbound]
  refine Extends.trans ?_ (flush_extends _)
  exact ⟨rfl, rfl, List.prefix_rfl, by
    simp [rollback, OutPipe.write, OutPipe.committed, OutPipe.unwriteAll]⟩

theorem terminate_extends (w : Writer) (delay : Bool) : Extends w (w.terminate delay) := by
  rw [terminate]
  split
  · exact Extends.refl w
  · exact Extends.refl w
  · exact Extends.refl w
  · exact (transitionToInactiveState_extends w _).trans (delimitOutbound_extends _)
  · exact (transitionToInactiveState_extends w _).trans (delimitOutbound_extends _)
  split
  · exact delimitOutbound_extends w
  · exact Extends.trans (v := { w with outActive := false }.rollback)
      (extends_of_eq rfl rfl rfl rfl) (transitionToInactiveState_extends _ _)

structure Entered (w : Writer) : Prop where
  opened : w.outIncompleteBytes = dataBytes w.outPipe.opened
  written : w.conflate = false → w.bytesWritten = min uint64Max (dataBytes w.outPipe.committed)
  frame : ∀ r, w.reservation = some r → r.frameBytes = satAdd r.payloadBytes Frame.metadataBytes

theorem satAdd_min (a b : ℕ) : satAdd (min uint64Max a) b = min uint64Max (a + b) := by
  rw [satAdd]
  split <;> omega

namespace Entered

theorem congr (h : Entered w) (hc : v.conflate = w.conflate)
    (hq : v.outPipe.committed = w.outPipe.committed) (ho : v.outPipe.opened = w.outPipe.opened)
    (hi : v.outIncompleteBytes = w.outIncompleteBytes)
    (hb : v.bytesWritten = w.bytesWritten) (hr : v.reservation = w.reservation) : Entered v where
  opened := by
    rw [ho, hi]
    exact h.opened
  written := by
    rw [hc, hq, hb]
    exact h.written
  frame := by
    rw [hr]
    exact h.frame

theorem settles (h : Entered w) (hv : Settles R w v) : Entered v :=
  h.congr hv.conflate (by rw [hv.outPipe]) (by rw [hv.outPipe]) hv.outIncompleteBytes
    hv.bytesWritten hv.reservation

theorem flush (h : Entered w) : Entered w.flush := by
  have hq := committed_flush w
  have ho := opened_flush w
  rw [flush_eq] at hq ho ⊢
  exact h.congr rfl hq ho rfl rfl rfl

theorem rollback (h : Entered w) : Entered w.rollback where
  opened := rfl
  written := h.written
  frame := h.frame

theorem release (h : Entered w) : Entered w.releaseDecoderFrameReservation where
  opened := h.opened
  written := h.written
  frame _ hr := by simp [releaseDecoderFrameReservation] at hr

theorem transitionToInactiveState (h : Entered w) (state : LifecycleState) :
    Entered (w.transitionToInactiveState state) := by
  rw [Writer.transitionToInactiveState]
  split
  · exact h
  · exact h.congr rfl rfl rfl rfl rfl rfl

theorem delimitOutbound (h : Entered w) : Entered w.delimitOutbound := by
  rw [Writer.delimitOutbound]
  apply flush
  exact
    { opened := rfl
      written := fun hc => by
        simpa [Writer.rollback, OutPipe.write, OutPipe.unwriteAll, OutPipe.committed]
          using h.written hc
      frame := h.frame }

theorem terminate (h : Entered w) (delay : Bool) : Entered (w.terminate delay) := by
  rw [Writer.terminate]
  split
  · exact h
  · exact h
  · exact h
  · exact (h.transitionToInactiveState _).delimitOutbound
  · exact (h.transitionToInactiveState _).delimitOutbound
  split
  · exact h.delimitOutbound
  · apply transitionToInactiveState
    exact h.rollback.congr rfl rfl rfl rfl rfl rfl

variable {m : Msg} {replaced : List Frame}

theorem queues (h : Entered w) (hq : Queues w (.data m) v) (hc : v.conflate = w.conflate)
    (hwaits : (Frame.data m).commits = false → v.bytesWritten = w.bytesWritten -
          (if (Frame.data m).more then 0 else w.replacedBytes replaced) ∧
        v.outIncompleteBytes = w.outIncompleteBytes + (Frame.data m).accountedBytes)
    (henters : (Frame.data m).commits = true →
      w.Enters (w.outIncompleteBytes + (Frame.data m).accountedBytes) replaced v)
    (hr : ∀ r, v.reservation = some r →
      r.frameBytes = satAdd r.payloadBytes Frame.metadataBytes) : Entered v := by
  have hqc := hq.committed
  have hqo := hq.opened
  have hopened := h.opened
  have hcommits : (Frame.data m).commits = !(Frame.data m).more := by
    simp [Frame.commits, Frame.isDelimiter]
  cases hm : (Frame.data m).more with
  | true =>
    rw [hm] at hqc hqo hcommits
    obtain ⟨hb, hi⟩ := hwaits hcommits
    constructor
    · rw [hqo, hi, hopened]
      simp
    · rw [hqc, hc, hb, hm]
      exact h.written
    · exact hr
  | false =>
    rw [hm] at hqc hqo hcommits
    obtain ⟨hb, hi, -⟩ := henters hcommits
    constructor
    · rw [hqo, hi]
      rfl
    · intro hconf
      have hconf' : w.conflate = false := hc ▸ hconf
      rw [hqc, hb, replacedBytes, hconf', h.written hconf', hopened]
      simp only [Bool.false_eq_true, if_false, Nat.sub_zero, dataBytes_append, dataBytes_data]
      exact satAdd_min _ _
    · exact hr

theorem accepted (h : Entered w) (hacc : Accepted R w (.data m) replaced v) : Entered v := by
  refine h.queues hacc.queues hacc.conflate (fun hm => ?_) hacc.enters ?_
  · obtain ⟨hb, hi, -⟩ := hacc.waits hm
    exact ⟨hb, hi⟩
  · rw [hacc.reservation]
    exact h.frame

theorem recorded {parts : List Frame} (h : Entered w)
    (hrec : Recorded R w parts v) : Entered v where
  opened := by
    rw [hrec.opened, hrec.incomplete]
    rfl
  written hc := by
    rw [hrec.committed, hrec.bytesWritten, h.written (hrec.conflate ▸ hc), h.opened,
      ← dataBytes_of_recordWellFormed hrec.whole]
    simp only [dataBytes_append]
    exact satAdd_min _ _
  frame := by
    rw [hrec.reservation]
    exact h.frame

theorem reserves {payloadBytes : ℕ} {msgFlags : UInt8} {track : Bool}
    (h : Entered w) (hres : Reserves R w payloadBytes msgFlags track v) : Entered v where
  opened := by
    rw [hres.outPipe, hres.incomplete]
    exact h.opened
  written := by
    rw [hres.conflate, hres.outPipe, hres.bytesWritten]
    exact h.written
  frame r hr := by
    obtain ⟨r', hr', hpayload, -, hframe⟩ := hres.reservation
    rw [hr', Option.some.injEq] at hr
    rw [← hr, hframe, hpayload]

theorem pushDecoded {recvRoutingId : Bool}
    (h : Entered w) : Entered (w.pushDecoded (.data m) recvRoutingId replaced).2 := by
  rw [Writer.pushDecoded]
  split
  · exact h.release
  rcases writeReservedDecoderFrame_spec (w := w) (.data m) replaced with
    ⟨r, bytes, v, hr, hsize, -, hbytes, heq, hpush⟩ | heq
  · rw [heq]
    have hframe : r.frameBytes = (Frame.data m).accountedBytes := by
      rw [h.frame r hr, hsize, ← Frame.accountedBytes_eq]
    obtain rfl : bytes = (Frame.data m).accountedBytes :=
      hbytes.elim id fun hb => hb.trans hframe
    refine h.queues hpush.queues hpush.conflate (fun hm => ?_)
      (fun hm => (hpush.enters hm).1) (fun r hr => ?_)
    · obtain ⟨hb, hi, -⟩ := hpush.waits hm
      exact ⟨hb, hi⟩
    · simp [hpush.reservation] at hr
  · rw [heq]
    exact h.release.rollback

end Entered

theorem pushDecoded_extends (m : Frame) (recvRoutingId : Bool) (replaced : List Frame) :
    Extends w (w.pushDecoded m recvRoutingId replaced).2 := by
  rw [pushDecoded]
  split
  · exact extends_of_eq rfl rfl rfl rfl
  rcases writeReservedDecoderFrame_spec (w := w) m replaced with
    ⟨r, bytes, v, -, -, -, -, heq, hpush⟩ | heq
  · rw [heq]
    exact hpush.queues.extends hpush.conflate hpush.outGeneration
  · rw [heq]
    exact extends_of_eq rfl rfl rfl rfl

theorem raised_of_eq (h : v.credit = w.credit) : Raised R w v :=
  (Raised.refl w).congr h

theorem pushDecoded_raised (m : Frame) (recvRoutingId : Bool) (replaced : List Frame) :
    Raised R w (w.pushDecoded m recvRoutingId replaced).2 := by
  rw [pushDecoded]
  split
  · exact raised_of_eq rfl
  rcases writeReservedDecoderFrame_spec (w := w) m replaced with
    ⟨r, bytes, v, -, -, -, -, heq, hpush⟩ | heq
  · rw [heq]
    exact raised_of_eq hpush.credit_eq
  · rw [heq]
    exact raised_of_eq rfl

theorem flush_raised (w : Writer) : Raised R w w.flush := by
  rw [flush_eq]
  exact raised_of_eq rfl

theorem delimitOutbound_raised (w : Writer) : Raised R w w.delimitOutbound := by
  rw [delimitOutbound]
  refine Raised.trans ?_ (flush_raised _)
  exact raised_of_eq rfl

theorem transitionToInactiveState_raised (w : Writer) (state : LifecycleState) :
    Raised R w (w.transitionToInactiveState state) := by
  rw [transitionToInactiveState]
  split
  · exact Raised.refl w
  · exact raised_of_eq rfl

theorem terminate_raised (w : Writer) (delay : Bool) : Raised R w (w.terminate delay) := by
  rw [terminate]
  split
  · exact Raised.refl w
  · exact Raised.refl w
  · exact Raised.refl w
  · exact (transitionToInactiveState_raised w _).trans (delimitOutbound_raised _)
  · exact (transitionToInactiveState_raised w _).trans (delimitOutbound_raised _)
  split
  · exact delimitOutbound_raised w
  · exact Raised.trans (v := { w with outActive := false }.rollback)
      (raised_of_eq rfl) (transitionToInactiveState_raised _ _)

structure Proceeds (R : Ledger → Prop) (w v : Writer) : Prop where
  queue : Extends w v
  raised : Raised R w v
  entered : Entered w → Entered v

theorem Settles.proceeds (h : Settles R w v) : Proceeds R w v where
  queue := h.shows.extends
  raised := h.raised
  entered hw := hw.settles h

end Writer

open Writer in
theorem Op.proceeds {R : Ledger → Prop} {w v : Writer} {op : Op} {ok : Bool}
    (hpost : op.Post R w (ok, v)) : Proceeds R w v := by
  cases op with
  | checkWrite | checkPublishRecordHwm | admitOwnerMessageStart | holdWrites | releaseWrites
  | flowState | takeHwmCreditRecovery | refreshWriteCredit => exact Settles.proceeds hpost
  | write entry m replaced =>
    cases ok with
    | true =>
      obtain ⟨hacc, -⟩ := hpost.1 rfl
      exact
        { queue := hacc.queues.extends hacc.conflate hacc.outGeneration
          raised := hacc.raised
          entered := fun h => h.accepted hacc }
    | false => exact (hpost.2 rfl).proceeds
  | completeRecord parts =>
    cases ok with
    | true =>
      obtain ⟨hrec, -⟩ := hpost.1 rfl
      exact
        { queue :=
            { conflate := hrec.conflate
              outGeneration := hrec.outGeneration
              flushed := hrec.flushed
              committed := hrec.committed ▸ List.prefix_append _ _ }
          raised := hrec.raised
          entered := fun h => h.recorded hrec }
    | false => exact (hpost.2 rfl).proceeds
  | reserve payloadBytes msgFlags recv =>
    cases ok with
    | true =>
      have hres := hpost.1 rfl
      exact
        { queue := extends_of_eq hres.conflate hres.outGeneration
            (by rw [hres.outPipe]) (by rw [hres.outPipe])
          raised := hres.raised
          entered := fun h => h.reserves hres }
    | false => exact (hpost.2 rfl).proceeds
  | push m recv replaced =>
    obtain rfl : v = (w.pushDecoded (.data m) recv replaced).2 :=
      congrArg Prod.snd hpost
    exact ⟨pushDecoded_extends .., pushDecoded_raised .., fun h => h.pushDecoded⟩
  | flush =>
    obtain ⟨-, rfl⟩ := Prod.mk.inj hpost
    exact ⟨flush_extends w, flush_raised w, fun h => h.flush⟩
  | rollback =>
    obtain ⟨-, rfl⟩ := Prod.mk.inj hpost
    exact ⟨extends_of_eq rfl rfl rfl rfl, raised_of_eq rfl, fun h => h.rollback⟩
  | engineError =>
    obtain ⟨-, rfl⟩ := Prod.mk.inj hpost
    exact ⟨extends_of_eq rfl rfl rfl rfl, raised_of_eq rfl, fun h => h.release.rollback⟩
  | setHwm | setMaxMessageBytes =>
    obtain ⟨-, rfl⟩ := Prod.mk.inj hpost
    exact ⟨extends_of_eq rfl rfl rfl rfl, raised_of_eq rfl,
      fun h => h.congr rfl rfl rfl rfl rfl rfl⟩
  | terminate delay =>
    obtain ⟨-, rfl⟩ := Prod.mk.inj hpost
    exact ⟨terminate_extends w delay, terminate_raised w delay, fun h => h.terminate delay⟩
  | retire state =>
    obtain ⟨-, rfl⟩ := Prod.mk.inj hpost
    exact ⟨transitionToInactiveState_extends w state, transitionToInactiveState_raised w state,
      fun h => h.transitionToInactiveState state⟩

/-- A link with what the reader's counter came to in each generation, the generation
each credit on its way was produced in, and the deliveries that changed the writer:
where the credit was produced and where it arrived. -/
structure Audited where
  link : Link
  readIn : ℕ → Ledger
  origins : List ℕ
  applied : List (ℕ × ℕ)

namespace Audited

def init (hwm : ℕ) (conflate registryAccounting : Bool) : Audited :=
  { link := Link.init hwm conflate registryAccounting
    readIn := fun _ => .zero
    origins := []
    applied := [] }

def producer (x : Audited) : Event → ℕ
  | .correlationReleased => x.link.writer.seen.outGeneration
  | _ => x.link.reader.seen.inGeneration

def originsAfter (x : Audited) (e : Event) (l : Link) : List ℕ :=
  match e with
  | .deliver i => x.origins.eraseIdx i
  | e => x.origins ++ List.replicate (l.credits.length - x.link.credits.length) (x.producer e)

def appliedAfter (x : Audited) (e : Event) (l : Link) : List (ℕ × ℕ) :=
  match e with
  | .deliver i =>
    match x.origins[i]? with
    | some origin =>
      if l.writer.seen = x.link.writer.seen then x.applied
      else x.applied ++ [(origin, x.link.writer.seen.outGeneration)]
    | none => x.applied
  | _ => x.applied

/-- The link has moved to `l`. -/
def next (x : Audited) (e : Event) (l : Link) : Audited :=
  { link := l
    readIn :=
      Function.update x.readIn l.reader.seen.inGeneration l.reader.seen.credit
    origins := x.originsAfter e l
    applied := x.appliedAfter e l }

def step (x : Audited) (e : Event) : Option Audited :=
  (x.link.step e).map (x.next e)

abbrev run (x : Audited) (es : List Event) : Option Audited :=
  Trace.run step x es

/-- The writing end as the other threads see it. -/
def writer (x : Audited) : Writer :=
  x.link.writer.seen

def Conserved (x : Audited) : Prop :=
  x.writer.credit ≤ x.readIn x.writer.outGeneration ∧
    (x.readIn x.writer.outGeneration).bytes ≤ dataBytes x.writer.outPipe.committed ∧
    (x.writer.conflate = false → (x.readIn x.writer.outGeneration).bytes ≤ x.writer.bytesWritten) ∧
    ∀ p ∈ x.applied, p.1 = p.2

end Audited

namespace WriterThread

open Writer

variable {R : Ledger → Prop} {t : WriterThread} {op : Op} {before : Writer}
  {p : Access (Bool × Writer)} {b : Ledger}

/-- The credit is within `b`, and an operation that has not ended keeps it within
whatever its loads keep to. -/
def Within (b : Ledger) : WriterThread → Prop
  | idle w => w.credit ≤ b ∧ w.Entered
  | busy op before w k =>
    before.credit ≤ b ∧ before.Entered ∧ ∀ c, b ≤ c →
        Runs (fun l => l ≤ c) before (.ask w () k) (op.Post (fun l => l ≤ c) before)

theorem Within.mono {c : Ledger} (h : t.Within b) (hbc : b ≤ c) : t.Within c := by
  cases t with
  | idle w => exact ⟨h.1.trans hbc, h.2⟩
  | busy op before w k =>
    exact ⟨h.1.trans hbc, h.2.1, fun d hd => h.2.2 d (hbc.trans hd)⟩

theorem Within.settle (hb : before.credit ≤ b) (he : before.Entered) (hp : ∀ c, b ≤ c →
      Runs (fun l => l ≤ c) before p (op.Post (fun l => l ≤ c) before)) :
    (settle op before p).Within b := by
  match p with
  | .done (ok, v) =>
    have hv := Op.proceeds (hp b le_rfl)
    exact ⟨hv.raised.bounded b hb fun l hl => hl, hv.entered he⟩
  | .ask v () k => exact ⟨hb, he, hp⟩

theorem settle_extends (hp : Runs R before p (op.Post R before)) :
    Extends before (settle op before p).seen := by
  match p with
  | .done (ok, v) => exact (Op.proceeds hp).queue
  | .ask v () k => exact (Prog.holds_ask.mp hp).1.extends

theorem Within.shows {w : Writer} {k : Ledger → Access (Bool × Writer)}
    (h : (busy op before w k).Within b) : Shows (fun l => l ≤ b) before w :=
  (Prog.holds_ask.mp (h.2.2 b le_rfl)).1

theorem Within.credited (h : t.Within b) : t.seen.credit ≤ b := by
  cases t with
  | idle w => exact h.1
  | busy op before w k => exact h.shows.raised.bounded b h.1 fun l hl => hl

theorem Within.written (h : t.Within b) (hc : t.seen.conflate = false) :
    t.seen.bytesWritten = min uint64Max (dataBytes t.seen.outPipe.committed) := by
  cases t with
  | idle w => exact h.2.written hc
  | busy op before w k =>
    have hs := h.shows
    rw [seen, hs.committed, hs.bytesWritten]
    exact h.2.1.written (hs.conflate ▸ hc)

end WriterThread

namespace Audited

open Writer

/-- The reading end as the other threads see it. -/
def reader (x : Audited) : Reader :=
  x.link.reader.seen

structure Ok (x : Audited) : Prop where
  behind : x.writer.outGeneration ≤ x.reader.inGeneration
  hiccups : x.link.hiccups = List.range' (x.writer.outGeneration + 1)
    (x.reader.inGeneration - x.writer.outGeneration)
  current : x.readIn x.reader.inGeneration = x.reader.credit
  published : x.reader.published = x.reader.credit
  read_le : x.reader.bytesRead ≤ uint64Max
  ahead : ∀ g, x.writer.outGeneration < g → x.readIn g = .zero
  fresh : x.writer.outGeneration < x.reader.inGeneration →
    x.reader.inIncompleteBytes = 0 ∧ x.reader.taken = 0
  taken : x.reader.inGeneration = x.writer.outGeneration →
    x.reader.taken ≤ x.writer.outPipe.flushed.length ∧
      x.reader.bytesRead + x.reader.inIncompleteBytes ≤
        dataBytes (x.writer.outPipe.flushed.take x.reader.taken)
  total : (x.readIn x.writer.outGeneration).bytes ≤ uint64Max ∧
    (x.readIn x.writer.outGeneration).bytes ≤ dataBytes x.writer.outPipe.committed
  credits : ∀ c ∈ x.link.credits, c.ledger ≤ x.readIn c.generation
  origins : x.origins = x.link.credits.map Credit.generation
  applied : ∀ p ∈ x.applied, p.1 = p.2
  writing : x.link.writer.Within (x.readIn x.writer.outGeneration)
  reading : x.link.reader.Sound

variable {x : Audited}

theorem Ok.conserved (h : x.Ok) : x.Conserved := by
  refine ⟨h.writing.credited, h.total.2, fun hc => ?_, h.applied⟩
  have hw := h.writing.written hc
  exact (le_min h.total.1 h.total.2).trans hw.ge

theorem ok_init (hwm : ℕ) (conflate registryAccounting : Bool) :
    (init hwm conflate registryAccounting).Ok where
  behind := le_rfl
  hiccups := rfl
  current := rfl
  published := rfl
  read_le := Nat.zero_le _
  ahead _ _ := rfl
  fresh h := absurd h (lt_irrefl _)
  taken _ := ⟨Nat.zero_le _, Nat.zero_le _⟩
  total := ⟨Nat.zero_le _, Nat.zero_le _⟩
  credits _ h := by simp [init, Link.init] at h
  origins := rfl
  applied _ h := by simp [init] at h
  writing :=
    ⟨le_rfl,
      { opened := rfl
        written := fun _ => rfl
        frame := nofun }⟩
  reading := trivial

/-- The reader's counter in its own generation is the only entry that an event can
change. -/
theorem Ok.readIn_of_reader_eq {x : Audited} (h : x.Ok) {e : Event} {l : Link}
    (hr : l.reader = x.link.reader) : (x.next e l).readIn = x.readIn := by
  rw [next, hr]
  exact Function.update_eq_self_iff.mpr h.current.symm

theorem take_eq_of_isPrefix {as bs : List Frame} {n : ℕ} (h : as <+: bs)
    (hn : n ≤ as.length) : bs.take n = as.take n := by
  obtain ⟨cs, rfl⟩ := h
  exact List.take_append_of_le_length hn

variable {e : Event}

theorem Ok.write (h : x.Ok) {t : WriterThread}
    (hext : Extends x.writer t.seen) (hin : t.Within (x.readIn x.writer.outGeneration))
    (ho : x.originsAfter e { x.link with writer := t } = x.origins)
    (ha : x.appliedAfter e { x.link with writer := t } = x.applied) :
    (x.next e { x.link with writer := t }).Ok := by
  set y := x.next e { x.link with writer := t } with hy
  have hread : y.readIn = x.readIn := h.readIn_of_reader_eq rfl
  have hgen : y.writer.outGeneration = x.writer.outGeneration := hext.outGeneration
  have hreader : y.reader = x.reader := rfl
  constructor
  · rw [hgen, hreader]
    exact h.behind
  · rw [hgen, hreader]
    exact h.hiccups
  · rw [hread, hreader]
    exact h.current
  · exact h.published
  · exact h.read_le
  · rw [hgen, hread]
    exact h.ahead
  · rw [hgen, hreader]
    exact h.fresh
  · rw [hgen, hreader]
    intro heq
    obtain ⟨hle, hbytes⟩ := h.taken heq
    refine ⟨hle.trans hext.flushed.length_le, ?_⟩
    exact (take_eq_of_isPrefix hext.flushed hle).symm ▸ hbytes
  · rw [hgen, hread]
    exact ⟨h.total.1, h.total.2.trans (dataBytes_le_of_isPrefix hext.committed)⟩
  · rw [hread]
    exact h.credits
  · exact ho.trans h.origins
  · intro p hp
    exact h.applied p (ha ▸ hp)
  · rw [hgen, hread]
    exact hin
  · exact h.reading

theorem Ok.read {x : Audited} (h : x.Ok) {e : Event} {t : ReaderThread}
    {sent : List Credit} (hgen : t.seen.inGeneration = x.reader.inGeneration)
    (hmono : x.reader.credit ≤ t.seen.credit) (hpub : t.seen.published = t.seen.credit)
    (hmax : t.seen.bytesRead ≤ uint64Max) (hsound : t.Sound)
    (hfresh : x.writer.outGeneration < x.reader.inGeneration →
      t.seen.credit = .zero ∧ t.seen.inIncompleteBytes = 0 ∧ t.seen.taken = 0)
    (htaken : x.reader.inGeneration = x.writer.outGeneration →
      t.seen.taken ≤ x.writer.outPipe.flushed.length ∧ t.seen.bytesRead + t.seen.inIncompleteBytes ≤
          dataBytes (x.writer.outPipe.flushed.take t.seen.taken))
    (hsent : ∀ c ∈ sent, c.generation = x.reader.inGeneration ∧ c.ledger ≤ t.seen.credit)
    (ho : x.originsAfter e { x.link with reader := t, credits := x.link.credits ++ sent } =
      x.origins ++ sent.map Credit.generation) (ha : x.appliedAfter e
        { x.link with reader := t, credits := x.link.credits ++ sent } = x.applied) :
    (x.next e { x.link with reader := t, credits := x.link.credits ++ sent }).Ok := by
  set y := x.next e { x.link with reader := t, credits := x.link.credits ++ sent }
    with hy
  have hread : y.readIn = Function.update x.readIn x.reader.inGeneration t.seen.credit := by
    rw [← hgen]
    rfl
  have hself : y.readIn x.reader.inGeneration = t.seen.credit := by
    rw [hread, Function.update_self]
  have hother : ∀ g, g ≠ x.reader.inGeneration → y.readIn g = x.readIn g := by
    intro g hg
    rw [hread, Function.update_of_ne hg]
  have hle : ∀ g, x.readIn g ≤ y.readIn g := by
    intro g
    by_cases hg : g = x.reader.inGeneration
    · rw [hg, hself, h.current]
      exact hmono
    · rw [hother g hg]
  have hwriter : y.writer = x.writer := rfl
  have hreader : y.reader = t.seen := rfl
  constructor
  · rw [hwriter, hreader, hgen]
    exact h.behind
  · rw [hwriter, hreader, hgen]
    exact h.hiccups
  · rw [hreader, hgen, hself]
  · exact hpub
  · exact hmax
  · rw [hwriter]
    intro g hg
    by_cases hrg : g = x.reader.inGeneration
    · rw [hrg, hself]
      exact (hfresh (hrg ▸ hg)).1
    · rw [hother g hrg]
      exact h.ahead g hg
  · rw [hwriter, hreader, hgen]
    exact fun hlt => (hfresh hlt).2
  · rw [hwriter, hreader, hgen]
    exact htaken
  · rw [hwriter]
    by_cases hrg : x.writer.outGeneration = x.reader.inGeneration
    · rw [hrg, hself]
      refine ⟨hmax, ?_⟩
      obtain ⟨-, hbytes⟩ := htaken hrg.symm
      have htake := dataBytes_le_of_isPrefix
        (List.take_prefix t.seen.taken x.writer.outPipe.flushed)
      have hflushed := dataBytes_le_of_isPrefix
        (List.prefix_append x.writer.outPipe.flushed x.writer.outPipe.complete)
      exact (Nat.le_of_add_right_le hbytes).trans (htake.trans hflushed)
    · rw [hother _ hrg]
      exact h.total
  · intro c hc
    rcases List.mem_append.mp hc with hc | hc
    · exact (h.credits c hc).trans (hle _)
    · obtain ⟨hcgen, hbytes⟩ := hsent c hc
      rw [hcgen, hself]
      exact hbytes
  · rw [show y.origins = _ from ho, h.origins]
    exact List.map_append.symm
  · intro p hp
    exact h.applied p (ha ▸ hp)
  · rw [hwriter]
    exact h.writing.mono (hle _)
  · exact hsound

theorem Ok.sampled (h : x.Ok) : x.reader.published ≤ x.readIn x.writer.outGeneration := by
  rw [h.published, ← h.current]
  rcases h.behind.lt_or_eq with hlt | heq
  · rw [h.ahead _ hlt]
    exact Ledger.zero_le _
  · rw [heq]

theorem Ok.start {x : Audited} (h : x.Ok) {op : Op} {w : Writer} (hw : x.link.writer = .idle w) :
    (x.next (.start op) { x.link with writer := .settle op w (op.program w) }).Ok := by
  have hin := h.writing
  have hseen : x.writer = w := by rw [writer, hw, WriterThread.seen]
  rw [hw] at hin
  apply h.write
  · rw [hseen]
    exact WriterThread.settle_extends (R := fun _ => True) (Op.runs op)
  · exact WriterThread.Within.settle hin.1 hin.2 fun c _ => Op.runs op
  · simp [originsAfter]
  · rfl

theorem Ok.resume {x : Audited} (h : x.Ok) {op : Op} {before w : Writer}
    {k : Ledger → Access (Bool × Writer)} (hw : x.link.writer = .busy op before w k) :
    (x.next .resume { x.link with
        writer := .settle op before (k x.link.reader.seen.published) }).Ok := by
  have hin := h.writing
  have hseen : x.writer = w := by rw [writer, hw, WriterThread.seen]
  rw [hw] at hin
  -- What is loaded keeps to every bound that the credit may grow to.
  have hgoes : ∀ c, x.readIn x.writer.outGeneration ≤ c →
      Runs (fun l => l ≤ c) before (k x.reader.published) (op.Post (fun l => l ≤ c) before) := by
    intro c hc
    exact (Prog.holds_ask.mp (hin.2.2 c hc)).2 _ (h.sampled.trans hc)
  apply h.write
  · rw [hseen]
    exact hin.shows.extended.trans (WriterThread.settle_extends (hgoes _ le_rfl))
  · exact WriterThread.Within.settle hin.1 hin.2.1 hgoes
  · simp [originsAfter]
  · rfl

theorem processActivateWrite_extends (w : Writer) (generation : ℕ) (credit : Ledger) :
    Extends w (w.processActivateWrite generation credit) := by
  rw [processActivateWrite]
  split
  · dsimp only
    split <;> exact extends_of_eq rfl rfl rfl rfl
  · exact Extends.refl w

theorem processActivateWrite_entered {w : Writer} (h : w.Entered) (generation : ℕ)
    (credit : Ledger) : (w.processActivateWrite generation credit).Entered := by
  rw [processActivateWrite]
  split
  · dsimp only
    split <;> exact h.congr rfl rfl rfl rfl rfl rfl
  · exact h

theorem processActivateWrite_credited (w : Writer) (generation : ℕ) (credit : Ledger) :
    (generation ≠ w.outGeneration ∧ w.processActivateWrite generation credit = w) ∨
      (generation = w.outGeneration ∧
        (w.processActivateWrite generation credit).credit = credit) := by
  by_cases hg : generation = w.outGeneration
  · refine .inr ⟨hg, ?_⟩
    rw [processActivateWrite, if_pos hg]
    dsimp only
    split <;> rfl
  · exact .inl ⟨hg, if_neg hg⟩

theorem Ok.deliver {x : Audited} (h : x.Ok) {w : Writer} {i : ℕ} {c : Credit}
    (hw : x.link.writer = .idle w) (hc : x.link.credits[i]? = some c) :
    (x.next (.deliver i)
      { x.link with
        writer := .idle (w.processActivateWrite c.generation c.ledger)
        credits := x.link.credits.eraseIdx i }).Ok := by
  have hin := h.writing
  have hseen : x.writer = w := by rw [writer, hw, WriterThread.seen]
  rw [hw, hseen] at hin
  have hext := processActivateWrite_extends w c.generation c.ledger
  have hbytes : (w.processActivateWrite c.generation c.ledger).credit ≤
      x.readIn w.outGeneration := by
    rcases processActivateWrite_credited w c.generation c.ledger with
      ⟨-, heq⟩ | ⟨hg, heq⟩
    · rw [heq]
      exact hin.1
    · rw [heq, ← hg]
      exact h.credits c (List.mem_of_getElem? hc)
  -- The writer's move alone, and then the command that is gone.
  have hmoved := h.write (e := .deliverHiccup)
    (t := .idle (w.processActivateWrite c.generation c.ledger))
    (by rw [hseen]; exact hext)
    (by rw [hseen]; exact ⟨hbytes, processActivateWrite_entered hin.2 _ _⟩)
    (by simp [originsAfter]) rfl
  have horigin : x.origins[i]? = some c.generation := by
    rw [h.origins, List.getElem?_map, hc]
    rfl
  exact
    { behind := hmoved.behind
      hiccups := hmoved.hiccups
      current := hmoved.current
      published := hmoved.published
      read_le := hmoved.read_le
      ahead := hmoved.ahead
      fresh := hmoved.fresh
      taken := hmoved.taken
      total := hmoved.total
      credits := fun d hd => hmoved.credits d (List.mem_of_mem_eraseIdx hd)
      origins := by
        change x.origins.eraseIdx i = (x.link.credits.eraseIdx i).map Credit.generation
        rw [h.origins, List.eraseIdx_map]
      applied := by
        intro p hp
        simp only [next, appliedAfter, horigin, hw, WriterThread.seen] at hp
        split at hp
        case isTrue => exact h.applied p hp
        case isFalse hne =>
          rcases List.mem_append.mp hp with hp | hp
          · exact h.applied p hp
          · rw [List.mem_singleton] at hp
            rcases processActivateWrite_credited w c.generation c.ledger with
              ⟨-, heq⟩ | ⟨hg, -⟩
            · exact absurd heq hne
            · rw [hp]
              exact hg
      writing := hmoved.writing
      reading := hmoved.reading }

theorem Ok.deliverHiccup {x : Audited} (h : x.Ok) {w : Writer} {generation : ℕ}
    {hiccups : List ℕ} (hw : x.link.writer = .idle w)
    (hh : x.link.hiccups = generation :: hiccups) : (x.next .deliverHiccup
      { x.link with writer := .idle (w.processHiccup generation), hiccups }).Ok := by
  set y := x.next .deliverHiccup
    { x.link with writer := .idle (w.processHiccup generation), hiccups } with hy
  have hseen : x.writer = w := by rw [writer, hw, WriterThread.seen]
  have hread : y.readIn = x.readIn := h.readIn_of_reader_eq rfl
  have hreader : y.reader = x.reader := rfl
  -- The command is for the next generation, which the reader has reached.
  have hlist := h.hiccups
  rw [hh, hseen] at hlist
  obtain ⟨n, hn⟩ : ∃ n, x.reader.inGeneration - w.outGeneration = n + 1 := by
    apply Nat.exists_eq_succ_of_ne_zero
    intro hzero
    rw [hzero] at hlist
    simp at hlist
  rw [hn, List.range'_succ, List.cons.injEq] at hlist
  obtain ⟨hgeneration, hrest⟩ := hlist
  have hgen : y.writer.outGeneration = w.outGeneration + 1 := hgeneration
  have hzero : x.readIn (w.outGeneration + 1) = .zero := by
    apply h.ahead
    rw [hseen]
    exact Nat.lt_succ_self _
  have hlt : x.writer.outGeneration < x.reader.inGeneration := by
    rw [hseen]
    omega
  constructor
  · rw [hgen, hreader]
    omega
  · rw [hgen, hreader, show x.reader.inGeneration - (w.outGeneration + 1) = n by omega]
    exact hrest
  · rw [hread, hreader]
    exact h.current
  · exact h.published
  · exact h.read_le
  · rw [hgen, hread]
    intro g hg
    exact h.ahead g (by rw [hseen]; omega)
  · rw [hreader]
    exact fun _ => h.fresh hlt
  · rw [hgen, hreader]
    intro _
    obtain ⟨hinc, htaken⟩ := h.fresh hlt
    have hbytes : x.reader.bytesRead = 0 := by
      have hcurrent := h.current
      rw [h.ahead _ hlt] at hcurrent
      exact (congrArg Ledger.bytes hcurrent).symm
    rw [hinc, htaken, hbytes]
    exact ⟨Nat.zero_le _, Nat.zero_le _⟩
  · rw [hgen, hread, hzero]
    exact ⟨Nat.zero_le _, Nat.zero_le _⟩
  · rw [hread]
    exact h.credits
  · simp [hy, next, originsAfter, h.origins]
  · exact h.applied
  · have hres := h.writing
    rw [hw] at hres
    exact ⟨Ledger.zero_le _,
        { opened := rfl
          written := fun _ => rfl
          frame := hres.2.frame }⟩
  · exact h.reading

theorem Ok.hiccup {x : Audited} (h : x.Ok) {r : Reader} (hr : x.link.reader = .idle r) :
    (x.next .hiccup
      { x.link with
        reader := .idle r.hiccup
        hiccups := x.link.hiccups ++ [r.hiccup.inGeneration] }).Ok := by
  set y := x.next .hiccup
    { x.link with
      reader := .idle r.hiccup
      hiccups := x.link.hiccups ++ [r.hiccup.inGeneration] } with hy
  have hseen : x.reader = r := by rw [reader, hr, ReaderThread.seen]
  have hbehind := h.behind
  rw [hseen] at hbehind
  -- Nothing was read in the generation that begins.
  have hread : y.readIn = x.readIn := by
    apply Function.update_eq_self_iff.mpr
    exact (h.ahead _ (Nat.lt_succ_of_le hbehind)).symm
  have hwriter : y.writer = x.writer := rfl
  have hreader : y.reader = r.hiccup := rfl
  constructor
  · rw [hwriter, hreader]
    exact hbehind.trans (Nat.le_succ _)
  · rw [hwriter, hreader]
    change x.link.hiccups ++ [r.inGeneration + 1] = _
    rw [h.hiccups, hseen, show r.hiccup.inGeneration - x.writer.outGeneration =
        (r.inGeneration - x.writer.outGeneration) + 1 from Nat.succ_sub hbehind,
      List.range'_concat]
    congr 2
    omega
  · rw [hread, hreader]
    exact h.ahead _ (Nat.lt_succ_of_le hbehind)
  · rfl
  · exact Nat.zero_le _
  · rw [hread]
    exact h.ahead
  · exact fun _ => ⟨rfl, rfl⟩
  · exact fun _ => ⟨Nat.zero_le _, Nat.zero_le _⟩
  · rw [hread]
    exact h.total
  · rw [hread]
    exact h.credits
  · simp [hy, next, originsAfter, h.origins]
  · exact h.applied
  · rw [hread]
    exact h.writing
  · trivial

theorem Ok.correlationReleased {x : Audited} (h : x.Ok) {w : Writer}
    (hw : x.link.writer = .idle w) : (x.next .correlationReleased { x.link with
        credits := x.link.credits ++
          [{ generation := w.outGeneration, ledger := w.credit }] }).Ok := by
  have hread := h.readIn_of_reader_eq (e := .correlationReleased) (l := { x.link with
        credits := x.link.credits ++ [{ generation := w.outGeneration, ledger := w.credit }] }) rfl
  have hin := h.writing
  rw [writer, hw, WriterThread.seen] at hin
  exact
    { behind := h.behind
      hiccups := h.hiccups
      current := hread ▸ h.current
      published := h.published
      read_le := h.read_le
      ahead := hread ▸ h.ahead
      fresh := h.fresh
      taken := h.taken
      total := hread ▸ h.total
      credits := by
        intro c hc
        rw [hread]
        rcases List.mem_append.mp hc with hc | hc
        · exact h.credits c hc
        · rw [List.mem_singleton] at hc
          rw [hc]
          exact hin.1
      origins := by
        simp [next, originsAfter, producer, h.origins, hw, WriterThread.seen]
      applied := h.applied
      writing := hread ▸ h.writing
      reading := h.reading }

/-- What `take` has taken was flushed in the reader's generation. -/
theorem take_spec {w : Writer} {r r' : Reader} {skipped : ℕ} {m : Frame}
    {exhausted : Bool} (h : Link.take w r skipped = some (m, exhausted, r')) :
    r.inGeneration = w.outGeneration ∧ w.outPipe.flushed[r.taken + skipped]? = some m ∧
      r' = { r with taken := r.taken + skipped + 1, prefetched := r'.prefetched } := by
  rw [Link.take] at h
  split at h
  case h_1 => simp at h
  case h_2 m' rest hdrop =>
    obtain ⟨rfl, hrest⟩ := Prod.mk.inj (Option.some.inj h)
    obtain ⟨-, rfl⟩ := Prod.mk.inj hrest
    rw [Link.unread] at hdrop
    split at hdrop
    case isTrue hg =>
      refine ⟨hg, ?_, rfl⟩
      rw [List.drop_drop] at hdrop
      rw [← List.head?_drop, hdrop, List.head?_cons]
    case isFalse => simp at hdrop

theorem dataBytes_take_succ_le {frames : List Frame} {n k : ℕ} {m : Frame}
    (h : frames[n + k]? = some m) : n + k + 1 ≤ frames.length ∧
      dataBytes (frames.take n) + m.committedAccountedBytes ≤
        dataBytes (frames.take (n + k + 1)) := by
  obtain ⟨hlt, hm⟩ := List.getElem?_eq_some_iff.mp h
  refine ⟨hlt, ?_⟩
  rw [List.take_succ_eq_append_getElem hlt, dataBytes_append, hm]
  have hpre := dataBytes_le_of_isPrefix
    (List.take_prefix_take_left (l := frames) (Nat.le_add_right n k))
  have hone : dataBytes [m] = m.committedAccountedBytes := by simp [dataBytes]
  omega

theorem countFrame_spec (r : Reader) (m : Frame) : (r.countFrame m).inGeneration = r.inGeneration ∧
      (r.countFrame m).taken = r.taken ∧
      (r.countFrame m).bytesRead + (r.countFrame m).inIncompleteBytes ≤
        r.bytesRead + r.inIncompleteBytes + m.accountedBytes ∧ (r.bytesRead ≤ uint64Max →
        r.credit ≤ (r.countFrame m).credit ∧ (r.countFrame m).bytesRead ≤ uint64Max) ∧
      (r.published = r.credit → (r.countFrame m).published = (r.countFrame m).credit) := by
  have hgrown := satAdd_le r.inIncompleteBytes m.accountedBytes
  rw [Reader.countFrame]
  dsimp only
  split
  · refine ⟨rfl, rfl, ?_, fun hmax => ⟨le_rfl, hmax⟩, fun hp => hp⟩
    dsimp only
    omega
  · have hread := satAdd_le r.bytesRead (satAdd r.inIncompleteBytes m.accountedBytes)
    refine ⟨rfl, rfl, ?_, fun hmax => ⟨⟨?_, le_satAdd hmax⟩, satAdd_le_max hmax⟩, fun _ => rfl⟩
    · dsimp only
      omega
    · dsimp only [Reader.credit]
      split <;> omega

theorem originsAfter_of_sent {t : ReaderThread} {sent : List Credit} (he : ∀ i, e ≠ .deliver i)
    (hp : sent = [] ∨ ∃ c, sent = [c] ∧ c.generation = x.producer e) :
    x.originsAfter e { x.link with reader := t, credits := x.link.credits ++ sent } =
      x.origins ++ sent.map Credit.generation := by
  cases e with
  | deliver i => exact absurd rfl (he i)
  | _ =>
    rcases hp with rfl | ⟨c, rfl, hc⟩
    · simp [originsAfter]
    · simp [originsAfter, hc]

/-- A turn goes on from the state `s`, in which the frame it is about is counted. -/
theorem Ok.turn {x : Audited} (h : x.Ok) {e : Event} {s : Reader}
    {p : Look (Reader × Option Ledger)} (hp : Reader.Turns s p (Reader.Concludes s))
    (hgen : s.inGeneration = x.reader.inGeneration) (hmono : x.reader.credit ≤ s.credit)
    (hpub : s.published = s.credit) (hmax : s.bytesRead ≤ uint64Max)
    (hfresh : x.writer.outGeneration < x.reader.inGeneration →
      s.credit = .zero ∧ s.inIncompleteBytes = 0 ∧ s.taken = 0)
    (htaken : x.reader.inGeneration = x.writer.outGeneration →
      s.taken ≤ x.writer.outPipe.flushed.length ∧ s.bytesRead + s.inIncompleteBytes ≤
          dataBytes (x.writer.outPipe.flushed.take s.taken)) (he : ∀ i, e ≠ .deliver i)
    (hprod : x.producer e = x.reader.inGeneration) : (x.next e (x.link.readerTurn p)).Ok := by
  obtain ⟨t, sent, hl, hs, hsound, hsent⟩ := Link.readerTurn_spec (l := x.link) hp
  rw [hl]
  have happlied : x.appliedAfter e
      { x.link with reader := t, credits := x.link.credits ++ sent } = x.applied := by
    cases e with
    | deliver i => exact absurd rfl (he i)
    | _ => rfl
  apply h.read (hs.inGeneration.trans hgen)
  · rw [hs.credit]
    exact hmono
  · rw [hs.published, hs.credit]
    exact hpub
  · rw [hs.bytesRead]
    exact hmax
  · exact hsound
  · rw [hs.credit, hs.inIncompleteBytes, hs.taken]
    exact hfresh
  · rw [hs.bytesRead, hs.inIncompleteBytes, hs.taken]
    exact htaken
  · intro c hc
    rcases hsent with rfl | rfl
    · simp at hc
    · rw [List.mem_singleton] at hc
      rw [hc, hs.credit]
      exact ⟨hgen, le_rfl⟩
  · apply originsAfter_of_sent he
    exact hsent.imp_right fun hone => ⟨_, hone, hgen.trans hprod.symm⟩
  · exact happlied

theorem Ok.quiet (h : x.Ok) {s : Reader}
    (hgen : s.inGeneration = x.reader.inGeneration) (hcredit : s.credit = x.reader.credit)
    (hpub : s.published = x.reader.published)
    (hinc : s.inIncompleteBytes = x.reader.inIncompleteBytes)
    (hfresh : x.writer.outGeneration < x.reader.inGeneration → s.taken = 0)
    (htaken : x.reader.inGeneration = x.writer.outGeneration →
      x.reader.taken ≤ s.taken ∧ s.taken ≤ x.writer.outPipe.flushed.length)
    (he : ∀ i, e ≠ .deliver i) (hprod : x.producer e = x.reader.inGeneration) :
    (x.next e { x.link with reader := .idle s }).Ok := by
  have hturn : Reader.Turns s (.done (s, none)) (Reader.Concludes s) :=
    ⟨Reader.Agrees.refl s, fun _ hno => by simp at hno⟩
  have hbytes : s.bytesRead = x.reader.bytesRead := congrArg Ledger.bytes hcredit
  refine h.turn hturn hgen hcredit.ge ?_ ?_ ?_ ?_ he hprod
  · rw [hpub, hcredit]
    exact h.published
  · rw [hbytes]
    exact h.read_le
  · intro hlt
    have hzero := h.current
    rw [h.ahead _ hlt] at hzero
    rw [hcredit, hinc]
    exact ⟨hzero.symm, (h.fresh hlt).1, hfresh hlt⟩
  · intro heq
    obtain ⟨hmore, hle⟩ := htaken heq
    refine ⟨hle, ?_⟩
    rw [hbytes, hinc]
    exact (h.taken heq).2.trans (dataBytes_le_of_isPrefix (List.take_prefix_take_left hmore))

theorem Ok.step {y : Audited} (h : x.Ok) (hs : x.step e = some y) : y.Ok := by
  obtain ⟨l, hl, rfl⟩ := Option.map_eq_some_iff.mp hs
  have hsteps := Link.steps_of_step hl
  cases hsteps with
  | start hw => exact h.start hw
  | resume hw => exact h.resume hw
  | deliver hw hc => exact h.deliver hw hc
  | deliverHiccup hw hh => exact h.deliverHiccup hw hh
  | hiccup hr => exact h.hiccup hr
  | correlationReleased hw => exact h.correlationReleased hw
  | @readDelimiter r r' skipped m exhausted hr hskip ht hm =>
    have hseen : x.reader = r := by rw [reader, hr, ReaderThread.seen]
    obtain ⟨hg, hget, hr'⟩ := take_spec ht
    obtain ⟨hle, -⟩ := dataBytes_take_succ_le hget
    apply h.quiet (e := .read skipped)
    · rw [hseen, hr']
    · rw [hseen, hr']
      rfl
    · rw [hseen, hr']
    · rw [hseen, hr']
    · rw [hseen]
      exact fun hlt => absurd hg hlt.ne'
    · intro _
      rw [hseen, hr']
      exact ⟨by dsimp only; omega, hle⟩
    · simp
    · rfl
  | @read r r' skipped m exhausted hr hskip ht hm =>
    have hseen : x.reader = r := by rw [reader, hr, ReaderThread.seen]
    obtain ⟨hg, hget, hr'⟩ := take_spec ht
    obtain ⟨hle, hbytes⟩ := dataBytes_take_succ_le hget
    have hm' : m.committedAccountedBytes = m.accountedBytes := by
      rw [Frame.committedAccountedBytes, hm]
      rfl
    obtain ⟨hcg, hct, hcb, hcm, hcp⟩ := countFrame_spec r' m
    have hrb : r'.bytesRead = r.bytesRead := by rw [hr']
    have hri : r'.inIncompleteBytes = r.inIncompleteBytes := by rw [hr']
    have hmax := h.read_le
    rw [hseen, ← hrb] at hmax
    refine h.turn (e := .read skipped)
      (Reader.accountInboundFrame_turns m exhausted) ?_ ?_ ?_ ?_ ?_ ?_
      (by simp) rfl
    · rw [hcg, hseen, hr']
    · rw [hseen]
      have hcredit : r'.credit = r.credit := by rw [hr']; rfl
      exact hcredit ▸ (hcm hmax).1
    · apply hcp
      have := h.published
      rw [hseen] at this
      rw [hr']
      exact this
    · exact (hcm hmax).2
    · rw [hseen]
      exact fun hlt => absurd hg hlt.ne'
    · intro heq
      have hbefore := (h.taken heq).2
      rw [hseen] at hbefore
      rw [hct, show r'.taken = r.taken + skipped + 1 by rw [hr']]
      refine ⟨hle, ?_⟩
      rw [hrb, hri] at hcb
      rw [hm'] at hbytes
      exact hcb.trans ((Nat.add_le_add_right hbefore _).trans hbytes)
  | @look r q k hr =>
    have hseen : x.reader = r := by rw [reader, hr, ReaderThread.seen]
    have hsound : Reader.Turns r (.ask r q k) (Reader.Concludes r) := by
      have := h.reading
      rw [hr] at this
      exact this
    refine h.turn (e := .look) ((Prog.holds_ask.mp hsound).2 _ trivial)
      ?_ ?_ ?_ ?_ ?_ ?_ (by simp) rfl
    · rw [hseen]
    · rw [hseen]
    · exact hseen ▸ h.published
    · exact hseen ▸ h.read_le
    · intro hlt
      have hzero := h.current
      rw [h.ahead _ hlt] at hzero
      rw [← hseen]
      exact ⟨hzero.symm, h.fresh hlt⟩
    · exact hseen ▸ h.taken
  | @plan r hwm lwmHint hr =>
    have hseen : x.reader = r := by rw [reader, hr, ReaderThread.seen]
    apply h.quiet (e := .plan hwm lwmHint)
    · rw [hseen]
    · rw [hseen]
      rfl
    · rw [hseen]
    · rw [hseen]
    · exact fun hlt => hseen ▸ (h.fresh hlt).2
    · exact fun heq => ⟨hseen ▸ le_rfl, hseen ▸ (h.taken heq).1⟩
    · simp
    · rfl
  | @applyPlan r hr =>
    have hseen : x.reader = r := by rw [reader, hr, ReaderThread.seen]
    apply h.quiet (e := .applyPlan)
    · rw [hseen, Reader.applyPlan]
    · rw [hseen, Reader.applyPlan]
      rfl
    · rw [hseen, Reader.applyPlan]
    · rw [hseen, Reader.applyPlan]
    · exact fun hlt => hseen ▸ (h.fresh hlt).2
    · exact fun heq => ⟨hseen ▸ le_rfl, hseen ▸ (h.taken heq).1⟩
    · simp
    · rfl

theorem Ok.run {y : Audited} {es : List Event} (h : x.Ok) (hs : x.run es = some y) : y.Ok := by
  refine Trace.run_invariant ?_ h (Trace.along_true x es) hs
  exact fun x e y hx _ hy => hx.step hy

/-- In every interleaving, what was credited was read in the writer's generation and
what was read in it was written in it, and no credit is applied to a generation it
was not produced in. -/
theorem run_conserved (hwm : ℕ) (conflate registryAccounting : Bool) (es : List Event) (x : Audited)
    (hrun : (init hwm conflate registryAccounting).run es = some x) : x.Conserved :=
  ((ok_init hwm conflate registryAccounting).run hrun).conserved

/-- A credit of the old queue comes behind the hiccup, and is not applied. -/
def crossing : List Event :=
  [.start (.write .single (parcel 64) []), .start (.write .single (parcel 64) []), .resume, .resume,
   .read 0, .look, .hiccup, .deliverHiccup, .deliver 0,
   .start (.write .single (parcel 80) [])]

theorem crossing_runs : ((init 100 false false).run crossing).isSome = true := by
  decide +kernel

theorem crossing_conserved : ∃ x, (init 100 false false).run crossing = some x ∧
      (x.readIn 1).bytes = 64 ∧ x.writer.peersBytesRead = 0 ∧ x.writer.bytesWritten = 80 ∧
      x.Conserved :=
  ⟨_, (Option.some_get crossing_runs).symm, by decide +kernel, by decide +kernel, by decide +kernel,
    run_conserved 100 false false crossing _ (Option.some_get crossing_runs).symm⟩

end Audited

end Zlink.Pipe
