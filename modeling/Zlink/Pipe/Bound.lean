import Zlink.Lib.Trace
import Zlink.Pipe.Operations

/-!
# The byte bound of a pipe

`Monitor` keeps beside a link what its writing end has committed under enforcement:
for each message its bytes, the high-water mark it was admitted under, the bytes in
flight behind it, whether it started on an empty pipe, and where it ends in the
ledger. A message is in flight while the credit does not reach its end.

The bound holds as long as no credit is delivered that is smaller than the credit
the writer has already: such a credit lowers it, and what was admitted against the
larger credit is committed against the smaller one.
-/

namespace Zlink.Pipe

open Protocol Suspension

structure Commit where
  bytes : ℕ
  hwm : ℕ
  inFlight : ℕ
  startedEmpty : Bool
  upTo : ℕ

namespace Commit

/-- The message is larger than the mark it was admitted under. -/
def oversize (c : Commit) : Bool :=
  decide (c.hwm ≠ 0) && decide (c.hwm < c.bytes)

def Bounded (c : Commit) : Prop :=
  c.hwm = 0 ∨ c.inFlight ≤ c.hwm ∨ c.startedEmpty = true

instance (c : Commit) : Decidable c.Bounded :=
  inferInstanceAs (Decidable (c.hwm = 0 ∨ c.inFlight ≤ c.hwm ∨ c.startedEmpty = true))

/-- The ledger shrank to `bytes`: no message ends behind it. -/
def clamp (bytes : ℕ) (c : Commit) : Commit :=
  { c with upTo := min c.upTo bytes }

end Commit

/-- What is known of the message in progress, and the messages committed so far,
the last one first. -/
structure Monitor where
  openedEmpty : Bool
  admittedHwm : ℕ
  log : List Commit

namespace Monitor

open Writer

def init : Monitor :=
  { openedEmpty := false, admittedHwm := 0, log := [] }

/-- Whether the message that the next frame belongs to started on an empty pipe: its
first frame finds all that was written credited. -/
def started (s : Monitor) (w v : Writer) : Bool :=
  if w.outIncompleteBytes = 0 then decide (w.bytesWritten ≤ v.peersBytesRead)
  else s.openedEmpty

/-- A message of `bytes` bytes was entered behind the first `start` bytes. -/
def commit (s : Monitor) (bytes hwm start : ℕ) (startedEmpty : Bool) (v : Writer) :
    Monitor :=
  { s with
    openedEmpty := false
    log :=
      { bytes
        hwm
        inFlight := v.inFlight
        startedEmpty
        upTo := v.bytesWritten } :: s.log.map (Commit.clamp start) }

/-- An operation went from `w` to `v`. -/
def after (s : Monitor) (w : Writer) (op : Op) (ok : Bool) (v : Writer) : Monitor :=
  match op, ok with
  | .write _ m replaced, true =>
    if (Frame.data m).commits then
      s.commit (w.outIncompleteBytes + (Frame.data m).accountedBytes) w.hwm
        (w.bytesWritten - w.replacedBytes replaced) (s.started w v) v
    else
      { s with
        openedEmpty := s.started w v
        log := s.log.map (Commit.clamp v.bytesWritten) }
  | .completeRecord parts, true =>
    s.commit (w.outIncompleteBytes + bytesOf parts) w.hwm w.bytesWritten
      (s.started w v) v
  | .reserve _ _ _, true =>
    { s with openedEmpty := s.started w v, admittedHwm := w.hwm }
  | .push m _ replaced, true =>
    if (Frame.data m).commits then
      s.commit (w.outIncompleteBytes + (Frame.data m).accountedBytes) s.admittedHwm
        (w.bytesWritten - w.replacedBytes replaced) s.openedEmpty v
    else
      { s with log := s.log.map (Commit.clamp v.bytesWritten) }
  | _, _ => s

def replaced (s : Monitor) : Monitor :=
  { s with log := s.log.map (Commit.clamp 0) }

end Monitor

structure Watched where
  link : Link
  seen : Monitor

namespace Link

def completed (l : Link) : Event → Option (Writer × Op × Bool × Writer)
  | .start op =>
    match l.writer with
    | .idle w =>
      match op.program w with
      | .done (ok, v) => some (w, op, ok, v)
      | .ask .. => none
    | .busy .. => none
  | .resume =>
    match l.writer with
    | .busy op before _ k =>
      match k l.reader.seen.published with
      | .done (ok, v) => some (before, op, ok, v)
      | .ask .. => none
    | .idle _ => none
  | _ => none

end Link

namespace Watched

def init (hwm : ℕ) (conflate registryAccounting : Bool) : Watched :=
  { link := Link.init hwm conflate registryAccounting, seen := .init }

def step (x : Watched) (e : Event) : Option Watched :=
  match x.link.step e with
  | none => none
  | some link =>
    match x.link.completed e, e with
    | some (w, op, ok, v), _ => some { link, seen := x.seen.after w op ok v }
    | none, .deliverHiccup => some { link, seen := x.seen.replaced }
    | none, _ => some { link, seen := x.seen }

abbrev run (x : Watched) (es : List Event) : Option Watched :=
  Trace.run step x es

abbrev Along (C : Watched → Event → Prop) (x : Watched) (es : List Event) : Prop :=
  Trace.Along step C x es

/-- Every committed message is within its bound, and at most one message larger
than its mark is in flight. -/
def Bounded (x : Watched) : Prop :=
  (∀ c ∈ x.seen.log, c.Bounded) ∧
    (x.seen.log.filter fun c => c.oversize &&
      decide (x.link.writer.seen.peersBytesRead < c.upTo)).length ≤ 1

instance (x : Watched) : Decidable x.Bounded :=
  inferInstanceAs (Decidable (_ ∧ _))

end Watched

def Writer.DecoderIdle (w : Writer) : Prop :=
  w.reservation = none ∧ w.decoderMultipartStartedEmpty = false

/-- What the callers of the writing end keep to. An end is fed by its socket or by
the decoder of its session: the socket writes and rolls back while the decoder is
idle. The decoder pushes the frame it has a reservation for, and whether it passes
identities on is settled when the session is set up. -/
def Orderly (recvRoutingId : Bool) (w : Writer) : Op → Prop
  | .write _ _ _ | .completeRecord _ | .rollback => w.DecoderIdle
  | .reserve _ _ recv => recv = recvRoutingId
  | .push m recv _ =>
    recv = recvRoutingId ∧ ∀ r, w.reservation = some r → r.msgFlags = m.flags
  | _ => True

instance (recvRoutingId : Bool) (w : Writer) (op : Op) :
    Decidable (Orderly recvRoutingId w op) :=
  match op with
  | .write _ _ _ | .completeRecord _ | .rollback =>
    inferInstanceAs (Decidable (_ ∧ _))
  | .reserve _ _ _ => inferInstanceAs (Decidable (_ = _))
  | .push m recv _ =>
    inferInstanceAs (Decidable
      (recv = recvRoutingId ∧ ∀ r, w.reservation = some r → r.msgFlags = m.flags))
  | .checkWrite | .checkPublishRecordHwm | .admitOwnerMessageStart | .flush | .engineError | .setHwm _
  | .setMaxMessageBytes _ | .holdWrites | .releaseWrites | .flowState _ _
  | .takeHwmCreditRecovery | .refreshWriteCredit | .terminate _ | .retire _ =>
    .isTrue trivial

namespace Watched

/-- The callers keep to their part; only an end that its socket feeds is given a new
pipe. -/
def OrderlyEvent (recvRoutingId : Bool) (x : Watched) : Event → Prop
  | .start op => ∀ w, x.link.writer = .idle w → Orderly recvRoutingId w op
  | .deliverHiccup => ∀ w, x.link.writer = .idle w → w.DecoderIdle
  | _ => True

instance (recvRoutingId : Bool) (x : Watched) (e : Event) :
    Decidable (x.OrderlyEvent recvRoutingId e) :=
  match e with
  | .start op =>
    match h : x.link.writer with
    | .idle w =>
      decidable_of_iff (Orderly recvRoutingId w op) (by simp [OrderlyEvent, h])
    | .busy .. => .isTrue (by simp [OrderlyEvent, h])
  | .deliverHiccup =>
    match h : x.link.writer with
    | .idle w =>
      decidable_of_iff
        (w.reservation = none ∧ w.decoderMultipartStartedEmpty = false)
        (by simp [OrderlyEvent, h, Writer.DecoderIdle])
    | .busy .. => .isTrue (by simp [OrderlyEvent, h])
  | .resume | .read _ | .look | .deliver _ | .hiccup | .correlationReleased
  | .plan _ _ | .applyPlan => .isTrue trivial

def Fresh (x : Watched) : Event → Prop
  | .deliver i => ∀ c, x.link.credits[i]? = some c →
      c.generation = x.link.writer.seen.outGeneration →
      x.link.writer.seen.peersBytesRead ≤ c.ledger.bytes
  | _ => True

instance (x : Watched) (e : Event) : Decidable (x.Fresh e) :=
  match e with
  | .deliver i =>
    inferInstanceAs (Decidable (∀ c, x.link.credits[i]? = some c →
      c.generation = x.link.writer.seen.outGeneration →
      x.link.writer.seen.peersBytesRead ≤ c.ledger.bytes))
  | .start _ | .resume | .read _ | .look | .deliverHiccup | .hiccup
  | .correlationReleased | .plan _ _ | .applyPlan => .isTrue trivial

end Watched

/-- The messages of a log beside a ledger of `written` bytes of which `credited` are
credited: each is within its bound and ends within the ledger, and what was
committed before a message larger than its mark is credited. -/
structure LogOk (log : List Commit) (written credited : ℕ) : Prop where
  bounded : ∀ c ∈ log, c.Bounded
  upTo_le : ∀ c ∈ log, c.upTo ≤ written
  alone : log.Pairwise fun c d => c.oversize = true → d.upTo ≤ credited

namespace LogOk

variable {log : List Commit} {written credited : ℕ}

theorem nil : LogOk [] written credited where
  bounded _ h := by simp at h
  upTo_le _ h := by simp at h
  alone := List.Pairwise.nil

theorem mono (h : LogOk log written credited) {credited' : ℕ}
    (hc : credited ≤ credited') : LogOk log written credited' where
  bounded := h.bounded
  upTo_le := h.upTo_le
  alone := h.alone.imp fun hcd ho => (hcd ho).trans hc

theorem clamp (h : LogOk log written credited) (bytes : ℕ) :
    LogOk (log.map (Commit.clamp bytes)) bytes credited where
  bounded := by
    intro c hc
    obtain ⟨d, hd, rfl⟩ := List.mem_map.mp hc
    exact h.bounded d hd
  upTo_le := by
    intro c hc
    obtain ⟨d, hd, rfl⟩ := List.mem_map.mp hc
    exact min_le_right _ _
  alone := by
    rw [List.pairwise_map]
    exact h.alone.imp fun hcd ho => (min_le_left _ _).trans (hcd ho)

theorem weaken (h : LogOk log written credited) {written' : ℕ}
    (hw : written ≤ written') : LogOk log written' credited where
  bounded := h.bounded
  upTo_le c hc := (h.upTo_le c hc).trans hw
  alone := h.alone

/-- A message joins the log: one larger than its mark only where all before it is
credited. -/
theorem cons (h : LogOk log written credited) {c : Commit} (hb : c.Bounded)
    (hup : c.upTo ≤ written) (ho : c.oversize = true → ∀ d ∈ log, d.upTo ≤ credited) :
    LogOk (c :: log) written credited where
  bounded := by
    intro d hd
    rcases List.mem_cons.mp hd with rfl | hd
    · exact hb
    · exact h.bounded d hd
  upTo_le := by
    intro d hd
    rcases List.mem_cons.mp hd with rfl | hd
    · exact hup
    · exact h.upTo_le d hd
  alone := List.Pairwise.cons (fun d hd hc => ho hc d hd) h.alone

theorem length_le_one (h : LogOk log written credited) :
    (log.filter fun c => c.oversize && decide (credited < c.upTo)).length ≤ 1 := by
  have hpair := h.alone.filter fun c => c.oversize && decide (credited < c.upTo)
  have hmem : ∀ c ∈ log.filter fun c => c.oversize && decide (credited < c.upTo),
      c.oversize = true ∧ credited < c.upTo := by
    intro c hc
    simpa using (List.mem_filter.mp hc).2
  generalize log.filter (fun c => c.oversize && decide (credited < c.upTo)) = inFlight
    at hpair hmem
  match inFlight with
  | [] => simp
  | [c] => simp
  | c :: d :: rest =>
    have hcd := List.rel_of_pairwise_cons hpair (List.mem_cons_self ..)
    have hc := hmem c (List.mem_cons_self ..)
    have hd := hmem d (List.mem_cons_of_mem _ (List.mem_cons_self ..))
    exact absurd (hcd hc.1) (Nat.not_le.mpr hd.2)

end LogOk

structure Sound (recvRoutingId : Bool) (w : Writer) (s : Monitor) : Prop where
  written_le : w.bytesWritten ≤ uint64Max
  started : w.outMultipartStartedEmpty = true →
    s.openedEmpty = true ∧ w.outIncompleteBytes ≠ 0
  decoder : w.decoderMultipartStartedEmpty = true →
    s.openedEmpty = true ∧
      (w.outIncompleteBytes ≠ 0 ∨ ∃ r, w.reservation = some r ∧
        (hasAny r.msgFlags Msg.routingId = true → recvRoutingId = true))
  opened : s.openedEmpty = true →
    w.outIncompleteBytes ≠ 0 ∨ w.reservation.isSome →
    w.bytesWritten ≤ w.peersBytesRead
  frame : ∀ r, w.reservation = some r →
    r.frameBytes = satAdd r.payloadBytes Frame.metadataBytes
  reserved : ∀ r, w.reservation = some r → hasAny r.msgFlags Msg.more = false →
    s.admittedHwm = 0 ∨ s.openedEmpty = true ∨
      w.bytesWritten - w.peersBytesRead + satAdd w.outIncompleteBytes r.frameBytes ≤
        s.admittedHwm
  log : LogOk s.log w.bytesWritten w.peersBytesRead

namespace Sound

open Writer

variable {recvRoutingId : Bool} {w v : Writer} {s : Monitor}

theorem raise (h : Sound recvRoutingId w s) (hbytes : v.bytesWritten = w.bytesWritten)
    (hcredit : w.peersBytesRead ≤ v.peersBytesRead)
    (hinc : v.outIncompleteBytes = w.outIncompleteBytes)
    (hstarted : v.outMultipartStartedEmpty = w.outMultipartStartedEmpty)
    (hdecoder : v.decoderMultipartStartedEmpty = w.decoderMultipartStartedEmpty)
    (hres : v.reservation = w.reservation) : Sound recvRoutingId v s := by
  constructor
  · rw [hbytes]
    exact h.written_le
  · rw [hstarted, hinc]
    exact h.started
  · rw [hdecoder, hinc, hres]
    exact h.decoder
  · rw [hinc, hres, hbytes]
    exact fun ho hop => (h.opened ho hop).trans hcredit
  · rw [hres]
    exact h.frame
  · intro r hr hm
    rw [hres] at hr
    rw [hbytes, hinc]
    rcases h.reserved r hr hm with hzero | hempty | hfits
    · exact .inl hzero
    · exact .inr (.inl hempty)
    · exact .inr (.inr (by omega))
  · rw [hbytes]
    exact h.log.mono hcredit

variable {R : Ledger → Prop}

theorem settles (h : Sound recvRoutingId w s) (hv : Settles R w v) : Sound recvRoutingId v s :=
  h.raise hv.bytesWritten hv.raised.bytes_le hv.outIncompleteBytes
    hv.outMultipartStartedEmpty hv.decoderMultipartStartedEmpty hv.reservation

theorem of_boundary (hle : v.bytesWritten ≤ uint64Max)
    (hinc : v.outIncompleteBytes = 0) (hstarted : v.outMultipartStartedEmpty = false)
    (hdecoder : v.decoderMultipartStartedEmpty = false) (hres : v.reservation = none)
    (hlog : LogOk s.log v.bytesWritten v.peersBytesRead) : Sound recvRoutingId v s := by
  constructor
  · exact hle
  · simp [hstarted]
  · simp [hdecoder]
  · simp [hinc, hres]
  · simp [hres]
  · simp [hres]
  · exact hlog

theorem started_of_exception (h : Sound recvRoutingId w s)
    (hex : w.outIncompleteBytes = 0 ∨ w.outMultipartStartedEmpty = true)
    (hempty : w.bytesWritten ≤ v.peersBytesRead) : s.started w v = true := by
  rw [Monitor.started]
  split
  · simpa using hempty
  case isFalse hinc =>
    exact (h.started (hex.resolve_left hinc)).1

theorem empty_of_started (h : Sound recvRoutingId w s)
    (hcredit : w.peersBytesRead ≤ v.peersBytesRead) (hs : s.started w v = true) :
    w.bytesWritten ≤ v.peersBytesRead := by
  rw [Monitor.started] at hs
  split at hs
  · simpa using hs
  case isFalse hinc => exact (h.opened hs (.inl hinc)).trans hcredit

/-- A message is entered behind the first `start` bytes. -/
theorem log_commit {bytes hwm start : ℕ} {startedEmpty : Bool}
    (hlog : LogOk s.log w.bytesWritten w.peersBytesRead) (hle : w.bytesWritten ≤ uint64Max)
    (hcredit : w.peersBytesRead ≤ v.peersBytesRead) (hstart : start ≤ w.bytesWritten)
    (hbytes : v.bytesWritten = satAdd start bytes)
    (hpays : hwm = 0 ∨ w.bytesWritten - v.peersBytesRead + bytes ≤ hwm ∨
      (startedEmpty = true ∧ w.bytesWritten ≤ v.peersBytesRead)) :
    LogOk (s.commit bytes hwm start startedEmpty v).log v.bytesWritten v.peersBytesRead := by
  have hmono : start ≤ v.bytesWritten := by
    rw [hbytes]
    exact le_satAdd (hstart.trans hle)
  refine (((hlog.mono hcredit).clamp start).weaken hmono).cons ?_ le_rfl ?_
  · rcases hpays with hzero | hfits | hempty
    · exact .inl hzero
    · refine .inr (.inl ?_)
      have := satAdd_le start bytes
      simp only [inFlight_eq]
      omega
    · exact .inr (.inr hempty.1)
  · -- A message larger than its mark did not fit, so the pipe was empty.
    intro ho d hd
    simp only [Commit.oversize, Bool.and_eq_true, decide_eq_true_eq] at ho
    have hempty : w.bytesWritten ≤ v.peersBytesRead := by
      rcases hpays with hzero | hfits | hempty
      · exact absurd hzero ho.1
      · omega
      · exact hempty.2
    obtain ⟨e, -, rfl⟩ := List.mem_map.mp hd
    exact (min_le_right _ _).trans (hstart.trans hempty)

variable {m : Msg} {replaced : List Frame}

theorem accepted {entry : Entry} (h : Sound recvRoutingId w s) (hidle : w.DecoderIdle)
    (hacc : Accepted R w (.data m) replaced v) (hpay : Pays w (.data m) v) :
    Sound recvRoutingId v (s.after w (.write entry m replaced) true v) := by
  have hcredit := hacc.raised.bytes_le
  have hres : v.reservation = none := hacc.reservation.trans hidle.1
  have hdec : v.decoderMultipartStartedEmpty = false := hacc.decoder.trans hidle.2
  rw [Monitor.after]
  split
  case isTrue hc =>
    obtain ⟨hbytes, hinc, hflag⟩ := hacc.enters hc
    have hstart := Nat.sub_le w.bytesWritten (w.replacedBytes replaced)
    refine of_boundary ?_ hinc hflag hdec hres
      (log_commit h.log h.written_le hcredit hstart hbytes ?_)
    · rw [hbytes]
      exact satAdd_le_max (hstart.trans h.written_le)
    · exact (hpay hc).imp_right (Or.imp_right fun hex =>
        ⟨h.started_of_exception hex.1 hex.2, hex.2⟩)
  case isFalse hc =>
    obtain ⟨hbytes, hinc, -, hflag⟩ := hacc.waits (by simpa using hc)
    have hle : v.bytesWritten ≤ w.bytesWritten := hbytes ▸ Nat.sub_le _ _
    have hpos := (Frame.data m).accountedBytes_pos
    have hnz : v.outIncompleteBytes ≠ 0 := by omega
    constructor
    · exact hle.trans h.written_le
    · intro hv
      refine ⟨?_, hnz⟩
      rcases hflag hv with hw | ⟨hzero, hempty⟩
      · have := h.started hw
        simp [Monitor.started, this]
      · simp [Monitor.started, hzero, hempty]
    · simp [hdec]
    · exact fun ho _ => hle.trans (h.empty_of_started hcredit ho)
    · simp [hres]
    · simp [hres]
    · exact (h.log.mono hcredit).clamp _

theorem recorded {parts : List Frame} (h : Sound recvRoutingId w s) (hidle : w.DecoderIdle)
    (hrec : Recorded R w parts v) (hpay : PaysWhole w parts v) :
    Sound recvRoutingId v (s.after w (.completeRecord parts) true v) := by
  refine of_boundary ?_ hrec.incomplete hrec.started (hrec.decoder.trans hidle.2)
    (hrec.reservation.trans hidle.1)
    (log_commit h.log h.written_le hrec.raised.bytes_le le_rfl hrec.bytesWritten ?_)
  · rw [hrec.bytesWritten]
    exact satAdd_le_max h.written_le
  · rw [hpay.1, Nat.zero_add]
    exact hpay.2.imp_right Or.inl

theorem reserves {payloadBytes : ℕ} {msgFlags : UInt8} (h : Sound recvRoutingId w s)
    (hres : Reserves R w payloadBytes msgFlags
      (!hasAny msgFlags Msg.routingId || recvRoutingId) v) :
    Sound recvRoutingId v
      (s.after w (.reserve payloadBytes msgFlags recvRoutingId) true v) := by
  obtain ⟨r, hr, hpayload, hflags, hframe⟩ := hres.reservation
  have hcredit := hres.raised.bytes_le
  -- A mark of the decoder belongs to the message in progress.
  have hdec : w.decoderMultipartStartedEmpty = true → s.started w v = true := by
    intro hw
    obtain ⟨hop, hnz | ⟨r', hr', -⟩⟩ := h.decoder hw
    · simp [Monitor.started, hnz, hop]
    · simp [hres.free] at hr'
  have hempty : w.outIncompleteBytes = 0 → w.bytesWritten ≤ v.peersBytesRead →
      s.started w v = true := by
    intro hzero hle
    simp [Monitor.started, hzero, hle]
  constructor
  · rw [hres.bytesWritten]
    exact h.written_le
  · rw [hres.started, hres.incomplete]
    intro hw
    have := h.started hw
    exact ⟨by simp [Monitor.after, Monitor.started, this], this.2⟩
  · intro hv
    rcases hres.decoder hv with hw | ⟨htrack, hzero, hle⟩
    · refine ⟨hdec hw, ?_⟩
      obtain ⟨-, hnz | ⟨r', hr', -⟩⟩ := h.decoder hw
      · exact .inl (hres.incomplete ▸ hnz)
      · simp [hres.free] at hr'
    · refine ⟨hempty hzero hle, .inr ⟨r, hr, ?_⟩⟩
      rw [hflags]
      intro hid
      simpa [hid] using htrack
  · intro ho _
    rw [hres.bytesWritten]
    exact h.empty_of_started hcredit ho
  · intro r' hr'
    rw [hr, Option.some.injEq] at hr'
    rw [← hr', hframe, hpayload]
  · intro r' hr' hmore
    rw [hr, Option.some.injEq] at hr'
    rw [← hr', hflags] at hmore
    rw [← hr', hframe, hres.bytesWritten, hres.incomplete]
    rcases hres.pays hmore with hzero | hfits | hw | ⟨hzero, hle⟩
    · exact .inl hzero
    · exact .inr (.inr hfits)
    · exact .inr (.inl (hdec hw))
    · exact .inr (.inl (hempty hzero hle))
  · rw [hres.bytesWritten]
    exact h.log.mono hcredit

theorem pushed {r : Reservation} {bytes : ℕ}
    {recv : Bool} (h : Sound recvRoutingId w s) (hr : w.reservation = some r)
    (hsize : r.payloadBytes = (Frame.data m).size) (hflags : r.msgFlags = m.flags)
    (hbytes : bytes = (Frame.data m).accountedBytes ∨ bytes = r.frameBytes)
    (hpush : Pushed w (.data m) replaced v bytes) :
    Sound recvRoutingId v (s.after w (.push m recv replaced) true v) := by
  have hframe : r.frameBytes = (Frame.data m).accountedBytes := by
    rw [h.frame r hr, hsize, ← Frame.accountedBytes_eq]
  obtain rfl : bytes = (Frame.data m).accountedBytes :=
    hbytes.elim id fun hb => hb.trans hframe
  rw [Monitor.after]
  split
  case isTrue hc =>
    obtain ⟨⟨hwritten, hinc, hflag⟩, hdec⟩ := hpush.enters hc
    have hstart := Nat.sub_le w.bytesWritten (w.replacedBytes replaced)
    refine of_boundary ?_ hinc hflag hdec hpush.reservation
      (log_commit h.log h.written_le hpush.credit.ge hstart hwritten ?_)
    · rw [hwritten]
      exact satAdd_le_max (hstart.trans h.written_le)
    · have hmore : hasAny r.msgFlags Msg.more = false := by
        rw [hflags]
        exact (Frame.commits_iff.mp hc).1
      rw [hpush.credit]
      rcases h.reserved r hr hmore with hzero | hempty | hfits
      · exact .inl hzero
      · exact .inr (.inr ⟨hempty, h.opened hempty (.inr (by simp [hr]))⟩)
      · rw [hframe, satAdd_of_le hpush.counted] at hfits
        exact .inr (.inl hfits)
  case isFalse hc =>
    obtain ⟨hshrink, hinc, hflag, hdec⟩ := hpush.waits (by simpa using hc)
    have hle : v.bytesWritten ≤ w.bytesWritten := hshrink ▸ Nat.sub_le _ _
    have hpos := (Frame.data m).accountedBytes_pos
    have hnz : v.outIncompleteBytes ≠ 0 := by omega
    constructor
    · exact hle.trans h.written_le
    · rw [hflag]
      exact fun hw => ⟨(h.started hw).1, hnz⟩
    · rw [hdec]
      exact fun hw => ⟨(h.decoder hw).1, .inl hnz⟩
    · intro ho _
      rw [hpush.credit]
      exact hle.trans (h.opened ho (.inr (by simp [hr])))
    · simp [hpush.reservation]
    · simp [hpush.reservation]
    · rw [hpush.credit]
      exact h.log.clamp _

theorem release (h : Sound recvRoutingId w s) (hdecoder : w.decoderMultipartStartedEmpty = false) :
    Sound recvRoutingId w.releaseDecoderFrameReservation s := by
  constructor
  · exact h.written_le
  · exact h.started
  · simp [releaseDecoderFrameReservation, hdecoder]
  · intro ho hop
    refine h.opened ho (.inl ?_)
    simpa [releaseDecoderFrameReservation] using hop
  · simp [releaseDecoderFrameReservation]
  · simp [releaseDecoderFrameReservation]
  · exact h.log

/-- Taking back what is half done leaves the log, and a reservation stays good for
what it was given. -/
theorem rollback (h : Sound recvRoutingId w s) : Sound recvRoutingId w.rollback s := by
  constructor
  · exact h.written_le
  · simp [Writer.rollback]
  · simp [Writer.rollback]
  · intro ho hop
    refine h.opened ho (.inr ?_)
    simpa [Writer.rollback] using hop
  · exact h.frame
  · intro r hr hmore
    refine (h.reserved r hr hmore).imp_right (Or.imp_right fun hfits => ?_)
    have hzero := satAdd_zero_le w.outIncompleteBytes r.frameBytes
    simp only [Writer.rollback]
    omega
  · exact h.log

theorem engineError (h : Sound recvRoutingId w s) : Sound recvRoutingId w.engineError s :=
  release (w := w.rollback) h.rollback rfl

theorem transitionToInactiveState (h : Sound recvRoutingId w s) (state : LifecycleState) :
    Sound recvRoutingId (w.transitionToInactiveState state) s := by
  rw [Writer.transitionToInactiveState]
  split
  · exact h
  · exact h.raise rfl le_rfl rfl rfl rfl rfl

theorem delimitOutbound (h : Sound recvRoutingId w s) :
    Sound recvRoutingId w.delimitOutbound s := by
  rw [Writer.delimitOutbound, flush_eq]
  exact h.rollback.raise rfl le_rfl rfl rfl rfl rfl

theorem terminate (h : Sound recvRoutingId w s) (delay : Bool) :
    Sound recvRoutingId (w.terminate delay) s := by
  rw [Writer.terminate]
  split
  · exact h
  · exact h
  · exact h
  · exact (h.transitionToInactiveState _).delimitOutbound
  · exact (h.transitionToInactiveState _).delimitOutbound
  split
  · exact h.delimitOutbound
  · apply transitionToInactiveState
    exact h.rollback.raise rfl le_rfl rfl rfl rfl rfl

theorem pushDecoded (h : Sound recvRoutingId w s)
    (hord : Orderly recvRoutingId w (.push m recvRoutingId replaced)) :
    Sound recvRoutingId (w.pushDecoded (.data m) recvRoutingId replaced).2
      (s.after w (.push m recvRoutingId replaced) (w.pushDecoded (.data m) recvRoutingId replaced).1
        (w.pushDecoded (.data m) recvRoutingId replaced).2) := by
  rw [Writer.pushDecoded]
  split
  case isTrue hdrop =>
    -- The identity was not tracked, so no mark of the decoder hangs on it.
    simp only [Bool.and_eq_true, Bool.not_eq_true'] at hdrop
    have hsome : ∀ r, w.reservation = some r →
        hasAny r.msgFlags Msg.routingId = true := by
      intro r hr
      rw [hord.2 r hr]
      exact hdrop.1
    constructor
    · exact h.written_le
    · exact h.started
    · intro hw
      obtain ⟨hop, hnz | ⟨r, hr, hrecv⟩⟩ := h.decoder hw
      · exact ⟨hop, .inl hnz⟩
      · simp [hrecv (hsome r hr)] at hdrop
    · intro ho hop
      refine h.opened ho (.inl ?_)
      simpa [releaseDecoderFrameReservation] using hop
    · simp [releaseDecoderFrameReservation]
    · simp [releaseDecoderFrameReservation]
    · exact h.log
  case isFalse =>
    rcases writeReservedDecoderFrame_spec (w := w) (.data m) replaced with
      ⟨r, bytes, v, hr, hsize, hflags, hbytes, heq, hpush⟩ | heq
    · rw [heq]
      exact h.pushed hr hsize hflags hbytes hpush
    · rw [heq]
      exact h.engineError

theorem after {op : Op} {ok : Bool}
    (h : Sound recvRoutingId w s) (hord : Orderly recvRoutingId w op)
    (hpost : op.Post R w (ok, v)) : Sound recvRoutingId v (s.after w op ok v) := by
  cases op with
  | checkWrite | checkPublishRecordHwm | admitOwnerMessageStart | holdWrites | releaseWrites
  | flowState | takeHwmCreditRecovery | refreshWriteCredit => exact h.settles hpost
  | write entry m replaced =>
    cases ok with
    | true =>
      obtain ⟨hacc, hpay⟩ := hpost.1 rfl
      exact h.accepted hord hacc hpay
    | false => exact h.settles (hpost.2 rfl)
  | completeRecord parts =>
    cases ok with
    | true =>
      obtain ⟨hrec, hpay, -⟩ := hpost.1 rfl
      exact h.recorded hord hrec hpay
    | false => exact h.settles (hpost.2 rfl)
  | reserve payloadBytes msgFlags recv =>
    obtain rfl : recv = recvRoutingId := hord
    cases ok with
    | true => exact h.reserves (hpost.1 rfl)
    | false => exact h.settles (hpost.2 rfl)
  | push m recv replaced =>
    obtain rfl : recv = recvRoutingId := hord.1
    have := h.pushDecoded hord
    rw [← (hpost : (ok, v) = w.pushDecoded (.data m) recv replaced)] at this
    exact this
  | flush =>
    obtain ⟨-, rfl⟩ := Prod.mk.inj hpost
    rw [flush_eq]
    exact h.raise rfl le_rfl rfl rfl rfl rfl
  | rollback =>
    obtain ⟨-, rfl⟩ := Prod.mk.inj hpost
    exact h.rollback
  | engineError =>
    obtain ⟨-, rfl⟩ := Prod.mk.inj hpost
    exact h.engineError
  | setHwm | setMaxMessageBytes =>
    obtain ⟨-, rfl⟩ := Prod.mk.inj hpost
    exact h.raise rfl le_rfl rfl rfl rfl rfl
  | terminate delay =>
    obtain ⟨-, rfl⟩ := Prod.mk.inj hpost
    exact h.terminate delay
  | retire state =>
    obtain ⟨-, rfl⟩ := Prod.mk.inj hpost
    exact h.transitionToInactiveState state

theorem processActivateWrite {generation : ℕ} {credit : Ledger} (h : Sound recvRoutingId w s)
    (hfresh : generation = w.outGeneration → w.peersBytesRead ≤ credit.bytes) :
    Sound recvRoutingId (w.processActivateWrite generation credit) s := by
  rw [Writer.processActivateWrite]
  split
  case isTrue hgen =>
    dsimp only
    split <;> exact h.raise rfl (hfresh hgen) rfl rfl rfl rfl
  case isFalse => exact h

theorem processHiccup {generation : ℕ} (h : Sound recvRoutingId w s) (hidle : w.DecoderIdle) :
    Sound recvRoutingId (w.processHiccup generation) s.replaced := by
  refine of_boundary (Nat.zero_le _) rfl rfl rfl hidle.1 ?_
  have hclamp := h.log.clamp 0
  -- Nothing of the old pipe ends behind the empty ledger of the new one.
  exact
    { bounded := hclamp.bounded
      upTo_le := hclamp.upTo_le
      alone := List.pairwise_of_forall_mem_list
        fun c _ d hd _ => hclamp.upTo_le d hd }

end Sound

namespace Watched

open Writer

/-- The invariant of a watched link; inside an operation it speaks of the state in
which the operation began. -/
def Ok (recvRoutingId : Bool) (x : Watched) : Prop :=
  match x.link.writer with
  | .idle w => Sound recvRoutingId w x.seen
  | .busy op before w k =>
    Sound recvRoutingId before x.seen ∧ Orderly recvRoutingId before op ∧
      Runs (fun _ => True) before (Prog.ask w () k)
        (op.Post (fun _ => True) before)

variable {x y : Watched}

theorem ok_of_writer_eq {recvRoutingId : Bool}
    (h : x.Ok recvRoutingId) (hw : y.link.writer = x.link.writer)
    (hs : y.seen = x.seen) : y.Ok recvRoutingId := by
  rw [Ok, hw, hs]
  exact h

def seenOf (s : Monitor) (op : Op) (before : Writer) :
    Access (Bool × Writer) → Monitor
  | .done (ok, v) => s.after before op ok v
  | .ask .. => s

theorem step_start {op : Op} {w : Writer} (hw : x.link.writer = .idle w) : x.step (.start op) = some
      { link := { x.link with writer := .settle op w (op.program w) }
        seen := seenOf x.seen op w (op.program w) } := by
  simp only [Watched.step, Link.step, Link.completed, hw]
  cases op.program w <;> rfl

theorem step_resume {op : Op} {before w : Writer}
    {k : Ledger → Access (Bool × Writer)} (hw : x.link.writer = .busy op before w k) :
    x.step .resume = some
      { link :=
          { x.link with
            writer := .settle op before (k x.link.reader.seen.published) }
        seen := seenOf x.seen op before (k x.link.reader.seen.published) } := by
  simp only [Watched.step, Link.step, Link.completed, hw]
  cases k x.link.reader.seen.published <;> rfl

/-- An operation that runs as its rule says leaves the invariant behind, whether it
has ended or stopped at a load. -/
theorem ok_settle {recvRoutingId : Bool} {link : Link} {op : Op} {before : Writer}
    {s : Monitor} {p : Access (Bool × Writer)} (h : Sound recvRoutingId before s)
    (hord : Orderly recvRoutingId before op)
    (hp : Runs (fun _ => True) before p (op.Post (fun _ => True) before)) :
    Ok recvRoutingId
      { link := { link with writer := .settle op before p }
        seen := seenOf s op before p } := by
  match p with
  | .done (ok, v) => exact h.after hord hp
  | .ask v () k => exact ⟨h, hord, hp⟩

theorem Ok.step {recvRoutingId : Bool} {e : Event}
    (h : x.Ok recvRoutingId) (hord : x.OrderlyEvent recvRoutingId e)
    (hfresh : x.Fresh e) (hs : x.step e = some y) : y.Ok recvRoutingId := by
  have hs' := hs
  rw [Watched.step] at hs
  split at hs
  case h_1 => simp at hs
  case h_2 link hlink =>
    have hsteps := Link.steps_of_step hlink
    cases hsteps with
    | @start op w hw =>
      rw [Ok, hw] at h
      rw [step_start hw] at hs'
      exact Option.some.inj hs' ▸ ok_settle h (hord w hw) (Op.runs op)
    | @resume op before w k hw =>
      rw [Ok, hw] at h
      obtain ⟨hsound, hop, hruns⟩ := h
      rw [step_resume hw] at hs'
      exact Option.some.inj hs' ▸
        ok_settle hsound hop ((Prog.holds_ask.mp hruns).2 _ trivial)
    | @deliver w i c hw hc =>
      rw [Ok, hw] at h
      have hgen := hfresh c hc
      rw [hw] at hgen
      exact Option.some.inj hs ▸ h.processActivateWrite hgen
    | @deliverHiccup w generation hiccups hw hh =>
      rw [Ok, hw] at h
      exact Option.some.inj hs ▸ h.processHiccup (hord w hw)
    | readDelimiter | hiccup | correlationReleased | plan | applyPlan =>
      exact Option.some.inj hs ▸ ok_of_writer_eq h rfl rfl
    | read | look =>
      exact Option.some.inj hs ▸
        ok_of_writer_eq h (Link.readerTurn_writer ..) rfl

theorem Ok.run {recvRoutingId : Bool} {es : List Event}
    (h : x.Ok recvRoutingId) (hord : x.Along (OrderlyEvent recvRoutingId) es)
    (hfresh : x.Along Fresh es) (hs : x.run es = some y) : y.Ok recvRoutingId := by
  refine Trace.run_invariant (C := fun x e => x.OrderlyEvent recvRoutingId e ∧ x.Fresh e)
    ?_ h (hord.and hfresh) hs
  exact fun x e y hx hC hy => hx.step hC.1 hC.2 hy

theorem Ok.bounded {recvRoutingId : Bool} (h : x.Ok recvRoutingId) : x.Bounded := by
  rw [Ok] at h
  rw [Bounded]
  split at h
  case h_1 w hw =>
    rw [hw]
    exact ⟨h.log.bounded, h.log.length_le_one⟩
  case h_2 op before w k hw =>
    rw [hw]
    have hshows := (Prog.holds_ask.mp h.2.2).1
    exact ⟨h.1.log.bounded, (h.1.log.mono hshows.raised.bytes_le).length_le_one⟩

theorem ok_init (recvRoutingId : Bool) (hwm : ℕ) (conflate registryAccounting : Bool) :
    (init hwm conflate registryAccounting).Ok recvRoutingId :=
  Sound.of_boundary (Nat.zero_le _) rfl rfl rfl rfl LogOk.nil

/-- In every run in which no stale credit is delivered, every message that was
committed under enforcement left at most the mark it was admitted under in flight or
had started on an empty pipe, and at most one message larger than its mark is in
flight. -/
theorem run_bounded (recvRoutingId : Bool) (hwm : ℕ)
    (conflate registryAccounting : Bool) (es : List Event) (x : Watched)
    (hrun : (init hwm conflate registryAccounting).run es = some x)
    (hord : (init hwm conflate registryAccounting).Along (OrderlyEvent recvRoutingId) es)
    (hfresh : (init hwm conflate registryAccounting).Along Fresh es) : x.Bounded :=
  ((ok_init recvRoutingId hwm conflate registryAccounting).run hord hfresh hrun).bounded

def pushEvents (bytes loads : ℕ) : List Event :=
  .start (.reserve (bytes - Frame.metadataBytes) 0 false) ::
    (List.replicate loads .resume ++ [.start (.push (parcel bytes) false [])])

/-- A message that does not fit waits, the reader takes the one before it, and the
credit it sends lets the message pass. -/
def waitedFor : List Event :=
  [.start (.write .single (parcel 64) []), .start (.write .single (parcel 64) []), .resume, .resume,
   .read 0, .look, .deliver 0,
   .start (.write .single (parcel 64) [])]

theorem waitedFor_runs : ((init 100 false false).run waitedFor).isSome = true := by
  decide +kernel

theorem waitedFor_bounded : ∃ x, (init 100 false false).run waitedFor = some x ∧
      x.seen.log.length = 2 ∧ x.Bounded :=
  ⟨_, (Option.some_get waitedFor_runs).symm, by decide +kernel,
    run_bounded false 100 false false waitedFor _
      (Option.some_get waitedFor_runs).symm (by decide +kernel) (by decide +kernel)⟩

/-- The first credit is delivered and wakes the writer, which then sees 736 bytes
taken and reserves 536 against them. The second credit, sent when 650 were taken,
arrives behind that and lowers the ledger, and the frame is pushed as reserved. -/
def staleCredit : List Event :=
  pushEvents 200 0 ++ [.start .flush, .read 0, .look, .look] ++
    pushEvents 150 0 ++ pushEvents 300 1 ++ pushEvents 86 0 ++ pushEvents 64 0 ++
    [.start .flush, .start (.reserve 472 0 false), .resume, .resume,
     .read 0, .look, .read 0, .look, .read 0, .look,
     .deliver 0] ++
    [.start (.reserve 472 0 false), .resume, .deliver 0, .start (.push (parcel 536) false [])]

theorem staleCredit_runs : ((init 600 false false).run staleCredit).isSome = true := by
  decide +kernel

/-- Behind a credit that lowers the ledger more is in flight than the bound. -/
theorem staleCredit_unbounded :
    ¬ ∀ (recvRoutingId : Bool) (hwm : ℕ) (conflate registryAccounting : Bool)
        (es : List Event) (x : Watched), (init hwm conflate registryAccounting).run es = some x →
        (init hwm conflate registryAccounting).Along (OrderlyEvent recvRoutingId) es →
        x.Bounded := by
  intro h
  have hbounded := h false 600 false false staleCredit _
    (Option.some_get staleCredit_runs).symm (by decide +kernel)
  have hunbounded :
      ¬ (((init 600 false false).run staleCredit).get staleCredit_runs).Bounded := by
    decide +kernel
  exact hunbounded hbounded

end Watched

end Zlink.Pipe
