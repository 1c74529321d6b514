import Zlink.Pipe.Climbing
import Zlink.Pipe.Conservation

/-!
# Credit that only climbs

A delivered credit is stored as it comes, while the writer may have sampled a newer
ledger in the meantime. As long as the credit that is taken up never passes a credit
of the same generation that is still on its way, every credit that arrives is at
least what the writer has, and the credit of a generation never falls.
-/

namespace Zlink.Pipe

open Protocol Suspension

namespace Audited

open Writer

abbrev Along (C : Audited → Event → Prop) (x : Audited) (es : List Event) : Prop :=
  Trace.Along step C x es

def Unpassed (x : Audited) : Event → Prop
  | .deliver i => ∀ c, x.link.credits[i]? = some c → c.generation = x.writer.outGeneration →
      ∀ d ∈ x.link.credits.eraseIdx i, d.generation = x.writer.outGeneration → c.ledger ≤ d.ledger
  | .resume => ∀ d ∈ x.link.credits, d.generation = x.writer.outGeneration →
      x.link.reader.seen.published ≤ d.ledger
  | _ => True

instance (x : Audited) (e : Event) : Decidable (x.Unpassed e) :=
  match e with
  | .deliver i =>
    inferInstanceAs (Decidable (∀ c, x.link.credits[i]? = some c →
      c.generation = x.writer.outGeneration →
      ∀ d ∈ x.link.credits.eraseIdx i, d.generation = x.writer.outGeneration → c.ledger ≤ d.ledger))
  | .resume =>
    inferInstanceAs (Decidable (∀ d ∈ x.link.credits, d.generation = x.writer.outGeneration →
        x.link.reader.seen.published ≤ d.ledger))
  | .start _ | .read _ | .look | .deliverHiccup | .hiccup | .correlationReleased
  | .plan _ _ | .applyPlan => .isTrue trivial

end Audited

namespace WriterThread

open Writer

def Climbing : WriterThread → Prop
  | idle _ => True
  | busy _ before w k => ∃ g, Climbs before g (.ask w () k) Prod.snd

variable {op : Op} {before : Writer} {p : Access (Bool × Writer)} {g : Past}

theorem climbing_settle (h : Climbs before g p Prod.snd) : (settle op before p).Climbing := by
  match p with
  | .done (ok, v) => trivial
  | .ask v () k => exact ⟨g, h⟩

theorem floor_le_settle (h : Climbs before g p Prod.snd) :
    g.floor ≤ (settle op before p).seen.credit := by
  match p with
  | .done (ok, v) => exact h.floor_le
  | .ask v () k => exact h.1

end WriterThread

namespace Audited

open Writer

structure Steady (x : Audited) : Prop where
  ok : x.Ok
  reached : ∀ c ∈ x.link.credits, c.generation ≤ x.writer.outGeneration
  turning : (∃ r q k, x.link.reader = .busy r q k) → x.reader.inGeneration = x.writer.outGeneration
  taken_up : ∃ top, x.link.writer.Within top ∧ top ≤ x.readIn x.writer.outGeneration ∧
    ∀ c ∈ x.link.credits, c.generation = x.writer.outGeneration → top ≤ c.ledger
  climbing : x.link.writer.Climbing

theorem steady_init (hwm : ℕ) (conflate registryAccounting : Bool) :
    (init hwm conflate registryAccounting).Steady where
  ok := ok_init hwm conflate registryAccounting
  reached _ h := by simp [init, Link.init] at h
  turning h := by simp [init, Link.init] at h
  taken_up := by
    refine ⟨.zero, (ok_init hwm conflate registryAccounting).writing, le_rfl, ?_⟩
    intro c hc
    simp [init, Link.init] at hc
  climbing := trivial

def Rises (x y : Audited) : Prop :=
  x.writer.outGeneration ≤ y.writer.outGeneration ∧
    (y.writer.outGeneration = x.writer.outGeneration → x.writer.credit ≤ y.writer.credit)

theorem Rises.refl (x : Audited) : Rises x x :=
  ⟨le_rfl, fun _ => le_rfl⟩

variable {x y : Audited}

theorem Rises.trans {z : Audited} (h : Rises x y) (h' : Rises y z) : Rises x z := by
  refine ⟨h.1.trans h'.1, fun hgen => ?_⟩
  -- No generation in between differs.
  have hy : y.writer.outGeneration = x.writer.outGeneration :=
    Nat.le_antisymm (hgen ▸ h'.1) h.1
  exact (h.2 hy).trans (h'.2 (hgen.trans hy.symm))

theorem Steady.start {x : Audited} (h : x.Steady) {op : Op} {w : Writer}
    (hw : x.link.writer = .idle w) (hok : (x.next (.start op)
      { x.link with writer := .settle op w (op.program w) }).Ok) : (x.next (.start op)
        { x.link with writer := .settle op w (op.program w) }).Steady ∧ Rises x (x.next (.start op)
        { x.link with writer := .settle op w (op.program w) }) := by
  have hseen : x.writer = w := by rw [writer, hw, WriterThread.seen]
  have hread := h.ok.readIn_of_reader_eq (e := .start op)
    (l := { x.link with writer := .settle op w (op.program w) }) rfl
  have hext := WriterThread.settle_extends (R := fun _ => True) (Op.runs (w := w) op)
  have hgen : (WriterThread.settle op w (op.program w)).seen.outGeneration =
      x.writer.outGeneration := by
    rw [hseen]
    exact hext.outGeneration
  obtain ⟨top, hin, hle, hahead⟩ := h.taken_up
  rw [hw] at hin
  refine ⟨?_, hgen.ge, fun _ => ?_⟩
  · constructor
    · exact hok
    · exact fun c hc => (h.reached c hc).trans hgen.ge
    · exact fun hbusy => (h.turning hbusy).trans hgen.symm
    · refine ⟨top, WriterThread.Within.settle hin.1 hin.2 fun c _ => Op.runs op, ?_, ?_⟩
      · rw [hread]
        exact hgen.symm ▸ hle
      · exact fun c hc hcg => hahead c hc (hcg.trans hgen)
    · exact WriterThread.climbing_settle (Op.climbs op w)
  · rw [hseen]
    exact WriterThread.floor_le_settle (Op.climbs op w)

theorem Steady.resume {x : Audited} (h : x.Steady) {op : Op} {before w : Writer}
    {k : Ledger → Access (Bool × Writer)} (hw : x.link.writer = .busy op before w k)
    (hun : x.Unpassed .resume) (hok : (x.next .resume { x.link with
        writer := .settle op before (k x.link.reader.seen.published) }).Ok) :
    (x.next .resume
        { x.link with
          writer := .settle op before (k x.link.reader.seen.published) }).Steady ∧
      Rises x (x.next .resume
        { x.link with
          writer := .settle op before (k x.link.reader.seen.published) }) := by
  set a := x.link.reader.seen.published with ha
  have hseen : x.writer = w := by rw [writer, hw, WriterThread.seen]
  have hread := h.ok.readIn_of_reader_eq (e := .resume)
    (l := { x.link with writer := .settle op before (k a) }) rfl
  obtain ⟨top, hin, hle, hahead⟩ := h.taken_up
  rw [hw] at hin
  obtain ⟨g, hclimbs⟩ : ∃ g, Climbs before g (.ask w () k) Prod.snd := by
    have := h.climbing
    rw [hw] at this
    exact this
  have hnext : Climbs before (g.load w a) (k a) Prod.snd := hclimbs.2 a
  -- What is loaded joins what was taken up.
  have hgoes : ∀ c, top.join a ≤ c →
      Runs (fun l => l ≤ c) before (k a) (op.Post (fun l => l ≤ c) before) := by
    intro c hc
    exact (Prog.holds_ask.mp (hin.2.2 c ((Ledger.le_join_left top a).trans hc))).2 _
      ((Ledger.le_join_right top a).trans hc)
  have hext := hin.shows.extended.trans (WriterThread.settle_extends (hgoes _ le_rfl))
  have hgen : (WriterThread.settle op before (k a)).seen.outGeneration =
      x.writer.outGeneration := by
    rw [hseen]
    exact hext.outGeneration
  refine ⟨?_, hgen.ge, fun _ => ?_⟩
  · constructor
    · exact hok
    · exact fun c hc => (h.reached c hc).trans hgen.ge
    · exact fun hbusy => (h.turning hbusy).trans hgen.symm
    · refine ⟨top.join a, WriterThread.Within.settle
        (hin.1.trans (Ledger.le_join_left top a)) hin.2.1 hgoes, ?_, ?_⟩
      · rw [hread]
        exact hgen.symm ▸ Ledger.join_le hle h.ok.sampled
      · intro c hc hcg
        have hcg' := hcg.trans hgen
        exact Ledger.join_le (hahead c hc hcg') (hun c hc hcg')
    · exact WriterThread.climbing_settle hnext
  · rw [hseen]
    exact (Ledger.le_join_left w.credit a).trans (WriterThread.floor_le_settle hnext)

theorem Steady.deliver {x : Audited} (h : x.Steady) {w : Writer} {i : ℕ} {c : Credit}
    (hw : x.link.writer = .idle w) (hc : x.link.credits[i]? = some c)
    (hun : x.Unpassed (.deliver i)) (hok : (x.next (.deliver i) { x.link with
        writer := .idle (w.processActivateWrite c.generation c.ledger)
        credits := x.link.credits.eraseIdx i }).Ok) :
    (x.next (.deliver i)
        { x.link with
          writer := .idle (w.processActivateWrite c.generation c.ledger)
          credits := x.link.credits.eraseIdx i }).Steady ∧
      Rises x (x.next (.deliver i)
        { x.link with
          writer := .idle (w.processActivateWrite c.generation c.ledger)
          credits := x.link.credits.eraseIdx i }) := by
  have hseen : x.writer = w := by rw [writer, hw, WriterThread.seen]
  have hread := h.ok.readIn_of_reader_eq (e := .deliver i) (l := { x.link with
      writer := .idle (w.processActivateWrite c.generation c.ledger)
      credits := x.link.credits.eraseIdx i }) rfl
  have hgen : (w.processActivateWrite c.generation c.ledger).outGeneration =
      x.writer.outGeneration := by
    rw [hseen]
    exact (processActivateWrite_extends w c.generation c.ledger).outGeneration
  obtain ⟨top, hin, hle, hahead⟩ := h.taken_up
  rw [hw] at hin
  have hentered := processActivateWrite_entered hin.2 c.generation c.ledger
  have hmem := List.mem_of_getElem? hc
  -- The new bound is what the writer has now.
  suffices hnew : ∃ top', (w.processActivateWrite c.generation c.ledger).credit ≤ top' ∧
      w.credit ≤ (w.processActivateWrite c.generation c.ledger).credit ∧
      top' ≤ x.readIn x.writer.outGeneration ∧
      ∀ d ∈ x.link.credits.eraseIdx i, d.generation = x.writer.outGeneration → top' ≤ d.ledger by
    obtain ⟨top', hcredit, hrise, hread', hrest⟩ := hnew
    refine ⟨?_, hgen.ge, fun _ => hseen ▸ hrise⟩
    constructor
    · exact hok
    · exact fun d hd => (h.reached d (List.mem_of_mem_eraseIdx hd)).trans hgen.ge
    · exact fun hbusy => (h.turning hbusy).trans hgen.symm
    · refine ⟨top', ⟨hcredit, hentered⟩, ?_, ?_⟩
      · rw [hread]
        exact hgen.symm ▸ hread'
      · exact fun d hd hdg => hrest d hd (hdg.trans hgen)
    · trivial
  rcases processActivateWrite_credited w c.generation c.ledger with
    ⟨-, heq⟩ | ⟨hcg, heq⟩
  · rw [heq]
    exact ⟨top, hin.1, le_rfl, hle, fun d hd hdg => hahead d (List.mem_of_mem_eraseIdx hd) hdg⟩
  · rw [heq]
    have hcg' : c.generation = x.writer.outGeneration := hcg.trans (hseen ▸ rfl)
    refine ⟨c.ledger, le_rfl, hin.1.trans (hahead c hmem hcg'), ?_, ?_⟩
    · rw [← hcg']
      exact h.ok.credits c hmem
    · exact fun d hd hdg => hun c hc hcg' d hd hdg

theorem Steady.deliverHiccup {x : Audited} (h : x.Steady) {w : Writer}
    {generation : ℕ} {hiccups : List ℕ} (hw : x.link.writer = .idle w)
    (hh : x.link.hiccups = generation :: hiccups) (hok : (x.next .deliverHiccup
      { x.link with writer := .idle (w.processHiccup generation), hiccups }).Ok) :
    (x.next .deliverHiccup
        { x.link with writer := .idle (w.processHiccup generation), hiccups }).Steady ∧
      Rises x (x.next .deliverHiccup
        { x.link with writer := .idle (w.processHiccup generation), hiccups }) := by
  have hseen : x.writer = w := by rw [writer, hw, WriterThread.seen]
  -- The command is for the next generation.
  have hlist := h.ok.hiccups
  rw [hh] at hlist
  have hgeneration : generation = x.writer.outGeneration + 1 := by
    rcases hn : x.reader.inGeneration - x.writer.outGeneration with _ | n
    · rw [hn] at hlist
      simp at hlist
    · rw [hn, List.range'_succ, List.cons.injEq] at hlist
      exact hlist.1
  have hgen : (w.processHiccup generation).outGeneration = x.writer.outGeneration + 1 := hgeneration
  refine ⟨?_, hgen ▸ Nat.le_succ _, fun heq => ?_⟩
  · constructor
    · exact hok
    · exact fun c hc => (h.reached c hc).trans (hgen ▸ Nat.le_succ _)
    · rintro hbusy
      have hrg := h.turning hbusy
      rw [hrg, Nat.sub_self] at hlist
      simp at hlist
    · refine ⟨.zero, ⟨le_rfl, ?_⟩, Ledger.zero_le _, fun c _ _ => Ledger.zero_le _⟩
      have hin := hok.writing
      exact hin.2
    · trivial
  · have heq' : (w.processHiccup generation).outGeneration = x.writer.outGeneration := heq
    omega

variable {e : Event} {l : Link}

theorem Steady.keep (h : x.Steady) (hok : (x.next e l).Ok) (hw : l.writer = x.link.writer)
    (hreached : ∀ c ∈ l.credits, c.generation ≤ x.writer.outGeneration)
    (hturning : (∃ r q k, l.reader = .busy r q k) →
      l.reader.seen.inGeneration = x.writer.outGeneration) (htop : ∃ top, x.link.writer.Within top ∧
      top ≤ (x.next e l).readIn x.writer.outGeneration ∧
      ∀ c ∈ l.credits, c.generation = x.writer.outGeneration → top ≤ c.ledger) :
    (x.next e l).Steady ∧ Rises x (x.next e l) := by
  have hseen : (x.next e l).writer = x.writer := by
    change l.writer.seen = x.link.writer.seen
    rw [hw]
  refine ⟨?_, hseen ▸ le_rfl, fun _ => hseen ▸ le_rfl⟩
  constructor
  · exact hok
  · rw [hseen]
    exact hreached
  · rw [hseen]
    exact hturning
  · rw [hseen]
    obtain ⟨top, hin, hle, hahead⟩ := htop
    exact ⟨top, hw ▸ hin, hle, hahead⟩
  · change l.writer.Climbing
    rw [hw]
    exact h.climbing

theorem Steady.turn (h : x.Steady) {s : Reader}
    {p : Look (Reader × Option Ledger)} (hp : Reader.Turns s p (Reader.Concludes s))
    (hok : (x.next e (x.link.readerTurn p)).Ok) (hgen : s.inGeneration = x.writer.outGeneration)
    (hsame : x.reader.inGeneration = x.writer.outGeneration) (hmono : x.reader.credit ≤ s.credit) :
    (x.next e (x.link.readerTurn p)).Steady ∧ Rises x (x.next e (x.link.readerTurn p)) := by
  obtain ⟨t, sent, hl, hs, -, hsent⟩ := Link.readerTurn_spec (l := x.link) hp
  rw [hl] at hok ⊢
  obtain ⟨top, hin, hle, hahead⟩ := h.taken_up
  have htop : top ≤ s.credit := by
    have hcurrent := h.ok.current
    rw [hsame] at hcurrent
    exact (hcurrent ▸ hle).trans hmono
  have htg : t.seen.inGeneration = x.writer.outGeneration := hs.inGeneration.trans hgen
  have hsent' : ∀ c ∈ sent, c.generation = x.writer.outGeneration ∧ top ≤ c.ledger := by
    intro c hc
    rcases hsent with rfl | rfl
    · simp at hc
    · rw [List.mem_singleton] at hc
      rw [hc]
      exact ⟨hgen, htop⟩
  apply h.keep hok rfl
  · intro c hc
    rcases List.mem_append.mp hc with hc | hc
    · exact h.reached c hc
    · exact (hsent' c hc).1.le
  · exact fun _ => htg
  · refine ⟨top, hin, ?_, fun c hc hcg => ?_⟩
    · have hcurrent := hok.current
      change _ = t.seen.credit at hcurrent
      rw [← htg]
      refine htop.trans ?_
      rw [← hs.credit]
      exact hcurrent.ge
    · rcases List.mem_append.mp hc with hc | hc
      · exact hahead c hc hcg
      · exact (hsent' c hc).2

theorem Steady.quiet (h : x.Steady) {s : Reader}
    (hok : (x.next e l).Ok) (hw : l.writer = x.link.writer)
    (hr : l.reader = .idle s) (hc : l.credits = x.link.credits)
    (hread : x.readIn x.writer.outGeneration ≤ (x.next e l).readIn x.writer.outGeneration) :
    (x.next e l).Steady ∧ Rises x (x.next e l) := by
  apply h.keep hok hw
  · rw [hc]
    exact h.reached
  · rintro ⟨r, q, k, hbusy⟩
    rw [hr] at hbusy
    simp at hbusy
  · obtain ⟨top, hin, hle, hahead⟩ := h.taken_up
    exact ⟨top, hin, hle.trans hread, hc ▸ hahead⟩

theorem readIn_le_next
    (hcredit : x.readIn l.reader.seen.inGeneration ≤ l.reader.seen.credit) (g : ℕ) :
    x.readIn g ≤ (x.next e l).readIn g := by
  change x.readIn g ≤ Function.update x.readIn l.reader.seen.inGeneration l.reader.seen.credit g
  by_cases hg : g = l.reader.seen.inGeneration
  · rw [hg, Function.update_self]
    exact hcredit
  · rw [Function.update_of_ne hg]

theorem Steady.step (h : x.Steady) (hun : x.Unpassed e)
    (hs : x.step e = some y) : y.Steady ∧ Rises x y := by
  have hok := h.ok.step hs
  obtain ⟨l, hl, rfl⟩ := Option.map_eq_some_iff.mp hs
  have hsteps := Link.steps_of_step hl
  cases hsteps with
  | start hw => exact h.start hw hok
  | resume hw => exact h.resume hw hun hok
  | deliver hw hc => exact h.deliver hw hc hun hok
  | deliverHiccup hw hh => exact h.deliverHiccup hw hh hok
  | @correlationReleased w hw =>
    have hseen : x.writer = w := by rw [writer, hw, WriterThread.seen]
    obtain ⟨top, hin, hle, hahead⟩ := h.taken_up
    rw [hw] at hin
    have hread := h.ok.readIn_of_reader_eq (e := .correlationReleased) (l := { x.link with
        credits := x.link.credits ++ [{ generation := w.outGeneration, ledger := w.credit }] }) rfl
    apply h.keep hok rfl
    · intro c hc
      rcases List.mem_append.mp hc with hc | hc
      · exact h.reached c hc
      · rw [List.mem_singleton] at hc
        rw [hc, hseen]
    · exact h.turning
    · refine ⟨w.credit, ?_, ?_, fun c hc hcg => ?_⟩
      · rw [hw]
        exact ⟨le_rfl, hin.2⟩
      · rw [hread]
        exact hin.1.trans hle
      · rcases List.mem_append.mp hc with hc | hc
        · exact hin.1.trans (hahead c hc hcg)
        · rw [List.mem_singleton] at hc
          rw [hc]
  | @hiccup r hr =>
    have hseen : x.reader = r := by rw [reader, hr, ReaderThread.seen]
    apply h.quiet hok rfl rfl rfl
    apply readIn_le_next
    refine le_of_eq_of_le (h.ok.ahead _ ?_) (Ledger.zero_le _)
    exact Nat.lt_succ_of_le (hseen ▸ h.ok.behind)
  | @readDelimiter r r' skipped m exhausted hr hskip ht hm =>
    have hseen : x.reader = r := by rw [reader, hr, ReaderThread.seen]
    obtain ⟨-, -, hr'⟩ := take_spec ht
    apply h.quiet hok rfl rfl rfl
    apply readIn_le_next
    change x.readIn r'.inGeneration ≤ r'.credit
    rw [show r'.inGeneration = x.reader.inGeneration by rw [hseen, hr'], h.ok.current, hseen, hr']
    exact le_rfl
  | @read r r' skipped m exhausted hr hskip ht hm =>
    have hseen : x.reader = r := by rw [reader, hr, ReaderThread.seen]
    obtain ⟨hg, -, hr'⟩ := take_spec ht
    obtain ⟨hcg, -, -, hcm, -⟩ := countFrame_spec r' m
    have hmax : r'.bytesRead ≤ uint64Max := by
      have := h.ok.read_le
      rw [hseen] at this
      rw [hr']
      exact this
    have hsame : x.reader.inGeneration = x.writer.outGeneration := hseen ▸ hg
    refine h.turn (Reader.accountInboundFrame_turns m exhausted) hok ?_ hsame ?_
    · rw [hcg, hr']
      exact hg
    · have hcredit : r'.credit = x.reader.credit := by rw [hseen, hr']; rfl
      exact hcredit ▸ (hcm hmax).1
  | @look r q k hr =>
    have hseen : x.reader = r := by rw [reader, hr, ReaderThread.seen]
    have hsame := h.turning ⟨r, q, k, hr⟩
    have hsound : Reader.Turns r (.ask r q k) (Reader.Concludes r) := by
      have := h.ok.reading
      rw [hr] at this
      exact this
    exact h.turn ((Prog.holds_ask.mp hsound).2 _ trivial) hok (hseen ▸ hsame) hsame (hseen ▸ le_rfl)
  | @plan r hwm lwmHint hr =>
    have hseen : x.reader = r := by rw [reader, hr, ReaderThread.seen]
    apply h.quiet hok rfl rfl rfl
    apply readIn_le_next
    exact (hseen ▸ h.ok.current).le
  | @applyPlan r hr =>
    have hseen : x.reader = r := by rw [reader, hr, ReaderThread.seen]
    apply h.quiet hok rfl rfl rfl
    apply readIn_le_next
    exact (hseen ▸ h.ok.current).le

theorem Steady.run {es : List Event} (h : x.Steady)
    (hun : x.Along Unpassed es) (hs : x.run es = some y) : y.Steady ∧ Rises x y := by
  refine Trace.run_invariant (I := fun z => z.Steady ∧ Rises x z) ?_ ⟨h, Rises.refl x⟩ hun hs
  rintro z e z' ⟨hz, hrise⟩ hC hstep
  obtain ⟨hz', hrise'⟩ := hz.step hC hstep
  exact ⟨hz', hrise.trans hrise'⟩

/-- In a run in which no credit is passed on its way, the messages and bytes that the
writer has credited never fall within a generation. -/
theorem run_rises (hwm : ℕ) (conflate registryAccounting : Bool)
    (es fs : List Event) (x y : Audited)
    (hx : (init hwm conflate registryAccounting).run es = some x) (hy : x.run fs = some y)
    (hun : (init hwm conflate registryAccounting).Along Unpassed (es ++ fs))
    (hgen : y.writer.outGeneration = x.writer.outGeneration) :
    x.writer.peersMsgsRead ≤ y.writer.peersMsgsRead ∧
      x.writer.peersBytesRead ≤ y.writer.peersBytesRead := by
  have hsteady := ((steady_init hwm conflate registryAccounting).run hun.of_append hx).1
  exact (hsteady.run (hun.after hx) hy).2.2 hgen

/-- The writer waits behind two messages; the reader takes both and sends a credit
for each. The first is delivered and a third message written. -/
def credited : List Event :=
  [.start (.write .single (parcel 64) []), .start (.write .single (parcel 64) []),
   .start (.write .single (parcel 64) []), .resume, .resume,
   .read 0, .look, .read 0, .look,
   .deliver 0,
   .start (.write .single (parcel 64) [])]

/-- The reader takes the third message, and the writer samples its ledger for a
fourth, before the second credit is delivered. -/
def passing : List Event :=
  [.read 0, .look, .start (.write .single (parcel 64) []), .resume]

theorem credited_runs : ((init 128 false false).run credited).isSome = true := by
  decide +kernel

theorem delivered_runs : ((((init 128 false false).run credited).get credited_runs).run
      [.deliver 0]).isSome = true := by
  decide +kernel

theorem credited_rises : ∃ x y, (init 128 false false).run credited = some x ∧
      x.run [.deliver 0] = some y ∧ x.writer.peersBytesRead = 64 ∧ y.writer.peersBytesRead = 128 ∧
      x.writer.peersMsgsRead ≤ y.writer.peersMsgsRead ∧
      x.writer.peersBytesRead ≤ y.writer.peersBytesRead := by
  refine ⟨_, _, (Option.some_get credited_runs).symm,
    (Option.some_get delivered_runs).symm, by decide +kernel, by decide +kernel, ?_⟩
  exact run_rises 128 false false credited [.deliver 0] _ _
    (Option.some_get credited_runs).symm (Option.some_get delivered_runs).symm
    (by decide +kernel) (by decide +kernel)

theorem passing_runs : ((init 128 false false).run (credited ++ passing)).isSome = true := by
  decide +kernel

theorem passed_runs : ((((init 128 false false).run (credited ++ passing)).get passing_runs).run
      [.deliver 0]).isSome = true := by
  decide +kernel

/-- A credit that is older than the sample of the writer takes bytes back. -/
theorem passed_falls : ¬ ∀ (hwm : ℕ) (conflate registryAccounting : Bool) (es fs : List Event)
        (x y : Audited), (init hwm conflate registryAccounting).run es = some x →
        x.run fs = some y → y.writer.outGeneration = x.writer.outGeneration →
        x.writer.peersMsgsRead ≤ y.writer.peersMsgsRead ∧
          x.writer.peersBytesRead ≤ y.writer.peersBytesRead := by
  intro h
  have hrises := h 128 false false (credited ++ passing) [.deliver 0] _ _
    (Option.some_get passing_runs).symm (Option.some_get passed_runs).symm
    (by decide +kernel)
  have hfalls : ¬ (((init 128 false false).run (credited ++ passing)).get
        passing_runs).writer.peersBytesRead ≤
      (((((init 128 false false).run (credited ++ passing)).get passing_runs).run
        [.deliver 0]).get passed_runs).writer.peersBytesRead := by
    decide +kernel
  exact hfalls hrises.2

end Audited

end Zlink.Pipe
