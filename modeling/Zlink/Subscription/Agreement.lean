import Zlink.Subscription.Exchange

/-!
# Both ends agree on the subscriptions

For every pipe, what the XPUB socket will hold once it has read the frames on their way
is the set of prefixes the XSUB socket counts. The invariant replays the frames that are
pending. It is kept by every part that both sockets read alike; the XSUB socket looks for
a request in every part of a message, the XPUB socket behind the first part only where
the first was one.
-/

namespace Zlink

open Protocol

namespace Subscription

namespace Reader

variable {x : Reader × Finset (List UInt8)} {ms ns : List Msg} {m : Msg}

theorem drain_append : drain x (ms ++ ns) = drain (drain x ms) ns :=
  List.foldl_append

theorem drain_concat : drain x (ms ++ [m]) = process (drain x ms) m := by
  rw [drain_append]
  rfl

theorem process_boundary {r s : Reader} {held : Finset (List UInt8)}
    (hr : r.moreRecv = false) (hs : s.moreRecv = false) :
    process (r, held) m = process (s, held) m := by
  simp [process, request, hr, hs]

theorem drain_boundary {r s : Reader} {held : Finset (List UInt8)}
    (hr : r.moreRecv = false) (hs : s.moreRecv = false) (hms : ms ≠ []) :
    drain (r, held) ms = drain (s, held) ms := by
  cases ms with
  | nil => exact absurd rfl hms
  | cons m ms =>
    rw [drain, drain, List.foldl_cons, List.foldl_cons, process_boundary hr hs]

end Reader

/-- The XPUB socket looks for a request in the next part on this pipe: it is the first of
a record, or the first was one. -/
def Upstream.Reads (w : Upstream) : Prop :=
  ∀ m ∈ w.opened.head?, (Part.xpubRequest m).isSome

instance (w : Upstream) : Decidable w.Reads :=
  inferInstanceAs (Decidable (∀ m ∈ w.opened.head?, (Part.xpubRequest m).isSome))

/-- With the pending frames read, the XPUB socket holds what is subscribed, and is in
the record in progress. -/
structure Upstream.Settles (w : Upstream) (t : Trie) : Prop where
  closed : ∀ x : Reader × Finset (List UInt8), x.1.moreRecv = false →
    (Reader.drain x w.queue).1.moreRecv = false
  held : ∀ ps p, p ∈ (Reader.drain (⟨false, ps⟩, w.held) w.pending).2 ↔ 0 < t.refs p
  more : ∀ ps, (Reader.drain (⟨false, ps⟩, w.held) w.pending).1.moreRecv = true ↔ w.opened ≠ []
  reads : ∀ ps, w.opened ≠ [] →
    ((Reader.drain (⟨false, ps⟩, w.held) w.pending).1.processSubscribe = true ↔ w.Reads)
  waits : w.active = false → w.opened = []

structure Exchange.Ok (x : Exchange) : Prop where
  wf : x.xsub.subscriptions.Wf
  looks : x.xsub.moreSend = true → x.xsub.processSubscribe = true
  boundary : ∀ k, (x.xpubs k).moreRecv = false
  pipes : ∀ w ∈ x.pipes, w.Settles x.xsub.subscriptions

namespace Upstream

variable {w : Upstream} {t u : Trie} {m : Msg}

theorem Settles.congr (h : w.Settles t) (hrefs : ∀ p, 0 < u.refs p ↔ 0 < t.refs p) : w.Settles u :=
  { h with held := fun ps p => (h.held ps p).trans (hrefs p).symm }

theorem pending_write : (w.write m).pending = w.pending ++ [m] := by
  unfold write pending
  split <;> simp

theorem opened_write_ne_nil : (w.write m).opened ≠ [] ↔ Part.isMore m = true := by
  unfold write
  split <;> simp [*]

structure Effect (req : Option Request) (t u : Trie) : Prop where
  none : req = none → ∀ p, 0 < u.refs p ↔ 0 < t.refs p
  subscribe : ∀ topic, req = some (.subscribe topic) → ∀ p, 0 < u.refs p ↔ p = topic ∨ 0 < t.refs p
  cancel : ∀ topic, req = some (.cancel topic) → ∀ p, 0 < u.refs p ↔ p ≠ topic ∧ 0 < t.refs p

theorem mem_process {x : Reader × Finset (List UInt8)}
    (heffect : Effect (x.1.request m) t u) (hheld : ∀ p, p ∈ x.2 ↔ 0 < t.refs p)
    (p : List UInt8) : p ∈ (Reader.process x m).2 ↔ 0 < u.refs p := by
  unfold Reader.process
  cases hreq : x.1.request m with
  | none =>
    rw [heffect.none hreq]
    exact hheld p
  | some req =>
    cases req with
    | subscribe topic =>
      rw [heffect.subscribe topic hreq, ← hheld]
      exact Finset.mem_insert
    | cancel topic =>
      rw [heffect.cancel topic hreq, ← hheld]
      exact Finset.mem_erase

theorem Settles.request_reads (h : w.Settles t) (ps : Bool) (hreads : w.Reads) :
    (Reader.drain (⟨false, ps⟩, w.held) w.pending).1.request m = Part.xpubRequest m := by
  have hlooks : (!(Reader.drain (⟨false, ps⟩, w.held) w.pending).1.moreRecv ||
      (Reader.drain (⟨false, ps⟩, w.held) w.pending).1.processSubscribe) = true := by
    by_cases hopened : w.opened = []
    · have hmore := mt (h.more ps).mp (not_not_intro hopened)
      simp [hmore]
    · have hlook := (h.reads ps hopened).mpr hreads
      simp [hlook]
  unfold Reader.request
  rw [if_pos hlooks]

theorem Settles.request_ignores (h : w.Settles t) (ps : Bool) (hreads : ¬ w.Reads) :
    (Reader.drain (⟨false, ps⟩, w.held) w.pending).1.request m = none := by
  have hopened : w.opened ≠ [] := by
    intro hnil
    apply hreads
    simp [Reads, hnil]
  have hmore := (h.more ps).mpr hopened
  have hlook := mt (h.reads ps hopened).mp hreads
  simp [Reader.request, hmore, hlook]

/-- A part changes what is held as it changes what is counted, or neither. -/
def Sound (w : Upstream) (m : Msg) (t u : Trie) : Prop :=
  (w.active = true ∧ w.Reads ∧ Effect (Part.xpubRequest m) t u) ∨
    ((w.Reads → Effect (Part.xpubRequest m) t u) ∧ ∀ p, 0 < u.refs p ↔ 0 < t.refs p)

theorem Sound.effect (hsound : w.Sound m t u) (h : w.Settles t) (ps : Bool) :
    Effect ((Reader.drain (⟨false, ps⟩, w.held) w.pending).1.request m) t u := by
  by_cases hreads : w.Reads
  · rw [h.request_reads ps hreads]
    obtain ⟨-, -, heffect⟩ | ⟨heffect, -⟩ := hsound
    · exact heffect
    · exact heffect hreads
  · rw [h.request_ignores ps hreads]
    obtain ⟨-, hreads', -⟩ | ⟨-, hsame⟩ := hsound
    · exact absurd hreads' hreads
    · constructor
      · exact fun _ => hsame
      all_goals
        intro topic hreq
        cases hreq

theorem Settles.write (h : w.Settles t) (hactive : w.active = true)
    (hsound : w.Sound m t u) : (w.write m).Settles u := by
  have hheld : (w.write m).held = w.held := by
    unfold Upstream.write
    split <;> rfl
  constructor
  · intro x hx
    unfold Upstream.write
    split
    · exact h.closed x hx
    · rename_i hlast
      rw [Reader.drain_concat]
      simpa [Reader.process] using hlast
  · intro ps
    rw [hheld, pending_write, Reader.drain_concat]
    exact mem_process (hsound.effect h ps) (h.held ps)
  · intro ps
    rw [hheld, pending_write, Reader.drain_concat, opened_write_ne_nil]
    rfl
  · intro ps hopened
    have hopen : (w.write m).opened = w.opened ++ [m] := by
      unfold Upstream.write
      rw [if_pos (opened_write_ne_nil.mp hopened)]
    rw [hheld, pending_write, Reader.drain_concat, Reads, hopen]
    by_cases hfirst : w.opened = []
    · have hmore := mt (h.more ps).mp (not_not_intro hfirst)
      have hreq := h.request_reads (m := m) ps (by simp [Reads, hfirst])
      simp [Reader.process, hmore, hreq, hfirst]
    · have hmore := (h.more ps).mpr hfirst
      have hreads := h.reads ps hfirst
      simp only [Reader.process, hmore, if_true, hreads, Reads,
        List.head?_append_of_ne_nil _ hfirst]
  · intro hwaits
    have hsame : (w.write m).active = w.active := by
      unfold Upstream.write
      split <;> rfl
    rw [hsame, hactive] at hwaits
    cases hwaits

theorem Settles.activate (h : w.Settles t) : ({ w with active := true } : Upstream).Settles t :=
  { h with waits := fun hactive => by cases hactive }

theorem Settles.distribute (h : w.Settles t) (hsound : w.Sound m t u) :
    (w.distribute m).Settles u := by
  have hwritten : (if w.active then w.write m else w).Settles u := by
    split
    · rename_i hactive
      exact h.write hactive hsound
    · rename_i hactive
      obtain ⟨hactive', -⟩ | ⟨-, hsame⟩ := hsound
      · exact absurd hactive' hactive
      · exact h.congr hsame
  by_cases hmore : Part.isMore m = true
  · simp only [Upstream.distribute, hmore, if_true]
    exact hwritten
  · simp only [Upstream.distribute, hmore]
    exact hwritten.activate

/-- The XPUB socket reads what is complete; what it remembers from another pipe is of no
account. -/
theorem Settles.read (h : w.Settles t) {r : Reader} (hr : r.moreRecv = false) :
    Settles { w with queue := [], held := (Reader.drain (r, w.held) w.queue).2 } t := by
  have hclosed := h.closed (r, w.held) hr
  have hwhole : Reader.drain (⟨false, r.processSubscribe⟩, w.held) w.pending =
      Reader.drain (Reader.drain (r, w.held) w.queue) w.opened := by
    rw [← Reader.drain_append, ← hr]
    rfl
  have hheld := h.held r.processSubscribe
  have hmore := h.more r.processSubscribe
  have hreads := h.reads r.processSubscribe
  rw [hwhole] at hheld hmore hreads
  by_cases hopened : w.opened = []
  · rw [hopened] at hheld
    constructor
    · exact fun x hx => hx
    · intro ps p
      simpa [pending, hopened, Reader.drain] using hheld p
    · intro ps
      simp [pending, hopened, Reader.drain]
    · exact fun ps hne => absurd hopened hne
    · exact h.waits
  · have hpending (ps : Bool) : Reader.drain
          (⟨false, ps⟩, (Reader.drain (r, w.held) w.queue).2) w.opened =
        Reader.drain (Reader.drain (r, w.held) w.queue) w.opened :=
      Reader.drain_boundary rfl hclosed hopened
    constructor
    · exact fun x hx => hx
    · intro ps
      simpa [pending, hpending] using hheld
    · intro ps
      simpa [pending, hpending] using hmore
    · intro ps hne
      simp only [pending, List.nil_append, hpending]
      exact hreads hne
    · exact h.waits

end Upstream

namespace Exchange

/-- The counter has room, and a new prefix finds no pipe that waits for the next message
or whose record did not begin with a request. -/
def TakesSubscribe (x : Exchange) (topic : List UInt8) : Prop :=
  x.xsub.subscriptions.refs topic + 1 < 2 ^ 32 ∧
    (x.xsub.subscriptions.refs topic = 0 → ∀ w ∈ x.pipes, w.active = true ∧ w.Reads)

def TakesCancel (x : Exchange) (topic : List UInt8) : Prop :=
  x.xsub.subscriptions.refs topic = 1 → ∀ w ∈ x.pipes, w.active = true ∧ w.Reads

instance (x : Exchange) (topic : List UInt8) : Decidable (x.TakesSubscribe topic) :=
  inferInstanceAs (Decidable (_ ∧ _))

instance (x : Exchange) (topic : List UInt8) : Decidable (x.TakesCancel topic) :=
  inferInstanceAs (Decidable (_ → _))

/-- A part is read alike at both ends: both sockets see the same request in it, and find
room for it. -/
def ReadAlike (x : Exchange) (m : Msg) : Prop :=
  Part.xsubRequest m = Part.xpubRequest m ∧
    match Part.xsubRequest m with
    | none => True
    | some (.subscribe topic) => x.TakesSubscribe topic
    | some (.cancel topic) => x.TakesCancel topic

instance (x : Exchange) (m : Msg) : Decidable (x.ReadAlike m) :=
  @instDecidableAnd _ _ _ <|
    match Part.xsubRequest m with
    | none => .isTrue trivial
    | some (.subscribe topic) => inferInstanceAs (Decidable (x.TakesSubscribe topic))
    | some (.cancel topic) => inferInstanceAs (Decidable (x.TakesCancel topic))

def Admits (x : Exchange) : Event → Prop
  | .send m => x.ReadAlike m
  | .attach _ => True
  | .read _ => True

instance (x : Exchange) : DecidablePred x.Admits
  | .send m => inferInstanceAs (Decidable (x.ReadAlike m))
  | .attach _ => .isTrue trivial
  | .read _ => .isTrue trivial

variable {x y : Exchange} {m : Msg} {t : Trie}

theorem Ok.sendToAll (h : x.Ok) (xsub : Xsub) (hwf : xsub.subscriptions.Wf)
    (hlooks : xsub.processSubscribe = true)
    (hsound : ∀ w ∈ x.pipes, w.Sound m x.xsub.subscriptions xsub.subscriptions) :
    ({ x with xsub := xsub }.sendToAll m).Ok where
  wf := hwf
  looks _ := hlooks
  boundary := h.boundary
  pipes := by
    intro w hw
    obtain ⟨w', hw', rfl⟩ := List.mem_map.mp hw
    exact (h.pipes w' hw').distribute (hsound w' hw')

theorem Ok.swallow (h : x.Ok) (xsub : Xsub) (hwf : xsub.subscriptions.Wf)
    (hlooks : xsub.processSubscribe = true)
    (hsame : ∀ p, 0 < xsub.subscriptions.refs p ↔ 0 < x.xsub.subscriptions.refs p) :
    ({ x with xsub := xsub } : Exchange).Ok where
  wf := hwf
  looks _ := hlooks
  boundary := h.boundary
  pipes w hw := (h.pipes w hw).congr hsame

theorem effect_subscribe {topic : List UInt8} {n : ℕ} {u : Trie}
    (hreq : Part.xpubRequest m = some (.subscribe topic)) (hpos : 0 < n)
    (hcounts : Trie.Counts t u topic n) : Upstream.Effect (Part.xpubRequest m) t u := by
  constructor
  · intro hnone
    rw [hreq] at hnone
    cases hnone
  · intro topic' hsome p
    rw [hreq] at hsome
    cases hsome
    rw [hcounts.refs]
    split <;> simp [*]
  · intro topic' hsome
    rw [hreq] at hsome
    cases hsome

theorem effect_cancel {topic : List UInt8} {u : Trie}
    (hreq : Part.xpubRequest m = some (.cancel topic))
    (hcounts : Trie.Counts t u topic 0) : Upstream.Effect (Part.xpubRequest m) t u := by
  constructor
  · intro hnone
    rw [hreq] at hnone
    cases hnone
  · intro topic' hsome
    rw [hreq] at hsome
    cases hsome
  · intro topic' hsome p
    rw [hreq] at hsome
    cases hsome
    rw [hcounts.refs]
    split <;> simp [*]

theorem pos_of_counts {topic : List UInt8} {n : ℕ} {u : Trie}
    (hcounts : Trie.Counts t u topic n) (hn : 0 < n ↔ 0 < t.refs topic)
    (p : List UInt8) : 0 < u.refs p ↔ 0 < t.refs p := by
  rw [hcounts.refs]
  split
  · subst p
    exact hn
  · rfl

theorem Ok.subscribe (h : x.Ok) {topic : List UInt8}
    (hreq : Part.xsubRequest m = some (.subscribe topic)) (halike : x.ReadAlike m) :
    ∃ y, x.xsend m = some y ∧ y.Ok := by
  obtain ⟨hsame, hmatch⟩ := halike
  rw [hreq] at hsame hmatch
  obtain ⟨hroom, hchange⟩ := hmatch
  obtain ⟨u, hu, hcounts⟩ := Trie.add_spec h.wf topic
  obtain ⟨hcounts, -⟩ := hcounts hroom
  have heffect := effect_subscribe hsame.symm (Nat.succ_pos _) hcounts
  have hlooks := h.looks
  refine ⟨_, ?_, h.sendToAll (m := m) ⟨u, Part.isMore m, true, x.xsub.distMore⟩ hcounts.wf rfl ?_⟩
  · unfold Exchange.xsend
    cases hmore : x.xsub.moreSend with
    | false => simp [hreq, hu]
    | true => simp [hreq, hu, hlooks hmore]
  · intro w hw
    by_cases hnew : x.xsub.subscriptions.refs topic = 0
    · obtain ⟨hactive, hreads⟩ := hchange hnew w hw
      exact .inl ⟨hactive, hreads, heffect⟩
    · refine .inr ⟨fun _ => heffect, pos_of_counts hcounts ?_⟩
      omega

theorem Ok.cancel (h : x.Ok) {topic : List UInt8}
    (hreq : Part.xsubRequest m = some (.cancel topic)) (halike : x.ReadAlike m) :
    ∃ y, x.xsend m = some y ∧ y.Ok := by
  obtain ⟨hsame, hmatch⟩ := halike
  rw [hreq] at hsame hmatch
  obtain ⟨u, hu, hcounts⟩ := Trie.rm_spec h.wf topic
  have hlooks := h.looks
  by_cases hlast : x.xsub.subscriptions.refs topic = 1
  · refine ⟨_, ?_, h.sendToAll (m := m) ⟨u, Part.isMore m, true, x.xsub.distMore⟩ hcounts.wf rfl ?_⟩
    · unfold Exchange.xsend
      cases hmore : x.xsub.moreSend with
      | false => simp [hreq, hu, hlast]
      | true => simp [hreq, hu, hlooks hmore, hlast]
    · intro w hw
      obtain ⟨hactive, hreads⟩ := hmatch hlast w hw
      rw [hlast] at hcounts
      exact .inl ⟨hactive, hreads, effect_cancel hsame.symm hcounts⟩
  · refine ⟨_, ?_, h.swallow ⟨u, Part.isMore m, true, x.xsub.distMore⟩
      hcounts.wf rfl (pos_of_counts hcounts ?_)⟩
    · unfold Exchange.xsend
      cases hmore : x.xsub.moreSend with
      | false => simp [hreq, hu, hlast, verboseUnsubs]
      | true => simp [hreq, hu, hlooks hmore, hlast, verboseUnsubs]
    · omega

theorem Ok.forward (h : x.Ok) (hreq : Part.xsubRequest m = none)
    (halike : x.ReadAlike m) : ∃ y, x.xsend m = some y ∧ y.Ok := by
  obtain ⟨hsame, -⟩ := halike
  rw [hreq] at hsame
  have hlooks := h.looks
  refine ⟨_, ?_, h.sendToAll (m := m)
    ⟨x.xsub.subscriptions, Part.isMore m, true, x.xsub.distMore⟩ h.wf rfl ?_⟩
  · unfold Exchange.xsend
    cases hmore : x.xsub.moreSend with
    | false => simp [hreq]
    | true => simp [hreq, hlooks hmore]
  · intro w _
    refine .inr ⟨fun _ => ⟨fun _ _ => Iff.rfl, ?_, ?_⟩, fun _ => Iff.rfl⟩
    all_goals
      intro topic hsome
      rw [← hsame] at hsome
      cases hsome

theorem Ok.xsend (h : x.Ok) (halike : x.ReadAlike m) : ∃ y, x.xsend m = some y ∧ y.Ok := by
  cases hreq : Part.xsubRequest m with
  | none => exact h.forward hreq halike
  | some req =>
    cases req with
    | subscribe topic => exact h.subscribe hreq halike
    | cancel topic => exact h.cancel hreq halike

theorem process_subscription (r : Reader) (held : Finset (List UInt8))
    (topic : List UInt8) (hr : r.moreRecv = false) :
    Reader.process (r, held) (Part.subscription topic) = (⟨false, true⟩, insert topic held) := by
  have hflags : (Part.subscription topic).flags = Msg.subscribe := rfl
  have hmark : Part.isSubscribe (Part.subscription topic) = true := by
    rw [Part.isSubscribe, hflags]
    decide
  have hcommand : hasAny (Part.subscription topic).flags Msg.command = false := by
    rw [hflags]
    decide
  have hbody : Part.commandBody (Part.subscription topic) = some topic := by
    simp only [Part.commandBody, hcommand]
    rfl
  have hmore : Part.isMore (Part.subscription topic) = false := by
    rw [Part.isMore, hflags]
    decide
  simp [Reader.process, Reader.request, Part.xpubRequest, hr, hmark, hbody, hmore]

theorem drain_subscriptions (topics : List (List UInt8))
    (x : Reader × Finset (List UInt8)) (hx : x.1.moreRecv = false) :
    (Reader.drain x (topics.map Part.subscription)).1.moreRecv = false ∧
      ∀ p, p ∈ (Reader.drain x (topics.map Part.subscription)).2 ↔ p ∈ topics ∨ p ∈ x.2 := by
  induction topics generalizing x with
  | nil => simp [Reader.drain, hx]
  | cons topic topics ih =>
    have hstep := process_subscription x.1 x.2 topic hx
    obtain ⟨hmore, hheld⟩ := ih (⟨false, true⟩, insert topic x.2) rfl
    have hdrain : Reader.drain x ((topic :: topics).map Part.subscription) =
        Reader.drain (⟨false, true⟩, insert topic x.2) (topics.map Part.subscription) := by
      rw [← hstep]
      rfl
    rw [hdrain]
    refine ⟨hmore, fun p => ?_⟩
    rw [hheld, Finset.mem_insert, List.mem_cons]
    tauto

theorem Ok.attached (h : x.Ok) {fuel : ℕ} {prefixes : List (List UInt8)}
    (happly : x.xsub.subscriptions.apply fuel = some prefixes) : Upstream.Settles
      { active := !x.xsub.distMore, queue := prefixes.map Part.subscription,
        opened := [], held := ∅ } x.xsub.subscriptions := by
  have hdrain := drain_subscriptions prefixes
  constructor
  · exact fun x hx => (hdrain x hx).1
  · intro ps p
    rw [← Trie.mem_apply h.wf happly p]
    simpa [Upstream.pending] using (hdrain (⟨false, ps⟩, ∅) rfl).2 p
  · intro ps
    simp [Upstream.pending, (hdrain (⟨false, ps⟩, ∅) rfl).1]
  · exact fun ps hopened => absurd rfl hopened
  · exact fun _ => rfl

theorem Ok.attach (h : x.Ok) {fuel : ℕ} (hy : x.xattachPipe fuel = some y) : y.Ok := by
  obtain ⟨prefixes, happly, hy⟩ := Option.bind_eq_some_iff.mp hy
  obtain rfl := Option.some.inj hy
  refine { h with pipes := fun w hw => ?_ }
  obtain hw | hw := List.mem_append.mp hw
  · exact h.pipes w hw
  · rw [List.mem_singleton.mp hw]
    exact h.attached happly

theorem Ok.read (h : x.Ok) (peer : ℕ → ℕ) (i : ℕ) : (x.xreadActivated peer i).Ok := by
  cases hw : x.pipes[i]? with
  | none =>
    simp only [xreadActivated, hw]
    exact h
  | some w =>
    have hsettles := h.pipes w (List.mem_of_getElem? hw)
    have hboundary := h.boundary (peer i)
    simp only [xreadActivated, hw]
    refine { h with boundary := fun k => ?_, pipes := fun w' hw' => ?_ }
    · by_cases hk : k = peer i
      · subst hk
        simpa using hsettles.closed (x.xpubs (peer i), w.held) hboundary
      · simpa [hk] using h.boundary k
    · obtain hw' | rfl := List.mem_or_eq_of_mem_set hw'
      · exact h.pipes w' hw'
      · exact hsettles.read hboundary

theorem init_ok : init.Ok where
  wf := Trie.empty_wf
  looks hmore := by cases hmore
  boundary _ := rfl
  pipes w hw := by cases hw

theorem Ok.step (h : x.Ok) {peer : ℕ → ℕ} {e : Event} (hadmits : x.Admits e)
    (hy : x.step peer e = some y) : y.Ok := by
  cases e with
  | send m =>
    obtain ⟨z, hz, hok⟩ := h.xsend hadmits
    obtain rfl : z = y := Option.some.inj (hz.symm.trans hy)
    exact hok
  | attach fuel => exact h.attach hy
  | read i =>
    obtain rfl := Option.some.inj hy
    exact h.read peer i

/-- The two ends agree: for every pipe, the prefixes held once the frames on their way
are read are those that are counted, and neither a message nor a new pipe is refused. -/
structure Agrees (x : Exchange) (peer : ℕ → ℕ) : Prop where
  held : ∀ i w, x.pipes[i]? = some w → ∀ p,
    p ∈ (Reader.drain (x.xpubs (peer i), w.held) w.pending).2 ↔ 0 < x.xsub.subscriptions.refs p
  sends : ∀ m, x.Admits (.send m) → ∃ y, x.step peer (.send m) = some y
  attaches : ∃ n, ∀ fuel, n ≤ fuel → ∃ y, x.step peer (.attach fuel) = some y

theorem Ok.agrees (h : x.Ok) (peer : ℕ → ℕ) : x.Agrees peer where
  held i w hw p := by
    have hreader : x.xpubs (peer i) = ⟨false, (x.xpubs (peer i)).processSubscribe⟩ := by
      rw [← h.boundary (peer i)]
    rw [hreader]
    exact (h.pipes w (List.mem_of_getElem? hw)).held _ p
  sends m halike := by
    obtain ⟨y, hy, -⟩ := h.xsend halike
    exact ⟨y, hy⟩
  attaches := by
    obtain ⟨n, outs, hn, -⟩ := Trie.apply_spec h.wf
    refine ⟨n, fun fuel hfuel => ?_⟩
    simp only [Exchange.step, xattachPipe, hn fuel hfuel]
    exact ⟨_, rfl⟩

/-- **Agreement.** In a run whose parts are all read alike at both ends, every state has
the two ends agree. -/
theorem run_agrees (peer : ℕ → ℕ) {es : List Event}
    (hadmits : Trace.Along (step peer) Admits init es)
    (hrun : Trace.run (step peer) init es = some y) : y.Agrees peer := by
  have hok : y.Ok :=
    Trace.run_invariant (fun _ _ _ hx hC hy => hx.step hC hy) init_ok hadmits hrun
  exact hok.agrees peer

/-- A peer that joins late, and a message of a subscription and a withdrawal. -/
def shared : List Event :=
  [.attach 4, .send (Part.subscription [65]), .send (Part.subscription [66]), .attach 8,
    .send { flags := Msg.more, data := [1, 65], requestReply := none },
    .send { flags := 0, data := [0, 66], requestReply := none }, .read 1]

theorem run_agrees_shared : ∃ y, Trace.run (step id) init shared = some y ∧ y.Agrees id :=
  ⟨_, rfl, @run_agrees _ id shared (by decide) rfl⟩

/-- The second part of a message that begins with a plain part counts as a subscription
where it is sent and is none where it arrives. -/
theorem run_disagrees : ¬ ∀ (peer : ℕ → ℕ) (es : List Event) (y : Exchange),
      Trace.run (step peer) init es = some y → ∀ i w, y.pipes[i]? = some w → ∀ p,
          p ∈ (Reader.drain (y.xpubs (peer i), w.held) w.pending).2 ↔
            0 < y.xsub.subscriptions.refs p := by
  intro h
  have hiff := h id [.attach 1, .send { flags := Msg.more, data := [104], requestReply := none },
    .send { flags := 0, data := [1, 65], requestReply := none }, .read 0] _ rfl 0 _ rfl [65]
  revert hiff
  decide

end Exchange

end Subscription

end Zlink
