import Zlink.ClientServer.Selector

/-!
# Schedules agree with plain selection

Whatever the calls of a selector are, and whenever a precomputation gives up, the selections and
the credits that show are those of the plain selector.
-/

namespace Zlink.ClientServer

open SmoothWeighted

theorem mem_insertCandidate {m : OrderedMap String Candidate} {candidate : Candidate}
    (h : ∀ e ∈ m.entries, e.2.key = e.1 ∧ e.2.weight ≠ 0) :
    ∀ e ∈ (insertCandidate m candidate).entries, e.2.key = e.1 ∧ e.2.weight ≠ 0 := by
  intro e he
  unfold insertCandidate at he
  dsimp only at he
  split at he
  · exact h e he
  · rename_i hweight
    rcases OrderedMap.mem_place he with rfl | he
    · refine ⟨rfl, ?_⟩
      dsimp only
      split <;> exact hweight
    · exact h e he

variable {candidates : List Candidate}

theorem mem_normalized {m : OrderedMap String Candidate}
    (h : ∀ e ∈ m.entries, e.2.key = e.1 ∧ e.2.weight ≠ 0) :
    ∀ e ∈ (candidates.foldl insertCandidate m).entries, e.2.key = e.1 ∧ e.2.weight ≠ 0 := by
  induction candidates generalizing m with
  | nil => exact h
  | cons candidate candidates ih => exact ih (mem_insertCandidate h)

theorem keys_normalize (candidates : List Candidate) :
    ((normalize candidates).map Candidate.key).Nodup := by
  unfold normalize
  rw [List.map_map]
  refine (List.map_congr_left fun e he => ?_).symm ▸ OrderedMap.keys_nodup _
  exact (mem_normalized (m := .empty) nofun e he).1

theorem weight_normalize {x : Candidate} (hx : x ∈ normalize candidates) : x.weight ≠ 0 := by
  obtain ⟨e, he, rfl⟩ := List.mem_map.mp hx
  exact (mem_normalized (m := .empty) nofun e he).2

variable {total : ℕ}

theorem total_of_sumWeights {start : ℕ} (h : sumWeights start candidates = some total) :
    total = start + totalWeight ((candidates.map Candidate.item).map Prod.snd) := by
  induction candidates generalizing start with
  | nil => exact (Option.some.inj h).symm
  | cons candidate candidates ih =>
    rw [sumWeights] at h
    split at h
    · cases h
    · rw [ih h, List.map_cons, List.map_cons, totalWeight, totalWeight, List.map_cons,
        List.sum_cons, ← Nat.add_assoc]
      rfl

theorem totalWeight_le {T : Type} {shares : List (Share T)} {bound : ℕ}
    (h : ∀ x ∈ shares, x.weight ≤ bound) : totalWeight shares ≤ shares.length * bound := by
  have hle := List.sum_le_card_nsmul (shares.map Share.weight) bound (List.forall_mem_map.mpr h)
  rwa [List.length_map, nsmul_eq_mul, Nat.cast_id] at hle

structure Replays (shares : List (Share String)) (total : ℕ) (x : Precomputed)
    (credits initial : List ℤ) (turns : List ℕ) : Prop where
  cycle : Cycle shares total initial x.schedule x.cycleStart
  length : initial.length = shares.length
  range : ∀ c ∈ initial, -(total : ℤ) ≤ c ∧ c ≤ total
  cycleStartCredits : x.cycleStartCredits =
    after shares total initial (x.schedule.take x.cycleStart)
  scheduleEnd : x.scheduleEnd = x.schedule.length
  cursor_lt : x.cursor < x.schedule.length
  now : credits = after shares total initial (x.schedule.take x.cursor)
  initialLength : x.initialCredits.length = shares.length
  counted : credits = after shares total x.initialCredits turns
  counts : x.selectedCounts = (List.range shares.length).map turns.count
  totalSelections : x.totalSelections = turns.length

variable {s : Selector} {p : PlainSelector} {x : Precomputed} {credits initial : List ℤ}
  {turns : List ℕ} {patience : ℕ}

theorem length_shares (s : Selector) : s.shares.length = s.candidates.length := by
  rw [Selector.shares, Selector.items, List.length_map, List.length_map]

theorem Replays.current (h : Replays s.shares s.total x credits initial turns) :
    (List.range s.candidates.length).map (s.currentPrecomputedCredit x) = credits := by
  have hlength : credits.length = s.shares.length := by
    rw [h.counted]
    exact length_after h.initialLength turns
  apply List.ext_getElem?
  intro i
  by_cases hi : i < s.shares.length
  · have hrange : (List.range s.candidates.length)[i]? = some i := by
      rw [List.getElem?_range (length_shares s ▸ hi)]
    have hs := List.getElem?_eq_getElem hi
    have hc := List.getElem?_eq_getElem (hi.trans_eq h.initialLength.symm)
    rw [h.counted, getElem?_after _ hs hc, List.getElem?_map, hrange, Option.map_some,
      Selector.currentPrecomputedCredit, h.totalSelections, h.counts]
    have hweight : (s.shares.map Share.weight).getD i 0 = s.shares[i].weight := by
      rw [List.getD_eq_getElem?_getD, List.getElem?_map, hs]
      rfl
    have hcount : ((List.range s.shares.length).map turns.count).getD i 0 = turns.count i := by
      rw [List.getD_eq_getElem?_getD, List.getElem?_map, List.getElem?_range hi]
      rfl
    have hinitial : i < x.initialCredits.length := hi.trans_eq h.initialLength.symm
    have hfirst : x.initialCredits.getD i 0 = x.initialCredits[i] := by
      rw [List.getD_eq_getElem?_getD, hc]
      rfl
    rw [hweight, hcount, hfirst]
  · rw [List.getElem?_eq_none (by rw [List.length_map, List.length_range, ← length_shares]; omega),
      List.getElem?_eq_none (by omega)]

/-- While a schedule is replayed, no credit comes near the limit of an `int64_t`. -/
theorem Replays.le_limit (h : Replays s.shares s.total x credits initial turns)
    (hsum : s.total = totalWeight s.shares)
    (hweights : ∀ y ∈ s.shares, 0 < y.weight ∧ y.weight ≤ 2 ^ 32) (hne : s.shares ≠ []) :
    ∀ c ∈ credits, ∀ y ∈ s.shares, c + y.weight ≤ maxInt64 := by
  intro c hc y hy
  have hfew := h.cycle.length_shares_le h.length fun y hy => (hweights y hy).1
  have htotal := totalWeight_le fun y hy => (hweights y hy).2
  have hfollows : Follows s.shares s.total initial (x.schedule.take x.cursor) := by
    have hall := h.cycle.follows
    rw [← List.take_append_drop x.cursor x.schedule] at hall
    exact (follows_append.mp hall).1
  have hrange := h.range
  have hnow := h.now
  rw [hsum] at hfollows hrange hnow
  have hbound := hfollows.le_bound h.length hne hrange c (hnow ▸ hc)
  have hweight := (hweights y hy).2
  have hproduct : s.shares.length * totalWeight s.shares ≤ 4096 * (4096 * 2 ^ 32) :=
    Nat.mul_le_mul hfew (htotal.trans (Nat.mul_le_mul_right _ hfew))
  have hcast : ((s.shares.length * totalWeight s.shares : ℕ) : ℤ) ≤ 4096 * (4096 * 2 ^ 32) := by
    exact_mod_cast hproduct
  push_cast at hcast
  have hweight' : (y.weight : ℤ) ≤ 2 ^ 32 := by exact_mod_cast hweight
  unfold maxInt64
  linarith

theorem replays_start {shares : List (Share String)} {cycleStart : ℕ} {schedule : List ℕ}
    (hcycle : Cycle shares total initial schedule cycleStart)
    (hlength : initial.length = shares.length)
    (hrange : ∀ c ∈ initial, -(total : ℤ) ≤ c ∧ c ≤ total) : Replays shares total
      { initialCredits := initial
        cycleStartCredits := after shares total initial (schedule.take cycleStart)
        schedule := schedule
        selectedCounts := List.replicate shares.length 0
        totalSelections := 0
        cursor := 0
        cycleStart := cycleStart
        scheduleEnd := schedule.length } initial initial [] where
  cycle := hcycle
  length := hlength
  range := hrange
  cycleStartCredits := rfl
  scheduleEnd := rfl
  cursor_lt := (Nat.zero_le _).trans_lt hcycle.start_lt
  now := rfl
  initialLength := hlength
  counted := rfl
  counts := by simp
  totalSelections := rfl

theorem Replays.selects (h : Replays s.shares s.total x credits initial turns) {i : ℕ}
    (hi : x.schedule[x.cursor]? = some i) : selectIndex s.shares credits = some i := by
  rw [h.now]
  exact (h.cycle.replay hi).1

theorem Replays.advance (h : Replays s.shares s.total x credits initial turns) {i : ℕ}
    {candidate : Candidate} (hi : x.schedule[x.cursor]? = some i)
    (hcandidate : s.candidates[i]? = some candidate) : (s.replay x).2 = .selected candidate.key ∧
      ∃ turns, Replays s.shares s.total (s.replay x).1
        (applySelection s.shares s.total credits i) initial turns := by
  have hnext := h.cycle.next_lt h.cursor_lt
  have hreplay := (h.cycle.replay hi).2
  have hlength : (after s.shares s.total initial (x.schedule.take x.cycleStart)).length =
      s.shares.length := length_after h.length _
  rw [← h.now] at hreplay
  unfold Cycle.next at hnext hreplay
  unfold Selector.replay
  rw [hi]
  dsimp only
  rw [hcandidate, h.scheduleEnd]
  dsimp only
  refine ⟨rfl, ?_⟩
  split
  · rename_i hend
    rw [if_pos hend] at hnext hreplay
    refine ⟨[], h.cycle, h.length, h.range, h.cycleStartCredits, rfl, hnext,
      hreplay.symm, ?_, ?_, ?_, rfl⟩
    · exact h.cycleStartCredits ▸ hlength
    · rw [h.cycleStartCredits]
      exact hreplay.symm
    · rw [length_shares]
      simp
  · rename_i hend
    rw [if_neg hend] at hnext hreplay
    refine ⟨turns ++ [i], h.cycle, h.length, h.range, h.cycleStartCredits, rfl, hnext,
      hreplay.symm, h.initialLength, ?_, ?_, ?_⟩
    · rw [after_append, ← h.counted]
      rfl
    · rw [h.counts]
      apply List.ext_getElem?
      intro j
      rw [List.getElem?_modify, List.getElem?_map, List.getElem?_map]
      cases hj : (List.range s.shares.length)[j]? with
      | none => rfl
      | some l =>
        obtain ⟨-, rfl⟩ := List.getElem?_eq_some_iff.mp hj
        by_cases hij : i = j
        · simp [hij]
        · simp [hij, List.count_singleton]
    · rw [h.totalSelections, List.length_append, List.length_singleton]

structure Agrees (s : Selector) (p : PlainSelector) : Prop where
  candidates : p.candidates = s.candidates
  total : p.total = s.total
  keys : (s.items.map Prod.fst).Nodup
  weights : ∀ y ∈ s.shares, 0 < y.weight ∧ y.weight ≤ 2 ^ 32
  sum : s.total = totalWeight s.shares
  outside : ∀ key ∉ s.items.map Prod.fst, p.credits key = s.credits key
  plain : s.precomputed = none → p.credits = s.credits
  replays : ∀ x, s.precomputed = some x →
    ∃ initial turns, Replays s.shares s.total x (creditsOf p.credits s.items) initial turns

theorem agrees_new : Agrees .new .new := by
  constructor
  · rfl
  · rfl
  · exact .nil
  · nofun
  · rfl
  · exact fun _ _ => rfl
  · exact fun _ => rfl
  · nofun

theorem keys_items (s : Selector) : s.items.map Prod.fst = s.candidates.map Candidate.key := by
  rw [Selector.items, List.map_map]
  rfl

theorem creditsOf_items (s : Selector) (credits : String → ℤ) :
    creditsOf credits s.items = s.candidates.map fun candidate => credits candidate.key := by
  rw [creditsOf, Selector.items, List.map_map]
  rfl

theorem Agrees.maximum (h : Agrees s p) : s.maximumAbsoluteCredit = p.maximumAbsoluteCredit := by
  unfold Selector.maximumAbsoluteCredit PlainSelector.maximumAbsoluteCredit
  rw [h.candidates]
  cases hx : s.precomputed with
  | none => rw [h.plain hx]
  | some x =>
    obtain ⟨initial, turns, hreplays⟩ := h.replays x hx
    have hcurrent := congrArg (List.map fun c : ℤ => |c|) hreplays.current
    rw [creditsOf_items, List.map_map, List.map_map] at hcurrent
    exact congrArg (List.foldl max 0) hcurrent

theorem Agrees.materialized (h : Agrees s p) :
    s.materializePrecomputedState.credits = p.credits := by
  unfold Selector.materializePrecomputedState
  cases hx : s.precomputed with
  | none => exact (h.plain hx).symm
  | some x =>
    obtain ⟨initial, turns, hreplays⟩ := h.replays x hx
    have hlength : (creditsOf p.credits s.items).length = s.items.length := List.length_map _
    have hassign := creditsOf_assign s.credits h.keys hlength
    dsimp only
    rw [hreplays.current, ← keys_items]
    funext key
    by_cases hkey : key ∈ s.items.map Prod.fst
    · obtain ⟨item, hitem, rfl⟩ := List.mem_map.mp hkey
      exact List.map_inj_left.mp hassign item hitem
    · rw [assign_of_not_mem hkey]
      exact (h.outside key hkey).symm

theorem clamp_range (c : ℤ) :
    -(total : ℤ) ≤ clamp (-total) total c ∧ clamp (-total) total c ≤ total := by
  unfold clamp
  split_ifs <;> constructor <;> omega

theorem agrees_rebuild (patience : ℕ) (credits : String → ℤ)
    (hkeys : (candidates.map Candidate.key).Nodup) (hweights : ∀ y ∈ candidates, y.weight ≠ 0)
    (hsum : total = totalWeight ((candidates.map Candidate.item).map Prod.snd))
    (hrange : ∀ key, -(total : ℤ) ≤ credits key ∧ credits key ≤ total) :
    Agrees (Selector.rebuildPrecomputedSchedule ⟨candidates, total, credits, none⟩ patience)
        ⟨candidates, total, credits⟩ ∧
      (Selector.rebuildPrecomputedSchedule ⟨candidates, total, credits, none⟩ patience).credits =
        credits := by
  have hpositive : ∀ y ∈ (candidates.map Candidate.item).map Prod.snd,
      0 < y.weight ∧ y.weight ≤ 2 ^ 32 := by
    rw [List.map_map]
    refine List.forall_mem_map.mpr fun y hy => ⟨?_, (UInt32.toNat_lt y.weight).le⟩
    exact Nat.pos_of_ne_zero fun hzero => hweights y hy (UInt32.toNat_inj.mp hzero)
  have hnodup : ((candidates.map Candidate.item).map Prod.fst).Nodup := by
    rw [List.map_map]
    exact hkeys
  unfold Selector.rebuildPrecomputedSchedule
  dsimp only
  split_ifs with hidle
  · exact ⟨⟨rfl, rfl, hnodup, hpositive, hsum, fun _ _ => rfl, fun _ => rfl, nofun⟩, rfl⟩
  · refine ⟨⟨rfl, rfl, hnodup, hpositive, hsum, fun _ _ => rfl, fun _ => rfl, ?_⟩, rfl⟩
    intro x hx
    obtain ⟨⟨schedule, cycleStart⟩, hbuilt, rfl⟩ := Option.map_eq_some_iff.mp hx
    let s : Selector := ⟨candidates, total, credits, none⟩
    have hselect : s.selectIndex = SmoothWeighted.selectIndex s.shares := by
      funext c
      exact if_neg hidle
    have hcycle : Cycle s.shares total (candidates.map fun c => credits c.key) schedule
        cycleStart := by
      rw [hselect] at hbuilt
      exact cycle_of_precompute hbuilt
    have hlength : (candidates.map fun c => credits c.key).length = s.shares.length := by
      rw [List.length_map]
      exact (length_shares s).symm
    have hinitial : creditsOf credits (candidates.map Candidate.item) =
        candidates.map fun c => credits c.key := creditsOf_items s credits
    have hstart := replays_start hcycle hlength (List.forall_mem_map.mpr fun c _ => hrange c.key)
    rw [length_shares] at hstart
    refine ⟨candidates.map fun c : Candidate => credits c.key, [], ?_⟩
    change Replays s.shares total _ (creditsOf credits (candidates.map Candidate.item)) _ []
    rw [hinitial]
    exact hstart

theorem Agrees.setCandidates (h : Agrees s p) (candidates : List Candidate) (patience : ℕ) :
    (s.setCandidates candidates patience).2 = (p.setCandidates candidates).2 ∧
      Agrees (s.setCandidates candidates patience).1 (p.setCandidates candidates).1 := by
  unfold Selector.setCandidates PlainSelector.setCandidates
  rw [h.candidates]
  dsimp only
  rw [h.materialized]
  split
  · exact ⟨rfl, h⟩
  · cases htotal : sumWeights 0 (normalize candidates) with
    | none => exact ⟨rfl, h⟩
    | some total =>
      have hsum := total_of_sumWeights htotal
      rw [Nat.zero_add] at hsum
      obtain ⟨hagrees, hcredits⟩ := agrees_rebuild patience (fun key =>
          if key ∈ (normalize candidates).map Candidate.key then
            clamp (-total) total (p.credits key)
          else 0)
        (keys_normalize candidates) (fun y hy => weight_normalize hy) hsum fun key => by
          split
          · exact clamp_range _
          · omega
      dsimp only
      rw [hcredits, hagrees.maximum]
      exact ⟨rfl, hagrees⟩

theorem Agrees.select (h : Agrees s p) :
    s.select.2 = p.select.2 ∧ Agrees s.select.1 p.select.1 := by
  unfold Selector.select PlainSelector.select
  rw [h.candidates, h.total]
  split_ifs with hidle
  · exact ⟨rfl, h⟩
  · rw [not_or] at hidle
    have hitems : s.candidates.map Candidate.item = s.items := rfl
    rw [hitems]
    cases hx : s.precomputed with
    | none =>
      rw [h.plain hx]
      exact ⟨rfl, ⟨rfl, rfl, h.keys, h.weights, h.sum, fun _ _ => rfl, fun _ => rfl, nofun⟩⟩
    | some x =>
      obtain ⟨initial, turns, hreplays⟩ := h.replays x hx
      have hne : s.items ≠ [] := by
        intro hnil
        exact hidle.1 (List.map_eq_nil_iff.mp hnil)
      have hshares : s.shares ≠ [] := fun hnil => hne (List.map_eq_nil_iff.mp hnil)
      have hlimit : ∀ item ∈ s.items, p.credits item.1 + item.2.weight ≤ maxInt64 := by
        intro item hitem
        exact hreplays.le_limit h.sum h.weights hshares _ (List.mem_map_of_mem hitem) _
          (List.mem_map_of_mem hitem)
      obtain ⟨k, key, hk, hkey, hselected, hcredits, hothers⟩ :=
        turn_spec s.total h.keys hlimit hne
      obtain ⟨i, hi⟩ : ∃ i, x.schedule[x.cursor]? = some i :=
        ⟨_, List.getElem?_eq_getElem hreplays.cursor_lt⟩
      obtain rfl : i = k := Option.some.inj ((hreplays.selects hi).symm.trans hk)
      obtain ⟨candidate, hcandidate, rfl⟩ :
          ∃ candidate, s.candidates[i]? = some candidate ∧ candidate.key = key := by
        rw [keys_items, List.getElem?_map] at hkey
        exact Option.map_eq_some_iff.mp hkey
      obtain ⟨houtcome, turns', hreplays'⟩ := hreplays.advance hi hcandidate
      dsimp only
      refine ⟨houtcome.trans hselected.symm, ⟨rfl, rfl, h.keys, h.weights, h.sum,
        fun other hother => ?_, nofun, fun x' hx' => ?_⟩⟩
      · exact (hothers other hother).trans (h.outside other hother)
      · obtain rfl := Option.some.inj hx'
        refine ⟨initial, turns', ?_⟩
        change Replays s.shares s.total _ (creditsOf _ s.items) initial turns'
        rw [hcredits]
        exact hreplays'

theorem Agrees.shown (h : Agrees s p) (calls : List Call) : s.shown calls = p.shown calls := by
  induction calls generalizing s p with
  | nil => rfl
  | cons call calls ih =>
    cases call with
    | setCandidates candidates patience =>
      obtain ⟨hchange, hagrees⟩ := h.setCandidates candidates patience
      exact congrArg₂ _ (congrArg Shown.change hchange) (ih hagrees)
    | select =>
      obtain ⟨houtcome, hagrees⟩ := h.select
      exact congrArg₂ _ (congrArg₂ Shown.outcome houtcome hagrees.maximum) (ih hagrees)

end Zlink.ClientServer
