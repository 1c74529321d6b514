import Zlink.Lib.Codec
import Zlink.Locations.Store

/-!
# Scans of the store in memory

A call of the store keeps the snapshots that there are or drops one of them, and the number of a
new snapshot is new. So whoever follows the cursors of a scan gets the entries that were live when
the scan was started, and a cursor whose snapshot is gone has expired for good.
-/

namespace Zlink.Locations

open Decimal Cursors
open scoped Decimal

/-- A call that starts or resumes no scan. -/
def StoreCall.Calm : StoreCall → Prop
  | .read _ _ | .write _ _ => True
  | .scan _ _ => False

namespace InMemoryLocationStore

variable {s t u : InMemoryLocationStore} {id offset : ℕ} {items : List StoreScanItem}

structure Retains (s t : InMemoryLocationStore) : Prop where
  epoch : t.scanEpoch = s.scanEpoch
  next : s.nextSnapshot ≤ t.nextSnapshot
  snapshots : ∀ id items, t.snapshots.find id = some items →
    s.snapshots.find id = some items ∨ s.nextSnapshot < id ∧ id ≤ t.nextSnapshot

/-- What reads and writes do to the snapshots, namely nothing. -/
structure Keeps (s t : InMemoryLocationStore) : Prop where
  epoch : t.scanEpoch = s.scanEpoch
  next : t.nextSnapshot = s.nextSnapshot
  snapshots : t.snapshots = s.snapshots

theorem Keeps.refl (s : InMemoryLocationStore) : Keeps s s :=
  ⟨rfl, rfl, rfl⟩

theorem Keeps.trans (h : Keeps s t) (h' : Keeps t u) : Keeps s u :=
  ⟨h'.epoch.trans h.epoch, h'.next.trans h.next, h'.snapshots.trans h.snapshots⟩

theorem Keeps.retains (h : Keeps s t) : Retains s t :=
  ⟨h.epoch, Nat.le_of_eq h.next.symm, fun _ _ hitems => .inl (h.snapshots ▸ hitems)⟩

theorem Retains.refl (s : InMemoryLocationStore) : Retains s s :=
  (Keeps.refl s).retains

theorem Retains.trans (h : Retains s t) (h' : Retains t u) : Retains s u := by
  refine ⟨h'.epoch.trans h.epoch, h.next.trans h'.next, fun id items hitems => ?_⟩
  rcases h'.snapshots id items hitems with hold | ⟨hlt, hle⟩
  · refine (h.snapshots id items hold).imp_right fun hnew => ?_
    exact ⟨hnew.1, hnew.2.trans h'.next⟩
  · exact .inr ⟨Nat.lt_of_le_of_lt h.next hlt, hle⟩

theorem Retains.old (h : Retains s t) (hid : id ≤ s.nextSnapshot)
    (hitems : t.snapshots.find id = some items) : s.snapshots.find id = some items :=
  (h.snapshots id items hitems).resolve_right fun hnew => Nat.not_le.mpr hnew.1 hid

theorem keeps_expire (key : Text) (now : ℤ) : Keeps s (s.expire key now) := by
  rw [expire]
  split
  · exact ⟨rfl, rfl, rfl⟩
  · exact .refl s

theorem keeps_mutate (now : ℤ) (mutation : StoreMutation) : Keeps s (s.mutate now mutation).1 := by
  cases mutation <;> exact ⟨rfl, rfl, rfl⟩

theorem keeps_mutateAll (now : ℤ) (mutations : List StoreMutation) :
    Keeps s (s.mutateAll now mutations).1 := by
  induction mutations generalizing s with
  | nil => exact .refl s
  | cons mutation mutations ih => exact (keeps_mutate now mutation).trans ih

theorem keeps_expireAll (now : ℤ) (conditions : List StoreCondition) :
    Keeps s (conditions.foldl (fun s condition => s.expire condition.key now) s) := by
  induction conditions generalizing s with
  | nil => exact .refl s
  | cons condition conditions ih => exact (keeps_expire condition.key now).trans ih

variable {now : ℤ}

theorem keeps_read {key : Text} {result : StoreReadResult}
    (h : s.read now key = .ok (t, result)) : Keeps s t := by
  obtain ⟨-, -, h⟩ := Codec.bind_eq_ok.mp h
  refine (keeps_expire key now).trans ?_
  simp only at h
  split at h
  · cases h
    exact .refl _
  · cases h
    exact ⟨rfl, rfl, rfl⟩

theorem keeps_write {request : StoreWriteRequest} {result : StoreWriteResult}
    (h : s.write now request = .ok (t, result)) : Keeps s t := by
  obtain ⟨-, -, h⟩ := Codec.bind_eq_ok.mp h
  refine (keeps_expireAll now request.conditions).trans ?_
  simp only at h
  split at h
  · cases h
    exact keeps_mutateAll now request.mutations
  · cases h
    exact .refl _

theorem find_of_find_evict (h : s.evict.snapshots.find id = some items) :
    s.snapshots.find id = some items := by
  rw [evict] at h
  split at h
  · rw [OrderedMap.find_eq_some_iff] at h ⊢
    exact List.mem_of_mem_tail h
  · exact h

theorem evict_eq (s : InMemoryLocationStore) :
    s.evict = { s with snapshots := s.evict.snapshots } := by
  rw [evict]
  split <;> rfl

theorem retains_takeSnapshot (now : ℤ) (keyPrefix : Text) :
    Retains s (s.takeSnapshot now keyPrefix) := by
  rw [takeSnapshot, evict_eq]
  refine ⟨rfl, Nat.le_succ _, fun id items h => ?_⟩
  simp only at h ⊢
  by_cases hid : id = s.nextSnapshot + 1
  · exact .inr ⟨Nat.lt_of_succ_le (Nat.le_of_eq hid.symm), Nat.le_of_eq hid⟩
  · rw [OrderedMap.find_insertOrAssign_of_ne _ _ hid] at h
    exact .inl (find_of_find_evict h)

theorem retains_pageAt (now : ℤ) (limit id offset : ℕ) :
    Retains s (s.pageAt now limit id offset).1 := by
  rw [pageAt]
  split
  · exact .refl s
  · split
    · exact .refl s
    · simp only
      split
      · exact .refl s
      · refine ⟨rfl, Nat.le_refl _, fun id' items' h => .inl ?_⟩
        rw [OrderedMap.find_erase, Function.update_apply] at h
        split at h
        · cases h
        · exact h

theorem retains_resume (now : ℤ) (limit : ℕ) (cursor : Text) :
    Retains s (s.resume now limit cursor).1 := by
  rw [resume]
  split
  · exact .refl s
  · exact retains_pageAt ..

theorem retains_scan {request : StoreScanRequest} {result : StoreScanResult}
    (h : s.scan now request = .ok (t, result)) : Retains s t := by
  obtain ⟨-, -, h⟩ := Codec.bind_eq_ok.mp h
  simp only at h
  split at h
  · obtain rfl := congrArg Prod.fst (Except.ok.inj h)
    exact (retains_takeSnapshot now request.keyPrefix).trans (retains_pageAt ..)
  · obtain rfl := congrArg Prod.fst (Except.ok.inj h)
    exact retains_resume ..

theorem keeps_step {call : StoreCall} (hcalm : call.Calm) : Keeps s (s.step call) := by
  cases call with
  | read now key =>
    rw [step]
    cases h : s.read now key with
    | error message => exact .refl s
    | ok result => exact keeps_read h
  | write now request =>
    rw [step]
    cases h : s.write now request with
    | error message => exact .refl s
    | ok result => exact keeps_write h
  | scan => exact hcalm.elim

theorem retains_step (s : InMemoryLocationStore) (call : StoreCall) : Retains s (s.step call) := by
  cases call with
  | read now key => exact (@keeps_step s (.read now key) trivial).retains
  | write now request => exact (@keeps_step s (.write now request) trivial).retains
  | scan now request =>
    rw [step]
    cases h : s.scan now request with
    | error message => exact .refl s
    | ok result => exact retains_scan h

theorem retains_run (s : InMemoryLocationStore) (calls : List StoreCall) :
    Retains s (s.run calls) := by
  induction calls generalizing s with
  | nil => exact .refl s
  | cons call calls ih => exact (retains_step s call).trans (ih _)

theorem stoull_scanEpoch (epoch : UInt64) : stoull (decimal epoch.toNat) = some epoch.toNat := by
  rw [stoull_decimal, if_neg (Nat.not_le.mpr epoch.toNat_lt)]

theorem cutAt_scanCursor (epoch : UInt64) (id offset : ℕ) :
    cutAt 0x3A (scanCursor epoch id offset) =
      some (decimal epoch.toNat, decimal id ++ 0x3A :: decimal offset) :=
  cutAt_append (not_mem_decimal rfl)

theorem cutAt_numbers (id offset : ℕ) :
    cutAt 0x3A (decimal id ++ 0x3A :: decimal offset) = some (decimal id, decimal offset) :=
  cutAt_append (not_mem_decimal rfl)

theorem parse_scanCursor {epoch : UInt64} {id offset : ℕ} {found : ℕ × ℕ}
    (h : parseScanCursor epoch (scanCursor epoch id offset) = some found) :
    found = (id, offset) := by
  simp only [parseScanCursor, cutAt_scanCursor, cutAt_numbers, stoull_scanEpoch,
    Option.bind_eq_bind, Option.bind_some, guard, if_true, Option.pure_def] at h
  obtain ⟨id', hid, h⟩ := Option.bind_eq_some_iff.mp h
  obtain ⟨offset', hoffset, h⟩ := Option.bind_eq_some_iff.mp h
  rw [← Option.some.inj h, eq_of_stoull_decimal hid, eq_of_stoull_decimal hoffset]

theorem parse_scanCursor_of_lt (epoch : UInt64) (hid : id < 2 ^ 64) (hoffset : offset < 2 ^ 64) :
    parseScanCursor epoch (scanCursor epoch id offset) = some (id, offset) := by
  simp only [parseScanCursor, cutAt_scanCursor, cutAt_numbers, stoull_decimal,
    if_neg (Nat.not_le.mpr hid), if_neg (Nat.not_le.mpr hoffset),
    if_neg (Nat.not_le.mpr epoch.toNat_lt), Option.bind_eq_bind, Option.bind_some, guard,
    if_true, Option.pure_def]

theorem parse_scanCursor_of_ne {epoch epoch' : UInt64} (hne : epoch' ≠ epoch) (id offset : ℕ) :
    parseScanCursor epoch (scanCursor epoch' id offset) = none := by
  have hfound : epoch'.toNat ≠ epoch.toNat := fun h => hne (UInt64.toNat_inj.mp h)
  simp only [parseScanCursor, cutAt_scanCursor, cutAt_numbers, stoull_scanEpoch,
    Option.bind_eq_bind, Option.bind_some, guard, if_neg hfound]
  rfl

end InMemoryLocationStore

structure PageRequest where
  now : ℤ
  keyPrefix : Text
  limit : ℕ

def StoreScanResult.answer : StoreScanResult → Answer Text StoreScanItem
  | .page items nextCursor _ => .page items nextCursor
  | .expired => .expired

namespace InMemoryLocationStore

variable {s t u : InMemoryLocationStore} {id offset : ℕ} {items rest : List StoreScanItem}
  {q : PageRequest} {c : Text} {request : StoreScanRequest}

def scans : Service InMemoryLocationStore StoreCall PageRequest Text StoreScanItem where
  happen := step
  ask s q c :=
    match s.scan q.now ⟨q.keyPrefix, some c, q.limit⟩ with
    | .error _ => (s, none)
    | .ok (t, result) => (t, some result.answer)

def PageFits (q : PageRequest) (items : List StoreScanItem) : Prop :=
  FitsPage encodedScanItemSize q.limit maxScanPageBytes items

def Owes (s : InMemoryLocationStore) (c : Text) (rest : List StoreScanItem) : Prop :=
  ∃ id offset, c = scanCursor s.scanEpoch id offset ∧ id ≤ s.nextSnapshot ∧
    ∀ items, s.snapshots.find id = some items → offset ≤ items.length ∧ rest = items.drop offset

theorem Owes.of_retains (h : Owes s c rest) (hretains : Retains s t) : Owes t c rest := by
  obtain ⟨id, offset, hc, hid, hitems⟩ := h
  refine ⟨id, offset, hretains.epoch ▸ hc, hid.trans hretains.next, fun items hfind => ?_⟩
  exact hitems items (hretains.old hid hfind)

theorem take_drop_add (items : List StoreScanItem) (offset count : ℕ) :
    (items.take (offset + count)).drop offset = (items.drop offset).take count := by
  rw [List.drop_take, Nat.add_sub_cancel_left]

theorem delivers_pageAt (hlimit : 0 < q.limit) (hid : id ≤ s.nextSnapshot)
    (hitems : ∀ items, s.snapshots.find id = some items →
      offset ≤ items.length ∧ rest = items.drop offset) :
    Delivers PageFits Owes q rest ((s.pageAt q.now q.limit id offset).1,
      (s.pageAt q.now q.limit id offset).2.answer) := by
  rw [pageAt]
  split
  · exact .expired s
  · rename_i items hfind
    obtain ⟨hoffset, rfl⟩ := hitems items hfind
    rw [if_neg (Nat.not_lt.mpr hoffset)]
    simp only [take_drop_add]
    have hfits : PageFits q ((items.drop offset).take (pageEnd encodedScanItemSize q.limit
        maxScanPageBytes 0 0 (items.drop offset))) := fitsPage_take _
    have hpos : items.drop offset ≠ [] → 0 < pageEnd encodedScanItemSize q.limit maxScanPageBytes
        0 0 (items.drop offset) := pageEnd_pos hlimit
    generalize pageEnd encodedScanItemSize q.limit maxScanPageBytes 0 0 (items.drop offset) =
      count at hfits hpos ⊢
    split
    · rename_i hmore
      refine .page s _ (items.drop (offset + count)) _ ?_ ?_ hfits ?_
      · rw [← List.drop_drop, List.take_append_drop]
      · exact take_drop_ne_nil hmore hpos
      · refine ⟨id, offset + count, rfl, hid, fun items' hfind' => ?_⟩
        rw [hfind] at hfind'
        cases hfind'
        exact ⟨Nat.le_of_lt hmore, rfl⟩
    · rename_i hall
      rw [take_drop_eq_self hall] at hfits ⊢
      exact .last _ hfits

theorem limit_pos_of_validateScan (h : validateScan request = .ok ()) : 0 < request.limit := by
  obtain ⟨-, -, h⟩ := Codec.bind_eq_ok.mp h
  split at h
  · cases h
  · rename_i hlimit
    exact Nat.pos_of_ne_zero fun hzero => hlimit (.inl hzero)

theorem delivers_resume (hlimit : 0 < q.limit) (h : Owes s c rest) :
    Delivers PageFits Owes q rest ((s.resume q.now q.limit c).1,
      (s.resume q.now q.limit c).2.answer) := by
  obtain ⟨id, offset, rfl, hid, hitems⟩ := h
  rw [resume]
  split
  · exact .expired s
  · rename_i id' offset' hfound
    obtain ⟨rfl, rfl⟩ := Prod.mk.inj (parse_scanCursor hfound)
    exact delivers_pageAt hlimit hid hitems

variable {now : ℤ} {keyPrefix : Text} {limit : ℕ}

theorem scan_cursor_eq_ok {result : InMemoryLocationStore × StoreScanResult} :
    s.scan now ⟨keyPrefix, some c, limit⟩ = .ok result ↔
      validateScan ⟨keyPrefix, some c, limit⟩ = .ok () ∧ s.resume now limit c = result := by
  constructor
  · intro h
    obtain ⟨_, hvalid, h⟩ := Codec.bind_eq_ok.mp h
    exact ⟨hvalid, Except.ok.inj h⟩
  · rintro ⟨hvalid, rfl⟩
    exact Codec.bind_eq_ok.mpr ⟨(), hvalid, rfl⟩

theorem owing_scans : Owing scans PageFits Owes where
  happen s c rest call h := h.of_retains (retains_step s call)
  refused s t c rest q h hask := by
    rw [scans] at hask
    simp only at hask
    split at hask
    · obtain rfl := congrArg Prod.fst hask
      exact h
    · cases hask
  ask s t c rest q answer h hask := by
    rw [scans] at hask
    simp only at hask
    split at hask
    · cases hask
    · rename_i hscan
      cases hask
      obtain ⟨hvalid, hresume⟩ := scan_cursor_eq_ok.mp hscan
      have hdelivers := delivers_resume (q := q) (limit_pos_of_validateScan hvalid) h
      rwa [hresume] at hdelivers

/-- A request that `validateScan` lets pass, whatever its cursor. -/
def Admitted (q : PageRequest) : Prop :=
  validateScan ⟨q.keyPrefix, none, q.limit⟩ = .ok ()

/-- The cursor leads into a snapshot that is there. -/
def Kept (s : InMemoryLocationStore) (c : Text) : Prop :=
  ∃ id offset items, c = scanCursor s.scanEpoch id offset ∧ s.snapshots.find id = some items ∧
    offset ≤ items.length ∧ id < 2 ^ 64 ∧ items.length < 2 ^ 64

theorem pageAt_of_find (hfind : s.snapshots.find id = some items) (hoffset : offset ≤ items.length)
    (now : ℤ) (limit : ℕ) : ∃ t page next, s.pageAt now limit id offset = (t, .page page next now) ∧
      ∀ c, next = some c → t = s ∧ ∃ stop ≤ items.length, c = scanCursor s.scanEpoch id stop := by
  rw [pageAt, hfind]
  simp only [if_neg (Nat.not_lt.mpr hoffset)]
  split
  · rename_i hmore
    exact ⟨_, _, _, rfl, fun c hc => ⟨rfl, _, Nat.le_of_lt hmore, (Option.some.inj hc).symm⟩⟩
  · exact ⟨_, _, _, rfl, nofun⟩

theorem scan_of_kept (hq : Admitted q) (hkept : Kept s c) : ∃ t items next,
    s.scan q.now ⟨q.keyPrefix, some c, q.limit⟩ = .ok (t, .page items next q.now) ∧
      ∀ c', next = some c' → Kept t c' := by
  obtain ⟨id, offset, items, rfl, hfind, hoffset, hid, hitems⟩ := hkept
  obtain ⟨t, page, next, hpage, hnext⟩ := pageAt_of_find hfind hoffset q.now q.limit
  refine ⟨t, page, next, scan_cursor_eq_ok.mpr ⟨hq, ?_⟩, fun c hc => ?_⟩
  · rw [resume, parse_scanCursor_of_lt s.scanEpoch hid (hoffset.trans_lt hitems)]
    exact hpage
  · obtain ⟨rfl, stop, hstop, rfl⟩ := hnext c hc
    exact ⟨id, stop, items, rfl, hfind, hstop, hid, hitems⟩

theorem serving_scans : Serving scans Kept Admitted StoreCall.Calm where
  happen s c call hcalm hkept := by
    have hkeeps := @keeps_step s call hcalm
    obtain ⟨id, offset, items, rfl, hfind, hrest⟩ := hkept
    exact ⟨id, offset, items, hkeeps.epoch ▸ rfl, hkeeps.snapshots ▸ hfind, hrest⟩
  ask s c q hq hkept := by
    obtain ⟨t, items, next, hscan, hnext⟩ := scan_of_kept hq hkept
    refine ⟨t, items, next, ?_, hnext⟩
    simp only [scans, hscan]
    rfl

def follow (s : InMemoryLocationStore) (first : PageRequest)
    (legs : List (Leg StoreCall PageRequest)) : Scanned PageRequest Text StoreScanItem :=
  match s.scan first.now ⟨first.keyPrefix, none, first.limit⟩ with
  | .error _ => ([], .expired)
  | .ok (t, result) =>
    proceed first (fun t next => Cursors.follow scans t next legs) (t, result.answer)

theorem live_sorted (s : InMemoryLocationStore) (now : ℤ) (keyPrefix : Text) :
    (s.live now keyPrefix).Pairwise fun a b => a.key < b.key := by
  rw [live, List.pairwise_map]
  exact s.values.sorted.filter _

theorem mem_live {item : StoreScanItem} :
    item ∈ s.live now keyPrefix ↔ s.values.find item.key = some item.value ∧
      expired item.value now = false ∧ keyPrefix <+: item.key := by
  rw [OrderedMap.find_eq_some_iff, live, List.mem_map]
  constructor
  · rintro ⟨e, he, rfl⟩
    rw [List.mem_filter, Bool.and_eq_true, Bool.not_eq_true', List.isPrefixOf_iff_prefix] at he
    exact he
  · rintro ⟨hmem, hexpired, hprefix⟩
    refine ⟨(item.key, item.value), List.mem_filter.mpr ⟨hmem, ?_⟩, rfl⟩
    rw [Bool.and_eq_true, Bool.not_eq_true', List.isPrefixOf_iff_prefix]
    exact ⟨hexpired, hprefix⟩

theorem delivers_first {result : StoreScanResult}
    (h : s.scan q.now ⟨q.keyPrefix, none, q.limit⟩ = .ok (t, result)) :
    Delivers PageFits Owes q (s.live q.now q.keyPrefix) (t, result.answer) := by
  obtain ⟨_, hvalid, h⟩ := Codec.bind_eq_ok.mp h
  have hdelivers : Delivers PageFits Owes q (s.live q.now q.keyPrefix) _ :=
    delivers_pageAt (limit_pos_of_validateScan hvalid)
      (Nat.le_refl (s.takeSnapshot q.now q.keyPrefix).nextSnapshot)
      fun items hfind => by
        rw [takeSnapshot, evict_eq, OrderedMap.find_insertOrAssign_self] at hfind
        rw [← Option.some.inj hfind]
        exact ⟨Nat.zero_le _, List.drop_zero.symm⟩
  simp only at h
  rwa [Except.ok.inj h] at hdelivers

/-- A scan yields the entries that are live when it is started, from the front on, and all of them
if its cursors lead to an end. -/
theorem yields_follow (s : InMemoryLocationStore) (first : PageRequest)
    (legs : List (Leg StoreCall PageRequest)) :
    Yields PageFits (s.live first.now first.keyPrefix) (s.follow first legs) := by
  rw [follow]
  cases hscan : s.scan first.now ⟨first.keyPrefix, none, first.limit⟩ with
  | error message => exact .nothing nofun
  | ok result =>
    exact (delivers_first hscan).yields fun t next left howes => owing_scans.follow howes legs

/-- The first page of a scan, and the snapshot behind it. -/
theorem scan_first (hq : Admitted q) : ∃ t items next,
    s.scan q.now ⟨q.keyPrefix, none, q.limit⟩ = .ok (t, .page items next q.now) ∧
      (s.nextSnapshot + 1 < 2 ^ 64 → (s.live q.now q.keyPrefix).length < 2 ^ 64 →
        ∀ c, next = some c → Kept t c) := by
  have hlive : s.evict.live q.now q.keyPrefix = s.live q.now q.keyPrefix := by rw [evict_eq]; rfl
  have hfind : (s.takeSnapshot q.now q.keyPrefix).snapshots.find (s.nextSnapshot + 1) =
      some (s.live q.now q.keyPrefix) := by
    rw [← hlive, takeSnapshot, evict_eq]
    exact OrderedMap.find_insertOrAssign_self ..
  have hnew : (s.takeSnapshot q.now q.keyPrefix).nextSnapshot = s.nextSnapshot + 1 := by
    rw [takeSnapshot, evict_eq]
  obtain ⟨t, items, next, hpage, hnext⟩ := pageAt_of_find hfind (Nat.zero_le _) q.now q.limit
  refine ⟨t, items, next, Codec.bind_eq_ok.mpr ⟨(), hq, ?_⟩, fun hid hlen c hc => ?_⟩
  · simp only [hnew, hpage]
    rfl
  · obtain ⟨rfl, stop, hstop, rfl⟩ := hnext c hc
    exact ⟨_, stop, _, rfl, hfind, hstop, hid, hlen⟩

/-- A scan with only reads and writes between its pages ends. -/
theorem follow_ended {first : PageRequest} {legs : List (Leg StoreCall PageRequest)}
    (hfirst : Admitted first)
    (hlegs : ∀ leg ∈ legs, Admitted leg.request ∧ ∀ call ∈ leg.between, call.Calm)
    (hid : s.nextSnapshot + 1 < 2 ^ 64) (hlen : (s.live first.now first.keyPrefix).length < 2 ^ 64)
    (henough : (s.live first.now first.keyPrefix).length ≤ legs.length) :
    (s.follow first legs).2 = .ended := by
  obtain ⟨t, items, next, hscan, hkept⟩ := @scan_first s first hfirst
  have hdelivers := delivers_first hscan
  rw [follow, hscan]
  cases hdelivers with
  | last => rfl
  | page _ _ left next hsplit hsome _ howes =>
    refine serving_scans.follow_ended owing_scans howes (hkept hid hlen next rfl) hlegs ?_
    have hpos := List.length_pos_iff.mpr hsome
    rw [hsplit, List.length_append] at henough
    omega

def Expires (s : InMemoryLocationStore) (c : Text) : Prop :=
  ∀ q : PageRequest, validateScan ⟨q.keyPrefix, some c, q.limit⟩ = .ok () →
    s.scan q.now ⟨q.keyPrefix, some c, q.limit⟩ = .ok (s, .expired)

def Over (s : InMemoryLocationStore) (calls : List StoreCall) (id : ℕ) : Prop :=
  ∃ front call back, calls = front ++ call :: back ∧
    ((s.run front).snapshots.find id).isSome = true ∧
    (s.run (front ++ [call])).snapshots.find id = none

theorem run_append (s : InMemoryLocationStore) (front back : List StoreCall) :
    s.run (front ++ back) = (s.run front).run back :=
  List.foldl_append

variable {epoch : UInt64}

theorem le_nextSnapshot_run {calls : List StoreCall}
    (h : ((new epoch).run calls).snapshots.find id = some items) :
    id ≤ ((new epoch).run calls).nextSnapshot := by
  rcases (retains_run (new epoch) calls).snapshots id items h with hnew | hnext
  · cases hnew
  · exact hnext.2

theorem expires_of_find_eq_none (h : s.snapshots.find id = none) (offset : ℕ) :
    Expires s (scanCursor s.scanEpoch id offset) := by
  intro q hvalid
  refine scan_cursor_eq_ok.mpr ⟨hvalid, ?_⟩
  rw [resume]
  split
  · rfl
  · rename_i id' offset' hfound
    obtain ⟨rfl, rfl⟩ := Prod.mk.inj (parse_scanCursor hfound)
    rw [pageAt, h]

theorem expires_of_epoch_ne (h : epoch ≠ s.scanEpoch) (id offset : ℕ) :
    Expires s (scanCursor epoch id offset) := by
  intro q hvalid
  refine scan_cursor_eq_ok.mpr ⟨hvalid, ?_⟩
  rw [resume, parse_scanCursor_of_ne h]

theorem find_of_over {calls : List StoreCall} (h : Over (new epoch) calls id) :
    ((new epoch).run calls).snapshots.find id = none := by
  obtain ⟨front, call, back, rfl, hsome, hnone⟩ := h
  obtain ⟨items, hitems⟩ := Option.isSome_iff_exists.mp hsome
  have hid : id ≤ ((new epoch).run (front ++ [call])).nextSnapshot := by
    rw [run_append]
    exact (le_nextSnapshot_run hitems).trans (retains_step _ call).next
  rw [List.append_cons, run_append, Option.eq_none_iff_forall_not_mem]
  intro items' hitems'
  rw [(retains_run _ back).old hid hitems'] at hnone
  cases hnone

theorem find_of_last {storeNow : ℤ}
    (h : s.resume now limit (scanCursor s.scanEpoch id offset) = (t, .page items none storeNow)) :
    (s.snapshots.find id).isSome = true ∧ t.snapshots.find id = none := by
  rw [resume] at h
  split at h
  · cases h
  · rename_i id' offset' hfound
    obtain ⟨rfl, rfl⟩ := Prod.mk.inj (parse_scanCursor hfound)
    rw [pageAt] at h
    split at h
    · cases h
    · rename_i items' hfind
      split at h
      · cases h
      · simp only at h
        split at h
        · cases h
        · obtain rfl := congrArg Prod.fst h
          exact ⟨Option.isSome_of_mem hfind, OrderedMap.find_erase_self _ _⟩

theorem over_of_last {front : List StoreCall} {storeNow : ℤ}
    (hepoch : (s.run front).scanEpoch = epoch)
    (hlast : (s.run front).scan now ⟨keyPrefix, some (scanCursor epoch id offset), limit⟩ =
      .ok (t, .page items none storeNow)) (back : List StoreCall) :
    Over s (front ++ .scan now ⟨keyPrefix, some (scanCursor epoch id offset), limit⟩ :: back)
      id := by
  subst hepoch
  refine ⟨front, _, back, rfl, ?_⟩
  have hstep : (s.run front).step (.scan now ⟨keyPrefix,
      some (scanCursor (s.run front).scanEpoch id offset), limit⟩) = t := by
    rw [step, hlast]
    rfl
  rw [run_append, run, run, List.foldl_cons, List.foldl_nil, ← run, hstep]
  exact find_of_last (scan_cursor_eq_ok.mp hlast).2

/-- The scans of the store behind some calls lose and repeat nothing, are served while their
snapshot is there, and their cursors have expired for good when it is not. -/
structure ScansSnapshots (epoch : UInt64) (before : List StoreCall) : Prop where
  yields : ∀ first legs, Yields PageFits (((new epoch).run before).live first.now first.keyPrefix)
    (((new epoch).run before).follow first legs)
  sorted : ∀ now keyPrefix, (((new epoch).run before).live now keyPrefix).Pairwise
    fun a b => a.key < b.key
  live : ∀ now keyPrefix item, item ∈ ((new epoch).run before).live now keyPrefix ↔
    ((new epoch).run before).values.find item.key = some item.value ∧
      expired item.value now = false ∧ keyPrefix <+: item.key
  first : ∀ q, Admitted q → ∃ t items next, ((new epoch).run before).scan q.now
    ⟨q.keyPrefix, none, q.limit⟩ = .ok (t, .page items next q.now)
  kept : ∀ q id offset items, Admitted q →
    ((new epoch).run before).snapshots.find id = some items → offset ≤ items.length →
    id < 2 ^ 64 → items.length < 2 ^ 64 → ∃ t items next, ((new epoch).run before).scan q.now
      ⟨q.keyPrefix, some (scanCursor epoch id offset), q.limit⟩ = .ok (t, .page items next q.now)
  undisturbed : ∀ first legs, Admitted first →
    (∀ leg ∈ legs, Admitted leg.request ∧ ∀ call ∈ leg.between, call.Calm) →
    ((new epoch).run before).nextSnapshot + 1 < 2 ^ 64 →
    (((new epoch).run before).live first.now first.keyPrefix).length < 2 ^ 64 →
    (((new epoch).run before).live first.now first.keyPrefix).length ≤ legs.length →
    (((new epoch).run before).follow first legs).2 = .ended ∧
      (((new epoch).run before).follow first legs).1.flatMap Prod.snd =
        ((new epoch).run before).live first.now first.keyPrefix
  expires : ∀ id offset, Over (new epoch) before id →
    Expires ((new epoch).run before) (scanCursor epoch id offset)
  ended : ∀ front back (q : PageRequest) id offset t items storeNow,
    before = front ++ .scan q.now ⟨q.keyPrefix, some (scanCursor epoch id offset), q.limit⟩ ::
      back →
    ((new epoch).run front).scan q.now ⟨q.keyPrefix, some (scanCursor epoch id offset), q.limit⟩ =
      .ok (t, .page items none storeNow) →
    Over (new epoch) before id
  otherEpoch : ∀ epoch' id offset, epoch' ≠ epoch →
    Expires ((new epoch).run before) (scanCursor epoch' id offset)

theorem scansSnapshots (epoch : UInt64) (before : List StoreCall) :
    ScansSnapshots epoch before := by
  have hepoch (calls : List StoreCall) : ((new epoch).run calls).scanEpoch = epoch :=
    (retains_run (new epoch) calls).epoch
  constructor
  case yields => exact fun first legs => yields_follow _ first legs
  case sorted => exact fun now keyPrefix => live_sorted _ now keyPrefix
  case live => exact fun now keyPrefix item => mem_live
  case first =>
    intro q hq
    obtain ⟨t, items, next, hscan, -⟩ := @scan_first ((new epoch).run before) q hq
    exact ⟨t, items, next, hscan⟩
  case kept =>
    intro q id offset items hq hfind hoffset hid hlen
    obtain ⟨t, page, next, hscan, -⟩ := scan_of_kept hq
      ⟨id, offset, items, rfl, hfind, hoffset, hid, hlen⟩
    rw [hepoch] at hscan
    exact ⟨t, page, next, hscan⟩
  case undisturbed =>
    intro first legs hfirst hlegs hid hlen henough
    have hended := follow_ended hfirst hlegs hid hlen henough
    obtain ⟨left, hsplit, hnil⟩ := (yields_follow ((new epoch).run before) first legs).items
    rw [hnil hended, List.append_nil] at hsplit
    exact ⟨hended, hsplit.symm⟩
  case expires =>
    intro id offset hover
    have hexpires := expires_of_find_eq_none (find_of_over hover) offset
    rwa [hepoch] at hexpires
  case ended =>
    rintro front back q id offset t items storeNow rfl hlast
    exact over_of_last (hepoch front) hlast back
  case otherEpoch =>
    intro epoch' id offset hne
    exact expires_of_epoch_ne (by rwa [hepoch]) id offset

end InMemoryLocationStore

end Zlink.Locations
