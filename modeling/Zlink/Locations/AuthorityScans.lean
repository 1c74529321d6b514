import Zlink.Locations.StoreScans

/-!
# Scans of the authority rows in memory

The location repository in memory lists its authority rows the way the store lists its entries. Its
scans are kept under the text of their number, and last for a minute behind their first page.

What the other operations of the repository do to its rows does not matter here: the rows may be
any other ones behind each of them. Of a row only the size of its payload is looked at.
-/

namespace Zlink.Locations

open Decimal Cursors
open scoped Decimal

variable {V : Type*}

structure AuthorityScanState (V : Type*) where
  entries : List (Text × V)
  createdAt : ℤ

/-- The part of `in_memory_location_repository_t` that lists its authority rows. -/
structure AuthorityScans (V : Type*) where
  authorities : OrderedMap Text V
  scans : OrderedMap Text (AuthorityScanState V)
  nextScanId : ℕ

inductive AuthorityScanResult (V : Type*) where
  | page (items : List (Text × V)) (nextCursor : Option Text)
  | expired

def authorityPageBytes : ℕ := 4 * 1024 * 1024

def scanLifetime : ℤ := 60000000000

def authorityScanCursor (scanId : Text) (offset : ℕ) : Text :=
  scanId ++ 0x3A :: decimal offset

def parseAuthorityScanCursor (cursor : Text) : Option (Text × ℕ) := do
  let (scanId, rest) ← cutAt 0x3A cursor
  let offset ← stoull rest
  return (scanId, offset)

namespace AuthorityScans

variable (payloadSize : V → ℕ)

def new : AuthorityScans V :=
  ⟨.empty, .empty, 0⟩

variable (s : AuthorityScans V)

def cleanupScans (now : ℤ) : AuthorityScans V :=
  { s with scans := s.scans.filter fun e => now - e.2.createdAt ≤ scanLifetime }

def live (keyPrefix : Text) : List (Text × V) :=
  s.authorities.entries.filter fun e => keyPrefix.isPrefixOf e.1

/-- `emplace` keeps what is there. -/
def emplace (scanId : Text) (state : AuthorityScanState V) : AuthorityScans V :=
  if (s.scans.find scanId).isSome then s
  else { s with scans := s.scans.insertOrAssign scanId state }

def startScan (now : ℤ) (keyPrefix : Text) : AuthorityScans V :=
  { s with nextScanId := s.nextScanId + 1 }.emplace (decimal (s.nextScanId + 1))
    ⟨s.live keyPrefix, now⟩

def entrySize (e : Text × V) : ℕ :=
  e.1.length + payloadSize e.2

def pageAt (limit : ℕ) (scanId : Text) (offset : ℕ) : AuthorityScans V × AuthorityScanResult V :=
  match s.scans.find scanId with
  | none => (s, .expired)
  | some state =>
    if state.entries.length < offset then (s, .expired)
    else
      let count := pageEnd (entrySize payloadSize) limit authorityPageBytes 0 0
        (state.entries.drop offset)
      let page := (state.entries.drop offset).take count
      if offset + count < state.entries.length
      then (s, .page page (some (authorityScanCursor scanId (offset + count))))
      else ({ s with scans := s.scans.erase scanId }, .page page none)

def resume (s : AuthorityScans V) (limit : ℕ) (cursor : Text) :
    AuthorityScans V × AuthorityScanResult V :=
  match parseAuthorityScanCursor cursor with
  | none => (s, .expired)
  | some (scanId, offset) => s.pageAt payloadSize limit scanId offset

/-- `list_authorities`, where it has not been cancelled. -/
def listAuthorities (now : ℤ) (keyPrefix : Text) (cursor : Option Text)
    (limit : ℕ) : Except String (AuthorityScans V × AuthorityScanResult V) :=
  if limit = 0 ∨ locationPageItemLimit < limit then
    .error "authority scan limit must be between 1 and 1000"
  else
    let s := s.cleanupScans now
    match cursor with
    | none => .ok ((s.startScan now keyPrefix).pageAt payloadSize limit
        (decimal (s.nextScanId + 1)) 0)
    | some cursor => .ok (s.resume payloadSize limit cursor)

end AuthorityScans

inductive AuthorityCall (V : Type*) where
  | mutate (authorities : OrderedMap Text V)
  | listAuthorities (now : ℤ) (keyPrefix : Text) (cursor : Option Text) (limit : ℕ)

namespace AuthorityScans

variable (payloadSize : V → ℕ)

def step (s : AuthorityScans V) : AuthorityCall V → AuthorityScans V
  | .mutate authorities => { s with authorities }
  | .listAuthorities now keyPrefix cursor limit =>
    ((s.listAuthorities payloadSize now keyPrefix cursor limit).toOption.map Prod.fst).getD s

def run (s : AuthorityScans V) (calls : List (AuthorityCall V)) : AuthorityScans V :=
  calls.foldl (step payloadSize) s

variable {payloadSize} {s t u : AuthorityScans V} {id offset : ℕ} {state : AuthorityScanState V}

/-- The repository behind some calls has only scans that it had before, and new ones. -/
structure Retains (s t : AuthorityScans V) : Prop where
  next : s.nextScanId ≤ t.nextScanId
  scans : ∀ scanId state, t.scans.find scanId = some state → s.scans.find scanId = some state ∨
      ∃ id, scanId = decimal id ∧ s.nextScanId < id ∧ id ≤ t.nextScanId

theorem Retains.refl (s : AuthorityScans V) : Retains s s :=
  ⟨Nat.le_refl _, fun _ _ => .inl⟩

theorem Retains.trans (h : Retains s t) (h' : Retains t u) : Retains s u := by
  refine ⟨h.next.trans h'.next, fun scanId state hstate => ?_⟩
  rcases h'.scans scanId state hstate with hold | ⟨id, hid, hlt, hle⟩
  · refine (h.scans scanId state hold).imp_right ?_
    rintro ⟨id, hid, hlt, hle⟩
    exact ⟨id, hid, hlt, hle.trans h'.next⟩
  · exact .inr ⟨id, hid, Nat.lt_of_le_of_lt h.next hlt, hle⟩

theorem Retains.old (h : Retains s t) (hid : id ≤ s.nextScanId)
    (hstate : t.scans.find (decimal id) = some state) : s.scans.find (decimal id) = some state := by
  refine (h.scans _ state hstate).resolve_right ?_
  rintro ⟨id', hsame, hlt, -⟩
  rw [← decimal_injective hsame] at hlt
  exact Nat.not_le.mpr hlt hid

theorem retains_cleanupScans (now : ℤ) : Retains s (s.cleanupScans now) := by
  refine ⟨Nat.le_refl _, fun scanId state h => .inl ?_⟩
  rw [cleanupScans, OrderedMap.find_filter, Option.filter_eq_some_iff] at h
  exact h.1

theorem retains_startScan (now : ℤ) (keyPrefix : Text) : Retains s (s.startScan now keyPrefix) := by
  rw [startScan, emplace]
  split
  · exact ⟨Nat.le_succ _, fun _ _ => .inl⟩
  · refine ⟨Nat.le_succ _, fun scanId state h => ?_⟩
    by_cases hid : scanId = decimal (s.nextScanId + 1)
    · exact .inr ⟨_, hid, Nat.lt_succ_self _, Nat.le_refl _⟩
    · rw [OrderedMap.find_insertOrAssign_of_ne _ _ hid] at h
      exact .inl h

theorem retains_pageAt (limit : ℕ) (scanId : Text) (offset : ℕ) :
    Retains s (s.pageAt payloadSize limit scanId offset).1 := by
  rw [pageAt]
  split
  · exact .refl s
  · split
    · exact .refl s
    · simp only
      split
      · exact .refl s
      · refine ⟨Nat.le_refl _, fun scanId' state' h => .inl ?_⟩
        exact (OrderedMap.of_find_erase h).2

theorem retains_resume (limit : ℕ) (cursor : Text) :
    Retains s (s.resume payloadSize limit cursor).1 := by
  rw [resume]
  split
  · exact .refl s
  · exact retains_pageAt ..

theorem listAuthorities_eq_ok {now : ℤ} {keyPrefix : Text} {cursor : Option Text} {limit : ℕ}
    {result : AuthorityScans V × AuthorityScanResult V}
    (h : s.listAuthorities payloadSize now keyPrefix cursor limit = .ok result) :
    0 < limit ∧ ((cursor = none ∧ result = ((s.cleanupScans now).startScan now keyPrefix).pageAt
        payloadSize limit (decimal (s.nextScanId + 1)) 0) ∨
      ∃ c, cursor = some c ∧ result = (s.cleanupScans now).resume payloadSize limit c) := by
  rw [listAuthorities] at h
  split at h
  · cases h
  · rename_i hlimit
    refine ⟨Nat.pos_of_ne_zero fun hzero => hlimit (.inl hzero), ?_⟩
    cases cursor with
    | none => exact .inl ⟨rfl, (Except.ok.inj h).symm⟩
    | some c => exact .inr ⟨c, rfl, (Except.ok.inj h).symm⟩

theorem retains_listAuthorities {now : ℤ} {keyPrefix : Text} {cursor : Option Text} {limit : ℕ}
    {result : AuthorityScans V × AuthorityScanResult V}
    (h : s.listAuthorities payloadSize now keyPrefix cursor limit = .ok result) :
    Retains s result.1 := by
  refine (retains_cleanupScans now).trans ?_
  obtain ⟨-, ⟨-, rfl⟩ | ⟨c, -, rfl⟩⟩ := listAuthorities_eq_ok h
  · exact (retains_startScan now keyPrefix).trans (retains_pageAt ..)
  · exact retains_resume ..

theorem retains_step (s : AuthorityScans V) (call : AuthorityCall V) :
    Retains s (s.step payloadSize call) := by
  cases call with
  | mutate authorities => exact ⟨Nat.le_refl _, fun _ _ => .inl⟩
  | listAuthorities now keyPrefix cursor limit =>
    rw [step]
    cases h : s.listAuthorities payloadSize now keyPrefix cursor limit with
    | error message => exact .refl s
    | ok result => exact retains_listAuthorities h

theorem retains_run (s : AuthorityScans V) (calls : List (AuthorityCall V)) :
    Retains s (s.run payloadSize calls) := by
  induction calls generalizing s with
  | nil => exact .refl s
  | cons call calls ih => exact (retains_step s call).trans (ih _)

theorem parse_authorityScanCursor {id offset : ℕ} {found : Text × ℕ}
    (h : parseAuthorityScanCursor (authorityScanCursor (decimal id) offset) = some found) :
    found = (decimal id, offset) := by
  have hcut : cutAt 0x3A (authorityScanCursor (decimal id) offset) =
      some (decimal id, decimal offset) :=
    cutAt_append (not_mem_decimal rfl)
  simp only [parseAuthorityScanCursor, hcut, Option.bind_eq_bind, Option.bind_some] at h
  obtain ⟨offset', hoffset, h⟩ := Option.bind_eq_some_iff.mp h
  rw [← Option.some.inj h, eq_of_stoull_decimal hoffset]

theorem resume_authorityScanCursor (limit id offset : ℕ) :
    s.resume payloadSize limit (authorityScanCursor (decimal id) offset) = (s, .expired) ∨
      s.resume payloadSize limit (authorityScanCursor (decimal id) offset) =
        s.pageAt payloadSize limit (decimal id) offset := by
  rw [resume]
  split
  · exact .inl rfl
  · rename_i hfound
    obtain ⟨rfl, rfl⟩ := Prod.mk.inj (parse_authorityScanCursor hfound)
    exact .inr rfl

theorem parse_authorityScanCursor_of_lt (id : ℕ) (hoffset : offset < 2 ^ 64) :
    parseAuthorityScanCursor (authorityScanCursor (decimal id) offset) =
      some (decimal id, offset) := by
  have hcut : cutAt 0x3A (authorityScanCursor (decimal id) offset) =
      some (decimal id, decimal offset) :=
    cutAt_append (not_mem_decimal rfl)
  simp only [parseAuthorityScanCursor, hcut, Option.bind_eq_bind, Option.bind_some,
    stoull_decimal, if_neg (Nat.not_le.mpr hoffset)]
  rfl

end AuthorityScans

/-- A call that starts or resumes no scan. -/
def AuthorityCall.Calm : AuthorityCall V → Prop
  | .mutate _ => True
  | .listAuthorities .. => False

def AuthorityScanResult.answer : AuthorityScanResult V → Answer Text (Text × V)
  | .page items nextCursor => .page items nextCursor
  | .expired => .expired

namespace AuthorityScans

variable {payloadSize : V → ℕ} {s t : AuthorityScans V} {id offset : ℕ}
  {state : AuthorityScanState V} {q : PageRequest} {c : Text} {rest items : List (Text × V)}

variable (payloadSize) in
/-- The repository as those see it who follow the cursors of a scan. -/
def rows : Service (AuthorityScans V) (AuthorityCall V) PageRequest Text (Text × V) where
  happen := step payloadSize
  ask s q c :=
    match s.listAuthorities payloadSize q.now q.keyPrefix (some c) q.limit with
    | .error _ => (s, none)
    | .ok (t, result) => (t, some result.answer)

variable (payloadSize) in
def PageFits (q : PageRequest) (items : List (Text × V)) : Prop :=
  FitsPage (entrySize payloadSize) q.limit authorityPageBytes items

def Owes (s : AuthorityScans V) (c : Text) (rest : List (Text × V)) : Prop :=
  ∃ id offset, c = authorityScanCursor (decimal id) offset ∧ id ≤ s.nextScanId ∧
    ∀ state, s.scans.find (decimal id) = some state →
      offset ≤ state.entries.length ∧ rest = state.entries.drop offset

theorem Owes.of_retains (h : Owes s c rest) (hretains : Retains s t) : Owes t c rest := by
  obtain ⟨id, offset, hc, hid, hitems⟩ := h
  refine ⟨id, offset, hc, hid.trans hretains.next, fun state hfind => ?_⟩
  exact hitems state (hretains.old hid hfind)

theorem delivers_pageAt (hlimit : 0 < q.limit) (hid : id ≤ s.nextScanId)
    (hitems : ∀ state, s.scans.find (decimal id) = some state →
      offset ≤ state.entries.length ∧ rest = state.entries.drop offset) :
    Delivers (PageFits payloadSize) Owes q rest
      ((s.pageAt payloadSize q.limit (decimal id) offset).1,
        (s.pageAt payloadSize q.limit (decimal id) offset).2.answer) := by
  rw [pageAt]
  split
  · exact .expired s
  · rename_i state hfind
    obtain ⟨hoffset, rfl⟩ := hitems state hfind
    rw [if_neg (Nat.not_lt.mpr hoffset)]
    simp only
    have hfits : PageFits payloadSize q ((state.entries.drop offset).take (pageEnd
        (entrySize payloadSize) q.limit authorityPageBytes 0 0 (state.entries.drop offset))) :=
      fitsPage_take _
    have hpos : state.entries.drop offset ≠ [] → 0 < pageEnd (entrySize payloadSize) q.limit
        authorityPageBytes 0 0 (state.entries.drop offset) := pageEnd_pos hlimit
    generalize pageEnd (entrySize payloadSize) q.limit authorityPageBytes 0 0
      (state.entries.drop offset) = count at hfits hpos ⊢
    split
    · rename_i hmore
      refine .page s _ (state.entries.drop (offset + count)) _ ?_ ?_ hfits ?_
      · rw [← List.drop_drop, List.take_append_drop]
      · exact take_drop_ne_nil hmore hpos
      · refine ⟨id, offset + count, rfl, hid, fun state' hfind' => ?_⟩
        rw [hfind] at hfind'
        cases hfind'
        exact ⟨Nat.le_of_lt hmore, rfl⟩
    · rename_i hall
      rw [take_drop_eq_self hall] at hfits ⊢
      exact .last _ hfits

theorem delivers_resume (hlimit : 0 < q.limit) (h : Owes s c rest) :
    Delivers (PageFits payloadSize) Owes q rest ((s.resume payloadSize q.limit c).1,
      (s.resume payloadSize q.limit c).2.answer) := by
  obtain ⟨id, offset, rfl, hid, hitems⟩ := h
  rcases s.resume_authorityScanCursor q.limit id offset with h | h
  · exact h ▸ .expired s
  · exact h ▸ delivers_pageAt hlimit hid hitems

theorem owing_rows : Owing (rows payloadSize) (PageFits payloadSize) Owes where
  happen s c rest call h := h.of_retains (retains_step s call)
  refused s t c rest q h hask := by
    rw [rows] at hask
    simp only at hask
    split at hask
    · obtain rfl := congrArg Prod.fst hask
      exact h
    · cases hask
  ask s t c rest q answer h hask := by
    rw [rows] at hask
    simp only at hask
    split at hask
    · cases hask
    · rename_i hlist
      cases hask
      obtain ⟨hlimit, ⟨hnone, -⟩ | ⟨c', hsome, hresult⟩⟩ := listAuthorities_eq_ok hlist
      · cases hnone
      · cases hsome
        have hdelivers : Delivers (PageFits payloadSize) Owes q rest _ :=
          delivers_resume hlimit (h.of_retains (retains_cleanupScans q.now))
        rwa [← hresult] at hdelivers

variable (payloadSize) in
def follow (s : AuthorityScans V) (first : PageRequest)
    (legs : List (Leg (AuthorityCall V) PageRequest)) : Scanned PageRequest Text (Text × V) :=
  match s.listAuthorities payloadSize first.now first.keyPrefix none first.limit with
  | .error _ => ([], .expired)
  | .ok (t, result) =>
    proceed first (fun t next => Cursors.follow (rows payloadSize) t next legs) (t, result.answer)

theorem live_sorted (s : AuthorityScans V) (keyPrefix : Text) :
    (s.live keyPrefix).Pairwise fun a b => a.1 < b.1 :=
  s.authorities.sorted.filter _

theorem mem_live {keyPrefix : Text} {e : Text × V} :
    e ∈ s.live keyPrefix ↔ s.authorities.find e.1 = some e.2 ∧ keyPrefix <+: e.1 := by
  rw [OrderedMap.find_eq_some_iff, live, List.mem_filter, List.isPrefixOf_iff_prefix]

theorem find_new (h : Retains new s) : s.scans.find (decimal (s.nextScanId + 1)) = none := by
  rw [Option.eq_none_iff_forall_not_mem]
  intro state hstate
  rcases h.scans _ state hstate with hnew | ⟨id, hid, -, hle⟩
  · cases hnew
  · have := decimal_injective hid
    omega

theorem find_startScan (h : Retains new s) (now : ℤ) (keyPrefix : Text) :
    (s.startScan now keyPrefix).scans.find (decimal (s.nextScanId + 1)) =
      some ⟨s.live keyPrefix, now⟩ := by
  rw [startScan, emplace, if_neg (by rw [find_new h]; exact Bool.false_ne_true),
    OrderedMap.find_insertOrAssign_self]

theorem nextScanId_startScan (s : AuthorityScans V) (now : ℤ) (keyPrefix : Text) :
    (s.startScan now keyPrefix).nextScanId = s.nextScanId + 1 := by
  rw [startScan, emplace]
  split <;> rfl

theorem delivers_first (h : Retains new s) {result : AuthorityScanResult V}
    (hlist : s.listAuthorities payloadSize q.now q.keyPrefix none q.limit = .ok (t, result)) :
    Delivers (PageFits payloadSize) Owes q (s.live q.keyPrefix) (t, result.answer) := by
  obtain ⟨hlimit, ⟨-, hresult⟩ | ⟨c, hsome, -⟩⟩ := listAuthorities_eq_ok hlist
  · have hclean := h.trans (retains_cleanupScans q.now)
    have hnew : s.nextScanId + 1 ≤
        ((s.cleanupScans q.now).startScan q.now q.keyPrefix).nextScanId := by
      rw [nextScanId_startScan]
      exact Nat.le_refl (s.nextScanId + 1)
    have hdelivers : Delivers (PageFits payloadSize) Owes q (s.live q.keyPrefix) _ :=
      delivers_pageAt hlimit hnew fun state hfind => by
        rw [show s.nextScanId = (s.cleanupScans q.now).nextScanId from rfl,
          find_startScan hclean] at hfind
        rw [← Option.some.inj hfind]
        exact ⟨Nat.zero_le _, List.drop_zero.symm⟩
    rwa [← hresult] at hdelivers
  · cases hsome

theorem yields_follow (h : Retains new s) (first : PageRequest)
    (legs : List (Leg (AuthorityCall V) PageRequest)) :
    Yields (PageFits payloadSize) (s.live first.keyPrefix) (s.follow payloadSize first legs) := by
  rw [follow]
  cases hlist : s.listAuthorities payloadSize first.now first.keyPrefix none first.limit with
  | error message => exact .nothing nofun
  | ok result =>
    exact (delivers_first h hlist).yields fun t next left howes => owing_rows.follow howes legs

/-- A request that `list_authorities` accepts. -/
def Admitted (q : PageRequest) : Prop :=
  0 < q.limit ∧ q.limit ≤ locationPageItemLimit

/-- The cursor leads into a scan that is there, and started at the time given. -/
def Kept (createdAt : ℤ) (s : AuthorityScans V) (c : Text) : Prop :=
  ∃ id offset state, c = authorityScanCursor (decimal id) offset ∧
    s.scans.find (decimal id) = some state ∧ state.createdAt = createdAt ∧
    offset ≤ state.entries.length ∧ state.entries.length < 2 ^ 64

variable (payloadSize) in
theorem pageAt_of_find (hfind : s.scans.find (decimal id) = some state)
    (hoffset : offset ≤ state.entries.length) (limit : ℕ) : ∃ t items next,
      s.pageAt payloadSize limit (decimal id) offset = (t, .page items next) ∧
        ∀ c, next = some c → t = s ∧ ∃ stop ≤ state.entries.length,
          c = authorityScanCursor (decimal id) stop := by
  rw [pageAt, hfind]
  simp only [if_neg (Nat.not_lt.mpr hoffset)]
  split
  · rename_i hmore
    exact ⟨_, _, _, rfl, fun c hc => ⟨rfl, _, Nat.le_of_lt hmore, (Option.some.inj hc).symm⟩⟩
  · exact ⟨_, _, _, rfl, nofun⟩

variable (payloadSize) in
theorem list_of_kept {createdAt : ℤ} (hq : Admitted q) (htime : q.now - createdAt ≤ scanLifetime)
    (hkept : Kept createdAt s c) : ∃ t items next,
      s.listAuthorities payloadSize q.now q.keyPrefix (some c) q.limit =
        .ok (t, .page items next) ∧ ∀ c', next = some c' → Kept createdAt t c' := by
  obtain ⟨id, offset, state, rfl, hfind, rfl, hoffset, hlen⟩ := hkept
  have hfind' : (s.cleanupScans q.now).scans.find (decimal id) = some state := by
    rw [cleanupScans, OrderedMap.find_filter, hfind]
    exact Option.filter_some_pos (decide_eq_true htime)
  obtain ⟨t, items, next, hpage, hnext⟩ := pageAt_of_find payloadSize hfind' hoffset q.limit
  refine ⟨t, items, next, ?_, fun c hc => ?_⟩
  · rw [listAuthorities, if_neg (by have := hq.1; have := hq.2; omega)]
    simp only [resume, parse_authorityScanCursor_of_lt id (hoffset.trans_lt hlen)]
    rw [hpage]
  · obtain ⟨rfl, stop, hstop, rfl⟩ := hnext c hc
    exact ⟨id, stop, state, rfl, hfind', rfl, hstop, hlen⟩

theorem serving_rows (createdAt : ℤ) : Serving (rows payloadSize) (Kept createdAt)
    (fun q => Admitted q ∧ q.now - createdAt ≤ scanLifetime) (AuthorityCall.Calm) where
  happen s c call hcalm hkept := by
    cases call with
    | mutate authorities => exact hkept
    | listAuthorities => exact hcalm.elim
  ask s c q hq hkept := by
    obtain ⟨t, items, next, hlist, hnext⟩ := list_of_kept payloadSize hq.1 hq.2 hkept
    refine ⟨t, items, next, ?_, hnext⟩
    simp only [rows, hlist]
    rfl

variable (payloadSize) in
theorem list_first (h : Retains new s) (hq : Admitted q) : ∃ t items next,
    s.listAuthorities payloadSize q.now q.keyPrefix none q.limit = .ok (t, .page items next) ∧
      ((s.live q.keyPrefix).length < 2 ^ 64 → ∀ c, next = some c → Kept q.now t c) := by
  have hfind := find_startScan (h.trans (retains_cleanupScans q.now)) q.now q.keyPrefix
  obtain ⟨t, items, next, hpage, hnext⟩ := pageAt_of_find payloadSize hfind (Nat.zero_le _) q.limit
  refine ⟨t, items, next, ?_, fun hlen c hc => ?_⟩
  · rw [listAuthorities, if_neg (by have := hq.1; have := hq.2; omega)]
    exact congrArg Except.ok hpage
  · obtain ⟨rfl, stop, hstop, rfl⟩ := hnext c hc
    exact ⟨_, stop, _, rfl, hfind, rfl, hstop, hlen⟩

variable (payloadSize) in
theorem follow_ended (h : Retains new s) {first : PageRequest}
    {legs : List (Leg (AuthorityCall V) PageRequest)} (hfirst : Admitted first)
    (hlegs : ∀ leg ∈ legs, (Admitted leg.request ∧ leg.request.now - first.now ≤ scanLifetime) ∧
      ∀ call ∈ leg.between, AuthorityCall.Calm call)
    (hlen : (s.live first.keyPrefix).length < 2 ^ 64)
    (henough : (s.live first.keyPrefix).length ≤ legs.length) :
    (s.follow payloadSize first legs).2 = .ended := by
  obtain ⟨t, items, next, hlist, hkept⟩ := list_first payloadSize h hfirst
  have hdelivers := delivers_first h hlist
  rw [follow, hlist]
  cases hdelivers with
  | last => rfl
  | page _ _ left next hsplit hsome _ howes =>
    refine (serving_rows first.now).follow_ended owing_rows howes (hkept hlen next rfl) hlegs ?_
    have hpos := List.length_pos_iff.mpr hsome
    rw [hsplit, List.length_append] at henough
    omega

variable (payloadSize) in
def Expires (s : AuthorityScans V) (now : ℤ) (c : Text) : Prop :=
  ∀ keyPrefix limit, 0 < limit → limit ≤ locationPageItemLimit →
    s.listAuthorities payloadSize now keyPrefix (some c) limit =
      .ok (s.cleanupScans now, .expired)

variable (payloadSize) in
def Over (calls : List (AuthorityCall V)) (id : ℕ) : Prop :=
  ∃ front call back, calls = front ++ call :: back ∧
    ((new.run payloadSize front).scans.find (decimal id)).isSome = true ∧
    (new.run payloadSize (front ++ [call])).scans.find (decimal id) = none

theorem run_append (s : AuthorityScans V) (front back : List (AuthorityCall V)) :
    s.run payloadSize (front ++ back) = (s.run payloadSize front).run payloadSize back :=
  List.foldl_append

theorem expires_of_find_eq_none {now : ℤ}
    (h : (s.cleanupScans now).scans.find (decimal id) = none) (offset : ℕ) :
    Expires payloadSize s now (authorityScanCursor (decimal id) offset) := by
  intro keyPrefix limit hpos hle
  rw [listAuthorities, if_neg (by omega)]
  simp only [Except.ok.injEq]
  rcases resume_authorityScanCursor limit id offset with hresume | hresume
  · exact hresume
  · rw [hresume, pageAt, h]

theorem find_of_over {calls : List (AuthorityCall V)} (h : Over payloadSize calls id) :
    (new.run payloadSize calls).scans.find (decimal id) = none := by
  obtain ⟨front, call, back, rfl, hsome, hnone⟩ := h
  obtain ⟨state, hstate⟩ := Option.isSome_iff_exists.mp hsome
  have hid : id ≤ (new.run payloadSize (front ++ [call])).nextScanId := by
    rw [run_append]
    refine Nat.le_trans ?_ (retains_step _ call).next
    rcases (retains_run new front).scans _ state hstate with hnew | ⟨id', hsame, -, hle⟩
    · cases hnew
    · rwa [decimal_injective hsame]
  rw [List.append_cons, run_append, Option.eq_none_iff_forall_not_mem]
  intro state' hstate'
  rw [(retains_run _ back).old hid hstate'] at hnone
  cases hnone

theorem find_of_last {limit : ℕ} (h : s.resume payloadSize limit
    (authorityScanCursor (decimal id) offset) = (t, .page items none)) :
    (s.scans.find (decimal id)).isSome = true ∧ t.scans.find (decimal id) = none := by
  rcases s.resume_authorityScanCursor limit id offset with hresume | hresume
  · cases hresume.symm.trans h
  · rw [hresume, pageAt] at h
    split at h
    · cases h
    · rename_i state hfind
      split at h
      · cases h
      · simp only at h
        split at h
        · cases h
        · obtain rfl := congrArg Prod.fst h
          exact ⟨Option.isSome_of_mem hfind, OrderedMap.find_erase_self _ _⟩

theorem over_of_last {front : List (AuthorityCall V)} {now : ℤ} {keyPrefix : Text} {limit : ℕ}
    (hlast : (new.run payloadSize front).listAuthorities payloadSize now keyPrefix
      (some (authorityScanCursor (decimal id) offset)) limit = .ok (t, .page items none))
    (back : List (AuthorityCall V)) : Over payloadSize (front ++ .listAuthorities now keyPrefix
      (some (authorityScanCursor (decimal id) offset)) limit :: back) id := by
  refine ⟨front, _, back, rfl, ?_⟩
  have hstep : (new.run payloadSize front).step payloadSize (.listAuthorities now keyPrefix
      (some (authorityScanCursor (decimal id) offset)) limit) = t := by
    rw [step, hlast]
    rfl
  rw [run_append, run, run, List.foldl_cons, List.foldl_nil, ← run, hstep]
  obtain ⟨-, ⟨hnone, -⟩ | ⟨c, hsome, hresult⟩⟩ := listAuthorities_eq_ok hlast
  · cases hnone
  · cases hsome
    obtain ⟨hfound, hgone⟩ := find_of_last hresult.symm
    obtain ⟨state, hstate⟩ := Option.isSome_iff_exists.mp hfound
    rw [cleanupScans, OrderedMap.find_filter, Option.filter_eq_some_iff] at hstate
    exact ⟨Option.isSome_of_mem hstate.1, hgone⟩

/-- The scans of the repository behind some calls lose and repeat nothing, and no cursor of a scan
that is over, or too old, is taken for one of a scan that goes on. -/
structure ListsSnapshots (payloadSize : V → ℕ) (before : List (AuthorityCall V)) : Prop where
  yields : ∀ first legs, Yields (PageFits payloadSize)
    ((new.run payloadSize before).live first.keyPrefix)
    ((new.run payloadSize before).follow payloadSize first legs)
  sorted : ∀ keyPrefix, ((new.run payloadSize before).live keyPrefix).Pairwise fun a b => a.1 < b.1
  live : ∀ keyPrefix e, e ∈ (new.run payloadSize before).live keyPrefix ↔
    (new.run payloadSize before).authorities.find e.1 = some e.2 ∧ keyPrefix <+: e.1
  first : ∀ q, Admitted q → ∃ t items next, (new.run payloadSize before).listAuthorities payloadSize
    q.now q.keyPrefix none q.limit = .ok (t, .page items next)
  kept : ∀ q id offset state, Admitted q →
    (new.run payloadSize before).scans.find (decimal id) = some state →
    q.now - state.createdAt ≤ scanLifetime → offset ≤ state.entries.length →
    state.entries.length < 2 ^ 64 → ∃ t items next,
      (new.run payloadSize before).listAuthorities payloadSize q.now q.keyPrefix
        (some (authorityScanCursor (decimal id) offset)) q.limit = .ok (t, .page items next)
  undisturbed : ∀ first legs, Admitted first →
    (∀ leg ∈ legs, (Admitted leg.request ∧ leg.request.now - first.now ≤ scanLifetime) ∧
      ∀ call ∈ leg.between, AuthorityCall.Calm call) →
    ((new.run payloadSize before).live first.keyPrefix).length < 2 ^ 64 →
    ((new.run payloadSize before).live first.keyPrefix).length ≤ legs.length →
    ((new.run payloadSize before).follow payloadSize first legs).2 = .ended ∧
      ((new.run payloadSize before).follow payloadSize first legs).1.flatMap Prod.snd =
        (new.run payloadSize before).live first.keyPrefix
  expires : ∀ now id offset, Over payloadSize before id →
    Expires payloadSize (new.run payloadSize before) now (authorityScanCursor (decimal id) offset)
  ended : ∀ front back now keyPrefix limit id offset t items,
    before = front ++ .listAuthorities now keyPrefix
      (some (authorityScanCursor (decimal id) offset)) limit :: back →
    (new.run payloadSize front).listAuthorities payloadSize now keyPrefix
      (some (authorityScanCursor (decimal id) offset)) limit = .ok (t, .page items none) →
    Over payloadSize before id
  late : ∀ now id offset state, (new.run payloadSize before).scans.find (decimal id) = some state →
    scanLifetime < now - state.createdAt →
    Expires payloadSize (new.run payloadSize before) now (authorityScanCursor (decimal id) offset)

theorem listsSnapshots (payloadSize : V → ℕ) (before : List (AuthorityCall V)) :
    ListsSnapshots payloadSize before := by
  constructor
  case yields => exact fun first legs => yields_follow (retains_run new before) first legs
  case sorted => exact fun keyPrefix => live_sorted _ keyPrefix
  case live => exact fun keyPrefix e => mem_live
  case first =>
    intro q hq
    obtain ⟨t, items, next, hlist, -⟩ := list_first payloadSize (retains_run new before) hq
    exact ⟨t, items, next, hlist⟩
  case kept =>
    intro q id offset state hq hfind htime hoffset hlen
    obtain ⟨t, items, next, hlist, -⟩ := list_of_kept payloadSize hq htime
      ⟨id, offset, state, rfl, hfind, rfl, hoffset, hlen⟩
    exact ⟨t, items, next, hlist⟩
  case undisturbed =>
    intro first legs hfirst hlegs hlen henough
    have hended := follow_ended payloadSize (retains_run new before) hfirst hlegs hlen henough
    obtain ⟨left, hsplit, hnil⟩ :=
      (@yields_follow V payloadSize _ (retains_run new before) first legs).items
    rw [hnil hended, List.append_nil] at hsplit
    exact ⟨hended, hsplit.symm⟩
  case expires =>
    intro now id offset hover
    refine expires_of_find_eq_none ?_ offset
    rw [cleanupScans, OrderedMap.find_filter, find_of_over hover, Option.filter_none]
  case ended =>
    rintro front back now keyPrefix limit id offset t items rfl hlast
    exact over_of_last hlast back
  case late =>
    intro now id offset state hstate hlate
    refine expires_of_find_eq_none ?_ offset
    rw [cleanupScans, OrderedMap.find_filter, hstate]
    exact Option.filter_some_neg (decide_eq_false (Int.not_le.mpr hlate))

end AuthorityScans

/-- Snapshot scans lose and repeat nothing, those of the store and those of the repository. -/
theorem scans_of_snapshots : (∀ epoch before, InMemoryLocationStore.ScansSnapshots epoch before) ∧
      ∀ (payloadSize : V → ℕ) (before : List (AuthorityCall V)),
        AuthorityScans.ListsSnapshots payloadSize before :=
  ⟨InMemoryLocationStore.scansSnapshots, AuthorityScans.listsSnapshots⟩

/-- Behind the first page its entry is replaced and the other one deleted, yet the scan ends with
both as they were. -/
theorem scans_of_snapshots_written : let put (key : Text) : StoreMutation := .put key [0x30] none
    let first : PageRequest := ⟨1, [], 1⟩
    let legs : List (Leg StoreCall PageRequest) :=
      [⟨[.write 2 ⟨[], [put [0x61], .delete [0x62]]⟩, .read 3 [0x62]], ⟨4, [], 5⟩⟩, ⟨[], first⟩]
    let before : List StoreCall := [.write 0 ⟨[], [put [0x61], put [0x62]]⟩]
    let store := (InMemoryLocationStore.new 7).run before
    (store.follow first legs).2 = .ended ∧
      (store.follow first legs).1.flatMap Prod.snd = store.live 1 [] ∧
      (store.live 1 []).map (fun item => (item.key, item.value.version)) =
        [([0x61], [0x31]), ([0x62], [0x32])] := by
  intro put first legs before store
  have hlive : (store.live 1 []).map (fun item => (item.key, item.value.version)) =
      [([0x61], [0x31]), ([0x62], [0x32])] := by decide +kernel
  have hlen := congrArg List.length hlive
  rw [List.length_map] at hlen
  obtain ⟨hended, hall⟩ := ((@scans_of_snapshots ℕ).1 7 before).undisturbed first legs rfl
    (List.forall_mem_cons.mpr ⟨⟨rfl, by simp [StoreCall.Calm]⟩,
      List.forall_mem_singleton.mpr ⟨rfl, nofun⟩⟩) (by decide) (hlen ▸ by decide) hlen.le
  exact ⟨hended, hall, hlive⟩

end Zlink.Locations
