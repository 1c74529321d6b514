import Zlink.Transport.EndpointNotation

/-!
# Normalized endpoints

A normalized endpoint is taken apart where it was put together, so normalizing it again changes
nothing, with one exception. The slashes at the end of a path are stripped behind the trimming, and
may leave a whitespace character at the end that is only trimmed the next time.
-/

namespace Zlink.Transport

section Lists

variable {α : Type} {p : α → Bool} {front back : List α}

theorem takeWhile_append_cut (hfront : ∀ x ∈ front, p x = true)
    (hback : ∀ x ∈ back.head?, p x = false) : (front ++ back).takeWhile p = front := by
  rw [List.takeWhile_append_of_pos hfront]
  cases back with
  | nil => exact List.append_nil front
  | cons x back =>
    rw [List.takeWhile_cons_of_neg (by simp [hback x rfl]), List.append_nil]

theorem dropWhile_append_cut (hfront : ∀ x ∈ front, p x = true)
    (hback : ∀ x ∈ back.head?, p x = false) : (front ++ back).dropWhile p = back := by
  rw [List.dropWhile_append_of_pos hfront]
  cases back with
  | nil => rfl
  | cons x back => exact List.dropWhile_cons_of_neg (by simp [hback x rfl])

theorem rtakeWhile_append_cut (hfront : ∀ x ∈ front.getLast?, p x = false)
    (hback : ∀ x ∈ back, p x = true) : (front ++ back).rtakeWhile p = back := by
  rw [List.rtakeWhile, List.reverse_append, takeWhile_append_cut, List.reverse_reverse]
  · intro x hx
    exact hback x (List.mem_reverse.mp hx)
  · rwa [List.head?_reverse]

theorem rdropWhile_append_cut (hfront : ∀ x ∈ front.getLast?, p x = false)
    (hback : ∀ x ∈ back, p x = true) : (front ++ back).rdropWhile p = front := by
  rw [List.rdropWhile, List.reverse_append, dropWhile_append_cut, List.reverse_reverse]
  · intro x hx
    exact hback x (List.mem_reverse.mp hx)
  · rwa [List.head?_reverse]

theorem head?_dropWhile_false (p : α → Bool) (xs : List α) :
    ∀ x ∈ (xs.dropWhile p).head?, p x = false := by
  intro x hx
  have hne : xs.dropWhile p ≠ [] := by
    intro hnil
    rw [hnil] at hx
    cases hx
  have hhead := List.head_dropWhile_not p hne
  rw [List.head?_eq_some_head hne] at hx
  rw [← Option.some.inj hx]
  exact hhead

theorem getLast?_rdropWhile_false (p : α → Bool) (xs : List α) :
    ∀ x ∈ (xs.rdropWhile p).getLast?, p x = false := by
  rw [List.rdropWhile, List.getLast?_reverse]
  exact head?_dropWhile_false p xs.reverse

end Lists

variable (b : UInt8)

@[simp] theorem toLower_toLower : toLower (toLower b) = toLower b := by
  obtain ⟨b⟩ := b
  revert b
  decide

@[simp] theorem isSpace_toLower : isSpace (toLower b) = isSpace b := by
  obtain ⟨b⟩ := b
  revert b
  decide

/-- The characters that endpoints are taken apart at. -/
def marks : List UInt8 :=
  [slash, colon, atSign, percent, openBracket, closeBracket]

theorem toLower_eq_iff {c : UInt8} (hc : c ∈ marks) (b : UInt8) : toLower b = c ↔ b = c := by
  have hall : ∀ c ∈ marks, ∀ b : BitVec 8, toLower ⟨b⟩ = c ↔ UInt8.ofBitVec b = c := by
    decide +kernel
  exact hall c hc b.toBitVec

theorem endsAuthority_toLower : endsAuthority (toLower b) = endsAuthority b := by
  obtain ⟨b⟩ := b
  revert b
  decide

theorem digit_spec {b : UInt8} (h : isDigit b = true) :
    b ∉ marks ∧ isSpace b = false ∧ endsAuthority b = false := by
  obtain ⟨b⟩ := b
  revert b
  decide

theorem lowercaseAscii_cons (value : Text) :
    lowercaseAscii (b :: value) = toLower b :: lowercaseAscii value :=
  rfl

variable (value : Text)

@[simp] theorem lowercaseAscii_lowercaseAscii :
    lowercaseAscii (lowercaseAscii value) = lowercaseAscii value := by
  rw [lowercaseAscii, lowercaseAscii, List.map_map]
  exact List.map_congr_left fun b _ => toLower_toLower b

theorem lowercaseAscii_append (front back : Text) :
    lowercaseAscii (front ++ back) = lowercaseAscii front ++ lowercaseAscii back :=
  List.map_append

theorem mem_lowercaseAscii {c : UInt8} (hc : c ∈ marks) {value : Text} :
    c ∈ lowercaseAscii value ↔ c ∈ value := by
  simp only [lowercaseAscii, List.mem_map, toLower_eq_iff hc, exists_eq_right]

theorem head?_lowercaseAscii {c : UInt8} (hc : c ∈ marks) {value : Text} :
    (lowercaseAscii value).head? = some c ↔ value.head? = some c := by
  simp only [lowercaseAscii, List.head?_map, Option.map_eq_some_iff, toLower_eq_iff hc,
    exists_eq_right]

@[simp] theorem length_lowercaseAscii : (lowercaseAscii value).length = value.length :=
  List.length_map _

/-- The last character is a whitespace character. -/
def EndsInSpace : Prop :=
  ∃ b ∈ value.getLast?, isSpace b = true

/-- The first character is a whitespace character. -/
def StartsWithSpace : Prop :=
  ∃ b ∈ value.head?, isSpace b = true

theorem not_endsInSpace_trim : ¬ EndsInSpace (trimAsciiWhitespace value) := by
  rintro ⟨b, hb, hspace⟩
  have hnot := getLast?_rdropWhile_false isSpace _ b hb
  rw [hspace] at hnot
  cases hnot

theorem not_startsWithSpace_trim : ¬ StartsWithSpace (trimAsciiWhitespace value) := by
  rintro ⟨b, hb, hspace⟩
  have hhead : b ∈ (value.dropWhile isSpace).head? := by
    obtain ⟨back, hback⟩ := List.rdropWhile_prefix isSpace (l := value.dropWhile isSpace)
    have hfirst : ((value.dropWhile isSpace).rdropWhile isSpace).head? = some b := hb
    rw [← hback, List.head?_append, hfirst]
    rfl
  have hnot := head?_dropWhile_false isSpace value b hhead
  rw [hspace] at hnot
  cases hnot

theorem dropWhile_isSpace {value : Text} (h : ¬ StartsWithSpace value) :
    value.dropWhile isSpace = value := by
  have hdrop : ([] ++ value).dropWhile isSpace = value := by
    refine dropWhile_append_cut (by simp) fun b hb => ?_
    exact Bool.eq_false_iff.mpr fun hspace => h ⟨b, hb, hspace⟩
  exact hdrop

theorem trim_eq_self {value : Text} (hstart : ¬ StartsWithSpace value)
    (hend : ¬ EndsInSpace value) : trimAsciiWhitespace value = value := by
  have hrdrop : (value ++ []).rdropWhile isSpace = value := by
    refine rdropWhile_append_cut (fun b hb => ?_) (by simp)
    exact Bool.eq_false_iff.mpr fun hspace => hend ⟨b, hb, hspace⟩
  rw [List.append_nil] at hrdrop
  rw [trimAsciiWhitespace, dropWhile_isSpace hstart, hrdrop]

theorem exists_trim_append {value : Text} (hstart : ¬ StartsWithSpace value) :
    ∃ spaces, value = trimAsciiWhitespace value ++ spaces ∧ (EndsInSpace value → spaces ≠ []) := by
  refine ⟨value.rtakeWhile isSpace, ?_, ?_⟩
  · rw [trimAsciiWhitespace, dropWhile_isSpace hstart]
    exact List.rdropWhile_append_rtakeWhile.symm
  · rintro ⟨b, hb, hspace⟩ hnil
    have hne : value ≠ [] := by
      rintro rfl
      cases hb
    have hlast := List.rtakeWhile_eq_nil_iff.mp hnil hne
    rw [List.getLast?_eq_some_getLast hne] at hb
    rw [Option.some.inj hb] at hlast
    exact hlast hspace

@[simp] theorem trim_trim :
    trimAsciiWhitespace (trimAsciiWhitespace value) = trimAsciiWhitespace value :=
  trim_eq_self (not_startsWithSpace_trim value) (not_endsInSpace_trim value)

theorem eq_of_splitScheme {value scheme rest : Text}
    (h : splitScheme value = some (scheme, rest)) : value = scheme ++ schemeEnd ++ rest := by
  induction value generalizing scheme with
  | nil => cases h
  | cons b value ih =>
    rw [splitScheme] at h
    split at h
    · rename_i hend
      obtain ⟨rfl, rfl⟩ := Prod.mk.inj (Option.some.inj h)
      rw [← List.take_append_drop 3 (b :: value), hend]
      rfl
    · obtain ⟨⟨scheme', rest'⟩, hsplit, hparts⟩ := Option.map_eq_some_iff.mp h
      obtain ⟨rfl, rfl⟩ := Prod.mk.inj hparts
      rw [ih hsplit]
      rfl

theorem lowercaseAscii_eq_iff {value marked : Text} (h : ∀ c ∈ marked, c ∈ marks) :
    lowercaseAscii value = marked ↔ value = marked := by
  induction marked generalizing value with
  | nil => exact List.map_eq_nil_iff
  | cons c marked ih =>
    cases value with
    | nil => exact iff_of_false (List.cons_ne_nil _ _).symm (List.cons_ne_nil _ _).symm
    | cons b value =>
      obtain ⟨hc, hmarked⟩ := List.forall_mem_cons.mp h
      rw [lowercaseAscii, List.map_cons, List.cons.injEq, List.cons.injEq, toLower_eq_iff hc]
      exact and_congr_right fun _ => ih hmarked

theorem endsHere_iff (scheme rest : Text) (b : UInt8) :
    (b :: (scheme ++ schemeEnd ++ rest)).take 3 = schemeEnd ↔
      (lowercaseAscii (b :: scheme) ++ schemeEnd).take 3 = schemeEnd := by
  have hlong : 3 ≤ (b :: scheme ++ schemeEnd).length := by simp [schemeEnd]
  have hcut : (b :: (scheme ++ schemeEnd ++ rest)).take 3 = (b :: scheme ++ schemeEnd).take 3 :=
    List.take_append_of_le_length hlong
  have hlower : (lowercaseAscii (b :: scheme) ++ schemeEnd).take 3 =
      lowercaseAscii ((b :: scheme ++ schemeEnd).take 3) := by
    rw [lowercaseAscii, lowercaseAscii, List.map_take, List.map_append]
    rfl
  rw [hcut, hlower, lowercaseAscii_eq_iff (by simp [schemeEnd, marks])]

theorem splitScheme_lower {scheme rest : Text} (rest' : Text)
    (h : splitScheme (scheme ++ schemeEnd ++ rest) = some (scheme, rest)) :
    splitScheme (lowercaseAscii scheme ++ schemeEnd ++ rest') =
      some (lowercaseAscii scheme, rest') := by
  induction scheme with
  | nil => rfl
  | cons b scheme ih =>
    have hsplit : splitScheme (b :: (scheme ++ schemeEnd ++ rest)) = some (b :: scheme, rest) := h
    rw [splitScheme] at hsplit
    split at hsplit
    · cases hsplit
    · rename_i hhere
      obtain ⟨⟨scheme', rest''⟩, hscheme, hparts⟩ := Option.map_eq_some_iff.mp hsplit
      obtain ⟨hcons, hrest⟩ := Prod.mk.inj hparts
      obtain ⟨-, hsame⟩ := List.cons.inj hcons
      have hbehind : splitScheme (scheme ++ schemeEnd ++ rest) = some (scheme, rest) := by
        rw [hscheme]
        exact congrArg some (Prod.ext hsame hrest)
      have hlower := endsHere_iff (lowercaseAscii scheme) rest' (toLower b)
      rw [endsHere_iff] at hhere
      have hthere : ¬ (toLower b :: (lowercaseAscii scheme ++ schemeEnd ++ rest')).take 3 =
          schemeEnd := by
        rw [hlower, lowercaseAscii_cons, toLower_toLower, lowercaseAscii_lowercaseAscii,
          ← lowercaseAscii_cons]
        exact hhere
      change splitScheme (toLower b :: (lowercaseAscii scheme ++ schemeEnd ++ rest')) = _
      rw [splitScheme, if_neg hthere, ih hbehind]
      rfl

theorem stripLeadingZeroDigits_suffix (port : Text) : stripLeadingZeroDigits port <:+ port := by
  induction port using stripLeadingZeroDigits.induct with
  | case1 | case2 => exact List.suffix_refl _
  | case3 next port ih =>
    rw [stripLeadingZeroDigits, if_pos rfl]
    exact ih.trans (List.suffix_cons _ _)
  | case4 digit next port hdigit =>
    rw [stripLeadingZeroDigits, if_neg hdigit]

theorem stripLeadingZeroDigits_eq_nil {port : Text} :
    stripLeadingZeroDigits port = [] ↔ port = [] := by
  induction port using stripLeadingZeroDigits.induct with
  | case1 | case2 => exact Iff.rfl
  | case3 next port ih =>
    rw [stripLeadingZeroDigits, if_pos rfl, ih]
    exact iff_of_false (List.cons_ne_nil _ _) (List.cons_ne_nil _ _)
  | case4 digit next port hdigit =>
    rw [stripLeadingZeroDigits, if_neg hdigit]

@[simp] theorem stripLeadingZeroDigits_stripLeadingZeroDigits (port : Text) :
    stripLeadingZeroDigits (stripLeadingZeroDigits port) = stripLeadingZeroDigits port := by
  induction port using stripLeadingZeroDigits.induct with
  | case1 | case2 => rfl
  | case3 next port ih => rw [stripLeadingZeroDigits, if_pos rfl, ih]
  | case4 digit next port hdigit =>
    rw [stripLeadingZeroDigits, if_neg hdigit, stripLeadingZeroDigits, if_neg hdigit]

def IsPort (port : Text) : Prop :=
  port = [] ∨ allAsciiDigits port = true

theorem allAsciiDigits_iff {value : Text} :
    allAsciiDigits value = true ↔ value ≠ [] ∧ ∀ b ∈ value, isDigit b = true := by
  cases value <;> simp [allAsciiDigits]

theorem IsPort.digits {port : Text} (h : IsPort port) : ∀ b ∈ port, isDigit b = true := by
  rcases h with rfl | h
  · simp
  · exact (allAsciiDigits_iff.mp h).2

theorem IsPort.normalize {port : Text} (h : IsPort port) : IsPort (stripLeadingZeroDigits port) := by
  by_cases hnil : port = []
  · exact .inl (stripLeadingZeroDigits_eq_nil.mpr hnil)
  · refine .inr (allAsciiDigits_iff.mpr ⟨mt stripLeadingZeroDigits_eq_nil.mp hnil, fun b hb => ?_⟩)
    exact h.digits b ((stripLeadingZeroDigits_suffix port).subset hb)

namespace HostPort

inductive Found (hostPort : Text) (x : HostPort) : Prop where
  | bracketed (render : hostPort = x.render) (isIpv6 : x.isIpv6 = true)
      (host : closeBracket ∉ x.host) (port : IsPort x.port)
  | plain (render : hostPort = x.render) (isIpv6 : x.isIpv6 = false) (host : colon ∉ x.host)
      (head : x.host.head? ≠ some openBracket) (port : IsPort x.port)
  | bare (isIpv6 : x.isIpv6 = true) (host : x.host = hostPort) (port : x.port = [])
      (colons : hostPort ≠ []) (head : hostPort.head? ≠ some openBracket)

end HostPort

section Cut

variable {c : UInt8} {value others : Text}

theorem not_mem_takeWhile_ne (c : UInt8) (value : Text) : c ∉ value.takeWhile (· ≠ c) := by
  intro hmem
  have hne := List.mem_takeWhile_imp hmem
  simp at hne

theorem dropWhile_ne_eq_cons {b : UInt8} (h : value.dropWhile (· ≠ c) = b :: others) :
    b = c ∧ value = value.takeWhile (· ≠ c) ++ c :: others := by
  have hb := head?_dropWhile_false (· ≠ c) value b (by rw [h]; rfl)
  obtain rfl : b = c := by simpa using hb
  refine ⟨rfl, ?_⟩
  rw [← h]
  exact List.takeWhile_append_dropWhile.symm

theorem takeWhile_ne_cut (h : c ∉ value) : (value ++ c :: others).takeWhile (· ≠ c) = value := by
  refine takeWhile_append_cut (fun b hb => ?_) (by simp)
  exact decide_eq_true fun hself => h (hself ▸ hb)

theorem dropWhile_ne_cut (h : c ∉ value) :
    (value ++ c :: others).dropWhile (· ≠ c) = c :: others := by
  refine dropWhile_append_cut (fun b hb => ?_) (by simp)
  exact decide_eq_true fun hself => h (hself ▸ hb)

end Cut

theorem found_of_splitBracketed {inner : Text} {x : HostPort}
    (h : splitBracketed inner = some x) : x.Found (openBracket :: inner) := by
  unfold splitBracketed at h
  split at h
  · cases h
  · rename_i hdrop
    obtain rfl := Option.some.inj h
    obtain ⟨-, hinner⟩ := dropWhile_ne_eq_cons hdrop
    refine .bracketed ?_ rfl (not_mem_takeWhile_ne _ _) (.inl rfl)
    rw [HostPort.render, if_pos rfl, if_pos rfl, List.append_nil, List.cons_append]
    exact congrArg _ hinner
  · rename_i hdrop
    split at h
    · cases h
    · rename_i hport
      rw [not_or, not_not, Bool.not_eq_false] at hport
      obtain ⟨rfl, hdigits⟩ := hport
      obtain rfl := Option.some.inj h
      obtain ⟨-, hinner⟩ := dropWhile_ne_eq_cons hdrop
      refine .bracketed ?_ rfl (not_mem_takeWhile_ne _ _) (.inr hdigits)
      rw [HostPort.render, if_pos rfl, if_neg (allAsciiDigits_iff.mp hdigits).1, List.append_assoc,
        List.cons_append]
      exact congrArg _ hinner

theorem found_of_splitBare {hostPort : Text} {x : HostPort}
    (hhead : hostPort.head? ≠ some openBracket) (h : splitBare hostPort = some x) :
    x.Found hostPort := by
  unfold splitBare at h
  dsimp only at h
  split_ifs at h with hnone hone hdigits
  · obtain rfl := Option.some.inj h
    refine .plain ?_ rfl (List.count_eq_zero.mp hnone) hhead (.inl rfl)
    exact (List.append_nil hostPort).symm
  · obtain rfl := Option.some.inj h
    have hmem : colon ∈ hostPort := List.count_pos_iff.mp (Nat.pos_of_ne_zero hnone)
    obtain ⟨b, others, hdrop⟩ : ∃ b others, hostPort.dropWhile (· ≠ colon) = b :: others := by
      refine List.exists_cons_of_ne_nil fun hnil => ?_
      have hall := List.dropWhile_eq_nil_iff.mp hnil colon hmem
      simp at hall
    obtain ⟨rfl, hhost⟩ := dropWhile_ne_eq_cons hdrop
    rw [hdrop, List.tail_cons] at hdigits ⊢
    refine .plain ?_ rfl (not_mem_takeWhile_ne _ _) (fun hopen => hhead ?_) (.inr hdigits)
    · rw [HostPort.render, if_neg Bool.false_ne_true, if_neg (allAsciiDigits_iff.mp hdigits).1]
      exact hhost
    · rw [hhost, List.head?_append, hopen]
      rfl
  · obtain rfl := Option.some.inj h
    refine .bare rfl rfl rfl (fun hnil => hnone ?_) hhead
    rw [hnil]
    rfl

theorem found_of_splitHostPort {hostPort : Text} {x : HostPort}
    (h : splitHostPort hostPort = some x) : x.Found hostPort := by
  unfold splitHostPort at h
  split at h
  · rename_i hopen
    obtain ⟨inner, rfl⟩ := List.head?_eq_some_iff.mp hopen
    exact found_of_splitBracketed h
  · rename_i hhead
    exact found_of_splitBare hhead h

theorem splitHostPort_open (inner : Text) :
    splitHostPort (openBracket :: inner) = splitBracketed inner :=
  if_pos rfl

theorem splitHostPort_bracketed {x : HostPort} (hipv6 : x.isIpv6 = true)
    (hhost : closeBracket ∉ x.host) (hport : IsPort x.port) : splitHostPort x.render = some x := by
  obtain ⟨host, port, isIpv6⟩ := x
  obtain rfl := hipv6
  rcases hport with hnil | hdigits
  · obtain rfl : port = [] := hnil
    have hrender : HostPort.render ⟨host, [], true⟩ = openBracket :: (host ++ [closeBracket]) :=
      List.append_nil _
    rw [hrender, splitHostPort_open, splitBracketed, dropWhile_ne_cut hhost]
    dsimp only
    rw [takeWhile_ne_cut hhost]
  · have hrender : HostPort.render ⟨host, port, true⟩ =
        openBracket :: (host ++ closeBracket :: colon :: port) := by
      rw [HostPort.render, if_pos rfl, if_neg (allAsciiDigits_iff.mp hdigits).1,
        List.append_assoc, List.cons_append]
      rfl
    have hgood : ¬ (colon ≠ colon ∨ allAsciiDigits port = false) := by simp_all
    rw [hrender, splitHostPort_open, splitBracketed, dropWhile_ne_cut hhost]
    dsimp only
    rw [if_neg hgood, takeWhile_ne_cut hhost]

theorem colon_not_mem_digits {port : Text} (h : IsPort port) : colon ∉ port :=
  fun hmem => (digit_spec (h.digits _ hmem)).1 (by simp [marks])

theorem splitHostPort_plain {x : HostPort} (hipv6 : x.isIpv6 = false) (hhost : colon ∉ x.host)
    (hhead : x.host.head? ≠ some openBracket) (hport : IsPort x.port) :
    splitHostPort x.render = some x := by
  obtain ⟨host, port, isIpv6⟩ := x
  obtain rfl := hipv6
  have hnone : host.count colon = 0 := List.count_eq_zero.mpr hhost
  by_cases hnil : port = []
  · subst hnil
    have hrender : HostPort.render ⟨host, [], false⟩ = host := List.append_nil host
    rw [hrender, splitHostPort, if_neg hhead, splitBare, if_pos hnone]
  · have hdigits : allAsciiDigits port = true := hport.resolve_left hnil
    have hrender : HostPort.render ⟨host, port, false⟩ = host ++ colon :: port := by
      rw [HostPort.render, if_neg Bool.false_ne_true, if_neg hnil]
    have hopen : (host ++ colon :: port).head? ≠ some openBracket := by
      cases host with
      | nil => exact fun h => absurd (Option.some.inj h) (by decide)
      | cons b host => exact hhead
    have hone : (host ++ colon :: port).count colon = 1 := by
      rw [List.count_append, hnone, List.count_cons_self,
        List.count_eq_zero.mpr (colon_not_mem_digits hport)]
    rw [hrender, splitHostPort, if_neg hopen, splitBare, if_neg (by rw [hone]; exact one_ne_zero),
      if_pos hone, dropWhile_ne_cut hhost, takeWhile_ne_cut hhost]
    exact if_pos hdigits

theorem splitHostPort_closed {x : HostPort} (hipv6 : x.isIpv6 = true) (hport : x.port = [])
    (hhost : closeBracket ∈ x.host) : splitHostPort x.render = none := by
  obtain ⟨host, port, isIpv6⟩ := x
  obtain rfl := hipv6
  obtain rfl : port = [] := hport
  have hrender : HostPort.render ⟨host, [], true⟩ = openBracket :: (host ++ [closeBracket]) :=
    List.append_nil _
  obtain ⟨front, back, hsplit, hfront⟩ := List.eq_append_cons_of_mem hhost
  obtain rfl : host = front ++ closeBracket :: back := hsplit
  rw [hrender, splitHostPort_open, splitBracketed, List.append_assoc, List.cons_append,
    dropWhile_ne_cut hfront]
  -- what stands behind the first bracket ends with a bracket
  cases back with
  | nil => rfl
  | cons b back =>
    have hlast : allAsciiDigits (back ++ [closeBracket]) = false := by
      refine Bool.eq_false_iff.mpr fun hdigits => ?_
      have hdigit := (allAsciiDigits_iff.mp hdigits).2 closeBracket (by simp)
      exact absurd hdigit (by decide)
    exact if_pos (.inr hlast)

namespace HostPort

theorem lowercaseAscii_normalizeHost (isIpv6 : Bool) (host : Text) :
    lowercaseAscii (normalizeHost isIpv6 host) = lowercaseAscii host := by
  rw [normalizeHost]
  split
  · have hhost := congrArg lowercaseAscii
      (List.takeWhile_append_dropWhile (p := (· ≠ percent)) (l := host))
    rw [lowercaseAscii_append] at hhost ⊢
    rw [lowercaseAscii_lowercaseAscii]
    exact hhost
  · exact lowercaseAscii_lowercaseAscii host

theorem mem_normalizeHost {c : UInt8} (hc : c ∈ marks) {isIpv6 : Bool} {host : Text} :
    c ∈ normalizeHost isIpv6 host ↔ c ∈ host := by
  rw [← mem_lowercaseAscii hc, lowercaseAscii_normalizeHost, mem_lowercaseAscii hc]

theorem head?_normalizeHost {c : UInt8} (hc : c ∈ marks) {isIpv6 : Bool} {host : Text} :
    (normalizeHost isIpv6 host).head? = some c ↔ host.head? = some c := by
  rw [← head?_lowercaseAscii hc, lowercaseAscii_normalizeHost, head?_lowercaseAscii hc]

@[simp] theorem length_normalizeHost (isIpv6 : Bool) (host : Text) :
    (normalizeHost isIpv6 host).length = host.length := by
  rw [← length_lowercaseAscii, lowercaseAscii_normalizeHost, length_lowercaseAscii]

@[simp] theorem normalizeHost_normalizeHost (isIpv6 : Bool) (host : Text) :
    normalizeHost isIpv6 (normalizeHost isIpv6 host) = normalizeHost isIpv6 host := by
  cases isIpv6 with
  | false => exact lowercaseAscii_lowercaseAscii host
  | true =>
    have hfront : ∀ b ∈ lowercaseAscii (host.takeWhile (· ≠ percent)),
        decide (b ≠ percent) = true := by
      intro b hb
      refine decide_eq_true fun hself => ?_
      rw [hself, mem_lowercaseAscii (by simp [marks])] at hb
      exact not_mem_takeWhile_ne percent host hb
    have hback := head?_dropWhile_false (· ≠ percent) host
    have hagain : normalizeHost true host =
        lowercaseAscii (host.takeWhile (· ≠ percent)) ++ host.dropWhile (· ≠ percent) := if_pos rfl
    rw [hagain, normalizeHost, if_pos rfl, takeWhile_append_cut hfront hback,
      dropWhile_append_cut hfront hback, lowercaseAscii_lowercaseAscii]

@[simp] theorem normalize_normalize (x : HostPort) : x.normalize.normalize = x.normalize := by
  rw [normalize, normalize, normalizeHost_normalizeHost,
    stripLeadingZeroDigits_stripLeadingZeroDigits]

end HostPort

theorem splitHostPort_normalize {hostPort : Text} {x : HostPort}
    (h : splitHostPort hostPort = some x) : splitHostPort x.normalize.render = some x.normalize ∨
      splitHostPort x.normalize.render = none := by
  have hmark : colon ∈ marks ∧ openBracket ∈ marks ∧ closeBracket ∈ marks := by simp [marks]
  obtain ⟨hcolon, hopen, hclose⟩ := hmark
  cases found_of_splitHostPort h with
  | bracketed _ hipv6 hhost hport =>
    refine .inl (splitHostPort_bracketed hipv6 ?_ hport.normalize)
    exact mt (HostPort.mem_normalizeHost hclose).mp hhost
  | plain _ hipv6 hhost hhead hport =>
    refine .inl (splitHostPort_plain hipv6 ?_ ?_ hport.normalize)
    · exact mt (HostPort.mem_normalizeHost hcolon).mp hhost
    · exact mt (HostPort.head?_normalizeHost hopen).mp hhead
  | bare hipv6 hhost hport _ _ =>
    have hnone : x.normalize.port = [] := stripLeadingZeroDigits_eq_nil.mpr hport
    by_cases hmem : closeBracket ∈ x.normalize.host
    · exact .inr (splitHostPort_closed hipv6 hnone hmem)
    · exact .inl (splitHostPort_bracketed hipv6 hmem (.inl hnone))

namespace HostPort

theorem host_subset_render (x : HostPort) : x.host ⊆ x.render := by
  intro b hb
  rw [render]
  split <;> simp [hb]

theorem port_subset_render (x : HostPort) : x.port ⊆ x.render := by
  intro b hb
  rw [render, if_neg (List.ne_nil_of_mem hb)]
  simp [hb]

variable {hostPort : Text} {x : HostPort}

theorem Found.host_subset (h : x.Found hostPort) : x.host ⊆ hostPort := by
  cases h with
  | bracketed render | plain render => exact render ▸ x.host_subset_render
  | bare _ host => exact host ▸ List.Subset.refl _

theorem Found.port_subset (h : x.Found hostPort) : x.port ⊆ hostPort := by
  cases h with
  | bracketed render | plain render => exact render ▸ x.port_subset_render
  | bare _ _ port => rw [port]; exact List.nil_subset _

theorem Found.forall_normalize {q : UInt8 → Prop} (h : x.Found hostPort)
    (hlower : ∀ b, q b → q (toLower b)) (hmarks : q openBracket ∧ q closeBracket ∧ q colon)
    (hall : ∀ b ∈ hostPort, q b) : ∀ b ∈ x.normalize.render, q b := by
  have hhost : ∀ b ∈ x.normalize.host, q b := by
    intro b hb
    have hb' : b ∈ normalizeHost x.isIpv6 x.host := hb
    rw [normalizeHost] at hb'
    split at hb'
    · rcases List.mem_append.mp hb' with hfront | hback
      · obtain ⟨a, ha, rfl⟩ := List.mem_map.mp hfront
        exact hlower a (hall a (h.host_subset (List.takeWhile_subset _ ha)))
      · exact hall b (h.host_subset (List.dropWhile_subset _ hback))
    · obtain ⟨a, ha, rfl⟩ := List.mem_map.mp hb'
      exact hlower a (hall a (h.host_subset ha))
  have hport : ∀ b ∈ x.normalize.port, q b := fun b hb =>
    hall b (h.port_subset ((stripLeadingZeroDigits_suffix x.port).subset hb))
  intro b hb
  rw [render] at hb
  split_ifs at hb <;>
    simp only [List.mem_append, List.mem_cons, List.not_mem_nil, or_false, List.append_nil] at hb
  · rcases hb with (rfl | hb) | rfl
    · exact hmarks.1
    · exact hhost b hb
    · exact hmarks.2.1
  · rcases hb with ((rfl | hb) | rfl) | rfl | hb
    · exact hmarks.1
    · exact hhost b hb
    · exact hmarks.2.1
    · exact hmarks.2.2
    · exact hport b hb
  · exact hhost b hb
  · rcases hb with hb | rfl | hb
    · exact hhost b hb
    · exact hmarks.2.2
    · exact hport b hb

end HostPort

structure Cut (userInfo hostPort path tail : Text) : Prop where
  authority : ∀ b ∈ userInfo ++ hostPort, endsAuthority b = false
  userInfo : ∀ b ∈ userInfo.getLast?, b = atSign
  hostPort : atSign ∉ hostPort
  remainder : ∀ b ∈ (path ++ tail).head?, endsAuthority b = true
  path : ∀ b ∈ path, startsTail b = false
  tail : ∀ b ∈ tail.head?, startsTail b = true

variable {userInfo hostPort path tail rest : Text} {x : HostPort} {parts : Parts}

theorem exists_cut (rest : Text) : ∃ userInfo hostPort path tail, Cut userInfo hostPort path tail ∧
      rest = userInfo ++ hostPort ++ (path ++ tail) := by
  have hauthority : ∀ b ∈ rest.takeWhile fun b => !endsAuthority b, endsAuthority b = false :=
    fun b hb => by simpa using List.mem_takeWhile_imp hb
  refine ⟨(rest.takeWhile fun b => !endsAuthority b).rdropWhile (· ≠ atSign),
    (rest.takeWhile fun b => !endsAuthority b).rtakeWhile (· ≠ atSign),
    (rest.dropWhile fun b => !endsAuthority b).takeWhile fun b => !startsTail b,
    (rest.dropWhile fun b => !endsAuthority b).dropWhile fun b => !startsTail b,
    ⟨?_, ?_, ?_, ?_, ?_, ?_⟩, ?_⟩
  · rwa [List.rdropWhile_append_rtakeWhile]
  · intro b hb
    simpa using getLast?_rdropWhile_false (· ≠ atSign) _ b hb
  · intro hmem
    simpa using List.mem_rtakeWhile_imp hmem
  · rw [List.takeWhile_append_dropWhile]
    intro b hb
    simpa using head?_dropWhile_false (fun b => !endsAuthority b) _ b hb
  · intro b hb
    simpa using List.mem_takeWhile_imp hb
  · intro b hb
    simpa using head?_dropWhile_false (fun b => !startsTail b) _ b hb
  · rw [List.rdropWhile_append_rtakeWhile, List.takeWhile_append_dropWhile,
      List.takeWhile_append_dropWhile]

theorem Cut.splitRest (h : Cut userInfo hostPort path tail) :
    splitRest (userInfo ++ hostPort ++ (path ++ tail)) =
      (splitHostPort hostPort).map fun x => ⟨userInfo, x, path, tail⟩ := by
  have hauthority : ∀ b ∈ userInfo ++ hostPort, (!endsAuthority b) = true := fun b hb => by
    rw [h.authority b hb]
    rfl
  have hremainder : ∀ b ∈ (path ++ tail).head?, (!endsAuthority b) = false := fun b hb => by
    rw [h.remainder b hb]
    rfl
  have huser : ∀ b ∈ userInfo.getLast?, decide (b ≠ atSign) = false := fun b hb =>
    decide_eq_false (not_not.mpr (h.userInfo b hb))
  have hhost : ∀ b ∈ hostPort, decide (b ≠ atSign) = true := fun b hb =>
    decide_eq_true fun hself => h.hostPort (hself ▸ hb)
  have hpath : ∀ b ∈ path, (!startsTail b) = true := fun b hb => by
    rw [h.path b hb]
    rfl
  have htail : ∀ b ∈ tail.head?, (!startsTail b) = false := fun b hb => by
    rw [h.tail b hb]
    rfl
  rw [Transport.splitRest, takeWhile_append_cut hauthority hremainder,
    dropWhile_append_cut hauthority hremainder, rtakeWhile_append_cut huser hhost,
    rdropWhile_append_cut huser hhost, takeWhile_append_cut hpath htail,
    dropWhile_append_cut hpath htail]

theorem stripTrailingSlashes_prefix_self (path : Text) : stripTrailingSlashes path <+: path :=
  List.rdropWhile_prefix _ path

theorem Cut.normalize (h : Cut userInfo hostPort path tail)
    (hsplit : splitHostPort hostPort = some x) :
    Cut userInfo x.normalize.render (stripTrailingSlashes path) tail := by
  have hfound := found_of_splitHostPort hsplit
  refine ⟨?_, h.userInfo, ?_, ?_, ?_, h.tail⟩
  · have hhost := hfound.forall_normalize (q := fun b => endsAuthority b = false)
      (fun b hb => (endsAuthority_toLower b).trans hb) (by decide)
      fun b hb => h.authority b (List.mem_append_right _ hb)
    intro b hb
    rcases List.mem_append.mp hb with hb | hb
    · exact h.authority b (List.mem_append_left _ hb)
    · exact hhost b hb
  · have hhost := hfound.forall_normalize (q := fun b => b ≠ atSign)
      (fun b hb => mt (toLower_eq_iff (by simp [marks]) b).mp hb) (by decide)
      fun b hb hself => h.hostPort (hself ▸ hb)
    exact fun hmem => hhost atSign hmem rfl
  · intro b hb
    obtain ⟨back, hback⟩ := stripTrailingSlashes_prefix_self path
    rw [List.head?_append] at hb
    cases hhead : (stripTrailingSlashes path).head? with
    | none =>
      rw [hhead] at hb
      rw [endsAuthority, h.tail b hb, Bool.or_true]
    | some c =>
      rw [hhead] at hb
      obtain rfl := Option.some.inj hb
      refine h.remainder c ?_
      rw [← hback, List.append_assoc, List.head?_append, hhead]
      rfl
  · exact fun b hb => h.path b ((stripTrailingSlashes_prefix_self path).subset hb)

@[simp] theorem Parts.normalize_normalize (parts : Parts) :
    parts.normalize.normalize = parts.normalize := by
  rw [Parts.normalize, Parts.normalize, HostPort.normalize_normalize, stripTrailingSlashes,
    stripTrailingSlashes, List.rdropWhile_idempotent]

theorem splitRest_normalize (h : splitRest rest = some parts) :
    splitRest parts.normalize.render = some parts.normalize ∨
      splitRest parts.normalize.render = none := by
  obtain ⟨userInfo, hostPort, path, tail, hcut, rfl⟩ := exists_cut rest
  rw [hcut.splitRest] at h
  obtain ⟨x, hsplit, rfl⟩ := Option.map_eq_some_iff.mp h
  have hagain := (hcut.normalize hsplit).splitRest
  rw [Parts.render, Parts.normalize, List.append_assoc, hagain]
  rcases splitHostPort_normalize hsplit with hsome | hnone
  · rw [hsome]
    exact .inl rfl
  · rw [hnone]
    exact .inr rfl

inductive Normalizes (trimmed : Text) : Text → Prop where
  | kept (refused : ∀ scheme rest, splitScheme trimmed = some (scheme, rest) →
      isAuthorityScheme (lowercaseAscii scheme) = true → splitRest rest = none) :
      Normalizes trimmed trimmed
  | otherScheme (scheme rest : Text) (split : splitScheme trimmed = some (scheme, rest))
      (other : isAuthorityScheme (lowercaseAscii scheme) = false) :
      Normalizes trimmed (lowercaseAscii scheme ++ schemeEnd ++ rest)
  | rendered (scheme rest : Text) (parts : Parts)
      (split : splitScheme trimmed = some (scheme, rest))
      (authority : isAuthorityScheme (lowercaseAscii scheme) = true)
      (cut : splitRest rest = some parts) :
      Normalizes trimmed (lowercaseAscii scheme ++ schemeEnd ++ parts.normalize.render)

variable (raw : Text)

theorem normalizes : Normalizes (trimAsciiWhitespace raw) (normalizeEndpoint raw) := by
  unfold normalizeEndpoint
  dsimp only
  split
  · rename_i hnone
    refine .kept fun scheme rest hsome => ?_
    rw [hnone] at hsome
    cases hsome
  · rename_i hscheme
    split_ifs with hother
    · exact .otherScheme _ _ hscheme hother
    · rw [Bool.not_eq_false] at hother
      split
      · rename_i hnone
        refine .kept fun scheme rest hsome _ => ?_
        obtain ⟨-, rfl⟩ := Prod.mk.inj (Option.some.inj (hscheme.symm.trans hsome))
        exact hnone
      · rename_i hparts
        exact .rendered _ _ _ hscheme hother hparts

theorem normalizeEndpoint_trim :
    normalizeEndpoint (trimAsciiWhitespace raw) = normalizeEndpoint raw := by
  rw [normalizeEndpoint, trim_trim]
  rfl

theorem normalizeEndpoint_of_trimmed {raw : Text}
    (htrim : trimAsciiWhitespace (normalizeEndpoint raw) = normalizeEndpoint raw) :
    normalizeEndpoint (normalizeEndpoint raw) = normalizeEndpoint raw := by
  have hagain := normalizeEndpoint_trim raw
  generalize hr : normalizeEndpoint raw = r at htrim hagain
  cases hr ▸ normalizes raw with
  | kept => exact hagain
  | otherScheme scheme rest hscheme hother =>
    have hlower := splitScheme_lower rest (eq_of_splitScheme hscheme ▸ hscheme)
    rw [normalizeEndpoint, htrim, hlower]
    dsimp only
    rw [lowercaseAscii_lowercaseAscii, if_pos hother]
  | rendered scheme rest parts hscheme hauthority hparts =>
    have hlower := splitScheme_lower parts.normalize.render (eq_of_splitScheme hscheme ▸ hscheme)
    have hbusy : ¬ isAuthorityScheme (lowercaseAscii scheme) = false := by
      rw [hauthority]
      exact Bool.noConfusion
    rw [normalizeEndpoint, htrim, hlower]
    dsimp only
    rw [lowercaseAscii_lowercaseAscii, if_neg hbusy]
    rcases splitRest_normalize hparts with hsome | hnone
    · rw [hsome]
      dsimp only
      rw [Parts.normalize_normalize]
    · rw [hnone]

theorem not_startsWithSpace_normalizeEndpoint : ¬ StartsWithSpace (normalizeEndpoint raw) := by
  have hlower : ∀ scheme rest rest' : Text, trimAsciiWhitespace raw = scheme ++ schemeEnd ++ rest →
        ¬ StartsWithSpace (lowercaseAscii scheme ++ schemeEnd ++ rest') := by
    rintro scheme rest rest' htrim ⟨b, hb, hspace⟩
    cases scheme with
    | nil =>
      obtain rfl := Option.some.inj hb
      cases hspace
    | cons c scheme =>
      obtain rfl := Option.some.inj hb
      refine not_startsWithSpace_trim raw ⟨c, ?_, (isSpace_toLower c).symm.trans hspace⟩
      rw [htrim]
      rfl
  have hnormalizes := normalizes raw
  generalize normalizeEndpoint raw = result at hnormalizes
  cases hnormalizes with
  | kept => exact not_startsWithSpace_trim raw
  | otherScheme scheme rest hscheme | rendered scheme rest _ hscheme =>
    exact hlower scheme rest _ (eq_of_splitScheme hscheme)

theorem HostPort.length_render (x : HostPort) : x.render.length =
    x.host.length + (if x.isIpv6 then 2 else 0) + if x.port = [] then 0 else x.port.length + 1 := by
  rw [render, List.length_append]
  congr 1
  · split <;> simp
  · split <;> simp

theorem HostPort.length_normalize_le (x : HostPort) :
    x.normalize.render.length ≤ x.render.length := by
  have hport := (stripLeadingZeroDigits_suffix x.port).length_le
  have hnil : x.normalize.port = [] ↔ x.port = [] := stripLeadingZeroDigits_eq_nil
  have hlength : x.normalize.host.length = x.host.length := length_normalizeHost _ _
  rw [length_render, length_render, hlength]
  refine Nat.add_le_add (Nat.le_refl _) ?_
  by_cases hempty : x.port = []
  · rw [if_pos hempty, if_pos (hnil.mpr hempty)]
  · rw [if_neg hempty, if_neg (mt hnil.mp hempty)]
    exact Nat.succ_le_succ hport

theorem Normalizes.eq_nil {trimmed result spaces : Text} (h : Normalizes trimmed result)
    (hresult : result = trimmed ++ spaces) : spaces = [] := by
  have hshort : result.length ≤ trimmed.length → spaces = [] := by
    intro hle
    rw [hresult, List.length_append] at hle
    exact List.length_eq_zero_iff.mp (by omega)
  cases h with
  | kept => exact hshort le_rfl
  | otherScheme scheme rest hscheme =>
    refine hshort ?_
    rw [eq_of_splitScheme hscheme]
    simp only [List.length_append, length_lowercaseAscii, le_refl]
  | rendered scheme rest parts hscheme _ hparts =>
    obtain ⟨userInfo, hostPort, path, tail, hcut, rfl⟩ := exists_cut rest
    rw [hcut.splitRest] at hparts
    obtain ⟨x, hsplit, rfl⟩ := Option.map_eq_some_iff.mp hparts
    have hpath := (stripTrailingSlashes_prefix_self path).length_le
    have hrender : Parts.render (Parts.normalize ⟨userInfo, x, path, tail⟩) =
        userInfo ++ x.normalize.render ++ stripTrailingSlashes path ++ tail := rfl
    have hlength : x.normalize.render.length ≤ hostPort.length → spaces = [] := by
      intro hle
      refine hshort ?_
      rw [eq_of_splitScheme hscheme, hrender]
      simp only [List.length_append, length_lowercaseAscii]
      omega
    cases found_of_splitHostPort hsplit with
    | bracketed render | plain render => exact hlength (render ▸ x.length_normalize_le)
    | bare hipv6 hhost hport hne hhead =>
      -- the bracket that is added stands where the address began
      rw [eq_of_splitScheme hscheme, hrender] at hresult
      simp only [List.append_assoc] at hresult
      obtain ⟨-, hbehind⟩ := List.append_inj hresult (length_lowercaseAscii scheme)
      have haddress := List.append_cancel_left (List.append_cancel_left hbehind)
      have hopen : x.normalize.render.head? = some openBracket := by
        rw [HostPort.render, if_pos (show x.normalize.isIpv6 = true from hipv6)]
        rfl
      have hfirst := congrArg List.head? haddress
      rw [List.head?_append, List.head?_append, hopen, Option.some_or] at hfirst
      obtain ⟨b, others, rfl⟩ := List.exists_cons_of_ne_nil hne
      exact absurd hfirst.symm hhead

theorem normalizeEndpoint_twice :
    normalizeEndpoint (normalizeEndpoint raw) = normalizeEndpoint raw ↔
      ¬ EndsInSpace (normalizeEndpoint raw) := by
  have hstart := not_startsWithSpace_normalizeEndpoint raw
  constructor
  · intro hsame hend
    obtain ⟨spaces, hspaces, hne⟩ := exists_trim_append hstart
    have hnormalizes := normalizes (normalizeEndpoint raw)
    rw [hsame] at hnormalizes
    exact hne hend (hnormalizes.eq_nil hspaces)
  · intro hend
    exact normalizeEndpoint_of_trimmed (trim_eq_self hstart hend)

/-- The slashes that are stripped from the path of an endpoint without query and fragment stand
behind a whitespace character: at the end of what is left of the path or, with nothing left, at
the end of a host without brackets and port. -/
def ExposesSpace : Prop :=
  ∃ scheme rest parts, splitScheme (trimAsciiWhitespace raw) = some (scheme, rest) ∧
    isAuthorityScheme (lowercaseAscii scheme) = true ∧ splitRest rest = some parts ∧
    parts.tail = [] ∧
    (EndsInSpace (stripTrailingSlashes parts.path) ∨
      stripTrailingSlashes parts.path = [] ∧ parts.hostPort.isIpv6 = false ∧
        parts.hostPort.port = [] ∧ EndsInSpace parts.hostPort.host)

theorem endsInSpace_append {front back : Text} :
    EndsInSpace (front ++ back) ↔ EndsInSpace back ∨ back = [] ∧ EndsInSpace front := by
  rw [EndsInSpace, EndsInSpace, EndsInSpace, List.getLast?_append]
  cases hback : back.getLast? with
  | none => simp [List.getLast?_eq_none_iff.mp hback]
  | some b =>
    have hne : back ≠ [] := by
      rintro rfl
      cases hback
    simp [hne]

theorem endsInSpace_lowercaseAscii {value : Text} :
    EndsInSpace (lowercaseAscii value) ↔ EndsInSpace value := by
  simp [EndsInSpace, lowercaseAscii, List.getLast?_map]

theorem not_endsInSpace_of_forall {value : Text} (h : ∀ b ∈ value.getLast?, isSpace b = false) :
    ¬ EndsInSpace value := by
  rintro ⟨b, hb, hspace⟩
  rw [h b hb] at hspace
  cases hspace

theorem not_endsInSpace_schemeEnd (scheme : Text) : ¬ EndsInSpace (scheme ++ schemeEnd) := by
  refine not_endsInSpace_of_forall fun b hb => ?_
  rw [List.getLast?_append] at hb
  obtain rfl := Option.some.inj hb
  rfl

theorem HostPort.Found.isPort (h : x.Found hostPort) : IsPort x.port := by
  cases h with
  | bracketed _ _ _ port | plain _ _ _ _ port => exact port
  | bare _ _ port => exact .inl port

theorem endsInSpace_render (h : x.Found hostPort) : EndsInSpace x.normalize.render ↔
    x.isIpv6 = false ∧ x.port = [] ∧ EndsInSpace x.host := by
  have hport : IsPort x.normalize.port := h.isPort.normalize
  have hnil : x.normalize.port = [] ↔ x.port = [] := stripLeadingZeroDigits_eq_nil
  rw [HostPort.render, endsInSpace_append]
  by_cases hempty : x.port = []
  · rw [if_pos (hnil.mpr hempty)]
    have hno : ¬ EndsInSpace [] := not_endsInSpace_of_forall (by simp)
    simp only [hno, false_or, true_and, hempty]
    cases hipv6 : x.isIpv6 with
    | true =>
      rw [if_pos (show x.normalize.isIpv6 = true from hipv6), endsInSpace_append]
      have hclose : ¬ EndsInSpace [closeBracket] :=
        not_endsInSpace_of_forall (by simp [isSpace, closeBracket])
      simp [hclose]
    | false =>
      rw [if_neg (show ¬ x.normalize.isIpv6 = true by simp [HostPort.normalize, hipv6]),
        ← endsInSpace_lowercaseAscii]
      have hlower : lowercaseAscii x.normalize.host = lowercaseAscii x.host :=
        HostPort.lowercaseAscii_normalizeHost _ _
      rw [hlower, endsInSpace_lowercaseAscii]
      simp
  · rw [if_neg (mt hnil.mp hempty)]
    have hdigits : ¬ EndsInSpace (colon :: x.normalize.port) := by
      refine not_endsInSpace_of_forall fun b hb => ?_
      rcases List.mem_cons.mp (List.mem_of_getLast? hb) with rfl | hmem
      · rfl
      · exact (digit_spec (hport.digits b hmem)).2.1
    simp [hdigits, hempty]

theorem endsInSpace_normalizeEndpoint : EndsInSpace (normalizeEndpoint raw) ↔ ExposesSpace raw := by
  have htrim := not_endsInSpace_trim raw
  have hnormalizes := normalizes raw
  generalize normalizeEndpoint raw = result at hnormalizes
  cases hnormalizes with
  | kept hrefused =>
    refine iff_of_false htrim ?_
    rintro ⟨scheme, rest, parts, hscheme, hauthority, hparts, -⟩
    rw [hrefused scheme rest hscheme hauthority] at hparts
    cases hparts
  | otherScheme scheme rest hscheme hother =>
    refine iff_of_false ?_ ?_
    · rw [eq_of_splitScheme hscheme, endsInSpace_append] at htrim
      rw [endsInSpace_append]
      rintro (hrest | ⟨-, hscheme⟩)
      · exact htrim (.inl hrest)
      · exact not_endsInSpace_schemeEnd _ hscheme
    · rintro ⟨scheme', rest', parts, hscheme', hauthority, -⟩
      obtain ⟨rfl, -⟩ := Prod.mk.inj (Option.some.inj (hscheme.symm.trans hscheme'))
      rw [hother] at hauthority
      cases hauthority
  | rendered scheme rest parts hscheme hauthority hparts =>
    have hexposes : ExposesSpace raw ↔ parts.tail = [] ∧
        (EndsInSpace (stripTrailingSlashes parts.path) ∨
          stripTrailingSlashes parts.path = [] ∧ parts.hostPort.isIpv6 = false ∧
            parts.hostPort.port = [] ∧ EndsInSpace parts.hostPort.host) := by
      constructor
      · rintro ⟨scheme', rest', parts', hscheme', -, hparts', hends⟩
        obtain ⟨-, rfl⟩ := Prod.mk.inj (Option.some.inj (hscheme.symm.trans hscheme'))
        obtain rfl := Option.some.inj (hparts.symm.trans hparts')
        exact hends
      · exact fun hends => ⟨scheme, rest, parts, hscheme, hauthority, hparts, hends⟩
    obtain ⟨userInfo, hostPort, path, tail, hcut, rfl⟩ := exists_cut rest
    rw [hcut.splitRest] at hparts
    obtain ⟨x, hsplit, rfl⟩ := Option.map_eq_some_iff.mp hparts
    have hrender : Parts.render (Parts.normalize ⟨userInfo, x, path, tail⟩) =
        userInfo ++ x.normalize.render ++ stripTrailingSlashes path ++ tail := rfl
    have htail : ¬ EndsInSpace tail := by
      rw [eq_of_splitScheme hscheme, ← List.append_assoc, ← List.append_assoc,
        endsInSpace_append] at htrim
      exact fun hends => htrim (.inl hends)
    have huser : ¬ EndsInSpace userInfo := by
      refine not_endsInSpace_of_forall fun b hb => ?_
      rw [hcut.userInfo b hb]
      rfl
    have hscheme := not_endsInSpace_schemeEnd (lowercaseAscii scheme)
    rw [hexposes, hrender, ← List.append_assoc, ← List.append_assoc, ← List.append_assoc,
      endsInSpace_append, endsInSpace_append, endsInSpace_append, endsInSpace_append,
      endsInSpace_render (found_of_splitHostPort hsplit)]
    simp only [htail, huser, hscheme, false_or, and_false, or_false]

/-- An endpoint is normalized once and for all, unless its slashes expose whitespace. -/
theorem normalizeEndpoint_idempotent_iff (raw : Text) :
    normalizeEndpoint (normalizeEndpoint raw) = normalizeEndpoint raw ↔ ¬ ExposesSpace raw := by
  rw [normalizeEndpoint_twice, endsInSpace_normalizeEndpoint]

/-- `tcp://host/ /`. -/
def spaceBetweenSlashes : Text :=
  [116, 99, 112, 58, 47, 47, 104, 111, 115, 116, 47, 32, 47]

/-- It becomes `tcp://host/ ` first, and `tcp://host` then. -/
theorem normalizeEndpoint_spaceBetweenSlashes :
    ¬ ∀ raw, normalizeEndpoint (normalizeEndpoint raw) = normalizeEndpoint raw := by
  intro h
  exact absurd (h spaceBetweenSlashes) (by decide +kernel)

end Zlink.Transport
