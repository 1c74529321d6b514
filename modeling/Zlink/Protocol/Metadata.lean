import Mathlib.Data.List.TakeWhile
import Zlink.Protocol.Wire

/-!
# READY metadata

The properties that a peer announces are written one behind the other: the length of the
name in one byte, the name, the length of the value in four bytes, the value. The reader
goes through them with a pointer and a count of the bytes that are left, and stores each
property in a map.

`reads_written_and_readsWell_iff` says which byte strings are read as they should be. The
reader leaves its loop when the count says that a part of a property is missing, and then
takes a count of zero for a string that was read to its end. So a string passes that was cut
right after a name, or right after the length of a value that is not empty.
-/

namespace Zlink.Protocol

namespace Metadata

open BigEndian

abbrev Properties := List UInt8 → Option (List UInt8)

/-- `out_[name] = value`. -/
def Properties.set (out : Properties) (name value : List UInt8) : Properties :=
  Function.update out name (some value)

def strlen (name : List UInt8) : ℕ :=
  (name.takeWhile (· ≠ 0)).length

def appendU32 (buf : List UInt8) (value : UInt32) : List UInt8 :=
  buf ++ putUint32 value

/-- There is no result where an assertion does not hold. -/
def appendProperty (buf name value : List UInt8) : Option (List UInt8) :=
  let nameLen := strlen name
  if 255 < nameLen then none
  else if 0x7FFFFFFF < value.length then none
  else
    let buf := buf ++ [UInt8.ofNat nameLen] ++ name.take nameLen
    let buf := appendU32 buf (UInt32.ofNat value.length)
    if 0 < value.length then some (buf ++ value) else some buf

def appendProperties (buf : List UInt8) (properties : List (List UInt8 × List UInt8)) :
    Option (List UInt8) :=
  properties.foldlM (fun buf p => appendProperty buf p.1 p.2) buf

/-- The next `n` bytes at a pointer, and the pointer behind them. There is no result where
they are not all inside the buffer. -/
def readBytes (n : ℕ) (ptr : List UInt8) : Option (List UInt8 × List UInt8) :=
  if n ≤ ptr.length then some (ptr.take n, ptr.drop n) else none

/-- The loop of `parse`, with the number of bytes that are left behind it. -/
def parseLoop (ptr : List UInt8) (bytesLeft : ℕ) (out : Properties) : Option (ℕ × Properties) :=
  if 1 < bytesLeft then do
    let (head, ptr) ← readBytes 1 ptr
    let nameLength := (head.getD 0 0).toNat
    if bytesLeft - 1 < nameLength then some (bytesLeft - 1, out)
    else do
      let (name, ptr) ← readBytes nameLength ptr
      if bytesLeft - 1 - nameLength < 4 then some (bytesLeft - 1 - nameLength, out)
      else do
        let (length, ptr) ← readBytes 4 ptr
        let valueLength := (getUint32 length).toNat
        if bytesLeft - 1 - nameLength - 4 < valueLength then
          some (bytesLeft - 1 - nameLength - 4, out)
        else do
          let (value, ptr) ← readBytes valueLength ptr
          parseLoop ptr (bytesLeft - 1 - nameLength - 4 - valueLength) (out.set name value)
  else some (bytesLeft, out)
termination_by bytesLeft

/-- The verdict, and the map with what was stored in it. -/
def parse (bytes : List UInt8) (out : Properties) : Option (Except Errno Unit × Properties) := do
  let (bytesLeft, out) ← parseLoop bytes bytes.length out
  if 0 < bytesLeft then some (.error .eproto, out) else some (.ok (), out)

structure Property where
  name : List UInt8
  value : List UInt8
  name_lt : name.length < 256
  value_lt : value.length < 2 ^ 32

def Property.bytes (p : Property) : List UInt8 :=
  UInt8.ofNat p.name.length :: (p.name ++ (putUint32 (UInt32.ofNat p.value.length) ++ p.value))

def WellFormed (bytes : List UInt8) : Prop :=
  ∃ properties : List Property, bytes = properties.flatMap Property.bytes

/-- The front of a property up to the end of its name, or up to the end of the length of its
value, when that value is not empty. -/
inductive Stub : List UInt8 → Prop
  | name {n : UInt8} {name : List UInt8} (hn : name.length = n.toNat) (hpos : 0 < name.length) :
      Stub (n :: name)
  | length {n : UInt8} {name : List UInt8} {v : UInt32} (hn : name.length = n.toNat)
      (hpos : 0 < v.toNat) : Stub (n :: (name ++ putUint32 v))

def CutShort (bytes : List UInt8) : Prop :=
  ∃ properties : List Property, ∃ stub, Stub stub ∧
    bytes = properties.flatMap Property.bytes ++ stub

variable {p q : Property} {xs ys name rest : List UInt8} {n : UInt8} {m : ℕ}
  {out : Properties}

theorem name_of_bytes_append (h : p.bytes ++ xs = n :: (name ++ ys)) (hn : name.length = n.toNat) :
    p.name = name ∧ putUint32 (UInt32.ofNat p.value.length) ++ (p.value ++ xs) = ys := by
  rw [Property.bytes, List.cons_append, List.cons.injEq, List.append_assoc, List.append_assoc] at h
  have hlength : p.name.length = name.length := by
    rw [hn, ← h.1, UInt8.toNat_ofNat', Nat.mod_eq_of_lt p.name_lt]
  exact List.append_inj h.2 hlength

theorem toNat_length_value : (UInt32.ofNat p.value.length).toNat = p.value.length := by
  rw [UInt32.toNat_ofNat', Nat.mod_eq_of_lt p.value_lt]

theorem bytes_append_inj (h : p.bytes ++ xs = q.bytes ++ ys) : p = q ∧ xs = ys := by
  have hname : q.name.length = (UInt8.ofNat q.name.length).toNat := by
    rw [UInt8.toNat_ofNat', Nat.mod_eq_of_lt q.name_lt]
  have h' : p.bytes ++ xs = UInt8.ofNat q.name.length ::
      (q.name ++ (putUint32 (UInt32.ofNat q.value.length) ++ (q.value ++ ys))) := by
    rw [h, Property.bytes, List.cons_append, List.append_assoc, List.append_assoc]
  have hparts := name_of_bytes_append h' hname
  have hlengths := List.append_inj hparts.2 rfl
  have hvalue : p.value.length = q.value.length := by
    rw [← toNat_length_value (p := p), ← toNat_length_value (p := q),
      ← getUint32_putUint32_append (UInt32.ofNat p.value.length) [], hlengths.1,
      getUint32_putUint32_append]
  have hrest := List.append_inj hlengths.2 hvalue
  constructor
  · cases p
    cases q
    rw [Property.mk.injEq]
    exact ⟨hparts.1, hrest.1⟩
  · exact hrest.2

theorem not_stub_bytes_append : ¬ Stub (p.bytes ++ xs) := by
  intro h
  generalize hbytes : p.bytes ++ xs = bytes at h
  cases h with
  | @name n name hn hpos =>
    rw [← List.append_nil name] at hbytes
    have hlength := congrArg List.length (name_of_bytes_append hbytes hn).2
    simp at hlength
  | @length n name v hn hpos =>
    have hlengths := List.append_inj
      ((name_of_bytes_append hbytes hn).2.trans (List.append_nil _).symm) rfl
    have hzero : p.value.length = v.toNat := by
      rw [← toNat_length_value (p := p),
        ← getUint32_putUint32_append (UInt32.ofNat p.value.length) [], hlengths.1,
        getUint32_putUint32_append]
    rw [(List.append_eq_nil_iff.mp hlengths.2).1] at hzero
    exact absurd hzero.symm (Nat.ne_of_gt hpos)

theorem CutShort.not_wellFormed {bytes : List UInt8} (h : CutShort bytes) : ¬ WellFormed bytes := by
  obtain ⟨properties, stub, hstub, rfl⟩ := h
  rintro ⟨others, heq⟩
  induction properties generalizing others with
  | nil =>
    rw [List.flatMap_nil, List.nil_append] at heq
    cases others with
    | nil =>
      rw [List.flatMap_nil] at heq
      cases hstub <;> cases heq
    | cons q others =>
      rw [List.flatMap_cons] at heq
      exact not_stub_bytes_append (heq ▸ hstub)
  | cons p properties ih =>
    rw [List.flatMap_cons, List.append_assoc] at heq
    cases others with
    | nil => exact absurd (congrArg List.length heq) (by simp [Property.bytes])
    | cons q others =>
      rw [List.flatMap_cons] at heq
      exact ih others (bytes_append_inj heq).2

@[simp] theorem readBytes_append (h : xs.length = m) : readBytes m (xs ++ ys) = some (xs, ys) := by
  rw [readBytes, if_pos (by simp [← h]), List.take_left' h, List.drop_left' h]

theorem getUint32_putUint32 (v : UInt32) : getUint32 (putUint32 v) = v := by
  have h := getUint32_putUint32_append v []
  rwa [List.append_nil] at h

theorem exists_putUint32 (h : 4 ≤ xs.length) : ∃ v rest, xs = putUint32 v ++ rest := by
  have hfour : (xs.take 4).length = 4 := List.length_take_of_le h
  have hlt : valueOf (xs.take 4) < 2 ^ 32 := by
    have hlt := valueOf_lt (xs.take 4)
    rwa [hfour] at hlt
  exists UInt32.ofNat (valueOf (xs.take 4)), xs.drop 4
  have hbytes := bytesOf_valueOf (xs.take 4)
  rw [hfour] at hbytes
  rw [putUint32_eq, UInt32.toNat_ofNat', Nat.mod_eq_of_lt hlt, hbytes, List.take_append_drop]

theorem parseLoop_name (hn : name.length = n.toNat) (hpos : 0 < (name ++ ys).length)
    (hshort : ys.length < 4) :
    parseLoop (n :: (name ++ ys)) (n :: (name ++ ys)).length out = some (ys.length, out) := by
  rw [List.length_append] at hpos
  have hleft : 1 + name.length + ys.length - 1 - name.length = ys.length := by omega
  rw [parseLoop, if_pos (by simp; omega), show n :: (name ++ ys) = [n] ++ (name ++ ys) by rfl,
    readBytes_append (m := 1) rfl]
  simp only [Option.bind_eq_bind, Option.bind_some, List.getD_cons_zero, ← hn, List.length_append,
    List.length_singleton, ← Nat.add_assoc]
  rw [if_neg (by omega), readBytes_append rfl]
  simp only [Option.bind_some, hleft]
  rw [if_pos hshort]

theorem parseLoop_length {v : UInt32} (hn : name.length = n.toNat) (hshort : ys.length < v.toNat) :
    parseLoop (n :: (name ++ (putUint32 v ++ ys))) (n :: (name ++ (putUint32 v ++ ys))).length out =
      some (ys.length, out) := by
  have hleft : 1 + name.length + 4 + ys.length - 1 - name.length - 4 = ys.length := by omega
  rw [parseLoop, if_pos (by simp),
    show n :: (name ++ (putUint32 v ++ ys)) = [n] ++ (name ++ (putUint32 v ++ ys)) by rfl,
    readBytes_append (m := 1) rfl]
  simp only [Option.bind_eq_bind, Option.bind_some, List.getD_cons_zero, ← hn, List.length_append,
    List.length_singleton, putUint32_length, ← Nat.add_assoc]
  rw [if_neg (by omega), readBytes_append rfl]
  simp only [Option.bind_some]
  rw [if_neg (by omega), readBytes_append (m := 4) rfl]
  simp only [Option.bind_some, getUint32_putUint32, hleft]
  rw [if_pos hshort]

theorem parseLoop_bytes_append : parseLoop (p.bytes ++ xs) (p.bytes ++ xs).length out =
      parseLoop xs xs.length (out.set p.name p.value) := by
  have hname : (UInt8.ofNat p.name.length).toNat = p.name.length := by
    rw [UInt8.toNat_ofNat', Nat.mod_eq_of_lt p.name_lt]
  have hlength : (p.bytes ++ xs).length = 1 + p.name.length + 4 + p.value.length + xs.length := by
    simp [Property.bytes]
    omega
  have hcons : p.bytes ++ xs = [UInt8.ofNat p.name.length] ++
      (p.name ++ (putUint32 (UInt32.ofNat p.value.length) ++ (p.value ++ xs))) := by
    simp [Property.bytes]
  have hleft : 1 + p.name.length + 4 + p.value.length + xs.length - 1 - p.name.length - 4 -
      p.value.length = xs.length := by omega
  rw [parseLoop, if_pos (by omega), hlength, hcons, readBytes_append (m := 1) rfl]
  simp only [Option.bind_eq_bind, Option.bind_some, List.getD_cons_zero, hname]
  rw [if_neg (by omega), readBytes_append rfl]
  simp only [Option.bind_some]
  rw [if_neg (by omega), readBytes_append (m := 4) rfl]
  simp only [Option.bind_some, getUint32_putUint32, toNat_length_value]
  rw [if_neg (by omega), readBytes_append rfl, Option.bind_some, hleft]

theorem Stub.parseLoop {stub : List UInt8} (h : Stub stub) :
    parseLoop stub stub.length out = some (0, out) := by
  cases h with
  | @name n name hn hpos =>
    have hpos' : 0 < (name ++ []).length := by rwa [List.append_nil]
    have hloop := @parseLoop_name [] _ _ out hn hpos' (Nat.zero_lt_succ 3)
    rwa [List.append_nil] at hloop
  | @length n name v hn hpos =>
    have hloop := @parseLoop_length [] _ _ out _ hn hpos
    rwa [List.append_nil] at hloop

theorem parseLoop_cases (bytes : List UInt8) (out : Properties) :
    bytes = [] ∨ (∃ p : Property, ∃ rest, bytes = p.bytes ++ rest) ∨
      Stub bytes ∨ ∃ k, parseLoop bytes bytes.length out = some (k + 1, out) := by
  cases bytes with
  | nil => exact .inl rfl
  | cons n bytes =>
    right
    by_cases hempty : bytes = []
    · right; right
      exists 0
      rw [hempty, parseLoop, if_neg (by simp)]
      rfl
    have hpos : 0 < bytes.length := List.length_pos_of_ne_nil hempty
    by_cases hname : bytes.length < n.toNat
    · right; right
      exists bytes.length - 1
      have hread : readBytes 1 (n :: bytes) = some ([n], bytes) :=
        @readBytes_append [n] bytes 1 rfl
      rw [parseLoop, if_pos (by simp [hpos]), hread]
      simp only [Option.bind_eq_bind, Option.bind_some, List.getD_cons_zero, List.length_cons,
        Nat.add_sub_cancel]
      rw [if_pos hname, Nat.sub_add_cancel hpos]
    have hn : (bytes.take n.toNat).length = n.toNat :=
      List.length_take_of_le (Nat.le_of_not_lt hname)
    rw [← List.take_append_drop n.toNat bytes] at hpos ⊢
    generalize bytes.take n.toNat = name at hn hpos ⊢
    generalize bytes.drop n.toNat = ys at hpos ⊢
    by_cases hfour : ys.length < 4
    · right
      cases hys : ys.length with
      | zero =>
        left
        rw [List.length_eq_zero_iff] at hys
        rw [hys, List.append_nil] at hpos ⊢
        exact .name hn hpos
      | succ k =>
        right
        exists k
        rw [← hys]
        exact parseLoop_name hn hpos hfour
    obtain ⟨v, value, rfl⟩ := exists_putUint32 (Nat.le_of_not_lt hfour)
    by_cases hshort : value.length < v.toNat
    · right
      cases hvalue : value.length with
      | zero =>
        left
        rw [hvalue] at hshort
        rw [List.length_eq_zero_iff] at hvalue
        rw [hvalue, List.append_nil]
        exact .length hn hshort
      | succ k =>
        right
        exists k
        rw [← hvalue]
        exact parseLoop_length hn hshort
    left
    have hv : (value.take v.toNat).length = v.toNat :=
      List.length_take_of_le (Nat.le_of_not_lt hshort)
    exists ⟨name, value.take v.toNat, hn.trans_lt n.toNat_lt, hv.trans_lt v.toNat_lt⟩,
      value.drop v.toNat
    rw [Property.bytes]
    simp only [hn, hv, UInt8.ofNat_toNat, UInt32.ofNat_toNat, List.cons_append,
      List.append_assoc, List.take_append_drop]

def Properties.setAll (out : Properties) (properties : List Property) : Properties :=
  properties.foldl (fun out p => out.set p.name p.value) out

theorem parse_of_loop {bytes : List UInt8} {k : ℕ} {out' : Properties}
    (h : parseLoop bytes bytes.length out = some (k, out')) :
    parse bytes out = some (if 0 < k then .error .eproto else .ok (), out') := by
  rw [parse, h]
  simp only [Option.bind_eq_bind, Option.bind_some]
  split <;> rfl

theorem parseLoop_properties (properties : List Property) :
    parseLoop (properties.flatMap Property.bytes ++ xs)
        (properties.flatMap Property.bytes ++ xs).length out =
      parseLoop xs xs.length (out.setAll properties) := by
  induction properties generalizing out with
  | nil => rfl
  | cons p properties ih =>
    rw [List.flatMap_cons, List.append_assoc, parseLoop_bytes_append, ih]
    rfl

theorem parseLoop_nil : parseLoop [] ([] : List UInt8).length out = some (0, out) := by
  rw [parseLoop, if_neg (by simp)]
  rfl

theorem parse_properties (properties : List Property) :
    parse (properties.flatMap Property.bytes) out = some (.ok (), out.setAll properties) := by
  have hloop := @parseLoop_properties [] out properties
  rw [parseLoop_nil, List.append_nil] at hloop
  exact parse_of_loop hloop

theorem parse_of_cutShort {bytes : List UInt8} (h : CutShort bytes) (out : Properties) :
    ∃ out', parse bytes out = some (.ok (), out') := by
  obtain ⟨properties, stub, hstub, rfl⟩ := h
  exists out.setAll properties
  apply parse_of_loop (k := 0)
  rw [parseLoop_properties, hstub.parseLoop]

theorem parse_cases (bytes : List UInt8) (out : Properties) : WellFormed bytes ∨ CutShort bytes ∨
      ∃ out', parse bytes out = some (.error .eproto, out') := by
  suffices h : WellFormed bytes ∨ CutShort bytes ∨
      ∃ k out', parseLoop bytes bytes.length out = some (k + 1, out') by
    rcases h with h | h | ⟨k, out', hloop⟩
    · exact .inl h
    · exact .inr (.inl h)
    · exact .inr (.inr ⟨out', parse_of_loop hloop⟩)
  induction hn : bytes.length using Nat.strongRecOn generalizing bytes out with
  | ind m ih =>
    rcases parseLoop_cases bytes out with rfl | ⟨p, rest, rfl⟩ | hstub | ⟨k, hloop⟩
    · exact .inl ⟨[], rfl⟩
    · have hshorter : rest.length < m := by
        rw [← hn, List.length_append]
        simp [Property.bytes]
      rcases ih _ hshorter rest (out.set p.name p.value) rfl with
        ⟨properties, rfl⟩ | ⟨properties, stub, hstub, rfl⟩ | ⟨k, out', hloop⟩
      · exact .inl ⟨p :: properties, rfl⟩
      · exact .inr (.inl ⟨p :: properties, stub, hstub, by simp⟩)
      · rw [← hn, parseLoop_bytes_append]
        exact .inr (.inr ⟨k, out', hloop⟩)
    · exact .inr (.inl ⟨[], bytes, hstub, rfl⟩)
    · exact .inr (.inr ⟨k, out, hn ▸ hloop⟩)

/-- What `append_property` takes: a string without a terminator in it that is not too long,
and a value that is not too long. -/
def Admissible (p : List UInt8 × List UInt8) : Prop :=
  0 ∉ p.1 ∧ p.1.length ≤ 255 ∧ p.2.length ≤ 0x7FFFFFFF

def Admissible.property {p : List UInt8 × List UInt8} (h : Admissible p) : Property where
  name := p.1
  value := p.2
  name_lt := Nat.lt_succ_of_le h.2.1
  value_lt := Nat.lt_of_le_of_lt h.2.2 (by decide)

def lastValue (properties : List (List UInt8 × List UInt8)) (name : List UInt8) :
    Option (List UInt8) :=
  (properties.reverse.find? (fun p => p.1 = name)).map Prod.snd

theorem appendProperty_of_admissible {p : List UInt8 × List UInt8} (h : Admissible p)
    (buf : List UInt8) : appendProperty buf p.1 p.2 = some (buf ++ h.property.bytes) := by
  have hfilter : p.1.takeWhile (· ≠ 0) = p.1 := by
    rw [List.takeWhile_eq_self_iff]
    intro b hb
    exact decide_eq_true (fun hzero => h.1 (hzero ▸ hb))
  have hlen : strlen p.1 = p.1.length := by rw [strlen, hfilter]
  simp only [appendProperty, hlen, List.take_length]
  rw [if_neg (Nat.not_lt.mpr h.2.1), if_neg (Nat.not_lt.mpr h.2.2)]
  have hbytes : appendU32 (buf ++ [UInt8.ofNat p.1.length] ++ p.1)
      (UInt32.ofNat p.2.length) ++ p.2 = buf ++ h.property.bytes := by
    simp [appendU32, Property.bytes, Admissible.property]
  by_cases hvalue : 0 < p.2.length
  · rw [if_pos hvalue, hbytes]
  · rw [if_neg hvalue, ← hbytes, List.length_eq_zero_iff.mp (Nat.eq_zero_of_not_pos hvalue),
      List.append_nil]

theorem appendProperties_of_admissible {properties : List (List UInt8 × List UInt8)}
    (h : ∀ p ∈ properties, Admissible p) (buf : List UInt8) :
    ∃ written : List Property, written.map (fun p => (p.name, p.value)) = properties ∧
      appendProperties buf properties = some (buf ++ written.flatMap Property.bytes) := by
  induction properties generalizing buf with
  | nil => exact ⟨[], rfl, by simp [appendProperties]⟩
  | cons p properties ih =>
    have hp := h p List.mem_cons_self
    obtain ⟨written, hmap, happend⟩ :=
      ih (fun q hq => h q (List.mem_cons_of_mem _ hq)) (buf ++ hp.property.bytes)
    exists hp.property :: written
    constructor
    · rw [List.map_cons, hmap]
      rfl
    · rw [appendProperties, List.foldlM_cons, appendProperty_of_admissible hp,
        List.flatMap_cons, ← List.append_assoc]
      exact happend

theorem setAll_apply (written : List Property) (name : List UInt8) :
    Properties.setAll (fun _ => none) written name =
      lastValue (written.map (fun p => (p.name, p.value))) name := by
  induction written using List.reverseRecOn with
  | nil => rfl
  | append_singleton written p ih =>
    rw [Properties.setAll, List.foldl_append, lastValue, List.map_append, List.reverse_append]
    change Properties.set (Properties.setAll _ written) p.name p.value name = _
    by_cases hname : p.name = name
    · simp [Properties.set, hname]
    · rw [Properties.set, Function.update_of_ne (Ne.symm hname), ih, lastValue]
      simp [hname]

/-- What is asked of the reader on properties that were written: it succeeds, and the last
property of a name wins. -/
def RoundTrips (properties : List (List UInt8 × List UInt8)) : Prop :=
  (∀ p ∈ properties, Admissible p) → ∃ buf, appendProperties [] properties = some buf ∧
      parse buf (fun _ => none) = some (.ok (), lastValue properties)

/-- What is asked of the reader on a string: it stays inside of it, and it succeeds exactly
when the string is well formed. -/
def ReadsWell (bytes : List UInt8) : Prop :=
  ∀ out, ∃ verdict out', parse bytes out = some (verdict, out') ∧
    (verdict = .ok () ↔ WellFormed bytes)

theorem roundTrips (properties : List (List UInt8 × List UInt8)) : RoundTrips properties := by
  intro h
  obtain ⟨written, hmap, happend⟩ := appendProperties_of_admissible h []
  rw [List.nil_append] at happend
  exists written.flatMap Property.bytes
  constructor
  · exact happend
  · rw [parse_properties, ← hmap]
    congr 2
    funext name
    exact setAll_apply written name

theorem not_readsWell_of_cutShort {bytes : List UInt8} (hcut : CutShort bytes) :
    ¬ ReadsWell bytes := by
  intro hreads
  obtain ⟨verdict, out', hparse, hiff⟩ := hreads (fun _ => none)
  obtain ⟨out'', hok⟩ := parse_of_cutShort hcut (fun _ => none)
  rw [hok, Option.some.injEq, Prod.mk.injEq] at hparse
  exact hcut.not_wellFormed (hiff.mp hparse.1.symm)

/-- What was written is read back, and a string is read as it should be if and only if it is
not cut short behind a name or behind the length of a value. -/
theorem reads_written_and_readsWell_iff (properties : List (List UInt8 × List UInt8))
    (bytes : List UInt8) : RoundTrips properties ∧ (ReadsWell bytes ↔ ¬ CutShort bytes) := by
  constructor
  · exact roundTrips properties
  · constructor
    · intro hreads hcut
      exact not_readsWell_of_cutShort hcut hreads
    · intro hcut out
      rcases parse_cases bytes out with ⟨written, rfl⟩ | h | ⟨out', herror⟩
      · exact ⟨_, _, parse_properties written, iff_of_true rfl ⟨written, rfl⟩⟩
      · exact absurd h hcut
      · exists .error .eproto, out'
        constructor
        · exact herror
        · constructor
          · intro h
            cases h
          · rintro ⟨written, rfl⟩
            rw [parse_properties, Option.some.injEq, Prod.mk.injEq] at herror
            cases herror.1

/-- The length of a name, that name, and nothing behind it: the string passes. -/
theorem name_only_passes :
    (parse [1, 65] (fun _ => none)).map Prod.fst = some (.ok ()) ∧ ¬ ReadsWell [1, 65] := by
  have hcut : CutShort [1, 65] := by
    exists [], [1, 65]
    exact ⟨@Stub.name 1 [65] rfl Nat.zero_lt_one, rfl⟩
  obtain ⟨out', hok⟩ := parse_of_cutShort hcut (fun _ => none)
  constructor
  · rw [hok]
    rfl
  · exact not_readsWell_of_cutShort hcut

end Metadata

end Zlink.Protocol
