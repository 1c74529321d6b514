import Zlink.Lib.Codec

/-!
# The fields of the service wire

Numbers stand in network byte order. Texts and byte strings follow their length, which is not
zero; a text is UTF-8 without NUL. Every field has a writer and a reader of its own, and the
two are inverse to each other.
-/

namespace Zlink.ServiceWire

open BigEndian Codec

/-- A `std::string` by its bytes. -/
abbrev Text := List UInt8

def ascii (s : String) : Text :=
  s.toList.map fun c => UInt8.ofNat c.toNat

/-- The largest `uint32_t`. -/
def maxU32 : ℕ :=
  4294967295

def blobBytes : ℕ :=
  65535

def metadataBytes : ℕ :=
  1024

def continueCodePoint (codePoint : ℕ) : List UInt8 → Option ℕ
  | [] => some codePoint
  | next :: others =>
    if next &&& 0xc0 ≠ 0x80 then none
    else continueCodePoint (codePoint <<< 6 ||| (next &&& 0x3f).toNat) others

def validSequence (first minimum : ℕ) (continuation : List UInt8) : Bool :=
  (continueCodePoint first continuation).any fun codePoint =>
    minimum ≤ codePoint && codePoint ≤ 0x10ffff && !(0xd800 ≤ codePoint && codePoint ≤ 0xdfff)

/-- How many bytes continue a first byte above ASCII, its share of the code point, and the
least code point of such a sequence. -/
def sequenceHead (first : UInt8) : Option (ℕ × ℕ × ℕ) :=
  if 0xc2 ≤ first ∧ first ≤ 0xdf then some (1, (first &&& 0x1f).toNat, 0x80)
  else if 0xe0 ≤ first ∧ first ≤ 0xef then some (2, (first &&& 0x0f).toNat, 0x800)
  else if 0xf0 ≤ first ∧ first ≤ 0xf4 then some (3, (first &&& 0x07).toNat, 0x10000)
  else none

/-- The loop of `is_valid_utf8`. The first argument counts the bytes that are still to be
skipped of a sequence that has been checked. -/
def validUtf8From : ℕ → Text → Bool
  | _, [] => true
  | skipped + 1, _ :: rest => validUtf8From skipped rest
  | 0, first :: rest =>
    if first ≤ 0x7f then validUtf8From 0 rest
    else
      match sequenceHead first with
      | none => false
      | some (count, codePoint, minimum) =>
        count ≤ rest.length && validSequence codePoint minimum (rest.take count) &&
          validUtf8From count rest

def isValidUtf8 (value : Text) : Bool :=
  validUtf8From 0 value

def isValidNonNulUtf8 (value : Text) : Bool :=
  0 ∉ value && isValidUtf8 value

theorem isValidUtf8_of_ascii {value : Text} (h : ∀ b ∈ value, b ≤ 0x7f) :
    isValidUtf8 value = true := by
  induction value with
  | nil => rfl
  | cons first rest ih =>
    have htail := ih fun b hb => h b (List.mem_cons_of_mem first hb)
    rwa [isValidUtf8, validUtf8From, if_pos (h first List.mem_cons_self)]

def u8 (value : UInt8) : Written :=
  .ok [value]

def u32 (value : UInt32) : Written :=
  .ok (bytesOf 4 value.toNat)

def u64 (value : UInt64) : Written :=
  .ok (bytesOf 8 value.toNat)

variable {bytes rest ws : List UInt8}

@[simp] theorem u8_eq_ok {value : UInt8} : u8 value = .ok ws ↔ ws = [value] :=
  pure_eq_ok

@[simp] theorem u32_eq_ok {value : UInt32} : u32 value = .ok ws ↔ ws = bytesOf 4 value.toNat :=
  pure_eq_ok

@[simp] theorem u64_eq_ok {value : UInt64} : u64 value = .ok ws ↔ ws = bytesOf 8 value.toNat :=
  pure_eq_ok

def readU16 : Reader UInt16 := do
  pure (.ofNat (← Reader.uint 2 "truncated u16 field"))

def readU32 : Reader UInt32 := do
  pure (.ofNat (← Reader.uint 4 "truncated u32 field"))

def readU64 : Reader UInt64 := do
  pure (.ofNat (← Reader.uint 8 "truncated u64 field"))

@[simp] theorem readU16_eq_ok {value : UInt16} :
    readU16.run bytes = .ok (value, rest) ↔ bytes = bytesOf 2 value.toNat ++ rest := by
  simp only [readU16, Reader.run_bind_eq_ok, Reader.run_uint_eq_ok, Reader.run_pure_eq_ok]
  constructor
  · rintro ⟨v, mid, ⟨hv, rfl⟩, rfl, rfl⟩
    rw [UInt16.toNat_ofNat_of_lt' hv]
  · rintro rfl
    exact ⟨_, _, ⟨value.toNat_lt, rfl⟩, UInt16.ofNat_toNat.symm, rfl⟩

@[simp] theorem readU32_eq_ok {value : UInt32} :
    readU32.run bytes = .ok (value, rest) ↔ bytes = bytesOf 4 value.toNat ++ rest := by
  simp only [readU32, Reader.run_bind_eq_ok, Reader.run_uint_eq_ok, Reader.run_pure_eq_ok]
  constructor
  · rintro ⟨v, mid, ⟨hv, rfl⟩, rfl, rfl⟩
    rw [UInt32.toNat_ofNat_of_lt' hv]
  · rintro rfl
    exact ⟨_, _, ⟨value.toNat_lt, rfl⟩, UInt32.ofNat_toNat.symm, rfl⟩

@[simp] theorem readU64_eq_ok {value : UInt64} :
    readU64.run bytes = .ok (value, rest) ↔ bytes = bytesOf 8 value.toNat ++ rest := by
  simp only [readU64, Reader.run_bind_eq_ok, Reader.run_uint_eq_ok, Reader.run_pure_eq_ok]
  constructor
  · rintro ⟨v, mid, ⟨hv, rfl⟩, rfl, rfl⟩
    rw [UInt64.toNat_ofNat_of_lt' hv]
  · rintro rfl
    exact ⟨_, _, ⟨value.toNat_lt, rfl⟩, UInt64.ofNat_toNat.symm, rfl⟩

/-- `append_nonzero_u64`. -/
def nonzeroU64 (field : String) (value : UInt64) : Written := do
  rejectIf (value = 0) (field ++ " must be nonzero")
  u64 value

def readNonzeroU64 (field : String) : Reader UInt64 := do
  let value ← readU64
  rejectIf (value = 0) (field ++ " must be nonzero")
  pure value

variable {field : String}

theorem nonzeroU64_eq_ok {value : UInt64} :
    nonzeroU64 field value = .ok ws ↔ value ≠ 0 ∧ ws = bytesOf 8 value.toNat := by
  simp only [nonzeroU64, bind_eq_ok, rejectIf_eq_ok, u64_eq_ok, exists_const, ne_eq]

theorem readNonzeroU64_inverse (field : String) :
    Inverse (readNonzeroU64 field) (nonzeroU64 field) := by
  intro bytes value rest
  simp only [readNonzeroU64, Reader.run_bind_eq_ok, readU64_eq_ok, Reader.run_rejectIf_eq_ok,
    Reader.run_pure_eq_ok, nonzeroU64_eq_ok]
  constructor
  · rintro ⟨_, _, rfl, _, _, ⟨hne, rfl⟩, rfl, rfl⟩
    exact ⟨_, ⟨hne, rfl⟩, rfl⟩
  · rintro ⟨_, ⟨hne, rfl⟩, rfl⟩
    exact ⟨value, rest, rfl, (), rest, ⟨hne, rfl⟩, rfl, rfl⟩

/-- `append_text8`. -/
def text8 (field : String) (value : Text) : Written := do
  rejectIf (value = [] ∨ 255 < value.length ∨ !isValidNonNulUtf8 value)
    (field ++ " must be nonempty bounded UTF-8 without NUL")
  pure (.ofNat value.length :: value)

def readText8 (field : String) : Reader Text := do
  let length ← Reader.byte ("truncated " ++ field)
  rejectIf (length = 0) ("invalid " ++ field)
  let value ← Reader.take length.toNat ("invalid " ++ field)
  rejectIf (!isValidNonNulUtf8 value) ("invalid UTF-8 in " ++ field)
  pure value

/-- `append_bytes8`. -/
def bytes8 (field : String) (value : List UInt8) : Written := do
  rejectIf (value = [] ∨ 255 < value.length) (field ++ " must contain 1..255 bytes")
  pure (.ofNat value.length :: value)

def readBytes8 (field : String) : Reader (List UInt8) := do
  let length ← Reader.byte ("truncated " ++ field)
  rejectIf (length = 0) ("invalid " ++ field)
  Reader.take length.toNat ("invalid " ++ field)

/-- `append_text16`. -/
def text16 (field : String) (maximum : ℕ) (value : Text) : Written := do
  rejectIf (value = [] ∨ maximum < value.length ∨ !isValidNonNulUtf8 value)
    (field ++ " must be nonempty bounded UTF-8 without NUL")
  pure (bytesOf 2 value.length ++ value)

def readText16 (field : String) (maximum : ℕ) : Reader Text := do
  let length ← readU16
  rejectIf (length = 0 ∨ maximum < length.toNat) ("invalid " ++ field)
  let value ← Reader.take length.toNat ("invalid " ++ field)
  rejectIf (!isValidNonNulUtf8 value) ("invalid UTF-8 in " ++ field)
  pure value

variable {value : List UInt8}

theorem toNat_length8 (h : value.length ≤ 255) : (UInt8.ofNat value.length).toNat = value.length :=
  UInt8.toNat_ofNat_of_lt' (Nat.lt_succ_of_le h)

theorem text8_eq_ok {value : Text} : text8 field value = .ok ws ↔
      (value ≠ [] ∧ value.length ≤ 255 ∧ isValidNonNulUtf8 value) ∧
        ws = .ofNat value.length :: value := by
  simp only [text8, bind_eq_ok, rejectIf_eq_ok, pure_eq_ok, not_or, not_lt, Bool.not_eq_true',
    Bool.not_eq_false, exists_const]

theorem bytes8_eq_ok : bytes8 field value = .ok ws ↔
      (value ≠ [] ∧ value.length ≤ 255) ∧ ws = .ofNat value.length :: value := by
  simp only [bytes8, bind_eq_ok, rejectIf_eq_ok, pure_eq_ok, not_or, not_lt, exists_const]

theorem text16_eq_ok {maximum : ℕ} {value : Text} : text16 field maximum value = .ok ws ↔
      (value ≠ [] ∧ value.length ≤ maximum ∧ isValidNonNulUtf8 value) ∧
        ws = bytesOf 2 value.length ++ value := by
  simp only [text16, bind_eq_ok, rejectIf_eq_ok, pure_eq_ok, not_or, not_lt,
    Bool.not_eq_true', Bool.not_eq_false, exists_const]

theorem length_of_text8 {value : Text} (h : text8 field value = .ok ws) :
    ws.length = value.length + 1 := by
  rw [(text8_eq_ok.mp h).2, List.length_cons]

theorem length8_pos {length : UInt8} (h : value.length = length.toNat) :
    length ≠ 0 ↔ value ≠ [] := by
  rw [ne_eq, ne_eq, ← UInt8.toNat_inj, ← h, ← List.length_eq_zero_iff]
  rfl

theorem readText8_inverse (field : String) : Inverse (readText8 field) (text8 field) := by
  intro bytes value rest
  simp only [readText8, Reader.run_bind_eq_ok, Reader.run_byte_eq_ok, Reader.run_rejectIf_eq_ok,
    Reader.run_take_eq_ok, Reader.run_pure_eq_ok, text8_eq_ok]
  constructor
  · rintro ⟨length, _, rfl, _, _, ⟨hpos, rfl⟩, taken, _, ⟨hlength, rfl⟩, _, _, ⟨hvalid, rfl⟩,
      rfl, rfl⟩
    have hle : value.length ≤ 255 := hlength ▸ Nat.le_of_lt_succ length.toNat_lt
    refine ⟨_, ⟨⟨(length8_pos hlength).mp hpos, hle, by simpa using hvalid⟩, rfl⟩, ?_⟩
    rw [hlength, UInt8.ofNat_toNat]
    rfl
  · rintro ⟨ws, ⟨⟨hne, hle, hvalid⟩, rfl⟩, rfl⟩
    have hlength := (toNat_length8 hle).symm
    exact ⟨_, _, rfl, (), _, ⟨(length8_pos hlength).mpr hne, rfl⟩, value, rest, ⟨hlength, rfl⟩,
      (), _, ⟨by simpa using hvalid, rfl⟩, rfl, rfl⟩

theorem readBytes8_inverse (field : String) : Inverse (readBytes8 field) (bytes8 field) := by
  intro bytes value rest
  simp only [readBytes8, Reader.run_bind_eq_ok, Reader.run_byte_eq_ok, Reader.run_rejectIf_eq_ok,
    Reader.run_take_eq_ok, bytes8_eq_ok]
  constructor
  · rintro ⟨length, _, rfl, _, _, ⟨hpos, rfl⟩, hlength, rfl⟩
    have hle : value.length ≤ 255 := hlength ▸ Nat.le_of_lt_succ length.toNat_lt
    refine ⟨_, ⟨⟨(length8_pos hlength).mp hpos, hle⟩, rfl⟩, ?_⟩
    rw [hlength, UInt8.ofNat_toNat]
    rfl
  · rintro ⟨ws, ⟨⟨hne, hle⟩, rfl⟩, rfl⟩
    have hlength := (toNat_length8 hle).symm
    exact ⟨_, _, rfl, (), _, ⟨(length8_pos hlength).mpr hne, rfl⟩, hlength, rfl⟩

theorem readText16_inverse (field : String) {maximum : ℕ} (hmax : maximum < 65536) :
    Inverse (readText16 field maximum) (text16 field maximum) := by
  intro bytes value rest
  simp only [readText16, Reader.run_bind_eq_ok, readU16_eq_ok, Reader.run_rejectIf_eq_ok,
    Reader.run_take_eq_ok, Reader.run_pure_eq_ok, text16_eq_ok]
  constructor
  · rintro ⟨length, _, rfl, _, _, ⟨hbad, rfl⟩, taken, _, ⟨hlength, rfl⟩, _, _, ⟨hvalid, rfl⟩,
      rfl, rfl⟩
    obtain ⟨hpos, hle⟩ := not_or.mp hbad
    have hne : value ≠ [] := by
      rintro rfl
      exact hpos (UInt16.toNat_inj.mp hlength.symm)
    refine ⟨_, ⟨⟨hne, hlength ▸ not_lt.mp hle, by simpa using hvalid⟩, rfl⟩, ?_⟩
    rw [hlength, List.append_assoc]
  · rintro ⟨ws, ⟨⟨hne, hle, hvalid⟩, rfl⟩, rfl⟩
    have hlength : (UInt16.ofNat value.length).toNat = value.length :=
      UInt16.toNat_ofNat_of_lt' (hle.trans_lt hmax)
    refine ⟨.ofNat value.length, _, ?_, (), _, ⟨?_, rfl⟩, value, rest, ⟨hlength.symm, rfl⟩,
      (), _, ⟨by simpa using hvalid, rfl⟩, rfl, rfl⟩
    · rw [hlength, List.append_assoc]
    · rw [hlength, ← UInt16.toNat_inj, hlength]
      exact not_or.mpr ⟨fun h => hne (List.length_eq_zero_iff.mp h), not_lt.mpr hle⟩

end Zlink.ServiceWire
