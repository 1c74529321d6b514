import Zlink.Lib.Spelling
import Zlink.ServiceWire.Fences

/-!
# The header of a service wire message

Every message starts with the magic bytes, the version of the wire, the number of a command and
its flags.
-/

namespace Zlink.ServiceWire

open BigEndian Codec

structure ServiceWireHeader where
  kind : UInt8
  flags : UInt8

def magic : List UInt8 :=
  [90, 77]

def wireMajor : UInt8 :=
  1

def prefixSize : ℕ :=
  5

/-- `decode_header`. What is left is what stands behind the prefix. -/
def readHeader : Reader ServiceWireHeader := do
  let head ← Reader.take prefixSize "truncated service wire prefix"
  rejectIf (head.take 2 ≠ magic) "invalid service wire magic"
  match head.drop 2 with
  | [major, kind, flags] => do
      rejectIf (major ≠ wireMajor) "unsupported service wire major"
      pure ⟨kind, flags⟩
  | _ => throw "truncated service wire prefix"

def ServiceWireHeader.encode (header : ServiceWireHeader) : Written :=
  .ok (magic ++ [wireMajor, header.kind, header.flags])

theorem readHeader_inverse : Inverse readHeader ServiceWireHeader.encode := by
  intro bytes header rest
  simp only [readHeader, Reader.run_bind_eq_ok, Reader.run_take_eq_ok, Reader.run_rejectIf_eq_ok,
    not_not]
  constructor
  · rintro ⟨head, _, ⟨hlength, rfl⟩, _, _, ⟨hmagic, rfl⟩, hread⟩
    split at hread
    · rename_i major kind flags hdrop
      simp only [Reader.run_bind_eq_ok, Reader.run_rejectIf_eq_ok, Reader.run_pure_eq_ok,
        not_not] at hread
      obtain ⟨_, _, ⟨rfl, rfl⟩, rfl, rfl⟩ := hread
      refine ⟨_, rfl, ?_⟩
      rw [← List.take_append_drop 2 head, hmagic, hdrop]
    · exact absurd hread Reader.run_throw_ne_ok
  · rintro ⟨_, hws, rfl⟩
    obtain rfl := Except.ok.inj hws
    refine ⟨_, rest, ⟨rfl, rfl⟩, (), rest, ⟨rfl, rfl⟩, ?_⟩
    rfl

theorem byte_inverse (message : String) : Inverse (Reader.byte message) u8 := by
  intro bytes value rest
  rw [Reader.run_byte_eq_ok]
  constructor
  · rintro rfl
    exact ⟨[value], rfl, rfl⟩
  · rintro ⟨_, hws, rfl⟩
    rw [u8_eq_ok.mp hws]
    rfl

theorem readU64_inverse : Inverse readU64 u64 := by
  intro bytes value rest
  rw [readU64_eq_ok]
  constructor
  · rintro rfl
    exact ⟨_, rfl, rfl⟩
  · rintro ⟨_, hws, rfl⟩
    rw [u64_eq_ok.mp hws]

def nest16 (message : String) (body : Written) : Written := do
  let ws ← body
  rejectIf (65535 < ws.length) message
  pure (bytesOf 2 ws.length ++ ws)

def readNested16 {α : Type} (message : String) (readBody : List UInt8 → Except String α) :
    Reader α := do
  let length ← readU16
  rejectIf (length = 0 ∨ (← get).length < length.toNat) message
  let body ← Reader.take length.toNat message
  liftM (readBody body)

theorem spells_nested16 {α : Type} {message tooLong : String}
    {readBody : List UInt8 → Except String α} {good : α → Prop} {fields : α → List Written}
    (h : ∀ ws a, readBody ws = .ok a ↔ good a ∧ concat (fields a) = .ok ws)
    (hne : ∀ a, concat (fields a) ≠ .ok []) : Spells (readNested16 message readBody) good
      fun a => [nest16 tooLong (concat (fields a))] := by
  intro bytes a rest
  simp only [readNested16, Reader.run_bind_eq_ok, readU16_eq_ok, Reader.run_get_eq_ok,
    Reader.run_rejectIf_eq_ok, Reader.run_take_eq_ok, Reader.run_lift_eq_ok, concat_cons_eq_ok,
    concat_nil_eq_ok, nest16, bind_eq_ok, rejectIf_eq_ok, pure_eq_ok, h]
  constructor
  · rintro ⟨length, _, rfl, _, _, ⟨rfl, rfl⟩, _, _, ⟨hlength, rfl⟩, body, _, ⟨hbody, rfl⟩,
      ⟨hgood, hws⟩, rfl⟩
    refine ⟨hgood, _, ⟨_, [], ⟨body, hws, (), ?_, rfl⟩, rfl, rfl⟩, ?_⟩
    · rw [hbody]
      exact not_lt.mpr (Nat.le_of_lt_succ length.toNat_lt)
    · rw [hbody, List.append_nil, List.append_assoc]
  · rintro ⟨hgood, _, ⟨_, _, ⟨body, hws, _, hlong, rfl⟩, rfl, rfl⟩, rfl⟩
    have hlength : (UInt16.ofNat body.length).toNat = body.length :=
      UInt16.toNat_ofNat_of_lt' (Nat.lt_succ_of_le (not_lt.mp hlong))
    have hpos : UInt16.ofNat body.length ≠ 0 := by
      intro hzero
      rw [hzero] at hlength
      exact hne a (List.length_eq_zero_iff.mp hlength.symm ▸ hws)
    refine ⟨.ofNat body.length, body ++ rest, ?_, _, _, ⟨rfl, rfl⟩, (), _, ⟨?_, rfl⟩, body, rest,
      ⟨hlength.symm, rfl⟩, ⟨hgood, hws⟩, rfl⟩
    · rw [hlength, List.append_nil, List.append_assoc]
    · rw [hlength, List.length_append]
      exact not_or.mpr ⟨hpos, not_lt.mpr (Nat.le_add_right _ _)⟩

end Zlink.ServiceWire
