import Zlink.ServiceWire.Payload

/-!
# The parts of a framework multipart

All four readers of the multipart accept the same bytes: the number of the parts and then each
part behind its size. The counters charge the last part.
-/

namespace Zlink.ServiceWire

open BigEndian Codec

def storedPart (part : List UInt8) : List UInt8 :=
  bytesOf 4 part.length ++ part

def storedParts (parts : List (List UInt8)) : List UInt8 :=
  parts.flatMap storedPart

def PartsFit (parts : List (List UInt8)) : Prop :=
  ∀ part ∈ parts, part.length ≤ maxU32

variable {bytes rest : List UInt8} {part : List UInt8} {parts : List (List UInt8)} {n v : ℕ}

theorem storedParts_cons : storedParts (part :: parts) = storedPart part ++ storedParts parts :=
  List.flatMap_cons

theorem length_storedPart : (storedPart part).length = 4 + part.length := by
  rw [storedPart, List.length_append, bytesOf_length]

theorem four_mul_le_storedParts (parts : List (List UInt8)) :
    4 * parts.length ≤ (storedParts parts).length := by
  induction parts with
  | nil => exact le_rfl
  | cons part parts ih =>
    rw [storedParts_cons, List.length_append, length_storedPart, List.length_cons]
    omega

theorem partsFit_cons : PartsFit (part :: parts) ↔ part.length ≤ maxU32 ∧ PartsFit parts :=
  List.forall_mem_cons

theorem bytesOf_size {size : UInt32} (h : part.length = size.toNat) :
    bytesOf 4 size.toNat ++ part = storedPart part := by
  rw [storedPart, h]

theorem toNat_size (h : part.length ≤ maxU32) : (UInt32.ofNat part.length).toNat = part.length :=
  UInt32.toNat_ofNat_of_lt' (Nat.lt_succ_of_le h)

theorem readParts_eq_ok : (readParts n).run bytes = .ok (parts, rest) ↔
    parts.length = n ∧ PartsFit parts ∧ bytes = storedParts parts ++ rest := by
  induction n generalizing bytes rest parts with
  | zero =>
    rw [readParts, Reader.run_pure_eq_ok, List.length_eq_zero_iff]
    constructor
    · rintro ⟨rfl, rfl⟩
      exact ⟨rfl, fun _ h => absurd h List.not_mem_nil, rfl⟩
    · rintro ⟨rfl, -, rfl⟩
      exact ⟨rfl, rfl⟩
  | succ n ih =>
    simp only [readParts, Reader.run_bind_eq_ok, Reader.run_get_eq_ok,
      Reader.run_rejectIf_eq_ok, readU32_eq_ok, Reader.run_take_eq_ok, ih,
      Reader.run_pure_eq_ok]
    constructor
    · rintro ⟨all, _, ⟨rfl, rfl⟩, _, _, ⟨-, rfl⟩, size, _, rfl, part, _, ⟨hsize, rfl⟩, others, _,
        ⟨rfl, hfit, rfl⟩, rfl, rfl⟩
      have hpart : part.length ≤ maxU32 := hsize ▸ Nat.le_of_lt_succ size.toNat_lt
      refine ⟨rfl, partsFit_cons.mpr ⟨hpart, hfit⟩, ?_⟩
      rw [storedParts_cons, ← bytesOf_size hsize, List.append_assoc, List.append_assoc]
    · rintro ⟨hlength, hfit, rfl⟩
      cases parts with
      | nil => cases hlength
      | cons part parts =>
        obtain ⟨hpart, hfit⟩ := partsFit_cons.mp hfit
        refine ⟨_, _, ⟨rfl, rfl⟩, (), _, ⟨?_, rfl⟩, .ofNat part.length,
          part ++ (storedParts parts ++ rest), ?_, part, _, ⟨(toNat_size hpart).symm, rfl⟩,
          parts, rest, ⟨Nat.succ.inj hlength, hfit, rfl⟩, rfl, rfl⟩
        · rw [storedParts_cons, List.length_append, List.length_append, length_storedPart]
          omega
        · rw [storedParts_cons, storedPart, toNat_size hpart, List.append_assoc, List.append_assoc]

theorem countParts_eq_ok {bytesSoFar : ℕ} : (countParts n bytesSoFar).run bytes = .ok (v, rest) ↔
    ∃ parts, parts.length = n ∧ PartsFit parts ∧ bytes = storedParts parts ++ rest ∧
      v = (parts.getLast?.map List.length).getD bytesSoFar := by
  induction n generalizing bytes rest bytesSoFar with
  | zero =>
    rw [countParts, Reader.run_pure_eq_ok]
    constructor
    · rintro ⟨rfl, rfl⟩
      exact ⟨[], rfl, fun _ h => absurd h List.not_mem_nil, rfl, rfl⟩
    · rintro ⟨parts, hlength, -, rfl, rfl⟩
      obtain rfl := List.length_eq_zero_iff.mp hlength
      exact ⟨rfl, rfl⟩
  | succ n ih =>
    simp only [countParts, Reader.run_bind_eq_ok, readU32_eq_ok, Reader.run_take_eq_ok, ih]
    -- the last part is the one behind which no further part is to come
    have hlast (part : List UInt8) (parts : List (List UInt8)) (hlength : parts.length = n) :
        (parts.getLast?.map List.length).getD (if n = 0 then part.length else bytesSoFar) =
          ((part :: parts).getLast?.map List.length).getD bytesSoFar := by
      cases parts with
      | nil =>
        obtain rfl := hlength
        rfl
      | cons other others => rw [List.getLast?_cons_cons, List.getLast?_cons]; rfl
    constructor
    · rintro ⟨size, _, rfl, part, _, ⟨hsize, rfl⟩, parts, hlength, hfit, rfl, rfl⟩
      have hpart : part.length ≤ maxU32 := hsize ▸ Nat.le_of_lt_succ size.toNat_lt
      refine ⟨part :: parts, by rw [List.length_cons, hlength],
        partsFit_cons.mpr ⟨hpart, hfit⟩, ?_, ?_⟩
      · rw [storedParts_cons, ← bytesOf_size hsize, List.append_assoc, List.append_assoc]
      · rw [← hsize]
        exact hlast part parts hlength
    · rintro ⟨parts, hlength, hfit, rfl, rfl⟩
      cases parts with
      | nil => cases hlength
      | cons part parts =>
        obtain ⟨hpart, hfit⟩ := partsFit_cons.mp hfit
        refine ⟨.ofNat part.length, part ++ (storedParts parts ++ rest), ?_, part, _,
          ⟨(toNat_size hpart).symm, rfl⟩, parts, Nat.succ.inj hlength, hfit, rfl, ?_⟩
        · rw [storedParts_cons, storedPart, toNat_size hpart, List.append_assoc, List.append_assoc]
        · rw [toNat_size hpart]
          exact (hlast part parts (Nat.succ.inj hlength)).symm

def IsMultipart (parts : List (List UInt8)) : Prop :=
  parts ≠ [] ∧ parts.length ≤ maxU32 ∧ PartsFit parts

def storedMultipart (parts : List (List UInt8)) : List UInt8 :=
  bytesOf 4 parts.length ++ storedParts parts

theorem count_valid {count : UInt32} (h : parts.length = count.toNat) :
    ¬ (count = 0 ∨ (storedParts parts).length / 4 < count.toNat) ↔ parts ≠ [] := by
  have hle : parts.length ≤ (storedParts parts).length / 4 := by
    have := four_mul_le_storedParts parts
    omega
  have hzero : count = 0 ↔ parts = [] := by
    rw [← UInt32.toNat_inj, ← h]
    exact List.length_eq_zero_iff
  rw [not_or, hzero, ← h]
  exact and_iff_left (not_lt.mpr hle)

theorem toNat_count (h : parts.length ≤ maxU32) :
    (UInt32.ofNat parts.length).toNat = parts.length :=
  UInt32.toNat_ofNat_of_lt' (Nat.lt_succ_of_le h)

theorem readApplicationParts_eq_ok : readApplicationParts.run bytes = .ok (parts, rest) ↔
      IsMultipart parts ∧ bytes = storedMultipart parts ∧ rest = [] := by
  simp only [readApplicationParts, Reader.run_bind_eq_ok, Reader.run_get_eq_ok,
    Reader.run_rejectIf_eq_ok, readU32_eq_ok, readParts_eq_ok, Reader.run_finish_eq_ok,
    Reader.run_pure_eq_ok]
  constructor
  · rintro ⟨all, _, ⟨rfl, rfl⟩, _, _, ⟨-, rfl⟩, count, _, rfl, all, _, ⟨rfl, rfl⟩, _, _,
      ⟨hcount, rfl⟩, others, _, ⟨hlength, hfit, rfl⟩, _, _, ⟨rfl, rfl⟩, rfl, rfl⟩
    rw [List.append_nil] at hcount ⊢
    refine ⟨⟨(count_valid hlength).mp hcount, ?_, hfit⟩, ?_, rfl⟩
    · exact hlength ▸ Nat.le_of_lt_succ count.toNat_lt
    · rw [storedMultipart, hlength]
  · rintro ⟨⟨hne, hcount, hfit⟩, rfl, rfl⟩
    have hlength := (toNat_count hcount).symm
    refine ⟨_, _, ⟨rfl, rfl⟩, (), _, ⟨?_, rfl⟩, .ofNat parts.length, storedParts parts, ?_, _, _,
      ⟨rfl, rfl⟩, (), _, ⟨(count_valid hlength).mpr hne, rfl⟩, parts, [],
      ⟨hlength, hfit, (List.append_nil _).symm⟩, (), [], ⟨rfl, rfl⟩, rfl, rfl⟩
    · rw [storedMultipart, List.length_append, bytesOf_length]
      omega
    · rw [storedMultipart, hlength.symm]

theorem multipartHwmBytes_eq_ok : multipartHwmBytes.run bytes = .ok (v, rest) ↔
    ∃ parts, IsMultipart parts ∧ bytes = storedMultipart parts ∧ rest = [] ∧
      parts.getLast?.map List.length = some v := by
  simp only [multipartHwmBytes, Reader.run_bind_eq_ok, Reader.run_get_eq_ok,
    Reader.run_rejectIf_eq_ok, readU32_eq_ok, countParts_eq_ok, Reader.run_finish_eq_ok,
    Reader.run_pure_eq_ok]
  have hlast {parts : List (List UInt8)} (hne : parts ≠ []) :
      parts.getLast?.map List.length = some v ↔ v = (parts.getLast?.map List.length).getD 0 := by
    rw [List.getLast?_eq_some_getLast hne]
    exact Option.some_inj.trans eq_comm
  constructor
  · rintro ⟨count, _, rfl, all, _, ⟨rfl, rfl⟩, _, _, ⟨hcount, rfl⟩, w, _,
      ⟨parts, hlength, hfit, rfl, hw⟩, _, _, ⟨rfl, rfl⟩, rfl, rfl⟩
    rw [List.append_nil] at hcount ⊢
    have hne := (count_valid hlength).mp hcount
    refine ⟨parts, ⟨hne, ?_, hfit⟩, ?_, rfl, (hlast hne).mpr hw⟩
    · exact hlength ▸ Nat.le_of_lt_succ count.toNat_lt
    · rw [storedMultipart, hlength]
  · rintro ⟨parts, ⟨hne, hcount, hfit⟩, rfl, rfl, hv⟩
    have hlength := (toNat_count hcount).symm
    refine ⟨.ofNat parts.length, storedParts parts, ?_, _, _, ⟨rfl, rfl⟩, (), _,
      ⟨(count_valid hlength).mpr hne, rfl⟩, v, [],
      ⟨parts, hlength, hfit, (List.append_nil _).symm, (hlast hne).mp hv⟩, (), [], ⟨rfl, rfl⟩,
      rfl, rfl⟩
    rw [storedMultipart, hlength.symm]

theorem storesParts_storedParts (h : PartsFit parts) : storesParts parts (storedParts parts) := by
  induction parts with
  | nil => rfl
  | cons part parts ih =>
    obtain ⟨hpart, hfit⟩ := partsFit_cons.mp h
    have htake : (storedPart part ++ storedParts parts).take 4 = bytesOf 4 part.length := by
      rw [storedPart, List.append_assoc]
      exact List.take_left' (bytesOf_length ..)
    have hdrop : (storedPart part ++ storedParts parts).drop 4 = part ++ storedParts parts := by
      rw [storedPart, List.append_assoc]
      exact List.drop_left' (bytesOf_length ..)
    have hvalue : valueOf (bytesOf 4 part.length) = part.length :=
      valueOf_bytesOf (Nat.lt_succ_of_le hpart)
    have hlong : 4 ≤ (storedPart part ++ storedParts parts).length := by
      rw [List.length_append, length_storedPart]
      omega
    rw [storedParts_cons, storesParts, htake, hdrop, hvalue, List.take_left, List.drop_left,
      ih hfit, decide_eq_true hlong]
    simp

theorem storesMultipart_storedMultipart (hcount : parts.length ≤ maxU32) (h : PartsFit parts) :
    storesMultipart parts (storedMultipart parts) := by
  have hvalue : valueOf (bytesOf 4 parts.length) = parts.length :=
    valueOf_bytesOf (Nat.lt_succ_of_le hcount)
  rw [storesMultipart, storedMultipart, List.take_left' (bytesOf_length ..),
    List.drop_left' (bytesOf_length ..), hvalue, storesParts_storedParts h, List.length_append,
    bytesOf_length]
  simp

end Zlink.ServiceWire
