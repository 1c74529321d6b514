import Zlink.Lib.BigEndian

/-!
# ZMP frames: messages, wire constants and integers on the wire

The message of the runtime as the protocol layer sees it, the constants of the
ZMP framing protocol and the network byte order of its integers.
-/

namespace Zlink.Protocol

open BigEndian

/-- The error numbers that the protocol layer and its callbacks set. -/
inductive Errno where
  | eagain
  | efault
  | einval
  | emsgsize
  | enomem
  | eproto
  | eterm
  deriving DecidableEq

/-- The test `flags_ & mask_` of the source. -/
def hasAny (flags mask : UInt8) : Bool :=
  flags &&& mask != 0

theorem hasAny_or_flags (a b mask : UInt8) :
    hasAny (a ||| b) mask = (hasAny a mask || hasAny b mask) := by
  have hand : (a ||| b) &&& mask = (a &&& mask) ||| (b &&& mask) := by
    rw [← UInt8.toBitVec_inj]
    exact BitVec.and_or_distrib_right
  have h : ((a ||| b) &&& mask = 0) ↔ (a &&& mask = 0) ∧ (b &&& mask = 0) := by
    rw [hand, UInt8.or_eq_zero_iff]
  rw [Bool.eq_iff_iff]
  simp only [hasAny, bne_iff_ne, Bool.or_eq_true, ne_eq, h]
  tauto

theorem hasAny_or_mask (flags a b : UInt8) :
    hasAny flags (a ||| b) = (hasAny flags a || hasAny flags b) := by
  have h := hasAny_or_flags a b flags
  simpa [hasAny, UInt8.and_comm] using h

@[simp] theorem hasAny_zero (mask : UInt8) : hasAny 0 mask = false := by
  simp [hasAny]

@[simp] theorem hasAny_ite (c : Prop) [Decidable c] (a mask : UInt8) :
    hasAny (if c then a else 0) mask = (decide c && hasAny a mask) := by
  split <;> simp_all

/-- A message: its flags, its payload and the request/reply metadata of its
auxiliary field (kind and sequence). -/
structure Msg where
  flags : UInt8
  data : List UInt8
  requestReply : Option (UInt8 × UInt64)
  deriving DecidableEq

namespace Msg

def more : UInt8 := 1
def command : UInt8 := 2
def ping : UInt8 := 4
def subscribe : UInt8 := 12
def cancel : UInt8 := 16
def credential : UInt8 := 32
def routingId : UInt8 := 64
def shared : UInt8 := 128

/-- `CMD_TYPE_MASK`. -/
def cmdTypeMask : UInt8 := 0x1c

def specialFlags : UInt8 :=
  command ||| routingId ||| subscribe ||| cancel

/-- A frame outside the application messages, as its flags tell. -/
def isSpecial (m : Msg) : Bool :=
  hasAny m.flags specialFlags

def init : Msg :=
  { flags := 0, data := [], requestReply := none }

def setRequestReplyMetadata (m : Msg) (kind : UInt8) (sequence : UInt64) : Option Msg :=
  if kind = 0 ∨ sequence = 0 then none
  else some { m with requestReply := some (kind, sequence) }

end Msg

def zmpMagic : UInt8 := 0x5a
def zmpVersion : UInt8 := 0x01

def zmpHeaderSize : ℕ := 8
def zmpRequestSequenceSize : ℕ := 8
def zmpMaxBodySize : UInt64 := 0xffffffff
def zmpMaxControlBodySize : UInt32 := 4096

def zmpKindData : UInt8 := 0x00
def zmpKindRequest : UInt8 := 0x01
def zmpKindReply : UInt8 := 0x02
def zmpKindErrorReply : UInt8 := 0x03

def zmpIsRequestReplyKind (kind : UInt8) : Bool :=
  kind == zmpKindRequest || kind == zmpKindReply || kind == zmpKindErrorReply

def zmpFlagMore : UInt8 := 0x01
def zmpFlagControl : UInt8 := 0x02
def zmpFlagIdentity : UInt8 := 0x04
def zmpFlagSubscribe : UInt8 := 0x08
def zmpFlagCancel : UInt8 := 0x10
def zmpFlagMask : UInt8 := 0x1f
def zmpFlagSubOrCancel : UInt8 := zmpFlagSubscribe ||| zmpFlagCancel
def zmpSpecialFrameFlags : UInt8 :=
  zmpFlagControl ||| zmpFlagIdentity ||| zmpFlagSubscribe ||| zmpFlagCancel

def zmpIsSpecialFrame (flags : UInt8) : Bool :=
  hasAny flags zmpSpecialFrameFlags

def zmpErrorInvalidMagic : UInt8 := 0x01
def zmpErrorVersionMismatch : UInt8 := 0x02
def zmpErrorFlagsInvalid : UInt8 := 0x03
def zmpErrorBodyTooLarge : UInt8 := 0x04
def zmpErrorKindInvalid : UInt8 := 0x07
def zmpErrorSequenceInvalid : UInt8 := 0x08
def zmpErrorMultipartInvalid : UInt8 := 0x09
def zmpErrorFrameIncomplete : UInt8 := 0x0a
def zmpErrorInternal : UInt8 := 0x7f

theorem zmpIsRequestReplyKind_ne_zero {kind : UInt8}
    (h : zmpIsRequestReplyKind kind = true) : kind ≠ 0 := by
  rintro rfl
  exact absurd h (by decide)

def putUint16 (v : UInt16) : List UInt8 :=
  [(v >>> 8).toUInt8, v.toUInt8]

def getUint16 (buffer : List UInt8) : UInt16 :=
  (buffer.getD 0 0).toUInt16 <<< 8 ||| (buffer.getD 1 0).toUInt16

def putUint32 (v : UInt32) : List UInt8 :=
  [(v >>> 24).toUInt8, (v >>> 16).toUInt8, (v >>> 8).toUInt8, v.toUInt8]

def getUint32 (buffer : List UInt8) : UInt32 :=
  (buffer.getD 0 0).toUInt32 <<< 24 ||| (buffer.getD 1 0).toUInt32 <<< 16 |||
    (buffer.getD 2 0).toUInt32 <<< 8 ||| (buffer.getD 3 0).toUInt32

def putUint64 (v : UInt64) : List UInt8 :=
  [(v >>> 56).toUInt8, (v >>> 48).toUInt8, (v >>> 40).toUInt8,
    (v >>> 32).toUInt8, (v >>> 24).toUInt8, (v >>> 16).toUInt8,
    (v >>> 8).toUInt8, v.toUInt8]

def getUint64 (buffer : List UInt8) : UInt64 :=
  (buffer.getD 0 0).toUInt64 <<< 56 ||| (buffer.getD 1 0).toUInt64 <<< 48 |||
    (buffer.getD 2 0).toUInt64 <<< 40 ||| (buffer.getD 3 0).toUInt64 <<< 32 |||
    (buffer.getD 4 0).toUInt64 <<< 24 ||| (buffer.getD 5 0).toUInt64 <<< 16 |||
    (buffer.getD 6 0).toUInt64 <<< 8 ||| (buffer.getD 7 0).toUInt64

@[simp] theorem putUint16_length (v : UInt16) : (putUint16 v).length = 2 := rfl

@[simp] theorem putUint32_length (v : UInt32) : (putUint32 v).length = 4 := rfl

@[simp] theorem putUint64_length (v : UInt64) : (putUint64 v).length = 8 := rfl

theorem putUint16_eq (v : UInt16) : putUint16 v = bytesOf 2 v.toNat := by
  simp only [putUint16, bytesOf, List.cons.injEq, and_true, ← UInt8.toNat_inj,
    UInt16.toNat_toUInt8, UInt8.toNat_ofNat', UInt16.toNat_shiftRight,
    Nat.shiftRight_eq_div_pow]
  simp

theorem putUint32_eq (v : UInt32) : putUint32 v = bytesOf 4 v.toNat := by
  simp only [putUint32, bytesOf, List.cons.injEq, and_true, ← UInt8.toNat_inj,
    UInt32.toNat_toUInt8, UInt32.toNat_shiftRight, UInt8.toNat_ofNat',
    Nat.shiftRight_eq_div_pow]
  simp

theorem putUint64_eq (v : UInt64) : putUint64 v = bytesOf 8 v.toNat := by
  simp only [putUint64, bytesOf, List.cons.injEq, and_true, ← UInt8.toNat_inj,
    UInt64.toNat_toUInt8, UInt64.toNat_shiftRight, UInt8.toNat_ofNat',
    Nat.shiftRight_eq_div_pow]
  simp

theorem toNat_getUint16 (b₀ b₁ : UInt8) (bs : List UInt8) :
    (getUint16 (b₀ :: b₁ :: bs)).toNat = valueOf [b₀, b₁] := by
  simp only [getUint16, List.getD_cons_zero, List.getD_cons_succ,
    UInt16.toNat_or, UInt16.toNat_shiftLeft, UInt8.toNat_toUInt16, valueOf,
    UInt16.reduceToNat, Nat.reduceMod]
  rw [shiftLeft_mod (w := 16) b₀.toNat_lt (by omega), mul_or_eq_add b₁.toNat_lt]
  simp only [List.length_cons, List.length_nil]
  omega

theorem toNat_getUint32 (b₀ b₁ b₂ b₃ : UInt8) (bs : List UInt8) :
    (getUint32 (b₀ :: b₁ :: b₂ :: b₃ :: bs)).toNat = valueOf [b₀, b₁, b₂, b₃] := by
  simp only [getUint32, List.getD_cons_zero, List.getD_cons_succ,
    UInt32.toNat_or, UInt32.toNat_shiftLeft, UInt8.toNat_toUInt32, valueOf,
    UInt32.reduceToNat, Nat.reduceMod]
  rw [shiftLeft_mod (w := 32) b₀.toNat_lt (by omega),
    shiftLeft_mod (w := 32) b₁.toNat_lt (by omega),
    shiftLeft_mod (w := 32) b₂.toNat_lt (by omega),
    or_digit rfl b₁.toNat_lt, or_digit rfl b₂.toNat_lt,
    mul_or_eq_add b₃.toNat_lt]
  simp only [List.length_cons, List.length_nil]
  ring

theorem toNat_getUint64 (b₀ b₁ b₂ b₃ b₄ b₅ b₆ b₇ : UInt8) (bs : List UInt8) : (getUint64
        (b₀ :: b₁ :: b₂ :: b₃ :: b₄ :: b₅ :: b₆ :: b₇ :: bs)).toNat =
      valueOf [b₀, b₁, b₂, b₃, b₄, b₅, b₆, b₇] := by
  simp only [getUint64, List.getD_cons_zero, List.getD_cons_succ,
    UInt64.toNat_or, UInt64.toNat_shiftLeft, UInt8.toNat_toUInt64, valueOf,
    UInt64.reduceToNat, Nat.reduceMod]
  rw [shiftLeft_mod (w := 64) b₀.toNat_lt (by omega),
    shiftLeft_mod (w := 64) b₁.toNat_lt (by omega),
    shiftLeft_mod (w := 64) b₂.toNat_lt (by omega),
    shiftLeft_mod (w := 64) b₃.toNat_lt (by omega),
    shiftLeft_mod (w := 64) b₄.toNat_lt (by omega),
    shiftLeft_mod (w := 64) b₅.toNat_lt (by omega),
    shiftLeft_mod (w := 64) b₆.toNat_lt (by omega),
    or_digit rfl b₁.toNat_lt, or_digit rfl b₂.toNat_lt,
    or_digit rfl b₃.toNat_lt, or_digit rfl b₄.toNat_lt,
    or_digit rfl b₅.toNat_lt, or_digit rfl b₆.toNat_lt,
    mul_or_eq_add b₇.toNat_lt]
  simp only [List.length_cons, List.length_nil]
  ring

@[simp] theorem getUint16_putUint16_append (v : UInt16) (bs : List UInt8) :
    getUint16 (putUint16 v ++ bs) = v := by
  rw [← UInt16.toNat_inj, putUint16, List.cons_append, List.cons_append, toNat_getUint16]
  have hv := putUint16_eq v
  rw [putUint16] at hv
  rw [hv, valueOf_bytesOf v.toNat_lt]

@[simp] theorem getUint32_putUint32_append (v : UInt32) (bs : List UInt8) :
    getUint32 (putUint32 v ++ bs) = v := by
  rw [← UInt32.toNat_inj, putUint32, List.cons_append, List.cons_append,
    List.cons_append, List.cons_append, toNat_getUint32]
  have hv := putUint32_eq v
  rw [putUint32] at hv
  rw [hv, valueOf_bytesOf v.toNat_lt]

@[simp] theorem getUint64_putUint64_append (v : UInt64) (bs : List UInt8) :
    getUint64 (putUint64 v ++ bs) = v := by
  rw [← UInt64.toNat_inj, putUint64, List.cons_append, List.cons_append,
    List.cons_append, List.cons_append, List.cons_append, List.cons_append,
    List.cons_append, List.cons_append, toNat_getUint64]
  have hv := putUint64_eq v
  rw [putUint64] at hv
  rw [hv, valueOf_bytesOf v.toNat_lt]

end Zlink.Protocol
