import Zlink.Protocol.Wire

/-!
# The flow-state frame

A command frame tells the peer of a pipe whether the receiver is paused, under an epoch.
The decoder accepts exactly the frames that the encoder makes of a valid state and an
epoch that is not zero.
-/

namespace Zlink.Protocol

namespace FlowState

open BigEndian

def receiveFlowRunning : UInt8 := 0
def receiveFlowPaused : UInt8 := 1

/-- "FLOWSTATE". -/
def frameName : List UInt8 := [70, 76, 79, 87, 83, 84, 65, 84, 69]

def frameProtocolVersion : UInt8 := 1
def frameBodySize : ℕ := 1 + 1 + 8
def frameSize : ℕ := frameName.length + frameBodySize

structure Frame where
  version : UInt8
  state : UInt8
  epoch : ℕ

inductive DecodeResult where
  | notFlowFrame
  | unsupportedVersion
  | malformed
  | ok (frame : Frame)

def putUint64Be (value : ℕ) : List UInt8 :=
  bytesOf 8 value

def getUint64Be (source : List UInt8) : ℕ :=
  (source.take 8).foldl (fun value b => value <<< 8 % 2 ^ 64 ||| b.toNat) 0

def versionSupported (version : UInt8) : Bool :=
  version == frameProtocolVersion

def stateValid (state : UInt8) : Bool :=
  state == receiveFlowRunning || state == receiveFlowPaused

def initFrame (frame : Frame) : Msg :=
  { flags := Msg.command
    data := frameName ++ frame.version :: frame.state :: putUint64Be frame.epoch
    requestReply := none }

def decodeFrame (msg : Msg) : DecodeResult :=
  if !hasAny msg.flags Msg.command then .notFlowFrame
  else if msg.data.length < frameName.length then .notFlowFrame
  else if msg.data.take frameName.length ≠ frameName then .notFlowFrame
  else
    match msg.data.drop frameName.length with
    | [] => .malformed
    | version :: body =>
      if !versionSupported version then .unsupportedVersion
      else if msg.data.length ≠ frameSize then .malformed
      else
        match body with
        | [] => .malformed
        | state :: epoch =>
          let frame : Frame := { version, state, epoch := getUint64Be epoch }
          if !stateValid frame.state || frame.epoch == 0 then .malformed
          else .ok frame

theorem foldl_bytes {source : List UInt8} {v k : ℕ} (hk : k + source.length ≤ 8)
    (hv : v < 256 ^ k) :
    source.foldl (fun value b => value <<< 8 % 2 ^ 64 ||| b.toNat) v =
      v * 256 ^ source.length + valueOf source := by
  induction source generalizing v k with
  | nil => simp [valueOf]
  | cons b source ih =>
    rw [List.length_cons] at hk
    have hpow : 256 ^ (k + 1) ≤ 256 ^ 8 := Nat.pow_le_pow_right (by omega) (by omega)
    have hshift : v <<< 8 % 2 ^ 64 ||| b.toNat = v * 256 + b.toNat := by
      rw [Nat.shiftLeft_eq, Nat.mod_eq_of_lt]
      · exact mul_or_eq_add b.toNat_lt
      · calc v * 2 ^ 8 < 256 ^ k * 256 := Nat.mul_lt_mul_of_pos_right hv (by omega)
          _ = 256 ^ (k + 1) := (pow_succ 256 k).symm
          _ ≤ 2 ^ 64 := by simpa using hpow
    have hb : b.toNat < 256 := b.toNat_lt
    have hnext : v * 256 + b.toNat < 256 ^ (k + 1) := by
      rw [pow_succ]
      omega
    rw [List.foldl_cons, hshift, ih (by omega) hnext, valueOf, List.length_cons, pow_succ]
    ring

theorem getUint64Be_eq {source : List UInt8} (h : source.length = 8) :
    getUint64Be source = valueOf source := by
  rw [getUint64Be, List.take_of_length_le (by omega), foldl_bytes (k := 0) (by omega) (by simp),
    Nat.zero_mul, Nat.zero_add]

structure Frame.Valid (frame : Frame) : Prop where
  version : frame.version = frameProtocolVersion
  state : stateValid frame.state = true
  epoch : frame.epoch ≠ 0
  fits : frame.epoch < 2 ^ 64

theorem decodeFrame_initFrame {frame : Frame} (h : frame.Valid) :
    decodeFrame (initFrame frame) = .ok frame := by
  obtain ⟨version, state, epoch⟩ := frame
  obtain ⟨rfl, hstate, hepoch, hfits⟩ := h
  have hvalue : getUint64Be (putUint64Be epoch) = epoch := by
    rw [putUint64Be, getUint64Be_eq (bytesOf_length 8 epoch)]
    exact valueOf_bytesOf (by simpa using hfits)
  have hlen : (putUint64Be epoch).length = 8 := bytesOf_length 8 epoch
  have hcommand : hasAny Msg.command Msg.command = true := by decide
  have hdrop : (frameName ++ frameProtocolVersion :: state :: putUint64Be epoch).drop
      frameName.length = frameProtocolVersion :: state :: putUint64Be epoch :=
    List.drop_left
  have htake : (frameName ++ frameProtocolVersion :: state :: putUint64Be epoch).take
      frameName.length = frameName :=
    List.take_left
  have hsize : (frameName ++ frameProtocolVersion :: state :: putUint64Be epoch).length =
      frameSize := by
    rw [List.length_append, List.length_cons, List.length_cons, hlen]
    rfl
  have hlong : ¬ frameSize < frameName.length := by decide
  dsimp only at hstate hepoch
  simp [decodeFrame, initFrame, hcommand, hdrop, htake, hsize, hlong, versionSupported, hvalue,
    hstate, hepoch]

theorem initFrame_of_decodeFrame {msg : Msg} {frame : Frame} (h : decodeFrame msg = .ok frame) :
    hasAny msg.flags Msg.command = true ∧ msg.data = (initFrame frame).data ∧ frame.Valid := by
  unfold decodeFrame at h
  split at h
  · cases h
  rename_i hcommand
  split at h
  · cases h
  split at h
  · cases h
  rename_i hname
  split at h
  · cases h
  rename_i version body hbody
  split at h
  · cases h
  rename_i hversion
  split at h
  · cases h
  rename_i hsize
  split at h
  · cases h
  rename_i state epoch
  simp only [not_not] at hname hsize
  have hdata : msg.data = frameName ++ version :: state :: epoch := by
    rw [← hbody, ← List.take_append_drop frameName.length msg.data, hname]
    simp
  have hlen : epoch.length = 8 := by
    rw [hdata, List.length_append, List.length_cons, List.length_cons, frameSize,
      frameBodySize] at hsize
    omega
  have hvalue := getUint64Be_eq hlen
  dsimp only at h
  split at h
  · cases h
  rename_i hvalid
  simp only [Bool.or_eq_true, Bool.not_eq_true', beq_iff_eq, not_or, Bool.not_eq_false]
    at hvalid
  obtain rfl := DecodeResult.ok.inj h
  refine ⟨by simpa using hcommand, ?_, ?_⟩
  · rw [hdata, initFrame, putUint64Be, hvalue, ← hlen, bytesOf_valueOf]
  · constructor
    · simpa [versionSupported] using hversion
    · exact hvalid.1
    · exact hvalid.2
    · have hlt := valueOf_lt epoch
      rw [hlen, ← hvalue] at hlt
      simpa using hlt

/-- Commands with the bytes of a valid frame are decoded to it, and nothing else is decoded. -/
theorem decodeFrame_eq_ok_iff {msg : Msg} {frame : Frame} : decodeFrame msg = .ok frame ↔
    frame.Valid ∧ hasAny msg.flags Msg.command = true ∧ msg.data = (initFrame frame).data := by
  constructor
  · intro h
    obtain ⟨hcommand, hdata, hvalid⟩ := initFrame_of_decodeFrame h
    exact ⟨hvalid, hcommand, hdata⟩
  · rintro ⟨hvalid, hcommand, hdata⟩
    have hown : hasAny (initFrame frame).flags Msg.command = true :=
      show hasAny Msg.command Msg.command = true by decide
    rw [← decodeFrame_initFrame hvalid, decodeFrame, decodeFrame, hcommand, hdata, hown]

end FlowState

end Zlink.Protocol
