import Zlink.Protocol.Wire

/-!
# The HELLO frame

The first frame of a connection is read outside of the decoder, into a buffer of its own:
first the header, which tells how long the body is, then the body. `receiveHelloBytes` takes
as much of the bytes at hand as it needs, and `receiveHello` reads the frame when it is there.

The state of the receiver is a function of the bytes that it has taken (`HelloReceive.after`),
and so the outcome of a run is a function of the bytes that were offered, however they were
cut into pieces.
-/

namespace Zlink.Protocol

def zmpControlHello : UInt8 := 0x01
def zmpErrorSocketTypeMismatch : UInt8 := 0x05

def helloMinBodySize : ℕ := 3
def helloMaxBodySize : ℕ := 3 + 255

/-- `sizeof (_hello_recv)`. -/
def helloRecvCapacity : ℕ := 272

def coreSocketPair : ℤ := 0
def coreSocketPub : ℤ := 1
def coreSocketSub : ℤ := 2
def coreSocketDealer : ℤ := 5
def coreSocketRouter : ℤ := 6
def coreSocketXpub : ℤ := 9
def coreSocketXsub : ℤ := 10

def socketTypesCompatible (localType peerType : ℤ) : Bool :=
  if localType = coreSocketDealer ∨ localType = coreSocketRouter then
    peerType = coreSocketDealer ∨ peerType = coreSocketRouter
  else if localType = coreSocketPub then peerType = coreSocketSub ∨ peerType = coreSocketXsub
  else if localType = coreSocketSub then peerType = coreSocketPub ∨ peerType = coreSocketXpub
  else if localType = coreSocketXpub then peerType = coreSocketSub ∨ peerType = coreSocketXsub
  else if localType = coreSocketXsub then peerType = coreSocketPub ∨ peerType = coreSocketXpub
  else if localType = coreSocketPair then peerType = coreSocketPair
  else false

structure HelloOptions where
  type : Int8
  routingIdSize : UInt8
  routingId : List UInt8
  routingId_length : routingId.length = 256

variable (options : HelloOptions)

def HelloOptions.identityLen : ℕ :=
  min options.routingIdSize.toNat 255

def HelloOptions.identity : List UInt8 :=
  options.routingId.take options.identityLen

/-- The bytes of `hello_send_` up to the size that is handed out. -/
def buildHelloFrame : List UInt8 :=
  let identityLen := options.identityLen
  let bodyLen := helloMinBodySize + identityLen
  [zmpMagic, zmpVersion, zmpFlagControl, 0] ++ putUint32 (UInt32.ofNat bodyLen) ++
    [zmpControlHello, options.type.toUInt8, UInt8.ofNat identityLen] ++ options.identity

structure HelloReceive where
  recv : List UInt8
  headerBytes : ℕ
  bodyBytes : ℕ
  bodyLen : UInt32

def HelloReceive.start : HelloReceive where
  recv := List.replicate helloRecvCapacity 0
  headerBytes := 0
  bodyBytes := 0
  bodyLen := 0

inductive HelloReceiveStatus where
  | incomplete
  | ready
  | error (code : UInt8) (reason : String)
  deriving DecidableEq

def memcpy (buffer : List UInt8) (offset : ℕ) (bytes : List UInt8) : Option (List UInt8) :=
  if offset + bytes.length ≤ buffer.length then
    some (buffer.take offset ++ bytes ++ buffer.drop (offset + bytes.length))
  else none

/-- The second half of `receive_hello_bytes`. -/
def receiveHelloBody (input : List UInt8) (s : HelloReceive) :
    Option (HelloReceiveStatus × List UInt8 × HelloReceive) :=
  if s.bodyBytes < s.bodyLen.toNat then do
    let toCopy := min input.length (s.bodyLen.toNat - s.bodyBytes)
    let recv ← memcpy s.recv (zmpHeaderSize + s.bodyBytes) (input.take toCopy)
    let s := { s with recv := recv, bodyBytes := s.bodyBytes + toCopy }
    if s.bodyBytes < s.bodyLen.toNat then some (.incomplete, input.drop toCopy, s)
    else some (.ready, input.drop toCopy, s)
  else some (.ready, input, s)

def receiveHelloBytes (input : List UInt8) (s : HelloReceive) :
    Option (HelloReceiveStatus × List UInt8 × HelloReceive) :=
  if s.headerBytes < zmpHeaderSize then do
    let toCopy := min input.length (zmpHeaderSize - s.headerBytes)
    let recv ← memcpy s.recv s.headerBytes (input.take toCopy)
    let s := { s with recv := recv, headerBytes := s.headerBytes + toCopy }
    let input := input.drop toCopy
    if s.headerBytes < zmpHeaderSize then some (.incomplete, input, s)
    else
      let s := { s with bodyLen := getUint32 (s.recv.drop 4) }
      if s.bodyLen.toNat < helloMinBodySize then
        some (.error zmpErrorInternal "hello too short", input, s)
      else if helloMaxBodySize < s.bodyLen.toNat then
        some (.error zmpErrorBodyTooLarge "hello too large", input, s)
      else receiveHelloBody input s
  else receiveHelloBody input s

/-- What `parse_hello_frame` makes of a frame. A failure carries the code and the reason of
the error and whether an event is raised for it. -/
inductive HelloVerdict where
  | failed (code : UInt8) (reason : Option String) (malformedHelloEvent : Bool)
  | accepted (peerType : ℤ) (identity : List UInt8)

/-- The first `size` bytes of `data`. -/
def parseHelloFrame (data : List UInt8) (size : ℕ) (localType : ℤ) : HelloVerdict :=
  if size < zmpHeaderSize + helloMinBodySize then
    .failed zmpErrorInternal (some "hello too short") false
  else if data.getD 0 0 ≠ zmpMagic then .failed zmpErrorInvalidMagic none true
  else if data.getD 1 0 ≠ zmpVersion then .failed zmpErrorVersionMismatch none true
  else if data.getD 3 0 ≠ 0 ∨ data.getD 2 0 ≠ zmpFlagControl then
    .failed zmpErrorFlagsInvalid none true
  else
    let bodyLen := getUint32 (data.drop 4)
    if bodyLen.toNat + zmpHeaderSize ≠ size then
      .failed zmpErrorInternal (some "hello length mismatch") false
    else
      let body := data.drop zmpHeaderSize
      if body.getD 0 0 ≠ zmpControlHello then
        .failed zmpErrorInternal (some "missing hello") false
      else
        let peerType : ℤ := (body.getD 1 0).toNat
        if socketTypesCompatible localType peerType = false then
          .failed zmpErrorSocketTypeMismatch none false
        else
          let identityLen := (body.getD 2 0).toNat
          if bodyLen ≠ UInt32.ofNat (helloMinBodySize + identityLen) then
            .failed zmpErrorInternal (some "hello identity mismatch") false
          else .accepted peerType ((body.drop helloMinBodySize).take identityLen)

inductive HelloProgress where
  | pending
  | done (verdict : HelloVerdict)

/-- `receive_hello`, with `parse_hello` up to the verdict on the frame. -/
def receiveHello (localType : ℤ) (input : List UInt8) (s : HelloReceive) :
    Option (HelloProgress × List UInt8 × HelloReceive) :=
  if input = [] then some (.pending, input, s)
  else do
    let (status, rest, s) ← receiveHelloBytes input s
    match status with
    | .incomplete => some (.pending, rest, s)
    | .error code reason => some (.done (.failed code (some reason) false), rest, s)
    | .ready =>
      some (.done (parseHelloFrame s.recv (zmpHeaderSize + s.bodyLen.toNat) localType), rest, s)

/-- The pieces are offered one after the other, each behind what the last call left, until
there is a verdict. The second component is what has not been taken. -/
def runHello (localType : ℤ) (s : HelloReceive) (unread : List UInt8) :
    List (List UInt8) → Option (HelloProgress × List UInt8 × HelloReceive)
  | [] => some (.pending, unread, s)
  | chunk :: chunks => do
      let (progress, rest, s) ← receiveHello localType (unread ++ chunk) s
      match progress with
      | .pending => runHello localType s rest chunks
      | .done verdict => some (.done verdict, rest ++ chunks.flatten, s)

variable (bytes : List UInt8)

def helloBodyLen : UInt32 :=
  getUint32 (bytes.drop 4)

/-- The number of bytes that the receiver takes, as far as the bytes tell. -/
def helloSize : ℕ :=
  if bytes.length < zmpHeaderSize ∨ (helloBodyLen bytes).toNat < helloMinBodySize ∨
      helloMaxBodySize < (helloBodyLen bytes).toNat then zmpHeaderSize
  else zmpHeaderSize + (helloBodyLen bytes).toNat

def helloStatus : HelloReceiveStatus :=
  if bytes.length < zmpHeaderSize then .incomplete
  else if (helloBodyLen bytes).toNat < helloMinBodySize then
    .error zmpErrorInternal "hello too short"
  else if helloMaxBodySize < (helloBodyLen bytes).toNat then
    .error zmpErrorBodyTooLarge "hello too large"
  else if bytes.length < zmpHeaderSize + (helloBodyLen bytes).toNat then .incomplete
  else .ready

def HelloReceive.after (taken : List UInt8) : HelloReceive where
  recv := taken ++ List.replicate (helloRecvCapacity - taken.length) 0
  headerBytes := min zmpHeaderSize taken.length
  bodyBytes := taken.length - zmpHeaderSize
  bodyLen := if taken.length < zmpHeaderSize then 0 else helloBodyLen taken

theorem start_eq_after : HelloReceive.start = .after [] :=
  rfl

variable {taken chunk xs ys : List UInt8} {localType : ℤ}

theorem getUint32_append (h : 4 ≤ xs.length) : getUint32 (xs ++ ys) = getUint32 xs := by
  have hget (i : ℕ) (hi : i < 4) : (xs ++ ys).getD i 0 = xs.getD i 0 := by
    rw [List.getD_eq_getElem?_getD, List.getD_eq_getElem?_getD,
      List.getElem?_append_left (Nat.lt_of_lt_of_le hi h)]
  rw [getUint32, getUint32, hget 0 (by decide), hget 1 (by decide), hget 2 (by decide),
    hget 3 (by decide)]

theorem helloBodyLen_append (h : zmpHeaderSize ≤ xs.length) :
    helloBodyLen (xs ++ ys) = helloBodyLen xs := by
  rw [zmpHeaderSize] at h
  rw [helloBodyLen, List.drop_append_of_le_length (by omega), getUint32_append, helloBodyLen]
  rw [List.length_drop]
  omega

theorem memcpy_after (h : (taken ++ chunk).length ≤ helloRecvCapacity) :
    memcpy (HelloReceive.after taken).recv taken.length chunk =
      some (HelloReceive.after (taken ++ chunk)).recv := by
  rw [List.length_append] at h
  have hzeros : (List.replicate (helloRecvCapacity - taken.length) (0 : UInt8)).drop chunk.length =
      List.replicate (helloRecvCapacity - (taken ++ chunk).length) 0 := by
    rw [List.drop_replicate, List.length_append, Nat.sub_sub]
  simp only [memcpy, HelloReceive.after, List.length_append, List.length_replicate]
  rw [if_pos (by omega), List.take_left' rfl, ← List.drop_drop, List.drop_left' rfl, hzeros,
    List.length_append]

theorem take_min_length (m : ℕ) : xs.take (min xs.length m) = xs.take m := by
  rw [Nat.min_comm, ← List.take_eq_take_min]

theorem drop_min_length (m : ℕ) : xs.drop (min xs.length m) = xs.drop m := by
  by_cases h : m ≤ xs.length
  · rw [Nat.min_eq_right h]
  · rw [Nat.min_eq_left (by omega), List.drop_length, List.drop_eq_nil_of_le (by omega)]

theorem fill_up (chunk : List UInt8) {size : ℕ} (hle : taken.length ≤ size) :
    taken ++ chunk.take (min chunk.length (size - taken.length)) = (taken ++ chunk).take size ∧
      chunk.drop (min chunk.length (size - taken.length)) = (taken ++ chunk).drop size := by
  rw [take_min_length, drop_min_length, List.take_append, List.drop_append,
    List.take_of_length_le hle, List.drop_eq_nil_of_le hle, List.nil_append]
  exact ⟨rfl, rfl⟩

theorem after_append (chunk : List UInt8) (hheader : zmpHeaderSize ≤ taken.length) :
    HelloReceive.mk (HelloReceive.after (taken ++ chunk)).recv
        (HelloReceive.after taken).headerBytes (taken.length - zmpHeaderSize + chunk.length)
        (helloBodyLen taken) = HelloReceive.after (taken ++ chunk) := by
  simp only [HelloReceive.after, List.length_append, HelloReceive.mk.injEq, true_and]
  rw [if_neg (by omega), helloBodyLen_append hheader]
  exact ⟨by omega, by omega, rfl⟩

theorem receiveHelloBody_after (hheader : zmpHeaderSize ≤ taken.length)
    (hmax : (helloBodyLen taken).toNat ≤ helloMaxBodySize)
    (hle : taken.length ≤ zmpHeaderSize + (helloBodyLen taken).toNat) :
    receiveHelloBody chunk (.after taken) =
      some (if (taken ++ chunk).length < zmpHeaderSize + (helloBodyLen taken).toNat then
          .incomplete else .ready,
        (taken ++ chunk).drop (zmpHeaderSize + (helloBodyLen taken).toNat),
        .after ((taken ++ chunk).take (zmpHeaderSize + (helloBodyLen taken).toNat))) := by
  have hlen : (HelloReceive.after taken).bodyLen = helloBodyLen taken :=
    if_neg (Nat.not_lt.mpr hheader)
  have hbody : (HelloReceive.after taken).bodyBytes = taken.length - zmpHeaderSize := rfl
  generalize hL : (helloBodyLen taken).toNat = bodyLen at hmax hle ⊢
  have hfill := fill_up chunk hle
  have hoffset : zmpHeaderSize + (taken.length - zmpHeaderSize) = taken.length := by omega
  have hwant : bodyLen - (taken.length - zmpHeaderSize) =
      zmpHeaderSize + bodyLen - taken.length := by omega
  by_cases hmore : taken.length < zmpHeaderSize + bodyLen
  · have hfits : (taken ++ chunk.take (min chunk.length
        (zmpHeaderSize + bodyLen - taken.length))).length ≤ helloRecvCapacity := by
      rw [hfill.1, List.length_take]
      simp only [zmpHeaderSize, helloMaxBodySize, helloRecvCapacity] at hmax ⊢
      omega
    have hafter := after_append (chunk.take (min chunk.length
      (zmpHeaderSize + bodyLen - taken.length))) hheader
    rw [List.length_take, Nat.min_eq_left (Nat.min_le_left _ _)] at hafter
    rw [receiveHelloBody, hlen, hbody, hL, if_pos (by omega), hoffset, hwant]
    simp only [memcpy_after hfits, Option.bind_eq_bind, Option.bind_some, hL]
    rw [hafter, hfill.1, hfill.2, List.length_append]
    by_cases hshort : taken.length + chunk.length < zmpHeaderSize + bodyLen
    · rw [if_pos (by omega), if_pos hshort]
    · rw [if_neg (by omega), if_neg hshort]
  · have heq : taken.length = zmpHeaderSize + bodyLen := by omega
    rw [receiveHelloBody, hlen, hbody, hL, if_neg (by omega), if_neg (by simp; omega), ← heq,
      List.drop_left' rfl, List.take_left' rfl]

theorem after_of_lt (h : xs.length < zmpHeaderSize) :
    HelloReceive.after xs = ⟨(HelloReceive.after xs).recv, xs.length, 0, 0⟩ := by
  simp only [HelloReceive.after, HelloReceive.mk.injEq, true_and]
  rw [if_pos h]
  exact ⟨by omega, by omega, rfl⟩

theorem getUint32_recv (h : zmpHeaderSize ≤ xs.length) :
    getUint32 ((HelloReceive.after xs).recv.drop 4) = helloBodyLen xs :=
  helloBodyLen_append h

theorem after_of_eq (h : xs.length = zmpHeaderSize) :
    HelloReceive.after xs = ⟨(HelloReceive.after xs).recv, zmpHeaderSize, 0,
      getUint32 ((HelloReceive.after xs).recv.drop 4)⟩ := by
  rw [getUint32_recv (Nat.le_of_eq h.symm)]
  simp only [HelloReceive.after, HelloReceive.mk.injEq, true_and]
  rw [if_neg (by omega)]
  exact ⟨by omega, by omega, rfl⟩

section Body

variable (hheader : zmpHeaderSize ≤ xs.length)
  (hmin : ¬ (helloBodyLen xs).toNat < helloMinBodySize)
  (hmax : ¬ helloMaxBodySize < (helloBodyLen xs).toNat)
include hheader hmin hmax

theorem helloStatus_of_body : helloStatus xs =
      if xs.length < zmpHeaderSize + (helloBodyLen xs).toNat then .incomplete else .ready := by
  rw [helloStatus, if_neg (Nat.not_lt.mpr hheader), if_neg hmin, if_neg hmax]

theorem helloSize_of_body : helloSize xs = zmpHeaderSize + (helloBodyLen xs).toNat := by
  rw [helloSize, if_neg]
  rintro (h | h | h)
  · exact Nat.not_lt.mpr hheader h
  · exact hmin h
  · exact hmax h

theorem receiveHelloBody_of_header (hle : xs.length ≤ zmpHeaderSize + (helloBodyLen xs).toNat) :
    receiveHelloBody ys (.after xs) =
      some (helloStatus (xs ++ ys), (xs ++ ys).drop (helloSize (xs ++ ys)),
        .after ((xs ++ ys).take (helloSize (xs ++ ys)))) := by
  have hlonger : zmpHeaderSize ≤ (xs ++ ys).length := by
    rw [List.length_append]
    omega
  have hbody := @helloBodyLen_append xs ys hheader
  rw [← hbody] at hmin hmax
  rw [helloStatus_of_body hlonger hmin hmax, helloSize_of_body hlonger hmin hmax, hbody,
    receiveHelloBody_after hheader (hbody ▸ Nat.le_of_not_lt hmax) hle]

end Body

theorem receiveHelloBytes_after (h : helloStatus taken = .incomplete) :
    receiveHelloBytes chunk (.after taken) = some (helloStatus (taken ++ chunk),
        (taken ++ chunk).drop (helloSize (taken ++ chunk)),
        .after ((taken ++ chunk).take (helloSize (taken ++ chunk)))) := by
  by_cases hheader : taken.length < zmpHeaderSize
  · have hfill := fill_up chunk (Nat.le_of_lt hheader)
    have hfits : (taken ++ chunk.take (min chunk.length (zmpHeaderSize - taken.length))).length ≤
        helloRecvCapacity := by
      rw [hfill.1, List.length_take]
      simp only [zmpHeaderSize, helloRecvCapacity]
      omega
    have hcopied := memcpy_after hfits
    rw [hfill.1] at hcopied
    rw [receiveHelloBytes, after_of_lt hheader]
    rw [if_pos hheader]
    simp only [hcopied, Option.bind_eq_bind, Option.bind_some]
    rw [hfill.2]
    by_cases hshort : (taken ++ chunk).length < zmpHeaderSize
    · have htake : (taken ++ chunk).take zmpHeaderSize = taken ++ chunk :=
        List.take_of_length_le (Nat.le_of_lt hshort)
      have hsize : helloSize (taken ++ chunk) = zmpHeaderSize := if_pos (.inl hshort)
      have hstatus : helloStatus (taken ++ chunk) = .incomplete := if_pos hshort
      rw [hsize, hstatus, htake, after_of_lt hshort]
      rw [List.length_append] at hshort ⊢
      rw [if_pos (by omega), Nat.min_eq_left (by omega)]
    · have htaken : ((taken ++ chunk).take zmpHeaderSize).length = zmpHeaderSize :=
        List.length_take_of_le (Nat.le_of_not_lt hshort)
      have hbody : helloBodyLen ((taken ++ chunk).take zmpHeaderSize) =
          helloBodyLen (taken ++ chunk) := by
        rw [← helloBodyLen_append (Nat.le_of_eq htaken.symm), List.take_append_drop]
      have hcount : taken.length + min chunk.length (zmpHeaderSize - taken.length) =
          zmpHeaderSize := by
        rw [List.length_append] at hshort
        omega
      have hstate := after_of_eq htaken
      rw [hcount, if_neg (Nat.lt_irrefl _), ← hstate,
        getUint32_recv (Nat.le_of_eq htaken.symm), hbody]
      by_cases hmin : (helloBodyLen (taken ++ chunk)).toNat < helloMinBodySize
      · have hsize : helloSize (taken ++ chunk) = zmpHeaderSize := if_pos (.inr (.inl hmin))
        rw [if_pos hmin, hsize, helloStatus, if_neg hshort, if_pos hmin]
      by_cases hmax : helloMaxBodySize < (helloBodyLen (taken ++ chunk)).toNat
      · have hsize : helloSize (taken ++ chunk) = zmpHeaderSize := if_pos (.inr (.inr hmax))
        rw [if_neg hmin, if_pos hmax, hsize, helloStatus, if_neg hshort, if_neg hmin, if_pos hmax]
      rw [if_neg hmin, if_neg hmax]
      rw [← hbody] at hmin hmax
      have hle : ((taken ++ chunk).take zmpHeaderSize).length ≤ zmpHeaderSize +
          (helloBodyLen ((taken ++ chunk).take zmpHeaderSize)).toNat := by
        rw [htaken]
        exact Nat.le_add_right _ _
      rw [receiveHelloBody_of_header (Nat.le_of_eq htaken.symm) hmin hmax hle,
        List.take_append_drop]
  · rw [helloStatus, if_neg hheader] at h
    split at h
    · cases h
    split at h
    · cases h
    split at h
    case isFalse => cases h
    case isTrue hmin hmax hlt =>
      have hnot : ¬ (HelloReceive.after taken).headerBytes < zmpHeaderSize := by
        rw [HelloReceive.after, Nat.min_eq_left (Nat.le_of_not_lt hheader)]
        exact Nat.lt_irrefl _
      rw [receiveHelloBytes, if_neg hnot]
      exact receiveHelloBody_of_header (Nat.le_of_not_lt hheader) hmin hmax (Nat.le_of_lt hlt)

def helloOutcome (localType : ℤ) (bytes : List UInt8) : HelloProgress × List UInt8 × HelloReceive :=
  let s := HelloReceive.after (bytes.take (helloSize bytes))
  match helloStatus bytes with
  | .incomplete => (.pending, bytes.drop (helloSize bytes), s)
  | .error code reason =>
    (.done (.failed code (some reason) false), bytes.drop (helloSize bytes), s)
  | .ready =>
    (.done (parseHelloFrame s.recv (zmpHeaderSize + s.bodyLen.toNat) localType),
      bytes.drop (helloSize bytes), s)

theorem length_le_of_incomplete (h : helloStatus xs = .incomplete) : xs.length ≤ helloSize xs := by
  by_cases hheader : xs.length < zmpHeaderSize
  · rw [helloSize, if_pos (.inl hheader)]
    exact Nat.le_of_lt hheader
  · rw [helloStatus, if_neg hheader] at h
    split at h
    · cases h
    split at h
    · cases h
    split at h
    case isFalse => cases h
    case isTrue hmin hmax hlt =>
      rw [helloSize_of_body (Nat.le_of_not_lt hheader) hmin hmax]
      exact Nat.le_of_lt hlt

theorem helloOutcome_of_incomplete (h : helloStatus xs = .incomplete) :
    helloOutcome localType xs = (.pending, [], .after xs) := by
  have hle := length_le_of_incomplete h
  simp only [helloOutcome, h]
  rw [List.drop_eq_nil_of_le hle, List.take_of_length_le hle]

theorem decided_append (ys : List UInt8) (h : helloStatus xs ≠ .incomplete) :
    helloStatus (xs ++ ys) = helloStatus xs ∧ helloSize (xs ++ ys) = helloSize xs ∧
      helloSize xs ≤ xs.length := by
  have hheader : zmpHeaderSize ≤ xs.length := by
    by_contra hlt
    exact h (if_pos (Nat.lt_of_not_le hlt))
  have hlonger : zmpHeaderSize ≤ (xs ++ ys).length := by
    rw [List.length_append]
    omega
  have hbody := @helloBodyLen_append xs ys hheader
  rw [helloStatus, if_neg (Nat.not_lt.mpr hlonger), hbody, helloStatus,
    if_neg (Nat.not_lt.mpr hheader), helloSize, hbody, helloSize]
  rw [helloStatus, if_neg (Nat.not_lt.mpr hheader)] at h
  by_cases hmin : (helloBodyLen xs).toNat < helloMinBodySize
  · rw [if_pos hmin, if_pos hmin, if_pos (.inr (.inl hmin)), if_pos (.inr (.inl hmin))]
    exact ⟨rfl, rfl, hheader⟩
  by_cases hmax : helloMaxBodySize < (helloBodyLen xs).toNat
  · rw [if_neg hmin, if_neg hmin, if_pos hmax, if_pos hmax, if_pos (.inr (.inr hmax)),
      if_pos (.inr (.inr hmax))]
    exact ⟨rfl, rfl, hheader⟩
  rw [if_neg hmin, if_neg hmax] at h
  have hfull : ¬ xs.length < zmpHeaderSize + (helloBodyLen xs).toNat := fun hlt => h (if_pos hlt)
  have hfull' : ¬ (xs ++ ys).length < zmpHeaderSize + (helloBodyLen xs).toNat := by
    rw [List.length_append]
    omega
  rw [if_neg hmin, if_neg hmin, if_neg hmax, if_neg hmax, if_neg hfull, if_neg hfull',
    if_neg (by omega), if_neg (by omega)]
  exact ⟨rfl, rfl, Nat.le_of_not_lt hfull⟩

theorem helloOutcome_append (h : helloStatus xs ≠ .incomplete) : helloOutcome localType (xs ++ ys) =
      ((helloOutcome localType xs).1, (helloOutcome localType xs).2.1 ++ ys,
        (helloOutcome localType xs).2.2) := by
  obtain ⟨hstatus, hsize, hle⟩ := decided_append ys h
  simp only [helloOutcome]
  rw [hstatus, hsize, List.take_append_of_le_length hle, List.drop_append_of_le_length hle]
  split <;> rfl

theorem progress_of_decided (h : helloStatus xs ≠ .incomplete) (localType : ℤ) :
    ∃ verdict, (helloOutcome localType xs).1 = .done verdict := by
  simp only [helloOutcome]
  split
  case h_1 hincomplete => exact absurd hincomplete h
  case h_2 => exact ⟨_, rfl⟩
  case h_3 => exact ⟨_, rfl⟩

theorem receiveHello_after (h : helloStatus taken = .incomplete) :
    receiveHello localType chunk (.after taken) =
      some (helloOutcome localType (taken ++ chunk)) := by
  by_cases hempty : chunk = []
  · rw [receiveHello, if_pos hempty, hempty, List.append_nil, helloOutcome_of_incomplete h]
  · rw [receiveHello, if_neg hempty, receiveHelloBytes_after h]
    simp only [Option.bind_eq_bind, Option.bind_some, helloOutcome]
    split <;> rfl

theorem runHello_after (chunks : List (List UInt8)) (h : helloStatus taken = .incomplete) :
    runHello localType (.after taken) [] chunks =
      some (helloOutcome localType (taken ++ chunks.flatten)) := by
  induction chunks generalizing taken with
  | nil => rw [List.flatten_nil, List.append_nil, helloOutcome_of_incomplete h, runHello]
  | cons chunk chunks ih =>
    rw [runHello, List.nil_append, receiveHello_after h, List.flatten_cons, ← List.append_assoc]
    simp only [Option.bind_eq_bind, Option.bind_some]
    by_cases hstatus : helloStatus (taken ++ chunk) = .incomplete
    · rw [helloOutcome_of_incomplete hstatus]
      exact ih hstatus
    · obtain ⟨verdict, hverdict⟩ := progress_of_decided hstatus localType
      rw [helloOutcome_append hstatus, hverdict]

theorem runHello_start (chunks : List (List UInt8)) :
    runHello localType .start [] chunks = some (helloOutcome localType chunks.flatten) := by
  rw [start_eq_after]
  exact runHello_after chunks (if_pos (by decide))

theorem buffered_le : (helloOutcome localType bytes).2.2.headerBytes +
      (helloOutcome localType bytes).2.2.bodyBytes ≤ zmpHeaderSize + helloMaxBodySize := by
  have hstate : (helloOutcome localType bytes).2.2 = .after (bytes.take (helloSize bytes)) := by
    simp only [helloOutcome]
    split <;> rfl
  have hsize : helloSize bytes ≤ zmpHeaderSize + helloMaxBodySize := by
    rw [helloSize]
    split
    · exact Nat.le_add_right _ _
    · omega
  have htaken : (bytes.take (helloSize bytes)).length ≤ helloSize bytes :=
    List.length_take_le _ _
  rw [hstate]
  simp only [HelloReceive.after]
  omega

section Built

variable (options : HelloOptions)

theorem identityLen_le : options.identityLen ≤ 255 :=
  Nat.min_le_right _ _

theorem identity_length : options.identity.length = options.identityLen := by
  have hle := identityLen_le options
  rw [HelloOptions.identity, List.length_take, options.routingId_length]
  omega

theorem buildHelloFrame_length : (buildHelloFrame options).length =
      zmpHeaderSize + (helloMinBodySize + options.identityLen) := by
  simp [buildHelloFrame, identity_length, zmpHeaderSize, helloMinBodySize]
  omega

theorem helloBodyLen_build (rest : List UInt8) : helloBodyLen (buildHelloFrame options ++ rest) =
      UInt32.ofNat (helloMinBodySize + options.identityLen) := by
  have hdrop : (buildHelloFrame options ++ rest).drop 4 =
      putUint32 (UInt32.ofNat (helloMinBodySize + options.identityLen)) ++
        ([zmpControlHello, options.type.toUInt8, UInt8.ofNat options.identityLen] ++
          options.identity ++ rest) := by
    simp [buildHelloFrame]
  rw [helloBodyLen, hdrop, getUint32_putUint32_append]

theorem toNat_bodyLen_build : (UInt32.ofNat (helloMinBodySize + options.identityLen)).toNat =
      helloMinBodySize + options.identityLen := by
  have hle := identityLen_le options
  rw [UInt32.toNat_ofNat', Nat.mod_eq_of_lt]
  simp only [helloMinBodySize]
  omega

theorem status_build (rest : List UInt8) : helloStatus (buildHelloFrame options ++ rest) = .ready ∧
      helloSize (buildHelloFrame options ++ rest) = (buildHelloFrame options).length := by
  have hle := identityLen_le options
  have hlen := buildHelloFrame_length options
  have htotal : (buildHelloFrame options ++ rest).length =
      zmpHeaderSize + (helloMinBodySize + options.identityLen) + rest.length := by
    rw [List.length_append, hlen]
  have hbody : (helloBodyLen (buildHelloFrame options ++ rest)).toNat =
      helloMinBodySize + options.identityLen := by
    rw [helloBodyLen_build, toNat_bodyLen_build]
  have hheader : zmpHeaderSize ≤ (buildHelloFrame options ++ rest).length := by omega
  have hmin : ¬ (helloBodyLen (buildHelloFrame options ++ rest)).toNat < helloMinBodySize := by
    omega
  have hmax : ¬ helloMaxBodySize < (helloBodyLen (buildHelloFrame options ++ rest)).toNat := by
    rw [hbody]
    simp only [helloMaxBodySize, helloMinBodySize]
    omega
  constructor
  · rw [helloStatus_of_body hheader hmin hmax, if_neg (by omega)]
  · rw [helloSize_of_body hheader hmin hmax, hbody, hlen]

theorem parse_build (localType : ℤ) (rest : List UInt8) :
    parseHelloFrame (buildHelloFrame options ++ rest) (buildHelloFrame options).length localType =
      if socketTypesCompatible localType options.type.toUInt8.toNat then
        .accepted options.type.toUInt8.toNat options.identity
      else .failed zmpErrorSocketTypeMismatch none false := by
  have hle := identityLen_le options
  have hlen := buildHelloFrame_length options
  have hbodyLen := helloBodyLen_build options rest
  rw [helloBodyLen] at hbodyLen
  have hbody : (buildHelloFrame options ++ rest).drop zmpHeaderSize =
      zmpControlHello :: options.type.toUInt8 :: UInt8.ofNat options.identityLen ::
        (options.identity ++ rest) := by
    simp [buildHelloFrame, zmpHeaderSize, List.drop_append]
  have hidentityLen : (UInt8.ofNat options.identityLen).toNat = options.identityLen := by
    rw [UInt8.toNat_ofNat', Nat.mod_eq_of_lt (Nat.lt_succ_of_le hle)]
  have hidentity : ((options.identity ++ rest).take options.identityLen) = options.identity :=
    List.take_left' (identity_length options)
  rw [parseHelloFrame, if_neg (by omega), if_neg (by simp [buildHelloFrame]),
    if_neg (by simp [buildHelloFrame]), if_neg (by simp [buildHelloFrame])]
  simp only [hbodyLen, toNat_bodyLen_build, hbody, List.getD_cons_zero, List.getD_cons_succ]
  rw [if_neg (by omega), if_neg (by simp)]
  simp only [hidentityLen]
  cases socketTypesCompatible localType options.type.toUInt8.toNat with
  | false => rfl
  | true =>
    rw [if_neg (by simp), if_neg (by simp), if_pos rfl]
    exact congrArg _ hidentity

theorem bodyLen_after_build :
    zmpHeaderSize + (HelloReceive.after (buildHelloFrame options)).bodyLen.toNat =
      (buildHelloFrame options).length := by
  have hlen := buildHelloFrame_length options
  have hbodyLen := helloBodyLen_build options []
  rw [List.append_nil] at hbodyLen
  simp only [HelloReceive.after]
  rw [if_neg (by omega), hbodyLen, toNat_bodyLen_build, hlen]

def builtVerdict (localType : ℤ) : HelloVerdict :=
  if socketTypesCompatible localType options.type.toInt then
    .accepted options.type.toInt options.identity
  else .failed zmpErrorSocketTypeMismatch none false

end Built

theorem range_of_compatible {peerType : ℤ} (h : socketTypesCompatible localType peerType = true) :
    0 ≤ peerType ∧ peerType ≤ 10 := by
  rw [socketTypesCompatible] at h
  split_ifs at h
  all_goals
    rw [decide_eq_true_eq] at h
    simp only [coreSocketPair, coreSocketPub, coreSocketSub, coreSocketDealer, coreSocketRouter,
      coreSocketXpub, coreSocketXsub] at h
    omega

theorem parse_verdict (localType : ℤ) :
    (if socketTypesCompatible localType options.type.toUInt8.toNat then
        HelloVerdict.accepted options.type.toUInt8.toNat options.identity
      else .failed zmpErrorSocketTypeMismatch none false) = builtVerdict options localType := by
  rw [builtVerdict]
  have hbyte : options.type.toInt = (options.type.toUInt8.toNat : ℤ).bmod (2 ^ 8) :=
    BitVec.toInt_eq_toNat_bmod _
  by_cases hsmall : options.type.toUInt8.toNat < 128
  · have heq : options.type.toInt = options.type.toUInt8.toNat := by
      rw [hbyte, Int.bmod_eq_of_le (by omega) (by omega)]
    rw [heq]
  · have hbound : options.type.toUInt8.toNat < 256 := options.type.toUInt8.toNat_lt
    have hneg : options.type.toInt < 0 := by
      rw [hbyte, Int.bmod_eq_emod]
      split <;> omega
    have hbig : ¬ socketTypesCompatible localType options.type.toUInt8.toNat = true := by
      intro h
      have hrange := range_of_compatible h
      omega
    have hsmall : ¬ socketTypesCompatible localType options.type.toInt = true := by
      intro h
      have hrange := range_of_compatible h
      omega
    rw [if_neg hbig, if_neg hsmall]

theorem runHello_build (localType : ℤ) {chunks : List (List UInt8)}
    {trailing : List UInt8} (h : chunks.flatten = buildHelloFrame options ++ trailing) :
    runHello localType .start [] chunks = some (.done (builtVerdict options localType), trailing,
        .after (buildHelloFrame options)) := by
  obtain ⟨hstatus, hsize⟩ := status_build options trailing
  rw [runHello_start, h]
  simp only [helloOutcome, hstatus, hsize, List.take_left' rfl, List.drop_left' rfl]
  rw [bodyLen_after_build]
  congr 4
  exact (parse_build options localType _).trans (parse_verdict options localType)

/-- A HELLO of the builder is taken to its end and no further, and read back where the types
of the two sockets go together; less than all of it is waited for. What the receiver makes of
any bytes does not depend on how they are cut, and it never holds more than the longest
HELLO. -/
theorem hello_in_pieces (options : HelloOptions) (localType : ℤ) :
    (∀ chunks trailing, chunks.flatten = buildHelloFrame options ++ trailing →
      ∃ s, runHello localType .start [] chunks =
        some (.done (builtVerdict options localType), trailing, s)) ∧
      (∀ chunks missing, chunks.flatten ++ missing = buildHelloFrame options →
        missing ≠ [] → ∃ s, runHello localType .start [] chunks = some (.pending, [], s)) ∧
      ∀ chunks others : List (List UInt8), chunks.flatten = others.flatten →
        ∃ progress unread s, runHello localType .start [] chunks = some (progress, unread, s) ∧
          runHello localType .start [] others = some (progress, unread, s) ∧
          s.headerBytes + s.bodyBytes ≤ zmpHeaderSize + helloMaxBodySize := by
  refine ⟨?_, ?_, ?_⟩
  · intro chunks trailing hflatten
    exact ⟨_, runHello_build options localType hflatten⟩
  · intro chunks missing hflatten hmissing
    exists .after chunks.flatten
    rw [runHello_start, helloOutcome_of_incomplete]
    by_contra hdecided
    obtain ⟨-, hsize, hle⟩ := decided_append missing hdecided
    have hbuilt := (status_build options []).2
    rw [List.append_nil, ← hflatten, hsize, List.length_append] at hbuilt
    have := List.length_pos_of_ne_nil hmissing
    omega
  · intro chunks others heq
    exists (helloOutcome localType chunks.flatten).1, (helloOutcome localType chunks.flatten).2.1,
      (helloOutcome localType chunks.flatten).2.2
    refine ⟨runHello_start chunks, ?_, buffered_le _⟩
    rw [heq]
    exact runHello_start others

def dealerOptions : HelloOptions where
  type := 5
  routingIdSize := 0
  routingId := List.replicate 256 0
  routingId_length := List.length_replicate

/-- A PUB socket does not read the options of a DEALER back. -/
theorem hello_of_other_type :
    ¬ ∀ (options : HelloOptions) (localType : ℤ) (chunks : List (List UInt8))
      (trailing : List UInt8), chunks.flatten = buildHelloFrame options ++ trailing →
      ∃ s, runHello localType .start [] chunks =
        some (.done (.accepted options.type.toInt options.identity), trailing, s) := by
  intro h
  have hflatten : [buildHelloFrame dealerOptions].flatten =
      buildHelloFrame dealerOptions ++ [] := rfl
  obtain ⟨s, haccepted⟩ := h dealerOptions coreSocketPub _ _ hflatten
  have hfailed := runHello_build dealerOptions coreSocketPub hflatten
  rw [haccepted, Option.some.injEq, Prod.mk.injEq, HelloProgress.done.injEq] at hfailed
  have hverdict : builtVerdict dealerOptions coreSocketPub =
      .failed zmpErrorSocketTypeMismatch none false := by
    rw [builtVerdict, if_neg (by decide)]
  rw [hverdict] at hfailed
  cases hfailed.1

end Zlink.Protocol
