import Zlink.ServiceWire.Fields

/-!
# The application payload of the service wire

A payload is the bytes of a packet, or the parts of a framework multipart, and may carry the
flow it belongs to. Its envelope has a version that says whether the flow is there. The parts
of a multipart are read in four places: by the part decoders, by the comparison of parts with
bytes, and by the two counters of the high-water marks.
-/

namespace Zlink.ServiceWire

open BigEndian Codec

inductive FlowOrigin where
  | inbound
  | timer
  | application
  | lifecycle
  deriving DecidableEq

def FlowOrigin.toByte : FlowOrigin → UInt8
  | inbound => 1
  | timer => 2
  | application => 3
  | lifecycle => 4

/-- `valid_flow_origin` and the cast behind it. -/
def FlowOrigin.ofByte? (value : UInt8) : Option FlowOrigin :=
  if value = 1 then some inbound
  else if value = 2 then some timer
  else if value = 3 then some application
  else if value = 4 then some lifecycle
  else none

def multipartPacketName : Text :=
  ascii "ZLinkFrameworkMultipart"

def multipartContentType : Text :=
  ascii "application/x-zlink-multipart"

inductive PayloadBody where
  | bytes (packetName contentType : Text) (payload : List UInt8)
  | parts (first : List UInt8) (others : List (List UInt8))
  deriving DecidableEq

structure ApplicationPayload where
  body : PayloadBody
  flowId : Option Text
  flowOrigin : Option FlowOrigin
  deriving DecidableEq

namespace ApplicationPayload

def packetName (payload : ApplicationPayload) : Text :=
  match payload.body with
  | .bytes packetName _ _ => packetName
  | .parts _ _ => multipartPacketName

def contentType (payload : ApplicationPayload) : Text :=
  match payload.body with
  | .bytes _ contentType _ => contentType
  | .parts _ _ => multipartContentType

end ApplicationPayload

/-- `framework_multipart_profile`. -/
def multipartProfile (packetName contentType : Text) : Bool :=
  packetName = multipartPacketName && contentType = multipartContentType

def uuidTextSeparators : List ℕ :=
  [8, 13, 18, 23]

def isLowercaseHex (b : UInt8) : Bool :=
  (0x30 ≤ b && b ≤ 0x39) || (0x61 ≤ b && b ≤ 0x66)

def isLowercaseUuidText (value : Text) : Bool :=
  value.length = 36 && value.zipIdx.all fun (b, index) =>
      if index ∈ uuidTextSeparators then b = 0x2d else isLowercaseHex b

/-- `flow_id_t::is_valid`: a UUID of version 7 and of the standard variant. -/
def flowIdValid (value : Text) : Bool :=
  isLowercaseUuidText value && value[14]? = some 0x37 &&
    value[19]?.any fun b => b = 0x38 || b = 0x39 || b = 0x61 || b = 0x62

/-- The parts that `read_application_parts_bytes` hands out one after the other. -/
def readParts : ℕ → Reader (List (List UInt8))
  | 0 => pure []
  | count + 1 => do
      rejectIf ((← get).length < 4) "framework multipart payload is truncated"
      let size ← readU32
      let part ← Reader.take size.toNat "framework multipart part is truncated"
      let others ← readParts count
      pure (part :: others)

/-- `read_application_parts_bytes`. -/
def readApplicationParts : Reader (List (List UInt8)) := do
  rejectIf ((← get).length < 4) "framework multipart payload is truncated"
  let count ← readU32
  rejectIf (count = 0 ∨ (← get).length / 4 < count.toNat)
    "framework multipart part count is invalid"
  let parts ← readParts count.toNat
  Reader.finish "framework multipart payload has trailing bytes"
  pure parts

/-- The loop of both `application_payload_hwm_bytes`, which counts the last part alone. -/
def countParts : ℕ → ℕ → Reader ℕ
  | 0, applicationBytes => pure applicationBytes
  | count + 1, applicationBytes => do
      let partBytes ← readU32
      let _ ← Reader.take partBytes.toNat "framework multipart part is truncated"
      countParts count (if count = 0 then partBytes.toNat else applicationBytes)

def multipartHwmBytes : Reader ℕ := do
  let count ← readU32
  rejectIf (count = 0 ∨ (← get).length / 4 < count.toNat)
    "framework multipart part count is invalid"
  let applicationBytes ← countParts count.toNat 0
  Reader.finish "framework multipart payload has trailing bytes"
  pure applicationBytes

def storesParts : List (List UInt8) → List UInt8 → Bool
  | [], bytes => bytes = []
  | part :: parts, bytes =>
    4 ≤ bytes.length && valueOf (bytes.take 4) = part.length &&
      part.length ≤ (bytes.drop 4).length && (bytes.drop 4).take part.length = part &&
      storesParts parts ((bytes.drop 4).drop part.length)

def storesMultipart (parts : List (List UInt8)) (bytes : List UInt8) : Bool :=
  4 ≤ bytes.length && valueOf (bytes.take 4) = parts.length && storesParts parts (bytes.drop 4)

namespace ApplicationPayload

/-- `operator==`. Parts are equal to the bytes that store them. -/
def equals (left right : ApplicationPayload) : Bool :=
  if left.packetName ≠ right.packetName ∨ left.contentType ≠ right.contentType ∨
      left.flowId ≠ right.flowId ∨ left.flowOrigin ≠ right.flowOrigin then false
  else
    match left.body, right.body with
    | .bytes _ _ payload, .bytes _ _ payload' => payload = payload'
    | .parts first others, .parts first' others' => first :: others = first' :: others'
    | .parts first others, .bytes _ _ payload => storesMultipart (first :: others) payload
    | .bytes _ _ payload, .parts first others => storesMultipart (first :: others) payload

/-- The sum of the loop over the parts in `encode_application_payload_into`. -/
def sizeOfParts : ℕ → List (List UInt8) → Except String ℕ
  | size, [] => pure size
  | size, part :: parts => do
      rejectIf (maxU32 < part.length) "framework multipart part is too large"
      rejectIf (maxU32 < size + (4 + part.length)) "application payload exceeds u32"
      sizeOfParts (size + (4 + part.length)) parts

def payloadSize : PayloadBody → Except String ℕ
  | .parts first others => do
      rejectIf (maxU32 < (first :: others).length) "framework multipart part count is too large"
      sizeOfParts 4 (first :: others)
  | .bytes _ _ payload => pure payload.length

def partFields (part : List UInt8) : List Written :=
  [u32 (.ofNat part.length), .ok part]

def bodyFields : PayloadBody → List Written
  | .parts first others =>
    u32 (.ofNat (first :: others).length) :: (first :: others).flatMap partFields
  | .bytes _ _ payload => [.ok payload]

variable (payload : ApplicationPayload)

def flowFields : List Written :=
  match payload.flowId, payload.flowOrigin with
  | some flowId, some flowOrigin => [text8 "flow id" flowId, u8 flowOrigin.toByte]
  | _, _ => []

/-- `encode_application_payload_into`. -/
def draft : Except String Draft := do
  rejectIf (payload.flowId.isSome ≠ payload.flowOrigin.isSome)
    "application payload flow id and origin must be present together"
  rejectIf (payload.flowId.any fun flowId => !flowIdValid flowId)
    "application payload flow id is invalid"
  let payloadSize ← payloadSize payload.body
  let bodySize := 6 + payload.packetName.length + payload.contentType.length + payloadSize +
    payload.flowId.elim 0 fun flowId => 2 + flowId.length
  rejectIf (maxU32 < bodySize) "application payload envelope exceeds u32"
  pure
    { size := 5 + bodySize
      fields :=
        [u8 (if payload.flowId.isSome then 2 else 1), u32 (.ofNat bodySize),
          text8 "packet name" payload.packetName, text8 "content type" payload.contentType,
          u32 (.ofNat payloadSize)] ++ bodyFields payload.body ++ payload.flowFields }

/-- `encode_application_payload`. -/
def encode : Written := do
  (← payload.draft).grown

/-- `encode_application_payload_message`. -/
def encodeMessage : Written := do
  (← payload.draft).native

end ApplicationPayload

/-- What `decode_application_payload_bytes` finds in an envelope. -/
structure Envelope where
  packetName : Text
  contentType : Text
  body : List UInt8
  flow : Option (Text × FlowOrigin)

/-- The origin of a flow by its byte, with the check of `valid_flow_origin`. -/
def originOf (value : UInt8) : Reader FlowOrigin :=
  match FlowOrigin.ofByte? value with
  | some flowOrigin => pure flowOrigin
  | none => throw "application payload flow context is invalid"

def readFlow : Reader (Text × FlowOrigin) := do
  let flowId ← readText8 "flow id"
  rejectIf (!flowIdValid flowId) "application payload flow context is invalid"
  let flowOrigin ← originOf (← Reader.byte "application payload flow context is invalid")
  pure (flowId, flowOrigin)

def skipFlow : Reader Unit := do
  let flowLength ← Reader.byte "truncated flow id"
  rejectIf (flowLength = 0) "invalid flow id"
  let _ ← Reader.take (flowLength.toNat + 1) "invalid flow id"
  pure ()

def readFlowField (version : UInt8) (captureFlow : Bool) : Reader (Option (Text × FlowOrigin)) :=
  if version = 2 then
    if captureFlow then some <$> readFlow else (fun _ => none) <$> skipFlow
  else pure none

/-- `decode_application_payload_bytes`. -/
def readEnvelope (captureFlow : Bool) : Reader Envelope := do
  let bytes ← get
  rejectIf (bytes.length < 5 ∨ bytes[0]? ≠ some 1 ∧ bytes[0]? ≠ some 2)
    "invalid application payload version"
  let version ← Reader.byte "invalid application payload version"
  let bodyLength ← readU32
  rejectIf (bodyLength.toNat ≠ (← get).length)
    "application payload body length does not match frame"
  let packetName ← readText8 "packet name"
  let contentType ← readText8 "content type"
  let payloadLength ← readU32
  let body ← Reader.take payloadLength.toNat "application payload length does not match frame"
  let flow ← readFlowField version captureFlow
  Reader.finish "application payload has trailing fields"
  pure { packetName, contentType, body, flow }

variable (bytes : List UInt8)

def decodeEnvelope (captureFlow : Bool) : Except String Envelope :=
  (readEnvelope captureFlow).parse bytes

def Envelope.payload (envelope : Envelope) : ApplicationPayload :=
  { body := .bytes envelope.packetName envelope.contentType envelope.body
    flowId := envelope.flow.map Prod.fst
    flowOrigin := envelope.flow.map Prod.snd }

def decodeApplicationPayload (captureFlow : Bool) : Except String ApplicationPayload := do
  pure (← decodeEnvelope bytes captureFlow).payload

/-- `decode_application_parts` of a payload. -/
def decodeApplicationParts (payload : ApplicationPayload) : Except String (List (List UInt8)) := do
  rejectIf (!multipartProfile payload.packetName payload.contentType)
    "framework application payload profile is unsupported"
  match payload.body with
  | .parts first others => pure (first :: others)
  | .bytes _ _ bytes => readApplicationParts.parse bytes

/-- `decode_application_parts` and the part views of an encoded payload. -/
def decodeApplicationPartsWith (captureFlow : Bool) : Except String (List (List UInt8)) := do
  let envelope ← decodeEnvelope bytes captureFlow
  rejectIf (!multipartProfile envelope.packetName envelope.contentType)
    "framework application payload profile is unsupported"
  readApplicationParts.parse envelope.body

/-- `application_payload_hwm_bytes` of a payload. -/
def applicationPayloadHwmBytes (payload : ApplicationPayload) : Except String ℕ :=
  match payload.body with
  | .parts first others => pure ((first :: others).getLast (List.cons_ne_nil _ _)).length
  | .bytes packetName contentType bytes =>
    if !multipartProfile packetName contentType then pure bytes.length
    else multipartHwmBytes.parse bytes

def skipFlowField (version : UInt8) : Reader Unit :=
  if version = 2 then skipFlow else pure ()

/-- The names and the body that `application_payload_hwm_bytes` finds in an encoded payload. -/
def readApplication : Reader (Text × Text × List UInt8) := do
  let bytes ← get
  rejectIf (bytes.length < 5 ∨ bytes[0]? ≠ some 1 ∧ bytes[0]? ≠ some 2)
    "invalid application payload version"
  let version ← Reader.byte "invalid application payload version"
  let bodyLength ← readU32
  rejectIf (bodyLength.toNat ≠ (← get).length)
    "application payload body length does not match frame"
  let packetName ← readText8 "packet name"
  let contentType ← readText8 "content type"
  let payloadLength ← readU32
  let application ←
    Reader.take payloadLength.toNat "application payload length does not match frame"
  skipFlowField version
  Reader.finish "application payload has trailing fields"
  pure (packetName, contentType, application)

/-- `application_payload_hwm_bytes` of an encoded payload. -/
def encodedPayloadHwmBytes : Except String ℕ := do
  let (packetName, contentType, application) ← readApplication.parse bytes
  if packetName ≠ multipartPacketName ∨ contentType ≠ multipartContentType then
    pure application.length
  else multipartHwmBytes.parse application

end Zlink.ServiceWire
