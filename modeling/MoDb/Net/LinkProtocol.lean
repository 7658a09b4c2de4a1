import MoDb.Net.FrameCodec

/-!
# The frames of a link

A frame is the number of a session, and a frame of the client's protocol or a control of the link. The
kinds of the controls start at 0x80, which the client's protocol never uses; the opening of the link
belongs to session 0, and everything else to the sessions of the clients.
-/

namespace MoDb.Net.LinkProtocol

open Storage Wire

def linkVersion : UInt16 := 1

def linkControlSession : UInt32 := 0

def maxLinkRoles : Nat := 256

def maxLinkAttributes : Nat := 256

def maxLinkOperations : Nat := 65535

/-- `ErrorCode::connection_closed`. -/
def connectionClosedCode : WireCode := 47

/-! ### Controls -/

structure LinkHello where
  version : UInt16 := linkVersion
  proxyName : Bytes := []
  secret : Bytes := []
  deriving DecidableEq, Repr

structure LinkHelloOk where
  version : UInt16 := linkVersion
  ok : Bool := true
  code : WireCode := invalidArgumentCode
  message : Bytes := []
  protocolMajor : UInt16 := Net.protocolMajor
  protocolMinor : UInt16 := Net.protocolMinor
  baseline : UInt64 := 0
  databaseName : Bytes := []
  maxConcurrentStreams : UInt16 := defaultMaxConcurrentStreams
  /-- The operations of the engine, and whether each one only reads. -/
  operations : List (Bytes × Bool) := []
  deriving DecidableEq, Repr

structure SessionOpen where
  clientMinor : UInt16 := Net.protocolMinor
  principal : Bytes := []
  roles : List Bytes := []
  attributes : List (Bytes × Bytes) := []
  deriving DecidableEq, Repr

structure SessionOpenOk where
  ok : Bool := true
  code : WireCode := invalidArgumentCode
  message : Bytes := []
  deriving DecidableEq, Repr

structure SessionClose where
  code : WireCode := connectionClosedCode
  message : Bytes := []
  deriving DecidableEq, Repr

structure StreamCredit where
  queryId : UInt32 := 0
  frames : UInt32 := 0
  deriving DecidableEq, Repr

inductive LinkControl
  | linkHello (body : LinkHello)
  | linkHelloOk (body : LinkHelloOk)
  | sessionOpen (body : SessionOpen)
  | sessionOpenOk (body : SessionOpenOk)
  | sessionClose (body : SessionClose)
  | streamCredit (body : StreamCredit)
  deriving DecidableEq, Repr

/-- `LinkMessageType`. -/
def LinkControl.type : LinkControl → UInt8
  | .linkHello _ => 0x81
  | .linkHelloOk _ => 0x82
  | .sessionOpen _ => 0x83
  | .sessionOpenOk _ => 0x84
  | .sessionClose _ => 0x85
  | .streamCredit _ => 0x86

inductive LinkBody
  | message (message : Message)
  | control (control : LinkControl)
  deriving DecidableEq

structure LinkFrame where
  session : UInt32 := linkControlSession
  body : LinkBody
  deriving DecidableEq

/-! ### Parts -/

def writeString (text : Bytes) : Except Error Bytes := do
  require (text.length ≤ maxStringBytes) .valueTooLarge "link string exceeds max_string_bytes"
  pure (storeLe 4 text.length ++ text)

def readString : BinaryReader Bytes := do
  let length ← readU32
  require (length.toNat ≤ maxStringBytes) .protocolError "link string length exceeds limit"
  readBytes length.toNat

def readBool (what : String) : BinaryReader Bool := do
  let raw ← readU8
  require (raw.toNat ≤ 1) .protocolError (what ++ " must be 0 or 1")
  pure (raw = 1)

def writeOperation (operation : Bytes × Bool) : Except Error Bytes := do
  let id ← writeString operation.1
  pure (id ++ [writeFlag operation.2])

def readOperation : BinaryReader (Bytes × Bool) := do
  let id ← readString
  let readOnly ← readBool "operation read_only"
  pure (id, readOnly)

def writeAttribute (entry : Bytes × Bytes) : Except Error Bytes := do
  let key ← writeString entry.1
  let value ← writeString entry.2
  pure (key ++ value)

def readAttribute : BinaryReader (Bytes × Bytes) := do
  let key ← readString
  let value ← readString
  pure (key, value)

/-! ### The controls, without their kind -/

def encodeLinkHello (message : LinkHello) : Except Error Bytes := do
  let proxyName ← writeString message.proxyName
  let secret ← writeString message.secret
  pure (writeU16 message.version ++ (proxyName ++ secret))

def decodeLinkHello : BinaryReader LinkHello := do
  let version ← readU16
  let proxyName ← readString
  let secret ← readString
  pure { version, proxyName, secret }

def encodeLinkHelloOk (message : LinkHelloOk) : Except Error Bytes := do
  let text ← writeString message.message
  let databaseName ← writeString message.databaseName
  require (message.operations.length ≤ maxLinkOperations) .valueTooLarge "too many operations in LinkHelloOk"
  let operations ← writeMany writeOperation message.operations
  pure (writeU16 message.version ++ ([writeFlag message.ok] ++ (writeU16 message.code ++ (text ++
    (writeU16 message.protocolMajor ++ (writeU16 message.protocolMinor ++ (writeU64 message.baseline ++
      (databaseName ++ (writeU16 message.maxConcurrentStreams ++
        (storeLe 4 message.operations.length ++ operations))))))))))

def decodeLinkHelloOk : BinaryReader LinkHelloOk := do
  let version ← readU16
  let ok ← readBool "LinkHelloOk ok"
  let code ← readU16
  let message ← readString
  let protocolMajor ← readU16
  let protocolMinor ← readU16
  let baseline ← readU64
  let databaseName ← readString
  let maxConcurrentStreams ← readU16
  let count ← readU32
  require (count.toNat ≤ maxLinkOperations) .protocolError "LinkHelloOk has too many operations"
  let operations ← readMany readOperation count.toNat
  pure { version, ok, code, message, protocolMajor, protocolMinor, baseline, databaseName,
         maxConcurrentStreams, operations }

def encodeSessionOpen (message : SessionOpen) : Except Error Bytes := do
  require (message.roles.length ≤ maxLinkRoles ∧ message.attributes.length ≤ maxLinkAttributes) .valueTooLarge
    "too many roles or attributes"
  let principal ← writeString message.principal
  let roles ← writeMany writeString message.roles
  let attributes ← writeMany writeAttribute message.attributes
  pure (writeU16 message.clientMinor ++ (principal ++ (storeLe 2 message.roles.length ++ (roles ++
    (storeLe 2 message.attributes.length ++ attributes)))))

def decodeSessionOpen : BinaryReader SessionOpen := do
  let clientMinor ← readU16
  let principal ← readString
  let roleCount ← readU16
  require (roleCount.toNat ≤ maxLinkRoles) .protocolError "SessionOpen has too many roles"
  let roles ← readMany readString roleCount.toNat
  let attributeCount ← readU16
  require (attributeCount.toNat ≤ maxLinkAttributes) .protocolError "SessionOpen has too many attributes"
  let attributes ← readMany readAttribute attributeCount.toNat
  pure { clientMinor, principal, roles, attributes }

def encodeSessionOpenOk (message : SessionOpenOk) : Except Error Bytes := do
  let text ← writeString message.message
  pure ([writeFlag message.ok] ++ (writeU16 message.code ++ text))

def decodeSessionOpenOk : BinaryReader SessionOpenOk := do
  let ok ← readBool "SessionOpenOk ok"
  let code ← readU16
  let message ← readString
  pure { ok, code, message }

def encodeSessionClose (message : SessionClose) : Except Error Bytes := do
  let text ← writeString message.message
  pure (writeU16 message.code ++ text)

def decodeSessionClose : BinaryReader SessionClose := do
  let code ← readU16
  let message ← readString
  pure { code, message }

def encodeStreamCredit (message : StreamCredit) : Bytes := writeU32 message.queryId ++ writeU32 message.frames

def decodeStreamCredit : BinaryReader StreamCredit := do
  let queryId ← readU32
  let frames ← readU32
  pure { queryId, frames }

/-- The fields that `encode_control` writes after the kind. -/
def encodeFields : LinkControl → Except Error Bytes
  | .linkHello body => encodeLinkHello body
  | .linkHelloOk body => encodeLinkHelloOk body
  | .sessionOpen body => encodeSessionOpen body
  | .sessionOpenOk body => encodeSessionOpenOk body
  | .sessionClose body => encodeSessionClose body
  | .streamCredit body => .ok (encodeStreamCredit body)

def encodeControl (control : LinkControl) : Except Error Bytes := do
  let fields ← encodeFields control
  pure (control.type :: fields)

def decodeControl (type : UInt8) : BinaryReader LinkControl :=
  if type = 0x81 then LinkControl.linkHello <$> decodeLinkHello
  else if type = 0x82 then LinkControl.linkHelloOk <$> decodeLinkHelloOk
  else if type = 0x83 then LinkControl.sessionOpen <$> decodeSessionOpen
  else if type = 0x84 then LinkControl.sessionOpenOk <$> decodeSessionOpenOk
  else if type = 0x85 then LinkControl.sessionClose <$> decodeSessionClose
  else if type = 0x86 then LinkControl.streamCredit <$> decodeStreamCredit
  else throw ⟨.protocolError, "unknown link message type"⟩

/-! ### Frames -/

def isLinkScoped : LinkControl → Bool
  | .linkHello _ => true
  | .linkHelloOk _ => true
  | _ => false

def checkSession (frame : LinkFrame) : Except Error Unit :=
  match frame.body with
  | .control control =>
    require (isLinkScoped control = decide (frame.session = linkControlSession)) .protocolError
      (if frame.session = linkControlSession then "session message on the link control session"
      else "link message on a client session")
  | .message _ =>
    require (frame.session ≠ linkControlSession) .protocolError "client message on the link control session"

def encodeBody : LinkBody → Except Error Bytes
  | .message message => encodeMessage message
  | .control control => do
    let bytes ← encodeControl control
    require (bytes.length ≤ maxFrameBytes) .frameTooLarge "link frame exceeds max_frame_bytes"
    pure (storeLe 4 bytes.length ++ bytes)

def encodeLinkFrame (frame : LinkFrame) : Except Error Bytes := do
  checkSession frame
  let bytes ← encodeBody frame.body
  pure (writeU32 frame.session ++ bytes)

def decodeControlFrame (type : UInt8) (fields : Bytes) : Except Error LinkControl := do
  let (control, rest) ← decodeControl type fields
  require (rest = []) .trailingData "bytes remain after link message"
  pure control

def decodeBody (bytes : Bytes) : Except Error LinkBody :=
  let length := loadLe (bytes.take 4)
  match bytes.drop 4 with
  | [] => .error ⟨.unexpectedEndOfInput, "link frame truncated"⟩
  | type :: fields =>
    if length ≤ maxFrameBytes then
      if 0x80 ≤ type.toNat then
        if bytes.length = 4 + length then LinkBody.control <$> decodeControlFrame type fields
        else .error ⟨if bytes.length < 4 + length then .unexpectedEndOfInput else .trailingData,
          "link frame length does not match its bytes"⟩
      else LinkBody.message <$> decodeMessage bytes maxFrameBytes defaultMaxExpansionRatio.toNat
    else .error ⟨.frameTooLarge, "link frame length exceeds max"⟩

def decodeLinkFrame (bytes : Bytes) : Except Error LinkFrame := do
  let body ← decodeBody (bytes.drop 4)
  let frame : LinkFrame := ⟨UInt32.ofNat (loadLe (bytes.take 4)), body⟩
  checkSession frame
  pure frame

end MoDb.Net.LinkProtocol
