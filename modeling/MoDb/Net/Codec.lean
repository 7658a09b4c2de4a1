import MoDb.Lib.Wire
import MoDb.Net.Message
import MoDb.Net.Rle

/-!
# The codec of the protocol

A frame is the length of what follows, the kind of the message in one byte, and its payload. What
later minors of the protocol added stands at the end of a payload and may be missing.
-/

namespace MoDb.Net

open Storage Wire

abbrev BinaryReader := Wire.Reader UInt8 Error

/-! ### Integers and bytes -/

def writeU16 (value : UInt16) : Bytes := storeLe 2 value.toNat

def writeU32 (value : UInt32) : Bytes := storeLe 4 value.toNat

def writeU64 (value : UInt64) : Bytes := storeLe 8 value.toNat

/-- `incomplete_input`. -/
def incompleteInput (requested available : Nat) : Error :=
  ⟨.unexpectedEndOfInput,
    s!"binary input requires {requested} bytes but only {available} remain"⟩

def readBytes (size : Nat) : BinaryReader Bytes := Wire.take incompleteInput size

def readU8 : BinaryReader UInt8 := do
  let bytes ← readBytes 1
  pure (UInt8.ofNat (loadLe bytes))

def readU16 : BinaryReader UInt16 := do
  let bytes ← readBytes 2
  pure (UInt16.ofNat (loadLe bytes))

def readU32 : BinaryReader UInt32 := do
  let bytes ← readBytes 4
  pure (UInt32.ofNat (loadLe bytes))

def readU64 : BinaryReader UInt64 := do
  let bytes ← readBytes 8
  pure (UInt64.ofNat (loadLe bytes))

/-- `read_bytes` after the check that the message makes itself. -/
def readSized (code : ErrorCode) (message : String) (size : Nat) : BinaryReader Bytes :=
  Wire.takeSized ⟨code, message⟩ incompleteInput size

def require (condition : Prop) [Decidable condition] (code : ErrorCode) (message : String) :
    Except Error Unit :=
  if condition then .ok ⟨⟩ else .error ⟨code, message⟩

/-! ### Parts -/

def writeString (text : Bytes) : Except Error Bytes := do
  require (text.length ≤ maxStringBytes) .valueTooLarge "protocol string exceeds max_string_bytes"
  pure (storeLe 4 text.length ++ text)

def readString : BinaryReader Bytes := do
  let length ← readU32
  require (length.toNat ≤ maxStringBytes) .protocolError "protocol string length exceeds limit"
  readSized .unexpectedEndOfInput "truncated bytes truncated" length.toNat

def writeCompressionList (codecs : List Compression) : Except Error Bytes := do
  require (codecs.length ≤ 255) .valueTooLarge "too many compression codecs"
  pure (UInt8.ofNat codecs.length :: codecs)

def readCompressionList : BinaryReader (List Compression) := do
  let count ← readU8
  let left ← remaining
  require (count.toNat ≤ left) .unexpectedEndOfInput "compression list truncated"
  readMany readU8 count.toNat

def skipRest : BinaryReader Unit := fun _ => .ok (⟨⟩, [])

/-- `encode_value`. -/
def writeValue (value : Store.AttributeValue) : Except Error Bytes :=
  match value with
  | .null => pure [0]
  | .boolean flag => pure [1, if flag then 1 else 0]
  | .int64 bits => pure (2 :: storeLe 8 bits.toNat)
  | .float64 bits => pure (3 :: storeLe 8 bits.toNat)
  | .string text => do
    require (text.length < 2 ^ 32) .valueTooLarge "string is too large to encode"
    pure (4 :: (storeLe 4 text.length ++ text))
  | .bytes data => do
    require (data.length < 2 ^ 32) .valueTooLarge "byte string is too large to encode"
    pure (5 :: (storeLe 4 data.length ++ data))
  | .ref id => pure (6 :: storeLe 8 id)
  | .blob id => pure (7 :: storeLe 8 id)
  | .embedded payload => do
    require (payload.length < 2 ^ 32) .valueTooLarge "embedded object is too large to encode"
    pure (8 :: (storeLe 4 payload.length ++ payload))

/-- A value read from bytes: its ids are 64 bits. -/
abbrev ReadValue := { value : Store.AttributeValue // idsFit value = true }

/-- `decode_value`. -/
def readValue : BinaryReader ReadValue := do
  let tag ← readU8
  if tag = 0 then pure ⟨.null, rfl⟩
  else if tag = 1 then do
    let raw ← readU8
    require (raw.toNat ≤ 1) .invalidEncoding "BOOLEAN must be encoded as 0 or 1"
    pure ⟨.boolean (raw ≠ 0), rfl⟩
  else if tag = 2 then do
    let raw ← readU64
    pure ⟨.int64 (BitVec.ofNat 64 raw.toNat), rfl⟩
  else if tag = 3 then do
    let raw ← readU64
    pure ⟨.float64 (BitVec.ofNat 64 raw.toNat), rfl⟩
  else if tag = 4 then do
    let length ← readU32
    let data ← readBytes length.toNat
    pure ⟨.string data, rfl⟩
  else if tag = 5 then do
    let length ← readU32
    let data ← readBytes length.toNat
    pure ⟨.bytes data, rfl⟩
  else if tag = 6 then do
    let raw ← readU64
    pure ⟨.ref raw.toNat, decide_eq_true raw.toNat_lt⟩
  else if tag = 7 then do
    let raw ← readU64
    pure ⟨.blob raw.toNat, decide_eq_true raw.toNat_lt⟩
  else if tag = 8 then do
    let length ← readU32
    let data ← readBytes length.toNat
    pure ⟨.embedded data, rfl⟩
  else throw ⟨.invalidEncoding, "unknown attribute tag"⟩

def writeEquals : Option EqualityFilter → Except Error Bytes
  | none => pure [0]
  | some filter => do
    let value ← writeValue filter.value
    pure (1 :: (writeU16 filter.field ++ value))

def readEquals : BinaryReader (Option EqualityFilter) := do
  let hasEquals ← readU8
  require (hasEquals.toNat ≤ 1) .protocolError "QueryDescription has_equals must be 0 or 1"
  if hasEquals = 1 then do
    let field ← readU16
    let value ← readValue
    pure (some ⟨field, value.1, value.2⟩)
  else pure none

def encodeQueryDescription (description : QueryDescription) : Except Error Bytes := do
  let equals ← writeEquals description.equals
  require (description.project.length ≤ 65535) .valueTooLarge "QueryDescription project list too large"
  pure (writeU64 description.type ++ writeU64 description.limit ++ equals ++
    storeLe 2 description.project.length ++ description.project.flatMap writeU16)

def decodeQueryDescription : BinaryReader QueryDescription := do
  let type ← readU64
  let limit ← readU64
  let equals ← readEquals
  let projectCount ← readU16
  let left ← remaining
  require (projectCount.toNat * 2 ≤ left) .unexpectedEndOfInput "QueryDescription project truncated"
  let project ← readMany readU16 projectCount.toNat
  pure { type, limit, equals, project }

/-! ### The extension of minor 3 -/

def writeAttribute (entry : Bytes × Bytes) : Except Error Bytes := do
  let key ← writeString entry.1
  let value ← writeString entry.2
  pure (key ++ value)

def readAttribute : BinaryReader (Bytes × Bytes) := do
  let name ← readString
  let value ← readString
  pure (name, value)

def writeActingAs (actingAs : Delegation) : Except Error Bytes := do
  require (actingAs.attributes.length ≤ maxDelegationAttributes) .valueTooLarge
    "too many delegation attributes"
  let subject ← writeString actingAs.subject
  let attributes ← writeMany writeAttribute actingAs.attributes
  pure (subject ++ UInt8.ofNat actingAs.attributes.length :: attributes)

def readActingAs : BinaryReader Delegation := do
  let subject ← readString
  require (subject ≠ []) .protocolError "delegation without a subject"
  let count ← readU8
  require (count.toNat ≤ maxDelegationAttributes) .protocolError "too many delegation attributes"
  let attributes ← readMany readAttribute count.toNat
  pure { subject, attributes }

def writeIdempotencyKey (key : Bytes) : Except Error Bytes := do
  require (key.length ≤ maxIdempotencyKeyBytes) .valueTooLarge "idempotency key is too long"
  writeString key

def readIdempotencyKey : BinaryReader Bytes := do
  let text ← readString
  require (text ≠ [] ∧ text.length ≤ maxIdempotencyKeyBytes) .protocolError
    "idempotency key must have 1 to 128 bytes"
  pure text

def encodeExtension (actingAs : Delegation) (idempotencyKey : Bytes) : Except Error Bytes := do
  let flags : UInt8 := (if actingAs.subject ≠ [] then 1 else 0) ||| (if idempotencyKey ≠ [] then 2 else 0)
  if flags = 0 then do
    require (actingAs.attributes = []) .invalidArgument "delegation attributes without a subject"
    pure []
  else do
    let body ← (if flags &&& 1 ≠ 0 then writeActingAs actingAs else pure [])
    let key ← (if flags &&& 2 ≠ 0 then writeIdempotencyKey idempotencyKey else pure [])
    pure (flags :: (body ++ key))

/-- `hasKey`: the message takes an idempotency key. -/
def decodeExtension (hasKey : Bool) : BinaryReader (Delegation × Bytes) := do
  let left ← remaining
  if left = 0 then pure ({}, [])
  else do
    let flags ← readU8
    require (flags ≠ 0 ∧ flags.toNat < if hasKey then 4 else 2) .protocolError
      "unknown request extension flags"
    let actingAs ← (if flags &&& 1 ≠ 0 then readActingAs else pure {})
    let key ← (if flags &&& 2 ≠ 0 then readIdempotencyKey else pure [])
    pure (actingAs, key)

/-! ### Messages with a fixed layout -/

def encodeHello (message : Hello) : Except Error Bytes := do
  let name ← writeString message.databaseName
  let codecs ← writeCompressionList message.acceptedCodecs
  pure (writeU16 message.version ++ name ++ codecs ++ writeU16 message.minor)

def decodeHello : BinaryReader Hello := do
  let version ← readU16
  let databaseName ← readString
  let acceptedCodecs ← readCompressionList
  let left ← remaining
  let minor ← (if 2 ≤ left then readU16 else pure 0)
  skipRest
  pure { version, minor, databaseName, acceptedCodecs }

def writeMechanisms (mechanisms : List Bytes) : Except Error Bytes :=
  if mechanisms ≠ [] then do
    require (mechanisms.length ≤ maxAuthMechanisms) .valueTooLarge "too many auth mechanisms"
    let bytes ← writeMany writeString mechanisms
    pure (UInt8.ofNat mechanisms.length :: bytes)
  else pure []

def readMechanisms : BinaryReader (List Bytes) := do
  let count ← readU8
  require (count.toNat ≤ maxAuthMechanisms) .protocolError "HelloOk has too many auth mechanisms"
  readMany readString count.toNat

def encodeHelloOk (message : HelloOk) : Except Error Bytes := do
  let mechanisms ← writeMechanisms message.authMechanisms
  pure (writeU16 message.version ++ writeU64 message.baseline ++ [message.selectedCodec] ++
    writeU32 message.maxFrameBytes ++ writeU16 message.maxConcurrentStreams ++
    writeU16 message.maxExpansionRatio ++ writeU32 message.idleTimeoutMs ++ writeU16 message.minor ++
    mechanisms)

def decodeHelloOk : BinaryReader HelloOk := do
  let version ← readU16
  let baseline ← readU64
  let selectedCodec ← readU8
  require (isKnownCompression selectedCodec) .protocolError "HelloOk selected unknown compression codec"
  let maxFrameBytes ← readU32
  let maxConcurrentStreams ← readU16
  let maxExpansionRatio ← readU16
  require (maxExpansionRatio ≠ 0) .protocolError "HelloOk max_expansion_ratio must be >= 1"
  let idleTimeoutMs ← readU32
  let left ← remaining
  let minor ← (if 2 ≤ left then readU16 else pure 0)
  let left ← remaining
  let authMechanisms ← (if 2 ≤ minor ∧ 0 < left then readMechanisms else pure [])
  skipRest
  pure { version, minor, baseline, selectedCodec, maxFrameBytes, maxConcurrentStreams,
         maxExpansionRatio, idleTimeoutMs, authMechanisms }

def encodeQuery (message : Query) : Except Error Bytes := do
  let description ← encodeQueryDescription message.description
  let extension ← encodeExtension message.actingAs []
  pure (writeU32 message.queryId ++ description ++ extension)

def decodeQuery : BinaryReader Query := do
  let queryId ← readU32
  let description ← decodeQueryDescription
  let extension ← decodeExtension false
  pure { queryId, description, actingAs := extension.1 }

def encodeStreamBegin (message : StreamBegin) : Bytes := writeU32 message.queryId

def decodeStreamBegin : BinaryReader StreamBegin := do
  let queryId ← readU32
  pure { queryId }

def encodeStreamEnd (message : StreamEnd) : Bytes := writeU32 message.queryId ++ writeU64 message.total

def decodeStreamEnd : BinaryReader StreamEnd := do
  let queryId ← readU32
  let total ← readU64
  pure { queryId, total }

def encodeStreamError (message : StreamError) : Except Error Bytes := do
  let text ← writeString message.message
  pure (writeU32 message.queryId ++ writeU16 message.code ++ text)

def decodeStreamError : BinaryReader StreamError := do
  let queryId ← readU32
  let code ← readU16
  let message ← readString
  pure { queryId, code, message }

def encodeCancel (message : Cancel) : Bytes := writeU32 message.queryId

def decodeCancel : BinaryReader Cancel := do
  let queryId ← readU32
  pure { queryId }

def encodeOpCall (message : OpCall) : Except Error Bytes := do
  let operation ← writeString message.operationId
  require (message.args.length ≤ maxFrameBytes) .valueTooLarge "OpCall args exceed max_frame_bytes"
  let extension ← encodeExtension message.actingAs message.idempotencyKey
  pure (writeU32 message.callId ++ operation ++ storeLe 4 message.args.length ++ message.args ++
    extension)

def decodeOpCall : BinaryReader OpCall := do
  let callId ← readU32
  let operationId ← readString
  let length ← readU32
  let args ← readSized .unexpectedEndOfInput "OpCall args truncated" length.toNat
  let extension ← decodeExtension true
  pure { callId, operationId, args, actingAs := extension.1, idempotencyKey := extension.2 }

def writeFlag (flag : Bool) : UInt8 := if flag then 1 else 0

def writeDetail (detail : Bytes) : Except Error Bytes :=
  if detail ≠ [] then do
    require (detail.length ≤ maxFrameBytes) .valueTooLarge "OpResult detail exceeds max_frame_bytes"
    pure (storeLe 4 detail.length ++ detail)
  else pure []

def readDetail : BinaryReader Bytes := do
  let left ← remaining
  if 0 < left then do
    let length ← readU32
    let left ← remaining
    require (length ≠ 0 ∧ length.toNat ≤ left) .protocolError "OpResult detail truncated or empty"
    readBytes length.toNat
  else pure []

def encodeOpResult (message : OpResult) : Except Error Bytes :=
  if message.ok then do
    require (message.payload.length ≤ maxFrameBytes) .valueTooLarge
      "OpResult payload exceeds max_frame_bytes"
    pure (writeU32 message.callId ++ [writeFlag message.ok] ++ storeLe 4 message.payload.length ++
      message.payload)
  else do
    let text ← writeString message.message
    let detail ← writeDetail message.detail
    pure (writeU32 message.callId ++ [writeFlag message.ok] ++ writeU16 message.code ++ text ++ detail)

def decodeOpResult : BinaryReader OpResult := do
  let callId ← readU32
  let ok ← readU8
  require (ok.toNat ≤ 1) .protocolError "OpResult ok must be 0 or 1"
  if ok = 1 then do
    let length ← readU32
    let payload ← readSized .unexpectedEndOfInput "OpResult payload truncated" length.toNat
    pure { callId, ok := true, payload }
  else do
    let code ← readU16
    let message ← readString
    let detail ← readDetail
    pure { callId, ok := false, code, message, detail }

def writeOperationMode : OperationMode → UInt8
  | .readOnly => 0
  | .readWrite => 1

def readOperationMode : BinaryReader OperationMode := do
  let mode ← readU8
  if mode = 0 then pure .readOnly
  else if mode = 1 then pure .readWrite
  else throw ⟨.protocolError, "MethodDescriptor mode is unknown"⟩

def encodeMethodDescriptor (method : MethodDescriptor) : Except Error Bytes := do
  let operation ← writeString method.operationId
  pure (operation ++ writeU32 method.methodVersion ++ [writeOperationMode method.mode])

def decodeMethodDescriptor : BinaryReader MethodDescriptor := do
  let operationId ← readString
  let methodVersion ← readU32
  let mode ← readOperationMode
  pure { operationId, methodVersion, mode }

def writeFacadeMode : FacadeMode → UInt8
  | .readOnly => 0
  | .readWrite => 1
  | .mixed => 2

def readFacadeMode : BinaryReader FacadeMode := do
  let mode ← readU8
  if mode = 0 then pure .readOnly
  else if mode = 1 then pure .readWrite
  else if mode = 2 then pure .mixed
  else throw ⟨.protocolError, "FacadeDescriptor mode is unknown"⟩

def encodeFacadeDescriptor (facade : FacadeDescriptor) : Except Error Bytes := do
  let id ← writeString facade.facadeId
  require (facade.methods.length ≤ 65535) .valueTooLarge "FacadeDescriptor has too many methods"
  let methods ← writeMany encodeMethodDescriptor facade.methods
  pure (id ++ writeU32 facade.facadeVersion ++ [writeFacadeMode facade.mode] ++
    storeLe 2 facade.methods.length ++ methods)

def decodeFacadeDescriptor : BinaryReader FacadeDescriptor := do
  let facadeId ← readString
  let facadeVersion ← readU32
  let mode ← readFacadeMode
  let count ← readU16
  let methods ← readMany decodeMethodDescriptor count.toNat
  pure { facadeId, facadeVersion, mode, methods }

def encodeFacadeList (message : FacadeList) : Except Error Bytes := do
  let extension ← encodeExtension message.actingAs []
  pure (writeU32 message.requestId ++ extension)

def decodeFacadeList : BinaryReader FacadeList := do
  let requestId ← readU32
  let extension ← decodeExtension false
  pure { requestId, actingAs := extension.1 }

def encodeFacadeListOk (message : FacadeListOk) : Except Error Bytes := do
  require (message.facades.length ≤ 65535) .valueTooLarge "FacadeListOk has too many facades"
  let facades ← writeMany encodeFacadeDescriptor message.facades
  pure (writeU32 message.requestId ++ storeLe 2 message.facades.length ++ facades)

def decodeFacadeListOk : BinaryReader FacadeListOk := do
  let requestId ← readU32
  let count ← readU16
  let facades ← readMany decodeFacadeDescriptor count.toNat
  pure { requestId, facades }

def encodeFacadeOpen (message : FacadeOpen) : Except Error Bytes := do
  let id ← writeString message.facadeId
  let extension ← encodeExtension message.actingAs []
  pure (writeU32 message.requestId ++ id ++ writeU32 message.facadeVersion ++ extension)

def decodeFacadeOpen : BinaryReader FacadeOpen := do
  let requestId ← readU32
  let facadeId ← readString
  let facadeVersion ← readU32
  let extension ← decodeExtension false
  pure { requestId, facadeId, facadeVersion, actingAs := extension.1 }

def writeFailure (code : WireCode) (message : Bytes) : Except Error Bytes := do
  let text ← writeString message
  pure (writeU16 code ++ text)

def readFailure : BinaryReader (WireCode × Bytes) := do
  let code ← readU16
  let message ← readString
  pure (code, message)

def encodeFacadeOpenOk (message : FacadeOpenOk) : Except Error Bytes := do
  let failure ← (if message.ok then pure [] else writeFailure message.code message.message)
  let id ← writeString message.facadeId
  pure (writeU32 message.requestId ++ [writeFlag message.ok] ++ failure ++ id ++
    writeU32 message.facadeVersion)

def decodeFacadeOpenOk : BinaryReader FacadeOpenOk := do
  let requestId ← readU32
  let ok ← readU8
  require (ok.toNat ≤ 1) .protocolError "FacadeOpenOk ok must be 0 or 1"
  let failure ← (if ok = 1 then pure (invalidArgumentCode, []) else readFailure)
  let facadeId ← readString
  let facadeVersion ← readU32
  pure { requestId, ok := ok = 1, code := failure.1, message := failure.2, facadeId, facadeVersion }

def encodeShmAttach (message : ShmAttach) : Bytes :=
  writeU32 message.requestId ++ writeU32 message.ringBytes

def decodeShmAttach : BinaryReader ShmAttach := do
  let requestId ← readU32
  let ringBytes ← readU32
  pure { requestId, ringBytes }

def writeShmRegionKind : ShmRegionKind → UInt8
  | .windowsNamedMapping => 1
  | .filePath => 2

def readShmRegionKind : BinaryReader ShmRegionKind := do
  let kind ← readU8
  if kind = 1 then pure .windowsNamedMapping
  else if kind = 2 then pure .filePath
  else throw ⟨.protocolError, "ShmAttachOk has unknown region kind"⟩

def encodeShmAttachOk (message : ShmAttachOk) : Except Error Bytes :=
  if message.ok then do
    let name ← writeString message.name
    pure (writeU32 message.requestId ++ [writeFlag message.ok] ++ [writeShmRegionKind message.kind] ++
      name ++ writeU32 message.ringBytes)
  else do
    let text ← writeString message.message
    pure (writeU32 message.requestId ++ [writeFlag message.ok] ++ writeU16 message.code ++ text)

def decodeShmAttachOk : BinaryReader ShmAttachOk := do
  let requestId ← readU32
  let ok ← readU8
  require (ok.toNat ≤ 1) .protocolError "ShmAttachOk ok must be 0 or 1"
  if ok = 1 then do
    let kind ← readShmRegionKind
    let name ← readString
    let ringBytes ← readU32
    pure { requestId, ok := true, kind, name, ringBytes }
  else do
    let code ← readU16
    let message ← readString
    pure { requestId, ok := false, code, message }

def encodeAuthenticate (message : Authenticate) : Except Error Bytes := do
  let mechanism ← writeString message.mechanism
  require (message.payload.length ≤ maxStringBytes) .valueTooLarge "Authenticate payload too large"
  pure (writeU32 message.requestId ++ mechanism ++ storeLe 4 message.payload.length ++ message.payload)

def decodeAuthenticate : BinaryReader Authenticate := do
  let requestId ← readU32
  let mechanism ← readString
  let length ← readU32
  require (length.toNat ≤ maxStringBytes) .protocolError "Authenticate payload length exceeds limit"
  let payload ← readBytes length.toNat
  pure { requestId, mechanism, payload }

def encodeAuthenticateOk (message : AuthenticateOk) : Except Error Bytes := do
  let text ← writeString message.message
  let principal ← writeString message.principal
  pure (writeU32 message.requestId ++ [writeFlag message.ok] ++ writeU16 message.code ++ text ++
    principal)

def decodeAuthenticateOk : BinaryReader AuthenticateOk := do
  let requestId ← readU32
  let ok ← readU8
  require (ok.toNat ≤ 1) .protocolError "AuthenticateOk ok must be 0 or 1"
  let code ← readU16
  let message ← readString
  let principal ← readString
  pure { requestId, ok := ok = 1, code, message, principal }

end MoDb.Net
