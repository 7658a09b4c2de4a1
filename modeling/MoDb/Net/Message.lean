import MoDb.Store.Value

/-!
# The messages of the protocol

A string is its bytes. A codec is the byte that names it, since a peer may know others; an error code
is its number.
-/

namespace MoDb.Net

open Storage (Bytes)

/-! ### Limits -/

def protocolMajor : UInt16 := 1

def protocolMinor : UInt16 := 3

def maxFrameBytes : Nat := 16 * 1024 * 1024

def maxStringBytes : Nat := 64 * 1024

def defaultMaxConcurrentStreams : UInt16 := 4

def defaultMaxExpansionRatio : UInt16 := 8

def defaultIdleTimeoutMs : UInt32 := 30000

def compressionMinBytes : Nat := 64

def maxDelegationAttributes : Nat := 32

def maxIdempotencyKeyBytes : Nat := 128

def maxAuthMechanisms : Nat := 16

/-! ### Parts of messages -/

abbrev Compression := UInt8

def Compression.none : Compression := 0

def Compression.rle : Compression := 1

/-- `is_known_compression`. -/
def isKnownCompression (codec : Compression) : Bool := codec = Compression.none ∨ codec = Compression.rle

/-- An `ErrorCode` as it is sent. -/
abbrev WireCode := UInt16

/-- `ErrorCode::invalid_argument`. -/
def invalidArgumentCode : WireCode := 1

structure Delegation where
  subject : Bytes := []
  attributes : List (Bytes × Bytes) := []
  deriving DecidableEq, Repr

def idsFit : Store.AttributeValue → Bool
  | .ref id => id < 2 ^ 64
  | .blob id => id < 2 ^ 64
  | _ => true

structure EqualityFilter where
  field : UInt16
  value : Store.AttributeValue
  fits : idsFit value = true
  deriving DecidableEq, Repr

structure QueryDescription where
  type : UInt64 := 0
  limit : UInt64 := 0
  equals : Option EqualityFilter := none
  project : List UInt16 := []
  deriving DecidableEq, Repr

structure ObjectEnvelope where
  objectId : UInt64 := 0
  typeDefinitionId : UInt64 := 0
  payload : Bytes := []
  deriving DecidableEq, Repr

inductive OperationMode
  | readOnly
  | readWrite
  deriving DecidableEq, Repr

inductive FacadeMode
  | readOnly
  | readWrite
  | mixed
  deriving DecidableEq, Repr

structure MethodDescriptor where
  operationId : Bytes := []
  methodVersion : UInt32 := 1
  mode : OperationMode := .readWrite
  deriving DecidableEq, Repr

structure FacadeDescriptor where
  facadeId : Bytes := []
  facadeVersion : UInt32 := 1
  mode : FacadeMode := .mixed
  methods : List MethodDescriptor := []
  deriving DecidableEq, Repr

inductive ShmRegionKind
  | windowsNamedMapping
  | filePath
  deriving DecidableEq, Repr

/-! ### Messages -/

structure Hello where
  version : UInt16 := protocolMajor
  minor : UInt16 := protocolMinor
  databaseName : Bytes := []
  acceptedCodecs : List Compression := [Compression.none]
  deriving DecidableEq, Repr

structure HelloOk where
  version : UInt16 := protocolMajor
  minor : UInt16 := protocolMinor
  baseline : UInt64 := 0
  selectedCodec : Compression := Compression.none
  maxFrameBytes : UInt32 := UInt32.ofNat Net.maxFrameBytes
  maxConcurrentStreams : UInt16 := defaultMaxConcurrentStreams
  maxExpansionRatio : UInt16 := defaultMaxExpansionRatio
  idleTimeoutMs : UInt32 := defaultIdleTimeoutMs
  authMechanisms : List Bytes := []
  deriving DecidableEq, Repr

structure Query where
  queryId : UInt32 := 0
  description : QueryDescription := {}
  actingAs : Delegation := {}
  deriving DecidableEq, Repr

structure StreamBegin where
  queryId : UInt32 := 0
  deriving DecidableEq, Repr

structure ObjectFrame where
  queryId : UInt32 := 0
  compression : Compression := Compression.none
  records : List ObjectEnvelope := []
  deriving DecidableEq, Repr

structure StreamEnd where
  queryId : UInt32 := 0
  total : UInt64 := 0
  deriving DecidableEq, Repr

structure StreamError where
  queryId : UInt32 := 0
  code : WireCode
  message : Bytes := []
  deriving DecidableEq, Repr

structure Cancel where
  queryId : UInt32 := 0
  deriving DecidableEq, Repr

structure OpCall where
  callId : UInt32 := 0
  operationId : Bytes := []
  args : Bytes := []
  actingAs : Delegation := {}
  idempotencyKey : Bytes := []
  deriving DecidableEq, Repr

structure OpResult where
  callId : UInt32 := 0
  ok : Bool := true
  code : WireCode := invalidArgumentCode
  message : Bytes := []
  payload : Bytes := []
  detail : Bytes := []
  deriving DecidableEq, Repr

structure FacadeList where
  requestId : UInt32 := 0
  actingAs : Delegation := {}
  deriving DecidableEq, Repr

structure FacadeListOk where
  requestId : UInt32 := 0
  facades : List FacadeDescriptor := []
  deriving DecidableEq, Repr

structure FacadeOpen where
  requestId : UInt32 := 0
  facadeId : Bytes := []
  facadeVersion : UInt32 := 1
  actingAs : Delegation := {}
  deriving DecidableEq, Repr

structure FacadeOpenOk where
  requestId : UInt32 := 0
  ok : Bool := true
  code : WireCode := invalidArgumentCode
  message : Bytes := []
  facadeId : Bytes := []
  facadeVersion : UInt32 := 0
  deriving DecidableEq, Repr

structure ShmAttach where
  requestId : UInt32 := 0
  ringBytes : UInt32 := 0
  deriving DecidableEq, Repr

structure ShmAttachOk where
  requestId : UInt32 := 0
  ok : Bool := true
  code : WireCode := invalidArgumentCode
  message : Bytes := []
  kind : ShmRegionKind := .filePath
  name : Bytes := []
  ringBytes : UInt32 := 0
  deriving DecidableEq, Repr

structure Authenticate where
  requestId : UInt32 := 0
  mechanism : Bytes := []
  payload : Bytes := []
  deriving DecidableEq, Repr

structure AuthenticateOk where
  requestId : UInt32 := 0
  ok : Bool := true
  code : WireCode
  message : Bytes := []
  principal : Bytes := []
  deriving DecidableEq, Repr

inductive Message
  | hello (body : Hello)
  | helloOk (body : HelloOk)
  | query (body : Query)
  | streamBegin (body : StreamBegin)
  | objectFrame (body : ObjectFrame)
  | streamEnd (body : StreamEnd)
  | streamError (body : StreamError)
  | cancel (body : Cancel)
  | opCall (body : OpCall)
  | opResult (body : OpResult)
  | facadeList (body : FacadeList)
  | facadeListOk (body : FacadeListOk)
  | facadeOpen (body : FacadeOpen)
  | facadeOpenOk (body : FacadeOpenOk)
  | shmAttach (body : ShmAttach)
  | shmAttachOk (body : ShmAttachOk)
  | authenticate (body : Authenticate)
  | authenticateOk (body : AuthenticateOk)
  deriving DecidableEq, Repr

/-- `message_type`. -/
def Message.type : Message → UInt8
  | .hello _ => 1
  | .helloOk _ => 2
  | .query _ => 3
  | .streamBegin _ => 4
  | .objectFrame _ => 5
  | .streamEnd _ => 6
  | .streamError _ => 7
  | .cancel _ => 8
  | .opCall _ => 9
  | .opResult _ => 10
  | .facadeList _ => 11
  | .facadeListOk _ => 12
  | .facadeOpen _ => 13
  | .facadeOpenOk _ => 14
  | .shmAttach _ => 15
  | .shmAttachOk _ => 16
  | .authenticate _ => 17
  | .authenticateOk _ => 18

end MoDb.Net
