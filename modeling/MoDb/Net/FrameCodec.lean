import MoDb.Net.Codec

/-!
# Object frames, and whole messages

The envelopes of an object frame lie one behind the other in a data area, which may be compressed; a
directory says where each one is.
-/

namespace MoDb.Net

open Storage Wire

/-! ### Envelopes -/

def encodeObjectEnvelope (envelope : ObjectEnvelope) : Except Error Bytes := do
  require (envelope.payload.length < 2 ^ 32) .valueTooLarge "ObjectEnvelope payload too large"
  pure (writeU64 envelope.objectId ++ writeU64 envelope.typeDefinitionId ++
    storeLe 4 envelope.payload.length ++ envelope.payload)

def decodeObjectEnvelope : BinaryReader ObjectEnvelope := do
  let objectId ← readU64
  let typeDefinitionId ← readU64
  let length ← readU32
  let payload ← readSized .unexpectedEndOfInput "ObjectEnvelope payload truncated" length.toNat
  pure { objectId, typeDefinitionId, payload }

/-- Where an envelope is in the data area: its offset and its length. -/
abbrev DataSlot := UInt32 × UInt32

def encodeRecords : List ObjectEnvelope → Bytes → List DataSlot → Except Error (Bytes × List DataSlot)
  | [], data, slots => .ok (data, slots)
  | envelope :: records, data, slots => do
    let bytes ← encodeObjectEnvelope envelope
    encodeRecords records (data ++ bytes)
      (slots ++ [(UInt32.ofNat data.length, UInt32.ofNat bytes.length)])

/-! ### Compression -/

/-- `materially_smaller`. -/
def materiallySmaller (encoded uncompressed : Nat) : Bool := encoded < uncompressed * 7 / 8

def encodeData (preferred : Compression) (data : Bytes) : Compression × Bytes :=
  if preferred = Compression.rle ∧ compressionMinBytes ≤ data.length ∧
      materiallySmaller (compressRle data).length data.length then
    (Compression.rle, compressRle data)
  else (Compression.none, data)

/-! ### Frames -/

def writeSlot (slot : DataSlot) : Bytes := writeU32 slot.1 ++ writeU32 slot.2

def readSlot : BinaryReader DataSlot := do
  let offset ← readU32
  let length ← readU32
  pure (offset, length)

def encodeObjectFramePayload (frame : ObjectFrame) : Except Error Bytes := do
  require (isKnownCompression frame.compression) .protocolError
    "ObjectFrame compression codec is unknown"
  let (data, slots) ← encodeRecords frame.records [] []
  require (data.length < 2 ^ 32) .valueTooLarge "ObjectFrame uncompressed data too large"
  require (slots.length < 2 ^ 32) .valueTooLarge "ObjectFrame record_count too large"
  let (chosen, encoded) := encodeData frame.compression data
  require (encoded.length < 2 ^ 32) .valueTooLarge "ObjectFrame encoded data too large"
  pure (writeU32 frame.queryId ++ storeLe 4 slots.length ++ [chosen, 0, 0, 0] ++
    storeLe 4 data.length ++ storeLe 4 encoded.length ++ slots.flatMap writeSlot ++ encoded)

def slotsOverlap (slot other : DataSlot) : Bool :=
  slot.1.toNat < other.1.toNat + other.2.toNat ∧ other.1.toNat < slot.1.toNat + slot.2.toNat

/-- `validate_slot_directory`; `earlier` are the slots that were checked before. -/
def validateSlotDirectory (size : Nat) : List DataSlot → List DataSlot → Except Error Unit
  | _, [] => .ok ⟨⟩
  | earlier, slot :: slots => do
    require (slot.2 ≠ 0) .protocolError "ObjectFrame slot length is zero"
    require (slot.1.toNat ≤ size ∧ slot.2.toNat ≤ size - slot.1.toNat) .protocolError
      "ObjectFrame slot outside data area"
    require (earlier.all fun other => !slotsOverlap slot other) .protocolError
      "ObjectFrame slots overlap"
    validateSlotDirectory size (earlier ++ [slot]) slots

def decodeSlot (data : Bytes) (slot : DataSlot) : Except Error ObjectEnvelope := do
  let (envelope, rest) ← decodeObjectEnvelope ((data.drop slot.1.toNat).take slot.2.toNat)
  require (rest = []) .protocolError "ObjectEnvelope has trailing bytes in slot"
  pure envelope

/-- What is checked of the sizes before anything is allocated for the data. -/
def checkSizes (negotiatedMaxFrame maxExpansionRatio : Nat) (compression : Compression)
    (uncompressedSize encodedSize : Nat) : Except Error Unit := do
  require (isKnownCompression compression) .protocolError "ObjectFrame compression codec is unknown"
  require (uncompressedSize ≤ negotiatedMaxFrame) .frameTooLarge
    "ObjectFrame uncompressed_size exceeds negotiated max"
  if compression = Compression.none then
    require (encodedSize = uncompressedSize) .protocolError
      "compression=none requires encoded_size == uncompressed_size"
  else do
    require (encodedSize = 0 → uncompressedSize = 0) .protocolError
      "compressed ObjectFrame has empty encoded_data"
    require (uncompressedSize ≤ encodedSize * maxExpansionRatio) .protocolError
      "ObjectFrame expansion ratio exceeds negotiated limit"

def inflate (compression : Compression) (encoded : Bytes) (size : UInt32) : Except Error Bytes :=
  if compression = Compression.rle then decompressRle encoded size else pure encoded

def decodeObjectFramePayload (negotiatedMaxFrame : Nat) (maxExpansionRatio : Nat) :
    BinaryReader ObjectFrame := do
  let queryId ← readU32
  let recordCount ← readU32
  let compression ← readU8
  let _ ← readU8
  let _ ← readU8
  let _ ← readU8
  let uncompressedSize ← readU32
  let encodedSize ← readU32
  checkSizes negotiatedMaxFrame maxExpansionRatio compression uncompressedSize.toNat encodedSize.toNat
  let left ← remaining
  require (recordCount.toNat * 8 ≤ left) .protocolError "ObjectFrame directory truncated"
  let slots ← readMany readSlot recordCount.toNat
  validateSlotDirectory uncompressedSize.toNat [] slots
  let encoded ← readSized .unexpectedEndOfInput "ObjectFrame data truncated" encodedSize.toNat
  let data ← inflate compression encoded uncompressedSize
  let records ← (slots.mapM (decodeSlot data) : Except Error (List ObjectEnvelope))
  pure { queryId, compression, records }

/-! ### Whole messages -/

def encodePayload : Message → Except Error Bytes
  | .hello body => encodeHello body
  | .helloOk body => encodeHelloOk body
  | .query body => encodeQuery body
  | .streamBegin body => .ok (encodeStreamBegin body)
  | .objectFrame body => encodeObjectFramePayload body
  | .streamEnd body => .ok (encodeStreamEnd body)
  | .streamError body => encodeStreamError body
  | .cancel body => .ok (encodeCancel body)
  | .opCall body => encodeOpCall body
  | .opResult body => encodeOpResult body
  | .facadeList body => encodeFacadeList body
  | .facadeListOk body => encodeFacadeListOk body
  | .facadeOpen body => encodeFacadeOpen body
  | .facadeOpenOk body => encodeFacadeOpenOk body
  | .shmAttach body => .ok (encodeShmAttach body)
  | .shmAttachOk body => encodeShmAttachOk body
  | .authenticate body => encodeAuthenticate body
  | .authenticateOk body => encodeAuthenticateOk body

def decodePayload (type : UInt8) (negotiatedMaxFrame maxExpansionRatio : Nat) : BinaryReader Message :=
  if type = 1 then Message.hello <$> decodeHello
  else if type = 2 then Message.helloOk <$> decodeHelloOk
  else if type = 3 then Message.query <$> decodeQuery
  else if type = 4 then Message.streamBegin <$> decodeStreamBegin
  else if type = 5 then
    Message.objectFrame <$> decodeObjectFramePayload negotiatedMaxFrame maxExpansionRatio
  else if type = 6 then Message.streamEnd <$> decodeStreamEnd
  else if type = 7 then Message.streamError <$> decodeStreamError
  else if type = 8 then Message.cancel <$> decodeCancel
  else if type = 9 then Message.opCall <$> decodeOpCall
  else if type = 10 then Message.opResult <$> decodeOpResult
  else if type = 11 then Message.facadeList <$> decodeFacadeList
  else if type = 12 then Message.facadeListOk <$> decodeFacadeListOk
  else if type = 13 then Message.facadeOpen <$> decodeFacadeOpen
  else if type = 14 then Message.facadeOpenOk <$> decodeFacadeOpenOk
  else if type = 15 then Message.shmAttach <$> decodeShmAttach
  else if type = 16 then Message.shmAttachOk <$> decodeShmAttachOk
  else if type = 17 then Message.authenticate <$> decodeAuthenticate
  else if type = 18 then Message.authenticateOk <$> decodeAuthenticateOk
  else throw ⟨.protocolError, "unknown message type"⟩

def encodeMessage (message : Message) : Except Error Bytes := do
  let payload ← encodePayload message
  require (payload.length ≤ maxFrameBytes - 1) .frameTooLarge "encoded message exceeds max_frame_bytes"
  pure (storeLe 4 (1 + payload.length) ++ message.type :: payload)

def decodeMessage (bytes : Bytes) (negotiatedMaxFrame maxExpansionRatio : Nat) :
    Except Error Message := do
  require (4 ≤ bytes.length) .unexpectedEndOfInput "frame length truncated"
  let length := loadLe (bytes.take 4)
  require (length ≤ negotiatedMaxFrame ∧ length ≤ maxFrameBytes) .frameTooLarge
    "frame length exceeds negotiated max"
  require (length ≠ 0) .protocolError "frame length is zero"
  require (4 + length ≤ bytes.length) .unexpectedEndOfInput "frame payload truncated"
  require (bytes.length ≤ 4 + length) .trailingData "bytes remain after complete frame"
  let (type, body) ← readU8 ((bytes.drop 4).take length)
  let (message, rest) ← decodePayload type negotiatedMaxFrame maxExpansionRatio body
  require (rest = []) .trailingData "bytes remain after message payload"
  pure message

end MoDb.Net
