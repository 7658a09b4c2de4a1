import MoDb.Repl.Checksum
import MoDb.Store.ObjectCodec

/-!
# The messages of replication

A frame is the length of what follows, the kind of the message in one byte, and the fields of the message
one after another. A frame of the log carries a checksum of its records.
-/

namespace MoDb.Net

open Storage Format
open ObjectCodec (BinaryDecoder readLe)

/-- `DatabaseUuid`: its 16 bytes, the first one lowest. -/
abbrev DatabaseUuid := BitVec 128

/-- `ReplicationMessage`; the code of an error is its number. -/
inductive ReplicationMessage
  | hello (version : BitVec 16) (databaseUuid : DatabaseUuid) (timelineId : BitVec 64)
  | helloOk (version : BitVec 16) (databaseUuid : DatabaseUuid) (timelineId primaryCommitLsn : BitVec 64)
  | bootstrapRequest (hasKnown : Bool) (knownUuid : DatabaseUuid) (knownTimeline knownLsn : BitVec 64)
  | bootstrapBegin (pageSize : BitVec 32) (cutLsn epoch baseline sizeBytes : BitVec 64)
      (contentCrc : BitVec 32)
  | bootstrapChunk (offset : BitVec 64) (bytes : Bytes)
  | bootstrapEnd (contentCrc : BitVec 32)
  | walSubscribe (databaseUuid : DatabaseUuid) (timelineId fromLsn : BitVec 64)
  | walFrame (firstLsn lastLsn : BitVec 64) (records : Bytes) (crc : BitVec 32)
  | walAck (appliedLsn : BitVec 64)
  | walGap (oldestAvailableLsn : BitVec 64)
  | heartbeat (primaryCommitLsn : BitVec 64)
  | replicationError (code : BitVec 32) (message : Bytes)
  | cancel
  deriving DecidableEq

namespace ReplicationMessage

/-- `ReplicationMessageType`. -/
def type : ReplicationMessage → UInt8
  | .hello .. => 100
  | .helloOk .. => 101
  | .bootstrapRequest .. => 102
  | .bootstrapBegin .. => 103
  | .bootstrapChunk .. => 104
  | .bootstrapEnd .. => 105
  | .walSubscribe .. => 106
  | .walFrame .. => 107
  | .walAck .. => 108
  | .walGap .. => 109
  | .heartbeat .. => 110
  | .replicationError .. => 111
  | .cancel => 112

/-! ### Encoding -/

/-- `write_u16` and its like, for `width` bytes. -/
def word {w : Nat} (width : Nat) (value : BitVec w) : Bytes := storeLe width value.toNat

def sized (bytes : Bytes) : Bytes := storeLe 4 bytes.length ++ bytes

/-- The checksum that a frame of the log is sent with: 0 asks for that of the records. -/
def sentCrc (records : Bytes) (crc : BitVec 32) : BitVec 32 :=
  if crc ≠ 0 then crc else (crc32 records).toBitVec

/-- The fields that `encode_replication_message` writes. -/
def payload : ReplicationMessage → Bytes
  | .hello version databaseUuid timelineId => word 2 version ++ (word 16 databaseUuid ++ word 8 timelineId)
  | .helloOk version databaseUuid timelineId primaryCommitLsn =>
    word 2 version ++ (word 16 databaseUuid ++ (word 8 timelineId ++ word 8 primaryCommitLsn))
  | .bootstrapRequest hasKnown knownUuid knownTimeline knownLsn =>
    (if hasKnown then 1 else 0) :: (word 16 knownUuid ++ (word 8 knownTimeline ++ word 8 knownLsn))
  | .bootstrapBegin pageSize cutLsn epoch baseline sizeBytes contentCrc =>
    word 4 pageSize ++ (word 8 cutLsn ++ (word 8 epoch ++ (word 8 baseline ++ (word 8 sizeBytes ++
      word 4 contentCrc))))
  | .bootstrapChunk offset bytes => word 8 offset ++ sized bytes
  | .bootstrapEnd contentCrc => word 4 contentCrc
  | .walSubscribe databaseUuid timelineId fromLsn =>
    word 16 databaseUuid ++ (word 8 timelineId ++ word 8 fromLsn)
  | .walFrame firstLsn lastLsn records crc =>
    word 8 firstLsn ++ (word 8 lastLsn ++ (sized records ++ word 4 (sentCrc records crc)))
  | .walAck appliedLsn => word 8 appliedLsn
  | .walGap oldestAvailableLsn => word 8 oldestAvailableLsn
  | .heartbeat primaryCommitLsn => word 8 primaryCommitLsn
  | .replicationError code message => word 4 code ++ sized message
  | .cancel => []

def Fits (message : ReplicationMessage) : Prop := message.payload.length + 5 < 2 ^ 32

end ReplicationMessage

open ReplicationMessage

/-- `finish_frame`. -/
def finishFrame (type : UInt8) (body : Bytes) : Bytes := storeLe 4 (1 + body.length) ++ type :: body

/-- `encode_replication_message`. -/
def encodeReplicationMessage (message : ReplicationMessage) : Bytes :=
  finishFrame message.type message.payload

/-! ### Decoding -/

/-- `read_u16` and its like: a word of `w` bits in `width` bytes. -/
def readWord (width w : Nat) : BinaryDecoder (BitVec w) := do
  let raw ← readLe width
  pure (BitVec.ofNat w raw)

def labelled {α : Type} (message : String) (read : BinaryDecoder α) : BinaryDecoder α := fun c =>
  match read c with
  | .ok value c' => .ok value c'
  | .error _ c' => .error ⟨.protocolError, message⟩ c'

/-- The start of a frame of the log: its bounds and how long its records are. -/
def readWalFields : BinaryDecoder (BitVec 64 × BitVec 64 × Nat) := labelled "bad WalFrame" do
  let firstLsn ← readWord 8 64
  let lastLsn ← readWord 8 64
  let length ← readLe 4
  pure (firstLsn, lastLsn, length)

def readWalBody (length : Nat) : BinaryDecoder (Bytes × BitVec 32) := labelled "bad WalFrame body" do
  let records ← ObjectCodec.readBytes length
  let crc ← readWord 4 32
  pure (records, crc)

/-- What `decode_replication_message` reads under a type. -/
def decodeReplicationPayload (type : UInt8) : BinaryDecoder ReplicationMessage :=
  match type.toNat with
  | 100 => labelled "bad ReplicationHello" do
    let version ← readWord 2 16
    let databaseUuid ← readWord 16 128
    let timelineId ← readWord 8 64
    pure (.hello version databaseUuid timelineId)
  | 101 => labelled "bad ReplicationHelloOk" do
    let version ← readWord 2 16
    let databaseUuid ← readWord 16 128
    let timelineId ← readWord 8 64
    let primaryCommitLsn ← readWord 8 64
    pure (.helloOk version databaseUuid timelineId primaryCommitLsn)
  | 102 => labelled "bad BootstrapRequest" do
    let flag ← readWord 1 8
    let knownUuid ← readWord 16 128
    let knownTimeline ← readWord 8 64
    let knownLsn ← readWord 8 64
    pure (.bootstrapRequest (flag ≠ 0) knownUuid knownTimeline knownLsn)
  | 103 => labelled "bad BootstrapBegin" do
    let pageSize ← readWord 4 32
    let cutLsn ← readWord 8 64
    let epoch ← readWord 8 64
    let baseline ← readWord 8 64
    let sizeBytes ← readWord 8 64
    let contentCrc ← readWord 4 32
    pure (.bootstrapBegin pageSize cutLsn epoch baseline sizeBytes contentCrc)
  | 104 => do
    let (offset, length) ← labelled "bad BootstrapChunk" do
      let offset ← readWord 8 64
      let length ← readLe 4
      pure (offset, length)
    let bytes ← ObjectCodec.readBytes length
    pure (.bootstrapChunk offset bytes)
  | 105 => labelled "bad BootstrapEnd" do
    let contentCrc ← readWord 4 32
    pure (.bootstrapEnd contentCrc)
  | 106 => labelled "bad WalSubscribe" do
    let databaseUuid ← readWord 16 128
    let timelineId ← readWord 8 64
    let fromLsn ← readWord 8 64
    pure (.walSubscribe databaseUuid timelineId fromLsn)
  | 107 => do
    let (firstLsn, lastLsn, length) ← readWalFields
    let (records, crc) ← readWalBody length
    if (crc32 records).toBitVec ≠ crc then throw ⟨.protocolError, "WalFrame CRC mismatch"⟩
    else pure (.walFrame firstLsn lastLsn records crc)
  | 108 => labelled "bad WalAck" do
    let appliedLsn ← readWord 8 64
    pure (.walAck appliedLsn)
  | 109 => labelled "bad WalGap" do
    let oldestAvailableLsn ← readWord 8 64
    pure (.walGap oldestAvailableLsn)
  | 110 => labelled "bad Heartbeat" do
    let primaryCommitLsn ← readWord 8 64
    pure (.heartbeat primaryCommitLsn)
  | 111 => do
    let (code, length) ← labelled "bad ReplicationError" do
      let code ← readWord 4 32
      let length ← readLe 4
      pure (code, length)
    let message ← ObjectCodec.readBytes length
    pure (.replicationError code message)
  | 112 => pure .cancel
  | _ => throw ⟨.protocolError, "unknown replication type"⟩

/-- `decode_replication_message`; bytes that are left behind the fields are not looked at. -/
def decodeReplicationMessage (frame : Bytes) : Except Error ReplicationMessage :=
  match frame.drop 4 with
  | [] => .error ⟨.protocolError, "replication frame too short"⟩
  | type :: body =>
    if (loadLe (frame.take 4) + 4) % 2 ^ 32 ≠ frame.length then
      .error ⟨.protocolError, "replication frame length mismatch"⟩
    else
      match decodeReplicationPayload type ⟨body, 0⟩ with
      | .ok message _ => .ok message
      | .error error _ => .error error

end MoDb.Net
