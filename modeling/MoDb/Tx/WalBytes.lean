import MoDb.Tx.Wal
import Mathlib.Tactic.Set
import Mathlib.Tactic.SplitIfs

/-!
# The log file as bytes

The reader of the log, from the header to the last record that is whole and passes its checksum.
-/

namespace MoDb.Tx

open Storage

/-! ### The checksum

Slicing-by-8: eight tables let the loop take eight bytes at a time.
-/

def crcTableEntry (index : UInt32) : UInt32 :=
  (List.range 8).foldl
    (fun value _ => if value &&& 1 ≠ 0 then (0xEDB88320 : UInt32) ^^^ (value >>> 1) else value >>> 1) index

/-- `tables[slice][index]`. -/
def crcTable : Nat → UInt32 → UInt32
  | 0, index => crcTableEntry index
  | slice + 1, index =>
    let previous := crcTable slice index
    (previous >>> 8) ^^^ crcTableEntry (previous &&& 0xFF)

def crcWord (b0 b1 b2 b3 : UInt8) : UInt32 :=
  b0.toUInt32 ||| (b1.toUInt32 <<< 8) ||| (b2.toUInt32 <<< 16) ||| (b3.toUInt32 <<< 24)

def crcLoop : UInt32 → Bytes → UInt32
  | crc, b0 :: b1 :: b2 :: b3 :: b4 :: b5 :: b6 :: b7 :: rest =>
    let low := crc ^^^ crcWord b0 b1 b2 b3
    let high := crcWord b4 b5 b6 b7
    crcLoop
      (crcTable 7 (low &&& 0xFF) ^^^ crcTable 6 ((low >>> 8) &&& 0xFF) ^^^
        crcTable 5 ((low >>> 16) &&& 0xFF) ^^^ crcTable 4 (low >>> 24) ^^^
        crcTable 3 (high &&& 0xFF) ^^^ crcTable 2 ((high >>> 8) &&& 0xFF) ^^^
        crcTable 1 ((high >>> 16) &&& 0xFF) ^^^ crcTable 0 (high >>> 24)) rest
  | crc, byte :: rest =>
    crcLoop (crcTable 0 ((crc ^^^ byte.toUInt32) &&& 0xFF) ^^^ (crc >>> 8)) rest
  | crc, [] => crc

/-- `crc32` of the log. -/
def crc32 (bytes : Bytes) : UInt32 := crcLoop 0xFFFFFFFF bytes ^^^ 0xFFFFFFFF

example : crc32 [49, 50, 51, 52, 53, 54, 55, 56, 57] = 0xCBF43926 := by decide +kernel

/-! ### Records -/

def WalRecordType.ofByte (byte : UInt8) : WalRecordType :=
  if byte = 1 then .begin
  else if byte = 2 then .pageImage
  else if byte = 3 then .commit
  else if byte = 4 then .checkpoint
  else .other byte

def WalRecordType.toByte : WalRecordType → UInt8
  | .begin => 1
  | .pageImage => 2
  | .commit => 3
  | .checkpoint => 4
  | .other code => code

instance [PageSize] : WalPayload Bytes Page where
  size payload := payload.length
  commitLsn? payload := if payload.length < 8 then none else some (loadLe (payload.take 8))
  page? payload := if h : payload.length = pageSize then some ⟨payload, h⟩ else none

def encodeBody (record : WalRecord Bytes) : Bytes :=
  storeLe 8 record.lsn ++ storeLe 8 record.txId ++ [record.type.toByte] ++
    storeLe 8 record.pageId ++ storeLe 4 record.payload.length ++ record.payload

/-- `Wal::append`. -/
def encodeRecord (record : WalRecord Bytes) : Bytes :=
  encodeBody record ++ storeLe recordCrcSize (crc32 (encodeBody record)).toNat

/-- `ReadMode`: recovery takes the first bad record for the end, replication refuses it. -/
inductive ReadMode
  | softEof
  | strict
  deriving DecidableEq, Repr

/-- The record at the head of `bytes`, whose payload length has been read already. -/
def decodeRecord (bytes : Bytes) (length endOffset : Nat) : WalRecord Bytes where
  lsn := loadLe (bytes.take 8)
  txId := loadLe ((bytes.drop 8).take 8)
  type := .ofByte (bytes.getD 16 0)
  pageId := loadLe ((bytes.drop 17).take 8)
  payload := (bytes.drop recordFixedSize).take length
  endOffset := endOffset

/-- `length` of the record at the head of `bytes`. -/
def payloadLength (bytes : Bytes) : Nat := loadLe ((bytes.drop 25).take 4)

/-- The loop of `read_wal_records` over what is left of the file; `offset` is where it stands. -/
def scanRecords (mode : ReadMode) (fromLsn offset : Nat) (bytes : Bytes) :
    Except Error (List (WalRecord Bytes)) :=
  if bytes.length < recordFixedSize then
    if mode = .strict ∧ bytes ≠ [] then
      .error ⟨.walCorrupt, "WAL has trailing truncated bytes (replication)"⟩
    else .ok []
  else
    let length := payloadLength bytes
    let recordSize := recordFixedSize + length + recordCrcSize
    if bytes.length < recordSize then
      if mode = .strict then
        .error ⟨.walCorrupt, "WAL truncated mid-record (replication)"⟩
      else .ok []
    else if (crc32 (bytes.take (recordFixedSize + length))).toNat ≠
        loadLe ((bytes.drop (recordFixedSize + length)).take 4) then
      if mode = .strict then
        .error ⟨.walCorrupt, "WAL CRC mismatch (replication)"⟩
      else .ok []
    else
      let record := decodeRecord bytes length (offset + recordSize)
      match scanRecords mode fromLsn (offset + recordSize) (bytes.drop recordSize) with
      | .error error => .error error
      | .ok records => .ok (if fromLsn ≤ record.lsn then record :: records else records)
termination_by bytes.length
decreasing_by
  simp only [List.length_drop, recordFixedSize, recordCrcSize] at *
  omega

theorem scanRecords_cons {offset : Nat} {bytes : Bytes} {record : WalRecord Bytes}
    {records : List (WalRecord Bytes)}
    (h : scanRecords .softEof 0 offset bytes = .ok (record :: records)) :
    ∃ size, 0 < size ∧ size ≤ bytes.length ∧ record.endOffset = offset + size ∧
      scanRecords .softEof 0 record.endOffset (bytes.drop size) = .ok records := by
  rw [scanRecords] at h
  split at h
  · simp at h
  · simp only [reduceCtorEq, if_false, Nat.zero_le, if_true] at h
    split at h
    · simp at h
    · split at h
      · simp at h
      · split at h
        · simp at h
        · rename_i hsize _ _ _ hscan
          simp only [Except.ok.injEq, List.cons.injEq] at h
          obtain ⟨rfl, rfl⟩ := h
          exact ⟨_, Nat.succ_pos _, Nat.le_of_not_lt hsize, rfl, hscan⟩

theorem scanRecords_drop {offset : Nat} {bytes : Bytes} {covered rest : List (WalRecord Bytes)}
    {last : WalRecord Bytes} (hlast : last ∈ covered.getLast?)
    (h : scanRecords .softEof 0 offset bytes = .ok (covered ++ rest)) :
    ∃ size, 0 < size ∧ size ≤ bytes.length ∧ last.endOffset = offset + size ∧
      scanRecords .softEof 0 last.endOffset (bytes.drop size) = .ok rest := by
  induction covered generalizing offset bytes with
  | nil => simp at hlast
  | cons record covered ih =>
    obtain ⟨size, hpos, hsize, hend, hscan⟩ := scanRecords_cons h
    cases covered with
    | nil =>
      obtain rfl : record = last := by simpa using hlast
      exact ⟨size, hpos, hsize, hend, hscan⟩
    | cons next covered =>
      obtain ⟨size', -, hsize', hend', hscan'⟩ := ih (by simpa using hlast) hscan
      rw [List.length_drop] at hsize'
      refine ⟨size + size', by omega, by omega, by omega, ?_⟩
      rwa [List.drop_drop] at hscan'

/-! ### What an append leaves is what the scan reads -/

structure WalRecord.Encodable (record : WalRecord Bytes) : Prop where
  lsn : record.lsn < 256 ^ 8
  txId : record.txId < 256 ^ 8
  type : WalRecordType.ofByte record.type.toByte = record.type
  pageId : record.pageId < 256 ^ 8
  payload : record.payload.length < 256 ^ 4

theorem length_encodeBody (record : WalRecord Bytes) :
    (encodeBody record).length = recordFixedSize + record.payload.length := by
  simp [encodeBody, recordFixedSize]
  omega

theorem length_encodeRecord [PageSize] (record : WalRecord Bytes) :
    (encodeRecord record).length = record.size := by
  simp [encodeRecord, length_encodeBody, WalRecord.size, WalPayload.size]

theorem payloadLength_encode {record : WalRecord Bytes} (h : record.Encodable) (rest : Bytes) :
    payloadLength (encodeRecord record ++ rest) = record.payload.length := by
  have hdrop : ((encodeRecord record ++ rest).drop 25).take 4 =
      storeLe 4 record.payload.length := by
    have hsplit : encodeRecord record ++ rest =
        (storeLe 8 record.lsn ++ storeLe 8 record.txId ++ [record.type.toByte] ++
          storeLe 8 record.pageId) ++ (storeLe 4 record.payload.length ++ (record.payload ++
            storeLe recordCrcSize (crc32 (encodeBody record)).toNat ++ rest)) := by
      simp [encodeRecord, encodeBody]
    rw [hsplit, List.drop_left' (by simp), List.take_left' (by simp)]
  rw [payloadLength, hdrop, loadLe_storeLe_of_lt h.payload]

theorem decodeRecord_encode {record : WalRecord Bytes} (h : record.Encodable) (rest : Bytes)
    (endOffset : Nat) :
    decodeRecord (encodeRecord record ++ rest) record.payload.length endOffset =
      { record with endOffset := endOffset } := by
  set crc := storeLe recordCrcSize (crc32 (encodeBody record)).toNat
  have hlsn : (encodeRecord record ++ rest).take 8 = storeLe 8 record.lsn := by
    simp only [encodeRecord, encodeBody, List.append_assoc]
    exact List.take_left' (by simp)
  have htx : ((encodeRecord record ++ rest).drop 8).take 8 = storeLe 8 record.txId := by
    simp only [encodeRecord, encodeBody, List.append_assoc]
    rw [List.drop_left' (by simp), List.take_left' (by simp)]
  have htype : (encodeRecord record ++ rest).getD 16 0 = record.type.toByte := by
    have hsplit : encodeRecord record ++ rest =
        (storeLe 8 record.lsn ++ storeLe 8 record.txId) ++ (record.type.toByte ::
          (storeLe 8 record.pageId ++ storeLe 4 record.payload.length ++ record.payload ++ crc ++
            rest)) := by
      simp [encodeRecord, encodeBody, crc]
    rw [hsplit, List.getD_eq_getElem?_getD, List.getElem?_append_right (by simp)]
    simp
  have hpage : ((encodeRecord record ++ rest).drop 17).take 8 = storeLe 8 record.pageId := by
    have hsplit : encodeRecord record ++ rest =
        (storeLe 8 record.lsn ++ storeLe 8 record.txId ++ [record.type.toByte]) ++
          (storeLe 8 record.pageId ++ (storeLe 4 record.payload.length ++ record.payload ++ crc ++
            rest)) := by
      simp [encodeRecord, encodeBody, crc]
    rw [hsplit, List.drop_left' (by simp), List.take_left' (by simp)]
  have hpayload : ((encodeRecord record ++ rest).drop recordFixedSize).take
      record.payload.length = record.payload := by
    have hsplit : encodeRecord record ++ rest =
        (storeLe 8 record.lsn ++ storeLe 8 record.txId ++ [record.type.toByte] ++
          storeLe 8 record.pageId ++ storeLe 4 record.payload.length) ++
            (record.payload ++ (crc ++ rest)) := by
      simp [encodeRecord, encodeBody, crc]
    rw [hsplit, List.drop_left' (by simp [recordFixedSize]), List.take_left]
  simp only [decodeRecord, hlsn, htx, htype, hpage, hpayload, loadLe_storeLe_of_lt h.lsn,
    loadLe_storeLe_of_lt h.txId, loadLe_storeLe_of_lt h.pageId, h.type]

theorem scanRecords_encode [PageSize] (mode : ReadMode) (fromLsn offset : Nat)
    {record : WalRecord Bytes} (h : record.Encodable) (rest : Bytes) :
    scanRecords mode fromLsn offset (encodeRecord record ++ rest) =
      (scanRecords mode fromLsn (offset + record.size) rest).map fun records =>
        if fromLsn ≤ record.lsn then
          { record with endOffset := offset + record.size } :: records
        else records := by
  have hsize : recordFixedSize + record.payload.length + recordCrcSize = record.size := rfl
  have hlength : (encodeRecord record ++ rest).length = record.size + rest.length := by
    rw [List.length_append, length_encodeRecord]
  have hbody : (encodeRecord record ++ rest).take (recordFixedSize + record.payload.length) =
      encodeBody record := by
    rw [encodeRecord, List.append_assoc]
    exact List.take_left' (length_encodeBody record)
  have hcrc : ((encodeRecord record ++ rest).drop (recordFixedSize + record.payload.length)).take 4
      = storeLe recordCrcSize (crc32 (encodeBody record)).toNat := by
    rw [encodeRecord, List.append_assoc, List.drop_left' (length_encodeBody record)]
    exact List.take_left' (length_storeLe _ _)
  have hcrc_lt : (crc32 (encodeBody record)).toNat < 256 ^ recordCrcSize :=
    (crc32 (encodeBody record)).toNat_lt
  have hrest : (encodeRecord record ++ rest).drop record.size = rest :=
    List.drop_left' (length_encodeRecord record)
  rw [scanRecords, if_neg (by omega)]
  simp only [payloadLength_encode h rest]
  rw [if_neg (by omega), hbody, hcrc, loadLe_storeLe_of_lt hcrc_lt, if_neg (by simp), hsize,
    decodeRecord_encode h, hrest]
  cases scanRecords mode fromLsn (offset + record.size) rest <;> rfl

theorem scanRecords_encode_all [PageSize] (mode : ReadMode) (offset : Nat)
    {records : List (WalRecord Bytes)} (h : ∀ record ∈ records, record.Encodable) :
    scanRecords mode 0 offset (records.map encodeRecord).flatten = .ok (stamp offset records) := by
  induction records generalizing offset with
  | nil => simp [scanRecords, recordFixedSize, stamp]
  | cons record records ih =>
    rw [List.map_cons, List.flatten_cons, scanRecords_encode mode 0 offset
      (h record List.mem_cons_self), ih _ fun record hmem => h record (List.mem_cons_of_mem _ hmem)]
    simp [Except.map, stamp]

/-! ### The file -/

def walMagic : Bytes := [77, 79, 87, 76]
def walVersion : Nat := 2
def walVersionV1 : Nat := 1

/-- `make_header`. -/
def makeHeader [PageSize] : Bytes :=
  walMagic ++ storeLe 2 walVersion ++ [0, 0] ++ storeLe 4 pageSize ++ List.replicate 20 0

/-- `read_wal_records` of an existing file. -/
def readWalRecords [PageSize] (file : Bytes) (fromLsn : Nat) (mode : ReadMode)
    (startOffset : Nat) : Except Error (List (WalRecord Bytes)) :=
  if file = [] then .ok []
  else if file.length < walHeaderSize then
    .error ⟨.corruptFile, "WAL is smaller than its header"⟩
  else if startOffset < walHeaderSize ∨ file.length < startOffset then
    .error ⟨.invalidArgument, "WAL start offset out of range"⟩
  else if file.take 4 ≠ walMagic then
    .error ⟨.invalidFileFormat, "file is not a moDb WAL"⟩
  else if loadLe ((file.drop 4).take 2) ≠ walVersion ∧
      loadLe ((file.drop 4).take 2) ≠ walVersionV1 then
    .error ⟨.incompatibleFormatVersion, "unsupported WAL version"⟩
  else if loadLe ((file.drop 8).take 4) ≠ pageSize then
    .error ⟨.corruptFile, "WAL page size mismatch"⟩
  else scanRecords mode fromLsn startOffset (file.drop startOffset)

theorem length_makeHeader [PageSize] : makeHeader.length = walHeaderSize := by
  simp [makeHeader, walMagic, walHeaderSize]

theorem readWalRecords_header [PageSize] (mode : ReadMode) (fromLsn : Nat) (body : Bytes) :
    readWalRecords (makeHeader ++ body) fromLsn mode walHeaderSize =
      scanRecords mode fromLsn walHeaderSize body := by
  have hlength : (makeHeader ++ body).length = walHeaderSize + body.length := by
    rw [List.length_append, length_makeHeader]
  have hempty : makeHeader ++ body ≠ [] := by
    intro hnil
    simp [hnil, walHeaderSize] at hlength
    omega
  have hmagic : (makeHeader ++ body).take 4 = walMagic := by
    simp only [makeHeader, List.append_assoc]
    exact List.take_left' rfl
  have hversion : ((makeHeader ++ body).drop 4).take 2 = storeLe 2 walVersion := by
    simp only [makeHeader, List.append_assoc]
    rw [List.drop_left' (show walMagic.length = 4 from rfl), List.take_left' (by simp)]
  have hpage : ((makeHeader ++ body).drop 8).take 4 = storeLe 4 pageSize := by
    have hsplit : makeHeader ++ body = (walMagic ++ storeLe 2 walVersion ++ [0, 0]) ++
        (storeLe 4 pageSize ++ (List.replicate 20 0 ++ body)) := by
      simp [makeHeader]
    rw [hsplit, List.drop_left' (by simp [walMagic]), List.take_left' (by simp)]
  have hpage_lt : pageSize < 256 ^ 4 := Nat.lt_of_le_of_lt PageSize.upper (by decide)
  have hload : loadLe (storeLe 2 walVersion) = walVersion := loadLe_storeLe_of_lt (by decide)
  rw [readWalRecords, if_neg hempty, if_neg (by omega), if_neg (by omega), if_neg (by simp [hmagic]),
    if_neg (by simp [hversion, hload]), if_neg (by simp [hpage, loadLe_storeLe_of_lt hpage_lt]),
    List.drop_left' length_makeHeader]

theorem readWalRecords_encode [PageSize] (mode : ReadMode) {records : List (WalRecord Bytes)}
    (h : ∀ record ∈ records, record.Encodable) :
    readWalRecords (makeHeader ++ (records.map encodeRecord).flatten) 0 mode walHeaderSize =
      .ok (stamp walHeaderSize records) := by
  rw [readWalRecords_header, scanRecords_encode_all mode _ h]

theorem readWalRecords_drop [PageSize] {file : Bytes} {covered rest : List (WalRecord Bytes)}
    {last : WalRecord Bytes} (hlast : last ∈ covered.getLast?)
    (h : readWalRecords file 0 .softEof walHeaderSize = .ok (covered ++ rest)) :
    walHeaderSize < last.endOffset ∧ last.endOffset ≤ file.length ∧
      readWalRecords file 0 .softEof last.endOffset = .ok rest := by
  unfold readWalRecords at h
  split at h
  · obtain ⟨rfl, -⟩ : covered = [] ∧ rest = [] := by simpa [eq_comm] using h
    simp at hlast
  · rename_i hempty
    simp only [Nat.lt_irrefl, false_or] at h
    split at h
    · simp at h
    · rename_i hheader
      split at h
      · simp at h
      · split at h
        · simp at h
        · split at h
          · simp at h
          · rename_i hmagic hversion hpage
            obtain ⟨size, hpos, hsize, hend, hscan⟩ := scanRecords_drop hlast h
            rw [List.length_drop] at hsize
            have hheader' : walHeaderSize ≤ file.length := Nat.le_of_not_lt hheader
            have hlower : walHeaderSize < last.endOffset := by omega
            have hupper : last.endOffset ≤ file.length := by omega
            refine ⟨hlower, hupper, ?_⟩
            rw [readWalRecords, if_neg hempty, if_neg hheader, if_neg (by omega), if_neg hmagic,
              if_neg hversion, if_neg hpage, hend, ← List.drop_drop, ← hend]
            exact hscan

theorem readWalRecords_end [PageSize] {file : Bytes} {records : List (WalRecord Bytes)}
    (h : readWalRecords file 0 .softEof file.length = .ok records) : records = [] := by
  have hscan : scanRecords .softEof 0 file.length [] = .ok [] := by
    simp [scanRecords, recordFixedSize]
  rw [readWalRecords, List.drop_length, hscan] at h
  split_ifs at h <;> simp_all

def walView [PageSize] (file : Bytes) : WalView Bytes where
  size := file.length
  readFromOffset := readWalRecords file 0 .softEof

theorem readAll_walView [PageSize] (file : Bytes) :
    (walView file).readAll = readWalRecords file 0 .softEof walHeaderSize := rfl

attribute [irreducible] readWalRecords

end MoDb.Tx
