import MoDb.Tx.WalBytes
import MoDb.Tx.WalFile

/-!
# A log cut short

A writer appends records to a log it has created; the file is then cut at any byte. The tolerant read
takes the records that end before the cut, the strict one refuses a cut inside a record, and both refuse
one inside the header.
-/

namespace MoDb.Tx

open Storage

/-! ### The writer -/

/-- A writer and the bytes of its file. -/
structure WalWriter where
  file : Bytes
  writeOffset : Nat
  nextLsn : UInt64

/-- `write_at`: the bytes at the offset are replaced, the file grows where it is too short. -/
def writeAt (file : Bytes) (offset : Nat) (source : Bytes) : Bytes :=
  (file ++ List.replicate (offset - file.length) 0).take offset ++ source ++
    file.drop (offset + source.length)

/-- What a caller asks of the writer. -/
inductive WalCall
  | appendBegin (txId : UInt64)
  | appendPageImage (txId pageId : UInt64) (page : Bytes)
  | appendCommit (txId : UInt64)
  /-- The file is closed and `open_durable` opens it again. -/
  | openDurable (startingLsn : UInt64)

namespace WalWriter

variable [PageSize]

/-- `Wal::create`. -/
def create : WalWriter := ⟨writeAt [] 0 makeHeader, walHeaderSize, 1⟩

/-- The record that `Wal::append` writes. -/
def record (writer : WalWriter) (type : WalRecordType) (txId pageId : UInt64) (payload : Bytes) :
    WalRecord Bytes :=
  ⟨writer.nextLsn.toNat, txId.toNat, type, pageId.toNat, payload, 0⟩

/-- `Wal::append`. -/
def append (writer : WalWriter) (type : WalRecordType) (txId pageId : UInt64) (payload : Bytes) :
    WalWriter :=
  let bytes := encodeRecord (writer.record type txId pageId payload)
  ⟨writeAt writer.file writer.writeOffset bytes, writer.writeOffset + bytes.length,
    writer.nextLsn + 1⟩

def call (writer : WalWriter) : WalCall → Except Error WalWriter
  | .appendBegin txId => .ok (writer.append .begin txId 0 [])
  | .appendPageImage txId pageId page =>
    if page.length ≠ pageSize then
      .error ⟨.invalidArgument, "WAL page image must be a full page"⟩
    else .ok (writer.append .pageImage txId pageId page)
  | .appendCommit txId => .ok (writer.append .commit txId 0 (storeLe 8 writer.nextLsn.toNat))
  | .openDurable startingLsn =>
    if startingLsn = 0 then .error ⟨.invalidArgument, "starting_lsn must be >= 1"⟩
    else if writer.file.length < walHeaderSize then
      .ok ⟨writeAt writer.file 0 makeHeader, walHeaderSize, startingLsn⟩
    else .ok ⟨writer.file, writer.file.length, startingLsn⟩

def step (writer : WalWriter) (c : WalCall) : WalWriter := (writer.call c).toOption.getD writer

def run (writer : WalWriter) (calls : List WalCall) : WalWriter := calls.foldl step writer

end WalWriter

/-! ### What has been appended -/

def WalWriter.appended [PageSize] (writer : WalWriter) : WalCall → Option (WalRecord Bytes)
  | .appendBegin txId => some (writer.record .begin txId 0 [])
  | .appendPageImage txId pageId page =>
    if page.length = pageSize then some (writer.record .pageImage txId pageId page) else none
  | .appendCommit txId => some (writer.record .commit txId 0 (storeLe 8 writer.nextLsn.toNat))
  | .openDurable _ => none

def WalWriter.appendedBy [PageSize] : WalWriter → List WalCall → List (WalRecord Bytes)
  | _, [] => []
  | writer, c :: calls => (writer.appended c).toList ++ (writer.step c).appendedBy calls

/-- The records that lie entirely before the cut, with the offsets at which they end. -/
def recordsBefore [PageSize] (cut : Nat) (records : List (WalRecord Bytes)) :
    List (WalRecord Bytes) :=
  (stamp walHeaderSize records).filter (·.endOffset ≤ cut)

def recordBoundaries [PageSize] (records : List (WalRecord Bytes)) : List Nat :=
  walHeaderSize :: (stamp walHeaderSize records).map (·.endOffset)

/-! ### The file is the header and the records -/

theorem writeAt_end (file source : Bytes) : writeAt file file.length source = file ++ source := by
  simp [writeAt]

namespace WalWriter

variable [PageSize] {writer : WalWriter}

/-- The writer stands at the end of a file that has its header. -/
structure AtEnd (writer : WalWriter) : Prop where
  offset : writer.writeOffset = writer.file.length
  header : walHeaderSize ≤ writer.file.length

theorem atEnd_create : create.AtEnd := by
  have hfile : create.file = makeHeader := writeAt_end [] makeHeader
  constructor
  · rw [hfile, length_makeHeader]
    rfl
  · exact Nat.le_of_eq ((congrArg List.length hfile).trans length_makeHeader).symm

omit [PageSize] in
theorem AtEnd.append (h : writer.AtEnd) (type : WalRecordType) (txId pageId : UInt64)
    (payload : Bytes) :
    (writer.append type txId pageId payload).AtEnd ∧
      (writer.append type txId pageId payload).file =
        writer.file ++ encodeRecord (writer.record type txId pageId payload) := by
  have hfile : (writer.append type txId pageId payload).file =
      writer.file ++ encodeRecord (writer.record type txId pageId payload) := by
    rw [WalWriter.append, h.offset, writeAt_end]
  refine ⟨⟨?_, ?_⟩, hfile⟩
  · rw [hfile, List.length_append, ← h.offset]
    rfl
  · rw [hfile, List.length_append]
    exact Nat.le_trans h.header (Nat.le_add_right _ _)

theorem AtEnd.step (h : writer.AtEnd) (c : WalCall) :
    (writer.step c).AtEnd ∧ (writer.step c).file =
      writer.file ++ ((writer.appended c).toList.map encodeRecord).flatten := by
  cases c with
  | appendBegin txId => simpa [WalWriter.step, call, appended, Except.toOption] using h.append .begin txId 0 []
  | appendPageImage txId pageId page =>
    by_cases hpage : page.length = pageSize
    · simpa [WalWriter.step, call, appended, Except.toOption, hpage] using h.append .pageImage txId pageId page
    · simpa [WalWriter.step, call, appended, Except.toOption, hpage] using h
  | appendCommit txId => simpa [WalWriter.step, call, appended, Except.toOption] using h.append .commit txId 0 _
  | openDurable startingLsn =>
    by_cases hlsn : startingLsn = 0
    · simpa [WalWriter.step, call, appended, Except.toOption, hlsn] using h
    · have hheader : ¬ writer.file.length < walHeaderSize := Nat.not_lt.2 h.header
      have hopened : writer.step (.openDurable startingLsn) =
          ⟨writer.file, writer.file.length, startingLsn⟩ := by
        simp [WalWriter.step, call, hlsn, hheader, Except.toOption]
      rw [hopened]
      exact ⟨⟨rfl, h.header⟩, by simp [appended]⟩

theorem AtEnd.run (h : writer.AtEnd) (calls : List WalCall) :
    (writer.run calls).file = writer.file ++ ((writer.appendedBy calls).map encodeRecord).flatten := by
  induction calls generalizing writer with
  | nil => simp [WalWriter.run, appendedBy]
  | cons c calls ih =>
    have hstep := h.step c
    have hrest := ih hstep.1
    rw [hstep.2] at hrest
    rw [appendedBy, List.map_append, List.flatten_append, ← List.append_assoc]
    exact hrest

theorem file_run (calls : List WalCall) :
    (create.run calls).file = makeHeader ++ ((create.appendedBy calls).map encodeRecord).flatten := by
  have hfile : create.file = makeHeader := writeAt_end [] makeHeader
  rw [atEnd_create.run calls, hfile]

omit [PageSize] in
theorem encodable_record {type : WalRecordType} {payload : Bytes}
    (htype : WalRecordType.ofByte type.toByte = type) (hpayload : payload.length < 256 ^ 4)
    (txId pageId : UInt64) : (writer.record type txId pageId payload).Encodable where
  lsn := writer.nextLsn.toNat_lt
  txId := txId.toNat_lt
  type := htype
  pageId := pageId.toNat_lt
  payload := hpayload

theorem encodable_appended {c : WalCall} {record : WalRecord Bytes}
    (h : record ∈ writer.appended c) : record.Encodable := by
  cases c with
  | appendBegin txId =>
    obtain rfl : writer.record .begin txId 0 [] = record := by simpa [appended] using h
    exact encodable_record rfl (by decide) txId 0
  | appendPageImage txId pageId page =>
    obtain ⟨hpage, rfl⟩ : page.length = pageSize ∧
        writer.record .pageImage txId pageId page = record := by simpa [appended] using h
    exact encodable_record rfl (hpage ▸ Nat.lt_of_le_of_lt PageSize.upper (by decide)) txId pageId
  | appendCommit txId =>
    obtain rfl : writer.record .commit txId 0 (storeLe 8 writer.nextLsn.toNat) = record := by
      simpa [appended] using h
    exact encodable_record rfl (by simp) txId 0
  | openDurable startingLsn => simp [appended] at h

theorem encodable_appendedBy (calls : List WalCall) :
    ∀ record ∈ writer.appendedBy calls, record.Encodable := by
  induction calls generalizing writer with
  | nil => simp [appendedBy]
  | cons c calls ih =>
    intro record hmem
    rw [appendedBy, List.mem_append, Option.mem_toList] at hmem
    rcases hmem with hhere | hlater
    · exact encodable_appended hhere
    · exact ih record hlater

end WalWriter

/-! ### The scan of a cut log -/

theorem payloadLength_take {record : WalRecord Bytes} (h : record.Encodable) {cut : Nat}
    (hcut : recordFixedSize ≤ cut) :
    payloadLength ((encodeRecord record).take cut) = record.payload.length := by
  have hwhole := payloadLength_encode h []
  rw [List.append_nil] at hwhole
  rw [← hwhole, payloadLength, payloadLength, List.drop_take, List.take_take,
    Nat.min_eq_left (by unfold recordFixedSize at hcut; omega)]

theorem scanRecords_torn [PageSize] (mode : ReadMode) (fromLsn offset : Nat)
    {record : WalRecord Bytes} (h : record.Encodable) {cut : Nat} (hcut : cut < record.size) :
    scanRecords mode fromLsn offset ((encodeRecord record).take cut) =
      if mode = .strict ∧ cut ≠ 0 then
        .error ⟨.walCorrupt, if cut < recordFixedSize then
          "WAL has trailing truncated bytes (replication)" else "WAL truncated mid-record (replication)"⟩
      else .ok [] := by
  have hsize : recordFixedSize + record.payload.length + recordCrcSize = record.size := rfl
  have hlength : ((encodeRecord record).take cut).length = cut := by
    rw [List.length_take, length_encodeRecord, Nat.min_eq_left (Nat.le_of_lt hcut)]
  have hnil : (encodeRecord record).take cut ≠ [] ↔ cut ≠ 0 := by
    rw [← List.length_pos_iff, hlength, Nat.pos_iff_ne_zero]
  rw [scanRecords, hlength]
  by_cases hfixed : cut < recordFixedSize
  · rw [if_pos hfixed, if_pos hfixed]
    exact if_congr (and_congr_right fun _ => hnil) rfl rfl
  · have hpos : cut ≠ 0 := fun hzero => hfixed (hzero ▸ by decide)
    rw [if_neg hfixed, if_neg hfixed]
    simp only [payloadLength_take h (Nat.le_of_not_lt hfixed), hsize]
    rw [if_pos hcut]
    simp only [hpos, ne_eq, not_false_eq_true, and_true]

theorem lt_endOffset_of_mem_stamp [PageSize] {offset : Nat} {records : List (WalRecord Bytes)}
    {record : WalRecord Bytes} (h : record ∈ stamp offset records) : offset < record.endOffset := by
  induction records generalizing offset with
  | nil => simp [stamp] at h
  | cons first records ih =>
    have hpos := first.size_pos
    rcases List.mem_cons.1 h with rfl | hlater
    · exact Nat.lt_add_of_pos_right hpos
    · exact Nat.lt_trans (Nat.lt_add_of_pos_right hpos) (ih hlater)

theorem no_record_before [PageSize] {offset cut : Nat} {record : WalRecord Bytes}
    {records : List (WalRecord Bytes)} (hcut : cut < record.size) {r : WalRecord Bytes}
    (hr : r ∈ stamp offset (record :: records)) : ¬ r.endOffset ≤ offset + cut := by
  rcases List.mem_cons.1 hr with rfl | hlater
  · exact fun hle => absurd (Nat.le_of_add_le_add_left hle) (Nat.not_le.2 hcut)
  · have hlt := lt_endOffset_of_mem_stamp hlater
    omega

theorem scanRecords_take [PageSize] (mode : ReadMode) (fromLsn offset : Nat)
    {records : List (WalRecord Bytes)} (h : ∀ record ∈ records, record.Encodable) {cut : Nat}
    (hlength : cut ≤ (records.map encodeRecord).flatten.length) :
    (mode = .softEof ∨ offset + cut ∈ offset :: (stamp offset records).map (·.endOffset) →
      scanRecords mode fromLsn offset ((records.map encodeRecord).flatten.take cut) =
        .ok (((stamp offset records).filter (·.endOffset ≤ offset + cut)).filter
          (fromLsn ≤ ·.lsn))) ∧
    (mode = .strict ∧ offset + cut ∉ offset :: (stamp offset records).map (·.endOffset) →
      ∃ message, scanRecords mode fromLsn offset ((records.map encodeRecord).flatten.take cut) =
        .error ⟨.walCorrupt, message⟩) := by
  induction records generalizing offset cut with
  | nil =>
    obtain rfl : cut = 0 := by simpa using hlength
    simp [scanRecords, recordFixedSize, stamp]
  | cons record records ih =>
    have hrecord := h record List.mem_cons_self
    rw [List.map_cons, List.flatten_cons] at hlength ⊢
    by_cases hcut : cut < record.size
    · -- the first record is torn
      have hnone : ((stamp offset (record :: records)).filter (·.endOffset ≤ offset + cut)) = [] := by
        rw [List.filter_eq_nil_iff]
        intro r hr
        simpa using no_record_before hcut hr
      have hboundary : offset + cut ∈ offset :: (stamp offset (record :: records)).map (·.endOffset) ↔
          cut = 0 := by
        rw [List.mem_cons, List.mem_map]
        constructor
        · rintro (hzero | ⟨r, hr, hend⟩)
          · omega
          · exact absurd (Nat.le_of_eq hend) (no_record_before hcut hr)
        · exact fun hzero => .inl (by omega)
      rw [List.take_append_of_le_length (by rw [length_encodeRecord]; omega),
        scanRecords_torn mode fromLsn offset hrecord hcut, hnone, hboundary]
      constructor
      · rintro (rfl | rfl) <;> simp
      · rintro ⟨rfl, hpos⟩
        exact ⟨_, if_pos ⟨rfl, hpos⟩⟩
    · have htake : (encodeRecord record ++ (records.map encodeRecord).flatten).take cut =
          encodeRecord record ++ (records.map encodeRecord).flatten.take (cut - record.size) := by
        rw [List.take_append, length_encodeRecord, List.take_of_length_le]
        rw [length_encodeRecord]
        omega
      have hremaining : cut - record.size ≤ (records.map encodeRecord).flatten.length := by
        rw [List.length_append, length_encodeRecord] at hlength
        omega
      have hrest := ih (offset + record.size) (fun r hr => h r (List.mem_cons_of_mem _ hr)) hremaining
      have hcutoff : offset + record.size + (cut - record.size) = offset + cut := by omega
      rw [hcutoff] at hrest
      rw [htake, scanRecords_encode mode fromLsn offset hrecord]
      constructor
      · intro hread
        have hread' : mode = .softEof ∨ offset + cut ∈ (offset + record.size) ::
            (stamp (offset + record.size) records).map (·.endOffset) := by
          apply hread.imp_right
          intro hmem
          rcases List.mem_cons.1 hmem with hzero | hlater
          · have hpos := record.size_pos
            omega
          · exact hlater
        rw [hrest.1 hread']
        have hkept : offset + record.size ≤ offset + cut := by omega
        by_cases hlsn : fromLsn ≤ record.lsn
        · simp [Except.map, stamp, hkept, hlsn]
        · simp [Except.map, stamp, hkept, hlsn]
      · rintro ⟨rfl, hbetween⟩
        have hbetween' : offset + cut ∉ (offset + record.size) ::
            (stamp (offset + record.size) records).map (·.endOffset) :=
          fun hmem => hbetween (List.mem_cons_of_mem _ hmem)
        obtain ⟨message, hmessage⟩ := hrest.2 ⟨rfl, hbetween'⟩
        exact ⟨message, by rw [hmessage]; rfl⟩

/-! ### The reads of a cut log -/

theorem readWalRecords_header_cut [PageSize] (mode : ReadMode) (fromLsn : Nat) {file : Bytes}
    {cut : Nat} (hpos : 0 < cut) (hcut : cut < walHeaderSize) (hfile : walHeaderSize ≤ file.length) :
    readWalRecords (file.take cut) fromLsn mode walHeaderSize =
      .error ⟨.corruptFile, "WAL is smaller than its header"⟩ := by
  have hlength : (file.take cut).length = cut := by
    rw [List.length_take, Nat.min_eq_left (by omega)]
  have hnil : file.take cut ≠ [] := by
    rw [← List.length_pos_iff, hlength]
    exact hpos
  rw [readWalRecords, if_neg hnil, hlength, if_pos hcut]

/-- Every read of a log that has been cut: `mode` is that of the read, `fromLsn` the least LSN it
asks for. -/
structure CutRead [PageSize] (records : List (WalRecord Bytes)) (cut : Nat)
    (read : Nat → ReadMode → Except Error (List (WalRecord Bytes))) : Prop where
  /-- Nothing is left of the file. -/
  nothing : cut = 0 → ∀ fromLsn mode, read fromLsn mode = .ok []
  header : 0 < cut → cut < walHeaderSize → ∀ fromLsn mode,
    read fromLsn mode = .error ⟨.corruptFile, "WAL is smaller than its header"⟩
  tolerant : walHeaderSize ≤ cut → read 0 .softEof = .ok (recordsBefore cut records)
  tolerantFrom : walHeaderSize ≤ cut → ∀ fromLsn, read fromLsn .softEof =
    .ok ((recordsBefore cut records).filter (fromLsn ≤ ·.lsn))
  boundary : cut ∈ recordBoundaries records → ∀ fromLsn, read fromLsn .strict =
    .ok ((recordsBefore cut records).filter (fromLsn ≤ ·.lsn))
  between : walHeaderSize ≤ cut → cut ∉ recordBoundaries records → ∀ fromLsn, ∃ message,
    read fromLsn .strict = .error ⟨.walCorrupt, message⟩

/-- The reads of a log of appended records, cut anywhere. -/
theorem cut_reads [PageSize] (calls : List WalCall) (cut : Nat)
    (hcut : cut ≤ (WalWriter.create.run calls).file.length) :
    CutRead (WalWriter.create.appendedBy calls) cut fun fromLsn mode =>
      readWalRecords ((WalWriter.create.run calls).file.take cut) fromLsn mode walHeaderSize := by
  set records := WalWriter.create.appendedBy calls with hrecords
  have hencodable : ∀ record ∈ records, record.Encodable := WalWriter.encodable_appendedBy calls
  rw [WalWriter.file_run, ← hrecords] at hcut ⊢
  have hscan : ∀ mode fromLsn, walHeaderSize ≤ cut →
      readWalRecords ((makeHeader ++ (records.map encodeRecord).flatten).take cut) fromLsn mode
        walHeaderSize = scanRecords mode fromLsn walHeaderSize
          ((records.map encodeRecord).flatten.take (cut - walHeaderSize)) := by
    intro mode fromLsn hheader
    rw [List.take_append, length_makeHeader, List.take_of_length_le (by rwa [length_makeHeader]),
      readWalRecords_header]
  have hbody : walHeaderSize ≤ cut →
      cut - walHeaderSize ≤ (records.map encodeRecord).flatten.length := by
    intro hheader
    rw [List.length_append, length_makeHeader] at hcut
    omega
  have hsum : walHeaderSize ≤ cut → walHeaderSize + (cut - walHeaderSize) = cut :=
    Nat.add_sub_cancel'
  have htolerant : walHeaderSize ≤ cut → ∀ fromLsn,
      readWalRecords ((makeHeader ++ (records.map encodeRecord).flatten).take cut) fromLsn .softEof
        walHeaderSize = .ok ((recordsBefore cut records).filter (fromLsn ≤ ·.lsn)) := by
    intro hheader fromLsn
    have htake := (scanRecords_take .softEof fromLsn walHeaderSize hencodable (hbody hheader)).1
      (.inl rfl)
    rw [hsum hheader] at htake
    rw [hscan _ _ hheader, htake, recordsBefore]
  constructor
  · rintro rfl fromLsn mode
    simp [readWalRecords]
  · intro hpos hheader fromLsn mode
    apply readWalRecords_header_cut mode fromLsn hpos hheader
    rw [List.length_append, length_makeHeader]
    exact Nat.le_add_right _ _
  · intro hheader
    rw [htolerant hheader 0]
    simp
  · exact htolerant
  · intro hmem fromLsn
    have hheader : walHeaderSize ≤ cut := by
      rcases List.mem_cons.1 hmem with rfl | hend
      · exact Nat.le_refl _
      · obtain ⟨record, hrecord, rfl⟩ := List.mem_map.1 hend
        exact Nat.le_of_lt (lt_endOffset_of_mem_stamp hrecord)
    have htake := (scanRecords_take .strict fromLsn walHeaderSize hencodable (hbody hheader)).1
    rw [hsum hheader] at htake
    rw [hscan _ _ hheader, htake (.inr hmem), recordsBefore]
  · intro hheader hnot fromLsn
    have htake := (scanRecords_take .strict fromLsn walHeaderSize hencodable (hbody hheader)).2
    rw [hsum hheader] at htake
    obtain ⟨message, hmessage⟩ := htake ⟨rfl, hnot⟩
    exact ⟨message, by rw [hscan _ _ hheader, hmessage]⟩

/-- A log of one record, cut in that record. -/
theorem cut_reads_torn :
    @CutRead PageSize.default
      (@WalWriter.appendedBy PageSize.default (@WalWriter.create PageSize.default) [.appendBegin 1]) 40
      fun fromLsn mode => @readWalRecords PageSize.default
        ((@WalWriter.run PageSize.default (@WalWriter.create PageSize.default)
          [.appendBegin 1]).file.take 40) fromLsn mode walHeaderSize :=
  @cut_reads PageSize.default [.appendBegin 1] 40 (by decide +kernel)

/-- Cut inside its header, a log is refused by the tolerant read too. -/
theorem not_cut_reads_header :
    ¬ ∀ (_ : PageSize) (calls : List WalCall) (cut : Nat),
      cut ≤ (WalWriter.create.run calls).file.length →
      readWalRecords ((WalWriter.create.run calls).file.take cut) 0 .softEof walHeaderSize =
          .ok (recordsBefore cut (WalWriter.create.appendedBy calls)) ∧
        (cut ∉ recordBoundaries (WalWriter.create.appendedBy calls) → ∃ error,
          readWalRecords ((WalWriter.create.run calls).file.take cut) 0 .strict walHeaderSize =
            .error error) := by
  intro h
  have hcut : 10 ≤ (@WalWriter.run PageSize.default (@WalWriter.create PageSize.default) []).file.length :=
    by decide +kernel
  have hread := (h PageSize.default [] 10 hcut).1
  rw [@readWalRecords_header_cut PageSize.default .softEof 0 _ 10 (by decide) (by decide)
    (by decide +kernel)] at hread
  cases hread

end MoDb.Tx
