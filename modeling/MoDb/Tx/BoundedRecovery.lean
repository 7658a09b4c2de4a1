import MoDb.Tx.Recovery
import MoDb.Tx.WalBytes

/-!
# Recovery from the checkpoint offset

Reading only the log past the recorded offset is meant to cost time at worst, never correctness. It
is correct for an offset that a checkpoint recorded in this log: the end of a commit record that the
checkpoint covers, like all before it. Then no image before the offset is written again by a full
read either, provided that no transaction id used before the offset commits again after it.

The test on the offset looks at one record only. An offset left over from a log that was removed can
pass it, and a transaction id that is used twice makes the full read apply images it should not.
-/

namespace MoDb.Tx

open Storage

variable {π P : Type} [WalPayload π P]

/-- `covered` is the part of a log that a checkpoint at `afterLsn` with offset `startOffset` leaves
out, and `rest` the part it keeps. -/
structure CheckpointOffset (covered rest : List (WalRecord π)) (afterLsn startOffset : Nat) :
    Prop where
  ends_with_commit : ∃ commit ∈ covered.getLast?, commit.type = .commit ∧
    commit.endOffset = startOffset
  covered_le : ∀ record ∈ covered, record.lsn ≤ afterLsn ∧ record.commitLsn ≤ afterLsn
  fresh : ∀ record ∈ covered, ∀ commit ∈ rest, commit.type = .commit → commit.txId ≠ record.txId

section Covered

variable {covered rest : List (WalRecord π)} {afterLsn startOffset : Nat}

theorem redoLsn_covered (h : CheckpointOffset covered rest afterLsn startOffset)
    {record : WalRecord π} (hmem : record ∈ covered) :
    redoLsn (committed (covered ++ rest)) afterLsn record = none := by
  unfold redoLsn
  split
  · rfl
  · have hrest : committed rest record.txId = none :=
      committed_eq_none fun commit hcommit htype => h.fresh record hmem commit hcommit htype
    rw [committed_append, hrest, Option.none_or]
    cases hlookup : committed covered record.txId with
    | none => rfl
    | some lsn =>
      obtain ⟨commit, hcommit, -, -, rfl⟩ := exists_commit_of_committed hlookup
      simpa using (h.covered_le commit hcommit).2

theorem redoLsn_rest (h : CheckpointOffset covered rest afterLsn startOffset)
    (record : WalRecord π) :
    redoLsn (committed (covered ++ rest)) afterLsn record =
      redoLsn (committed rest) afterLsn record := by
  unfold redoLsn
  split
  · rfl
  · rw [committed_append]
    cases committed rest record.txId with
    | some lsn => rfl
    | none =>
      rw [Option.none_or]
      cases hlookup : committed covered record.txId with
      | none => rfl
      | some lsn =>
        obtain ⟨commit, hcommit, -, -, rfl⟩ := exists_commit_of_committed hlookup
        simpa using (h.covered_le commit hcommit).2

theorem redo_covered_append (h : CheckpointOffset covered rest afterLsn startOffset)
    (result : RecoverResult) (file : PageFile P) :
    redo (committed (covered ++ rest)) afterLsn (covered ++ rest) result file =
      redo (committed rest) afterLsn rest result file := by
  rw [redo_append, redo_of_redoLsn_none fun record hmem => redoLsn_covered h hmem]
  exact redo_congr (fun record _ => redoLsn_rest h record) result file

theorem survey_covered_lastCommitEnd (h : CheckpointOffset covered rest afterLsn startOffset)
    (result result' : RecoverResult) (hstart : result'.lastCommitEnd = startOffset) :
    (survey (covered ++ rest) result).lastCommitEnd = (survey rest result').lastCommitEnd := by
  obtain ⟨commit, hlast, hcommit, hend⟩ := h.ends_with_commit
  rw [survey_append, survey_lastCommitEnd, survey_lastCommitEnd_of_getLast hlast hcommit, hend,
    survey_lastCommitEnd rest result', hstart]

theorem survey_covered_maxLsn (h : CheckpointOffset covered rest afterLsn startOffset)
    {first : WalRecord π} {others : List (WalRecord π)} (hrest : rest = first :: others)
    (hfirst : afterLsn < first.lsn) {result result' : RecoverResult} (hmax : result.maxLsn = 0)
    (hmax' : result'.maxLsn = 0) :
    (survey (covered ++ rest) result).maxLsn = (survey rest result').maxLsn := by
  have hcovered : (survey covered {}).maxLsn ≤ afterLsn :=
    survey_maxLsn_le fun record hmem => (h.covered_le record hmem).1
  have hmem : first ∈ rest := by simp [hrest]
  have htail : first.lsn ≤ (survey rest {}).maxLsn := lsn_le_survey_maxLsn hmem
  rw [survey_append, survey_maxLsn, survey_maxLsn covered, survey_maxLsn rest result', hmax, hmax']
  omega

theorem replayRecords_covered (h : CheckpointOffset covered rest afterLsn startOffset)
    (result result' : RecoverResult) (happlied : result.appliedAny = result'.appliedAny)
    (hmax : result.maxCommitLsn = result'.maxCommitLsn) (file : PageFile P) :
    (replayRecords rest afterLsn result' file).2 =
        (replayRecords (covered ++ rest) afterLsn result file).2 ∧
      ∀ (field : RecoverResult → Nat),
        (∀ result redone : RecoverResult, field { result with
          appliedAny := redone.appliedAny, maxCommitLsn := redone.maxCommitLsn } = field result) →
        field (survey rest result') = field (survey (covered ++ rest) result) →
        (replayRecords rest afterLsn result' file).1.map field =
          (replayRecords (covered ++ rest) afterLsn result file).1.map field := by
  have hsurvey : ∀ (records : List (WalRecord π)) (result : RecoverResult),
      (survey records result).appliedAny = result.appliedAny ∧
        (survey records result).maxCommitLsn = result.maxCommitLsn := by
    intro records result
    induction records using List.reverseRecOn with
    | nil => exact ⟨rfl, rfl⟩
    | append_singleton records record ih =>
      rw [survey_append]
      exact ih
  have hredo := redo_result (committed rest) afterLsn rest (survey rest result')
    (survey (covered ++ rest) result) file
    (by rw [(hsurvey _ _).1, (hsurvey _ _).1, happlied])
    (by rw [(hsurvey _ _).2, (hsurvey _ _).2, hmax])
  have hself := redo_result (committed rest) afterLsn rest (survey (covered ++ rest) result)
    (survey (covered ++ rest) result) file rfl rfl
  simp only [replayRecords, redo_covered_append h, hredo]
  cases hrun : redo (committed rest) afterLsn rest (survey (covered ++ rest) result) file with
  | mk outcome file' =>
    cases outcome with
    | error error => exact ⟨rfl, fun _ _ _ => rfl⟩
    | ok redone =>
      refine ⟨rfl, fun field hfield heq => ?_⟩
      rw [hrun] at hself
      simp only [Except.map, Prod.mk.injEq, Except.ok.injEq, and_true] at hself ⊢
      calc field _ = field (survey rest result') := hfield _ redone
        _ = field (survey (covered ++ rest) result) := heq
        _ = field _ := (hfield _ redone).symm
        _ = field redone := congrArg field hself.symm

end Covered

theorem recover_of_boundedTail_none {wal : WalView π} {afterLsn startOffset : Nat}
    (h : boundedTail wal afterLsn startOffset = none) (file : PageFile P) :
    recover file (some wal) afterLsn startOffset = recover file (some wal) afterLsn 0 := by
  have hzero : boundedTail wal afterLsn 0 = none := by simp [boundedTail]
  rw [recover, recover, h, hzero]

theorem recover_full {wal : WalView π} {records : List (WalRecord π)}
    (h : wal.readAll = .ok records) (file : PageFile P) (afterLsn : Nat) :
    recover file (some wal) afterLsn 0 =
      replayRecords records afterLsn { lastCommitEnd := walHeaderSize } file := by
  have hzero : boundedTail wal afterLsn 0 = none := by simp [boundedTail]
  simp only [recover, hzero, h]

theorem recover_of_checkpointOffset {wal : WalView π} {covered rest : List (WalRecord π)}
    {afterLsn startOffset : Nat} (hread : wal.readAll = .ok (covered ++ rest))
    (htail : wal.readFromOffset startOffset = .ok rest)
    (h : CheckpointOffset covered rest afterLsn startOffset) (file : PageFile P) :
    (recover file (some wal) afterLsn startOffset).2 = (recover file (some wal) afterLsn 0).2 ∧
      (recover file (some wal) afterLsn startOffset).1.map RecoverResult.lastCommitEnd =
        (recover file (some wal) afterLsn 0).1.map RecoverResult.lastCommitEnd ∧
      (rest ≠ [] → startOffset ≠ wal.size →
        (recover file (some wal) afterLsn startOffset).1.map RecoverResult.maxLsn =
          (recover file (some wal) afterLsn 0).1.map RecoverResult.maxLsn) := by
  cases hbounded : boundedTail wal afterLsn startOffset with
  | none => simp [recover_of_boundedTail_none hbounded]
  | some tail =>
    have hspec : tail = rest ∧ (∀ first ∈ rest.head?, startOffset = wal.size ∨ afterLsn < first.lsn) := by
      unfold boundedTail at hbounded
      rw [htail] at hbounded
      split at hbounded
      · cases rest with
        | nil =>
          obtain ⟨-, rfl⟩ : startOffset = wal.size ∧ tail = [] := by
            simpa [eq_comm] using hbounded
          simp
        | cons first rest => simpa [eq_comm, and_comm] using hbounded
      · simp at hbounded
    obtain ⟨rfl, hfirst⟩ := hspec
    have hfull := recover_full hread file afterLsn
    have hpart : recover file (some wal) afterLsn startOffset =
        replayRecords tail afterLsn { readFromOffset := true, lastCommitEnd := startOffset }
          file := by
      simp [recover, hbounded]
    rw [hfull, hpart]
    obtain ⟨hfile, hfield⟩ := replayRecords_covered h { lastCommitEnd := walHeaderSize }
      { readFromOffset := true, lastCommitEnd := startOffset } rfl rfl file
    refine ⟨hfile, hfield _ (fun _ _ => rfl) ?_, fun hrest hend => hfield _ (fun _ _ => rfl) ?_⟩
    · exact (survey_covered_lastCommitEnd h _ _ rfl).symm
    · cases tail with
      | nil => exact absurd rfl hrest
      | cons first others =>
        exact (survey_covered_maxLsn h rfl ((hfirst first (by simp)).resolve_left hend) rfl rfl).symm

/-! ### Over the file -/

theorem recover_at_end [PageSize] {wal : Bytes} (hlower : walHeaderSize < wal.length)
    (hread : (walView wal).readFromOffset wal.length = .ok []) (file : PageFile Page)
    (afterLsn : Nat) :
    recover file (some (walView wal)) afterLsn wal.length =
      (.ok { lastCommitEnd := wal.length, readFromOffset := true }, file) := by
  have hsize : wal.length = (walView wal).size := rfl
  have hbounded : boundedTail (walView wal) afterLsn wal.length = some [] := by
    simp only [boundedTail, hread]
    rw [if_pos ⟨hlower, Nat.le_of_eq hsize⟩, if_pos hsize]
  simp [recover, hbounded, replayRecords, redo, survey]

/-- **Bounded recovery.** An offset that the test rejects changes nothing. An offset that a
checkpoint recorded in this log gives the pages and the last commit end of a full read, and the last
LSN too when a record follows it. -/
theorem recover_bounded_eq_full [PageSize] (file : PageFile Page) (wal : Bytes)
    (afterLsn startOffset : Nat) :
    (boundedTail (walView wal) afterLsn startOffset = none →
      recover file (some (walView wal)) afterLsn startOffset =
        recover file (some (walView wal)) afterLsn 0) ∧
    ∀ covered rest, (walView wal).readAll = .ok (covered ++ rest) →
      CheckpointOffset covered rest afterLsn startOffset →
      (recover file (some (walView wal)) afterLsn startOffset).2 =
          (recover file (some (walView wal)) afterLsn 0).2 ∧
        (recover file (some (walView wal)) afterLsn startOffset).1.map
            RecoverResult.lastCommitEnd =
          (recover file (some (walView wal)) afterLsn 0).1.map RecoverResult.lastCommitEnd ∧
        (rest ≠ [] →
          (recover file (some (walView wal)) afterLsn startOffset).1.map RecoverResult.maxLsn =
            (recover file (some (walView wal)) afterLsn 0).1.map RecoverResult.maxLsn) ∧
        (startOffset = wal.length →
          (recover file (some (walView wal)) afterLsn startOffset).1.map RecoverResult.maxLsn =
            .ok 0) := by
  refine ⟨fun h => recover_of_boundedTail_none h file, fun covered rest hread h => ?_⟩
  obtain ⟨commit, hlast, -, rfl⟩ := h.ends_with_commit
  obtain ⟨hlower, hupper, htail⟩ := readWalRecords_drop hlast hread
  obtain ⟨hfile, hend, hlsn⟩ := recover_of_checkpointOffset hread htail h file
  have hat_end : commit.endOffset = wal.length → rest = [] := by
    intro hsize
    rw [hsize] at htail
    exact readWalRecords_end htail
  refine ⟨hfile, hend, fun hrest => hlsn hrest fun hsize => hrest (hat_end hsize), fun hsize => ?_⟩
  obtain rfl := hat_end hsize
  rw [hsize] at htail hlower ⊢
  rw [recover_at_end hlower htail]
  rfl

/-! ### Where the offset misleads -/

def onePageTransaction [PageSize] (lsn txId pageId : Nat) (page : Page) : List (WalRecord Bytes) :=
  [{ lsn := lsn, txId := txId, type := .begin, pageId := 0, payload := [] },
    { lsn := lsn + 1, txId := txId, type := .pageImage, pageId := pageId, payload := page.bytes },
    { lsn := lsn + 2, txId := txId, type := .commit, pageId := 0,
      payload := storeLe 8 (lsn + 2) }]

def walFile [PageSize] (records : List (WalRecord Bytes)) : Bytes :=
  makeHeader ++ (records.map encodeRecord).flatten

theorem readAll_walFile [PageSize] {records : List (WalRecord Bytes)}
    (h : ∀ record ∈ records, record.Encodable) :
    (walView (walFile records)).readAll = .ok (stamp walHeaderSize records) := by
  rw [readAll_walView, walFile, readWalRecords_encode .softEof h]

theorem onePageTransaction_encodable [PageSize] {lsn txId pageId : Nat} (page : Page)
    (hlsn : lsn + 2 < 256 ^ 8) (htx : txId < 256 ^ 8) (hpage : pageId < 256 ^ 8) :
    ∀ record ∈ onePageTransaction lsn txId pageId page, record.Encodable := by
  have hsize : page.bytes.length < 256 ^ 4 := by
    rw [page.length_bytes]
    exact Nat.lt_of_le_of_lt PageSize.upper (by decide)
  intro record hmem
  simp only [onePageTransaction, List.mem_cons, List.not_mem_nil, or_false] at hmem
  rcases hmem with rfl | rfl | rfl
  · exact ⟨by simp only; omega, htx, rfl, by simp, by simp⟩
  · exact ⟨by simp only; omega, htx, rfl, hpage, hsize⟩
  · exact ⟨hlsn, htx, rfl, by simp, by simp⟩

theorem length_walFile [PageSize] (records : List (WalRecord Bytes)) :
    (walFile records).length = walHeaderSize + (records.map WalRecord.size).sum := by
  simp [walFile, length_makeHeader, List.length_flatten, Function.comp_def, length_encodeRecord]

theorem recover_onePageTransaction [PageSize] {lsn txId pageId afterLsn : Nat} {page : Page}
    {file file' : PageFile Page} (hlsn : lsn + 2 < 256 ^ 8) (htx : txId < 256 ^ 8)
    (hpage : pageId < 256 ^ 8) (hafter : afterLsn < lsn + 2)
    (hwrite : file.writeRecoveredPage pageId page = .ok file') :
    recover file (some (walView (walFile (onePageTransaction lsn txId pageId page)))) afterLsn 0 =
      (.ok { maxCommitLsn := lsn + 2, appliedAny := true, maxLsn := lsn + 2, maxTxId := txId,
             lastCommitEnd := (walFile (onePageTransaction lsn txId pageId page)).length },
        file'.flush) := by
  have hread := readAll_walFile (onePageTransaction_encodable page hlsn htx hpage)
  have hload : loadLe ((storeLe 8 (lsn + 2)).take 8) = lsn + 2 := by
    rw [List.take_of_length_le (by simp), loadLe_storeLe_of_lt hlsn]
  rw [recover_full hread, length_walFile]
  simp [stamp, onePageTransaction, replayRecords, survey, committed, redo, redoLsn,
    WalRecord.commitLsn, WalPayload.commitLsn?, WalPayload.page?, hload, page.length_bytes, hwrite,
    hafter, Option.filter]
  omega

theorem recover_onePageTransaction_covered [PageSize] {lsn txId pageId afterLsn : Nat} (page : Page)
    (hlsn : lsn + 2 < 256 ^ 8) (htx : txId < 256 ^ 8) (hpage : pageId < 256 ^ 8)
    (hafter : lsn + 2 ≤ afterLsn) (file : PageFile Page) :
    recover file (some (walView (walFile (onePageTransaction lsn txId pageId page)))) afterLsn 0 =
      (.ok { maxLsn := lsn + 2, maxTxId := txId,
             lastCommitEnd := (walFile (onePageTransaction lsn txId pageId page)).length },
        file) := by
  have hread := readAll_walFile (onePageTransaction_encodable page hlsn htx hpage)
  have hload : loadLe ((storeLe 8 (lsn + 2)).take 8) = lsn + 2 := by
    rw [List.take_of_length_le (by simp), loadLe_storeLe_of_lt hlsn]
  rw [recover_full hread, length_walFile]
  simp [stamp, onePageTransaction, replayRecords, survey, committed, redo, redoLsn,
    WalRecord.commitLsn, WalPayload.commitLsn?, hload, Nat.not_lt.2 hafter, Option.filter]
  omega

theorem txId_of_mem_stamp_onePageTransaction [PageSize] {offset lsn txId pageId : Nat} {page : Page}
    {record : WalRecord Bytes} (h : record ∈ stamp offset (onePageTransaction lsn txId pageId page)) :
    record.txId = txId := by
  obtain ⟨old, hold, _, rfl⟩ := exists_of_mem_stamp h
  change old.txId = txId
  simp only [onePageTransaction, List.mem_cons, List.not_mem_nil, or_false] at hold
  rcases hold with rfl | rfl | rfl
  · rfl
  · rfl
  · rfl

theorem checkpointOffset_onePageTransaction [PageSize] (lsn txId pageId : Nat) (page : Page)
    (hlsn : lsn + 2 < 256 ^ 8) {rest : List (WalRecord Bytes)}
    (hrest : ∀ commit ∈ rest, commit.type = .commit → commit.txId ≠ txId) :
    CheckpointOffset (stamp walHeaderSize (onePageTransaction lsn txId pageId page)) rest (lsn + 2)
      (walFile (onePageTransaction lsn txId pageId page)).length where
  ends_with_commit := by
    rw [length_walFile]
    simp [stamp, onePageTransaction]
    omega
  covered_le := by
    have hload : loadLe ((storeLe 8 (lsn + 2)).take 8) = lsn + 2 := by
      rw [List.take_of_length_le (by simp), loadLe_storeLe_of_lt hlsn]
    intro record hmem
    simp only [stamp, onePageTransaction, List.mem_cons, List.not_mem_nil, or_false] at hmem
    rcases hmem with rfl | rfl | rfl <;>
      simp [WalRecord.commitLsn, WalPayload.commitLsn?, hload]
  fresh := by
    intro record hrecord
    rw [txId_of_mem_stamp_onePageTransaction hrecord]
    exact hrest

theorem recover_onePageTransaction_at_end [PageSize] {lsn txId pageId : Nat} (page : Page)
    (hlsn : lsn + 2 < 256 ^ 8) (htx : txId < 256 ^ 8) (hpage : pageId < 256 ^ 8)
    (file : PageFile Page) (afterLsn : Nat) :
    recover file (some (walView (walFile (onePageTransaction lsn txId pageId page)))) afterLsn
        (walFile (onePageTransaction lsn txId pageId page)).length =
      (.ok { lastCommitEnd := (walFile (onePageTransaction lsn txId pageId page)).length,
             readFromOffset := true }, file) := by
  have hread := readAll_walFile (onePageTransaction_encodable page hlsn htx hpage)
  have hcheck := @checkpointOffset_onePageTransaction _ lsn txId pageId page hlsn [] (by simp)
  obtain ⟨commit, hlast, -, hend⟩ := hcheck.ends_with_commit
  rw [← List.append_nil (stamp _ _)] at hread
  rw [readAll_walView] at hread
  obtain ⟨hlower, -, htail⟩ := readWalRecords_drop hlast hread
  rw [hend] at hlower htail
  exact recover_at_end hlower htail file afterLsn

def twoPageFile [PageSize] : PageFile Page where
  data := ⟨2, none, fun _ => default, 2⟩
  pageCount := 2
  catalogRoot := none

theorem length_walFile_onePageTransaction [PageSize] (lsn lsn' txId pageId : Nat)
    (page page' : Page) : (walFile (onePageTransaction lsn txId pageId page)).length =
      (walFile (onePageTransaction lsn' txId pageId page')).length := by
  simp [length_walFile, onePageTransaction, WalRecord.size, WalPayload.size, Page.length_bytes]

theorem recover_twoPageFile [PageSize] {lsn txId pageId afterLsn : Nat} {page : Page}
    (hlsn : lsn + 2 < 256 ^ 8) (htx : txId < 256 ^ 8) (hpage : pageId < 256 ^ 8)
    (hafter : afterLsn < lsn + 2) (hone : pageId = 1) :
    (recover twoPageFile (some (walView (walFile (onePageTransaction lsn txId pageId page))))
      afterLsn 0).2.data.pages pageId = page := by
  have hwrite : twoPageFile.writeRecoveredPage pageId page =
      .ok (twoPageFile.redoPage pageId page) := by
    simp [PageFile.writeRecoveredPage, hone]
  rw [recover_onePageTransaction hlsn htx hpage hafter hwrite]
  simp

theorem readAll_twoTransactions [PageSize] {first second : List (WalRecord Bytes)}
    (hfirst : ∀ record ∈ first, record.Encodable) (hsecond : ∀ record ∈ second, record.Encodable) :
    (walView (walFile (first ++ second))).readAll =
      .ok (stamp walHeaderSize first ++ stamp (walFile first).length second) := by
  have hencodable : ∀ record ∈ first ++ second, record.Encodable := by
    intro record hrecord
    rcases List.mem_append.1 hrecord with hrecord | hrecord
    · exact hfirst record hrecord
    · exact hsecond record hrecord
  rw [readAll_walFile hencodable, stamp_append, length_walFile]

section DefaultBuild

attribute [local instance] PageSize.default

def twoTransactions : List (WalRecord Bytes) :=
  onePageTransaction 1 1 1 (Page.fill 1) ++ onePageTransaction 4 2 1 (Page.fill 2)

def betweenTransactions : Nat := (walFile (onePageTransaction 1 1 1 (Page.fill 1))).length

/-- Started at the checkpoint, recovery does with the second transaction what a full read does with both. -/
theorem recover_bounded_eq_full_twoTransactions :
    (recover twoPageFile (some (walView (walFile twoTransactions))) 3 betweenTransactions).2 =
        (recover twoPageFile (some (walView (walFile twoTransactions))) 3 0).2 ∧
      (recover twoPageFile (some (walView (walFile twoTransactions))) 3 betweenTransactions).1.map
          RecoverResult.maxLsn =
        (recover twoPageFile (some (walView (walFile twoTransactions))) 3 0).1.map RecoverResult.maxLsn := by
  have hread := readAll_twoTransactions
    (onePageTransaction_encodable (Page.fill 1) (show 1 + 2 < 256 ^ 8 by decide)
      (show 1 < 256 ^ 8 by decide) (show 1 < 256 ^ 8 by decide))
    (onePageTransaction_encodable (Page.fill 2) (show 4 + 2 < 256 ^ 8 by decide)
      (show 2 < 256 ^ 8 by decide) (show 1 < 256 ^ 8 by decide))
  have hfresh : ∀ commit ∈ stamp betweenTransactions (onePageTransaction 4 2 1 (Page.fill 2)),
      commit.type = .commit → commit.txId ≠ 1 := by
    intro commit hcommit _
    rw [txId_of_mem_stamp_onePageTransaction hcommit]
    decide
  have hcheckpoint := checkpointOffset_onePageTransaction 1 1 1 (Page.fill 1) (by decide) hfresh
  obtain ⟨hfile, -, hlsn, -⟩ := (recover_bounded_eq_full twoPageFile (walFile twoTransactions) 3
    betweenTransactions).2 _ _ hread hcheckpoint
  exact ⟨hfile, hlsn (List.cons_ne_nil _ _)⟩

/-- A log of one transaction is checkpointed at its end. Started there, recovery reports no LSN where
a full read reports 3. Then the log is removed and a transaction of the same size is logged anew: the
offset left over is again the end of the file, and the transaction is not applied. -/
theorem recover_bounded_ne_full :
    CheckpointOffset (stamp walHeaderSize (onePageTransaction 1 1 1 (Page.fill 1))) [] 3
        (walFile (onePageTransaction 1 1 1 (Page.fill 1))).length ∧
      (recover twoPageFile (some (walView (walFile (onePageTransaction 1 1 1 (Page.fill 1))))) 3
        (walFile (onePageTransaction 1 1 1 (Page.fill 1))).length).1.map
          RecoverResult.maxLsn = .ok 0 ∧
      (recover twoPageFile (some (walView (walFile (onePageTransaction 1 1 1 (Page.fill 1))))) 3
        0).1.map RecoverResult.maxLsn = .ok 3 ∧
      (recover twoPageFile (some (walView (walFile (onePageTransaction 4 1 1 (Page.fill 2))))) 3
        (walFile (onePageTransaction 1 1 1 (Page.fill 1))).length).2.data.pages 1 =
          Page.fill 0 ∧
      (recover twoPageFile (some (walView (walFile (onePageTransaction 4 1 1 (Page.fill 2))))) 3
        0).2.data.pages 1 = Page.fill 2 ∧
      Page.fill 0 ≠ Page.fill 2 := by
  have hlength := length_walFile_onePageTransaction 1 4 1 1 (Page.fill 1) (Page.fill 2)
  refine ⟨checkpointOffset_onePageTransaction 1 1 1 _ (by decide) (by simp), ?_, ?_, ?_,
    recover_twoPageFile (by decide) (by decide) (by decide) (by decide) rfl,
    Page.fill_injective.ne (by decide)⟩
  · rw [recover_onePageTransaction_at_end _ (by decide) (by decide) (by decide)]
    rfl
  · rw [recover_onePageTransaction_covered _ (by decide) (by decide) (by decide) (by decide)]
    rfl
  · rw [hlength, recover_onePageTransaction_at_end _ (by decide) (by decide) (by decide)]
    exact Page.default_eq

end DefaultBuild

end MoDb.Tx
