import MoDb.Storage.PageFile
import MoDb.Tx.Wal
import Mathlib.Data.List.Induction

/-!
# Redo recovery

`recover` reads the log, from the recorded checkpoint offset when a test on it passes and from the
header otherwise, finds which transactions committed, and writes their page images again, in log
order, leaving out those the checkpoint covers.
-/

namespace MoDb.Tx

open Storage

variable {π P : Type}

structure RecoverResult where
  maxCommitLsn : Nat := 0
  appliedAny : Bool := false
  maxLsn : Nat := 0
  maxTxId : Nat := 0
  lastCommitEnd : Nat := 0
  readFromOffset : Bool := false
  deriving DecidableEq, Repr

section Log

variable [WalPayload π P]

/-- `committed`, the map filled by the first pass: the commit LSN of the last commit record of each
transaction id. -/
def committed (records : List (WalRecord π)) : Nat → Option Nat :=
  records.foldl
    (fun map record =>
      if record.type = .commit then Function.update map record.txId (some record.commitLsn) else map)
    fun _ => none

def survey (records : List (WalRecord π)) (result : RecoverResult) : RecoverResult :=
  records.foldl
    (fun result record =>
      { result with
        lastCommitEnd := if record.type = .commit then record.endOffset else result.lastCommitEnd
        maxLsn := max result.maxLsn record.lsn
        maxTxId := max result.maxTxId record.txId })
    result

/-- The commit LSN under which the second pass applies the record, if it applies it at all. -/
def redoLsn (map : Nat → Option Nat) (afterLsn : Nat) (record : WalRecord π) : Option Nat :=
  if record.type ≠ .pageImage then none
  else (map record.txId).filter fun lsn => decide (afterLsn < lsn)

def redo (map : Nat → Option Nat) (afterLsn : Nat) :
    List (WalRecord π) → RecoverResult → PageFile P → Except Error RecoverResult × PageFile P
  | [], result, file => (.ok result, file)
  | record :: records, result, file =>
    match redoLsn map afterLsn record with
    | none => redo map afterLsn records result file
    | some lsn =>
      match WalPayload.page? record.payload with
      | none => (.error ⟨.corruptFile, "WAL page image has the wrong size"⟩, file)
      | some page =>
        match file.writeRecoveredPage record.pageId page with
        | .error error => (.error error, file)
        | .ok file =>
          redo map afterLsn records
            { result with appliedAny := true, maxCommitLsn := max result.maxCommitLsn lsn } file

/-- The test on the recorded offset: the records from there, when recovery may start there. -/
def boundedTail (wal : WalView π) (afterLsn startOffset : Nat) : Option (List (WalRecord π)) :=
  if walHeaderSize < startOffset ∧ startOffset ≤ wal.size then
    match wal.readFromOffset startOffset with
    | .error _ => none
    | .ok [] => if startOffset = wal.size then some [] else none
    | .ok (first :: rest) =>
      if startOffset = wal.size ∨ afterLsn < first.lsn then some (first :: rest) else none
  else none

def replayRecords (records : List (WalRecord π)) (afterLsn : Nat) (result : RecoverResult)
    (file : PageFile P) : Except Error RecoverResult × PageFile P :=
  match redo (committed records) afterLsn records (survey records result) file with
  | (.error error, file) => (.error error, file)
  | (.ok result, file) => (.ok result, if result.appliedAny then file.flush else file)

/-- `recover`; `none` is a log that does not exist. -/
def recover (file : PageFile P) (wal : Option (WalView π)) (afterLsn startOffset : Nat) :
    Except Error RecoverResult × PageFile P :=
  match wal with
  | none => (.ok {}, file)
  | some wal =>
    match boundedTail wal afterLsn startOffset with
    | some records =>
      replayRecords records afterLsn { readFromOffset := true, lastCommitEnd := startOffset } file
    | none =>
      match wal.readAll with
      | .error error =>
        (.error ⟨.walCorrupt, "cannot recover unreadable WAL: " ++ error.message⟩, file)
      | .ok records => replayRecords records afterLsn { lastCommitEnd := walHeaderSize } file

/-! ### Composition over the log -/

@[simp]
theorem committed_nil : committed ([] : List (WalRecord π)) = fun _ => none := rfl

theorem committed_append (first second : List (WalRecord π)) (txId : Nat) :
    committed (first ++ second) txId = (committed second txId).or (committed first txId) := by
  induction second using List.reverseRecOn with
  | nil => simp
  | append_singleton second record ih =>
    rw [← List.append_assoc]
    simp only [committed, List.foldl_append, List.foldl_cons, List.foldl_nil] at ih ⊢
    by_cases hcommit : record.type = .commit
    · by_cases htx : txId = record.txId
      · simp [hcommit, htx]
      · simpa [hcommit, htx] using ih
    · simpa [hcommit] using ih

theorem exists_commit_of_committed {records : List (WalRecord π)} {txId lsn : Nat}
    (h : committed records txId = some lsn) :
    ∃ record ∈ records, record.type = .commit ∧ record.txId = txId ∧ record.commitLsn = lsn := by
  induction records using List.reverseRecOn with
  | nil => simp at h
  | append_singleton records record ih =>
    simp only [committed, List.foldl_append, List.foldl_cons, List.foldl_nil] at h ih
    by_cases hcommit : record.type = .commit
    · by_cases htx : txId = record.txId
      · refine ⟨record, by simp, hcommit, htx.symm, ?_⟩
        simpa [hcommit, htx] using h
      · simp only [hcommit, if_true, ne_eq, htx, not_false_eq_true, Function.update_of_ne] at h
        obtain ⟨found, hmem, hfound⟩ := ih h
        exact ⟨found, by simp [hmem], hfound⟩
    · simp only [hcommit, if_false] at h
      obtain ⟨found, hmem, hfound⟩ := ih h
      exact ⟨found, by simp [hmem], hfound⟩

theorem committed_eq_none {records : List (WalRecord π)} {txId : Nat}
    (h : ∀ record ∈ records, record.type = .commit → record.txId ≠ txId) :
    committed records txId = none := by
  cases hlookup : committed records txId with
  | none => rfl
  | some lsn =>
    obtain ⟨record, hmem, hcommit, htx, -⟩ := exists_commit_of_committed hlookup
    exact absurd htx (h record hmem hcommit)

theorem survey_append (first second : List (WalRecord π)) (result : RecoverResult) :
    survey (first ++ second) result = survey second (survey first result) := by
  simp [survey, List.foldl_append]

theorem redo_append (map : Nat → Option Nat) (afterLsn : Nat) (first second : List (WalRecord π))
    (result : RecoverResult) (file : PageFile P) :
    redo map afterLsn (first ++ second) result file =
      match redo map afterLsn first result file with
      | (.error error, file) => (.error error, file)
      | (.ok result, file) => redo map afterLsn second result file := by
  induction first generalizing result file with
  | nil => rfl
  | cons record first ih =>
    simp only [List.cons_append, redo]
    split
    · exact ih _ _
    · split
      · rfl
      · split
        · rfl
        · exact ih _ _

theorem redo_of_redoLsn_none {map : Nat → Option Nat} {afterLsn : Nat}
    {records : List (WalRecord π)} (h : ∀ record ∈ records, redoLsn map afterLsn record = none)
    (result : RecoverResult) (file : PageFile P) :
    redo map afterLsn records result file = (.ok result, file) := by
  induction records with
  | nil => rfl
  | cons record records ih =>
    rw [redo, h record List.mem_cons_self]
    exact ih fun record hmem => h record (List.mem_cons_of_mem _ hmem)

theorem redo_congr {map map' : Nat → Option Nat} {afterLsn : Nat} {records : List (WalRecord π)}
    (h : ∀ record ∈ records, redoLsn map afterLsn record = redoLsn map' afterLsn record)
    (result : RecoverResult) (file : PageFile P) :
    redo map afterLsn records result file = redo map' afterLsn records result file := by
  induction records generalizing result file with
  | nil => rfl
  | cons record records ih =>
    have hrest := fun record hmem => h record (List.mem_cons_of_mem _ hmem)
    simp only [redo, h record List.mem_cons_self, ih hrest]

theorem redo_keeps {I : PageFile P → Prop}
    (hredo : ∀ file id page, I file → I (file.redoPage id page)) (map : Nat → Option Nat)
    (afterLsn : Nat) (records : List (WalRecord π)) (result : RecoverResult) {file : PageFile P}
    (h : I file) : I (redo map afterLsn records result file).2 := by
  induction records generalizing result file with
  | nil => exact h
  | cons record records ih =>
    rw [redo]
    split
    · exact ih _ h
    · split
      · exact h
      · unfold PageFile.writeRecoveredPage
        split_ifs
        · exact h
        · exact ih _ (hredo _ _ _ h)

theorem recover_keeps {I : PageFile P → Prop}
    (hredo : ∀ file id page, I file → I (file.redoPage id page))
    (hflush : ∀ file, I file → I file.flush) (wal : Option (WalView π)) (afterLsn startOffset : Nat)
    {file : PageFile P} (h : I file) : I (recover file wal afterLsn startOffset).2 := by
  have hreplay : ∀ (records : List (WalRecord π)) (result : RecoverResult),
      I (replayRecords records afterLsn result file).2 := by
    intro records result
    have hkept := redo_keeps hredo (committed records) afterLsn records (survey records result) h
    unfold replayRecords
    split
    · next hrun =>
      rw [hrun] at hkept
      exact hkept
    · next hrun =>
      rw [hrun] at hkept
      dsimp only
      split
      · exact hflush _ hkept
      · exact hkept
  unfold recover
  split
  · exact h
  · split
    · exact hreplay _ _
    · split
      · exact h
      · exact hreplay _ _

/-! ### The survey of the log -/

theorem survey_lastCommitEnd (records : List (WalRecord π)) (result : RecoverResult) :
    (survey records result).lastCommitEnd =
      (survey records { lastCommitEnd := result.lastCommitEnd }).lastCommitEnd := by
  induction records using List.reverseRecOn with
  | nil => rfl
  | append_singleton records record ih =>
    rw [survey_append, survey_append]
    simp only [survey, List.foldl_cons, List.foldl_nil] at ih ⊢
    rw [ih]

theorem survey_maxLsn (records : List (WalRecord π)) (result : RecoverResult) :
    (survey records result).maxLsn = max result.maxLsn (survey records {}).maxLsn := by
  induction records using List.reverseRecOn with
  | nil => simp [survey]
  | append_singleton records record ih =>
    rw [survey_append, survey_append]
    simp only [survey, List.foldl_cons, List.foldl_nil] at ih ⊢
    omega

theorem lsn_le_survey_maxLsn {records : List (WalRecord π)} {record : WalRecord π}
    (h : record ∈ records) : record.lsn ≤ (survey records {}).maxLsn := by
  induction records using List.reverseRecOn with
  | nil => simp at h
  | append_singleton records last ih =>
    rw [survey_append]
    simp only [survey, List.foldl_cons, List.foldl_nil] at ih ⊢
    rcases List.mem_append.1 h with hmem | hmem
    · exact Nat.le_trans (ih hmem) (Nat.le_max_left _ _)
    · obtain rfl := List.mem_singleton.1 hmem
      exact Nat.le_max_right _ _

theorem survey_maxLsn_le {records : List (WalRecord π)} {bound : Nat}
    (h : ∀ record ∈ records, record.lsn ≤ bound) : (survey records {}).maxLsn ≤ bound := by
  induction records using List.reverseRecOn with
  | nil => simp [survey]
  | append_singleton records last ih =>
    rw [survey_append]
    simp only [survey, List.foldl_cons, List.foldl_nil] at ih ⊢
    exact Nat.max_le.2 ⟨ih fun record hmem => h record (by simp [hmem]), h last (by simp)⟩

theorem survey_lastCommitEnd_of_getLast {records : List (WalRecord π)} {commit : WalRecord π}
    (hlast : commit ∈ records.getLast?) (hcommit : commit.type = .commit) (result : RecoverResult) :
    (survey records result).lastCommitEnd = commit.endOffset := by
  obtain ⟨before, rfl⟩ : ∃ before, records = before ++ [commit] :=
    List.getLast?_eq_some_iff.1 hlast
  rw [survey_append]
  simp [survey, hcommit]

theorem redo_result (map : Nat → Option Nat) (afterLsn : Nat) (records : List (WalRecord π))
    (result result' : RecoverResult) (file : PageFile P)
    (happlied : result.appliedAny = result'.appliedAny)
    (hmax : result.maxCommitLsn = result'.maxCommitLsn) :
    redo map afterLsn records result file =
      (Except.map
        (fun redone => { result with
          appliedAny := redone.appliedAny, maxCommitLsn := redone.maxCommitLsn })
        (redo map afterLsn records result' file).1, (redo map afterLsn records result' file).2) := by
  induction records generalizing result result' file with
  | nil => simp [redo, Except.map, ← happlied, ← hmax]
  | cons record records ih =>
    cases hredo : redoLsn map afterLsn record with
    | none => simpa only [redo, hredo] using ih result result' file happlied hmax
    | some lsn =>
      cases hpage : WalPayload.page? record.payload with
      | none => simp [redo, hredo, hpage, Except.map]
      | some page =>
        cases hwrite : file.writeRecoveredPage record.pageId page with
        | error error => simp [redo, hredo, hpage, hwrite, Except.map]
        | ok file' =>
          simp only [redo, hredo, hpage, hwrite]
          exact ih _ _ file' rfl (by rw [hmax])

end Log

end MoDb.Tx
