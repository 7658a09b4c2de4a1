import MoDb.Tx.Recovery
import MoDb.Tx.WalFile

/-!
# Recovery over a log file

What `recover` reads of a log of whole records, from the header or from an offset.
-/

namespace MoDb.Tx

open Storage

variable {P : Type} [PageSize]

theorem recordsFrom_eq (offset position : Nat) (records : List (LogRecord P)) :
    recordsFrom offset position records = [] ∨
      ∃ before rest, records = before ++ rest ∧ rest ≠ [] ∧
        offset = position + (before.map WalRecord.size).sum ∧
        recordsFrom offset position records = stamp offset rest := by
  induction records generalizing position with
  | nil => exact .inl rfl
  | cons record records ih =>
    by_cases hstart : offset = position
    · refine .inr ⟨[], record :: records, rfl, by simp, by simpa using hstart, ?_⟩
      simp [recordsFrom, hstart]
    · rw [recordsFrom, if_neg hstart]
      refine (ih (position + record.size)).imp_right ?_
      rintro ⟨before, rest, rfl, hrest, hoffset, hread⟩
      exact ⟨record :: before, rest, rfl, hrest, by simp [hoffset, Nat.add_assoc], hread⟩

theorem recordsFrom_self (position : Nat) (records : List (LogRecord P)) :
    recordsFrom position position records = stamp position records := by
  cases records <;> simp [recordsFrom, stamp]

theorem readAll_log (records : List (LogRecord P)) (torn : Nat) :
    (WalFile.log records torn).view.readAll = .ok (stamp walHeaderSize records) := by
  have hsize : walHeaderSize ≤ (WalFile.log records torn).size := by
    simp only [WalFile.size, WalFile.recordsEnd]
    omega
  unfold WalView.readAll WalFile.view WalFile.readFromOffset
  dsimp only
  rw [if_neg (by omega), recordsFrom_self]

theorem boundedTail_log {records : List (LogRecord P)} {torn afterLsn startOffset : Nat}
    {tail : List (LogRecord P)}
    (h : boundedTail (WalFile.log records torn).view afterLsn startOffset = some tail) :
    (∃ before rest, records = before ++ rest ∧ rest ≠ [] ∧
        startOffset = WalFile.recordsEnd before ∧ tail = stamp startOffset rest) ∨
      tail = [] ∧ startOffset = (WalFile.log records torn).size := by
  unfold boundedTail at h
  split at h
  · next hrange =>
    have hread : (WalFile.log records torn).view.readFromOffset startOffset =
        .ok (recordsFrom startOffset walHeaderSize records) := by
      have hin : ¬(startOffset < walHeaderSize ∨ (WalFile.log records torn).size < startOffset) :=
        not_or.2 ⟨Nat.not_lt.2 (Nat.le_of_lt hrange.1), Nat.not_lt.2 hrange.2⟩
      exact if_neg hin
    rw [hread] at h
    rcases recordsFrom_eq startOffset walHeaderSize records with hnil | hrest
    · rw [hnil] at h
      obtain ⟨hend, rfl⟩ : startOffset = _ ∧ tail = [] := by simpa [eq_comm] using h
      exact .inr ⟨rfl, hend⟩
    · obtain ⟨before, rest, hrecords, hrest, hoffset, heq⟩ := hrest
      refine .inl ⟨before, rest, hrecords, hrest, hoffset, ?_⟩
      rw [heq] at h
      cases rest with
      | nil => exact absurd rfl hrest
      | cons record rest =>
        rw [stamp] at h
        dsimp only at h
        split at h
        · exact (Option.some.inj h).symm
        · simp at h
  · simp at h

def EndsWithCommit (records : List (LogRecord P)) : Prop :=
  records = [] ∨ ∃ before commit, records = before ++ [commit] ∧ commit.type = .commit

omit [PageSize] in
theorem EndsWithCommit.append {first second : List (LogRecord P)} (hne : second ≠ [])
    (h : EndsWithCommit second) : EndsWithCommit (first ++ second) := by
  obtain ⟨before, commit, rfl, hcommit⟩ := h.resolve_left hne
  exact .inr ⟨first ++ before, commit, by simp, hcommit⟩

omit [PageSize] in
theorem EndsWithCommit.of_append {first second : List (LogRecord P)} (hne : second ≠ [])
    (h : EndsWithCommit (first ++ second)) : EndsWithCommit second := by
  rcases h with hnil | ⟨before, commit, hsplit, hcommit⟩
  · exact absurd (List.append_eq_nil_iff.1 hnil).2 hne
  · obtain ⟨init, last, rfl⟩ := (List.eq_nil_or_concat second).resolve_left hne
    rw [List.concat_eq_append, ← List.append_assoc] at hsplit
    obtain rfl := List.singleton_inj.1 (List.append_inj_right' hsplit rfl)
    exact .inr ⟨init, last, by simp, hcommit⟩

theorem survey_stamp_lastCommitEnd {offset : Nat} {records : List (LogRecord P)}
    (h : EndsWithCommit records) (result : RecoverResult) (hresult : result.lastCommitEnd = offset) :
    (survey (stamp offset records) result).lastCommitEnd =
      offset + (records.map WalRecord.size).sum := by
  rcases h with rfl | ⟨before, commit, rfl, hcommit⟩
  · simpa [stamp, survey] using hresult
  · rw [stamp_append, survey_append]
    simp [stamp, survey, hcommit, Nat.add_assoc]

theorem recover_lastCommitEnd {file file' : PageFile P} {records : List (LogRecord P)}
    {afterLsn startOffset : Nat} {result : RecoverResult} (hlog : EndsWithCommit records)
    (h : recover file (some (WalFile.log records 0).view) afterLsn startOffset =
      (.ok result, file')) :
    result.lastCommitEnd = WalFile.recordsEnd records := by
  have hreplay : ∀ {read : List (LogRecord P)} {start : RecoverResult},
      replayRecords read afterLsn start file = (.ok result, file') →
        result.lastCommitEnd = (survey read start).lastCommitEnd := by
    intro read start hrun
    unfold replayRecords at hrun
    have hredo := redo_result (committed read) afterLsn read (survey read start) (survey read start)
      file rfl rfl
    split at hrun
    · simp at hrun
    · next redone file'' hok =>
      rw [hok] at hredo
      simp only [Except.map, Prod.mk.injEq, Except.ok.injEq, and_true] at hredo hrun
      rw [← hrun.1, hredo]
  cases hbounded : boundedTail (WalFile.log records 0).view afterLsn startOffset with
  | none =>
    simp only [recover, hbounded, readAll_log] at h
    rw [hreplay h, survey_stamp_lastCommitEnd hlog _ (show _ = walHeaderSize from rfl)]
    rfl
  | some tail =>
    simp only [recover, hbounded] at h
    rw [hreplay h]
    rcases boundedTail_log hbounded with ⟨before, rest, rfl, hrest, hoffset, rfl⟩ | ⟨rfl, hend⟩
    · rw [survey_stamp_lastCommitEnd (EndsWithCommit.of_append hrest hlog) _ (show _ = startOffset from rfl), hoffset]
      simp [WalFile.recordsEnd, Nat.add_assoc]
    · exact hend

end MoDb.Tx
