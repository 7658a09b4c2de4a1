import MoDb.Storage.Page

/-!
# The write-ahead log

The log is redo-only: a transaction appends a begin record, one full image for each page it wrote
and a commit record whose payload repeats the commit's LSN. A record is read here with its payload
either as bytes, as the file holds it, or already taken apart, as the run-level models use it;
`WalPayload` is what recovery and replication need of either.
-/

namespace MoDb.Tx

open Storage

/-- `WalRecordType`. The reader casts the stored byte without a check, so any other code is kept. -/
inductive WalRecordType
  | begin
  | pageImage
  | commit
  | checkpoint
  | other (code : UInt8)
  deriving DecidableEq, Repr

structure WalRecord (π : Type) where
  lsn : Nat
  txId : Nat
  type : WalRecordType
  pageId : Nat
  payload : π
  /-- Offset in the file of the byte after the record; set by the reader only. -/
  endOffset : Nat := 0
  deriving DecidableEq, Repr

def walHeaderSize : Nat := 32
/-- `record_fixed_size`. -/
def recordFixedSize : Nat := 8 + 8 + 1 + 8 + 4
def recordCrcSize : Nat := 4

/-- How a payload `π` is read: its length in the file, the commit LSN it carries (none when it is
shorter than eight bytes) and the page it is the image of (none when its size is not the page's). -/
class WalPayload (π : Type) (P : outParam Type) where
  size : π → Nat
  commitLsn? : π → Option Nat
  page? : π → Option P

/-- A payload taken apart, over any type of page contents. -/
inductive LogPayload (P : Type)
  | empty
  | commitLsn (lsn : Nat)
  | page (page : P)
  deriving DecidableEq, Repr

instance [PageSize] (P : Type) : WalPayload (LogPayload P) P where
  size
    | .empty => 0
    | .commitLsn _ => 8
    | .page _ => pageSize
  commitLsn?
    | .commitLsn lsn => some lsn
    | _ => none
  page?
    | .page page => some page
    | _ => none

section Record

variable {π P : Type} [WalPayload π P]

/-- `WalRecord::commit_lsn`: a version-1 commit has no payload and stands at its own LSN. -/
def WalRecord.commitLsn (record : WalRecord π) : Nat :=
  if record.type ≠ .commit then record.lsn
  else (WalPayload.commitLsn? record.payload).getD record.lsn

def WalRecord.size (record : WalRecord π) : Nat :=
  recordFixedSize + WalPayload.size record.payload + recordCrcSize

theorem WalRecord.size_pos (record : WalRecord π) : 0 < record.size := by
  unfold WalRecord.size recordFixedSize
  omega

/-- The records with the offsets the reader gives them, when the first starts at `offset`. -/
def stamp : Nat → List (WalRecord π) → List (WalRecord π)
  | _, [] => []
  | offset, record :: records =>
    { record with endOffset := offset + record.size } :: stamp (offset + record.size) records

theorem stamp_append (offset : Nat) (first second : List (WalRecord π)) :
    stamp offset (first ++ second) =
      stamp offset first ++ stamp (offset + (first.map WalRecord.size).sum) second := by
  induction first generalizing offset with
  | nil => rfl
  | cons record first ih => simp [stamp, ih, Nat.add_assoc]

theorem exists_of_mem_stamp {offset : Nat} {records : List (WalRecord π)} {record : WalRecord π}
    (h : record ∈ stamp offset records) :
    ∃ old ∈ records, ∃ endOffset, record = { old with endOffset := endOffset } := by
  induction records generalizing offset with
  | nil => exact absurd h List.not_mem_nil
  | cons first records ih =>
    rcases List.mem_cons.1 h with rfl | h
    · exact ⟨first, List.mem_cons_self, _, rfl⟩
    · obtain ⟨old, hold, hsame⟩ := ih h
      exact ⟨old, List.mem_cons_of_mem _ hold, hsame⟩

end Record

/-- What a tolerant reader sees of a log file: its size, and what `read_from_offset` returns. -/
structure WalView (π : Type) where
  size : Nat
  readFromOffset : Nat → Except Error (List (WalRecord π))

/-- `Wal::read_all`. -/
def WalView.readAll {π : Type} (wal : WalView π) : Except Error (List (WalRecord π)) :=
  wal.readFromOffset walHeaderSize

end MoDb.Tx
