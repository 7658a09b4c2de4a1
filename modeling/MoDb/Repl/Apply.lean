import MoDb.Tx.TransactionLog

/-!
# Replica apply

`apply_wal_records` applies a batch of records to a replica that has applied everything up to some
LSN. It refuses a batch that would skip an LSN, drops what is applied already, and writes the images
of the transactions whose commit record is in the batch.
-/

namespace MoDb.Repl

open Storage Tx

variable {π P : Type} [WalPayload π P]

def checkContinuity : Nat → List (WalRecord π) → Except Error Unit
  | _, [] => .ok ()
  | expected, record :: records =>
    if record.lsn < expected then checkContinuity expected records
    else if expected < record.lsn then
      .error ⟨.replicationGap, s!"WAL gap: expected {expected} got {record.lsn}"⟩
    else checkContinuity (expected + 1) records

/-- The pass that writes the images; it carries `max_applied`. -/
def applyLoop (map : Nat → Option Nat) (appliedLsn : Nat) :
    List (WalRecord π) → Nat → PageFile P → Except Error Nat × PageFile P
  | [], maxApplied, file => (.ok maxApplied, file)
  | record :: records, maxApplied, file =>
    if record.type ≠ .pageImage then
      let maxApplied :=
        if record.type = .commit ∧ appliedLsn < record.commitLsn ∧ maxApplied < record.commitLsn then
          record.commitLsn
        else maxApplied
      applyLoop map appliedLsn records maxApplied file
    else
      match redoLsn map appliedLsn record with
      | none => applyLoop map appliedLsn records maxApplied file
      | some lsn =>
        match WalPayload.page? record.payload with
        | none => (.error ⟨.corruptFile, "replicated page image has wrong size"⟩, file)
        | some page =>
          match file.writeRecoveredPage record.pageId page with
          | .error error => (.error error, file)
          | .ok file => applyLoop map appliedLsn records (max maxApplied lsn) file

/-- `apply_wal_records`: the new applied LSN and the replica's file. -/
def applyWalRecords (file : PageFile P) (records : List (WalRecord π)) (appliedLsn : Nat) :
    Except Error Nat × PageFile P :=
  let expected := if appliedLsn = 0 then 1 else appliedLsn + 1
  match checkContinuity expected records with
  | .error error => (.error error, file)
  | .ok () =>
    match applyLoop (committed records) appliedLsn records appliedLsn file with
    | (.error error, file) => (.error error, file)
    | (.ok maxApplied, file) =>
      (.ok maxApplied, if appliedLsn < maxApplied then file.flush else file)

/-- Hand a batch to the replica, with the LSN it has applied so far; on an error it stays where it
was. -/
def deliver (state : PageFile P × Nat) (batch : List (WalRecord π)) : PageFile P × Nat :=
  match applyWalRecords state.1 batch state.2 with
  | (.error _, file) => (file, state.2)
  | (.ok appliedLsn, file) => (file, appliedLsn)

end MoDb.Repl
