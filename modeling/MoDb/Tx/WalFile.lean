import MoDb.Tx.TransactionLog

/-!
# The log file

The log as the file system holds it: whole records after the header, and then perhaps bytes in which
the scan finds no record. A file shorter than its header is a residue, which the writer replaces and
the reader refuses. A `Wal` is a handle that appends.
-/

namespace MoDb.Tx

open Storage

variable {P : Type}

inductive WalFile (P : Type)
  /-- Fewer bytes than the header. -/
  | residue (size : Fin walHeaderSize)
  /-- The records after the header, and the bytes after them that are no record. -/
  | log (records : List (LogRecord P)) (torn : Nat)

/-- One effect on the log file. -/
inductive WalIo (P : Type)
  | header
  | append (offset : Nat) (record : LogRecord P)
  | truncate (size : Nat)
  | sync
  | remove

/-- A writer's handle. -/
structure Wal where
  writeOffset : Nat
  nextLsn : Nat
  deriving DecidableEq, Repr

/-- The records of `records`, the first at offset `position`, that start at `offset`. -/
def recordsFrom [PageSize] (offset : Nat) :
    Nat → List (LogRecord P) → List (LogRecord P)
  | _, [] => []
  | position, record :: records =>
    if offset = position then stamp position (record :: records)
    else recordsFrom offset (position + record.size) records

namespace WalFile

variable [PageSize]

def recordsEnd (records : List (LogRecord P)) : Nat :=
  walHeaderSize + (records.map WalRecord.size).sum

/-- `file_size`. -/
def size : WalFile P → Nat
  | residue size => size
  | log records torn => recordsEnd records + torn

/-- `Wal::read_from_offset`. -/
def readFromOffset (wal : WalFile P) (offset : Nat) : Except Error (List (LogRecord P)) :=
  match wal with
  | residue size =>
    if size.val = 0 then .ok [] else .error ⟨.corruptFile, "WAL is smaller than its header"⟩
  | log records _ =>
    if offset < walHeaderSize ∨ wal.size < offset then
      .error ⟨.invalidArgument, "WAL start offset out of range"⟩
    else .ok (recordsFrom offset walHeaderSize records)

/-- `Wal::read_for_replication`: any byte that is not of a whole record is an error. -/
def readForReplication (wal : Option (WalFile P)) (fromLsn : Nat) :
    Except Error (List (LogRecord P)) :=
  match wal with
  | none => .ok []
  | some (residue size) =>
    if size.val = 0 then .ok [] else .error ⟨.corruptFile, "WAL is smaller than its header"⟩
  | some (log records torn) =>
    if torn = 0 then
      .ok ((stamp walHeaderSize records).filter fun record => decide (fromLsn ≤ record.lsn))
    else if torn < recordFixedSize then
      .error ⟨.walCorrupt, "WAL has trailing truncated bytes (replication)"⟩
    else .error ⟨.walCorrupt, "WAL truncated mid-record (replication)"⟩

def view (wal : WalFile P) : WalView (LogPayload P) := ⟨wal.size, wal.readFromOffset⟩

/-- A record written at `offset`. The scan reaches it only when no other bytes stand before it. -/
def append (wal : WalFile P) (offset : Nat) (record : LogRecord P) : WalFile P :=
  match wal with
  | residue size => residue size
  | log records torn =>
    if offset = recordsEnd records then log (records ++ [record]) (torn - record.size)
    else log records (max torn (offset + record.size - recordsEnd records))

/-- The `bytes` that a failed write left at `offset`. -/
def tear (wal : WalFile P) (offset bytes : Nat) : WalFile P :=
  match wal with
  | residue size => residue size
  | log records torn => log records (max torn (offset + bytes - recordsEnd records))

/-- The records that end within `limit`, the first at `position`, and the bytes left after them. -/
def cut (limit : Nat) : Nat → List (LogRecord P) → List (LogRecord P) × Nat
  | position, [] => ([], limit - position)
  | position, record :: records =>
    if position + record.size ≤ limit then
      let rest := cut limit (position + record.size) records
      (record :: rest.1, rest.2)
    else ([], limit - position)

/-- `resize_file` to a smaller size. -/
def truncate (wal : WalFile P) (limit : Nat) : WalFile P :=
  match wal with
  | residue size => residue size
  | log records torn =>
    if wal.size ≤ limit then log records torn
    else
      let kept := cut limit walHeaderSize records
      log kept.1 kept.2

end WalFile

end MoDb.Tx
