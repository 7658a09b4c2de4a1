import MoDb.Object.Database
import MoDb.Tx.Recovery

/-!
# Sessions

A session starts with `create` or `open` and ends with the destructor. Opening in `full` mode
recovers the data file from the log and cuts what a dead transaction left at its end; opening in
`wal_only` mode starts from an empty data file and recovers into it.
-/

namespace MoDb.Object

open Storage Tx

/-- What a session leaves behind. -/
structure Disk (δ : Type) where
  data : DataFile (PageContent δ)
  wal : Option (WalFile (PageContent δ)) := none
  control : Option InstanceControl := none

namespace Database

variable {δ κ : Type} [StoreParts δ κ]

/-- `Database::create`, with the uuid it draws. -/
def create (primaryStorage : PrimaryStorage) (checkpointInterval databaseUuid : Nat) :
    Except Error (Database δ κ) := do
  let (store, file) ← ObjectStore.create databaseUuid PageFile.create
  let db : Database δ κ :=
    { file := file
      store := store
      publishedEpoch := store.root.epoch
      primaryStorage := primaryStorage
      checkpointInterval := max 1 checkpointInterval }
  match primaryStorage with
  | .full => return db
  | .walOnly => return Effect.after (persistInstanceControl db)

section Open

variable [PageSize]

/-- `truncate_wal_after_last_commit`. -/
def truncateWalAfterLastCommit (lastCommitEnd : Nat) : Action δ κ Unit := do
  if walHeaderSize ≤ lastCommitEnd then
    match (← get).wal with
    | none => return ()
    | some wal =>
      if lastCommitEnd < wal.size then
        modify fun db =>
          { db.record (.wal (.truncate lastCommitEnd)) with wal := some (wal.truncate lastCommitEnd) }
        syncWal

def repairNextLsn (recovered : RecoverResult) : Action δ κ Unit := do
  let db ← get
  if 0 < recovered.maxLsn ∧ db.store.root.nextLsn < recovered.maxLsn + 1 then
    setNextLsn (recovered.maxLsn + 1)

/-- The checkpoint covers what recovery applied, and its offset is the end of the log. -/
def coverRecovered (recovered : RecoverResult) : Action δ κ Unit := do
  let root := (← get).store.root
  let checkpoint := max root.checkpointLsn recovered.maxCommitLsn
  let offset := recovered.lastCommitEnd
  if checkpoint ≠ root.checkpointLsn ∨
      (walHeaderSize ≤ offset ∧ offset ≠ root.checkpointWalOffset) then
    setCheckpointLsn checkpoint offset
    flush

/-- The end of `Database::open`, after recovery and `ObjectStore::open`. -/
def resume (recovered : RecoverResult) : Action δ κ Unit := do
  truncateWalAfterLastCommit recovered.lastCommitEnd
  repairNextLsn recovered
  coverRecovered recovered
  modify fun db => { db with nextTxId := max 1 (recovered.maxTxId + 1) }

/-- The checkpoint and the log offset that the root page of a data file records. -/
def recordedCheckpoint (file : PageFile (PageContent δ)) : Nat × Nat :=
  match DatabaseRoot.open file with
  | .ok (_, root) => (root.checkpointLsn, root.checkpointWalOffset)
  | .error _ => (0, 0)

/-- `Database::open` in `full` mode. -/
def «open» (disk : Disk δ) (checkpointInterval : Nat) : Except Error (Database δ κ) := do
  let walPresent := disk.wal.any fun wal => decide (0 < wal.size)
  let file ← PageFile.open disk.data walPresent
  let (afterLsn, startOffset) := recordedCheckpoint file
  match recover file (disk.wal.map WalFile.view) afterLsn startOffset with
  | (.error error, _) => throw error
  | (.ok recovered, file) =>
    let store ← ObjectStore.open file
    let db : Database δ κ :=
      { file := file
        store := store
        publishedEpoch := store.root.epoch
        wal := disk.wal
        checkpointInterval := max 1 checkpointInterval }
    match resume recovered db with
    | .error error _ => throw error
    | .ok _ db => return db

def setReplicationIdentity (control : InstanceControl) : Action δ κ Unit := do
  setRoot fun root => { root with databaseUuid := control.databaseUuid }
  setRoot fun root =>
    { root with timelineId := if control.timelineId = 0 then 1 else control.timelineId }

/-- In `wal_only` mode the checkpoint has no offset. -/
def raiseCheckpoint (recovered : RecoverResult) : Action δ κ Unit := do
  let db ← get
  if db.store.root.checkpointLsn < recovered.maxCommitLsn then
    setCheckpointLsn recovered.maxCommitLsn 0

/-- The end of `Database::open` in `wal_only` mode, after recovery and `ObjectStore::open`. -/
def resumeWalOnly (control : InstanceControl) (recovered : RecoverResult) : Action δ κ Unit := do
  setReplicationIdentity control
  setNextLsn control.nextLsn
  setCheckpointLsn control.checkpointLsn 0
  setRoot fun root => { root with followerAckLsn := control.followerAckLsn }
  raiseCheckpoint recovered
  repairNextLsn recovered
  truncateWalAfterLastCommit recovered.lastCommitEnd
  modify fun db => { db with nextTxId := max 1 (recovered.maxTxId + 1) }
  persistInstanceControl

/-- `Database::open` in `wal_only` mode: the data file is created anew, with the uuid that
`ObjectStore::create` draws before the one of the control file replaces it. -/
def openWalOnly (wal : Option (WalFile (PageContent δ))) (control : InstanceControl)
    (databaseUuid : Nat) : Except Error (Database δ κ) := do
  let (store, file) ← ObjectStore.create databaseUuid PageFile.create
  let seed : Database δ κ :=
    { file := file
      store := store
      publishedEpoch := store.root.epoch
      wal := wal
      primaryStorage := .walOnly
      control := some control }
  match (do setReplicationIdentity control; flush : Action δ κ Unit) seed with
  | .error error _ => throw error
  | .ok _ seed =>
    match recover seed.file (wal.map WalFile.view) control.checkpointLsn 0 with
    | (.error error, _) => throw error
    | (.ok recovered, file) =>
      let store ← ObjectStore.open file
      let db : Database δ κ :=
        { seed with file := file, store := store, publishedEpoch := store.root.epoch }
      match resumeWalOnly control recovered db with
      | .error error _ => throw error
      | .ok _ db => return db

end Open

omit [StoreParts δ κ] in
/-- `~Database`: in `full` mode the pending commits are checkpointed. -/
def close (db : Database δ κ) : Disk δ :=
  let db :=
    if db.primaryStorage = .full ∧ ¬db.file.inTransaction ∧ 0 < db.commitsSinceCheckpoint then
      Effect.after (advanceCheckpoint db)
    else db
  { data := db.file.data, wal := db.wal, control := db.control }

end Database

end MoDb.Object
