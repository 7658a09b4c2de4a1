import MoDb.Lib.Effect
import MoDb.Object.DatabaseRoot
import MoDb.Tx.WalFile

/-!
# The database

One data file, one log, one object store, and one transaction at a time. A commit appends the
transaction to the log and syncs it; only then do its pages go to the data file. In `full` mode the
checkpoint follows every `checkpoint_interval` commits; in `wal_only` mode the data file is scratch
and a control file records the checkpoint at every commit.

The effects on the disk are kept in the order in which they were issued: `history` is the whole
trace. An operation that fails keeps what it did before.
-/

namespace MoDb.Object

open Storage Tx

inductive PrimaryStorage
  | full
  | walOnly
  deriving DecidableEq, Repr

structure InstanceControl where
  databaseUuid : Nat
  timelineId : Nat
  nextLsn : Nat
  checkpointLsn : Nat
  followerAckLsn : Nat
  deriving DecidableEq, Repr

/-- One effect on the disk. -/
inductive Io (P : Type)
  | data (io : DataIo P)
  | wal (io : WalIo P)
  | control (control : InstanceControl)

/-- When the log's device fails: the operations it still performs, and the bytes that the write
after them leaves. -/
structure WalFault where
  operations : Nat
  torn : Nat

structure Database (δ κ : Type) where
  file : PageFile (PageContent δ)
  store : ObjectStore κ
  publishedEpoch : Nat
  /-- The file at `wal_path_`. -/
  wal : Option (WalFile (PageContent δ)) := none
  openWal : Option Wal := none
  primaryStorage : PrimaryStorage := .full
  /-- The file at `instance_path_`, in `wal_only` mode. -/
  control : Option InstanceControl := none
  checkpointInterval : Nat := 1
  commitsSinceCheckpoint : Nat := 0
  lastCommitLsn : Nat := 0
  nextTxId : Nat := 1
  currentTxId : Nat := 0
  commitDurable : Bool := false
  walFault : Option WalFault := none
  trace : List (Io (PageContent δ)) := []

namespace Database

variable {δ κ : Type}

abbrev Action (δ κ α : Type) := EStateM Error (Database δ κ) α

def history (db : Database δ κ) : List (Io (PageContent δ)) :=
  db.trace ++ db.file.trace.map .data

def record (db : Database δ κ) (io : Io (PageContent δ)) : Database δ κ :=
  { db with trace := db.history ++ [io], file := { db.file with trace := [] } }

/-! ### The root page -/

/-- Change the mirror of the root and write its page, as every setter does. -/
def setRoot (change : DatabaseRoot → DatabaseRoot) : Action δ κ Unit := fun db =>
  match (change db.store.root).persist db.store.rootPage db.file with
  | .error error => .error error db
  | .ok file => .ok () { db with file := file, store.root := change db.store.root }

/-- `DatabaseRoot::advance_epoch`. -/
def advanceEpoch : Action δ κ Unit := do
  if (← get).store.root.epoch = maxU64 then
    throw ⟨.valueTooLarge, "database epoch is exhausted"⟩
  setRoot fun root => { root with epoch := root.epoch + 1 }

/-- `DatabaseRoot::set_next_lsn`. -/
def setNextLsn (next : Nat) : Action δ κ Unit := do
  if next = 0 then throw ⟨.invalidArgument, "next_lsn must be >= 1"⟩
  setRoot fun root => { root with nextLsn := next }

/-- `DatabaseRoot::set_checkpoint_lsn`. -/
def setCheckpointLsn (lsn walOffset : Nat) : Action δ κ Unit :=
  setRoot fun root => { root with checkpointLsn := lsn, checkpointWalOffset := walOffset }

/-- `ObjectStore::allocate_object_id`. -/
def allocateObjectId : Action δ κ Nat := do
  let id := (← get).store.root.nextObjectId
  if id = 0 ∨ id = maxU64 then throw ⟨.valueTooLarge, "ObjectId space exhausted"⟩
  setRoot fun root => { root with nextObjectId := id + 1 }
  return id

/-- `ObjectStore::ensure_next_object_id_at_least`. -/
def ensureNextObjectIdAtLeast (atLeast : Nat) : Action δ κ Unit := do
  if (← get).store.root.nextObjectId < atLeast then
    setRoot fun root => { root with nextObjectId := atLeast }

/-- `publish_epoch`. -/
def publishEpoch : Action δ κ Unit :=
  modify fun db => { db with publishedEpoch := db.store.root.epoch }

/-- `persist_instance_control`. -/
def persistInstanceControl : Action δ κ Unit :=
  modify fun db =>
    let root := db.store.root
    let control : InstanceControl :=
      ⟨root.databaseUuid, root.timelineId, root.nextLsn, root.checkpointLsn, root.followerAckLsn⟩
    { db.record (.control control) with control := some control }

/-- `PageFile::flush`. -/
def flush : Action δ κ Unit := modify fun db => { db with file := db.file.flush }

/-! ### The log -/

section Log

variable [PageSize]

/-- One operation on the log's device: `perform` when it succeeds, `fail` with the bytes that the
failed write leaves. -/
def onDevice (perform : Database δ κ → Database δ κ) (fail : Nat → Database δ κ → Database δ κ) :
    Action δ κ Unit := fun db =>
  match db.walFault with
  | none => .ok () (perform db)
  | some ⟨0, torn⟩ => .error ⟨.ioError, "write failed"⟩ (fail torn db)
  | some ⟨operations + 1, torn⟩ =>
    .ok () { perform db with walFault := some ⟨operations, torn⟩ }

def writeHeader : Action δ κ Unit :=
  onDevice (fun db => { db.record (.wal .header) with wal := some (.log [] 0) })
    fun _ db => { db with wal := some (db.wal.getD (.residue ⟨0, by decide⟩)) }

/-- `Wal::open_durable`. -/
def openDurable (startingLsn : Nat) : Action δ κ Wal := do
  modify fun db => { db with openWal := none }
  if startingLsn = 0 then throw ⟨.invalidArgument, "starting_lsn must be >= 1"⟩
  match (← get).wal with
  | some (.log records torn) =>
    let wal : Wal := ⟨(WalFile.log records torn).size, startingLsn⟩
    modify fun db => { db with openWal := some wal }
    return wal
  | _ =>
    writeHeader
    let wal : Wal := ⟨walHeaderSize, startingLsn⟩
    modify fun db => { db with openWal := some wal }
    return wal

/-- `durable_wal`: the open handle, unless its LSN is not the root's. -/
def durableWal : Action δ κ Wal := do
  let db ← get
  match db.openWal with
  | some wal =>
    if wal.nextLsn = db.store.root.nextLsn then return wal
    else openDurable db.store.root.nextLsn
  | none => openDurable db.store.root.nextLsn

/-- `Wal::append`, given the record at each LSN. -/
def append (recordAt : Nat → LogRecord (PageContent δ)) (wal : Wal) : Action δ κ Wal := do
  let record := recordAt wal.nextLsn
  onDevice
    (fun db =>
      { db.record (.wal (.append wal.writeOffset record)) with
        wal := db.wal.map fun file => file.append wal.writeOffset record })
    fun torn db => { db with wal := db.wal.map fun file => file.tear wal.writeOffset torn }
  let wal : Wal := ⟨wal.writeOffset + record.size, wal.nextLsn + 1⟩
  modify fun db => { db with openWal := some wal }
  return wal

/-- The page images of a transaction, appended in the order of its buffer. -/
def appendImages (txId : Nat) : List (Nat × PageContent δ) → Wal → Action δ κ Wal
  | [], wal => return wal
  | image :: images, wal => do
    let wal ← append (fun lsn => imageRecord lsn txId image) wal
    appendImages txId images wal

/-- `Wal::sync`. -/
def syncWal : Action δ κ Unit :=
  onDevice (fun db => db.record (.wal .sync)) fun _ db => db

/-- `remove` of the log's path, with its handle closed. -/
def removeWal : Action δ κ Unit :=
  modify fun db => { db.record (.wal .remove) with wal := none, openWal := none }

end Log

/-! ### Transactions -/

/-- `Database::advance_checkpoint`. -/
def advanceCheckpoint : Action δ κ Unit := do
  if (← get).commitsSinceCheckpoint ≠ 0 then
    flush
    let db ← get
    setCheckpointLsn db.lastCommitLsn ((db.openWal.map Wal.writeOffset).getD 0)
    flush
    modify fun db => { db with commitsSinceCheckpoint := 0 }

/-- `Database::checkpoint`. -/
def checkpoint : Action δ κ Unit := do
  let db ← get
  if db.primaryStorage ≠ .walOnly then
    if db.file.inTransaction then
      throw ⟨.transactionActive, "checkpoint requires no active transaction"⟩
    advanceCheckpoint

/-- `Database::begin`. -/
def begin : Action δ κ Unit := do
  if (← get).file.inTransaction then
    throw ⟨.transactionActive, "a transaction is already in progress"⟩
  modify fun db =>
    { db with
      currentTxId := db.nextTxId
      nextTxId := db.nextTxId + 1
      commitDurable := false
      file := db.file.beginTransaction }

/-- The log part of `commit_transaction`: the LSN of the commit record, and the next. -/
def logTransaction [PageSize] : Action δ κ (Nat × Nat) := do
  let wal ← durableWal
  let db ← get
  let wal ← append (fun lsn => beginRecord lsn db.currentTxId) wal
  let wal ← appendImages db.currentTxId db.file.txPages wal
  let commitLsn := wal.nextLsn
  let wal ← append (fun lsn => commitRecord lsn db.currentTxId) wal
  syncWal
  return (commitLsn, wal.nextLsn)

/-- The rest of `commit_transaction`, once the log is synced. -/
def finishCommit (commitLsn nextLsn : Nat) : Action δ κ Unit := do
  modify fun db => { db with commitDurable := true, file := db.file.applyTransaction }
  publishEpoch
  match (← get).primaryStorage with
  | .walOnly =>
    flush
    setNextLsn nextLsn
    setCheckpointLsn commitLsn 0
    persistInstanceControl
  | .full =>
    setNextLsn nextLsn
    modify fun db =>
      { db with
        lastCommitLsn := commitLsn
        commitsSinceCheckpoint := db.commitsSinceCheckpoint + 1 }
    let db ← get
    if db.checkpointInterval ≤ db.commitsSinceCheckpoint then advanceCheckpoint

/-- `Database::commit_transaction`. -/
def commitTransaction [PageSize] : Action δ κ Unit := do
  if ¬(← get).file.inTransaction then
    throw ⟨.transactionRequired, "no active transaction to commit"⟩
  advanceEpoch
  let (commitLsn, nextLsn) ← logTransaction
  finishCommit commitLsn nextLsn

/-- `Database::resync_store_after_rollback`. -/
def resyncStoreAfterRollback [StoreParts δ κ] : Action δ κ Unit := do
  match ObjectStore.open (← get).file with
  | .error error => throw error
  | .ok store => modify fun db => { db with store := store }
  publishEpoch

/-- The log starts again from its header, so the offset of the checkpoint is not valid any more. -/
def clearCheckpointOffset : Action δ κ Unit := do
  let db ← get
  if db.primaryStorage = .full ∧ db.store.root.checkpointWalOffset ≠ 0 then
    setCheckpointLsn db.store.root.checkpointLsn 0

/-- `Database::rollback_transaction`. -/
def rollbackTransaction [StoreParts δ κ] : Action δ κ Unit := do
  let db ← get
  if db.commitDurable then
    throw ⟨.transactionCommitted, "a durable commit cannot be rolled back"⟩
  modify fun db => { db with file := db.file.discardTransaction }
  if db.primaryStorage = .full then advanceCheckpoint
  removeWal
  clearCheckpointOffset
  resyncStoreAfterRollback
  ensureNextObjectIdAtLeast db.store.root.nextObjectId
  flush

/-- The transaction is rolled back when the action fails, and its error is the one returned. -/
def orRollback [StoreParts δ κ] {α : Type} (action : Action δ κ α) : Action δ κ α := fun db =>
  match action db with
  | .ok value db => .ok value db
  | .error error db => .error error (Effect.after (rollbackTransaction db))

/-- `Database::collect_garbage`, over what the store collects. -/
def collectGarbage [PageSize] [StoreParts δ κ] (collect : Action δ κ Nat) : Action δ κ Nat := do
  begin
  let collected ← orRollback collect
  if collected = 0 then
    rollbackTransaction
    return 0
  orRollback commitTransaction
  return collected

/-- The barrier of `create_bootstrap_snapshot`, around the copy of the data file. -/
def bootstrapBarrier [StoreParts δ κ] : Action δ κ Unit := do
  checkpoint
  begin
  rollbackTransaction

/-- `Database::set_follower_ack_lsn`. -/
def setFollowerAckLsn (lsn : Nat) : Action δ κ Unit := do
  setRoot fun root => { root with followerAckLsn := lsn }
  if (← get).primaryStorage = .walOnly then persistInstanceControl

/-! ### Writes of the object store -/

/-- What a part of the object store does to pages, and to itself in memory. -/
inductive PageOp (δ κ : Type)
  | write (id : Nat) (content : δ)
  | allocate
  | parts (parts : κ)

def PageOp.Avoids (rootPage : Nat) : PageOp δ κ → Prop
  | .write id _ => id ≠ rootPage
  | _ => True

def PageOp.run : PageOp δ κ → Action δ κ Unit
  | .write id content => fun db =>
    match db.file.write id (.data content) with
    | .error error => .error error db
    | .ok file => .ok () { db with file := file }
  | .allocate => fun db =>
    match db.file.allocatePage with
    | .error error => .error error db
    | .ok (_, file) => .ok () { db with file := file }
  | .parts loaded => modify fun db => { db with store.parts := loaded }

def runPageOps : List (PageOp δ κ) → Action δ κ Unit
  | [] => return ()
  | op :: ops => do
    op.run
    runPageOps ops

/-- An operation of the object store inside a transaction, by what it does to pages and to the root.
Creating, updating and removing an object, and collecting garbage, are runs of the first two. -/
inductive StoreOp (δ κ : Type)
  | pages (op : PageOp δ κ)
  | allocateObjectId
  | registerType (saveType saveBaseline : List (PageOp δ κ))
  | createIndex (directory : δ) (rest : List (PageOp δ κ))

def StoreOp.Avoids (rootPage : Nat) : StoreOp δ κ → Prop
  | .pages op => op.Avoids rootPage
  | .allocateObjectId => True
  | .registerType saveType saveBaseline =>
    ∀ op ∈ saveType ++ saveBaseline, op.Avoids rootPage
  | .createIndex _ rest => ∀ op ∈ rest, op.Avoids rootPage

/-- `IndexCatalog::create`, and the link from the root. -/
def createIndexDirectory (directory : δ) : Action δ κ Unit := do
  let page := (← get).file.pageCount
  PageOp.allocate.run
  (PageOp.write page directory).run
  setRoot fun root => { root with indexDir := page }

def StoreOp.run : StoreOp δ κ → Action δ κ Unit
  | .pages op => op.run
  | .allocateObjectId => do let _ ← Database.allocateObjectId
  | .registerType saveType saveBaseline => do
    let _ ← Database.allocateObjectId
    runPageOps saveType
    let baseline ← Database.allocateObjectId
    runPageOps saveBaseline
    setRoot fun root => { root with currentBaseline := baseline }
  | .createIndex directory rest => do
    if (← get).store.root.indexDir = 0 then createIndexDirectory directory
    runPageOps rest

end Database

end MoDb.Object
