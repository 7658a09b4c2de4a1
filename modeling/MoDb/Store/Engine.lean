import MoDb.Store.Atomicity
import MoDb.Store.Cells

/-!
# Transactions, snapshots and sessions

The database runs one transaction at a time over the object store, publishes an epoch at each commit
and keeps a register of the epochs that open snapshots read. Actions may come in any order; one that
has no business where it comes fails and changes nothing.
-/

namespace MoDb.Store

open Effect Storage Index Mvcc

variable {H Id : Type}

namespace ObjectStore

/-- `register_type`, without the pages of the catalogue and of the baseline. -/
def registerType (definition : TypeDefinition) : StoreM H Id TypeDefinitionId := do
  let id ← allocateObjectId
  let _baseline ← allocateObjectId
  modify fun store => { store with types := store.types ++ [{ definition with id := id }] }
  pure id

def unreadable (info : IndexInfo) : IndexInfo :=
  { info with tree := KeySet.empty, fault := some ⟨.invalidPageFormat, "not a B+ tree root page"⟩ }

def keptIndex (saved : ObjectStore H Id) (info : IndexInfo) : IndexInfo :=
  match saved.findIndex info.typeName info.fieldId with
  | some kept => { info with tree := kept.tree }
  | none => unreadable info

variable [DecidableEq Id] [RecordStore H Id DecodedObject Error NotFound]

/-- `ObjectStore::open`: what was in memory only is gone. -/
def reopened (store : ObjectStore H Id) : ObjectStore H Id :=
  { store with
    inTransaction := false
    heap := RecordStore.reopen store.heap
    indexes := store.indexes.map (List.map fun info => { info with removedEpoch := none })
    openedEpoch := store.epoch }

/-- The store in memory over the pages that the file keeps, once those of its transaction are
dropped. -/
def stale (store saved : ObjectStore H Id) : ObjectStore H Id :=
  { store with
    inTransaction := false
    identity := saved.identity
    heap := RecordStore.discard store.heap saved.heap
    indexes := store.indexes.map (List.map saved.keptIndex) }

end ObjectStore

/-- The writes of a transaction, with the type id that the binding of the C++ type holds. -/
inductive Write
  | create (type : TypeDefinitionId) (fields : FieldValues)
  | update (id : ObjectId) (type : TypeDefinitionId) (fields : FieldValues)
  | remove (id : ObjectId)

namespace Write

def target (store : ObjectStore H Id) : Write → ObjectId
  | create _ _ => store.nextObjectId
  | update id _ _ => id
  | remove id => id

def value (store : ObjectStore H Id) : Write → Option DecodedObject
  | create type fields => some ⟨store.nextObjectId, type, fields⟩
  | update id type fields => some ⟨id, type, fields⟩
  | remove _ => none

variable [DecidableEq Id] [RecordStore H Id DecodedObject Error NotFound] [PageSize]

/-- `Database::create`, `Database::update` and `Database::remove`. -/
def run (oldest : Option Nat) : Write → StoreM H Id Unit
  | create type fields => do
    let store ← EStateM.get
    let type ← check (store.findType type)
    Statement.run (.create type fields)
  | update id type fields => do
    let store ← EStateM.get
    let type ← check (store.findType type)
    let stored ← check (store.get id)
    let storedType ← check (store.findType stored.type)
    if storedType.name ≠ type.name then
      throw ⟨.typeMismatch, "object belongs to a different bound type"⟩
    else Statement.run (.update id type fields oldest)
  | remove id => Statement.run (.remove id oldest)

end Write

/-- `committed` is the store in the data file. The last three fields record what was written: the
objects whose entries the running transaction has changed, once for each change, what it has made of
the objects, and what they were at each commit. -/
structure Engine (H Id : Type) where
  store : ObjectStore H Id
  committed : ObjectStore H Id
  publishedEpoch : Nat
  /-- `open_snapshot_epochs_`. -/
  snapshots : List Nat := []
  written : List ObjectId := []
  pending : ObjectId → Option DecodedObject := fun _ => none
  history : History ObjectId DecodedObject := []
  /-- The root in the file names a baseline or an index directory that the file does not have. -/
  rootLost : Bool := false

inductive Action
  | begin
  | write (write : Write)
  | createIndex (type : TypeDefinitionId) (field : FieldId)
  | registerType (definition : TypeDefinition)
  | commit
  /-- A commit that fails before it is durable. -/
  | commitFailed
  /-- `due` is whether there has been a commit since the last checkpoint that the WAL no longer needs. -/
  | rollback (due : Bool)
  /-- A collection, whether its commit succeeds, and whether its rollback has a checkpoint to write. -/
  | collectGarbage (commits due : Bool)
  | openSnapshot
  /-- One more reader at the epoch of an open snapshot. -/
  | shareSnapshot (epoch : Nat)
  | closeSnapshot (epoch : Nat)
  | reopen
  /-- The page file begins or ceases to refuse pages. -/
  | fault (entries : ObjectId → Option Error) (trees : String → FieldId → Option Error)

namespace Engine

variable [DecidableEq Id] [RecordStore H Id DecodedObject Error NotFound]

/-- `oldest_open_snapshot_epoch`. -/
def oldest (engine : Engine H Id) : Option Nat := engine.snapshots.min?

/-- `Database::begin`. -/
def begin (engine : Engine H Id) : Engine H Id :=
  { engine with store := { engine.store with inTransaction := true } }

def wrote (engine : Engine H Id) (id : ObjectId) (value : Option DecodedObject)
    (store : ObjectStore H Id) : Engine H Id :=
  { engine with
    store := store
    written :=
      if store.identity id = engine.store.identity id then engine.written else id :: engine.written
    pending := Function.update engine.pending id value }

/-- A write. One that fails counts for what the transaction reads after it. -/
def write [PageSize] (engine : Engine H Id) (write : Write) : Engine H Id :=
  match write.run engine.oldest engine.store with
  | .ok _ store => engine.wrote (write.target engine.store) (write.value engine.store) store
  | .error _ store =>
    engine.wrote (write.target engine.store) (store.get (write.target engine.store)).toOption store

def onStore {α : Type} (engine : Engine H Id) (action : StoreM H Id α) : Engine H Id :=
  { engine with store := after (action engine.store) }

/-- `ObjectStore::create_index` on a bound type. -/
def createIndex [PageSize] (engine : Engine H Id) (type : TypeDefinitionId) (field : FieldId) :
    Engine H Id :=
  match engine.store.findType type with
  | .error _ => engine
  | .ok type => engine.onStore (ObjectStore.createIndex type field)

/-- `Database::commit_transaction`. -/
def commit (engine : Engine H Id) : Engine H Id :=
  let store := { engine.store with
    inTransaction := false
    epoch := engine.store.transactionEpoch }
  { engine with
    store := store
    committed := store
    publishedEpoch := store.epoch
    written := []
    history := (store.epoch, engine.pending) :: engine.history }

def commitFailed (engine : Engine H Id) : Engine H Id :=
  { engine with store := { engine.store with epoch := engine.store.transactionEpoch } }

/-- The root in memory names what the pages of the transaction have: the baseline of a type that it has
registered, or the directory of the first index. -/
def rootAhead (engine : Engine H Id) : Bool :=
  engine.committed.types.length < engine.store.types.length ||
    engine.store.indexes.isSome && engine.committed.indexes.isNone

def withRoot (engine : Engine H Id) (epoch : Nat) (next : ObjectId) : Engine H Id :=
  { engine with committed := { engine.committed with epoch := epoch, nextObjectId := next } }

/-- `set_checkpoint_lsn` writes the whole root as it is in memory. -/
def persistRoot (engine : Engine H Id) : Engine H Id :=
  { engine.withRoot engine.store.epoch
      (max engine.committed.nextObjectId engine.store.nextObjectId) with
    rootLost := engine.rootLost || engine.rootAhead }

/-- `advance_checkpoint`, and the reset of the offset in the WAL that is removed. -/
def checkpointed (engine : Engine H Id) (due : Bool) : Engine H Id :=
  if due then engine.persistRoot else engine

/-- The store is read again from the data file, with the counter at least at `watermark`. -/
def resync (engine : Engine H Id) (watermark : ObjectId) : Engine H Id :=
  let store := { engine.committed.reopened with
    nextObjectId := max engine.committed.nextObjectId watermark }
  { engine with
    store := store
    committed := store
    publishedEpoch := store.epoch
    written := []
    pending := History.viewAt engine.history store.epoch }

/-- `ObjectStore::open` fails, and the store stays as the transaction has left it. -/
def stale (engine : Engine H Id) : Engine H Id :=
  { engine with
    store := engine.store.stale engine.committed
    written := []
    pending := History.viewAt engine.history engine.publishedEpoch }

/-- `Database::rollback_transaction`. -/
def rollback (engine : Engine H Id) (due : Bool) : Engine H Id :=
  let checkpointed := engine.checkpointed due
  if checkpointed.rootLost then checkpointed.stale
  else checkpointed.resync engine.store.nextObjectId

/-- `Database::collect_garbage`. -/
def collectGarbage (engine : Engine H Id) (commits due : Bool) : Engine H Id :=
  let begun := engine.begin
  match ObjectStore.collectGarbage engine.oldest begun.store with
  | .error _ store => { begun with store := store }.rollback due
  | .ok collected store =>
    if collected = 0 then { begun with store := store }.rollback due
    else if commits then { begun with store := store }.commit
    else { begun with store := store }.commitFailed.rollback due

def fault (engine : Engine H Id) (entries : ObjectId → Option Error)
    (trees : String → FieldId → Option Error) : Engine H Id :=
  { engine with
    store := { engine.store with
      entryFault := entries
      indexes := engine.store.indexes.map
        (List.map fun info => { info with fault := trees info.typeName info.fieldId }) } }

/-- What an action does where it may come: writes, commits and rollbacks come inside a transaction,
and the operations with a transaction of their own outside. -/
def act [PageSize] (engine : Engine H Id) (action : Action) : Engine H Id :=
  match action with
  | .begin => if engine.store.inTransaction then engine else engine.begin
  | .write write => if engine.store.inTransaction then engine.write write else engine
  | .createIndex type field =>
    if engine.store.inTransaction then engine.createIndex type field else engine
  | .registerType definition =>
    if engine.store.inTransaction then engine.onStore (ObjectStore.registerType definition) else engine
  | .commit => if engine.store.inTransaction then engine.commit else engine
  | .commitFailed => if engine.store.inTransaction then engine.commitFailed else engine
  | .rollback due => if engine.store.inTransaction then engine.rollback due else engine
  | .collectGarbage commits due =>
    if engine.store.inTransaction then engine else engine.collectGarbage commits due
  | .openSnapshot => { engine with snapshots := engine.publishedEpoch :: engine.snapshots }
  | .shareSnapshot epoch =>
    if epoch ∈ engine.snapshots then { engine with snapshots := epoch :: engine.snapshots } else engine
  | .closeSnapshot epoch => { engine with snapshots := engine.snapshots.erase epoch }
  | .reopen => { engine.resync 0 with snapshots := [] }
  | .fault entries trees => engine.fault entries trees

/-- Where the action may come. -/
def Comes (engine : Engine H Id) : Action → Prop
  | .begin | .collectGarbage _ _ => engine.store.inTransaction = false
  | .shareSnapshot epoch => epoch ∈ engine.snapshots
  | .openSnapshot | .closeSnapshot _ | .reopen | .fault _ _ => True
  | _ => engine.store.inTransaction = true

def perform [PageSize] (engine : Engine H Id) : Action → Engine H Id
  | .begin => engine.begin
  | .write write => engine.write write
  | .createIndex type field => engine.createIndex type field
  | .registerType definition => engine.onStore (ObjectStore.registerType definition)
  | .commit => engine.commit
  | .commitFailed => engine.commitFailed
  | .rollback due => engine.rollback due
  | .collectGarbage commits due => engine.collectGarbage commits due
  | .openSnapshot => { engine with snapshots := engine.publishedEpoch :: engine.snapshots }
  | .shareSnapshot epoch => { engine with snapshots := epoch :: engine.snapshots }
  | .closeSnapshot epoch => { engine with snapshots := engine.snapshots.erase epoch }
  | .reopen => { engine.resync 0 with snapshots := [] }
  | .fault entries trees => engine.fault entries trees

theorem act_cases [PageSize] (engine : Engine H Id) (action : Action) :
    engine.act action = engine ∨ engine.Comes action ∧ engine.act action = engine.perform action := by
  cases action with
  | begin | collectGarbage =>
    cases htx : engine.store.inTransaction with
    | true => exact .inl (if_pos htx)
    | false => exact .inr ⟨htx, if_neg (by simp [htx])⟩
  | openSnapshot | closeSnapshot | reopen | fault => exact .inr ⟨trivial, rfl⟩
  | shareSnapshot epoch =>
    by_cases hopen : epoch ∈ engine.snapshots
    · exact .inr ⟨hopen, if_pos hopen⟩
    · exact .inl (if_neg hopen)
  | _ =>
    cases htx : engine.store.inTransaction with
    | true => exact .inr ⟨htx, if_pos htx⟩
    | false => exact .inl (if_neg (by simp [htx]))

/-- What is done with a database after a rollback has failed is not followed. -/
def step [PageSize] (engine : Engine H Id) (action : Action) : Engine H Id :=
  if engine.rootLost then engine else engine.act action

def run [PageSize] (engine : Engine H Id) (actions : List Action) : Engine H Id :=
  actions.foldl step engine

/-- A database without objects. -/
structure Fresh (engine : Engine H Id) : Prop where
  valid : RecordStore.Valid engine.store.heap
  empty : RecordStore.content engine.store.heap = fun _ => none
  unbound : engine.store.identity = fun _ => none
  indexes : engine.store.indexes = none
  idle : engine.store.inTransaction = false
  committed : engine.committed = engine.store
  published : engine.publishedEpoch = engine.store.epoch
  snapshots : engine.snapshots = []
  written : engine.written = []
  pending : engine.pending = fun _ => none
  history : engine.history = []
  rootLost : engine.rootLost = false

/-- A database that has just been created, over the heap. -/
def created (next : ObjectId) (heap : H) : Engine H Id :=
  let store := {
    nextObjectId := next
    epoch := 0
    types := []
    identity := fun _ => none
    heap := heap
    indexes := none
    openedEpoch := 0 }
  { store := store, committed := store, publishedEpoch := 0 }

theorem fresh_created {next : ObjectId} {heap : H} (hvalid : RecordStore.Valid heap)
    (hempty : RecordStore.content heap = fun _ => none) : (created next heap).Fresh where
  valid := hvalid
  empty := hempty
  unbound := rfl
  indexes := rfl
  idle := rfl
  committed := rfl
  published := rfl
  snapshots := rfl
  written := rfl
  pending := rfl
  history := rfl
  rootLost := rfl

/-- A rollback that has a checkpoint to write comes in a transaction that has registered no type and
has not made the first index. -/
def Restores (engine : Engine H Id) : Action → Prop
  | .rollback due => due = true → engine.rootAhead = false
  | _ => True

def Meets [PageSize] (condition : Engine H Id → Action → Prop) : List Action → Engine H Id → Prop
  | [], _ => True
  | action :: rest, engine => condition engine action ∧ Meets condition rest (engine.step action)

theorem run_induction [PageSize] {condition : Engine H Id → Action → Prop}
    {invariant : Engine H Id → Prop}
    (hstep : ∀ engine action, invariant engine → condition engine action →
      invariant (engine.step action)) {actions : List Action} {engine : Engine H Id}
    (h : invariant engine) (hmeets : Meets condition actions engine) :
    invariant (engine.run actions) := by
  induction actions generalizing engine with
  | nil => exact h
  | cons action rest ih => exact ih (hstep engine action h hmeets.1) hmeets.2

end Engine

end MoDb.Store
