import MoDb.Lib.RecordStore
import MoDb.Index.KeySet
import MoDb.Store.IdentityMap

/-!
# The object store

Objects are records of a heap. The identity map says which record is the current version of each
object, and the indexes hold a key for each current object. The heap is any store of records.
-/

namespace MoDb.Store

open Effect Storage Index

/-- One index: its tree, and the epoch of the last transaction that took a key out of it
(`index_removed_epoch_`, kept in memory only). `fault` is what the page file answers when the tree
cannot be changed. -/
structure IndexInfo where
  typeName : String
  fieldId : FieldId
  tree : KeySet
  removedEpoch : Option Nat := none
  fault : Option Error := none

def NotFound (error : Error) : Prop := error.code = .recordNotFound

structure ObjectStore (H Id : Type) where
  inTransaction : Bool := false
  nextObjectId : ObjectId
  /-- The epoch in the database root. -/
  epoch : Nat
  types : List TypeDefinition
  identity : IdentityMap Id
  heap : H
  /-- `none` until the first index is created. -/
  indexes : Option (List IndexInfo)
  /-- `opened_epoch_`. -/
  openedEpoch : Nat
  /-- What the page file answers when the entry of an object cannot be written. -/
  entryFault : ObjectId → Option Error := fun _ => none

abbrev StoreM (H Id : Type) := EStateM Error (ObjectStore H Id)

def check {σ α : Type} : Except Error α → EStateM Error σ α
  | .ok value => pure value
  | .error error => throw error

namespace ObjectStore

variable {H Id : Type} [DecidableEq Id] [RecordStore H Id DecodedObject Error NotFound]

/-- `transaction_epoch`. -/
def transactionEpoch (store : ObjectStore H Id) : Nat := store.epoch + 1

/-- `find_type` by id. -/
def findType (store : ObjectStore H Id) (type : TypeDefinitionId) : Except Error TypeDefinition :=
  match store.types.find? fun definition => definition.id = type with
  | some definition => .ok definition
  | none => .error ⟨.typeNotFound, s!"type not found: id {type}"⟩

/-- `IndexCatalog::find`. -/
def findIndex (store : ObjectStore H Id) (typeName : String) (field : FieldId) : Option IndexInfo :=
  (store.indexes.getD []).find? fun info => info.typeName = typeName ∧ info.fieldId = field

/-! ### Reads -/

/-- `ObjectStore::get`. -/
def get (store : ObjectStore H Id) (id : ObjectId) : Except Error DecodedObject := do
  let location ← store.identity.find id
  RecordStore.read location store.heap

/-- `ObjectStore::get_at`. -/
def getAt (store : ObjectStore H Id) (id : ObjectId) (epoch : Nat) : Except Error DecodedObject := do
  let location ← store.identity.findAt id epoch
  RecordStore.read location store.heap

/-- The record is the version that `find_at` resolves at the epoch. -/
def visibleAt (store : ObjectStore H Id) (epoch : Nat) (record : Id × DecodedObject) : Bool :=
  match store.identity.findAt record.2.id epoch with
  | .ok location => location = record.1
  | .error _ => false

/-- `scan_stream` and `scan_at`: the versions visible at the epoch, in the order of the heap. -/
def scanAt (store : ObjectStore H Id) (epoch : Nat) : Except Error (List DecodedObject) := do
  let records ← RecordStore.records store.heap
  pure ((records.filter (store.visibleAt epoch)).map Prod.snd)

def isCurrent (store : ObjectStore H Id) (record : Id × DecodedObject) : Bool :=
  match store.identity.find record.2.id with
  | .ok location => location = record.1
  | .error _ => false

/-- `ObjectStore::scan`. -/
def scan (store : ObjectStore H Id) : Except Error (List DecodedObject) := do
  let records ← RecordStore.records store.heap
  pure ((records.filter store.isCurrent).map Prod.snd)

/-! ### Indexes -/

/-- One round of the loop of `index_maintain`. `epoch` is the transaction's. -/
def maintainIndex [PageSize] (typeName : String) (id : ObjectId) (fields : FieldValues)
    (insert : Bool) (epoch : Nat) (info : IndexInfo) : Except Error IndexInfo :=
  if info.typeName ≠ typeName then .ok info
  else
    match fieldValue fields info.fieldId with
    | none => .ok info
    | some value =>
      if value.isNull then .ok info
      else
        match encodeKey value with
        | .error error => .error error
        | .ok key =>
          match info.fault with
          | some error => .error error
          | none =>
            if insert then
              match info.tree.insert key id with
              | .error error => .error error
              | .ok tree => .ok { info with tree := tree }
            else
              match info.tree.remove key id with
              | .ok tree => .ok { info with tree := tree, removedEpoch := some epoch }
              | .error error =>
                if error.code = .recordNotFound then .ok { info with removedEpoch := some epoch }
                else .error error

/-- The loop of `index_maintain`: the indexes it leaves, and the error that stopped it. -/
def maintainIndexes [PageSize] (typeName : String) (id : ObjectId) (fields : FieldValues)
    (insert : Bool) (epoch : Nat) : List IndexInfo → List IndexInfo × Option Error
  | [] => ([], none)
  | info :: rest =>
    match maintainIndex typeName id fields insert epoch info with
    | .error error => (info :: rest, some error)
    | .ok info =>
      let (rest, error) := maintainIndexes typeName id fields insert epoch rest
      (info :: rest, error)

/-- `index_maintain`. -/
def indexMaintain [PageSize] (typeName : String) (id : ObjectId) (fields : FieldValues)
    (insert : Bool) : StoreM H Id Unit := fun store =>
  match store.indexes with
  | none => .ok () store
  | some infos =>
    match maintainIndexes typeName id fields insert store.transactionEpoch infos with
    | (infos, none) => .ok () { store with indexes := some infos }
    | (infos, some error) => .error error { store with indexes := some infos }

/-! ### Writes -/

/-- `allocate_object_id`. -/
def allocateObjectId : StoreM H Id ObjectId := fun store =>
  if store.nextObjectId = 0 ∨ store.nextObjectId = 2 ^ 64 - 1 then
    .error ⟨.valueTooLarge, "ObjectId space exhausted"⟩ store
  else .ok store.nextObjectId { store with nextObjectId := store.nextObjectId + 1 }

def onHeap {α : Type} (action : EStateM Error H α) : StoreM H Id α := fun store =>
  match action store.heap with
  | .ok value heap => .ok value { store with heap := heap }
  | .error error heap => .error error { store with heap := heap }

/-- An operation of the identity map on the entry of an object; one that fails leaves it as it was. -/
def onIdentity (id : ObjectId) (action : IdentityMap Id → Except Error (IdentityMap Id)) :
    StoreM H Id Unit := fun store =>
  match store.entryFault id with
  | some error => .error error store
  | none =>
    match action store.identity with
    | .ok map => .ok () { store with identity := map }
    | .error error => .error error store

/-- `ObjectStore::create_object`. -/
def createObject [PageSize] (type : TypeDefinition) (fields : FieldValues) :
    StoreM H Id ObjectId := do
  let store ← EStateM.get
  if ¬store.inTransaction then
    throw ⟨.transactionRequired, "object creation requires an active transaction"⟩
  else if type.id = invalidObjectId then
    throw ⟨.typeNotFound, "cannot create an object of an unregistered type"⟩
  else
    check (validateObject type fields)
    let id ← allocateObjectId
    let record ← check (encodeObject id type.id fields)
    let location ← onHeap (RecordStore.insert record)
    onIdentity id fun map => map.bind id location store.transactionEpoch
    indexMaintain type.name id fields true
    pure id

/-- `check_snapshot_conflict`. -/
def checkSnapshotConflict (store : ObjectStore H Id) (id : ObjectId) (oldest : Option Nat) :
    Except Error Unit :=
  match oldest with
  | none => .ok ()
  | some oldest => do
    let current ← store.identity.currentEpoch id
    if current ≤ oldest then .ok ()
    else
      let occupied ← store.identity.hasPrevious id
      if occupied then
        .error ⟨.snapshotConflict,
          s!"object {id} already has a previous version visible to an older open snapshot"⟩
      else .ok ()

/-- `overwritten_previous`. -/
def overwrittenPrevious (store : ObjectStore H Id) (id : ObjectId) : Except Error (Option Id) :=
  match store.identity.inspect id with
  | .ok entry => .ok (entry.previous.map Prod.fst)
  | .error error => if error.code = .recordNotFound then .ok none else .error error

def eraseRecord (record : Id) : StoreM H Id Unit := fun store =>
  match RecordStore.erase record store.heap with
  | .ok _ heap => .ok () { store with heap := heap }
  | .error error heap =>
    if error.code = .recordNotFound then .ok () { store with heap := heap }
    else .error error { store with heap := heap }

/-- `release_overwritten`. -/
def releaseOverwritten : Option Id → StoreM H Id Unit
  | none => pure ()
  | some record => eraseRecord record

/-- The value that `update` and `remove` keep for the indexes. -/
def previousValue (store : ObjectStore H Id) (id : ObjectId) : Option DecodedObject :=
  if store.indexes.isSome then (store.get id).toOption else none

/-- `ObjectStore::update`. -/
def update [PageSize] (id : ObjectId) (type : TypeDefinition) (fields : FieldValues)
    (oldest : Option Nat) : StoreM H Id Unit := do
  let store ← EStateM.get
  if ¬store.inTransaction then
    throw ⟨.transactionRequired, "object update requires an active transaction"⟩
  else
    check (validateObject type fields)
    check (store.checkSnapshotConflict id oldest)
    let record ← check (encodeObject id type.id fields)
    let overwritten ← check (store.overwrittenPrevious id)
    let location ← onHeap (RecordStore.insert record)
    onIdentity id fun map => map.rebind id location store.transactionEpoch
    releaseOverwritten overwritten
    match store.previousValue id with
    | some previous => indexMaintain type.name id previous.fields false
    | none => pure ()
    indexMaintain type.name id fields true

/-- `ObjectStore::remove`. -/
def remove [PageSize] (id : ObjectId) (oldest : Option Nat) : StoreM H Id Unit := do
  let store ← EStateM.get
  if ¬store.inTransaction then
    throw ⟨.transactionRequired, "object removal requires an active transaction"⟩
  else
    check (store.checkSnapshotConflict id oldest)
    onIdentity id fun map => map.erase id store.transactionEpoch
    match store.previousValue id with
    | none => pure ()
    | some previous =>
      match store.findType previous.type with
      | .error _ => pure ()
      | .ok type => indexMaintain type.name id previous.fields false

/-- The backfill of `create_index`: the current objects of the type, whatever their version. -/
def backfill [PageSize] (store : ObjectStore H Id) (typeName : String) (field : FieldId) :
    List (Id × DecodedObject) → KeySet → Except Error KeySet
  | [], tree => .ok tree
  | record :: rest, tree =>
    if ¬store.isCurrent record then store.backfill typeName field rest tree
    else
      match store.findType record.2.type with
      | .error _ => store.backfill typeName field rest tree
      | .ok type =>
        if type.name ≠ typeName then store.backfill typeName field rest tree
        else
          match fieldValue record.2.fields field with
          | none => store.backfill typeName field rest tree
          | some value =>
            if value.isNull then store.backfill typeName field rest tree
            else do
              let key ← encodeKey value
              let tree ← tree.insert key record.2.id
              store.backfill typeName field rest tree

/-- `ObjectStore::create_index`. -/
def createIndex [PageSize] (type : TypeDefinition) (field : FieldId) : StoreM H Id Unit := do
  let store ← EStateM.get
  if ¬store.inTransaction then
    throw ⟨.transactionRequired, "creating an index requires a transaction"⟩
  else if (type.find field).isNone then
    throw ⟨.invalidArgument, "type has no such field to index"⟩
  else
    modify fun store => { store with indexes := some (store.indexes.getD []) }
    if (store.findIndex type.name field).isSome then
      throw ⟨.invalidArgument, "index already exists"⟩
    else
      let records ← check (RecordStore.records store.heap)
      let tree ← check (store.backfill type.name field records KeySet.empty)
      modify fun store =>
        { store with indexes := some (store.indexes.getD [] ++ [{ typeName := type.name, fieldId := field, tree := tree }]) }

/-! ### Garbage collection -/

/-- A record to collect, and whether an entry refers to it as its previous version. -/
structure Victim (Id : Type) where
  record : Id
  id : ObjectId
  isReferencedPrevious : Bool

/-- The classification of `collect_garbage`. -/
def victim (store : ObjectStore H Id) (oldest : Option Nat) (record : Id × DecodedObject) :
    Option (Victim Id) :=
  match store.identity.inspect record.2.id with
  | .error _ => some ⟨record.1, record.2.id, false⟩
  | .ok entry =>
    if entry.current = some record.1 then none
    else if entry.previous.map Prod.fst = some record.1 then
      if oldest.all fun oldest => entry.currentEpoch ≤ oldest then
        some ⟨record.1, record.2.id, true⟩
      else none
    else some ⟨record.1, record.2.id, false⟩

/-- One round of the loop of `collect_garbage`. -/
def collect (victim : Victim Id) : StoreM H Id Unit := do
  if victim.isReferencedPrevious then onIdentity victim.id fun map => map.clearPrevious victim.id
  eraseRecord victim.record

/-- `ObjectStore::collect_garbage`. -/
def collectGarbage (oldest : Option Nat) : StoreM H Id Nat := do
  let store ← EStateM.get
  if ¬store.inTransaction then
    throw ⟨.transactionRequired, "garbage collection requires an active transaction"⟩
  else
    let records ← check (RecordStore.records store.heap)
    let victims := records.filterMap (store.victim oldest)
    victims.forM collect
    pure victims.length

/-! ### Index reads -/

/-- `index_range`. -/
def indexRange (store : ObjectStore H Id) (typeName : String) (field : FieldId)
    (lo hi : AttributeValue) : Except Error (List ObjectId) :=
  match store.findIndex typeName field with
  | none => .error ⟨.typeNotFound, "no index on this field"⟩
  | some info => do
    let loKey ← encodeKey lo
    let hiKey ← encodeKey hi
    pure (info.tree.range loKey hiKey)

/-- `index_serves_epoch`. -/
def indexServesEpoch (store : ObjectStore H Id) (typeName : String) (field : FieldId)
    (epoch : Nat) : Bool :=
  match store.findIndex typeName field with
  | none => false
  | some info => max store.openedEpoch (info.removedEpoch.getD 0) ≤ epoch

/-- The objects of a scan that `index_range_at` keeps, each with its key. -/
def scanKeys (store : ObjectStore H Id) (typeName : String) (field : FieldId) (loKey hiKey : Bytes) :
    List DecodedObject → Except Error (List Index.Entry)
  | [] => .ok []
  | object :: rest =>
    match store.findType object.type with
    | .error _ => store.scanKeys typeName field loKey hiKey rest
    | .ok type =>
      if type.name ≠ typeName then store.scanKeys typeName field loKey hiKey rest
      else
        match fieldValue object.fields field with
        | none => store.scanKeys typeName field loKey hiKey rest
        | some value =>
          if value.isNull then store.scanKeys typeName field loKey hiKey rest
          else do
            let key ← encodeKey value
            let rest ← store.scanKeys typeName field loKey hiKey rest
            if inBounds loKey hiKey key then pure ((key, object.id) :: rest) else pure rest

/-- `index_range_at`: the index, or a scan when the index has lost keys that the epoch sees. -/
def indexRangeAt (store : ObjectStore H Id) (typeName : String) (field : FieldId)
    (lo hi : AttributeValue) (epoch : Nat) : Except Error (List ObjectId) :=
  if store.indexServesEpoch typeName field epoch then store.indexRange typeName field lo hi
  else if (store.findIndex typeName field).isNone then
    .error ⟨.typeNotFound, "no index on this field"⟩
  else do
    let loKey ← encodeKey lo
    let hiKey ← encodeKey hi
    let objects ← store.scanAt epoch
    let hits ← store.scanKeys typeName field loKey hiKey objects
    pure ((hits.foldr insertEntry []).map Prod.snd)

/-- `index_candidate_at`. -/
def indexCandidateAt (store : ObjectStore H Id) (id : ObjectId) (epoch : Nat) (field : FieldId)
    (lo hi : AttributeValue) : Except Error (Option DecodedObject) :=
  match store.getAt id epoch with
  | .error error => if error.code = .recordNotFound then .ok none else .error error
  | .ok object =>
    match fieldValue object.fields field with
    | none => .ok none
    | some value =>
      if value.isNull then .ok none
      else do
        let key ← encodeKey value
        let loKey ← encodeKey lo
        let hiKey ← encodeKey hi
        if inBounds loKey hiKey key then pure (some object) else pure none

end ObjectStore

end MoDb.Store
