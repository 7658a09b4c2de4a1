import MoDb.Store.Engine

/-!
# What a write does to the versions

A write either fails and changes no version, or puts a new version of one object in its cell and then
goes over the indexes.
-/

namespace MoDb.Store.ObjectStore

open Effect Storage Index Mvcc

variable {H Id : Type} [DecidableEq Id] [RecordStore H Id DecodedObject Error NotFound]
  {store store' store'' : ObjectStore H Id}

/-- The session and the registry of types are as they were. -/
structure Frame (store store' : ObjectStore H Id) : Prop where
  types_eq : store'.types = store.types
  epoch_eq : store'.epoch = store.epoch
  openedEpoch_eq : store'.openedEpoch = store.openedEpoch
  inTransaction_eq : store'.inTransaction = store.inTransaction

/-- Nothing that a reader, an index or a commit can see has changed. -/
structure Unseen (store store' : ObjectStore H Id) : Prop extends Frame store store' where
  sound : store'.Sound
  identity_eq : store'.identity = store.identity
  cells_eq : store'.cells = store.cells
  indexes_eq : store'.indexes = store.indexes

/-- One object has a new version. -/
structure Rewritten (store : ObjectStore H Id) (id : ObjectId) (value : Option DecodedObject)
    (store' : ObjectStore H Id) : Prop extends Frame store store' where
  sound : store'.Sound
  identity_ne : store'.identity id ≠ store.identity id
  cells_eq : store'.cells = Function.update store.cells id
    (some (Cell.write (store.cells id) value store.transactionEpoch))
  indexes_eq : store'.indexes = store.indexes

def TypeNamed (store : ObjectStore H Id) (object : DecodedObject) (typeName : String) : Prop :=
  ∃ type, store.findType object.type = .ok type ∧ type.name = typeName

def indexValue [PageSize] (typeName : String) (id : ObjectId) (insert : Bool) :
    Option DecodedObject → StoreM H Id Unit
  | some object => indexMaintain typeName id object.fields insert
  | none => pure ()

def reindex [PageSize] (typeName : String) (id : ObjectId) (old new : Option DecodedObject) :
    StoreM H Id Unit := do
  indexValue typeName id false old
  indexValue typeName id true new

omit [DecidableEq Id] [RecordStore H Id DecodedObject Error NotFound] in
theorem findType_id {id : TypeDefinitionId} {type : TypeDefinition}
    (h : store.findType id = .ok type) : type.id = id := by
  unfold findType at h
  split at h
  · rename_i definition hfind
    injection h with htype
    rw [← htype]
    simpa using List.find?_some hfind
  · injection h

omit [DecidableEq Id] [RecordStore H Id DecodedObject Error NotFound] in
theorem TypeNamed.unique {object : DecodedObject} {name name' : String}
    (h : store.TypeNamed object name) (h' : store.TypeNamed object name') : name = name' := by
  obtain ⟨type, htype, rfl⟩ := h
  obtain ⟨type', htype', rfl⟩ := h'
  rw [htype] at htype'
  injection htype' with heq
  rw [heq]

omit [DecidableEq Id] [RecordStore H Id DecodedObject Error NotFound] in
theorem typeNamed_congr (htypes : store'.types = store.types) (object : DecodedObject)
    (name : String) : store'.TypeNamed object name ↔ store.TypeNamed object name := by
  unfold TypeNamed
  rw [findType_congr htypes]

theorem Unseen.refl (h : store.Sound) : store.Unseen store :=
  ⟨⟨rfl, rfl, rfl, rfl⟩, h, rfl, rfl, rfl⟩

theorem unseen_of_extends (h : store.Sound) {next : ObjectId} {heap : H}
    (hnext : store.nextObjectId ≤ next) (hvalid : RecordStore.Valid heap)
    (hextends : store.Extends { store with nextObjectId := next, heap := heap }) :
    store.Unseen { store with nextObjectId := next, heap := heap } where
  types_eq := rfl
  epoch_eq := rfl
  openedEpoch_eq := rfl
  inTransaction_eq := rfl
  sound := h.of_extends hvalid hextends rfl rfl hnext
  identity_eq := rfl
  cells_eq := by
    have hkept : ∀ record id, store.Refers id record →
        RecordStore.content heap record = RecordStore.content store.heap record := by
      intro record id hrefers
      obtain ⟨object, hcontent, -⟩ := h.holds_of_refers hrefers
      rw [hcontent]
      exact hextends record object hcontent
    exact cells_congr rfl hkept
  indexes_eq := rfl

theorem now_next (h : store.Sound) : store.cells.now store.nextObjectId = none := by
  unfold Cells.now cells
  cases hentry : store.identity store.nextObjectId with
  | none => rfl
  | some entry => exact absurd (h.bound_lt hentry) (Nat.lt_irrefl _)

theorem rewritten_bound (h : store.Sound) {type : TypeDefinition} {fields : FieldValues}
    {location : Id} {heap : H} (htype : store.findType type.id = .ok type)
    (hinsert : RecordStore.insert (⟨store.nextObjectId, type.id, fields⟩ : DecodedObject) store.heap =
      .ok location heap) :
    store.Rewritten store.nextObjectId (some ⟨store.nextObjectId, type.id, fields⟩)
      (store.bound location heap) where
  types_eq := rfl
  epoch_eq := rfl
  openedEpoch_eq := rfl
  inTransaction_eq := rfl
  sound := h.bound hinsert htype
  identity_ne := by
    change Function.update store.identity _ _ _ ≠ _
    rw [Function.update_self]
    exact fun hentry => absurd (h.bound_lt hentry.symm) (Nat.lt_irrefl _)
  cells_eq := cells_bound h hinsert
  indexes_eq := rfl

theorem rewritten_rebound (h : store.Sound) {id : ObjectId} {type : TypeDefinition}
    {fields : FieldValues} {old location : Id} {entry : Entry Id} {heap : H}
    (htype : store.findType type.id = .ok type)
    (hlive : store.identity.live id = .ok (old, entry))
    (hreplaced : store.Replaced entry location ⟨id, type.id, fields⟩ heap) :
    store.Rewritten id (some ⟨id, type.id, fields⟩) (store.rebound id location heap old entry) where
  types_eq := rfl
  epoch_eq := rfl
  openedEpoch_eq := rfl
  inTransaction_eq := rfl
  sound := h.rebound hlive hreplaced htype
  identity_ne := by
    obtain ⟨hentry, hcurrent⟩ := IdentityMap.live_eq_ok.1 hlive
    change Function.update store.identity _ _ _ ≠ _
    rw [Function.update_self, hentry]
    intro heq
    have hlocation : entry.current = some location := by rw [← Option.some.inj heq]
    obtain ⟨found, hfound, -⟩ := h.current hentry hlocation
    rw [hreplaced.fresh] at hfound
    cases hfound
  cells_eq := cells_rebound h hlive hreplaced
  indexes_eq := rfl

theorem rewritten_erased (h : store.Sound) {id : ObjectId} {old : Id} {entry : Entry Id}
    (hlive : store.identity.live id = .ok (old, entry)) :
    store.Rewritten id none (store.erased id old entry) where
  types_eq := rfl
  epoch_eq := rfl
  openedEpoch_eq := rfl
  inTransaction_eq := rfl
  sound := h.erased hlive
  identity_ne := by
    obtain ⟨hentry, hcurrent⟩ := IdentityMap.live_eq_ok.1 hlive
    change Function.update store.identity _ _ _ ≠ _
    rw [Function.update_self, hentry]
    intro heq
    rw [← Option.some.inj heq] at hcurrent
    cases hcurrent
  cells_eq := cells_erased h hlive
  indexes_eq := rfl

/-- A write binds a new version `value` of its object; `store'` is the store before the indexes are
gone over. -/
structure Binds (snapshots : List Nat) (store : ObjectStore H Id) (write : Write)
    (typeName : String) (store' : ObjectStore H Id) : Prop
    extends Rewritten store (write.target store) (write.value store) store' where
  spares : ∀ cell, store.cells (write.target store) = some cell → ∀ epoch ∈ snapshots,
    cell.Spares epoch
  old_named : ∀ object, store.cells.now (write.target store) = some object →
    store.TypeNamed object typeName
  new_named : ∀ object, write.value store = some object → store.TypeNamed object typeName

section Run

variable [PageSize]

theorem run_create (oldest : Option Nat) (type : TypeDefinitionId) (fields : FieldValues) :
    (Write.create type fields).run oldest store =
      (check (store.findType type) >>= fun definition =>
        Statement.run (.create definition fields)) store := rfl

theorem run_update (oldest : Option Nat) (id : ObjectId) (type : TypeDefinitionId)
    (fields : FieldValues) :
    (Write.update id type fields).run oldest store =
      (check (store.findType type) >>= fun definition =>
        check (store.get id) >>= fun stored =>
        check (store.findType stored.type) >>= fun storedType =>
        if storedType.name ≠ definition.name then
          throw ⟨.typeMismatch, "object belongs to a different bound type"⟩
        else Statement.run (.update id definition fields oldest)) store := rfl

theorem run_remove (oldest : Option Nat) (id : ObjectId) :
    (Write.remove id).run oldest store = ObjectStore.remove id oldest store := rfl

theorem run_cases (h : store.Sound) (htx : store.inTransaction = true) (snapshots : List Nat)
    (write : Write) :
    (∃ error store', write.run snapshots.min? store = .error error store' ∧ store.Unseen store') ∨
    (∃ typeName store', Binds snapshots store write typeName store' ∧
      (write.run snapshots.min? store = reindex typeName (write.target store)
          (store.cells.now (write.target store)) (write.value store) store' ∨
        ∃ error, write.run snapshots.min? store = .error error store')) := by
  cases write with
  | create type fields =>
    rw [run_create]
    cases htype : store.findType type with
    | error error => exact .inl ⟨error, store, rfl, .refl h⟩
    | ok definition =>
    have hid := findType_id htype
    subst hid
    rw [check_ok_bind]
    rcases @createObject_cases H Id _ _ store definition fields _ h htx with
      ⟨-, error, next, heap, hrun, hnext, hvalid, hextends⟩ | ⟨-, location, heap, hinsert, hrun⟩
    · exact .inl ⟨error, _, bind_of_error hrun, unseen_of_extends h hnext hvalid hextends⟩
    · refine .inr ⟨definition.name, store.bound location heap, ⟨rewritten_bound h htype hinsert,
        fun cell hcell => ?_, fun object hnow => ?_, fun object hvalue => ?_⟩, .inl ?_⟩
      · obtain ⟨entry, hentry, -⟩ := cells_eq_some.1 hcell
        exact absurd (h.bound_lt hentry) (Nat.lt_irrefl _)
      · exact absurd ((now_next h).symm.trans hnow) (Option.some_ne_none object).symm
      · exact ⟨definition, Option.some.inj hvalue ▸ htype, rfl⟩
      · have hnone : store.cells.now ((Write.create definition.id fields).target store) = none :=
          now_next h
        rw [hnone]
        change (createObject definition fields >>= fun _ => pure ()) store =
          indexMaintain definition.name store.nextObjectId fields true (store.bound location heap)
        cases hindex : indexMaintain definition.name store.nextObjectId fields true
            (store.bound location heap) with
        | error error state => exact bind_of_error (hrun.trans (bind_of_error hindex))
        | ok value state => exact bind_of_ok (hrun.trans (bind_of_ok hindex))
  | update id type fields =>
    rw [run_update]
    cases htype : store.findType type with
    | error error => exact .inl ⟨error, store, rfl, .refl h⟩
    | ok definition =>
    have hid := findType_id htype
    subst hid
    rw [check_ok_bind]
    cases hget : store.get id with
    | error error => exact .inl ⟨error, store, rfl, .refl h⟩
    | ok stored =>
    rw [check_ok_bind]
    cases hstored : store.findType stored.type with
    | error error => exact .inl ⟨error, store, rfl, .refl h⟩
    | ok storedType =>
    rw [check_ok_bind, ite_run]
    by_cases hname : storedType.name ≠ definition.name
    · rw [if_pos hname]
      exact .inl ⟨_, store, rfl, .refl h⟩
    rw [if_neg hname]
    rcases @update_cases H Id _ _ store id definition fields snapshots.min? _ h htx with
      ⟨-, error, heap, hrun, hvalid, hextends⟩ |
      ⟨-, old, entry, object, location, heap, hlive, hobject, hcheck, hreplaced, hrun⟩
    · exact .inl ⟨error, _, hrun, unseen_of_extends h (Nat.le_refl _) hvalid hextends⟩
    · have hnow := (get_eq_ok_iff h).1 hobject
      refine .inr ⟨definition.name, store.rebound id location heap old entry,
        ⟨rewritten_rebound h htype hlive hreplaced,
          fun cell hcell epoch hepoch => spares_of_check hcheck hcell hlive hepoch,
          fun object' hnow' => ?_, fun object' hvalue => ?_⟩, ?_⟩
      · have hget' : store.get id = .ok object' := (get_eq_ok_iff h).2 hnow'
        rw [hget] at hget'
        injection hget' with heq
        exact ⟨storedType, heq ▸ hstored, not_not.1 hname⟩
      · exact ⟨definition, Option.some.inj hvalue ▸ htype, rfl⟩
      · rcases hrun with ⟨-, hrun⟩ | ⟨-, error, hrun⟩
        · left
          have hsome : store.cells.now ((Write.update id definition.id fields).target store) =
            some object := hnow
          rw [hsome]
          exact hrun
        · exact .inr ⟨error, hrun⟩
  | remove id =>
    rw [run_remove]
    rcases @remove_cases H Id _ _ _ store id snapshots.min? h htx with
      ⟨-, error, hrun⟩ | ⟨-, old, entry, object, type, hlive, hobject, hcheck, htype, hrun⟩
    · exact .inl ⟨error, store, hrun, .refl h⟩
    · have hnow := (get_eq_ok_iff h).1 hobject
      refine .inr ⟨type.name, store.erased id old entry, ⟨rewritten_erased h hlive,
        fun cell hcell epoch hepoch => spares_of_check hcheck hcell hlive hepoch,
        fun object' hnow' => ?_, fun object' hvalue => ?_⟩, .inl ?_⟩
      · change store.cells.now id = some object' at hnow'
        rw [hnow] at hnow'
        exact ⟨type, Option.some.inj hnow' ▸ htype, rfl⟩
      · cases hvalue
      · have hsome : store.cells.now ((Write.remove id).target store) = some object := hnow
        rw [hsome]
        change ObjectStore.remove id snapshots.min? store =
          (indexMaintain type.name id object.fields false >>= fun _ => pure ())
            (store.erased id old entry)
        rw [hrun]
        cases hindex : indexMaintain type.name id object.fields false (store.erased id old entry) with
        | error error state => exact (bind_of_error hindex).symm
        | ok value state => exact (bind_of_ok hindex).symm

omit [DecidableEq Id] [RecordStore H Id DecodedObject Error NotFound] in
theorem after_indexValue (typeName : String) (id : ObjectId) (insert : Bool)
    (value : Option DecodedObject) (store : ObjectStore H Id) :
    ∃ infos, after (indexValue typeName id insert value store) = { store with indexes := infos } := by
  cases value with
  | none => exact ⟨store.indexes, rfl⟩
  | some object => exact after_indexMaintain typeName id object.fields insert store

omit [DecidableEq Id] [RecordStore H Id DecodedObject Error NotFound] in
theorem after_reindexed (typeName : String) (id : ObjectId) (old new : Option DecodedObject)
    (store : ObjectStore H Id) :
    ∃ infos, after (reindex typeName id old new store) = { store with indexes := infos } := by
  unfold reindex
  obtain ⟨infos, hinfos⟩ := after_indexValue typeName id false old store
  cases hrun : indexValue typeName id false old store with
  | error error state =>
    rw [hrun] at hinfos
    exact ⟨infos, (congrArg after (bind_of_error hrun)).trans hinfos⟩
  | ok value state =>
    rw [hrun] at hinfos
    have hstate : state = { store with indexes := infos } := hinfos
    obtain ⟨infos', hinfos'⟩ := after_indexValue typeName id true new state
    refine ⟨infos', (congrArg after (bind_of_ok hrun)).trans (hinfos'.trans ?_)⟩
    rw [hstate]

omit [DecidableEq Id] [RecordStore H Id DecodedObject Error NotFound] in
theorem after_bound {typeName : String} {id : ObjectId} {old new : Option DecodedObject}
    {result : EStateM.Result Error (ObjectStore H Id) Unit} {store : ObjectStore H Id}
    (h : result = reindex typeName id old new store ∨ ∃ error, result = .error error store) :
    ∃ infos, after result = { store with indexes := infos } := by
  rcases h with rfl | ⟨error, rfl⟩
  · exact after_reindexed typeName id old new store
  · exact ⟨store.indexes, rfl⟩

end Run

/-! ### Definitions -/

omit [DecidableEq Id] [RecordStore H Id DecodedObject Error NotFound] in
theorem after_registerType (definition : TypeDefinition) (store : ObjectStore H Id) :
    ∃ next types, store.nextObjectId ≤ next ∧ after (registerType definition store) =
      { store with nextObjectId := next, types := store.types ++ types } := by
  have hnone : ∀ next, ({ store with nextObjectId := next } : ObjectStore H Id) =
      { store with nextObjectId := next, types := store.types ++ [] } := by
    intro next
    rw [List.append_nil]
  unfold registerType
  by_cases hfull : store.nextObjectId = 0 ∨ store.nextObjectId = 2 ^ 64 - 1
  · rw [bind_of_error (allocateObjectId_error hfull)]
    exact ⟨store.nextObjectId, [], Nat.le_refl _, hnone _⟩
  rw [bind_of_ok (allocateObjectId_ok hfull)]
  by_cases hfull' : store.nextObjectId + 1 = 0 ∨ store.nextObjectId + 1 = 2 ^ 64 - 1
  · have hrun : allocateObjectId { store with nextObjectId := store.nextObjectId + 1 } =
        .error ⟨.valueTooLarge, "ObjectId space exhausted"⟩
          { store with nextObjectId := store.nextObjectId + 1 } := allocateObjectId_error hfull'
    rw [bind_of_error hrun]
    exact ⟨store.nextObjectId + 1, [], Nat.le_succ _, hnone _⟩
  · have hrun : allocateObjectId { store with nextObjectId := store.nextObjectId + 1 } =
        .ok (store.nextObjectId + 1) { store with nextObjectId := store.nextObjectId + 1 + 1 } :=
      allocateObjectId_ok hfull'
    rw [bind_of_ok hrun]
    exact ⟨store.nextObjectId + 1 + 1, _, Nat.le_succ_of_le (Nat.le_succ _), rfl⟩

theorem createIndex_cases [PageSize] (h : store.Sound) (htx : store.inTransaction = true)
    (type : TypeDefinition) (field : FieldId) :
    (∃ error infos, ObjectStore.createIndex type field store =
        .error error { store with indexes := infos } ∧ infos.getD [] = store.indexes.getD []) ∨
    (∃ records tree, RecordStore.records store.heap = .ok records ∧
      store.backfill type.name field records KeySet.empty = .ok tree ∧
      store.findIndex type.name field = none ∧
      ObjectStore.createIndex type field store = .ok () { store with
        indexes := some (store.indexes.getD [] ++
          [{ typeName := type.name, fieldId := field, tree := tree }]) }) := by
  unfold ObjectStore.createIndex
  rw [get_bind_run', ite_run, if_neg (by rw [htx]; decide), ite_run]
  by_cases hfield : (type.find field).isNone
  · rw [if_pos hfield]
    exact .inl ⟨_, store.indexes, rfl, rfl⟩
  rw [if_neg hfield]
  have hmodify : (modify fun store => { store with indexes := some (store.indexes.getD []) } :
      StoreM H Id PUnit) store = .ok () { store with indexes := some (store.indexes.getD []) } := rfl
  rw [bind_of_ok hmodify, ite_run]
  cases hfind : store.findIndex type.name field with
  | some info =>
    exact .inl ⟨_, some (store.indexes.getD []), if_pos rfl, rfl⟩
  | none =>
    have hnone : ¬(none : Option IndexInfo).isSome = true := Bool.false_ne_true
    rw [if_neg hnone]
    obtain ⟨records, hrecords, -⟩ := RecordStore.records_eq h.heap
    rw [hrecords, check_ok_bind]
    cases htree : store.backfill type.name field records KeySet.empty with
    | error error => exact .inl ⟨error, some (store.indexes.getD []), rfl, rfl⟩
    | ok tree => exact .inr ⟨records, tree, rfl, htree, rfl, rfl⟩

end MoDb.Store.ObjectStore
