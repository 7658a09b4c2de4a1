import MoDb.Store.IndexKeys

/-!
# What the operations of the store can do

`Sound` is what every operation keeps, whether it returns or fails: each version that the identity
map refers to is a record of the heap, with the right id. Under it, an operation either is refused
and changes nothing that a read can see, or makes its change and then goes over the indexes.
-/

namespace MoDb.Store

open Effect Storage Index

section Monad

variable {σ α β : Type} (state : σ)

@[simp]
theorem check_ok (value : α) : check (.ok value : Except Error α) state = .ok value state := rfl

@[simp]
theorem check_error (error : Error) :
    (check (.error error) : EStateM Error σ α) state = .error error state := rfl

@[simp]
theorem check_ok_bind (value : α) (next : α → EStateM Error σ β) :
    (check (.ok value) >>= next) state = next value state := rfl

@[simp]
theorem check_error_bind (error : Error) (next : α → EStateM Error σ β) :
    (check (.error error) >>= next) state = .error error state := rfl

@[simp]
theorem get_bind_run' (next : σ → EStateM Error σ β) :
    (EStateM.get >>= next) state = next state state := rfl

end Monad

namespace ObjectStore

/-! ### Steps of an operation -/

section Steps

variable {H Id α : Type} {store : ObjectStore H Id}

theorem allocateObjectId_ok (h : ¬(store.nextObjectId = 0 ∨ store.nextObjectId = 2 ^ 64 - 1)) :
    allocateObjectId store =
      .ok store.nextObjectId { store with nextObjectId := store.nextObjectId + 1 } := if_neg h

theorem allocateObjectId_error (h : store.nextObjectId = 0 ∨ store.nextObjectId = 2 ^ 64 - 1) :
    allocateObjectId store = .error ⟨.valueTooLarge, "ObjectId space exhausted"⟩ store := if_pos h

theorem onHeap_ok {action : EStateM Error H α} {value : α} {heap : H}
    (h : action store.heap = .ok value heap) :
    onHeap action store = .ok value { store with heap := heap } := by
  unfold onHeap
  rw [h]

theorem onHeap_error {action : EStateM Error H α} {error : Error} {heap : H}
    (h : action store.heap = .error error heap) :
    onHeap action store = .error error { store with heap := heap } := by
  unfold onHeap
  rw [h]

theorem eraseRecord_ok [DecidableEq Id] [RecordStore H Id DecodedObject Error NotFound] {record : Id}
    {heap : H} (h : RecordStore.erase record store.heap = .ok () heap) :
    eraseRecord record store = .ok () { store with heap := heap } := by
  unfold eraseRecord
  rw [h]

theorem eraseRecord_absent [DecidableEq Id] [RecordStore H Id DecodedObject Error NotFound]
    {record : Id} {heap : H} {error : Error}
    (h : RecordStore.erase record store.heap = .error error heap) (hcode : NotFound error) :
    eraseRecord record store = .ok () { store with heap := heap } := by
  unfold eraseRecord
  rw [h]
  exact if_pos hcode

theorem eraseRecord_error [DecidableEq Id] [RecordStore H Id DecodedObject Error NotFound]
    {record : Id} {heap : H} {error : Error}
    (h : RecordStore.erase record store.heap = .error error heap) (hcode : ¬NotFound error) :
    eraseRecord record store = .error error { store with heap := heap } := by
  unfold eraseRecord
  rw [h]
  exact if_neg hcode

theorem onIdentity_ok {id : ObjectId} {action : IdentityMap Id → Except Error (IdentityMap Id)}
    {map : IdentityMap Id} (hfault : store.entryFault id = none)
    (h : action store.identity = .ok map) :
    onIdentity id action store = .ok () { store with identity := map } := by
  unfold onIdentity
  rw [hfault, h]

theorem onIdentity_error {id : ObjectId} {action : IdentityMap Id → Except Error (IdentityMap Id)}
    {error : Error} (h : action store.identity = .error error) :
    ∃ error, onIdentity id action store = .error error store := by
  unfold onIdentity
  rw [h]
  cases store.entryFault id with
  | none => exact ⟨error, rfl⟩
  | some error => exact ⟨error, rfl⟩

theorem onIdentity_fault (store : ObjectStore H Id) {id : ObjectId} {error : Error} (h : store.entryFault id = some error)
    (action : IdentityMap Id → Except Error (IdentityMap Id)) :
    onIdentity id action store = .error error store := by
  unfold onIdentity
  rw [h]

end Steps

/-! ### The versions of a store -/

variable {H Id : Type} [DecidableEq Id] [RecordStore H Id DecodedObject Error NotFound]

def Registered (store : ObjectStore H Id) (object : DecodedObject) : Prop :=
  ∃ type, store.findType object.type = .ok type

/-- `record` holds a version of the object `id`. -/
def Holds (store : ObjectStore H Id) (record : Id) (id : ObjectId) : Prop :=
  ∃ object, RecordStore.content store.heap record = some object ∧ object.id = id ∧
    store.Registered object

structure Sound (store : ObjectStore H Id) : Prop where
  heap : RecordStore.Valid store.heap
  current : ∀ {id entry record}, store.identity id = some entry → entry.current = some record →
    store.Holds record id
  previous : ∀ {id entry record epoch}, store.identity id = some entry →
    entry.previous = some (record, epoch) → store.Holds record id
  distinct : ∀ {id entry record epoch}, store.identity id = some entry →
    entry.previous = some (record, epoch) → entry.current ≠ some record
  bound_lt : ∀ {id entry}, store.identity id = some entry → id < store.nextObjectId

/-! ### Reads -/

section Reads

variable {store store' : ObjectStore H Id}

theorem read_eq_some (h : RecordStore.Valid store.heap) {record : Id} {object : DecodedObject} :
    RecordStore.read record store.heap = .ok object ↔
      RecordStore.content store.heap record = some object := by
  constructor
  · intro hread
    cases hcontent : RecordStore.content store.heap record with
    | none =>
      obtain ⟨error, herror, -⟩ := RecordStore.read_of_none h hcontent
      rw [herror] at hread
      injection hread
    | some found =>
      rw [RecordStore.read_of_some h hcontent] at hread
      injection hread with heq
      rw [heq]
  · exact RecordStore.read_of_some h

theorem get_eq_ok (h : store.Sound) {id : ObjectId} {object : DecodedObject} :
    store.get id = .ok object ↔ ∃ entry record, store.identity id = some entry ∧
      entry.current = some record ∧ RecordStore.content store.heap record = some object := by
  unfold get
  constructor
  · intro hget
    obtain ⟨record, hfind, hread⟩ := except_bind_eq_ok hget
    obtain ⟨entry, hentry, hcurrent⟩ := IdentityMap.find_eq_ok.1 hfind
    exact ⟨entry, record, hentry, hcurrent, (read_eq_some h.heap).1 hread⟩
  · rintro ⟨entry, record, hentry, hcurrent, hcontent⟩
    rw [IdentityMap.find_eq_ok.2 ⟨entry, hentry, hcurrent⟩]
    exact RecordStore.read_of_some h.heap hcontent

theorem id_of_get (h : store.Sound) {id : ObjectId} {object : DecodedObject}
    (hget : store.get id = .ok object) : object.id = id ∧ store.Registered object := by
  obtain ⟨entry, record, hentry, hcurrent, hcontent⟩ := (get_eq_ok h).1 hget
  obtain ⟨found, hfound, hid, hregistered⟩ := h.current hentry hcurrent
  rw [hcontent] at hfound
  exact Option.some.inj hfound ▸ ⟨hid, hregistered⟩

theorem get_of_live (h : store.Sound) {id : ObjectId} {record : Id} {entry : Entry Id}
    (hlive : store.identity.live id = .ok (record, entry)) :
    ∃ object, store.get id = .ok object ∧ RecordStore.content store.heap record = some object ∧
      object.id = id ∧ store.Registered object := by
  obtain ⟨hentry, hcurrent⟩ := IdentityMap.live_eq_ok.1 hlive
  obtain ⟨object, hcontent, hid⟩ := h.current hentry hcurrent
  exact ⟨object, (get_eq_ok h).2 ⟨entry, record, hentry, hcurrent, hcontent⟩, hcontent, hid⟩

theorem holds_of_findAt (h : store.Sound) {id : ObjectId} {epoch : Nat} {record : Id}
    (hfind : store.identity.findAt id epoch = .ok record) : store.Holds record id := by
  unfold IdentityMap.findAt at hfind
  split at hfind
  · injection hfind
  · rename_i entry hentry
    split at hfind
    · split at hfind
      · rename_i found hcurrent
        injection hfind with heq
        exact heq ▸ h.current hentry hcurrent
      · injection hfind
    · split at hfind
      · rename_i found previousEpoch hprevious
        split at hfind
        · injection hfind with heq
          exact heq ▸ h.previous hentry hprevious
        · injection hfind
      · injection hfind

end Reads

/-! ### What a read can see -/

/-- `store'` has every record of `store`. -/
def Extends (store store' : ObjectStore H Id) : Prop :=
  ∀ record object, RecordStore.content store.heap record = some object →
    RecordStore.content store'.heap record = some object

/-- No read of the transaction, of a snapshot or of an index tells the two stores apart, and both
publish the same at a commit. -/
structure SameView (store store' : ObjectStore H Id) : Prop where
  identity_eq : store'.identity = store.identity
  indexes_eq : store'.indexes.getD [] = store.indexes.getD []
  epoch_eq : store'.epoch = store.epoch
  types_eq : store'.types = store.types
  openedEpoch_eq : store'.openedEpoch = store.openedEpoch
  get_eq : ∀ id, store'.get id = store.get id
  getAt_eq : ∀ id epoch, store'.getAt id epoch = store.getAt id epoch
  scan_eq : ∃ list list', store.scan = .ok list ∧ store'.scan = .ok list' ∧ list'.Perm list
  scanAt_eq : ∀ epoch, ∃ list list', store.scanAt epoch = .ok list ∧
    store'.scanAt epoch = .ok list' ∧ list'.Perm list

section View

variable {store store' : ObjectStore H Id}

theorem extends_refl (store : ObjectStore H Id) : store.Extends store := fun _ _ h => h

theorem content_iff_of_extends (hextends : store.Extends store') {record : Id}
    {id : ObjectId} (hholds : store.Holds record id) (object : DecodedObject) :
    RecordStore.content store.heap record = some object ↔
      RecordStore.content store'.heap record = some object := by
  obtain ⟨found, hfound, -⟩ := hholds
  rw [hfound, hextends record found hfound]

theorem read_eq_of_extends (h : store.Sound) (hvalid : RecordStore.Valid store'.heap)
    (hextends : store.Extends store') {record : Id} {id : ObjectId} (hholds : store.Holds record id) :
    RecordStore.read record store'.heap = RecordStore.read record store.heap := by
  obtain ⟨found, hfound, -⟩ := hholds
  rw [RecordStore.read_of_some h.heap hfound,
    RecordStore.read_of_some hvalid (hextends record found hfound)]

theorem sameView_of_extends (h : store.Sound) (hvalid : RecordStore.Valid store'.heap)
    (hextends : store.Extends store') (hidentity : store'.identity = store.identity)
    (hindexes : store'.indexes.getD [] = store.indexes.getD []) (hepoch : store'.epoch = store.epoch)
    (htypes : store'.types = store.types) (hopened : store'.openedEpoch = store.openedEpoch) :
    store.SameView store' where
  identity_eq := hidentity
  indexes_eq := hindexes
  epoch_eq := hepoch
  types_eq := htypes
  openedEpoch_eq := hopened
  get_eq := by
    intro id
    unfold get
    rw [hidentity]
    cases hfind : store.identity.find id with
    | error error => rfl
    | ok record =>
      obtain ⟨entry, hentry, hcurrent⟩ := IdentityMap.find_eq_ok.1 hfind
      exact read_eq_of_extends h hvalid hextends (h.current hentry hcurrent)
  getAt_eq := by
    intro id epoch
    unfold getAt
    rw [hidentity]
    cases hfind : store.identity.findAt id epoch with
    | error error => rfl
    | ok record => exact read_eq_of_extends h hvalid hextends (holds_of_findAt h hfind)
  scan_eq := by
    have hcurrent : store'.isCurrent = store.isCurrent := by
      funext record
      unfold isCurrent
      rw [hidentity]
    obtain ⟨list, list', hlist, hlist', hperm⟩ :=
      RecordStore.records_filter_perm h.heap hvalid store.isCurrent (by
        intro record object hvisible
        unfold isCurrent at hvisible
        split at hvisible
        · rename_i location hfind
          obtain ⟨entry, hentry, hcurrent⟩ := IdentityMap.find_eq_ok.1 hfind
          have hlocation : location = record := of_decide_eq_true hvisible
          exact content_iff_of_extends hextends (h.current hentry (hlocation ▸ hcurrent)) object
        · cases hvisible)
    refine ⟨_, _, ?_, ?_, hperm.map Prod.snd⟩
    · unfold scan
      rw [hlist]
      rfl
    · unfold scan
      rw [hlist', hcurrent]
      rfl
  scanAt_eq := by
    intro epoch
    have hvisible : store'.visibleAt epoch = store.visibleAt epoch := by
      funext record
      unfold visibleAt
      rw [hidentity]
    obtain ⟨list, list', hlist, hlist', hperm⟩ :=
      RecordStore.records_filter_perm h.heap hvalid (store.visibleAt epoch) (by
        intro record object hvisible
        unfold visibleAt at hvisible
        split at hvisible
        · rename_i location hfind
          have hlocation : location = record := of_decide_eq_true hvisible
          exact content_iff_of_extends hextends (holds_of_findAt h (hlocation ▸ hfind)) object
        · cases hvisible)
    refine ⟨_, _, ?_, ?_, hperm.map Prod.snd⟩
    · unfold scanAt
      rw [hlist]
      rfl
    · unfold scanAt
      rw [hlist', hvisible]
      rfl

end View

/-! ### Creation -/

section Create

variable {store : ObjectStore H Id} {type : TypeDefinition} {fields : FieldValues}

def RefusedCreate (store : ObjectStore H Id) (type : TypeDefinition) (fields : FieldValues) : Prop :=
  type.id = invalidObjectId ∨ (∃ error, validateObject type fields = .error error) ∨
    store.nextObjectId = 0 ∨ store.nextObjectId = 2 ^ 64 - 1 ∨
    (∃ error, encodeObject store.nextObjectId type.id fields = .error error) ∨
    (∃ error heap, RecordStore.insert (⟨store.nextObjectId, type.id, fields⟩ : DecodedObject)
      store.heap = .error error heap) ∨
    store.entryFault store.nextObjectId ≠ none

def bound (store : ObjectStore H Id) (location : Id) (heap : H) : ObjectStore H Id :=
  { store with
    nextObjectId := store.nextObjectId + 1
    heap := heap
    identity := Function.update store.identity store.nextObjectId
      (some { current := some location, currentEpoch := store.transactionEpoch }) }

theorem extends_of_content {next : ObjectId} {heap : H}
    (hcontent : RecordStore.content heap = RecordStore.content store.heap) :
    store.Extends { store with nextObjectId := next, heap := heap } :=
  fun _ _ h => hcontent.symm ▸ h

theorem extends_of_insert (h : store.Sound) {object : DecodedObject} {location : Id} {heap : H}
    (hinsert : RecordStore.insert object store.heap = .ok location heap) :
    RecordStore.Valid heap ∧ store.Extends { store with heap := heap } := by
  obtain ⟨hvalid, hfree, hcontent⟩ := RecordStore.insert_ok h.heap hinsert
  refine ⟨hvalid, fun record found hfound => ?_⟩
  have hne : record ≠ location := by
    rintro rfl
    rw [hfree] at hfound
    cases hfound
  change RecordStore.content heap record = some found
  rw [hcontent, Function.update_of_ne hne, hfound]

theorem createObject_cases [PageSize] (h : store.Sound) (htx : store.inTransaction = true) :
    (store.RefusedCreate type fields ∧ ∃ error next heap,
      createObject type fields store =
        .error error { store with nextObjectId := next, heap := heap } ∧
      store.nextObjectId ≤ next ∧ RecordStore.Valid heap ∧
      store.Extends { store with nextObjectId := next, heap := heap }) ∨
    (¬store.RefusedCreate type fields ∧ ∃ location heap,
      RecordStore.insert (⟨store.nextObjectId, type.id, fields⟩ : DecodedObject) store.heap =
        .ok location heap ∧
      createObject type fields store =
        (indexMaintain type.name store.nextObjectId fields true >>= fun _ =>
          pure store.nextObjectId) (store.bound location heap)) := by
  unfold createObject
  rw [get_bind_run', ite_run, if_neg (by rw [htx]; decide), ite_run]
  by_cases htype : type.id = invalidObjectId
  · rw [if_pos htype]
    exact .inl ⟨.inl htype, _, _, _, rfl, Nat.le_refl _, h.heap, extends_refl store⟩
  rw [if_neg htype]
  cases hvalid : validateObject type fields with
  | error error =>
    exact .inl ⟨.inr (.inl ⟨error, hvalid⟩), error, _, _, rfl, Nat.le_refl _, h.heap,
      extends_refl store⟩
  | ok =>
  rw [check_ok_bind]
  by_cases hspace : store.nextObjectId = 0 ∨ store.nextObjectId = 2 ^ 64 - 1
  · rw [bind_of_error (allocateObjectId_error hspace)]
    exact .inl ⟨.inr (.inr (hspace.imp_right .inl)), _, _, _, rfl, Nat.le_refl _, h.heap,
      extends_refl store⟩
  rw [bind_of_ok (allocateObjectId_ok hspace)]
  cases hencode : encodeObject store.nextObjectId type.id fields with
  | error error =>
    exact .inl ⟨.inr (.inr (.inr (.inr (.inl ⟨error, hencode⟩)))), error, _, _, rfl, Nat.le_succ _,
      h.heap, extends_of_content rfl⟩
  | ok record =>
  rw [check_ok_bind, encodeObject_eq_ok hencode]
  cases hinsert : RecordStore.insert (⟨store.nextObjectId, type.id, fields⟩ : DecodedObject)
      store.heap with
  | error error heap =>
    obtain ⟨hheap, hcontent⟩ := RecordStore.insert_error h.heap hinsert
    exact .inl ⟨.inr (.inr (.inr (.inr (.inr (.inl ⟨error, heap, hinsert⟩))))), error, _, heap,
      bind_of_error (onHeap_error hinsert), Nat.le_succ _, hheap, extends_of_content hcontent⟩
  | ok location heap =>
  have hinserted : onHeap (RecordStore.insert
      (⟨store.nextObjectId, type.id, fields⟩ : DecodedObject))
      { store with nextObjectId := store.nextObjectId + 1 } =
        .ok location { store with nextObjectId := store.nextObjectId + 1, heap := heap } :=
    onHeap_ok hinsert
  rw [bind_of_ok hinserted]
  cases hfault : store.entryFault store.nextObjectId with
  | some error =>
    obtain ⟨hheap, hextends⟩ := extends_of_insert h hinsert
    have hfailed : store.entryFault store.nextObjectId ≠ none := by
      rw [hfault]
      exact Option.some_ne_none error
    have hrefused : onIdentity store.nextObjectId
        (fun map => map.bind store.nextObjectId location store.transactionEpoch)
        { store with nextObjectId := store.nextObjectId + 1, heap := heap } =
          .error error { store with nextObjectId := store.nextObjectId + 1, heap := heap } :=
      onIdentity_fault { store with nextObjectId := store.nextObjectId + 1, heap := heap } hfault _
    exact .inl ⟨.inr (.inr (.inr (.inr (.inr (.inr hfailed))))), error, _, heap,
      bind_of_error hrefused, Nat.le_succ _, hheap, hextends⟩
  | none =>
  have hfree : store.identity store.nextObjectId = none := by
    by_contra hsome
    obtain ⟨entry, hentry⟩ := Option.ne_none_iff_exists'.1 hsome
    exact absurd (h.bound_lt hentry) (Nat.lt_irrefl _)
  have hbind := IdentityMap.bind_eq_ok (fun hzero => hspace (.inl hzero)) hfree location
    store.transactionEpoch
  have hbound : onIdentity store.nextObjectId
      (fun map => map.bind store.nextObjectId location store.transactionEpoch)
      { store with nextObjectId := store.nextObjectId + 1, heap := heap } =
        .ok () (store.bound location heap) := onIdentity_ok hfault hbind
  rw [bind_of_ok hbound]
  refine .inr ⟨?_, location, heap, rfl, rfl⟩
  rintro (hrefused | ⟨error, hrefused⟩ | hrefused | hrefused | ⟨error, hrefused⟩ |
    ⟨error, heap', hrefused⟩ | hrefused)
  · exact htype hrefused
  · rw [hvalid] at hrefused
    cases hrefused
  · exact hspace (.inl hrefused)
  · exact hspace (.inr hrefused)
  · rw [hencode] at hrefused
    cases hrefused
  · rw [hinsert] at hrefused
    cases hrefused
  · exact hrefused hfault

end Create

/-! ### Update -/

section Update

variable {store : ObjectStore H Id} {id : ObjectId} {type : TypeDefinition}
  {fields : FieldValues} {oldest : Option Nat}

def RefusedUpdate (store : ObjectStore H Id) (id : ObjectId) (type : TypeDefinition)
    (fields : FieldValues) (oldest : Option Nat) : Prop :=
  (∃ error, validateObject type fields = .error error) ∨
    (∃ error, store.checkSnapshotConflict id oldest = .error error) ∨
    (∃ error, encodeObject id type.id fields = .error error) ∨
    (∃ error heap, RecordStore.insert (⟨id, type.id, fields⟩ : DecodedObject) store.heap =
      .error error heap) ∨
    (∃ error, store.identity.live id = .error error) ∨
    store.entryFault id ≠ none

/-- The heap can erase the version that the update overwrites in the entry. -/
def Releases (store : ObjectStore H Id) (id : ObjectId) (type : TypeDefinition)
    (fields : FieldValues) : Prop :=
  ∀ location heap record,
    RecordStore.insert (⟨id, type.id, fields⟩ : DecodedObject) store.heap = .ok location heap →
    store.overwrittenPrevious id = .ok (some record) →
    ∀ error heap', RecordStore.erase record heap = .error error heap' → NotFound error

/-- The store once the new version is bound in place of `old`. -/
def rebound (store : ObjectStore H Id) (id : ObjectId) (location : Id) (heap : H) (old : Id)
    (entry : Entry Id) : ObjectStore H Id :=
  { store with
    heap := heap
    identity := Function.update store.identity id
      (some ⟨some location, store.transactionEpoch, some (old, entry.currentEpoch)⟩) }

/-- The records after an update: the new version is there, and only the version before the old one
may be gone. -/
structure Replaced (store : ObjectStore H Id) (entry : Entry Id) (location : Id)
    (object : DecodedObject) (heap : H) : Prop where
  valid : RecordStore.Valid heap
  fresh : RecordStore.content store.heap location = none
  content_self : RecordStore.content heap location = some object
  content_of_ne : ∀ record, record ≠ location → entry.previous.map Prod.fst ≠ some record →
    RecordStore.content heap record = RecordStore.content store.heap record

omit [DecidableEq Id] [RecordStore H Id DecodedObject Error NotFound] in
theorem overwrittenPrevious_ok {entry : Entry Id} (hentry : store.identity id = some entry) :
    store.overwrittenPrevious id = .ok (entry.previous.map Prod.fst) := by
  unfold overwrittenPrevious IdentityMap.inspect
  rw [hentry]

omit [DecidableEq Id] [RecordStore H Id DecodedObject Error NotFound] in
theorem overwrittenPrevious_eq_ok (store : ObjectStore H Id) (id : ObjectId) :
    ∃ overwritten, store.overwrittenPrevious id = .ok overwritten := by
  cases hentry : store.identity id with
  | some entry => exact ⟨_, overwrittenPrevious_ok hentry⟩
  | none =>
    unfold overwrittenPrevious IdentityMap.inspect
    rw [hentry]
    exact ⟨none, rfl⟩

omit [DecidableEq Id] [RecordStore H Id DecodedObject Error NotFound] in
theorem indexMaintain_none [PageSize] (store : ObjectStore H Id) (h : store.indexes = none)
    (typeName : String) (id : ObjectId) (fields : FieldValues) (insert : Bool) :
    indexMaintain typeName id fields insert store = .ok () store := by
  unfold indexMaintain
  rw [h]

theorem replaced_of_insert (h : store.Sound) {object : DecodedObject} {location : Id} {heap : H}
    (hinsert : RecordStore.insert object store.heap = .ok location heap) (entry : Entry Id) :
    store.Replaced entry location object heap := by
  obtain ⟨hvalid, hfree, hcontent⟩ := RecordStore.insert_ok h.heap hinsert
  refine ⟨hvalid, hfree, ?_, fun record hne _ => ?_⟩
  · rw [hcontent, Function.update_self]
  · rw [hcontent, Function.update_of_ne hne]

theorem Replaced.erase (h : store.Sound) {entry : Entry Id} {location record : Id} {epoch : Nat}
    {object : DecodedObject} {heap heap' : H} (hreplaced : store.Replaced entry location object heap)
    (hentry : store.identity id = some entry) (hprevious : entry.previous = some (record, epoch))
    (hvalid : RecordStore.Valid heap')
    (hcontent : ∀ other, other ≠ record →
      RecordStore.content heap' other = RecordStore.content heap other) :
    store.Replaced entry location object heap' := by
  have hne : location ≠ record := by
    rintro rfl
    obtain ⟨found, hfound, -⟩ := h.previous hentry hprevious
    rw [hreplaced.fresh] at hfound
    cases hfound
  refine ⟨hvalid, hreplaced.fresh, ?_, fun other hother hkept => ?_⟩
  · rw [hcontent location hne, hreplaced.content_self]
  · have hne' : other ≠ record := by
      rintro rfl
      exact hkept (by rw [hprevious]; rfl)
    rw [hcontent other hne', hreplaced.content_of_ne other hother hkept]

theorem releaseOverwritten_cases (old : Id) (h : store.Sound) {entry : Entry Id} {location : Id}
    (hentry : store.identity id = some entry) {heap : H}
    (hinsert : RecordStore.insert (⟨id, type.id, fields⟩ : DecodedObject) store.heap =
      .ok location heap) :
    ∃ heap', store.Replaced entry location ⟨id, type.id, fields⟩ heap' ∧
      ((store.Releases id type fields ∧ releaseOverwritten (entry.previous.map Prod.fst)
        (store.rebound id location heap old entry) =
          .ok () (store.rebound id location heap' old entry)) ∨
      (¬store.Releases id type fields ∧ ∃ error,
        releaseOverwritten (entry.previous.map Prod.fst) (store.rebound id location heap old entry) =
          .error error (store.rebound id location heap' old entry))) := by
  have hreplaced := replaced_of_insert h hinsert entry
  have hoverwritten := overwrittenPrevious_ok hentry
  cases hprevious : entry.previous with
  | none =>
    refine ⟨heap, hreplaced, .inl ⟨fun _ _ record _ hrecord => ?_, rfl⟩⟩
    rw [hoverwritten, hprevious] at hrecord
    cases hrecord
  | some previous =>
    obtain ⟨record, epoch⟩ := previous
    rw [hprevious] at hoverwritten
    have hrun : releaseOverwritten (Option.map Prod.fst (some (record, epoch)))
        (store.rebound id location heap old entry) =
          eraseRecord record (store.rebound id location heap old entry) := rfl
    have hreleases : store.Releases id type fields ↔
        ∀ error heap', RecordStore.erase record heap = .error error heap' → NotFound error := by
      constructor
      · exact fun h => h location heap record hinsert hoverwritten
      · intro herased location' heap' record' hinsert' hrecord'
        rw [hinsert] at hinsert'
        rw [hoverwritten] at hrecord'
        cases hinsert'
        cases hrecord'
        exact herased
    rw [hreleases, hrun]
    cases herase : RecordStore.erase record heap with
    | ok value heap' =>
      obtain ⟨hvalid, hcontent⟩ := RecordStore.erase_ok hreplaced.valid herase
      have herased : eraseRecord record (store.rebound id location heap old entry) =
          .ok () (store.rebound id location heap' old entry) := eraseRecord_ok herase
      refine ⟨heap', hreplaced.erase h hentry hprevious hvalid fun other hother => ?_,
        .inl ⟨?_, herased⟩⟩
      · rw [hcontent, Function.update_of_ne hother]
      · intro error heap'' herror
        cases herror
    | error error heap' =>
      obtain ⟨hvalid, hcontent, -⟩ := RecordStore.erase_error hreplaced.valid herase
      refine ⟨heap', hreplaced.erase h hentry hprevious hvalid fun other _ => by rw [hcontent], ?_⟩
      by_cases hcode : error.code = .recordNotFound
      · have herased : eraseRecord record (store.rebound id location heap old entry) =
            .ok () (store.rebound id location heap' old entry) := eraseRecord_absent herase hcode
        refine .inl ⟨fun error' heap'' heq => ?_, herased⟩
        injection heq with herror
        exact herror ▸ hcode
      · have herased : eraseRecord record (store.rebound id location heap old entry) =
            .error error (store.rebound id location heap' old entry) :=
          eraseRecord_error herase hcode
        exact .inr ⟨fun hall => hcode (hall error heap' rfl), error, herased⟩

theorem update_cases [PageSize] (h : store.Sound) (htx : store.inTransaction = true) :
    (store.RefusedUpdate id type fields oldest ∧ ∃ error heap,
      update id type fields oldest store = .error error { store with heap := heap } ∧
      RecordStore.Valid heap ∧ store.Extends { store with heap := heap }) ∨
    (¬store.RefusedUpdate id type fields oldest ∧ ∃ old entry object location heap,
      store.identity.live id = .ok (old, entry) ∧ store.get id = .ok object ∧
      store.checkSnapshotConflict id oldest = .ok () ∧
      store.Replaced entry location ⟨id, type.id, fields⟩ heap ∧
      ((store.Releases id type fields ∧ update id type fields oldest store =
        (indexMaintain type.name id object.fields false >>= fun _ =>
          indexMaintain type.name id fields true) (store.rebound id location heap old entry)) ∨
      (¬store.Releases id type fields ∧ ∃ error, update id type fields oldest store =
        .error error (store.rebound id location heap old entry)))) := by
  unfold update
  rw [get_bind_run', ite_run, if_neg (by rw [htx]; decide)]
  cases hvalid : validateObject type fields with
  | error error =>
    exact .inl ⟨.inl ⟨error, hvalid⟩, error, _, rfl, h.heap, extends_refl store⟩
  | ok =>
  rw [check_ok_bind]
  cases hconflict : store.checkSnapshotConflict id oldest with
  | error error =>
    exact .inl ⟨.inr (.inl ⟨error, hconflict⟩), error, _, rfl, h.heap, extends_refl store⟩
  | ok =>
  rw [check_ok_bind]
  cases hencode : encodeObject id type.id fields with
  | error error =>
    exact .inl ⟨.inr (.inr (.inl ⟨error, hencode⟩)), error, _, rfl, h.heap, extends_refl store⟩
  | ok record =>
  rw [check_ok_bind, encodeObject_eq_ok hencode]
  obtain ⟨overwritten, hoverwritten⟩ := store.overwrittenPrevious_eq_ok id
  rw [hoverwritten, check_ok_bind]
  cases hinsert : RecordStore.insert (⟨id, type.id, fields⟩ : DecodedObject) store.heap with
  | error error heap =>
    obtain ⟨hheap, hcontent⟩ := RecordStore.insert_error h.heap hinsert
    exact .inl ⟨.inr (.inr (.inr (.inl ⟨error, heap, hinsert⟩))), error, heap,
      bind_of_error (onHeap_error hinsert), hheap, fun _ _ hrecord => hcontent.symm ▸ hrecord⟩
  | ok location heap =>
  have hinserted : onHeap (RecordStore.insert (⟨id, type.id, fields⟩ : DecodedObject)) store =
      .ok location { store with heap := heap } := onHeap_ok hinsert
  obtain ⟨hheap, hextends⟩ := extends_of_insert h hinsert
  rw [bind_of_ok hinserted]
  cases hlive : store.identity.live id with
  | error error =>
    have hrebind : store.identity.rebind id location store.transactionEpoch = .error error := by
      unfold IdentityMap.rebind
      rw [hlive]
    obtain ⟨error', hfailed⟩ : ∃ error', onIdentity id
        (fun map => map.rebind id location store.transactionEpoch) { store with heap := heap } =
          .error error' { store with heap := heap } := onIdentity_error hrebind
    exact .inl ⟨.inr (.inr (.inr (.inr (.inl ⟨error, hlive⟩)))), error', heap,
      bind_of_error hfailed, hheap, hextends⟩
  | ok live =>
  obtain ⟨old, entry⟩ := live
  cases hfault : store.entryFault id with
  | some error =>
    have hfailed : store.entryFault id ≠ none := by
      rw [hfault]
      exact Option.some_ne_none error
    have hrefused : onIdentity id (fun map => map.rebind id location store.transactionEpoch)
        { store with heap := heap } = .error error { store with heap := heap } :=
      onIdentity_fault { store with heap := heap } hfault _
    exact .inl ⟨.inr (.inr (.inr (.inr (.inr hfailed)))), error, heap, bind_of_error hrefused,
      hheap, hextends⟩
  | none =>
  obtain ⟨hentry, hcurrent⟩ := IdentityMap.live_eq_ok.1 hlive
  obtain ⟨object, hget, -⟩ := get_of_live h hlive
  have hrebind : store.identity.rebind id location store.transactionEpoch =
      .ok (store.rebound id location heap old entry).identity := by
    unfold IdentityMap.rebind
    rw [hlive]
    rfl
  have hrebound : onIdentity id (fun map => map.rebind id location store.transactionEpoch)
      { store with heap := heap } = .ok () (store.rebound id location heap old entry) :=
    onIdentity_ok hfault hrebind
  have heq : overwritten = entry.previous.map Prod.fst := by
    rw [overwrittenPrevious_ok hentry] at hoverwritten
    injection hoverwritten with heq
    exact heq.symm
  have hnot : ¬store.RefusedUpdate id type fields oldest := by
    rintro (⟨error, hrefused⟩ | ⟨error, hrefused⟩ | ⟨error, hrefused⟩ |
      ⟨error, heap'', hrefused⟩ | ⟨error, hrefused⟩ | hrefused)
    · rw [hvalid] at hrefused
      cases hrefused
    · rw [hconflict] at hrefused
      cases hrefused
    · rw [hencode] at hrefused
      cases hrefused
    · rw [hinsert] at hrefused
      cases hrefused
    · rw [hlive] at hrefused
      cases hrefused
    · exact hrefused hfault
  rw [bind_of_ok hrebound, heq]
  obtain ⟨heap', hreplaced, ⟨hreleases, hrelease⟩ | ⟨hreleases, error, hrelease⟩⟩ :=
    releaseOverwritten_cases old h hentry hinsert
  · refine .inr ⟨hnot, old, entry, object, location, heap', rfl, hget, rfl, hreplaced,
      .inl ⟨hreleases, ?_⟩⟩
    rw [bind_of_ok hrelease]
    cases hindexes : store.indexes with
    | none =>
      have hnone : store.previousValue id = none := by
        unfold previousValue
        rw [hindexes]
        rfl
      have hskip : indexMaintain type.name id object.fields false
          (store.rebound id location heap' old entry) =
            .ok () (store.rebound id location heap' old entry) :=
        indexMaintain_none (store.rebound id location heap' old entry) hindexes _ _ _ _
      rw [hnone, bind_of_ok hskip]
    | some infos =>
      have hsome : store.previousValue id = some object := by
        unfold previousValue
        rw [hindexes, hget]
        rfl
      rw [hsome]
  · exact .inr ⟨hnot, old, entry, object, location, heap', rfl, hget, rfl, hreplaced,
      .inr ⟨hreleases, error, bind_of_error hrelease⟩⟩

end Update

/-! ### Removal -/

section Remove

variable [PageSize] {store : ObjectStore H Id} {id : ObjectId} {oldest : Option Nat}

def RefusedRemove (store : ObjectStore H Id) (id : ObjectId) (oldest : Option Nat) : Prop :=
  (∃ error, store.checkSnapshotConflict id oldest = .error error) ∨
    (∃ error, store.identity.live id = .error error) ∨ store.entryFault id ≠ none

def erased (store : ObjectStore H Id) (id : ObjectId) (old : Id) (entry : Entry Id) :
    ObjectStore H Id :=
  { store with
    identity := Function.update store.identity id
      (some ⟨none, store.transactionEpoch, some (old, entry.currentEpoch)⟩) }

theorem remove_cases (h : store.Sound) (htx : store.inTransaction = true) :
    (store.RefusedRemove id oldest ∧ ∃ error, remove id oldest store = .error error store) ∨
    (¬store.RefusedRemove id oldest ∧ ∃ old entry object type,
      store.identity.live id = .ok (old, entry) ∧ store.get id = .ok object ∧
      store.checkSnapshotConflict id oldest = .ok () ∧ store.findType object.type = .ok type ∧
      remove id oldest store =
        indexMaintain type.name id object.fields false (store.erased id old entry)) := by
  unfold remove
  rw [get_bind_run', ite_run, if_neg (by rw [htx]; decide)]
  cases hconflict : store.checkSnapshotConflict id oldest with
  | error error => exact .inl ⟨.inl ⟨error, hconflict⟩, error, rfl⟩
  | ok =>
  rw [check_ok_bind]
  cases hlive : store.identity.live id with
  | error error =>
    have herase : store.identity.erase id store.transactionEpoch = .error error := by
      unfold IdentityMap.erase
      rw [hlive]
    obtain ⟨error', hfailed⟩ : ∃ error', onIdentity id
        (fun map => map.erase id store.transactionEpoch) store = .error error' store :=
      onIdentity_error herase
    exact .inl ⟨.inr (.inl ⟨error, hlive⟩), error', bind_of_error hfailed⟩
  | ok live =>
  obtain ⟨old, entry⟩ := live
  cases hfault : store.entryFault id with
  | some error =>
    have hfailed : store.entryFault id ≠ none := by
      rw [hfault]
      exact Option.some_ne_none error
    exact .inl ⟨.inr (.inr hfailed), error, bind_of_error (onIdentity_fault store hfault _)⟩
  | none =>
  obtain ⟨object, hget, -, -, type, htype⟩ := get_of_live h hlive
  have herase : store.identity.erase id store.transactionEpoch =
      .ok (store.erased id old entry).identity := by
    unfold IdentityMap.erase
    rw [hlive]
    rfl
  have herased : onIdentity id (fun map => map.erase id store.transactionEpoch) store =
      .ok () (store.erased id old entry) := onIdentity_ok hfault herase
  rw [bind_of_ok herased]
  refine .inr ⟨?_, old, entry, object, type, rfl, hget, rfl, htype, ?_⟩
  · rintro (⟨error, hrefused⟩ | ⟨error, hrefused⟩ | hrefused)
    · rw [hconflict] at hrefused
      cases hrefused
    · rw [hlive] at hrefused
      cases hrefused
    · exact hrefused hfault
  · cases hindexes : store.indexes with
    | none =>
      have hnone : store.previousValue id = none := by
        unfold previousValue
        rw [hindexes]
        rfl
      rw [hnone]
      exact (indexMaintain_none (store.erased id old entry) hindexes _ _ _ _).symm
    | some infos =>
      have hsome : store.previousValue id = some object := by
        unfold previousValue
        rw [hindexes, hget]
        rfl
      simp only [hsome, htype]

end Remove

end ObjectStore

end MoDb.Store
