import MoDb.Store.Soundness

/-!
# Atomicity of a statement

A create, update or remove checks its arguments, changes the heap and the identity map, and then goes
over the indexes of the type. An error of the checks leaves everything as it was. An index that
refuses a value comes too late: the object is already there.
-/

namespace MoDb.Store

open Effect Storage Index

/-- The statements on objects. `oldest` is the epoch of the oldest open snapshot. -/
inductive Statement
  | create (type : TypeDefinition) (fields : FieldValues)
  | update (id : ObjectId) (type : TypeDefinition) (fields : FieldValues) (oldest : Option Nat)
  | remove (id : ObjectId) (oldest : Option Nat)

namespace Statement

variable {H Id : Type} [DecidableEq Id] [RecordStore H Id DecodedObject Error NotFound] [PageSize]

def run : Statement → StoreM H Id Unit
  | .create type fields => do
    let _ ← ObjectStore.createObject type fields
  | .update id type fields oldest => ObjectStore.update id type fields oldest
  | .remove id oldest => ObjectStore.remove id oldest

/-- The checks of the statement refuse it, or the heap has no room for its record. -/
def Refused (store : ObjectStore H Id) : Statement → Prop
  | .create type fields => store.RefusedCreate type fields
  | .update id type fields oldest => store.RefusedUpdate id type fields oldest
  | .remove id oldest => store.RefusedRemove id oldest

/-- The heap and every index of the type take what the statement does: the version that an update
overwrites can be erased, a value that goes away has a key, a value that comes has a key that fits a
node and is not there for the object already, and the trees can be written. -/
def Taken (store : ObjectStore H Id) : Statement → Prop
  | .create type fields =>
    ∀ info ∈ store.indexes.getD [],
      ObjectStore.TakesKey type.name store.nextObjectId fields info
  | .update id type fields _ =>
    store.Releases id type fields ∧
      ∀ object, store.get id = .ok object → ∀ info ∈ store.indexes.getD [],
        ObjectStore.GivesKey type.name object.fields info ∧
        (info.typeName = type.name →
          ∀ value, fieldValue fields info.fieldId = some value → value.isNull = false →
            ∃ key, encodeKey value = .ok key ∧ keyTooLarge key = false ∧
              ((key, id) ∈ info.tree.entries → IndexedKey object.fields info.fieldId key) ∧
              info.fault = none)
  | .remove id _ =>
    ∀ object type, store.get id = .ok object → store.findType object.type = .ok type →
      ∀ info ∈ store.indexes.getD [], ObjectStore.GivesKey type.name object.fields info

variable {store store' : ObjectStore H Id}

open ObjectStore

/-! ### An accepted statement -/

omit [DecidableEq Id] [RecordStore H Id DecodedObject Error NotFound] in
theorem reindex_ok (store : ObjectStore H Id) {typeName : String} {id : ObjectId} {old fields : FieldValues}
    (hold : ∀ info ∈ store.indexes.getD [], GivesKey typeName old info)
    (hnew : ∀ info ∈ store.indexes.getD [], info.typeName = typeName →
      ∀ value, fieldValue fields info.fieldId = some value → value.isNull = false →
        ∃ key, encodeKey value = .ok key ∧ keyTooLarge key = false ∧
          ((key, id) ∈ info.tree.entries → IndexedKey old info.fieldId key) ∧ info.fault = none) :
    ∃ store', (indexMaintain typeName id old false >>= fun _ =>
      indexMaintain typeName id fields true) store = .ok () store' := by
  obtain ⟨state, hremoved⟩ := indexMaintain_ok store fun info hinfo => remove_ok_iff.2 (hold info hinfo)
  obtain ⟨infos, rfl, -, hforall⟩ := indexMaintain_eq_ok hremoved
  rw [bind_of_ok hremoved]
  apply indexMaintain_ok { store with indexes := infos }
  intro info' hinfo'
  obtain ⟨info, hinfo, hround⟩ := exists_of_forall₂_right hforall hinfo'
  have hkey := keyRemoved_of_ok hround
  refine insert_ok_iff.2 fun htype value hvalue hnull => ?_
  rw [hkey.typeName_eq] at htype
  rw [hkey.fieldId_eq] at hvalue
  obtain ⟨key, hencode, hsize, hmem, hfault⟩ := hnew info hinfo htype value hvalue hnull
  refine ⟨key, hencode, hsize, fun hin => ?_, hkey.fault_eq.trans hfault⟩
  obtain ⟨hin, hnot⟩ := (hkey.mem_iff _).1 hin
  exact hnot ⟨htype, key, hmem hin, rfl⟩

theorem ok_of_taken (h : store.Sound) (htx : store.inTransaction = true)
    (statement : Statement) (hrefused : ¬statement.Refused store)
    (htake : statement.Taken store) : ∃ store', statement.run store = .ok () store' := by
  cases statement with
  | create type fields =>
    rcases createObject_cases h htx with ⟨hin, -⟩ | ⟨-, location, heap, -, hrun⟩
    · exact absurd hin hrefused
    · obtain ⟨state, hindexed⟩ := indexMaintain_ok (store.bound location heap) fun info hinfo =>
        insert_ok_iff.2 (htake info hinfo)
      refine ⟨state, ?_⟩
      have hcreated : createObject type fields store = .ok store.nextObjectId state := by
        rw [hrun, bind_of_ok hindexed]
        rfl
      exact bind_of_ok hcreated
  | update id type fields oldest =>
    obtain ⟨hreleases, htake⟩ := htake
    rcases update_cases h htx with
      ⟨hin, -⟩ | ⟨-, old, entry, object, location, heap, -, hget, -, -, ⟨-, hrun⟩ | ⟨hnot, -⟩⟩
    · exact absurd hin hrefused
    · obtain ⟨state, hstate⟩ := reindex_ok (store.rebound id location heap old entry)
        (fun info hinfo => (htake object hget info hinfo).1)
        (fun info hinfo => (htake object hget info hinfo).2)
      exact ⟨state, hrun.trans hstate⟩
    · exact absurd hreleases hnot
  | remove id oldest =>
    rcases remove_cases h htx with ⟨hin, -⟩ | ⟨-, old, entry, object, type, -, hget, -, htype, hrun⟩
    · exact absurd hin hrefused
    · obtain ⟨state, hstate⟩ := indexMaintain_ok (store.erased id old entry) fun info hinfo =>
        remove_ok_iff.2 (htake object type hget htype info hinfo)
      exact ⟨state, hrun.trans hstate⟩

omit [DecidableEq Id] [RecordStore H Id DecodedObject Error NotFound] in
theorem take_of_reindex {typeName : String} {id : ObjectId} {old fields : FieldValues}
    (hrun : (indexMaintain typeName id old false >>= fun _ =>
      indexMaintain typeName id fields true) store = .ok () store') :
    ∀ info ∈ store.indexes.getD [], GivesKey typeName old info ∧
      (info.typeName = typeName →
        ∀ value, fieldValue fields info.fieldId = some value → value.isNull = false →
          ∃ key, encodeKey value = .ok key ∧ keyTooLarge key = false ∧
            ((key, id) ∈ info.tree.entries → IndexedKey old info.fieldId key) ∧
            info.fault = none) := by
  intro info hinfo
  obtain ⟨⟨⟩, state, hremoved, hinserted⟩ := bind_eq_ok hrun
  obtain ⟨infos, rfl, -, hforall⟩ := indexMaintain_eq_ok hremoved
  obtain ⟨infos', rfl, -, hforall'⟩ := indexMaintain_eq_ok hinserted
  obtain ⟨info', hinfo', hround⟩ := exists_of_forall₂_left hforall hinfo
  obtain ⟨info'', -, hround'⟩ := exists_of_forall₂_left hforall' hinfo'
  have hkey := keyRemoved_of_ok hround
  refine ⟨remove_ok_iff.1 ⟨info', hround⟩, fun htype value hvalue hnull => ?_⟩
  have htakes := insert_ok_iff.1 ⟨info'', hround'⟩
  obtain ⟨key, hencode, hsize, hnot, hfault⟩ :=
    htakes (hkey.typeName_eq.trans htype) value (hkey.fieldId_eq.symm ▸ hvalue) hnull
  refine ⟨key, hencode, hsize, fun hin => ?_, hkey.fault_eq.symm.trans hfault⟩
  by_contra hother
  refine hnot ((hkey.mem_iff _).2 ⟨hin, ?_⟩)
  rintro ⟨-, key', hindexed, heq⟩
  injection heq with heq
  exact hother (heq ▸ hindexed)

theorem taken_of_ok (h : store.Sound) (htx : store.inTransaction = true)
    (statement : Statement) (hrefused : ¬statement.Refused store)
    (hrun : statement.run store = .ok () store') : statement.Taken store := by
  cases statement with
  | create type fields =>
    rcases createObject_cases h htx with ⟨hin, -⟩ | ⟨-, location, heap, -, hcreate⟩
    · exact absurd hin hrefused
    · obtain ⟨id, state, hcreated, -⟩ := bind_eq_ok hrun
      rw [hcreate] at hcreated
      obtain ⟨⟨⟩, state', hindexed, -⟩ := bind_eq_ok hcreated
      obtain ⟨infos, rfl, -, hforall⟩ := indexMaintain_eq_ok hindexed
      intro info hinfo
      obtain ⟨info', -, hround⟩ := exists_of_forall₂_left hforall hinfo
      exact insert_ok_iff.1 ⟨info', hround⟩
  | update id type fields oldest =>
    rcases update_cases h htx with ⟨hin, -⟩ |
      ⟨-, old, entry, object, location, heap, -, hget, -, -, ⟨hreleases, hupdate⟩ | ⟨-, error, hupdate⟩⟩
    · exact absurd hin hrefused
    · refine ⟨hreleases, fun object' hget' info hinfo => ?_⟩
      rw [hget] at hget'
      injection hget' with hobject
      exact hobject ▸ take_of_reindex (hupdate.symm.trans hrun) info hinfo
    · change ObjectStore.update id type fields oldest store = .ok () store' at hrun
      rw [hupdate] at hrun
      cases hrun
  | remove id oldest =>
    rcases remove_cases h htx with ⟨hin, -⟩ | ⟨-, old, entry, object, type, -, hget, -, htype, hremove⟩
    · exact absurd hin hrefused
    · obtain ⟨infos, rfl, -, hforall⟩ := indexMaintain_eq_ok (hremove.symm.trans hrun)
      intro object' type' hget' htype' info hinfo
      rw [hget] at hget'
      injection hget' with hobject
      subst hobject
      rw [htype] at htype'
      injection htype' with htypes
      subst htypes
      obtain ⟨info', -, hround⟩ := exists_of_forall₂_left hforall hinfo
      exact remove_ok_iff.1 ⟨info', hround⟩

/-! ### A refused statement, and one that an index refuses -/

theorem sameView_of_refused (h : store.Sound) (htx : store.inTransaction = true)
    (statement : Statement) (hrefused : statement.Refused store) :
    ∃ error store', statement.run store = .error error store' ∧ store.SameView store' := by
  cases statement with
  | create type fields =>
    rcases createObject_cases h htx with ⟨-, error, next, heap, hrun, -, hvalid, hextends⟩ | ⟨hnot, -⟩
    · exact ⟨error, _, bind_of_error hrun,
        sameView_of_extends h hvalid hextends rfl rfl rfl rfl rfl⟩
    · exact absurd hrefused hnot
  | update id type fields oldest =>
    rcases update_cases h htx with ⟨-, error, heap, hrun, hvalid, hextends⟩ | ⟨hnot, -⟩
    · exact ⟨error, _, hrun, sameView_of_extends h hvalid hextends rfl rfl rfl rfl rfl⟩
    · exact absurd hrefused hnot
  | remove id oldest =>
    rcases remove_cases h htx with ⟨-, error, hrun⟩ | ⟨hnot, -⟩
    · exact ⟨error, store, hrun, sameView_of_extends h h.heap (extends_refl store) rfl rfl rfl rfl rfl⟩
    · exact absurd hrefused hnot

theorem identity_ne_of_not_refused (h : store.Sound) (htx : store.inTransaction = true)
    (statement : Statement) (hrefused : ¬statement.Refused store) :
    (after (statement.run store)).identity ≠ store.identity := by
  cases statement with
  | create type fields =>
    rcases createObject_cases h htx with ⟨hin, -⟩ | ⟨-, location, heap, -, hrun⟩
    · exact absurd hin hrefused
    · change (after ((createObject type fields >>= fun _ => pure ()) store)).identity ≠ _
      obtain ⟨infos, hinfos⟩ := after_indexMaintain type.name store.nextObjectId fields true
        (store.bound location heap)
      rw [after_bind_pure, hrun, after_bind_pure, hinfos]
      intro heq
      have hentry := congrFun heq store.nextObjectId
      change Function.update store.identity _ _ _ = _ at hentry
      rw [Function.update_self] at hentry
      exact absurd (h.bound_lt hentry.symm) (Nat.lt_irrefl _)
  | update id type fields oldest =>
    rcases update_cases h htx with ⟨hin, -⟩ |
      ⟨-, old, entry, object, location, heap, hlive, -, -, hreplaced, hrun⟩
    · exact absurd hin hrefused
    · obtain ⟨hentry, hcurrent⟩ := IdentityMap.live_eq_ok.1 hlive
      have hafter : (after (ObjectStore.update id type fields oldest store)).identity =
          (store.rebound id location heap old entry).identity := by
        rcases hrun with ⟨-, hrun⟩ | ⟨-, error, hrun⟩
        · obtain ⟨infos, hinfos⟩ := after_reindex type.name id object.fields fields
            (store.rebound id location heap old entry)
          rw [hrun, hinfos]
        · rw [hrun, after_error]
      change (after (ObjectStore.update id type fields oldest store)).identity ≠ _
      rw [hafter]
      intro heq
      have hnew := congrFun heq id
      change Function.update store.identity _ _ _ = _ at hnew
      rw [Function.update_self, hentry] at hnew
      have hlocation : location = old := by
        rw [← Option.some.inj hnew] at hcurrent
        exact Option.some.inj hcurrent
      obtain ⟨found, hfound, -⟩ := h.current hentry hcurrent
      rw [← hlocation, hreplaced.fresh] at hfound
      cases hfound
  | remove id oldest =>
    rcases remove_cases h htx with
      ⟨hin, -⟩ | ⟨-, old, entry, object, type, hlive, -, -, -, hrun⟩
    · exact absurd hin hrefused
    · obtain ⟨hentry, hcurrent⟩ := IdentityMap.live_eq_ok.1 hlive
      obtain ⟨infos, hinfos⟩ := after_indexMaintain type.name id object.fields false
        (store.erased id old entry)
      change (after (ObjectStore.remove id oldest store)).identity ≠ _
      rw [hrun, hinfos]
      intro heq
      have hnew := congrFun heq id
      change Function.update store.identity _ _ _ = _ at hnew
      rw [Function.update_self, hentry] at hnew
      rw [← Option.some.inj hnew] at hcurrent
      cases hcurrent

/-- A statement that fails leaves everything as it was just when it is refused, or heap and indexes
take all of it (and then it does not fail). -/
theorem atomic_iff (h : store.Sound) (htx : store.inTransaction = true) (statement : Statement) :
    (∀ error store', statement.run store = .error error store' → store.SameView store') ↔
      statement.Refused store ∨ statement.Taken store := by
  by_cases hrefused : statement.Refused store
  · refine ⟨fun _ => .inl hrefused, fun _ error store' hrun => ?_⟩
    obtain ⟨error', state, hfailed, hview⟩ := sameView_of_refused h htx statement hrefused
    rw [hfailed] at hrun
    injection hrun with _ hstate
    exact hstate ▸ hview
  rw [or_iff_right hrefused]
  constructor
  · intro hatomic
    by_contra htake
    cases hrun : statement.run store with
    | error error store' =>
      have hchanged := identity_ne_of_not_refused h htx statement hrefused
      rw [hrun] at hchanged
      exact hchanged (hatomic error store' hrun).identity_eq
    | ok value store' => exact htake (taken_of_ok h htx statement hrefused hrun)
  · intro htake error store' hrun
    obtain ⟨state, hok⟩ := ok_of_taken h htx statement hrefused htake
    rw [hok] at hrun
    cases hrun

end Statement

/-! ### An object without its key -/

namespace Statement

section DefaultBuild

attribute [local instance] PageSize.default

/-- Objects kept in a ledger. -/
@[reducible]
def ledgerStore : RecordStore (Ledger DecodedObject) Nat DecodedObject Error NotFound :=
  Ledger.recordStore NotFound ⟨.recordNotFound, "record not found"⟩ rfl

attribute [local instance] ledgerStore

def documentType : TypeDefinition := ⟨1024, "Document", [{ id := 1, name := "data", type := .bytes }]⟩

def indexedDocuments : ObjectStore (Ledger DecodedObject) Nat where
  inTransaction := true
  nextObjectId := 1025
  epoch := 3
  types := [documentType]
  identity := fun _ => none
  heap := {}
  indexes := some [{ typeName := "Document", fieldId := 1, tree := KeySet.empty }]
  openedEpoch := 0

theorem sound_indexedDocuments : indexedDocuments.Sound where
  heap := ⟨List.nodup_nil, fun _ h => absurd h List.not_mem_nil⟩
  current h := by cases h
  previous h := by cases h
  distinct h := by cases h
  bound_lt h := by cases h

/-- The creation fails, and the object can be read. -/
theorem not_atomic_of_unindexable :
    ¬∀ error store', (create documentType [(1, .bytes [7])]).run indexedDocuments =
      .error error store' → indexedDocuments.SameView store' := by
  intro hatomic
  have hview := hatomic ⟨.invalidArgument, "attribute type is not indexable"⟩ _ rfl
  have hget := hview.get_eq 1025
  cases hget

theorem atomic_indexedDocuments :
    (∀ error store', (create documentType [(1, .null)]).run indexedDocuments =
      .error error store' → indexedDocuments.SameView store') ↔
    (create documentType [(1, .null)]).Refused indexedDocuments ∨
      (create documentType [(1, .null)]).Taken indexedDocuments :=
  atomic_iff sound_indexedDocuments rfl (create documentType [(1, .null)])

end DefaultBuild

end Statement

end MoDb.Store
