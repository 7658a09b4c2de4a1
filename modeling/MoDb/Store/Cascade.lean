import MoDb.Lib.Cascade
import MoDb.Store.Collection

/-!
# The removal of what an object owns

`remove_cascade` removes the objects that the owned references of an object lead to, depth first, and then
the object itself. When it fails on its way, what it has removed stays removed.
-/

namespace MoDb.Store

open Effect Storage Index

variable {H Id : Type} [DecidableEq Id] [RecordStore H Id DecodedObject Error NotFound]

/-- The values of the owned attributes, in the order of the attributes. -/
def ownedValues (type : TypeDefinition) (fields : FieldValues) : List AttributeValue :=
  (type.attributes.filter AttributeDefinition.isOwned).flatMap fun attr =>
    (fields.filter fun entry => entry.1 = attr.id ∧ entry.2.isNull = false).map Prod.snd

namespace ObjectStore

/-- The objects that an object owns; a reference to no object is left out. -/
def owned (store : ObjectStore H Id) (id : ObjectId) : Except Error (List (Except Error ObjectId)) := do
  let object ← store.get id
  let type ← store.findType object.type
  pure (((ownedValues type object.fields).map AttributeValue.asRef).filter fun target =>
    target.toOption ≠ some invalidObjectId)

variable [PageSize]

def cycleDetected : Error := ⟨.invalidArgument, "cycle detected in owned-reference cascade"⟩

/-- `Database::remove_cascade`; the depth bounds the recursion. -/
def removeCascade (oldest : Option Nat) (depth : Nat) (id : ObjectId) (visited : List ObjectId) :
    StoreM H Id (List ObjectId) :=
  Cascade.remove owned (fun id => remove id oldest) (fun _ => cycleDetected) depth id visited

/-- `Database::remove`. -/
def removeOwning (oldest : Option Nat) (id : ObjectId) : StoreM H Id Unit := do
  let store ← EStateM.get
  if ¬store.inTransaction then
    throw ⟨.transactionRequired, "transaction is not active"⟩
  else
    let _ ← removeCascade oldest (store.nextObjectId + 1) id []

/-! ### The removals of a cascade -/

/-- The objects of `gone` are removed, and the others are as they were. -/
structure Without (store : ObjectStore H Id) (gone : List ObjectId) (store' : ObjectStore H Id) : Prop where
  sound : store'.Sound
  inTransaction : store'.inTransaction = true
  types_eq : store'.types = store.types
  heap_eq : store'.heap = store.heap
  entryFault_eq : store'.entryFault = store.entryFault
  kept : ∀ id, id ∉ gone → store'.identity id = store.identity id
  lost : ∀ id ∈ gone, ∃ error, store'.identity.live id = .error error
  indexes : List.Forall₂ (fun info info' : IndexInfo =>
    info'.typeName = info.typeName ∧ info'.fieldId = info.fieldId ∧ info'.fault = info.fault)
    (store.indexes.getD []) (store'.indexes.getD [])

variable {store store' : ObjectStore H Id} {oldest : Option Nat}

omit [PageSize] in
theorem get_of_live_error {id : ObjectId} {error : Error} (h : store.identity.live id = .error error) :
    ∃ error, store.get id = .error error := by
  refine ⟨error, ?_⟩
  unfold get
  rw [IdentityMap.find_eq_live, h]
  rfl

omit [PageSize] in
theorem Without.get_eq {gone : List ObjectId} (h : store.Without gone store') {id : ObjectId} (hid : id ∉ gone) :
    store'.get id = store.get id := by
  unfold get IdentityMap.find
  rw [h.kept id hid, h.heap_eq]

omit [PageSize] in
theorem Without.owned_eq {gone : List ObjectId} (h : store.Without gone store') {id : ObjectId}
    (hid : id ∉ gone) : store'.owned id = store.owned id := by
  unfold owned
  rw [h.get_eq hid]
  unfold findType
  rw [h.types_eq]

omit [PageSize] in
theorem Without.get_lost {gone : List ObjectId} (h : store.Without gone store') {id : ObjectId}
    (hid : id ∈ gone) : ∃ error, store'.get id = .error error := by
  obtain ⟨error, hlive⟩ := h.lost id hid
  exact get_of_live_error hlive

omit [PageSize] in
theorem lt_of_owned (h : store.Sound) {id : ObjectId} {children : List (Except Error ObjectId)}
    (howned : store.owned id = .ok children) : id < store.nextObjectId := by
  obtain ⟨object, hget, -⟩ := except_bind_eq_ok howned
  obtain ⟨entry, record, hentry, -⟩ := (get_eq_ok h).1 hget
  exact h.bound_lt hentry

omit [PageSize] in
theorem Without.refused_iff {gone : List ObjectId} (h : store.Without gone store') {id : ObjectId}
    (hid : id ∉ gone) : store'.RefusedRemove id oldest ↔ store.RefusedRemove id oldest := by
  have hlive : store'.identity.live id = store.identity.live id := by
    unfold IdentityMap.live
    rw [h.kept id hid]
  have hconflict : store'.checkSnapshotConflict id oldest = store.checkSnapshotConflict id oldest := by
    unfold checkSnapshotConflict IdentityMap.currentEpoch IdentityMap.hasPrevious
    rw [hlive]
  unfold RefusedRemove
  rw [hlive, hconflict, h.entryFault_eq]

theorem Without.taken_iff {gone : List ObjectId} (h : store.Without gone store') {id : ObjectId}
    (hid : id ∉ gone) :
    (Statement.remove id oldest).Taken store' ↔ (Statement.remove id oldest).Taken store := by
  have hgives : ∀ {infos infos' : List IndexInfo}, List.Forall₂ (fun info info' : IndexInfo =>
      info'.typeName = info.typeName ∧ info'.fieldId = info.fieldId ∧ info'.fault = info.fault) infos infos' →
      ∀ (typeName : String) (fields : FieldValues),
        (∀ info ∈ infos', GivesKey typeName fields info) ↔ ∀ info ∈ infos, GivesKey typeName fields info := by
    intro infos infos' hall typeName fields
    induction hall with
    | nil => exact Iff.rfl
    | cons hsame _ ih =>
      obtain ⟨htype, hfield, hfault⟩ := hsame
      rw [List.forall_mem_cons, List.forall_mem_cons, ih]
      unfold GivesKey
      rw [htype, hfield, hfault]
  unfold Statement.Taken
  dsimp only
  rw [h.get_eq hid]
  unfold findType
  rw [h.types_eq]
  constructor
  · exact fun htake object type hget htype => (hgives h.indexes _ _).1 (htake object type hget htype)
  · exact fun htake object type hget htype => (hgives h.indexes _ _).2 (htake object type hget htype)

def Removable (store : ObjectStore H Id) (oldest : Option Nat) (id : ObjectId) : Prop :=
  ¬store.RefusedRemove id oldest ∧ (Statement.remove id oldest).Taken store

theorem erasure (h : store.Sound) (htx : store.inTransaction = true) (oldest : Option Nat) :
    Cascade.Erasure owned (fun id => remove id oldest) (fun store id => ∃ error, store.get id = .error error)
      store (store.Removable oldest) (fun id => store.RefusedRemove id oldest) store.Without where
  start := ⟨h, htx, rfl, rfl, rfl, fun _ _ => rfl, nofun, List.forall₂_same.2 fun _ _ => ⟨rfl, rfl, rfl⟩⟩
  congr hwithout hsame :=
    { hwithout with
      kept := fun id hid => hwithout.kept id fun hmem => hid ((hsame id).1 hmem)
      lost := fun id hid => hwithout.lost id ((hsame id).2 hid) }
  kept hwithout hid := hwithout.owned_eq hid
  lost hwithout hid := hwithout.get_lost hid
  erase := by
    intro gone state id children hwithout hid howned
    have hlost : ∀ (record : Id) (entry : Entry Id) (infos : Option (List IndexInfo)), ∃ error,
        ObjectStore.get { state.erased id record entry with indexes := infos } id = .error error := by
      intro record entry infos
      have hlive : ({ state.erased id record entry with indexes := infos } : ObjectStore H Id).identity.live id =
          .error (IdentityMap.missing id) := by
        unfold erased IdentityMap.live
        dsimp only
        rw [Function.update_self]
      exact get_of_live_error hlive
    rcases @remove_cases H Id _ _ _ state id oldest hwithout.sound hwithout.inTransaction with
      ⟨hrefused, error, hrun⟩ | ⟨hnot, record, entry, object, type, hlive, hget, -, htype, hrun⟩
    · have hrefused := (hwithout.refused_iff hid).1 hrefused
      exact .inr (.inl ⟨fun hremovable => hremovable.1 hrefused, hrefused, error, hrun⟩)
    · have hnot' : ¬store.RefusedRemove id oldest := fun hrefused => hnot ((hwithout.refused_iff hid).2 hrefused)
      by_cases htake : (Statement.remove id oldest).Taken state
      · obtain ⟨next, hnext⟩ := Statement.ok_of_taken hwithout.sound hwithout.inTransaction
          (.remove id oldest) hnot htake
        have hremove : remove id oldest state = .ok () next := hnext
        refine .inl ⟨⟨hnot', (hwithout.taken_iff hid).1 htake⟩, hnot', next, hremove, ?_⟩
        obtain ⟨infos, rfl, -, hforall⟩ := indexMaintain_eq_ok (hrun.symm.trans hremove)
        refine ⟨(hwithout.sound.erased hlive).congr rfl rfl rfl (Nat.le_refl _), hwithout.inTransaction,
          hwithout.types_eq, hwithout.heap_eq, hwithout.entryFault_eq, ?_, ?_, ?_⟩
        · intro other hother
          have hne : other ≠ id := fun heq => hother (heq ▸ List.mem_cons_self)
          exact (Function.update_of_ne hne _ _).trans
            (hwithout.kept other fun hmem => hother (List.mem_cons_of_mem _ hmem))
        · intro other hother
          by_cases heq : other = id
          · refine ⟨IdentityMap.missing other, ?_⟩
            unfold erased IdentityMap.live
            dsimp only
            rw [heq, Function.update_self]
          · obtain ⟨error, hgone⟩ := hwithout.lost other ((List.mem_cons.1 hother).resolve_left heq)
            refine ⟨error, ?_⟩
            rw [← hgone]
            unfold erased IdentityMap.live
            dsimp only
            rw [Function.update_of_ne heq]
        · apply forall₂_trans _ hwithout.indexes hforall
          intro info info' info'' hsame hround
          have hkey := keyRemoved_of_ok hround
          exact ⟨hkey.typeName_eq.trans hsame.1, hkey.fieldId_eq.trans hsame.2.1,
            hkey.fault_eq.trans hsame.2.2⟩
      · right
        right
        refine ⟨fun hremovable => htake ((hwithout.taken_iff hid).2 hremovable.2), hnot', ?_⟩
        cases hfailed : remove id oldest state with
        | ok value next =>
          exact absurd (Statement.taken_of_ok hwithout.sound hwithout.inTransaction (.remove id oldest) hnot
            hfailed) htake
        | error error next =>
          obtain ⟨infos, hinfos⟩ := after_indexMaintain type.name id object.fields false
            (state.erased id record entry)
          have hnext : next = { state.erased id record entry with indexes := infos } := by
            rw [← hinfos, ← hrun, hfailed]
            rfl
          exact ⟨error, next, rfl, hnext ▸ hlost record entry infos⟩

/-! ### All or nothing -/

def Reaches (store : ObjectStore H Id) (id other : ObjectId) : Prop :=
  Relation.ReflTransGen (Cascade.Owns store.owned) id other

/-- Either what is reached from the object is gone, and nothing else, or there is an error and all objects
are as they were. -/
def AllOrNothing (store : ObjectStore H Id) (id : ObjectId) :
    EStateM.Result Error (ObjectStore H Id) Unit → Prop
  | .ok _ store' => ∀ other,
      (store.Reaches id other → ∃ error, store'.get other = .error error) ∧
      (¬store.Reaches id other → store'.get other = store.get other)
  | .error _ store' => ∀ other, store'.get other = store.get other

def OwnsTree (store : ObjectStore H Id) (oldest : Option Nat) (id : ObjectId) : Prop :=
  Cascade.Whole store.owned (store.Removable oldest) id

/-- The way from the object along the first owned references fails before anything is removed. -/
def FailsFirst (store : ObjectStore H Id) (oldest : Option Nat) (id : ObjectId) : Prop :=
  Cascade.Refused store.owned (fun other => store.RefusedRemove other oldest) id []

theorem allOrNothing_of_idle (hidle : store.inTransaction = false) (oldest : Option Nat) (id : ObjectId) :
    store.AllOrNothing id (removeOwning oldest id store) := by
  unfold removeOwning
  rw [get_bind_run', hidle]
  exact fun other => rfl

theorem allOrNothing_iff (h : store.Sound) (oldest : Option Nat) (id : ObjectId) :
    store.AllOrNothing id (removeOwning oldest id store) ↔
      store.inTransaction = false ∨ store.OwnsTree oldest id ∨ store.FailsFirst oldest id := by
  cases htx : store.inTransaction with
  | false => exact ⟨fun _ => .inl rfl, fun _ => allOrNothing_of_idle htx oldest id⟩
  | true =>
    unfold removeOwning
    rw [get_bind_run', htx, ite_run, if_neg (by decide)]
    have hall : ∀ {id : ObjectId} {children : List (Except Error ObjectId)}, store.owned id = .ok children →
        id ∈ List.range store.nextObjectId := fun howned => List.mem_range.2 (lt_of_owned h howned)
    rcases @Cascade.remove_cases _ _ _ _ owned (fun id => remove id oldest) (fun _ => cycleDetected) _ store _ _ _
      (erasure h htx oldest) _ hall (store.nextObjectId + 1)
      (by rw [List.length_range]; exact Nat.lt_succ_self _) id with
      ⟨hwhole, -, visited, next, gone, hrun, hwithout, hgone⟩ | ⟨-, hrefused, error, hrun⟩ |
      ⟨hnot, hnotRefused, error, next, hrun, other, children, -, hpresent, error', hlost⟩
    · have hdone : (removeCascade oldest (store.nextObjectId + 1) id [] >>= fun _ => pure ()) store =
          .ok () next := bind_of_ok hrun
      rw [hdone]
      refine ⟨fun _ => .inr (.inl hwhole), fun _ other => ⟨fun hreaches => ?_, fun hreaches => ?_⟩⟩
      · exact hwithout.get_lost ((hgone other).2 hreaches)
      · exact hwithout.get_eq fun hmem => hreaches ((hgone other).1 hmem)
    · have hdone : (removeCascade oldest (store.nextObjectId + 1) id [] >>= fun _ => pure ()) store =
          .error error store := bind_of_error hrun
      rw [hdone]
      exact ⟨fun _ => .inr (.inr hrefused), fun _ other => rfl⟩
    · have hdone : (removeCascade oldest (store.nextObjectId + 1) id [] >>= fun _ => pure ()) store =
          .error error next := bind_of_error hrun
      rw [hdone]
      constructor
      · intro hsame
        obtain ⟨object, hget, -⟩ := except_bind_eq_ok hpresent
        have hother := hsame other
        rw [hlost, hget] at hother
        cases hother
      · rintro (hfalse | hwhole | hrefused)
        · cases hfalse
        · exact absurd hwhole hnot
        · exact absurd hrefused hnotRefused

end ObjectStore

namespace Engine

/-- In every state that the database comes to, a removal is all or nothing just when what the object owns is
a tree that can be removed, or the first way down fails. -/
theorem removeOwning_iff [PageSize] {engine : Engine H Id} (hfresh : engine.Fresh) (actions : List Action) (id : ObjectId) :
    (engine.run actions).store.AllOrNothing id
        (ObjectStore.removeOwning (engine.run actions).oldest id (engine.run actions).store) ↔
      (engine.run actions).store.inTransaction = false ∨
        (engine.run actions).store.OwnsTree (engine.run actions).oldest id ∨
        (engine.run actions).store.FailsFirst (engine.run actions).oldest id := by
  rcases sound_or_lost_run (sound_fresh hfresh) actions with hsound | ⟨-, hidle⟩
  · exact ObjectStore.allOrNothing_iff hsound.store _ id
  · exact ⟨fun _ => .inl hidle, fun _ => ObjectStore.allOrNothing_of_idle hidle _ id⟩

section DefaultBuild

attribute [local instance] PageSize.default Statement.ledgerStore

def folderType : TypeDefinition :=
  ⟨0, "Folder", [{ id := 1, name := "first", type := .ref, isOwned := true },
    { id := 2, name := "second", type := .ref, isOwned := true }]⟩

/-- The folder 1028 owns 1026 and 1027, and 1027 is removed; 1029 owns only 1026. -/
def foldersCreated : List Action :=
  [.begin, .registerType folderType, .write (.create 1024 []), .write (.create 1024 []),
    .write (.create 1024 [(1, .ref 1026), (2, .ref 1027)]), .write (.create 1024 [(1, .ref 1026)]),
    .write (.remove 1027), .commit, .begin]

/-- The removal of the folder fails, and 1026 is gone. -/
theorem not_allOrNothing_foldersCreated : ¬(empty.run foldersCreated).store.AllOrNothing 1028
    (ObjectStore.removeOwning (empty.run foldersCreated).oldest 1028 (empty.run foldersCreated).store) := by
  have hlost : (match ObjectStore.removeOwning (empty.run foldersCreated).oldest 1028
        (empty.run foldersCreated).store with
      | .error _ next => some (next.get 1026).toOption
      | .ok _ _ => none) = some none := by decide +kernel
  have hget : ((empty.run foldersCreated).store.get 1026).toOption = some ⟨1026, 1024, []⟩ := by
    decide +kernel
  intro hsame
  cases hrun : ObjectStore.removeOwning (empty.run foldersCreated).oldest 1028
      (empty.run foldersCreated).store with
  | ok value next =>
    rw [hrun] at hlost
    cases hlost
  | error error next =>
    rw [hrun] at hlost hsame
    have hother : next.get 1026 = (empty.run foldersCreated).store.get 1026 := hsame 1026
    dsimp only at hlost
    rw [hother, hget] at hlost
    cases hlost

theorem allOrNothing_foldersCreated :
    (empty.run foldersCreated).store.AllOrNothing 1029
        (ObjectStore.removeOwning (empty.run foldersCreated).oldest 1029 (empty.run foldersCreated).store) ↔
      (empty.run foldersCreated).store.inTransaction = false ∨
        (empty.run foldersCreated).store.OwnsTree (empty.run foldersCreated).oldest 1029 ∨
        (empty.run foldersCreated).store.FailsFirst (empty.run foldersCreated).oldest 1029 :=
  removeOwning_iff fresh_empty foldersCreated 1029

end DefaultBuild

end Engine

end MoDb.Store
