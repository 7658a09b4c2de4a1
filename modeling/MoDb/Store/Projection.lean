import MoDb.Store.Convert
import MoDb.Store.ObjectStore

/-!
# From stored objects to C++ values

A binding ties the fields of a type to the members of a C++ type. An object that an older version of
the type has written is projected: its fields are copied or converted, the ones it does not have get
a default.
-/

namespace MoDb.Store

open Storage

def indexKey (value : AttributeValue) : Option Bytes := (encodeKey value).toOption

/-- One field and one member of `T`. The member holds what is stored in it, up to the encoding of
values that have no index key. -/
structure FieldBinder (T : Type) where
  id : FieldId
  name : String
  type : AttributeType
  defaultValue : Option AttributeValue := none
  store : T → AttributeValue → Except Error T
  load : T → Except Error AttributeValue
  load_store : ∀ {object value object'}, store object value = .ok object' →
    (load object').toOption.bind indexKey = indexKey value

namespace FieldBinder

variable {T : Type}

def keyOf (binder : FieldBinder T) (object : T) : Option Bytes :=
  (binder.load object).toOption.bind indexKey

/-- The binders have different ids and different members. -/
structure Apart (binder other : FieldBinder T) : Prop where
  id_ne : binder.id ≠ other.id
  load_eq : ∀ {object value object'}, binder.store object value = .ok object' →
    other.load object' = other.load object
  load_eq' : ∀ {object value object'}, other.store object value = .ok object' →
    binder.load object' = binder.load object

end FieldBinder

structure Binding (T : Type) where
  typeName : String
  fields : List (FieldBinder T)
  apart : fields.Pairwise FieldBinder.Apart

namespace Binding

variable {T : Type}

def find (binding : Binding T) (field : FieldId) : Option (FieldBinder T) :=
  binding.fields.find? fun binder => binder.id = field

/-- The loop of `Binding::materialize`. -/
def materializeFields (fields : FieldValues) : List (FieldBinder T) → T → Except Error T
  | [], destination => .ok destination
  | binder :: rest, destination =>
    match fieldValue fields binder.id with
    | none => .error ⟨.fieldNotFound, s!"stored object is missing bound field: {binder.name}"⟩
    | some value =>
      match binder.store destination value with
      | .error error => .error error
      | .ok destination => materializeFields fields rest destination

/-- `Binding::materialize`. -/
def materialize (binding : Binding T) (fields : FieldValues) (destination : T) : Except Error T :=
  materializeFields fields binding.fields destination

end Binding

/-! ### Projection plans -/

/-- One step of a plan; `binder` is the position of the field in the binding. -/
inductive ProjectionStep
  | ignore (source : FieldId) (sourceType : AttributeType)
  | useDefault (binder : Nat) (targetType : AttributeType) (value : AttributeValue)
  | copy (source : FieldId) (binder : Nat) (type : AttributeType)
      (sourceDefault : Option AttributeValue)
  | resolveReference (source : FieldId) (binder : Nat) (type : AttributeType)
      (sourceDefault : Option AttributeValue)
  | convert (source : FieldId) (binder : Nat) (sourceType targetType : AttributeType)
      (sourceDefault : Option AttributeValue)

/-- `FieldValueIndex::get`. The dense table keeps the last value of a field, the search the first. -/
def fieldValueIndex (fields : FieldValues) (field : FieldId) : Option AttributeValue :=
  if fields.all fun entry => entry.1 < 1024 then fieldValue fields.reverse field
  else fieldValue fields field

namespace ProjectionStep

def binder : ProjectionStep → Option Nat
  | ignore _ _ => none
  | useDefault binder _ _ => some binder
  | copy _ binder _ _ => some binder
  | resolveReference _ binder _ _ => some binder
  | convert _ binder _ _ _ => some binder

/-- The stored value of a field, or the default of the version that wrote the object. -/
def sourceValue (object : DecodedObject) (source : FieldId)
    (sourceDefault : Option AttributeValue) : Except Error AttributeValue :=
  match fieldValueIndex object.fields source with
  | some value => .ok value
  | none =>
    match sourceDefault with
    | some value => .ok value
    | none => .error ⟨.fieldNotFound, "stored projection field is missing"⟩

def value (object : DecodedObject) : ProjectionStep → Except Error AttributeValue
  | ignore _ _ => .ok .null
  | useDefault _ _ value => .ok value
  | copy source _ _ sourceDefault => sourceValue object source sourceDefault
  | resolveReference source _ _ sourceDefault => sourceValue object source sourceDefault
  | convert source _ _ targetType sourceDefault =>
    match sourceValue object source sourceDefault with
    | .error error => .error error
    | .ok value => convertValue value targetType

end ProjectionStep

namespace ProjectionPlan

variable {T : Type}

/-- One round of the loop of `build` over the fields of the binding. -/
def projectField (stored : TypeDefinition) (index : Nat) (binder : FieldBinder T) :
    Except Error ProjectionStep :=
  match stored.find binder.id with
  | none =>
    match binder.defaultValue with
    | none =>
      .error ⟨.incompatibleProjection, s!"new required field has no default: {binder.name}"⟩
    | some value => .ok (.useDefault index binder.type value)
  | some source =>
    if source.nullable then
      .error ⟨.incompatibleProjection,
        s!"nullable stored field requires a migration: {binder.name}"⟩
    else if source.type = binder.type then
      if source.type = .ref then
        .ok (.resolveReference source.id index source.type source.defaultValue)
      else .ok (.copy source.id index source.type source.defaultValue)
    else if ¬canConvert source.type binder.type then
      .error ⟨.incompatibleProjection,
        s!"field '{binder.name}' changed from {source.type.name} to {binder.type.name}"⟩
    else .ok (.convert source.id index source.type binder.type source.defaultValue)

def projectFields (stored : TypeDefinition) :
    Nat → List (FieldBinder T) → Except Error (List ProjectionStep)
  | _, [] => .ok []
  | index, binder :: rest =>
    match projectField stored index binder with
    | .error error => .error error
    | .ok step =>
      match projectFields stored (index + 1) rest with
      | .error error => .error error
      | .ok steps => .ok (step :: steps)

def ignored (stored : TypeDefinition) (current : Binding T) : List ProjectionStep :=
  (stored.attributes.filter fun attr => (current.find attr.id).isNone).map fun attr =>
    .ignore attr.id attr.type

/-- `ProjectionPlan::build`. -/
def build (stored : TypeDefinition) (current : Binding T) : Except Error (List ProjectionStep) :=
  if stored.name ≠ current.typeName then
    .error ⟨.typeMismatch, "projection type names do not match"⟩
  else
    match projectFields stored 0 current.fields with
    | .error error => .error error
    | .ok steps => .ok (ignored stored current ++ steps)

/-- `ProjectionPlan::materialize`. -/
def materialize (object : DecodedObject) (current : Binding T) :
    List ProjectionStep → T → Except Error T
  | [], destination => .ok destination
  | step :: rest, destination =>
    match step.binder with
    | none => materialize object current rest destination
    | some index =>
      match current.fields[index]? with
      | none => .error ⟨.corruptFile, "projection binder index is out of range"⟩
      | some binder =>
        match step.value object with
        | .error error => .error error
        | .ok value =>
          match binder.store destination value with
          | .error error => .error error
          | .ok destination => materialize object current rest destination

end ProjectionPlan

/-! ### Bound types -/

/-- A bound C++ type, the id of its version of the type, and the migrations of the type by the
version they start from. -/
structure BoundType (T : Type) where
  binding : Binding T
  typeId : TypeDefinitionId
  migration : TypeDefinitionId → Option (DecodedObject → Except Error FieldValues) := fun _ => none

namespace BoundType

variable {H Id T : Type} [Inhabited T]

/-- `materialize_decoded`. The cache of plans holds what `build` returned. -/
def materializeDecoded (bound : BoundType T) (store : ObjectStore H Id) (object : DecodedObject) :
    Except Error T :=
  match bound.migration object.type with
  | some migration =>
    match migration object with
    | .error error => .error error
    | .ok migrated => bound.binding.materialize migrated default
  | none =>
    match store.findType object.type with
    | .error error => .error error
    | .ok stored =>
      match ProjectionPlan.build stored bound.binding with
      | .error error => .error error
      | .ok plan => ProjectionPlan.materialize object bound.binding plan default

omit [Inhabited T] in
/-- The value that an object has in a field once it is projected: what its migration gives, or the
stored value, a default or a converted value. -/
def projectedValue (bound : BoundType T) (store : ObjectStore H Id) (object : DecodedObject)
    (binder : FieldBinder T) : Except Error AttributeValue :=
  match bound.migration object.type with
  | some migration =>
    match migration object with
    | .error error => .error error
    | .ok migrated =>
      match fieldValue migrated binder.id with
      | none => .error ⟨.fieldNotFound, s!"stored object is missing bound field: {binder.name}"⟩
      | some value => .ok value
  | none =>
    match store.findType object.type with
    | .error error => .error error
    | .ok stored =>
      match ProjectionPlan.projectField stored 0 binder with
      | .error error => .error error
      | .ok step => step.value object

end BoundType

/-! ### What is materialised -/

section Materialized

variable {T : Type}

theorem Binding.keyOf_materializeFields {fields : FieldValues} {binders : List (FieldBinder T)}
    (hapart : binders.Pairwise FieldBinder.Apart) {destination object : T}
    (h : Binding.materializeFields fields binders destination = .ok object) :
    (∀ binder ∈ binders, ∃ value, fieldValue fields binder.id = some value ∧
      binder.keyOf object = indexKey value) ∧
    ∀ other : FieldBinder T, (∀ binder ∈ binders, binder.Apart other) →
      other.load object = other.load destination := by
  induction binders generalizing destination with
  | nil =>
    injection h with heq
    exact ⟨fun _ hin => absurd hin List.not_mem_nil, fun other _ => heq ▸ rfl⟩
  | cons binder rest ih =>
    obtain ⟨hhead, hrest⟩ := List.pairwise_cons.1 hapart
    unfold Binding.materializeFields at h
    cases hvalue : fieldValue fields binder.id with
    | none =>
      rw [hvalue] at h
      cases h
    | some value =>
      rw [hvalue] at h
      dsimp only at h
      cases hstore : binder.store destination value with
      | error error =>
        rw [hstore] at h
        cases h
      | ok middle =>
        rw [hstore] at h
        obtain ⟨hkeys, hframe⟩ := ih hrest h
        refine ⟨fun found hfound => ?_, fun other hother => ?_⟩
        · rcases List.mem_cons.1 hfound with rfl | hfound
          · refine ⟨value, hvalue, ?_⟩
            unfold FieldBinder.keyOf
            rw [hframe found fun other hother => ⟨(hhead other hother).id_ne.symm,
              (hhead other hother).load_eq', (hhead other hother).load_eq⟩]
            exact found.load_store hstore
          · exact hkeys found hfound
        · rw [hframe other fun found hfound => hother found (List.mem_cons_of_mem binder hfound)]
          exact (hother binder List.mem_cons_self).load_eq hstore

namespace ProjectionPlan

theorem binder_of_projectField {stored : TypeDefinition} {index : Nat} {binder : FieldBinder T}
    {step : ProjectionStep} (h : projectField stored index binder = .ok step) :
    step.binder = some index := by
  unfold projectField at h
  split at h
  · split at h <;> cases h
    rfl
  · split at h
    · cases h
    · split at h
      · split at h <;> cases h <;> rfl
      · split at h <;> cases h
        rfl

theorem projectField_zero {stored : TypeDefinition} {index : Nat} {binder : FieldBinder T}
    {step : ProjectionStep} (h : projectField stored index binder = .ok step)
    (object : DecodedObject) :
    ∃ step', projectField stored 0 binder = .ok step' ∧ step'.value object = step.value object := by
  unfold projectField at h ⊢
  split at h
  · split at h
    · cases h
    · cases h
      exact ⟨_, rfl, rfl⟩
  · rename_i source hsource
    by_cases hnullable : source.nullable = true
    · rw [if_pos hnullable] at h
      cases h
    · rw [if_neg hnullable] at h ⊢
      by_cases htype : source.type = binder.type
      · rw [if_pos htype] at h ⊢
        by_cases href : source.type = .ref
        · rw [if_pos href] at h ⊢
          cases h
          exact ⟨_, rfl, rfl⟩
        · rw [if_neg href] at h ⊢
          cases h
          exact ⟨_, rfl, rfl⟩
      · rw [if_neg htype] at h ⊢
        by_cases hconvert : canConvert source.type binder.type = true
        · rw [if_neg (not_not_intro hconvert)] at h ⊢
          cases h
          exact ⟨_, rfl, rfl⟩
        · rw [if_pos hconvert] at h
          cases h

theorem keyOf_materialize_fields {stored : TypeDefinition} {current : Binding T}
    {object : DecodedObject} {binders : List (FieldBinder T)} :
    ∀ {done : List (FieldBinder T)} {steps : List ProjectionStep} {destination result : T},
      current.fields = done ++ binders →
      projectFields stored done.length binders = .ok steps →
      materialize object current steps destination = .ok result →
      (∀ binder ∈ binders, ∃ step value, projectField stored 0 binder = .ok step ∧
        step.value object = .ok value ∧ binder.keyOf result = indexKey value) ∧
      ∀ other : FieldBinder T, (∀ binder ∈ binders, binder.Apart other) →
        other.load result = other.load destination := by
  induction binders with
  | nil =>
    intro done steps destination result _ hsteps hrun
    cases hsteps
    cases hrun
    exact ⟨fun _ hin => absurd hin List.not_mem_nil, fun _ _ => rfl⟩
  | cons binder rest ih =>
    intro done steps destination result hfields hsteps hrun
    have hapart := current.apart
    rw [hfields] at hapart
    obtain ⟨hhead, -⟩ := List.pairwise_cons.1 (List.pairwise_append.1 hapart).2.1
    unfold projectFields at hsteps
    cases hstep : projectField stored done.length binder with
    | error error =>
      rw [hstep] at hsteps
      cases hsteps
    | ok step =>
      rw [hstep] at hsteps
      dsimp only at hsteps
      cases hmore : projectFields stored (done.length + 1) rest with
      | error error =>
        rw [hmore] at hsteps
        cases hsteps
      | ok more =>
        rw [hmore] at hsteps
        cases hsteps
        have hat : current.fields[done.length]? = some binder := by
          rw [hfields, List.getElem?_append_right (Nat.le_refl _), Nat.sub_self]
          rfl
        rw [materialize, binder_of_projectField hstep] at hrun
        dsimp only at hrun
        rw [hat] at hrun
        dsimp only at hrun
        cases hvalue : step.value object with
        | error error =>
          rw [hvalue] at hrun
          cases hrun
        | ok value =>
          rw [hvalue] at hrun
          dsimp only at hrun
          cases hstore : binder.store destination value with
          | error error =>
            rw [hstore] at hrun
            cases hrun
          | ok middle =>
            rw [hstore] at hrun
            have hmore' : projectFields stored (done ++ [binder]).length rest = .ok more := by
              rw [List.length_append, List.length_singleton, hmore]
            obtain ⟨hkeys, hframe⟩ := ih (by rw [hfields, List.append_assoc]; rfl) hmore' hrun
            refine ⟨fun found hfound => ?_, fun other hother => ?_⟩
            · rcases List.mem_cons.1 hfound with rfl | hfound
              · obtain ⟨step', hstep', hsame⟩ := projectField_zero hstep object
                refine ⟨step', value, hstep', hsame.trans hvalue, ?_⟩
                unfold FieldBinder.keyOf
                rw [hframe found fun other hother => ⟨(hhead other hother).id_ne.symm,
                  (hhead other hother).load_eq', (hhead other hother).load_eq⟩]
                exact found.load_store hstore
              · exact hkeys found hfound
            · rw [hframe other fun found hfound => hother found (List.mem_cons_of_mem binder hfound)]
              exact (hother binder List.mem_cons_self).load_eq hstore

theorem materialize_ignored {stored : TypeDefinition} {current : Binding T} {object : DecodedObject}
    (steps : List ProjectionStep) (destination : T) :
    materialize object current (ignored stored current ++ steps) destination =
      materialize object current steps destination := by
  unfold ignored
  induction stored.attributes.filter fun attr => (current.find attr.id).isNone with
  | nil => rfl
  | cons attr rest ih =>
    rw [List.map_cons, List.cons_append, materialize]
    exact ih

end ProjectionPlan

theorem BoundType.keyOf_materializeDecoded {H Id : Type} [Inhabited T] {bound : BoundType T}
    {store : ObjectStore H Id} {object : DecodedObject} {result : T}
    (h : bound.materializeDecoded store object = .ok result) {binder : FieldBinder T}
    (hbinder : binder ∈ bound.binding.fields) :
    ∃ value, bound.projectedValue store object binder = .ok value ∧
      binder.keyOf result = indexKey value := by
  unfold materializeDecoded at h
  unfold projectedValue
  cases hmigration : bound.migration object.type with
  | some migration =>
    rw [hmigration] at h
    dsimp only at h ⊢
    cases hmigrated : migration object with
    | error error =>
      rw [hmigrated] at h
      cases h
    | ok migrated =>
      rw [hmigrated] at h
      obtain ⟨value, hvalue, hkey⟩ :=
        (Binding.keyOf_materializeFields bound.binding.apart h).1 binder hbinder
      refine ⟨value, ?_, hkey⟩
      dsimp only
      rw [hvalue]
  | none =>
    rw [hmigration] at h
    dsimp only at h ⊢
    cases htype : store.findType object.type with
    | error error =>
      rw [htype] at h
      cases h
    | ok stored =>
      rw [htype] at h
      dsimp only at h ⊢
      unfold ProjectionPlan.build at h
      by_cases hname : stored.name = bound.binding.typeName
      · rw [if_neg (not_not_intro hname)] at h
        cases hsteps : ProjectionPlan.projectFields stored 0 bound.binding.fields with
        | error error =>
          rw [hsteps] at h
          cases h
        | ok steps =>
          rw [hsteps] at h
          dsimp only at h
          rw [ProjectionPlan.materialize_ignored] at h
          obtain ⟨hkeys, -⟩ := @ProjectionPlan.keyOf_materialize_fields T stored bound.binding object
            bound.binding.fields [] steps default result rfl hsteps h
          obtain ⟨step, value, hstep, hvalue, hkey⟩ := hkeys binder hbinder
          refine ⟨value, ?_, hkey⟩
          rw [hstep]
          exact hvalue
      · rw [if_pos hname] at h
        cases h

end Materialized

end MoDb.Store
