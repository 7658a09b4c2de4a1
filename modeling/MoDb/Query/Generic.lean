import MoDb.Query.Evolution

/-!
# Generic queries

A generic query knows a type by its id and compares stored values. A typed query knows it by its name,
whatever the version, and compares index keys.
-/

namespace MoDb.Store

open Storage Index Selection MoDb.Query Mvcc

/-- `ObjectQuerySpec`. -/
structure ObjectQuerySpec where
  type : TypeDefinitionId
  limit : Nat := 0
  equals : Option (FieldId × AttributeValue) := none
  project : List FieldId := []

namespace ObjectQuerySpec

def projectFields (spec : ObjectQuerySpec) (fields : FieldValues) : FieldValues :=
  spec.project.filterMap fun field =>
    if field = 0 then none else (fieldValue fields field).map fun value => (field, value)

/-- The filter of the loop of `query_objects_source`. -/
def accepts (spec : ObjectQuerySpec) (object : DecodedObject) : Bool :=
  decide (object.type = spec.type) &&
    spec.equals.all fun condition =>
      (fieldValue object.fields condition.1).any fun value => value.equals condition.2

/-- The body of the loop of `query_objects_source`. -/
def body (spec : ObjectQuerySpec) (object : DecodedObject) :
    Except Error (Option DecodedObject) :=
  if spec.accepts object then
    .ok (some (if spec.project.isEmpty then object
      else { object with fields := spec.projectFields object.fields }))
  else .ok none

end ObjectQuerySpec

section Streams

variable {H Id : Type} [DecidableEq Id] [RecordStore H Id DecodedObject Error NotFound]

/-- `query_objects_source`, at the epoch of the snapshot that it opens. -/
def queryObjects (store : ObjectStore H Id) (epoch : Nat) (spec : ObjectQuerySpec) :
    Generator DecodedObject :=
  match store.findType spec.type with
  | .error error => [.error error]
  | .ok type =>
    if spec.equals.any fun condition => (type.find condition.1).isNone then
      [.error ⟨.invalidArgument, "equals field is not part of the type"⟩]
    else if spec.project.any fun field => field ≠ 0 && (type.find field).isNone then
      [.error ⟨.invalidArgument, "projected field is not part of the type"⟩]
    else
      match store.scanAt epoch with
      | .error error => [.error error]
      | .ok objects => .pump spec.body spec.limit 0 objects

end Streams

/-- `query<T>().equals(field, value)`. -/
def equalsQuery {T : Type} (field : FieldId) (value : AttributeValue) : Query T where
  indexField := some field
  indexLo := value
  indexHi := value

def equalsSpec (type : TypeDefinitionId) (field : FieldId) (value : AttributeValue) (limit : Nat) :
    ObjectQuerySpec where
  type := type
  limit := limit
  equals := some (field, value)

variable {H Id T : Type} [Inhabited T] [DecidableEq Id]
  [RecordStore H Id DecodedObject Error NotFound]

/-- Without a limit the generic query yields the objects of the typed query, each once, in the same
order where the typed query scans; with a limit it yields the first of them. -/
def AgreesWithTyped (store : ObjectStore H Id) (bound : BoundType T) (epoch : Nat)
    (heaps : ∀ order : Order (Found T), Heap order) (field : FieldId) (value : AttributeValue) :
    Prop :=
  ∃ (objects : List DecodedObject) (rows : List (Found T)),
    queryObjects store epoch (equalsSpec bound.typeId field value 0) = .ofList objects ∧
    (equalsQuery field value).stream heaps store bound epoch = .ofList rows ∧
    (objects.map DecodedObject.id).Nodup ∧
    (objects.map DecodedObject.id).Perm (rows.map Found.id) ∧
    (Query.hasIndexFor store bound field = false →
      objects.map DecodedObject.id = rows.map Found.id) ∧
    ∀ limit ≠ 0, queryObjects store epoch (equalsSpec bound.typeId field value limit) =
      .ofList (objects.take limit)

omit [Inhabited T] [DecidableEq Id] [RecordStore H Id DecodedObject Error NotFound] in
/-- The type id of the binding is that of a version of its type, which has the bound fields. -/
def Registers (store : ObjectStore H Id) (bound : BoundType T) : Prop :=
  ∃ type, store.findType bound.typeId = .ok type ∧ type.name = bound.binding.typeName ∧
    ∀ binder ∈ bound.binding.fields, (type.find binder.id).isSome

/-- Each visible object of the type can be materialised, and is projected to the value of the field
that it is stored with. -/
def Unchanged (store : ObjectStore H Id) (bound : BoundType T) (epoch : Nat) (field : FieldId) :
    Prop :=
  ∃ binder, bound.binding.find field = some binder ∧ ∀ id object, store.getAt id epoch = .ok object →
    store.TypeNamed object bound.binding.typeName →
    (∃ value, bound.materializeDecoded store object = .ok value) ∧
      ∃ value, fieldValue object.fields field = some value ∧
        bound.projectedValue store object binder = .ok value

/-- Each visible object of the type is of the version of the binding and stored with a value equal to
the given one, if and only if the two values have one index key. -/
def SelectsAlike (store : ObjectStore H Id) (bound : BoundType T) (epoch : Nat) (field : FieldId)
    (value : AttributeValue) : Prop :=
  ∀ id object, store.getAt id epoch = .ok object → store.TypeNamed object bound.binding.typeName →
    ∀ stored, fieldValue object.fields field = some stored →
      ((object.type = bound.typeId ∧ stored.equals value = true) ↔
        ∃ key, encodeKey stored = .ok key ∧ encodeKey value = .ok key)

variable {store : ObjectStore H Id} {bound : BoundType T} {epoch : Nat} {field : FieldId}
  {value : AttributeValue}

/-! ### The two filters -/

theorem inBounds_self {key key' : Bytes} : inBounds key key key' = true ↔ key' = key := by
  unfold inBounds
  rw [Bool.and_eq_true, Bool.not_eq_true', Bool.not_eq_true']
  constructor
  · rintro ⟨hle, hge⟩
    exact eq_of_not_bytesLess hle hge
  · rintro rfl
    exact ⟨bytesLess_irrefl _, bytesLess_irrefl _⟩

omit [Inhabited T] [DecidableEq Id] [RecordStore H Id DecodedObject Error NotFound] in
theorem accepts_equalsSpec {object : DecodedObject} {stored : AttributeValue}
    (hstored : fieldValue object.fields field = some stored) (limit : Nat) :
    (equalsSpec bound.typeId field value limit).accepts object = true ↔
      object.type = bound.typeId ∧ stored.equals value = true := by
  unfold ObjectQuerySpec.accepts equalsSpec
  rw [Bool.and_eq_true, decide_eq_true_eq, Option.all_some, hstored, Option.any_some]

omit [Inhabited T] [DecidableEq Id] [RecordStore H Id DecodedObject Error NotFound] in
theorem pump_body (limit : Nat) (objects : List DecodedObject) :
    Generator.pump (equalsSpec bound.typeId field value limit).body 0 0 objects =
      .ofList (objects.filter ((equalsSpec bound.typeId field value 0).accepts)) := by
  have hall : ∀ object ∈ objects, ∃ row,
      (equalsSpec bound.typeId field value limit).body object = .ok row := by
    intro object _
    unfold ObjectQuerySpec.body
    split
    · exact ⟨_, rfl⟩
    · exact ⟨_, rfl⟩
  rw [Generator.pump_ofList hall]
  congr 1
  rw [← List.filterMap_eq_filter]
  apply List.filterMap_congr
  intro object _
  unfold ObjectQuerySpec.body
  have hsame : (equalsSpec bound.typeId field value limit).accepts object =
      (equalsSpec bound.typeId field value 0).accepts object := rfl
  rw [hsame]
  cases haccepts : (equalsSpec bound.typeId field value 0).accepts object with
  | true => simp [Option.guard, haccepts]; rfl
  | false => simp [Option.guard, haccepts]; rfl

omit [Inhabited T] in
theorem queryObjects_eq (hregisters : Registers store bound) {binder : FieldBinder T}
    (hbinder : bound.binding.find field = some binder) {objects : List DecodedObject}
    (hscan : store.scanAt epoch = .ok objects) (limit : Nat) :
    queryObjects store epoch (equalsSpec bound.typeId field value limit) =
      Generator.limit
        (.ofList (objects.filter ((equalsSpec bound.typeId field value 0).accepts))) limit := by
  obtain ⟨type, htype, -, hfields⟩ := hregisters
  have hid : binder.id = field := by
    unfold Binding.find at hbinder
    have hfound := List.find?_some hbinder
    exact of_decide_eq_true hfound
  have hsome : (type.find field).isSome := hid ▸ hfields binder (List.mem_of_find?_eq_some hbinder)
  have hpart : ((equalsSpec bound.typeId field value limit).equals.any
      fun condition => (type.find condition.1).isNone) = false := by
    change (some (field, value)).any _ = false
    rw [Option.any_some]
    simpa using hsome
  have htype' : store.findType (equalsSpec bound.typeId field value limit).type = .ok type := htype
  unfold queryObjects
  rw [htype']
  dsimp only
  rw [hpart, if_neg Bool.false_ne_true, if_neg (by simp [equalsSpec]), hscan]
  dsimp only
  rw [Generator.pump_eq_limit, pump_body]
  rfl

omit [Inhabited T] in
theorem key_of_inRange {object : T} (h : inRange bound field value value object = true) :
    ∃ key, encodeKey value = .ok key := by
  cases hkey : encodeKey value with
  | ok key => exact ⟨key, rfl⟩
  | error error =>
    unfold inRange at h
    rw [hkey] at h
    split at h
    · cases h
    · split at h
      · cases h
      · split at h
        · rename_i hlo _
          cases hlo
        · cases h

omit [DecidableEq Id] [RecordStore H Id DecodedObject Error NotFound] in
theorem inRange_self_iff {object : DecodedObject} {result : T} {binder : FieldBinder T}
    {stored : AttributeValue} (hresult : bound.materializeDecoded store object = .ok result)
    (hbinder : bound.binding.find field = some binder)
    (hstored : fieldValue object.fields field = some stored)
    (hprojected : bound.projectedValue store object binder = .ok stored) :
    inRange bound field value value result = true ↔
      ∃ key, encodeKey stored = .ok key ∧ encodeKey value = .ok key := by
  constructor
  · intro h
    obtain ⟨key, hkey⟩ := key_of_inRange h
    obtain ⟨key', ⟨found, hfound, -, hencode⟩, hbounds⟩ :=
      (storedInRange_iff_of_unchanged hbinder hstored hprojected key key).2
        ((inRange_iff hresult field hkey hkey).1 h)
    rw [hstored] at hfound
    cases hfound
    exact ⟨key, inBounds_self.1 hbounds ▸ hencode, hkey⟩
  · rintro ⟨key, hencode, hkey⟩
    refine (inRange_iff hresult field hkey hkey).2 ?_
    exact (storedInRange_iff_of_unchanged hbinder hstored hprojected key key).1
      ⟨key, ⟨stored, hstored, isNull_of_encodeKey hencode, hencode⟩, inBounds_self.2 rfl⟩

theorem forall₂_filter_map {α β γ : Type} {r : α → β → Prop} {f : α → γ} {g : β → γ}
    {p : α → Bool} {q : β → Bool} {l : List α} {l' : List β} (h : List.Forall₂ r l l')
    (hr : ∀ a ∈ l, ∀ b, r a b → f a = g b ∧ p a = q b) :
    (l.filter p).map f = (l'.filter q).map g := by
  induction h with
  | nil => rfl
  | @cons a b rest _ hab _ ih =>
    obtain ⟨hsame, hkeep⟩ := hr a List.mem_cons_self b hab
    have hrest := ih fun a' ha' => hr a' (List.mem_cons_of_mem a ha')
    rw [List.filter_cons, List.filter_cons, hkeep]
    split
    · rw [List.map_cons, List.map_cons, hrest, hsame]
    · exact hrest

theorem typed_rows (heaps : ∀ order : Order (Found T), Heap order) (hsound : store.Sound)
    (hunchanged : Unchanged store bound epoch field)
    (hindex : Query.hasIndexFor store bound field = true → ∃ key, encodeKey value = .ok key ∧
      store.ReadsExactly epoch bound.binding.typeName field value value key key)
    {rows : List (Found T)} (hrows : Extent store bound epoch rows) :
    ∃ selected, (equalsQuery field value).stream heaps store bound epoch = .ofList selected ∧
      selected.Perm (rows.filter fun row => inRange bound field value value row.value) ∧
      (Query.hasIndexFor store bound field = false →
        selected = rows.filter fun row => inRange bound field value value row.value) := by
  obtain ⟨binder, hbinder, hunchanged⟩ := hunchanged
  have hstream : (equalsQuery field value).stream heaps store bound epoch =
      (equalsQuery field value).source store bound epoch 0 := Query.stream_eq_source heaps rfl rfl
  rw [hstream]
  by_cases havailable : Query.hasIndexFor store bound field = true
  · obtain ⟨selected, hsource, hperm⟩ := @Query.source_selected H Id T _ _ _ (equalsQuery field value)
      store bound epoch hsound rows hrows fun field' hfield' _ => by
        cases hfield'
        obtain ⟨key, hkey, hreads⟩ := hindex havailable
        refine ⟨⟨key, key, hkey, hkey, fun row object hshows _ => ?_⟩, fun loKey hiKey hlo hhi => ?_⟩
        · obtain ⟨-, stored, hstored, hprojected⟩ := hunchanged row.id object
            (ObjectStore.getAt_of_some hsound hshows.read) hshows.named
          exact storedInRange_iff_of_unchanged hbinder hstored hprojected key key
        · have hlo' : encodeKey value = .ok loKey := hlo
          have hhi' : encodeKey value = .ok hiKey := hhi
          rw [hkey] at hlo' hhi'
          cases hlo'
          cases hhi'
          exact hreads
    refine ⟨selected, hsource, ?_, fun hnone => absurd havailable (by rw [hnone]; exact nofun)⟩
    exact hperm.trans (List.Perm.of_eq (List.filter_congr fun row _ => rfl))
  · have hscan : (equalsQuery field value).source store bound epoch 0 =
        runStream store bound epoch (some ((equalsQuery field value).fallback bound field)) 0 := by
      change (if Query.hasIndexFor store bound field = true then _ else _) = _
      rw [if_neg havailable]
    rw [hscan, runStream_eq hrows]
    have hfilter : (rows.filter fun row => passes
        (some ((equalsQuery field value).fallback bound field)) row.value) =
        rows.filter fun row => inRange bound field value value row.value :=
      List.filter_congr fun row _ => Bool.and_true _
    exact ⟨_, rfl, List.Perm.of_eq hfilter, fun _ => hfilter⟩

theorem agreesWithTyped_iff (heaps : ∀ order : Order (Found T), Heap order) (hsound : store.Sound)
    (hregisters : Registers store bound) (hunchanged : Unchanged store bound epoch field)
    (hindex : Query.hasIndexFor store bound field = true → ∃ key, encodeKey value = .ok key ∧
      store.ReadsExactly epoch bound.binding.typeName field value value key key) :
    AgreesWithTyped store bound epoch heaps field value ↔
      SelectsAlike store bound epoch field value := by
  obtain ⟨rows, hrows⟩ : ∃ rows, Extent store bound epoch rows := by
    obtain ⟨binder, -, hall⟩ := hunchanged
    exact extent_of_materialized hsound fun id object hread hnamed =>
      (hall id object (ObjectStore.getAt_of_some hsound hread) hnamed).1
  obtain ⟨selected, hstream, hperm, hscanned⟩ := typed_rows heaps hsound hunchanged hindex hrows
  obtain ⟨hrowIds, hshown⟩ := hrows.mem_iff hsound
  obtain ⟨binder, hbinder, hunchanged⟩ := hunchanged
  obtain ⟨objects, hscan, hforall⟩ := hrows
  obtain ⟨objects', hscan', hnodup, hmem⟩ := ObjectStore.scanAt_eq hsound epoch
  rw [hscan] at hscan'
  cases hscan'
  have hgeneric := @queryObjects_eq H Id T _ _ store bound epoch field value hregisters binder hbinder
    objects hscan
  have hvalue : ∀ row object, Shows store bound epoch row object → ∃ stored,
      fieldValue object.fields field = some stored ∧
        (inRange bound field value value row.value = true ↔
          ∃ key, encodeKey stored = .ok key ∧ encodeKey value = .ok key) := by
    intro row object hshows
    obtain ⟨-, stored, hstored, hprojected⟩ := hunchanged row.id object
      (ObjectStore.getAt_of_some hsound hshows.read) hshows.named
    exact ⟨stored, hstored, inRange_self_iff hshows.materialized hbinder hstored hprojected⟩
  have hgeneric0 : queryObjects store epoch (equalsSpec bound.typeId field value 0) =
      .ofList (objects.filter ((equalsSpec bound.typeId field value 0).accepts)) := hgeneric 0
  have hread_mem : ∀ {object}, object ∈ objects →
      store.cells.readAt epoch object.id = some object := fun hin => (hmem _).1 hin
  constructor
  · rintro ⟨found, rows', hfound, hrows', -, hsame, -, -⟩
    rw [hgeneric0] at hfound
    cases Generator.ofList_injective hfound
    rw [hstream] at hrows'
    cases Generator.ofList_injective hrows'
    intro id object hget hnamed stored hstored
    have hread := (ObjectStore.getAt_eq_ok hsound).1 hget
    obtain ⟨hid, -⟩ := ObjectStore.id_of_readAt hsound hread
    obtain ⟨⟨result, hresult⟩, -⟩ := hunchanged id object hget hnamed
    have hshows : Shows store bound epoch ⟨id, result⟩ object := ⟨hread, hnamed, hresult⟩
    obtain ⟨stored', hstored', hiff⟩ := hvalue _ object hshows
    rw [hstored] at hstored'
    cases hstored'
    rw [← accepts_equalsSpec hstored 0, ← hiff]
    -- Both are about the id being in the answer.
    have hleft : (equalsSpec bound.typeId field value 0).accepts object = true ↔
        id ∈ (objects.filter ((equalsSpec bound.typeId field value 0).accepts)).map
          DecodedObject.id := by
      rw [List.mem_map]
      constructor
      · intro haccepts
        exact ⟨object, List.mem_filter.2 ⟨(hmem object).2 (hid.symm ▸ hread), haccepts⟩, hid⟩
      · rintro ⟨object', hobject', hid'⟩
        obtain ⟨hin, haccepts⟩ := List.mem_filter.1 hobject'
        have hread' := hread_mem hin
        rw [hid', hread] at hread'
        cases hread'
        exact haccepts
    have hright : inRange bound field value value result = true ↔
        id ∈ (rows.filter fun row => inRange bound field value value row.value).map Found.id := by
      rw [List.mem_map]
      constructor
      · intro hrange
        exact ⟨⟨id, result⟩, List.mem_filter.2 ⟨(hshown _).2 ⟨object, hshows⟩, hrange⟩, rfl⟩
      · rintro ⟨row, hrow, rfl⟩
        obtain ⟨hin, hrange⟩ := List.mem_filter.1 hrow
        obtain ⟨object', hshows'⟩ := (hshown row).1 hin
        have hsame' : some object = some object' := hread.symm.trans hshows'.read
        cases hsame'
        have hvalues := hresult.symm.trans hshows'.materialized
        cases hvalues
        exact hrange
    rw [hleft, hright]
    exact (hsame.trans (hperm.map Found.id)).mem_iff
  · intro halike
    have hnamed_filter : objects.filter ((equalsSpec bound.typeId field value 0).accepts) =
        (objects.filter (hasTypeName store bound.binding.typeName)).filter
          ((equalsSpec bound.typeId field value 0).accepts) := by
      rw [List.filter_filter]
      apply List.filter_congr
      intro object _
      cases haccepts : (equalsSpec bound.typeId field value 0).accepts object with
      | false => rfl
      | true =>
        unfold ObjectQuerySpec.accepts at haccepts
        rw [Bool.and_eq_true, decide_eq_true_eq] at haccepts
        obtain ⟨type, htype, hname, -⟩ := hregisters
        have htypeId : object.type = bound.typeId := haccepts.1
        exact (hasTypeName_iff.2 ⟨type, htypeId ▸ htype, hname⟩).symm
    have hids : (objects.filter ((equalsSpec bound.typeId field value 0).accepts)).map
        DecodedObject.id =
          (rows.filter fun row => inRange bound field value value row.value).map Found.id := by
      rw [hnamed_filter]
      apply forall₂_filter_map hforall
      rintro object hobject row ⟨hid, hresult⟩
      obtain ⟨hin, hname⟩ := List.mem_filter.1 hobject
      have hread := hread_mem hin
      have hnamed := hasTypeName_iff.1 hname
      have hshows : Shows store bound epoch row object := ⟨hid ▸ hread, hnamed, hresult⟩
      obtain ⟨stored, hstored, hiff⟩ := hvalue row object hshows
      refine ⟨hid.symm, Bool.eq_iff_iff.2 ?_⟩
      rw [accepts_equalsSpec hstored 0, hiff]
      exact halike object.id object (ObjectStore.getAt_of_some hsound hread) hnamed stored hstored
    refine ⟨_, selected, hgeneric0, hstream, ?_, ?_, fun hnone => ?_, fun limit hlimit => ?_⟩
    · exact hnodup.sublist (List.filter_sublist.map DecodedObject.id)
    · rw [hids]
      exact (hperm.map Found.id).symm
    · rw [hids, hscanned hnone]
    · rw [hgeneric limit, Generator.limit_ofList, if_neg hlimit]

/-- In every state that a run reaches whose rollbacks restore the store, at every open snapshot, a
generic query for the type id of the binding agrees with the typed query exactly when the two select
alike. -/
theorem Engine.agreesWithTyped_run [PageSize] {engine : Engine H Id} (hfresh : engine.Fresh)
    {actions : List Action} (hmeets : Meets Restores actions engine) {epoch : Nat} (hepoch : epoch ∈ (engine.run actions).snapshots)
    (heaps : ∀ order : Order (Found T), Heap order)
    (hregisters : Registers (engine.run actions).store bound)
    (hunchanged : Unchanged (engine.run actions).store bound epoch field)
    (hindex : Query.hasIndexFor (engine.run actions).store bound field = true →
      Meets (fun engine action => engine.GoesThrough action ∧ engine.Restores action ∧
        engine.Covers action) actions engine ∧ ∃ key, encodeKey value = .ok key) :
    AgreesWithTyped (engine.run actions).store bound epoch heaps field value ↔
      SelectsAlike (engine.run actions).store bound epoch field value := by
  have hsound := (sound_run (sound_fresh hfresh) hmeets).store
  refine agreesWithTyped_iff heaps hsound hregisters hunchanged fun havailable => ?_
  obtain ⟨hcovers, key, hkey⟩ := hindex havailable
  exact ⟨key, hkey, (serving_run hfresh hcovers).readsExact epoch hepoch bound.binding.typeName field
    havailable value value key key hkey hkey⟩

end MoDb.Store

namespace MoDb.Store.Engine

open Storage Index Selection MoDb.Query

section DefaultBuild

attribute [local instance] PageSize.default Statement.ledgerStore

/-- The account is of the version before the one of the binding: the typed query finds it, the generic
one does not. -/
theorem not_agreesWithTyped_of_creditIndexed :
    ¬AgreesWithTyped (empty.run creditIndexed).store creditAccount 1 Heap.ofSorted 1 (.int64 10) := by
  rintro ⟨objects, rows, hgeneric, htyped, -, hsame, -, -⟩
  have hnone : queryObjects (empty.run creditIndexed).store 1 (equalsSpec 1027 1 (.int64 10) 0) =
      .ofList [] := rfl
  have hone : (equalsQuery 1 (.int64 10)).stream Heap.ofSorted (empty.run creditIndexed).store
      creditAccount 1 = .ofList [⟨1026, (10, 5)⟩] := rfl
  rw [show creditAccount.typeId = 1027 from rfl, hnone] at hgeneric
  rw [hone] at htyped
  rw [← Generator.ofList_injective hgeneric, ← Generator.ofList_injective htyped] at hsame
  exact absurd hsame.length_eq (by decide)

/-- The account with the balance is of the version of the binding, and the other is of the one before. -/
theorem agreesWithTyped_versionsIndexed : AgreesWithTyped (empty.run versionsIndexed).store
    creditAccount 2 Heap.ofSorted 1 (.int64 20) := by
  have hobjects := fun id object => fun hget : (empty.run versionsIndexed).store.getAt id 2 = .ok object =>
    mem_of_scanAt (sound_run (sound_fresh fresh_empty) restores_versionsIndexed).store
      scanAt_versionsIndexed hget
  have hcovers : Meets (fun engine action => engine.GoesThrough action ∧ engine.Restores action ∧
      engine.Covers action) versionsIndexed empty := by
    refine meets_versionsIndexed (fun engine action hne => ?_)
      fun definition _ epoch hepoch id object hget _ => ?_
    · cases action with
      | createIndex type field => exact absurd rfl (hne type field)
      | _ => trivial
    · rw [List.mem_singleton.1 hepoch] at hget
      obtain ⟨hencodable, hkeys⟩ := covers_balance hget
      exact ⟨hencodable, fun _ => hkeys⟩
  refine (agreesWithTyped_run fresh_empty restores_versionsIndexed (by decide) Heap.ofSorted ?_ ?_
    fun _ => ⟨hcovers, _, rfl⟩).2 ?_
  · refine ⟨_, rfl, rfl, fun binder hbinder => ?_⟩
    rcases List.mem_cons.1 hbinder with rfl | hbinder
    · rfl
    · rw [List.mem_singleton.1 hbinder]
      rfl
  · refine ⟨_, rfl, fun id object hget _ => ?_⟩
    have hin := hobjects id object hget
    simp only [List.mem_cons, List.not_mem_nil, or_false] at hin
    rcases hin with rfl | rfl
    all_goals exact ⟨⟨_, rfl⟩, _, rfl, rfl⟩
  · intro id object hget _ stored hstored
    have hin := hobjects id object hget
    simp only [List.mem_cons, List.not_mem_nil, or_false] at hin
    rcases hin with rfl | rfl
    · cases hstored
      refine ⟨fun h => absurd h.2 (by decide), ?_⟩
      rintro ⟨key, hkey, hkey'⟩
      rw [← hkey'] at hkey
      exact absurd hkey (by decide)
    · cases hstored
      exact ⟨fun _ => ⟨_, rfl, rfl⟩, fun _ => by decide⟩

end DefaultBuild

end MoDb.Store.Engine
