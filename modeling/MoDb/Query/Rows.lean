import MoDb.Query.Stream
import MoDb.Store.IndexReads

/-!
# The rows of a query

A scan gives a row for each visible object of the type, an index one for each visible object whose
stored value is in the range.
-/

namespace MoDb.Store

open Storage Index Selection MoDb.Query Mvcc

variable {H Id T : Type} [Inhabited T] [DecidableEq Id]
  [RecordStore H Id DecodedObject Error NotFound]

/-- The rows are the visible objects of the type, materialised, in the order of the scan. -/
def Extent (store : ObjectStore H Id) (bound : BoundType T) (epoch : Nat)
    (rows : List (Found T)) : Prop :=
  ∃ objects, store.scanAt epoch = .ok objects ∧
    List.Forall₂ (fun object row => row.id = object.id ∧
      bound.materializeDecoded store object = .ok row.value)
      (objects.filter (hasTypeName store bound.binding.typeName)) rows

/-- The row shows the object, which is visible and of the type. -/
structure Shows (store : ObjectStore H Id) (bound : BoundType T) (epoch : Nat) (row : Found T)
    (object : DecodedObject) : Prop where
  read : store.cells.readAt epoch row.id = some object
  named : store.TypeNamed object bound.binding.typeName
  materialized : bound.materializeDecoded store object = .ok row.value

/-- The object is stored with a value of the field whose key is in the range. -/
def StoredInRange (object : DecodedObject) (field : FieldId) (loKey hiKey : Bytes) : Prop :=
  ∃ key, IndexedKey object.fields field key ∧ inBounds loKey hiKey key = true

omit [Inhabited T] [DecidableEq Id] [RecordStore H Id DecodedObject Error NotFound] in
/-- The object is projected to a value of the field whose key is in the range. -/
def ProjectedInRange (store : ObjectStore H Id) (bound : BoundType T) (object : DecodedObject)
    (field : FieldId) (loKey hiKey : Bytes) : Prop :=
  ∃ binder value key, bound.binding.find field = some binder ∧
    bound.projectedValue store object binder = .ok value ∧ indexKey value = some key ∧
    inBounds loKey hiKey key = true

variable {store : ObjectStore H Id} {bound : BoundType T} {epoch : Nat}

omit [DecidableEq Id] [RecordStore H Id DecodedObject Error NotFound] in
theorem hasTypeName_iff {typeName : String} {object : DecodedObject} :
    hasTypeName store typeName object = true ↔ store.TypeNamed object typeName := by
  unfold hasTypeName ObjectStore.TypeNamed
  cases store.findType object.type with
  | error error => exact ⟨nofun, fun ⟨_, htype, _⟩ => by cases htype⟩
  | ok type =>
    refine ⟨fun h => ⟨type, rfl, of_decide_eq_true h⟩, fun ⟨_, htype, hname⟩ => ?_⟩
    cases htype
    exact decide_eq_true hname

omit [DecidableEq Id] [RecordStore H Id DecodedObject Error NotFound] in
theorem indexKey_eq_some {value : AttributeValue} {key : Bytes} :
    indexKey value = some key ↔ encodeKey value = .ok key := by
  unfold indexKey
  cases encodeKey value with
  | error error => exact ⟨nofun, nofun⟩
  | ok found =>
    constructor
    · intro h
      cases h
      rfl
    · intro h
      cases h
      rfl

theorem isNull_of_encodeKey {value : AttributeValue} {key : Bytes}
    (h : encodeKey value = .ok key) : value.isNull = false := by
  cases value
  case null => cases h
  all_goals rfl

omit [Inhabited T] in
theorem inRange_iff_keyOf {value : T} {field : FieldId} {lo hi : AttributeValue}
    {loKey hiKey : Bytes} (hlo : encodeKey lo = .ok loKey) (hhi : encodeKey hi = .ok hiKey) :
    inRange bound field lo hi value = true ↔ ∃ binder key, bound.binding.find field = some binder ∧
      binder.keyOf value = some key ∧ inBounds loKey hiKey key = true := by
  unfold inRange
  cases bound.binding.find field with
  | none =>
    refine ⟨nofun, ?_⟩
    rintro ⟨_, _, h, -, -⟩
    cases h
  | some binder =>
    have hone : (∃ binder' key, some binder = some binder' ∧ binder'.keyOf value = some key ∧
        inBounds loKey hiKey key = true) ↔
        ∃ key, binder.keyOf value = some key ∧ inBounds loKey hiKey key = true := by
      constructor
      · rintro ⟨binder', key, hbinder, h⟩
        cases hbinder
        exact ⟨key, h⟩
      · rintro ⟨key, h⟩
        exact ⟨binder, key, rfl, h⟩
    rw [hone]
    unfold FieldBinder.keyOf
    dsimp only
    cases binder.load value with
    | error error =>
      refine ⟨nofun, ?_⟩
      rintro ⟨_, h, -⟩
      cases h
    | ok loaded =>
      change _ ↔ ∃ key, indexKey loaded = some key ∧ inBounds loKey hiKey key = true
      dsimp only
      cases hkey : encodeKey loaded with
      | error error =>
        refine ⟨nofun, ?_⟩
        rintro ⟨key, hkey', -⟩
        rw [indexKey_eq_some, hkey] at hkey'
        cases hkey'
      | ok key =>
        rw [hlo, hhi]
        refine ⟨fun hbounds => ⟨key, indexKey_eq_some.2 hkey, hbounds⟩, ?_⟩
        rintro ⟨key', hkey', hbounds⟩
        rw [indexKey_eq_some, hkey] at hkey'
        cases hkey'
        exact hbounds

omit [DecidableEq Id] [RecordStore H Id DecodedObject Error NotFound] in
theorem inRange_iff {object : DecodedObject} {value : T}
    (hvalue : bound.materializeDecoded store object = .ok value) (field : FieldId)
    {lo hi : AttributeValue} {loKey hiKey : Bytes} (hlo : encodeKey lo = .ok loKey)
    (hhi : encodeKey hi = .ok hiKey) :
    inRange bound field lo hi value = true ↔
      ProjectedInRange store bound object field loKey hiKey := by
  rw [inRange_iff_keyOf hlo hhi]
  constructor
  · rintro ⟨binder, key, hfind, hkey, hbounds⟩
    obtain ⟨projected, hprojected, hkeyOf⟩ :=
      BoundType.keyOf_materializeDecoded hvalue (List.mem_of_find?_eq_some hfind)
    exact ⟨binder, projected, key, hfind, hprojected, hkeyOf.symm.trans hkey, hbounds⟩
  · rintro ⟨binder, projected, key, hfind, hprojected, hkey, hbounds⟩
    obtain ⟨projected', hprojected', hkeyOf⟩ :=
      BoundType.keyOf_materializeDecoded hvalue (List.mem_of_find?_eq_some hfind)
    rw [hprojected] at hprojected'
    cases hprojected'
    exact ⟨binder, key, hfind, hkeyOf.trans hkey, hbounds⟩

omit [DecidableEq Id] [RecordStore H Id DecodedObject Error NotFound] [Inhabited T] in
theorem storedInRange_iff_of_unchanged {object : DecodedObject} {field : FieldId}
    {binder : FieldBinder T} {value : AttributeValue}
    (hfind : bound.binding.find field = some binder)
    (hvalue : fieldValue object.fields field = some value)
    (hprojected : bound.projectedValue store object binder = .ok value) (loKey hiKey : Bytes) :
    StoredInRange object field loKey hiKey ↔
      ProjectedInRange store bound object field loKey hiKey := by
  constructor
  · rintro ⟨key, ⟨found, hfound, -, hkey⟩, hbounds⟩
    rw [hvalue] at hfound
    cases hfound
    exact ⟨binder, value, key, hfind, hprojected, indexKey_eq_some.2 hkey, hbounds⟩
  · rintro ⟨binder', found, key, hfind', hfound, hkey, hbounds⟩
    rw [hfind] at hfind'
    cases hfind'
    rw [hprojected] at hfound
    cases hfound
    exact ⟨key, ⟨value, hvalue, isNull_of_encodeKey (indexKey_eq_some.1 hkey),
      indexKey_eq_some.1 hkey⟩, hbounds⟩

omit [DecidableEq Id] [RecordStore H Id DecodedObject Error NotFound] [Inhabited T] in
theorem storedInRange_iff_of_copied {object : DecodedObject} {stored : TypeDefinition}
    {field : FieldId} {attr : AttributeDefinition} {binder : FieldBinder T} {value : AttributeValue}
    (hmigration : bound.migration object.type = none)
    (htype : store.findType object.type = .ok stored) (hattr : stored.find field = some attr)
    (hnullable : attr.nullable = false) (hfind : bound.binding.find field = some binder)
    (hsame : attr.type = binder.type) (hvalue : fieldValue object.fields field = some value)
    (hindexed : fieldValueIndex object.fields field = some value) (loKey hiKey : Bytes) :
    StoredInRange object field loKey hiKey ↔
      ProjectedInRange store bound object field loKey hiKey := by
  have hattrId : attr.id = field := by
    unfold TypeDefinition.find at hattr
    have hfound := List.find?_some hattr
    exact of_decide_eq_true hfound
  have hbinderId : binder.id = field := by
    unfold Binding.find at hfind
    have hfound := List.find?_some hfind
    exact of_decide_eq_true hfound
  have hprojected : bound.projectedValue store object binder = .ok value := by
    unfold BoundType.projectedValue ProjectionPlan.projectField
    rw [hmigration]
    dsimp only
    rw [htype]
    dsimp only
    rw [hbinderId, hattr]
    dsimp only
    rw [hnullable, if_neg Bool.false_ne_true, if_pos hsame, hattrId]
    have hstored : ProjectionStep.sourceValue object field attr.defaultValue = .ok value := by
      unfold ProjectionStep.sourceValue
      rw [hindexed]
    by_cases href : attr.type = .ref
    · rw [if_pos href]
      exact hstored
    · rw [if_neg href]
      exact hstored
  exact storedInRange_iff_of_unchanged hfind hvalue hprojected loKey hiKey

/-! ### Rows of a scan -/

omit [DecidableEq Id] [RecordStore H Id DecodedObject Error NotFound] in
theorem pump_scanBody {objects : List DecodedObject} {rows : List (Found T)}
    (h : List.Forall₂ (fun object row => row.id = object.id ∧
      bound.materializeDecoded store object = .ok row.value)
      (objects.filter (hasTypeName store bound.binding.typeName)) rows)
    (predicate : Option (T → Bool)) :
    Generator.pump (scanBody store bound predicate typedRow) 0 0 objects =
      .ofList (rows.filter fun row => passes predicate row.value) := by
  induction objects generalizing rows with
  | nil =>
    cases h
    rfl
  | cons object rest ih =>
    rw [Generator.pump, scanBody]
    by_cases hname : hasTypeName store bound.binding.typeName object = true
    · rw [List.filter_cons_of_pos hname] at h
      cases h with
      | @cons _ row _ rows hrow hrest =>
        obtain ⟨hid, hvalue⟩ := hrow
        have hrow : (⟨object.id, row.value⟩ : Found T) = row := by rw [← hid]
        rw [if_pos hname, rowBody, hvalue]
        dsimp only
        by_cases hpasses : passes predicate row.value = true
        · rw [if_pos hpasses, List.filter_cons, if_pos hpasses]
          change (if (0 : Nat) ≠ 0 ∧ _ then _ else _) = _
          rw [if_neg fun h => h.1 rfl, Generator.pump_zero, ih hrest, hrow]
          rfl
        · rw [if_neg hpasses, List.filter_cons, if_neg hpasses]
          exact ih hrest
    · rw [List.filter_cons_of_neg hname] at h
      rw [if_neg hname]
      exact ih h

theorem runStream_eq {rows : List (Found T)} (h : Extent store bound epoch rows)
    (predicate : Option (T → Bool)) :
    runStream store bound epoch predicate 0 =
      .ofList (rows.filter fun row => passes predicate row.value) := by
  obtain ⟨objects, hscan, hrows⟩ := h
  rw [runStream, hscan]
  exact pump_scanBody hrows predicate

omit [DecidableEq Id] [RecordStore H Id DecodedObject Error NotFound] in
theorem rows_of_materialized {objects : List DecodedObject}
    (h : ∀ object ∈ objects, ∃ value, bound.materializeDecoded store object = .ok value) :
    ∃ rows : List (Found T), List.Forall₂ (fun object row => row.id = object.id ∧
      bound.materializeDecoded store object = .ok row.value) objects rows := by
  induction objects with
  | nil => exact ⟨[], .nil⟩
  | cons object rest ih =>
    obtain ⟨value, hvalue⟩ := h object List.mem_cons_self
    obtain ⟨rows, hrows⟩ := ih fun found hfound => h found (List.mem_cons_of_mem object hfound)
    exact ⟨⟨object.id, value⟩ :: rows, .cons ⟨rfl, hvalue⟩ hrows⟩

theorem extent_of_materialized (hsound : store.Sound)
    (h : ∀ id object, store.cells.readAt epoch id = some object →
      store.TypeNamed object bound.binding.typeName →
      ∃ value, bound.materializeDecoded store object = .ok value) :
    ∃ rows, Extent store bound epoch rows := by
  obtain ⟨objects, hscan, -, hmem⟩ := ObjectStore.scanAt_eq hsound epoch
  have hnamed : ∀ object ∈ objects.filter (hasTypeName store bound.binding.typeName),
      ∃ value, bound.materializeDecoded store object = .ok value := by
    intro object hobject
    obtain ⟨hin, hname⟩ := List.mem_filter.1 hobject
    exact h object.id object ((hmem object).1 hin) (hasTypeName_iff.1 hname)
  obtain ⟨rows, hrows⟩ := rows_of_materialized hnamed
  exact ⟨rows, objects, hscan, hrows⟩

theorem extent_of_runStream {predicate : Option (T → Bool)} {found : List (Found T)}
    (h : (runStream store bound epoch predicate 0).collect = .ok found) :
    ∃ rows, Extent store bound epoch rows := by
  unfold runStream at h
  cases hscan : store.scanAt epoch with
  | error error =>
    rw [hscan] at h
    cases h
  | ok objects =>
    rw [hscan] at h
    have hbody := Generator.pump_body_ok h
    suffices hrows : ∃ rows : List (Found T), List.Forall₂ (fun object row => row.id = object.id ∧
        bound.materializeDecoded store object = .ok row.value)
        (objects.filter (hasTypeName store bound.binding.typeName)) rows by
      obtain ⟨rows, hrows⟩ := hrows
      exact ⟨rows, objects, hscan, hrows⟩
    apply rows_of_materialized
    intro object hobject
    obtain ⟨hin, hname⟩ := List.mem_filter.1 hobject
    obtain ⟨row, hrow⟩ := hbody object hin
    rw [scanBody, if_pos hname, rowBody] at hrow
    cases hvalue : bound.materializeDecoded store object with
    | error error =>
      rw [hvalue] at hrow
      cases hrow
    | ok value => exact ⟨value, rfl⟩

theorem exists_of_forall₂_left {α β : Type} {r : α → β → Prop} {l : List α} {l' : List β}
    (h : List.Forall₂ r l l') {a : α} (ha : a ∈ l) : ∃ b ∈ l', r a b := by
  induction h with
  | nil => exact absurd ha List.not_mem_nil
  | @cons a' b _ _ hab _ ih =>
    rcases List.mem_cons.1 ha with rfl | ha
    · exact ⟨b, List.mem_cons_self, hab⟩
    · obtain ⟨found, hfound, hrel⟩ := ih ha
      exact ⟨found, List.mem_cons_of_mem b hfound, hrel⟩

theorem Extent.mem_iff {rows : List (Found T)} (h : Extent store bound epoch rows)
    (hsound : store.Sound) :
    (rows.map Found.id).Nodup ∧ ∀ row, row ∈ rows ↔ ∃ object, Shows store bound epoch row object := by
  obtain ⟨objects, hscan, hrows⟩ := h
  obtain ⟨objects', hscan', hnodup, hmem⟩ := ObjectStore.scanAt_eq hsound epoch
  rw [hscan] at hscan'
  cases hscan'
  have hids : rows.map Found.id =
      (objects.filter (hasTypeName store bound.binding.typeName)).map DecodedObject.id := by
    generalize objects.filter (hasTypeName store bound.binding.typeName) = named at hrows
    induction hrows with
    | nil => rfl
    | cons hrow _ ih => rw [List.map_cons, List.map_cons, hrow.1, ih]
  refine ⟨hids ▸ hnodup.sublist (List.filter_sublist.map _), fun row => ?_⟩
  constructor
  · intro hrow
    obtain ⟨object, hobject, hid, hvalue⟩ := ObjectStore.exists_of_forall₂_right hrows hrow
    obtain ⟨hin, hname⟩ := List.mem_filter.1 hobject
    refine ⟨object, ?_, hasTypeName_iff.1 hname, hvalue⟩
    rw [hid]
    exact (hmem object).1 hin
  · rintro ⟨object, hread, hnamed, hvalue⟩
    obtain ⟨hid, -⟩ := ObjectStore.id_of_readAt hsound hread
    have hin : object ∈ objects.filter (hasTypeName store bound.binding.typeName) :=
      List.mem_filter.2 ⟨(hmem object).2 (hid ▸ hread), hasTypeName_iff.2 hnamed⟩
    obtain ⟨row', hrow', hid', hvalue'⟩ := exists_of_forall₂_left hrows hin
    rw [hvalue] at hvalue'
    injection hvalue' with hsame
    have heq : row = row' := by
      cases row
      cases row'
      exact congrArg₂ Found.mk (hid.symm.trans hid'.symm) hsame
    exact heq ▸ hrow'

theorem Extent.materialized {rows : List (Found T)} (h : Extent store bound epoch rows)
    (hsound : store.Sound) {id : ObjectId} {object : DecodedObject}
    (hread : store.cells.readAt epoch id = some object)
    (hnamed : store.TypeNamed object bound.binding.typeName) :
    ∃ value, bound.materializeDecoded store object = .ok value := by
  obtain ⟨objects, hscan, hrows⟩ := h
  obtain ⟨objects', hscan', -, hmem⟩ := ObjectStore.scanAt_eq hsound epoch
  rw [hscan] at hscan'
  cases hscan'
  obtain ⟨hid, -⟩ := ObjectStore.id_of_readAt hsound hread
  have hin : object ∈ objects.filter (hasTypeName store bound.binding.typeName) :=
    List.mem_filter.2 ⟨(hmem object).2 (hid.symm ▸ hread), hasTypeName_iff.2 hnamed⟩
  obtain ⟨row, -, -, hvalue⟩ := exists_of_forall₂_left hrows hin
  exact ⟨row.value, hvalue⟩

/-! ### Rows of an index -/

theorem map_filterMap_sublist {α β : Type} {f : α → Option β} {g : β → α} {p : α → Bool}
    {list : List α} (h : ∀ a ∈ list, ∀ b, f a = some b → g b = a ∧ p a = true) :
    ((list.filterMap f).map g).Sublist (list.filter p) := by
  induction list with
  | nil => exact List.Sublist.slnil
  | cons a rest ih =>
    have hrest := ih fun a' ha' => h a' (List.mem_cons_of_mem a ha')
    rw [List.filterMap_cons, List.filter_cons]
    cases hf : f a with
    | none =>
      dsimp only
      split
      · exact hrest.cons a
      · exact hrest
    | some b =>
      obtain ⟨hg, hp⟩ := h a List.mem_cons_self b hf
      rw [if_pos hp, List.map_cons, hg]
      exact hrest.cons_cons a

theorem getAt_of_candidate {id : ObjectId} {field : FieldId} {lo hi : AttributeValue}
    {object : DecodedObject} (h : store.indexCandidateAt id epoch field lo hi = .ok (some object)) :
    store.getAt id epoch = .ok object := by
  unfold ObjectStore.indexCandidateAt at h
  cases hget : store.getAt id epoch with
  | error error =>
    rw [hget] at h
    dsimp only at h
    split at h <;> cases h
  | ok found =>
    rw [hget] at h
    dsimp only at h
    split at h
    · cases h
    · split at h
      · cases h
      · rename_i value _ _
        cases hkey : encodeKey value with
        | error error =>
          rw [hkey] at h
          cases h
        | ok key =>
          rw [hkey] at h
          cases hlo : encodeKey lo with
          | error error =>
            rw [hlo] at h
            cases h
          | ok loKey =>
            rw [hlo] at h
            cases hhi : encodeKey hi with
            | error error =>
              rw [hhi] at h
              cases h
            | ok hiKey =>
              rw [hhi] at h
              change (if inBounds loKey hiKey key = true then Except.ok (some found) else .ok none) =
                .ok (some object) at h
              split at h <;> cases h
              rfl

theorem runIndexStream_eq (hsound : store.Sound) {field : FieldId} {lo hi : AttributeValue}
    {loKey hiKey : Bytes}
    (hreads : store.ReadsExactly epoch bound.binding.typeName field lo hi loKey hiKey)
    (hmaterialized : ∀ id object, store.cells.readAt epoch id = some object →
      store.TypeNamed object bound.binding.typeName → StoredInRange object field loKey hiKey →
      ∃ value, bound.materializeDecoded store object = .ok value)
    (predicate : Option (T → Bool)) :
    ∃ rows, runIndexStream store bound epoch field lo hi predicate 0 = .ofList rows ∧
      (rows.map Found.id).Nodup ∧ ∀ row, row ∈ rows ↔ ∃ object, Shows store bound epoch row object ∧
        StoredInRange object field loKey hiKey ∧ passes predicate row.value = true := by
  obtain ⟨ids, hids, hcandidates, hnodup, hits, -, hfilter, hmem⟩ := hreads
  -- The accepted ids are those of the objects that are stored in the range.
  have haccepted : ∀ id, (id ∈ ids ∧ store.accepts epoch field lo hi id = true) ↔
      ∃ object, store.cells.readAt epoch id = some object ∧
        store.TypeNamed object bound.binding.typeName ∧ StoredInRange object field loKey hiKey := by
    intro id
    rw [← List.mem_filter, hfilter, List.mem_map]
    constructor
    · rintro ⟨⟨key, id'⟩, hin, rfl⟩
      obtain ⟨hbounds, object, hget, hnamed, hkey⟩ := (hmem key id').1 hin
      exact ⟨object, (ObjectStore.getAt_eq_ok hsound).1 hget, hnamed, key, hkey, hbounds⟩
    · rintro ⟨object, hread, hnamed, key, hkey, hbounds⟩
      exact ⟨(key, id), (hmem key id).2 ⟨hbounds, object, (ObjectStore.getAt_eq_ok hsound).2 hread,
        hnamed, hkey⟩, rfl⟩
  have hcandidate : ∀ id ∈ ids, ∀ object,
      store.indexCandidateAt id epoch field lo hi = .ok (some object) →
      ∃ value, Shows store bound epoch ⟨id, value⟩ object ∧ object.id = id ∧
        StoredInRange object field loKey hiKey := by
    intro id hid object hobject
    have hyes : store.accepts epoch field lo hi id = true := by
      unfold ObjectStore.accepts
      rw [hobject]
    obtain ⟨object', hread, hnamed, hrange⟩ := (haccepted id).1 ⟨hid, hyes⟩
    have hread' := (ObjectStore.getAt_eq_ok hsound).1 (getAt_of_candidate hobject)
    rw [hread] at hread'
    cases hread'
    obtain ⟨value, hvalue⟩ := hmaterialized id object hread hnamed hrange
    exact ⟨value, ⟨hread, hnamed, hvalue⟩, (ObjectStore.id_of_readAt hsound hread).1, hrange⟩
  have hbody : ∀ id ∈ ids, ∀ object,
      store.indexCandidateAt id epoch field lo hi = .ok (some object) → ∀ value,
      bound.materializeDecoded store object = .ok value →
      indexBody store bound epoch field lo hi predicate typedRow id =
        .ok (if passes predicate value then some ⟨object.id, value⟩ else none) := by
    intro id _ object hobject value hvalue
    rw [indexBody, hobject]
    dsimp only
    rw [rowBody, hvalue]
    dsimp only
    split <;> rfl
  have hall : ∀ id ∈ ids, ∃ row,
      indexBody store bound epoch field lo hi predicate typedRow id = .ok row := by
    intro id hid
    obtain ⟨candidate, hobject⟩ := hcandidates id hid
    cases candidate with
    | none => exact ⟨none, by rw [indexBody, hobject]⟩
    | some object =>
      obtain ⟨value, hshows, -⟩ := hcandidate id hid object hobject
      exact ⟨_, hbody id hid object hobject value hshows.materialized⟩
  have hrow : ∀ id ∈ ids, ∀ row,
      (indexBody store bound epoch field lo hi predicate typedRow id).toOption.join = some row →
      row.id = id ∧ store.accepts epoch field lo hi id = true ∧
        ∃ object, Shows store bound epoch row object ∧ StoredInRange object field loKey hiKey ∧
          passes predicate row.value = true := by
    intro id hid row hrow
    obtain ⟨candidate, hobject⟩ := hcandidates id hid
    cases candidate with
    | none =>
      rw [indexBody, hobject] at hrow
      cases hrow
    | some object =>
      obtain ⟨value, hshows, hobjectId, hrange⟩ := hcandidate id hid object hobject
      rw [hbody id hid object hobject value hshows.materialized] at hrow
      change (if passes predicate value = true then some (⟨object.id, value⟩ : Found T) else none) =
        some row at hrow
      split at hrow
      · rename_i hpasses
        cases hrow
        refine ⟨hobjectId, ?_, object, hobjectId ▸ hshows, hrange, hpasses⟩
        unfold ObjectStore.accepts
        rw [hobject]
      · cases hrow
  refine ⟨ids.filterMap fun id =>
    (indexBody store bound epoch field lo hi predicate typedRow id).toOption.join, ?_, ?_, ?_⟩
  · rw [runIndexStream, hids]
    exact Generator.pump_ofList hall
  · exact hnodup.sublist (map_filterMap_sublist fun id hid row h =>
      ⟨(hrow id hid row h).1, (hrow id hid row h).2.1⟩)
  · intro row
    rw [List.mem_filterMap]
    constructor
    · rintro ⟨id, hid, h⟩
      exact (hrow id hid row h).2.2
    · rintro ⟨object, hshows, hrange, hpasses⟩
      obtain ⟨hid, haccepts⟩ := (haccepted row.id).2 ⟨object, hshows.read, hshows.named, hrange⟩
      obtain ⟨object', hobject⟩ : ∃ object',
          store.indexCandidateAt row.id epoch field lo hi = .ok (some object') := by
        unfold ObjectStore.accepts at haccepts
        split at haccepts
        · rename_i object' hobject
          exact ⟨object', hobject⟩
        · cases haccepts
      have hread := (ObjectStore.getAt_eq_ok hsound).1 (getAt_of_candidate hobject)
      rw [hshows.read] at hread
      cases hread
      refine ⟨row.id, hid, ?_⟩
      rw [hbody row.id hid object hobject row.value hshows.materialized, if_pos hpasses,
        (ObjectStore.id_of_readAt hsound hshows.read).1]
      rfl

end MoDb.Store
