import MoDb.Query.Reference
import MoDb.Store.CurrentIndexes

/-!
# Indexes under schema evolution

An index compares what an object is stored with, a scan what it is projected to. The two differ where
the version of the object does not have the field, where the object has no value in it, and where the
type of the field has changed.
-/

namespace MoDb.Store

open Storage Index Selection MoDb.Query Mvcc

variable {H Id T : Type} [Inhabited T] [DecidableEq Id]
  [RecordStore H Id DecodedObject Error NotFound]

/-- The index and the scan with the condition as a filter yield the same objects. -/
def IndexAnswersLikeScan (store : ObjectStore H Id) (bound : BoundType T) (epoch : Nat)
    (field : FieldId) (lo hi : AttributeValue) : Prop :=
  ∃ found found', (runIndexStream store bound epoch field lo hi none 0).collect = .ok found ∧
    (runStream store bound epoch (some (inRange bound field lo hi)) 0).collect = .ok found' ∧
    found.Perm found'

/-- The bounds have keys, and each visible object of the type can be projected, and is stored in the
range if and only if it is projected into it. -/
def ProjectionAgrees (store : ObjectStore H Id) (bound : BoundType T) (epoch : Nat)
    (field : FieldId) (lo hi : AttributeValue) : Prop :=
  ∃ loKey hiKey, encodeKey lo = .ok loKey ∧ encodeKey hi = .ok hiKey ∧
    ∀ id object, store.getAt id epoch = .ok object →
      store.TypeNamed object bound.binding.typeName →
      (∃ value, bound.materializeDecoded store object = .ok value) ∧
        (StoredInRange object field loKey hiKey ↔
          ProjectedInRange store bound object field loKey hiKey)

variable {store : ObjectStore H Id} {bound : BoundType T} {epoch : Nat} {field : FieldId}
  {lo hi : AttributeValue}

omit [Inhabited T] in
theorem keys_of_indexRangeAt {typeName : String} {ids : List ObjectId}
    (h : store.indexRangeAt typeName field lo hi epoch = .ok ids) :
    ∃ loKey hiKey, encodeKey lo = .ok loKey ∧ encodeKey hi = .ok hiKey := by
  unfold ObjectStore.indexRangeAt at h
  cases hlo : encodeKey lo with
  | error error =>
    simp only [ObjectStore.indexRange, hlo] at h
    split at h
    · split at h <;> cases h
    · split at h <;> cases h
  | ok loKey =>
    cases hhi : encodeKey hi with
    | error error =>
      simp only [ObjectStore.indexRange, hlo, hhi] at h
      split at h
      · split at h <;> cases h
      · split at h <;> cases h
    | ok hiKey => exact ⟨loKey, hiKey, rfl, rfl⟩

theorem indexAnswersLikeScan_iff (hsound : store.Sound)
    (hreads : ∀ loKey hiKey, encodeKey lo = .ok loKey → encodeKey hi = .ok hiKey →
      store.ReadsExactly epoch bound.binding.typeName field lo hi loKey hiKey) :
    IndexAnswersLikeScan store bound epoch field lo hi ↔
      ProjectionAgrees store bound epoch field lo hi := by
  constructor
  · rintro ⟨found, found', hindex, hscan, hperm⟩
    obtain ⟨rows, hrows⟩ := extent_of_runStream hscan
    obtain ⟨loKey, hiKey, hlo, hhi⟩ : ∃ loKey hiKey, encodeKey lo = .ok loKey ∧
        encodeKey hi = .ok hiKey := by
      unfold runIndexStream at hindex
      cases hids : store.indexRangeAt bound.binding.typeName field lo hi epoch with
      | error error =>
        rw [hids] at hindex
        cases hindex
      | ok ids => exact keys_of_indexRangeAt hids
    have hmaterialized : ∀ id object, store.cells.readAt epoch id = some object →
        store.TypeNamed object bound.binding.typeName →
        ∃ value, bound.materializeDecoded store object = .ok value :=
      fun id object => hrows.materialized hsound
    obtain ⟨selected, hstream, -, hmem⟩ := runIndexStream_eq hsound (hreads loKey hiKey hlo hhi)
      (fun id object hread hnamed _ => hmaterialized id object hread hnamed) none
    rw [hstream, Generator.collect_ofList] at hindex
    cases hindex
    rw [runStream_eq hrows, Generator.collect_ofList] at hscan
    cases hscan
    refine ⟨loKey, hiKey, hlo, hhi, fun id object hget hnamed => ?_⟩
    have hread := (ObjectStore.getAt_eq_ok hsound).1 hget
    obtain ⟨value, hvalue⟩ := hmaterialized id object hread hnamed
    have hshows : Shows store bound epoch ⟨id, value⟩ object := ⟨hread, hnamed, hvalue⟩
    refine ⟨⟨value, hvalue⟩, fun hstored => ?_, fun hprojected => ?_⟩
    · have hin := hperm.mem_iff.1 ((hmem ⟨id, value⟩).2 ⟨object, hshows, hstored, rfl⟩)
      exact (inRange_iff hvalue field hlo hhi).1 (List.mem_filter.1 hin).2
    · have hin : (⟨id, value⟩ : Found T) ∈ rows.filter fun row =>
          passes (some (inRange bound field lo hi)) row.value :=
        List.mem_filter.2 ⟨((hrows.mem_iff hsound).2 _).2 ⟨object, hshows⟩,
          (inRange_iff hvalue field hlo hhi).2 hprojected⟩
      obtain ⟨object', hshows', hstored, -⟩ := (hmem ⟨id, value⟩).1 (hperm.mem_iff.2 hin)
      have hsame : some object = some object' := hread.symm.trans hshows'.read
      cases hsame
      exact hstored
  · rintro ⟨loKey, hiKey, hlo, hhi, hagrees⟩
    have hmaterialized : ∀ id object, store.cells.readAt epoch id = some object →
        store.TypeNamed object bound.binding.typeName →
        ∃ value, bound.materializeDecoded store object = .ok value :=
      fun id object hread => fun hnamed =>
        (hagrees id object (ObjectStore.getAt_of_some hsound hread) hnamed).1
    obtain ⟨rows, hrows⟩ := extent_of_materialized hsound hmaterialized
    obtain ⟨hnodup, hshown⟩ := hrows.mem_iff hsound
    obtain ⟨selected, hstream, hnodup', hmem⟩ := runIndexStream_eq hsound
      (hreads loKey hiKey hlo hhi)
      (fun id object hread hnamed _ => hmaterialized id object hread hnamed) none
    refine ⟨selected, rows.filter fun row => passes (some (inRange bound field lo hi)) row.value,
      ?_, ?_, ?_⟩
    · rw [hstream, Generator.collect_ofList]
    · rw [runStream_eq hrows, Generator.collect_ofList]
    · apply (List.perm_ext_iff_of_nodup (hnodup'.of_map _) (hnodup.of_map _ |>.filter _)).2
      intro row
      rw [hmem, List.mem_filter, hshown]
      constructor
      · rintro ⟨object, hshows, hstored, -⟩
        have hiff := (hagrees row.id object (ObjectStore.getAt_of_some hsound hshows.read)
          hshows.named).2
        exact ⟨⟨object, hshows⟩, (inRange_iff hshows.materialized field hlo hhi).2
          (hiff.1 hstored)⟩
      · rintro ⟨⟨object, hshows⟩, hrange⟩
        have hiff := (hagrees row.id object (ObjectStore.getAt_of_some hsound hshows.read)
          hshows.named).2
        exact ⟨object, hshows, hiff.2 ((inRange_iff hshows.materialized field hlo hhi).1 hrange),
          rfl⟩

/-- At the last commit, in every state that a run reaches whose rollbacks restore the store, an index
answers like a scan exactly when the stored values agree with the projected ones. -/
theorem Engine.answersLikeScan_iff [PageSize] {engine : Engine H Id} (hfresh : engine.Fresh)
    {actions : List Action}
    (hmeets : Meets (fun engine action => engine.GoesThrough action ∧ engine.Restores action ∧
      engine.CoversNow action) actions engine)
    (hindex : Query.hasIndexFor (engine.run actions).store bound field = true)
    (lo hi : AttributeValue) :
    IndexAnswersLikeScan (engine.run actions).store bound (engine.run actions).publishedEpoch field
        lo hi ↔
      ProjectionAgrees (engine.run actions).store bound (engine.run actions).publishedEpoch field
        lo hi := by
  have hserving := servingNow_run hfresh hmeets
  exact indexAnswersLikeScan_iff hserving.sound.store fun _ _ hlo hhi =>
    hserving.readsExactly hindex hlo hhi

end MoDb.Store

namespace MoDb.Store.Engine

open Storage Index Selection MoDb.Query Mvcc

section DefaultBuild

attribute [local instance] PageSize.default Statement.ledgerStore

def creditAccount : BoundType (BitVec 64 × BitVec 64) where
  binding :=
    { typeName := "Account"
      fields :=
        [{ id := 1
           name := "balance"
           type := .int64
           store := fun object value => (balanceBinder.store object.1 value).map fun bits =>
             (bits, object.2)
           load := fun object => balanceBinder.load object.1
           load_store := by
             intro object value object' h
             cases value <;> cases h
             rfl },
         { id := 2
           name := "credit"
           type := .int64
           defaultValue := some (.int64 5)
           store := fun object value => (balanceBinder.store object.2 value).map fun bits =>
             (object.1, bits)
           load := fun object => balanceBinder.load object.2
           load_store := by
             intro object value object' h
             cases value <;> cases h
             rfl }]
      apart := by
        refine List.pairwise_pair.2 ⟨by decide, ?_, ?_⟩
        all_goals
          intro object value object' h
          cases value <;> cases h
          rfl }
  typeId := 1027

/-- An account is created before the type gets its new field and the field its index. -/
def creditIndexed : List Action :=
  [.begin,
    .registerType ⟨0, "Account", [{ id := 1, name := "balance", type := .int64, nullable := false }]⟩,
    .write (.create 1024 [(1, .int64 10)]),
    .registerType ⟨0, "Account", [{ id := 1, name := "balance", type := .int64, nullable := false },
      { id := 2, name := "credit", type := .int64, nullable := false,
        defaultValue := some (.int64 5) }]⟩,
    .createIndex 1027 2, .commit]

/-- The scan finds the account by its default credit, the index does not. -/
theorem not_indexAnswersLikeScan_of_creditIndexed :
    ¬IndexAnswersLikeScan (empty.run creditIndexed).store creditAccount 1 2 (.int64 5) (.int64 5) := by
  rintro ⟨found, found', hindex, hscan, hperm⟩
  have hnone : (runIndexStream (empty.run creditIndexed).store creditAccount 1 2 (.int64 5) (.int64 5)
      none 0).collect = .ok [] := rfl
  have hone : (runStream (empty.run creditIndexed).store creditAccount 1
      (some (inRange creditAccount 2 (.int64 5) (.int64 5))) 0).collect = .ok [⟨1026, (10, 5)⟩] := rfl
  rw [hnone] at hindex
  rw [hone] at hscan
  cases hindex
  cases hscan
  exact absurd hperm.length_eq (by decide)

/-- An account of each of two versions of the type, and an index on the field that both have. -/
def versionsIndexed : List Action :=
  [.begin,
    .registerType ⟨0, "Account", [{ id := 1, name := "balance", type := .int64, nullable := false }]⟩,
    .write (.create 1024 [(1, .int64 10)]), .commit, .begin,
    .registerType ⟨0, "Account", [{ id := 1, name := "balance", type := .int64, nullable := false },
      { id := 2, name := "credit", type := .int64, nullable := false,
        defaultValue := some (.int64 5) }]⟩,
    .createIndex 1027 1, .write (.create 1027 [(1, .int64 20), (2, .int64 7)]), .commit, .openSnapshot]

theorem restores_versionsIndexed : Meets Restores versionsIndexed empty :=
  ⟨trivial, trivial, trivial, trivial, trivial, trivial, trivial, trivial, trivial, trivial, trivial⟩

theorem mem_of_scanAt {store : ObjectStore (Ledger DecodedObject) Nat} (h : store.Sound) {epoch : Nat}
    {objects : List DecodedObject} (hscan : store.scanAt epoch = .ok objects) {id : ObjectId}
    {object : DecodedObject} (hget : store.getAt id epoch = .ok object) : object ∈ objects := by
  have hread := (ObjectStore.getAt_eq_ok h).1 hget
  obtain ⟨list, hlist, -, hmem⟩ := ObjectStore.scanAt_eq h epoch
  obtain ⟨hid, -⟩ := ObjectStore.id_of_readAt h hread
  rw [hlist] at hscan
  cases hscan
  exact (hmem object).2 (hid.symm ▸ hread)

def versionsRegistered : List Action := versionsIndexed.take 6

theorem meets_versionsIndexed {covers : Engine (Ledger DecodedObject) Nat → Action → Prop}
    (hother : ∀ engine action, (∀ type field, action ≠ .createIndex type field) → covers engine action)
    (hindex : covers (empty.run versionsRegistered) (.createIndex 1027 1)) :
    Meets (fun engine action => engine.GoesThrough action ∧ engine.Restores action ∧
      covers engine action) versionsIndexed empty := by
  refine ⟨⟨trivial, trivial, hother _ _ ?_⟩, ⟨trivial, trivial, hother _ _ ?_⟩,
    ⟨goesThrough_of_ok (by decide), trivial, hother _ _ ?_⟩, ⟨trivial, trivial, hother _ _ ?_⟩,
    ⟨trivial, trivial, hother _ _ ?_⟩, ⟨trivial, trivial, hother _ _ ?_⟩, ⟨trivial, trivial, hindex⟩,
    ⟨goesThrough_of_ok (by decide), trivial, hother _ _ ?_⟩, ⟨trivial, trivial, hother _ _ ?_⟩,
    ⟨trivial, trivial, hother _ _ ?_⟩, trivial⟩
  all_goals
    intro type field h
    cases h

theorem covers_balance {id : ObjectId} {object : DecodedObject}
    (hget : (empty.run versionsRegistered).store.getAt id 1 = .ok object) :
    Encodable object.fields 1 ∧ ∀ key, IndexedKey object.fields 1 key → ∃ current,
      (empty.run versionsRegistered).store.get id = .ok current ∧ IndexedKey current.fields 1 key := by
  have hmeets : Meets Restores versionsRegistered empty :=
    ⟨trivial, trivial, trivial, trivial, trivial, trivial, trivial⟩
  have hsound := (sound_run (sound_fresh fresh_empty) hmeets).store
  have hscan : (empty.run versionsRegistered).store.scanAt 1 = .ok [⟨1026, 1024, [(1, .int64 10)]⟩] := rfl
  have hin := mem_of_scanAt hsound hscan hget
  obtain ⟨hid, -⟩ := ObjectStore.id_of_readAt hsound ((ObjectStore.getAt_eq_ok hsound).1 hget)
  rw [List.mem_singleton.1 hin] at hid ⊢
  subst hid
  refine ⟨fun value hvalue _ => ?_, fun key hkey => ⟨_, rfl, hkey⟩⟩
  cases hvalue
  exact ⟨_, rfl⟩

theorem scanAt_versionsIndexed : (empty.run versionsIndexed).store.scanAt 2 =
    .ok [⟨1026, 1024, [(1, .int64 10)]⟩, ⟨1029, 1027, [(1, .int64 20), (2, .int64 7)]⟩] := rfl

/-- The balance is there in both versions. -/
theorem answersLikeScan_versionsIndexed : IndexAnswersLikeScan (empty.run versionsIndexed).store
    creditAccount 2 1 (.int64 10) (.int64 20) := by
  have hmeets : Meets (fun engine action => engine.GoesThrough action ∧ engine.Restores action ∧
      engine.CoversNow action) versionsIndexed empty := by
    refine meets_versionsIndexed (fun engine action hne => ?_) fun definition hfind id object hget _ =>
      covers_balance hget
    cases action with
    | createIndex type field => exact absurd rfl (hne type field)
    | _ => trivial
  refine (answersLikeScan_iff fresh_empty hmeets (by decide) (.int64 10) (.int64 20)).2 ?_
  refine ⟨[128, 0, 0, 0, 0, 0, 0, 10], [128, 0, 0, 0, 0, 0, 0, 20], rfl, rfl, ?_⟩
  intro id object hget _
  have hin := mem_of_scanAt (sound_run (sound_fresh fresh_empty) restores_versionsIndexed).store
    scanAt_versionsIndexed hget
  simp only [List.mem_cons, List.not_mem_nil, or_false] at hin
  rcases hin with rfl | rfl
  all_goals
    exact ⟨⟨_, rfl⟩, storedInRange_iff_of_copied rfl rfl rfl rfl rfl rfl rfl rfl _ _⟩

end DefaultBuild

end MoDb.Store.Engine
