import MoDb.Store.Snapshots

/-!
# Exact indexes

An index is exact when it has an entry for each current object of its type with a value in its field,
and no other. A write that gets through the indexes keeps them exact, and a backfill makes one.
-/

namespace MoDb.Store

open Effect Storage Index Mvcc

namespace ObjectStore

variable {H Id : Type} [DecidableEq Id] [RecordStore H Id DecodedObject Error NotFound]
  {store store' : ObjectStore H Id} {info info' : IndexInfo} {typeName : String} {id : ObjectId}
  {old new : Option DecodedObject} {epoch : Nat}

def HasKey (store : ObjectStore H Id) (typeName : String) (field : FieldId) (object : DecodedObject)
    (key : Bytes) : Prop :=
  store.TypeNamed object typeName ∧ IndexedKey object.fields field key

/-- The index has the keys of the current objects and no other entry. -/
structure Exact (store : ObjectStore H Id) (info : IndexInfo) : Prop where
  mem_iff : ∀ key id, (key, id) ∈ info.tree.entries ↔ ∃ object,
    store.cells.now id = some object ∧ store.HasKey info.typeName info.fieldId object key
  encodable : ∀ id object, store.cells.now id = some object →
    store.TypeNamed object info.typeName → Encodable object.fields info.fieldId

def IndexesExact (store : ObjectStore H Id) : Prop := ∀ info ∈ store.indexes.getD [], store.Exact info

theorem Exact.congr (h : store.Exact info) (hnow : store'.cells.now = store.cells.now)
    (htypes : ∀ id object, store.cells.now id = some object → ∀ name,
      store'.TypeNamed object name ↔ store.TypeNamed object name)
    (htypeName : info'.typeName = info.typeName) (hfield : info'.fieldId = info.fieldId)
    (htree : info'.tree = info.tree) : store'.Exact info' where
  mem_iff key id := by
    rw [htree, h.mem_iff key id, hnow, htypeName, hfield]
    apply exists_congr
    intro object
    apply and_congr_right
    intro hobject
    exact and_congr_left fun _ => (htypes id object hobject info.typeName).symm
  encodable id object hobject hnamed := by
    rw [hnow] at hobject
    rw [htypeName] at hnamed
    rw [hfield]
    exact h.encodable id object hobject ((htypes id object hobject info.typeName).1 hnamed)

/-! ### A pass that gets through -/

/-- `info'` is `info` without the entry of the old value and with that of the new one; a tree that
lost a key says so. -/
structure Reindexed (typeName : String) (id : ObjectId) (old new : Option DecodedObject) (epoch : Nat)
    (info info' : IndexInfo) : Prop where
  typeName_eq : info'.typeName = info.typeName
  fieldId_eq : info'.fieldId = info.fieldId
  mem_iff : ∀ entry, entry ∈ info'.tree.entries ↔
    (entry ∈ info.tree.entries ∧
      ∀ object, old = some object → ¬IsEntryOf typeName id object.fields info entry) ∨
    ∃ object, new = some object ∧ IsEntryOf typeName id object.fields info entry
  encodable : info.typeName = typeName → ∀ object, new = some object →
    Encodable object.fields info.fieldId
  removedEpoch_eq : info'.removedEpoch = some epoch ∨ info'.removedEpoch = info.removedEpoch ∧
    ∀ object, old = some object → ∀ entry ∈ info.tree.entries,
      ¬IsEntryOf typeName id object.fields info entry

theorem KeyRemoved.reindexed {object : DecodedObject}
    (h : KeyRemoved typeName id object.fields epoch info info') :
    Reindexed typeName id (some object) none epoch info info' where
  typeName_eq := h.typeName_eq
  fieldId_eq := h.fieldId_eq
  mem_iff entry := by
    rw [h.mem_iff entry]
    constructor
    · rintro ⟨hmem, hnot⟩
      exact .inl ⟨hmem, fun _ hsome => Option.some.inj hsome ▸ hnot⟩
    · rintro (⟨hmem, hnot⟩ | ⟨object, hnone, -⟩)
      · exact ⟨hmem, hnot object rfl⟩
      · cases hnone
  encodable _ _ hnone := by cases hnone
  removedEpoch_eq := by
    rcases h.removedEpoch_eq with hsame | hremoved
    · refine .inr ⟨congrArg _ hsame, fun _ hsome entry hmem => ?_⟩
      have hmem' := (h.mem_iff entry).1 (hsame.symm ▸ hmem)
      exact Option.some.inj hsome ▸ hmem'.2
    · exact .inl hremoved

theorem KeyInserted.reindexed {object : DecodedObject}
    (h : KeyInserted typeName id object.fields info info') :
    Reindexed typeName id none (some object) epoch info info' where
  typeName_eq := h.typeName_eq
  fieldId_eq := h.fieldId_eq
  mem_iff entry := by
    rw [h.mem_iff entry]
    constructor
    · rintro (hmem | hentry)
      · exact .inl ⟨hmem, nofun⟩
      · exact .inr ⟨object, rfl, hentry⟩
    · rintro (⟨hmem, -⟩ | ⟨object', hsome, hentry⟩)
      · exact .inl hmem
      · exact .inr (Option.some.inj hsome ▸ hentry)
  encodable htype _ hsome := Option.some.inj hsome ▸ h.encodable htype
  removedEpoch_eq := .inr ⟨h.removedEpoch_eq, nofun⟩

theorem Reindexed.refl (info : IndexInfo) : Reindexed typeName id none none epoch info info where
  typeName_eq := rfl
  fieldId_eq := rfl
  mem_iff entry := ⟨fun hmem => .inl ⟨hmem, nofun⟩, fun h => by
    rcases h with ⟨hmem, -⟩ | ⟨object, hnone, -⟩
    · exact hmem
    · cases hnone⟩
  encodable _ _ hnone := by cases hnone
  removedEpoch_eq := .inr ⟨rfl, nofun⟩

theorem Reindexed.trans {info'' : IndexInfo}
    (h : Reindexed typeName id old none epoch info info')
    (h' : Reindexed typeName id none new epoch info' info'') :
    Reindexed typeName id old new epoch info info'' := by
  have hentry : ∀ fields entry, IsEntryOf typeName id fields info' entry ↔
      IsEntryOf typeName id fields info entry := by
    intro fields entry
    unfold IsEntryOf
    rw [h.typeName_eq, h.fieldId_eq]
  refine ⟨h'.typeName_eq.trans h.typeName_eq, h'.fieldId_eq.trans h.fieldId_eq, fun entry => ?_,
    fun htype object hnew => ?_, ?_⟩
  · rw [h'.mem_iff entry]
    constructor
    · rintro (⟨hmem, -⟩ | ⟨object, hnew, hin⟩)
      · rcases (h.mem_iff entry).1 hmem with hleft | ⟨object, hnone, -⟩
        · exact .inl hleft
        · cases hnone
      · exact .inr ⟨object, hnew, (hentry _ _).1 hin⟩
    · rintro (hleft | ⟨object, hnew, hin⟩)
      · exact .inl ⟨(h.mem_iff entry).2 (.inl hleft), nofun⟩
      · exact .inr ⟨object, hnew, (hentry _ _).2 hin⟩
  · rw [← h.fieldId_eq]
    exact h'.encodable (h.typeName_eq.trans htype) object hnew
  · rcases h'.removedEpoch_eq with hremoved | ⟨hsame, -⟩
    · exact .inl hremoved
    · rw [hsame]
      exact h.removedEpoch_eq

omit [DecidableEq Id] [RecordStore H Id DecodedObject Error NotFound] in
theorem reindexed_of_ok [PageSize]
    (h : reindex typeName id old new store = .ok () store') :
    ∃ infos, store' = { store with indexes := infos } ∧
      List.Forall₂ (Reindexed typeName id old new store.transactionEpoch)
        (store.indexes.getD []) (infos.getD []) := by
  have hremoved : ∀ {state}, indexValue typeName id false old store = .ok () state →
      ∃ infos, state = { store with indexes := infos } ∧
        List.Forall₂ (Reindexed typeName id old none store.transactionEpoch)
          (store.indexes.getD []) (infos.getD []) := by
    intro state hold
    cases old with
    | none =>
      injection hold with _ hstate
      exact ⟨store.indexes, hstate.symm, List.forall₂_same.2 fun info _ => Reindexed.refl info⟩
    | some object =>
      obtain ⟨infos, hstate, -, hforall⟩ := indexMaintain_eq_ok hold
      exact ⟨infos, hstate, hforall.imp fun _ _ hround => (keyRemoved_of_ok hround).reindexed⟩
  have hinserted : ∀ {state}, indexValue typeName id true new state = .ok () store' →
      ∃ infos, store' = { state with indexes := infos } ∧
        List.Forall₂ (Reindexed typeName id none new store.transactionEpoch)
          (state.indexes.getD []) (infos.getD []) := by
    intro state hnew
    cases new with
    | none =>
      injection hnew with _ hstate
      exact ⟨state.indexes, hstate.symm, List.forall₂_same.2 fun info _ => Reindexed.refl info⟩
    | some object =>
      obtain ⟨infos, hstate, -, hforall⟩ := indexMaintain_eq_ok hnew
      exact ⟨infos, hstate, hforall.imp fun _ _ hround => (keyInserted_of_ok hround).reindexed⟩
  obtain ⟨⟨⟩, state, hold, hnew⟩ := bind_eq_ok h
  obtain ⟨infos, rfl, hforall⟩ := hremoved hold
  obtain ⟨infos', rfl, hforall'⟩ := hinserted hnew
  change List.Forall₂ (Reindexed typeName id none new store.transactionEpoch) (infos.getD [])
    (infos'.getD []) at hforall'
  refine ⟨infos', rfl, ?_⟩
  exact forall₂_trans (fun _ _ _ hround hround' => hround.trans hround') hforall hforall'

theorem Exact.reindexed {write : Write} {snapshots : List Nat} (h : store.Exact info)
    (hbinds : Binds snapshots store write typeName store')
    (hreindexed : Reindexed typeName (write.target store) (store.cells.now (write.target store))
      (write.value store) epoch info info') : store'.Exact info' := by
  have hnow : store'.cells.now =
      Function.update store.cells.now (write.target store) (write.value store) := by
    rw [hbinds.cells_eq, now_update]
    rfl
  have hnamed : ∀ object name, store'.TypeNamed object name ↔ store.TypeNamed object name :=
    typeNamed_congr hbinds.types_eq
  have hkey : ∀ object name field key,
      store'.HasKey name field object key ↔ store.HasKey name field object key :=
    fun object name field key => and_congr_left fun _ => hnamed object name
  refine ⟨fun key id => ?_, fun id object hobject hname => ?_⟩
  · rw [hreindexed.mem_iff, h.mem_iff, hnow, hreindexed.typeName_eq, hreindexed.fieldId_eq]
    simp only [hkey]
    by_cases hid : id = write.target store
    · subst hid
      rw [Function.update_self]
      constructor
      · rintro (⟨⟨object, hold, hname, hindexed⟩, hnot⟩ | ⟨object, hnew, htype, key', hindexed, heq⟩)
        · have htype := hname.unique (hbinds.old_named object hold)
          exact absurd ⟨htype, key, hindexed, rfl⟩ (hnot object hold)
        · injection heq with hsame
          exact ⟨object, hnew, htype ▸ hbinds.new_named object hnew, hsame ▸ hindexed⟩
      · rintro ⟨object, hnew, hname, hindexed⟩
        exact .inr ⟨object, hnew, hname.unique (hbinds.new_named object hnew), key, hindexed, rfl⟩
    · rw [Function.update_of_ne hid]
      constructor
      · rintro (⟨hmem, -⟩ | ⟨object, -, -, key', -, heq⟩)
        · exact hmem
        · injection heq with _ hsame
          exact absurd hsame hid
      · intro hmem
        refine .inl ⟨hmem, ?_⟩
        rintro object - ⟨-, key', -, heq⟩
        injection heq with _ hsame
        exact hid hsame
  · rw [hreindexed.typeName_eq, hnamed] at hname
    rw [hreindexed.fieldId_eq]
    rw [hnow] at hobject
    by_cases hid : id = write.target store
    · subst hid
      rw [Function.update_self] at hobject
      exact hreindexed.encodable (hname.unique (hbinds.new_named object hobject)) object hobject
    · rw [Function.update_of_ne hid] at hobject
      exact h.encodable id object hobject hname

/-! ### Backfill -/

omit [RecordStore H Id DecodedObject Error NotFound] in
theorem backfill_cons [PageSize] (store : ObjectStore H Id) (typeName : String) (field : FieldId)
    (record : Id × DecodedObject) (rest : List (Id × DecodedObject)) (tree : KeySet) :
    ((store.isCurrent record = true → store.TypeNamed record.2 typeName →
        ∀ value, fieldValue record.2.fields field = some value → value.isNull = true) ∧
      store.backfill typeName field (record :: rest) tree =
        store.backfill typeName field rest tree) ∨
    (store.isCurrent record = true ∧ store.TypeNamed record.2 typeName ∧ ∃ value,
      fieldValue record.2.fields field = some value ∧ value.isNull = false ∧
      store.backfill typeName field (record :: rest) tree = (do
        let key ← encodeKey value
        let tree ← tree.insert key record.2.id
        store.backfill typeName field rest tree)) := by
  rw [backfill.eq_2]
  by_cases hcurrent : store.isCurrent record = true
  · rw [if_neg (not_not.2 hcurrent)]
    cases htype : store.findType record.2.type with
    | error error =>
      refine .inl ⟨?_, rfl⟩
      rintro - ⟨type, hfound, -⟩
      rw [htype] at hfound
      cases hfound
    | ok type =>
      by_cases hname : type.name = typeName
      · simp only [hname, ne_eq, not_true_eq_false, if_false]
        have hnamed : store.TypeNamed record.2 typeName := ⟨type, htype, hname⟩
        cases hvalue : fieldValue record.2.fields field with
        | none =>
          refine .inl ⟨?_, rfl⟩
          rintro - - value hsome
          cases hsome
        | some value =>
          cases hnull : value.isNull with
          | true =>
            refine .inl ⟨?_, by simp only [hnull, if_true]⟩
            rintro - - value' hsome
            exact Option.some.inj hsome ▸ hnull
          | false =>
            refine .inr ⟨hcurrent, hnamed, value, rfl, hnull, ?_⟩
            simp only [hnull, Bool.false_eq_true, if_false]
      · refine .inl ⟨?_, by simp only [ne_eq, hname, not_false_eq_true, if_true]⟩
        rintro - ⟨type', hfound, hname'⟩
        rw [htype] at hfound
        injection hfound with heq
        exact absurd (heq ▸ hname') hname
  · exact .inl ⟨fun hcurrent' => absurd hcurrent' hcurrent, if_pos hcurrent⟩

omit [RecordStore H Id DecodedObject Error NotFound] in
theorem mem_backfill [PageSize] {field : FieldId} {records : List (Id × DecodedObject)}
    {tree tree' : KeySet} (h : store.backfill typeName field records tree = .ok tree') :
    (∀ key id, (key, id) ∈ tree'.entries ↔ (key, id) ∈ tree.entries ∨ ∃ record ∈ records,
      store.isCurrent record = true ∧ store.HasKey typeName field record.2 key ∧ record.2.id = id) ∧
    ∀ record ∈ records, store.isCurrent record = true → store.TypeNamed record.2 typeName →
      Encodable record.2.fields field := by
  induction records generalizing tree with
  | nil =>
    injection h with htree
    refine ⟨fun key id => ?_, fun record hin => absurd hin List.not_mem_nil⟩
    rw [htree]
    refine (or_iff_left ?_).symm
    rintro ⟨record, hin, -⟩
    exact absurd hin List.not_mem_nil
  | cons record rest ih =>
    rcases backfill_cons store typeName field record rest tree with
      ⟨hskip, hrun⟩ | ⟨hcurrent, hnamed, value, hvalue, hnull, hrun⟩
    · rw [hrun] at h
      obtain ⟨hmem, hencodable⟩ := ih h
      constructor
      · intro key id
        rw [hmem, List.exists_mem_cons_iff]
        apply or_congr_right
        refine (or_iff_right ?_).symm
        rintro ⟨hcurrent, ⟨hnamed, value, hvalue, hnull, -⟩, -⟩
        rw [hskip hcurrent hnamed value hvalue] at hnull
        cases hnull
      · intro found hin hcurrent hnamed
        rcases List.mem_cons.1 hin with rfl | hin
        · intro value hvalue hnull
          rw [hskip hcurrent hnamed value hvalue] at hnull
          cases hnull
        · exact hencodable found hin hcurrent hnamed
    · rw [hrun] at h
      obtain ⟨key, hkey, h⟩ := except_bind_eq_ok h
      obtain ⟨tree₁, htree, h⟩ := except_bind_eq_ok h
      obtain ⟨hmem, hencodable⟩ := ih h
      have hindexed : IndexedKey record.2.fields field key := ⟨value, hvalue, hnull, hkey⟩
      constructor
      · intro key' id
        rw [hmem, KeySet.mem_of_insert htree, List.exists_mem_cons_iff, or_assoc, or_left_comm]
        apply or_congr_right
        apply or_congr_left
        constructor
        · intro heq
          injection heq with hkeys hids
          exact ⟨hcurrent, ⟨hnamed, hkeys ▸ hindexed⟩, hids.symm⟩
        · rintro ⟨-, ⟨-, hindexed'⟩, rfl⟩
          rw [hindexed.unique hindexed']
      · intro found hin hcurrent' hnamed'
        rcases List.mem_cons.1 hin with rfl | hin
        · intro value' hvalue' hnull'
          rw [hvalue] at hvalue'
          exact ⟨key, Option.some.inj hvalue' ▸ hkey⟩
        · exact hencodable found hin hcurrent' hnamed'

theorem isCurrent_iff (h : store.Sound) {record : Id} {object : DecodedObject}
    (hcontent : RecordStore.content store.heap record = some object) :
    store.isCurrent (record, object) = true ↔ store.cells.now object.id = some object ∧
      ∃ entry, store.identity object.id = some entry ∧ entry.current = some record := by
  unfold isCurrent
  constructor
  · intro hcurrent
    split at hcurrent
    · rename_i location hfind
      have hlocation : location = record := of_decide_eq_true hcurrent
      subst hlocation
      obtain ⟨entry, hentry, hrecord⟩ := IdentityMap.find_eq_ok.1 hfind
      refine ⟨(get_eq_ok_iff h).1 ((get_eq_ok h).2 ⟨entry, location, hentry, hrecord, hcontent⟩),
        entry, hentry, hrecord⟩
    · cases hcurrent
  · rintro ⟨-, hentry⟩
    rw [IdentityMap.find_eq_ok.2 hentry]
    exact decide_eq_true rfl

theorem exact_backfill [PageSize] (h : store.Sound) {field : FieldId}
    {records : List (Id × DecodedObject)} {tree : KeySet}
    (hrecords : RecordStore.records store.heap = .ok records)
    (htree : store.backfill typeName field records KeySet.empty = .ok tree) :
    store.Exact { typeName := typeName, fieldId := field, tree := tree } := by
  obtain ⟨hmem, hencodable⟩ := mem_backfill htree
  obtain ⟨records', hrecords', -, hlist⟩ := RecordStore.records_eq h.heap
  rw [hrecords] at hrecords'
  injection hrecords' with hsame
  subst hsame
  have hcurrent : ∀ id object, store.cells.now id = some object → ∃ record,
      (record, object) ∈ records ∧ store.isCurrent (record, object) = true ∧ object.id = id := by
    intro id object hnow
    obtain ⟨hid, -⟩ := id_of_now h hnow
    obtain ⟨entry, record, hentry, hrecord, hcontent⟩ :=
      (get_eq_ok h).1 ((get_eq_ok_iff h).2 hnow)
    subst hid
    exact ⟨record, (hlist _ _).2 hcontent,
      (isCurrent_iff h hcontent).2 ⟨hnow, entry, hentry, hrecord⟩, rfl⟩
  refine ⟨fun key id => ?_, fun id object hnow hnamed => ?_⟩
  · rw [hmem]
    constructor
    · rintro (hempty | ⟨⟨record, object⟩, hin, hrecord, hkey, rfl⟩)
      · exact absurd hempty List.not_mem_nil
      · exact ⟨object, ((isCurrent_iff h ((hlist _ _).1 hin)).1 hrecord).1, hkey⟩
    · rintro ⟨object, hnow, hkey⟩
      obtain ⟨record, hin, hrecord, hid⟩ := hcurrent id object hnow
      exact .inr ⟨(record, object), hin, hrecord, hkey, hid⟩
  · obtain ⟨record, hin, hrecord, -⟩ := hcurrent id object hnow
    exact hencodable (record, object) hin hrecord hnamed

end ObjectStore

end MoDb.Store
