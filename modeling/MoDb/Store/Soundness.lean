import MoDb.Store.Outcomes

/-!
# Every operation keeps the store sound

Also one that fails midway: what is left undone then is only the maintenance of the indexes.
-/

namespace MoDb.Store.ObjectStore

open Effect Storage Index

variable {H Id : Type} [DecidableEq Id] [RecordStore H Id DecodedObject Error NotFound]
  {store store' : ObjectStore H Id}

omit [DecidableEq Id] [RecordStore H Id DecodedObject Error NotFound] in
theorem findType_congr (htypes : store'.types = store.types) : store'.findType = store.findType := by
  funext type
  unfold findType
  rw [htypes]

omit [DecidableEq Id] [RecordStore H Id DecodedObject Error NotFound] in
theorem registered_congr (htypes : store'.types = store.types) (object : DecodedObject) :
    store'.Registered object ↔ store.Registered object := by
  unfold Registered
  rw [findType_congr htypes]

theorem Holds.of_extends {record : Id} {id : ObjectId} (h : store.Holds record id)
    (hextends : store.Extends store') (htypes : store'.types = store.types) :
    store'.Holds record id := by
  obtain ⟨object, hcontent, hid, hregistered⟩ := h
  exact ⟨object, hextends record object hcontent, hid, (registered_congr htypes object).2 hregistered⟩

theorem Holds.unique {record : Id} {id id' : ObjectId} (h : store.Holds record id)
    (h' : store.Holds record id') : id = id' := by
  obtain ⟨object, hcontent, hid, -⟩ := h
  obtain ⟨object', hcontent', hid', -⟩ := h'
  rw [hcontent] at hcontent'
  rw [← hid, ← hid', Option.some.inj hcontent']

theorem Sound.of_extends (h : store.Sound) (hvalid : RecordStore.Valid store'.heap)
    (hextends : store.Extends store') (hidentity : store'.identity = store.identity)
    (htypes : store'.types = store.types) (hnext : store.nextObjectId ≤ store'.nextObjectId) :
    store'.Sound where
  heap := hvalid
  current hentry hcurrent := by
    rw [hidentity] at hentry
    exact (h.current hentry hcurrent).of_extends hextends htypes
  previous hentry hprevious := by
    rw [hidentity] at hentry
    exact (h.previous hentry hprevious).of_extends hextends htypes
  distinct hentry hprevious := by
    rw [hidentity] at hentry
    exact h.distinct hentry hprevious
  bound_lt hentry := by
    rw [hidentity] at hentry
    exact Nat.lt_of_lt_of_le (h.bound_lt hentry) hnext

theorem Sound.congr (h : store.Sound) (hheap : store'.heap = store.heap)
    (hidentity : store'.identity = store.identity) (htypes : store'.types = store.types)
    (hnext : store.nextObjectId ≤ store'.nextObjectId) : store'.Sound :=
  h.of_extends (hheap ▸ h.heap) (fun _ _ hcontent => hheap ▸ hcontent) hidentity htypes
    hnext

/-! ### Indexes -/

omit [DecidableEq Id] [RecordStore H Id DecodedObject Error NotFound] in
theorem after_indexMaintain [PageSize] (typeName : String) (id : ObjectId) (fields : FieldValues)
    (insert : Bool) (store : ObjectStore H Id) :
    ∃ infos, after (indexMaintain typeName id fields insert store) = { store with indexes := infos } := by
  cases hindexes : store.indexes with
  | none =>
    rw [indexMaintain_none store hindexes]
    exact ⟨store.indexes, rfl⟩
  | some infos =>
    unfold indexMaintain
    rw [hindexes]
    cases hrun : maintainIndexes typeName id fields insert store.transactionEpoch infos with
    | mk infos' error =>
      simp only [hrun]
      cases error with
      | none => exact ⟨some infos', rfl⟩
      | some error => exact ⟨some infos', rfl⟩

omit [DecidableEq Id] [RecordStore H Id DecodedObject Error NotFound] in
theorem indexMaintain_eq_ok [PageSize] {typeName : String} {id : ObjectId} {fields : FieldValues}
    {insert : Bool} {store store' : ObjectStore H Id}
    (h : indexMaintain typeName id fields insert store = .ok () store') :
    ∃ infos, store' = { store with indexes := infos } ∧
      infos.isSome = store.indexes.isSome ∧
      List.Forall₂ (fun info info' =>
        maintainIndex typeName id fields insert store.transactionEpoch info = .ok info')
        (store.indexes.getD []) (infos.getD []) := by
  cases hindexes : store.indexes with
  | none =>
    rw [indexMaintain_none store hindexes] at h
    injection h with _ hstore
    exact ⟨store.indexes, hstore.symm, by rw [hindexes], by rw [hindexes]; exact .nil⟩
  | some infos =>
    unfold indexMaintain at h
    simp only [hindexes] at h
    split at h
    · rename_i infos' hrun
      injection h with _ hstore
      exact ⟨some infos', hstore.symm, rfl, forall₂_of_maintainIndexes hrun⟩
    · injection h

omit [DecidableEq Id] [RecordStore H Id DecodedObject Error NotFound] in
theorem indexMaintain_ok [PageSize] {typeName : String} {id : ObjectId} {fields : FieldValues}
    {insert : Bool} (store : ObjectStore H Id)
    (h : ∀ info ∈ store.indexes.getD [], ∃ info',
      maintainIndex typeName id fields insert store.transactionEpoch info = .ok info') :
    ∃ store', indexMaintain typeName id fields insert store = .ok () store' := by
  cases hindexes : store.indexes with
  | none => exact ⟨store, indexMaintain_none store hindexes _ _ _ _⟩
  | some infos =>
    rw [hindexes] at h
    have hnone : (maintainIndexes typeName id fields insert store.transactionEpoch infos).2 = none := by
      rw [← Option.not_isSome_iff_eq_none, maintainIndexes_error_iff]
      rintro ⟨info, hinfo, hnot⟩
      exact hnot (h info hinfo)
    unfold indexMaintain
    simp only [hindexes]
    split
    · exact ⟨_, rfl⟩
    · rename_i infos' error hrun
      rw [hrun] at hnone
      cases hnone

omit [DecidableEq Id] [RecordStore H Id DecodedObject Error NotFound] in
theorem after_reindex [PageSize] (typeName : String) (id : ObjectId) (old fields : FieldValues)
    (store : ObjectStore H Id) :
    ∃ infos, after ((indexMaintain typeName id old false >>= fun _ =>
      indexMaintain typeName id fields true) store) = { store with indexes := infos } := by
  obtain ⟨infos, hinfos⟩ := after_indexMaintain typeName id old false store
  cases hrun : indexMaintain typeName id old false store with
  | error error state =>
    rw [bind_of_error hrun]
    rw [hrun] at hinfos
    exact ⟨infos, hinfos⟩
  | ok value state =>
    rw [bind_of_ok hrun]
    rw [hrun] at hinfos
    obtain ⟨infos', hinfos'⟩ := after_indexMaintain typeName id fields true state
    have hstate : state = { store with indexes := infos } := hinfos
    exact ⟨infos', hinfos'.trans (by rw [hstate])⟩

theorem Sound.withIndexes (h : store.Sound) (infos : Option (List IndexInfo)) :
    Sound { store with indexes := infos } := h.congr rfl rfl rfl (Nat.le_refl _)

/-! ### Statements -/

theorem Sound.bound (h : store.Sound) {type : TypeDefinition} {fields : FieldValues} {location : Id}
    {heap : H} (hinsert : RecordStore.insert (⟨store.nextObjectId, type.id, fields⟩ : DecodedObject)
      store.heap = .ok location heap)
    (htype : store.findType type.id = .ok type) : (store.bound location heap).Sound := by
  obtain ⟨hvalid, hfree, hcontent⟩ := RecordStore.insert_ok h.heap hinsert
  have hextends : store.Extends (store.bound location heap) := by
    intro record object hrecord
    have hne : record ≠ location := by
      rintro rfl
      rw [hfree] at hrecord
      cases hrecord
    change RecordStore.content heap record = some object
    rw [hcontent, Function.update_of_ne hne, hrecord]
  have hnew : (store.bound location heap).Holds location store.nextObjectId := by
    refine ⟨⟨store.nextObjectId, type.id, fields⟩, ?_, rfl, type, ?_⟩
    · change RecordStore.content heap location = _
      rw [hcontent, Function.update_self]
    · exact (congrFun (findType_congr rfl) type.id).trans htype
  refine ⟨hvalid, ?_, ?_, ?_, ?_⟩
  · intro id entry record hentry hcurrent
    change Function.update store.identity _ _ id = _ at hentry
    by_cases hid : id = store.nextObjectId
    · rw [hid, Function.update_self] at hentry
      cases hentry
      cases hcurrent
      exact hid ▸ hnew
    · rw [Function.update_of_ne hid] at hentry
      exact (h.current hentry hcurrent).of_extends hextends rfl
  · intro id entry record epoch hentry hprevious
    change Function.update store.identity _ _ id = _ at hentry
    by_cases hid : id = store.nextObjectId
    · rw [hid, Function.update_self] at hentry
      cases hentry
      cases hprevious
    · rw [Function.update_of_ne hid] at hentry
      exact (h.previous hentry hprevious).of_extends hextends rfl
  · intro id entry record epoch hentry hprevious
    change Function.update store.identity _ _ id = _ at hentry
    by_cases hid : id = store.nextObjectId
    · rw [hid, Function.update_self] at hentry
      cases hentry
      cases hprevious
    · rw [Function.update_of_ne hid] at hentry
      exact h.distinct hentry hprevious
  · intro id entry hentry
    change Function.update store.identity _ _ id = _ at hentry
    by_cases hid : id = store.nextObjectId
    · exact hid ▸ Nat.lt_succ_self _
    · rw [Function.update_of_ne hid] at hentry
      exact Nat.lt_succ_of_lt (h.bound_lt hentry)

theorem Replaced.holds {id id' : ObjectId} {old location record : Id} {entry : Entry Id}
    {object : DecodedObject} {heap : H}
    (hreplaced : store.Replaced entry location object heap) (hholds : store.Holds record id')
    (hkept : entry.previous.map Prod.fst ≠ some record) :
    (store.rebound id location heap old entry).Holds record id' := by
  obtain ⟨found, hfound, hid, hregistered⟩ := hholds
  have hne : record ≠ location := by
    rintro rfl
    rw [hreplaced.fresh] at hfound
    cases hfound
  refine ⟨found, ?_, hid, (registered_congr rfl found).2 hregistered⟩
  exact (hreplaced.content_of_ne record hne hkept).trans hfound

theorem Sound.rebound (h : store.Sound) {id : ObjectId} {type : TypeDefinition}
    {fields : FieldValues} {old location : Id} {entry : Entry Id} {heap : H}
    (hlive : store.identity.live id = .ok (old, entry))
    (hreplaced : store.Replaced entry location ⟨id, type.id, fields⟩ heap)
    (htype : store.findType type.id = .ok type) :
    (store.rebound id location heap old entry).Sound := by
  obtain ⟨hentry, hcurrent⟩ := IdentityMap.live_eq_ok.1 hlive
  have hnew : (store.rebound id location heap old entry).Holds location id := by
    refine ⟨⟨id, type.id, fields⟩, ?_, rfl, type, ?_⟩
    · exact hreplaced.content_self
    · exact (congrFun (findType_congr rfl) type.id).trans htype
  have hother : ∀ {id' record}, id' ≠ id → store.Holds record id' →
      (store.rebound id location heap old entry).Holds record id' := by
    intro id' record hne hholds
    refine hreplaced.holds hholds fun hprevious => hne ?_
    obtain ⟨⟨record', epoch⟩, hsome, hrecord⟩ := Option.map_eq_some_iff.1 hprevious
    change record' = record at hrecord
    subst hrecord
    exact hholds.unique (h.previous hentry hsome)
  have hold : (store.rebound id location heap old entry).Holds old id := by
    refine hreplaced.holds (h.current hentry hcurrent) fun hprevious => ?_
    obtain ⟨⟨record', epoch⟩, hsome, hrecord⟩ := Option.map_eq_some_iff.1 hprevious
    change record' = old at hrecord
    subst hrecord
    exact h.distinct hentry hsome hcurrent
  refine ⟨hreplaced.valid, ?_, ?_, ?_, ?_⟩
  · intro id' entry' record hentry' hcurrent'
    change Function.update store.identity _ _ id' = _ at hentry'
    by_cases hid : id' = id
    · rw [hid, Function.update_self] at hentry'
      cases hentry'
      cases hcurrent'
      exact hid ▸ hnew
    · rw [Function.update_of_ne hid] at hentry'
      exact hother hid (h.current hentry' hcurrent')
  · intro id' entry' record epoch hentry' hprevious
    change Function.update store.identity _ _ id' = _ at hentry'
    by_cases hid : id' = id
    · rw [hid, Function.update_self] at hentry'
      cases hentry'
      cases hprevious
      exact hid ▸ hold
    · rw [Function.update_of_ne hid] at hentry'
      exact hother hid (h.previous hentry' hprevious)
  · intro id' entry' record epoch hentry' hprevious
    change Function.update store.identity _ _ id' = _ at hentry'
    by_cases hid : id' = id
    · rw [hid, Function.update_self] at hentry'
      cases hentry'
      cases hprevious
      intro heq
      obtain ⟨found, hfound, -⟩ := h.current hentry hcurrent
      rw [← Option.some.inj heq, hreplaced.fresh] at hfound
      cases hfound
    · rw [Function.update_of_ne hid] at hentry'
      exact h.distinct hentry' hprevious
  · intro id' entry' hentry'
    change Function.update store.identity _ _ id' = _ at hentry'
    by_cases hid : id' = id
    · rw [hid]
      exact h.bound_lt hentry
    · rw [Function.update_of_ne hid] at hentry'
      exact h.bound_lt hentry'

theorem Sound.erased (h : store.Sound) {id : ObjectId} {old : Id} {entry : Entry Id}
    (hlive : store.identity.live id = .ok (old, entry)) : (store.erased id old entry).Sound := by
  obtain ⟨hentry, hcurrent⟩ := IdentityMap.live_eq_ok.1 hlive
  have hkeep : ∀ {record id'}, store.Holds record id' →
      (store.erased id old entry).Holds record id' :=
    fun hholds => hholds.of_extends (fun _ _ hcontent => hcontent) rfl
  have hold := hkeep (h.current hentry hcurrent)
  refine ⟨h.heap, ?_, ?_, ?_, ?_⟩
  · intro id' entry' record hentry' hcurrent'
    change Function.update store.identity _ _ id' = _ at hentry'
    by_cases hid : id' = id
    · rw [hid, Function.update_self] at hentry'
      cases hentry'
      cases hcurrent'
    · rw [Function.update_of_ne hid] at hentry'
      exact hkeep (h.current hentry' hcurrent')
  · intro id' entry' record epoch hentry' hprevious
    change Function.update store.identity _ _ id' = _ at hentry'
    by_cases hid : id' = id
    · rw [hid, Function.update_self] at hentry'
      cases hentry'
      cases hprevious
      exact hid ▸ hold
    · rw [Function.update_of_ne hid] at hentry'
      exact hkeep (h.previous hentry' hprevious)
  · intro id' entry' record epoch hentry' hprevious
    change Function.update store.identity _ _ id' = _ at hentry'
    by_cases hid : id' = id
    · rw [hid, Function.update_self] at hentry'
      cases hentry'
      intro heq
      cases heq
    · rw [Function.update_of_ne hid] at hentry'
      exact h.distinct hentry' hprevious
  · intro id' entry' hentry'
    change Function.update store.identity _ _ id' = _ at hentry'
    by_cases hid : id' = id
    · rw [hid]
      exact h.bound_lt hentry
    · rw [Function.update_of_ne hid] at hentry'
      exact h.bound_lt hentry'

end MoDb.Store.ObjectStore
