import MoDb.Store.Writes

/-!
# Garbage collection

A record is collected when no entry refers to it, or when it is a previous version that no open
snapshot needs. What is there for the readers stays as it was.
-/

namespace MoDb.Store.ObjectStore

open Effect Storage Index Mvcc

variable {H Id : Type} [DecidableEq Id] [RecordStore H Id DecodedObject Error NotFound]
  {store store' store'' : ObjectStore H Id} {snapshots : List Nat}

/-- Previous versions may be gone that no open snapshot needs, and nothing else that can be seen. -/
structure Collected (snapshots : List Nat) (store store' : ObjectStore H Id) : Prop
    extends Frame store store' where
  sound : store'.Sound
  cleared : Clears snapshots store.cells store'.cells
  indexes_eq : store'.indexes = store.indexes
  nextObjectId_eq : store'.nextObjectId = store.nextObjectId

theorem Collected.refl (h : store.Sound) : Collected snapshots store store :=
  ⟨⟨rfl, rfl, rfl, rfl⟩, h, .refl _, rfl, rfl⟩

def VictimOk (snapshots : List Nat) (store : ObjectStore H Id) (victim : Victim Id) : Prop :=
  if victim.isReferencedPrevious then
    ∃ entry, store.identity victim.id = some entry ∧
      entry.previous.map Prod.fst = some victim.record ∧
      ∀ epoch ∈ snapshots, entry.currentEpoch ≤ epoch
  else ∀ id, ¬store.Refers id victim.record

theorem Sound.of_entries (h : store.Sound) (hvalid : RecordStore.Valid store'.heap)
    (htypes : store'.types = store.types) (hnext : store'.nextObjectId = store.nextObjectId)
    (hentries : ∀ {id entry'}, store'.identity id = some entry' → ∃ entry,
      store.identity id = some entry ∧ entry'.current = entry.current ∧
      (entry'.previous = entry.previous ∨ entry'.previous = none))
    (hcontent : ∀ record id, store'.Refers id record →
      RecordStore.content store'.heap record = RecordStore.content store.heap record) :
    store'.Sound := by
  have hrefers : ∀ {id record}, store'.Refers id record → store'.Holds record id := by
    intro id record hrefers
    have hsame := hcontent record id hrefers
    obtain ⟨entry', hentry', hrecord⟩ := hrefers
    obtain ⟨entry, hentry, hcurrent, hprevious⟩ := hentries hentry'
    have hbefore : store.Refers id record := by
      refine ⟨entry, hentry, ?_⟩
      rcases hrecord with hrecord | hrecord
      · exact .inl (hcurrent ▸ hrecord)
      · rcases hprevious with hprevious | hprevious
        · exact .inr (hprevious ▸ hrecord)
        · rw [hprevious] at hrecord
          cases hrecord
    obtain ⟨object, hobject, hid, hregistered⟩ := h.holds_of_refers hbefore
    exact ⟨object, hsame.trans hobject, hid, (registered_congr htypes object).2 hregistered⟩
  refine ⟨hvalid, fun hentry hcurrent => hrefers ⟨_, hentry, .inl hcurrent⟩,
    fun hentry hprevious => hrefers ⟨_, hentry, .inr (by rw [hprevious]; rfl)⟩, ?_, ?_⟩
  · intro id entry' record epoch hentry' hprevious'
    obtain ⟨entry, hentry, hcurrent, hprevious | hprevious⟩ := hentries hentry'
    · rw [hcurrent]
      exact h.distinct hentry (hprevious ▸ hprevious')
    · rw [hprevious] at hprevious'
      cases hprevious'
  · intro id entry' hentry'
    obtain ⟨entry, hentry, -⟩ := hentries hentry'
    exact hnext ▸ h.bound_lt hentry

theorem collected_of_erase (h : store.Sound) {record : Id} {heap : H}
    (hunreferred : ∀ id, ¬store.Refers id record) (hvalid : RecordStore.Valid heap)
    (hcontent : ∀ other, other ≠ record →
      RecordStore.content heap other = RecordStore.content store.heap other) :
    Collected snapshots store { store with heap := heap } := by
  have hkept : ∀ other id, store.Refers id other →
      RecordStore.content heap other = RecordStore.content store.heap other :=
    fun other id hrefers => hcontent other fun heq => hunreferred id (heq ▸ hrefers)
  refine ⟨⟨rfl, rfl, rfl, rfl⟩, ?_, ?_, rfl, rfl⟩
  · exact h.of_entries hvalid rfl rfl (fun hentry => ⟨_, hentry, rfl, .inl rfl⟩) hkept
  · have hcells : ({ store with heap := heap } : ObjectStore H Id).cells = store.cells :=
      cells_congr rfl hkept
    rw [hcells]
    exact .refl _

def forgotten (store : ObjectStore H Id) (id : ObjectId) (entry : Entry Id) : ObjectStore H Id :=
  { store with identity := Function.update store.identity id (some { entry with previous := none }) }

omit [DecidableEq Id] [RecordStore H Id DecodedObject Error NotFound] in
theorem refers_forgotten {id id' : ObjectId} {entry : Entry Id} {record : Id}
    (hentry : store.identity id = some entry)
    (hrefers : (store.forgotten id entry).Refers id' record) : store.Refers id' record := by
  obtain ⟨entry', hentry', hrecord⟩ := hrefers
  change Function.update store.identity id _ id' = some entry' at hentry'
  by_cases hid : id' = id
  · subst hid
    rw [Function.update_self] at hentry'
    rw [← Option.some.inj hentry'] at hrecord
    rcases hrecord with hcurrent | hprevious
    · exact ⟨entry, hentry, .inl hcurrent⟩
    · cases hprevious
  · rw [Function.update_of_ne hid] at hentry'
    exact ⟨entry', hentry', hrecord⟩

theorem not_refers_forgotten (h : store.Sound) {id : ObjectId} {entry : Entry Id} {record : Id}
    (hentry : store.identity id = some entry)
    (hprevious : entry.previous.map Prod.fst = some record) (id' : ObjectId) :
    ¬(store.forgotten id entry).Refers id' record := by
  intro hrefers
  have hid : id' = id := (h.holds_of_refers (refers_forgotten hentry hrefers)).unique
    (h.holds_of_refers ⟨entry, hentry, .inr hprevious⟩)
  subst hid
  obtain ⟨entry', hentry', hrecord⟩ := hrefers
  change Function.update store.identity id' _ id' = some entry' at hentry'
  rw [Function.update_self] at hentry'
  rw [← Option.some.inj hentry'] at hrecord
  obtain ⟨⟨_, epoch⟩, hversion, rfl⟩ := Option.map_eq_some_iff.1 hprevious
  rcases hrecord with hcurrent | hnone
  · exact h.distinct hentry hversion hcurrent
  · cases hnone

theorem collected_forgotten (h : store.Sound) {id : ObjectId} {entry : Entry Id}
    (hentry : store.identity id = some entry)
    (hspare : ∀ epoch ∈ snapshots, entry.currentEpoch ≤ epoch) :
    Collected snapshots store (store.forgotten id entry) := by
  refine ⟨⟨rfl, rfl, rfl, rfl⟩, ?_, ?_, rfl, rfl⟩
  · refine h.of_entries h.heap rfl rfl ?_ fun _ _ _ => rfl
    intro id' entry' hentry'
    change Function.update store.identity id _ id' = some entry' at hentry'
    by_cases hid : id' = id
    · subst hid
      rw [Function.update_self] at hentry'
      rw [← Option.some.inj hentry']
      exact ⟨entry, hentry, rfl, .inr rfl⟩
    · rw [Function.update_of_ne hid] at hentry'
      exact ⟨entry', hentry', rfl, .inl rfl⟩
  · have hcells : (store.forgotten id entry).cells = Function.update store.cells id
        (some (cellOf (RecordStore.content store.heap) { entry with previous := none })) :=
      cells_update rfl fun _ _ _ _ => rfl
    rw [hcells]
    exact .head (cells_of_entry hentry) hspare (.refl _)

theorem Collected.trans (h : Collected snapshots store store')
    (h' : Collected snapshots store' store'') : Collected snapshots store store'' :=
  ⟨⟨h'.types_eq.trans h.types_eq, h'.epoch_eq.trans h.epoch_eq,
    h'.openedEpoch_eq.trans h.openedEpoch_eq, h'.inTransaction_eq.trans h.inTransaction_eq⟩,
    h'.sound, h.cleared.trans h'.cleared, h'.indexes_eq.trans h.indexes_eq,
    h'.nextObjectId_eq.trans h.nextObjectId_eq⟩

theorem eraseRecord_collected (snapshots : List Nat) (h : store.Sound) {record : Id}
    (hunreferred : ∀ id, ¬store.Refers id record) :
    Collected snapshots store (after (eraseRecord record store)) ∧
      (after (eraseRecord record store)).identity = store.identity := by
  cases herase : RecordStore.erase record store.heap with
  | ok value heap =>
    obtain ⟨hvalid, hcontent⟩ := RecordStore.erase_ok h.heap herase
    rw [eraseRecord_ok herase]
    refine ⟨collected_of_erase h hunreferred hvalid fun other hother => ?_, rfl⟩
    rw [hcontent, Function.update_of_ne hother]
  | error error heap =>
    obtain ⟨hvalid, hcontent, -⟩ := RecordStore.erase_error h.heap herase
    have hcollected : Collected snapshots store { store with heap := heap } :=
      collected_of_erase h hunreferred hvalid fun other _ => by rw [hcontent]
    by_cases hcode : NotFound error
    · rw [eraseRecord_absent herase hcode]
      exact ⟨hcollected, rfl⟩
    · rw [eraseRecord_error herase hcode]
      exact ⟨hcollected, rfl⟩

theorem collect_collected (h : store.Sound) {victim : Victim Id}
    (hvictim : VictimOk snapshots store victim) :
    Collected snapshots store (after (collect victim store)) ∧
      ∀ other : Victim Id, other.record ≠ victim.record → VictimOk snapshots store other →
        VictimOk snapshots (after (collect victim store)) other := by
  unfold collect
  unfold VictimOk at hvictim
  cases hreferenced : victim.isReferencedPrevious with
  | false =>
    rw [hreferenced, if_neg Bool.false_ne_true] at hvictim
    obtain ⟨hcollected, hidentity⟩ := eraseRecord_collected snapshots h hvictim
    refine ⟨hcollected, fun other _ hother => ?_⟩
    unfold VictimOk Refers at hother ⊢
    change if other.isReferencedPrevious then
      ∃ entry, (after (eraseRecord victim.record store)).identity other.id = some entry ∧ _ else
      ∀ id, ¬∃ entry, (after (eraseRecord victim.record store)).identity id = some entry ∧ _
    rw [hidentity]
    exact hother
  | true =>
    rw [hreferenced, if_pos rfl] at hvictim
    obtain ⟨entry, hentry, hprevious, hspare⟩ := hvictim
    rw [if_pos rfl]
    cases hfault : store.entryFault victim.id with
    | some error =>
      rw [bind_of_error (onIdentity_fault store hfault _)]
      exact ⟨.refl h, fun _ _ hother => hother⟩
    | none =>
      have hclear : store.identity.clearPrevious victim.id =
          .ok (store.forgotten victim.id entry).identity := by
        unfold IdentityMap.clearPrevious
        rw [hentry]
        rfl
      have hforget : onIdentity victim.id (fun map => map.clearPrevious victim.id) store =
          .ok () (store.forgotten victim.id entry) := onIdentity_ok hfault hclear
      rw [bind_of_ok hforget]
      have hforgotten := collected_forgotten h hentry hspare
      obtain ⟨hcollected, hidentity⟩ := eraseRecord_collected snapshots
        hforgotten.sound (not_refers_forgotten h hentry hprevious)
      refine ⟨hforgotten.trans hcollected, fun other hne hother => ?_⟩
      unfold VictimOk at hother ⊢
      by_cases hother_referenced : other.isReferencedPrevious = true
      · rw [if_pos hother_referenced] at hother ⊢
        obtain ⟨entry', hentry', hprevious', hspare'⟩ := hother
        have hid : other.id ≠ victim.id := by
          intro heq
          rw [heq, hentry] at hentry'
          rw [← Option.some.inj hentry', hprevious] at hprevious'
          exact hne (Option.some.inj hprevious').symm
        refine ⟨entry', ?_, hprevious', hspare'⟩
        rw [hidentity]
        exact (Function.update_of_ne hid _ _).trans hentry'
      · rw [if_neg hother_referenced] at hother ⊢
        rintro id ⟨entry', hentry', hrecord⟩
        rw [hidentity] at hentry'
        exact hother id (refers_forgotten hentry ⟨entry', hentry', hrecord⟩)

theorem collect_all (h : store.Sound) {victims : List (Victim Id)}
    (hnodup : (victims.map Victim.record).Nodup)
    (hvictims : ∀ victim ∈ victims, VictimOk snapshots store victim) :
    Collected snapshots store (after (victims.forM collect store)) := by
  induction victims generalizing store with
  | nil => exact .refl h
  | cons victim rest ih =>
    obtain ⟨hcollected, hothers⟩ := collect_collected h (hvictims victim List.mem_cons_self)
    obtain ⟨hnot, hnodup⟩ := List.nodup_cons.1 hnodup
    change Collected snapshots store
      (after ((collect victim >>= fun _ => rest.forM collect) store))
    cases hrun : collect victim store with
    | error error state =>
      rw [hrun] at hcollected
      rw [bind_of_error hrun]
      exact hcollected
    | ok value state =>
      rw [hrun] at hcollected hothers
      rw [bind_of_ok hrun]
      refine hcollected.trans (ih hcollected.sound hnodup fun other hother => ?_)
      refine hothers other (fun heq => hnot ?_) (hvictims other (List.mem_cons_of_mem _ hother))
      exact heq ▸ List.mem_map_of_mem hother

theorem victimOk_of_victim {record : Id} {object : DecodedObject} {victim : Victim Id}
    (h : store.Sound) (hcontent : RecordStore.content store.heap record = some object)
    (hvictim : store.victim snapshots.min? (record, object) = some victim) :
    victim.record = record ∧ VictimOk snapshots store victim := by
  have hunreferred : (∀ entry, store.identity object.id = some entry →
      entry.current ≠ some record ∧ entry.previous.map Prod.fst ≠ some record) →
        ∀ id, ¬store.Refers id record := by
    intro hnot id hrefers
    obtain ⟨found, hfound, hid, -⟩ := h.holds_of_refers hrefers
    rw [hcontent] at hfound
    rw [← Option.some.inj hfound] at hid
    obtain ⟨entry, hentry, hcurrent | hprevious⟩ := hrefers
    · exact (hnot entry (hid ▸ hentry)).1 hcurrent
    · exact (hnot entry (hid ▸ hentry)).2 hprevious
  unfold ObjectStore.victim IdentityMap.inspect at hvictim
  unfold VictimOk
  cases hentry : store.identity object.id with
  | none =>
    rw [hentry] at hvictim
    rw [← Option.some.inj hvictim, if_neg Bool.false_ne_true]
    refine ⟨rfl, hunreferred fun entry hentry' => ?_⟩
    rw [hentry] at hentry'
    cases hentry'
  | some entry =>
    simp only [hentry] at hvictim
    by_cases hcurrent : entry.current = some record
    · rw [if_pos hcurrent] at hvictim
      cases hvictim
    rw [if_neg hcurrent] at hvictim
    by_cases hprevious : entry.previous.map Prod.fst = some record
    · rw [if_pos hprevious] at hvictim
      by_cases hold : snapshots.min?.all fun oldest => decide (entry.currentEpoch ≤ oldest)
      · rw [if_pos hold] at hvictim
        rw [← Option.some.inj hvictim, if_pos rfl]
        refine ⟨rfl, entry, hentry, hprevious, fun epoch hepoch => ?_⟩
        obtain ⟨oldest, holdest⟩ : ∃ oldest, snapshots.min? = some oldest :=
          Option.isSome_iff_exists.1 (List.isSome_min?_of_mem hepoch)
        rw [holdest] at hold
        exact Nat.le_trans (of_decide_eq_true hold) ((List.min?_eq_some_iff.1 holdest).2 epoch hepoch)
      · rw [if_neg hold] at hvictim
        cases hvictim
    · rw [if_neg hprevious] at hvictim
      rw [← Option.some.inj hvictim, if_neg Bool.false_ne_true]
      refine ⟨rfl, hunreferred fun entry' hentry' => ?_⟩
      rw [hentry] at hentry'
      exact Option.some.inj hentry' ▸ ⟨hcurrent, hprevious⟩

omit [RecordStore H Id DecodedObject Error NotFound] in
theorem victims_sublist (store : ObjectStore H Id) (oldest : Option Nat)
    (records : List (Id × DecodedObject)) :
    ((records.filterMap (store.victim oldest)).map Victim.record).Sublist (records.map Prod.fst) := by
  have hrecord : ∀ record victim, store.victim oldest record = some victim →
      victim.record = record.1 := by
    intro record victim hvictim
    unfold ObjectStore.victim at hvictim
    split at hvictim
    · rw [← Option.some.inj hvictim]
    · split at hvictim
      · cases hvictim
      · split at hvictim
        · split at hvictim
          · rw [← Option.some.inj hvictim]
          · cases hvictim
        · rw [← Option.some.inj hvictim]
  induction records with
  | nil => exact List.Sublist.slnil
  | cons record rest ih =>
    cases hvictim : store.victim oldest record with
    | none =>
      rw [List.filterMap_cons_none hvictim]
      exact ih.cons _
    | some victim =>
      rw [List.filterMap_cons_some hvictim, List.map_cons, List.map_cons, hrecord record victim hvictim]
      exact ih.cons_cons _

theorem collectGarbage_collected (h : store.Sound) :
    Collected snapshots store (after (ObjectStore.collectGarbage snapshots.min? store)) := by
  unfold ObjectStore.collectGarbage
  rw [get_bind_run', ite_run]
  by_cases htx : store.inTransaction = true
  · rw [if_neg (not_not.2 htx)]
    obtain ⟨records, hrecords, hnodup, hmem⟩ := RecordStore.records_eq h.heap
    rw [hrecords, check_ok_bind]
    have hcollected : Collected snapshots store
        (after ((records.filterMap (store.victim snapshots.min?)).forM collect store)) := by
      apply collect_all h
      · exact hnodup.sublist (victims_sublist store snapshots.min? records)
      · intro victim hvictim
        obtain ⟨⟨record, object⟩, hrecord, hsome⟩ := List.mem_filterMap.1 hvictim
        exact (victimOk_of_victim h ((hmem record object).1 hrecord) hsome).2
    rw [after_bind_pure]
    exact hcollected
  · rw [if_pos htx]
    exact .refl h

end MoDb.Store.ObjectStore
