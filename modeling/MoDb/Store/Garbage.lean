import MoDb.Store.Snapshots

/-!
# What a collection leaves

A reader gets after a collection what it got before. A collection that returns has erased every
record but the current versions and the previous versions that an open snapshot may still need, so
the next one finds nothing.
-/

namespace MoDb.Store

open Effect Storage Index Mvcc

variable {H Id : Type} [DecidableEq Id] [RecordStore H Id DecodedObject Error NotFound]

namespace ObjectStore

variable {store store' : ObjectStore H Id}

/-! ### The loop -/

def cleared (entry : Entry Id) : Entry Id := { entry with previous := none }

/-- What the records and the entries are once the victims are gone. -/
structure Erased (victims : List (Victim Id)) (store store' : ObjectStore H Id) : Prop where
  valid : RecordStore.Valid store'.heap
  content : ∀ record, RecordStore.content store'.heap record =
    if record ∈ victims.map Victim.record then none else RecordStore.content store.heap record
  identity : ∀ id, store'.identity id =
    if ∃ victim ∈ victims, victim.isReferencedPrevious = true ∧ victim.id = id then
      (store.identity id).map cleared
    else store.identity id

theorem Erased.nil (h : RecordStore.Valid store.heap) : Erased [] store store :=
  ⟨h, fun _ => rfl, fun _ => by simp⟩

theorem erased_eraseRecord {record : Id} (h : RecordStore.Valid store.heap)
    (hrun : eraseRecord record store = .ok () store') :
    RecordStore.Valid store'.heap ∧ store'.identity = store.identity ∧
      RecordStore.content store'.heap = Function.update (RecordStore.content store.heap) record none := by
  cases herase : RecordStore.erase record store.heap with
  | ok value heap =>
    rw [eraseRecord_ok herase] at hrun
    injection hrun with _ hstore
    obtain ⟨hvalid, hcontent⟩ := RecordStore.erase_ok h herase
    exact hstore ▸ ⟨hvalid, rfl, hcontent⟩
  | error error heap =>
    obtain ⟨hvalid, hcontent, habsent⟩ := RecordStore.erase_error h herase
    by_cases hcode : NotFound error
    · rw [eraseRecord_absent herase hcode] at hrun
      injection hrun with _ hstore
      refine hstore ▸ ⟨hvalid, rfl, ?_⟩
      change RecordStore.content heap = _
      rw [hcontent, ← habsent hcode, Function.update_eq_self]
    · rw [eraseRecord_error herase hcode] at hrun
      injection hrun

theorem erased_collect {victim : Victim Id} (h : RecordStore.Valid store.heap)
    (hrun : collect victim store = .ok () store') : Erased [victim] store store' := by
  have hmem : ∀ record, record ∈ [victim].map Victim.record ↔ record = victim.record := by simp
  have hcontent : ∀ {heap heap' : H}, RecordStore.content heap' =
      Function.update (RecordStore.content heap) victim.record none → ∀ record,
        RecordStore.content heap' record =
          if record ∈ [victim].map Victim.record then none else RecordStore.content heap record := by
    intro heap heap' heq record
    rw [heq]
    by_cases hrecord : record = victim.record
    · rw [hrecord, Function.update_self, if_pos (by simp)]
    · rw [Function.update_of_ne hrecord, if_neg (by simpa using hrecord)]
  unfold collect at hrun
  by_cases hreferenced : victim.isReferencedPrevious = true
  · rw [if_pos hreferenced] at hrun
    obtain ⟨value, middle, hforget, herase⟩ := bind_eq_ok hrun
    unfold onIdentity IdentityMap.clearPrevious at hforget
    split at hforget
    · injection hforget
    · cases hentry : store.identity victim.id with
      | none =>
        simp only [hentry] at hforget
        injection hforget
      | some entry =>
        simp only [hentry] at hforget
        injection hforget with _ hmiddle
        subst hmiddle
        have hforgotten : RecordStore.Valid (store.forgotten victim.id entry).heap := h
        obtain ⟨hvalid, hidentity, herased⟩ := erased_eraseRecord hforgotten herase
        refine ⟨hvalid, hcontent herased, fun id => ?_⟩
        rw [hidentity]
        change Function.update store.identity victim.id (some { entry with previous := none }) id = _
        by_cases hid : id = victim.id
        · rw [hid, Function.update_self, if_pos ⟨victim, by simp, hreferenced, rfl⟩, hentry]
          rfl
        · rw [Function.update_of_ne hid, if_neg]
          rintro ⟨other, hother, -, heq⟩
          rw [List.mem_singleton.1 hother] at heq
          exact hid heq.symm
  · rw [if_neg hreferenced] at hrun
    replace hrun : eraseRecord victim.record store = .ok () store' := hrun
    obtain ⟨hvalid, hidentity, herased⟩ := erased_eraseRecord h hrun
    refine ⟨hvalid, hcontent herased, fun id => ?_⟩
    rw [hidentity, if_neg]
    rintro ⟨other, hother, htrue, -⟩
    rw [List.mem_singleton.1 hother] at htrue
    exact hreferenced htrue

theorem Erased.trans {store'' : ObjectStore H Id} {victim : Victim Id} {rest : List (Victim Id)}
    (h : Erased [victim] store store') (h' : Erased rest store' store'') :
    Erased (victim :: rest) store store'' := by
  refine ⟨h'.valid, fun record => ?_, fun id => ?_⟩
  · rw [h'.content, h.content]
    by_cases hrest : record ∈ rest.map Victim.record
    · simp [hrest]
    · by_cases hhead : record = victim.record
      · simp [hhead]
      · simp [hhead, hrest]
  · have hmap : ((store.identity id).map cleared).map cleared = (store.identity id).map cleared := by
      cases store.identity id <;> rfl
    rw [h'.identity, h.identity]
    by_cases hhead : victim.isReferencedPrevious = true ∧ victim.id = id
    · have hall : ∃ other ∈ victim :: rest, other.isReferencedPrevious = true ∧ other.id = id :=
        ⟨victim, List.mem_cons_self, hhead⟩
      have hone : ∃ other ∈ [victim], other.isReferencedPrevious = true ∧ other.id = id :=
        ⟨victim, List.mem_singleton_self _, hhead⟩
      rw [if_pos hall, if_pos hone, hmap, ite_self]
    · rw [@if_neg (∃ other ∈ [victim], _) _ (by simpa using fun h => not_and.1 hhead h)]
      apply if_congr _ rfl rfl
      simp only [List.mem_cons, exists_eq_or_imp, hhead, false_or]

theorem erased_forM {victims : List (Victim Id)} (h : RecordStore.Valid store.heap)
    (hrun : victims.forM collect store = .ok ⟨⟩ store') : Erased victims store store' := by
  induction victims generalizing store with
  | nil =>
    injection hrun with _ hstore
    exact hstore ▸ .nil h
  | cons victim rest ih =>
    change (collect victim >>= fun _ => rest.forM collect) store = _ at hrun
    obtain ⟨value, middle, hhead, hrest⟩ := bind_eq_ok hrun
    have hfirst := erased_collect h hhead
    exact hfirst.trans (ih hfirst.valid hrest)

/-! ### The classification -/

def Collectible (oldest : Option Nat) (entry : Entry Id) : Prop :=
  oldest.all (fun oldest => entry.currentEpoch ≤ oldest) = true

omit [RecordStore H Id DecodedObject Error NotFound] in
theorem victim_eq_none {oldest : Option Nat} {record : Id} {object : DecodedObject} :
    store.victim oldest (record, object) = none ↔ ∃ entry, store.identity object.id = some entry ∧
      (entry.current = some record ∨
        entry.previous.map Prod.fst = some record ∧ ¬Collectible oldest entry) := by
  unfold victim IdentityMap.inspect Collectible
  cases hentry : store.identity object.id with
  | none => simp
  | some entry =>
    by_cases hcurrent : entry.current = some record
    · simp [hcurrent]
    · by_cases hprevious : entry.previous.map Prod.fst = some record
      · simp only [hcurrent, hprevious, if_false, if_true]
        split <;> simp_all
      · simp only [hcurrent, hprevious, if_false]
        simp_all

omit [RecordStore H Id DecodedObject Error NotFound] in
theorem collectible_of_victim {oldest : Option Nat} {record : Id × DecodedObject} {victim : Victim Id}
    (h : store.victim oldest record = some victim) (hreferenced : victim.isReferencedPrevious = true) :
    victim.id = record.2.id ∧ ∃ entry, store.identity record.2.id = some entry ∧ Collectible oldest entry := by
  unfold ObjectStore.victim IdentityMap.inspect at h
  cases hentry : store.identity record.2.id with
  | none =>
    simp only [hentry] at h
    rw [← Option.some.inj h] at hreferenced
    cases hreferenced
  | some entry =>
    simp only [hentry] at h
    split at h
    · cases h
    · split at h
      · split at h
        · rename_i hold
          rw [← Option.some.inj h]
          exact ⟨rfl, entry, rfl, hold⟩
        · cases h
      · rw [← Option.some.inj h] at hreferenced
        cases hreferenced

omit [RecordStore H Id DecodedObject Error NotFound] in
theorem record_of_victim {oldest : Option Nat} {record : Id × DecodedObject} {victim : Victim Id}
    (h : store.victim oldest record = some victim) : victim.record = record.1 := by
  unfold ObjectStore.victim at h
  split at h
  · rw [← Option.some.inj h]
  · split at h
    · cases h
    · split at h
      · split at h
        · rw [← Option.some.inj h]
        · cases h
      · rw [← Option.some.inj h]

/-- Every record is the current version of its object, or a previous one that may be needed. -/
def Swept (oldest : Option Nat) (store : ObjectStore H Id) : Prop :=
  ∀ record object, RecordStore.content store.heap record = some object →
    ∃ entry, store.identity object.id = some entry ∧
      (entry.current = some record ∨
        entry.previous.map Prod.fst = some record ∧ ¬Collectible oldest entry)

theorem erased_of_ok {oldest : Option Nat} {collected : Nat} (h : RecordStore.Valid store.heap)
    (hrun : collectGarbage oldest store = .ok collected store') :
    ∃ records, RecordStore.records store.heap = .ok records ∧
      collected = (records.filterMap (store.victim oldest)).length ∧
      Erased (records.filterMap (store.victim oldest)) store store' := by
  obtain ⟨records, hrecords, -, -⟩ := RecordStore.records_eq h
  unfold collectGarbage at hrun
  rw [get_bind_run', ite_run] at hrun
  split at hrun
  · injection hrun
  · rw [hrecords, check_ok_bind] at hrun
    obtain ⟨value, middle, hloop, hpure⟩ := bind_eq_ok hrun
    injection hpure with hcollected hmiddle
    subst hmiddle
    exact ⟨records, hrecords, hcollected.symm, erased_forM h hloop⟩

theorem entry_of_ok {snapshots : List Nat} {collected : Nat} (h : RecordStore.Valid store.heap)
    (hrun : collectGarbage snapshots.min? store = .ok collected store') (id : ObjectId) :
    store'.identity id = store.identity id ∨ ∃ entry, store.identity id = some entry ∧
      store'.identity id = some (cleared entry) ∧ ∀ epoch ∈ snapshots, entry.currentEpoch ≤ epoch := by
  obtain ⟨records, -, -, herased⟩ := erased_of_ok h hrun
  rw [herased.identity]
  split
  · rename_i hcleared
    obtain ⟨victim, hvictim, hreferenced, hid⟩ := hcleared
    obtain ⟨⟨record, object⟩, -, hpicked⟩ := List.mem_filterMap.1 hvictim
    obtain ⟨hid', entry, hentry, hcollectible⟩ := collectible_of_victim hpicked hreferenced
    rw [← hid', hid] at hentry
    refine .inr ⟨entry, hentry, congrArg (Option.map cleared) hentry, fun epoch hepoch => ?_⟩
    obtain ⟨oldest, holdest⟩ : ∃ oldest, snapshots.min? = some oldest :=
      Option.isSome_iff_exists.1 (List.isSome_min?_of_mem hepoch)
    unfold Collectible at hcollectible
    rw [holdest] at hcollectible
    exact Nat.le_trans (of_decide_eq_true hcollectible)
      ((List.min?_eq_some_iff.1 holdest).2 epoch hepoch)
  · exact .inl rfl

theorem swept_of_ok {oldest : Option Nat} {collected : Nat} (h : RecordStore.Valid store.heap)
    (hrun : collectGarbage oldest store = .ok collected store') : Swept oldest store' := by
  obtain ⟨records, hrecords, -, herased⟩ := erased_of_ok h hrun
  obtain ⟨records', hrecords', -, hmem⟩ := RecordStore.records_eq h
  rw [hrecords] at hrecords'
  injection hrecords' with hsame
  subst hsame
  intro record object hcontent
  rw [herased.content] at hcontent
  split at hcontent
  · cases hcontent
  · rename_i hleft
    have hnone : store.victim oldest (record, object) = none := by
      cases hvictim : store.victim oldest (record, object) with
      | none => rfl
      | some victim =>
        refine absurd (List.mem_map.2 ⟨victim, ?_, record_of_victim hvictim⟩) hleft
        exact List.mem_filterMap.2 ⟨(record, object), (hmem record object).2 hcontent, hvictim⟩
    obtain ⟨entry, hentry, hkept⟩ := victim_eq_none.1 hnone
    rw [herased.identity, hentry]
    split
    · rename_i hcleared
      obtain ⟨victim, hvictim, hreferenced, hid⟩ := hcleared
      obtain ⟨⟨other, object'⟩, -, hpicked⟩ := List.mem_filterMap.1 hvictim
      obtain ⟨hid', entry', hentry', hcollectible⟩ := collectible_of_victim hpicked hreferenced
      rw [← hid', hid, hentry] at hentry'
      rw [← Option.some.inj hentry'] at hcollectible
      refine ⟨cleared entry, rfl, ?_⟩
      rcases hkept with hcurrent | ⟨-, hneeded⟩
      · exact .inl hcurrent
      · exact absurd hcollectible hneeded
    · exact ⟨entry, rfl, hkept⟩

theorem Swept.collectGarbage_eq {oldest : Option Nat} (h : Swept oldest store)
    (hvalid : RecordStore.Valid store.heap) (htx : store.inTransaction = true) :
    collectGarbage oldest store = .ok 0 store := by
  obtain ⟨records, hrecords, -, hmem⟩ := RecordStore.records_eq hvalid
  have hnone : records.filterMap (store.victim oldest) = [] := by
    apply List.filterMap_eq_nil_iff.2
    rintro ⟨record, object⟩ hrecord
    exact victim_eq_none.2 (h record object ((hmem record object).1 hrecord))
  unfold collectGarbage
  rw [get_bind_run', ite_run, if_neg (not_not.2 htx), hrecords, check_ok_bind, hnone]
  rfl

theorem Swept.congr {oldest : Option Nat} (h : Swept oldest store)
    (hidentity : store'.identity = store.identity)
    (hcontent : RecordStore.content store'.heap = RecordStore.content store.heap) :
    Swept oldest store' := by
  intro record object hrecord
  rw [hidentity]
  rw [hcontent] at hrecord
  exact h record object hrecord

def HoldsLive (store : ObjectStore H Id) : Prop :=
  ∃ records, RecordStore.records store.heap = .ok records ∧
    (records.map fun record => record.2.id).Nodup ∧
      ∀ object, object ∈ records.map Prod.snd ↔ store.get object.id = .ok object

theorem holdsLive_of_current (h : store.Sound)
    (hcurrent : ∀ record object, RecordStore.content store.heap record = some object →
      ∃ entry, store.identity object.id = some entry ∧ entry.current = some record) :
    store.HoldsLive := by
  obtain ⟨records, hrecords, hnodup, hmem⟩ := RecordStore.records_eq h.heap
  refine ⟨records, hrecords, ?_, fun object => ?_⟩
  · apply List.Nodup.map_on ?_ (hnodup.of_map _)
    rintro ⟨record, object⟩ hin ⟨record', object'⟩ hin' hid
    rw [hmem] at hin hin'
    obtain ⟨entry, hentry, hrecord⟩ := hcurrent record object hin
    obtain ⟨entry', hentry', hrecord'⟩ := hcurrent record' object' hin'
    have hid : object.id = object'.id := hid
    rw [hid, hentry'] at hentry
    rw [← Option.some.inj hentry, hrecord'] at hrecord
    have hsame : record' = record := Option.some.inj hrecord
    rw [hsame, hin] at hin'
    rw [hsame, Option.some.inj hin']
  · rw [get_eq_ok h]
    constructor
    · intro hobject
      obtain ⟨⟨record, found⟩, hrecord, rfl⟩ := List.mem_map.1 hobject
      have hcontent := (hmem record found).1 hrecord
      obtain ⟨entry, hentry, hcur⟩ := hcurrent record found hcontent
      exact ⟨entry, record, hentry, hcur, hcontent⟩
    · rintro ⟨entry, record, -, -, hcontent⟩
      exact List.mem_map.2 ⟨(record, object), (hmem record object).2 hcontent, rfl⟩

theorem Swept.holdsLive {snapshots : List Nat} (h : Swept snapshots.min? store) (hsound : store.Sound)
    (hnewer : ∀ epoch ∈ snapshots, ∀ id entry, store.identity id = some entry →
      entry.currentEpoch ≤ epoch) : store.HoldsLive := by
  apply holdsLive_of_current hsound
  intro record object hcontent
  obtain ⟨entry, hentry, hcurrent | ⟨-, hneeded⟩⟩ := h record object hcontent
  · exact ⟨entry, hentry, hcurrent⟩
  · refine absurd ?_ hneeded
    unfold Collectible
    cases holdest : snapshots.min? with
    | none => rfl
    | some oldest =>
      exact decide_eq_true (hnewer oldest (List.min?_mem holdest) object.id entry hentry)

end ObjectStore

end MoDb.Store
