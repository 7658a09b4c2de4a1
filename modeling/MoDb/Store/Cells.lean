import MoDb.Lib.Mvcc
import MoDb.Store.Soundness

/-!
# The versions of the objects

A sound store keeps two versions of each object: the entry of the object refers to their records.
`cells` has the objects in place of the records, and every read of the store is a read of a cell.
-/

namespace MoDb.Store.ObjectStore

open Effect Storage Index Mvcc

variable {H Id : Type} [DecidableEq Id] [RecordStore H Id DecodedObject Error NotFound]
  {store store' : ObjectStore H Id}

def cellOf (content : Id → Option DecodedObject) (entry : Entry Id) : Cell DecodedObject where
  current := entry.current.bind content
  since := entry.currentEpoch
  previous := entry.previous.bind fun version => (content version.1).map fun object => (object, version.2)

def cells (store : ObjectStore H Id) : Cells ObjectId DecodedObject := fun id =>
  (store.identity id).map (cellOf (RecordStore.content store.heap))

theorem cells_of_entry {id : ObjectId} {entry : Entry Id} (h : store.identity id = some entry) :
    store.cells id = some (cellOf (RecordStore.content store.heap) entry) := by
  unfold cells
  rw [h]
  rfl

theorem cells_eq_some {id : ObjectId} {cell : Cell DecodedObject} :
    store.cells id = some cell ↔ ∃ entry, store.identity id = some entry ∧
      cellOf (RecordStore.content store.heap) entry = cell := Option.map_eq_some_iff

/-! ### Reads -/

theorem readAt_eq (h : store.Sound) (epoch : Nat) (id : ObjectId) :
    store.cells.readAt epoch id = match store.identity.findAt id epoch with
      | .ok record => RecordStore.content store.heap record
      | .error _ => none := by
  unfold Cells.readAt cells IdentityMap.findAt
  cases hentry : store.identity id with
  | none => rfl
  | some entry =>
    rw [Option.map_some, Option.bind_some]
    unfold Cell.readAt cellOf
    by_cases hepoch : entry.currentEpoch ≤ epoch
    · simp only [if_pos hepoch]
      cases entry.current <;> rfl
    · simp only [if_neg hepoch]
      cases hprevious : entry.previous with
      | none => rfl
      | some version =>
        obtain ⟨record, previousEpoch⟩ := version
        obtain ⟨object, hcontent, -⟩ := h.previous hentry hprevious
        rw [Option.bind_some, hcontent]
        by_cases hprevious : previousEpoch ≤ epoch
        · simp [hprevious, hcontent]
        · simp [hprevious]

omit [DecidableEq Id] [RecordStore H Id DecodedObject Error NotFound] in
theorem notFound_of_findAt {map : IdentityMap Id} {id : ObjectId} {epoch : Nat} {error : Error}
    (h : map.findAt id epoch = .error error) : NotFound error := by
  unfold IdentityMap.findAt at h
  split at h
  · injection h with herror
    exact herror ▸ rfl
  · split at h
    · split at h
      · injection h
      · injection h with herror
        exact herror ▸ rfl
    · split at h
      · split at h
        · injection h
        · injection h with herror
          exact herror ▸ rfl
      · injection h with herror
        exact herror ▸ rfl

theorem getAt_of_some (h : store.Sound) {id : ObjectId} {epoch : Nat} {object : DecodedObject}
    (hread : store.cells.readAt epoch id = some object) : store.getAt id epoch = .ok object := by
  rw [readAt_eq h] at hread
  unfold getAt
  cases hfind : store.identity.findAt id epoch with
  | error error =>
    rw [hfind] at hread
    cases hread
  | ok record =>
    rw [hfind] at hread
    exact RecordStore.read_of_some h.heap hread

theorem getAt_of_none (h : store.Sound) {id : ObjectId} {epoch : Nat}
    (hread : store.cells.readAt epoch id = none) :
    ∃ error, store.getAt id epoch = .error error ∧ NotFound error := by
  rw [readAt_eq h] at hread
  unfold getAt
  cases hfind : store.identity.findAt id epoch with
  | error error => exact ⟨error, rfl, notFound_of_findAt hfind⟩
  | ok record =>
    obtain ⟨object, hcontent, -⟩ := holds_of_findAt h hfind
    simp only [hfind, hcontent] at hread
    cases hread

theorem getAt_eq_ok (h : store.Sound) {id : ObjectId} {epoch : Nat} {object : DecodedObject} :
    store.getAt id epoch = .ok object ↔ store.cells.readAt epoch id = some object := by
  refine ⟨fun hget => ?_, getAt_of_some h⟩
  cases hread : store.cells.readAt epoch id with
  | none =>
    obtain ⟨error, herror, -⟩ := getAt_of_none h hread
    rw [herror] at hget
    cases hget
  | some found =>
    rw [getAt_of_some h hread] at hget
    injection hget with heq
    rw [heq]

theorem get_eq_ok_iff (h : store.Sound) {id : ObjectId} {object : DecodedObject} :
    store.get id = .ok object ↔ store.cells.now id = some object := by
  rw [get_eq_ok h]
  unfold Cells.now cells
  constructor
  · rintro ⟨entry, record, hentry, hcurrent, hcontent⟩
    rw [hentry]
    change entry.current.bind _ = _
    rw [hcurrent]
    exact hcontent
  · intro hnow
    obtain ⟨cell, hcell, hcurrent⟩ := Option.bind_eq_some_iff.1 hnow
    obtain ⟨entry, hentry, rfl⟩ := Option.map_eq_some_iff.1 hcell
    obtain ⟨record, hrecord, hcontent⟩ := Option.bind_eq_some_iff.1 hcurrent
    exact ⟨entry, record, hentry, hrecord, hcontent⟩

theorem get_toOption (h : store.Sound) (id : ObjectId) :
    (store.get id).toOption = store.cells.now id := by
  apply Option.ext
  intro object
  rw [← get_eq_ok_iff h]
  cases store.get id with
  | error error => exact ⟨nofun, nofun⟩
  | ok found =>
    constructor
    · intro hsome
      exact congrArg Except.ok (Option.some.inj hsome)
    · intro hok
      injection hok with heq
      exact congrArg some heq

theorem id_of_readAt (h : store.Sound) {id : ObjectId} {epoch : Nat} {object : DecodedObject}
    (hread : store.cells.readAt epoch id = some object) :
    object.id = id ∧ store.Registered object := by
  rw [readAt_eq h] at hread
  split at hread
  · rename_i record hfind
    obtain ⟨found, hfound, hheld⟩ := holds_of_findAt h hfind
    rw [hread] at hfound
    exact Option.some.inj hfound ▸ hheld
  · cases hread

theorem id_of_now (h : store.Sound) {id : ObjectId} {object : DecodedObject}
    (hnow : store.cells.now id = some object) : object.id = id ∧ store.Registered object :=
  id_of_get h ((get_eq_ok_iff h).2 hnow)

omit [RecordStore H Id DecodedObject Error NotFound] in
theorem visibleAt_iff {epoch : Nat} {record : Id} {object : DecodedObject} :
    store.visibleAt epoch (record, object) = true ↔
      store.identity.findAt object.id epoch = .ok record := by
  unfold visibleAt
  cases hfind : store.identity.findAt object.id epoch with
  | error error => exact ⟨nofun, nofun⟩
  | ok location =>
    change decide (location = record) = true ↔ _
    rw [decide_eq_true_iff]
    exact ⟨fun heq => congrArg Except.ok heq, fun hok => by injection hok⟩

theorem scanAt_eq (h : store.Sound) (epoch : Nat) :
    ∃ list, store.scanAt epoch = .ok list ∧ (list.map DecodedObject.id).Nodup ∧
      ∀ object, object ∈ list ↔ store.cells.readAt epoch object.id = some object := by
  obtain ⟨records, hrecords, hnodup, hmem⟩ := RecordStore.records_eq h.heap
  refine ⟨(records.filter (store.visibleAt epoch)).map Prod.snd, ?_, ?_, ?_⟩
  · unfold scanAt
    rw [hrecords]
    rfl
  · rw [List.map_map]
    apply List.Nodup.map_on ?_ (hnodup.of_map _ |>.filter _)
    rintro ⟨record, object⟩ hin ⟨record', object'⟩ hin' hid
    obtain ⟨hrecord, hvisible⟩ := List.mem_filter.1 hin
    obtain ⟨hrecord', hvisible'⟩ := List.mem_filter.1 hin'
    rw [hmem] at hrecord hrecord'
    rw [visibleAt_iff] at hvisible
    rw [visibleAt_iff] at hvisible'
    have hid : object.id = object'.id := hid
    rw [hid, hvisible'] at hvisible
    injection hvisible with hsame
    rw [← hsame, hrecord'] at hrecord
    rw [hsame, Option.some.inj hrecord]
  · intro object
    rw [readAt_eq h, List.mem_map]
    constructor
    · rintro ⟨⟨record, found⟩, hin, rfl⟩
      obtain ⟨hrecord, hvisible⟩ := List.mem_filter.1 hin
      rw [hmem] at hrecord
      rw [visibleAt_iff.1 hvisible]
      exact hrecord
    · intro hread
      split at hread
      · rename_i record hfind
        exact ⟨(record, object), List.mem_filter.2 ⟨(hmem _ _).2 hread,
          visibleAt_iff.2 hfind⟩, rfl⟩
      · cases hread

/-! ### The cells after a change -/

def Refers (store : ObjectStore H Id) (id : ObjectId) (record : Id) : Prop :=
  ∃ entry, store.identity id = some entry ∧
    (entry.current = some record ∨ entry.previous.map Prod.fst = some record)

theorem Sound.holds_of_refers (h : store.Sound) {id : ObjectId} {record : Id}
    (hrefers : store.Refers id record) : store.Holds record id := by
  obtain ⟨entry, hentry, hcurrent | hprevious⟩ := hrefers
  · exact h.current hentry hcurrent
  · obtain ⟨⟨_, epoch⟩, hversion, rfl⟩ := Option.map_eq_some_iff.1 hprevious
    exact h.previous hentry hversion

omit [DecidableEq Id] [RecordStore H Id DecodedObject Error NotFound] in
theorem cellOf_congr {content content' : Id → Option DecodedObject} {entry : Entry Id}
    (hcurrent : ∀ record, entry.current = some record → content' record = content record)
    (hprevious : ∀ record, entry.previous.map Prod.fst = some record →
      content' record = content record) : cellOf content' entry = cellOf content entry := by
  apply Cell.ext
  · change entry.current.bind _ = entry.current.bind _
    cases hsome : entry.current with
    | none => rfl
    | some record => exact hcurrent record hsome
  · rfl
  · change entry.previous.bind _ = entry.previous.bind _
    cases hsome : entry.previous with
    | none => rfl
    | some version =>
      rw [Option.bind_some, Option.bind_some, hprevious version.1 (by rw [hsome]; rfl)]

theorem cells_congr (hidentity : store'.identity = store.identity)
    (hcontent : ∀ record id, store.Refers id record →
      RecordStore.content store'.heap record = RecordStore.content store.heap record) :
    store'.cells = store.cells := by
  funext id
  unfold cells
  rw [hidentity]
  cases hentry : store.identity id with
  | none => rfl
  | some entry =>
    apply congrArg some
    apply cellOf_congr
    · exact fun record hcurrent => hcontent record id ⟨entry, hentry, .inl hcurrent⟩
    · exact fun record hprevious => hcontent record id ⟨entry, hentry, .inr hprevious⟩

theorem cells_update {id : ObjectId} {entry : Entry Id}
    (hidentity : store'.identity = Function.update store.identity id (some entry))
    (hcontent : ∀ record id', id' ≠ id → store.Refers id' record →
      RecordStore.content store'.heap record = RecordStore.content store.heap record) :
    store'.cells =
      Function.update store.cells id (some (cellOf (RecordStore.content store'.heap) entry)) := by
  funext id'
  by_cases hid : id' = id
  · rw [hid, Function.update_self]
    apply cells_of_entry
    rw [hidentity, Function.update_self]
  · rw [Function.update_of_ne hid]
    unfold cells
    rw [hidentity, Function.update_of_ne hid]
    cases hentry : store.identity id' with
    | none => rfl
    | some found =>
      apply congrArg some
      apply cellOf_congr
      · exact fun record hcurrent => hcontent record id' hid ⟨found, hentry, .inl hcurrent⟩
      · exact fun record hprevious => hcontent record id' hid ⟨found, hentry, .inr hprevious⟩

theorem cells_bound (h : store.Sound) {object : DecodedObject} {location : Id} {heap : H}
    (hinsert : RecordStore.insert object store.heap = .ok location heap) :
    (store.bound location heap).cells = Function.update store.cells store.nextObjectId
      (some (Cell.write (store.cells store.nextObjectId) (some object) store.transactionEpoch)) := by
  obtain ⟨-, hfree, hcontent⟩ := RecordStore.insert_ok h.heap hinsert
  have hcells : (store.bound location heap).cells =
      Function.update store.cells store.nextObjectId (some (cellOf (RecordStore.content heap)
        { current := some location, currentEpoch := store.transactionEpoch })) := by
    apply cells_update rfl
    intro record id' _ hrefers
    obtain ⟨found, hfound, -⟩ := h.holds_of_refers hrefers
    have hne : record ≠ location := by
      rintro rfl
      rw [hfree] at hfound
      cases hfound
    change RecordStore.content heap record = _
    rw [hcontent, Function.update_of_ne hne]
  have hunbound : store.cells store.nextObjectId = none := by
    unfold cells
    cases hentry : store.identity store.nextObjectId with
    | none => rfl
    | some entry => exact absurd (h.bound_lt hentry) (Nat.lt_irrefl _)
  rw [hcells, hunbound]
  congr 2
  unfold cellOf Cell.write
  rw [Option.bind_some, hcontent, Function.update_self]
  rfl

theorem cells_rebound (h : store.Sound) {id : ObjectId} {object : DecodedObject} {old location : Id}
    {entry : Entry Id} {heap : H} (hlive : store.identity.live id = .ok (old, entry))
    (hreplaced : store.Replaced entry location object heap) :
    (store.rebound id location heap old entry).cells = Function.update store.cells id
      (some (Cell.write (store.cells id) (some object) store.transactionEpoch)) := by
  obtain ⟨hentry, hcurrent⟩ := IdentityMap.live_eq_ok.1 hlive
  have hheld := h.current hentry hcurrent
  obtain ⟨found, hfound, -⟩ := h.current hentry hcurrent
  have hkept : ∀ record id', store.Holds record id' → entry.previous.map Prod.fst ≠ some record →
      RecordStore.content heap record = RecordStore.content store.heap record := by
    rintro record id' ⟨other, hother, -⟩ hprevious
    refine hreplaced.content_of_ne record ?_ hprevious
    rintro rfl
    rw [hreplaced.fresh] at hother
    cases hother
  have hcells : (store.rebound id location heap old entry).cells =
      Function.update store.cells id (some (cellOf (RecordStore.content heap)
        ⟨some location, store.transactionEpoch, some (old, entry.currentEpoch)⟩)) := by
    apply cells_update rfl
    intro record id' hne hrefers
    have hholds := h.holds_of_refers hrefers
    refine hkept record id' hholds fun hprevious => hne ?_
    obtain ⟨⟨_, epoch⟩, hversion, rfl⟩ := Option.map_eq_some_iff.1 hprevious
    exact hholds.unique (h.previous hentry hversion)
  have hold : RecordStore.content heap old = some found := by
    rw [hkept old id hheld ?_, hfound]
    intro hprevious
    obtain ⟨⟨_, epoch⟩, hversion, rfl⟩ := Option.map_eq_some_iff.1 hprevious
    exact h.distinct hentry hversion hcurrent
  rw [hcells, cells_of_entry hentry]
  congr 2
  unfold cellOf Cell.write
  simp only [Option.bind_some, hreplaced.content_self, hold, hcurrent, hfound, Option.map_some]

theorem cells_erased (h : store.Sound) {id : ObjectId} {old : Id} {entry : Entry Id}
    (hlive : store.identity.live id = .ok (old, entry)) :
    (store.erased id old entry).cells = Function.update store.cells id
      (some (Cell.write (store.cells id) none store.transactionEpoch)) := by
  obtain ⟨hentry, hcurrent⟩ := IdentityMap.live_eq_ok.1 hlive
  obtain ⟨found, hfound, -⟩ := h.current hentry hcurrent
  have hcells : (store.erased id old entry).cells =
      Function.update store.cells id (some (cellOf (RecordStore.content store.heap)
        ⟨none, store.transactionEpoch, some (old, entry.currentEpoch)⟩)) :=
    cells_update rfl fun _ _ _ _ => rfl
  rw [hcells, cells_of_entry hentry]
  congr 2
  unfold cellOf Cell.write
  simp only [Option.bind_some, Option.bind_none, hcurrent, hfound, Option.map_some]

/-! ### Conflicts -/

theorem spares_of_check {id : ObjectId} {snapshots : List Nat}
    (hcheck : store.checkSnapshotConflict id snapshots.min? = .ok ()) {cell : Cell DecodedObject}
    (hcell : store.cells id = some cell) {old : Id} {entry : Entry Id}
    (hlive : store.identity.live id = .ok (old, entry)) {epoch : Nat} (hepoch : epoch ∈ snapshots) :
    cell.Spares epoch := by
  obtain ⟨hentry, -⟩ := IdentityMap.live_eq_ok.1 hlive
  rw [cells_of_entry hentry] at hcell
  rw [← Option.some.inj hcell]
  obtain ⟨oldest, holdest⟩ : ∃ oldest, snapshots.min? = some oldest :=
    Option.isSome_iff_exists.1 (List.isSome_min?_of_mem hepoch)
  have hle : oldest ≤ epoch := (List.min?_eq_some_iff.1 holdest).2 epoch hepoch
  rw [holdest] at hcheck
  unfold checkSnapshotConflict IdentityMap.currentEpoch IdentityMap.hasPrevious at hcheck
  simp only [hlive] at hcheck
  change (if entry.currentEpoch ≤ oldest then _ else _) = _ at hcheck
  by_cases hcurrent : entry.currentEpoch ≤ oldest
  · exact .inl (Nat.le_trans hcurrent hle)
  · rw [if_neg hcurrent] at hcheck
    change (if entry.previous.isSome then _ else _) = _ at hcheck
    cases hprevious : entry.previous with
    | none =>
      right
      change entry.previous.bind _ = none
      rw [hprevious]
      rfl
    | some version =>
      rw [hprevious] at hcheck
      cases hcheck

end MoDb.Store.ObjectStore
