import MoDb.Store.Garbage
import MoDb.Store.IndexReads

/-!
# Collections and their readers

Between transactions the store holds what the data file holds, so a collection that is rolled back
leaves what it found. One that commits has dropped versions that no reader asks for.
-/

namespace MoDb.Store

open Effect Storage Index Mvcc

variable {H Id : Type} [DecidableEq Id] [RecordStore H Id DecodedObject Error NotFound]

namespace ObjectStore

variable {store store' : ObjectStore H Id}

/-! ### Readers -/

/-- The record is the one that `resolve` finds for its object. -/
def picks (resolve : ObjectId → Except Error Id) (record : Id × DecodedObject) : Bool :=
  match resolve record.2.id with
  | .ok location => location = record.1
  | .error _ => false

omit [RecordStore H Id DecodedObject Error NotFound] in
theorem picks_iff {resolve : ObjectId → Except Error Id} {record : Id × DecodedObject} :
    picks resolve record = true ↔ resolve record.2.id = .ok record.1 := by
  unfold picks
  cases hfind : resolve record.2.id with
  | error error => exact ⟨nofun, nofun⟩
  | ok location =>
    change decide (location = record.1) = true ↔ _
    rw [decide_eq_true_iff]
    exact ⟨fun heq => congrArg Except.ok heq, fun hok => by injection hok⟩

def SameList (scan scan' : Except Error (List DecodedObject)) : Prop :=
  ∃ list list', scan = .ok list ∧ scan' = .ok list' ∧ list'.Perm list

/-- The records that `resolve` finds are there, and the same, in both heaps. -/
def SameRecords (resolve : ObjectId → Except Error Id) (store store' : ObjectStore H Id) : Prop :=
  ∀ id record, resolve id = .ok record → ∃ object,
    RecordStore.content store.heap record = some object ∧
      RecordStore.content store'.heap record = some object

variable {resolve : ObjectId → Except Error Id}

theorem SameRecords.read_eq (h : SameRecords resolve store store') (hsound : store.Sound)
    (hsound' : store'.Sound) (id : ObjectId) :
    (do let location ← resolve id; RecordStore.read location store'.heap) =
      (do let location ← resolve id; RecordStore.read location store.heap) := by
  cases hfind : resolve id with
  | error error => rfl
  | ok record =>
    obtain ⟨object, hcontent, hcontent'⟩ := h id record hfind
    exact (RecordStore.read_of_some hsound'.heap hcontent').trans
      (RecordStore.read_of_some hsound.heap hcontent).symm

theorem SameRecords.sameList (h : SameRecords resolve store store') (hsound : store.Sound)
    (hsound' : store'.Sound) :
    SameList (do let records ← RecordStore.records store.heap
                 pure ((records.filter (picks resolve)).map Prod.snd))
      (do let records ← RecordStore.records store'.heap
          pure ((records.filter (picks resolve)).map Prod.snd)) := by
  obtain ⟨records, records', hrecords, hrecords', hperm⟩ :=
    RecordStore.records_filter_perm hsound.heap hsound'.heap (picks resolve) (by
      intro record object hpicked
      obtain ⟨found, hcontent, hcontent'⟩ := h object.id record (picks_iff.1 hpicked)
      rw [hcontent, hcontent'])
  rw [hrecords, hrecords']
  exact ⟨_, _, rfl, rfl, hperm.map Prod.snd⟩

/-- A reader of the second store gets what one of the first gets, each at its epoch. -/
structure ReadsAlike (store : ObjectStore H Id) (epoch : Nat) (store' : ObjectStore H Id)
    (epoch' : Nat) : Prop where
  getAt_eq : ∀ id, store'.getAt id epoch' = store.getAt id epoch
  scanAt : SameList (store.scanAt epoch) (store'.scanAt epoch')

theorem readsAlike_of_cells {epoch epoch' : Nat} (h : store.Sound) (h' : store'.Sound)
    (hfind : ∀ id, store'.identity.findAt id epoch' = store.identity.findAt id epoch)
    (hread : store'.cells.readAt epoch' = store.cells.readAt epoch) :
    ReadsAlike store epoch store' epoch' := by
  have hsame : SameRecords (fun id => store.identity.findAt id epoch) store store' := by
    intro id record hrecord
    replace hrecord : store.identity.findAt id epoch = .ok record := hrecord
    obtain ⟨object, hcontent, -⟩ := holds_of_findAt h hrecord
    have hcontent' := congrFun hread id
    rw [readAt_eq h', readAt_eq h, hfind, hrecord] at hcontent'
    exact ⟨object, hcontent, hcontent'.trans hcontent⟩
  have hpicks : store'.visibleAt epoch' = picks fun id => store.identity.findAt id epoch := by
    funext record
    change picks (fun id => store'.identity.findAt id epoch') record = _
    rw [funext hfind]
  refine ⟨fun id => ?_, ?_⟩
  · unfold getAt
    rw [hfind]
    exact hsame.read_eq h h' id
  · have hlist := hsame.sameList h h'
    unfold ObjectStore.scanAt
    rw [hpicks]
    exact hlist

/-- What the writer reads. -/
structure ReadsNow (store store' : ObjectStore H Id) : Prop where
  get_eq : ∀ id, store'.get id = store.get id
  scan : SameList store.scan store'.scan
  indexRange_eq : ∀ typeName field lo hi,
    store'.indexRange typeName field lo hi = store.indexRange typeName field lo hi

def indexData (infos : Option (List IndexInfo)) : List ((String × FieldId) × KeySet) :=
  (infos.getD []).map fun info => ((info.typeName, info.fieldId), info.tree)

omit [DecidableEq Id] [RecordStore H Id DecodedObject Error NotFound] in
theorem tree_findIndex (store : ObjectStore H Id) (typeName : String) (field : FieldId) :
    (store.findIndex typeName field).map IndexInfo.tree =
      ((indexData store.indexes).find? fun data => data.1.1 = typeName ∧ data.1.2 = field).map
        Prod.snd := by
  unfold findIndex indexData
  rw [List.find?_map, Option.map_map]
  rfl

omit [DecidableEq Id] [RecordStore H Id DecodedObject Error NotFound] in
theorem indexRange_congr (hindexes : indexData store'.indexes = indexData store.indexes)
    (typeName : String) (field : FieldId) (lo hi : AttributeValue) :
    store'.indexRange typeName field lo hi = store.indexRange typeName field lo hi := by
  have hsame := tree_findIndex store' typeName field
  rw [hindexes, ← tree_findIndex store] at hsame
  unfold indexRange
  cases hfind : store.findIndex typeName field with
  | none =>
    rw [hfind, Option.map_none, Option.map_eq_none_iff] at hsame
    rw [hsame]
  | some info =>
    rw [hfind, Option.map_some, Option.map_eq_some_iff] at hsame
    obtain ⟨info', hfind', htree'⟩ := hsame
    simp only [hfind', htree']

theorem readsNow_of_cells (h : store.Sound) (h' : store'.Sound)
    (hfind : ∀ id, store'.identity.find id = store.identity.find id)
    (hnow : store'.cells.now = store.cells.now)
    (hindexes : indexData store'.indexes = indexData store.indexes) : ReadsNow store store' := by
  have hsame : SameRecords store.identity.find store store' := by
    intro id record hrecord
    obtain ⟨entry, hentry, hcurrent⟩ := IdentityMap.find_eq_ok.1 hrecord
    obtain ⟨entry', hentry', hcurrent'⟩ := IdentityMap.find_eq_ok.1 ((hfind id).trans hrecord)
    obtain ⟨object, hcontent, -⟩ := h.current hentry hcurrent
    have hget := (get_eq_ok h).2 ⟨entry, record, hentry, hcurrent, hcontent⟩
    rw [get_eq_ok_iff h, ← hnow, ← get_eq_ok_iff h', get_eq_ok h'] at hget
    obtain ⟨found, location, hfound, hlocation, hcontent'⟩ := hget
    rw [hentry'] at hfound
    rw [← Option.some.inj hfound, hcurrent'] at hlocation
    exact ⟨object, hcontent, Option.some.inj hlocation ▸ hcontent'⟩
  have hpicks : store'.isCurrent = picks store.identity.find := by
    funext record
    change picks store'.identity.find record = _
    rw [funext hfind]
  refine ⟨fun id => ?_, ?_, indexRange_congr hindexes⟩
  · unfold get
    rw [hfind]
    exact hsame.read_eq h h' id
  · have hlist := hsame.sameList h h'
    unfold ObjectStore.scan
    rw [hpicks]
    exact hlist

/-! ### What the data file holds -/

/-- The two hold the same objects, types and keys. -/
structure SameData (store store' : ObjectStore H Id) : Prop where
  types_eq : store'.types = store.types
  identity_eq : store'.identity = store.identity
  content_eq : RecordStore.content store'.heap = RecordStore.content store.heap
  indexes_eq : indexData store'.indexes = indexData store.indexes

theorem SameData.refl (store : ObjectStore H Id) : SameData store store := ⟨rfl, rfl, rfl, rfl⟩

theorem SameData.cells_eq (h : SameData store store') : store'.cells = store.cells :=
  cells_congr h.identity_eq fun record _ _ => congrFun h.content_eq record

omit [DecidableEq Id] [RecordStore H Id DecodedObject Error NotFound] in
theorem indexData_map {change : IndexInfo → IndexInfo} (infos : Option (List IndexInfo))
    (hchange : ∀ info, (change info).typeName = info.typeName ∧
      (change info).fieldId = info.fieldId ∧ (change info).tree = info.tree) :
    indexData (infos.map (List.map change)) = indexData infos := by
  cases infos with
  | none => rfl
  | some infos =>
    change (infos.map change).map _ = infos.map _
    rw [List.map_map]
    apply List.map_congr_left
    intro info _
    obtain ⟨htype, hfield, htree⟩ := hchange info
    change (((change info).typeName, (change info).fieldId), (change info).tree) = _
    rw [htype, hfield, htree]

theorem sameData_reopened (h : store.Sound) (next : ObjectId) :
    SameData store { store.reopened with nextObjectId := next } where
  types_eq := rfl
  identity_eq := rfl
  content_eq := (RecordStore.reopen_eq h.heap).2
  indexes_eq := indexData_map store.indexes fun _ => ⟨rfl, rfl, rfl⟩

theorem SameData.trans {store'' : ObjectStore H Id} (h : SameData store store')
    (h' : SameData store' store'') : SameData store store'' :=
  ⟨h'.types_eq.trans h.types_eq, h'.identity_eq.trans h.identity_eq,
    h'.content_eq.trans h.content_eq, h'.indexes_eq.trans h.indexes_eq⟩

theorem SameData.symm (h : SameData store store') : SameData store' store :=
  ⟨h.types_eq.symm, h.identity_eq.symm, h.content_eq.symm, h.indexes_eq.symm⟩

theorem SameData.readsAlike (h : SameData store store') (hsound : store.Sound)
    (hsound' : store'.Sound) (epoch : Nat) : ReadsAlike store epoch store' epoch :=
  readsAlike_of_cells hsound hsound' (fun id => by rw [h.identity_eq]) (by rw [h.cells_eq])

theorem SameData.readsNow (h : SameData store store') (hsound : store.Sound)
    (hsound' : store'.Sound) : ReadsNow store store' :=
  readsNow_of_cells hsound hsound' (fun id => by rw [h.identity_eq]) (by rw [h.cells_eq]) h.indexes_eq

end ObjectStore

namespace Engine

variable {engine : Engine H Id}

def Settled (engine : Engine H Id) : Prop :=
  engine.store.inTransaction = false → engine.committed.SameData engine.store

theorem Restored.settled {engine' : Engine H Id} (h : engine.Restored engine') : engine'.Settled := by
  obtain ⟨epoch, next, watermark, -, -, rfl⟩ := h
  exact fun _ => .refl _

theorem Restored.sameData {engine' : Engine H Id} (h : engine.Sound)
    (hrestored : engine.Restored engine') : engine.committed.SameData engine'.store := by
  obtain ⟨epoch, next, watermark, hepoch, hnext, rfl⟩ := hrestored
  have hroot : engine.committed.SameData (engine.withRoot epoch next).committed :=
    ⟨rfl, rfl, rfl, rfl⟩
  exact hroot.trans (ObjectStore.sameData_reopened (h.withRoot hepoch hnext).committed _)

theorem settled_commit (engine : Engine H Id) : engine.commit.Settled := fun _ => .refl _

theorem settled_of_inTransaction (h : engine.store.inTransaction = true) : engine.Settled := by
  intro hidle
  rw [h] at hidle
  cases hidle

theorem settled_fault (h : engine.Settled) (entries : ObjectId → Option Error)
    (trees : String → FieldId → Option Error) : (engine.fault entries trees).Settled := by
  intro hidle
  refine (h hidle).trans ⟨rfl, rfl, rfl, ?_⟩
  exact ObjectStore.indexData_map engine.store.indexes fun _ => ⟨rfl, rfl, rfl⟩

theorem settled_collectGarbage (h : engine.Sound) (hidle : engine.store.inTransaction = false)
    (commits due : Bool) : (engine.collectGarbage commits due).Settled := by
  rcases collectGarbage_cases h hidle commits due with ⟨hrestored, -⟩ | ⟨count, store, -, -, -, -, hcommit⟩
  · exact hrestored.settled
  · rw [hcommit]
    exact settled_commit _

section Steps

variable [PageSize]

theorem keeps_write (h : engine.store.Sound) (htx : engine.store.inTransaction = true)
    (write : Write) : (engine.write write).store.inTransaction = true ∧
      (engine.write write).store.epoch = engine.store.epoch := by
  have hafter : (after (write.run engine.oldest engine.store)).inTransaction = true ∧
      (after (write.run engine.oldest engine.store)).epoch = engine.store.epoch := by
    rcases ObjectStore.run_cases h htx engine.snapshots write with
      ⟨error, store, hrun, hunseen⟩ | ⟨typeName, store, hbinds, hrun⟩
    · have hsame : after (write.run engine.oldest engine.store) = store := congrArg after hrun
      rw [hsame]
      exact ⟨hunseen.inTransaction_eq.trans htx, hunseen.epoch_eq⟩
    · obtain ⟨infos, hsame⟩ := ObjectStore.after_bound hrun
      exact ⟨(congrArg ObjectStore.inTransaction hsame).trans (hbinds.inTransaction_eq.trans htx),
        (congrArg ObjectStore.epoch hsame).trans hbinds.epoch_eq⟩
  unfold Engine.write
  cases hrun : write.run engine.oldest engine.store with
  | ok value store =>
    rw [hrun] at hafter
    exact hafter
  | error error store =>
    rw [hrun] at hafter
    exact hafter

theorem keeps_createIndex (h : engine.store.Sound) (htx : engine.store.inTransaction = true)
    (type : TypeDefinitionId) (field : FieldId) :
    (engine.createIndex type field).store.inTransaction = true ∧
      (engine.createIndex type field).store.epoch = engine.store.epoch := by
  unfold createIndex
  cases engine.store.findType type with
  | error error => exact ⟨htx, rfl⟩
  | ok definition =>
    rcases ObjectStore.createIndex_cases h htx definition field with
      ⟨error, infos, hrun, -⟩ | ⟨records, tree, -, -, -, hrun⟩
    · simp only [onStore, hrun, after_error]
      exact ⟨htx, trivial⟩
    · simp only [onStore, hrun, after_ok]
      exact ⟨htx, trivial⟩

theorem settled_step (h : engine.Sound) (hsettled : engine.Settled) {action : Action}
    (hrestores : engine.Restores action) : (engine.step action).Settled := by
  rw [h.step_eq]
  rcases engine.act_cases action with hact | ⟨hcomes, hact⟩
  · rw [hact]
    exact hsettled
  rw [hact]
  cases action with
  | begin => exact settled_of_inTransaction rfl
  | write write => exact settled_of_inTransaction (keeps_write h.store hcomes write).1
  | createIndex type field =>
    exact settled_of_inTransaction (keeps_createIndex h.store hcomes type field).1
  | registerType definition =>
    obtain ⟨next, types, -, hafter⟩ := ObjectStore.after_registerType definition engine.store
    simp only [perform, onStore, hafter]
    exact settled_of_inTransaction hcomes
  | commit => exact settled_commit engine
  | commitFailed => exact settled_of_inTransaction hcomes
  | rollback due => exact (rollback_restored h hrestores).settled
  | collectGarbage commits due => exact settled_collectGarbage h hcomes commits due
  | openSnapshot | shareSnapshot | closeSnapshot => exact hsettled
  | reopen => exact fun _ => .refl _
  | fault entries trees => exact settled_fault hsettled entries trees

theorem settled_run (hfresh : engine.Fresh) {actions : List Action}
    (hmeets : Meets Restores actions engine) :
    (engine.run actions).Sound ∧ (engine.run actions).Settled := by
  have hstep : ∀ (engine : Engine H Id) (action : Action), engine.Sound ∧ engine.Settled →
      engine.Restores action → (engine.step action).Sound ∧ (engine.step action).Settled :=
    fun _ _ h hrestores => ⟨sound_step h.1 hrestores, settled_step h.1 h.2 hrestores⟩
  refine run_induction hstep ⟨sound_fresh hfresh, fun _ => ?_⟩ hmeets
  rw [hfresh.committed]
  exact .refl _

end Steps

/-! ### A collection -/

/-- What `collect_garbage` returns; `none` is an error. -/
def collected (engine : Engine H Id) (commits due : Bool) : Option Nat :=
  if engine.store.inTransaction then none
  else
    match ObjectStore.collectGarbage engine.oldest engine.begin.store with
    | .error _ _ => none
    | .ok collected store =>
      if collected = 0 then
        if (rollback { engine.begin with store := store } due).rootLost then none else some collected
      else if commits then some collected
      else none

/-- Every reader gets what it got before: the writer, the open snapshots, and a snapshot that is
opened now. -/
structure KeepsReads (engine engine' : Engine H Id) : Prop where
  snapshots_eq : engine'.snapshots = engine.snapshots
  types_eq : engine'.store.types = engine.store.types
  indexes_eq : ObjectStore.indexData engine'.store.indexes = ObjectStore.indexData engine.store.indexes
  now : ObjectStore.ReadsNow engine.store engine'.store
  opened : ∀ epoch ∈ engine.snapshots, ObjectStore.ReadsAlike engine.store epoch engine'.store epoch
  next : ObjectStore.ReadsAlike engine.store engine.publishedEpoch engine'.store engine'.publishedEpoch

theorem KeepsReads.refl (h : engine.Sound) : KeepsReads engine engine where
  snapshots_eq := rfl
  types_eq := rfl
  indexes_eq := rfl
  now := (ObjectStore.SameData.refl _).readsNow h.store h.store
  opened epoch _ := (ObjectStore.SameData.refl _).readsAlike h.store h.store epoch
  next := (ObjectStore.SameData.refl _).readsAlike h.store h.store _

theorem Sound.since_le (h : engine.Sound) (hidle : engine.store.inTransaction = false)
    {id : ObjectId} {cell : Cell DecodedObject} (hcell : engine.store.cells id = some cell) :
    cell.since ≤ engine.publishedEpoch := by
  refine h.mvcc.since_of_not_written ?_ hcell
  rw [show engine.mvcc.written = [] from h.idle hidle]
  exact List.not_mem_nil

theorem keepsReads_restored (h : engine.Sound) (hsettled : engine.Settled)
    (hidle : engine.store.inTransaction = false) {engine' : Engine H Id}
    (hrestored : engine.Restored engine') : KeepsReads engine engine' := by
  have hsound : engine'.store.Sound := (hrestored.sound h).store
  have hdata : engine.store.SameData engine'.store :=
    (hsettled hidle).symm.trans (hrestored.sameData h)
  obtain ⟨epoch, next, watermark, hepoch, hnext, rfl⟩ := hrestored
  refine ⟨rfl, hdata.types_eq, hdata.indexes_eq, hdata.readsNow h.store hsound,
    fun epoch _ => hdata.readsAlike h.store hsound epoch, ?_⟩
  -- The published epoch may be later, but no version is.
  have hsince := fun later (hlater : engine.publishedEpoch ≤ later) =>
    @readAt_of_since_le _ _ engine.store.cells later
      fun hcell => Nat.le_trans (h.since_le hidle hcell) hlater
  apply ObjectStore.readsAlike_of_cells h.store hsound
  · intro id
    change engine.committed.identity.findAt id epoch = _
    rw [← (hsettled hidle).identity_eq]
    unfold IdentityMap.findAt
    cases hentry : engine.store.identity id with
    | none => rfl
    | some entry =>
      have hle : entry.currentEpoch ≤ engine.publishedEpoch :=
        h.since_le hidle (ObjectStore.cells_of_entry hentry)
      simp only [hle, Nat.le_trans hle hepoch, if_true]
  · rw [hdata.cells_eq]
    exact (hsince epoch hepoch).trans (hsince engine.publishedEpoch (Nat.le_refl _)).symm

theorem keepsReads_commit (h : engine.Sound) (hidle : engine.store.inTransaction = false)
    {store : ObjectStore H Id} {count : Nat}
    (hrun : ObjectStore.collectGarbage engine.oldest engine.begin.store = .ok count store)
    (hcollected : ObjectStore.Collected engine.snapshots engine.begin.store store) :
    KeepsReads engine (commit { engine.begin with store := store }) := by
  have hsound : (commit { engine.begin with store := store }).store.Sound :=
    hcollected.sound.congr rfl rfl rfl (Nat.le_refl _)
  have hentry := @ObjectStore.entry_of_ok H Id _ _ engine.begin.store store engine.snapshots count
    h.store.heap hrun
  have hsince : ∀ {id : ObjectId} {cell : Cell DecodedObject}, engine.store.cells id = some cell →
      cell.since ≤ engine.publishedEpoch := h.since_le hidle
  have hpublished : engine.publishedEpoch ≤ store.transactionEpoch := by
    rw [← show engine.begin.store.transactionEpoch = store.transactionEpoch from
      (congrArg (· + 1) hcollected.epoch_eq).symm]
    exact Nat.le_of_lt h.mvcc.published_lt
  refine ⟨rfl, hcollected.types_eq, congrArg ObjectStore.indexData hcollected.indexes_eq, ?_,
    fun epoch hepoch => ?_, ?_⟩
  · apply ObjectStore.readsNow_of_cells h.store hsound _ hcollected.cleared.now_eq
      (congrArg ObjectStore.indexData hcollected.indexes_eq)
    intro id
    change store.identity.find id = engine.store.identity.find id
    unfold IdentityMap.find
    rcases hentry id with hsame | ⟨entry, hbefore, hafter, -⟩
    · rw [hsame]
      rfl
    · rw [hafter, show engine.store.identity id = some entry from hbefore]
      obtain ⟨current, currentEpoch, previous⟩ := entry
      cases current with
      | none => rfl
      | some record => rfl
  · apply ObjectStore.readsAlike_of_cells h.store hsound _ (hcollected.cleared.readAt_eq hepoch)
    intro id
    change store.identity.findAt id epoch = engine.store.identity.findAt id epoch
    unfold IdentityMap.findAt
    rcases hentry id with hsame | ⟨entry, hbefore, hafter, hle⟩
    · rw [hsame]
      rfl
    · rw [hafter, show engine.store.identity id = some entry from hbefore]
      simp only [ObjectStore.cleared, hle epoch hepoch, if_true]
  · have hcells : (commit { engine.begin with store := store }).store.cells.readAt
        store.transactionEpoch = engine.store.cells.readAt engine.publishedEpoch := by
      have hafter : store.cells.readAt store.transactionEpoch = store.cells.now := by
        apply readAt_of_since_le
        intro id cell hcell
        exact Nat.le_trans (hcollected.cleared.since_le hsince hcell) hpublished
      have hbefore : engine.store.cells.readAt engine.publishedEpoch = engine.store.cells.now :=
        readAt_of_since_le hsince
      exact hafter.trans (hcollected.cleared.now_eq.trans hbefore.symm)
    apply ObjectStore.readsAlike_of_cells h.store hsound _ hcells
    intro id
    change store.identity.findAt id store.transactionEpoch =
      engine.store.identity.findAt id engine.publishedEpoch
    have hepoch : ∀ entry, engine.store.identity id = some entry →
        entry.currentEpoch ≤ engine.publishedEpoch :=
      fun entry hbefore => hsince (ObjectStore.cells_of_entry hbefore)
    unfold IdentityMap.findAt
    rcases hentry id with hsame | ⟨entry, hbefore, hafter, -⟩
    · rw [hsame]
      rw [show engine.begin.store.identity id = engine.store.identity id from rfl]
      cases hbefore : engine.store.identity id with
      | none => rfl
      | some entry =>
        have hle := hepoch entry hbefore
        simp only [hle, Nat.le_trans hle hpublished, if_true]
    · have hle := hepoch entry hbefore
      rw [hafter, show engine.store.identity id = some entry from hbefore]
      simp only [ObjectStore.cleared, hle, Nat.le_trans hle hpublished, if_true]

theorem keepsReads_collectGarbage (h : engine.Sound) (hsettled : engine.Settled)
    (hidle : engine.store.inTransaction = false) (commits due : Bool) :
    KeepsReads engine (engine.collectGarbage commits due) := by
  rcases collectGarbage_cases h hidle commits due with
    ⟨hrestored, -⟩ | ⟨count, store, hrun, -, -, hcollected, hcommit⟩
  · exact keepsReads_restored h hsettled hidle hrestored
  · rw [hcommit]
    exact keepsReads_commit h hidle hrun hcollected

theorem swept_collectGarbage (h : engine.Sound) (hsettled : engine.Settled) {commits due : Bool}
    {count : Nat} (hcount : engine.collected commits due = some count) :
    engine.store.inTransaction = false ∧
      ObjectStore.Swept engine.oldest (engine.collectGarbage commits due).store ∧
      ∀ id entry', (engine.collectGarbage commits due).store.identity id = some entry' →
        ∃ entry, engine.store.identity id = some entry ∧ entry'.currentEpoch = entry.currentEpoch := by
  unfold collected at hcount
  split at hcount
  · cases hcount
  rename_i htx
  have hidle : engine.store.inTransaction = false := Bool.eq_false_iff.2 htx
  have hdata := hsettled hidle
  have hvalid : RecordStore.Valid engine.begin.store.heap := h.store.heap
  cases hrun : ObjectStore.collectGarbage engine.oldest engine.begin.store with
  | error error store =>
    simp only [hrun] at hcount
    cases hcount
  | ok found store =>
    simp only [hrun] at hcount
    have hswept : ObjectStore.Swept engine.oldest store :=
      ObjectStore.swept_of_ok hvalid hrun
    refine ⟨hidle, ?_⟩
    rcases collectGarbage_cases h hidle commits due with
      ⟨hrestored, hfound⟩ | ⟨count, store', hrun', -, -, -, hcommit⟩
    · by_cases hnone : found = 0
      · obtain ⟨records, -, hlength, herased⟩ := ObjectStore.erased_of_ok hvalid hrun
        rw [hnone] at hlength
        rw [List.eq_nil_of_length_eq_zero hlength.symm] at herased
        have hsame := hdata.symm.trans (hrestored.sameData h)
        have hidentity : (engine.collectGarbage commits due).store.identity = store.identity := by
          funext id
          rw [herased.identity, if_neg (by simp), hsame.identity_eq]
          rfl
        have hcontent : RecordStore.content (engine.collectGarbage commits due).store.heap =
            RecordStore.content store.heap := by
          funext record
          rw [herased.content, if_neg (by simp), hsame.content_eq]
          rfl
        refine ⟨hswept.congr hidentity hcontent, fun id entry' hentry' => ⟨entry', ?_, rfl⟩⟩
        rw [← hsame.identity_eq]
        exact hentry'
      · rcases hfound found store hrun with hzero | hfails
        · exact absurd hzero hnone
        · rw [if_neg hnone, hfails, if_neg Bool.false_ne_true] at hcount
          cases hcount
    · rw [hrun] at hrun'
      injection hrun' with hcounts hstores
      subst hcounts hstores
      rw [hcommit]
      refine ⟨hswept.congr rfl rfl, fun id entry' hentry' => ?_⟩
      change store.identity id = some entry' at hentry'
      rcases ObjectStore.entry_of_ok hvalid hrun id with hsame | ⟨entry, hbefore, hafter, -⟩
      · exact ⟨entry', hsame.symm.trans hentry', rfl⟩
      · rw [hafter] at hentry'
        exact ⟨entry, hbefore, Option.some.inj hentry' ▸ rfl⟩

theorem collected_of_swept (h : engine.Sound) (hidle : engine.store.inTransaction = false)
    (hswept : ObjectStore.Swept engine.oldest engine.store) (commits due : Bool) :
    engine.collected commits due = some 0 := by
  have hbegun : ObjectStore.Swept engine.oldest engine.begin.store := hswept.congr rfl rfl
  have hrun : ObjectStore.collectGarbage engine.oldest engine.begin.store = .ok 0 engine.begin.store :=
    hbegun.collectGarbage_eq h.store.heap rfl
  have hstore : engine.begin.store.Sound := h.store.congr rfl rfl rfl (Nat.le_refl _)
  obtain ⟨hsound, -, hroot⟩ := @refines_collected H Id _ _ _ (fun _ => True) h hidle _
    (.refl hstore)
  have hkept := ((rollback_restored hsound fun _ : due = true => hroot).sound hsound).rootKept
  unfold collected
  rw [if_neg (by rw [hidle]; exact Bool.false_ne_true)]
  simp only [hrun, if_true, hkept, Bool.false_eq_true, if_false]

theorem inTransaction_collectGarbage (h : engine.Sound) (hidle : engine.store.inTransaction = false)
    (commits due : Bool) : (engine.collectGarbage commits due).store.inTransaction = false := by
  rcases collectGarbage_cases h hidle commits due with ⟨hrestored, -⟩ | ⟨count, store, -, -, -, -, hcommit⟩
  · obtain ⟨epoch, next, watermark, -, -, hresync⟩ := hrestored
    rw [hresync]
    rfl
  · rw [hcommit]
    rfl

theorem step_collectGarbage [PageSize] (h : engine.Sound) (hidle : engine.store.inTransaction = false)
    (commits due : Bool) :
    engine.step (.collectGarbage commits due) = engine.collectGarbage commits due :=
  (h.step_eq _).trans (if_neg (by rw [hidle]; exact Bool.false_ne_true))

end Engine

/-! ### Index reads -/

namespace ObjectStore

variable {store store' : ObjectStore H Id}

/-- The ids that `index_range_at` returns and `index_candidate_at` accepts. -/
def indexedAt (store : ObjectStore H Id) (typeName : String) (field : FieldId)
    (lo hi : AttributeValue) (epoch : Nat) : Except Error (List ObjectId) := do
  let ids ← store.indexRangeAt typeName field lo hi epoch
  pure (ids.filter (store.accepts epoch field lo hi))

theorem indexedAt_eq {typeName : String} {field : FieldId} {lo hi : AttributeValue}
    {loKey hiKey : Bytes} {epoch : Nat} (htypes : store'.types = store.types)
    (hgetAt : ∀ id, store'.getAt id epoch = store.getAt id epoch)
    (h : store.ReadsExactly epoch typeName field lo hi loKey hiKey)
    (h' : store'.ReadsExactly epoch typeName field lo hi loKey hiKey) :
    store'.indexedAt typeName field lo hi epoch = store.indexedAt typeName field lo hi epoch := by
  obtain ⟨ids, hids, -, -, hits, hsorted, hfilter, hmem⟩ := h
  obtain ⟨ids', hids', -, -, hits', hsorted', hfilter', hmem'⟩ := h'
  have hsame : hits' = hits := by
    apply Sorted.ext hsorted' hsorted
    rintro ⟨key, id⟩
    rw [hmem', hmem, hgetAt]
    apply and_congr_right
    intro _
    apply exists_congr
    intro object
    exact and_congr_right fun _ => and_congr_left fun _ => typeNamed_congr htypes object typeName
  unfold indexedAt
  rw [hids, hids']
  change Except.ok (ids'.filter _) = Except.ok (ids.filter _)
  rw [hfilter, hfilter', hsame]

omit [DecidableEq Id] [RecordStore H Id DecodedObject Error NotFound] in
theorem isSome_findIndex_congr (hindexes : indexData store'.indexes = indexData store.indexes)
    (typeName : String) (field : FieldId) :
    (store'.findIndex typeName field).isSome = (store.findIndex typeName field).isSome := by
  have htree := congrArg Option.isSome (tree_findIndex store' typeName field)
  rw [hindexes, ← tree_findIndex store, Option.isSome_map, Option.isSome_map] at htree
  exact htree

theorem indexRangeAt_of_none {typeName : String} {field : FieldId}
    (h : store.findIndex typeName field = none) (lo hi : AttributeValue) (epoch : Nat) :
    store.indexRangeAt typeName field lo hi epoch =
      .error ⟨.typeNotFound, "no index on this field"⟩ := by
  unfold indexRangeAt indexServesEpoch
  simp only [h, Bool.false_eq_true, if_false, Option.isNone_none, if_true]

theorem indexRangeAt_of_bounds {typeName : String} {field : FieldId} {lo hi : AttributeValue}
    {error : Error} (hsome : store.findIndex typeName field ≠ none)
    (hbounds : encodeKey lo = .error error ∨
      ∃ loKey, encodeKey lo = .ok loKey ∧ encodeKey hi = .error error) (epoch : Nat) :
    store.indexRangeAt typeName field lo hi epoch = .error error := by
  have hnone : ¬(store.findIndex typeName field).isNone = true :=
    fun h => hsome (Option.isNone_iff_eq_none.1 h)
  obtain ⟨info, hfind⟩ := Option.ne_none_iff_exists'.1 hsome
  unfold indexRangeAt indexRange
  rw [if_neg hnone, hfind]
  rcases hbounds with hlo | ⟨loKey, hlo, hhi⟩
  · rw [hlo]
    exact ite_self _
  · rw [hlo, hhi]
    exact ite_self _

end ObjectStore

namespace Engine

variable {engine engine' : Engine H Id}

theorem KeepsReads.indexedAt_eq (h : KeepsReads engine engine') (hexact : engine.IndexReadsExact)
    (hexact' : engine'.IndexReadsExact) {epoch : Nat} (hepoch : epoch ∈ engine.snapshots)
    (typeName : String) (field : FieldId) (lo hi : AttributeValue) :
    engine'.store.indexedAt typeName field lo hi epoch =
      engine.store.indexedAt typeName field lo hi epoch := by
  have hsome := ObjectStore.isSome_findIndex_congr h.indexes_eq typeName field
  cases hfind : engine.store.findIndex typeName field with
  | none =>
    rw [hfind] at hsome
    have hfind' : engine'.store.findIndex typeName field = none :=
      Option.not_isSome_iff_eq_none.1 (by rw [hsome]; exact Bool.false_ne_true)
    unfold ObjectStore.indexedAt
    rw [ObjectStore.indexRangeAt_of_none hfind, ObjectStore.indexRangeAt_of_none hfind']
    rfl
  | some info =>
    rw [hfind] at hsome
    have hne : engine.store.findIndex typeName field ≠ none := by
      rw [hfind]
      exact Option.some_ne_none info
    have hne' : engine'.store.findIndex typeName field ≠ none :=
      fun hnone => by rw [hnone] at hsome; cases hsome
    have hbad : ∀ error, (encodeKey lo = .error error ∨
        ∃ loKey, encodeKey lo = .ok loKey ∧ encodeKey hi = .error error) →
          engine'.store.indexedAt typeName field lo hi epoch =
            engine.store.indexedAt typeName field lo hi epoch := by
      intro error hbounds
      unfold ObjectStore.indexedAt
      rw [ObjectStore.indexRangeAt_of_bounds hne hbounds,
        ObjectStore.indexRangeAt_of_bounds hne' hbounds]
      rfl
    cases hlo : encodeKey lo with
    | error error => exact hbad error (.inl hlo)
    | ok loKey =>
      cases hhi : encodeKey hi with
      | error error => exact hbad error (.inr ⟨loKey, hlo, hhi⟩)
      | ok hiKey =>
        apply ObjectStore.indexedAt_eq h.types_eq (h.opened epoch hepoch).getAt_eq
        · exact hexact epoch hepoch typeName field (by rw [hfind]; rfl) lo hi loKey hiKey hlo hhi
        · exact hexact' epoch (h.snapshots_eq ▸ hepoch) typeName field hsome lo hi loKey hiKey hlo hhi

/-- Garbage collection in every state that a run reaches whose rollbacks restore the store. Every reader
gets what it got before, and so does a reader of an index where index reads are exact. When the
collection returns, and no open snapshot is before a version, the heap has one record for each object;
and a second collection finds nothing. -/
theorem collectGarbage_run [PageSize] (hfresh : engine.Fresh) {actions : List Action}
    (hmeets : Meets Restores actions engine) (commits due : Bool) :
    KeepsReads (engine.run actions) ((engine.run actions).step (.collectGarbage commits due)) ∧
    (Meets (fun engine action => engine.GoesThrough action ∧ engine.Restores action ∧
        engine.Covers action) actions engine →
      ∀ epoch ∈ (engine.run actions).snapshots, ∀ typeName field lo hi,
        ((engine.run actions).step (.collectGarbage commits due)).store.indexedAt typeName field lo hi
            epoch =
          (engine.run actions).store.indexedAt typeName field lo hi epoch) ∧
    ∀ count, (engine.run actions).collected commits due = some count →
      ((∀ epoch ∈ (engine.run actions).snapshots, ∀ id entry,
          (engine.run actions).store.identity.inspect id = .ok entry → entry.currentEpoch ≤ epoch) →
        ((engine.run actions).step (.collectGarbage commits due)).store.HoldsLive) ∧
      ∀ commits' due',
        ((engine.run actions).step (.collectGarbage commits due)).collected commits' due' = some 0 := by
  obtain ⟨hsound, hsettled⟩ := settled_run hfresh hmeets
  have hsound' : ((engine.run actions).step (.collectGarbage commits due)).Sound :=
    sound_step hsound trivial
  have hkeeps : KeepsReads (engine.run actions)
      ((engine.run actions).step (.collectGarbage commits due)) := by
    by_cases htx : (engine.run actions).store.inTransaction = true
    · rw [hsound.step_eq, show (engine.run actions).act (.collectGarbage commits due) =
        engine.run actions from if_pos htx]
      exact .refl hsound
    · have hidle := Bool.eq_false_iff.2 htx
      rw [step_collectGarbage hsound hidle]
      exact keepsReads_collectGarbage hsound hsettled hidle commits due
  refine ⟨hkeeps, fun hmeets epoch hepoch typeName field lo hi => ?_, fun count hcount => ?_⟩
  · have hserving := serving_run hfresh hmeets
    have hchange : Change (engine.run actions).CoversIndex (engine.run actions)
        ((engine.run actions).step (.collectGarbage commits due)) :=
      change_of_step hsound trivial trivial fun _ _ _ haction => by cases haction
    exact hkeeps.indexedAt_eq hserving.readsExact (hserving.change hsound' hchange).readsExact hepoch
      typeName field lo hi
  · obtain ⟨hidle, hswept, hentries⟩ := swept_collectGarbage hsound hsettled hcount
    have hidle' := inTransaction_collectGarbage hsound hidle commits due
    rw [step_collectGarbage hsound hidle] at hsound' hkeeps ⊢
    refine ⟨fun hnewer => ?_, fun commits' due' => ?_⟩
    · apply hswept.holdsLive hsound'.store
      intro epoch hepoch id entry' hentry'
      obtain ⟨entry, hentry, hsame⟩ := hentries id entry' hentry'
      rw [hsame]
      refine hnewer epoch hepoch id entry ?_
      unfold IdentityMap.inspect
      rw [hentry]
    · apply collected_of_swept hsound' hidle'
      unfold oldest
      rw [hkeeps.snapshots_eq]
      exact hswept

section DefaultBuild

attribute [local instance] PageSize.default Statement.ledgerStore

/-- An object that has been updated once and another that is removed, after an update that is rolled back,
with no reader left. -/
def accountRemoved : List Action :=
  accountCreated ++ [.begin, .write (.create 1024 [(1, .int64 5)]),
    .write (.update 1026 1024 [(1, .int64 20)]), .commit,
    .begin, .write (.update 1026 1024 [(1, .int64 30)]), .rollback true,
    .begin, .write (.remove 1027), .commit]

/-- Two records go, and one is left. -/
theorem holdsLive_accountRemoved :
    ((empty.run accountRemoved).step (.collectGarbage true true)).store.HoldsLive ∧
      ((empty.run accountRemoved).step (.collectGarbage true true)).collected true false = some 0 := by
  have hmeets : Meets Restores accountRemoved empty :=
    ⟨trivial, trivial, trivial, trivial, trivial, trivial, trivial, trivial, trivial, trivial,
      fun _ => by decide, trivial, trivial, trivial, trivial⟩
  obtain ⟨hlive, hsecond⟩ := (collectGarbage_run fresh_empty hmeets true true).2.2 2 (by decide)
  exact ⟨hlive fun epoch hepoch => absurd hepoch List.not_mem_nil, hsecond true false⟩

end DefaultBuild

end Engine

end MoDb.Store
