import MoDb.Store.Collect

/-!
# Snapshot isolation

The database refines the store of two versions: each action is some steps of it. A snapshot that is
opened when no object of the published state has been written twice by the running transaction
reads, as long as it is open, what was published when it was opened.
-/

namespace MoDb.Store

open Effect Storage Index Mvcc

variable {H Id : Type} [DecidableEq Id] [RecordStore H Id DecodedObject Error NotFound]

namespace ObjectStore

variable {store store' : ObjectStore H Id}

theorem cells_reopened (h : store.Sound) (next : ObjectId) :
    ({ store.reopened with nextObjectId := next } : ObjectStore H Id).cells = store.cells := by
  have hcontent := (RecordStore.reopen_eq h.heap).2
  exact cells_congr rfl fun record _ _ => congrFun hcontent record

theorem Sound.reopened (h : store.Sound) {next : ObjectId} (hnext : store.nextObjectId ≤ next) :
    ({ store.reopened with nextObjectId := next } : ObjectStore H Id).Sound := by
  obtain ⟨hvalid, hcontent⟩ := RecordStore.reopen_eq h.heap
  refine h.of_extends hvalid ?_ rfl rfl hnext
  intro record object hobject
  exact (congrFun hcontent record).trans hobject

omit [DecidableEq Id] [RecordStore H Id DecodedObject Error NotFound] in
theorem findType_append {types : List TypeDefinition} (htypes : store'.types = store.types ++ types)
    {id : TypeDefinitionId} {type : TypeDefinition} (h : store.findType id = .ok type) :
    store'.findType id = .ok type := by
  unfold findType at h ⊢
  rw [htypes, List.find?_append]
  cases hfind : store.types.find? fun definition => definition.id = id with
  | none =>
    rw [hfind] at h
    cases h
  | some found =>
    rw [hfind] at h
    exact h

theorem Sound.withTypes (h : store.Sound) {types : List TypeDefinition} {next : ObjectId}
    (hnext : store.nextObjectId ≤ next) :
    ({ store with nextObjectId := next, types := store.types ++ types } : ObjectStore H Id).Sound := by
  have hholds : ∀ {record id}, store.Holds record id →
      Holds { store with nextObjectId := next, types := store.types ++ types } record id := by
    rintro record id ⟨object, hcontent, hid, type, htype⟩
    exact ⟨object, hcontent, hid, type, findType_append rfl htype⟩
  exact ⟨h.heap, fun hentry hcurrent => hholds (h.current hentry hcurrent),
    fun hentry hprevious => hholds (h.previous hentry hprevious), h.distinct,
    fun hentry => Nat.lt_of_lt_of_le (h.bound_lt hentry) hnext⟩

end ObjectStore

namespace Engine

variable {engine : Engine H Id} {opens : Mvcc.State ObjectId DecodedObject → Prop}

def mvcc (engine : Engine H Id) : Mvcc.State ObjectId DecodedObject where
  cells := engine.store.cells
  saved := engine.committed.cells
  published := engine.publishedEpoch
  stamp := engine.store.transactionEpoch
  snapshots := engine.snapshots
  written := engine.written
  pending := engine.pending
  history := engine.history

structure Sound (engine : Engine H Id) : Prop where
  store : engine.store.Sound
  committed : engine.committed.Sound
  published_le : engine.publishedEpoch ≤ engine.committed.epoch
  idle : engine.store.inTransaction = false → engine.written = []
  mvcc : WellFormed engine.mvcc
  rootKept : engine.rootLost = false
  idleRoot : engine.store.inTransaction = false → engine.rootAhead = false

/-- A snapshot is opened before the running transaction has updated or removed a second time an
object of the published state. -/
def OpensWhole (engine : Engine H Id) : Action → Prop
  | .openSnapshot => ∀ id, 1 < engine.written.count id →
    History.viewAt engine.history engine.publishedEpoch id = none
  | _ => True

/-! ### The actions as steps -/

omit [DecidableEq Id] [RecordStore H Id DecodedObject Error NotFound] in
theorem rootAhead_eq_false (htypes : engine.store.types.length ≤ engine.committed.types.length)
    (hindexes : engine.store.indexes.isSome = true → engine.committed.indexes.isSome = true) :
    engine.rootAhead = false := by
  unfold rootAhead
  rw [Bool.or_eq_false_iff, decide_eq_false_iff_not, Nat.not_lt, Bool.and_eq_false_imp]
  refine ⟨htypes, fun hsome => ?_⟩
  rw [Option.isNone_eq_false_iff]
  exact hindexes hsome

theorem mvcc_resync (hcommitted : engine.committed.Sound) (watermark : ObjectId) :
    (engine.resync watermark).mvcc = engine.mvcc.abort engine.committed.epoch := by
  unfold resync mvcc State.abort
  simp only [ObjectStore.cells_reopened hcommitted]
  rfl

theorem Sound.resync (h : engine.Sound) (watermark : ObjectId) : (engine.resync watermark).Sound := by
  have hsound := h.committed.reopened (Nat.le_max_left engine.committed.nextObjectId watermark)
  refine ⟨hsound, hsound, Nat.le_refl _, fun _ => rfl, ?_, h.rootKept, fun _ => ?_⟩
  · rw [mvcc_resync h.committed]
    exact h.mvcc.abort h.published_le
  · exact rootAhead_eq_false (Nat.le_refl _) id

theorem Sound.step_eq [PageSize] (h : engine.Sound) (action : Action) :
    engine.step action = engine.act action := by
  unfold step
  rw [h.rootKept, if_neg Bool.false_ne_true]

theorem Sound.withRoot (h : engine.Sound) {epoch : Nat} {next : ObjectId}
    (hepoch : engine.publishedEpoch ≤ epoch) (hnext : engine.committed.nextObjectId ≤ next) :
    (engine.withRoot epoch next).Sound :=
  ⟨h.store, h.committed.congr rfl rfl rfl hnext, hepoch, h.idle, h.mvcc, h.rootKept, h.idleRoot⟩

/-- The store has been read again from the file, whose root was not before the last commit. -/
def Restored (engine engine' : Engine H Id) : Prop :=
  ∃ epoch next watermark, engine.publishedEpoch ≤ epoch ∧ engine.committed.nextObjectId ≤ next ∧
    engine' = (engine.withRoot epoch next).resync watermark

theorem Restored.sound {engine' : Engine H Id} (h : engine.Sound) (hrestored : engine.Restored engine') :
    engine'.Sound := by
  obtain ⟨epoch, next, watermark, hepoch, hnext, rfl⟩ := hrestored
  exact (h.withRoot hepoch hnext).resync watermark

theorem rollback_restored (h : engine.Sound) {due : Bool}
    (hroot : due = true → engine.rootAhead = false) : engine.Restored (engine.rollback due) := by
  unfold rollback checkpointed
  cases due with
  | false =>
    rw [if_neg Bool.false_ne_true]
    dsimp only
    rw [h.rootKept, if_neg Bool.false_ne_true]
    exact ⟨engine.committed.epoch, _, _, h.published_le, Nat.le_refl _, rfl⟩
  | true =>
    have hkept : engine.persistRoot.rootLost = false :=
      Bool.or_eq_false_iff.2 ⟨h.rootKept, hroot rfl⟩
    have hpersist : engine.persistRoot = engine.withRoot engine.store.epoch
        (max engine.committed.nextObjectId engine.store.nextObjectId) := by
      unfold persistRoot
      rw [h.rootKept, hroot rfl, Bool.or_false, ← h.rootKept]
      rfl
    rw [if_pos rfl]
    dsimp only
    rw [hkept, if_neg Bool.false_ne_true, hpersist]
    exact ⟨engine.store.epoch, _, _, Nat.le_of_lt_succ h.mvcc.published_lt, Nat.le_max_left _ _, rfl⟩

theorem sound_wrote (h : engine.Sound)
    {store : ObjectStore H Id} (hstore : store.Sound) (hstx : store.inTransaction = true)
    {id : ObjectId} {value : Option DecodedObject}
    (hsteps : Steps opens engine.mvcc (engine.wrote id value store).mvcc) :
    (engine.wrote id value store).Sound where
  store := hstore
  committed := h.committed
  published_le := h.published_le
  idle hidle := by
    rw [show (engine.wrote id value store).store.inTransaction = true from hstx] at hidle
    cases hidle
  mvcc := h.mvcc.steps hsteps
  rootKept := h.rootKept
  idleRoot hidle := by
    rw [show (engine.wrote id value store).store.inTransaction = true from hstx] at hidle
    cases hidle

theorem mvcc_wrote_unseen (h : engine.Sound) {store : ObjectStore H Id}
    (hunseen : engine.store.Unseen store) (id : ObjectId) :
    (engine.wrote id (store.get id).toOption store).mvcc = engine.mvcc := by
  have hpending : Function.update engine.pending id (store.get id).toOption = engine.pending := by
    apply Function.update_eq_self_iff.2
    rw [ObjectStore.get_toOption hunseen.sound, hunseen.cells_eq]
    exact congrFun h.mvcc.now_eq id
  unfold mvcc wrote ObjectStore.transactionEpoch
  simp only [hunseen.cells_eq, hunseen.identity_eq, hunseen.epoch_eq, hpending, if_true]

theorem mvcc_wrote_rewritten {id : ObjectId} {value : Option DecodedObject}
    {store : ObjectStore H Id} (hrewritten : engine.store.Rewritten id value store)
    (infos : Option (List IndexInfo)) :
    (engine.wrote id value { store with indexes := infos }).mvcc = engine.mvcc.write id value := by
  have hcells : ({ store with indexes := infos } : ObjectStore H Id).cells = store.cells := rfl
  unfold mvcc wrote State.write
  simp only [hcells, hrewritten.cells_eq, if_neg hrewritten.identity_ne]
  unfold ObjectStore.transactionEpoch
  simp only [hrewritten.epoch_eq]

section Steps

variable [PageSize]

theorem refines_write (h : engine.Sound) (htx : engine.store.inTransaction = true) (write : Write) :
    (engine.write write).Sound ∧ Steps opens engine.mvcc (engine.write write).mvcc := by
  unfold Engine.write
  rcases ObjectStore.run_cases h.store htx engine.snapshots write with
    ⟨error, store, hrun, hunseen⟩ | ⟨typeName, store, hbinds, hrun⟩
  · have hfailed : write.run engine.oldest engine.store = .error error store := hrun
    rw [hfailed]
    have hsteps : Steps opens engine.mvcc
        (engine.wrote (write.target engine.store)
          (store.get (write.target engine.store)).toOption store).mvcc := by
      rw [mvcc_wrote_unseen h hunseen]
      exact .refl _
    exact ⟨sound_wrote h hunseen.sound (hunseen.inTransaction_eq.trans htx) hsteps, hsteps⟩
  · have hbound : ∀ infos, (engine.wrote (write.target engine.store) (write.value engine.store)
        { store with indexes := infos }).Sound ∧ Steps opens engine.mvcc
          (engine.wrote (write.target engine.store) (write.value engine.store)
            { store with indexes := infos }).mvcc := by
      intro infos
      have hsteps : Steps opens engine.mvcc (engine.wrote (write.target engine.store)
          (write.value engine.store) { store with indexes := infos }).mvcc := by
        rw [mvcc_wrote_rewritten hbinds.toRewritten]
        exact Steps.single (.write _ _ _ hbinds.spares)
      exact ⟨sound_wrote h (hbinds.sound.withIndexes infos)
        (hbinds.inTransaction_eq.trans htx) hsteps, hsteps⟩
    -- The transaction reads the new version, whether the indexes took it or not.
    have hget : ∀ infos, (ObjectStore.get { store with indexes := infos }
        (write.target engine.store)).toOption = write.value engine.store := by
      intro infos
      rw [ObjectStore.get_toOption (hbinds.sound.withIndexes infos)]
      change store.cells.now (write.target engine.store) = _
      rw [hbinds.cells_eq, now_update, Function.update_self]
      rfl
    obtain ⟨infos, hafter⟩ := ObjectStore.after_bound hrun
    change after (write.run engine.oldest engine.store) = _ at hafter
    cases hresult : write.run engine.oldest engine.store with
    | ok value state =>
      rw [hresult] at hafter
      have hstate : state = { store with indexes := infos } := hafter
      rw [hstate]
      exact hbound infos
    | error error state =>
      rw [hresult] at hafter
      have hstate : state = { store with indexes := infos } := hafter
      rw [hstate]
      simp only [hget infos]
      exact hbound infos

end Steps

theorem refines_commit (h : engine.Sound) :
    engine.commit.Sound ∧ Steps opens engine.mvcc engine.commit.mvcc := by
  have hstore : engine.commit.store.Sound := h.store.congr rfl rfl rfl (Nat.le_refl _)
  have hsteps : Steps opens engine.mvcc engine.commit.mvcc := Steps.single (.commit engine.mvcc)
  exact ⟨⟨hstore, hstore, Nat.le_refl _, fun _ => rfl, h.mvcc.steps hsteps, h.rootKept,
    fun _ => rootAhead_eq_false (Nat.le_refl _) id⟩, hsteps⟩

theorem refines_commitFailed (h : engine.Sound) (htx : engine.store.inTransaction = true) :
    engine.commitFailed.Sound ∧ Steps opens engine.mvcc engine.commitFailed.mvcc := by
  have hsteps : Steps opens engine.mvcc engine.commitFailed.mvcc := Steps.single (.skip engine.mvcc)
  have hbusy : engine.commitFailed.store.inTransaction = true := htx
  refine ⟨⟨h.store.congr rfl rfl rfl (Nat.le_refl _), h.committed, h.published_le, fun hidle => ?_,
    h.mvcc.steps hsteps, h.rootKept, fun hidle => ?_⟩, hsteps⟩
  all_goals
    rw [hbusy] at hidle
    cases hidle

theorem refines_restored {engine' : Engine H Id} (h : engine.Sound)
    (hrestored : engine.Restored engine') :
    engine'.Sound ∧ Steps opens engine.mvcc engine'.mvcc := by
  refine ⟨hrestored.sound h, ?_⟩
  obtain ⟨epoch, next, watermark, hepoch, hnext, rfl⟩ := hrestored
  rw [mvcc_resync (h.withRoot hepoch hnext).committed]
  exact Steps.single (.abort engine.mvcc epoch hepoch)

theorem refines_collected (h : engine.Sound) (hidle : engine.store.inTransaction = false)
    {store : ObjectStore H Id}
    (hcollected : ObjectStore.Collected engine.snapshots engine.begin.store store) :
    Sound { engine.begin with store := store } ∧
      Steps opens engine.mvcc (mvcc { engine.begin with store := store }) ∧
        rootAhead { engine.begin with store := store } = false := by
  have hstamp : store.transactionEpoch = engine.store.transactionEpoch :=
    congrArg (· + 1) hcollected.epoch_eq
  have hmvcc : mvcc { engine.begin with store := store } =
      { engine.mvcc with cells := store.cells } := by
    unfold mvcc begin
    simp only [hstamp]
  have hsteps : Steps opens engine.mvcc (mvcc { engine.begin with store := store }) := by
    rw [hmvcc]
    exact hcollected.cleared.steps rfl rfl (h.idle hidle)
  have hroot : rootAhead { engine.begin with store := store } = false := by
    rw [← h.idleRoot hidle]
    unfold rootAhead
    rw [hcollected.types_eq, hcollected.indexes_eq]
    rfl
  exact ⟨⟨hcollected.sound, h.committed, h.published_le, fun _ => h.idle hidle, h.mvcc.steps hsteps,
    h.rootKept, fun _ => hroot⟩, hsteps, hroot⟩

theorem collectGarbage_cases (h : engine.Sound) (hidle : engine.store.inTransaction = false)
    (commits due : Bool) :
    (engine.Restored (engine.collectGarbage commits due) ∧ ∀ count store,
      ObjectStore.collectGarbage engine.oldest engine.begin.store = .ok count store →
        count = 0 ∨ commits = false) ∨
      ∃ count store, ObjectStore.collectGarbage engine.oldest engine.begin.store = .ok count store ∧
        ¬count = 0 ∧ commits = true ∧
        ObjectStore.Collected engine.snapshots engine.begin.store store ∧
        engine.collectGarbage commits due = commit { engine.begin with store := store } := by
  have hbegun : engine.begin.store.Sound := h.store.congr rfl rfl rfl (Nat.le_refl _)
  have hcollected := @ObjectStore.collectGarbage_collected H Id _ _ _ engine.snapshots hbegun
  change ObjectStore.Collected engine.snapshots engine.begin.store
    (after (ObjectStore.collectGarbage engine.oldest engine.begin.store)) at hcollected
  unfold collectGarbage
  cases hrun : ObjectStore.collectGarbage engine.oldest engine.begin.store with
  | error error store =>
    rw [hrun] at hcollected
    obtain ⟨hsound, -, hroot⟩ := @refines_collected H Id _ _ _ (fun _ => True) h hidle store hcollected
    simp only [hrun]
    exact .inl ⟨rollback_restored hsound fun _ => hroot, fun _ _ hok => by cases hok⟩
  | ok count store =>
    rw [hrun] at hcollected
    obtain ⟨hsound, -, hroot⟩ := @refines_collected H Id _ _ _ (fun _ => True) h hidle store hcollected
    simp only [hrun]
    by_cases hnone : count = 0
    · rw [if_pos hnone]
      refine .inl ⟨rollback_restored hsound fun _ => hroot, fun _ _ hok => ?_⟩
      injection hok with hcount
      exact .inl (hcount ▸ hnone)
    · rw [if_neg hnone]
      cases commits with
      | true => exact .inr ⟨count, store, rfl, hnone, rfl, hcollected, rfl⟩
      | false =>
        have htx : store.inTransaction = true := hcollected.inTransaction_eq
        obtain ⟨hfailed, -⟩ := @refines_commitFailed H Id _ _ _ (fun _ => True) hsound htx
        exact .inl ⟨rollback_restored hfailed fun _ => hroot, fun _ _ _ => .inr rfl⟩

theorem refines_collectGarbage (h : engine.Sound) (hidle : engine.store.inTransaction = false)
    (commits due : Bool) : (engine.collectGarbage commits due).Sound ∧
      Steps opens engine.mvcc (engine.collectGarbage commits due).mvcc := by
  rcases collectGarbage_cases h hidle commits due with
    ⟨hrestored, -⟩ | ⟨count, store, -, -, -, hcollected, hcommit⟩
  · exact refines_restored h hrestored
  · obtain ⟨hsound, hsteps, -⟩ := refines_collected h hidle hcollected
    obtain ⟨hcommitted, hcommits⟩ := refines_commit hsound
    rw [hcommit]
    exact ⟨hcommitted, hsteps.trans hcommits⟩

theorem refines_onStore (h : engine.Sound) {store : ObjectStore H Id} (hstore : store.Sound)
    (hcells : store.cells = engine.store.cells) (hepoch : store.epoch = engine.store.epoch)
    (htx : store.inTransaction = engine.store.inTransaction)
    (hroot : engine.store.inTransaction = false → rootAhead { engine with store := store } = false) :
    Sound { engine with store := store } ∧ Steps opens engine.mvcc (mvcc { engine with store := store }) := by
  have hmvcc : mvcc { engine with store := store } = engine.mvcc := by
    unfold mvcc ObjectStore.transactionEpoch
    simp only [hcells, hepoch]
  rw [hmvcc]
  refine ⟨⟨hstore, h.committed, h.published_le, fun hidle => h.idle (htx.symm.trans hidle), ?_,
    h.rootKept, fun hidle => hroot (htx.symm.trans hidle)⟩, .refl _⟩
  rw [hmvcc]
  exact h.mvcc

theorem refines_withSnapshots (h : engine.Sound) {snapshots : List Nat}
    (hstep : Step opens engine.mvcc { engine.mvcc with snapshots := snapshots }) :
    Sound { engine with snapshots := snapshots } ∧
      Steps opens engine.mvcc (mvcc { engine with snapshots := snapshots }) :=
  ⟨⟨h.store, h.committed, h.published_le, h.idle, h.mvcc.step hstep, h.rootKept, h.idleRoot⟩,
    Steps.single hstep⟩

theorem refines_step [PageSize] (h : engine.Sound) {action : Action}
    (hrestores : engine.Restores action) (hopens : action = .openSnapshot → opens engine.mvcc) :
    (engine.step action).Sound ∧ Steps opens engine.mvcc (engine.step action).mvcc := by
  rw [h.step_eq]
  rcases engine.act_cases action with hact | ⟨hcomes, hact⟩
  · rw [hact]
    exact ⟨h, .refl _⟩
  rw [hact]
  cases action with
  | begin =>
    exact ⟨⟨h.store.congr rfl rfl rfl (Nat.le_refl _), h.committed, h.published_le, fun _ => h.idle hcomes,
      h.mvcc, h.rootKept, fun _ => h.idleRoot hcomes⟩, .refl _⟩
  | write write => exact refines_write h hcomes write
  | createIndex type field =>
    simp only [perform, createIndex]
    cases engine.store.findType type with
    | error error => exact ⟨h, .refl _⟩
    | ok definition =>
      obtain ⟨infos, hinfos⟩ : ∃ infos,
          after (ObjectStore.createIndex definition field engine.store) =
            { engine.store with indexes := infos } := by
        rcases ObjectStore.createIndex_cases h.store hcomes definition field with
          ⟨error, infos, hrun, -⟩ | ⟨records, tree, -, -, -, hrun⟩
        · exact ⟨infos, congrArg after hrun⟩
        · exact ⟨_, congrArg after hrun⟩
      simp only [onStore, hinfos]
      exact refines_onStore h (h.store.withIndexes infos) rfl rfl rfl fun hidle =>
        absurd (hcomes.symm.trans hidle) nofun
  | registerType definition =>
    obtain ⟨next, types, hnext, hafter⟩ :=
      ObjectStore.after_registerType definition engine.store
    simp only [perform, onStore, hafter]
    exact refines_onStore h (h.store.withTypes hnext) rfl rfl rfl fun hidle =>
      absurd (hcomes.symm.trans hidle) nofun
  | commit => exact refines_commit h
  | commitFailed => exact refines_commitFailed h hcomes
  | rollback due => exact refines_restored h (rollback_restored h hrestores)
  | collectGarbage commits due => exact refines_collectGarbage h hcomes commits due
  | openSnapshot => exact refines_withSnapshots h (.opened engine.mvcc (hopens rfl))
  | shareSnapshot epoch => exact refines_withSnapshots h (.shared engine.mvcc epoch hcomes)
  | closeSnapshot epoch => exact refines_withSnapshots h (.closed engine.mvcc epoch)
  | reopen =>
    have hresync := h.resync 0
    have hstep : Step opens engine.mvcc (mvcc { engine.resync 0 with snapshots := [] }) := by
      have hmvcc : mvcc { engine.resync 0 with snapshots := [] } =
          { engine.mvcc.abort engine.committed.epoch with snapshots := [] } := by
        rw [← mvcc_resync h.committed 0]
        rfl
      rw [hmvcc]
      exact .restart engine.mvcc _ h.published_le
    exact ⟨⟨hresync.store, hresync.committed, hresync.published_le, hresync.idle, h.mvcc.step hstep,
      hresync.rootKept, hresync.idleRoot⟩, Steps.single hstep⟩
  | fault entries trees =>
    simp only [perform, fault]
    refine refines_onStore h (h.store.congr rfl rfl rfl (Nat.le_refl _)) rfl rfl rfl fun hidle => ?_
    rw [← h.idleRoot hidle]
    unfold rootAhead
    rw [Option.isSome_map]

theorem mvcc_fresh (h : engine.Fresh) : engine.mvcc = State.initial engine.store.epoch := by
  have hcells : engine.store.cells = fun _ => none := by
    funext id
    unfold ObjectStore.cells
    rw [h.unbound]
    rfl
  unfold mvcc State.initial
  rw [h.committed, hcells, h.published, h.snapshots, h.written, h.pending, h.history]
  rfl

theorem sound_fresh (h : engine.Fresh) : engine.Sound := by
  have hstore : engine.store.Sound := by
    refine ⟨h.valid, fun hentry => ?_, fun hentry => ?_, fun hentry => ?_, fun hentry => ?_⟩
    all_goals
      rw [h.unbound] at hentry
      cases hentry
  have hroot : engine.rootAhead = false := by
    simp [rootAhead, h.committed, h.indexes]
  exact ⟨hstore, h.committed ▸ hstore, Nat.le_of_eq (by rw [h.committed, h.published]), fun _ => h.written,
    mvcc_fresh h ▸ WellFormed.initial _, h.rootLost, fun _ => hroot⟩

theorem sound_step [PageSize] (h : engine.Sound) {action : Action} (hrestores : engine.Restores action) :
    (engine.step action).Sound :=
  (@refines_step H Id _ _ engine (fun _ => True) _ h action hrestores fun _ => trivial).1

theorem sound_run [PageSize] (h : engine.Sound) {actions : List Action}
    (hmeets : Meets Restores actions engine) : (engine.run actions).Sound :=
  @run_induction H Id _ _ _ Restores Sound (fun _ _ => fun h => sound_step h) _ _ h hmeets

theorem sound_or_lost_run [PageSize] (h : engine.Sound) (actions : List Action) :
    (engine.run actions).Sound ∨
      (engine.run actions).rootLost = true ∧ (engine.run actions).store.inTransaction = false := by
  have hstep : ∀ (engine : Engine H Id) (action : Action),
      (engine.Sound ∨ engine.rootLost = true ∧ engine.store.inTransaction = false) → True →
        ((engine.step action).Sound ∨
          (engine.step action).rootLost = true ∧ (engine.step action).store.inTransaction = false) := by
    rintro engine action (hsound | ⟨hlost, hidle⟩) -
    · by_cases hrestores : engine.Restores action
      · exact .inl (sound_step hsound hrestores)
      · cases action with
        | rollback due =>
          obtain ⟨rfl, hroot⟩ := Classical.not_imp.1 hrestores
          rw [hsound.step_eq]
          unfold act
          by_cases htx : engine.store.inTransaction = true
          · have hlost : engine.persistRoot.rootLost = true := by
              rw [Bool.not_eq_false] at hroot
              exact (congrArg _ hroot).trans (Bool.or_true _)
            simp only [if_pos htx, rollback, checkpointed, if_true, hlost]
            exact .inr ⟨hlost, rfl⟩
          · simp only [if_neg htx]
            exact .inl hsound
        | _ => exact absurd trivial hrestores
    · have hsame : engine.step action = engine := if_pos hlost
      rw [hsame]
      exact .inr ⟨hlost, hidle⟩
  have hmeets : ∀ (actions : List Action) (engine : Engine H Id), Meets (fun _ _ => True) actions engine := by
    intro actions
    induction actions with
    | nil => exact fun _ => trivial
    | cons action rest ih => exact fun engine => ⟨trivial, ih (engine.step action)⟩
  exact run_induction hstep (.inl h) (hmeets actions engine)

theorem inv_run [PageSize] (hfresh : engine.Fresh) {actions : List Action}
    (hmeets : Meets (fun engine action => engine.OpensWhole action ∧ engine.Restores action) actions
      engine) : (engine.run actions).Sound ∧ Inv (engine.run actions).mvcc := by
  have hstep : ∀ (engine : Engine H Id) (action : Action), (engine.Sound ∧ Inv engine.mvcc) →
      engine.OpensWhole action ∧ engine.Restores action →
        ((engine.step action).Sound ∧ Inv (engine.step action).mvcc) := by
    rintro engine action ⟨hsound, hinv⟩ ⟨hwhole, hrestores⟩
    obtain ⟨hsound', hsteps⟩ := @refines_step H Id _ _ engine State.Once _ hsound action hrestores
      fun hopen => by rw [hopen] at hwhole; exact hwhole
    exact ⟨hsound', hinv.steps hsteps⟩
  exact run_induction hstep ⟨sound_fresh hfresh, mvcc_fresh hfresh ▸ Inv.initial _⟩ hmeets

/-! ### Isolation -/

def Reads (result : Except Error DecodedObject) : Option DecodedObject → Prop
  | some object => result = .ok object
  | none => ∃ error, result = .error error ∧ NotFound error

/-- Each open snapshot reads the values of the last transaction committed with an epoch that is not
after its own, by id and by a scan that lists each object once. -/
def Isolated (engine : Engine H Id) : Prop :=
  ∀ epoch ∈ engine.snapshots,
    (∀ id, Reads (engine.store.getAt id epoch) (History.viewAt engine.history epoch id)) ∧
      ∃ list, engine.store.scanAt epoch = .ok list ∧ (list.map DecodedObject.id).Nodup ∧
        ∀ object, object ∈ list ↔ History.viewAt engine.history epoch object.id = some object

/-- Snapshot isolation, in every state that a run reaches. -/
theorem isolated_run [PageSize] (hfresh : engine.Fresh) {actions : List Action}
    (hmeets : Meets (fun engine action => engine.OpensWhole action ∧ engine.Restores action) actions
      engine) : (engine.run actions).Isolated := by
  obtain ⟨hsound, hinv⟩ := inv_run hfresh hmeets
  intro epoch hepoch
  have hview : (engine.run actions).store.cells.readAt epoch =
      History.viewAt (engine.run actions).history epoch := hinv.snapshots_at epoch hepoch
  rw [← hview]
  constructor
  · intro id
    cases hread : (engine.run actions).store.cells.readAt epoch id with
    | some object => exact ObjectStore.getAt_of_some hsound.store hread
    | none => exact ObjectStore.getAt_of_none hsound.store hread
  · exact ObjectStore.scanAt_eq hsound.store epoch

end Engine

/-! ### An object updated twice in one transaction -/

namespace Engine

section DefaultBuild

attribute [local instance] PageSize.default Statement.ledgerStore

def empty : Engine (Ledger DecodedObject) Nat :=
  let store := {
    nextObjectId := 1024
    epoch := 0
    types := []
    identity := fun _ => none
    heap := {}
    indexes := none
    openedEpoch := 0 }
  { store := store, committed := store, publishedEpoch := 0 }

theorem fresh_empty : empty.Fresh :=
  fresh_created ⟨List.nodup_nil, fun _ h => absurd h List.not_mem_nil⟩ rfl

def accountCreated : List Action :=
  [.begin,
    .registerType ⟨0, "Account", [{ id := 1, name := "balance", type := .int64 }]⟩,
    .write (.create 1024 [(1, .int64 10)]),
    .commit]

def updatedTwice : List Action :=
  accountCreated ++ [.begin, .write (.update 1026 1024 [(1, .int64 20)]),
    .write (.update 1026 1024 [(1, .int64 30)]), .openSnapshot]

def updatedOnce : List Action :=
  accountCreated ++ [.begin, .write (.update 1026 1024 [(1, .int64 20)]), .openSnapshot,
    .write (.update 1026 1024 [(1, .int64 30)]), .commit]

/-- The snapshot does not find the object that was committed before it was opened. -/
theorem not_isolated_of_updatedTwice : ¬(empty.run updatedTwice).Isolated := by
  intro hisolated
  have hread : ObjectStore.getAt (empty.run updatedTwice).store 1026 1 =
      .ok ⟨1026, 1024, [(1, .int64 10)]⟩ := (hisolated 1 (by decide)).1 1026
  cases hread

theorem isolated_updatedOnce : (empty.run updatedOnce).Isolated := by
  refine isolated_run fresh_empty ⟨⟨trivial, trivial⟩, ⟨trivial, trivial⟩, ⟨trivial, trivial⟩,
    ⟨trivial, trivial⟩, ⟨trivial, trivial⟩, ⟨trivial, trivial⟩, ⟨?_, trivial⟩, ⟨trivial, trivial⟩,
    ⟨trivial, trivial⟩, trivial⟩
  intro id hcount
  change 1 < List.count id [1026] at hcount
  have hle : List.count id [1026] ≤ 1 := List.count_le_length
  omega

end DefaultBuild

end Engine

end MoDb.Store
