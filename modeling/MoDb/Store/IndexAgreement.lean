import MoDb.Store.Exactness

/-!
# Indexes agree with the objects

As long as every write either succeeds or fails before it has changed the identity map, every index
is exact, in every state that is reached.
-/

namespace MoDb.Store

open Effect Storage Index Mvcc

variable {H Id : Type} [DecidableEq Id] [RecordStore H Id DecodedObject Error NotFound]

namespace ObjectStore

variable {store store' store'' : ObjectStore H Id}

/-- The two say the same of the keys. -/
structure SameIndex (info info' : IndexInfo) : Prop where
  typeName_eq : info'.typeName = info.typeName
  fieldId_eq : info'.fieldId = info.fieldId
  tree_eq : info'.tree = info.tree
  removedEpoch_eq : info'.removedEpoch = info.removedEpoch

/-- No version and no index has changed. -/
structure Quiet (store store' : ObjectStore H Id) : Prop where
  cells_eq : store'.cells = store.cells
  named_iff : ∀ object, store.Registered object → ∀ name,
    store'.TypeNamed object name ↔ store.TypeNamed object name
  openedEpoch_eq : store'.openedEpoch = store.openedEpoch
  indexes : List.Forall₂ SameIndex (store.indexes.getD []) (store'.indexes.getD [])

theorem forall₂_sameIndex (infos : List IndexInfo) : List.Forall₂ SameIndex infos infos :=
  List.forall₂_same.2 fun _ _ => ⟨rfl, rfl, rfl, rfl⟩

theorem quiet_of_eq (hcells : store'.cells = store.cells) (htypes : store'.types = store.types)
    (hopened : store'.openedEpoch = store.openedEpoch)
    (hindexes : store'.indexes.getD [] = store.indexes.getD []) : store.Quiet store' where
  cells_eq := hcells
  named_iff object _ name := typeNamed_congr htypes object name
  openedEpoch_eq := hopened
  indexes := hindexes ▸ forall₂_sameIndex _

omit [DecidableEq Id] [RecordStore H Id DecodedObject Error NotFound] in
theorem typeNamed_append {types : List TypeDefinition} (htypes : store'.types = store.types ++ types)
    {object : DecodedObject} (hregistered : store.Registered object) (name : String) :
    store'.TypeNamed object name ↔ store.TypeNamed object name := by
  obtain ⟨type, htype⟩ := hregistered
  have htype' := findType_append htypes htype
  unfold TypeNamed
  rw [htype, htype']

theorem IndexesExact.quiet (h : store.IndexesExact) (hsound : store.Sound)
    (hquiet : store.Quiet store') : store'.IndexesExact := by
  intro info' hinfo'
  obtain ⟨info, hinfo, hsame⟩ := exists_of_forall₂_right hquiet.indexes hinfo'
  apply (h info hinfo).congr (congrArg Cells.now hquiet.cells_eq) _ hsame.typeName_eq
    hsame.fieldId_eq hsame.tree_eq
  intro id object hobject name
  exact hquiet.named_iff object (id_of_now hsound hobject).2 name

theorem mem_reopened {info' : IndexInfo} (h : info' ∈ store.reopened.indexes.getD []) :
    ∃ info ∈ store.indexes.getD [], { info with removedEpoch := none } = info' := by
  unfold reopened at h
  cases hindexes : store.indexes with
  | none =>
    rw [hindexes] at h
    cases h
  | some infos =>
    rw [hindexes] at h
    exact List.mem_map.1 h

theorem IndexesExact.reopened (h : store.IndexesExact) (hsound : store.Sound) (next : ObjectId) :
    IndexesExact { store.reopened with nextObjectId := next } := by
  intro info' hinfo'
  have hcells := cells_reopened hsound next
  obtain ⟨info, hinfo, rfl⟩ := mem_reopened hinfo'
  exact (h info hinfo).congr (congrArg Cells.now hcells) (fun _ _ _ _ => Iff.rfl) rfl rfl rfl

end ObjectStore

namespace Engine

variable [PageSize] {engine : Engine H Id}

def GoesThrough (engine : Engine H Id) : Action → Prop
  | .write write => ∀ error store, write.run engine.oldest engine.store = .error error store →
    store.identity = engine.store.identity
  | _ => True

theorem goesThrough_of_ok {write : Write}
    (h : isOk (write.run engine.oldest engine.store) = true) : engine.GoesThrough (.write write) := by
  intro error store hrun
  rw [hrun] at h
  cases h

/-- What an action can do to the versions and to the indexes. `creates` says which indexes may be
created. -/
inductive Change (creates : TypeDefinition → FieldId → Prop) (engine : Engine H Id) :
    Engine H Id → Prop
  /-- Nothing; a commit makes the store the committed one. -/
  | quiet {engine' : Engine H Id} (hquiet : engine.store.Quiet engine'.store)
      (hcommitted : engine'.committed = engine.committed ∨ engine'.committed = engine'.store)
      (hwatched : ∀ epoch ∈ engine'.publishedEpoch :: engine'.snapshots,
        epoch ∈ engine.publishedEpoch :: engine.snapshots ∨ epoch = engine.store.transactionEpoch) :
      Change creates engine engine'
  | wrote (write : Write) (typeName : String) {store : ObjectStore H Id}
      (infos : Option (List IndexInfo)) (written : List ObjectId)
      (pending : ObjectId → Option DecodedObject)
      (hbinds : ObjectStore.Binds engine.snapshots engine.store write typeName store)
      (hreindexed : List.Forall₂ (ObjectStore.Reindexed typeName (write.target engine.store)
        (engine.store.cells.now (write.target engine.store)) (write.value engine.store)
        engine.store.transactionEpoch) (engine.store.indexes.getD []) (infos.getD [])) :
      Change creates engine { engine with
        store := { store with indexes := infos }, written := written, pending := pending }
  | indexed (type : TypeDefinition) (field : FieldId) (tree : KeySet) (hcreates : creates type field)
      {records : List (Id × DecodedObject)}
      (hrecords : RecordStore.records engine.store.heap = .ok records)
      (htree : engine.store.backfill type.name field records KeySet.empty = .ok tree) :
      Change creates engine { engine with
        store := { engine.store with
          indexes := some (engine.store.indexes.getD [] ++
            [{ typeName := type.name, fieldId := field, tree := tree }]) } }
  | collected {store : ObjectStore H Id}
      (hcollected : ObjectStore.Collected engine.snapshots engine.begin.store store) :
      Change creates engine (commit { engine.begin with store := store })
  | resynced {epoch : Nat} {next watermark : ObjectId} {snapshots : List Nat}
      (hepoch : engine.publishedEpoch ≤ epoch) (hnext : engine.committed.nextObjectId ≤ next)
      (hsnapshots : ∀ epoch ∈ snapshots, epoch ∈ engine.snapshots) :
      Change creates engine { (engine.withRoot epoch next).resync watermark with snapshots := snapshots }

variable {creates : TypeDefinition → FieldId → Prop}

theorem Change.of_eq {engine' : Engine H Id} (hcells : engine'.store.cells = engine.store.cells)
    (htypes : engine'.store.types = engine.store.types)
    (hopened : engine'.store.openedEpoch = engine.store.openedEpoch)
    (hindexes : engine'.store.indexes.getD [] = engine.store.indexes.getD [])
    (hcommitted : engine'.committed = engine.committed)
    (hwatched : ∀ epoch ∈ engine'.publishedEpoch :: engine'.snapshots,
      epoch ∈ engine.publishedEpoch :: engine.snapshots) : Change creates engine engine' :=
  .quiet (ObjectStore.quiet_of_eq hcells htypes hopened hindexes) (.inl hcommitted)
    fun epoch hepoch => .inl (hwatched epoch hepoch)

theorem Change.refl (engine : Engine H Id) : Change creates engine engine :=
  .of_eq rfl rfl rfl rfl rfl fun _ hepoch => hepoch

theorem Change.of_restored {engine' : Engine H Id} (h : engine.Restored engine') :
    Change creates engine engine' := by
  obtain ⟨epoch, next, watermark, hepoch, hnext, rfl⟩ := h
  exact .resynced hepoch hnext fun _ hopen => hopen

theorem change_of_write (h : engine.Sound) (htx : engine.store.inTransaction = true) {write : Write}
    (hthrough : engine.GoesThrough (.write write)) :
    Change creates engine (engine.write write) := by
  unfold Engine.write
  rcases ObjectStore.run_cases h.store htx engine.snapshots write with
    ⟨error, store, hrun, hunseen⟩ | ⟨typeName, store, hbinds, hrun⟩
  · have hfailed : write.run engine.oldest engine.store = .error error store := hrun
    rw [hfailed]
    exact .of_eq hunseen.cells_eq hunseen.types_eq hunseen.openedEpoch_eq
      (congrArg (Option.getD · []) hunseen.indexes_eq) rfl fun _ hepoch => hepoch
  · cases hresult : write.run engine.oldest engine.store with
    | error error state =>
      -- The entry has changed, so the write must not fail.
      have hsame := hthrough error state hresult
      obtain ⟨infos, hafter⟩ := ObjectStore.after_bound hrun
      change after (write.run engine.oldest engine.store) = _ at hafter
      rw [hresult] at hafter
      have hstate : state = { store with indexes := infos } := hafter
      rw [hstate] at hsame
      exact absurd (congrFun hsame _) hbinds.identity_ne
    | ok value state =>
      rcases hrun with hrun | ⟨error, hrun⟩
      · obtain ⟨infos, rfl, hforall⟩ := ObjectStore.reindexed_of_ok (hrun.symm.trans hresult)
        have hepoch : store.transactionEpoch = engine.store.transactionEpoch :=
          congrArg (· + 1) hbinds.epoch_eq
        rw [hepoch, hbinds.indexes_eq] at hforall
        exact .wrote write typeName infos _ _ hbinds hforall
      · have hfailed : write.run engine.oldest engine.store = .error error store := hrun
        rw [hfailed] at hresult
        cases hresult

theorem change_of_step (h : engine.Sound) {action : Action} (hthrough : engine.GoesThrough action)
    (hrestores : engine.Restores action) (hcreates : ∀ type field definition, action = .createIndex type field →
      engine.store.findType type = .ok definition → creates definition field) :
    Change creates engine (engine.step action) := by
  rw [h.step_eq]
  rcases engine.act_cases action with hact | ⟨hcomes, hact⟩
  · rw [hact]
    exact .refl engine
  rw [hact]
  cases action with
  | begin => exact .of_eq rfl rfl rfl rfl rfl fun _ hepoch => hepoch
  | write write => exact change_of_write h hcomes hthrough
  | createIndex type field =>
    simp only [perform, createIndex]
    cases htype : engine.store.findType type with
    | error error => exact .refl engine
    | ok definition =>
      rcases ObjectStore.createIndex_cases h.store hcomes definition field with
        ⟨error, infos, hrun, hinfos⟩ | ⟨records, tree, hrecords, htree, -, hrun⟩
      · simp only [onStore, hrun, after_error]
        exact .of_eq rfl rfl rfl hinfos rfl fun _ hepoch => hepoch
      · simp only [onStore, hrun, after_ok]
        exact .indexed definition field tree (hcreates type field definition rfl htype) hrecords htree
  | registerType definition =>
    obtain ⟨next, types, -, hafter⟩ := ObjectStore.after_registerType definition engine.store
    simp only [perform, onStore, hafter]
    refine .quiet ⟨rfl, fun object hregistered name => ?_, rfl, ?_⟩ (.inl rfl)
      fun epoch hepoch => .inl hepoch
    · exact ObjectStore.typeNamed_append rfl hregistered name
    · exact ObjectStore.forall₂_sameIndex _
  | commit =>
    refine .quiet (ObjectStore.quiet_of_eq rfl rfl rfl rfl) (.inr rfl) fun epoch hepoch => ?_
    rcases List.mem_cons.1 hepoch with rfl | hepoch
    · exact .inr rfl
    · exact .inl (List.mem_cons_of_mem _ hepoch)
  | commitFailed => exact .of_eq rfl rfl rfl rfl rfl fun _ hepoch => hepoch
  | rollback due => exact .of_restored (rollback_restored h hrestores)
  | collectGarbage commits due =>
    rcases collectGarbage_cases h hcomes commits due with
      ⟨hrestored, -⟩ | ⟨count, store, -, -, -, hcollected, hcommit⟩
    · exact .of_restored hrestored
    · rw [perform, hcommit]
      exact .collected hcollected
  | openSnapshot =>
    refine .of_eq rfl rfl rfl rfl rfl fun epoch hepoch => ?_
    rcases List.mem_cons.1 hepoch with rfl | hepoch
    · exact List.mem_cons_self
    · exact hepoch
  | shareSnapshot epoch =>
    refine .of_eq rfl rfl rfl rfl rfl fun epoch' hepoch => ?_
    rcases List.mem_cons.1 hepoch with rfl | hepoch
    · exact List.mem_cons_self
    · rcases List.mem_cons.1 hepoch with rfl | hepoch
      · exact List.mem_cons_of_mem _ hcomes
      · exact List.mem_cons_of_mem _ hepoch
  | closeSnapshot epoch =>
    refine .of_eq rfl rfl rfl rfl rfl fun epoch' hepoch => ?_
    rcases List.mem_cons.1 hepoch with rfl | hepoch
    · exact List.mem_cons_self
    · exact List.mem_cons_of_mem _ (List.mem_of_mem_erase hepoch)
  | reopen =>
    exact .resynced h.published_le (Nat.le_refl engine.committed.nextObjectId) fun _ hopen =>
      absurd hopen List.not_mem_nil
  | fault entries trees =>
    refine .quiet ⟨rfl, fun _ _ _ => Iff.rfl, rfl, ?_⟩ (.inl rfl) fun epoch hepoch => .inl hepoch
    change List.Forall₂ ObjectStore.SameIndex (engine.store.indexes.getD [])
      ((engine.store.indexes.map (List.map fun info =>
        { info with fault := trees info.typeName info.fieldId })).getD [])
    cases engine.store.indexes with
    | none => exact .nil
    | some infos =>
      apply List.forall₂_map_right_iff.2
      exact List.forall₂_same.2 fun _ _ => ⟨rfl, rfl, rfl, rfl⟩

/-! ### Agreement -/

structure Agreeing (engine : Engine H Id) : Prop where
  sound : engine.Sound
  store : engine.store.IndexesExact
  committed : engine.committed.IndexesExact

omit [PageSize] in
theorem exact_of_now {store store' : ObjectStore H Id} (h : store.IndexesExact)
    (hnow : store'.cells.now = store.cells.now) (htypes : store'.types = store.types)
    (hindexes : store'.indexes = store.indexes) : store'.IndexesExact := by
  intro info hinfo
  rw [hindexes] at hinfo
  exact (h info hinfo).congr hnow
    (fun _ object _ name => ObjectStore.typeNamed_congr htypes object name) rfl rfl rfl

theorem Agreeing.change {engine' : Engine H Id} (h : engine.Agreeing) (hsound : engine'.Sound)
    (hchange : Change creates engine engine') : engine'.Agreeing := by
  suffices hexact : engine'.store.IndexesExact ∧ engine'.committed.IndexesExact from
    ⟨hsound, hexact.1, hexact.2⟩
  cases hchange with
  | quiet hquiet hcommitted _ =>
    have hstore := h.store.quiet h.sound.store hquiet
    rcases hcommitted with hcommitted | hcommitted
    · exact ⟨hstore, hcommitted ▸ h.committed⟩
    · exact ⟨hstore, hcommitted ▸ hstore⟩
  | wrote write typeName infos _ _ hbinds hreindexed =>
    refine ⟨fun info' hinfo' => ?_, h.committed⟩
    obtain ⟨info, hinfo, hround⟩ := ObjectStore.exists_of_forall₂_right hreindexed hinfo'
    exact ((h.store info hinfo).reindexed hbinds hround).congr rfl (fun _ _ _ _ => Iff.rfl) rfl rfl rfl
  | indexed type field tree _ hrecords htree =>
    refine ⟨fun info hinfo => ?_, h.committed⟩
    have hexact : ∀ info, engine.store.Exact info → ObjectStore.Exact { engine.store with
        indexes := some (engine.store.indexes.getD [] ++
          [{ typeName := type.name, fieldId := field, tree := tree }]) } info :=
      fun info hexact => hexact.congr rfl (fun _ _ _ _ => Iff.rfl) rfl rfl rfl
    rcases List.mem_append.1 hinfo with hinfo | hinfo
    · exact hexact info (h.store info hinfo)
    · rw [List.mem_singleton.1 hinfo]
      exact hexact _ (ObjectStore.exact_backfill h.sound.store hrecords htree)
  | @collected store hcollected =>
    have hstore : engine.begin.store.IndexesExact := exact_of_now h.store rfl rfl rfl
    have hcollected' : store.IndexesExact := exact_of_now hstore hcollected.cleared.now_eq
      hcollected.types_eq hcollected.indexes_eq
    have hcommitted : ObjectStore.IndexesExact { store with
        inTransaction := false, epoch := store.transactionEpoch } :=
      exact_of_now hcollected' rfl rfl rfl
    exact ⟨hcommitted, hcommitted⟩
  | @resynced epoch next watermark snapshots hepoch hnext _ =>
    have hroot : (engine.withRoot epoch next).committed.IndexesExact :=
      exact_of_now h.committed rfl rfl rfl
    have hreopened := hroot.reopened (h.sound.withRoot hepoch hnext).committed (max next watermark)
    exact ⟨hreopened, hreopened⟩

omit [PageSize] in
theorem agreeing_fresh (h : engine.Fresh) : engine.Agreeing := by
  have hstore : engine.store.IndexesExact := by
    intro info hinfo
    rw [h.indexes] at hinfo
    cases hinfo
  exact ⟨sound_fresh h, hstore, h.committed ▸ hstore⟩

omit [PageSize] in
theorem findIndex_createIndex [PageSize] (h : engine.Sound) (htx : engine.store.inTransaction = true)
    {type : TypeDefinition} {field : FieldId} {store : ObjectStore H Id}
    (hrun : ObjectStore.createIndex type field engine.store = .ok () store) :
    ∃ info, store.findIndex type.name field = some info := by
  rcases ObjectStore.createIndex_cases h.store htx type field with
    ⟨error, infos, hfailed, -⟩ | ⟨records, tree, -, -, hnone, hdone⟩
  · rw [hfailed] at hrun
    cases hrun
  · rw [hdone] at hrun
    injection hrun with _ hstore
    subst hstore
    unfold ObjectStore.findIndex at hnone ⊢
    refine ⟨{ typeName := type.name, fieldId := field, tree := tree }, ?_⟩
    rw [Option.getD_some, List.find?_append, hnone, Option.none_or, List.find?_cons_of_pos]
    exact decide_eq_true ⟨rfl, rfl⟩

end Engine

namespace Engine

section DefaultBuild

attribute [local instance] PageSize.default Statement.ledgerStore

end DefaultBuild

end Engine

end MoDb.Store
