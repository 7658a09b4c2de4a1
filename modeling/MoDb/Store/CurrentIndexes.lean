import MoDb.Store.IndexReads

/-!
# Index reads at the published epoch

A reader at the last commit is served by every index that was not created after the running
transaction has changed what the reader sees.
-/

namespace MoDb.Store.Engine

open Effect Storage Index Mvcc

variable {H Id : Type} [DecidableEq Id] [RecordStore H Id DecodedObject Error NotFound]
  {engine : Engine H Id}

/-- At the last commit, the values in the field have keys, which are those of now. -/
def CoversPublished (engine : Engine H Id) (type : TypeDefinition) (field : FieldId) : Prop :=
  ∀ id object, engine.store.getAt id engine.publishedEpoch = .ok object →
    engine.store.TypeNamed object type.name → Encodable object.fields field ∧
      ∀ key, IndexedKey object.fields field key → ∃ current, engine.store.get id = .ok current ∧
        IndexedKey current.fields field key

def CoversNow (engine : Engine H Id) : Action → Prop
  | .createIndex type field => ∀ definition, engine.store.findType type = .ok definition →
    engine.CoversPublished definition field
  | _ => True

/-- The indexes are exact, and serve the published epoch. -/
structure ServingNow (engine : Engine H Id) : Prop extends Agreeing engine where
  names : engine.store.NamesStable
  committed_names : engine.committed.NamesStable
  serves : ∀ info ∈ engine.store.indexes.getD [], engine.store.Serves engine.publishedEpoch info

theorem Restored.publishedEpoch_le {engine' : Engine H Id} (h : engine.Restored engine') :
    engine.publishedEpoch ≤ engine'.publishedEpoch := by
  obtain ⟨epoch, next, watermark, hepoch, -, rfl⟩ := h
  exact hepoch

theorem publishedEpoch_step [PageSize] (h : engine.Sound) {action : Action}
    (hrestores : engine.Restores action) :
    engine.publishedEpoch ≤ (engine.step action).publishedEpoch := by
  have hlt : engine.publishedEpoch ≤ engine.store.transactionEpoch :=
    Nat.le_of_lt h.mvcc.published_lt
  rw [h.step_eq]
  rcases engine.act_cases action with hact | ⟨hcomes, hact⟩
  · exact Nat.le_of_eq (congrArg Engine.publishedEpoch hact.symm)
  rw [hact]
  cases action with
  | write write =>
    simp only [perform, Engine.write]
    split <;> exact Nat.le_refl _
  | createIndex type field =>
    simp only [perform, createIndex]
    split <;> exact Nat.le_refl _
  | commit => exact hlt
  | rollback due => exact (rollback_restored h hrestores).publishedEpoch_le
  | collectGarbage commits due =>
    rcases collectGarbage_cases h hcomes commits due with
      ⟨hrestored, -⟩ | ⟨count, store, -, -, -, hcollected, hcommit⟩
    · exact hrestored.publishedEpoch_le
    · have hstamp : store.transactionEpoch = engine.store.transactionEpoch :=
        congrArg (· + 1) hcollected.epoch_eq
      rw [perform, hcommit]
      change engine.publishedEpoch ≤ store.transactionEpoch
      rw [hstamp]
      exact hlt
  | reopen => exact h.published_le
  | _ => exact Nat.le_refl _

theorem ServingNow.change [PageSize] {engine' : Engine H Id} (h : engine.ServingNow)
    (hsound : engine'.Sound) (hpublished : engine.publishedEpoch ≤ engine'.publishedEpoch)
    (hchange : Change engine.CoversPublished engine engine') : engine'.ServingNow := by
  have hagreeing := h.toAgreeing.change hsound hchange
  obtain ⟨hnames, hcommitted_names⟩ := hchange.names h.sound h.names h.committed_names
  refine ⟨hagreeing, hnames, hcommitted_names, ?_⟩
  cases hchange with
  | quiet hquiet hcommitted hwatched =>
    intro info' hinfo'
    have hepoch : engine'.publishedEpoch = engine.publishedEpoch ∨
        engine'.publishedEpoch = engine.store.transactionEpoch := by
      rcases hwatched engine'.publishedEpoch List.mem_cons_self with hold | hnew
      · rcases List.mem_cons.1 hold with heq | hopen
        · exact .inl heq
        · exact .inl (Nat.le_antisymm (h.sound.mvcc.snapshots_le _ hopen) hpublished)
      · exact .inr hnew
    rcases hepoch with heq | heq
    · obtain ⟨info, hinfo, hsame⟩ := ObjectStore.exists_of_forall₂_right hquiet.indexes hinfo'
      rw [heq]
      exact (h.serves info hinfo).quiet h.sound.store hquiet hsame
    · apply (hagreeing.store info' hinfo').serves
      rw [hquiet.cells_eq, heq]
      exact readAt_of_since_le h.sound.mvcc.since_le
  | wrote write typeName infos _ _ hbinds hreindexed =>
    intro info' hinfo'
    obtain ⟨info, hinfo, hround⟩ := ObjectStore.exists_of_forall₂_right hreindexed hinfo'
    exact (h.serves info hinfo).reindexed h.sound.mvcc.published_lt hbinds hround
  | @indexed type field tree hcovers records hrecords htree =>
    intro info hinfo
    rcases List.mem_append.1 hinfo with hinfo | hinfo
    · exact (h.serves info hinfo).congr rfl (fun _ _ _ _ => Iff.rfl) rfl ⟨rfl, rfl, rfl, rfl⟩
    · rw [List.mem_singleton.1 hinfo]
      apply serves_backfill h.sound h.names hrecords htree
      intro id object hget hnamed
      obtain ⟨hencodable, hkeys⟩ := hcovers id object hget hnamed
      exact ⟨hencodable, fun _ => hkeys⟩
  | @collected store hcollected =>
    intro info hinfo
    apply (hagreeing.store info hinfo).serves
    have hstamp : store.transactionEpoch = engine.store.transactionEpoch :=
      congrArg (· + 1) hcollected.epoch_eq
    apply readAt_of_since_le
    intro id cell hcell
    change cell.since ≤ store.transactionEpoch
    rw [hstamp]
    exact hcollected.cleared.since_le h.sound.mvcc.since_le hcell
  | @resynced epoch next watermark snapshots hepoch hnext hsnapshots =>
    intro info hinfo
    apply (hagreeing.store info hinfo).serves
    exact readAt_resync (h.sound.withRoot hepoch hnext) watermark hepoch

theorem servingNow_fresh (h : engine.Fresh) : engine.ServingNow := by
  obtain ⟨hagreeing, hnames, hcommitted, hserves, -⟩ := serving_fresh h
  exact ⟨hagreeing, hnames, hcommitted, hserves _ List.mem_cons_self⟩

theorem servingNow_run [PageSize] (hfresh : engine.Fresh) {actions : List Action}
    (hmeets : Meets (fun engine action => engine.GoesThrough action ∧ engine.Restores action ∧
      engine.CoversNow action) actions engine) : (engine.run actions).ServingNow := by
  have hstep : ∀ (engine : Engine H Id) (action : Action), engine.ServingNow →
      engine.GoesThrough action ∧ engine.Restores action ∧ engine.CoversNow action →
        (engine.step action).ServingNow := by
    rintro engine action h ⟨hthrough, hrestores, hcovers⟩
    have hchange : Change engine.CoversPublished engine (engine.step action) := by
      apply change_of_step h.sound hthrough hrestores
      rintro type field definition rfl htype
      exact hcovers definition htype
    exact h.change (sound_step h.sound hrestores) (publishedEpoch_step h.sound hrestores) hchange
  exact run_induction hstep (servingNow_fresh hfresh) hmeets

theorem ServingNow.readsExactly (h : engine.ServingNow) {typeName : String} {field : FieldId}
    (hsome : (engine.store.findIndex typeName field).isSome) {lo hi : AttributeValue}
    {loKey hiKey : Bytes} (hlo : encodeKey lo = .ok loKey) (hhi : encodeKey hi = .ok hiKey) :
    engine.store.ReadsExactly engine.publishedEpoch typeName field lo hi loKey hiKey := by
  obtain ⟨info, hfind⟩ := Option.isSome_iff_exists.1 hsome
  obtain ⟨hinfo, -⟩ := ObjectStore.findIndex_mem hfind
  exact ObjectStore.readsExactly h.sound.store h.names hfind (h.store info hinfo)
    (h.serves info hinfo) hlo hhi

end MoDb.Store.Engine
