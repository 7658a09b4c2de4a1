import MoDb.Object.History

/-!
# Rollback

A rollback drops the buffer, so the data file is as the transaction found it but for blank pages at
its end. Then it does bookkeeping: in `full` mode the checkpoint moves up to the last commit, and its
offset is cleared with the log. Both go through the mirror of the root, which still has the fields
that the transaction changed. When there is no bookkeeping to do, or the mirror has no such field,
the database is the one that was committed.
-/

namespace MoDb.Object.Database

open Storage Tx Effect

variable {δ κ : Type}

def BookkeepingDue (db : Database δ κ) : Prop :=
  db.primaryStorage = .full ∧
    (db.commitsSinceCheckpoint ≠ 0 ∨ db.store.root.checkpointWalOffset ≠ 0)

instance (db : Database δ κ) : Decidable db.BookkeepingDue :=
  inferInstanceAs (Decidable (_ ∧ _))

def rollbackCheckpoint (db : Database δ κ) : Nat :=
  if db.primaryStorage = .full ∧ db.commitsSinceCheckpoint ≠ 0 then db.lastCommitLsn
  else db.store.root.checkpointLsn

def rollbackOffset (db : Database δ κ) : Nat :=
  if db.primaryStorage = .full then 0 else db.store.root.checkpointWalOffset

def rollbackRoot (db : Database δ κ) : DatabaseRoot :=
  { db.store.root with
    checkpointLsn := db.rollbackCheckpoint, checkpointWalOffset := db.rollbackOffset }

/-- The mirror has the epoch, the baseline and the index directory of `base`: no type was defined, no
first index was created, and no commit failed past its epoch. -/
def MirrorKept (base db : Database δ κ) : Prop :=
  db.store.root.epoch = base.store.root.epoch ∧
    db.store.root.currentBaseline = base.store.root.currentBaseline ∧
      db.store.root.indexDir = base.store.root.indexDir

instance (base db : Database δ κ) : Decidable (MirrorKept base db) :=
  inferInstanceAs (Decidable (_ ∧ _ ∧ _))

/-! ### The bookkeeping -/

/-- `db'` is `db` but for its root, which is in its page when `written`. -/
structure RootWritten (db db' : Database δ κ) (written : Prop) : Prop where
  rootPage_eq : db'.store.rootPage = db.store.rootPage
  catalogRoot_eq : db'.file.catalogRoot = db.file.catalogRoot
  pageCount_eq : db'.file.pageCount = db.file.pageCount
  inTransaction_eq : db'.file.inTransaction = false
  pages_eq : written → db'.file.data.pages =
    Function.update db.file.data.pages db.store.rootPage (.root db'.store.root)
  kept : ¬written → db'.store.root = db.store.root ∧ db'.file.data.pages = db.file.data.pages

namespace RootWritten

variable {first second third : Database δ κ} {written written' : Prop}

theorem refl (htx : first.file.inTransaction = false) : RootWritten first first False :=
  ⟨rfl, rfl, rfl, htx, False.elim, fun _ => ⟨rfl, rfl⟩⟩

theorem putRoot (htx : first.file.inTransaction = false) (root : DatabaseRoot) :
    RootWritten first (first.putRoot root) True := by
  unfold Database.putRoot
  rw [writeRootPage_of_not_inTransaction htx]
  exact ⟨rfl, rfl, rfl, htx, fun _ => rfl, fun h => absurd trivial h⟩

theorem trans (h : RootWritten first second written) (h' : RootWritten second third written') :
    RootWritten first third (written ∨ written') where
  rootPage_eq := h'.rootPage_eq.trans h.rootPage_eq
  catalogRoot_eq := h'.catalogRoot_eq.trans h.catalogRoot_eq
  pageCount_eq := h'.pageCount_eq.trans h.pageCount_eq
  inTransaction_eq := h'.inTransaction_eq
  pages_eq := by
    intro hwritten
    by_cases hsecond : written'
    · rw [h'.pages_eq hsecond, h.rootPage_eq]
      by_cases hfirst : written
      · rw [h.pages_eq hfirst, Function.update_idem]
      · rw [(h.kept hfirst).2]
    · rw [(h'.kept hsecond).2, (h'.kept hsecond).1]
      exact h.pages_eq (hwritten.resolve_right hsecond)
  kept := by
    intro hnone
    obtain ⟨hfirst, hsecond⟩ := not_or.1 hnone
    obtain ⟨hroot, hpages⟩ := h.kept hfirst
    obtain ⟨hroot', hpages'⟩ := h'.kept hsecond
    exact ⟨hroot'.trans hroot, hpages'.trans hpages⟩

theorem of_file (h : RootWritten first second written) (hstore : third.store = second.store)
    (hfile : third.file = { second.file with trace := third.file.trace }) :
    RootWritten first third written := by
  refine ⟨?_, ?_, ?_, ?_, ?_, ?_⟩
  · rw [hstore]
    exact h.rootPage_eq
  · rw [hfile]
    exact h.catalogRoot_eq
  · rw [hfile]
    exact h.pageCount_eq
  · rw [hfile]
    exact h.inTransaction_eq
  · rw [hstore, hfile]
    exact h.pages_eq
  · rw [hstore, hfile]
    exact h.kept

theorem congr (h : RootWritten first second written) (hiff : written ↔ written') :
    RootWritten first second written' :=
  ⟨h.rootPage_eq, h.catalogRoot_eq, h.pageCount_eq, h.inTransaction_eq,
    fun hwritten => h.pages_eq (hiff.2 hwritten), fun hnone => h.kept (mt hiff.1 hnone)⟩

theorem data?_eq (h : RootWritten first second written) {root : DatabaseRoot}
    (hroot : first.file.data.pages first.store.rootPage = .root root) (id : Nat) :
    (second.file.data.pages id).data? = (first.file.data.pages id).data? := by
  by_cases hwritten : written
  · rw [h.pages_eq hwritten]
    by_cases hid : id = first.store.rootPage
    · rw [hid, Function.update_self, hroot]
      rfl
    · rw [Function.update_of_ne hid]
  · rw [(h.kept hwritten).2]

theorem pages_of_ne (h : RootWritten first second written) {id : Nat}
    (hid : id ≠ first.store.rootPage) :
    second.file.data.pages id = first.file.data.pages id := by
  by_cases hwritten : written
  · rw [h.pages_eq hwritten, Function.update_of_ne hid]
  · rw [(h.kept hwritten).2]

end RootWritten

theorem rootWritten_checkpointed {db : Database δ κ} (htx : db.file.inTransaction = false) :
    RootWritten db db.checkpointed (db.commitsSinceCheckpoint ≠ 0) := by
  unfold checkpointed
  split
  · next hcommits => exact (RootWritten.refl htx).congr (by simp [hcommits])
  · next hcommits =>
    have hflushed : RootWritten db db.flushed False := (RootWritten.refl htx).of_file rfl rfl
    have hput := hflushed.trans (RootWritten.putRoot hflushed.inTransaction_eq
      { db.store.root with checkpointLsn := db.lastCommitLsn, checkpointWalOffset := db.walOffset })
    exact (hput.congr (by simp [hcommits])).of_file rfl rfl

theorem rootWritten_offsetCleared {db : Database δ κ} (htx : db.file.inTransaction = false) :
    RootWritten db db.offsetCleared
      (db.primaryStorage = .full ∧ db.store.root.checkpointWalOffset ≠ 0) := by
  unfold offsetCleared
  split
  · next hdue => exact (RootWritten.putRoot htx _).congr (by simp [hdue])
  · next hnone => exact (RootWritten.refl htx).congr (by simp [hnone])

theorem root_checkpointed (db : Database δ κ) :
    db.checkpointed.store.root =
      if db.commitsSinceCheckpoint = 0 then db.store.root
      else { db.store.root with
        checkpointLsn := db.lastCommitLsn, checkpointWalOffset := db.walOffset } := by
  unfold checkpointed
  split <;> rfl

theorem root_offsetCleared (db : Database δ κ) :
    db.offsetCleared.store.root =
      { db.store.root with
        checkpointWalOffset :=
          if db.primaryStorage = .full then 0 else db.store.root.checkpointWalOffset } := by
  unfold offsetCleared
  by_cases hfull : db.primaryStorage = .full
  · by_cases hoffset : db.store.root.checkpointWalOffset = 0
    · simp [hfull, ← hoffset]
    · rw [if_pos ⟨hfull, hoffset⟩, if_pos hfull]
      rfl
  · rw [if_neg fun hdue => hfull hdue.1, if_neg hfull]

theorem primaryStorage_checkpointed (db : Database δ κ) :
    db.checkpointed.primaryStorage = db.primaryStorage := by
  unfold checkpointed
  split <;> rfl

theorem abandoned_of_full {db : Database δ κ} (h : db.primaryStorage = .full) :
    db.abandoned = db.discarded.checkpointed.walRemoved.offsetCleared := by
  unfold abandoned
  rw [if_pos h]

theorem abandoned_of_not_full {db : Database δ κ} (h : ¬db.primaryStorage = .full) :
    db.abandoned = db.discarded.walRemoved.offsetCleared := by
  unfold abandoned
  rw [if_neg h]

theorem root_abandoned (db : Database δ κ) : db.abandoned.store.root = db.rollbackRoot := by
  unfold rollbackRoot rollbackCheckpoint rollbackOffset
  by_cases hfull : db.primaryStorage = .full
  · have hmode : db.discarded.checkpointed.walRemoved.primaryStorage = .full :=
      (primaryStorage_checkpointed _).trans hfull
    have hroot : db.discarded.checkpointed.walRemoved.store.root = _ :=
      root_checkpointed db.discarded
    rw [abandoned_of_full hfull, root_offsetCleared, if_pos hmode, hroot]
    by_cases hcommits : db.commitsSinceCheckpoint = 0
    · simp [hfull, hcommits, discarded]
    · simp [hfull, hcommits, discarded]
  · have hmode : ¬db.discarded.walRemoved.primaryStorage = .full := hfull
    rw [abandoned_of_not_full hfull, root_offsetCleared, if_neg hmode, if_neg hfull,
      if_neg fun hdue => hfull hdue.1]
    rfl

theorem rootWritten_abandoned (db : Database δ κ) :
    RootWritten db.discarded db.abandoned db.BookkeepingDue := by
  have hidle : RootWritten db.discarded db.discarded False := .refl rfl
  by_cases hfull : db.primaryStorage = .full
  · rw [abandoned_of_full hfull]
    have hremoved : RootWritten db.discarded db.discarded.checkpointed.walRemoved
        (db.commitsSinceCheckpoint ≠ 0) :=
      (rootWritten_checkpointed hidle.inTransaction_eq).of_file rfl rfl
    have hcleared := hremoved.trans (rootWritten_offsetCleared hremoved.inTransaction_eq)
    refine hcleared.congr ?_
    have hmode : db.discarded.checkpointed.walRemoved.primaryStorage = .full :=
      (primaryStorage_checkpointed _).trans hfull
    rw [BookkeepingDue]
    simp only [hmode, hfull, true_and]
    by_cases hcommits : db.commitsSinceCheckpoint = 0
    · have hroot : db.discarded.checkpointed.walRemoved.store.root = db.store.root :=
        (root_checkpointed db.discarded).trans (if_pos hcommits)
      rw [hroot]
    · simp [hcommits]
  · rw [abandoned_of_not_full hfull]
    have hremoved : RootWritten db.discarded db.discarded.walRemoved False :=
      hidle.of_file rfl rfl
    have hcleared := hremoved.trans (rootWritten_offsetCleared hremoved.inTransaction_eq)
    refine hcleared.congr ?_
    have hmode : ¬db.discarded.walRemoved.primaryStorage = .full := hfull
    simp [BookkeepingDue, hfull, hmode]

def reopened (store : ObjectStore κ) (db : Database δ κ) : Database δ κ :=
  { db with store := store, publishedEpoch := store.root.epoch }

theorem rootWritten_resynced {db : Database δ κ} (htx : db.file.inTransaction = false)
    (watermark : Nat) (store : ObjectStore κ) :
    RootWritten (db.reopened store) (db.resynced watermark store)
      (store.root.nextObjectId < watermark) := by
  have hopened : (db.reopened store).file.inTransaction = false := htx
  have hresynced : db.resynced watermark store =
      (if store.root.nextObjectId < watermark then
        (db.reopened store).putRoot { store.root with nextObjectId := watermark }
      else db.reopened store).flushed := rfl
  rw [hresynced]
  by_cases hlower : store.root.nextObjectId < watermark
  · rw [if_pos hlower]
    have hput := RootWritten.putRoot hopened { store.root with nextObjectId := watermark }
    exact (hput.congr (by simp [hlower])).of_file rfl rfl
  · rw [if_neg hlower]
    exact ((RootWritten.refl hopened).congr (by simp [hlower])).of_file rfl rfl

theorem store_resynced (watermark : Nat) (store : ObjectStore κ) (db : Database δ κ) :
    (db.resynced watermark store).store =
      { store with root.nextObjectId := max store.root.nextObjectId watermark } := by
  unfold resynced
  dsimp only
  split
  · next hlower =>
    rw [Nat.max_eq_right (Nat.le_of_lt hlower)]
    rfl
  · next hnot =>
    rw [Nat.max_eq_left (Nat.le_of_not_lt hnot)]
    rfl

/-! ### What a rollback restores -/

section Restored

variable [StoreParts δ κ]

/-- **The committed database is back.** `db'` is what a rollback of `db` left, in a transaction that
began at `base`: the same pages, with blank ones perhaps after them, and opening it again gives the
same parts and the same root but for the next object id and the checkpoint. -/
structure Restored (base db db' : Database δ κ) : Prop where
  catalogRoot_eq : db'.file.data.catalogRoot = base.file.data.catalogRoot
  pageCount_le : base.file.data.pageCount ≤ db'.file.data.pageCount
  pages_eq : ∀ id ≠ base.store.rootPage, db'.file.data.pages id = base.file.data.pages id
  blank : ∀ id, base.file.data.pageCount ≤ id → db'.file.data.pages id = .blank
  reopened : ∃ committed, ObjectStore.open base.file = .ok committed ∧
    ObjectStore.open db'.file = .ok db'.store ∧ db'.store.rootPage = committed.rootPage ∧
      db'.store.parts = committed.parts ∧
        db'.store.root =
          { committed.root with
            nextObjectId := db'.store.root.nextObjectId
            checkpointLsn := base.rollbackCheckpoint
            checkpointWalOffset := base.rollbackOffset }
  nextObjectId_le : base.store.root.nextObjectId ≤ db'.store.root.nextObjectId ∧
    db.store.root.nextObjectId ≤ db'.store.root.nextObjectId

omit [StoreParts δ κ] in
theorem InFlight.bookkeepingDue_iff {base db : Database δ κ} (h : InFlight base db) :
    db.BookkeepingDue ↔ base.BookkeepingDue := by
  have hoffset : db.store.root.checkpointWalOffset = base.store.root.checkpointWalOffset :=
    (congrArg DatabaseRoot.checkpointWalOffset h.root_eq :)
  unfold BookkeepingDue
  rw [h.primaryStorage_eq, h.commitsSinceCheckpoint_eq, hoffset]

omit [StoreParts δ κ] in
theorem rollbackRoot_of_not_due {db : Database δ κ} (h : ¬db.BookkeepingDue) :
    db.rollbackRoot = db.store.root := by
  unfold rollbackRoot rollbackCheckpoint rollbackOffset
  by_cases hfull : db.primaryStorage = .full
  · obtain ⟨hcommits, hoffset⟩ := not_or.1 fun hdue => h ⟨hfull, hdue⟩
    rw [if_neg fun hdue => hcommits hdue.2, if_pos hfull, ← not_ne_iff.1 hoffset]
  · rw [if_neg fun hdue => hfull hdue.1, if_neg hfull]

omit [StoreParts δ κ] in
theorem InFlight.rollbackRoot_eq {base db : Database δ κ} (h : InFlight base db)
    (hkept : MirrorKept base db) :
    db.rollbackRoot = { base.rollbackRoot with nextObjectId := db.store.root.nextObjectId } := by
  obtain ⟨hepoch, hbaseline, hindex⟩ := hkept
  have hroot := h.root_eq
  rw [hepoch, hbaseline, hindex] at hroot
  have hcheckpoint : db.store.root.checkpointLsn = base.store.root.checkpointLsn :=
    (congrArg DatabaseRoot.checkpointLsn hroot :)
  have hoffset : db.store.root.checkpointWalOffset = base.store.root.checkpointWalOffset :=
    (congrArg DatabaseRoot.checkpointWalOffset hroot :)
  unfold rollbackRoot rollbackCheckpoint rollbackOffset
  rw [h.primaryStorage_eq, h.commitsSinceCheckpoint_eq, h.lastCommitLsn_eq, hcheckpoint, hoffset]
  rw [hroot]

omit [StoreParts δ κ] in
theorem InFlight.open_abandoned {base db : Database δ κ} (h : InFlight base db)
    (hbase : Settled base) (hkept : ¬base.BookkeepingDue ∨ MirrorKept base db) :
    ∃ root, DatabaseRoot.open db.abandoned.file = .ok (base.store.rootPage, root) ∧
      root = { base.rollbackRoot with nextObjectId := root.nextObjectId } ∧
      base.store.root.nextObjectId ≤ root.nextObjectId := by
  have hwritten := rootWritten_abandoned db
  have hidle := h.abandoned hbase
  have hpage : db.abandoned.store.rootPage = base.store.rootPage :=
    hwritten.rootPage_eq.trans h.rootPage_eq
  have hread := PageFile.read_eq hidle.valid.rootPage_lt hidle.inTransaction_eq
  have hcatalog := hidle.valid.catalogRoot_eq
  rw [hpage] at hread hcatalog
  by_cases hdue : db.BookkeepingDue
  · have hmirror := hkept.resolve_left (not_not.2 (h.bookkeepingDue_iff.1 hdue))
    have hroot : db.abandoned.file.data.pages base.store.rootPage = .root db.rollbackRoot := by
      rw [hwritten.pages_eq hdue, root_abandoned]
      change Function.update _ db.store.rootPage _ _ = _
      rw [h.rootPage_eq, Function.update_self]
    have hsound := hidle.sound
    rw [root_abandoned] at hsound
    refine ⟨db.rollbackRoot, DatabaseRoot.open_eq_ok.2 ⟨db.rollbackRoot, hcatalog, ?_,
      Nat.ne_of_gt hbase.valid.rootPage_pos, hsound.floor_le, hsound.normalized_eq.symm⟩,
      h.rollbackRoot_eq hmirror, h.watermark_le⟩
    rw [hread, hroot]
  · have hnone : ¬base.BookkeepingDue := fun hbase => hdue (h.bookkeepingDue_iff.2 hbase)
    have hpages : db.abandoned.file.data.pages = base.file.data.pages :=
      (hwritten.kept hdue).2.trans h.pages_eq
    obtain ⟨stored, -, hstored, hzero, hfloor, hroot⟩ := DatabaseRoot.open_eq_ok.1 hbase.opens
    rw [PageFile.read_eq hbase.valid.rootPage_lt hbase.inTransaction_eq] at hstored
    refine ⟨base.store.root,
      DatabaseRoot.open_eq_ok.2 ⟨stored, hcatalog, ?_, hzero, hfloor, hroot⟩, ?_, Nat.le_refl _⟩
    · rw [hread, hpages, hstored]
    · rw [rollbackRoot_of_not_due hnone]

variable [PageSize]

theorem rollback_restores {base db db' : Database δ κ} (hbase : History base)
    (htx : InTransaction base db) (hkept : ¬base.BookkeepingDue ∨ MirrorKept base db)
    (hok : rollbackTransaction db = .ok () db') : Restored base db db' := by
  have hsettled := hbase.settled
  have hflight := htx.inFlight hsettled
  have hrestored := hflight.rollback hsettled hok
  obtain ⟨store, hstore, rfl⟩ := hflight.rollback_eq_ok hsettled hok
  obtain ⟨hopen, hparts⟩ := ObjectStore.open_eq_ok.1 hstore
  obtain ⟨root, hroot, hroot_eq, hwatermark⟩ := hflight.open_abandoned hsettled hkept
  rw [hroot] at hopen
  injection hopen with hopen
  injection hopen with hpage hroot'
  subst hroot'
  have hidle := hflight.abandoned hsettled
  have habandoned := rootWritten_abandoned db
  have hresynced := rootWritten_resynced hidle.inTransaction_eq db.store.root.nextObjectId store
  have hstore_eq := store_resynced db.store.root.nextObjectId store db.abandoned
  generalize db.abandoned.resynced db.store.root.nextObjectId store = db' at *
  -- both writes of the root page leave the data pages alone
  obtain ⟨stored, -, hstored, -⟩ := DatabaseRoot.open_eq_ok.1 hsettled.opens
  rw [PageFile.read_eq hsettled.valid.rootPage_lt hsettled.inTransaction_eq] at hstored
  obtain ⟨written, -, hwritten, -⟩ := DatabaseRoot.open_eq_ok.1 hroot
  have hpage' : db.abandoned.store.rootPage = base.store.rootPage :=
    habandoned.rootPage_eq.trans hflight.rootPage_eq
  have hlt := hidle.valid.rootPage_lt
  rw [hpage'] at hlt
  rw [PageFile.read_eq hlt hidle.inTransaction_eq] at hwritten
  have hbasePages : db.discarded.file.data.pages = base.file.data.pages := hflight.pages_eq
  have hdiscarded : db.discarded.store.rootPage = base.store.rootPage := hflight.rootPage_eq
  have hdata : ∀ id, (db.abandoned.file.data.pages id).data? = (base.file.data.pages id).data? := by
    intro id
    have hrootPage : db.discarded.file.data.pages db.discarded.store.rootPage = .root stored := by
      rw [hbasePages, hdiscarded]
      exact Except.ok.inj hstored
    rw [habandoned.data?_eq hrootPage, hbasePages]
  have hdata' : ∀ id, (db'.file.data.pages id).data? = (db.abandoned.file.data.pages id).data? := by
    have hrootPage : db.abandoned.file.data.pages store.rootPage = .root written := by
      rw [← hpage]
      exact Except.ok.inj hwritten
    exact hresynced.data?_eq hrootPage
  have hroots : db'.store.root.toStoreRoots = base.store.root.toStoreRoots := by
    rw [hstore_eq]
    change store.root.toStoreRoots = _
    rw [hroot_eq]
    rfl
  have hloaded : ObjectStore.loadParts base.file.data.pages base.store.root.toStoreRoots =
      .ok store.parts := by
    rw [← hparts, hroot_eq]
    exact (ObjectStore.loadParts_congr hdata _).symm
  have hmirror : db'.store.root = { base.rollbackRoot with
      nextObjectId := max store.root.nextObjectId db.store.root.nextObjectId } := by
    rw [hstore_eq]
    exact congrArg (fun root : DatabaseRoot => { root with
      nextObjectId := max store.root.nextObjectId db.store.root.nextObjectId }) hroot_eq
  have hnext : db'.store.root.nextObjectId =
      max store.root.nextObjectId db.store.root.nextObjectId := by rw [hmirror]
  have hpages : ∀ id ≠ base.store.rootPage, db'.file.data.pages id = base.file.data.pages id := by
    intro id hid
    have hne : id ≠ store.rootPage := fun h => hid (h.trans hpage.symm)
    have hne' : id ≠ db.discarded.store.rootPage := fun h => hid (h.trans hdiscarded)
    rw [hresynced.pages_of_ne hne, ← hbasePages]
    exact habandoned.pages_of_ne hne'
  have hcount : base.file.pageCount ≤ db'.file.pageCount := by
    rw [hresynced.pageCount_eq]
    change _ ≤ db.abandoned.file.pageCount
    rw [habandoned.pageCount_eq]
    exact hflight.pageCount_le
  refine ⟨?_, ?_, hpages, ?_, ?_, ?_⟩
  · rw [hrestored.consistent.catalogRoot_eq, hsettled.consistent.catalogRoot_eq,
      hresynced.catalogRoot_eq]
    exact habandoned.catalogRoot_eq.trans hflight.catalogRoot_eq
  · rw [hrestored.consistent.pageCount_eq, hsettled.consistent.pageCount_eq]
    exact hcount
  · intro id hid
    rw [hsettled.consistent.pageCount_eq] at hid
    rw [hpages id (Nat.ne_of_gt (Nat.lt_of_lt_of_le hsettled.valid.rootPage_lt hid))]
    exact hsettled.consistent.blank id hid
  · refine ⟨⟨base.store.rootPage, base.store.root, store.parts⟩,
      ObjectStore.open_eq_ok.2 ⟨hsettled.opens, hloaded⟩,
      ObjectStore.open_eq_ok.2 ⟨hrestored.opens, ?_⟩, ?_, ?_, ?_⟩
    · rw [ObjectStore.loadParts_congr hdata', ObjectStore.loadParts_congr hdata, hroots, hloaded,
        hstore_eq]
    · rw [hstore_eq]
      exact hpage.symm
    · rw [hstore_eq]
    · rw [hmirror]
      rfl
  · rw [hnext]
    exact ⟨Nat.le_trans hwatermark (Nat.le_max_left _ _), Nat.le_max_right _ _⟩

end Restored

/-! ### Rollbacks after a commit whose checkpoint is due -/

section SingleValue

attribute [local instance] PageSize.default StoreParts.single

def writeValue (value : Nat) (db : Database Nat Nat) : Database Nat Nat :=
  after ((StoreOp.pages (.parts value)).run (after ((StoreOp.pages (.write 3 value)).run db)))

def committedValue : Database Nat Nat :=
  after (commitTransaction (writeValue 7 (after (begin (created 2 7)))))

theorem InTransaction.writeValue {base db : Database Nat Nat} (h : InTransaction base db)
    (hpage : 3 ≠ db.store.rootPage) (value : Nat) : InTransaction base (db.writeValue value) :=
  .operation (.pages (.parts value)) trivial (.operation (.pages (.write 3 value)) hpage h)

theorem history_committedValue : History committedValue := by
  have htx : InTransaction (created 2 7 : Database Nat Nat) (writeValue 7 (after (begin (created 2 7)))) :=
    InTransaction.begin.writeValue (by decide) 7
  have hvalid : (writeValue 7 (after (begin (created 2 7)))).Valid :=
    ⟨rfl, by decide, by decide, by decide⟩
  obtain ⟨wal, logged, -, hcommit, -⟩ := @commitTransaction_eq _ _ _ _ [] hvalid rfl (by decide)
    ⟨.inr ⟨fun _ _ => Option.some_ne_none _ ∘ Eq.symm, rfl, rfl⟩,
      fun _ h => absurd h (Option.some_ne_none _ ∘ Eq.symm), rfl⟩
  refine .commit htx ?_ (.create .full 2 7 (create_eq .full 2 7))
  rw [committedValue, hcommit]
  rfl

/-- A 9 is written over the 7, with a new page and an object id handed out, and rolled back. -/
theorem rollback_restores_committedValue :
    ∃ db db', db.store.parts = 9 ∧ rollbackTransaction db = .ok () db' ∧
      db'.store.root.nextObjectId = 17 ∧ db'.store.parts = 7 ∧ db'.file.data.pages 3 = .data 7 ∧
        Restored committedValue db db' := by
  have htx : InTransaction committedValue _ :=
    .operation .allocateObjectId trivial
      (.operation (.pages .allocate) trivial (InTransaction.begin.writeValue (by decide) 9))
  exact ⟨_, _, rfl, rfl, rfl, rfl, rfl,
    rollback_restores history_committedValue htx (.inr (by decide)) rfl⟩

end SingleValue

section DefaultBuild

attribute [local instance] PageSize.default StoreParts.empty

def committedPending : Database Unit Unit := after (commitTransaction (after (begin (created 2 7))))

theorem history_committedPending : History committedPending :=
  .commit .begin rfl (.create .full 2 7 (create_eq .full 2 7))

def RestoredExactly (base db' : Database Unit Unit) : Prop :=
  db'.file.data.catalogRoot = base.file.data.catalogRoot ∧
    db'.file.data.pageCount = base.file.data.pageCount ∧
      (∀ id ≠ base.store.rootPage, db'.file.data.pages id = base.file.data.pages id) ∧
        ∃ committed, ObjectStore.open base.file = .ok committed ∧
          ObjectStore.open db'.file = .ok ({ committed with
            root.nextObjectId := db'.store.root.nextObjectId } : ObjectStore Unit)

/-- A rollback moves the checkpoint. After a commit that failed it also writes the epoch that the
commit had given to the mirror. -/
theorem rollback_not_restored :
    (¬∀ base db db' : Database Unit Unit, History base → InTransaction base db →
        rollbackTransaction db = .ok () db' → RestoredExactly base db') ∧
      ∃ db db', InTransaction committedPending db ∧ rollbackTransaction db = .ok () db' ∧
        committedPending.store.root.epoch = 1 ∧
          ∃ store : ObjectStore Unit, ObjectStore.open db'.file = .ok store ∧ store.root.epoch = 2 := by
  constructor
  · intro h
    have hok : rollbackTransaction (after (begin committedPending)) =
        .ok () (after (rollbackTransaction (after (begin committedPending)))) := rfl
    obtain ⟨-, -, -, committed, hbase, hopen⟩ :=
      h committedPending _ _ history_committedPending .begin hok
    have hbefore : (ObjectStore.open committedPending.file : Except Error (ObjectStore Unit)).map
        (fun store => store.root.checkpointLsn) = .ok 0 := rfl
    have hafter : (ObjectStore.open
          (after (rollbackTransaction (after (begin committedPending)))).file :
        Except Error (ObjectStore Unit)).map (fun store => store.root.checkpointLsn) = .ok 3 := rfl
    rw [hbase] at hbefore
    rw [hopen] at hafter
    have hcommitted : Except.ok 0 = (Except.ok 3 : Except Error Nat) := hbefore.symm.trans hafter
    injection hcommitted with hlsn
    omega
  · have hfault : InTransaction committedPending _ := .deviceFault (some ⟨0, 0⟩) .begin
    exact ⟨_, _, .commitFailed _ rfl hfault, rfl, rfl, _, rfl, rfl⟩

end DefaultBuild

end MoDb.Object.Database
