import MoDb.Object.Lifecycle
import MoDb.Object.Staging

/-!
# Committed histories

Between transactions a database is settled: the mirror of the root is the root page, and the page
file agrees with its superblock. Every operation that succeeds outside a transaction keeps that, and
so do a commit, a rollback and a new session, whatever happened inside the transaction.
-/

namespace MoDb.Object.Database

open Storage Tx Effect

variable {δ κ : Type}

/-! ### Settled states -/

/-- A root that reads back as it was written. -/
structure SoundRoot (root : DatabaseRoot) : Prop where
  normalized_eq : root.normalized = root
  floor_le : firstUserObjectId ≤ root.nextObjectId

namespace SoundRoot

variable {root : DatabaseRoot}

theorem timelineId_pos (h : SoundRoot root) : 1 ≤ root.timelineId := by
  rw [← h.normalized_eq]
  exact Nat.le_max_left 1 _

theorem nextLsn_pos (h : SoundRoot root) : 0 < root.nextLsn := by
  rw [← h.normalized_eq]
  exact Nat.le_max_left 1 _

theorem mk_of_pos (htimeline : 1 ≤ root.timelineId) (hlsn : 0 < root.nextLsn)
    (hfloor : firstUserObjectId ≤ root.nextObjectId) : SoundRoot root := by
  refine ⟨?_, hfloor⟩
  unfold DatabaseRoot.normalized
  rw [Nat.max_eq_right htimeline, Nat.max_eq_right hlsn]

theorem change (h : SoundRoot root) {root' : DatabaseRoot}
    (htimeline : root'.timelineId = root.timelineId) (hlsn : 0 < root'.nextLsn)
    (hfloor : root.nextObjectId ≤ root'.nextObjectId) : SoundRoot root' := by
  refine mk_of_pos ?_ hlsn (Nat.le_trans h.floor_le hfloor)
  rw [htimeline]
  exact h.timelineId_pos

end SoundRoot

/-- Outside a transaction, with a root that can be written. -/
structure Idle (db : Database δ κ) : Prop where
  valid : db.Valid
  inTransaction_eq : db.file.inTransaction = false
  consistent : Consistent db.file
  sound : SoundRoot db.store.root

/-- The root page holds the mirror. -/
structure Settled (db : Database δ κ) : Prop extends Idle db where
  opens : DatabaseRoot.open db.file = .ok (db.store.rootPage, db.store.root)

theorem Idle.putRoot {db : Database δ κ} (h : Idle db) {root : DatabaseRoot}
    (hroot : SoundRoot root) : Settled (db.putRoot root) where
  valid := h.valid.putRoot hroot.nextLsn_pos
  inTransaction_eq := by
    rw [Database.putRoot, inTransaction_writeRootPage]
    exact h.inTransaction_eq
  consistent := by
    have hwrites : ∀ write ∈ [(db.store.rootPage, PageContent.root (δ := δ) root)],
        write.1 < db.file.pageCount := by
      intro write hmem
      obtain rfl := List.mem_singleton.1 hmem
      exact h.valid.rootPage_lt
    rw [Database.putRoot, writeRootPage_of_not_inTransaction h.inTransaction_eq]
    exact h.consistent.performWrites hwrites
  sound := hroot
  opens := by
    have hread := PageFile.read_perform_writePage h.valid.rootPage_lt h.inTransaction_eq
      (PageContent.root root)
    rw [Database.putRoot, writeRootPage_of_not_inTransaction h.inTransaction_eq]
    exact DatabaseRoot.open_eq_ok.2 ⟨root, h.valid.catalogRoot_eq, hread,
      Nat.ne_of_gt h.valid.rootPage_pos, hroot.floor_le, hroot.normalized_eq.symm⟩

theorem Idle.flushed {db : Database δ κ} (h : Idle db) : Idle db.flushed :=
  ⟨h.valid.flushed, h.inTransaction_eq, ⟨h.consistent.catalogRoot_eq, h.consistent.pageCount_eq,
    h.consistent.pageCount_le, h.consistent.blank, h.consistent.buffered_lt⟩, h.sound⟩

theorem Settled.flushed {db : Database δ κ} (h : Settled db) : Settled db.flushed :=
  ⟨h.toIdle.flushed, h.opens⟩

theorem Idle.of_file {db db' : Database δ κ} (h : Idle db) (hstore : db'.store = db.store)
    (hfile : db'.file = { db.file with trace := db'.file.trace }) : Idle db' where
  valid := by
    refine ⟨?_, ?_, ?_, ?_⟩
    · rw [hstore, hfile]
      exact h.valid.catalogRoot_eq
    · rw [hstore]
      exact h.valid.rootPage_pos
    · rw [hstore, hfile]
      exact h.valid.rootPage_lt
    · rw [hstore]
      exact h.valid.nextLsn_pos
  inTransaction_eq := by
    rw [hfile]
    exact h.inTransaction_eq
  consistent := by
    rw [hfile]
    exact ⟨h.consistent.catalogRoot_eq, h.consistent.pageCount_eq, h.consistent.pageCount_le,
      h.consistent.blank, h.consistent.buffered_lt⟩
  sound := by
    rw [hstore]
    exact h.sound

theorem Settled.of_file {db db' : Database δ κ} (h : Settled db) (hstore : db'.store = db.store)
    (hfile : db'.file = { db.file with trace := db'.file.trace }) : Settled db' where
  toIdle := h.toIdle.of_file hstore hfile
  opens := by
    rw [hstore, hfile]
    exact h.opens

theorem Settled.onlyWal {db db' : Database δ κ} (h : Settled db) (hwal : OnlyWal db db') :
    Settled db' :=
  h.of_file hwal.store (congrArg Database.file hwal :)

theorem Settled.controlPersisted {db : Database δ κ} (h : Settled db) :
    Settled db.controlPersisted :=
  h.of_file rfl rfl

theorem Settled.setRoot {db : Database δ κ} (h : Settled db) {change : DatabaseRoot → DatabaseRoot}
    (hroot : SoundRoot (change db.store.root)) : Settled (after (Database.setRoot change db)) := by
  rw [setRoot_eq h.valid]
  exact h.toIdle.putRoot hroot

theorem Idle.withCheckpoint {db : Database δ κ} (h : Idle db) (lsn walOffset : Nat) :
    Settled (db.withCheckpoint lsn walOffset) :=
  h.putRoot (h.sound.change rfl h.sound.nextLsn_pos (Nat.le_refl _))

theorem Idle.withNextLsn {db : Database δ κ} (h : Idle db) {next : Nat} (hnext : 0 < next) :
    Settled (db.withNextLsn next) :=
  h.putRoot (h.sound.change rfl hnext (Nat.le_refl _))

theorem Settled.checkpointed {db : Database δ κ} (h : Settled db) : Settled db.checkpointed := by
  unfold Database.checkpointed
  split
  · exact h
  · exact (h.toIdle.flushed.withCheckpoint _ _).flushed.of_file rfl rfl

theorem Idle.checkpointed {db : Database δ κ} (h : Idle db) : Idle db.checkpointed := by
  unfold Database.checkpointed
  split
  · exact h
  · exact (h.flushed.withCheckpoint _ _).flushed.toIdle.of_file rfl rfl

theorem Idle.offsetCleared {db : Database δ κ} (h : Idle db) : Idle db.offsetCleared := by
  unfold Database.offsetCleared
  split
  · exact (h.withCheckpoint _ _).toIdle
  · exact h

theorem settled_of_open [StoreParts δ κ] {db : Database δ κ} {store : ObjectStore κ}
    (htx : db.file.inTransaction = false) (hfile : Consistent db.file)
    (h : ObjectStore.open db.file = .ok store) :
    Settled ({ db with store := store } : Database δ κ) where
  valid := valid_of_open db h
  inTransaction_eq := htx
  consistent := hfile
  sound := by
    obtain ⟨stored, -, -, -, hfloor, hroot⟩ :=
      DatabaseRoot.open_eq_ok.1 (ObjectStore.open_eq_ok.1 h).1
    rw [hroot]
    exact .mk_of_pos (Nat.le_max_left 1 _) (Nat.le_max_left 1 _) hfloor
  opens := (ObjectStore.open_eq_ok.1 h).1

/-! ### Inside a transaction -/

/-- `db` is in a transaction that began at `base`; its pages are all in the buffer. -/
structure InFlight (base db : Database δ κ) : Prop where
  rootPage_eq : db.store.rootPage = base.store.rootPage
  root_eq : db.store.root =
    { base.store.root with
      currentBaseline := db.store.root.currentBaseline
      indexDir := db.store.root.indexDir
      nextObjectId := db.store.root.nextObjectId
      epoch := db.store.root.epoch }
  watermark_le : base.store.root.nextObjectId ≤ db.store.root.nextObjectId
  inTransaction_eq : db.file.inTransaction = true
  catalogRoot_eq : db.file.catalogRoot = base.file.catalogRoot
  pageCount_le : base.file.pageCount ≤ db.file.pageCount
  consistent : Consistent db.file
  pages_eq : db.file.data.pages = base.file.data.pages
  commitDurable_eq : db.commitDurable = false
  primaryStorage_eq : db.primaryStorage = base.primaryStorage
  commitsSinceCheckpoint_eq : db.commitsSinceCheckpoint = base.commitsSinceCheckpoint
  lastCommitLsn_eq : db.lastCommitLsn = base.lastCommitLsn

namespace InFlight

variable {base db db' : Database δ κ}

theorem begun (h : Settled base) : InFlight base base.begun where
  rootPage_eq := rfl
  root_eq := rfl
  watermark_le := Nat.le_refl _
  inTransaction_eq := rfl
  catalogRoot_eq := rfl
  pageCount_le := Nat.le_refl _
  consistent := { h.consistent with buffered_lt := fun _ hmem => absurd hmem List.not_mem_nil }
  pages_eq := rfl
  commitDurable_eq := rfl
  primaryStorage_eq := rfl
  commitsSinceCheckpoint_eq := rfl
  lastCommitLsn_eq := rfl

theorem valid (h : InFlight base db) (hbase : Settled base) : db.Valid where
  catalogRoot_eq := by rw [h.catalogRoot_eq, h.rootPage_eq, hbase.valid.catalogRoot_eq]
  rootPage_pos := by
    rw [h.rootPage_eq]
    exact hbase.valid.rootPage_pos
  rootPage_lt := by
    rw [h.rootPage_eq]
    exact Nat.lt_of_lt_of_le hbase.valid.rootPage_lt h.pageCount_le
  nextLsn_pos := by
    rw [h.root_eq]
    exact hbase.valid.nextLsn_pos

theorem sound (h : InFlight base db) (hbase : Settled base) : SoundRoot db.store.root := by
  have htimeline := congrArg DatabaseRoot.timelineId h.root_eq
  have hlsn := congrArg DatabaseRoot.nextLsn h.root_eq
  exact hbase.sound.change htimeline (hlsn ▸ hbase.valid.nextLsn_pos) h.watermark_le

theorem staged (h : InFlight base db) (hstaged : Staged db db') : InFlight base db' where
  rootPage_eq := hstaged.rootPage_eq.trans h.rootPage_eq
  root_eq := by
    have hepoch : db'.store.root.epoch = db.store.root.epoch :=
      (congrArg DatabaseRoot.epoch hstaged.root_eq :)
    rw [hepoch]
    exact hstaged.root_eq.trans (by rw [h.root_eq])
  watermark_le := Nat.le_trans h.watermark_le hstaged.watermark_le
  inTransaction_eq := hstaged.inTransaction_eq
  catalogRoot_eq := hstaged.catalogRoot_eq.trans h.catalogRoot_eq
  pageCount_le := Nat.le_trans h.pageCount_le hstaged.pageCount_le
  consistent := (hstaged.consistent h.consistent).1
  pages_eq := (hstaged.consistent h.consistent).2.trans h.pages_eq
  commitDurable_eq := (congrArg Database.commitDurable hstaged.others :).trans h.commitDurable_eq
  primaryStorage_eq := (congrArg Database.primaryStorage hstaged.others :).trans h.primaryStorage_eq
  commitsSinceCheckpoint_eq :=
    (congrArg Database.commitsSinceCheckpoint hstaged.others :).trans h.commitsSinceCheckpoint_eq
  lastCommitLsn_eq := (congrArg Database.lastCommitLsn hstaged.others :).trans h.lastCommitLsn_eq

theorem committing (h : InFlight base db) (hbase : Settled base) :
    InFlight base (db.putRoot db.committingRoot) := by
  have hroot : (db.putRoot db.committingRoot).store.root = db.committingRoot := rfl
  have hpage := (h.valid hbase).rootPage_lt
  unfold Database.putRoot at hroot ⊢
  rw [writeRootPage_of_inTransaction h.inTransaction_eq] at hroot ⊢
  refine { h with root_eq := ?_, consistent := { h.consistent with buffered_lt := ?_ } }
  · rw [hroot, committingRoot, h.root_eq]
  · intro write hmem
    rcases List.mem_cons.1 hmem with rfl | hmem
    · exact hpage
    · exact h.consistent.buffered_lt write (List.mem_of_mem_filter hmem)

theorem onlyWal (h : InFlight base db) (hwal : OnlyWal db db') : InFlight base db' where
  rootPage_eq := by
    rw [hwal.store]
    exact h.rootPage_eq
  root_eq := by
    rw [hwal.store]
    exact h.root_eq
  watermark_le := by
    rw [hwal.store]
    exact h.watermark_le
  inTransaction_eq := hwal.inTransaction.trans h.inTransaction_eq
  catalogRoot_eq := hwal.catalogRoot.trans h.catalogRoot_eq
  pageCount_le := by
    rw [hwal.pageCount]
    exact h.pageCount_le
  consistent := by
    refine ⟨?_, ?_, ?_, ?_, ?_⟩
    · rw [hwal.data, hwal.catalogRoot]
      exact h.consistent.catalogRoot_eq
    · rw [hwal.data, hwal.pageCount]
      exact h.consistent.pageCount_eq
    · rw [hwal.data, hwal.pageCount]
      exact h.consistent.pageCount_le
    · rw [hwal.data, hwal.pageCount]
      exact h.consistent.blank
    · rw [hwal.txPages, hwal.pageCount]
      exact h.consistent.buffered_lt
  pages_eq := by
    rw [hwal.data]
    exact h.pages_eq
  commitDurable_eq := (congrArg Database.commitDurable hwal :).trans h.commitDurable_eq
  primaryStorage_eq := (congrArg Database.primaryStorage hwal :).trans h.primaryStorage_eq
  commitsSinceCheckpoint_eq :=
    (congrArg Database.commitsSinceCheckpoint hwal :).trans h.commitsSinceCheckpoint_eq
  lastCommitLsn_eq := (congrArg Database.lastCommitLsn hwal :).trans h.lastCommitLsn_eq

theorem reorder (h : InFlight base db) {pages : List (Nat × PageContent δ)}
    (hperm : pages.Perm db.file.txPages) : InFlight base { db with file.txPages := pages } :=
  { h with
    consistent := { h.consistent with
      buffered_lt := fun write hmem => h.consistent.buffered_lt write (hperm.mem_iff.1 hmem) } }

theorem commitFailed [PageSize] (h : InFlight base db) (hbase : Settled base) {error : Error}
    (hcommit : commitTransaction db = .error error db') : InFlight base db' := by
  rcases commitTransaction_error (h.valid hbase) hcommit with rfl | ⟨-, honly⟩
  · exact h
  · exact (h.committing hbase).onlyWal honly

end InFlight

/-! ### The end of a transaction -/

theorem Idle.finished {db : Database δ κ} (h : Idle db.applied) (commitLsn : Nat) {nextLsn : Nat}
    (hnext : 0 < nextLsn) : Settled (db.finished commitLsn nextLsn) := by
  unfold Database.finished
  cases db.primaryStorage with
  | walOnly =>
    exact ((h.flushed.withNextLsn hnext).toIdle.withCheckpoint commitLsn 0).controlPersisted
  | full =>
    have hcounted : Settled ((db.applied.withNextLsn nextLsn).counted commitLsn) :=
      (h.withNextLsn hnext).of_file rfl rfl
    dsimp only
    split
    · exact hcounted.checkpointed
    · exact hcounted

theorem InFlight.applied {base db : Database δ κ} (h : InFlight base db) (hbase : Settled base) :
    Idle db.applied where
  valid := (h.valid hbase).applied
  inTransaction_eq := rfl
  consistent := h.consistent.applyTransaction
  sound := h.sound hbase

theorem InFlight.commit [PageSize] {base db db' : Database δ κ} (h : InFlight base db)
    (hbase : Settled base) (hcommit : commitTransaction db = .ok () db') : Settled db' := by
  obtain ⟨-, logged, commitLsn, nextLsn, honly, hnext, rfl⟩ :=
    commitTransaction_ok (h.valid hbase) hcommit
  exact (((h.committing hbase).onlyWal honly).applied hbase).finished commitLsn hnext

theorem InFlight.abandoned {base db : Database δ κ} (h : InFlight base db) (hbase : Settled base) :
    Idle db.abandoned := by
  have hdiscarded : Idle db.discarded :=
    ⟨(h.valid hbase).discarded, rfl, h.consistent.discardTransaction, h.sound hbase⟩
  have hremoved : ∀ db : Database δ κ, Idle db → Idle db.walRemoved :=
    fun db h => h.of_file rfl rfl
  unfold Database.abandoned
  split
  · exact (hremoved _ hdiscarded.checkpointed).offsetCleared
  · exact (hremoved _ hdiscarded).offsetCleared

theorem InFlight.rollback_eq_ok [StoreParts δ κ] {base db db' : Database δ κ}
    (h : InFlight base db) (hbase : Settled base)
    (hrollback : rollbackTransaction db = .ok () db') :
    ∃ store, ObjectStore.open db.abandoned.file = .ok store ∧
      db' = db.abandoned.resynced db.store.root.nextObjectId store := by
  rw [rollbackTransaction_eq (h.valid hbase) h.commitDurable_eq] at hrollback
  split at hrollback
  · injection hrollback
  · next store hstore =>
    injection hrollback with _ hstate
    exact ⟨store, hstore, hstate.symm⟩

theorem InFlight.rollback [StoreParts δ κ] {base db db' : Database δ κ} (h : InFlight base db)
    (hbase : Settled base) (hrollback : rollbackTransaction db = .ok () db') : Settled db' := by
  obtain ⟨store, hstore, rfl⟩ := h.rollback_eq_ok hbase hrollback
  have habandoned := h.abandoned hbase
  have hopened := settled_of_open habandoned.inTransaction_eq habandoned.consistent hstore
  have hpublished : Settled ({ db.abandoned with
      store := store, publishedEpoch := store.root.epoch } : Database δ κ) :=
    hopened.of_file rfl rfl
  unfold Database.resynced
  apply Settled.flushed
  split
  · next hlower =>
    refine hpublished.toIdle.putRoot (hpublished.sound.change rfl hpublished.valid.nextLsn_pos ?_)
    exact Nat.le_of_lt hlower
  · exact hpublished

/-! ### Sessions -/

theorem settled_created [StoreParts δ κ] (interval uuid : Nat) :
    Settled (created interval uuid : Database δ κ) where
  valid := valid_created interval uuid
  inTransaction_eq := rfl
  consistent := by
    refine ⟨rfl, rfl, ?_, ?_, fun _ hmem => absurd hmem List.not_mem_nil⟩
    · simp [created, createdFile, createIos, DataIo.run]
    · intro id hid
      have hpast : 5 ≤ id := hid
      simp only [created, createdFile, createIos, List.foldl_cons, List.foldl_nil, DataIo.run]
      repeat rw [Function.update_of_ne (by omega)]
  sound := .mk_of_pos (Nat.le_refl 1) (Nat.le_refl 1) (Nat.le_refl _)
  opens := DatabaseRoot.open_eq_ok.2
    ⟨createdRoot uuid, rfl, rfl, Nat.one_ne_zero, Nat.le_refl _, rfl⟩

section Sessions

variable [PageSize]

theorem Consistent.recover {file : PageFile (PageContent δ)} (h : Consistent file)
    (htx : file.inTransaction = false)
    (wal : Option (WalView (LogPayload (PageContent δ)))) (afterLsn startOffset : Nat) :
    Consistent (Tx.recover file wal afterLsn startOffset).2 ∧
      (Tx.recover file wal afterLsn startOffset).2.inTransaction = false := by
  have hredo : ∀ (file : PageFile (PageContent δ)) id page,
      Consistent file ∧ file.inTransaction = false →
        Consistent (file.redoPage id page) ∧ (file.redoPage id page).inTransaction = false := by
    intro file id page h
    refine ⟨h.1.redoPage id page, ?_⟩
    unfold PageFile.redoPage PageFile.grow
    split <;> exact h.2
  have hflush : ∀ file : PageFile (PageContent δ), Consistent file ∧ file.inTransaction = false →
      Consistent file.flush ∧ file.flush.inTransaction = false :=
    fun file h => ⟨⟨h.1.catalogRoot_eq, h.1.pageCount_eq, h.1.pageCount_le, h.1.blank,
      h.1.buffered_lt⟩, h.2⟩
  exact recover_keeps hredo hflush wal afterLsn startOffset ⟨h, htx⟩

omit [PageSize] in
theorem keptByRepairs_settled : KeptByRepairs (Settled : Database δ κ → Prop) where
  setRoot _ hchange _ h := h.setRoot (.mk_of_pos
    (hchange.timelineId_pos _ h.sound.timelineId_pos) (hchange.nextLsn_pos _ h.valid.nextLsn_pos)
    (by rw [hchange.nextObjectId_eq]; exact h.sound.floor_le))
  flush _ h := h.flushed
  nextTxId _ _ h := h.of_file rfl rfl

theorem keeps_settled_truncate (lastCommitEnd : Nat) :
    Keeps Settled (truncateWalAfterLastCommit lastCommitEnd : Action δ κ Unit) := by
  intro db h
  unfold truncateWalAfterLastCommit
  rw [ite_run]
  split
  · rw [get_bind_run]
    cases db.wal with
    | none => exact h
    | some wal =>
      dsimp only
      rw [ite_run]
      split
      · rw [modify_bind_run]
        exact Settled.onlyWal (h.of_file rfl rfl) (keeps_syncWal _ (OnlyWal.refl _))
      · exact h
  · exact h

omit [PageSize] in
theorem Consistent.open {file file' : PageFile (PageContent δ)} (h : Consistent file)
    {tolerateShortFile : Bool} (hopen : PageFile.open file.data tolerateShortFile = .ok file') :
    Consistent file' ∧ file'.inTransaction = false := by
  have hcount := h.pageCount_eq
  have hlength := h.pageCount_le
  unfold PageFile.open at hopen
  split_ifs at hopen with _ _ hshort
  · omega
  · injection hopen with hfile
    subst hfile
    refine ⟨⟨rfl, rfl, ?_, ?_, fun _ hmem => absurd hmem List.not_mem_nil⟩, rfl⟩
    · change file.data.pageCount ≤ file.data.length
      omega
    · intro id hid
      have hpast : file.data.pageCount ≤ id := hid
      exact h.blank id (by omega)

omit [PageSize] in
theorem Settled.consistent_close {db : Database δ κ} (h : Settled db) :
    ∃ file, Consistent file ∧ db.close.data = file.data := by
  rw [close_eq h.valid]
  dsimp only
  split
  · exact ⟨_, h.checkpointed.consistent, rfl⟩
  · exact ⟨_, h.consistent, rfl⟩

variable [StoreParts δ κ]

theorem Settled.open {db db' : Database δ κ} (h : Settled db) {interval : Nat}
    (hopen : Database.open db.close interval = .ok db') : Settled db' := by
  obtain ⟨closed, hclosed, hdata⟩ := h.consistent_close
  obtain ⟨file, recovered, file', store, hfile, hrecover, hstore, hresume⟩ := open_eq_ok hopen
  rw [hdata] at hfile
  obtain ⟨hconsistent, htx⟩ := hclosed.open hfile
  have hrecovered := hconsistent.recover htx (db.close.wal.map WalFile.view)
    (recordedCheckpoint file).1 (recordedCheckpoint file).2
  rw [hrecover] at hrecovered
  have hopened : Settled (opened db.close.wal interval file' store) := by
    have hidle : (opened db.close.wal interval file' store).file.inTransaction = false :=
      hrecovered.2
    exact settled_of_open hidle hrecovered.1 hstore
  have hkept := keptByRepairs_settled.resume
    (keeps_settled_truncate recovered.lastCommitEnd) _ hopened
  rw [hresume] at hkept
  exact hkept

theorem Settled.openWalOnly {wal : Option (WalFile (PageContent δ))} {control : InstanceControl}
    {uuid : Nat} {db : Database δ κ} (hopen : Database.openWalOnly wal control uuid = .ok db) :
    Settled db := by
  obtain ⟨recovered, file', store, hrecover, hstore, hresume⟩ := openWalOnly_eq_ok hopen
  have hseed : Settled (seed δ κ wal control uuid) :=
    (settled_created 1 uuid : Settled (created 1 uuid : Database δ κ)).of_file rfl rfl
  have hidentified : Settled ((seed δ κ wal control uuid).identified control) := by
    have hkept := keptByRepairs_settled.setReplicationIdentity control _ hseed
    rw [setReplicationIdentity_eq hseed.valid] at hkept
    exact hkept.flushed
  have hrecovered := hidentified.consistent.recover hidentified.inTransaction_eq
    (wal.map WalFile.view) control.checkpointLsn 0
  rw [hrecover] at hrecovered
  let seeded := ((seed δ κ wal control uuid).identified control).recoveredInto file' store
  have hidle : seeded.file.inTransaction = false := hrecovered.2
  have hseeded : Settled seeded := settled_of_open hidle hrecovered.1 hstore
  have hkept := keptByRepairs_settled.resumeWalOnly control
    (keeps_settled_truncate recovered.lastCommitEnd) (fun _ h => h.controlPersisted) seeded hseeded
  rw [hresume] at hkept
  exact hkept

omit [PageSize] in
theorem settled_create {mode : PrimaryStorage} {interval uuid : Nat} {db : Database δ κ}
    (h : Database.create mode interval uuid = .ok db) : Settled db := by
  have hcreated : Settled (created interval uuid : Database δ κ) := settled_created interval uuid
  rw [create_eq] at h
  injection h with h
  subst h
  cases mode with
  | full => exact hcreated
  | walOnly =>
    have hscratch : Settled
        ({ (created interval uuid : Database δ κ) with primaryStorage := .walOnly }) :=
      hcreated.of_file rfl rfl
    exact hscratch.controlPersisted

/-! ### Runs -/

/-- The states inside a transaction that began at `base`, whatever its operations returned. The
buffer is a hash table, so its order is arbitrary, and the log's device may start to fail. -/
inductive InTransaction (base : Database δ κ) : Database δ κ → Prop
  | begin : InTransaction base (after (Database.begin base))
  | operation {db : Database δ κ} (op : StoreOp δ κ) (hop : op.Avoids db.store.rootPage) :
      InTransaction base db → InTransaction base (after (op.run db))
  | reorder {db : Database δ κ} (pages : List (Nat × PageContent δ))
      (hperm : pages.Perm db.file.txPages) :
      InTransaction base db → InTransaction base { db with file.txPages := pages }
  | deviceFault {db : Database δ κ} (fault : Option WalFault) :
      InTransaction base db → InTransaction base { db with walFault := fault }
  | commitFailed {db db' : Database δ κ} (error : Error)
      (hcommit : commitTransaction db = .error error db') :
      InTransaction base db → InTransaction base db'

/-- The states between transactions. -/
inductive History : Database δ κ → Prop
  | create {db : Database δ κ} (mode : PrimaryStorage) (interval uuid : Nat)
      (hcreate : Database.create mode interval uuid = .ok db) : History db
  | commit {base db db' : Database δ κ} (htx : InTransaction base db)
      (hcommit : commitTransaction db = .ok () db') : History base → History db'
  | rollback {base db db' : Database δ κ} (htx : InTransaction base db)
      (hrollback : rollbackTransaction db = .ok () db') : History base → History db'
  | checkpoint {db : Database δ κ} : History db → History (after (checkpoint db))
  | retention {db : Database δ κ} (lsn : Nat) :
      History db → History (after (setFollowerAckLsn lsn db))
  | reopen {db db' : Database δ κ} (interval : Nat)
      (hopen : Database.open db.close interval = .ok db') : History db → History db'
  | reopenWalOnly {db db' : Database δ κ} (control : InstanceControl) (uuid : Nat)
      (hopen : Database.openWalOnly db.close.wal control uuid = .ok db') :
      History db → History db'

omit [StoreParts δ κ] in
theorem InTransaction.inFlight {base db : Database δ κ} (hbase : Settled base)
    (h : InTransaction base db) : InFlight base db := by
  induction h with
  | begin =>
    rw [begin_eq hbase.inTransaction_eq]
    exact .begun hbase
  | operation op _ _ ih => exact ih.staged (keeps_storeOp op _ (Staged.refl ih.inTransaction_eq))
  | reorder pages hperm _ ih => exact ih.reorder hperm
  | deviceFault fault _ ih => exact ih.onlyWal rfl
  | commitFailed error hcommit _ ih => exact ih.commitFailed hbase hcommit

theorem History.settled {db : Database δ κ} (h : History db) : Settled db := by
  induction h with
  | create mode interval uuid hcreate => exact settled_create hcreate
  | commit htx hcommit _ ih => exact (htx.inFlight ih).commit ih hcommit
  | rollback htx hrollback _ ih => exact (htx.inFlight ih).rollback ih hrollback
  | checkpoint _ ih =>
    unfold Database.checkpoint
    rw [get_bind_run, ite_run]
    split
    · have hadvance : (fun _ => advanceCheckpoint : Unit → Action δ κ Unit) () _ = _ :=
        advanceCheckpoint_eq ih.valid
      simp [ih.inTransaction_eq, advanceCheckpoint_eq ih.valid, ih.checkpointed]
    · exact ih
  | retention lsn _ ih =>
    refine after_bind (keptByRepairs_settled.setRoot _ ?_ _ ih) fun _ db h => ?_
    · exact ⟨fun _ hlsn => hlsn, fun _ htimeline => htimeline, fun _ => rfl⟩
    · rw [get_bind_run, ite_run]
      split
      · exact h.controlPersisted
      · exact h
  | reopen interval hopen _ ih => exact ih.open hopen
  | reopenWalOnly control uuid hopen _ ih => exact Settled.openWalOnly hopen

end Sessions

end MoDb.Object.Database
