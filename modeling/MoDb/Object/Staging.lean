import MoDb.Object.Effects

/-!
# Inside a transaction

Until it commits, a transaction changes the buffer of the page file and the mirror of the root; in
the file it only adds blank pages. `Staged` is that frame, over every operation of the object store
and whether or not it fails. A commit that fails before its sync advances the epoch of the mirror,
and touches the log.
-/

namespace MoDb.Object.Database

open Storage Tx Effect

variable {δ κ : Type}

/-- The mirror of the superblock is the superblock; every page past the count is blank, and no write
in the buffer is past it. -/
structure Consistent (file : PageFile (PageContent δ)) : Prop where
  catalogRoot_eq : file.data.catalogRoot = file.catalogRoot
  pageCount_eq : file.data.pageCount = file.pageCount
  pageCount_le : file.pageCount ≤ file.data.length
  blank : ∀ id, file.pageCount ≤ id → file.data.pages id = .blank
  buffered_lt : ∀ write ∈ file.txPages, write.1 < file.pageCount

namespace Consistent

variable {file : PageFile (PageContent δ)}

theorem performWrites (h : Consistent file) {writes : List (Nat × PageContent δ)}
    (hwrites : ∀ write ∈ writes, write.1 < file.pageCount) :
    Consistent (file.performWrites writes) := by
  induction writes generalizing file with
  | nil => exact h
  | cons write writes ih =>
    have hlt := hwrites write List.mem_cons_self
    have hfirst : Consistent (file.perform (.writePage write.1 write.2)) := by
      refine { h with pageCount_le := Nat.le_trans h.pageCount_le (Nat.le_max_left _ _), blank := ?_ }
      intro id hid
      have hne : id ≠ write.1 := Nat.ne_of_gt (Nat.lt_of_lt_of_le hlt hid)
      exact (Function.update_of_ne hne _ _).trans (h.blank id hid)
    rw [PageFile.performWrites_cons]
    exact ih hfirst fun write hmem => hwrites write (List.mem_cons_of_mem _ hmem)

theorem discardTransaction (h : Consistent file) : Consistent file.discardTransaction :=
  { h with buffered_lt := fun _ hmem => absurd hmem List.not_mem_nil }

theorem applyTransaction (h : Consistent file) : Consistent file.applyTransaction := by
  have hperformed := h.performWrites h.buffered_lt
  rw [PageFile.applyTransaction_eq]
  exact { hperformed with buffered_lt := fun _ hmem => absurd hmem List.not_mem_nil }

theorem redoPage (h : Consistent file) (id : Nat) (page : PageContent δ) :
    Consistent (file.redoPage id page) := by
  unfold PageFile.redoPage PageFile.grow
  split
  · next hgrow =>
    refine ⟨h.catalogRoot_eq, rfl, Nat.le_max_right _ _, fun other hother => ?_, fun write hmem => ?_⟩
    · have hlt : id < other := hother
      exact (Function.update_of_ne (Nat.ne_of_gt hlt) _ _).trans (h.blank other (by omega))
    · exact Nat.lt_of_lt_of_le (h.buffered_lt write hmem) (Nat.le_succ_of_le hgrow)
  · next hlt =>
    have hwrites : ∀ write ∈ [(id, page)], write.1 < file.pageCount := by
      intro write hmem
      obtain rfl := List.mem_singleton.1 hmem
      exact Nat.lt_of_not_le hlt
    exact h.performWrites hwrites

end Consistent

/-- `db` is `base` after operations of the object store inside a transaction. -/
structure Staged (base db : Database δ κ) : Prop where
  others : db = { base with file := db.file, store := db.store }
  rootPage_eq : db.store.rootPage = base.store.rootPage
  root_eq : db.store.root =
    { base.store.root with
      currentBaseline := db.store.root.currentBaseline
      indexDir := db.store.root.indexDir
      nextObjectId := db.store.root.nextObjectId }
  watermark_le : base.store.root.nextObjectId ≤ db.store.root.nextObjectId
  inTransaction_eq : db.file.inTransaction = true
  catalogRoot_eq : db.file.catalogRoot = base.file.catalogRoot
  pageCount_le : base.file.pageCount ≤ db.file.pageCount
  consistent : Consistent base.file → Consistent db.file ∧ db.file.data.pages = base.file.data.pages

namespace Staged

theorem refl {db : Database δ κ} (h : db.file.inTransaction = true) : Staged db db where
  others := rfl
  rootPage_eq := rfl
  root_eq := rfl
  watermark_le := Nat.le_refl _
  inTransaction_eq := h
  catalogRoot_eq := rfl
  pageCount_le := Nat.le_refl _
  consistent := fun hfile => ⟨hfile, rfl⟩

variable {base db : Database δ κ}

theorem valid (h : Staged base db) (hvalid : base.Valid) : db.Valid where
  catalogRoot_eq := by rw [h.catalogRoot_eq, h.rootPage_eq, hvalid.catalogRoot_eq]
  rootPage_pos := by
    rw [h.rootPage_eq]
    exact hvalid.rootPage_pos
  rootPage_lt := by
    rw [h.rootPage_eq]
    exact Nat.lt_of_lt_of_le hvalid.rootPage_lt h.pageCount_le
  nextLsn_pos := by
    rw [h.root_eq]
    exact hvalid.nextLsn_pos

theorem write (h : Staged base db) {id : Nat} (hid : id < db.file.pageCount)
    (page : PageContent δ) :
    Staged base
      { db with
        file.txPages := (id, page) :: db.file.txPages.filter fun write => write.1 ≠ id } := by
  refine { h with others := by rw [h.others], consistent := fun hfile => ?_ }
  obtain ⟨hfile, hpages⟩ := h.consistent hfile
  refine ⟨{ hfile with buffered_lt := fun write hmem => ?_ }, hpages⟩
  rcases List.mem_cons.1 hmem with rfl | hmem
  · exact hid
  · exact hfile.buffered_lt write (List.mem_of_mem_filter hmem)

theorem allocate (h : Staged base db) {id : Nat} {file : PageFile (PageContent δ)}
    (hallocate : db.file.allocatePage = .ok (id, file)) :
    Staged base { db with file := file } := by
  unfold PageFile.allocatePage at hallocate
  split at hallocate
  · simp at hallocate
  · simp only [Except.ok.injEq, Prod.mk.injEq] at hallocate
    obtain ⟨rfl, rfl⟩ := hallocate
    refine { h with
      others := by rw [h.others]
      pageCount_le := Nat.le_succ_of_le h.pageCount_le
      consistent := fun hfile => ?_ }
    obtain ⟨hfile, hpages⟩ := h.consistent hfile
    have hsame : Function.update db.file.data.pages db.file.pageCount .blank =
        db.file.data.pages := by
      rw [← hfile.blank db.file.pageCount (Nat.le_refl _), Function.update_eq_self]
    refine ⟨⟨hfile.catalogRoot_eq, rfl, Nat.le_max_right _ _, fun id hid => ?_, fun write hmem => ?_⟩,
      hsame.trans hpages⟩
    · change Function.update db.file.data.pages db.file.pageCount .blank id = .blank
      rw [hsame]
      exact hfile.blank id (Nat.le_of_succ_le hid)
    · exact Nat.lt_succ_of_lt (hfile.buffered_lt write hmem)

theorem putRoot (h : Staged base db) (hpage : db.store.rootPage < db.file.pageCount)
    {root : DatabaseRoot}
    (hroot : root =
      { db.store.root with
        currentBaseline := root.currentBaseline
        indexDir := root.indexDir
        nextObjectId := root.nextObjectId })
    (hwatermark : db.store.root.nextObjectId ≤ root.nextObjectId) :
    Staged base (db.putRoot root) := by
  have hwrite := h.write hpage (.root root)
  unfold Database.putRoot
  rw [writeRootPage_of_inTransaction h.inTransaction_eq]
  refine { hwrite with
    others := by rw [h.others]
    root_eq := ?_
    watermark_le := Nat.le_trans h.watermark_le hwatermark }
  rw [hroot, h.root_eq]

theorem parts (h : Staged base db) (parts : κ) : Staged base { db with store.parts := parts } :=
  { h with others := by rw [h.others] }

end Staged

/-! ### The operations -/

section Operations

variable {base : Database δ κ}

theorem Staged.setRoot {db : Database δ κ} (h : Staged base db)
    {change : DatabaseRoot → DatabaseRoot}
    (hchange : change db.store.root =
      { db.store.root with
        currentBaseline := (change db.store.root).currentBaseline
        indexDir := (change db.store.root).indexDir
        nextObjectId := (change db.store.root).nextObjectId })
    (hwatermark : db.store.root.nextObjectId ≤ (change db.store.root).nextObjectId) :
    Staged base (after (setRoot change db)) := by
  unfold Database.setRoot DatabaseRoot.persist PageFile.write
  split_ifs with hzero hcount
  · exact h
  · exact h
  · have hput := h.putRoot (Nat.lt_of_not_le hcount) hchange hwatermark
    unfold Database.putRoot at hput
    rw [writeRootPage_of_inTransaction h.inTransaction_eq] at hput
    exact hput
  · exact absurd h.inTransaction_eq ‹_›

theorem keeps_allocateObjectId : Keeps (Staged base) (allocateObjectId : Action δ κ Nat) := by
  intro db h
  unfold allocateObjectId
  simp only [get_bind_run]
  rw [ite_run]
  split
  · exact h
  · exact after_bind (h.setRoot rfl (Nat.le_succ _)) fun _ _ hset => hset

theorem keeps_pageOp (op : PageOp δ κ) : Keeps (Staged base) op.run := by
  intro db h
  cases op with
  | write id content =>
    rw [PageOp.run]
    dsimp only
    unfold PageFile.write
    split_ifs with hzero hcount
    · exact h
    · exact h
    · exact h.write (Nat.lt_of_not_le hcount) _
    · exact absurd h.inTransaction_eq ‹_›
  | allocate =>
    rw [PageOp.run]
    dsimp only
    split
    · exact h
    · next hallocate => exact h.allocate hallocate
  | parts loaded => exact h.parts loaded

theorem keeps_runPageOps (ops : List (PageOp δ κ)) : Keeps (Staged base) (runPageOps ops) := by
  induction ops with
  | nil => exact fun _ h => h
  | cons op ops ih => exact (keeps_pageOp op).bind fun _ => ih

theorem keeps_createIndexDirectory (directory : δ) :
    Keeps (Staged base) (createIndexDirectory directory : Action δ κ Unit) := by
  intro db h
  unfold createIndexDirectory
  rw [get_bind_run]
  refine after_bind (keeps_pageOp .allocate db h) fun _ db h => ?_
  refine after_bind (keeps_pageOp (.write _ directory) db h) fun _ db h => ?_
  exact h.setRoot rfl (Nat.le_refl _)

theorem keeps_storeOp (op : StoreOp δ κ) : Keeps (Staged base) op.run := by
  cases op with
  | pages op => exact keeps_pageOp op
  | allocateObjectId => exact keeps_allocateObjectId.bind fun _ _ h => h
  | registerType saveType saveBaseline =>
    refine keeps_allocateObjectId.bind fun _ => ?_
    refine (keeps_runPageOps saveType).bind fun _ => ?_
    refine keeps_allocateObjectId.bind fun baseline => ?_
    refine (keeps_runPageOps saveBaseline).bind fun _ => ?_
    exact fun db h => h.setRoot rfl (Nat.le_refl _)
  | createIndex directory rest =>
    intro db h
    rw [StoreOp.run, get_bind_run, ite_run]
    split
    · exact (keeps_createIndexDirectory directory).bind (fun _ => keeps_runPageOps rest) db h
    · exact keeps_runPageOps rest db h

end Operations

/-- The state after `begin`. -/
def begun (db : Database δ κ) : Database δ κ :=
  { db with
    currentTxId := db.nextTxId
    nextTxId := db.nextTxId + 1
    commitDurable := false
    file := db.file.beginTransaction }

theorem begin_eq {db : Database δ κ} (h : db.file.inTransaction = false) :
    begin db = .ok () db.begun := by
  unfold begin
  simp [h, begun]

theorem begin_eq_error {db : Database δ κ} (h : db.file.inTransaction = true) :
    begin db = .error ⟨.transactionActive, "a transaction is already in progress"⟩ db := by
  unfold begin
  simp [h]

theorem Valid.begun {db : Database δ κ} (h : db.Valid) : db.begun.Valid :=
  ⟨h.catalogRoot_eq, h.rootPage_pos, h.rootPage_lt, h.nextLsn_pos⟩

/-! ### A commit that fails -/

section FailedCommit

variable [PageSize] {base : Database δ κ}

omit [PageSize] in
theorem keeps_onDevice {perform : Database δ κ → Database δ κ}
    {fail : Nat → Database δ κ → Database δ κ}
    (hperform : ∀ db, OnlyWal db (perform db)) (hfail : ∀ torn db, OnlyWal db (fail torn db)) :
    Keeps (OnlyWal base) (onDevice perform fail) := by
  intro db h
  unfold onDevice
  split
  · exact h.trans (hperform db)
  · exact h.trans (hfail _ db)
  · exact (h.trans (hperform db)).trans rfl

theorem keeps_openDurable (lsn : Nat) : Keeps (OnlyWal base) (openDurable lsn) := by
  intro db h
  have hclosed : OnlyWal base { db with openWal := none } := h.trans rfl
  have hheader : Keeps (OnlyWal base) (writeHeader : Action δ κ Unit) :=
    keeps_onDevice (fun _ => rfl) fun _ _ => rfl
  unfold openDurable
  simp only [modify_bind_run]
  rw [ite_run]
  split
  · exact hclosed
  · rw [get_bind_run]
    dsimp only
    rcases db.wal with _ | ⟨size | ⟨records, torn⟩⟩
    · exact after_bind (hheader _ (h.trans rfl)) fun _ _ h => h.trans rfl
    · exact after_bind (hheader _ (h.trans rfl)) fun _ _ h => h.trans rfl
    · exact h.trans rfl

theorem keeps_durableWal : Keeps (OnlyWal base) (durableWal : Action δ κ Wal) := by
  intro db h
  unfold durableWal
  rw [get_bind_run]
  cases db.openWal with
  | none => exact keeps_openDurable _ db h
  | some wal =>
    dsimp only
    rw [ite_run]
    split
    · exact h
    · exact keeps_openDurable _ db h

theorem keeps_append (recordAt : Nat → LogRecord (PageContent δ)) (wal : Wal) :
    Keeps (OnlyWal base) (append recordAt wal : Action δ κ Wal) := by
  unfold append
  refine Keeps.bind ?_ fun _ _ h => h.trans rfl
  exact keeps_onDevice (fun _ => rfl) fun _ _ => rfl

theorem keeps_appendImages (txId : Nat) (images : List (Nat × PageContent δ)) (wal : Wal) :
    Keeps (OnlyWal base) (appendImages txId images wal : Action δ κ Wal) := by
  induction images generalizing wal with
  | nil => exact fun _ h => h
  | cons image images ih => exact (keeps_append _ wal).bind fun wal => ih wal

omit [PageSize] in
theorem keeps_syncWal : Keeps (OnlyWal base) (syncWal : Action δ κ Unit) :=
  keeps_onDevice (fun _ => rfl) fun _ _ => rfl

theorem keeps_logTransaction :
    Keeps (OnlyWal base) (logTransaction : Action δ κ (Nat × Nat)) := by
  refine keeps_durableWal.bind fun wal db h => ?_
  rw [get_bind_run]
  refine after_bind (keeps_append _ wal db h) fun wal db h => ?_
  refine after_bind (keeps_appendImages _ _ wal db h) fun wal db h => ?_
  refine after_bind (keeps_append _ wal db h) fun wal db h => ?_
  exact after_bind (keeps_syncWal db h) fun _ _ h => h

theorem returns_append (recordAt : Nat → LogRecord (PageContent δ)) (wal : Wal) :
    Returns (fun wal' => wal'.nextLsn = wal.nextLsn + 1)
      (append recordAt wal : Action δ κ Wal) :=
  Returns.after fun _ => Returns.after fun _ => Returns.pure rfl

theorem returns_logTransaction :
    Returns (fun lsns => 0 < lsns.2) (logTransaction : Action δ κ (Nat × Nat)) := by
  refine Returns.after fun _ => Returns.after fun _ => Returns.after fun _ => Returns.after ?_
  intro wal
  refine (returns_append _ wal).bind fun wal' hlsn => Returns.after fun _ => Returns.pure ?_
  rw [hlsn]
  exact Nat.succ_pos _

theorem commitTransaction_error {db db' : Database δ κ} {error : Error} (hvalid : db.Valid)
    (h : commitTransaction db = .error error db') :
    db' = db ∨ db.file.inTransaction = true ∧ OnlyWal (db.putRoot db.committingRoot) db' := by
  unfold commitTransaction at h
  rw [get_bind_run] at h
  cases htx : db.file.inTransaction with
  | false =>
    simp only [htx, Bool.false_eq_true, not_false_eq_true, if_true, throw_bind_run] at h
    injection h with _ hstate
    exact .inl hstate.symm
  | true =>
    simp only [htx, not_true_eq_false, if_false] at h
    by_cases hepoch : db.store.root.epoch = maxU64
    · have hadvance : advanceEpoch db =
          .error ⟨.valueTooLarge, "database epoch is exhausted"⟩ db := by
        unfold advanceEpoch
        simp [hepoch]
      rw [bind_of_error hadvance] at h
      injection h with _ hstate
      exact .inl hstate.symm
    · rw [bind_of_ok (advanceEpoch_eq hvalid hepoch)] at h
      have hlogged := keeps_logTransaction (db.putRoot db.committingRoot) (OnlyWal.refl _)
      refine .inr ⟨rfl, ?_⟩
      rcases bind_eq_error h with hfail | ⟨⟨commitLsn, nextLsn⟩, logged, hok, hfinish⟩
      · rw [hfail] at hlogged
        exact hlogged
      · rw [hok] at hlogged
        have hnext := returns_logTransaction _ _ _ hok
        have hvalid' : logged.Valid := hlogged.valid (hvalid.putRoot hvalid.nextLsn_pos)
        rw [show finishCommit commitLsn nextLsn logged = _ from finishCommit_eq hvalid' _ hnext]
          at hfinish
        injection hfinish

theorem commitTransaction_ok {db db' : Database δ κ} (hvalid : db.Valid)
    (h : commitTransaction db = .ok () db') :
    db.file.inTransaction = true ∧ ∃ logged commitLsn nextLsn,
      OnlyWal (db.putRoot db.committingRoot) logged ∧ 0 < nextLsn ∧
        db' = finished commitLsn nextLsn logged := by
  rcases commitTransaction_cases db with ⟨error, hfailed⟩ | ⟨htx, hepoch⟩
  · rw [hfailed] at h
    injection h
  · refine ⟨htx, ?_⟩
    unfold commitTransaction at h
    simp only [get_bind_run, htx, not_true_eq_false, if_false] at h
    rw [bind_of_ok (advanceEpoch_eq hvalid hepoch)] at h
    obtain ⟨⟨commitLsn, nextLsn⟩, logged, hok, hfinish⟩ := bind_eq_ok h
    have hlogged := keeps_logTransaction (db.putRoot db.committingRoot) (OnlyWal.refl _)
    rw [hok] at hlogged
    have hnext := returns_logTransaction _ _ _ hok
    have hvalid' : logged.Valid := hlogged.valid (hvalid.putRoot hvalid.nextLsn_pos)
    rw [show finishCommit commitLsn nextLsn logged = _ from finishCommit_eq hvalid' _ hnext]
      at hfinish
    injection hfinish with _ hstate
    exact ⟨logged, commitLsn, nextLsn, hlogged, hnext, hstate.symm⟩

end FailedCommit

/-! ### Rollback -/

section Rollback

def discarded (db : Database δ κ) : Database δ κ :=
  { db with file := db.file.discardTransaction }

def walRemoved (db : Database δ κ) : Database δ κ :=
  { db.record (.wal .remove) with wal := none, openWal := none }

def offsetCleared (db : Database δ κ) : Database δ κ :=
  if db.primaryStorage = .full ∧ db.store.root.checkpointWalOffset ≠ 0 then
    db.withCheckpoint db.store.root.checkpointLsn 0
  else db

def abandoned (db : Database δ κ) : Database δ κ :=
  (if db.primaryStorage = .full then db.discarded.checkpointed
    else db.discarded).walRemoved.offsetCleared

def resynced (watermark : Nat) (store : ObjectStore κ) (db : Database δ κ) : Database δ κ :=
  let db : Database δ κ := { db with store := store, publishedEpoch := store.root.epoch }
  (if db.store.root.nextObjectId < watermark then
    db.putRoot { db.store.root with nextObjectId := watermark }
  else db).flushed

theorem Valid.discarded {db : Database δ κ} (h : db.Valid) : db.discarded.Valid :=
  ⟨h.catalogRoot_eq, h.rootPage_pos, h.rootPage_lt, h.nextLsn_pos⟩

theorem Valid.walRemoved {db : Database δ κ} (h : db.Valid) : db.walRemoved.Valid :=
  ⟨h.catalogRoot_eq, h.rootPage_pos, h.rootPage_lt, h.nextLsn_pos⟩

theorem Valid.offsetCleared {db : Database δ κ} (h : db.Valid) : db.offsetCleared.Valid := by
  unfold Database.offsetCleared
  split
  · exact h.withCheckpoint _ _
  · exact h

theorem Valid.abandoned {db : Database δ κ} (h : db.Valid) : db.abandoned.Valid := by
  unfold Database.abandoned
  split
  · exact h.discarded.checkpointed.walRemoved.offsetCleared
  · exact h.discarded.walRemoved.offsetCleared

theorem log_offsetCleared (db : Database δ κ) :
    db.offsetCleared.wal = db.wal ∧ db.offsetCleared.openWal = db.openWal ∧
      db.offsetCleared.walFault = db.walFault := by
  unfold offsetCleared
  split <;> exact ⟨rfl, rfl, rfl⟩

theorem walFault_checkpointed (db : Database δ κ) : db.checkpointed.walFault = db.walFault := by
  unfold checkpointed
  split <;> rfl

theorem log_abandoned (db : Database δ κ) :
    db.abandoned.wal = none ∧ db.abandoned.openWal = none ∧
      db.abandoned.walFault = db.walFault := by
  obtain ⟨hwal, hopen, hfault⟩ := log_offsetCleared
    (if db.primaryStorage = .full then db.discarded.checkpointed else db.discarded).walRemoved
  refine ⟨hwal, hopen, hfault.trans ?_⟩
  change Database.walFault (if _ then _ else _) = _
  split
  · exact walFault_checkpointed _
  · rfl

variable [StoreParts δ κ]

theorem valid_of_open (db : Database δ κ) {store : ObjectStore κ}
    (h : ObjectStore.open db.file = .ok store) :
    ({ db with store := store } : Database δ κ).Valid := by
  obtain ⟨stored, hcatalog, hread, hzero, -, hroot⟩ :=
    DatabaseRoot.open_eq_ok.1 (ObjectStore.open_eq_ok.1 h).1
  refine ⟨hcatalog, Nat.pos_of_ne_zero hzero, ?_, ?_⟩
  · unfold PageFile.read at hread
    split at hread
    · simp at hread
    · next hlt => exact Nat.lt_of_not_le hlt
  · change 0 < store.root.nextLsn
    rw [hroot]
    exact Nat.lt_of_lt_of_le Nat.zero_lt_one (Nat.le_max_left 1 _)

omit [StoreParts δ κ] in
theorem clearCheckpointOffset_eq {db : Database δ κ} (h : db.Valid) :
    clearCheckpointOffset db = .ok () db.offsetCleared := by
  unfold clearCheckpointOffset offsetCleared
  rw [get_bind_run, ite_run, setCheckpointLsn_eq h]
  split <;> rfl

theorem resyncStoreAfterRollback_eq (db : Database δ κ) :
    resyncStoreAfterRollback db =
      match ObjectStore.open db.file with
      | .error error => .error error db
      | .ok store => .ok () { db with store := store, publishedEpoch := store.root.epoch } := by
  unfold resyncStoreAfterRollback
  rw [get_bind_run]
  cases (ObjectStore.open db.file : Except Error (ObjectStore κ)) <;> rfl

omit [StoreParts δ κ] in
theorem Valid.resynced {db : Database δ κ} {store : ObjectStore κ}
    (h : ({ db with store := store } : Database δ κ).Valid) (watermark : Nat) :
    (db.resynced watermark store).Valid := by
  have hstore : ({ db with
      store := store, publishedEpoch := store.root.epoch } : Database δ κ).Valid :=
    ⟨h.catalogRoot_eq, h.rootPage_pos, h.rootPage_lt, h.nextLsn_pos⟩
  unfold Database.resynced
  apply Valid.flushed
  split
  · exact hstore.putRoot hstore.nextLsn_pos
  · exact hstore

omit [StoreParts δ κ] in
theorem log_resynced (db : Database δ κ) (watermark : Nat) (store : ObjectStore κ) :
    (db.resynced watermark store).wal = db.wal ∧
      (db.resynced watermark store).openWal = db.openWal ∧
      (db.resynced watermark store).walFault = db.walFault := by
  unfold resynced
  dsimp only
  split <;> exact ⟨rfl, rfl, rfl⟩

theorem rollbackTransaction_durable {db : Database δ κ} (h : db.commitDurable = true) :
    rollbackTransaction db =
      .error ⟨.transactionCommitted, "a durable commit cannot be rolled back"⟩ db := by
  unfold rollbackTransaction
  simp [h]

theorem rollbackTransaction_eq {db : Database δ κ} (hvalid : db.Valid)
    (hdurable : db.commitDurable = false) :
    rollbackTransaction db =
      match ObjectStore.open db.abandoned.file with
      | .error error => .error error db.abandoned
      | .ok store => .ok () (resynced db.store.root.nextObjectId store db.abandoned) := by
  have hend : rollbackTransaction db =
      (do
        resyncStoreAfterRollback
        ensureNextObjectIdAtLeast db.store.root.nextObjectId
        flush : Action δ κ Unit) db.abandoned := by
    have hnot : ¬db.commitDurable = true := by simp [hdurable]
    have hdiscard : (modify fun db => { db with file := db.file.discardTransaction } :
        Action δ κ PUnit) db = .ok ⟨⟩ db.discarded := rfl
    unfold rollbackTransaction abandoned
    rw [get_bind_run]
    dsimp only
    rw [if_neg hnot, bind_of_ok hdiscard]
    have hremove : ∀ db : Database δ κ, removeWal db = .ok () db.walRemoved := fun _ => rfl
    by_cases hfull : db.primaryStorage = .full
    · rw [if_pos hfull, if_pos hfull, bind_of_ok (advanceCheckpoint_eq hvalid.discarded),
        bind_of_ok (hremove _),
        bind_of_ok (clearCheckpointOffset_eq hvalid.discarded.checkpointed.walRemoved)]
    · rw [if_neg hfull, if_neg hfull, bind_of_ok (hremove _),
        bind_of_ok (clearCheckpointOffset_eq hvalid.discarded.walRemoved)]
  rw [hend]
  have hresync := resyncStoreAfterRollback_eq db.abandoned
  cases hopen : (ObjectStore.open db.abandoned.file : Except Error (ObjectStore κ)) with
  | error error =>
    rw [hopen] at hresync
    rw [bind_of_error hresync]
  | ok store =>
    rw [hopen] at hresync
    have hopened := valid_of_open _ hopen
    have hstore : ({ db.abandoned with
        store := store, publishedEpoch := store.root.epoch } : Database δ κ).Valid :=
      ⟨hopened.catalogRoot_eq, hopened.rootPage_pos, hopened.rootPage_lt, hopened.nextLsn_pos⟩
    rw [bind_of_ok hresync, bind_of_ok (ensureNextObjectIdAtLeast_eq hstore _)]
    rfl

end Rollback

end MoDb.Object.Database
