import MoDb.Object.Effects
import MoDb.Tx.BoundedRecovery
import MoDb.Tx.LogRecovery

/-!
# Creating, opening and closing

What `create` leaves is one file, the same for every database but for its uuid. What `open` does
after recovery changes the root, and cuts the log only past its last commit record.
-/

namespace MoDb.Object

open Storage Tx Effect

variable {δ κ : Type} [StoreParts δ κ]

/-! ### A new database -/

def createdRoot (uuid : Nat) : DatabaseRoot :=
  { identityDir := 2, dataHeapRoot := 3, catalogHeapRoot := 4, databaseUuid := uuid }

variable (δ κ) in
/-- The writes of `ObjectStore::create`, with those of `PageFile::create` before them. -/
def createIos (uuid : Nat) : List (DataIo (PageContent δ)) :=
  [.writeSuperblock 1 none, .sync,
    .writePage 1 .blank, .writePageCount 2, .writePage 1 (.root { databaseUuid := uuid }),
    .writeSuperblock 2 (some 1),
    .writePage 2 .blank, .writePageCount 3, .writePage 2 (.data (StoreParts.identityDir κ)),
    .writePage 1 (.root { identityDir := 2, databaseUuid := uuid }),
    .writePage 3 .blank, .writePageCount 4, .writePage 3 (.data (StoreParts.dataHeapRoot κ)),
    .writePage 1 (.root { identityDir := 2, dataHeapRoot := 3, databaseUuid := uuid }),
    .writePage 4 .blank, .writePageCount 5, .writePage 4 (.data (StoreParts.catalogHeapRoot κ)),
    .writePage 1 (.root (createdRoot uuid))]

variable (δ κ) in
def createdFile (uuid : Nat) : PageFile (PageContent δ) where
  data := (createIos δ κ uuid).foldl (fun file io => io.run file) ⟨0, none, fun _ => .blank, 0⟩
  pageCount := 5
  catalogRoot := some 1
  trace := createIos δ κ uuid

theorem create_file (uuid : Nat) :
    ObjectStore.create uuid PageFile.create =
      .ok ((⟨1, createdRoot uuid, StoreParts.created δ⟩ : ObjectStore κ), createdFile δ κ uuid) := by
  unfold ObjectStore.create DatabaseRoot.create DatabaseRoot.persist ObjectStore.createPart
  simp [PageFile.allocatePage_eq, PageFile.write_eq, PageFile.extended, PageFile.perform,
    PageFile.setCatalogRoot, PageFile.create, createdFile, createIos, createdRoot, bind,
    Except.bind, pure, Except.pure]

namespace Database

/-- The handle that `create` makes in `full` mode. -/
def created (interval uuid : Nat) : Database δ κ where
  file := createdFile δ κ uuid
  store := ⟨1, createdRoot uuid, StoreParts.created δ⟩
  publishedEpoch := 0
  checkpointInterval := max 1 interval

theorem create_eq (mode : PrimaryStorage) (interval uuid : Nat) :
    Database.create mode interval uuid =
      .ok
        (match mode with
        | .full => (created interval uuid : Database δ κ)
        | .walOnly =>
          controlPersisted { (created interval uuid : Database δ κ) with primaryStorage := .walOnly }) := by
  unfold Database.create
  rw [create_file]
  cases mode <;> rfl

theorem valid_created (interval uuid : Nat) : (created interval uuid : Database δ κ).Valid where
  catalogRoot_eq := rfl
  rootPage_pos := Nat.zero_lt_one
  rootPage_lt := by
    change 1 < 5
    omega
  nextLsn_pos := Nat.zero_lt_one

/-! ### Closing and opening -/

omit [StoreParts δ κ] in
theorem close_eq {db : Database δ κ} (h : db.Valid) :
    db.close =
      let closed := if db.primaryStorage = .full ∧ ¬db.file.inTransaction then db.checkpointed else db
      { data := closed.file.data, wal := closed.wal, control := closed.control } := by
  unfold close
  dsimp only
  rw [advanceCheckpoint_eq h, after_ok]
  by_cases hfull : db.primaryStorage = .full ∧ ¬db.file.inTransaction
  · by_cases hpending : db.commitsSinceCheckpoint = 0
    · simp [hpending, hfull, checkpointed]
    · simp [Nat.pos_of_ne_zero hpending, hfull]
  · rw [if_neg hfull, if_neg fun hall => hfull ⟨hall.1, hall.2.1⟩]

section Open

variable [PageSize]

/-- The handle that `open` makes before it repairs the counters. -/
def opened (wal : Option (WalFile (PageContent δ))) (interval : Nat)
    (file : PageFile (PageContent δ)) (store : ObjectStore κ) : Database δ κ where
  file := file
  store := store
  publishedEpoch := store.root.epoch
  wal := wal
  checkpointInterval := max 1 interval

theorem open_eq_ok {disk : Disk δ} {interval : Nat} {db : Database δ κ}
    (h : Database.open disk interval = .ok db) :
    ∃ file recovered file' store,
      PageFile.open disk.data (disk.wal.any fun wal => decide (0 < wal.size)) = .ok file ∧
        recover file (disk.wal.map WalFile.view) (recordedCheckpoint file).1
          (recordedCheckpoint file).2 = (.ok recovered, file') ∧
        ObjectStore.open file' = .ok store ∧
        resume recovered (opened disk.wal interval file' store) = .ok () db := by
  unfold Database.open at h
  dsimp only at h
  obtain ⟨file, hfile, h⟩ := except_bind_eq_ok h
  refine ⟨file, ?_⟩
  rcases hrecover : recover file (disk.wal.map WalFile.view) (recordedCheckpoint file).1
    (recordedCheckpoint file).2 with ⟨error | recovered, file'⟩
  · rw [hrecover] at h
    injection h
  · rw [hrecover] at h
    obtain ⟨store, hstore, h⟩ := except_bind_eq_ok h
    refine ⟨recovered, file', store, hfile, rfl, hstore, ?_⟩
    split at h
    · injection h
    · next hresume =>
      injection h with h
      rw [← h]
      exact hresume

/-! ### Opening in `wal_only` mode -/

def identifiedRoot (control : InstanceControl) (root : DatabaseRoot) : DatabaseRoot :=
  { root with
    databaseUuid := control.databaseUuid
    timelineId := if control.timelineId = 0 then 1 else control.timelineId }

variable (δ κ) in
def seed (wal : Option (WalFile (PageContent δ))) (control : InstanceControl) (uuid : Nat) :
    Database δ κ where
  file := createdFile δ κ uuid
  store := ⟨1, createdRoot uuid, StoreParts.created δ⟩
  publishedEpoch := 0
  wal := wal
  primaryStorage := .walOnly
  control := some control

def identified (control : InstanceControl) (db : Database δ κ) : Database δ κ :=
  ((db.putRoot { db.store.root with databaseUuid := control.databaseUuid }).putRoot
    (identifiedRoot control db.store.root)).flushed

def recoveredInto (file : PageFile (PageContent δ)) (store : ObjectStore κ) (db : Database δ κ) :
    Database δ κ :=
  { db with file := file, store := store, publishedEpoch := store.root.epoch }

omit [PageSize] in
theorem valid_seed (wal : Option (WalFile (PageContent δ))) (control : InstanceControl)
    (uuid : Nat) : (seed δ κ wal control uuid).Valid where
  catalogRoot_eq := rfl
  rootPage_pos := Nat.zero_lt_one
  rootPage_lt := by
    change 1 < 5
    omega
  nextLsn_pos := Nat.zero_lt_one

omit [StoreParts δ κ] [PageSize] in
theorem setReplicationIdentity_eq {db : Database δ κ} (h : db.Valid) (control : InstanceControl) :
    setReplicationIdentity control db =
      .ok ()
        ((db.putRoot { db.store.root with databaseUuid := control.databaseUuid }).putRoot
          (identifiedRoot control db.store.root)) := by
  have hfirst : (db.putRoot { db.store.root with databaseUuid := control.databaseUuid }).Valid :=
    h.putRoot h.nextLsn_pos
  unfold setReplicationIdentity
  rw [bind_of_ok (setRoot_eq h _), setRoot_eq hfirst]
  rfl

theorem openWalOnly_eq_ok {wal : Option (WalFile (PageContent δ))} {control : InstanceControl}
    {uuid : Nat} {db : Database δ κ} (h : openWalOnly wal control uuid = .ok db) :
    ∃ recovered file' store,
      recover ((seed δ κ wal control uuid).identified control).file (wal.map WalFile.view)
          control.checkpointLsn 0 = (.ok recovered, file') ∧
        ObjectStore.open file' = .ok store ∧
        resumeWalOnly control recovered
          (((seed δ κ wal control uuid).identified control).recoveredInto file' store) = .ok () db := by
  have hseed : (do setReplicationIdentity control; flush : Action δ κ Unit)
      (seed δ κ wal control uuid) = .ok () ((seed δ κ wal control uuid).identified control) := by
    rw [bind_of_ok (setReplicationIdentity_eq (valid_seed wal control uuid) control)]
    rfl
  unfold openWalOnly at h
  obtain ⟨⟨store, file⟩, hcreate, h⟩ := except_bind_eq_ok h
  rw [create_file] at hcreate
  injection hcreate with hcreate
  injection hcreate with hstore hfile
  subst hstore hfile
  dsimp only at h
  split at h
  · injection h
  · next hidentified =>
    injection hseed.symm.trans hidentified with _ hstate
    rw [← hstate] at h
    rcases hrecover : recover ((seed δ κ wal control uuid).identified control).file
      (wal.map WalFile.view) control.checkpointLsn 0 with ⟨error | recovered, file'⟩
    · rw [hrecover] at h
      injection h
    · rw [hrecover] at h
      obtain ⟨store, hstore, h⟩ := except_bind_eq_ok h
      refine ⟨recovered, file', store, rfl, hstore, ?_⟩
      split at h
      · injection h
      · next hresume =>
        injection h with h
        rw [← h]
        exact hresume

/-! ### What a new session keeps -/

/-- A change of the root that keeps its counters in range. -/
structure InRange (change : DatabaseRoot → DatabaseRoot) : Prop where
  nextLsn_pos : ∀ root, 0 < root.nextLsn → 0 < (change root).nextLsn
  timelineId_pos : ∀ root, 0 < root.timelineId → 0 < (change root).timelineId
  nextObjectId_eq : ∀ root, (change root).nextObjectId = root.nextObjectId

/-- A property that the setters, the flush and the restart of the transaction ids keep. -/
structure KeptByRepairs (I : Database δ κ → Prop) : Prop where
  setRoot : ∀ change, InRange change → Keeps I (Database.setRoot change)
  flush : Keeps I Database.flush
  nextTxId : ∀ db txId, I db → I { db with nextTxId := txId }

namespace KeptByRepairs

omit [StoreParts δ κ] [PageSize]

variable {I : Database δ κ → Prop} (h : KeptByRepairs I)
include h

theorem setNextLsn (next : Nat) : Keeps I (Database.setNextLsn next) := by
  intro db hdb
  unfold Database.setNextLsn
  rw [ite_run]
  split
  · exact hdb
  · next hne =>
    refine h.setRoot _ ?_ db hdb
    exact ⟨fun _ _ => Nat.pos_of_ne_zero hne, fun _ htimeline => htimeline, fun _ => rfl⟩

theorem setCheckpointLsn (lsn offset : Nat) : Keeps I (Database.setCheckpointLsn lsn offset) :=
  h.setRoot _ ⟨fun _ hlsn => hlsn, fun _ htimeline => htimeline, fun _ => rfl⟩

theorem repairNextLsn (recovered : RecoverResult) : Keeps I (Database.repairNextLsn recovered) := by
  intro db hdb
  unfold Database.repairNextLsn
  rw [get_bind_run, ite_run]
  split
  · exact h.setNextLsn _ db hdb
  · exact hdb

theorem coverRecovered (recovered : RecoverResult) :
    Keeps I (Database.coverRecovered recovered) := by
  intro db hdb
  unfold Database.coverRecovered
  rw [get_bind_run, ite_run]
  split
  · exact (h.setCheckpointLsn _ _).bind (fun _ => h.flush) db hdb
  · exact hdb

theorem resume [PageSize] {recovered : RecoverResult}
    (htruncate : Keeps I (truncateWalAfterLastCommit recovered.lastCommitEnd)) :
    Keeps I (Database.resume recovered) := by
  refine htruncate.bind fun _ => (h.repairNextLsn recovered).bind fun _ => ?_
  exact (h.coverRecovered recovered).bind fun _ db hdb => h.nextTxId db _ hdb

theorem setReplicationIdentity (control : InstanceControl) :
    Keeps I (Database.setReplicationIdentity control) := by
  refine (h.setRoot _ ?_).bind fun _ => h.setRoot _ ?_
  · exact ⟨fun _ hlsn => hlsn, fun _ htimeline => htimeline, fun _ => rfl⟩
  · refine ⟨fun _ hlsn => hlsn, fun _ _ => ?_, fun _ => rfl⟩
    change 0 < if _ then _ else _
    split <;> omega

theorem raiseCheckpoint (recovered : RecoverResult) :
    Keeps I (Database.raiseCheckpoint recovered) := by
  intro db hdb
  unfold Database.raiseCheckpoint
  rw [get_bind_run, ite_run]
  split
  · exact h.setCheckpointLsn _ _ db hdb
  · exact hdb

theorem resumeWalOnly [PageSize] (control : InstanceControl) {recovered : RecoverResult}
    (htruncate : Keeps I (truncateWalAfterLastCommit recovered.lastCommitEnd))
    (hcontrol : Keeps I persistInstanceControl) :
    Keeps I (Database.resumeWalOnly control recovered) := by
  refine (h.setReplicationIdentity control).bind fun _ => (h.setNextLsn _).bind fun _ => ?_
  refine (h.setCheckpointLsn _ _).bind fun _ => ?_
  refine (h.setRoot _ ?_).bind fun _ => ?_
  · exact ⟨fun _ hlsn => hlsn, fun _ htimeline => htimeline, fun _ => rfl⟩
  refine (h.raiseCheckpoint recovered).bind fun _ => (h.repairNextLsn recovered).bind fun _ => ?_
  refine htruncate.bind fun _ db hdb => ?_
  exact hcontrol _ (h.nextTxId db _ hdb)

end KeptByRepairs

end Open

/-! ### The offset that a checkpoint records -/

section CheckpointOffset

omit [StoreParts δ κ]

variable [PageSize] {records rest : List (LogRecord (PageContent δ))}

theorem committingRecords_le (db : Database δ κ) : ∀ record ∈ db.committingRecords,
    record.lsn ≤ db.committingLsn ∧ record.commitLsn ≤ db.committingLsn := by
  have hother {record : LogRecord (PageContent δ)} (htype : record.type ≠ .commit)
      (hlsn : record.lsn ≤ db.committingLsn) :
      record.lsn ≤ db.committingLsn ∧ record.commitLsn ≤ db.committingLsn := by
    rw [WalRecord.commitLsn, if_pos htype]
    exact ⟨hlsn, hlsn⟩
  intro record hrecord
  rcases List.mem_append.1 hrecord with hrecord | hcommit
  · rcases List.mem_cons.1 hrecord with rfl | himage
    · exact hother (fun h => WalRecordType.noConfusion h) (Nat.le_trans (Nat.le_add_right _ _) (Nat.le_succ _))
    · have htype := type_of_mem_imageRecords himage
      have hbounds := (consecutive_imageRecords _ _ _).lsn_bounds himage
      rw [length_imageRecords] at hbounds
      refine hother (fun h => WalRecordType.noConfusion (htype.symm.trans h)) ?_
      unfold committingLsn
      omega
  · rw [List.mem_singleton.1 hcommit]
    exact ⟨Nat.le_refl _, Nat.le_refl _⟩

theorem covered_committingRecords (db : Database δ κ) (hbelow : ∀ record ∈ records,
      record.lsn < db.store.root.nextLsn ∧ record.commitLsn < db.store.root.nextLsn) :
    ∀ record ∈ records ++ db.committingRecords,
      record.lsn ≤ db.committingLsn ∧ record.commitLsn ≤ db.committingLsn := by
  have hnext : db.store.root.nextLsn ≤ db.committingLsn :=
    Nat.le_trans (Nat.le_add_right _ _) (Nat.le_succ _)
  intro record hrecord
  rcases List.mem_append.1 hrecord with hold | hnew
  · have hlt := hbelow record hold
    exact ⟨Nat.le_of_lt (Nat.lt_of_lt_of_le hlt.1 hnext), Nat.le_of_lt (Nat.lt_of_lt_of_le hlt.2 hnext)⟩
  · exact db.committingRecords_le record hnew

theorem root_of_commitTransaction {db db' : Database δ κ} (hvalid : db.Valid) (hlog : db.Loggable records)
    (hfull : db.primaryStorage = .full) (hdue : db.checkpointInterval ≤ db.commitsSinceCheckpoint + 1)
    (hcommit : commitTransaction db = .ok () db') :
    db'.store.root.checkpointLsn = db.committingLsn ∧
      db'.store.root.checkpointWalOffset = WalFile.recordsEnd (records ++ db.committingRecords) ∧
      db'.store.root.nextLsn = db.committingLsn + 1 := by
  rcases commitTransaction_cases db with ⟨error, hfailed⟩ | ⟨htx, hepoch⟩
  · rw [hfailed] at hcommit
    injection hcommit
  · obtain ⟨wal, logged, -, hok, honly, hready, -, -⟩ := commitTransaction_eq hvalid htx hepoch hlog
    rw [hok] at hcommit
    injection hcommit with _ hstate
    have hmode : logged.primaryStorage = .full := by
      rw [congrArg Database.primaryStorage honly]
      exact hfull
    have hcount : logged.checkpointInterval ≤ logged.commitsSinceCheckpoint + 1 := by
      rw [congrArg Database.checkpointInterval honly, congrArg Database.commitsSinceCheckpoint honly]
      exact hdue
    rw [← hstate, ← hready.writeOffset_eq]
    unfold finished
    rw [hmode]
    dsimp only
    rw [if_pos (by exact hcount)]
    unfold checkpointed
    rw [if_neg (show (counted db.committingLsn
      (withNextLsn (db.committingLsn + 1) logged.applied)).commitsSinceCheckpoint ≠ 0 from Nat.succ_ne_zero _)]
    refine ⟨rfl, ?_, rfl⟩
    change (logged.openWal.map Wal.writeOffset).getD 0 = _
    rw [hready.openWal_eq]
    rfl

theorem commitTransaction_checkpointOffset {db db' : Database δ κ} (hvalid : db.Valid)
    (hlog : db.Loggable records) (hfull : db.primaryStorage = .full)
    (hdue : db.checkpointInterval ≤ db.commitsSinceCheckpoint + 1)
    (hbelow : ∀ record ∈ records,
      record.lsn < db.store.root.nextLsn ∧ record.commitLsn < db.store.root.nextLsn)
    (hfresh : ∀ record ∈ records ++ db.committingRecords, ∀ commit ∈ rest, commit.type = .commit →
      commit.txId ≠ record.txId)
    (hcommit : commitTransaction db = .ok () db') :
    CheckpointOffset (stamp walHeaderSize (records ++ db.committingRecords)) rest
        db'.store.root.checkpointLsn db'.store.root.checkpointWalOffset ∧
      ∀ record ∈ records ++ db.committingRecords,
        record.lsn < db'.store.root.nextLsn ∧ record.commitLsn < db'.store.root.nextLsn := by
  have hcovered := covered_committingRecords db hbelow
  obtain ⟨hlsn, hoffset, hnext⟩ := root_of_commitTransaction hvalid hlog hfull hdue hcommit
  rw [hlsn, hoffset, hnext]
  refine ⟨⟨?_, fun record hrecord => ?_, fun record hrecord => ?_⟩, fun record hrecord => ?_⟩
  · have hsplit : records ++ db.committingRecords = records ++
        (beginRecord db.store.root.nextLsn db.currentTxId ::
          imageRecords db.currentTxId (db.store.root.nextLsn + 1) db.committingImages) ++
        [commitRecord db.committingLsn db.currentTxId] := by
      rw [List.append_assoc]
      rfl
    rw [hsplit, stamp_append]
    refine ⟨_, List.getLast?_concat, rfl, ?_⟩
    simp [WalFile.recordsEnd, Nat.add_assoc]
  · obtain ⟨old, hold, _, rfl⟩ := exists_of_mem_stamp hrecord
    exact hcovered old hold
  · obtain ⟨old, hold, _, rfl⟩ := exists_of_mem_stamp hrecord
    exact hfresh old hold
  · have hle := hcovered record hrecord
    exact ⟨Nat.lt_succ_of_le hle.1, Nat.lt_succ_of_le hle.2⟩

end CheckpointOffset

end Database

end MoDb.Object
