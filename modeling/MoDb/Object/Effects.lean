import MoDb.Object.Session

/-!
# What the operations of a database do

On a valid handle the setters of the root cannot fail, so each operation is one function of the
state. The log operations of a commit leave everything but the log alone (`OnlyWal`), whether or not
the device fails under them.
-/

namespace MoDb.Object.Database

open Storage Tx Effect

variable {δ κ : Type}

/-! ### The root page -/

/-- What keeps every setter of the root from failing. -/
structure Valid (db : Database δ κ) : Prop where
  catalogRoot_eq : db.file.catalogRoot = some db.store.rootPage
  rootPage_pos : 0 < db.store.rootPage
  rootPage_lt : db.store.rootPage < db.file.pageCount
  nextLsn_pos : 0 < db.store.root.nextLsn

/-- The page write of `persist`, past its checks. -/
def writeRootPage (root : DatabaseRoot) (db : Database δ κ) : PageFile (PageContent δ) :=
  if db.file.inTransaction then
    { db.file with
      txPages := (db.store.rootPage, .root root) ::
        db.file.txPages.filter fun write => write.1 ≠ db.store.rootPage }
  else db.file.perform (.writePage db.store.rootPage (.root root))

def putRoot (root : DatabaseRoot) (db : Database δ κ) : Database δ κ :=
  { db with file := db.writeRootPage root, store.root := root }

theorem persist_eq {db : Database δ κ} (h : db.Valid) (root : DatabaseRoot) :
    root.persist db.store.rootPage db.file = .ok (db.writeRootPage root) := by
  have hpos := Nat.ne_of_gt h.rootPage_pos
  have hlt := Nat.not_le.2 h.rootPage_lt
  unfold DatabaseRoot.persist PageFile.write writeRootPage
  rw [if_neg hpos, if_neg hlt]
  split <;> rfl

theorem setRoot_eq {db : Database δ κ} (h : db.Valid) (change : DatabaseRoot → DatabaseRoot) :
    setRoot change db = .ok () (db.putRoot (change db.store.root)) := by
  unfold setRoot
  rw [persist_eq h]
  rfl

@[simp]
theorem inTransaction_writeRootPage (root : DatabaseRoot) (db : Database δ κ) :
    (db.writeRootPage root).inTransaction = db.file.inTransaction := by
  unfold writeRootPage
  split <;> rfl

@[simp]
theorem pageCount_writeRootPage (root : DatabaseRoot) (db : Database δ κ) :
    (db.writeRootPage root).pageCount = db.file.pageCount := by
  unfold writeRootPage
  split <;> rfl

@[simp]
theorem catalogRoot_writeRootPage (root : DatabaseRoot) (db : Database δ κ) :
    (db.writeRootPage root).catalogRoot = db.file.catalogRoot := by
  unfold writeRootPage
  split <;> rfl

theorem writeRootPage_of_inTransaction {db : Database δ κ} (h : db.file.inTransaction = true)
    (root : DatabaseRoot) :
    db.writeRootPage root =
      { db.file with
        txPages := (db.store.rootPage, .root root) ::
          db.file.txPages.filter fun write => write.1 ≠ db.store.rootPage } := by
  rw [writeRootPage, if_pos h]

theorem writeRootPage_of_not_inTransaction {db : Database δ κ}
    (h : db.file.inTransaction = false) (root : DatabaseRoot) :
    db.writeRootPage root = db.file.perform (.writePage db.store.rootPage (.root root)) := by
  rw [writeRootPage, if_neg (by simp [h])]

theorem Valid.putRoot {db : Database δ κ} (h : db.Valid) {root : DatabaseRoot}
    (hlsn : 0 < root.nextLsn) : (db.putRoot root).Valid where
  catalogRoot_eq := by simpa [Database.putRoot] using h.catalogRoot_eq
  rootPage_pos := h.rootPage_pos
  rootPage_lt := by simpa [Database.putRoot] using h.rootPage_lt
  nextLsn_pos := hlsn

def committingRoot (db : Database δ κ) : DatabaseRoot :=
  { db.store.root with epoch := db.store.root.epoch + 1 }

theorem advanceEpoch_eq {db : Database δ κ} (h : db.Valid) (hepoch : db.store.root.epoch ≠ maxU64) :
    advanceEpoch db = .ok () (db.putRoot db.committingRoot) := by
  unfold advanceEpoch
  simp [hepoch, setRoot_eq h, committingRoot]

def withNextLsn (next : Nat) (db : Database δ κ) : Database δ κ :=
  db.putRoot { db.store.root with nextLsn := next }

theorem setNextLsn_eq {db : Database δ κ} (h : db.Valid) {next : Nat} (hnext : next ≠ 0) :
    setNextLsn next db = .ok () (db.withNextLsn next) := by
  unfold setNextLsn
  simp [hnext, setRoot_eq h, withNextLsn]

def withCheckpoint (lsn walOffset : Nat) (db : Database δ κ) : Database δ κ :=
  db.putRoot { db.store.root with checkpointLsn := lsn, checkpointWalOffset := walOffset }

theorem setCheckpointLsn_eq {db : Database δ κ} (h : db.Valid) (lsn walOffset : Nat) :
    setCheckpointLsn lsn walOffset db = .ok () (db.withCheckpoint lsn walOffset) :=
  setRoot_eq h _

theorem Valid.withNextLsn {db : Database δ κ} (h : db.Valid) {next : Nat} (hnext : 0 < next) :
    (db.withNextLsn next).Valid :=
  h.putRoot hnext

theorem Valid.withCheckpoint {db : Database δ κ} (h : db.Valid) (lsn walOffset : Nat) :
    (db.withCheckpoint lsn walOffset).Valid :=
  h.putRoot h.nextLsn_pos

theorem ensureNextObjectIdAtLeast_eq {db : Database δ κ} (h : db.Valid) (atLeast : Nat) :
    ensureNextObjectIdAtLeast atLeast db =
      .ok ()
        (if db.store.root.nextObjectId < atLeast then
          db.putRoot { db.store.root with nextObjectId := atLeast }
        else db) := by
  unfold ensureNextObjectIdAtLeast
  rw [get_bind_run, ite_run, setRoot_eq h]
  split <;> rfl

/-! ### The checkpoint -/

def walOffset (db : Database δ κ) : Nat := (db.openWal.map Wal.writeOffset).getD 0

def flushed (db : Database δ κ) : Database δ κ := { db with file := db.file.flush }

/-- The state after `advanceCheckpoint`. -/
def checkpointed (db : Database δ κ) : Database δ κ :=
  if db.commitsSinceCheckpoint = 0 then db
  else
    { (db.flushed.withCheckpoint db.lastCommitLsn db.walOffset).flushed with
      commitsSinceCheckpoint := 0 }

theorem Valid.flushed {db : Database δ κ} (h : db.Valid) : db.flushed.Valid :=
  ⟨h.catalogRoot_eq, h.rootPage_pos, h.rootPage_lt, h.nextLsn_pos⟩

theorem flush_run (db : Database δ κ) : flush db = .ok () db.flushed := rfl

theorem advanceCheckpoint_eq {db : Database δ κ} (h : db.Valid) :
    advanceCheckpoint db = .ok () db.checkpointed := by
  unfold advanceCheckpoint checkpointed
  rw [get_bind_run, ite_run]
  by_cases hzero : db.commitsSinceCheckpoint = 0
  · rw [if_neg (not_not.2 hzero), if_pos hzero]
    rfl
  · rw [if_pos hzero, if_neg hzero, bind_of_ok (flush_run db), get_bind_run,
      bind_of_ok (setCheckpointLsn_eq h.flushed _ _), bind_of_ok (flush_run _)]
    rfl

theorem Valid.checkpointed {db : Database δ κ} (h : db.Valid) : db.checkpointed.Valid := by
  unfold Database.checkpointed
  split
  · exact h
  · have hput := (h.flushed.withCheckpoint db.lastCommitLsn db.walOffset).flushed
    exact ⟨hput.catalogRoot_eq, hput.rootPage_pos, hput.rootPage_lt, hput.nextLsn_pos⟩

/-! ### The log operations of a commit -/

/-- `db'` is `db` up to its log, the handle and the device of the log, and the trace. -/
def OnlyWal (db db' : Database δ κ) : Prop :=
  db' =
    { db with
      wal := db'.wal
      openWal := db'.openWal
      walFault := db'.walFault
      trace := db'.trace
      file := { db.file with trace := db'.file.trace } }

namespace OnlyWal

theorem refl (db : Database δ κ) : OnlyWal db db := rfl

theorem trans {first second third : Database δ κ} (h : OnlyWal first second)
    (h' : OnlyWal second third) : OnlyWal first third := by
  unfold OnlyWal at h h' ⊢
  rw [h] at h'
  exact h'

variable {db db' : Database δ κ} (h : OnlyWal db db')
include h

theorem store : db'.store = db.store := (congrArg Database.store h :)

theorem data : db'.file.data = db.file.data := (congrArg (·.file.data) h :)

theorem txPages : db'.file.txPages = db.file.txPages := (congrArg (·.file.txPages) h :)

theorem inTransaction : db'.file.inTransaction = db.file.inTransaction :=
  (congrArg (·.file.inTransaction) h :)

theorem pageCount : db'.file.pageCount = db.file.pageCount := (congrArg (·.file.pageCount) h :)

theorem catalogRoot : db'.file.catalogRoot = db.file.catalogRoot :=
  (congrArg (·.file.catalogRoot) h :)

theorem currentTxId : db'.currentTxId = db.currentTxId := (congrArg Database.currentTxId h :)

theorem valid (hvalid : db.Valid) : db'.Valid := by
  refine ⟨?_, ?_, ?_, ?_⟩
  · rw [h.store, h.catalogRoot]
    exact hvalid.catalogRoot_eq
  · rw [h.store]
    exact hvalid.rootPage_pos
  · rw [h.store, h.pageCount]
    exact hvalid.rootPage_lt
  · rw [h.store]
    exact hvalid.nextLsn_pos

end OnlyWal

theorem onDevice_eq {db : Database δ κ} (h : db.walFault = none)
    (perform : Database δ κ → Database δ κ) (fail : Nat → Database δ κ → Database δ κ) :
    onDevice perform fail db = .ok () (perform db) := by
  unfold onDevice
  rw [h]

theorem history_record (db : Database δ κ) (io : Io (PageContent δ)) :
    (db.record io).history = db.history ++ [io] := by
  simp [Database.record, history]

section Log

variable [PageSize]

/-- The log holds `records` and nothing else, and `wal` is the open handle at its end; the device
does not fail. -/
structure Ready (db : Database δ κ) (wal : Wal) (records : List (LogRecord (PageContent δ))) :
    Prop where
  wal_eq : db.wal = some (.log records 0)
  openWal_eq : db.openWal = some wal
  writeOffset_eq : wal.writeOffset = WalFile.recordsEnd records
  walFault_eq : db.walFault = none

theorem recordsEnd_append (records : List (LogRecord (PageContent δ)))
    (record : LogRecord (PageContent δ)) :
    WalFile.recordsEnd (records ++ [record]) = WalFile.recordsEnd records + record.size := by
  simp [WalFile.recordsEnd, Nat.add_assoc]

/-- The writes that append `records` to the log, the first at `offset`. -/
def walAppends : Nat → List (LogRecord (PageContent δ)) → List (Io (PageContent δ))
  | _, [] => []
  | offset, record :: records =>
    .wal (.append offset record) :: walAppends (offset + record.size) records

theorem walAppends_append (offset : Nat) (first second : List (LogRecord (PageContent δ))) :
    walAppends offset (first ++ second) =
      walAppends offset first ++ walAppends (offset + (first.map WalRecord.size).sum) second := by
  induction first generalizing offset with
  | nil => rfl
  | cons record first ih => simp [walAppends, ih, Nat.add_assoc]

/-- `db'` is `db` after `new` was appended to the log of `records`. -/
structure Appended (db db' : Database δ κ) (wal wal' : Wal)
    (records new : List (LogRecord (PageContent δ))) : Prop where
  onlyWal : OnlyWal db db'
  ready : db'.Ready wal' (records ++ new)
  nextLsn_eq : wal'.nextLsn = wal.nextLsn + new.length
  history_eq : db'.history = db.history ++ walAppends (WalFile.recordsEnd records) new

theorem Appended.trans {first second third : Database δ κ} {wal wal' wal'' : Wal}
    {records new new' : List (LogRecord (PageContent δ))}
    (h : Appended first second wal wal' records new)
    (h' : Appended second third wal' wal'' (records ++ new) new') :
    Appended first third wal wal'' records (new ++ new') where
  onlyWal := h.onlyWal.trans h'.onlyWal
  ready := by
    rw [← List.append_assoc]
    exact h'.ready
  nextLsn_eq := by
    rw [h'.nextLsn_eq, h.nextLsn_eq, List.length_append, Nat.add_assoc]
  history_eq := by
    have hoffset : WalFile.recordsEnd records + (new.map WalRecord.size).sum =
        WalFile.recordsEnd (records ++ new) := by
      simp [WalFile.recordsEnd, Nat.add_assoc]
    rw [h'.history_eq, h.history_eq, walAppends_append, hoffset, List.append_assoc]

/-- The state after `append`, when the device does not fail. -/
def appendRecord (record : LogRecord (PageContent δ)) (wal : Wal) (db : Database δ κ) :
    Database δ κ :=
  { db.record (.wal (.append wal.writeOffset record)) with
    wal := db.wal.map fun file => file.append wal.writeOffset record
    openWal := some ⟨wal.writeOffset + record.size, wal.nextLsn + 1⟩ }

theorem append_ready {db : Database δ κ} {wal : Wal} {records : List (LogRecord (PageContent δ))}
    (h : db.Ready wal records) (recordAt : Nat → LogRecord (PageContent δ)) :
    ∃ wal' db', append recordAt wal db = .ok wal' db' ∧
      Appended db db' wal wal' records [recordAt wal.nextLsn] := by
  have happend : append recordAt wal db =
      .ok ⟨wal.writeOffset + (recordAt wal.nextLsn).size, wal.nextLsn + 1⟩
        (db.appendRecord (recordAt wal.nextLsn) wal) := by
    unfold append
    rw [bind_of_ok (onDevice_eq h.walFault_eq _ _)]
    rfl
  refine ⟨_, _, happend, rfl, ⟨?_, rfl, ?_, h.walFault_eq⟩, rfl, ?_⟩
  · change db.wal.map _ = _
    simp [h.wal_eq, WalFile.append, h.writeOffset_eq]
  · change wal.writeOffset + _ = _
    rw [recordsEnd_append, h.writeOffset_eq]
  · rw [← h.writeOffset_eq]
    exact history_record db _

theorem appendImages_ready {db : Database δ κ} {wal : Wal}
    {records : List (LogRecord (PageContent δ))} (h : db.Ready wal records) (txId : Nat)
    (images : List (Nat × PageContent δ)) :
    ∃ wal' db', appendImages txId images wal db = .ok wal' db' ∧
      Appended db db' wal wal' records (imageRecords txId wal.nextLsn images) := by
  induction images generalizing db wal records with
  | nil =>
    refine ⟨wal, db, rfl, OnlyWal.refl db, ?_, rfl, (List.append_nil _).symm⟩
    simpa [imageRecords] using h
  | cons image images ih =>
    obtain ⟨wal₁, db₁, hfirst, happended₁⟩ :=
      append_ready h fun lsn => imageRecord lsn txId image
    obtain ⟨wal₂, db₂, hrest, happended₂⟩ := ih happended₁.ready
    refine ⟨wal₂, db₂, ?_, ?_⟩
    · unfold appendImages
      rw [bind_of_ok hfirst, hrest]
    · have hlsn : wal₁.nextLsn = wal.nextLsn + 1 := happended₁.nextLsn_eq
      rw [hlsn] at happended₂
      exact happended₁.trans happended₂

/-- What a commit finds: a log of `records` or no log, and a handle, if any, at the log's end. -/
structure Loggable (db : Database δ κ) (records : List (LogRecord (PageContent δ))) : Prop where
  wal_eq : db.wal = some (.log records 0) ∨
    (∀ records torn, db.wal ≠ some (.log records torn)) ∧ db.openWal = none ∧ records = []
  openWal_eq : ∀ wal, db.openWal = some wal → wal.writeOffset = WalFile.recordsEnd records
  walFault_eq : db.walFault = none

theorem openDurable_ready {db : Database δ κ} {records : List (LogRecord (PageContent δ))}
    (h : db.Loggable records) {lsn : Nat} (hlsn : lsn ≠ 0) :
    ∃ wal db' header, openDurable lsn db = .ok wal db' ∧ OnlyWal db db' ∧ db'.Ready wal records ∧
      wal.nextLsn = lsn ∧ db'.history = db.history ++ header ∧
      (header = [] ∨ header = [.wal .header] ∧ records = []) := by
  rcases h.wal_eq with hwal | ⟨hwal, -, rfl⟩
  · let wal : Wal := ⟨(WalFile.log records 0).size, lsn⟩
    refine ⟨wal, { db with openWal := some wal }, [], ?_, rfl, ⟨hwal, rfl, rfl, h.walFault_eq⟩, rfl,
      (List.append_nil _).symm, .inl rfl⟩
    unfold openDurable
    simp only [modify_bind_run, if_neg hlsn, get_bind_run, hwal]
    rfl
  · let wal : Wal := ⟨walHeaderSize, lsn⟩
    let db' : Database δ κ :=
      { ({ db with openWal := none } : Database δ κ).record (.wal .header) with
        wal := some (.log [] 0), openWal := some wal }
    refine ⟨wal, db', [.wal .header], ?_, rfl, ⟨rfl, rfl, rfl, h.walFault_eq⟩, rfl,
      history_record db _, .inr ⟨rfl, rfl⟩⟩
    unfold openDurable
    simp only [modify_bind_run, if_neg hlsn, get_bind_run]
    rcases hsome : db.wal with _ | ⟨size | ⟨records, torn⟩⟩
    · rw [writeHeader, bind_of_ok (onDevice_eq ?_ _ _)]
      · simp only [db', hsome]
        rfl
      · exact h.walFault_eq
    · rw [writeHeader, bind_of_ok (onDevice_eq ?_ _ _)]
      · simp only [db', hsome]
        rfl
      · exact h.walFault_eq
    · exact absurd hsome (hwal records torn)

theorem durableWal_ready {db : Database δ κ} {records : List (LogRecord (PageContent δ))}
    (h : db.Loggable records) (hlsn : 0 < db.store.root.nextLsn) :
    ∃ wal db' header, durableWal db = .ok wal db' ∧ OnlyWal db db' ∧ db'.Ready wal records ∧
      wal.nextLsn = db.store.root.nextLsn ∧ db'.history = db.history ++ header ∧
      (header = [] ∨ header = [.wal .header] ∧ records = []) := by
  have hreopen := openDurable_ready h (Nat.ne_of_gt hlsn)
  unfold durableWal
  rw [get_bind_run]
  cases hopen : db.openWal with
  | none => exact hreopen
  | some wal =>
    by_cases hnext : wal.nextLsn = db.store.root.nextLsn
    · have hwal : db.wal = some (.log records 0) :=
        h.wal_eq.resolve_right fun hnone => by simp [hopen] at hnone
      refine ⟨wal, db, [], ?_, OnlyWal.refl db, ⟨hwal, hopen, h.openWal_eq wal hopen, h.walFault_eq⟩,
        hnext, (List.append_nil _).symm, .inl rfl⟩
      simp [hnext]
    · simpa [hnext] using hreopen

/-! ### A commit -/

def committingImages (db : Database δ κ) : List (Nat × PageContent δ) :=
  (db.store.rootPage, .root db.committingRoot) ::
    db.file.txPages.filter fun write => write.1 ≠ db.store.rootPage

omit [PageSize] in
theorem txPages_putRoot {db : Database δ κ} (h : db.file.inTransaction = true) :
    (db.putRoot db.committingRoot).file.txPages = db.committingImages := by
  rw [putRoot, writeRootPage_of_inTransaction h]
  rfl

def committingLsn (db : Database δ κ) : Nat :=
  db.store.root.nextLsn + db.committingImages.length + 1

/-- The records of a transaction that is logged from LSN `lsn` on. -/
def txRecords (lsn txId : Nat) (images : List (Nat × PageContent δ)) :
    List (LogRecord (PageContent δ)) :=
  beginRecord lsn txId :: imageRecords txId (lsn + 1) images ++
    [commitRecord (lsn + images.length + 1) txId]

def committingRecords (db : Database δ κ) : List (LogRecord (PageContent δ)) :=
  txRecords db.store.root.nextLsn db.currentTxId db.committingImages

/-- The commit is in the log: its pages go to the file, and its epoch is published. -/
def applied (db : Database δ κ) : Database δ κ :=
  { db with
    commitDurable := true
    file := db.file.applyTransaction
    publishedEpoch := db.store.root.epoch }

def counted (commitLsn : Nat) (db : Database δ κ) : Database δ κ :=
  { db with
    lastCommitLsn := commitLsn
    commitsSinceCheckpoint := db.commitsSinceCheckpoint + 1 }

def controlPersisted (db : Database δ κ) : Database δ κ :=
  let root := db.store.root
  let control : InstanceControl :=
    ⟨root.databaseUuid, root.timelineId, root.nextLsn, root.checkpointLsn, root.followerAckLsn⟩
  { db.record (.control control) with control := some control }

def finished (commitLsn nextLsn : Nat) (db : Database δ κ) : Database δ κ :=
  match db.primaryStorage with
  | .walOnly =>
    ((db.applied.flushed.withNextLsn nextLsn).withCheckpoint commitLsn 0).controlPersisted
  | .full =>
    let db := (db.applied.withNextLsn nextLsn).counted commitLsn
    if db.checkpointInterval ≤ db.commitsSinceCheckpoint then db.checkpointed else db

omit [PageSize] in
theorem Valid.applied {db : Database δ κ} (h : db.Valid) : db.applied.Valid := by
  refine ⟨?_, h.rootPage_pos, ?_, h.nextLsn_pos⟩
  · change (PageFile.applyTransaction db.file).catalogRoot = _
    rw [PageFile.catalogRoot_applyTransaction]
    exact h.catalogRoot_eq
  · change _ < (PageFile.applyTransaction db.file).pageCount
    rw [PageFile.pageCount_applyTransaction]
    exact h.rootPage_lt

omit [PageSize] in
theorem Valid.finished {db : Database δ κ} (h : db.Valid) (commitLsn : Nat) {nextLsn : Nat}
    (hnext : 0 < nextLsn) : (db.finished commitLsn nextLsn).Valid := by
  unfold Database.finished
  cases db.primaryStorage with
  | walOnly =>
    have hput := (h.applied.flushed.withNextLsn hnext).withCheckpoint commitLsn 0
    exact ⟨hput.catalogRoot_eq, hput.rootPage_pos, hput.rootPage_lt, hput.nextLsn_pos⟩
  | full =>
    have hput := h.applied.withNextLsn hnext
    have hcounted : ((db.applied.withNextLsn nextLsn).counted commitLsn).Valid :=
      ⟨hput.catalogRoot_eq, hput.rootPage_pos, hput.rootPage_lt, hput.nextLsn_pos⟩
    dsimp only
    split
    · exact hcounted.checkpointed
    · exact hcounted

omit [PageSize] in
theorem finishCommit_eq {db : Database δ κ} (hvalid : db.Valid) (commitLsn : Nat) {nextLsn : Nat}
    (hnext : 0 < nextLsn) :
    finishCommit commitLsn nextLsn db = .ok () (db.finished commitLsn nextLsn) := by
  have hne := Nat.ne_of_gt hnext
  unfold finishCommit finished publishEpoch
  simp only [modify_bind_run, get_bind_run]
  change (match db.primaryStorage with
    | .walOnly => _
    | .full => _ : Action δ κ Unit) db.applied = _
  cases db.primaryStorage with
  | walOnly =>
    dsimp only
    rw [bind_of_ok (flush_run _), bind_of_ok (setNextLsn_eq hvalid.applied.flushed hne),
      bind_of_ok (setCheckpointLsn_eq (hvalid.applied.flushed.withNextLsn hnext) _ _)]
    rfl
  | full =>
    have hput := hvalid.applied.withNextLsn hnext
    have hcounted : ((db.applied.withNextLsn nextLsn).counted commitLsn).Valid :=
      ⟨hput.catalogRoot_eq, hput.rootPage_pos, hput.rootPage_lt, hput.nextLsn_pos⟩
    dsimp only
    rw [bind_of_ok (setNextLsn_eq hvalid.applied hne)]
    simp only [modify_bind_run, get_bind_run, ite_run]
    change (if ((db.applied.withNextLsn nextLsn).counted commitLsn).checkpointInterval ≤
        ((db.applied.withNextLsn nextLsn).counted commitLsn).commitsSinceCheckpoint then
      advanceCheckpoint ((db.applied.withNextLsn nextLsn).counted commitLsn)
      else .ok () ((db.applied.withNextLsn nextLsn).counted commitLsn)) = _
    rw [advanceCheckpoint_eq hcounted]
    split <;> rfl

omit [PageSize] in
theorem history_putRoot_of_inTransaction {db : Database δ κ} (h : db.file.inTransaction = true)
    (root : DatabaseRoot) : (db.putRoot root).history = db.history := by
  unfold putRoot history
  rw [writeRootPage_of_inTransaction h]

theorem Loggable.putRoot {db : Database δ κ} {records : List (LogRecord (PageContent δ))}
    (h : db.Loggable records) (root : DatabaseRoot) : (db.putRoot root).Loggable records :=
  ⟨h.wal_eq, h.openWal_eq, h.walFault_eq⟩

theorem logTransaction_eq {db : Database δ κ} {records : List (LogRecord (PageContent δ))}
    (hvalid : db.Valid) (hlog : db.Loggable records) :
    ∃ wal logged header,
      logTransaction db =
          .ok (db.store.root.nextLsn + db.file.txPages.length + 1,
            db.store.root.nextLsn + db.file.txPages.length + 2) logged ∧
        OnlyWal db logged ∧
        logged.Ready wal (records ++ txRecords db.store.root.nextLsn db.currentTxId db.file.txPages) ∧
        logged.history =
          db.history ++ header ++
            walAppends (WalFile.recordsEnd records)
              (txRecords db.store.root.nextLsn db.currentTxId db.file.txPages) ++ [.wal .sync] ∧
        (header = [] ∨ header = [.wal .header] ∧ records = []) := by
  obtain ⟨wal₀, db₀, header, hdurable, honly, hready, hlsn, hhistory, hheader⟩ :=
    durableWal_ready hlog hvalid.nextLsn_pos
  obtain ⟨wal₁, db₁, hbegin, happended₁⟩ :=
    append_ready hready fun lsn => beginRecord lsn db.currentTxId
  obtain ⟨wal₂, db₂, himages, happended₂⟩ :=
    appendImages_ready happended₁.ready db.currentTxId db.file.txPages
  obtain ⟨wal₃, db₃, hcommit, happended₃⟩ :=
    append_ready happended₂.ready fun lsn => commitRecord lsn db.currentTxId
  have hlsn₁ : wal₁.nextLsn = db.store.root.nextLsn + 1 := by
    rw [happended₁.nextLsn_eq, hlsn]
    rfl
  have hlsn₂ : wal₂.nextLsn = db.store.root.nextLsn + db.file.txPages.length + 1 := by
    rw [happended₂.nextLsn_eq, hlsn₁, length_imageRecords]
    omega
  have hlsn₃ : wal₃.nextLsn = db.store.root.nextLsn + db.file.txPages.length + 2 := by
    rw [happended₃.nextLsn_eq, hlsn₂]
    rfl
  rw [hlsn] at happended₁
  rw [hlsn₁, hlsn] at happended₂
  rw [hlsn₂, hlsn₁, hlsn, List.append_assoc records] at happended₃
  have happended := (happended₁.trans happended₂).trans happended₃
  have hsync : syncWal db₃ = .ok () (db₃.record (.wal .sync)) :=
    onDevice_eq happended.ready.walFault_eq _ _
  have hrecord : OnlyWal db₃ (db₃.record (.wal .sync)) := rfl
  refine ⟨wal₃, db₃.record (.wal .sync), header, ?_,
    (honly.trans happended.onlyWal).trans hrecord,
    ⟨happended.ready.wal_eq, happended.ready.openWal_eq, happended.ready.writeOffset_eq,
      happended.ready.walFault_eq⟩, ?_, hheader⟩
  · have hid : db₀.currentTxId = db.currentTxId := honly.currentTxId
    have hpages : db₀.file.txPages = db.file.txPages := honly.txPages
    unfold logTransaction
    rw [bind_of_ok hdurable]
    simp only [get_bind_run, hid, hpages]
    rw [bind_of_ok hbegin, bind_of_ok himages, bind_of_ok hcommit, bind_of_ok hsync, hlsn₂, hlsn₃]
    rfl
  · rw [history_record, happended.history_eq, hhistory]
    rfl

theorem commitTransaction_cases (db : Database δ κ) :
    (∃ error, commitTransaction db = .error error db) ∨
      db.file.inTransaction = true ∧ db.store.root.epoch ≠ maxU64 := by
  by_cases htx : db.file.inTransaction = true
  · by_cases hepoch : db.store.root.epoch = maxU64
    · refine .inl ⟨⟨.valueTooLarge, "database epoch is exhausted"⟩, ?_⟩
      unfold commitTransaction advanceEpoch
      simp [htx, hepoch]
    · exact .inr ⟨htx, hepoch⟩
  · refine .inl ⟨⟨.transactionRequired, "no active transaction to commit"⟩, ?_⟩
    unfold commitTransaction
    simp [htx]

theorem commitTransaction_eq {db : Database δ κ} {records : List (LogRecord (PageContent δ))}
    (hvalid : db.Valid) (htx : db.file.inTransaction = true)
    (hepoch : db.store.root.epoch ≠ maxU64) (hlog : db.Loggable records) :
    ∃ wal logged header,
      commitTransaction db =
          .ok () (finished db.committingLsn (db.committingLsn + 1) logged) ∧
        OnlyWal (db.putRoot db.committingRoot) logged ∧
        logged.Ready wal (records ++ db.committingRecords) ∧
        logged.history =
          db.history ++ header ++ walAppends (WalFile.recordsEnd records) db.committingRecords ++
            [.wal .sync] ∧
        (header = [] ∨ header = [.wal .header] ∧ records = []) := by
  have hvalid₀ : (db.putRoot db.committingRoot).Valid := hvalid.putRoot hvalid.nextLsn_pos
  obtain ⟨wal, logged, header, hlogged, honly, hready, hhistory, hheader⟩ :=
    logTransaction_eq hvalid₀ (hlog.putRoot _)
  rw [txPages_putRoot htx] at hlogged hready hhistory
  rw [history_putRoot_of_inTransaction htx] at hhistory
  refine ⟨wal, logged, header, ?_, honly, hready, hhistory, hheader⟩
  have hfinish := finishCommit_eq (honly.valid hvalid₀) db.committingLsn
    (Nat.succ_pos db.committingLsn)
  unfold commitTransaction
  simp only [get_bind_run, htx, not_true_eq_false, if_false]
  rw [bind_of_ok (advanceEpoch_eq hvalid hepoch), bind_of_ok hlogged]
  exact hfinish

end Log

end MoDb.Object.Database
