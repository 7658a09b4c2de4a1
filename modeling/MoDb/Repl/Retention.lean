import MoDb.Object.Lifecycle
import MoDb.Object.Staging

/-!
# Log retention on the primary

A replica that has applied everything up to some LSN is served the rest from the primary's log file,
as long as the primary still advertises it: `oldest_available_lsn`, which follows the checkpoint and
the replica's acknowledgements. A checkpoint never shortens the log, and opening a database cuts only
what a dead transaction left. A rollback removes the file, and the advertised LSN does not move with
it: the log keeps what it must exactly as long as no rollback comes after a commit. Every abandoned
transaction, every collection that finds nothing and every bootstrap barrier is such a rollback.
-/

namespace MoDb.Repl

open Storage Tx Object Effect Object.Database

/-! ### Serving a replica -/

/-- `WalFrame`, with its records not packed. -/
structure WalFrame (P : Type) where
  firstLsn : Nat
  lastLsn : Nat
  records : List (LogRecord P)

def packed {P : Type} (record : LogRecord P) : LogRecord P := { record with endOffset := 0 }

/-- `build_wal_frame`. -/
def buildWalFrame [PageSize] {P : Type} (wal : Option (WalFile P)) (fromLsn oldest : Nat) :
    Except Error (WalFrame P) :=
  if fromLsn < oldest then .error ⟨.replicationGap, "from_lsn below retention"⟩
  else
    match WalFile.readForReplication wal fromLsn with
    | .error error => .error error
    | .ok [] => .ok ⟨fromLsn, fromLsn, []⟩
    | .ok (first :: rest) =>
      .ok ⟨first.lsn, (rest.getLast?.getD first).lsn, (first :: rest).map packed⟩

/-! ### Runs of a primary -/

variable {δ κ : Type}

/-- A primary, and the records of the transactions it has committed since it was created. -/
structure Primary (δ κ : Type) where
  db : Database δ κ
  committed : List (LogRecord (PageContent δ))

inductive Event
  | begin
  | write
  | commit
  | rollback
  | checkpoint
  | retention
  | reopen
  deriving DecidableEq

def appendedRecord? {P : Type} : Io P → Option (LogRecord P)
  | .wal (.append _ record) => some record
  | _ => none

/-- The records that `db'` has appended to its log after `db`. -/
def newRecords (db db' : Database δ κ) : List (LogRecord (PageContent δ)) :=
  (db'.history.drop db.history.length).filterMap appendedRecord?

section Runs

variable [PageSize] [StoreParts δ κ]

/-- One operation. An operation that fails keeps what it did. A collection is `begin`, writes, and a
commit or, when it finds nothing, a rollback; a bootstrap barrier is a checkpoint, `begin` and a
rollback. The buffer of a transaction is a hash table, so its order is arbitrary. -/
inductive Step : Event → Primary δ κ → Primary δ κ → Prop
  | begin (s : Primary δ κ) : Step .begin s ⟨after (begin s.db), s.committed⟩
  | write (s : Primary δ κ) (op : StoreOp δ κ) (htx : s.db.file.inTransaction = true)
      (hop : op.Avoids s.db.store.rootPage) : Step .write s ⟨after (op.run s.db), s.committed⟩
  | reorder (s : Primary δ κ) (pages : List (Nat × PageContent δ))
      (hperm : pages.Perm s.db.file.txPages) :
      Step .write s ⟨{ s.db with file.txPages := pages }, s.committed⟩
  | commit (s : Primary δ κ) (db : Database δ κ) (hcommit : commitTransaction s.db = .ok () db) :
      Step .commit s ⟨db, s.committed ++ newRecords s.db db⟩
  | commitFailed (s : Primary δ κ) (error : Error) (db : Database δ κ)
      (hcommit : commitTransaction s.db = .error error db) : Step .commit s ⟨db, s.committed⟩
  | rollback (s : Primary δ κ) (htx : s.db.file.inTransaction = true) :
      Step .rollback s ⟨after (rollbackTransaction s.db), s.committed⟩
  | checkpoint (s : Primary δ κ) : Step .checkpoint s ⟨after (checkpoint s.db), s.committed⟩
  | retention (s : Primary δ κ) (lsn : Nat) :
      Step .retention s ⟨after (setFollowerAckLsn lsn s.db), s.committed⟩
  | reopen (s : Primary δ κ) (interval : Nat) (db : Database δ κ)
      (hmode : s.db.primaryStorage = .full)
      (hopen : Database.open s.db.close interval = .ok db) : Step .reopen s ⟨db, s.committed⟩
  | reopenWalOnly (s : Primary δ κ) (control : InstanceControl) (uuid : Nat) (db : Database δ κ)
      (hmode : s.db.primaryStorage = .walOnly) (hcontrol : s.db.close.control = some control)
      (hopen : openWalOnly s.db.close.wal control uuid = .ok db) :
      Step .reopen s ⟨db, s.committed⟩

/-- The primaries reached from a new database by operations that `allowed` lets through. -/
inductive Reached (allowed : Event → Primary δ κ → Prop) : Primary δ κ → Prop
  | create (mode : PrimaryStorage) (interval uuid : Nat) (db : Database δ κ)
      (hcreate : Database.create mode interval uuid = .ok db) : Reached allowed ⟨db, []⟩
  | step {s s' : Primary δ κ} (event : Event) (hreached : Reached allowed s)
      (hallowed : allowed event s) (hstep : Step event s s') : Reached allowed s'

/-- **Retention.** The committed records from the advertised LSN on are in the log file, in order and
complete, and a replica that has applied everything before any such LSN is served the rest. -/
structure Retains (s : Primary δ κ) : Prop where
  present : ∃ records,
    WalFile.readForReplication s.db.wal s.db.store.root.oldestAvailableLsn = .ok records ∧
      records.map packed =
        (s.committed.filter fun record =>
          s.db.store.root.oldestAvailableLsn ≤ record.lsn).map packed
  served : ∀ applied, s.db.store.root.oldestAvailableLsn ≤ applied + 1 →
    ∃ frame, buildWalFrame s.db.wal (applied + 1) s.db.store.root.oldestAvailableLsn = .ok frame ∧
      frame.records = (s.committed.filter fun record => applied < record.lsn).map packed

/-! ### Operations that leave the log alone -/

/-- `db'` is `db` after effects that are not on the log. -/
structure LogUntouched (db db' : Database δ κ) : Prop where
  wal_eq : db'.wal = db.wal
  openWal_eq : db'.openWal = db.openWal
  walFault_eq : db'.walFault = db.walFault
  history_eq : ∃ ios, db'.history = db.history ++ ios ∧ ios.filterMap appendedRecord? = []

namespace LogUntouched

omit [PageSize] [StoreParts δ κ]

theorem refl (db : Database δ κ) : LogUntouched db db :=
  ⟨rfl, rfl, rfl, [], (List.append_nil _).symm, rfl⟩

theorem trans {first second third : Database δ κ} (h : LogUntouched first second)
    (h' : LogUntouched second third) : LogUntouched first third := by
  obtain ⟨ios, hios, hnone⟩ := h.history_eq
  obtain ⟨ios', hios', hnone'⟩ := h'.history_eq
  refine ⟨h'.wal_eq.trans h.wal_eq, h'.openWal_eq.trans h.openWal_eq,
    h'.walFault_eq.trans h.walFault_eq, ios ++ ios', ?_, ?_⟩
  · rw [hios', hios, List.append_assoc]
  · rw [List.filterMap_append, hnone, hnone', List.append_nil]

theorem of_data {db db' : Database δ κ} (ios : List (DataIo (PageContent δ)))
    (hwal : db'.wal = db.wal) (hopen : db'.openWal = db.openWal)
    (hfault : db'.walFault = db.walFault) (htrace : db'.trace = db.trace)
    (hios : db'.file.trace = db.file.trace ++ ios) : LogUntouched db db' := by
  refine ⟨hwal, hopen, hfault, ios.map .data, ?_, ?_⟩
  · simp [history, htrace, hios]
  · simp [List.filterMap_map, Function.comp_def, appendedRecord?]

theorem putRoot (root : DatabaseRoot) (db : Database δ κ) :
    LogUntouched db (db.putRoot root) := by
  by_cases htx : db.file.inTransaction = true
  · refine of_data [] rfl rfl rfl rfl ?_
    simp [Database.putRoot, writeRootPage_of_inTransaction htx]
  · refine of_data [.writePage db.store.rootPage (.root root)] rfl rfl rfl rfl ?_
    simp [Database.putRoot, writeRootPage_of_not_inTransaction (by simpa using htx),
      PageFile.perform]

theorem flushed (db : Database δ κ) : LogUntouched db db.flushed :=
  of_data [.sync] rfl rfl rfl rfl rfl

theorem checkpointed (db : Database δ κ) : LogUntouched db db.checkpointed := by
  unfold Database.checkpointed
  split
  · exact refl db
  · have hput : LogUntouched db (db.flushed.withCheckpoint db.lastCommitLsn db.walOffset) :=
      (flushed db).trans (putRoot _ _)
    have h := hput.trans (flushed _)
    exact ⟨h.wal_eq, h.openWal_eq, h.walFault_eq, h.history_eq⟩

theorem applied (db : Database δ κ) : LogUntouched db db.applied :=
  of_data _ rfl rfl rfl rfl (PageFile.trace_applyTransaction db.file)

theorem controlPersisted (db : Database δ κ) : LogUntouched db db.controlPersisted :=
  ⟨rfl, rfl, rfl, [.control _], history_record db _, rfl⟩

theorem finished (commitLsn nextLsn : Nat) (db : Database δ κ) :
    LogUntouched db (db.finished commitLsn nextLsn) := by
  unfold Database.finished
  cases db.primaryStorage with
  | walOnly =>
    have h := (applied db).trans (flushed _)
    exact ((h.trans (putRoot _ _)).trans (putRoot _ _)).trans (controlPersisted _)
  | full =>
    have hput : LogUntouched db (db.applied.withNextLsn nextLsn) := (applied db).trans (putRoot _ _)
    have h : LogUntouched db ((db.applied.withNextLsn nextLsn).counted commitLsn) :=
      ⟨hput.wal_eq, hput.openWal_eq, hput.walFault_eq, hput.history_eq⟩
    dsimp only
    split
    · exact h.trans (checkpointed _)
    · exact h

end LogUntouched

/-! ### The log is the committed records -/

/-- The log file holds the committed records and nothing else, or there is none. -/
structure Intact (log : List (LogRecord (PageContent δ))) (db : Database δ κ) : Prop where
  valid : db.Valid
  wal_eq : db.wal = some (.log log 0) ∨ db.wal = none ∧ db.openWal = none ∧ log = []
  openWal_eq : ∀ wal, db.openWal = some wal → wal.writeOffset = WalFile.recordsEnd log
  walFault_eq : db.walFault = none
  ends : EndsWithCommit log

namespace Intact

variable {log : List (LogRecord (PageContent δ))} {db db' : Database δ κ}

omit [StoreParts δ κ]

theorem loggable (h : Intact log db) : db.Loggable log where
  wal_eq := h.wal_eq.imp_right fun hnone => ⟨by simp [hnone.1], hnone.2⟩
  openWal_eq := h.openWal_eq
  walFault_eq := h.walFault_eq

theorem of_same (h : Intact log db) (hvalid : db'.Valid) (hwal : db'.wal = db.wal)
    (hopen : db'.openWal = db.openWal) (hfault : db'.walFault = db.walFault) : Intact log db' where
  valid := hvalid
  wal_eq := by
    rw [hwal, hopen]
    exact h.wal_eq
  openWal_eq := by
    rw [hopen]
    exact h.openWal_eq
  walFault_eq := hfault.trans h.walFault_eq
  ends := h.ends

theorem of_untouched (h : Intact log db) (hvalid : db'.Valid) (hlog : LogUntouched db db') :
    Intact log db' :=
  h.of_same hvalid hlog.wal_eq hlog.openWal_eq hlog.walFault_eq

theorem begin (h : Intact log db) : Intact log (after (Database.begin db)) := by
  cases htx : db.file.inTransaction with
  | true =>
    rw [begin_eq_error htx]
    exact h
  | false =>
    rw [begin_eq htx]
    exact h.of_same h.valid.begun rfl rfl rfl

theorem write (h : Intact log db) (op : StoreOp δ κ) (htx : db.file.inTransaction = true) :
    Intact log (after (op.run db)) := by
  have hstaged := keeps_storeOp op db (Staged.refl htx)
  have hothers := hstaged.others
  exact h.of_same (hstaged.valid h.valid) (congrArg Database.wal hothers :)
    (congrArg Database.openWal hothers :) (congrArg Database.walFault hothers :)

omit [PageSize] in
theorem newRecords_eq {ios : List (Io (PageContent δ))} (h : db'.history = db.history ++ ios) :
    newRecords db db' = ios.filterMap appendedRecord? := by
  rw [newRecords, h, List.drop_left]

theorem filterMap_walAppends (offset : Nat) (records : List (LogRecord (PageContent δ))) :
    (walAppends offset records).filterMap appendedRecord? = records := by
  induction records generalizing offset with
  | nil => rfl
  | cons record records ih => simp [walAppends, appendedRecord?, ih]

theorem commit (h : Intact log db) (hcommit : commitTransaction db = .ok () db') :
    Intact (log ++ newRecords db db') db' := by
  rcases commitTransaction_cases db with ⟨error, hfailed⟩ | ⟨htx, hepoch⟩
  · rw [hfailed] at hcommit
    injection hcommit
  · obtain ⟨wal, logged, header, hok, honly, hready, hhistory, hheader⟩ :=
      commitTransaction_eq h.valid htx hepoch h.loggable
    rw [hok] at hcommit
    injection hcommit with _ hstate
    have hput : (db.putRoot db.committingRoot).Valid := h.valid.putRoot h.valid.nextLsn_pos
    have huntouched := LogUntouched.finished db.committingLsn (db.committingLsn + 1) logged
    rw [hstate] at huntouched
    obtain ⟨ios, hios, hnone⟩ := huntouched.history_eq
    have hnew : newRecords db db' = db.committingRecords := by
      rw [hhistory, List.append_assoc, List.append_assoc, List.append_assoc] at hios
      have hheader' : header.filterMap appendedRecord? = [] := by
        rcases hheader with rfl | ⟨rfl, -⟩ <;> rfl
      have hsync : [Io.wal WalIo.sync].filterMap appendedRecord? =
          ([] : List (LogRecord (PageContent δ))) := rfl
      rw [newRecords_eq hios, List.filterMap_append, List.filterMap_append, List.filterMap_append,
        hheader', hnone, hsync, filterMap_walAppends]
      simp
    rw [hnew]
    refine ⟨?_, .inl ?_, ?_, ?_, ?_⟩
    · rw [← hstate]
      exact (honly.valid hput).finished _ (Nat.succ_pos _)
    · exact huntouched.wal_eq.trans hready.wal_eq
    · intro wal' hopen
      rw [huntouched.openWal_eq, hready.openWal_eq] at hopen
      obtain rfl := Option.some.inj hopen
      exact hready.writeOffset_eq
    · exact huntouched.walFault_eq.trans hready.walFault_eq
    · apply EndsWithCommit.append
      · simp [committingRecords, txRecords]
      · exact .inr ⟨_, _, rfl, rfl⟩

theorem commitFailed (h : Intact log db) {error : Error}
    (hcommit : commitTransaction db = .error error db') : Intact log db' := by
  rcases commitTransaction_cases db with ⟨error', hfailed⟩ | ⟨htx, hepoch⟩
  · rw [hfailed] at hcommit
    injection hcommit with _ hstate
    exact hstate ▸ h
  · obtain ⟨wal, logged, header, hok, -⟩ := commitTransaction_eq h.valid htx hepoch h.loggable
    rw [hok] at hcommit
    injection hcommit

theorem rollback [StoreParts δ κ] (h : Intact log db) (hfirst : log = []) :
    Intact log (after (rollbackTransaction db)) := by
  cases hdurable : db.commitDurable with
  | true =>
    rw [rollbackTransaction_durable hdurable]
    exact h
  | false =>
    have hgone : ∀ db' : Database δ κ, db'.Valid → db'.wal = none → db'.openWal = none →
        db'.walFault = db.walFault → Intact log db' := by
      intro db' hvalid hwal hopen hfault
      refine ⟨hvalid, .inr ⟨hwal, hopen, hfirst⟩, ?_, hfault.trans h.walFault_eq, h.ends⟩
      intro wal hsome
      rw [hopen] at hsome
      injection hsome
    obtain ⟨hwal, hopen, hfault⟩ := log_abandoned db
    rw [rollbackTransaction_eq h.valid hdurable]
    split
    · exact hgone _ h.valid.abandoned hwal hopen hfault
    · next store hstore =>
      obtain ⟨hwal', hopen', hfault'⟩ := log_resynced db.abandoned db.store.root.nextObjectId store
      exact hgone _ ((valid_of_open _ hstore).resynced _) (hwal'.trans hwal) (hopen'.trans hopen)
        (hfault'.trans hfault)

theorem checkpoint (h : Intact log db) : Intact log (after (Database.checkpoint db)) := by
  unfold Database.checkpoint
  rw [get_bind_run, ite_run]
  split
  · split
    · exact h
    · have hadvance : (fun _ => advanceCheckpoint : Unit → Action δ κ Unit) () db = _ :=
        advanceCheckpoint_eq h.valid
      rw [hadvance]
      exact h.of_untouched h.valid.checkpointed (LogUntouched.checkpointed _)
  · exact h

theorem setRoot (h : Intact log db) {change : DatabaseRoot → DatabaseRoot}
    (hlsn : 0 < (change db.store.root).nextLsn) : Intact log (after (Database.setRoot change db)) := by
  rw [setRoot_eq h.valid]
  exact h.of_untouched (h.valid.putRoot hlsn) (LogUntouched.putRoot _ _)

theorem controlPersisted (h : Intact log db) : Intact log db.controlPersisted :=
  h.of_untouched ⟨h.valid.catalogRoot_eq, h.valid.rootPage_pos, h.valid.rootPage_lt,
    h.valid.nextLsn_pos⟩ (LogUntouched.controlPersisted _)

theorem retention (h : Intact log db) (lsn : Nat) :
    Intact log (after (setFollowerAckLsn lsn db)) := by
  refine after_bind (h.setRoot h.valid.nextLsn_pos) fun _ db h => ?_
  rw [get_bind_run, ite_run]
  split
  · exact h.controlPersisted
  · exact h

end Intact

/-! ### Sessions -/

section Sessions

variable {log : List (LogRecord (PageContent δ))}

omit [StoreParts δ κ] in
theorem keptByRepairs_intact : KeptByRepairs (Intact log : Database δ κ → Prop) where
  setRoot _ hchange _ h := h.setRoot (hchange.nextLsn_pos _ h.valid.nextLsn_pos)
  flush _ h := h.of_untouched h.valid.flushed (LogUntouched.flushed _)
  nextTxId _ _ h := h.of_same ⟨h.valid.catalogRoot_eq, h.valid.rootPage_pos, h.valid.rootPage_lt,
    h.valid.nextLsn_pos⟩ rfl rfl rfl

omit [StoreParts δ κ] in
theorem keeps_truncateWalAfterLastCommit {lastCommitEnd : Nat}
    (h : lastCommitEnd < walHeaderSize ∨ WalFile.recordsEnd log ≤ lastCommitEnd) :
    Keeps (Intact log) (truncateWalAfterLastCommit lastCommitEnd : Action δ κ Unit) := by
  intro db hintact
  unfold truncateWalAfterLastCommit
  rw [ite_run]
  split
  · next hheader =>
    have hend := h.resolve_left (Nat.not_lt.2 hheader)
    rw [get_bind_run]
    rcases hintact.wal_eq with hwal | ⟨hwal, -⟩
    · have hsize : ¬lastCommitEnd < (WalFile.log log 0).size := Nat.not_lt.2 hend
      rw [hwal]
      dsimp only
      rw [ite_run, if_neg hsize]
      exact hintact
    · rw [hwal]
      exact hintact
  · exact hintact

omit [StoreParts δ κ] in
theorem Intact.recordsEnd_le {db : Database δ κ} (h : Intact log db)
    {file file' : PageFile (PageContent δ)} {afterLsn startOffset : Nat} {recovered : RecoverResult}
    (hrecover : recover file (db.wal.map WalFile.view) afterLsn startOffset =
      (.ok recovered, file')) :
    recovered.lastCommitEnd < walHeaderSize ∨
      WalFile.recordsEnd log ≤ recovered.lastCommitEnd := by
  rcases h.wal_eq with hwal | ⟨hwal, -⟩
  · rw [hwal] at hrecover
    exact .inr (Nat.le_of_eq (recover_lastCommitEnd h.ends hrecover).symm)
  · rw [hwal] at hrecover
    injection hrecover with hresult
    injection hresult with hresult
    rw [← hresult]
    exact .inl (by decide)

omit [StoreParts δ κ] in
theorem Intact.close_wal {db : Database δ κ} (h : Intact log db) : db.close.wal = db.wal := by
  rw [close_eq h.valid]
  dsimp only
  split
  · exact (LogUntouched.checkpointed db).wal_eq
  · rfl

theorem Intact.open {db db' : Database δ κ} (h : Intact log db) {interval : Nat}
    (hopen : Database.open db.close interval = .ok db') : Intact log db' := by
  obtain ⟨file, recovered, file', store, -, hrecover, hstore, hresume⟩ := open_eq_ok hopen
  rw [h.close_wal] at hrecover hresume
  have hopened : Intact log (opened db.wal interval file' store) := by
    refine ⟨valid_of_open (opened db.wal interval file' store) hstore, ?_, fun wal hwal => by injection hwal, rfl, h.ends⟩
    exact h.wal_eq.imp_right fun hnone => ⟨hnone.1, rfl, hnone.2.2⟩
  have hkept := keptByRepairs_intact.resume
    (keeps_truncateWalAfterLastCommit (h.recordsEnd_le hrecover)) _ hopened
  rw [hresume] at hkept
  exact hkept

theorem Intact.openWalOnly {db db' : Database δ κ} (h : Intact log db) {control : InstanceControl}
    {uuid : Nat} (hopen : Database.openWalOnly db.close.wal control uuid = .ok db') :
    Intact log db' := by
  obtain ⟨recovered, file', store, hrecover, hstore, hresume⟩ := openWalOnly_eq_ok hopen
  rw [h.close_wal] at hrecover hresume
  let seeded := ((seed δ κ db.wal control uuid).identified control).recoveredInto file' store
  have hseeded : Intact log seeded := by
    refine ⟨valid_of_open seeded hstore, ?_, fun wal hwal => by injection hwal, rfl, h.ends⟩
    exact h.wal_eq.imp_right fun hnone => ⟨hnone.1, rfl, hnone.2.2⟩
  have hkept := keptByRepairs_intact.resumeWalOnly control
    (keeps_truncateWalAfterLastCommit (h.recordsEnd_le hrecover))
    (fun _ h => h.controlPersisted) seeded hseeded
  rw [hresume] at hkept
  exact hkept

theorem intact_create {mode : PrimaryStorage} {interval uuid : Nat} {db : Database δ κ}
    (h : Database.create mode interval uuid = .ok db) : Intact [] db := by
  have hcreated : Intact [] (created interval uuid : Database δ κ) :=
    ⟨valid_created interval uuid, .inr ⟨rfl, rfl, rfl⟩, fun wal hwal => by injection hwal, rfl,
      .inl rfl⟩
  rw [create_eq] at h
  injection h with h
  subst h
  cases mode with
  | full => exact hcreated
  | walOnly =>
    have hscratch : Intact []
        ({ (created interval uuid : Database δ κ) with primaryStorage := .walOnly }) :=
      hcreated.of_same ⟨rfl, Nat.zero_lt_one, hcreated.valid.rootPage_lt, Nat.zero_lt_one⟩ rfl rfl rfl
    exact hscratch.controlPersisted

end Sessions

/-! ### Runs -/

theorem Intact.step {event : Event} {s s' : Primary δ κ} (h : Intact s.committed s.db)
    (hstep : Step event s s') (hrollback : event = .rollback → s.committed = []) :
    Intact s'.committed s'.db := by
  cases hstep with
  | begin => exact h.begin
  | write _ op htx => exact h.write op htx
  | reorder _ pages =>
    refine h.of_same ?_ rfl rfl rfl
    exact ⟨h.valid.catalogRoot_eq, h.valid.rootPage_pos, h.valid.rootPage_lt, h.valid.nextLsn_pos⟩
  | commit _ db hcommit => exact h.commit hcommit
  | commitFailed _ error db hcommit => exact h.commitFailed hcommit
  | rollback => exact h.rollback (hrollback rfl)
  | checkpoint => exact h.checkpoint
  | retention _ lsn => exact h.retention lsn
  | reopen _ interval db hmode hopen => exact h.open hopen
  | reopenWalOnly _ control uuid db hmode hcontrol hopen => exact h.openWalOnly hopen

theorem Reached.intact {s : Primary δ κ}
    (h : Reached (fun event s => event = .rollback → s.committed = []) s) :
    Intact s.committed s.db := by
  induction h with
  | create mode interval uuid db hcreate => exact intact_create hcreate
  | step event _ hallowed hstep ih => exact ih.step hstep hallowed

omit [StoreParts δ κ] in
theorem map_packed_stamp (offset : Nat) (records : List (LogRecord (PageContent δ))) :
    (stamp offset records).map packed = records.map packed := by
  induction records generalizing offset with
  | nil => rfl
  | cons record records ih => simp [stamp, packed, ih]

omit [StoreParts δ κ] in
theorem Intact.readForReplication {log : List (LogRecord (PageContent δ))} {db : Database δ κ}
    (h : Intact log db) (fromLsn : Nat) :
    ∃ records, WalFile.readForReplication db.wal fromLsn = .ok records ∧
      records.map packed = (log.filter fun record => fromLsn ≤ record.lsn).map packed := by
  rcases h.wal_eq with hwal | ⟨hwal, -, rfl⟩
  · refine ⟨_, by rw [hwal]; rfl, ?_⟩
    have hpacked : ∀ records : List (LogRecord (PageContent δ)),
        (records.filter fun record => decide (fromLsn ≤ record.lsn)).map packed =
          (records.map packed).filter fun record => decide (fromLsn ≤ record.lsn) := by
      intro records
      rw [List.filter_map]
      rfl
    rw [hpacked, map_packed_stamp, ← hpacked]
  · exact ⟨[], by rw [hwal]; rfl, rfl⟩

omit [StoreParts δ κ] in
theorem buildWalFrame_records {P : Type} {wal : Option (WalFile P)} {fromLsn oldest : Nat}
    {records : List (LogRecord P)} (hoffered : oldest ≤ fromLsn)
    (hread : WalFile.readForReplication wal fromLsn = .ok records) :
    ∃ frame, buildWalFrame wal fromLsn oldest = .ok frame ∧ frame.records = records.map packed := by
  unfold buildWalFrame
  rw [if_neg (Nat.not_lt.2 hoffered), hread]
  cases records with
  | nil => exact ⟨_, rfl, rfl⟩
  | cons first rest => exact ⟨_, rfl, rfl⟩

omit [StoreParts δ κ] in
theorem Intact.retains {s : Primary δ κ} (h : Intact s.committed s.db) : Retains s where
  present := h.readForReplication _
  served := by
    intro applied hoffered
    obtain ⟨records, hread, hrecords⟩ := h.readForReplication (applied + 1)
    obtain ⟨frame, hframe, hpacked⟩ := buildWalFrame_records hoffered hread
    exact ⟨frame, hframe, hpacked.trans hrecords⟩

/-- **The log keeps what it must**, in every run without a rollback after the first commit. -/
theorem retains_of_reached {s : Primary δ κ}
    (h : Reached (fun event s => event = .rollback → s.committed = []) s) : Retains s :=
  h.intact.retains

omit [PageSize] in
theorem after_bootstrapBarrier {db db' : Database δ κ}
    (hcheckpoint : Database.checkpoint db = .ok () db') (htx : db'.file.inTransaction = false) :
    after (bootstrapBarrier db) = after (rollbackTransaction db'.begun) := by
  unfold bootstrapBarrier
  rw [bind_of_ok hcheckpoint, bind_of_ok (begin_eq htx)]

theorem after_collectGarbage_nothing {db db' : Database δ κ} {collect : Action δ κ Nat}
    (htx : db.file.inTransaction = false) (hcollect : collect db.begun = .ok 0 db') :
    after (collectGarbage collect db) = after (rollbackTransaction db') := by
  have hnothing : orRollback collect db.begun = .ok 0 db' := by
    unfold orRollback
    rw [hcollect]
  unfold collectGarbage
  rw [bind_of_ok (begin_eq htx), bind_of_ok hnothing]
  exact after_bind_pure rollbackTransaction 0 db'

end Runs

/-! ### A run that loses its log -/

section DefaultBuild

attribute [local instance] PageSize.default

attribute [local instance] StoreParts.empty

def committedOnce : Primary Unit Unit :=
  let db : Database Unit Unit := after (begin (created 1 7))
  ⟨after (commitTransaction db), newRecords db (after (commitTransaction db))⟩

theorem reached_committedOnce {allowed : Event → Primary Unit Unit → Prop}
    (hbegin : allowed .begin ⟨created 1 7, []⟩)
    (hcommit : allowed .commit ⟨after (begin (created 1 7)), []⟩) :
    Reached allowed committedOnce := by
  have hcreated : Reached allowed ⟨created 1 7, []⟩ := .create .full 1 7 _ (create_eq .full 1 7)
  have hbegun := Reached.step .begin hcreated hbegin (Step.begin _)
  exact Reached.step .commit hbegun hcommit (Step.commit _ _ rfl)

/-- One commit, and its records are served. -/
theorem retains_committedOnce : committedOnce.committed.length = 3 ∧ Retains committedOnce := by
  refine ⟨by decide, retains_of_reached (reached_committedOnce ?_ ?_)⟩
  · intro hevent
    injection hevent
  · intro hevent
    injection hevent

/-- The same primary after a rollback: LSN 3 is still advertised, and the log is gone. -/
theorem rollback_after_commit_not_retained :
    ¬∀ s : Primary Unit Unit, Reached (fun _ _ => True) s → Retains s := by
  intro hretains
  have hcommitted : Reached (fun _ _ => True) committedOnce := reached_committedOnce trivial trivial
  have hbegun := Reached.step .begin hcommitted trivial (Step.begin _)
  have hrolledBack := Reached.step .rollback hbegun trivial (Step.rollback _ rfl)
  obtain ⟨records, hread, hrecords⟩ := (hretains _ hrolledBack).present
  have hgone : records = [] := (Except.ok.inj (show Except.ok [] = _ from hread)).symm
  rw [hgone] at hrecords
  have hmissing := congrArg List.length hrecords
  revert hmissing
  decide

end DefaultBuild

end MoDb.Repl
