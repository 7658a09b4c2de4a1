import MoDb.Tx.Recovery

/-!
# The log of committed transactions

What a primary leaves in its log: for each committed transaction a begin record, its page images and
its commit record, with consecutive LSNs. The superblock is never among the images, since the page
file refuses to write it.
-/

namespace MoDb.Tx

open Storage

variable {P : Type}

structure Transaction (P : Type) where
  id : Nat
  images : List (Nat × P)
  images_pos : ∀ image ∈ images, image.1 ≠ 0

abbrev LogRecord (P : Type) := WalRecord (LogPayload P)

namespace Transaction

def length (tx : Transaction P) : Nat := tx.images.length + 2

/-- LSN of the commit record when the begin record has LSN `lsn`. -/
def commitLsn (tx : Transaction P) (lsn : Nat) : Nat := lsn + tx.images.length + 1

end Transaction

def beginRecord (lsn txId : Nat) : LogRecord P :=
  { lsn := lsn, txId := txId, type := .begin, pageId := 0, payload := .empty }

def imageRecord (lsn txId : Nat) (image : Nat × P) : LogRecord P :=
  { lsn := lsn, txId := txId, type := .pageImage, pageId := image.1, payload := .page image.2 }

def commitRecord (lsn txId : Nat) : LogRecord P :=
  { lsn := lsn, txId := txId, type := .commit, pageId := 0, payload := .commitLsn lsn }

@[simp]
theorem type_commitRecord (lsn txId : Nat) : (commitRecord lsn txId : LogRecord P).type = .commit :=
  rfl

@[simp]
theorem lsn_commitRecord (lsn txId : Nat) : (commitRecord lsn txId : LogRecord P).lsn = lsn := rfl

def imageRecords (txId : Nat) : Nat → List (Nat × P) → List (LogRecord P)
  | _, [] => []
  | lsn, image :: images => imageRecord lsn txId image :: imageRecords txId (lsn + 1) images

/-- The records `commit_transaction` appends from LSN `lsn` on. -/
def Transaction.records (tx : Transaction P) (lsn : Nat) : List (LogRecord P) :=
  beginRecord lsn tx.id :: imageRecords tx.id (lsn + 1) tx.images ++
    [commitRecord (tx.commitLsn lsn) tx.id]

def logRecords : Nat → List (Transaction P) → List (LogRecord P)
  | _, [] => []
  | lsn, tx :: txs => tx.records lsn ++ logRecords (lsn + tx.length) txs

/-- The LSN after the records of `txs`. -/
def nextLsn (lsn : Nat) (txs : List (Transaction P)) : Nat :=
  lsn + (txs.map Transaction.length).sum

/-- The images of `txs`, in log order. -/
def allImages (txs : List (Transaction P)) : List (Nat × P) := txs.flatMap Transaction.images

@[simp]
theorem nextLsn_nil (lsn : Nat) : nextLsn lsn ([] : List (Transaction P)) = lsn := rfl

@[simp]
theorem nextLsn_cons (lsn : Nat) (tx : Transaction P) (txs : List (Transaction P)) :
    nextLsn lsn (tx :: txs) = nextLsn (lsn + tx.length) txs := by
  simp [nextLsn]
  omega

theorem nextLsn_append (lsn : Nat) (first second : List (Transaction P)) :
    nextLsn lsn (first ++ second) = nextLsn (nextLsn lsn first) second := by
  simp [nextLsn]
  omega

theorem le_nextLsn (lsn : Nat) (txs : List (Transaction P)) : lsn ≤ nextLsn lsn txs :=
  Nat.le_add_right _ _

@[simp]
theorem allImages_nil : allImages ([] : List (Transaction P)) = [] := rfl

@[simp]
theorem allImages_cons (tx : Transaction P) (txs : List (Transaction P)) :
    allImages (tx :: txs) = tx.images ++ allImages txs := rfl

theorem allImages_append (first second : List (Transaction P)) :
    allImages (first ++ second) = allImages first ++ allImages second :=
  List.flatMap_append

theorem logRecords_append (lsn : Nat) (first second : List (Transaction P)) :
    logRecords lsn (first ++ second) =
      logRecords lsn first ++ logRecords (nextLsn lsn first) second := by
  induction first generalizing lsn with
  | nil => rfl
  | cons tx first ih => simp [logRecords, ih]

/-! ### LSNs -/

/-- The records of `batch` have consecutive LSNs from `lsn` on. -/
def Consecutive (lsn : Nat) (batch : List (LogRecord P)) : Prop :=
  batch.map WalRecord.lsn = List.range' lsn batch.length

theorem consecutive_nil (lsn : Nat) : Consecutive lsn ([] : List (LogRecord P)) := rfl

theorem consecutive_cons {lsn : Nat} {record : LogRecord P} {batch : List (LogRecord P)} :
    Consecutive lsn (record :: batch) ↔ record.lsn = lsn ∧ Consecutive (lsn + 1) batch := by
  simp [Consecutive, List.range'_succ]

theorem consecutive_append {lsn : Nat} {first second : List (LogRecord P)} :
    Consecutive lsn (first ++ second) ↔
      Consecutive lsn first ∧ Consecutive (lsn + first.length) second := by
  induction first generalizing lsn with
  | nil => simp [consecutive_nil]
  | cons record first ih =>
    rw [List.cons_append, consecutive_cons, consecutive_cons, ih, List.length_cons, and_assoc]
    rw [show lsn + 1 + first.length = lsn + (first.length + 1) by omega]

theorem length_imageRecords (txId lsn : Nat) (images : List (Nat × P)) :
    (imageRecords txId lsn images).length = images.length := by
  induction images generalizing lsn with
  | nil => rfl
  | cons image images ih => simp [imageRecords, ih]

theorem consecutive_imageRecords (txId lsn : Nat) (images : List (Nat × P)) :
    Consecutive lsn (imageRecords txId lsn images) := by
  induction images generalizing lsn with
  | nil => rfl
  | cons image images ih => exact consecutive_cons.2 ⟨rfl, ih (lsn + 1)⟩

@[simp]
theorem Transaction.length_records (tx : Transaction P) (lsn : Nat) :
    (tx.records lsn).length = tx.length := by
  simp [Transaction.records, length_imageRecords, Transaction.length]

theorem Transaction.consecutive_records (tx : Transaction P) (lsn : Nat) :
    Consecutive lsn (tx.records lsn) := by
  rw [Transaction.records, List.cons_append, consecutive_cons, consecutive_append,
    length_imageRecords]
  refine ⟨rfl, consecutive_imageRecords _ _ _, consecutive_cons.2 ⟨?_, consecutive_nil _⟩⟩
  simp only [commitRecord, Transaction.commitLsn]
  omega

theorem length_logRecords (lsn : Nat) (txs : List (Transaction P)) :
    lsn + (logRecords lsn txs).length = nextLsn lsn txs := by
  induction txs generalizing lsn with
  | nil => rfl
  | cons tx txs ih =>
    rw [logRecords, List.length_append, Transaction.length_records, nextLsn_cons, ← ih,
      Nat.add_assoc]

theorem consecutive_logRecords (lsn : Nat) (txs : List (Transaction P)) :
    Consecutive lsn (logRecords lsn txs) := by
  induction txs generalizing lsn with
  | nil => rfl
  | cons tx txs ih =>
    rw [logRecords, consecutive_append, Transaction.length_records]
    exact ⟨tx.consecutive_records lsn, ih _⟩

theorem Consecutive.lsn_bounds {lsn : Nat} {batch : List (LogRecord P)} (h : Consecutive lsn batch)
    {record : LogRecord P} (hmem : record ∈ batch) :
    lsn ≤ record.lsn ∧ record.lsn < lsn + batch.length := by
  have hlsn : record.lsn ∈ List.range' lsn batch.length := h ▸ List.mem_map_of_mem hmem
  simpa using hlsn

theorem txId_of_mem_records {tx : Transaction P} {lsn : Nat} {record : LogRecord P}
    (h : record ∈ tx.records lsn) : record.txId = tx.id := by
  have himages : ∀ (images : List (Nat × P)) (lsn : Nat),
      ∀ record ∈ imageRecords tx.id lsn images, record.txId = tx.id := by
    intro images
    induction images with
    | nil => intro lsn record hmem; simp [imageRecords] at hmem
    | cons image images ih =>
      intro lsn record hmem
      rcases List.mem_cons.1 hmem with rfl | hmem
      · rfl
      · exact ih _ record hmem
  simp only [Transaction.records, List.cons_append, List.mem_cons, List.mem_append,
    List.not_mem_nil, or_false] at h
  rcases h with rfl | hmem | rfl
  · rfl
  · exact himages _ _ record hmem
  · rfl

theorem txId_of_mem_logRecords {txs : List (Transaction P)} {lsn : Nat} {record : LogRecord P}
    (h : record ∈ logRecords lsn txs) : record.txId ∈ txs.map Transaction.id := by
  induction txs generalizing lsn with
  | nil => simp [logRecords] at h
  | cons tx txs ih =>
    rcases List.mem_append.1 h with hmem | hmem
    · simp [txId_of_mem_records hmem]
    · exact List.mem_cons_of_mem _ (ih hmem)

/-! ### Commits -/

theorem type_of_mem_imageRecords {txId lsn : Nat} {images : List (Nat × P)}
    {record : LogRecord P} (h : record ∈ imageRecords txId lsn images) :
    record.type = .pageImage := by
  induction images generalizing lsn with
  | nil => simp [imageRecords] at h
  | cons image images ih =>
    rcases List.mem_cons.1 h with rfl | hmem
    · rfl
    · exact ih hmem

theorem eq_commitRecord_of_mem_records {tx : Transaction P} {lsn : Nat} {record : LogRecord P}
    (h : record ∈ tx.records lsn) (hcommit : record.type = .commit) :
    record = commitRecord (tx.commitLsn lsn) tx.id := by
  simp only [Transaction.records, List.cons_append, List.mem_cons, List.mem_append,
    List.not_mem_nil, or_false] at h
  rcases h with rfl | hmem | rfl
  · simp [beginRecord] at hcommit
  · simp [type_of_mem_imageRecords hmem] at hcommit
  · rfl

section Commits

variable [PageSize]

@[simp]
theorem commitLsn_commitRecord (lsn txId : Nat) :
    (commitRecord lsn txId : LogRecord P).commitLsn = lsn := rfl

theorem commitLsn_of_mem_logRecords {txs : List (Transaction P)} {lsn : Nat}
    {record : LogRecord P} (h : record ∈ logRecords lsn txs) (hcommit : record.type = .commit) :
    record.commitLsn = record.lsn := by
  induction txs generalizing lsn with
  | nil => simp [logRecords] at h
  | cons tx txs ih =>
    rcases List.mem_append.1 h with hmem | hmem
    · rw [eq_commitRecord_of_mem_records hmem hcommit]
      rfl
    · exact ih hmem

theorem committed_records (tx : Transaction P) (lsn txId : Nat) :
    committed (tx.records lsn) txId = if txId = tx.id then some (tx.commitLsn lsn) else none := by
  have hbody : committed (beginRecord lsn tx.id :: imageRecords tx.id (lsn + 1) tx.images) txId =
      none := by
    refine committed_eq_none fun record hmem hcommit => ?_
    rcases List.mem_cons.1 hmem with rfl | hmem
    · simp [beginRecord] at hcommit
    · simp [type_of_mem_imageRecords hmem] at hcommit
  rw [Transaction.records, committed_append, hbody, Option.or_none]
  simp [committed, commitRecord, Function.update_apply, WalRecord.commitLsn, WalPayload.commitLsn?]

/-- `map` gives each of the transactions logged from `lsn` on its own commit LSN. -/
def MapsCommits (map : Nat → Option Nat) : Nat → List (Transaction P) → Prop
  | _, [] => True
  | lsn, tx :: txs => map tx.id = some (tx.commitLsn lsn) ∧ MapsCommits map (lsn + tx.length) txs

theorem committed_eq_none_of_not_mem {txs : List (Transaction P)} {lsn txId : Nat}
    (h : txId ∉ txs.map Transaction.id) : committed (logRecords lsn txs) txId = none :=
  committed_eq_none fun _ hmem _ htx => h (htx ▸ txId_of_mem_logRecords hmem)

theorem mapsCommits_committed {txs : List (Transaction P)} (hids : (txs.map Transaction.id).Nodup)
    (before : List (LogRecord P)) (lsn : Nat) {after : List (LogRecord P)}
    (hafter : ∀ record ∈ after, record.type ≠ .commit) :
    MapsCommits (committed (before ++ (logRecords lsn txs ++ after))) lsn txs := by
  induction txs generalizing before lsn with
  | nil => trivial
  | cons tx txs ih =>
    rw [List.map_cons, List.nodup_cons] at hids
    have hregroup : before ++ (logRecords lsn (tx :: txs) ++ after) =
        (before ++ tx.records lsn) ++ (logRecords (lsn + tx.length) txs ++ after) := by
      simp [logRecords]
    rw [hregroup]
    refine ⟨?_, ih hids.2 _ _⟩
    have hrest : committed after tx.id = none :=
      committed_eq_none fun record hmem hcommit => absurd hcommit (hafter record hmem)
    rw [committed_append, committed_append, committed_append, hrest, Option.none_or,
      committed_eq_none_of_not_mem hids.1, Option.none_or, committed_records, if_pos rfl]
    rfl

end Commits

/-! ### Runs of records -/

theorem prefix_logRecords {lsn : Nat} {txs : List (Transaction P)} {batch : List (LogRecord P)}
    (h : batch <+: logRecords lsn txs) :
    ∃ whole later part, txs = whole ++ later ∧ batch = logRecords lsn whole ++ part ∧
      ∀ record ∈ part, record.type ≠ .commit ∧ record.txId ∈ later.map Transaction.id := by
  induction txs generalizing lsn batch with
  | nil =>
    obtain rfl : batch = [] := List.prefix_nil.1 h
    exact ⟨[], [], [], rfl, rfl, by simp⟩
  | cons tx txs ih =>
    obtain ⟨post, hsplit⟩ := h
    rw [logRecords] at hsplit
    rcases List.append_eq_append_iff.1 hsplit with ⟨missing, hrecords, -⟩ | ⟨more, hbatch, hrest⟩
    · rcases List.eq_nil_or_concat missing with rfl | ⟨missing, last, rfl⟩
      · refine ⟨[tx], txs, [], rfl, ?_, by simp⟩
        simp [logRecords, hrecords]
      · -- the batch stops inside the first transaction, before its commit record
        refine ⟨[], tx :: txs, batch, rfl, rfl, fun record hmem => ?_⟩
        have hmem_records : record ∈ tx.records lsn := by simp [hrecords, hmem]
        refine ⟨fun hcommit => ?_, by simp [txId_of_mem_records hmem_records]⟩
        have hbody : beginRecord lsn tx.id :: imageRecords tx.id (lsn + 1) tx.images =
            batch ++ missing := by
          rw [Transaction.records, List.concat_eq_append, ← List.append_assoc] at hrecords
          exact (List.append_inj' hrecords rfl).1
        have hmem_body : record ∈ beginRecord lsn tx.id ::
            imageRecords tx.id (lsn + 1) tx.images := by simp [hbody, hmem]
        rcases List.mem_cons.1 hmem_body with rfl | hmem_images
        · simp [beginRecord] at hcommit
        · simp [type_of_mem_imageRecords hmem_images] at hcommit
    · obtain ⟨whole, later, part, rfl, rfl, hpart⟩ := ih ⟨post, hrest.symm⟩
      exact ⟨tx :: whole, later, part, rfl, by rw [hbatch, logRecords, List.append_assoc], hpart⟩

theorem infix_logRecords {lsn start : Nat} {first second : List (Transaction P)}
    {batch : List (LogRecord P)} (h : batch <:+: logRecords lsn (first ++ second))
    (hbatch : batch ≠ []) (hstart : Consecutive start batch) (hle : start ≤ nextLsn lsn first) :
    ∃ old new, batch = old ++ new ∧ (∀ record ∈ old, record ∈ logRecords lsn first) ∧
      new <+: logRecords (nextLsn lsn first) second := by
  obtain ⟨pre, post, hsplit⟩ := h
  have hwhole := consecutive_logRecords lsn (first ++ second)
  rw [← hsplit, consecutive_append, consecutive_append] at hwhole
  have hstart_eq : start = lsn + pre.length := by
    cases batch with
    | nil => exact absurd rfl hbatch
    | cons record batch =>
      exact (consecutive_cons.1 hstart).1.symm.trans (consecutive_cons.1 hwhole.1.2).1
  have hlength := length_logRecords lsn first
  rw [logRecords_append, List.append_assoc] at hsplit
  rcases List.append_eq_append_iff.1 hsplit with ⟨old, hfirst, hrest⟩ | ⟨extra, hpre, hsecond⟩
  · rcases List.append_eq_append_iff.1 hrest with ⟨left, hold, -⟩ | ⟨new, hnew, hsecond⟩
    · refine ⟨batch, [], by simp, fun record hmem => ?_, List.nil_prefix⟩
      simp [hfirst, hold, hmem]
    · refine ⟨old, new, hnew, fun record hmem => ?_, ⟨post, hsecond.symm⟩⟩
      simp [hfirst, hmem]
  · have hextra : extra = [] := by
      have hsize := congrArg List.length hpre
      rw [List.length_append] at hsize
      exact List.length_eq_zero_iff.1 (by omega)
    refine ⟨[], batch, rfl, by simp, ⟨post, ?_⟩⟩
    rw [hsecond, hextra, List.nil_append]

end MoDb.Tx
