import MoDb.Repl.Apply
import Mathlib.Data.List.Nodup

/-!
# Batches and re-delivery

However the log of a primary is cut into batches, and whatever is delivered again, a replica ends
where one application of a prefix of the log would have left it: the prefix up to the last commit it
reached. A batch that begins past the next LSN is refused, which is what becomes of the second half
of a transaction cut in the middle. All this needs the transaction ids of the log to differ, since
the commits of a batch are looked up by id.
-/

namespace MoDb.Repl

open Storage Tx

variable {P : Type}

/-! ### The continuity check -/

theorem checkContinuity_of_le {start expected : Nat} {batch : List (LogRecord P)}
    (h : Consecutive start batch) (hle : start ≤ expected) :
    checkContinuity expected batch = .ok () := by
  induction batch generalizing start expected with
  | nil => rfl
  | cons record batch ih =>
    obtain ⟨hlsn, hbatch⟩ := consecutive_cons.1 h
    rw [checkContinuity]
    by_cases hlt : record.lsn < expected
    · rw [if_pos hlt]
      exact ih hbatch (by omega)
    · rw [if_neg hlt, if_neg (by omega)]
      exact ih hbatch (by omega)

theorem checkContinuity_of_lt {start expected : Nat} {batch : List (LogRecord P)}
    (h : Consecutive start batch) (hbatch : batch ≠ []) (hlt : expected < start) :
    ∃ message, checkContinuity expected batch = .error ⟨.replicationGap, message⟩ := by
  cases batch with
  | nil => exact absurd rfl hbatch
  | cons record batch =>
    obtain ⟨hlsn, -⟩ := consecutive_cons.1 h
    exact ⟨_, by rw [checkContinuity, if_neg (by omega), if_pos (by omega)]⟩

theorem expected_eq (appliedLsn : Nat) :
    (if appliedLsn = 0 then 1 else appliedLsn + 1) = appliedLsn + 1 := by
  split <;> omega

/-! ### The parts of a batch -/

theorem batch_cases {base start : Nat} {done rest : List (Transaction P)}
    {batch : List (LogRecord P)} (h : batch <:+: logRecords base (done ++ rest))
    (hbatch : batch ≠ []) (hstart : Consecutive start batch) (hle : start ≤ nextLsn base done) :
    ∃ old whole later part, rest = whole ++ later ∧
      batch = old ++ (logRecords (nextLsn base done) whole ++ part) ∧
      (∀ record ∈ old, record ∈ logRecords base done) ∧
      ∀ record ∈ part, record.type ≠ .commit ∧ record.txId ∈ later.map Transaction.id := by
  obtain ⟨old, new, rfl, hold, hnew⟩ := infix_logRecords h hbatch hstart hle
  obtain ⟨whole, later, part, rfl, rfl, hpart⟩ := prefix_logRecords hnew
  exact ⟨old, whole, later, part, rfl, rfl, hold, hpart⟩

/-- The commit LSN furthest reached by the commit records of `records`. -/
def lastCommit (appliedLsn : Nat) (records : List (LogRecord P)) : Nat :=
  (records.filter fun record => record.type = .commit).foldl
    (fun lsn record => max lsn record.lsn) appliedLsn

theorem lastCommit_append (appliedLsn : Nat) (first second : List (LogRecord P)) :
    lastCommit appliedLsn (first ++ second) = lastCommit (lastCommit appliedLsn first) second := by
  simp [lastCommit, List.foldl_append]

theorem lastCommit_cons (appliedLsn : Nat) (record : LogRecord P) (records : List (LogRecord P)) :
    lastCommit appliedLsn (record :: records) =
      lastCommit (if record.type = .commit then max appliedLsn record.lsn else appliedLsn)
        records := by
  unfold lastCommit
  by_cases hcommit : record.type = .commit <;> simp [hcommit]

theorem lastCommit_of_le {appliedLsn : Nat} {records : List (LogRecord P)}
    (h : ∀ record ∈ records, record.type = .commit → record.lsn ≤ appliedLsn) :
    lastCommit appliedLsn records = appliedLsn := by
  induction records with
  | nil => rfl
  | cons record records ih =>
    have hrest := ih fun record hmem => h record (List.mem_cons_of_mem _ hmem)
    rw [lastCommit_cons]
    by_cases hcommit : record.type = .commit
    · rw [if_pos hcommit, Nat.max_eq_left (h record List.mem_cons_self hcommit), hrest]
    · rw [if_neg hcommit, hrest]

theorem le_lastCommit (appliedLsn : Nat) (records : List (LogRecord P)) :
    appliedLsn ≤ lastCommit appliedLsn records := by
  induction records generalizing appliedLsn with
  | nil => exact Nat.le_refl _
  | cons record records ih =>
    rw [lastCommit_cons]
    refine Nat.le_trans ?_ (ih _)
    split <;> omega

theorem lastCommit_le {appliedLsn bound : Nat} {records : List (LogRecord P)}
    (happlied : appliedLsn ≤ bound) (h : ∀ record ∈ records, record.lsn ≤ bound) :
    lastCommit appliedLsn records ≤ bound := by
  induction records generalizing appliedLsn with
  | nil => exact happlied
  | cons record records ih =>
    rw [lastCommit_cons]
    refine ih ?_ fun record hmem => h record (List.mem_cons_of_mem _ hmem)
    have hrecord := h record List.mem_cons_self
    split <;> omega

theorem lastCommit_records (tx : Transaction P) {appliedLsn lsn : Nat} (h : appliedLsn < lsn) :
    lastCommit appliedLsn (tx.records lsn) = tx.commitLsn lsn := by
  have hbody : lastCommit appliedLsn
      (beginRecord lsn tx.id :: imageRecords tx.id (lsn + 1) tx.images) = appliedLsn := by
    refine lastCommit_of_le fun record hmem hcommit => ?_
    rcases List.mem_cons.1 hmem with rfl | hmem
    · simp [beginRecord] at hcommit
    · simp [type_of_mem_imageRecords hmem] at hcommit
  rw [Transaction.records, lastCommit_append, hbody]
  simp only [lastCommit, commitRecord, Transaction.commitLsn, decide_true, List.filter_cons_of_pos,
    List.filter_nil, List.foldl_cons, List.foldl_nil]
  omega

theorem lastCommit_logRecords (txs : List (Transaction P)) (appliedLsn : Nat) :
    lastCommit appliedLsn (logRecords (appliedLsn + 1) txs) = nextLsn (appliedLsn + 1) txs - 1 := by
  induction txs generalizing appliedLsn with
  | nil => rfl
  | cons tx txs ih =>
    have hnext : appliedLsn + 1 + tx.length = tx.commitLsn (appliedLsn + 1) + 1 := by
      simp only [Transaction.length, Transaction.commitLsn]
      omega
    rw [logRecords, lastCommit_append, lastCommit_records tx (Nat.lt_succ_self _), hnext, ih,
      nextLsn_cons, hnext]

/-! ### The loop, stretch by stretch -/

section AnyBuild

variable [PageSize]

theorem applyLoop_append (map : Nat → Option Nat) (appliedLsn : Nat)
    (first second : List (LogRecord P)) (maxApplied : Nat) (file : PageFile P) :
    applyLoop map appliedLsn (first ++ second) maxApplied file =
      match applyLoop map appliedLsn first maxApplied file with
      | (.error error, file) => (.error error, file)
      | (.ok maxApplied, file) => applyLoop map appliedLsn second maxApplied file := by
  induction first generalizing maxApplied file with
  | nil => rfl
  | cons record first ih =>
    simp only [List.cons_append, applyLoop]
    split
    · exact ih _ _
    · split
      · exact ih _ _
      · split
        · rfl
        · split
          · rfl
          · exact ih _ _

theorem applyLoop_skip {map : Nat → Option Nat} {appliedLsn : Nat} {records : List (LogRecord P)}
    (himage : ∀ record ∈ records, redoLsn map appliedLsn record = none)
    (hcommit : ∀ record ∈ records, record.type = .commit → record.commitLsn ≤ appliedLsn)
    (maxApplied : Nat) (file : PageFile P) :
    applyLoop map appliedLsn records maxApplied file = (.ok maxApplied, file) := by
  induction records with
  | nil => rfl
  | cons record records ih =>
    have hrest := ih (fun record hmem => himage record (List.mem_cons_of_mem _ hmem))
      fun record hmem => hcommit record (List.mem_cons_of_mem _ hmem)
    rw [applyLoop]
    split
    · have hold : ¬(record.type = .commit ∧ appliedLsn < record.commitLsn ∧
          maxApplied < record.commitLsn) := by
        rintro ⟨htype, hlt, -⟩
        exact absurd (hcommit record List.mem_cons_self htype) (by omega)
      simp only [if_neg hold, hrest]
    · rw [himage record List.mem_cons_self, hrest]

theorem applyLoop_imageRecords {map : Nat → Option Nat} {appliedLsn txId commitLsn : Nat}
    (hmap : map txId = some commitLsn) (hlater : appliedLsn < commitLsn)
    {images : List (Nat × P)} (hpos : ∀ image ∈ images, image.1 ≠ 0) (lsn : Nat)
    {maxApplied : Nat} (hmax : maxApplied ≤ commitLsn) (file : PageFile P) :
    ∃ maxApplied' ≤ commitLsn, applyLoop map appliedLsn (imageRecords txId lsn images) maxApplied
      file = (.ok maxApplied', file.redoPages images) := by
  induction images generalizing lsn maxApplied file with
  | nil => exact ⟨maxApplied, hmax, rfl⟩
  | cons image images ih =>
    have hredo : redoLsn map appliedLsn (imageRecord lsn txId image : LogRecord P) =
        some commitLsn := by
      simp [redoLsn, imageRecord, hmap, hlater]
    have hwrite : file.writeRecoveredPage image.1 image.2 =
        .ok (file.redoPage image.1 image.2) := by
      simp [PageFile.writeRecoveredPage, hpos image List.mem_cons_self]
    obtain ⟨maxApplied', hle, hrest⟩ := ih (fun image hmem => hpos image (List.mem_cons_of_mem _ hmem))
      (lsn + 1) (Nat.max_le.2 ⟨hmax, Nat.le_refl commitLsn⟩) (file.redoPage image.1 image.2)
    refine ⟨maxApplied', hle, ?_⟩
    rw [imageRecords, applyLoop, hredo]
    simp only [imageRecord, ne_eq, not_true_eq_false, if_false, WalPayload.page?, hwrite, hrest,
      PageFile.redoPages_cons]

theorem applyLoop_transaction {map : Nat → Option Nat} {appliedLsn lsn : Nat} {tx : Transaction P}
    (hmap : map tx.id = some (tx.commitLsn lsn)) (hlater : appliedLsn < lsn) {maxApplied : Nat}
    (hmax : maxApplied < lsn) (file : PageFile P) :
    applyLoop map appliedLsn (tx.records lsn) maxApplied file =
      (.ok (tx.commitLsn lsn), file.redoPages tx.images) := by
  have hcommit : lsn < tx.commitLsn lsn := by
    unfold Transaction.commitLsn
    omega
  obtain ⟨maxApplied', hle, himages⟩ := applyLoop_imageRecords hmap
    (show appliedLsn < tx.commitLsn lsn by omega) tx.images_pos (lsn + 1)
    (show maxApplied ≤ tx.commitLsn lsn by omega) file
  have hbegin : applyLoop map appliedLsn
      (beginRecord lsn tx.id :: imageRecords tx.id (lsn + 1) tx.images) maxApplied file =
        (.ok maxApplied', file.redoPages tx.images) := by
    rw [applyLoop, ← himages]
    simp [beginRecord]
  rw [Transaction.records, applyLoop_append, hbegin]
  simp only [applyLoop, commitRecord, ne_eq, reduceCtorEq, not_false_eq_true, if_true]
  have hrecord : (commitRecord (tx.commitLsn lsn) tx.id : LogRecord P).commitLsn =
      tx.commitLsn lsn := rfl
  simp only [commitRecord] at hrecord
  rw [hrecord]
  split_ifs with h
  · rfl
  · rw [show maxApplied' = tx.commitLsn lsn by simp only [true_and] at h; omega]

theorem applyLoop_logRecords {map : Nat → Option Nat} {appliedLsn : Nat}
    {txs : List (Transaction P)} {maxApplied : Nat}
    (hmap : MapsCommits map (maxApplied + 1) txs) (hle : appliedLsn ≤ maxApplied)
    (file : PageFile P) :
    applyLoop map appliedLsn (logRecords (maxApplied + 1) txs) maxApplied file =
      (.ok (nextLsn (maxApplied + 1) txs - 1), file.redoPages (allImages txs)) := by
  induction txs generalizing maxApplied file with
  | nil => simp [logRecords, applyLoop]
  | cons tx txs ih =>
    have hnext : maxApplied + 1 + tx.length = tx.commitLsn (maxApplied + 1) + 1 := by
      simp only [Transaction.length, Transaction.commitLsn]
      omega
    obtain ⟨htx, htxs⟩ := hmap
    have hle' : appliedLsn ≤ tx.commitLsn (maxApplied + 1) := by omega
    rw [hnext] at htxs
    rw [logRecords, applyLoop_append, applyLoop_transaction htx (by omega) (by omega), hnext]
    simp only
    rw [ih htxs hle', nextLsn_cons, hnext, allImages_cons, PageFile.redoPages_append]

/-! ### One batch -/

def reach (appliedLsn : Nat) (batch : List (LogRecord P)) : Nat :=
  match batch with
  | [] => appliedLsn
  | first :: _ => if appliedLsn + 1 < first.lsn then appliedLsn else lastCommit appliedLsn batch

/-- A replica that has applied the transactions `done` of a log that begins at LSN `base + 1`. -/
structure Holds (base : Nat) (file : PageFile P) (done : List (Transaction P))
    (state : PageFile P × Nat) : Prop where
  pages : state.1.data.pages = (file.redoPages (allImages done)).data.pages
  pageCount : state.1.pageCount = (file.redoPages (allImages done)).pageCount
  appliedLsn : state.2 + 1 = nextLsn (base + 1) done

theorem applyWalRecords_gap {appliedLsn start : Nat} {batch : List (LogRecord P)}
    (file : PageFile P) (hstart : Consecutive start batch) (hbatch : batch ≠ [])
    (hgap : appliedLsn + 1 < start) :
    ∃ message, applyWalRecords file batch appliedLsn =
      (.error ⟨.replicationGap, message⟩, file) := by
  obtain ⟨message, hcheck⟩ := checkContinuity_of_lt hstart hbatch hgap
  exact ⟨message, by simp only [applyWalRecords, expected_eq, hcheck]⟩

theorem applyWalRecords_whole {base appliedLsn start : Nat} {done whole later : List (Transaction P)}
    (hids : ((done ++ (whole ++ later)).map Transaction.id).Nodup)
    (happlied : appliedLsn + 1 = nextLsn (base + 1) done) {old part : List (LogRecord P)}
    (hold : ∀ record ∈ old, record ∈ logRecords (base + 1) done)
    (hpart : ∀ record ∈ part, record.type ≠ .commit ∧ record.txId ∈ later.map Transaction.id)
    (hstart : Consecutive start (old ++ (logRecords (appliedLsn + 1) whole ++ part)))
    (hle : start ≤ appliedLsn + 1) (file : PageFile P) :
    applyWalRecords file (old ++ (logRecords (appliedLsn + 1) whole ++ part)) appliedLsn =
      (.ok (nextLsn (appliedLsn + 1) whole - 1),
        if appliedLsn < nextLsn (appliedLsn + 1) whole - 1 then
          (file.redoPages (allImages whole)).flush
        else file.redoPages (allImages whole)) := by
  set map := committed (old ++ (logRecords (appliedLsn + 1) whole ++ part)) with hmap
  simp only [List.map_append] at hids
  rw [List.nodup_append', List.nodup_append', List.disjoint_append_right] at hids
  obtain ⟨-, ⟨hwhole_ids, -, hwhole_later⟩, hdone_whole, hdone_later⟩ := hids
  have hpart_none : ∀ txId, committed part txId = none := fun txId =>
    committed_eq_none fun record hmem hcommit => absurd hcommit (hpart record hmem).1
  have hold_le : ∀ record ∈ old, record.type = .commit → record.commitLsn ≤ appliedLsn := by
    intro record hmem hcommit
    have hmem_log := hold record hmem
    have hbound := ((consecutive_logRecords (base + 1) done).lsn_bounds hmem_log).2
    have hlength := length_logRecords (base + 1) done
    rw [commitLsn_of_mem_logRecords hmem_log hcommit]
    omega
  have hold_skip : ∀ record ∈ old, redoLsn map appliedLsn record = none := by
    intro record hmem
    have htx := txId_of_mem_logRecords (hold record hmem)
    unfold redoLsn
    split
    · rfl
    · rw [hmap, committed_append, committed_append, hpart_none, Option.none_or,
        committed_eq_none_of_not_mem fun h => hdone_whole htx h, Option.none_or]
      cases hlookup : committed old record.txId with
      | none => rfl
      | some lsn =>
        obtain ⟨commit, hcommit, htype, -, rfl⟩ := exists_commit_of_committed hlookup
        simpa using hold_le commit hcommit htype
  have hpart_skip : ∀ record ∈ part, redoLsn map appliedLsn record = none := by
    intro record hmem
    have htx := (hpart record hmem).2
    have hold_none : committed old record.txId = none :=
      committed_eq_none fun commit hcommit _ heq =>
        hdone_later (txId_of_mem_logRecords (hold commit hcommit)) (heq ▸ htx)
    unfold redoLsn
    split
    · rfl
    · rw [hmap, committed_append, committed_append, hpart_none, Option.none_or,
        committed_eq_none_of_not_mem fun h => hwhole_later h htx, Option.none_or, hold_none]
      rfl
  have hmaps : MapsCommits map (appliedLsn + 1) whole :=
    mapsCommits_committed hwhole_ids old (appliedLsn + 1) fun record hmem => (hpart record hmem).1
  have hloop : applyLoop map appliedLsn (old ++ (logRecords (appliedLsn + 1) whole ++ part))
      appliedLsn file =
        (.ok (nextLsn (appliedLsn + 1) whole - 1), file.redoPages (allImages whole)) := by
    rw [applyLoop_append, applyLoop_skip hold_skip hold_le]
    simp only [applyLoop_append, applyLoop_logRecords hmaps (Nat.le_refl _)]
    exact applyLoop_skip hpart_skip
      (fun record hmem hcommit => absurd hcommit (hpart record hmem).1) _ _
  simp only [applyWalRecords, expected_eq, checkContinuity_of_le hstart hle, ← hmap, hloop]

theorem deliver_step {base : Nat} {file : PageFile P} {done rest : List (Transaction P)}
    (hids : ((done ++ rest).map Transaction.id).Nodup) {state : PageFile P × Nat}
    (hstate : Holds base file done state) {batch : List (LogRecord P)}
    (hbatch : batch <:+: logRecords (base + 1) (done ++ rest)) :
    ∃ whole later, rest = whole ++ later ∧ Holds base file (done ++ whole) (deliver state batch) ∧
      (deliver state batch).2 = reach state.2 batch := by
  have hstay : Holds base file (done ++ []) state := by rwa [List.append_nil]
  cases hcases : batch with
  | nil =>
    have hdeliver : deliver state ([] : List (LogRecord P)) = state := by
      simp [deliver, applyWalRecords, checkContinuity, applyLoop]
    exact ⟨[], rest, rfl, by rwa [hdeliver], by rw [hdeliver]; rfl⟩
  | cons first others =>
    have hne : batch ≠ [] := by simp [hcases]
    obtain ⟨start, hstart⟩ : ∃ start, Consecutive start batch := by
      obtain ⟨pre, post, hsplit⟩ := hbatch
      have hwhole := consecutive_logRecords (base + 1) (done ++ rest)
      rw [← hsplit, consecutive_append, consecutive_append] at hwhole
      exact ⟨_, hwhole.1.2⟩
    have hfirst : first.lsn = start := by
      rw [hcases] at hstart
      exact (consecutive_cons.1 hstart).1
    rw [← hcases]
    by_cases hgap : state.2 + 1 < start
    · obtain ⟨message, happly⟩ := applyWalRecords_gap state.1 hstart hne hgap
      have hdeliver : deliver state batch = state := by simp only [deliver, happly]
      refine ⟨[], rest, rfl, by rwa [hdeliver], ?_⟩
      rw [hdeliver, hcases, reach, if_pos (by omega)]
    · have happlied := hstate.appliedLsn
      obtain ⟨old, whole, later, part, hrest, hparts, hold, hpart⟩ :=
        batch_cases hbatch hne hstart (by omega)
      rw [← happlied] at hparts
      rw [hrest] at hids
      rw [hparts] at hstart
      have happly := applyWalRecords_whole hids happlied hold hpart hstart (by omega) state.1
      rw [← hparts] at happly
      refine ⟨whole, later, hrest, ?_, ?_⟩
      · have hpages : (deliver state batch).1.data.pages =
              (state.1.redoPages (allImages whole)).data.pages ∧
            (deliver state batch).1.pageCount =
              (state.1.redoPages (allImages whole)).pageCount := by
          simp only [deliver, happly]
          split <;> exact ⟨rfl, rfl⟩
        have hnext := le_nextLsn (state.2 + 1) whole
        refine ⟨?_, ?_, ?_⟩
        · rw [hpages.1, allImages_append, PageFile.redoPages_append, PageFile.pages_redoPages,
            hstate.pages, ← PageFile.pages_redoPages]
        · rw [hpages.2, allImages_append, PageFile.redoPages_append, PageFile.pageCount_redoPages,
            hstate.pageCount, ← PageFile.pageCount_redoPages]
        · rw [nextLsn_append, ← happlied]
          simp only [deliver, happly]
          omega
      · have hold_le : ∀ record ∈ old, record.type = .commit → record.lsn ≤ state.2 := by
          intro record hmem _
          have hbound := ((consecutive_logRecords (base + 1) done).lsn_bounds (hold record hmem)).2
          have hlength := length_logRecords (base + 1) done
          omega
        have hreach : reach state.2 batch = lastCommit state.2 batch := by
          rw [hcases, reach, if_neg (by omega)]
        have hpart_le : lastCommit (nextLsn (state.2 + 1) whole - 1) part =
            nextLsn (state.2 + 1) whole - 1 :=
          lastCommit_of_le fun record hmem hcommit => absurd hcommit (hpart record hmem).1
        rw [hreach, hparts, lastCommit_append, lastCommit_of_le hold_le, lastCommit_append,
          lastCommit_logRecords, hpart_le, ← hparts]
        simp only [deliver, happly]

/-! ### Runs -/

omit [PageSize] in
theorem holds_nil (base : Nat) (file : PageFile P) : Holds base file [] (file, base) :=
  ⟨rfl, rfl, rfl⟩

theorem holds_once (base : Nat) (file : PageFile P) {txs : List (Transaction P)}
    (hids : (txs.map Transaction.id).Nodup) :
    Holds base file txs (deliver (file, base) (logRecords (base + 1) txs)) := by
  have hids' : ((([] : List (Transaction P)) ++ (txs ++ [])).map Transaction.id).Nodup := by
    simpa using hids
  have hstart : Consecutive (base + 1) ([] ++ (logRecords (base + 1) txs ++ [])) := by
    simpa using consecutive_logRecords (base + 1) txs
  have happly := applyWalRecords_whole hids' (nextLsn_nil (base + 1)).symm (by simp) (by simp)
    hstart (Nat.le_refl _) file
  simp only [List.nil_append, List.append_nil] at happly
  have hnext := le_nextLsn (base + 1) txs
  have hfile : (deliver (file, base) (logRecords (base + 1) txs)).1.data.pages =
        (file.redoPages (allImages txs)).data.pages ∧
      (deliver (file, base) (logRecords (base + 1) txs)).1.pageCount =
        (file.redoPages (allImages txs)).pageCount := by
    simp only [deliver, happly]
    split <;> exact ⟨rfl, rfl⟩
  refine ⟨hfile.1, hfile.2, ?_⟩
  simp only [deliver, happly]
  omega

theorem deliver_run {base : Nat} {file : PageFile P} {txs : List (Transaction P)}
    (hids : (txs.map Transaction.id).Nodup) {batches : List (List (LogRecord P))}
    (hbatches : ∀ batch ∈ batches, batch <:+: logRecords (base + 1) txs)
    {done rest : List (Transaction P)} (htxs : txs = done ++ rest) {state : PageFile P × Nat}
    (hstate : Holds base file done state) :
    ∃ done' rest', txs = done' ++ rest' ∧ Holds base file done' (batches.foldl deliver state) ∧
      (batches.foldl deliver state).2 = batches.foldl reach state.2 := by
  induction batches generalizing done rest state with
  | nil => exact ⟨done, rest, htxs, hstate, rfl⟩
  | cons batch batches ih =>
    subst htxs
    obtain ⟨whole, later, rfl, hholds, hreach⟩ :=
      deliver_step hids hstate (hbatches batch List.mem_cons_self)
    obtain ⟨done', rest', hsplit, hfinal, hlsn⟩ := ih
      (fun batch hmem => hbatches batch (List.mem_cons_of_mem _ hmem))
      (List.append_assoc _ _ _).symm hholds
    exact ⟨done', rest', hsplit, hfinal, by rw [List.foldl_cons, List.foldl_cons, hlsn, hreach]⟩

/-- Batches that end with commit records, each starting no later than right after the LSN reached
so far, which take the replica from `position` to `target`. -/
def Covers : Nat → List (List (LogRecord P)) → Nat → Prop
  | position, [], target => position = target
  | position, batch :: batches, target =>
    ∃ start body txId, Consecutive start batch ∧ start ≤ position + 1 ∧
      batch = body ++ [commitRecord (start + body.length) txId] ∧
      Covers (max position (start + body.length)) batches target

omit [PageSize] in
theorem foldl_reach_of_covers {position target : Nat} {batches : List (List (LogRecord P))}
    (h : Covers position batches target) : batches.foldl reach position = target := by
  induction batches generalizing position with
  | nil => exact h
  | cons batch batches ih =>
    obtain ⟨start, body, txId, hstart, hle, hbatch, hrest⟩ := h
    have hcommit : lastCommit position batch = max position (start + body.length) := by
      have hbody : ∀ position', position ≤ position' → position' ≤ max position (start + body.length) →
          max position' (start + body.length) = max position (start + body.length) := by omega
      rw [hbatch, lastCommit_append]
      have hle_body : lastCommit position body ≤ max position (start + body.length) := by
        rw [hbatch, consecutive_append] at hstart
        refine lastCommit_le (Nat.le_max_left _ _) fun record hmem => ?_
        have hlsn := (hstart.1.lsn_bounds hmem).2
        omega
      rw [lastCommit_cons, type_commitRecord, if_pos rfl, lsn_commitRecord]
      exact hbody _ (le_lastCommit position body) hle_body
    have hreach : reach position batch = lastCommit position batch := by
      cases hcases : batch with
      | nil => simp [hcases] at hbatch
      | cons first others =>
        rw [hcases] at hstart
        have hfirst := (consecutive_cons.1 hstart).1
        rw [reach, if_neg (by omega)]
    rw [List.foldl_cons, hreach, hcommit]
    exact ih hrest

/-- **Batches.** The log of transactions with different ids, from LSN `base + 1` on, reaches a replica
that stands at `base` in batches of consecutive records, in any number and with any repetition. A
batch that begins past the next LSN is refused and changes nothing. After all of them the replica
stands at the last commit it reached, and holds what one application of the log up to that commit
would have given; when the batches end with commits and leave no gap, that is the whole log. -/
theorem deliver_batches {base : Nat} (file : PageFile P) {txs : List (Transaction P)}
    (hids : (txs.map Transaction.id).Nodup) {batches : List (List (LogRecord P))}
    (hbatches : ∀ batch ∈ batches, batch <:+: logRecords (base + 1) txs) :
    (∀ batch ∈ batches, ∀ (file : PageFile P) (appliedLsn : Nat),
      (∃ first ∈ batch.head?, appliedLsn + 1 < first.lsn) →
      ∃ message, applyWalRecords file batch appliedLsn =
        (.error ⟨.replicationGap, message⟩, file)) ∧
    (∃ done, done <+: txs ∧
      let final := batches.foldl deliver (file, base)
      let once := deliver (file, base) (logRecords (base + 1) done)
      final.2 = batches.foldl reach base ∧ final.2 = once.2 ∧
        final.1.data.pages = once.1.data.pages ∧ final.1.pageCount = once.1.pageCount) ∧
    (Covers base batches (nextLsn (base + 1) txs - 1) →
      let final := batches.foldl deliver (file, base)
      let once := deliver (file, base) (logRecords (base + 1) txs)
      final.2 = once.2 ∧ final.1.data.pages = once.1.data.pages ∧
        final.1.pageCount = once.1.pageCount) := by
  have hconsecutive : ∀ batch ∈ batches, ∃ start, Consecutive start batch := by
    intro batch hmem
    obtain ⟨pre, post, hsplit⟩ := hbatches batch hmem
    have hwhole := consecutive_logRecords (base + 1) txs
    rw [← hsplit, consecutive_append, consecutive_append] at hwhole
    exact ⟨_, hwhole.1.2⟩
  obtain ⟨done, rest, rfl, hfinal, hlsn⟩ :=
    deliver_run hids hbatches (List.nil_append txs).symm (holds_nil base file)
  have hids_done : (done.map Transaction.id).Nodup := by
    rw [List.map_append] at hids
    exact hids.of_append_left
  have hsame : ∀ txs', Holds base file txs' (batches.foldl deliver (file, base)) →
      (txs'.map Transaction.id).Nodup →
      let final := batches.foldl deliver (file, base)
      let once := deliver (file, base) (logRecords (base + 1) txs')
      final.2 = once.2 ∧ final.1.data.pages = once.1.data.pages ∧
        final.1.pageCount = once.1.pageCount := by
    intro txs' hholds hids'
    have honce := holds_once base file hids'
    refine ⟨?_, hholds.pages.trans honce.pages.symm, hholds.pageCount.trans honce.pageCount.symm⟩
    have hleft := hholds.appliedLsn
    have hright := honce.appliedLsn
    omega
  refine ⟨?_, ⟨done, List.prefix_append _ _, hlsn, hsame done hfinal hids_done⟩, fun hcovers => ?_⟩
  · rintro batch hmem file appliedLsn ⟨first, hfirst, hgap⟩
    obtain ⟨start, hstart⟩ := hconsecutive batch hmem
    cases batch with
    | nil => simp at hfirst
    | cons head others =>
      obtain rfl : head = first := by simpa using hfirst
      exact applyWalRecords_gap file hstart (by simp) ((consecutive_cons.1 hstart).1 ▸ hgap)
  · -- nothing is left, since every transaction takes records in the log
    have hall := foldl_reach_of_covers hcovers
    have hend := hfinal.appliedLsn
    have hpos := le_nextLsn (base + 1) (done ++ rest)
    rw [hlsn, hall, nextLsn_append] at hend
    rw [nextLsn_append] at hpos
    have hrest : rest = [] := by
      cases rest with
      | nil => rfl
      | cons tx rest =>
        have hlater := le_nextLsn (nextLsn (base + 1) done + tx.length) rest
        rw [nextLsn_cons] at hend hpos
        simp only [Transaction.length] at hend hlater hpos
        omega
    rw [hrest, List.append_nil]
    exact hsame done hfinal hids_done

end AnyBuild

section DefaultBuild

attribute [local instance] PageSize.default

def fourPageFile : PageFile Nat where
  data := ⟨4, none, fun _ => 0, 4⟩
  pageCount := 4
  catalogRoot := none

def oneImage (id pageId page : Nat) (h : pageId ≠ 0) : Transaction Nat where
  id := id
  images := [(pageId, page)]
  images_pos := by simpa using h

/-- The log of three sessions' worth of transactions with the given ids. -/
def threeTransactions (first second third : Nat) : List (Transaction Nat) :=
  [oneImage first 1 7 (by decide), oneImage second 1 8 (by decide), oneImage third 2 9 (by decide)]

def overlappingBatches (first second third : Nat) : List (List (LogRecord Nat)) :=
  [(logRecords 1 (threeTransactions first second third)).take 6,
    logRecords 1 (threeTransactions first second third)]

theorem deliver_overlappingBatches :
    ((overlappingBatches 1 2 3).foldl deliver (fourPageFile, 0)).1.data.pages =
      (deliver (fourPageFile, 0) (logRecords 1 (threeTransactions 1 2 3))).1.data.pages := by
  have hbatches : ∀ batch ∈ overlappingBatches 1 2 3,
      batch <:+: logRecords (0 + 1) (threeTransactions 1 2 3) := by
    intro batch hmem
    simp only [overlappingBatches, List.mem_cons, List.not_mem_nil, or_false] at hmem
    rcases hmem with rfl | rfl
    · exact (List.take_prefix _ _).isInfix
    · exact List.infix_refl _
  have hcovers : Covers 0 (overlappingBatches 1 2 3)
      (nextLsn (0 + 1) (threeTransactions 1 2 3) - 1) :=
    ⟨1, (logRecords 1 (threeTransactions 1 2 3)).take 5, 2, rfl, by decide, rfl,
      1, (logRecords 1 (threeTransactions 1 2 3)).take 8, 3, rfl, by decide, rfl, rfl⟩
  exact ((deliver_batches fourPageFile (by decide) hbatches).2.2 hcovers).2.1

/-- A transaction delivered in two halves is not applied. And a log that uses an id twice, as two
sessions of a primary can, loses an update when it is delivered again: the second delivery writes
page 1 as the first transaction left it. -/
theorem deliver_batches_differ :
    (([(logRecords 1 [oneImage 1 1 7 (by decide)]).take 2,
        (logRecords 1 [oneImage 1 1 7 (by decide)]).drop 2].foldl deliver
          (fourPageFile, 0)).1.data.pages 1 = 0 ∧
      (deliver (fourPageFile, 0)
        (logRecords 1 [oneImage 1 1 7 (by decide)])).1.data.pages 1 = 7) ∧
    (((overlappingBatches 1 2 1).foldl deliver (fourPageFile, 0)).1.data.pages 1 = 7 ∧
      (deliver (fourPageFile, 0) (logRecords 1 (threeTransactions 1 2 1))).1.data.pages 1 = 8) := by
  decide

end DefaultBuild

end MoDb.Repl
