import MoDb.Store.BlobPages
import Mathlib.Tactic.Abel

/-!
# Chains of pages

What a chain holds, and what the loops of the store do with it.
-/

namespace MoDb.Store

open Storage Effect

/-! ### One page -/

def blobHeader (next length : Nat) : Bytes :=
  blobMagic ++ storeLe 2 blobPageVersion ++ storeLe 2 0 ++ storeLe 8 next ++ storeLe 4 length ++
    storeLe 4 0

theorem length_blobHeader (next length : Nat) : (blobHeader next length).length = blobHeaderSize := by
  simp [blobHeader, blobMagic, blobHeaderSize]

theorem readArea_buildPage {next : Nat} {chunk : Bytes} {offset size : Nat}
    (h : offset + size ≤ blobHeaderSize) : readArea (buildPage next chunk) offset size =
      ((blobHeader next chunk.length).drop offset).take size := by
  rw [← length_blobHeader next chunk.length] at h
  have hinside := @readArea_copyTo_inside default 0 offset size _ h
  rw [Nat.zero_add] at hinside
  rw [buildPage, readArea_copyTo_of_disjoint (.inl (by rwa [length_blobHeader] at h)), ← hinside]
  rfl

theorem chunkOf_buildPage (next next' : Nat) (chunk : Bytes) :
    chunkOf (buildPage next chunk) ⟨next', chunk.length⟩ = chunk :=
  readArea_copyTo_self _ _ _

theorem copyTo_buildPage {next : Nat} {chunk bytes : Bytes} (h : bytes.length ≤ chunk.length) :
    copyTo (buildPage next chunk) blobHeaderSize bytes =
      buildPage next (bytes ++ chunk.drop bytes.length) := by
  have hlength : (bytes ++ chunk.drop bytes.length).length = chunk.length := by
    rw [List.length_append, List.length_drop, Nat.add_sub_cancel' h]
  rw [buildPage, buildPage, copyTo_copyTo, hlength]

variable [PageSize]

theorem blobPageCapacity_pos : 0 < blobPageCapacity :=
  Nat.sub_pos_of_lt (Nat.lt_of_lt_of_le (by decide) (Nat.le_of_lt lt_pageSize))

theorem blobPageCapacity_lt : blobPageCapacity < 2 ^ 32 :=
  Nat.lt_of_le_of_lt (Nat.le_trans (Nat.sub_le _ _) PageSize.upper) (by decide)

theorem chunk_end_le {page : Area} {header : BlobPageHeader} (h : parseBlobPage page = .ok header) :
    blobHeaderSize + header.length ≤ pageSize := by
  have hheader : blobHeaderSize ≤ pageSize :=
    Nat.le_trans (by decide) (Nat.le_of_lt lt_pageSize)
  have hlength : header.length ≤ blobPageCapacity := by
    unfold parseBlobPage at h
    extract_lets version length at h
    split at h
    · cases h
    · split at h
      · cases h
      · split at h
        · cases h
        · rename_i hfits
          rw [← Except.ok.inj h]
          exact Nat.not_lt.1 hfits
  exact Nat.add_le_of_le_sub' hheader hlength

theorem parseBlobPage_buildPage {next : Nat} {chunk : Bytes} (hnext : next < 2 ^ 64)
    (hchunk : chunk.length ≤ blobPageCapacity) :
    parseBlobPage (buildPage next chunk) = .ok ⟨next, chunk.length⟩ := by
  have hmagic : readArea (buildPage next chunk) 0 4 = blobMagic := by
    rw [readArea_buildPage (by decide)]
    rfl
  have hversion : loadAt (buildPage next chunk) 4 2 = blobPageVersion := by
    rw [loadAt, readArea_buildPage (by decide)]
    rfl
  have hnext' : loadAt (buildPage next chunk) 8 8 = next := by
    have hsplit : blobHeader next chunk.length = (blobMagic ++ storeLe 2 blobPageVersion ++
        storeLe 2 0) ++ (storeLe 8 next ++ (storeLe 4 chunk.length ++ storeLe 4 0)) := by
      simp [blobHeader]
    rw [loadAt, readArea_buildPage (by decide), hsplit,
      List.drop_left' (by simp [blobMagic]), List.take_left' (length_storeLe 8 next), loadLe_storeLe_of_lt hnext]
  have hlength : loadAt (buildPage next chunk) 16 4 = chunk.length := by
    have hsplit : blobHeader next chunk.length = (blobMagic ++ storeLe 2 blobPageVersion ++
        storeLe 2 0 ++ storeLe 8 next) ++ (storeLe 4 chunk.length ++ storeLe 4 0) := by
      simp [blobHeader]
    rw [loadAt, readArea_buildPage (by decide), hsplit,
      List.drop_left' (by simp [blobMagic]), List.take_left' (length_storeLe 4 _),
      loadLe_storeLe_of_lt (Nat.lt_of_le_of_lt hchunk blobPageCapacity_lt)]
  simp only [parseBlobPage, hmagic, hversion, hnext', hlength]
  rw [if_neg (by simp), if_neg (by simp), if_neg (Nat.not_lt.2 hchunk)]

/-! ### The pages of a chain -/

/-- The pages of `ids` with the pieces of `data`; the last one points to `next`. -/
def chainPages (next : Nat) : List Nat → Bytes → List (Nat × Area)
  | [], _ => []
  | id :: ids, data => (id, buildPage (ids.headD next) (data.take blobPageCapacity)) ::
      chainPages next ids (data.drop blobPageCapacity)

theorem map_fst_chainPages (next : Nat) (ids : List Nat) (data : Bytes) :
    (chainPages next ids data).map Prod.fst = ids := by
  induction ids generalizing data with
  | nil => rfl
  | cons id ids ih => rw [chainPages, List.map_cons, ih]

theorem chainPages_append (next : Nat) (ids more : List Nat) (data : Bytes) :
    chainPages next (ids ++ more) data = chainPages (more.headD next) ids data ++
      chainPages next more (data.drop (ids.length * blobPageCapacity)) := by
  induction ids generalizing data with
  | nil => simp [chainPages]
  | cons id ids ih =>
    have hhead : (ids ++ more).headD next = ids.headD (more.headD next) := by cases ids <;> rfl
    have hdrop : (id :: ids).length * blobPageCapacity =
        blobPageCapacity + ids.length * blobPageCapacity := by
      rw [List.length_cons, Nat.succ_mul, Nat.add_comm]
    rw [List.cons_append, chainPages, chainPages, ih, hhead, hdrop, List.drop_drop]
    rfl

theorem chainPages_congr {next : Nat} {ids : List Nat} {data : Bytes}
    (h : ids.length * blobPageCapacity ≤ data.length) (more : Bytes) :
    chainPages next ids (data ++ more) = chainPages next ids data := by
  induction ids generalizing data with
  | nil => rfl
  | cons id ids ih =>
    rw [List.length_cons, Nat.succ_mul] at h
    have hcapacity : blobPageCapacity ≤ data.length := Nat.le_trans (Nat.le_add_left _ _) h
    rw [chainPages, chainPages, List.take_append_of_le_length hcapacity,
      List.drop_append_of_le_length hcapacity, ih (by rw [List.length_drop]; omega)]

/-! ### The loops -/

section Held

omit [PageSize]

variable {tx : Bool} {file : PageFile Area} {pages : Multiset (Nat × Area)}

theorem Held.allocatePages (h : Held tx file pages) (count : Nat) :
    Outcome (fun ids file' => ids.length = count ∧ ∃ fresh : List (Nat × Area),
        fresh.map Prod.fst = ids ∧ Held tx file' (↑fresh + pages)) (FileFull pages tx)
      (Store.allocatePages count file) := by
  induction count generalizing file pages with
  | zero => exact ⟨rfl, [], rfl, h.of_eq (by simp)⟩
  | succ count ih =>
    apply h.allocate.bind
    rintro id file₁ ⟨page, h₁⟩
    apply ((ih h₁).mono (fun _ _ h => h) fun error file' hfull =>
      hfull.mono (Multiset.le_add_left pages _)).bind
    rintro ids file₂ ⟨hlength, fresh, rfl, h₂⟩
    refine ⟨congrArg Nat.succ hlength, (id, page) :: fresh, rfl, h₂.of_eq ?_⟩
    rw [← Multiset.cons_coe, ← Multiset.singleton_add]
    abel

end Held

variable {tx : Bool} {file : PageFile Area} {pages frame : Multiset (Nat × Area)}

theorem Held.writeChunks {old : List (Nat × Area)} (h : Held tx file (↑old + frame)) (data : Bytes) :
    ∃ file', Store.writeChunks (old.map Prod.fst) data file = .ok () file' ∧
      Held tx file' (↑(chainPages 0 (old.map Prod.fst) data) + frame) := by
  induction old generalizing file frame data with
  | nil => exact ⟨file, rfl, h⟩
  | cons page old ih =>
    rw [cons_add] at h
    obtain ⟨file₁, hwrite, h₁⟩ := h.write
      (buildPage ((old.map Prod.fst).headD 0) (data.take blobPageCapacity))
    obtain ⟨file₂, hrest, h₂⟩ := ih (h₁.of_eq (add_left_comm _ _ _)) (data.drop blobPageCapacity)
    refine ⟨file₂, ?_, h₂.of_eq ?_⟩
    · rw [List.map_cons, Store.writeChunks, bind_of_ok hwrite]
      exact hrest
    · rw [List.map_cons, chainPages, cons_add, add_left_comm]

omit [PageSize] in
theorem Held.clearPages {old : List (Nat × Area)} (h : Held tx file (↑old + frame)) :
    ∃ file', BlobStore.clearPages (old.map Prod.fst) file = .ok () file' ∧ Held tx file' frame := by
  induction old generalizing file with
  | nil => exact ⟨file, rfl, h.of_eq (zero_add _)⟩
  | cons page old ih =>
    rw [cons_add] at h
    obtain ⟨file₁, hwrite, h₁⟩ := h.write default
    obtain ⟨file₂, hrest, h₂⟩ := ih (h₁.mono (Multiset.le_add_left _ _))
    exact ⟨file₂, by rw [List.map_cons, BlobStore.clearPages, bind_of_ok hwrite, hrest], h₂⟩

theorem Held.readBlobPage {id : Nat} {ids : List Nat} {data : Bytes}
    (h : Held tx file (↑(chainPages 0 (id :: ids) data) + frame)) :
    Store.readBlobPage id file = .ok (buildPage (ids.headD 0) (data.take blobPageCapacity),
      ⟨ids.headD 0, (data.take blobPageCapacity).length⟩) file := by
  have hmem : (id, buildPage (ids.headD 0) (data.take blobPageCapacity)) ∈
      (↑(chainPages 0 (id :: ids) data) + frame : Multiset (Nat × Area)) := by
    simp [chainPages]
  have hnext : ids.headD 0 < 2 ^ 64 := by
    cases ids with
    | nil => exact Nat.two_pow_pos 64
    | cons next ids =>
      have hmem : (next, buildPage (ids.headD 0) ((data.drop blobPageCapacity).take blobPageCapacity)) ∈
          (↑(chainPages 0 (id :: next :: ids) data) + frame : Multiset (Nat × Area)) := by
        simp [chainPages]
      exact h.id_lt hmem
  have hchunk : (data.take blobPageCapacity).length ≤ blobPageCapacity := by
    rw [List.length_take]
    exact Nat.min_le_left _ _
  rw [Store.readBlobPage, bind_of_ok (h.read hmem).2, parseBlobPage_buildPage hnext hchunk]
  rfl

theorem Held.chain_head {id : Nat} {ids : List Nat} {data : Bytes}
    (h : Held tx file (↑(chainPages 0 (id :: ids) data) + frame)) : id ≠ 0 ∧ id ∉ ids := by
  have hnodup := h.holds.left.nodup
  rw [Multiset.map_coe, map_fst_chainPages, Multiset.coe_nodup, List.nodup_cons] at hnodup
  exact ⟨(h.holds.read (id, buildPage (ids.headD 0) (data.take blobPageCapacity))
    (by simp [chainPages])).1, hnodup.1⟩

/-- What the loop along a chain makes of the pages, where it changes none. -/
def foldChain {σ : Type} (f : Nat → Area → BlobPageHeader → σ → σ) : List Nat → Bytes → σ → σ
  | [], _, state => state
  | id :: ids, data, state =>
    let chunk := data.take blobPageCapacity
    foldChain f ids (data.drop blobPageCapacity)
      (f id (buildPage (ids.headD 0) chunk) ⟨ids.headD 0, chunk.length⟩ state)

theorem Held.walkChain {σ : Type} {visit : Nat → Area → BlobPageHeader → σ → PageM σ}
    {f : Nat → Area → BlobPageHeader → σ → σ}
    (hvisit : ∀ id page header state, visit id page header state = pure (f id page header state))
    {ids : List Nat} {data : Bytes} (h : Held tx file (↑(chainPages 0 ids data) + frame))
    {visited : List Nat} (hvisited : ∀ id ∈ ids, id ∉ visited) {fuel : Nat} (hfuel : ids.length < fuel)
    (state : σ) : Store.walkChain visit fuel visited (ids.headD 0) state file =
      .ok (foldChain f ids data state) file := by
  induction ids generalizing data frame visited fuel state with
  | nil =>
    obtain ⟨fuel, rfl⟩ := Nat.exists_eq_succ_of_ne_zero (Nat.ne_of_gt hfuel)
    rfl
  | cons id ids ih =>
    obtain ⟨fuel, rfl⟩ := Nat.exists_eq_succ_of_ne_zero (Nat.ne_of_gt (Nat.zero_lt_of_lt hfuel))
    obtain ⟨hzero, hfresh⟩ := h.chain_head
    have hrest : Held tx file (↑(chainPages 0 ids (data.drop blobPageCapacity)) +
        ({(id, buildPage (ids.headD 0) (data.take blobPageCapacity))} + frame)) := by
      apply h.of_eq
      rw [chainPages, cons_add, add_left_comm]
    have hvisited' : ∀ other ∈ ids, other ∉ id :: visited := by
      intro other hother hmem
      rcases List.mem_cons.1 hmem with rfl | hmem
      · exact hfresh hother
      · exact hvisited other (List.mem_cons_of_mem _ hother) hmem
    change (Store.walkChain visit (fuel + 1) visited id state) file = _
    rw [Store.walkChain, if_neg hzero, if_neg (hvisited id List.mem_cons_self),
      bind_of_ok h.readBlobPage]
    change (visit id _ _ state >>= fun state => Store.walkChain visit fuel (id :: visited)
      (ids.headD 0) state) file = _
    rw [hvisit, pure_bind_run, ih hrest hvisited' (Nat.lt_of_succ_lt_succ hfuel)]
    rfl

theorem Held.walkChain_clear {ids : List Nat} {data : Bytes}
    (h : Held tx file (↑(chainPages 0 ids data) + frame)) {visited : List Nat}
    (hvisited : ∀ id ∈ ids, id ∉ visited) {fuel : Nat} (hfuel : ids.length < fuel) :
    ∃ file', Store.walkChain (fun current _ _ _ => PageM.write current default) fuel visited
        (ids.headD 0) () file = .ok () file' ∧
      Held tx file' (↑(ids.map fun id => (id, (default : Area))) + frame) := by
  induction ids generalizing data frame visited fuel file with
  | nil =>
    obtain ⟨fuel, rfl⟩ := Nat.exists_eq_succ_of_ne_zero (Nat.ne_of_gt hfuel)
    exact ⟨file, rfl, h⟩
  | cons id ids ih =>
    obtain ⟨fuel, rfl⟩ := Nat.exists_eq_succ_of_ne_zero (Nat.ne_of_gt (Nat.zero_lt_of_lt hfuel))
    obtain ⟨hzero, hfresh⟩ := h.chain_head
    have hread := h.readBlobPage
    rw [chainPages, cons_add] at h
    obtain ⟨file₁, hwrite, h₁⟩ := h.write default
    have hvisited' : ∀ other ∈ ids, other ∉ id :: visited := by
      intro other hother hmem
      rcases List.mem_cons.1 hmem with rfl | hmem
      · exact hfresh hother
      · exact hvisited other (List.mem_cons_of_mem _ hother) hmem
    obtain ⟨file₂, hrest, h₂⟩ := ih (h₁.of_eq (add_left_comm _ _ _)) hvisited'
      (Nat.lt_of_succ_lt_succ hfuel)
    refine ⟨file₂, ?_, h₂.of_eq ?_⟩
    · change (Store.walkChain _ (fuel + 1) visited id ()) file = _
      rw [Store.walkChain, if_neg hzero, if_neg (hvisited id List.mem_cons_self), bind_of_ok hread]
      change (PageM.write id default >>= fun state => Store.walkChain _ fuel (id :: visited)
        (ids.headD 0) state) file = _
      rw [bind_of_ok hwrite]
      exact hrest
    · rw [List.map_cons, cons_add, add_left_comm]

/-! ### What the loops see of the contents -/

theorem foldChain_contents (ids : List Nat) (data out : Bytes) :
    foldChain (fun _ page header out => out ++ chunkOf page header) ids data out =
      out ++ data.take (ids.length * blobPageCapacity) := by
  induction ids generalizing data out with
  | nil => simp [foldChain]
  | cons id ids ih =>
    rw [foldChain, ih, chunkOf_buildPage, List.append_assoc, List.length_cons, Nat.succ_mul,
      Nat.add_comm, List.take_add]

theorem foldChain_ids (ids : List Nat) (data : Bytes) (seen : List Nat) :
    foldChain (fun current _ _ ids => ids ++ [current]) ids data seen = seen ++ ids := by
  induction ids generalizing data seen with
  | nil => simp [foldChain]
  | cons id ids ih => rw [foldChain, ih, List.append_assoc, List.singleton_append]

theorem foldChain_last (ids : List Nat) (last : Nat) (data : Bytes) (state : Nat × Area × BlobPageHeader) :
    foldChain (fun current page header _ => (current, page, header)) (ids ++ [last]) data state =
      let chunk := (data.drop (ids.length * blobPageCapacity)).take blobPageCapacity
      (last, buildPage 0 chunk, ⟨0, chunk.length⟩) := by
  induction ids generalizing data state with
  | nil => simp [foldChain]
  | cons id ids ih =>
    rw [List.cons_append, foldChain, ih, List.length_cons, Nat.succ_mul,
      Nat.add_comm (ids.length * blobPageCapacity), List.drop_drop]

/-! ### How many pages -/

theorem pagesFor_mul (size : Nat) :
    size ≤ pagesFor size * blobPageCapacity ∧
      pagesFor size * blobPageCapacity < size + blobPageCapacity := by
  have hpos := blobPageCapacity_pos
  have hdiv := Nat.div_add_mod (size + blobPageCapacity - 1) blobPageCapacity
  have hmod := Nat.mod_lt (size + blobPageCapacity - 1) hpos
  rw [Nat.mul_comm] at hdiv
  unfold pagesFor
  omega

theorem pagesFor_zero : pagesFor 0 = 0 := by
  have hpos := blobPageCapacity_pos
  unfold pagesFor
  exact Nat.div_eq_of_lt (by omega)

theorem pagesNeeded_eq {data : Bytes} {count : Nat} (hpos : 0 < count)
    (hupper : data.length ≤ count * blobPageCapacity)
    (hlower : (count - 1) * blobPageCapacity < data.length ∨ count = 1) : pagesNeeded data = count := by
  have hcapacity := blobPageCapacity_pos
  obtain ⟨count, rfl⟩ := Nat.exists_eq_add_one_of_ne_zero (Nat.ne_of_gt hpos)
  rw [Nat.add_mul, Nat.one_mul] at hupper
  rw [Nat.add_sub_cancel] at hlower
  unfold pagesNeeded
  split
  · rename_i hempty
    rcases hlower with hlower | hone
    · rw [hempty, List.length_nil] at hlower
      exact absurd hlower (Nat.not_lt_zero _)
    · exact hone.symm
  · rename_i hdata
    have hlength : 0 < data.length := List.length_pos_iff.2 hdata
    have hlower' : count * blobPageCapacity < data.length := by
      rcases hlower with hlower | hone
      · exact hlower
      · obtain rfl : count = 0 := Nat.succ.inj hone
        rwa [Nat.zero_mul]
    apply Nat.div_eq_of_lt_le
    · rw [Nat.add_mul, Nat.one_mul]
      omega
    · rw [Nat.add_mul, Nat.add_mul, Nat.one_mul]
      omega

theorem pagesNeeded_congr {data data' : Bytes} (h : data.length = data'.length) :
    pagesNeeded data = pagesNeeded data' := by
  have hnil : data = [] ↔ data' = [] := by
    rw [← List.length_eq_zero_iff, ← List.length_eq_zero_iff, h]
  unfold pagesNeeded
  simp only [h, hnil]

theorem pagesNeeded_pos (data : Bytes) : 0 < pagesNeeded data := by
  have hcapacity := blobPageCapacity_pos
  have hmul := (pagesFor_mul data.length).1
  unfold pagesNeeded
  split
  · exact Nat.succ_pos 0
  · rename_i hdata
    have hlength : 0 < data.length := List.length_pos_iff.2 hdata
    exact Nat.pos_of_mul_pos_right (Nat.lt_of_lt_of_le hlength hmul)

theorem le_pagesNeeded_mul (data : Bytes) : data.length ≤ pagesNeeded data * blobPageCapacity := by
  unfold pagesNeeded
  split
  · rename_i hdata
    simp [hdata]
  · exact (pagesFor_mul data.length).1

theorem pagesNeeded_pred_mul (data : Bytes) :
    (pagesNeeded data - 1) * blobPageCapacity < data.length ∨ pagesNeeded data = 1 := by
  unfold pagesNeeded
  split
  · exact .inr rfl
  · rename_i hdata
    have hmul := (pagesFor_mul data.length).2
    refine .inl ?_
    rw [Nat.sub_mul, Nat.one_mul]
    have hlength : 0 < data.length := List.length_pos_iff.2 hdata
    omega

end MoDb.Store
