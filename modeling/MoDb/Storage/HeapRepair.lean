import MoDb.Storage.HeapChain

/-!
# Repairing a heap

The repair writes the root again from the chain. It takes the links forwards as they are and checks no link
back, which `open` does.
-/

namespace MoDb.Storage

variable [PageSize] {file file' : PageFile Area} {root : Nat} {metadata rebuilt : RootMetadata}

/-! ### The root that is written -/

/-- What a root that passes its checks says. -/
structure RootMetadata.Valid (metadata : RootMetadata) : Prop where
  first : metadata.first ≠ some 0 ∧ metadata.first.getD 0 < 2 ^ 64
  last : metadata.last ≠ some 0 ∧ metadata.last.getD 0 < 2 ^ 64
  freeHead : metadata.freeHead ≠ some 0 ∧ metadata.freeHead.getD 0 < 2 ^ 64
  pageCount : metadata.pageCount < 2 ^ 64
  recordCount : metadata.recordCount < 2 ^ 64
  consistent : metadata.consistent = true
  /-- Where the page has no place for it there is no list of free pages. -/
  fits : 40 ≤ pageSize ∧ (pageSize < 48 → metadata.freeHead = none)

theorem decodeRoot_eq_ok {page : Area} (h : decodeRoot page = .ok metadata) :
    readArea page 0 4 = rootMagic ∧ metadata.Valid := by
  unfold decodeRoot at h
  extract_lets version flags found at h
  split at h
  · cases h
  · rename_i hmagic
    split at h
    · cases h
    · rename_i hsize
      split at h
      · cases h
      · split at h
        · cases h
        · split at h
          · cases h
          · rename_i hconsistent
            have hfirst : found.first = optionalPageId (loadAt page 8 8) := by dsimp only [found]
            have hlast : found.last = optionalPageId (loadAt page 16 8) := by dsimp only [found]
            have hpages : found.pageCount = loadAt page 24 8 := by dsimp only [found]
            have hrecords : found.recordCount = loadAt page 32 8 := by dsimp only [found]
            have hfreeHead : found.freeHead =
                if pageSize < 48 then none else optionalPageId (loadAt page 40 8) := by
              dsimp only [found]
            clear_value found
            rw [← Except.ok.inj h]
            refine ⟨not_not.1 hmagic, ?_, ?_, ?_, ?_, ?_, not_not.1 hconsistent, Nat.not_lt.1 hsize,
              fun hsmall => hfreeHead.trans (if_pos hsmall)⟩
            · rw [hfirst]
              exact optionalPageId_valid (loadAt_lt page 8)
            · rw [hlast]
              exact optionalPageId_valid (loadAt_lt page 16)
            · rw [hfreeHead]
              split
              · exact ⟨nofun, Nat.two_pow_pos 64⟩
              · exact optionalPageId_valid (loadAt_lt page 40)
            · rw [hpages]
              exact loadAt_lt page 24
            · rw [hrecords]
              exact loadAt_lt page 32

theorem decodeRoot_encodeRoot (h : metadata.Valid) :
    readArea (encodeRoot metadata) 0 4 = rootMagic ∧ decodeRoot (encodeRoot metadata) = .ok metadata := by
  have hflags : (if metadata.tagged then rootFlagTagged else 0) < 256 ^ 2 := by
    split <;> decide
  have hread : ∀ k size, k + size ≤ 48 → readArea (encodeRoot metadata) k size =
      ((rootMagic ++ (storeLe 2 rootFormatVersion ++
        (storeLe 2 (if metadata.tagged then rootFlagTagged else 0) ++ (storeLe 8 (metadata.first.getD 0) ++
          (storeLe 8 (metadata.last.getD 0) ++ (storeLe 8 metadata.pageCount ++
            (storeLe 8 metadata.recordCount ++ storeLe 8 (metadata.freeHead.getD 0)))))))).drop k).take
              size := by
    intro k size hk
    have hinside := @readArea_copyTo_inside default 0 k size
      (rootMagic ++ storeLe 2 rootFormatVersion ++
        storeLe 2 (if metadata.tagged then rootFlagTagged else 0) ++ storeLe 8 (metadata.first.getD 0) ++
        storeLe 8 (metadata.last.getD 0) ++ storeLe 8 metadata.pageCount ++
        storeLe 8 metadata.recordCount ++ storeLe 8 (metadata.freeHead.getD 0))
      (by simp only [List.length_append, length_storeLe]; exact hk)
    rw [Nat.zero_add] at hinside
    rw [encodeRoot, hinside]
    simp only [List.append_assoc]
  have hmagic : readArea (encodeRoot metadata) 0 4 = rootMagic := by
    rw [hread 0 4 (by decide), List.drop_zero]
    rfl
  have hfour : rootMagic.length = 4 := rfl
  have hversion : loadAt (encodeRoot metadata) 4 2 = rootFormatVersion := by
    rw [loadAt, hread 4 2 (by decide), List.drop_left' hfour, List.take_left' (length_storeLe 2 _),
      loadLe_storeLe_of_lt (by decide)]
  have htagged : loadAt (encodeRoot metadata) 6 2 = if metadata.tagged then rootFlagTagged else 0 := by
    rw [loadAt, hread 6 2 (by decide), show 6 = 4 + 2 from rfl, ← List.drop_drop, List.drop_left' hfour,
      List.drop_left' (length_storeLe 2 _), List.take_left' (length_storeLe 2 _),
      loadLe_storeLe_of_lt hflags]
  have hfirst : loadAt (encodeRoot metadata) 8 8 = metadata.first.getD 0 := by
    rw [loadAt, hread 8 8 (by decide), show 8 = 4 + 2 + 2 from rfl, ← List.drop_drop, ← List.drop_drop,
      List.drop_left' hfour, List.drop_left' (length_storeLe 2 _), List.drop_left' (length_storeLe 2 _),
      List.take_left' (length_storeLe 8 _), loadLe_storeLe_of_lt h.first.2]
  have hlast : loadAt (encodeRoot metadata) 16 8 = metadata.last.getD 0 := by
    rw [loadAt, hread 16 8 (by decide), show 16 = 4 + 2 + 2 + 8 from rfl, ← List.drop_drop,
      ← List.drop_drop, ← List.drop_drop, List.drop_left' hfour, List.drop_left' (length_storeLe 2 _),
      List.drop_left' (length_storeLe 2 _), List.drop_left' (length_storeLe 8 _),
      List.take_left' (length_storeLe 8 _), loadLe_storeLe_of_lt h.last.2]
  have hpages : loadAt (encodeRoot metadata) 24 8 = metadata.pageCount := by
    rw [loadAt, hread 24 8 (by decide), show 24 = 4 + 2 + 2 + 8 + 8 from rfl, ← List.drop_drop,
      ← List.drop_drop, ← List.drop_drop, ← List.drop_drop, List.drop_left' hfour,
      List.drop_left' (length_storeLe 2 _), List.drop_left' (length_storeLe 2 _),
      List.drop_left' (length_storeLe 8 _), List.drop_left' (length_storeLe 8 _),
      List.take_left' (length_storeLe 8 _), loadLe_storeLe_of_lt h.pageCount]
  have hrecords : loadAt (encodeRoot metadata) 32 8 = metadata.recordCount := by
    rw [loadAt, hread 32 8 (by decide), show 32 = 4 + 2 + 2 + 8 + 8 + 8 from rfl, ← List.drop_drop,
      ← List.drop_drop, ← List.drop_drop, ← List.drop_drop, ← List.drop_drop, List.drop_left' hfour,
      List.drop_left' (length_storeLe 2 _), List.drop_left' (length_storeLe 2 _),
      List.drop_left' (length_storeLe 8 _), List.drop_left' (length_storeLe 8 _),
      List.drop_left' (length_storeLe 8 _), List.take_left' (length_storeLe 8 _),
      loadLe_storeLe_of_lt h.recordCount]
  have hfree : loadAt (encodeRoot metadata) 40 8 = metadata.freeHead.getD 0 := by
    rw [loadAt, hread 40 8 (by decide), show 40 = 4 + 2 + 2 + 8 + 8 + 8 + 8 from rfl, ← List.drop_drop,
      ← List.drop_drop, ← List.drop_drop, ← List.drop_drop, ← List.drop_drop, ← List.drop_drop,
      List.drop_left' hfour, List.drop_left' (length_storeLe 2 _), List.drop_left' (length_storeLe 2 _),
      List.drop_left' (length_storeLe 8 _), List.drop_left' (length_storeLe 8 _),
      List.drop_left' (length_storeLe 8 _), List.drop_left' (length_storeLe 8 _),
      List.take_of_length_le (Nat.le_of_eq (length_storeLe 8 _)), loadLe_storeLe_of_lt h.freeHead.2]
  refine ⟨hmagic, ?_⟩
  have hfreeHead : (if pageSize < 48 then none else optionalPageId (metadata.freeHead.getD 0)) =
      metadata.freeHead := by
    split
    · rename_i hsmall
      rw [h.fits.2 hsmall]
    · exact optionalPageId_getD h.freeHead.1
  have htag : (Decidable.decide ((if metadata.tagged then rootFlagTagged else 0) = rootFlagTagged)) =
      metadata.tagged := by
    cases metadata.tagged <;> decide
  unfold decodeRoot
  dsimp only
  rw [if_neg (not_not.2 hmagic), if_neg (Nat.not_lt.2 h.fits.1), hversion, if_neg (not_not.2 rfl), htagged,
    hfirst, hlast, hpages, hrecords, hfree, optionalPageId_getD h.first.1, optionalPageId_getD h.last.1,
    hfreeHead, htag, if_neg (by cases metadata.tagged <;> decide), if_neg (not_not.2 h.consistent)]

/-! ### The chain that is found -/

theorem rebuild_eq_ok (h : rebuild file metadata = .ok rebuilt) :
    ∃ ids, Chain.Path (nextOf file) metadata.first ids none ∧ Loads file ids ∧
      rebuilt = { metadata with
        last := ids.getLast?, pageCount := ids.length, recordCount := (ids.map (recordsOf file)).sum } := by
  unfold rebuild at h
  cases hfirst : metadata.first with
  | none =>
    rw [hfirst] at h
    cases h
    exact ⟨[], rfl, fun _ hid => absurd hid List.not_mem_nil, rfl⟩
  | some first =>
    rw [hfirst] at h
    dsimp only at h
    cases hvisit : Walk.visit visitCycle (repairTurn file) (pageFuel file) [] first ⟨0, 0, none⟩ with
    | error error =>
      rw [hvisit] at h
      cases h
    | ok final =>
      rw [hvisit] at h
      obtain ⟨ids, hpath, hloads, rfl⟩ := visit_repairTurn.1 hvisit
      cases h
      exact ⟨ids, hpath, hloads, rfl⟩

omit [PageSize] in
theorem nextOf_ne_zero {id : Nat} : nextOf file id ≠ some 0 := by
  unfold nextOf loadTrusted
  cases file.read id with
  | error error => exact nofun
  | ok page =>
    change (SlottedPage.fromTrustedPage page).nextPage ≠ some 0
    rw [SlottedPage.nextPage_fromTrustedPage]
    exact fun heq => optionalPageId_ne_zero heq rfl

omit [PageSize] in
theorem ne_zero_of_path {start : Option Nat} {ids : List Nat} (hstart : start ≠ some 0)
    (h : Chain.Path (nextOf file) start ids none) : 0 ∉ ids := by
  induction ids generalizing start with
  | nil => exact List.not_mem_nil
  | cons id ids ih =>
    rintro (_ | ⟨_, hmem⟩)
    · exact hstart h.1
    · exact ih nextOf_ne_zero h.2 hmem

theorem recordsOf_le {id : Nat} {page : SlottedPage} (h : load file id = .ok page) :
    recordsOf file id * 8 ≤ pageSize := by
  obtain ⟨bytes, -, hpage⟩ := load_eq_ok h
  have hstart := (fromPage_eq_ok hpage).2.2
  have hcount : page.recordCount ≤ page.slots.length := List.countP_le_length
  rw [recordsOf_of_load h]
  unfold SlottedPage.freeStart slottedPageHeaderSize slottedPageSlotSize at hstart
  omega

theorem Loads.records_le {ids : List Nat} (h : Loads file ids) :
    (ids.map (recordsOf file)).sum * 8 ≤ ids.length * pageSize := by
  induction ids with
  | nil => simp
  | cons id ids ih =>
    obtain ⟨⟨page, hload⟩, hrest⟩ := List.forall_mem_cons.1 h
    have hone := recordsOf_le hload
    have hothers := ih hrest
    rw [List.map_cons, List.sum_cons, List.length_cons, Nat.add_mul, Nat.succ_mul]
    omega

theorem valid_rebuilt (hbytes : file.pageCount * pageSize < 2 ^ 64) (hvalid : metadata.Valid)
    (h : rebuild file metadata = .ok rebuilt) : rebuilt.Valid := by
  obtain ⟨ids, hpath, hloads, rfl⟩ := rebuild_eq_ok h
  have hzero := ne_zero_of_path hvalid.first.1 hpath
  have hlength := length_le_pageCount hpath.nodup hloads.lt_pageCount
  have hsize : 28 < pageSize := lt_pageSize
  have hpages : file.pageCount ≤ file.pageCount * pageSize := Nat.le_mul_of_pos_right _ (by omega)
  have hrecords : (ids.map (recordsOf file)).sum * 8 ≤ file.pageCount * pageSize :=
    Nat.le_trans hloads.records_le (Nat.mul_le_mul_right _ hlength)
  have hlast : ids.getLast? ≠ some 0 ∧ ids.getLast?.getD 0 < 2 ^ 64 := by
    cases hcase : ids.getLast? with
    | none => exact ⟨nofun, Nat.two_pow_pos 64⟩
    | some last =>
      have hmem := List.mem_of_getLast? hcase
      have hlt := hloads.lt_pageCount last hmem
      refine ⟨fun heq => hzero (Option.some.inj heq ▸ hmem), ?_⟩
      rw [Option.getD_some]
      omega
  have hconsistent : RootMetadata.consistent { metadata with
      last := ids.getLast?, pageCount := ids.length,
      recordCount := (ids.map (recordsOf file)).sum } = true := by
    unfold RootMetadata.consistent
    cases ids with
    | nil =>
      rw [show metadata.first = none from hpath]
      simp
    | cons id ids =>
      rw [show metadata.first = some id from hpath.1]
      simp [List.getLast?_cons]
  exact ⟨hvalid.first, hlast, hvalid.freeHead, by change ids.length < 2 ^ 64; omega,
    by change (ids.map (recordsOf file)).sum < 2 ^ 64; omega, hconsistent, hvalid.fits⟩

/-! ### The file after it -/

/-- The repair changes no page but the root, and the root becomes the one that was found. -/
structure Rewritten (file file' : PageFile Area) (root : Nat) (metadata rebuilt : RootMetadata) : Prop where
  root_ne : root ≠ 0
  pageCount : file'.pageCount = file.pageCount
  others : ∀ id, id ≠ root → file'.read id = file.read id
  before : ∃ page, file.read root = .ok page ∧ decodeRoot page = .ok metadata
  rebuild : rebuild file metadata = .ok rebuilt
  after : ∃ page, file'.read root = .ok page ∧ decodeRoot page = .ok rebuilt

theorem rewritten_of_repair (hbytes : file.pageCount * pageSize < 2 ^ 64) {report : TableHeapRepairReport}
    (h : repairTableHeap file root = .ok (report, file')) :
    ∃ metadata rebuilt, Rewritten file file' root metadata rebuilt := by
  unfold repairTableHeap at h
  split at h
  · cases h
  · rename_i hroot
    cases hread : file.read root with
    | error error =>
      rw [hread] at h
      cases h
    | ok page =>
      rw [hread] at h
      cases hdecode : decodeRoot page with
      | error error =>
        change (decodeRoot page >>= _) = _ at h
        rw [hdecode] at h
        cases h
      | ok metadata =>
        change (decodeRoot page >>= _) = _ at h
        rw [hdecode] at h
        cases hrebuild : rebuild file metadata with
        | error error =>
          change (rebuild file metadata >>= _) = _ at h
          rw [hrebuild] at h
          cases h
        | ok rebuilt =>
          change (rebuild file metadata >>= _) = _ at h
          rw [hrebuild] at h
          change (if rebuilt = metadata then _ else _) = _ at h
          refine ⟨metadata, rebuilt, ?_⟩
          split at h
          · rename_i hsame
            cases h
            exact ⟨hroot, rfl, fun _ _ => rfl, ⟨page, hread, hdecode⟩, hrebuild,
              ⟨page, hread, by rw [hsame]; exact hdecode⟩⟩
          · cases hwrite : file.write root (encodeRoot rebuilt) with
            | error error =>
              rw [hwrite] at h
              cases h
            | ok written =>
              rw [hwrite] at h
              cases h
              have hvalid := valid_rebuilt hbytes (decodeRoot_eq_ok hdecode).2 hrebuild
              refine ⟨hroot, pageCount_write hwrite, fun id hid => ?_, ⟨page, hread, hdecode⟩, hrebuild,
                ⟨encodeRoot rebuilt, ?_, (decodeRoot_encodeRoot hvalid).2⟩⟩
              · rw [read_write hwrite, if_neg hid]
              · rw [read_write hwrite, if_pos rfl]

theorem repairTableHeap_of_rebuild {page : Area} (hroot : root ≠ 0) (hread : file.read root = .ok page)
    (hdecode : decodeRoot page = .ok metadata) (hrebuild : rebuild file metadata = .ok rebuilt)
    (hne : rebuilt ≠ metadata) (hwrite : file.write root (encodeRoot rebuilt) = .ok file') :
    repairTableHeap file root = .ok (⟨rebuilt.pageCount, rebuilt.recordCount, true⟩, file') := by
  simp only [repairTableHeap, if_neg hroot, hread, Bind.bind, Except.bind, hdecode, hrebuild, if_neg hne,
    hwrite]
  rfl

theorem Loads.root_notMem {ids : List Nat} {page : Area} (h : Loads file ids)
    (hread : file.read root = .ok page) (hdecode : decodeRoot page = .ok metadata) : root ∉ ids := by
  intro hmem
  obtain ⟨slotted, hload⟩ := h root hmem
  obtain ⟨bytes, hbytes, hpage⟩ := load_eq_ok hload
  rw [hread] at hbytes
  cases hbytes
  have hmagic := (fromPage_eq_ok hpage).2.1
  rw [(decodeRoot_eq_ok hdecode).1] at hmagic
  exact absurd hmagic (by decide)

theorem validateOverflowPage_root {page : Area} (h : decodeRoot page = .ok metadata) :
    validateOverflowPage page = .error ⟨.invalidPageFormat, "page is not an overflow page"⟩ := by
  unfold validateOverflowPage
  dsimp only
  rw [(decodeRoot_eq_ok h).1, if_pos (by decide)]

section Rewritten

variable (h : Rewritten file file' root metadata rebuilt) {id : Nat} {ids : List Nat}

include h

theorem Rewritten.loadTrusted_eq (hid : id ≠ root) : loadTrusted file' id = loadTrusted file id := by
  rw [loadTrusted, loadTrusted, h.others id hid]

theorem Rewritten.load_eq (hid : id ≠ root) : load file' id = load file id := by
  rw [load, load, h.others id hid]

theorem Rewritten.nextOf_eq (hid : id ≠ root) : nextOf file' id = nextOf file id := by
  rw [nextOf, nextOf, h.loadTrusted_eq hid]

theorem Rewritten.recordsOf_eq (hid : id ≠ root) : recordsOf file' id = recordsOf file id := by
  rw [recordsOf, recordsOf, h.loadTrusted_eq hid]

theorem Rewritten.backLinked_iff {previous : Option Nat} (hroot : root ∉ ids) :
    BackLinked file' previous ids ↔ BackLinked file previous ids := by
  induction ids generalizing previous with
  | nil => exact Iff.rfl
  | cons id ids ih =>
    have hid : id ≠ root := fun heq => hroot (heq ▸ List.mem_cons_self)
    have hsame : previousOf file' id = previousOf file id := by
      rw [previousOf, previousOf, h.loadTrusted_eq hid]
    rw [BackLinked, BackLinked, hsame, ih fun hmem => hroot (List.mem_cons_of_mem _ hmem)]

theorem Rewritten.chainTurn_eq (total id : Nat) (out : Bytes) :
    TableHeap.chainTurn file' total id out = TableHeap.chainTurn file total id out := by
  by_cases hid : id = root
  · subst hid
    obtain ⟨page, hread, hdecode⟩ := h.before
    obtain ⟨page', hread', hdecode'⟩ := h.after
    rw [TableHeap.chainTurn, TableHeap.chainTurn, hread, hread']
    change (validateOverflowPage page' >>= _) = (validateOverflowPage page >>= _)
    rw [validateOverflowPage_root hdecode, validateOverflowPage_root hdecode']
    rfl
  · rw [TableHeap.chainTurn, TableHeap.chainTurn, h.others id hid]

theorem Rewritten.slotRecord_eq (tagged : Bool) (id : Nat) (page : SlottedPage) (entry : Slot × Nat) :
    TableHeap.slotRecord file' tagged id page entry = TableHeap.slotRecord file tagged id page entry := by
  have hturn : TableHeap.chainTurn file' = TableHeap.chainTurn file := by
    funext total id out
    exact h.chainTurn_eq total id out
  have hchain : TableHeap.readChain file' = TableHeap.readChain file := by
    funext stub
    rw [TableHeap.readChain, TableHeap.readChain, hturn, pageFuel, pageFuel, h.pageCount]
  rw [TableHeap.slotRecord, TableHeap.slotRecord]
  unfold TableHeap.decodeStored
  rw [hchain]

end Rewritten

/-! ### What a repair gives -/

def Readable (file : PageFile Area) (root : Nat) (record : HeapRecord) : Prop :=
  ∃ page metadata ids slotted entry, file.read root = .ok page ∧ decodeRoot page = .ok metadata ∧
    Chain.Path (nextOf file) metadata.first ids none ∧ record.page ∈ ids ∧
    loadTrusted file record.page = .ok slotted ∧ entry ∈ TableHeap.occupiedSlots slotted ∧
    TableHeap.slotRecord file metadata.tagged record.page slotted entry = .ok record

/-- The root names the ends of its chain and counts its pages and records. -/
def RootMatches (file : PageFile Area) (root : Nat) : Prop :=
  ∃ page metadata ids, file.read root = .ok page ∧ decodeRoot page = .ok metadata ∧
    Chain.Path (nextOf file) metadata.first ids none ∧ metadata.last = ids.getLast? ∧
    metadata.pageCount = ids.length ∧ metadata.recordCount = (ids.map (recordsOf file)).sum

structure Repaired (file file' : PageFile Area) (root : Nat) : Prop where
  opens : ∃ heap pages, TableHeap.open file' root = .ok (heap, pages)
  matching : RootMatches file' root
  records : ∀ record, Readable file root record → Readable file' root record

/-- Along the chain each page links back to the one before it, and the first one to none. -/
def LinksBack (file : PageFile Area) (root : Nat) : Prop :=
  ∀ page metadata ids, file.read root = .ok page → decodeRoot page = .ok metadata →
    Chain.Path (nextOf file) metadata.first ids none → BackLinked file none ids

theorem layout_of_path {heap : TableHeap} {ids : List Nat}
    (hpath : Chain.Path (nextOf file) heap.first ids none) (hloads : Loads file ids)
    (hback : BackLinked file none ids) (hlast : heap.last = ids.getLast?) (hpages : heap.pageCount = ids.length)
    (hrecords : heap.recordCount = (ids.map (recordsOf file)).sum) :
    TableHeap.layout file heap = .ok (ids.map (infoOf file)) := by
  unfold TableHeap.layout
  cases hfirst : heap.first with
  | none =>
    rw [hfirst] at hpath
    have hnil : ids = [] := hpath.unique (Chain.path_nil.2 rfl)
    subst hnil
    dsimp only
    rw [if_neg]
    · rfl
    · rintro (hne | hne | hne)
      · exact hne hlast
      · exact hne hpages
      · exact hne hrecords
  | some first =>
    rw [hfirst] at hpath
    dsimp only
    rw [visit_layoutTurn.2 ⟨ids, hpath, hloads, hback, rfl⟩]
    change (if heap.last ≠ ids.getLast? ∨ (ids.map (infoOf file)).length ≠ heap.pageCount ∨
      (ids.map (recordsOf file)).sum ≠ heap.recordCount then _ else _) = _
    rw [if_neg]
    · rfl
    · rintro (hne | hne | hne)
      · exact hne hlast
      · exact hne (by rw [List.length_map, hpages])
      · exact hne hrecords.symm

theorem open_iff_backLinked {page : Area} {ids : List Nat} (hroot : root ≠ 0)
    (hread : file.read root = .ok page) (hdecode : decodeRoot page = .ok metadata)
    (hpath : Chain.Path (nextOf file) metadata.first ids none) (hloads : Loads file ids)
    (hlast : metadata.last = ids.getLast?) (hpages : metadata.pageCount = ids.length)
    (hrecords : metadata.recordCount = (ids.map (recordsOf file)).sum) :
    (∃ heap pages, TableHeap.open file root = .ok (heap, pages)) ↔ BackLinked file none ids := by
  have hopen : TableHeap.open file root =
      ((TableHeap.layout file { metadata with root := root }).map fun pages =>
        ({ metadata with root := root }, pages)) := by
    rw [TableHeap.open, if_neg hroot, hread]
    change (decodeRoot page >>= _) = _
    rw [hdecode]
    rfl
  rw [hopen]
  constructor
  · rintro ⟨heap, pages, h⟩
    cases hfirst : metadata.first with
    | none =>
      rw [hfirst] at hpath
      have hnil : ids = [] := hpath.unique (Chain.path_nil.2 rfl)
      rw [hnil]
      trivial
    | some first =>
      rw [hfirst] at hpath
      rw [TableHeap.layout] at h
      dsimp only at h
      rw [hfirst] at h
      dsimp only at h
      cases hvisit : Walk.visit visitCycle (TableHeap.layoutTurn file) (pageFuel file) [] first
          ⟨none, 0, []⟩ with
      | error error =>
        rw [hvisit] at h
        cases h
      | ok found =>
        obtain ⟨ids', hpath', -, hback, -⟩ := visit_layoutTurn.1 hvisit
        rwa [hpath.unique hpath']
  · intro hback
    rw [@layout_of_path _ _ { metadata with root := root } ids hpath hloads hback hlast hpages hrecords]
    exact ⟨_, _, rfl⟩

/-- A repair that succeeds gives a heap that opens, with all its records, just where the links back were right. -/
theorem repaired_iff (hbytes : file.pageCount * pageSize < 2 ^ 64) {report : TableHeapRepairReport}
    (h : repairTableHeap file root = .ok (report, file')) :
    Repaired file file' root ↔ LinksBack file root := by
  obtain ⟨metadata, rebuilt, hrewritten⟩ := rewritten_of_repair hbytes h
  obtain ⟨ids, hpath, hloads, hrebuilt⟩ := rebuild_eq_ok hrewritten.rebuild
  obtain ⟨page, hread, hdecode⟩ := hrewritten.before
  obtain ⟨page', hread', hdecode'⟩ := hrewritten.after
  have hroot := hloads.root_notMem hread hdecode
  have hother : ∀ id ∈ ids, id ≠ root := fun id hid heq => hroot (heq ▸ hid)
  have hpath' : Chain.Path (nextOf file') rebuilt.first ids none := by
    rw [hrebuilt]
    exact hpath.congr fun id hid => hrewritten.nextOf_eq (hother id hid)
  have hloads' : Loads file' ids := by
    intro id hid
    rw [hrewritten.load_eq (hother id hid)]
    exact hloads id hid
  have hlast : rebuilt.last = ids.getLast? := by rw [hrebuilt]
  have hpages : rebuilt.pageCount = ids.length := by rw [hrebuilt]
  have hrecords : rebuilt.recordCount = (ids.map (recordsOf file')).sum := by
    rw [hrebuilt]
    exact congrArg List.sum (List.map_congr_left fun id hid =>
      (hrewritten.recordsOf_eq (hother id hid)).symm)
  have hopens := open_iff_backLinked hrewritten.root_ne hread' hdecode' hpath' hloads' hlast hpages hrecords
  have hback : BackLinked file none ids ↔ LinksBack file root := by
    constructor
    · rintro hback page₁ metadata₁ ids₁ hread₁ hdecode₁ hpath₁
      rw [hread] at hread₁
      cases hread₁
      rw [hdecode] at hdecode₁
      cases hdecode₁
      rwa [hpath₁.unique hpath]
    · exact fun hlinks => hlinks page metadata ids hread hdecode hpath
  rw [← hback, ← hrewritten.backLinked_iff hroot, ← hopens]
  refine ⟨Repaired.opens, fun hopen => ⟨hopen, ?_, ?_⟩⟩
  · exact ⟨page', rebuilt, ids, hread', hdecode', hpath', hlast, hpages, hrecords⟩
  · rintro record ⟨page₁, metadata₁, ids₁, slotted, entry, hread₁, hdecode₁, hpath₁, hmem, hload, hentry,
      hrecord⟩
    rw [hread] at hread₁
    cases hread₁
    rw [hdecode] at hdecode₁
    cases hdecode₁
    obtain rfl := hpath₁.unique hpath
    refine ⟨page', rebuilt, ids₁, slotted, entry, hread', hdecode', hpath', hmem, ?_, hentry, ?_⟩
    · rw [hrewritten.loadTrusted_eq (hother _ hmem)]
      exact hload
    · rw [hrewritten.slotRecord_eq, hrebuilt]
      exact hrecord

def recordPage (next previous : Nat) : Area :=
  copyTo (copyTo default 0 (slottedMagic ++ [4, 0] ++ storeLe 2 1 ++ storeLe 2 36 ++ storeLe 2 8187 ++
    storeLe 8 next ++ storeLe 8 previous ++ storeLe 2 8187 ++ storeLe 2 5 ++ storeLe 2 5 ++ storeLe 2 1))
    8187 [0, 1, 2, 3, 4]

/-- A heap with two such pages, and counts and a last page that are wrong. -/
def countedFile : PageFile Area where
  data := ⟨4, none, fun id =>
    if id = 1 then encodeRoot ⟨some 2, some 2, 7, 9, none, true⟩
    else if id = 2 then recordPage 3 0
    else recordPage 0 2, 4⟩
  pageCount := 4
  catalogRoot := none

omit [PageSize] in
theorem fromPage_recordPage {page : Area} (hpage : page = recordPage 3 0 ∨ page = recordPage 0 2) :
    @SlottedPage.fromPage PageSize.default page = .ok (.fromTrustedPage page) := by
  have hslots : (SlottedPage.fromTrustedPage page).slots = [⟨8187, 5, 5, 1⟩] := by
    rcases hpage with rfl | rfl <;> decide +kernel
  have hend : (SlottedPage.fromTrustedPage page).freeEnd = 8187 := by
    rcases hpage with rfl | rfl <;> decide +kernel
  have hheader : readArea page 0 4 = slottedMagic ∧ loadAt page 4 1 = 4 ∧ loadAt page 8 2 = 36 := by
    rcases hpage with rfl | rfl <;> decide +kernel
  have hstart : (SlottedPage.fromTrustedPage page).freeStart = 36 := by
    rw [SlottedPage.freeStart, hslots]
    rfl
  have hvalid : @SlottedPage.validate PageSize.default (.fromTrustedPage page) = .ok () := by
    have hcheck : @SlottedPage.checkSlots PageSize.default 8187 [⟨8187, 5, 5, 1⟩] =
        .ok [⟨8187, 8192⟩] := rfl
    unfold SlottedPage.validate
    rw [hstart, hend, hslots, hcheck]
    dsimp only
    rw [List.mergeSort_singleton]
    decide
  unfold SlottedPage.fromPage
  dsimp only
  rw [if_neg (not_not.2 hheader.1), hheader.2.1, hheader.2.2, hstart, hvalid]
  rfl

omit [PageSize] in
/-- The repair finds both pages and both records. -/
theorem repaired_countedFile : letI := PageSize.default
    ∃ report file', repairTableHeap countedFile 1 = .ok (report, file') ∧
      report = ⟨2, 2, true⟩ ∧ Repaired countedFile file' 1 := by
  let _ := PageSize.default
  have hread2 : countedFile.read 2 = .ok (recordPage 3 0) := rfl
  have hread3 : countedFile.read 3 = .ok (recordPage 0 2) := rfl
  have hloads : Loads countedFile [2, 3] := by
    intro id hid
    rcases List.mem_pair.1 hid with rfl | rfl
    · exact ⟨_, load_of_read hread2 (fromPage_recordPage (.inl rfl))⟩
    · exact ⟨_, load_of_read hread3 (fromPage_recordPage (.inr rfl))⟩
  have hpath : Chain.Path (nextOf countedFile) (some 2) [2, 3] none := by
    have hnext2 : nextOf countedFile 2 = some 3 := by
      change (SlottedPage.fromTrustedPage (recordPage 3 0)).nextPage = some 3
      decide +kernel
    have hnext3 : nextOf countedFile 3 = none := by
      change (SlottedPage.fromTrustedPage (recordPage 0 2)).nextPage = none
      decide +kernel
    refine ⟨rfl, ?_⟩
    rw [hnext2]
    exact ⟨rfl, hnext3⟩
  have hrecords : ([2, 3].map (recordsOf countedFile)) = [1, 1] := by
    change [(SlottedPage.fromTrustedPage (recordPage 3 0)).recordCount,
      (SlottedPage.fromTrustedPage (recordPage 0 2)).recordCount] = [1, 1]
    decide +kernel
  have hvisit := visit_repairTurn.2 ⟨[2, 3], hpath, hloads, rfl⟩
  have hrebuild : rebuild countedFile ⟨some 2, some 2, 7, 9, none, true⟩ =
      .ok ⟨some 2, some 3, 2, 2, none, true⟩ := by
    unfold rebuild
    dsimp only
    rw [hvisit, hrecords]
    rfl
  have hread : countedFile.read 1 = .ok (encodeRoot ⟨some 2, some 2, 7, 9, none, true⟩) := rfl
  have hdecode : decodeRoot (encodeRoot ⟨some 2, some 2, 7, 9, none, true⟩) =
      .ok ⟨some 2, some 2, 7, 9, none, true⟩ := rfl
  have hwrite : countedFile.write 1 (encodeRoot ⟨some 2, some 3, 2, 2, none, true⟩) =
      .ok (countedFile.perform (.writePage 1 (encodeRoot ⟨some 2, some 3, 2, 2, none, true⟩))) := rfl
  have hrepair := repairTableHeap_of_rebuild Nat.one_ne_zero hread hdecode hrebuild (by decide) hwrite
  refine ⟨_, _, hrepair, rfl, (repaired_iff (by decide) hrepair).2 ?_⟩
  intro page metadata ids hpage hmetadata hids
  rw [hread] at hpage
  cases hpage
  rw [hdecode] at hmetadata
  cases hmetadata
  obtain rfl := hids.unique hpath
  have hprevious2 : previousOf countedFile 2 = none := by
    change (SlottedPage.fromTrustedPage (recordPage 3 0)).previousPage = none
    decide +kernel
  have hprevious3 : previousOf countedFile 3 = some 2 := by
    change (SlottedPage.fromTrustedPage (recordPage 0 2)).previousPage = some 2
    decide +kernel
  exact ⟨hprevious2, hprevious3, trivial⟩
/-- A page with no records that links back to a page that is none of its chain. -/
def strayPage : Area :=
  copyTo default 0 (slottedMagic ++ [4, 0] ++ storeLe 2 0 ++ storeLe 2 28 ++ storeLe 2 8192 ++
    storeLe 8 0 ++ storeLe 8 7)

def strayFile : PageFile Area where
  data := ⟨3, none, fun id => if id = 1 then encodeRoot ⟨some 2, some 2, 1, 5, none, true⟩ else strayPage, 3⟩
  pageCount := 3
  catalogRoot := none

omit [PageSize] in
theorem repair_leaves_link : letI := PageSize.default
    ∃ report file', repairTableHeap strayFile 1 = .ok (report, file') ∧ ¬Repaired strayFile file' 1 := by
  let repaired := strayFile.perform (.writePage 1 (encodeRoot ⟨some 2, some 2, 1, 0, none, true⟩))
  have hpage : @SlottedPage.fromPage PageSize.default strayPage = .ok (.fromTrustedPage strayPage) :=
    @SlottedPage.fromPage_of_empty PageSize.default _ rfl rfl rfl rfl (by decide)
  have hloads : ∀ file : PageFile Area, file.read 2 = .ok strayPage → @Loads PageSize.default file [2] := by
    intro file hread id hid
    rw [List.mem_singleton.1 hid]
    exact ⟨_, @load_of_read PageSize.default _ _ _ _ hread hpage⟩
  have hvisit := (@visit_repairTurn PageSize.default strayFile 2 _).2
    ⟨[2], ⟨rfl, rfl⟩, hloads strayFile rfl, rfl⟩
  have hrebuild : @rebuild PageSize.default strayFile ⟨some 2, some 2, 1, 5, none, true⟩ =
      .ok ⟨some 2, some 2, 1, 0, none, true⟩ := by
    unfold rebuild
    dsimp only
    rw [hvisit]
    rfl
  have hdecode : @decodeRoot PageSize.default (encodeRoot ⟨some 2, some 2, 1, 5, none, true⟩) =
      .ok ⟨some 2, some 2, 1, 5, none, true⟩ := rfl
  have hdecode' : @decodeRoot PageSize.default (encodeRoot ⟨some 2, some 2, 1, 0, none, true⟩) =
      .ok ⟨some 2, some 2, 1, 0, none, true⟩ := rfl
  have hread : strayFile.read 1 = .ok (encodeRoot ⟨some 2, some 2, 1, 5, none, true⟩) := rfl
  have hread' : repaired.read 1 = .ok (encodeRoot ⟨some 2, some 2, 1, 0, none, true⟩) := rfl
  have hwrite : strayFile.write 1 (encodeRoot ⟨some 2, some 2, 1, 0, none, true⟩) = .ok repaired := rfl
  have hrepair := @repairTableHeap_of_rebuild PageSize.default _ _ _ _ _ _ Nat.one_ne_zero hread hdecode
    hrebuild (by decide) hwrite
  refine ⟨_, _, hrepair, fun h => ?_⟩
  have hlink : previousOf repaired 2 = some 7 := by
    change (SlottedPage.fromTrustedPage strayPage).previousPage = some 7
    decide +kernel
  have hend : nextOf repaired 2 = none := by
    change (SlottedPage.fromTrustedPage strayPage).nextPage = none
    decide +kernel
  have hpath : Chain.Path (nextOf repaired) (some 2) [2] none := ⟨rfl, hend⟩
  have hopens := @open_iff_backLinked PageSize.default repaired 1 ⟨some 2, some 2, 1, 0, none, true⟩ _ [2]
    Nat.one_ne_zero hread' hdecode' hpath (hloads repaired rfl) rfl rfl rfl
  have hback := (hopens.1 (@Repaired.opens PageSize.default _ _ _ h)).1
  rw [hlink] at hback
  cases hback

end MoDb.Storage
