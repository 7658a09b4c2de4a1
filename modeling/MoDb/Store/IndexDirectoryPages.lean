import MoDb.Store.IndexDirectory
import MoDb.Store.BlobChains

/-!
# The pages of the directory of indexes

The entries of a page that fit it are read back, and a list of entries is packed into pages that they fit.
-/

namespace MoDb.IndexCatalog

open Storage Store Effect

theorem length_writeEntry (info : IndexInfo) : (writeEntry info).length = entryBytes info := by
  simp only [writeEntry, entryBytes, List.length_append, length_storeLe]

variable [PageSize]

def FitsPage (entries : List IndexInfo) : Prop :=
  headerSize + (entries.flatMap writeEntry).length ≤ pageSize

theorem length_le_of_fitsPage {entries : List IndexInfo} (h : FitsPage entries) :
    entries.length * 12 + headerSize ≤ pageSize := by
  have hlength : entries.length * 12 ≤ (entries.flatMap writeEntry).length := by
    clear h
    induction entries with
    | nil => exact Nat.zero_le _
    | cons info entries ih =>
      rw [List.flatMap_cons, List.length_append, length_writeEntry, List.length_cons]
      unfold entryBytes
      omega
  unfold FitsPage at h
  omega

omit [PageSize] in
theorem readArea_entries {entries : List IndexInfo} {next k size : Nat}
    (h : k + size ≤ (entries.flatMap writeEntry).length) :
    readArea (directoryPage entries next) (headerSize + k) size =
      ((entries.flatMap writeEntry).drop k).take size := readArea_copyTo_inside h

omit [PageSize] in
theorem readArea_header {entries : List IndexInfo} {next k size : Nat} (h : k + size ≤ headerSize) :
    readArea (directoryPage entries next) k size =
      ((ixdrMagic ++ storeLe 2 ixdrVersion ++ storeLe 2 entries.length ++ storeLe 8 next).drop k).take
        size := by
  have hlength : (ixdrMagic ++ storeLe 2 ixdrVersion ++ storeLe 2 entries.length ++
      storeLe 8 next).length = headerSize := by
    simp only [List.length_append, length_storeLe]
    rfl
  have hinside := @readArea_copyTo_inside default 0 k size
    (ixdrMagic ++ storeLe 2 ixdrVersion ++ storeLe 2 entries.length ++ storeLe 8 next)
    (by rw [hlength]; exact h)
  rw [Nat.zero_add] at hinside
  rw [← hinside]
  exact readArea_copyTo_of_disjoint (.inl h)

theorem parseEntries_directoryPage {before entries : List IndexInfo} {next : Nat}
    (h : FitsPage (before ++ entries)) :
    parseEntries (directoryPage (before ++ entries) next) entries.length
      (headerSize + (before.flatMap writeEntry).length) = .ok entries := by
  induction entries generalizing before with
  | nil => rfl
  | cons info entries ih =>
    have hbytes : (before ++ info :: entries).flatMap writeEntry =
        before.flatMap writeEntry ++ (writeEntry info ++ entries.flatMap writeEntry) := by
      rw [List.flatMap_append, List.flatMap_cons]
    have hfits := h
    unfold FitsPage at hfits
    rw [hbytes, List.length_append, List.length_append, length_writeEntry] at hfits
    have hentry : entryBytes info = 2 + info.typeName.length + 2 + 8 := rfl
    have hupper : pageSize ≤ 65535 := PageSize.upper
    have hname : info.typeName.length < 256 ^ 2 := by
      unfold headerSize at hfits
      omega
    -- a part of the entry, wherever it stands in it
    have hpart : ∀ k size, k + size ≤ entryBytes info →
        readArea (directoryPage (before ++ info :: entries) next)
          (headerSize + (before.flatMap writeEntry).length + k) size =
            ((writeEntry info).drop k).take size := by
      intro k size hk
      have hinside : (before.flatMap writeEntry).length + k + size ≤
          ((before ++ info :: entries).flatMap writeEntry).length := by
        rw [hbytes, List.length_append, List.length_append, length_writeEntry]
        omega
      rw [Nat.add_assoc, readArea_entries hinside, hbytes, ← List.drop_drop, List.drop_left,
        List.drop_append_of_le_length (by rw [length_writeEntry]; omega),
        List.take_append_of_le_length (by rw [List.length_drop, length_writeEntry]; omega)]
    have hwrite : writeEntry info = storeLe 2 info.typeName.length ++ (info.typeName ++
        (storeLe 2 info.fieldId.toNat ++ storeLe 8 info.root.toNat)) := by
      simp only [writeEntry, List.append_assoc]
    have hlengthPart : loadAt (directoryPage (before ++ info :: entries) next)
        (headerSize + (before.flatMap writeEntry).length) 2 = info.typeName.length := by
      have hread := hpart 0 2 (by omega)
      rw [Nat.add_zero, List.drop_zero, hwrite, List.take_left' (length_storeLe 2 _)] at hread
      rw [loadAt, hread, loadLe_storeLe_of_lt hname]
    have hnamePart := hpart 2 info.typeName.length (by omega)
    rw [hwrite, List.drop_left' (length_storeLe 2 _), List.take_left] at hnamePart
    have hfieldPart : loadAt (directoryPage (before ++ info :: entries) next)
        (headerSize + (before.flatMap writeEntry).length + 2 + info.typeName.length) 2 =
          info.fieldId.toNat := by
      have hread := hpart (2 + info.typeName.length) 2 (by omega)
      rw [hwrite, ← List.drop_drop, List.drop_left' (length_storeLe 2 _), List.drop_left,
        List.take_left' (length_storeLe 2 _), ← Nat.add_assoc] at hread
      rw [loadAt, hread, loadLe_storeLe_of_lt info.fieldId.toNat_lt]
    have hrootPart : loadAt (directoryPage (before ++ info :: entries) next)
        (headerSize + (before.flatMap writeEntry).length + 2 + info.typeName.length + 2) 8 =
          info.root.toNat := by
      have hread := hpart (2 + (info.typeName.length + 2)) 8 (by omega)
      rw [hwrite, ← List.drop_drop, List.drop_left' (length_storeLe 2 _), ← List.drop_drop,
        List.drop_left, List.drop_left' (length_storeLe 2 _), List.take_of_length_le
          (Nat.le_of_eq (length_storeLe 8 _)), ← Nat.add_assoc, ← Nat.add_assoc] at hread
      rw [loadAt, hread, loadLe_storeLe_of_lt info.root.toNat_lt]
    have hrest := @ih (before ++ [info]) (by rw [List.append_assoc]; exact h)
    have hnext : headerSize + ((before ++ [info]).flatMap writeEntry).length =
        headerSize + (before.flatMap writeEntry).length + 2 + info.typeName.length + 2 + 8 := by
      rw [List.flatMap_append, List.length_append, List.flatMap_singleton, length_writeEntry]
      omega
    rw [hnext, List.append_assoc] at hrest
    rw [List.length_cons, parseEntries, if_neg (by omega)]
    simp only [hlengthPart]
    rw [if_neg (by omega), hnamePart, hfieldPart, hrootPart]
    change (parseEntries _ entries.length _ >>= _) = _
    rw [show before ++ info :: entries = before ++ ([info] ++ entries) from rfl, hrest]
    simp [Bind.bind, Except.bind, Pure.pure, Except.pure]

theorem parseDirectoryPage_directoryPage {entries : List IndexInfo} {next : Nat}
    (h : FitsPage entries) (hnext : next < 2 ^ 64) :
    parseDirectoryPage (directoryPage entries next) = .ok (entries, next) := by
  have hupper : pageSize ≤ 65535 := PageSize.upper
  have hcount : entries.length < 256 ^ 2 := by
    have hle := length_le_of_fitsPage h
    omega
  have hmagic : readArea (directoryPage entries next) 0 4 = ixdrMagic := by
    rw [readArea_header (by decide), List.drop_zero]
    rfl
  have hheader : ixdrMagic ++ storeLe 2 ixdrVersion ++ storeLe 2 entries.length ++ storeLe 8 next =
      ixdrMagic ++ (storeLe 2 ixdrVersion ++ (storeLe 2 entries.length ++ storeLe 8 next)) := by
    rw [List.append_assoc, List.append_assoc]
  have hfour : ixdrMagic.length = 4 := rfl
  have hversion : loadAt (directoryPage entries next) 4 2 = ixdrVersion := by
    rw [loadAt, readArea_header (by decide), hheader, List.drop_left' hfour,
      List.take_left' (length_storeLe 2 _), loadLe_storeLe_of_lt (by decide)]
  have hentries : loadAt (directoryPage entries next) 6 2 = entries.length := by
    rw [loadAt, readArea_header (by decide), hheader, show 6 = 4 + 2 from rfl, ← List.drop_drop,
      List.drop_left' hfour, List.drop_left' (length_storeLe 2 _), List.take_left' (length_storeLe 2 _),
      loadLe_storeLe_of_lt hcount]
  have hlink : loadAt (directoryPage entries next) offNext 8 = next := by
    rw [loadAt, offNext, readArea_header (by decide), hheader, show 8 = 4 + 2 + 2 from rfl,
      ← List.drop_drop, ← List.drop_drop, List.drop_left' hfour, List.drop_left' (length_storeLe 2 _),
      List.drop_left' (length_storeLe 2 _), List.take_of_length_le (Nat.le_of_eq (length_storeLe 8 _)),
      loadLe_storeLe_of_lt hnext]
  have hparse := @parseEntries_directoryPage _ [] entries next h
  unfold parseDirectoryPage
  rw [if_neg (not_not.2 hmagic), if_neg (not_not.2 hversion), hentries, hlink]
  change (parseEntries _ entries.length headerSize >>= _) = _
  rw [List.nil_append] at hparse
  rw [show headerSize = headerSize + (([] : List IndexInfo).flatMap writeEntry).length from rfl, hparse]
  rfl

/-! ### Packing -/

theorem packLoop_ok {infos last : List IndexInfo} {pages packed : List (List IndexInfo)} {used : Nat}
    (hpages : ∀ entries ∈ pages, FitsPage entries) (hlast : FitsPage last)
    (hused : used = headerSize + (last.flatMap writeEntry).length)
    (h : packLoop infos pages last used = .ok packed) :
    packed.flatten = pages.flatten ++ last ++ infos ∧ (∀ entries ∈ packed, FitsPage entries) ∧
      packed ≠ [] := by
  induction infos generalizing pages last used with
  | nil =>
    cases h
    refine ⟨by simp, fun entries hentries => ?_, by simp⟩
    rcases List.mem_append.1 hentries with hentries | hentries
    · exact hpages entries hentries
    · rwa [List.mem_singleton.1 hentries]
  | cons info infos ih =>
    rw [packLoop] at h
    split at h
    · contradiction
    · rename_i hfits
      have hlower : 28 < pageSize := lt_pageSize
      split at h
      · have hsingle : FitsPage [info] := by
          unfold FitsPage
          rw [List.flatMap_singleton, length_writeEntry]
          unfold headerSize at hfits ⊢
          omega
        have hpages' : ∀ entries ∈ pages ++ [last], FitsPage entries := by
          intro entries hentries
          rcases List.mem_append.1 hentries with hentries | hentries
          · exact hpages entries hentries
          · rwa [List.mem_singleton.1 hentries]
        obtain ⟨hflatten, hrest⟩ := ih hpages' hsingle
          (by rw [List.flatMap_singleton, length_writeEntry]) h
        refine ⟨?_, hrest⟩
        rw [hflatten]
        simp
      · rename_i hroom
        have hlast' : headerSize + ((last ++ [info]).flatMap writeEntry).length =
            used + entryBytes info := by
          rw [List.flatMap_append, List.length_append, List.flatMap_singleton, length_writeEntry, hused,
            Nat.add_assoc]
        have hfits' : FitsPage (last ++ [info]) := by
          rw [FitsPage, hlast']
          exact Nat.not_lt.1 hroom
        obtain ⟨hflatten, hrest⟩ := ih hpages hfits' hlast'.symm h
        refine ⟨?_, hrest⟩
        rw [hflatten]
        simp

theorem pack_ok {indexes : List IndexInfo} {pages : List (List IndexInfo)}
    (h : pack indexes = .ok pages) : pages.flatten = indexes ∧ (∀ entries ∈ pages, FitsPage entries) ∧
      pages ≠ [] := by
  have hlower : 28 < pageSize := lt_pageSize
  have hnil : FitsPage [] := by
    unfold FitsPage headerSize
    simp only [List.flatMap_nil, List.length_nil]
    omega
  have hpacked := packLoop_ok (fun _ hentries => absurd hentries List.not_mem_nil) hnil rfl h
  rwa [List.flatten_nil, List.nil_append, List.nil_append] at hpacked

theorem packLoop_of_le {infos last : List IndexInfo} {pages : List (List IndexInfo)} {used : Nat}
    (h : ∀ info ∈ infos, entryBytes info ≤ pageSize - headerSize) :
    ∃ packed, packLoop infos pages last used = .ok packed := by
  induction infos generalizing pages last used with
  | nil => exact ⟨_, rfl⟩
  | cons info infos ih =>
    rw [packLoop, if_neg (Nat.not_lt.2 (h info List.mem_cons_self))]
    have hrest : ∀ other ∈ infos, entryBytes other ≤ pageSize - headerSize :=
      fun other hother => h other (List.mem_cons_of_mem _ hother)
    split
    · exact ih hrest
    · exact ih hrest

theorem entryBytes_le_of_fitsPage {entries : List IndexInfo} (h : FitsPage entries) {info : IndexInfo}
    (hinfo : info ∈ entries) : entryBytes info ≤ pageSize - headerSize := by
  obtain ⟨before, after, rfl⟩ := List.append_of_mem hinfo
  have hflat : ((before ++ info :: after).flatMap writeEntry).length =
      (before.flatMap writeEntry).length + (entryBytes info + (after.flatMap writeEntry).length) := by
    rw [List.flatMap_append, List.length_append, List.flatMap_cons, List.length_append, length_writeEntry]
  unfold FitsPage at h
  omega

theorem pack_ok_iff {indexes : List IndexInfo} :
    (∃ pages, pack indexes = .ok pages) ↔ ∀ info ∈ indexes, entryBytes info ≤ pageSize - headerSize := by
  constructor
  · rintro ⟨pages, hpack⟩ info hinfo
    obtain ⟨rfl, hfits, -⟩ := pack_ok hpack
    obtain ⟨entries, hentries, hmem⟩ := List.mem_flatten.1 hinfo
    exact entryBytes_le_of_fitsPage (hfits entries hentries) hmem
  · exact packLoop_of_le

/-! ### The chain in the file -/

/-- The pages of the chain: each with its entries and the id of the next one. -/
def directoryPages : List Nat → List (List IndexInfo) → List (Nat × Area)
  | id :: ids, entries :: pages =>
    (id, directoryPage entries (ids.headD 0)) :: directoryPages ids pages
  | _, _ => []

variable {tx : Bool} {file : PageFile Area} {frame : Multiset (Nat × Area)}

omit [PageSize] in
theorem held_writePages {old : List (Nat × Area)} {pages : List (List IndexInfo)}
    (hlength : old.length = pages.length) (h : Held tx file (↑old + frame)) :
    ∃ file', writePages (old.map Prod.fst) pages file = .ok () file' ∧
      Held tx file' (↑(directoryPages (old.map Prod.fst) pages) + frame) := by
  induction old generalizing file frame pages with
  | nil => exact ⟨file, rfl, h⟩
  | cons page old ih =>
    obtain ⟨entries, pages, rfl⟩ := List.exists_cons_of_length_eq_add_one hlength.symm
    rw [cons_add] at h
    obtain ⟨file₁, hwrite, h₁⟩ := h.write (directoryPage entries ((old.map Prod.fst).headD 0))
    obtain ⟨file₂, hrest, h₂⟩ := ih (Nat.succ.inj hlength) (h₁.of_eq (add_left_comm _ _ _))
    refine ⟨file₂, ?_, h₂.of_eq ?_⟩
    · rw [List.map_cons, writePages, bind_of_ok hwrite]
      exact hrest
    · rw [List.map_cons, directoryPages, cons_add, add_left_comm]

theorem held_openLoop {directory : Nat} {ids : List Nat} {pages : List (List IndexInfo)}
    (hlength : ids.length = pages.length) (hfits : ∀ entries ∈ pages, FitsPage entries)
    (h : Held tx file (↑(directoryPages ids pages) + frame)) {rounds : Nat}
    (hrounds : ids.length < rounds) (indexes : List IndexInfo) (overflow : List Nat) :
    openLoop directory rounds (ids.headD 0) indexes overflow file =
      .ok (some (indexes ++ pages.flatten, overflow ++ ids.filter (· ≠ directory))) file := by
  induction ids generalizing pages rounds frame indexes overflow with
  | nil =>
    obtain rfl : pages = [] := List.length_eq_zero_iff.1 hlength.symm
    cases rounds with
    | zero => exact absurd hrounds (Nat.not_lt_zero _)
    | succ rounds => simp [openLoop]
  | cons id ids ih =>
    obtain ⟨entries, pages, rfl⟩ := List.exists_cons_of_length_eq_add_one hlength.symm
    cases rounds with
    | zero => exact absurd hrounds (Nat.not_lt_zero _)
    | succ rounds =>
      rw [directoryPages, cons_add] at h
      have hmem : (id, directoryPage entries (ids.headD 0)) ∈
          ({(id, directoryPage entries (ids.headD 0))} +
            (↑(directoryPages ids pages) + frame) : Multiset (Nat × Area)) := by simp
      obtain ⟨hid, hread⟩ := h.read hmem
      have hnext : ids.headD 0 < 2 ^ 64 := by
        cases ids with
        | nil => exact Nat.two_pow_pos 64
        | cons next ids =>
          obtain ⟨entries', pages, rfl⟩ :=
            List.exists_cons_of_length_eq_add_one (Nat.succ.inj hlength).symm
          have hmem' : (next, directoryPage entries' (ids.headD 0)) ∈
              ({(id, directoryPage entries next)} +
                (↑(directoryPages (next :: ids) (entries' :: pages)) + frame) :
                  Multiset (Nat × Area)) := by simp [directoryPages]
          exact h.id_lt hmem'
      have hparse := parseDirectoryPage_directoryPage (hfits entries List.mem_cons_self) hnext
      have hrest := ih (Nat.succ.inj hlength)
        (fun other hother => hfits other (List.mem_cons_of_mem _ hother))
        (h.of_eq (add_left_comm _ _ _)) (Nat.lt_of_succ_lt_succ hrounds) (indexes ++ entries)
        (if id ≠ directory then overflow ++ [id] else overflow)
      rw [List.headD_cons, openLoop, if_neg hid, bind_of_ok hread, hparse]
      change openLoop directory rounds (ids.headD 0) (indexes ++ entries)
        (if id ≠ directory then overflow ++ [id] else overflow) file = _
      rw [hrest, List.flatten_cons, List.append_assoc]
      by_cases hsame : id = directory
      · rw [if_neg (not_not.2 hsame), List.filter_cons_of_neg (by simpa using hsame)]
      · rw [if_pos hsame, List.filter_cons_of_pos (by simpa using hsame), List.append_assoc]
        rfl

end MoDb.IndexCatalog
