import MoDb.Storage.HeapChain
import MoDb.Storage.SlottedRuns
import MoDb.Lib.Wire

/-!
# The bytes of a slotted page

The operations change the header and the directory in the page itself; here they are stored over the bytes
of the records when the page is written. The signature and the version stay as they were read.
-/

namespace MoDb.Storage

/-- `write_slot`. -/
def Slot.image (slot : Slot) : Bytes :=
  storeLe 2 slot.offset ++ storeLe 2 slot.size ++ storeLe 2 slot.capacity ++ storeLe 2 slot.generation

theorem Slot.length_image (slot : Slot) : slot.image.length = slottedPageSlotSize := by
  simp only [Slot.image, List.length_append, length_storeLe]
  rfl

namespace SlottedPage

def directory (page : SlottedPage) : Bytes :=
  storeLe 2 page.slots.length ++ (storeLe 2 page.freeStart ++ (storeLe 2 page.freeEnd ++
    (storeLe 8 (page.nextPage.getD 0) ++ (storeLe 8 (page.previousPage.getD 0) ++
      page.slots.flatMap Slot.image))))

/-- `SlottedPage::page`. -/
def page (slotted : SlottedPage) : Area := copyTo slotted.area 6 slotted.directory

/-- The signature and a version that `validate_page` accepts. -/
structure Signed (area : Area) : Prop where
  magic : readArea area 0 4 = slottedMagic
  version : loadAt area 4 1 = slottedPageFormatVersion ∨ loadAt area 4 1 = 3

/-- The links are page ids. -/
structure Linkable (slotted : SlottedPage) : Prop where
  next : slotted.nextPage ≠ some 0 ∧ slotted.nextPage.getD 0 < 2 ^ 64
  previous : slotted.previousPage ≠ some 0 ∧ slotted.previousPage.getD 0 < 2 ^ 64

variable {slotted : SlottedPage}

/-! ### The directory is read back -/

theorem length_directory (slotted : SlottedPage) : 6 + slotted.directory.length = slotted.freeStart := by
  simp only [directory, List.length_append, length_storeLe, Wire.length_flatMap Slot.length_image, freeStart]
  unfold slottedPageHeaderSize
  omega

theorem page_of_lt (slotted : SlottedPage) {i : Nat} (hi : i < 6) : slotted.page i = slotted.area i :=
  copyTo_of_outside (.inl hi)

theorem page_of_le (slotted : SlottedPage) {i : Nat} (hi : slotted.freeStart ≤ i) :
    slotted.page i = slotted.area i := by
  apply copyTo_of_outside
  right
  rw [length_directory]
  exact hi

theorem signed_page (h : Signed slotted.area) : Signed slotted.page where
  magic := by
    rw [readArea_congr fun i _ hi => slotted.page_of_lt (by omega)]
    exact h.magic
  version := by
    rw [loadAt, readArea_congr fun i _ hi => slotted.page_of_lt (by omega)]
    exact h.version

theorem readArea_page (slotted : SlottedPage) {k size : Nat} (h : 6 + k + size ≤ slotted.freeStart) :
    readArea slotted.page (6 + k) size = (slotted.directory.drop k).take size := by
  apply readArea_copyTo_inside
  have hlength := slotted.length_directory
  omega

theorem drop_flatMap_image {slots : List Slot} {i : Nat} {slot : Slot} (hslot : slots[i]? = some slot) :
    ∃ rest, (slots.flatMap Slot.image).drop (i * slottedPageSlotSize) = slot.image ++ rest := by
  obtain ⟨hi, rfl⟩ := List.getElem?_eq_some_iff.1 hslot
  refine ⟨(slots.drop (i + 1)).flatMap Slot.image, ?_⟩
  have hsplit : slots.flatMap Slot.image = (slots.take i).flatMap Slot.image ++
      (slots[i].image ++ (slots.drop (i + 1)).flatMap Slot.image) := by
    rw [← List.flatMap_cons, ← List.drop_eq_getElem_cons hi, ← List.flatMap_append, List.take_append_drop]
  rw [hsplit, List.drop_left']
  rw [Wire.length_flatMap Slot.length_image, List.length_take, Nat.min_eq_left (Nat.le_of_lt hi)]

theorem readArea_slot {i k size : Nat} {slot : Slot} (hslot : slotted.slots[i]? = some slot)
    (hk : k + size ≤ slottedPageSlotSize) :
    readArea slotted.page (slottedPageHeaderSize + i * slottedPageSlotSize + k) size =
      (slot.image.drop k).take size := by
  have hi := (List.getElem?_eq_some_iff.1 hslot).1
  obtain ⟨rest, hrest⟩ := drop_flatMap_image hslot
  have hoffset : slottedPageHeaderSize + i * slottedPageSlotSize + k =
      6 + (2 + 2 + 2 + 8 + 8 + i * slottedPageSlotSize + k) := by
    unfold slottedPageHeaderSize
    omega
  have hinside : 6 + (2 + 2 + 2 + 8 + 8 + i * slottedPageSlotSize + k) + size ≤ slotted.freeStart := by
    unfold freeStart slottedPageHeaderSize
    have hle := Nat.mul_le_mul_right slottedPageSlotSize hi
    rw [Nat.succ_mul] at hle
    omega
  rw [hoffset, readArea_page _ hinside]
  simp only [← List.drop_drop, directory]
  rw [List.drop_left' (length_storeLe 2 _), List.drop_left' (length_storeLe 2 _),
    List.drop_left' (length_storeLe 2 _), List.drop_left' (length_storeLe 8 _),
    List.drop_left' (length_storeLe 8 _), hrest, List.drop_append_of_le_length, List.take_append_of_le_length]
  · rw [List.length_drop, slot.length_image]
    omega
  · rw [slot.length_image]
    omega

variable [PageSize]

theorem Valid.slot_lt (h : slotted.Valid) {slot : Slot} (hslot : slot ∈ slotted.slots) :
    slot.offset < 256 ^ 2 ∧ slot.size < 256 ^ 2 ∧ slot.capacity < 256 ^ 2 ∧ slot.generation < 256 ^ 2 := by
  have hupper : pageSize ≤ 65535 := PageSize.upper
  have hgeneration := (h.generation slot hslot).2
  by_cases hocc : slot.occupied = true
  · obtain ⟨hsize, -, hend⟩ := h.live slot hslot hocc
    refine ⟨?_, ?_, ?_, ?_⟩ <;> omega
  · rw [Bool.not_eq_true] at hocc
    obtain ⟨hoffset, hcapacity⟩ := h.free slot hslot hocc
    have hsize : slot.size = 0 := by simpa [Slot.occupied] using hocc
    refine ⟨?_, ?_, ?_, ?_⟩ <;> omega

theorem Valid.slotAt_page (h : slotted.Valid) {i : Nat} {slot : Slot} (hslot : slotted.slots[i]? = some slot) :
    slotAt slotted.page i = slot := by
  obtain ⟨hoffset, hsize, hcapacity, hgeneration⟩ := h.slot_lt (List.mem_of_getElem? hslot)
  have hfirst : readArea slotted.page (slottedPageHeaderSize + i * slottedPageSlotSize) 2 =
      storeLe 2 slot.offset := by
    have hread := @readArea_slot slotted i 0 2 slot hslot (by decide)
    rw [Nat.add_zero, List.drop_zero] at hread
    rw [hread, Slot.image, List.append_assoc, List.append_assoc, List.take_left' (length_storeLe 2 _)]
  have hsecond : readArea slotted.page (slottedPageHeaderSize + i * slottedPageSlotSize + 2) 2 =
      storeLe 2 slot.size := by
    rw [readArea_slot hslot (by decide), Slot.image, List.append_assoc, List.append_assoc,
      List.drop_left' (length_storeLe 2 _), List.take_left' (length_storeLe 2 _)]
  have hthird : readArea slotted.page (slottedPageHeaderSize + i * slottedPageSlotSize + 4) 2 =
      storeLe 2 slot.capacity := by
    rw [readArea_slot hslot (by decide), Slot.image, List.append_assoc, List.append_assoc,
      show 4 = 2 + 2 from rfl, ← List.drop_drop, List.drop_left' (length_storeLe 2 _),
      List.drop_left' (length_storeLe 2 _), List.take_left' (length_storeLe 2 _)]
  have hfourth : readArea slotted.page (slottedPageHeaderSize + i * slottedPageSlotSize + 6) 2 =
      storeLe 2 slot.generation := by
    rw [readArea_slot hslot (by decide), Slot.image, List.append_assoc, List.append_assoc,
      show 6 = 2 + 2 + 2 from rfl, ← List.drop_drop, ← List.drop_drop, List.drop_left' (length_storeLe 2 _),
      List.drop_left' (length_storeLe 2 _), List.drop_left' (length_storeLe 2 _),
      List.take_of_length_le (Nat.le_of_eq (length_storeLe 2 _))]
  unfold slotAt loadAt
  dsimp only
  rw [hfirst, hsecond, hthird, hfourth, loadLe_storeLe_of_lt hoffset, loadLe_storeLe_of_lt hsize,
    loadLe_storeLe_of_lt hcapacity, loadLe_storeLe_of_lt hgeneration]

theorem Valid.freeStart_le (h : slotted.Valid) : slotted.freeStart ≤ pageSize :=
  Nat.le_trans h.boundary h.freeEnd_le

theorem Valid.count_lt (h : slotted.Valid) : slotted.slots.length < 256 ^ 2 := by
  have hstart := h.freeStart_le
  have hupper : pageSize ≤ 65535 := PageSize.upper
  unfold freeStart slottedPageHeaderSize slottedPageSlotSize at hstart
  omega

/-- The fields of the header, past the version. -/
structure HeaderAt (slotted : SlottedPage) (area : Area) : Prop where
  count : loadAt area 6 2 = slotted.slots.length
  freeStart : loadAt area 8 2 = slotted.freeStart
  freeEnd : loadAt area 10 2 = slotted.freeEnd
  next : optionalPageId (loadAt area 12 8) = slotted.nextPage
  previous : optionalPageId (loadAt area 20 8) = slotted.previousPage

theorem Valid.headerAt_page (h : slotted.Valid) (hlinks : slotted.Linkable) :
    slotted.HeaderAt slotted.page := by
  have hupper : pageSize ≤ 65535 := PageSize.upper
  have hstart := h.freeStart_le
  have hend := h.freeEnd_le
  have hread : ∀ k size, k + size ≤ 22 →
      readArea slotted.page (6 + k) size = (slotted.directory.drop k).take size := by
    intro k size hk
    apply readArea_page
    unfold SlottedPage.freeStart slottedPageHeaderSize
    omega
  constructor
  · rw [loadAt, hread 0 2 (by decide), List.drop_zero, directory, List.take_left' (length_storeLe 2 _),
      loadLe_storeLe_of_lt h.count_lt]
  · rw [loadAt, hread 2 2 (by decide), directory, List.drop_left' (length_storeLe 2 _),
      List.take_left' (length_storeLe 2 _), loadLe_storeLe_of_lt (by omega)]
  · rw [loadAt, hread 4 2 (by decide), directory, show 4 = 2 + 2 from rfl, ← List.drop_drop,
      List.drop_left' (length_storeLe 2 _), List.drop_left' (length_storeLe 2 _),
      List.take_left' (length_storeLe 2 _), loadLe_storeLe_of_lt (by omega)]
  · rw [loadAt, hread 6 8 (by decide), directory, show 6 = 2 + 2 + 2 from rfl, ← List.drop_drop,
      ← List.drop_drop, List.drop_left' (length_storeLe 2 _), List.drop_left' (length_storeLe 2 _),
      List.drop_left' (length_storeLe 2 _), List.take_left' (length_storeLe 8 _),
      loadLe_storeLe_of_lt hlinks.next.2, optionalPageId_getD hlinks.next.1]
  · rw [loadAt, hread 14 8 (by decide), directory, show 14 = 2 + 2 + 2 + 8 from rfl, ← List.drop_drop,
      ← List.drop_drop, ← List.drop_drop, List.drop_left' (length_storeLe 2 _),
      List.drop_left' (length_storeLe 2 _), List.drop_left' (length_storeLe 2 _),
      List.drop_left' (length_storeLe 8 _), List.take_left' (length_storeLe 8 _),
      loadLe_storeLe_of_lt hlinks.previous.2, optionalPageId_getD hlinks.previous.1]

theorem Valid.fromTrustedPage_page (h : slotted.Valid) (hlinks : slotted.Linkable) :
    fromTrustedPage slotted.page = { slotted with area := slotted.page } := by
  obtain ⟨hcount, -, hend, hnext, hprevious⟩ := h.headerAt_page hlinks
  have hslots : (List.range slotted.slots.length).map (slotAt slotted.page) = slotted.slots := by
    apply List.ext_getElem?
    intro i
    rw [List.getElem?_map]
    by_cases hi : i < slotted.slots.length
    · have hslot := List.getElem?_eq_getElem hi
      rw [List.getElem?_range hi, hslot, Option.map_some, h.slotAt_page hslot]
    · rw [List.getElem?_eq_none (by simpa using hi), List.getElem?_eq_none (by omega), Option.map_none]
  unfold fromTrustedPage
  rw [hcount, hend, hnext, hprevious, hslots]

theorem Valid.withArea (h : slotted.Valid) (area : Area) : { slotted with area := area }.Valid :=
  ⟨h.boundary, h.freeEnd_le, h.generation, h.free, h.live, h.apart⟩

theorem Valid.entries_page (h : slotted.Valid) :
    { slotted with area := slotted.page }.entries = slotted.entries := by
  unfold entries
  apply List.map_congr_left
  intro slot hslot
  unfold Slot.entry
  by_cases hocc : slot.occupied = true
  · obtain ⟨-, hlow, -⟩ := h.live slot hslot hocc
    rw [if_pos hocc, if_pos hocc, readArea_congr fun i hi _ =>
      slotted.page_of_le (Nat.le_trans h.boundary (Nat.le_trans hlow hi))]
  · rw [if_neg hocc, if_neg hocc]

theorem Valid.fromPage_page (h : slotted.Valid) (hlinks : slotted.Linkable) (hsigned : Signed slotted.area) :
    fromPage slotted.page = .ok { slotted with area := slotted.page } := by
  obtain ⟨hmagic, hversion⟩ := signed_page hsigned
  have hheader := h.headerAt_page hlinks
  have hvalidate : SlottedPage.validate { slotted with area := slotted.page } = .ok () :=
    (h.withArea slotted.page).validate_eq
  unfold fromPage
  dsimp only
  rw [h.fromTrustedPage_page hlinks, if_neg (not_not.2 hmagic), if_neg, hheader.freeStart, if_neg, hvalidate]
  · rfl
  · exact fun hne => hne rfl
  · rintro ⟨hnew, hold⟩
    exact hversion.elim hnew hold

/-! ### The signature stays -/

omit [PageSize] in
theorem Signed.congr {area area' : Area} (h : Signed area)
    (hsame : ∀ i, i < slottedPageHeaderSize → area' i = area i) : Signed area' where
  magic := by
    rw [readArea_congr fun i _ hi => hsame i (Nat.lt_of_lt_of_le hi (by decide))]
    exact h.magic
  version := by
    rw [loadAt, readArea_congr fun i _ hi => hsame i (Nat.lt_of_lt_of_le hi (by decide))]
    exact h.version

omit [PageSize] in
theorem headerSize_le (slotted : SlottedPage) : slottedPageHeaderSize ≤ slotted.freeStart :=
  Nat.le_add_right _ _

theorem Valid.area_compact (h : slotted.Valid) {i : Nat} (hi : i < slottedPageHeaderSize) :
    slotted.compact.area i = slotted.area i := by
  have hstart := headerSize_le slotted.compact
  exact h.packed.outside i
    (.inl (Nat.lt_of_lt_of_le hi (Nat.le_trans hstart h.compact.boundary)))

theorem Valid.signed_insert (h : slotted.Valid) (hsigned : Signed slotted.area) {record : Bytes} {id : Nat}
    {inserted : SlottedPage} (hinsert : slotted.insert record = .ok (id, inserted)) :
    Signed inserted.area := by
  obtain ⟨generation, hinserted⟩ := h.insert_spec hinsert
  have hboundary := Nat.le_trans (headerSize_le inserted) hinserted.valid.boundary
  apply hsigned.congr
  intro i hi
  unfold insert at hinsert
  split at hinsert
  · cases hinsert
  · split at hinsert
    · cases hinsert
    · dsimp only at hinsert
      split at hinsert
      · cases hinsert
      · cases hinsert
        change slottedPageHeaderSize ≤ (slotted.gather _).freeEnd - record.length at hboundary
        change copyTo (slotted.gather _).area _ record i = _
        rw [copyTo_of_outside (.inl (by omega)), SlottedPage.gather]
        split
        · exact h.area_compact hi
        · rfl

theorem Valid.signed_update (h : slotted.Valid) (hsigned : Signed slotted.area) {record : Bytes} {id : Nat}
    {updated : SlottedPage} (hupdate : slotted.update id record = .ok updated) : Signed updated.area := by
  obtain ⟨old, generation, hentry⟩ := exists_of_update hupdate
  obtain ⟨slot, hslot, hocc, hfound, hgeneration, -⟩ := occupiedSlot_of_some hentry
  have hboundary := Nat.le_trans (headerSize_le updated) (h.update_spec hentry hupdate).1.boundary
  apply hsigned.congr
  intro i hi
  unfold update at hupdate
  rw [hfound] at hupdate
  split at hupdate
  · cases hupdate
  · dsimp only at hupdate
    split at hupdate
    · cases hupdate
    · split at hupdate
      · split at hupdate
        · cases hupdate
        · cases hupdate
          have hclear := (h.clear hslot).1
          change slottedPageHeaderSize ≤ (SlottedPage.compact _).freeEnd - record.length at hboundary
          change copyTo (SlottedPage.compact _).area _ record i = _
          rw [copyTo_of_outside (.inl (by omega)), hclear.area_compact hi]
          rfl
      · cases hupdate
        -- A record of the same size is written where the old one stood.
        have hlow := (h.live slot (List.mem_of_getElem? hslot) hocc).2.1
        have hstart := Nat.le_trans (headerSize_le slotted) h.boundary
        exact copyTo_of_outside (.inl (by omega))

omit [PageSize] in
theorem signed_erase (hsigned : Signed slotted.area) {id : Nat} {erased : SlottedPage}
    (herase : slotted.erase id = .ok erased) : Signed erased.area := by
  unfold erase at herase
  cases hslot : slotted.occupiedSlot id with
  | error error =>
    rw [hslot] at herase
    cases herase
  | ok slot =>
    rw [hslot] at herase
    cases herase
    exact hsigned

/-! ### Pages that are loaded -/

omit [PageSize] in
theorem loadAt_two_lt (area : Area) (offset : Nat) : loadAt area offset 2 ≤ 65535 := by
  have hlt := loadLe_lt (readArea area offset 2)
  rw [length_readArea] at hlt
  exact Nat.le_of_lt_succ hlt

omit [PageSize] in
theorem linkable_fromTrustedPage (area : Area) : (fromTrustedPage area).Linkable where
  next := by
    rw [nextPage_fromTrustedPage]
    exact optionalPageId_valid (loadAt_lt area 12)
  previous := by
    rw [previousPage_fromTrustedPage]
    exact optionalPageId_valid (loadAt_lt area 20)

omit [PageSize] in
theorem stored_fromTrustedPage (area : Area) : (fromTrustedPage area).Stored := by
  intro slot hslot
  unfold fromTrustedPage at hslot
  obtain ⟨i, -, rfl⟩ := List.mem_map.1 hslot
  exact loadAt_two_lt _ _

/-- What a page that passes the check is. -/
structure Sane (slotted : SlottedPage) : Prop where
  valid : slotted.Valid
  signed : Signed slotted.area
  linkable : slotted.Linkable

theorem sane_of_fromPage {bytes : Area} (h : fromPage bytes = .ok slotted) : slotted.Sane := by
  obtain ⟨rfl, hmagic, -⟩ := fromPage_eq_ok h
  have harea : (fromTrustedPage bytes).area = bytes := by
    unfold fromTrustedPage
    dsimp only
  unfold fromPage at h
  dsimp only at h
  rw [if_neg (not_not.2 hmagic)] at h
  split at h
  · cases h
  · rename_i hversion
    split at h
    · cases h
    · cases hvalidate : (fromTrustedPage bytes).validate with
      | error error =>
        rw [hvalidate] at h
        cases h
      | ok valid =>
        refine ⟨valid_of_validate (stored_fromTrustedPage bytes) hvalidate, ?_,
          linkable_fromTrustedPage bytes⟩
        rw [harea]
        refine ⟨hmagic, ?_⟩
        by_cases hnew : loadAt bytes 4 1 = slottedPageFormatVersion
        · exact .inl hnew
        · exact .inr (not_not.1 fun hold => hversion ⟨hnew, hold⟩)

end SlottedPage

end MoDb.Storage
