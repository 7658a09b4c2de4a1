import MoDb.Storage.SlottedPage

/-!
# The pages of a heap

A heap of records has a root with the ends of its chain and its counters, slotted pages linked both ways,
and chains of overflow pages for the records that are longer than a page.
-/

namespace MoDb.Storage

/-- `optional_page_id`: zero stands for no page. -/
def optionalPageId (value : Nat) : Option Nat := if value = 0 then none else some value

theorem optionalPageId_ne_zero {value id : Nat} (h : optionalPageId value = some id) : id ≠ 0 := by
  unfold optionalPageId at h
  split at h
  · cases h
  · rename_i hne
    cases h
    exact hne

theorem optionalPageId_getD {id : Option Nat} (h : id ≠ some 0) : optionalPageId (id.getD 0) = id := by
  cases id with
  | none => rfl
  | some id => exact if_neg fun heq => h (congrArg some heq)

theorem optionalPageId_valid {value : Nat} (h : value < 2 ^ 64) :
    optionalPageId value ≠ some 0 ∧ (optionalPageId value).getD 0 < 2 ^ 64 := by
  constructor
  · exact fun heq => optionalPageId_ne_zero heq rfl
  · unfold optionalPageId
    split
    · exact Nat.two_pow_pos 64
    · exact h

theorem loadAt_lt (page : Area) (offset : Nat) : loadAt page offset 8 < 2 ^ 64 := by
  have hlt := loadLe_lt (readArea page offset 8)
  have hsame : (256 : Nat) ^ 8 = 2 ^ 64 := by decide
  rwa [length_readArea, hsame] at hlt

/-! ### Slotted pages -/

def slottedMagic : Bytes := [83, 76, 80, 71]
def slottedPageFormatVersion : Nat := 4

namespace SlottedPage

def slotAt (page : Area) (index : Nat) : Slot :=
  let entry := slottedPageHeaderSize + index * slottedPageSlotSize
  ⟨loadAt page entry 2, loadAt page (entry + 2) 2, loadAt page (entry + 4) 2, loadAt page (entry + 6) 2⟩

/-- `SlottedPage::from_trusted_page`. -/
def fromTrustedPage (page : Area) : SlottedPage where
  slots := (List.range (loadAt page 6 2)).map (slotAt page)
  freeEnd := loadAt page 10 2
  nextPage := optionalPageId (loadAt page 12 8)
  previousPage := optionalPageId (loadAt page 20 8)
  area := page

theorem nextPage_fromTrustedPage (page : Area) :
    (fromTrustedPage page).nextPage = optionalPageId (loadAt page 12 8) := by
  unfold fromTrustedPage
  dsimp only

theorem previousPage_fromTrustedPage (page : Area) :
    (fromTrustedPage page).previousPage = optionalPageId (loadAt page 20 8) := by
  unfold fromTrustedPage
  dsimp only

/-- `SlottedPage::from_page`, by `validate_page`. -/
def fromPage [PageSize] (page : Area) : Except Error SlottedPage :=
  let version := loadAt page 4 1
  let slotted := fromTrustedPage page
  if readArea page 0 4 ≠ slottedMagic then
    .error ⟨.invalidPageFormat, "page is not formatted as a slotted page"⟩
  else if version ≠ slottedPageFormatVersion ∧ version ≠ 3 then
    .error ⟨.incompatiblePageVersion, s!"unsupported slotted page version: {version}"⟩
  else if loadAt page 8 2 ≠ slotted.freeStart then
    .error ⟨.corruptPage, "slotted page has an invalid slot directory"⟩
  else slotted.validate.map fun _ => slotted

theorem fromPage_of_empty [PageSize] {page : Area} (hmagic : readArea page 0 4 = slottedMagic)
    (hversion : loadAt page 4 1 = slottedPageFormatVersion) (hcount : loadAt page 6 2 = 0)
    (hstart : loadAt page 8 2 = slottedPageHeaderSize)
    (hend : slottedPageHeaderSize ≤ loadAt page 10 2 ∧ loadAt page 10 2 ≤ pageSize) :
    fromPage page = .ok (fromTrustedPage page) := by
  have hslots : (fromTrustedPage page).slots = [] := by
    unfold fromTrustedPage
    rw [hcount]
    rfl
  have hfreeEnd : (fromTrustedPage page).freeEnd = loadAt page 10 2 := by
    unfold fromTrustedPage
    dsimp only
  have hfreeStart : (fromTrustedPage page).freeStart = slottedPageHeaderSize := by
    rw [freeStart, hslots]
    rfl
  have hlower : slottedPageHeaderSize < pageSize := lt_pageSize
  have hvalid : (fromTrustedPage page).validate = .ok () := by
    rw [validate, hfreeStart, hfreeEnd, if_neg (Nat.not_lt.2 (Nat.le_of_lt hlower)),
      if_neg (not_or.2 ⟨Nat.not_lt.2 hend.1, Nat.not_lt.2 hend.2⟩), hslots, checkSlots]
    dsimp only
    rw [List.mergeSort_nil]
    rfl
  unfold fromPage
  dsimp only
  rw [if_neg (not_not.2 hmagic), hversion, if_neg (fun hne => hne.1 rfl), hfreeStart,
    if_neg (not_not.2 hstart), hvalid]
  rfl

end SlottedPage

/-! ### The root -/

def rootMagic : Bytes := [84, 72, 82, 80]
def rootFormatVersion : Nat := 1
def rootFlagTagged : Nat := 1

structure RootMetadata where
  first : Option Nat
  last : Option Nat
  pageCount : Nat
  recordCount : Nat
  freeHead : Option Nat
  /-- Records have a byte of their kind, and may overflow. -/
  tagged : Bool
  deriving DecidableEq, Repr

/-- `encode_root`. -/
def encodeRoot (metadata : RootMetadata) : Area :=
  copyTo default 0 (rootMagic ++ storeLe 2 rootFormatVersion ++
    storeLe 2 (if metadata.tagged then rootFlagTagged else 0) ++ storeLe 8 (metadata.first.getD 0) ++
    storeLe 8 (metadata.last.getD 0) ++ storeLe 8 metadata.pageCount ++
    storeLe 8 metadata.recordCount ++ storeLe 8 (metadata.freeHead.getD 0))

/-- The last check of `decode_root`: an empty chain has no ends and no records. -/
def RootMetadata.consistent (metadata : RootMetadata) : Bool :=
  metadata.first.isSome = metadata.last.isSome ∧ (metadata.pageCount = 0 ↔ metadata.first = none) ∧
    (metadata.pageCount = 0 → metadata.recordCount = 0)

section

variable [PageSize]

/-- `decode_root`. Roots of before the list of free pages have zeros in its place. -/
def decodeRoot (page : Area) : Except Error RootMetadata :=
  let version := loadAt page 4 2
  let flags := loadAt page 6 2
  let metadata : RootMetadata :=
    ⟨optionalPageId (loadAt page 8 8), optionalPageId (loadAt page 16 8), loadAt page 24 8,
      loadAt page 32 8, if pageSize < 48 then none else optionalPageId (loadAt page 40 8), flags = rootFlagTagged⟩
  if readArea page 0 4 ≠ rootMagic then
    .error ⟨.invalidPageFormat, "page is not a TableHeap root"⟩
  else if pageSize < 40 then .error ⟨.corruptPage, "TableHeap root metadata is truncated"⟩
  else if version ≠ rootFormatVersion then
    .error ⟨.incompatiblePageVersion, s!"unsupported TableHeap root version: {version}"⟩
  else if flags ≠ 0 ∧ flags ≠ rootFlagTagged then
    .error ⟨.corruptPage, "TableHeap root contains unknown flags"⟩
  else if ¬metadata.consistent then
    .error ⟨.corruptPage, "TableHeap root metadata is inconsistent"⟩
  else .ok metadata

end

/-! ### Overflow pages -/

def overflowMagic : Bytes := [79, 86, 70, 80]
def overflowFormatVersion : Nat := 1
def overflowPageHeaderSize : Nat := 24
def overflowMaxTotal : Nat := 2 ^ 40
def overflowStubSize : Nat := 1 + 8 + 8

def recordTagInline : UInt8 := 0
def recordTagOverflow : UInt8 := 1

structure OverflowPageInfo where
  next : Option Nat
  length : Nat
  deriving DecidableEq, Repr

structure OverflowStub where
  total : Nat
  first : Nat
  deriving DecidableEq, Repr

/-- `parse_stored`: the stub of a record that overflows. -/
def parseStored (stored : Bytes) : Except Error (Option OverflowStub) :=
  if stored = [] then .error ⟨.corruptPage, "tagged record is empty"⟩
  else if stored.head? = some recordTagInline then .ok none
  else if stored.head? ≠ some recordTagOverflow ∨ stored.length ≠ overflowStubSize then
    .error ⟨.corruptPage, "tagged record has an unknown type"⟩
  else
    let first := loadLe ((stored.drop 9).take 8)
    if first = 0 then .error ⟨.corruptPage, "overflow stub is malformed"⟩
    else .ok (some ⟨loadLe ((stored.drop 1).take 8), first⟩)

variable [PageSize]

def overflowPageCapacity : Nat := pageSize - overflowPageHeaderSize

/-- `validate_overflow_page`. -/
def validateOverflowPage (page : Area) : Except Error OverflowPageInfo :=
  let version := loadAt page 4 2
  let length := loadAt page 16 4
  if readArea page 0 4 ≠ overflowMagic then
    .error ⟨.invalidPageFormat, "page is not an overflow page"⟩
  else if version ≠ overflowFormatVersion then
    .error ⟨.incompatiblePageVersion, s!"unsupported overflow page version: {version}"⟩
  else if length = 0 ∨ overflowPageCapacity < length then
    .error ⟨.corruptPage, "overflow page length is out of range"⟩
  else .ok ⟨optionalPageId (loadAt page 8 8), length⟩

end MoDb.Storage
