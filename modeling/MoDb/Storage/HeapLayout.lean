import MoDb.Storage.HeapWrite
import MoDb.Storage.OverflowChain
import Mathlib.Tactic.Abel

/-!
# The pages of an open heap

What a heap owns of its file: its root, the data pages of its chain with what is in their slots, the pages
of the records that overflow, and its free pages. A frame of other pages stays beside them.
-/

namespace MoDb.Storage

open Effect

/-! ### What the pages hold -/

/-- A record, and the pages of its chain if it overflows. -/
structure HeldRecord where
  bytes : Bytes
  chain : List (Nat × Area)

namespace HeldRecord

def stored (tagged : Bool) (record : HeldRecord) : Bytes :=
  if tagged then
    match record.chain with
    | [] => recordTagInline :: record.bytes
    | (first, _) :: _ => recordTagOverflow :: (storeLe 8 record.bytes.length ++ storeLe 8 first)
  else record.bytes

end HeldRecord

/-- What a slot holds, and its generation. -/
abbrev Cell := Option HeldRecord × Nat

namespace Cell

def entry (tagged : Bool) (cell : Cell) : Entry := (cell.1.map (HeldRecord.stored tagged), cell.2)

def chain (cell : Cell) : Multiset (Nat × Area) :=
  match cell.1 with
  | some record => record.chain
  | none => 0

def live (cell : Cell) : Bool := cell.1.isSome

end Cell

structure DataPage where
  id : Nat
  page : SlottedPage
  cells : List Cell

namespace DataPage

def pages (data : DataPage) : Multiset (Nat × Area) :=
  {(data.id, data.page.area)} + (data.cells.map Cell.chain).sum

def recordCount (data : DataPage) : Nat := data.cells.countP Cell.live

def capacity [PageSize] (data : DataPage) : Nat × Nat := (data.id, data.page.insertionCapacity)

end DataPage

structure HeapLayout where
  rootPage : Area
  data : List DataPage
  free : List (Nat × Area)

namespace HeapLayout

def used (layout : HeapLayout) : Multiset (Nat × Area) := (layout.data.map DataPage.pages).sum

def owned (layout : HeapLayout) : Multiset (Nat × Area) :=
  layout.used + (layout.free : Multiset (Nat × Area))

def ids (layout : HeapLayout) : List Nat := layout.data.map DataPage.id

end HeapLayout

/-- Each page links back to the one before it and on to the one after it. -/
def Linked : Option Nat → List DataPage → Prop
  | _, [] => True
  | previous, data :: rest => data.page.previousPage = previous ∧
      data.page.nextPage = rest.head?.map DataPage.id ∧ Linked (some data.id) rest

/-- Free pages are read without a check: they say that they hold nothing, and link on. -/
def FreeLinked : List (Nat × Area) → Prop
  | [] => True
  | page :: rest => (SlottedPage.fromTrustedPage page.2).recordCount = 0 ∧
      (SlottedPage.fromTrustedPage page.2).nextPage = rest.head?.map Prod.fst ∧ FreeLinked rest

variable [PageSize]

structure HeldRecord.Valid (tagged : Bool) (record : HeldRecord) : Prop where
  carries : record.chain ≠ [] → tagged = true ∧ Carries record.chain record.bytes
  length : record.bytes.length < 2 ^ 64

structure DataPage.Valid (tagged : Bool) (data : DataPage) : Prop where
  loads : SlottedPage.fromPage data.page.area = .ok data.page
  entries : data.page.entries = data.cells.map (Cell.entry tagged)
  records : ∀ cell ∈ data.cells, ∀ record, cell.1 = some record → record.Valid tagged

/-- What the heap has in memory of its chain. -/
structure Chained (handle : HeapHandle) (list : List DataPage) : Prop where
  data : ∀ data ∈ list, data.Valid handle.heap.tagged
  nodup : (list.map DataPage.id).Nodup
  linked : Linked none list
  first_eq : handle.heap.first = list.head?.map DataPage.id
  last_eq : handle.heap.last = list.getLast?.map DataPage.id
  pageCount_eq : handle.heap.pageCount = list.length
  recordCount_eq : handle.heap.recordCount = (list.map DataPage.recordCount).sum
  pageIds_eq : handle.pageIds = (list.map DataPage.id).toFinset
  capacities : handle.capacities.Lists (list.map DataPage.capacity)

omit [PageSize] in
/-- The free pages that the heap has in memory, and other pages of its file beside them. -/
structure FreePages (handle : HeapHandle) (free : List (Nat × Area)) (frame : Multiset (Nat × Area)) :
    Prop where
  holds : Holds handle.file ((free : Multiset (Nat × Area)) + frame)
  pos : 0 < handle.file.pageCount
  fits : handle.file.pageCount < 2 ^ 64
  freeHead_eq : handle.heap.freeHead = free.head?.map Prod.fst
  linked : FreeLinked free

/-- The heap in memory and its file are as the layout says, and the frame is there too. -/
structure Represents (handle : HeapHandle) (layout : HeapLayout) (frame : Multiset (Nat × Area)) : Prop where
  pages : FreePages handle layout.free ({(handle.heap.root, layout.rootPage)} + (layout.used + frame))
  chained : Chained handle layout.data

variable {handle : HeapHandle} {layout : HeapLayout} {frame frame' : Multiset (Nat × Area)}

/-! ### Pages one by one -/

namespace DataPage.Valid

variable {tagged : Bool} {data : DataPage}

theorem sane (h : data.Valid tagged) : data.page.Sane := SlottedPage.sane_of_fromPage h.loads

theorem image (h : data.Valid tagged) : SlottedPage.fromTrustedPage data.page.area = data.page :=
  (fromPage_eq_ok h.loads).1.symm

theorem recordCount_eq (h : data.Valid tagged) : data.page.recordCount = data.cells.countP Cell.live := by
  rw [SlottedPage.recordCount_eq, h.entries, List.countP_map]
  apply List.countP_congr
  intro cell _
  simp [Cell.entry, Cell.live]

theorem entry_eq (h : data.Valid tagged) (slot : Nat) :
    data.page.entries[slot]? = data.cells[slot]?.map (Cell.entry tagged) := by
  rw [h.entries, List.getElem?_map]

theorem entry_of_cell (h : data.Valid tagged) {slot generation : Nat} {record : HeldRecord}
    (hcell : data.cells[slot]? = some (some record, generation)) :
    data.page.entries[slot]? = some (some (record.stored tagged), generation) := by
  rw [h.entry_eq, hcell]
  rfl

theorem cell_of_entry (h : data.Valid tagged) {slot generation : Nat} {stored : Bytes}
    (hentry : data.page.entries[slot]? = some (some stored, generation)) :
    ∃ record, data.cells[slot]? = some (some record, generation) ∧ stored = record.stored tagged ∧
      record.Valid tagged := by
  rw [h.entry_eq] at hentry
  obtain ⟨cell, hcell, heq⟩ := Option.map_eq_some_iff.1 hentry
  obtain ⟨record, generation'⟩ := cell
  cases record with
  | none => cases heq
  | some record =>
    cases heq
    exact ⟨record, hcell, rfl, h.records _ (List.mem_of_getElem? hcell) record rfl⟩

end DataPage.Valid

theorem DataPage.valid_page {tagged : Bool} {id : Nat} {page : SlottedPage} {cells : List Cell}
    (hvalid : page.Valid) (hsigned : SlottedPage.Signed page.area) (hlinks : page.Linkable)
    (hentries : page.entries = cells.map (Cell.entry tagged))
    (hrecords : ∀ cell ∈ cells, ∀ record, cell.1 = some record → record.Valid tagged) :
    DataPage.Valid tagged ⟨id, { page with area := page.page }, cells⟩ where
  loads := hvalid.fromPage_page hlinks hsigned
  entries := hvalid.entries_page.trans hentries
  records := hrecords

/-! ### Running the steps -/

section Run

variable {α β : Type} {next : β → HeapM α} {id : Nat} {page page' : Area}
  {pages : Multiset (Nat × Area)}

omit [PageSize] in
@[simp]
theorem demand_ok_bind (value : β) : (HeapHandle.demand (.ok value) >>= next) handle = next value handle := rfl

omit [PageSize] in
@[simp]
theorem demand_error_bind (error : Error) :
    ((HeapHandle.demand (.error error) : HeapM β) >>= next) handle = .error error handle := rfl

omit [PageSize] in
theorem Holds.read_eq (h : Holds handle.file ({(id, page)} + pages)) : handle.file.read id = .ok page :=
  (h.read (id, page) (Multiset.mem_add.2 (.inl (Multiset.mem_singleton_self _)))).2

omit [PageSize] in
theorem Holds.loadPage_run (h : Holds handle.file ({(id, page)} + pages)) :
    HeapHandle.loadPage id handle = .ok (SlottedPage.fromTrustedPage page) handle := by
  change HeapHandle.demand (loadTrusted handle.file id) handle = _
  rw [loadTrusted, h.read_eq]
  rfl

omit [PageSize] in
theorem Holds.writePage_run (h : Holds handle.file ({(id, page)} + pages)) (page' : Area) :
    ∃ file', HeapHandle.writePage id page' handle = .ok () { handle with file := file' } ∧
      Holds file' ({(id, page')} + pages) ∧ file'.pageCount = handle.file.pageCount := by
  obtain ⟨file', hwrite, hholds, hcount⟩ := h.write page'
  refine ⟨file', ?_, hholds, hcount⟩
  change (HeapHandle.demand (handle.file.write id page') >>= _) handle = _
  rw [hwrite]
  rfl

end Run

end MoDb.Storage
