import MoDb.Lib.Walk
import MoDb.Storage.HeapPages
import MoDb.Storage.PageFile

/-!
# Reading a heap

A heap is opened by walking its whole chain: the links back, the last page and the counters must be those of
the root. The walks keep the pages they have been at, so `fuel` past the pages of the file is never used up.
The counts are numbers: every page of a chain is another page of the file and every record has a slot of
eight bytes of its own, so that 64 bits hold them.
-/

namespace MoDb.Storage

structure TableHeap extends RootMetadata where
  root : Nat
  deriving DecidableEq, Repr

/-- Of a page of the chain. -/
structure TableHeapPageInfo where
  id : Nat
  previous : Option Nat
  next : Option Nat
  recordCount : Nat
  freeSpace : Nat
  deriving DecidableEq, Repr

structure HeapRecord where
  page : Nat
  slot : Nat
  generation : Nat
  bytes : Bytes
  deriving DecidableEq, Repr

structure HeapPageSlice where
  records : List HeapRecord
  next : Option Nat
  deriving DecidableEq, Repr

/-- The chain of overflow pages of a record. -/
structure OverflowChain where
  page : Nat
  slot : Nat
  generation : Nat
  total : Nat
  pages : List Nat
  deriving DecidableEq, Repr

def visitCycle (id : Nat) : Error :=
  ⟨.pageChainCycle, s!"TableHeap page chain contains a cycle at page {id}"⟩

def overflowCycle (_ : Nat) : Error := ⟨.pageChainCycle, "overflow chain contains a cycle"⟩

def pageFuel (file : PageFile Area) : Nat := file.pageCount + 1

variable [PageSize]

/-- `TableHeap::load`. -/
def load (file : PageFile Area) (id : Nat) : Except Error SlottedPage := do
  let page ← file.read id
  SlottedPage.fromPage page

/-- `TableHeap::load_trusted`. -/
def loadTrusted (file : PageFile Area) (id : Nat) : Except Error SlottedPage := do
  let page ← file.read id
  pure (SlottedPage.fromTrustedPage page)

/-! ### Repairing the root -/

/-- What the loop of `repair_table_heap` has found. -/
structure Rebuilt where
  pages : Nat
  records : Nat
  last : Option Nat

def repairTurn (file : PageFile Area) (id : Nat) (rebuilt : Rebuilt) :
    Except Error (Rebuilt × Option Nat) := do
  let slotted ← load file id
  pure (⟨rebuilt.pages + 1, rebuilt.records + slotted.recordCount, some id⟩, slotted.nextPage)

structure TableHeapRepairReport where
  pageCount : Nat
  recordCount : Nat
  rootRewritten : Bool
  deriving DecidableEq, Repr

/-- The root as the chain says it must be; the list of free pages is kept. -/
def rebuild (file : PageFile Area) (metadata : RootMetadata) : Except Error RootMetadata :=
  match metadata.first with
  | none => .ok { metadata with last := none, pageCount := 0, recordCount := 0 }
  | some first => do
    let rebuilt ← Walk.visit visitCycle (repairTurn file) (pageFuel file) [] first ⟨0, 0, none⟩
    pure { metadata with last := rebuilt.last, pageCount := rebuilt.pages, recordCount := rebuilt.records }

/-- `repair_table_heap`. -/
def repairTableHeap (file : PageFile Area) (root : Nat) :
    Except Error (TableHeapRepairReport × PageFile Area) :=
  if root = 0 then .error ⟨.invalidArgument, "TableHeap root cannot be page zero"⟩
  else do
    let page ← file.read root
    let metadata ← decodeRoot page
    let rebuilt ← rebuild file metadata
    if rebuilt = metadata then pure (⟨rebuilt.pageCount, rebuilt.recordCount, false⟩, file)
    else do
      let file ← file.write root (encodeRoot rebuilt)
      pure (⟨rebuilt.pageCount, rebuilt.recordCount, true⟩, file)

namespace TableHeap

/-! ### The chain -/

/-- What the loop of `layout` has found; the page before is the last one. -/
structure Layout where
  previous : Option Nat
  recordCount : Nat
  pages : List TableHeapPageInfo

def layoutTurn (file : PageFile Area) (id : Nat) (found : Layout) : Except Error (Layout × Option Nat) := do
  let current ← load file id
  if current.previousPage ≠ found.previous then
    throw ⟨.corruptPage, "TableHeap page has an inconsistent previous-page link"⟩
  else
    pure (⟨some id, found.recordCount + current.recordCount,
      found.pages ++ [⟨id, current.previousPage, current.nextPage, current.recordCount,
        current.freeSpace⟩]⟩, current.nextPage)

/-- `TableHeap::layout`. -/
def layout (file : PageFile Area) (heap : TableHeap) : Except Error (List TableHeapPageInfo) :=
  match heap.first with
  | none =>
    if heap.last ≠ none ∨ heap.pageCount ≠ 0 ∨ heap.recordCount ≠ 0 then
      .error ⟨.corruptPage, "empty TableHeap metadata is inconsistent"⟩
    else .ok []
  | some first => do
    let found ← Walk.visit visitCycle (layoutTurn file) (pageFuel file) [] first ⟨none, 0, []⟩
    if heap.last ≠ found.previous ∨ found.pages.length ≠ heap.pageCount ∨
        found.recordCount ≠ heap.recordCount then
      throw ⟨.corruptPage, "TableHeap root counters or chain endpoints are inconsistent"⟩
    else pure found.pages

/-- `TableHeap::open`, with the pages of the chain. -/
def «open» (file : PageFile Area) (root : Nat) : Except Error (TableHeap × List TableHeapPageInfo) :=
  if root = 0 then .error ⟨.invalidArgument, "TableHeap root cannot be page zero"⟩
  else do
    let page ← file.read root
    let metadata ← decodeRoot page
    let heap : TableHeap := { metadata with root := root }
    let pages ← heap.layout file
    pure (heap, pages)

/-! ### Records -/

/-- A turn of `read_chain`. -/
def chainTurn (file : PageFile Area) (total id : Nat) (out : Bytes) : Except Error (Bytes × Option Nat) := do
  let page ← file.read id
  let info ← validateOverflowPage page
  if total < out.length + info.length then
    throw ⟨.corruptPage, "overflow chain is longer than its stub says"⟩
  else pure (out ++ readArea page overflowPageHeaderSize info.length, info.next)

/-- `TableHeap::read_chain`. -/
def readChain (file : PageFile Area) (stub : OverflowStub) : Except Error Bytes :=
  if stub.total = 0 ∨ overflowMaxTotal < stub.total then
    .error ⟨.corruptPage, "overflow stub has an invalid total length"⟩
  else do
    let out ← Walk.visit overflowCycle (chainTurn file stub.total) (pageFuel file) [] stub.first []
    if out.length ≠ stub.total then
      throw ⟨.corruptPage, "overflow chain is shorter than its stub says"⟩
    else pure out

/-- `TableHeap::decode_stored`. -/
def decodeStored (file : PageFile Area) (tagged : Bool) (stored : Bytes) : Except Error Bytes :=
  if tagged then do
    match ← parseStored stored with
    | none => pure (stored.drop 1)
    | some stub => readChain file stub
  else .ok stored

def occupiedSlots (page : SlottedPage) : List (Slot × Nat) :=
  page.slots.zipIdx.filter fun entry => entry.1.occupied

def slotRecord (file : PageFile Area) (tagged : Bool) (id : Nat) (page : SlottedPage)
    (entry : Slot × Nat) : Except Error HeapRecord := do
  let stored ← page.read entry.2
  let bytes ← decodeStored file tagged stored
  pure ⟨id, entry.2, entry.1.generation, bytes⟩

/-- `TableHeap::read_page_records`. -/
def readPageRecords (file : PageFile Area) (heap : TableHeap) (id : Nat) : Except Error HeapPageSlice := do
  let current ← loadTrusted file id
  let records ← (occupiedSlots current).mapM (slotRecord file heap.tagged id current)
  pure ⟨records, current.nextPage⟩

def scanTurn (file : PageFile Area) (heap : TableHeap) (id : Nat) (records : List HeapRecord) :
    Except Error (List HeapRecord × Option Nat) := do
  let slice ← heap.readPageRecords file id
  pure (records ++ slice.records, slice.next)

/-- `TableHeap::scan_records`. -/
def scanRecords (file : PageFile Area) (heap : TableHeap) : Except Error (List HeapRecord) :=
  match heap.first with
  | none => .ok []
  | some first => Walk.visit visitCycle (scanTurn file heap) (pageFuel file) [] first []

/-- `TableHeap::read`, given the pages of the chain. -/
def read (file : PageFile Area) (heap : TableHeap) (pages : List TableHeapPageInfo)
    (id slot generation : Nat) : Except Error Bytes :=
  if ∀ page ∈ pages, page.id ≠ id then
    .error ⟨.recordNotFound, "record page does not belong to this TableHeap"⟩
  else do
    let page ← loadTrusted file id
    match page.generation slot with
    | .ok found =>
      if found ≠ generation then
        throw ⟨.recordNotFound, "record generation does not match the occupied slot"⟩
      else do
        let stored ← page.read slot
        decodeStored file heap.tagged stored
    | .error _ => throw ⟨.recordNotFound, "record generation does not match the occupied slot"⟩

/-! ### Overflow chains -/

/-- A turn of the inner loop of `overflow_chains`: the pages and their lengths. -/
def overflowTurn (file : PageFile Area) (id : Nat) (found : List Nat × Nat) :
    Except Error ((List Nat × Nat) × Option Nat) := do
  let page ← file.read id
  let info ← validateOverflowPage page
  pure ((found.1 ++ [id], found.2 + info.length), info.next)

def slotChain (file : PageFile Area) (id : Nat) (page : SlottedPage) (entry : Slot × Nat) :
    Except Error (Option OverflowChain) := do
  let stored ← page.read entry.2
  match ← parseStored stored with
  | none => pure none
  | some stub => do
    let found ← Walk.visit overflowCycle (overflowTurn file) (pageFuel file) [] stub.first ([], 0)
    if found.2 ≠ stub.total then
      throw ⟨.corruptPage, "overflow chain length does not match its stub"⟩
    else pure (some ⟨id, entry.2, entry.1.generation, stub.total, found.1⟩)

def chainsTurn (file : PageFile Area) (id : Nat) (chains : List OverflowChain) :
    Except Error (List OverflowChain × Option Nat) := do
  let current ← loadTrusted file id
  let found ← (occupiedSlots current).mapM (slotChain file id current)
  pure (chains ++ found.reduceOption, current.nextPage)

/-- `TableHeap::overflow_chains`. -/
def overflowChains (file : PageFile Area) (heap : TableHeap) : Except Error (List OverflowChain) :=
  match heap.tagged, heap.first with
  | true, some first => Walk.visit visitCycle (chainsTurn file) (pageFuel file) [] first []
  | _, _ => .ok []

end TableHeap

end MoDb.Storage
