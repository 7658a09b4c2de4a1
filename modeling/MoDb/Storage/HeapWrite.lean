import MoDb.Storage.SlottedImage
import MoDb.Lib.Effect
import MoDb.Lib.KeyIndex

/-!
# Writing a heap

The operations on a heap that is open, as actions on the file and on what the heap keeps in memory. What an
action did before it failed stays done.
-/

namespace MoDb.Storage

/-- `RecordId` of the storage. -/
structure HeapRecordId where
  page : Nat
  slot : Nat
  generation : Nat
  deriving DecidableEq, Repr

/-- A `TableHeap` with its file. `capacities` is `insertion_capacity_by_page_` with `capacity_index_`. -/
structure HeapHandle where
  file : PageFile Area
  heap : TableHeap
  pageIds : Finset Nat
  capacities : KeyIndex Nat Nat

abbrev HeapM := EStateM Error HeapHandle

namespace SlottedPage

def setNextPage (page : SlottedPage) (next : Option Nat) : Except Error SlottedPage :=
  if next = some 0 then .error ⟨.invalidArgument, "page zero cannot be the next record page"⟩
  else .ok { page with nextPage := next }

def setPreviousPage (page : SlottedPage) (previous : Option Nat) : Except Error SlottedPage :=
  if previous = some 0 then .error ⟨.invalidArgument, "page zero cannot be the previous record page"⟩
  else .ok { page with previousPage := previous }

/-- `SlottedPage::create`, with its signature. -/
def formatted [PageSize] : SlottedPage :=
  { create with area := copyTo default 0 (slottedMagic ++ [UInt8.ofNat slottedPageFormatVersion]) }

end SlottedPage

namespace HeapHandle

/-! ### Pages -/

def demand {α : Type} : Except Error α → HeapM α
  | .ok value => pure value
  | .error error => throw error

def view (id : Nat) : HeapM Area := do demand ((← get).file.read id)

def loadPage (id : Nat) : HeapM SlottedPage := do demand (loadTrusted (← get).file id)

/-- `TableHeap::write_page`. -/
def writePage (id : Nat) (page : Area) : HeapM Unit := do
  let file ← demand ((← get).file.write id page)
  modify fun handle => { handle with file := file }

/-- `TableHeap::persist_root`. -/
def persistRoot : HeapM Unit := do
  let heap := (← get).heap
  writePage heap.root (encodeRoot heap.toRootMetadata)

/-- `TableHeap::acquire_page`. -/
def acquirePage : HeapM Nat := do
  let handle ← get
  match handle.heap.freeHead with
  | none => do
    let (id, file) ← demand handle.file.allocatePage
    modify fun handle => { handle with file := file }
    pure id
  | some id => do
    let page ← loadPage id
    if page.recordCount ≠ 0 then
      throw ⟨.corruptPage, s!"TableHeap free-list page {id} is not empty"⟩
    else do
      modify fun handle => { handle with heap := { handle.heap with freeHead := page.nextPage } }
      pure id

/-- `set_insertion_capacity`. -/
def setInsertionCapacity (page capacity : Nat) : HeapM Unit :=
  modify fun handle => { handle with capacities := handle.capacities.set page capacity }

/-- `forget_page_capacity`. -/
def forgetPageCapacity (page : Nat) : HeapM Unit :=
  modify fun handle => { handle with capacities := handle.capacities.forget page }

/-- The page that `insert_stored` tries first: of those with room, but not the last one. -/
def candidate (handle : HeapHandle) (size : Nat) : Option Nat :=
  (handle.capacities.search (toLex (size, 0)) fun page => handle.heap.last == some page).map
    fun entry => (ofLex entry).2

variable [PageSize]

/-- `TableHeap::release_page`. -/
def releasePage (id : Nat) : HeapM Unit := do
  let freed ← demand (SlottedPage.formatted.setNextPage (← get).heap.freeHead)
  writePage id freed.page
  modify fun handle => { handle with heap := { handle.heap with freeHead := some id } }

/-! ### Chains -/

def overflowImage (next : Option Nat) (data : Bytes) : Area :=
  copyTo default 0 (overflowMagic ++ (storeLe 2 overflowFormatVersion ++ (storeLe 2 0 ++
    (storeLe 8 (next.getD 0) ++ (storeLe 4 data.length ++ (storeLe 4 0 ++ data))))))

def acquirePages : Nat → HeapM (List Nat)
  | 0 => pure []
  | count + 1 => do
    let id ← acquirePage
    let ids ← acquirePages count
    pure (id :: ids)

/-- The second loop of `write_chain`. -/
def writePieces : List Nat → Bytes → HeapM Unit
  | [], _ => pure ()
  | id :: ids, data => do
    writePage id (overflowImage ids.head? (data.take overflowPageCapacity))
    writePieces ids (data.drop overflowPageCapacity)

/-- `TableHeap::write_chain`, for a record that is not empty. -/
def writeChain (data : Bytes) : HeapM Nat := do
  let pages ← acquirePages ((data.length + overflowPageCapacity - 1) / overflowPageCapacity)
  writePieces pages data
  pure (pages.headD 0)

def releasePages : List Nat → HeapM Unit
  | [] => pure ()
  | id :: ids => do
    releasePage id
    releasePages ids

/-- `TableHeap::free_chain`. -/
def freeChain (first : Nat) : HeapM Unit := do
  let file := (← get).file
  let found ← demand
    (Walk.visit overflowCycle (TableHeap.overflowTurn file) (pageFuel file) [] first ([], 0))
  releasePages found.1

/-! ### Records as they are stored -/

/-- `TableHeap::encode_stored`. -/
def encodeStored (record : Bytes) : HeapM Bytes := do
  let handle ← get
  if record = [] then throw ⟨.invalidArgument, "record cannot be empty"⟩
  else if ¬handle.heap.tagged then
    if slottedPageMaxRecordSize < record.length then
      throw ⟨.recordTooLarge,
        "record exceeds the maximum TableHeap page payload (this heap predates overflow records, ADR-030)"⟩
    else pure record
  else if 1 + record.length ≤ slottedPageMaxRecordSize then pure (recordTagInline :: record)
  else do
    let first ← writeChain record
    pure (recordTagOverflow :: (storeLe 8 record.length ++ storeLe 8 first))

/-- `TableHeap::free_stored`. -/
def freeStored (stored : Bytes) : HeapM Unit := do
  if ¬(← get).heap.tagged then pure ()
  else
    match ← demand (parseStored stored) with
    | none => pure ()
    | some stub => freeChain stub.first

/-! ### Insertion -/

/-- The last steps of an insertion into a page that is not in the chain yet. -/
def join (id : Nat) (page : SlottedPage) : HeapM Unit := do
  modify fun handle => { handle with pageIds := insert id handle.pageIds }
  setInsertionCapacity id page.insertionCapacity

/-- `try_insert` of `insert_stored`. -/
def tryInsert (stored : Bytes) (id : Nat) : HeapM (Option HeapRecordId) := do
  let page ← loadPage id
  match page.insert stored with
  | .error error =>
    if error.code = .pageFull then do
      setInsertionCapacity id page.insertionCapacity
      pure none
    else throw error
  | .ok (slot, inserted) => do
    let generation ← demand (inserted.generation slot)
    writePage id inserted.page
    setInsertionCapacity id inserted.insertionCapacity
    modify fun handle => { handle with
      heap := { handle.heap with recordCount := handle.heap.recordCount + 1 } }
    persistRoot
    pure (some ⟨id, slot, generation⟩)

def insertFirst (stored : Bytes) : HeapM HeapRecordId := do
  let id ← acquirePage
  let (slot, page) ← demand (SlottedPage.formatted.insert stored)
  let generation ← demand (page.generation slot)
  writePage id page.page
  modify fun handle => { handle with
    heap := { handle.heap with first := some id, last := some id, pageCount := 1, recordCount := 1 } }
  join id page
  persistRoot
  pure ⟨id, slot, generation⟩

def insertAfter (stored : Bytes) (last : Nat) : HeapM HeapRecordId := do
  let previous ← loadPage last
  if previous.nextPage ≠ none then
    throw ⟨.corruptPage, "TableHeap last page unexpectedly has a next-page link"⟩
  else do
    let id ← acquirePage
    let linked ← demand (SlottedPage.formatted.setPreviousPage (some last))
    let (slot, page) ← demand (linked.insert stored)
    let generation ← demand (page.generation slot)
    writePage id page.page
    let previous ← demand (previous.setNextPage (some id))
    writePage last previous.page
    setInsertionCapacity last previous.insertionCapacity
    join id page
    modify fun handle => { handle with
      heap := { handle.heap with
        last := some id
        pageCount := handle.heap.pageCount + 1
        recordCount := handle.heap.recordCount + 1 } }
    persistRoot
    pure ⟨id, slot, generation⟩

/-- `TableHeap::insert_stored`. -/
def insertStored (stored : Bytes) : HeapM HeapRecordId := do
  let handle ← get
  if slottedPageMaxRecordSize < stored.length then
    throw ⟨.recordTooLarge, "record exceeds the maximum TableHeap page payload"⟩
  else if handle.heap.first = none then insertFirst stored
  else do
    let placed ←
      match handle.candidate stored.length with
      | some id => tryInsert stored id
      | none => pure none
    match placed with
    | some id => pure id
    | none =>
      match handle.heap.last with
      | none => throw ⟨.corruptPage, "non-empty TableHeap has no last page"⟩
      | some last =>
        match ← tryInsert stored last with
        | some id => pure id
        | none => insertAfter stored last

/-- `TableHeap::insert`. -/
def insert (record : Bytes) : HeapM HeapRecordId := do
  let stored ← encodeStored record
  Effect.onError (insertStored stored) (freeStored stored)

/-! ### Erasure -/

def recordNotFound {α : Type} (message : String) : HeapM α := throw ⟨.recordNotFound, message⟩

/-- The page of a record and the record, when its id is that of an occupied slot. -/
def locate (id : HeapRecordId) : HeapM SlottedPage := do
  if id.page ∉ (← get).pageIds then recordNotFound "record page does not belong to this TableHeap"
  else do
    let page ← loadPage id.page
    match page.generation id.slot with
    | .ok generation =>
      if generation = id.generation then pure page
      else recordNotFound "record generation does not match the occupied slot"
    | .error _ => recordNotFound "record generation does not match the occupied slot"

/-- The page before the one that is taken out links to the one after it. -/
def unlinkPrevious (id : Nat) (next : Option Nat) : Option Nat → HeapM Unit
  | none => pure ()
  | some before => do
    let previous ← loadPage before
    if previous.nextPage ≠ some id then
      throw ⟨.corruptPage, "TableHeap previous page does not link to the removed page"⟩
    else do
      let previous ← demand (previous.setNextPage next)
      writePage before previous.page

def unlinkNext (id : Nat) (previous : Option Nat) : Option Nat → HeapM Unit
  | none => pure ()
  | some after => do
    let next ← loadPage after
    if next.previousPage ≠ some id then
      throw ⟨.corruptPage, "TableHeap next page does not link back to the removed page"⟩
    else do
      let next ← demand (next.setPreviousPage previous)
      writePage after next.page

/-- A page that has become empty leaves the chain and becomes the first free one. -/
def unlink (id : Nat) (previous next : Option Nat) : HeapM Unit := do
  let heap := (← get).heap
  if (previous = none ∧ heap.first ≠ some id) ∨ (next = none ∧ heap.last ≠ some id) then
    throw ⟨.corruptPage, "TableHeap data-chain endpoint does not match root metadata"⟩
  else do
    unlinkPrevious id next previous
    unlinkNext id previous next
    modify fun handle => { handle with
      heap := { handle.heap with
        first := if handle.heap.pageCount = 1 then none
          else if previous = none then next else handle.heap.first
        last := if handle.heap.pageCount = 1 then none
          else if next = none then previous else handle.heap.last
        pageCount := handle.heap.pageCount - 1
        recordCount := handle.heap.recordCount - 1 }
      pageIds := handle.pageIds.erase id }
    forgetPageCapacity id
    releasePage id
    persistRoot

/-- `TableHeap::erase`. -/
def erase (id : HeapRecordId) : HeapM Unit := do
  let current ← locate id
  let stored ← demand (current.read id.slot)
  freeStored stored
  let erased ← demand (current.erase id.slot)
  let heap := (← get).heap
  if heap.recordCount = 0 ∨ heap.pageCount = 0 then
    throw ⟨.corruptPage, "TableHeap counters underflow during erase"⟩
  else if erased.recordCount ≠ 0 then do
    writePage id.page erased.page
    modify fun handle => { handle with
      heap := { handle.heap with recordCount := handle.heap.recordCount - 1 } }
    setInsertionCapacity id.page erased.insertionCapacity
    persistRoot
  else unlink id.page erased.previousPage erased.nextPage

/-! ### Update -/

/-- `is_overflow` of `update`. -/
def isOverflow (tagged : Bool) (stored : Bytes) : Bool := tagged && stored.head? = some recordTagOverflow

/-- `TableHeap::update`. -/
def update (id : HeapRecordId) (record : Bytes) : HeapM HeapRecordId := do
  let page ← locate id
  let oldStored ← demand (page.read id.slot)
  let stored ← encodeStored record
  let tagged := (← get).heap.tagged
  match page.update id.slot stored with
  | .ok updated => do
    writePage id.page updated.page
    setInsertionCapacity id.page updated.insertionCapacity
    freeStored oldStored
    if isOverflow tagged oldStored || isOverflow tagged stored then persistRoot
    pure id
  | .error error =>
    if error.code ≠ .pageFull then Effect.onError (throw error) (freeStored stored)
    else do
      let replacement ← Effect.onError (insertStored stored) (freeStored stored)
      erase id
      pure replacement

/-- `TableHeap::read`. -/
def read (handle : HeapHandle) (id : HeapRecordId) : Except Error Bytes :=
  if id.page ∉ handle.pageIds then .error ⟨.recordNotFound, "record page does not belong to this TableHeap"⟩
  else do
    let page ← loadTrusted handle.file id.page
    match page.generation id.slot with
    | .ok found =>
      if found ≠ id.generation then
        throw ⟨.recordNotFound, "record generation does not match the occupied slot"⟩
      else do
        let stored ← page.read id.slot
        TableHeap.decodeStored handle.file handle.heap.tagged stored
    | .error _ => throw ⟨.recordNotFound, "record generation does not match the occupied slot"⟩

omit [PageSize] in
/-- `TableHeap::create`. -/
def create (file : PageFile Area) : Except Error HeapHandle := do
  let (root, file) ← file.allocatePage
  let metadata : RootMetadata := ⟨none, none, 0, 0, none, true⟩
  let file ← file.write root (encodeRoot metadata)
  pure ⟨file, { metadata with root := root }, ∅, .empty⟩

/-- `TableHeap::open`, with what it keeps in memory. -/
def «open» (file : PageFile Area) (root : Nat) : Except Error HeapHandle := do
  let (heap, pages) ← TableHeap.open file root
  pure ⟨file, heap, (pages.map TableHeapPageInfo.id).toFinset, .ofEntries (pages.map fun info =>
    (info.id, ((loadTrusted file info.id).map SlottedPage.insertionCapacity).toOption.getD 0))⟩

end HeapHandle

end MoDb.Storage
