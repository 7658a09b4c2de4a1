import MoDb.Store.PageActions

/-!
# Blobs

A blob is a chain of pages, each with a header and a piece of the contents, and its id is that of the
first page. Pages are full but for the last one; a blob without contents has one page.
-/

namespace MoDb.Store

open Storage Effect

def blobHeaderSize : Nat := 24
def blobPageVersion : Nat := 1
def blobMagic : Bytes := [66, 76, 66, 80]

def blobPageCapacity [PageSize] : Nat := pageSize - blobHeaderSize

structure BlobPageHeader where
  next : Nat
  length : Nat
  deriving DecidableEq, Repr

variable [PageSize]

/-- `parse_blob_page`. -/
def parseBlobPage (page : Area) : Except Error BlobPageHeader :=
  let version := loadAt page 4 2
  let length := loadAt page 16 4
  if readArea page 0 4 ≠ blobMagic then
    .error ⟨.invalidPageFormat, "page is not a blob page (bad magic)"⟩
  else if version ≠ blobPageVersion then
    .error ⟨.incompatiblePageVersion, s!"unsupported blob page version: {version}"⟩
  else if blobPageCapacity < length then
    .error ⟨.corruptPage, "blob page payload length exceeds page capacity"⟩
  else .ok ⟨loadAt page 8 8, length⟩

def chunkOf (page : Area) (header : BlobPageHeader) : Bytes :=
  readArea page blobHeaderSize header.length

/-- `build_page`. -/
def buildPage (next : Nat) (chunk : Bytes) : Area :=
  let header := blobMagic ++ storeLe 2 blobPageVersion ++ storeLe 2 0 ++ storeLe 8 next ++
    storeLe 4 chunk.length ++ storeLe 4 0
  copyTo (copyTo default 0 header) blobHeaderSize chunk

/-! ### The store -/

def readBlobPage (id : Nat) : PageM (Area × BlobPageHeader) := do
  let page ← PageM.read id
  let header ← PageM.check (parseBlobPage page)
  pure (page, header)

/-- `require_write_transaction`. -/
def requireWriteTransaction (transactionRequired : Bool) : PageM Unit := fun file =>
  if transactionRequired ∧ ¬file.inTransaction then
    .error ⟨.transactionRequired, "blob writes require an active transaction"⟩ file
  else .ok () file

def requireBlobId (id : Nat) : PageM Unit :=
  if id = 0 then throw ⟨.invalidArgument, "null blob id"⟩ else pure ()

def chainCycle : Error := ⟨.pageChainCycle, "blob chain revisits a page"⟩

/-- The loop along a chain, with what is done at each page. `fuel` bounds the pages; the pages that have
been visited are all different, so the number of pages in the file is enough of it. -/
def walkChain {σ : Type} (visit : Nat → Area → BlobPageHeader → σ → PageM σ) :
    Nat → List Nat → Nat → σ → PageM σ
  | 0, _, _, _ => throw chainCycle
  | fuel + 1, visited, current, state =>
    if current = 0 then pure state
    else if current ∈ visited then throw chainCycle
    else do
      let (page, header) ← readBlobPage current
      let state ← visit current page header state
      walkChain visit fuel (current :: visited) header.next state

def pageFuel : PageM Nat := fun file => .ok (file.pageCount + 1) file

def allocatePages : Nat → PageM (List Nat)
  | 0 => pure []
  | count + 1 => do
    let id ← PageM.allocate
    let ids ← allocatePages count
    pure (id :: ids)

/-- The loop that writes the pieces of `data` to the pages, each with the id of the next page. -/
def writeChunks : List Nat → Bytes → PageM Unit
  | [], _ => pure ()
  | id :: ids, data => do
    PageM.write id (buildPage (ids.headD 0) (data.take blobPageCapacity))
    writeChunks ids (data.drop blobPageCapacity)

/-- How many full pages `size` bytes need, rounded up. -/
def pagesFor (size : Nat) : Nat := (size + blobPageCapacity - 1) / blobPageCapacity

def pagesNeeded (data : Bytes) : Nat := if data = [] then 1 else pagesFor data.length

namespace BlobStore

/-- `BlobStore::create`. -/
def create (transactionRequired : Bool) (data : Bytes) : PageM Nat := do
  requireWriteTransaction transactionRequired
  let ids ← allocatePages (pagesNeeded data)
  writeChunks ids data
  pure (ids.headD 0)

/-- `BlobStore::read`, by `read_chunks`. -/
def read (id : Nat) : PageM Bytes := do
  requireBlobId id
  let fuel ← pageFuel
  walkChain (fun _ page header out => pure (out ++ chunkOf page header)) fuel [] id []

/-- `BlobStore::append`. -/
def append (transactionRequired : Bool) (id : Nat) (data : Bytes) : PageM Unit := do
  requireWriteTransaction transactionRequired
  requireBlobId id
  if data = [] then pure ()
  else do
    let fuel ← pageFuel
    let (last, lastPage, lastHeader) ←
      walkChain (fun current page header _ => pure (current, page, header)) fuel [] id (id, default, ⟨0, 0⟩)
    let room := blobPageCapacity - lastHeader.length
    let inLast := min room data.length
    let rest := data.drop inLast
    let ids ← allocatePages (pagesFor rest.length)
    writeChunks ids rest
    let merged := chunkOf lastPage lastHeader ++ data.take inLast
    PageM.write last (buildPage (ids.headD 0) merged)

/-- `BlobStore::overwrite_prefix`. -/
def overwritePrefix (transactionRequired : Bool) (id : Nat) (bytes : Bytes) : PageM Unit := do
  requireWriteTransaction transactionRequired
  requireBlobId id
  let (page, header) ← readBlobPage id
  if header.length < bytes.length then
    throw ⟨.invalidArgument, "blob prefix overwrite is longer than the first page content"⟩
  else PageM.write id (copyTo page blobHeaderSize bytes)

/-- `BlobStore::read_prefix`. -/
def readPrefix (id count : Nat) : PageM Bytes := do
  requireBlobId id
  let (page, header) ← readBlobPage id
  if header.length < count then
    throw ⟨.corruptPage, "blob is shorter than the requested prefix"⟩
  else pure (readArea page blobHeaderSize count)

def clearPages : List Nat → PageM Unit
  | [] => pure ()
  | id :: ids => do
    PageM.write id default
    clearPages ids

/-- `BlobStore::rewrite`. -/
def rewrite (transactionRequired : Bool) (id : Nat) (data : Bytes) : PageM Nat := do
  requireWriteTransaction transactionRequired
  if id = 0 then create transactionRequired data
  else do
    let fuel ← pageFuel
    let oldIds ← walkChain (fun current _ _ ids => pure (ids ++ [current])) fuel [] id []
    let needed := pagesNeeded data
    let newIds ← allocatePages (needed - oldIds.length)
    let ids := oldIds.take needed ++ newIds
    writeChunks ids data
    clearPages (oldIds.drop needed)
    pure (ids.headD 0)

/-- `BlobStore::remove`. -/
def remove (transactionRequired : Bool) (id : Nat) : PageM Unit := do
  requireWriteTransaction transactionRequired
  requireBlobId id
  let fuel ← pageFuel
  walkChain (fun current _ _ _ => PageM.write current default) fuel [] id ()

end BlobStore

end MoDb.Store
