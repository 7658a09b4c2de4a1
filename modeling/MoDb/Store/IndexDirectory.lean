import MoDb.Store.BlobPages

/-!
# The directory of indexes

The catalogue lists the indexes, each with the root of its tree, in a chain of pages whose first one never
changes. Every change packs the list anew, over the pages of the chain and new ones where they are too few.
-/

namespace MoDb

namespace IndexCatalog

open Storage Store

def ixdrMagic : Bytes := [73, 88, 68, 82]
def ixdrVersion : Nat := 1
def headerSize : Nat := 16
def offNext : Nat := 8

structure IndexInfo where
  typeName : Bytes
  fieldId : UInt16
  root : UInt64
  deriving DecidableEq, Repr

/-- `entry_bytes`. -/
def entryBytes (info : IndexInfo) : Nat := 2 + info.typeName.length + 2 + 8

def writeEntry (info : IndexInfo) : Bytes :=
  storeLe 2 info.typeName.length ++ info.typeName ++ storeLe 2 info.fieldId.toNat ++
    storeLe 8 info.root.toNat

/-- The page that `write_directory_page` writes. -/
def directoryPage (entries : List IndexInfo) (next : Nat) : Area :=
  let header := ixdrMagic ++ storeLe 2 ixdrVersion ++ storeLe 2 entries.length ++ storeLe 8 next
  copyTo (copyTo default 0 header) headerSize (entries.flatMap writeEntry)

variable [PageSize]

/-! ### Reading a page -/

/-- The loop of `open` over the entries of a page. -/
def parseEntries (page : Area) : Nat → Nat → Except Error (List IndexInfo)
  | 0, _ => .ok []
  | count + 1, offset =>
    if pageSize < offset + 2 then .error ⟨.corruptPage, "index directory is truncated"⟩
    else
      let nameLength := loadAt page offset 2
      if pageSize < offset + 2 + nameLength + 2 + 8 then
        .error ⟨.corruptPage, "index directory entry overruns"⟩
      else do
        let rest ← parseEntries page count (offset + 2 + nameLength + 2 + 8)
        pure (⟨readArea page (offset + 2) nameLength,
          UInt16.ofNat (loadAt page (offset + 2 + nameLength) 2),
          UInt64.ofNat (loadAt page (offset + 2 + nameLength + 2) 8)⟩ :: rest)

def parseDirectoryPage (page : Area) : Except Error (List IndexInfo × Nat) :=
  if readArea page 0 4 ≠ ixdrMagic then
    .error ⟨.invalidPageFormat, "index directory page is missing its signature"⟩
  else if loadAt page 4 2 ≠ ixdrVersion then
    .error ⟨.incompatiblePageVersion, "unsupported index directory version"⟩
  else do
    let entries ← parseEntries page (loadAt page 6 2) headerSize
    pure (entries, loadAt page offNext 8)

end IndexCatalog

/-! ### The catalogue -/

structure IndexCatalog where
  directory : Nat
  indexes : List IndexCatalog.IndexInfo
  /-- The pages of the chain behind the first one. -/
  overflow : List Nat
  deriving DecidableEq, Repr

namespace IndexCatalog

open Storage Store

variable [PageSize]

/-- The loop of `open`; `none` after `rounds` pages that do not end the chain. The source has no bound. -/
def openLoop (directory : Nat) : Nat → Nat → List IndexInfo → List Nat →
    PageM (Option (List IndexInfo × List Nat))
  | 0, _, _, _ => pure none
  | rounds + 1, current, indexes, overflow =>
    if current = 0 then pure (some (indexes, overflow))
    else do
      let page ← PageM.read current
      let (entries, next) ← PageM.check (parseDirectoryPage page)
      openLoop directory rounds next (indexes ++ entries)
        (if current ≠ directory then overflow ++ [current] else overflow)

/-- `IndexCatalog::open`, as far as `rounds` turns of its loop go. -/
def «open» (directory rounds : Nat) : PageM (Option IndexCatalog) := do
  match ← openLoop directory rounds directory [] [] with
  | none => pure none
  | some (indexes, overflow) => pure (some ⟨directory, indexes, overflow⟩)

/-! ### Writing the chain -/

/-- The loop of `persist` that packs entries into pages: those that are full, the one being filled, and how
much of it is used. -/
def packLoop : List IndexInfo → List (List IndexInfo) → List IndexInfo → Nat →
    Except Error (List (List IndexInfo))
  | [], pages, last, _ => .ok (pages ++ [last])
  | info :: infos, pages, last, used =>
    if pageSize - headerSize < entryBytes info then
      .error ⟨.valueTooLarge, "index directory entry does not fit in a page"⟩
    else if pageSize < used + entryBytes info then
      packLoop infos (pages ++ [last]) [info] (headerSize + entryBytes info)
    else packLoop infos pages (last ++ [info]) (used + entryBytes info)

def pack (indexes : List IndexInfo) : Except Error (List (List IndexInfo)) :=
  packLoop indexes [] [] headerSize

def writePages : List Nat → List (List IndexInfo) → PageM Unit
  | id :: ids, entries :: pages => do
    PageM.write id (directoryPage entries (ids.headD 0))
    writePages ids pages
  | _, _ => pure ()

/-- `IndexCatalog::persist`: the catalogue with the pages of its new chain. -/
def persist (catalog : IndexCatalog) : PageM IndexCatalog := do
  let pages ← PageM.check (pack catalog.indexes)
  let fresh ← allocatePages (pages.length - 1 - catalog.overflow.length)
  let overflow := catalog.overflow.take (pages.length - 1) ++ fresh
  writePages (catalog.directory :: overflow) pages
  BlobStore.clearPages (catalog.overflow.drop (pages.length - 1))
  pure { catalog with overflow := overflow }

/-- `IndexCatalog::create`. -/
def create : PageM IndexCatalog := do
  let directory ← PageM.allocate
  persist ⟨directory, [], []⟩

/-- `find(...) >= 0`. -/
def contains (catalog : IndexCatalog) (typeName : Bytes) (fieldId : UInt16) : Bool :=
  catalog.indexes.any fun info => info.typeName = typeName && info.fieldId = fieldId

/-- `IndexCatalog::add`. Where it fails, memory is as it was before. -/
def add (catalog : IndexCatalog) (info : IndexInfo) : PageM IndexCatalog :=
  if catalog.contains info.typeName info.fieldId then
    throw ⟨.invalidArgument, "index already exists"⟩
  else persist { catalog with indexes := catalog.indexes ++ [info] }

/-- `IndexCatalog::set_root`. Where it fails, memory is as it was before. -/
def setRoot (catalog : IndexCatalog) (slot : Nat) (root : UInt64) : PageM IndexCatalog :=
  if catalog.indexes.length ≤ slot then throw ⟨.invalidArgument, "index slot out of range"⟩
  else persist { catalog with indexes := catalog.indexes.modify slot fun info => { info with root := root } }

/-! ### Runs -/

/-- A change of the catalogue. -/
inductive Change
  | add (info : IndexInfo)
  | setRoot (slot : Nat) (root : UInt64)

def Change.action (catalog : IndexCatalog) : Change → PageM IndexCatalog
  | .add info => catalog.add info
  | .setRoot slot root => catalog.setRoot slot root

/-- The catalogue in memory and the file after a change, whether it went through or failed. -/
def Change.apply (change : Change) (state : IndexCatalog × PageFile Area) : IndexCatalog × PageFile Area :=
  match change.action state.1 state.2 with
  | .ok catalog file => (catalog, file)
  | .error _ file => (state.1, file)

def run (changes : List Change) (state : IndexCatalog × PageFile Area) : IndexCatalog × PageFile Area :=
  changes.foldl (fun state change => change.apply state) state

end IndexCatalog

end MoDb
