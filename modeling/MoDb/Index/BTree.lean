import MoDb.Index.KeySet
import MoDb.Storage.PageFile
import MoDb.Lib.Bisect
import MoDb.Lib.Effect

/-!
# The B+ tree

A node is a page of the data file: a leaf holds entries and the page of the leaf to its right, an
inner node the page of its leftmost child and cells, each an entry and the child to its right. The
tree is the page of its root. A call may fail where the page file does, and then keeps what it wrote
before; it stops for good where the source has no defined behaviour.
-/

namespace MoDb.Index

open Storage

/-- `Entry`: an index entry, and in an inner node the child right of it. -/
structure Cell where
  key : Bytes
  objid : Nat
  child : Nat := 0
  deriving DecidableEq

def Cell.entry (cell : Cell) : Entry := (cell.key, cell.objid)

def Cell.ofEntry (entry : Entry) (child : Nat) : Cell := ⟨entry.1, entry.2, child⟩

/-- The signature of a page. -/
inductive NodeKind
  | blank
  | leaf
  | internal
  deriving DecidableEq

/-- A node as its page holds it. `link` is `next_leaf` in a leaf and `leftmost_child` in an inner
node. -/
structure Node where
  kind : NodeKind
  level : Nat
  link : Nat
  cells : List Cell
  deriving DecidableEq

/-- `Page{}` -/
instance : Inhabited Node := ⟨⟨.blank, 0, 0, []⟩⟩

namespace Node

/-- `node_is_leaf` -/
def isLeaf (node : Node) : Bool := node.kind == .leaf

def entries (node : Node) : List Entry := node.cells.map Cell.entry

/-- `lower_bound_index` -/
def lowerBoundIndex (node : Node) (target : Entry) : Nat :=
  Bisect.search (fun cell : Cell => entryLess cell.entry target) node.cells

/-- `upper_bound_index` -/
def upperBoundIndex (node : Node) (target : Entry) : Nat :=
  Bisect.search (fun cell : Cell => !entryLess target cell.entry) node.cells

/-- The child at a place: the leftmost one, then the child of each cell. `sibling_at` counts its
slots from -1. -/
def siblingAt (node : Node) : Nat → Nat
  | 0 => node.link
  | slot + 1 => (node.cells[slot]?.map Cell.child).getD 0

def childFor (node : Node) (target : Entry) : Nat := node.siblingAt (node.upperBoundIndex target)

/-- `child_slot`, counted like the places of `siblingAt`; none where it returns -2. -/
def childSlot (node : Node) (child : Nat) : Option Nat :=
  if node.link = child then some 0
  else (node.cells.findIdx? fun cell => cell.child = child).map (· + 1)

def setSeparator (node : Node) (slot : Nat) (entry : Entry) : Node :=
  { node with cells := node.cells.modify slot fun cell => Cell.ofEntry entry cell.child }

end Node

/-! ### Bytes of a node -/

def entryBytes (leaf : Bool) (entry : Entry) : Nat := cellBytes entry.1.length leaf + nodeSlotSize

/-- `total_bytes` of all entries. -/
def totalBytes (entries : List Entry) (leaf : Bool) : Nat := (entries.map (entryBytes leaf)).sum

section Sizes

variable [PageSize]

def fits (entries : List Entry) (leaf : Bool) : Bool := totalBytes entries leaf ≤ nodeCapacity

def underfull (entries : List Entry) (leaf : Bool) : Bool :=
  totalBytes entries leaf < nodeCapacity / 3

/-- The loop of `split_point`, with the bytes used and the index so far. -/
def splitScan (leaf : Bool) : Nat → Nat → List Entry → Option Nat
  | _, _, [] => none
  | used, i, entry :: entries =>
    if nodeCapacity / 2 < used + entryBytes leaf entry ∧ 0 < i then some i
    else splitScan leaf (used + entryBytes leaf entry) (i + 1) entries

/-- `split_point` -/
def splitPoint (entries : List Entry) (leaf : Bool) : Nat :=
  let mid := (splitScan leaf 0 0 entries).getD (entries.length / 2)
  let mid := if mid = 0 then 1 else mid
  if entries.length ≤ mid then entries.length - 1 else mid

end Sizes

/-! ### Pages -/

/-- Why a call did not return. -/
inductive Stop
  | error (error : Error)
  /-- `write_node` of entries that do not fit: it would write outside the page. -/
  | overflow
  /-- A walk over the nodes that met more nodes than the file has pages. -/
  | endless
  deriving DecidableEq

abbrev TreeM := EStateM Stop (PageFile Node)

def readPage (id : Nat) : TreeM Node := fun file =>
  match file.read id with
  | .ok node => .ok node file
  | .error error => .error (.error error) file

def writePage (id : Nat) (node : Node) : TreeM Unit := fun file =>
  match file.write id node with
  | .ok file' => .ok () file'
  | .error error => .error (.error error) file

def allocatePage : TreeM Nat := fun file =>
  match file.allocatePage with
  | .ok (id, file') => .ok id file'
  | .error error => .error (.error error) file

def nodeCount : TreeM Nat := fun file => .ok file.pageCount file

section Code

variable [PageSize]

/-- `write_node` -/
def writeNode (leaf : Bool) (level link : Nat) (cells : List Cell) : TreeM Node :=
  if fits (cells.map Cell.entry) leaf then
    pure ⟨if leaf then .leaf else .internal, level, link, cells⟩
  else throw .overflow

/-- `write_node` of a node, and the write of its page. -/
def storeNode (id : Nat) (node : Node) : TreeM Unit := do
  let page ← writeNode node.isLeaf node.level node.link node.cells
  writePage id page

/-- The walk from `current` down to a leaf: the leaf, and the inner nodes passed, the last one
first. -/
def descendPath (target : Entry) : Nat → Nat → List Nat → TreeM (Nat × List Nat)
  | 0, _, _ => throw .endless
  | fuel + 1, current, path => do
    let page ← readPage current
    if page.isLeaf then pure (current, path)
    else descendPath target fuel (page.childFor target) (current :: path)

/-- `BTree::create`, which returns the root. -/
def create : TreeM Nat := do
  let root ← allocatePage
  let page ← writeNode true 0 0 []
  writePage root page
  pure root

/-! ### Insertion -/

/-- The loop of `propagate`. The root it returns is the new one. -/
def propagate (root : Nat) : List Nat → Cell → Nat → Nat → TreeM Nat
  | [], separator, leftChild, childLevel => do
    let newRoot ← allocatePage
    let page ← writeNode false ((childLevel + 1) % 2 ^ 16) leftChild [separator]
    writePage newRoot page
    pure newRoot
  | parentId :: path, separator, _, _ => do
    let parent ← readPage parentId
    let cells := parent.cells.insertIdx (parent.lowerBoundIndex separator.entry) separator
    if fits (cells.map Cell.entry) false then
      let page ← writeNode false parent.level parent.link cells
      writePage parentId page
      pure root
    else
      let mid := splitPoint (cells.map Cell.entry) false
      let middle := (cells[mid]?).getD separator
      let rightId ← allocatePage
      let leftPage ← writeNode false parent.level parent.link (cells.take mid)
      let rightPage ← writeNode false parent.level middle.child (cells.drop (mid + 1))
      writePage parentId leftPage
      writePage rightId rightPage
      propagate root path { middle with child := rightId } parentId parent.level

/-- `BTree::insert` -/
def insert (root : Nat) (key : Bytes) (objectId : Nat) : TreeM Nat := do
  if keyTooLarge key then
    throw (.error ⟨.valueTooLarge, "index key is too large for a B+ tree node"⟩)
  let (current, path) ← descendPath (key, objectId) (← nodeCount) root []
  let leaf ← readPage current
  let idx := leaf.lowerBoundIndex (key, objectId)
  if leaf.entries[idx]? = some (key, objectId) then
    throw (.error ⟨.invalidArgument, "duplicate index entry"⟩)
  let cells := leaf.cells.insertIdx idx ⟨key, objectId, 0⟩
  if fits (cells.map Cell.entry) true then
    let page ← writeNode true 0 leaf.link cells
    writePage current page
    pure root
  else
    let mid := splitPoint (cells.map Cell.entry) true
    let rightId ← allocatePage
    let rightCells := cells.drop mid
    let leftPage ← writeNode true 0 rightId (cells.take mid)
    let rightPage ← writeNode true 0 leaf.link rightCells
    writePage current leftPage
    writePage rightId rightPage
    let child ← readPage current
    propagate root path { rightCells.headD ⟨key, objectId, 0⟩ with child := rightId } current
      child.level

/-! ### Removal -/

/-- The loop that lends a leaf entries of its sibling: the first number of entries after which
neither leaf is underfull. -/
def lendCount (donor trial : Nat → List Cell) : Nat → Nat → Option Nat
  | 0, _ => none
  | left + 1, take =>
    if underfull ((donor (take + 1)).map Cell.entry) true then none
    else if !underfull ((trial (take + 1)).map Cell.entry) true &&
        fits ((trial (take + 1)).map Cell.entry) true then some (take + 1)
    else lendCount donor trial left (take + 1)

/-- What `try_borrow_right` decides: the node, its right sibling and the separator between the two
after the loan. -/
def borrowRight (node right : Node) (separator : Entry) : Option (Node × Node × Entry) :=
  if node.isLeaf then
    (lendCount right.cells.drop (fun take => node.cells ++ right.cells.take take)
      right.cells.length 0).map fun take =>
        ({ node with cells := node.cells ++ right.cells.take take },
          { right with cells := right.cells.drop take },
          ((right.cells.drop take).headD ⟨[], 0, 0⟩).entry)
  else
    match right.cells with
    | [] => none
    | up :: donor =>
      if underfull (donor.map Cell.entry) false then none
      else
        let trial := node.cells ++ [Cell.ofEntry separator right.link]
        if underfull (trial.map Cell.entry) false || !fits (trial.map Cell.entry) false then none
        else
          some ({ node with cells := trial }, { right with link := up.child, cells := donor },
            up.entry)

/-- What `try_borrow_left` decides: the left sibling, the node and the separator between the two
after the loan. -/
def borrowLeft (left node : Node) (separator : Entry) : Option (Node × Node × Entry) :=
  if node.isLeaf then
    (lendCount (fun take => left.cells.take (left.cells.length - take))
      (fun take => left.cells.drop (left.cells.length - take) ++ node.cells)
      left.cells.length 0).map fun take =>
        let trial := left.cells.drop (left.cells.length - take) ++ node.cells
        ({ left with cells := left.cells.take (left.cells.length - take) },
          { node with cells := trial }, (trial.headD ⟨[], 0, 0⟩).entry)
  else
    match left.cells.getLast? with
    | none => none
    | some up =>
      if underfull (left.cells.dropLast.map Cell.entry) false then none
      else
        let trial := Cell.ofEntry separator node.link :: node.cells
        if underfull (trial.map Cell.entry) false || !fits (trial.map Cell.entry) false then none
        else
          some ({ left with cells := left.cells.dropLast },
            { node with link := up.child, cells := trial }, up.entry)

/-- The node that a merge of two neighbours leaves, in the page of the left one. -/
def merged (left right : Node) (separator : Entry) : Node :=
  if left.isLeaf then { left with link := right.link, cells := left.cells ++ right.cells }
  else { left with cells := left.cells ++ Cell.ofEntry separator right.link :: right.cells }

def Node.separatorAt (node : Node) (slot : Nat) : Entry :=
  (node.cells[slot]?.map Cell.entry).getD ([], 0)

/-- `write_orphan` -/
def writeOrphan (id : Nat) : TreeM Unit := writePage id default

/-- `try_borrow_right`; `place` counts like `siblingAt`. -/
def tryBorrowRight (nodeId : Nat) (node : Node) (parentId : Nat) (parent : Node) (place : Nat) :
    TreeM Bool := do
  if parent.cells.length ≤ place then pure false
  else
    let rightId := parent.siblingAt (place + 1)
    let right ← readPage rightId
    match borrowRight node right (parent.separatorAt place) with
    | none => pure false
    | some (node', right', separator) =>
      let leftPage ← writeNode node.isLeaf node.level node'.link node'.cells
      let rightPage ← writeNode node.isLeaf node.level right'.link right'.cells
      let parent' := parent.setSeparator place separator
      let parentPage ← writeNode false parent'.level parent'.link parent'.cells
      writePage nodeId leftPage
      writePage rightId rightPage
      writePage parentId parentPage
      pure true

/-- `try_borrow_left` -/
def tryBorrowLeft (nodeId : Nat) (node : Node) (parentId : Nat) (parent : Node) : Nat → TreeM Bool
  | 0 => pure false
  | slot + 1 => do
    let leftId := parent.siblingAt slot
    let left ← readPage leftId
    match borrowLeft left node (parent.separatorAt slot) with
    | none => pure false
    | some (left', node', separator) =>
      let leftPage ← writeNode node.isLeaf node.level left'.link left'.cells
      let rightPage ← writeNode node.isLeaf node.level node'.link node'.cells
      let parent' := parent.setSeparator slot separator
      let parentPage ← writeNode false parent'.level parent'.link parent'.cells
      writePage leftId leftPage
      writePage nodeId rightPage
      writePage parentId parentPage
      pure true

/-- The loop of `rebalance`. -/
def rebalance (root : Nat) : List Nat → Nat → Node → TreeM Nat
  | [], nodeId, node => do
    if !node.isLeaf && node.cells.isEmpty then
      writeOrphan nodeId
      pure node.link
    else
      storeNode nodeId node
      pure root
  | parentId :: path, nodeId, node => do
    if !underfull node.entries node.isLeaf then
      storeNode nodeId node
      pure root
    else
      let parent ← readPage parentId
      match parent.childSlot nodeId with
      | none => throw (.error ⟨.corruptPage, "B+ child missing from parent"⟩)
      | some place =>
        if ← tryBorrowRight nodeId node parentId parent place then pure root
        else if ← tryBorrowLeft nodeId node parentId parent place then pure root
        else
          let shrunk (slot : Nat) : Node :=
            ⟨.internal, parent.level, parent.link, parent.cells.eraseIdx slot⟩
          if place < parent.cells.length then
            let dropId := parent.siblingAt (place + 1)
            let right ← readPage dropId
            let whole := merged node right (parent.separatorAt place)
            if fits whole.entries node.isLeaf then
              storeNode nodeId whole
              writeOrphan dropId
              rebalance root path parentId (shrunk place)
            else
              storeNode nodeId node
              pure root
          else
            match place with
            | slot + 1 =>
              let keepId := parent.siblingAt slot
              let left ← readPage keepId
              let whole := merged { left with kind := node.kind, level := node.level } node
                (parent.separatorAt slot)
              if fits whole.entries node.isLeaf then
                storeNode keepId whole
                writeOrphan nodeId
                rebalance root path parentId (shrunk slot)
              else
                storeNode nodeId node
                pure root
            | 0 =>
              storeNode nodeId node
              rebalance root path parentId ⟨.internal, parent.level, parent.link, parent.cells⟩

/-- `BTree::remove` -/
def remove (root : Nat) (key : Bytes) (objectId : Nat) : TreeM Nat := do
  let (current, path) ← descendPath (key, objectId) (← nodeCount) root []
  let leaf ← readPage current
  let idx := leaf.lowerBoundIndex (key, objectId)
  if leaf.entries[idx]? = some (key, objectId) then
    rebalance root path current ⟨.leaf, 0, leaf.link, leaf.cells.eraseIdx idx⟩
  else throw (.error ⟨.recordNotFound, "index entry not found"⟩)

/-! ### Reads -/

/-- The loop of `BTree::range` over the leaves; `lo` is there on the first one only. -/
def rangeLoop (hi : Bytes) : Nat → Nat → Option Bytes → List Nat → TreeM (List Nat)
  | 0, _, _, _ => throw .endless
  | fuel + 1, current, lo, out => do
    let page ← readPage current
    let start := (lo.map fun lo => page.lowerBoundIndex (lo, 0)).getD 0
    let cells := page.cells.drop start
    let within := cells.takeWhile fun cell => !bytesLess hi cell.key
    let out := out ++ within.map Cell.objid
    if within.length < cells.length then pure out
    else if page.link = 0 then pure out
    else rangeLoop hi fuel page.link none out

/-- `BTree::range` -/
def range (root : Nat) (lo hi : Bytes) : TreeM (List Nat) := do
  let count ← nodeCount
  let (current, _) ← descendPath (lo, 0) count root []
  rangeLoop hi count current (some lo) []

/-- `BTree::find` -/
def find (root : Nat) (key : Bytes) : TreeM (List Nat) := range root key key

/-- A node still to be checked. -/
structure Frame where
  id : Nat
  depth : Nat
  isRoot : Bool

def inOrder : List Entry → Bool
  | a :: b :: rest => entryLess a b && inOrder (b :: rest)
  | _ => true

/-- The loop of `BTree::validate`. The top of the stack is the head of the list. -/
def validateLoop : Nat → List Frame → Nat → TreeM Nat
  | _, [], leafDepth => pure leafDepth
  | 0, _ :: _, _ => throw .endless
  | fuel + 1, frame :: stack, leafDepth => do
    let page ← readPage frame.id
    if !inOrder page.entries then throw (.error ⟨.corruptPage, "B+ node keys out of order"⟩)
    if !frame.isRoot && underfull page.entries page.isLeaf then
      throw (.error ⟨.corruptPage, "B+ non-root node is underfull"⟩)
    if page.isLeaf then
      if leafDepth = 0 then validateLoop fuel stack frame.depth
      else if leafDepth ≠ frame.depth then
        throw (.error ⟨.corruptPage, "B+ leaves at differing depths"⟩)
      else validateLoop fuel stack leafDepth
    else
      let children := page.link :: page.cells.map Cell.child
      validateLoop fuel
        ((children.map fun id => ⟨id, frame.depth + 1, false⟩).reverse ++ stack) leafDepth

/-- `BTree::validate`: the height. -/
def validate (root : Nat) : TreeM Nat := do
  validateLoop (← nodeCount) [⟨root, 1, true⟩] 0

end Code

end MoDb.Index
