import MoDb.Storage.BufferPool
import MoDb.Storage.PageFile

/-!
# The page file behind the buffer pool

The file is read and written through a pool of frames. A read that finds no frame brings in the pages
after it as well, a write outside a transaction goes to the file and to the pool, and one inside a
transaction leaves a dirty frame. `StoredFile` is the file without the pool. What is read through the
pool is what is read without it, as long as no page is pinned while its transaction is discarded.
-/

namespace MoDb.Storage

variable {P : Type}

/-- The bytes of page zero. -/
class Superblock (P : Type) where
  /-- `make_superblock`. -/
  make : Nat → Option Nat → P
  /-- The eight bytes of the count are overwritten. -/
  setCount : P → Nat → P

/-- The magic number, the version and the page size stand in front of the two fields. -/
instance superblockArea [PageSize] : Superblock Area where
  make count root :=
    let area := copyTo (fun _ => 0) 0 [77, 79, 68, 66]
    let area := storeAt (storeAt area 4 2 1) 8 4 pageSize
    storeAt (storeAt area 12 8 count) 20 8 (root.getD (2 ^ 64 - 1))
  setCount area count := storeAt area 12 8 count

/-- The file as it is read without a pool; `superblock` is page zero. -/
structure StoredFile (P : Type) where
  file : PageFile P
  superblock : P
  /-- `apply_failpoint_`. -/
  applyFailpoint : Nat := 2 ^ 64 - 1

structure CachedFile (P : Type) extends StoredFile P where
  cache : BufferPool P

/-- `page_readahead`. -/
def pageReadahead : Nat := 4

/-- `BufferPool::record_dirty_flushes`. -/
def BufferPool.recordDirtyFlushes (pool : BufferPool P) (count : Nat) : BufferPool P :=
  { pool with metrics := { pool.metrics with dirtyFlushes := pool.metrics.dirtyFlushes + count } }

namespace StoredFile

def image (stored : StoredFile P) (id : Nat) : P :=
  if id = 0 then stored.superblock else stored.file.data.pages id

def pending (stored : StoredFile P) (id : Nat) : Option P :=
  if stored.file.inTransaction then stored.file.buffered id else none

end StoredFile

namespace CachedFile

def fill (image : Nat → P) (first count : Nat) (cache : BufferPool P) : BufferPool P :=
  (List.range count).foldl (fun cache index => cache.put (first + index) (image (first + index))) cache

/-- `PageFile::read`. -/
def read (c : CachedFile P) (id : Nat) : Except Error P × CachedFile P :=
  if c.file.pageCount ≤ id then (.error ⟨.pageNotFound, s!"page does not exist: {id}"⟩, c)
  else
    match c.pending id with
    | some page => (.ok page, c)
    | none =>
      match c.cache.get id with
      | (some page, cache) => (.ok page, { c with cache := cache })
      | (none, cache) =>
        let count := min (c.file.pageCount - id) pageReadahead
        (.ok (c.image id), { c with cache := fill c.image id count cache })

/-- `PageFile::view`. -/
def view (c : CachedFile P) (id : Nat) : Except Error P × CachedFile P :=
  if c.file.pageCount ≤ id then (.error ⟨.pageNotFound, s!"page does not exist: {id}"⟩, c)
  else
    match c.pending id with
    | some page => (.ok page, c)
    | none =>
      match c.cache.get id with
      | (some page, cache) => (.ok page, { c with cache := cache })
      | (none, cache) => read { c with cache := cache } id

/-- `write_at`, for a page of data. -/
def writeAt (c : CachedFile P) (id : Nat) (page : P) : CachedFile P :=
  { c with file := c.file.perform (.writePage id page), cache := c.cache.put id page }

/-- `write_page_count`. -/
def writePageCount [Superblock P] (c : CachedFile P) (count : Nat) : CachedFile P :=
  { c with
    file := c.file.perform (.writePageCount count)
    superblock := Superblock.setCount c.superblock count
    cache := c.cache.invalidate 0 }

def setPageCount (c : CachedFile P) (count : Nat) : CachedFile P :=
  { c with file := { c.file with pageCount := count } }

/-- `PageFile::allocate_page`. -/
def allocatePage [Inhabited P] [Superblock P] (c : CachedFile P) : Except Error Nat × CachedFile P :=
  if c.file.pageCount = 2 ^ 64 - 1 then (.error ⟨.ioError, "database reached the maximum page count"⟩, c)
  else
    let id := c.file.pageCount
    (.ok id, ((c.writeAt id default).writePageCount (id + 1)).setPageCount (id + 1))

/-- `PageFile::write`. -/
def write (c : CachedFile P) (id : Nat) (page : P) : Except Error Unit × CachedFile P :=
  if id = 0 then (.error ⟨.reservedPage, "the superblock cannot be overwritten directly"⟩, c)
  else if c.file.pageCount ≤ id then (.error ⟨.pageNotFound, s!"page does not exist: {id}"⟩, c)
  else if c.file.inTransaction then
    let txPages := (id, page) :: c.file.txPages.filter fun write => write.1 ≠ id
    (.ok (), { c with file := { c.file with txPages := txPages }, cache := c.cache.putDirty id page })
  else (.ok (), c.writeAt id page)

/-- `PageFile::begin_transaction`. -/
def beginTransaction (c : CachedFile P) : CachedFile P :=
  { c with file := { c.file with inTransaction := true, txPages := [] }, cache := c.cache.discardDirty }

/-- `PageFile::discard_transaction`. -/
def discardTransaction (c : CachedFile P) : CachedFile P :=
  { c with file := { c.file with inTransaction := false, txPages := [] }, cache := c.cache.discardDirty }

/-- The loop of `apply_transaction`. -/
def applyPages : List (Nat × P) → Nat → CachedFile P → Except Error Unit × CachedFile P
  | [], _, c => (.ok (), c)
  | write :: rest, applied, c =>
    if c.applyFailpoint ≤ applied then
      (.error ⟨.ioError, "apply failpoint reached (simulated crash)"⟩, c)
    else applyPages rest (applied + 1) (c.writeAt write.1 write.2)

/-- `PageFile::apply_transaction`. -/
def applyTransaction (c : CachedFile P) : Except Error Unit × CachedFile P :=
  match applyPages c.file.txPages 0 c with
  | (.error error, c) => (.error error, c)
  | (.ok (), c) =>
    let cache := (c.cache.recordDirtyFlushes c.file.txPages.length).discardDirty
    (.ok (), { c with file := { c.file with inTransaction := false, txPages := [] }, cache := cache })

/-- `PageFile::write_recovered_page`. -/
def writeRecoveredPage [Superblock P] (c : CachedFile P) (id : Nat) (page : P) :
    Except Error Unit × CachedFile P :=
  if id = 0 then (.error ⟨.reservedPage, "recovery cannot overwrite the superblock"⟩, c)
  else if c.file.pageCount ≤ id then
    (.ok (), ((c.writePageCount (id + 1)).setPageCount (id + 1)).writeAt id page)
  else (.ok (), c.writeAt id page)

/-- `PageFile::set_catalog_root`; the superblock is written whole. -/
def setCatalogRoot [Superblock P] (c : CachedFile P) (root : Nat) : Except Error Unit × CachedFile P :=
  if root = 0 then (.error ⟨.invalidArgument, "the catalog root cannot be the superblock page"⟩, c)
  else if c.file.pageCount ≤ root then
    (.error ⟨.pageNotFound, s!"catalog root page does not exist: {root}"⟩, c)
  else
    let superblock := Superblock.make c.file.pageCount (some root)
    let written := c.file.perform (.writeSuperblock c.file.pageCount (some root))
    (.ok (), { c with
      file := { written with catalogRoot := some root }
      superblock := superblock
      cache := c.cache.put 0 superblock })

/-- `PageFile::flush`. -/
def flush (c : CachedFile P) : CachedFile P := { c with file := c.file.flush }

end CachedFile

/-! ### The file without the pool -/

namespace StoredFile

def read (stored : StoredFile P) (id : Nat) : Except Error P :=
  if id = 0 ∧ 0 < stored.file.pageCount then .ok stored.superblock else stored.file.read id

def allocatePage [Inhabited P] [Superblock P] (stored : StoredFile P) : Except Error Nat × StoredFile P :=
  match stored.file.allocatePage with
  | .error error => (.error error, stored)
  | .ok (id, file) =>
    (.ok id, { stored with file := file, superblock := Superblock.setCount stored.superblock (id + 1) })

def write (stored : StoredFile P) (id : Nat) (page : P) : Except Error Unit × StoredFile P :=
  match stored.file.write id page with
  | .error error => (.error error, stored)
  | .ok file => (.ok (), { stored with file := file })

/-- What the failpoint lets through of a transaction, and whether that is all. -/
def applyTransaction (stored : StoredFile P) : Except Error Unit × StoredFile P :=
  if stored.file.txPages.length ≤ stored.applyFailpoint then
    (.ok (), { stored with file := stored.file.applyTransaction })
  else
    (.error ⟨.ioError, "apply failpoint reached (simulated crash)"⟩,
      { stored with
        file := (stored.file.txPages.take stored.applyFailpoint).foldl
          (fun file write => file.perform (.writePage write.1 write.2)) stored.file })

def writeRecoveredPage [Superblock P] (stored : StoredFile P) (id : Nat) (page : P) :
    Except Error Unit × StoredFile P :=
  match stored.file.writeRecoveredPage id page with
  | .error error => (.error error, stored)
  | .ok file =>
    (.ok (), { stored with
      file := file
      superblock :=
        if stored.file.pageCount ≤ id then Superblock.setCount stored.superblock (id + 1)
        else stored.superblock })

def setCatalogRoot [Superblock P] (stored : StoredFile P) (root : Nat) : Except Error Unit × StoredFile P :=
  match stored.file.setCatalogRoot root with
  | .error error => (.error error, stored)
  | .ok file =>
    (.ok (), { stored with file := file, superblock := Superblock.make file.pageCount (some root) })

end StoredFile

/-! ### Runs -/

/-- The calls on a page file. -/
inductive FileCall (P : Type)
  | read (id : Nat)
  | view (id : Nat)
  | allocatePage
  | write (id : Nat) (page : P)
  | beginTransaction
  | discardTransaction
  | applyTransaction
  | writeRecoveredPage (id : Nat) (page : P)
  | setCatalogRoot (root : Nat)
  | flush
  | setApplyFailpoint (pagesBeforeFailure : Nat)
  /-- Calls on `buffer_pool()`. -/
  | pin (id : Nat)
  | unpin (id : Nat)

inductive FileAnswer (P : Type)
  | page (result : Except Error P)
  | id (result : Except Error Nat)
  | done (result : Except Error Unit)

section

variable [Inhabited P] [Superblock P]

def CachedFile.step (c : CachedFile P) : FileCall P → FileAnswer P × CachedFile P
  | .read id => (.page (c.read id).1, (c.read id).2)
  | .view id => (.page (c.view id).1, (c.view id).2)
  | .allocatePage => (.id c.allocatePage.1, c.allocatePage.2)
  | .write id page => (.done (c.write id page).1, (c.write id page).2)
  | .beginTransaction => (.done (.ok ()), c.beginTransaction)
  | .discardTransaction => (.done (.ok ()), c.discardTransaction)
  | .applyTransaction => (.done c.applyTransaction.1, c.applyTransaction.2)
  | .writeRecoveredPage id page => (.done (c.writeRecoveredPage id page).1, (c.writeRecoveredPage id page).2)
  | .setCatalogRoot root => (.done (c.setCatalogRoot root).1, (c.setCatalogRoot root).2)
  | .flush => (.done (.ok ()), c.flush)
  | .setApplyFailpoint count => (.done (.ok ()), { c with applyFailpoint := count })
  | .pin id => (.done (.ok ()), { c with cache := (c.cache.pin id).2 })
  | .unpin id => (.done (.ok ()), { c with cache := c.cache.unpin id })

def StoredFile.step (stored : StoredFile P) : FileCall P → FileAnswer P × StoredFile P
  | .read id => (.page (stored.read id), stored)
  | .view id => (.page (stored.read id), stored)
  | .allocatePage => (.id stored.allocatePage.1, stored.allocatePage.2)
  | .write id page => (.done (stored.write id page).1, (stored.write id page).2)
  | .beginTransaction => (.done (.ok ()), { stored with file := stored.file.beginTransaction })
  | .discardTransaction => (.done (.ok ()), { stored with file := stored.file.discardTransaction })
  | .applyTransaction => (.done stored.applyTransaction.1, stored.applyTransaction.2)
  | .writeRecoveredPage id page =>
    (.done (stored.writeRecoveredPage id page).1, (stored.writeRecoveredPage id page).2)
  | .setCatalogRoot root => (.done (stored.setCatalogRoot root).1, (stored.setCatalogRoot root).2)
  | .flush => (.done (.ok ()), { stored with file := stored.file.flush })
  | .setApplyFailpoint count => (.done (.ok ()), { stored with applyFailpoint := count })
  | .pin _ => (.done (.ok ()), stored)
  | .unpin _ => (.done (.ok ()), stored)

def CachedFile.run (c : CachedFile P) : List (FileCall P) → List (FileAnswer P) × CachedFile P
  | [] => ([], c)
  | call :: rest => ((c.step call).1 :: ((c.step call).2.run rest).1, ((c.step call).2.run rest).2)

def StoredFile.run (stored : StoredFile P) : List (FileCall P) → List (FileAnswer P) × StoredFile P
  | [] => ([], stored)
  | call :: rest =>
    ((stored.step call).1 :: ((stored.step call).2.run rest).1, ((stored.step call).2.run rest).2)

end

/-! ### What a pool shows -/

namespace BufferPool

variable {pool pool' : BufferPool P} {node : FrameNode} {page : Nat}

def Keeps (pool pool' : BufferPool P) : Prop :=
  ∀ page node, pool'.find page = some node → pool.find page = some node ∧
    (pool'.frames node).page = (pool.frames node).page ∧
    (pool'.frames node).dirty = (pool.frames node).dirty

theorem index_touch : (pool.touch node).index = pool.index := by
  rw [touch]
  split <;> rfl

theorem index_place : (pool.place node).index = pool.index := by
  rw [place]
  dsimp only
  split
  · rfl
  · split <;> rfl

theorem find_congr (h : pool'.index = pool.index) (page : Nat) : pool'.find page = pool.find page := by
  rw [find, find, h]

theorem find_eraseKey {index : List (Nat × FrameNode)} {other : Nat}
    (h : ((eraseKey index other).find? fun entry => entry.1 = page).map Prod.snd = some node) :
    page ≠ other ∧ (index.find? fun entry => entry.1 = page).map Prod.snd = some node := by
  rw [eraseKey, List.find?_filter] at h
  by_cases heq : page = other
  · subst heq
    simp only [decide_not, Bool.not_eq_eq_eq_not, Bool.not_true, Option.map_eq_some_iff] at h
    obtain ⟨entry, hentry, -⟩ := h
    have hboth := List.find?_some hentry
    simp at hboth
  · refine ⟨heq, ?_⟩
    rw [← h]
    congr 2
    funext entry
    by_cases hkey : entry.1 = page
    · simp [hkey, heq]
    · simp [hkey]

theorem frames_place (other : FrameNode) :
    ((pool.place node).frames other).page = (pool.frames other).page ∧
      ((pool.place node).frames other).dirty = (pool.frames other).dirty ∧
      ((pool.place node).frames other).pinCount = (pool.frames other).pinCount := by
  rw [place]
  dsimp only
  split
  · exact ⟨rfl, rfl, rfl⟩
  · have hframe : ∀ held, (Function.update pool.frames node { pool.frames node with held := held } other).page =
        (pool.frames other).page ∧
        (Function.update pool.frames node { pool.frames node with held := held } other).dirty =
          (pool.frames other).dirty ∧
        (Function.update pool.frames node { pool.frames node with held := held } other).pinCount =
          (pool.frames other).pinCount := by
      intro held
      by_cases heq : other = node
      · subst heq
        simp
      · simp [Function.update_of_ne heq]
    split <;> exact hframe _

theorem Evicts.find (h : pool.Linked) (hevicts : Evicts pool pool') (hfind : pool'.find page = some node) :
    pool.find page = some node := by
  obtain ⟨hmem, hpage⟩ := (hevicts.linked.mem_index page node).1 ((find_eq_some hevicts.linked).1 hfind)
  rw [nodes, hevicts.held] at hmem
  rw [hevicts.frames] at hpage
  exact (find_eq_some h).2 ((h.mem_index page node).2
    ⟨(List.mem_append.1 hmem).elim (fun hmem => List.mem_append_left _ (hevicts.entries.subset hmem))
      fun hmem => List.mem_append_right _ hmem, hpage⟩)

theorem keeps_get (page : Nat) : Keeps pool (pool.get page).2 := by
  intro other node hfind
  rw [get] at hfind ⊢
  cases hhit : pool.find page with
  | none =>
    rw [hhit] at hfind
    exact ⟨hfind, rfl, rfl⟩
  | some found =>
    rw [hhit] at hfind
    rw [find_congr index_touch] at hfind
    dsimp only
    rw [frames_touch]
    exact ⟨hfind, rfl, rfl⟩

theorem get_fst (page : Nat) : (pool.get page).1 = (pool.find page).map fun node => (pool.frames node).page := by
  rw [get]
  cases pool.find page <;> rfl

theorem find_renew {frame : Frame P} (hfind : pool.find page = some node) {other : Nat} {found : FrameNode}
    (h : pool.Linked)
    (hother : (((pool.setFrame node frame).place node).touch node).find other = some found) :
    pool.find other = some found ∧
      (other = page → ((((pool.setFrame node frame).place node).touch node).frames found).page = frame.page ∧
        ((((pool.setFrame node frame).place node).touch node).frames found).dirty = frame.dirty) ∧
      (other ≠ page →
        ((((pool.setFrame node frame).place node).touch node).frames found).page = (pool.frames found).page ∧
        ((((pool.setFrame node frame).place node).touch node).frames found).dirty =
          (pool.frames found).dirty ∧
        ((((pool.setFrame node frame).place node).touch node).frames found).pinCount =
          (pool.frames found).pinCount) := by
  rw [find_congr (index_touch.trans index_place)] at hother
  change pool.find other = some found at hother
  rw [frames_touch]
  obtain ⟨hpage, hdirty, hpins⟩ := @frames_place _ (pool.setFrame node frame) node found
  rw [hpage, hdirty, hpins]
  change _ ∧ (_ → (Function.update pool.frames node frame found).page = _ ∧
    (Function.update pool.frames node frame found).dirty = _) ∧ (_ →
    (Function.update pool.frames node frame found).page = _ ∧
    (Function.update pool.frames node frame found).dirty = _ ∧
    (Function.update pool.frames node frame found).pinCount = _)
  refine ⟨hother, fun heq => ?_, fun hne => ?_⟩
  · obtain rfl : found = node := Option.some.inj (hother.symm.trans (heq ▸ hfind))
    simp
  · have hnode : found ≠ node := by
      rintro rfl
      have h₁ := ((h.mem_index other found).1 ((find_eq_some h).1 hother)).2
      have h₂ := ((h.mem_index page found).1 ((find_eq_some h).1 hfind)).2
      exact hne (h₁.symm.trans h₂)
    simp [Function.update_of_ne hnode]

theorem insert_spec {frame : Frame P} (h : pool.Linked) (hevicts : Evicts pool pool') {entries held : List FrameNode}
    {other : Nat} (hfind : BufferPool.find { pool'.setFrame pool'.fresh frame with
      entries := entries, held := held, index := (page, pool'.fresh) :: pool'.index,
      fresh := pool'.fresh + 1 } other = some node) :
    (other = page → node = pool'.fresh) ∧ (other ≠ page → pool.find other = some node ∧
      Function.update pool'.frames pool'.fresh frame node = pool.frames node) := by
  rw [find] at hfind
  refine ⟨?_, fun hne => ?_⟩
  · rintro rfl
    simpa [eq_comm] using hfind
  · rw [List.find?_cons_of_neg (by simpa [eq_comm] using hne)] at hfind
    have hold : pool.find other = some node := hevicts.find h hfind
    have hmem := ((h.mem_index other node).1 ((find_eq_some h).1 hold)).1
    have hnode : node ≠ pool'.fresh := by
      rw [hevicts.fresh]
      exact Nat.ne_of_lt (h.fresh node hmem)
    rw [Function.update_of_ne hnode, hevicts.frames]
    exact ⟨hold, rfl⟩

theorem put_spec (h : pool.Sound) (contents : P) {other : Nat}
    (hfind : (pool.put page contents).find other = some node) :
    (other = page → ((pool.put page contents).frames node).page = contents ∧
      ((pool.put page contents).frames node).dirty = false) ∧
    (other ≠ page → pool.find other = some node ∧
      ((pool.put page contents).frames node).page = (pool.frames node).page ∧
      ((pool.put page contents).frames node).dirty = (pool.frames node).dirty ∧
      ((pool.put page contents).frames node).pinCount = (pool.frames node).pinCount) := by
  rw [put] at hfind ⊢
  cases hhit : pool.find page with
  | some found =>
    rw [hhit] at hfind
    obtain ⟨hold, hsame, hdiff⟩ := find_renew hhit h.linked hfind
    exact ⟨hsame, fun hne => ⟨hold, hdiff hne⟩⟩
  | none =>
    rw [hhit] at hfind
    obtain ⟨hevicts, -⟩ := h.linked.evictUntil (pool.capacity - 1)
    obtain ⟨hsame, hdiff⟩ := insert_spec h.linked hevicts hfind
    refine ⟨fun heq => ?_, fun hne => ?_⟩
    · rw [hsame heq]
      simp [setFrame]
    · obtain ⟨hold, hframe⟩ := hdiff hne
      exact ⟨hold, congrArg Frame.page hframe, congrArg Frame.dirty hframe, congrArg Frame.pinCount hframe⟩

theorem Evicts.refl (h : pool.Linked) : Evicts pool pool :=
  ⟨h, rfl, rfl, List.prefix_refl _, rfl, rfl⟩

theorem putDirty_spec (h : pool.Sound) (contents : P) {other : Nat}
    (hfind : (pool.putDirty page contents).find other = some node) :
    (other = page → ((pool.putDirty page contents).frames node).page = contents) ∧
    (other ≠ page → pool.find other = some node ∧
      ((pool.putDirty page contents).frames node).page = (pool.frames node).page ∧
      ((pool.putDirty page contents).frames node).dirty = (pool.frames node).dirty) ∧
    (other = page → ((pool.putDirty page contents).frames node).dirty = true) := by
  rw [putDirty] at hfind ⊢
  cases hhit : pool.find page with
  | some found =>
    rw [hhit] at hfind
    obtain ⟨hold, hsame, hdiff⟩ := find_renew hhit h.linked hfind
    exact ⟨fun heq => (hsame heq).1, fun hne => ⟨hold, (hdiff hne).1, (hdiff hne).2.1⟩, fun heq => (hsame heq).2⟩
  | none =>
    rw [hhit] at hfind
    obtain ⟨hsame, hdiff⟩ := insert_spec h.linked (Evicts.refl h.linked) hfind
    refine ⟨fun heq => ?_, fun hne => ?_, fun heq => ?_⟩
    · rw [hsame heq]
      simp [setFrame]
    · obtain ⟨hold, hframe⟩ := hdiff hne
      exact ⟨hold, congrArg Frame.page hframe, congrArg Frame.dirty hframe⟩
    · rw [hsame heq]
      simp [setFrame]

theorem keeps_setFrame {frame : Frame P} (hpage : frame.page = (pool.frames node).page)
    (hdirty : frame.dirty = (pool.frames node).dirty) (other : FrameNode) :
    ((pool.setFrame node frame).frames other).page = (pool.frames other).page ∧
      ((pool.setFrame node frame).frames other).dirty = (pool.frames other).dirty := by
  change (Function.update pool.frames node frame other).page = _ ∧
    (Function.update pool.frames node frame other).dirty = _
  by_cases heq : other = node
  · subst heq
    rw [Function.update_self]
    exact ⟨hpage, hdirty⟩
  · rw [Function.update_of_ne heq]
    exact ⟨rfl, rfl⟩

theorem keeps_pin (page : Nat) : Keeps pool (pool.pin page).2 := by
  intro other node hfind
  rw [pin] at hfind ⊢
  cases hhit : pool.find page with
  | none =>
    rw [hhit] at hfind
    exact ⟨hfind, rfl, rfl⟩
  | some found =>
    rw [hhit] at hfind
    rw [find_congr (index_touch.trans index_place)] at hfind
    obtain ⟨hpage, hdirty, -⟩ := @frames_place _ (pool.setFrame found
      { pool.frames found with pinCount := (pool.frames found).pinCount + 1 }) found node
    obtain ⟨hpage', hdirty'⟩ := @keeps_setFrame _ pool found
      { pool.frames found with pinCount := (pool.frames found).pinCount + 1 } rfl rfl node
    dsimp only
    rw [frames_touch]
    exact ⟨hfind, hpage.trans hpage', hdirty.trans hdirty'⟩

theorem keeps_unpin (page : Nat) : Keeps pool (pool.unpin page) := by
  intro other node hfind
  rw [unpin] at hfind ⊢
  cases hhit : pool.find page with
  | none =>
    rw [hhit] at hfind
    exact ⟨hfind, rfl, rfl⟩
  | some found =>
    rw [hhit] at hfind
    dsimp only at hfind ⊢
    split at hfind
    · rename_i hzero
      rw [if_pos hzero]
      exact ⟨hfind, rfl, rfl⟩
    · rename_i hzero
      rw [if_neg hzero]
      rw [find_congr index_place] at hfind
      obtain ⟨hpage, hdirty, -⟩ := @frames_place _ (pool.setFrame found
        { pool.frames found with pinCount := (pool.frames found).pinCount - 1 }) found node
      obtain ⟨hpage', hdirty'⟩ := @keeps_setFrame _ pool found
        { pool.frames found with pinCount := (pool.frames found).pinCount - 1 } rfl rfl node
      exact ⟨hfind, hpage.trans hpage', hdirty.trans hdirty'⟩

theorem invalidate_spec (hpins : ∀ node, pool.find page = some node → (pool.frames node).pinCount = 0)
    {other : Nat} (hfind : (pool.invalidate page).find other = some node) :
    other ≠ page ∧ pool.find other = some node ∧ (pool.invalidate page).frames node = pool.frames node := by
  rw [invalidate] at hfind ⊢
  cases hhit : pool.find page with
  | none =>
    rw [hhit] at hfind
    refine ⟨?_, hfind, rfl⟩
    rintro rfl
    rw [hhit] at hfind
    cases hfind
  | some found =>
    rw [hhit] at hfind
    have hzero : ¬(pool.frames found).pinCount > 0 := by
      rw [hpins found hhit]
      exact Nat.lt_irrefl 0
    dsimp only at hfind ⊢
    rw [if_neg hzero] at hfind ⊢
    split at hfind
    · rename_i hheld
      rw [if_pos hheld]
      obtain ⟨hne, hold⟩ := find_eraseKey hfind
      exact ⟨hne, hold, rfl⟩
    · rename_i hheld
      rw [if_neg hheld]
      obtain ⟨hne, hold⟩ := find_eraseKey hfind
      exact ⟨hne, hold, rfl⟩

theorem discardLoop_spec {rest : List FrameNode} {other : Nat}
    (hpages : ∀ other node, pool.find other = some node → (pool.frames node).pageId = other)
    (hfind : (discardLoop rest pool).find other = some node) : pool.find other = some node ∧
      ((discardLoop rest pool).frames node).page = (pool.frames node).page ∧
      (((discardLoop rest pool).frames node).dirty = true → (pool.frames node).dirty = true ∧ node ∉ rest) ∧
      (node ∈ rest → (pool.frames node).dirty = true → (pool.frames node).pinCount ≠ 0) := by
  induction rest generalizing pool with
  | nil => exact ⟨hfind, rfl, fun hdirty => ⟨hdirty, by simp⟩, by simp⟩
  | cons first rest ih =>
    rw [discardLoop] at hfind ⊢
    dsimp only at hfind ⊢
    have hframe (node : FrameNode) :
        (Function.update pool.frames first { pool.frames first with dirty := false } node).pageId =
          (pool.frames node).pageId ∧
        (Function.update pool.frames first { pool.frames first with dirty := false } node).page =
          (pool.frames node).page ∧
        (node ≠ first → Function.update pool.frames first { pool.frames first with dirty := false } node =
          pool.frames node) ∧
        ((Function.update pool.frames first { pool.frames first with dirty := false } node).dirty = true →
          (pool.frames node).dirty = true ∧ node ≠ first) := by
      by_cases heq : node = first
      · subst heq
        simp
      · simp [heq]
    by_cases hdirty : (pool.frames first).dirty = true
    · rw [hdirty, if_neg (by simp)] at hfind ⊢
      by_cases hzero : (pool.frames first).pinCount = 0
      · rw [if_pos hzero] at hfind ⊢
        have hrest := fun hpages => ih hpages hfind
        obtain ⟨hold, hpage, hmore, hpinned⟩ := hrest fun other node h =>
          (hframe node).1.trans (hpages other node (find_eraseKey h).2)
        obtain ⟨hother, hold⟩ := find_eraseKey hold
        have hne : node ≠ first := by
          rintro rfl
          exact hother (hpages other node hold).symm
        refine ⟨hold, hpage.trans (hframe node).2.1, fun h => ?_, fun hmem hwas => ?_⟩
        · obtain ⟨hwas, hnot⟩ := hmore h
          exact ⟨((hframe node).2.2.2 hwas).1, by simp [hne, hnot]⟩
        · have hkept := hpinned ((List.mem_cons.1 hmem).resolve_left hne)
          change (Function.update pool.frames first _ node).dirty = true →
            (Function.update pool.frames first _ node).pinCount ≠ 0 at hkept
          rw [(hframe node).2.2.1 hne] at hkept
          exact hkept hwas
      · rw [if_neg hzero] at hfind ⊢
        have hrest := fun hpages => ih hpages hfind
        obtain ⟨hold, hpage, hmore, hpinned⟩ := hrest fun other node h =>
          (hframe node).1.trans (hpages other node h)
        refine ⟨hold, hpage.trans (hframe node).2.1, fun h => ?_, fun hmem hwas => ?_⟩
        · obtain ⟨hwas, hnot⟩ := hmore h
          obtain ⟨hwas, hne⟩ := (hframe node).2.2.2 hwas
          exact ⟨hwas, by simp [hne, hnot]⟩
        · by_cases hne : node = first
          · rwa [hne]
          · have hkept := hpinned ((List.mem_cons.1 hmem).resolve_left hne)
            change (Function.update pool.frames first _ node).dirty = true →
              (Function.update pool.frames first _ node).pinCount ≠ 0 at hkept
            rw [(hframe node).2.2.1 hne] at hkept
            exact hkept hwas
    · rw [Bool.eq_false_iff.2 hdirty, if_pos (by simp)] at hfind ⊢
      obtain ⟨hold, hpage, hmore, hpinned⟩ := ih hpages hfind
      have hne (hwas : (pool.frames node).dirty = true) : node ≠ first := by
        rintro rfl
        exact hdirty hwas
      refine ⟨hold, hpage, fun h => ?_, fun hmem hwas => ?_⟩
      · obtain ⟨hwas, hnot⟩ := hmore h
        exact ⟨hwas, by simp [hne hwas, hnot]⟩
      · exact hpinned ((List.mem_cons.1 hmem).resolve_left (hne hwas)) hwas

theorem Sound.find_pageId (h : pool.Sound) (page : Nat) (node : FrameNode) (hfind : pool.find page = some node) :
    (pool.frames node).pageId = page :=
  (mem_nodes_of_find h hfind).2

theorem Sound.dirty_held (h : pool.Sound) (hfind : pool.find page = some node)
    (hdirty : (pool.frames node).dirty = true) : node ∈ pool.held :=
  (h.mem_held_iff (mem_nodes_of_find h hfind).1).2 (by simp [canEvict, hdirty])

theorem discardDirty_spec (h : pool.Sound) (hfind : pool.discardDirty.find page = some node) :
    pool.find page = some node ∧ (pool.discardDirty.frames node).page = (pool.frames node).page ∧
      (pool.discardDirty.frames node).dirty = false ∧
      ((pool.frames node).dirty = true → (pool.frames node).pinCount ≠ 0) := by
  obtain ⟨hsound, -⟩ := h.discardLoop (fun _ hnode => hnode) h.linked.nodup.of_append_right
  obtain ⟨hevicts, -⟩ := hsound.linked.evictUntil pool.capacity
  rw [discardDirty] at hfind ⊢
  have hcapacity : ∀ rest (pool : BufferPool P), (discardLoop rest pool).capacity = pool.capacity := by
    intro rest
    induction rest with
    | nil => exact fun _ => rfl
    | cons first rest ih =>
      intro pool
      rw [discardLoop]
      dsimp only
      split
      · exact ih pool
      · split
        · exact ih _
        · exact ih _
  rw [hcapacity] at hfind ⊢
  obtain ⟨hold, hpage, hdirty, hpinned⟩ := discardLoop_spec h.find_pageId (hevicts.find hsound.linked hfind)
  rw [hevicts.frames]
  refine ⟨hold, hpage, ?_, fun hwas => hpinned (h.dirty_held hold hwas) hwas⟩
  cases hflag : ((discardLoop pool.held pool).frames node).dirty with
  | false => rfl
  | true =>
    obtain ⟨hwas, hnot⟩ := hdirty hflag
    exact absurd (h.dirty_held hold hwas) hnot

theorem discardDirty_pinned (h : pool.Sound) (hfind : pool.find page = some node)
    (hpinned : (pool.frames node).pinCount ≠ 0) : pool.discardDirty.find page = some node := by
  obtain ⟨hsound, hretains⟩ := h.discardDirty
  obtain ⟨hnode, hpage⟩ := mem_nodes_of_find h hfind
  have hheld : node ∈ pool.held := (h.mem_held_iff hnode).2 (by simp [canEvict, hpinned])
  obtain ⟨hheld', hpage'⟩ := hretains node hheld hpinned
  exact (find_eq_some hsound.linked).2 ((hsound.linked.mem_index page node).2
    ⟨List.mem_append_right _ hheld', hpage'.trans hpage⟩)

end BufferPool

/-! ### The pool agrees with the file -/

/-- A clean frame is the page of the file, and a dirty one that of the transaction. -/
structure Agrees (cache : BufferPool P) (image : Nat → P) (pending : Nat → Option P) : Prop where
  pool : cache.Sound
  clean : ∀ id node, cache.find id = some node → (cache.frames node).dirty = false →
    (cache.frames node).page = image id
  dirty : ∀ id node, cache.find id = some node → (cache.frames node).dirty = true →
    pending id = some (cache.frames node).page

section

variable {cache cache' : BufferPool P} {image image' : Nat → P} {pending pending' : Nat → Option P}
  {id : Nat} {page : P}

theorem Agrees.keeps (h : Agrees cache image pending) (hpool : cache'.Sound) (hkeeps : cache.Keeps cache') :
    Agrees cache' image pending := by
  refine ⟨hpool, fun id node hfind hdirty => ?_, fun id node hfind hdirty => ?_⟩
  · obtain ⟨hold, hpage, hsame⟩ := hkeeps id node hfind
    rw [hpage]
    exact h.clean id node hold (hsame ▸ hdirty)
  · obtain ⟨hold, hpage, hsame⟩ := hkeeps id node hfind
    rw [hpage]
    exact h.dirty id node hold (hsame ▸ hdirty)

theorem Agrees.put (h : Agrees cache image pending) (hpage : image' id = page)
    (hother : ∀ other, other ≠ id → image' other = image other) :
    Agrees (cache.put id page) image' pending := by
  refine ⟨(h.pool.put id page).1, fun other node hfind hdirty => ?_, fun other node hfind hdirty => ?_⟩
  · obtain ⟨hself, hkept⟩ := BufferPool.put_spec h.pool page hfind
    by_cases heq : other = id
    · rw [(hself heq).1, heq, hpage]
    · obtain ⟨hold, hcontents, hsame, -⟩ := hkept heq
      rw [hcontents, hother other heq]
      exact h.clean other node hold (hsame ▸ hdirty)
  · obtain ⟨hself, hkept⟩ := BufferPool.put_spec h.pool page hfind
    by_cases heq : other = id
    · simp [(hself heq).2] at hdirty
    · obtain ⟨hold, hcontents, hsame, -⟩ := hkept heq
      rw [hcontents]
      exact h.dirty other node hold (hsame ▸ hdirty)

theorem Agrees.putDirty (h : Agrees cache image pending) (hpage : pending' id = some page)
    (hother : ∀ other, other ≠ id → pending' other = pending other) :
    Agrees (cache.putDirty id page) image pending' := by
  refine ⟨(h.pool.putDirty id page fun _ => False).1, fun other node hfind hdirty => ?_,
    fun other node hfind hdirty => ?_⟩
  · obtain ⟨-, hkept, hself⟩ := BufferPool.putDirty_spec h.pool page hfind
    by_cases heq : other = id
    · simp [hself heq] at hdirty
    · obtain ⟨hold, hcontents, hsame⟩ := hkept heq
      rw [hcontents]
      exact h.clean other node hold (hsame ▸ hdirty)
  · obtain ⟨hself, hkept, -⟩ := BufferPool.putDirty_spec h.pool page hfind
    by_cases heq : other = id
    · rw [hself heq, heq, hpage]
    · obtain ⟨hold, hcontents, hsame⟩ := hkept heq
      rw [hcontents, hother other heq]
      exact h.dirty other node hold (hsame ▸ hdirty)

def Unpinned (cache : BufferPool P) (id : Nat) : Prop :=
  ∀ node, cache.find id = some node → (cache.frames node).pinCount = 0

theorem Agrees.invalidate (h : Agrees cache image pending) (hpins : Unpinned cache id)
    (hother : ∀ other, other ≠ id → image' other = image other) :
    Agrees (cache.invalidate id) image' pending := by
  refine ⟨(h.pool.invalidate id).1, fun other node hfind hdirty => ?_, fun other node hfind hdirty => ?_⟩
  · obtain ⟨hne, hold, hframe⟩ := BufferPool.invalidate_spec hpins hfind
    rw [hframe] at hdirty ⊢
    rw [hother other hne]
    exact h.clean other node hold hdirty
  · obtain ⟨-, hold, hframe⟩ := BufferPool.invalidate_spec hpins hfind
    rw [hframe] at hdirty ⊢
    exact h.dirty other node hold hdirty

def Droppable (cache : BufferPool P) (image : Nat → P) : Prop :=
  ∀ id node, cache.find id = some node → (cache.frames node).dirty = true →
    (cache.frames node).pinCount ≠ 0 → (cache.frames node).page = image id

theorem Agrees.discard (h : Agrees cache image pending) (hdrop : Droppable cache image) (pending' : Nat → Option P) :
    Agrees cache.discardDirty image pending' := by
  refine ⟨h.pool.discardDirty.1, fun id node hfind _ => ?_, fun id node hfind hdirty => ?_⟩
  · obtain ⟨hold, hpage, -, hpinned⟩ := BufferPool.discardDirty_spec h.pool hfind
    rw [hpage]
    cases hflag : (cache.frames node).dirty with
    | false => exact h.clean id node hold hflag
    | true => exact hdrop id node hold hflag (hpinned hflag)
  · obtain ⟨-, -, hclean, -⟩ := BufferPool.discardDirty_spec h.pool hfind
    rw [hclean] at hdirty
    cases hdirty

theorem Agrees.get (h : Agrees cache image pending) (id : Nat) : Agrees (cache.get id).2 image pending :=
  h.keeps (h.pool.get id fun _ => False).1 (BufferPool.keeps_get id)

theorem Agrees.get_fst (h : Agrees cache image pending) (hpending : pending id = none)
    (hget : (cache.get id).1 = some page) : page = image id := by
  rw [BufferPool.get_fst, Option.map_eq_some_iff] at hget
  obtain ⟨node, hfind, rfl⟩ := hget
  apply h.clean id node hfind
  cases hflag : (cache.frames node).dirty with
  | false => rfl
  | true =>
    have hsome := h.dirty id node hfind hflag
    rw [hpending] at hsome
    cases hsome

theorem Agrees.flushed (h : Agrees cache image pending) (count : Nat) :
    Agrees (cache.recordDirtyFlushes count) image pending :=
  h.keeps (h.pool.metrics _) fun _ _ hfind => ⟨hfind, rfl, rfl⟩

theorem Agrees.fill (h : Agrees cache image pending) (first count : Nat) :
    Agrees (CachedFile.fill image first count cache) image pending := by
  rw [CachedFile.fill]
  induction List.range count generalizing cache with
  | nil => exact h
  | cons index rest ih => exact ih (h.put rfl fun _ _ => rfl)

end

namespace CachedFile

variable {c : CachedFile P}

/-- The state of the file between two calls. -/
structure Coherent (c : CachedFile P) : Prop where
  agrees : Agrees c.cache c.image c.pending
  pageCount : 0 < c.file.pageCount
  data : ∀ write ∈ c.file.txPages, write.1 ≠ 0 ∧ write.1 < c.file.pageCount

theorem pending_eq_none (h : c.Coherent) : c.pending 0 = none := by
  rw [StoredFile.pending]
  split
  · rw [PageFile.buffered, Option.map_eq_none_iff, List.find?_eq_none]
    intro write hwrite
    simpa using (h.data write hwrite).1
  · rfl

theorem Coherent.withCache (h : c.Coherent) {cache : BufferPool P} (hagrees : Agrees cache c.image c.pending) :
    Coherent { c with cache := cache } :=
  ⟨hagrees, h.pageCount, h.data⟩

theorem stored_read (h : c.Coherent) {id : Nat} (hlt : ¬c.file.pageCount ≤ id) :
    c.toStoredFile.read id = .ok ((c.pending id).getD (c.image id)) := by
  rw [StoredFile.read]
  by_cases hzero : id = 0
  · subst hzero
    rw [if_pos ⟨rfl, h.pageCount⟩, pending_eq_none h]
    rfl
  · rw [if_neg fun hboth => hzero hboth.1, PageFile.read, if_neg hlt, StoredFile.pending, StoredFile.image,
      if_neg hzero]
    split <;> rfl

theorem read_coherent (h : c.Coherent) (id : Nat) :
    (c.read id).1 = c.toStoredFile.read id ∧ (c.read id).2.Coherent ∧
      (c.read id).2.toStoredFile = c.toStoredFile := by
  by_cases hlt : c.file.pageCount ≤ id
  · have hread : c.toStoredFile.read id = .error ⟨.pageNotFound, s!"page does not exist: {id}"⟩ := by
      have hpos := h.pageCount
      rw [StoredFile.read, if_neg (by omega), PageFile.read, if_pos hlt]
    rw [read, if_pos hlt, hread]
    exact ⟨rfl, h, rfl⟩
  · rw [read, if_neg hlt, stored_read h hlt]
    cases hpending : c.pending id with
    | some page => exact ⟨rfl, h, rfl⟩
    | none =>
      have hget := h.agrees.get id
      have hfst : ∀ page, (c.cache.get id).1 = some page → page = c.image id :=
        fun page => h.agrees.get_fst hpending
      cases hhit : c.cache.get id with
      | mk found cache =>
        rw [hhit] at hget hfst
        cases found with
        | some page =>
          refine ⟨?_, h.withCache hget, rfl⟩
          rw [hfst page rfl]
          rfl
        | none => exact ⟨rfl, h.withCache (hget.fill id _), rfl⟩

theorem view_coherent (h : c.Coherent) (id : Nat) :
    (c.view id).1 = c.toStoredFile.read id ∧ (c.view id).2.Coherent ∧
      (c.view id).2.toStoredFile = c.toStoredFile := by
  obtain ⟨hfirst, hsecond⟩ := read_coherent h id
  rw [read] at hfirst hsecond
  rw [view]
  by_cases hlt : c.file.pageCount ≤ id
  · rw [if_pos hlt] at hfirst ⊢
    exact ⟨hfirst, h, rfl⟩
  · rw [if_neg hlt] at hfirst hsecond ⊢
    cases hpending : c.pending id with
    | some page =>
      rw [hpending] at hfirst
      exact ⟨hfirst, h, rfl⟩
    | none =>
      rw [hpending] at hfirst hsecond
      have hget := h.agrees.get id
      cases hhit : c.cache.get id with
      | mk found cache =>
        rw [hhit] at hget hfirst hsecond
        cases found with
        | some page => exact ⟨hfirst, hsecond⟩
        | none => exact read_coherent (h.withCache hget) id

theorem Coherent.writeAt (h : c.Coherent) {id : Nat} (hid : id ≠ 0) (page : P) : (c.writeAt id page).Coherent := by
  refine ⟨h.agrees.put ?_ fun other hother => ?_, h.pageCount, h.data⟩
  · simp [StoredFile.image, CachedFile.writeAt, PageFile.perform, DataIo.run, hid]
  · simp [StoredFile.image, CachedFile.writeAt, PageFile.perform, DataIo.run, hother]

theorem Coherent.writePageCount [Superblock P] (h : c.Coherent) (hpins : Unpinned c.cache 0) (count : Nat) :
    (c.writePageCount count).Coherent :=
  ⟨h.agrees.invalidate hpins fun other hother => by
    simp [StoredFile.image, CachedFile.writePageCount, PageFile.perform, DataIo.run, hother], h.pageCount, h.data⟩

theorem Coherent.setPageCount (h : c.Coherent) {count : Nat} (hle : c.file.pageCount ≤ count) :
    (c.setPageCount count).Coherent :=
  ⟨h.agrees, Nat.lt_of_lt_of_le h.pageCount hle,
    fun write hwrite => ⟨(h.data write hwrite).1, Nat.lt_of_lt_of_le (h.data write hwrite).2 hle⟩⟩

theorem Coherent.unpinned_put (h : c.Coherent) {id : Nat} (hid : id ≠ 0) (page : P) (hpins : Unpinned c.cache 0) :
    Unpinned (c.cache.put id page) 0 := by
  intro node hfind
  obtain ⟨hold, -, -, hsame⟩ := (BufferPool.put_spec h.agrees.pool page hfind).2 hid.symm
  rw [hsame]
  exact hpins node hold

/-! ### One call -/

section

variable [Inhabited P] [Superblock P]

omit [Inhabited P] [Superblock P] in
theorem write_coherent (h : c.Coherent) (id : Nat) (page : P) :
    (c.write id page).1 = (c.toStoredFile.write id page).1 ∧ (c.write id page).2.Coherent ∧
      (c.write id page).2.toStoredFile = (c.toStoredFile.write id page).2 := by
  rw [write, StoredFile.write, PageFile.write]
  by_cases hzero : id = 0
  · rw [if_pos hzero, if_pos hzero]
    exact ⟨rfl, h, rfl⟩
  · rw [if_neg hzero, if_neg hzero]
    by_cases hlt : c.file.pageCount ≤ id
    · rw [if_pos hlt, if_pos hlt]
      exact ⟨rfl, h, rfl⟩
    · rw [if_neg hlt, if_neg hlt]
      by_cases htx : c.file.inTransaction = true
      · rw [if_pos htx, if_pos htx]
        refine ⟨rfl, ⟨h.agrees.putDirty ?_ fun other hother => ?_, h.pageCount, ?_⟩, rfl⟩
        · simp [StoredFile.pending, PageFile.buffered, htx]
        · simp only [StoredFile.pending, PageFile.buffered, htx, if_true]
          rw [List.find?_cons_of_neg (by simpa [eq_comm] using hother), List.find?_filter]
          congr 2
          funext write
          by_cases hkey : write.1 = other
          · simp [hkey, hother]
          · simp [hkey]
        · intro write hwrite
          rcases List.mem_cons.1 hwrite with rfl | hold
          · exact ⟨hzero, Nat.not_le.1 hlt⟩
          · exact h.data write (List.mem_of_mem_filter hold)
      · rw [if_neg htx, if_neg htx]
        exact ⟨rfl, h.writeAt hzero page, rfl⟩

theorem allocatePage_coherent (h : c.Coherent) (hpins : Unpinned c.cache 0) :
    c.allocatePage.1 = c.toStoredFile.allocatePage.1 ∧ c.allocatePage.2.Coherent ∧
      c.allocatePage.2.toStoredFile = c.toStoredFile.allocatePage.2 := by
  rw [allocatePage, StoredFile.allocatePage, PageFile.allocatePage]
  by_cases hfull : c.file.pageCount = 2 ^ 64 - 1
  · rw [if_pos hfull, if_pos hfull]
    exact ⟨rfl, h, rfl⟩
  · rw [if_neg hfull, if_neg hfull]
    have hid : c.file.pageCount ≠ 0 := Nat.ne_of_gt h.pageCount
    have hwritten := h.writeAt hid default
    exact ⟨rfl, (hwritten.writePageCount (h.unpinned_put hid default hpins) _).setPageCount (Nat.le_succ _), rfl⟩

omit [Inhabited P] in
theorem writeRecoveredPage_coherent (h : c.Coherent) (hpins : Unpinned c.cache 0) (id : Nat) (page : P) :
    (c.writeRecoveredPage id page).1 = (c.toStoredFile.writeRecoveredPage id page).1 ∧
      (c.writeRecoveredPage id page).2.Coherent ∧
      (c.writeRecoveredPage id page).2.toStoredFile = (c.toStoredFile.writeRecoveredPage id page).2 := by
  rw [writeRecoveredPage, StoredFile.writeRecoveredPage, PageFile.writeRecoveredPage]
  by_cases hzero : id = 0
  · rw [if_pos hzero, if_pos hzero]
    exact ⟨rfl, h, rfl⟩
  · rw [if_neg hzero, if_neg hzero]
    by_cases hlt : c.file.pageCount ≤ id
    · have hgrown := (h.writePageCount hpins (id + 1)).setPageCount (Nat.le_succ_of_le hlt)
      simp only [hlt, if_true, PageFile.redoPage, PageFile.grow]
      exact ⟨trivial, hgrown.writeAt hzero page, rfl⟩
    · simp only [hlt, if_false, PageFile.redoPage, PageFile.grow]
      exact ⟨trivial, h.writeAt hzero page, rfl⟩

omit [Inhabited P] in
theorem setCatalogRoot_coherent (h : c.Coherent) (root : Nat) :
    (c.setCatalogRoot root).1 = (c.toStoredFile.setCatalogRoot root).1 ∧
      (c.setCatalogRoot root).2.Coherent ∧
      (c.setCatalogRoot root).2.toStoredFile = (c.toStoredFile.setCatalogRoot root).2 := by
  rw [setCatalogRoot, StoredFile.setCatalogRoot, PageFile.setCatalogRoot]
  by_cases hzero : root = 0
  · rw [if_pos hzero, if_pos hzero]
    exact ⟨rfl, h, rfl⟩
  · rw [if_neg hzero, if_neg hzero]
    by_cases hlt : c.file.pageCount ≤ root
    · rw [if_pos hlt, if_pos hlt]
      exact ⟨rfl, h, rfl⟩
    · rw [if_neg hlt, if_neg hlt]
      refine ⟨rfl, ⟨h.agrees.put rfl fun other hother => ?_, h.pageCount, h.data⟩, rfl⟩
      simp [StoredFile.image, hother, PageFile.perform, DataIo.run]

end

/-! ### The transaction is applied -/

def applied (stored : StoredFile P) (writes : List (Nat × P)) : StoredFile P :=
  { stored with
    file := writes.foldl (fun file write => file.perform (.writePage write.1 write.2)) stored.file }

theorem applyPages_spec (writes : List (Nat × P)) {done : Nat} (hle : done ≤ c.applyFailpoint) :
    (applyPages writes done c).1 =
        (if done + writes.length ≤ c.applyFailpoint then .ok ()
          else .error ⟨.ioError, "apply failpoint reached (simulated crash)"⟩) ∧
      (applyPages writes done c).2.toStoredFile =
        applied c.toStoredFile (writes.take (c.applyFailpoint - done)) := by
  induction writes generalizing c done with
  | nil => simp [applyPages, applied, hle]
  | cons write rest ih =>
    rw [applyPages]
    by_cases hstop : c.applyFailpoint ≤ done
    · obtain rfl : done = c.applyFailpoint := Nat.le_antisymm hle hstop
      simp [applied]
    · rw [if_neg hstop]
      obtain ⟨hresult, hstored⟩ := @ih (c.writeAt write.1 write.2) (done + 1) (Nat.not_le.1 hstop)
      refine ⟨?_, ?_⟩
      · rw [hresult, Nat.add_right_comm]
        rfl
      · have htake : c.applyFailpoint - done = (c.applyFailpoint - (done + 1)) + 1 := by omega
        rw [hstored, htake, List.take_succ_cons]
        rfl

theorem Coherent.applyPages (h : c.Coherent) {writes : List (Nat × P)} (hdata : ∀ write ∈ writes, write.1 ≠ 0)
    (done : Nat) : (CachedFile.applyPages writes done c).2.Coherent := by
  induction writes generalizing c done with
  | nil => exact h
  | cons write rest ih =>
    obtain ⟨hwrite, hrest⟩ := List.forall_mem_cons.1 hdata
    rw [CachedFile.applyPages]
    split
    · exact h
    · exact ih (h.writeAt hwrite write.2) hrest _

theorem applyPages_clean (h : c.Coherent) {writes : List (Nat × P)} (hdata : ∀ write ∈ writes, write.1 ≠ 0)
    {done : Nat} (hresult : (CachedFile.applyPages writes done c).1 = .ok ())
    (hwithin : ∀ id node, c.cache.find id = some node → (c.cache.frames node).dirty = true →
      id ∈ writes.map Prod.fst) (id : Nat) (node : FrameNode)
    (hfind : (CachedFile.applyPages writes done c).2.cache.find id = some node) :
    ((CachedFile.applyPages writes done c).2.cache.frames node).dirty = false := by
  induction writes generalizing c done with
  | nil =>
    cases hflag : ((CachedFile.applyPages [] done c).2.cache.frames node).dirty with
    | false => rfl
    | true => exact absurd (hwithin id node hfind hflag) (by simp)
  | cons write rest ih =>
    obtain ⟨hwrite, hrest⟩ := List.forall_mem_cons.1 hdata
    rw [CachedFile.applyPages] at hresult hfind ⊢
    split at hresult
    · cases hresult
    · rename_i hstop
      rw [if_neg hstop] at hfind ⊢
      refine ih (h.writeAt hwrite write.2) hrest hresult (fun other found hother hdirty => ?_) hfind
      obtain ⟨hself, hkept⟩ := BufferPool.put_spec h.agrees.pool write.2 hother
      by_cases heq : other = write.1
      · exact absurd hdirty (by simp [CachedFile.writeAt, (hself heq).2])
      · obtain ⟨hold, -, hsame, -⟩ := hkept heq
        have hmem := hwithin other found hold (hsame ▸ hdirty)
        exact (List.mem_cons.1 hmem).resolve_left heq

theorem mem_of_pending {stored : StoredFile P} {id : Nat} {page : P} (h : stored.pending id = some page) :
    id ∈ stored.file.txPages.map Prod.fst := by
  rw [StoredFile.pending] at h
  split at h
  · rw [PageFile.buffered, Option.map_eq_some_iff] at h
    obtain ⟨write, hfind, -⟩ := h
    have hkey := List.find?_some hfind
    exact List.mem_map.2 ⟨write, List.mem_of_find?_eq_some hfind, by simpa using hkey⟩
  · cases h

theorem applyTransaction_coherent (h : c.Coherent) :
    c.applyTransaction.1 = c.toStoredFile.applyTransaction.1 ∧ c.applyTransaction.2.Coherent ∧
      c.applyTransaction.2.toStoredFile = c.toStoredFile.applyTransaction.2 := by
  have hdata : ∀ write ∈ c.file.txPages, write.1 ≠ 0 := fun write hwrite => (h.data write hwrite).1
  obtain ⟨hresult, hstored⟩ := @applyPages_spec _ c c.file.txPages 0 (Nat.zero_le _)
  have hcoherent := h.applyPages hdata 0
  have hclean := @applyPages_clean _ c h _ hdata 0
  rw [Nat.zero_add, Nat.sub_zero] at *
  rw [applyTransaction, StoredFile.applyTransaction]
  by_cases hall : c.file.txPages.length ≤ c.applyFailpoint
  · rw [if_pos hall] at hresult ⊢
    rw [List.take_of_length_le hall] at hstored
    have hnone := hclean hresult fun id node hfind hdirty => mem_of_pending (h.agrees.dirty id node hfind hdirty)
    cases hrun : CachedFile.applyPages c.file.txPages 0 c with
    | mk result after =>
      rw [hrun] at hresult hstored hcoherent hnone
      obtain rfl : result = .ok () := hresult
      have hflushed := hcoherent.agrees.flushed after.file.txPages.length
      refine ⟨rfl, ⟨hflushed.discard (fun id node hfind hdirty => ?_) _, hcoherent.pageCount, by simp⟩, ?_⟩
      · exact absurd (hdirty.symm.trans (hnone id node hfind)) (by simp)
      · rw [StoredFile.mk.injEq]
        have hfile := congrArg StoredFile.file hstored
        have hsuper := congrArg StoredFile.superblock hstored
        have hpoint := congrArg StoredFile.applyFailpoint hstored
        dsimp only at hfile hsuper hpoint ⊢
        rw [hfile, hsuper, hpoint]
        exact ⟨rfl, rfl, rfl⟩
  · rw [if_neg hall] at hresult ⊢
    cases hrun : CachedFile.applyPages c.file.txPages 0 c with
    | mk result after =>
      rw [hrun] at hresult hstored hcoherent
      obtain rfl : result = .error ⟨.ioError, "apply failpoint reached (simulated crash)"⟩ := hresult
      exact ⟨rfl, hcoherent, hstored⟩

end CachedFile

/-! ### Runs -/

section

variable [Inhabited P] [Superblock P]

def CachedFile.Allows (c : CachedFile P) : FileCall P → Prop
  | .beginTransaction | .discardTransaction => Droppable c.cache c.image
  | .allocatePage | .writeRecoveredPage _ _ => Unpinned c.cache 0
  | _ => True

def CachedFile.AllowsRun (c : CachedFile P) : List (FileCall P) → Prop
  | [] => True
  | call :: rest => c.Allows call ∧ (c.step call).2.AllowsRun rest

theorem CachedFile.step_coherent {c : CachedFile P} (h : c.Coherent) {call : FileCall P} (hallows : c.Allows call) :
    (c.step call).1 = (c.toStoredFile.step call).1 ∧ (c.step call).2.Coherent ∧
      (c.step call).2.toStoredFile = (c.toStoredFile.step call).2 := by
  cases call with
  | read id =>
    obtain ⟨hresult, hrest⟩ := read_coherent h id
    exact ⟨congrArg FileAnswer.page hresult, hrest⟩
  | view id =>
    obtain ⟨hresult, hrest⟩ := view_coherent h id
    exact ⟨congrArg FileAnswer.page hresult, hrest⟩
  | allocatePage =>
    obtain ⟨hresult, hrest⟩ := allocatePage_coherent h hallows
    exact ⟨congrArg FileAnswer.id hresult, hrest⟩
  | write id page =>
    obtain ⟨hresult, hrest⟩ := write_coherent h id page
    exact ⟨congrArg FileAnswer.done hresult, hrest⟩
  | beginTransaction =>
    exact ⟨rfl, ⟨h.agrees.discard hallows _, h.pageCount, fun _ hwrite => absurd hwrite List.not_mem_nil⟩, rfl⟩
  | discardTransaction =>
    exact ⟨rfl, ⟨h.agrees.discard hallows _, h.pageCount, fun _ hwrite => absurd hwrite List.not_mem_nil⟩, rfl⟩
  | applyTransaction =>
    obtain ⟨hresult, hrest⟩ := applyTransaction_coherent h
    exact ⟨congrArg FileAnswer.done hresult, hrest⟩
  | writeRecoveredPage id page =>
    obtain ⟨hresult, hrest⟩ := writeRecoveredPage_coherent h hallows id page
    exact ⟨congrArg FileAnswer.done hresult, hrest⟩
  | setCatalogRoot root =>
    obtain ⟨hresult, hrest⟩ := setCatalogRoot_coherent h root
    exact ⟨congrArg FileAnswer.done hresult, hrest⟩
  | flush => exact ⟨rfl, ⟨h.agrees, h.pageCount, h.data⟩, rfl⟩
  | setApplyFailpoint count => exact ⟨rfl, ⟨h.agrees, h.pageCount, h.data⟩, rfl⟩
  | pin id => exact ⟨rfl, h.withCache (h.agrees.keeps (h.agrees.pool.pin id).1 (BufferPool.keeps_pin id)), rfl⟩
  | unpin id =>
    exact ⟨rfl, h.withCache (h.agrees.keeps (h.agrees.pool.unpin id).1 (BufferPool.keeps_unpin id)), rfl⟩

theorem CachedFile.run_coherent {c : CachedFile P} (h : c.Coherent) {calls : List (FileCall P)}
    (hallows : c.AllowsRun calls) :
    (c.run calls).1 = (c.toStoredFile.run calls).1 ∧ (c.run calls).2.Coherent ∧
      (c.run calls).2.toStoredFile = (c.toStoredFile.run calls).2 := by
  induction calls generalizing c with
  | nil => exact ⟨rfl, h, rfl⟩
  | cons call rest ih =>
    obtain ⟨hanswer, hcoherent, hstored⟩ := step_coherent h hallows.1
    obtain ⟨hanswers, hend⟩ := ih hcoherent hallows.2
    rw [hstored] at hanswers hend
    exact ⟨congrArg₂ List.cons hanswer hanswers, hend⟩

def StoredFile.cached (stored : StoredFile P) (capacity : Nat) : CachedFile P :=
  { stored with cache := BufferPool.create capacity }

omit [Superblock P] in
theorem StoredFile.cached_coherent {stored : StoredFile P} (hcount : 0 < stored.file.pageCount)
    (htx : stored.file.txPages = []) (capacity : Nat) : (stored.cached capacity).Coherent := by
  refine ⟨⟨BufferPool.sound_create capacity, ?_, ?_⟩, hcount, by simp [cached, htx]⟩
  · intro id node hfind
    cases hfind
  · intro id node hfind
    cases hfind

/-! ### Runs without pins -/

def BufferPool.PinFree (pool : BufferPool P) : Prop := ∀ node, (pool.frames node).pinCount = 0

namespace BufferPool

variable {pool : BufferPool P}

omit [Inhabited P] [Superblock P]

theorem PinFree.setFrame (h : pool.PinFree) (node : FrameNode) {frame : Frame P} (hframe : frame.pinCount = 0) :
    (pool.setFrame node frame).PinFree := by
  intro other
  by_cases heq : other = node
  · simp [BufferPool.setFrame, heq, hframe]
  · simp [BufferPool.setFrame, heq, h other]

theorem PinFree.place (h : pool.PinFree) (node : FrameNode) : (pool.place node).PinFree := fun other =>
  (frames_place other).2.2.trans (h other)

theorem PinFree.touch (h : pool.PinFree) (node : FrameNode) : (pool.touch node).PinFree := fun other => by
  rw [frames_touch]
  exact h other

theorem PinFree.evictUntil (h : pool.PinFree) (hpool : pool.Linked) (maxSize : Nat) :
    (pool.evictUntil maxSize).PinFree := fun other => by
  rw [(hpool.evictUntil maxSize).1.frames]
  exact h other

theorem PinFree.renew (h : pool.PinFree) (node : FrameNode) {frame : Frame P} (hframe : frame.pinCount = 0) :
    (((pool.setFrame node frame).place node).touch node).PinFree :=
  ((h.setFrame node hframe).place node).touch node

theorem PinFree.get (h : pool.PinFree) (page : Nat) : (pool.get page).2.PinFree := by
  rw [BufferPool.get]
  cases pool.find page with
  | none => exact h
  | some node =>
    have hmetrics : PinFree { pool with metrics := { pool.metrics with hits := pool.metrics.hits + 1 } } := h
    exact hmetrics.touch node

theorem PinFree.put (h : pool.PinFree) (hpool : pool.Sound) (page : Nat) (contents : P) :
    (pool.put page contents).PinFree := by
  rw [BufferPool.put]
  cases pool.find page with
  | none => exact fun other => (h.evictUntil hpool.linked _).setFrame _ rfl other
  | some node => exact h.renew node (h node)

theorem PinFree.putDirty (h : pool.PinFree) (page : Nat) (contents : P) : (pool.putDirty page contents).PinFree := by
  rw [BufferPool.putDirty]
  cases pool.find page with
  | none => exact fun other => h.setFrame _ rfl other
  | some node => exact h.renew node (h node)

theorem PinFree.invalidate (h : pool.PinFree) (page : Nat) : (pool.invalidate page).PinFree := by
  rw [BufferPool.invalidate]
  cases pool.find page with
  | none => exact h
  | some node =>
    dsimp only
    split
    · exact h
    · split <;> exact h

theorem PinFree.unpin (h : pool.PinFree) (page : Nat) : pool.unpin page = pool := by
  rw [BufferPool.unpin]
  cases pool.find page with
  | none => rfl
  | some node => exact if_pos (h node)

theorem PinFree.discardLoop (h : pool.PinFree) (rest : List FrameNode) : (BufferPool.discardLoop rest pool).PinFree := by
  induction rest generalizing pool with
  | nil => exact h
  | cons node rest ih =>
    rw [BufferPool.discardLoop]
    dsimp only
    split
    · exact ih h
    · rw [if_pos (h node)]
      have hclean := @PinFree.setFrame _ pool h node { pool.frames node with dirty := false } (h node)
      exact ih fun other => hclean other

theorem PinFree.discardDirty (h : pool.PinFree) (hpool : pool.Sound) : pool.discardDirty.PinFree := by
  obtain ⟨hsound, -⟩ := hpool.discardLoop (fun _ hnode => hnode) hpool.linked.nodup.of_append_right
  exact (h.discardLoop _).evictUntil hsound.linked _

end BufferPool

namespace CachedFile

variable {c : CachedFile P}

omit [Superblock P] [Inhabited P] in
theorem pinFree_fill {cache : BufferPool P} {image : Nat → P} {pending : Nat → Option P}
    (h : Agrees cache image pending) (hpins : cache.PinFree) (first count : Nat) :
    (fill image first count cache).PinFree := by
  rw [fill]
  induction List.range count generalizing cache with
  | nil => exact hpins
  | cons index rest ih => exact ih (h.put rfl fun _ _ => rfl) (hpins.put h.pool _ _)

omit [Superblock P] [Inhabited P] in
theorem pinFree_read (h : c.Coherent) (hpins : c.cache.PinFree) (id : Nat) : (c.read id).2.cache.PinFree := by
  have hget := hpins.get id
  have hagrees := h.agrees.get id
  rw [read]
  split
  · exact hpins
  · split
    · exact hpins
    · cases hhit : c.cache.get id with
      | mk found cache =>
        rw [hhit] at hget hagrees
        cases found with
        | some page => exact hget
        | none => exact pinFree_fill hagrees hget _ _

omit [Superblock P] [Inhabited P] in
theorem pinFree_applyPages (h : c.Coherent) (hpins : c.cache.PinFree) {writes : List (Nat × P)}
    (hdata : ∀ write ∈ writes, write.1 ≠ 0) (done : Nat) : (applyPages writes done c).2.cache.PinFree := by
  induction writes generalizing c done with
  | nil => exact hpins
  | cons write rest ih =>
    obtain ⟨hwrite, hrest⟩ := List.forall_mem_cons.1 hdata
    rw [applyPages]
    split
    · exact hpins
    · exact ih (h.writeAt hwrite write.2) (hpins.put h.agrees.pool _ _) hrest _

omit [Inhabited P] [Superblock P] in
theorem allows_of_pinFree (hpins : c.cache.PinFree) (call : FileCall P) : c.Allows call := by
  cases call <;> first | exact trivial | exact fun _ _ _ _ hpinned => absurd (hpins _) hpinned |
    exact fun node _ => hpins node

theorem pinFree_step (h : c.Coherent) (hpins : c.cache.PinFree) {call : FileCall P}
    (hcall : ∀ id, call ≠ .pin id) : (c.step call).2.cache.PinFree := by
  have hpool := h.agrees.pool
  have hwritten (id : Nat) (page : P) : (c.writeAt id page).cache.PinFree := hpins.put hpool id page
  cases call with
  | read id => exact pinFree_read h hpins id
  | view id =>
    change (c.view id).2.cache.PinFree
    rw [view]
    split
    · exact hpins
    · split
      · exact hpins
      · have hget := hpins.get id
        have hagrees := h.agrees.get id
        cases hhit : c.cache.get id with
        | mk found cache =>
          rw [hhit] at hget hagrees
          cases found with
          | some page => exact hget
          | none => exact pinFree_read (h.withCache hagrees) hget id
  | allocatePage =>
    change c.allocatePage.2.cache.PinFree
    rw [allocatePage]
    split
    · exact hpins
    · exact (hwritten _ _).invalidate 0
  | write id page =>
    change (c.write id page).2.cache.PinFree
    rw [write]
    split
    · exact hpins
    · split
      · exact hpins
      · split
        · exact hpins.putDirty id page
        · exact hwritten id page
  | beginTransaction => exact hpins.discardDirty hpool
  | discardTransaction => exact hpins.discardDirty hpool
  | applyTransaction =>
    change c.applyTransaction.2.cache.PinFree
    have hdata : ∀ write ∈ c.file.txPages, write.1 ≠ 0 := fun write hwrite => (h.data write hwrite).1
    have hcoherent := h.applyPages hdata 0
    have hafter := pinFree_applyPages h hpins hdata 0
    rw [applyTransaction]
    cases hrun : applyPages c.file.txPages 0 c with
    | mk result after =>
      rw [hrun] at hcoherent hafter
      cases result with
      | error error => exact hafter
      | ok done =>
        have hflushed : (after.cache.recordDirtyFlushes after.file.txPages.length).PinFree := hafter
        exact hflushed.discardDirty (hcoherent.agrees.flushed _).pool
  | writeRecoveredPage id page =>
    change (c.writeRecoveredPage id page).2.cache.PinFree
    rw [writeRecoveredPage]
    split
    · exact hpins
    · split
      · have hpins' := hpins.invalidate 0
        exact hpins'.put (hpool.invalidate 0).1 id page
      · exact hwritten id page
  | setCatalogRoot root =>
    change (c.setCatalogRoot root).2.cache.PinFree
    rw [setCatalogRoot]
    split
    · exact hpins
    · split
      · exact hpins
      · exact hpins.put hpool 0 _
  | flush => exact hpins
  | setApplyFailpoint count => exact hpins
  | pin id => exact absurd rfl (hcall id)
  | unpin id =>
    change (c.cache.unpin id).PinFree
    rwa [hpins.unpin id]

theorem allowsRun_of_pinFree (h : c.Coherent) (hpins : c.cache.PinFree) {calls : List (FileCall P)}
    (hcalls : ∀ id, .pin id ∉ calls) : c.AllowsRun calls := by
  induction calls generalizing c with
  | nil => exact trivial
  | cons call rest ih =>
    have hallows := allows_of_pinFree hpins call
    have hcall : ∀ id, call ≠ .pin id := by
      rintro id rfl
      exact hcalls id List.mem_cons_self
    exact ⟨hallows, ih (step_coherent h hallows).2.1 (pinFree_step h hpins hcall) fun id hmem =>
      hcalls id (List.mem_cons_of_mem _ hmem)⟩

end CachedFile

/-- Whatever is called, and whatever the pool can hold, the answers are those of the file without it. -/
theorem reads_through_pool {stored : StoredFile P} (hcount : 0 < stored.file.pageCount)
    (htx : stored.file.txPages = []) (capacity : Nat) {calls : List (FileCall P)}
    (hpins : ∀ id, .pin id ∉ calls) : ((stored.cached capacity).run calls).1 = (stored.run calls).1 := by
  have hcoherent := StoredFile.cached_coherent hcount htx capacity
  exact (CachedFile.run_coherent hcoherent
    (CachedFile.allowsRun_of_pinFree hcoherent (fun _ => rfl) hpins)).1

/-- A file as `PageFile::create` leaves it. -/
def StoredFile.new : StoredFile P := { file := PageFile.create, superblock := Superblock.make 1 none }

def draft (page : P) : List (FileCall P) :=
  [.allocatePage, .beginTransaction, .write 1 page, .read 1, .discardTransaction, .view 1]

theorem reads_through_pool_new :
    (@CachedFile.run Area _ (@superblockArea PageSize.default)
      ((@StoredFile.new Area _ (@superblockArea PageSize.default)).cached 2) (draft fun _ => 7)).1 =
    (@StoredFile.run Area _ (@superblockArea PageSize.default)
      (@StoredFile.new Area _ (@superblockArea PageSize.default)) (draft fun _ => 7)).1 :=
  @reads_through_pool _ _ (@superblockArea PageSize.default) _ Nat.one_pos rfl 2 _ (by simp [draft])

namespace CachedFile

omit [Inhabited P] [Superblock P] in
theorem discardTransaction_pinned {c : CachedFile P} (h : c.Coherent) {id : Nat} {node : FrameNode}
    (hfind : c.cache.find id = some node) (hdirty : (c.cache.frames node).dirty = true)
    (hpinned : (c.cache.frames node).pinCount ≠ 0) :
    c.pending id = some (c.cache.frames node).page ∧
      c.discardTransaction.cache.find id = some node ∧
      (c.discardTransaction.cache.frames node).dirty = false ∧
      (c.discardTransaction.read id).1 = .ok (c.cache.frames node).page := by
  have hpending := h.agrees.dirty id node hfind hdirty
  obtain ⟨write, hwrite, rfl⟩ := List.mem_map.1 (mem_of_pending hpending)
  obtain ⟨-, hlt⟩ := h.data write hwrite
  have hshown := BufferPool.discardDirty_pinned h.agrees.pool hfind hpinned
  obtain ⟨-, hpage, hclean, -⟩ := BufferPool.discardDirty_spec h.agrees.pool hshown
  have hget : (c.discardTransaction.cache.get write.1).1 = some (c.cache.frames node).page := by
    rw [BufferPool.get_fst]
    change (c.cache.discardDirty.find write.1).map _ = _
    rw [hshown, ← hpage]
    rfl
  refine ⟨hpending, hshown, hclean, ?_⟩
  have hcount : ¬c.discardTransaction.file.pageCount ≤ write.1 := Nat.not_le.2 hlt
  have hnone : c.discardTransaction.pending write.1 = none := rfl
  rw [read, if_neg hcount, hnone]
  cases hhit : c.discardTransaction.cache.get write.1 with
  | mk found cache =>
    rw [hhit] at hget
    obtain rfl : found = some _ := hget
    rfl

end CachedFile

/-- With pins, a discard shows the file again just when each pinned page of the transaction is as it is
there. Every pinned page of the transaction stays, marked clean, and is read as the transaction had it. -/
theorem discard_shows_file {stored : StoredFile P} (hcount : 0 < stored.file.pageCount)
    (htx : stored.file.txPages = []) (capacity : Nat) {calls : List (FileCall P)}
    (hallows : (stored.cached capacity).AllowsRun calls) :
    let c := ((stored.cached capacity).run calls).2
    let file := (stored.run calls).2
    ((∀ id, (c.discardTransaction.read id).1 = (file.step .discardTransaction).2.read id) ↔
      Droppable c.cache file.image) ∧
    ∀ id node, c.cache.find id = some node → (c.cache.frames node).dirty = true →
      (c.cache.frames node).pinCount ≠ 0 →
        file.pending id = some (c.cache.frames node).page ∧
        c.discardTransaction.cache.find id = some node ∧
        (c.discardTransaction.cache.frames node).dirty = false ∧
        (c.discardTransaction.read id).1 = .ok (c.cache.frames node).page := by
  obtain ⟨-, hcoherent, hstored⟩ :=
    CachedFile.run_coherent (StoredFile.cached_coherent hcount htx capacity) hallows
  have hstored' : (stored.run calls).2 = ((stored.cached capacity).run calls).2.toStoredFile := hstored.symm
  rw [hstored']
  generalize ((stored.cached capacity).run calls).2 = c at hcoherent
  refine ⟨⟨fun h id node hfind hdirty hpinned => ?_, fun hdrop id => ?_⟩,
    fun id node => CachedFile.discardTransaction_pinned hcoherent⟩
  · obtain ⟨hpending, -, -, hread⟩ := CachedFile.discardTransaction_pinned hcoherent hfind hdirty hpinned
    obtain ⟨write, hwrite, rfl⟩ := List.mem_map.1 (CachedFile.mem_of_pending hpending)
    obtain ⟨hzero, hlt⟩ := hcoherent.data write hwrite
    have hfile := h write.1
    have hcount' : ¬(c.toStoredFile.step .discardTransaction).2.file.pageCount ≤ write.1 := Nat.not_le.2 hlt
    rw [hread, StoredFile.read, if_neg fun hboth => hzero hboth.1, PageFile.read, if_neg hcount'] at hfile
    rw [StoredFile.image, if_neg hzero]
    exact Except.ok.inj hfile
  · have hdiscarded : c.discardTransaction.Coherent :=
      ⟨hcoherent.agrees.discard hdrop _, hcoherent.pageCount, fun _ hwrite => absurd hwrite List.not_mem_nil⟩
    exact (CachedFile.read_coherent hdiscarded id).1

/-- A page is written in a transaction and pinned, and the transaction goes on. -/
def pinnedDraft (page : P) : List (FileCall P) := [.allocatePage, .beginTransaction, .write 1 page, .pin 1]

/-- The page of the draft is read after the transaction was given up, and the file has a blank one. -/
theorem discard_hides_file_pinnedDraft : letI := PageSize.default
    let c := (((StoredFile.new : StoredFile Area).cached 2).run (pinnedDraft fun _ => 7)).2
    let file := ((StoredFile.new : StoredFile Area).run (pinnedDraft fun _ => 7)).2
    file.file.inTransaction = true ∧ (c.discardTransaction.read 1).1 = .ok (fun _ => 7) ∧
      ¬∀ id, (c.discardTransaction.read id).1 = (file.step .discardTransaction).2.read id := by
  let _ := PageSize.default
  have hnew : ((StoredFile.new : StoredFile Area).cached 2).Coherent :=
    StoredFile.cached_coherent Nat.one_pos rfl 2
  have hfree : ((StoredFile.new : StoredFile Area).cached 2).cache.PinFree := fun _ => rfl
  have hallocates := CachedFile.allows_of_pinFree hfree .allocatePage
  have hfree' := CachedFile.pinFree_step hnew hfree (by simp : ∀ id, .allocatePage ≠ FileCall.pin id)
  have hbegins := CachedFile.allows_of_pinFree hfree' .beginTransaction
  obtain ⟨hdiscards, hpinned⟩ := @discard_shows_file Area _ _ StoredFile.new Nat.one_pos rfl 2
    (pinnedDraft fun _ => 7) ⟨hallocates, hbegins, trivial, trivial, trivial⟩
  have hfind : (((StoredFile.new : StoredFile Area).cached 2).run (pinnedDraft fun _ => 7)).2.cache.find 1 =
      some 0 := by decide +kernel
  obtain ⟨hpending, -, -, hread⟩ := hpinned 1 0 hfind (by decide +kernel) (by decide +kernel)
  have hdraft : ((StoredFile.new : StoredFile Area).run (pinnedDraft fun _ => 7)).2.pending 1 =
      some fun _ => 7 := rfl
  have hpage := Option.some.inj (hpending.symm.trans hdraft)
  refine ⟨by decide +kernel, hpage ▸ hread, fun hshows => ?_⟩
  have hfile := hdiscards.1 hshows 1 0 hfind (by decide +kernel) (by decide +kernel)
  have hblank : ((StoredFile.new : StoredFile Area).run (pinnedDraft fun _ => 7)).2.image 1 = default := rfl
  rw [hpage, hblank] at hfile
  exact absurd (congrFun hfile 0) (by decide)

end

end MoDb.Storage
