import MoDb.Storage.Page
import MoDb.Lib.WriteLog

/-!
# The page file

The data file is a superblock and an array of pages. `DataFile` is what the operating system holds
after every write so far, and `PageFile` the handle over it: the mirror of the superblock, and the
buffer that keeps a transaction's pages out of the file until it is applied. The cache in front of
the file is written through, so it never shows here. Each effect on the file is kept in `trace`, in
the order it was issued, for the crash models: a crash keeps only some of the writes that no later
`sync` covers.
-/

namespace MoDb.Storage

variable {P : Type}

/-- What the data file holds. A page past its end reads as a blank page. -/
structure DataFile (P : Type) where
  /-- `page_count` and `catalog_root` as the superblock stores them. -/
  pageCount : Nat
  catalogRoot : Option Nat
  pages : Nat → P
  /-- Whole pages in the file, the superblock included. -/
  length : Nat

/-- One effect on the data file. -/
inductive DataIo (P : Type)
  | writePage (id : Nat) (page : P)
  | writePageCount (count : Nat)
  | writeSuperblock (count : Nat) (root : Option Nat)
  | sync

def DataIo.run : DataIo P → DataFile P → DataFile P
  | .writePage id page, file =>
    { file with pages := Function.update file.pages id page, length := max file.length (id + 1) }
  | .writePageCount count, file => { file with pageCount := count }
  | .writeSuperblock count root, file =>
    { file with pageCount := count, catalogRoot := root, length := max file.length 1 }
  | .sync, file => file

structure PageFile (P : Type) where
  data : DataFile P
  /-- `page_count_` and `catalog_root_`. -/
  pageCount : Nat
  catalogRoot : Option Nat
  inTransaction : Bool := false
  txPages : List (Nat × P) := []
  trace : List (DataIo P) := []

namespace PageFile

def perform (file : PageFile P) (io : DataIo P) : PageFile P :=
  { file with data := io.run file.data, trace := file.trace ++ [io] }

/-- `PageFile::create`. -/
def create [Inhabited P] : PageFile P :=
  let blank : PageFile P :=
    { data := ⟨0, none, fun _ => default, 0⟩, pageCount := 1, catalogRoot := none }
  (blank.perform (.writeSuperblock 1 none)).perform .sync

/-- `PageFile::open`. A count past the end of the file is what a crash between the two leaves; it is
accepted only when a log is there to extend the file again. -/
def «open» (data : DataFile P) (tolerateShortFile : Bool) : Except Error (PageFile P) :=
  if data.length = 0 then .error ⟨.corruptFile, "database file is truncated or misaligned"⟩
  else if data.pageCount = 0 then .error ⟨.corruptFile, "stored page count is invalid"⟩
  else if data.length < data.pageCount then
    if tolerateShortFile then
      .ok { data := data, pageCount := data.length, catalogRoot := data.catalogRoot }
    else .error ⟨.corruptFile, "stored page count is larger than the database file"⟩
  else .ok { data := data, pageCount := data.pageCount, catalogRoot := data.catalogRoot }

def buffered (file : PageFile P) (id : Nat) : Option P :=
  (file.txPages.find? fun write => write.1 = id).map Prod.snd

/-- `PageFile::read`. -/
def read (file : PageFile P) (id : Nat) : Except Error P :=
  if file.pageCount ≤ id then .error ⟨.pageNotFound, s!"page does not exist: {id}"⟩
  else if file.inTransaction then .ok ((file.buffered id).getD (file.data.pages id))
  else .ok (file.data.pages id)

/-- `PageFile::allocate_page`: the blank page and the new count go to the file at once, also inside
a transaction. -/
def allocatePage [Inhabited P] (file : PageFile P) : Except Error (Nat × PageFile P) :=
  if file.pageCount = 2 ^ 64 - 1 then .error ⟨.ioError, "database reached the maximum page count"⟩
  else
    let id := file.pageCount
    let written := file.perform (.writePage id default)
    .ok (id, { written.perform (.writePageCount (id + 1)) with pageCount := id + 1 })

/-- `PageFile::write`. -/
def write (file : PageFile P) (id : Nat) (page : P) : Except Error (PageFile P) :=
  if id = 0 then .error ⟨.reservedPage, "the superblock cannot be overwritten directly"⟩
  else if file.pageCount ≤ id then .error ⟨.pageNotFound, s!"page does not exist: {id}"⟩
  else if file.inTransaction then
    .ok { file with txPages := (id, page) :: file.txPages.filter fun write => write.1 ≠ id }
  else .ok (file.perform (.writePage id page))

/-- `PageFile::begin_transaction`. -/
def beginTransaction (file : PageFile P) : PageFile P :=
  { file with inTransaction := true, txPages := [] }

/-- `PageFile::discard_transaction`. -/
def discardTransaction (file : PageFile P) : PageFile P :=
  { file with inTransaction := false, txPages := [] }

/-- `PageFile::apply_transaction`. -/
def applyTransaction (file : PageFile P) : PageFile P :=
  let applied := file.txPages.foldl (fun file write => file.perform (.writePage write.1 write.2)) file
  { applied with inTransaction := false, txPages := [] }

/-- Extend the logical count so that page `id` exists. -/
def grow (file : PageFile P) (id : Nat) : PageFile P :=
  if file.pageCount ≤ id then
    { file.perform (.writePageCount (id + 1)) with pageCount := id + 1 }
  else file

/-- The write of `write_recovered_page`, past its check. -/
def redoPage (file : PageFile P) (id : Nat) (page : P) : PageFile P :=
  (file.grow id).perform (.writePage id page)

/-- `PageFile::write_recovered_page`. -/
def writeRecoveredPage (file : PageFile P) (id : Nat) (page : P) : Except Error (PageFile P) :=
  if id = 0 then .error ⟨.reservedPage, "recovery cannot overwrite the superblock"⟩
  else .ok (file.redoPage id page)

/-- `PageFile::flush`. -/
def flush (file : PageFile P) : PageFile P := file.perform .sync

/-- `PageFile::set_catalog_root`. -/
def setCatalogRoot (file : PageFile P) (root : Nat) : Except Error (PageFile P) :=
  if root = 0 then
    .error ⟨.invalidArgument, "the catalog root cannot be the superblock page"⟩
  else if file.pageCount ≤ root then
    .error ⟨.pageNotFound, s!"catalog root page does not exist: {root}"⟩
  else
    .ok { file.perform (.writeSuperblock file.pageCount (some root)) with catalogRoot := some root }

/-! ### Effects on the pages -/

/-- The file after `allocate_page`, short of its limit. -/
def extended [Inhabited P] (file : PageFile P) : PageFile P :=
  { (file.perform (.writePage file.pageCount default)).perform
      (.writePageCount (file.pageCount + 1)) with
    pageCount := file.pageCount + 1 }

theorem allocatePage_eq [Inhabited P] {file : PageFile P} (h : file.pageCount < 2 ^ 64 - 1) :
    file.allocatePage = .ok (file.pageCount, file.extended) := by
  unfold allocatePage
  rw [if_neg (Nat.ne_of_lt h)]
  rfl

theorem write_eq {file : PageFile P} {id : Nat} (hpos : id ≠ 0) (hlt : id < file.pageCount)
    (htx : file.inTransaction = false) (page : P) :
    file.write id page = .ok (file.perform (.writePage id page)) := by
  unfold write
  simp [hpos, Nat.not_le.2 hlt, htx]

theorem read_eq {file : PageFile P} {id : Nat} (hlt : id < file.pageCount)
    (htx : file.inTransaction = false) : file.read id = .ok (file.data.pages id) := by
  unfold read
  simp [Nat.not_le.2 hlt, htx]

theorem read_perform_writePage {file : PageFile P} {id : Nat} (hlt : id < file.pageCount)
    (htx : file.inTransaction = false) (page : P) :
    (file.perform (.writePage id page)).read id = .ok page := by
  unfold read
  simp [perform, DataIo.run, Nat.not_le.2 hlt, htx]

@[simp]
theorem pages_flush (file : PageFile P) : file.flush.data.pages = file.data.pages := rfl

@[simp]
theorem pageCount_flush (file : PageFile P) : file.flush.pageCount = file.pageCount := rfl

@[simp]
theorem pages_redoPage (file : PageFile P) (id : Nat) (page : P) :
    (file.redoPage id page).data.pages = Function.update file.data.pages id page := by
  unfold redoPage grow
  split <;> rfl

@[simp]
theorem pageCount_redoPage (file : PageFile P) (id : Nat) (page : P) :
    (file.redoPage id page).pageCount = max file.pageCount (id + 1) := by
  unfold redoPage grow
  split <;> simp only [perform] <;> omega

def redoPages (file : PageFile P) (images : List (Nat × P)) : PageFile P :=
  images.foldl (fun file image => file.redoPage image.1 image.2) file

@[simp]
theorem redoPages_nil (file : PageFile P) : file.redoPages [] = file := rfl

@[simp]
theorem redoPages_cons (file : PageFile P) (image : Nat × P) (images : List (Nat × P)) :
    file.redoPages (image :: images) = (file.redoPage image.1 image.2).redoPages images := rfl

theorem redoPages_append (file : PageFile P) (first second : List (Nat × P)) :
    file.redoPages (first ++ second) = (file.redoPages first).redoPages second :=
  List.foldl_append

theorem pages_redoPages (file : PageFile P) (images : List (Nat × P)) :
    (file.redoPages images).data.pages = WriteLog.replay images file.data.pages := by
  induction images generalizing file with
  | nil => rfl
  | cons image images ih =>
    rw [redoPages_cons, ih, pages_redoPage]
    rfl

theorem pageCount_redoPages (file : PageFile P) (images : List (Nat × P)) :
    (file.redoPages images).pageCount =
      images.foldl (fun count image => max count (image.1 + 1)) file.pageCount := by
  induction images generalizing file with
  | nil => rfl
  | cons image images ih => rw [redoPages_cons, ih, pageCount_redoPage, List.foldl_cons]

def performWrites (file : PageFile P) (writes : List (Nat × P)) : PageFile P :=
  writes.foldl (fun file write => file.perform (.writePage write.1 write.2)) file

theorem performWrites_cons (file : PageFile P) (write : Nat × P) (writes : List (Nat × P)) :
    file.performWrites (write :: writes) =
      (file.perform (.writePage write.1 write.2)).performWrites writes := rfl

theorem performWrites_eq (file : PageFile P) (writes : List (Nat × P)) :
    file.performWrites writes =
      { file with
        data := (file.performWrites writes).data
        trace := file.trace ++ writes.map fun write => .writePage write.1 write.2 } := by
  induction writes generalizing file with
  | nil => simp [performWrites]
  | cons write writes ih =>
    rw [performWrites_cons, ih]
    simp [perform]

theorem applyTransaction_eq (file : PageFile P) :
    file.applyTransaction =
      { file.performWrites file.txPages with inTransaction := false, txPages := [] } := rfl

@[simp]
theorem pageCount_applyTransaction (file : PageFile P) :
    file.applyTransaction.pageCount = file.pageCount := by
  rw [applyTransaction_eq, performWrites_eq]

@[simp]
theorem catalogRoot_applyTransaction (file : PageFile P) :
    file.applyTransaction.catalogRoot = file.catalogRoot := by
  rw [applyTransaction_eq, performWrites_eq]

theorem trace_applyTransaction (file : PageFile P) :
    file.applyTransaction.trace =
      file.trace ++ file.txPages.map fun write => .writePage write.1 write.2 := by
  rw [applyTransaction_eq, performWrites_eq]

end PageFile

end MoDb.Storage
