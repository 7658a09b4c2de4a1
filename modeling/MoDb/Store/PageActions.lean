import MoDb.Lib.Effect
import MoDb.Storage.HeldPages

/-!
# Reading and writing pages

The calls on the page file as actions that keep what was written before a fault.
-/

namespace MoDb.Store

open Storage Effect

abbrev PageM := EStateM Error (PageFile Area)

namespace PageM

def read (id : Nat) : PageM Area := fun file =>
  match file.read id with
  | .error error => .error error file
  | .ok page => .ok page file

def write (id : Nat) (page : Area) : PageM Unit := fun file =>
  match file.write id page with
  | .error error => .error error file
  | .ok file' => .ok () file'

def allocate : PageM Nat := fun file =>
  match file.allocatePage with
  | .error error => .error error file
  | .ok (id, file') => .ok id file'

def pageCount : PageM Nat := fun file => .ok file.pageCount file

def check {α : Type} : Except Error α → PageM α
  | .error error => throw error
  | .ok value => pure value

end PageM

/-- The file holds these pages, its count fits, and no transaction begins or ends. -/
structure Held (tx : Bool) (file : PageFile Area) (pages : Multiset (Nat × Area)) : Prop where
  holds : Holds file pages
  pos : 0 < file.pageCount
  fits : file.pageCount < 2 ^ 64
  tx : file.inTransaction = tx

variable {tx : Bool} {file file' : PageFile Area} {pages pages' frame : Multiset (Nat × Area)}

theorem Held.of_eq (h : Held tx file pages) (heq : pages = pages') : Held tx file pages' := heq ▸ h

theorem Held.mono (h : Held tx file pages) (hle : pages' ≤ pages) : Held tx file pages' :=
  ⟨h.holds.mono hle, h.pos, h.fits, h.tx⟩

theorem Held.read (h : Held tx file pages) {id : Nat} {page : Area} (hmem : (id, page) ∈ pages) :
    id ≠ 0 ∧ PageM.read id file = .ok page file := by
  obtain ⟨hid, hread⟩ := h.holds.read (id, page) hmem
  refine ⟨hid, ?_⟩
  rw [PageM.read, hread]

theorem Held.id_lt (h : Held tx file pages) {page : Nat × Area} (hmem : page ∈ pages) :
    page.1 < 2 ^ 64 :=
  Nat.lt_trans (h.holds.lt_pageCount hmem) h.fits

theorem Held.write {id : Nat} {page : Area} (h : Held tx file ({(id, page)} + pages)) (page' : Area) :
    ∃ file', PageM.write id page' file = .ok () file' ∧ Held tx file' ({(id, page')} + pages) := by
  obtain ⟨file', hwrite, hholds, hcount⟩ := h.holds.write page'
  refine ⟨file', by rw [PageM.write, hwrite], hholds, ?_, ?_, ?_⟩
  · rw [hcount]
    exact h.pos
  · rw [hcount]
    exact h.fits
  · rw [inTransaction_write hwrite]
    exact h.tx

def FileFull (pages : Multiset (Nat × Area)) (tx : Bool) (error : Error) (file : PageFile Area) : Prop :=
  error = pageCountFault ∧ file.pageCount = 2 ^ 64 - 1 ∧ Held tx file pages

theorem FileFull.mono {error : Error} (h : FileFull pages tx error file) (hle : pages' ≤ pages) :
    FileFull pages' tx error file := ⟨h.1, h.2.1, h.2.2.mono hle⟩

theorem Held.allocate (h : Held tx file pages) :
    Outcome (fun id file' => ∃ page, Held tx file' ({(id, page)} + pages)) (FileFull pages tx)
      (PageM.allocate file) := by
  unfold PageM.allocate
  by_cases hfull : file.pageCount = 2 ^ 64 - 1
  · rw [PageFile.allocatePage, if_pos hfull]
    exact ⟨rfl, hfull, h⟩
  · rcases h.holds.allocate h.pos with hfault | ⟨heq, page, hholds⟩
    · rw [PageFile.allocatePage, if_neg hfull] at hfault
      cases hfault
    · rw [heq]
      have hfits := h.fits
      exact ⟨page, hholds, Nat.succ_pos _, by change file.pageCount + 1 < 2 ^ 64; omega, h.tx⟩

end MoDb.Store
