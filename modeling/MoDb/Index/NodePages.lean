import MoDb.Index.BTree
import MoDb.Storage.HeldPages
import Mathlib.Tactic.Abel

/-!
# Pages that hold nodes

What the calls of the tree on single pages do to the pages that are held.
-/

namespace MoDb.Storage

open Index Effect

def fileFull : Stop := .error pageCountFault

variable {file : PageFile Node} {pages : Multiset (Nat × Node)} {id : Nat} {node : Node}

theorem Holds.readPage (h : Holds file pages) (hmem : (id, node) ∈ pages) :
    readPage id file = .ok node file := by
  unfold Index.readPage
  rw [(h.read _ hmem).2]

theorem Holds.writePage (h : Holds file ({(id, node)} + pages)) (node' : Node) :
    ∃ file', writePage id node' file = .ok () file' ∧ Holds file' ({(id, node')} + pages) ∧
      file'.pageCount = file.pageCount := by
  obtain ⟨file', hwrite, hheld⟩ := h.write node'
  exact ⟨file', by rw [Index.writePage, hwrite], hheld⟩

theorem Holds.allocatePage (h : Holds file pages) (hpos : 0 < file.pageCount) :
    Outcome (fun id file' => ∃ node, Holds file' ({(id, node)} + pages))
      (fun stop _ => stop = fileFull) (allocatePage file) := by
  unfold Index.allocatePage
  rcases h.allocate hpos with hfull | ⟨heq, hheld⟩
  · rw [hfull]
    rfl
  · rw [heq]
    exact hheld

end MoDb.Storage
