import MoDb.Storage.PageFile
import Mathlib.Algebra.Order.Group.Multiset
import Mathlib.Data.Finset.Card
import Mathlib.Data.Finset.Range

/-!
# Pages that are held

`Holds file pages` says what some pages of the file read as. The pages are a multiset, so that a
call that changes a few of them says nothing of the others: they are the summand that stays.
-/

namespace MoDb.Storage

variable {P : Type}

def pageCountFault : Error := ⟨.ioError, "database reached the maximum page count"⟩

structure Holds (file : PageFile P) (pages : Multiset (Nat × P)) : Prop where
  nodup : (pages.map Prod.fst).Nodup
  read : ∀ page ∈ pages, page.1 ≠ 0 ∧ file.read page.1 = .ok page.2

variable {file file' : PageFile P} {pages pages' : Multiset (Nat × P)} {id : Nat} {page page' : P}

theorem cons_add (page : Nat × P) (rest : List (Nat × P)) (frame : Multiset (Nat × P)) :
    (↑(page :: rest) + frame : Multiset (Nat × P)) = {page} + (↑rest + frame) := by
  rw [← Multiset.cons_coe, ← Multiset.singleton_add, add_assoc]

theorem lt_pageCount_of_read (h : file.read id = .ok page) : id < file.pageCount := by
  unfold PageFile.read at h
  split at h
  · injection h
  · rename_i hlt
    exact Nat.not_le.1 hlt

theorem Holds.empty : Holds file 0 :=
  ⟨Multiset.nodup_zero, fun page hpage => absurd hpage (Multiset.notMem_zero page)⟩

theorem Holds.mono (h : Holds file pages) (hle : pages' ≤ pages) : Holds file pages' :=
  ⟨Multiset.nodup_of_le (Multiset.map_le_map hle) h.nodup,
    fun page hpage => h.read page (Multiset.mem_of_le hle hpage)⟩

theorem Holds.right (h : Holds file (pages + pages')) : Holds file pages' :=
  h.mono (Multiset.le_add_left pages' pages)

theorem Holds.left (h : Holds file (pages + pages')) : Holds file pages :=
  h.mono (Multiset.le_add_right pages pages')

theorem Holds.of_eq (h : Holds file pages) (heq : pages = pages') : Holds file pages' := heq ▸ h

theorem Holds.lt_pageCount (h : Holds file pages) (hmem : (id, page) ∈ pages) :
    id < file.pageCount :=
  lt_pageCount_of_read (h.read _ hmem).2

theorem Holds.card_lt (h : Holds file pages) : Multiset.card pages ≤ file.pageCount := by
  have hsub : (⟨pages.map Prod.fst, h.nodup⟩ : Finset Nat) ⊆ Finset.range file.pageCount := by
    intro id hid
    obtain ⟨page, hpage, rfl⟩ := Multiset.mem_map.1 (Finset.mem_mk.1 hid)
    exact Finset.mem_range.2 (lt_pageCount_of_read (h.read page hpage).2)
  calc Multiset.card pages = Multiset.card (pages.map Prod.fst) := (Multiset.card_map _ _).symm
    _ ≤ (Finset.range file.pageCount).card := Finset.card_le_card hsub
    _ = file.pageCount := Finset.card_range _

theorem Holds.ne (h : Holds file ({(id, page)} + pages)) {other : Nat × P} (hother : other ∈ pages) :
    other.1 ≠ id := by
  have hnodup := h.nodup
  rw [Multiset.singleton_add, Multiset.map_cons, Multiset.nodup_cons] at hnodup
  intro heq
  have hmem := Multiset.mem_map_of_mem Prod.fst hother
  rw [heq] at hmem
  exact hnodup.1 hmem

theorem read_write (h : file.write id page = .ok file') (other : Nat) :
    file'.read other = if other = id then .ok page else file.read other := by
  unfold PageFile.write at h
  split at h
  · injection h
  · split at h
    · injection h
    · rename_i hlt
      split at h
      · rename_i htx
        injection h with hfile
        subst hfile
        unfold PageFile.read PageFile.buffered
        dsimp only
        by_cases heq : other = id
        · rw [heq, if_pos rfl, if_neg hlt, if_pos htx, List.find?_cons_of_pos (by simp)]
          rfl
        · rw [if_neg heq, List.find?_cons_of_neg (by simpa using Ne.symm heq), List.find?_filter]
          have hsame : (fun write : Nat × P =>
              Decidable.decide (Decidable.decide (write.1 ≠ id) = true ∧
                Decidable.decide (write.1 = other) = true)) =
              fun write => Decidable.decide (write.1 = other) := by
            funext write
            by_cases hw : write.1 = other
            · simp [hw, heq]
            · simp [hw]
          rw [hsame]
      · rename_i htx
        injection h with hfile
        subst hfile
        unfold PageFile.read
        by_cases heq : other = id
        · simp [PageFile.perform, DataIo.run, heq, hlt, htx]
        · simp [PageFile.perform, DataIo.run, heq, htx]

theorem pageCount_write (h : file.write id page = .ok file') : file'.pageCount = file.pageCount := by
  unfold PageFile.write at h
  split at h
  · injection h
  · split at h
    · injection h
    · split at h <;> injection h with hfile <;> rw [← hfile]
      rfl

theorem inTransaction_write (h : file.write id page = .ok file') :
    file'.inTransaction = file.inTransaction := by
  unfold PageFile.write at h
  split at h
  · injection h
  · split at h
    · injection h
    · split at h <;> injection h with hfile <;> rw [← hfile]
      rfl

theorem Holds.write (h : Holds file ({(id, page)} + pages)) (page' : P) :
    ∃ file', file.write id page' = .ok file' ∧ Holds file' ({(id, page')} + pages) ∧
      file'.pageCount = file.pageCount := by
  have hpage := h.read (id, page) (by simp)
  have hlt := lt_pageCount_of_read hpage.2
  obtain ⟨file', hwrite⟩ : ∃ file', file.write id page' = .ok file' := by
    unfold PageFile.write
    rw [if_neg hpage.1, if_neg (Nat.not_le.2 hlt)]
    split <;> exact ⟨_, rfl⟩
  refine ⟨file', hwrite, ⟨?_, fun other hmem => ?_⟩, pageCount_write hwrite⟩
  · simpa using h.nodup
  · rw [read_write hwrite]
    rcases Multiset.mem_add.1 hmem with hmem | hmem
    · rw [Multiset.mem_singleton.1 hmem, if_pos rfl]
      exact ⟨hpage.1, rfl⟩
    · rw [if_neg (h.ne hmem)]
      exact h.read other (Multiset.mem_add.2 (.inr hmem))

variable [Inhabited P]

theorem read_extended :
    (∀ other < file.pageCount, file.extended.read other = file.read other) ∧
      ∃ page, file.extended.read file.pageCount = .ok page := by
  constructor
  · intro other hlt
    unfold PageFile.read PageFile.buffered
    simp [PageFile.extended, PageFile.perform, DataIo.run, Nat.not_le.2 hlt,
      Nat.not_le.2 (Nat.lt_succ_of_lt hlt), Function.update_of_ne (Nat.ne_of_lt hlt)]
  · unfold PageFile.read
    have hlt : ¬file.extended.pageCount ≤ file.pageCount := Nat.not_succ_le_self _
    rw [if_neg hlt]
    split <;> exact ⟨_, rfl⟩

theorem Holds.allocate (h : Holds file pages) (hpos : 0 < file.pageCount) :
    file.allocatePage = .error pageCountFault ∨
      file.allocatePage = .ok (file.pageCount, file.extended) ∧
        ∃ page, Holds file.extended ({(file.pageCount, page)} + pages) := by
  by_cases hfull : file.pageCount = 2 ^ 64 - 1
  · exact .inl (if_pos hfull)
  · refine .inr ⟨if_neg hfull, ?_⟩
    obtain ⟨hothers, page, hpage⟩ := @read_extended P file _
    refine ⟨page, ?_, fun other hmem => ?_⟩
    · rw [Multiset.singleton_add, Multiset.map_cons, Multiset.nodup_cons]
      refine ⟨fun hmem => ?_, h.nodup⟩
      obtain ⟨other, hother, hid⟩ := Multiset.mem_map.1 hmem
      exact Nat.ne_of_lt (lt_pageCount_of_read (h.read other hother).2) hid
    · rcases Multiset.mem_add.1 hmem with hmem | hmem
      · rw [Multiset.mem_singleton.1 hmem]
        exact ⟨Nat.ne_of_gt hpos, hpage⟩
      · have hother := h.read other hmem
        rw [hothers _ (lt_pageCount_of_read hother.2)]
        exact hother

end MoDb.Storage
