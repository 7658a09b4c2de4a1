import MoDb.Storage.HeapOwnership

/-!
# Ids of records that are gone

The generation of a slot grows, so that the id of a record that was erased is of no later record of its slot. A
page that leaves the chain forgets its generations: when it comes back, its first record has the id that the
first one had before.
-/

namespace MoDb.Storage

open Effect

/-! ### Slots -/

def Spent (cells : List Cell) (slot generation : Nat) : Prop :=
  ∃ held last, cells[slot]? = some (held, last) ∧ generation ≤ last ∧ (last = generation → held = none)

def KeepsSpent (cells cells' : List Cell) : Prop :=
  ∀ slot generation, Spent cells slot generation → Spent cells' slot generation

section Cells

variable {cells : List Cell} {slot generation : Nat} {record old : HeldRecord}

theorem Spent.notMem (h : Spent cells slot generation) : cells[slot]? ≠ some (some record, generation) := by
  obtain ⟨held, last, hcell, -, hfree⟩ := h
  intro heq
  rw [hcell, Option.some.injEq, Prod.mk.injEq] at heq
  rw [hfree heq.2] at heq
  cases heq.1

theorem KeepsSpent.put {held : Option HeldRecord} (hslot : slot ≤ cells.length)
    (hspent : ∀ last, Spent cells slot last → last ≤ generation ∧ (generation = last → held = none)) :
    KeepsSpent cells (put cells slot (held, generation)) := by
  intro other last hother
  by_cases heq : other = slot
  · subst heq
    obtain ⟨hle, hfree⟩ := hspent last hother
    exact ⟨held, generation, by rw [getElem?_put hslot, if_pos rfl], hle, hfree⟩
  · obtain ⟨held', generation', hcell, hrest⟩ := hother
    exact ⟨held', generation', by rw [getElem?_put hslot, if_neg heq, hcell], hrest⟩

theorem NewCell.keepsSpent (h : NewCell cells slot generation) :
    KeepsSpent cells (put cells slot (some record, generation)) := by
  apply KeepsSpent.put h.le_length
  rintro spent ⟨held, last, hcell, hle, -⟩
  rcases h with ⟨rfl, -⟩ | ⟨last', hfree, -, rfl⟩
  · rw [List.getElem?_eq_none (Nat.le_refl _)] at hcell
    cases hcell
  · rw [hfree, Option.some.injEq, Prod.mk.injEq] at hcell
    exact ⟨by omega, by omega⟩

theorem keepsSpent_rewritten (hcell : cells[slot]? = some (some old, generation)) :
    KeepsSpent cells (put cells slot (some record, generation)) := by
  apply KeepsSpent.put (Nat.le_of_lt (List.getElem?_eq_some_iff.1 hcell).1)
  rintro spent ⟨held, last, hcell', hle, hfree⟩
  rw [hcell, Option.some.injEq, Prod.mk.injEq] at hcell'
  obtain ⟨rfl, rfl⟩ := hcell'
  exact ⟨hle, fun heq => absurd (hfree heq) nofun⟩

theorem keepsSpent_emptied (hcell : cells[slot]? = some (some old, generation)) :
    KeepsSpent cells (put cells slot (none, generation)) := by
  apply KeepsSpent.put (Nat.le_of_lt (List.getElem?_eq_some_iff.1 hcell).1)
  rintro spent ⟨held, last, hcell', hle, -⟩
  rw [hcell, Option.some.injEq, Prod.mk.injEq] at hcell'
  obtain ⟨-, rfl⟩ := hcell'
  exact ⟨hle, fun _ => rfl⟩

theorem spent_emptied (hcell : cells[slot]? = some (some old, generation)) :
    Spent (put cells slot (none, generation)) slot generation :=
  ⟨none, generation, by rw [getElem?_put (Nat.le_of_lt (List.getElem?_eq_some_iff.1 hcell).1), if_pos rfl],
    Nat.le_refl _, fun _ => rfl⟩

end Cells

/-! ### Views -/

section Views

variable {view view' view'' : HeapView} {id placed : HeapRecordId} {record : HeldRecord}

def Ages (view view' : HeapView) (new : Option Nat) : Prop :=
  ∀ page cells', (page, cells') ∈ view' →
    (∃ cells, (page, cells) ∈ view ∧ KeepsSpent cells cells') ∨ (new = some page ∧ page ∉ view.map Prod.fst)

theorem Ages.trans {new : Option Nat} (h : Ages view view' new) (h' : Ages view' view'' none) :
    Ages view view'' new := by
  intro page cells'' hmem
  rcases h' page cells'' hmem with ⟨cells', hmem', hkeeps'⟩ | ⟨hnone, -⟩
  · exact (h page cells' hmem').imp_left fun ⟨cells, hmem, hkeeps⟩ =>
      ⟨cells, hmem, fun slot generation hspent => hkeeps' slot generation (hkeeps slot generation hspent)⟩
  · cases hnone

theorem ages_put {before after : HeapView} {page : Nat} {cells cells' : List Cell} {new : Option Nat}
    (hkeeps : KeepsSpent cells cells') :
    Ages (before ++ (page, cells) :: after) (before ++ (page, cells') :: after) new := by
  intro page' found hmem
  left
  rcases List.mem_append.1 hmem with hmem | hmem
  · exact ⟨found, List.mem_append_left _ hmem, fun _ _ h => h⟩
  · rcases List.mem_cons.1 hmem with heq | hmem
    · cases heq
      exact ⟨cells, List.mem_append_right _ List.mem_cons_self, hkeeps⟩
    · exact ⟨found, List.mem_append_right _ (List.mem_cons_of_mem _ hmem), fun _ _ h => h⟩

theorem Placed.ages (h : Placed record view placed view') : Ages view view' (some placed.page) := by
  cases h with
  | slot hview hnew =>
    rw [hview]
    exact ages_put hnew.keepsSpent
  | page hnew =>
    intro page cells hmem
    rcases List.mem_append.1 hmem with hmem | hmem
    · exact .inl ⟨cells, hmem, fun _ _ h => h⟩
    · rw [List.mem_singleton, Prod.mk.injEq] at hmem
      obtain ⟨rfl, -⟩ := hmem
      exact .inr ⟨rfl, hnew⟩

theorem Removed.ages (h : Removed view id view') : Ages view view' none := by
  cases h with
  | slot hview hcell =>
    rw [hview]
    exact ages_put (keepsSpent_emptied hcell)
  | page hview hcell hlast =>
    rw [hview]
    intro page cells hmem
    refine .inl ⟨cells, ?_, fun _ _ h => h⟩
    rcases List.mem_append.1 hmem with hmem | hmem
    · exact List.mem_append_left _ hmem
    · exact List.mem_append_right _ (List.mem_cons_of_mem _ hmem)

/-- The slots of the page are past that id, if the page is in the chain. -/
def Gone (view : HeapView) (id : HeapRecordId) : Prop :=
  ∀ cells, (id.page, cells) ∈ view → Spent cells id.slot id.generation

theorem Gone.notHas (h : Gone view id) : ¬view.Has id record := by
  rintro ⟨cells, hpage, hcell⟩
  exact (h cells hpage).notMem hcell

theorem Gone.ages {new : Option Nat} (h : Gone view id) (hages : Ages view view' new)
    (hnew : new = some id.page → id.page ∈ view.map Prod.fst) : Gone view' id := by
  intro cells' hmem
  rcases hages id.page cells' hmem with ⟨cells, hold, hkeeps⟩ | ⟨hback, hout⟩
  · exact hkeeps id.slot id.generation (h cells hold)
  · exact absurd (hnew hback) hout

theorem Removed.gone (h : Removed view id view') (hnodup : (view.map Prod.fst).Nodup) : Gone view' id := by
  cases h with
  | slot hview hcell =>
    rename_i before after page slot generation cells record
    intro found hmem
    have hsame : found = put cells slot (none, generation) := by
      rw [hview] at hnodup
      have hnodup' : ((before ++ (page, put cells slot (none, generation)) :: after).map Prod.fst).Nodup := by
        rwa [List.map_append, List.map_cons] at hnodup ⊢
      have heq := List.inj_on_of_nodup_map hnodup' hmem (List.mem_append_right _ List.mem_cons_self) rfl
      rw [Prod.mk.injEq] at heq
      exact heq.2
    rw [hsame]
    exact spent_emptied hcell
  | page hview hcell hlast =>
    rename_i before after page slot generation cells record
    intro found hmem
    rw [hview, List.map_append, List.map_cons, List.nodup_middle, List.nodup_cons, ← List.map_append] at hnodup
    exact absurd (List.mem_map_of_mem hmem) hnodup.1

theorem Replaces.ages (h : Replaces record view id placed view') : Ages view view' (some placed.page) := by
  cases h with
  | slot hview hcell =>
    rw [hview]
    exact ages_put (keepsSpent_rewritten hcell)
  | moved hold hplaced hremoved => exact hplaced.ages.trans hremoved.ages

theorem Placed.nodup (h : Placed record view placed view') (hnodup : (view.map Prod.fst).Nodup) :
    (view'.map Prod.fst).Nodup := by
  cases h with
  | slot hview hnew =>
    rw [hview] at hnodup
    rwa [List.map_append, List.map_cons] at hnodup ⊢
  | page hnew =>
    rw [List.map_append, List.nodup_append]
    refine ⟨hnodup, List.nodup_singleton _, ?_⟩
    rintro page hpage other hother rfl
    rw [List.map_singleton, List.mem_singleton] at hother
    rw [hother] at hpage
    exact hnew hpage

theorem Replaces.gone (h : Replaces record view id placed view') (hmoved : placed ≠ id)
    (hnodup : (view.map Prod.fst).Nodup) : Gone view' id := by
  cases h with
  | slot hview hcell => exact absurd rfl hmoved
  | moved hold hplaced hremoved => exact hremoved.gone (hplaced.nodup hnodup)

end Views

/-! ### Runs -/

variable [PageSize] {handle handle' : HeapHandle} {layout layout' : HeapLayout} {frame : Multiset (Nat × Area)}
  {past : Set Nat} {retired : Set HeapRecordId} {id : HeapRecordId}

namespace HeapHandle

def freePage (handle : HeapHandle) (count : Nat) : Option Nat :=
  (fun page => page >>= nextOf handle.file)^[count] handle.heap.freeHead

/-- No page of the chain has room for the record, and the page that is free next was in the chain before. -/
def Recycles (handle : HeapHandle) (past : Set Nat) (record : Bytes) : Prop :=
  (¬∃ id ∈ handle.pageIds, ∃ page, loadTrusted handle.file id = .ok page ∧
    storedLength handle.heap.tagged record ≤ page.insertionCapacity) ∧
  ∃ page ∈ past, handle.freePage (chainLength handle.heap.tagged record) = some page

end HeapHandle

namespace HeapOp

def Recycles (handle : HeapHandle) (past : Set Nat) : HeapOp → Prop
  | .insert record => handle.Recycles past record
  | .update id record =>
    (∃ page, loadTrusted handle.file id.page = .ok page ∧
      ¬page.TakesUpdate id.slot (storedLength handle.heap.tagged record)) ∧ handle.Recycles past record
  | .erase _ => False

def retires (answer : Option HeapRecordId) : HeapOp → Set HeapRecordId
  | .insert _ => ∅
  | .update id _ => {old | old = id ∧ answer ≠ some id}
  | .erase id => {id}

end HeapOp

/-- Runs of allowed calls, with the pages that have been in the chain and the ids of the records that are gone. -/
inductive HeapHistory (allowed : HeapHandle → Set Nat → HeapOp → Prop) :
    HeapHandle → Set Nat → Set HeapRecordId → Prop
  | create {file : PageFile Area} {handle : HeapHandle} (hpos : 0 < file.pageCount)
      (hfits : file.pageCount < 2 ^ 64) (hcreate : HeapHandle.create file = .ok handle) :
      HeapHistory allowed handle ∅ ∅
  | call {handle handle' : HeapHandle} {past : Set Nat} {retired : Set HeapRecordId} {op : HeapOp}
      {answer : Option HeapRecordId} (hfits : op.Fits) (h : HeapHistory allowed handle past retired)
      (hallowed : allowed handle past op) (hrun : op.run handle = .ok answer handle') :
      HeapHistory allowed handle' (past ∪ handle'.pageIds) (retired ∪ op.retires answer)
  | failed {handle handle' : HeapHandle} {past : Set Nat} {retired : Set HeapRecordId} {op : HeapOp}
      {error : Error} (hfits : op.Fits) (h : HeapHistory allowed handle past retired)
      (hrun : op.run handle = .error error handle') : HeapHistory allowed handle' past retired
  | reopen {handle handle' : HeapHandle} {past : Set Nat} {retired : Set HeapRecordId} (hsize : 48 ≤ pageSize)
      (hbytes : handle.file.pageCount * pageSize < 2 ^ 64) (hcurrent : handle.Current)
      (h : HeapHistory allowed handle past retired)
      (hopen : HeapHandle.open handle.file handle.heap.root = .ok handle') :
      HeapHistory allowed handle' past retired

def Dead (handle : HeapHandle) (id : HeapRecordId) : Prop :=
  (∃ error, error.code = .recordNotFound ∧ HeapHandle.read handle id = .error error) ∧
  (∀ record, ∃ error, error.code = .recordNotFound ∧ HeapHandle.update id record handle = .error error handle) ∧
  ∃ error, error.code = .recordNotFound ∧ HeapHandle.erase id handle = .error error handle

theorem Represents.dead (h : Represents handle layout frame) (hnone : ∀ record, ¬layout.view.Has id record) :
    Dead handle id := by
  rcases h.locate id with ⟨before, data, after, record, hlocated, -⟩ | ⟨-, error, hcode, hrun⟩
  · exact absurd hlocated.has (hnone record)
  · exact ⟨h.read_none hnone, fun record => ⟨error, hcode, bind_of_error hrun⟩, error, hcode, bind_of_error hrun⟩

/-! ### The page that is taken -/

omit [PageSize] in
theorem iterate_next {next : Nat → Option Nat} {start : Option Nat} {ids : List Nat}
    (h : Chain.Path next start ids none) (count : Nat) :
    (fun page => page >>= next)^[count] start = (ids.drop count).head? := by
  induction count generalizing start ids with
  | zero => exact h.head?_eq
  | succ count ih =>
    rw [Function.iterate_succ_apply]
    cases ids with
    | nil =>
      rw [Chain.path_nil] at h
      have hnone := @ih none [] rfl
      rw [List.drop_nil] at hnone
      rw [h, List.drop_nil]
      exact hnone
    | cons id ids =>
      obtain ⟨rfl, hrest⟩ := Chain.path_cons.1 h
      exact ih hrest

theorem Represents.freePage_eq (h : Represents handle layout frame) (count : Nat) :
    handle.freePage count = (layout.free.drop count).head?.map Prod.fst := by
  have hstanding : Standing handle.file layout.free := fun page hpage =>
    (h.pages.holds.read page (Multiset.mem_add.2 (.inl hpage))).2
  have hpath := h.pages.linked.path hstanding
  rw [HeapHandle.freePage, h.pages.freeHead_eq, iterate_next hpath, ← List.map_drop, List.head?_map]

theorem TakesPage.recycles {record : Bytes} {page : Nat} (htakes : TakesPage handle layout record page)
    (h : Represents handle layout frame) (hpast : page ∈ past) (hold : page < handle.file.pageCount) :
    handle.Recycles past record := by
  obtain ⟨hnone, hfree | hnew⟩ := htakes
  · refine ⟨?_, page, hpast, (h.freePage_eq _).trans hfree⟩
    rintro ⟨id, hid, found, hload, hroom⟩
    rw [h.chained.pageIds_eq, List.mem_toFinset] at hid
    exact hnone ((h.hasRoom_iff record).1 ⟨id, hid, found, hload, hroom⟩)
  · exact absurd hold (Nat.not_lt.2 hnew)

theorem HeapOp.Takes.recycles {op : HeapOp} {page : Nat} (htakes : op.Takes handle layout page)
    (h : Represents handle layout frame) (hpast : page ∈ past) (hold : page < handle.file.pageCount) :
    op.Recycles handle past := by
  cases op with
  | insert record => exact TakesPage.recycles htakes h hpast hold
  | update id record =>
    obtain ⟨⟨data, hdata, hid, hfull⟩, htakes⟩ := htakes
    exact ⟨⟨data.page, hid ▸ h.loadTrusted_data hdata, hfull⟩, htakes.recycles h hpast hold⟩
  | erase id => exact htakes

/-! ### What is gone stays so -/

omit [PageSize] in
theorem HeapView.Has.mem_ids {record : HeldRecord} (h : layout.view.Has id record) : id.page ∈ layout.ids := by
  obtain ⟨cells, hpage, -⟩ := h
  rw [← HeapLayout.map_view]
  exact List.mem_map_of_mem hpage

theorem HeapOp.Acts.ages {view view' : HeapView} {op : HeapOp} {answer : Option HeapRecordId}
    {tagged : Bool} (h : op.Acts tagged view answer view') : Ages view view' (answer.map HeapRecordId.page) := by
  cases op with
  | insert record =>
    obtain ⟨placed, rfl, held, -, hplaced⟩ := h
    exact hplaced.ages
  | update id record =>
    obtain ⟨placed, rfl, held, -, hreplaces⟩ := h
    exact hreplaces.ages
  | erase id =>
    obtain ⟨rfl, hremoved⟩ := h
    exact hremoved.ages

theorem Represents.gone_of_retires (h : Represents handle layout frame) {op : HeapOp}
    {answer : Option HeapRecordId} (hrun : op.run handle = .ok answer handle')
    {tagged : Bool} (hacts : op.Acts tagged layout.view answer layout'.view) (hretires : id ∈ op.retires answer) :
    id.page ∈ layout.ids ∧ Gone layout'.view id := by
  have hfound : (∀ answer state, op.run handle ≠ .ok answer state) ∨ ∃ record, layout.view.Has id record := by
    by_cases hhas : ∃ record, layout.view.Has id record
    · exact .inr hhas
    · obtain ⟨-, hupdate, herase⟩ := h.dead (not_exists.1 hhas)
      left
      intro answer state hok
      cases op with
      | insert record => exact hretires
      | update old record =>
        obtain ⟨rfl, -⟩ := hretires
        obtain ⟨error, -, herror⟩ := hupdate record
        rw [HeapOp.run, bind_of_error herror] at hok
        cases hok
      | erase old =>
        obtain rfl : id = old := hretires
        obtain ⟨error, -, herror⟩ := herase
        rw [HeapOp.run, bind_of_error herror] at hok
        cases hok
  obtain ⟨record, hhas⟩ := hfound.resolve_left fun hnone => hnone answer handle' hrun
  refine ⟨hhas.mem_ids, ?_⟩
  cases op with
  | insert record => exact absurd hretires (Set.notMem_empty id)
  | update old record =>
    obtain ⟨placed, rfl, held, -, hreplaces⟩ := hacts
    obtain ⟨rfl, hmoved⟩ := hretires
    exact hreplaces.gone (fun heq => hmoved (congrArg some heq)) h.nodup_view
  | erase old =>
    obtain rfl : id = old := hretires
    exact hacts.2.gone h.nodup_view

/-- The pages that have been in the chain, and the ids that are of no record any more. -/
structure Remembers (handle : HeapHandle) (layout : HeapLayout) (past : Set Nat) (retired : Set HeapRecordId) :
    Prop where
  represents : Represents handle layout 0
  chain : ∀ page ∈ layout.ids, page ∈ past
  count : ∀ page ∈ past, page < handle.file.pageCount
  gone : ∀ id ∈ retired, id.page ∈ past ∧ Gone layout.view id

theorem Remembers.call (h : Remembers handle layout past retired) {op : HeapOp} {answer : Option HeapRecordId}
    (hfits : op.Fits) (hallowed : ¬op.Recycles handle past) (hrun : op.run handle = .ok answer handle') :
    ∃ layout', Remembers handle' layout' (past ∪ handle'.pageIds) (retired ∪ op.retires answer) := by
  have hspec := h.represents.run hfits
  rw [hrun] at hspec
  obtain ⟨layout', hacts, hadvances, -, hpage⟩ := hspec
  have hrepresents := hadvances.represents
  have hids : ∀ page, page ∈ (handle'.pageIds : Set Nat) ↔ page ∈ layout'.ids := by
    intro page
    rw [Finset.mem_coe, hrepresents.chained.pageIds_eq, List.mem_toFinset]
    rfl
  refine ⟨layout', hrepresents, fun page hmem => .inr ((hids page).2 hmem), ?_, ?_⟩
  · rintro page (hold | hnew)
    · exact Nat.lt_of_lt_of_le (h.count page hold) hadvances.accounts.count_le
    · exact hrepresents.loads.lt_pageCount page ((hids page).1 hnew)
  · rintro id (hold | hnew)
    · obtain ⟨hpast, hgone⟩ := h.gone id hold
      refine ⟨.inl hpast, hgone.ages hacts.ages ?_⟩
      intro hanswer
      obtain ⟨placed, hplaced, heq⟩ := Option.map_eq_some_iff.1 hanswer
      rw [HeapLayout.map_view, ← heq]
      refine (hpage placed hplaced).resolve_right fun htakes => hallowed ?_
      rw [heq] at htakes
      exact htakes.recycles h.represents hpast (h.count id.page hpast)
    · obtain ⟨hmem, hgone⟩ := h.represents.gone_of_retires hrun hacts hnew
      exact ⟨.inl (h.chain id.page hmem), hgone⟩

theorem HeapHistory.remembers
    (h : HeapHistory (fun handle past op => ¬op.Recycles handle past) handle past retired) :
    ∃ layout, Remembers handle layout past retired := by
  induction h with
  | create hpos hfits hcreate =>
    obtain ⟨hrepresents, -⟩ := represents_create .empty hpos hfits hcreate
    exact ⟨_, hrepresents, nofun, nofun, nofun⟩
  | call hfits _ hallowed hrun ih =>
    obtain ⟨layout, hremembers⟩ := ih
    exact hremembers.call hfits hallowed hrun
  | failed hfits _ hrun ih =>
    obtain ⟨layout, hremembers⟩ := ih
    have hspec := hremembers.represents.run hfits
    rw [hrun] at hspec
    obtain ⟨free, hrepresents⟩ := hremembers.represents.keeps hspec
    refine ⟨_, hrepresents, hremembers.chain, ?_, hremembers.gone⟩
    exact fun page hpage => Nat.lt_of_lt_of_le (hremembers.count page hpage) hspec.count_le
  | reopen hsize hbytes hcurrent _ hopen ih =>
    obtain ⟨layout, hremembers⟩ := ih
    obtain ⟨opened, hrun, hfile, -, hrepresents⟩ :=
      hremembers.represents.opened (hremembers.represents.current_iff.1 hcurrent) hsize hbytes
    rw [hopen] at hrun
    cases hrun
    refine ⟨layout, hrepresents, hremembers.chain, ?_, hremembers.gone⟩
    rw [hfile]
    exact hremembers.count

/-- As long as no page comes into the chain again, no call finds a record under an id whose record is gone. -/
theorem dead_of_history
    (h : HeapHistory (fun handle past op => ¬op.Recycles handle past) handle past retired) :
    ∀ id ∈ retired, Dead handle id := by
  intro id hid
  obtain ⟨layout, hremembers⟩ := h.remembers
  exact hremembers.represents.dead fun record => (hremembers.gone id hid).2.notHas

omit [PageSize] in
/-- A record comes and goes; nothing is found under its id. -/
theorem dead_of_history_erase : letI := PageSize.default
    ∃ (handle : HeapHandle) (past : Set Nat) (retired : Set HeapRecordId),
      HeapHistory (fun handle past op => ¬op.Recycles handle past) handle past retired ∧
      (⟨2, 0, 1⟩ : HeapRecordId) ∈ retired ∧ Dead handle ⟨2, 0, 1⟩ := by
  obtain ⟨created, inserted, erased, hcreate, hinsert, herase⟩ : ∃ created inserted erased,
      HeapHandle.create PageFile.create = .ok created ∧
      @HeapOp.run PageSize.default (.insert [7]) created = .ok (some ⟨2, 0, 1⟩) inserted ∧
      @HeapOp.run PageSize.default (.erase ⟨2, 0, 1⟩) inserted = .ok none erased := ⟨_, _, _, rfl, rfl, rfl⟩
  have hfits : (HeapOp.insert [7]).Fits := by
    change 1 < 2 ^ 64
    decide
  have hallowed : ¬@HeapOp.Recycles PageSize.default created ∅ (.insert [7]) := by
    rintro ⟨-, page, hpast, -⟩
    exact hpast
  have hcreated := @HeapHistory.create PageSize.default
    (fun handle past op => ¬@HeapOp.Recycles PageSize.default handle past op) _ _ (by decide) (by decide) hcreate
  have hinserted := @HeapHistory.call PageSize.default _ _ _ _ _ _ _ hfits hcreated hallowed hinsert
  have herased := @HeapHistory.call PageSize.default _ _ _ _ _ (.erase ⟨2, 0, 1⟩) _ trivial hinserted
    (fun hfalse => hfalse) herase
  have hretired := Set.mem_union_right (∅ ∪ HeapOp.retires (some ⟨2, 0, 1⟩) (.insert [7]))
    (Set.mem_singleton (⟨2, 0, 1⟩ : HeapRecordId))
  exact ⟨erased, _, _, herased, hretired, @dead_of_history PageSize.default _ _ _ herased ⟨2, 0, 1⟩ hretired⟩

omit [PageSize] in
/-- The page of the record became free and was taken again: another record is read under the old id. -/
theorem read_stale_id : letI := PageSize.default
    ∃ (handle : HeapHandle) (past : Set Nat) (retired : Set HeapRecordId),
      HeapHistory (fun _ _ _ => True) handle past retired ∧ (⟨2, 0, 1⟩ : HeapRecordId) ∈ retired ∧
      HeapHandle.read handle ⟨2, 0, 1⟩ = .ok [8] ∧ ¬Dead handle ⟨2, 0, 1⟩ := by
  obtain ⟨created, inserted, erased, again, hcreate, hinsert, herase, hagain, hread⟩ :
      ∃ created inserted erased again, HeapHandle.create PageFile.create = .ok created ∧
      @HeapOp.run PageSize.default (.insert [7]) created = .ok (some ⟨2, 0, 1⟩) inserted ∧
      @HeapOp.run PageSize.default (.erase ⟨2, 0, 1⟩) inserted = .ok none erased ∧
      @HeapOp.run PageSize.default (.insert [8]) erased = .ok (some ⟨2, 0, 1⟩) again ∧
      @HeapHandle.read PageSize.default again ⟨2, 0, 1⟩ = .ok [8] := ⟨_, _, _, _, rfl, rfl, rfl, rfl, rfl⟩
  have hfits : ∀ byte : UInt8, (HeapOp.insert [byte]).Fits := by
    intro byte
    change 1 < 2 ^ 64
    decide
  have hcreated := @HeapHistory.create PageSize.default (fun _ _ _ => True) _ _ (by decide) (by decide) hcreate
  have hinserted := @HeapHistory.call PageSize.default _ _ _ _ _ _ _ (hfits 7) hcreated trivial hinsert
  have herased := @HeapHistory.call PageSize.default _ _ _ _ _ (.erase ⟨2, 0, 1⟩) _ trivial hinserted trivial herase
  have hreused := @HeapHistory.call PageSize.default _ _ _ _ _ _ _ (hfits 8) herased trivial hagain
  refine ⟨again, _, _, hreused, Set.mem_union_left _ (Set.mem_union_right _ (Set.mem_singleton _)), hread, ?_⟩
  rintro ⟨⟨error, -, herror⟩, -⟩
  rw [hread] at herror
  cases herror

end MoDb.Storage
