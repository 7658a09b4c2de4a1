import MoDb.Storage.StaleIds

/-!
# A heap is a finite map

The operations act on the map from ids to records that a reader of the heap sees, whatever pages they move.
-/

namespace MoDb.Storage

open Effect

/-! ### What a view has -/

section Views

variable {view view' before after : HeapView} {page slot generation : Nat} {cells : List Cell}
  {id placed : HeapRecordId} {record old : HeldRecord}

theorem has_middle (hnodup : ((before ++ (page, cells) :: after).map Prod.fst).Nodup) :
    HeapView.Has (before ++ (page, cells) :: after) id record ↔
      if id.page = page then cells[id.slot]? = some (some record, id.generation)
      else HeapView.Has (before ++ after) id record := by
  have hmem : ∀ found, (id.page, found) ∈ before ++ (page, cells) :: after ↔
      (id.page, found) = (page, cells) ∨ (id.page, found) ∈ before ++ after := by
    intro found
    rw [List.mem_append, List.mem_cons, List.mem_append]
    tauto
  rw [List.map_append, List.map_cons, List.nodup_middle, List.nodup_cons, ← List.map_append] at hnodup
  split
  · rename_i hpage
    constructor
    · rintro ⟨found, hfound, hcell⟩
      rcases (hmem found).1 hfound with heq | hother
      · cases heq
        exact hcell
      · have hin : (id.page, found).1 ∈ (before ++ after).map Prod.fst := List.mem_map_of_mem hother
        rw [hpage] at hin
        exact absurd hin hnodup.1
    · intro hcell
      exact ⟨cells, (hmem cells).2 (.inl (by rw [hpage])), hcell⟩
  · rename_i hpage
    constructor
    · rintro ⟨found, hfound, hcell⟩
      rcases (hmem found).1 hfound with heq | hother
      · exact absurd (congrArg Prod.fst heq) hpage
      · exact ⟨found, hother, hcell⟩
    · rintro ⟨found, hother, hcell⟩
      exact ⟨found, (hmem found).2 (.inr hother), hcell⟩

theorem has_put {held : Option HeldRecord} (hnodup : ((before ++ (page, cells) :: after).map Prod.fst).Nodup)
    (hslot : slot ≤ cells.length) :
    HeapView.Has (before ++ (page, put cells slot (held, generation)) :: after) id record ↔
      if id.page = page ∧ id.slot = slot then held = some record ∧ generation = id.generation
      else HeapView.Has (before ++ (page, cells) :: after) id record := by
  have hnodup' : ((before ++ (page, put cells slot (held, generation)) :: after).map Prod.fst).Nodup := by
    rwa [List.map_append, List.map_cons] at hnodup ⊢
  rw [has_middle hnodup', has_middle hnodup, getElem?_put hslot]
  by_cases hpage : id.page = page
  · by_cases heq : id.slot = slot
    · simp [hpage, heq]
    · simp [hpage, heq]
  · simp [hpage]

theorem HeapRecordId.eq_mk_iff : id = ⟨page, slot, generation⟩ ↔
    (id.page = page ∧ id.slot = slot) ∧ generation = id.generation := by
  obtain ⟨page', slot', generation'⟩ := id
  rw [HeapRecordId.mk.injEq, and_assoc, @eq_comm _ generation]

theorem has_slot (hnodup : ((before ++ (page, cells) :: after).map Prod.fst).Nodup)
    (hat : id.page = page ∧ id.slot = slot) :
    HeapView.Has (before ++ (page, cells) :: after) id record ↔
      cells[slot]? = some (some record, id.generation) := by
  rw [has_middle hnodup, if_pos hat.1, hat.2]

theorem Placed.has_iff (h : Placed record view placed view') (hnodup : (view.map Prod.fst).Nodup) :
    view'.Has id old ↔ if id = placed then old = record else view.Has id old := by
  cases h with
  | slot hview hnew =>
    rename_i before after page slot generation cells
    rw [hview] at hnodup ⊢
    rw [has_put hnodup hnew.le_length]
    by_cases hat : id.page = page ∧ id.slot = slot
    · rw [if_pos hat, has_slot hnodup hat]
      by_cases hgeneration : generation = id.generation
      · rw [if_pos (HeapRecordId.eq_mk_iff.2 ⟨hat, hgeneration⟩), Option.some.injEq, @eq_comm _ old]
        exact and_iff_left hgeneration
      · rw [if_neg fun heq => hgeneration (HeapRecordId.eq_mk_iff.1 heq).2]
        exact iff_of_false (fun heq => hgeneration heq.2) hnew.notMem
    · rw [if_neg hat, if_neg fun heq => hat (HeapRecordId.eq_mk_iff.1 heq).1]
  | page hnew =>
    rename_i page
    have hnodup' : ((view ++ [(page, [(some record, 1)])]).map Prod.fst).Nodup :=
      (Placed.page hnew : Placed record view _ _).nodup hnodup
    rw [has_middle hnodup', List.append_nil]
    have hout : ∀ {other : HeapRecordId}, other.page = page → ¬view.Has other old := by
      rintro other hother ⟨cells, hcells, -⟩
      rw [hother] at hcells
      exact hnew (List.mem_map_of_mem hcells)
    by_cases hpage : id.page = page
    · rw [if_pos hpage]
      by_cases heq : id = ⟨page, 0, 1⟩
      · rw [if_pos heq, heq]
        simp [eq_comm]
      · rw [if_neg heq]
        refine iff_of_false (fun hcell => ?_) (hout hpage)
        obtain ⟨page', slot, generation⟩ := id
        cases slot with
        | zero =>
          cases hcell
          exact heq (by rw [← hpage])
        | succ slot => cases hcell
    · have hne : id ≠ ⟨page, 0, 1⟩ := fun heq => hpage (congrArg HeapRecordId.page heq)
      rw [if_neg hpage, if_neg hne]

theorem Placed.notHas (h : Placed record view placed view') (hnodup : (view.map Prod.fst).Nodup) :
    ¬view.Has placed old := by
  cases h with
  | slot hview hnew =>
    rw [hview] at hnodup ⊢
    rw [has_slot hnodup ⟨rfl, rfl⟩]
    exact hnew.notMem
  | page hnew =>
    rintro ⟨cells, hcells, -⟩
    exact hnew (List.mem_map_of_mem hcells)

theorem Removed.has_iff (h : Removed view placed view') (hnodup : (view.map Prod.fst).Nodup) :
    view'.Has id old ↔ id ≠ placed ∧ view.Has id old := by
  cases h with
  | slot hview hcell =>
    rename_i before after page slot generation cells record
    rw [hview] at hnodup ⊢
    rw [has_put hnodup (Nat.le_of_lt (List.getElem?_eq_some_iff.1 hcell).1)]
    by_cases hat : id.page = page ∧ id.slot = slot
    · rw [if_pos hat, has_slot hnodup hat, hcell]
      refine iff_of_false (fun heq => nomatch heq.1) ?_
      rintro ⟨hne, heq⟩
      rw [Option.some.injEq, Prod.mk.injEq] at heq
      exact hne (HeapRecordId.eq_mk_iff.2 ⟨hat, heq.2⟩)
    · rw [if_neg hat, and_iff_right fun heq => hat (HeapRecordId.eq_mk_iff.1 heq).1]
  | page hview hcell hlast =>
    rename_i before after page slot generation cells record
    rw [hview] at hnodup ⊢
    rw [has_middle hnodup]
    rw [List.map_append, List.map_cons, List.nodup_middle, List.nodup_cons, ← List.map_append] at hnodup
    have hslot := Nat.le_of_lt (List.getElem?_eq_some_iff.1 hcell).1
    by_cases hpage : id.page = page
    · rw [if_pos hpage]
      apply iff_of_false
      · rintro ⟨found, hfound, -⟩
        rw [hpage] at hfound
        have hin : (page, found).1 ∈ (before ++ after).map Prod.fst := List.mem_map_of_mem hfound
        exact hnodup.1 hin
      · rintro ⟨hne, hheld⟩
        by_cases heq : id.slot = slot
        · rw [heq, hcell, Option.some.injEq, Prod.mk.injEq] at hheld
          exact hne (HeapRecordId.eq_mk_iff.2 ⟨⟨hpage, heq⟩, hheld.2⟩)
        · have hleft : (put cells slot (none, generation))[id.slot]? = some (some old, id.generation) := by
            rw [getElem?_put hslot, if_neg heq, hheld]
          exact absurd rfl (List.countP_eq_zero.1 hlast _ (List.mem_of_getElem? hleft))
    · rw [if_neg hpage, and_iff_right fun heq => hpage (congrArg HeapRecordId.page heq)]

theorem Replaces.has_iff (h : Replaces record view id placed view') (hnodup : (view.map Prod.fst).Nodup)
    {other : HeapRecordId} : view'.Has other old ↔
      if other = placed then old = record else other ≠ id ∧ view.Has other old := by
  cases h with
  | slot hview hcell =>
    rename_i before after page slot generation cells held
    rw [hview] at hnodup ⊢
    rw [has_put hnodup (Nat.le_of_lt (List.getElem?_eq_some_iff.1 hcell).1)]
    by_cases hat : other.page = page ∧ other.slot = slot
    · rw [if_pos hat, has_slot hnodup hat, hcell]
      by_cases hgeneration : generation = other.generation
      · rw [if_pos (HeapRecordId.eq_mk_iff.2 ⟨hat, hgeneration⟩), Option.some.injEq, @eq_comm _ old]
        exact and_iff_left hgeneration
      · rw [if_neg fun heq => hgeneration (HeapRecordId.eq_mk_iff.1 heq).2]
        refine iff_of_false (fun heq => hgeneration heq.2) ?_
        rintro ⟨-, heq⟩
        rw [Option.some.injEq, Prod.mk.injEq] at heq
        exact hgeneration heq.2
    · have hne : other ≠ ⟨page, slot, generation⟩ := fun heq => hat (HeapRecordId.eq_mk_iff.1 heq).1
      rw [if_neg hat, if_neg hne, and_iff_right hne]
  | moved hold hplaced hremoved =>
    have hne : placed ≠ id := by
      rintro rfl
      exact hplaced.notHas hnodup hold
    rw [hremoved.has_iff (hplaced.nodup hnodup), hplaced.has_iff hnodup]
    by_cases hother : other = placed
    · rw [if_pos hother, if_pos hother, and_iff_right (hother ▸ hne)]
    · rw [if_neg hother, if_neg hother]

theorem Replaces.fresh (h : Replaces record view id placed view') (hnodup : (view.map Prod.fst).Nodup) :
    placed = id ∨ ∀ old, ¬view.Has placed old := by
  cases h with
  | slot hview hcell => exact .inl rfl
  | moved hold hplaced hremoved => exact .inr fun old => hplaced.notHas hnodup

def HeapView.Maps (view : HeapView) (map : HeapRecordId → Option Bytes) : Prop :=
  ∀ id bytes, map id = some bytes ↔ ∃ record, view.Has id record ∧ record.bytes = bytes

end Views

variable [PageSize] {handle handle' : HeapHandle} {layout layout' : HeapLayout} {frame : Multiset (Nat × Area)}
  {map : HeapRecordId → Option Bytes} {view view' : HeapView}

def HeapOp.apply (map : HeapRecordId → Option Bytes) (answer : Option HeapRecordId) :
    HeapOp → HeapRecordId → Option Bytes
  | .insert record => fun id => if answer = some id then some record else map id
  | .update old record => fun id => if answer = some id then some record else if id = old then none else map id
  | .erase old => fun id => if id = old then none else map id

theorem HeapView.Maps.acts {op : HeapOp} {answer : Option HeapRecordId} {tagged : Bool} (h : view.Maps map)
    (hacts : op.Acts tagged view answer view') (hnodup : (view.map Prod.fst).Nodup) :
    view'.Maps (op.apply map answer) := by
  intro id bytes
  cases op with
  | insert record =>
    obtain ⟨placed, rfl, held, hkeeps, hplaced⟩ := hacts
    simp only [hplaced.has_iff hnodup, HeapOp.apply, Option.some.injEq]
    by_cases heq : id = placed
    · simp [heq, hkeeps.bytes_eq]
    · simp [heq, Ne.symm heq, h id bytes]
  | update old record =>
    obtain ⟨placed, rfl, held, hkeeps, hreplaces⟩ := hacts
    simp only [hreplaces.has_iff hnodup, HeapOp.apply, Option.some.injEq]
    by_cases heq : id = placed
    · simp [heq, hkeeps.bytes_eq]
    · by_cases hold : id = old
      · subst hold
        simp [heq, Ne.symm heq]
      · simp [heq, Ne.symm heq, hold, h id bytes]
  | erase old =>
    simp only [hacts.2.has_iff hnodup, HeapOp.apply]
    by_cases hold : id = old
    · simp [hold]
    · simp [hold, h id bytes]

/-! ### Runs -/

/-- Runs of allowed calls, with the records that they have left. -/
inductive HeapContents (allowed : HeapOp → Prop) : HeapHandle → (HeapRecordId → Option Bytes) → Prop
  | create {file : PageFile Area} {handle : HeapHandle} (hpos : 0 < file.pageCount)
      (hfits : file.pageCount < 2 ^ 64) (hcreate : HeapHandle.create file = .ok handle) :
      HeapContents allowed handle fun _ => none
  | call {handle handle' : HeapHandle} {map : HeapRecordId → Option Bytes} {op : HeapOp}
      {answer : Option HeapRecordId} (hfits : op.Fits) (hallowed : allowed op)
      (h : HeapContents allowed handle map) (hrun : op.run handle = .ok answer handle') :
      HeapContents allowed handle' (op.apply map answer)
  | failed {handle handle' : HeapHandle} {map : HeapRecordId → Option Bytes} {op : HeapOp} {error : Error}
      (hfits : op.Fits) (h : HeapContents allowed handle map) (hrun : op.run handle = .error error handle') :
      HeapContents allowed handle' map
  | reopen {handle handle' : HeapHandle} {map : HeapRecordId → Option Bytes} (hsize : 48 ≤ pageSize)
      (hbytes : handle.file.pageCount * pageSize < 2 ^ 64) (hcurrent : handle.Current)
      (h : HeapContents allowed handle map)
      (hopen : HeapHandle.open handle.file handle.heap.root = .ok handle') : HeapContents allowed handle' map

/-- The root in the file is that of the heap in memory, but for the list of free pages. -/
def NearlyRooted (handle : HeapHandle) (layout : HeapLayout) : Prop :=
  ∃ head : Option Nat, (head ≠ some 0 ∧ head.getD 0 < 2 ^ 64) ∧
    layout.rootPage = encodeRoot { handle.heap.toRootMetadata with freeHead := head }

theorem Rooted.nearly (h : Rooted handle layout) (hrepresents : Represents handle layout frame) :
    NearlyRooted handle layout := ⟨_, hrepresents.pages.freeHead_link, h⟩

theorem Persisted.nearly (h : Persisted handle layout handle' layout') (hnearly : NearlyRooted handle layout)
    (hrepresents : Represents handle' layout' frame) : NearlyRooted handle' layout' := by
  rcases h with hrooted | ⟨hpage, hheap⟩
  · exact hrooted.nearly hrepresents
  · rw [NearlyRooted, hpage, hheap]
    exact hnearly

/-- A heap that is on its pages, with its records. -/
structure Contains (handle : HeapHandle) (layout : HeapLayout) (map : HeapRecordId → Option Bytes) : Prop where
  represents : Represents handle layout 0
  rooted : NearlyRooted handle layout
  maps : layout.view.Maps map

theorem Contains.call (h : Contains handle layout map) {op : HeapOp} {answer : Option HeapRecordId}
    (hfits : op.Fits) (hrun : op.run handle = .ok answer handle') :
    ∃ layout', Contains handle' layout' (op.apply map answer) := by
  have hspec := h.represents.run hfits
  rw [hrun] at hspec
  obtain ⟨layout', hacts, hadvances, hpersisted, -⟩ := hspec
  exact ⟨layout', hadvances.represents, hpersisted.nearly h.rooted hadvances.represents,
    h.maps.acts hacts h.represents.nodup_view⟩

theorem Contains.failed (h : Contains handle layout map) {op : HeapOp} {error : Error}
    (hfits : op.Fits) (hrun : op.run handle = .error error handle') : ∃ layout', Contains handle' layout' map := by
  have hspec := h.represents.run hfits
  rw [hrun] at hspec
  obtain ⟨free, hrepresents⟩ := h.represents.keeps hspec
  obtain ⟨head, hhead, hroot⟩ := h.rooted
  refine ⟨_, hrepresents, ⟨head, hhead, ?_⟩, h.maps⟩
  rw [hspec.same]
  exact hroot

theorem HeapContents.contains {allowed : HeapOp → Prop} (h : HeapContents allowed handle map) :
    ∃ layout, Contains handle layout map := by
  induction h with
  | create hpos hfits hcreate =>
    obtain ⟨hrepresents, -⟩ := represents_create .empty hpos hfits hcreate
    refine ⟨_, hrepresents, Rooted.nearly rfl hrepresents, ?_⟩
    rintro id bytes
    apply iff_of_false nofun
    rintro ⟨record, ⟨cells, hcells, -⟩, -⟩
    cases hcells
  | call hfits _ _ hrun ih =>
    obtain ⟨layout, hcontains⟩ := ih
    exact hcontains.call hfits hrun
  | failed hfits _ hrun ih =>
    obtain ⟨layout, hcontains⟩ := ih
    exact hcontains.failed hfits hrun
  | reopen hsize hbytes hcurrent _ hopen ih =>
    obtain ⟨layout, hcontains⟩ := ih
    have hrooted := hcontains.represents.current_iff.1 hcurrent
    obtain ⟨opened, hrun, -, hheap, hrepresents⟩ := hcontains.represents.opened hrooted hsize hbytes
    rw [hopen] at hrun
    cases hrun
    refine ⟨layout, hrepresents, ?_, hcontains.maps⟩
    rw [NearlyRooted, hheap]
    exact hcontains.rooted

/-! ### What a reader sees -/

/-- The heap answers as the map says: reading, inserting, scanning, counting and opening again. -/
structure Refines (handle : HeapHandle) (map : HeapRecordId → Option Bytes) : Prop where
  read_some : ∀ id bytes, map id = some bytes → HeapHandle.read handle id = .ok bytes
  read_none : ∀ id, map id = none → ∃ error, error.code = .recordNotFound ∧ HeapHandle.read handle id = .error error
  insert : ∀ record id handle', record.length < 2 ^ 64 → HeapHandle.insert record handle = .ok id handle' →
    map id = none
  update : ∀ old record id handle', record.length < 2 ^ 64 →
    HeapHandle.update old record handle = .ok id handle' → id = old ∨ map id = none
  scan : ∃ records, handle.heap.scanRecords handle.file = .ok records ∧ records.Nodup ∧
    (∀ id bytes, ⟨id.page, id.slot, id.generation, bytes⟩ ∈ records ↔ map id = some bytes) ∧
    handle.heap.recordCount = records.length
  chain : ∃ ids, Chain.Path (nextOf handle.file) handle.heap.first ids none ∧ BackLinked handle.file none ids ∧
    ids.Nodup ∧ handle.heap.last = ids.getLast? ∧ handle.heap.pageCount = ids.length
  reopen : 48 ≤ pageSize → handle.file.pageCount * pageSize < 2 ^ 64 →
    ∃ handle', HeapHandle.open handle.file handle.heap.root = .ok handle' ∧
      (∀ id, HeapHandle.read handle' id = HeapHandle.read handle id) ∧
      handle'.heap.scanRecords handle'.file = handle.heap.scanRecords handle.file

omit [PageSize] in
theorem length_liveCells (cells : List Cell) : (liveCells cells).length = cells.countP Cell.live := by
  have hshift : ∀ k, ((cells.zipIdx k).filterMap fun cell : Cell × Nat =>
      cell.1.1.map fun record => (cell.2, record, cell.1.2)).length = cells.countP Cell.live := by
    induction cells with
    | nil => exact fun _ => rfl
    | cons cell cells ih =>
      intro k
      obtain ⟨held, generation⟩ := cell
      rw [List.zipIdx_cons, List.filterMap_cons, List.countP_cons, ← ih (k + 1)]
      cases held <;> rfl
  exact hshift 0

omit [PageSize] in
theorem HeapLayout.length_records (layout : HeapLayout) :
    layout.view.records.length = (layout.data.map DataPage.recordCount).sum := by
  have hparts := congrArg List.length (layout.map_records id)
  rw [List.length_map, List.length_flatMap] at hparts
  rw [hparts]
  congr 1
  apply List.map_congr_left
  intro data _
  rw [List.length_map, length_liveCells, DataPage.recordCount]

namespace Contains

variable (h : Contains handle layout map) {id : HeapRecordId} {bytes : Bytes}

include h

theorem notHas (hmap : map id = none) (record : HeldRecord) : ¬layout.view.Has id record := by
  intro hhas
  have hsome := (h.maps id record.bytes).2 ⟨record, hhas, rfl⟩
  rw [hmap] at hsome
  cases hsome

theorem eq_none (hnone : ∀ record, ¬layout.view.Has id record) : map id = none := by
  cases hmap : map id with
  | none => rfl
  | some bytes =>
    obtain ⟨record, hhas, -⟩ := (h.maps id bytes).1 hmap
    exact absurd hhas (hnone record)

theorem insert {record : Bytes} (hlength : record.length < 2 ^ 64)
    (hrun : HeapHandle.insert record handle = .ok id handle') : map id = none := by
  have hspec := h.represents.insert hlength
  rw [hrun] at hspec
  obtain ⟨layout', hinserted⟩ := hspec
  obtain ⟨held, -, hplaced⟩ := hinserted.placed
  exact h.eq_none fun record => hplaced.notHas h.represents.nodup_view

theorem update {record : Bytes} {old : HeapRecordId} (hlength : record.length < 2 ^ 64)
    (hrun : HeapHandle.update old record handle = .ok id handle') : id = old ∨ map id = none := by
  have hspec := h.represents.update hlength old
  rw [hrun] at hspec
  obtain ⟨layout', hupdated⟩ := hspec
  obtain ⟨held, -, hreplaces⟩ := hupdated.rewritten
  exact (hreplaces.fresh h.represents.nodup_view).imp_right h.eq_none

theorem reopen (hsize : 48 ≤ pageSize) (hbytes : handle.file.pageCount * pageSize < 2 ^ 64) :
    ∃ handle', HeapHandle.open handle.file handle.heap.root = .ok handle' ∧
      (∀ id, HeapHandle.read handle' id = HeapHandle.read handle id) ∧
      handle'.heap.scanRecords handle'.file = handle.heap.scanRecords handle.file := by
  obtain ⟨head, hhead, hroot⟩ := h.rooted
  obtain ⟨opened, hopen, hfile, hheap, hrepresents⟩ := h.represents.opened_but hhead hroot hsize hbytes
  have hids : opened.pageIds = handle.pageIds :=
    hrepresents.chained.pageIds_eq.trans h.represents.chained.pageIds_eq.symm
  refine ⟨opened, hopen, fun id => ?_, ?_⟩
  · unfold HeapHandle.read
    rw [hfile, hheap, hids]
  · rw [hfile, hheap]
    rfl

variable (hmax : ∀ id bytes, map id = some bytes → bytes.length ≤ overflowMaxTotal)

include hmax

theorem readable (id : HeapRecordId) (record : HeldRecord) (hhas : layout.view.Has id record) : record.Readable :=
  fun _ => hmax id record.bytes ((h.maps id record.bytes).2 ⟨record, hhas, rfl⟩)

theorem read_some (hmap : map id = some bytes) : HeapHandle.read handle id = .ok bytes := by
  obtain ⟨record, hhas, rfl⟩ := (h.maps id bytes).1 hmap
  rw [h.represents.read hhas, h.represents.decodeStored hhas (h.readable hmax id record hhas)]

theorem scan : ∃ records, handle.heap.scanRecords handle.file = .ok records ∧ records.Nodup ∧
    (∀ id bytes, ⟨id.page, id.slot, id.generation, bytes⟩ ∈ records ↔ map id = some bytes) ∧
    handle.heap.recordCount = records.length := by
  refine ⟨_, h.represents.scanRecords (h.readable hmax), ?_, ?_, ?_⟩
  · have hnodup := HeapView.nodup_records h.represents.nodup_view
    apply List.Nodup.of_map fun record : HeapRecord => (⟨record.page, record.slot, record.generation⟩ : HeapRecordId)
    rwa [List.map_map]
  · intro id bytes
    rw [h.maps, List.mem_map]
    constructor
    · rintro ⟨⟨id', record⟩, hmem, heq⟩
      simp only [heapRecord, HeapRecord.mk.injEq] at heq
      obtain ⟨hpage, hslot, hgeneration, hbytes⟩ := heq
      have hid : id' = id := by
        obtain ⟨page, slot, generation⟩ := id
        exact HeapRecordId.eq_mk_iff.2 ⟨⟨hpage, hslot⟩, hgeneration.symm⟩
      exact ⟨record, HeapView.mem_records.1 (hid ▸ hmem), hbytes⟩
    · rintro ⟨record, hhas, rfl⟩
      exact ⟨(id, record), HeapView.mem_records.2 hhas, rfl⟩
  · rw [List.length_map, layout.length_records]
    exact h.represents.chained.recordCount_eq

theorem refines : Refines handle map where
  read_some := fun _ _ => h.read_some hmax
  read_none := fun _ hmap => h.represents.read_none (h.notHas hmap)
  insert := fun _ _ _ => h.insert
  update := fun _ _ _ _ => h.update
  scan := h.scan hmax
  chain := by
    refine ⟨layout.ids, h.represents.path, h.represents.backLinked, h.represents.chained.nodup, ?_, ?_⟩
    · rw [HeapLayout.ids, List.getLast?_map]
      exact h.represents.chained.last_eq
    · rw [HeapLayout.ids, List.length_map]
      exact h.represents.chained.pageCount_eq
  reopen := h.reopen

end Contains

/-! ### Records that can be read -/

/-- The record that the call writes is not longer than `read_chain` allows. -/
def HeapOp.Readable : HeapOp → Prop
  | .insert record => record.length ≤ overflowMaxTotal
  | .update _ record => record.length ≤ overflowMaxTotal
  | .erase _ => True

theorem HeapContents.length_le (h : HeapContents HeapOp.Readable handle map) :
    ∀ id bytes, map id = some bytes → bytes.length ≤ overflowMaxTotal := by
  induction h with
  | create => exact fun _ _ hmap => nomatch hmap
  | @call _ _ map op answer _ hallowed _ _ ih =>
    intro id bytes hmap
    cases op with
    | insert record =>
      simp only [HeapOp.apply] at hmap
      split at hmap
      · cases hmap
        exact hallowed
      · exact ih id bytes hmap
    | update old record =>
      simp only [HeapOp.apply] at hmap
      split at hmap
      · cases hmap
        exact hallowed
      · split at hmap
        · cases hmap
        · exact ih id bytes hmap
    | erase old =>
      simp only [HeapOp.apply] at hmap
      split at hmap
      · cases hmap
      · exact ih id bytes hmap
  | failed _ _ _ ih => exact ih
  | reopen _ _ _ _ _ ih => exact ih

/-- After every run whose records are not longer than a reader allows, the heap is the map of its records. -/
theorem refines_of_contents (h : HeapContents HeapOp.Readable handle map) : Refines handle map := by
  obtain ⟨layout, hcontains⟩ := h.contains
  exact hcontains.refines h.length_le

omit [PageSize] in
/-- A new heap with one record. -/
theorem refines_of_contents_insert : letI := PageSize.default
    ∃ handle, HeapContents HeapOp.Readable handle (HeapOp.apply (fun _ => none) (some ⟨2, 0, 1⟩) (.insert [7])) ∧
      Refines handle (HeapOp.apply (fun _ => none) (some ⟨2, 0, 1⟩) (.insert [7])) := by
  obtain ⟨created, handle, hcreate, hrun⟩ : ∃ created handle, HeapHandle.create PageFile.create = .ok created ∧
      @HeapOp.run PageSize.default (.insert [7]) created = .ok (some ⟨2, 0, 1⟩) handle := ⟨_, _, rfl, rfl⟩
  have hfits : (HeapOp.insert [7]).Fits := by
    change 1 < 2 ^ 64
    decide
  have hreadable : (HeapOp.insert [7]).Readable := by
    change 1 ≤ 2 ^ 40
    decide
  have hcreated := @HeapContents.create PageSize.default HeapOp.Readable _ _ (by decide) (by decide) hcreate
  have hcontents := @HeapContents.call PageSize.default _ _ _ _ _ _ hfits hreadable hcreated hrun
  exact ⟨handle, hcontents, @refines_of_contents PageSize.default _ _ hcontents⟩

/-! ### Records that can not -/

theorem Represents.insert_large (h : Represents handle layout 0) (htagged : handle.heap.tagged = true)
    {record : Bytes} (hlarge : overflowMaxTotal < record.length) (hlength : record.length < 2 ^ 41)
    (hcount : handle.file.pageCount < 2 ^ 41) (hstub : overflowStubSize ≤ slottedPageMaxRecordSize) :
    ∃ id handle', HeapHandle.insert record handle = .ok id handle' ∧
      HeapHandle.read handle' id = .error ⟨.corruptPage, "overflow stub has an invalid total length"⟩ := by
  have hover : slottedPageMaxRecordSize < 1 + record.length := by
    have hsmall : slottedPageMaxRecordSize ≤ 65535 :=
      Nat.le_trans (Nat.sub_le _ _) (Nat.le_trans (Nat.sub_le _ _) PageSize.upper)
    have hbig : 2 ^ 40 < record.length := hlarge
    omega
  have hchain : chainLength true record = overflowPageCount record := if_pos ⟨rfl, hover⟩
  have hpages : overflowPageCount record < 2 ^ 42 := by
    have hcapacity : overflowPageCapacity ≤ 65535 := Nat.le_trans (Nat.sub_le _ _) PageSize.upper
    have hdiv : overflowPageCount record ≤ record.length + overflowPageCapacity - 1 := Nat.div_le_self _ _
    omega
  have hspec := Represents.insert h (Nat.lt_trans hlength (show 2 ^ 41 < 2 ^ 64 by decide))
  cases hrun : HeapHandle.insert record handle with
  | error error handle' =>
    rw [hrun] at hspec
    rcases hspec.1 with ⟨⟨-, hfull⟩, -⟩ | (hempty | hlegacy) | hstored
    · rw [htagged, hchain] at hfull
      omega
    · rw [hempty] at hlarge
      cases hlarge
    · rw [htagged] at hlegacy
      cases hlegacy.1
    · rw [htagged, storedLength, if_pos rfl, if_neg (Nat.not_le.2 hover)] at hstored
      exact absurd hstub (Nat.not_le.2 hstored)
  | ok id handle' =>
    rw [hrun] at hspec
    obtain ⟨layout', hinserted⟩ := hspec
    obtain ⟨held, hkeeps, hplaced⟩ := hinserted.placed
    have hrepresents := hinserted.advances.represents
    have hhas : layout'.view.Has id held := (hplaced.has_iff h.nodup_view).2 (by rw [if_pos rfl])
    refine ⟨id, handle', rfl, ?_⟩
    rw [hrepresents.read hhas]
    apply hrepresents.decodeStored_error hhas
    intro hreadable
    have hle := hreadable ?_
    · rw [hkeeps.bytes_eq] at hle
      exact absurd hlarge (Nat.not_lt.2 hle)
    · intro hnil
      have hzero := hkeeps.length_chain
      rw [hnil, htagged, hchain] at hzero
      have hpos := @overflowPageCapacity_pos _
      have hdiv := (Nat.div_eq_zero_iff.1 hzero.symm).resolve_left (Nat.ne_of_gt hpos)
      omega

omit [PageSize] in
/-- A record of one byte more than a reader allows. -/
theorem read_large_record : letI := PageSize.default
    ∃ (handle : HeapHandle) (map : HeapRecordId → Option Bytes) (id : HeapRecordId) (record : Bytes),
      record.length = 2 ^ 40 + 1 ∧ HeapContents (fun _ => True) handle map ∧ map id = some record ∧
      HeapHandle.read handle id = .error ⟨.corruptPage, "overflow stub has an invalid total length"⟩ := by
  obtain ⟨record, hrecord⟩ : ∃ record : Bytes, record.length = 2 ^ 40 + 1 :=
    ⟨List.replicate (2 ^ 40 + 1) 7, List.length_replicate⟩
  obtain ⟨created, hcreate, hcount⟩ : ∃ created : HeapHandle, HeapHandle.create PageFile.create = .ok created ∧
      created.file.pageCount < 2 ^ 41 := ⟨_, rfl, by decide⟩
  obtain ⟨hrepresents, htagged⟩ := @represents_create PageSize.default _ _ _ .empty (by decide) (by decide) hcreate
  have hcreated := @HeapContents.create PageSize.default (fun _ => True) _ _ (by decide) (by decide) hcreate
  obtain ⟨id, handle, hinsert, hread⟩ := @Represents.insert_large PageSize.default _ _ hrepresents htagged record
    (by rw [hrecord]; decide) (by rw [hrecord]; decide) hcount (by decide)
  have hrun : @HeapOp.run PageSize.default (.insert record) created = .ok (some id) handle :=
    bind_of_ok hinsert
  have hfits : (HeapOp.insert record).Fits := by
    change record.length < 2 ^ 64
    rw [hrecord]
    decide
  have hcontents := @HeapContents.call PageSize.default _ _ _ _ _ _ hfits trivial hcreated hrun
  exact ⟨handle, _, id, record, hrecord, hcontents, if_pos rfl, hread⟩

end MoDb.Storage
