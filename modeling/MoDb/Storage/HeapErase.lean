import MoDb.Storage.HeapInsert

/-!
# Erasure

A record leaves its slot and gives its chain back. A page that held nothing else leaves the chain: its
neighbours are linked to each other, and it becomes the first free page.
-/

namespace MoDb.Storage

open Effect

variable [PageSize] {handle handle' : HeapHandle} {layout : HeapLayout} {frame : Multiset (Nat × Area)}
  {free : List (Nat × Area)} {record : HeldRecord} {id : HeapRecordId} {before after : List DataPage}
  {data : DataPage}

/-! ### Where a record is -/

/-- The slot of a page of the chain that the id says. -/
structure Located (layout : HeapLayout) (id : HeapRecordId) (before : List DataPage) (data : DataPage)
    (after : List DataPage) (record : HeldRecord) : Prop where
  data_eq : layout.data = before ++ data :: after
  page : data.id = id.page
  cell : data.cells[id.slot]? = some (some record, id.generation)

omit [PageSize] in
theorem Located.has (h : Located layout id before data after record) : layout.view.Has id record := by
  refine ⟨data.cells, ?_, h.cell⟩
  rw [HeapLayout.view, h.data_eq, viewOf_split, ← h.page]
  exact List.mem_append_right _ List.mem_cons_self

omit [PageSize] in
theorem located_of_has (h : layout.view.Has id record) :
    ∃ before data after, Located layout id before data after record := by
  obtain ⟨cells, hmem, hcell⟩ := h
  obtain ⟨data, hdata, heq⟩ := List.mem_map.1 hmem
  obtain ⟨before, after, hsplit⟩ := List.append_of_mem hdata
  rw [Prod.mk.injEq] at heq
  exact ⟨before, data, after, hsplit, heq.1, heq.2 ▸ hcell⟩

theorem Represents.locate (h : Represents handle layout frame) (id : HeapRecordId) :
    (∃ before data after record, Located layout id before data after record ∧
      HeapHandle.locate id handle = .ok data.page handle) ∨
    ((∀ record, ¬layout.view.Has id record) ∧
      ∃ error, error.code = .recordNotFound ∧ HeapHandle.locate id handle = .error error handle) := by
  have hids := h.chained.pageIds_eq
  unfold HeapHandle.locate
  rw [get_bind_run]
  by_cases hpage : id.page ∈ handle.pageIds
  · rw [if_neg (not_not.2 hpage)]
    rw [hids, List.mem_toFinset] at hpage
    obtain ⟨data, hdata, hid⟩ := List.mem_map.1 hpage
    obtain ⟨before, after, hsplit⟩ := List.append_of_mem hdata
    have hvalid := h.chained.data data hdata
    have hsame : ∀ other ∈ layout.data, other.id = id.page → other = data := fun other hother heq =>
      List.inj_on_of_nodup_map h.chained.nodup hother hdata (heq.trans hid.symm)
    have hnone : ∀ {record}, layout.view.Has id record →
        data.cells[id.slot]? = some (some record, id.generation) := by
      intro record hhas
      obtain ⟨_, other, _, hother⟩ := located_of_has hhas
      obtain rfl := hsame other (by rw [hother.data_eq]; exact List.mem_append_right _ List.mem_cons_self) hother.page
      exact hother.cell
    rw [← hid, bind_of_ok (h.loadPage hsplit)]
    cases hgeneration : data.page.generation id.slot with
    | error error =>
      refine .inr ⟨fun record hhas => ?_, _, rfl, rfl⟩
      rw [SlottedPage.generation_of_some (hvalid.entry_of_cell (hnone hhas))] at hgeneration
      cases hgeneration
    | ok generation =>
      obtain ⟨stored, hentry⟩ := SlottedPage.exists_of_generation hgeneration
      obtain ⟨record, hcell, -, -⟩ := hvalid.cell_of_entry hentry
      dsimp only
      by_cases heq : generation = id.generation
      · rw [if_pos heq]
        exact .inl ⟨before, data, after, record, ⟨hsplit, hid, heq ▸ hcell⟩, rfl⟩
      · rw [if_neg heq]
        refine .inr ⟨fun other hhas => ?_, _, rfl, rfl⟩
        have hother := hnone hhas
        rw [hcell, Option.some.injEq, Prod.mk.injEq] at hother
        exact heq hother.2
  · rw [if_pos hpage]
    refine .inr ⟨fun record hhas => ?_, _, rfl, rfl⟩
    obtain ⟨before, data, after, hlocated⟩ := located_of_has hhas
    apply hpage
    rw [hids, List.mem_toFinset, ← hlocated.page, hlocated.data_eq]
    exact List.mem_map_of_mem (List.mem_append_right _ List.mem_cons_self)

/-! ### Links around a page -/

def relinkLast (next : Option Nat) : List DataPage → List DataPage
  | [] => []
  | [data] => [data.relinked data.page.previousPage next]
  | data :: second :: rest => data :: relinkLast next (second :: rest)

def relinkFirst (previous : Option Nat) : List DataPage → List DataPage
  | [] => []
  | data :: rest => data.relinked previous data.page.nextPage :: rest

omit [PageSize] in
theorem relinkLast_concat (next : Option Nat) (before : List DataPage) (data : DataPage) :
    relinkLast next (before ++ [data]) = before ++ [data.relinked data.page.previousPage next] := by
  induction before with
  | nil => rfl
  | cons first before ih =>
    cases before with
    | nil => rfl
    | cons second before => exact congrArg (first :: ·) ih

omit [PageSize] in
theorem viewOf_relinkLast (next : Option Nat) (list : List DataPage) :
    viewOf (relinkLast next list) = viewOf list := by
  induction list using List.reverseRecOn with
  | nil => rfl
  | append_singleton before data =>
    rw [relinkLast_concat, viewOf_split, viewOf_split]
    rfl

omit [PageSize] in
theorem viewOf_relinkFirst (previous : Option Nat) (list : List DataPage) :
    viewOf (relinkFirst previous list) = viewOf list := by
  cases list <;> rfl

theorem map_capacity_relinkLast (next : Option Nat) (list : List DataPage) :
    (relinkLast next list).map DataPage.capacity = list.map DataPage.capacity := by
  induction list using List.reverseRecOn with
  | nil => rfl
  | append_singleton before data =>
    rw [relinkLast_concat, List.map_append, List.map_append]
    rfl

theorem map_capacity_relinkFirst (previous : Option Nat) (list : List DataPage) :
    (relinkFirst previous list).map DataPage.capacity = list.map DataPage.capacity := by
  cases list <;> rfl

theorem valid_relinkLast {tagged : Bool} {next : Option Nat} {list : List DataPage}
    (h : ∀ data ∈ list, data.Valid tagged) (hnext : next ≠ some 0 ∧ next.getD 0 < 2 ^ 64) :
    ∀ data ∈ relinkLast next list, data.Valid tagged := by
  induction list using List.reverseRecOn with
  | nil => exact h
  | append_singleton before last =>
    rw [relinkLast_concat]
    intro data hdata
    rcases List.mem_append.1 hdata with hmem | hmem
    · exact h data (List.mem_append_left _ hmem)
    · have hlast := h last (List.mem_append_right _ List.mem_cons_self)
      rw [List.mem_singleton.1 hmem]
      exact hlast.relinked hlast.sane.linkable.previous hnext

theorem valid_relinkFirst {tagged : Bool} {previous : Option Nat} {list : List DataPage}
    (h : ∀ data ∈ list, data.Valid tagged) (hprevious : previous ≠ some 0 ∧ previous.getD 0 < 2 ^ 64) :
    ∀ data ∈ relinkFirst previous list, data.Valid tagged := by
  cases list with
  | nil => exact h
  | cons first rest =>
    intro data hdata
    rcases List.mem_cons.1 hdata with rfl | hmem
    · have hfirst := h first List.mem_cons_self
      exact hfirst.relinked hprevious hfirst.sane.linkable.next
    · exact h data (List.mem_cons_of_mem _ hmem)

omit [PageSize] in
theorem head?_relinkLast (next : Option Nat) (list : List DataPage) :
    (relinkLast next list).head?.map DataPage.id = list.head?.map DataPage.id := by
  cases list with
  | nil => rfl
  | cons data rest => cases rest <;> rfl

omit [PageSize] in
theorem Linked.removed {previous : Option Nat} (h : Linked previous (before ++ data :: after)) :
    Linked previous (relinkLast (after.head?.map DataPage.id) before ++
      relinkFirst ((before.getLast?.map DataPage.id).or previous) after) := by
  induction before generalizing previous with
  | nil =>
    obtain ⟨-, -, hafter⟩ := h
    cases after with
    | nil => trivial
    | cons next after => exact ⟨rfl, hafter.2.1, hafter.2.2⟩
  | cons first before ih =>
    obtain ⟨hprevious, hnext, hrest⟩ := h
    have hlinked := ih hrest
    cases before with
    | nil =>
      refine ⟨hprevious, ?_, hlinked⟩
      cases after <;> rfl
    | cons second before =>
      refine ⟨hprevious, ?_, ?_⟩
      · have hhead := head?_relinkLast (after.head?.map DataPage.id) (second :: before)
        rw [hnext]
        cases hcase : relinkLast (after.head?.map DataPage.id) (second :: before) with
        | nil =>
          rw [hcase] at hhead
          cases hhead
        | cons third rest =>
          rw [hcase] at hhead
          exact hhead.symm
      · rw [List.getLast?_cons_cons]
        have hsome : ((second :: before).getLast?.map DataPage.id).isSome = true := by
          rw [Option.isSome_map, List.getLast?_isSome]
          exact List.cons_ne_nil _ _
        obtain ⟨last, hlast⟩ := Option.isSome_iff_exists.1 hsome
        rw [hlast] at hlinked ⊢
        exact hlinked

theorem FreePages.unlinkPrevious {tagged : Bool} {next : Option Nat} (h : FreePages handle free (pagesOf before + frame))
    (hvalid : ∀ data ∈ before, data.Valid tagged) (hlinked : Linked none (before ++ data :: after))
    (hnext : next ≠ some 0) :
    ∃ file, HeapHandle.unlinkPrevious data.id next (before.getLast?.map DataPage.id) handle =
        .ok () { handle with file := file } ∧
      Accounts handle free (pagesOf before + frame) { handle with file := file } free
        (pagesOf (relinkLast next before) + frame) := by
  induction before using List.reverseRecOn with
  | nil => exact ⟨handle.file, rfl, h.accounts rfl rfl⟩
  | append_singleton before last =>
    rw [pagesOf_concat] at h
    rw [relinkLast_concat, pagesOf_concat, pagesOf_concat]
    obtain ⟨file, hwrite, hwritten⟩ := h.writePage (last.relinked last.page.previousPage next).page.area
    have hlast : last.Valid tagged := hvalid last (List.mem_append_right _ List.mem_cons_self)
    have hforward : last.page.nextPage = some data.id := by
      rw [List.append_assoc] at hlinked
      exact hlinked.next_eq
    refine ⟨file, ?_, ?_⟩
    · rw [List.getLast?_concat]
      change (HeapHandle.loadPage last.id >>= _) handle = _
      rw [bind_of_ok h.loadPage, hlast.image, if_neg (not_not.2 hforward), SlottedPage.setNextPage,
        if_neg hnext, demand_ok_bind]
      exact hwrite
    · exact hwritten.toAccounts

theorem FreePages.unlinkNext {tagged : Bool} {previous : Option Nat}
    (h : FreePages handle free (pagesOf after + frame)) (hvalid : ∀ data ∈ after, data.Valid tagged)
    (hlinked : Linked none (before ++ data :: after)) (hprevious : previous ≠ some 0) :
    ∃ file, HeapHandle.unlinkNext data.id previous (after.head?.map DataPage.id) handle =
        .ok () { handle with file := file } ∧
      Accounts handle free (pagesOf after + frame) { handle with file := file } free
        (pagesOf (relinkFirst previous after) + frame) := by
  cases after with
  | nil => exact ⟨handle.file, rfl, h.accounts rfl rfl⟩
  | cons first after =>
    rw [pagesOf_cons] at h
    rw [relinkFirst, pagesOf_cons, pagesOf_cons]
    obtain ⟨file, hwrite, hwritten⟩ := h.writePage (first.relinked previous first.page.nextPage).page.area
    have hfirst : first.Valid tagged := hvalid first List.mem_cons_self
    have hback : first.page.previousPage = some data.id := by
      have hprevious_eq := (show Linked none ((before ++ [data]) ++ first :: after) by
        rw [List.append_assoc]
        exact hlinked).previous_eq
      rw [List.getLast?_concat] at hprevious_eq
      exact hprevious_eq
    refine ⟨file, ?_, ?_⟩
    · change (HeapHandle.loadPage first.id >>= _) handle = _
      rw [bind_of_ok h.loadPage, hfirst.image, if_neg (not_not.2 hback), SlottedPage.setPreviousPage,
        if_neg hprevious, demand_ok_bind]
      exact hwrite
    · exact hwritten.toAccounts

/-! ### A page leaves the chain -/

theorem Chained.removed {list : List DataPage} (h : Chained handle (before ++ data :: after))
    (hview : viewOf list = viewOf (before ++ after))
    (hsame : list.map DataPage.capacity = (before ++ after).map DataPage.capacity)
    (hvalid : ∀ data ∈ list, data.Valid handle.heap.tagged) (hlinked : Linked none list)
    (hone : data.recordCount = 1)
    (hheap : handle'.heap = { handle.heap with
      first := if handle.heap.pageCount = 1 then none
        else if before.getLast?.map DataPage.id = none then after.head?.map DataPage.id
        else handle.heap.first
      last := if handle.heap.pageCount = 1 then none
        else if after.head?.map DataPage.id = none then before.getLast?.map DataPage.id
        else handle.heap.last
      pageCount := handle.heap.pageCount - 1
      recordCount := handle.heap.recordCount - 1
      freeHead := handle'.heap.freeHead })
    (hids : handle'.pageIds = handle.pageIds.erase data.id)
    (hcapacities : handle'.capacities = handle.capacities.forget data.id) : Chained handle' list := by
  have hmap : list.map DataPage.id = (before ++ after).map DataPage.id := by
    have hfst := congrArg (List.map Prod.fst) hview
    rw [viewOf, viewOf, List.map_map, List.map_map] at hfst
    exact hfst
  have hcounts : list.map DataPage.recordCount = (before ++ after).map DataPage.recordCount := by
    have hlive := congrArg (List.map fun page : Nat × List Cell => page.2.countP Cell.live) hview
    rw [viewOf, viewOf, List.map_map, List.map_map] at hlive
    exact hlive
  have hlength : list.length = before.length + after.length := by
    have hlengths := congrArg List.length hmap
    rwa [List.length_map, List.length_map, List.length_append] at hlengths
  have hhead : list.head?.map DataPage.id = (before ++ after).head?.map DataPage.id := by
    rw [← List.head?_map, hmap, List.head?_map]
  have hend : list.getLast?.map DataPage.id = (before ++ after).getLast?.map DataPage.id := by
    rw [← List.getLast?_map, hmap, List.getLast?_map]
  have hpageCount := h.pageCount_eq
  rw [List.length_append, List.length_cons] at hpageCount
  have hnodup := h.nodup
  rw [List.map_append, List.map_cons, List.nodup_append, List.nodup_cons] at hnodup
  obtain ⟨hbefore, ⟨hnotAfter, hafter⟩, hapart⟩ := hnodup
  have hnotBefore : data.id ∉ before.map DataPage.id := fun hmem => hapart _ hmem _ List.mem_cons_self rfl
  refine ⟨?_, ?_, hlinked, ?_, ?_, ?_, ?_, ?_, ?_⟩
  · rw [hheap]
    exact hvalid
  · rw [hmap, List.map_append, List.nodup_append]
    exact ⟨hbefore, hafter, fun id hid other hother => hapart id hid other (List.mem_cons_of_mem _ hother)⟩
  · rw [hheap, hhead]
    dsimp only
    cases before with
    | nil =>
      cases after with
      | nil => exact if_pos hpageCount
      | cons next after =>
        rw [if_neg (by rw [hpageCount, List.length_cons]; omega)]
        exact if_pos rfl
    | cons first before =>
      rw [if_neg (by rw [hpageCount, List.length_cons]; omega), if_neg, h.first_eq]
      · rfl
      · rw [List.getLast?_cons]
        exact Option.some_ne_none _
  · rw [hheap, hend]
    dsimp only
    cases after with
    | nil =>
      rw [List.append_nil]
      cases before with
      | nil => exact if_pos hpageCount
      | cons first before =>
        rw [if_neg (by rw [hpageCount, List.length_cons]; omega)]
        exact if_pos rfl
    | cons next after =>
      rw [if_neg (by rw [hpageCount, List.length_cons]; omega), if_neg (by exact Option.some_ne_none next.id), h.last_eq,
        List.getLast?_append_cons, List.getLast?_append_cons, List.getLast?_cons_cons]
  · rw [hheap, hlength]
    change handle.heap.pageCount - 1 = _
    omega
  · have hcount := h.recordCount_eq
    rw [List.map_append, List.map_cons, List.sum_append, List.sum_cons] at hcount
    rw [hheap, hcounts, List.map_append, List.sum_append]
    change handle.heap.recordCount - 1 = _
    omega
  · rw [hids, h.pageIds_eq, hmap]
    ext id
    simp only [List.map_append, List.map_cons, Finset.mem_erase, List.mem_toFinset, List.mem_append, List.mem_cons]
    constructor
    · rintro ⟨hne, hmem | rfl | hmem⟩
      · exact .inl hmem
      · exact absurd rfl hne
      · exact .inr hmem
    · rintro (hmem | hmem)
      · exact ⟨fun heq => hnotBefore (heq ▸ hmem), .inl hmem⟩
      · exact ⟨fun heq => hnotAfter (heq ▸ hmem), .inr (.inr hmem)⟩
  · have hlists := h.capacities
    have hkeys := h.nodup
    rw [List.map_append, List.map_cons] at hlists
    rw [← map_fst_capacity, List.map_append, List.map_cons] at hkeys
    rw [hcapacities, hsame, List.map_append]
    exact hlists.forget hkeys

theorem Chained.unlink {area rootPage : Area} (h : Chained handle (before ++ data :: after))
    (hone : data.recordCount = 1)
    (hpages : FreePages handle free
      ({(data.id, area)} + ({(handle.heap.root, rootPage)} + (pagesOf (before ++ after) + frame)))) :
    ∃ handle' free' list, HeapHandle.unlink data.id data.page.previousPage data.page.nextPage handle =
        .ok () handle' ∧ viewOf list = viewOf (before ++ after) ∧ Chained handle' list ∧
      Accounts handle free
        ({(data.id, area)} + ({(handle.heap.root, rootPage)} + (pagesOf (before ++ after) + frame))) handle' free'
        ({(handle.heap.root, encodeRoot handle'.heap.toRootMetadata)} + (pagesOf list + frame)) ∧
      handle'.heap.root = handle.heap.root ∧ handle'.heap.tagged = handle.heap.tagged := by
  have hnext := h.linked.next_eq
  have hprevious : data.page.previousPage = before.getLast?.map DataPage.id := by
    rw [h.linked.previous_eq, Option.or_none]
  have hvalid := h.valid
  have hends : ¬((before.getLast?.map DataPage.id = none ∧ handle.heap.first ≠ some data.id) ∨
      (after.head?.map DataPage.id = none ∧ handle.heap.last ≠ some data.id)) := by
    rintro (⟨hnone, hfirst⟩ | ⟨hnone, hlast⟩)
    · rw [Option.map_eq_none_iff, List.getLast?_eq_none_iff] at hnone
      rw [h.first_eq, hnone] at hfirst
      exact hfirst rfl
    · rw [Option.map_eq_none_iff, List.head?_eq_none_iff] at hnone
      rw [h.last_eq, hnone, List.getLast?_concat] at hlast
      exact hlast rfl
  have hnextLink := hvalid.sane.linkable.next
  have hpreviousLink := hvalid.sane.linkable.previous
  rw [hnext] at hnextLink
  rw [hprevious] at hpreviousLink
  generalize hnextId : after.head?.map DataPage.id = next at *
  generalize hpreviousId : before.getLast?.map DataPage.id = previous at *
  have hbefore : ∀ data ∈ before, data.Valid handle.heap.tagged := fun data hdata =>
    h.data data (List.mem_append_left _ hdata)
  have hafter : ∀ data ∈ after, data.Valid handle.heap.tagged := fun data hdata =>
    h.data data (List.mem_append_right _ (List.mem_cons_of_mem _ hdata))
  -- the page before, the page after, and what is in memory
  have hfirst : ({(data.id, area)} : Multiset (Nat × Area)) + ({(handle.heap.root, rootPage)} +
      (pagesOf (before ++ after) + frame)) = pagesOf before + (pagesOf after + ({(data.id, area)} +
        ({(handle.heap.root, rootPage)} + frame))) := by
    rw [pagesOf_append]
    abel
  rw [hfirst] at hpages ⊢
  obtain ⟨file₁, hrun₁, haccounts₁⟩ := hpages.unlinkPrevious hbefore h.linked hnextLink.1
  rw [hpreviousId] at hrun₁
  rw [add_left_comm (pagesOf (relinkLast next before))] at haccounts₁
  obtain ⟨file₂, hrun₂, haccounts₂⟩ := haccounts₁.pages.unlinkNext hafter h.linked hpreviousLink.1
  rw [hnextId] at hrun₂
  obtain ⟨middle, hmiddle⟩ : ∃ middle : HeapHandle, middle = { handle with
      file := file₂
      heap := { handle.heap with
        first := if handle.heap.pageCount = 1 then none
          else if previous = none then next else handle.heap.first
        last := if handle.heap.pageCount = 1 then none
          else if next = none then previous else handle.heap.last
        pageCount := handle.heap.pageCount - 1
        recordCount := handle.heap.recordCount - 1 }
      pageIds := handle.pageIds.erase data.id
      capacities := handle.capacities.forget data.id } := ⟨_, rfl⟩
  have haccounts₃ : Accounts { handle with file := file₂ } free _ middle free _ :=
    haccounts₂.pages.accounts (by rw [hmiddle]) (by rw [hmiddle])
  have hlist : pagesOf (relinkFirst previous after) + (pagesOf (relinkLast next before) +
      ({(data.id, area)} + ({(handle.heap.root, rootPage)} + frame))) = {(data.id, area)} +
        ({(handle.heap.root, rootPage)} +
          (pagesOf (relinkLast next before ++ relinkFirst previous after) + frame)) := by
    rw [pagesOf_append]
    abel
  rw [hlist] at haccounts₂ haccounts₃
  obtain ⟨released, page', hrun₄, hreleased⟩ := haccounts₃.pages.releasePage
  have hroot : released.heap.root = handle.heap.root := by
    rw [hreleased.same.root_eq, hmiddle]
  have hpages₄ := hreleased.pages
  rw [← hroot] at hpages₄
  obtain ⟨file₅, hrun₅, haccounts₅⟩ := hpages₄.persistRoot
  rw [hroot] at haccounts₅
  have hview : viewOf (relinkLast next before ++ relinkFirst previous after) = viewOf (before ++ after) := by
    unfold viewOf
    rw [List.map_append, List.map_append]
    exact congrArg₂ _ (viewOf_relinkLast _ _) (viewOf_relinkFirst _ _)
  have hchained : Chained middle (relinkLast next before ++ relinkFirst previous after) := by
    refine h.removed hview ?_ ?_ ?_ hone ?_ ?_ ?_
    · rw [List.map_append, List.map_append, map_capacity_relinkLast, map_capacity_relinkFirst]
    · intro other hother
      rcases List.mem_append.1 hother with hother | hother
      · exact valid_relinkLast hbefore hnextLink other hother
      · exact valid_relinkFirst hafter hpreviousLink other hother
    · have hlinked := h.linked.removed
      rw [hnextId, hpreviousId, Option.or_none] at hlinked
      exact hlinked
    · rw [hmiddle, hnextId, hpreviousId]
    · rw [hmiddle]
    · rw [hmiddle]
  refine ⟨{ released with file := file₅ }, (data.id, page') :: free, relinkLast next before ++ relinkFirst previous after, ?_, ?_, ?_,
    ?_, hroot, ?_⟩
  · rw [hnext, hprevious]
    unfold HeapHandle.unlink
    rw [get_bind_run, if_neg hends, bind_of_ok hrun₁, bind_of_ok hrun₂]
    subst hmiddle
    exact (bind_of_ok hrun₄).trans hrun₅
  · exact hview
  · exact (hchained.same hreleased.same).same rfl
  · exact (haccounts₁.trans haccounts₂).trans (haccounts₃.trans (hreleased.toAccounts.trans haccounts₅))
  · change released.heap.tagged = _
    rw [hreleased.same.tagged_eq, hmiddle]

/-! ### The whole erasure -/

def DataPage.emptied (data : DataPage) (slot generation : Nat) (page : SlottedPage) : DataPage :=
  ⟨data.id, { page with area := page.page }, put data.cells slot (none, generation)⟩

theorem DataPage.Valid.emptied {tagged : Bool} {slot generation : Nat} (h : data.Valid tagged)
    (hcell : data.cells[slot]? = some (some record, generation)) :
    ∃ page, data.page.erase slot = .ok page ∧ (data.emptied slot generation page).Valid tagged ∧
      page.nextPage = data.page.nextPage ∧ page.previousPage = data.page.previousPage ∧
      page.recordCount = (data.emptied slot generation page).recordCount := by
  obtain ⟨page, herase, hvalid, hnext, hprevious, hentries⟩ := h.sane.valid.erase_spec (h.entry_of_cell hcell)
  have hcells : page.entries = (put data.cells slot (none, generation)).map (Cell.entry tagged) := by
    rw [hentries, h.entries, map_put]
    rfl
  have hslot := Nat.le_of_lt (List.getElem?_eq_some_iff.1 hcell).1
  refine ⟨page, herase, DataPage.valid_page hvalid (SlottedPage.signed_erase h.sane.signed herase) ⟨?_, ?_⟩
    hcells ?_, hnext, hprevious, ?_⟩
  · rw [hnext]
    exact h.sane.linkable.next
  · rw [hprevious]
    exact h.sane.linkable.previous
  · intro cell hmem held hheld
    rcases mem_put hslot hmem with rfl | hmem
    · cases hheld
    · exact h.records cell hmem held hheld
  · rw [SlottedPage.recordCount_eq, hcells, List.countP_map]
    apply List.countP_congr
    intro cell _
    simp [Cell.entry, Cell.live]

omit [PageSize] in
theorem DataPage.recordCount_emptied {slot generation : Nat}
    (hcell : data.cells[slot]? = some (some record, generation)) (page : SlottedPage) :
    (data.emptied slot generation page).recordCount + 1 = data.recordCount := by
  rw [DataPage.recordCount, DataPage.recordCount, countP_eq_sum, countP_eq_sum]
  exact sum_map_put (fun cell => if cell.live then 1 else 0) hcell (none, generation)

omit [PageSize] in
theorem DataPage.chain_emptied {slot generation : Nat}
    (hcell : data.cells[slot]? = some (some record, generation)) :
    (data.cells.map Cell.chain).sum = (record.chain : Multiset (Nat × Area)) +
      ((put data.cells slot (none, generation)).map Cell.chain).sum := by
  have hsum := sum_map_put Cell.chain hcell (none, generation)
  rw [show Cell.chain (none, generation) = 0 from rfl, add_zero] at hsum
  rw [← hsum, add_comm]
  rfl

omit [PageSize] in
theorem sum_chain_of_countP {cells : List Cell} (h : cells.countP Cell.live = 0) :
    (cells.map Cell.chain).sum = 0 := by
  rw [List.countP_eq_zero] at h
  apply List.sum_eq_zero
  intro chain hchain
  obtain ⟨cell, hcell, rfl⟩ := List.mem_map.1 hchain
  obtain ⟨held, generation⟩ := cell
  cases held with
  | none => rfl
  | some held => exact absurd rfl (h _ hcell)

theorem Represents.erase (h : Represents handle layout frame) (id : HeapRecordId) :
    Outcome (fun _ handle' => ∃ layout', Removed layout.view id layout'.view ∧
        Advances handle layout frame handle' layout' frame ∧ Rooted handle' layout')
      (fun error handle' => error.code = .recordNotFound ∧ (∀ record, ¬layout.view.Has id record) ∧
        handle' = handle)
      (HeapHandle.erase id handle) := by
  unfold HeapHandle.erase
  rcases h.locate id with ⟨before, data, after, record, hlocated, hrun⟩ | ⟨hnone, error, hcode, hrun⟩
  swap
  · rw [bind_of_error hrun]
    exact ⟨hcode, hnone, rfl⟩
  obtain ⟨hdata, hpage, hcell⟩ := hlocated
  obtain ⟨pageId, slot, generation⟩ := id
  obtain rfl : data.id = pageId := hpage
  have hchained := h.chained
  rw [hdata] at hchained
  have hvalid := hchained.valid
  have hentry := hvalid.entry_of_cell hcell
  have hrecord := hvalid.records _ (List.mem_of_getElem? hcell) record rfl
  obtain ⟨page, herase, hemptied, hnext, hprevious, hlive⟩ := hvalid.emptied hcell
  have hcount := DataPage.recordCount_emptied hcell page
  -- the chain of the record is beside the page that is without it
  have hpages := h.pages
  change FreePages handle layout.free (layout.beside _ _) at hpages
  have hbeside : ∀ root, layout.beside root frame = (record.chain : Multiset (Nat × Area)) +
      ({(data.id, data.page.area)} + ({(root, layout.rootPage)} +
        (((put data.cells slot (none, generation)).map Cell.chain).sum +
          (pagesOf (before ++ after) + frame)))) := by
    intro root
    rw [HeapLayout.beside_split hdata, DataPage.chain_emptied hcell]
    abel
  rw [hbeside] at hpages
  obtain ⟨middle, free, hfree, hfreed, -⟩ := hpages.freeStored hrecord
  have hmiddle := hchained.same hfreed.same
  have hroot := hfreed.same.root_eq
  have hrest := hfreed.pages
  rw [← hroot] at hrest
  rw [bind_of_ok hrun, SlottedPage.read_of_some hentry, demand_ok_bind, bind_of_ok hfree, herase, demand_ok_bind,
    get_bind_run]
  have hnonzero : ¬(middle.heap.recordCount = 0 ∨ middle.heap.pageCount = 0) := by
    have hrecords := hmiddle.recordCount_eq
    have hlength := hmiddle.pageCount_eq
    rw [List.map_append, List.map_cons, List.sum_append, List.sum_cons] at hrecords
    rw [List.length_append, List.length_cons] at hlength
    omega
  rw [if_neg hnonzero]
  have hfreed' := hfreed.toAccounts
  by_cases hlast : page.recordCount = 0
  · rw [if_neg (not_not.2 hlast), hprevious, hnext]
    rw [hlive] at hlast
    have hempty : ((put data.cells slot (none, generation)).map Cell.chain).sum = 0 := sum_chain_of_countP hlast
    rw [hempty, zero_add] at hrest hfreed'
    obtain ⟨handle', free', list, hunlink, hview, hchained', haccounts, hroot', htagged⟩ :=
      hmiddle.unlink (by omega) hrest
    rw [hunlink]
    refine ⟨⟨encodeRoot handle'.heap.toRootMetadata, list, free'⟩, ?_, ⟨?_, hchained', ?_, ?_⟩, rfl⟩
    · change Removed layout.view _ (viewOf list)
      have happend : viewOf (before ++ after) = viewOf before ++ viewOf after := List.map_append
      rw [HeapLayout.view, hdata, viewOf_split, hview, happend]
      exact .page rfl hcell hlast
    · rw [hbeside, hempty, zero_add]
      rw [hroot] at haccounts
      exact hfreed'.trans haccounts
    · exact hroot'.trans hroot
    · exact htagged.trans hfreed.same.tagged_eq
  · rw [if_pos hlast]
    obtain ⟨next, hmemory⟩ : ∃ next : PageFile Area → HeapHandle, next = fun file => { middle with
      file := file
      heap := { middle.heap with recordCount := middle.heap.recordCount - 1 }
      capacities := middle.capacities.set data.id page.insertionCapacity } := ⟨_, rfl⟩
    obtain ⟨file, file', hwrite, hpersist, haccounts⟩ := @FreePages.rewrite _ _ _ _ _ _ hrest page.page next
      (by rw [hmemory]; exact fun _ => rfl) (by rw [hmemory]; exact fun _ => rfl) (by rw [hmemory]; exact fun _ => rfl)
    have hdone : (do
        HeapHandle.writePage data.id page.page
        modify fun handle => { handle with
          heap := { handle.heap with recordCount := handle.heap.recordCount - 1 } }
        HeapHandle.setInsertionCapacity data.id page.insertionCapacity
        HeapHandle.persistRoot : HeapM Unit) middle = .ok () { next file with file := file' } := by
      subst hmemory
      exact (bind_of_ok hwrite).trans hpersist
    rw [hdone]
    refine ⟨⟨encodeRoot (next file).heap.toRootMetadata, before ++ data.emptied slot generation page :: after, free⟩,
      ?_, ⟨?_, ?_, ?_, ?_⟩, rfl⟩
    · change Removed layout.view _ (viewOf (before ++ data.emptied slot generation page :: after))
      rw [HeapLayout.view, hdata, viewOf_split, viewOf_split]
      exact .slot rfl hcell
    · rw [hbeside, @HeapLayout.beside_split ⟨_, _, _⟩ _ _ _ rfl]
      rw [hroot] at haccounts
      exact hfreed'.trans haccounts
    · refine hmiddle.replaced ?_ ?_ ?_ ?_ ?_ ?_
      · rw [DataPage.link, DataPage.link, ← hprevious, ← hnext]
        rfl
      · rw [hfreed.same.tagged_eq]
        exact hemptied
      · rw [hmemory]
      · change (next file).heap.recordCount + _ = _
        rw [hmemory]
        have hpos : 1 ≤ middle.heap.recordCount := by omega
        rw [← hcount, Nat.add_comm _ 1, ← Nat.add_assoc]
        exact congrArg (· + _) (Nat.sub_add_cancel hpos)
      · change (next file).pageIds = _
        rw [hmemory]
      · change (next file).capacities = _
        rw [hmemory]
        rfl
    · change (next file).heap.root = _
      rw [hmemory]
      exact hroot
    · change (next file).heap.tagged = _
      rw [hmemory]
      exact hfreed.same.tagged_eq

end MoDb.Storage
