import MoDb.Storage.HeapLayout

/-!
# Free pages and chains

Pages come from the list of free pages, or are new, and go back to it. A record that overflows takes its
pages there and gives them back.
-/

namespace MoDb.Storage

open Effect

/-! ### What is kept track of -/

def fresh (before after : Nat) : Multiset Nat := List.range' before (after - before)

theorem fresh_self (count : Nat) : fresh count count = 0 := by
  rw [fresh, Nat.sub_self]
  rfl

theorem fresh_succ (count : Nat) : fresh count (count + 1) = {count} := by
  rw [fresh, Nat.add_sub_cancel_left]
  rfl

theorem fresh_add {before middle after : Nat} (h : before ≤ middle) (h' : middle ≤ after) :
    fresh before middle + fresh middle after = fresh before after := by
  unfold fresh
  rw [Multiset.coe_add]
  have happend := @List.range'_append before (middle - before) (after - middle) 1
  rw [Nat.one_mul, Nat.add_sub_cancel' h] at happend
  rw [happend, show middle - before + (after - middle) = after - before by omega]

def SameChain (handle handle' : HeapHandle) : Prop :=
  handle' = { handle with
    file := handle'.file
    heap := { handle.heap with freeHead := handle'.heap.freeHead } }

/-- From one state of a heap to another one, none of its free pages and none of those beside them is lost,
and those that came are new in the file. -/
structure Accounts (handle : HeapHandle) (free : List (Nat × Area)) (frame : Multiset (Nat × Area))
    (handle' : HeapHandle) (free' : List (Nat × Area)) (frame' : Multiset (Nat × Area)) : Prop where
  pages : FreePages handle' free' frame'
  count_le : handle.file.pageCount ≤ handle'.file.pageCount
  ids_eq : ((free' : Multiset (Nat × Area)) + frame').map Prod.fst =
    ((free : Multiset (Nat × Area)) + frame).map Prod.fst +
      fresh handle.file.pageCount handle'.file.pageCount

/-- And the chain is the same. -/
structure Moves (handle : HeapHandle) (free : List (Nat × Area)) (frame : Multiset (Nat × Area))
    (handle' : HeapHandle) (free' : List (Nat × Area)) (frame' : Multiset (Nat × Area)) : Prop
    extends Accounts handle free frame handle' free' frame' where
  same : SameChain handle handle'

/-- A step that failed may have lost free pages, but nothing else. -/
structure Loses (handle : HeapHandle) (frame : Multiset (Nat × Area)) (handle' : HeapHandle) : Prop where
  pages : ∃ free, FreePages handle' free frame
  count_le : handle.file.pageCount ≤ handle'.file.pageCount
  same : SameChain handle handle'

variable {handle handle' handle'' : HeapHandle} {free free' free'' : List (Nat × Area)}
  {frame frame' frame'' : Multiset (Nat × Area)}

theorem SameChain.trans (h : SameChain handle handle') (h' : SameChain handle' handle'') :
    SameChain handle handle'' := by
  unfold SameChain at *
  rw [h', h]

theorem SameChain.tagged_eq (h : SameChain handle handle') : handle'.heap.tagged = handle.heap.tagged := by
  rw [h]

theorem SameChain.root_eq (h : SameChain handle handle') : handle'.heap.root = handle.heap.root := by
  rw [h]

theorem FreePages.accounts (h : FreePages handle free frame) (hfile : handle'.file = handle.file)
    (hhead : handle'.heap.freeHead = handle.heap.freeHead) :
    Accounts handle free frame handle' free frame where
  pages := ⟨hfile ▸ h.holds, hfile ▸ h.pos, hfile ▸ h.fits, hhead.trans h.freeHead_eq, h.linked⟩
  count_le := Nat.le_of_eq (congrArg _ hfile.symm)
  ids_eq := by rw [hfile, fresh_self, add_zero]

theorem Accounts.trans (h : Accounts handle free frame handle' free' frame')
    (h' : Accounts handle' free' frame' handle'' free'' frame'') :
    Accounts handle free frame handle'' free'' frame'' where
  pages := h'.pages
  count_le := Nat.le_trans h.count_le h'.count_le
  ids_eq := by rw [h'.ids_eq, h.ids_eq, add_assoc, fresh_add h.count_le h'.count_le]

theorem Accounts.pageCount_le (h : Accounts handle free frame handle' free' frame') {count : Nat}
    (hcard : free'.length + Multiset.card frame' ≤ free.length + Multiset.card frame + count) :
    handle'.file.pageCount ≤ handle.file.pageCount + count := by
  have hle := h.count_le
  have hids := congrArg Multiset.card h.ids_eq
  simp only [fresh, Multiset.card_add, Multiset.card_map, Multiset.coe_card, List.length_range'] at hids
  omega

theorem Moves.refl (h : FreePages handle free frame) : Moves handle free frame handle free frame :=
  ⟨h.accounts rfl rfl, rfl⟩

theorem Moves.trans (h : Moves handle free frame handle' free' frame')
    (h' : Moves handle' free' frame' handle'' free'' frame'') :
    Moves handle free frame handle'' free'' frame'' :=
  ⟨h.toAccounts.trans h'.toAccounts, h.same.trans h'.same⟩

theorem Loses.refl (h : FreePages handle free frame) : Loses handle frame handle :=
  ⟨⟨free, h⟩, Nat.le_refl _, rfl⟩

theorem Moves.loses (h : Moves handle free frame handle' free' frame') (h' : Loses handle' frame'' handle'') :
    Loses handle frame'' handle'' := ⟨h'.pages, Nat.le_trans h.count_le h'.count_le, h.same.trans h'.same⟩

theorem FreePages.weaken (h : FreePages handle free (frame + frame')) : FreePages handle free frame' where
  holds := h.holds.mono (add_le_add_right (Multiset.le_add_left _ _) _)
  pos := h.pos
  fits := h.fits
  freeHead_eq := h.freeHead_eq
  linked := h.linked

theorem Loses.weaken (h : Loses handle (frame + frame') handle') : Loses handle frame' handle' := by
  obtain ⟨⟨free, hpages⟩, hcount, hsame⟩ := h
  exact ⟨⟨free, hpages.weaken⟩, hcount, hsame⟩

/-! ### One page -/

def HeapHandle.nextPage (handle : HeapHandle) : Nat := handle.heap.freeHead.getD handle.file.pageCount

def Exhausted (handle : HeapHandle) (count : Nat) (error : Error) : Prop :=
  error = pageCountFault ∧ 2 ^ 64 - 1 < handle.file.pageCount + count

theorem Exhausted.mono {count count' : Nat} {error : Error} (h : Exhausted handle count error)
    (hle : count ≤ count') : Exhausted handle count' error :=
  ⟨h.1, Nat.lt_of_lt_of_le h.2 (Nat.add_le_add_left hle _)⟩

theorem FreePages.acquirePage (h : FreePages handle free frame) :
    Outcome (fun id handle' => id = handle.nextPage ∧
        ∃ page, Moves handle free frame handle' free.tail ({(id, page)} + frame))
      (fun error handle' => Exhausted handle 1 error ∧ handle' = handle)
      (HeapHandle.acquirePage handle) := by
  have hhead := h.freeHead_eq
  have hnextPage : handle.nextPage = (free.head?.map Prod.fst).getD handle.file.pageCount := by
    rw [HeapHandle.nextPage, hhead]
  rw [hnextPage]
  cases hfree : free with
  | nil =>
    rw [hfree] at hhead
    have hrun : HeapHandle.acquirePage handle =
        (do
          let taken ← HeapHandle.demand handle.file.allocatePage
          modify fun handle => { handle with file := taken.2 }
          pure taken.1 : HeapM Nat) handle := by
      unfold HeapHandle.acquirePage
      rw [get_bind_run, hhead]
      rfl
    rw [hrun]
    rcases h.holds.allocate h.pos with hfull | ⟨hallocate, page, hholds⟩
    · have hcount : handle.file.pageCount = 2 ^ 64 - 1 := by
        by_contra hne
        rw [PageFile.allocatePage, if_neg hne] at hfull
        cases hfull
      rw [hfull]
      exact ⟨⟨rfl, by omega⟩, rfl⟩
    · rw [hallocate]
      have hfull : handle.file.pageCount ≠ 2 ^ 64 - 1 := by
        intro heq
        rw [PageFile.allocatePage, if_pos heq] at hallocate
        cases hallocate
      have hfits := h.fits
      refine ⟨rfl, page, ⟨⟨?_, ?_, ?_, hhead, trivial⟩, Nat.le_succ _, ?_⟩, rfl⟩
      · apply hholds.of_eq
        rw [hfree, List.tail_nil]
        abel
      · exact Nat.succ_pos _
      · change handle.file.pageCount + 1 < 2 ^ 64
        omega
      · change _ = _ + fresh handle.file.pageCount (handle.file.pageCount + 1)
        rw [fresh_succ, List.tail_nil, add_left_comm, Multiset.map_add, Multiset.map_singleton, add_comm]
  | cons page free =>
    obtain ⟨id, area⟩ := page
    rw [hfree] at hhead
    obtain ⟨hempty, hnext, hrest⟩ : FreeLinked ((id, area) :: free) := hfree ▸ h.linked
    have hholds : Holds handle.file ({(id, area)} + ((free : Multiset (Nat × Area)) + frame)) := by
      apply h.holds.of_eq
      rw [hfree, cons_add]
    have hrun : HeapHandle.acquirePage handle =
        .ok id { handle with heap := { handle.heap with freeHead := free.head?.map Prod.fst } } := by
      unfold HeapHandle.acquirePage
      rw [get_bind_run, hhead]
      change (HeapHandle.loadPage id >>= _) handle = _
      rw [bind_of_ok hholds.loadPage_run]
      rw [if_neg (not_not.2 hempty)]
      dsimp only at hnext
      rw [hnext]
      rfl
    rw [hrun]
    refine ⟨rfl, area, ⟨⟨?_, h.pos, h.fits, rfl, hrest⟩, Nat.le_refl _, ?_⟩, rfl⟩
    · apply hholds.of_eq
      exact add_left_comm _ _ _
    · rw [fresh_self, add_zero, cons_add, List.tail_cons, add_left_comm]

/-! ### Giving pages back -/

variable [PageSize]

namespace SlottedPage

theorem valid_formatted : formatted.Valid := valid_create.withArea _

theorem signed_formatted : Signed formatted.area where
  magic := rfl
  version := .inl rfl

theorem slots_formatted : formatted.slots = [] := rfl

theorem sane_formatted {next previous : Option Nat} (hnext : next ≠ some 0 ∧ next.getD 0 < 2 ^ 64)
    (hprevious : previous ≠ some 0 ∧ previous.getD 0 < 2 ^ 64) :
    Sane { formatted with nextPage := next, previousPage := previous } where
  valid :=
    have h := @valid_formatted _
    ⟨h.boundary, h.freeEnd_le, h.generation, h.free, h.live, h.apart⟩
  signed := signed_formatted
  linkable := ⟨hnext, hprevious⟩

end SlottedPage

omit [PageSize] in
theorem link_none : (none : Option Nat) ≠ some 0 ∧ (none : Option Nat).getD 0 < 2 ^ 64 :=
  ⟨nofun, Nat.two_pow_pos 64⟩

omit [PageSize] in
theorem FreePages.link (h : FreePages handle free frame) {id : Nat} {page : Area}
    (hmem : (id, page) ∈ (free : Multiset (Nat × Area)) + frame) :
    (some id : Option Nat) ≠ some 0 ∧ (some id : Option Nat).getD 0 < 2 ^ 64 := by
  obtain ⟨hid, hread⟩ := h.holds.read (id, page) hmem
  exact ⟨fun heq => hid (Option.some.inj heq), Nat.lt_trans (lt_pageCount_of_read hread) h.fits⟩

omit [PageSize] in
theorem FreePages.freeHead_link (h : FreePages handle free frame) :
    handle.heap.freeHead ≠ some 0 ∧ handle.heap.freeHead.getD 0 < 2 ^ 64 := by
  have hhead := h.freeHead_eq
  cases hfree : free with
  | nil =>
    rw [hhead, hfree]
    exact link_none
  | cons page free =>
    rw [hhead, hfree]
    exact h.link (Multiset.mem_add.2 (.inl (hfree ▸ List.mem_cons_self)))

theorem FreePages.releasePage {id : Nat} {page : Area} (h : FreePages handle free ({(id, page)} + frame)) :
    ∃ handle' page', HeapHandle.releasePage id handle = .ok () handle' ∧
      Moves handle free ({(id, page)} + frame) handle' ((id, page') :: free) frame := by
  have hlink := h.freeHead_link
  have hsane := @SlottedPage.sane_formatted _ handle.heap.freeHead none hlink link_none
  generalize hfreed : ({ SlottedPage.formatted with
    nextPage := handle.heap.freeHead, previousPage := none } : SlottedPage) = freed at hsane
  have hnext : freed.nextPage = handle.heap.freeHead := by rw [← hfreed]
  have hslots : freed.slots = [] := by rw [← hfreed, SlottedPage.slots_formatted]
  have hholds : Holds handle.file ({(id, page)} + ((free : Multiset (Nat × Area)) + frame)) := by
    apply h.holds.of_eq
    exact add_left_comm _ _ _
  obtain ⟨file', hwrite, hholds', hcount⟩ := hholds.writePage_run freed.page
  have hset : SlottedPage.formatted.setNextPage handle.heap.freeHead = .ok freed := by
    rw [SlottedPage.setNextPage, if_neg hlink.1, ← hfreed]
    rfl
  have hrun : HeapHandle.releasePage id handle =
      .ok () { handle with file := file', heap := { handle.heap with freeHead := some id } } := by
    change (HeapHandle.demand (SlottedPage.formatted.setNextPage handle.heap.freeHead) >>= _) handle = _
    rw [hset, demand_ok_bind, bind_of_ok hwrite]
    rfl
  have himage := hsane.valid.fromTrustedPage_page hsane.linkable
  refine ⟨_, freed.page, hrun, ⟨⟨?_, ?_, ?_, rfl, ?_⟩, Nat.le_of_eq hcount.symm, ?_⟩, rfl⟩
  · apply hholds'.of_eq
    rw [cons_add]
  · change 0 < file'.pageCount
    rw [hcount]
    exact h.pos
  · change file'.pageCount < 2 ^ 64
    rw [hcount]
    exact h.fits
  · refine ⟨?_, ?_, h.linked⟩
    · dsimp only
      rw [himage, SlottedPage.recordCount, hslots]
      rfl
    · dsimp only
      rw [himage, hnext]
      exact h.freeHead_eq
  · change _ = _ + fresh handle.file.pageCount file'.pageCount
    rw [hcount, fresh_self, add_zero, cons_add]
    simp only [Multiset.map_add, Multiset.map_singleton]
    abel

theorem FreePages.releasePages {chain : List (Nat × Area)}
    (h : FreePages handle free ((chain : Multiset (Nat × Area)) + frame)) :
    ∃ handle' free', HeapHandle.releasePages (chain.map Prod.fst) handle = .ok () handle' ∧
      Moves handle free ((chain : Multiset (Nat × Area)) + frame) handle' free' frame := by
  induction chain generalizing handle free with
  | nil =>
    rw [Multiset.coe_nil, zero_add] at h
    refine ⟨handle, free, rfl, ?_⟩
    rw [Multiset.coe_nil, zero_add]
    exact .refl h
  | cons page rest ih =>
    rw [cons_add] at h ⊢
    obtain ⟨middle, page', hfirst, hmiddle⟩ := h.releasePage
    obtain ⟨handle', free, hrest, hafter⟩ := ih hmiddle.pages
    refine ⟨handle', free, ?_, hmiddle.trans hafter⟩
    change (HeapHandle.releasePage page.1 >>= _) handle = _
    rw [bind_of_ok hfirst]
    exact hrest

omit [PageSize] in
theorem FreePages.standing {chain : List (Nat × Area)}
    (h : FreePages handle free ((chain : Multiset (Nat × Area)) + frame)) :
    Standing handle.file chain := fun page hpage =>
  (h.holds.read page (Multiset.mem_add.2 (.inr (Multiset.mem_add.2 (.inl hpage))))).2

theorem FreePages.freeChain {chain : List (Nat × Area)} {data : Bytes} {first : Nat}
    (h : FreePages handle free ((chain : Multiset (Nat × Area)) + frame)) (hcarries : Carries chain data)
    (hfirst : chain.head?.map Prod.fst = some first) :
    ∃ handle' free', HeapHandle.freeChain first handle = .ok () handle' ∧
      Moves handle free ((chain : Multiset (Nat × Area)) + frame) handle' free' frame := by
  obtain ⟨handle', free', hrun, hmoves⟩ := h.releasePages
  refine ⟨handle', free', ?_, hmoves⟩
  change (HeapHandle.demand (Walk.visit overflowCycle (TableHeap.overflowTurn handle.file)
    (pageFuel handle.file) [] first ([], 0)) >>= _) handle = _
  rw [hcarries.visit h.standing hfirst, demand_ok_bind]
  exact hrun

omit [PageSize] in
theorem parseStored_inline (bytes : Bytes) : parseStored (recordTagInline :: bytes) = .ok none := by
  unfold parseStored
  rw [if_neg (List.cons_ne_nil _ _), List.head?_cons, if_pos rfl]

omit [PageSize] in
theorem parseStored_stub {total first : Nat} (htotal : total < 2 ^ 64) (hfirst : first < 2 ^ 64)
    (hne : first ≠ 0) :
    parseStored (recordTagOverflow :: (storeLe 8 total ++ storeLe 8 first)) = .ok (some ⟨total, first⟩) := by
  have hpower : (256 : Nat) ^ 8 = 2 ^ 64 := by decide
  have htotal' : loadLe (storeLe 8 total) = total := loadLe_storeLe_of_lt (hpower ▸ htotal)
  have hfirst' : loadLe (storeLe 8 first) = first := loadLe_storeLe_of_lt (hpower ▸ hfirst)
  have hlength : (recordTagOverflow :: (storeLe 8 total ++ storeLe 8 first)).length = overflowStubSize := by
    rw [List.length_cons, List.length_append, length_storeLe, length_storeLe]
    rfl
  have hnine : ((recordTagOverflow :: (storeLe 8 total ++ storeLe 8 first)).drop 9).take 8 =
      storeLe 8 first := by
    rw [List.drop_succ_cons, List.drop_left' (length_storeLe 8 _),
      List.take_of_length_le (Nat.le_of_eq (length_storeLe 8 _))]
  have hone : ((recordTagOverflow :: (storeLe 8 total ++ storeLe 8 first)).drop 1).take 8 =
      storeLe 8 total := by
    rw [List.drop_succ_cons, List.drop_zero, List.take_left' (length_storeLe 8 _)]
  unfold parseStored
  dsimp only
  rw [if_neg (List.cons_ne_nil _ _), List.head?_cons, if_neg (by decide),
    if_neg (not_or.2 ⟨not_not.2 rfl, not_not.2 hlength⟩), hnine, hone, hfirst', htotal', if_neg hne]

theorem FreePages.parseStored_eq {record : HeldRecord}
    (h : FreePages handle free ((record.chain : Multiset (Nat × Area)) + frame))
    (hvalid : record.Valid true) : parseStored (record.stored true) =
      .ok ((record.chain.head?.map Prod.fst).map fun first => ⟨record.bytes.length, first⟩) := by
  unfold HeldRecord.stored
  rw [if_pos rfl]
  cases hchain : record.chain with
  | nil => exact parseStored_inline record.bytes
  | cons page rest =>
    have hmem : (page.1, page.2) ∈ (free : Multiset (Nat × Area)) + (record.chain + frame) := by
      rw [hchain]
      exact Multiset.mem_add.2 (.inr (Multiset.mem_add.2 (.inl List.mem_cons_self)))
    obtain ⟨hne, hlt⟩ := h.link hmem
    exact parseStored_stub hvalid.length hlt fun hzero => hne (congrArg some hzero)

theorem FreePages.freeStored {record : HeldRecord}
    (h : FreePages handle free ((record.chain : Multiset (Nat × Area)) + frame))
    (hvalid : record.Valid handle.heap.tagged) :
    ∃ handle' free', HeapHandle.freeStored (record.stored handle.heap.tagged) handle = .ok () handle' ∧
      Moves handle free ((record.chain : Multiset (Nat × Area)) + frame) handle' free' frame ∧
      (record.chain = [] → handle' = handle) := by
  have hinline : record.chain = [] →
      Moves handle free ((record.chain : Multiset (Nat × Area)) + frame) handle free frame := by
    intro hchain
    rw [hchain, Multiset.coe_nil, zero_add] at h ⊢
    exact .refl h
  cases htagged : handle.heap.tagged with
  | false =>
    have hchain : record.chain = [] := by
      by_contra hne
      have htrue := (hvalid.carries hne).1
      rw [htagged] at htrue
      cases htrue
    refine ⟨handle, free, ?_, hinline hchain, fun _ => rfl⟩
    change (if ¬handle.heap.tagged = true then _ else _ : HeapM Unit) handle = _
    rw [htagged, if_pos (by decide)]
    rfl
  | true =>
    rw [htagged] at hvalid
    have hparse := h.parseStored_eq hvalid
    unfold HeapHandle.freeStored
    rw [get_bind_run, htagged, if_neg (by decide), hparse]
    cases hchain : record.chain with
    | nil =>
      rw [hchain] at hinline
      exact ⟨handle, free, rfl, hinline rfl, fun _ => rfl⟩
    | cons page rest =>
      rw [hchain] at h
      have hcarries := (hvalid.carries (by rw [hchain]; exact List.cons_ne_nil _ _)).2
      rw [hchain] at hcarries
      obtain ⟨handle', free', hrun, hmoves⟩ := h.freeChain hcarries rfl
      exact ⟨handle', free', hrun, hmoves, fun heq => absurd heq (List.cons_ne_nil _ _)⟩

theorem Moves.cleanup {record : HeldRecord}
    (h : Moves handle free frame handle' free' ((record.chain : Multiset (Nat × Area)) + frame))
    (hvalid : record.Valid handle.heap.tagged) :
    Loses handle frame (after (HeapHandle.freeStored (record.stored handle.heap.tagged) handle')) := by
  have htagged := h.same.tagged_eq
  rw [← htagged] at hvalid ⊢
  obtain ⟨final, free'', hrun, hfreed, -⟩ := h.pages.freeStored hvalid
  rw [hrun]
  exact ⟨⟨free'', hfreed.pages⟩, Nat.le_trans h.count_le hfreed.count_le, h.same.trans hfreed.same⟩

/-! ### Writing a chain -/

theorem overflowPageCapacity_pos : 0 < overflowPageCapacity :=
  Nat.sub_pos_of_lt (Nat.lt_trans (by decide) lt_pageSize)

theorem overflowPageCapacity_lt : overflowPageCapacity < 256 ^ 4 :=
  Nat.lt_of_le_of_lt (Nat.le_trans (Nat.sub_le _ _) PageSize.upper) (by decide)

omit [PageSize] in
theorem readArea_overflowImage {next : Option Nat} {data : Bytes} {k size : Nat}
    (h : k + size ≤ overflowPageHeaderSize + data.length) :
    readArea (HeapHandle.overflowImage next data) k size =
      ((overflowMagic ++ (storeLe 2 overflowFormatVersion ++ (storeLe 2 0 ++ (storeLe 8 (next.getD 0) ++
        (storeLe 4 data.length ++ (storeLe 4 0 ++ data)))))).drop k).take size := by
  have hinside := @readArea_copyTo_inside default 0 k size
    (overflowMagic ++ (storeLe 2 overflowFormatVersion ++ (storeLe 2 0 ++ (storeLe 8 (next.getD 0) ++
      (storeLe 4 data.length ++ (storeLe 4 0 ++ data)))))) (by
        simp only [List.length_append, length_storeLe]
        unfold overflowPageHeaderSize at h
        change k + size ≤ 4 + _
        omega)
  rw [Nat.zero_add] at hinside
  exact hinside

theorem validate_overflowImage {next : Option Nat} {data : Bytes}
    (hnext : next ≠ some 0 ∧ next.getD 0 < 2 ^ 64) (hpos : 0 < data.length)
    (hle : data.length ≤ overflowPageCapacity) :
    validateOverflowPage (HeapHandle.overflowImage next data) = .ok ⟨next, data.length⟩ ∧
      readArea (HeapHandle.overflowImage next data) overflowPageHeaderSize data.length = data := by
  have hfour : overflowMagic.length = 4 := rfl
  have hread : ∀ k size, k + size ≤ overflowPageHeaderSize →
      readArea (HeapHandle.overflowImage next data) k size =
        ((overflowMagic ++ (storeLe 2 overflowFormatVersion ++ (storeLe 2 0 ++ (storeLe 8 (next.getD 0) ++
          (storeLe 4 data.length ++ (storeLe 4 0 ++ data)))))).drop k).take size :=
    fun k size hk => readArea_overflowImage (Nat.le_trans hk (Nat.le_add_right _ _))
  have hmagic : readArea (HeapHandle.overflowImage next data) 0 4 = overflowMagic := by
    rw [hread 0 4 (by decide), List.drop_zero, List.take_left' hfour]
  have hversion : loadAt (HeapHandle.overflowImage next data) 4 2 = overflowFormatVersion := by
    rw [loadAt, hread 4 2 (by decide), List.drop_left' hfour, List.take_left' (length_storeLe 2 _),
      loadLe_storeLe_of_lt (by decide)]
  have hnext' : loadAt (HeapHandle.overflowImage next data) 8 8 = next.getD 0 := by
    rw [loadAt, hread 8 8 (by decide), show 8 = 4 + 2 + 2 from rfl, ← List.drop_drop, ← List.drop_drop,
      List.drop_left' hfour, List.drop_left' (length_storeLe 2 _), List.drop_left' (length_storeLe 2 _),
      List.take_left' (length_storeLe 8 _), loadLe_storeLe_of_lt hnext.2]
  have hlength : loadAt (HeapHandle.overflowImage next data) 16 4 = data.length := by
    rw [loadAt, hread 16 4 (by decide), show 16 = 4 + 2 + 2 + 8 from rfl, ← List.drop_drop,
      ← List.drop_drop, ← List.drop_drop, List.drop_left' hfour, List.drop_left' (length_storeLe 2 _),
      List.drop_left' (length_storeLe 2 _), List.drop_left' (length_storeLe 8 _),
      List.take_left' (length_storeLe 4 _),
      loadLe_storeLe_of_lt (Nat.lt_of_le_of_lt hle overflowPageCapacity_lt)]
  constructor
  · unfold validateOverflowPage
    dsimp only
    rw [if_neg (not_not.2 hmagic), hversion, if_neg (not_not.2 rfl), hlength,
      if_neg (not_or.2 ⟨Nat.ne_of_gt hpos, Nat.not_lt.2 hle⟩), hnext', optionalPageId_getD hnext.1]
  · rw [readArea_overflowImage (Nat.le_refl _), show overflowPageHeaderSize = 4 + 2 + 2 + 8 + 4 + 4 from rfl,
      ← List.drop_drop, ← List.drop_drop, ← List.drop_drop, ← List.drop_drop, ← List.drop_drop,
      List.drop_left' hfour, List.drop_left' (length_storeLe 2 _), List.drop_left' (length_storeLe 2 _),
      List.drop_left' (length_storeLe 8 _), List.drop_left' (length_storeLe 4 _),
      List.drop_left' (length_storeLe 4 _), List.take_length]

omit [PageSize] in
theorem FreePages.writePage {id : Nat} {page : Area} (h : FreePages handle free ({(id, page)} + frame))
    (page' : Area) : ∃ file, HeapHandle.writePage id page' handle = .ok () { handle with file := file } ∧
      Moves handle free ({(id, page)} + frame) { handle with file := file } free
        ({(id, page')} + frame) := by
  have hholds : Holds handle.file ({(id, page)} + ((free : Multiset (Nat × Area)) + frame)) := by
    apply h.holds.of_eq
    exact add_left_comm _ _ _
  obtain ⟨file', hwrite, hholds', hcount⟩ := hholds.writePage_run page'
  refine ⟨file', hwrite, ⟨⟨?_, ?_, ?_, h.freeHead_eq, h.linked⟩, Nat.le_of_eq hcount.symm, ?_⟩, rfl⟩
  · apply hholds'.of_eq
    exact add_left_comm _ _ _
  · change 0 < file'.pageCount
    rw [hcount]
    exact h.pos
  · change file'.pageCount < 2 ^ 64
    rw [hcount]
    exact h.fits
  · change _ = _ + fresh handle.file.pageCount file'.pageCount
    rw [hcount, fresh_self, add_zero]
    simp only [Multiset.map_add, Multiset.map_singleton]

omit [PageSize] in
theorem FreePages.acquirePages (h : FreePages handle free frame) (count : Nat) :
    Outcome (fun ids handle' => ∃ chain : List (Nat × Area), chain.map Prod.fst = ids ∧ chain.length = count ∧
        Moves handle free frame handle' (free.drop count) ((chain : Multiset (Nat × Area)) + frame))
      (fun error handle' => Exhausted handle count error ∧ Loses handle frame handle')
      (HeapHandle.acquirePages count handle) := by
  induction count generalizing handle free frame with
  | zero =>
    refine ⟨[], rfl, rfl, ?_⟩
    rw [Multiset.coe_nil, zero_add]
    exact .refl h
  | succ count ih =>
    unfold HeapHandle.acquirePages
    refine (h.acquirePage.mono (fun _ _ hok => hok) ?_).bind ?_
    · rintro error handle' ⟨hexhausted, rfl⟩
      exact ⟨hexhausted.mono (Nat.le_add_left 1 count), .refl h⟩
    · rintro id middle ⟨-, page, hfirst⟩
      have hone : middle.file.pageCount ≤ handle.file.pageCount + 1 := by
        apply hfirst.pageCount_le
        rw [List.length_tail, Multiset.card_add, Multiset.card_singleton]
        omega
      refine ((ih hfirst.pages).mono (fun _ _ hok => hok) ?_).bind ?_
      · rintro error handle' ⟨⟨herror, hfull⟩, hloses⟩
        exact ⟨⟨herror, by omega⟩, (hfirst.loses hloses).weaken⟩
      · rintro ids handle' ⟨chain, rfl, hlength, hrest⟩
        refine ⟨(id, page) :: chain, rfl, by rw [List.length_cons, hlength], ?_⟩
        rw [cons_add, add_left_comm]
        rw [List.drop_tail] at hrest
        exact hfirst.trans hrest

theorem FreePages.writePieces {chain : List (Nat × Area)} {data : Bytes}
    (h : FreePages handle free ((chain : Multiset (Nat × Area)) + frame))
    (hle : data.length ≤ chain.length * overflowPageCapacity)
    (hlt : chain.length * overflowPageCapacity < data.length + overflowPageCapacity) :
    ∃ handle', ∃ chain' : List (Nat × Area),
      HeapHandle.writePieces (chain.map Prod.fst) data handle = .ok () handle' ∧
      chain'.map Prod.fst = chain.map Prod.fst ∧ Carries chain' data ∧
      Moves handle free ((chain : Multiset (Nat × Area)) + frame) handle' free
        ((chain' : Multiset (Nat × Area)) + frame) := by
  induction chain generalizing handle data frame with
  | nil =>
    rw [List.length_nil, Nat.zero_mul] at hle
    exact ⟨handle, [], rfl, rfl, List.length_eq_zero_iff.1 (Nat.le_zero.1 hle), .refl h⟩
  | cons page rest ih =>
    obtain ⟨id, area⟩ := page
    have hpos := @overflowPageCapacity_pos _
    rw [List.length_cons, Nat.succ_mul] at hle hlt
    rw [cons_add] at h ⊢
    have hlink : (rest.map Prod.fst).head? ≠ some 0 ∧ (rest.map Prod.fst).head?.getD 0 < 2 ^ 64 := by
      cases rest with
      | nil => exact link_none
      | cons next rest =>
        apply @FreePages.link handle free _ h next.1 next.2
        exact Multiset.mem_add.2 (.inr (Multiset.mem_add.2 (.inr (Multiset.mem_add.2
          (.inl List.mem_cons_self)))))
    generalize hpiece : data.take overflowPageCapacity = piece
    have hlength : piece.length = min overflowPageCapacity data.length := by rw [← hpiece, List.length_take]
    have hrest : rest.length = 0 ∨ overflowPageCapacity ≤ rest.length * overflowPageCapacity :=
      (Nat.eq_zero_or_pos rest.length).imp_right fun hrest => Nat.le_mul_of_pos_left _ hrest
    obtain ⟨hvalidate, hread⟩ := validate_overflowImage hlink (show 0 < piece.length by omega)
      (show piece.length ≤ overflowPageCapacity by omega)
    generalize himage : HeapHandle.overflowImage (rest.map Prod.fst).head? piece = image at hvalidate hread
    obtain ⟨file, hwrite, hfirst⟩ := h.writePage image
    rw [add_left_comm {(id, image)}] at hfirst
    have hdrop : (data.drop overflowPageCapacity).length = data.length - overflowPageCapacity :=
      List.length_drop
    have hlast : rest.length * overflowPageCapacity <
        (data.drop overflowPageCapacity).length + overflowPageCapacity := by
      rcases hrest with hzero | hmore
      · rw [hzero, Nat.zero_mul]
        omega
      · omega
    obtain ⟨handle', chain', hrun, hids, hcarries, hwritten⟩ := ih hfirst.pages (by omega) hlast
    refine ⟨handle', (id, image) :: chain', ?_, ?_, ?_, ?_⟩
    · change (HeapHandle.writePage id (HeapHandle.overflowImage (rest.map Prod.fst).head?
        (data.take overflowPageCapacity)) >>= _) handle = _
      rw [hpiece, himage, bind_of_ok hwrite]
      exact hrun
    · rw [List.map_cons, List.map_cons, hids]
    · refine ⟨piece.length, ?_, by omega, ?_, ?_⟩
      · rw [← List.head?_map, hids]
        exact hvalidate
      · rw [hread, hlength, ← hpiece, List.take_eq_take_iff]
        omega
      · have htake : data.drop piece.length = data.drop overflowPageCapacity := by
          rcases Nat.le_total overflowPageCapacity data.length with hbig | hsmall
          · rw [hlength, Nat.min_eq_left hbig]
          · rw [hlength, Nat.min_eq_right hsmall, List.drop_of_length_le hsmall, List.drop_length]
        rw [htake]
        exact hcarries
    · rw [cons_add, add_left_comm {(id, image)}]
      exact hfirst.trans hwritten

def overflowPageCount (data : Bytes) : Nat := (data.length + overflowPageCapacity - 1) / overflowPageCapacity

theorem FreePages.writeChain (h : FreePages handle free frame) {data : Bytes} (hne : data ≠ []) :
    Outcome (fun first handle' => ∃ chain : List (Nat × Area), chain.head?.map Prod.fst = some first ∧
        chain.length = overflowPageCount data ∧ Carries chain data ∧
        Moves handle free frame handle' (free.drop (overflowPageCount data))
          ((chain : Multiset (Nat × Area)) + frame))
      (fun error handle' => Exhausted handle (overflowPageCount data) error ∧ Loses handle frame handle')
      (HeapHandle.writeChain data handle) := by
  have hpos := @overflowPageCapacity_pos _
  have hdata : 0 < data.length := List.length_pos_iff.2 hne
  unfold HeapHandle.writeChain overflowPageCount
  generalize hcount : (data.length + overflowPageCapacity - 1) / overflowPageCapacity = count
  have hdiv := Nat.div_add_mod (data.length + overflowPageCapacity - 1) overflowPageCapacity
  have hmod := Nat.mod_lt (data.length + overflowPageCapacity - 1) hpos
  rw [hcount, Nat.mul_comm] at hdiv
  refine (h.acquirePages count).bind ?_
  rintro ids middle ⟨chain, rfl, hlength, hacquired⟩
  obtain ⟨handle', chain', hrun, hids, hcarries, hwritten⟩ := hacquired.pages.writePieces
    (show data.length ≤ chain.length * overflowPageCapacity by rw [hlength]; omega)
    (by rw [hlength]; omega)
  rw [bind_of_ok hrun]
  have hchain : chain' ≠ [] := by
    rintro rfl
    exact hne hcarries
  have hsame := congrArg List.length hids
  rw [List.length_map, List.length_map, hlength] at hsame
  refine ⟨chain', ?_, hsame, hcarries, hacquired.trans hwritten⟩
  rw [← hids, ← List.head?_map, List.headD_eq_head?_getD]
  cases hcase : chain' with
  | nil => exact absurd hcase hchain
  | cons page rest => rfl

def storedLength (tagged : Bool) (record : Bytes) : Nat :=
  if tagged then
    if 1 + record.length ≤ slottedPageMaxRecordSize then 1 + record.length else overflowStubSize
  else record.length

def chainLength (tagged : Bool) (record : Bytes) : Nat :=
  if tagged ∧ slottedPageMaxRecordSize < 1 + record.length then overflowPageCount record else 0

/-- The record as it is stored: its bytes, and a chain of as many pages as they take. -/
structure HeldRecord.Keeps (tagged : Bool) (record : Bytes) (held : HeldRecord) : Prop where
  bytes_eq : held.bytes = record
  length_chain : held.chain.length = chainLength tagged record

def Overflows (tagged : Bool) (record : Bytes) : Prop :=
  tagged = true ∧ slottedPageMaxRecordSize < 1 + record.length

def Refused (tagged : Bool) (record : Bytes) : Prop :=
  record = [] ∨ (tagged = false ∧ slottedPageMaxRecordSize < record.length)

theorem FreePages.encodeStored (h : FreePages handle free frame) {record : Bytes}
    (hlength : record.length < 2 ^ 64) :
    Outcome (fun stored handle' => ∃ held : HeldRecord, held.Keeps handle.heap.tagged record ∧
        held.Valid handle.heap.tagged ∧ stored = held.stored handle.heap.tagged ∧ stored ≠ [] ∧
        stored.length = storedLength handle.heap.tagged record ∧
        Moves handle free frame handle' (free.drop (chainLength handle.heap.tagged record))
          ((held.chain : Multiset (Nat × Area)) + frame) ∧
        (held.chain = [] → handle' = handle))
      (fun error handle' => ((Exhausted handle (chainLength handle.heap.tagged record) error ∧
          Overflows handle.heap.tagged record) ∨ Refused handle.heap.tagged record) ∧ Loses handle frame handle')
      (HeapHandle.encodeStored record handle) := by
  have hinline : ∀ count, count = 0 → Moves handle free frame handle (free.drop count)
      ((([] : List (Nat × Area)) : Multiset (Nat × Area)) + frame) := by
    rintro count rfl
    rw [Multiset.coe_nil, zero_add]
    exact .refl h
  unfold HeapHandle.encodeStored
  rw [get_bind_run]
  split
  · rename_i hempty
    exact ⟨.inr (.inl hempty), .refl h⟩
  · rename_i hne
    cases htagged : handle.heap.tagged with
    | false =>
      rw [if_pos (by decide)]
      have hnone : chainLength false record = 0 := if_neg (by simp)
      split
      · rename_i hlarge
        exact ⟨.inr (.inr ⟨rfl, hlarge⟩), .refl h⟩
      · exact ⟨⟨record, []⟩, ⟨rfl, hnone.symm⟩, ⟨fun hchain => absurd rfl hchain, hlength⟩, rfl, hne, rfl,
          hinline _ hnone, fun _ => rfl⟩
    | true =>
      rw [if_neg (by decide)]
      unfold storedLength
      rw [if_pos rfl]
      split
      · rename_i hsmall
        have hnone : chainLength true record = 0 := if_neg (not_and.2 fun _ => Nat.not_lt.2 hsmall)
        exact ⟨⟨record, []⟩, ⟨rfl, hnone.symm⟩, ⟨fun hchain => absurd rfl hchain, hlength⟩, rfl,
          List.cons_ne_nil _ _, Nat.add_comm _ _, hinline _ hnone, fun _ => rfl⟩
      · rename_i hlarge
        have hchain : chainLength true record = overflowPageCount record := if_pos ⟨rfl, Nat.not_le.1 hlarge⟩
        refine ((h.writeChain hne).mono (fun _ _ hok => hok) ?_).bind ?_
        · rintro error handle' ⟨hexhausted, hloses⟩
          exact ⟨.inl ⟨hchain ▸ hexhausted, rfl, Nat.not_le.1 hlarge⟩, hloses⟩
        · rintro first handle' ⟨chain, hfirst, hcount, hcarries, hwritten⟩
          refine ⟨⟨record, chain⟩, ⟨rfl, hcount.trans hchain.symm⟩, ⟨fun _ => ⟨rfl, hcarries⟩, hlength⟩, ?_,
            List.cons_ne_nil _ _, ?_, hchain ▸ hwritten, ?_⟩
          · cases chain with
            | nil => cases hfirst
            | cons page rest =>
              cases hfirst
              rfl
          · rw [List.length_cons, List.length_append, length_storeLe, length_storeLe]
            rfl
          · intro hchain
            change chain = [] at hchain
            rw [hchain] at hfirst
            cases hfirst

end MoDb.Storage
