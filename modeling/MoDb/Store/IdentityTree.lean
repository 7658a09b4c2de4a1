import MoDb.Store.IdentityPages
import Mathlib.Tactic.Abel

/-!
# The tree of the identity map

What the pages of a map hold between two operations, and what finding and making a page of entries
leaves of it.
-/

namespace MoDb.Store.IdentityPages

open Storage Effect

/-! ### One page -/

section Bytes

variable {page page' : Area}

def HasHeader (page : Area) (magic : Bytes) (version : Nat) : Prop :=
  readArea page 0 4 = magic ∧ loadAt page 4 2 = version

theorem HasHeader.checkMagic {magic : Bytes} {version : Nat} (h : HasHeader page magic version)
    (what : String) : checkMagic page magic version what = .ok () := by
  unfold IdentityPages.checkMagic
  rw [if_neg (not_not.2 h.1), if_neg (not_not.2 h.2)]

theorem HasHeader.congr {magic : Bytes} {version : Nat} (h : HasHeader page magic version)
    (hsame : ∀ i < idmHeaderSize, page' i = page i) : HasHeader page' magic version := by
  constructor
  · exact (readArea_congr fun i _ hi => hsame i (Nat.lt_of_lt_of_le hi (by decide))).trans h.1
  · exact (congrArg loadLe (readArea_congr fun i _ hi =>
      hsame i (Nat.lt_of_lt_of_le hi (by decide)))).trans h.2

theorem storeAt_of_outside {offset width value i : Nat} (h : i < offset ∨ offset + width ≤ i) :
    storeAt page offset width value i = page i :=
  copyTo_of_outside (by rwa [length_storeLe])

theorem writeEntry_of_outside {index i : Nat} {entry : IdmpEntry}
    (h : i < entryOffset index ∨ entryOffset index + idmpEntrySize ≤ i) :
    writeEntry page index entry i = page i := by
  unfold writeEntry
  unfold idmpEntrySize at h
  iterate 10 rw [storeAt_of_outside (by omega)]

theorem readEntry_congr {index : Nat}
    (h : ∀ i, entryOffset index ≤ i → i < entryOffset index + idmpEntrySize → page i = page' i) :
    readEntry page index = readEntry page' index := by
  have hload : ∀ offset width, entryOffset index ≤ offset →
      offset + width ≤ entryOffset index + idmpEntrySize →
        loadAt page offset width = loadAt page' offset width := by
    intro offset width hlower hupper
    exact congrArg loadLe (readArea_congr fun i hi hi' =>
      h i (Nat.le_trans hlower hi) (Nat.lt_of_lt_of_le hi' hupper))
  unfold readEntry idmpEntrySize at *
  simp (disch := omega) only [hload]

theorem readEntry_writeEntry (page : Area) (index : Nat) (entry : IdmpEntry) :
    readEntry (writeEntry page index entry) index = entry := by
  have hstore64 (page : Area) (offset : Nat) (value : UInt64) :
      loadAt (storeAt page offset 8 value.toNat) offset 8 = value.toNat := loadAt_storeAt value.toNat_lt
  have hstore32 (page : Area) (offset : Nat) (value : UInt32) :
      loadAt (storeAt page offset 4 value.toNat) offset 4 = value.toNat := loadAt_storeAt value.toNat_lt
  have hstore16 (page : Area) (offset : Nat) (value : UInt16) :
      loadAt (storeAt page offset 2 value.toNat) offset 2 = value.toNat := loadAt_storeAt value.toNat_lt
  unfold readEntry writeEntry
  simp (disch := omega) only [loadAt_storeAt_of_disjoint, hstore64, hstore32, hstore16,
    UInt64.ofNat_toNat, UInt32.ofNat_toNat, UInt16.ofNat_toNat]

theorem readEntry_writeEntry_of_ne {index other : Nat} (h : other ≠ index) (entry : IdmpEntry) :
    readEntry (writeEntry page index entry) other = readEntry page other := by
  apply readEntry_congr
  intro i hlower hupper
  apply writeEntry_of_outside
  unfold entryOffset idmpEntrySize at *
  rcases Nat.lt_or_gt_of_ne h with hlt | hlt
  · have := Nat.mul_le_mul_right 48 (Nat.succ_le_of_lt hlt)
    omega
  · have := Nat.mul_le_mul_right 48 (Nat.succ_le_of_lt hlt)
    omega

theorem HasHeader.writeEntry {magic : Bytes} {version : Nat} (h : HasHeader page magic version)
    (index : Nat) (entry : IdmpEntry) :
    HasHeader (IdentityPages.writeEntry page index entry) magic version := by
  apply h.congr
  intro i hi
  exact writeEntry_of_outside (.inl (Nat.lt_of_lt_of_le hi (Nat.le_add_right _ _)))

theorem hasHeader_makeHeaderPage {magic : Bytes} (hmagic : magic.length = 4) {version : Nat}
    (hversion : version < 2 ^ 16) : HasHeader (makeHeaderPage magic version) magic version := by
  constructor
  · have hself := readArea_copyTo_self default 0 magic
    rw [hmagic] at hself
    unfold makeHeaderPage storeAt
    rw [readArea_copyTo_of_disjoint (.inl (Nat.le_refl 4)), hself]
  · exact loadAt_storeAt hversion

theorem makeHeaderPage_of_outside {magic : Bytes} (hmagic : magic.length = 4) (version : Nat) {i : Nat}
    (hi : 6 ≤ i) : makeHeaderPage magic version i = 0 := by
  unfold makeHeaderPage
  rw [storeAt_of_outside (.inr hi), copyTo_of_outside (.inr (by omega))]
  rfl

theorem loadAt_makeHeaderPage {magic : Bytes} (hmagic : magic.length = 4) (version : Nat)
    {offset : Nat} (h : 6 ≤ offset) (width : Nat) :
    loadAt (makeHeaderPage magic version) offset width = 0 := by
  have hzero : readArea (makeHeaderPage magic version) offset width = List.replicate width 0 := by
    apply List.eq_replicate_iff.2
    refine ⟨length_readArea _ _ _, fun byte hbyte => ?_⟩
    obtain ⟨i, _, rfl⟩ := List.mem_map.1 hbyte
    exact makeHeaderPage_of_outside hmagic version (Nat.le_trans h (Nat.le_add_right _ _))
  rw [loadAt, hzero, loadLe_replicate_zero]

theorem readEntry_makeHeaderPage (index : Nat) :
    readEntry (makeHeaderPage idmpMagic idmpVersion) index = {} := by
  have hload {offset : Nat} (width : Nat) (h : entryOffset index ≤ offset) :
      loadAt (makeHeaderPage idmpMagic idmpVersion) offset width = 0 :=
    loadAt_makeHeaderPage rfl _ (Nat.le_trans (Nat.le_trans (by decide) (Nat.le_add_right 16 _)) h) width
  unfold readEntry
  simp (disch := omega) only [hload]
  rfl

end Bytes

variable [PageSize]

/-! ### The tree -/

def idOf (page : Option (Nat × Area)) : Nat := (page.map Prod.fst).getD 0

/-- What a directory page holds: `leaf` are the pages of entries, `ordinal` its place in the chain. -/
structure Directory (leaf : Nat → Option (Nat × Area)) (ordinal next : Nat) (page : Area) : Prop where
  header : HasHeader page idmdMagic idmdVersion
  next : loadAt page nextDirOffset 8 = next
  pointer : ∀ slot < pointersPerIdmd, loadAt page (pointerOffset slot) dirPointerSize =
    idOf (leaf (ordinal * pointersPerIdmd + slot))

structure Tree (version root : Nat) (dirs : List (Nat × Area)) (leaf : Nat → Option (Nat × Area)) :
    Prop where
  root : ∃ page, dirs[0]? = some (root, page)
  directory : ∀ k dir, dirs[k]? = some dir → Directory leaf k (idOf dirs[k + 1]?) dir.2
  leaves : ∀ n idmp, leaf n = some idmp → HasHeader idmp.2 idmpMagic version
  past : ∀ n, dirs.length * pointersPerIdmd ≤ n → leaf n = none

def leafCount : Nat := 2 ^ 64

def leafPages (leaf : Nat → Option (Nat × Area)) : Multiset (Nat × Area) :=
  (Multiset.range leafCount).filterMap leaf

def otherLeaves (leaf : Nat → Option (Nat × Area)) (n : Nat) : Multiset (Nat × Area) :=
  ((Multiset.range leafCount).erase n).filterMap leaf

def treePages (dirs : List (Nat × Area)) (leaf : Nat → Option (Nat × Area)) : Multiset (Nat × Area) :=
  ↑dirs + leafPages leaf

section Leaves

omit [PageSize]

variable {leaf : Nat → Option (Nat × Area)} {n : Nat} {idmp : Nat × Area}

theorem cons_erase_leaves (hn : n < leafCount) :
    n ::ₘ (Multiset.range leafCount).erase n = Multiset.range leafCount :=
  Multiset.cons_erase (Multiset.mem_range.2 hn)

theorem leafPages_of_some (hn : n < leafCount) (h : leaf n = some idmp) :
    leafPages leaf = {idmp} + otherLeaves leaf n := by
  rw [leafPages, otherLeaves, ← cons_erase_leaves hn, Multiset.filterMap_cons_some _ _ _ h,
    cons_erase_leaves hn, Multiset.singleton_add]

theorem leafPages_of_none (hn : n < leafCount) (h : leaf n = none) :
    leafPages leaf = otherLeaves leaf n := by
  rw [leafPages, otherLeaves, ← cons_erase_leaves hn, Multiset.filterMap_cons_none _ _ h,
    cons_erase_leaves hn]

theorem filterMap_congr {f g : Nat → Option (Nat × Area)} {ns : Multiset Nat}
    (h : ∀ n ∈ ns, f n = g n) : ns.filterMap f = ns.filterMap g := by
  induction ns using Quotient.inductionOn with
  | h ns => exact congrArg Multiset.ofList (List.filterMap_congr h)

theorem leafPages_update (hn : n < leafCount) (idmp : Nat × Area) :
    leafPages (Function.update leaf n (some idmp)) = {idmp} + otherLeaves leaf n := by
  have hothers : otherLeaves (Function.update leaf n (some idmp)) n = otherLeaves leaf n := by
    apply filterMap_congr
    intro m hm
    apply Function.update_of_ne
    rintro rfl
    exact (Multiset.nodup_range leafCount).notMem_erase hm
  rw [leafPages_of_some hn (Function.update_self n (some idmp) leaf), hothers]

end Leaves

/-! ### Finding a page of entries -/

variable {tx : Bool} {file : PageFile Area} {frame : Multiset (Nat × Area)} {version root : Nat}
  {dirs : List (Nat × Area)} {leaf : Nat → Option (Nat × Area)}

omit [PageSize] in
theorem mem_dirs {k : Nat} {dir : Nat × Area} (hk : dirs[k]? = some dir) :
    (dir.1, dir.2) ∈ treePages dirs leaf + frame :=
  Multiset.mem_add.2 (.inl (Multiset.mem_add.2 (.inl (List.mem_of_getElem? hk))))

omit [PageSize] in
theorem mem_leaves {n : Nat} {idmp : Nat × Area} (hn : n < leafCount) (hleaf : leaf n = some idmp) :
    (idmp.1, idmp.2) ∈ treePages dirs leaf + frame :=
  Multiset.mem_add.2 (.inl (Multiset.mem_add.2 (.inr
    ((Multiset.mem_filterMap leaf _).2 ⟨n, Multiset.mem_range.2 hn, hleaf⟩))))

theorem Tree.nextDir (ht : Tree version root dirs leaf) (h : Held tx file (treePages dirs leaf + frame))
    {k : Nat} {dir : Nat × Area} (hk : dirs[k]? = some dir) :
    loadAt dir.2 nextDirOffset 8 = idOf dirs[k + 1]? ∧ (idOf dirs[k + 1]? = 0 ↔ dirs[k + 1]? = none) := by
  refine ⟨(ht.directory k dir hk).next, ?_⟩
  cases hnext : dirs[k + 1]? with
  | none => exact iff_of_true rfl rfl
  | some next => exact iff_of_false (h.read (mem_dirs hnext)).1 (Option.some_ne_none next)

theorem Tree.walk (ht : Tree version root dirs leaf) (h : Held tx file (treePages dirs leaf + frame))
    (steps : Nat) {k : Nat} {dir : Nat × Area} (hk : dirs[k]? = some dir) :
    walkDirectories steps dir.1 file = .ok (dirs[k + steps]?.map Prod.fst) file := by
  induction steps generalizing k dir with
  | zero =>
    rw [Nat.add_zero, hk]
    rfl
  | succ steps ih =>
    obtain ⟨hload, hzero⟩ := ht.nextDir h hk
    rw [walkDirectories, bind_of_ok (h.read (mem_dirs hk)).2]
    rw [hload, ite_run]
    cases hnext : dirs[k + 1]? with
    | none =>
      have hpast : dirs[k + (steps + 1)]? = none := by
        rw [List.getElem?_eq_none_iff] at hnext ⊢
        omega
      rw [if_pos (show idOf none = 0 from rfl), hpast]
      rfl
    | some next =>
      rw [hnext] at hzero
      rw [if_neg (mt hzero.1 (Option.some_ne_none next))]
      change walkDirectories steps next.1 file = _
      rw [ih hnext, Nat.add_right_comm, Nat.add_assoc]

theorem Tree.resolve (ht : Tree version root dirs leaf)
    (h : Held tx file (treePages dirs leaf + frame)) {n : Nat} (hn : n < leafCount) :
    resolveIdmp root n file = .ok ((leaf n).map Prod.fst) file := by
  obtain ⟨page, hroot⟩ := ht.root
  have hpos : 0 < pointersPerIdmd := pointersPerIdmd_pos
  have hwalk := ht.walk h (n / pointersPerIdmd) hroot
  rw [Nat.zero_add] at hwalk
  rw [resolveIdmp, bind_of_ok hwalk]
  cases hdir : dirs[n / pointersPerIdmd]? with
  | none =>
    have hpast : dirs.length * pointersPerIdmd ≤ n := by
      rw [List.getElem?_eq_none_iff] at hdir
      exact (Nat.le_div_iff_mul_le hpos).1 hdir
    rw [ht.past n hpast]
    rfl
  | some dir =>
    have hpointer := (ht.directory _ dir hdir).pointer _ (Nat.mod_lt n hpos)
    rw [Nat.div_add_mod'] at hpointer
    change (PageM.read dir.1 >>= _) file = _
    rw [bind_of_ok (h.read (mem_dirs hdir)).2]
    rw [hpointer]
    cases hleaf : leaf n with
    | none => rfl
    | some idmp =>
      have hid : idOf (some idmp) ≠ 0 := (h.read (mem_leaves hn hleaf)).1
      rw [if_neg hid]
      rfl

def entryAt (leaf : Nat → Option (Nat × Area)) (id : Nat) : IdmpEntry :=
  match leaf (id / entriesPerIdmp) with
  | none => {}
  | some idmp => readEntry idmp.2 (id % entriesPerIdmp)

theorem entryPage_lt (id : UInt64) : id.toNat / entriesPerIdmp < leafCount :=
  Nat.lt_of_le_of_lt (Nat.div_le_self _ _) id.toNat_lt

theorem Tree.locate (ht : Tree idmpVersion root dirs leaf)
    (h : Held tx file (treePages dirs leaf + frame)) (id : UInt64) :
    IdentityPages.locate root id file =
      match leaf (id.toNat / entriesPerIdmp) with
      | none => .error (IdentityMap.missing id.toNat) file
      | some idmp => .ok (idmp.1, idmp.2, entryAt leaf id.toNat) file := by
  rw [IdentityPages.locate, bind_of_ok (ht.resolve h (entryPage_lt id))]
  cases hleaf : leaf (id.toNat / entriesPerIdmp) with
  | none => rfl
  | some idmp =>
    change (PageM.read idmp.1 >>= _) file = _
    rw [bind_of_ok (h.read (mem_leaves (entryPage_lt id) hleaf)).2,
      (ht.leaves _ idmp hleaf).checkMagic, entryAt, hleaf]
    rfl

/-! ### Making a page of entries -/

/-- The file is full, and its pages still make a tree over the same pages of entries. -/
def TreeFull (version root : Nat) (leaf : Nat → Option (Nat × Area)) (tx : Bool)
    (frame : Multiset (Nat × Area)) (error : Error) (file : PageFile Area) : Prop :=
  error = pageCountFault ∧ file.pageCount = 2 ^ 64 - 1 ∧
    ∃ dirs, Tree version root dirs leaf ∧ Held tx file (treePages dirs leaf + frame)

theorem treeFull {error : Error} (h : FileFull (treePages dirs leaf + frame) tx error file)
    (ht : Tree version root dirs leaf) : TreeFull version root leaf tx frame error file :=
  ⟨h.1, h.2.1, dirs, ht, h.2.2⟩

omit [PageSize] in
theorem coe_set {k : Nat} (hk : k < dirs.length) (dir : Nat × Area) :
    (↑(dirs.set k dir) : Multiset (Nat × Area)) = {dir} + ↑(dirs.eraseIdx k) := by
  rw [Multiset.singleton_add, Multiset.cons_coe]
  exact Multiset.coe_eq_coe.2 (List.set_perm_cons_eraseIdx hk dir)

omit [PageSize] in
theorem coe_of_getElem? {k : Nat} {dir : Nat × Area} (hk : dirs[k]? = some dir) :
    (↑dirs : Multiset (Nat × Area)) = {dir} + ↑(dirs.eraseIdx k) := by
  obtain ⟨hlt, rfl⟩ := List.getElem?_eq_some_iff.1 hk
  rw [← coe_set hlt, List.set_getElem_self]

omit [PageSize] in
theorem idOf_set {k : Nat} {dir : Nat × Area} (hk : dirs[k]? = some dir) (page : Area) (j : Nat) :
    idOf (dirs.set k (dir.1, page))[j]? = idOf dirs[j]? := by
  by_cases hj : k = j
  · subst hj
    rw [List.getElem?_set_self (List.getElem?_eq_some_iff.1 hk).1, hk]
    rfl
  · rw [List.getElem?_set_ne hj]

theorem directory_new (ordinal : Nat) (hpast : ∀ n, ordinal * pointersPerIdmd ≤ n → leaf n = none) :
    Directory leaf ordinal 0 (makeHeaderPage idmdMagic idmdVersion) := by
  constructor
  · exact hasHeader_makeHeaderPage rfl (by decide)
  · exact loadAt_makeHeaderPage rfl _ (by decide) _
  · intro slot _
    rw [hpast _ (Nat.le_add_right _ _)]
    exact loadAt_makeHeaderPage rfl _ (Nat.le_trans (by decide) (Nat.le_add_right 16 _)) _

theorem Directory.setNext {ordinal next : Nat} {page : Area} (h : Directory leaf ordinal next page)
    {newDir : Nat} (hnew : newDir < 2 ^ 64) :
    Directory leaf ordinal newDir (storeAt page nextDirOffset 8 newDir) := by
  constructor
  · constructor
    · unfold storeAt
      rw [readArea_copyTo_of_disjoint (.inl (by decide))]
      exact h.header.1
    · rw [loadAt_storeAt_of_disjoint (.inl (by decide))]
      exact h.header.2
  · exact loadAt_storeAt hnew
  · intro slot hslot
    rw [loadAt_storeAt_of_disjoint (.inr (Nat.le_add_right 16 _))]
    exact h.pointer slot hslot

theorem Tree.extended (ht : Tree version root dirs leaf) {last : Nat × Area} {k : Nat}
    (hk : dirs[k]? = some last) (hlast : dirs[k + 1]? = none) {newDir : Nat} (hnew : newDir < 2 ^ 64) :
    Tree version root (dirs.set k (last.1, storeAt last.2 nextDirOffset 8 newDir) ++
      [(newDir, makeHeaderPage idmdMagic idmdVersion)]) leaf := by
  have hlt := (List.getElem?_eq_some_iff.1 hk).1
  have hlength : dirs.length = k + 1 :=
    Nat.le_antisymm (List.getElem?_eq_none_iff.1 hlast) hlt
  have hset (page : Area) : (dirs.set k (last.1, page)).length = k + 1 := by
    rw [List.length_set, hlength]
  constructor
  · obtain ⟨page, hroot⟩ := ht.root
    rw [List.getElem?_append_left (by rw [hset]; exact Nat.succ_pos k)]
    cases k with
    | zero =>
      obtain rfl : last = (root, page) := Option.some.inj (hk.symm.trans hroot)
      exact ⟨_, List.getElem?_set_self hlt⟩
    | succ k => exact ⟨page, by rw [List.getElem?_set_ne (Nat.succ_ne_zero k), hroot]⟩
  · intro j dir hj
    rcases Nat.lt_trichotomy j k with hjk | rfl | hjk
    · rw [List.getElem?_append_left (by rw [hset]; omega), List.getElem?_set_ne (Nat.ne_of_gt hjk)] at hj
      rw [List.getElem?_append_left (by rw [hset]; omega), idOf_set hk]
      exact ht.directory j dir hj
    · rw [List.getElem?_append_left (by rw [hset]; omega), List.getElem?_set_self hlt] at hj
      rw [List.getElem?_append_right (by rw [hset]), hset, Nat.sub_self]
      obtain rfl := Option.some.inj hj
      exact (ht.directory j last hk).setNext hnew
    · rw [List.getElem?_append_right (by rw [hset]; omega), hset] at hj
      obtain ⟨hzero, rfl⟩ := List.getElem?_eq_some_iff.1 hj
      have hjk' : j = k + 1 := by
        rw [List.length_singleton] at hzero
        omega
      rw [List.getElem?_eq_none (by rw [List.length_append, hset, List.length_singleton]; omega)]
      rw [List.getElem_singleton, hjk', ← hlength]
      exact directory_new _ ht.past
  · exact ht.leaves
  · intro n hn
    apply ht.past n (Nat.le_trans (Nat.mul_le_mul_right _ _) hn)
    rw [List.length_append, hset, hlength]
    exact Nat.le_succ _

omit [PageSize] in
theorem treePages_dir {k : Nat} {dir : Nat × Area} (hk : dirs[k]? = some dir)
    (more : Multiset (Nat × Area)) : more + (treePages dirs leaf + frame) =
      {(dir.1, dir.2)} + (more + (↑(dirs.eraseIdx k) + leafPages leaf + frame)) := by
  rw [treePages, coe_of_getElem? hk]
  abel

omit [PageSize] in
theorem treePages_extended {k : Nat} (hk : k < dirs.length) (dir newDir : Nat × Area)
    (frame : Multiset (Nat × Area)) :
    {dir} + ({newDir} + (↑(dirs.eraseIdx k) + leafPages leaf + frame)) =
      treePages (dirs.set k dir ++ [newDir]) leaf + frame := by
  rw [treePages, ← Multiset.coe_add, coe_set hk, Multiset.coe_singleton]
  abel

theorem Tree.extend (ht : Tree version root dirs leaf) (h : Held tx file (treePages dirs leaf + frame))
    (steps : Nat) {k : Nat} {dir : Nat × Area} (hk : dirs[k]? = some dir) :
    Outcome (fun current file' => ∃ dirs', Tree version root dirs' leaf ∧
        Held tx file' (treePages dirs' leaf + frame) ∧ dirs'[k + steps]?.map Prod.fst = some current)
      (fun error file' => dirs.length ≤ k + steps ∧ TreeFull version root leaf tx frame error file')
      (extendDirectories steps dir.1 file) := by
  induction steps generalizing k dir dirs file with
  | zero => exact ⟨dirs, ht, h, by rw [Nat.add_zero, hk]; rfl⟩
  | succ steps ih =>
    obtain ⟨hload, hzero⟩ := ht.nextDir h hk
    rw [extendDirectories, bind_of_ok (h.read (mem_dirs hk)).2]
    rw [hload, ite_run]
    cases hnext : dirs[k + 1]? with
    | none =>
      have hlt := (List.getElem?_eq_some_iff.1 hk).1
      have hlength := Nat.le_antisymm (List.getElem?_eq_none_iff.1 hnext) hlt
      have hshort : dirs.length ≤ k + (steps + 1) := by omega
      rw [if_pos (show idOf none = 0 from rfl)]
      apply (h.allocate.mono (fun _ _ h => h) fun error file' hfull =>
        ⟨hshort, treeFull hfull ht⟩).bind
      rintro newDir file₁ ⟨page, h₁⟩
      obtain ⟨file₂, hheader, h₂⟩ := h₁.write (makeHeaderPage idmdMagic idmdVersion)
      have hnew : newDir < 2 ^ 64 := h₂.id_lt (Multiset.mem_add.2 (.inl (Multiset.mem_singleton_self _)))
      obtain ⟨file₃, hlink, h₃⟩ := (h₂.of_eq (treePages_dir hk _)).write
        (storeAt dir.2 nextDirOffset 8 newDir)
      have hnewest : (dirs.set k (dir.1, storeAt dir.2 nextDirOffset 8 newDir) ++
          [(newDir, makeHeaderPage idmdMagic idmdVersion)])[k + 1]? =
            some (newDir, makeHeaderPage idmdMagic idmdVersion) := by
        rw [List.getElem?_append_right (by rw [List.length_set, hlength]), List.length_set, hlength,
          Nat.sub_self]
        rfl
      have hrest := ih (ht.extended hk hnext hnew) (h₃.of_eq (treePages_extended hlt _ _ _)) hnewest
      rw [Nat.add_right_comm, Nat.add_assoc] at hrest
      rw [bind_of_ok hheader, bind_of_ok hlink]
      exact hrest.mono (fun _ _ h => h) fun error file' hfault => ⟨hshort, hfault.2⟩
    | some next =>
      rw [hnext] at hzero
      rw [if_neg (mt hzero.1 (Option.some_ne_none next))]
      have hrest := ih ht h hnext
      rwa [Nat.add_right_comm, Nat.add_assoc] at hrest

theorem idmp_place {j slot n : Nat} (hslot : slot < pointersPerIdmd) :
    j * pointersPerIdmd + slot = n ↔ j = n / pointersPerIdmd ∧ slot = n % pointersPerIdmd := by
  constructor
  · rintro rfl
    rw [Nat.mul_comm, Nat.mul_add_div pointersPerIdmd_pos, Nat.div_eq_of_lt hslot, Nat.mul_add_mod,
      Nat.mod_eq_of_lt hslot]
    exact ⟨rfl, rfl⟩
  · rintro ⟨rfl, rfl⟩
    exact Nat.div_add_mod' n pointersPerIdmd

theorem Directory.setPointer {j next n : Nat} {page : Area} (h : Directory leaf j next page)
    (hj : j = n / pointersPerIdmd) {idmp : Nat × Area} (hid : idmp.1 < 2 ^ 64) :
    Directory (Function.update leaf n (some idmp)) j next
      (storeAt page (pointerOffset (n % pointersPerIdmd)) dirPointerSize idmp.1) := by
  have hpast : idmHeaderSize ≤ pointerOffset (n % pointersPerIdmd) := Nat.le_add_right _ _
  constructor
  · apply h.header.congr
    intro i hi
    exact storeAt_of_outside (.inl (Nat.lt_of_lt_of_le hi hpast))
  · rw [loadAt_storeAt_of_disjoint (.inl hpast)]
    exact h.next
  · intro slot hslot
    by_cases hsame : slot = n % pointersPerIdmd
    · rw [(idmp_place hslot).2 ⟨hj, hsame⟩, Function.update_self, hsame, loadAt_storeAt hid]
      rfl
    · rw [Function.update_of_ne (fun heq => hsame ((idmp_place hslot).1 heq).2), ← h.pointer slot hslot]
      apply loadAt_storeAt_of_disjoint
      unfold pointerOffset dirPointerSize
      omega

theorem Directory.update {j next n : Nat} {page : Area} (h : Directory leaf j next page)
    (hj : j ≠ n / pointersPerIdmd) (idmp : Nat × Area) :
    Directory (Function.update leaf n (some idmp)) j next page := by
  refine ⟨h.header, h.next, fun slot hslot => ?_⟩
  rw [Function.update_of_ne (fun heq => hj ((idmp_place hslot).1 heq).1)]
  exact h.pointer slot hslot

theorem Tree.put (ht : Tree version root dirs leaf) {n : Nat} {dir : Nat × Area}
    (hdir : dirs[n / pointersPerIdmd]? = some dir) {idmp : Nat × Area} (hid : idmp.1 < 2 ^ 64)
    (hheader : HasHeader idmp.2 idmpMagic version) :
    Tree version root (dirs.set (n / pointersPerIdmd)
        (dir.1, storeAt dir.2 (pointerOffset (n % pointersPerIdmd)) dirPointerSize idmp.1))
      (Function.update leaf n (some idmp)) := by
  have hlt := (List.getElem?_eq_some_iff.1 hdir).1
  constructor
  · obtain ⟨page, hroot⟩ := ht.root
    by_cases hzero : n / pointersPerIdmd = 0
    · rw [hzero] at hdir hlt ⊢
      obtain rfl : dir = (root, page) := Option.some.inj (hdir.symm.trans hroot)
      exact ⟨_, List.getElem?_set_self hlt⟩
    · exact ⟨page, by rw [List.getElem?_set_ne hzero, hroot]⟩
  · intro j other hj
    rw [idOf_set hdir]
    by_cases hplace : n / pointersPerIdmd = j
    · subst hplace
      rw [List.getElem?_set_self hlt] at hj
      obtain rfl := Option.some.inj hj
      exact (ht.directory _ dir hdir).setPointer rfl hid
    · rw [List.getElem?_set_ne hplace] at hj
      exact (ht.directory j other hj).update (Ne.symm hplace) idmp
  · intro m found hfound
    by_cases hm : m = n
    · rw [hm, Function.update_self] at hfound
      obtain rfl := Option.some.inj hfound
      exact hheader
    · rw [Function.update_of_ne hm] at hfound
      exact ht.leaves m found hfound
  · intro m hm
    rw [List.length_set] at hm
    have hne : m ≠ n := by
      rintro rfl
      exact Nat.not_le.2 hlt ((Nat.le_div_iff_mul_le pointersPerIdmd_pos).2 hm)
    rw [Function.update_of_ne hne, ht.past m hm]

theorem Tree.rewrite (ht : Tree version root dirs leaf) {n : Nat} {idmp : Nat × Area}
    (hleaf : leaf n = some idmp) {page : Area} (hheader : HasHeader page idmpMagic version) :
    Tree version root dirs (Function.update leaf n (some (idmp.1, page))) := by
  have hid (m : Nat) : idOf (Function.update leaf n (some (idmp.1, page)) m) = idOf (leaf m) := by
    by_cases hm : m = n
    · rw [hm, Function.update_self, hleaf]
      rfl
    · rw [Function.update_of_ne hm]
  refine ⟨ht.root, fun j dir hj => ?_, fun m found hfound => ?_, fun m hm => ?_⟩
  · obtain ⟨hdir, hnext, hpointer⟩ := ht.directory j dir hj
    exact ⟨hdir, hnext, fun slot hslot => by rw [hid, hpointer slot hslot]⟩
  · by_cases hm : m = n
    · rw [hm, Function.update_self] at hfound
      obtain rfl := Option.some.inj hfound
      exact hheader
    · rw [Function.update_of_ne hm] at hfound
      exact ht.leaves m found hfound
  · have hne : m ≠ n := by
      rintro rfl
      rw [ht.past m hm] at hleaf
      exact Option.some_ne_none idmp hleaf.symm
    rw [Function.update_of_ne hne, ht.past m hm]

theorem Tree.writePage (ht : Tree version root dirs leaf)
    (h : Held tx file (treePages dirs leaf + frame)) {n : Nat} (hn : n < leafCount)
    {idmp : Nat × Area} (hleaf : leaf n = some idmp) {page : Area}
    (hheader : HasHeader page idmpMagic version) :
    ∃ file', PageM.write idmp.1 page file = .ok () file' ∧
      Tree version root dirs (Function.update leaf n (some (idmp.1, page))) ∧
      Held tx file' (treePages dirs (Function.update leaf n (some (idmp.1, page))) + frame) := by
  have hpages : treePages dirs leaf + frame =
      {(idmp.1, idmp.2)} + (↑dirs + otherLeaves leaf n + frame) := by
    rw [treePages, leafPages_of_some hn hleaf]
    abel
  obtain ⟨file', hwrite, h'⟩ := (h.of_eq hpages).write page
  refine ⟨file', hwrite, ht.rewrite hleaf hheader, h'.of_eq ?_⟩
  rw [treePages, leafPages_update hn]
  abel

theorem Tree.ensure (ht : Tree idmpVersion root dirs leaf)
    (h : Held tx file (treePages dirs leaf + frame)) {n : Nat} (hn : n < leafCount) :
    Outcome (fun id file' => ∃ dirs' page, Tree idmpVersion root dirs' (Function.update leaf n (some (id, page))) ∧
        Held tx file' (treePages dirs' (Function.update leaf n (some (id, page))) + frame) ∧
        (leaf n = some (id, page) ∨ leaf n = none ∧ page = makeHeaderPage idmpMagic idmpVersion))
      (fun error file' => leaf n = none ∧ TreeFull idmpVersion root leaf tx frame error file')
      (ensureIdmp root n file) := by
  obtain ⟨page, hroot⟩ := ht.root
  have hextend := ht.extend h (n / pointersPerIdmd) hroot
  rw [Nat.zero_add] at hextend
  have hshort (hlength : dirs.length ≤ n / pointersPerIdmd) : leaf n = none :=
    ht.past n ((Nat.le_div_iff_mul_le pointersPerIdmd_pos).1 hlength)
  apply (hextend.mono (fun _ _ h => h) fun error file' hfault => ⟨hshort hfault.1, hfault.2⟩).bind
  rintro current file₁ ⟨dirs', ht', h', hcurrent⟩
  obtain ⟨dir, hdir, rfl⟩ := Option.map_eq_some_iff.1 hcurrent
  have hpointer := (ht'.directory _ dir hdir).pointer _ (Nat.mod_lt n pointersPerIdmd_pos)
  rw [Nat.div_add_mod'] at hpointer
  rw [bind_of_ok (h'.read (mem_dirs hdir)).2]
  rw [hpointer, ite_run]
  cases hleaf : leaf n with
  | none =>
    rw [if_pos (show idOf none = 0 from rfl)]
    apply (h'.allocate.mono (fun _ _ h => h) fun error file' hfull =>
      ⟨rfl, treeFull hfull ht'⟩).bind
    rintro newIdmp file₂ ⟨page, h₂⟩
    obtain ⟨file₃, hheader, h₃⟩ := h₂.write (makeHeaderPage idmpMagic idmpVersion)
    have hnew : newIdmp < 2 ^ 64 := h₃.id_lt (Multiset.mem_add.2 (.inl (Multiset.mem_singleton_self _)))
    obtain ⟨file₄, hlink, h₄⟩ := (h₃.of_eq (treePages_dir hdir _)).write
      (storeAt dir.2 (pointerOffset (n % pointersPerIdmd)) dirPointerSize newIdmp)
    rw [bind_of_ok hheader, bind_of_ok hlink]
    refine ⟨_, makeHeaderPage idmpMagic idmpVersion,
      @Tree.put _ _ _ _ _ ht' n dir hdir (newIdmp, makeHeaderPage idmpMagic idmpVersion) hnew
        (hasHeader_makeHeaderPage rfl (by decide)), h₄.of_eq ?_, .inr ⟨rfl, rfl⟩⟩
    rw [treePages, leafPages_update hn, leafPages_of_none hn hleaf,
      coe_set (List.getElem?_eq_some_iff.1 hdir).1]
    abel
  | some idmp =>
    have hid : idOf (some idmp) ≠ 0 := (h'.read (mem_leaves hn hleaf)).1
    have hsame : Function.update leaf n (some (idmp.1, idmp.2)) = leaf := by
      rw [← hleaf, Function.update_eq_self]
    rw [if_neg hid]
    refine ⟨dirs', idmp.2, ?_, ?_, .inl rfl⟩
    · rw [show idOf (some idmp) = idmp.1 from rfl, hsame]
      exact ht'
    · rw [show idOf (some idmp) = idmp.1 from rfl, hsame]
      exact h'

end MoDb.Store.IdentityPages
