import MoDb.Store.IdentityRefines

/-!
# Version 1 of the identity map

`migrate_v1` goes through the entries of a map of version 1 in the order of their ids and writes each one
that is allocated to its place in a new map, which is another page at another index.
-/

namespace MoDb.Store.IdentityPages

open Storage Effect

variable [PageSize]

/-! ### The source -/

/-- An entry of version 1 goes to its place in the new map, if it is allocated. -/
def migrateEntry (migrated : Nat) (id : UInt64) (old : LegacyEntry) : PageM Unit :=
  if ¬old.allocated then pure ()
  else do
    let idmpId ← ensureIdmp migrated (id.toNat / entriesPerIdmp)
    let page ← PageM.read idmpId
    PageM.write idmpId (writeEntry page (id.toNat % entriesPerIdmp)
      { page := old.page, slot := old.slot, generation := old.generation, flags := old.flags })

/-- The loop over the entries of a page, from `index` on. -/
def migrateEntries (migrated pageOrdinal : Nat) (legacy : Area) : Nat → Nat → PageM Unit
  | 0, _ => pure ()
  | remaining + 1, index => do
    migrateEntry migrated (.ofNat (pageOrdinal * legacyEntriesPerIdmp + index))
      (readLegacyEntry legacy index)
    migrateEntries migrated pageOrdinal legacy remaining (index + 1)

def migratePage (migrated pageOrdinal pointer : Nat) : PageM Unit :=
  if pointer = 0 then pure ()
  else do
    let legacy ← PageM.read pointer
    PageM.check (checkMagic legacy idmpMagic legacyIdmpVersion "legacy entries")
    migrateEntries migrated pageOrdinal legacy legacyEntriesPerIdmp 0

/-- The loop over the pointers of a directory, from `slot` on. -/
def migrateSlots (migrated directoryOrdinal : Nat) (directory : Area) : Nat → Nat → PageM Unit
  | 0, _ => pure ()
  | remaining + 1, slot => do
    migratePage migrated (directoryOrdinal * pointersPerIdmd + slot)
      (loadAt directory (pointerOffset slot) dirPointerSize)
    migrateSlots migrated directoryOrdinal directory remaining (slot + 1)

/-- The loop over the directories, which counts them to find a cycle. `fuel` bounds the count. -/
def migrateDirectories (migrated : Nat) : Nat → Nat → Nat → PageM Unit
  | 0, _, _ => throw ⟨.corruptPage, "identity map directory cycle detected"⟩
  | fuel + 1, directoryOrdinal, current => do
    let pageCount ← PageM.pageCount
    if pageCount ≤ directoryOrdinal then
      throw ⟨.corruptPage, "identity map directory cycle detected"⟩
    else do
      let directory ← PageM.read current
      PageM.check (checkMagic directory idmdMagic idmdVersion "directory")
      migrateSlots migrated directoryOrdinal directory pointersPerIdmd 0
      let next := loadAt directory nextDirOffset 8
      if next = 0 then pure () else migrateDirectories migrated fuel (directoryOrdinal + 1) next

/-- `IdentityMap::migrate_v1`. -/
def migrateV1 (directoryRoot : Nat) : PageM Nat := do
  let migrated ← create
  migrateDirectories migrated (2 ^ 64) 0 directoryRoot
  pure migrated

/-! ### What version 1 says -/

/-- What an entry of version 1 says of the object: it was there from the first epoch on. -/
def LegacyEntry.entry (entry : LegacyEntry) : Option (Entry RecordId) :=
  if entry.allocated then
    some
      { current :=
          if entry.flags &&& flagRemoved ≠ 0 then none
          else some ⟨entry.page, entry.slot, entry.generation⟩
        currentEpoch := 0 }
  else none

def legacyMap (leaf : Nat → Option (Nat × Area)) : IdentityMap RecordId := fun id =>
  match leaf (id / legacyEntriesPerIdmp) with
  | none => none
  | some idmp => (readLegacyEntry idmp.2 (id % legacyEntriesPerIdmp)).entry

/-- A map of version 1: each page of entries and each entry is that of an id. -/
structure LegacyTree (root : Nat) (dirs : List (Nat × Area)) (leaf : Nat → Option (Nat × Area)) :
    Prop where
  tree : Tree legacyIdmpVersion root dirs leaf
  page_lt : ∀ n, leaf n ≠ none → n * legacyEntriesPerIdmp < 2 ^ 64
  id_lt : ∀ id, legacyMap leaf id ≠ none → id < 2 ^ 64

/-- The entries of the ids below `bound`. -/
def upTo (bound : Nat) (map : IdentityMap RecordId) : IdentityMap RecordId := fun id =>
  if id < bound then map id else none

section UpTo

omit [PageSize]

variable {map : IdentityMap RecordId}

theorem upTo_zero (map : IdentityMap RecordId) : upTo 0 map = fun _ => none := by
  funext id
  exact if_neg (Nat.not_lt_zero id)

theorem upTo_succ (bound : Nat) (map : IdentityMap RecordId) :
    upTo (bound + 1) map = Function.update (upTo bound map) bound (map bound) := by
  funext id
  unfold upTo
  by_cases hid : id = bound
  · rw [hid, Function.update_self, if_pos (Nat.lt_succ_self bound)]
  · rw [Function.update_of_ne hid]
    by_cases hlt : id < bound
    · rw [if_pos (Nat.lt_succ_of_lt hlt), if_pos hlt]
    · rw [if_neg fun hsucc => (Nat.lt_succ_iff_lt_or_eq.1 hsucc).elim hlt hid, if_neg hlt]

theorem upTo_of_none {bound bound' : Nat} (hle : bound ≤ bound')
    (h : ∀ id, bound ≤ id → id < bound' → map id = none) : upTo bound map = upTo bound' map := by
  funext id
  unfold upTo
  by_cases hlt : id < bound
  · rw [if_pos hlt, if_pos (Nat.lt_of_lt_of_le hlt hle)]
  · rw [if_neg hlt]
    split
    · rename_i hlt'
      exact (h id (Nat.not_lt.1 hlt) hlt').symm
    · rfl

theorem upTo_of_past {bound : Nat} (h : ∀ id, bound ≤ id → map id = none) : upTo bound map = map := by
  funext id
  unfold upTo
  split
  · rfl
  · rename_i hnot
    exact (h id (Nat.not_lt.1 hnot)).symm

end UpTo

/-! ### The loops -/

variable {tx : Bool} {file : PageFile Area} {frame : Multiset (Nat × Area)} {root migrated : Nat}
  {dirs : List (Nat × Area)} {leaf : Nat → Option (Nat × Area)} {map : IdentityMap RecordId}

def NoRoom (error : Error) (file : PageFile Area) : Prop :=
  error = pageCountFault ∧ file.pageCount = 2 ^ 64 - 1

omit [PageSize] in
theorem entry_migrated (old : LegacyEntry) :
    IdmpEntry.entry
      { page := old.page, slot := old.slot, generation := old.generation, flags := old.flags } =
        old.entry := by
  unfold IdmpEntry.entry LegacyEntry.entry IdmpEntry.removed
  by_cases hallocated : old.allocated
  · rw [if_pos hallocated]
    refine (if_pos hallocated).trans ?_
    simp [IdmpEntry.hasPrevious, IdmpEntry.record]
  · rw [if_neg hallocated]
    exact if_neg hallocated

theorem HoldMap.held (h : HoldMap tx frame migrated map file) : Held tx file frame := by
  obtain ⟨dirs, leaf, _, hheld, _⟩ := h
  exact hheld.mono (Multiset.le_add_left _ _)

theorem HoldMap.migrateEntry (h : HoldMap tx frame migrated map file) (id : UInt64) (old : LegacyEntry)
    (hfree : map id.toNat = none) :
    Outcome (fun _ file' => HoldMap tx frame migrated (Function.update map id.toNat old.entry) file')
      NoRoom (IdentityPages.migrateEntry migrated id old file) := by
  unfold IdentityPages.migrateEntry
  by_cases hallocated : old.allocated
  · obtain ⟨dirs, leaf, ht, hheld, rfl⟩ := h
    rw [if_neg (not_not.2 hallocated)]
    apply ((outcome_ensure ht hheld id).mono (fun _ _ h => h) fun error file' hfault =>
      hfault.2.1).bind
    rintro idmpId file₁ ⟨dirs', leaf', page, ht', h', hsame, hleaf⟩
    obtain ⟨file', hwrite, hmap⟩ := ht'.writeEntry h' id hleaf
      { page := old.page, slot := old.slot, generation := old.generation, flags := old.flags }
    rw [entry_migrated, hsame] at hmap
    rw [bind_of_ok (h'.read (mem_leaves (entryPage_lt id) hleaf)).2, hwrite]
    exact hmap
  · rw [if_pos hallocated, LegacyEntry.entry, if_neg hallocated, ← hfree, Function.update_eq_self]
    exact h

theorem legacyMap_at {n index : Nat} (hindex : index < legacyEntriesPerIdmp) :
    legacyMap leaf (n * legacyEntriesPerIdmp + index) =
      match leaf n with
      | none => none
      | some idmp => (readLegacyEntry idmp.2 index).entry := by
  have hdiv : (n * legacyEntriesPerIdmp + index) / legacyEntriesPerIdmp = n := by
    rw [Nat.mul_comm, Nat.mul_add_div (Nat.zero_lt_of_lt hindex), Nat.div_eq_of_lt hindex, Nat.add_zero]
  have hmod : (n * legacyEntriesPerIdmp + index) % legacyEntriesPerIdmp = index := by
    rw [Nat.mul_comm, Nat.mul_add_mod, Nat.mod_eq_of_lt hindex]
  rw [legacyMap, hdiv, hmod]

variable (hl : LegacyTree root dirs leaf)
include hl

theorem LegacyTree.migrateNext {id : Nat} {old : LegacyEntry} (hid : legacyMap leaf id = old.entry)
    (h : HoldMap tx frame migrated (upTo id (legacyMap leaf)) file) :
    Outcome (fun _ file' => HoldMap tx frame migrated (upTo (id + 1) (legacyMap leaf)) file') NoRoom
      (migrateEntry migrated (.ofNat id) old file) := by
  rw [upTo_succ, hid]
  by_cases hlt : id < 2 ^ 64
  · have hnat : (UInt64.ofNat id).toNat = id := UInt64.toNat_ofNat_of_lt' hlt
    have hentry := h.migrateEntry (.ofNat id) old (by rw [hnat]; exact if_neg (Nat.lt_irrefl id))
    rwa [hnat] at hentry
  · have hnone : legacyMap leaf id = none := by
      by_contra hsome
      exact hlt (hl.id_lt id hsome)
    rw [hid] at hnone
    have hskip : migrateEntry migrated (.ofNat id) old = pure () := by
      apply if_pos
      intro hallocated
      rw [LegacyEntry.entry, if_pos hallocated] at hnone
      exact Option.some_ne_none _ hnone
    have hblank : upTo id (legacyMap leaf) id = none := if_neg (Nat.lt_irrefl id)
    rw [hskip, hnone, ← hblank, Function.update_eq_self]
    exact h

theorem LegacyTree.migrateEntries {n : Nat} {idmp : Nat × Area} (hleaf : leaf n = some idmp)
    (remaining : Nat) {index : Nat} (hcount : index + remaining = legacyEntriesPerIdmp)
    (h : HoldMap tx frame migrated (upTo (n * legacyEntriesPerIdmp + index) (legacyMap leaf)) file) :
    Outcome (fun _ file' => HoldMap tx frame migrated
        (upTo (n * legacyEntriesPerIdmp + index + remaining) (legacyMap leaf)) file') NoRoom
      (IdentityPages.migrateEntries migrated n idmp.2 remaining index file) := by
  induction remaining generalizing index file with
  | zero => exact h
  | succ remaining ih =>
    have hid : legacyMap leaf (n * legacyEntriesPerIdmp + index) =
        (readLegacyEntry idmp.2 index).entry := by
      have hlt : index < legacyEntriesPerIdmp := by omega
      rw [legacyMap_at hlt, hleaf]
    apply Outcome.bind (hl.migrateNext hid h)
    intro _ file₁ h₁
    have hnext : index + 1 + remaining = legacyEntriesPerIdmp := by omega
    have hrest := ih hnext h₁
    rwa [Nat.add_assoc, Nat.add_assoc, Nat.add_comm 1, ← Nat.add_assoc] at hrest

theorem LegacyTree.leaf_lt {n : Nat} {idmp : Nat × Area} (hleaf : leaf n = some idmp) :
    n < leafCount := by
  have hlt := hl.page_lt n (by rw [hleaf]; exact Option.some_ne_none idmp)
  exact Nat.lt_of_le_of_lt (Nat.le_mul_of_pos_right n legacyEntriesPerIdmp_pos) hlt

theorem LegacyTree.migratePage (n : Nat)
    (h : HoldMap tx (treePages dirs leaf + frame) migrated
      (upTo (n * legacyEntriesPerIdmp) (legacyMap leaf)) file) :
    Outcome (fun _ file' => HoldMap tx (treePages dirs leaf + frame) migrated
        (upTo ((n + 1) * legacyEntriesPerIdmp) (legacyMap leaf)) file') NoRoom
      (IdentityPages.migratePage migrated n (idOf (leaf n)) file) := by
  rw [Nat.succ_mul]
  unfold IdentityPages.migratePage
  cases hleaf : leaf n with
  | none =>
    have hsame : upTo (n * legacyEntriesPerIdmp) (legacyMap leaf) =
        upTo (n * legacyEntriesPerIdmp + legacyEntriesPerIdmp) (legacyMap leaf) := by
      apply upTo_of_none (Nat.le_add_right _ _)
      intro id hle hlt
      obtain ⟨index, rfl⟩ := Nat.exists_eq_add_of_le hle
      rw [legacyMap_at (Nat.lt_of_add_lt_add_left hlt), hleaf]
    rw [if_pos (show idOf none = 0 from rfl), ← hsame]
    exact h
  | some idmp =>
    have hheld := h.held
    have hmem : (idmp.1, idmp.2) ∈ treePages dirs leaf + frame :=
      mem_leaves (hl.leaf_lt hleaf) hleaf
    have hid : idOf (some idmp) ≠ 0 := (hheld.read hmem).1
    rw [if_neg hid, show idOf (some idmp) = idmp.1 from rfl, bind_of_ok (hheld.read hmem).2,
      (hl.tree.leaves n idmp hleaf).checkMagic]
    exact hl.migrateEntries hleaf legacyEntriesPerIdmp (Nat.zero_add _) h

theorem LegacyTree.migrateSlots {k : Nat} {dir : Nat × Area} (hk : dirs[k]? = some dir)
    (remaining : Nat) {slot : Nat} (hcount : slot + remaining = pointersPerIdmd)
    (h : HoldMap tx (treePages dirs leaf + frame) migrated
      (upTo ((k * pointersPerIdmd + slot) * legacyEntriesPerIdmp) (legacyMap leaf)) file) :
    Outcome (fun _ file' => HoldMap tx (treePages dirs leaf + frame) migrated
        (upTo ((k + 1) * pointersPerIdmd * legacyEntriesPerIdmp) (legacyMap leaf)) file') NoRoom
      (IdentityPages.migrateSlots migrated k dir.2 remaining slot file) := by
  induction remaining generalizing slot file with
  | zero =>
    rw [Nat.add_zero] at hcount
    rw [hcount, ← Nat.succ_mul] at h
    exact h
  | succ remaining ih =>
    have hpointer := (hl.tree.directory k dir hk).pointer slot (by omega)
    rw [IdentityPages.migrateSlots, hpointer]
    apply (hl.migratePage _ h).bind
    intro _ file₁ h₁
    rw [Nat.add_assoc] at h₁
    exact ih (by omega) h₁

theorem LegacyTree.migrateDirectories (fuel : Nat) {k : Nat} {dir : Nat × Area}
    (hk : dirs[k]? = some dir) (hfuel : dirs.length ≤ k + fuel)
    (h : HoldMap tx (treePages dirs leaf + frame) migrated
      (upTo (k * pointersPerIdmd * legacyEntriesPerIdmp) (legacyMap leaf)) file) :
    Outcome (fun _ file' => HoldMap tx (treePages dirs leaf + frame) migrated (legacyMap leaf) file')
      NoRoom (IdentityPages.migrateDirectories migrated fuel k dir.1 file) := by
  have hlt := (List.getElem?_eq_some_iff.1 hk).1
  induction fuel generalizing k dir file with
  | zero => omega
  | succ fuel ih =>
    have hheld := h.held
    have hcount : ¬file.pageCount ≤ k := by
      have hcard := hheld.holds.left.left.card_lt
      rw [Multiset.coe_card] at hcard
      omega
    rw [IdentityPages.migrateDirectories]
    change Outcome _ _ ((if file.pageCount ≤ k then _ else _ : PageM Unit) file)
    rw [if_neg hcount, bind_of_ok (hheld.read (mem_dirs hk)).2,
      (hl.tree.directory k dir hk).header.checkMagic]
    apply Outcome.bind (hl.migrateSlots hk pointersPerIdmd (Nat.zero_add _) h)
    intro _ file₁ h₁
    have hown : Held tx file₁ (treePages dirs leaf + frame) := h₁.held
    have hload := (hl.tree.nextDir hown hk).1
    have hzero := (hl.tree.nextDir hown hk).2
    rw [hload]
    cases hnext : dirs[k + 1]? with
    | none =>
      have hlength : dirs.length ≤ k + 1 := List.getElem?_eq_none_iff.1 hnext
      have hpast (id : Nat) (hid : (k + 1) * pointersPerIdmd * legacyEntriesPerIdmp ≤ id) :
          legacyMap leaf id = none := by
        have hn : dirs.length * pointersPerIdmd ≤ id / legacyEntriesPerIdmp :=
          Nat.le_trans (Nat.mul_le_mul_right _ hlength)
            ((Nat.le_div_iff_mul_le legacyEntriesPerIdmp_pos).2 hid)
        rw [legacyMap, hl.tree.past _ hn]
      rw [if_pos (show idOf none = 0 from rfl)]
      rw [upTo_of_past hpast] at h₁
      exact h₁
    | some next =>
      rw [hnext] at hzero
      rw [if_neg (mt hzero.1 (Option.some_ne_none next))]
      exact ih hnext (by omega) h₁ (List.getElem?_eq_some_iff.1 hnext).1

/-- What `migrate_v1` returns holds the entries of version 1 and no others, and goes on as a map. -/
theorem migrate_preserves {start : PageFile Area} (hholds : Holds start (treePages dirs leaf + frame))
    (hfits : start.pageCount < 2 ^ 64) :
    Outcome (fun migrated file => ∀ calls : List MapCall,
        (MapRun.after migrated ⟨file, legacyMap leaf⟩ calls).Refines migrated
          (treePages dirs leaf + frame))
      NoRoom (migrateV1 root start) := by
  obtain ⟨page, hroot⟩ := hl.tree.root
  have hpos : 0 < start.pageCount :=
    Nat.zero_lt_of_lt (hholds.lt_pageCount (mem_dirs hroot))
  have hcount : dirs.length < 2 ^ 64 := by
    have hcard := hholds.left.left.card_lt
    rw [Multiset.coe_card] at hcard
    exact Nat.lt_of_le_of_lt hcard hfits
  apply ((Held.createMap ⟨hholds, hpos, hfits, rfl⟩).mono (fun _ _ h => h) fun error file hfull =>
    ⟨hfull.1, hfull.2.1⟩).bind
  intro migrated file₁ h₁
  have hnone : upTo (0 * pointersPerIdmd * legacyEntriesPerIdmp) (legacyMap leaf) = fun _ => none := by
    rw [Nat.zero_mul, Nat.zero_mul, upTo_zero]
  rw [← hnone] at h₁
  apply (hl.migrateDirectories (2 ^ 64) hroot (by omega) h₁).bind
  intro _ file₂ h₂ calls
  exact MapRun.refines_of_holds (MapRun.after_holds h₂ calls)

/-! ### A map with one object -/

section OneObject

omit hl [PageSize]

/-- A page of entries of version 1 where the object with id 1 is bound. -/
def onePage : Area :=
  storeAt (storeAt (makeHeaderPage idmpMagic legacyIdmpVersion) (legacyEntryOffset 1) 8 7)
    (legacyEntryOffset 1 + 12) 4 1

def oneDirectory : Area := storeAt (makeHeaderPage idmdMagic idmdVersion) (pointerOffset 0) 8 2

def oneLeaf : Nat → Option (Nat × Area) := Function.update (fun _ => none) 0 (some (2, onePage))

def oneFile : PageFile Area :=
  { data := ⟨3, none, fun id => if id = 1 then oneDirectory else onePage, 3⟩
    pageCount := 3
    catalogRoot := none }

theorem oneLeaf_eq_none {n : Nat} (hn : n ≠ 0) : oneLeaf n = none := Function.update_of_ne hn _ _

theorem legacyTree_one : @LegacyTree PageSize.default 1 [(1, oneDirectory)] oneLeaf := by
  let _ : PageSize := PageSize.default
  have hheader : HasHeader onePage idmpMagic legacyIdmpVersion := by
    apply (hasHeader_makeHeaderPage rfl (by decide)).congr
    intro i hi
    have hpast : i < legacyEntryOffset 1 := Nat.lt_of_lt_of_le hi (by decide)
    rw [onePage, storeAt_of_outside (.inl (Nat.lt_add_right 12 hpast)), storeAt_of_outside (.inl hpast)]
  have hpage : ∀ n, oneLeaf n ≠ none → n = 0 := fun n hn => by
    by_contra hne
    exact hn (oneLeaf_eq_none hne)
  refine ⟨?_, fun n hn => ?_, fun id hid => ?_⟩
  · have hput := @Tree.put _ _ _ _ _ (tree_new legacyIdmpVersion 1) 0
      (1, makeHeaderPage idmdMagic idmdVersion) (by rw [Nat.zero_div]; rfl) (2, onePage) (by decide)
      hheader
    rw [Nat.zero_div, Nat.zero_mod] at hput
    exact hput
  · rw [hpage n hn, Nat.zero_mul]
    decide
  · have hzero : id / legacyEntriesPerIdmp = 0 := by
      apply hpage
      intro hnone
      apply hid
      rw [legacyMap, hnone]
    exact Nat.lt_trans ((Nat.div_eq_zero_iff_lt (by decide)).1 hzero) (by decide)

theorem holds_one : Holds oneFile (treePages [(1, oneDirectory)] oneLeaf + 0) := by
  have hpages : treePages [(1, oneDirectory)] oneLeaf + 0 = {(1, oneDirectory)} + {(2, onePage)} := by
    have hnone : otherLeaves (fun _ => none) 0 = 0 := by
      have hall : leafPages (fun _ => none) = otherLeaves (fun _ => none) 0 :=
        leafPages_of_none (Nat.two_pow_pos 64) rfl
      rw [← hall, leafPages_none]
    rw [treePages, oneLeaf, leafPages_update (Nat.two_pow_pos 64), hnone]
    rfl
  rw [hpages]
  constructor
  · simp
  · intro page hpage
    rcases Multiset.mem_add.1 hpage with hpage | hpage
    · rw [Multiset.mem_singleton.1 hpage]
      exact ⟨Nat.one_ne_zero, rfl⟩
    · rw [Multiset.mem_singleton.1 hpage]
      exact ⟨by decide, rfl⟩

theorem migrate_preserves_one :
    Outcome (fun migrated file => ∀ calls : List MapCall,
        @MapRun.Refines PageSize.default migrated (treePages [(1, oneDirectory)] oneLeaf + 0)
          (@MapRun.after PageSize.default migrated ⟨file, @legacyMap PageSize.default oneLeaf⟩ calls))
      NoRoom (@migrateV1 PageSize.default 1 oneFile) := by
  have hholds := holds_one
  have hcount : oneFile.pageCount < 2 ^ 64 := show 3 < 2 ^ 64 by decide
  -- With the file in sight the types would be compared by running the migration.
  generalize oneFile = file at hholds hcount ⊢
  exact @migrate_preserves PageSize.default 0 1 _ _ legacyTree_one file hholds hcount

end OneObject

end MoDb.Store.IdentityPages
