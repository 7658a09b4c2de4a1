import MoDb.Store.IdentityTree

/-!
# The pages of the identity map as a map

In every state that a run of operations reaches, an id is found as the operations on it say, and the
next operation does what the map does or is refused as the map refuses it.
-/

namespace MoDb.Store.IdentityPages

open Storage Effect

/-! ### Runs -/

/-- An operation that changes the map. -/
inductive MapCall where
  | bind (id : UInt64) (record : RecordId) (epoch : UInt64)
  | rebind (id : UInt64) (record : RecordId) (epoch : UInt64)
  | erase (id epoch : UInt64)
  | clearPrevious (id : UInt64)
  deriving DecidableEq, Repr

namespace MapCall

def id : MapCall → UInt64
  | bind id .. => id
  | rebind id .. => id
  | erase id _ => id
  | clearPrevious id => id

def apply (map : IdentityMap RecordId) : MapCall → Except Error (IdentityMap RecordId)
  | bind id record epoch => map.bind id.toNat record epoch.toNat
  | rebind id record epoch => map.rebind id.toNat record epoch.toNat
  | erase id epoch => map.erase id.toNat epoch.toNat
  | clearPrevious id => map.clearPrevious id.toNat

def run [PageSize] (root : Nat) : MapCall → PageM Unit
  | bind id record epoch => IdentityPages.bind root id record epoch
  | rebind id record epoch => IdentityPages.rebind root id record epoch
  | erase id epoch => IdentityPages.erase root id epoch
  | clearPrevious id => IdentityPages.clearPrevious root id

end MapCall

/-- The pages beside the map, which makes the changes of the operations that have returned. -/
structure MapRun where
  file : PageFile Area
  map : IdentityMap RecordId

namespace MapRun

variable [PageSize] (root : Nat)

def step (run : MapRun) (call : MapCall) : MapRun :=
  match call.run root run.file with
  | .ok () file => ⟨file, (call.apply run.map).toOption.getD run.map⟩
  | .error _ file => { run with file }

def after (run : MapRun) (calls : List MapCall) : MapRun := calls.foldl (step root) run

/-- What the pages show of the map, and what they do with the next operation. -/
structure Refines (frame : Multiset (Nat × Area)) (run : MapRun) : Prop where
  find : ∀ id, IdentityPages.find root id run.file = PageM.check (run.map.find id.toNat) run.file
  findAt : ∀ id epoch, IdentityPages.findAt root id epoch run.file =
    PageM.check (run.map.findAt id.toNat epoch.toNat) run.file
  answers : ∀ call : MapCall, Outcome (fun _ _ => ∃ map, call.apply run.map = .ok map)
    (fun error file => call.apply run.map = .error error ∨
      (∃ map, call.apply run.map = .ok map) ∧ error = pageCountFault ∧ file.pageCount = 2 ^ 64 - 1)
    (call.run root run.file)
  others : ∀ (call : MapCall) id, id ≠ call.id → (run.step root call).map id.toNat = run.map id.toNat
  frame : Holds run.file frame

end MapRun

/-! ### Entries -/

def IdmpEntry.entry (entry : IdmpEntry) : Option (Entry RecordId) :=
  if entry.allocated then
    some
      { current := if entry.removed then none else some entry.record
        currentEpoch := entry.currentEpoch.toNat
        previous :=
          if entry.hasPrevious then some (entry.previousRecord, entry.previousEpoch.toNat) else none }
  else none

variable [PageSize]

def mapOf (leaf : Nat → Option (Nat × Area)) : IdentityMap RecordId := fun id => (entryAt leaf id).entry

variable {tx : Bool} {file : PageFile Area} {frame : Multiset (Nat × Area)} {root : Nat}
  {dirs : List (Nat × Area)} {leaf : Nat → Option (Nat × Area)}

theorem entryAt_of_some {id : Nat} {idmp : Nat × Area} (h : leaf (id / entriesPerIdmp) = some idmp) :
    entryAt leaf id = readEntry idmp.2 (id % entriesPerIdmp) := by
  unfold entryAt
  rw [h]

theorem entryAt_of_none {id : Nat} (h : leaf (id / entriesPerIdmp) = none) : entryAt leaf id = {} := by
  unfold entryAt
  rw [h]

theorem entryAt_update {id : Nat} (idmp : Nat × Area) (other : Nat) :
    entryAt (Function.update leaf (id / entriesPerIdmp) (some idmp)) other =
      if other / entriesPerIdmp = id / entriesPerIdmp then readEntry idmp.2 (other % entriesPerIdmp)
      else entryAt leaf other := by
  unfold entryAt
  by_cases h : other / entriesPerIdmp = id / entriesPerIdmp
  · rw [if_pos h, h, Function.update_self]
  · rw [if_neg h, Function.update_of_ne h]

theorem mapOf_write {id : Nat} {idmp : Nat × Area} (h : leaf (id / entriesPerIdmp) = some idmp)
    (entry : IdmpEntry) :
    mapOf (Function.update leaf (id / entriesPerIdmp)
        (some (idmp.1, writeEntry idmp.2 (id % entriesPerIdmp) entry))) =
      Function.update (mapOf leaf) id entry.entry := by
  funext other
  unfold mapOf
  rw [entryAt_update]
  by_cases hother : other = id
  · rw [hother, Function.update_self, if_pos rfl, readEntry_writeEntry]
  · rw [Function.update_of_ne hother]
    by_cases hpage : other / entriesPerIdmp = id / entriesPerIdmp
    · have hindex : other % entriesPerIdmp ≠ id % entriesPerIdmp := by
        intro hindex
        apply hother
        rw [← Nat.div_add_mod other entriesPerIdmp, hpage, hindex, Nat.div_add_mod]
      have hentry : entryAt leaf other = readEntry idmp.2 (other % entriesPerIdmp) :=
        entryAt_of_some (hpage ▸ h)
      rw [if_pos hpage, readEntry_writeEntry_of_ne hindex, ← hentry]
    · rw [if_neg hpage]

theorem mapOf_new {id : Nat} (h : leaf (id / entriesPerIdmp) = none) (idmpId : Nat) :
    mapOf (Function.update leaf (id / entriesPerIdmp)
      (some (idmpId, makeHeaderPage idmpMagic idmpVersion))) = mapOf leaf := by
  funext other
  unfold mapOf
  rw [entryAt_update]
  split
  · rename_i hpage
    rw [readEntry_makeHeaderPage, entryAt_of_none (hpage ▸ h)]
  · rfl

theorem mapOf_of_allocated {id : Nat} (h : (entryAt leaf id).allocated = true) :
    mapOf leaf id = some
      { current := if (entryAt leaf id).removed then none else some (entryAt leaf id).record
        currentEpoch := (entryAt leaf id).currentEpoch.toNat
        previous :=
          if (entryAt leaf id).hasPrevious then
            some ((entryAt leaf id).previousRecord, (entryAt leaf id).previousEpoch.toNat)
          else none } :=
  if_pos h

theorem mapOf_of_not_allocated {id : Nat} (h : ¬(entryAt leaf id).allocated = true) :
    mapOf leaf id = none :=
  if_neg h

theorem Tree.located {α : Type} (ht : Tree idmpVersion root dirs leaf)
    (h : Held tx file (treePages dirs leaf + frame)) (id : UInt64) (refuses : IdmpEntry → Prop)
    [DecidablePred refuses] (hrefuses : ∀ entry, ¬entry.allocated → refuses entry)
    (body : Nat → Area → IdmpEntry → PageM α) :
    let action := IdentityPages.locate root id >>= fun (idmpId, page, entry) =>
      if refuses entry then throw (IdentityMap.missing id.toNat) else body idmpId page entry
    (refuses (entryAt leaf id.toNat) ∧ action file = .error (IdentityMap.missing id.toNat) file) ∨
      ¬refuses (entryAt leaf id.toNat) ∧ ∃ idmp, leaf (id.toNat / entriesPerIdmp) = some idmp ∧
        action file = body idmp.1 idmp.2 (entryAt leaf id.toNat) file := by
  intro action
  have hlocate := ht.locate h id
  cases hleaf : leaf (id.toNat / entriesPerIdmp) with
  | none =>
    rw [hleaf] at hlocate
    have hblank : refuses (entryAt leaf id.toNat) := by
      rw [entryAt_of_none hleaf]
      exact hrefuses {} (by decide)
    exact .inl ⟨hblank, bind_of_error hlocate⟩
  | some idmp =>
    rw [hleaf] at hlocate
    have hrun : action file = _ := bind_of_ok hlocate
    dsimp only at hrun
    by_cases hentry : refuses (entryAt leaf id.toNat)
    · rw [if_pos hentry] at hrun
      exact .inl ⟨hentry, hrun⟩
    · rw [if_neg hentry] at hrun
      exact .inr ⟨hentry, idmp, rfl, hrun⟩

def IdmpEntry.absent (entry : IdmpEntry) : Prop := ¬entry.allocated ∨ entry.removed

instance : DecidablePred IdmpEntry.absent := fun entry =>
  inferInstanceAs (Decidable (¬entry.allocated ∨ entry.removed))

theorem live_of_absent {id : Nat} (h : (entryAt leaf id).absent) :
    (mapOf leaf).live id = .error (IdentityMap.missing id) := by
  unfold IdentityMap.live
  by_cases hallocated : (entryAt leaf id).allocated
  · rw [mapOf_of_allocated hallocated, h.resolve_left (not_not.2 hallocated)]
    rfl
  · rw [mapOf_of_not_allocated hallocated]

theorem live_of_present {id : Nat} (h : ¬(entryAt leaf id).absent) :
    ∃ previous, (mapOf leaf).live id = .ok ((entryAt leaf id).record,
      ⟨some (entryAt leaf id).record, (entryAt leaf id).currentEpoch.toNat, previous⟩) := by
  obtain ⟨hallocated, hremoved⟩ := not_or.1 h
  rw [not_not] at hallocated
  have hmap := mapOf_of_allocated hallocated
  rw [if_neg hremoved] at hmap
  exact ⟨_, IdentityMap.live_eq_ok.2 ⟨hmap, rfl⟩⟩

/-! ### Reading -/

section Reading

variable (ht : Tree idmpVersion root dirs leaf) (h : Held tx file (treePages dirs leaf + frame))
include ht h

theorem find_eq (id : UInt64) :
    IdentityPages.find root id file = PageM.check ((mapOf leaf).find id.toNat) file := by
  rw [IdentityMap.find_eq_live]
  rcases ht.located h id IdmpEntry.absent (fun _ hnot => .inl hnot)
      (fun _ _ entry => pure entry.record) with ⟨habsent, hrun⟩ | ⟨hpresent, idmp, _, hrun⟩
  · rw [live_of_absent habsent]
    exact hrun
  · obtain ⟨previous, hlive⟩ := live_of_present hpresent
    rw [hlive]
    exact hrun

theorem findAt_eq (id epoch : UInt64) :
    IdentityPages.findAt root id epoch file =
      PageM.check ((mapOf leaf).findAt id.toNat epoch.toNat) file := by
  rw [IdentityMap.findAt]
  rcases ht.located h id (fun entry => ¬entry.allocated) (fun _ hnot => hnot) (fun _ _ entry =>
      if entry.currentEpoch ≤ epoch then
        if entry.removed then
          throw ⟨.recordNotFound, s!"object {id.toNat} was already removed at this epoch"⟩
        else pure entry.record
      else if entry.hasPrevious ∧ entry.previousEpoch ≤ epoch then pure entry.previousRecord
      else throw ⟨.recordNotFound, s!"object {id.toNat} did not exist yet at this epoch"⟩) with
    ⟨hnone, hrun⟩ | ⟨hallocated, idmp, _, hrun⟩
  · rw [mapOf_of_not_allocated hnone]
    exact hrun
  · rw [mapOf_of_allocated (not_not.1 hallocated)]
    apply hrun.trans
    dsimp only
    by_cases hcurrent : (entryAt leaf id.toNat).currentEpoch ≤ epoch
    · rw [if_pos hcurrent, if_pos (UInt64.le_iff_toNat_le.1 hcurrent)]
      cases hremoved : (entryAt leaf id.toNat).removed <;> rfl
    · rw [if_neg hcurrent, if_neg (mt UInt64.le_iff_toNat_le.2 hcurrent)]
      cases hprevious : (entryAt leaf id.toNat).hasPrevious with
      | false => rfl
      | true =>
        by_cases hepoch : (entryAt leaf id.toNat).previousEpoch ≤ epoch
        · rw [if_pos ⟨rfl, hepoch⟩]
          simp only [if_true]
          rw [if_pos (UInt64.le_iff_toNat_le.1 hepoch)]
          rfl
        · rw [if_neg (fun hboth => hepoch hboth.2)]
          simp only [if_true]
          rw [if_neg (mt UInt64.le_iff_toNat_le.2 hepoch)]
          rfl

end Reading

/-! ### Writing -/

def HoldMap (tx : Bool) (frame : Multiset (Nat × Area)) (root : Nat) (map : IdentityMap RecordId)
    (file : PageFile Area) : Prop :=
  ∃ dirs leaf, Tree idmpVersion root dirs leaf ∧ Held tx file (treePages dirs leaf + frame) ∧
    mapOf leaf = map

def Done (tx : Bool) (frame : Multiset (Nat × Area)) (root : Nat)
    (answer : Except Error (IdentityMap RecordId)) (_ : Unit) (file : PageFile Area) : Prop :=
  ∃ map, answer = .ok map ∧ HoldMap tx frame root map file

/-- What an operation leaves that the map refuses, or for which there is no room. -/
def Refused (tx : Bool) (frame : Multiset (Nat × Area)) (root : Nat) (map : IdentityMap RecordId)
    (answer : Except Error (IdentityMap RecordId)) (error : Error) (file : PageFile Area) : Prop :=
  (answer = .error error ∨
    (∃ map', answer = .ok map') ∧ error = pageCountFault ∧ file.pageCount = 2 ^ 64 - 1) ∧
      HoldMap tx frame root map file

theorem Tree.writeEntry (ht : Tree idmpVersion root dirs leaf)
    (h : Held tx file (treePages dirs leaf + frame)) (id : UInt64) {idmp : Nat × Area}
    (hleaf : leaf (id.toNat / entriesPerIdmp) = some idmp) (entry : IdmpEntry) :
    ∃ file', PageM.write idmp.1
        (IdentityPages.writeEntry idmp.2 (id.toNat % entriesPerIdmp) entry) file = .ok () file' ∧
      HoldMap tx frame root (Function.update (mapOf leaf) id.toNat entry.entry) file' := by
  obtain ⟨file', hwrite, ht', h'⟩ := ht.writePage h (entryPage_lt id) hleaf
    ((ht.leaves _ idmp hleaf).writeEntry (id.toNat % entriesPerIdmp) entry)
  exact ⟨file', hwrite, dirs, _, ht', h', mapOf_write hleaf entry⟩

theorem refused_of_eq {action : PageM Unit} (ht : Tree idmpVersion root dirs leaf)
    (h : Held tx file (treePages dirs leaf + frame)) {error : Error}
    (hrun : action file = .error error file) :
    Outcome (Done tx frame root (.error error)) (Refused tx frame root (mapOf leaf) (.error error))
      (action file) := by
  rw [hrun]
  exact ⟨.inl rfl, dirs, leaf, ht, h, rfl⟩

theorem done_of_eq {action : PageM Unit} {file' : PageFile Area} {map map' : IdentityMap RecordId}
    (hrun : action file = .ok () file') (h : HoldMap tx frame root map' file') :
    Outcome (Done tx frame root (.ok map')) (Refused tx frame root map (.ok map')) (action file) := by
  rw [hrun]
  exact ⟨map', rfl, h⟩

section Entries

omit [PageSize]

theorem allocated_and_allocated : ¬flagAllocated &&& flagAllocated = 0 := by decide

theorem allocated_and_removed : flagAllocated &&& flagRemoved = 0 := by decide

theorem both_and_allocated : ¬(flagAllocated ||| flagRemoved) &&& flagAllocated = 0 := by decide

theorem both_and_removed : ¬(flagAllocated ||| flagRemoved) &&& flagRemoved = 0 := by decide

theorem entry_bound (record : RecordId) (epoch : UInt64) :
    IdmpEntry.entry
      { page := record.page, slot := record.slot, generation := record.generation,
        flags := flagAllocated, currentEpoch := epoch } = some ⟨some record, epoch.toNat, none⟩ := by
  simp [IdmpEntry.entry, IdmpEntry.allocated, IdmpEntry.removed, IdmpEntry.hasPrevious,
    IdmpEntry.record, -UInt32.and_self, allocated_and_allocated, allocated_and_removed]

theorem entry_moved (entry : IdmpEntry) (record : RecordId) (epoch : UInt64) :
    IdmpEntry.entry { entry.moved with
      page := record.page, slot := record.slot, generation := record.generation,
      flags := flagAllocated, currentEpoch := epoch } =
        some ⟨some record, epoch.toNat, some (entry.record, entry.currentEpoch.toNat)⟩ := by
  simp [IdmpEntry.entry, IdmpEntry.allocated, IdmpEntry.removed, IdmpEntry.hasPrevious,
    IdmpEntry.record, IdmpEntry.previousRecord, IdmpEntry.moved, -UInt32.and_self,
    allocated_and_allocated, allocated_and_removed]

theorem entry_removed (entry : IdmpEntry) (epoch : UInt64) :
    IdmpEntry.entry { entry.moved with
      flags := flagAllocated ||| flagRemoved, currentEpoch := epoch } =
        some ⟨none, epoch.toNat, some (entry.record, entry.currentEpoch.toNat)⟩ := by
  simp [IdmpEntry.entry, IdmpEntry.allocated, IdmpEntry.removed, IdmpEntry.hasPrevious,
    IdmpEntry.record, IdmpEntry.previousRecord, IdmpEntry.moved, -UInt32.and_self,
    allocated_and_allocated, both_and_allocated, both_and_removed]

theorem entry_cleared (entry : IdmpEntry) :
    IdmpEntry.entry { entry with
      previousPage := 0, previousSlot := 0, previousGeneration := 0, previousFlags := 0,
      previousEpoch := 0 } = entry.entry.map fun found => { found with previous := none } := by
  by_cases hallocated : entry.flags &&& flagAllocated = 0
  · simp [IdmpEntry.entry, IdmpEntry.allocated, hallocated]
  · simp [IdmpEntry.entry, IdmpEntry.allocated, IdmpEntry.removed, IdmpEntry.hasPrevious,
      IdmpEntry.record, hallocated]

end Entries

section Writing

variable (ht : Tree idmpVersion root dirs leaf) (h : Held tx file (treePages dirs leaf + frame))
include ht h

theorem outcome_rebind (id : UInt64) (record : RecordId) (epoch : UInt64) :
    Outcome (Done tx frame root ((mapOf leaf).rebind id.toNat record epoch.toNat))
      (Refused tx frame root (mapOf leaf) ((mapOf leaf).rebind id.toNat record epoch.toNat))
      (IdentityPages.rebind root id record epoch file) := by
  rw [IdentityMap.rebind]
  rcases ht.located h id IdmpEntry.absent (fun _ hnot => .inl hnot) (fun idmpId page entry =>
      PageM.write idmpId (IdentityPages.writeEntry page (id.toNat % entriesPerIdmp)
        { entry.moved with
          page := record.page, slot := record.slot, generation := record.generation,
          flags := flagAllocated, currentEpoch := epoch })) with
    ⟨habsent, hrun⟩ | ⟨hpresent, idmp, hleaf, hrun⟩
  · rw [live_of_absent habsent]
    exact refused_of_eq ht h hrun
  · obtain ⟨previous, hlive⟩ := live_of_present hpresent
    obtain ⟨file', hwrite, hmap⟩ := ht.writeEntry h id hleaf _
    rw [hlive]
    rw [entry_moved] at hmap
    exact done_of_eq (hrun.trans hwrite) hmap

theorem outcome_erase (id epoch : UInt64) :
    Outcome (Done tx frame root ((mapOf leaf).erase id.toNat epoch.toNat))
      (Refused tx frame root (mapOf leaf) ((mapOf leaf).erase id.toNat epoch.toNat))
      (IdentityPages.erase root id epoch file) := by
  rw [IdentityMap.erase]
  rcases ht.located h id IdmpEntry.absent (fun _ hnot => .inl hnot) (fun idmpId page entry =>
      PageM.write idmpId (IdentityPages.writeEntry page (id.toNat % entriesPerIdmp)
        { entry.moved with flags := flagAllocated ||| flagRemoved, currentEpoch := epoch })) with
    ⟨habsent, hrun⟩ | ⟨hpresent, idmp, hleaf, hrun⟩
  · rw [live_of_absent habsent]
    exact refused_of_eq ht h hrun
  · obtain ⟨previous, hlive⟩ := live_of_present hpresent
    obtain ⟨file', hwrite, hmap⟩ := ht.writeEntry h id hleaf _
    rw [hlive]
    rw [entry_removed] at hmap
    exact done_of_eq (hrun.trans hwrite) hmap

theorem outcome_clearPrevious (id : UInt64) :
    Outcome (Done tx frame root ((mapOf leaf).clearPrevious id.toNat))
      (Refused tx frame root (mapOf leaf) ((mapOf leaf).clearPrevious id.toNat))
      (IdentityPages.clearPrevious root id file) := by
  rw [IdentityMap.clearPrevious]
  rcases ht.located h id (fun entry => ¬entry.allocated) (fun _ hnot => hnot)
      (fun idmpId page entry =>
        PageM.write idmpId (IdentityPages.writeEntry page (id.toNat % entriesPerIdmp)
          { entry with
            previousPage := 0, previousSlot := 0, previousGeneration := 0, previousFlags := 0,
            previousEpoch := 0 })) with
    ⟨hnone, hrun⟩ | ⟨hallocated, idmp, hleaf, hrun⟩
  · rw [mapOf_of_not_allocated hnone]
    exact refused_of_eq ht h hrun
  · obtain ⟨file', hwrite, hmap⟩ := ht.writeEntry h id hleaf _
    have hentry : (entryAt leaf id.toNat).entry = _ := mapOf_of_allocated (not_not.1 hallocated)
    rw [entry_cleared, hentry] at hmap
    rw [mapOf_of_allocated (not_not.1 hallocated)]
    exact done_of_eq (hrun.trans hwrite) hmap

theorem outcome_ensure (id : UInt64) :
    Outcome (fun idmpId file' => ∃ dirs' leaf' page, Tree idmpVersion root dirs' leaf' ∧
        Held tx file' (treePages dirs' leaf' + frame) ∧ mapOf leaf' = mapOf leaf ∧
        leaf' (id.toNat / entriesPerIdmp) = some (idmpId, page))
      (fun error file' => mapOf leaf id.toNat = none ∧
        (error = pageCountFault ∧ file'.pageCount = 2 ^ 64 - 1) ∧
        HoldMap tx frame root (mapOf leaf) file')
      (ensureIdmp root (id.toNat / entriesPerIdmp) file) := by
  apply (ht.ensure h (entryPage_lt id)).mono
  · rintro idmpId file₁ ⟨dirs', page, ht', h', hpage⟩
    refine ⟨dirs', _, page, ht', h', ?_, Function.update_self _ _ _⟩
    rcases hpage with hthere | ⟨hnone, rfl⟩
    · rw [← hthere, Function.update_eq_self]
    · exact mapOf_new hnone idmpId
  · rintro error file' ⟨hnone, herror, hcount, dirs', ht', h'⟩
    refine ⟨mapOf_of_not_allocated ?_, ⟨herror, hcount⟩, dirs', leaf, ht', h', rfl⟩
    rw [entryAt_of_none hnone]
    decide

theorem outcome_bind (id : UInt64) (record : RecordId) (epoch : UInt64) :
    Outcome (Done tx frame root ((mapOf leaf).bind id.toNat record epoch.toNat))
      (Refused tx frame root (mapOf leaf) ((mapOf leaf).bind id.toNat record epoch.toNat))
      (IdentityPages.bind root id record epoch file) := by
  rw [IdentityPages.bind]
  by_cases hid : id = 0
  · rw [if_pos hid, IdentityMap.bind, if_pos (show id.toNat = invalidObjectId from hid ▸ rfl)]
    exact ⟨.inl rfl, dirs, leaf, ht, h, rfl⟩
  · have hid' : id.toNat ≠ invalidObjectId := fun heq => hid (UInt64.toNat_inj.1 heq)
    rw [if_neg hid]
    apply ((outcome_ensure ht h id).mono (fun _ _ h => h) fun error file' hfault =>
      ⟨.inr ⟨⟨_, IdentityMap.bind_eq_ok hid' hfault.1 record epoch.toNat⟩, hfault.2.1⟩,
        hfault.2.2⟩).bind
    rintro idmpId file₁ ⟨dirs', leaf', page, ht', h', hsame, hleaf⟩
    rw [← hsame, bind_of_ok (h'.read (mem_leaves (entryPage_lt id) hleaf)).2,
      (ht'.leaves _ _ hleaf).checkMagic, ← entryAt_of_some hleaf]
    change Outcome _ _ ((if (entryAt leaf' id.toNat).allocated then _ else _ : PageM Unit) file₁)
    by_cases hbound : (entryAt leaf' id.toNat).allocated
    · rw [if_pos hbound, IdentityMap.bind, if_neg hid', mapOf_of_allocated hbound]
      exact ⟨.inl rfl, dirs', leaf', ht', h', rfl⟩
    · obtain ⟨file', hwrite, hmap⟩ := ht'.writeEntry h' id hleaf
        { page := record.page, slot := record.slot, generation := record.generation,
          flags := flagAllocated, currentEpoch := epoch }
      rw [entry_bound] at hmap
      rw [if_neg hbound, IdentityMap.bind_eq_ok hid' (mapOf_of_not_allocated hbound)]
      exact done_of_eq hwrite hmap

theorem outcome_call (call : MapCall) :
    Outcome (Done tx frame root (call.apply (mapOf leaf)))
      (Refused tx frame root (mapOf leaf) (call.apply (mapOf leaf))) (call.run root file) := by
  cases call with
  | bind id record epoch => exact outcome_bind ht h id record epoch
  | rebind id record epoch => exact outcome_rebind ht h id record epoch
  | erase id epoch => exact outcome_erase ht h id epoch
  | clearPrevious id => exact outcome_clearPrevious ht h id

end Writing

/-! ### Every run -/

omit [PageSize] in
theorem MapCall.apply_update {map map' : IdentityMap RecordId} {call : MapCall}
    (h : call.apply map = .ok map') : ∃ entry, map' = Function.update map call.id.toNat entry := by
  cases call with
  | bind id record epoch =>
    rw [MapCall.apply, IdentityMap.bind] at h
    split at h
    · injection h
    · split at h
      · injection h
      · injection h with hmap
        exact ⟨_, hmap.symm⟩
  | rebind id record epoch =>
    rw [MapCall.apply, IdentityMap.rebind] at h
    split at h
    · injection h with hmap
      exact ⟨_, hmap.symm⟩
    · injection h
  | erase id epoch =>
    rw [MapCall.apply, IdentityMap.erase] at h
    split at h
    · injection h with hmap
      exact ⟨_, hmap.symm⟩
    · injection h
  | clearPrevious id =>
    rw [MapCall.apply, IdentityMap.clearPrevious] at h
    split at h
    · injection h with hmap
      exact ⟨_, hmap.symm⟩
    · injection h

namespace MapRun

variable {run : MapRun}

theorem step_holds (h : HoldMap tx frame root run.map run.file) (call : MapCall) :
    HoldMap tx frame root (run.step root call).map (run.step root call).file := by
  obtain ⟨dirs, leaf, ht, hheld, hmap⟩ := h
  have houtcome := outcome_call ht hheld call
  rw [hmap] at houtcome
  unfold MapRun.step
  cases hrun : call.run root run.file with
  | ok value file =>
    rw [hrun] at houtcome
    obtain ⟨map, hanswer, hholds⟩ := houtcome
    simp only [hanswer]
    exact hholds
  | error error file =>
    rw [hrun] at houtcome
    exact houtcome.2

theorem after_holds (h : HoldMap tx frame root run.map run.file) (calls : List MapCall) :
    HoldMap tx frame root (run.after root calls).map (run.after root calls).file := by
  induction calls generalizing run with
  | nil => exact h
  | cons call calls ih => exact ih (step_holds h call)

theorem refines_of_holds (h : HoldMap tx frame root run.map run.file) : run.Refines root frame := by
  obtain ⟨dirs, leaf, ht, hheld, hmap⟩ := h
  constructor
  · intro id
    rw [← hmap]
    exact find_eq ht hheld id
  · intro id epoch
    rw [← hmap]
    exact findAt_eq ht hheld id epoch
  · intro call
    rw [← hmap]
    exact (outcome_call ht hheld call).mono (fun _ _ hdone => ⟨hdone.choose, hdone.choose_spec.1⟩)
      fun _ _ hrefused => hrefused.1
  · intro call id hid
    unfold MapRun.step
    cases hrun : call.run root run.file with
    | ok value file =>
      cases hanswer : call.apply run.map with
      | error error => rfl
      | ok map =>
        obtain ⟨entry, hmap⟩ := MapCall.apply_update hanswer
        have hother : map id.toNat = run.map id.toNat := by
          rw [hmap, Function.update_of_ne fun heq => hid (UInt64.toNat_inj.1 heq)]
        exact hother
    | error error file => rfl
  · exact hheld.holds.right

end MapRun

theorem tree_new (version root : Nat) :
    Tree version root [(root, makeHeaderPage idmdMagic idmdVersion)] fun _ => none := by
  refine ⟨⟨_, rfl⟩, fun k dir hk => ?_, fun n idmp hleaf => absurd hleaf.symm (Option.some_ne_none idmp),
    fun _ _ => rfl⟩
  obtain ⟨hzero, rfl⟩ := List.getElem?_eq_some_iff.1 hk
  obtain rfl : k = 0 := Nat.lt_one_iff.1 hzero
  exact directory_new 0 fun _ _ => rfl

omit [PageSize] in
theorem leafPages_none : leafPages (fun _ => none) = 0 := by
  apply Multiset.eq_zero_of_forall_notMem
  intro idmp hmem
  obtain ⟨n, _, hnone⟩ := (Multiset.mem_filterMap _ _).1 hmem
  exact Option.some_ne_none idmp hnone.symm

theorem Held.createMap (h : Held tx file frame) :
    Outcome (fun root file' => HoldMap tx frame root (fun _ => none) file') (FileFull frame tx)
      (create file) := by
  apply h.allocate.bind
  rintro root file₁ ⟨page, h₁⟩
  obtain ⟨file₂, hwrite, h₂⟩ := h₁.write (makeHeaderPage idmdMagic idmdVersion)
  rw [bind_of_ok hwrite]
  refine ⟨_, _, tree_new _ root, h₂.of_eq ?_, ?_⟩
  · rw [treePages, leafPages_none, add_zero, Multiset.coe_singleton]
  · funext id
    exact mapOf_of_not_allocated (by rw [entryAt_of_none rfl]; decide)

/-- From a new map on, the pages are the map over every run of operations. -/
theorem identity_refines {start : PageFile Area} (hholds : Holds start frame)
    (hpos : 0 < start.pageCount) (hfits : start.pageCount < 2 ^ 64) :
    Outcome (fun root file => ∀ calls : List MapCall,
        (MapRun.after root ⟨file, fun _ => none⟩ calls).Refines root frame)
      (fun error file => error = pageCountFault ∧ file.pageCount = 2 ^ 64 - 1) (create start) := by
  apply (Held.createMap ⟨hholds, hpos, hfits, rfl⟩).mono
  · intro root file hmap calls
    exact MapRun.refines_of_holds (MapRun.after_holds hmap calls)
  · rintro error file ⟨herror, hcount, _⟩
    exact ⟨herror, hcount⟩

omit [PageSize] in
theorem identity_refines_created :
    Outcome (fun root file => ∀ calls : List MapCall,
        @MapRun.Refines PageSize.default root 0 (@MapRun.after PageSize.default root
          ⟨file, fun _ => none⟩ calls))
      (fun error file => error = pageCountFault ∧ file.pageCount = 2 ^ 64 - 1) (create .create) :=
  @identity_refines PageSize.default 0 .create
    ⟨Multiset.nodup_zero, fun _ h => absurd h (Multiset.notMem_zero _)⟩ Nat.one_pos (by decide)

end MoDb.Store.IdentityPages
