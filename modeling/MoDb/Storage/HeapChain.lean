import MoDb.Storage.TableHeap
import MoDb.Storage.HeldPages

/-!
# The chain of a heap

What the walks along the data pages find, read off the pages of the chain: their links, both ways, and how
many records they hold.
-/

namespace MoDb.Storage

variable [PageSize] {file file' : PageFile Area} {id : Nat} {ids : List Nat} {page : SlottedPage}

def nextOf (file : PageFile Area) (id : Nat) : Option Nat :=
  match loadTrusted file id with
  | .ok page => page.nextPage
  | .error _ => none

def previousOf (file : PageFile Area) (id : Nat) : Option Nat :=
  match loadTrusted file id with
  | .ok page => page.previousPage
  | .error _ => none

def recordsOf (file : PageFile Area) (id : Nat) : Nat :=
  match loadTrusted file id with
  | .ok page => page.recordCount
  | .error _ => 0

def BackLinked (file : PageFile Area) : Option Nat → List Nat → Prop
  | _, [] => True
  | previous, id :: ids => previousOf file id = previous ∧ BackLinked file (some id) ids

/-! ### Pages that are read -/

theorem fromPage_eq_ok {bytes : Area} (h : SlottedPage.fromPage bytes = .ok page) :
    page = SlottedPage.fromTrustedPage bytes ∧ readArea bytes 0 4 = slottedMagic ∧
      page.freeStart ≤ pageSize := by
  unfold SlottedPage.fromPage at h
  dsimp only at h
  split at h
  · cases h
  · rename_i hmagic
    split at h
    · cases h
    · split at h
      · cases h
      · cases hvalid : (SlottedPage.fromTrustedPage bytes).validate with
        | error error =>
          rw [hvalid] at h
          cases h
        | ok valid =>
          rw [hvalid] at h
          cases h
          refine ⟨rfl, not_not.1 hmagic, ?_⟩
          unfold SlottedPage.validate at hvalid
          split at hvalid
          · cases hvalid
          · rename_i hstart
            exact Nat.not_lt.1 hstart

theorem load_eq_ok (h : load file id = .ok page) :
    ∃ bytes, file.read id = .ok bytes ∧ SlottedPage.fromPage bytes = .ok page := by
  unfold load at h
  cases hread : file.read id with
  | error error =>
    rw [hread] at h
    cases h
  | ok bytes =>
    rw [hread] at h
    exact ⟨bytes, rfl, h⟩

theorem load_of_read {bytes : Area} (hread : file.read id = .ok bytes)
    (h : SlottedPage.fromPage bytes = .ok page) : load file id = .ok page := by
  rw [load, hread]
  exact h

theorem loadTrusted_of_load (h : load file id = .ok page) : loadTrusted file id = .ok page := by
  obtain ⟨bytes, hread, hpage⟩ := load_eq_ok h
  rw [loadTrusted, hread, (fromPage_eq_ok hpage).1]
  rfl

omit [PageSize] in
theorem nextOf_of_loadTrusted (h : loadTrusted file id = .ok page) : nextOf file id = page.nextPage := by
  rw [nextOf, h]

theorem nextOf_of_load (h : load file id = .ok page) : nextOf file id = page.nextPage :=
  nextOf_of_loadTrusted (loadTrusted_of_load h)

theorem previousOf_of_load (h : load file id = .ok page) : previousOf file id = page.previousPage := by
  rw [previousOf, loadTrusted_of_load h]

theorem recordsOf_of_load (h : load file id = .ok page) : recordsOf file id = page.recordCount := by
  rw [recordsOf, loadTrusted_of_load h]

/-! ### The walks -/

def Loads (file : PageFile Area) (ids : List Nat) : Prop := ∀ id ∈ ids, ∃ page, load file id = .ok page

theorem along_repairTurn {rebuilt final : Rebuilt} :
    Walk.along (repairTurn file) ids rebuilt = .ok final ↔
      Loads file ids ∧ final = ⟨rebuilt.pages + ids.length,
        rebuilt.records + (ids.map (recordsOf file)).sum, ids.getLast?.or rebuilt.last⟩ := by
  induction ids generalizing rebuilt with
  | nil =>
    rw [Walk.along]
    constructor
    · intro h
      cases h
      exact ⟨fun _ hid => absurd hid List.not_mem_nil, by simp⟩
    · rintro ⟨-, rfl⟩
      simp
  | cons id ids ih =>
    rw [Walk.along]
    cases hload : load file id with
    | error error =>
      have hturn : repairTurn file id rebuilt = .error error := by
        rw [repairTurn, hload]
        rfl
      rw [hturn]
      constructor
      · intro h
        cases h
      · rintro ⟨hloads, -⟩
        obtain ⟨page, hpage⟩ := hloads id List.mem_cons_self
        rw [hload] at hpage
        cases hpage
    | ok page =>
      have hturn : repairTurn file id rebuilt =
          .ok (⟨rebuilt.pages + 1, rebuilt.records + page.recordCount, some id⟩, page.nextPage) := by
        rw [repairTurn, hload]
        rfl
      rw [hturn]
      dsimp only
      rw [ih]
      have hlast : ids.getLast?.or (some id) = (id :: ids).getLast?.or rebuilt.last := by
        rw [List.getLast?_cons]
        cases ids.getLast? <;> rfl
      have hsame : (⟨rebuilt.pages + 1 + ids.length,
          rebuilt.records + page.recordCount + (ids.map (recordsOf file)).sum,
          ids.getLast?.or (some id)⟩ : Rebuilt) =
          ⟨rebuilt.pages + (id :: ids).length, rebuilt.records + ((id :: ids).map (recordsOf file)).sum,
            (id :: ids).getLast?.or rebuilt.last⟩ := by
        rw [hlast, List.map_cons, List.sum_cons, recordsOf_of_load hload, List.length_cons,
          Nat.add_assoc, Nat.add_comm 1, Nat.add_assoc]
      rw [hsame]
      exact and_congr_left fun _ =>
        ⟨fun h => List.forall_mem_cons.2 ⟨⟨page, hload⟩, h⟩, fun h => (List.forall_mem_cons.1 h).2⟩

/-- What `layout` says of a page. -/
def infoOf (file : PageFile Area) (id : Nat) : TableHeapPageInfo :=
  match loadTrusted file id with
  | .ok page => ⟨id, page.previousPage, page.nextPage, page.recordCount, page.freeSpace⟩
  | .error _ => ⟨id, none, none, 0, 0⟩

theorem along_layoutTurn {found final : TableHeap.Layout} :
    Walk.along (TableHeap.layoutTurn file) ids found = .ok final ↔
      Loads file ids ∧ BackLinked file found.previous ids ∧
        final = ⟨ids.getLast?.or found.previous, found.recordCount + (ids.map (recordsOf file)).sum,
          found.pages ++ ids.map (infoOf file)⟩ := by
  induction ids generalizing found with
  | nil =>
    rw [Walk.along]
    constructor
    · intro h
      cases h
      exact ⟨fun _ hid => absurd hid List.not_mem_nil, trivial, by simp⟩
    · rintro ⟨-, -, rfl⟩
      simp
  | cons id ids ih =>
    rw [Walk.along]
    cases hload : load file id with
    | error error =>
      have hturn : TableHeap.layoutTurn file id found = .error error := by
        rw [TableHeap.layoutTurn, hload]
        rfl
      rw [hturn]
      constructor
      · intro h
        cases h
      · rintro ⟨hloads, -⟩
        obtain ⟨page, hpage⟩ := hloads id List.mem_cons_self
        rw [hload] at hpage
        cases hpage
    | ok page =>
      have hinfo : infoOf file id =
          ⟨id, page.previousPage, page.nextPage, page.recordCount, page.freeSpace⟩ := by
        rw [infoOf, loadTrusted_of_load hload]
      by_cases hprevious : page.previousPage = found.previous
      · have hturn : TableHeap.layoutTurn file id found =
            .ok (⟨some id, found.recordCount + page.recordCount, found.pages ++ [infoOf file id]⟩,
              page.nextPage) := by
          rw [TableHeap.layoutTurn, hload, hinfo]
          change (if page.previousPage ≠ found.previous then _ else _) = _
          rw [if_neg (not_not.2 hprevious)]
          rfl
        rw [hturn]
        dsimp only
        rw [ih]
        have hlast : ids.getLast?.or (some id) = (id :: ids).getLast?.or found.previous := by
          rw [List.getLast?_cons]
          cases ids.getLast? <;> rfl
        have hsame : (⟨ids.getLast?.or (some id),
            found.recordCount + page.recordCount + (ids.map (recordsOf file)).sum,
            found.pages ++ [infoOf file id] ++ ids.map (infoOf file)⟩ : TableHeap.Layout) =
            ⟨(id :: ids).getLast?.or found.previous,
              found.recordCount + ((id :: ids).map (recordsOf file)).sum,
              found.pages ++ (id :: ids).map (infoOf file)⟩ := by
          rw [hlast, List.map_cons, List.map_cons, List.sum_cons, recordsOf_of_load hload,
            Nat.add_assoc, List.append_assoc, List.singleton_append]
        rw [hsame]
        constructor
        · rintro ⟨hloads, hback, hfinal⟩
          exact ⟨List.forall_mem_cons.2 ⟨⟨page, hload⟩, hloads⟩,
            ⟨(previousOf_of_load hload).trans hprevious, hback⟩, hfinal⟩
        · rintro ⟨hloads, ⟨-, hback⟩, hfinal⟩
          exact ⟨(List.forall_mem_cons.1 hloads).2, hback, hfinal⟩
      · have hturn : ∃ error, TableHeap.layoutTurn file id found = .error error := by
          rw [TableHeap.layoutTurn, hload]
          change ∃ error, (if page.previousPage ≠ found.previous then _ else _) = Except.error error
          rw [if_pos hprevious]
          exact ⟨_, rfl⟩
        obtain ⟨error, hturn⟩ := hturn
        rw [hturn]
        constructor
        · intro h
          cases h
        · rintro ⟨-, ⟨hback, -⟩, -⟩
          exact absurd ((previousOf_of_load hload).symm.trans hback) hprevious

/-! ### Their results -/

theorem link_repairTurn (id : Nat) (rebuilt rebuilt' : Rebuilt) (next : Option Nat)
    (h : repairTurn file id rebuilt = .ok (rebuilt', next)) : nextOf file id = next := by
  unfold repairTurn at h
  cases hload : load file id with
  | error error =>
    rw [hload] at h
    cases h
  | ok page =>
    rw [hload] at h
    cases h
    exact nextOf_of_load hload

theorem link_layoutTurn (id : Nat) (found found' : TableHeap.Layout) (next : Option Nat)
    (h : TableHeap.layoutTurn file id found = .ok (found', next)) : nextOf file id = next := by
  unfold TableHeap.layoutTurn at h
  cases hload : load file id with
  | error error =>
    rw [hload] at h
    cases h
  | ok page =>
    rw [hload] at h
    change (if page.previousPage ≠ found.previous then _ else _) = _ at h
    split at h
    · cases h
    · cases h
      exact nextOf_of_load hload

omit [PageSize] in
theorem length_le_pageCount (hnodup : ids.Nodup) (h : ∀ id ∈ ids, id < file.pageCount) :
    ids.length ≤ file.pageCount := by
  have hsub : ids.toFinset ⊆ Finset.range file.pageCount := fun id hid =>
    Finset.mem_range.2 (h id (List.mem_toFinset.1 hid))
  calc ids.length = ids.toFinset.card := (List.toFinset_card_of_nodup hnodup).symm
    _ ≤ (Finset.range file.pageCount).card := Finset.card_le_card hsub
    _ = file.pageCount := Finset.card_range _

theorem Loads.lt_pageCount (h : Loads file ids) : ∀ id ∈ ids, id < file.pageCount := by
  intro id hid
  obtain ⟨page, hload⟩ := h id hid
  obtain ⟨bytes, hread, -⟩ := load_eq_ok hload
  exact lt_pageCount_of_read hread

theorem visit_repairTurn {first : Nat} {final : Rebuilt} :
    Walk.visit visitCycle (repairTurn file) (pageFuel file) [] first ⟨0, 0, none⟩ = .ok final ↔
      ∃ ids, Chain.Path (nextOf file) (some first) ids none ∧ Loads file ids ∧
        final = ⟨ids.length, (ids.map (recordsOf file)).sum, ids.getLast?⟩ := by
  rw [Walk.visit_eq_ok_iff link_repairTurn]
  simp only [along_repairTurn, Nat.zero_add, Option.or_none]
  constructor
  · rintro ⟨ids, -, hpath, -, hloads, hfinal⟩
    exact ⟨ids, hpath, hloads, hfinal⟩
  · rintro ⟨ids, hpath, hloads, hfinal⟩
    exact ⟨ids, Nat.le_succ_of_le (length_le_pageCount hpath.nodup hloads.lt_pageCount), hpath,
      fun _ _ => List.not_mem_nil, hloads, hfinal⟩

theorem visit_layoutTurn {first : Nat} {final : TableHeap.Layout} :
    Walk.visit visitCycle (TableHeap.layoutTurn file) (pageFuel file) [] first ⟨none, 0, []⟩ =
        .ok final ↔
      ∃ ids, Chain.Path (nextOf file) (some first) ids none ∧ Loads file ids ∧
        BackLinked file none ids ∧
        final = ⟨ids.getLast?, (ids.map (recordsOf file)).sum, ids.map (infoOf file)⟩ := by
  rw [Walk.visit_eq_ok_iff link_layoutTurn]
  simp only [along_layoutTurn, Nat.zero_add, Option.or_none, List.nil_append]
  constructor
  · rintro ⟨ids, -, hpath, -, hloads, hback, hfinal⟩
    exact ⟨ids, hpath, hloads, hback, hfinal⟩
  · rintro ⟨ids, hpath, hloads, hback, hfinal⟩
    exact ⟨ids, Nat.le_succ_of_le (length_le_pageCount hpath.nodup hloads.lt_pageCount), hpath,
      fun _ _ => List.not_mem_nil, hloads, hback, hfinal⟩

end MoDb.Storage
