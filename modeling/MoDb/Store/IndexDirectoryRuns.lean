import MoDb.Store.IndexDirectoryPages

/-!
# The catalogue of indexes over its changes

After every change the chain of pages holds the entries in memory, in their order, so the catalogue that is
opened is the one that was written.
-/

namespace MoDb.IndexCatalog

open Storage Store Effect

variable [PageSize]

def Stored (tx : Bool) (frame : Multiset (Nat × Area)) (catalog : IndexCatalog) (file : PageFile Area) :
    Prop :=
  ∃ pages : List (List IndexInfo), pages.flatten = catalog.indexes ∧
    (∀ entries ∈ pages, FitsPage entries) ∧
    (catalog.directory :: catalog.overflow).length = pages.length ∧
    Held tx file (↑(directoryPages (catalog.directory :: catalog.overflow) pages) + frame)

variable {tx : Bool} {file : PageFile Area} {frame : Multiset (Nat × Area)} {catalog : IndexCatalog}

omit [PageSize] in
theorem map_fst_directoryPages {ids : List Nat} {pages : List (List IndexInfo)}
    (h : ids.length = pages.length) : (directoryPages ids pages).map Prod.fst = ids := by
  induction ids generalizing pages with
  | nil => rfl
  | cons id ids ih =>
    obtain ⟨entries, pages, rfl⟩ := List.exists_cons_of_length_eq_add_one h.symm
    rw [directoryPages, List.map_cons, ih (Nat.succ.inj h)]

/-! ### Reading it back -/

theorem Stored.directory_notMem (h : Stored tx frame catalog file) :
    catalog.directory ∉ catalog.overflow := by
  obtain ⟨pages, -, -, hlength, hheld⟩ := h
  have hnodup := (hheld.mono (Multiset.le_add_right _ _)).holds.nodup
  rw [Multiset.map_coe, map_fst_directoryPages hlength, Multiset.coe_nodup, List.nodup_cons] at hnodup
  exact hnodup.1

theorem Stored.open (h : Stored tx frame catalog file) {rounds : Nat}
    (hrounds : catalog.overflow.length + 1 < rounds) :
    IndexCatalog.open catalog.directory rounds file = .ok (some catalog) file := by
  have hfilter : (catalog.directory :: catalog.overflow).filter (· ≠ catalog.directory) =
      catalog.overflow := by
    rw [List.filter_cons_of_neg (by simp), List.filter_eq_self]
    intro id hid
    exact decide_eq_true fun heq => h.directory_notMem (heq ▸ hid)
  obtain ⟨pages, hflatten, hfits, hlength, hheld⟩ := h
  have hloop := @held_openLoop _ _ _ _ catalog.directory _ _ hlength hfits hheld _ hrounds [] []
  rw [List.headD_cons, hfilter, hflatten, List.nil_append, List.nil_append] at hloop
  rw [IndexCatalog.open, bind_of_ok hloop]
  rfl

/-! ### Writing it -/

theorem held_persist {old : List (Nat × Area)}
    (hids : old.map Prod.fst = catalog.directory :: catalog.overflow)
    (h : Held tx file (↑old + frame)) :
    Outcome (fun catalog' file' => catalog'.directory = catalog.directory ∧
        catalog'.indexes = catalog.indexes ∧ Stored tx frame catalog' file')
      (fun error file' => Held tx file' (↑old + frame) ∧
        ((∃ info ∈ catalog.indexes, pageSize - headerSize < entryBytes info) ∨
          error = pageCountFault ∧ file'.pageCount = 2 ^ 64 - 1)) (persist catalog file) := by
  unfold persist
  cases hpack : pack catalog.indexes with
  | error error =>
    refine ⟨h, .inl ?_⟩
    by_contra hnone
    obtain ⟨pages, hpages⟩ := pack_ok_iff.2 fun info hinfo =>
      Nat.not_lt.1 fun hlt => hnone ⟨info, hinfo, hlt⟩
    rw [hpack] at hpages
    cases hpages
  | ok pages =>
    obtain ⟨hflatten, hfits, hne⟩ := pack_ok hpack
    have hpos : 0 < pages.length := List.length_pos_iff.2 hne
    change Outcome _ _ ((allocatePages (pages.length - 1 - catalog.overflow.length) >>= _) file)
    apply ((h.allocatePages _).mono (fun _ _ h => h) fun error file' hfull =>
      ⟨hfull.2.2, .inr ⟨hfull.1, hfull.2.1⟩⟩).bind
    rintro ids file₁ ⟨hcount, fresh, rfl, h₁⟩
    obtain ⟨first, rest, rfl⟩ : ∃ first rest, old = first :: rest := by
      cases old with
      | nil => cases hids
      | cons first rest => exact ⟨first, rest, rfl⟩
    obtain ⟨hfirst, hrest⟩ := List.cons.inj hids
    have hrestLength : rest.length = catalog.overflow.length := by rw [← hrest, List.length_map]
    rw [List.length_map] at hcount
    -- the pages of the new chain, and those left over
    let kept := first :: (rest.take (pages.length - 1) ++ fresh)
    have hkept : kept.map Prod.fst =
        catalog.directory :: (catalog.overflow.take (pages.length - 1) ++ fresh.map Prod.fst) := by
      rw [List.map_cons, List.map_append, List.map_take, hfirst, hrest]
    have hlength : kept.length = pages.length := by
      rw [List.length_cons, List.length_append, List.length_take, hcount]
      omega
    have hsplit : (↑fresh + (↑(first :: rest) + frame) : Multiset (Nat × Area)) =
        ↑kept + (↑(rest.drop (pages.length - 1)) + frame) := by
      have hrestSplit : (↑rest : Multiset (Nat × Area)) =
          ↑(rest.take (pages.length - 1)) + ↑(rest.drop (pages.length - 1)) := by
        rw [Multiset.coe_add, List.take_append_drop]
      rw [cons_add, cons_add, hrestSplit, ← Multiset.coe_add]
      abel
    obtain ⟨file₂, hwrite, h₂⟩ := held_writePages hlength (h₁.of_eq hsplit)
    obtain ⟨file₃, hclear, h₃⟩ := (h₂.of_eq (add_left_comm _ _ _)).clearPages
    rw [hkept] at hwrite h₃
    rw [List.map_drop, hrest] at hclear
    rw [bind_of_ok hwrite, bind_of_ok hclear]
    refine ⟨rfl, rfl, pages, hflatten, hfits, ?_, h₃⟩
    change (catalog.directory :: (catalog.overflow.take (pages.length - 1) ++ fresh.map Prod.fst)).length = _
    rw [← hkept, List.length_map, hlength]

theorem Stored.persist (h : Stored tx frame catalog file) (indexes : List IndexInfo) :
    Outcome (fun catalog' file' => catalog'.directory = catalog.directory ∧
        catalog'.indexes = indexes ∧ Stored tx frame catalog' file')
      (fun error file' => Stored tx frame catalog file' ∧
        ((∃ info ∈ indexes, pageSize - headerSize < entryBytes info) ∨
          error = pageCountFault ∧ file'.pageCount = 2 ^ 64 - 1))
      (IndexCatalog.persist { catalog with indexes := indexes } file) := by
  obtain ⟨pages, hflatten, hfits, hlength, hheld⟩ := h
  have hids := map_fst_directoryPages hlength
  exact (@held_persist _ _ _ _ { catalog with indexes := indexes } _ hids hheld).mono
    (fun _ _ h => h) fun _ _ h => ⟨⟨pages, hflatten, hfits, hlength, h.1⟩, h.2⟩

theorem Stored.entryBytes_le (h : Stored tx frame catalog file) :
    ∀ info ∈ catalog.indexes, entryBytes info ≤ pageSize - headerSize := by
  obtain ⟨pages, hflatten, hfits, -, -⟩ := h
  intro info hinfo
  rw [← hflatten] at hinfo
  obtain ⟨entries, hentries, hmem⟩ := List.mem_flatten.1 hinfo
  exact entryBytes_le_of_fitsPage (hfits entries hentries) hmem

theorem stored_create (h : Held tx file frame) :
    Outcome (fun catalog file' => catalog.indexes = [] ∧ Stored tx frame catalog file')
      (fun _ file' => Held tx file' frame) (create file) := by
  apply (h.allocate.mono (fun _ _ h => h) fun _ _ hfull => hfull.2.2).bind
  rintro directory file₁ ⟨page, h₁⟩
  have hids : [(directory, page)].map Prod.fst = directory :: [] := rfl
  exact (@held_persist _ _ _ _ ⟨directory, [], []⟩ _ hids h₁).mono (fun _ _ h => h.2)
    fun _ _ h => h.1.mono (Multiset.le_add_left _ _)

/-! ### Changes -/

def Change.entries (indexes : List IndexInfo) : Change → List IndexInfo
  | .add info => indexes ++ [info]
  | .setRoot slot root => indexes.modify slot fun info => { info with root := root }

/-- The catalogue takes a change: a new index whose entry fits a page, or a root for an index that it has. -/
def Change.Allowed (catalog : IndexCatalog) : Change → Prop
  | .add info =>
    catalog.contains info.typeName info.fieldId = false ∧ entryBytes info ≤ pageSize - headerSize
  | .setRoot slot _ => slot < catalog.indexes.length

theorem Change.Allowed.entryBytes_le {change : Change} (h : Stored tx frame catalog file)
    (hallowed : change.Allowed catalog) :
    ∀ info ∈ change.entries catalog.indexes, entryBytes info ≤ pageSize - headerSize := by
  intro info hinfo
  cases change with
  | add added =>
    rcases List.mem_append.1 hinfo with hold | hnew
    · exact h.entryBytes_le info hold
    · rw [List.mem_singleton.1 hnew]
      exact hallowed.2
  | setRoot slot root =>
    obtain ⟨i, hi⟩ := List.mem_iff_getElem?.1 hinfo
    rw [Change.entries, List.getElem?_modify] at hi
    obtain ⟨old, hold, hsame⟩ := Option.map_eq_some_iff.1 hi
    have hle := h.entryBytes_le old (List.mem_of_getElem? hold)
    have hbytes : entryBytes info = entryBytes old := by
      rw [← hsame]
      split
      · rfl
      · rfl
    rwa [hbytes]

theorem Stored.action (h : Stored tx frame catalog file) (change : Change) :
    Outcome (fun catalog' file' => (catalog'.directory = catalog.directory ∧ Stored tx frame catalog' file') ∧
        change.Allowed catalog ∧ catalog'.indexes = change.entries catalog.indexes)
      (fun error file' => Stored tx frame catalog file' ∧
        (¬change.Allowed catalog ∨ error = pageCountFault ∧ file'.pageCount = 2 ^ 64 - 1))
      (change.action catalog file) := by
  have hrefused {error : Error} {file' : PageFile Area}
      (hwhy : (∃ info ∈ change.entries catalog.indexes, pageSize - headerSize < entryBytes info) ∨
        error = pageCountFault ∧ file'.pageCount = 2 ^ 64 - 1) :
      ¬change.Allowed catalog ∨ error = pageCountFault ∧ file'.pageCount = 2 ^ 64 - 1 :=
    hwhy.imp_left fun ⟨info, hinfo, hlt⟩ hallowed =>
      Nat.not_lt.2 (hallowed.entryBytes_le h info hinfo) hlt
  cases change with
  | add info =>
    rw [Change.action, add, ite_run]
    split
    · rename_i hthere
      exact ⟨h, .inl fun hallowed => absurd (hallowed.1.symm.trans hthere) Bool.false_ne_true⟩
    · rename_i hnew
      apply (h.persist (catalog.indexes ++ [info])).mono
      · rintro catalog' file' ⟨hdirectory, hindexes, hstored⟩
        refine ⟨⟨hdirectory, hstored⟩, ⟨Bool.eq_false_iff.2 hnew, ?_⟩, hindexes⟩
        apply hstored.entryBytes_le
        rw [hindexes]
        exact List.mem_append_right _ (List.mem_singleton_self _)
      · exact fun error file' hfailed => ⟨hfailed.1, hrefused hfailed.2⟩
  | setRoot slot root =>
    rw [Change.action, setRoot, ite_run]
    split
    · rename_i hrange
      exact ⟨h, .inl (Nat.not_lt.2 hrange)⟩
    · rename_i hrange
      apply (h.persist (catalog.indexes.modify slot fun info => { info with root := root })).mono
      · rintro catalog' file' ⟨hdirectory, hindexes, hstored⟩
        exact ⟨⟨hdirectory, hstored⟩, Nat.not_le.1 hrange, hindexes⟩
      · exact fun error file' hfailed => ⟨hfailed.1, hrefused hfailed.2⟩

theorem Stored.apply (h : Stored tx frame catalog file) (change : Change) :
    (change.apply (catalog, file)).1.directory = catalog.directory ∧
      Stored tx frame (change.apply (catalog, file)).1 (change.apply (catalog, file)).2 := by
  have haction := h.action change
  unfold Change.apply
  dsimp only
  cases hresult : change.action catalog file with
  | ok catalog' file' =>
    rw [hresult] at haction
    exact haction.1
  | error error file' =>
    rw [hresult] at haction
    exact ⟨rfl, haction.1⟩

theorem Stored.run (h : Stored tx frame catalog file) (changes : List Change) :
    (IndexCatalog.run changes (catalog, file)).1.directory = catalog.directory ∧
      Stored tx frame (IndexCatalog.run changes (catalog, file)).1
        (IndexCatalog.run changes (catalog, file)).2 := by
  induction changes generalizing catalog file with
  | nil => exact ⟨rfl, h⟩
  | cons change changes ih =>
    obtain ⟨hdirectory, hstored⟩ := h.apply change
    obtain ⟨hdirectory', hstored'⟩ := ih hstored
    exact ⟨hdirectory'.trans hdirectory, hstored'⟩

/-- Whatever is added and moved, the catalogue that is opened is the one in memory, and a further change
adds or moves its entry exactly if it is allowed, but for a file that is full. -/
theorem open_run {file file₁ : PageFile Area} {catalog : IndexCatalog} (hpos : 0 < file.pageCount)
    (hfits : file.pageCount < 2 ^ 64) (hcreate : create file = .ok catalog file₁)
    (changes : List Change) :
    (∃ enough, ∀ rounds, enough ≤ rounds →
      «open» catalog.directory rounds (run changes (catalog, file₁)).2 =
        .ok (some (run changes (catalog, file₁)).1) (run changes (catalog, file₁)).2) ∧
    catalog.indexes = [] ∧ ∀ change : Change,
      Outcome (fun catalog' _ => change.Allowed (run changes (catalog, file₁)).1 ∧
          catalog'.indexes = change.entries (run changes (catalog, file₁)).1.indexes)
        (fun error file' => ¬change.Allowed (run changes (catalog, file₁)).1 ∨
          error = pageCountFault ∧ file'.pageCount = 2 ^ 64 - 1)
        (change.action (run changes (catalog, file₁)).1 (run changes (catalog, file₁)).2) := by
  have hempty : Held file.inTransaction file 0 :=
    ⟨⟨Multiset.nodup_zero, fun _ hpage => absurd hpage (Multiset.notMem_zero _)⟩, hpos, hfits, rfl⟩
  have hcreated := stored_create hempty
  rw [hcreate] at hcreated
  obtain ⟨hdirectory, hstored⟩ := hcreated.2.run changes
  refine ⟨⟨(run changes (catalog, file₁)).1.overflow.length + 2, fun rounds hrounds => ?_⟩, hcreated.1,
    fun change => ?_⟩
  · rw [← hdirectory]
    exact hstored.open hrounds
  · exact (hstored.action change).mono (fun _ _ hdone => hdone.2) fun _ _ hfailed => hfailed.2

omit [PageSize] in
theorem open_run_two : letI := PageSize.default
    ∃ catalog file₁, create PageFile.create = .ok catalog file₁ ∧
      (∃ enough, ∀ rounds, enough ≤ rounds →
        «open» catalog.directory rounds
            (run [.add ⟨[65], 1, 9⟩, .add ⟨[66], 1, 10⟩, .setRoot 0 11] (catalog, file₁)).2 =
          .ok (some (run [.add ⟨[65], 1, 9⟩, .add ⟨[66], 1, 10⟩, .setRoot 0 11] (catalog, file₁)).1)
            (run [.add ⟨[65], 1, 9⟩, .add ⟨[66], 1, 10⟩, .setRoot 0 11] (catalog, file₁)).2) ∧
      (run [.add ⟨[65], 1, 9⟩, .add ⟨[66], 1, 10⟩, .setRoot 0 11] (catalog, file₁)).1.indexes =
        [⟨[65], 1, 11⟩, ⟨[66], 1, 10⟩] := by
  have hpos : 0 < (PageFile.create : PageFile Area).pageCount := Nat.one_pos
  exact ⟨_, _, rfl, (@open_run PageSize.default _ _ _ hpos (by decide) rfl _).1, rfl⟩

end MoDb.IndexCatalog
