import MoDb.Storage.SlotDirectory

/-!
# Runs on a slotted page

A page that `validate_page` accepts stays so under any operations, and what it says is what the answers
of the operations say: a record is what was last written to its slot, wherever it was moved.
-/

namespace MoDb.Storage

namespace SlottedPage

variable [PageSize]

/-! ### What `validate_page` accepts -/

def Stored (page : SlottedPage) : Prop := ∀ slot ∈ page.slots, slot.generation ≤ 65535

theorem checkSlots_ok {freeEnd : Nat} {slots : List Slot} {blocks : List Block}
    (h : checkSlots freeEnd slots = .ok blocks) :
    blocks = (slots.filter Slot.occupied).map Slot.block ∧ ∀ slot ∈ slots, 0 < slot.generation ∧
      (slot.occupied = false → slot.offset = 0 ∧ slot.capacity = 0) ∧
      (slot.occupied = true →
        slot.size ≤ slot.capacity ∧ freeEnd ≤ slot.offset ∧ slot.offset + slot.capacity ≤ pageSize) := by
  induction slots generalizing blocks with
  | nil =>
    cases h
    exact ⟨rfl, fun slot hslot => absurd hslot List.not_mem_nil⟩
  | cons slot slots ih =>
    rw [checkSlots] at h
    by_cases hgeneration : slot.generation = 0
    · rw [if_pos hgeneration] at h
      cases h
    rw [if_neg hgeneration] at h
    have hpos : 0 < slot.generation := Nat.pos_of_ne_zero hgeneration
    by_cases hsize : slot.size = 0
    · have hocc : slot.occupied = false := by simp [Slot.occupied, hsize]
      rw [if_pos hsize] at h
      by_cases hrest : slot.offset ≠ 0 ∨ slot.capacity ≠ 0
      · rw [if_pos hrest] at h
        cases h
      rw [if_neg hrest] at h
      obtain ⟨hblocks, hslots⟩ := ih h
      rw [List.filter_cons_of_neg (by simp [hocc])]
      refine ⟨hblocks, List.forall_mem_cons.2 ⟨⟨hpos, ?_, ?_⟩, hslots⟩⟩
      · intro _
        omega
      · intro hnot
        rw [hocc] at hnot
        cases hnot
    · have hocc : slot.occupied = true := occupied_iff.2 hsize
      rw [if_neg hsize] at h
      by_cases hcapacity : slot.capacity < slot.size
      · rw [if_pos hcapacity] at h
        cases h
      rw [if_neg hcapacity] at h
      by_cases hrange : slot.offset < freeEnd ∨ pageSize < slot.offset ∨
          pageSize - slot.offset < slot.capacity
      · rw [if_pos hrange] at h
        cases h
      rw [if_neg hrange] at h
      cases hrest : checkSlots freeEnd slots with
      | error error =>
        rw [hrest] at h
        cases h
      | ok rest =>
        rw [hrest] at h
        cases h
        obtain ⟨hblocks, hslots⟩ := ih hrest
        rw [List.filter_cons_of_pos hocc, List.map_cons, ← hblocks]
        refine ⟨rfl, List.forall_mem_cons.2 ⟨⟨hpos, ?_, ?_⟩, hslots⟩⟩
        · intro hnot
          rw [hocc] at hnot
          cases hnot
        · intro _
          omega

theorem valid_of_validate {page : SlottedPage} (hstored : page.Stored) (h : page.validate = .ok ()) :
    page.Valid := by
  unfold validate at h
  split at h
  · cases h
  · split at h
    · cases h
    · rename_i hends
      cases hslots : checkSlots page.freeEnd page.slots with
      | error error =>
        rw [hslots] at h
        cases h
      | ok blocks =>
        rw [hslots] at h
        dsimp only at h
        split at h
        · rename_i horder
          obtain ⟨hblocks, heach⟩ := checkSlots_ok hslots
          have hapart : blocks.Pairwise Block.Apart := by
            apply Block.pairwise_of_mergeSort horder
            intro b hb
            rw [hblocks] at hb
            obtain ⟨slot, hslot, rfl⟩ := List.mem_map.1 hb
            obtain ⟨hmem, hocc⟩ := List.mem_filter.1 hslot
            have hsize := ((heach slot hmem).2.2 hocc).1
            have hne := occupied_iff.1 hocc
            exact Nat.lt_add_of_pos_right (by omega)
          rw [hblocks, List.pairwise_map, List.pairwise_filter, List.pairwise_iff_getElem] at hapart
          constructor
          · omega
          · omega
          · exact fun slot hslot => ⟨(heach slot hslot).1, hstored slot hslot⟩
          · exact fun slot hslot => (heach slot hslot).2.1
          · exact fun slot hslot => (heach slot hslot).2.2
          · intro i j s t hs ht hij hsocc htocc
            obtain ⟨hi, rfl⟩ := List.getElem?_eq_some_iff.1 hs
            obtain ⟨hj, rfl⟩ := List.getElem?_eq_some_iff.1 ht
            rcases Nat.lt_or_gt_of_ne hij with hlt | hgt
            · exact hapart i j hi hj hlt hsocc htocc
            · exact (hapart j i hj hi hgt htocc hsocc).symm
        · cases h

/-! ### Operations -/

end SlottedPage

inductive PageOp
  | insert (record : Bytes)
  | update (id : Nat) (record : Bytes)
  | erase (id : Nat)
  | compact

namespace PageOp

variable [PageSize]

/-- The answer of an operation, with the slot that it is about, and the page after it. -/
def answer (page : SlottedPage) : PageOp → Except Error (Option Nat × SlottedPage)
  | .insert record => (page.insert record).map fun (id, page) => (some id, page)
  | .update id record => (page.update id record).map fun page => (some id, page)
  | .erase id => (page.erase id).map fun page => (some id, page)
  | .compact => .ok (none, page.compact)

def apply (page : SlottedPage) (op : PageOp) : SlottedPage :=
  match op.answer page with
  | .ok (_, page) => page
  | .error _ => page

/-- What the user of a page knows of its directory after an operation, by its answer alone. -/
def track (entries : List Entry) (answer : Except Error (Option Nat × SlottedPage)) :
    PageOp → List Entry
  | .insert record =>
    match answer with
    | .ok (some id, _) =>
      put entries id (some record, match entries[id]? with
        | some (_, generation) => generation + 1
        | none => 1)
    | _ => entries
  | .update id record =>
    match answer with
    | .ok _ => entries.modify id fun (_, generation) => (some record, generation)
    | .error _ => entries
  | .erase id =>
    match answer with
    | .ok _ => entries.modify id fun (_, generation) => (none, generation)
    | .error _ => entries
  | .compact => entries

def follow (state : SlottedPage × List Entry) (op : PageOp) : SlottedPage × List Entry :=
  (op.apply state.1, op.track state.2 (op.answer state.1))

end PageOp

namespace SlottedPage

variable [PageSize]

omit [PageSize] in
theorem modify_eq_put {α : Type} {l : List α} {id : Nat} {a : α} (h : l[id]? = some a) (f : α → α) :
    l.modify id f = put l id (f a) := by
  have hlt := (List.getElem?_eq_some_iff.1 h).1
  apply List.ext_getElem?
  intro k
  rw [List.getElem?_modify, getElem?_put (Nat.le_of_lt hlt)]
  by_cases hk : id = k
  · subst hk
    rw [if_pos rfl, h]
    simp only [if_true, Option.map_eq_map, Option.map_some]
  · rw [if_neg (Ne.symm hk)]
    simp only [hk, if_false, Option.map_eq_map, Option.map_id']

omit [PageSize] in
theorem exists_of_occupiedSlot {page : SlottedPage} {id : Nat} {slot : Slot}
    (h : page.occupiedSlot id = .ok slot) :
    ∃ record, page.entries[id]? = some (some record, slot.generation) := by
  have hgeneration : page.generation id = .ok slot.generation := by
    rw [SlottedPage.generation, h]
    rfl
  exact exists_of_generation hgeneration

theorem exists_of_update {page updated : SlottedPage} {id : Nat} {record : Bytes}
    (h : page.update id record = .ok updated) :
    ∃ old generation, page.entries[id]? = some (some old, generation) := by
  unfold update at h
  split at h
  · cases h
  · cases hslot : page.occupiedSlot id with
    | error error =>
      rw [hslot] at h
      cases h
    | ok slot =>
      obtain ⟨old, hold⟩ := exists_of_occupiedSlot hslot
      exact ⟨old, _, hold⟩

omit [PageSize] in
theorem exists_of_erase {page erased : SlottedPage} {id : Nat} (h : page.erase id = .ok erased) :
    ∃ record generation, page.entries[id]? = some (some record, generation) := by
  unfold erase at h
  cases hslot : page.occupiedSlot id with
  | error error =>
    rw [hslot] at h
    cases h
  | ok slot =>
    obtain ⟨record, hrecord⟩ := exists_of_occupiedSlot hslot
    exact ⟨record, _, hrecord⟩

omit [PageSize] in
theorem NewGeneration.entry_eq {entries : List Entry} {id generation : Nat}
    (h : NewGeneration entries id generation) :
    (match entries[id]? with
      | some (_, generation) => generation + 1
      | none => 1) = generation ∧ ∀ entry, entries[id]? = some entry → entry.1 = none := by
  rcases h with ⟨rfl, rfl⟩ | ⟨last, hentry, -, rfl⟩
  · rw [List.getElem?_eq_none (Nat.le_refl _)]
    exact ⟨rfl, nofun⟩
  · rw [hentry]
    refine ⟨rfl, ?_⟩
    intro entry h
    cases h
    rfl

/-- What an operation that succeeds makes of the directory: one entry is written, or none. -/
inductive Changes (entries : List Entry) : PageOp → Option Nat → List Entry → Prop
  | insert {record : Bytes} {id generation : Nat} (hnew : NewGeneration entries id generation) :
      Changes entries (.insert record) (some id) (put entries id (some record, generation))
  | update {record old : Bytes} {id generation : Nat}
      (hentry : entries[id]? = some (some old, generation)) :
      Changes entries (.update id record) (some id) (put entries id (some record, generation))
  | erase {record : Bytes} {id generation : Nat} (hentry : entries[id]? = some (some record, generation)) :
      Changes entries (.erase id) (some id) (put entries id (none, generation))
  | compact : Changes entries .compact none entries

theorem Valid.changes {page next : SlottedPage} (h : page.Valid) {op : PageOp} {id : Option Nat}
    (hanswer : op.answer page = .ok (id, next)) : next.Valid ∧ Changes page.entries op id next.entries := by
  cases op with
  | insert record =>
    change (page.insert record).map _ = _ at hanswer
    cases hinsert : page.insert record with
    | error error =>
      rw [hinsert] at hanswer
      cases hanswer
    | ok result =>
      rw [hinsert] at hanswer
      cases hanswer
      obtain ⟨generation, hinserted⟩ := h.insert_spec hinsert
      rw [hinserted.entries]
      exact ⟨hinserted.valid, .insert hinserted.isNew⟩
  | update id record =>
    change (page.update id record).map _ = _ at hanswer
    cases hupdate : page.update id record with
    | error error =>
      rw [hupdate] at hanswer
      cases hanswer
    | ok updated =>
      rw [hupdate] at hanswer
      cases hanswer
      obtain ⟨old, generation, hentry⟩ := exists_of_update hupdate
      obtain ⟨hvalid, -, -, hentries⟩ := h.update_spec hentry hupdate
      rw [hentries]
      exact ⟨hvalid, .update hentry⟩
  | erase id =>
    change (page.erase id).map _ = _ at hanswer
    cases herase : page.erase id with
    | error error =>
      rw [herase] at hanswer
      cases hanswer
    | ok erased =>
      rw [herase] at hanswer
      cases hanswer
      obtain ⟨record, generation, hentry⟩ := exists_of_erase herase
      obtain ⟨_, hsame, hvalid, -, -, hentries⟩ := h.erase_spec hentry
      rw [herase] at hsame
      cases hsame
      rw [hentries]
      exact ⟨hvalid, .erase hentry⟩
  | compact =>
    cases hanswer
    rw [h.entries_compact]
    exact ⟨h.compact, .compact⟩

omit [PageSize] in
theorem Changes.track_eq {entries entries' : List Entry} {op : PageOp} {id : Option Nat}
    (h : Changes entries op id entries') (next : SlottedPage) :
    op.track entries (.ok (id, next)) = entries' := by
  cases h with
  | insert hnew =>
    unfold PageOp.track
    dsimp only
    rw [hnew.entry_eq.1]
  | update hentry => exact modify_eq_put hentry _
  | erase hentry => exact modify_eq_put hentry _
  | compact => rfl

omit [PageSize] in
theorem Changes.other {entries entries' : List Entry} {op : PageOp} {id : Option Nat}
    (h : Changes entries op id entries') {k : Nat} (hk : id ≠ some k) : entries'[k]? = entries[k]? := by
  cases h with
  | insert hnew => rw [getElem?_put hnew.le_length, if_neg fun heq => hk (congrArg some heq.symm)]
  | update hentry =>
    have hlt := (List.getElem?_eq_some_iff.1 hentry).1
    rw [getElem?_put (Nat.le_of_lt hlt), if_neg fun heq => hk (congrArg some heq.symm)]
  | erase hentry =>
    have hlt := (List.getElem?_eq_some_iff.1 hentry).1
    rw [getElem?_put (Nat.le_of_lt hlt), if_neg fun heq => hk (congrArg some heq.symm)]
  | compact => rfl

omit [PageSize] in
theorem Changes.generation {entries entries' : List Entry} {op : PageOp} {id : Option Nat}
    (h : Changes entries op id entries') {k generation : Nat} {record : Bytes}
    (hentry : entries[k]? = some (some record, generation)) (hop : op ≠ .erase k) :
    ∃ record', entries'[k]? = some (some record', generation) := by
  by_cases hk : id = some k
  · cases h with
    | insert hnew =>
      cases hk
      have hfree := hnew.entry_eq.2 _ hentry
      cases hfree
    | @update record' old _ generation' hold =>
      cases hk
      rw [hentry] at hold
      cases hold
      have hlt := (List.getElem?_eq_some_iff.1 hentry).1
      exact ⟨record', by rw [getElem?_put (Nat.le_of_lt hlt), if_pos rfl]⟩
    | erase hold =>
      cases hk
      exact absurd rfl hop
    | compact => cases hk
  · exact ⟨record, (h.other hk).trans hentry⟩

/-! ### Runs -/

def Knows (page : SlottedPage) (entries : List Entry) : Prop :=
  ∀ id, (∀ record, page.read id = .ok record ↔ ∃ generation, entries[id]? = some (some record, generation)) ∧
    ∀ generation, page.generation id = .ok generation ↔
      ∃ record, entries[id]? = some (some record, generation)

omit [PageSize] in
theorem knows_entries (page : SlottedPage) : page.Knows page.entries := by
  intro id
  constructor
  · intro record
    constructor
    · intro hread
      unfold read at hread
      cases hslot : page.occupiedSlot id with
      | error error =>
        rw [hslot] at hread
        cases hread
      | ok slot =>
        obtain ⟨old, hold⟩ := exists_of_occupiedSlot hslot
        have hsame := read_of_some hold
        unfold read at hsame
        rw [hread] at hsame
        cases hsame
        exact ⟨_, hold⟩
    · rintro ⟨generation, hentry⟩
      exact read_of_some hentry
  · intro generation
    exact ⟨exists_of_generation, fun ⟨record, hentry⟩ => generation_of_some hentry⟩

/-- What holds of a page and what is known of it. -/
structure Tracked (state : SlottedPage × List Entry) : Prop where
  valid : state.1.validate = .ok ()
  /-- A record is what was last written to its slot, with the generation that it was given then. -/
  knows : state.1.Knows state.2
  /-- A new record comes into a slot that is free. -/
  free : ∀ record id next, state.1.insert record = .ok (id, next) →
    ∀ entry, state.2[id]? = some entry → entry.1 = none
  /-- An operation is about one slot: any other answers as before. -/
  others : ∀ (op : PageOp) (k : Nat), (∀ next, op.answer state.1 ≠ .ok (some k, next)) →
    (∀ record, (op.apply state.1).read k = .ok record ↔ state.1.read k = .ok record) ∧
    ∀ generation, (op.apply state.1).generation k = .ok generation ↔
      state.1.generation k = .ok generation
  /-- A record that is there keeps its slot and its generation until it is erased. -/
  generation : ∀ (op : PageOp) (k generation : Nat), op ≠ .erase k →
    state.1.generation k = .ok generation → (op.apply state.1).generation k = .ok generation

theorem Valid.apply {page : SlottedPage} (h : page.Valid) (op : PageOp) :
    (op.apply page).Valid ∧ (op.apply page).entries = op.track page.entries (op.answer page) := by
  unfold PageOp.apply
  cases hanswer : op.answer page with
  | error error =>
    refine ⟨h, ?_⟩
    cases op with
    | insert record => rfl
    | update id record => rfl
    | erase id => rfl
    | compact => rfl
  | ok result =>
    obtain ⟨id, next⟩ := result
    obtain ⟨hvalid, hchanges⟩ := h.changes hanswer
    exact ⟨hvalid, (hchanges.track_eq next).symm⟩

theorem Valid.follow {page : SlottedPage} (h : page.Valid) (ops : List PageOp) :
    (ops.foldl PageOp.follow (page, page.entries)).1.Valid ∧
      (ops.foldl PageOp.follow (page, page.entries)).2 =
        (ops.foldl PageOp.follow (page, page.entries)).1.entries := by
  induction ops generalizing page with
  | nil => exact ⟨h, rfl⟩
  | cons op ops ih =>
    obtain ⟨hvalid, hentries⟩ := h.apply op
    have hnext := ih hvalid
    rw [hentries] at hnext
    exact hnext

theorem Valid.tracked {page : SlottedPage} (h : page.Valid) : Tracked (page, page.entries) where
  valid := h.validate_eq
  knows := page.knows_entries
  free record id next hinsert := by
    obtain ⟨generation, hinserted⟩ := h.insert_spec hinsert
    exact hinserted.isNew.entry_eq.2
  others op k hother := by
    dsimp only at hother ⊢
    have hsame : (op.apply page).entries[k]? = page.entries[k]? := by
      unfold PageOp.apply
      cases hanswer : op.answer page with
      | error error => rfl
      | ok result =>
        obtain ⟨id, next⟩ := result
        apply (h.changes hanswer).2.other
        rintro rfl
        exact hother next hanswer
    have hknows := (op.apply page).knows_entries k
    rw [hsame] at hknows
    have hknows' := page.knows_entries k
    exact ⟨fun record => (hknows.1 record).trans (hknows'.1 record).symm,
      fun generation => (hknows.2 generation).trans (hknows'.2 generation).symm⟩
  generation op k generation hop hgeneration := by
    dsimp only at hgeneration ⊢
    unfold PageOp.apply
    cases hanswer : op.answer page with
    | error error => exact hgeneration
    | ok result =>
      obtain ⟨id, next⟩ := result
      obtain ⟨record, hentry⟩ := exists_of_generation hgeneration
      obtain ⟨record', hentry'⟩ := (h.changes hanswer).2.generation hentry hop
      exact generation_of_some hentry'

/-- Any operations on a page that `validate_page` accepts leave one that it accepts, and the page says
what the answers of the operations say. -/
theorem tracked_run {page : SlottedPage} (hstored : page.Stored) (hvalid : page.validate = .ok ())
    (ops : List PageOp) : Tracked (ops.foldl PageOp.follow (page, page.entries)) := by
  obtain ⟨hlast, hentries⟩ := (valid_of_validate hstored hvalid).follow ops
  generalize ops.foldl PageOp.follow (page, page.entries) = last at hlast hentries
  obtain ⟨last, entries⟩ := last
  dsimp only at hlast hentries
  rw [hentries]
  exact hlast.tracked

end SlottedPage

/-- A page of 64 bytes with a record that is moved when the one before it goes. -/
theorem tracked_moved :
    let pageSize : PageSize := ⟨64, by decide, by decide⟩
    SlottedPage.Tracked (@List.foldl _ _ (@PageOp.follow pageSize) (@SlottedPage.create pageSize, [])
      [.insert [1, 2, 3], .insert [4, 5], .erase 0, .insert [6, 7, 8, 9, 10, 11], .update 1 [12], .compact]) :=
  let pageSize : PageSize := ⟨64, by decide, by decide⟩
  @SlottedPage.tracked_run pageSize (@SlottedPage.create pageSize) (fun _ h => absurd h List.not_mem_nil)
    (@SlottedPage.valid_create pageSize).validate_eq _

end MoDb.Storage
