import MoDb.Lib.SortedSearch

/-!
# Maps as sorted lists of entries

A map holds its entries in the order of their keys, each key once.
-/

namespace SortedEntries

open SortedSearch

variable {κ β : Type} [DecidableEq κ]

abbrev Entries (κ β : Type) := List (κ × β)

def contains (key : κ) (entries : Entries κ β) : Bool := entries.any fun entry => entry.1 = key

/-- A new entry before the first whose key does not come before its own. -/
def place (less : κ → κ → Bool) (key : κ) (value : β) : Entries κ β → Entries κ β
  | [] => [(key, value)]
  | entry :: rest =>
    if less entry.1 key then entry :: place less key value rest else (key, value) :: entry :: rest

def emplace (less : κ → κ → Bool) (key : κ) (value : β) (entries : Entries κ β) :
    Option (Entries κ β) :=
  if contains key entries then none else some (place less key value entries)

def insertOrAssign (less : κ → κ → Bool) (key : κ) (value : β) (entries : Entries κ β) : Entries κ β :=
  if contains key entries then entries.map fun entry => if entry.1 = key then (key, value) else entry
  else place less key value entries

variable {less : κ → κ → Bool} {key : κ} {value : β} {entries : Entries κ β}

theorem contains_iff : contains key entries = true ↔ ∃ entry ∈ entries, entry.1 = key := by
  simp [contains]

omit [DecidableEq κ] in
theorem mem_place {entry : κ × β} : entry ∈ place less key value entries ↔
    entry = (key, value) ∨ entry ∈ entries := by
  induction entries with
  | nil => simp [place]
  | cons other rest ih =>
    rw [place]
    split
    · rw [List.mem_cons, ih, List.mem_cons, or_left_comm]
    · exact List.mem_cons

theorem emplace_append (hless : StrictOrder less)
    (h : ∀ entry ∈ entries, less entry.1 key = true) :
    emplace less key value entries = some (entries ++ [(key, value)]) := by
  have hnot : ¬contains key entries = true := by
    rw [contains_iff]
    rintro ⟨entry, hentry, rfl⟩
    have hself := h entry hentry
    rw [hless.asymm hself] at hself
    contradiction
  have hplace : place less key value entries = entries ++ [(key, value)] := by
    clear hnot
    induction entries with
    | nil => rfl
    | cons other rest ih =>
      rw [place, if_pos (h other List.mem_cons_self), List.cons_append,
        ih fun entry hentry => h entry (List.mem_cons_of_mem _ hentry)]
  rw [emplace, if_neg hnot, hplace]

theorem insertOrAssign_of_emplace {entries' : Entries κ β}
    (h : emplace less key value entries = some entries') :
    insertOrAssign less key value entries = entries' := by
  unfold emplace at h
  unfold insertOrAssign
  split at h
  · contradiction
  · rename_i hnot
    rw [if_neg hnot]
    exact Option.some.inj h

theorem sorted_place (hless : StrictOrder less) (h : Sorted less Prod.fst entries)
    (hnew : ¬contains key entries = true) :
    Sorted less Prod.fst (place less key value entries) := by
  induction entries with
  | nil => exact List.pairwise_singleton _ _
  | cons other rest ih =>
    obtain ⟨hfirst, hrest⟩ := List.pairwise_cons.1 h
    have hne : other.1 ≠ key := fun heq =>
      hnew (contains_iff.2 ⟨other, List.mem_cons_self, heq⟩)
    have hnew' : ¬contains key rest = true := by
      intro hin
      obtain ⟨entry, hentry, heq⟩ := contains_iff.1 hin
      exact hnew (contains_iff.2 ⟨entry, List.mem_cons_of_mem _ hentry, heq⟩)
    rw [place]
    by_cases hbefore : less other.1 key = true
    · rw [if_pos hbefore]
      refine List.pairwise_cons.2 ⟨fun entry hentry => ?_, ih hrest hnew'⟩
      rcases mem_place.1 hentry with rfl | hentry
      · exact hbefore
      · exact hfirst entry hentry
    · rw [if_neg hbefore]
      have hafter : less key other.1 = true := by
        cases hkey : less key other.1 with
        | true => rfl
        | false => exact absurd (hless.eq_of_not ((Bool.not_eq_true _).mp hbefore) hkey) hne
      refine List.pairwise_cons.2 ⟨fun entry hentry => ?_, h⟩
      rcases List.mem_cons.1 hentry with rfl | hentry
      · exact hafter
      · exact hless.trans hafter (hfirst entry hentry)

theorem sorted_emplace (hless : StrictOrder less) (h : Sorted less Prod.fst entries)
    {entries' : Entries κ β} (hemplace : emplace less key value entries = some entries') :
    Sorted less Prod.fst entries' := by
  unfold emplace at hemplace
  split at hemplace
  · contradiction
  · rename_i hnew
    rw [← Option.some.inj hemplace]
    exact sorted_place hless h hnew

theorem mem_emplace {entries' : Entries κ β} (h : emplace less key value entries = some entries')
    {entry : κ × β} : entry ∈ entries' ↔ entry = (key, value) ∨ entry ∈ entries := by
  unfold emplace at h
  split at h
  · contradiction
  · rw [← Option.some.inj h]
    exact mem_place

theorem length_emplace {entries' : Entries κ β} (h : emplace less key value entries = some entries') :
    entries'.length = entries.length + 1 := by
  have hplace : ∀ entries : Entries κ β,
      (place less key value entries).length = entries.length + 1 := by
    intro entries
    induction entries with
    | nil => rfl
    | cons other rest ih =>
      rw [place]
      split
      · rw [List.length_cons, ih, List.length_cons]
      · rfl
  unfold emplace at h
  split at h
  · contradiction
  · rw [← Option.some.inj h]
    exact hplace entries

theorem sorted_insertOrAssign (hless : StrictOrder less) (h : Sorted less Prod.fst entries) :
    Sorted less Prod.fst (insertOrAssign less key value entries) := by
  unfold insertOrAssign
  split
  · refine List.pairwise_map.2 (h.imp fun {a b} hab => ?_)
    have hkey : ∀ entry : κ × β, (if entry.1 = key then (key, value) else entry).1 = entry.1 := by
      intro entry
      split
      · exact Eq.symm ‹_›
      · rfl
    rw [hkey, hkey]
    exact hab
  · exact sorted_place hless h ‹_›

theorem mem_insertOrAssign {entry : κ × β} (h : entry ∈ insertOrAssign less key value entries) :
    entry = (key, value) ∨ entry ∈ entries := by
  unfold insertOrAssign at h
  split at h
  · obtain ⟨other, hother, rfl⟩ := List.mem_map.1 h
    split
    · exact .inl rfl
    · exact .inr hother
  · exact mem_place.1 h

end SortedEntries
