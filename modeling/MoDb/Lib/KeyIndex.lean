import Mathlib.Data.Finset.Sort
import Mathlib.Data.Prod.Lex

/-!
# A map and an index of its values

A map from keys to values has its pairs beside it, in the order of the values, so that a key is found by a
bound on its value. Both are changed together, a key at a time, and list the same entries.
-/

structure KeyIndex (κ ν : Type) where
  byKey : κ → Option ν
  byValue : Finset (ν ×ₗ κ)

namespace KeyIndex

variable {κ ν : Type} [LinearOrder κ] [LinearOrder ν] {index : KeyIndex κ ν} {key : κ} {value : ν}
  {entries before after : List (κ × ν)}

def empty : KeyIndex κ ν := ⟨fun _ => none, ∅⟩

def others (index : KeyIndex κ ν) (key : κ) : Finset (ν ×ₗ κ) :=
  match index.byKey key with
  | some old => index.byValue.erase (toLex (old, key))
  | none => index.byValue

def set (index : KeyIndex κ ν) (key : κ) (value : ν) : KeyIndex κ ν where
  byKey := Function.update index.byKey key (some value)
  byValue := insert (toLex (value, key)) (index.others key)

def forget (index : KeyIndex κ ν) (key : κ) : KeyIndex κ ν where
  byKey := Function.update index.byKey key none
  byValue := index.others key

@[simp]
theorem byKey_set (index : KeyIndex κ ν) (key : κ) (value : ν) :
    (index.set key value).byKey = Function.update index.byKey key (some value) := rfl

@[simp]
theorem byKey_forget (index : KeyIndex κ ν) (key : κ) :
    (index.forget key).byKey = Function.update index.byKey key none := rfl

def ofEntries (entries : List (κ × ν)) : KeyIndex κ ν where
  byKey key := (entries.find? fun entry => entry.1 = key).map Prod.snd
  byValue := (entries.map fun entry => toLex (entry.2, entry.1)).toFinset

/-- The first pair from a bound on whose key is none of those that are passed over. -/
def search (index : KeyIndex κ ν) (bound : ν ×ₗ κ) (passed : κ → Bool) : Option (ν ×ₗ κ) :=
  index.byValue.sort.find? fun entry => bound ≤ entry ∧ passed (ofLex entry).2 = false

/-- Both have the entries, and nothing else. -/
structure Lists (index : KeyIndex κ ν) (entries : List (κ × ν)) : Prop where
  byKey : ∀ key value, index.byKey key = some value ↔ (key, value) ∈ entries
  byValue : ∀ key value, toLex (value, key) ∈ index.byValue ↔ (key, value) ∈ entries

omit [LinearOrder κ] [LinearOrder ν] in
theorem lists_empty : (empty : KeyIndex κ ν).Lists [] where
  byKey _ _ := iff_of_false nofun List.not_mem_nil
  byValue _ _ := iff_of_false (Finset.notMem_empty _) List.not_mem_nil

namespace Lists

theorem mem_others (h : index.Lists entries) (key other : κ) (value : ν) :
    toLex (value, other) ∈ index.others key ↔ other ≠ key ∧ (other, value) ∈ entries := by
  have hmem := h.byValue other value
  unfold others
  cases hold : index.byKey key with
  | none =>
    dsimp only
    rw [hmem]
    refine ⟨fun hentry => ⟨?_, hentry⟩, fun hentry => hentry.2⟩
    rintro rfl
    rw [(h.byKey other value).2 hentry] at hold
    cases hold
  | some old =>
    dsimp only
    rw [Finset.mem_erase, hmem]
    refine and_congr_left fun hentry => not_congr ⟨fun heq => congrArg (fun pair => (ofLex pair).2) heq, ?_⟩
    rintro rfl
    rw [(h.byKey other value).2 hentry] at hold
    rw [Option.some.inj hold]

theorem set_of_iff (h : index.Lists entries) {entries' : List (κ × ν)}
    (hkey : ∀ other, (key, other) ∈ entries' ↔ other = value)
    (hothers : ∀ other value, other ≠ key → ((other, value) ∈ entries' ↔ (other, value) ∈ entries)) :
    (index.set key value).Lists entries' where
  byKey other value' := by
    rw [byKey_set]
    by_cases heq : other = key
    · rw [heq, Function.update_self, hkey, Option.some.injEq, eq_comm]
    · rw [Function.update_of_ne heq, hothers _ _ heq, h.byKey]
  byValue other value' := by
    unfold set
    rw [Finset.mem_insert, h.mem_others, toLex_inj, Prod.mk.injEq]
    by_cases heq : other = key
    · rw [heq, hkey]
      simp
    · rw [hothers _ _ heq]
      simp [heq]

theorem set_old {old : ν} (h : index.Lists (before ++ (key, old) :: after))
    (hnodup : ((before ++ (key, old) :: after).map Prod.fst).Nodup) :
    (index.set key value).Lists (before ++ (key, value) :: after) := by
  rw [List.map_append, List.map_cons, List.nodup_append, List.nodup_cons] at hnodup
  obtain ⟨-, ⟨hafter, -⟩, hbefore⟩ := hnodup
  apply h.set_of_iff
  · intro other
    rw [List.mem_append, List.mem_cons, Prod.mk.injEq]
    constructor
    · rintro (hmem | ⟨-, heq⟩ | hmem)
      · exact absurd rfl (hbefore _ (List.mem_map_of_mem hmem) _ List.mem_cons_self)
      · exact heq
      · exact absurd (List.mem_map_of_mem hmem) hafter
    · exact fun heq => .inr (.inl ⟨rfl, heq⟩)
  · intro other value' hne
    simp [hne]

theorem set_new (h : index.Lists entries) (hnew : key ∉ entries.map Prod.fst) :
    (index.set key value).Lists (entries ++ [(key, value)]) := by
  apply h.set_of_iff
  · intro other
    rw [List.mem_append, List.mem_singleton, Prod.mk.injEq]
    constructor
    · rintro (hmem | ⟨-, heq⟩)
      · exact absurd (List.mem_map_of_mem hmem) hnew
      · exact heq
    · exact fun heq => .inr ⟨rfl, heq⟩
  · intro other value' hne
    simp [hne]

theorem forget {old : ν} (h : index.Lists (before ++ (key, old) :: after))
    (hnodup : ((before ++ (key, old) :: after).map Prod.fst).Nodup) :
    (index.forget key).Lists (before ++ after) := by
  rw [List.map_append, List.map_cons, List.nodup_append, List.nodup_cons] at hnodup
  obtain ⟨-, ⟨hafter, -⟩, hbefore⟩ := hnodup
  have hnone : ∀ value, (key, value) ∉ before ++ after := by
    intro value hmem
    rcases List.mem_append.1 hmem with hmem | hmem
    · exact absurd rfl (hbefore _ (List.mem_map_of_mem hmem) _ List.mem_cons_self)
    · exact hafter (List.mem_map.2 ⟨_, hmem, rfl⟩)
  have hsame : ∀ other value, other ≠ key →
      ((other, value) ∈ before ++ (key, old) :: after ↔ (other, value) ∈ before ++ after) := by
    intro other value hne
    simp [hne]
  constructor
  · intro other value
    rw [byKey_forget]
    by_cases heq : other = key
    · rw [heq, Function.update_self]
      exact iff_of_false nofun (hnone value)
    · rw [Function.update_of_ne heq, h.byKey, hsame _ _ heq]
  · intro other value
    change _ ∈ index.others key ↔ _
    rw [h.mem_others]
    by_cases heq : other = key
    · rw [heq]
      exact iff_of_false (fun hmem => hmem.1 rfl) (hnone value)
    · rw [hsame _ _ heq, and_iff_right heq]

theorem set_self (h : index.Lists entries) (hmem : (key, value) ∈ entries) : index.set key value = index := by
  have hold := (h.byKey key value).2 hmem
  have hindex := (h.byValue key value).2 hmem
  unfold set others
  rw [hold, ← hold, Function.update_eq_self, hold]
  dsimp only
  rw [Finset.insert_erase hindex]

end Lists

theorem lists_ofEntries (hnodup : (entries.map Prod.fst).Nodup) : (ofEntries entries).Lists entries where
  byKey key value := by
    unfold ofEntries
    dsimp only
    induction entries with
    | nil => exact iff_of_false nofun List.not_mem_nil
    | cons entry rest ih =>
      obtain ⟨other, value'⟩ := entry
      rw [List.map_cons, List.nodup_cons] at hnodup
      rw [List.find?_cons, List.mem_cons, Prod.mk.injEq]
      by_cases heq : other = key
      · subst heq
        simp only [decide_true, Option.map_some, Option.some.injEq, true_and]
        constructor
        · exact fun hvalue => .inl hvalue.symm
        · rintro (hvalue | hmem)
          · exact hvalue.symm
          · exact absurd (List.mem_map_of_mem hmem) hnodup.1
      · rw [decide_eq_false heq]
        dsimp only
        rw [ih hnodup.2]
        exact ⟨.inr, fun hmem => hmem.resolve_left fun hentry => heq hentry.1.symm⟩
  byValue key value := by
    unfold ofEntries
    rw [List.mem_toFinset, List.mem_map]
    constructor
    · rintro ⟨entry, hentry, heq⟩
      cases heq
      exact hentry
    · exact fun hmem => ⟨_, hmem, rfl⟩

/-! ### Searching -/

variable {bound : ν ×ₗ κ} {passed : κ → Bool}

theorem search_eq_some {entry : ν ×ₗ κ} (h : index.search bound passed = some entry) :
    entry ∈ index.byValue ∧ bound ≤ entry ∧ passed (ofLex entry).2 = false := by
  have hmem := List.mem_of_find?_eq_some h
  have hholds := List.find?_some h
  rw [Finset.mem_sort] at hmem
  exact ⟨hmem, of_decide_eq_true hholds⟩

theorem search_eq_none (h : index.search bound passed = none) {entry : ν ×ₗ κ}
    (hentry : entry ∈ index.byValue) (hbound : bound ≤ entry) : passed (ofLex entry).2 = true := by
  have hnone := List.find?_eq_none.1 h entry ((Finset.mem_sort _).2 hentry)
  simpa [hbound] using hnone

end KeyIndex
