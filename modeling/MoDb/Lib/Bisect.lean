import Mathlib.Data.List.Basic

/-!
# Binary search

The first place of a list where `before` stops holding, found by halving. On a list that `before`
cuts in two this is the length of the first part.
-/

namespace Bisect

variable {α : Type}

def loop (before : α → Bool) (l : List α) : Nat → Nat → Nat → Nat
  | 0, lo, _ => lo
  | fuel + 1, lo, hi =>
    if lo < hi then
      let mid := (lo + hi) / 2
      if (l[mid]?).any before then loop before l fuel (mid + 1) hi else loop before l fuel lo mid
    else lo

def search (before : α → Bool) (l : List α) : Nat := loop before l l.length 0 l.length

variable {before : α → Bool} {first second : List α}

theorem loop_append (hfirst : ∀ a ∈ first, before a = true) (hsecond : ∀ a ∈ second, before a = false)
    {fuel lo hi : Nat} (hlo : lo ≤ first.length) (hhi : first.length ≤ hi)
    (hend : hi ≤ (first ++ second).length) (hfuel : hi - lo ≤ fuel) :
    loop before (first ++ second) fuel lo hi = first.length := by
  induction fuel generalizing lo hi with
  | zero =>
    rw [loop]
    omega
  | succ fuel ih =>
    rw [loop]
    split
    · rename_i hlt
      have hmid : (lo + hi) / 2 < (first ++ second).length := by omega
      dsimp only
      rw [List.getElem?_eq_getElem hmid, Option.any_some]
      by_cases hin : (lo + hi) / 2 < first.length
      · rw [List.getElem_append_left hin, hfirst _ (List.getElem_mem hin), if_pos rfl]
        exact ih hin hhi hend (by omega)
      · rw [List.getElem_append_right (Nat.not_lt.1 hin), hsecond _ (List.getElem_mem _),
          if_neg Bool.false_ne_true]
        exact ih hlo (Nat.not_lt.1 hin) (Nat.le_of_lt hmid) (by omega)
    · omega

theorem search_append (hfirst : ∀ a ∈ first, before a = true)
    (hsecond : ∀ a ∈ second, before a = false) : search before (first ++ second) = first.length :=
  loop_append hfirst hsecond (Nat.zero_le _) (by simp) (Nat.le_refl _) (Nat.sub_le _ _)

theorem insertIdx_append (first second : List α) (a : α) :
    (first ++ second).insertIdx first.length a = first ++ a :: second := by
  induction first with
  | nil => rfl
  | cons b first ih =>
    rw [List.cons_append, List.length_cons, List.insertIdx_succ_cons, ih, List.cons_append]

theorem exists_cut {l : List α} (h : l.Pairwise fun a b => before b = true → before a = true) :
    ∃ first second, l = first ++ second ∧ (∀ a ∈ first, before a = true) ∧
      ∀ a ∈ second, before a = false := by
  induction l with
  | nil => exact ⟨[], [], rfl, fun _ h => absurd h List.not_mem_nil, fun _ h => absurd h List.not_mem_nil⟩
  | cons a l ih =>
    obtain ⟨hhead, htail⟩ := List.pairwise_cons.1 h
    cases ha : before a with
    | true =>
      obtain ⟨first, second, rfl, hfirst, hsecond⟩ := ih htail
      exact ⟨a :: first, second, rfl, List.forall_mem_cons.2 ⟨ha, hfirst⟩, hsecond⟩
    | false =>
      refine ⟨[], a :: l, rfl, fun _ h => absurd h List.not_mem_nil,
        List.forall_mem_cons.2 ⟨ha, fun b hb => ?_⟩⟩
      cases hcase : before b with
      | true => exact absurd (hhead b hb hcase) (by simp [ha])
      | false => rfl

theorem filter_eq_takeWhile {l : List α}
    (h : l.Pairwise fun a b => before b = true → before a = true) :
    l.filter before = l.takeWhile before := by
  induction l with
  | nil => rfl
  | cons a l ih =>
    obtain ⟨hhead, htail⟩ := List.pairwise_cons.1 h
    cases ha : before a with
    | true => rw [List.filter_cons_of_pos ha, List.takeWhile_cons_of_pos ha, ih htail]
    | false =>
      rw [List.filter_cons_of_neg (by simp [ha]), List.takeWhile_cons_of_neg (by simp [ha]),
        List.filter_eq_nil_iff]
      exact fun b hb hbefore => absurd (hhead b hb hbefore) (by simp [ha])

end Bisect
