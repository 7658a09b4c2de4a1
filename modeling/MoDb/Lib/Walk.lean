import MoDb.Lib.Chain
import Mathlib.Data.Finset.Card
import Mathlib.Data.Fintype.Card
import Mathlib.Data.Fintype.EquivFin
import Mathlib.Order.Interval.Finset.Nat

/-!
# Walks along links

`follow link n start` is the place after `n` links. A loop along the links ends where there is none, and
with finitely many places that have a link this is so unless a place comes twice. `visit` is the loop that
keeps the places it has been at and stops at one of them: it always ends.
-/

namespace Walk

variable {α : Type}

section Follow

variable {link link' : α → Option α} {start place : α} {n m : Nat}

def follow (link : α → Option α) : Nat → α → Option α
  | 0, place => some place
  | n + 1, place => (link place).bind (follow link n)

def Returns (link : α → Option α) (start : α) : Prop :=
  ∃ i j place, i < j ∧ follow link i start = some place ∧ follow link j start = some place

theorem follow_add : follow link (n + m) start = (follow link n start).bind (follow link m) := by
  induction n generalizing start with
  | zero => rw [Nat.zero_add, follow, Option.bind_some]
  | succ n ih =>
    rw [Nat.succ_add, follow, follow]
    cases link start with
    | none => rfl
    | some next => exact ih

theorem follow_eq_none_of_le (h : follow link n start = none) (hle : n ≤ m) :
    follow link m start = none := by
  obtain ⟨k, rfl⟩ := Nat.exists_eq_add_of_le hle
  rw [follow_add, h, Option.bind_none]

theorem isSome_link_of_follow (h : follow link n start = some place)
    (hnext : follow link (n + 1) start ≠ none) : ∃ next, link place = some next := by
  rw [follow_add, h, Option.bind_some, follow] at hnext
  cases hlink : link place with
  | none => exact absurd (by rw [hlink]; rfl) hnext
  | some next => exact ⟨next, rfl⟩

theorem returns_of_link_self (h : link start = some start) : Returns link start :=
  ⟨0, 1, start, Nat.one_pos, rfl, by rw [follow, h, Option.bind_some, follow]⟩

theorem follow_ne_none_of_returns (h : Returns link start) : follow link n start ≠ none := by
  obtain ⟨i, j, place, hlt, hi, hj⟩ := h
  obtain ⟨k, rfl⟩ := Nat.exists_eq_add_of_lt hlt
  have hround : follow link (k + 1) place = some place := by
    rw [Nat.add_assoc, follow_add, hi, Option.bind_some] at hj
    exact hj
  have hrounds : ∀ t, follow link (t * (k + 1)) place = some place := by
    intro t
    induction t with
    | zero => rw [Nat.zero_mul, follow]
    | succ t ih => rw [Nat.succ_mul, follow_add, ih, Option.bind_some, hround]
  intro hend
  have hlong : follow link (i + n * (k + 1)) start = none :=
    follow_eq_none_of_le hend (Nat.le_trans (Nat.le_mul_of_pos_right n (Nat.succ_pos k))
      (Nat.le_add_left _ i))
  rw [follow_add, hi, Option.bind_some, hrounds] at hlong
  cases hlong

theorem ends_iff {places : Finset α} (h : ∀ place next, link place = some next → place ∈ places) :
    (∃ n, follow link n start = none) ↔ ¬Returns link start := by
  constructor
  · rintro ⟨n, hend⟩ hreturns
    exact follow_ne_none_of_returns hreturns hend
  · intro hreturns
    by_contra hnever
    push Not at hnever
    have hplace : ∀ n, ∃ place, follow link n start = some place := fun n =>
      Option.ne_none_iff_exists'.1 (hnever n)
    choose place hfollow using hplace
    have hmem : ∀ n, place n ∈ places := fun n => by
      obtain ⟨next, hnext⟩ := isSome_link_of_follow (hfollow n) (hnever (n + 1))
      exact h _ _ hnext
    obtain ⟨i, -, j, -, hne, hsame⟩ := Finset.exists_ne_map_eq_of_card_lt_of_maps_to
      (show places.card < (Finset.range (places.card + 1)).card by
        rw [Finset.card_range]; exact Nat.lt_succ_self _) fun n _ => hmem n
    rcases Nat.lt_or_gt_of_ne hne with hlt | hlt
    · exact hreturns ⟨i, j, place i, hlt, hfollow i, hsame ▸ hfollow j⟩
    · exact hreturns ⟨j, i, place j, hlt, hfollow j, hsame.symm ▸ hfollow i⟩

end Follow

section Visit

variable {ε σ : Type} [DecidableEq α] {cycle : α → ε} {turn : α → σ → Except ε (σ × Option α)}
  {link : α → Option α} {places : Finset α} {fuel : Nat} {visited l : List α} {place start : α}
  {state final : σ}

/-- The loop that keeps the places it has been at. A turn may fail, and says where to go on. -/
def visit (cycle : α → ε) (turn : α → σ → Except ε (σ × Option α)) :
    Nat → List α → α → σ → Except ε σ
  | 0, _, place, _ => .error (cycle place)
  | fuel + 1, visited, place, state =>
    if place ∈ visited then .error (cycle place)
    else
      match turn place state with
      | .error error => .error error
      | .ok (state, none) => .ok state
      | .ok (state, some next) => visit cycle turn fuel (place :: visited) next state

def along (turn : α → σ → Except ε (σ × Option α)) : List α → σ → Except ε σ
  | [], state => .ok state
  | place :: l, state =>
    match turn place state with
    | .error error => .error error
    | .ok (state, _) => along turn l state

theorem visit_eq_ok_iff
    (hlink : ∀ place state state' next, turn place state = .ok (state', next) → link place = next) :
    visit cycle turn fuel visited start state = .ok final ↔
      ∃ l, l.length ≤ fuel ∧ Chain.Path link (some start) l none ∧ (∀ place ∈ l, place ∉ visited) ∧
        along turn l state = .ok final := by
  induction fuel generalizing visited start state with
  | zero =>
    constructor
    · intro h
      cases h
    · rintro ⟨l, hlength, hpath, -⟩
      rw [List.length_eq_zero_iff.1 (Nat.le_zero.1 hlength)] at hpath
      cases hpath
  | succ fuel ih =>
    rw [visit]
    constructor
    · intro h
      split at h
      · cases h
      · rename_i hnew
        split at h
        · cases h
        · rename_i hturn
          refine ⟨[start], by simp, ⟨rfl, hlink _ _ _ _ hturn⟩, by simpa using hnew, ?_⟩
          rw [along, hturn]
          exact h
        · rename_i state' next hturn
          obtain ⟨l, hlength, hpath, hnews, halong⟩ := ih.1 h
          refine ⟨start :: l, by simpa using hlength, ⟨rfl, ?_⟩, ?_, ?_⟩
          · rw [hlink _ _ _ _ hturn]
            exact hpath
          · rintro place (_ | ⟨_, hplace⟩)
            · exact hnew
            · exact fun hmem => hnews place hplace (List.mem_cons_of_mem _ hmem)
          · rw [along, hturn]
            exact halong
    · rintro ⟨l, hlength, hpath, hnews, halong⟩
      have hnodup := hpath.nodup
      cases l with
      | nil => cases hpath
      | cons first l =>
        obtain ⟨hstart, hrest⟩ := hpath
        obtain rfl : start = first := Option.some.inj hstart
        rw [if_neg (hnews start List.mem_cons_self)]
        rw [along] at halong
        cases hturn : turn start state with
        | error error =>
          rw [hturn] at halong
          cases halong
        | ok result =>
          obtain ⟨state', next⟩ := result
          rw [hturn] at halong
          rw [hlink _ _ _ _ hturn] at hrest
          cases next with
          | none =>
            cases l with
            | nil => exact halong
            | cons next l => cases hrest.1
          | some next =>
            refine ih.2 ⟨l, Nat.le_of_succ_le_succ hlength, hrest, fun other hother hmem => ?_, halong⟩
            rcases List.mem_cons.1 hmem with rfl | hmem
            · exact (List.nodup_cons.1 hnodup).1 hother
            · exact hnews other (List.mem_cons_of_mem _ hother) hmem

end Visit

end Walk
