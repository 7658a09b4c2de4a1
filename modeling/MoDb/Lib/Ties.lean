import MoDb.Lib.Selection
import Mathlib.Data.List.Count
import Mathlib.Data.List.Pairwise
import Mathlib.Data.Set.Basic

/-!
# Ties in a selection

A heap keeps some `k` of the best rows; the stable sort says which of several that tie. The two agree
for every heap that keeps its promises exactly when ties cannot matter: whenever two different rows
that tie are both among the `k` best for a time, none of their kind is among the `k` best at the end.
-/

namespace Selection

variable {α : Type}

namespace Order

variable (order : Order α)

def tie (a b : α) : Bool := order.le a b && order.le b a

variable {order} {a b c : α} {k : Nat} {rows kept : List α}

theorem tie_iff : order.tie a b = true ↔ order.le a b = true ∧ order.le b a = true := by
  simp [tie]

theorem le_refl (a : α) : order.le a a = true := by
  have hself := order.le_total a a
  rwa [Bool.or_self] at hself

@[simp]
theorem tie_refl (a : α) : order.tie a a = true := tie_iff.2 ⟨le_refl a, le_refl a⟩

theorem tie_symm (h : order.tie a b = true) : order.tie b a = true :=
  tie_iff.2 (tie_iff.1 h).symm

theorem tie_trans (hab : order.tie a b = true) (hbc : order.tie b c = true) :
    order.tie a c = true := by
  rw [tie_iff] at hab hbc ⊢
  exact ⟨order.le_trans hab.1 hbc.1, order.le_trans hbc.2 hab.2⟩

theorem less_of_not_le (h : order.le a b = false) : order.less b a = true := by
  simpa [le] using h

theorem not_le_of_less (h : order.less a b = true) : order.le b a = false := by
  simp [le, h]

/-- The rows kept are `k` best ones, or all there are. -/
def Selected (order : Order α) (k : Nat) (rows kept : List α) : Prop :=
  ∃ left, (kept ++ left).Perm rows ∧ kept.length ≤ k ∧ (left ≠ [] → kept.length = k) ∧
    ∀ a ∈ kept, ∀ b ∈ left, order.le a b = true

theorem Selected.countP {P : α → Bool} (h : order.Selected k rows kept)
    (hdown : ∀ a b, order.le a b = true → P b = true → P a = true) :
    kept.countP P = min k (rows.countP P) := by
  obtain ⟨left, hperm, hle, hfull, hfirst⟩ := h
  have hcount : rows.countP P = kept.countP P + left.countP P := by
    rw [← hperm.countP_eq, List.countP_append]
  have hkept := List.countP_le_length (p := P) (l := kept)
  by_cases hleft : ∃ b ∈ left, P b = true
  · obtain ⟨b, hb, hPb⟩ := hleft
    have hall : kept.countP P = kept.length :=
      List.countP_eq_length.2 fun a ha => hdown a b (hfirst a ha b hb) hPb
    have hlength := hfull (List.ne_nil_of_mem hb)
    omega
  · have hnone : left.countP P = 0 :=
      List.countP_eq_zero.2 fun b hb hPb => hleft ⟨b, hb, hPb⟩
    omega

theorem Selected.countP_le (h : order.Selected k rows kept) (a : α) :
    kept.countP (order.le · a) = min k (rows.countP (order.le · a)) :=
  h.countP fun _ _ hle hb => order.le_trans hle hb

theorem Selected.countP_less (h : order.Selected k rows kept) (a : α) :
    kept.countP (order.less · a) = min k (rows.countP (order.less · a)) := by
  refine h.countP fun b c hle hc => ?_
  apply less_of_not_le
  by_contra hab
  have hac := order.le_trans (Bool.not_eq_false _ ▸ hab) hle
  rw [not_le_of_less hc] at hac
  exact Bool.noConfusion hac

theorem countP_tie (rows : List α) (a : α) :
    rows.countP (order.tie · a) + rows.countP (order.less · a) = rows.countP (order.le · a) := by
  induction rows with
  | nil => rfl
  | cons row rows ih =>
    have hsplit : (if order.tie row a = true then 1 else 0) +
        (if order.less row a = true then 1 else 0) = if order.le row a = true then 1 else 0 := by
      cases hless : order.less row a with
      | true => simp [tie, not_le_of_less hless, order.le_of_less hless]
      | false => simp [tie, le, hless]
    simp only [List.countP_cons]
    omega

theorem Selected.countP_tie {kept' : List α} (h : order.Selected k rows kept)
    (h' : order.Selected k rows kept') (a : α) :
    kept.countP (order.tie · a) = kept'.countP (order.tie · a) := by
  have hsum := @Order.countP_tie α order kept a
  have hsum' := @Order.countP_tie α order kept' a
  rw [h.countP_le, h.countP_less] at hsum
  rw [h'.countP_le, h'.countP_less] at hsum'
  omega

/-! ### Stability -/

def FirstOfKind (order : Order α) (rows : List α) (a : α) : Prop :=
  (rows.filter (order.tie a ·)).head? = some a

theorem tie_eq_of_tie (h : order.tie a b = true) : (order.tie a ·) = (order.tie b ·) := by
  funext c
  rw [Bool.eq_iff_iff]
  exact ⟨tie_trans (tie_symm h), tie_trans h⟩

theorem FirstOfKind.eq (ha : order.FirstOfKind rows a) (hb : order.FirstOfKind rows b)
    (htie : order.tie a b = true) : a = b := by
  unfold FirstOfKind at ha hb
  rw [tie_eq_of_tie htie, hb] at ha
  exact (Option.some.inj ha).symm

theorem Selected.perm {kept' : List α} (h : order.Selected k rows kept)
    (h' : order.Selected k rows kept') (hfirst : ∀ a ∈ kept, order.FirstOfKind rows a)
    (hfirst' : ∀ a ∈ kept', order.FirstOfKind rows a) : kept.Perm kept' := by
  classical
  rw [List.perm_iff_count]
  intro a
  by_cases ha : order.FirstOfKind rows a
  · have hcount : ∀ {l : List α}, (∀ b ∈ l, order.FirstOfKind rows b) →
        l.count a = l.countP (order.tie · a) := by
      intro l hl
      apply List.countP_congr
      intro b hb
      rw [beq_iff_eq]
      constructor
      · rintro rfl
        exact tie_refl b
      · exact (hl b hb).eq ha
    rw [hcount hfirst, hcount hfirst', h.countP_tie h']
  · rw [List.count_eq_zero_of_not_mem fun hin => ha (hfirst a hin),
      List.count_eq_zero_of_not_mem fun hin => ha (hfirst' a hin)]

end Order

namespace Heap

variable {order : Order α} {k : Nat} {seen rows left : List α}

theorem Selects.selected {heap : Heap order} (h : heap.Selects k seen rows left) :
    order.Selected k seen rows := ⟨left, h.perm, h.length_le, h.full, h.first⟩

theorem Selects.offer_cases {heap : Heap order} (hk : 0 < k) (h : heap.Selects k seen rows left)
    (row : α) :
    (seen.countP (order.le · row) < k ∧
      ((left = [] ∧ (heap.offer k rows row).Perm (rows ++ [row])) ∨
        ∃ front rest, rows = front :: rest ∧ rows.length = k ∧ order.less row front = true ∧
          (heap.offer k rows row).Perm (rest ++ [row]))) ∨
    (k ≤ seen.countP (order.le · row) ∧ heap.offer k rows row = rows) := by
  unfold Heap.offer
  split
  · rename_i hlength
    have hleft : left = [] := by
      by_contra hleft
      exact Nat.ne_of_lt hlength (h.full hleft)
    subst hleft
    left
    refine ⟨?_, .inl ⟨rfl, (heap.push_heap h.isHeap row).2⟩⟩
    have hperm := h.perm.length_eq
    have hcount := List.countP_le_length (p := (order.le · row)) (l := seen)
    simp only [List.append_nil] at hperm
    omega
  · rename_i hlength
    have hfull : rows.length = k := Nat.le_antisymm h.length_le (Nat.not_lt.1 hlength)
    have hcount := h.selected.countP_le row
    cases rows with
    | nil => exact absurd hfull (Nat.ne_of_lt hk)
    | cons front rest =>
      dsimp only
      split
      · rename_i hless
        left
        refine ⟨?_, .inr ⟨front, rest, rfl, hfull, hless, ?_⟩⟩
        · have hshort := List.countP_le_length (p := (order.le · row)) (l := rest)
          rw [List.countP_cons_of_neg (by simp [Order.not_le_of_less hless])] at hcount
          rw [List.length_cons] at hfull
          omega
        · obtain ⟨kept, hpop, hkept, hrest⟩ := heap.pop_heap h.isHeap
          rw [hpop, List.dropLast_concat]
          exact (heap.push_heap hkept row).2.trans (hrest.append_right [row])
      · rename_i hless
        right
        refine ⟨?_, rfl⟩
        have hall : (front :: rest).countP (order.le · row) = k := by
          rw [← hfull, List.countP_eq_length]
          intro a ha
          exact order.le_trans (heap.front_le h.isHeap ha)
            ((order.le_iff).2 (Bool.not_eq_true _ ▸ hless))
        omega

theorem arrived (heap : Heap order) (hk : 0 < k) (rows : List α) :
    (∃ left, heap.Selects k rows (rows.foldl (heap.offer k) []) left) ∧
      ∀ a ∈ rows.foldl (heap.offer k) [], ∃ earlier, earlier ++ [a] <+: rows ∧
        earlier.countP (order.le · a) < k := by
  induction rows using List.reverseRecOn with
  | nil =>
    exact ⟨⟨[], heap.isHeap_nil, List.Perm.refl _, Nat.zero_le _, fun hne => absurd rfl hne,
      fun _ hin => absurd hin List.not_mem_nil⟩, fun _ hin => absurd hin List.not_mem_nil⟩
  | append_singleton rows row ih =>
    obtain ⟨⟨left, h⟩, hkept⟩ := ih
    rw [List.foldl_append, List.foldl_cons, List.foldl_nil]
    refine ⟨h.offer hk row, fun a ha => ?_⟩
    have hold : a ∈ rows.foldl (heap.offer k) [] → ∃ earlier, earlier ++ [a] <+: rows ++ [row] ∧
        earlier.countP (order.le · a) < k := by
      intro hin
      obtain ⟨earlier, hbefore, hroom⟩ := hkept a hin
      exact ⟨earlier, hbefore.trans (List.prefix_append _ _), hroom⟩
    rcases h.offer_cases hk row with ⟨hroom, hadmitted⟩ | ⟨-, hsame⟩
    · have hcases : a ∈ rows.foldl (heap.offer k) [] ∨ a = row := by
        rcases hadmitted with ⟨-, hperm⟩ | ⟨front, rest, hrows, -, -, hperm⟩
        · simpa using hperm.mem_iff.1 ha
        · rw [hrows]
          have hin := hperm.mem_iff.1 ha
          rw [List.mem_append, List.mem_singleton] at hin
          exact hin.imp_left (List.mem_cons_of_mem front)
      rcases hcases with hin | rfl
      · exact hold hin
      · exact ⟨rows, List.prefix_refl _, hroom⟩
    · rw [hsame] at ha
      exact hold ha

end Heap

end Selection
