import Mathlib.Data.Finset.Insert
import Mathlib.Data.Finset.Card
import Mathlib.Data.List.Chain
import Mathlib.Logic.Relation

/-!
# Searching a directed graph

`Steps r n a b`: there is a walk of `n` edges from `a` to `b`. A search keeps the places it has seen and a
list of those to expand next; `discover` is what one expansion adds. With the places to expand in a queue,
and each with the depth it was seen at, the queue runs through the graph in layers: `Layers` is that
invariant, and when the queue is empty every place within the limit has been seen at its distance.
-/

namespace Search

variable {α : Type} {r : α → α → Prop} {start a b c : α} {n m : Nat} {limit : Option Nat}

/-! ### Walks -/

inductive Steps (r : α → α → Prop) : Nat → α → α → Prop
  | refl (a : α) : Steps r 0 a a
  | tail {n : Nat} {a b c : α} : Steps r n a b → r b c → Steps r (n + 1) a c

theorem Steps.eq_of_zero (h : Steps r 0 a b) : a = b := by
  cases h
  rfl

/-- The places of a walk, in order. -/
structure IsPath (r : α → α → Prop) (a b : α) (path : List α) : Prop where
  first : path.head? = some a
  last : path.getLast? = some b
  chain : path.IsChain r

theorem IsPath.concat {path : List α} (h : IsPath r a b path) (hlast : r b c) :
    IsPath r a c (path ++ [c]) := by
  refine ⟨?_, List.getLast?_concat, ?_⟩
  · rw [List.head?_append, h.first, Option.some_or]
  · apply h.chain.append (List.isChain_singleton c)
    intro x hx y hy
    rw [h.last, Option.mem_some_iff] at hx
    rw [List.head?_cons, Option.mem_some_iff] at hy
    rw [← hx, ← hy]
    exact hlast

theorem Steps.exists_path (h : Steps r n a b) : ∃ path, IsPath r a b path ∧ path.length = n + 1 := by
  induction h with
  | refl a => exact ⟨[a], ⟨rfl, rfl, List.isChain_singleton a⟩, rfl⟩
  | tail _ hlast ih =>
    obtain ⟨path, hpath, hlength⟩ := ih
    refine ⟨_, hpath.concat hlast, ?_⟩
    rw [List.length_append, hlength, List.length_singleton]

theorem IsPath.steps {path : List α} (h : IsPath r a b path) : Steps r (path.length - 1) a b := by
  induction path using List.reverseRecOn generalizing b with
  | nil => exact absurd h.first (by simp)
  | append_singleton path x ih =>
    have hx : x = b := by simpa using h.last
    subst hx
    rw [List.length_append, List.length_singleton, Nat.add_sub_cancel]
    cases hlast : path.getLast? with
    | none =>
      rw [List.getLast?_eq_none_iff] at hlast
      subst hlast
      have hfirst : x = a := by simpa using h.first
      subst hfirst
      exact .refl x
    | some y =>
      have hne : path ≠ [] := by
        intro hnil
        rw [hnil] at hlast
        cases hlast
      have hpath : IsPath r a y path := by
        refine ⟨?_, hlast, h.chain.left_of_append⟩
        have hfirst := h.first
        rwa [List.head?_append_of_ne_nil _ hne] at hfirst
      have hedge : r y x := (List.isChain_append.1 h.chain).2.2 y hlast x rfl
      have hlength : path.length - 1 + 1 = path.length :=
        Nat.sub_add_cancel (List.length_pos_iff.2 hne)
      rw [← hlength]
      exact (ih hpath).tail hedge

def Within (limit : Option Nat) (n : Nat) : Prop :=
  ∀ m ∈ limit, n ≤ m

theorem Within.of_le (h : Within limit m) (hle : n ≤ m) : Within limit n :=
  fun k hk => Nat.le_trans hle (h k hk)

theorem within_none : Within none n := by
  intro m hm
  cases hm

/-! ### What an expansion adds -/

section Discover

variable [DecidableEq α] {seen : Finset α} {places : List α}

def discover (seen : Finset α) : List α → List α
  | [] => []
  | place :: rest =>
    if place ∈ seen then discover seen rest else place :: discover (insert place seen) rest

theorem mem_discover : a ∈ discover seen places ↔ a ∈ places ∧ a ∉ seen := by
  induction places generalizing seen with
  | nil => simp [discover]
  | cons place rest ih =>
    rw [discover]
    split
    · rename_i hseen
      rw [ih, List.mem_cons]
      refine ⟨fun h => ⟨.inr h.1, h.2⟩, ?_⟩
      rintro ⟨rfl | h, hnot⟩
      · exact absurd hseen hnot
      · exact ⟨h, hnot⟩
    · rename_i hseen
      rw [List.mem_cons, ih, List.mem_cons, Finset.mem_insert]
      by_cases ha : a = place
      · subst ha
        exact ⟨fun _ => ⟨.inl rfl, hseen⟩, fun _ => .inl rfl⟩
      · simp [ha]

theorem nodup_discover : (discover seen places).Nodup := by
  induction places generalizing seen with
  | nil => exact List.nodup_nil
  | cons place rest ih =>
    rw [discover]
    split
    · exact ih
    · apply List.nodup_cons.2 ⟨_, ih⟩
      intro h
      exact (mem_discover.1 h).2 (Finset.mem_insert_self place seen)

theorem card_union_discover :
    (seen ∪ (discover seen places).toFinset).card = seen.card + (discover seen places).length := by
  rw [Finset.card_union_of_disjoint, List.toFinset_card_of_nodup nodup_discover]
  apply Finset.disjoint_left.2
  intro place hseen hnew
  exact (mem_discover.1 (List.mem_toFinset.1 hnew)).2 hseen

theorem discover_cons_of_mem (h : a ∈ seen) : discover seen (a :: places) = discover seen places := by
  rw [discover, if_pos h]

theorem discover_cons_of_notMem (h : a ∉ seen) :
    discover seen (a :: places) = a :: discover (insert a seen) places := by
  rw [discover, if_neg h]

end Discover

/-! ### Breadth first -/

/-- The places expanded and those waiting in the queue, each with its depth. -/
structure Layers (r : α → α → Prop) (limit : Option Nat) (start : α) (done queue : List (α × Nat)) : Prop where
  root : (start, 0) ∈ done ++ queue
  steps : ∀ entry ∈ done ++ queue, Steps r entry.2 start entry.1 ∧ Within limit entry.2
  nodup : ((done ++ queue).map Prod.fst).Nodup
  sorted : queue.Pairwise fun entry later => entry.2 ≤ later.2
  span : ∀ head ∈ queue.head?, ∀ entry ∈ done ++ queue, entry.2 ≤ head.2 + 1
  closed : ∀ entry ∈ done, Within limit (entry.2 + 1) → ∀ place, r entry.1 place →
    ∃ depth ≤ entry.2 + 1, (place, depth) ∈ done ++ queue

variable {done queue : List (α × Nat)} {place : α} {depth : Nat}

theorem layers_start : Layers r limit start [] [(start, 0)] := by
  refine ⟨List.mem_singleton_self _, ?_, List.nodup_singleton _, List.pairwise_singleton _ _, ?_, ?_⟩
  · intro entry hentry
    rw [List.mem_singleton.1 hentry]
    exact ⟨.refl start, fun m _ => Nat.zero_le m⟩
  · intro head _ entry hentry
    rw [List.mem_singleton.1 hentry]
    exact Nat.zero_le _
  · intro entry hentry
    cases hentry

namespace Layers

theorem depth_le (h : Layers r limit start done ((place, depth) :: queue)) {entry : α × Nat}
    (hentry : entry ∈ done ++ (place, depth) :: queue) : entry.2 ≤ depth + 1 :=
  h.span _ rfl entry hentry

theorem le_depth (h : Layers r limit start done ((place, depth) :: queue)) {entry : α × Nat}
    (hentry : entry ∈ (place, depth) :: queue) : depth ≤ entry.2 := by
  rcases List.mem_cons.1 hentry with rfl | hentry
  · exact Nat.le_refl _
  · exact List.rel_of_pairwise_cons h.sorted hentry

theorem cut (h : Layers r limit start done ((place, depth) :: queue)) (hdeep : ¬Within limit (depth + 1)) :
    Layers r limit start (done ++ [(place, depth)]) queue := by
  have happ : done ++ [(place, depth)] ++ queue = done ++ (place, depth) :: queue := by
    rw [List.append_assoc, List.singleton_append]
  refine ⟨happ ▸ h.root, happ ▸ h.steps, happ ▸ h.nodup, h.sorted.tail, ?_, ?_⟩
  · intro head hhead entry hentry
    rw [happ] at hentry
    have hle : depth ≤ head.2 := h.le_depth (List.mem_cons_of_mem _ (List.mem_of_mem_head? hhead))
    exact Nat.le_trans (h.depth_le hentry) (Nat.succ_le_succ hle)
  · intro entry hentry hwithin next hedge
    rw [happ]
    rcases List.mem_append.1 hentry with hentry | hentry
    · exact h.closed entry hentry hwithin next hedge
    · rw [List.mem_singleton.1 hentry] at hwithin
      exact absurd hwithin hdeep

theorem expand [DecidableEq α] (h : Layers r limit start done ((place, depth) :: queue))
    (hwithin : Within limit (depth + 1)) {seen : Finset α} {targets : List α}
    (hseen : ∀ x, x ∈ seen ↔ x ∈ (done ++ (place, depth) :: queue).map Prod.fst)
    (htargets : ∀ x, x ∈ targets ↔ r place x) :
    Layers r limit start (done ++ [(place, depth)])
      (queue ++ (discover seen targets).map fun x => (x, depth + 1)) := by
  have happ (rest : List (α × Nat)) : done ++ [(place, depth)] ++ (queue ++ rest) =
      done ++ (place, depth) :: queue ++ rest := by
    rw [List.append_assoc, List.append_assoc, List.singleton_append, List.cons_append]
  refine ⟨?_, ?_, ?_, ?_, ?_, ?_⟩
  · rw [happ]
    exact List.mem_append_left _ h.root
  · intro entry hentry
    rw [happ] at hentry
    rcases List.mem_append.1 hentry with hentry | hentry
    · exact h.steps entry hentry
    · obtain ⟨x, hx, rfl⟩ := List.mem_map.1 hentry
      have hplace := (h.steps (place, depth) (List.mem_append_right _ List.mem_cons_self)).1
      exact ⟨hplace.tail ((htargets x).1 (mem_discover.1 hx).1), hwithin⟩
  · rw [happ, List.map_append, List.map_map]
    have hfst : Prod.fst ∘ (fun x : α => (x, depth + 1)) = id := rfl
    rw [hfst, List.map_id]
    apply h.nodup.append nodup_discover
    intro x hx hnew
    exact (mem_discover.1 hnew).2 ((hseen x).2 hx)
  · apply List.pairwise_append.2 ⟨h.sorted.tail, _, _⟩
    · apply List.pairwise_map.2
      exact List.pairwise_of_forall fun _ _ => Nat.le_refl _
    · intro entry hentry later hlater
      obtain ⟨x, _, rfl⟩ := List.mem_map.1 hlater
      exact h.depth_le (List.mem_append_right _ (List.mem_cons_of_mem _ hentry))
  · intro head hhead entry hentry
    rw [happ] at hentry
    have hle : depth ≤ head.2 := by
      rcases List.mem_append.1 (List.mem_of_mem_head? hhead) with hqueue | hnew
      · exact h.le_depth (List.mem_cons_of_mem _ hqueue)
      · obtain ⟨x, _, rfl⟩ := List.mem_map.1 hnew
        exact Nat.le_succ depth
    rcases List.mem_append.1 hentry with hentry | hentry
    · exact Nat.le_trans (h.depth_le hentry) (Nat.succ_le_succ hle)
    · obtain ⟨x, _, rfl⟩ := List.mem_map.1 hentry
      exact Nat.succ_le_succ hle
  · intro entry hentry hdeep next hedge
    rw [happ]
    rcases List.mem_append.1 hentry with hentry | hentry
    · obtain ⟨k, hk, hmem⟩ := h.closed entry hentry hdeep next hedge
      exact ⟨k, hk, List.mem_append_left _ hmem⟩
    · rw [List.mem_singleton.1 hentry] at hedge ⊢
      by_cases hold : next ∈ seen
      · obtain ⟨old, hmem, rfl⟩ := List.mem_map.1 ((hseen next).1 hold)
        exact ⟨old.2, h.depth_le hmem, List.mem_append_left _ hmem⟩
      · refine ⟨depth + 1, Nat.le_refl _, List.mem_append_right _ (List.mem_map.2 ⟨next, ?_, rfl⟩)⟩
        exact mem_discover.2 ⟨(htargets next).2 hedge, hold⟩

theorem before (h : Layers r limit start done ((place, depth) :: queue)) (hsteps : Steps r n start a)
    (hwithin : Within limit n) (hle : n ≤ depth) :
    ∃ k ≤ n, (a, k) ∈ done ++ (place, depth) :: queue := by
  induction n generalizing a with
  | zero => exact ⟨0, Nat.le_refl 0, hsteps.eq_of_zero ▸ h.root⟩
  | succ n ih =>
    cases hsteps with
    | @tail _ _ b _ hsteps hedge =>
      obtain ⟨k, hk, hmem⟩ := ih hsteps (hwithin.of_le (Nat.le_succ n)) (Nat.le_of_succ_le hle)
      -- A depth below the head's is no longer in the queue.
      have hdone : (b, k) ∈ done := by
        rcases List.mem_append.1 hmem with hmem | hmem
        · exact hmem
        · have hdepth : depth ≤ k := h.le_depth hmem
          omega
      obtain ⟨j, hj, hnext⟩ := h.closed (b, k) hdone (hwithin.of_le (Nat.succ_le_succ hk)) _ hedge
      exact ⟨j, Nat.le_trans hj (Nat.succ_le_succ hk), hnext⟩

theorem complete (h : Layers r limit start done []) (hsteps : Steps r n start a) (hwithin : Within limit n) :
    ∃ k ≤ n, (a, k) ∈ done := by
  induction n generalizing a with
  | zero =>
    have hroot := h.root
    rw [List.append_nil] at hroot
    exact ⟨0, Nat.le_refl 0, hsteps.eq_of_zero ▸ hroot⟩
  | succ n ih =>
    cases hsteps with
    | tail hsteps hedge =>
      obtain ⟨k, hk, hmem⟩ := ih hsteps (hwithin.of_le (Nat.le_succ n))
      obtain ⟨j, hj, hnext⟩ := h.closed _ hmem (hwithin.of_le (Nat.succ_le_succ hk)) _ hedge
      rw [List.append_nil] at hnext
      exact ⟨j, Nat.le_trans hj (Nat.succ_le_succ hk), hnext⟩

theorem mem_done_iff (h : Layers r limit start done []) :
    a ∈ done.map Prod.fst ↔ ∃ n, Steps r n start a ∧ Within limit n := by
  constructor
  · intro ha
    obtain ⟨entry, hentry, rfl⟩ := List.mem_map.1 ha
    exact ⟨entry.2, h.steps entry (List.mem_append_left _ hentry)⟩
  · rintro ⟨n, hsteps, hwithin⟩
    obtain ⟨k, _, hmem⟩ := h.complete hsteps hwithin
    exact List.mem_map.2 ⟨(a, k), hmem, rfl⟩

end Layers

end Search
