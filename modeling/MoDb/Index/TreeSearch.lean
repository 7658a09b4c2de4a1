import MoDb.Index.TreeRows

/-!
# Walks over the pages

A tree is represented by pages that hold its nodes, the leaves chained from left to right. The walk
from the root ends at the leaf whose part an entry is in, and the walk along the leaves meets every
entry from there on in order.
-/

namespace MoDb.Index

open Storage Effect Levels

namespace RowForm

variable {N : Type} (row : RowForm N)

def firstId : List N → Nat → Nat
  | [], next => next
  | n :: _, _ => (row.item n).2

/-- The pages of a run of neighbours, of which the last one links to `next`. -/
def pages : List N → Nat → Multiset (Nat × Node)
  | [], _ => 0
  | n :: rest, next => {((row.item n).2, row.node (row.firstId rest next) n)} + pages rest next

@[simp]
theorem pages_nil (next : Nat) : row.pages [] next = 0 := rfl

theorem pages_cons (n : N) (rest : List N) (next : Nat) : row.pages (n :: rest) next =
    {((row.item n).2, row.node (row.firstId rest next) n)} + row.pages rest next := rfl

@[simp]
theorem firstId_cons (n : N) (rest : List N) (next : Nat) :
    row.firstId (n :: rest) next = (row.item n).2 := rfl

@[simp]
theorem firstId_append (first second : List N) (next : Nat) :
    row.firstId (first ++ second) next = row.firstId first (row.firstId second next) := by
  cases first <;> rfl

theorem pages_append (first second : List N) (next : Nat) : row.pages (first ++ second) next =
    row.pages first (row.firstId second next) + row.pages second next := by
  induction first with
  | nil => rw [List.nil_append, pages_nil, zero_add]
  | cons n first ih =>
    rw [List.cons_append, pages_cons, ih, pages_cons, firstId_append, add_assoc]

theorem mem_pages {l : List N} {n : N} (hn : n ∈ l) (next : Nat) :
    ∃ x, ((row.item n).2, row.node x n) ∈ row.pages l next := by
  induction l with
  | nil => exact absurd hn List.not_mem_nil
  | cons m l ih =>
    rw [pages_cons]
    rcases List.mem_cons.1 hn with rfl | hn
    · exact ⟨_, Multiset.mem_add.2 (.inl (Multiset.mem_singleton_self _))⟩
    · obtain ⟨x, hmem⟩ := ih hn
      exact ⟨x, Multiset.mem_add.2 (.inr hmem)⟩

end RowForm

/-- The pages of the inner levels, of which the lowest is number `level`. -/
def levelPages : Nat → List (List Inner) → Multiset (Nat × Node)
  | _, [] => 0
  | level, inner :: levels => (innerForm level).pages inner 0 + levelPages (level + 1) levels

@[simp]
theorem levelPages_nil (level : Nat) : levelPages level [] = 0 := rfl

theorem levelPages_cons (level : Nat) (inner : List Inner) (levels : List (List Inner)) :
    levelPages level (inner :: levels) =
      (innerForm level).pages inner 0 + levelPages (level + 1) levels := rfl

/-! ### From the root to a leaf -/

section Descent

variable {level next : Nat} {inner : Inner} {id : Nat} {left right : List (Entry × Nat)}
  {a : Entry × Nat} {target : Entry}

theorem siblingAt_inner (place : Nat) : ((innerForm level).node next inner).siblingAt place =
    (inner.children[place]?.map Prod.snd).getD 0 := by
  obtain ⟨id, children, hchildren⟩ := inner
  obtain ⟨c, rest, rfl⟩ := List.exists_cons_of_ne_nil hchildren
  cases place with
  | zero => rfl
  | succ slot =>
    simp only [Node.siblingAt, RowForm.node, innerForm, innerCells, List.tail_cons,
      List.getElem?_cons_succ, List.getElem?_map, Option.map_map]
    rfl

theorem siblingAt_around :
    ((innerForm level).node next (Group.around id left a right)).siblingAt left.length = a.2 := by
  rw [siblingAt_inner, Group.children_around]
  simp

theorem search_innerCells {before : Entry → Bool} (hbefore : ∀ c ∈ left ++ [a], before c.1 = true)
    (hafter : ∀ c ∈ right, before c.1 = false) :
    Bisect.search (fun cell : Cell => before cell.entry) (innerCells (left ++ a :: right)) =
      left.length := by
  have hne : left ++ [a] ≠ [] := List.append_ne_nil_of_right_ne_nil left (List.cons_ne_nil a [])
  have hlength : (innerCells (left ++ [a])).length = left.length := by
    simp [innerCells]
  rw [List.append_cons, innerCells_append hne, Bisect.search_append, hlength]
  · intro cell hcell
    obtain ⟨c, hc, rfl⟩ := List.mem_map.1 hcell
    exact hbefore c (List.mem_of_mem_tail hc)
  · intro cell hcell
    obtain ⟨c, hc, rfl⟩ := List.mem_map.1 hcell
    exact hafter c hc

theorem childFor_around (hleft : ∀ c ∈ left ++ [a], entryLess target c.1 = false)
    (hright : ∀ c ∈ right, entryLess target c.1 = true) :
    ((innerForm level).node next (Group.around id left a right)).childFor target = a.2 := by
  have hindex : ((innerForm level).node next (Group.around id left a right)).upperBoundIndex target =
      left.length := by
    refine @search_innerCells left right a (fun e => !entryLess target e) (fun c hc => ?_)
      fun c hc => ?_
    · rw [hleft c hc]
      rfl
    · rw [hright c hc]
      rfl
  rw [Node.childFor, hindex, siblingAt_around]

theorem descendPath_spine {lefts rights : List (Entry × Nat)} {levels : List (List Inner)}
    {root : Nat} {path : List Nat} (h : Spine lefts a rights levels root path)
    {file : PageFile Node} {frame : Multiset (Nat × Node)} (level : Nat)
    (hholds : Holds file (levelPages level levels + frame))
    (hlefts : ∀ c ∈ lefts ++ [a], entryLess target c.1 = false)
    (hrights : ∀ c ∈ rights, entryLess target c.1 = true) (fuel : Nat) (passed : List Nat) :
    descendPath target (fuel + path.length) root passed file =
      descendPath target fuel a.2 (path ++ passed) file := by
  induction h generalizing level frame fuel with
  | top a => rfl
  | @frame before after id left right a levels root path h ih =>
    have hbefore : ∀ c ∈ before.map Group.item ++ [(Group.around id left a right).item],
        entryLess target c.1 = false := by
      have hflat : ∀ c ∈ flat before, entryLess target c.1 = false := fun c hc =>
        hlefts c (by simp [hc])
      have hnode : ∀ c ∈ left ++ [a], entryLess target c.1 = false := fun c hc => by
        refine hlefts c ?_
        rw [List.append_assoc]
        exact List.mem_append_right _ hc
      intro c hc
      rcases List.mem_append.1 hc with hc | hc
      · exact forall_items (entryLess target · = false) hflat c hc
      · rw [List.mem_singleton.1 hc]
        exact item_around (entryLess target · = false) hnode
    have hafter : ∀ c ∈ after.map Group.item, entryLess target c.1 = true :=
      forall_items (entryLess target · = true) fun c hc => hrights c (List.mem_append_right _ hc)
    have hlevels := hholds
    rw [levelPages_cons, add_comm _ (levelPages _ _), add_assoc] at hlevels
    have hstep := ih (level + 1) hlevels hbefore hafter (fuel + 1)
    rw [List.length_cons, ← Nat.add_assoc, Nat.add_right_comm, hstep]
    obtain ⟨next, hmem⟩ := (innerForm level).mem_pages
      (List.mem_append_right before List.mem_cons_self :
        Group.around id left a right ∈ before ++ Group.around id left a right :: after) 0
    have hread : readPage id file =
        .ok ((innerForm level).node next (Group.around id left a right)) file :=
      hholds.left.readPage (Multiset.mem_add.2 (.inl hmem))
    change descendPath target (fuel + 1) id (path ++ passed) file = _
    rw [descendPath, bind_of_ok hread, isLeaf_innerNode, if_neg Bool.false_ne_true]
    rw [childFor_around (fun c hc => hlefts c ?_) fun c hc => hrights c (List.mem_append_left _ hc)]
    · rfl
    · rw [List.append_assoc]
      exact List.mem_append_right _ hc

end Descent

/-! ### Along the leaves -/

section Range

variable {leaf : Leaf} {leaves : List Leaf} {file : PageFile Node} {frame : Multiset (Nat × Node)}

theorem lowerBound_leaf {first second : List Entry} {target : Entry} {next : Nat}
    (hentries : leaf.entries = first ++ second) (hfirst : ∀ e ∈ first, entryLess e target = true)
    (hsecond : ∀ e ∈ second, entryLess e target = false) :
    (leafForm.node next leaf).lowerBoundIndex target = first.length := by
  have hlength : (leafCells first).length = first.length := List.length_map _
  have hcells : (leafForm.node next leaf).cells = leafCells first ++ leafCells second := by
    rw [← leafCells_append, ← hentries]
    rfl
  rw [Node.lowerBoundIndex, hcells, Bisect.search_append, hlength]
  · intro cell hcell
    obtain ⟨e, he, rfl⟩ := List.mem_map.1 hcell
    exact hfirst e he
  · intro cell hcell
    obtain ⟨e, he, rfl⟩ := List.mem_map.1 hcell
    exact hsecond e he

theorem within_leafCells (hi : Bytes) (entries : List Entry) :
    ((leafCells entries).takeWhile fun cell => !bytesLess hi cell.key) =
      leafCells (entries.takeWhile fun e => !bytesLess hi e.1) := by
  rw [leafCells, List.takeWhile_map]
  rfl

theorem objid_leafCells (entries : List Entry) :
    (leafCells entries).map Cell.objid = entries.map Prod.snd := by
  rw [leafCells, List.map_map]
  rfl

theorem length_leafCells (entries : List Entry) : (leafCells entries).length = entries.length :=
  List.length_map _

theorem rangeLoop_step (hi : Bytes) {first second : List Entry} {lo : Option Bytes} (fuel : Nat)
    {next : Nat} (hread : readPage leaf.id file = .ok (leafForm.node next leaf) file)
    (hentries : leaf.entries = first ++ second)
    (hlo : (lo.map fun lo => (leafForm.node next leaf).lowerBoundIndex (lo, 0)).getD 0 = first.length)
    (out : List Nat) :
    rangeLoop hi (fuel + 1) leaf.id lo out file =
      let within := second.takeWhile fun e => !bytesLess hi e.1
      if within.length < second.length then .ok (out ++ within.map Prod.snd) file
      else if next = 0 then .ok (out ++ within.map Prod.snd) file
      else rangeLoop hi fuel next none (out ++ within.map Prod.snd) file := by
  have hcells : (leafForm.node next leaf).cells.drop first.length = leafCells second := by
    change (leafCells leaf.entries).drop first.length = _
    rw [hentries, leafCells_append, ← length_leafCells first, List.drop_left]
  rw [rangeLoop, bind_of_ok hread, hlo, hcells]
  dsimp only
  rw [within_leafCells, objid_leafCells, length_leafCells, length_leafCells, ite_run, ite_run]
  rfl

theorem rangeLoop_eq (hi : Bytes) {first second : List Entry} {lo : Option Bytes} {fuel : Nat}
    (hholds : Holds file (leafForm.pages (leaf :: leaves) 0 + frame))
    (hentries : leaf.entries = first ++ second)
    (hlo : ∀ next, (lo.map fun lo => (leafForm.node next leaf).lowerBoundIndex (lo, 0)).getD 0 =
      first.length)
    (hfuel : leaves.length < fuel) (out : List Nat) :
    rangeLoop hi fuel leaf.id lo out file =
      .ok (out ++ ((second ++ contents leaves).takeWhile fun e => !bytesLess hi e.1).map Prod.snd)
        file := by
  induction leaves generalizing leaf first second lo fuel out frame with
  | nil =>
    obtain ⟨fuel, rfl⟩ := Nat.exists_eq_succ_of_ne_zero (Nat.ne_of_gt hfuel)
    have hread : readPage leaf.id file = .ok (leafForm.node 0 leaf) file :=
      hholds.left.readPage (Multiset.mem_add.2 (.inl (Multiset.mem_singleton_self _)))
    rw [rangeLoop_step hi fuel hread hentries (hlo 0) out, contents_nil, List.append_nil]
    dsimp only
    rw [if_pos rfl, ite_self]
  | cons right leaves ih =>
    obtain ⟨fuel, rfl⟩ := Nat.exists_eq_succ_of_ne_zero (Nat.ne_of_gt (Nat.zero_lt_of_lt hfuel))
    rw [RowForm.pages_cons, add_assoc] at hholds
    have hread : readPage leaf.id file = .ok (leafForm.node right.id leaf) file :=
      hholds.readPage (Multiset.mem_add.2 (.inl (Multiset.mem_singleton_self _)))
    have hright : right.id ≠ 0 :=
      (hholds.read (right.id, leafForm.node (leafForm.firstId leaves 0) right)
        (by simp [RowForm.pages_cons, leafForm, Leaf.item])).1
    rw [rangeLoop_step hi fuel hread hentries (hlo right.id) out, List.takeWhile_append]
    dsimp only
    rw [if_neg hright]
    split
    · rename_i hshort
      rw [if_neg (Nat.ne_of_lt hshort)]
    · rename_i hwhole
      have hsub := @List.takeWhile_sublist _ second fun e => !bytesLess hi e.1
      have heq := hsub.eq_of_length (Nat.le_antisymm hsub.length_le (Nat.not_lt.1 hwhole))
      rw [if_pos (congrArg List.length heq), heq]
      rw [@ih right _ [] right.entries none fuel hholds.right rfl (fun _ => rfl)
        (Nat.lt_of_succ_lt_succ hfuel), List.map_append, List.append_assoc, contents_cons]

end Range

/-! ### Representation -/

section Represents

variable [PageSize]

/-- Pages of the file hold a tree, and other pages hold `frame`. -/
structure Represents (file : PageFile Node) (root : Nat) (leaves : List Leaf)
    (levels : List (List Inner)) (frame : Multiset (Nat × Node)) : Prop where
  holds : Holds file (leafForm.pages leaves 0 + levelPages 1 levels + frame)
  stack : Stack (leaves.map Leaf.item) levels root
  inOrder : InOrder leaves
  start : leaves.head?.map Leaf.low = some ([], 0)
  fitLeaves : ∀ leaf ∈ leaves, leafForm.Fit leaf
  fitLevels : ∀ level ∈ levels, ∀ inner ∈ level, fits (separators inner) false = true
  accepted : ∀ m ∈ walk leaves, m.1 = ([], 0) ∨ Accepted m.1

variable {file : PageFile Node} {root : Nat} {leaves : List Leaf} {levels : List (List Inner)}
  {frame : Multiset (Nat × Node)}

omit [PageSize] in
theorem not_less_least (target : Entry) : entryLess target ([], 0) = false := by
  obtain ⟨key, id⟩ := target
  cases key <;> simp [entryLess, bytesLess]

theorem Represents.owner (h : Represents file root leaves levels frame) (target : Entry) :
    ∃ before leaf after, leaves = before ++ leaf :: after ∧
      (∀ l ∈ before ++ [leaf], entryLess target l.low = false) ∧
        ∀ l ∈ after, entryLess target l.low = true := by
  have hlows := h.inOrder.lows
  rw [List.pairwise_map] at hlows
  have hpair : leaves.Pairwise fun a b =>
      (!entryLess target b.low) = true → (!entryLess target a.low) = true := by
    refine hlows.imp fun hless hb => ?_
    simp only [Bool.not_eq_true'] at hb ⊢
    rw [← Bool.not_eq_true] at hb ⊢
    exact fun hcase => hb (entryLess_trans hcase hless)
  obtain ⟨first, after, rfl, hfirst, hafter⟩ := Bisect.exists_cut hpair
  simp only [Bool.not_eq_true', Bool.not_eq_false'] at hfirst hafter
  obtain rfl | ⟨before, leaf, rfl⟩ := List.eq_nil_or_concat' first
  · exfalso
    cases after with
    | nil => exact absurd h.start (by simp)
    | cons leaf after =>
      have hlow : leaf.low = ([], 0) := Option.some.inj h.start
      have hless := hafter leaf List.mem_cons_self
      rw [hlow, not_less_least] at hless
      exact Bool.noConfusion hless
  · exact ⟨before, leaf, after, by simp, hfirst, hafter⟩

end Represents

end MoDb.Index
