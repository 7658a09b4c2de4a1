import MoDb.Index.TreeRuns

/-!
# The check of a tree

`validate` walks over every node of a tree that the calls have made, and finds nothing wrong but nodes
below the root with too few entries, which those calls do leave behind.
-/

namespace MoDb.Index

open Storage Effect Levels

def underfullNode : Stop := .error ⟨.corruptPage, "B+ non-root node is underfull"⟩

def Node.pushed (node : Node) : List Nat := (node.link :: node.cells.map Cell.child).reverse

/-- Trees of one height, one after the other, and their nodes. A leaf has height zero. -/
inductive Forest (file : PageFile Node) : Nat → List Nat → Multiset (Nat × Node) → Prop
  | nil (height : Nat) : Forest file height [] 0
  | leaf {id : Nat} {node : Node} {ids : List Nat} {nodes : Multiset (Nat × Node)}
      (hread : readPage id file = .ok node file) (hleaf : node.isLeaf = true)
      (horder : inOrder node.entries = true) (hrest : Forest file 0 ids nodes) :
      Forest file 0 (id :: ids) ({(id, node)} + nodes)
  | inner {height id : Nat} {node : Node} {ids : List Nat} {below nodes : Multiset (Nat × Node)}
      (hread : readPage id file = .ok node file) (hinner : node.isLeaf = false)
      (horder : inOrder node.entries = true) (hbelow : Forest file height node.pushed below)
      (hrest : Forest file (height + 1) ids nodes) :
      Forest file (height + 1) (id :: ids) ({(id, node)} + below + nodes)

namespace Forest

variable {file : PageFile Node} {height : Nat} {ids ids' : List Nat} {nodes nodes' : Multiset (Nat × Node)}

theorem append (h : Forest file height ids nodes) (h' : Forest file height ids' nodes') :
    Forest file height (ids ++ ids') (nodes + nodes') := by
  induction h with
  | nil height => rwa [List.nil_append, zero_add]
  | leaf hread hleaf horder hrest ih =>
    rw [add_assoc]
    exact .leaf hread hleaf horder (ih h')
  | inner hread hinner horder hbelow hrest _ ih =>
    rw [add_assoc]
    exact .inner hread hinner horder hbelow (ih h')

theorem split (h : Forest file height (ids ++ ids') nodes) :
    ∃ first second, nodes = first + second ∧ Forest file height ids first ∧ Forest file height ids' second := by
  induction ids generalizing nodes with
  | nil => exact ⟨0, nodes, (zero_add nodes).symm, .nil height, h⟩
  | cons id ids ih =>
    cases h with
    | leaf hread hleaf horder hrest =>
      obtain ⟨first, second, rfl, hfirst, hsecond⟩ := ih hrest
      exact ⟨_, second, (add_assoc _ _ _).symm, .leaf hread hleaf horder hfirst, hsecond⟩
    | inner hread hinner horder hbelow hrest =>
      obtain ⟨first, second, rfl, hfirst, hsecond⟩ := ih hrest
      exact ⟨_, second, (add_assoc _ _ _).symm, .inner hread hinner horder hbelow hfirst, hsecond⟩

theorem reverse (h : Forest file height ids nodes) : Forest file height ids.reverse nodes := by
  induction ids generalizing nodes with
  | nil => exact h
  | cons id ids ih =>
    obtain ⟨first, second, rfl, hfirst, hsecond⟩ := @split file _ [id] ids nodes h
    rw [List.reverse_cons, add_comm]
    exact (ih hsecond).append hfirst

end Forest

section Check

variable [PageSize] {file : PageFile Node} {height : Nat} {ids : List Nat} {nodes : Multiset (Nat × Node)}

def Short (page : Nat × Node) : Prop := underfull page.2.entries page.2.isLeaf = true

section Step

variable {id depth leafDepth fuel : Nat} {isRoot : Bool} {node : Node} {stack : List Frame}

theorem validateLoop_short (hread : readPage id file = .ok node file) (horder : inOrder node.entries = true)
    (hshort : Short (id, node)) :
    validateLoop (fuel + 1) (⟨id, depth, false⟩ :: stack) leafDepth file = .error underfullNode file := by
  unfold Short at hshort
  rw [validateLoop, bind_of_ok hread]
  simp only [horder, hshort, Bool.not_true, Bool.not_false, Bool.and_self, if_true, Bool.false_eq_true, if_false]
  rfl

theorem validateLoop_leaf (hread : readPage id file = .ok node file) (hleaf : node.isLeaf = true)
    (horder : inOrder node.entries = true) (hshort : isRoot = true ∨ ¬Short (id, node))
    (hdepth : leafDepth = 0 ∨ leafDepth = depth) :
    validateLoop (fuel + 1) (⟨id, depth, isRoot⟩ :: stack) leafDepth file = validateLoop fuel stack depth file := by
  have hpass : (!isRoot && underfull node.entries node.isLeaf) = false := by
    rcases hshort with rfl | hshort
    · rfl
    · rw [Bool.eq_false_of_not_eq_true hshort, Bool.and_false]
  rw [hleaf] at hpass
  rw [validateLoop, bind_of_ok hread, hleaf]
  simp only [horder, hpass, Bool.not_true, Bool.false_eq_true, if_false, if_true]
  rcases hdepth with rfl | rfl
  · rfl
  · by_cases hzero : leafDepth = 0
    · simp [hzero]
    · simp [hzero]

theorem validateLoop_inner (hread : readPage id file = .ok node file) (hinner : node.isLeaf = false)
    (horder : inOrder node.entries = true) (hshort : isRoot = true ∨ ¬Short (id, node)) :
    validateLoop (fuel + 1) (⟨id, depth, isRoot⟩ :: stack) leafDepth file =
      validateLoop fuel (node.pushed.map (fun id => ⟨id, depth + 1, false⟩) ++ stack) leafDepth file := by
  have hpass : (!isRoot && underfull node.entries node.isLeaf) = false := by
    rcases hshort with rfl | hshort
    · rfl
    · rw [Bool.eq_false_of_not_eq_true hshort, Bool.and_false]
  rw [hinner] at hpass
  rw [validateLoop, bind_of_ok hread, hinner]
  simp only [horder, hpass, Bool.not_true, Bool.false_eq_true, if_false]
  rw [Node.pushed, List.map_reverse]

end Step

theorem validateLoop_forest (h : Forest file height ids nodes) {depth : Nat} (hdepth : 0 < depth) :
    ∀ (fuel : Nat) (stack : List Frame) (leafDepth : Nat), leafDepth = 0 ∨ leafDepth = depth + height →
      ((∃ page ∈ nodes, Short page) → validateLoop (fuel + Multiset.card nodes)
          (ids.map (fun id => ⟨id, depth, false⟩) ++ stack) leafDepth file = .error underfullNode file) ∧
        ((∀ page ∈ nodes, ¬Short page) → validateLoop (fuel + Multiset.card nodes)
            (ids.map (fun id => ⟨id, depth, false⟩) ++ stack) leafDepth file =
          validateLoop fuel stack (if ids = [] then leafDepth else depth + height) file) := by
  induction h generalizing depth with
  | nil height =>
    intro fuel stack leafDepth _
    exact ⟨fun ⟨page, hpage, _⟩ => absurd hpage (Multiset.notMem_zero page), fun _ => rfl⟩
  | @leaf id node ids nodes hread hleaf horder hrest ih =>
    intro fuel stack leafDepth hleaves
    obtain ⟨hbad, hgood⟩ := ih hdepth fuel stack depth (.inr rfl)
    rw [Nat.add_zero] at hleaves hgood ⊢
    rw [Multiset.card_add, Multiset.card_singleton, Nat.add_comm 1, ← Nat.add_assoc, List.map_cons, List.cons_append]
    by_cases hshort : Short (id, node)
    · exact ⟨fun _ => validateLoop_short hread horder hshort,
        fun hall => absurd hshort (hall _ (Multiset.mem_add.2 (.inl (Multiset.mem_singleton_self _))))⟩
    · rw [validateLoop_leaf hread hleaf horder (.inr hshort) hleaves]
      constructor
      · rintro ⟨page, hpage, hpageShort⟩
        rcases Multiset.mem_add.1 hpage with hpage | hpage
        · rw [Multiset.mem_singleton.1 hpage] at hpageShort
          exact absurd hpageShort hshort
        · exact hbad ⟨page, hpage, hpageShort⟩
      · intro hall
        rw [hgood fun page hpage => hall page (Multiset.mem_add.2 (.inr hpage)), if_neg (List.cons_ne_nil _ _)]
        split <;> rfl
  | @inner height id node ids below nodes hread hinner horder hbelow hrest ihBelow ihRest =>
    intro fuel stack leafDepth hleaves
    have hheight : depth + 1 + height = depth + (height + 1) := by omega
    have hpushed : node.pushed ≠ [] := by simp [Node.pushed]
    obtain ⟨hbad, hgood⟩ := ihBelow (Nat.succ_pos depth) (fuel + Multiset.card nodes)
      (ids.map (fun id => ⟨id, depth, false⟩) ++ stack) leafDepth (by rw [hheight]; exact hleaves)
    obtain ⟨hbad', hgood'⟩ := ihRest hdepth fuel stack (depth + (height + 1)) (.inr rfl)
    have hcard : fuel + Multiset.card ({(id, node)} + below + nodes) =
        fuel + Multiset.card nodes + Multiset.card below + 1 := by
      simp only [Multiset.card_add, Multiset.card_singleton]
      omega
    rw [hcard, List.map_cons, List.cons_append]
    by_cases hshort : Short (id, node)
    · exact ⟨fun _ => validateLoop_short hread horder hshort,
        fun hall => absurd hshort (hall _ (by simp))⟩
    · rw [validateLoop_inner hread hinner horder (.inr hshort)]
      by_cases hbelowShort : ∃ page ∈ below, Short page
      · refine ⟨fun _ => hbad hbelowShort, fun hall => ?_⟩
        obtain ⟨page, hpage, hpageShort⟩ := hbelowShort
        exact absurd hpageShort (hall page (by simp [hpage]))
      · rw [hgood fun page hpage hpageShort => hbelowShort ⟨page, hpage, hpageShort⟩, if_neg hpushed, hheight]
        constructor
        · rintro ⟨page, hpage, hpageShort⟩
          simp only [Multiset.mem_add, Multiset.mem_singleton] at hpage
          rcases hpage with (rfl | hpage) | hpage
          · exact absurd hpageShort hshort
          · exact absurd ⟨page, hpage, hpageShort⟩ hbelowShort
          · exact hbad' ⟨page, hpage, hpageShort⟩
        · intro hall
          rw [hgood' fun page hpage => hall page (Multiset.mem_add.2 (.inr hpage)), if_neg (List.cons_ne_nil _ _)]
          split <;> rfl

/-! ### The tree as a forest -/

omit [PageSize] in
theorem inOrder_of_sorted {entries : List Entry} (h : Sorted entries) : inOrder entries = true := by
  induction entries with
  | nil => rfl
  | cons a entries ih =>
    cases entries with
    | nil => rfl
    | cons b entries =>
      have htail := List.pairwise_cons.1 h
      rw [inOrder, htail.1 b List.mem_cons_self, ih htail.2]
      rfl

omit [PageSize] in
theorem pushed_inner (level : Nat) (g : Inner) :
    ((innerForm level).node 0 g).pushed = (g.children.map Prod.snd).reverse := by
  obtain ⟨id, children, hchildren⟩ := g
  obtain ⟨c, rest, rfl⟩ := List.exists_cons_of_ne_nil hchildren
  rw [Node.pushed]
  simp [RowForm.node, innerForm, innerCells, Cell.ofEntry]

variable {frame : Multiset (Nat × Node)}

omit [PageSize] in
theorem forest_leaves {leaves : List Leaf} (hholds : Holds file (leafForm.pages leaves 0 + frame))
    (hsorted : ∀ leaf ∈ leaves, Sorted leaf.entries) :
    Forest file 0 ((leaves.map Leaf.item).map Prod.snd) (leafForm.pages leaves 0) := by
  induction leaves generalizing frame with
  | nil => exact .nil 0
  | cons leaf leaves ih =>
    obtain ⟨hhead, htail⟩ := List.forall_mem_cons.1 hsorted
    rw [RowForm.pages_cons] at hholds ⊢
    refine .leaf (hholds.left.left.readPage (Multiset.mem_singleton_self _)) rfl ?_ ?_
    · rw [RowForm.entries_node, entries_leafForm]
      exact inOrder_of_sorted hhead
    · rw [add_assoc] at hholds
      exact ih hholds.right htail

omit [PageSize] in
theorem forest_level {level : Nat} {groups : List Inner} {below : Multiset (Nat × Node)}
    (hholds : Holds file ((innerForm level).pages groups 0 + frame))
    (hsorted : ∀ g ∈ groups, Sorted (separators g))
    (h : Forest file height ((flat groups).map Prod.snd) below) :
    Forest file (height + 1) ((groups.map Group.item).map Prod.snd) (below + (innerForm level).pages groups 0) := by
  induction groups generalizing below frame with
  | nil =>
    cases h
    rw [RowForm.pages_nil, add_zero]
    exact .nil _
  | cons g groups ih =>
    obtain ⟨hhead, htail⟩ := List.forall_mem_cons.1 hsorted
    rw [flat_cons, List.map_append] at h
    obtain ⟨first, second, rfl, hfirst, hsecond⟩ := h.split
    rw [RowForm.pages_cons] at hholds ⊢
    have hread : readPage g.id file = .ok ((innerForm level).node 0 g) file :=
      hholds.left.left.readPage (Multiset.mem_singleton_self _)
    rw [add_assoc] at hholds
    have hrest := ih hholds.right htail hsecond
    have hbelow : Forest file height ((innerForm level).node 0 g).pushed first := by
      rw [pushed_inner]
      exact hfirst.reverse
    have hnode := Forest.inner hread rfl (by
      rw [RowForm.entries_node, entries_innerForm]
      exact inOrder_of_sorted hhead) hbelow hrest
    have heq : first + second + ({(g.id, (innerForm level).node 0 g)} + (innerForm level).pages groups 0) =
        {(g.id, (innerForm level).node 0 g)} + first + (second + (innerForm level).pages groups 0) := by
      abel
    change Forest file (height + 1) (g.id :: _) (first + second + ({(g.id, (innerForm level).node 0 g)} + _))
    rw [heq]
    exact hnode

omit [PageSize] in
theorem forest_stack {items : List (Entry × Nat)} {levels : List (List Inner)} {root : Nat}
    (h : Stack items levels root) : ∀ {height level : Nat} {below frame : Multiset (Nat × Node)},
      Forest file height (items.map Prod.snd) below → Holds file (levelPages level levels + frame) →
      (items.map Prod.fst).Pairwise (fun a b => entryLess a b = true) →
      Forest file (height + levels.length) [root] (below + levelPages level levels) := by
  induction h with
  | top a =>
    intro height level below frame hforest _ _
    rw [levelPages_nil, add_zero]
    exact hforest
  | @level items groups levels root hitems h ih =>
    intro height level below frame hforest hholds hsorted
    rw [levelPages_cons] at hholds ⊢
    rw [hitems] at hforest hsorted
    have hseparators : ∀ g ∈ groups, Sorted (separators g) := by
      intro g hg
      have hsub : ((g.children.tail).map Prod.fst).Sublist ((flat groups).map Prod.fst) := by
        refine ((List.tail_sublist _).trans ?_).map _
        exact List.sublist_flatten_of_mem (List.mem_map_of_mem hg)
      exact hsorted.sublist hsub
    rw [add_assoc] at hholds
    have hup := ih (forest_level hholds hseparators hforest) hholds.right (hsorted.sublist (keys_sublist groups))
    rw [List.length_cons, ← Nat.add_assoc, Nat.add_right_comm, ← add_assoc]
    exact hup

/-! ### The nodes below the root -/

/-- `child` is a child of the inner node `parent`. -/
def Child (file : PageFile Node) (parent child : Nat) : Prop :=
  ∃ node, file.read parent = .ok node ∧ node.isLeaf = false ∧ child ∈ node.pushed

def ShortBelow (file : PageFile Node) (root : Nat) : Prop :=
  ∃ id node, Relation.TransGen (Child file) root id ∧ file.read id = .ok node ∧ Short (id, node)

omit [PageSize] in
theorem read_of_readPage {id : Nat} {node : Node} (h : readPage id file = .ok node file) :
    file.read id = .ok node := by
  unfold readPage at h
  cases hread : file.read id with
  | ok node' =>
    rw [hread] at h
    injection h with hnode
    rw [hnode]
  | error error =>
    rw [hread] at h
    injection h

omit [PageSize] in
theorem mem_forest (h : Forest file height ids nodes) (page : Nat × Node) :
    page ∈ nodes ↔ file.read page.1 = .ok page.2 ∧ ∃ id ∈ ids, Relation.ReflTransGen (Child file) id page.1 := by
  induction h with
  | nil height => simp
  | @leaf id node ids nodes hread hleaf horder hrest ih =>
    have hnode := read_of_readPage hread
    rw [Multiset.mem_add, Multiset.mem_singleton, ih]
    constructor
    · rintro (rfl | ⟨hpage, other, hother, hreach⟩)
      · exact ⟨hnode, id, List.mem_cons_self, .refl⟩
      · exact ⟨hpage, other, List.mem_cons_of_mem id hother, hreach⟩
    · rintro ⟨hpage, other, hother, hreach⟩
      rcases List.mem_cons.1 hother with rfl | hother
      · rcases hreach.cases_head with heq | ⟨child, ⟨node', hnode', hinner, -⟩, -⟩
        · rw [← heq, hnode] at hpage
          exact .inl (Prod.ext heq.symm (Except.ok.inj hpage).symm)
        · rw [hnode] at hnode'
          rw [← Except.ok.inj hnode', hleaf] at hinner
          cases hinner
      · exact .inr ⟨hpage, other, hother, hreach⟩
  | @inner height id node ids below nodes hread hinner horder hbelow hrest ihBelow ihRest =>
    have hnode := read_of_readPage hread
    rw [Multiset.mem_add, Multiset.mem_add, Multiset.mem_singleton, ihBelow, ihRest]
    constructor
    · rintro ((rfl | ⟨hpage, child, hchild, hreach⟩) | ⟨hpage, other, hother, hreach⟩)
      · exact ⟨hnode, id, List.mem_cons_self, .refl⟩
      · exact ⟨hpage, id, List.mem_cons_self, .head ⟨node, hnode, hinner, hchild⟩ hreach⟩
      · exact ⟨hpage, other, List.mem_cons_of_mem id hother, hreach⟩
    · rintro ⟨hpage, other, hother, hreach⟩
      rcases List.mem_cons.1 hother with rfl | hother
      · rcases hreach.cases_head with heq | ⟨child, ⟨node', hnode', -, hchild⟩, hreach⟩
        · rw [← heq, hnode] at hpage
          exact .inl (.inl (Prod.ext heq.symm (Except.ok.inj hpage).symm))
        · rw [hnode] at hnode'
          rw [← Except.ok.inj hnode'] at hchild
          exact .inl (.inr ⟨hpage, child, hchild, hreach⟩)
      · exact .inr ⟨hpage, other, hother, hreach⟩

theorem validate_holding {P : Entry → Prop} {entries : List Entry} {root : Nat}
    (h : Holding P frame entries root file) :
    (ShortBelow file root → validate root file = .error underfullNode file) ∧
      (¬ShortBelow file root → ∃ height, validate root file = .ok height file) := by
  obtain ⟨leaves, levels, orphans, hrep, -, -⟩ := h
  have hholds := hrep.holds
  rw [add_assoc] at hholds
  have hsorted : ∀ leaf ∈ leaves, Sorted leaf.entries := by
    intro leaf hleaf
    refine hrep.inOrder.sorted.sublist ?_
    exact List.sublist_flatten_of_mem (List.mem_map_of_mem hleaf)
  have hkeys : ((leaves.map Leaf.item).map Prod.fst).Pairwise fun a b => entryLess a b = true := by
    rw [List.map_map]
    exact hrep.inOrder.lows
  have hforest := forest_stack hrep.stack (forest_leaves hholds hsorted) hholds.right hkeys
  rw [Nat.zero_add] at hforest
  have hcard : Multiset.card (leafForm.pages leaves 0 + levelPages 1 levels) ≤ file.pageCount := by
    rw [← add_assoc] at hholds
    exact hholds.left.card_lt
  generalize leafForm.pages leaves 0 + levelPages 1 levels = nodes at hforest hcard
  generalize levels.length = height at hforest
  have hcount : nodeCount file = .ok file.pageCount file := rfl
  unfold validate
  rw [bind_of_ok hcount]
  cases hforest with
  | @leaf _ node _ rest hread hleaf horder hrest =>
    cases hrest
    rw [Multiset.card_add, Multiset.card_singleton] at hcard
    obtain ⟨fuel, hfuel⟩ : ∃ fuel, file.pageCount = fuel + 1 := ⟨file.pageCount - 1, by omega⟩
    rw [hfuel, validateLoop_leaf hread hleaf horder (.inl rfl) (.inl rfl)]
    constructor
    · rintro ⟨id, node', hbelow, -⟩
      obtain ⟨child, ⟨root', hroot', hinner, -⟩, -⟩ := Relation.TransGen.head'_iff.1 hbelow
      rw [read_of_readPage hread] at hroot'
      rw [← Except.ok.inj hroot', hleaf] at hinner
      cases hinner
    · exact fun _ => ⟨1, by cases fuel <;> rfl⟩
  | @inner height _ node _ below rest hread hinner horder hbelow hrest =>
    cases hrest
    rw [add_zero, Multiset.card_add, Multiset.card_singleton] at hcard
    obtain ⟨fuel, hfuel⟩ : ∃ fuel, file.pageCount = fuel + Multiset.card below + 1 :=
      ⟨file.pageCount - 1 - Multiset.card below, by omega⟩
    obtain ⟨hbad, hgood⟩ := validateLoop_forest hbelow (Nat.succ_pos 1) fuel [] 0 (.inl rfl)
    rw [List.append_nil] at hbad hgood
    rw [hfuel, validateLoop_inner hread hinner horder (.inl rfl), List.append_nil]
    have hshort : ShortBelow file root ↔ ∃ page ∈ below, Short page := by
      constructor
      · rintro ⟨id, node', hreach, hnode', hshort⟩
        obtain ⟨child, ⟨root', hroot', -, hchild⟩, hreach⟩ := Relation.TransGen.head'_iff.1 hreach
        rw [read_of_readPage hread] at hroot'
        rw [← Except.ok.inj hroot'] at hchild
        exact ⟨(id, node'), (mem_forest hbelow _).2 ⟨hnode', child, hchild, hreach⟩, hshort⟩
      · rintro ⟨⟨id, node'⟩, hmem, hshort⟩
        obtain ⟨hnode', child, hchild, hreach⟩ := (mem_forest hbelow _).1 hmem
        exact ⟨id, node', Relation.TransGen.head' ⟨node, read_of_readPage hread, hinner, hchild⟩ hreach, hnode',
          hshort⟩
    rw [hshort]
    refine ⟨hbad, fun hnone => ⟨2 + height, ?_⟩⟩
    rw [hgood fun page hpage hpageShort => hnone ⟨page, hpage, hpageShort⟩,
      if_neg (by simp [Node.pushed])]
    cases fuel <;> rfl

/-- After any run of calls none of which ran out of pages or overflowed one, the check fails exactly if a
node below the root has too few entries. -/
theorem validate_of_run {start : PageFile Node} (hholds : Holds start frame) (hpos : 0 < start.pageCount) :
    Outcome (fun root file => ∀ (calls : List TreeCall) (run : TreeRun), run = treeRun root file calls →
        .error fileFull ∉ run.answers → .error .overflow ∉ run.answers →
        (ShortBelow run.file run.root → validate run.root run.file = .error underfullNode run.file) ∧
          (¬ShortBelow run.file run.root → ∃ height, validate run.root run.file = .ok height run.file))
      (fun stop _ => stop = fileFull) (create start) := by
  refine (create_holding hholds hpos).mono ?_ fun _ _ h => h
  rintro root file hnew calls run rfl hfull hoverflow
  rcases @treeRun_holding _ Accepted frame file root (fun _ h => h) calls (fun _ _ _ hkey => hkey) KeySet.empty
    (hnew Accepted) with ⟨-, entries, hwhole⟩ | ⟨n, stop, more, -, hhalts, hanswers⟩
  · exact validate_holding hwhole
  · have hmem : .error stop ∈ (treeRun root file calls).answers := by
      rw [hanswers]
      exact List.mem_append_right _ List.mem_cons_self
    rcases hhalts with rfl | ⟨rfl, -⟩
    · exact absurd hmem hfull
    · exact absurd hmem hoverflow

omit [PageSize] in
theorem validate_of_run_new : Outcome (fun root file => ∀ (calls : List TreeCall) (run : TreeRun),
      run = @treeRun PageSize.default root file calls → .error fileFull ∉ run.answers →
      .error .overflow ∉ run.answers →
      (@ShortBelow PageSize.default run.file run.root →
          @validate PageSize.default run.root run.file = .error underfullNode run.file) ∧
        (¬@ShortBelow PageSize.default run.file run.root →
          ∃ height, @validate PageSize.default run.root run.file = .ok height run.file))
    (fun stop _ => stop = fileFull) (@create PageSize.default PageFile.create) :=
  @validate_of_run PageSize.default 0 PageFile.create Holds.empty (by decide)

end Check

end MoDb.Index
