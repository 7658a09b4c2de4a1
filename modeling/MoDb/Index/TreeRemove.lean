import MoDb.Index.TreeInsert

/-!
# Removal

A node that became underfull takes entries of a neighbour, or is merged with one, which takes a child
from its parent. One turn of the loop is the same on every level; what it leaves to do is the parent.
-/

namespace MoDb.Index

open Storage Effect Levels

section Turn

variable [PageSize] {N : Type} {row : Row N} {P : Entry → Prop} {level : Nat} {file : PageFile Node}
  {frame : Multiset (Nat × Node)} {before after : List N} {n : N} {outer later : List Inner} {pid : Nat}
  {left right : List (Entry × Nat)} {stale : Node}

/-- A node is at hand whose page is stale; its parent is `pid`. -/
structure AtNode (row : Row N) (P : Entry → Prop) (level : Nat) (file : PageFile Node)
    (frame : Multiset (Nat × Node)) (before : List N) (n : N) (after : List N) (outer : List Inner)
    (pid : Nat) (left right : List (Entry × Nat)) (later : List Inner) (stale : Node) : Prop where
  holds : Holds file ({((row.item n).2, stale)} + (row.pages before (row.item n).2 + row.pages after 0) +
    ((innerForm level).pages (outer ++ Group.around pid left (row.item n) right :: later) 0 + frame))
  left_eq : before.map row.item = flat outer ++ left
  right_eq : after.map row.item = right ++ flat later
  fit : ∀ m ∈ before ++ n :: after, row.Fit m
  parent : fits (separators (Group.around pid left (row.item n) right)) false = true
  keyed : ∀ ns, row.Keeps (before ++ n :: after) ns → Keyed P (ns.map row.item)

/-- What a turn may make of the nodes and of the parent. -/
structure Turned (row : Row N) (ns : List N) (parent : Inner) (outer later : List Inner) (ns' : List N)
    (parent' : Inner) : Prop where
  keeps : row.Keeps ns ns'
  fit : ∀ m ∈ ns', row.Fit m
  items : ns'.map row.item = flat (outer ++ parent' :: later)
  item_eq : parent'.item = parent.item
  parent : fits (separators parent') false = true

theorem storeNode_run {id x : Nat} {pages : Multiset (Nat × Node)} {old : Node} (hfit : row.Fit n)
    (hholds : Holds file ({(id, old)} + pages)) :
    ∃ file', storeNode id (row.node x n) file = .ok () file' ∧ Holds file' ({(id, row.node x n)} + pages) := by
  obtain ⟨file', hwrite, hheld, -⟩ := hholds.writePage (row.node x n)
  refine ⟨file', ?_, hheld⟩
  have hfits : fits ((row.node x n).cells.map Cell.entry) (row.node x n).isLeaf = true := by
    rw [RowForm.isLeaf_node]
    exact hfit
  rw [storeNode, bind_of_ok (writeNode_of_fits hfits), RowForm.isLeaf_node]
  exact hwrite

omit [PageSize] in
theorem findIdx?_child (left right : List (Entry × Nat)) (a : Entry × Nat) (h : ∀ c ∈ left, c.2 ≠ a.2) :
    (((left ++ a :: right).map fun child => Cell.ofEntry child.1 child.2).findIdx? fun cell =>
      cell.child = a.2) = some left.length := by
  induction left with
  | nil => simp [List.findIdx?_cons, Cell.ofEntry]
  | cons c left ih =>
    have hc : c.2 ≠ a.2 := h c List.mem_cons_self
    rw [List.cons_append, List.map_cons, List.findIdx?_cons, ih fun c' hc' => h c' (List.mem_cons_of_mem c hc')]
    simp [Cell.ofEntry, hc]

omit [PageSize] in
theorem childSlot_around {next : Nat} {a : Entry × Nat} (h : ∀ c ∈ left, c.2 ≠ a.2) :
    ((innerForm level).node next (Group.around pid left a right)).childSlot a.2 = some left.length := by
  cases left with
  | nil => exact if_pos rfl
  | cons c left =>
    have hc : ((innerForm level).node next (Group.around pid (c :: left) a right)).link ≠ a.2 :=
      h c List.mem_cons_self
    rw [Node.childSlot, if_neg hc]
    change Option.map _ (List.findIdx? _ ((left ++ a :: right).map _)) = _
    rw [findIdx?_child left right a fun c' hc' => h c' (List.mem_cons_of_mem c hc')]
    rfl

/-! ### The cell of a child -/

section ParentCell

omit [PageSize]

variable {a b : Entry × Nat}

theorem parent_cells (left right : List (Entry × Nat)) (a b : Entry × Nat) :
    ((innerForm level).node 0 (Group.around pid left a (b :: right))).cells =
      innerCells (left ++ [a]) ++ Cell.ofEntry b.1 b.2 :: right.map fun c => Cell.ofEntry c.1 c.2 :=
  innerCells_around left (b :: right) a

theorem length_parent_cells (left right : List (Entry × Nat)) (a : Entry × Nat) :
    ((innerForm level).node 0 (Group.around pid left a right)).cells.length = left.length + right.length := by
  change (innerCells (left ++ a :: right)).length = _
  rw [innerCells_around, List.length_append, length_innerCells_snoc, List.length_map]

theorem separatorAt_around (left right : List (Entry × Nat)) (a b : Entry × Nat) :
    ((innerForm level).node 0 (Group.around pid left a (b :: right))).separatorAt left.length = b.1 := by
  rw [Node.separatorAt, parent_cells, ← length_innerCells_snoc left a]
  simp [entry_ofEntry]

theorem modify_append {α : Type} (first second : List α) (c : α) (f : α → α) :
    (first ++ c :: second).modify first.length f = first ++ f c :: second := by
  induction first with
  | nil => rfl
  | cons d first ih =>
    rw [List.cons_append, List.length_cons, List.modify_succ_cons, ih, List.cons_append]

theorem setSeparator_around (left right : List (Entry × Nat)) (a b : Entry × Nat) (separator : Entry) :
    ((innerForm level).node 0 (Group.around pid left a (b :: right))).setSeparator left.length separator =
      (innerForm level).node 0 (Group.around pid left a ((separator, b.2) :: right)) := by
  have hcells : ((innerForm level).node 0 (Group.around pid left a (b :: right))).cells.modify left.length
      (fun cell => Cell.ofEntry separator cell.child) =
        ((innerForm level).node 0 (Group.around pid left a ((separator, b.2) :: right))).cells := by
    rw [parent_cells, parent_cells, ← length_innerCells_snoc left a, modify_append]
    rfl
  rw [Node.setSeparator, hcells]
  cases left <;> rfl

theorem eraseIdx_around (left right : List (Entry × Nat)) (a b : Entry × Nat) :
    (⟨.internal, ((innerForm level).node 0 (Group.around pid left a (b :: right))).level,
      ((innerForm level).node 0 (Group.around pid left a (b :: right))).link,
      ((innerForm level).node 0 (Group.around pid left a (b :: right))).cells.eraseIdx left.length⟩ : Node) =
      (innerForm level).node 0 (Group.around pid left a right) := by
  have hcells : ((innerForm level).node 0 (Group.around pid left a (b :: right))).cells.eraseIdx left.length =
      ((innerForm level).node 0 (Group.around pid left a right)).cells := by
    rw [parent_cells, ← length_innerCells_snoc left a, List.eraseIdx_append_of_length_le (Nat.le_refl _),
      Nat.sub_self]
    exact (innerCells_around left right a).symm
  rw [hcells]
  cases left <;> rfl

end ParentCell

/-! ### Two neighbours -/

def lend (isLeaf : Bool) (level leftId rightId parentId : Nat) (left right parent : Node) : TreeM Bool := do
  let leftPage ← writeNode isLeaf level left.link left.cells
  let rightPage ← writeNode isLeaf level right.link right.cells
  let parentPage ← writeNode false parent.level parent.link parent.cells
  writePage leftId leftPage
  writePage rightId rightPage
  writePage parentId parentPage
  pure true

section Loans

variable {nodeId parentId place slot : Nat} {node other parent : Node} {loan : Node × Node × Entry}

theorem tryBorrowRight_none (hread : readPage (parent.siblingAt (place + 1)) file = .ok other file)
    (hloan : borrowRight node other (parent.separatorAt place) = none) :
    tryBorrowRight nodeId node parentId parent place file = .ok false file := by
  unfold tryBorrowRight
  by_cases hplace : parent.cells.length ≤ place
  · rw [if_pos hplace]
    rfl
  · rw [if_neg hplace, bind_of_ok hread, hloan]
    rfl

theorem tryBorrowRight_some (hplace : place < parent.cells.length)
    (hread : readPage (parent.siblingAt (place + 1)) file = .ok other file)
    (hloan : borrowRight node other (parent.separatorAt place) = some loan) :
    tryBorrowRight nodeId node parentId parent place file =
      lend node.isLeaf node.level nodeId (parent.siblingAt (place + 1)) parentId loan.1 loan.2.1
        (parent.setSeparator place loan.2.2) file := by
  unfold tryBorrowRight
  rw [if_neg (Nat.not_le.2 hplace), bind_of_ok hread, hloan]
  rfl

theorem tryBorrowLeft_none (hread : readPage (parent.siblingAt slot) file = .ok other file)
    (hloan : borrowLeft other node (parent.separatorAt slot) = none) :
    tryBorrowLeft nodeId node parentId parent (slot + 1) file = .ok false file := by
  rw [tryBorrowLeft, bind_of_ok hread, hloan]
  rfl

theorem tryBorrowLeft_some (hread : readPage (parent.siblingAt slot) file = .ok other file)
    (hloan : borrowLeft other node (parent.separatorAt slot) = some loan) :
    tryBorrowLeft nodeId node parentId parent (slot + 1) file =
      lend node.isLeaf node.level (parent.siblingAt slot) nodeId parentId loan.1 loan.2.1
        (parent.setSeparator slot loan.2.2) file := by
  rw [tryBorrowLeft, bind_of_ok hread, hloan]
  rfl

end Loans

def surround (row : Row N) (level : Nat) (before : List N) (l : N) (after : List N) (outer : List Inner)
    (pid : Nat) (later : List Inner) (frame : Multiset (Nat × Node)) : Multiset (Nat × Node) :=
  row.pages before (row.item l).2 + (row.pages after 0 +
    ((innerForm level).pages outer pid + ((innerForm level).pages later 0 + frame)))

/-- Two neighbours below one parent, whose pages may be anything. -/
structure Pair (row : Row N) (P : Entry → Prop) (level : Nat) (file : PageFile Node)
    (frame : Multiset (Nat × Node)) (before : List N) (l r : N) (after : List N) (outer : List Inner)
    (pid : Nat) (left right : List (Entry × Nat)) (later : List Inner) (X Y : Node) : Prop where
  holds : Holds file ({((row.item l).2, X)} + ({((row.item r).2, Y)} +
    ({(pid, (innerForm level).node 0 (Group.around pid left (row.item l) (row.item r :: right)))} +
      surround row level before l after outer pid later frame)))
  left_eq : before.map row.item = flat outer ++ left
  right_eq : after.map row.item = right ++ flat later
  fit : ∀ m ∈ before ++ l :: r :: after, row.Fit m
  parent : fits (separators (Group.around pid left (row.item l) (row.item r :: right))) false = true
  keyed : ∀ ns, row.Keeps (before ++ l :: r :: after) ns → Keyed P (ns.map row.item)

variable {l r : N} {X Y : Node}

omit [PageSize] in
theorem Keyed.separators {group : Inner} (h : Keyed P (flat (outer ++ group :: later))) :
    ∀ e ∈ Index.separators group, P e := by
  obtain ⟨id, children, hchildren⟩ := group
  obtain ⟨c, rest, rfl⟩ := List.exists_cons_of_ne_nil hchildren
  have hflat : flat (outer ++ ⟨id, c :: rest, hchildren⟩ :: later) = flat outer ++ c :: (rest ++ flat later) := by
    simp
  rw [hflat] at h
  exact List.forall_mem_map.2 fun c' hc' => h.allowed_right (List.mem_append_left _ hc')

theorem pages_pair {l' r' : N} {parent : Inner} (hl : (row.item l').2 = (row.item l).2)
    (hparent : parent.id = pid) :
    row.pages (before ++ l' :: r' :: after) 0 + ((innerForm level).pages (outer ++ parent :: later) 0 + frame) =
      {((row.item l).2, row.node (row.item r').2 l')} + ({((row.item r').2, row.node (row.firstId after 0) r')} +
        ({(pid, (innerForm level).node 0 parent)} + surround row level before l after outer pid later frame)) := by
  rw [RowForm.pages_split, RowForm.pages_split, RowForm.pages_cons, RowForm.firstId_cons, hl, surround]
  change _ + _ + (({(parent.id, (innerForm level).node 0 parent)} +
    ((innerForm level).pages outer parent.id + _)) + frame) = _
  rw [hparent]
  abel

omit [PageSize] in
theorem forall_pair {Q : N → Prop} {l' r' : N} (h : ∀ m ∈ before ++ l :: r :: after, Q m) (hl : Q l') (hr : Q r') :
    ∀ m ∈ before ++ l' :: r' :: after, Q m := by
  intro m hm
  simp only [List.mem_append, List.mem_cons] at h hm
  rcases hm with hm | rfl | rfl | hm
  · exact h m (.inl hm)
  · exact hl
  · exact hr
  · exact h m (.inr (.inr (.inr hm)))

theorem Pair.lend (h : Pair row P level file frame before l r after outer pid left right later X Y)
    {loan : Node × Node × Entry}
    (hloan : row.Loan l r (row.item r).2 (row.firstId after 0) loan) :
    (∃ ns parent file', Turned row (before ++ l :: r :: after)
        (Group.around pid left (row.item l) (row.item r :: right)) outer later ns parent ∧
        Holds file' (row.pages ns 0 + ((innerForm level).pages (outer ++ parent :: later) 0 + frame)) ∧
        Index.lend row.isLeaf row.level (row.item l).2 (row.item r).2 pid loan.1 loan.2.1
          (((innerForm level).node 0 (Group.around pid left (row.item l) (row.item r :: right))).setSeparator
            left.length loan.2.2) file = .ok true file') ∨
      ¬SameLength P ∧ Index.lend row.isLeaf row.level (row.item l).2 (row.item r).2 pid loan.1 loan.2.1
          (((innerForm level).node 0 (Group.around pid left (row.item l) (row.item r :: right))).setSeparator
            left.length loan.2.2) file = .error .overflow file := by
  obtain ⟨l', r', hl, hr, hitem, hitem', hkeeps, hfit, hfit', -, -⟩ := hloan
  have hkeeps' : row.Keeps (before ++ l :: r :: after) (before ++ l' :: r' :: after) := by
    simpa using row.keeps_append hkeeps before after
  have hitems : (before ++ l' :: r' :: after).map row.item = flat (outer ++
      Group.around pid left (row.item l) ((loan.2.2, (row.item r).2) :: right) :: later) := by
    rw [List.map_append, List.map_cons, List.map_cons, h.left_eq, h.right_eq, hitem, hitem']
    simp
  rw [hl, hr, setSeparator_around]
  unfold Index.lend
  have hfits : ∀ {m : N} {x : Nat}, row.Fit m → writeNode row.isLeaf row.level (row.node x m).link
      (row.node x m).cells file = .ok (row.node x m) file := fun hm => writeNode_of_fits hm
  rw [bind_of_ok (hfits hfit), bind_of_ok (hfits hfit')]
  obtain ⟨parent, hparent⟩ : ∃ parent, parent =
      Group.around pid left (row.item l) ((loan.2.2, (row.item r).2) :: right) := ⟨_, rfl⟩
  rw [← hparent] at hitems ⊢
  have hsub : ((innerForm level).node 0 parent).cells.map Cell.entry = separators parent := entries_innerForm level parent
  by_cases hroom : fits (separators parent) false = true
  · left
    obtain ⟨file₁, hwrite₁, hheld₁, -⟩ := h.holds.writePage (row.node (row.item r).2 l')
    rw [add_left_comm] at hheld₁
    obtain ⟨file₂, hwrite₂, hheld₂, -⟩ := hheld₁.writePage (row.node (row.firstId after 0) r')
    have hparents : Holds file₂
        ({(pid, (innerForm level).node 0 (Group.around pid left (row.item l) (row.item r :: right)))} +
          ({((row.item l).2, row.node (row.item r).2 l')} + ({((row.item r).2, row.node (row.firstId after 0) r')} +
            surround row level before l after outer pid later frame))) := hheld₂.of_eq (by abel)
    obtain ⟨file₃, hwrite₃, hheld₃, -⟩ := hparents.writePage ((innerForm level).node 0 parent)
    refine ⟨before ++ l' :: r' :: after, parent, file₃, ⟨hkeeps', forall_pair h.fit hfit hfit', hitems, ?_, hroom⟩,
      ?_, ?_⟩
    · rw [hparent]
      exact Group.item_around_congr fun _ => rfl
    · have hid : parent.id = pid := by
        rw [hparent]
        rfl
      rw [pages_pair (congrArg Prod.snd hitem) hid, hitem']
      exact hheld₃.of_eq (by abel)
    · rw [bind_of_ok (writeNode_of_fits (by rwa [hsub]))]
      change (writePage _ (row.node (row.item r).2 l') >>= fun _ =>
        writePage _ (row.node (row.firstId after 0) r') >>= fun _ =>
          writePage pid ((innerForm level).node 0 parent) >>= fun _ => pure true : TreeM Bool) file = _
      rw [bind_of_ok hwrite₁, bind_of_ok hwrite₂, bind_of_ok hwrite₃]
      rfl
  · right
    refine ⟨fun hsame => hroom ?_, ?_⟩
    · have hkeyed := h.keyed _ (row.keeps_refl _)
      rw [List.map_append, List.map_cons, List.map_cons, h.left_eq, h.right_eq] at hkeyed
      have hbefore : Keyed P (flat (outer ++ Group.around pid left (row.item l) (row.item r :: right) :: later)) := by
        simpa using hkeyed
      have hafter := h.keyed _ hkeeps'
      rw [hitems] at hafter
      refine fits_of_length hsame hafter.separators hbefore.separators ?_ h.parent
      rw [hparent]
      simp [separators]
    · rw [bind_of_error (writeNode_overflow (by rwa [hsub]))]

theorem Pair.merge (h : Pair row P level file frame before l r after outer pid left right later X Y) {m : N}
    (hitem : row.item m = row.item l) (hkeeps : row.Keeps [l, r] [m]) (hfit : row.Fit m) :
    ∃ file₁ file₂, storeNode (row.item l).2 (row.node (row.firstId after 0) m) file = .ok () file₁ ∧
      writeOrphan (row.item r).2 file₁ = .ok () file₂ ∧
      Turned row (before ++ l :: r :: after) (Group.around pid left (row.item l) (row.item r :: right)) outer later
        (before ++ m :: after) (Group.around pid left (row.item l) right) ∧
      Holds file₂ (row.pages (before ++ m :: after) 0 + ({(pid, (innerForm level).node 0
          (Group.around pid left (row.item l) (row.item r :: right)))} + ((innerForm level).pages outer pid +
            ((innerForm level).pages later 0 + ({((row.item r).2, default)} + frame))))) := by
  obtain ⟨file₁, hstore, hheld₁⟩ := storeNode_run (x := row.firstId after 0) hfit h.holds
  rw [add_left_comm] at hheld₁
  obtain ⟨file₂, hwrite, hheld₂, -⟩ := hheld₁.writePage default
  refine ⟨file₁, file₂, hstore, hwrite, ⟨?_, ?_, ?_, ?_, ?_⟩, ?_⟩
  · simpa using row.keeps_append hkeeps before after
  · intro m' hm'
    rcases List.mem_append.1 hm' with hm' | hm'
    · exact h.fit m' (List.mem_append_left _ hm')
    · rcases List.mem_cons.1 hm' with rfl | hm'
      · exact hfit
      · exact h.fit m' (by simp [hm'])
  · rw [List.map_append, List.map_cons, h.left_eq, h.right_eq, hitem]
    simp
  · exact Group.item_around_congr fun _ => rfl
  · refine fits_of_sublist ?_ h.parent
    simp only [separators, Group.children_around]
    refine (List.Sublist.tail ?_).map _
    exact (List.Sublist.refl left).append ((List.sublist_cons_self _ _).cons_cons _)
  · rw [RowForm.pages_split, hitem]
    exact hheld₂.of_eq (by rw [surround]; abel)

/-! ### One turn -/

namespace AtNode

theorem pair_right {b : Entry × Nat} {right' : List (Entry × Nat)}
    (h : AtNode row P level file frame before n after outer pid left (b :: right') later stale) :
    ∃ r after', after = r :: after' ∧ b = row.item r ∧
      Pair row P level file frame before n r after' outer pid left right' later stale
        (row.node (row.firstId after' 0) r) := by
  obtain ⟨r, after', rfl, rfl, hafter⟩ := List.map_eq_cons_iff.1 h.right_eq
  refine ⟨r, after', rfl, rfl, ⟨h.holds.of_eq ?_, h.left_eq, hafter, h.fit, h.parent, h.keyed⟩⟩
  rw [RowForm.pages_cons, RowForm.pages_split, surround]
  change _ + (({(pid, (innerForm level).node 0 _)} + ((innerForm level).pages outer pid + _)) + frame) = _
  abel

theorem pair_left {b : Entry × Nat} {left' : List (Entry × Nat)}
    (h : AtNode row P level file frame before n after outer pid (left' ++ [b]) right later stale) :
    ∃ l before', before = before' ++ [l] ∧ b = row.item l ∧
      Pair row P level file frame before' l n after outer pid left' right later
        (row.node (row.item n).2 l) stale := by
  have hleft := h.left_eq
  rw [← List.append_assoc] at hleft
  obtain ⟨before', last, rfl, hbefore, hlast⟩ := List.map_eq_append_iff.1 hleft
  obtain ⟨l, rfl, rfl⟩ := List.map_eq_singleton_iff.1 hlast
  have hparent : Group.around pid (left' ++ [row.item l]) (row.item n) right =
      Group.around pid left' (row.item l) (row.item n :: right) := by
    exact Levels.Group.ext rfl (by simp)
  have hns : (before' ++ [l]) ++ n :: after = before' ++ l :: n :: after := by simp
  have hholds := h.holds
  have hfits := h.parent
  have hfit := h.fit
  have hkeyed := h.keyed
  rw [hparent] at hholds hfits
  rw [hns] at hfit hkeyed
  refine ⟨l, before', rfl, rfl, ⟨hholds.of_eq ?_, hbefore, h.right_eq, hfit, hfits, hkeyed⟩⟩
  rw [RowForm.pages_split, RowForm.pages_split, RowForm.pages_nil, add_zero, surround]
  change _ + ({_} + _ + _) + (({(pid, (innerForm level).node 0 _)} +
    ((innerForm level).pages outer pid + _)) + frame) = _
  change _ + ({((row.item l).2, row.node (row.item n).2 l)} + _ + _) + _ = _
  abel

def Lent (row : Row N) (P : Entry → Prop) (level : Nat) (file : PageFile Node) (frame : Multiset (Nat × Node))
    (ns : List N) (parent : Inner) (outer later : List Inner)
    (result : EStateM.Result Stop (PageFile Node) Bool) : Prop :=
  result = .ok false file ∨
    (∃ ns' parent' file', Turned row ns parent outer later ns' parent' ∧
      Holds file' (row.pages ns' 0 + ((innerForm level).pages (outer ++ parent' :: later) 0 + frame)) ∧
        result = .ok true file') ∨
      ¬SameLength P ∧ result = .error .overflow file

omit [PageSize] in
theorem siblingAt_succ {a b : Entry × Nat} {right' : List (Entry × Nat)} :
    ((innerForm level).node 0 (Group.around pid left a (b :: right'))).siblingAt (left.length + 1) = b.2 := by
  rw [siblingAt_inner, Group.children_around]
  simp

theorem lent_right (h : AtNode row P level file frame before n after outer pid left right later stale)
    (hunder : underfull (row.entries n) row.isLeaf = true) :
    Lent row P level file frame (before ++ n :: after) (Group.around pid left (row.item n) right) outer later
      (tryBorrowRight (row.item n).2 (row.node (row.firstId after 0) n) pid
        ((innerForm level).node 0 (Group.around pid left (row.item n) right)) left.length file) := by
  cases right with
  | nil =>
    left
    unfold tryBorrowRight
    rw [length_parent_cells, List.length_nil, Nat.add_zero, if_pos (Nat.le_refl _)]
    rfl
  | cons b right' =>
    obtain ⟨r, after', rfl, rfl, hpair⟩ := h.pair_right
    have hread : readPage (((innerForm level).node 0 (Group.around pid left (row.item n)
        (row.item r :: right'))).siblingAt (left.length + 1)) file =
          .ok (row.node (row.firstId after' 0) r) file := by
      rw [siblingAt_succ]
      exact hpair.holds.readPage (by simp)
    rw [RowForm.firstId_cons]
    cases hloan : borrowRight (row.node (row.item r).2 n) (row.node (row.firstId after' 0) r) (row.item r).1 with
    | none => exact .inl (tryBorrowRight_none hread (by rw [separatorAt_around]; exact hloan))
    | some loan =>
      right
      rw [tryBorrowRight_some (by rw [length_parent_cells]; simp) hread (by rw [separatorAt_around]; exact hloan)]
      rw [siblingAt_succ, RowForm.isLeaf_node]
      exact hpair.lend (row.lent_right hunder (h.fit r (by simp)) hloan)

theorem lent_left (h : AtNode row P level file frame before n after outer pid left right later stale)
    (hunder : underfull (row.entries n) row.isLeaf = true) :
    Lent row P level file frame (before ++ n :: after) (Group.around pid left (row.item n) right) outer later
      (tryBorrowLeft (row.item n).2 (row.node (row.firstId after 0) n) pid
        ((innerForm level).node 0 (Group.around pid left (row.item n) right)) left.length file) := by
  obtain rfl | ⟨left', b, rfl⟩ := List.eq_nil_or_concat' left
  · exact .inl rfl
  · obtain ⟨l, before', rfl, rfl, hpair⟩ := h.pair_left
    have hparent : Group.around pid (left' ++ [row.item l]) (row.item n) right =
        Group.around pid left' (row.item l) (row.item n :: right) := Levels.Group.ext rfl (by simp)
    have hns : (before' ++ [l]) ++ n :: after = before' ++ l :: n :: after := by simp
    rw [hparent, hns, List.length_append, List.length_singleton]
    have hread : readPage (((innerForm level).node 0 (Group.around pid left' (row.item l)
        (row.item n :: right))).siblingAt left'.length) file = .ok (row.node (row.item n).2 l) file := by
      rw [siblingAt_around]
      exact hpair.holds.readPage (by simp)
    cases hloan : borrowLeft (row.node (row.item n).2 l) (row.node (row.firstId after 0) n) (row.item n).1 with
    | none => exact .inl (tryBorrowLeft_none hread (by rw [separatorAt_around]; exact hloan))
    | some loan =>
      right
      rw [tryBorrowLeft_some hread (by rw [separatorAt_around]; exact hloan), siblingAt_around,
        RowForm.isLeaf_node]
      exact hpair.lend (row.lent_left hunder (h.fit l (by simp)) hloan)

/-- What one turn of the loop comes to: it ends, it goes on with the parent, or a page overflows. -/
inductive Turns (row : Row N) (P : Entry → Prop) (level : Nat) (frame : Multiset (Nat × Node)) (ns : List N)
    (parent : Inner) (outer later : List Inner) (root : Nat) (path : List Nat)
    (result : EStateM.Result Stop (PageFile Node) Nat) : Prop
  | settled (ns' : List N) (parent' : Inner) (file' : PageFile Node)
      (turned : Turned row ns parent outer later ns' parent')
      (holds : Holds file' (row.pages ns' 0 + ((innerForm level).pages (outer ++ parent' :: later) 0 + frame)))
      (eq : result = .ok root file')
  | parent (ns' : List N) (parent' : Inner) (file' : PageFile Node) (orphans : Multiset (Nat × Node)) (stale : Node)
      (turned : Turned row ns parent outer later ns' parent')
      (holds : Holds file' (row.pages ns' 0 + ({(parent.id, stale)} + ((innerForm level).pages outer parent.id +
        ((innerForm level).pages later 0 + (orphans + frame))))))
      (eq : result = rebalance root path parent.id ((innerForm level).node 0 parent') file')
  | overflow (file' : PageFile Node) (mixed : ¬SameLength P) (eq : result = .error .overflow file')

variable {root : Nat} {path : List Nat}

theorem turned_refl (h : AtNode row P level file frame before n after outer pid left right later stale) :
    Turned row (before ++ n :: after) (Group.around pid left (row.item n) right) outer later
      (before ++ n :: after) (Group.around pid left (row.item n) right) := by
  refine ⟨row.keeps_refl _, h.fit, ?_, rfl, h.parent⟩
  rw [List.map_append, List.map_cons, h.left_eq, h.right_eq]
  simp

theorem stored (h : AtNode row P level file frame before n after outer pid left right later stale) :
    ∃ file', storeNode (row.item n).2 (row.node (row.firstId after 0) n) file = .ok () file' ∧
      Holds file' (row.pages (before ++ n :: after) 0 +
        ((innerForm level).pages (outer ++ Group.around pid left (row.item n) right :: later) 0 + frame)) := by
  have hholds := h.holds
  rw [add_assoc] at hholds
  obtain ⟨file', hstore, hheld⟩ := storeNode_run (x := row.firstId after 0) (h.fit n (by simp)) hholds
  refine ⟨file', hstore, ?_⟩
  rw [RowForm.pages_split, add_assoc]
  exact hheld

theorem turn (h : AtNode row P level file frame before n after outer pid left right later stale) :
    Turns row P level frame (before ++ n :: after) (Group.around pid left (row.item n) right) outer later root path
      (rebalance root (pid :: path) (row.item n).2 (row.node (row.firstId after 0) n) file) := by
  obtain ⟨stored', hstore, hstored⟩ := h.stored
  have hsettled : ∀ {result : EStateM.Result Stop (PageFile Node) Nat}, result = .ok root stored' →
      Turns row P level frame (before ++ n :: after) (Group.around pid left (row.item n) right) outer later root path
        result := fun heq => .settled _ _ stored' h.turned_refl hstored heq
  rw [rebalance, RowForm.entries_node, RowForm.isLeaf_node]
  cases hunder : underfull (row.entries n) row.isLeaf with
  | false =>
    apply hsettled
    rw [if_pos (by decide), bind_of_ok hstore]
    rfl
  | true =>
    have hparent : readPage pid file =
        .ok ((innerForm level).node 0 (Group.around pid left (row.item n) right)) file := by
      have hholds := h.holds
      rw [RowForm.pages_split] at hholds
      exact hholds.right.left.left.readPage (Multiset.mem_singleton_self _)
    have hslot : ((innerForm level).node 0 (Group.around pid left (row.item n) right)).childSlot (row.item n).2 =
        some left.length := by
      refine childSlot_around fun c hc => ?_
      have hholds := h.holds
      rw [add_assoc] at hholds
      have hmem : c ∈ before.map row.item := by
        rw [h.left_eq]
        exact List.mem_append_right _ hc
      obtain ⟨m, hm, rfl⟩ := List.mem_map.1 hmem
      obtain ⟨x, hpage⟩ := row.mem_pages hm (row.item n).2
      exact hholds.ne (Multiset.mem_add.2 (.inl (Multiset.mem_add.2 (.inl hpage))))
    rw [if_neg (by decide), bind_of_ok hparent, hslot]
    dsimp only
    rcases h.lent_right hunder with hrun | ⟨ns', parent', file', hturned, hholds, hrun⟩ | ⟨hmixed, hrun⟩
    · rw [bind_of_ok hrun, if_neg Bool.false_ne_true]
      rcases h.lent_left hunder with hrun | ⟨ns', parent', file', hturned, hholds, hrun⟩ | ⟨hmixed, hrun⟩
      · rw [bind_of_ok hrun, if_neg Bool.false_ne_true]
        cases right with
        | cons b right' =>
          obtain ⟨r, after', rfl, rfl, hpair⟩ := h.pair_right
          have hread : readPage (((innerForm level).node 0 (Group.around pid left (row.item n)
              (row.item r :: right'))).siblingAt (left.length + 1)) file =
                .ok (row.node (row.firstId after' 0) r) file := by
            rw [siblingAt_succ]
            exact hpair.holds.readPage (by simp)
          obtain ⟨m, hmerged, hitem, hkeeps⟩ := row.joined n r (row.item r).2 (row.firstId after' 0)
          rw [if_pos (by rw [length_parent_cells]; simp), bind_of_ok hread, separatorAt_around, siblingAt_succ,
            RowForm.firstId_cons, hmerged, RowForm.entries_node, eraseIdx_around]
          by_cases hfit : fits (row.entries m) row.isLeaf = true
          · obtain ⟨file₁, file₂, hstore₁, hwrite₂, hturned, hheld⟩ := hpair.merge hitem hkeeps hfit
            rw [if_pos hfit, bind_of_ok hstore₁, bind_of_ok hwrite₂]
            exact .parent _ _ file₂ {((row.item r).2, default)} _ hturned hheld rfl
          · rw [if_neg hfit]
            exact hsettled (bind_of_ok hstore)
        | nil =>
          rw [if_neg (by rw [length_parent_cells, List.length_nil]; exact Nat.lt_irrefl _)]
          obtain rfl | ⟨left', b, rfl⟩ := List.eq_nil_or_concat' left
          · -- An only child: the loop goes on with the parent as it is.
            refine .parent _ _ stored' 0 ((innerForm level).node 0 (Group.around pid [] (row.item n) []))
              h.turned_refl ?_ (bind_of_ok hstore)
            rw [(innerForm level).pages_split outer] at hstored
            rw [zero_add]
            refine hstored.of_eq ?_
            change _ + (({(pid, (innerForm level).node 0 _)} + ((innerForm level).pages outer pid + _)) + _) = _
            rw [add_assoc {_}, add_assoc ((innerForm level).pages outer pid)]
            rfl
          · obtain ⟨l, before', rfl, rfl, hpair⟩ := h.pair_left
            have hparent' : Group.around pid (left' ++ [row.item l]) (row.item n) [] =
                Group.around pid left' (row.item l) [row.item n] := Levels.Group.ext rfl (by simp)
            have hns : (before' ++ [l]) ++ n :: after = before' ++ l :: n :: after := by simp
            rw [hparent', hns] at hsettled ⊢
            have hread : readPage (((innerForm level).node 0 (Group.around pid left' (row.item l)
                [row.item n])).siblingAt left'.length) file = .ok (row.node (row.item n).2 l) file := by
              rw [siblingAt_around]
              exact hpair.holds.readPage (by simp)
            obtain ⟨m, hmerged, hitem, hkeeps⟩ := row.joined l n (row.item n).2 (row.firstId after 0)
            rw [List.length_append, List.length_singleton]
            dsimp only
            rw [bind_of_ok hread, separatorAt_around, siblingAt_around, eraseIdx_around]
            change Turns _ _ _ _ _ _ _ _ _ _ ((if fits (merged (row.node (row.item n).2 l)
              (row.node (row.firstId after 0) n) (row.item n).1).entries row.isLeaf = true then _ else _ : TreeM Nat) file)
            rw [hmerged, RowForm.entries_node]
            by_cases hfit : fits (row.entries m) row.isLeaf = true
            · obtain ⟨file₁, file₂, hstore₁, hwrite₂, hturned, hheld⟩ := hpair.merge hitem hkeeps hfit
              rw [if_pos hfit]
              change Turns _ _ _ _ _ _ _ _ _ _ ((storeNode (row.item l).2 (merged (row.node (row.item n).2 l)
                (row.node (row.firstId after 0) n) (row.item n).1) >>= fun _ => writeOrphan (row.item n).2 >>= fun _ =>
                  rebalance root path pid ((innerForm level).node 0 (Group.around pid left' (row.item l) []))
                    : TreeM Nat) file)
              rw [hmerged, bind_of_ok hstore₁, bind_of_ok hwrite₂]
              exact .parent _ _ file₂ {((row.item n).2, default)} _ hturned hheld rfl
            · rw [if_neg hfit]
              exact hsettled (bind_of_ok hstore)
      · exact .settled ns' parent' file' hturned hholds (by rw [bind_of_ok hrun]; rfl)
      · exact .overflow file hmixed (bind_of_error hrun)
    · exact .settled ns' parent' file' hturned hholds (by rw [bind_of_ok hrun]; rfl)
    · exact .overflow file hmixed (bind_of_error hrun)

end AtNode

end Turn

/-! ### Up the levels -/

section Climb

variable [PageSize] {P : Entry → Prop} {lefts rights : List (Entry × Nat)} {a : Entry × Nat}
  {levels : List (List Inner)} {root : Nat} {path : List Nat}

omit [PageSize] in
theorem fit_inner [PageSize] {level : Nat} {g : Inner} :
    (innerRow level).Fit g ↔ fits (separators g) false = true := by
  change fits ((innerForm level).entries g) false = true ↔ _
  rw [entries_innerForm]

theorem rebalance_inner (h : Spine lefts a rights levels root path) :
    ∀ {level : Nat} {file : PageFile Node} {frame : Multiset (Nat × Node)} {before after : List Inner}
      {g : Inner} {stale : Node}, before.map Group.item = lefts → g.item = a → after.map Group.item = rights →
      Holds file ({(g.id, stale)} + ((innerForm level).pages before g.id + (innerForm level).pages after 0) +
        (levelPages (level + 1) levels + frame)) →
      FitLevel (before ++ g :: after) → FitLevels levels → Keyed P (flat (before ++ g :: after)) →
      Outcome (fun root' file' => ∃ orphans, Stands level (flat (before ++ g :: after)) (orphans + frame) root' file')
        (fun stop _ => Halts P stop) (rebalance root path g.id ((innerForm level).node 0 g) file) := by
  induction h with
  | top a =>
    intro level file frame before after g stale hbefore hg hafter hholds hfit _ hkeyed
    rw [List.map_eq_nil_iff] at hbefore hafter
    subst hbefore hafter hg
    rw [levelPages_nil, zero_add, RowForm.pages_nil, RowForm.pages_nil, zero_add, add_zero] at hholds
    obtain ⟨id, children, hchildren⟩ := g
    obtain ⟨c, rest, rfl⟩ := List.exists_cons_of_ne_nil hchildren
    rw [rebalance, isLeaf_innerNode]
    cases rest with
    | nil =>
      obtain ⟨file', hwrite, hheld, -⟩ := hholds.writePage default
      rw [if_pos (by rfl)]
      change Outcome _ _ ((writePage id default >>= fun _ => pure c.2 : TreeM Nat) file)
      rw [bind_of_ok hwrite]
      refine ⟨{(id, default)}, [], ?_, fun _ hlevel => absurd hlevel List.not_mem_nil, ?_⟩
      · simpa using Stack.top c
      · rw [levelPages_nil, zero_add]
        exact hheld
    | cons d rest =>
      rw [if_neg (by simp [RowForm.node, innerForm, innerCells])]
      obtain ⟨file', hstore, hheld⟩ := @storeNode_run _ _ (innerRow level) file ⟨id, c :: d :: rest, hchildren⟩ id 0 _ _
        (fit_inner.2 (hfit _ (List.mem_singleton_self _))) hholds
      change Outcome _ _ ((storeNode id ((innerRow level).node 0 ⟨id, c :: d :: rest, hchildren⟩) >>= fun _ =>
        pure id : TreeM Nat) file)
      rw [bind_of_ok hstore]
      refine ⟨0, [[⟨id, c :: d :: rest, hchildren⟩]], .level rfl (.top (c.1, id)), ?_, ?_⟩
      · exact List.forall_mem_singleton.2 hfit
      · have hpages := levelPages_split level [] (⟨id, c :: d :: rest, hchildren⟩ : Inner) [] []
        rw [List.nil_append, RowForm.pages_nil, RowForm.pages_nil, levelPages_nil, zero_add, add_zero] at hpages
        rw [hpages, zero_add]
        exact hheld
  | @frame outer later id left right a levels root path h ih =>
    intro level file frame before after g stale hbefore hg hafter hholds hfit hfits hkeyed
    subst hg
    have hlevels := List.forall_mem_cons.1 hfits
    have hat : AtNode (innerRow level) P (level + 1) file (levelPages (level + 1 + 1) levels + frame) before g after
        outer id left right later stale := by
      refine ⟨?_, hbefore, hafter, fun m hm => fit_inner.2 (hfit m hm), ?_, fun ns hkeeps => ?_⟩
      · refine hholds.of_eq ?_
        rw [levelPages_cons, add_assoc ((innerForm (level + 1)).pages _ _)]
        rfl
      · exact hlevels.1 _ (List.mem_append_right outer List.mem_cons_self)
      · exact hkeyed.sublist (by
          rw [← show flat ns = flat (before ++ g :: after) from hkeeps]
          exact keys_sublist ns)
    have hstands : ∀ (orphans : Multiset (Nat × Node)) {ns : List Inner} {parent' : Inner} {root' : Nat}
        {file' : PageFile Node}, Turned (innerRow level) (before ++ g :: after)
          (Group.around id left g.item right) outer later ns parent' →
        Stands (level + 1) (flat (outer ++ parent' :: later))
          (orphans + ((innerForm level).pages ns 0 + frame)) root' file' →
        ∃ orphans, Stands level (flat (before ++ g :: after)) (orphans + frame) root' file' := by
      rintro orphans ns parent' root' file' hturned ⟨levels', hstack, hfit', hholds'⟩
      refine ⟨orphans, ns :: levels', .level (show flat ns = _ from hturned.keeps).symm ?_,
        List.forall_mem_cons.2 ⟨fun m hm => fit_inner.1 (hturned.fit m hm), hfit'⟩, ?_⟩
      · rw [show ns.map Group.item = _ from hturned.items]
        exact hstack
      · rw [levelPages_cons]
        exact hholds'.of_eq (by abel)
    have hspine : ∀ {parent' : Inner}, parent'.item = (Group.around id left g.item right).item →
        Stack ((outer ++ parent' :: later).map Group.item) levels root := by
      intro parent' hitem
      rw [List.map_append, List.map_cons, hitem]
      exact h.stack
    have hreplace : ∀ {parent' : Inner}, fits (separators parent') false = true →
        FitLevel (outer ++ parent' :: later) := by
      intro parent' hparent
      rw [List.append_cons]
      exact forall_replace hlevels.1 (List.forall_mem_singleton.2 hparent)
    have hturn : AtNode.Turns (innerRow level) P (level + 1) (levelPages (level + 1 + 1) levels + frame)
        (before ++ g :: after) (Group.around id left g.item right) outer later root path
        (rebalance root (id :: path) g.id ((innerForm level).node 0 g) file) := hat.turn
    cases hturn with
    | settled ns parent' file' hturned hheld heq =>
      rw [heq]
      refine hstands 0 hturned ⟨(outer ++ parent' :: later) :: levels,
        .level rfl (hspine hturned.item_eq), List.forall_mem_cons.2 ⟨hreplace hturned.parent, hlevels.2⟩, ?_⟩
      refine hheld.of_eq ?_
      rw [levelPages_cons, zero_add]
      change (innerForm level).pages ns 0 + _ = _
      abel
    | parent ns parent' file' orphans stale' hturned hheld heq =>
      rw [heq]
      have hid : parent'.id = id := congrArg Prod.snd hturned.item_eq
      have hup : Outcome (fun root' file' => ∃ more, Stands (level + 1) (flat (outer ++ parent' :: later))
          (more + (orphans + ((innerForm level).pages ns 0 + frame))) root' file') (fun stop _ => Halts P stop)
          (rebalance root path parent'.id ((innerForm (level + 1)).node 0 parent') file') := by
        refine @ih (level + 1) file' _ outer later parent' stale' rfl hturned.item_eq rfl ?_
          (hreplace hturned.parent) hlevels.2 ?_
        · rw [hid]
          refine hheld.of_eq ?_
          change (innerForm level).pages ns 0 + ({(id, stale')} + ((innerForm (level + 1)).pages outer id + _)) = _
          abel
        · rw [← hturned.items]
          exact hat.keyed ns hturned.keeps
      rw [hid] at hup
      refine hup.mono ?_ fun _ _ h => h
      rintro root' file'' ⟨more, hstand⟩
      rw [← add_assoc] at hstand
      obtain ⟨all, hall⟩ := hstands (more + orphans) hturned hstand
      exact ⟨all, hall⟩
    | overflow file' hmixed heq =>
      rw [heq]
      exact .inr ⟨rfl, hmixed⟩

end Climb

/-! ### From the leaf -/

section Leaves

variable [PageSize] {P : Entry → Prop} {file : PageFile Node} {root : Nat} {leaves before after : List Leaf}
  {leaf : Leaf} {levels : List (List Inner)} {frame : Multiset (Nat × Node)} {target : Entry}
  {first second : List Entry} {path : List Nat}

omit [PageSize] in
theorem Keys.same {leaves' : List Leaf} (h : Keys P leaves) (hsame : SameContents leaves leaves') :
    Keys P leaves' := by
  refine ⟨by rw [hsame.contents]; exact h.entries, fun l hl => ?_⟩
  obtain ⟨m, hm, hlow⟩ := @SameContents.keys _ _ hsame (l.low, false)
    (List.mem_flatMap.2 ⟨l, hl, List.mem_cons_self⟩)
  obtain ⟨l', hl', hm⟩ := List.mem_flatMap.1 hm
  dsimp only at hlow
  rw [← hlow]
  rcases List.mem_cons.1 hm with rfl | hm
  · exact h.lows l' hl'
  · obtain ⟨e, he, rfl⟩ := List.mem_map.1 hm
    exact .inr (h.entries e (List.mem_flatMap.2 ⟨l', hl', he⟩))

omit [PageSize] in
theorem SameContents.inOrder_all {leaves' : List Leaf} (hsame : SameContents leaves leaves') (h : InOrder leaves) :
    InOrder leaves' := by
  have hin := @SameContents.inOrder _ _ hsame [] []
  rw [List.nil_append, List.append_nil, List.nil_append, List.append_nil] at hin
  exact hin h

omit [PageSize] in
theorem InOrder.without (h : InOrder (before ++ leaf :: after)) {entries : List Entry}
    (hsub : entries.Sublist leaf.entries) : InOrder (before ++ leaf.with entries :: after) := by
  refine List.Pairwise.sublist ?_ h
  rw [walk_append, walk_append, walk_cons, walk_cons]
  exact (List.Sublist.refl _).append (((hsub.map _).cons_cons _).append (List.Sublist.refl _))

theorem rebalance_leaf (hP : ∀ e, P e → Accepted e) {stale : Node}
    (hholds : Holds file ({(leaf.id, stale)} + (leafForm.pages before leaf.id + leafForm.pages after 0) +
      (levelPages 1 levels + frame)))
    (hspine : Spine (before.map Leaf.item) leaf.item (after.map Leaf.item) levels root path)
    (hin : InOrder (before ++ leaf :: after))
    (hstart : (before ++ leaf :: after).head?.map Leaf.low = some ([], 0))
    (hfit : ∀ l ∈ before ++ leaf :: after, leafForm.Fit l) (hfits : FitLevels levels)
    (hkeys : Keys P (before ++ leaf :: after)) :
    Outcome (Holding P frame (contents (before ++ leaf :: after))) (fun stop _ => Halts P stop)
      (rebalance root path leaf.id (leafForm.node (leafForm.firstId after 0) leaf) file) := by
  have hdone : ∀ (orphans : Multiset (Nat × Node)) {ns : List Leaf} {root' : Nat} {file' : PageFile Node},
      SameContents (before ++ leaf :: after) ns → (∀ l ∈ ns, leafForm.Fit l) →
      Stands 1 (ns.map Leaf.item) (leafForm.pages ns 0 + (orphans + frame)) root' file' →
      Holding P frame (contents (before ++ leaf :: after)) root' file' := by
    rintro orphans ns root' file' hsame hfit' ⟨levels', hstack, hfits', hholds'⟩
    refine ⟨ns, levels', orphans, ⟨hholds'.of_eq (by abel), hstack, hsame.inOrder_all hin,
      hsame.start.trans hstart, hfit', hfits', (hkeys.same hsame).accepted hP⟩, hsame.contents, hkeys.same hsame⟩
  generalize hlefts : before.map Leaf.item = lefts at hspine
  generalize hrights : after.map Leaf.item = rights at hspine
  generalize hitem : leaf.item = a at hspine
  cases hspine with
  | top a =>
    rw [List.map_eq_nil_iff] at hlefts hrights
    subst hlefts hrights hitem
    rw [RowForm.pages_nil, RowForm.pages_nil, zero_add, add_zero, levelPages_nil, zero_add] at hholds
    obtain ⟨file', hstore, hheld⟩ := @storeNode_run _ _ leafRow file leaf leaf.id 0 _ _
      (hfit leaf (List.mem_singleton_self leaf)) hholds
    rw [rebalance, isLeaf_leafNode]
    change Outcome _ _ ((storeNode leaf.id (leafRow.node 0 leaf) >>= fun _ => pure leaf.id : TreeM Nat) file)
    rw [bind_of_ok hstore]
    refine hdone 0 (SameContents.refl _) hfit ⟨[], .top leaf.item, fun _ hlevel => absurd hlevel List.not_mem_nil, ?_⟩
    refine hheld.of_eq ?_
    rw [levelPages_nil, zero_add, zero_add, List.nil_append, RowForm.pages_cons, RowForm.pages_nil, add_zero]
    rfl
  | @frame outer later id left right _ levels _ path h =>
    subst hitem
    have hlevels := List.forall_mem_cons.1 hfits
    have hat : AtNode leafRow P 1 file (levelPages 2 levels + frame) before leaf after outer id left right later
        stale := by
      refine ⟨?_, hlefts, hrights, hfit, ?_, fun ns hkeeps => ?_⟩
      · refine hholds.of_eq ?_
        rw [levelPages_cons, add_assoc ((innerForm 1).pages _ _)]
        rfl
      · exact hlevels.1 _ (List.mem_append_right outer List.mem_cons_self)
      · exact (hkeys.same hkeeps).keyed (SameContents.inOrder_all hkeeps hin)
    have hreplace : ∀ {parent' : Inner}, fits (separators parent') false = true →
        FitLevel (outer ++ parent' :: later) := by
      intro parent' hparent
      rw [List.append_cons]
      exact forall_replace hlevels.1 (List.forall_mem_singleton.2 hparent)
    have hturn : AtNode.Turns leafRow P 1 (levelPages 2 levels + frame) (before ++ leaf :: after)
        (Group.around id left leaf.item right) outer later root path
        (rebalance root (id :: path) leaf.id (leafForm.node (leafForm.firstId after 0) leaf) file) := hat.turn
    cases hturn with
    | settled ns parent' file' hturned hheld heq =>
      rw [heq]
      have hstack : Stack ((outer ++ parent' :: later).map Group.item) levels root := by
        rw [List.map_append, List.map_cons, hturned.item_eq]
        exact h.stack
      refine hdone 0 hturned.keeps hturned.fit ⟨(outer ++ parent' :: later) :: levels,
        .level hturned.items hstack, List.forall_mem_cons.2 ⟨hreplace hturned.parent, hlevels.2⟩, ?_⟩
      refine hheld.of_eq ?_
      rw [levelPages_cons, zero_add]
      change leafForm.pages ns 0 + _ = _
      abel
    | parent ns parent' file' orphans stale' hturned hheld heq =>
      rw [heq]
      have hid : parent'.id = id := congrArg Prod.snd hturned.item_eq
      have hup : Outcome (fun root' file' => ∃ more, Stands 1 (flat (outer ++ parent' :: later))
          (more + (orphans + (leafForm.pages ns 0 + frame))) root' file') (fun stop _ => Halts P stop)
          (rebalance root path parent'.id ((innerForm 1).node 0 parent') file') := by
        refine @rebalance_inner _ P _ _ _ _ _ _ h 1 file' _ outer later parent' stale' rfl hturned.item_eq rfl ?_
          (hreplace hturned.parent) hlevels.2 ?_
        · rw [hid]
          refine hheld.of_eq ?_
          change leafForm.pages ns 0 + ({(id, stale')} + ((innerForm 1).pages outer id + _)) = _
          abel
        · rw [← hturned.items]
          exact hat.keyed ns hturned.keeps
      rw [hid] at hup
      refine hup.mono ?_ fun _ _ h => h
      rintro root' file'' ⟨more, hstand⟩
      refine hdone (more + orphans) hturned.keeps hturned.fit ?_
      rw [show ns.map Leaf.item = _ from hturned.items]
      convert hstand using 1
      abel
    | overflow file' hmixed heq =>
      rw [heq]
      exact .inr ⟨rfl, hmixed⟩

omit [PageSize] in
theorem leafCells_eraseIdx (first second : List Entry) (e : Entry) :
    (leafCells (first ++ e :: second)).eraseIdx first.length = leafCells (first ++ second) := by
  rw [leafCells_append, ← length_leafCells first, List.eraseIdx_append_of_length_le (Nat.le_refl _), Nat.sub_self,
    leafCells_append]
  rfl

theorem remove_holding (hP : ∀ e, P e → Accepted e) {set : KeySet} {key : Bytes} {objectId : Nat}
    (h : Holding P frame set.entries root file) :
    Outcome (fun root' file' => ∃ set', set.remove key objectId = .ok set' ∧
        Holding P frame set'.entries root' file')
      (fun stop file' => Halts P stop ∨
        ∃ error, set.remove key objectId = .error error ∧ stop = .error error ∧ file' = file)
      (remove root key objectId file) := by
  obtain ⟨leaves, levels, orphans, hrep, hcontents, hkeys⟩ := h
  obtain ⟨before, leaf, after, first, second, hplace⟩ := hrep.place (key, objectId)
  obtain ⟨path, hspine, hdown⟩ := hrep.descend hplace
  obtain ⟨node, hread, -, hlink, hcells, hindex, hnext⟩ := hrep.leaf_page hplace
  have hmem := hplace.mem_iff hrep.inOrder
  rw [hcontents] at hmem
  have hcount : nodeCount file = .ok file.pageCount file := rfl
  unfold remove
  rw [bind_of_ok hcount, bind_of_ok hdown]
  dsimp only
  rw [bind_of_ok hread, hindex, hnext]
  by_cases hhead : second.head? = some (key, objectId)
  · obtain ⟨second, rfl⟩ : ∃ rest, second = (key, objectId) :: rest := List.head?_eq_some_iff.1 hhead
    rw [if_pos hhead, hcells, hlink, leafCells_eraseIdx]
    have hin := hrep.inOrder
    have hstart := hrep.start
    have hfit := hrep.fitLeaves
    have hlows := hkeys.lows
    have hholds := hrep.holds
    rw [hplace.leaves_eq] at hin hstart hfit hlows hholds
    have hsub : (first ++ second).Sublist leaf.entries := by
      rw [hplace.entries_eq]
      exact (List.Sublist.refl first).append (List.sublist_cons_self _ _)
    obtain ⟨leaf', hleaf⟩ : ∃ leaf', leaf' = leaf.with (first ++ second) := ⟨_, rfl⟩
    have hcontents' : contents (before ++ leaf' :: after) =
        (contents before ++ first) ++ (second ++ contents after) := by
      rw [hleaf]
      simp [Leaf.with]
    have hsubset : ∀ e ∈ contents (before ++ leaf' :: after), e ∈ contents leaves := by
      intro e he
      rw [hcontents'] at he
      rw [hplace.contents_eq]
      simp only [List.mem_append, List.mem_cons] at he ⊢
      tauto
    have hin' : InOrder (before ++ leaf' :: after) := by
      rw [hleaf]
      exact hin.without hsub
    have hkeys' : Keys P (before ++ leaf' :: after) := by
      refine ⟨fun e he => hkeys.entries e (hsubset e he), ?_⟩
      rw [List.append_cons, hleaf]
      exact forall_replace hlows (List.forall_mem_singleton.2 (hlows leaf (by simp)))
    have hfit' : ∀ l ∈ before ++ leaf' :: after, leafForm.Fit l := by
      rw [List.append_cons, hleaf]
      refine forall_replace hfit (List.forall_mem_singleton.2 ?_)
      have hold := hfit leaf (by simp)
      rw [RowForm.Fit, entries_leafForm] at hold ⊢
      exact fits_of_sublist hsub hold
    have hspine' : Spine (before.map Leaf.item) leaf'.item (after.map Leaf.item) levels root path := by
      rw [hleaf]
      exact hspine
    have hnode : (⟨.leaf, 0, leafForm.firstId after 0, leafCells (first ++ second)⟩ : Node) =
        leafForm.node (leafForm.firstId after 0) leaf' := by
      rw [hleaf]
      rfl
    have hid : leaf'.id = leaf.id := by
      rw [hleaf]
      rfl
    rw [hnode, ← hid]
    have hrun := @rebalance_leaf _ P file root before after leaf' levels (orphans + frame) path hP
      (leafForm.node (leafForm.firstId after 0) leaf) (by
        rw [hid]
        refine hholds.of_eq ?_
        rw [RowForm.pages_split, add_assoc]
        rfl) hspine' hin' (by rw [hleaf]; exact @head?_low leaf _ _ before after after rfl hstart) hfit' hrep.fitLevels hkeys'
    refine hrun.mono ?_ fun _ _ h => .inl h
    rintro root' file' ⟨leaves', levels', orphans', hrep', hcontents'', hkeys''⟩
    refine ⟨⟨set.entries.erase (key, objectId), set.sorted.sublist List.erase_sublist⟩, if_pos (hmem.2 rfl), ?_⟩
    refine ⟨leaves', levels', orphans' + orphans, by rwa [add_assoc],
      hrep'.inOrder.sorted.ext (set.sorted.sublist List.erase_sublist) fun e => ?_, hkeys''⟩
    have hsorted := hrep.inOrder.sorted.nodup
    rw [set.sorted.nodup.mem_erase_iff, ← hcontents, hcontents'', hcontents']
    rw [hplace.contents_eq] at hsorted ⊢
    rw [List.cons_append, List.nodup_middle, List.nodup_cons] at hsorted
    constructor
    · intro he
      refine ⟨fun heq => hsorted.1 (heq ▸ he), ?_⟩
      simp only [List.mem_append, List.mem_cons] at he ⊢
      tauto
    · rintro ⟨hne, he⟩
      simp only [List.mem_append, List.mem_cons] at he ⊢
      tauto
  · rw [if_neg hhead]
    exact .inr ⟨_, if_neg fun hin => hhead (hmem.1 hin), rfl, rfl⟩

end Leaves

end MoDb.Index
