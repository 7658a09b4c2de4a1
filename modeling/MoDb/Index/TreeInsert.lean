import MoDb.Index.TreeSearch

/-!
# Insertion

The entry goes to the leaf whose part it is in. A node that is too full is cut in two, and the cut
sends a separator up along the spine, at most to a new root.
-/

namespace MoDb.Index

open Storage Effect Levels

/-! ### Keys of a level -/

/-- The keys of a level: in order, and all but the least one as `P` says. -/
structure Keyed (P : Entry → Prop) (items : List (Entry × Nat)) : Prop where
  sorted : (items.map Prod.fst).Pairwise fun a b => entryLess a b = true
  allowed : ∀ e ∈ items.map Prod.fst, e = ([], 0) ∨ P e

def SameLength (P : Entry → Prop) : Prop := ∀ e e' : Entry, P e → P e' → e.1.length = e'.1.length

/-- Why a call on a tree that is whole may stop: keys of mixed lengths may overflow a node. -/
def Halts (P : Entry → Prop) (stop : Stop) : Prop :=
  stop = fileFull ∨ stop = .overflow ∧ ¬SameLength P

namespace Keyed

variable {P : Entry → Prop} {items items' left right : List (Entry × Nat)} {a c : Entry × Nat}

theorem sublist (h : Keyed P items) (hsub : (items'.map Prod.fst).Sublist (items.map Prod.fst)) :
    Keyed P items' :=
  ⟨h.sorted.sublist hsub, fun e he => h.allowed e (hsub.subset he)⟩

theorem less_right (h : Keyed P (left ++ a :: right)) (hc : c ∈ right) : entryLess a.1 c.1 = true := by
  have hsorted := h.sorted
  rw [List.map_append, List.map_cons] at hsorted
  exact (List.pairwise_cons.1 (List.pairwise_append.1 hsorted).2.1).1 _ (List.mem_map_of_mem hc)

theorem less_left (h : Keyed P (left ++ a :: right)) (hc : c ∈ left) : entryLess c.1 a.1 = true := by
  have hsorted := h.sorted
  rw [List.map_append] at hsorted
  exact (List.pairwise_append.1 hsorted).2.2 _ (List.mem_map_of_mem hc) _ (by simp)

theorem allowed_right (h : Keyed P (left ++ a :: right)) (hc : c ∈ right) : P c.1 := by
  refine (h.allowed c.1 (List.mem_map_of_mem (by simp [hc]))).resolve_left fun heq => ?_
  have hless := h.less_right hc
  rw [heq, not_less_least] at hless
  exact absurd hless Bool.false_ne_true

end Keyed

def FitLevel [PageSize] (level : List Inner) : Prop :=
  ∀ inner ∈ level, fits (separators inner) false = true

def FitLevels [PageSize] (levels : List (List Inner)) : Prop := ∀ level ∈ levels, FitLevel level

theorem forall_replace {N : Type} {Q : N → Prop} {before after new : List N} {n : N}
    (h : ∀ m ∈ before ++ n :: after, Q m) (hnew : ∀ m ∈ new, Q m) :
    ∀ m ∈ before ++ new ++ after, Q m := by
  intro m hm
  rw [List.mem_append, List.mem_append] at hm
  rcases hm with (hm | hm) | hm
  · exact h m (by simp [hm])
  · exact hnew m hm
  · exact h m (by simp [hm])

/-! ### Pages of neighbours -/

theorem RowForm.pages_split {N : Type} (row : RowForm N) (before : List N) (n : N) (after : List N)
    (next : Nat) : row.pages (before ++ n :: after) next =
      {((row.item n).2, row.node (row.firstId after next) n)} +
        (row.pages before (row.item n).2 + row.pages after next) := by
  rw [row.pages_append, row.firstId_cons, row.pages_cons, add_left_comm]

theorem levelPages_split (level : Nat) (before : List Inner) (inner : Inner) (after : List Inner)
    (levels : List (List Inner)) : levelPages level ((before ++ inner :: after) :: levels) =
      {(inner.id, (innerForm level).node 0 inner)} +
        ((innerForm level).pages before inner.id +
          ((innerForm level).pages after 0 + levelPages (level + 1) levels)) := by
  rw [levelPages_cons, RowForm.pages_split, add_assoc, add_assoc]
  rfl

section Cells

variable {left right : List (Entry × Nat)} {a s : Entry × Nat}

theorem innerCells_around (left right : List (Entry × Nat)) (a : Entry × Nat) :
    innerCells (left ++ a :: right) = innerCells (left ++ [a]) ++ right.map fun child =>
      Cell.ofEntry child.1 child.2 := by
  rw [List.append_cons, innerCells_append (List.append_ne_nil_of_right_ne_nil left (List.cons_ne_nil a []))]

theorem length_innerCells_snoc (left : List (Entry × Nat)) (a : Entry × Nat) :
    (innerCells (left ++ [a])).length = left.length := by
  simp [innerCells]

theorem insertIdx_innerCells (left right : List (Entry × Nat)) (a s : Entry × Nat) :
    (innerCells (left ++ a :: right)).insertIdx left.length (Cell.ofEntry s.1 s.2) =
      innerCells (left ++ a :: s :: right) := by
  rw [innerCells_around left right, innerCells_around left (s :: right), ← length_innerCells_snoc left a,
    Bisect.insertIdx_append, List.map_cons]

variable (c cut : Entry × Nat) (kept moved : List (Entry × Nat))

theorem getElem?_innerCells : (innerCells (c :: (kept ++ cut :: moved)))[kept.length]? =
    some (Cell.ofEntry cut.1 cut.2) := by
  simp [innerCells]

theorem take_innerCells :
    (innerCells (c :: (kept ++ cut :: moved))).take kept.length = innerCells (c :: kept) := by
  rw [innerCells, List.tail_cons, List.map_append]
  exact List.take_left' (List.length_map _)

theorem drop_innerCells :
    (innerCells (c :: (kept ++ cut :: moved))).drop (kept.length + 1) = innerCells (cut :: moved) := by
  rw [innerCells, List.tail_cons, List.append_cons, List.map_append]
  exact List.drop_left' (by simp)

end Cells

section Cut

variable [PageSize] {P : Entry → Prop}

theorem splitPoint_children {rest : List (Entry × Nat)} (haccepted : ∀ c ∈ rest, Accepted c.1)
    (hfull : fits (rest.map Prod.fst) false = false) :
    ∃ kept cut moved, rest = kept ++ cut :: moved ∧
      splitPoint (rest.map Prod.fst) false = kept.length ∧ fits (kept.map Prod.fst) false = true := by
  have hentries : ∀ e ∈ rest.map Prod.fst, Accepted e := by
    intro e he
    obtain ⟨c, hc, rfl⟩ := List.mem_map.1 he
    exact haccepted c hc
  obtain ⟨first, entry, second, heq, -, hpoint, hbytes, -⟩ := splitPoint_eq hentries hfull
  obtain ⟨kept, others, rfl, rfl, hothers⟩ := List.map_eq_append_iff.1 heq
  obtain ⟨cut, moved, rfl, rfl, rfl⟩ := List.map_eq_cons_iff.1 hothers
  refine ⟨kept, cut, moved, rfl, ?_, fits_iff.2 (hbytes.trans (Nat.div_le_self _ _))⟩
  rw [hpoint, List.length_map]

theorem fits_of_length (hsame : SameLength P) {moved old : List Entry} {leaf : Bool}
    (hmoved : ∀ e ∈ moved, P e) (hold : ∀ e ∈ old, P e) (hlength : moved.length ≤ old.length)
    (hfits : fits old leaf = true) : fits moved leaf = true :=
  fits_iff.2 ((totalBytes_le_of_length leaf (fun e he e' he' => hsame e e' (hmoved e he) (hold e' he'))
    hlength).trans (fits_iff.1 hfits))

theorem writeNode_of_fits {leaf : Bool} {level link : Nat} {cells : List Cell} {file : PageFile Node}
    (h : fits (cells.map Cell.entry) leaf = true) :
    writeNode leaf level link cells file =
      .ok ⟨if leaf then .leaf else .internal, level, link, cells⟩ file := by
  rw [writeNode, if_pos h]
  rfl

theorem writeNode_overflow {leaf : Bool} {level link : Nat} {cells : List Cell} {file : PageFile Node}
    (h : ¬fits (cells.map Cell.entry) leaf = true) :
    writeNode leaf level link cells file = .error .overflow file := by
  rw [writeNode, if_neg h]
  rfl

end Cut

/-! ### Up the spine -/

section Propagate

variable [PageSize] {P : Entry → Prop} {lefts rights : List (Entry × Nat)} {a : Entry × Nat}
  {levels : List (List Inner)} {root : Nat} {path : List Nat}

def Stands (level : Nat) (items : List (Entry × Nat)) (frame : Multiset (Nat × Node)) (root : Nat)
    (file : PageFile Node) : Prop :=
  ∃ levels, Stack items levels root ∧ FitLevels levels ∧ Holds file (levelPages level levels + frame)

omit [PageSize] in
theorem allocate_halts {file : PageFile Node} {pages : Multiset (Nat × Node)}
    (hholds : Holds file pages) (hpos : 0 < file.pageCount) :
    Outcome (fun id file' => ∃ node, Holds file' ({(id, node)} + pages)) (fun stop _ => Halts P stop)
      (allocatePage file) :=
  (hholds.allocatePage hpos).mono (fun _ _ h => h) fun _ _ h => .inl h

theorem propagate_top (hP : ∀ e, P e → Accepted e) {level : Nat} {file : PageFile Node}
    {frame : Multiset (Nat × Node)} {s : Entry × Nat} {childLevel : Nat}
    (hholds : Holds file frame) (hpos : 0 < file.pageCount) (hkeyed : Keyed P [a, s])
    (hlevel : (childLevel + 1) % 2 ^ 16 = level % 2 ^ 16) :
    Outcome (Stands level [a, s] frame) (fun stop _ => Halts P stop)
      (propagate a.2 [] (Cell.ofEntry s.1 s.2) a.2 childLevel file) := by
  have haccepted : Accepted s.1 :=
    hP s.1 (@Keyed.allowed_right P [] [s] a s hkeyed (List.mem_singleton_self s))
  have hfits : fits ([Cell.ofEntry s.1 s.2].map Cell.entry) false = true := by
    rw [fits_iff]
    exact (haccepted.bytes_le false).trans (Nat.div_le_self _ _)
  rw [propagate]
  refine (allocate_halts hholds hpos).bind ?_
  rintro newRoot file' ⟨blank, hheld⟩
  obtain ⟨file'', hwrite, hwritten, -⟩ := hheld.writePage
    ((innerForm level).node 0 (Group.around newRoot [] a [s]))
  rw [bind_of_ok (writeNode_of_fits hfits), hlevel]
  rw [show (⟨if false = true then .leaf else .internal, level % 2 ^ 16, a.2, [Cell.ofEntry s.1 s.2]⟩ : Node) =
    (innerForm level).node 0 (Group.around newRoot [] a [s]) from rfl, bind_of_ok hwrite]
  refine ⟨[[Group.around newRoot [] a [s]]], .level (by simp) (.top (a.1, newRoot)), ?_, ?_⟩
  · intro groups hgroups inner hinner
    rw [List.mem_singleton.1 hgroups] at hinner
    rw [List.mem_singleton.1 hinner]
    exact hfits
  · have hpages := levelPages_split level [] (Group.around newRoot [] a [s]) [] []
    rw [List.nil_append, RowForm.pages_nil, RowForm.pages_nil, levelPages_nil, zero_add, add_zero] at hpages
    rw [hpages]
    exact hwritten

theorem propagate_spine (hP : ∀ e, P e → Accepted e) (h : Spine lefts a rights levels root path) :
    ∀ {level : Nat} {file : PageFile Node} {frame : Multiset (Nat × Node)} {s : Entry × Nat}
      {childLevel : Nat}, Holds file (levelPages level levels + frame) → 0 < file.pageCount →
      Keyed P (lefts ++ a :: s :: rights) → FitLevels levels →
      (childLevel + 1) % 2 ^ 16 = level % 2 ^ 16 →
      Outcome (Stands level (lefts ++ a :: s :: rights) frame) (fun stop _ => Halts P stop)
        (propagate root path (Cell.ofEntry s.1 s.2) a.2 childLevel file) := by
  induction h with
  | top a =>
    intro level file frame s childLevel hholds hpos hkeyed hfit hlevel
    rw [levelPages_nil, zero_add] at hholds
    exact propagate_top hP hholds hpos hkeyed hlevel
  | @frame before after id left right a levels root path h ih =>
    intro level file frame s childLevel hholds hpos hkeyed hfit hlevel
    have hkeys : ∀ c ∈ left ++ [a], entryLess c.1 s.1 = true := by
      intro c hc
      rw [List.append_cons] at hkeyed
      exact hkeyed.less_left (by simpa [or_assoc] using Or.inr (by simpa using hc))
    have hafter : ∀ c ∈ right, entryLess c.1 s.1 = false := by
      intro c hc
      rw [List.append_cons] at hkeyed
      exact entryLess_asymm (hkeyed.less_right (List.mem_append_left _ hc))
    have hread : readPage id file =
        .ok ((innerForm level).node 0 (Group.around id left a right)) file := by
      rw [levelPages_split, add_assoc] at hholds
      exact hholds.readPage (by simp)
    have hindex : ((innerForm level).node 0 (Group.around id left a right)).lowerBoundIndex s.1 =
        left.length := @search_innerCells left right a (fun e => entryLess e s.1) hkeys hafter
    have hcells : ((innerForm level).node 0 (Group.around id left a right)).cells.insertIdx left.length
        (Cell.ofEntry s.1 s.2) = innerCells (left ++ a :: s :: right) := insertIdx_innerCells left right a s
    rw [propagate, bind_of_ok hread]
    dsimp only
    rw [entry_ofEntry, hindex, hcells, entries_innerCells]
    rw [levelPages_split, add_assoc, Group.id_around] at hholds
    obtain ⟨hlevel', hup⟩ := List.forall_mem_cons.1 hfit
    by_cases hfits : fits ((left ++ a :: s :: right).tail.map Prod.fst) false = true
    · have hnode : (⟨.internal, level % 2 ^ 16, ((innerForm level).node 0 (Group.around id left a right)).link,
          innerCells (left ++ a :: s :: right)⟩ : Node) =
          (innerForm level).node 0 (Group.around id left a (s :: right)) := by
        cases left <;> rfl
      obtain ⟨file', hwrite, hwritten, -⟩ := hholds.writePage
        ((innerForm level).node 0 (Group.around id left a (s :: right)))
      rw [if_pos hfits, bind_of_ok (writeNode_of_fits (by rwa [entries_innerCells]))]
      rw [if_neg Bool.false_ne_true]
      change Outcome _ _ ((writePage id (⟨.internal, level % 2 ^ 16, _, _⟩ : Node) >>= _) file)
      rw [hnode, bind_of_ok hwrite]
      have hspine : Spine (before.map Group.item) (Group.around id left a (s :: right)).item
          (after.map Group.item) levels root path := by
        rwa [@Group.item_around_congr _ _ _ _ right a (s :: right) a fun _ => rfl]
      refine ⟨_, (Spine.frame hspine).stack, ?_, ?_⟩
      · refine List.forall_mem_cons.2 ⟨?_, hup⟩
        rw [List.append_cons]
        refine forall_replace hlevel' fun inner hinner => ?_
        rw [List.mem_singleton.1 hinner]
        exact hfits
      · rw [levelPages_split, add_assoc]
        exact hwritten
    · obtain ⟨c, rest, hchildren⟩ : ∃ c rest, left ++ a :: s :: right = c :: rest :=
        List.exists_cons_of_ne_nil (List.append_ne_nil_of_right_ne_nil left (List.cons_ne_nil _ _))
      have hlink : ((innerForm level).node 0 (Group.around id left a right)).link = c.2 := by
        cases left <;> cases hchildren <;> rfl
      have hitem : (Group.around id left a right).item = (c.1, id) := by
        cases left <;> cases hchildren <;> rfl
      have hflat : (flat before ++ left) ++ a :: s :: (right ++ flat after) =
          flat before ++ c :: (rest ++ flat after) := by
        calc (flat before ++ left) ++ a :: s :: (right ++ flat after)
            = flat before ++ ((left ++ a :: s :: right) ++ flat after) := by simp
          _ = flat before ++ c :: (rest ++ flat after) := by rw [hchildren, List.cons_append]
      rw [hflat] at hkeyed ⊢
      have hrest : ∀ c' ∈ rest, P c'.1 := fun c' hc' => hkeyed.allowed_right (List.mem_append_left _ hc')
      rw [hchildren] at hfits ⊢
      rw [List.tail_cons] at hfits ⊢
      obtain ⟨kept, cut, moved, rfl, hpoint, hkept⟩ := splitPoint_children (fun c' hc' => hP _ (hrest c' hc'))
        (Bool.not_eq_true _ ▸ hfits)
      rw [if_neg hfits, hpoint, hlink, getElem?_innerCells, take_innerCells, drop_innerCells,
        Option.getD_some]
      refine (allocate_halts hholds hpos).bind ?_
      rintro rightId file' ⟨blank, hheld⟩
      rw [bind_of_ok (writeNode_of_fits (by rwa [entries_innerCells]))]
      by_cases hmoved : fits (moved.map Prod.fst) false = true
      · rw [bind_of_ok (writeNode_of_fits (by rwa [entries_innerCells]))]
        rw [add_left_comm] at hheld
        obtain ⟨file₁, hwrite₁, hheld₁, hcount₁⟩ := hheld.writePage
          ((innerForm level).node 0 ⟨id, c :: kept, List.cons_ne_nil _ _⟩)
        rw [add_left_comm] at hheld₁
        obtain ⟨file₂, hwrite₂, hheld₂, hcount₂⟩ := hheld₁.writePage
          ((innerForm level).node 0 ⟨rightId, cut :: moved, List.cons_ne_nil _ _⟩)
        have hpos₂ : 0 < file₂.pageCount :=
          Nat.zero_lt_of_lt (hheld₂.lt_pageCount (Multiset.mem_add.2 (.inl (Multiset.mem_singleton_self _))))
        change Outcome _ _ ((writePage id ((innerForm level).node 0 ⟨id, c :: kept, List.cons_ne_nil _ _⟩) >>=
          fun _ => writePage rightId ((innerForm level).node 0 ⟨rightId, cut :: moved, List.cons_ne_nil _ _⟩) >>=
            fun _ => _) file')
        rw [bind_of_ok hwrite₁, bind_of_ok hwrite₂]
        obtain ⟨groups, hgroups⟩ : ∃ groups : List Inner, groups = before ++
            ⟨id, c :: kept, List.cons_ne_nil _ _⟩ :: ⟨rightId, cut :: moved, List.cons_ne_nil _ _⟩ :: after :=
          ⟨_, rfl⟩
        have hitems : groups.map Group.item = before.map Group.item ++
            (Group.around id left a right).item :: (cut.1, rightId) :: after.map Group.item := by
          rw [hgroups, hitem]
          simp [Group.item]
        have hflat : flat groups = flat before ++ c :: (kept ++ cut :: moved ++ flat after) := by
          rw [hgroups]
          simp
        have hpages : levelPages (level + 1) levels + ((innerForm level).pages groups 0 + frame) =
            {(rightId, (innerForm level).node 0 ⟨rightId, cut :: moved, List.cons_ne_nil _ _⟩)} +
              ({(id, (innerForm level).node 0 ⟨id, c :: kept, List.cons_ne_nil _ _⟩)} +
                ((innerForm level).pages before id +
                  ((innerForm level).pages after 0 + levelPages (level + 1) levels) + frame)) := by
          rw [hgroups, RowForm.pages_split, RowForm.pages_cons]
          change _ + (({(id, (innerForm level).node 0 _)} + ((innerForm level).pages before id +
            ({(rightId, (innerForm level).node 0 _)} + _))) + _) = _
          abel
        have hdone := @ih (level + 1) file₂ ((innerForm level).pages groups 0 + frame) (cut.1, rightId)
          (level % 2 ^ 16) (by rwa [hpages]) hpos₂
          (by rw [← hitems]; exact hkeyed.sublist (by rw [← hflat]; exact keys_sublist groups))
          hup (Nat.mod_add_mod level _ 1)
        refine hdone.mono ?_ fun _ _ h => h
        rintro root' file' ⟨levels', hstack, hfit', hholds'⟩
        rw [← hitems] at hstack
        refine ⟨groups :: levels', .level hflat.symm hstack, List.forall_mem_cons.2 ⟨?_, hfit'⟩, ?_⟩
        · rw [hgroups, List.append_cons, List.append_cons, List.append_assoc before]
          exact forall_replace hlevel' (List.forall_mem_cons.2 ⟨hkept, List.forall_mem_singleton.2 hmoved⟩)
        · rw [levelPages_cons]
          convert hholds' using 1
          abel
      · rw [bind_of_error (writeNode_overflow (by rwa [entries_innerCells]))]
        refine .inr ⟨rfl, fun hsame => hmoved ?_⟩
        have hold : fits (((left ++ a :: right).tail).map Prod.fst) false = true :=
          hlevel' _ (List.mem_append_right before List.mem_cons_self)
        have hwith : (left ++ a :: right).tail.Sublist (kept ++ cut :: moved) := by
          have hsub : (left ++ a :: right).Sublist (left ++ a :: s :: right) :=
            (List.Sublist.refl left).append ((List.sublist_cons_self s right).cons_cons a)
          rw [hchildren] at hsub
          exact hsub.tail
        refine fits_of_length hsame ?_ ?_ ?_ hold
        · exact List.forall_mem_map.2 fun c' hc' =>
            hrest c' (List.mem_append_right kept (List.mem_cons_of_mem cut hc'))
        · exact List.forall_mem_map.2 fun c' hc' => hrest c' (hwith.subset hc')
        · have hlength := congrArg List.length hchildren
          simp only [List.length_append, List.length_cons, List.length_map, List.length_tail] at hlength ⊢
          omega

end Propagate

/-! ### From the root to the place of an entry -/

section Locate

variable [PageSize] {file : PageFile Node} {root : Nat} {leaves before after : List Leaf} {leaf : Leaf}
  {levels : List (List Inner)} {frame : Multiset (Nat × Node)} {target : Entry}
  {first second : List Entry}

omit [PageSize] in
theorem entryLess_of_not {a b c : Entry} (hab : entryLess a b = true) (hcb : entryLess c b = false) :
    entryLess a c = true := by
  cases hac : entryLess a c with
  | true => rfl
  | false =>
    cases hca : entryLess c a with
    | true => rw [entryLess_trans hca hab] at hcb; exact hcb.symm
    | false => rwa [eq_of_not_entryLess hac hca, hcb] at hab

/-- Where an entry is or would be: in the leaf whose part it is in, behind the smaller entries. -/
structure Place (target : Entry) (leaves before : List Leaf) (leaf : Leaf) (after : List Leaf)
    (first second : List Entry) : Prop where
  leaves_eq : leaves = before ++ leaf :: after
  entries_eq : leaf.entries = first ++ second
  lows : ∀ l ∈ before ++ [leaf], entryLess target l.low = false
  later : ∀ l ∈ after, entryLess target l.low = true
  first : ∀ e ∈ first, entryLess e target = true
  second : ∀ e ∈ second, entryLess e target = false

theorem Represents.place (h : Represents file root leaves levels frame) (target : Entry) :
    ∃ before leaf after first second, Place target leaves before leaf after first second := by
  obtain ⟨before, leaf, after, rfl, hlows, hlater⟩ := h.owner target
  have hsorted : leaf.entries.Pairwise fun a b => entryLess a b = true := by
    have hall : Sorted (contents (before ++ leaf :: after)) := h.inOrder.sorted
    rw [contents_append, contents_cons] at hall
    exact (List.pairwise_append.1 (List.pairwise_append.1 hall).2.1).1
  obtain ⟨first, second, hentries, hfirst, hsecond⟩ := Bisect.exists_cut
    (hsorted.imp fun hab hb => entryLess_trans hab hb : leaf.entries.Pairwise fun a b =>
      entryLess b target = true → entryLess a target = true)
  exact ⟨before, leaf, after, first, second, rfl, hentries, hlows, hlater, hfirst, hsecond⟩

namespace Place

variable (h : Place target leaves before leaf after first second)

include h

omit [PageSize]

theorem contents_eq : contents leaves = (contents before ++ first) ++ (second ++ contents after) := by
  rw [h.leaves_eq, contents_append, contents_cons, h.entries_eq]
  simp

theorem smaller (hin : InOrder leaves) : ∀ e ∈ contents before ++ first, entryLess e target = true := by
  intro e he
  rcases List.mem_append.1 he with he | he
  · refine entryLess_of_not ?_ (h.lows leaf (by simp))
    obtain ⟨l, hl, he⟩ := List.mem_flatMap.1 he
    unfold InOrder at hin
    rw [h.leaves_eq, walk_append, List.pairwise_append] at hin
    have hbefore := hin.2.2 (e, true) (List.mem_flatMap.2 ⟨l, hl, by simp [Leaf.marks, he]⟩) (leaf.low, false)
      (by simp [Leaf.marks])
    exact before_start.1 hbefore
  · exact h.first e he

theorem larger (hin : InOrder leaves) : ∀ e ∈ contents after, entryLess target e = true := by
  intro e he
  obtain ⟨l, hl, he⟩ := List.mem_flatMap.1 he
  have hlow := hin.before_of_mem (by rw [h.leaves_eq]; simp [hl]) he
  rcases hlow with hless | ⟨heq, -⟩
  · exact entryLess_trans (h.later l hl) hless
  · rw [← show l.low = e from heq]
    exact h.later l hl

theorem mem_iff (hin : InOrder leaves) : target ∈ contents leaves ↔ second.head? = some target := by
  rw [h.contents_eq]
  constructor
  · intro hmem
    rcases List.mem_append.1 hmem with hmem | hmem
    · exact absurd (h.smaller hin target hmem) (by simp)
    rcases List.mem_append.1 hmem with hmem | hmem
    · have hsorted := hin.sorted
      rw [h.contents_eq] at hsorted
      have hsecond := (List.pairwise_append.1 (List.pairwise_append.1 hsorted).2.1).1
      cases second with
      | nil => exact absurd hmem List.not_mem_nil
      | cons e second =>
        rcases List.mem_cons.1 hmem with rfl | hmem
        · rfl
        · have hless := (List.pairwise_cons.1 hsecond).1 target hmem
          exact absurd (h.second e List.mem_cons_self) (by rw [hless]; decide)
    · exact absurd (h.larger hin target hmem) (by simp)
  · intro hhead
    exact List.mem_append_right _ (List.mem_append_left _ (List.mem_of_head? hhead))

end Place

omit [PageSize] in
theorem path_length_le {lefts rights : List (Entry × Nat)} {a : Entry × Nat} {path : List Nat}
    (h : Spine lefts a rights levels root path) (level : Nat) :
    path.length ≤ Multiset.card (levelPages level levels) := by
  induction h generalizing level with
  | top a => exact Nat.zero_le _
  | frame h ih =>
    rw [levelPages_split, List.length_cons, Multiset.card_add, Multiset.card_add, Multiset.card_add,
      Multiset.card_singleton]
    have := ih (level + 1)
    omega

theorem Represents.descend (h : Represents file root leaves levels frame)
    (hplace : Place target leaves before leaf after first second) :
    ∃ path, Spine (before.map Leaf.item) leaf.item (after.map Leaf.item) levels root path ∧
      descendPath target file.pageCount root [] file = .ok (leaf.id, path) file := by
  have hstack := h.stack
  rw [hplace.leaves_eq, List.map_append, List.map_cons] at hstack
  obtain ⟨path, hspine⟩ := hstack.spine
  refine ⟨path, hspine, ?_⟩
  have hholds := h.holds
  rw [hplace.leaves_eq, RowForm.pages_split] at hholds
  have hread : readPage leaf.id file = .ok (leafForm.node (leafForm.firstId after 0) leaf) file :=
    hholds.readPage (by simp [leafForm, Leaf.item])
  obtain ⟨fuel, hfuel⟩ : ∃ fuel, file.pageCount = fuel + 1 + path.length := by
    have hcard := hholds.card_lt
    simp only [Multiset.card_add, Multiset.card_singleton] at hcard
    have hpath := path_length_le hspine 1
    exact ⟨file.pageCount - 1 - path.length, by omega⟩
  rw [add_comm _ (levelPages 1 levels), add_assoc] at hholds
  have hlefts : ∀ c ∈ before.map Leaf.item ++ [leaf.item], entryLess target c.1 = false := by
    rw [← List.map_singleton, ← List.map_append]
    exact List.forall_mem_map.2 hplace.lows
  have hrights : ∀ c ∈ after.map Leaf.item, entryLess target c.1 = true :=
    List.forall_mem_map.2 hplace.later
  rw [hfuel, descendPath_spine hspine 1 hholds hlefts hrights (fuel + 1) [], List.append_nil, descendPath]
  change (readPage leaf.id >>= _) file = _
  rw [bind_of_ok hread, isLeaf_leafNode, if_pos rfl]
  rfl

/-- The entries, and where the parts begin. -/
structure Keys (P : Entry → Prop) (leaves : List Leaf) : Prop where
  entries : ∀ e ∈ contents leaves, P e
  lows : ∀ l ∈ leaves, l.low = ([], 0) ∨ P l.low

namespace Keys

variable {P : Entry → Prop}

omit [PageSize] in
theorem keyed (h : Keys P leaves) (hin : InOrder leaves) : Keyed P (leaves.map Leaf.item) := by
  have hmap : (leaves.map Leaf.item).map Prod.fst = leaves.map Leaf.low := by
    rw [List.map_map]
    rfl
  refine ⟨by rw [hmap]; exact hin.lows, ?_⟩
  rw [hmap]
  exact List.forall_mem_map.2 h.lows

theorem accepted (h : Keys P leaves) (hP : ∀ e, P e → Accepted e) :
    ∀ m ∈ walk leaves, m.1 = ([], 0) ∨ Accepted m.1 := by
  intro m hm
  obtain ⟨l, hl, hm⟩ := List.mem_flatMap.1 hm
  rcases List.mem_cons.1 hm with rfl | hm
  · exact (h.lows l hl).imp id (hP _)
  · obtain ⟨e, he, rfl⟩ := List.mem_map.1 hm
    exact .inr (hP e (h.entries e (List.mem_flatMap.2 ⟨l, hl, he⟩)))

end Keys

/-- The tree holds the entries, its keys are as `P` says, and pages outside of it hold `frame`. -/
def Holding (P : Entry → Prop) (frame : Multiset (Nat × Node)) (entries : List Entry) (root : Nat)
    (file : PageFile Node) : Prop :=
  ∃ leaves levels orphans, Represents file root leaves levels (orphans + frame) ∧ contents leaves = entries ∧
    Keys P leaves

omit [PageSize] in
theorem leafCells_insertIdx (first second : List Entry) (e : Entry) :
    (leafCells (first ++ second)).insertIdx first.length (Cell.ofEntry e 0) =
      leafCells (first ++ e :: second) := by
  rw [leafCells_append, ← length_leafCells first, Bisect.insertIdx_append, leafCells_append]
  rfl

def Leaf.with (leaf : Leaf) (entries : List Entry) : Leaf := { leaf with entries }

section Put

variable {P : Entry → Prop} (h : Place target leaves before leaf after first second)

include h

omit [PageSize]

theorem Place.put (hin : InOrder leaves) (hnot : target ∉ contents leaves) :
    InOrder (before ++ leaf.with (first ++ target :: second) :: after) := by
  rw [h.contents_eq] at hnot
  rw [h.leaves_eq, show leaf = ⟨leaf.low, leaf.id, first ++ second⟩ by rw [← h.entries_eq]] at hin
  refine hin.put (h.lows leaf (by simp)) h.first (fun e he => ?_) h.later
  by_contra hless
  rw [eq_of_not_entryLess (Bool.not_eq_true _ ▸ hless) (h.second e he)] at hnot
  exact hnot (List.mem_append_right _ (List.mem_append_left _ he))

end Put

omit [PageSize] in
theorem head?_low {l : Leaf} (low : Entry) (before after after' : List Leaf) (hlow : l.low = leaf.low)
    (h : (before ++ leaf :: after).head?.map Leaf.low = some low) :
    (before ++ l :: after').head?.map Leaf.low = some low := by
  cases before with
  | nil => exact (congrArg some hlow).trans h
  | cons first before => exact h

/-- What `insert` does once it has the cells of the leaf. -/
def putCells (root : Nat) (path : List Nat) (current link : Nat) (cells : List Cell) (cell : Cell) :
    TreeM Nat := do
  if fits (cells.map Cell.entry) true then
    let page ← writeNode true 0 link cells
    writePage current page
    pure root
  else
    let mid := splitPoint (cells.map Cell.entry) true
    let rightId ← allocatePage
    let rightCells := cells.drop mid
    let leftPage ← writeNode true 0 rightId (cells.take mid)
    let rightPage ← writeNode true 0 link rightCells
    writePage current leftPage
    writePage rightId rightPage
    let child ← readPage current
    propagate root path { rightCells.headD cell with child := rightId } current child.level

theorem insert_of_accepted {key : Bytes} {objectId : Nat} (hkey : keyTooLarge key = false) :
    insert root key objectId = (do
      let count ← nodeCount
      let found ← descendPath (key, objectId) count root []
      let leaf ← readPage found.1
      if leaf.entries[leaf.lowerBoundIndex (key, objectId)]? = some (key, objectId) then
        throw (.error ⟨.invalidArgument, "duplicate index entry"⟩)
      else
        putCells root found.2 found.1 leaf.link
          (leaf.cells.insertIdx (leaf.lowerBoundIndex (key, objectId)) ⟨key, objectId, 0⟩)
          ⟨key, objectId, 0⟩) := by
  unfold insert
  simp only [hkey]
  rfl

theorem Represents.put {P : Entry → Prop} (hP : ∀ e, P e → Accepted e) {orphans : Multiset (Nat × Node)}
    (h : Represents file root leaves levels (orphans + frame)) (hkeys : Keys P leaves)
    (hplace : Place target leaves before leaf after first second) (hnot : target ∉ contents leaves)
    (hkey : P target) {path : List Nat}
    (hspine : Spine (before.map Leaf.item) leaf.item (after.map Leaf.item) levels root path) :
    Outcome (Holding P frame ((contents before ++ first) ++ target :: (second ++ contents after)))
      (fun stop _ => Halts P stop)
      (putCells root path leaf.id (leafForm.firstId after 0) (leafCells (first ++ target :: second))
        (Cell.ofEntry target 0) file) := by
  have hin := hplace.put h.inOrder hnot
  have hentries : ∀ e ∈ (contents before ++ first) ++ target :: (second ++ contents after), P e := by
    intro e he
    rcases List.mem_append.1 he with he | he
    · exact hkeys.entries e (by rw [hplace.contents_eq]; exact List.mem_append_left _ he)
    rcases List.mem_cons.1 he with rfl | he
    · exact hkey
    · exact hkeys.entries e (by rw [hplace.contents_eq]; exact List.mem_append_right _ he)
  have hlows := hkeys.lows
  rw [hplace.leaves_eq] at hlows
  have hholds := h.holds
  rw [hplace.leaves_eq, RowForm.pages_split, add_assoc, add_assoc] at hholds
  have hstart : ∀ {l : Leaf} {after' : List Leaf}, l.low = leaf.low →
      (before ++ l :: after').head?.map Leaf.low = some ([], 0) := fun hlow =>
    head?_low ([], 0) before after _ hlow (by rw [← hplace.leaves_eq]; exact h.start)
  have hfitLeaves := h.fitLeaves
  rw [hplace.leaves_eq] at hfitLeaves
  unfold putCells
  dsimp only
  rw [entries_leafCells]
  by_cases hfits : fits (first ++ target :: second) true = true
  · obtain ⟨file', hwrite, hwritten, -⟩ := hholds.writePage
      (leafForm.node (leafForm.firstId after 0) (leaf.with (first ++ target :: second)))
    rw [if_pos hfits, bind_of_ok (writeNode_of_fits (by rwa [entries_leafCells]))]
    change Outcome _ _ ((writePage (leafForm.item leaf).2 (leafForm.node (leafForm.firstId after 0)
      (leaf.with (first ++ target :: second))) >>= _) file)
    rw [bind_of_ok hwrite]
    have hcontents : contents (before ++ leaf.with (first ++ target :: second) :: after) =
        (contents before ++ first) ++ target :: (second ++ contents after) := by
      simp [Leaf.with]
    have hkeys' : Keys P (before ++ leaf.with (first ++ target :: second) :: after) := by
      refine ⟨by rwa [hcontents], ?_⟩
      rw [List.append_cons]
      exact forall_replace hlows (List.forall_mem_singleton.2 (hlows leaf (by simp)))
    refine ⟨before ++ leaf.with (first ++ target :: second) :: after, levels, orphans, ⟨?_, ?_, hin, hstart rfl, ?_,
      h.fitLevels, hkeys'.accepted hP⟩, hcontents, hkeys'⟩
    · rw [RowForm.pages_split, add_assoc, add_assoc]
      exact hwritten
    · rw [List.map_append, List.map_cons]
      exact hspine.stack
    · rw [List.append_cons]
      exact forall_replace hfitLeaves (List.forall_mem_singleton.2 (by rwa [RowForm.Fit, entries_leafForm]))
  · have hhere : ∀ e ∈ first ++ target :: second, P e := fun e he => hentries e (by
      simp only [List.mem_append, List.mem_cons] at he ⊢
      tauto)
    obtain ⟨kept, cut, moved, hcut, hkept, hpoint, hbytes, -⟩ :=
      splitPoint_eq (fun e he => hP e (hhere e he)) (Bool.not_eq_true _ ▸ hfits)
    have htake : (leafCells (first ++ target :: second)).take kept.length = leafCells kept := by
      rw [hcut, leafCells_append]
      exact List.take_left' (length_leafCells kept)
    have hdrop : (leafCells (first ++ target :: second)).drop kept.length = leafCells (cut :: moved) := by
      rw [hcut, leafCells_append]
      exact List.drop_left' (length_leafCells kept)
    rw [if_neg hfits, hpoint, htake, hdrop]
    refine (allocate_halts hholds (Nat.zero_lt_of_lt (hholds.lt_pageCount (Multiset.mem_add.2
      (.inl (Multiset.mem_singleton_self _)))))).bind ?_
    rintro rightId file' ⟨blank, hheld⟩
    rw [bind_of_ok (writeNode_of_fits (by
      rw [entries_leafCells]
      exact fits_iff.2 (hbytes.trans (Nat.div_le_self _ _))))]
    by_cases hmoved : fits (cut :: moved) true = true
    · rw [bind_of_ok (writeNode_of_fits (by rwa [entries_leafCells]))]
      rw [add_left_comm] at hheld
      obtain ⟨file₁, hwrite₁, hheld₁, -⟩ := hheld.writePage (leafForm.node rightId (leaf.with kept))
      rw [add_left_comm] at hheld₁
      obtain ⟨file₂, hwrite₂, hheld₂, -⟩ := hheld₁.writePage
        (leafForm.node (leafForm.firstId after 0) ⟨cut, rightId, cut :: moved⟩)
      have hpos₂ : 0 < file₂.pageCount :=
        Nat.zero_lt_of_lt (hheld₂.lt_pageCount (Multiset.mem_add.2 (.inl (Multiset.mem_singleton_self _))))
      have hread : readPage leaf.id file₂ = .ok (leafForm.node rightId (leaf.with kept)) file₂ :=
        hheld₂.readPage (Multiset.mem_add.2 (.inr (Multiset.mem_add.2 (.inl (Multiset.mem_singleton_self _)))))
      change Outcome _ _ ((writePage (leafForm.item leaf).2 (leafForm.node rightId (leaf.with kept)) >>=
        fun _ => writePage rightId (leafForm.node (leafForm.firstId after 0) ⟨cut, rightId, cut :: moved⟩) >>=
          fun _ => readPage leaf.id >>= fun child =>
            propagate root path (Cell.ofEntry cut rightId) leaf.id child.level) file')
      rw [bind_of_ok hwrite₁, bind_of_ok hwrite₂, bind_of_ok hread]
      obtain ⟨leaves', hleaves⟩ : ∃ leaves', leaves' =
          before ++ leaf.with kept :: ⟨cut, rightId, cut :: moved⟩ :: after := ⟨_, rfl⟩
      have hin' : InOrder leaves' := by
        rw [hleaves]
        rw [hcut] at hin
        exact hin.cut hkept
      have hcontents : contents leaves' =
          (contents before ++ first) ++ target :: (second ++ contents after) := by
        rw [hleaves, List.append_assoc, ← List.cons_append, ← List.append_assoc first, hcut]
        simp [Leaf.with]
      have hkeys' : Keys P leaves' := by
        refine ⟨by rwa [hcontents], ?_⟩
        rw [hleaves, List.append_cons, List.append_cons, List.append_assoc before]
        exact forall_replace hlows (List.forall_mem_cons.2 ⟨hlows leaf (by simp),
          List.forall_mem_singleton.2 (.inr (hhere cut (by rw [hcut]; simp)))⟩)
      have hitems : leaves'.map Leaf.item =
          before.map Leaf.item ++ leaf.item :: (cut, rightId) :: after.map Leaf.item := by
        rw [hleaves]
        simp [Leaf.item, Leaf.with]
      have hpages : levelPages 1 levels + (leafForm.pages leaves' 0 + (orphans + frame)) =
          {(rightId, leafForm.node (leafForm.firstId after 0) ⟨cut, rightId, cut :: moved⟩)} +
            ({((leafForm.item leaf).2, leafForm.node rightId (leaf.with kept))} +
              (leafForm.pages before (leafForm.item leaf).2 + leafForm.pages after 0 +
                (levelPages 1 levels + (orphans + frame)))) := by
        rw [hleaves, RowForm.pages_split, RowForm.pages_cons]
        change _ + (({((leafForm.item leaf).2, leafForm.node rightId (leaf.with kept))} +
          (leafForm.pages before (leafForm.item leaf).2 + ({(rightId, _)} + _))) + _) = _
        abel
      refine (propagate_spine hP hspine (by rwa [hpages]) hpos₂ (by rw [← hitems]; exact hkeys'.keyed hin')
        h.fitLevels rfl).mono ?_ fun _ _ h => h
      rintro root' file'' ⟨levels', hstack, hfit', hholds'⟩
      rw [← hitems] at hstack
      refine ⟨leaves', levels', orphans, ⟨?_, hstack, hin', ?_, ?_, hfit', hkeys'.accepted hP⟩, hcontents, hkeys'⟩
      · convert hholds' using 1
        abel
      · rw [hleaves]
        exact hstart rfl
      · rw [hleaves, List.append_cons, List.append_cons, List.append_assoc before]
        refine forall_replace hfitLeaves (List.forall_mem_cons.2 ⟨?_, List.forall_mem_singleton.2 ?_⟩)
        · rw [RowForm.Fit, entries_leafForm]
          exact fits_iff.2 (hbytes.trans (Nat.div_le_self _ _))
        · rwa [RowForm.Fit, entries_leafForm]
    · rw [bind_of_error (writeNode_overflow (by rwa [entries_leafCells]))]
      refine .inr ⟨rfl, fun hsame => hmoved ?_⟩
      have hold : fits leaf.entries true = true := by
        have hfit := hfitLeaves leaf (by simp)
        rwa [RowForm.Fit, entries_leafForm] at hfit
      refine fits_of_length hsame (fun e he => hhere e (by rw [hcut]; exact List.mem_append_right _ he)) ?_ ?_ hold
      · intro e he
        exact hkeys.entries e (List.mem_flatMap.2 ⟨leaf, by rw [hplace.leaves_eq]; simp, he⟩)
      · have hlength := congrArg List.length hcut
        have hpos := List.length_pos_iff.2 hkept
        rw [hplace.entries_eq]
        simp only [List.length_append, List.length_cons] at hlength ⊢
        omega

theorem Represents.leaf_page (h : Represents file root leaves levels frame)
    (hplace : Place target leaves before leaf after first second) :
    ∃ node, readPage leaf.id file = .ok node file ∧ node.isLeaf = true ∧
      node.link = leafForm.firstId after 0 ∧ node.cells = leafCells (first ++ second) ∧
        node.lowerBoundIndex target = first.length ∧ node.entries[first.length]? = second.head? := by
  have hholds := h.holds
  rw [hplace.leaves_eq, RowForm.pages_split] at hholds
  refine ⟨leafForm.node (leafForm.firstId after 0) leaf, hholds.readPage (by simp [leafForm, Leaf.item]), rfl,
    rfl, congrArg leafCells hplace.entries_eq, lowerBound_leaf hplace.entries_eq hplace.first hplace.second, ?_⟩
  rw [RowForm.entries_node, entries_leafForm, hplace.entries_eq, List.getElem?_append_right (Nat.le_refl _),
    Nat.sub_self, List.head?_eq_getElem?]

theorem insert_holding {P : Entry → Prop} (hP : ∀ e, P e → Accepted e) {set : KeySet} {key : Bytes}
    {objectId : Nat} (h : Holding P frame set.entries root file)
    (hkey : keyTooLarge key = false → P (key, objectId)) :
    Outcome (fun root' file' => ∃ set', set.insert key objectId = .ok set' ∧
        Holding P frame set'.entries root' file')
      (fun stop file' => Halts P stop ∨
        ∃ error, set.insert key objectId = .error error ∧ stop = .error error ∧ file' = file)
      (insert root key objectId file) := by
  obtain ⟨leaves, levels, orphans, hrep, hcontents, hkeys⟩ := h
  cases hlarge : keyTooLarge key with
  | true =>
    have hrun : insert root key objectId file =
        .error (.error ⟨.valueTooLarge, "index key is too large for a B+ tree node"⟩) file := by
      unfold insert
      rw [hlarge]
      rfl
    rw [hrun]
    exact .inr ⟨_, if_pos hlarge, rfl, rfl⟩
  | false =>
    obtain ⟨before, leaf, after, first, second, hplace⟩ := hrep.place (key, objectId)
    obtain ⟨path, hspine, hdown⟩ := hrep.descend hplace
    obtain ⟨node, hread, -, hlink, hcells, hindex, hnext⟩ := hrep.leaf_page hplace
    have hmem := hplace.mem_iff hrep.inOrder
    rw [hcontents] at hmem
    have hcount : nodeCount file = .ok file.pageCount file := rfl
    rw [insert_of_accepted hlarge, bind_of_ok hcount, bind_of_ok hdown, bind_of_ok hread, hindex, hnext]
    by_cases hhead : second.head? = some (key, objectId)
    · rw [if_pos hhead]
      refine .inr ⟨_, ?_, rfl, rfl⟩
      rw [KeySet.insert, if_neg (by rw [hlarge]; decide), dif_pos (hmem.2 hhead)]
    · have hnot : (key, objectId) ∉ set.entries := fun hin => hhead (hmem.1 hin)
      rw [if_neg hhead, hcells, hlink]
      rw [show (⟨key, objectId, 0⟩ : Cell) = Cell.ofEntry (key, objectId) 0 from rfl, leafCells_insertIdx]
      refine (hrep.put hP hkeys hplace (by rwa [hcontents]) (hkey hlarge) hspine).mono ?_ fun _ _ h => .inl h
      intro root' file' hafter
      refine ⟨⟨insertEntry (key, objectId) set.entries, set.sorted.insertEntry hnot⟩, ?_, ?_⟩
      · rw [KeySet.insert, if_neg (by rw [hlarge]; decide), dif_neg hnot]
      · obtain ⟨leaves', levels', orphans', hrep', hcontents', hkeys'⟩ := hafter
        refine ⟨leaves', levels', orphans', hrep', hrep'.inOrder.sorted.ext (set.sorted.insertEntry hnot) ?_, hkeys'⟩
        intro e
        rw [hcontents', mem_insertEntry, ← hcontents, hplace.contents_eq]
        simp only [List.mem_append, List.mem_cons]
        tauto

end Locate

end MoDb.Index
