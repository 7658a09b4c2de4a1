import Mathlib.Data.List.Basic
import Mathlib.Data.List.Pairwise

/-!
# Trees of one depth, level by level

A search tree whose leaves all have the same depth is kept as its levels. A level is a list of
nodes; a node has a page and children, each with the key at which its part begins; and the nodes of
a level, one after the other, are the children of the level above. `Stack items levels root` says
that this holds from `items` up to a single root. `Spine` is the same with a mark on one item: what
stands left and right of it on each level, and the pages from its parent up to the root. An operation
that starts at one item and works its way up is an induction on the spine.
-/

namespace Levels

variable {κ ι : Type}

@[ext]
structure Group (κ ι : Type) where
  id : ι
  children : List (κ × ι)
  nonempty : children ≠ []

namespace Group

def item (group : Group κ ι) : κ × ι := ((group.children.head group.nonempty).1, group.id)

def around (id : ι) (left : List (κ × ι)) (a : κ × ι) (right : List (κ × ι)) : Group κ ι :=
  ⟨id, left ++ a :: right, List.append_ne_nil_of_right_ne_nil left (List.cons_ne_nil a right)⟩

variable {id : ι} {left right : List (κ × ι)} {a b : κ × ι}

@[simp]
theorem id_around : (around id left a right).id = id := rfl

@[simp]
theorem children_around : (around id left a right).children = left ++ a :: right := rfl

@[simp]
theorem item_around_nil : (around id [] a right).item = (a.1, id) := rfl

@[simp]
theorem item_around_cons : (around id (b :: left) a right).item = (b.1, id) := rfl

theorem item_around_congr {right' : List (κ × ι)} {a' : κ × ι} (h : left = [] → a'.1 = a.1) :
    (around id left a' right').item = (around id left a right).item := by
  cases left with
  | nil => rw [item_around_nil, item_around_nil, h rfl]
  | cons b left => rfl

theorem eq_around {group : Group κ ι} (h : group.children = left ++ a :: right) :
    group = around group.id left a right := Group.ext rfl h

end Group

open Levels.Group

def flat (groups : List (Group κ ι)) : List (κ × ι) := groups.flatMap Group.children

@[simp]
theorem flat_nil : flat ([] : List (Group κ ι)) = [] := rfl

@[simp]
theorem flat_cons (group : Group κ ι) (groups : List (Group κ ι)) :
    flat (group :: groups) = group.children ++ flat groups := List.flatMap_cons

@[simp]
theorem flat_append (first second : List (Group κ ι)) :
    flat (first ++ second) = flat first ++ flat second := List.flatMap_append

theorem mem_flat {groups : List (Group κ ι)} {c : κ × ι} :
    c ∈ flat groups ↔ ∃ group ∈ groups, c ∈ group.children := List.mem_flatMap

theorem forall_items {groups : List (Group κ ι)} (P : κ → Prop) (h : ∀ c ∈ flat groups, P c.1) :
    ∀ c ∈ groups.map item, P c.1 := by
  intro c hc
  obtain ⟨group, hgroup, rfl⟩ := List.mem_map.1 hc
  exact h (group.children.head group.nonempty)
    (mem_flat.2 ⟨group, hgroup, List.head_mem group.nonempty⟩)

theorem item_around {id : ι} {left right : List (κ × ι)} {a : κ × ι} (P : κ → Prop)
    (h : ∀ c ∈ left ++ [a], P c.1) : P (around id left a right).item.1 := by
  cases left with
  | nil => exact h a (List.mem_singleton_self a)
  | cons b left => exact h b List.mem_cons_self

inductive Stack : List (κ × ι) → List (List (Group κ ι)) → ι → Prop
  | top (a : κ × ι) : Stack [a] [] a.2
  | level {items : List (κ × ι)} {groups : List (Group κ ι)} {levels : List (List (Group κ ι))}
      {root : ι} (hitems : items = flat groups) (h : Stack (groups.map item) levels root) :
      Stack items (groups :: levels) root

inductive Spine :
    List (κ × ι) → κ × ι → List (κ × ι) → List (List (Group κ ι)) → ι → List ι → Prop
  | top (a : κ × ι) : Spine [] a [] [] a.2 []
  | frame {before after : List (Group κ ι)} {id : ι} {left right : List (κ × ι)} {a : κ × ι}
      {levels : List (List (Group κ ι))} {root : ι} {path : List ι}
      (h : Spine (before.map item) (around id left a right).item (after.map item) levels root path) :
      Spine (flat before ++ left) a (right ++ flat after)
        ((before ++ around id left a right :: after) :: levels) root (id :: path)

variable {items lefts rights : List (κ × ι)} {a : κ × ι} {groups : List (Group κ ι)}
  {levels : List (List (Group κ ι))} {root : ι} {path : List ι}

theorem exists_group_of_flat (h : flat groups = lefts ++ a :: rights) :
    ∃ before group left right after, groups = before ++ group :: after ∧
      group.children = left ++ a :: right ∧ lefts = flat before ++ left ∧
        rights = right ++ flat after := by
  induction groups generalizing lefts with
  | nil => simp at h
  | cons group groups ih =>
    rw [flat_cons, List.append_eq_append_iff] at h
    rcases h with ⟨middle, hlefts, hrest⟩ | ⟨middle, hchildren, hrest⟩
    · obtain ⟨before, group', left, right, after, rfl, hchildren, rfl, rfl⟩ := ih hrest
      refine ⟨group :: before, group', left, right, after, rfl, hchildren, ?_, rfl⟩
      rw [hlefts, flat_cons, List.append_assoc]
    · cases middle with
      | nil =>
        rw [List.nil_append] at hrest
        obtain ⟨before, group', left, right, after, rfl, hchildren', hnil, rfl⟩ :=
          @ih [] (by rw [List.nil_append, hrest])
        refine ⟨group :: before, group', left, right, after, rfl, hchildren', ?_, rfl⟩
        rw [flat_cons, List.append_assoc, ← hnil, hchildren, List.append_nil, List.append_nil]
      | cons c middle =>
        rw [List.cons_append, List.cons.injEq] at hrest
        obtain ⟨rfl, rfl⟩ := hrest
        exact ⟨[], group, lefts, middle, groups, rfl, hchildren, rfl, rfl⟩

theorem Stack.spine (h : Stack (lefts ++ a :: rights) levels root) :
    ∃ path, Spine lefts a rights levels root path := by
  generalize hitems : lefts ++ a :: rights = items at h
  induction h generalizing lefts a rights with
  | top b =>
    cases lefts with
    | nil =>
      obtain ⟨rfl, rfl⟩ := List.cons.inj hitems
      exact ⟨[], .top a⟩
    | cons c lefts => simp at hitems
  | level hflat h ih =>
    obtain ⟨before, group, left, right, after, rfl, hchildren, rfl, rfl⟩ :=
      exists_group_of_flat (hflat.symm.trans hitems.symm)
    obtain ⟨path, hspine⟩ :=
      ih (List.map_append.trans (congrArg _ List.map_cons)).symm
    rw [eq_around hchildren] at hspine ⊢
    exact ⟨_, .frame hspine⟩

theorem flat_around {before after : List (Group κ ι)} {id : ι} {left right : List (κ × ι)} :
    flat (before ++ around id left a right :: after) =
      (flat before ++ left) ++ a :: (right ++ flat after) := by
  simp

theorem Spine.stack (h : Spine lefts a rights levels root path) :
    Stack (lefts ++ a :: rights) levels root := by
  induction h with
  | top a => exact .top a
  | frame h ih =>
    refine .level flat_around.symm ?_
    rw [List.map_append, List.map_cons]
    exact ih

theorem keys_sublist (groups : List (Group κ ι)) :
    ((groups.map item).map Prod.fst).Sublist ((flat groups).map Prod.fst) := by
  induction groups with
  | nil => exact List.Sublist.refl _
  | cons group groups ih =>
    have hhead : [group.item.1].Sublist (group.children.map Prod.fst) := by
      obtain ⟨c, rest, hchildren⟩ := List.exists_cons_of_ne_nil group.nonempty
      simp [item, hchildren]
    rw [flat_cons, List.map_append, List.map_cons, List.map_cons]
    exact hhead.append ih

end Levels
