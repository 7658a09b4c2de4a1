import MoDb.Lib.Bisect

/-!
# A place in a sorted list

`before` and `beyond` say on which side of a target an element stands; one that is on neither side is
the target. A list is cut when the elements before come first and those beyond last. The place of the target
is found by going along the list or by halving, and a list is written out with something put in there.
-/

namespace SortedSearch

variable {α β : Type} {before beyond : α → Bool} {first last : List α} {hit : α}

/-- Along the list: the place of the first element that is not before, and whether it is the target. -/
def seek (before beyond : α → Bool) : List α → Nat → Nat × Bool
  | [], place => (place, false)
  | a :: l, place => if before a then seek before beyond l (place + 1) else (place, !beyond a)

def search (before beyond : α → Bool) (l : List α) : Nat → Nat → Nat → Option Nat
  | 0, _, _ => none
  | fuel + 1, low, high =>
    if low < high then
      let mid := low + (high - low) / 2
      if (l[mid]?).any before then search before beyond l fuel (mid + 1) high
      else if (l[mid]?).any beyond then search before beyond l fuel low mid
      else some mid
    else none

def Middle (before beyond : α → Bool) : List α → Prop
  | [] => True
  | [hit] => before hit = false ∧ beyond hit = false
  | _ :: _ :: _ => False

/-- The list in three parts. -/
structure Cut (before beyond : α → Bool) (first middle last : List α) : Prop where
  first : ∀ a ∈ first, before a = true
  middle : Middle before beyond middle
  last : ∀ a ∈ last, before a = false ∧ beyond a = true

theorem seek_cut {middle : List α} (h : Cut before beyond first middle last) (place : Nat) :
    seek before beyond (first ++ middle ++ last) place = (place + first.length, !middle.isEmpty) := by
  obtain ⟨hfirst, hmiddle, hlast⟩ := h
  induction first generalizing place with
  | nil =>
    match middle, hmiddle with
    | [], _ =>
      cases last with
      | nil => rfl
      | cons a last =>
        obtain ⟨hbefore, hbeyond⟩ := hlast a List.mem_cons_self
        change seek before beyond (a :: last) place = _
        rw [seek, hbefore, hbeyond, if_neg Bool.false_ne_true]
        rfl
    | [hit], ⟨hbefore, hbeyond⟩ =>
      change seek before beyond (hit :: last) place = _
      rw [seek, hbefore, hbeyond, if_neg Bool.false_ne_true]
      rfl
  | cons a first ih =>
    change seek before beyond (a :: (first ++ middle ++ last)) place = _
    rw [seek, hfirst a List.mem_cons_self, if_pos rfl,
      ih _ fun b hb => hfirst b (List.mem_cons_of_mem a hb), List.length_cons, Nat.add_assoc,
      Nat.add_comm 1]

theorem Middle.exists_of_pos {middle : List α} (h : Middle before beyond middle)
    (hpos : 0 < middle.length) : ∃ hit, middle = [hit] ∧ before hit = false ∧ beyond hit = false :=
  match middle, h with
  | [], _ => absurd hpos (Nat.lt_irrefl 0)
  | [hit], ⟨hbefore, hbeyond⟩ => ⟨hit, rfl, hbefore, hbeyond⟩

theorem Middle.length_le {middle : List α} (h : Middle before beyond middle) : middle.length ≤ 1 :=
  match middle, h with
  | [], _ => Nat.zero_le 1
  | [_], _ => Nat.le_refl 1

theorem search_cut {middle : List α} (h : Cut before beyond first middle last) {fuel low high : Nat}
    (hlow : low ≤ first.length) (hhigh : first.length + middle.length ≤ high)
    (hend : high ≤ (first ++ middle ++ last).length) (hfuel : high - low < fuel) :
    search before beyond (first ++ middle ++ last) fuel low high =
      if middle.isEmpty then none else some first.length := by
  induction fuel generalizing low high with
  | zero => exact absurd hfuel (Nat.not_lt_zero _)
  | succ fuel ih =>
    rw [search]
    by_cases hlt : low < high
    · have hmid : low + (high - low) / 2 < high := by omega
      have hle : low ≤ low + (high - low) / 2 := Nat.le_add_right _ _
      rw [if_pos hlt]
      generalize low + (high - low) / 2 = mid at hmid hle ⊢
      dsimp only
      rcases Nat.lt_or_ge mid first.length with hin | hin
      · have hget : (first ++ middle ++ last)[mid]? = some first[mid] := by
          rw [List.append_assoc, List.getElem?_append_left hin, List.getElem?_eq_getElem hin]
        rw [hget, Option.any_some, h.first _ (List.getElem_mem hin), if_pos rfl]
        exact ih hin hhigh hend (by omega)
      · rcases Nat.lt_or_ge mid (first.length + middle.length) with hmiddle | hmiddle
        · obtain ⟨hit, rfl, hbefore, hbeyond⟩ : ∃ hit, middle = [hit] ∧ before hit = false ∧
              beyond hit = false := h.middle.exists_of_pos (by omega)
          obtain rfl : mid = first.length := by
            rw [List.length_singleton] at hmiddle
            omega
          simp [hbefore, hbeyond]
        · have hindex : mid - (first ++ middle).length < last.length := by
            rw [List.length_append, List.length_append] at hend
            rw [List.length_append]
            omega
          have hget : (first ++ middle ++ last)[mid]? = some last[mid - (first ++ middle).length] := by
            rw [List.getElem?_append_right (by rw [List.length_append]; exact hmiddle),
              List.getElem?_eq_getElem hindex]
          obtain ⟨hbefore, hbeyond⟩ := h.last _ (List.getElem_mem hindex)
          rw [hget, Option.any_some, Option.any_some, hbefore, hbeyond, if_neg Bool.false_ne_true,
            if_pos rfl]
          exact ih hlow hmiddle (Nat.le_of_lt (Nat.lt_of_lt_of_le hmid hend)) (by omega)
    · have hnone : middle = [] := by
        apply List.eq_nil_of_length_eq_zero
        omega
      rw [if_neg hlt, hnone]
      rfl

theorem findIdx_cut {middle : List α} (h : Cut before beyond first middle last) :
    (first ++ middle ++ last).findIdx (fun a => !before a && !beyond a) =
      if middle.isEmpty then (first ++ middle ++ last).length else first.length := by
  obtain ⟨hfirst, hmiddle, hlast⟩ := h
  have hskip : first.findIdx (fun a => !before a && !beyond a) = first.length := by
    apply List.findIdx_eq_length_of_false
    intro a ha
    simp [hfirst a ha]
  rw [List.append_assoc, List.findIdx_append, hskip, if_neg (Nat.lt_irrefl _)]
  match middle, hmiddle with
  | [], _ =>
    have hnone : last.findIdx (fun a => !before a && !beyond a) = last.length := by
      apply List.findIdx_eq_length_of_false
      intro a ha
      simp [(hlast a ha).2]
    rw [List.nil_append, hnone, List.length_append, Nat.add_comm]
    rfl
  | [hit], ⟨hbefore, hbeyond⟩ =>
    rw [List.singleton_append, List.findIdx_cons, hbefore, hbeyond]
    exact Nat.zero_add _

section Map

variable {γ : Type} (before beyond : α → Bool) (f : γ → α)

theorem seek_map (l : List γ) (place : Nat) :
    seek (fun c => before (f c)) (fun c => beyond (f c)) l place = seek before beyond (l.map f) place := by
  induction l generalizing place with
  | nil => rfl
  | cons c l ih => rw [seek, List.map_cons, seek, ih]

theorem search_map (l : List γ) (fuel low high : Nat) :
    search (fun c => before (f c)) (fun c => beyond (f c)) l fuel low high =
      search before beyond (l.map f) fuel low high := by
  induction fuel generalizing low high with
  | zero => rfl
  | succ fuel ih =>
    simp only [search, ih, List.getElem?_map, Option.any_map]

theorem findIdx_map (p : α → Bool) (l : List γ) : l.findIdx (fun c => p (f c)) = (l.map f).findIdx p := by
  rw [List.findIdx_map]
  rfl

end Map

/-! ### Writing a list out -/

/-- The pieces of a list, with `new` before the one at `place`, which is left out if it is to be
replaced; at the end if the place is past it. -/
def rebuild (piece : α → List β) (l : List α) (place : Nat) (replace : Bool) (new : List β) : List β :=
  (l.zipIdx.flatMap fun (a, index) =>
    if index = place then if replace then new else new ++ piece a else piece a) ++
    if l.length ≤ place then new else []

/-- The pieces, but for the one at `place`. -/
def omitting (piece : α → List β) (l : List α) (place : Nat) : List β :=
  l.zipIdx.flatMap fun (a, index) => if index = place then [] else piece a

variable (piece : α → List β)

theorem flatMap_zipIdx_of_ne {f : α → List β} {l : List α} {start place : Nat}
    (h : place < start ∨ start + l.length ≤ place) :
    ((l.zipIdx start).flatMap fun (a, index) => if index = place then f a else piece a) =
      l.flatMap piece := by
  induction l generalizing start with
  | nil => rfl
  | cons a l ih =>
    rw [List.length_cons] at h
    rw [List.zipIdx_cons, List.flatMap_cons, List.flatMap_cons, ih (by omega)]
    dsimp only
    rw [if_neg (by omega)]

theorem flatMap_zipIdx_append (f : α → List β) (first rest : List α) :
    (((first ++ rest).zipIdx).flatMap fun (a, index) =>
        if index = first.length then f a else piece a) =
      first.flatMap piece ++ match rest with
        | [] => []
        | a :: rest => f a ++ rest.flatMap piece := by
  rw [List.zipIdx_append, List.flatMap_append, flatMap_zipIdx_of_ne piece (.inr (by omega))]
  cases rest with
  | nil => rfl
  | cons a rest =>
    rw [Nat.zero_add, List.zipIdx_cons, List.flatMap_cons, flatMap_zipIdx_of_ne piece (.inl (by omega))]
    dsimp only
    rw [if_pos rfl]

theorem not_length_le (first last : List α) (hit : α) :
    ¬(first ++ hit :: last).length ≤ first.length := by
  rw [List.length_append, List.length_cons]
  omega

theorem rebuild_insert (first last : List α) (new : List β) :
    rebuild piece (first ++ last) first.length false new =
      first.flatMap piece ++ (new ++ last.flatMap piece) := by
  have hpieces := flatMap_zipIdx_append piece (fun a => new ++ piece a) first last
  unfold rebuild
  simp only [Bool.false_eq_true, if_false]
  rw [hpieces]
  cases last with
  | nil => simp
  | cons a last =>
    rw [if_neg (not_length_le first last a), List.append_nil, List.flatMap_cons]
    exact congrArg _ (List.append_assoc _ _ _)

theorem rebuild_replace (first last : List α) (hit : α) (new : List β) :
    rebuild piece (first ++ hit :: last) first.length true new =
      first.flatMap piece ++ (new ++ last.flatMap piece) := by
  have hpieces := flatMap_zipIdx_append piece (fun _ => new) first (hit :: last)
  unfold rebuild
  simp only [if_true]
  rw [hpieces, if_neg (not_length_le first last hit), List.append_nil]

theorem omitting_append (first last : List α) (hit : α) :
    omitting piece (first ++ hit :: last) first.length = first.flatMap piece ++ last.flatMap piece :=
  flatMap_zipIdx_append piece (fun _ => []) first (hit :: last)

theorem rebuild_map {γ : Type} (f : γ → α) (l : List γ) (place : Nat) (replace : Bool) (new : List β) :
    rebuild (fun c => piece (f c)) l place replace new = rebuild piece (l.map f) place replace new := by
  rw [rebuild, rebuild, List.zipIdx_map, List.flatMap_map, List.length_map]
  rfl

theorem omitting_map {γ : Type} (f : γ → α) (l : List γ) (place : Nat) :
    omitting (fun c => piece (f c)) l place = omitting piece (l.map f) place := by
  rw [omitting, omitting, List.zipIdx_map, List.flatMap_map]
  rfl

/-! ### Sorted lists are cut -/

variable {κ : Type} {less : κ → κ → Bool} {key : α → κ}

/-- A strict order in which any two keys that differ are one before the other. -/
structure StrictOrder (less : κ → κ → Bool) : Prop where
  trans : ∀ {a b c}, less a b = true → less b c = true → less a c = true
  asymm : ∀ {a b}, less a b = true → less b a = false
  eq_of_not : ∀ {a b}, less a b = false → less b a = false → a = b

def Sorted (less : κ → κ → Bool) (key : α → κ) (l : List α) : Prop :=
  l.Pairwise fun a b => less (key a) (key b) = true

theorem Sorted.nodup (hless : StrictOrder less) {l : List α} (h : Sorted less key l) :
    (l.map key).Nodup := by
  apply List.pairwise_map.2 (h.imp _)
  intro a b hab heq
  rw [heq] at hab
  exact Bool.false_ne_true ((hless.asymm hab).symm.trans hab)

theorem Sorted.cut (hless : StrictOrder less) {l : List α} (h : Sorted less key l) (target : κ) :
    ∃ first middle last, l = first ++ middle ++ last ∧
      Cut (fun a => less (key a) target) (fun a => less target (key a)) first middle last := by
  obtain ⟨first, rest, rfl, hfirst, hrest⟩ := Bisect.exists_cut
    (h.imp fun {a b} hab hb => hless.trans hab hb)
  have hsorted : Sorted less key rest := (List.pairwise_append.1 h).2.1
  cases rest with
  | nil => exact ⟨first, [], [], by simp, hfirst, trivial, fun _ h => absurd h List.not_mem_nil⟩
  | cons a rest =>
    have hbeyond : ∀ b ∈ rest, less target (key b) = true := by
      intro b hb
      have hab : less (key a) (key b) = true := (List.pairwise_cons.1 hsorted).1 b hb
      cases ha : less target (key a) with
      | true => exact hless.trans ha hab
      | false => exact hless.eq_of_not (hrest a List.mem_cons_self) ha ▸ hab
    have hlast : ∀ b ∈ rest, less (key b) target = false ∧ less target (key b) = true :=
      fun b hb => ⟨hrest b (List.mem_cons_of_mem a hb), hbeyond b hb⟩
    cases ha : less target (key a) with
    | true =>
      refine ⟨first, [], a :: rest, by simp, hfirst, trivial, ?_⟩
      exact List.forall_mem_cons.2 ⟨⟨hrest a List.mem_cons_self, ha⟩, hlast⟩
    | false =>
      exact ⟨first, [a], rest, by simp, hfirst, ⟨hrest a List.mem_cons_self, ha⟩, hlast⟩

theorem Sorted.insert (hless : StrictOrder less) {first middle last : List α} {target : α}
    (h : Sorted less key (first ++ middle ++ last))
    (hcut : Cut (fun a => less (key a) (key target)) (fun a => less (key target) (key a)) first middle
      last) : Sorted less key (first ++ target :: last) := by
  rw [List.append_assoc] at h
  obtain ⟨hfirst, hrest, hacross⟩ := List.pairwise_append.1 h
  have hlast : Sorted less key last := (List.pairwise_append.1 hrest).2.1
  refine List.pairwise_append.2 ⟨hfirst, List.pairwise_cons.2 ⟨fun b hb => (hcut.last b hb).2, hlast⟩, ?_⟩
  intro a ha b hb
  rcases List.mem_cons.1 hb with rfl | hb
  · exact hcut.first a ha
  · exact hless.trans (hcut.first a ha) (hcut.last b hb).2

end SortedSearch
