import MoDb.Error
import MoDb.Lib.Selection

/-!
# Generator operators

A generator is the list of what it yields when it is read to its end: values, and at most one error,
which ends it.
-/

namespace MoDb.Query

open Selection

abbrev Generator (α : Type) := List (Except Error α)

namespace Generator

variable {α δ κ : Type}

def collect : Generator α → Except Error (List α)
  | [] => .ok []
  | .error error :: _ => .error error
  | .ok row :: rest => (collect rest).map (row :: ·)

def ofList (rows : List α) : Generator α := rows.map .ok

/-- `limit`: no limit when `n` is 0. -/
def limit (source : Generator α) (n : Nat) : Generator α := if n = 0 then source else source.take n

/-- `sort`. -/
def sort (source : Generator α) (order : Order α) : Generator α :=
  match collect source with
  | .error error => [.error error]
  | .ok rows => ofList (order.stableSort rows)

/-- `top_k`: the `k` greatest, the greatest first. The front of its heap is the least of them. -/
def topK (source : Generator α) (k : Nat) (order : Order α) (heap : Heap order.flip) : Generator α :=
  if k = 0 then []
  else
    match collect source with
    | .error error => [.error error]
    | .ok rows => ofList (heap.sort (rows.foldl (heap.offer k) []))

/-- The loop of `distinct`. -/
def distinctFrom [DecidableEq κ] (key : α → κ) : List κ → Generator α → Generator α
  | _, [] => []
  | _, .error error :: _ => [.error error]
  | seen, .ok row :: rest =>
    if key row ∈ seen then distinctFrom key seen rest
    else .ok row :: distinctFrom key (key row :: seen) rest

/-- `distinct`. -/
def distinct [DecidableEq κ] (source : Generator α) (key : α → κ) : Generator α :=
  distinctFrom key [] source

/-- The loop of a source: the body skips an item, makes a row of it or fails. A source that has
`emitted` as many rows as the limit stops, unless the limit is 0. -/
def pump (body : δ → Except Error (Option α)) (limit : Nat) : Nat → List δ → Generator α
  | _, [] => []
  | emitted, item :: rest =>
    match body item with
    | .error error => [.error error]
    | .ok none => pump body limit emitted rest
    | .ok (some row) =>
      if limit ≠ 0 ∧ limit ≤ emitted + 1 then [.ok row]
      else .ok row :: pump body limit (emitted + 1) rest

/-! ### Operators on values -/

@[simp]
theorem collect_ofList (rows : List α) : collect (ofList rows) = .ok rows := by
  induction rows with
  | nil => rfl
  | cons row rest ih =>
    have hrest : collect (.ok row :: ofList rest) = (collect (ofList rest)).map (row :: ·) := rfl
    change collect (.ok row :: ofList rest) = _
    rw [hrest, ih]
    rfl

theorem ofList_injective : Function.Injective (ofList : List α → Generator α) := by
  intro rows rows' h
  have hcollect := congrArg collect h
  rw [collect_ofList, collect_ofList] at hcollect
  exact Except.ok.inj hcollect

theorem limit_error (error : Error) (n : Nat) :
    limit ([.error error] : Generator α) n = [.error error] := by
  unfold limit
  split
  · rfl
  · rename_i hn
    exact List.take_of_length_le (Nat.pos_of_ne_zero hn)

theorem limit_ofList (rows : List α) (n : Nat) :
    limit (ofList rows) n = ofList (if n = 0 then rows else rows.take n) := by
  unfold limit
  split
  · rfl
  · exact List.map_take.symm

theorem pump_zero (body : δ → Except Error (Option α)) (emitted : Nat) (items : List δ) :
    pump body 0 emitted items = pump body 0 0 items := by
  induction items generalizing emitted with
  | nil => rfl
  | cons item rest ih =>
    unfold pump
    split
    · rfl
    · exact ih emitted
    · rw [if_neg fun h => h.1 rfl, if_neg fun h => h.1 rfl, ih (emitted + 1), ih (0 + 1)]

theorem pump_limit (body : δ → Except Error (Option α)) {n emitted : Nat} (h : emitted < n)
    (items : List δ) :
    pump body n emitted items = (pump body 0 0 items).take (n - emitted) := by
  induction items generalizing emitted with
  | nil => rw [pump, pump, List.take_nil]
  | cons item rest ih =>
    obtain ⟨more, hmore⟩ : ∃ more, n - emitted = more + 1 := ⟨n - emitted - 1, by omega⟩
    unfold pump
    split
    · rw [hmore, List.take_succ_cons, List.take_nil]
    · exact ih h
    · by_cases hlast : n ≤ emitted + 1
      · have hzero : more = 0 := by omega
        rw [if_pos ⟨by omega, hlast⟩, if_neg fun h => h.1 rfl, hmore, List.take_succ_cons, hzero,
          List.take_zero]
      · have hmore' : n - (emitted + 1) = more := by omega
        rw [if_neg fun h => hlast h.2, if_neg fun h => h.1 rfl, hmore, List.take_succ_cons,
          pump_zero, ih (by omega), hmore']

theorem pump_eq_limit (body : δ → Except Error (Option α)) (n : Nat) (items : List δ) :
    pump body n 0 items = limit (pump body 0 0 items) n := by
  unfold limit
  split
  · rename_i hn
    rw [hn]
  · rename_i hn
    exact pump_limit body (Nat.pos_of_ne_zero hn) items

theorem pump_ofList {body : δ → Except Error (Option α)} {items : List δ}
    (h : ∀ item ∈ items, ∃ row, body item = .ok row) :
    pump body 0 0 items = ofList (items.filterMap fun item => (body item).toOption.join) := by
  induction items with
  | nil => rfl
  | cons item rest ih =>
    have hrest := ih fun item hitem => h item (List.mem_cons_of_mem _ hitem)
    obtain ⟨row, hrow⟩ := h item List.mem_cons_self
    rw [pump, hrow, List.filterMap_cons, hrow]
    cases row with
    | none => exact hrest
    | some row =>
      change (if (0 : Nat) ≠ 0 ∧ _ then _ else _) = _
      rw [if_neg fun h => h.1 rfl, pump_zero, hrest]
      rfl

theorem pump_body_ok {body : δ → Except Error (Option α)} {items : List δ} {rows : List α}
    (h : collect (pump body 0 0 items) = .ok rows) :
    ∀ item ∈ items, ∃ row, body item = .ok row := by
  induction items generalizing rows with
  | nil => exact fun _ hin => absurd hin List.not_mem_nil
  | cons item rest ih =>
    unfold pump at h
    cases hbody : body item with
    | error error =>
      rw [hbody] at h
      cases h
    | ok row =>
      rw [hbody] at h
      suffices hrest : ∃ more, collect (pump body 0 0 rest) = .ok more by
        obtain ⟨more, hmore⟩ := hrest
        intro found hfound
        rcases List.mem_cons.1 hfound with rfl | hfound
        · exact ⟨row, hbody⟩
        · exact ih hmore found hfound
      cases row with
      | none => exact ⟨rows, h⟩
      | some row =>
        dsimp only at h
        rw [if_neg fun h => h.1 rfl, pump_zero] at h
        change (collect (pump body 0 0 rest)).map (row :: ·) = .ok rows at h
        cases hmore : collect (pump body 0 0 rest) with
        | error error =>
          rw [hmore] at h
          cases h
        | ok more => exact ⟨more, rfl⟩

end Generator

end MoDb.Query
