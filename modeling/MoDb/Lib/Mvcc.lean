import Mathlib.Logic.Function.Basic
import Mathlib.Data.List.Count

/-!
# Snapshots over two versions of each value

A store keeps for each key the value written last and the one before it, each with the epoch of its
write. One transaction writes at a time, with epochs after the published one, and a snapshot reads at
the epoch that was published when it was opened.

Two versions are enough when a write finds no open snapshot that needs the version it drops, and a
snapshot opened during a transaction finds no value that it has written twice (`Once`).
-/

namespace Mvcc

variable {K V : Type}

/-- What is kept for a key. `current` is `none` once the key is removed. -/
@[ext]
structure Cell (V : Type) where
  current : Option V
  since : Nat
  previous : Option (V × Nat) := none

namespace Cell

def readAt (cell : Cell V) (epoch : Nat) : Option V :=
  if cell.since ≤ epoch then cell.current
  else cell.previous.bind fun version => if version.2 ≤ epoch then some version.1 else none

/-- The cell after a write: the current version becomes the previous one. -/
def write (cell : Option (Cell V)) (value : Option V) (epoch : Nat) : Cell V where
  current := value
  since := epoch
  previous := cell.bind fun cell => cell.current.map fun old => (old, cell.since)

def Spares (cell : Cell V) (epoch : Nat) : Prop := cell.since ≤ epoch ∨ cell.previous = none

end Cell

abbrev Cells (K V : Type) := K → Option (Cell V)

def Cells.readAt (cells : Cells K V) (epoch : Nat) (k : K) : Option V := (cells k).bind (·.readAt epoch)

def Cells.now (cells : Cells K V) (k : K) : Option V := (cells k).bind (·.current)

theorem readAt_of_since_le {cells : Cells K V} {epoch : Nat}
    (h : ∀ {k cell}, cells k = some cell → cell.since ≤ epoch) : cells.readAt epoch = cells.now := by
  funext k
  unfold Cells.readAt Cells.now
  cases hcell : cells k with
  | none => rfl
  | some cell => exact if_pos (h hcell)

/-- The committed values: for each commit its epoch and what every key held then, the last commit
first. -/
abbrev History (K V : Type) := List (Nat × (K → Option V))

def History.viewAt : History K V → Nat → K → Option V
  | [], _ => fun _ => none
  | (committed, view) :: rest, epoch => if committed ≤ epoch then view else History.viewAt rest epoch

/-- `pending` is what the running transaction has made of the values. -/
structure State (K V : Type) where
  cells : Cells K V
  saved : Cells K V
  published : Nat
  stamp : Nat
  snapshots : List Nat
  written : List K
  pending : K → Option V
  history : History K V

namespace State

def initial (published : Nat) : State K V where
  cells := fun _ => none
  saved := fun _ => none
  published := published
  stamp := published + 1
  snapshots := []
  written := []
  pending := fun _ => none
  history := []

section Actions

variable [DecidableEq K] (state : State K V)

def write (k : K) (value : Option V) : State K V :=
  { state with
    cells := Function.update state.cells k (some (Cell.write (state.cells k) value state.stamp))
    written := k :: state.written
    pending := Function.update state.pending k value }

def clear (k : K) (cell : Cell V) : State K V :=
  { state with cells := Function.update state.cells k (some { cell with previous := none }) }

def commit : State K V :=
  { state with
    saved := state.cells
    published := state.stamp
    stamp := state.stamp + 1
    written := []
    history := (state.stamp, state.pending) :: state.history }

/-- The values of the last commit come back. The published epoch may rise over epochs that no commit
has used. -/
def abort (epoch : Nat) : State K V :=
  { state with
    cells := state.saved
    published := epoch
    stamp := epoch + 1
    written := []
    pending := History.viewAt state.history epoch }

end Actions

end State

/-- `opens` are the states in which a snapshot may be opened. -/
inductive Step [DecidableEq K] (opens : State K V → Prop) : State K V → State K V → Prop
  | write (state : State K V) (k : K) (value : Option V)
      (hspare : ∀ cell, state.cells k = some cell → ∀ epoch ∈ state.snapshots, cell.Spares epoch) :
      Step opens state (state.write k value)
  | clear (state : State K V) (k : K) (cell : Cell V) (hcell : state.cells k = some cell)
      (hidle : k ∉ state.written) (hspare : ∀ epoch ∈ state.snapshots, cell.since ≤ epoch) :
      Step opens state (state.clear k cell)
  | commit (state : State K V) : Step opens state state.commit
  | abort (state : State K V) (epoch : Nat) (hepoch : state.published ≤ epoch) :
      Step opens state (state.abort epoch)
  /-- A commit that failed keeps its epoch. -/
  | skip (state : State K V) : Step opens state { state with stamp := state.stamp + 1 }
  | opened (state : State K V) (hopens : opens state) :
      Step opens state { state with snapshots := state.published :: state.snapshots }
  | shared (state : State K V) (epoch : Nat) (hopen : epoch ∈ state.snapshots) :
      Step opens state { state with snapshots := epoch :: state.snapshots }
  | closed (state : State K V) (epoch : Nat) :
      Step opens state { state with snapshots := state.snapshots.erase epoch }
  | restart (state : State K V) (epoch : Nat) (hepoch : state.published ≤ epoch) :
      Step opens state { state.abort epoch with snapshots := [] }

def State.Once [DecidableEq K] (state : State K V) : Prop :=
  ∀ k, 1 < state.written.count k → History.viewAt state.history state.published k = none

/-- What holds in every state that is reached, whenever snapshots are opened. -/
structure WellFormed [DecidableEq K] (state : State K V) : Prop where
  published_lt : state.published < state.stamp
  snapshots_le : ∀ epoch ∈ state.snapshots, epoch ≤ state.published
  since_le : ∀ {k cell}, state.cells k = some cell → cell.since ≤ state.stamp
  since_of_not_written : ∀ {k cell}, k ∉ state.written → state.cells k = some cell →
    cell.since ≤ state.published
  now_eq : state.cells.now = state.pending
  saved_since : ∀ {k cell}, state.saved k = some cell → cell.since ≤ state.published
  saved_now : state.saved.now = History.viewAt state.history state.published
  viewAt_eq : ∀ epoch, state.published ≤ epoch →
    History.viewAt state.history epoch = History.viewAt state.history state.published

/-- What holds besides when snapshots are opened before a second write: they read what was
committed. -/
structure Inv [DecidableEq K] (state : State K V) : Prop extends WellFormed state where
  snapshots_at : ∀ epoch ∈ state.snapshots, state.cells.readAt epoch = History.viewAt state.history epoch
  published_at : ∀ k, (state.written.count k ≤ 1 ∨
    History.viewAt state.history state.published k = none) →
      state.cells.readAt state.published k = History.viewAt state.history state.published k
  saved_at : ∀ epoch ∈ state.snapshots, state.saved.readAt epoch = History.viewAt state.history epoch

section Steps

variable [DecidableEq K] {opens : State K V → Prop} {state state' : State K V}

theorem readAt_write {cells : Cells K V} {k : K} {value : Option V} {stamp epoch : Nat}
    (hepoch : epoch < stamp) (hspare : ∀ cell, cells k = some cell → cell.Spares epoch) :
    Cells.readAt (Function.update cells k (some (Cell.write (cells k) value stamp))) epoch =
      cells.readAt epoch := by
  funext k'
  unfold Cells.readAt
  by_cases hk : k' = k
  · rw [hk, Function.update_self]
    unfold Cell.write Cell.readAt
    rw [Option.bind_some, if_neg (Nat.not_le.2 hepoch)]
    cases hcell : cells k with
    | none => rfl
    | some cell =>
      rw [Option.bind_some, Option.bind_some]
      rcases hspare cell hcell with hsince | hprevious
      · rw [if_pos hsince]
        cases cell.current with
        | none => rfl
        | some old => exact if_pos hsince
      · by_cases hsince : cell.since ≤ epoch
        · rw [if_pos hsince]
          cases cell.current with
          | none => rfl
          | some old => exact if_pos hsince
        · rw [if_neg hsince, hprevious]
          cases cell.current with
          | none => rfl
          | some old => exact if_neg hsince
  · rw [Function.update_of_ne hk]

theorem readAt_of_write {cells : Cells K V} {k k' : K} {value : Option V} {stamp epoch : Nat} {v : V}
    (hepoch : epoch < stamp)
    (h : Cells.readAt (Function.update cells k (some (Cell.write (cells k) value stamp))) epoch k' =
      some v) : cells.readAt epoch k' = some v := by
  unfold Cells.readAt at h ⊢
  by_cases hk : k' = k
  · subst hk
    rw [Function.update_self, Option.bind_some] at h
    unfold Cell.write Cell.readAt at h
    rw [if_neg (Nat.not_le.2 hepoch)] at h
    obtain ⟨version, hversion, hv⟩ := Option.bind_eq_some_iff.1 h
    obtain ⟨cell, hcell, hcurrent⟩ := Option.bind_eq_some_iff.1 hversion
    obtain ⟨old, hold, rfl⟩ := Option.map_eq_some_iff.1 hcurrent
    rw [hcell, Option.bind_some]
    unfold Cell.readAt
    by_cases hsince : cell.since ≤ epoch
    · rw [if_pos hsince] at hv ⊢
      rw [hold, hv]
    · rw [if_neg hsince] at hv
      cases hv
  · rw [Function.update_of_ne hk] at h
    exact h

theorem readAt_write_of_none {cells : Cells K V} {k : K} {value : Option V} {stamp epoch : Nat}
    (hepoch : epoch < stamp) (hnone : cells.readAt epoch k = none) :
    Cells.readAt (Function.update cells k (some (Cell.write (cells k) value stamp))) epoch k =
      none := by
  apply Option.eq_none_iff_forall_not_mem.2
  intro v hv
  rw [readAt_of_write hepoch hv] at hnone
  cases hnone

theorem readAt_clear {cells : Cells K V} {k : K} {cell : Cell V} {epoch : Nat}
    (hcell : cells k = some cell) (hsince : cell.since ≤ epoch) :
    Cells.readAt (Function.update cells k (some { cell with previous := none })) epoch =
      cells.readAt epoch := by
  funext k'
  unfold Cells.readAt
  by_cases hk : k' = k
  · rw [hk, Function.update_self, hcell, Option.bind_some, Option.bind_some]
    unfold Cell.readAt
    rw [if_pos hsince, if_pos hsince]
  · rw [Function.update_of_ne hk]

theorem since_of_clear {cells : Cells K V} {k k' : K} {cell cell' : Cell V} {epoch : Nat}
    (hcell : cells k = some cell) (hsince : ∀ {k cell}, cells k = some cell → cell.since ≤ epoch)
    (hcell' : Function.update cells k (some { cell with previous := none }) k' = some cell') :
    cell'.since ≤ epoch := by
  by_cases hk : k' = k
  · rw [hk, Function.update_self] at hcell'
    have hle : cell.since ≤ epoch := hsince hcell
    exact Option.some.inj hcell' ▸ hle
  · rw [Function.update_of_ne hk] at hcell'
    exact hsince hcell'

theorem now_update (cells : Cells K V) (k : K) (cell : Cell V) :
    Cells.now (Function.update cells k (some cell)) = Function.update cells.now k cell.current := by
  funext k'
  unfold Cells.now
  by_cases hk : k' = k
  · rw [hk, Function.update_self, Function.update_self]
    rfl
  · rw [Function.update_of_ne hk, Function.update_of_ne hk]

theorem WellFormed.initial (published : Nat) :
    WellFormed (State.initial published : State K V) where
  published_lt := Nat.lt_succ_self published
  snapshots_le _ h := absurd h List.not_mem_nil
  since_le h := by cases h
  since_of_not_written _ h := by cases h
  now_eq := rfl
  saved_since h := by cases h
  saved_now := rfl
  viewAt_eq _ _ := rfl

theorem WellFormed.write (h : WellFormed state) (k : K) (value : Option V) :
    WellFormed (state.write k value) where
  published_lt := h.published_lt
  snapshots_le := h.snapshots_le
  since_le := by
    intro k' cell hcell
    change Function.update state.cells k _ k' = some cell at hcell
    by_cases hk : k' = k
    · rw [hk, Function.update_self] at hcell
      exact Option.some.inj hcell ▸ Nat.le_refl _
    · rw [Function.update_of_ne hk] at hcell
      exact h.since_le hcell
  since_of_not_written := by
    intro k' cell hk' hcell
    obtain ⟨hne, hk'⟩ := not_or.1 fun hmem => hk' (List.mem_cons.2 hmem)
    change Function.update state.cells k _ k' = some cell at hcell
    rw [Function.update_of_ne hne] at hcell
    exact h.since_of_not_written hk' hcell
  now_eq := by
    change Cells.now (Function.update state.cells k _) = Function.update state.pending k value
    rw [now_update, h.now_eq]
    rfl
  saved_since := h.saved_since
  saved_now := h.saved_now
  viewAt_eq := h.viewAt_eq

theorem WellFormed.clear (h : WellFormed state) {k : K} {cell : Cell V}
    (hcell : state.cells k = some cell) (hidle : k ∉ state.written) :
    WellFormed (state.clear k cell) where
  published_lt := h.published_lt
  snapshots_le := h.snapshots_le
  since_le hcell' := since_of_clear hcell h.since_le hcell'
  since_of_not_written := by
    intro k' cell' hk' hcell'
    change Function.update state.cells k _ k' = some cell' at hcell'
    by_cases hk : k' = k
    · rw [hk, Function.update_self] at hcell'
      have hsince : cell.since ≤ state.published := h.since_of_not_written hidle hcell
      exact Option.some.inj hcell' ▸ hsince
    · rw [Function.update_of_ne hk] at hcell'
      exact h.since_of_not_written hk' hcell'
  now_eq := by
    change Cells.now (Function.update state.cells k _) = state.pending
    rw [now_update, ← h.now_eq]
    apply Function.update_eq_self_iff.2
    unfold Cells.now
    rw [hcell]
    rfl
  saved_since := h.saved_since
  saved_now := h.saved_now
  viewAt_eq := h.viewAt_eq

theorem WellFormed.commit (h : WellFormed state) : WellFormed state.commit where
  published_lt := Nat.lt_succ_self _
  snapshots_le epoch hepoch :=
    Nat.le_of_lt (Nat.lt_of_le_of_lt (h.snapshots_le epoch hepoch) h.published_lt)
  since_le hcell := Nat.le_succ_of_le (h.since_le hcell)
  since_of_not_written _ hcell := h.since_le hcell
  now_eq := h.now_eq
  saved_since hcell := h.since_le hcell
  saved_now := h.now_eq.trans (if_pos (Nat.le_refl _)).symm
  viewAt_eq epoch hepoch := by
    have hhead : ∀ epoch, state.stamp ≤ epoch →
        History.viewAt ((state.stamp, state.pending) :: state.history) epoch = state.pending :=
      fun epoch hle => if_pos hle
    exact (hhead epoch hepoch).trans (hhead state.stamp (Nat.le_refl _)).symm

theorem WellFormed.abort (h : WellFormed state) {epoch : Nat} (hepoch : state.published ≤ epoch) :
    WellFormed (state.abort epoch) where
  published_lt := Nat.lt_succ_self _
  snapshots_le opened hopened := Nat.le_trans (h.snapshots_le opened hopened) hepoch
  since_le hcell := Nat.le_succ_of_le (Nat.le_trans (h.saved_since hcell) hepoch)
  since_of_not_written _ hcell := Nat.le_trans (h.saved_since hcell) hepoch
  now_eq := h.saved_now.trans (h.viewAt_eq epoch hepoch).symm
  saved_since hcell := Nat.le_trans (h.saved_since hcell) hepoch
  saved_now := h.saved_now.trans (h.viewAt_eq epoch hepoch).symm
  viewAt_eq later hlater := (h.viewAt_eq later (Nat.le_trans hepoch hlater)).trans
    (h.viewAt_eq epoch hepoch).symm

theorem WellFormed.withSnapshots (h : WellFormed state) {snapshots : List Nat}
    (hsnapshots : ∀ epoch ∈ snapshots, epoch ∈ state.snapshots ∨ epoch = state.published) :
    WellFormed { state with snapshots := snapshots } :=
  { h with
    snapshots_le := by
      intro epoch hepoch
      rcases hsnapshots epoch hepoch with hopen | rfl
      · exact h.snapshots_le epoch hopen
      · exact Nat.le_refl _ }

theorem WellFormed.step (h : WellFormed state) (hstep : Step opens state state') :
    WellFormed state' := by
  cases hstep with
  | write k value _ => exact h.write k value
  | clear k cell hcell hidle _ => exact h.clear hcell hidle
  | commit => exact h.commit
  | abort epoch hepoch => exact h.abort hepoch
  | skip =>
    exact { h with
      published_lt := Nat.lt_succ_of_lt h.published_lt
      since_le := fun hcell => Nat.le_succ_of_le (h.since_le hcell) }
  | opened _ => exact h.withSnapshots fun epoch hepoch => (List.mem_cons.1 hepoch).symm
  | shared epoch hopen =>
    apply h.withSnapshots
    intro epoch' hepoch
    rcases List.mem_cons.1 hepoch with rfl | hepoch
    · exact .inl hopen
    · exact .inl hepoch
  | closed epoch => exact h.withSnapshots fun epoch' hepoch => .inl (List.mem_of_mem_erase hepoch)
  | restart epoch hepoch =>
    exact (h.abort hepoch).withSnapshots fun opened hopened => absurd hopened List.not_mem_nil

/-! ### Snapshots opened in time -/

theorem Inv.initial (published : Nat) : Inv (State.initial published : State K V) where
  toWellFormed := .initial published
  snapshots_at _ h := absurd h List.not_mem_nil
  published_at _ _ := rfl
  saved_at _ h := absurd h List.not_mem_nil

theorem Inv.write (h : Inv state) (k : K) (value : Option V)
    (hspare : ∀ cell, state.cells k = some cell → ∀ epoch ∈ state.snapshots, cell.Spares epoch) :
    Inv (state.write k value) where
  toWellFormed := h.toWellFormed.write k value
  snapshots_at := by
    intro epoch hepoch
    have hlt := Nat.lt_of_le_of_lt (h.snapshots_le epoch hepoch) h.published_lt
    exact (readAt_write hlt fun cell hcell => hspare cell hcell epoch hepoch).trans
      (h.snapshots_at epoch hepoch)
  published_at := by
    intro k' hk'
    change Cells.readAt (Function.update state.cells k _) state.published k' =
      History.viewAt state.history state.published k'
    change (k :: state.written).count k' ≤ 1 ∨
      History.viewAt state.history state.published k' = none at hk'
    by_cases heq : k' = k
    · subst heq
      rcases hk' with hcount | hnone
      · rw [List.count_cons_self] at hcount
        have hfresh : k' ∉ state.written := List.count_eq_zero.1 (by omega)
        rw [congrFun (readAt_write h.published_lt fun cell hcell =>
          .inl (h.since_of_not_written hfresh hcell)) k']
        exact h.published_at k' (.inl (by omega))
      · have hbefore := h.published_at k' (.inr hnone)
        rw [hnone] at hbefore ⊢
        exact readAt_write_of_none h.published_lt hbefore
    · rw [List.count_cons_of_ne (Ne.symm heq)] at hk'
      unfold Cells.readAt
      rw [Function.update_of_ne heq]
      exact h.published_at k' hk'
  saved_at := h.saved_at

theorem Inv.clear (h : Inv state) {k : K} {cell : Cell V} (hcell : state.cells k = some cell)
    (hidle : k ∉ state.written) (hspare : ∀ epoch ∈ state.snapshots, cell.since ≤ epoch) :
    Inv (state.clear k cell) where
  toWellFormed := h.toWellFormed.clear hcell hidle
  snapshots_at := fun epoch hepoch =>
    (readAt_clear hcell (hspare epoch hepoch)).trans (h.snapshots_at epoch hepoch)
  published_at := fun k' hk' =>
    (congrFun (readAt_clear hcell (h.since_of_not_written hidle hcell)) k').trans
      (h.published_at k' hk')
  saved_at := h.saved_at

theorem Inv.commit (h : Inv state) : Inv state.commit where
  toWellFormed := h.toWellFormed.commit
  snapshots_at epoch hepoch := by
    have hlt := Nat.lt_of_le_of_lt (h.snapshots_le epoch hepoch) h.published_lt
    exact (h.snapshots_at epoch hepoch).trans (if_neg (Nat.not_le.2 hlt)).symm
  published_at k _ := by
    have hview : History.viewAt state.commit.history state.commit.published = state.pending :=
      if_pos (Nat.le_refl _)
    rw [hview, ← h.now_eq]
    exact congrFun (readAt_of_since_le h.since_le) k
  saved_at epoch hepoch := by
    have hlt := Nat.lt_of_le_of_lt (h.snapshots_le epoch hepoch) h.published_lt
    exact (h.snapshots_at epoch hepoch).trans (if_neg (Nat.not_le.2 hlt)).symm

theorem Inv.abort (h : Inv state) {epoch : Nat} (hepoch : state.published ≤ epoch) :
    Inv (state.abort epoch) where
  toWellFormed := h.toWellFormed.abort hepoch
  snapshots_at := h.saved_at
  published_at k _ := by
    have hwell := h.toWellFormed.abort hepoch
    exact congrFun ((readAt_of_since_le hwell.saved_since).trans hwell.saved_now) k
  saved_at := h.saved_at

theorem Inv.withSnapshots (h : Inv state) {snapshots : List Nat}
    (hsnapshots : ∀ epoch ∈ snapshots,
      epoch ∈ state.snapshots ∨ epoch = state.published ∧ state.Once) :
    Inv { state with snapshots := snapshots } where
  toWellFormed := h.toWellFormed.withSnapshots fun epoch hepoch =>
    (hsnapshots epoch hepoch).imp_right And.left
  snapshots_at epoch hepoch := by
    rcases hsnapshots epoch hepoch with hopen | ⟨rfl, honce⟩
    · exact h.snapshots_at epoch hopen
    · funext k
      apply h.published_at k
      rcases Nat.lt_or_ge 1 (state.written.count k) with hcount | hcount
      · exact .inr (honce k hcount)
      · exact .inl hcount
  published_at := h.published_at
  saved_at epoch hepoch := by
    rcases hsnapshots epoch hepoch with hopen | ⟨rfl, -⟩
    · exact h.saved_at epoch hopen
    · exact (readAt_of_since_le h.saved_since).trans h.saved_now

theorem Inv.step (h : Inv state) (hstep : Step State.Once state state') : Inv state' := by
  cases hstep with
  | write k value hspare => exact h.write k value hspare
  | clear k cell hcell hidle hspare => exact h.clear hcell hidle hspare
  | commit => exact h.commit
  | abort epoch hepoch => exact h.abort hepoch
  | skip =>
    exact { h with
      published_lt := Nat.lt_succ_of_lt h.published_lt
      since_le := fun hcell => Nat.le_succ_of_le (h.since_le hcell) }
  | opened honce =>
    apply h.withSnapshots
    intro epoch hepoch
    rcases List.mem_cons.1 hepoch with rfl | hepoch
    · exact .inr ⟨rfl, honce⟩
    · exact .inl hepoch
  | shared epoch hopen =>
    apply h.withSnapshots
    intro epoch' hepoch
    rcases List.mem_cons.1 hepoch with rfl | hepoch
    · exact .inl hopen
    · exact .inl hepoch
  | closed epoch => exact h.withSnapshots fun epoch' hepoch => .inl (List.mem_of_mem_erase hepoch)
  | restart epoch hepoch =>
    exact (h.abort hepoch).withSnapshots fun opened hopened => absurd hopened List.not_mem_nil

/-- Steps one after the other. -/
inductive Steps (opens : State K V → Prop) : State K V → State K V → Prop
  | refl (state : State K V) : Steps opens state state
  | tail {state state' state'' : State K V} : Steps opens state state' →
      Step opens state' state'' → Steps opens state state''

theorem WellFormed.steps (h : WellFormed state) (hsteps : Steps opens state state') :
    WellFormed state' := by
  induction hsteps with
  | refl => exact h
  | tail _ hstep ih => exact ih.step hstep

theorem Inv.steps (h : Inv state) (hsteps : Steps State.Once state state') : Inv state' := by
  induction hsteps with
  | refl => exact h
  | tail _ hstep ih => exact ih.step hstep

theorem Steps.single (hstep : Step opens state state') : Steps opens state state' :=
  .tail (.refl state) hstep

theorem Steps.trans {state'' : State K V} (h : Steps opens state state')
    (h' : Steps opens state' state'') : Steps opens state state'' := by
  induction h' with
  | refl => exact h
  | tail _ hstep ih => exact .tail ih hstep

/-! ### Collections -/

/-- Previous versions are forgotten that no open snapshot needs. -/
inductive Clears (snapshots : List Nat) : Cells K V → Cells K V → Prop
  | refl (cells : Cells K V) : Clears snapshots cells cells
  | head {cells cells' : Cells K V} {k : K} {cell : Cell V} (hcell : cells k = some cell)
      (hspare : ∀ epoch ∈ snapshots, cell.since ≤ epoch)
      (h : Clears snapshots (Function.update cells k (some { cell with previous := none })) cells') :
      Clears snapshots cells cells'

namespace Clears

variable {snapshots : List Nat} {cells cells' : Cells K V}

theorem trans {cells'' : Cells K V} (h : Clears snapshots cells cells')
    (h' : Clears snapshots cells' cells'') : Clears snapshots cells cells'' := by
  induction h with
  | refl => exact h'
  | head hcell hspare _ ih => exact .head hcell hspare (ih h')

theorem now_eq (h : Clears snapshots cells cells') : cells'.now = cells.now := by
  induction h with
  | refl => rfl
  | head hcell _ _ ih =>
    rw [ih, now_update]
    apply Function.update_eq_self_iff.2
    unfold Cells.now
    rw [hcell]
    rfl

theorem readAt_eq (h : Clears snapshots cells cells') {epoch : Nat} (hepoch : epoch ∈ snapshots) :
    cells'.readAt epoch = cells.readAt epoch := by
  induction h with
  | refl => rfl
  | head hcell hspare _ ih => rw [ih, readAt_clear hcell (hspare epoch hepoch)]

theorem since_le (h : Clears snapshots cells cells') {epoch : Nat}
    (hsince : ∀ {k cell}, cells k = some cell → cell.since ≤ epoch) {k : K} {cell : Cell V}
    (hcell : cells' k = some cell) : cell.since ≤ epoch := by
  induction h with
  | refl => exact hsince hcell
  | head hfound _ _ ih =>
    apply ih _ hcell
    intro k' cell' hcell'
    exact since_of_clear hfound hsince hcell'

theorem steps (h : Clears snapshots cells cells') (hcells : state.cells = cells)
    (hsnapshots : state.snapshots = snapshots) (hidle : state.written = []) :
    Steps opens state { state with cells := cells' } := by
  induction h generalizing state with
  | refl =>
    subst hcells
    exact .refl state
  | @head cells cells' k cell hcell hspare _ ih =>
    subst hcells hsnapshots
    have hstep : Step opens state (state.clear k cell) :=
      .clear state k cell hcell (hidle ▸ List.not_mem_nil) hspare
    have hrest : Steps opens (state.clear k cell) { state.clear k cell with cells := cells' } :=
      ih rfl rfl hidle
    exact (Steps.single hstep).trans hrest

end Clears

end Steps

end Mvcc
