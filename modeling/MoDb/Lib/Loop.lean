import Mathlib.Logic.Relation

/-!
# Loops that run until they end

One turn of a loop ends it with a result or leaves a new state. `run turn n` makes at most `n` turns, and
is `none` where the loop has not ended by then.
-/

namespace Loop

variable {σ ρ : Type} {turn : σ → ρ ⊕ σ}

def run (turn : σ → ρ ⊕ σ) : Nat → σ → Option ρ
  | 0, _ => none
  | n + 1, state =>
    match turn state with
    | .inl result => some result
    | .inr next => run turn n next

theorem run_of_inl {state : σ} {result : ρ} (h : turn state = .inl result) (n : Nat) :
    run turn (n + 1) state = some result := by
  rw [run, h]

theorem run_of_inr {state next : σ} (h : turn state = .inr next) (n : Nat) :
    run turn (n + 1) state = run turn n next := by
  rw [run, h]

theorem run_mono {state : σ} {result : ρ} {n m : Nat} (h : run turn n state = some result)
    (hle : n ≤ m) : run turn m state = some result := by
  induction n generalizing state m with
  | zero => rw [run] at h; cases h
  | succ n ih =>
    obtain ⟨m, rfl⟩ := Nat.exists_eq_add_of_le' (Nat.le_trans (Nat.le_add_left 1 n) hle)
    cases hturn : turn state with
    | inl ended =>
      rw [run_of_inl hturn] at h ⊢
      exact h
    | inr next =>
      rw [run_of_inr hturn] at h ⊢
      exact ih h (Nat.le_of_succ_le_succ hle)

theorem run_ends (I : σ → Prop) (measure : σ → Nat)
    (hstep : ∀ state next, I state → turn state = .inr next → I next ∧ measure next < measure state)
    {state : σ} (h : I state) {n : Nat} (hn : measure state < n) :
    ∃ result last, run turn n state = some result ∧ I last ∧ turn last = .inl result := by
  induction n generalizing state with
  | zero => cases hn
  | succ n ih =>
    cases hturn : turn state with
    | inl result => exact ⟨result, state, run_of_inl hturn n, h, hturn⟩
    | inr next =>
      obtain ⟨hnext, hlt⟩ := hstep state next h hturn
      rw [run_of_inr hturn]
      exact ih hnext (Nat.lt_of_lt_of_le hlt (Nat.le_of_lt_succ hn))

def Steps (turn : σ → ρ ⊕ σ) : σ → σ → Prop :=
  Relation.ReflTransGen fun state next => turn state = .inr next

theorem steps_of_run {state : σ} {result : ρ} {n : Nat} (h : run turn n state = some result) :
    ∃ last, Steps turn state last ∧ turn last = .inl result := by
  induction n generalizing state with
  | zero => rw [run] at h; cases h
  | succ n ih =>
    cases hturn : turn state with
    | inl ended =>
      rw [run_of_inl hturn] at h
      exact ⟨state, .refl, hturn.trans (congrArg Sum.inl (Option.some.inj h))⟩
    | inr next =>
      rw [run_of_inr hturn] at h
      obtain ⟨last, hsteps, hlast⟩ := ih h
      exact ⟨last, .head hturn hsteps, hlast⟩

theorem run_of_steps {state last : σ} {result : ρ} (hsteps : Steps turn state last)
    (hlast : turn last = .inl result) : ∃ n, run turn n state = some result := by
  induction hsteps using Relation.ReflTransGen.head_induction_on with
  | refl => exact ⟨1, run_of_inl hlast 0⟩
  | head hturn _ ih =>
    obtain ⟨n, hn⟩ := ih
    exact ⟨n + 1, (run_of_inr hturn n).trans hn⟩

theorem run_eq_none {I : σ → Prop} (hstep : ∀ state, I state → ∃ next, turn state = .inr next ∧ I next)
    {state : σ} (h : I state) (n : Nat) : run turn n state = none := by
  induction n generalizing state with
  | zero => rfl
  | succ n ih =>
    obtain ⟨next, hturn, hnext⟩ := hstep state h
    rw [run_of_inr hturn]
    exact ih hnext

end Loop
