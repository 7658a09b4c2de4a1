import Mathlib.Data.List.Nodup
import Mathlib.Data.List.Basic

/-!
# Linked chains

The links of a chain are a partial function. `Path next start l stop` says that following `next`
from `start` visits the members of `l` in their order and is then at `stop`; a chain that ends is a
path to `none`.
-/

namespace Chain

variable {α : Type}

def Path (next : α → Option α) : Option α → List α → Option α → Prop
  | start, [], stop => start = stop
  | start, a :: l, stop => start = some a ∧ Path next (next a) l stop

variable {next next' : α → Option α} {start stop : Option α} {l l' : List α} {a b : α}

@[simp]
theorem path_nil : Path next start [] stop ↔ start = stop := Iff.rfl

@[simp]
theorem path_cons : Path next start (a :: l) stop ↔ start = some a ∧ Path next (next a) l stop :=
  Iff.rfl

theorem path_append :
    Path next start (l ++ l') stop ↔ ∃ middle, Path next start l middle ∧ Path next middle l' stop := by
  induction l generalizing start with
  | nil => simp
  | cons a l ih =>
    rw [List.cons_append, path_cons, ih]
    constructor
    · rintro ⟨hstart, middle, hfirst, hrest⟩
      exact ⟨middle, ⟨hstart, hfirst⟩, hrest⟩
    · rintro ⟨middle, ⟨hstart, hfirst⟩, hrest⟩
      exact ⟨hstart, middle, hfirst, hrest⟩

theorem Path.congr (h : Path next start l stop) (hagree : ∀ a ∈ l, next' a = next a) :
    Path next' start l stop := by
  induction l generalizing start with
  | nil => exact h
  | cons a l ih =>
    refine ⟨h.1, ?_⟩
    rw [hagree a List.mem_cons_self]
    exact ih h.2 fun b hb => hagree b (List.mem_cons_of_mem a hb)

theorem Path.head?_eq (h : Path next start l none) : start = l.head? := by
  cases l with
  | nil => exact h
  | cons a l => exact h.1

theorem Path.unique (h : Path next start l none) (h' : Path next start l' none) : l = l' := by
  induction l generalizing start l' with
  | nil =>
    cases l' with
    | nil => rfl
    | cons a l' => exact absurd (h.symm.trans h'.1) (by simp)
  | cons a l ih =>
    cases l' with
    | nil => exact absurd (h'.symm.trans h.1) (by simp)
    | cons a' l' =>
      have heq : a = a' := Option.some.inj (h.1.symm.trans h'.1)
      subst heq
      rw [ih h.2 h'.2]

theorem Path.nodup (h : Path next start l none) : l.Nodup := by
  induction l generalizing start with
  | nil => exact List.nodup_nil
  | cons a l ih =>
    refine List.nodup_cons.2 ⟨?_, ih h.2⟩
    intro hmem
    obtain ⟨before, rest, rfl⟩ := List.append_of_mem hmem
    obtain ⟨middle, -, hagain⟩ := path_append.1 h.2
    have hsame : Path next (next a) (before ++ a :: rest) none := h.2
    have hlengths := congrArg List.length (hagain.2.unique hsame)
    simp only [List.length_append, List.length_cons] at hlengths
    omega

end Chain
