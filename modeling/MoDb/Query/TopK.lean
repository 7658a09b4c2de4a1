import MoDb.Query.Operators
import MoDb.Lib.Ties

/-!
# The best rows

`top_k` keeps a heap of `k` rows where `sort` keeps all of them. The heap algorithms do not say which
of two rows that tie comes first, so the two operators agree where that is nothing to decide.
-/

namespace MoDb.Query

open Selection

namespace Generator

variable {α : Type}

def byKey : Order (Nat × Nat) where
  less a b := a.1 < b.1
  asymm h := by
    simp only [decide_eq_true_eq, decide_eq_false_iff_not] at h ⊢
    omega
  cotrans b h := by
    simp only [decide_eq_true_eq] at h ⊢
    omega

end Generator

end MoDb.Query
