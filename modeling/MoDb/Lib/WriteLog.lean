import Mathlib.Logic.Function.Basic
import Mathlib.Data.List.Basic

/-!
# Logs of writes

A redo log is a list of writes, each a location with its new value, and replaying it performs them
in order over a total map.
-/

namespace WriteLog

variable {α β : Type*}

variable [DecidableEq α]

/-- Perform the writes of `log` over `m`, in order. -/
def replay (log : List (α × β)) (m : α → β) : α → β :=
  log.foldl (fun m write => Function.update m write.1 write.2) m

@[simp]
theorem replay_nil (m : α → β) : replay [] m = m := rfl

@[simp]
theorem replay_cons (a : α) (b : β) (log : List (α × β)) (m : α → β) :
    replay ((a, b) :: log) m = replay log (Function.update m a b) := rfl

end WriteLog
