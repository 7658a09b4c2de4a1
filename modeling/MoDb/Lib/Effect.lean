/-!
# Actions that fail midway

An action reads and changes a state and may fail; what it did before failing stays done. `EStateM`
is that monad. The rules here carry a property of the state over a sequence of actions: `Keeps I`
says that an action leaves `I` true whether it returns or fails, and composes over `do`; `Returns Q`
says that every value it returns has the property `Q`.
-/

namespace Effect

variable {ε σ α β : Type}

def after : EStateM.Result ε σ α → σ
  | .ok _ state => state
  | .error _ state => state

@[simp]
theorem after_ok (value : α) (state : σ) :
    after (.ok value state : EStateM.Result ε σ α) = state := rfl

@[simp]
theorem after_error (error : ε) (state : σ) :
    after (.error error state : EStateM.Result ε σ α) = state := rfl

def isOk : EStateM.Result ε σ α → Bool
  | .ok _ _ => true
  | .error _ _ => false

section Run

variable (state : σ)

@[simp]
theorem pure_run (value : α) : (pure value : EStateM ε σ α) state = .ok value state := rfl

@[simp]
theorem throw_run (error : ε) : (throw error : EStateM ε σ α) state = .error error state := rfl

@[simp]
theorem modify_run (f : σ → σ) : (modify f : EStateM ε σ PUnit) state = .ok ⟨⟩ (f state) := rfl

@[simp]
theorem get_bind_run (next : σ → EStateM ε σ β) : (get >>= next) state = next state state := rfl

@[simp]
theorem pure_bind_run (value : α) (next : α → EStateM ε σ β) :
    (pure value >>= next) state = next value state := rfl

@[simp]
theorem throw_bind_run (error : ε) (next : α → EStateM ε σ β) :
    ((throw error : EStateM ε σ α) >>= next) state = .error error state := rfl

@[simp]
theorem modify_bind_run (f : σ → σ) (next : PUnit → EStateM ε σ β) :
    (modify f >>= next) state = next ⟨⟩ (f state) := rfl

@[simp]
theorem ite_run (condition : Prop) [Decidable condition] (yes no : EStateM ε σ α) :
    (if condition then yes else no) state = if condition then yes state else no state := by
  split <;> rfl

end Run

theorem bind_of_ok {action : EStateM ε σ α} {next : α → EStateM ε σ β} {state state' : σ} {value : α}
    (h : action state = .ok value state') : (action >>= next) state = next value state' := by
  change EStateM.bind action next state = _
  rw [EStateM.bind, h]

theorem bind_of_error {action : EStateM ε σ α} {next : α → EStateM ε σ β} {state state' : σ}
    {error : ε} (h : action state = .error error state') :
    (action >>= next) state = .error error state' := by
  change EStateM.bind action next state = _
  rw [EStateM.bind, h]

theorem except_mapM_eq_ok {f : α → Except ε β} {g : α → β} {list : List α}
    (h : ∀ value ∈ list, f value = .ok (g value)) : list.mapM f = .ok (list.map g) := by
  induction list with
  | nil => rfl
  | cons value rest ih =>
    rw [List.mapM_cons, h value List.mem_cons_self, ih fun other hother => h other (List.mem_cons_of_mem _ hother)]
    rfl

theorem bind_eq_error {action : EStateM ε σ α} {next : α → EStateM ε σ β} {state state' : σ}
    {error : ε} (h : (action >>= next) state = .error error state') :
    action state = .error error state' ∨
      ∃ value middle, action state = .ok value middle ∧ next value middle = .error error state' := by
  cases hrun : action state with
  | ok value middle =>
    rw [bind_of_ok hrun] at h
    exact .inr ⟨value, middle, rfl, h⟩
  | error error' middle =>
    rw [bind_of_error hrun] at h
    injection h with herror hstate
    rw [herror, hstate]
    exact .inl rfl

theorem bind_eq_ok {action : EStateM ε σ α} {next : α → EStateM ε σ β} {state state' : σ}
    {result : β} (h : (action >>= next) state = .ok result state') :
    ∃ value middle, action state = .ok value middle ∧ next value middle = .ok result state' := by
  cases hrun : action state with
  | ok value middle =>
    rw [bind_of_ok hrun] at h
    exact ⟨value, middle, rfl, h⟩
  | error error middle =>
    rw [bind_of_error hrun] at h
    injection h

theorem after_bind {I : σ → Prop} {action : EStateM ε σ α} {next : α → EStateM ε σ β} {state : σ}
    (haction : I (after (action state)))
    (hnext : ∀ value state', I state' → I (after (next value state'))) :
    I (after ((action >>= next) state)) := by
  cases hrun : action state with
  | ok value state' =>
    rw [bind_of_ok hrun]
    rw [hrun] at haction
    exact hnext value state' haction
  | error error state' =>
    rw [bind_of_error hrun]
    rw [hrun] at haction
    exact haction

theorem after_bind_pure (action : EStateM ε σ α) (value : β) (state : σ) :
    after ((action >>= fun _ => pure value) state) = after (action state) := by
  cases hrun : action state with
  | ok first state' =>
    rw [bind_of_ok hrun]
    rfl
  | error error state' =>
    rw [bind_of_error hrun]
    rfl

/-- Run `cleanup` if the action fails; what the cleanup returns is dropped, its effects are kept. -/
def onError (action : EStateM ε σ α) (cleanup : EStateM ε σ β) : EStateM ε σ α := fun state =>
  match action state with
  | .ok value state' => .ok value state'
  | .error error state' => .error error (after (cleanup state'))

/-! ### Outcomes -/

/-- `Q` of the value and the state if the run returned, `E` of the error and the state if not. -/
def Outcome (Q : α → σ → Prop) (E : ε → σ → Prop) : EStateM.Result ε σ α → Prop
  | .ok value state => Q value state
  | .error error state => E error state

namespace Outcome

variable {Q Q' : α → σ → Prop} {E E' : ε → σ → Prop} {R : β → σ → Prop} {state : σ}

@[simp]
theorem ok_iff {value : α} : Outcome Q E (.ok value state) ↔ Q value state := Iff.rfl

@[simp]
theorem error_iff {error : ε} : Outcome Q E (.error error state) ↔ E error state := Iff.rfl

theorem bind {action : EStateM ε σ α} {next : α → EStateM ε σ β} (h : Outcome Q E (action state))
    (hnext : ∀ value state', Q value state' → Outcome R E (next value state')) :
    Outcome R E ((action >>= next) state) := by
  cases hrun : action state with
  | ok value state' =>
    rw [bind_of_ok hrun]
    rw [hrun] at h
    exact hnext value state' h
  | error error state' =>
    rw [bind_of_error hrun]
    rw [hrun] at h
    exact h

theorem mono {result : EStateM.Result ε σ α} (h : Outcome Q E result)
    (hok : ∀ value state, Q value state → Q' value state)
    (herror : ∀ error state, E error state → E' error state) : Outcome Q' E' result := by
  cases result with
  | ok value state => exact hok value state h
  | error error state => exact herror error state h

theorem onError {action : EStateM ε σ α} {cleanup : EStateM ε σ β} (h : Outcome Q E (action state))
    (hcleanup : ∀ error state', E error state' → E' error (Effect.after (cleanup state'))) :
    Outcome Q E' (Effect.onError action cleanup state) := by
  unfold Effect.onError
  cases hrun : action state with
  | ok value state' =>
    rw [hrun] at h
    exact h
  | error error state' =>
    rw [hrun] at h
    exact hcleanup error state' h

theorem of_ok {result : EStateM.Result ε σ α} {value : α} (h : Outcome Q E result)
    (hrun : result = .ok value state) : Q value state := by
  rw [hrun] at h
  exact h

theorem of_error {result : EStateM.Result ε σ α} {error : ε} (h : Outcome Q E result)
    (hrun : result = .error error state) : E error state := by
  rw [hrun] at h
  exact h

end Outcome

/-- The action leaves `I` true, whether it returns or fails. -/
def Keeps (I : σ → Prop) (action : EStateM ε σ α) : Prop :=
  ∀ state, I state → I (after (action state))

theorem Keeps.bind {I : σ → Prop} {action : EStateM ε σ α} {next : α → EStateM ε σ β}
    (haction : Keeps I action) (hnext : ∀ value, Keeps I (next value)) :
    Keeps I (action >>= next) :=
  fun state h => after_bind (haction state h) hnext

def Returns (Q : α → Prop) (action : EStateM ε σ α) : Prop :=
  ∀ state value state', action state = .ok value state' → Q value

namespace Returns

variable {Q : β → Prop} {action : EStateM ε σ α} {next : α → EStateM ε σ β}

theorem bind {R : α → Prop} (haction : Returns R action)
    (hnext : ∀ value, R value → Returns Q (next value)) : Returns Q (action >>= next) := by
  intro state result state' h
  obtain ⟨value, middle, hfirst, hrest⟩ := bind_eq_ok h
  exact hnext value (haction state value middle hfirst) middle result state' hrest

theorem after (hnext : ∀ value, Returns Q (next value)) : Returns Q (action >>= next) :=
  bind (fun _ _ _ _ => trivial) fun value _ => hnext value

theorem pure {value : β} (h : Q value) : Returns Q (Pure.pure value : EStateM ε σ β) := by
  intro state result state' hrun
  injection hrun with hvalue
  exact hvalue ▸ h

end Returns

theorem except_bind_eq_ok {result : Except ε α} {next : α → Except ε β} {value : β}
    (h : (result >>= next) = .ok value) : ∃ first, result = .ok first ∧ next first = .ok value := by
  cases result with
  | error error => injection h
  | ok first => exact ⟨first, rfl, h⟩

end Effect
