import MoDb.Lib.Effect
import Mathlib.Data.List.Basic

/-!
# Formats

A reader takes a value off the front of a sequence of bytes, or fails. What a writer has written for a
value is read again if the reader takes exactly those bytes off for it, whatever comes after them. At
the end of a format a reader may also look at how much is left; there nothing may come after.
-/

namespace Wire

variable {B ε α β : Type}

abbrev Reader (B ε α : Type) := StateT (List B) (Except ε) α

/-- Whatever comes after them, the reader takes the bytes off for the value. -/
def Reads (read : Reader B ε α) (bytes : List B) (value : α) : Prop :=
  ∀ rest, read (bytes ++ rest) = .ok (value, rest)

/-- Where nothing comes after them, the reader takes the bytes off for the value. -/
def ReadsAll (read : Reader B ε α) (bytes : List B) (value : α) : Prop :=
  read bytes = .ok (value, [])

variable {read : Reader B ε α} {bytes bytes' : List B} {value : α}

theorem Reads.pure (value : α) : Reads (pure value : Reader B ε α) [] value := fun _ => rfl

theorem Reads.bind {next : α → Reader B ε β} {result : β} (h : Reads read bytes value)
    (hnext : Reads (next value) bytes' result) : Reads (read >>= next) (bytes ++ bytes') result := by
  intro rest
  have hread := h (bytes' ++ rest)
  rw [← List.append_assoc] at hread
  change (do let (a, s) ← read (bytes ++ bytes' ++ rest); next a s) = _
  rw [hread]
  exact hnext rest

theorem Reads.bind_pure {next : α → Reader B ε β} {result : β} (h : Reads read bytes value)
    (hnext : Reads (next value) [] result) : Reads (read >>= next) bytes result := by
  have hbind := h.bind hnext
  rwa [List.append_nil] at hbind

theorem Reads.readsAll (h : Reads read bytes value) : ReadsAll read bytes value := by
  have hread := h []
  rwa [List.append_nil] at hread

theorem Reads.bind_all {next : α → Reader B ε β} {result : β} (h : Reads read bytes value)
    (hnext : ReadsAll (next value) bytes' result) :
    ReadsAll (read >>= next) (bytes ++ bytes') result := by
  change (do let (a, s) ← read (bytes ++ bytes'); next a s) = _
  rw [h bytes']
  exact hnext

theorem ReadsAll.bind {next : α → Reader B ε β} {result : β} (h : ReadsAll read bytes value)
    (hnext : ReadsAll (next value) [] result) : ReadsAll (read >>= next) bytes result := by
  change (do let (a, s) ← read bytes; next a s) = _
  rw [show read bytes = .ok (value, []) from h]
  exact hnext

theorem ReadsAll.unique {other : α} (h : ReadsAll read bytes value) (hother : ReadsAll read bytes other) :
    value = other := by
  have heq := h.symm.trans hother
  injection heq with hpair
  injection hpair

def Rejects (read : Reader B ε α) (bytes : List B) : Prop := ∃ error, read bytes = .error error

theorem Rejects.not_readsAll (h : Rejects read bytes) (value : α) : ¬ReadsAll read bytes value := by
  obtain ⟨error, herror⟩ := h
  unfold ReadsAll
  rw [herror]
  exact nofun

theorem Reads.bind_rejects {next : α → Reader B ε β} (h : Reads read bytes value)
    (hnext : Rejects (next value) bytes') : Rejects (read >>= next) (bytes ++ bytes') := by
  obtain ⟨error, herror⟩ := hnext
  refine ⟨error, ?_⟩
  change (do let (a, s) ← read (bytes ++ bytes'); next a s) = _
  rw [h bytes']
  exact herror

theorem ReadsAll.pure (value : α) : ReadsAll (pure value : Reader B ε α) [] value := rfl

theorem Reads.map (f : α → β) (h : Reads read bytes value) : Reads (f <$> read) bytes (f value) := by
  intro rest
  change (do let (a, s) ← read (bytes ++ rest); Pure.pure (f a, s)) = _
  rw [h rest]
  rfl

theorem ReadsAll.map (f : α → β) (h : ReadsAll read bytes value) :
    ReadsAll (f <$> read) bytes (f value) := by
  change (do let (a, s) ← read bytes; Pure.pure (f a, s)) = _
  rw [show read bytes = .ok (value, []) from h]
  rfl

theorem Rejects.map (f : α → β) (h : Rejects read bytes) : Rejects (f <$> read) bytes := by
  obtain ⟨error, herror⟩ := h
  refine ⟨error, ?_⟩
  change (do let (a, s) ← read bytes; Pure.pure (f a, s)) = _
  rw [herror]
  rfl

/-! ### What is read -/

def Yields (read : Reader B ε α) (P : α → Prop) : Prop :=
  ∀ bytes value rest, read bytes = .ok (value, rest) → P value

theorem Yields.pure {P : α → Prop} (h : P value) : Yields (pure value : Reader B ε α) P := by
  intro bytes value' rest hread
  cases hread
  exact h

theorem Yields.throw {P : α → Prop} (error : ε) : Yields (throw error : Reader B ε α) P := by
  intro bytes value rest hread
  cases hread

theorem Yields.bind {P : α → Prop} {Q : β → Prop} {next : α → Reader B ε β} (h : Yields read P)
    (hnext : ∀ value, P value → Yields (next value) Q) : Yields (read >>= next) Q := by
  intro bytes value rest hread
  change (do let (a, s) ← read bytes; next a s) = _ at hread
  cases hfirst : read bytes with
  | error error =>
    rw [hfirst] at hread
    cases hread
  | ok first =>
    rw [hfirst] at hread
    exact hnext first.1 (h bytes first.1 first.2 hfirst) first.2 value rest hread

/-! ### The bytes that are taken -/

/-- Whatever the bytes are, the value that is read from them and the bytes that are taken off for it are
related. -/
def Parses (read : Reader B ε α) (P : List B → α → Prop) : Prop :=
  ∀ bytes value rest, read bytes = .ok (value, rest) → ∃ taken, bytes = taken ++ rest ∧ P taken value

theorem Parses.pure {P : List B → α → Prop} (h : P [] value) : Parses (pure value : Reader B ε α) P := by
  intro bytes value' rest hread
  cases hread
  exact ⟨[], rfl, h⟩

theorem Parses.throw {P : List B → α → Prop} (error : ε) : Parses (throw error : Reader B ε α) P := by
  intro bytes value rest hread
  cases hread

theorem Parses.bind {P : List B → α → Prop} {Q : List B → β → Prop} {next : α → Reader B ε β}
    (h : Parses read P)
    (hnext : ∀ taken value, P taken value → Parses (next value) fun more result => Q (taken ++ more) result) :
    Parses (read >>= next) Q := by
  intro bytes value rest hread
  change (do let (a, s) ← read bytes; next a s) = _ at hread
  obtain ⟨⟨first, left⟩, hfirst, hmore⟩ := Effect.except_bind_eq_ok hread
  obtain ⟨taken, rfl, htaken⟩ := h bytes first left hfirst
  obtain ⟨more, rfl, hresult⟩ := hnext taken first htaken left value rest hmore
  exact ⟨taken ++ more, (List.append_assoc _ _ _).symm, hresult⟩

theorem Parses.imp {P Q : List B → α → Prop} (h : Parses read P) (hPQ : ∀ taken value, P taken value → Q taken value) :
    Parses read Q := by
  intro bytes value rest hread
  obtain ⟨taken, hbytes, htaken⟩ := h bytes value rest hread
  exact ⟨taken, hbytes, hPQ taken value htaken⟩

theorem Parses.map {P : List B → β → Prop} (f : α → β) (h : Parses read fun taken value => P taken (f value)) :
    Parses (f <$> read) P := by
  intro bytes value rest hread
  change (do let (a, s) ← read bytes; Pure.pure (f a, s)) = _ at hread
  obtain ⟨⟨first, left⟩, hfirst, hdone⟩ := Effect.except_bind_eq_ok hread
  cases hdone
  exact h bytes first rest hfirst

/-! ### How much is left -/

def remaining : Reader B ε Nat := fun bytes => .ok (bytes.length, bytes)

theorem ReadsAll.remaining {next : Nat → Reader B ε α} (h : ReadsAll (next bytes.length) bytes value) :
    ReadsAll (remaining >>= next) bytes value := h

theorem Reads.remaining {next : Nat → Reader B ε α}
    (h : ∀ left, bytes.length ≤ left → Reads (next left) bytes value) :
    Reads (Wire.remaining >>= next) bytes value := by
  intro rest
  apply h
  rw [List.length_append]
  exact Nat.le_add_right _ _

/-- The next bytes; `fail` is told how many were asked for and how many are left. -/
def take (fail : Nat → Nat → ε) (size : Nat) : Reader B ε (List B) := fun bytes =>
  if bytes.length < size then .error (fail size bytes.length)
  else .ok (bytes.take size, bytes.drop size)

theorem reads_take (fail : Nat → Nat → ε) (bytes : List B) : Reads (take fail bytes.length) bytes bytes := by
  intro rest
  unfold take
  rw [if_neg (by rw [List.length_append]; omega), List.take_left, List.drop_left]

theorem parses_take (fail : Nat → Nat → ε) (size : Nat) :
    Parses (take fail size : Reader B ε (List B)) fun taken value => taken = value ∧ value.length = size := by
  intro bytes value rest hread
  unfold take at hread
  split at hread
  · cases hread
  · cases hread
    exact ⟨bytes.take size, (List.take_append_drop _ _).symm, rfl, List.length_take_of_le (Nat.not_lt.1 ‹_›)⟩

/-- As `take`, after a look at what is left. -/
def takeSized (error : ε) (fail : Nat → Nat → ε) (size : Nat) : Reader B ε (List B) := do
  let left ← remaining
  if left < size then throw error else take fail size

theorem reads_takeSized (error : ε) (fail : Nat → Nat → ε) (bytes : List B) :
    Reads (takeSized error fail bytes.length) bytes bytes := by
  intro rest
  change (if (bytes ++ rest).length < bytes.length then throw error else take fail bytes.length :
    Reader B ε (List B)) (bytes ++ rest) = _
  rw [if_neg (by rw [List.length_append]; omega)]
  exact reads_take fail bytes rest

/-! ### Lists -/

def readMany (read : Reader B ε α) : Nat → Reader B ε (List α)
  | 0 => pure []
  | count + 1 => do
    let value ← read
    let values ← readMany read count
    pure (value :: values)

def writeMany (write : α → Except ε (List B)) : List α → Except ε (List B)
  | [] => .ok []
  | value :: values => do
    let bytes ← write value
    let rest ← writeMany write values
    pure (bytes ++ rest)

theorem yields_readMany {P : α → Prop} (h : Yields read P) (count : Nat) :
    Yields (readMany read count) fun values => values.length = count ∧ ∀ value ∈ values, P value := by
  induction count with
  | zero => exact .pure ⟨rfl, nofun⟩
  | succ count ih =>
    refine h.bind fun value hvalue => ih.bind fun values hread => ?_
    obtain ⟨hcount, hvalues⟩ := hread
    exact .pure ⟨congrArg (· + 1) hcount, List.forall_mem_cons.2 ⟨hvalue, hvalues⟩⟩

theorem reads_readMany {write : α → Except ε (List B)} {values : List α}
    (h : ∀ value ∈ values, ∀ bytes, write value = .ok bytes → Reads read bytes value)
    (hwrite : writeMany write values = .ok bytes) : Reads (readMany read values.length) bytes values := by
  induction values generalizing bytes with
  | nil =>
    cases hwrite
    exact .pure []
  | cons value values ih =>
    obtain ⟨first, hfirst, hmore⟩ := Effect.except_bind_eq_ok hwrite
    obtain ⟨rest, hrest, hdone⟩ := Effect.except_bind_eq_ok hmore
    cases hdone
    apply (h value List.mem_cons_self first hfirst).bind
    exact (ih (fun other hother => h other (List.mem_cons_of_mem _ hother)) hrest).bind_pure (.pure _)

theorem parses_readMany {write : α → Except ε (List B)} (h : Parses read fun taken value => write value = .ok taken)
    (count : Nat) :
    Parses (readMany read count) fun taken values => writeMany write values = .ok taken ∧ values.length = count := by
  induction count with
  | zero => exact .pure ⟨rfl, rfl⟩
  | succ count ih =>
    refine h.bind fun taken value hvalue => ih.bind fun more values hvalues => .pure ⟨?_, ?_⟩
    · unfold writeMany
      rw [hvalue, hvalues.1, List.append_nil]
      rfl
    · exact congrArg (· + 1) hvalues.2

theorem reads_readMany_flatMap {write : α → List B} {values : List α}
    (h : ∀ value ∈ values, Reads read (write value) value) :
    Reads (readMany read values.length) (values.flatMap write) values := by
  induction values with
  | nil => exact .pure []
  | cons value values ih =>
    apply (h value List.mem_cons_self).bind
    exact (ih fun other hother => h other (List.mem_cons_of_mem _ hother)).bind_pure (.pure _)

theorem length_flatMap {write : α → List B} {size : Nat} (h : ∀ value, (write value).length = size)
    (values : List α) : (values.flatMap write).length = values.length * size := by
  induction values with
  | nil => rw [List.flatMap_nil, List.length_nil, List.length_nil, Nat.zero_mul]
  | cons value values ih =>
    rw [List.flatMap_cons, List.length_append, h, ih, List.length_cons, Nat.succ_mul, Nat.add_comm]

end Wire
