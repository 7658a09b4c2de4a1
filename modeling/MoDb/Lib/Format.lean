import MoDb.Lib.Wire

/-!
# Decoders and their formats

A decoder moves a cursor over a sequence of bytes. A format says which bytes stand for a value. The
decoder of a format takes off just the bytes of a value, wherever they stand and whatever follows them,
gives back no value that has not stood there, and never leaves the sequence, not even where it fails.
-/

namespace Format

variable {B ε α β : Type}

/-- A sequence of bytes and the position of the next read. -/
structure Cursor (B : Type) where
  bytes : List B
  position : Nat
  deriving DecidableEq, Repr

namespace Cursor

def rest (c : Cursor B) : List B := c.bytes.drop c.position

def remaining (c : Cursor B) : Nat := c.bytes.length - c.position

def skip (c : Cursor B) (size : Nat) : Cursor B := { c with position := c.position + size }

def Within (c : Cursor B) : Prop := c.position ≤ c.bytes.length

@[simp] theorem skip_zero (c : Cursor B) : c.skip 0 = c := rfl

@[simp] theorem bytes_skip (c : Cursor B) (size : Nat) : (c.skip size).bytes = c.bytes := rfl

theorem skip_skip (c : Cursor B) (m n : Nat) : (c.skip m).skip n = c.skip (m + n) := by
  simp [skip, Nat.add_assoc]

theorem length_rest (c : Cursor B) : c.rest.length = c.remaining := List.length_drop

theorem rest_skip (c : Cursor B) (size : Nat) : (c.skip size).rest = c.rest.drop size := by
  rw [rest, rest, List.drop_drop]
  rfl

theorem rest_skip_append {c : Cursor B} {bytes more : List B} (h : c.rest = bytes ++ more) :
    (c.skip bytes.length).rest = more := by
  rw [rest_skip, h, List.drop_left]

theorem Within.skip {c : Cursor B} (h : c.Within) {bytes more : List B}
    (hrest : c.rest = bytes ++ more) : (c.skip bytes.length).Within := by
  have hlength := congrArg List.length hrest
  rw [length_rest, List.length_append] at hlength
  unfold Within remaining at *
  change c.position + bytes.length ≤ c.bytes.length
  omega

end Cursor

abbrev Decoder (B ε α : Type) := EStateM ε (Cursor B) α

/-- The decoder is the one of the format. -/
structure Decodes (decode : Decoder B ε α) (format : α → List B → Prop) : Prop where
  /-- The bytes of a value are read. -/
  reads : ∀ {c value bytes more}, c.rest = bytes ++ more → format value bytes →
    decode c = .ok value (c.skip bytes.length)
  /-- What is read are the bytes of the value. -/
  only : ∀ {c value c'}, c.Within → decode c = .ok value c' →
    ∃ bytes more, format value bytes ∧ c.rest = bytes ++ more ∧ c' = c.skip bytes.length
  /-- A failure has read no further than the end. -/
  stays : ∀ {c error c'}, c.Within → decode c = .error error c' → c'.bytes = c.bytes ∧ c'.Within

variable {decode : Decoder B ε α} {format format' : α → List B → Prop}

theorem Decodes.congr (h : Decodes decode format)
    (hformat : ∀ value bytes, format value bytes ↔ format' value bytes) : Decodes decode format' where
  reads hrest hvalue := h.reads hrest ((hformat _ _).2 hvalue)
  only hc hread := by
    obtain ⟨bytes, more, hvalue, hrest, hend⟩ := h.only hc hread
    exact ⟨bytes, more, (hformat _ _).1 hvalue, hrest, hend⟩
  stays := h.stays

theorem Decodes.pure (value : α) :
    Decodes (pure value : Decoder B ε α) fun value' bytes => value' = value ∧ bytes = [] where
  reads := by
    rintro c value' bytes more - ⟨rfl, rfl⟩
    rfl
  only := by
    intro c value' c' _ hread
    cases hread
    exact ⟨[], c.rest, ⟨rfl, rfl⟩, rfl, rfl⟩
  stays := by
    intro c error c' _ hread
    cases hread

theorem Decodes.throw (error : ε) : Decodes (throw error : Decoder B ε α) fun _ _ => False where
  reads _ hfalse := hfalse.elim
  only _ hread := by cases hread
  stays hc hread := by
    cases hread
    exact ⟨rfl, hc⟩

theorem Decodes.bind {next : α → Decoder B ε β} {format' : α → β → List B → Prop}
    (h : Decodes decode format) (hnext : ∀ value, Decodes (next value) (format' value)) :
    Decodes (decode >>= next) fun result bytes => ∃ value first second,
      format value first ∧ format' value result second ∧ bytes = first ++ second where
  reads := by
    rintro c result bytes more hrest ⟨value, first, second, hfirst, hsecond, rfl⟩
    rw [List.append_assoc] at hrest
    change EStateM.bind decode next c = _
    rw [EStateM.bind, h.reads hrest hfirst]
    change next value (c.skip first.length) = _
    rw [(hnext value).reads (Cursor.rest_skip_append hrest) hsecond, Cursor.skip_skip,
      List.length_append]
  only := by
    intro c result c' hc hread
    change EStateM.bind decode next c = _ at hread
    rw [EStateM.bind] at hread
    cases hdecode : decode c with
    | error error c₁ =>
      rw [hdecode] at hread
      cases hread
    | ok value c₁ =>
      rw [hdecode] at hread
      obtain ⟨first, more, hfirst, hrest, rfl⟩ := h.only hc hdecode
      obtain ⟨second, more', hsecond, hrest', rfl⟩ :=
        (hnext value).only (hc.skip hrest) hread
      rw [Cursor.rest_skip_append hrest] at hrest'
      refine ⟨first ++ second, more', ⟨value, first, second, hfirst, hsecond, rfl⟩, ?_, ?_⟩
      · rw [hrest, hrest', List.append_assoc]
      · rw [Cursor.skip_skip, List.length_append]
  stays := by
    intro c error c' hc hread
    change EStateM.bind decode next c = _ at hread
    rw [EStateM.bind] at hread
    cases hdecode : decode c with
    | error error' c₁ =>
      rw [hdecode] at hread
      cases hread
      exact h.stays hc hdecode
    | ok value c₁ =>
      rw [hdecode] at hread
      obtain ⟨first, more, -, hrest, rfl⟩ := h.only hc hdecode
      have hstays := (hnext value).stays (hc.skip hrest) hread
      exact hstays

theorem Decodes.ite {condition : Prop} [Decidable condition] {decode' : Decoder B ε α}
    (h : condition → Decodes decode format) (h' : ¬condition → Decodes decode' format') :
    Decodes (if condition then decode else decode')
      fun value bytes => if condition then format value bytes else format' value bytes := by
  split
  · exact h ‹_›
  · exact h' ‹_›

/-! ### Bytes -/

/-- The next bytes; `fail` is told how many were asked for and how many are left. -/
def readBytes (fail : Nat → Nat → ε) (size : Nat) : Decoder B ε (List B) := fun c =>
  if c.remaining < size then .error (fail size c.remaining) c
  else .ok ((c.bytes.drop c.position).take size) (c.skip size)

theorem decodes_readBytes (fail : Nat → Nat → ε) (size : Nat) :
    Decodes (readBytes fail size : Decoder B ε (List B))
      fun value bytes => value = bytes ∧ bytes.length = size where
  reads := by
    rintro c value bytes more hrest ⟨rfl, rfl⟩
    have hlength := congrArg List.length hrest
    rw [Cursor.length_rest, List.length_append] at hlength
    rw [readBytes, if_neg (by omega)]
    change EStateM.Result.ok (c.rest.take value.length) _ = _
    rw [hrest, List.take_left]
  only := by
    intro c value c' _ hread
    unfold readBytes at hread
    split at hread
    · cases hread
    · rename_i hsize
      cases hread
      have hlength : (c.rest.take size).length = size := by
        rw [List.length_take, Cursor.length_rest]
        omega
      refine ⟨c.rest.take size, c.rest.drop size, ⟨rfl, hlength⟩, (List.take_append_drop _ _).symm, ?_⟩
      rw [hlength]
  stays := by
    intro c error c' hc hread
    unfold readBytes at hread
    split at hread
    · cases hread
      exact ⟨rfl, hc⟩
    · cases hread

/-! ### Readers -/

/-- From the same bytes the decoder and the reader get the same, up to `f`, and leave the same. -/
def Agrees (f : β → α) (decode : Decoder B ε α) (read : Wire.Reader B ε β) : Prop :=
  ∀ c, match read c.rest with
    | .ok (value, rest) => ∃ c', decode c = .ok (f value) c' ∧ c'.rest = rest
    | .error error => ∃ c', decode c = .error error c'

namespace Agrees

variable {γ δ : Type} {f : β → α} {g : δ → γ} {read : Wire.Reader B ε β} {next : α → Decoder B ε γ}
  {next' : β → Wire.Reader B ε δ}

theorem pure (value : β) : Agrees f (pure (f value) : Decoder B ε α) (pure value : Wire.Reader B ε β) :=
  fun c => ⟨c, rfl, rfl⟩

theorem throw (error : ε) : Agrees f (throw error : Decoder B ε α) (throw error : Wire.Reader B ε β) :=
  fun c => ⟨c, rfl⟩

theorem bind (h : Agrees f decode read)
    (hnext : ∀ bytes value rest, read bytes = .ok (value, rest) → Agrees g (next (f value)) (next' value)) :
    Agrees g (decode >>= next) (read >>= next') := by
  intro c
  have hread := h c
  change match (do let (value, rest) ← read c.rest; next' value rest) with
    | .ok (value, rest) => ∃ c', (decode >>= next) c = .ok (g value) c' ∧ c'.rest = rest
    | .error error => ∃ c', (decode >>= next) c = .error error c'
  cases hfirst : read c.rest with
  | error error =>
    rw [hfirst] at hread
    obtain ⟨c', hdecode⟩ := hread
    exact ⟨c', Effect.bind_of_error hdecode⟩
  | ok first =>
    rw [hfirst] at hread
    obtain ⟨c', hdecode, hrest⟩ := hread
    rw [Effect.bind_of_ok hdecode]
    change match next' first.1 first.2 with
      | .ok (value, rest) => ∃ c₁, next (f first.1) c' = .ok (g value) c₁ ∧ c₁.rest = rest
      | .error error => ∃ c₁, next (f first.1) c' = .error error c₁
    rw [← hrest]
    exact hnext c.rest first.1 first.2 hfirst c'

theorem take (fail : Nat → Nat → ε) (size : Nat) :
    Agrees id (readBytes fail size : Decoder B ε (List B)) (Wire.take fail size) := by
  intro c
  unfold Wire.take readBytes
  rw [Cursor.length_rest]
  split
  · rename_i hread
    split at hread
    · cases hread
    · rename_i hsize
      cases hread
      rw [if_neg hsize]
      exact ⟨_, rfl, Cursor.rest_skip c size⟩
  · rename_i hread
    split at hread
    · rename_i hsize
      cases hread
      rw [if_pos hsize]
      exact ⟨_, rfl⟩
    · cases hread

end Agrees

/-! ### The whole sequence -/

theorem Decodes.within (h : Decodes decode format) (bytes : List B) :
    (∃ value c, decode ⟨bytes, 0⟩ = .ok value c ∧ c.bytes = bytes ∧ c.Within) ∨
    (∃ error c, decode ⟨bytes, 0⟩ = .error error c ∧ c.bytes = bytes ∧ c.Within) := by
  have hstart : (⟨bytes, 0⟩ : Cursor B).Within := Nat.zero_le _
  cases hdecode : decode ⟨bytes, 0⟩ with
  | error error c => exact .inr ⟨error, c, rfl, h.stays hstart hdecode⟩
  | ok value c =>
    obtain ⟨first, more, -, hrest, rfl⟩ := h.only hstart hdecode
    exact .inl ⟨value, _, rfl, rfl, hstart.skip hrest⟩

def whole (decode : Decoder B ε α) (trailing : ε) : Decoder B ε α := do
  let value ← decode
  let c ← get
  if c.position = c.bytes.length then pure value else throw trailing

theorem whole_of_error {trailing error : ε} {c c' : Cursor B} (h : decode c = .error error c') :
    whole decode trailing c = .error error c' := by
  change EStateM.bind decode _ c = _
  rw [EStateM.bind, h]

theorem whole_of_ok {trailing : ε} {value : α} {c c' : Cursor B} (h : decode c = .ok value c') :
    whole decode trailing c =
      if c'.position = c'.bytes.length then .ok value c' else .error trailing c' := by
  change EStateM.bind decode _ c = _
  rw [EStateM.bind, h]
  change (if c'.position = c'.bytes.length then pure value else throw trailing : Decoder B ε α) c' = _
  split <;> rfl

theorem Decodes.whole_ok_iff (h : Decodes decode format) (trailing : ε) (bytes : List B) (value : α) :
    (∃ c, whole decode trailing ⟨bytes, 0⟩ = .ok value c) ↔ format value bytes := by
  constructor
  · rintro ⟨c, hread⟩
    cases hdecode : decode ⟨bytes, 0⟩ with
    | error error c' =>
      rw [whole_of_error hdecode] at hread
      cases hread
    | ok value' c' =>
      rw [whole_of_ok hdecode] at hread
      obtain ⟨first, more, hvalue, hrest, rfl⟩ := h.only (Nat.zero_le _) hdecode
      split at hread
      · rename_i hend
        cases hread
        obtain rfl : bytes = first ++ more := hrest
        have hmore : more = [] := by
          have hlength : 0 + first.length = (first ++ more).length := hend
          rw [List.length_append] at hlength
          exact List.length_eq_zero_iff.1 (by omega)
        rwa [hmore, List.append_nil]
      · cases hread
  · intro hvalue
    have hread : decode ⟨bytes, 0⟩ = .ok value (Cursor.skip ⟨bytes, 0⟩ bytes.length) :=
      h.reads (List.append_nil bytes).symm hvalue
    have hend : (Cursor.skip ⟨bytes, 0⟩ bytes.length).position = bytes.length := Nat.zero_add _
    exact ⟨_, (whole_of_ok hread).trans (if_pos hend)⟩

theorem Decodes.whole_within (h : Decodes decode format) (trailing : ε) (bytes : List B) :
    (∃ value c, whole decode trailing ⟨bytes, 0⟩ = .ok value c ∧ c.bytes = bytes ∧ c.Within) ∨
    (∃ error c, whole decode trailing ⟨bytes, 0⟩ = .error error c ∧ c.bytes = bytes ∧ c.Within) := by
  rcases h.within bytes with ⟨value, c, hdecode, hbytes, hwithin⟩ | ⟨error, c, hdecode, hstays⟩
  · rw [whole_of_ok hdecode]
    split
    · exact .inl ⟨value, c, rfl, hbytes, hwithin⟩
    · exact .inr ⟨trailing, c, rfl, hbytes, hwithin⟩
  · exact .inr ⟨error, c, whole_of_error hdecode, hstays⟩

/-! ### Many values -/

/-- `count` values one after another. -/
def readMany (read : Decoder B ε α) : Nat → Decoder B ε (List α)
  | 0 => pure []
  | count + 1 => do
    let value ← read
    let values ← readMany read count
    pure (value :: values)

theorem readMany_run {read : Decoder B ε α} {piece : β → List B} {Q : β → α → Prop} {c : Cursor B}
    {items : List β} {more : List B}
    (h : ∀ item ∈ items, ∀ c' more', c'.bytes = c.bytes → c'.Within → c'.rest = piece item ++ more' →
      ∃ value, read c' = .ok value (c'.skip (piece item).length) ∧ Q item value)
    (hc : c.Within) (hrest : c.rest = items.flatMap piece ++ more) :
    ∃ values, readMany read items.length c = .ok values (c.skip (items.flatMap piece).length) ∧
      List.Forall₂ Q items values := by
  induction items generalizing c with
  | nil => exact ⟨[], rfl, .nil⟩
  | cons item items ih =>
    rw [List.flatMap_cons, List.append_assoc] at hrest
    obtain ⟨value, hread, hvalue⟩ := h item List.mem_cons_self c _ rfl hc hrest
    obtain ⟨values, hreads, hvalues⟩ := @ih (c.skip (piece item).length)
      (fun item hitem => h item (List.mem_cons_of_mem _ hitem)) (hc.skip hrest)
      (Cursor.rest_skip_append hrest)
    refine ⟨value :: values, ?_, .cons hvalue hvalues⟩
    rw [Cursor.skip_skip, ← List.length_append] at hreads
    change EStateM.bind read _ c = _
    rw [EStateM.bind, hread]
    change EStateM.bind (readMany read items.length) _ _ = _
    rw [EStateM.bind, hreads]
    rfl

/-! ### Progress -/

/-- The same sequence, at least `least` bytes further. -/
def Cursor.Ahead (least : Nat) (c c' : Cursor B) : Prop :=
  c'.bytes = c.bytes ∧ c.position + least ≤ c'.position ∧ c'.Within

/-- With less than `bound` bytes left, what is read has the property and has taken at least `least` bytes,
and a failure is one of `E`. -/
def Advances (E : ε → Prop) (bound least : Nat) (P : α → Prop) (read : Decoder B ε α) : Prop :=
  ∀ c : Cursor B, c.Within → c.remaining < bound →
    Effect.Outcome (fun value c' => P value ∧ c.Ahead least c') (fun error _ => E error) (read c)

namespace Advances

variable {E : ε → Prop} {bound least more : Nat} {P : α → Prop} {Q : β → Prop} {read : Decoder B ε α}

theorem pure {value : α} (h : P value) : Advances E bound 0 P (pure value : Decoder B ε α) :=
  fun _ hc _ => ⟨h, rfl, Nat.le_refl _, hc⟩

theorem weaken {least' : Nat} {P' : α → Prop} (h : Advances E bound least P read) (hle : least' ≤ least)
    (hP : ∀ value, P value → P' value) : Advances E bound least' P' read := by
  intro c hc hbound
  apply (h c hc hbound).mono
  · rintro value c' ⟨hvalue, hbytes, hposition, hwithin⟩
    exact ⟨hP value hvalue, hbytes, Nat.le_trans (Nat.add_le_add_left hle _) hposition, hwithin⟩
  · exact fun _ _ herror => herror

theorem bind {next : α → Decoder B ε β} (h : Advances E (bound + least) least P read)
    (hnext : ∀ value, P value → Advances E bound more Q (next value)) :
    Advances E (bound + least) (least + more) Q (read >>= next) := by
  intro c hc hbound
  apply (h c hc hbound).bind
  rintro value c' ⟨hvalue, hbytes, hposition, hwithin⟩
  have hleft : c'.remaining < bound := by
    unfold Cursor.Within at hc hwithin
    unfold Cursor.remaining at hbound ⊢
    rw [hbytes] at hwithin ⊢
    omega
  apply (hnext value hvalue c' hwithin hleft).mono
  · rintro result c'' ⟨hresult, hbytes', hposition', hwithin'⟩
    refine ⟨hresult, hbytes'.trans hbytes, ?_, hwithin'⟩
    omega
  · exact fun _ _ herror => herror

theorem andThen {next : α → Decoder B ε β} (h : Advances E bound 0 P read)
    (hnext : ∀ value, P value → Advances E bound more Q (next value)) :
    Advances E bound more Q (read >>= next) := by
  have hbind : Advances E (bound + 0) (0 + more) Q (read >>= next) := bind h hnext
  rwa [Nat.zero_add] at hbind

end Advances

end Format
