import MoDb.Ops.Json

/-!
# The reader of JSON comes to an end

Every loop of the reader takes a byte in each round, so that as many rounds as there are bytes are enough,
whatever the text is; and every map it builds is in order.
-/

namespace MoDb.Ops

open Storage SortedSearch SortedEntries Format Effect
open Index (bytesLess)

def IsError (error : Option Error) : Prop := error ≠ none

/-- The reader of values with the property takes at least `least` bytes. -/
abbrev Moves {α : Type} (bound least : Nat) (P : α → Prop) (read : JsonReader α) : Prop :=
  Advances IsError bound least P read

variable {α β : Type} {bound least more : Nat} {P : α → Prop} {Q : β → Prop}

theorem moves_fail (why : String) : Moves bound least P (fail why) := fun _ _ _ => nofun

theorem moves_enough {loop : Nat → JsonReader α} (h : ∀ rounds, Moves rounds least P (loop rounds)) :
    Moves bound least P (enough loop) := fun c hc _ => h _ c hc (Nat.lt_succ_self _)

theorem rest_of_head? {c : Cursor UInt8} {byte : UInt8} (h : c.rest.head? = some byte) :
    c.rest = [byte] ++ c.rest.tail := by
  cases hrest : c.rest with
  | nil =>
    rw [hrest] at h
    contradiction
  | cons first rest =>
    rw [hrest] at h
    cases h
    rfl

theorem moves_advance {next : JsonReader β} {byte : UInt8} {c : Cursor UInt8} (hc : c.Within)
    (hbound : c.remaining < bound) (hhead : c.rest.head? = some byte) (hle : least ≤ more + 1)
    (hnext : Moves bound more Q next) :
    Outcome (fun value c' => Q value ∧ c.Ahead least c') (fun error _ => IsError error)
      ((do advance; next) c) := by
  have hwithin : (c.skip 1).Within := hc.skip (rest_of_head? hhead)
  have hleft : (c.skip 1).remaining < bound := by
    unfold Cursor.remaining Cursor.skip at *
    simp only at *
    omega
  change Outcome _ _ (next (c.skip 1))
  apply (hnext (c.skip 1) hwithin hleft).mono
  · rintro value c' ⟨hvalue, hbytes, hposition, hwithin'⟩
    refine ⟨hvalue, hbytes, ?_, hwithin'⟩
    change c.position + 1 + more ≤ _ at hposition
    omega
  · exact fun _ _ herror => herror

theorem moves_onByte {byte : UInt8} {yes no : JsonReader β} (hyes : Moves bound 0 Q yes)
    (hno : Moves bound 0 Q no) : Moves bound 0 Q (onByte byte yes no) := by
  intro c hc hbound
  change Outcome _ _ ((if c.rest.head? = some byte then do advance; yes else no : JsonReader β) c)
  by_cases hhead : c.rest.head? = some byte
  · rw [if_pos hhead]
    exact moves_advance hc hbound hhead (Nat.zero_le _) hyes
  · rw [if_neg hhead]
    exact hno c hc hbound

theorem moves_takeByte (why : String) : Moves bound 1 (fun _ => True) (takeByte why) := by
  intro c hc _
  unfold takeByte
  cases hhead : c.rest.head? with
  | none => exact nofun
  | some byte => exact ⟨trivial, rfl, Nat.le_refl _, hc.skip (rest_of_head? hhead)⟩

theorem moves_skipSpaces : Moves bound 0 (fun _ => True) skipSpaces := by
  intro c hc _
  have hrest : c.rest = c.rest.takeWhile isSpace ++ c.rest.dropWhile isSpace :=
    List.takeWhile_append_dropWhile.symm
  exact ⟨trivial, rfl, Nat.le_add_right _ _, hc.skip hrest⟩

/-! ### Texts -/

theorem moves_word (text : Bytes) : Moves bound 0 (fun _ => True) (word text) := by
  intro c hc _
  unfold word
  split
  · rename_i htext
    have hrest : c.rest = text ++ c.rest.drop text.length := by
      conv => lhs; rw [← List.take_append_drop text.length c.rest, htext]
    exact ⟨trivial, rfl, Nat.le_add_right _ _, hc.skip hrest⟩
  · exact ⟨trivial, rfl, Nat.le_refl _, hc⟩

theorem moves_hex4 : Moves bound 0 (fun _ => True) hex4 := by
  intro c hc _
  unfold hex4
  split
  · exact nofun
  · rename_i hfour
    split
    · exact nofun
    · have hlength : (c.rest.take 4).length = 4 := by
        rw [List.length_take, Cursor.length_rest]
        omega
      have hwithin := hc.skip (List.take_append_drop 4 c.rest).symm
      rw [hlength] at hwithin
      exact ⟨trivial, rfl, Nat.le_add_right _ _, hwithin⟩

theorem moves_unicode : Moves bound 0 (fun _ => True) unicode := by
  refine moves_hex4.andThen fun cp _ => ?_
  split
  · refine (moves_word _).andThen fun pair _ => ?_
    split
    · refine moves_hex4.andThen fun low _ => ?_
      split
      · exact moves_fail _
      · exact .pure trivial
    · exact .pure trivial
  · exact .pure trivial

theorem moves_escape (letter : UInt8) : Moves bound 0 (fun _ => True) (escape letter) := by
  unfold escape
  repeat' split
  all_goals first | exact .pure trivial | exact moves_unicode | exact moves_fail _

theorem moves_stringLoop (rounds : Nat) (out : Bytes) :
    Moves rounds 0 (fun _ => True) (stringLoop rounds out) := by
  induction rounds generalizing out with
  | zero => exact fun c _ hbound => absurd hbound (Nat.not_lt_zero _)
  | succ rounds ih =>
    have hmoves : Moves (rounds + 1) (1 + 0) (fun _ => True) (stringLoop (rounds + 1) out) := by
      refine (moves_takeByte _).bind fun byte _ => ?_
      split
      · exact .pure trivial
      · split
        · exact moves_fail _
        · split
          · exact ih _
          · refine ((moves_takeByte _).weaken (Nat.zero_le _) fun _ h => h).andThen fun letter _ => ?_
            exact (moves_escape letter).andThen fun bytes _ => ih _
    exact hmoves.weaken (Nat.zero_le _) fun _ h => h

theorem moves_string {byte : UInt8} {c : Cursor UInt8} (hc : c.Within)
    (hhead : c.rest.head? = some byte) :
    Outcome (fun _ c' => c.Ahead 1 c') (fun error _ => IsError error) (string c) := by
  apply (moves_advance hc (Nat.lt_succ_self _) hhead (Nat.le_refl 1)
    (moves_enough fun rounds => moves_stringLoop rounds [])).mono
  · exact fun _ _ h => h.2
  · exact fun _ _ herror => herror

/-! ### Numbers and words -/

theorem moves_number (reals : Reals) :
    Moves bound 1 (fun data => data.Throughout Data.InOrder) (number reals) := by
  intro c hc _
  unfold number
  split
  · exact nofun
  · rename_i htext
    split
    · rename_i data hdata
      have hprefix : ∃ more, c.rest = numberText c.rest ++ more := by
        unfold numberText
        split
        · rename_i hsign
          obtain ⟨rest, hrest⟩ : ∃ rest, c.rest = 45 :: rest := by
            cases h : c.rest with
            | nil =>
              rw [h] at hsign
              contradiction
            | cons first rest =>
              rw [h] at hsign
              cases hsign
              exact ⟨rest, rfl⟩
          refine ⟨rest.dropWhile isNumberByte, ?_⟩
          rw [hrest, List.tail_cons, List.cons_append, List.takeWhile_append_dropWhile]
        · exact ⟨_, List.takeWhile_append_dropWhile.symm⟩
      obtain ⟨more, hrest⟩ := hprefix
      have hpos : 1 ≤ (numberText c.rest).length := by
        rw [not_or] at htext
        exact List.length_pos_of_ne_nil htext.1
      refine ⟨?_, rfl, Nat.add_le_add_left hpos _, hc.skip hrest⟩
      have hscalar : (∃ number, data = .integer number) ∨ ∃ bits, data = .real bits := by
        unfold numberValue at hdata
        split at hdata
        · exact .inl ⟨_, (Option.some.inj hdata).symm⟩
        · split at hdata
          · split at hdata
            · exact .inr ⟨_, (Option.some.inj hdata).symm⟩
            · contradiction
          · contradiction
      rcases hscalar with ⟨number, rfl⟩ | ⟨bits, rfl⟩
      · exact trivial
      · exact trivial
    · exact nofun

theorem moves_word_or {text : Bytes} {data : Data} {next : JsonReader Data} {P : Data → Prop}
    (htext : 1 ≤ text.length) (hdata : P data) (hnext : Moves bound 1 P next) :
    Moves bound 1 P (do if ← word text then pure data else next) := by
  intro c hc hbound
  by_cases htaken : c.rest.take text.length = text
  · have hword : word text c = .ok true (c.skip text.length) := if_pos htaken
    have hrest : c.rest = text ++ c.rest.drop text.length := by
      conv => lhs; rw [← List.take_append_drop text.length c.rest, htaken]
    rw [bind_of_ok hword]
    exact ⟨hdata, rfl, Nat.add_le_add_left htext _, hc.skip hrest⟩
  · have hword : word text c = .ok false c := if_neg htaken
    rw [bind_of_ok hword]
    exact hnext c hc hbound

theorem moves_scalar (reals : Reals) :
    Moves bound 1 (fun data => data.Throughout Data.InOrder) (scalar reals) := by
  apply moves_word_or (by decide) trivial
  apply moves_word_or (by decide) trivial
  apply moves_word_or (by decide) trivial
  exact moves_number reals

/-! ### Lists and maps -/

section

variable {read : JsonReader Data}

theorem moves_arrayLoop (h : ∀ bound, Moves bound 1 (fun data => data.Throughout Data.InOrder) read)
    (rounds : Nat) {items : List Data} (hitems : ∀ item ∈ items, item.Throughout Data.InOrder) :
    Moves rounds 1 (fun data => data.Throughout Data.InOrder) (arrayLoop read rounds items) := by
  induction rounds generalizing items with
  | zero => exact fun c _ hbound => absurd hbound (Nat.not_lt_zero _)
  | succ rounds ih =>
    have hread : Moves (rounds + 1) (1 + 0) (fun data => data.Throughout Data.InOrder)
        (arrayLoop read (rounds + 1) items) := by
      refine (h (rounds + 1)).bind fun item hitem => moves_skipSpaces.andThen fun _ _ => ?_
      have hitems' : ∀ other ∈ items ++ [item], other.Throughout Data.InOrder := by
        intro other hother
        rcases List.mem_append.1 hother with hother | hother
        · exact hitems other hother
        · rwa [List.mem_singleton.1 hother]
      refine moves_onByte ((ih hitems').weaken (Nat.zero_le _) fun _ h => h) ?_
      refine moves_onByte ?_ (moves_fail _)
      exact .pure (Data.throughout_list.2 ⟨trivial, hitems'⟩)
    exact hread

theorem moves_array (h : ∀ bound, Moves bound 1 (fun data => data.Throughout Data.InOrder) read)
    {byte : UInt8} {c : Cursor UInt8} (hc : c.Within) (hhead : c.rest.head? = some byte) :
    Outcome (fun data c' => data.Throughout Data.InOrder ∧ c.Ahead 1 c') (fun error _ => IsError error)
      (array read c) := by
  refine moves_advance hc (Nat.lt_succ_self _) hhead (Nat.le_refl 1)
    (moves_skipSpaces.andThen fun _ _ => ?_)
  refine moves_onByte ?_ (moves_enough fun rounds => ?_)
  · exact .pure (Data.throughout_list.2 ⟨trivial, fun _ h => absurd h List.not_mem_nil⟩)
  · exact (moves_arrayLoop h rounds fun _ h => absurd h List.not_mem_nil).weaken (Nat.zero_le _)
      fun _ h => h

def EntriesInOrder (entries : Entries) : Prop :=
  Sorted bytesLess Prod.fst entries ∧ ∀ entry ∈ entries, entry.2.Throughout Data.InOrder

theorem EntriesInOrder.insertOrAssign {entries : Entries} (h : EntriesInOrder entries) (key : Bytes)
    {item : Data} (hitem : item.Throughout Data.InOrder) :
    EntriesInOrder (insertOrAssign bytesLess key item entries) := by
  refine ⟨sorted_insertOrAssign bytesLess_order h.1, fun entry hentry => ?_⟩
  rcases mem_insertOrAssign hentry with rfl | hentry
  · exact hitem
  · exact h.2 entry hentry

theorem moves_fieldName : Moves bound 0 (fun _ => True) fieldName := by
  refine moves_skipSpaces.andThen fun _ _ => ?_
  intro c hc hbound
  change Outcome _ _ ((if c.rest.head? = some 34 then _ else _ : JsonReader Bytes) c)
  by_cases hhead : c.rest.head? = some 34
  · rw [if_pos hhead]
    apply (moves_string hc hhead).bind
    rintro key c' ⟨hbytes, hposition, hwithin⟩
    have hcolon : Moves (c'.remaining + 1) 0 (fun _ => True)
        (do skipSpaces; onByte 58 (pure key) (fail "expected ':'")) :=
      moves_skipSpaces.andThen fun _ _ =>
        moves_onByte (.pure trivial) (moves_fail _)
    apply (hcolon c' hwithin (Nat.lt_succ_self _)).mono
    · rintro value c'' ⟨hvalue, hbytes', hposition', hwithin'⟩
      exact ⟨hvalue, hbytes'.trans hbytes, by omega, hwithin'⟩
    · exact fun _ _ herror => herror
  · rw [if_neg hhead]
    exact nofun

theorem moves_objectLoop (h : ∀ bound, Moves bound 1 (fun data => data.Throughout Data.InOrder) read)
    (rounds : Nat) {entries : Entries} (hentries : EntriesInOrder entries) :
    Moves rounds 1 (fun data => data.Throughout Data.InOrder) (objectLoop read rounds entries) := by
  induction rounds generalizing entries with
  | zero => exact fun c _ hbound => absurd hbound (Nat.not_lt_zero _)
  | succ rounds ih =>
    have hread : Moves (rounds + 1) (1 + 0) (fun data => data.Throughout Data.InOrder)
        (objectLoop read (rounds + 1) entries) := by
      refine moves_fieldName.andThen fun key _ => ?_
      refine (h (rounds + 1)).bind fun item hitem => moves_skipSpaces.andThen fun _ _ => ?_
      have hentries' := hentries.insertOrAssign key hitem
      refine moves_onByte ((ih hentries').weaken (Nat.zero_le _) fun _ h => h) ?_
      refine moves_onByte ?_ (moves_fail _)
      exact .pure (Data.throughout_map.2 hentries')
    exact hread

theorem moves_object (h : ∀ bound, Moves bound 1 (fun data => data.Throughout Data.InOrder) read)
    {byte : UInt8} {c : Cursor UInt8} (hc : c.Within) (hhead : c.rest.head? = some byte) :
    Outcome (fun data c' => data.Throughout Data.InOrder ∧ c.Ahead 1 c') (fun error _ => IsError error)
      (object read c) := by
  have hnil : EntriesInOrder [] := ⟨List.Pairwise.nil, fun _ h => absurd h List.not_mem_nil⟩
  refine moves_advance hc (Nat.lt_succ_self _) hhead (Nat.le_refl 1)
    (moves_skipSpaces.andThen fun _ _ => ?_)
  refine moves_onByte ?_ (moves_enough fun rounds => ?_)
  · exact .pure (Data.throughout_map.2 hnil)
  · exact (moves_objectLoop h rounds hnil).weaken (Nat.zero_le _) fun _ h => h

end

theorem moves_value (reals : Reals) (levels : Nat) :
    Moves bound 1 (fun data => data.Throughout Data.InOrder) (value reals levels) := by
  induction levels generalizing bound with
  | zero => exact moves_fail _
  | succ levels ih =>
    refine moves_skipSpaces.andThen fun _ _ => ?_
    intro c hc hbound
    have hpeek : peek c = .ok c.rest.head? c := rfl
    rw [bind_of_ok hpeek]
    cases hhead : c.rest.head? with
    | none => exact nofun
    | some byte =>
      change Outcome _ _ ((if byte = 123 then _ else _ : JsonReader Data) c)
      by_cases hmap : byte = 123
      · rw [if_pos hmap]
        exact moves_object (fun _ => ih) hc hhead
      · rw [if_neg hmap]
        by_cases hlist : byte = 91
        · rw [if_pos hlist]
          exact moves_array (fun _ => ih) hc hhead
        · rw [if_neg hlist]
          by_cases htext : byte = 34
          · rw [if_pos htext]
            exact (moves_string hc hhead).bind fun text c' hahead => ⟨trivial, hahead⟩
          · rw [if_neg htext]
            exact moves_scalar reals c hc hbound

theorem moves_document (reals : Reals) :
    Moves bound 1 (fun data => data.Throughout Data.InOrder) (document reals) := by
  intro c hc hbound
  apply (moves_value reals (valueMaxDepth + 1) c hc hbound).bind
  rintro data c' ⟨hdata, hbytes, hposition, hwithin⟩
  have hend : Moves (c'.remaining + 1) 0 (fun data => data.Throughout Data.InOrder)
      (do skipSpaces
          if (← peek) = none then pure data else fail "content after the value") := by
    refine moves_skipSpaces.andThen fun _ _ => ?_
    intro c hc _
    change Outcome _ _ ((if c.rest.head? = none then _ else _ : JsonReader Data) c)
    by_cases hhead : c.rest.head? = none
    · rw [if_pos hhead]
      exact ⟨hdata, rfl, Nat.le_refl _, hc⟩
    · rw [if_neg hhead]
      exact nofun
  apply (hend c' hwithin (Nat.lt_succ_self _)).mono
  · rintro value c'' ⟨hvalue, hbytes', hposition', hwithin'⟩
    exact ⟨hvalue, hbytes'.trans hbytes, by omega, hwithin'⟩
  · exact fun _ _ herror => herror

/-- `from_json`, up to what the type of maps knows; `none` where the rounds of a loop ran out. -/
def fromJsonData (reals : Reals) (text : Bytes) : Except (Option Error) Data :=
  match document reals ⟨text, 0⟩ with
  | .ok data _ => .ok data
  | .error error _ => .error error

theorem fromJsonData_inOrder {reals : Reals} {text : Bytes} {data : Data}
    (h : fromJsonData reals text = .ok data) : data.Throughout Data.InOrder := by
  have hmoves := @moves_document (text.length + 1) reals ⟨text, 0⟩ (Nat.zero_le _)
    (Nat.lt_succ_self _)
  unfold fromJsonData at h
  split at h
  · rename_i hrun
    cases h
    exact (hmoves.of_ok hrun).1
  · contradiction

/-- `from_json`. -/
def fromJson (reals : Reals) (text : Bytes) : Except (Option Error) Value :=
  match h : fromJsonData reals text with
  | .error error => .error error
  | .ok data => .ok ⟨data, fromJsonData_inOrder h⟩

end MoDb.Ops
