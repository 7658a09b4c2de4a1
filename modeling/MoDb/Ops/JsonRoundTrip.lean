import MoDb.Ops.JsonText

/-!
# Values come back from JSON

A value without ids and without reals that are not finite is read back with the same kinds, and every text
is read to a value or to an error.
-/

namespace MoDb.Ops

open Storage SortedSearch SortedEntries Format Effect
open Index (bytesLess)

def Data.Printable : Data → Prop
  | .id _ => False
  | .real bits => isFinite bits = true
  | _ => True

/-! ### Words -/

theorem takes_word (text : Bytes) : Takes Anything (word text) text true := by
  intro c more hrest _
  have htake : c.rest.take text.length = text := by rw [hrest, List.take_left]
  exact if_pos htake

theorem takes_word_or {text : Bytes} {data : Data} {next : JsonReader Data} :
    Takes Anything (do if ← word text then pure data else next) text data := by
  intro c more hrest hmore
  rw [bind_of_ok (takes_word text c more hrest hmore)]
  rfl

theorem takes_word_or_of_ne {ends : Bytes → Prop} {text bytes : Bytes} {data value : Data}
    {next : JsonReader Data} {first other : UInt8} (htext : text.head? = some first) (hne : other ≠ first)
    (h : Takes ends next (other :: bytes) value) :
    Takes ends (do if ← word text then pure data else next) (other :: bytes) value := by
  intro c more hrest hmore
  have htake : ¬c.rest.take text.length = text := by
    obtain ⟨rest, rfl⟩ : ∃ rest, text = first :: rest := by
      cases text with
      | nil => contradiction
      | cons head rest => exact ⟨rest, by rw [Option.some.inj htext]⟩
    rw [hrest]
    exact fun heq => hne (List.cons.inj heq).1
  have hword : word text c = .ok false c := if_neg htake
  rw [bind_of_ok hword]
  exact h c more hrest hmore

theorem takes_scalar_number {reals : Reals} {text : Bytes} {data : Data} (h : NumberShape text)
    (hvalue : numberValue reals text = some data) : Takes NumberEnds (scalar reals) text data := by
  have hnumber := h.takes_number hvalue
  obtain ⟨byte, rest, rfl, hbyte⟩ := h.head
  have hne : ∀ first : UInt8, isNumberByte first = false → byte ≠ first := by
    rintro first hfirst rfl
    rw [hbyte] at hfirst
    contradiction
  apply takes_word_or_of_ne rfl (hne 116 rfl)
  apply takes_word_or_of_ne rfl (hne 102 rfl)
  exact takes_word_or_of_ne rfl (hne 110 rfl) hnumber

theorem takes_scalar_true (reals : Reals) :
    Takes Anything (scalar reals) (ascii "true") (.boolean true) := takes_word_or

theorem takes_scalar_false (reals : Reals) :
    Takes Anything (scalar reals) (ascii "false") (.boolean false) :=
  takes_word_or_of_ne rfl (show (102 : UInt8) ≠ 116 by decide) takes_word_or

theorem takes_scalar_null (reals : Reals) : Takes Anything (scalar reals) (ascii "null") .null :=
  takes_word_or_of_ne rfl (show (110 : UInt8) ≠ 116 by decide)
    (takes_word_or_of_ne rfl (show (110 : UInt8) ≠ 102 by decide) takes_word_or)

/-! ### The first character of a value -/

section

variable {ends : Bytes → Prop} {reals : Reals} {levels : Nat} {bytes : Bytes} {data : Data}

theorem takes_value {byte : UInt8} (hspace : isSpace byte = false)
    (h : Takes ends (if byte = 123 then object (value reals levels)
      else if byte = 91 then array (value reals levels)
      else if byte = 34 then do
        let text ← string
        pure (.text text)
      else scalar reals) (byte :: bytes) data) :
    Takes ends (value reals (levels + 1)) (byte :: bytes) data := by
  rw [value]
  apply takes_skipSpaces hspace
  intro c more hrest hmore
  have hpeek : peek c = .ok (some byte) c := by
    unfold peek
    rw [hrest]
    rfl
  rw [bind_of_ok hpeek]
  exact h c more hrest hmore

theorem takes_value_scalar {byte : UInt8} (hspace : isSpace byte = false)
    (hfirst : byte ≠ 123 ∧ byte ≠ 91 ∧ byte ≠ 34) (h : Takes ends (scalar reals) (byte :: bytes) data) :
    Takes ends (value reals (levels + 1)) (byte :: bytes) data := by
  apply takes_value hspace
  rw [if_neg hfirst.1, if_neg hfirst.2.1, if_neg hfirst.2.2]
  exact h

theorem takes_value_number {text : Bytes} (hshape : NumberShape text)
    (hvalue : numberValue reals text = some data) :
    Takes NumberEnds (value reals (levels + 1)) text data := by
  have hscalar := takes_scalar_number hshape hvalue
  obtain ⟨byte, rest, rfl, hbyte⟩ := hshape.head
  have hne : ∀ first : UInt8, isNumberByte first = false → byte ≠ first := by
    rintro first hfirst rfl
    rw [hbyte] at hfirst
    contradiction
  have hspace : isSpace byte = false := by
    simp only [isSpace, Bool.or_eq_false_iff, decide_eq_false_iff_not]
    exact ⟨⟨⟨hne 32 rfl, hne 9 rfl⟩, hne 10 rfl⟩, hne 13 rfl⟩
  exact takes_value_scalar hspace ⟨hne 123 rfl, hne 91 rfl, hne 34 rfl⟩ hscalar

/-! ### Lists -/

theorem numberEnds_cons {byte : UInt8} (h : isNumberByte byte = false) (more : Bytes) :
    NumberEnds (byte :: more) := by
  intro first hfirst
  rw [← Option.some.inj hfirst]
  exact h

variable {read : JsonReader Data}

theorem takes_arrayLoop {items : List Data} {item : Data} {rounds : Nat} (hrounds : items.length < rounds)
    (h : ∀ other ∈ item :: items, Takes NumberEnds read (jsonValue reals other) other)
    (before : List Data) :
    Takes Anything (arrayLoop read rounds before) (jsonItems reals (item :: items) ++ [93])
      (.list (before ++ item :: items)) := by
  induction items generalizing item rounds before with
  | nil =>
    cases rounds with
    | zero => exact absurd hrounds (Nat.not_lt_zero _)
    | succ rounds =>
      rw [jsonItems]
      apply (h item List.mem_cons_self).bind fun more _ => numberEnds_cons rfl more
      apply takes_skipSpaces rfl
      apply takes_onByte_of_ne (by decide)
      exact takes_onByte 93 (.pure _)
  | cons next items ih =>
    cases rounds with
    | zero => exact absurd hrounds (Nat.not_lt_zero _)
    | succ rounds =>
      have hrest := ih (Nat.lt_of_succ_lt_succ hrounds)
        (fun other hother => h other (List.mem_cons_of_mem _ hother)) (before ++ [item])
      rw [jsonItems, List.append_assoc, List.cons_append, List.append_cons before]
      · apply (h item List.mem_cons_self).bind fun more _ => numberEnds_cons rfl _
        apply takes_skipSpaces rfl
        exact takes_onByte 44 hrest
      · exact nofun

/-- The text of a value starts with neither a space nor the end of a list. -/
def StartsValue (text : Bytes) : Prop :=
  ∃ byte rest, text = byte :: rest ∧ isSpace byte = false ∧ byte ≠ 93

theorem StartsValue.append {text : Bytes} (h : StartsValue text) (more : Bytes) :
    StartsValue (text ++ more) := by
  obtain ⟨byte, rest, rfl, hspace, hne⟩ := h
  exact ⟨byte, rest ++ more, rfl, hspace, hne⟩

theorem startsValue_jsonItems {item : Data} (h : StartsValue (jsonValue reals item)) (items : List Data) :
    StartsValue (jsonItems reals (item :: items)) := by
  cases items with
  | nil => exact h
  | cons next items =>
    rw [jsonItems]
    · exact h.append _
    · exact nofun

theorem length_le_jsonItems {items : List Data} (h : ∀ item ∈ items, StartsValue (jsonValue reals item)) :
    items.length ≤ (jsonItems reals items).length := by
  induction items with
  | nil => exact Nat.le_refl _
  | cons item items ih =>
    have hrest := ih fun other hother => h other (List.mem_cons_of_mem _ hother)
    have hpos : 1 ≤ (jsonValue reals item).length := by
      obtain ⟨byte, rest, heq, -⟩ := h item List.mem_cons_self
      rw [heq]
      exact Nat.succ_pos _
    cases items with
    | nil => exact hpos
    | cons next items =>
      rw [jsonItems, List.length_append, List.length_cons (a := 44), List.length_cons]
      · omega
      · exact nofun

theorem takes_array {items : List Data}
    (h : ∀ item ∈ items, Takes NumberEnds read (jsonValue reals item) item)
    (hstarts : ∀ item ∈ items, StartsValue (jsonValue reals item)) :
    Takes Anything (array read) (91 :: (jsonItems reals items ++ [93])) (.list items) := by
  apply takes_advance 91
  cases items with
  | nil =>
    apply takes_skipSpaces rfl
    exact takes_onByte 93 (.pure _)
  | cons item items =>
    have hloop : Takes Anything (enough fun rounds => arrayLoop read rounds [])
        (jsonItems reals (item :: items) ++ [93]) (.list (item :: items)) := by
      apply takes_enough
      intro rounds hrounds
      have hlength := length_le_jsonItems hstarts
      rw [List.length_append] at hrounds
      rw [List.length_cons] at hlength
      exact takes_arrayLoop (by omega) h []
    obtain ⟨byte, rest, heq, hspace, hne⟩ :=
      (startsValue_jsonItems (hstarts item List.mem_cons_self) items).append [93]
    rw [heq] at hloop ⊢
    apply takes_skipSpaces hspace
    exact takes_onByte_of_ne hne hloop

/-! ### Maps -/

theorem takes_fieldName (key : Bytes) : Takes Anything fieldName (jsonText key ++ [58]) key := by
  apply takes_skipSpaces rfl
  have hcolon : Takes Anything (do skipSpaces; onByte 58 (pure key) (fail "expected ':'")) [58] key :=
    takes_skipSpaces rfl (takes_onByte 58 (.pure key))
  intro c more hrest hmore
  have hhead : c.rest.head? = some 34 := by
    rw [hrest]
    rfl
  change (if c.rest.head? = some 34 then _ else _ : JsonReader Bytes) c = _
  rw [if_pos hhead]
  exact (takes_string key).andThen hcolon c more hrest hmore

theorem takes_objectLoop {entries before : Entries} {entry : Bytes × Data} {rounds : Nat}
    (hrounds : entries.length < rounds)
    (h : ∀ other ∈ entry :: entries, Takes NumberEnds read (jsonValue reals other.2) other.2)
    (hsorted : Sorted bytesLess Prod.fst (before ++ entry :: entries)) :
    Takes Anything (objectLoop read rounds before) (jsonEntries reals (entry :: entries) ++ [125])
      (.map (before ++ entry :: entries)) := by
  have hinsert : ∀ entry entries before, Sorted bytesLess Prod.fst (before ++ entry :: entries) →
      insertOrAssign bytesLess entry.1 entry.2 before = (before ++ [entry] : Entries) := by
    intro entry entries before hsorted
    apply insertOrAssign_of_emplace
    apply emplace_append bytesLess_order
    intro other hother
    exact (List.pairwise_append.1 hsorted).2.2 other hother entry List.mem_cons_self
  induction entries generalizing entry rounds before with
  | nil =>
    cases rounds with
    | zero => exact absurd hrounds (Nat.not_lt_zero _)
    | succ rounds =>
      have hitem := h entry List.mem_cons_self
      have hbytes : jsonEntries reals [entry] ++ [125] =
          (jsonText entry.1 ++ [58]) ++ (jsonValue reals entry.2 ++ [125]) := by
        rw [jsonEntries, List.append_cons _ 58, List.append_assoc]
      rw [hbytes, ← hinsert entry [] before hsorted]
      apply (takes_fieldName entry.1).andThen
      apply hitem.bind fun more _ => numberEnds_cons rfl more
      apply takes_skipSpaces rfl
      apply takes_onByte_of_ne (by decide)
      exact takes_onByte 125 (.pure _)
  | cons next entries ih =>
    cases rounds with
    | zero => exact absurd hrounds (Nat.not_lt_zero _)
    | succ rounds =>
      have hitem := h entry List.mem_cons_self
      have happend := hinsert entry _ before hsorted
      rw [List.append_cons] at hsorted
      have hrest := ih (Nat.lt_of_succ_lt_succ hrounds)
        (fun other hother => h other (List.mem_cons_of_mem _ hother)) hsorted
      have hbytes : jsonEntries reals (entry :: next :: entries) ++ [125] =
          (jsonText entry.1 ++ [58]) ++
            (jsonValue reals entry.2 ++ 44 :: (jsonEntries reals (next :: entries) ++ [125])) := by
        rw [jsonEntries]
        · simp only [List.append_assoc, List.cons_append, List.nil_append]
        · exact nofun
      rw [hbytes, List.append_cons before]
      rw [← happend] at hrest ⊢
      apply (takes_fieldName entry.1).andThen
      apply hitem.bind fun more _ => numberEnds_cons rfl _
      apply takes_skipSpaces rfl
      exact takes_onByte 44 hrest

theorem length_le_jsonEntries (entries : Entries) :
    entries.length ≤ (jsonEntries reals entries).length := by
  induction entries with
  | nil => exact Nat.le_refl _
  | cons entry entries ih =>
    cases entries with
    | nil =>
      rw [jsonEntries, List.length_append, List.length_cons (a := 58), List.length_singleton]
      omega
    | cons next entries =>
      rw [jsonEntries, List.length_append, List.length_cons (a := 58), List.length_append,
        List.length_cons (a := 44), List.length_cons]
      · omega
      · exact nofun

theorem takes_object {entries : Entries}
    (h : ∀ entry ∈ entries, Takes NumberEnds read (jsonValue reals entry.2) entry.2)
    (hsorted : Sorted bytesLess Prod.fst entries) :
    Takes Anything (object read) (123 :: (jsonEntries reals entries ++ [125])) (.map entries) := by
  apply takes_advance 123
  cases entries with
  | nil =>
    apply takes_skipSpaces rfl
    exact takes_onByte 125 (.pure _)
  | cons entry entries =>
    have hloop : Takes Anything (enough fun rounds => objectLoop read rounds [])
        (jsonEntries reals (entry :: entries) ++ [125]) (.map (entry :: entries)) := by
      apply takes_enough
      intro rounds hrounds
      have hlength := @length_le_jsonEntries reals (entry :: entries)
      rw [List.length_append] at hrounds
      rw [List.length_cons] at hlength
      exact takes_objectLoop (by omega) h hsorted
    obtain ⟨rest, hrest⟩ : ∃ rest, jsonEntries reals (entry :: entries) ++ [125] = 34 :: rest := by
      cases entries with
      | nil => exact ⟨_, rfl⟩
      | cons next entries => exact ⟨_, rfl⟩
    rw [hrest] at hloop ⊢
    apply takes_skipSpaces rfl
    exact takes_onByte_of_ne (by decide) hloop

end

/-! ### Values -/

theorem startsValue_of_shape {text : Bytes} (h : NumberShape text) : StartsValue text := by
  obtain ⟨byte, rest, rfl, hbyte⟩ := h.head
  have hne : ∀ first : UInt8, isNumberByte first = false → byte ≠ first := by
    rintro first hfirst rfl
    rw [hbyte] at hfirst
    contradiction
  refine ⟨byte, rest, rfl, ?_, hne 93 rfl⟩
  simp only [isSpace, Bool.or_eq_false_iff, decide_eq_false_iff_not]
  exact ⟨⟨⟨hne 32 rfl, hne 9 rfl⟩, hne 10 rfl⟩, hne 13 rfl⟩

theorem startsValue_jsonValue {reals : Reals} (hreals : reals.Lawful) {data : Data}
    (hdata : data.Throughout Data.Printable) : StartsValue (jsonValue reals data) := by
  cases data with
  | null => exact ⟨110, _, rfl, rfl, by decide⟩
  | boolean flag =>
    cases flag with
    | true => exact ⟨116, _, rfl, rfl, by decide⟩
    | false => exact ⟨102, _, rfl, rfl, by decide⟩
  | integer number => exact startsValue_of_shape (integerText_shape number)
  | real bits => exact startsValue_of_shape (hreals.realText hdata).1
  | text bytes => exact ⟨34, _, rfl, rfl, by decide⟩
  | id number => exact absurd hdata id
  | list items => exact ⟨91, _, rfl, rfl, by decide⟩
  | map entries => exact ⟨123, _, rfl, rfl, by decide⟩

theorem takes_jsonValue {reals : Reals} (hreals : reals.Lawful) {levels : Nat} {data : Data}
    (hnesting : data.nesting < levels) (hprintable : data.Throughout Data.Printable)
    (hordered : data.Throughout Data.InOrder) :
    Takes NumberEnds (value reals levels) (jsonValue reals data) data := by
  obtain ⟨levels, rfl⟩ : ∃ more, levels = more + 1 := ⟨levels - 1, by omega⟩
  induction data using Data.inside generalizing levels with
  | null => exact takes_value_scalar rfl (by decide) (takes_scalar_null reals).anything
  | boolean flag =>
    cases flag with
    | true => exact takes_value_scalar rfl (by decide) (takes_scalar_true reals).anything
    | false => exact takes_value_scalar rfl (by decide) (takes_scalar_false reals).anything
  | integer number =>
    exact takes_value_number (integerText_shape number) (numberValue_integerText reals number)
  | real bits =>
    obtain ⟨hshape, hvalue⟩ := hreals.realText hprintable
    exact takes_value_number hshape hvalue
  | text bytes =>
    apply takes_value rfl
    exact (takes_string bytes).anything.andPure Data.text
  | id number => exact absurd hprintable id
  | list items ih =>
    have hlevels := Data.nesting_list_le.1 (Nat.le_of_lt_succ hnesting)
    have hprintables := (Data.throughout_list.1 hprintable).2
    have hordereds := (Data.throughout_list.1 hordered).2
    have hitems : ∀ item ∈ items, Takes NumberEnds (value reals levels) (jsonValue reals item) item := by
      intro item hitem
      obtain ⟨more, rfl⟩ : ∃ more, levels = more + 1 := ⟨levels - 1, by
        have := hlevels item hitem
        omega⟩
      exact ih item hitem (hprintables item hitem) (hordereds item hitem) more (hlevels item hitem)
    apply takes_value rfl
    exact (takes_array hitems fun item hitem =>
      startsValue_jsonValue hreals (hprintables item hitem)).anything
  | map entries ih =>
    have hlevels := Data.nesting_map_le.1 (Nat.le_of_lt_succ hnesting)
    have hprintables := (Data.throughout_map.1 hprintable).2
    obtain ⟨hsorted, hordereds⟩ := Data.throughout_map.1 hordered
    have hentries : ∀ entry ∈ entries,
        Takes NumberEnds (value reals levels) (jsonValue reals entry.2) entry.2 := by
      intro entry hentry
      obtain ⟨more, rfl⟩ : ∃ more, levels = more + 1 := ⟨levels - 1, by
        have := hlevels entry hentry
        omega⟩
      exact ih entry hentry (hprintables entry hentry) (hordereds entry hentry) more
        (hlevels entry hentry)
    apply takes_value rfl
    exact (takes_object hentries hsorted).anything

theorem fromJsonData_jsonValue {reals : Reals} (hreals : reals.Lawful) {data : Data}
    (hnesting : data.nesting ≤ valueMaxDepth) (hprintable : data.Throughout Data.Printable)
    (hordered : data.Throughout Data.InOrder) :
    fromJsonData reals (jsonValue reals data) = .ok data := by
  have htakes := takes_jsonValue hreals (Nat.lt_succ_of_le hnesting) hprintable hordered
  have hrest : Cursor.rest (⟨jsonValue reals data, 0⟩ : Cursor UInt8) = jsonValue reals data ++ [] :=
    (List.append_nil _).symm
  have hvalue := htakes _ [] hrest nofun
  have hend := Cursor.rest_skip_append hrest
  generalize Cursor.skip (⟨jsonValue reals data, 0⟩ : Cursor UInt8) (jsonValue reals data).length = c
    at hvalue hend
  have hdocument : document reals ⟨jsonValue reals data, 0⟩ = .ok data c := by
    rw [document, bind_of_ok hvalue]
    change (if (c.skip (c.rest.takeWhile isSpace).length).rest.head? = none then pure data
      else fail "content after the value" : JsonReader Data)
        (c.skip (c.rest.takeWhile isSpace).length) = _
    rw [hend]
    change (if c.rest.head? = none then pure data else _ : JsonReader Data) c = _
    rw [hend]
    rfl
  unfold fromJsonData
  rw [hdocument]

theorem fromJson_eq_ok_iff {reals : Reals} {text : Bytes} {value : Value} :
    fromJson reals text = .ok value ↔ fromJsonData reals text = .ok value.data := by
  obtain ⟨data, hordered⟩ := value
  unfold fromJson
  split
  · rename_i hread
    rw [hread]
    exact iff_of_false nofun nofun
  · rename_i data' hread
    have hresult : (Except.ok data' : Except (Option Error) Data) = .ok data ↔ data' = data :=
      ⟨Except.ok.inj, congrArg _⟩
    refine Iff.trans ?_ (hread ▸ hresult.symm)
    exact ⟨fun h => congrArg Value.data (Except.ok.inj h), fun h => by subst h; rfl⟩

theorem fromJson_ne_none (reals : Reals) (text : Bytes) : fromJson reals text ≠ .error none := by
  have hmoves := @moves_document (text.length + 1) reals ⟨text, 0⟩ (Nat.zero_le _)
    (Nat.lt_succ_self _)
  intro hnone
  unfold fromJson at hnone
  split at hnone
  · rename_i error hread
    cases hnone
    unfold fromJsonData at hread
    split at hread
    · contradiction
    · rename_i hrun
      cases hread
      exact hmoves.of_error hrun rfl
  · contradiction

/-- A value comes back from JSON with the same kinds, and every text is read to its end or to an error. -/
theorem from_json_to_json (reals : Reals) (hreals : reals.Lawful) :
    (∀ value : Value, value.data.Throughout Data.Printable → value.data.nesting ≤ valueMaxDepth →
      fromJson reals (toJson reals value) = .ok value) ∧
    ∀ text, (∃ value, fromJson reals text = .ok value) ∨ ∃ error, fromJson reals text = .error (some error) := by
  constructor
  · intro value hprintable hnesting
    exact fromJson_eq_ok_iff.2 (fromJsonData_jsonValue hreals hnesting hprintable value.ordered)
  · intro text
    have hsome := fromJson_ne_none reals text
    cases hread : fromJson reals text with
    | ok value => exact .inl ⟨value, rfl⟩
    | error error =>
      cases error with
      | none => exact absurd hread hsome
      | some error => exact .inr ⟨error, rfl⟩

/-- Reals of which 2.5 is written as the standard library writes it, and the others by their bits. -/
def plainReals : Reals where
  format bits := if bits = 0x4004000000000000 then [50, 46, 53] else decimal bits.toNat
  parse text :=
    if text = [50, 46, 53] then some 0x4004000000000000
    else some (BitVec.ofNat 64 (fromDecimal (text.takeWhile isDigit)))

theorem plainReals_half : plainReals.format 0x4004000000000000 = [50, 46, 53] := rfl

theorem plainReals_format {bits : BitVec 64} (h : bits ≠ 0x4004000000000000) :
    plainReals.format bits = decimal bits.toNat := if_neg h

theorem plainReals_parse {bits : BitVec 64} {more : Bytes} (hmore : more.takeWhile isDigit = [])
    (hne : decimal bits.toNat ++ more ≠ [50, 46, 53]) :
    plainReals.parse (decimal bits.toNat ++ more) = some bits := by
  have htake : (decimal bits.toNat ++ more).takeWhile isDigit = decimal bits.toNat := by
    rw [List.takeWhile_append_of_pos fun byte hbyte => isDigit_of_mem_decimal hbyte, hmore,
      List.append_nil]
  have hparse : plainReals.parse (decimal bits.toNat ++ more) =
      some (BitVec.ofNat 64 (fromDecimal ((decimal bits.toNat ++ more).takeWhile isDigit))) := if_neg hne
  rw [hparse, htake, fromDecimal_decimal, BitVec.ofNat_toNat, BitVec.setWidth_eq]

theorem plainReals_lawful : plainReals.Lawful := by
  constructor
  · intro bits _
    by_cases hbits : bits = 0x4004000000000000
    · rw [hbits, plainReals_half]
      decide
    · have hlength : (Nat.toDigits 10 bits.toNat).length ≤ 20 :=
        (Nat.length_toDigits_le_iff (by decide) (by decide)).2
          (Nat.lt_trans bits.isLt (by decide))
      rw [plainReals_format hbits, decimal, List.length_map]
      exact Nat.le_trans hlength (by decide)
  · intro bits _
    by_cases hbits : bits = 0x4004000000000000
    · rw [hbits, plainReals_half]
      have hbytes : ∀ byte ∈ ([50, 46, 53] : Bytes), isNumberByte byte = true := by
        simp only [List.forall_mem_cons]
        exact ⟨rfl, rfl, rfl, fun _ hmem => absurd hmem List.not_mem_nil⟩
      exact ⟨[50, 46, 53], List.cons_ne_nil _ _, hbytes, .inr ⟨rfl, by decide⟩⟩
    · rw [plainReals_format hbits]
      exact ⟨decimal bits.toNat, decimal_ne_nil _, fun byte hbyte =>
        isNumberByte_of_isDigit (isDigit_of_mem_decimal hbyte), .inr ⟨rfl, head?_decimal_ne _⟩⟩
  · intro bits _
    by_cases hbits : bits = 0x4004000000000000
    · rw [hbits]
      rfl
    · have hne : decimal bits.toNat ++ [] ≠ [50, 46, 53] := by
        intro heq
        rw [List.append_nil] at heq
        have hdot : (46 : UInt8) ∈ decimal bits.toNat := by
          rw [heq]
          decide
        exact absurd (isDigit_of_mem_decimal hdot) (by decide)
      have hparse := @plainReals_parse bits [] rfl hne
      rwa [List.append_nil, ← plainReals_format hbits] at hparse
  · intro bits _ hmark
    by_cases hbits : bits = 0x4004000000000000
    · rw [hbits] at hmark
      exact absurd (by decide) hmark
    · rw [plainReals_format hbits]
      apply plainReals_parse rfl
      intro heq
      have hlast := congrArg List.getLast? heq
      rw [List.getLast?_append] at hlast
      change some (48 : UInt8) = some 53 at hlast
      exact absurd hlast (by decide)

def someItems : Value :=
  ⟨.list [.real 0x4004000000000000, .integer (-3), .text [97, 10]], Data.throughout_list.2
    ⟨trivial, by
      intro item hitem
      simp only [List.mem_cons, List.not_mem_nil, or_false] at hitem
      rcases hitem with rfl | rfl | rfl <;> exact trivial⟩⟩

theorem from_json_to_json_items :
    toJson plainReals someItems = ascii "[2.5,-3,\"a\\n\"]" ∧
      fromJson plainReals (toJson plainReals someItems) = .ok someItems := by
  refine ⟨by decide, (from_json_to_json plainReals plainReals_lawful).1 someItems ?_ (by decide)⟩
  refine Data.throughout_list.2 ⟨trivial, fun item hitem => ?_⟩
  simp only [List.mem_cons, List.not_mem_nil, or_false] at hitem
  rcases hitem with rfl | rfl | rfl
  · exact (by decide : isFinite 0x4004000000000000 = true)
  · exact trivial
  · exact trivial

end MoDb.Ops
