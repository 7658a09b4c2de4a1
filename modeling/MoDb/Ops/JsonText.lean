import MoDb.Ops.JsonReads

/-!
# Texts and numbers come back from JSON

What the printer writes for a text or a number is taken off by the reader, and nothing more.
-/

namespace MoDb.Ops

open Storage Format Effect

variable {α β : Type} {ends ends' : Bytes → Prop} {bytes bytes' : Bytes}

/-- Before what `ends` allows, the reader takes the bytes off for the value. -/
def Takes (ends : Bytes → Prop) (read : JsonReader α) (bytes : Bytes) (value : α) : Prop :=
  ∀ (c : Cursor UInt8) more, c.rest = bytes ++ more → ends more →
    read c = .ok value (c.skip bytes.length)

def Anything (_ : Bytes) : Prop := True

def NumberEnds (more : Bytes) : Prop := ∀ byte, more.head? = some byte → isNumberByte byte = false

theorem Takes.anything {read : JsonReader α} {value : α} (h : Takes Anything read bytes value) :
    Takes ends read bytes value := fun c more hrest _ => h c more hrest trivial

theorem Takes.pure (value : α) : Takes ends (pure value) [] value := fun _ _ _ _ => rfl

theorem Takes.bind {read : JsonReader α} {next : α → JsonReader β} {value : α} {result : β}
    (h : Takes ends' read bytes value) (hends : ∀ more, ends more → ends' (bytes' ++ more))
    (hnext : Takes ends (next value) bytes' result) :
    Takes ends (read >>= next) (bytes ++ bytes') result := by
  intro c more hrest hmore
  rw [List.append_assoc] at hrest
  rw [bind_of_ok (h c (bytes' ++ more) hrest (hends more hmore)),
    hnext _ more (Cursor.rest_skip_append hrest) hmore, Cursor.skip_skip, List.length_append]

theorem Takes.andThen {read : JsonReader α} {next : α → JsonReader β} {value : α} {result : β}
    (h : Takes Anything read bytes value) (hnext : Takes ends (next value) bytes' result) :
    Takes ends (read >>= next) (bytes ++ bytes') result := h.bind (fun _ _ => trivial) hnext

theorem Takes.andPure {read : JsonReader α} {value : α} (h : Takes ends read bytes value) (f : α → β) :
    Takes ends (read >>= fun value => Pure.pure (f value)) bytes (f value) := by
  intro c more hrest hmore
  rw [bind_of_ok (h c more hrest hmore)]
  rfl

theorem takes_enough {loop : Nat → JsonReader α} {value : α}
    (h : ∀ rounds, bytes.length < rounds → Takes ends (loop rounds) bytes value) :
    Takes ends (enough loop) bytes value := by
  intro c more hrest hmore
  have hlength := congrArg List.length hrest
  rw [Cursor.length_rest, List.length_append] at hlength
  exact h (c.remaining + 1) (by omega) c more hrest hmore

theorem takes_takeByte (why : String) (byte : UInt8) : Takes Anything (takeByte why) [byte] byte := by
  intro c more hrest _
  unfold takeByte
  rw [hrest]
  rfl

theorem takes_advance {next : JsonReader β} {value : β} (byte : UInt8) (h : Takes ends next bytes value) :
    Takes ends (do advance; next) (byte :: bytes) value := by
  have hadvance : Takes Anything advance [byte] ⟨⟩ := fun _ _ _ _ => rfl
  exact hadvance.andThen h

theorem takes_onByte {yes no : JsonReader β} {value : β} (byte : UInt8) (h : Takes ends yes bytes value) :
    Takes ends (onByte byte yes no) (byte :: bytes) value := by
  intro c more hrest hmore
  have hhead : c.rest.head? = some byte := by
    rw [hrest]
    rfl
  change (if c.rest.head? = some byte then do advance; yes else no : JsonReader β) c = _
  rw [if_pos hhead]
  exact takes_advance byte h c more hrest hmore

theorem takes_onByte_of_ne {yes no : JsonReader β} {value : β} {byte other : UInt8} (hne : other ≠ byte)
    (h : Takes ends no (other :: bytes) value) :
    Takes ends (onByte byte yes no) (other :: bytes) value := by
  intro c more hrest hmore
  have hhead : ¬c.rest.head? = some byte := by
    rw [hrest]
    exact fun h => hne (Option.some.inj h)
  change (if c.rest.head? = some byte then do advance; yes else no : JsonReader β) c = _
  rw [if_neg hhead]
  exact h c more hrest hmore

theorem takes_skipSpaces {next : JsonReader β} {value : β} {byte : UInt8} (hbyte : isSpace byte = false)
    (h : Takes ends next (byte :: bytes) value) :
    Takes ends (do skipSpaces; next) (byte :: bytes) value := by
  intro c more hrest hmore
  have hnone : c.rest.takeWhile isSpace = [] := by
    rw [hrest, List.cons_append, List.takeWhile_cons, hbyte]
    rfl
  change next (c.skip (c.rest.takeWhile isSpace).length) = _
  rw [hnone]
  exact h c more hrest hmore

/-! ### Texts -/

theorem fromHex_hexDigits : ∀ n < 32,
    fromHex [48, 48, hexDigit (n / 16), hexDigit (n % 16)] 0 = some n := by decide

theorem takes_unicode {byte : UInt8} (h : byte < 32) :
    Takes Anything unicode [48, 48, hexDigit (byte.toNat / 16), hexDigit (byte.toNat % 16)] [byte] := by
  have hhex : Takes Anything hex4 [48, 48, hexDigit (byte.toNat / 16), hexDigit (byte.toNat % 16)]
      byte.toNat := by
    intro c more hrest _
    have hlength := congrArg List.length hrest
    rw [Cursor.length_rest, List.length_append] at hlength
    have htake : c.rest.take 4 = [48, 48, hexDigit (byte.toNat / 16), hexDigit (byte.toNat % 16)] := by
      rw [hrest]
      rfl
    unfold hex4
    rw [if_neg (by rw [hlength]; exact Nat.not_lt.2 (Nat.le_add_right 4 _)), htake,
      fromHex_hexDigits byte.toNat h]
    rfl
  have hsmall : byte.toNat < 32 := h
  have hnext : (if 0xD800 ≤ byte.toNat ∧ byte.toNat ≤ 0xDBFF then do
        let pair ← word [92, 117]
        if pair then do
          let low ← hex4
          if low < 0xDC00 ∨ 0xDFFF < low then fail "invalid surrogate pair"
          else pure (utf8 (0x10000 + ((byte.toNat - 0xD800) <<< 10) + (low - 0xDC00)))
        else pure (utf8 byte.toNat)
      else pure (utf8 byte.toNat) : JsonReader Bytes) = pure [byte] := by
    rw [if_neg (by omega), utf8, if_pos (by omega), UInt8.ofNat_toNat]
  intro c more hrest hmore
  rw [unicode, bind_of_ok (hhex c more hrest hmore), hnext]
  rfl

theorem jsonByte_cases (byte : UInt8) :
    (jsonByte byte = [byte] ∧ byte ≠ 34 ∧ ¬byte < 32 ∧ byte ≠ 92) ∨
      ∃ letter tail, jsonByte byte = 92 :: letter :: tail ∧ Takes Anything (escape letter) tail [byte] := by
  unfold jsonByte
  by_cases hquote : byte = 34
  · subst hquote
    exact .inr ⟨34, [], rfl, .pure _⟩
  by_cases hslash : byte = 92
  · subst hslash
    exact .inr ⟨92, [], rfl, .pure _⟩
  by_cases hline : byte = 10
  · subst hline
    exact .inr ⟨110, [], rfl, .pure _⟩
  by_cases hreturn : byte = 13
  · subst hreturn
    exact .inr ⟨114, [], rfl, .pure _⟩
  by_cases htab : byte = 9
  · subst htab
    exact .inr ⟨116, [], rfl, .pure _⟩
  rw [if_neg hquote, if_neg hslash, if_neg hline, if_neg hreturn, if_neg htab]
  by_cases hcontrol : byte < 32
  · rw [if_pos hcontrol]
    exact .inr ⟨117, _, rfl, takes_unicode hcontrol⟩
  · rw [if_neg hcontrol]
    exact .inl ⟨rfl, hquote, hcontrol, hslash⟩

theorem takes_stringLoop {rounds : Nat} {text : Bytes} (h : text.length < rounds) (out : Bytes) :
    Takes Anything (stringLoop rounds out) (text.flatMap jsonByte ++ [34]) (out ++ text) := by
  induction text generalizing rounds out with
  | nil =>
    cases rounds with
    | zero => exact absurd h (Nat.not_lt_zero _)
    | succ rounds =>
      rw [List.append_nil]
      exact (takes_takeByte _ 34).andThen (.pure out)
  | cons byte text ih =>
    cases rounds with
    | zero => exact absurd h (Nat.not_lt_zero _)
    | succ rounds =>
      have hrest : Takes Anything (stringLoop rounds (out ++ [byte])) (text.flatMap jsonByte ++ [34])
          (out ++ [byte] ++ text) := ih (Nat.lt_of_succ_lt_succ h) _
      rw [List.append_cons out byte text, List.flatMap_cons, List.append_assoc]
      rcases jsonByte_cases byte with ⟨hbyte, hquote, hcontrol, hslash⟩ | ⟨letter, tail, hbyte, hescape⟩
      · rw [hbyte]
        apply (takes_takeByte _ byte).andThen
        rw [if_neg hquote, if_neg hcontrol, if_pos hslash]
        exact hrest
      · rw [hbyte]
        apply (takes_takeByte _ 92).andThen
        rw [if_neg (by decide), if_neg (by decide), if_neg (by decide)]
        exact (takes_takeByte _ letter).andThen (hescape.andThen hrest)

theorem takes_string (text : Bytes) : Takes Anything string (jsonText text) text := by
  have hlength : text.length ≤ (text.flatMap jsonByte).length := by
    induction text with
    | nil => exact Nat.le_refl _
    | cons byte text ih =>
      have hpos : 1 ≤ (jsonByte byte).length := by
        rcases jsonByte_cases byte with ⟨hbyte, -⟩ | ⟨letter, tail, hbyte, -⟩ <;>
          rw [hbyte] <;> exact Nat.succ_pos _
      rw [List.flatMap_cons, List.length_append, List.length_cons]
      omega
  have hloop : Takes Anything (enough fun rounds => stringLoop rounds [])
      (text.flatMap jsonByte ++ [34]) text := by
    apply takes_enough
    intro rounds hrounds
    rw [List.length_append] at hrounds
    exact takes_stringLoop (by omega) []
  exact takes_advance 34 hloop

/-! ### Digits -/

theorem toNat_toUInt8 {c : Char} (h : c.isDigit = true) :
    c.toUInt8.toNat = c.toNat ∧ 48 ≤ c.toNat ∧ c.toNat ≤ 57 := by
  simp only [Char.isDigit, Bool.and_eq_true, decide_eq_true_eq] at h
  have hlow : 48 ≤ c.toNat := h.1
  have hhigh : c.toNat ≤ 57 := h.2
  refine ⟨?_, hlow, hhigh⟩
  change c.toNat % 256 = _
  omega

theorem isDigit_of_mem_toDigits {n : Nat} {c : Char} (h : c ∈ Nat.toDigits 10 n) : c.isDigit = true :=
  Nat.isDigit_of_mem_toDigits (by decide) (by decide) h

theorem isDigit_of_mem_decimal {n : Nat} {byte : UInt8} (h : byte ∈ decimal n) : isDigit byte = true := by
  obtain ⟨c, hc, rfl⟩ := List.mem_map.1 h
  obtain ⟨hbyte, hlow, hhigh⟩ := toNat_toUInt8 (isDigit_of_mem_toDigits hc)
  have hlow' : (48 : UInt8) ≤ c.toUInt8 := by
    rw [UInt8.le_iff_toNat_le, hbyte]
    exact hlow
  have hhigh' : c.toUInt8 ≤ (57 : UInt8) := by
    rw [UInt8.le_iff_toNat_le, hbyte]
    exact hhigh
  simp [isDigit, hlow', hhigh']

theorem decimal_ne_nil (n : Nat) : decimal n ≠ [] := fun h => Nat.toDigits_ne_nil (List.map_eq_nil_iff.1 h)

theorem fromDecimal_decimal (n : Nat) : fromDecimal (decimal n) = n := by
  have hfold : ∀ (text : List Char) (number : Nat), (∀ c ∈ text, c.isDigit = true) →
      (text.map Char.toUInt8).foldl (fun number byte => 10 * number + (byte.toNat - 48)) number =
        Nat.ofDigitChars 10 text number := by
    intro text
    induction text with
    | nil => exact fun number _ => Nat.ofDigitChars_nil.symm
    | cons c text ih =>
      intro number htext
      obtain ⟨hc, hrest⟩ := List.forall_mem_cons.1 htext
      rw [List.map_cons, List.foldl_cons, ih _ hrest, Nat.ofDigitChars_cons, (toNat_toUInt8 hc).1]
      rfl
  rw [fromDecimal, decimal, hfold _ 0 fun c => isDigit_of_mem_toDigits,
    Nat.ofDigitChars_ten_toDigits]

/-! ### Numbers -/

def NumberShape (text : Bytes) : Prop := ∃ body : Bytes, body ≠ [] ∧ (∀ byte ∈ body, isNumberByte byte) ∧
  (text = 45 :: body ∨ text = body ∧ body.head? ≠ some 45)

theorem NumberShape.numberText_append {text more : Bytes} (h : NumberShape text) (hmore : NumberEnds more) :
    numberText (text ++ more) = text := by
  obtain ⟨body, hbody, hall, htext⟩ := h
  have htake : (body ++ more).takeWhile isNumberByte = body := by
    rw [List.takeWhile_append_of_pos hall]
    have hnone : more.takeWhile isNumberByte = [] := by
      cases more with
      | nil => rfl
      | cons byte more => rw [List.takeWhile_cons, hmore byte rfl]; rfl
    rw [hnone, List.append_nil]
  unfold numberText
  rcases htext with rfl | ⟨rfl, hhead⟩
  · rw [List.cons_append, if_pos (List.head?_cons), List.tail_cons, htake]
  · have hhead' : ¬(text ++ more).head? = some 45 := by
      cases text with
      | nil => exact absurd rfl hbody
      | cons first rest => exact hhead
    rw [if_neg hhead', htake]

theorem NumberShape.not_short {text : Bytes} (h : NumberShape text) : ¬(text = [] ∨ text = [45]) := by
  obtain ⟨body, hbody, -, htext⟩ := h
  rcases htext with rfl | ⟨rfl, hhead⟩
  · rintro (h | h)
    · contradiction
    · exact hbody (List.cons.inj h).2
  · rintro (rfl | rfl)
    · exact hbody rfl
    · exact hhead rfl

theorem NumberShape.takes_number {reals : Reals} {text : Bytes} {data : Data} (h : NumberShape text)
    (hvalue : numberValue reals text = some data) : Takes NumberEnds (number reals) text data := by
  intro c more hrest hmore
  unfold number
  rw [hrest, h.numberText_append hmore, if_neg h.not_short, hvalue]

theorem NumberShape.head {text : Bytes} (h : NumberShape text) :
    ∃ byte rest, text = byte :: rest ∧ isNumberByte byte = true := by
  obtain ⟨body, hbody, hall, htext⟩ := h
  rcases htext with rfl | ⟨rfl, -⟩
  · exact ⟨45, body, rfl, rfl⟩
  · obtain ⟨byte, rest, rfl⟩ := List.exists_cons_of_ne_nil hbody
    exact ⟨byte, rest, rfl, hall byte List.mem_cons_self⟩

theorem isNumberByte_of_isDigit {byte : UInt8} (h : isDigit byte = true) : isNumberByte byte = true := by
  rw [isNumberByte, h, Bool.true_or, Bool.true_or, Bool.true_or]

theorem head?_decimal_ne (n : Nat) : (decimal n).head? ≠ some 45 := by
  intro hhead
  have hmem : 45 ∈ decimal n := List.mem_of_mem_head? hhead
  exact absurd (isDigit_of_mem_decimal hmem) (by decide)

theorem integerText_shape (number : BitVec 64) : NumberShape (integerText number) := by
  have hbody : ∀ byte ∈ decimal number.toInt.natAbs, isNumberByte byte := fun byte hbyte =>
    isNumberByte_of_isDigit (isDigit_of_mem_decimal hbyte)
  refine ⟨decimal number.toInt.natAbs, decimal_ne_nil _, hbody, ?_⟩
  unfold integerText
  split
  · exact .inl rfl
  · exact .inr ⟨rfl, head?_decimal_ne _⟩

theorem any_decimal (n : Nat) : ((decimal n).any fun byte => !isDigit byte) = false := by
  rw [List.any_eq_false]
  intro byte hbyte
  rw [isDigit_of_mem_decimal hbyte]
  decide

theorem isReal_integerText (number : BitVec 64) : isReal (integerText number) = false := by
  unfold isReal integerText
  split
  · rw [if_pos List.head?_cons, List.tail_cons, any_decimal]
  · rw [if_neg (head?_decimal_ne _), any_decimal]

theorem fromChars_integerText (number : BitVec 64) : fromChars (integerText number) = some number := by
  have hlower : -2 ^ 63 ≤ number.toInt := BitVec.le_toInt number
  have hupper : number.toInt < 2 ^ 63 := BitVec.toInt_lt
  unfold fromChars integerText
  split
  · rename_i hnegative
    rw [if_pos List.head?_cons, List.tail_cons, fromDecimal_decimal, if_pos (by omega)]
    have habs : -(number.toInt.natAbs : Int) = number.toInt := by omega
    rw [habs, BitVec.ofInt_toInt]
  · rename_i hpositive
    rw [if_neg (head?_decimal_ne _), fromDecimal_decimal, if_pos (by omega)]
    have habs : (number.toInt.natAbs : Int) = number.toInt := by omega
    rw [← BitVec.ofInt_natCast, habs, BitVec.ofInt_toInt]

theorem numberValue_integerText (reals : Reals) (number : BitVec 64) :
    numberValue reals (integerText number) = some (.integer number) := by
  unfold numberValue
  rw [isReal_integerText, if_neg Bool.false_ne_true, fromChars_integerText]

/-! ### Reals -/

/-- What the standard library promises of reals that are finite: the shortest text of a real fits the buffer,
looks like a number and is read back, also where `.0` shows that it is a real. -/
structure Reals.Lawful (reals : Reals) : Prop where
  length_le : ∀ bits, isFinite bits → (reals.format bits).length ≤ 32
  shape : ∀ bits, isFinite bits → NumberShape (reals.format bits)
  parse_format : ∀ bits, isFinite bits → reals.parse (reals.format bits) = some bits
  parse_zero : ∀ bits, isFinite bits → ¬(reals.format bits).any isRealMark = true →
    reals.parse (reals.format bits ++ [46, 48]) = some bits

theorem isReal_of_any {text : Bytes} (h : text.any isRealMark = true) : isReal text = true := by
  obtain ⟨byte, hbyte, hmark⟩ := List.any_eq_true.1 h
  have hdigit : (!isDigit byte) = true := by
    simp only [isRealMark, Bool.or_eq_true, decide_eq_true_eq] at hmark
    rcases hmark with (rfl | rfl) | rfl <;> rfl
  unfold isReal
  split
  · rename_i hhead
    cases text with
    | nil => contradiction
    | cons first rest =>
      obtain rfl : first = 45 := Option.some.inj hhead
      rcases List.mem_cons.1 hbyte with rfl | hrest
      · contradiction
      · exact List.any_eq_true.2 ⟨byte, hrest, hdigit⟩
  · exact List.any_eq_true.2 ⟨byte, hbyte, hdigit⟩

theorem NumberShape.append_zero {text : Bytes} (h : NumberShape text) : NumberShape (text ++ [46, 48]) := by
  obtain ⟨body, hbody, hall, htext⟩ := h
  refine ⟨body ++ [46, 48], by simp, fun byte hbyte => ?_, ?_⟩
  · rcases List.mem_append.1 hbyte with hbyte | hbyte
    · exact hall byte hbyte
    · rcases List.mem_cons.1 hbyte with rfl | hbyte
      · rfl
      · rw [List.mem_singleton.1 hbyte]
        rfl
  · rcases htext with rfl | ⟨rfl, hhead⟩
    · exact .inl rfl
    · obtain ⟨first, rest, rfl⟩ := List.exists_cons_of_ne_nil hbody
      exact .inr ⟨rfl, hhead⟩

theorem Reals.Lawful.realText {reals : Reals} (h : reals.Lawful) {bits : BitVec 64} (hbits : isFinite bits) :
    NumberShape (realText reals bits) ∧ numberValue reals (realText reals bits) = some (.real bits) := by
  have hchars : toChars reals bits = reals.format bits := if_pos (h.length_le bits hbits)
  have hvalue : ∀ text : Bytes, text.any isRealMark = true → reals.parse text = some bits →
      numberValue reals text = some (.real bits) := by
    intro text hmark hparse
    unfold numberValue
    rw [isReal_of_any hmark, if_pos rfl, hparse]
    exact if_pos hbits
  unfold Ops.realText
  rw [if_pos hbits, hchars]
  split
  · exact ⟨h.shape bits hbits, hvalue _ ‹_› (h.parse_format bits hbits)⟩
  · refine ⟨(h.shape bits hbits).append_zero, hvalue _ ?_ (h.parse_zero bits hbits ‹_›)⟩
    exact List.any_eq_true.2 ⟨46, by simp, rfl⟩

end MoDb.Ops
