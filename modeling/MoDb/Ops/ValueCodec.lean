import MoDb.Ops.Value
import MoDb.Net.RoundTrip

/-!
# The binary form of values

A value is its kind in one byte and its content. The writer writes every value; the reader reads values
that are nested up to a depth, because it reads what comes from the network.
-/

namespace MoDb.Ops

open Storage Wire SortedSearch SortedEntries
open Index (bytesLess)
open Net (BinaryReader readU8 readU32 readU64 readSized require)

/-- `corrupt`. -/
def corrupt (message : String) : Error := ⟨.invalidEncoding, "value: " ++ message⟩

/-- `value_encoding_version`. -/
def valueEncodingVersion : UInt8 := 1

/-! ### Writing -/

def writeText (text : Bytes) : Bytes := storeLe 4 text.length ++ text

mutual

/-- `write_value`. -/
def writeValue : Data → Bytes
  | .null => [0]
  | .boolean flag => [1, if flag then 1 else 0]
  | .integer number => 2 :: storeLe 8 number.toNat
  | .real bits => 3 :: storeLe 8 bits.toNat
  | .text text => 4 :: writeText text
  | .id id => 5 :: storeLe 8 id.toNat
  | .list items => 6 :: (storeLe 4 items.length ++ writeItems items)
  | .map entries => 7 :: (storeLe 4 entries.length ++ writeEntries entries)

def writeItems : List Data → Bytes
  | [] => []
  | item :: items => writeValue item ++ writeItems items

def writeEntries : List (Bytes × Data) → Bytes
  | [] => []
  | (key, item) :: entries => writeText key ++ writeValue item ++ writeEntries entries

end

/-- `encode`. -/
def encode (value : Value) : Bytes := valueEncodingVersion :: writeValue value.data

/-! ### Reading -/

/-- `read_text`. -/
def readText : BinaryReader Bytes := do
  let size ← readU32
  readSized .invalidEncoding "value: text longer than the input" size.toNat

def readBoolean : BinaryReader Data := do
  let flag ← readU8
  require (flag.toNat ≤ 1) .invalidEncoding "value: boolean must be 0 or 1"
  pure (.boolean (flag = 1))

def readWord (value : BitVec 64 → Data) : BinaryReader Data := do
  let word ← readU64
  pure (value (BitVec.ofNat 64 word.toNat))

def readCount (message : String) : BinaryReader Nat := do
  let count ← readU32
  let left ← remaining
  require (count.toNat ≤ left) .invalidEncoding message
  pure count.toNat

/-- The loop over the entries of a map; `entries` are those read before. -/
def readEntries (read : BinaryReader Data) : Nat → Entries → BinaryReader Entries
  | 0, entries => pure entries
  | count + 1, entries => do
    let key ← readText
    let item ← read
    match emplace bytesLess key item entries with
    | none => throw (corrupt "duplicate map key")
    | some entries => readEntries read count entries

/-- What `read_value` does under a tag; `read` reads an item. -/
def readContent (read : BinaryReader Data) (tag : UInt8) : BinaryReader Data :=
  match tag.toNat with
  | 0 => pure .null
  | 1 => readBoolean
  | 2 => readWord .integer
  | 3 => readWord .real
  | 4 => do
    let text ← readText
    pure (.text text)
  | 5 => readWord .id
  | 6 => do
    let count ← readCount "value: list count larger than the input"
    let items ← readMany read count
    pure (.list items)
  | 7 => do
    let count ← readCount "value: map count larger than the input"
    let entries ← readEntries read count []
    pure (.map entries)
  | tag => throw (corrupt s!"unknown tag {tag}")

/-- `read_value`; `levels` is how far its depth is from being too deep. -/
def readValue : Nat → BinaryReader Data
  | 0 => throw (corrupt "nested too deep")
  | levels + 1 => do
    let tag ← readU8
    readContent (readValue levels) tag

/-- `decode`, up to what the type of maps knows. -/
def decodeData (bytes : Bytes) : Except Error Data :=
  match readU8 bytes with
  | .error _ => .error (corrupt "empty input")
  | .ok (version, rest) =>
    if version ≠ valueEncodingVersion then
      .error (corrupt s!"unsupported encoding version {version.toNat}")
    else
      match readValue (valueMaxDepth + 1) rest with
      | .error error =>
        .error (if error.code = .invalidEncoding then error else corrupt error.message)
      | .ok (data, rest) =>
        if rest ≠ [] then .error (corrupt "trailing bytes after the value") else .ok data

/-! ### What is read -/

/-- What a reader with `levels` to go reads: no deeper, every count in 32 bits, every map in order. -/
structure Fits (levels : Nat) (data : Data) : Prop where
  nesting : data.nesting < levels
  counted : data.Throughout Data.Counted
  ordered : data.Throughout Data.InOrder

theorem fits_list {levels : Nat} {items : List Data} : Fits (levels + 1) (.list items) ↔
    items.length < 2 ^ 32 ∧ ∀ item ∈ items, Fits levels item := by
  constructor
  · rintro ⟨hnesting, hcounted, hordered⟩
    have hlevels := Data.nesting_list_le.1 (Nat.le_of_lt_succ hnesting)
    obtain ⟨hcount, hcounted⟩ := Data.throughout_list.1 hcounted
    have hordered := (Data.throughout_list.1 hordered).2
    exact ⟨hcount, fun item hitem => ⟨hlevels item hitem, hcounted item hitem, hordered item hitem⟩⟩
  · rintro ⟨hcount, hitems⟩
    exact ⟨Nat.lt_succ_of_le (Data.nesting_list_le.2 fun item hitem => (hitems item hitem).nesting),
      Data.throughout_list.2 ⟨hcount, fun item hitem => (hitems item hitem).counted⟩,
      Data.throughout_list.2 ⟨trivial, fun item hitem => (hitems item hitem).ordered⟩⟩

theorem fits_map {levels : Nat} {entries : Entries} : Fits (levels + 1) (.map entries) ↔
    (entries.length < 2 ^ 32 ∧ Sorted bytesLess Prod.fst entries) ∧
      ∀ entry ∈ entries, entry.1.length < 2 ^ 32 ∧ Fits levels entry.2 := by
  constructor
  · rintro ⟨hnesting, hcounted, hordered⟩
    have hlevels := Data.nesting_map_le.1 (Nat.le_of_lt_succ hnesting)
    obtain ⟨⟨hcount, hkeys⟩, hcounted⟩ := Data.throughout_map.1 hcounted
    obtain ⟨hsorted, hordered⟩ := Data.throughout_map.1 hordered
    exact ⟨⟨hcount, hsorted⟩, fun entry hentry =>
      ⟨hkeys entry hentry, hlevels entry hentry, hcounted entry hentry, hordered entry hentry⟩⟩
  · rintro ⟨⟨hcount, hsorted⟩, hentries⟩
    exact ⟨Nat.lt_succ_of_le
        (Data.nesting_map_le.2 fun entry hentry => (hentries entry hentry).2.nesting),
      Data.throughout_map.2 ⟨⟨hcount, fun entry hentry => (hentries entry hentry).1⟩,
        fun entry hentry => (hentries entry hentry).2.counted⟩,
      Data.throughout_map.2 ⟨hsorted, fun entry hentry => (hentries entry hentry).2.ordered⟩⟩

section

variable {read : BinaryReader Data} {P : Data → Prop} {α : Type}

theorem yields_require {condition : Prop} [Decidable condition] {code : ErrorCode} {message : String}
    {next : Unit → BinaryReader α} {Q : α → Prop} (h : condition → Yields (next ⟨⟩) Q) :
    Yields (liftM (require condition code message) >>= next) Q := by
  unfold require
  split
  · exact h ‹_›
  · intro bytes value rest hread
    cases hread

theorem yields_readText : Yields readText fun text => text.length < 2 ^ 32 := by
  have hsize : Yields readU32 fun _ => True := fun _ _ _ _ => trivial
  refine hsize.bind fun size _ => ?_
  intro bytes text rest hread
  change (if bytes.length < size.toNat then throw _ else Wire.take _ _ : BinaryReader Bytes) bytes = _
    at hread
  split at hread
  · cases hread
  · rename_i hleft
    change (if bytes.length < size.toNat then _ else _) = _ at hread
    rw [if_neg hleft] at hread
    cases hread
    rw [List.length_take]
    exact Nat.lt_of_le_of_lt (Nat.min_le_left _ _) size.toNat_lt

theorem yields_readCount (message : String) : Yields (readCount message) (· < 2 ^ 32) := by
  have hcount : Yields readU32 fun _ => True := fun _ _ _ _ => trivial
  have hleft : Yields (remaining : BinaryReader Nat) fun _ => True := fun _ _ _ _ => trivial
  refine hcount.bind fun count _ => hleft.bind fun left _ => yields_require fun _ => ?_
  exact .pure count.toNat_lt

/-- The entries read so far are in order, and their values have the property. -/
def EntriesRead (P : Data → Prop) (count : Nat) (entries : Entries) : Prop :=
  entries.length = count ∧ Sorted bytesLess Prod.fst entries ∧
    ∀ entry ∈ entries, entry.1.length < 2 ^ 32 ∧ P entry.2

theorem yields_readEntries (h : Yields read P) {before : Nat} (count : Nat) {entries : Entries}
    (hentries : EntriesRead P before entries) :
    Yields (readEntries read count entries) (EntriesRead P (before + count)) := by
  induction count generalizing before entries with
  | zero => exact .pure hentries
  | succ count ih =>
    refine yields_readText.bind fun key hkey => h.bind fun item hitem => ?_
    cases hemplace : emplace bytesLess key item entries with
    | none => exact .throw _
    | some entries' =>
      obtain ⟨hlength, hsorted, hall⟩ := hentries
      rw [Nat.add_comm count, ← Nat.add_assoc]
      apply ih
      refine ⟨by rw [length_emplace hemplace, hlength],
        sorted_emplace bytesLess_order hsorted hemplace, fun entry hentry => ?_⟩
      rcases (mem_emplace hemplace).1 hentry with rfl | hentry
      · exact ⟨hkey, hitem⟩
      · exact hall entry hentry

theorem fits_scalar {levels : Nat} {data : Data} (hlist : ∀ items, data ≠ .list items)
    (hmap : ∀ entries, data ≠ .map entries) (hcounted : data.Counted) : Fits (levels + 1) data := by
  cases data with
  | list items => exact absurd rfl (hlist items)
  | map entries => exact absurd rfl (hmap entries)
  | text bytes => exact ⟨Nat.succ_pos _, hcounted, trivial⟩
  | _ => exact ⟨Nat.succ_pos _, trivial, trivial⟩

theorem yields_readContent {levels : Nat} (h : Yields read (Fits levels)) (tag : UInt8) :
    Yields (readContent read tag) (Fits (levels + 1)) := by
  have hword : ∀ value : BitVec 64 → Data, (∀ word, Fits (levels + 1) (value word)) →
      Yields (readWord value) (Fits (levels + 1)) := by
    intro value hfits bytes data rest hread
    obtain ⟨word, _, hmore⟩ := Effect.except_bind_eq_ok hread
    cases hmore
    exact hfits _
  unfold readContent
  split
  · exact .pure (fits_scalar nofun nofun trivial)
  · have hflag : Yields readU8 fun _ => True := fun _ _ _ _ => trivial
    refine hflag.bind fun flag _ => yields_require fun _ => ?_
    exact .pure (fits_scalar nofun nofun trivial)
  · exact hword _ fun word => fits_scalar nofun nofun trivial
  · exact hword _ fun word => fits_scalar nofun nofun trivial
  · refine yields_readText.bind fun text htext => ?_
    exact .pure (fits_scalar nofun nofun htext)
  · exact hword _ fun word => fits_scalar nofun nofun trivial
  · refine (yields_readCount _).bind fun count hcount => (yields_readMany h count).bind ?_
    rintro items ⟨hlength, hitems⟩
    exact .pure (fits_list.2 ⟨hlength ▸ hcount, hitems⟩)
  · refine (yields_readCount _).bind fun count hcount => ?_
    refine (yields_readEntries h count ⟨rfl, List.Pairwise.nil, nofun⟩).bind ?_
    rintro entries ⟨hlength, hsorted, hentries⟩
    rw [List.length_nil, Nat.zero_add] at hlength
    exact .pure (fits_map.2 ⟨⟨hlength ▸ hcount, hsorted⟩, hentries⟩)
  · exact .throw _

theorem yields_readValue (levels : Nat) : Yields (readValue levels) (Fits levels) := by
  induction levels with
  | zero => exact .throw _
  | succ levels ih =>
    have htag : Yields readU8 fun _ => True := fun _ _ _ _ => trivial
    exact htag.bind fun tag _ => yields_readContent ih tag

end

theorem decodeData_fits {bytes : Bytes} {data : Data} (h : decodeData bytes = .ok data) :
    Fits (valueMaxDepth + 1) data := by
  unfold decodeData at h
  split at h
  · contradiction
  · split at h
    · contradiction
    · split at h
      · contradiction
      · rename_i hread
        split at h
        · contradiction
        · cases h
          exact yields_readValue _ _ _ _ hread

/-! ### What was written is read -/

theorem writeItems_eq (items : List Data) : writeItems items = items.flatMap writeValue := by
  induction items with
  | nil => rfl
  | cons item items ih => rw [writeItems, ih, List.flatMap_cons]

def writeEntry (entry : Bytes × Data) : Bytes := writeText entry.1 ++ writeValue entry.2

theorem writeEntries_eq (entries : Entries) : writeEntries entries = entries.flatMap writeEntry := by
  induction entries with
  | nil => rfl
  | cons entry entries ih =>
    rw [writeEntries, ih, List.flatMap_cons, writeEntry]

theorem writeValue_pos (data : Data) : 1 ≤ (writeValue data).length := by
  cases data <;> exact Nat.le_add_left _ _

theorem length_le_flatMap {α : Type} {write : α → Bytes} (h : ∀ value, 1 ≤ (write value).length)
    (values : List α) : values.length ≤ (values.flatMap write).length := by
  induction values with
  | nil => exact Nat.le_refl _
  | cons value values ih =>
    rw [List.flatMap_cons, List.length_append, List.length_cons, Nat.add_comm]
    exact Nat.add_le_add (h value) ih

theorem reads_readText {text : Bytes} (h : text.length < 2 ^ 32) : Reads readText (writeText text) text := by
  apply Net.Reads.size h
  intro size hsize
  exact Net.reads_readSized hsize.symm

theorem Reads.count {α : Type} {message : String} {next : Nat → BinaryReader α} {count : Nat}
    {bytes : Bytes} {value : α} (hcount : count < 2 ^ 32) (hbytes : count ≤ bytes.length)
    (hnext : Reads (next count) bytes value) :
    Reads (readCount message >>= next) (storeLe 4 count ++ bytes) value := by
  have hassoc : (readCount message >>= next) = (do
      let count ← readU32
      let left ← remaining
      require (count.toNat ≤ left) .invalidEncoding message
      next count.toNat) := by
    simp only [readCount, bind_assoc, pure_bind]
  rw [hassoc]
  refine Net.Reads.size hcount fun raw hraw => Reads.remaining fun left hleft => ?_
  rw [hraw]
  exact Net.Reads.require (Nat.le_trans hbytes hleft) hnext

section

variable {read : BinaryReader Data}

theorem reads_readEntries {entries before : Entries}
    (h : ∀ entry ∈ entries, entry.1.length < 2 ^ 32 ∧ Reads read (writeValue entry.2) entry.2)
    (hsorted : Sorted bytesLess Prod.fst (before ++ entries)) :
    Reads (readEntries read entries.length before) (entries.flatMap writeEntry) (before ++ entries) := by
  induction entries generalizing before with
  | nil =>
    rw [List.append_nil]
    exact .pure before
  | cons entry entries ih =>
    obtain ⟨⟨hkey, hitem⟩, hrest⟩ := List.forall_mem_cons.1 h
    rw [List.append_cons] at hsorted ⊢
    have hlast : ∀ other ∈ before, bytesLess other.1 entry.1 = true := by
      intro other hother
      have hbefore : Sorted bytesLess Prod.fst (before ++ [entry]) :=
        (List.pairwise_append.1 hsorted).1
      exact (List.pairwise_append.1 hbefore).2.2 other hother entry List.mem_cons_self
    have hemplace : emplace bytesLess entry.1 entry.2 before = some (before ++ [entry]) :=
      emplace_append bytesLess_order hlast
    rw [List.flatMap_cons, writeEntry, List.append_assoc]
    apply (reads_readText hkey).bind
    apply hitem.bind
    rw [hemplace]
    exact ih hrest hsorted

theorem reads_readWord (value : BitVec 64 → Data) (word : BitVec 64) :
    Reads (readWord value) (storeLe 8 word.toNat) (value word) := by
  apply Net.Reads.word word.isLt
  intro raw hraw
  rw [hraw, BitVec.ofNat_toNat, BitVec.setWidth_eq]
  exact .pure _

end

theorem reads_readValue {levels : Nat} {data : Data} (h : Fits levels data) :
    Reads (readValue levels) (writeValue data) data := by
  induction data using Data.inside generalizing levels with
  | null =>
    cases levels with
    | zero => exact absurd h.nesting (Nat.not_lt_zero _)
    | succ levels => exact (Net.reads_readU8 0).bind_pure (.pure _)
  | boolean flag =>
    cases levels with
    | zero => exact absurd h.nesting (Nat.not_lt_zero _)
    | succ levels =>
      apply (Net.reads_readU8 1).bind
      apply (Net.reads_readU8 _).bind_pure
      cases flag with
      | true => exact Net.Reads.require (by decide) (.pure _)
      | false => exact Net.Reads.require (by decide) (.pure _)
  | integer number =>
    cases levels with
    | zero => exact absurd h.nesting (Nat.not_lt_zero _)
    | succ levels => exact (Net.reads_readU8 2).bind (reads_readWord _ _)
  | real bits =>
    cases levels with
    | zero => exact absurd h.nesting (Nat.not_lt_zero _)
    | succ levels => exact (Net.reads_readU8 3).bind (reads_readWord _ _)
  | text bytes =>
    cases levels with
    | zero => exact absurd h.nesting (Nat.not_lt_zero _)
    | succ levels => exact (Net.reads_readU8 4).bind ((reads_readText h.counted).bind_pure (.pure _))
  | id number =>
    cases levels with
    | zero => exact absurd h.nesting (Nat.not_lt_zero _)
    | succ levels => exact (Net.reads_readU8 5).bind (reads_readWord _ _)
  | list items ih =>
    cases levels with
    | zero => exact absurd h.nesting (Nat.not_lt_zero _)
    | succ levels =>
      obtain ⟨hcount, hitems⟩ := fits_list.1 h
      have hmany : Reads (readMany (readValue levels) items.length) (items.flatMap writeValue) items :=
        reads_readMany_flatMap fun item hitem => ih item hitem (hitems item hitem)
      rw [writeValue, writeItems_eq]
      apply (Net.reads_readU8 6).bind
      exact Reads.count hcount (length_le_flatMap writeValue_pos items) (hmany.bind_pure (.pure _))
  | map entries ih =>
    cases levels with
    | zero => exact absurd h.nesting (Nat.not_lt_zero _)
    | succ levels =>
      obtain ⟨⟨hcount, hsorted⟩, hentries⟩ := fits_map.1 h
      have hmany : Reads (readEntries (readValue levels) entries.length [])
          (entries.flatMap writeEntry) ([] ++ entries) :=
        reads_readEntries (fun entry hentry => ⟨(hentries entry hentry).1,
          ih entry hentry (hentries entry hentry).2⟩) hsorted
      have hpos : ∀ entry, 1 ≤ (writeEntry entry).length := by
        intro entry
        rw [writeEntry, List.length_append]
        exact Nat.le_trans (writeValue_pos entry.2) (Nat.le_add_left _ _)
      rw [writeValue, writeEntries_eq]
      apply (Net.reads_readU8 7).bind
      exact Reads.count hcount (length_le_flatMap hpos entries) (hmany.bind_pure (.pure _))

theorem decodeData_writeValue {data : Data} (h : Fits (valueMaxDepth + 1) data) :
    decodeData (valueEncodingVersion :: writeValue data) = .ok data := by
  have hversion : readU8 ([valueEncodingVersion] ++ writeValue data) =
      .ok (valueEncodingVersion, writeValue data) := Net.reads_readU8 valueEncodingVersion _
  have hvalue : readValue (valueMaxDepth + 1) (writeValue data) = .ok (data, []) :=
    (reads_readValue h).readsAll
  unfold decodeData
  rw [show valueEncodingVersion :: writeValue data = [valueEncodingVersion] ++ writeValue data from rfl,
    hversion]
  change (if valueEncodingVersion ≠ valueEncodingVersion then _ else _) = _
  rw [if_neg (not_not.2 rfl), hvalue]
  rfl

/-- `decode`. -/
def decode (bytes : Bytes) : Except Error Value :=
  match h : decodeData bytes with
  | .error error => .error error
  | .ok data => .ok ⟨data, (decodeData_fits h).ordered⟩

theorem decode_eq_ok_iff {bytes : Bytes} {value : Value} :
    decode bytes = .ok value ↔ decodeData bytes = .ok value.data := by
  obtain ⟨data, hordered⟩ := value
  unfold decode
  split
  · rename_i hdecode
    rw [hdecode]
    exact iff_of_false nofun nofun
  · rename_i data' hdecode
    have hresult : (Except.ok data' : Except Error Data) = .ok data ↔ data' = data :=
      ⟨Except.ok.inj, congrArg _⟩
    refine Iff.trans ?_ (hdecode ▸ hresult.symm)
    exact ⟨fun h => congrArg Value.data (Except.ok.inj h), fun h => by subst h; rfl⟩

/-- A value whose texts and collections 32 bits can count is read back just when its depth is one that the
reader takes; and what was read is read back. -/
theorem decode_encode_iff :
    (∀ value : Value, value.data.Throughout Data.Counted →
      (decode (encode value) = .ok value ↔ value.data.nesting ≤ valueMaxDepth)) ∧
    ∀ bytes value, decode bytes = .ok value → decode (encode value) = .ok value := by
  have hreads : ∀ value : Value, Fits (valueMaxDepth + 1) value.data →
      decode (encode value) = .ok value := by
    intro value hfits
    exact decode_eq_ok_iff.2 (decodeData_writeValue hfits)
  constructor
  · intro value hcounted
    constructor
    · intro hdecode
      exact Nat.le_of_lt_succ (decodeData_fits (decode_eq_ok_iff.1 hdecode)).nesting
    · intro hnesting
      exact hreads value ⟨Nat.lt_succ_of_le hnesting, hcounted, value.ordered⟩
  · intro bytes value hdecode
    exact hreads value (decodeData_fits (decode_eq_ok_iff.1 hdecode))

def nestedList : Nat → Value
  | 0 => ⟨.null, trivial⟩
  | depth + 1 => ⟨.list [(nestedList depth).data], Data.throughout_list.2
      ⟨trivial, List.forall_mem_singleton.2 (nestedList depth).ordered⟩⟩

theorem counted_nestedList (depth : Nat) : (nestedList depth).data.Throughout Data.Counted := by
  induction depth with
  | zero => exact trivial
  | succ depth ih =>
    exact Data.throughout_list.2 ⟨by simp [Data.Counted], List.forall_mem_singleton.2 ih⟩

theorem nesting_nestedList (depth : Nat) : (nestedList depth).data.nesting = depth := by
  induction depth with
  | zero => rfl
  | succ depth ih => rw [nestedList, Data.nesting, Data.nestingOfItems, Data.nestingOfItems, ih, Nat.max_zero]

/-- Two lists around nothing come back from their bytes. -/
theorem decode_encode_two_lists :
    decode (encode (nestedList 2)) = .ok (nestedList 2) ∧
      decode (encode (nestedList 2)) = .ok (nestedList 2) :=
  have hread := (decode_encode_iff.1 (nestedList 2) (counted_nestedList 2)).2
    (by rw [nesting_nestedList]; decide)
  ⟨hread, decode_encode_iff.2 _ _ hread⟩

/-- The encoder writes a value that lies one list deeper than the reader goes. -/
theorem decode_one_too_deep : (nestedList 65).data.Throughout Data.Counted ∧
    decode (encode (nestedList 65)) ≠ .ok (nestedList 65) := by
  refine ⟨counted_nestedList 65, fun hdecode => ?_⟩
  have hfits := decodeData_fits (decode_eq_ok_iff.1 hdecode)
  have hnesting := hfits.nesting
  rw [nesting_nestedList] at hnesting
  exact absurd hnesting (by decide)

end MoDb.Ops
