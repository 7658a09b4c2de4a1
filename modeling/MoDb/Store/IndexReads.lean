import MoDb.Store.IndexAgreement

/-!
# Index reads at a snapshot

The index holds the keys of the current objects. It may answer for an older epoch as long as every
key that a reader sees there is still in it; removals tell by `index_removed_epoch_`, and when the
store is opened every index starts anew. The creation of an index does not tell.
-/

namespace MoDb.Store

open Effect Storage Index Mvcc

variable {H Id : Type} [DecidableEq Id] [RecordStore H Id DecodedObject Error NotFound]

namespace ObjectStore

variable {store store' : ObjectStore H Id} {info info' : IndexInfo} {epoch : Nat}

def EncodableAt (store : ObjectStore H Id) (epoch : Nat) (info : IndexInfo) : Prop :=
  ∀ id object, store.cells.readAt epoch id = some object → store.TypeNamed object info.typeName →
    Encodable object.fields info.fieldId

/-- `index_serves_epoch`, for the index that was found. -/
def Served (store : ObjectStore H Id) (epoch : Nat) (info : IndexInfo) : Prop :=
  max store.openedEpoch (info.removedEpoch.getD 0) ≤ epoch

/-- Where the index answers for the epoch, it has every key that a reader sees there. -/
structure Serves (store : ObjectStore H Id) (epoch : Nat) (info : IndexInfo) : Prop where
  encodable : store.EncodableAt epoch info
  mem : store.Served epoch info → ∀ id object key, store.cells.readAt epoch id = some object →
    store.HasKey info.typeName info.fieldId object key → (key, id) ∈ info.tree.entries

def NamesStable (store : ObjectStore H Id) : Prop :=
  ∀ id cell, store.cells id = some cell → ∀ object version, cell.current = some object →
    cell.previous = some version → ∀ name,
      store.TypeNamed version.1 name ↔ store.TypeNamed object name

theorem NamesStable.named_iff (h : store.NamesStable) {id : ObjectId} {object current : DecodedObject}
    (hread : store.cells.readAt epoch id = some object) (hnow : store.cells.now id = some current)
    (name : String) : store.TypeNamed object name ↔ store.TypeNamed current name := by
  obtain ⟨cell, hcell, hcurrent⟩ := Option.bind_eq_some_iff.1 hnow
  unfold Cells.readAt at hread
  rw [hcell, Option.bind_some] at hread
  unfold Cell.readAt at hread
  split at hread
  · rw [hread] at hcurrent
    rw [Option.some.inj hcurrent]
  · obtain ⟨version, hversion, hobject⟩ := Option.bind_eq_some_iff.1 hread
    split at hobject
    · rw [← Option.some.inj hobject]
      exact h id cell hcell current version hcurrent hversion name
    · cases hobject

theorem Exact.serves (h : store.Exact info) (hread : store.cells.readAt epoch = store.cells.now) :
    store.Serves epoch info where
  encodable id object hobject hnamed := h.encodable id object (hread ▸ hobject) hnamed
  mem _ id object key hobject hkey := (h.mem_iff key id).2 ⟨object, hread ▸ hobject, hkey⟩

/-! ### Answers -/

/-- `index_candidate_at` accepts the object. -/
def accepts (store : ObjectStore H Id) (epoch : Nat) (field : FieldId) (lo hi : AttributeValue)
    (id : ObjectId) : Bool :=
  match store.indexCandidateAt id epoch field lo hi with
  | .ok (some _) => true
  | _ => false

/-- The answer of `index_range_at` and what `index_candidate_at` makes of it: no error, and the
objects of the type that a reader at the epoch sees with a key in the bounds, each once, in the order
of their keys there and of their ids. -/
def ReadsExactly (store : ObjectStore H Id) (epoch : Nat) (typeName : String) (field : FieldId)
    (lo hi : AttributeValue) (loKey hiKey : Bytes) : Prop :=
  ∃ ids, store.indexRangeAt typeName field lo hi epoch = .ok ids ∧
    (∀ id ∈ ids, ∃ candidate, store.indexCandidateAt id epoch field lo hi = .ok candidate) ∧
    (ids.filter (store.accepts epoch field lo hi)).Nodup ∧
    ∃ hits, Sorted hits ∧ ids.filter (store.accepts epoch field lo hi) = hits.map Prod.snd ∧
      ∀ key id, (key, id) ∈ hits ↔ inBounds loKey hiKey key = true ∧ ∃ object,
        store.getAt id epoch = .ok object ∧ store.HasKey typeName field object key

section Answers

variable {typeName : String} {field : FieldId} {lo hi : AttributeValue} {loKey hiKey : Bytes}

theorem indexCandidateAt_of_key {id : ObjectId} {object : DecodedObject} {key : Bytes}
    (hget : store.getAt id epoch = .ok object) (hkey : IndexedKey object.fields field key)
    (hlo : encodeKey lo = .ok loKey) (hhi : encodeKey hi = .ok hiKey) :
    store.indexCandidateAt id epoch field lo hi =
      .ok (if inBounds loKey hiKey key then some object else none) := by
  obtain ⟨value, hvalue, hnull, hencode⟩ := hkey
  unfold indexCandidateAt
  rw [hget]
  simp only [hvalue, hnull, Bool.false_eq_true, if_false, hencode, hlo, hhi]
  change (if inBounds loKey hiKey key = true then _ else _) = _
  split <;> rfl

theorem indexCandidateAt_of_no_key {id : ObjectId}
    (hnone : ∀ object, store.getAt id epoch = .ok object →
      ∀ value, fieldValue object.fields field = some value → value.isNull = true)
    (herror : ∀ error, store.getAt id epoch = .error error → NotFound error) :
    store.indexCandidateAt id epoch field lo hi = .ok none := by
  unfold indexCandidateAt
  cases hget : store.getAt id epoch with
  | error error =>
    have hcode : error.code = .recordNotFound := herror error hget
    exact if_pos hcode
  | ok object =>
    cases hvalue : fieldValue object.fields field with
    | none => simp only [hvalue]
    | some value => simp only [hvalue, hnone object hget value hvalue, if_true]

theorem indexCandidateAt_cases (h : store.Sound) {id : ObjectId}
    (hencodable : ∀ object, store.cells.readAt epoch id = some object →
      Encodable object.fields field)
    (hlo : encodeKey lo = .ok loKey) (hhi : encodeKey hi = .ok hiKey) :
    (∃ candidate, store.indexCandidateAt id epoch field lo hi = .ok candidate) ∧
      (store.accepts epoch field lo hi id = true ↔ ∃ object key, store.getAt id epoch = .ok object ∧
        IndexedKey object.fields field key ∧ inBounds loKey hiKey key = true) := by
  by_cases hkey : ∃ object key, store.getAt id epoch = .ok object ∧
      IndexedKey object.fields field key
  · obtain ⟨object, key, hget, hindexed⟩ := hkey
    have hcandidate := indexCandidateAt_of_key hget hindexed hlo hhi
    refine ⟨⟨_, hcandidate⟩, ?_⟩
    unfold accepts
    rw [hcandidate]
    by_cases hbounds : inBounds loKey hiKey key = true
    · rw [if_pos hbounds]
      exact ⟨fun _ => ⟨object, key, hget, hindexed, hbounds⟩, fun _ => rfl⟩
    · rw [if_neg hbounds]
      refine ⟨nofun, ?_⟩
      rintro ⟨object', key', hget', hindexed', hbounds'⟩
      rw [hget] at hget'
      injection hget' with heq
      rw [hindexed.unique (heq ▸ hindexed')] at hbounds
      exact absurd hbounds' hbounds
  · have hcandidate : store.indexCandidateAt id epoch field lo hi = .ok none := by
      apply indexCandidateAt_of_no_key
      · intro object hget value hvalue
        by_contra hnull
        have hnull : value.isNull = false := Bool.not_eq_true _ ▸ hnull
        obtain ⟨key, hencode⟩ :=
          hencodable object ((getAt_eq_ok h).1 hget) value hvalue hnull
        exact hkey ⟨object, key, hget, value, hvalue, hnull, hencode⟩
      · intro error herror
        cases hread : store.cells.readAt epoch id with
        | none =>
          obtain ⟨error', herror', hcode⟩ := getAt_of_none h hread
          rw [herror] at herror'
          injection herror' with heq
          exact heq ▸ hcode
        | some object =>
          rw [getAt_of_some h hread] at herror
          cases herror
    refine ⟨⟨none, hcandidate⟩, ?_⟩
    unfold accepts
    rw [hcandidate]
    refine ⟨nofun, ?_⟩
    rintro ⟨object, key, hget, hindexed, -⟩
    exact absurd ⟨object, key, hget, hindexed⟩ hkey

omit [DecidableEq Id] [RecordStore H Id DecodedObject Error NotFound] in
theorem scanKeys_ok {objects : List DecodedObject}
    (hencodable : ∀ object ∈ objects, store.TypeNamed object typeName →
      Encodable object.fields field) :
    ∃ hits, store.scanKeys typeName field loKey hiKey objects = .ok hits ∧
      (hits.map Prod.snd).Sublist (objects.map DecodedObject.id) ∧
      ∀ key id, (key, id) ∈ hits ↔ inBounds loKey hiKey key = true ∧ ∃ object ∈ objects,
        object.id = id ∧ store.HasKey typeName field object key := by
  induction objects with
  | nil => exact ⟨[], rfl, List.Sublist.slnil, by simp⟩
  | cons object rest ih =>
    obtain ⟨hits, hrest, hsublist, hmem⟩ :=
      ih fun found hin => hencodable found (List.mem_cons_of_mem object hin)
    by_cases hkey : ∃ key, store.HasKey typeName field object key
    · obtain ⟨key, hkey⟩ := hkey
      have hkey' := hkey
      obtain ⟨⟨type, htype, hname⟩, value, hvalue, hnull, hencode⟩ := hkey'
      have hrun : store.scanKeys typeName field loKey hiKey (object :: rest) =
          .ok (if inBounds loKey hiKey key then (key, object.id) :: hits else hits) := by
        rw [scanKeys.eq_2]
        simp only [htype, hname, ne_eq, not_true_eq_false, if_false, hvalue, hnull,
          Bool.false_eq_true, hencode, hrest]
        change (if inBounds loKey hiKey key = true then _ else _) = _
        split <;> rfl
      by_cases hbounds : inBounds loKey hiKey key = true
      · rw [if_pos hbounds] at hrun
        refine ⟨_, hrun, hsublist.cons_cons _, fun key' id => ?_⟩
        rw [List.mem_cons, hmem, List.exists_mem_cons_iff]
        constructor
        · rintro (heq | ⟨hin, hfound⟩)
          · injection heq with hkeys hids
            subst hkeys hids
            exact ⟨hbounds, .inl ⟨rfl, hkey⟩⟩
          · exact ⟨hin, .inr hfound⟩
        · rintro ⟨hin, ⟨hid, -, hindexed⟩ | hfound⟩
          · rw [hkey.2.unique hindexed, hid]
            exact .inl rfl
          · exact .inr ⟨hin, hfound⟩
      · rw [if_neg hbounds] at hrun
        refine ⟨_, hrun, hsublist.cons _, fun key' id => ?_⟩
        rw [hmem, List.exists_mem_cons_iff]
        apply and_congr_right
        intro hin
        refine (or_iff_right ?_).symm
        rintro ⟨-, -, hindexed⟩
        exact hbounds (hkey.2.unique hindexed ▸ hin)
    · have hrun : store.scanKeys typeName field loKey hiKey (object :: rest) = .ok hits := by
        rw [scanKeys.eq_2]
        cases htype : store.findType object.type with
        | error error => exact hrest
        | ok type =>
          by_cases hname : type.name = typeName
          · simp only [hname, ne_eq, not_true_eq_false, if_false]
            have hnamed : store.TypeNamed object typeName := ⟨type, htype, hname⟩
            cases hvalue : fieldValue object.fields field with
            | none => exact hrest
            | some value =>
              cases hnull : value.isNull with
              | true => simp only [hnull, if_true, hrest]
              | false =>
                obtain ⟨key, hencode⟩ :=
                  hencodable object List.mem_cons_self hnamed value hvalue hnull
                exact absurd ⟨key, hnamed, value, hvalue, hnull, hencode⟩ hkey
          · simp only [ne_eq, hname, not_false_eq_true, if_true, hrest]
      refine ⟨hits, hrun, hsublist.cons _, fun key id => ?_⟩
      rw [hmem, List.exists_mem_cons_iff]
      apply and_congr_right
      intro _
      refine (or_iff_right ?_).symm
      rintro ⟨-, hfound⟩
      exact hkey ⟨key, hfound⟩

theorem sorted_foldr_insertEntry {entries : List Index.Entry} (h : entries.Nodup) :
    Sorted (entries.foldr insertEntry []) ∧
      ∀ entry, entry ∈ entries.foldr insertEntry [] ↔ entry ∈ entries := by
  induction entries with
  | nil => exact ⟨List.Pairwise.nil, fun _ => Iff.rfl⟩
  | cons entry rest ih =>
    obtain ⟨hnot, hnodup⟩ := List.nodup_cons.1 h
    obtain ⟨hsorted, hmem⟩ := ih hnodup
    refine ⟨hsorted.insertEntry fun hin => hnot ((hmem entry).1 hin), fun entry' => ?_⟩
    rw [List.foldr_cons, mem_insertEntry, hmem, List.mem_cons]

omit [DecidableEq Id] [RecordStore H Id DecodedObject Error NotFound] in
theorem findIndex_mem (hfind : store.findIndex typeName field = some info) :
    info ∈ store.indexes.getD [] ∧ info.typeName = typeName ∧ info.fieldId = field := by
  unfold findIndex at hfind
  have hsome := List.find?_some hfind
  exact ⟨List.mem_of_find?_eq_some hfind, of_decide_eq_true hsome⟩

theorem accepted_eq (h : store.Sound) {entries : List Index.Entry} (hsorted : Sorted entries)
    (hlo : encodeKey lo = .ok loKey) (hhi : encodeKey hi = .ok hiKey)
    (hnamed : ∀ key id, (key, id) ∈ entries → ∀ object, store.cells.readAt epoch id = some object →
      store.TypeNamed object typeName ∧ Encodable object.fields field ∧
        ∀ key', IndexedKey object.fields field key' → key' = key)
    (hmem : ∀ key id object, store.cells.readAt epoch id = some object →
      store.HasKey typeName field object key → inBounds loKey hiKey key = true →
      (key, id) ∈ entries) :
    (∀ id ∈ entries.map Prod.snd, ∃ candidate,
      store.indexCandidateAt id epoch field lo hi = .ok candidate) ∧
    ((entries.map Prod.snd).filter (store.accepts epoch field lo hi)).Nodup ∧
    ∃ hits, Sorted hits ∧
      (entries.map Prod.snd).filter (store.accepts epoch field lo hi) = hits.map Prod.snd ∧
      ∀ key id, (key, id) ∈ hits ↔ inBounds loKey hiKey key = true ∧ ∃ object,
        store.getAt id epoch = .ok object ∧ store.HasKey typeName field object key := by
  have hcases : ∀ key id, (key, id) ∈ entries →
      (∃ candidate, store.indexCandidateAt id epoch field lo hi = .ok candidate) ∧
      (store.accepts epoch field lo hi id = true ↔ ∃ object key, store.getAt id epoch = .ok object ∧
        IndexedKey object.fields field key ∧ inBounds loKey hiKey key = true) :=
    fun key id hin => indexCandidateAt_cases h
      (fun object hread => (hnamed key id hin object hread).2.1) hlo hhi
  have hits_mem : ∀ key id,
      (key, id) ∈ entries.filter (fun entry => store.accepts epoch field lo hi entry.2) ↔
        inBounds loKey hiKey key = true ∧ ∃ object, store.getAt id epoch = .ok object ∧
          store.HasKey typeName field object key := by
    intro key id
    rw [List.mem_filter]
    constructor
    · rintro ⟨hin, haccepts⟩
      obtain ⟨object, key', hget, hindexed, hbounds⟩ := ((hcases key id hin).2).1 haccepts
      obtain ⟨htype, -, hunique⟩ := hnamed key id hin object ((getAt_eq_ok h).1 hget)
      have hkey := hunique key' hindexed
      subst hkey
      exact ⟨hbounds, object, hget, htype, hindexed⟩
    · rintro ⟨hbounds, object, hget, hkey⟩
      have hin := hmem key id object ((getAt_eq_ok h).1 hget) hkey hbounds
      exact ⟨hin, ((hcases key id hin).2).2 ⟨object, key, hget, hkey.2, hbounds⟩⟩
  have hfilter : (entries.map Prod.snd).filter (store.accepts epoch field lo hi) =
      (entries.filter fun entry => store.accepts epoch field lo hi entry.2).map Prod.snd :=
    List.filter_map
  refine ⟨fun id hid => ?_, ?_, _, hsorted.filter _, hfilter, hits_mem⟩
  · obtain ⟨⟨key, id⟩, hin, rfl⟩ := List.mem_map.1 hid
    exact (hcases key id hin).1
  · rw [hfilter]
    refine List.Nodup.map_on ?_ (Sorted.nodup (hsorted.filter _))
    rintro ⟨key, id⟩ hin ⟨key', id'⟩ hin' hid
    change id = id' at hid
    subst hid
    obtain ⟨-, object, hget, hkey⟩ := (hits_mem key id).1 hin
    obtain ⟨-, object', hget', hkey'⟩ := (hits_mem key' id).1 hin'
    rw [hget] at hget'
    injection hget' with heq
    rw [hkey.2.unique (heq ▸ hkey'.2)]

theorem readsExactly (h : store.Sound) (hnames : store.NamesStable)
    (hfind : store.findIndex typeName field = some info) (hexact : store.Exact info)
    (hserves : store.Serves epoch info) (hlo : encodeKey lo = .ok loKey)
    (hhi : encodeKey hi = .ok hiKey) :
    store.ReadsExactly epoch typeName field lo hi loKey hiKey := by
  obtain ⟨-, rfl, rfl⟩ := findIndex_mem hfind
  by_cases hserved : store.Served epoch info
  · refine ⟨info.tree.range loKey hiKey, ?_, accepted_eq h (info.tree.sorted.filter _) hlo hhi ?_ ?_⟩
    · have hyes : store.indexServesEpoch info.typeName info.fieldId epoch = true := by
        unfold indexServesEpoch
        rw [hfind]
        have hle : max store.openedEpoch (info.removedEpoch.getD 0) ≤ epoch := hserved
        exact decide_eq_true hle
      unfold indexRangeAt indexRange
      rw [if_pos hyes, hfind]
      simp only [hlo, hhi]
      rfl
    · intro key id hin object hread
      obtain ⟨current, hnow, hnamed, hindexed⟩ :=
        (hexact.mem_iff key id).1 (List.mem_of_mem_filter hin)
      have htype := (hnames.named_iff hread hnow info.typeName).2 hnamed
      refine ⟨htype, hserves.encodable id object hread htype, fun key' hindexed' => ?_⟩
      obtain ⟨current', hnow', -, hcurrent⟩ :=
        (hexact.mem_iff key' id).1 (hserves.mem hserved id object key' hread ⟨htype, hindexed'⟩)
      rw [hnow] at hnow'
      exact (Option.some.inj hnow' ▸ hcurrent).unique hindexed
    · intro key id object hread hkey hbounds
      exact List.mem_filter.2 ⟨hserves.mem hserved id object key hread hkey, hbounds⟩
  · obtain ⟨objects, hscan, hnodup, hobjects⟩ := scanAt_eq h epoch
    obtain ⟨hits, hkeys, hsublist, hmem⟩ := @scanKeys_ok H Id store info.typeName info.fieldId loKey
      hiKey objects fun object hin hnamed =>
        hserves.encodable object.id object ((hobjects object).1 hin) hnamed
    obtain ⟨hsorted, hsame⟩ :=
      sorted_foldr_insertEntry ((hnodup.sublist hsublist).of_map _)
    refine ⟨(hits.foldr insertEntry []).map Prod.snd, ?_, accepted_eq h hsorted hlo hhi ?_ ?_⟩
    · have hno : ¬store.indexServesEpoch info.typeName info.fieldId epoch = true := by
        intro hyes
        unfold indexServesEpoch at hyes
        rw [hfind] at hyes
        have hle : max store.openedEpoch (info.removedEpoch.getD 0) ≤ epoch := of_decide_eq_true hyes
        exact hserved hle
      have hsome : ¬(store.findIndex info.typeName info.fieldId).isNone = true := by
        rw [hfind]
        exact Bool.false_ne_true
      unfold indexRangeAt
      rw [if_neg hno, if_neg hsome]
      simp only [hlo, hhi, hscan]
      change (do
        let hits ← store.scanKeys info.typeName info.fieldId loKey hiKey objects
        pure ((hits.foldr insertEntry []).map Prod.snd)) = _
      rw [hkeys]
      rfl
    · intro key id hin object hread
      obtain ⟨-, found, hfound, hid, hnamed, hindexed⟩ := (hmem key id).1 ((hsame _).1 hin)
      have hread' := (hobjects found).1 hfound
      rw [hid, hread] at hread'
      have heq := Option.some.inj hread'
      subst heq
      exact ⟨hnamed, hserves.encodable id object hread hnamed,
        fun key' hindexed' => hindexed'.unique hindexed⟩
    · intro key id object hread hkey hbounds
      obtain ⟨hid, -⟩ := id_of_readAt h hread
      subst hid
      exact (hsame _).2 ((hmem key object.id).2 ⟨hbounds, object, (hobjects object).2 hread, rfl, hkey⟩)

end Answers

/-! ### What keeps an index serving -/

theorem Serves.reindexed {write : Write} {snapshots : List Nat} {typeName : String}
    (h : store.Serves epoch info) (hepoch : epoch < store.transactionEpoch)
    (hbinds : Binds snapshots store write typeName store') {infos : Option (List IndexInfo)}
    (hreindexed : Reindexed typeName (write.target store) (store.cells.now (write.target store))
      (write.value store) store.transactionEpoch info info') :
    Serves { store' with indexes := infos } epoch info' := by
  have hread : ∀ {id object}, store'.cells.readAt epoch id = some object →
      store.cells.readAt epoch id = some object := by
    intro id object hobject
    rw [hbinds.cells_eq] at hobject
    exact readAt_of_write hepoch hobject
  have hnamed : ∀ object name, store'.TypeNamed object name ↔ store.TypeNamed object name :=
    typeNamed_congr hbinds.types_eq
  refine ⟨fun id object hobject hname => ?_, fun hserved id object key hobject hkey => ?_⟩
  · rw [hreindexed.typeName_eq] at hname
    rw [hreindexed.fieldId_eq]
    exact h.encodable id object (hread hobject) ((hnamed object _).1 hname)
  · have hle : max store'.openedEpoch (info'.removedEpoch.getD 0) ≤ epoch := hserved
    rcases hreindexed.removedEpoch_eq with hremoved | ⟨hsame, hkept⟩
    · rw [hremoved] at hle
      exact absurd (Nat.le_trans (Nat.le_max_right _ _) hle) (Nat.not_le.2 hepoch)
    · rw [hsame, hbinds.openedEpoch_eq] at hle
      rw [hreindexed.typeName_eq, hreindexed.fieldId_eq] at hkey
      have hmem := h.mem hle id object key (hread hobject) ⟨(hnamed object _).1 hkey.1, hkey.2⟩
      exact (hreindexed.mem_iff _).2 (.inl ⟨hmem, fun old hold => hkept old hold _ hmem⟩)

theorem Serves.congr (h : store.Serves epoch info)
    (hread : store'.cells.readAt epoch = store.cells.readAt epoch)
    (hnamed : ∀ id object, store.cells.readAt epoch id = some object → ∀ name,
      store'.TypeNamed object name ↔ store.TypeNamed object name)
    (hopened : store'.openedEpoch = store.openedEpoch) (hsame : SameIndex info info') :
    store'.Serves epoch info' where
  encodable id object hobject hname := by
    rw [hread] at hobject
    rw [hsame.typeName_eq] at hname
    rw [hsame.fieldId_eq]
    exact h.encodable id object hobject ((hnamed id object hobject _).1 hname)
  mem hserved id object key hobject hkey := by
    have hle : max store'.openedEpoch (info'.removedEpoch.getD 0) ≤ epoch := hserved
    rw [hopened, hsame.removedEpoch_eq] at hle
    rw [hread] at hobject
    rw [hsame.typeName_eq, hsame.fieldId_eq] at hkey
    rw [hsame.tree_eq]
    exact h.mem hle id object key hobject ⟨(hnamed id object hobject _).1 hkey.1, hkey.2⟩

theorem Serves.quiet (h : store.Serves epoch info) (hsound : store.Sound)
    (hquiet : store.Quiet store') (hsame : SameIndex info info') : store'.Serves epoch info' := by
  refine h.congr (by rw [hquiet.cells_eq]) ?_ hquiet.openedEpoch_eq hsame
  intro id object hobject name
  exact hquiet.named_iff object (id_of_readAt hsound hobject).2 name

theorem NamesStable.write {write : Write} {snapshots : List Nat} {typeName : String}
    (h : store.NamesStable) (hbinds : Binds snapshots store write typeName store')
    (infos : Option (List IndexInfo)) : NamesStable { store' with indexes := infos } := by
  have hnamed : ∀ object name, store'.TypeNamed object name ↔ store.TypeNamed object name :=
    typeNamed_congr hbinds.types_eq
  intro id cell hcell object version hcurrent hprevious name
  refine (hnamed version.1 name).trans (Iff.trans ?_ (hnamed object name).symm)
  change store'.cells id = some cell at hcell
  rw [hbinds.cells_eq] at hcell
  by_cases hid : id = write.target store
  · subst hid
    rw [Function.update_self] at hcell
    rw [← Option.some.inj hcell] at hcurrent hprevious
    obtain ⟨before, hbefore, hversion⟩ := Option.bind_eq_some_iff.1 hprevious
    obtain ⟨old, hold, rfl⟩ := Option.map_eq_some_iff.1 hversion
    have hnow : store.cells.now (write.target store) = some old :=
      Option.bind_eq_some_iff.2 ⟨before, hbefore, hold⟩
    have hname := hbinds.old_named old hnow
    have hname' := hbinds.new_named object hcurrent
    constructor
    · exact fun h => hname.unique h ▸ hname'
    · exact fun h => hname'.unique h ▸ hname
  · rw [Function.update_of_ne hid] at hcell
    exact h id cell hcell object version hcurrent hprevious name

theorem NamesStable.congr (h : store.NamesStable) (hsound : store.Sound)
    (hcells : store'.cells = store.cells)
    (hnamed : ∀ object, store.Registered object → ∀ name,
      store'.TypeNamed object name ↔ store.TypeNamed object name) : store'.NamesStable := by
  intro id cell hcell object version hcurrent hprevious name
  rw [hcells] at hcell
  obtain ⟨entry, hentry, rfl⟩ := cells_eq_some.1 hcell
  obtain ⟨record, hrecord, hobject⟩ := Option.bind_eq_some_iff.1 hcurrent
  obtain ⟨⟨record', epoch⟩, hrecord', hversion⟩ := Option.bind_eq_some_iff.1 hprevious
  obtain ⟨old, hold, rfl⟩ := Option.map_eq_some_iff.1 hversion
  obtain ⟨found, hfound, -, hregistered⟩ := hsound.current hentry hrecord
  obtain ⟨found', hfound', -, hregistered'⟩ := hsound.previous hentry hrecord'
  rw [hobject] at hfound
  rw [hold] at hfound'
  rw [hnamed old (Option.some.inj hfound' ▸ hregistered') name,
    hnamed object (Option.some.inj hfound ▸ hregistered) name]
  exact h id _ hcell object (old, epoch) hcurrent hprevious name

theorem NamesStable.clears {snapshots : List Nat} (h : store.NamesStable)
    (hcleared : Clears snapshots store.cells store'.cells) (htypes : store'.types = store.types) :
    store'.NamesStable := by
  have hstable : ∀ {cells cells' : Cells ObjectId DecodedObject}, Clears snapshots cells cells' →
      ∀ id cell', cells' id = some cell' → ∃ cell, cells id = some cell ∧
        cell.current = cell'.current ∧ ∀ version, cell'.previous = some version →
          cell.previous = some version := by
    intro cells cells' hclears
    induction hclears with
    | refl => exact fun id cell hcell => ⟨cell, hcell, rfl, fun _ hprevious => hprevious⟩
    | @head cells cells' k cell hcell _ _ ih =>
      intro id cell' hcell'
      obtain ⟨middle, hmiddle, hcurrent, hprevious⟩ := ih id cell' hcell'
      by_cases hid : id = k
      · subst hid
        rw [Function.update_self] at hmiddle
        rw [← Option.some.inj hmiddle] at hcurrent hprevious
        exact ⟨cell, hcell, hcurrent, fun version hversion => by cases hprevious version hversion⟩
      · rw [Function.update_of_ne hid] at hmiddle
        exact ⟨middle, hmiddle, hcurrent, hprevious⟩
  intro id cell' hcell' object version hcurrent hprevious name
  obtain ⟨cell, hcell, hsame, hkept⟩ := hstable hcleared id cell' hcell'
  rw [typeNamed_congr htypes, typeNamed_congr htypes]
  exact h id cell hcell object version (hsame.trans hcurrent) (hkept version hprevious) name

end ObjectStore

namespace Engine

variable {engine : Engine H Id}

/-- Each open snapshot, and one that would be opened now, sees values with keys in the field; and if
a new index may answer for it, each object that it sees has the same key now. -/
def CoversIndex (engine : Engine H Id) (type : TypeDefinition) (field : FieldId) : Prop :=
  ∀ epoch ∈ engine.publishedEpoch :: engine.snapshots, ∀ id object,
    engine.store.getAt id epoch = .ok object → engine.store.TypeNamed object type.name →
    Encodable object.fields field ∧ (engine.store.openedEpoch ≤ epoch →
      ∀ key, IndexedKey object.fields field key → ∃ current, engine.store.get id = .ok current ∧
        IndexedKey current.fields field key)

def Covers (engine : Engine H Id) : Action → Prop
  | .createIndex type field => ∀ definition, engine.store.findType type = .ok definition →
    engine.CoversIndex definition field
  | _ => True

/-- The indexes are exact, and serve the epochs that are read or may be. -/
structure Serving (engine : Engine H Id) : Prop extends Agreeing engine where
  names : engine.store.NamesStable
  committed_names : engine.committed.NamesStable
  serves : ∀ epoch ∈ engine.publishedEpoch :: engine.snapshots,
    ∀ info ∈ engine.store.indexes.getD [], engine.store.Serves epoch info
  committed_encodable : ∀ epoch ∈ engine.publishedEpoch :: engine.snapshots,
    ∀ info ∈ engine.committed.indexes.getD [], engine.committed.EncodableAt epoch info

theorem readAt_resync (h : engine.Sound) (watermark : ObjectId) {epoch : Nat}
    (hepoch : engine.publishedEpoch ≤ epoch) :
    (engine.resync watermark).store.cells.readAt epoch = (engine.resync watermark).store.cells.now := by
  rw [show (engine.resync watermark).store.cells = engine.committed.cells from
    ObjectStore.cells_reopened h.committed (max engine.committed.nextObjectId watermark)]
  exact readAt_of_since_le fun hcell => Nat.le_trans (h.mvcc.saved_since hcell) hepoch

theorem Change.names [PageSize] {creates : TypeDefinition → FieldId → Prop} {engine' : Engine H Id}
    (hchange : Change creates engine engine') (h : engine.Sound) (hnames : engine.store.NamesStable)
    (hcommitted_names : engine.committed.NamesStable) :
    engine'.store.NamesStable ∧ engine'.committed.NamesStable := by
  cases hchange with
  | quiet hquiet hcommitted _ =>
    have hnames' := hnames.congr h.store hquiet.cells_eq hquiet.named_iff
    rcases hcommitted with hcommitted | hcommitted
    · exact ⟨hnames', hcommitted ▸ hcommitted_names⟩
    · exact ⟨hnames', hcommitted ▸ hnames'⟩
  | wrote write typeName infos _ _ hbinds _ => exact ⟨hnames.write hbinds infos, hcommitted_names⟩
  | indexed type field tree _ _ _ =>
    exact ⟨hnames.congr h.store rfl fun _ _ _ => Iff.rfl, hcommitted_names⟩
  | @collected store hcollected =>
    have hbegun : engine.begin.store.NamesStable := hnames.congr h.store rfl fun _ _ _ => Iff.rfl
    have hcleared : store.NamesStable := hbegun.clears hcollected.cleared hcollected.types_eq
    have hcommit : ObjectStore.NamesStable { store with
        inTransaction := false, epoch := store.transactionEpoch } :=
      hcleared.congr hcollected.sound rfl fun _ _ _ => Iff.rfl
    exact ⟨hcommit, hcommit⟩
  | @resynced epoch next watermark snapshots hepoch hnext _ =>
    have hcells := ObjectStore.cells_reopened (h.withRoot hepoch hnext).committed (max next watermark)
    have hresync : ((engine.withRoot epoch next).resync watermark).store.NamesStable :=
      hcommitted_names.congr h.committed hcells fun _ _ _ => Iff.rfl
    exact ⟨hresync, hresync⟩

theorem lt_transactionEpoch (h : engine.Sound) {epoch : Nat}
    (hepoch : epoch ∈ engine.publishedEpoch :: engine.snapshots) :
    epoch < engine.store.transactionEpoch := by
  rcases List.mem_cons.1 hepoch with rfl | hepoch
  · exact h.mvcc.published_lt
  · exact Nat.lt_of_le_of_lt (h.mvcc.snapshots_le epoch hepoch) h.mvcc.published_lt

theorem serves_backfill [PageSize] (h : engine.Sound) (hnames : engine.store.NamesStable)
    {type : TypeDefinition} {field : FieldId} {tree : KeySet} {records : List (Id × DecodedObject)}
    (hrecords : RecordStore.records engine.store.heap = .ok records)
    (htree : engine.store.backfill type.name field records KeySet.empty = .ok tree) {epoch : Nat}
    (hcovers : ∀ id object, engine.store.getAt id epoch = .ok object →
      engine.store.TypeNamed object type.name → Encodable object.fields field ∧
        (engine.store.openedEpoch ≤ epoch → ∀ key, IndexedKey object.fields field key →
          ∃ current, engine.store.get id = .ok current ∧ IndexedKey current.fields field key))
    {infos : Option (List IndexInfo)} :
    ObjectStore.Serves { engine.store with indexes := infos } epoch
      { typeName := type.name, fieldId := field, tree := tree } := by
  have hexact := @ObjectStore.exact_backfill H Id _ _ engine.store type.name _ h.store field
    records tree hrecords htree
  refine ⟨fun id object hread hnamed => ?_, fun hserved id object key hread hkey => ?_⟩
  · exact (hcovers id object (ObjectStore.getAt_of_some h.store hread) hnamed).1
  · have hopened : engine.store.openedEpoch ≤ epoch := Nat.le_trans (Nat.le_max_left _ _) hserved
    obtain ⟨current, hget, hindexed⟩ := (hcovers id object
      (ObjectStore.getAt_of_some h.store hread) hkey.1).2 hopened key hkey.2
    have hnow := (ObjectStore.get_eq_ok_iff h.store).1 hget
    have hnamed := (hnames.named_iff hread hnow type.name).1 hkey.1
    exact (hexact.mem_iff key id).2 ⟨current, hnow, hnamed, hindexed⟩

theorem Serving.change [PageSize] {engine' : Engine H Id} (h : engine.Serving)
    (hsound : engine'.Sound) (hchange : Change engine.CoversIndex engine engine') :
    engine'.Serving := by
  have hagreeing := h.toAgreeing.change hsound hchange
  obtain ⟨hnames, hcommitted_names⟩ := hchange.names h.sound h.names h.committed_names
  suffices hserving : (∀ epoch ∈ engine'.publishedEpoch :: engine'.snapshots,
        ∀ info ∈ engine'.store.indexes.getD [], engine'.store.Serves epoch info) ∧
      ∀ epoch ∈ engine'.publishedEpoch :: engine'.snapshots,
        ∀ info ∈ engine'.committed.indexes.getD [], engine'.committed.EncodableAt epoch info from
    ⟨hagreeing, hnames, hcommitted_names, hserving.1, hserving.2⟩
  cases hchange with
  | quiet hquiet hcommitted hwatched =>
    have hserves : ∀ epoch ∈ engine'.publishedEpoch :: engine'.snapshots,
        ∀ info ∈ engine'.store.indexes.getD [], engine'.store.Serves epoch info := by
      intro epoch hepoch info' hinfo'
      rcases hwatched epoch hepoch with hold | rfl
      · obtain ⟨info, hinfo, hsame⟩ := ObjectStore.exists_of_forall₂_right hquiet.indexes hinfo'
        exact (h.serves epoch hold info hinfo).quiet h.sound.store hquiet hsame
      · apply (hagreeing.store info' hinfo').serves
        rw [hquiet.cells_eq]
        exact readAt_of_since_le h.sound.mvcc.since_le
    refine ⟨hserves, fun epoch hepoch info hinfo => ?_⟩
    rcases hcommitted with hcommitted | hcommitted
    · rw [hcommitted] at hinfo ⊢
      rcases hwatched epoch hepoch with hold | rfl
      · exact h.committed_encodable epoch hold info hinfo
      · apply ((h.committed info hinfo).serves _).encodable
        exact readAt_of_since_le fun hcell => Nat.le_trans (h.sound.mvcc.saved_since hcell)
          (Nat.le_of_lt h.sound.mvcc.published_lt)
    · rw [hcommitted] at hinfo ⊢
      exact (hserves epoch hepoch info hinfo).encodable
  | wrote write typeName infos _ _ hbinds hreindexed =>
    refine ⟨fun epoch hepoch info' hinfo' => ?_, h.committed_encodable⟩
    obtain ⟨info, hinfo, hround⟩ := ObjectStore.exists_of_forall₂_right hreindexed hinfo'
    exact (h.serves epoch hepoch info hinfo).reindexed (lt_transactionEpoch h.sound hepoch) hbinds
      hround
  | @indexed type field tree hcovers records hrecords htree =>
    refine ⟨fun epoch hepoch info hinfo => ?_, h.committed_encodable⟩
    rcases List.mem_append.1 hinfo with hinfo | hinfo
    · exact (h.serves epoch hepoch info hinfo).congr rfl (fun _ _ _ _ => Iff.rfl) rfl
        ⟨rfl, rfl, rfl, rfl⟩
    · rw [List.mem_singleton.1 hinfo]
      exact serves_backfill h.sound h.names hrecords htree (hcovers epoch hepoch)
  | @collected store hcollected =>
    have hserves : ∀ epoch ∈ store.transactionEpoch :: engine.snapshots,
        ∀ info ∈ store.indexes.getD [], ObjectStore.Serves { store with
          inTransaction := false, epoch := store.transactionEpoch } epoch info := by
      intro epoch hepoch info hinfo
      rcases List.mem_cons.1 hepoch with rfl | hopen
      · apply (hagreeing.store info hinfo).serves
        have hstamp : store.transactionEpoch = engine.store.transactionEpoch :=
          congrArg (· + 1) hcollected.epoch_eq
        apply readAt_of_since_le
        intro id cell hcell
        rw [hstamp]
        exact hcollected.cleared.since_le h.sound.mvcc.since_le hcell
      · rw [hcollected.indexes_eq] at hinfo
        refine (h.serves epoch (List.mem_cons_of_mem _ hopen) info hinfo).congr
          (hcollected.cleared.readAt_eq hopen) (fun _ object _ name => ?_) hcollected.openedEpoch_eq
          ⟨rfl, rfl, rfl, rfl⟩
        exact ObjectStore.typeNamed_congr hcollected.types_eq object name
    exact ⟨hserves, fun epoch hepoch info hinfo => (hserves epoch hepoch info hinfo).encodable⟩
  | @resynced root next watermark snapshots hroot hnext hsnapshots =>
    have hbase := h.sound.withRoot hroot hnext
    have hcells := ObjectStore.cells_reopened hbase.committed (max next watermark)
    have hserves : ∀ epoch ∈ root :: snapshots,
        ∀ info ∈ ((engine.withRoot root next).resync watermark).store.indexes.getD [],
          ((engine.withRoot root next).resync watermark).store.Serves epoch info := by
      intro epoch hepoch info hinfo
      by_cases hpublished : engine.publishedEpoch ≤ epoch
      · apply (hagreeing.store info hinfo).serves
        exact readAt_resync hbase watermark hpublished
      · obtain ⟨found, hfound, rfl⟩ := ObjectStore.mem_reopened hinfo
        have hopen : epoch ∈ engine.snapshots := by
          rcases List.mem_cons.1 hepoch with rfl | hopen
          · exact absurd hroot hpublished
          · exact hsnapshots epoch hopen
        refine ⟨fun id object hobject hnamed => ?_, fun hserved => ?_⟩
        · rw [show ((engine.withRoot root next).resync watermark).store.cells = engine.committed.cells
            from hcells] at hobject
          exact h.committed_encodable epoch (List.mem_cons_of_mem _ hopen) found hfound id object hobject
            hnamed
        · have hopened : root ≤ epoch := Nat.le_trans (Nat.le_max_left _ _) hserved
          exact absurd (Nat.le_trans hroot hopened) hpublished
    exact ⟨hserves, fun epoch hepoch info hinfo => (hserves epoch hepoch info hinfo).encodable⟩

theorem serving_fresh (h : engine.Fresh) : engine.Serving := by
  have hnames : engine.store.NamesStable := by
    intro id cell hcell
    obtain ⟨entry, hentry, -⟩ := ObjectStore.cells_eq_some.1 hcell
    rw [h.unbound] at hentry
    cases hentry
  refine ⟨agreeing_fresh h, hnames, h.committed ▸ hnames, ?_, ?_⟩
  · intro epoch _ info hinfo
    rw [h.indexes] at hinfo
    cases hinfo
  · intro epoch _ info hinfo
    rw [h.committed, h.indexes] at hinfo
    cases hinfo

/-- Index reads are exact at every open snapshot: for every index and every bounds with keys, the
objects that `index_range_at` returns and `index_candidate_at` accepts are those of the type that a
reader at the epoch sees with a key in the bounds. -/
def IndexReadsExact (engine : Engine H Id) : Prop :=
  ∀ epoch ∈ engine.snapshots, ∀ typeName field, (engine.store.findIndex typeName field).isSome →
    ∀ lo hi loKey hiKey, encodeKey lo = .ok loKey → encodeKey hi = .ok hiKey →
      engine.store.ReadsExactly epoch typeName field lo hi loKey hiKey

theorem Serving.readsExact (h : engine.Serving) : engine.IndexReadsExact := by
  intro epoch hepoch typeName field hsome lo hi loKey hiKey hlo hhi
  obtain ⟨info, hfind⟩ := Option.isSome_iff_exists.1 hsome
  obtain ⟨hinfo, -⟩ := ObjectStore.findIndex_mem hfind
  exact ObjectStore.readsExactly h.sound.store h.names hfind (h.store info hinfo)
    (h.serves epoch (List.mem_cons_of_mem _ hepoch) info hinfo) hlo hhi

theorem serving_run [PageSize] (hfresh : engine.Fresh) {actions : List Action}
    (hmeets : Meets (fun engine action => engine.GoesThrough action ∧ engine.Restores action ∧
      engine.Covers action) actions engine) : (engine.run actions).Serving := by
  have hstep : ∀ (engine : Engine H Id) (action : Action), engine.Serving →
      engine.GoesThrough action ∧ engine.Restores action ∧ engine.Covers action →
        (engine.step action).Serving := by
    rintro engine action h ⟨hthrough, hrestores, hcovers⟩
    have hchange : Change engine.CoversIndex engine (engine.step action) := by
      apply change_of_step h.sound hthrough hrestores
      rintro type field definition rfl htype
      exact hcovers definition htype
    exact h.change (sound_step h.sound hrestores) hchange
  exact run_induction hstep (serving_fresh hfresh) hmeets

/-- Index reads are exact in every state of a run whose writes go through, whose rollbacks restore the
store and whose indexes are created where the open snapshots see the keys of now. -/
theorem indexReadsExact_run [PageSize] (hfresh : engine.Fresh) {actions : List Action}
    (hmeets : Meets (fun engine action => engine.GoesThrough action ∧ engine.Restores action ∧
      engine.Covers action) actions engine) : (engine.run actions).IndexReadsExact :=
  (serving_run hfresh hmeets).readsExact

end Engine

namespace Engine

section DefaultBuild

attribute [local instance] PageSize.default Statement.ledgerStore

/-- A snapshot is open when the object gets another value, and then the index is created. -/
def indexedLate : List Action :=
  accountCreated ++ [.openSnapshot, .begin, .write (.update 1026 1024 [(1, .int64 20)]), .commit,
    .begin, .createIndex 1024 1, .commit]

/-- The index answers for the snapshot and does not have the key that the object has there. -/
theorem not_indexReadsExact_of_indexedLate : ¬(empty.run indexedLate).IndexReadsExact := by
  intro hexact
  obtain ⟨ids, hids, -, -, hits, -, hfilter, hmem⟩ := hexact 1 (by decide) "Account" 1 (by decide)
    (.int64 10) (.int64 10) [128, 0, 0, 0, 0, 0, 0, 10] [128, 0, 0, 0, 0, 0, 0, 10] rfl rfl
  have hnone : (empty.run indexedLate).store.indexRangeAt "Account" 1 (.int64 10) (.int64 10) 1 =
      .ok [] := rfl
  rw [hnone] at hids
  injection hids with hempty
  rw [← hempty] at hfilter
  have hnamed : ObjectStore.TypeNamed (empty.run indexedLate).store
      ⟨1026, 1024, [(1, .int64 10)]⟩ "Account" := ⟨_, rfl, rfl⟩
  have hkey : IndexedKey [(1, .int64 10)] 1 [128, 0, 0, 0, 0, 0, 0, 10] :=
    ⟨.int64 10, rfl, rfl, rfl⟩
  have hin : (([128, 0, 0, 0, 0, 0, 0, 10], 1026) : Index.Entry) ∈ hits :=
    (hmem _ _).2 ⟨by decide, ⟨1026, 1024, [(1, .int64 10)]⟩, rfl, hnamed, hkey⟩
  rw [List.map_eq_nil_iff.1 hfilter.symm] at hin
  exact absurd hin List.not_mem_nil

/-- The index is created before there is an object, which gets another value under the snapshot. -/
def indexedEarly : List Action :=
  [.begin, .registerType ⟨0, "Account", [{ id := 1, name := "balance", type := .int64 }]⟩,
    .createIndex 1024 1, .write (.create 1024 [(1, .int64 10)]), .commit, .openSnapshot, .begin,
    .write (.update 1026 1024 [(1, .int64 20)]), .commit]

theorem indexReadsExact_indexedEarly : (empty.run indexedEarly).IndexReadsExact := by
  refine indexReadsExact_run fresh_empty ⟨⟨trivial, trivial, trivial⟩, ⟨trivial, trivial, trivial⟩,
    ⟨trivial, trivial, ?_⟩, ⟨goesThrough_of_ok (by decide), trivial, trivial⟩,
    ⟨trivial, trivial, trivial⟩, ⟨trivial, trivial, trivial⟩, ⟨trivial, trivial, trivial⟩,
    ⟨goesThrough_of_ok (by decide), trivial, trivial⟩, ⟨trivial, trivial, trivial⟩, trivial⟩
  intro definition _ epoch _ id object hget
  have hnone : ObjectStore.getAt ((empty.step .begin).step (.registerType
      ⟨0, "Account", [{ id := 1, name := "balance", type := .int64 }]⟩)).store id epoch =
        .error (IdentityMap.missing id) := rfl
  rw [hnone] at hget
  cases hget

end DefaultBuild

end Engine

end MoDb.Store
