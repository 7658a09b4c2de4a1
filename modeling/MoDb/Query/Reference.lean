import MoDb.Query.Rows

/-!
# Query plans and their reference

The reference of a query filters the rows of the extent, sorts them stably, keeps the first of each
key and takes the first ones. Every plan gives that, up to the order in which rows that compare equal
come, but for one: without an order the limit is pushed below the removal of duplicates.
-/

namespace MoDb.Store

open Storage Index Selection MoDb.Query Mvcc

variable {H Id T : Type} [Inhabited T] [DecidableEq Id]
  [RecordStore H Id DecodedObject Error NotFound]

namespace Query

def accepts (query : Query T) (bound : BoundType T) (value : T) : Bool :=
  passes query.predicate value &&
    query.indexField.all fun field => inRange bound field query.indexLo query.indexHi value

variable {query : Query T} {store : ObjectStore H Id} {bound : BoundType T} {epoch : Nat}

/-! ### Plans -/

theorem runStream_limit (predicate : Option (T → Bool)) (n : Nat) :
    runStream store bound epoch predicate n =
      (runStream store bound epoch predicate 0).limit n := by
  unfold runStream
  cases store.scanAt epoch with
  | error error => exact (Generator.limit_error error n).symm
  | ok objects => exact Generator.pump_eq_limit _ n objects

theorem runIndexStream_limit (field : FieldId) (lo hi : AttributeValue)
    (predicate : Option (T → Bool)) (n : Nat) :
    runIndexStream store bound epoch field lo hi predicate n =
      (runIndexStream store bound epoch field lo hi predicate 0).limit n := by
  unfold runIndexStream
  cases store.indexRangeAt bound.binding.typeName field lo hi epoch with
  | error error => exact (Generator.limit_error error n).symm
  | ok ids => exact Generator.pump_eq_limit _ n ids

theorem source_limit (n : Nat) :
    query.source store bound epoch n = (query.source store bound epoch 0).limit n := by
  unfold source
  cases query.indexField with
  | none => exact runStream_limit query.predicate n
  | some field =>
    dsimp only
    split
    · exact runIndexStream_limit field query.indexLo query.indexHi query.predicate n
    · exact runStream_limit _ n

section Plans

variable (heaps : ∀ order : Order (Found T), Heap order)

theorem stream_eq_source (hless : query.orderLess = none) (hdistinct : query.distinctKey = none) :
    query.stream heaps store bound epoch = query.source store bound epoch query.limit := by
  by_cases hlimit : query.limit = 0
  · simp only [stream, hless, hdistinct, hlimit, ne_eq, not_true_eq_false, decide_false,
      Bool.and_false, Bool.false_eq_true, if_false, ite_self]
  · have hpos : decide (0 < query.limit) = true := decide_eq_true (Nat.pos_of_ne_zero hlimit)
    by_cases htopK : 0 < query.topK
    · simp only [stream, plan, planQuery, hless, hdistinct, htopK, if_true, Bool.true_or,
        Bool.false_eq_true, if_false, ne_eq, hlimit, not_false_eq_true, decide_true, Bool.and_true]
      exact (source_limit query.limit).symm
    · simp only [stream, plan, planQuery, hless, hdistinct, htopK, if_false,
        Option.isSome_none, Bool.false_and, Bool.false_eq_true, Bool.or_self, hpos, if_true]

end Plans

/-! ### Access paths -/

/-- The bounds have keys, and each row that passes the filter is of an object that is stored in the
range if and only if it is projected into it. -/
def IndexAgrees (query : Query T) (store : ObjectStore H Id) (bound : BoundType T) (epoch : Nat)
    (field : FieldId) : Prop :=
  ∃ loKey hiKey, encodeKey query.indexLo = .ok loKey ∧ encodeKey query.indexHi = .ok hiKey ∧
    ∀ row object, Shows store bound epoch row object → passes query.predicate row.value = true →
      (StoredInRange object field loKey hiKey ↔
        ProjectedInRange store bound object field loKey hiKey)

theorem source_selected (hsound : store.Sound) {rows : List (Found T)}
    (hrows : Extent store bound epoch rows)
    (hindex : ∀ field, query.indexField = some field → hasIndexFor store bound field = true →
      query.IndexAgrees store bound epoch field ∧ ∀ loKey hiKey,
        encodeKey query.indexLo = .ok loKey → encodeKey query.indexHi = .ok hiKey →
        store.ReadsExactly epoch bound.binding.typeName field query.indexLo query.indexHi loKey
          hiKey) :
    ∃ selected, query.source store bound epoch 0 = .ofList selected ∧
      selected.Perm (rows.filter fun row => query.accepts bound row.value) := by
  unfold source
  cases hfield : query.indexField with
  | none =>
    refine ⟨_, runStream_eq hrows query.predicate, ?_⟩
    have hsame : ∀ row : Found T, passes query.predicate row.value =
        query.accepts bound row.value := by
      intro row
      rw [accepts, hfield, Option.all_none, Bool.and_true]
    rw [List.filter_congr fun row _ => hsame row]
  | some field =>
    dsimp only
    have haccepts : ∀ row : Found T, query.accepts bound row.value =
        (passes query.predicate row.value &&
          inRange bound field query.indexLo query.indexHi row.value) := by
      intro row
      rw [accepts, hfield, Option.all_some]
    split
    · rename_i havailable
      obtain ⟨⟨loKey, hiKey, hlo, hhi, hagrees⟩, hreads⟩ := hindex field hfield havailable
      obtain ⟨hnodup, hmem⟩ := hrows.mem_iff hsound
      have hmaterialized : ∀ id object, store.cells.readAt epoch id = some object →
          store.TypeNamed object bound.binding.typeName → StoredInRange object field loKey hiKey →
          ∃ value, bound.materializeDecoded store object = .ok value :=
        fun id object hread hnamed _ => hrows.materialized hsound hread hnamed
      obtain ⟨selected, hstream, hnodup', hmem'⟩ := runIndexStream_eq hsound
        (hreads loKey hiKey hlo hhi) hmaterialized query.predicate
      refine ⟨selected, hstream, ?_⟩
      apply (List.perm_ext_iff_of_nodup (hnodup'.of_map _) (hnodup.of_map _ |>.filter _)).2
      intro row
      rw [hmem', List.mem_filter, hmem, haccepts, Bool.and_eq_true]
      constructor
      · rintro ⟨object, hshows, hrange, hpasses⟩
        refine ⟨⟨object, hshows⟩, hpasses, ?_⟩
        exact (inRange_iff hshows.materialized field hlo hhi).2
          ((hagrees row object hshows hpasses).1 hrange)
      · rintro ⟨⟨object, hshows⟩, hpasses, hrange⟩
        refine ⟨object, hshows, (hagrees row object hshows hpasses).2 ?_, hpasses⟩
        exact (inRange_iff hshows.materialized field hlo hhi).1 hrange
    · refine ⟨_, runStream_eq hrows _, ?_⟩
      have hsame : ∀ row : Found T, passes (some (query.fallback bound field)) row.value =
          query.accepts bound row.value := by
        intro row
        rw [haccepts, Bool.and_comm]
        rfl
      rw [List.filter_congr fun row _ => hsame row]

end Query

end MoDb.Store

namespace MoDb.Store.Engine

open Storage Index Selection MoDb.Query Mvcc

section DefaultBuild

attribute [local instance] PageSize.default Statement.ledgerStore

def balanceBinder : FieldBinder (BitVec 64) where
  id := 1
  name := "balance"
  type := .int64
  store _ value :=
    match value with
    | .int64 bits => .ok bits
    | value => .error ⟨.typeMismatch, s!"attribute value is {value.type.name}, not INT64"⟩
  load bits := .ok (.int64 bits)
  load_store {object value object'} h := by
    cases value <;> cases h
    rfl

def account : BoundType (BitVec 64) where
  binding := ⟨"Account", [balanceBinder], List.pairwise_singleton _ _⟩
  typeId := 1024

/-- Three accounts, two of them with the same balance, and an index on the balance. -/
def accountsIndexed : List Action :=
  [.begin,
    .registerType ⟨0, "Account", [{ id := 1, name := "balance", type := .int64, nullable := false }]⟩,
    .createIndex 1024 1, .write (.create 1024 [(1, .int64 10)]),
    .write (.create 1024 [(1, .int64 10)]), .write (.create 1024 [(1, .int64 20)]), .commit,
    .openSnapshot]

/-- One account for each balance, at most `limit`. -/
def distinctBalances (limit : Nat) : Query (BitVec 64) where
  indexField := some 1
  indexLo := .int64 10
  indexHi := .int64 20
  distinctKey := some fun balance => storeBe64 balance.toNat
  limit := limit

end DefaultBuild

end MoDb.Store.Engine
