import MoDb.Query.Reference

/-!
# Projected queries

A projected query reads the store by a path of its own. It takes over the filters, the condition and
the limit of the query, and none of its other clauses; and it reads the index as it is now, not as the
snapshot saw it.
-/

namespace MoDb.Store

open Storage Index Selection MoDb.Query

structure ProjectedField where
  id : FieldId
  name : String
  value : AttributeValue
  deriving DecidableEq, Repr

abbrev ProjectedRow := List ProjectedField

/-- `ProjectedQuery<T>`: a query with the fields and the computed functions that it selects.
`functions` are the functions registered for the type. -/
structure ProjectedQuery (T : Type) extends Query T where
  selected : List FieldId := []
  computed : List String := []
  functions : String → Option (T → Except Error AttributeValue) := fun _ => none

namespace ProjectedQuery

variable {T : Type}

/-- The loop of `project_object` over the selected fields; field 0 is the id. -/
def selectFields (bound : BoundType T) (value : T) (objectId : ObjectId) :
    List FieldId → Except Error ProjectedRow
  | [] => .ok []
  | field :: rest =>
    if field = 0 then
      (selectFields bound value objectId rest).map ({ id := 0, name := "id", value := .ref objectId } :: ·)
    else
      match bound.binding.find field with
      | none => .error ⟨.invalidArgument, "projected field is not in the binding"⟩
      | some binder =>
        match binder.load value with
        | .error error => .error error
        | .ok loaded =>
          (selectFields bound value objectId rest).map
            ({ id := binder.id, name := binder.name, value := loaded } :: ·)

/-- The loop of `project_object` over the computed functions. -/
def computeFields (functions : String → Option (T → Except Error AttributeValue)) (value : T) :
    List String → Except Error ProjectedRow
  | [] => .ok []
  | name :: rest =>
    match functions name with
    | none => .error ⟨.typeNotFound, "computed function is not registered"⟩
    | some function =>
      match function value with
      | .error error => .error error
      | .ok result =>
        (computeFields functions value rest).map ({ id := 0, name := name, value := result } :: ·)

/-- `project_object`. -/
def projectObject (query : ProjectedQuery T) (bound : BoundType T) (value : T)
    (objectId : ObjectId) : Except Error ProjectedRow :=
  match selectFields bound value objectId query.selected with
  | .error error => .error error
  | .ok fields => (computeFields query.functions value query.computed).map (fields ++ ·)

def projectRow (query : ProjectedQuery T) (bound : BoundType T) (row : Found T) :
    Except Error (Found ProjectedRow) :=
  (query.projectObject bound row.value row.id).map (⟨row.id, ·⟩)

end ProjectedQuery

section Streams

variable {H Id T : Type} [Inhabited T] [DecidableEq Id]
  [RecordStore H Id DecodedObject Error NotFound]

/-- `run_projected_stream`, from the choice of the access path on. -/
def runProjectedStream (store : ObjectStore H Id) (bound : BoundType T) (epoch : Nat)
    (query : ProjectedQuery T) : Generator (Found ProjectedRow) :=
  let emit := fun (object : DecodedObject) (value : T) =>
    query.projectRow bound ⟨object.id, value⟩
  let scan := fun predicate => match store.scanAt epoch with
    | .error error => [.error error]
    | .ok objects => Generator.pump (scanBody store bound predicate emit) query.limit 0 objects
  match query.indexField with
  | none => scan query.predicate
  | some field =>
    if Query.hasIndexFor store bound field then
      match store.indexRange bound.binding.typeName field query.indexLo query.indexHi with
      | .error error => [.error error]
      | .ok ids =>
        Generator.pump (indexBody store bound epoch field query.indexLo query.indexHi query.predicate
          emit) query.limit 0 ids
    else scan (some (query.fallback bound field))

end Streams

def projection {α β : Type} (project : α → Except Error β) : Generator α → Generator β
  | [] => []
  | .error error :: _ => [.error error]
  | .ok row :: rest =>
    match project row with
    | .error error => [.error error]
    | .ok projected => .ok projected :: projection project rest

variable {H Id T : Type} [Inhabited T] [DecidableEq Id]
  [RecordStore H Id DecodedObject Error NotFound]

/-- The projected execution yields the projection of what the query yields. -/
def ProjectsQuery (store : ObjectStore H Id) (bound : BoundType T) (epoch : Nat)
    (heaps : ∀ order : Order (Found T), Heap order) (query : ProjectedQuery T) : Prop :=
  runProjectedStream store bound epoch query =
    projection (query.projectRow bound) (query.stream heaps store bound epoch)

/-! ### The two paths -/

omit [DecidableEq Id] [RecordStore H Id DecodedObject Error NotFound] in
theorem pump_projection {α β δ : Type} {project : α → Except Error β}
    {body : δ → Except Error (Option α)} {body' : δ → Except Error (Option β)}
    (hskip : ∀ item, body item = .ok none → body' item = .ok none)
    (herror : ∀ item error, body item = .error error → body' item = .error error)
    (hrow : ∀ item row, body item = .ok (some row) → body' item = (project row).map some)
    (limitCount emitted : Nat) (items : List δ) :
    Generator.pump body' limitCount emitted items =
      projection project (Generator.pump body limitCount emitted items) := by
  induction items generalizing emitted with
  | nil => rfl
  | cons item rest ih =>
    rw [Generator.pump, Generator.pump]
    cases hbody : body item with
    | error error => rw [herror item error hbody, projection]
    | ok row =>
      cases row with
      | none =>
        rw [hskip item hbody]
        exact ih emitted
      | some row =>
        rw [hrow item row hbody]
        dsimp only
        cases hproject : project row with
        | error error =>
          change [.error error] = projection project (if _ then [.ok row] else .ok row :: _)
          split <;> rw [projection.eq_3] <;> simp only [hproject]
        | ok projected =>
          change (if _ then [Except.ok projected] else Except.ok projected :: _) = _
          split
          · simp only [projection, hproject]
          · simp only [projection, hproject, ih]

variable {store : ObjectStore H Id} {bound : BoundType T} {epoch : Nat}

omit [DecidableEq Id] [RecordStore H Id DecodedObject Error NotFound] in
theorem rowBody_projection (predicate : Option (T → Bool)) (query : ProjectedQuery T)
    (object : DecodedObject) :
    rowBody store bound predicate (fun object value => query.projectRow bound ⟨object.id, value⟩)
        object =
      match rowBody store bound predicate typedRow object with
      | .error error => .error error
      | .ok none => .ok none
      | .ok (some row) => (query.projectRow bound row).map some := by
  unfold rowBody
  cases bound.materializeDecoded store object with
  | error error => rfl
  | ok value =>
    dsimp only
    split
    · simp only [typedRow]
      cases query.projectRow bound ⟨object.id, value⟩ <;> rfl
    · rfl

omit [DecidableEq Id] [RecordStore H Id DecodedObject Error NotFound] in
theorem pump_scanBody_projection (predicate : Option (T → Bool)) (query : ProjectedQuery T)
    (limitCount : Nat) (objects : List DecodedObject) :
    Generator.pump (scanBody store bound predicate
        fun object value => query.projectRow bound ⟨object.id, value⟩) limitCount 0 objects =
      projection (query.projectRow bound)
        (Generator.pump (scanBody store bound predicate typedRow) limitCount 0 objects) := by
  have hbody : ∀ object, scanBody store bound predicate
      (fun object value => query.projectRow bound ⟨object.id, value⟩) object =
        match scanBody store bound predicate typedRow object with
        | .error error => .error error
        | .ok none => .ok none
        | .ok (some row) => (query.projectRow bound row).map some := by
    intro object
    unfold scanBody
    split
    · exact rowBody_projection predicate query object
    · rfl
  apply pump_projection
  · intro object h
    rw [hbody, h]
  · intro object error h
    rw [hbody, h]
  · intro object row h
    rw [hbody, h]

theorem pump_indexBody_projection (field : FieldId) (lo hi : AttributeValue)
    (predicate : Option (T → Bool)) (query : ProjectedQuery T) (limitCount : Nat)
    (ids : List ObjectId) :
    Generator.pump (indexBody store bound epoch field lo hi predicate
        fun object value => query.projectRow bound ⟨object.id, value⟩) limitCount 0 ids =
      projection (query.projectRow bound)
        (Generator.pump (indexBody store bound epoch field lo hi predicate typedRow) limitCount 0
          ids) := by
  have hbody : ∀ id, indexBody store bound epoch field lo hi predicate
      (fun object value => query.projectRow bound ⟨object.id, value⟩) id =
        match indexBody store bound epoch field lo hi predicate typedRow id with
        | .error error => .error error
        | .ok none => .ok none
        | .ok (some row) => (query.projectRow bound row).map some := by
    intro id
    unfold indexBody
    cases store.indexCandidateAt id epoch field lo hi with
    | error error => rfl
    | ok candidate =>
      cases candidate with
      | none => rfl
      | some object => exact rowBody_projection predicate query object
  apply pump_projection
  · intro id h
    rw [hbody, h]
  · intro id error h
    rw [hbody, h]
  · intro id row h
    rw [hbody, h]

theorem runStream_projection (predicate : Option (T → Bool)) (query : ProjectedQuery T)
    (limitCount : Nat) :
    (match store.scanAt epoch with
      | .error error => [.error error]
      | .ok objects => Generator.pump (scanBody store bound predicate
          fun object value => query.projectRow bound ⟨object.id, value⟩) limitCount 0 objects) =
      projection (query.projectRow bound) (runStream store bound epoch predicate limitCount) := by
  unfold runStream
  cases store.scanAt epoch with
  | error error => rfl
  | ok objects => exact pump_scanBody_projection predicate query limitCount objects

theorem indexRangeAt_of_serves {typeName : String} {field : FieldId} {lo hi : AttributeValue}
    (h : store.indexServesEpoch typeName field epoch = true) :
    store.indexRangeAt typeName field lo hi epoch = store.indexRange typeName field lo hi := by
  unfold ObjectStore.indexRangeAt
  rw [if_pos h]

theorem runProjectedStream_eq {query : ProjectedQuery T}
    (hserves : ∀ field, query.indexField = some field → Query.hasIndexFor store bound field = true →
      store.indexServesEpoch bound.binding.typeName field epoch = true) :
    runProjectedStream store bound epoch query =
      projection (query.projectRow bound) (query.source store bound epoch query.limit) := by
  unfold runProjectedStream Query.source
  cases hfield : query.indexField with
  | none => exact runStream_projection query.predicate query query.limit
  | some field =>
    dsimp only
    split
    · rename_i havailable
      rw [runIndexStream, indexRangeAt_of_serves (hserves field hfield havailable)]
      cases store.indexRange bound.binding.typeName field query.indexLo query.indexHi with
      | error error => rfl
      | ok ids => exact pump_indexBody_projection field _ _ query.predicate query query.limit ids
    · exact runStream_projection _ query query.limit

/-- The projected execution yields the projection of a query that has no order and no duplicates to
remove, where the index that answers its condition serves the epoch. -/
theorem projectsQuery_of_served (heaps : ∀ order : Order (Found T), Heap order)
    {query : ProjectedQuery T} (hless : query.orderLess = none) (hdistinct : query.distinctKey = none)
    (hserves : ∀ field, query.indexField = some field → Query.hasIndexFor store bound field = true →
      store.indexServesEpoch bound.binding.typeName field epoch = true) :
    ProjectsQuery store bound epoch heaps query := by
  unfold ProjectsQuery
  rw [Query.stream_eq_source heaps hless hdistinct]
  exact runProjectedStream_eq hserves

end MoDb.Store

namespace MoDb.Store.Engine

open Storage Index Selection MoDb.Query

section DefaultBuild

attribute [local instance] PageSize.default Statement.ledgerStore

def eachBalance : ProjectedQuery (BitVec 64) :=
  { distinctBalances 0 with selected := [0, 1] }

def balanceChanged : List Action :=
  [.begin,
    .registerType ⟨0, "Account", [{ id := 1, name := "balance", type := .int64, nullable := false }]⟩,
    .createIndex 1024 1, .write (.create 1024 [(1, .int64 10)]), .commit, .openSnapshot, .begin,
    .write (.update 1026 1024 [(1, .int64 20)]), .commit]

def tenOnly : ProjectedQuery (BitVec 64) where
  indexField := some 1
  indexLo := .int64 10
  indexHi := .int64 10
  selected := [0, 1]

/-- The duplicates stay; and the index does not have the balance that the snapshot sees. -/
theorem not_projectsQuery :
    ¬ProjectsQuery (empty.run accountsIndexed).store account 1 Heap.ofSorted eachBalance ∧
    ¬ProjectsQuery (empty.run balanceChanged).store account 1 Heap.ofSorted tenOnly := by
  constructor
  · intro h
    have hlength := congrArg List.length h
    exact absurd hlength (by decide)
  · intro h
    have hlength := congrArg List.length h
    exact absurd hlength (by decide)

/-- Without an order, and at the epoch that the index serves. -/
theorem projectsQuery_tenOnly :
    ProjectsQuery (empty.run accountsIndexed).store account 1 Heap.ofSorted tenOnly := by
  refine projectsQuery_of_served Heap.ofSorted rfl rfl fun field hfield _ => ?_
  cases hfield
  rfl

end DefaultBuild

end MoDb.Store.Engine
