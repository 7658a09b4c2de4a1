import MoDb.Query.Operators
import MoDb.Query.Planner
import MoDb.Store.Projection

/-!
# Typed queries

A query on a bound type reads the store at the epoch of its snapshot, by a scan or through an index,
and runs its rows through the operators that the planner picks.
-/

namespace MoDb.Store

open Storage Index Selection MoDb.Query

/-- A row of a typed stream, with the id of its object, which the C++ value does not carry. -/
structure Found (T : Type) where
  id : ObjectId
  value : T

variable {H Id T α : Type}

def hasTypeName (store : ObjectStore H Id) (typeName : String) (object : DecodedObject) : Bool :=
  match store.findType object.type with
  | .ok type => type.name = typeName
  | .error _ => false

/-- The filter that stands for a condition when there is no index: the key of the loaded field is
between the keys of the bounds. -/
def inRange (bound : BoundType T) (field : FieldId) (lo hi : AttributeValue) (value : T) : Bool :=
  match bound.binding.find field with
  | none => false
  | some binder =>
    match binder.load value with
    | .error _ => false
    | .ok loaded =>
      match encodeKey loaded, encodeKey lo, encodeKey hi with
      | .ok key, .ok loKey, .ok hiKey => inBounds loKey hiKey key
      | _, _, _ => false

def passes (predicate : Option (T → Bool)) (value : T) : Bool :=
  predicate.all fun predicate => predicate value

/-- `Query<T>`: its clauses. `equals` is a range with one value. -/
structure Query (T : Type) where
  predicate : Option (T → Bool) := none
  limit : Nat := 0
  indexField : Option FieldId := none
  indexLo : AttributeValue := .null
  indexHi : AttributeValue := .null
  orderLess : Option (Order T) := none
  topK : Nat := 0
  distinctKey : Option (T → Bytes) := none

namespace Query

/-- `has_index_for`. -/
def hasIndexFor (store : ObjectStore H Id) (bound : BoundType T) (field : FieldId) : Bool :=
  (store.findIndex bound.binding.typeName field).isSome

/-- `Query::plan`. -/
def plan (query : Query T) (store : ObjectStore H Id) (bound : BoundType T) : QueryPlan :=
  planQuery
    { indexRequested := query.indexField.isSome
      indexAvailable := query.indexField.any (hasIndexFor store bound)
      indexField := query.indexField
      limit := query.limit
      topK := query.topK
      hasOrder := query.orderLess.isSome
      hasDistinct := query.distinctKey.isSome }

def fallback (query : Query T) (bound : BoundType T) (field : FieldId) : T → Bool := fun value =>
  inRange bound field query.indexLo query.indexHi value && passes query.predicate value

def rowOrder (order : Order T) : Order (Found T) where
  less a b := order.less a.value b.value
  asymm := order.asymm
  cotrans b := order.cotrans b.value

end Query

variable [Inhabited T]

def rowBody (store : ObjectStore H Id) (bound : BoundType T) (predicate : Option (T → Bool))
    (emit : DecodedObject → T → Except Error α) (object : DecodedObject) :
    Except Error (Option α) :=
  match bound.materializeDecoded store object with
  | .error error => .error error
  | .ok value =>
    if passes predicate value then
      match emit object value with
      | .error error => .error error
      | .ok row => .ok (some row)
    else .ok none

def scanBody (store : ObjectStore H Id) (bound : BoundType T) (predicate : Option (T → Bool))
    (emit : DecodedObject → T → Except Error α) (object : DecodedObject) :
    Except Error (Option α) :=
  if hasTypeName store bound.binding.typeName object then
    rowBody store bound predicate emit object
  else .ok none

variable [DecidableEq Id] [RecordStore H Id DecodedObject Error NotFound]

def indexBody (store : ObjectStore H Id) (bound : BoundType T) (epoch : Nat) (field : FieldId)
    (lo hi : AttributeValue) (predicate : Option (T → Bool))
    (emit : DecodedObject → T → Except Error α) (id : ObjectId) : Except Error (Option α) :=
  match store.indexCandidateAt id epoch field lo hi with
  | .error error => .error error
  | .ok none => .ok none
  | .ok (some candidate) => rowBody store bound predicate emit candidate

omit [Inhabited T] in
def typedRow (object : DecodedObject) (value : T) : Except Error (Found T) :=
  .ok ⟨object.id, value⟩

/-- `run_stream`. -/
def runStream (store : ObjectStore H Id) (bound : BoundType T) (epoch : Nat)
    (predicate : Option (T → Bool)) (limitCount : Nat) : Generator (Found T) :=
  match store.scanAt epoch with
  | .error error => [.error error]
  | .ok objects => .pump (scanBody store bound predicate typedRow) limitCount 0 objects

/-- `run_index_stream`. -/
def runIndexStream (store : ObjectStore H Id) (bound : BoundType T) (epoch : Nat) (field : FieldId)
    (lo hi : AttributeValue) (predicate : Option (T → Bool)) (limitCount : Nat) :
    Generator (Found T) :=
  match store.indexRangeAt bound.binding.typeName field lo hi epoch with
  | .error error => [.error error]
  | .ok ids => .pump (indexBody store bound epoch field lo hi predicate typedRow) limitCount 0 ids

namespace Query

/-- The source of `Query::stream`: the access path with the filters and the pushed limit. -/
def source (query : Query T) (store : ObjectStore H Id) (bound : BoundType T) (epoch : Nat)
    (scanLimit : Nat) : Generator (Found T) :=
  match query.indexField with
  | none => runStream store bound epoch query.predicate scanLimit
  | some field =>
    if hasIndexFor store bound field then
      runIndexStream store bound epoch field query.indexLo query.indexHi query.predicate scanLimit
    else runStream store bound epoch (some (query.fallback bound field)) scanLimit

/-- `Query::stream`, with the heap algorithms of the library. -/
def stream (query : Query T) (heaps : ∀ order : Order (Found T), Heap order)
    (store : ObjectStore H Id) (bound : BoundType T) (epoch : Nat) : Generator (Found T) :=
  let planned := query.plan store bound
  let blockingTail := planned.usesTopK || planned.usesSort || planned.usesDistinct
  let scanLimit := if planned.limitPushed then query.limit else 0
  let gen := query.source store bound epoch scanLimit
  let (gen, limitCount) :=
    match query.orderLess with
    | none => (gen, query.limit)
    | some less =>
      let order := rowOrder less
      if 0 < query.topK then (gen.topK query.topK order (heaps _), query.limit)
      else if planned.usesTopK then (gen.topK query.limit order.flip (heaps _), 0)
      else if planned.usesSort then (gen.sort order, query.limit)
      else (gen, query.limit)
  let gen :=
    match query.distinctKey with
    | none => gen
    | some key => gen.distinct fun row => key row.value
  if blockingTail && limitCount ≠ 0 then gen.limit limitCount else gen

end Query

end MoDb.Store
