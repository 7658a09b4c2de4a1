import MoDb.Store.Value

/-!
# The query planner

The planner picks the access path and the operators of a query by fixed rules, from which clauses
the query has.
-/

namespace MoDb.Query

open Store

inductive AccessMethod
  | tableScan
  | indexScan
  deriving DecidableEq, Repr

inductive OperatorNature
  | streaming
  | partiallyBlocking
  | blocking
  deriving DecidableEq, Repr

/-- `first_result_cost` is `none` where the whole input is read before the first row
(`kFullInput`). -/
structure QueryPlan where
  access : AccessMethod := .tableScan
  nature : OperatorNature := .streaming
  firstResultCost : Option Nat := some 1
  limitPushed : Bool := false
  usesTopK : Bool := false
  usesSort : Bool := false
  usesDistinct : Bool := false
  indexRequested : Bool := false
  indexAvailable : Bool := false
  indexField : Option FieldId := none
  deriving DecidableEq, Repr

structure QueryIntent where
  indexRequested : Bool := false
  indexAvailable : Bool := false
  indexField : Option FieldId := none
  limit : Nat := 0
  topK : Nat := 0
  hasOrder : Bool := false
  hasDistinct : Bool := false
  deriving DecidableEq, Repr

/-- `plan_query`. -/
def planQuery (intent : QueryIntent) : QueryPlan :=
  let plan : QueryPlan :=
    { access := if intent.indexRequested && intent.indexAvailable then .indexScan else .tableScan
      indexRequested := intent.indexRequested
      indexAvailable := intent.indexAvailable
      indexField := intent.indexField }
  let selectTopK :=
    intent.hasOrder && decide (0 < intent.limit) && intent.topK = 0 && !intent.hasDistinct
  if 0 < intent.topK then
    { plan with
      usesTopK := true, nature := .partiallyBlocking, firstResultCost := none, limitPushed := false }
  else if selectTopK then
    { plan with
      usesTopK := true, nature := .partiallyBlocking, firstResultCost := none, limitPushed := false }
  else if intent.hasOrder then
    { plan with
      usesSort := true, nature := .blocking, firstResultCost := none, limitPushed := false }
  else if intent.hasDistinct then
    -- The limit is pushed to the source here too, below the operator that removes rows.
    { plan with
      usesDistinct := true, nature := .blocking, firstResultCost := some 1
      limitPushed := decide (0 < intent.limit) }
  else
    { plan with
      nature := .streaming, firstResultCost := some 1, limitPushed := decide (0 < intent.limit) }

end MoDb.Query
