import MoDb.Error
import MoDb.Lib.Loop
import MoDb.Lib.Search
import Mathlib.Data.FinEnum

/-!
# Breadth-first and depth-first traversal

The adjacency and the resolve functions belong to the caller and may fail. `bfs` and `dfs` are generators:
the model keeps all they yield, in order, and a caller that stops early sees a prefix. Both are loops, run
for at most `fuel` turns.
-/

namespace MoDb.Graph

/-- An object id is its value. -/
abbrev ObjectId := UInt64

inductive DanglingPolicy
  | fail
  | skip
  | yieldError
  deriving DecidableEq, Repr

structure GraphVisit where
  id : ObjectId
  depth : UInt32
  deriving DecidableEq, Repr

structure TraversalOptions where
  maxDepth : UInt32 := 0
  maxVertices : UInt64 := 0
  dangling : DanglingPolicy := .fail
  cancel : Bool := false
  hasCancel : Bool := false

abbrev AdjacencyFn := ObjectId → Except Error (List ObjectId)

abbrev ResolveFn := ObjectId → Except Error Bool

abbrev Yield := Except Error GraphVisit

def depthExceeded (depth : UInt32) (options : TraversalOptions) : Bool :=
  options.maxDepth ≠ 0 && depth > options.maxDepth

def vertexLimitReached (visited : UInt64) (options : TraversalOptions) : Bool :=
  options.maxVertices ≠ 0 && visited ≥ options.maxVertices

def cancelled (options : TraversalOptions) : Bool :=
  options.hasCancel && options.cancel

/-- Whether an edge to this place is followed: a place that does not resolve is treated as `policy` says. -/
def acceptNeighbor (neighbor : ObjectId) (resolve : Option ResolveFn) (policy : DanglingPolicy) :
    Except Error Bool :=
  match resolve with
  | none => .ok true
  | some resolve =>
    match resolve neighbor with
    | .ok ok => .ok ok
    | .error error =>
      if error.code ≠ .edgeTargetNotFound ∧ error.code ≠ .recordNotFound then .error error
      else
        match policy with
        | .fail => .error ⟨.edgeTargetNotFound, error.message⟩
        | .skip => .ok false
        | .yieldError => .error ⟨.edgeTargetNotFound, error.message⟩

/-! ### Breadth first -/

structure Bfs where
  seen : Finset ObjectId
  queue : List GraphVisit
  yielded : UInt64
  out : List Yield

def bfsNeighbors (options : TraversalOptions) (resolve : Option ResolveFn) (current : GraphVisit) :
    List ObjectId → Bfs → List Yield ⊕ Bfs
  | [], state => .inr state
  | neighbor :: rest, state =>
    if cancelled options then .inl state.out
    else
      match acceptNeighbor neighbor resolve options.dangling with
      | .error error =>
        if options.dangling = .yieldError then
          bfsNeighbors options resolve current rest { state with out := state.out ++ [.error error] }
        else .inl (state.out ++ [.error error])
      | .ok accept =>
        if !accept then bfsNeighbors options resolve current rest state
        else if neighbor ∈ state.seen then bfsNeighbors options resolve current rest state
        else
          bfsNeighbors options resolve current rest
            { state with
              seen := insert neighbor state.seen
              queue := state.queue ++ [⟨neighbor, current.depth + 1⟩] }

def bfsTurn (adjacency : AdjacencyFn) (options : TraversalOptions) (resolve : Option ResolveFn)
    (state : Bfs) : List Yield ⊕ Bfs :=
  match state.queue with
  | [] => .inl state.out
  | current :: queue =>
    if cancelled options then .inl state.out
    else if vertexLimitReached state.yielded options then
      .inl (state.out ++ [.error ⟨.graphLimitExceeded, "BFS exceeded max_vertices"⟩])
    else
      let state :=
        { state with queue := queue, out := state.out ++ [.ok current], yielded := state.yielded + 1 }
      if depthExceeded (current.depth + 1) options then .inr state
      else
        match adjacency current.id with
        | .error error => .inl (state.out ++ [.error error])
        | .ok neighbors => bfsNeighbors options resolve current neighbors state

def bfs (fuel : Nat) (start : ObjectId) (adjacency : Option AdjacencyFn) (options : TraversalOptions)
    (resolve : Option ResolveFn) : Option (List Yield) :=
  match adjacency with
  | none => some [.error ⟨.invalidArgument, "adjacency function is empty"⟩]
  | some adjacency =>
    Loop.run (bfsTurn adjacency options resolve) fuel
      { seen := {start}, queue := [⟨start, 0⟩], yielded := 0, out := [] }

/-! ### Depth first -/

/-- A place on the stack; `neighbors` are those not looked at yet. -/
structure Frame where
  id : ObjectId
  depth : UInt32
  neighbors : List ObjectId := []
  yielded : Bool := false

structure Dfs where
  seen : Finset ObjectId
  stack : List Frame
  yieldedCount : UInt64
  out : List Yield

/-- A place is yielded when it is first on top of the stack, and its neighbours are fetched. -/
def dfsYield (adjacency : AdjacencyFn) (options : TraversalOptions) (frame : Frame) (state : Dfs) :
    List Yield ⊕ (Frame × Dfs) :=
  if frame.yielded then .inr (frame, state)
  else if vertexLimitReached state.yieldedCount options then
    .inl (state.out ++ [.error ⟨.graphLimitExceeded, "DFS exceeded max_vertices"⟩])
  else
    let frame := { frame with yielded := true }
    let state :=
      { state with
        out := state.out ++ [.ok ⟨frame.id, frame.depth⟩]
        yieldedCount := state.yieldedCount + 1 }
    if depthExceeded (frame.depth + 1) options then .inr (frame, state)
    else
      match adjacency frame.id with
      | .error error => .inl (state.out ++ [.error error])
      | .ok neighbors => .inr ({ frame with neighbors := neighbors }, state)

/-- The neighbours up to the first new one, which goes on top of the stack. -/
def dfsNeighbors (options : TraversalOptions) (resolve : Option ResolveFn) (frame : Frame)
    (below : List Frame) : List ObjectId → Dfs → List Yield ⊕ Dfs
  | [], state => .inr { state with stack := below }
  | neighbor :: rest, state =>
    if cancelled options then .inl state.out
    else
      match acceptNeighbor neighbor resolve options.dangling with
      | .error error =>
        if options.dangling = .yieldError then
          dfsNeighbors options resolve frame below rest { state with out := state.out ++ [.error error] }
        else .inl (state.out ++ [.error error])
      | .ok accept =>
        if !accept then dfsNeighbors options resolve frame below rest state
        else if neighbor ∈ state.seen then dfsNeighbors options resolve frame below rest state
        else
          .inr
            { state with
              seen := insert neighbor state.seen
              stack :=
                { id := neighbor, depth := frame.depth + 1 } :: { frame with neighbors := rest } :: below }

def dfsTurn (adjacency : AdjacencyFn) (options : TraversalOptions) (resolve : Option ResolveFn)
    (state : Dfs) : List Yield ⊕ Dfs :=
  match state.stack with
  | [] => .inl state.out
  | frame :: below =>
    if cancelled options then .inl state.out
    else
      match dfsYield adjacency options frame state with
      | .inl out => .inl out
      | .inr (frame, state) => dfsNeighbors options resolve frame below frame.neighbors state

def dfs (fuel : Nat) (start : ObjectId) (adjacency : Option AdjacencyFn) (options : TraversalOptions)
    (resolve : Option ResolveFn) : Option (List Yield) :=
  match adjacency with
  | none => some [.error ⟨.invalidArgument, "adjacency function is empty"⟩]
  | some adjacency =>
    Loop.run (dfsTurn adjacency options resolve) fuel
      { seen := {start}, stack := [{ id := start, depth := 0 }], yieldedCount := 0, out := [] }

end MoDb.Graph
