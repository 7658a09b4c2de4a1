import MoDb.Graph.Edges
import Mathlib.Data.Fintype.Card

/-!
# The places of a breadth-first traversal

`bfs` is the layered search of the library: what it has yielded are the places expanded, what is in its
queue are those that wait. It ends because it yields no id twice, and there are finitely many.
-/

namespace MoDb.Graph

open Search

variable {adjacency : AdjacencyFn} {resolve : Option ResolveFn} {options : TraversalOptions}
  {neighbors : List ObjectId} {start : ObjectId} {error : Error}

theorem length_le_of_nodup {ids : List ObjectId} (h : ids.Nodup) : ids.length ≤ 2 ^ 64 := by
  have hcard := h.length_le_card
  rwa [FinEnum.card_eq_fintypeCard.symm, FinEnum.card_UInt64] at hcard

theorem card_le (ids : Finset ObjectId) : ids.card ≤ 2 ^ 64 := by
  rw [← Finset.length_toList]
  exact length_le_of_nodup ids.nodup_toList

theorem bfsNeighbors_of_refusal {current : GraphVisit} (hcancel : cancelled options = false)
    (hskip : options.dangling = .skip) (h : refusal resolve options.dangling neighbors = some error)
    (state : Bfs) :
    bfsNeighbors options resolve current neighbors state = .inl (state.out ++ [.error error]) := by
  induction neighbors generalizing state with
  | nil => cases h
  | cons neighbor rest ih =>
    rw [bfsNeighbors, hcancel, if_neg Bool.false_ne_true]
    cases haccept : acceptNeighbor neighbor resolve options.dangling with
    | error raised =>
      rw [refusal_cons_of_error haccept] at h
      dsimp only
      rw [hskip, if_neg (by decide), Option.some.inj h]
    | ok accept =>
      rw [refusal_cons_of_ok haccept] at h
      dsimp only
      split
      · exact ih h state
      · split
        · exact ih h state
        · exact ih h _

theorem bfsNeighbors_of_refusal_none {current : GraphVisit} (hcancel : cancelled options = false)
    (h : refusal resolve options.dangling neighbors = none) (state : Bfs) :
    bfsNeighbors options resolve current neighbors state =
      .inr { state with
        seen := state.seen ∪ (discover state.seen (targets resolve options.dangling neighbors)).toFinset
        queue := state.queue ++ (discover state.seen (targets resolve options.dangling neighbors)).map
          fun neighbor => ⟨neighbor, current.depth + 1⟩ } := by
  induction neighbors generalizing state with
  | nil => simp [bfsNeighbors, targets, discover]
  | cons neighbor rest ih =>
    rw [bfsNeighbors, hcancel, if_neg Bool.false_ne_true]
    cases haccept : acceptNeighbor neighbor resolve options.dangling with
    | error raised =>
      rw [refusal_cons_of_error haccept] at h
      cases h
    | ok accept =>
      rw [refusal_cons_of_ok haccept] at h
      rw [targets_cons_of_ok haccept]
      cases accept with
      | false =>
        rw [if_neg Bool.false_ne_true]
        exact ih h state
      | true =>
        rw [if_pos rfl]
        dsimp only
        rw [if_neg (by decide)]
        by_cases hseen : neighbor ∈ state.seen
        · rw [if_pos hseen, discover_cons_of_mem hseen]
          exact ih h state
        · rw [if_neg hseen, discover_cons_of_notMem hseen, ih h]
          have hunion (found : List ObjectId) : insert neighbor state.seen ∪ found.toFinset =
              state.seen ∪ (neighbor :: found).toFinset := by
            rw [List.toFinset_cons, Finset.insert_union, Finset.union_insert]
          rw [hunion, List.map_cons, List.append_assoc, List.singleton_append]

def visit (entry : ObjectId × Nat) : GraphVisit :=
  ⟨entry.1, UInt32.ofNat entry.2⟩

/-- The state of `bfs` in terms of the places expanded and those that wait. -/
structure Bfs.Represents (adjacency : AdjacencyFn) (resolve : Option ResolveFn) (options : TraversalOptions)
    (start : ObjectId) (state : Bfs) (done queue : List (ObjectId × Nat)) : Prop where
  layers : Layers (Edge adjacency resolve options.dangling) (limit options) start done queue
  queue_eq : state.queue = queue.map visit
  mem_seen : ∀ id, id ∈ state.seen ↔ id ∈ (done ++ queue).map Prod.fst
  out_eq : state.out = done.map fun entry => .ok (visit entry)

/-- What a traversal has yielded when it ends: visits, and last the error that ended it, if any. -/
structure Ended (adjacency : AdjacencyFn) (resolve : Option ResolveFn) (options : TraversalOptions)
    (start : ObjectId) (out : List Yield) (done : List (ObjectId × Nat)) (failure : Option Error) : Prop where
  out_eq : out = (done.map fun entry => .ok (visit entry)) ++ failure.toList.map .error
  nodup : (done.map Prod.fst).Nodup
  steps : ∀ entry ∈ done,
    Steps (Edge adjacency resolve options.dangling) entry.2 start entry.1 ∧ Within (limit options) entry.2
  raised : ∀ error ∈ failure, ∃ entry ∈ done,
    Within (limit options) (entry.2 + 1) ∧ Raised adjacency resolve entry.1 error

theorem represents_start :
    Bfs.Represents adjacency resolve options start
      { seen := {start}, queue := [⟨start, 0⟩], yielded := 0, out := [] } [] [(start, 0)] := by
  refine ⟨layers_start, rfl, fun id => ?_, rfl⟩
  rw [Finset.mem_singleton]
  exact List.mem_singleton.symm

namespace Bfs.Represents

variable {state : Bfs} {done queue : List (ObjectId × Nat)}

theorem length_le (h : state.Represents adjacency resolve options start done queue) :
    state.out.length ≤ 2 ^ 64 := by
  rw [h.out_eq, List.length_map, ← done.length_map (f := Prod.fst)]
  apply length_le_of_nodup
  have hnodup := h.layers.nodup
  rw [List.map_append] at hnodup
  exact hnodup.of_append_left

theorem ended_of_raised {entry : ObjectId × Nat}
    (h : state.Represents adjacency resolve options start done (entry :: queue))
    (hwithin : Within (limit options) (entry.2 + 1)) (hraised : Raised adjacency resolve entry.1 error) :
    Ended adjacency resolve options start (state.out ++ [.ok (visit entry)] ++ [.error error])
      (done ++ [entry]) (some error) := by
  have happ : done ++ [entry] ++ queue = done ++ entry :: queue := by
    rw [List.append_assoc, List.singleton_append]
  refine ⟨?_, ?_, ?_, ?_⟩
  · rw [h.out_eq, List.map_append]
    rfl
  · have hnodup := h.layers.nodup
    rw [← happ, List.map_append] at hnodup
    exact hnodup.of_append_left
  · intro other hother
    exact h.layers.steps other (happ ▸ List.mem_append_left queue hother)
  · intro raised hmem
    rw [← Option.some.inj hmem]
    exact ⟨entry, List.mem_append_right _ (List.mem_singleton_self _), hwithin, hraised⟩

theorem turn (hcancel : options.hasCancel = false) (hvertices : options.maxVertices = 0)
    (hskip : options.dangling = .skip)
    (h : state.Represents adjacency resolve options start done queue) :
    match bfsTurn adjacency options resolve state with
    | .inl out => ∃ done failure, Ended adjacency resolve options start out done failure ∧
        (failure = none → Layers (Edge adjacency resolve options.dangling) (limit options) start done [])
    | .inr next => state.out.length < next.out.length ∧
        ∃ done queue, next.Represents adjacency resolve options start done queue := by
  have hnot : cancelled options = false := by rw [cancelled, hcancel, Bool.false_and]
  have hfew : vertexLimitReached state.yielded options = false := by
    rw [vertexLimitReached, hvertices]
    rfl
  unfold bfsTurn
  cases queue with
  | nil =>
    have hlayers := h.layers
    rw [h.queue_eq]
    refine ⟨done, none, ⟨?_, ?_, ?_, ?_⟩, fun _ => hlayers⟩
    · rw [h.out_eq]
      exact (List.append_nil _).symm
    · have hnodup := hlayers.nodup
      rwa [List.append_nil] at hnodup
    · intro entry hentry
      exact hlayers.steps entry (List.mem_append_left _ hentry)
    · intro raised hmem
      cases hmem
  | cons entry queue =>
    rw [h.queue_eq, List.map_cons]
    dsimp only
    rw [hnot, if_neg Bool.false_ne_true, hfew, if_neg Bool.false_ne_true]
    have hentry := (h.layers.steps entry (List.mem_append_right _ List.mem_cons_self)).2
    have happ (rest : List (ObjectId × Nat)) : done ++ [entry] ++ (queue ++ rest) =
        done ++ entry :: queue ++ rest := by
      rw [List.append_assoc, List.append_assoc, List.singleton_append, List.cons_append]
    have hout : state.out ++ [Except.ok (visit entry)] = (done ++ [entry]).map fun entry => .ok (visit entry) := by
      rw [h.out_eq, List.map_append]
      rfl
    have hlonger : state.out.length < (state.out ++ [Except.ok (visit entry)]).length := by
      rw [List.length_append]
      exact Nat.lt_succ_self _
    by_cases hdeep : depthExceeded ((visit entry).depth + 1) options = true
    · rw [if_pos hdeep]
      refine ⟨hlonger, done ++ [entry], queue, ?_, rfl, ?_, hout⟩
      · exact h.layers.cut ((depthExceeded_eq hentry).1 hdeep)
      · intro id
        have happ' := happ []
        rw [List.append_nil, List.append_nil] at happ'
        rw [happ']
        exact h.mem_seen id
    · rw [if_neg hdeep]
      have hwithin : Within (limit options) (entry.2 + 1) :=
        not_not.1 fun hnot => hdeep ((depthExceeded_eq hentry).2 hnot)
      cases hadjacency : adjacency (visit entry).id with
      | error raised =>
        have hraised : Raised adjacency resolve entry.1 raised := .adjacency hadjacency
        refine ⟨_, some raised, h.ended_of_raised hwithin hraised, ?_⟩
        intro hnone
        cases hnone
      | ok neighbors =>
        dsimp only
        cases hrefusal : refusal resolve options.dangling neighbors with
        | some raised =>
          rw [bfsNeighbors_of_refusal hnot hskip hrefusal]
          have hraised : Raised adjacency resolve entry.1 raised :=
            raised_of_refusal hadjacency (hskip ▸ hrefusal)
          refine ⟨_, some raised, h.ended_of_raised hwithin hraised, ?_⟩
          intro hnone
          cases hnone
        | none =>
          rw [bfsNeighbors_of_refusal_none hnot hrefusal]
          refine ⟨hlonger, _, _, h.layers.expand hwithin h.mem_seen fun id => mem_targets hadjacency,
            ?_, ?_, hout⟩
          · dsimp only
            rw [List.map_append, List.map_map]
            apply congrArg
            apply List.map_congr_left
            intro neighbor _
            rw [Function.comp_apply, visit, visit, UInt32.ofNat_add]
            rfl
          · intro neighbor
            dsimp only
            have hfst : Prod.fst ∘ (fun id : ObjectId => (id, entry.2 + 1)) = id := rfl
            rw [happ, List.map_append, List.map_map, hfst, List.map_id, List.mem_append, Finset.mem_union,
              List.mem_toFinset, h.mem_seen neighbor]

end Bfs.Represents

theorem bfs_ends (hcancel : options.hasCancel = false) (hvertices : options.maxVertices = 0)
    (hskip : options.dangling = .skip) (start : ObjectId) {fuel : Nat} (hfuel : 2 ^ 64 < fuel) :
    ∃ out done failure, bfs fuel start (some adjacency) options resolve = some out ∧
      Ended adjacency resolve options start out done failure ∧
      (failure = none → Layers (Edge adjacency resolve options.dangling) (limit options) start done []) := by
  have hstep : ∀ state next : Bfs,
      (∃ done queue, state.Represents adjacency resolve options start done queue) →
      bfsTurn adjacency options resolve state = .inr next →
      (∃ done queue, next.Represents adjacency resolve options start done queue) ∧
        2 ^ 64 - next.out.length < 2 ^ 64 - state.out.length := by
    rintro state next ⟨done, queue, h⟩ hturn
    have hspec := h.turn hcancel hvertices hskip
    rw [hturn] at hspec
    obtain ⟨hlonger, done', queue', hnext⟩ := hspec
    have hle := hnext.length_le
    exact ⟨⟨done', queue', hnext⟩, by omega⟩
  obtain ⟨out, last, hrun, ⟨done, queue, hlast⟩, hturn⟩ :=
    Loop.run_ends _ (fun state : Bfs => 2 ^ 64 - state.out.length) hstep ⟨_, _, represents_start⟩ hfuel
  have hspec := hlast.turn hcancel hvertices hskip
  rw [hturn] at hspec
  obtain ⟨done', failure, hended, hlayers⟩ := hspec
  exact ⟨out, done', failure, hrun, hended, hlayers⟩

end MoDb.Graph
