import MoDb.Graph.Cycles
import Mathlib.Algebra.BigOperators.Group.Finset.Basic
import Mathlib.Algebra.Order.BigOperators.Group.Finset

/-!
# Topological order

`topological_sort` counts the edges into each listed vertex, with as many as are repeated, and takes the
vertices with none left one after the other. The counts are 32-bit numbers.
-/

namespace MoDb.Graph

open Search Finset

abbrev Indegree := ObjectId → UInt32

abbrev Outgoing := ObjectId → Option (List ObjectId)

def Outgoing.emplace (outgoing : Outgoing) (id : ObjectId) (targets : List ObjectId) : Outgoing :=
  if (outgoing id).isSome then outgoing else Function.update outgoing id (some targets)

def filterNeighbors (listed : Finset ObjectId) (options : TraversalOptions) (resolve : Option ResolveFn) :
    List ObjectId → List ObjectId → Indegree → Except Error (List ObjectId × Indegree)
  | [], filtered, indegree => .ok (filtered, indegree)
  | neighbor :: rest, filtered, indegree =>
    if neighbor ∉ listed then filterNeighbors listed options resolve rest filtered indegree
    else
      match acceptNeighbor neighbor resolve options.dangling with
      | .error error => .error error
      | .ok accept =>
        if !accept then filterNeighbors listed options resolve rest filtered indegree
        else
          filterNeighbors listed options resolve rest (filtered ++ [neighbor])
            (Function.update indegree neighbor (indegree neighbor + 1))

def countEdges (listed : Finset ObjectId) (adjacency : AdjacencyFn) (options : TraversalOptions)
    (resolve : Option ResolveFn) :
    List ObjectId → Indegree → Outgoing → Except Error (Indegree × Outgoing)
  | [], indegree, outgoing => .ok (indegree, outgoing)
  | place :: rest, indegree, outgoing =>
    if cancelled options then .error ⟨.invalidArgument, "topological_sort cancelled"⟩
    else
      match adjacency place with
      | .error error => .error error
      | .ok neighbors =>
        match filterNeighbors listed options resolve neighbors [] indegree with
        | .error error => .error error
        | .ok (filtered, indegree) =>
          countEdges listed adjacency options resolve rest indegree (outgoing.emplace place filtered)

structure Sorting where
  indegree : Indegree
  ready : List ObjectId
  order : List ObjectId

def release : List ObjectId → Indegree → List ObjectId → Indegree × List ObjectId
  | [], indegree, ready => (indegree, ready)
  | neighbor :: rest, indegree, ready =>
    let degree := if indegree neighbor > 0 then indegree neighbor - 1 else indegree neighbor
    release rest (Function.update indegree neighbor degree)
      (if degree = 0 then ready ++ [neighbor] else ready)

def sortTurn (options : TraversalOptions) (outgoing : Outgoing) (state : Sorting) :
    Except Error (List ObjectId) ⊕ Sorting :=
  match state.ready with
  | [] => .inl (.ok state.order)
  | current :: ready =>
    if cancelled options then .inl (.error ⟨.invalidArgument, "topological_sort cancelled"⟩)
    else
      let released := release ((outgoing current).getD []) state.indegree ready
      .inr { indegree := released.1, ready := released.2, order := state.order ++ [current] }

def graphCycle : Error :=
  ⟨.graphCycle, "topological_sort requires a DAG"⟩

def topologicalSort (fuel : Nat) (vertices : List ObjectId) (adjacency : Option AdjacencyFn)
    (options : TraversalOptions) (resolve : Option ResolveFn) : Option (Except Error (List ObjectId)) :=
  match adjacency with
  | none => some (.error ⟨.invalidArgument, "adjacency function is empty"⟩)
  | some adjacency =>
    match countEdges vertices.toFinset adjacency options resolve vertices (fun _ => 0) fun _ => none with
    | .error error => some (.error error)
    | .ok (indegree, outgoing) =>
      match Loop.run (sortTurn options outgoing) fuel
        { indegree := indegree, ready := vertices.filter fun id => indegree id = 0, order := [] } with
      | none => none
      | some (.error error) => some (.error error)
      | some (.ok order) =>
        if order.length ≠ vertices.length then some (.error graphCycle) else some (.ok order)

variable {adjacency : AdjacencyFn} {resolve : Option ResolveFn} {options : TraversalOptions}
  {listed : Finset ObjectId} {neighbors : List ObjectId} {error : Error}

theorem Outgoing.emplace_self {outgoing : Outgoing} {id : ObjectId} {found : List ObjectId}
    (h : outgoing id = none) : outgoing.emplace id found id = some found := by
  rw [emplace, h, if_neg (by decide), Function.update_self]

theorem Outgoing.emplace_of_ne {outgoing : Outgoing} {id other : ObjectId} {found : List ObjectId}
    (h : other ≠ id) : outgoing.emplace id found other = outgoing other := by
  rw [emplace]
  split
  · rfl
  · exact Function.update_of_ne h _ _

/-! ### Counting -/

/-- The edges of a vertex to listed ones, in order and with repetitions. -/
def listedTargets (listed : Finset ObjectId) (adjacency : AdjacencyFn) (resolve : Option ResolveFn)
    (options : TraversalOptions) (place : ObjectId) : List ObjectId :=
  match adjacency place with
  | .error _ => []
  | .ok neighbors => targets resolve options.dangling (neighbors.filter (· ∈ listed))

def edgesInto (listed : Finset ObjectId) (adjacency : AdjacencyFn) (resolve : Option ResolveFn)
    (options : TraversalOptions) (sources : Finset ObjectId) (id : ObjectId) : Nat :=
  ∑ place ∈ sources, (listedTargets listed adjacency resolve options place).count id

theorem listedTargets_eq {place : ObjectId} (h : adjacency place = .ok neighbors) :
    listedTargets listed adjacency resolve options place =
      targets resolve options.dangling (neighbors.filter (· ∈ listed)) := by
  rw [listedTargets, h]

theorem mem_listedTargets {place id : ObjectId} (hplace : place ∈ listed) :
    id ∈ listedTargets listed adjacency resolve options place ↔
      ListedEdge listed adjacency resolve options place id := by
  cases hadjacency : adjacency place with
  | error raised =>
    rw [listedTargets, hadjacency]
    refine iff_of_false List.not_mem_nil ?_
    rintro ⟨_, _, neighbors, hneighbors, _⟩
    rw [hadjacency] at hneighbors
    cases hneighbors
  | ok neighbors =>
    rw [listedTargets_eq hadjacency, targets, List.mem_filter, List.mem_filter, accepts_iff, decide_eq_true_iff]
    constructor
    · rintro ⟨⟨hmem, hid⟩, haccept⟩
      exact ⟨hplace, hid, neighbors, hadjacency, hmem, haccept⟩
    · rintro ⟨_, hid, neighbors', hneighbors', hmem, haccept⟩
      rw [hadjacency] at hneighbors'
      rw [← Except.ok.inj hneighbors'] at hmem
      exact ⟨⟨hmem, hid⟩, haccept⟩

/-- The targets are kept, and each is counted. -/
structure Filtered (listed : Finset ObjectId) (resolve : Option ResolveFn) (options : TraversalOptions)
    (neighbors filtered : List ObjectId) (indegree : Indegree) (result : List ObjectId × Indegree) : Prop where
  answered : ∀ neighbor ∈ neighbors, neighbor ∈ listed →
    ∃ accept, acceptNeighbor neighbor resolve options.dangling = .ok accept
  filtered_eq : result.1 = filtered ++ targets resolve options.dangling (neighbors.filter (· ∈ listed))
  indegree_eq : ∀ id, result.2 id = indegree id +
    UInt32.ofNat ((targets resolve options.dangling (neighbors.filter (· ∈ listed))).count id)

theorem filterNeighbors_spec (hskip : options.dangling = .skip) {place : ObjectId} {all : List ObjectId}
    (hplace : place ∈ listed) (hadjacency : adjacency place = .ok all) (hsub : neighbors ⊆ all)
    (filtered : List ObjectId) (indegree : Indegree) :
    match filterNeighbors listed options resolve neighbors filtered indegree with
    | .error error => Fails listed adjacency resolve options error
    | .ok result => Filtered listed resolve options neighbors filtered indegree result := by
  induction neighbors generalizing filtered indegree with
  | nil =>
    refine ⟨fun neighbor hmem => ?_, (List.append_nil _).symm, fun id => (UInt32.add_zero _).symm⟩
    cases hmem
  | cons neighbor rest ih =>
    have hsub' : rest ⊆ all := fun id hid => hsub (List.mem_cons_of_mem _ hid)
    have hanswered {filtered : List ObjectId} {indegree : Indegree} {result : List ObjectId × Indegree}
        (h : Filtered listed resolve options rest filtered indegree result)
        (hneighbor : neighbor ∈ listed →
          ∃ accept, acceptNeighbor neighbor resolve options.dangling = .ok accept) :
        ∀ other ∈ neighbor :: rest, other ∈ listed →
          ∃ accept, acceptNeighbor other resolve options.dangling = .ok accept := by
      intro other hother hlisted
      rcases List.mem_cons.1 hother with rfl | hother
      · exact hneighbor hlisted
      · exact h.answered other hother hlisted
    rw [filterNeighbors]
    by_cases hmember : neighbor ∈ listed
    · have hfilter : (neighbor :: rest).filter (· ∈ listed) = neighbor :: rest.filter (· ∈ listed) :=
        List.filter_cons_of_pos (by simpa using hmember)
      rw [if_neg (not_not.2 hmember)]
      cases haccept : acceptNeighbor neighbor resolve options.dangling with
      | error raised =>
        exact fails_of_acceptNeighbor hskip hplace hadjacency (hsub List.mem_cons_self) hmember haccept
      | ok accept =>
        have htargets : targets resolve options.dangling (neighbor :: rest.filter (· ∈ listed)) =
            if accept then neighbor :: targets resolve options.dangling (rest.filter (· ∈ listed))
            else targets resolve options.dangling (rest.filter (· ∈ listed)) := targets_cons_of_ok haccept
        rw [← hfilter] at htargets
        cases accept with
        | false =>
          have hrest := ih hsub' filtered indegree
          revert hrest
          dsimp only
          rw [Bool.not_false, if_pos rfl]
          cases filterNeighbors listed options resolve rest filtered indegree with
          | error raised => exact id
          | ok result =>
            intro h
            rw [if_neg Bool.false_ne_true] at htargets
            refine ⟨hanswered h fun _ => ⟨false, haccept⟩, ?_, ?_⟩
            · rw [htargets]
              exact h.filtered_eq
            · rw [htargets]
              exact h.indegree_eq
        | true =>
          have hrest := ih hsub' (filtered ++ [neighbor])
            (Function.update indegree neighbor (indegree neighbor + 1))
          revert hrest
          dsimp only
          rw [Bool.not_true, if_neg Bool.false_ne_true]
          cases filterNeighbors listed options resolve rest (filtered ++ [neighbor])
              (Function.update indegree neighbor (indegree neighbor + 1)) with
          | error raised => exact id
          | ok result =>
            intro h
            rw [if_pos rfl] at htargets
            refine ⟨hanswered h fun _ => ⟨true, haccept⟩, ?_, fun id => ?_⟩
            · rw [htargets, h.filtered_eq, List.append_assoc, List.singleton_append]
            · rw [htargets, h.indegree_eq]
              by_cases hid : id = neighbor
              · subst hid
                rw [Function.update_self, List.count_cons_self, UInt32.ofNat_add, UInt32.add_assoc,
                  UInt32.add_comm 1]
                rfl
              · rw [Function.update_of_ne hid, List.count_cons_of_ne (Ne.symm hid)]
    · have hfilter : (neighbor :: rest).filter (· ∈ listed) = rest.filter (· ∈ listed) :=
        List.filter_cons_of_neg (by simpa using hmember)
      rw [if_pos hmember]
      have hrest := ih hsub' filtered indegree
      revert hrest
      cases filterNeighbors listed options resolve rest filtered indegree with
      | error raised => exact id
      | ok result =>
        intro h
        refine ⟨hanswered h fun hyes => absurd hyes hmember, ?_, ?_⟩
        · rw [hfilter]
          exact h.filtered_eq
        · rw [hfilter]
          exact h.indegree_eq

/-- What the first loop leaves: the edges of each vertex that has been looked at, and their counts. -/
structure Counted (listed : Finset ObjectId) (adjacency : AdjacencyFn) (resolve : Option ResolveFn)
    (options : TraversalOptions) (sources : Finset ObjectId) (indegree : Indegree) (outgoing : Outgoing) :
    Prop where
  answered : ∀ place ∈ sources, Answered listed adjacency resolve options place
  outgoing_eq : ∀ place ∈ sources,
    outgoing place = some (listedTargets listed adjacency resolve options place)
  outgoing_none : ∀ place, place ∉ sources → outgoing place = none
  indegree_eq : ∀ id, indegree id = UInt32.ofNat (edgesInto listed adjacency resolve options sources id)

theorem countEdges_spec (hcancel : cancelled options = false) (hskip : options.dangling = .skip)
    {sources : Finset ObjectId} {rest : List ObjectId} {indegree : Indegree} {outgoing : Outgoing}
    (h : Counted listed adjacency resolve options sources indegree outgoing) (hrest : ∀ id ∈ rest, id ∈ listed)
    (hnodup : rest.Nodup) (hapart : ∀ id ∈ rest, id ∉ sources) :
    match countEdges listed adjacency options resolve rest indegree outgoing with
    | .error error => Fails listed adjacency resolve options error
    | .ok result => Counted listed adjacency resolve options (sources ∪ rest.toFinset) result.1 result.2 := by
  induction rest generalizing sources indegree outgoing with
  | nil =>
    rw [countEdges, List.toFinset_nil, Finset.union_empty]
    exact h
  | cons place rest ih =>
    rw [countEdges, hcancel, if_neg Bool.false_ne_true]
    have hplace := hrest place List.mem_cons_self
    cases hadjacency : adjacency place with
    | error raised => exact fails_of_adjacency hplace hadjacency
    | ok neighbors =>
      dsimp only
      have hfiltered := @filterNeighbors_spec adjacency resolve options listed neighbors hskip place neighbors
        hplace hadjacency (List.Subset.refl _) [] indegree
      revert hfiltered
      cases filterNeighbors listed options resolve neighbors [] indegree with
      | error raised => exact id
      | ok result =>
        intro hfiltered
        have hnew := hapart place List.mem_cons_self
        have htargets : listedTargets listed adjacency resolve options place =
            targets resolve options.dangling (neighbors.filter (· ∈ listed)) := listedTargets_eq hadjacency
        have hresult : result.1 = listedTargets listed adjacency resolve options place := by
          rw [hfiltered.filtered_eq, htargets, List.nil_append]
        have hcounted : Counted listed adjacency resolve options (insert place sources) result.2
            (outgoing.emplace place result.1) := by
          refine ⟨fun id hid => ?_, fun id hid => ?_, fun id hid => ?_, fun id => ?_⟩
          · rcases Finset.mem_insert.1 hid with rfl | hid
            · exact ⟨neighbors, hadjacency, hfiltered.answered⟩
            · exact h.answered id hid
          · rcases Finset.mem_insert.1 hid with rfl | hold
            · rw [Outgoing.emplace_self (h.outgoing_none _ hnew), hresult]
            · have hne : id ≠ place := by
                rintro rfl
                exact hnew hold
              rw [Outgoing.emplace_of_ne hne]
              exact h.outgoing_eq id hold
          · rw [Finset.mem_insert, not_or] at hid
            rw [Outgoing.emplace_of_ne hid.1]
            exact h.outgoing_none id hid.2
          · rw [hfiltered.indegree_eq, h.indegree_eq, ← UInt32.ofNat_add, edgesInto, edgesInto,
              Finset.sum_insert hnew, htargets, Nat.add_comm]
        have hunion : insert place sources ∪ rest.toFinset = sources ∪ (place :: rest).toFinset := by
          rw [List.toFinset_cons, Finset.insert_union, Finset.union_insert]
        rw [← hunion]
        rw [List.nodup_cons] at hnodup
        apply ih hcounted (fun id hid => hrest id (List.mem_cons_of_mem _ hid)) hnodup.2
        intro id hid hmem
        rcases Finset.mem_insert.1 hmem with rfl | hmem
        · exact hnodup.1 hid
        · exact hapart id (List.mem_cons_of_mem _ hid) hmem

theorem countEdges_ends (vertices : List ObjectId) (adjacency : AdjacencyFn) (resolve : Option ResolveFn)
    (hcancel : cancelled options = false) (hskip : options.dangling = .skip) (hnodup : vertices.Nodup) :
    match countEdges vertices.toFinset adjacency options resolve vertices (fun _ => 0) fun _ => none with
    | .error error => Fails vertices.toFinset adjacency resolve options error
    | .ok result => Counted vertices.toFinset adjacency resolve options vertices.toFinset result.1 result.2 := by
  have hstart : Counted vertices.toFinset adjacency resolve options ∅ (fun _ => 0) fun _ => none := by
    refine ⟨fun place hplace => ?_, fun place hplace => ?_, fun _ _ => rfl, fun id => ?_⟩
    · exact absurd hplace (Finset.notMem_empty place)
    · exact absurd hplace (Finset.notMem_empty place)
    · rw [edgesInto, Finset.sum_empty]
      rfl
  have hspec := countEdges_spec hcancel hskip hstart (fun id hid => List.mem_toFinset.2 hid) hnodup
    fun id _ => Finset.notMem_empty id
  rwa [Finset.empty_union] at hspec

/-! ### Taking the vertices -/

theorem release_spec {targets : List ObjectId} {indegree : Indegree} {ready : List ObjectId}
    (h : ∀ id, targets.count id ≤ (indegree id).toNat) :
    (∀ id, ((release targets indegree ready).1 id).toNat = (indegree id).toNat - targets.count id) ∧
    ∃ found, (release targets indegree ready).2 = ready ++ found ∧ found.Nodup ∧
      ∀ id, id ∈ found ↔ id ∈ targets ∧ (indegree id).toNat = targets.count id := by
  induction targets generalizing indegree ready with
  | nil =>
    refine ⟨fun id => rfl, [], (List.append_nil _).symm, List.nodup_nil, fun id => ?_⟩
    exact iff_of_false List.not_mem_nil fun hid => absurd hid.1 List.not_mem_nil
  | cons neighbor rest ih =>
    rw [release]
    have hself := h neighbor
    rw [List.count_cons_self] at hself
    have hpos : 0 < (indegree neighbor).toNat := Nat.lt_of_lt_of_le (Nat.succ_pos _) hself
    have hpos' : indegree neighbor > 0 := by
      rw [gt_iff_lt, UInt32.lt_iff_toNat_lt]
      exact hpos
    rw [if_pos hpos']
    have hle : (1 : UInt32) ≤ indegree neighbor := by
      rw [UInt32.le_iff_toNat_le]
      exact hpos
    have hdegree : (indegree neighbor - 1).toNat = (indegree neighbor).toNat - 1 :=
      UInt32.toNat_sub_of_le _ _ hle
    have hzero : indegree neighbor - 1 = 0 ↔ (indegree neighbor).toNat = 1 := by
      rw [← UInt32.toNat_inj, hdegree]
      change _ = 0 ↔ _
      omega
    obtain ⟨indegree', hindegree'⟩ :
        ∃ indegree', indegree' = Function.update indegree neighbor (indegree neighbor - 1) := ⟨_, rfl⟩
    rw [← hindegree']
    have hat (id : ObjectId) : (indegree' id).toNat = (indegree id).toNat - if id = neighbor then 1 else 0 := by
      rw [hindegree']
      by_cases hid : id = neighbor
      · rw [hid, Function.update_self, hdegree, if_pos rfl]
      · rw [Function.update_of_ne hid, if_neg hid, Nat.sub_zero]
    have hcount (id : ObjectId) :
        (neighbor :: rest).count id = rest.count id + if id = neighbor then 1 else 0 := by
      by_cases hid : id = neighbor
      · rw [hid, List.count_cons_self, if_pos rfl]
      · rw [List.count_cons_of_ne (Ne.symm hid), if_neg hid, Nat.add_zero]
    have hrest : ∀ id, rest.count id ≤ (indegree' id).toNat := by
      intro id
      have hid := h id
      rw [hcount] at hid
      rw [hat]
      omega
    obtain ⟨hfinal, found, hready, hnodup, hfound⟩ :=
      @ih indegree' (if indegree neighbor - 1 = 0 then ready ++ [neighbor] else ready) hrest
    refine ⟨fun id => ?_, ?_⟩
    · rw [hfinal, hat, hcount]
      omega
    · have hsame (id : ObjectId) : (indegree' id).toNat = rest.count id ↔
          (indegree id).toNat = (neighbor :: rest).count id := by
        have hid := h id
        rw [hcount] at hid ⊢
        rw [hat]
        omega
      by_cases hlast : indegree neighbor - 1 = 0
      · rw [if_pos hlast] at hready ⊢
        have hone := hzero.1 hlast
        have hnone : rest.count neighbor = 0 := by omega
        have hnot : neighbor ∉ rest := List.count_eq_zero.1 hnone
        refine ⟨neighbor :: found, ?_, List.nodup_cons.2 ⟨fun hmem => hnot ((hfound neighbor).1 hmem).1, hnodup⟩,
          fun id => ?_⟩
        · rw [hready, List.append_assoc, List.singleton_append]
        · rw [List.mem_cons, List.mem_cons, hfound, hsame]
          constructor
          · rintro (rfl | ⟨hmem, hdegree⟩)
            · refine ⟨.inl rfl, ?_⟩
              rw [List.count_cons_self, hnone, hone]
            · exact ⟨.inr hmem, hdegree⟩
          · rintro ⟨rfl | hmem, hdegree⟩
            · exact .inl rfl
            · exact .inr ⟨hmem, hdegree⟩
      · rw [if_neg hlast] at hready ⊢
        refine ⟨found, hready, hnodup, fun id => ?_⟩
        rw [hfound, hsame, List.mem_cons]
        constructor
        · rintro ⟨hmem, hdegree⟩
          exact ⟨.inr hmem, hdegree⟩
        · rintro ⟨rfl | hmem, hdegree⟩
          · have hmore : (indegree id).toNat ≠ 1 := fun hone => hlast (hzero.2 hone)
            rw [List.count_cons_self] at hdegree
            refine ⟨List.count_pos_iff.1 (by omega), ?_⟩
            rw [List.count_cons_self]
            exact hdegree
          · exact ⟨hmem, hdegree⟩

/-- The vertices taken so far, and those ready to be taken: exactly those without an edge from a vertex
that is left. -/
structure Sorting.Ordered (listed : Finset ObjectId) (adjacency : AdjacencyFn) (resolve : Option ResolveFn)
    (options : TraversalOptions) (state : Sorting) : Prop where
  nodup : (state.order ++ state.ready).Nodup
  within : ∀ id ∈ state.order ++ state.ready, id ∈ listed
  indegree_eq : ∀ id ∈ listed, (state.indegree id).toNat =
    edgesInto listed adjacency resolve options (listed \ state.order.toFinset) id
  taken : ∀ id ∈ listed, id ∈ state.order ++ state.ready ↔
    edgesInto listed adjacency resolve options (listed \ state.order.toFinset) id = 0
  forward : state.order.Pairwise fun earlier later =>
    ¬ListedEdge listed adjacency resolve options later earlier
  loop : ∀ id ∈ state.order ++ state.ready, ¬ListedEdge listed adjacency resolve options id id

theorem not_listedEdge_of_edgesInto {sources : Finset ObjectId} {place id : ObjectId}
    (h : edgesInto listed adjacency resolve options sources id = 0) (hplace : place ∈ sources) :
    ¬ListedEdge listed adjacency resolve options place id := by
  intro hedge
  have hzero := Finset.sum_eq_zero_iff.1 h place hplace
  exact List.count_eq_zero.1 hzero ((mem_listedTargets hedge.1).2 hedge)

theorem edgesInto_erase {sources : Finset ObjectId} {place : ObjectId} (hplace : place ∈ sources)
    (id : ObjectId) :
    edgesInto listed adjacency resolve options sources id =
      (listedTargets listed adjacency resolve options place).count id +
        edgesInto listed adjacency resolve options (sources.erase place) id :=
  (Finset.add_sum_erase sources _ hplace).symm

namespace Sorting.Ordered

variable {state : Sorting} {current : ObjectId} {ready : List ObjectId}

theorem not_mem_order (h : state.Ordered listed adjacency resolve options)
    (hready : state.ready = current :: ready) : current ∉ state.order := by
  intro hmem
  have hnodup := h.nodup
  rw [hready] at hnodup
  exact (List.nodup_append.1 hnodup).2.2 current hmem current List.mem_cons_self rfl

theorem take (h : state.Ordered listed adjacency resolve options) (hready : state.ready = current :: ready)
    {released : Indegree × List ObjectId}
    (hreleased : released =
      release (listedTargets listed adjacency resolve options current) state.indegree ready) :
    Sorting.Ordered listed adjacency resolve options
      { indegree := released.1, ready := released.2, order := state.order ++ [current] } := by
  have hcurrent : current ∈ listed := h.within current (by
    rw [hready]
    exact List.mem_append_right _ List.mem_cons_self)
  have hleft : current ∈ listed \ state.order.toFinset := by
    rw [Finset.mem_sdiff, List.mem_toFinset]
    exact ⟨hcurrent, h.not_mem_order hready⟩
  have herase : listed \ (state.order ++ [current]).toFinset = (listed \ state.order.toFinset).erase current := by
    ext id
    rw [Finset.mem_erase, Finset.mem_sdiff, Finset.mem_sdiff, List.mem_toFinset, List.mem_toFinset,
      List.mem_append, List.mem_singleton]
    tauto
  have hedges (id : ObjectId) := @edgesInto_erase adjacency resolve options listed _ current hleft id
  have hcount (id : ObjectId) :
      (listedTargets listed adjacency resolve options current).count id ≤ (state.indegree id).toNat := by
    by_cases hid : id ∈ listed
    · rw [h.indegree_eq id hid, hedges id]
      exact Nat.le_add_right _ _
    · have hnot : id ∉ listedTargets listed adjacency resolve options current :=
        fun hmem => hid ((mem_listedTargets hcurrent).1 hmem).2.1
      rw [List.count_eq_zero.2 hnot]
      exact Nat.zero_le _
  obtain ⟨hindegree, found, hfound_eq, hfound_nodup, hfound⟩ :=
    @release_spec _ state.indegree ready hcount
  rw [← hreleased] at hindegree hfound_eq
  have happ : state.order ++ [current] ++ (ready ++ found) = state.order ++ state.ready ++ found := by
    rw [hready]
    simp
  -- A vertex that is found still had an edge before, so it is new.
  have hnew (id : ObjectId) (hid : id ∈ found) : id ∈ listed ∧ id ∉ state.order ++ state.ready ∧
      edgesInto listed adjacency resolve options ((listed \ state.order.toFinset).erase current) id = 0 := by
    obtain ⟨hmem, heq⟩ := (hfound id).1 hid
    have hlisted : id ∈ listed := ((mem_listedTargets hcurrent).1 hmem).2.1
    have hpos := List.count_pos_iff.2 hmem
    rw [h.indegree_eq id hlisted, hedges id] at heq
    refine ⟨hlisted, fun hold => ?_, by omega⟩
    have hzero := (h.taken id hlisted).1 hold
    rw [hedges id] at hzero
    omega
  refine ⟨?_, ?_, ?_, ?_, ?_, ?_⟩
  · dsimp only
    rw [hfound_eq, happ]
    apply h.nodup.append hfound_nodup
    intro id hold hid
    exact (hnew id hid).2.1 hold
  · intro id hid
    dsimp only at hid
    rw [hfound_eq, happ] at hid
    rcases List.mem_append.1 hid with hid | hid
    · exact h.within id hid
    · exact (hnew id hid).1
  · intro id hid
    dsimp only
    rw [hindegree, h.indegree_eq id hid, herase, hedges id, Nat.add_sub_cancel_left]
  · intro id hid
    dsimp only
    rw [hfound_eq, happ, herase, List.mem_append, h.taken id hid, hedges id]
    constructor
    · rintro (hold | hid')
      · exact (Nat.add_eq_zero_iff.1 hold).2
      · exact (hnew id hid').2.2
    · intro hzero
      by_cases hmem : id ∈ listedTargets listed adjacency resolve options current
      · refine .inr ((hfound id).2 ⟨hmem, ?_⟩)
        rw [h.indegree_eq id hid, hedges id, hzero, Nat.add_zero]
      · rw [hzero, List.count_eq_zero.2 hmem]
        exact .inl rfl
  · apply List.pairwise_append.2 ⟨h.forward, List.pairwise_singleton _ _, _⟩
    intro earlier hearlier later hlater
    rw [List.mem_singleton.1 hlater]
    have hmem : earlier ∈ state.order ++ state.ready := List.mem_append_left _ hearlier
    exact not_listedEdge_of_edgesInto ((h.taken earlier (h.within earlier hmem)).1 hmem) hleft
  · intro id hid
    dsimp only at hid
    rw [hfound_eq, happ] at hid
    rcases List.mem_append.1 hid with hid | hid
    · exact h.loop id hid
    · obtain ⟨hlisted, hnot, hzero⟩ := hnew id hid
      apply not_listedEdge_of_edgesInto hzero
      rw [Finset.mem_erase, Finset.mem_sdiff, List.mem_toFinset]
      refine ⟨?_, hlisted, fun hold => hnot (List.mem_append_left _ hold)⟩
      rintro rfl
      apply hnot
      rw [hready]
      exact List.mem_append_right _ List.mem_cons_self

theorem length_le (h : state.Ordered listed adjacency resolve options) :
    state.order.length ≤ listed.card := by
  rw [← List.toFinset_card_of_nodup h.nodup.of_append_left]
  apply Finset.card_le_card
  intro id hid
  exact h.within id (List.mem_append_left _ (List.mem_toFinset.1 hid))

end Sorting.Ordered

theorem sort_ends {vertices : List ObjectId} {indegree : Indegree} {outgoing : Outgoing}
    (hcancel : cancelled options = false) (hnodup : vertices.Nodup)
    (h : Counted vertices.toFinset adjacency resolve options vertices.toFinset indegree outgoing)
    (hdegree : ∀ id ∈ vertices,
      edgesInto vertices.toFinset adjacency resolve options vertices.toFinset id < 2 ^ 32) :
    ∃ order indegree', Loop.run (sortTurn options outgoing) (vertices.toFinset.card + 1)
        { indegree := indegree, ready := vertices.filter fun id => indegree id = 0, order := [] } =
          some (.ok order) ∧
      Sorting.Ordered vertices.toFinset adjacency resolve options
        { indegree := indegree', ready := [], order := order } := by
  have hstart : Sorting.Ordered vertices.toFinset adjacency resolve options
      { indegree := indegree, ready := vertices.filter fun id => indegree id = 0, order := [] } := by
    have hall : vertices.toFinset \ ([] : List ObjectId).toFinset = vertices.toFinset := by
      rw [List.toFinset_nil, Finset.sdiff_empty]
    have hindegree (id : ObjectId) (hid : id ∈ vertices.toFinset) : (indegree id).toNat =
        edgesInto vertices.toFinset adjacency resolve options vertices.toFinset id := by
      rw [h.indegree_eq, UInt32.toNat_ofNat', Nat.mod_eq_of_lt (hdegree id (List.mem_toFinset.1 hid))]
    have hready (id : ObjectId) (hid : id ∈ vertices.toFinset) :
        id ∈ vertices.filter (fun id => indegree id = 0) ↔
          edgesInto vertices.toFinset adjacency resolve options vertices.toFinset id = 0 := by
      rw [List.mem_filter, decide_eq_true_iff, ← hindegree id hid, ← UInt32.toNat_inj]
      exact and_iff_right (List.mem_toFinset.1 hid)
    have hwithin (id : ObjectId) (hid : id ∈ vertices.filter fun id => indegree id = 0) :
        id ∈ vertices.toFinset := List.mem_toFinset.2 (List.mem_filter.1 hid).1
    refine ⟨hnodup.filter _, hwithin, ?_, ?_, List.Pairwise.nil, ?_⟩
    · intro id hid
      dsimp only
      rw [hall]
      exact hindegree id hid
    · intro id hid
      dsimp only
      rw [hall, List.nil_append]
      exact hready id hid
    · intro id hid
      exact not_listedEdge_of_edgesInto ((hready id (hwithin id hid)).1 hid) (hwithin id hid)
  have hturn : ∀ state next : Sorting, state.Ordered vertices.toFinset adjacency resolve options →
      sortTurn options outgoing state = .inr next →
      next.Ordered vertices.toFinset adjacency resolve options ∧
        vertices.toFinset.card - next.order.length < vertices.toFinset.card - state.order.length := by
    intro state next hstate heq
    unfold sortTurn at heq
    cases hready : state.ready with
    | nil =>
      rw [hready] at heq
      cases heq
    | cons current ready =>
      rw [hready] at heq
      dsimp only at heq
      rw [hcancel, if_neg Bool.false_ne_true] at heq
      have hcurrent : current ∈ vertices.toFinset := hstate.within current (by
        rw [hready]
        exact List.mem_append_right _ List.mem_cons_self)
      rw [h.outgoing_eq current hcurrent, Option.getD_some] at heq
      have hnext := hstate.take hready rfl
      rw [← Sum.inr.inj heq]
      refine ⟨hnext, ?_⟩
      have hle := hnext.length_le
      dsimp only at hle ⊢
      rw [List.length_append, List.length_singleton] at hle ⊢
      omega
  obtain ⟨result, last, hrun, hlast, heq⟩ := Loop.run_ends _
    (fun state : Sorting => vertices.toFinset.card - state.order.length) hturn hstart
    (Nat.lt_succ_self (vertices.toFinset.card - 0))
  unfold sortTurn at heq
  cases hready : last.ready with
  | nil =>
    rw [hready] at heq
    refine ⟨last.order, last.indegree, ?_, ?_⟩
    · rw [Sum.inl.inj heq]
      exact hrun
    · rw [← hready]
      exact hlast
  | cons current ready =>
    rw [hready] at heq
    dsimp only at heq
    rw [hcancel, if_neg Bool.false_ne_true] at heq
    cases heq

/-! ### Both algorithms -/

theorem Sorting.Ordered.not_acyclic {indegree : Indegree} {order : List ObjectId}
    (h : Sorting.Ordered listed adjacency resolve options
      { indegree := indegree, ready := [], order := order }) {id : ObjectId} (hid : id ∈ listed)
    (hleft : id ∉ order) :
    ¬∀ id, ¬Relation.TransGen (ListedEdge listed adjacency resolve options) id id := by
  intro hacyclic
  have hirrefl : Std.Irrefl (Relation.TransGen (ListedEdge listed adjacency resolve options)) := ⟨hacyclic⟩
  have hwell : WellFounded (Relation.TransGen (ListedEdge listed adjacency resolve options)) :=
    Finite.wellFounded_of_trans_of_irrefl _
  obtain ⟨least, ⟨hleast, hnot⟩, hmin⟩ := hwell.has_min {id | id ∈ listed ∧ id ∉ order} ⟨id, hid, hleft⟩
  have hsome : edgesInto listed adjacency resolve options (listed \ order.toFinset) least ≠ 0 := by
    intro hzero
    apply hnot
    have hmem := (h.taken least hleast).2 hzero
    rwa [List.append_nil] at hmem
  obtain ⟨place, hplace, hcount⟩ := Finset.exists_ne_zero_of_sum_ne_zero hsome
  rw [Finset.mem_sdiff, List.mem_toFinset] at hplace
  have hedge := (mem_listedTargets hplace.1).1 (List.count_pos_iff.1 (Nat.pos_of_ne_zero hcount))
  exact hmin place hplace (.single hedge)

theorem Sorting.Ordered.idxOf_lt {state : Sorting} (h : state.Ordered listed adjacency resolve options)
    {place id : ObjectId} (hplace : place ∈ state.order) (hid : id ∈ state.order)
    (hedge : ListedEdge listed adjacency resolve options place id) :
    state.order.idxOf place < state.order.idxOf id := by
  rcases Nat.lt_trichotomy (state.order.idxOf place) (state.order.idxOf id) with hlt | heq | hlt
  · exact hlt
  · have hsame : place = id := (List.idxOf_inj hplace).1 heq
    subst hsame
    exact absurd hedge (h.loop place (List.mem_append_left _ hplace))
  · have hnot := List.pairwise_iff_getElem.1 h.forward _ _ (List.idxOf_lt_length_iff.2 hid)
      (List.idxOf_lt_length_iff.2 hplace) hlt
    rw [List.getElem_idxOf, List.getElem_idxOf] at hnot
    exact absurd hedge hnot

theorem Sorting.Ordered.acyclic {state : Sorting} (h : state.Ordered listed adjacency resolve options)
    (hall : ∀ id ∈ listed, id ∈ state.order) (id : ObjectId) :
    ¬Relation.TransGen (ListedEdge listed adjacency resolve options) id id := by
  have hlt {place id : ObjectId}
      (hpath : Relation.TransGen (ListedEdge listed adjacency resolve options) place id) :
      state.order.idxOf place < state.order.idxOf id := by
    induction hpath with
    | single hedge => exact h.idxOf_lt (hall _ hedge.1) (hall _ hedge.2.1) hedge
    | tail _ hedge ih => exact Nat.lt_trans ih (h.idxOf_lt (hall _ hedge.1) (hall _ hedge.2.1) hedge)
  exact fun hcycle => Nat.lt_irrefl _ (hlt hcycle)

/-- Where the counts of the edges into a vertex fit 32 bits, `topological_sort` succeeds exactly when
`has_cycle` says that there is no cycle, and then its result is a permutation of the vertices in which every
edge goes forward. Otherwise it returns `graph_cycle`, unless it is cancelled or a callback fails. -/
theorem topologicalSort_hasCycle (vertices : List ObjectId) (adjacency : AdjacencyFn)
    (resolve : Option ResolveFn) (options : TraversalOptions) (hnodup : vertices.Nodup)
    (hskip : options.dangling = .skip)
    (hdegree : ∀ id ∈ vertices,
      edgesInto vertices.toFinset adjacency resolve options vertices.toFinset id < 2 ^ 32) :
    ∃ enough sorted cyclic, (∀ fuel ≥ enough,
        topologicalSort fuel vertices (some adjacency) options resolve = some sorted ∧
        hasCycle fuel vertices (some adjacency) options resolve = some cyclic) ∧
      match sorted with
      | .ok order => cyclic = .ok false ∧ order.Perm vertices ∧ ∀ place id,
          ListedEdge vertices.toFinset adjacency resolve options place id → order.idxOf place < order.idxOf id
      | .error error => cyclic ≠ .ok false ∧
          ((error = graphCycle ∧ cyclic = .ok true) ∨ cancelled options = true ∨
            ∃ place ∈ vertices, Raised adjacency resolve place error) := by
  by_cases hcancelled : cancelled options = true
  · cases vertices with
    | nil =>
      refine ⟨1, .ok [], .ok false, fun fuel hfuel => ⟨?_, rfl⟩, rfl, .nil, fun place id hedge => ?_⟩
      · obtain ⟨fuel, rfl⟩ := Nat.exists_eq_add_of_le' hfuel
        rfl
      · cases hedge.1
    | cons place rest =>
      refine ⟨0, .error ⟨.invalidArgument, "topological_sort cancelled"⟩,
        .error ⟨.invalidArgument, "has_cycle cancelled"⟩, fun fuel _ => ⟨?_, ?_⟩, ?_, .inr (.inl hcancelled)⟩
      · rw [topologicalSort, countEdges, hcancelled, if_pos rfl]
      · rw [hasCycle, hasCycleFrom, if_neg (not_not.2 rfl), hcancelled, if_pos rfl]
      · intro heq
        cases heq
  have hcancel : cancelled options = false := Bool.eq_false_iff.2 hcancelled
  obtain ⟨enough, cyclic, hcycle, hanswer⟩ := hasCycle_ends vertices adjacency resolve hcancel hskip
  have hcounted := countEdges_ends vertices adjacency resolve hcancel hskip hnodup
  cases hcount : countEdges vertices.toFinset adjacency options resolve vertices (fun _ => 0) fun _ => none with
  | error error =>
    rw [hcount] at hcounted
    obtain ⟨place, hplace, hraised, hnot⟩ := hcounted
    refine ⟨enough, .error error, cyclic, fun fuel hfuel => ⟨?_, hcycle fuel hfuel⟩, ?_, .inr (.inr ?_)⟩
    · rw [topologicalSort, hcount]
    · rintro rfl
      exact hnot (hanswer place hplace).2
    · exact ⟨place, List.mem_toFinset.1 hplace, hraised⟩
  | ok result =>
    rw [hcount] at hcounted
    obtain ⟨order, indegree, hrun, hordered⟩ := sort_ends hcancel hnodup hcounted hdegree
    have hsub : order ⊆ vertices := fun id hid =>
      List.mem_toFinset.1 (hordered.within id (List.mem_append_left _ hid))
    have hordernodup : order.Nodup := hordered.nodup.of_append_left
    have hsorted (fuel : Nat) (hfuel : vertices.toFinset.card + 1 ≤ fuel) :
        topologicalSort fuel vertices (some adjacency) options resolve =
          if order.length ≠ vertices.length then some (.error graphCycle) else some (.ok order) := by
      rw [topologicalSort, hcount]
      dsimp only
      rw [Loop.run_mono hrun hfuel]
    have hanswered : ∀ error, ¬Fails vertices.toFinset adjacency resolve options error := by
      rintro error ⟨place, hplace, _, hnot⟩
      exact hnot (hcounted.answered place hplace)
    by_cases hlength : order.length = vertices.length
    · have hperm : order.Perm vertices :=
        (List.subperm_of_subset hordernodup hsub).perm_of_length_le (Nat.le_of_eq hlength.symm)
      have hmem (id : ObjectId) (hid : id ∈ vertices.toFinset) : id ∈ order :=
        hperm.mem_iff.2 (List.mem_toFinset.1 hid)
      refine ⟨max enough (vertices.toFinset.card + 1), .ok order, cyclic, fun fuel hfuel => ⟨?_, ?_⟩, ?_, hperm,
        ?_⟩
      · rw [hsorted fuel (Nat.le_trans (Nat.le_max_right _ _) hfuel), if_neg (not_not.2 hlength)]
      · exact hcycle fuel (Nat.le_trans (Nat.le_max_left _ _) hfuel)
      · rcases cyclic with error | (_ | _)
        · exact absurd hanswer (hanswered error)
        · rfl
        · obtain ⟨id, hid⟩ := hanswer
          exact absurd hid (hordered.acyclic hmem id)
      · intro place id hedge
        exact hordered.idxOf_lt (hmem _ hedge.1) (hmem _ hedge.2.1) hedge
    · -- Some vertex is left.
      have hleft : ∃ id ∈ vertices.toFinset, id ∉ order := by
        by_contra hnone
        push Not at hnone
        apply hlength
        apply Nat.le_antisymm (List.subperm_of_subset hordernodup hsub).length_le
        exact (List.subperm_of_subset hnodup fun id hid => hnone id (List.mem_toFinset.2 hid)).length_le
      obtain ⟨id, hid, hnot⟩ := hleft
      have hcyclic : cyclic = .ok true := by
        rcases cyclic with error | (_ | _)
        · exact absurd hanswer (hanswered error)
        · refine absurd (fun id hcycle => ?_) (hordered.not_acyclic hid hnot)
          obtain ⟨_, hstep, _⟩ := Relation.TransGen.head'_iff.1 hcycle
          exact not_transGen_of_acc (hanswer id hstep.1).1 hcycle
        · rfl
      refine ⟨max enough (vertices.toFinset.card + 1), .error graphCycle, cyclic, fun fuel hfuel => ⟨?_, ?_⟩, ?_,
        .inl ⟨rfl, hcyclic⟩⟩
      · rw [hsorted fuel (Nat.le_trans (Nat.le_max_right _ _) hfuel), if_pos hlength]
      · exact hcycle fuel (Nat.le_trans (Nat.le_max_left _ _) hfuel)
      · rw [hcyclic]
        intro heq
        cases heq

theorem topologicalSort_hasCycle_detour : ∃ enough sorted cyclic, ∀ fuel ≥ enough,
    topologicalSort fuel [3, 2, 1, 0] (some detour) { dangling := .skip } none = some sorted ∧
      hasCycle fuel [3, 2, 1, 0] (some detour) { dangling := .skip } none = some cyclic := by
  have hdegree : ∀ id ∈ ([3, 2, 1, 0] : List ObjectId), edgesInto ([3, 2, 1, 0] : List ObjectId).toFinset detour
      none { dangling := .skip } ([3, 2, 1, 0] : List ObjectId).toFinset id < 2 ^ 32 := by
    intro id _
    have hcount (place : ObjectId) : (listedTargets ([3, 2, 1, 0] : List ObjectId).toFinset detour none
        { dangling := .skip } place).count id ≤ 2 := by
      apply List.count_le_length.trans
      rw [listedTargets]
      have hlength : ∀ neighbors, detour place = .ok neighbors → neighbors.length ≤ 2 := by
        intro neighbors hread
        unfold detour at hread
        split at hread
        all_goals
          cases hread
          decide
      cases hread : detour place with
      | error error => exact Nat.zero_le 2
      | ok neighbors =>
        exact (List.length_filter_le _ _).trans ((List.length_filter_le _ _).trans (hlength neighbors hread))
    calc edgesInto _ detour none { dangling := .skip } _ id
        ≤ ∑ place ∈ ([3, 2, 1, 0] : List ObjectId).toFinset, 2 := Finset.sum_le_sum fun place _ => hcount place
      _ = ([3, 2, 1, 0] : List ObjectId).toFinset.card * 2 := Finset.sum_const_nat fun _ _ => rfl
      _ ≤ 4 * 2 := Nat.mul_le_mul_right 2 (List.toFinset_card_le _)
      _ < 2 ^ 32 := by decide
  obtain ⟨enough, sorted, cyclic, hrun, _⟩ := topologicalSort_hasCycle [3, 2, 1, 0] detour none
    { dangling := .skip } (by decide) rfl hdegree
  exact ⟨enough, sorted, cyclic, hrun⟩

/-! ### More edges than can be counted -/

/-- `n` edges from 0 to 1. -/
def crowd (n : Nat) : AdjacencyFn := fun id => .ok (if id = 0 then List.replicate n 1 else [])

theorem listedTargets_crowd (n : Nat) (id : ObjectId) :
    listedTargets {0, 1} (crowd n) none options id = if id = 0 then List.replicate n 1 else [] := by
  have haccepts : accepts none options.dangling = fun _ => true := rfl
  have hadjacency : crowd n id = .ok (if id = 0 then List.replicate n 1 else []) := rfl
  rw [listedTargets_eq hadjacency, targets, haccepts, List.filter_true]
  split
  · rw [List.filter_replicate, if_pos (by decide)]
  · rfl

theorem release_replicate {id : ObjectId} {n : Nat} {indegree : Indegree} {ready : List ObjectId}
    (h : indegree id = 0) :
    release (List.replicate n id) indegree ready = (indegree, ready ++ List.replicate n id) := by
  induction n generalizing ready with
  | zero =>
    rw [List.replicate_zero, release, List.append_nil]
  | succ n ih =>
    have hsame : Function.update indegree id 0 = indegree := by
      rw [← h, Function.update_eq_self]
    rw [List.replicate_succ, release, h, if_neg (by decide), if_pos rfl, hsame, ih, List.append_assoc,
      List.singleton_append]

theorem run_sortTurn_replicate {outgoing : Outgoing} {id : ObjectId} (h : outgoing id = some [])
    (hcancel : cancelled options = false) (n : Nat) (indegree : Indegree) (order : List ObjectId) :
    Loop.run (sortTurn options outgoing) (n + 1)
      { indegree := indegree, ready := List.replicate n id, order := order } =
        some (.ok (order ++ List.replicate n id)) := by
  induction n generalizing order with
  | zero =>
    rw [List.replicate_zero, List.append_nil]
    rfl
  | succ n ih =>
    have hturn : sortTurn options outgoing
        { indegree := indegree, ready := List.replicate (n + 1) id, order := order } =
          .inr { indegree := indegree, ready := List.replicate n id, order := order ++ [id] } := by
      rw [sortTurn, List.replicate_succ]
      dsimp only
      rw [hcancel, if_neg Bool.false_ne_true, h, Option.getD_some, release]
    rw [Loop.run_of_inr hturn, ih, List.append_assoc, List.singleton_append, ← List.replicate_succ]

theorem listedEdge_crowd {n : Nat} {place id : ObjectId}
    (h : ListedEdge {0, 1} (crowd n) none options place id) : place = 0 ∧ id = 1 := by
  have hmem := (mem_listedTargets h.1).2 h
  rw [listedTargets_crowd] at hmem
  split at hmem
  · rename_i hplace
    exact ⟨hplace, List.eq_of_mem_replicate hmem⟩
  · cases hmem

theorem not_fails_crowd (n : Nat) (error : Error) : ¬Fails {0, 1} (crowd n) none options error := by
  rintro ⟨place, _, hraised, _⟩
  cases hraised with
  | adjacency h => cases h
  | resolve _ _ hresolve => cases hresolve

theorem hasCycle_crowd (n : Nat) : ∃ enough, ∀ fuel ≥ enough,
    hasCycle fuel [0, 1] (some (crowd n)) { dangling := .skip } none = some (.ok false) := by
  obtain ⟨enough, cyclic, hcycle, hanswer⟩ := @hasCycle_ends { dangling := .skip } [0, 1] (crowd n) none rfl rfl
  have hlisted : ([0, 1] : List ObjectId).toFinset = {0, 1} := rfl
  rw [hlisted] at hanswer
  rcases cyclic with error | (_ | _)
  · exact absurd hanswer (not_fails_crowd n error)
  · exact ⟨enough, hcycle⟩
  · obtain ⟨id, hid⟩ := hanswer
    obtain ⟨_, hfirst, _⟩ := Relation.TransGen.head'_iff.1 hid
    obtain ⟨_, _, hlast⟩ := Relation.TransGen.tail'_iff.1 hid
    have hone := (listedEdge_crowd hlast).2
    rw [(listedEdge_crowd hfirst).1] at hone
    exact absurd hone (by decide)

theorem topologicalSort_crowd {n : Nat} (hpos : 0 < n) (hn : UInt32.ofNat n = 0) :
    topologicalSort (n + 3) [0, 1] (some (crowd n)) { dangling := .skip } none = some (.error graphCycle) := by
  have hcounted := @countEdges_ends { dangling := .skip } [0, 1] (crowd n) none rfl rfl (by decide)
  have hlisted : ([0, 1] : List ObjectId).toFinset = {0, 1} := rfl
  rw [hlisted] at hcounted
  rw [topologicalSort, hlisted]
  cases hcount : countEdges {0, 1} (crowd n) { dangling := .skip } none [0, 1] (fun _ => 0) fun _ => none with
  | error error =>
    rw [hcount] at hcounted
    exact absurd hcounted (not_fails_crowd n error)
  | ok result =>
    rw [hcount] at hcounted
    obtain ⟨indegree, outgoing⟩ := result
    dsimp only at hcounted ⊢
    have hindegree (id : ObjectId) (hid : id = 0 ∨ id = 1) : indegree id = 0 := by
      rw [hcounted.indegree_eq, edgesInto, Finset.sum_pair (by decide), listedTargets_crowd,
        listedTargets_crowd, if_pos rfl, if_neg (by decide), List.count_nil, Nat.add_zero, List.count_replicate]
      rcases hid with rfl | rfl
      · rw [if_neg (by decide)]
        rfl
      · rw [if_pos (by decide), hn]
    have hzero := hindegree 0 (.inl rfl)
    have hone := hindegree 1 (.inr rfl)
    have hfirst := hcounted.outgoing_eq 0 (by decide)
    have hsecond := hcounted.outgoing_eq 1 (by decide)
    rw [listedTargets_crowd] at hfirst hsecond
    rw [if_pos rfl] at hfirst
    rw [if_neg (by decide)] at hsecond
    have hready : ([0, 1] : List ObjectId).filter (fun id => indegree id = 0) = [0, 1] := by
      rw [List.filter_cons_of_pos (by simpa using hzero), List.filter_cons_of_pos (by simpa using hone),
        List.filter_nil]
    have hturn : sortTurn { dangling := .skip } outgoing
        { indegree := indegree, ready := [0, 1], order := [] } =
          .inr { indegree := indegree, ready := List.replicate (n + 1) 1, order := [0] } := by
      rw [sortTurn]
      dsimp only
      rw [hfirst, Option.getD_some, release_replicate hone, List.singleton_append, ← List.replicate_succ]
      rfl
    rw [hready, Loop.run_of_inr hturn, run_sortTurn_replicate hsecond rfl]
    dsimp only
    rw [if_pos]
    rw [List.length_append, List.length_replicate]
    simp only [List.length_cons, List.length_nil]
    omega

/-- Where `topological_sort` and `has_cycle` do not agree, or neither decides: the count of the edges into
a vertex has gone round, and an error of the resolve function that does not say that its target is
missing. -/
theorem topologicalSort_disagrees :
    (∃ fuel, topologicalSort fuel [0, 1] (some (crowd (2 ^ 32))) { dangling := .skip } none =
          some (.error graphCycle) ∧
        ∃ fuel', hasCycle fuel' [0, 1] (some (crowd (2 ^ 32))) { dangling := .skip } none =
          some (.ok false)) ∧
    topologicalSort 20 [0, 1] (some detour) { dangling := .skip } (some unreadable) =
        some (.error ⟨.ioError, ""⟩) ∧
      hasCycle 20 [0, 1] (some detour) { dangling := .skip } (some unreadable) =
        some (.error ⟨.ioError, ""⟩) := by
  obtain ⟨enough, hcycle⟩ := hasCycle_crowd (2 ^ 32)
  exact ⟨⟨_, topologicalSort_crowd (by decide) (by decide), enough, hcycle enough (Nat.le_refl _)⟩, by decide,
    by decide⟩

end MoDb.Graph
