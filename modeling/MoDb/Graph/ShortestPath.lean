import MoDb.Graph.BreadthFirst

/-!
# Shortest paths

`shortest_path` is a breadth-first search that stops where it discovers the goal, and then climbs from the
goal along the parents. The inner loop of the source leaves both loops when it has found the goal; here the
search ends with the parents, and `climb` is run after it.
-/

namespace MoDb.Graph

open Search

/-- Where each vertex was discovered from. -/
abbrev Parents := ObjectId → Option ObjectId

def Parents.emplace (parent : Parents) (id value : ObjectId) : Parents :=
  if (parent id).isSome then parent else Function.update parent id (some value)

structure PathSearch where
  parent : Parents
  seen : Finset ObjectId
  queue : List GraphVisit
  expanded : UInt64

/-- An error, or the parents when the goal has been found, or nothing when it has not. -/
abbrev Found := Except Error (Option Parents)

def pathNeighbors (goal : ObjectId) (options : TraversalOptions) (resolve : Option ResolveFn)
    (current : GraphVisit) : List ObjectId → PathSearch → Found ⊕ PathSearch
  | [], state => .inr state
  | neighbor :: rest, state =>
    if cancelled options then .inl (.error ⟨.invalidArgument, "shortest_path cancelled"⟩)
    else
      match acceptNeighbor neighbor resolve options.dangling with
      | .error error => .inl (.error error)
      | .ok accept =>
        if !accept then pathNeighbors goal options resolve current rest state
        else if neighbor ∈ state.seen then pathNeighbors goal options resolve current rest state
        else
          let parent := state.parent.emplace neighbor current.id
          if neighbor = goal then .inl (.ok (some parent))
          else
            pathNeighbors goal options resolve current rest
              { state with
                parent := parent
                seen := insert neighbor state.seen
                queue := state.queue ++ [⟨neighbor, current.depth + 1⟩] }

def pathTurn (goal : ObjectId) (adjacency : AdjacencyFn) (options : TraversalOptions)
    (resolve : Option ResolveFn) (state : PathSearch) : Found ⊕ PathSearch :=
  match state.queue with
  | [] => .inl (.ok none)
  | current :: queue =>
    if cancelled options then .inl (.error ⟨.invalidArgument, "shortest_path cancelled"⟩)
    else if vertexLimitReached state.expanded options then
      .inl (.error ⟨.graphLimitExceeded, "shortest_path exceeded max_vertices"⟩)
    else
      let state := { state with queue := queue, expanded := state.expanded + 1 }
      if depthExceeded (current.depth + 1) options then .inr state
      else
        match adjacency current.id with
        | .error error => .inl (.error error)
        | .ok neighbors => pathNeighbors goal options resolve current neighbors state

def climbTurn (start : ObjectId) (parent : Parents) (state : ObjectId × List ObjectId) :
    Except Error (List ObjectId) ⊕ (ObjectId × List ObjectId) :=
  if state.1 = start then .inl (.ok state.2)
  else
    match parent state.1 with
    | none => .inl (.error ⟨.invalidArgument, "shortest_path parent chain broken"⟩)
    | some cursor => .inr (cursor, state.2 ++ [cursor])

def climb (fuel : Nat) (start goal : ObjectId) (parent : Parents) : Option (Except Error (List ObjectId)) :=
  (Loop.run (climbTurn start parent) fuel (goal, [goal])).map fun path => path.map List.reverse

def notFound : Error :=
  ⟨.recordNotFound, "no path between start and goal"⟩

def shortestPath (fuel : Nat) (start goal : ObjectId) (adjacency : Option AdjacencyFn)
    (options : TraversalOptions) (resolve : Option ResolveFn) : Option (Except Error (List ObjectId)) :=
  match adjacency with
  | none => some (.error ⟨.invalidArgument, "adjacency function is empty"⟩)
  | some adjacency =>
    if start = goal then some (.ok [start])
    else
      match Loop.run (pathTurn goal adjacency options resolve) fuel
        { parent := fun _ => none, seen := {start}, queue := [⟨start, 0⟩], expanded := 0 } with
      | none => none
      | some (.error error) => some (.error error)
      | some (.ok none) => some (.error notFound)
      | some (.ok (some parent)) => climb fuel start goal parent

variable {adjacency : AdjacencyFn} {resolve : Option ResolveFn} {options : TraversalOptions}
  {start goal : ObjectId} {parent : Parents} {done queue : List (ObjectId × Nat)}
  {neighbors : List ObjectId}

/-! ### The parents -/

theorem Parents.emplace_self {id value : ObjectId} (h : parent id = none) :
    parent.emplace id value id = some value := by
  rw [emplace, h, if_neg (by decide), Function.update_self]

theorem Parents.emplace_of_ne {id other value : ObjectId} (h : other ≠ id) :
    parent.emplace id value other = parent other := by
  rw [emplace]
  split
  · rfl
  · exact Function.update_of_ne h _ _

def Parents.Lead (parent : Parents) (adjacency : AdjacencyFn) (resolve : Option ResolveFn)
    (options : TraversalOptions) (start : ObjectId) (entries : List (ObjectId × Nat)) : Prop :=
  ∀ entry ∈ entries, entry.1 ≠ start → ∃ place depth, parent entry.1 = some place ∧
    (place, depth) ∈ entries ∧ entry.2 = depth + 1 ∧
    Edge adjacency resolve options.dangling place entry.1

theorem Parents.Lead.climb {entries : List (ObjectId × Nat)} {r : ObjectId → ObjectId → Prop}
    (h : parent.Lead adjacency resolve options start entries)
    (hsteps : ∀ entry ∈ entries, Steps r entry.2 start entry.1)
    (hroot : ∀ depth, (start, depth) ∈ entries → depth = 0) {depth : Nat} {id : ObjectId}
    (hid : (id, depth) ∈ entries) :
    ∃ path, IsPath (Edge adjacency resolve options.dangling) start id path ∧ path.length = depth + 1 ∧
      ∀ taken, Loop.run (climbTurn start parent) (depth + 1) (id, taken ++ [id]) =
        some (.ok (taken ++ path.reverse)) := by
  induction depth generalizing id with
  | zero =>
    have hstart : start = id := (hsteps _ hid).eq_of_zero
    subst hstart
    refine ⟨[start], ⟨rfl, rfl, List.isChain_singleton start⟩, rfl, fun taken => ?_⟩
    have hturn : climbTurn start parent (start, taken ++ [start]) = .inl (.ok (taken ++ [start])) :=
      if_pos rfl
    exact Loop.run_of_inl hturn 0
  | succ depth ih =>
    have hne : id ≠ start := by
      rintro rfl
      exact absurd (hroot _ hid) (Nat.succ_ne_zero depth)
    obtain ⟨place, depth', hparent, hplace, hdepth, hedge⟩ := h _ hid hne
    have hdepth' : depth = depth' := Nat.succ.inj hdepth
    subst hdepth'
    obtain ⟨path, hpath, hlength, hrun⟩ := ih hplace
    refine ⟨path ++ [id], hpath.concat hedge, ?_, fun taken => ?_⟩
    · rw [List.length_append, hlength, List.length_singleton]
    · have hturn : climbTurn start parent (id, taken ++ [id]) = .inr (place, taken ++ [id] ++ [place]) := by
        rw [climbTurn, if_neg hne, hparent]
      rw [Loop.run_of_inr hturn, hrun, List.reverse_append, List.append_assoc]
      rfl

/-! ### The search -/

/-- The search after an expansion that has discovered `found`, without the goal. -/
structure PathSearch.Expanded (state : PathSearch) (goal : ObjectId) (current : GraphVisit)
    (found : List ObjectId) (next : PathSearch) : Prop where
  goal : goal ∉ found
  seen_eq : next.seen = state.seen ∪ found.toFinset
  queue_eq : next.queue = state.queue ++ found.map fun neighbor => ⟨neighbor, current.depth + 1⟩
  parent_old : ∀ id ∈ state.seen, next.parent id = state.parent id
  parent_new : ∀ id ∈ found, next.parent id = some current.id
  parent_none : ∀ id, id ∉ next.seen → next.parent id = none

def PathSearch.Outcome (state : PathSearch) (goal : ObjectId) (current : GraphVisit) (refused : Option Error)
    (found : List ObjectId) : Found ⊕ PathSearch → Prop
  | .inl (.error error) => refused = some error
  | .inl (.ok none) => False
  | .inl (.ok (some parent)) => goal ∈ found ∧ parent goal = some current.id ∧
      ∀ id ∈ state.seen, parent id = state.parent id
  | .inr next => refused = none ∧ state.Expanded goal current found next

theorem pathNeighbors_outcome {current : GraphVisit} (hcancel : cancelled options = false)
    (state : PathSearch) (hparent : ∀ id, id ∉ state.seen → state.parent id = none) :
    state.Outcome goal current (refusal resolve options.dangling neighbors)
      (discover state.seen (targets resolve options.dangling neighbors))
      (pathNeighbors goal options resolve current neighbors state) := by
  induction neighbors generalizing state with
  | nil =>
    refine ⟨rfl, List.not_mem_nil, ?_, ?_, fun _ _ => rfl, fun id hid => ?_, hparent⟩
    · exact (Finset.union_empty _).symm
    · exact (List.append_nil _).symm
    · cases hid
  | cons neighbor rest ih =>
    rw [pathNeighbors, hcancel, if_neg Bool.false_ne_true]
    cases haccept : acceptNeighbor neighbor resolve options.dangling with
    | error raised => exact refusal_cons_of_error haccept
    | ok accept =>
      rw [refusal_cons_of_ok haccept, targets_cons_of_ok haccept]
      cases accept with
      | false => exact ih state hparent
      | true =>
        rw [if_pos rfl]
        dsimp only
        rw [if_neg (by decide)]
        by_cases hseen : neighbor ∈ state.seen
        · rw [if_pos hseen, discover_cons_of_mem hseen]
          exact ih state hparent
        · rw [if_neg hseen, discover_cons_of_notMem hseen]
          have hself : state.parent.emplace neighbor current.id neighbor = some current.id :=
            Parents.emplace_self (hparent neighbor hseen)
          have hold (id : ObjectId) (hid : id ∈ state.seen) :
              state.parent.emplace neighbor current.id id = state.parent id :=
            Parents.emplace_of_ne fun heq => hseen (heq ▸ hid)
          by_cases hgoal : neighbor = goal
          · rw [if_pos hgoal]
            subst hgoal
            exact ⟨List.mem_cons_self, hself, hold⟩
          · rw [if_neg hgoal]
            have hparent' : ∀ id, id ∉ insert neighbor state.seen →
                state.parent.emplace neighbor current.id id = none := by
              intro id hid
              rw [Finset.mem_insert, not_or] at hid
              rw [Parents.emplace_of_ne hid.1, hparent id hid.2]
            have hnew : neighbor ∈ insert neighbor state.seen := Finset.mem_insert_self _ _
            have hrest := ih
              { state with
                parent := state.parent.emplace neighbor current.id
                seen := insert neighbor state.seen
                queue := state.queue ++ [⟨neighbor, current.depth + 1⟩] } hparent'
            revert hrest
            rcases pathNeighbors goal options resolve current rest _ with (error | parent | parent) | next
            · exact id
            · exact id
            · rintro ⟨hmem, hgoal', hsame⟩
              refine ⟨List.mem_cons_of_mem _ hmem, hgoal', fun id hid => ?_⟩
              rw [hsame id (Finset.mem_insert_of_mem hid)]
              exact hold id hid
            · rintro ⟨hnone, hnext⟩
              refine ⟨hnone, ?_, ?_, ?_, ?_, ?_, hnext.parent_none⟩
              · exact List.not_mem_cons_of_ne_of_not_mem (Ne.symm hgoal) hnext.goal
              · rw [hnext.seen_eq, List.toFinset_cons, Finset.insert_union, Finset.union_insert]
              · rw [hnext.queue_eq, List.map_cons, List.append_assoc, List.singleton_append]
              · intro id hid
                rw [hnext.parent_old id (Finset.mem_insert_of_mem hid)]
                exact hold id hid
              · intro id hid
                rcases List.mem_cons.1 hid with rfl | hid
                · rw [hnext.parent_old _ hnew]
                  exact hself
                · exact hnext.parent_new id hid

/-- The state of the search in terms of the vertices expanded and those that wait. -/
structure PathSearch.Represents (adjacency : AdjacencyFn) (resolve : Option ResolveFn)
    (options : TraversalOptions) (start goal : ObjectId) (state : PathSearch)
    (done queue : List (ObjectId × Nat)) : Prop where
  layers : Layers (Edge adjacency resolve options.dangling) (limit options) start done queue
  queue_eq : state.queue = queue.map visit
  mem_seen : ∀ id, id ∈ state.seen ↔ id ∈ (done ++ queue).map Prod.fst
  goal : goal ∉ state.seen
  lead : state.parent.Lead adjacency resolve options start (done ++ queue)
  parent_none : ∀ id, id ∉ state.seen → state.parent id = none

def PathEnd (adjacency : AdjacencyFn) (resolve : Option ResolveFn) (options : TraversalOptions)
    (start goal : ObjectId) : Found → Prop
  | .error error => ∃ id length, Steps (Edge adjacency resolve options.dangling) length start id ∧
      Within (limit options) (length + 1) ∧ Raised adjacency resolve id error
  | .ok none => ∀ length, Steps (Edge adjacency resolve options.dangling) length start goal →
      ¬Within (limit options) length
  | .ok (some parent) => ∃ path, IsPath (Edge adjacency resolve options.dangling) start goal path ∧
      Within (limit options) (path.length - 1) ∧
      (∀ length, Steps (Edge adjacency resolve options.dangling) length start goal →
        path.length ≤ length + 1) ∧
      climb path.length start goal parent = some (.ok path)

theorem pathRepresents_start (h : start ≠ goal) :
    PathSearch.Represents adjacency resolve options start goal
      { parent := fun _ => none, seen := {start}, queue := [⟨start, 0⟩], expanded := 0 } [] [(start, 0)] := by
  refine ⟨layers_start, rfl, fun id => ?_, ?_, ?_, fun _ _ => rfl⟩
  · rw [Finset.mem_singleton]
    exact List.mem_singleton.symm
  · rw [Finset.mem_singleton]
    exact Ne.symm h
  · intro entry hentry hne
    rw [List.mem_singleton.1 hentry] at hne
    exact absurd rfl hne

namespace PathSearch.Represents

variable {state : PathSearch} {entry : ObjectId × Nat}

theorem not_mem_goal (h : state.Represents adjacency resolve options start goal done queue) {depth : Nat} :
    (goal, depth) ∉ done ++ queue :=
  fun hmem => h.goal ((h.mem_seen goal).2 (List.mem_map.2 ⟨_, hmem, rfl⟩))

theorem depth_root (h : state.Represents adjacency resolve options start goal done queue) {depth : Nat}
    (hmem : (start, depth) ∈ done ++ queue) : depth = 0 := by
  have heq := List.inj_on_of_nodup_map h.layers.nodup hmem h.layers.root rfl
  exact congrArg Prod.snd heq

theorem found (h : state.Represents adjacency resolve options start goal done (entry :: queue))
    (hwithin : Within (limit options) (entry.2 + 1))
    (hedge : Edge adjacency resolve options.dangling entry.1 goal) (hgoal : parent goal = some entry.1)
    (hparent : ∀ id ∈ state.seen, parent id = state.parent id) :
    PathEnd adjacency resolve options start goal (.ok (some parent)) := by
  have hentry : entry ∈ done ++ entry :: queue := List.mem_append_right _ List.mem_cons_self
  have hlead : parent.Lead adjacency resolve options start (done ++ entry :: queue) := by
    intro other hother hne
    rw [hparent _ ((h.mem_seen _).2 (List.mem_map.2 ⟨other, hother, rfl⟩))]
    exact h.lead other hother hne
  obtain ⟨path, hpath, hlength, hrun⟩ :=
    hlead.climb (fun other hother => (h.layers.steps other hother).1) (fun _ => h.depth_root) hentry
  have hne : goal ≠ start := by
    rintro rfl
    exact h.not_mem_goal h.layers.root
  refine ⟨path ++ [goal], hpath.concat hedge, ?_, ?_, ?_⟩
  · rw [List.length_append, hlength]
    exact hwithin
  · intro length hsteps
    rw [List.length_append, hlength, List.length_singleton]
    by_contra hlt
    have hle : length ≤ entry.2 := by omega
    obtain ⟨depth, _, hmem⟩ :=
      h.layers.before hsteps (hwithin.of_le (Nat.le_succ_of_le hle)) hle
    exact h.not_mem_goal hmem
  · have hturn : climbTurn start parent (goal, [goal]) = .inr (entry.1, [goal] ++ [entry.1]) := by
      rw [climbTurn, if_neg hne, hgoal]
    rw [climb, List.length_append, hlength, List.length_singleton, Loop.run_of_inr hturn, hrun]
    simp [Except.map]

theorem turn (hcancel : options.hasCancel = false) (hvertices : options.maxVertices = 0)
    (hskip : options.dangling = .skip)
    (h : state.Represents adjacency resolve options start goal done queue) :
    match pathTurn goal adjacency options resolve state with
    | .inl found => PathEnd adjacency resolve options start goal found
    | .inr next => 2 * (2 ^ 64 - next.seen.card) + next.queue.length <
          2 * (2 ^ 64 - state.seen.card) + state.queue.length ∧
        ∃ done queue, next.Represents adjacency resolve options start goal done queue := by
  have hnot : cancelled options = false := by rw [cancelled, hcancel, Bool.false_and]
  have hfew : vertexLimitReached state.expanded options = false := by
    rw [vertexLimitReached, hvertices]
    rfl
  unfold pathTurn
  cases queue with
  | nil =>
    rw [h.queue_eq]
    intro length hsteps hwithin
    obtain ⟨depth, _, hmem⟩ := h.layers.complete hsteps hwithin
    exact h.not_mem_goal (List.mem_append_left _ hmem)
  | cons entry queue =>
    have hqueue := h.queue_eq
    rw [List.map_cons] at hqueue
    rw [hqueue]
    dsimp only
    rw [hnot, if_neg Bool.false_ne_true, hfew, if_neg Bool.false_ne_true]
    have hentry := h.layers.steps entry (List.mem_append_right _ List.mem_cons_self)
    have happ (rest : List (ObjectId × Nat)) : done ++ [entry] ++ (queue ++ rest) =
        done ++ entry :: queue ++ rest := by
      rw [List.append_assoc, List.append_assoc, List.singleton_append, List.cons_append]
    by_cases hdeep : depthExceeded ((visit entry).depth + 1) options = true
    · rw [if_pos hdeep]
      have happ' := happ []
      rw [List.append_nil, List.append_nil] at happ'
      refine ⟨?_, done ++ [entry], queue, ?_, rfl, ?_, h.goal, ?_, h.parent_none⟩
      · rw [List.length_cons]
        exact Nat.lt_succ_self _
      · exact h.layers.cut ((depthExceeded_eq hentry.2).1 hdeep)
      · rw [happ']
        exact h.mem_seen
      · rw [happ']
        exact h.lead
    · rw [if_neg hdeep]
      have hwithin : Within (limit options) (entry.2 + 1) :=
        not_not.1 fun hnot => hdeep ((depthExceeded_eq hentry.2).2 hnot)
      cases hadjacency : adjacency (visit entry).id with
      | error raised => exact ⟨entry.1, entry.2, hentry.1, hwithin, .adjacency hadjacency⟩
      | ok neighbors =>
        dsimp only
        have hspec := @pathNeighbors_outcome resolve options goal neighbors (visit entry) hnot
          { state with queue := queue.map visit, expanded := state.expanded + 1 } h.parent_none
        revert hspec
        rcases pathNeighbors goal options resolve (visit entry) neighbors _ with (error | parent | parent) | next
        · intro hrefused
          exact ⟨entry.1, entry.2, hentry.1, hwithin, raised_of_refusal hadjacency (hskip ▸ hrefused)⟩
        · exact False.elim
        · rintro ⟨hmem, hgoal, hsame⟩
          exact h.found hwithin ((mem_targets hadjacency).1 (mem_discover.1 hmem).1) hgoal hsame
        · rintro ⟨_, hnext⟩
          obtain ⟨found, hfound⟩ :
              ∃ found, found = discover state.seen (targets resolve options.dangling neighbors) := ⟨_, rfl⟩
          rw [← hfound] at hnext
          have htargets (id : ObjectId) : id ∈ targets resolve options.dangling neighbors ↔
              Edge adjacency resolve options.dangling entry.1 id := mem_targets hadjacency
          have hlayers := h.layers.expand hwithin h.mem_seen htargets
          rw [← hfound] at hlayers
          have hfst : Prod.fst ∘ (fun id : ObjectId => (id, entry.2 + 1)) = id := rfl
          have hseen (id : ObjectId) :
              id ∈ next.seen ↔ id ∈ (done ++ entry :: queue).map Prod.fst ∨ id ∈ found := by
            rw [hnext.seen_eq, Finset.mem_union, List.mem_toFinset, h.mem_seen]
          refine ⟨?_, _, _, hlayers, ?_, ?_, ?_, ?_, hnext.parent_none⟩
          · have hcard : next.seen.card = state.seen.card + found.length := by
              rw [hnext.seen_eq, hfound]
              exact card_union_discover
            have hle := card_le next.seen
            rw [hnext.queue_eq, List.length_append, List.length_map, List.length_map, List.length_cons,
              List.length_map]
            omega
          · rw [hnext.queue_eq, List.map_append, List.map_map]
            apply congrArg
            apply List.map_congr_left
            intro neighbor _
            rw [Function.comp_apply, visit, visit, UInt32.ofNat_add]
            rfl
          · intro id
            rw [happ, List.map_append, List.map_map, hfst, List.map_id, List.mem_append]
            exact hseen id
          · rw [hseen, not_or]
            exact ⟨fun hmem => h.goal ((h.mem_seen goal).2 hmem), hnext.goal⟩
          · rw [happ]
            intro other hother hne
            rcases List.mem_append.1 hother with hother | hother
            · obtain ⟨place, depth, hparent, hmem, hrest⟩ := h.lead other hother hne
              refine ⟨place, depth, ?_, List.mem_append_left _ hmem, hrest⟩
              rw [hnext.parent_old _ ((h.mem_seen _).2 (List.mem_map.2 ⟨other, hother, rfl⟩)), hparent]
            · obtain ⟨id, hid, rfl⟩ := List.mem_map.1 hother
              refine ⟨entry.1, entry.2, hnext.parent_new id hid, ?_, rfl, ?_⟩
              · exact List.mem_append_left _ (List.mem_append_right _ List.mem_cons_self)
              · rw [hfound] at hid
                exact (mem_targets hadjacency).1 (mem_discover.1 hid).1

end PathSearch.Represents

theorem climb_mono {path : List ObjectId} {fuel fuel' : Nat} (h : climb fuel start goal parent = some (.ok path))
    (hle : fuel ≤ fuel') : climb fuel' start goal parent = some (.ok path) := by
  rw [climb, Option.map_eq_some_iff] at h ⊢
  obtain ⟨taken, hrun, htaken⟩ := h
  exact ⟨taken, Loop.run_mono hrun hle, htaken⟩

theorem shortestPath_ends (adjacency : AdjacencyFn) (resolve : Option ResolveFn)
    (options : TraversalOptions) (start goal : ObjectId) (hcancel : options.hasCancel = false)
    (hvertices : options.maxVertices = 0) (hskip : options.dangling = .skip) :
    ∃ enough result, (∀ fuel ≥ enough,
        shortestPath fuel start goal (some adjacency) options resolve = some result) ∧
      match result with
      | .ok path => IsPath (Edge adjacency resolve options.dangling) start goal path ∧
          (∀ other, IsPath (Edge adjacency resolve options.dangling) start goal other →
            path.length ≤ other.length) ∧ Within (limit options) (path.length - 1)
      | .error error =>
          (error = notFound ∧ ∀ path, IsPath (Edge adjacency resolve options.dangling) start goal path →
            ¬Within (limit options) (path.length - 1)) ∨
          ∃ id length, Steps (Edge adjacency resolve options.dangling) length start id ∧
            Within (limit options) (length + 1) ∧ Raised adjacency resolve id error := by
  by_cases hsame : start = goal
  · subst hsame
    refine ⟨0, .ok [start], fun fuel _ => if_pos rfl, ⟨rfl, rfl, List.isChain_singleton start⟩, ?_, ?_⟩
    · intro other hother
      refine List.length_pos_iff.2 fun hnil => ?_
      rw [hnil] at hother
      cases hother.first
    · intro m _
      exact Nat.zero_le m
  -- The search itself, and how it ends.
  have hstep : ∀ state next : PathSearch,
      (∃ done queue, state.Represents adjacency resolve options start goal done queue) →
      pathTurn goal adjacency options resolve state = .inr next →
      (∃ done queue, next.Represents adjacency resolve options start goal done queue) ∧
        2 * (2 ^ 64 - next.seen.card) + next.queue.length <
          2 * (2 ^ 64 - state.seen.card) + state.queue.length := by
    rintro state next ⟨done, queue, h⟩ hturn
    have hspec := h.turn hcancel hvertices hskip
    rw [hturn] at hspec
    exact ⟨hspec.2, hspec.1⟩
  obtain ⟨found, last, hrun, ⟨done, queue, hlast⟩, hturn⟩ :=
    Loop.run_ends _ _ hstep ⟨_, _, pathRepresents_start hsame⟩ (Nat.lt_succ_self _)
  have hend := hlast.turn hcancel hvertices hskip
  rw [hturn] at hend
  obtain ⟨turns, hturns⟩ : ∃ turns, turns =
      2 * (2 ^ 64 - ({start} : Finset ObjectId).card) + [(⟨start, 0⟩ : GraphVisit)].length := ⟨_, rfl⟩
  rw [← hturns] at hrun
  have hsearch {fuel : Nat} (hfuel : turns + 1 ≤ fuel) := Loop.run_mono hrun hfuel
  rcases found with error | parent | parent
  · refine ⟨turns + 1, .error error, fun fuel hfuel => ?_, .inr ?_⟩
    · rw [shortestPath, if_neg hsame, hsearch hfuel]
    · obtain ⟨id, length, hsteps, hwithin, hraised⟩ := hend
      exact ⟨id, length, hsteps, hwithin, hraised⟩
  · refine ⟨turns + 1, .error notFound, fun fuel hfuel => ?_, .inl ⟨rfl, ?_⟩⟩
    · rw [shortestPath, if_neg hsame, hsearch hfuel]
    · intro path hpath
      exact hend _ hpath.steps
  · obtain ⟨path, hpath, hwithin, hleast, hclimb⟩ := hend
    refine ⟨max (turns + 1) path.length, .ok path, fun fuel hfuel => ?_, hpath, ?_, hwithin⟩
    · rw [shortestPath, if_neg hsame, hsearch (Nat.le_trans (Nat.le_max_left _ _) hfuel)]
      exact climb_mono hclimb (Nat.le_trans (Nat.le_max_right _ _) hfuel)
    · intro other hother
      have hpos : 0 < other.length := by
        refine List.length_pos_iff.2 fun hnil => ?_
        rw [hnil] at hother
        cases hother.first
      have hle := hleast _ hother.steps
      omega

/-- `shortest_path` ends. It returns a path that no other path is shorter than; or it says that there is no
path as long as allowed; or it returns the error of a callback, met where a reachable vertex is expanded. -/
theorem shortestPath_optimal (adjacency : AdjacencyFn) (resolve : Option ResolveFn)
    (options : TraversalOptions) (start goal : ObjectId) (hcancel : options.hasCancel = false)
    (hvertices : options.maxVertices = 0) (hskip : options.dangling = .skip) :
    ∃ enough result, (∀ fuel ≥ enough,
        shortestPath fuel start goal (some adjacency) options resolve = some result) ∧
      match result with
      | .ok path => IsPath (Edge adjacency resolve options.dangling) start goal path ∧
          (∀ other, IsPath (Edge adjacency resolve options.dangling) start goal other →
            path.length ≤ other.length) ∧
          (options.maxDepth.toNat ≠ 2 ^ 32 - 1 → Allowed options (path.length - 1))
      | .error error =>
          (error = notFound ∧ ∀ path, IsPath (Edge adjacency resolve options.dangling) start goal path →
            ¬Allowed options (path.length - 1)) ∨
          ∃ id length, Steps (Edge adjacency resolve options.dangling) length start id ∧
            (options.maxDepth.toNat ≠ 2 ^ 32 - 1 → Allowed options (length + 1)) ∧
            Raised adjacency resolve id error := by
  obtain ⟨enough, result, hrun, hresult⟩ :=
    shortestPath_ends adjacency resolve options start goal hcancel hvertices hskip
  refine ⟨enough, result, hrun, ?_⟩
  cases result with
  | ok path =>
    obtain ⟨hpath, hleast, hwithin⟩ := hresult
    exact ⟨hpath, hleast, fun hmax => allowed_of_within hmax hwithin⟩
  | error error =>
    rcases hresult with ⟨hnot, hnone⟩ | ⟨id, length, hsteps, hwithin, hraised⟩
    · exact .inl ⟨hnot, fun path hpath hallowed => hnone path hpath (within_of_allowed hallowed)⟩
    · exact .inr ⟨id, length, hsteps, fun hmax => allowed_of_within hmax hwithin, hraised⟩

theorem shortestPath_optimal_detour : ∃ enough result, (∀ fuel ≥ enough,
    shortestPath fuel 0 3 (some detour) { maxDepth := 2, dangling := .skip } none = some result) := by
  obtain ⟨enough, result, hrun, _⟩ :=
    shortestPath_optimal detour none { maxDepth := 2, dangling := .skip } 0 3 rfl rfl rfl
  exact ⟨enough, result, hrun⟩

/-- Where `shortest_path` does not return the path there is, or returns one that is too long: an error of
the resolve function that does not say that its target is missing, and a limit at the largest 32-bit
depth. -/
theorem shortestPath_strays :
    (IsPath (Edge detour (some unreadable) .skip) 0 2 [0, 2] ∧
      shortestPath 20 0 2 (some detour) { dangling := .skip } (some unreadable) =
        some (.error ⟨.ioError, ""⟩)) ∧
    (∀ path, IsPath (Edge line none .skip) 0 0x100000000 path → 0xFFFFFFFF < path.length - 1) ∧
      ∃ fuel path, shortestPath fuel 0 0x100000000 (some line)
        { maxDepth := 0xFFFFFFFF, dangling := .skip } none = some (.ok path) := by
  have hvalue : (0x100000000 : UInt64).toNat = 2 ^ 32 := by decide
  refine ⟨⟨⟨rfl, rfl, ?_⟩, by decide⟩, ?_, ?_⟩
  · exact List.isChain_pair.2 ⟨_, rfl, by decide, by decide⟩
  · intro path hpath
    have heq := congrArg UInt64.toNat (eq_of_steps_line hpath.steps)
    rw [UInt64.toNat_ofNat', hvalue] at heq
    by_contra hle
    rw [Nat.mod_eq_of_lt (by omega)] at heq
    omega
  · obtain ⟨enough, result, hrun, hresult⟩ :=
      shortestPath_ends line none { maxDepth := 0xFFFFFFFF, dangling := .skip } 0 0x100000000 rfl rfl rfl
    obtain ⟨path, hpath, _⟩ := (steps_line (2 ^ 32)).exists_path
    cases result with
    | ok found => exact ⟨enough, found, hrun enough (Nat.le_refl _)⟩
    | error error =>
      rcases hresult with ⟨_, hnone⟩ | ⟨_, _, _, _, hraised⟩
      · exact absurd (fun m hm => by cases hm) (hnone path hpath)
      · cases hraised with
        | adjacency h => cases h
        | resolve _ _ hresolve => cases hresolve

end MoDb.Graph
