import MoDb.Graph.BreadthFirst

/-!
# The places of a depth-first traversal

A place on the stack of `dfs` either waits to be yielded or has been, and then its frame holds the
neighbours not looked at yet. Each edge from a yielded place that is not too deep leads to a place that has
been seen, or to such a neighbour. A place keeps the depth it was first seen at, which need not be its
distance from the start.
-/

namespace MoDb.Graph

open Search

variable {adjacency : AdjacencyFn} {resolve : Option ResolveFn} {options : TraversalOptions}
  {start : ObjectId} {error : Error} {frame : Frame} {below stack : List Frame} {seen : Finset ObjectId}
  {done : List (ObjectId × Nat)} {neighbors : List ObjectId}

def waiting (stack : List Frame) : List ObjectId :=
  (stack.filter fun frame => !frame.yielded).map Frame.id

theorem waiting_append {above : List Frame} : waiting (above ++ stack) = waiting above ++ waiting stack := by
  rw [waiting, List.filter_append, List.map_append]
  rfl

theorem waiting_cons_of_yielded (stack : List Frame) (h : frame.yielded = true) : waiting (frame :: stack) = waiting stack := by
  rw [waiting, List.filter_cons, h]
  rfl

theorem waiting_cons_of_not_yielded (stack : List Frame) (h : frame.yielded = false) :
    waiting (frame :: stack) = frame.id :: waiting stack := by
  rw [waiting, List.filter_cons, h]
  rfl

structure Frame.At (adjacency : AdjacencyFn) (resolve : Option ResolveFn) (options : TraversalOptions)
    (start : ObjectId) (done : List (ObjectId × Nat)) (frame : Frame) (depth : Nat) : Prop where
  depth_eq : frame.depth = UInt32.ofNat depth
  steps : Steps (Edge adjacency resolve options.dangling) depth start frame.id
  within : Within (limit options) depth
  done : frame.yielded = true → (frame.id, depth) ∈ done
  fresh : frame.yielded = false → frame.neighbors = []
  neighbors : frame.neighbors ≠ [] → Within (limit options) (depth + 1) ∧
    ∃ neighbors, adjacency frame.id = .ok neighbors ∧ frame.neighbors ⊆ neighbors

/-- The state of `dfs`: what is on the stack, and what has been yielded. -/
structure Branches (adjacency : AdjacencyFn) (resolve : Option ResolveFn) (options : TraversalOptions)
    (start : ObjectId) (seen : Finset ObjectId) (stack : List Frame) (done : List (ObjectId × Nat)) :
    Prop where
  root : start ∈ seen
  mem_seen : ∀ id, id ∈ seen ↔ id ∈ done.map Prod.fst ++ waiting stack
  nodup : (done.map Prod.fst ++ waiting stack).Nodup
  steps : ∀ entry ∈ done,
    Steps (Edge adjacency resolve options.dangling) entry.2 start entry.1 ∧ Within (limit options) entry.2
  frames : ∀ frame ∈ stack, ∃ depth, frame.At adjacency resolve options start done depth
  closed : ∀ entry ∈ done, Within (limit options) (entry.2 + 1) →
    ∀ id, Edge adjacency resolve options.dangling entry.1 id →
      id ∈ seen ∨ ∃ frame ∈ stack, frame.yielded = true ∧ frame.id = entry.1 ∧ id ∈ frame.neighbors

theorem Frame.At.mono {depth : Nat} {done' : List (ObjectId × Nat)}
    (h : frame.At adjacency resolve options start done depth) (hsub : done ⊆ done') :
    frame.At adjacency resolve options start done' depth :=
  ⟨h.depth_eq, h.steps, h.within, fun hyielded => hsub (h.done hyielded), h.fresh, h.neighbors⟩

theorem branches_start :
    Branches adjacency resolve options start {start} [{ id := start, depth := 0 }] [] := by
  refine ⟨Finset.mem_singleton_self _, ?_, List.nodup_singleton _, ?_, ?_, ?_⟩
  · intro id
    rw [Finset.mem_singleton]
    exact List.mem_singleton.symm
  · intro entry hentry
    cases hentry
  · intro frame hframe
    rw [List.mem_singleton.1 hframe]
    refine ⟨0, rfl, .refl start, fun m _ => Nat.zero_le m, ?_, fun _ => rfl, fun hne => absurd rfl hne⟩
    intro hyielded
    cases hyielded
  · intro entry hentry
    cases hentry

namespace Branches

theorem ended (h : Branches adjacency resolve options start seen stack done) (failure : Option Error)
    (hraised : ∀ error ∈ failure, ∃ entry ∈ done,
      Within (limit options) (entry.2 + 1) ∧ Raised adjacency resolve entry.1 error) :
    Ended adjacency resolve options start
      ((done.map fun entry => .ok (visit entry)) ++ failure.toList.map .error) done failure :=
  ⟨rfl, h.nodup.of_append_left, h.steps, hraised⟩

theorem mem_done_of_edge (h : Branches adjacency resolve options start seen [] done)
    {entry : ObjectId × Nat} (hentry : entry ∈ done) (hwithin : Within (limit options) (entry.2 + 1))
    {id : ObjectId} (hedge : Edge adjacency resolve options.dangling entry.1 id) :
    id ∈ done.map Prod.fst := by
  rcases h.closed entry hentry hwithin id hedge with hseen | ⟨frame, hframe, _⟩
  · have hmem := (h.mem_seen id).1 hseen
    rwa [waiting, List.filter_nil, List.map_nil, List.append_nil] at hmem
  · cases hframe

theorem pop (h : Branches adjacency resolve options start seen (frame :: below) done)
    (hyielded : frame.yielded = true) (hneighbors : frame.neighbors = []) :
    Branches adjacency resolve options start seen below done := by
  have hwaiting := waiting_cons_of_yielded below hyielded
  refine ⟨h.root, hwaiting ▸ h.mem_seen, hwaiting ▸ h.nodup, h.steps, ?_, ?_⟩
  · intro other hother
    exact h.frames other (List.mem_cons_of_mem _ hother)
  · intro entry hentry hwithin id hedge
    rcases h.closed entry hentry hwithin id hedge with hseen | ⟨other, hother, hrest⟩
    · exact .inl hseen
    · rcases List.mem_cons.1 hother with rfl | hother
      · rw [hneighbors] at hrest
        exact absurd hrest.2.2 List.not_mem_nil
      · exact .inr ⟨other, hother, hrest⟩

theorem skip {neighbor : ObjectId} {rest : List ObjectId} (above : List Frame)
    (h : Branches adjacency resolve options start seen (above ++ frame :: below) done)
    (hyielded : frame.yielded = true) (hneighbors : frame.neighbors = neighbor :: rest)
    (hseen : acceptNeighbor neighbor resolve options.dangling = .ok true → neighbor ∈ seen) :
    Branches adjacency resolve options start seen (above ++ { frame with neighbors := rest } :: below)
      done := by
  have hyielded' : ({ frame with neighbors := rest } : Frame).yielded = true := hyielded
  have hwaiting : waiting (above ++ { frame with neighbors := rest } :: below) =
      waiting (above ++ frame :: below) := by
    rw [waiting_append, waiting_append, waiting_cons_of_yielded _ hyielded, waiting_cons_of_yielded _ hyielded']
  have hframe : frame ∈ above ++ frame :: below := List.mem_append_right _ List.mem_cons_self
  have hframe' : ({ frame with neighbors := rest } : Frame) ∈
      above ++ { frame with neighbors := rest } :: below := List.mem_append_right _ List.mem_cons_self
  have hcases {other : Frame} {top : Frame} (hother : other ∈ above ++ top :: below) :
      other = top ∨ ∀ top', other ∈ above ++ top' :: below := by
    rcases List.mem_append.1 hother with hother | hother
    · exact .inr fun _ => List.mem_append_left _ hother
    · rcases List.mem_cons.1 hother with rfl | hother
      · exact .inl rfl
      · exact .inr fun _ => List.mem_append_right _ (List.mem_cons_of_mem _ hother)
  refine ⟨h.root, hwaiting ▸ h.mem_seen, hwaiting ▸ h.nodup, h.steps, ?_, ?_⟩
  · intro other hother
    rcases hcases hother with rfl | hother
    · obtain ⟨depth, hat⟩ := h.frames frame hframe
      refine ⟨depth, hat.depth_eq, hat.steps, hat.within, hat.done, ?_, ?_⟩
      · intro hfresh
        rw [hyielded'] at hfresh
        cases hfresh
      · intro hne
        obtain ⟨hwithin, ns, hns, hsub⟩ := hat.neighbors (by rw [hneighbors]; exact List.cons_ne_nil _ _)
        rw [hneighbors] at hsub
        exact ⟨hwithin, ns, hns, fun id hid => hsub (List.mem_cons_of_mem _ hid)⟩
    · exact h.frames other (hother frame)
  · intro entry hentry hwithin id hedge
    rcases h.closed entry hentry hwithin id hedge with hold | ⟨other, hother, hyes, hid, hmem⟩
    · exact .inl hold
    · rcases hcases hother with rfl | hother
      · rw [hneighbors] at hmem
        rcases List.mem_cons.1 hmem with rfl | hmem
        · obtain ⟨_, _, _, haccept⟩ := hedge
          exact .inl (hseen haccept)
        · exact .inr ⟨_, hframe', hyielded', hid, hmem⟩
      · exact .inr ⟨other, hother _, hyes, hid, hmem⟩

theorem push {neighbor : ObjectId} {rest : List ObjectId}
    (h : Branches adjacency resolve options start seen (frame :: below) done)
    (hyielded : frame.yielded = true) (hneighbors : frame.neighbors = neighbor :: rest)
    (haccept : acceptNeighbor neighbor resolve options.dangling = .ok true) (hnew : neighbor ∉ seen) :
    Branches adjacency resolve options start (insert neighbor seen)
      ({ id := neighbor, depth := frame.depth + 1 } :: { frame with neighbors := rest } :: below) done := by
  have hgrown : Branches adjacency resolve options start (insert neighbor seen)
      ({ id := neighbor, depth := frame.depth + 1 } :: frame :: below) done := by
    have hwaiting : waiting ({ id := neighbor, depth := frame.depth + 1 } :: frame :: below) =
        neighbor :: waiting (frame :: below) := waiting_cons_of_not_yielded _ rfl
    refine ⟨Finset.mem_insert_of_mem h.root, ?_, ?_, h.steps, ?_, ?_⟩
    · intro id
      rw [hwaiting, Finset.mem_insert, h.mem_seen, List.mem_append, List.mem_append, List.mem_cons]
      tauto
    · rw [hwaiting, List.nodup_append]
      obtain ⟨hdone, hwait, hapart⟩ := List.nodup_append.1 h.nodup
      have hnot (id : ObjectId) (hid : id ∈ done.map Prod.fst ++ waiting (frame :: below)) :
          id ≠ neighbor := by
        rintro rfl
        exact hnew ((h.mem_seen id).2 hid)
      refine ⟨hdone, List.nodup_cons.2 ⟨?_, hwait⟩, ?_⟩
      · intro hmem
        exact hnot neighbor (List.mem_append_right _ hmem) rfl
      · intro id hid other hother
        rcases List.mem_cons.1 hother with rfl | hother
        · exact hnot id (List.mem_append_left _ hid)
        · exact hapart id hid other hother
    · intro other hother
      rcases List.mem_cons.1 hother with rfl | hother
      · obtain ⟨depth, hat⟩ := h.frames frame List.mem_cons_self
        obtain ⟨hwithin, ns, hns, hsub⟩ := hat.neighbors (by rw [hneighbors]; exact List.cons_ne_nil _ _)
        have hedge : Edge adjacency resolve options.dangling frame.id neighbor :=
          ⟨ns, hns, hsub (by rw [hneighbors]; exact List.mem_cons_self), haccept⟩
        refine ⟨depth + 1, ?_, hat.steps.tail hedge, hwithin, ?_, fun _ => rfl, fun hne => absurd rfl hne⟩
        · rw [hat.depth_eq]
          exact (UInt32.ofNat_add depth 1).symm
        · intro hyes
          cases hyes
      · exact h.frames other hother
    · intro entry hentry hwithin id hedge
      rcases h.closed entry hentry hwithin id hedge with hold | ⟨other, hother, hrest⟩
      · exact .inl (Finset.mem_insert_of_mem hold)
      · exact .inr ⟨other, List.mem_cons_of_mem _ hother, hrest⟩
  exact hgrown.skip [{ id := neighbor, depth := frame.depth + 1 }] hyielded hneighbors
    fun _ => Finset.mem_insert_self neighbor seen

theorem yield {depth : Nat} (h : Branches adjacency resolve options start seen (frame :: below) done)
    (hat : frame.At adjacency resolve options start done depth) (hnot : frame.yielded = false)
    (hneighbors : Within (limit options) (depth + 1) → adjacency frame.id = .ok neighbors)
    (hdeep : ¬Within (limit options) (depth + 1) → neighbors = []) :
    Branches adjacency resolve options start seen
      ({ frame with yielded := true, neighbors := neighbors } :: below) (done ++ [(frame.id, depth)]) := by
  have hwaiting := waiting_cons_of_not_yielded below hnot
  have hwaiting' : waiting ({ frame with yielded := true, neighbors := neighbors } :: below) =
      waiting below := waiting_cons_of_yielded _ rfl
  have hids : (done ++ [(frame.id, depth)]).map Prod.fst ++
      waiting ({ frame with yielded := true, neighbors := neighbors } :: below) =
      done.map Prod.fst ++ waiting (frame :: below) := by
    rw [hwaiting, hwaiting', List.map_append, List.append_assoc]
    rfl
  have hsub : done ⊆ done ++ [(frame.id, depth)] := List.subset_append_left _ _
  refine ⟨h.root, hids ▸ h.mem_seen, hids ▸ h.nodup, ?_, ?_, ?_⟩
  · intro entry hentry
    rcases List.mem_append.1 hentry with hentry | hentry
    · exact h.steps entry hentry
    · rw [List.mem_singleton.1 hentry]
      exact ⟨hat.steps, hat.within⟩
  · intro other hother
    rcases List.mem_cons.1 hother with rfl | hother
    · refine ⟨depth, hat.depth_eq, hat.steps, hat.within, fun _ => ?_, ?_, ?_⟩
      · exact List.mem_append_right _ (List.mem_singleton_self _)
      · intro hfresh
        cases hfresh
      · intro hne
        have hwithin : Within (limit options) (depth + 1) := not_not.1 fun hnot => hne (hdeep hnot)
        exact ⟨hwithin, neighbors, hneighbors hwithin, List.Subset.refl _⟩
    · obtain ⟨depth', hother⟩ := h.frames other (List.mem_cons_of_mem _ hother)
      exact ⟨depth', hother.mono hsub⟩
  · intro entry hentry hwithin id hedge
    rcases List.mem_append.1 hentry with hentry | hentry
    · rcases h.closed entry hentry hwithin id hedge with hold | ⟨other, hother, hrest⟩
      · exact .inl hold
      · rcases List.mem_cons.1 hother with rfl | hother
        · rw [hnot] at hrest
          cases hrest.1
        · exact .inr ⟨other, List.mem_cons_of_mem _ hother, hrest⟩
    · rw [List.mem_singleton.1 hentry] at hwithin hedge ⊢
      obtain ⟨ns, hns, hmem, _⟩ := hedge
      rw [hneighbors hwithin] at hns
      exact .inr ⟨_, List.mem_cons_self, rfl, rfl, Except.ok.inj hns ▸ hmem⟩

theorem ended_of_top {depth : Nat} (h : Branches adjacency resolve options start seen (frame :: below) done)
    (hat : frame.At adjacency resolve options start done depth) (hnot : frame.yielded = false)
    (hwithin : Within (limit options) (depth + 1)) (hraised : Raised adjacency resolve frame.id error) :
    Ended adjacency resolve options start
      (((done ++ [(frame.id, depth)]).map fun entry => .ok (visit entry)) ++ [.error error])
      (done ++ [(frame.id, depth)]) (some error) := by
  have hlast : (frame.id, depth) ∈ done ++ [(frame.id, depth)] :=
    List.mem_append_right _ (List.mem_singleton_self _)
  refine ⟨rfl, ?_, ?_, ?_⟩
  · have hnodup := h.nodup
    rw [waiting_cons_of_not_yielded _ hnot, List.append_cons] at hnodup
    rw [List.map_append]
    exact hnodup.of_append_left
  · intro entry hentry
    rcases List.mem_append.1 hentry with hentry | hentry
    · exact h.steps entry hentry
    · rw [List.mem_singleton.1 hentry]
      exact ⟨hat.steps, hat.within⟩
  · intro raised hmem
    rw [← Option.some.inj hmem]
    exact ⟨_, hlast, hwithin, hraised⟩

theorem dfsNeighbors {state : Dfs} (hcancel : cancelled options = false) (hskip : options.dangling = .skip)
    (h : Branches adjacency resolve options start state.seen ({ frame with neighbors := neighbors } :: below)
      done) (hyielded : frame.yielded = true) :
    match Graph.dfsNeighbors options resolve frame below neighbors state with
    | .inl out => ∃ error, out = state.out ++ [.error error] ∧
        ∃ entry ∈ done, Within (limit options) (entry.2 + 1) ∧ Raised adjacency resolve entry.1 error
    | .inr next => next.out = state.out ∧
        Branches adjacency resolve options start next.seen next.stack done ∧
        2 * (2 ^ 64 - next.seen.card) + next.stack.length <
          2 * (2 ^ 64 - state.seen.card) + (below.length + 1) := by
  induction neighbors with
  | nil =>
    rw [Graph.dfsNeighbors]
    refine ⟨rfl, h.pop hyielded rfl, ?_⟩
    dsimp only
    omega
  | cons neighbor rest ih =>
    rw [Graph.dfsNeighbors, hcancel, if_neg Bool.false_ne_true]
    cases haccept : acceptNeighbor neighbor resolve options.dangling with
    | error raised =>
      dsimp only
      rw [hskip, if_neg (by decide)]
      obtain ⟨depth, hat⟩ := h.frames _ List.mem_cons_self
      obtain ⟨hwithin, ns, hns, hsub⟩ := hat.neighbors (List.cons_ne_nil neighbor rest)
      refine ⟨raised, rfl, _, hat.done hyielded, hwithin, ?_⟩
      exact raised_of_acceptNeighbor hns (hsub List.mem_cons_self) (hskip ▸ haccept)
    | ok accept =>
      dsimp only
      cases accept with
      | false =>
        apply ih
        apply h.skip [] hyielded rfl
        intro hyes
        rw [haccept] at hyes
        cases hyes
      | true =>
        rw [if_neg (by decide)]
        by_cases hseen : neighbor ∈ state.seen
        · rw [if_pos hseen]
          exact ih (h.skip [] hyielded rfl fun _ => hseen)
        · rw [if_neg hseen]
          have hpush := h.push hyielded rfl haccept hseen
          refine ⟨rfl, hpush, ?_⟩
          have hcard := Finset.card_insert_of_notMem hseen
          have hle : (insert neighbor state.seen).card ≤ 2 ^ 64 := card_le _
          dsimp only
          rw [List.length_cons, List.length_cons]
          omega

end Branches

theorem Branches.turn {state : Dfs} (hcancel : options.hasCancel = false)
    (hvertices : options.maxVertices = 0) (hskip : options.dangling = .skip)
    (h : Branches adjacency resolve options start state.seen state.stack done)
    (hout : state.out = done.map fun entry => .ok (visit entry)) :
    match dfsTurn adjacency options resolve state with
    | .inl out => ∃ done failure, Ended adjacency resolve options start out done failure ∧
        (failure = none → ∃ seen, Branches adjacency resolve options start seen [] done)
    | .inr next => 2 * (2 ^ 64 - next.seen.card) + next.stack.length <
          2 * (2 ^ 64 - state.seen.card) + state.stack.length ∧
        ∃ done, Branches adjacency resolve options start next.seen next.stack done ∧
          next.out = done.map fun entry => .ok (visit entry) := by
  have hnot : cancelled options = false := by rw [cancelled, hcancel, Bool.false_and]
  have hfew : vertexLimitReached state.yieldedCount options = false := by
    rw [vertexLimitReached, hvertices]
    rfl
  unfold dfsTurn
  cases hstack : state.stack with
  | nil =>
    rw [hstack] at h
    refine ⟨done, none, ?_, fun _ => ⟨_, h⟩⟩
    have hended := h.ended none fun error herror => by cases herror
    rwa [hout, ← List.append_nil (done.map _)]
  | cons frame below =>
    rw [hstack] at h
    dsimp only
    rw [hnot, if_neg Bool.false_ne_true]
    -- What the scan of the neighbours leaves, from the state after the place has been yielded.
    have hscan {done : List (ObjectId × Nat)} {frame' : Frame} {state' : Dfs}
        (h : Branches adjacency resolve options start state'.seen (frame' :: below) done)
        (hyielded : frame'.yielded = true) (hseen : state'.seen = state.seen)
        (hout : state'.out = done.map fun entry => .ok (visit entry)) :
        match Graph.dfsNeighbors options resolve frame' below frame'.neighbors state' with
        | .inl out => ∃ done failure, Ended adjacency resolve options start out done failure ∧
            (failure = none → ∃ seen, Branches adjacency resolve options start seen [] done)
        | .inr next => 2 * (2 ^ 64 - next.seen.card) + next.stack.length <
              2 * (2 ^ 64 - state.seen.card) + (below.length + 1) ∧
            ∃ done, Branches adjacency resolve options start next.seen next.stack done ∧
              next.out = done.map fun entry => .ok (visit entry) := by
      have hsame : Branches adjacency resolve options start state'.seen
          ({ frame' with neighbors := frame'.neighbors } :: below) done := h
      have hspec := hsame.dfsNeighbors hnot hskip hyielded
      cases hturn : Graph.dfsNeighbors options resolve frame' below frame'.neighbors state' with
      | inl out =>
        rw [hturn] at hspec
        obtain ⟨raised, hout', hraised⟩ := hspec
        refine ⟨done, some raised, ?_, ?_⟩
        · have hended := h.ended (some raised) fun error herror => Option.some.inj herror ▸ hraised
          rwa [hout', hout]
        · intro hnone
          cases hnone
      | inr next =>
        rw [hturn] at hspec
        obtain ⟨hout', hnext, hlt⟩ := hspec
        rw [hseen] at hlt
        exact ⟨hlt, done, hnext, hout'.trans hout⟩
    cases hyielded : frame.yielded with
    | true =>
      rw [dfsYield, hyielded, if_pos rfl]
      exact hscan h hyielded rfl hout
    | false =>
      obtain ⟨depth, hat⟩ := h.frames frame List.mem_cons_self
      have hlater : state.out ++ [Except.ok ⟨frame.id, frame.depth⟩] =
          (done ++ [(frame.id, depth)]).map fun entry => .ok (visit entry) := by
        rw [hout, hat.depth_eq, List.map_append]
        rfl
      rw [dfsYield, hyielded, if_neg Bool.false_ne_true, hfew, if_neg Bool.false_ne_true]
      dsimp only
      rw [hat.depth_eq]
      by_cases hdeep : depthExceeded (UInt32.ofNat depth + 1) options = true
      · rw [if_pos hdeep, ← hat.depth_eq]
        have hnot' := (depthExceeded_eq hat.within).1 hdeep
        have hnext := h.yield hat hyielded (fun hwithin => absurd hwithin hnot') fun _ => hat.fresh hyielded
        exact hscan hnext rfl rfl hlater
      · rw [if_neg hdeep, ← hat.depth_eq]
        have hwithin : Within (limit options) (depth + 1) :=
          not_not.1 fun hnot' => hdeep ((depthExceeded_eq hat.within).2 hnot')
        cases hadjacency : adjacency frame.id with
        | error raised =>
          refine ⟨done ++ [(frame.id, depth)], some raised, ?_, ?_⟩
          · rw [hlater]
            exact h.ended_of_top hat hyielded hwithin (.adjacency hadjacency)
          · intro hnone
            cases hnone
        | ok neighbors =>
          have hnext := h.yield hat hyielded (fun _ => hadjacency) fun hnot' => absurd hwithin hnot'
          exact hscan hnext rfl rfl hlater

theorem dfs_ends (hcancel : options.hasCancel = false) (hvertices : options.maxVertices = 0)
    (hskip : options.dangling = .skip) (start : ObjectId) {fuel : Nat} (hfuel : 2 ^ 65 < fuel) :
    ∃ out done failure, dfs fuel start (some adjacency) options resolve = some out ∧
      Ended adjacency resolve options start out done failure ∧
      (failure = none → ∃ seen, Branches adjacency resolve options start seen [] done) := by
  have hstep : ∀ state next : Dfs,
      (∃ done, Branches adjacency resolve options start state.seen state.stack done ∧
        state.out = done.map fun entry => .ok (visit entry)) →
      dfsTurn adjacency options resolve state = .inr next →
      (∃ done, Branches adjacency resolve options start next.seen next.stack done ∧
        next.out = done.map fun entry => .ok (visit entry)) ∧
        2 * (2 ^ 64 - next.seen.card) + next.stack.length <
          2 * (2 ^ 64 - state.seen.card) + state.stack.length := by
    rintro state next ⟨done, h, hout⟩ hturn
    have hspec := h.turn hcancel hvertices hskip hout
    rw [hturn] at hspec
    exact ⟨hspec.2, hspec.1⟩
  let first : Dfs := { seen := {start}, stack := [{ id := start, depth := 0 }], yieldedCount := 0, out := [] }
  have hmeasure : 2 * (2 ^ 64 - first.seen.card) + first.stack.length < fuel := by
    change 2 * (2 ^ 64 - ({start} : Finset ObjectId).card) + 1 < fuel
    rw [Finset.card_singleton]
    omega
  have hfirst : ∃ done, Branches adjacency resolve options start first.seen first.stack done ∧
      first.out = done.map fun entry => .ok (visit entry) := ⟨[], branches_start, rfl⟩
  obtain ⟨out, last, hrun, ⟨done, hlast, hout⟩, hturn⟩ :=
    Loop.run_ends _ (fun state : Dfs => 2 * (2 ^ 64 - state.seen.card) + state.stack.length) hstep hfirst
      hmeasure
  have hspec := hlast.turn hcancel hvertices hskip hout
  rw [hturn] at hspec
  obtain ⟨done', failure, hended, hbranches⟩ := hspec
  exact ⟨out, done', failure, hrun, hended, hbranches⟩

/-! ### Both traversals -/

/-- What holds of a traversal that yields `visits`, and last the error that ended it, if any. -/
structure Traversed (adjacency : AdjacencyFn) (resolve : Option ResolveFn) (options : TraversalOptions)
    (start : ObjectId) (run : Option (List Yield)) (visits : List GraphVisit) (failed : Option Error) :
    Prop where
  run_eq : run = some (visits.map .ok ++ failed.toList.map .error)
  nodup : (visits.map GraphVisit.id).Nodup
  reached : ∀ id ∈ visits.map GraphVisit.id,
    ∃ length, Steps (Edge adjacency resolve options.dangling) length start id ∧
      (options.maxDepth.toNat ≠ 2 ^ 32 - 1 → Allowed options length)
  raised : ∀ error ∈ failed, ∃ id ∈ visits.map GraphVisit.id, Raised adjacency resolve id error

theorem map_id_visit (done : List (ObjectId × Nat)) :
    (done.map visit).map GraphVisit.id = done.map Prod.fst := by
  rw [List.map_map]
  rfl

theorem Ended.traversed {out : List Yield} {failure : Option Error}
    (h : Ended adjacency resolve options start out done failure) :
    Traversed adjacency resolve options start (some out) (done.map visit) failure := by
  refine ⟨?_, ?_, ?_, ?_⟩
  · rw [h.out_eq, List.map_map]
    rfl
  · rw [map_id_visit]
    exact h.nodup
  · intro id hid
    rw [map_id_visit] at hid
    obtain ⟨entry, hentry, rfl⟩ := List.mem_map.1 hid
    obtain ⟨hsteps, hwithin⟩ := h.steps entry hentry
    exact ⟨entry.2, hsteps, fun hmax => allowed_of_within hmax hwithin⟩
  · intro error herror
    obtain ⟨entry, hentry, _, hraised⟩ := h.raised error herror
    rw [map_id_visit]
    exact ⟨entry.1, List.mem_map.2 ⟨entry, hentry, rfl⟩, hraised⟩

theorem Branches.complete (h : Branches adjacency resolve options start seen [] done)
    (hlimit : limit options = none) {length : Nat} {id : ObjectId}
    (hsteps : Steps (Edge adjacency resolve options.dangling) length start id) : id ∈ done.map Prod.fst := by
  induction length generalizing id with
  | zero =>
    have hroot := (h.mem_seen start).1 h.root
    rw [waiting, List.filter_nil, List.map_nil, List.append_nil] at hroot
    rwa [← hsteps.eq_of_zero]
  | succ length ih =>
    cases hsteps with
    | tail hsteps hedge =>
      obtain ⟨entry, hentry, rfl⟩ := List.mem_map.1 (ih hsteps)
      apply h.mem_done_of_edge hentry _ hedge
      rw [hlimit]
      exact within_none

/-- Both traversals end and yield no vertex twice, and none but those on a walk as long as allowed. With no
error from a callback `bfs` yields all of them; so does `dfs` with no limit, and with one it yields every
neighbour of a vertex it has yielded above the limit. -/
theorem traversals_visit (adjacency : AdjacencyFn) (resolve : Option ResolveFn) (options : TraversalOptions)
    (start : ObjectId) (hcancel : options.hasCancel = false) (hvertices : options.maxVertices = 0)
    (hskip : options.dangling = .skip) :
    ∃ enough, ∀ fuel ≥ enough, ∃ breadth failed depth failed',
      Traversed adjacency resolve options start (bfs fuel start (some adjacency) options resolve) breadth
        failed ∧
      (failed = none → ∀ id length, Steps (Edge adjacency resolve options.dangling) length start id →
        Allowed options length → id ∈ breadth.map GraphVisit.id) ∧
      Traversed adjacency resolve options start (dfs fuel start (some adjacency) options resolve) depth
        failed' ∧
      (failed' = none → options.maxDepth = 0 → ∀ id length,
        Steps (Edge adjacency resolve options.dangling) length start id → id ∈ depth.map GraphVisit.id) ∧
      (failed' = none → ∀ place ∈ depth, place.depth < options.maxDepth → ∀ id,
        Edge adjacency resolve options.dangling place.id id → id ∈ depth.map GraphVisit.id) := by
  refine ⟨2 ^ 65 + 1, ?_⟩
  intro fuel hfuel
  obtain ⟨out, done, failure, hbfs, hended, hlayers⟩ :=
    @bfs_ends adjacency resolve options hcancel hvertices hskip start _
      (show 2 ^ 64 < fuel by omega)
  obtain ⟨out', done', failure', hdfs, hended', hbranches⟩ :=
    @dfs_ends adjacency resolve options hcancel hvertices hskip start _
      (show 2 ^ 65 < fuel by omega)
  refine ⟨done.map visit, failure, done'.map visit, failure', hbfs ▸ hended.traversed, ?_,
    hdfs ▸ hended'.traversed, ?_, ?_⟩
  · intro hnone id length hsteps hallowed
    rw [map_id_visit]
    exact (hlayers hnone).mem_done_iff.2 ⟨length, hsteps, within_of_allowed hallowed⟩
  · intro hnone hzero id length hsteps
    obtain ⟨seen, hseen⟩ := hbranches hnone
    rw [map_id_visit]
    exact hseen.complete (if_pos (.inl hzero)) hsteps
  · intro hnone place hplace hdeep id hedge
    obtain ⟨seen, hseen⟩ := hbranches hnone
    obtain ⟨entry, hentry, rfl⟩ := List.mem_map.1 hplace
    rw [map_id_visit]
    exact hseen.mem_done_of_edge hentry (within_succ_of_lt (hseen.steps entry hentry).2 hdeep) hedge

theorem traversals_visit_detour : ∃ enough, ∀ fuel ≥ enough, ∃ breadth failed,
    Traversed detour none { maxDepth := 2, dangling := .skip } 0
      (bfs fuel 0 (some detour) { maxDepth := 2, dangling := .skip } none) breadth failed := by
  obtain ⟨enough, hvisit⟩ := traversals_visit detour none { maxDepth := 2, dangling := .skip } 0 rfl rfl rfl
  refine ⟨enough, fun fuel hfuel => ?_⟩
  obtain ⟨breadth, failed, _, _, hbreadth, _⟩ := hvisit fuel hfuel
  exact ⟨breadth, failed, hbreadth⟩

/-- Where the traversals do not yield the vertices within the limit. `dfs` does not expand 2, first seen
at the limit, and misses 3; an error of the resolve function that does not say that its target is missing
ends both; and past the largest 32-bit depth `bfs` goes beyond the limit. -/
theorem traversals_miss :
    (Steps (Edge detour none .skip) 2 0 3 ∧
      dfs 20 0 (some detour) { maxDepth := 2, dangling := .skip } none =
        some [.ok ⟨0, 0⟩, .ok ⟨1, 1⟩, .ok ⟨2, 2⟩]) ∧
    (Edge detour (some unreadable) .skip 0 2 ∧
      bfs 20 0 (some detour) { dangling := .skip } (some unreadable) =
        some [.ok ⟨0, 0⟩, .error ⟨.ioError, ""⟩] ∧
      dfs 20 0 (some detour) { dangling := .skip } (some unreadable) =
        some [.ok ⟨0, 0⟩, .error ⟨.ioError, ""⟩]) ∧
    (∀ fuel > 2 ^ 64, ∃ out, bfs fuel 0 (some line) { maxDepth := 0xFFFFFFFF, dangling := .skip } none =
        some out ∧ (∃ depth, .ok ⟨0x100000000, depth⟩ ∈ out) ∧
      ∀ length ≤ 0xFFFFFFFF, ¬Steps (Edge line none .skip) length 0 0x100000000) := by
  refine ⟨⟨?_, by decide⟩, ⟨⟨_, rfl, by decide, by decide⟩, by decide, by decide⟩, ?_⟩
  · have hfirst : Edge detour none .skip 0 2 := ⟨_, rfl, by decide, rfl⟩
    have hlast : Edge detour none .skip 2 3 := ⟨_, rfl, by decide, rfl⟩
    exact ((Steps.refl 0).tail hfirst).tail hlast
  · intro fuel hfuel
    obtain ⟨out, done, failure, hrun, hended, hlayers⟩ :=
      @bfs_ends line none { maxDepth := 0xFFFFFFFF, dangling := .skip } rfl rfl rfl 0 fuel hfuel
    have hnone : failure = none := by
      cases failure with
      | none => rfl
      | some error =>
        obtain ⟨entry, _, _, hraised⟩ := hended.raised error rfl
        cases hraised with
        | adjacency h => cases h
        | resolve _ _ hresolve => cases hresolve
    have hmem := (hlayers hnone).mem_done_iff.2
      ⟨2 ^ 32, steps_line (2 ^ 32), fun m hm => by cases hm⟩
    obtain ⟨entry, hentry, hid⟩ := List.mem_map.1 hmem
    refine ⟨out, hrun, ⟨UInt32.ofNat entry.2, ?_⟩, ?_⟩
    · rw [hended.out_eq]
      apply List.mem_append_left
      have hvisit : visit entry = ⟨0x100000000, UInt32.ofNat entry.2⟩ := by
        rw [visit, hid]
        rfl
      exact List.mem_map.2 ⟨entry, hentry, congrArg Except.ok hvisit⟩
    · intro length hle hsteps
      have heq := congrArg UInt64.toNat (eq_of_steps_line hsteps)
      rw [UInt64.toNat_ofNat', Nat.mod_eq_of_lt (by omega)] at heq
      have hvalue : (0x100000000 : UInt64).toNat = 2 ^ 32 := by decide
      omega

end MoDb.Graph
