import MoDb.Graph.BreadthFirst
import Mathlib.Order.WellFounded

/-!
# Cycles among listed vertices

`has_cycle` colours the listed vertices in a depth-first search with an explicit stack: a vertex is gray
while it is on the stack, and black when all its edges have been followed. An edge to a gray vertex closes a
cycle; every walk from a black vertex ends.
-/

namespace MoDb.Graph

open Search

inductive Color
  | white
  | gray
  | black
  deriving DecidableEq, Repr

abbrev Colors := ObjectId → Color

/-- A vertex on the stack; `neighbors` are those not looked at yet. -/
structure CycleFrame where
  id : ObjectId
  neighbors : List ObjectId

structure CycleSearch where
  color : Colors
  stack : List CycleFrame

/-- How the inner loop is left: with the result of the function, or with the colours. -/
abbrev CycleLeft := Except (Except Error Bool) Colors

def cycleNeighbors (listed : Finset ObjectId) (adjacency : AdjacencyFn) (options : TraversalOptions)
    (resolve : Option ResolveFn) (frame : CycleFrame) (below : List CycleFrame) :
    List ObjectId → Colors → CycleLeft ⊕ CycleSearch
  | [], color => .inr { color := Function.update color frame.id .black, stack := below }
  | neighbor :: rest, color =>
    if neighbor ∉ listed then cycleNeighbors listed adjacency options resolve frame below rest color
    else
      match acceptNeighbor neighbor resolve options.dangling with
      | .error error => .inl (.error (.error error))
      | .ok accept =>
        if !accept then cycleNeighbors listed adjacency options resolve frame below rest color
        else
          match color neighbor with
          | .gray => .inl (.error (.ok true))
          | .black => cycleNeighbors listed adjacency options resolve frame below rest color
          | .white =>
            match adjacency neighbor with
            | .error error => .inl (.error (.error error))
            | .ok neighbors =>
              .inr
                { color := Function.update color neighbor .gray
                  stack := ⟨neighbor, neighbors⟩ :: ⟨frame.id, rest⟩ :: below }

def cycleTurn (listed : Finset ObjectId) (adjacency : AdjacencyFn) (options : TraversalOptions)
    (resolve : Option ResolveFn) (state : CycleSearch) : CycleLeft ⊕ CycleSearch :=
  match state.stack with
  | [] => .inl (.ok state.color)
  | frame :: below =>
    if cancelled options then .inl (.error (.error ⟨.invalidArgument, "has_cycle cancelled"⟩))
    else cycleNeighbors listed adjacency options resolve frame below frame.neighbors state.color

def hasCycleFrom (fuel : Nat) (listed : Finset ObjectId) (adjacency : AdjacencyFn)
    (options : TraversalOptions) (resolve : Option ResolveFn) :
    List ObjectId → Colors → Option (Except Error Bool)
  | [], _ => some (.ok false)
  | start :: rest, color =>
    if color start ≠ .white then hasCycleFrom fuel listed adjacency options resolve rest color
    else if cancelled options then some (.error ⟨.invalidArgument, "has_cycle cancelled"⟩)
    else
      match adjacency start with
      | .error error => some (.error error)
      | .ok neighbors =>
        match Loop.run (cycleTurn listed adjacency options resolve) fuel
          { color := Function.update color start .gray, stack := [⟨start, neighbors⟩] } with
        | none => none
        | some (.error result) => some result
        | some (.ok color) => hasCycleFrom fuel listed adjacency options resolve rest color

def hasCycle (fuel : Nat) (vertices : List ObjectId) (adjacency : Option AdjacencyFn)
    (options : TraversalOptions) (resolve : Option ResolveFn) : Option (Except Error Bool) :=
  match adjacency with
  | none => some (.error ⟨.invalidArgument, "adjacency function is empty"⟩)
  | some adjacency =>
    hasCycleFrom fuel vertices.toFinset adjacency options resolve vertices fun _ => .white

variable {adjacency : AdjacencyFn} {resolve : Option ResolveFn} {options : TraversalOptions}
  {listed : Finset ObjectId} {neighbors : List ObjectId} {error : Error}

/-! ### The listed part of the graph -/

def ListedEdge (listed : Finset ObjectId) (adjacency : AdjacencyFn) (resolve : Option ResolveFn)
    (options : TraversalOptions) (place neighbor : ObjectId) : Prop :=
  place ∈ listed ∧ neighbor ∈ listed ∧ Edge adjacency resolve options.dangling place neighbor

/-- No callback fails where the edges of this vertex to listed ones are followed. -/
def Answered (listed : Finset ObjectId) (adjacency : AdjacencyFn) (resolve : Option ResolveFn)
    (options : TraversalOptions) (place : ObjectId) : Prop :=
  ∃ neighbors, adjacency place = .ok neighbors ∧ ∀ neighbor ∈ neighbors, neighbor ∈ listed →
    ∃ accept, acceptNeighbor neighbor resolve options.dangling = .ok accept

def Fails (listed : Finset ObjectId) (adjacency : AdjacencyFn) (resolve : Option ResolveFn)
    (options : TraversalOptions) (error : Error) : Prop :=
  ∃ place ∈ listed, Raised adjacency resolve place error ∧
    ¬Answered listed adjacency resolve options place

theorem fails_of_adjacency {place : ObjectId} (hplace : place ∈ listed)
    (h : adjacency place = .error error) : Fails listed adjacency resolve options error := by
  refine ⟨place, hplace, .adjacency h, ?_⟩
  rintro ⟨neighbors, hneighbors, _⟩
  rw [h] at hneighbors
  cases hneighbors

theorem fails_of_acceptNeighbor (hskip : options.dangling = .skip) {place neighbor : ObjectId}
    (hplace : place ∈ listed) (h : adjacency place = .ok neighbors) (hmem : neighbor ∈ neighbors)
    (hmember : neighbor ∈ listed)
    (herror : acceptNeighbor neighbor resolve options.dangling = .error error) :
    Fails listed adjacency resolve options error := by
  refine ⟨place, hplace, raised_of_acceptNeighbor h hmem (hskip ▸ herror), ?_⟩
  rintro ⟨neighbors', hneighbors', hall⟩
  rw [h] at hneighbors'
  obtain ⟨accept, haccept⟩ := hall neighbor (Except.ok.inj hneighbors' ▸ hmem) hmember
  rw [herror] at haccept
  cases haccept

/-! ### The colours -/

/-- The neighbours of each vertex on the stack that have been looked at are black, or on the stack next. -/
def Pending (listed : Finset ObjectId) (adjacency : AdjacencyFn) (resolve : Option ResolveFn)
    (options : TraversalOptions) (color : Colors) : Option ObjectId → List CycleFrame → Prop
  | _, [] => True
  | above, frame :: below =>
    (∃ neighbors, adjacency frame.id = .ok neighbors ∧ frame.neighbors ⊆ neighbors ∧
      ∀ neighbor ∈ neighbors, neighbor ∈ listed → neighbor ∈ frame.neighbors ∨
        ∃ accept, acceptNeighbor neighbor resolve options.dangling = .ok accept ∧
          (accept = true → color neighbor = .black ∨ above = some neighbor)) ∧
    Pending listed adjacency resolve options color (some frame.id) below

structure Coloured (listed : Finset ObjectId) (adjacency : AdjacencyFn) (resolve : Option ResolveFn)
    (options : TraversalOptions) (past : List ObjectId) (color : Colors) (stack : List CycleFrame) : Prop where
  past : ∀ id ∈ past, color id ≠ .white
  within : ∀ id, color id ≠ .white → id ∈ listed
  black : ∀ id, color id = .black →
    Acc (Function.swap (ListedEdge listed adjacency resolve options)) id ∧
      Answered listed adjacency resolve options id
  gray : ∀ id, color id = .gray ↔ id ∈ stack.map CycleFrame.id
  nodup : (stack.map CycleFrame.id).Nodup
  chain : (stack.map CycleFrame.id).IsChain fun above below =>
    ListedEdge listed adjacency resolve options below above
  pending : Pending listed adjacency resolve options color none stack

theorem Pending.mono {color color' : Colors} {above above' : Option ObjectId} {stack : List CycleFrame}
    (h : Pending listed adjacency resolve options color above stack)
    (hcolor : ∀ id, color id = .black → color' id = .black)
    (habove : ∀ id, above = some id → color' id = .black ∨ above' = some id) :
    Pending listed adjacency resolve options color' above' stack := by
  induction stack generalizing above above' with
  | nil => trivial
  | cons frame below ih =>
    obtain ⟨⟨neighbors, hneighbors, hsub, hall⟩, hbelow⟩ := h
    refine ⟨⟨neighbors, hneighbors, hsub, fun neighbor hmem hmember => ?_⟩, ih hbelow fun id hid => .inr hid⟩
    refine (hall neighbor hmem hmember).imp_right ?_
    rintro ⟨accept, haccept, hdone⟩
    refine ⟨accept, haccept, fun hyes => ?_⟩
    rcases hdone hyes with hblack | hnext
    · exact .inl (hcolor neighbor hblack)
    · exact habove neighbor hnext

theorem reflTransGen_of_isChain {r : ObjectId → ObjectId → Prop} {top : ObjectId} {ids : List ObjectId}
    (h : (top :: ids).IsChain fun above below => r below above) {id : ObjectId} (hid : id ∈ top :: ids) :
    Relation.ReflTransGen r id top := by
  induction ids generalizing top with
  | nil =>
    rw [List.mem_singleton.1 hid]
  | cons next ids ih =>
    rw [List.isChain_cons_cons] at h
    rcases List.mem_cons.1 hid with rfl | hid
    · exact .refl
    · exact (ih h.2 hid).tail h.1

namespace Coloured

variable {past : List ObjectId} {color : Colors} {place neighbor : ObjectId} {rest : List ObjectId}
  {below : List CycleFrame}

theorem top_gray {stack : List CycleFrame}
    (h : Coloured listed adjacency resolve options past color (⟨place, neighbors⟩ :: stack)) :
    color place = .gray :=
  (h.gray place).2 List.mem_cons_self

theorem top_listed {stack : List CycleFrame}
    (h : Coloured listed adjacency resolve options past color (⟨place, neighbors⟩ :: stack)) :
    place ∈ listed := by
  apply h.within
  rw [h.top_gray]
  decide

theorem pop (h : Coloured listed adjacency resolve options past color (⟨place, []⟩ :: below)) :
    Coloured listed adjacency resolve options past (Function.update color place .black) below := by
  obtain ⟨⟨neighbors, hneighbors, _, hall⟩, hbelow⟩ := h.pending
  have hself : Function.update color place .black place = .black := Function.update_self _ _ _
  have hother {id : ObjectId} (hne : id ≠ place) : Function.update color place .black id = color id :=
    Function.update_of_ne hne _ _
  have hnodup := h.nodup
  rw [List.map_cons, List.nodup_cons] at hnodup
  refine ⟨?_, ?_, ?_, ?_, hnodup.2, ?_, ?_⟩
  · intro id hid
    by_cases hid' : id = place
    · rw [hid', hself]
      decide
    · rw [hother hid']
      exact h.past id hid
  · intro id hid
    by_cases hid' : id = place
    · rw [hid']
      exact h.top_listed
    · rw [hother hid'] at hid
      exact h.within id hid
  · intro id hid
    by_cases hid' : id = place
    · rw [hid']
      constructor
      · -- Every edge of the vertex leads to a black one.
        apply Acc.intro
        rintro next ⟨_, hnext, neighbors', hneighbors', hmem, haccept⟩
        rw [hneighbors, Except.ok.injEq] at hneighbors'
        rw [← hneighbors'] at hmem
        rcases hall next hmem hnext with hnil | ⟨accept, hok, hdone⟩
        · cases hnil
        · rw [haccept, Except.ok.injEq] at hok
          rcases hdone hok.symm with hblack | hnone
          · exact (h.black next hblack).1
          · cases hnone
      · refine ⟨neighbors, hneighbors, fun next hmem hnext => ?_⟩
        rcases hall next hmem hnext with hnil | ⟨accept, hok, _⟩
        · cases hnil
        · exact ⟨accept, hok⟩
    · rw [hother hid'] at hid
      exact h.black id hid
  · intro id
    by_cases hid' : id = place
    · subst hid'
      rw [hself]
      exact iff_of_false (by decide) hnodup.1
    · rw [hother hid', h.gray id]
      exact List.mem_cons.trans (or_iff_right hid')
  · have hchain := h.chain
    rw [List.map_cons] at hchain
    exact hchain.tail
  · apply hbelow.mono
    · intro id hid
      by_cases hid' : id = place
      · rw [hid', hself]
      · rw [hother hid', hid]
    · intro id hid
      rw [← Option.some.inj hid]
      exact .inl hself

theorem skip (h : Coloured listed adjacency resolve options past color (⟨place, neighbor :: rest⟩ :: below))
    (hdone : neighbor ∈ listed → ∃ accept, acceptNeighbor neighbor resolve options.dangling = .ok accept ∧
      (accept = true → color neighbor = .black)) :
    Coloured listed adjacency resolve options past color (⟨place, rest⟩ :: below) := by
  obtain ⟨⟨neighbors, hneighbors, hsub, hall⟩, hbelow⟩ := h.pending
  refine ⟨h.past, h.within, h.black, h.gray, h.nodup, h.chain, ⟨neighbors, hneighbors, ?_, ?_⟩, hbelow⟩
  · exact fun id hid => hsub (List.mem_cons_of_mem _ hid)
  · intro next hmem hnext
    rcases hall next hmem hnext with hrest | hrest
    · rcases List.mem_cons.1 hrest with rfl | hrest
      · obtain ⟨accept, haccept, hblack⟩ := hdone hnext
        exact .inr ⟨accept, haccept, fun hyes => .inl (hblack hyes)⟩
      · exact .inl hrest
    · exact .inr hrest

theorem push (h : Coloured listed adjacency resolve options past color (⟨place, neighbor :: rest⟩ :: below))
    (hmember : neighbor ∈ listed) (hwhite : color neighbor = .white)
    (haccept : acceptNeighbor neighbor resolve options.dangling = .ok true)
    (hadjacency : adjacency neighbor = .ok neighbors) :
    Coloured listed adjacency resolve options past
      (Function.update color neighbor .gray) (⟨neighbor, neighbors⟩ :: ⟨place, rest⟩ :: below) := by
  obtain ⟨⟨ns, hns, hsub, hall⟩, hbelow⟩ := h.pending
  have hself : Function.update color neighbor .gray neighbor = .gray := Function.update_self _ _ _
  have hother {id : ObjectId} (hne : id ≠ neighbor) :
      Function.update color neighbor .gray id = color id := Function.update_of_ne hne _ _
  have hedge : ListedEdge listed adjacency resolve options place neighbor :=
    ⟨h.top_listed, hmember, ns, hns, hsub List.mem_cons_self, haccept⟩
  have hblack {id : ObjectId} (hid : color id = .black) : id ≠ neighbor := by
    rintro rfl
    rw [hwhite] at hid
    cases hid
  have hnew : neighbor ∉ (⟨place, rest⟩ :: below).map CycleFrame.id := by
    intro hmem
    have hgray := (h.gray neighbor).2 hmem
    rw [hwhite] at hgray
    cases hgray
  refine ⟨?_, ?_, ?_, ?_, List.nodup_cons.2 ⟨hnew, h.nodup⟩, ?_, ?_⟩
  · intro id hid
    by_cases hid' : id = neighbor
    · rw [hid', hself]
      decide
    · rw [hother hid']
      exact h.past id hid
  · intro id hid
    by_cases hid' : id = neighbor
    · rw [hid']
      exact hmember
    · rw [hother hid'] at hid
      exact h.within id hid
  · intro id hid
    by_cases hid' : id = neighbor
    · rw [hid', hself] at hid
      cases hid
    · rw [hother hid'] at hid
      exact h.black id hid
  · intro id
    by_cases hid' : id = neighbor
    · rw [hid', hself]
      exact iff_of_true rfl List.mem_cons_self
    · rw [hother hid', h.gray id]
      exact (List.mem_cons.trans (or_iff_right hid')).symm
  · exact List.isChain_cons_cons.2 ⟨hedge, h.chain⟩
  · refine ⟨⟨neighbors, hadjacency, List.Subset.refl _, fun next hmem _ => .inl hmem⟩,
      ⟨ns, hns, fun id hid => hsub (List.mem_cons_of_mem _ hid), fun next hmem hnext => ?_⟩, ?_⟩
    · rcases hall next hmem hnext with hrest | ⟨accept, hok, hdone⟩
      · rcases List.mem_cons.1 hrest with rfl | hrest
        · exact .inr ⟨true, haccept, fun _ => .inr rfl⟩
        · exact .inl hrest
      · refine .inr ⟨accept, hok, fun hyes => ?_⟩
        rcases hdone hyes with hid | hnone
        · exact .inl (by rw [hother (hblack hid), hid])
        · cases hnone
    · apply hbelow.mono
      · intro id hid
        rw [hother (hblack hid), hid]
      · exact fun id hid => .inr hid

theorem cycle (h : Coloured listed adjacency resolve options past color (⟨place, neighbor :: rest⟩ :: below))
    (hmember : neighbor ∈ listed) (hgray : color neighbor = .gray)
    (haccept : acceptNeighbor neighbor resolve options.dangling = .ok true) :
    Relation.TransGen (ListedEdge listed adjacency resolve options) neighbor neighbor := by
  obtain ⟨⟨ns, hns, hsub, _⟩, _⟩ := h.pending
  have hedge : ListedEdge listed adjacency resolve options place neighbor :=
    ⟨h.top_listed, hmember, ns, hns, hsub List.mem_cons_self, haccept⟩
  exact .tail' (reflTransGen_of_isChain h.chain ((h.gray neighbor).1 hgray)) hedge

end Coloured

def whites (listed : Finset ObjectId) (color : Colors) : Nat :=
  (listed.filter fun id => color id = .white).card

def CycleEnd (listed : Finset ObjectId) (adjacency : AdjacencyFn) (resolve : Option ResolveFn)
    (options : TraversalOptions) (past : List ObjectId) : CycleLeft → Prop
  | .error (.error error) => Fails listed adjacency resolve options error
  | .error (.ok cyclic) => cyclic = true ∧
      ∃ id, Relation.TransGen (ListedEdge listed adjacency resolve options) id id
  | .ok color => Coloured listed adjacency resolve options past color []

theorem Coloured.cycleNeighbors {past : List ObjectId} {color : Colors} {frame : CycleFrame}
    {below : List CycleFrame} (hskip : options.dangling = .skip)
    (h : Coloured listed adjacency resolve options past color (⟨frame.id, neighbors⟩ :: below)) :
    match Graph.cycleNeighbors listed adjacency options resolve frame below neighbors color with
    | .inl left => CycleEnd listed adjacency resolve options past left
    | .inr next => Coloured listed adjacency resolve options past next.color next.stack ∧
        2 * whites listed next.color + next.stack.length < 2 * whites listed color + (below.length + 1) := by
  induction neighbors with
  | nil =>
    refine ⟨h.pop, ?_⟩
    dsimp only
    have hle : whites listed (Function.update color frame.id .black) ≤ whites listed color := by
      apply Finset.card_le_card
      intro id
      rw [Finset.mem_filter, Finset.mem_filter]
      rintro ⟨hid, hwhite⟩
      refine ⟨hid, ?_⟩
      by_cases hid' : id = frame.id
      · rw [hid', Function.update_self] at hwhite
        cases hwhite
      · rwa [Function.update_of_ne hid'] at hwhite
    omega
  | cons neighbor rest ih =>
    rw [Graph.cycleNeighbors]
    by_cases hmember : neighbor ∈ listed
    · rw [if_neg (not_not.2 hmember)]
      obtain ⟨⟨ns, hns, hsub, _⟩, _⟩ := h.pending
      cases haccept : acceptNeighbor neighbor resolve options.dangling with
      | error raised => exact fails_of_acceptNeighbor hskip h.top_listed hns (hsub List.mem_cons_self) hmember haccept
      | ok accept =>
        cases accept with
        | false => exact ih (h.skip fun _ => ⟨false, haccept, fun hyes => by cases hyes⟩)
        | true =>
          dsimp only
          rw [if_neg (by decide)]
          cases hcolor : color neighbor with
          | gray => exact ⟨rfl, neighbor, h.cycle hmember hcolor haccept⟩
          | black => exact ih (h.skip fun _ => ⟨true, haccept, fun _ => hcolor⟩)
          | white =>
            dsimp only
            cases hadjacency : adjacency neighbor with
            | error raised => exact fails_of_adjacency hmember hadjacency
            | ok neighbors =>
              refine ⟨h.push hmember hcolor haccept hadjacency, ?_⟩
              dsimp only
              have hlt : whites listed (Function.update color neighbor .gray) < whites listed color := by
                apply Finset.card_lt_card
                rw [Finset.ssubset_iff_of_subset]
                · refine ⟨neighbor, Finset.mem_filter.2 ⟨hmember, hcolor⟩, fun hmem => ?_⟩
                  have hwhite := (Finset.mem_filter.1 hmem).2
                  rw [Function.update_self] at hwhite
                  cases hwhite
                · intro id
                  rw [Finset.mem_filter, Finset.mem_filter]
                  rintro ⟨hid, hwhite⟩
                  refine ⟨hid, ?_⟩
                  by_cases hid' : id = neighbor
                  · rw [hid', hcolor]
                  · rwa [Function.update_of_ne hid'] at hwhite
              rw [List.length_cons, List.length_cons]
              omega
    · rw [if_pos hmember]
      exact ih (h.skip fun hyes => absurd hyes hmember)

theorem coloured_white : Coloured listed adjacency resolve options [] (fun _ => .white) [] := by
  refine ⟨fun id hid => ?_, fun id hid => absurd rfl hid, fun id hid => ?_, fun id => ?_, List.nodup_nil,
    List.isChain_nil, trivial⟩
  · cases hid
  · cases hid
  · refine iff_of_false ?_ List.not_mem_nil
    intro hgray
    cases hgray

theorem Coloured.start {past : List ObjectId} {color : Colors} {start : ObjectId}
    (h : Coloured listed adjacency resolve options past color []) (hmember : start ∈ listed)
    (hadjacency : adjacency start = .ok neighbors) :
    Coloured listed adjacency resolve options (start :: past) (Function.update color start .gray)
      [⟨start, neighbors⟩] := by
  have hself : Function.update color start .gray start = .gray := Function.update_self _ _ _
  have hother {id : ObjectId} (hne : id ≠ start) : Function.update color start .gray id = color id :=
    Function.update_of_ne hne _ _
  refine ⟨?_, ?_, ?_, ?_, List.nodup_singleton _, List.isChain_singleton _,
    ⟨neighbors, hadjacency, List.Subset.refl _, fun next hmem _ => .inl hmem⟩, trivial⟩
  · intro id hid
    by_cases hid' : id = start
    · rw [hid', hself]
      decide
    · rw [hother hid']
      exact h.past id ((List.mem_cons.1 hid).resolve_left hid')
  · intro id hid
    by_cases hid' : id = start
    · rw [hid']
      exact hmember
    · rw [hother hid'] at hid
      exact h.within id hid
  · intro id hid
    by_cases hid' : id = start
    · rw [hid', hself] at hid
      cases hid
    · rw [hother hid'] at hid
      exact h.black id hid
  · intro id
    by_cases hid' : id = start
    · rw [hid', hself]
      exact iff_of_true rfl (List.mem_singleton_self _)
    · rw [hother hid', h.gray id]
      refine iff_of_false List.not_mem_nil fun hmem => ?_
      exact hid' (List.mem_singleton.1 hmem)

theorem Coloured.search {past : List ObjectId} {color : Colors} {stack : List CycleFrame} {fuel : Nat}
    (hcancel : cancelled options = false) (hskip : options.dangling = .skip)
    (h : Coloured listed adjacency resolve options past color stack)
    (hfuel : 2 * whites listed color + stack.length < fuel) :
    ∃ left, Loop.run (cycleTurn listed adjacency options resolve) fuel ⟨color, stack⟩ = some left ∧
      CycleEnd listed adjacency resolve options past left := by
  have hturn (state : CycleSearch)
      (h : Coloured listed adjacency resolve options past state.color state.stack) :
      match cycleTurn listed adjacency options resolve state with
      | .inl left => CycleEnd listed adjacency resolve options past left
      | .inr next => Coloured listed adjacency resolve options past next.color next.stack ∧
          2 * whites listed next.color + next.stack.length <
            2 * whites listed state.color + state.stack.length := by
    unfold cycleTurn
    cases hstack : state.stack with
    | nil =>
      rw [hstack] at h
      exact h
    | cons frame below =>
      rw [hstack] at h
      dsimp only
      rw [hcancel, if_neg Bool.false_ne_true]
      exact h.cycleNeighbors hskip
  have hstep : ∀ state next : CycleSearch,
      Coloured listed adjacency resolve options past state.color state.stack →
      cycleTurn listed adjacency options resolve state = .inr next →
      Coloured listed adjacency resolve options past next.color next.stack ∧
        2 * whites listed next.color + next.stack.length <
          2 * whites listed state.color + state.stack.length := by
    intro state next h heq
    have hspec := hturn state h
    rwa [heq] at hspec
  have hstart : Coloured listed adjacency resolve options past (CycleSearch.mk color stack).color
      (CycleSearch.mk color stack).stack := h
  obtain ⟨left, last, hrun, hlast, heq⟩ := Loop.run_ends
    (fun state : CycleSearch => Coloured listed adjacency resolve options past state.color state.stack)
    (fun state : CycleSearch => 2 * whites listed state.color + state.stack.length) hstep hstart hfuel
  have hspec := hturn last hlast
  rw [heq] at hspec
  exact ⟨left, hrun, hspec⟩

theorem hasCycleFrom_mono {fuel fuel' : Nat} {rest : List ObjectId} {color : Colors}
    {result : Except Error Bool}
    (h : hasCycleFrom fuel listed adjacency options resolve rest color = some result) (hle : fuel ≤ fuel') :
    hasCycleFrom fuel' listed adjacency options resolve rest color = some result := by
  induction rest generalizing color with
  | nil => exact h
  | cons start rest ih =>
    rw [hasCycleFrom] at h ⊢
    split
    · rename_i hcolor
      rw [if_pos hcolor] at h
      exact ih h
    · rename_i hcolor
      rw [if_neg hcolor] at h
      split
      · rename_i hcancel
        rwa [if_pos hcancel] at h
      · rename_i hcancel
        rw [if_neg hcancel] at h
        cases hadjacency : adjacency start with
        | error raised => rwa [hadjacency] at h
        | ok neighbors =>
          rw [hadjacency] at h
          dsimp only at h ⊢
          cases hrun : Loop.run (cycleTurn listed adjacency options resolve) fuel
              { color := Function.update color start .gray, stack := [⟨start, neighbors⟩] } with
          | none =>
            rw [hrun] at h
            cases h
          | some left =>
            rw [hrun] at h
            rw [Loop.run_mono hrun hle]
            cases left with
            | error result => exact h
            | ok color => exact ih h

/-- What `has_cycle` says of the listed part of the graph. -/
def CycleAnswer (listed : Finset ObjectId) (adjacency : AdjacencyFn) (resolve : Option ResolveFn)
    (options : TraversalOptions) : Except Error Bool → Prop
  | .error error => Fails listed adjacency resolve options error
  | .ok true => ∃ id, Relation.TransGen (ListedEdge listed adjacency resolve options) id id
  | .ok false => ∀ id ∈ listed, Acc (Function.swap (ListedEdge listed adjacency resolve options)) id ∧
      Answered listed adjacency resolve options id

theorem hasCycleFrom_ends {past rest : List ObjectId} {color : Colors} {fuel : Nat}
    (hcancel : cancelled options = false) (hskip : options.dangling = .skip)
    (h : Coloured listed adjacency resolve options past color [])
    (hall : ∀ id, id ∈ listed ↔ id ∈ past ∨ id ∈ rest) (hfuel : 2 * listed.card + 1 < fuel) :
    ∃ result, hasCycleFrom fuel listed adjacency options resolve rest color = some result ∧
      CycleAnswer listed adjacency resolve options result := by
  induction rest generalizing past color with
  | nil =>
    refine ⟨.ok false, rfl, fun id hid => h.black id ?_⟩
    have hpast := ((hall id).1 hid).resolve_right List.not_mem_nil
    cases hcolor : color id with
    | white => exact absurd hcolor (h.past id hpast)
    | gray => exact absurd ((h.gray id).1 hcolor) List.not_mem_nil
    | black => rfl
  | cons start rest ih =>
    have hmember : start ∈ listed := (hall start).2 (.inr List.mem_cons_self)
    have hall' (id : ObjectId) : id ∈ listed ↔ id ∈ start :: past ∨ id ∈ rest := by
      rw [hall, List.mem_cons, List.mem_cons]
      tauto
    rw [hasCycleFrom]
    by_cases hwhite : color start = .white
    · rw [if_neg (not_not.2 hwhite), hcancel, if_neg Bool.false_ne_true]
      cases hadjacency : adjacency start with
      | error raised => exact ⟨_, rfl, fails_of_adjacency hmember hadjacency⟩
      | ok neighbors =>
        dsimp only
        have hstart := h.start hmember hadjacency
        have hwhites : whites listed (Function.update color start .gray) ≤ listed.card :=
          Finset.card_filter_le _ _
        have hmeasure : 2 * whites listed (Function.update color start .gray) +
            [CycleFrame.mk start neighbors].length < fuel := by
          rw [List.length_singleton]
          omega
        obtain ⟨left, hrun, hend⟩ := hstart.search hcancel hskip hmeasure
        rw [hrun]
        rcases left with (error | cyclic) | color
        · exact ⟨_, rfl, hend⟩
        · obtain ⟨rfl, hcycle⟩ := hend
          exact ⟨_, rfl, hcycle⟩
        · exact ih hend hall'
    · rw [if_pos hwhite]
      have hnext : Coloured listed adjacency resolve options (start :: past) color [] := by
        refine ⟨fun id hid => ?_, h.within, h.black, h.gray, h.nodup, h.chain, h.pending⟩
        rcases List.mem_cons.1 hid with rfl | hid
        · exact hwhite
        · exact h.past id hid
      exact ih hnext hall'

theorem hasCycle_ends (vertices : List ObjectId) (adjacency : AdjacencyFn) (resolve : Option ResolveFn)
    (hcancel : cancelled options = false) (hskip : options.dangling = .skip) :
    ∃ enough result, (∀ fuel ≥ enough, hasCycle fuel vertices (some adjacency) options resolve = some result) ∧
      CycleAnswer vertices.toFinset adjacency resolve options result := by
  have hwhite : Coloured vertices.toFinset adjacency resolve options [] (fun _ => .white) [] :=
    coloured_white
  have hall (id : ObjectId) : id ∈ vertices.toFinset ↔ id ∈ ([] : List ObjectId) ∨ id ∈ vertices := by
    rw [List.mem_toFinset]
    exact (or_iff_right List.not_mem_nil).symm
  obtain ⟨result, hrun, hanswer⟩ := hasCycleFrom_ends hcancel hskip hwhite hall (Nat.lt_succ_self _)
  exact ⟨_, result, fun fuel hfuel => hasCycleFrom_mono hrun hfuel, hanswer⟩

theorem not_transGen_of_acc {r : ObjectId → ObjectId → Prop} {id : ObjectId}
    (h : Acc (Function.swap r) id) : ¬Relation.TransGen r id id := by
  have hacc : Acc (Relation.TransGen (Function.swap r)) id := h.transGen
  clear h
  induction hacc with
  | intro id _ ih =>
    intro hcycle
    exact ih id (Relation.transGen_swap.2 hcycle) hcycle

end MoDb.Graph
