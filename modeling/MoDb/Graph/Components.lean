import MoDb.Graph.BreadthFirst
import Mathlib.Data.List.Sort

/-!
# Connected components

`connected_components` searches breadth-first from each listed vertex not seen before, among the listed
vertices only. With edges in both directions what one search finds is a whole component: no vertex of it
has been seen by an earlier one.
-/

namespace MoDb.Graph

open Search

structure ComponentSearch where
  seen : Finset ObjectId
  queue : List ObjectId
  component : List ObjectId

def componentNeighbors (listed : Finset ObjectId) (options : TraversalOptions) (resolve : Option ResolveFn) :
    List ObjectId → ComponentSearch → Except Error ComponentSearch
  | [], state => .ok state
  | neighbor :: rest, state =>
    if neighbor ∉ listed then componentNeighbors listed options resolve rest state
    else
      match acceptNeighbor neighbor resolve options.dangling with
      | .error error => .error error
      | .ok accept =>
        if !accept then componentNeighbors listed options resolve rest state
        else if neighbor ∈ state.seen then componentNeighbors listed options resolve rest state
        else
          componentNeighbors listed options resolve rest
            { state with seen := insert neighbor state.seen, queue := state.queue ++ [neighbor] }

def componentTurn (listed : Finset ObjectId) (adjacency : AdjacencyFn) (options : TraversalOptions)
    (resolve : Option ResolveFn) (state : ComponentSearch) : Except Error ComponentSearch ⊕ ComponentSearch :=
  match state.queue with
  | [] => .inl (.ok state)
  | current :: queue =>
    if cancelled options then .inl (.error ⟨.invalidArgument, "connected_components cancelled"⟩)
    else
      let state := { state with queue := queue, component := state.component ++ [current] }
      match adjacency current with
      | .error error => .inl (.error error)
      | .ok neighbors =>
        match componentNeighbors listed options resolve neighbors state with
        | .error error => .inl (.error error)
        | .ok state => .inr state

def componentsFrom (fuel : Nat) (listed : Finset ObjectId) (adjacency : AdjacencyFn)
    (options : TraversalOptions) (resolve : Option ResolveFn) :
    List ObjectId → Finset ObjectId → List (List ObjectId) → Option (Except Error (List (List ObjectId)))
  | [], _, components => some (.ok components)
  | start :: rest, seen, components =>
    if start ∈ seen then componentsFrom fuel listed adjacency options resolve rest seen components
    else if cancelled options then some (.error ⟨.invalidArgument, "connected_components cancelled"⟩)
    else
      match Loop.run (componentTurn listed adjacency options resolve) fuel
        { seen := insert start seen, queue := [start], component := [] } with
      | none => none
      | some (.error error) => some (.error error)
      | some (.ok state) =>
        componentsFrom fuel listed adjacency options resolve rest state.seen
          (components ++ [state.component.insertionSort (· ≤ ·)])

/-- The order of the components: by the first vertex, and an empty one before the others. -/
def before : List ObjectId → List ObjectId → Bool
  | [], b => !b.isEmpty
  | _ :: _, [] => false
  | x :: _, y :: _ => x < y

def connectedComponents (fuel : Nat) (vertices : List ObjectId) (adjacency : Option AdjacencyFn)
    (options : TraversalOptions) (resolve : Option ResolveFn) :
    Option (Except Error (List (List ObjectId))) :=
  match adjacency with
  | none => some (.error ⟨.invalidArgument, "adjacency function is empty"⟩)
  | some adjacency =>
    (componentsFrom fuel vertices.toFinset adjacency options resolve vertices ∅ []).map fun result =>
      result.map fun components => components.insertionSort fun a b => !before b a

variable {neighbors : ObjectId → List ObjectId} {resolve : Option ResolveFn} {options : TraversalOptions}
  {listed : Finset ObjectId} {start : ObjectId}

/-! ### One component -/

def Linked (listed : Finset ObjectId) (neighbors : ObjectId → List ObjectId) (a b : ObjectId) : Prop :=
  a ∈ listed ∧ b ∈ listed ∧ b ∈ neighbors a

/-- The state of the search from `start`, where `old` had been seen before. -/
structure ComponentSearch.Grows (listed : Finset ObjectId) (neighbors : ObjectId → List ObjectId)
    (start : ObjectId) (old : Finset ObjectId) (state : ComponentSearch) : Prop where
  root : start ∈ state.component ++ state.queue
  mem_seen : ∀ id, id ∈ state.seen ↔ id ∈ old ∨ id ∈ state.component ++ state.queue
  nodup : (state.component ++ state.queue).Nodup
  new : ∀ id ∈ state.component ++ state.queue, id ∉ old
  within : ∀ id ∈ state.component ++ state.queue, id ∈ listed
  reached : ∀ id ∈ state.component ++ state.queue, Relation.ReflTransGen (Linked listed neighbors) start id
  closed : ∀ id ∈ state.component, ∀ next, Linked listed neighbors id next →
    next ∈ state.component ++ state.queue

theorem componentNeighbors_eq (haccepts : ∀ id ∈ listed, acceptNeighbor id resolve options.dangling = .ok true)
    (places : List ObjectId) (state : ComponentSearch) :
    componentNeighbors listed options resolve places state =
      .ok { state with
        seen := state.seen ∪ (discover state.seen (places.filter (· ∈ listed))).toFinset
        queue := state.queue ++ discover state.seen (places.filter (· ∈ listed)) } := by
  induction places generalizing state with
  | nil => simp [componentNeighbors, discover]
  | cons place rest ih =>
    rw [componentNeighbors]
    by_cases hmember : place ∈ listed
    · have hfilter : (place :: rest).filter (· ∈ listed) = place :: rest.filter (· ∈ listed) :=
        List.filter_cons_of_pos (by simpa using hmember)
      rw [if_neg (not_not.2 hmember), haccepts place hmember, hfilter]
      dsimp only
      rw [if_neg (by decide)]
      by_cases hseen : place ∈ state.seen
      · rw [if_pos hseen, discover_cons_of_mem hseen]
        exact ih state
      · rw [if_neg hseen, discover_cons_of_notMem hseen, ih]
        have hunion (found : List ObjectId) : insert place state.seen ∪ found.toFinset =
            state.seen ∪ (place :: found).toFinset := by
          rw [List.toFinset_cons, Finset.insert_union, Finset.union_insert]
        dsimp only
        rw [hunion, List.append_assoc, List.singleton_append]
    · have hfilter : (place :: rest).filter (· ∈ listed) = rest.filter (· ∈ listed) :=
        List.filter_cons_of_neg (by simpa using hmember)
      rw [if_pos hmember, hfilter]
      exact ih state

section Search

variable {old : Finset ObjectId} {state : ComponentSearch}

theorem grows_start (hmember : start ∈ listed) (hnew : start ∉ old) :
    ComponentSearch.Grows listed neighbors start old
      { seen := insert start old, queue := [start], component := [] } := by
  refine ⟨List.mem_singleton_self _, fun id => ?_, List.nodup_singleton _, ?_, ?_, ?_, ?_⟩
  · rw [Finset.mem_insert]
    exact or_comm.trans (or_congr_right List.mem_singleton.symm)
  · intro id hid
    rw [List.mem_singleton.1 hid]
    exact hnew
  · intro id hid
    rw [List.mem_singleton.1 hid]
    exact hmember
  · intro id hid
    rw [List.mem_singleton.1 hid]
  · intro id hid
    cases hid

theorem ComponentSearch.Grows.length_le (h : state.Grows listed neighbors start old) :
    state.component.length ≤ listed.card := by
  rw [← List.toFinset_card_of_nodup h.nodup.of_append_left]
  apply Finset.card_le_card
  intro id hid
  exact h.within id (List.mem_append_left _ (List.mem_toFinset.1 hid))

theorem ComponentSearch.Grows.expand {current : ObjectId} {queue : List ObjectId}
    (hsymm : ∀ a b, Linked listed neighbors a b → Linked listed neighbors b a)
    (hold : ∀ a ∈ old, ∀ b, Linked listed neighbors a b → b ∈ old)
    (h : state.Grows listed neighbors start old) (hqueue : state.queue = current :: queue)
    {found : List ObjectId} (hfound : found = discover state.seen ((neighbors current).filter (· ∈ listed))) :
    ComponentSearch.Grows listed neighbors start old
      { seen := state.seen ∪ found.toFinset, queue := queue ++ found,
        component := state.component ++ [current] } := by
  have happ : state.component ++ [current] ++ (queue ++ found) =
      state.component ++ state.queue ++ found := by
    rw [hqueue]
    simp
  have hcurrent : current ∈ state.component ++ state.queue := by
    rw [hqueue]
    exact List.mem_append_right _ List.mem_cons_self
  have hlinked (id : ObjectId) (hid : id ∈ found) : Linked listed neighbors current id ∧ id ∉ state.seen := by
    rw [hfound, mem_discover, List.mem_filter, decide_eq_true_iff] at hid
    exact ⟨⟨h.within current hcurrent, hid.1.2, hid.1.1⟩, hid.2⟩
  have hfresh (id : ObjectId) (hid : id ∈ found) : id ∉ old ∧ id ∉ state.component ++ state.queue :=
    not_or.1 fun hor => (hlinked id hid).2 ((h.mem_seen id).2 hor)
  refine ⟨?_, fun id => ?_, ?_, ?_, ?_, ?_, ?_⟩
  · dsimp only
    rw [happ]
    exact List.mem_append_left _ h.root
  · dsimp only
    rw [happ, Finset.mem_union, h.mem_seen, List.mem_toFinset, or_assoc, ← List.mem_append]
  · dsimp only
    rw [happ]
    have hnodup : found.Nodup := by
      rw [hfound]
      exact nodup_discover
    exact h.nodup.append hnodup fun id hid hnew => (hfresh id hnew).2 hid
  · intro id hid
    dsimp only at hid
    rw [happ] at hid
    rcases List.mem_append.1 hid with hid | hid
    · exact h.new id hid
    · exact (hfresh id hid).1
  · intro id hid
    dsimp only at hid
    rw [happ] at hid
    rcases List.mem_append.1 hid with hid | hid
    · exact h.within id hid
    · exact (hlinked id hid).1.2.1
  · intro id hid
    dsimp only at hid
    rw [happ] at hid
    rcases List.mem_append.1 hid with hid | hid
    · exact h.reached id hid
    · exact (h.reached current hcurrent).tail (hlinked id hid).1
  · intro id hid next hnext
    dsimp only at hid ⊢
    rw [happ]
    rcases List.mem_append.1 hid with hid | hid
    · exact List.mem_append_left _ (h.closed id hid next hnext)
    · rw [List.mem_singleton.1 hid] at hnext
      by_cases hseen : next ∈ state.seen
      · rcases (h.mem_seen next).1 hseen with hnext' | hnext'
        · -- Then the current vertex would have been seen by an earlier search as well.
          exact absurd (hold next hnext' current (hsymm _ _ hnext)) (h.new current hcurrent)
        · exact List.mem_append_left _ hnext'
      · apply List.mem_append_right
        rw [hfound, mem_discover, List.mem_filter, decide_eq_true_iff]
        exact ⟨⟨hnext.2.2, hnext.2.1⟩, hseen⟩

theorem run_componentTurn (hcancel : cancelled options = false)
    (haccepts : ∀ id ∈ listed, acceptNeighbor id resolve options.dangling = .ok true)
    (hsymm : ∀ a b, Linked listed neighbors a b → Linked listed neighbors b a)
    (hold : ∀ a ∈ old, ∀ b, Linked listed neighbors a b → b ∈ old) (hmember : start ∈ listed)
    (hnew : start ∉ old) {fuel : Nat} (hfuel : listed.card < fuel) :
    ∃ last : ComponentSearch,
      Loop.run (componentTurn listed (fun id => .ok (neighbors id)) options resolve) fuel
        { seen := insert start old, queue := [start], component := [] } = some (.ok last) ∧
      last.Grows listed neighbors start old ∧ last.queue = [] := by
  have hturn (state : ComponentSearch) {current : ObjectId} {queue : List ObjectId}
      (hqueue : state.queue = current :: queue) :
      componentTurn listed (fun id => .ok (neighbors id)) options resolve state =
        .inr { seen := state.seen ∪ (discover state.seen ((neighbors current).filter (· ∈ listed))).toFinset
               queue := queue ++ discover state.seen ((neighbors current).filter (· ∈ listed))
               component := state.component ++ [current] } := by
    rw [componentTurn, hqueue]
    dsimp only
    rw [hcancel, if_neg Bool.false_ne_true, componentNeighbors_eq haccepts]
  have hstep : ∀ state next : ComponentSearch, state.Grows listed neighbors start old →
      componentTurn listed (fun id => .ok (neighbors id)) options resolve state = .inr next →
      next.Grows listed neighbors start old ∧
        listed.card - next.component.length < listed.card - state.component.length := by
    intro state next h heq
    cases hqueue : state.queue with
    | nil =>
      rw [componentTurn, hqueue] at heq
      cases heq
    | cons current queue =>
      rw [hturn state hqueue] at heq
      have hnext := h.expand hsymm hold hqueue rfl
      rw [← Sum.inr.inj heq]
      refine ⟨hnext, ?_⟩
      have hle := hnext.length_le
      dsimp only at hle ⊢
      rw [List.length_append, List.length_singleton] at hle ⊢
      omega
  obtain ⟨result, last, hrun, hlast, heq⟩ := Loop.run_ends _
    (fun state : ComponentSearch => listed.card - state.component.length) hstep
    (grows_start hmember hnew) hfuel
  cases hqueue : last.queue with
  | nil =>
    rw [componentTurn, hqueue] at heq
    refine ⟨last, ?_, hlast, hqueue⟩
    rw [Sum.inl.inj heq]
    exact hrun
  | cons current queue =>
    rw [hturn last hqueue] at heq
    cases heq

theorem ComponentSearch.Grows.mem_component_iff (h : state.Grows listed neighbors start old)
    (hqueue : state.queue = []) (id : ObjectId) :
    id ∈ state.component ↔ Relation.ReflTransGen (Linked listed neighbors) start id := by
  have happ : state.component ++ state.queue = state.component := by rw [hqueue, List.append_nil]
  constructor
  · intro hid
    exact h.reached id (happ.symm ▸ hid)
  · intro hpath
    induction hpath with
    | refl => exact happ ▸ h.root
    | tail _ hlast ih => exact happ ▸ h.closed _ ih _ hlast

end Search

/-! ### All components -/

theorem reflTransGen_symm {r : ObjectId → ObjectId → Prop} (hsymm : ∀ a b, r a b → r b a) {a b : ObjectId}
    (h : Relation.ReflTransGen r a b) : Relation.ReflTransGen r b a := by
  induction h with
  | refl => exact .refl
  | tail _ hlast ih => exact .head (hsymm _ _ hlast) ih

/-- The components found so far, each with all that can be reached from any of its vertices. -/
structure Whole (listed : Finset ObjectId) (neighbors : ObjectId → List ObjectId) (seen : Finset ObjectId)
    (components : List (List ObjectId)) : Prop where
  mem_seen : ∀ id, id ∈ seen ↔ id ∈ components.flatten
  within : ∀ id ∈ seen, id ∈ listed
  nodup : components.flatten.Nodup
  ne_nil : ∀ component ∈ components, component ≠ []
  increasing : ∀ component ∈ components, component.Pairwise (· < ·)
  reach : ∀ component ∈ components, ∀ a ∈ component, ∀ b,
    b ∈ component ↔ Relation.ReflTransGen (Linked listed neighbors) a b

theorem Whole.closed {seen : Finset ObjectId} {components : List (List ObjectId)}
    (h : Whole listed neighbors seen components) {a b : ObjectId} (ha : a ∈ seen)
    (hlink : Linked listed neighbors a b) : b ∈ seen := by
  obtain ⟨component, hcomponent, hmem⟩ := List.mem_flatten.1 ((h.mem_seen a).1 ha)
  rw [h.mem_seen]
  exact List.mem_flatten.2 ⟨component, hcomponent, (h.reach component hcomponent a hmem b).2 (.single hlink)⟩

theorem pairwise_lt_insertionSort {ids : List ObjectId} (h : ids.Nodup) :
    (ids.insertionSort (· ≤ ·)).Pairwise (· < ·) := by
  have hle : (ids.insertionSort (· ≤ ·)).Pairwise (· ≤ ·) := List.pairwise_insertionSort _ _
  have hne : (ids.insertionSort (· ≤ ·)).Pairwise (· ≠ ·) :=
    ((List.perm_insertionSort _ ids).nodup_iff).2 h
  exact (hle.and hne).imp fun hab => UInt64.lt_of_le_of_ne hab.1 hab.2

theorem Whole.concat {seen : Finset ObjectId} {components : List (List ObjectId)}
    (hsymm : ∀ a b, Linked listed neighbors a b → Linked listed neighbors b a)
    (h : Whole listed neighbors seen components) {state : ComponentSearch}
    (hgrows : state.Grows listed neighbors start seen) (hqueue : state.queue = []) :
    Whole listed neighbors state.seen (components ++ [state.component.insertionSort (· ≤ ·)]) := by
  have happ : state.component ++ state.queue = state.component := by rw [hqueue, List.append_nil]
  have hperm := List.perm_insertionSort (· ≤ ·) state.component
  have hflatten (id : ObjectId) : id ∈ (components ++ [state.component.insertionSort (· ≤ ·)]).flatten ↔
      id ∈ components.flatten ∨ id ∈ state.component := by
    rw [List.flatten_append, List.mem_append, List.flatten_singleton, hperm.mem_iff]
  have hcases {component : List ObjectId}
      (hcomponent : component ∈ components ++ [state.component.insertionSort (· ≤ ·)]) :
      component ∈ components ∨ component = state.component.insertionSort (· ≤ ·) := by
    rwa [List.mem_append, List.mem_singleton] at hcomponent
  refine ⟨fun id => ?_, fun id hid => ?_, ?_, fun component hcomponent => ?_, fun component hcomponent => ?_,
    fun component hcomponent => ?_⟩
  · rw [hgrows.mem_seen, hflatten, happ, h.mem_seen]
  · rcases (hgrows.mem_seen id).1 hid with hid | hid
    · exact h.within id hid
    · exact hgrows.within id hid
  · rw [List.flatten_append, List.flatten_singleton]
    apply h.nodup.append (hperm.nodup_iff.2 (happ ▸ hgrows.nodup))
    intro id hid hnew
    exact hgrows.new id (happ.symm ▸ hperm.mem_iff.1 hnew) ((h.mem_seen id).2 hid)
  · rcases hcases hcomponent with hcomponent | rfl
    · exact h.ne_nil component hcomponent
    · intro hnil
      have hroot : start ∈ state.component.insertionSort (· ≤ ·) := hperm.mem_iff.2 (happ ▸ hgrows.root)
      rw [hnil] at hroot
      cases hroot
  · rcases hcases hcomponent with hcomponent | rfl
    · exact h.increasing component hcomponent
    · exact pairwise_lt_insertionSort (happ ▸ hgrows.nodup)
  · rcases hcases hcomponent with hcomponent | rfl
    · exact h.reach component hcomponent
    · intro a ha b
      rw [hperm.mem_iff, hgrows.mem_component_iff hqueue] at ha ⊢
      exact ⟨(reflTransGen_symm hsymm ha).trans, ha.trans⟩

theorem componentsFrom_mono {adjacency : AdjacencyFn} {fuel fuel' : Nat} {rest : List ObjectId}
    {seen : Finset ObjectId} {components : List (List ObjectId)}
    {result : Except Error (List (List ObjectId))}
    (h : componentsFrom fuel listed adjacency options resolve rest seen components = some result)
    (hle : fuel ≤ fuel') :
    componentsFrom fuel' listed adjacency options resolve rest seen components = some result := by
  induction rest generalizing seen components with
  | nil => exact h
  | cons start rest ih =>
    rw [componentsFrom] at h ⊢
    split
    · rename_i hseen
      rw [if_pos hseen] at h
      exact ih h
    · rename_i hseen
      rw [if_neg hseen] at h
      split
      · rename_i hcancel
        rwa [if_pos hcancel] at h
      · rename_i hcancel
        rw [if_neg hcancel] at h
        cases hrun : Loop.run (componentTurn listed adjacency options resolve) fuel
            { seen := insert start seen, queue := [start], component := [] } with
        | none =>
          rw [hrun] at h
          cases h
        | some left =>
          rw [hrun] at h
          rw [Loop.run_mono hrun hle]
          cases left with
          | error error => exact h
          | ok state => exact ih h

theorem componentsFrom_ends (hcancel : cancelled options = false)
    (haccepts : ∀ id ∈ listed, acceptNeighbor id resolve options.dangling = .ok true)
    (hsymm : ∀ a b, Linked listed neighbors a b → Linked listed neighbors b a) {rest : List ObjectId}
    {seen : Finset ObjectId} {components : List (List ObjectId)} (hrest : ∀ id ∈ rest, id ∈ listed)
    (h : Whole listed neighbors seen components) {fuel : Nat} (hfuel : listed.card < fuel) :
    ∃ components' seen', componentsFrom fuel listed (fun id => .ok (neighbors id)) options resolve rest seen
        components = some (.ok components') ∧
      Whole listed neighbors seen' components' ∧ (∀ id ∈ rest, id ∈ seen') ∧ ∀ id ∈ seen, id ∈ seen' := by
  induction rest generalizing seen components with
  | nil => exact ⟨components, seen, rfl, h, fun id hid => absurd hid List.not_mem_nil, fun id hid => hid⟩
  | cons start rest ih =>
    have hmember := hrest start List.mem_cons_self
    have hrest' (id : ObjectId) (hid : id ∈ rest) : id ∈ listed := hrest id (List.mem_cons_of_mem _ hid)
    rw [componentsFrom]
    by_cases hseen : start ∈ seen
    · rw [if_pos hseen]
      obtain ⟨components', seen', hrun, hwhole, hall, hkept⟩ := ih hrest' h
      refine ⟨components', seen', hrun, hwhole, fun id hid => ?_, hkept⟩
      rcases List.mem_cons.1 hid with rfl | hid
      · exact hkept _ hseen
      · exact hall id hid
    · rw [if_neg hseen, hcancel, if_neg Bool.false_ne_true]
      obtain ⟨last, hlast, hgrows, hqueue⟩ := @run_componentTurn neighbors resolve options listed start seen
        hcancel haccepts hsymm (fun a ha b hlink => h.closed ha hlink) hmember hseen fuel hfuel
      rw [hlast]
      dsimp only
      obtain ⟨components', seen', hrun, hwhole, hall, hkept⟩ := ih hrest' (h.concat hsymm hgrows hqueue)
      refine ⟨components', seen', hrun, hwhole, fun id hid => ?_, fun id hid => ?_⟩
      · rcases List.mem_cons.1 hid with rfl | hid
        · exact hkept _ ((hgrows.mem_seen _).2 (.inr hgrows.root))
        · exact hall id hid
      · exact hkept id ((hgrows.mem_seen id).2 (.inl hid))

/-! ### Their order -/

theorem not_before_iff {a b : List ObjectId} : (!before b a) = true ↔
    a = [] ∨ ∃ x y xs ys, a = x :: xs ∧ b = y :: ys ∧ x ≤ y := by
  cases a with
  | nil =>
    refine iff_of_true ?_ (.inl rfl)
    cases b <;> rfl
  | cons x xs =>
    cases b with
    | nil =>
      refine iff_of_false Bool.false_ne_true ?_
      · rintro (hnil | ⟨_, _, _, _, _, hnil, _⟩)
        · cases hnil
        · cases hnil
    | cons y ys =>
      rw [before, Bool.not_eq_true', decide_eq_false_iff_not, UInt64.not_lt]
      constructor
      · intro hle
        exact .inr ⟨x, y, xs, ys, rfl, rfl, hle⟩
      · rintro (hnil | ⟨_, _, _, _, ha, hb, hle⟩)
        · cases hnil
        · cases ha
          cases hb
          exact hle

instance : Std.Total fun a b : List ObjectId => (!before b a) = true := by
  refine ⟨fun a b => ?_⟩
  rw [not_before_iff, not_before_iff]
  cases a with
  | nil => exact .inl (.inl rfl)
  | cons x xs =>
    cases b with
    | nil => exact .inr (.inl rfl)
    | cons y ys =>
      rcases UInt64.le_total x y with hle | hle
      · exact .inl (.inr ⟨x, y, xs, ys, rfl, rfl, hle⟩)
      · exact .inr (.inr ⟨y, x, ys, xs, rfl, rfl, hle⟩)

instance : IsTrans (List ObjectId) fun a b => (!before b a) = true := by
  refine ⟨fun a b c hab hbc => ?_⟩
  rw [not_before_iff] at hab hbc ⊢
  rcases hab with ha | ⟨x, y, xs, ys, ha, hb, hxy⟩
  · exact .inl ha
  · rcases hbc with hnil | ⟨y', z, ys', zs, hb', hc, hyz⟩
    · rw [hb] at hnil
      cases hnil
    · rw [hb] at hb'
      cases hb'
      exact .inr ⟨x, z, xs, zs, ha, hc, UInt64.le_trans hxy hyz⟩

theorem pairwise_first {components : List (List ObjectId)} (hnodup : components.flatten.Nodup)
    (hne : ∀ component ∈ components, component ≠ []) :
    (components.insertionSort fun a b => !before b a).Pairwise
      fun a b => ∃ x y xs ys, a = x :: xs ∧ b = y :: ys ∧ x < y := by
  have hperm := List.perm_insertionSort (fun a b : List ObjectId => (!before b a) = true) components
  have hsorted := List.pairwise_insertionSort (fun a b : List ObjectId => (!before b a) = true) components
  have hapart : (components.insertionSort fun a b => !before b a).Pairwise List.Disjoint :=
    (List.nodup_flatten.1 (hperm.flatten.nodup_iff.2 hnodup)).2
  apply (hsorted.and hapart).imp_of_mem
  rintro a b ha hb ⟨hle, hdisjoint⟩
  rcases not_before_iff.1 hle with hnil | ⟨x, y, xs, ys, rfl, rfl, hxy⟩
  · exact absurd hnil (hne a (hperm.mem_iff.1 ha))
  · refine ⟨x, y, xs, ys, rfl, rfl, UInt64.lt_of_le_of_ne hxy ?_⟩
    rintro rfl
    exact hdisjoint List.mem_cons_self List.mem_cons_self

/-- With edges in both directions, and every listed vertex accepted, the result of `connected_components` is
the partition of the listed vertices by what can be reached through listed ones; the vertices increase in
each component, and the components are in the order of their smallest ones. -/
theorem connectedComponents_partition (vertices : List ObjectId) (neighbors : ObjectId → List ObjectId)
    (resolve : Option ResolveFn) (options : TraversalOptions)
    (haccepts : ∀ fn, resolve = some fn → ∀ id ∈ vertices, fn id = .ok true)
    (hsymm : ∀ a ∈ vertices, ∀ b ∈ vertices, b ∈ neighbors a → a ∈ neighbors b) :
    ∃ enough result, (∀ fuel ≥ enough,
        connectedComponents fuel vertices (some fun id => .ok (neighbors id)) options resolve = some result) ∧
      match result with
      | .error _ => cancelled options = true
      | .ok components =>
          components.flatten.Nodup ∧ (∀ id, id ∈ components.flatten ↔ id ∈ vertices) ∧
          (∀ component ∈ components, component ≠ [] ∧ component.Pairwise (· < ·) ∧ ∀ a ∈ component, ∀ b,
            b ∈ component ↔ Relation.ReflTransGen (Linked vertices.toFinset neighbors) a b) ∧
          components.Pairwise fun c d => ∃ x y xs ys, c = x :: xs ∧ d = y :: ys ∧ x < y := by
  have haccepts' : ∀ id ∈ vertices.toFinset, acceptNeighbor id resolve options.dangling = .ok true := by
    intro id hid
    cases resolve with
    | none => rfl
    | some fn => rw [acceptNeighbor, haccepts fn rfl id (List.mem_toFinset.1 hid)]
  have hsymm' (a b : ObjectId) (h : Linked vertices.toFinset neighbors a b) :
      Linked vertices.toFinset neighbors b a :=
    ⟨h.2.1, h.1, hsymm a (List.mem_toFinset.1 h.1) b (List.mem_toFinset.1 h.2.1) h.2.2⟩
  by_cases hcancelled : cancelled options = true
  · cases vertices with
    | nil =>
      refine ⟨0, .ok [], fun fuel _ => rfl, List.nodup_nil, fun id => Iff.rfl, ?_, List.Pairwise.nil⟩
      intro component hcomponent
      cases hcomponent
    | cons start rest =>
      refine ⟨0, .error ⟨.invalidArgument, "connected_components cancelled"⟩, fun fuel _ => ?_, hcancelled⟩
      rw [connectedComponents, componentsFrom, if_neg (Finset.notMem_empty start), hcancelled, if_pos rfl]
      rfl
  have hcancel : cancelled options = false := Bool.eq_false_iff.2 hcancelled
  have hstart : Whole vertices.toFinset neighbors ∅ [] := by
    refine ⟨fun id => ?_, fun id hid => absurd hid (Finset.notMem_empty id), List.nodup_nil, ?_, ?_, ?_⟩
    · exact iff_of_false (Finset.notMem_empty id) List.not_mem_nil
    · intro component hcomponent
      cases hcomponent
    · intro component hcomponent
      cases hcomponent
    · intro component hcomponent
      cases hcomponent
  obtain ⟨components, seen, hrun, hwhole, hall, _⟩ := componentsFrom_ends hcancel haccepts' hsymm'
    (fun id hid => List.mem_toFinset.2 hid) hstart (Nat.lt_succ_self _)
  have hperm := List.perm_insertionSort (fun a b : List ObjectId => (!before b a) = true) components
  refine ⟨vertices.toFinset.card + 1, .ok (components.insertionSort fun a b => !before b a),
    fun fuel hfuel => ?_, hperm.flatten.nodup_iff.2 hwhole.nodup, fun id => ?_, fun component hcomponent => ?_,
    pairwise_first hwhole.nodup hwhole.ne_nil⟩
  · rw [connectedComponents, componentsFrom_mono hrun hfuel]
    rfl
  · rw [hperm.flatten.mem_iff, ← hwhole.mem_seen]
    exact ⟨fun hid => List.mem_toFinset.1 (hwhole.within id hid), hall id⟩
  · have hmem := hperm.mem_iff.1 hcomponent
    exact ⟨hwhole.ne_nil component hmem, hwhole.increasing component hmem, hwhole.reach component hmem⟩

theorem connectedComponents_partition_ring : ∃ enough result, ∀ fuel ≥ enough,
    connectedComponents fuel [3, 1, 2, 1] (some fun id => .ok (if id = 2 then [4] else [1, 3])) {} none =
      some result := by
  have hsymm : ∀ a ∈ ([3, 1, 2, 1] : List ObjectId), ∀ b ∈ ([3, 1, 2, 1] : List ObjectId),
      b ∈ (if a = 2 then [4] else [1, 3] : List ObjectId) → a ∈ (if b = 2 then [4] else [1, 3] : List ObjectId) := by
    simp
  obtain ⟨enough, result, hrun, _⟩ := connectedComponents_partition [3, 1, 2, 1]
    (fun id => if id = 2 then [4] else [1, 3]) none {} (fun fn hfn => by cases hfn) hsymm
  exact ⟨enough, result, hrun⟩

end MoDb.Graph
