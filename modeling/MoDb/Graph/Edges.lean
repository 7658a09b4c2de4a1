import MoDb.Graph.Traversal

/-!
# The edges a search follows

With the policy to skip, a search follows an edge to each neighbour that resolves and leaves out those
that dangle. Any other error of a callback ends it: `Raised` is the error met where a place is expanded.
-/

namespace MoDb.Graph

variable {adjacency : AdjacencyFn} {resolve : Option ResolveFn} {policy : DanglingPolicy}
  {options : TraversalOptions} {place neighbor : ObjectId} {neighbors : List ObjectId} {error : Error}

def accepts (resolve : Option ResolveFn) (policy : DanglingPolicy) (neighbor : ObjectId) : Bool :=
  match acceptNeighbor neighbor resolve policy with
  | .ok accept => accept
  | .error _ => false

def Edge (adjacency : AdjacencyFn) (resolve : Option ResolveFn) (policy : DanglingPolicy)
    (place neighbor : ObjectId) : Prop :=
  ∃ neighbors, adjacency place = .ok neighbors ∧ neighbor ∈ neighbors ∧
    acceptNeighbor neighbor resolve policy = .ok true

/-- The errors that end an expansion: those of the adjacency function, and those of the resolve function
that do not say that its target is missing. -/
inductive Raised (adjacency : AdjacencyFn) (resolve : Option ResolveFn) (place : ObjectId) : Error → Prop
  | adjacency {error : Error} (h : adjacency place = .error error) : Raised adjacency resolve place error
  | resolve {error : Error} {neighbors : List ObjectId} {neighbor : ObjectId} {fn : ResolveFn}
      (h : adjacency place = .ok neighbors) (hmem : neighbor ∈ neighbors) (hresolve : resolve = some fn)
      (hfn : fn neighbor = .error error) (htarget : error.code ≠ .edgeTargetNotFound)
      (hrecord : error.code ≠ .recordNotFound) : Raised adjacency resolve place error

theorem accepts_iff : accepts resolve policy neighbor = true ↔
    acceptNeighbor neighbor resolve policy = .ok true := by
  unfold accepts
  cases acceptNeighbor neighbor resolve policy with
  | ok accept => simp
  | error error => simp

theorem raised_of_acceptNeighbor (h : adjacency place = .ok neighbors) (hmem : neighbor ∈ neighbors)
    (herror : acceptNeighbor neighbor resolve .skip = .error error) : Raised adjacency resolve place error := by
  cases hresolve : resolve with
  | none =>
    rw [hresolve] at herror
    cases herror
  | some fn =>
    subst hresolve
    rw [acceptNeighbor] at herror
    cases hfn : fn neighbor with
    | ok ok =>
      rw [hfn] at herror
      cases herror
    | error raised =>
      rw [hfn] at herror
      dsimp only at herror
      split at herror
      · rename_i hcode
        rw [Except.error.inj herror] at hfn hcode
        exact .resolve h hmem rfl hfn hcode.1 hcode.2
      · cases herror

def refusal (resolve : Option ResolveFn) (policy : DanglingPolicy) (neighbors : List ObjectId) : Option Error :=
  neighbors.findSome? fun neighbor =>
    match acceptNeighbor neighbor resolve policy with
    | .ok _ => none
    | .error error => some error

theorem refusal_cons_of_ok {accept : Bool} {rest : List ObjectId}
    (h : acceptNeighbor neighbor resolve policy = .ok accept) :
    refusal resolve policy (neighbor :: rest) = refusal resolve policy rest := by
  rw [refusal, List.findSome?_cons, h]
  rfl

theorem refusal_cons_of_error {rest : List ObjectId}
    (h : acceptNeighbor neighbor resolve policy = .error error) :
    refusal resolve policy (neighbor :: rest) = some error := by
  rw [refusal, List.findSome?_cons, h]

theorem raised_of_refusal (h : adjacency place = .ok neighbors)
    (hrefusal : refusal resolve .skip neighbors = some error) : Raised adjacency resolve place error := by
  obtain ⟨neighbor, hmem, hsome⟩ := List.exists_of_findSome?_eq_some hrefusal
  apply raised_of_acceptNeighbor h hmem
  split at hsome
  · cases hsome
  · rename_i raised heq
    rw [heq, Option.some.inj hsome]

def targets (resolve : Option ResolveFn) (policy : DanglingPolicy) (neighbors : List ObjectId) :
    List ObjectId :=
  neighbors.filter (accepts resolve policy)

theorem targets_cons_of_ok {accept : Bool} {rest : List ObjectId}
    (h : acceptNeighbor neighbor resolve policy = .ok accept) :
    targets resolve policy (neighbor :: rest) =
      if accept then neighbor :: targets resolve policy rest else targets resolve policy rest := by
  rw [targets, List.filter_cons]
  have haccepts : accepts resolve policy neighbor = accept := by rw [accepts, h]
  rw [haccepts]
  rfl

theorem mem_targets (h : adjacency place = .ok neighbors) :
    neighbor ∈ targets resolve policy neighbors ↔ Edge adjacency resolve policy place neighbor := by
  rw [targets, List.mem_filter, accepts_iff]
  constructor
  · intro hmem
    exact ⟨neighbors, h, hmem⟩
  · rintro ⟨neighbors', h', hmem⟩
    rw [h] at h'
    rw [Except.ok.inj h']
    exact hmem

/-! ### The depth limit -/

/-- The depth the search goes to. The depth of the next places is a 32-bit number, which comes back to
zero after the largest one: there no depth exceeds the limit. -/
def limit (options : TraversalOptions) : Option Nat :=
  if options.maxDepth = 0 ∨ options.maxDepth.toNat = 2 ^ 32 - 1 then none else some options.maxDepth.toNat

theorem depthExceeded_eq {depth : Nat} (h : Search.Within (limit options) depth) :
    depthExceeded (UInt32.ofNat depth + 1) options = true ↔ ¬Search.Within (limit options) (depth + 1) := by
  have hnext : UInt32.ofNat depth + 1 = UInt32.ofNat (depth + 1) := (UInt32.ofNat_add depth 1).symm
  rw [hnext, depthExceeded, Bool.and_eq_true, decide_eq_true_iff, decide_eq_true_iff, gt_iff_lt,
    UInt32.lt_iff_toNat_lt, UInt32.toNat_ofNat']
  by_cases hnone : options.maxDepth = 0 ∨ options.maxDepth.toNat = 2 ^ 32 - 1
  · have hlimit : limit options = none := if_pos hnone
    rw [hlimit]
    refine iff_of_false ?_ (not_not.2 Search.within_none)
    rintro ⟨hne, hlt⟩
    have := hnone.resolve_left hne
    omega
  · have hlimit : limit options = some options.maxDepth.toNat := if_neg hnone
    rw [hlimit] at h ⊢
    push Not at hnone
    have hle : depth ≤ options.maxDepth.toNat := h _ rfl
    have hlt := options.maxDepth.toNat_lt
    rw [Nat.mod_eq_of_lt (by omega)]
    constructor
    · rintro ⟨_, hdeep⟩ hwithin
      exact absurd (hwithin _ rfl) (Nat.not_le.2 hdeep)
    · intro hnot
      refine ⟨hnone.1, Nat.not_le.1 fun hle => hnot ?_⟩
      intro m hm
      rw [← Option.some.inj hm]
      exact hle

theorem within_succ_of_lt {depth : Nat} (h : Search.Within (limit options) depth)
    (hlt : UInt32.ofNat depth < options.maxDepth) : Search.Within (limit options) (depth + 1) := by
  intro m hm
  have hle := h m hm
  rw [limit] at hm
  split at hm
  · cases hm
  · rename_i hnone
    have hm' := Option.some.inj hm
    have hsmall := options.maxDepth.toNat_lt
    rw [UInt32.lt_iff_toNat_lt, UInt32.toNat_ofNat', Nat.mod_eq_of_lt (by omega)] at hlt
    omega

def Allowed (options : TraversalOptions) (length : Nat) : Prop :=
  options.maxDepth = 0 ∨ length ≤ options.maxDepth.toNat

theorem within_of_allowed {length : Nat} (h : Allowed options length) :
    Search.Within (limit options) length := by
  intro m hm
  rw [limit] at hm
  split at hm
  · cases hm
  · rename_i hnone
    rw [← Option.some.inj hm]
    exact h.resolve_left fun hzero => hnone (.inl hzero)

theorem allowed_of_within {length : Nat} (hmax : options.maxDepth.toNat ≠ 2 ^ 32 - 1)
    (h : Search.Within (limit options) length) : Allowed options length := by
  by_cases hzero : options.maxDepth = 0
  · exact .inl hzero
  · have hlimit : limit options = some options.maxDepth.toNat := if_neg (not_or.2 ⟨hzero, hmax⟩)
    exact .inr (h _ (by rw [hlimit]; rfl))

/-! ### Two graphs -/

/-- Two ways from 0 to 2, of which the longer one is looked at first, and an edge from 2 to 3. -/
def detour : AdjacencyFn
  | 0 => .ok [1, 2]
  | 1 => .ok [2]
  | 2 => .ok [3]
  | _ => .ok []

def unreadable : ResolveFn := fun id => if id = 1 then .error ⟨.ioError, ""⟩ else .ok true

def line : AdjacencyFn := fun id => .ok [id + 1]

theorem steps_line (length : Nat) :
    Search.Steps (Edge line none .skip) length 0 (UInt64.ofNat length) := by
  induction length with
  | zero => exact .refl 0
  | succ length ih =>
    refine ih.tail ⟨_, rfl, ?_, rfl⟩
    rw [UInt64.ofNat_add]
    exact List.mem_singleton_self _

theorem eq_of_steps_line {length : Nat} {id : ObjectId} (h : Search.Steps (Edge line none .skip) length 0 id) :
    id = UInt64.ofNat length := by
  induction length generalizing id with
  | zero => exact h.eq_of_zero.symm
  | succ length ih =>
    cases h with
    | tail hsteps hedge =>
      obtain ⟨neighbors, hneighbors, hmem, _⟩ := hedge
      rw [← Except.ok.inj hneighbors] at hmem
      rw [List.mem_singleton.1 hmem, ih hsteps, UInt64.ofNat_add]
      rfl

end MoDb.Graph
