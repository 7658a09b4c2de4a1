import MoDb.Error
import Mathlib.Data.List.Perm.Basic
import Mathlib.Data.List.Nodup
import Mathlib.Logic.Function.Basic

/-!
# The buffer pool

Each cached page has a frame, a node of one of two linked lists: `held` for those that are dirty or pinned,
`entries` for those that may be evicted, the least recently used one last. An index maps page ids to nodes.
The model keeps the addresses of the nodes, so that the lists, the index and the mark in each frame can
disagree; that they never do is the invariant `Linked`. A node stays where it is when it is spliced.
-/

namespace MoDb.Storage

variable {P : Type}

abbrev FrameNode := Nat

structure Frame (P : Type) where
  pageId : Nat
  page : P
  pinCount : UInt32 := 0
  dirty : Bool := false
  /-- In which list the frame is. -/
  held : Bool := false

structure PoolMetrics where
  hits : Nat := 0
  misses : Nat := 0
  evictions : Nat := 0
  dirtyFlushes : Nat := 0

structure BufferPool (P : Type) where
  capacity : Nat
  frames : FrameNode → Frame P
  entries : List FrameNode := []
  held : List FrameNode := []
  index : List (Nat × FrameNode) := []
  /-- The address of the next node. -/
  fresh : FrameNode := 0
  metrics : PoolMetrics := {}

def canEvict (frame : Frame P) : Bool :=
  frame.pinCount = 0 && !frame.dirty

namespace BufferPool

def create [Inhabited P] (capacityPages : Nat) : BufferPool P :=
  { capacity := if capacityPages = 0 then 1 else capacityPages, frames := fun _ => ⟨0, default, 0, false, false⟩ }

def find (pool : BufferPool P) (page : Nat) : Option FrameNode :=
  (pool.index.find? fun entry => entry.1 = page).map Prod.snd

def setFrame (pool : BufferPool P) (node : FrameNode) (frame : Frame P) : BufferPool P :=
  { pool with frames := Function.update pool.frames node frame }

def touch (pool : BufferPool P) (node : FrameNode) : BufferPool P :=
  if (pool.frames node).held then { pool with held := node :: pool.held.erase node }
  else { pool with entries := node :: pool.entries.erase node }

def place (pool : BufferPool P) (node : FrameNode) : BufferPool P :=
  let frame := pool.frames node
  let shouldHold := !canEvict frame
  if shouldHold = frame.held then pool
  else
    let pool :=
      if shouldHold then
        { pool with held := node :: pool.held, entries := pool.entries.erase node }
      else { pool with entries := node :: pool.entries, held := pool.held.erase node }
    pool.setFrame node { frame with held := shouldHold }

def eraseKey (index : List (Nat × FrameNode)) (page : Nat) : List (Nat × FrameNode) :=
  index.filter fun entry => entry.1 ≠ page

/-- Frames leave `entries` from the end, while there are more than `maxSize`. -/
def evictLoop (maxSize : Nat) : List FrameNode → BufferPool P → BufferPool P
  | [], pool => pool
  | victim :: rest, pool =>
    if pool.index.length > maxSize then
      evictLoop maxSize rest
        { pool with
          index := eraseKey pool.index (pool.frames victim).pageId
          entries := rest.reverse
          metrics := { pool.metrics with evictions := pool.metrics.evictions + 1 } }
    else pool

def evictUntil (pool : BufferPool P) (maxSize : Nat) : BufferPool P :=
  evictLoop maxSize pool.entries.reverse pool

def get (pool : BufferPool P) (page : Nat) : Option P × BufferPool P :=
  match pool.find page with
  | none => (none, { pool with metrics := { pool.metrics with misses := pool.metrics.misses + 1 } })
  | some node =>
    let pool := { pool with metrics := { pool.metrics with hits := pool.metrics.hits + 1 } }
    (some (pool.frames node).page, pool.touch node)

def put (pool : BufferPool P) (page : Nat) (contents : P) : BufferPool P :=
  match pool.find page with
  | some node =>
    ((pool.setFrame node { pool.frames node with page := contents, dirty := false }).place node).touch node
  | none =>
    let pool := pool.evictUntil (pool.capacity - 1)
    { pool.setFrame pool.fresh { pageId := page, page := contents } with
      entries := pool.fresh :: pool.entries
      index := (page, pool.fresh) :: pool.index
      fresh := pool.fresh + 1 }

def invalidate (pool : BufferPool P) (page : Nat) : BufferPool P :=
  match pool.find page with
  | none => pool
  | some node =>
    if (pool.frames node).pinCount > 0 then pool
    else if (pool.frames node).held then
      { pool with held := pool.held.erase node, index := eraseKey pool.index page }
    else { pool with entries := pool.entries.erase node, index := eraseKey pool.index page }

def pin (pool : BufferPool P) (page : Nat) : Except Error Unit × BufferPool P :=
  match pool.find page with
  | none => (.error ⟨.pageNotFound, "cannot pin a page that is not in the buffer pool"⟩, pool)
  | some node =>
    let frame := pool.frames node
    (.ok (), ((pool.setFrame node { frame with pinCount := frame.pinCount + 1 }).place node).touch node)

def unpin (pool : BufferPool P) (page : Nat) : BufferPool P :=
  match pool.find page with
  | none => pool
  | some node =>
    let frame := pool.frames node
    if frame.pinCount = 0 then pool
    else (pool.setFrame node { frame with pinCount := frame.pinCount - 1 }).place node

def putDirty (pool : BufferPool P) (page : Nat) (contents : P) : BufferPool P :=
  match pool.find page with
  | some node =>
    ((pool.setFrame node { pool.frames node with page := contents, dirty := true }).place node).touch node
  | none =>
    { pool.setFrame pool.fresh { pageId := page, page := contents, dirty := true, held := true } with
      held := pool.fresh :: pool.held
      index := (page, pool.fresh) :: pool.index
      fresh := pool.fresh + 1 }

def isDirty (pool : BufferPool P) (page : Nat) : Bool :=
  match pool.find page with
  | none => false
  | some node => (pool.frames node).dirty

/-- The dirty frames are written one after the other, up to an error of the writer. -/
def flushLoop (writer : Nat → P → Except Error Unit) : List FrameNode → BufferPool P →
    Except Error Unit × BufferPool P
  | [], pool => (.ok (), pool)
  | node :: rest, pool =>
    let frame := pool.frames node
    if !frame.dirty then flushLoop writer rest pool
    else
      match writer frame.pageId frame.page with
      | .error error => (.error error, pool)
      | .ok () =>
        let pool := pool.setFrame node { frame with dirty := false }
        let pool := { pool with metrics := { pool.metrics with dirtyFlushes := pool.metrics.dirtyFlushes + 1 } }
        flushLoop writer rest (pool.place node)

def flushDirty (pool : BufferPool P) (writer : Nat → P → Except Error Unit) :
    Except Error Unit × BufferPool P :=
  match flushLoop writer pool.held pool with
  | (.error error, pool) => (.error error, pool)
  | (.ok (), pool) => (.ok (), pool.evictUntil pool.capacity)

def discardLoop : List FrameNode → BufferPool P → BufferPool P
  | [], pool => pool
  | node :: rest, pool =>
    let frame := pool.frames node
    if !frame.dirty then discardLoop rest pool
    else
      let pool := pool.setFrame node { frame with dirty := false }
      if frame.pinCount = 0 then
        discardLoop rest
          { pool with index := eraseKey pool.index frame.pageId, held := pool.held.erase node }
      else discardLoop rest pool

def discardDirty (pool : BufferPool P) : BufferPool P :=
  let pool := discardLoop pool.held pool
  pool.evictUntil pool.capacity

/-! ### The representation -/

def nodes (pool : BufferPool P) : List FrameNode :=
  pool.entries ++ pool.held

/-- The lists, the index and the marks in the frames agree. -/
structure Linked (pool : BufferPool P) : Prop where
  nodup : pool.nodes.Nodup
  keys : (pool.index.map Prod.fst).Nodup
  mem_index : ∀ page node, (page, node) ∈ pool.index ↔
    node ∈ pool.nodes ∧ (pool.frames node).pageId = page
  entries : ∀ node ∈ pool.entries, (pool.frames node).held = false
  held : ∀ node ∈ pool.held, (pool.frames node).held = true
  fresh : ∀ node ∈ pool.nodes, node < pool.fresh

def Placed (pool : BufferPool P) (node : FrameNode) : Prop :=
  (pool.frames node).held = !canEvict (pool.frames node)

variable {pool : BufferPool P} {node : FrameNode} {page : Nat}

theorem find_eq_some (h : pool.Linked) : pool.find page = some node ↔ (page, node) ∈ pool.index := by
  rw [find, Option.map_eq_some_iff]
  constructor
  · rintro ⟨⟨page', node'⟩, hfind, rfl⟩
    have hkey : page' = page := by simpa using List.find?_some hfind
    rw [← hkey]
    exact List.mem_of_find?_eq_some hfind
  · intro hmem
    cases hfind : pool.index.find? fun entry => entry.1 = page with
    | none =>
      have hnone := List.find?_eq_none.1 hfind _ hmem
      exact absurd (decide_eq_true rfl) hnone
    | some entry =>
      have hkey : entry.1 = page := by simpa using List.find?_some hfind
      have heq : entry = (page, node) :=
        List.inj_on_of_nodup_map h.keys (List.mem_of_find?_eq_some hfind) hmem hkey
      exact ⟨entry, rfl, by rw [heq]⟩

theorem find_eq_none : pool.find page = none ↔ page ∉ pool.index.map Prod.fst := by
  rw [find, Option.map_eq_none_iff, List.find?_eq_none, List.mem_map]
  constructor
  · rintro h ⟨entry, hentry, hkey⟩
    exact h entry hentry (decide_eq_true hkey)
  · intro h entry hentry hkey
    exact h ⟨entry, hentry, of_decide_eq_true hkey⟩

theorem Linked.length_index (h : pool.Linked) :
    pool.index.length = pool.entries.length + pool.held.length := by
  have hnodup : (pool.index.map Prod.snd).Nodup := by
    apply List.Nodup.map_on
    · rintro ⟨page, node⟩ hentry ⟨page', node'⟩ hentry' (rfl : node = node')
      rw [← ((h.mem_index _ _).1 hentry).2, ← ((h.mem_index _ _).1 hentry').2]
    · exact h.keys.of_map _
  have hperm : (pool.index.map Prod.snd).Perm pool.nodes := by
    apply (List.perm_ext_iff_of_nodup hnodup h.nodup).2
    intro node
    rw [List.mem_map]
    constructor
    · rintro ⟨⟨page, node⟩, hentry, rfl⟩
      exact ((h.mem_index _ _).1 hentry).1
    · intro hnode
      exact ⟨_, (h.mem_index _ node).2 ⟨hnode, rfl⟩, rfl⟩
  rw [← List.length_map Prod.snd, hperm.length_eq, nodes, List.length_append]

theorem Linked.rearrange (h : pool.Linked) {entries held : List FrameNode} {frames : FrameNode → Frame P}
    (hperm : (entries ++ held).Perm pool.nodes)
    (hpage : ∀ node ∈ pool.nodes, (frames node).pageId = (pool.frames node).pageId)
    (hentries : ∀ node ∈ entries, (frames node).held = false)
    (hheld : ∀ node ∈ held, (frames node).held = true) :
    Linked { pool with frames := frames, entries := entries, held := held } := by
  refine ⟨hperm.nodup_iff.2 h.nodup, h.keys, fun page node => ?_, hentries, hheld, fun node hnode => ?_⟩
  · refine (h.mem_index page node).trans ?_
    constructor
    · rintro ⟨hnode, rfl⟩
      exact ⟨hperm.mem_iff.2 hnode, hpage node hnode⟩
    · rintro ⟨hnode, rfl⟩
      have hnode' := hperm.mem_iff.1 hnode
      exact ⟨hnode', (hpage node hnode').symm⟩
  · exact h.fresh node (hperm.mem_iff.1 hnode)

theorem Linked.setFrame (h : pool.Linked) {frame : Frame P}
    (hpage : frame.pageId = (pool.frames node).pageId) (hheld : frame.held = (pool.frames node).held) :
    (pool.setFrame node frame).Linked := by
  have hframes (f : Frame P → Prop) (other : FrameNode) (hother : f (pool.frames other))
      (hsame : f (pool.frames node) → f frame) : f (Function.update pool.frames node frame other) := by
    by_cases heq : other = node
    · subst heq
      rw [Function.update_self]
      exact hsame hother
    · rwa [Function.update_of_ne heq]
  apply h.rearrange (List.Perm.refl _)
  · intro other _
    exact hframes (fun frame => frame.pageId = (pool.frames other).pageId) other rfl hpage.trans
  · intro other hother
    exact hframes (fun frame => frame.held = false) other (h.entries other hother) hheld.trans
  · intro other hother
    exact hframes (fun frame => frame.held = true) other (h.held other hother) hheld.trans

theorem Linked.mem_held (h : pool.Linked) (hnode : node ∈ pool.nodes)
    (hheld : (pool.frames node).held = true) : node ∈ pool.held := by
  rcases List.mem_append.1 hnode with hentries | hmem
  · rw [h.entries node hentries] at hheld
    cases hheld
  · exact hmem

theorem Linked.mem_entries (h : pool.Linked) (hnode : node ∈ pool.nodes)
    (hheld : (pool.frames node).held = false) : node ∈ pool.entries := by
  rcases List.mem_append.1 hnode with hmem | hmem
  · exact hmem
  · rw [h.held node hmem] at hheld
    cases hheld

theorem Linked.touch (h : pool.Linked) (hnode : node ∈ pool.nodes) :
    (pool.touch node).Linked ∧ (pool.touch node).nodes.Perm pool.nodes := by
  rw [BufferPool.touch]
  cases hheld : (pool.frames node).held with
  | true =>
    rw [if_pos rfl]
    have hperm : (node :: pool.held.erase node).Perm pool.held :=
      (List.perm_cons_erase (h.mem_held hnode hheld)).symm
    have hnodes := hperm.append_left pool.entries
    refine ⟨h.rearrange hnodes (fun _ _ => rfl) h.entries fun other hother => ?_, hnodes⟩
    exact h.held other (hperm.mem_iff.1 hother)
  | false =>
    rw [if_neg Bool.false_ne_true]
    have hperm : (node :: pool.entries.erase node).Perm pool.entries :=
      (List.perm_cons_erase (h.mem_entries hnode hheld)).symm
    have hnodes := hperm.append_right pool.held
    refine ⟨h.rearrange hnodes (fun _ _ => rfl) (fun other hother => ?_) h.held, hnodes⟩
    exact h.entries other (hperm.mem_iff.1 hother)

theorem frames_touch : (pool.touch node).frames = pool.frames := by
  rw [BufferPool.touch]
  split <;> rfl

theorem capacity_touch (pool : BufferPool P) (node : FrameNode) : (pool.touch node).capacity = pool.capacity := by
  rw [BufferPool.touch]
  split <;> rfl

theorem capacity_place (pool : BufferPool P) (node : FrameNode) : (pool.place node).capacity = pool.capacity := by
  rw [BufferPool.place]
  dsimp only
  split
  · rfl
  · split <;> rfl

theorem Linked.place (h : pool.Linked) (hnode : node ∈ pool.nodes) :
    (pool.place node).Linked ∧ (pool.place node).nodes.Perm pool.nodes ∧
      (∀ other, (pool.place node).frames other =
        if other = node then { pool.frames node with held := !canEvict (pool.frames node) }
        else pool.frames other) := by
  rw [BufferPool.place]
  by_cases hsame : (!canEvict (pool.frames node)) = (pool.frames node).held
  · rw [if_pos hsame]
    refine ⟨h, List.Perm.refl _, fun other => ?_⟩
    split
    · rename_i heq
      rw [heq, hsame]
    · rfl
  · rw [if_neg hsame]
    have hframes (other : FrameNode) :
        Function.update pool.frames node
            { pool.frames node with held := !canEvict (pool.frames node) } other =
          if other = node then { pool.frames node with held := !canEvict (pool.frames node) }
          else pool.frames other := by
      rw [Function.update_apply]
    have hpage (other : FrameNode) (_ : other ∈ pool.nodes) :
        (Function.update pool.frames node
          { pool.frames node with held := !canEvict (pool.frames node) } other).pageId =
            (pool.frames other).pageId := by
      rw [hframes]
      split
      · rename_i heq
        rw [heq]
      · rfl
    cases hhold : canEvict (pool.frames node) with
    | false =>
      rw [hhold] at hsame hframes hpage
      have hmem := h.mem_entries hnode (Bool.eq_false_iff.2 fun htrue => hsame htrue.symm)
      have hperm : (pool.entries.erase node ++ node :: pool.held).Perm pool.nodes :=
        (List.perm_middle.trans (List.Perm.append_right _ (List.perm_cons_erase hmem).symm))
      refine ⟨h.rearrange hperm hpage (fun other hother => ?_) fun other hother => ?_, hperm, hframes⟩
      · have hne := (h.nodup.of_append_left.mem_erase_iff.1 hother)
        have hother' := (hframes other).trans (if_neg hne.1)
        exact (congrArg Frame.held hother').trans (h.entries other hne.2)
      · by_cases heq : other = node
        · exact congrArg Frame.held ((hframes other).trans (if_pos heq))
        · have hother' := (hframes other).trans (if_neg heq)
          exact (congrArg Frame.held hother').trans (h.held other ((List.mem_cons.1 hother).resolve_left heq))
    | true =>
      rw [hhold] at hsame hframes hpage
      have hmem := h.mem_held hnode (Bool.ne_false_iff.1 fun hfalse => hsame hfalse.symm)
      have hperm : (node :: pool.entries ++ pool.held.erase node).Perm pool.nodes :=
        (List.perm_middle.symm.trans (List.Perm.append_left _ (List.perm_cons_erase hmem).symm))
      refine ⟨h.rearrange hperm hpage (fun other hother => ?_) fun other hother => ?_, hperm, hframes⟩
      · by_cases heq : other = node
        · exact congrArg Frame.held ((hframes other).trans (if_pos heq))
        · have hother' := (hframes other).trans (if_neg heq)
          exact (congrArg Frame.held hother').trans (h.entries other ((List.mem_cons.1 hother).resolve_left heq))
      · have hne := h.nodup.of_append_right.mem_erase_iff.1 hother
        have hother' := (hframes other).trans (if_neg hne.1)
        exact (congrArg Frame.held hother').trans (h.held other hne.2)

theorem Linked.remove (h : pool.Linked) (hnode : node ∈ pool.nodes) {entries held : List FrameNode}
    (hentries : entries.Sublist pool.entries) (hheld : held.Sublist pool.held)
    (hmem : ∀ other, other ∈ entries ++ held ↔ other ∈ pool.nodes ∧ other ≠ node) :
    Linked { pool with
      entries := entries, held := held, index := eraseKey pool.index (pool.frames node).pageId } := by
  refine ⟨(hentries.append hheld).nodup h.nodup, (List.filter_sublist.map _).nodup h.keys,
    fun page other => ?_, fun other hother => h.entries other (hentries.subset hother),
    fun other hother => h.held other (hheld.subset hother), fun other hother => ?_⟩
  · change _ ↔ other ∈ entries ++ held ∧ _
    rw [hmem, eraseKey, List.mem_filter, h.mem_index, decide_eq_true_iff]
    constructor
    · rintro ⟨⟨hother, rfl⟩, hne⟩
      refine ⟨⟨hother, ?_⟩, rfl⟩
      rintro rfl
      exact hne rfl
    · rintro ⟨⟨hother, hne⟩, rfl⟩
      refine ⟨⟨hother, rfl⟩, fun hsame => hne ?_⟩
      have hkey := (h.mem_index _ _).2 ⟨hother, hsame⟩
      have hkey' := (h.mem_index _ _).2 ⟨hnode, rfl⟩
      have heq := List.inj_on_of_nodup_map h.keys hkey hkey' rfl
      exact congrArg Prod.snd heq
  · exact h.fresh other ((hmem other).1 hother).1

theorem Linked.insert (h : pool.Linked) (hnew : pool.find page = none) {frame : Frame P}
    (hpage : frame.pageId = page) {entries held : List FrameNode}
    (hperm : (entries ++ held).Perm (pool.fresh :: pool.nodes))
    (hentries : ∀ other ∈ entries, other ∈ pool.entries ∨ other = pool.fresh ∧ frame.held = false)
    (hheld : ∀ other ∈ held, other ∈ pool.held ∨ other = pool.fresh ∧ frame.held = true) :
    Linked { pool.setFrame pool.fresh frame with
      entries := entries, held := held, index := (page, pool.fresh) :: pool.index, fresh := pool.fresh + 1 } := by
  have hfresh : pool.fresh ∉ pool.nodes := fun hmem => Nat.lt_irrefl _ (h.fresh _ hmem)
  have hself : (pool.setFrame pool.fresh frame).frames pool.fresh = frame := Function.update_self _ _ _
  have hother {other : FrameNode} (hmem : other ∈ pool.nodes) :
      (pool.setFrame pool.fresh frame).frames other = pool.frames other := by
    refine Function.update_of_ne ?_ _ _
    rintro rfl
    exact hfresh hmem
  refine ⟨hperm.nodup_iff.2 (List.nodup_cons.2 ⟨hfresh, h.nodup⟩),
    List.nodup_cons.2 ⟨find_eq_none.1 hnew, h.keys⟩, fun page' node => ?_, fun other hmem => ?_,
    fun other hmem => ?_, fun other hmem => ?_⟩
  · change _ ↔ node ∈ entries ++ held ∧ ((pool.setFrame pool.fresh frame).frames node).pageId = page'
    rw [List.mem_cons, hperm.mem_iff, List.mem_cons, h.mem_index]
    constructor
    · rintro (heq | ⟨hmem, rfl⟩)
      · obtain ⟨rfl, rfl⟩ := Prod.mk.inj heq
        exact ⟨.inl rfl, by rw [hself, hpage]⟩
      · exact ⟨.inr hmem, by rw [hother hmem]⟩
    · rintro ⟨rfl | hmem, hpage'⟩
      · rw [hself, hpage] at hpage'
        exact .inl (by rw [hpage'])
      · rw [hother hmem] at hpage'
        exact .inr ⟨hmem, hpage'⟩
  · change ((pool.setFrame pool.fresh frame).frames other).held = false
    rcases hentries other hmem with hold | ⟨rfl, hframe⟩
    · rw [hother (List.mem_append_left _ hold)]
      exact h.entries other hold
    · rw [hself, hframe]
  · change ((pool.setFrame pool.fresh frame).frames other).held = true
    rcases hheld other hmem with hold | ⟨rfl, hframe⟩
    · rw [hother (List.mem_append_right _ hold)]
      exact h.held other hold
    · rw [hself, hframe]
  · rcases List.mem_cons.1 (hperm.mem_iff.1 hmem) with rfl | hold
    · exact Nat.lt_succ_self _
    · exact Nat.lt_succ_of_lt (h.fresh other hold)

/-! ### Eviction -/

/-- Eviction takes frames from the end of `entries` only. -/
structure Evicts (pool pool' : BufferPool P) : Prop where
  linked : pool'.Linked
  frames : pool'.frames = pool.frames
  held : pool'.held = pool.held
  entries : pool'.entries <+: pool.entries
  fresh : pool'.fresh = pool.fresh
  capacity : pool'.capacity = pool.capacity

theorem evictLoop_spec {maxSize : Nat} {victims : List FrameNode} (h : pool.Linked)
    (hvictims : pool.entries = victims.reverse) :
    Evicts pool (evictLoop maxSize victims pool) ∧
      ((evictLoop maxSize victims pool).index.length ≤ maxSize ∨
        (evictLoop maxSize victims pool).entries = []) := by
  induction victims generalizing pool with
  | nil => exact ⟨⟨h, rfl, rfl, List.prefix_refl _, rfl, rfl⟩, .inr hvictims⟩
  | cons victim rest ih =>
    rw [evictLoop]
    by_cases hsize : pool.index.length > maxSize
    · rw [if_pos hsize]
      rw [List.reverse_cons] at hvictims
      have hnode : victim ∈ pool.nodes := by
        rw [nodes, hvictims]
        simp
      have hnodup := h.nodup
      rw [nodes, hvictims] at hnodup
      have hlinked : Linked { pool with
          entries := rest.reverse, held := pool.held
          index := eraseKey pool.index (pool.frames victim).pageId } := by
        apply h.remove hnode (hvictims ▸ List.sublist_append_left _ _) (List.Sublist.refl _)
        intro other
        rw [nodes, hvictims, List.append_assoc, List.singleton_append, List.mem_append, List.mem_append,
          List.mem_cons]
        rw [List.append_assoc, List.singleton_append, List.nodup_middle, List.nodup_cons, List.mem_append] at hnodup
        constructor
        · intro hmem
          refine ⟨hmem.imp_right .inr, ?_⟩
          rintro rfl
          exact hnodup.1 hmem
        · rintro ⟨hmem | rfl | hmem, hne⟩
          · exact .inl hmem
          · exact absurd rfl hne
          · exact .inr hmem
      have hmetrics : Linked { pool with
          index := eraseKey pool.index (pool.frames victim).pageId
          entries := rest.reverse
          metrics := { pool.metrics with evictions := pool.metrics.evictions + 1 } } :=
        ⟨hlinked.nodup, hlinked.keys, hlinked.mem_index, hlinked.entries, hlinked.held, hlinked.fresh⟩
      obtain ⟨hevicts, hdone⟩ := ih hmetrics rfl
      refine ⟨⟨hevicts.linked, hevicts.frames, hevicts.held, hevicts.entries.trans ?_, hevicts.fresh,
        hevicts.capacity⟩, hdone⟩
      rw [hvictims]
      exact List.prefix_append _ _
    · rw [if_neg hsize]
      exact ⟨⟨h, rfl, rfl, List.prefix_refl _, rfl, rfl⟩, .inl (Nat.le_of_not_lt hsize)⟩

theorem Linked.evictUntil (h : pool.Linked) (maxSize : Nat) :
    Evicts pool (pool.evictUntil maxSize) ∧
      ((pool.evictUntil maxSize).index.length ≤ maxSize ∨ (pool.evictUntil maxSize).entries = []) :=
  evictLoop_spec h (List.reverse_reverse _).symm

/-! ### The operations -/

/-- The representation invariant: the structure agrees, and each frame is where its state asks for. -/
structure Sound (pool : BufferPool P) : Prop where
  linked : pool.Linked
  placed : ∀ node ∈ pool.nodes, pool.Placed node
  capacity : 0 < pool.capacity

theorem Linked.mem_held_iff (h : pool.Linked) :
    node ∈ pool.held ↔ node ∈ pool.nodes ∧ (pool.frames node).held = true :=
  ⟨fun hmem => ⟨List.mem_append_right _ hmem, h.held node hmem⟩, fun hnode => h.mem_held hnode.1 hnode.2⟩

theorem Sound.mem_held_iff (h : pool.Sound) (hnode : node ∈ pool.nodes) :
    node ∈ pool.held ↔ canEvict (pool.frames node) = false := by
  rw [h.linked.mem_held_iff, and_iff_right hnode, h.placed node hnode, Bool.not_eq_true']

/-- The frames that are held stay held, except those that the operation lets go. -/
def Retains (pool pool' : BufferPool P) (released : Frame P → Prop) : Prop :=
  ∀ node ∈ pool.held, ¬released (pool.frames node) →
    node ∈ pool'.held ∧ (pool'.frames node).pageId = (pool.frames node).pageId

theorem Retains.refl (released : Frame P → Prop) : Retains pool pool released :=
  fun _ hnode _ => ⟨hnode, rfl⟩

theorem Evicts.sound {pool' : BufferPool P} (h : pool.Sound) (hevicts : Evicts pool pool') : pool'.Sound := by
  refine ⟨hevicts.linked, fun node hnode => ?_, hevicts.capacity ▸ h.capacity⟩
  rw [Placed, hevicts.frames]
  apply h.placed
  rw [nodes, hevicts.held] at hnode
  exact (List.mem_append.1 hnode).elim (fun hmem => List.mem_append_left _ (hevicts.entries.subset hmem))
    fun hmem => List.mem_append_right _ hmem

theorem Evicts.retains {pool' : BufferPool P} (hevicts : Evicts pool pool') (released : Frame P → Prop) :
    Retains pool pool' released := by
  intro node hnode _
  rw [hevicts.held, hevicts.frames]
  exact ⟨hnode, rfl⟩

theorem Sound.metrics (h : pool.Sound) (metrics : PoolMetrics) : Sound { pool with metrics := metrics } :=
  ⟨⟨h.linked.nodup, h.linked.keys, h.linked.mem_index, h.linked.entries, h.linked.held, h.linked.fresh⟩,
    h.placed, h.capacity⟩

theorem Sound.replace (h : pool.Sound) (hnode : node ∈ pool.nodes) (frame : Frame P)
    (hpage : frame.pageId = (pool.frames node).pageId) (hheld : frame.held = (pool.frames node).held) :
    ((pool.setFrame node frame).place node).Sound ∧
      ((pool.setFrame node frame).place node).nodes.Perm pool.nodes ∧
      ∀ other, ((pool.setFrame node frame).place node).frames other =
        if other = node then { frame with held := !canEvict frame } else pool.frames other := by
  have hself : (pool.setFrame node frame).frames node = frame := Function.update_self _ _ _
  have hset : node ∈ (pool.setFrame node frame).nodes := hnode
  obtain ⟨hlinked, hperm, hframes⟩ := (h.linked.setFrame hpage hheld).place hset
  have hframes' (other : FrameNode) : ((pool.setFrame node frame).place node).frames other =
      if other = node then { frame with held := !canEvict frame } else pool.frames other := by
    rw [hframes, hself]
    split
    · rfl
    · rename_i hne
      exact Function.update_of_ne hne _ _
  have hcapacity : ((pool.setFrame node frame).place node).capacity = pool.capacity := capacity_place _ _
  refine ⟨⟨hlinked, fun other hother => ?_, hcapacity ▸ h.capacity⟩, hperm, hframes'⟩
  rw [Placed, hframes']
  by_cases heq : other = node
  · rw [if_pos heq]
    rfl
  · rw [if_neg heq]
    exact h.placed other (hperm.mem_iff.1 hother)

theorem Sound.touch (h : pool.Sound) (hnode : node ∈ pool.nodes) : (pool.touch node).Sound := by
  obtain ⟨hlinked, hperm⟩ := h.linked.touch hnode
  refine ⟨hlinked, fun other hother => ?_, (capacity_touch pool node).symm ▸ h.capacity⟩
  rw [Placed, frames_touch]
  exact h.placed other (hperm.mem_iff.1 hother)

theorem Sound.retains {pool' : BufferPool P} (h : pool.Sound) (h' : pool'.Sound)
    {released : Frame P → Prop} (hnodes : ∀ node ∈ pool.held, ¬released (pool.frames node) →
      node ∈ pool'.nodes ∧ (pool'.frames node).pageId = (pool.frames node).pageId ∧
        (canEvict (pool.frames node) = false → canEvict (pool'.frames node) = false)) :
    Retains pool pool' released := by
  intro node hnode hnot
  obtain ⟨hnode', hpage, hkept⟩ := hnodes node hnode hnot
  refine ⟨(h'.mem_held_iff hnode').2 (hkept ?_), hpage⟩
  exact (h.mem_held_iff (List.mem_append_right _ hnode)).1 hnode

theorem mem_nodes_of_find (h : pool.Sound) (hfind : pool.find page = some node) :
    node ∈ pool.nodes ∧ (pool.frames node).pageId = page :=
  (h.linked.mem_index page node).1 ((find_eq_some h.linked).1 hfind)

theorem sound_create [Inhabited P] (capacityPages : Nat) : (create capacityPages : BufferPool P).Sound := by
  refine ⟨⟨List.nodup_nil, List.nodup_nil, fun page node => ?_, ?_, ?_, ?_⟩, ?_, ?_⟩
  · exact iff_of_false List.not_mem_nil fun hnode => absurd hnode.1 List.not_mem_nil
  · exact fun node hnode => absurd hnode List.not_mem_nil
  · exact fun node hnode => absurd hnode List.not_mem_nil
  · exact fun node hnode => absurd hnode List.not_mem_nil
  · exact fun node hnode => absurd hnode List.not_mem_nil
  · rw [create]
    dsimp only
    split
    · exact Nat.one_pos
    · exact Nat.pos_of_ne_zero ‹_›

theorem Sound.get (h : pool.Sound) (page : Nat) (released : Frame P → Prop) :
    (pool.get page).2.Sound ∧ Retains pool (pool.get page).2 released := by
  rw [BufferPool.get]
  cases hfind : pool.find page with
  | none => exact ⟨h.metrics _, Retains.refl released⟩
  | some node =>
    obtain ⟨hnode, _⟩ := mem_nodes_of_find h hfind
    have hmetrics := h.metrics { pool.metrics with hits := pool.metrics.hits + 1 }
    have htouch := hmetrics.touch hnode
    refine ⟨htouch, h.retains htouch fun other hother _ => ⟨?_, ?_, ?_⟩⟩
    · exact (hmetrics.linked.touch hnode).2.mem_iff.2 (List.mem_append_right _ hother)
    · dsimp only
      rw [frames_touch]
    · dsimp only
      rw [frames_touch]
      exact id

theorem Sound.renew (h : pool.Sound) (hnode : node ∈ pool.nodes) (frame : Frame P)
    (released : Frame P → Prop) (hpage : frame.pageId = (pool.frames node).pageId)
    (hheld : frame.held = (pool.frames node).held)
    (hkept : ¬released (pool.frames node) → canEvict (pool.frames node) = false → canEvict frame = false) :
    (((pool.setFrame node frame).place node).touch node).Sound ∧
      Retains pool (((pool.setFrame node frame).place node).touch node) released ∧
      (((pool.setFrame node frame).place node).touch node).nodes.Perm pool.nodes := by
  obtain ⟨hsound, hperm, hframes⟩ := h.replace hnode frame hpage hheld
  have hnode' := hperm.mem_iff.2 hnode
  have htouch := hsound.touch hnode'
  have hperm' := (hsound.linked.touch hnode').2.trans hperm
  refine ⟨htouch, h.retains htouch fun other hother hnot => ⟨?_, ?_, ?_⟩, hperm'⟩
  · exact hperm'.mem_iff.2 (List.mem_append_right _ hother)
  · rw [frames_touch, hframes]
    split
    · rename_i heq
      rw [heq]
      exact hpage
    · rfl
  · rw [frames_touch, hframes]
    split
    · rename_i heq
      rw [heq] at hnot ⊢
      exact hkept hnot
    · exact id

theorem find_evict_none {pool' : BufferPool P} (h : pool.Linked) (hevicts : Evicts pool pool')
    (hfind : pool.find page = none) : pool'.find page = none := by
  rw [Option.eq_none_iff_forall_not_mem] at hfind ⊢
  intro node hnode
  obtain ⟨hmem, hpage⟩ := (hevicts.linked.mem_index page node).1 ((find_eq_some hevicts.linked).1 hnode)
  apply hfind node
  rw [Option.mem_def, find_eq_some h, h.mem_index]
  rw [nodes, hevicts.held] at hmem
  rw [hevicts.frames] at hpage
  exact ⟨(List.mem_append.1 hmem).elim (fun hmem => List.mem_append_left _ (hevicts.entries.subset hmem))
    fun hmem => List.mem_append_right _ hmem, hpage⟩

theorem Sound.insert (h : pool.Sound) (hfind : pool.find page = none) (frame : Frame P)
    (hpage : frame.pageId = page) (hplaced : frame.held = !canEvict frame) {entries held : List FrameNode}
    (hentries : entries = if frame.held then pool.entries else pool.fresh :: pool.entries)
    (hheld : held = if frame.held then pool.fresh :: pool.held else pool.held) (released : Frame P → Prop) :
    Sound { pool.setFrame pool.fresh frame with
      entries := entries, held := held, index := (page, pool.fresh) :: pool.index, fresh := pool.fresh + 1 } ∧
    Retains pool { pool.setFrame pool.fresh frame with
      entries := entries, held := held, index := (page, pool.fresh) :: pool.index,
      fresh := pool.fresh + 1 } released := by
  have hnew : pool.fresh ∉ pool.nodes := fun hmem => Nat.lt_irrefl _ (h.linked.fresh _ hmem)
  have hother {other : FrameNode} (hmem : other ∈ pool.nodes) :
      Function.update pool.frames pool.fresh frame other = pool.frames other := by
    refine Function.update_of_ne ?_ _ _
    rintro rfl
    exact hnew hmem
  have hperm : (entries ++ held).Perm (pool.fresh :: pool.nodes) := by
    rw [hentries, hheld]
    cases frame.held with
    | true => exact List.perm_middle
    | false => exact List.Perm.refl _
  have hlinked := h.linked.insert hfind hpage hperm
    (fun other hmem => by
      rw [hentries] at hmem
      cases hflag : frame.held with
      | true =>
        rw [hflag, if_pos rfl] at hmem
        exact .inl hmem
      | false =>
        rw [hflag, if_neg Bool.false_ne_true] at hmem
        exact (List.mem_cons.1 hmem).symm.imp_right fun heq => ⟨heq, rfl⟩)
    (fun other hmem => by
      rw [hheld] at hmem
      cases hflag : frame.held with
      | true =>
        rw [hflag, if_pos rfl] at hmem
        exact (List.mem_cons.1 hmem).symm.imp_right fun heq => ⟨heq, rfl⟩
      | false =>
        rw [hflag, if_neg Bool.false_ne_true] at hmem
        exact .inl hmem)
  refine ⟨⟨hlinked, fun other hmem => ?_, h.capacity⟩, fun other hmem _ => ⟨?_, ?_⟩⟩
  · change (Function.update pool.frames pool.fresh frame other).held =
      !canEvict (Function.update pool.frames pool.fresh frame other)
    rcases List.mem_cons.1 (hperm.mem_iff.1 hmem) with rfl | hmem
    · rw [Function.update_self]
      exact hplaced
    · rw [hother hmem]
      exact h.placed other hmem
  · change other ∈ held
    rw [hheld]
    split
    · exact List.mem_cons_of_mem _ hmem
    · exact hmem
  · change (Function.update pool.frames pool.fresh frame other).pageId = _
    rw [hother (List.mem_append_right _ hmem)]

theorem Sound.put (h : pool.Sound) (page : Nat) (contents : P) :
    (pool.put page contents).Sound ∧
      Retains pool (pool.put page contents) fun frame => frame.pageId = page := by
  rw [BufferPool.put]
  cases hfind : pool.find page with
  | some node =>
    obtain ⟨hnode, hpage⟩ := mem_nodes_of_find h hfind
    have hrenew := h.renew hnode { pool.frames node with page := contents, dirty := false }
      (fun frame => frame.pageId = page) rfl rfl fun hnot => absurd hpage hnot
    exact ⟨hrenew.1, hrenew.2.1⟩
  | none =>
    obtain ⟨hevicts, _⟩ := h.linked.evictUntil (pool.capacity - 1)
    have hsound := hevicts.sound h
    have hinsert := hsound.insert (find_evict_none h.linked hevicts hfind)
      { pageId := page, page := contents } rfl rfl rfl rfl fun frame => frame.pageId = page
    refine ⟨hinsert.1, fun node hnode hnot => ?_⟩
    obtain ⟨hheld, hpage⟩ := hevicts.retains (fun frame => frame.pageId = page) node hnode hnot
    rw [← hpage]
    apply hinsert.2 node hheld
    intro hsame
    exact hnot (hpage.symm.trans hsame)

theorem Sound.putDirty (h : pool.Sound) (page : Nat) (contents : P) (released : Frame P → Prop) :
    (pool.putDirty page contents).Sound ∧ Retains pool (pool.putDirty page contents) released := by
  rw [BufferPool.putDirty]
  cases hfind : pool.find page with
  | some node =>
    obtain ⟨hnode, _⟩ := mem_nodes_of_find h hfind
    have hrenew := h.renew hnode { pool.frames node with page := contents, dirty := true } released rfl rfl
      fun _ _ => by simp [canEvict]
    exact ⟨hrenew.1, hrenew.2.1⟩
  | none =>
    exact h.insert hfind { pageId := page, page := contents, dirty := true, held := true } rfl
      (by simp [canEvict]) rfl rfl released

theorem Sound.pin (h : pool.Sound) (page : Nat) :
    (pool.pin page).2.Sound ∧ Retains pool (pool.pin page).2 fun frame =>
      frame.pageId = page ∧ frame.pinCount + 1 = 0 := by
  rw [BufferPool.pin]
  cases hfind : pool.find page with
  | none => exact ⟨h, Retains.refl _⟩
  | some node =>
    obtain ⟨hnode, hpage⟩ := mem_nodes_of_find h hfind
    have hrenew := h.renew hnode { pool.frames node with pinCount := (pool.frames node).pinCount + 1 }
      (fun frame => frame.pageId = page ∧ frame.pinCount + 1 = 0) rfl rfl fun hnot _ => by
        rw [canEvict, Bool.and_eq_false_iff, decide_eq_false_iff_not]
        exact .inl fun hzero => hnot ⟨hpage, hzero⟩
    exact ⟨hrenew.1, hrenew.2.1⟩

theorem Sound.unpin (h : pool.Sound) (page : Nat) :
    (pool.unpin page).Sound ∧ Retains pool (pool.unpin page) fun frame => frame.pageId = page := by
  rw [BufferPool.unpin]
  cases hfind : pool.find page with
  | none => exact ⟨h, Retains.refl _⟩
  | some node =>
    obtain ⟨hnode, hpage⟩ := mem_nodes_of_find h hfind
    dsimp only
    split
    · exact ⟨h, Retains.refl _⟩
    · obtain ⟨hsound, hperm, hframes⟩ := h.replace hnode
        { pool.frames node with pinCount := (pool.frames node).pinCount - 1 } rfl rfl
      refine ⟨hsound, h.retains hsound fun other hother hnot => ⟨?_, ?_⟩⟩
      · exact hperm.mem_iff.2 (List.mem_append_right _ hother)
      · have hne : other ≠ node := by
          rintro rfl
          exact hnot hpage
        rw [hframes, if_neg hne]
        exact ⟨rfl, id⟩

theorem Sound.remove (h : pool.Sound) (hnode : node ∈ pool.nodes) {entries held : List FrameNode}
    (hentries : entries.Sublist pool.entries) (hheld : held.Sublist pool.held)
    (hmem : ∀ other, other ∈ entries ++ held ↔ other ∈ pool.nodes ∧ other ≠ node)
    (released : Frame P → Prop) (hreleased : released (pool.frames node)) :
    Sound { pool with
      entries := entries, held := held, index := eraseKey pool.index (pool.frames node).pageId } ∧
    Retains pool { pool with
      entries := entries, held := held, index := eraseKey pool.index (pool.frames node).pageId } released := by
  have hsound : Sound { pool with
      entries := entries, held := held, index := eraseKey pool.index (pool.frames node).pageId } :=
    ⟨h.linked.remove hnode hentries hheld hmem, fun other hother => h.placed other ((hmem other).1 hother).1,
      h.capacity⟩
  refine ⟨hsound, h.retains hsound fun other hother hnot => ⟨?_, rfl, id⟩⟩
  refine (hmem other).2 ⟨List.mem_append_right _ hother, ?_⟩
  rintro rfl
  exact hnot hreleased

theorem Linked.mem_erase_held (h : pool.Linked) (hheld : node ∈ pool.held) (other : FrameNode) :
    other ∈ pool.entries ++ pool.held.erase node ↔ other ∈ pool.nodes ∧ other ≠ node := by
  obtain ⟨_, hnodup, hapart⟩ := List.nodup_append.1 h.nodup
  rw [nodes, List.mem_append, List.mem_append, hnodup.mem_erase_iff]
  constructor
  · rintro (hmem | hmem)
    · exact ⟨.inl hmem, hapart other hmem node hheld⟩
    · exact ⟨.inr hmem.2, hmem.1⟩
  · rintro ⟨hmem | hmem, hne⟩
    · exact .inl hmem
    · exact .inr ⟨hne, hmem⟩

theorem Linked.mem_erase_entries (h : pool.Linked) (hentries : node ∈ pool.entries) (other : FrameNode) :
    other ∈ pool.entries.erase node ++ pool.held ↔ other ∈ pool.nodes ∧ other ≠ node := by
  obtain ⟨hnodup, _, hapart⟩ := List.nodup_append.1 h.nodup
  rw [nodes, List.mem_append, List.mem_append, hnodup.mem_erase_iff]
  constructor
  · rintro (hmem | hmem)
    · exact ⟨.inl hmem.2, hmem.1⟩
    · exact ⟨.inr hmem, (hapart node hentries other hmem).symm⟩
  · rintro ⟨hmem | hmem, hne⟩
    · exact .inl ⟨hne, hmem⟩
    · exact .inr hmem

theorem Sound.invalidate (h : pool.Sound) (page : Nat) :
    (pool.invalidate page).Sound ∧ Retains pool (pool.invalidate page) fun frame =>
      frame.pageId = page ∧ frame.pinCount = 0 := by
  rw [BufferPool.invalidate]
  cases hfind : pool.find page with
  | none => exact ⟨h, Retains.refl _⟩
  | some node =>
    obtain ⟨hnode, hpage⟩ := mem_nodes_of_find h hfind
    dsimp only
    by_cases hpinned : (pool.frames node).pinCount > 0
    · rw [if_pos hpinned]
      exact ⟨h, Retains.refl _⟩
    · rw [if_neg hpinned, ← hpage]
      have hzero : (pool.frames node).pinCount = 0 := by
        rw [gt_iff_lt, UInt32.lt_iff_toNat_lt, Nat.not_lt] at hpinned
        exact UInt32.toNat_inj.1 (Nat.le_zero.1 hpinned)
      cases hheld : (pool.frames node).held with
      | true =>
        rw [if_pos rfl]
        exact h.remove hnode (List.Sublist.refl _) List.erase_sublist
          (h.linked.mem_erase_held (h.linked.mem_held hnode hheld)) _ ⟨rfl, hzero⟩
      | false =>
        rw [if_neg Bool.false_ne_true]
        exact h.remove hnode List.erase_sublist (List.Sublist.refl _)
          (h.linked.mem_erase_entries (h.linked.mem_entries hnode hheld)) _ ⟨rfl, hzero⟩

theorem Retains.trans {pool' pool'' : BufferPool P} {released : Frame P → Prop}
    (h : Retains pool pool' released) (h' : Retains pool' pool'' released)
    (hreleased : ∀ node ∈ pool.held, released (pool'.frames node) → released (pool.frames node)) :
    Retains pool pool'' released := by
  intro node hnode hnot
  obtain ⟨hheld, hpage⟩ := h node hnode hnot
  obtain ⟨hheld', hpage'⟩ := h' node hheld fun hrel => hnot (hreleased node hnode hrel)
  exact ⟨hheld', hpage'.trans hpage⟩

theorem Sound.flushLoop (h : pool.Sound) (writer : Nat → P → Except Error Unit) (rest : List FrameNode)
    (hrest : ∀ node ∈ rest, node ∈ pool.nodes) :
    (BufferPool.flushLoop writer rest pool).2.Sound ∧
      Retains pool (BufferPool.flushLoop writer rest pool).2 fun frame => frame.pinCount = 0 := by
  induction rest generalizing pool with
  | nil => exact ⟨h, Retains.refl _⟩
  | cons node rest ih =>
    have hnode := hrest node List.mem_cons_self
    have hrest' (other : FrameNode) (hother : other ∈ rest) := hrest other (List.mem_cons_of_mem _ hother)
    rw [BufferPool.flushLoop]
    dsimp only
    split
    · exact ih h hrest'
    · cases writer (pool.frames node).pageId (pool.frames node).page with
      | error error => exact ⟨h, Retains.refl _⟩
      | ok written =>
        dsimp only
        have hmetrics := h.metrics { pool.metrics with dirtyFlushes := pool.metrics.dirtyFlushes + 1 }
        obtain ⟨hsound, hperm, hframes⟩ := hmetrics.replace hnode { pool.frames node with dirty := false } rfl rfl
        obtain ⟨hend, hkept⟩ := ih hsound fun other hother => hperm.mem_iff.2 (hrest' other hother)
        have hfirst : Retains pool _ fun frame => frame.pinCount = 0 :=
          h.retains hsound fun other hother hnot => by
            refine ⟨hperm.mem_iff.2 (List.mem_append_right _ hother), ?_⟩
            rw [hframes]
            split
            · rename_i heq
              subst heq
              refine ⟨rfl, fun _ => ?_⟩
              rw [canEvict, Bool.and_eq_false_iff, decide_eq_false_iff_not]
              exact .inl hnot
            · exact ⟨rfl, id⟩
        refine ⟨hend, hfirst.trans hkept fun other _ hzero => ?_⟩
        rw [hframes] at hzero
        split at hzero
        · rename_i heq
          rw [heq]
          exact hzero
        · exact hzero

theorem Sound.shrink {pool' : BufferPool P} {released : Frame P → Prop} (h : pool'.Sound)
    (hkept : Retains pool pool' released) (maxSize : Nat) :
    (pool'.evictUntil maxSize).Sound ∧ Retains pool (pool'.evictUntil maxSize) released := by
  obtain ⟨hevicts, _⟩ := h.linked.evictUntil maxSize
  refine ⟨hevicts.sound h, fun node hnode hnot => ?_⟩
  rw [hevicts.held, hevicts.frames]
  exact hkept node hnode hnot

theorem Sound.flushDirty (h : pool.Sound) (writer : Nat → P → Except Error Unit) :
    (pool.flushDirty writer).2.Sound ∧
      Retains pool (pool.flushDirty writer).2 fun frame => frame.pinCount = 0 := by
  have hloop := h.flushLoop writer pool.held fun node hnode => List.mem_append_right _ hnode
  rw [BufferPool.flushDirty]
  cases hrun : BufferPool.flushLoop writer pool.held pool with
  | mk result pool' =>
    rw [hrun] at hloop
    cases result with
    | error error => exact hloop
    | ok done => exact hloop.1.shrink hloop.2 _

theorem Sound.clean (h : pool.Sound) (hheld : node ∈ pool.held) (hpinned : (pool.frames node).pinCount ≠ 0) :
    (pool.setFrame node { pool.frames node with dirty := false }).Sound := by
  refine ⟨h.linked.setFrame rfl rfl, fun other hother => ?_, h.capacity⟩
  by_cases heq : other = node
  · subst heq
    change (Function.update pool.frames other _ other).held = !canEvict (Function.update pool.frames other _ other)
    rw [Function.update_self, h.linked.held other hheld, canEvict, decide_eq_false hpinned]
    rfl
  · change (Function.update pool.frames node _ other).held = !canEvict (Function.update pool.frames node _ other)
    rw [Function.update_of_ne heq]
    exact h.placed other hother

theorem Sound.setFrame (h : pool.Sound) (hnode : node ∉ pool.nodes) (frame : Frame P)
    (hpage : frame.pageId = (pool.frames node).pageId) (hheld : frame.held = (pool.frames node).held) :
    (pool.setFrame node frame).Sound := by
  refine ⟨h.linked.setFrame hpage hheld, fun other hother => ?_, h.capacity⟩
  have hne : other ≠ node := by
    rintro rfl
    exact hnode hother
  change (Function.update pool.frames node _ other).held = !canEvict (Function.update pool.frames node _ other)
  rw [Function.update_of_ne hne]
  exact h.placed other hother

theorem Sound.discardLoop {rest : List FrameNode} (h : pool.Sound) (hrest : ∀ node ∈ rest, node ∈ pool.held)
    (hnodup : rest.Nodup) :
    (BufferPool.discardLoop rest pool).Sound ∧
      Retains pool (BufferPool.discardLoop rest pool) fun frame => frame.pinCount = 0 := by
  induction rest generalizing pool with
  | nil => exact ⟨h, Retains.refl _⟩
  | cons node rest ih =>
    have hheld := hrest node List.mem_cons_self
    have hrest' (other : FrameNode) (hother : other ∈ rest) := hrest other (List.mem_cons_of_mem _ hother)
    obtain ⟨hnot, hnodup'⟩ := List.nodup_cons.1 hnodup
    have hpins (other : FrameNode) :
        (Function.update pool.frames node { pool.frames node with dirty := false } other).pinCount =
          (pool.frames other).pinCount ∧
        (Function.update pool.frames node { pool.frames node with dirty := false } other).pageId =
          (pool.frames other).pageId := by
      by_cases heq : other = node
      · rw [heq, Function.update_self]
        exact ⟨rfl, rfl⟩
      · rw [Function.update_of_ne heq]
        exact ⟨rfl, rfl⟩
    rw [BufferPool.discardLoop]
    dsimp only
    by_cases hdirty : (pool.frames node).dirty = true
    · rw [hdirty, if_neg (by decide)]
      by_cases hzero : (pool.frames node).pinCount = 0
      · rw [if_pos hzero]
        have hmem := h.linked.mem_erase_held hheld
        obtain ⟨hremoved, hkept⟩ := h.remove (List.mem_append_right _ hheld) (List.Sublist.refl _)
          List.erase_sublist hmem (fun frame => frame.pinCount = 0) hzero
        have hsound := hremoved.setFrame (fun hnode => ((hmem node).1 hnode).2 rfl)
          { pool.frames node with dirty := false } rfl rfl
        obtain ⟨hend, hends⟩ := ih hsound (fun other hother => by
          have hne : other ≠ node := by
            rintro rfl
            exact hnot hother
          exact (List.mem_erase_of_ne hne).2 (hrest' other hother)) hnodup'
        refine ⟨hend, fun other hother hpinned => ?_⟩
        obtain ⟨hkeeps, hpage⟩ := hends other (hkept other hother hpinned).1 fun hpins' =>
          hpinned ((hpins other).1.symm.trans hpins')
        exact ⟨hkeeps, hpage.trans (hpins other).2⟩
      · rw [if_neg hzero]
        obtain ⟨hend, hends⟩ := ih (h.clean hheld hzero) hrest' hnodup'
        refine ⟨hend, fun other hother hpinned => ?_⟩
        obtain ⟨hkeeps, hpage⟩ := hends other hother fun hpins' => hpinned ((hpins other).1.symm.trans hpins')
        exact ⟨hkeeps, hpage.trans (hpins other).2⟩
    · rw [Bool.eq_false_iff.2 hdirty, if_pos (by decide)]
      exact ih h hrest' hnodup'

theorem Sound.discardDirty (h : pool.Sound) :
    pool.discardDirty.Sound ∧ Retains pool pool.discardDirty fun frame => frame.pinCount = 0 := by
  obtain ⟨hsound, hkept⟩ := h.discardLoop (fun _ hnode => hnode) h.linked.nodup.of_append_right
  exact hsound.shrink hkept _

/-! ### Runs -/

inductive Op (P : Type) where
  | get (page : Nat)
  | put (page : Nat) (contents : P)
  | invalidate (page : Nat)
  | pin (page : Nat)
  | unpin (page : Nat)
  | putDirty (page : Nat) (contents : P)
  | flushDirty (writer : Nat → P → Except Error Unit)
  | discardDirty
  | resetMetrics

def step (pool : BufferPool P) : Op P → BufferPool P
  | .get page => (pool.get page).2
  | .put page contents => pool.put page contents
  | .invalidate page => pool.invalidate page
  | .pin page => (pool.pin page).2
  | .unpin page => pool.unpin page
  | .putDirty page contents => pool.putDirty page contents
  | .flushDirty writer => (pool.flushDirty writer).2
  | .discardDirty => pool.discardDirty
  | .resetMetrics => { pool with metrics := {} }

def run (pool : BufferPool P) (ops : List (Op P)) : BufferPool P :=
  ops.foldl step pool

/-- The held frames that an operation may let go: the page is written clean, or nothing pins it. -/
def Releases : Op P → Frame P → Prop
  | .get _, _ => False
  | .put page _, frame => frame.pageId = page
  | .invalidate page, frame => frame.pageId = page ∧ frame.pinCount = 0
  | .pin page, frame => frame.pageId = page ∧ frame.pinCount + 1 = 0
  | .unpin page, frame => frame.pageId = page
  | .putDirty _ _, _ => False
  | .flushDirty _, frame => frame.pinCount = 0
  | .discardDirty, frame => frame.pinCount = 0
  | .resetMetrics, _ => False

theorem Sound.step (h : pool.Sound) (op : Op P) :
    (pool.step op).Sound ∧ Retains pool (pool.step op) (Releases op) := by
  cases op with
  | get page => exact h.get page _
  | put page contents => exact h.put page contents
  | invalidate page => exact h.invalidate page
  | pin page => exact h.pin page
  | unpin page => exact h.unpin page
  | putDirty page contents => exact h.putDirty page contents _
  | flushDirty writer => exact h.flushDirty writer
  | discardDirty => exact h.discardDirty
  | resetMetrics => exact ⟨h.metrics _, Retains.refl _⟩

theorem Sound.run (h : pool.Sound) (ops : List (Op P)) : (pool.run ops).Sound := by
  induction ops generalizing pool with
  | nil => exact h
  | cons op rest ih => exact ih (h.step op).1

/-- What the pool promises about its index and its two lists. -/
structure Represents (pool : BufferPool P) : Prop where
  keys : (pool.index.map Prod.fst).Nodup
  find : ∀ page node, pool.find page = some node ↔
    node ∈ pool.entries ++ pool.held ∧ (pool.frames node).pageId = page
  cached : ∀ page ∈ pool.index.map Prod.fst, ∃! node, (page, node) ∈ pool.index
  size : pool.index.length = pool.entries.length + pool.held.length
  lists : pool.entries.Nodup ∧ pool.held.Nodup
  apart : ∀ node ∈ pool.entries, node ∉ pool.held
  mark : ∀ node ∈ pool.entries ++ pool.held, (pool.frames node).held = true ↔ node ∈ pool.held
  held : ∀ node ∈ pool.entries ++ pool.held,
    node ∈ pool.held ↔ (pool.frames node).dirty = true ∨ (pool.frames node).pinCount ≠ 0

theorem Sound.represents (h : pool.Sound) : pool.Represents := by
  obtain ⟨hentries, hheld, hapart⟩ := List.nodup_append.1 h.linked.nodup
  refine ⟨h.linked.keys, fun page node => ?_, fun page hpage => ?_, h.linked.length_index, ⟨hentries, hheld⟩,
    fun node hnode hmem => hapart node hnode node hmem rfl, fun node hnode => ?_, fun node hnode => ?_⟩
  · rw [find_eq_some h.linked, h.linked.mem_index, nodes]
  · obtain ⟨⟨page', node⟩, hmem, rfl⟩ := List.mem_map.1 hpage
    refine ⟨node, hmem, fun node' hmem' => ?_⟩
    have heq := List.inj_on_of_nodup_map h.linked.keys hmem' hmem rfl
    exact congrArg Prod.snd heq
  · rw [h.linked.mem_held_iff, nodes, and_iff_right hnode]
  · rw [h.mem_held_iff hnode, canEvict, Bool.and_eq_false_iff, decide_eq_false_iff_not, Bool.not_eq_false',
      or_comm]

/-- Whatever size eviction aims at, the held frames stay as they are, and found. -/
def KeepsHeld (pool : BufferPool P) : Prop :=
  ∀ maxSize, ∀ node ∈ pool.held, node ∈ (pool.evictUntil maxSize).held ∧
    (pool.evictUntil maxSize).frames node = pool.frames node ∧
    (pool.evictUntil maxSize).find (pool.frames node).pageId = some node

theorem Sound.keepsHeld (h : pool.Sound) : pool.KeepsHeld := by
  intro maxSize node hnode
  obtain ⟨hevicts, _⟩ := h.linked.evictUntil maxSize
  have hheld : node ∈ (pool.evictUntil maxSize).held := by rwa [hevicts.held]
  have hframe : (pool.evictUntil maxSize).frames node = pool.frames node := by rw [hevicts.frames]
  refine ⟨hheld, hframe, (find_eq_some hevicts.linked).2 ((hevicts.linked.mem_index _ _).2 ?_)⟩
  rw [hframe]
  exact ⟨List.mem_append_right _ hheld, rfl⟩

theorem Sound.length_put (h : pool.Sound) (hfind : pool.find page = none) (contents : P) :
    (pool.put page contents).index.length ≤ max pool.capacity ((pool.put page contents).held.length + 1) := by
  obtain ⟨hevicts, hroom⟩ := h.linked.evictUntil (pool.capacity - 1)
  have hcapacity := h.capacity
  rw [BufferPool.put, hfind]
  change (pool.evictUntil (pool.capacity - 1)).index.length + 1 ≤
    max pool.capacity ((pool.evictUntil (pool.capacity - 1)).held.length + 1)
  rcases hroom with hroom | hroom
  · refine Nat.le_trans ?_ (Nat.le_max_left _ _)
    omega
  · rw [hevicts.linked.length_index, hroom, List.length_nil, Nat.zero_add]
    exact Nat.le_max_right _ _

theorem Sound.length_renew (h : pool.Sound) (hfind : pool.find page = some node) (contents : P) :
    (pool.put page contents).index.length = pool.index.length := by
  obtain ⟨hnode, _⟩ := mem_nodes_of_find h hfind
  have hsound := (h.put page contents).1
  have hperm := (h.renew hnode { pool.frames node with page := contents, dirty := false }
    (fun frame => frame.pageId = page) rfl rfl fun hnot => absurd (mem_nodes_of_find h hfind).2 hnot).2.2
  rw [hsound.linked.length_index, h.linked.length_index, ← List.length_append, ← List.length_append]
  rw [BufferPool.put, hfind]
  exact hperm.length_eq

theorem capacity_evictLoop (maxSize : Nat) (victims : List FrameNode) (pool : BufferPool P) :
    (evictLoop maxSize victims pool).capacity = pool.capacity := by
  induction victims generalizing pool with
  | nil => rfl
  | cons victim rest ih =>
    rw [evictLoop]
    split
    · exact ih _
    · rfl

theorem capacity_flushLoop (writer : Nat → P → Except Error Unit) (rest : List FrameNode) (pool : BufferPool P) :
    (flushLoop writer rest pool).2.capacity = pool.capacity := by
  induction rest generalizing pool with
  | nil => rfl
  | cons node rest ih =>
    rw [flushLoop]
    dsimp only
    split
    · exact ih _
    · split
      · rfl
      · rw [ih, capacity_place]
        rfl

theorem capacity_discardLoop (rest : List FrameNode) (pool : BufferPool P) :
    (discardLoop rest pool).capacity = pool.capacity := by
  induction rest generalizing pool with
  | nil => rfl
  | cons node rest ih =>
    rw [discardLoop]
    dsimp only
    split
    · exact ih _
    · split
      · exact ih _
      · exact ih _

theorem capacity_step (pool : BufferPool P) (op : Op P) : (pool.step op).capacity = pool.capacity := by
  cases op with
  | get page =>
    rw [step, BufferPool.get]
    split
    · rfl
    · exact capacity_touch _ _
  | put page contents =>
    rw [step, BufferPool.put]
    split
    · exact (capacity_touch _ _).trans (capacity_place _ _)
    · exact capacity_evictLoop _ _ _
  | invalidate page =>
    rw [step, BufferPool.invalidate]
    split
    · rfl
    · split
      · rfl
      · split <;> rfl
  | pin page =>
    rw [step, BufferPool.pin]
    split
    · rfl
    · exact (capacity_touch _ _).trans (capacity_place _ _)
  | unpin page =>
    rw [step, BufferPool.unpin]
    split
    · rfl
    · dsimp only
      split
      · rfl
      · exact capacity_place _ _
  | putDirty page contents =>
    rw [step, BufferPool.putDirty]
    split
    · exact (capacity_touch _ _).trans (capacity_place _ _)
    · rfl
  | flushDirty writer =>
    have hloop := capacity_flushLoop writer pool.held pool
    rw [step, BufferPool.flushDirty]
    cases hrun : flushLoop writer pool.held pool with
    | mk result pool' =>
      rw [hrun] at hloop
      cases result with
      | error error => exact hloop
      | ok done => exact (capacity_evictLoop _ _ _).trans hloop
  | discardDirty => exact (capacity_evictLoop _ _ _).trans (capacity_discardLoop _ _)
  | resetMetrics => rfl

theorem capacity_run (pool : BufferPool P) (ops : List (Op P)) : (pool.run ops).capacity = pool.capacity := by
  induction ops generalizing pool with
  | nil => rfl
  | cons op rest ih => exact (ih _).trans (capacity_step pool op)

/-- After every run the index, the two lists and the frames agree. A step lets go only of the held frames
that it writes clean, unpins or discards, and eviction of none. A put that inserts a page leaves no more
frames than the capacity when none is held, and any other put leaves as many as there were. -/
theorem run_represents [Inhabited P] (capacityPages : Nat) (ops : List (Op P)) :
    let pool : BufferPool P := (create capacityPages).run ops
    pool.Represents ∧
    (∀ op, Retains pool (pool.step op) (Releases op)) ∧
    pool.KeepsHeld ∧
    (∀ writer, (flushLoop writer pool.held pool).2.KeepsHeld) ∧
    (discardLoop pool.held pool).KeepsHeld ∧
    (∀ page contents, pool.find page = none → (pool.put page contents).held = [] →
      (pool.put page contents).index.length ≤ (create capacityPages : BufferPool P).capacity) ∧
    ∀ page contents, pool.find page ≠ none →
      (pool.put page contents).index.length = pool.index.length := by
  intro pool
  have h : pool.Sound := (sound_create capacityPages).run ops
  have hcapacity : pool.capacity = (create capacityPages : BufferPool P).capacity := capacity_run _ ops
  refine ⟨h.represents, fun op => (h.step op).2, h.keepsHeld, fun writer => ?_, ?_, fun page contents hfind hheld => ?_,
    fun page contents hfind => ?_⟩
  · exact (h.flushLoop writer pool.held fun node hnode => List.mem_append_right _ hnode).1.keepsHeld
  · exact (h.discardLoop (fun _ hnode => hnode) h.linked.nodup.of_append_right).1.keepsHeld
  · have hlength := h.length_put hfind contents
    have hpos := h.capacity
    rw [hheld, List.length_nil, hcapacity, Nat.max_eq_left (hcapacity ▸ hpos)] at hlength
    exact hlength
  · obtain ⟨node, hnode⟩ := Option.ne_none_iff_exists'.1 hfind
    exact h.length_renew hnode contents

/-- Two dirty pages in a pool for one are more frames than its capacity, and stay so when each is put again. -/
theorem length_put_exceeds :
    ((create 1 : BufferPool Nat).run
      [.putDirty 1 10, .putDirty 2 20, .put 1 10, .put 2 20]).held = [] ∧
    (create 1 : BufferPool Nat).capacity < ((create 1 : BufferPool Nat).run
      [.putDirty 1 10, .putDirty 2 20, .put 1 10, .put 2 20]).index.length := by
  decide

end BufferPool

end MoDb.Storage
