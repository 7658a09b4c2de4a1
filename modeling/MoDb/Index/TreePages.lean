import MoDb.Index.BTree
import MoDb.Lib.Walk
import MoDb.Storage.HeldPages

/-!
# Reading a tree from its pages

The walks down the tree and along its leaves over the bytes of any file. Nothing stops them at a node they
have been at: they end after `rounds` nodes or not at all.
-/

namespace MoDb.Index

open Storage

def leafMagic : Bytes := [66, 84, 76, 70]
def internalMagic : Bytes := [66, 84, 73, 78]
def slotBase : Nat := 32

def cellAt (page : Area) (leaf : Bool) (offset : Nat) : Cell :=
  let keyLength := loadAt page offset 2
  ⟨readArea page (offset + 2) keyLength, loadAt page (offset + 2 + keyLength) 8,
    if leaf then 0 else loadAt page (offset + 2 + keyLength + 8) 8⟩

def Node.ofPage (page : Area) : Node :=
  let leaf := readArea page 0 4 = leafMagic
  { kind := if leaf then .leaf else if readArea page 0 4 = internalMagic then .internal else .blank
    level := loadAt page 6 2
    link := loadAt page 16 8
    cells := (List.range (loadAt page 8 2)).map fun index =>
      cellAt page leaf (loadAt page (slotBase + index * nodeSlotSize) 2) }

section Readers

variable (file : PageFile Area)

/-- `descend`, as far as `rounds` turns of its loop go. -/
def descend (target : Entry) : Nat → Nat → Option (Except Error Nat)
  | 0, _ => none
  | rounds + 1, current =>
    match file.read current with
    | .error error => some (.error error)
    | .ok page =>
      if (Node.ofPage page).isLeaf then some (.ok current)
      else descend target rounds ((Node.ofPage page).childFor target)

/-- The cells of a leaf from a place on, until one is past the upper bound; and where to go on. -/
def leafTurn (hi : Bytes) (start : Nat) (node : Node) : List Cell × Option Nat :=
  let cells := node.cells.drop start
  (cells.takeWhile fun cell => !bytesLess hi cell.key,
    if (cells.any fun cell => bytesLess hi cell.key) ∨ node.link = 0 then none else some node.link)

def startIn (lo : Option Bytes) (node : Node) : Nat :=
  match lo with
  | some lo => node.lowerBoundIndex (lo, 0)
  | none => 0

/-- The loop of `BTree::range` along the leaves; `lo` is there at the first one. -/
def followLeaves (hi : Bytes) : Nat → Option Bytes → Nat → List Nat → Option (Except Error (List Nat))
  | 0, _, _, _ => none
  | rounds + 1, lo, current, out =>
    match file.read current with
    | .error error => some (.error error)
    | .ok page =>
      let node := Node.ofPage page
      let (cells, next) := leafTurn hi (startIn lo node) node
      match next with
      | none => some (.ok (out ++ cells.map Cell.objid))
      | some next => followLeaves hi rounds none next (out ++ cells.map Cell.objid)

/-- `BTree::range`. -/
def rangeOf (root : Nat) (lo hi : Bytes) (rounds : Nat) : Option (Except Error (List Nat)) :=
  match descend file (lo, 0) rounds root with
  | none => none
  | some (.error error) => some (.error error)
  | some (.ok leaf) => followLeaves file hi rounds (some lo) leaf []

/-! ### Links -/

def childLink (target : Entry) (current : Nat) : Option Nat :=
  match file.read current with
  | .error _ => none
  | .ok page =>
    if (Node.ofPage page).isLeaf then none else some ((Node.ofPage page).childFor target)

def leafLink (hi : Bytes) (lo : Option Bytes) (current : Nat) : Option Nat :=
  match file.read current with
  | .error _ => none
  | .ok page => (leafTurn hi (startIn lo (Node.ofPage page)) (Node.ofPage page)).2

def LeafAt (id : Nat) : Prop := ∃ page, file.read id = .ok page ∧ (Node.ofPage page).isLeaf = true

end Readers

variable {file : PageFile Area} {target : Entry} {hi : Bytes} {current rounds : Nat}

theorem descend_isNone_iff :
    descend file target rounds current = none ↔ Walk.follow (childLink file target) rounds current ≠ none := by
  induction rounds generalizing current with
  | zero => simp [descend, Walk.follow]
  | succ rounds ih =>
    rw [descend, Walk.follow, childLink]
    cases file.read current with
    | error error => simp
    | ok page =>
      dsimp only
      split
      · simp
      · exact ih

theorem descend_eq_ok {leaf : Nat} (h : descend file target rounds current = some (.ok leaf)) :
    ∃ n, Walk.follow (childLink file target) n current = some leaf ∧ LeafAt file leaf := by
  induction rounds generalizing current with
  | zero => cases h
  | succ rounds ih =>
    rw [descend] at h
    cases hread : file.read current with
    | error error =>
      rw [hread] at h
      cases h
    | ok page =>
      rw [hread] at h
      dsimp only at h
      split at h
      · rename_i hleaf
        cases h
        exact ⟨0, rfl, page, hread, hleaf⟩
      · rename_i hinner
        obtain ⟨n, hfollow, hleaf⟩ := ih h
        refine ⟨n + 1, ?_, hleaf⟩
        rw [Walk.follow, childLink, hread]
        dsimp only
        rw [if_neg hinner]
        exact hfollow

theorem descend_of_follow {n leaf : Nat} (h : Walk.follow (childLink file target) n current = some leaf)
    (hleaf : LeafAt file leaf) (hlt : n < rounds) :
    descend file target rounds current = some (.ok leaf) := by
  induction n generalizing current rounds with
  | zero =>
    obtain ⟨rounds, rfl⟩ := Nat.exists_eq_add_of_lt hlt
    cases h
    obtain ⟨page, hread, hisLeaf⟩ := hleaf
    rw [descend, hread]
    dsimp only
    rw [if_pos hisLeaf]
  | succ n ih =>
    obtain ⟨rounds, rfl⟩ := Nat.exists_eq_add_of_lt hlt
    rw [Walk.follow, childLink] at h
    rw [descend]
    cases hread : file.read current with
    | error error =>
      rw [hread] at h
      cases h
    | ok page =>
      rw [hread] at h
      dsimp only at h ⊢
      split at h
      · cases h
      · rename_i hinner
        rw [if_neg hinner]
        exact ih h (by omega)

theorem descend_of_le {more : Nat} (h : descend file target rounds current ≠ none) (hle : rounds ≤ more) :
    descend file target more current = descend file target rounds current := by
  induction rounds generalizing current more with
  | zero => exact absurd rfl h
  | succ rounds ih =>
    obtain ⟨extra, rfl⟩ := Nat.exists_eq_add_of_le hle
    rw [Nat.succ_add, descend, descend]
    rw [descend] at h
    cases hread : file.read current with
    | error error => rfl
    | ok page =>
      rw [hread] at h
      dsimp only at h ⊢
      split
      · rfl
      · rename_i hinner
        rw [if_neg hinner] at h
        exact ih h (Nat.le_add_right _ _)

theorem followLeaves_of_le {lo : Option Bytes} {out : List Nat} {more : Nat}
    (h : followLeaves file hi rounds lo current out ≠ none) (hle : rounds ≤ more) :
    followLeaves file hi more lo current out = followLeaves file hi rounds lo current out := by
  induction rounds generalizing lo current out more with
  | zero => exact absurd rfl h
  | succ rounds ih =>
    obtain ⟨extra, rfl⟩ := Nat.exists_eq_add_of_le hle
    rw [Nat.succ_add, followLeaves, followLeaves]
    rw [followLeaves] at h
    cases hread : file.read current with
    | error error => rfl
    | ok page =>
      rw [hread] at h
      dsimp only at h ⊢
      split
      · rfl
      · rename_i next hnext
        rw [hnext] at h
        exact ih h (Nat.le_add_right _ _)

theorem followLeaves_isNone_iff {out : List Nat} :
    followLeaves file hi rounds none current out = none ↔
      Walk.follow (leafLink file hi none) rounds current ≠ none := by
  induction rounds generalizing current out with
  | zero => simp [followLeaves, Walk.follow]
  | succ rounds ih =>
    rw [followLeaves, Walk.follow, leafLink]
    cases file.read current with
    | error error => simp
    | ok page =>
      dsimp only
      split
      · rename_i hnext
        rw [hnext]
        simp
      · rename_i next hnext
        rw [hnext]
        exact ih

theorem followLeaves_first_isNone_iff {lo : Bytes} {out : List Nat} :
    followLeaves file hi (rounds + 1) (some lo) current out = none ↔
      ∃ next, leafLink file hi (some lo) current = some next ∧
        Walk.follow (leafLink file hi none) rounds next ≠ none := by
  rw [followLeaves, leafLink]
  cases file.read current with
  | error error => simp
  | ok page =>
    dsimp only
    split
    · rename_i hnext
      rw [hnext]
      simp
    · rename_i next hnext
      rw [hnext, followLeaves_isNone_iff]
      simp

/-! ### Ends -/

section Ends

variable {lo : Bytes} {root : Nat}

theorem childLink_lt (current next : Nat) (h : childLink file target current = some next) :
    current ∈ Finset.range file.pageCount := by
  unfold childLink at h
  cases hread : file.read current with
  | error error =>
    rw [hread] at h
    cases h
  | ok page => exact Finset.mem_range.2 (lt_pageCount_of_read hread)

theorem leafLink_lt {lo : Option Bytes} (current next : Nat) (h : leafLink file hi lo current = some next) :
    current ∈ Finset.range file.pageCount := by
  unfold leafLink at h
  cases hread : file.read current with
  | error error =>
    rw [hread] at h
    cases h
  | ok page => exact Finset.mem_range.2 (lt_pageCount_of_read hread)

theorem descend_ends_iff :
    (∃ rounds, descend file target rounds root ≠ none) ↔ ¬Walk.Returns (childLink file target) root := by
  rw [← Walk.ends_iff childLink_lt]
  exact exists_congr fun rounds => by rw [ne_eq, descend_isNone_iff, not_not]

/-- The leaves behind the first one of a range come back to one of them. -/
def LeavesReturn (file : PageFile Area) (root : Nat) (lo hi : Bytes) : Prop :=
  ∃ n leaf next, Walk.follow (childLink file (lo, 0)) n root = some leaf ∧ LeafAt file leaf ∧
    leafLink file hi (some lo) leaf = some next ∧ Walk.Returns (leafLink file hi none) next

theorem rangeOf_ends_iff :
    (∃ rounds, rangeOf file root lo hi rounds ≠ none) ↔
      ¬Walk.Returns (childLink file (lo, 0)) root ∧ ¬LeavesReturn file root lo hi := by
  constructor
  · rintro ⟨rounds, hends⟩
    unfold rangeOf at hends
    have hdescend : descend file (lo, 0) rounds root ≠ none := by
      intro hnone
      rw [hnone] at hends
      exact hends rfl
    refine ⟨descend_ends_iff.1 ⟨rounds, hdescend⟩, ?_⟩
    rintro ⟨n, leaf, next, hfollow, hleaf, hnext, hreturns⟩
    -- the walk down ended in this leaf: it has no link
    have hsome : descend file (lo, 0) rounds root = some (.ok leaf) := by
      have hlong := descend_of_follow hfollow hleaf (Nat.lt_of_lt_of_le (Nat.lt_succ_self n)
        (Nat.le_max_left (n + 1) rounds))
      exact (descend_of_le hdescend (Nat.le_max_right (n + 1) rounds)).symm.trans hlong
    rw [hsome] at hends
    cases rounds with
    | zero => exact hends rfl
    | succ rounds =>
      exact hends (followLeaves_first_isNone_iff.2
        ⟨next, hnext, Walk.follow_ne_none_of_returns hreturns⟩)
  · rintro ⟨hdown, hleaves⟩
    obtain ⟨rounds, hdescend⟩ := descend_ends_iff.2 hdown
    cases hresult : descend file (lo, 0) rounds root with
    | none => exact absurd hresult hdescend
    | some result =>
      cases result with
      | error error =>
        refine ⟨rounds, ?_⟩
        rw [rangeOf, hresult]
        exact nofun
      | ok leaf =>
        obtain ⟨n, hfollow, hleaf⟩ := descend_eq_ok hresult
        have hends : ∃ more, followLeaves file hi (more + 1) (some lo) leaf [] ≠ none := by
          cases hnext : leafLink file hi (some lo) leaf with
          | none =>
            refine ⟨0, fun hnone => ?_⟩
            obtain ⟨next, hsome, -⟩ := followLeaves_first_isNone_iff.1 hnone
            rw [hnext] at hsome
            cases hsome
          | some next =>
            obtain ⟨more, hmore⟩ := (Walk.ends_iff leafLink_lt).2 fun hreturns =>
              hleaves ⟨n, leaf, next, hfollow, hleaf, hnext, hreturns⟩
            refine ⟨more, fun hnone => ?_⟩
            obtain ⟨next', hsome, hnever⟩ := followLeaves_first_isNone_iff.1 hnone
            rw [hnext] at hsome
            cases hsome
            exact hnever hmore
        obtain ⟨more, hends⟩ := hends
        refine ⟨max rounds (more + 1), ?_⟩
        rw [rangeOf, descend_of_le hdescend (Nat.le_max_left _ _), hresult]
        dsimp only
        rw [followLeaves_of_le hends (Nat.le_max_right _ _)]
        exact hends

end Ends

end MoDb.Index
