import MoDb.Index.TreePages
import MoDb.Store.IndexDirectory
import MoDb.Store.ScanStream

/-!
# The readers of chains

Which readers of a file end, whatever its pages hold. A scan always does. The directory of indexes, the walk
down a tree and the walk along its leaves go round where the links they follow come back to a page.
-/

namespace MoDb.Store

open Storage Index

variable [PageSize] {file : PageFile Area}

/-! ### The directory of indexes -/

/-- The page that `IndexCatalog::open` goes on with. -/
def catalogLink (file : PageFile Area) (current : Nat) : Option Nat :=
  if current = 0 then none
  else
    match file.read current with
    | .error _ => none
    | .ok page =>
      match IndexCatalog.parseDirectoryPage page with
      | .error _ => none
      | .ok (_, next) => some next

/-- The loop of `open` has run out of rounds. -/
def Unfinished {α : Type} : EStateM.Result Error (PageFile Area) (Option α) → Prop
  | .ok none _ => True
  | _ => False

theorem openLoop_unfinished_iff {directory rounds current : Nat} {indexes : List IndexCatalog.IndexInfo}
    {overflow : List Nat} :
    Unfinished (IndexCatalog.openLoop directory rounds current indexes overflow file) ↔
      Walk.follow (catalogLink file) rounds current ≠ none := by
  induction rounds generalizing current indexes overflow with
  | zero => simp [IndexCatalog.openLoop, Walk.follow, Unfinished]
  | succ rounds ih =>
    rw [IndexCatalog.openLoop, Walk.follow, catalogLink]
    by_cases hend : current = 0
    · rw [if_pos hend, if_pos hend]
      simp [Unfinished]
    · rw [if_neg hend, if_neg hend]
      cases hread : file.read current with
      | error error =>
        have hfault : PageM.read current file = .error error file := by rw [PageM.read, hread]
        rw [Effect.bind_of_error hfault]
        simp [Unfinished]
      | ok page =>
        have hpage : PageM.read current file = .ok page file := by rw [PageM.read, hread]
        rw [Effect.bind_of_ok hpage]
        dsimp only
        cases IndexCatalog.parseDirectoryPage page with
        | error error => simp [Unfinished, PageM.check]
        | ok found => exact ih

theorem open_unfinished_iff {directory rounds : Nat} :
    Unfinished (IndexCatalog.open directory rounds file) ↔
      Walk.follow (catalogLink file) rounds directory ≠ none := by
  rw [← @openLoop_unfinished_iff _ file directory rounds directory [] [], IndexCatalog.open]
  cases hloop : IndexCatalog.openLoop directory rounds directory [] [] file with
  | error error file' =>
    rw [Effect.bind_of_error hloop]
    simp [Unfinished]
  | ok result file' =>
    rw [Effect.bind_of_ok hloop]
    cases result <;> simp [Unfinished]

theorem catalogLink_lt (current next : Nat) (h : catalogLink file current = some next) :
    current ∈ Finset.range file.pageCount := by
  unfold catalogLink at h
  split at h
  · cases h
  · cases hread : file.read current with
    | error error =>
      rw [hread] at h
      cases h
    | ok page => exact Finset.mem_range.2 (lt_pageCount_of_read hread)

/-! ### All readers -/

inductive Reader
  | openCatalog (directory : Nat)
  | descend (root : Nat) (key : Bytes) (objid : Nat)
  | range (root : Nat) (lo hi : Bytes)
  | find (root : Nat) (key : Bytes)
  | scanStream (root directoryRoot : Nat) (epoch : UInt64) (type : Option TypeDefinitionId)

/-- The reader is done, with a result or an error, after reading as many pages of its chain. -/
def Reader.Done (file : PageFile Area) (rounds : Nat) : Reader → Prop
  | .openCatalog directory => ¬Unfinished (IndexCatalog.open directory rounds file)
  | .descend root key objid => Index.descend file (key, objid) rounds root ≠ none
  | .range root lo hi => rangeOf file root lo hi rounds ≠ none
  | .find root key => rangeOf file root key key rounds ≠ none
  | .scanStream root directoryRoot epoch type =>
    Store.scanStream file root directoryRoot epoch type rounds ≠ none

def Reader.GoesRound (file : PageFile Area) : Reader → Prop
  | .openCatalog directory => Walk.Returns (catalogLink file) directory
  | .descend root key objid => Walk.Returns (childLink file (key, objid)) root
  | .range root lo hi => Walk.Returns (childLink file (lo, 0)) root ∨ LeavesReturn file root lo hi
  | .find root key => Walk.Returns (childLink file (key, 0)) root ∨ LeavesReturn file root key key
  | .scanStream .. => False

/-- A reader ends unless it follows links that are not checked and these come back to a page. -/
theorem reader_ends_iff (file : PageFile Area) (reader : Reader) :
    (∃ rounds, reader.Done file rounds) ↔ ¬reader.GoesRound file := by
  cases reader with
  | openCatalog directory =>
    rw [Reader.GoesRound, ← Walk.ends_iff catalogLink_lt]
    exact exists_congr fun rounds => by rw [Reader.Done, open_unfinished_iff, not_not]
  | descend root key objid => exact descend_ends_iff
  | range root lo hi =>
    rw [Reader.GoesRound, not_or]
    exact rangeOf_ends_iff
  | find root key =>
    rw [Reader.GoesRound, not_or]
    exact rangeOf_ends_iff
  | scanStream root directoryRoot epoch type =>
    exact iff_of_true (scanStream_ends root directoryRoot epoch type) not_false

/-! ### Links that come back -/

/-- A page of each chain that links to itself: of the directory of indexes, an inner node without keys, and
a leaf without entries. -/
def loopFile : PageFile Area where
  data := ⟨4, none, fun id =>
    if id = 1 then IndexCatalog.directoryPage [] 1
    else if id = 2 then storeAt (copyTo default 0 internalMagic) 16 8 2
    else storeAt (copyTo default 0 leafMagic) 16 8 3, 4⟩
  pageCount := 4
  catalogRoot := none

omit [PageSize] in
theorem loopFile_never_done : letI := PageSize.default
    (∀ rounds, ¬(Reader.openCatalog 1).Done loopFile rounds) ∧
      (∀ rounds, ¬(Reader.descend 2 [] 0).Done loopFile rounds) ∧
      ∀ rounds, ¬(Reader.range 3 [] []).Done loopFile rounds := by
  have hcatalog : @catalogLink PageSize.default loopFile 1 = some 1 := by decide +kernel
  have hchild : childLink loopFile ([], 0) 2 = some 2 := by decide +kernel
  have hfirst : leafLink loopFile [] (some []) 3 = some 3 := by decide +kernel
  have hleaf : leafLink loopFile [] none 3 = some 3 := by decide +kernel
  refine ⟨fun rounds hdone => hdone ?_, fun rounds hdone => hdone ?_, fun rounds hdone => hdone ?_⟩
  · exact (@open_unfinished_iff PageSize.default _ _ _).2
      (Walk.follow_ne_none_of_returns (Walk.returns_of_link_self hcatalog))
  · exact descend_isNone_iff.2 (Walk.follow_ne_none_of_returns (Walk.returns_of_link_self hchild))
  · have hisLeaf : LeafAt loopFile 3 := ⟨_, rfl, by decide +kernel⟩
    have hdescend : ∀ rounds, Index.descend loopFile ([], 0) (rounds + 1) 3 = some (.ok 3) := fun rounds =>
      descend_of_follow rfl hisLeaf (Nat.succ_pos rounds)
    cases rounds with
    | zero => rfl
    | succ rounds =>
      rw [rangeOf, hdescend rounds]
      exact followLeaves_first_isNone_iff.2
        ⟨3, hfirst, Walk.follow_ne_none_of_returns (Walk.returns_of_link_self hleaf)⟩

end MoDb.Store
