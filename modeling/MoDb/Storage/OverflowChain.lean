import MoDb.Storage.HeapChain

/-!
# Chains of overflow pages

The pages of a chain carry a record piece by piece, and the walks along the chain find it.
-/

namespace MoDb.Storage

variable [PageSize]

def Carries : List (Nat × Area) → Bytes → Prop
  | [], data => data = []
  | page :: rest, data => ∃ length,
      validateOverflowPage page.2 = .ok ⟨rest.head?.map Prod.fst, length⟩ ∧ length ≤ data.length ∧
        readArea page.2 overflowPageHeaderSize length = data.take length ∧
        Carries rest (data.drop length)

variable {file : PageFile Area} {chain : List (Nat × Area)} {data : Bytes} {id : Nat}

theorem length_pos_of_validate {page : Area} {info : OverflowPageInfo}
    (h : validateOverflowPage page = .ok info) : 0 < info.length ∧ info.length ≤ overflowPageCapacity := by
  unfold validateOverflowPage at h
  extract_lets version length at h
  split at h
  · cases h
  · split at h
    · cases h
    · split at h
      · cases h
      · rename_i hlength
        rw [not_or] at hlength
        have hinfo : info.length = length := by rw [← Except.ok.inj h]
        rw [hinfo]
        exact ⟨Nat.pos_of_ne_zero hlength.1, Nat.not_lt.1 hlength.2⟩

theorem piece_end_le {page : Area} {info : OverflowPageInfo} (h : validateOverflowPage page = .ok info) :
    overflowPageHeaderSize + info.length ≤ pageSize :=
  Nat.add_le_of_le_sub' (Nat.le_trans (by decide) (Nat.le_of_lt lt_pageSize)) (length_pos_of_validate h).2

theorem Carries.ne_nil (h : Carries chain data) (hne : chain ≠ []) : data ≠ [] := by
  cases chain with
  | nil => exact absurd rfl hne
  | cons page rest =>
    obtain ⟨length, hvalidate, hle, -⟩ := h
    have hpos := (length_pos_of_validate hvalidate).1
    rintro rfl
    exact Nat.lt_irrefl 0 (Nat.lt_of_lt_of_le hpos hle)

/-! ### The walks -/

def overflowNext (file : PageFile Area) (id : Nat) : Option Nat :=
  match file.read id with
  | .ok page =>
    match validateOverflowPage page with
    | .ok info => info.next
    | .error _ => none
  | .error _ => none

theorem overflowNext_eq {page : Area} {info : OverflowPageInfo} (hread : file.read id = .ok page)
    (hvalidate : validateOverflowPage page = .ok info) : overflowNext file id = info.next := by
  unfold overflowNext
  rw [hread]
  dsimp only
  rw [hvalidate]

def Standing (file : PageFile Area) (chain : List (Nat × Area)) : Prop :=
  ∀ page ∈ chain, file.read page.1 = .ok page.2

theorem Carries.path (h : Carries chain data) (hstanding : Standing file chain) :
    Chain.Path (overflowNext file) (chain.head?.map Prod.fst) (chain.map Prod.fst) none := by
  induction chain generalizing data with
  | nil => rfl
  | cons page rest ih =>
    obtain ⟨length, hvalidate, -, -, hrest⟩ := h
    refine ⟨rfl, ?_⟩
    rw [overflowNext_eq (hstanding page List.mem_cons_self) hvalidate]
    exact ih hrest fun other hother => hstanding other (List.mem_cons_of_mem _ hother)

theorem overflowTurn_eq {page : Area} {info : OverflowPageInfo} (hread : file.read id = .ok page)
    (hvalidate : validateOverflowPage page = .ok info) (found : List Nat × Nat) :
    TableHeap.overflowTurn file id found = .ok ((found.1 ++ [id], found.2 + info.length), info.next) := by
  unfold TableHeap.overflowTurn
  rw [hread]
  change (validateOverflowPage page >>= _) = _
  rw [hvalidate]
  rfl

theorem overflowTurn_ok {found found' : List Nat × Nat} {next : Option Nat}
    (h : TableHeap.overflowTurn file id found = .ok (found', next)) :
    ∃ page info, file.read id = .ok page ∧ validateOverflowPage page = .ok info ∧
      found' = (found.1 ++ [id], found.2 + info.length) ∧ next = info.next := by
  unfold TableHeap.overflowTurn at h
  cases hread : file.read id with
  | error error =>
    rw [hread] at h
    cases h
  | ok page =>
    rw [hread] at h
    change (validateOverflowPage page >>= _) = _ at h
    cases hvalidate : validateOverflowPage page with
    | error error =>
      rw [hvalidate] at h
      cases h
    | ok info =>
      rw [hvalidate] at h
      cases h
      exact ⟨page, info, rfl, hvalidate, rfl, rfl⟩

theorem link_overflowTurn (id : Nat) (found found' : List Nat × Nat) (next : Option Nat)
    (h : TableHeap.overflowTurn file id found = .ok (found', next)) : overflowNext file id = next := by
  obtain ⟨page, info, hread, hvalidate, -, rfl⟩ := overflowTurn_ok h
  exact overflowNext_eq hread hvalidate

theorem along_overflowTurn (h : Carries chain data) (hstanding : Standing file chain)
    (found : List Nat × Nat) :
    Walk.along (TableHeap.overflowTurn file) (chain.map Prod.fst) found =
      .ok (found.1 ++ chain.map Prod.fst, found.2 + data.length) := by
  induction chain generalizing data found with
  | nil =>
    rw [show data = [] from h]
    simp [Walk.along]
  | cons page rest ih =>
    obtain ⟨length, hvalidate, hle, -, hrest⟩ := h
    rw [List.map_cons, Walk.along, overflowTurn_eq (hstanding page List.mem_cons_self) hvalidate]
    dsimp only
    rw [ih hrest fun other hother => hstanding other (List.mem_cons_of_mem _ hother)]
    rw [List.length_drop, List.append_assoc, List.singleton_append, Nat.add_assoc, Nat.add_sub_cancel' hle]

theorem Carries.visit (h : Carries chain data) (hstanding : Standing file chain) {first : Nat}
    (hfirst : chain.head?.map Prod.fst = some first) :
    Walk.visit overflowCycle (TableHeap.overflowTurn file) (pageFuel file) [] first ([], 0) =
      .ok (chain.map Prod.fst, data.length) := by
  have hpath := h.path hstanding
  rw [hfirst] at hpath
  have hlt : ∀ id ∈ chain.map Prod.fst, id < file.pageCount := by
    intro id hid
    obtain ⟨page, hpage, rfl⟩ := List.mem_map.1 hid
    exact lt_pageCount_of_read (hstanding page hpage)
  refine (Walk.visit_eq_ok_iff link_overflowTurn).2 ⟨chain.map Prod.fst,
    Nat.le_succ_of_le (length_le_pageCount hpath.nodup hlt), hpath, fun _ _ => List.not_mem_nil, ?_⟩
  rw [along_overflowTurn h hstanding, List.nil_append, Nat.zero_add]

/-! ### Reading -/

theorem chainTurn_eq {page : Area} {info : OverflowPageInfo} (hread : file.read id = .ok page)
    (hvalidate : validateOverflowPage page = .ok info) {total : Nat} {out : Bytes}
    (hfits : out.length + info.length ≤ total) : TableHeap.chainTurn file total id out =
      .ok (out ++ readArea page overflowPageHeaderSize info.length, info.next) := by
  unfold TableHeap.chainTurn
  rw [hread]
  change (validateOverflowPage page >>= _) = _
  rw [hvalidate]
  change (if total < out.length + info.length then _ else _) = _
  rw [if_neg (Nat.not_lt.2 hfits)]
  rfl

theorem link_chainTurn (total : Nat) (id : Nat) (out out' : Bytes) (next : Option Nat)
    (h : TableHeap.chainTurn file total id out = .ok (out', next)) : overflowNext file id = next := by
  unfold TableHeap.chainTurn at h
  cases hread : file.read id with
  | error error =>
    rw [hread] at h
    cases h
  | ok page =>
    rw [hread] at h
    change (validateOverflowPage page >>= _) = _ at h
    cases hvalidate : validateOverflowPage page with
    | error error =>
      rw [hvalidate] at h
      cases h
    | ok info =>
      rw [hvalidate] at h
      change (if total < out.length + info.length then _ else _) = _ at h
      split at h
      · cases h
      · cases h
        exact overflowNext_eq hread hvalidate

theorem along_chainTurn (h : Carries chain data) (hstanding : Standing file chain) {total : Nat}
    {out : Bytes} (hfits : out.length + data.length ≤ total) :
    Walk.along (TableHeap.chainTurn file total) (chain.map Prod.fst) out = .ok (out ++ data) := by
  induction chain generalizing data out with
  | nil =>
    rw [show data = [] from h, List.append_nil]
    rfl
  | cons page rest ih =>
    obtain ⟨length, hvalidate, hle, hpiece, hrest⟩ := h
    have hturn := @chainTurn_eq _ file page.1 page.2 _ (hstanding page List.mem_cons_self) hvalidate total out
      (by dsimp only; omega)
    rw [List.map_cons, Walk.along, hturn]
    dsimp only
    rw [ih hrest fun other hother => hstanding other (List.mem_cons_of_mem _ hother), hpiece,
      List.append_assoc, List.take_append_drop]
    rw [hpiece, List.length_append, List.length_take, List.length_drop]
    omega

theorem Carries.readChain (h : Carries chain data) (hstanding : Standing file chain) {first : Nat}
    (hfirst : chain.head?.map Prod.fst = some first) (hmax : data.length ≤ overflowMaxTotal) :
    TableHeap.readChain file ⟨data.length, first⟩ = .ok data := by
  have hne : chain ≠ [] := by
    rintro rfl
    cases hfirst
  have hdata : data.length ≠ 0 := fun hzero => h.ne_nil hne (List.length_eq_zero_iff.1 hzero)
  have hpath := h.path hstanding
  rw [hfirst] at hpath
  have hlt : ∀ id ∈ chain.map Prod.fst, id < file.pageCount := by
    intro id hid
    obtain ⟨page, hpage, rfl⟩ := List.mem_map.1 hid
    exact lt_pageCount_of_read (hstanding page hpage)
  have hvisit : Walk.visit overflowCycle (TableHeap.chainTurn file data.length) (pageFuel file) [] first [] =
      .ok data := by
    refine (Walk.visit_eq_ok_iff (link_chainTurn data.length)).2 ⟨chain.map Prod.fst,
      Nat.le_succ_of_le (length_le_pageCount hpath.nodup hlt), hpath, fun _ _ => List.not_mem_nil, ?_⟩
    rw [along_chainTurn h hstanding (by simp), List.nil_append]
  unfold TableHeap.readChain
  dsimp only
  rw [if_neg (not_or.2 ⟨hdata, Nat.not_lt.2 hmax⟩), hvisit]
  change (if data.length ≠ data.length then _ else _) = _
  rw [if_neg (not_not.2 rfl)]
  rfl

end MoDb.Storage
