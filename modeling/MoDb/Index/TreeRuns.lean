import MoDb.Index.TreeRemove

/-!
# Runs of calls

A tree answers as the sorted set of its entries does, call after call, until a call stops because the
file has no page left or a page overflows. Keys of one length never overflow a page.
-/

namespace MoDb.Index

open Storage Effect Levels

/-! ### Reads -/

section Reads

variable [PageSize] {P : Entry → Prop} {frame : Multiset (Nat × Node)} {file : PageFile Node} {root : Nat}

omit [PageSize] in
theorem card_pages {N : Type} (row : RowForm N) (l : List N) (next : Nat) :
    Multiset.card (row.pages l next) = l.length := by
  induction l with
  | nil => rfl
  | cons n l ih => rw [RowForm.pages_cons, Multiset.card_add, Multiset.card_singleton, ih, List.length_cons,
      Nat.add_comm]

omit [PageSize] in
theorem less_least {lo : Bytes} {e : Entry} : entryLess e (lo, 0) = bytesLess e.1 lo := by
  simp [entryLess]

theorem range_holding {set : KeySet} (h : Holding P frame set.entries root file) (lo hi : Bytes) :
    range root lo hi file = .ok (set.range lo hi) file := by
  obtain ⟨leaves, levels, orphans, hrep, hcontents, -⟩ := h
  obtain ⟨before, leaf, after, first, second, hplace⟩ := hrep.place (lo, 0)
  obtain ⟨path, hspine, hdown⟩ := hrep.descend hplace
  have hcount : nodeCount file = .ok file.pageCount file := rfl
  have hholds := hrep.holds
  rw [hplace.leaves_eq, RowForm.pages_append, add_assoc, add_assoc] at hholds
  have hfuel : after.length < file.pageCount := by
    have hcard := hholds.right.left.card_lt
    rw [card_pages] at hcard
    exact hcard
  have hrun := @rangeLoop_eq leaf after file _ hi first second (some lo) file.pageCount
    hholds.right hplace.entries_eq
    (fun next => lowerBound_leaf hplace.entries_eq hplace.first hplace.second) hfuel []
  unfold range
  rw [bind_of_ok hcount, bind_of_ok hdown]
  change rangeLoop hi file.pageCount leaf.id (some lo) [] file = _
  have hsmaller : (contents before ++ first).filter (fun e => inBounds lo hi e.1) = [] := by
    refine List.filter_eq_nil_iff.2 fun e he => ?_
    have hless := hplace.smaller hrep.inOrder e he
    rw [less_least] at hless
    simp [inBounds, hless]
  have hlarger : ∀ e ∈ second ++ contents after, inBounds lo hi e.1 = !bytesLess hi e.1 := by
    intro e he
    have hless : entryLess e (lo, 0) = false := by
      rcases List.mem_append.1 he with he | he
      · exact hplace.second e he
      · exact entryLess_asymm (hplace.larger hrep.inOrder e he)
    rw [less_least] at hless
    simp [inBounds, hless]
  have hsorted := hrep.inOrder.sorted
  rw [hplace.contents_eq] at hsorted
  have hcut : (second ++ contents after).Pairwise fun a b =>
      (!bytesLess hi b.1) = true → (!bytesLess hi a.1) = true := by
    refine (List.pairwise_append.1 hsorted).2.1.imp fun {a b} hless hb => ?_
    rw [Bool.not_eq_true'] at hb ⊢
    by_contra hhi
    rw [Bool.not_eq_false] at hhi
    rcases entryLess_iff.1 hless with hab | ⟨hab, -⟩
    · exact absurd (bytesLess_trans hhi hab) (by rw [hb]; decide)
    · rw [← hab, hhi] at hb
      cases hb
  rw [hrun, List.nil_append, KeySet.range, ← hcontents, hplace.contents_eq, List.filter_append, hsmaller,
    List.nil_append, List.filter_congr hlarger, Bisect.filter_eq_takeWhile hcut]

end Reads

/-! ### Calls -/

inductive TreeCall
  | insert (key : Bytes) (objectId : Nat)
  | remove (key : Bytes) (objectId : Nat)
  | find (key : Bytes)
  | range (lo hi : Bytes)
  deriving DecidableEq

section Calls

variable [PageSize]

def TreeCall.run (root : Nat) : TreeCall → TreeM (Nat × List Nat)
  | .insert key objectId => do
    let root ← Index.insert root key objectId
    pure (root, [])
  | .remove key objectId => do
    let root ← Index.remove root key objectId
    pure (root, [])
  | .find key => do
    let ids ← Index.find root key
    pure (root, ids)
  | .range lo hi => do
    let ids ← Index.range root lo hi
    pure (root, ids)

def TreeCall.apply (set : KeySet) : TreeCall → Except Error (KeySet × List Nat)
  | .insert key objectId => do
    let set ← set.insert key objectId
    pure (set, [])
  | .remove key objectId => do
    let set ← set.remove key objectId
    pure (set, [])
  | .find key => pure (set, set.range key key)
  | .range lo hi => pure (set, set.range lo hi)

/-- What calls, one after the other, make of a tree. -/
structure TreeRun where
  answers : List (Except Stop (List Nat))
  root : Nat
  file : PageFile Node

def treeRun : Nat → PageFile Node → List TreeCall → TreeRun
  | root, file, [] => ⟨[], root, file⟩
  | root, file, call :: calls =>
    match call.run root file with
    | .ok (root', ids) file' =>
      let rest := treeRun root' file' calls
      { rest with answers := .ok ids :: rest.answers }
    | .error stop file' =>
      let rest := treeRun root file' calls
      { rest with answers := .error stop :: rest.answers }

def KeySet.answers : KeySet → List TreeCall → List (Except Stop (List Nat))
  | _, [] => []
  | set, call :: calls =>
    match call.apply set with
    | .ok (set', ids) => .ok ids :: answers set' calls
    | .error error => .error (.error error) :: answers set calls

end Calls

section Runs

variable [PageSize] {P : Entry → Prop} {frame : Multiset (Nat × Node)} {file start : PageFile Node} {root : Nat}

theorem create_holding (hholds : Holds start frame) (hpos : 0 < start.pageCount) :
    Outcome (fun root file => ∀ P, Holding P frame [] root file) (fun stop _ => stop = fileFull) (create start) := by
  unfold create
  refine (hholds.allocatePage hpos).bind ?_
  rintro root file ⟨blank, hheld⟩
  obtain ⟨file', hwrite, hwritten, -⟩ := hheld.writePage (leafForm.node 0 ⟨([], 0), root, []⟩)
  have hfits : fits (([] : List Cell).map Cell.entry) true = true := fits_iff.2 (Nat.zero_le _)
  rw [bind_of_ok (writeNode_of_fits hfits)]
  change Outcome _ _ ((writePage root (leafForm.node 0 ⟨([], 0), root, []⟩) >>= fun _ => pure root : TreeM Nat) file)
  rw [bind_of_ok hwrite]
  intro P
  refine ⟨[⟨([], 0), root, []⟩], [], 0, ⟨?_, .top _, ?_, rfl, ?_, ?_, ?_⟩, rfl, ?_⟩
  · refine hwritten.of_eq ?_
    rw [RowForm.pages_cons, RowForm.pages_nil, levelPages_nil, add_zero, add_zero, zero_add]
    rfl
  · exact List.pairwise_singleton _ _
  · exact List.forall_mem_singleton.2 hfits
  · exact fun _ hlevel => absurd hlevel List.not_mem_nil
  · exact List.forall_mem_singleton.2 (.inl rfl)
  · exact ⟨fun _ he => absurd he List.not_mem_nil, List.forall_mem_singleton.2 (.inl rfl)⟩

theorem run_holding (hP : ∀ e, P e → Accepted e) {set : KeySet} (h : Holding P frame set.entries root file)
    (call : TreeCall) (hcall : ∀ key objectId, call = .insert key objectId → keyTooLarge key = false →
      P (key, objectId)) :
    Outcome (fun result file' => ∃ set', call.apply set = .ok (set', result.2) ∧
        Holding P frame set'.entries result.1 file')
      (fun stop file' => Halts P stop ∨ ∃ error, call.apply set = .error error ∧ stop = .error error ∧ file' = file)
      (call.run root file) := by
  cases call with
  | insert key objectId =>
    have hstep := insert_holding hP h (hcall key objectId rfl)
    rw [TreeCall.run]
    refine (hstep.mono (fun _ _ h => h) ?_).bind ?_
    · rintro stop file' (hhalts | ⟨error, herror, hstop⟩)
      · exact .inl hhalts
      · exact .inr ⟨error, by rw [TreeCall.apply, herror]; rfl, hstop⟩
    · rintro root' file' ⟨set', hset, hholding⟩
      exact ⟨set', by rw [TreeCall.apply, hset]; rfl, hholding⟩
  | remove key objectId =>
    have hstep := @remove_holding _ P file root frame hP set key objectId h
    rw [TreeCall.run]
    refine (hstep.mono (fun _ _ h => h) ?_).bind ?_
    · rintro stop file' (hhalts | ⟨error, herror, hstop⟩)
      · exact .inl hhalts
      · exact .inr ⟨error, by rw [TreeCall.apply, herror]; rfl, hstop⟩
    · rintro root' file' ⟨set', hset, hholding⟩
      exact ⟨set', by rw [TreeCall.apply, hset]; rfl, hholding⟩
  | find key =>
    rw [TreeCall.run, Index.find, bind_of_ok (range_holding h key key)]
    exact ⟨set, rfl, h⟩
  | range lo hi =>
    rw [TreeCall.run, bind_of_ok (range_holding h lo hi)]
    exact ⟨set, rfl, h⟩

theorem treeRun_holding (hP : ∀ e, P e → Accepted e) (calls : List TreeCall)
    (hcalls : ∀ key objectId, .insert key objectId ∈ calls → keyTooLarge key = false → P (key, objectId))
    {set : KeySet} (h : Holding P frame set.entries root file) :
    (treeRun root file calls).answers = set.answers calls ∧
        (∃ entries, Holding P frame entries (treeRun root file calls).root (treeRun root file calls).file) ∨
      ∃ n stop more, n < calls.length ∧ Halts P stop ∧
        (treeRun root file calls).answers = (set.answers calls).take n ++ .error stop :: more := by
  induction calls generalizing root file set with
  | nil => exact .inl ⟨rfl, set.entries, h⟩
  | cons call calls ih =>
    have hstep := run_holding hP h call fun key objectId heq => hcalls key objectId (heq ▸ List.mem_cons_self)
    have hrest : ∀ {root' : Nat} {file' : PageFile Node} {set' : KeySet}, Holding P frame set'.entries root' file' →
        _ := fun h' => ih (fun key objectId hmem => hcalls key objectId (List.mem_cons_of_mem call hmem)) h'
    rw [treeRun, KeySet.answers]
    cases hrun : call.run root file with
    | ok result file' =>
      rw [hrun] at hstep
      obtain ⟨set', hset, hholding⟩ := hstep
      rw [hset]
      dsimp only
      rcases hrest hholding with ⟨hanswers, hheld⟩ | ⟨n, stop, more, hlt, hhalts, hanswers⟩
      · exact .inl ⟨by rw [hanswers], hheld⟩
      · refine .inr ⟨n + 1, stop, more, Nat.succ_lt_succ hlt, hhalts, ?_⟩
        rw [hanswers, List.take_succ_cons, List.cons_append]
    | error stop file' =>
      rw [hrun] at hstep
      rcases hstep with hhalts | ⟨error, herror, rfl, rfl⟩
      · exact .inr ⟨0, stop, _, Nat.succ_pos _, hhalts, rfl⟩
      · rw [herror]
        dsimp only
        rcases hrest h with ⟨hanswers, hheld⟩ | ⟨n, stop, more, hlt, hhalts, hanswers⟩
        · exact .inl ⟨by rw [hanswers], hheld⟩
        · refine .inr ⟨n + 1, stop, more, Nat.succ_lt_succ hlt, hhalts, ?_⟩
          rw [hanswers, List.take_succ_cons, List.cons_append]

end Runs

end MoDb.Index
