import MoDb.Store.BlobChains

/-!
# The blob store as a map

Over any run of calls the store holds, under the id of each blob, what the calls have made of it. Its
ids do not change, and neither do the other pages of the file.
-/

namespace MoDb.Store

open Storage Effect

variable [PageSize]

/-! ### One blob -/

/-- The pages and the contents of a blob. -/
structure Blob where
  ids : List Nat
  data : Bytes
  count : ids.length = pagesNeeded data

namespace Blob

variable (blob : Blob)

def id : Nat := blob.ids.headD 0

def pages : List (Nat × Area) := chainPages 0 blob.ids blob.data

theorem ids_ne_nil : blob.ids ≠ [] := by
  intro hnil
  have hcount := blob.count
  rw [hnil] at hcount
  exact Nat.ne_of_lt (pagesNeeded_pos blob.data) hcount

theorem exists_cons : ∃ ids, blob.ids = blob.id :: ids := by
  obtain ⟨id, ids, hids⟩ := List.exists_cons_of_ne_nil blob.ids_ne_nil
  exact ⟨ids, by rw [Blob.id, hids]; rfl⟩

end Blob

variable {tx required : Bool} {file : PageFile Area} {frame : Multiset (Nat × Area)} {blob : Blob}

theorem Held.id_ne_zero (h : Held tx file (↑blob.pages + frame)) : blob.id ≠ 0 := by
  obtain ⟨ids, hids⟩ := blob.exists_cons
  rw [Blob.pages, hids] at h
  exact h.chain_head.1

theorem Held.fuel (h : Held tx file (↑blob.pages + frame)) : blob.ids.length < file.pageCount + 1 := by
  have hcard := h.holds.left.card_lt
  have hlength : Multiset.card (↑blob.pages : Multiset (Nat × Area)) = blob.ids.length := by
    rw [Multiset.coe_card]
    calc blob.pages.length = (blob.pages.map Prod.fst).length := (List.length_map _).symm
      _ = blob.ids.length := congrArg List.length (map_fst_chainPages 0 blob.ids blob.data)
  omega

omit [PageSize] in
theorem requireWriteTransaction_ok (h : required = true → file.inTransaction = true) :
    requireWriteTransaction required file = .ok () file := by
  rw [requireWriteTransaction, if_neg]
  rintro ⟨hrequired, hnot⟩
  exact hnot (h hrequired)

theorem Held.readBlob (h : Held tx file (↑blob.pages + frame)) :
    BlobStore.read blob.id file = .ok blob.data file := by
  have hwalk := @Held.walkChain _ tx file frame Bytes
    (fun _ page header out => pure (out ++ chunkOf page header))
    (fun _ page header out => out ++ chunkOf page header) (fun _ _ _ _ => rfl) blob.ids blob.data h []
    (fun _ _ => List.not_mem_nil) _ h.fuel []
  have hall : blob.data.take (blob.ids.length * blobPageCapacity) = blob.data := by
    rw [blob.count]
    exact List.take_of_length_le (le_pagesNeeded_mul blob.data)
  rw [foldChain_contents, List.nil_append, hall] at hwalk
  rw [BlobStore.read, requireBlobId, if_neg h.id_ne_zero, pure_bind_run]
  exact hwalk

theorem Held.create (h : Held tx file frame) (hpermitted : required = true → tx = true) (data : Bytes) :
    Outcome (fun id file' => ∃ blob : Blob, blob.id = id ∧ blob.data = data ∧
        Held tx file' (↑blob.pages + frame)) (FileFull frame tx) (BlobStore.create required data file) := by
  rw [BlobStore.create, bind_of_ok (requireWriteTransaction_ok (h.tx ▸ hpermitted))]
  apply (h.allocatePages _).bind
  rintro ids file₁ ⟨hlength, fresh, rfl, h₁⟩
  obtain ⟨file₂, hwrite, h₂⟩ := h₁.writeChunks data
  rw [bind_of_ok hwrite]
  exact ⟨⟨fresh.map Prod.fst, data, hlength⟩, rfl, rfl, h₂⟩

theorem Blob.exists_last (blob : Blob) : ∃ init last, blob.ids = init ++ [last] ∧
    init.length * blobPageCapacity ≤ blob.data.length ∧
      blob.data.length ≤ init.length * blobPageCapacity + blobPageCapacity := by
  obtain ⟨init, last, hids⟩ := (List.eq_nil_or_concat blob.ids).resolve_left blob.ids_ne_nil
  rw [List.concat_eq_append] at hids
  have hcount : init.length + 1 = pagesNeeded blob.data := by
    rw [← blob.count, hids, List.length_append, List.length_singleton]
  have hupper := le_pagesNeeded_mul blob.data
  have hlower := pagesNeeded_pred_mul blob.data
  rw [← hcount, Nat.add_mul, Nat.one_mul] at hupper
  rw [← hcount, Nat.add_sub_cancel] at hlower
  refine ⟨init, last, hids, ?_, hupper⟩
  rcases hlower with hlower | hone
  · exact Nat.le_of_lt hlower
  · rw [Nat.succ.inj hone, Nat.zero_mul]
    exact Nat.zero_le _

theorem chainPages_extended {init : List Nat} {last : Nat} {ids : List Nat} {data more : Bytes}
    (hlower : init.length * blobPageCapacity ≤ data.length)
    (hupper : data.length ≤ init.length * blobPageCapacity + blobPageCapacity) :
    let tail := data.drop (init.length * blobPageCapacity)
    let inLast := min (blobPageCapacity - tail.length) more.length
    chainPages 0 (init ++ last :: ids) (data ++ more) = chainPages last init data ++
      (last, buildPage (ids.headD 0) (tail ++ more.take inLast)) ::
        chainPages 0 ids (more.drop inLast) := by
  intro tail inLast
  have htail : tail.length ≤ blobPageCapacity := by
    rw [List.length_drop]
    omega
  have htake : more.take (blobPageCapacity - tail.length) = more.take inLast :=
    List.take_eq_take_min ..
  have hdrop : more.drop (blobPageCapacity - tail.length) = more.drop inLast := by
    rcases Nat.le_total (blobPageCapacity - tail.length) more.length with hle | hle
    · rw [show inLast = _ from Nat.min_eq_left hle]
    · rw [show inLast = _ from Nat.min_eq_right hle, List.drop_length, List.drop_eq_nil_of_le hle]
  rw [chainPages_append, chainPages_congr hlower, List.drop_append_of_le_length hlower, chainPages,
    List.take_append, List.take_of_length_le htail, htake, List.drop_append,
    List.drop_eq_nil_of_le htail, List.nil_append, hdrop]
  rfl

theorem pagesNeeded_extended {count : Nat} {data more : Bytes}
    (hlower : count * blobPageCapacity ≤ data.length)
    (hupper : data.length ≤ count * blobPageCapacity + blobPageCapacity) (hmore : more ≠ []) :
    let tail := data.drop (count * blobPageCapacity)
    let inLast := min (blobPageCapacity - tail.length) more.length
    pagesNeeded (data ++ more) = count + 1 + pagesFor (more.drop inLast).length := by
  intro tail inLast
  have htail : tail.length = data.length - count * blobPageCapacity := List.length_drop
  have hrest : (more.drop inLast).length = more.length - (blobPageCapacity - tail.length) := by
    rw [List.length_drop]
    omega
  have hmul := pagesFor_mul (more.drop inLast).length
  have hlength : 0 < more.length := List.length_pos_iff.2 hmore
  have hpos : 0 < count + 1 + pagesFor (more.drop inLast).length :=
    Nat.lt_of_lt_of_le (Nat.succ_pos count) (Nat.le_add_right _ _)
  refine pagesNeeded_eq hpos ?_ (.inl ?_)
  · rw [List.length_append, Nat.add_mul, Nat.add_mul, Nat.one_mul]
    omega
  · rw [List.length_append, Nat.add_right_comm, Nat.add_sub_cancel, Nat.add_mul]
    by_cases hnone : (more.drop inLast).length = 0
    · rw [hnone, pagesFor_zero, Nat.zero_mul]
      omega
    · omega

theorem Held.walkLast (h : Held tx file (↑blob.pages + frame)) {init : List Nat} {last : Nat}
    (hids : blob.ids = init ++ [last])
    (hupper : blob.data.length ≤ init.length * blobPageCapacity + blobPageCapacity) :
    let tail := blob.data.drop (init.length * blobPageCapacity)
    Store.walkChain (fun current page header _ => pure (current, page, header)) (file.pageCount + 1) []
        blob.id (blob.id, default, ⟨0, 0⟩) file = .ok (last, buildPage 0 tail, ⟨0, tail.length⟩) file ∧
      blob.pages = chainPages last init blob.data ++ [(last, buildPage 0 tail)] := by
  intro tail
  have hwhole : tail.take blobPageCapacity = tail := by
    apply List.take_of_length_le
    rw [List.length_drop]
    omega
  have hwalk := @Held.walkChain _ tx file frame (Nat × Area × BlobPageHeader)
    (fun current page header _ => pure (current, page, header))
    (fun current page header _ => (current, page, header)) (fun _ _ _ _ => rfl) blob.ids blob.data h []
    (fun _ _ => List.not_mem_nil) _ h.fuel (blob.id, default, ⟨0, 0⟩)
  have hfold := foldChain_last init last blob.data (blob.id, default, ⟨0, 0⟩)
  simp only [← hids, hwhole, show blob.data.drop (init.length * blobPageCapacity) = tail from rfl]
    at hfold
  refine ⟨hwalk.trans (by rw [hfold]), ?_⟩
  rw [Blob.pages, hids, chainPages_append, chainPages, chainPages, hwhole]
  rfl

theorem Held.append (h : Held tx file (↑blob.pages + frame)) (hpermitted : required = true → tx = true)
    {data : Bytes} (hdata : data ≠ []) :
    Outcome (fun _ file' => ∃ blob' : Blob, blob'.id = blob.id ∧ blob'.data = blob.data ++ data ∧
        Held tx file' (↑blob'.pages + frame)) (FileFull (↑blob.pages + frame) tx)
      (BlobStore.append required blob.id data file) := by
  obtain ⟨init, last, hids, hlower, hupper⟩ := blob.exists_last
  let tail := blob.data.drop (init.length * blobPageCapacity)
  have htail : tail.length = blob.data.length - init.length * blobPageCapacity := List.length_drop
  let inLast := min (blobPageCapacity - tail.length) data.length
  let rest := data.drop inLast
  obtain ⟨hwalk, hpages⟩ := h.walkLast hids hupper
  rw [BlobStore.append, bind_of_ok (requireWriteTransaction_ok (h.tx ▸ hpermitted)), requireBlobId,
    if_neg h.id_ne_zero, pure_bind_run, if_neg hdata]
  change Outcome _ _ ((Store.walkChain _ (file.pageCount + 1) [] blob.id (blob.id, _) >>= _) file)
  rw [bind_of_ok hwalk]
  apply (h.allocatePages _).bind
  rintro _ file₁ ⟨hfresh, fresh, rfl, h₁⟩
  rw [List.length_map] at hfresh
  let ids := fresh.map Prod.fst
  obtain ⟨file₂, hwrite, h₂⟩ := h₁.writeChunks rest
  have h₂' : Held tx file₂ ({(last, buildPage 0 tail)} +
      (↑(chainPages last init blob.data) + (↑(chainPages 0 ids rest) + frame))) := by
    apply h₂.of_eq
    rw [hpages, ← Multiset.coe_add, Multiset.coe_singleton]
    abel
  obtain ⟨file₃, hlast, h₃⟩ := h₂'.write (buildPage (ids.headD 0) (tail ++ data.take inLast))
  rw [bind_of_ok hwrite]
  change Outcome _ _ (PageM.write last (buildPage (ids.headD 0) (chunkOf _ ⟨0, tail.length⟩ ++
    data.take inLast)) file₂)
  rw [chunkOf_buildPage, hlast]
  have hcount : (init ++ last :: ids).length = pagesNeeded (blob.data ++ data) := by
    rw [pagesNeeded_extended hlower hupper hdata, List.length_append, List.length_cons,
      List.length_map, hfresh, Nat.add_assoc, Nat.add_comm 1]
  refine ⟨⟨init ++ last :: ids, blob.data ++ data, hcount⟩, ?_, rfl, h₃.of_eq ?_⟩
  · rw [Blob.id, Blob.id, hids]
    cases init <;> rfl
  · rw [Blob.pages, chainPages_extended hlower hupper, ← Multiset.coe_add, ← Multiset.cons_coe,
      ← Multiset.singleton_add]
    abel

omit [PageSize] in
theorem length_patched {data bytes : Bytes} (h : bytes.length ≤ data.length) :
    (bytes ++ data.drop bytes.length).length = data.length := by
  rw [List.length_append, List.length_drop, Nat.add_sub_cancel' h]

theorem chainPages_patched {id : Nat} {ids : List Nat} {data bytes : Bytes}
    (h : bytes.length ≤ (data.take blobPageCapacity).length) :
    chainPages 0 (id :: ids) (bytes ++ data.drop bytes.length) =
      (id, copyTo (buildPage (ids.headD 0) (data.take blobPageCapacity)) blobHeaderSize bytes) ::
        chainPages 0 ids (data.drop blobPageCapacity) := by
  have hcapacity : bytes.length ≤ blobPageCapacity := by
    rw [List.length_take] at h
    omega
  rw [chainPages, copyTo_buildPage h, List.take_append, List.take_of_length_le hcapacity,
    List.drop_take, List.drop_append, List.drop_eq_nil_of_le hcapacity, List.nil_append,
    List.drop_drop, Nat.add_sub_cancel' hcapacity]

theorem Held.firstPage (h : Held tx file (↑blob.pages + frame)) :
    ∃ ids, blob.ids = blob.id :: ids ∧
      Store.readBlobPage blob.id file = .ok (buildPage (ids.headD 0) (blob.data.take blobPageCapacity),
        ⟨ids.headD 0, (blob.data.take blobPageCapacity).length⟩) file := by
  obtain ⟨ids, hids⟩ := blob.exists_cons
  refine ⟨ids, hids, ?_⟩
  rw [Blob.pages, hids] at h
  exact h.readBlobPage

theorem Held.readPrefix (h : Held tx file (↑blob.pages + frame)) {count : Nat}
    (hcount : count ≤ (blob.data.take blobPageCapacity).length) :
    BlobStore.readPrefix blob.id count file = .ok (blob.data.take count) file := by
  obtain ⟨ids, hids, hread⟩ := h.firstPage
  have hcapacity : count ≤ blobPageCapacity := by
    rw [List.length_take] at hcount
    omega
  have hchunk := chunkOf_buildPage (ids.headD 0) 0 (blob.data.take blobPageCapacity)
  have hread' : readArea (buildPage (ids.headD 0) (blob.data.take blobPageCapacity)) blobHeaderSize
      count = (chunkOf (buildPage (ids.headD 0) (blob.data.take blobPageCapacity))
        ⟨0, (blob.data.take blobPageCapacity).length⟩).take count := by
    rw [chunkOf, readArea, readArea, ← List.map_take, List.take_range, Nat.min_eq_left hcount]
  rw [BlobStore.readPrefix, requireBlobId, if_neg h.id_ne_zero, pure_bind_run, bind_of_ok hread]
  dsimp only
  rw [if_neg (Nat.not_lt.2 hcount), hread', hchunk, List.take_take, Nat.min_eq_left hcapacity]
  rfl

theorem Held.overwritePrefix (h : Held tx file (↑blob.pages + frame))
    (hpermitted : required = true → tx = true) {bytes : Bytes}
    (hfits : bytes.length ≤ (blob.data.take blobPageCapacity).length) :
    ∃ file', BlobStore.overwritePrefix required blob.id bytes file = .ok () file' ∧
      ∃ blob' : Blob, blob'.id = blob.id ∧ blob'.data = bytes ++ blob.data.drop bytes.length ∧
        Held tx file' (↑blob'.pages + frame) := by
  obtain ⟨ids, hids, hread⟩ := h.firstPage
  have hdata : bytes.length ≤ blob.data.length :=
    Nat.le_trans hfits (List.length_take_le' blobPageCapacity blob.data)
  have hcount : (blob.id :: ids).length = pagesNeeded (bytes ++ blob.data.drop bytes.length) := by
    rw [← hids, blob.count]
    exact (pagesNeeded_congr (length_patched hdata)).symm
  have h' := h
  rw [Blob.pages, hids, chainPages, cons_add] at h'
  obtain ⟨file', hwrite, hsound⟩ := h'.write (copyTo (buildPage (ids.headD 0)
    (blob.data.take blobPageCapacity)) blobHeaderSize bytes)
  refine ⟨file', ?_, ⟨blob.id :: ids, _, hcount⟩, rfl, rfl, hsound.of_eq ?_⟩
  · rw [BlobStore.overwritePrefix, bind_of_ok (requireWriteTransaction_ok (h.tx ▸ hpermitted)),
      requireBlobId, if_neg h.id_ne_zero, pure_bind_run, bind_of_ok hread]
    dsimp only
    rw [if_neg (Nat.not_lt.2 hfits)]
    exact hwrite
  · rw [Blob.pages, chainPages_patched hfits, cons_add]

theorem Held.rewrite (h : Held tx file (↑blob.pages + frame))
    (hpermitted : required = true → tx = true) (data : Bytes) :
    Outcome (fun id file' => id = blob.id ∧ ∃ blob' : Blob, blob'.id = blob.id ∧ blob'.data = data ∧
        Held tx file' (↑blob'.pages + frame)) (FileFull (↑blob.pages + frame) tx)
      (BlobStore.rewrite required blob.id data file) := by
  have hwalk := @Held.walkChain _ tx file frame (List Nat)
    (fun current _ _ ids => pure (ids ++ [current])) (fun current _ _ ids => ids ++ [current])
    (fun _ _ _ _ => rfl) blob.ids blob.data h [] (fun _ _ => List.not_mem_nil) _ h.fuel []
  rw [foldChain_ids, List.nil_append] at hwalk
  rw [BlobStore.rewrite, bind_of_ok (requireWriteTransaction_ok (h.tx ▸ hpermitted)),
    if_neg h.id_ne_zero]
  change Outcome _ _ ((Store.walkChain _ (file.pageCount + 1) [] (blob.ids.headD 0) [] >>= _) file)
  rw [bind_of_ok hwalk]
  apply (h.allocatePages _).bind
  rintro _ file₁ ⟨hfresh, fresh, rfl, h₁⟩
  rw [List.length_map] at hfresh
  let needed := pagesNeeded data
  have hids (n : Nat) : (blob.pages.take n).map Prod.fst = blob.ids.take n := by
    rw [List.map_take, Blob.pages, map_fst_chainPages]
  have hspare : (blob.pages.drop needed).map Prod.fst = blob.ids.drop needed := by
    rw [List.map_drop, Blob.pages, map_fst_chainPages]
  have h₁' : Held tx file₁
      (↑(blob.pages.take needed ++ fresh) + (↑(blob.pages.drop needed) + frame)) := by
    apply h₁.of_eq
    nth_rewrite 1 [← List.take_append_drop needed blob.pages]
    rw [← Multiset.coe_add, ← Multiset.coe_add]
    abel
  obtain ⟨file₂, hwrite, h₂⟩ := h₁'.writeChunks data
  obtain ⟨file₃, hclear, h₃⟩ := (h₂.of_eq (add_left_comm _ _ _)).clearPages
  rw [List.map_append, hids] at hwrite h₃
  rw [hspare] at hclear
  have hcount : (blob.ids.take needed ++ fresh.map Prod.fst).length = pagesNeeded data := by
    rw [List.length_append, List.length_take, List.length_map, hfresh]
    omega
  have hhead : (blob.ids.take needed ++ fresh.map Prod.fst).headD 0 = blob.id := by
    obtain ⟨ids, hids⟩ := blob.exists_cons
    obtain ⟨count, hneeded⟩ := Nat.exists_eq_add_one_of_ne_zero (Nat.ne_of_gt (pagesNeeded_pos data))
    rw [hids, show needed = count + 1 from hneeded]
    rfl
  rw [bind_of_ok hwrite, bind_of_ok hclear]
  exact ⟨hhead, ⟨_, data, hcount⟩, hhead, rfl, h₃⟩

theorem Held.remove (h : Held tx file (↑blob.pages + frame))
    (hpermitted : required = true → tx = true) :
    ∃ file', BlobStore.remove required blob.id file = .ok () file' ∧
      Held tx file' ({(blob.id, default)} + frame) := by
  obtain ⟨ids, hids⟩ := blob.exists_cons
  obtain ⟨file', hwalk, h'⟩ := @Held.walkChain_clear _ tx file frame blob.ids blob.data h []
    (fun _ _ => List.not_mem_nil) _ h.fuel
  refine ⟨file', ?_, h'.mono ?_⟩
  · rw [BlobStore.remove, bind_of_ok (requireWriteTransaction_ok (h.tx ▸ hpermitted)), requireBlobId,
      if_neg h.id_ne_zero, pure_bind_run]
    exact hwalk
  · rw [hids, List.map_cons, cons_add]
    exact add_le_add_right (Multiset.le_add_left _ _) _

end MoDb.Store
