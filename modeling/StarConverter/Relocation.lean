import StarConverter.Executor
import StarConverter.Geometry.Relocate

/-!
# Relocation preserves streams

The executor copies bytes and `relocateObjectGraph` moves extents; the two describe the same movement.
A layout without materializations moves each named extent and nothing else
(`relocateObjectGraph_moved`), its copies can be carried out (`Moved.copyable`), and reading any
stream of the target graph afterwards gives what the source graph gave before
(`relocation_preserves_streams`).
-/

namespace StarConverter

open Base Geometry

/-! ## Reading streams -/

/-- The bytes of an extent; sparse extents read as zero. -/
def extentBytes (image : Bytes) (extent : Extent) : Bytes :=
  match extent.physical? with
  | some range => sliceAt image range.offset range.length
  | none => List.replicate extent.length 0

/-- The mapped bytes of a stream, read through its extents. -/
def readStream (graph : ExtentGraph) (image : Bytes) (stream : StreamId) : Bytes :=
  (ObjectGraph.streamExtents graph stream).flatMap (extentBytes image)

/-! ## The moved graph -/

/-- `target` is `source` with the extents of the relocations moved. -/
structure Moved (source : ObjectGraph) (layout : LayoutPlan) (target : ObjectGraph) : Prop where
  root : target.root = source.root
  objects : target.objects = source.objects
  entries : target.entries = source.entries
  volume : target.extents.volumeBytes = source.extents.volumeBytes
  extents : target.extents.extents =
    source.extents.extents.map (moveExtent layout.relocations)
  relocates : ∀ r ∈ layout.relocations, Relocates layout source.extents.extents r
  distinct : (layout.relocations.map relocationKey).Nodup
  total_lt : (layout.relocations.map fun r => r.source.length).sum < wordBound

/-- Two extents of one graph with the same stream have different logical offsets, so moving extents
keeps their order. -/
theorem sorted_map_moveExtent (g : ExtentGraph) (rs : List Relocation) :
    (g.extents.map (moveExtent rs)).Pairwise fun a b => extentSortKey a ≤ extentSortKey b := by
  rw [List.pairwise_map]
  refine (g.sorted.and g.logical).imp_of_mem ?_
  rintro a b ha hb ⟨hle, hdis⟩
  unfold extentSortKey at hle ⊢
  rw [Prod.Lex.toLex_le_toLex] at hle ⊢
  simp only [moveExtent_stream, moveExtent_logicalOffset]
  rcases hle with h | ⟨h, hle⟩
  · exact Or.inl h
  · refine Or.inr ⟨h, ?_⟩
    rw [Prod.Lex.toLex_le_toLex] at hle ⊢
    left
    rcases hle with h' | ⟨h', -⟩
    · exact h'
    · have hpa := (g.valid a ha).nonempty
      have hpb := (g.valid b hb).nonempty
      refine absurd ?_ (hdis h a.logicalOffset ?_)
      · exact ⟨h'.ge, by simp only [Span.stop, Extent.logical]; omega⟩
      · exact ⟨le_rfl, by simp only [Span.stop, Extent.logical]; omega⟩

theorem relocateObjectGraph_moved {source target : ObjectGraph} {layout : LayoutPlan}
    (hm : layout.materializations = []) (h : relocateObjectGraph source layout = .ok target) :
    Moved source layout target := by
  simp only [relocateObjectGraph, applyMaterializations, hm, applyEach,
    rebuildRelocatedGraphWithObjects, bind_ok_iff, exists_const, ensure_ok_iff, pure_eq_ok,
    Except.ok.injEq, mapError_ok_iff] at h
  obtain ⟨_, hdup, ⟨n, relocated⟩, hremap, -, _, ⟨_, -, _, rfl, -, rfl⟩, extents, hext, hobj⟩ := h
  have hnd : (layout.relocations.map relocationKey).Nodup := checkPairs_ne_ok_iff.1 hdup
  have hpos : ∀ e ∈ source.extents.extents, 0 < e.length :=
    fun e he => (source.extents.valid e he).nonempty
  obtain ⟨hrel, hlt, heq⟩ := (remapExtents_source_ok_iff hpos source.extents.physical hnd).1 hremap
  obtain ⟨-, rfl⟩ := Prod.mk.inj heq
  obtain ⟨-, hvol, hexts⟩ := ExtentGraph.build_ok_iff.1 hext
  obtain ⟨-, hroot, hobjects, hentries, rfl⟩ := ObjectGraph.build_ok_iff.1 hobj
  exact ⟨hroot, hobjects, hentries, hvol,
    hexts.trans (sortByKey_eq_self (sorted_map_moveExtent _ _)), hrel, hnd, hlt⟩

namespace Moved

variable {source target : ObjectGraph} {layout : LayoutPlan} (h : Moved source layout target)

include h in
theorem features : target.features = source.features := by
  rw [target.features_eq, source.features_eq, h.objects]

include h in
theorem relocationOf_eq {r : Relocation} (hr : r ∈ layout.relocations) {e : Extent}
    (hk : extentKey? e = some (relocationKey r)) : relocationOf layout.relocations e = some r := by
  unfold relocationOf
  cases hf : layout.relocations.find? fun r' => extentKey? e = some (relocationKey r') with
  | none => exact absurd hk (by simpa using List.find?_eq_none.1 hf r hr)
  | some r' =>
    have hk' : extentKey? e = some (relocationKey r') := by simpa using List.find?_some hf
    rw [hk, Option.some.injEq] at hk'
    rw [List.inj_on_of_nodup_map h.distinct hr (List.mem_of_find?_eq_some hf) hk']

include h in
/-- A relocation names one extent of the source, whose place in the target is the destination. -/
theorem exists_extent {r : Relocation} (hr : r ∈ layout.relocations) :
    ∃ (i : ℕ) (e : Extent), source.extents.extents[i]? = some e ∧ e.physical? = some r.source ∧
      relocationOf layout.relocations e = some r ∧
      (moveExtent layout.relocations e).physical? = some r.destination := by
  obtain ⟨hv, e, he, hk, -⟩ := h.relocates r hr
  obtain ⟨i, hi⟩ := List.getElem?_of_mem he
  have hphys := (extentKey?_eq_some.1 hk).2.2
  have hof := h.relocationOf_eq hr hk
  refine ⟨i, e, hi, hphys, hof, ?_⟩
  simp only [validateRelocation, bind_ok_iff, exists_const, ensure_ok_iff] at hv
  have hlen : e.length = r.destination.length := (physical_length hphys).symm.trans hv.2.1.2
  unfold moveExtent Extent.physical?
  rw [hof]
  simp only [hlen]

include h in
theorem target_getElem? {i : ℕ} {e : Extent} (he : source.extents.extents[i]? = some e) :
    target.extents.extents[i]? = some (moveExtent layout.relocations e) := by
  rw [h.extents, List.getElem?_map, he, Option.map_some]

/-- Extents at different positions of a graph have disjoint places. -/
theorem disjoint_of_ne {g : ExtentGraph} {i j : ℕ} {a b : Extent} (hi : g.extents[i]? = some a)
    (hj : g.extents[j]? = some b) (hne : i ≠ j) {r s : ByteRange} (ha : a.physical? = some r)
    (hb : b.physical? = some s) : r.Disjoint s := by
  obtain ⟨hi', rfl⟩ := List.getElem?_eq_some_iff.1 hi
  obtain ⟨hj', rfl⟩ := List.getElem?_eq_some_iff.1 hj
  rcases Nat.lt_or_gt_of_ne hne with hlt | hlt
  · exact List.pairwise_iff_getElem.1 g.physical i j hi' hj' hlt r ha s hb
  · exact (List.pairwise_iff_getElem.1 g.physical j i hj' hi' hlt s hb r ha).symm

theorem fits_of_mem {g : ExtentGraph} {e : Extent} (he : e ∈ g.extents) {r : ByteRange}
    (hr : e.physical? = some r) : ImageExecutor.Fits g.volumeBytes r :=
  ⟨(physical_length hr).symm ▸ (g.valid e he).nonempty, ((g.valid e he).physical r hr).1,
    ((g.valid e he).physical r hr).2⟩

include h in
theorem destinations_disjoint :
    (layout.relocations.map Relocation.destination).Pairwise Span.Disjoint := by
  rw [List.pairwise_map]
  have hne : layout.relocations.Pairwise fun a b => relocationKey a ≠ relocationKey b :=
    List.pairwise_map.1 h.distinct
  refine hne.imp_of_mem fun {a b} ha hb hkey => ?_
  obtain ⟨i, e, hi, -, hof, hd⟩ := h.exists_extent ha
  obtain ⟨j, e', hj, -, hof', hd'⟩ := h.exists_extent hb
  refine disjoint_of_ne (h.target_getElem? hi) (h.target_getElem? hj) ?_ hd hd'
  rintro rfl
  rw [hi, Option.some.injEq] at hj
  subst hj
  rw [hof, Option.some.injEq] at hof'
  exact hkey (congrArg relocationKey hof')

include h in
/-- The executor can carry out the relocations of a relocated graph. -/
theorem copyable (hapart : ∀ r ∈ layout.relocations, ∀ r' ∈ layout.relocations,
    r.destination.Disjoint r'.source) :
    ImageExecutor.CopyableGroup source.extents.volumeBytes layout.relocations := by
  refine ⟨?_, ?_, ?_, h.destinations_disjoint, hapart, h.total_lt⟩
  · intro r hr
    obtain ⟨i, e, hi, hs, -, -⟩ := h.exists_extent hr
    exact fits_of_mem (List.mem_of_getElem? hi) hs
  · intro r hr
    obtain ⟨i, e, hi, -, -, hd⟩ := h.exists_extent hr
    rw [← h.volume]
    exact fits_of_mem (List.mem_of_getElem? (h.target_getElem? hi)) hd
  · intro r hr
    obtain ⟨i, e, hi, hs, -, hd⟩ := h.exists_extent hr
    rw [physical_length hs, physical_length hd, moveExtent_length]

include h in
/-- An extent that is not relocated stays where it is, apart from every destination. -/
theorem kept_disjoint {i : ℕ} {e : Extent} (hi : source.extents.extents[i]? = some e)
    (hnone : relocationOf layout.relocations e = none) {s : ByteRange} (hs : e.physical? = some s)
    {r : Relocation} (hr : r ∈ layout.relocations) : r.destination.Disjoint s := by
  obtain ⟨j, e', hj, -, hof, hd⟩ := h.exists_extent hr
  have hmove : moveExtent layout.relocations e = e := by unfold moveExtent; rw [hnone]
  refine disjoint_of_ne (h.target_getElem? hj) (h.target_getElem? hi) ?_ hd (by rwa [hmove])
  rintro rfl
  rw [hi, Option.some.injEq] at hj
  rw [← hj, hnone] at hof
  cases hof

end Moved

/-! ## The copied bytes -/

section Copied

variable {rs : List Relocation} {image : Bytes}

theorem span_copyPatch (hg : ImageExecutor.CopyableGroup image.length rs) {r : Relocation}
    (hr : r ∈ rs) :
    (⟨r.destination.offset, sliceAt image r.source.offset r.source.length⟩ : Patch UInt8).span =
      r.destination := by
  unfold Patch.span
  rw [length_sliceAt_of_le (hg.source r hr).stop_le, hg.length r hr]

theorem map_span_copyPatches (hg : ImageExecutor.CopyableGroup image.length rs) :
    (ImageExecutor.copyPatches rs image).map Patch.span = rs.map Relocation.destination := by
  rw [ImageExecutor.copyPatches, List.map_map]
  exact List.map_congr_left fun r hr => span_copyPatch hg hr

/-- A destination holds the bytes of its source. -/
theorem sliceAt_destination (hg : ImageExecutor.CopyableGroup image.length rs) {r : Relocation}
    (hr : r ∈ rs) :
    sliceAt (applyAll (ImageExecutor.copyPatches rs image) image) r.destination.offset
      r.destination.length = sliceAt image r.source.offset r.source.length := by
  set p : Patch UInt8 := ⟨r.destination.offset, sliceAt image r.source.offset r.source.length⟩
    with hp
  have hplen : p.bytes.length = r.destination.length :=
    congrArg Span.length (span_copyPatch hg hr)
  have hmatch : p.Matches (applyAll (ImageExecutor.copyPatches rs image) image) := by
    refine Patch.matches_iff.2 fun y hy => ?_
    refine getElem?_applyAll_of_mem ?_ (List.mem_map_of_mem hr) hy ?_
    · rw [map_span_copyPatches hg]; exact hg.disjoint
    · rw [span_copyPatch hg hr] at hy
      exact lt_of_lt_of_le hy.2 (hg.destination r hr).stop_le
  rw [← hplen]
  exact hmatch

/-- What no destination touches keeps its bytes. -/
theorem sliceAt_copied_of_disjoint (hg : ImageExecutor.CopyableGroup image.length rs)
    {s : ByteRange} (hs : ∀ r ∈ rs, r.destination.Disjoint s) :
    sliceAt (applyAll (ImageExecutor.copyPatches rs image) image) s.offset s.length =
      sliceAt image s.offset s.length := by
  refine sliceAt_congr fun y h1 h2 => getElem?_applyAll_of_not_mem ?_
  unfold touched
  rw [map_span_copyPatches hg]
  rintro ⟨d, hd, hy⟩
  obtain ⟨r, hr, rfl⟩ := List.mem_map.1 hd
  exact hs r hr y hy ⟨h1, h2⟩

end Copied

theorem Moved.extentBytes_eq {source target : ObjectGraph} {layout : LayoutPlan}
    (h : Moved source layout target) {image : Bytes}
    (hg : ImageExecutor.CopyableGroup image.length layout.relocations) {e : Extent}
    (he : e ∈ source.extents.extents) :
    extentBytes (applyAll (ImageExecutor.copyPatches layout.relocations image) image)
      (moveExtent layout.relocations e) = extentBytes image e := by
  obtain ⟨i, hi⟩ := List.getElem?_of_mem he
  cases hof : relocationOf layout.relocations e with
  | some r =>
    have hr : r ∈ layout.relocations := List.mem_of_find?_eq_some hof
    have hk : extentKey? e = some (relocationKey r) := by simpa using List.find?_some hof
    have hs := (extentKey?_eq_some.1 hk).2.2
    obtain ⟨j, e', hj, hs', -, hd⟩ := h.exists_extent hr
    have hpos : ∀ e ∈ source.extents.extents, 0 < e.length :=
      fun e he => (source.extents.valid e he).nonempty
    obtain rfl := physical_inj hpos source.extents.physical hi hj hs hs'
    rw [hi, Option.some.injEq] at hj
    subst hj
    rw [extentBytes, extentBytes, hd, hs]
    exact sliceAt_destination hg hr
  | none =>
    have hmove : moveExtent layout.relocations e = e := by unfold moveExtent; rw [hof]
    rw [hmove]
    unfold extentBytes
    cases hs : e.physical? with
    | none => rfl
    | some s => exact sliceAt_copied_of_disjoint hg fun r hr => h.kept_disjoint hi hof hs hr

theorem Moved.readStream_eq {source target : ObjectGraph} {layout : LayoutPlan}
    (h : Moved source layout target) {image : Bytes}
    (hg : ImageExecutor.CopyableGroup image.length layout.relocations) (stream : StreamId) :
    readStream target.extents
      (applyAll (ImageExecutor.copyPatches layout.relocations image) image) stream =
      readStream source.extents image stream := by
  unfold readStream ObjectGraph.streamExtents
  rw [h.extents, List.filter_map, List.flatMap_map]
  simp only [Function.comp_def, moveExtent_stream]
  refine List.flatMap_congr fun e he => h.extentBytes_eq hg (List.mem_of_mem_filter he)

/-- **Relocation preserves every stream.** Whatever the chunk size, copies that complete leave every
stream of the target graph with its bytes in the source graph, and without faults they complete; the
rest of the graph does not change. -/
theorem relocation_preserves_streams {source target : ObjectGraph} {layout : LayoutPlan}
    (hm : layout.materializations = []) (hr : relocateObjectGraph source layout = .ok target)
    (hapart : ∀ r ∈ layout.relocations, ∀ r' ∈ layout.relocations, r.destination.Disjoint r'.source)
    (x : ImageExecutor) (w : World) (hlen : w.image.now.length = x.identity.imageBytes)
    (hvol : w.image.now.length = source.extents.volumeBytes) :
    (target.root = source.root ∧ target.objects = source.objects ∧
      target.entries = source.entries ∧ target.features = source.features) ∧
    (∀ evidence w', x.copyRelocations layout.relocations w = (.ok evidence, w') →
      ∀ stream, readStream target.extents w'.image.now stream =
        readStream source.extents w.image.now stream) ∧
    (w.Quiet → ∃ evidence w', x.copyRelocations layout.relocations w = (.ok evidence, w')) := by
  have h := relocateObjectGraph_moved hm hr
  have hg := h.copyable hapart
  rw [← hvol] at hg
  have hspec := ImageExecutor.copyRelocations_spec hlen (hlen ▸ hg)
  refine ⟨⟨h.root, h.objects, h.entries, h.features⟩, ?_, ?_⟩
  · intro ev w' hrun stream
    have hdone := (hspec.ok hrun).2
    rw [hdone.image]
    exact h.readStream_eq hg stream
  · intro hq
    have htotal : Prog.Total (x.copyRelocations layout.relocations) w fun _ _ => True :=
      hspec.mono (fun _ _ _ => trivial) fun _ ht => ht.2 hq
    obtain ⟨ev, w', hrun, -⟩ := htotal.exists
    exact ⟨ev, w', hrun⟩

/-- A directory with one file of two extents, the second one sparse, in a volume of 16 bytes. -/
def sampleExtents : ExtentGraph :=
  okValue (ExtentGraph.build
    [⟨10, 0, 4, .physical 4, .fileData⟩, ⟨10, 4, 2, .sparse, .fileData⟩] 16 4) (by decide +kernel)

def sampleGraph : ObjectGraph :=
  okValue (ObjectGraph.build 1
    [⟨1, .directory, 0, ⟨false, false⟩, []⟩,
      ⟨2, .file, 1, ⟨false, false⟩,
        [⟨10, none, 6, 6, 6, 4, ⟨true, false, false, 0⟩, .extents⟩]⟩]
    [⟨1, 2, [97]⟩] sampleExtents ⟨4, 4, 4, 4⟩) (by decide +kernel)

/-- The physical extent moves from 4 to 9. -/
def sampleMove : LayoutPlan := ⟨[⟨10, 0, ⟨4, 4⟩, ⟨9, 4⟩⟩], [], [], 4, 0, 0⟩

def sampleMoved : ObjectGraph :=
  okValue (relocateObjectGraph sampleGraph sampleMove) (by decide +kernel)

/-- A quiet machine whose image counts from 0 to 15, and an executor with chunks of three bytes. -/
def sampleWorld : World :=
  ⟨Medium.clean ((List.range 16).map UInt8.ofNat), Tape.clean [], fun _ => .proceed⟩

def sampleExecutor : ImageExecutor :=
  ⟨⟨zeroBytes 32, 16⟩, ⟨3, by decide⟩⟩

theorem relocation_preserves_sample : sampleMoved.objects = sampleGraph.objects ∧
    ∃ evidence w', sampleExecutor.copyRelocations sampleMove.relocations sampleWorld =
        (.ok evidence, w') ∧ w'.image.now ≠ sampleWorld.image.now ∧
      readStream sampleMoved.extents w'.image.now 10 =
        readStream sampleGraph.extents sampleWorld.image.now 10 := by
  have hmoved : relocateObjectGraph sampleGraph sampleMove = .ok sampleMoved := eq_okValue _
  obtain ⟨⟨-, hobj, -⟩, hread, hrun⟩ := relocation_preserves_streams rfl hmoved
    (by simp [sampleMove, Span.Disjoint, Span.mem_iff, Span.stop]; omega) sampleExecutor sampleWorld
    (by decide) (by decide +kernel)
  obtain ⟨ev, w', hok⟩ := hrun fun _ => rfl
  have hnow : w'.image.now = (sampleExecutor.copyRelocations sampleMove.relocations
      sampleWorld).2.image.now := by rw [hok]
  exact ⟨hobj, ev, w', hok, by rw [hnow]; decide +kernel, hread ev w' hok 10⟩

end StarConverter
