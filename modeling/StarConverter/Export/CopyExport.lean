import StarConverter.Export.Candidate

/-!
# An accepted copy export

`CopyExport` is an export whose preview and movements passed the checks. From them follows what the
candidate holds: at the destinations of the plan the bytes moved or rebuilt, and at every other extent
of the target graph the bytes of the source.
-/

namespace StarConverter

open Base Geometry Conversion

namespace Export

/-! ## Forward writes of an accepted preview -/

section Preview

variable {source : SourceImage}

theorem stop_le_of_validateBeforeImage {forward : ReservedWrite} {rollback : OverlayWrite} {u : Unit}
    (h : validateBeforeImage source.reader forward rollback = .ok u) :
    forward.write.offset + forward.write.bytes.length ≤ source.len := by
  simp only [validateBeforeImage, bind_ok_iff, exists_const, ensure_ok_iff, mapError_ok_iff] at h
  obtain ⟨⟨hoffset, hlength⟩, _, hread, -⟩ := h
  rw [hoffset, hlength]
  exact (Preimage.imageFileRead_ok_iff.1 hread).2.2.1

theorem validateGroup_ok {sofar total : ℕ × ℕ} {forward : List ReservedWrite}
    {rollback : List OverlayWrite} (hcount : sofar.1 < wordBound) (hbytes : sofar.2 < wordBound)
    (h : validateGroup source.reader sofar forward rollback = .ok total) :
    (∀ w ∈ forward.map ReservedWrite.write, w.offset + w.bytes.length ≤ source.len) ∧
      total.1 < wordBound ∧ total.2 < wordBound ∧
        total.2 = sofar.2 + OverlayPlan.byteCount (forward.map ReservedWrite.write) := by
  simp only [validateGroup, bind_ok_iff, exists_const, ensure_ok_iff] at h
  obtain ⟨⟨-, hlen⟩, hpairs⟩ := h
  obtain ⟨hall, hlt, hlt', rfl⟩ := (validatePairs_ok_iff hcount hbytes).1 hpairs
  have hfst : (forward.zip rollback).map Prod.fst = forward := List.map_fst_zip hlen.le
  refine ⟨fun w hw => ?_, hlt, hlt', ?_⟩
  · obtain ⟨r, hr, rfl⟩ := List.mem_map.1 hw
    rw [← hfst] at hr
    obtain ⟨pair, hpair, rfl⟩ := List.mem_map.1 hr
    exact stop_le_of_validateBeforeImage (hall pair hpair)
  · show sofar.2 + pairBytes (forward.zip rollback) = _
    conv_rhs => rw [← hfst]
    rw [pairBytes, OverlayPlan.byteCount, List.map_map, List.map_map]
    rfl

/-- The forward writes lie inside the image, and their bytes can be counted. -/
theorem finalWrites_of_validatePreview {writes : OpaqueWriteSets} {limits : CandidateExportLimits}
    {total : ℕ × ℕ} (h : validatePreview source.reader writes limits = .ok total) :
    (∀ w ∈ finalWrites writes, w.offset + w.bytes.length ≤ source.len) ∧
      OverlayPlan.byteCount (finalWrites writes) < wordBound := by
  simp only [validatePreview, bind_ok_iff] at h
  obtain ⟨staged, hstaged, backed, hbacked, active, hactive, -⟩ := h
  obtain ⟨hin, hcount, hlt, hsum⟩ := validateGroup_ok wordBound_pos wordBound_pos hstaged
  obtain ⟨hin', hcount', hlt', hsum'⟩ := validateGroup_ok hcount hlt hbacked
  obtain ⟨hin'', -, hlt'', hsum''⟩ := validateGroup_ok hcount' hlt' hactive
  have hall : finalWrites writes = writes.targetStaging.map ReservedWrite.write ++
      writes.backupBoot.map ReservedWrite.write ++ writes.activation.map ReservedWrite.write := by
    rw [finalWrites, forwardWrites, List.map_append, List.map_append]
  have happend : ∀ a b : List OverlayWrite,
      OverlayPlan.byteCount (a ++ b) = OverlayPlan.byteCount a + OverlayPlan.byteCount b :=
    fun a b => by simp only [OverlayPlan.byteCount, List.map_append, List.sum_append]
  rw [hall]
  refine ⟨fun w hw => ?_, ?_⟩
  · rcases List.mem_append.1 hw with hw | hw
    · rcases List.mem_append.1 hw with hw | hw
      · exact hin w hw
      · exact hin' w hw
    · exact hin'' w hw
  · rw [happend, happend]
    dsimp only at hsum
    omega

end Preview

/-! ## The export -/

/-- A copy export whose inputs passed the checks and whose forward writes keep off the payload of the
target graph. -/
structure CopyExport where
  source : SourceImage
  authority : SealedRelocationPlan
  writes : OpaqueWriteSets
  limits : CandidateExportLimits
  chunkBytes : ℕ
  preview : ℕ × ℕ
  moved : ℕ × ℕ × List Relocation
  rebuilt : ℕ × ℕ × List Materialization × List MaterializationSpan
  chunkBytes_pos : 0 < chunkBytes
  preview_ok : validatePreview source.reader writes limits = .ok preview
  moved_ok : validateRelocations source authority writes limits = .ok moved
  rebuilt_ok : validateMaterializations source authority writes limits = .ok rebuilt
  apart : ∀ write ∈ finalWrites writes, ∀ extent ∈ authority.targetGraph.extents.extents,
    ∀ range ∈ extent.physical?, write.span.Disjoint range

namespace CopyExport

variable (x : CopyExport)

def graph : ObjectGraph := x.authority.sourceGraph

def target : ObjectGraph := x.authority.targetGraph

def layout : LayoutPlan := x.authority.layout

/-- The relocations by destination. -/
def relocations : List Relocation := x.moved.2.2

/-- The spans of the materializations by destination. -/
def spans : List MaterializationSpan := x.rebuilt.2.2.2

/-- The candidate the passes build. -/
def candidate : Except CandidateExportError Bytes :=
  buildCandidate x.source x.chunkBytes x.graph x.relocations x.moved.2.1 x.rebuilt.2.2.1 x.writes

/-- The view the expected manifest is read from. -/
def view : RelocatedSourceView where
  source := x.source
  relocations := x.relocations
  materializations := x.spans
  sourceGraph := some x.graph

/-- The candidate if nothing fails. -/
def content : Bytes := candidateOf x.source x.authority x.writes x.relocations

@[simp] theorem length_content : x.content.length = x.source.len := length_candidateOf _ _ _ _

theorem graphs : SealedGraphs x.graph x.target x.layout :=
  sealedGraphs_of_relocated x.authority.relocated

theorem authorized : Authorized x.source x.authority x.writes x.relocations x.spans :=
  (authorized_of_ok x.moved_ok x.rebuilt_ok).1

theorem materializations_eq : x.rebuilt.2.2.1 = x.layout.materializations :=
  (authorized_of_ok x.moved_ok x.rebuilt_ok).2.2

theorem relocationBytes_eq :
    x.moved.2.1 = (x.relocations.map fun r => r.source.length).sum := by
  rw [(authorized_of_ok x.moved_ok x.rebuilt_ok).2.1]
  exact x.graphs.applicable.relocated_eq.symm.trans
    ((x.authorized.relocations_perm.map fun r => r.source.length).sum_eq).symm

/-- The streams that are materialized can all be rebuilt. -/
def AllRebuilt : Prop := ∀ m ∈ x.layout.materializations, Rebuilt x.source x.graph m

theorem candidate_eq (hcopy : Copyable x.source x.chunkBytes) (hms : x.AllRebuilt) :
    x.candidate = .ok x.content := by
  obtain ⟨hwrites, hbytes⟩ := finalWrites_of_validatePreview x.preview_ok
  rw [candidate, x.materializations_eq]
  exact buildCandidate_ok x.chunkBytes_pos hcopy x.authorized hms hwrites hbytes x.relocationBytes_eq

/-! ## Bytes of the candidate -/

section Bytes

variable {x}

/-- The bytes a list holds from one place on are those another holds from another. -/
theorem sliceAt_eq {l l' : Bytes} {o o' n : ℕ} (h : ∀ j < n, l[o + j]? = l'[o' + j]?) :
    sliceAt l o n = sliceAt l' o' n := by
  refine List.ext_getElem? fun j => ?_
  rw [getElem?_sliceAt, getElem?_sliceAt]
  split_ifs with hj
  · exact h j hj
  · rfl

theorem content_of_not_written {i : ℕ} (h : ∀ w ∈ finalWrites x.writes, i ∉ w.span) :
    x.content[i]? = (applyAll (materializationPatches x.source x.graph x.layout.materializations)
      (applyAll (ImageExecutor.copyPatches x.relocations x.source.content) x.source.content))[i]? := by
  refine getElem?_applyAll_of_not_mem fun hmem => ?_
  obtain ⟨w, hw, hi⟩ := mem_touched.1 hmem
  exact h w hw hi

/-- Patches of rebuilt streams keep to the spans. -/
theorem mem_span_of_touched {i : ℕ}
    (h : i ∈ touched (materializationPatches x.source x.graph x.layout.materializations)) :
    ∃ s ∈ x.spans, i ∈ s.destination := by
  obtain ⟨p, hp, hi⟩ := mem_touched.1 h
  obtain ⟨s, hs, rfl⟩ := List.mem_map.1 hp
  refine ⟨s, x.authorized.spans_perm.mem_iff.2 hs, hi.1, ?_⟩
  have hlen : (sliceAt (payloadOf x.source x.graph s) s.logicalOffset s.destination.length).length ≤
      s.destination.length := by
    rw [length_sliceAt]
    exact Nat.min_le_left _ _
  exact lt_of_lt_of_le hi.2 (Nat.add_le_add_left hlen _)

theorem mem_destination_of_touched {i : ℕ}
    (h : i ∈ touched (ImageExecutor.copyPatches x.relocations x.source.content)) :
    ∃ r ∈ x.relocations, i ∈ r.destination := by
  obtain ⟨p, hp, hi⟩ := mem_touched.1 h
  obtain ⟨r, hr, rfl⟩ := List.mem_map.1 hp
  refine ⟨r, hr, hi.1, ?_⟩
  have hlen : (sliceAt x.source.content r.source.offset r.source.length).length ≤
      r.destination.length := by
    rw [length_sliceAt, ← (x.authorized.relocation r hr).1]
    exact Nat.min_le_left _ _
  exact lt_of_lt_of_le hi.2 (Nat.add_le_add_left hlen _)

/-- A place that nothing is written to. -/
theorem content_untouched {i : ℕ} (hw : ∀ w ∈ finalWrites x.writes, i ∉ w.span)
    (hs : ∀ s ∈ x.spans, i ∉ s.destination) (hr : ∀ r ∈ x.relocations, i ∉ r.destination) :
    x.content[i]? = x.source.content[i]? := by
  rw [content_of_not_written hw, getElem?_applyAll_of_not_mem fun hmem => ?_,
    getElem?_applyAll_of_not_mem fun hmem => ?_]
  · obtain ⟨r, hr', hi⟩ := mem_destination_of_touched hmem
    exact hr r hr' hi
  · obtain ⟨s, hs', hi⟩ := mem_span_of_touched hmem
    exact hs s hs' hi

/-- A span belongs to a stream that was rebuilt, and lies within it. -/
theorem payload_of_span (hms : x.AllRebuilt) {s : MaterializationSpan} (hs : s ∈ x.spans) :
    reconstructStreamDestination x.source x.graph s.stream s.streamDestinationLength =
        .ok (payloadOf x.source x.graph s) ∧
      s.logicalOffset + s.destination.length ≤ (payloadOf x.source x.graph s).length := by
  obtain ⟨m, hm, hs⟩ := List.mem_flatMap.1 (x.authorized.spans_perm.mem_iff.1 hs)
  obtain ⟨-, hstream, htotal, hle⟩ := mem_spansFrom hs
  obtain ⟨payload, hpayload, hlen⟩ := hms m hm
  have heq : payloadOf x.source x.graph s = payload := by
    rw [payloadOf, hstream, htotal, hpayload]
    rfl
  rw [heq, hstream, htotal]
  exact ⟨hpayload, by omega⟩

theorem span_patch (hms : x.AllRebuilt) {s : MaterializationSpan} (hs : s ∈ x.spans) :
    (spanPatch (payloadOf x.source x.graph s) s).span = s.destination := by
  rw [Patch.span, spanPatch]
  dsimp only
  rw [length_sliceAt_of_le (payload_of_span hms hs).2]

/-- A span holds its part of the rebuilt stream. -/
theorem content_span (hms : x.AllRebuilt) {s : MaterializationSpan} (hs : s ∈ x.spans) {i : ℕ}
    (hi : i ∈ s.destination) : x.content[i]? =
      (payloadOf x.source x.graph s)[s.logicalOffset + (i - s.destination.offset)]? := by
  have hauth := x.authorized
  have hmem : s ∈ materializationSpans x.layout.materializations := hauth.spans_perm.mem_iff.1 hs
  have hspans : (materializationPatches x.source x.graph x.layout.materializations).map Patch.span =
      (materializationSpans x.layout.materializations).map MaterializationSpan.destination := by
    rw [materializationPatches, List.map_map]
    exact List.map_congr_left fun t ht => span_patch hms (hauth.spans_perm.mem_iff.2 ht)
  have hdisjoint : ((materializationPatches x.source x.graph x.layout.materializations).map
      Patch.span).Pairwise Span.Disjoint := by
    rw [hspans]
    exact ((hauth.spans_perm.map _).pairwise_iff Span.Disjoint.symm).1 hauth.spans_ordered.disjoint
  have hlt : i < x.source.content.length := lt_of_lt_of_le hi.2 (hauth.span s hs).2
  rw [content_of_not_written fun w hw => hauth.span_apart s hs w hw i hi,
    getElem?_applyAll_of_mem hdisjoint (List.mem_map_of_mem hmem) (by rwa [span_patch hms hs])
      (by simpa using hlt), spanPatch]
  have hoffset := hi.1
  have hstop : i < s.destination.offset + s.destination.length := hi.2
  dsimp only
  rw [getElem?_sliceAt, if_pos (by omega)]

/-- The destination of a relocation holds the bytes of its source. -/
theorem content_relocation {r : Relocation} (hr : r ∈ x.relocations) {i : ℕ}
    (hi : i ∈ r.destination) :
    x.content[i]? = x.source.content[r.source.offset + (i - r.destination.offset)]? := by
  have hauth := x.authorized
  have hpatch : ∀ r ∈ x.relocations, Patch.span ⟨r.destination.offset,
      sliceAt x.source.content r.source.offset r.source.length⟩ = r.destination := by
    intro r hr
    rw [Patch.span]
    dsimp only
    rw [length_sliceAt_of_le (hauth.relocation r hr).2.1.2, (hauth.relocation r hr).1]
  have hdisjoint : ((ImageExecutor.copyPatches x.relocations x.source.content).map
      Patch.span).Pairwise Span.Disjoint := by
    rw [ImageExecutor.copyPatches, List.map_map]
    refine List.pairwise_map.2 ((List.pairwise_map.1 hauth.relocations_ordered.disjoint).imp_of_mem
      fun {a b} ha hb h => ?_)
    rw [Function.comp_apply, Function.comp_apply, hpatch a ha, hpatch b hb]
    exact h
  have hlt : i < x.source.content.length := lt_of_lt_of_le hi.2 (hauth.relocation r hr).2.2.2
  rw [content_of_not_written fun w hw => hauth.relocation_apart r hr w hw i hi,
    getElem?_applyAll_of_not_mem fun hmem => ?_, getElem?_applyAll_of_mem hdisjoint
      (List.mem_map_of_mem hr) (by rwa [hpatch r hr]) hlt]
  · have hoffset := hi.1
    have hstop : i < r.destination.offset + r.destination.length := hi.2
    have hsame := (hauth.relocation r hr).1
    dsimp only
    rw [getElem?_sliceAt, if_pos (by omega)]
  · obtain ⟨s, hs, hmem⟩ := mem_span_of_touched hmem
    exact hauth.apart s hs r hr i hmem hi

end Bytes

end CopyExport

end Export

end StarConverter
