import StarConverter.Exfat.FormatTables

/-!
# The payload of the new volume

The clusters that the formatter gives to a stream, read in their order in the finished image, hold the
bytes that the extents of the stream have in the source image (`format_payload`). No payload is moved, so
this needs only that the clusters cover the extents and that no write touches them.
-/

namespace StarConverter

open Base

namespace Exfat

namespace Serialize

/-- The bytes of clusters, one after the other. -/
def clustersContent (geometry : ExfatDestinationGeometry) (image : Bytes) (clusters : List ℕ) : Bytes :=
  clusters.flatMap fun cluster =>
    sliceAt image (clusterSpan geometry cluster).offset (clusterSpan geometry cluster).length

/-- The bytes of extents, one after the other; a sparse one has none. -/
def extentsContent (image : Bytes) (extents : List Extent) : Bytes :=
  extents.flatMap fun extent =>
    (extent.physical?.map fun range => sliceAt image range.offset range.length).getD []

section Payload

variable {graph : ObjectGraph} {metadata : List ExfatObjectMetadata} {profile : ExfatVolumeProfile}
  {options : ExfatSerializeOptions} {geometry : ExfatDestinationGeometry}
  {allocations : List Allocation} {placement : ExfatPlacement} {marks : List Bool}
  {parts : VolumeParts} {plan : ExfatSerializationPlan} {image : Bytes}

/-- Clusters in a row are one piece of the image. -/
theorem clustersContent_range' {first : ℕ} (hfirst : 2 ≤ first) (count : ℕ) :
    clustersContent geometry image (List.range' first count) =
      sliceAt image (clusterSpan geometry first).offset (count * geometry.bytesPerCluster) := by
  induction count generalizing first with
  | zero => rw [Nat.zero_mul, sliceAt, List.take_zero]; rfl
  | succ count ih =>
    have hnext : (clusterSpan geometry (first + 1)).offset =
        (clusterSpan geometry first).offset + geometry.bytesPerCluster := by
      show heapStart geometry + (first + 1 - 2) * _ = heapStart geometry + (first - 2) * _ + _
      rw [show first + 1 - 2 = first - 2 + 1 by omega, Nat.add_mul, Nat.one_mul, Nat.add_assoc]
    rw [List.range'_succ, clustersContent, List.flatMap_cons, ← clustersContent,
      ih (by omega), hnext, Nat.add_mul, Nat.one_mul, Nat.add_comm (count * _), sliceAt_add]
    rfl

/-- The clusters of an extent hold its bytes. -/
theorem clustersContent_extent {extent : Extent} {range : ByteRange}
    (h : InHeap geometry extent range) :
    clustersContent geometry image (extentClusters geometry extent) =
      sliceAt image range.offset range.length := by
  have hoffset : (clusterSpan geometry ((range.offset - heapStart geometry) /
      geometry.bytesPerCluster + 2)).offset = range.offset := by
    show heapStart geometry + (_ + 2 - 2) * _ = range.offset
    rw [Nat.add_sub_cancel, Nat.div_mul_cancel h.aligned]
    exact Nat.add_sub_cancel' h.start
  rw [extentClusters_eq h.physical, clustersContent_range' (Nat.le_add_left 2 _), hoffset,
    physical_length h.physical, Nat.div_mul_cancel h.length]

/-- A stream that has been placed lies in the clusters of its extents. -/
theorem Placed.clusters_eq (h : Placed graph metadata profile geometry allocations placement)
    {stream : StreamLayout} (hstream : stream ∈ payloadStreams placement.layouts) :
    stream.clusters = (ObjectGraph.streamExtents graph.extents stream.stream).flatMap
      (extentClusters geometry) := by
  obtain ⟨⟨id, layout⟩, hitem, hkind, hsome, hmapped⟩ := mem_payloadStreams.1 hstream
  have hkey : id ∈ graph.objects.map ObjectRecord.id :=
    h.layouts.keys.mem_iff.1 (List.mem_map.2 ⟨(id, layout), hitem, rfl⟩)
  obtain ⟨object, hobject, rfl⟩ := List.mem_map.1 hkey
  have hdescribed := h.layouts.described object hobject layout hitem
  have hget : placement.layouts.get? object.id = some layout :=
    (Layouts.get?_eq_some h.layouts.nodup).2 hitem
  obtain ⟨before, -, hplaced⟩ := h.files.stream object hobject (hdescribed.kind.symm.trans hkind)
    layout hget
  obtain rfl : placedStream graph geometry before = stream := Option.some.inj (hplaced.symm.trans hsome)
  have hbefore : before.mappedBytes ≠ 0 := by
    intro hzero
    rw [placedStream, if_pos hzero] at hmapped
    exact hmapped hzero
  rw [placedStream, if_neg hbefore]

/-- **The payload of the new volume.** The clusters of each payload hold the bytes of the extents of its
stream. -/
theorem format_payload {limits : ExfatFormatLimits} {plan : ExfatSerializationPlan}
    (h : serializeExfatDestination graph metadata profile options limits = .ok plan) (image : Bytes) :
    ∀ reused ∈ plan.reusedPayloads,
      clustersContent plan.geometry (applyAll plan.overlay.writes image) reused.clusters =
        extentsContent image (ObjectGraph.streamExtents graph.extents reused.stream) := by
  simp only [serializeExfatDestination, bind_ok_iff, pure_eq_ok, Except.ok.injEq] at h
  obtain ⟨output, houtput, rfl⟩ := h
  obtain ⟨geometry, allocations, placement, marks, parts, hrun, hreused, -⟩ :=
    serializeExfatDestinationImpl_ok (by simp) houtput
  intro reused hmem
  rw [hreused, hrun.placed.files.reused.mem_iff] at hmem
  obtain ⟨stream, hstream, rfl⟩ := List.mem_map.1 hmem
  obtain ⟨hpreserves, -⟩ := hrun.preserves image
  have hgeometry : clustersContent output.plan.geometry = clustersContent geometry := by
    rw [hrun.geometry_eq, hrun.placed.geometry_eq]
    rfl
  show clustersContent output.plan.geometry _ stream.clusters =
    extentsContent image (ObjectGraph.streamExtents graph.extents stream.stream)
  rw [hgeometry, hrun.placed.clusters_eq hstream, clustersContent, extentsContent, List.flatMap_assoc]
  refine List.flatMap_congr fun extent hextent => ?_
  obtain ⟨-, range, hin⟩ := (hrun.placed.files.mapped stream hstream).extents extent hextent
  obtain ⟨other, hother, hsame⟩ := hpreserves extent (List.mem_filter.1 hextent).1
  obtain rfl : range = other := Option.some.inj (hin.physical.symm.trans hother)
  rw [hin.physical, Option.map_some, Option.getD_some]
  refine (clustersContent_extent hin).trans (List.ext_getElem? fun i => ?_)
  rw [getElem?_sliceAt, getElem?_sliceAt]
  split_ifs with hi
  · exact hsame _ (Span.mem_iff.2 ⟨Nat.le_add_right _ _, Nat.add_lt_add_left hi _⟩)
  · rfl

theorem format_payload_sample : ∃ plan, serializeExfatDestination sampleObjectGraph sampleMetadata
    sampleProfile sampleOptions sampleFormatLimits = .ok plan ∧ ∀ reused ∈ plan.reusedPayloads,
      clustersContent plan.geometry (applyAll plan.overlay.writes (zeros 1048576)) reused.clusters =
        extentsContent (zeros 1048576)
          (ObjectGraph.streamExtents sampleObjectGraph.extents reused.stream) := by
  obtain ⟨output, houtput, -⟩ := sampleSerializes
  have hplan : serializeExfatDestination sampleObjectGraph sampleMetadata sampleProfile sampleOptions
      sampleFormatLimits = .ok output.plan := by
    rw [serializeExfatDestination, houtput, ok_bind]
    rfl
  exact ⟨output.plan, hplan, format_payload hplan (zeros 1048576)⟩

end Payload

end Serialize

end Exfat

end StarConverter
