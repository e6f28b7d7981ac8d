import StarConverter.Exfat.UpcaseCodec
import StarConverter.Exfat.WriteRoom

/-!
# The formatter overwrites nothing that must stay

The clusters of the payload, of the old directories and the bad ones are handed out before those of the
new metadata, so no write reaches them (`not_mem_span_of_kept`). Every extent of the graph lies in such
clusters (`Placed.extent`), hence writing the new volume keeps the bytes of the source.
-/

namespace StarConverter

open Base

namespace Exfat

namespace Serialize

/-- The clusters that are written to. -/
def writtenClusters (allocations : List Allocation) (placement : ExfatPlacement) : List ℕ :=
  scrubClusters placement.scrubs ++ placement.bitmap.clusters ++
    placement.upcaseAllocation.clusters ++ allocations.flatMap Allocation.clusters

/-- The clusters that must not change. -/
def keptClusters (graph : ObjectGraph) (geometry : ExfatDestinationGeometry)
    (placement : ExfatPlacement) : List ℕ :=
  placement.badClusters ++ sourceDirectoryClusters graph geometry ++ payloadClusters placement.layouts

/-- A byte of the heap that lies in one of the clusters. -/
def InClusters (geometry : ExfatDestinationGeometry) (clusters : List ℕ) (x : ℕ) : Prop :=
  heapStart geometry ≤ x ∧ clusterAt geometry x ∈ clusters

section Kept

variable {graph : ObjectGraph} {metadata : List ExfatObjectMetadata} {profile : ExfatVolumeProfile}
  {options : ExfatSerializeOptions} {geometry : ExfatDestinationGeometry}
  {allocations : List Allocation} {placement : ExfatPlacement} {marks : List Bool}
  {parts : VolumeParts} {x : ℕ}

/-- How often a cluster has been handed out. -/
theorem Placed.count_le (h : Placed graph metadata profile geometry allocations placement)
    (cluster : ℕ) :
    (keptClusters graph geometry placement).count cluster +
      (writtenClusters allocations placement).count cluster ≤ 1 := by
  have hone := List.nodup_iff_count_le_one.1 h.owned.nodup cluster
  simp only [keptClusters, writtenClusters, List.count_append] at hone ⊢
  omega

theorem Placed.not_written (h : Placed graph metadata profile geometry allocations placement)
    {cluster : ℕ} (hkept : cluster ∈ keptClusters graph geometry placement) :
    cluster ∉ writtenClusters allocations placement := by
  intro hwritten
  have hone := h.count_le cluster
  have := List.count_pos_iff.2 hkept
  have := List.count_pos_iff.2 hwritten
  omega

/-- A cluster that has been handed out lies in the heap. -/
theorem Placed.lt_heapEnd (h : Placed graph metadata profile geometry allocations placement)
    (hpos : 0 < geometry.bytesPerCluster)
    (hx : InClusters geometry (keptClusters graph geometry placement) x) :
    x < heapStart geometry + heapBytes geometry := by
  have hmem : clusterAt geometry x ∈ placement.badClusters ++ scrubClusters placement.scrubs ++
      sourceDirectoryClusters graph geometry ++ payloadClusters placement.layouts ++
        placement.bitmap.clusters ++ placement.upcaseAllocation.clusters ++
          allocations.flatMap Allocation.clusters := by
    have hkept := hx.2
    simp only [keptClusters, List.mem_append] at hkept ⊢
    tauto
  have hlt := h.owned.lt hmem
  rw [h.occupied_length, clusterAt, Nat.add_comm, Nat.add_lt_add_iff_left,
    Nat.div_lt_iff_lt_mul hpos] at hlt
  have := hx.1
  unfold heapBytes
  omega

/-- The span of a part that fills an allocation. -/
theorem span_of_length {allocation : Allocation} {bytes : Bytes}
    (h : bytes.length = paddedAllocationBytes allocation geometry.bytesPerCluster) :
    (⟨(allocationSpan geometry allocation).offset, bytes⟩ : OverlayWrite).span =
      allocationSpan geometry allocation := by
  unfold Patch.span
  rw [h]
  rfl

theorem Placed.directory_low (h : Placed graph metadata profile geometry allocations placement)
    {allocation : Allocation} (hallocation : allocation ∈ allocations) :
    2 ≤ allocation.firstCluster := by
  obtain ⟨object, hzip⟩ : ∃ object, (object, allocation) ∈ placement.directoryOrder.zip allocations := by
    rw [← List.map_snd_zip h.directories.length_eq.ge] at hallocation
    obtain ⟨⟨object, _⟩, hmem, rfl⟩ := List.mem_map.1 hallocation
    exact ⟨object, hmem⟩
  exact ((List.forall₂_iff_zip.1 h.directories).2 hzip).low

theorem exists_mem_zip {l : List ObjectId} {l' : List Allocation} (hlength : l.length = l'.length)
    {object : ObjectId} (h : object ∈ l) : ∃ allocation, (object, allocation) ∈ l.zip l' := by
  rw [← List.map_fst_zip hlength.le] at h
  obtain ⟨⟨_, allocation⟩, hmem, rfl⟩ := List.mem_map.1 h
  exact ⟨allocation, hmem⟩

/-- The root directory has an allocation. -/
theorem Placed.rootAllocation (h : Placed graph metadata profile geometry allocations placement) :
    ∃ allocation, (graph.root, allocation) ∈ placement.directoryOrder.zip allocations := by
  obtain ⟨maxName, hspace⟩ := namespaceValid graph
  exact exists_mem_zip h.directories.length_eq ((h.order graph.root).2 hspace.root_directory)

theorem Placed.fatClusters_count (h : Placed graph metadata profile geometry allocations placement)
    {allocation : Allocation} (hallocation : allocation ∈ allocations) (cluster : ℕ) :
    (placement.bitmap.clusters ++ placement.upcaseAllocation.clusters ++ placement.badClusters ++
      (chainsOf placement allocation.clusters).flatten).count cluster ≤
        (keptClusters graph geometry placement).count cluster +
          (writtenClusters allocations placement).count cluster := by
  have hroot : allocation.clusters.count cluster ≤
      (allocations.flatMap Allocation.clusters).count cluster :=
    ((List.singleton_sublist.2 hallocation).flatMap Allocation.clusters).count_le cluster |>.trans_eq'
      (by rw [List.flatMap_singleton])
  have hfragmented := (List.filter_sublist (l := placement.mapping.reused)
    (p := fun reused => !reused.noFatChain)).flatMap ReusedPayload.clusters |>.count_le cluster
  have hpayload : (placement.mapping.reused.flatMap ReusedPayload.clusters).count cluster =
      (payloadClusters placement.layouts).count cluster := by
    rw [(h.files.reused.flatMap_right ReusedPayload.clusters).count_eq, List.flatMap_map]
    rfl
  simp only [chainsOf, List.flatten_cons, List.count_append, keptClusters, writtenClusters,
    ← List.flatMap_def]
  omega

theorem Built.fat_ok (h : Placed graph metadata profile geometry allocations placement)
    (hcount : geometry.clusterCount ≤ maxClusterCount)
    (hbuilt : Built graph profile options geometry allocations placement marks parts)
    {allocation : Allocation}
    (hroot : (graph.root, allocation) ∈ placement.directoryOrder.zip allocations) :
    FatHolds parts.fat (fatEntries placement.bitmap placement.upcaseAllocation placement.badClusters
        (chainsOf placement allocation.clusters)) ∧
      parts.fat.length = fatByteLength geometry := by
  have hcounted := h.fatClusters_count (List.of_mem_zip hroot).2
  have howned : ∀ cluster ∈ placement.bitmap.clusters ++ placement.upcaseAllocation.clusters ++
      placement.badClusters ++ (chainsOf placement allocation.clusters).flatten,
      2 ≤ cluster ∧ cluster < 2 + geometry.clusterCount := by
    intro cluster hcluster
    have hpos := (List.count_pos_iff.2 hcluster).trans_le (hcounted cluster)
    have hmem : cluster ∈ placement.badClusters ++ scrubClusters placement.scrubs ++
        sourceDirectoryClusters graph geometry ++ payloadClusters placement.layouts ++
          placement.bitmap.clusters ++ placement.upcaseAllocation.clusters ++
            allocations.flatMap Allocation.clusters := by
      simp only [keptClusters, writtenClusters, List.count_append] at hpos
      rw [← List.count_pos_iff]
      simp only [List.count_append]
      omega
    have hlt := h.owned.lt hmem
    rw [h.occupied_length] at hlt
    exact ⟨h.owned.low cluster hmem, hlt⟩
  obtain ⟨hholds, hlength⟩ := buildFat_ok (fun cluster hcluster => (howned cluster hcluster).1)
    (fun cluster hcluster => by
      have hmax : 2 + maxClusterCount < wordBound32 := by decide
      have := (howned cluster hcluster).2
      omega)
    (List.nodup_iff_count_le_one.2 fun cluster => (hcounted cluster).trans (h.count_le cluster))
    (hbuilt.fat allocation hroot)
  refine ⟨hholds, ?_⟩
  rw [hlength, fatByteLength, h.sectorBytes, h.fatLength]
  rfl

/-- Where the writes lie. -/
theorem Built.mem_span (h : Placed graph metadata profile geometry allocations placement)
    (hbuilt : Built graph profile options geometry allocations placement marks parts)
    (hself : geometry.SelfConsistent) (hpos : 0 < geometry.bytesPerCluster)
    (hcount : geometry.clusterCount ≤ maxClusterCount) {write : OverlayWrite}
    (hwrite : write ∈ parts.writes geometry allocations placement) (hx : x ∈ write.span) :
    x < heapStart geometry ∨ heapStart geometry + heapBytes geometry ≤ x ∨
      InClusters geometry (writtenClusters allocations placement) x := by
  have hboot : 24 * geometry.bytesPerSector ≤ geometry.fatOffsetSectors * geometry.bytesPerSector :=
    Nat.mul_le_mul_right _ hself.fat_after_boot
  have hfat : geometry.fatOffsetSectors * geometry.bytesPerSector + fatByteLength geometry ≤
      heapStart geometry := by
    have := Nat.mul_le_mul_right geometry.bytesPerSector hself.fat_end
    rwa [Nat.add_mul] at this
  obtain ⟨rootAllocation, hroot⟩ := h.rootAllocation
  have hin : ∀ {allocation : Allocation} {bytes : Bytes}, 2 ≤ allocation.firstCluster →
      bytes.length = paddedAllocationBytes allocation geometry.bytesPerCluster →
      allocation.clusters ⊆ writtenClusters allocations placement →
      x ∈ (⟨(allocationSpan geometry allocation).offset, bytes⟩ : OverlayWrite).span →
      InClusters geometry (writtenClusters allocations placement) x := by
    intro allocation bytes hlow hlength hsub hmem
    rw [span_of_length hlength, mem_allocationSpan hpos hlow] at hmem
    exact ⟨hmem.1, hsub hmem.2⟩
  simp only [VolumeParts.writes, List.mem_append, List.mem_cons, List.not_mem_nil, or_false] at hwrite
  obtain ((rfl | rfl | rfl | rfl | rfl) | hwrite) | hwrite := hwrite
  · have hlt := (Patch.mem_span.1 hx).2
    rw [hbuilt.boot_length] at hlt
    dsimp only at hlt
    omega
  · have hlt := (Patch.mem_span.1 hx).2
    rw [hbuilt.boot_length] at hlt
    dsimp only at hlt
    omega
  · have hlt := (Patch.mem_span.1 hx).2
    rw [(hbuilt.fat_ok h hcount hroot).2] at hlt
    dsimp only at hlt
    omega
  · refine .inr (.inr (hin h.low.1 (bitmapBytes_ok hbuilt.bitmap).1 (fun c hc => ?_) hx))
    simp only [writtenClusters, List.mem_append]
    tauto
  · obtain ⟨_, -, hlength⟩ := hbuilt.upcase
    refine .inr (.inr (hin h.low.2 hlength (fun c hc => ?_) hx))
    simp only [writtenClusters, List.mem_append]
    tauto
  · rw [← List.map_uncurry_zip_eq_zipWith] at hwrite
    obtain ⟨⟨allocation, bytes⟩, hzip, rfl⟩ := List.mem_map.1 hwrite
    have hallocation := (List.of_mem_zip hzip).1
    have hlength := (List.forall₂_iff_zip.1 hbuilt.lengths).2 hzip
    refine .inr (.inr (hin (h.directory_low hallocation) hlength (fun c hc => ?_) hx))
    have hmem : c ∈ allocations.flatMap Allocation.clusters :=
      List.mem_flatMap.2 ⟨allocation, hallocation, hc⟩
    simp only [writtenClusters, List.mem_append]
    tauto
  · obtain ⟨scrub, hscrub, rfl⟩ := List.mem_map.1 hwrite
    obtain ⟨occupied, hscrubs⟩ := h.scrubs
    have hmem : x ∈ scrub.range := by
      have hspan := Patch.mem_span.1 hx
      rw [scrubWrite, length_zeros] at hspan
      exact Span.mem_iff.2 hspan
    cases hcluster : scrub.heapCluster with
    | none =>
      obtain ⟨hle, hlt⟩ := Span.mem_iff.1 hmem
      rcases hscrubs.outside scrub hscrub hcluster with hout | hout
      · exact .inl (by omega)
      · exact .inr (.inl (by omega))
    | some cluster =>
      obtain ⟨hlow, -, hinside⟩ := hscrubs.heap scrub hscrub cluster hcluster
      obtain ⟨hle, hat⟩ := (mem_clusterSpan hpos hlow).1 (hinside.mem hmem)
      refine .inr (.inr ⟨hle, ?_⟩)
      rw [hat]
      have hsome : cluster ∈ scrubClusters placement.scrubs :=
        List.mem_filterMap.2 ⟨scrub, hscrub, hcluster⟩
      simp only [writtenClusters, List.mem_append]
      tauto

/-- No write reaches the clusters that must not change. -/
theorem Built.not_mem_span_of_kept (h : Placed graph metadata profile geometry allocations placement)
    (hbuilt : Built graph profile options geometry allocations placement marks parts)
    (hself : geometry.SelfConsistent) (hpos : 0 < geometry.bytesPerCluster)
    (hcount : geometry.clusterCount ≤ maxClusterCount) {write : OverlayWrite}
    (hwrite : write ∈ parts.writes geometry allocations placement)
    (hx : InClusters geometry (keptClusters graph geometry placement) x) : x ∉ write.span := by
  intro hmem
  rcases hbuilt.mem_span h hself hpos hcount hwrite hmem with hlow | hhigh | hin
  · exact absurd hx.1 (Nat.not_le.2 hlow)
  · exact absurd (h.lt_heapEnd hpos hx) (Nat.not_lt.2 hhigh)
  · exact h.not_written hx.2 hin.2

theorem mem_payloadStreams {layouts : Layouts} {stream : StreamLayout} :
    stream ∈ payloadStreams layouts ↔ ∃ item ∈ layouts, item.2.kind = .file ∧
      item.2.stream = some stream ∧ stream.mappedBytes ≠ 0 := by
  unfold payloadStreams
  rw [List.mem_filterMap]
  refine exists_congr fun item => and_congr_right fun _ => ?_
  cases item.2.kind with
  | directory => simp
  | file => simp [Option.filter_eq_some_iff]

/-- The stream that an extent of file data belongs to has been placed. -/
theorem Placed.payload (h : Placed graph metadata profile geometry allocations placement)
    {extent : Extent} (hextent : extent ∈ graph.extents.extents) (hkind : extent.kind = .fileData) :
    ∃ stream ∈ payloadStreams placement.layouts, stream.stream = extent.stream ∧
      stream.clusters = (ObjectGraph.streamExtents graph.extents stream.stream).flatMap
        (extentClusters geometry) := by
  obtain ⟨limits, hlimits⟩ := graph.accepted
  obtain ⟨hvalid, href⟩ := ObjectGraph.streams_of_accepted hlimits
  obtain ⟨stream, hstream, hid, hstorage⟩ := href extent hextent
  obtain ⟨object, hobject, hmem⟩ := List.mem_flatMap.1 hstream
  cases hobjectKind : object.kind with
  | directory =>
    have hdirectory := h.files.source object hobject hobjectKind
    cases hstreams : object.streams with
    | nil =>
      rw [hstreams] at hmem
      cases hmem
    | cons first more =>
      rw [hstreams, validateDirectoryStreams, ensure_ok_iff] at hdirectory
      obtain ⟨rfl, -, -, -, hall⟩ := hdirectory
      rw [hstreams, List.mem_singleton] at hmem
      have hdata := hall extent hextent (by rw [← hmem, hid])
      rw [hkind] at hdata
      cases hdata
  | file =>
    obtain ⟨layout, hlayout, hdescribed⟩ := h.layouts.get?_object hobject
    obtain ⟨placed, hplaced, hsome⟩ := h.files.stream object hobject hobjectKind layout hlayout
    cases hstreams : object.streams with
    | nil =>
      rw [hstreams] at hmem
      cases hmem
    | cons first more =>
      simp only [hstreams, validateFileStream, bind_ok_iff, ensure_ok_iff, pure_eq_ok,
        Except.ok.injEq] at hplaced
      obtain ⟨_, ⟨rfl, -⟩, _, -, _, hstored, rfl⟩ := hplaced
      rw [hstreams, List.mem_singleton] at hmem
      subst hmem
      have hlogical : stream.logicalBytes ≠ 0 := by
        intro hzero
        rw [validateStreamStorage, if_pos hzero, ensure_ok_iff, hstorage] at hstored
        cases hstored
      have hmapped : stream.mappedBytes ≠ 0 := by
        have := (hvalid.valid stream hstream).sizes
        omega
      have hunplaced : placedStream graph geometry ⟨stream.id, stream.logicalBytes,
          stream.initializedBytes, stream.mappedBytes, [], false⟩ =
          let clusters := (ObjectGraph.streamExtents graph.extents stream.id).flatMap
            (extentClusters geometry)
          ⟨stream.id, stream.logicalBytes, stream.initializedBytes, stream.mappedBytes, clusters,
            decide (clusters.IsChain fun a b => b = a + 1)⟩ := if_neg hmapped
      rw [hunplaced] at hsome
      exact ⟨_, mem_payloadStreams.2 ⟨(object.id, layout),
        (Layouts.get?_eq_some h.layouts.nodup).1 hlayout, hdescribed.kind.trans hobjectKind, hsome,
        hmapped⟩, hid, rfl⟩

/-- Every extent of the graph lies in clusters that must not change. -/
theorem Placed.extent (h : Placed graph metadata profile geometry allocations placement)
    {extent : Extent} (hextent : extent ∈ graph.extents.extents) :
    ∃ range, InHeap geometry extent range ∧
      extentClusters geometry extent ⊆ keptClusters graph geometry placement := by
  by_cases hkind : extent.kind = .fileData
  · obtain ⟨stream, hstream, hid, hclusters⟩ := h.payload hextent hkind
    have hmem : extent ∈ ObjectGraph.streamExtents graph.extents stream.stream :=
      List.mem_filter.2 ⟨hextent, by simp [hid]⟩
    obtain ⟨-, range, hin⟩ := (h.files.mapped stream hstream).extents extent hmem
    refine ⟨range, hin, fun cluster hcluster => List.mem_append_right _ (List.mem_flatMap.2
      ⟨stream, hstream, ?_⟩)⟩
    rw [hclusters]
    exact List.mem_flatMap.2 ⟨extent, hmem, hcluster⟩
  · obtain ⟨-, range, hin⟩ := h.files.directories extent hextent hkind
    refine ⟨range, hin, fun cluster hcluster => List.mem_append_left _ (List.mem_append_right _
      (List.mem_flatMap.2 ⟨extent, List.mem_filter.2 ⟨hextent, ?_⟩, hcluster⟩))⟩
    exact decide_eq_true hkind

theorem Placed.bad_covered (h : Placed graph metadata profile geometry allocations placement)
    (hself : geometry.SelfConsistent) (hpos : 0 < geometry.bytesPerCluster) {range : ByteRange}
    (hrange : range ∈ profile.badClusterRanges) (hx : x ∈ range) :
    InClusters geometry (keptClusters graph geometry placement) x := by
  obtain ⟨cluster, hcluster, hmem⟩ := destExfatBadClusters_covers hself.heap_aligned hpos h.bad hrange hx
  obtain ⟨hle, hat⟩ := (mem_clusterSpan hpos (destExfatBadClusters_low h.bad cluster hcluster)).1 hmem
  refine ⟨hle, ?_⟩
  rw [hat]
  exact List.mem_append_left _ (List.mem_append_left _ hcluster)

theorem FormatRun.cluster_pos {plan : ExfatSerializationPlan}
    (h : FormatRun graph metadata profile options plan geometry allocations placement marks parts) :
    0 < geometry.bytesPerCluster := by
  obtain ⟨sectorShift, clusterShift, reserved, hchosen⟩ := h.chosen
  rw [hchosen.cluster_eq]
  exact Nat.mul_pos hchosen.sector_pos (Nat.two_pow_pos _)

/-- What the new volume is written over keeps its bytes outside the writes. -/
theorem FormatRun.getElem?_of_kept {plan : ExfatSerializationPlan}
    (h : FormatRun graph metadata profile options plan geometry allocations placement marks parts)
    (image : Bytes) (hx : InClusters geometry (keptClusters graph geometry placement) x) :
    (applyAll plan.overlay.writes image)[x]? = image[x]? := by
  obtain ⟨sectorShift, clusterShift, reserved, hchosen⟩ := h.chosen
  refine getElem?_applyAll_of_not_mem fun hmem => ?_
  obtain ⟨write, hwrite, hspan⟩ := mem_touched.1 hmem
  exact h.built.not_mem_span_of_kept h.placed hchosen.selfConsistent h.cluster_pos hchosen.count_le
    (h.writes.mem_iff.1 hwrite) hx hspan

/-- Every extent of the graph keeps its bytes, and so does every bad range. -/
theorem FormatRun.preserves {plan : ExfatSerializationPlan}
    (h : FormatRun graph metadata profile options plan geometry allocations placement marks parts)
    (image : Bytes) :
    (∀ extent ∈ graph.extents.extents, ∃ range, extent.physical? = some range ∧
      ∀ x ∈ range, (applyAll plan.overlay.writes image)[x]? = image[x]?) ∧
    ∀ range ∈ profile.badClusterRanges, ∀ x ∈ range,
      (applyAll plan.overlay.writes image)[x]? = image[x]? := by
  obtain ⟨sectorShift, clusterShift, reserved, hchosen⟩ := h.chosen
  constructor
  · intro extent hextent
    obtain ⟨range, hin, hsub⟩ := h.placed.extent hextent
    refine ⟨range, hin.physical, fun x hx => h.getElem?_of_kept image ?_⟩
    obtain ⟨hle, hmem⟩ := clusterAt_mem_extentClusters hin hx
    exact ⟨hle, hsub hmem⟩
  · exact fun range hrange x hx => h.getElem?_of_kept image
      (h.placed.bad_covered hchosen.selfConsistent h.cluster_pos hrange hx)

end Kept

/-- **Formatting keeps the source.** All data of the graph is physical, and the writes of the new volume
change no byte of a file, of an old directory or of a bad range. -/
theorem format_preserves {graph : ObjectGraph} {metadata : List ExfatObjectMetadata}
    {profile : ExfatVolumeProfile} {options : ExfatSerializeOptions} {limits : ExfatFormatLimits}
    {plan : ExfatSerializationPlan}
    (h : serializeExfatDestination graph metadata profile options limits = .ok plan) (image : Bytes) :
    (∀ extent ∈ graph.extents.extents, ∃ range, extent.physical? = some range ∧
      ∀ x ∈ range, (applyAll plan.overlay.writes image)[x]? = image[x]?) ∧
    ∀ range ∈ profile.badClusterRanges, ∀ x ∈ range,
      (applyAll plan.overlay.writes image)[x]? = image[x]? := by
  simp only [serializeExfatDestination, bind_ok_iff, pure_eq_ok, Except.ok.injEq] at h
  obtain ⟨output, houtput, rfl⟩ := h
  obtain ⟨_, _, _, _, _, hrun, -⟩ := serializeExfatDestinationImpl_ok (by simp) houtput
  exact hrun.preserves image

/-! ## A sample volume -/

def sampleExtentGraph : ExtentGraph :=
  okValue (ExtentGraph.build [⟨20, 0, 4096, .physical 40960, .fileData⟩,
    ⟨10, 0, 4096, .physical 32768, .directoryData⟩] 1048576 4) (by decide +kernel)

/-- A root directory with one file of 500 bytes. -/
def sampleObjectGraph : ObjectGraph :=
  okValue (ObjectGraph.build 1
    [⟨1, .directory, 0, ⟨false, false⟩,
      [⟨10, none, 4096, 4096, 4096, 4096, ⟨false, false, false, 0⟩, .extents⟩]⟩,
      ⟨2, .file, 1, ⟨false, false⟩,
        [⟨20, none, 500, 500, 4096, 4096, ⟨false, false, false, 0⟩, .extents⟩]⟩]
    [⟨1, 2, [97]⟩] sampleExtentGraph ⟨4, 4, 4, 4⟩) (by decide +kernel)

def sampleMetadata : List ExfatObjectMetadata :=
  [⟨2, 0x20, ⟨0x5a210000, 0x5a210000, 0x5a210000, 0, 0, 0, 0, 0⟩⟩]

/-- One bad range and one stale boot sector. -/
def sampleProfile : ExfatVolumeProfile :=
  ⟨some [86], asciiTable, tableChecksum asciiTable, ⟨0, 0, 0, 0, false⟩, 1, [⟨51200, 10⟩],
    [⟨61440, 512⟩]⟩

def sampleOptions : ExfatSerializeOptions := ⟨512, 4096, 0, 1, 0x80⟩

def sampleFormatLimits : ExfatFormatLimits :=
  ⟨⟨100000⟩, 10, 10, 10, 100000, 100000, ⟨100, 1000000, 4096⟩⟩

def sampleGeometry : ExfatDestinationGeometry := ⟨1048576, 2048, 24, 2, 32, 252, 4, 512, 4096⟩

def sampleLayouts : Layouts := [(1, ⟨.directory, none, none, [2], none, [4], 224⟩),
  (2, ⟨.file, some ⟨2, 32, ⟨1512112128, 1512112128, 1512112128, 0, 0, 0, 0, 0⟩⟩, some [97], [],
    some ⟨20, 500, 500, 4096, [8], true⟩, [], 0⟩)]

def sampleSpans : List Span := [⟨0, 6144⟩, ⟨6144, 6144⟩, ⟨12288, 1024⟩, ⟨16384, 4096⟩, ⟨20480, 4096⟩,
  ⟨24576, 4096⟩, ⟨61440, 512⟩]

set_option maxRecDepth 100000 in
-- One step after the other: the kernel would evaluate the steps again for each use of them.
theorem samplePlaced : (placeVolume sampleObjectGraph sampleMetadata sampleProfile sampleOptions
    sampleFormatLimits .final none).toOption.isSome = true := by
  have h : ∃ placement, placeVolume sampleObjectGraph sampleMetadata sampleProfile sampleOptions
      sampleFormatLimits .final none = .ok placement ∧ True := by
    unfold placeVolume
    iterate 12
      refine exists_ok_bind (by decide +kernel) ?_
    exact ⟨_, eq_okValue (by decide +kernel), trivial⟩
  obtain ⟨placement, h, -⟩ := h
  rw [h]
  rfl

def samplePlacement : ExfatPlacement := okValue _ samplePlaced

set_option maxRecDepth 100000 in
theorem samplePlacement_eq : (samplePlacement.geometry = sampleGeometry ∧
    samplePlacement.bitmap = ⟨2, 1⟩ ∧ samplePlacement.upcaseAllocation = ⟨3, 1⟩) ∧
    (samplePlacement.directoryOrder = [1] ∧
    samplePlacement.mapping.reused = [⟨20, [8], true⟩] ∧ samplePlacement.badClusters = [10]) ∧
    samplePlacement.scrubs = [⟨⟨61440, 512⟩, some 13⟩] ∧
    samplePlacement.layouts = sampleLayouts ∧
    (samplePlacement.upcase.nameHash [97] maxFileNameCodeUnits).toOption.isSome = true := by
  decide +kernel

theorem sampleGeometry_valid : sampleGeometry.Valid sampleOptions.partitionOffsetSectors 9 3 := by
  constructor <;> norm_num [sampleGeometry, sampleOptions, wordBound, wordBound32, fatOffsetSectors,
    mainAndBackupBootSectors, sectorsPerBootRegion, maxClusterCount]

theorem sampleBoot (allocated : List Bool) : ∃ boot : Bytes, boot.length = 6144 ∧
    buildBootRegions sampleGeometry sampleOptions (percentInUse allocated) = .ok (boot ++ boot) := by
  obtain ⟨regions, hregions⟩ :=
    (buildBootRegions_of_valid sampleGeometry_valid).2 (percentInUse_allowed allocated)
  obtain ⟨boot, rfl, hlength⟩ := buildBootRegions_twice hregions
  exact ⟨boot, hlength, hregions⟩

theorem sampleDirectory {upcase : UpcaseTable} {hash : ℕ}
    (hhash : upcase.nameHash [97] maxFileNameCodeUnits = .ok hash) :
    ∃ bytes, buildDirectory 1 1 sampleLayouts ⟨2, 1⟩ ⟨3, 1⟩ 32 sampleProfile.volumeLabel
      sampleProfile.encodedUpcaseTable sampleProfile.upcaseChecksum upcase 4096 = .ok bytes ∧
      bytes.length = 4096 := by
  have hallocation : allocationFromClusters [4] = .ok ⟨4, 1⟩ := rfl
  obtain ⟨front, hfront, hlen⟩ := @writeSystemEntries_of 1 ⟨2, 1⟩ ⟨3, 1⟩ 32
    sampleProfile.upcaseChecksum [86] sampleProfile.encodedUpcaseTable (zeros 4096) (by decide)
    (by rw [length_zeros]; decide)
  rw [length_zeros] at hlen
  obtain ⟨⟨written, stop⟩, hwritten, hlength⟩ := @writeChild_of sampleLayouts upcase 4096
    (3 * entryBytes) front 2 _ _ _ _ _ rfl rfl rfl rfl hhash (by decide) (by rw [hlen]; decide)
    (by rw [hlen]; decide)
  refine ⟨written, ?_, hlength.trans hlen⟩
  rw [buildDirectory, show sampleLayouts.index 1 = .ok _ from rfl, ok_bind, hallocation, ok_bind]
  dsimp only
  rw [show zeros (paddedAllocationBytes ⟨4, 1⟩ 4096) = zeros 4096 from rfl]
  rw [show sampleProfile.volumeLabel = some [86] from rfl, hfront, ok_bind]
  dsimp only
  rw [writeChildren, hwritten, ok_bind]
  rfl

theorem sampleWrites : ∃ writes, volumeWrites sampleObjectGraph.root sampleProfile sampleOptions
    samplePlacement = .ok writes ∧ writes.map Patch.span = sampleSpans := by
  obtain ⟨⟨hgeometry, hbitmap, hupcase⟩, ⟨horder, hreused, hbad⟩, hscrubs, hlayouts, hhash⟩ :=
    samplePlacement_eq
  obtain ⟨bytes, hbytes, hlength⟩ := sampleDirectory (eq_okValue hhash)
  have hroot : sampleObjectGraph.root = 1 := by decide +kernel
  have hfat : fatByteLength sampleGeometry = 1024 := rfl
  obtain ⟨fat, hfat, hfatLength⟩ := @buildFat_of sampleGeometry ⟨2, 1⟩ ⟨3, 1⟩ [10] [[4]] [2] [3] rfl rfl
    (by rw [hfat]; decide) (by rw [hfat]; decide) (by rw [hfat]; decide)
  obtain ⟨marks, hmarks, hcount⟩ : ∃ marks, destinationAllocated 252 [⟨20, [8], true⟩] ⟨2, 1⟩ ⟨3, 1⟩
      [10] [[4]] = .ok marks ∧ marks.length = 252 :=
    ⟨_, eq_okValue (by decide +kernel), by decide +kernel⟩
  obtain ⟨bits, hbits, hbitsLength⟩ := @writeBits_of (zeros 4096) 0 marks
    (by rw [length_zeros]; omega)
  obtain ⟨boot, hbootLength, hboot⟩ := sampleBoot marks
  rw [length_zeros] at hbitsLength
  have hchains : volumeChains 1 samplePlacement = .ok [[4]] := by
    rw [volumeChains, hlayouts, horder, hreused]
    rfl
  have hdirectories : directoryChains sampleLayouts [1] = .ok [[4]] := rfl
  have hmap : bitmapBytes ⟨2, 1⟩ sampleGeometry.bytesPerCluster marks = .ok bits := hbits
  have hpadded : paddedUpcase samplePlacement sampleProfile =
      .ok (overwrite (zeros 4096) 0 asciiTable) := by
    rw [paddedUpcase, hgeometry, hupcase,
      show zeros (paddedAllocationBytes ⟨3, 1⟩ sampleGeometry.bytesPerCluster) =
        zeros 4096 from rfl, ensure_of (by rw [length_zeros]; decide +kernel), ok_bind]
    rfl
  have hwrites : directoryWrites 1 sampleProfile samplePlacement [1] = .ok [⟨24576, bytes⟩] := by
    rw [directoryWrites, directoryWrite, hlayouts, hbitmap, hupcase, hgeometry,
      show bitmapLength sampleGeometry = 32 from rfl,
      show sampleGeometry.bytesPerCluster = 4096 from rfl, hbytes, ok_bind,
      show sampleLayouts.index 1 = .ok _ from rfl, ok_bind,
      show allocationFromClusters [4] = .ok ⟨4, 1⟩ from rfl, ok_bind,
      @allocationWrite_of sampleGeometry ⟨4, 1⟩ 24576 rfl]
    rfl
  rw [volumeWrites]
  dsimp only
  rw [hroot, hchains, ok_bind, hgeometry, hbitmap, hupcase, horder, hreused, hbad, hscrubs, hlayouts,
    hfat, ok_bind, hdirectories, ok_bind, show sampleGeometry.clusterCount = 252 from rfl, hmarks,
    ok_bind, hmap, ok_bind, hboot]
  dsimp only [Except.mapError]
  rw [ok_bind, @allocationWrite_of sampleGeometry ⟨2, 1⟩ 16384 rfl, ok_bind, hpadded, ok_bind,
    @allocationWrite_of sampleGeometry ⟨3, 1⟩ 20480 rfl, ok_bind, hwrites, ok_bind]
  refine ⟨_, rfl, ?_⟩
  simp only [List.map_append, List.map_cons, List.map_nil, Patch.span, scrubWrite, List.length_take,
    List.length_drop, List.length_append, hbootLength, hfatLength, hbitsLength, hlength,
    length_overwrite, length_zeros]
  rfl

/-- The sample is formatted. -/
theorem sampleSerializes : ∃ output, serializeExfatDestinationImpl sampleObjectGraph sampleMetadata
    sampleProfile sampleOptions sampleFormatLimits .final none = .ok output ∧
      output.plan.geometry = sampleGeometry := by
  obtain ⟨writes, hwrites, hspans⟩ := sampleWrites
  obtain ⟨⟨hgeometry, hbitmap, hupcase⟩, ⟨horder, hreused, hbad⟩, hscrubs, hlayouts, -⟩ :=
    samplePlacement_eq
  have hbytes : writes.map (fun write => write.bytes.length) = sampleSpans.map Span.length := by
    rw [← hspans, List.map_map]
    rfl
  obtain ⟨overlay, hoverlay⟩ := @OverlayPlan.build_of_spans 1048576 512 writes
    sampleFormatLimits.overlay sampleSpans hspans rfl (by decide) (by decide) (by decide) (by decide)
    (by decide) (by decide) (by simp [Ordered, sampleSpans, Span.Before, Span.stop])
  have hreservations : (reservationsFor samplePlacement).toOption.isSome = true := by
    rw [reservationsFor, hgeometry, hbitmap, hupcase, horder, hbad, hscrubs, hlayouts]
    rfl
  have hdirectories : (directoryAllocations sampleLayouts [1]).toOption.isSome = true := rfl
  have hplaced : placeVolume sampleObjectGraph sampleMetadata sampleProfile sampleOptions
      sampleFormatLimits .final none = .ok samplePlacement := eq_okValue samplePlaced
  rw [serializeExfatDestinationImpl, hplaced, ok_bind, hwrites, ok_bind, hbytes,
    show sumChecked _ 0 (sampleSpans.map Span.length) = .ok 26112 from rfl, ok_bind,
    ensure_of (by decide), ok_bind, eq_okValue hreservations, ok_bind, hgeometry,
    show sampleGeometry.volumeBytes = 1048576 from rfl,
    show sampleGeometry.bytesPerSector = 512 from rfl, hoverlay]
  dsimp only [Except.mapError]
  rw [ok_bind, hlayouts, horder, eq_okValue hdirectories, ok_bind]
  exact ⟨_, rfl, rfl⟩

theorem format_preserves_sample : ∃ plan, serializeExfatDestination sampleObjectGraph sampleMetadata
    sampleProfile sampleOptions sampleFormatLimits = .ok plan ∧
      ∀ x ∈ (⟨51200, 10⟩ : ByteRange),
        (applyAll plan.overlay.writes (zeros 1048576))[x]? = (zeros 1048576)[x]? := by
  obtain ⟨output, houtput, -⟩ := sampleSerializes
  have hplan : serializeExfatDestination sampleObjectGraph sampleMetadata sampleProfile sampleOptions
      sampleFormatLimits = .ok output.plan := by
    rw [serializeExfatDestination, houtput, ok_bind]
    rfl
  obtain ⟨-, hbad⟩ := format_preserves hplan (zeros 1048576)
  exact ⟨output.plan, hplan, hbad ⟨51200, 10⟩ (by decide)⟩

end Serialize

end Exfat

end StarConverter
