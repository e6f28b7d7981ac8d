import StarConverter.Exfat.FormatSafety

/-!
# The allocation tables of the new volume

What the formatter writes is read again here. The iterator over the FAT of the finished image yields the
clusters of every fragmented file, of the bitmap, of the up-case table and of the root directory
(`format_chains`): their entries are a path through the FAT (`path_of_chainEntries`), and the walk of the
iterator follows it. The bitmap has the bit of each cluster that the volume refers to and no other
(`format_bitmap`); the clusters of the old directories are free unless they are used again.
-/

namespace StarConverter

open Base

namespace Exfat

/-- The iterator over the FAT yields these clusters, and nothing else. -/
def ReadsChain (fat : Bytes) (boot : ExfatBootSector) (clusters : List ℕ) : Prop :=
  ∀ start, clusters.head? = some start →
    ∃ chain, fatChain fat boot start = .ok chain ∧ chain.Yields (clusters.map .ok)

namespace Serialize

section Chain

variable {fat : Bytes} {boot : ExfatBootSector} {clusters : List ℕ}

/-- Entries of a chain are a path through the FAT. -/
theorem path_of_chainEntries (hcount : boot.clusterCount ≤ maxClusterCount)
    (hheap : ∀ cluster ∈ clusters, 2 ≤ cluster ∧ cluster < 2 + boot.clusterCount)
    (hentries : ∀ entry ∈ chainEntries clusters, InFat fat entry.1 ∧ fatValue fat entry.1 = entry.2)
    {start : ℕ} (hstart : clusters.head? = some start) :
    Walk.Path (FatLink fat boot) (FatEnd fat boot) start clusters := by
  have hword : 2 + maxClusterCount < badCluster + 1 ∧ badCluster < endOfChain ∧
      endOfChain < wordBound32 := by decide
  have hcluster : ∀ cluster ∈ clusters, HeapCluster boot cluster := fun cluster hmem =>
    ⟨by omega, hheap cluster hmem⟩
  clear hheap
  induction clusters generalizing start with
  | nil => cases hstart
  | cons cluster rest ih =>
    obtain rfl : cluster = start := Option.some.inj hstart
    rw [chainEntries, List.forall_mem_cons] at hentries
    obtain ⟨⟨hin, hvalue⟩, hrest⟩ := hentries
    rw [List.forall_mem_cons] at hcluster
    obtain ⟨hfirst, hothers⟩ := hcluster
    cases rest with
    | nil => exact .last ⟨hfirst, hin, hvalue⟩
    | cons next more =>
      have hnext : HeapCluster boot next := hothers next (by simp)
      refine .cons ⟨hfirst, hin, hvalue, ?_, ?_, ?_, hnext⟩ (ih hrest rfl hothers)
      all_goals
        show next ≠ _
        have := hnext.2
        omega

/-- The heap has room for different clusters only. -/
theorem length_le_of_inHeap {count : ℕ} {clusters : List ℕ} (hnodup : clusters.Nodup)
    (h : ∀ cluster ∈ clusters, 2 ≤ cluster ∧ cluster < 2 + count) : clusters.length ≤ count := by
  have hsub : clusters.toFinset ⊆ Finset.Ico 2 (2 + count) := fun cluster hc =>
    Finset.mem_Ico.2 (h cluster (List.mem_toFinset.1 hc))
  have hcard := Finset.card_le_card hsub
  rwa [List.toFinset_card_of_nodup hnodup, Nat.card_Ico, Nat.add_sub_cancel_left] at hcard

theorem readsChain_of_chainEntries (hcount : boot.clusterCount ≤ maxClusterCount)
    (hheap : ∀ cluster ∈ clusters, 2 ≤ cluster ∧ cluster < 2 + boot.clusterCount)
    (hentries : ∀ entry ∈ chainEntries clusters, InFat fat entry.1 ∧ fatValue fat entry.1 = entry.2) :
    ReadsChain fat boot clusters := by
  intro start hstart
  have hpath := path_of_chainEntries hcount hheap hentries hstart
  have hword : 2 + maxClusterCount < wordBound32 := by decide
  have hmem : start ∈ clusters := List.mem_of_mem_head? hstart
  have hvalid : validateCluster boot start = .ok () :=
    validateCluster_ok_iff.2 ⟨by omega, hheap start hmem⟩
  refine ⟨⟨fat, boot, some start, 0, start⟩, by rw [fatChain, hvalid, ok_bind]; rfl, ?_⟩
  rw [← next_fatHop, ← last_fatHop] at hpath
  have hlength := length_le_of_inHeap hpath.nodup hheap
  have hyields := @FatChain.yields_walk ⟨fat, boot, some start, 0, start⟩ start rfl
  dsimp only at hyields
  rwa [Nat.sub_zero, Walk.walk_of_path hpath hlength] at hyields

end Chain

section Tables

variable {graph : ObjectGraph} {metadata : List ExfatObjectMetadata} {profile : ExfatVolumeProfile}
  {options : ExfatSerializeOptions} {geometry : ExfatDestinationGeometry}
  {allocations : List Allocation} {placement : ExfatPlacement} {marks : List Bool}
  {parts : VolumeParts} {plan : ExfatSerializationPlan} {image : Bytes}

/-- The bytes of the FAT. -/
def fatRegion (geometry : ExfatDestinationGeometry) (image : Bytes) : Bytes :=
  sliceAt image (geometry.fatOffsetSectors * geometry.bytesPerSector) (fatByteLength geometry)

/-- The bytes of an allocation. -/
def allocationRegion (geometry : ExfatDestinationGeometry) (allocation : Allocation) (image : Bytes) :
    Bytes :=
  sliceAt image (allocationSpan geometry allocation).offset (allocationSpan geometry allocation).length

/-- Each part stands in the finished image. -/
theorem FormatRun.fieldAt
    (h : FormatRun graph metadata profile options plan geometry allocations placement marks parts)
    (himage : image.length = graph.extents.volumeBytes) {write : OverlayWrite}
    (hwrite : write ∈ parts.writes geometry allocations placement) :
    FieldAt (applyAll plan.overlay.writes image) write.offset write.bytes := by
  have hmem := h.writes.mem_iff.2 hwrite
  have hstop := (plan.overlay.valid write hmem).stop_le
  rw [h.image, h.volume, ← himage] at hstop
  refine fieldAt_applyAll_of_apart hmem hstop fun other hother => ?_
  have hordered := plan.overlay.ordered
  rw [Ordered, List.pairwise_map] at hordered
  have hapart := List.Pairwise.forall_of_forall_of_flip
    (R := fun a b => a = b ∨ a.offset + a.bytes.length ≤ b.offset ∨ b.offset + b.bytes.length ≤ a.offset)
    (fun _ _ => .inl rfl) (hordered.imp fun hab => .inr (.inl hab))
    (hordered.imp fun hab => .inr (.inr hab))
  exact hapart hother hmem

theorem Placed.mem_used (h : Placed graph metadata profile geometry allocations placement)
    {cluster : ℕ} (hmem : cluster ∈ placement.mapping.reused.flatMap ReusedPayload.clusters ++
      placement.bitmap.clusters ++ placement.upcaseAllocation.clusters ++ placement.badClusters ++
        allocations.flatMap Allocation.clusters) :
    2 ≤ cluster ∧ cluster < 2 + geometry.clusterCount := by
  have hpayload : (placement.mapping.reused.flatMap ReusedPayload.clusters).Perm
      (payloadClusters placement.layouts) := by
    have := h.files.reused.flatMap_right ReusedPayload.clusters
    rw [List.flatMap_map] at this
    exact this
  have hall : cluster ∈ placement.badClusters ++ scrubClusters placement.scrubs ++
      sourceDirectoryClusters graph geometry ++ payloadClusters placement.layouts ++
        placement.bitmap.clusters ++ placement.upcaseAllocation.clusters ++
          allocations.flatMap Allocation.clusters := by
    simp only [List.mem_append, hpayload.mem_iff] at hmem ⊢
    tauto
  have hlt := h.owned.lt hall
  rw [h.occupied_length] at hlt
  exact ⟨h.owned.low cluster hall, hlt⟩

theorem FormatRun.fat
    (h : FormatRun graph metadata profile options plan geometry allocations placement marks parts)
    (himage : image.length = graph.extents.volumeBytes) {allocation : Allocation}
    (hroot : (graph.root, allocation) ∈ placement.directoryOrder.zip allocations) :
    FatHolds (fatRegion plan.geometry (applyAll plan.overlay.writes image))
      (fatEntries placement.bitmap placement.upcaseAllocation placement.badClusters
        (chainsOf placement allocation.clusters)) := by
  obtain ⟨sectorShift, clusterShift, reserved, hchosen⟩ := h.chosen
  obtain ⟨hholds, hlength⟩ := h.built.fat_ok h.placed hchosen.count_le hroot
  have hmem : (⟨geometry.fatOffsetSectors * geometry.bytesPerSector, parts.fat⟩ : OverlayWrite) ∈
      parts.writes geometry allocations placement := by simp [VolumeParts.writes]
  have hfield := h.fieldAt himage hmem
  have hregion : fatRegion plan.geometry (applyAll plan.overlay.writes image) = parts.fat := by
    have heq := hfield.2
    rw [hlength] at heq
    rw [fatRegion, h.geometry_eq, h.placed.geometry_eq]
    exact heq
  rwa [hregion]

/-- The clusters of the chains in the FAT. -/
theorem FormatRun.readsChain
    (h : FormatRun graph metadata profile options plan geometry allocations placement marks parts)
    (himage : image.length = graph.extents.volumeBytes) {boot : ExfatBootSector}
    (hboot : boot.clusterCount = plan.geometry.clusterCount) {allocation : Allocation}
    (hroot : (graph.root, allocation) ∈ placement.directoryOrder.zip allocations) {clusters : List ℕ}
    (hclusters : clusters ∈ [placement.bitmap.clusters, placement.upcaseAllocation.clusters] ++
      chainsOf placement allocation.clusters) :
    ReadsChain (fatRegion plan.geometry (applyAll plan.overlay.writes image)) boot clusters := by
  obtain ⟨sectorShift, clusterShift, reserved, hchosen⟩ := h.chosen
  have hcount : boot.clusterCount = geometry.clusterCount := by
    rw [hboot, h.geometry_eq, h.placed.geometry_eq]
  refine readsChain_of_chainEntries (hcount ▸ hchosen.count_le) (fun cluster hmem => ?_)
    (fun entry hentry => (h.fat himage hroot).holds entry ?_)
  · rw [hcount]
    refine h.placed.mem_used ?_
    have hall := (List.of_mem_zip hroot).2
    simp only [chainsOf, List.mem_append, List.mem_cons, List.not_mem_nil, or_false, List.mem_map,
      List.mem_filter] at hclusters
    simp only [List.mem_append, List.mem_flatMap]
    rcases hclusters with (rfl | rfl) | rfl | ⟨reused, ⟨hreused, -⟩, rfl⟩
    · tauto
    · tauto
    · exact .inr ⟨allocation, hall, hmem⟩
    · exact .inl (.inl (.inl (.inl ⟨reused, hreused, hmem⟩)))
  · simp only [List.mem_append, List.mem_cons, List.not_mem_nil, or_false] at hclusters
    simp only [fatEntries, List.mem_append, List.mem_flatMap]
    rcases hclusters with (rfl | rfl) | hchain
    · tauto
    · tauto
    · exact .inr ⟨clusters, hchain, hentry⟩

/-- A bad cluster has the mark of one in the FAT. -/
theorem FormatRun.fatEntry_bad
    (h : FormatRun graph metadata profile options plan geometry allocations placement marks parts)
    (himage : image.length = graph.extents.volumeBytes) {boot : ExfatBootSector}
    (hboot : boot.clusterCount = plan.geometry.clusterCount) {cluster : ℕ}
    (hcluster : cluster ∈ placement.badClusters) :
    fatEntry (fatRegion plan.geometry (applyAll plan.overlay.writes image)) boot cluster =
      .ok .bad := by
  obtain ⟨sectorShift, clusterShift, reserved, hchosen⟩ := h.chosen
  obtain ⟨allocation, hroot⟩ := h.placed.rootAllocation
  have hcount : boot.clusterCount = geometry.clusterCount := by
    rw [hboot, h.geometry_eq, h.placed.geometry_eq]
  have hused : cluster ∈ placement.mapping.reused.flatMap ReusedPayload.clusters ++
      placement.bitmap.clusters ++ placement.upcaseAllocation.clusters ++ placement.badClusters ++
        allocations.flatMap Allocation.clusters := by
    simp only [List.mem_append]
    tauto
  have hin := h.placed.mem_used hused
  have hword : 2 + maxClusterCount < wordBound32 := by decide
  have hheap : HeapCluster boot cluster := ⟨by have := hchosen.count_le; omega, by omega⟩
  obtain ⟨hfat, hvalue⟩ := (h.fat himage hroot).holds (cluster, badCluster) (by
    simp only [fatEntries, List.mem_append, List.mem_map]
    exact .inl (.inr ⟨cluster, hcluster, rfl⟩))
  rw [fatEntry_eq hheap hfat, show fatValue _ cluster = badCluster from hvalue, if_neg (by decide),
    if_pos rfl]

/-- The bit of a cluster in the finished bitmap. -/
theorem FormatRun.allocated
    (h : FormatRun graph metadata profile options plan geometry allocations placement marks parts)
    (himage : image.length = graph.extents.volumeBytes) {boot : ExfatBootSector}
    (hboot : boot.clusterCount = plan.geometry.clusterCount) {cluster : ℕ} (hlow : 2 ≤ cluster)
    (hhigh : cluster < 2 + plan.geometry.clusterCount) :
    bitmapClusterIsAllocated (allocationRegion plan.geometry placement.bitmap
      (applyAll plan.overlay.writes image)) boot cluster =
      .ok (decide (cluster ∈ placement.mapping.reused.flatMap ReusedPayload.clusters ++
        placement.bitmap.clusters ++ placement.upcaseAllocation.clusters ++ placement.badClusters ++
          allocations.flatMap Allocation.clusters)) := by
  obtain ⟨sectorShift, clusterShift, reserved, hchosen⟩ := h.chosen
  have hcount : plan.geometry.clusterCount = geometry.clusterCount := by
    rw [h.geometry_eq, h.placed.geometry_eq]
  have hword : 2 + maxClusterCount < wordBound32 := by decide
  have hvalid : validateCluster boot cluster = .ok () := validateCluster_ok_iff.2
    ⟨by have := hchosen.count_le; omega, by omega⟩
  obtain ⟨hlength, hbits⟩ := bitmapBytes_ok h.built.bitmap
  obtain ⟨hmarksLength, hmarked⟩ := destinationAllocated_ok h.built.allocated
  have hmem : (⟨(allocationSpan geometry placement.bitmap).offset, parts.bitmap⟩ : OverlayWrite) ∈
      parts.writes geometry allocations placement := by simp [VolumeParts.writes]
  have hregion : allocationRegion plan.geometry placement.bitmap
      (applyAll plan.overlay.writes image) = parts.bitmap := by
    have heq := (h.fieldAt himage hmem).2
    rw [hlength] at heq
    rw [allocationRegion, h.geometry_eq, h.placed.geometry_eq]
    exact heq
  have hroom : bitmapLength geometry ≤ parts.bitmap.length := by
    have hbitmap := h.placed.bitmap
    simp only [clustersFor, bind_ok_iff, ensure_ok_iff, pure_eq_ok, Except.ok.injEq] at hbitmap
    obtain ⟨_, -, hclusters⟩ := hbitmap
    rw [hlength, paddedAllocationBytes, ← hclusters]
    exact (le_divCeil_mul h.cluster_pos).trans (Nat.mul_le_mul_right _ (le_max_left _ _))
  have hindex : (cluster - 2) / 8 < parts.bitmap.length := by
    refine lt_of_lt_of_le ?_ hroom
    have := @le_divCeil_mul geometry.clusterCount 8 (by norm_num)
    unfold bitmapLength
    omega
  rw [bitmapClusterIsAllocated, hvalid, ok_bind, hregion]
  dsimp only [firstDataCluster]
  rw [List.getElem?_eq_getElem hindex, orErr_some, ok_bind, pure_eq_ok]
  have hbit : parts.bitmap[(cluster - 2) / 8].toNat.testBit ((cluster - 2) % 8) =
      bitAt parts.bitmap (cluster - 2) := by
    rw [bitAt, List.getD_eq_getElem?_getD, List.getElem?_eq_getElem hindex, Option.getD_some]
  rw [hbit, hbits]
  refine congrArg Except.ok (decide_eq_decide.2 ((hmarked _).trans ?_))
  have hlowAll : ∀ other ∈ placement.mapping.reused.flatMap ReusedPayload.clusters ++
      placement.bitmap.clusters ++ placement.upcaseAllocation.clusters ++ placement.badClusters ++
        allocations.flatMap Allocation.clusters, 2 ≤ other :=
    fun other hother => (h.placed.mem_used hother).1
  have hmap : (placement.mapping.reused.flatMap ReusedPayload.clusters).map (· - 2) ++
      List.range' (placement.bitmap.firstCluster - 2) placement.bitmap.clusterCount ++
      List.range' (placement.upcaseAllocation.firstCluster - 2)
        placement.upcaseAllocation.clusterCount ++ placement.badClusters.map (· - 2) ++
      (allocations.map Allocation.clusters).flatten.map (· - 2) =
      (placement.mapping.reused.flatMap ReusedPayload.clusters ++ placement.bitmap.clusters ++
        placement.upcaseAllocation.clusters ++ placement.badClusters ++
          allocations.flatMap Allocation.clusters).map (· - 2) := by
    have hrange {first count : ℕ} (hfirst : 2 ≤ first) :
        List.range' (first - 2) count = (List.range' first count).map (· - 2) := by
      rw [List.map_sub_range' hfirst]
    rw [hrange h.placed.low.1, hrange h.placed.low.2]
    simp only [List.map_append, List.flatMap_def, Allocation.clusters]
  rw [hmap, List.mem_map]
  constructor
  · rintro ⟨other, hother, heq⟩
    have := hlowAll other hother
    obtain rfl : other = cluster := by omega
    exact hother
  · exact fun hmem => ⟨cluster, hmem, rfl⟩

/-- **The FAT of the new volume.** -/
theorem format_chains {limits : ExfatFormatLimits} {output : ExfatSerializationOutput}
    (h : serializeExfatDestinationImpl graph metadata profile options limits .final none = .ok output)
    (himage : image.length = graph.extents.volumeBytes) {boot : ExfatBootSector}
    (hboot : boot.clusterCount = output.plan.geometry.clusterCount) :
    let fat := fatRegion output.plan.geometry (applyAll output.plan.overlay.writes image)
    (∀ reused ∈ output.plan.reusedPayloads, reused.noFatChain = false →
      ReadsChain fat boot reused.clusters) ∧
    ReadsChain fat boot output.pinned.bitmap.clusters ∧
    ReadsChain fat boot output.pinned.upcase.clusters ∧
    ∃ allocation, (graph.root, allocation) ∈ output.pinned.directories ∧
      ReadsChain fat boot allocation.clusters := by
  obtain ⟨geometry, allocations, placement, marks, parts, hrun, hreused, hbitmap, hupcase,
    hdirectories⟩ := serializeExfatDestinationImpl_ok (by simp) h
  obtain ⟨allocation, hroot⟩ := hrun.placed.rootAllocation
  have hreads {clusters : List ℕ} := @FormatRun.readsChain _ _ _ _ _ _ _ _ _ _ _ hrun himage _ hboot
    _ hroot clusters
  refine ⟨fun reused hmem hfragmented => hreads ?_, hreads ?_, hreads ?_, allocation,
    hdirectories ▸ hroot, hreads ?_⟩
  · rw [hreused] at hmem
    refine List.mem_append_right _ (List.mem_cons_of_mem _ (List.mem_map.2 ⟨reused, ?_, rfl⟩))
    exact List.mem_filter.2 ⟨hmem, by rw [hfragmented]; rfl⟩
  · rw [hbitmap]
    simp
  · rw [hupcase]
    simp
  · exact List.mem_append_right _ List.mem_cons_self

def sampleBootSector : ExfatBootSector := ⟨2048, 24, 2, 32, 252, 4, 0, 0, 1, none, 512, 4096⟩

theorem length_sampleImage : (zeros 1048576).length = sampleObjectGraph.extents.volumeBytes := by
  rw [length_zeros]
  decide +kernel

theorem format_chains_sample : ∃ output, serializeExfatDestinationImpl sampleObjectGraph sampleMetadata
    sampleProfile sampleOptions sampleFormatLimits .final none = .ok output ∧
      ReadsChain (fatRegion output.plan.geometry
        (applyAll output.plan.overlay.writes (zeros 1048576))) sampleBootSector
          output.pinned.bitmap.clusters := by
  obtain ⟨output, houtput, hgeometry⟩ := sampleSerializes
  have hcount : sampleBootSector.clusterCount = output.plan.geometry.clusterCount := by
    rw [hgeometry]
    rfl
  have h := format_chains houtput length_sampleImage hcount
  exact ⟨output, houtput, h.2.1⟩

/-- **The bitmap of the new volume.** -/
theorem format_bitmap {limits : ExfatFormatLimits} {output : ExfatSerializationOutput}
    (h : serializeExfatDestinationImpl graph metadata profile options limits .final none = .ok output)
    (himage : image.length = graph.extents.volumeBytes) {boot : ExfatBootSector}
    (hboot : boot.clusterCount = output.plan.geometry.clusterCount) :
    let final := applyAll output.plan.overlay.writes image
    ∃ bad : List ℕ,
      (∀ cluster ∈ bad, fatEntry (fatRegion output.plan.geometry final) boot cluster = .ok .bad) ∧
      (∀ range ∈ profile.badClusterRanges, ∀ x ∈ range, clusterAt output.plan.geometry x ∈ bad) ∧
      ∀ cluster, 2 ≤ cluster → cluster < 2 + output.plan.geometry.clusterCount →
        bitmapClusterIsAllocated
          (allocationRegion output.plan.geometry output.pinned.bitmap final) boot cluster =
          .ok (decide (cluster ∈ output.plan.reusedPayloads.flatMap ReusedPayload.clusters ++
            output.pinned.bitmap.clusters ++ output.pinned.upcase.clusters ++ bad ++
              output.pinned.directories.flatMap fun item => item.2.clusters)) := by
  obtain ⟨geometry, allocations, placement, marks, parts, hrun, hreused, hbitmap, hupcase,
    hdirectories⟩ := serializeExfatDestinationImpl_ok (by simp) h
  obtain ⟨sectorShift, clusterShift, reserved, hchosen⟩ := hrun.chosen
  refine ⟨placement.badClusters, fun cluster hcluster => hrun.fatEntry_bad himage hboot hcluster,
    fun range hrange x hx => ?_, fun cluster hlow hhigh => ?_⟩
  · obtain ⟨cluster, hcluster, hmem⟩ := destExfatBadClusters_covers
      hchosen.selfConsistent.heap_aligned hrun.cluster_pos hrun.placed.bad hrange hx
    obtain ⟨-, hat⟩ := (mem_clusterSpan hrun.cluster_pos
      (destExfatBadClusters_low hrun.placed.bad cluster hcluster)).1 hmem
    rw [hrun.geometry_eq, hrun.placed.geometry_eq]
    show clusterAt geometry x ∈ _
    rwa [hat]
  · have hflat : output.pinned.directories.flatMap (fun item => item.2.clusters) =
        allocations.flatMap Allocation.clusters := by
      rw [hdirectories]
      conv_rhs => rw [← List.map_snd_zip hrun.placed.directories.length_eq.ge, List.flatMap_map]
    rw [hbitmap, hupcase, hreused, hflat]
    exact hrun.allocated himage hboot hlow hhigh

theorem format_bitmap_sample : ∃ output, serializeExfatDestinationImpl sampleObjectGraph sampleMetadata
    sampleProfile sampleOptions sampleFormatLimits .final none = .ok output ∧
      bitmapClusterIsAllocated (allocationRegion output.plan.geometry output.pinned.bitmap
        (applyAll output.plan.overlay.writes (zeros 1048576))) sampleBootSector 10 = .ok true := by
  obtain ⟨output, houtput, hgeometry⟩ := sampleSerializes
  have hcount : sampleBootSector.clusterCount = output.plan.geometry.clusterCount := by
    rw [hgeometry]
    rfl
  obtain ⟨bad, -, hbad, hbits⟩ := format_bitmap houtput length_sampleImage hcount
  have hmem : 10 ∈ bad := by
    have := hbad ⟨51200, 10⟩ (by decide) 51200 (by decide)
    rwa [hgeometry] at this
  refine ⟨output, houtput, ?_⟩
  rw [hbits 10 (by decide) (by rw [hgeometry]; decide)]
  exact congrArg Except.ok (decide_eq_true (List.mem_append_left _ (List.mem_append_right _ hmem)))

end Tables

end Serialize

end Exfat

end StarConverter
