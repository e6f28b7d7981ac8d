import StarConverter.Exfat.FormatTables

/-!
# The boot regions of the new volume

The reader validates the boot regions of the finished image, finds them equal, and takes from them the
geometry that the formatter chose (`format_boot`).
-/

namespace StarConverter

open Base

namespace Exfat

/-- The boot sector tells this geometry. -/
structure Declares (boot : ExfatBootSector) (geometry : ExfatDestinationGeometry) : Prop where
  volume : boot.volumeLengthSectors = geometry.volumeSectors
  fatOffset : boot.fatOffsetSectors = geometry.fatOffsetSectors
  fatLength : boot.fatLengthSectors = geometry.fatLengthSectors
  heapOffset : boot.clusterHeapOffsetSectors = geometry.clusterHeapOffsetSectors
  clusterCount : boot.clusterCount = geometry.clusterCount
  root : boot.rootDirectoryCluster = geometry.rootDirectoryCluster
  fats : boot.numberOfFats = 1
  sector : boot.bytesPerSector = geometry.bytesPerSector
  cluster : boot.bytesPerCluster = geometry.bytesPerCluster

section Sector

variable {geometry : ExfatDestinationGeometry} {options : ExfatSerializeOptions} {percent : UInt8}
  {checksum : ℕ} {boot : ExfatBootSector}

theorem declares_of_parseBootSector {sectorShift clusterShift : ℕ}
    (h : geometry.Valid options.partitionOffsetSectors sectorShift clusterShift)
    (hparse : parseBootSector (writtenSector geometry options percent checksum) = .ok boot) :
    Declares boot geometry := by
  obtain ⟨hlow, -, -⟩ := h.sector_bounds
  have hcluster := h.cluster_le
  have hword : wordBound = 2 ^ 64 := rfl
  have hword32 : wordBound32 = 2 ^ 32 := rfl
  have hmax : maxClusterCount = 0xFFFFFFF5 := rfl
  have hboot : mainAndBackupBootSectors = 24 := rfl
  have hpart := h.partition
  have hcount := h.count_le
  have hfat := h.fat_end
  have hfatoff := h.fat_offset
  have hheap := h.heap_word
  have hroot := h.root.2
  have hratio : trailingZeros32 (geometry.bytesPerCluster / geometry.bytesPerSector) =
      clusterShift := by
    rw [h.cluster_eq, Nat.mul_div_cancel_left _ (by omega), trailingZeros32_two_pow (by omega)]
  simp only [parseBootSector, bind_ok_iff, ensure_ok_iff, orErr_ok_iff, pure_eq_ok,
    Except.ok.injEq] at hparse
  obtain ⟨_, -, _, -, _, -, _, -, _, -, sector, -, _, hlength, _, -, perCluster, hshift, cluster,
    hmul, _, -, _, -, _, -, _, -, _, -, _, -, _, -, _, -, rfl⟩ := hparse
  have hsector : sector = geometry.bytesPerSector := by
    rw [← hlength, writtenSector, List.length_take, length_bootRegion]
    omega
  have hleast {n offset value : ℕ} (hp : put n offset value ∈ bootSectorFields geometry options percent)
      (hvalue : value < 256 ^ n) : leAt n (writtenSector geometry options percent checksum) offset =
        value := leAt_writtenSector hlow hp hvalue
  refine ⟨hleast (by simp [bootSectorFields]) (by omega), hleast (by simp [bootSectorFields]) (by omega),
    hleast (by simp [bootSectorFields]) (by omega), hleast (by simp [bootSectorFields]) (by omega),
    hleast (by simp [bootSectorFields]) (by omega), hleast (by simp [bootSectorFields]) (by omega),
    hleast (by simp [bootSectorFields]) (by decide), hsector, ?_⟩
  rw [hleast (by simp [bootSectorFields, hratio]) (show clusterShift < 256 ^ 1 by omega),
    checkedShl32, if_pos (by omega), Option.some.injEq] at hshift
  simp only [checkedMul32, Option.ite_none_right_eq_some, Option.some.injEq] at hmul
  show cluster = _
  rw [← hmul.2, hsector, ← hshift, h.cluster_eq]

theorem buildBootRegions_eq {regions : Bytes}
    (h : buildBootRegions geometry options percent = .ok regions) :
    ∃ checksum, regions = bootRegion geometry options percent checksum ++
        bootRegion geometry options percent checksum ∧
      validateGeneratedBootRegions regions geometry.bytesPerSector = .ok () := by
  simp only [buildBootRegions, bind_ok_iff, orErr_ok_iff, checkedMul_eq_some, pure_eq_ok,
    Except.ok.injEq] at h
  obtain ⟨_, ⟨-, rfl⟩, _, hvalidated, rfl⟩ := h
  rw [← applyAll_append, ← regionFields, ← bootRegion] at hvalidated ⊢
  exact ⟨_, rfl, hvalidated⟩

end Sector

namespace Serialize

section Boot

variable {graph : ObjectGraph} {metadata : List ExfatObjectMetadata} {profile : ExfatVolumeProfile}
  {options : ExfatSerializeOptions} {geometry : ExfatDestinationGeometry}
  {allocations : List Allocation} {placement : ExfatPlacement} {marks : List Bool}
  {parts : VolumeParts} {plan : ExfatSerializationPlan} {image : Bytes}

/-- The root cluster is the first one of the root directory. -/
theorem Placed.rootCluster (h : Placed graph metadata profile geometry allocations placement) :
    ∃ allocation, (graph.root, allocation) ∈ placement.directoryOrder.zip allocations ∧
      allocation.clusters.head? = some placement.geometry.rootDirectoryCluster := by
  obtain ⟨allocation, hroot⟩ := h.rootAllocation
  obtain ⟨layout, hlayout, hclusters⟩ := ((List.forall₂_iff_zip.1 h.directories).2 hroot).layout
  have hfirst := h.root
  rw [hlayout, Option.bind_some, hclusters] at hfirst
  exact ⟨allocation, hroot, hfirst⟩

theorem FormatRun.valid
    (h : FormatRun graph metadata profile options plan geometry allocations placement marks parts) :
    ∃ sectorShift clusterShift,
      plan.geometry.Valid options.partitionOffsetSectors sectorShift clusterShift := by
  obtain ⟨sectorShift, clusterShift, reserved, hchosen⟩ := h.chosen
  obtain ⟨allocation, hroot, hfirst⟩ := h.placed.rootCluster
  have hused : placement.geometry.rootDirectoryCluster ∈
      placement.mapping.reused.flatMap ReusedPayload.clusters ++ placement.bitmap.clusters ++
        placement.upcaseAllocation.clusters ++ placement.badClusters ++
          allocations.flatMap Allocation.clusters :=
    List.mem_append_right _ (List.mem_flatMap.2
      ⟨allocation, (List.of_mem_zip hroot).2, List.mem_of_mem_head? hfirst⟩)
  have hin := h.placed.mem_used hused
  refine ⟨sectorShift, clusterShift, ?_⟩
  rw [h.geometry_eq, h.placed.geometry_eq]
  exact hchosen.valid ⟨hin.1, by omega⟩

/-- The boot regions of the finished image. -/
theorem FormatRun.bootRegions
    (h : FormatRun graph metadata profile options plan geometry allocations placement marks parts)
    (himage : image.length = graph.extents.volumeBytes) :
    (applyAll plan.overlay.writes image).take (24 * plan.geometry.bytesPerSector) =
      parts.boot ++ parts.boot := by
  have hsector : plan.geometry.bytesPerSector = geometry.bytesPerSector := by
    rw [h.geometry_eq, h.placed.geometry_eq]
  have hmain : (⟨0, parts.boot⟩ : OverlayWrite) ∈ parts.writes geometry allocations placement := by
    simp [VolumeParts.writes]
  have hbackup : (⟨12 * geometry.bytesPerSector, parts.boot⟩ : OverlayWrite) ∈
      parts.writes geometry allocations placement := by simp [VolumeParts.writes]
  have hfirst := (h.fieldAt himage hmain).2
  have hsecond := (h.fieldAt himage hbackup).2
  dsimp only at hfirst hsecond
  rw [h.built.boot_length, sliceAt] at hfirst hsecond
  rw [List.drop_zero] at hfirst
  rw [hsector, show 24 * geometry.bytesPerSector = 12 * geometry.bytesPerSector +
    12 * geometry.bytesPerSector by omega, List.take_add, hfirst, hsecond]

/-- **The boot regions of the new volume.** -/
theorem format_boot {limits : ExfatFormatLimits} {output : ExfatSerializationOutput}
    (h : serializeExfatDestinationImpl graph metadata profile options limits .final none = .ok output)
    (himage : image.length = graph.extents.volumeBytes) :
    ∃ validated, validateBootRegions ((applyAll output.plan.overlay.writes image).take
        (24 * output.plan.geometry.bytesPerSector)) output.plan.geometry.bytesPerSector =
          .ok validated ∧
      validated.comparison = .exact ∧
      Declares validated.main.bootSector output.plan.geometry ∧
      Declares validated.backup.bootSector output.plan.geometry := by
  obtain ⟨geometry, allocations, placement, marks, parts, hrun, -⟩ :=
    serializeExfatDestinationImpl_ok (by simp) h
  obtain ⟨sectorShift, clusterShift, hvalid⟩ := hrun.valid
  have hboot := hrun.built.boot
  rw [← hrun.geometry_eq] at hboot
  obtain ⟨checksum, heq, hgenerated⟩ := buildBootRegions_eq hboot
  rw [hrun.bootRegions himage]
  simp only [validateGeneratedBootRegions, bind_ok_iff, ensure_ok_iff, mapError_ok_iff] at hgenerated
  obtain ⟨validated, hvalidated, _, hexact, -⟩ := hgenerated
  refine ⟨validated, hvalidated, hexact, ?_⟩
  rw [heq] at hvalidated
  simp only [validateBootRegions, validateBootRegion, bind_ok_iff, ensure_ok_iff, orErr_ok_iff,
    checkedMul_eq_some, mapError_ok_iff, pure_eq_ok, Except.ok.injEq] at hvalidated
  obtain ⟨_, -, _, -, _, -, _, ⟨-, rfl⟩, main, ⟨_, -, _, -, _, -, _, -, _, -, mainSector, hmain, _, -,
    rfl⟩, backup, ⟨_, -, _, -, _, -, _, -, _, -, backupSector, hbackup, _, -, rfl⟩, rfl⟩ := hvalidated
  have hlength : output.plan.geometry.bytesPerSector * sectorsPerBootRegion =
      (bootRegion output.plan.geometry options (percentInUse marks) checksum).length :=
    length_bootRegion.symm
  rw [hlength, List.take_left] at hmain
  rw [hlength, List.drop_left] at hbackup
  exact ⟨declares_of_parseBootSector hvalid hmain, declares_of_parseBootSector hvalid hbackup⟩

theorem format_boot_sample : ∃ output, serializeExfatDestinationImpl sampleObjectGraph sampleMetadata
    sampleProfile sampleOptions sampleFormatLimits .final none = .ok output ∧
      ∃ validated, validateBootRegions ((applyAll output.plan.overlay.writes (zeros 1048576)).take
        12288) 512 = .ok validated ∧ validated.main.bootSector.clusterCount = 252 := by
  obtain ⟨output, houtput, hgeometry⟩ := sampleSerializes
  obtain ⟨validated, hvalidated, -, hmain, -⟩ := format_boot houtput length_sampleImage
  rw [hgeometry] at hvalidated hmain
  exact ⟨output, houtput, validated, hvalidated, hmain.clusterCount⟩

end Boot

end Serialize

end Exfat

end StarConverter
