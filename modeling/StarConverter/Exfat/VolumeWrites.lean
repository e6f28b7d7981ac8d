import StarConverter.Exfat.Serialize

/-!
# What the formatter writes

The writes of the formatter are the boot region twice, the FAT, the bitmap, the up-case table, the
directories and zeros over stale boot sectors (`VolumeParts.writes`). `Built` says what these bytes are.
Each of the writes lies below the heap, in clusters that were handed out for it, or on a stale boot
sector, so none reaches a cluster that the source uses or a bad one.
-/

namespace StarConverter

open Base

namespace Exfat

namespace Serialize

/-! ## Clusters and bytes -/

def allocationSpan (geometry : ExfatDestinationGeometry) (allocation : Allocation) : Span :=
  ⟨heapStart geometry + (allocation.firstCluster - 2) * geometry.bytesPerCluster,
    allocation.clusterCount * geometry.bytesPerCluster⟩

/-- The cluster of a byte of the heap. -/
def clusterAt (geometry : ExfatDestinationGeometry) (x : ℕ) : ℕ :=
  (x - heapStart geometry) / geometry.bytesPerCluster + 2

section Spans

variable {geometry : ExfatDestinationGeometry} {allocation other : Allocation} {x : ℕ}

theorem mem_allocationSpan (hpos : 0 < geometry.bytesPerCluster)
    (hlow : 2 ≤ allocation.firstCluster) :
    x ∈ allocationSpan geometry allocation ↔
      heapStart geometry ≤ x ∧ clusterAt geometry x ∈ allocation.clusters := by
  unfold allocationSpan clusterAt Allocation.clusters
  rw [Span.mem_iff, Span.stop, List.mem_range'_1]
  dsimp only
  constructor
  · rintro ⟨hle, hlt⟩
    have hfirst : allocation.firstCluster - 2 ≤ (x - heapStart geometry) / geometry.bytesPerCluster :=
      (Nat.le_div_iff_mul_le hpos).2 (by omega)
    have hlast : (x - heapStart geometry) / geometry.bytesPerCluster <
        allocation.firstCluster - 2 + allocation.clusterCount :=
      (Nat.div_lt_iff_lt_mul hpos).2 (by rw [Nat.add_mul]; omega)
    omega
  · rintro ⟨hheap, hle, hlt⟩
    have hfirst := (Nat.le_div_iff_mul_le hpos).1 (show allocation.firstCluster - 2 ≤
      (x - heapStart geometry) / geometry.bytesPerCluster by omega)
    have hlast := (Nat.div_lt_iff_lt_mul hpos).1 (show (x - heapStart geometry) /
      geometry.bytesPerCluster < allocation.firstCluster - 2 + allocation.clusterCount by omega)
    rw [Nat.add_mul] at hlast
    omega

theorem mem_clusterSpan (hpos : 0 < geometry.bytesPerCluster) {cluster : ℕ} (hlow : 2 ≤ cluster) :
    x ∈ clusterSpan geometry cluster ↔ heapStart geometry ≤ x ∧ clusterAt geometry x = cluster := by
  have hspan : clusterSpan geometry cluster = allocationSpan geometry ⟨cluster, 1⟩ := by
    unfold clusterSpan allocationSpan
    rw [Nat.one_mul]
  rw [hspan, mem_allocationSpan hpos hlow]
  exact and_congr_right fun _ => List.mem_singleton

/-- The bytes of an extent lie in the clusters of the extent. -/
theorem clusterAt_mem_extentClusters {extent : Extent} {range : ByteRange}
    (h : InHeap geometry extent range) (hx : x ∈ range) :
    heapStart geometry ≤ x ∧ clusterAt geometry x ∈ extentClusters geometry extent := by
  obtain ⟨hle, hlt⟩ := Span.mem_iff.1 hx
  have hlength := physical_length h.physical
  obtain ⟨k, hk⟩ := h.aligned
  obtain ⟨n, hn⟩ := h.length
  have hstart := h.start
  have hstop : range.stop = range.offset + range.length := rfl
  have hpos : 0 < geometry.bytesPerCluster := by
    rcases Nat.eq_zero_or_pos geometry.bytesPerCluster with hzero | hpos
    · rw [hzero, Nat.zero_mul] at hn
      omega
    · exact hpos
  refine ⟨hstart.trans hle, ?_⟩
  rw [extentClusters_eq h.physical, List.mem_range'_1, clusterAt, hlength, hk, hn,
    Nat.mul_div_cancel_left _ hpos, Nat.mul_div_cancel_left _ hpos]
  have hfirst : k ≤ (x - heapStart geometry) / geometry.bytesPerCluster :=
    (Nat.le_div_iff_mul_le hpos).2 (by rw [Nat.mul_comm]; omega)
  have hlast : (x - heapStart geometry) / geometry.bytesPerCluster < k + n :=
    (Nat.div_lt_iff_lt_mul hpos).2 (by
      rw [Nat.add_mul, Nat.mul_comm k, Nat.mul_comm n]
      omega)
  omega

theorem clusterOffset_ok {cluster offset : ℕ} (h : clusterOffset geometry cluster = .ok offset) :
    2 ≤ cluster ∧ offset = heapStart geometry + (cluster - 2) * geometry.bytesPerCluster := by
  simp only [clusterOffset, orErr_ok_iff, Option.bind_eq_some_iff, checkedMul_eq_some,
    checkedSub_eq_some, checkedAdd_eq_some] at h
  obtain ⟨_, ⟨-, rfl⟩, _, ⟨hle, rfl⟩, _, ⟨-, rfl⟩, -, rfl⟩ := h
  exact ⟨hle, rfl⟩

theorem allocationFromClusters_eq
    (h : allocationFromClusters allocation.clusters = .ok other) : other = allocation := by
  obtain ⟨first, count⟩ := allocation
  simp only [allocationFromClusters, bind_ok_iff, orErr_ok_iff, ensure_ok_iff, pure_eq_ok,
    Except.ok.injEq] at h
  obtain ⟨head, hhead, _, -, _, -, rfl⟩ := h
  rw [Allocation.clusters, List.length_range']
  cases count with
  | zero => cases hhead
  | succ count =>
    rw [Allocation.clusters, List.range'_succ, List.head?_cons, Option.some.injEq] at hhead
    rw [← hhead]

theorem allocationWrite_ok {bytes : Bytes} {write : OverlayWrite}
    (h : allocationWrite geometry allocation bytes = .ok write) :
    write = ⟨(allocationSpan geometry allocation).offset, bytes⟩ := by
  simp only [allocationWrite, bind_ok_iff, pure_eq_ok, Except.ok.injEq] at h
  obtain ⟨offset, hoffset, rfl⟩ := h
  rw [(clusterOffset_ok hoffset).2]
  rfl

end Spans

/-! ## The parts of a new volume -/

structure VolumeParts where
  boot : Bytes
  fat : Bytes
  bitmap : Bytes
  upcase : Bytes
  directories : List Bytes

def directoryPart (geometry : ExfatDestinationGeometry) (allocation : Allocation) (bytes : Bytes) :
    OverlayWrite := ⟨(allocationSpan geometry allocation).offset, bytes⟩

def VolumeParts.writes (parts : VolumeParts) (geometry : ExfatDestinationGeometry)
    (allocations : List Allocation) (placement : ExfatPlacement) : List OverlayWrite :=
  [⟨0, parts.boot⟩, ⟨12 * geometry.bytesPerSector, parts.boot⟩,
    ⟨geometry.fatOffsetSectors * geometry.bytesPerSector, parts.fat⟩,
    ⟨(allocationSpan geometry placement.bitmap).offset, parts.bitmap⟩,
    ⟨(allocationSpan geometry placement.upcaseAllocation).offset, parts.upcase⟩] ++
      List.zipWith (directoryPart geometry) allocations parts.directories ++
        placement.scrubs.map scrubWrite

/-- The directory `object`, as it is built. -/
def DirectoryBytes (graph : ObjectGraph) (profile : ExfatVolumeProfile) (placement : ExfatPlacement)
    (object : ObjectId) (bytes : Bytes) : Prop :=
  buildDirectory object graph.root placement.layouts placement.bitmap placement.upcaseAllocation
    (bitmapLength placement.geometry) profile.volumeLabel profile.encodedUpcaseTable
      profile.upcaseChecksum placement.upcase placement.geometry.bytesPerCluster = .ok bytes

/-- The chains of the FAT: those of the root directory and of the fragmented streams. -/
def chainsOf (placement : ExfatPlacement) (rootClusters : List ℕ) : List (List ℕ) :=
  rootClusters :: (placement.mapping.reused.filter fun reused => !reused.noFatChain).map
    ReusedPayload.clusters

/-- The bytes of the parts. -/
structure Built (graph : ObjectGraph) (profile : ExfatVolumeProfile)
    (options : ExfatSerializeOptions) (geometry : ExfatDestinationGeometry)
    (allocations : List Allocation) (placement : ExfatPlacement) (marks : List Bool)
    (parts : VolumeParts) : Prop where
  allocated : destinationAllocated geometry.clusterCount placement.mapping.reused placement.bitmap
    placement.upcaseAllocation placement.badClusters (allocations.map Allocation.clusters) =
      .ok marks
  boot : buildBootRegions placement.geometry options (percentInUse marks) =
    .ok (parts.boot ++ parts.boot)
  boot_length : parts.boot.length = 12 * geometry.bytesPerSector
  fat : ∀ allocation, (graph.root, allocation) ∈ placement.directoryOrder.zip allocations →
    buildFat placement.geometry placement.bitmap placement.upcaseAllocation placement.badClusters
      (chainsOf placement allocation.clusters) = .ok parts.fat
  bitmap : bitmapBytes placement.bitmap geometry.bytesPerCluster marks = .ok parts.bitmap
  upcase : ∃ rest, parts.upcase = profile.encodedUpcaseTable ++ zeros rest ∧
    parts.upcase.length = paddedAllocationBytes placement.upcaseAllocation geometry.bytesPerCluster
  directories : List.Forall₂ (DirectoryBytes graph profile placement) placement.directoryOrder
    parts.directories
  lengths : List.Forall₂ (fun allocation bytes =>
    bytes.length = paddedAllocationBytes allocation geometry.bytesPerCluster) allocations
      parts.directories

section Build

variable {graph : ObjectGraph} {metadata : List ExfatObjectMetadata} {profile : ExfatVolumeProfile}
  {options : ExfatSerializeOptions} {geometry : ExfatDestinationGeometry}
  {allocations : List Allocation} {placement : ExfatPlacement} {writes : List OverlayWrite}

namespace Placed

variable (h : Placed graph metadata profile geometry allocations placement)

include h

theorem clusterBytes : placement.geometry.bytesPerCluster = geometry.bytesPerCluster := by
  rw [h.geometry_eq]

theorem sectorBytes : placement.geometry.bytesPerSector = geometry.bytesPerSector := by
  rw [h.geometry_eq]

theorem clusterCount : placement.geometry.clusterCount = geometry.clusterCount := by
  rw [h.geometry_eq]

theorem fatOffset : placement.geometry.fatOffsetSectors = geometry.fatOffsetSectors := by
  rw [h.geometry_eq]

theorem fatLength : placement.geometry.fatLengthSectors = geometry.fatLengthSectors := by
  rw [h.geometry_eq]

theorem volumeBytes : placement.geometry.volumeBytes = geometry.volumeBytes := by
  rw [h.geometry_eq]

theorem span (allocation : Allocation) :
    allocationSpan placement.geometry allocation = allocationSpan geometry allocation := by
  rw [h.geometry_eq]
  rfl

theorem label_ok {label : List UInt16} (hlabel : label ∈ profile.volumeLabel) :
    label.length ≤ 11 ∧ label.any isForbiddenUnit = false ∧ decodesUtf16 label = true := by
  have hprofile := h.profile_ok
  simp only [validateVolumeProfile, Option.mem_def.1 hlabel, validateVolumeLabel, bind_ok_iff,
    ensure_ok_iff] at hprofile
  obtain ⟨_, -, _, -, _, -, _, -, _, hle, _, hany, hdecodes⟩ := hprofile
  exact ⟨hle, hany, hdecodes⟩

end Placed

/-- The clusters of the directories, in order. -/
theorem directoryChains_ok {root : ObjectId} {hasVolumeLabel : Bool} {layouts : Layouts}
    {order : List ObjectId} {chains : List (List ℕ)}
    (hplaced : List.Forall₂ (DirectoryAt root hasVolumeLabel geometry.bytesPerCluster layouts) order
      allocations) (h : directoryChains layouts order = .ok chains) :
    chains = allocations.map Allocation.clusters := by
  induction hplaced generalizing chains with
  | nil =>
    rw [directoryChains, pure_eq_ok, Except.ok.injEq] at h
    exact h.symm
  | cons hfirst _ ih =>
    obtain ⟨layout, hlayout, hclusters⟩ := hfirst.layout
    simp only [directoryChains, Layouts.index, hlayout, orErr_some, ok_bind, bind_ok_iff, pure_eq_ok,
      Except.ok.injEq] at h
    obtain ⟨more, hmore, rfl⟩ := h
    rw [ih hmore, hclusters, List.map_cons]

theorem directoryWrites_ok {order : List ObjectId} {part : List Allocation}
    (h : Placed graph metadata profile geometry allocations placement)
    (hplaced : List.Forall₂ (DirectoryAt graph.root profile.volumeLabel.isSome
      geometry.bytesPerCluster placement.layouts) order part)
    (hwrites : directoryWrites graph.root profile placement order = .ok writes) :
    ∃ directories, List.Forall₂ (DirectoryBytes graph profile placement) order directories ∧
      List.Forall₂ (fun allocation bytes =>
        bytes.length = paddedAllocationBytes allocation geometry.bytesPerCluster) part directories ∧
      writes = List.zipWith (directoryPart geometry) part directories := by
  induction hplaced generalizing writes with
  | nil =>
    rw [directoryWrites, pure_eq_ok, Except.ok.injEq] at hwrites
    exact ⟨[], .nil, .nil, hwrites.symm⟩
  | cons hfirst _ ih =>
    obtain ⟨layout, hlayout, hclusters⟩ := hfirst.layout
    simp only [directoryWrites, directoryWrite, Layouts.index, hlayout, orErr_some, ok_bind,
      bind_ok_iff, pure_eq_ok, Except.ok.injEq] at hwrites
    obtain ⟨write, ⟨bytes, hbytes, other, hother, hwrite⟩, more, hmore, rfl⟩ := hwrites
    obtain ⟨directories, hall, hlengths, rfl⟩ := ih hmore
    rw [hclusters] at hother
    obtain rfl := allocationFromClusters_eq hother
    refine ⟨bytes :: directories, .cons hbytes hall, .cons ?_ hlengths, ?_⟩
    · obtain ⟨found, allocation, entries, hfound, hallocation, -, hlength, -⟩ :=
        buildDirectory_eq (fun label hlabel => (h.label_ok hlabel).1) hbytes
      rw [hlayout, Option.some.injEq] at hfound
      subst hfound
      rw [hclusters] at hallocation
      rw [hlength, allocationFromClusters_eq hallocation, h.clusterBytes]
    · rw [allocationWrite_ok hwrite, h.span, List.zipWith_cons_cons]
      rfl

/-- Only the root directory has a chain. -/
theorem volumeChains_ok {chains : List (List ℕ)}
    (h : Placed graph metadata profile geometry allocations placement)
    (hchains : volumeChains graph.root placement = .ok chains) {allocation : Allocation}
    (hroot : (graph.root, allocation) ∈ placement.directoryOrder.zip allocations) :
    chains = chainsOf placement allocation.clusters := by
  obtain ⟨layout, hlayout, hclusters⟩ := ((List.forall₂_iff_zip.1 h.directories).2 hroot).layout
  have hfilter : placement.directoryOrder.filter (fun object => decide (object = graph.root)) =
      [graph.root] := by
    rw [List.filter_eq, List.count_eq_one_of_mem h.order_nodup (List.of_mem_zip hroot).1]
    rfl
  simp only [volumeChains, hfilter, directoryChains, Layouts.index, hlayout, orErr_some, ok_bind,
    pure_eq_ok, Except.ok.injEq] at hchains
  rw [← hchains, hclusters]
  rfl

/-- The boot regions are two equal ones. -/
theorem buildBootRegions_twice {percent : UInt8} {regions : Bytes}
    (h : buildBootRegions geometry options percent = .ok regions) :
    ∃ boot : Bytes, regions = boot ++ boot ∧ boot.length = 12 * geometry.bytesPerSector := by
  simp only [buildBootRegions, bind_ok_iff, orErr_ok_iff, checkedMul_eq_some, pure_eq_ok,
    Except.ok.injEq] at h
  obtain ⟨_, ⟨-, rfl⟩, _, -, rfl⟩ := h
  exact ⟨_, rfl, by rw [length_applyAll, length_applyAll, length_zeros, Nat.mul_comm]⟩

theorem paddedUpcase_ok {bytes : Bytes} (h : paddedUpcase placement profile = .ok bytes) :
    ∃ rest, bytes = profile.encodedUpcaseTable ++ zeros rest ∧
      bytes.length = paddedAllocationBytes placement.upcaseAllocation
        placement.geometry.bytesPerCluster := by
  simp only [paddedUpcase, bind_ok_iff, ensure_ok_iff, pure_eq_ok, Except.ok.injEq] at h
  obtain ⟨_, hle, rfl⟩ := h
  rw [length_zeros] at hle
  obtain ⟨rest, hrest⟩ := Nat.exists_eq_add_of_le hle
  refine ⟨rest, ?_, by rw [length_overwrite, length_zeros]⟩
  rw [hrest]
  exact @overwrite_piece [] profile.encodedUpcaseTable rest

/-- **What is written.** The writes of the formatter are the parts of the new volume, each in its
place. -/
theorem volumeWrites_ok (h : Placed graph metadata profile geometry allocations placement)
    (hwrites : volumeWrites graph.root profile options placement = .ok writes) :
    ∃ marks parts, Built graph profile options geometry allocations placement marks parts ∧
      writes = parts.writes geometry allocations placement := by
  simp only [volumeWrites, bind_ok_iff, mapError_ok_iff, pure_eq_ok, Except.ok.injEq] at hwrites
  obtain ⟨chains, hchains, fat, hfat, directories, hdirectories, marks, hmarks, bits, hbits, boot,
    hboot, bitmapWrite, hbitmapWrite, upcaseBytes, hupcase, upcaseWrite, hupcaseWrite,
    namespaceWrites, hnamespace, rfl⟩ := hwrites
  obtain rfl := directoryChains_ok h.directories hdirectories
  obtain ⟨region, rfl, hlength⟩ := buildBootRegions_twice hboot
  obtain ⟨parts, hparts, hlengths, rfl⟩ := directoryWrites_ok h h.directories hnamespace
  rw [h.sectorBytes] at hlength
  refine ⟨marks, ⟨region, fat, bits, upcaseBytes, parts⟩, ⟨?_, hboot, hlength, ?_, ?_, ?_, hparts,
    hlengths⟩, ?_⟩
  · rw [← h.clusterCount]
    exact hmarks
  · intro allocation hroot
    rw [← volumeChains_ok h hchains hroot]
    exact hfat
  · rw [← h.clusterBytes]
    exact hbits
  · rw [← h.clusterBytes]
    exact paddedUpcase_ok hupcase
  · rw [allocationWrite_ok hbitmapWrite, allocationWrite_ok hupcaseWrite, h.span, h.span,
      h.sectorBytes, h.fatOffset, ← hlength, List.take_left, List.drop_left, VolumeParts.writes,
      ← hlength]

/-- A run of the formatter that succeeded: what has been placed, and the parts that are written. -/
structure FormatRun (graph : ObjectGraph) (metadata : List ExfatObjectMetadata)
    (profile : ExfatVolumeProfile) (options : ExfatSerializeOptions) (plan : ExfatSerializationPlan)
    (geometry : ExfatDestinationGeometry) (allocations : List Allocation)
    (placement : ExfatPlacement) (marks : List Bool) (parts : VolumeParts) : Prop where
  chosen : ∃ sectorShift clusterShift reserved,
    geometry.ChosenFor options.partitionOffsetSectors sectorShift clusterShift reserved
  volume : geometry.volumeBytes = graph.extents.volumeBytes
  placed : Placed graph metadata profile geometry allocations placement
  built : Built graph profile options geometry allocations placement marks parts
  geometry_eq : plan.geometry = placement.geometry
  image : plan.overlay.imageBytes = geometry.volumeBytes
  writes : plan.overlay.writes.Perm (parts.writes geometry allocations placement)

theorem chooseGeometry_volumeBytes {volumeBytes : ℕ} {limits : ExfatSerializeLimits}
    (h : chooseGeometry volumeBytes options limits = .ok geometry) :
    geometry.volumeBytes = volumeBytes := by
  simp only [chooseGeometry, bind_ok_iff, pure_eq_ok, Except.ok.injEq] at h
  obtain ⟨_, -, _, -, _, -, _, -, round, -, _, -, _, -, _, -, _, -, _, -, rfl⟩ := h
  rfl

/-- The directories of the output are the allocations of the directories. -/
theorem directoryAllocations_eq {layouts : Layouts} {root : ObjectId} {label : Bool}
    {clusterBytes : ℕ} {order : List ObjectId} {directories : List (ObjectId × Allocation)}
    (hall : List.Forall₂ (DirectoryAt root label clusterBytes layouts) order allocations)
    (h : directoryAllocations layouts order = .ok directories) : directories = order.zip allocations := by
  induction hall generalizing directories with
  | nil => exact (Except.ok.inj h).symm
  | cons hat _ ih =>
    obtain ⟨layout, hlayout, hclusters⟩ := hat.layout
    simp only [directoryAllocations, Layouts.index, hlayout, orErr_some, ok_bind, bind_ok_iff,
      pure_eq_ok, Except.ok.injEq, hclusters] at h
    obtain ⟨other, hother, more, hmore, rfl⟩ := h
    rw [allocationFromClusters_eq hother, ih hmore, List.zip_cons_cons]

/-- **The formatter.** A final volume comes from one placement and its parts, and the
output tells where they lie. -/
theorem serializeExfatDestinationImpl_ok {limits : ExfatFormatLimits}
    {pinned : Option PinnedExfatLayout} {output : ExfatSerializationOutput}
    (hpinned : ∀ layout ∈ pinned, PinnedExfatLayout.InHeap layout)
    (h : serializeExfatDestinationImpl graph metadata profile options limits .final pinned =
      .ok output) :
    ∃ geometry allocations placement marks parts,
      FormatRun graph metadata profile options output.plan geometry allocations placement marks
        parts ∧
      output.plan.reusedPayloads = placement.mapping.reused ∧
      output.pinned.bitmap = placement.bitmap ∧ output.pinned.upcase = placement.upcaseAllocation ∧
      output.pinned.directories = placement.directoryOrder.zip allocations := by
  simp only [serializeExfatDestinationImpl, bind_ok_iff, mapError_ok_iff, pure_eq_ok,
    Except.ok.injEq] at h
  obtain ⟨placement, hplacement, writes, hwrites, _, -, _, -, _, -, overlay, hoverlay, directories,
    hdirectories, rfl⟩ := h
  obtain ⟨geometry, allocations, hgeometry, hplaced⟩ := placeVolume_ok hpinned hplacement
  obtain ⟨marks, parts, hbuilt, rfl⟩ := volumeWrites_ok hplaced hwrites
  obtain ⟨himage, -, hsorted, -⟩ := OverlayPlan.build_ok hoverlay
  refine ⟨geometry, allocations, placement, marks, parts, ⟨chooseGeometry_ok hgeometry,
    chooseGeometry_volumeBytes hgeometry, hplaced, hbuilt, rfl, himage.trans hplaced.volumeBytes, ?_⟩,
    rfl, rfl, rfl, directoryAllocations_eq hplaced.directories hdirectories⟩
  dsimp only
  rw [hsorted]
  exact sortByKey_perm _ _

end Build

end Serialize

end Exfat

end StarConverter
