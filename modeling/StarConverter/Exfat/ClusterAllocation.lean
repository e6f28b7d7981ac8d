import StarConverter.Base.Slots
import StarConverter.Exfat.DirectoryBuild
import StarConverter.Geometry.FreeSpace

/-!
# Allocating clusters

The formatter keeps one mark for each cluster of the heap. Known-bad clusters and the clusters of stale
boot sectors are taken out first, then the clusters that the source already uses, then those of the new
metadata, first fit or where an earlier draft put them. `Owned` says which clusters have been handed
out, none of them twice; each step here extends that list.
-/

namespace StarConverter

open Base

namespace Geometry

/-- The clusters that a range touches. -/
def coveringRange (clusterBytes volumeBytes : ℕ) (range : ByteRange) : Solved (List ℕ) := do
  ensure (range.length ≠ 0) (.zeroLengthRange range.offset)
  let stop ← rangeEnd range
  ensure (stop ≤ volumeBytes) (.rangeOutsideVolume range.offset range.length volumeBytes)
  let first := range.offset / clusterBytes
  pure (List.range' first ((stop - 1) / clusterBytes + 1 - first))

def coveringAll (clusterBytes volumeBytes : ℕ) : List ByteRange → Solved (List ℕ)
  | [] => pure []
  | range :: rest => do
    let lcns ← coveringRange clusterBytes volumeBytes range
    let more ← coveringAll clusterBytes volumeBytes rest
    pure (lcns ++ more)

/-- The clusters that any of the ranges touches, in order. -/
def clustersCoveringRanges (ranges : List ByteRange) (clusterBytes volumeBytes : ℕ) :
    Solved (List ℕ) := do
  ensure (isPowerOfTwo clusterBytes) (.invalidAlignment clusterBytes)
  let lcns ← coveringAll clusterBytes volumeBytes ranges
  pure (sortByKey id lcns.dedup)

end Geometry

namespace Exfat

/-- The clusters of an allocation. -/
def Allocation.clusters (allocation : Allocation) : List ℕ :=
  List.range' allocation.firstCluster allocation.clusterCount

/-- A stale copy of a source boot sector, with the cluster of the heap it lies in. -/
structure StaleBootSectorScrub where
  range : ByteRange
  heapCluster : Option ℕ
  deriving DecidableEq

/-- Metadata allocations that an earlier draft fixed. -/
structure PinnedExfatLayout where
  geometry : ExfatDestinationGeometry
  bitmap : Allocation
  upcase : Allocation
  directories : List (ObjectId × Allocation)
  deriving DecidableEq

namespace Serialize

/-! ## The formatter -/

/-- `cluster_heap_offset_sectors * bytes_per_sector` -/
def heapStart (geometry : ExfatDestinationGeometry) : ℕ :=
  geometry.clusterHeapOffsetSectors * geometry.bytesPerSector

def heapBytes (geometry : ExfatDestinationGeometry) : ℕ :=
  geometry.clusterCount * geometry.bytesPerCluster

def clusterOffset (geometry : ExfatDestinationGeometry) (cluster : ℕ) : Formatted ℕ :=
  orErr ((checkedMul geometry.clusterHeapOffsetSectors geometry.bytesPerSector).bind fun heap =>
    (checkedSub cluster 2).bind fun relative =>
      (checkedMul relative geometry.bytesPerCluster).bind fun bytes => checkedAdd heap bytes)
    (.arithmeticOverflow "cluster byte offset")

def clustersFor (bytes clusterBytes : ℕ) : Formatted ℕ := do
  let count := max (divCeil bytes clusterBytes) 1
  ensure (count < wordBound32) (.arithmeticOverflow "allocation cluster count")
  pure count

def expandAllocation (allocation : Allocation) : Formatted (List ℕ) := do
  ensure (allocation.clusterCount = 0 ∨
      allocation.firstCluster + (allocation.clusterCount - 1) < wordBound32)
    (.arithmeticOverflow "cluster chain")
  pure (List.range' allocation.firstCluster allocation.clusterCount)

def allocateContiguous (occupied : List Bool) (count : ℕ) : Formatted (List Bool × Allocation) := do
  ensure (count ≠ 0) (.metadataSpaceExhausted 0)
  let index ← orErr (firstRun count occupied 0 0) (.metadataSpaceExhausted count)
  let start := index + 1 - count
  ensure (start + 2 < wordBound32) (.arithmeticOverflow "allocation first cluster")
  pure (fillSlots occupied start count, ⟨start + 2, count⟩)

def reservePinned (occupied : List Bool) (allocation : Allocation) : Formatted (List Bool) := do
  let first := allocation.firstCluster - 2
  let stop ← orErr (checkedAdd first allocation.clusterCount) .destinationLayoutChanged
  let range ← orErr (slice? occupied first stop) .destinationLayoutChanged
  ensure (range.any id = false) .destinationLayoutChanged
  pure (fillSlots occupied first allocation.clusterCount)

/-- A pinned allocation of the right length, or the first run that is long enough. -/
def placeAllocation (pinned : Option Allocation) (occupied : List Bool) (count : ℕ) :
    Formatted (List Bool × Allocation) :=
  match pinned with
  | some allocation => do
    ensure (allocation.clusterCount = count) .destinationLayoutChanged
    let occupied ← reservePinned occupied allocation
    pure (occupied, allocation)
  | none => allocateContiguous occupied count

def markAllocation (bits : List Bool) (allocation : Allocation) : Formatted (List Bool) := do
  let first := allocation.firstCluster - 2
  let stop ← orErr (checkedAdd first allocation.clusterCount)
    (.arithmeticOverflow "metadata bitmap end")
  ensure (stop ≤ bits.length) (.metadataSpaceExhausted allocation.clusterCount)
  pure (fillSlots bits first allocation.clusterCount)

/-- Sets the bits of clusters; a cluster outside the heap aborts. -/
def markClusters : List Bool → List ℕ → Formatted (List Bool)
  | bits, [] => pure bits
  | bits, cluster :: rest => do
    ensure (cluster - 2 < bits.length) .aborted
    markClusters (bits.set (cluster - 2) true) rest

/-! ### Bad clusters -/

def destExfatBadCluster (geometry : ExfatDestinationGeometry) (heapEnd lcn : ℕ) : Formatted ℕ := do
  let offset ← orErr (checkedMul lcn geometry.bytesPerCluster) (.arithmeticOverflow "bad LCN offset")
  let stop ← orErr (checkedAdd offset geometry.bytesPerCluster) (.arithmeticOverflow "bad LCN end")
  ensure (¬ (offset < heapStart geometry ∨ heapEnd < stop))
    (.badClusterOverlapsDestinationMetadata offset)
  let relative := (offset - heapStart geometry) / geometry.bytesPerCluster
  ensure (relative + 2 < wordBound32) (.arithmeticOverflow "bad heap cluster")
  pure (relative + 2)

def badClustersFrom (geometry : ExfatDestinationGeometry) (heapEnd : ℕ) :
    List ℕ → Formatted (List ℕ)
  | [] => pure []
  | lcn :: rest => do
    let cluster ← destExfatBadCluster geometry heapEnd lcn
    let clusters ← badClustersFrom geometry heapEnd rest
    pure (cluster :: clusters)

def badRangeError : Geometry.LayoutError → ExfatFormatError
  | .rangeOutsideVolume offset _ _ => .badClusterOverlapsDestinationMetadata offset
  | .rangeOverflow offset _ => .badClusterOverlapsDestinationMetadata offset
  | .zeroLengthRange offset => .badClusterOverlapsDestinationMetadata offset
  | _ => .invalidGeometry "bad-cluster range is not dest-cluster mappable"

def destExfatBadClusters (geometry : ExfatDestinationGeometry) (ranges : List ByteRange) :
    Formatted (List ℕ) := do
  let heapEnd ← orErr (checkedAdd (heapStart geometry) (heapBytes geometry))
    (.arithmeticOverflow "heap end")
  let lcns ← (Geometry.clustersCoveringRanges ranges geometry.bytesPerCluster
    geometry.volumeBytes).mapError badRangeError
  badClustersFrom geometry heapEnd lcns

/-- Takes the bad clusters out of the heap. -/
def reserveBadClusters (geometry : ExfatDestinationGeometry) :
    List Bool → List ℕ → Formatted (List Bool)
  | occupied, [] => pure occupied
  | occupied, cluster :: rest =>
    if occupied[cluster - 2]? = some false then
      reserveBadClusters geometry (occupied.set (cluster - 2) true) rest
    else do
      let offset ← clusterOffset geometry cluster
      .error (.badClusterOverlapsDestinationMetadata offset)

/-! ### Stale boot sectors -/

def scrubError : ExfatFormatError :=
  .invalidGeometry "stale boot-sector range is not a sector-aligned run inside one destination region"

/-- Whether a range lies inside a region; one that lies across its ends is refused. -/
def within (range : ByteRange) (start stop : ℕ) : Formatted Bool := do
  let rangeEnd ← orErr (checkedAdd range.offset range.length) (.arithmeticOverflow "scrub range end")
  if rangeEnd ≤ start ∨ stop ≤ range.offset then pure false
  else do
    ensure (¬ (range.offset < start ∨ stop < rangeEnd)) scrubError
    pure true

/-- The scrub of a range inside the heap: it takes its cluster, unless that is bad already. -/
def planHeapScrub (geometry : ExfatDestinationGeometry) (occupied : List Bool)
    (scrubs : List StaleBootSectorScrub) (range : ByteRange) :
    Formatted (List StaleBootSectorScrub) := do
  let first := (range.offset - heapStart geometry) / geometry.bytesPerCluster
  ensure ((range.stop - 1 - heapStart geometry) / geometry.bytesPerCluster = first) scrubError
  let used ← orErr occupied[first]? .aborted
  if used then pure scrubs
  else do
    ensure (first + 2 < wordBound32) (.arithmeticOverflow "scrub cluster")
    ensure (some (first + 2) ∉ scrubs.map StaleBootSectorScrub.heapCluster) scrubError
    pure (scrubs ++ [⟨range, some (first + 2)⟩])

/-- Whether other metadata writes replace the range. -/
def replaced (geometry : ExfatDestinationGeometry) (fatEnd : ℕ) (range : ByteRange) :
    Formatted Bool := do
  let inBoot ← within range 0 (24 * geometry.bytesPerSector)
  if inBoot then pure true
  else within range (geometry.fatOffsetSectors * geometry.bytesPerSector) fatEnd

def planScrub (geometry : ExfatDestinationGeometry) (fatEnd heapEnd : ℕ) (occupied : List Bool)
    (scrubs : List StaleBootSectorScrub) (range : ByteRange) :
    Formatted (List StaleBootSectorScrub) := do
  let stop ← orErr (checkedAdd range.offset range.length) (.arithmeticOverflow "scrub range end")
  ensure (¬ (range.length = 0 ∨ 24 * geometry.bytesPerSector < range.length ∨
      range.offset % geometry.bytesPerSector ≠ 0 ∨ range.length % geometry.bytesPerSector ≠ 0 ∨
      geometry.volumeBytes < stop)) scrubError
  ensure (∀ existing ∈ scrubs, ¬ (range.offset < existing.range.stop ∧ existing.range.offset < stop))
    scrubError
  let written ← replaced geometry fatEnd range
  if written then pure scrubs
  else do
    let inHeap ← within range (heapStart geometry) heapEnd
    if inHeap then planHeapScrub geometry occupied scrubs range
    else pure (scrubs ++ [⟨range, none⟩])

def planScrubs (geometry : ExfatDestinationGeometry) (fatEnd heapEnd : ℕ) (occupied : List Bool) :
    List StaleBootSectorScrub → List ByteRange → Formatted (List StaleBootSectorScrub)
  | scrubs, [] => pure scrubs
  | scrubs, range :: rest => do
    let scrubs ← planScrub geometry fatEnd heapEnd occupied scrubs range
    planScrubs geometry fatEnd heapEnd occupied scrubs rest

def planStaleBootSectorScrubs (geometry : ExfatDestinationGeometry) (ranges : List ByteRange)
    (occupied : List Bool) : Formatted (List StaleBootSectorScrub) := do
  let fatEnd ← orErr (checkedAdd (geometry.fatOffsetSectors * geometry.bytesPerSector)
    (geometry.fatLengthSectors * geometry.bytesPerSector)) (.arithmeticOverflow "FAT end")
  let heapEnd ← orErr (checkedAdd (heapStart geometry) (heapBytes geometry))
    (.arithmeticOverflow "heap end")
  planScrubs geometry fatEnd heapEnd occupied [] ranges

/-- The clusters of the heap that scrubs take. -/
def scrubClusters (scrubs : List StaleBootSectorScrub) : List ℕ :=
  scrubs.filterMap StaleBootSectorScrub.heapCluster

/-- Takes the clusters of the scrubs out of the heap. -/
def reserveScrubs (occupied : List Bool) (scrubs : List StaleBootSectorScrub) :
    Formatted (List Bool) := markClusters occupied (scrubClusters scrubs)

/-! ## What has been handed out -/

/-- The marks are those of the clusters handed out, and none was handed out twice. -/
structure Owned (occupied : List Bool) (clusters : List ℕ) : Prop where
  low : ∀ cluster ∈ clusters, 2 ≤ cluster
  owns : Owns occupied (clusters.map (· - 2))

/-- The bytes of a cluster. -/
def clusterSpan (geometry : ExfatDestinationGeometry) (cluster : ℕ) : Span :=
  ⟨heapStart geometry + (cluster - 2) * geometry.bytesPerCluster, geometry.bytesPerCluster⟩

section Owned

variable {occupied result : List Bool} {clusters : List ℕ}

theorem owned_replicate (n : ℕ) : Owned (List.replicate n false) [] :=
  ⟨fun _ h => absurd h List.not_mem_nil, owns_replicate n⟩

theorem Owned.nodup (h : Owned occupied clusters) : clusters.Nodup := h.owns.nodup.of_map

theorem Owned.lt (h : Owned occupied clusters) {cluster : ℕ} (hcluster : cluster ∈ clusters) :
    cluster < 2 + occupied.length := by
  have hlow := h.low cluster hcluster
  have hlt := h.owns.marked.lt (List.mem_map_of_mem (f := (· - 2)) hcluster)
  omega

theorem Owned.set (h : Owned occupied clusters) {cluster : ℕ} (hlow : 2 ≤ cluster)
    (hfree : occupied[cluster - 2]? = some false) :
    Owned (occupied.set (cluster - 2) true) (clusters ++ [cluster]) := by
  refine ⟨fun other hother => ?_, ?_⟩
  · rcases List.mem_append.1 hother with hother | hother
    · exact h.low other hother
    · rwa [List.mem_singleton.1 hother]
  · rw [List.map_append]
    exact h.owns.set hfree

theorem map_sub_range' (start count : ℕ) :
    (List.range' (start + 2) count).map (· - 2) = List.range' start count := by
  rw [Nat.add_comm, ← List.map_add_range' (a := 2), List.map_map]
  exact (List.map_congr_left fun i _ => Nat.add_sub_cancel_left 2 i).trans (List.map_id _)

theorem Owned.fill (h : Owned occupied clusters) {start count : ℕ}
    (hend : start + count ≤ occupied.length)
    (hfree : ∀ i, start ≤ i → i < start + count → occupied[i]? = some false) :
    Owned (fillSlots occupied start count) (clusters ++ List.range' (start + 2) count) := by
  refine ⟨fun other hother => ?_, ?_⟩
  · rcases List.mem_append.1 hother with hother | hother
    · exact h.low other hother
    · exact le_trans (by omega) (List.mem_range'_1.1 hother).1
  · rw [List.map_append, map_sub_range']
    exact h.owns.fill hend hfree

/-- A cluster of the heap is free or handed out. -/
theorem Owned.free (h : Owned occupied clusters) {cluster : ℕ} (hlow : 2 ≤ cluster)
    (hlt : cluster < 2 + occupied.length) :
    occupied[cluster - 2]? = some false ↔ cluster ∉ clusters := by
  rw [h.owns.marked.free (by omega), List.mem_map]
  refine not_congr ⟨?_, fun hmem => ⟨cluster, hmem, rfl⟩⟩
  rintro ⟨other, hother, heq⟩
  have := h.low other hother
  rwa [show cluster = other by omega]

end Owned

/-! ### Allocations -/

section Allocate

variable {occupied result : List Bool} {clusters : List ℕ} {count : ℕ} {allocation : Allocation}

/-- The first run of free clusters is handed out. -/
theorem allocateContiguous_ok (howned : Owned occupied clusters)
    (h : allocateContiguous occupied count = .ok (result, allocation)) :
    Owned result (clusters ++ allocation.clusters) ∧ result.length = occupied.length ∧
      allocation.clusterCount = count ∧ 2 ≤ allocation.firstCluster := by
  simp only [allocateContiguous, bind_ok_iff, ensure_ok_iff, orErr_ok_iff, pure_eq_ok, Except.ok.injEq,
    Prod.mk.injEq] at h
  obtain ⟨_, hcount, index, hindex, _, -, rfl, rfl⟩ := h
  obtain ⟨hlt, ⟨hle, hfree⟩, -⟩ := firstRun_eq_some (Nat.pos_of_ne_zero hcount) hindex
  have hfill := @Owned.fill _ _ howned (index + 1 - count) count (by omega)
    fun i hlow hhigh => hfree i hlow (by omega)
  exact ⟨hfill, length_fillSlots _ _ _, rfl, Nat.le_add_left _ _⟩

theorem reservePinned_ok (howned : Owned occupied clusters) (hlow : 2 ≤ allocation.firstCluster)
    (h : reservePinned occupied allocation = .ok result) :
    Owned result (clusters ++ allocation.clusters) ∧ result.length = occupied.length := by
  simp only [reservePinned, bind_ok_iff, ensure_ok_iff, orErr_ok_iff, checkedAdd_eq_some,
    slice?_eq_some, pure_eq_ok, Except.ok.injEq] at h
  obtain ⟨_, ⟨-, rfl⟩, range, ⟨⟨-, hend⟩, hrange⟩, _, hany, rfl⟩ := h
  refine ⟨?_, length_fillSlots _ _ _⟩
  have hfill := howned.fill hend fun i hlow hhigh => ?_
  · rw [Nat.sub_add_cancel hlow] at hfill
    exact hfill
  · rw [List.any_eq_false] at hany
    rw [Nat.add_sub_cancel_left] at hrange
    have hget : range[i - (allocation.firstCluster - 2)]? = occupied[i]? := by
      rw [← hrange, getElem?_sliceAt, if_pos (by omega), Nat.add_sub_cancel' hlow]
    have hlt : i < occupied.length := by omega
    rw [List.getElem?_eq_getElem hlt] at hget ⊢
    have := hany _ (List.mem_of_getElem? hget)
    simpa using this

/-- What a pinned allocation has to be: it lies in the heap. -/
theorem placeAllocation_ok {pinned : Option Allocation} (howned : Owned occupied clusters)
    (hpinned : ∀ allocation ∈ pinned, 2 ≤ allocation.firstCluster)
    (h : placeAllocation pinned occupied count = .ok (result, allocation)) :
    Owned result (clusters ++ allocation.clusters) ∧ result.length = occupied.length ∧
      allocation.clusterCount = count ∧ 2 ≤ allocation.firstCluster := by
  cases pinned with
  | none => exact allocateContiguous_ok howned h
  | some other =>
    simp only [placeAllocation, bind_ok_iff, ensure_ok_iff, pure_eq_ok, Except.ok.injEq,
      Prod.mk.injEq] at h
    obtain ⟨_, hcount, _, hreserve, rfl, rfl⟩ := h
    have hlow := hpinned other rfl
    obtain ⟨howned, hlen⟩ := reservePinned_ok howned hlow hreserve
    exact ⟨howned, hlen, hcount, hlow⟩

theorem markAllocation_ok {slots : List ℕ} (hmarked : Marked occupied slots)
    (h : markAllocation occupied allocation = .ok result) :
    Marked result (slots ++ List.range' (allocation.firstCluster - 2) allocation.clusterCount) ∧
      result.length = occupied.length := by
  simp only [markAllocation, bind_ok_iff, orErr_ok_iff, checkedAdd_eq_some, ensure_ok_iff, pure_eq_ok,
    Except.ok.injEq] at h
  obtain ⟨_, ⟨-, rfl⟩, _, hend, rfl⟩ := h
  exact ⟨hmarked.fill hend, length_fillSlots _ _ _⟩

theorem markClusters_ok {slots marks : List ℕ} (hmarked : Marked occupied slots)
    (h : markClusters occupied marks = .ok result) :
    Marked result (slots ++ marks.map (· - 2)) ∧ result.length = occupied.length := by
  induction marks generalizing occupied slots with
  | nil =>
    rw [markClusters, pure_eq_ok, Except.ok.injEq] at h
    rw [← h, List.map_nil, List.append_nil]
    exact ⟨hmarked, rfl⟩
  | cons cluster rest ih =>
    simp only [markClusters, bind_ok_iff, ensure_ok_iff] at h
    obtain ⟨_, hlt, h⟩ := h
    obtain ⟨hresult, hlen⟩ := ih (hmarked.set hlt) h
    rw [List.append_assoc, List.singleton_append] at hresult
    exact ⟨hresult, hlen.trans (List.length_set)⟩

/-- Free clusters that are marked one after the other are handed out. -/
theorem Owned.markClusters {marks : List ℕ} (howned : Owned occupied clusters)
    (hfree : ∀ cluster ∈ marks, 2 ≤ cluster ∧ occupied[cluster - 2]? = some false)
    (hnodup : marks.Nodup) (h : Serialize.markClusters occupied marks = .ok result) :
    Owned result (clusters ++ marks) ∧ result.length = occupied.length := by
  obtain ⟨hmarked, hlen⟩ := markClusters_ok howned.owns.marked h
  refine ⟨⟨fun cluster hcluster => ?_, ?_, by rwa [List.map_append]⟩, hlen⟩
  · rcases List.mem_append.1 hcluster with hcluster | hcluster
    · exact howned.low cluster hcluster
    · exact (hfree cluster hcluster).1
  · rw [List.map_append, List.nodup_append']
    refine ⟨howned.owns.nodup, (List.nodup_map_iff_inj_on hnodup).2 fun a ha b hb heq => ?_,
      fun slot hslot hmark => ?_⟩
    · have := (hfree a ha).1
      have := (hfree b hb).1
      omega
    · obtain ⟨cluster, hcluster, rfl⟩ := List.mem_map.1 hmark
      have hfalse := (hfree cluster hcluster).2
      rw [(howned.owns.marked _).2 hslot] at hfalse
      cases hfalse

end Allocate

/-! ### Bad clusters -/

section Bad

variable {geometry : ExfatDestinationGeometry} {occupied result : List Bool} {clusters : List ℕ}

theorem mem_coveringAll {clusterBytes volumeBytes : ℕ} {ranges : List ByteRange} {lcns : List ℕ}
    (h : Geometry.coveringAll clusterBytes volumeBytes ranges = .ok lcns) {range : ByteRange}
    (hrange : range ∈ ranges) {x : ℕ} (hx : x ∈ range) : x / clusterBytes ∈ lcns := by
  induction ranges generalizing lcns with
  | nil => cases hrange
  | cons first rest ih =>
    simp only [Geometry.coveringAll, bind_ok_iff, pure_eq_ok, Except.ok.injEq] at h
    obtain ⟨covered, hcovered, more, hmore, rfl⟩ := h
    rcases List.mem_cons.1 hrange with rfl | hrange
    · simp only [Geometry.coveringRange, bind_ok_iff, ensure_ok_iff, Geometry.rangeEnd_ok_iff,
        pure_eq_ok, Except.ok.injEq] at hcovered
      obtain ⟨_, -, _, ⟨-, rfl⟩, _, -, rfl⟩ := hcovered
      obtain ⟨hlow, hhigh⟩ := Span.mem_iff.1 hx
      have hfirst : range.offset / clusterBytes ≤ x / clusterBytes := Nat.div_le_div_right hlow
      have hlast : x / clusterBytes ≤ (range.stop - 1) / clusterBytes :=
        Nat.div_le_div_right (by omega)
      exact List.mem_append_left _ (List.mem_range'_1.2 ⟨hfirst, by omega⟩)
    · exact List.mem_append_right _ (ih hmore hrange)

theorem badClustersFrom_ok {heapEnd : ℕ} {lcns : List ℕ}
    (h : badClustersFrom geometry heapEnd lcns = .ok clusters) :
    (∀ cluster ∈ clusters, 2 ≤ cluster) ∧
      ∀ lcn ∈ lcns, heapStart geometry ≤ lcn * geometry.bytesPerCluster ∧
        (lcn * geometry.bytesPerCluster - heapStart geometry) / geometry.bytesPerCluster + 2 ∈
          clusters := by
  induction lcns generalizing clusters with
  | nil =>
    rw [badClustersFrom, pure_eq_ok, Except.ok.injEq] at h
    subst h
    simp
  | cons lcn rest ih =>
    simp only [badClustersFrom, destExfatBadCluster, bind_ok_iff, orErr_ok_iff, checkedMul_eq_some,
      checkedAdd_eq_some, ensure_ok_iff, not_or, not_lt, pure_eq_ok, Except.ok.injEq] at h
    obtain ⟨_, ⟨_, ⟨-, rfl⟩, _, ⟨-, rfl⟩, _, ⟨hlow, -⟩, _, -, rfl⟩, more, hmore, rfl⟩ := h
    obtain ⟨hclusters, hlcns⟩ := ih hmore
    exact ⟨List.forall_mem_cons.2 ⟨Nat.le_add_left _ _, hclusters⟩, List.forall_mem_cons.2
      ⟨⟨hlow, List.mem_cons_self⟩, fun other hother =>
        ⟨(hlcns other hother).1, List.mem_cons_of_mem _ (hlcns other hother).2⟩⟩⟩

/-- Every byte of a bad range lies in a bad cluster. -/
theorem destExfatBadClusters_covers (haligned : geometry.bytesPerCluster ∣ heapStart geometry)
    (hpos : 0 < geometry.bytesPerCluster) {ranges : List ByteRange}
    (h : destExfatBadClusters geometry ranges = .ok clusters) {range : ByteRange}
    (hrange : range ∈ ranges) {x : ℕ} (hx : x ∈ range) :
    ∃ cluster ∈ clusters, x ∈ clusterSpan geometry cluster := by
  simp only [destExfatBadClusters, Geometry.clustersCoveringRanges, bind_ok_iff, orErr_ok_iff,
    mapError_ok_iff, pure_eq_ok, Except.ok.injEq] at h
  obtain ⟨heapEnd, -, _, ⟨_, -, lcns, hlcns, rfl⟩, hclusters⟩ := h
  have hmem : x / geometry.bytesPerCluster ∈ sortByKey id lcns.dedup :=
    mem_sortByKey.2 (List.mem_dedup.2 (mem_coveringAll hlcns hrange hx))
  obtain ⟨hlow, hcluster⟩ := (badClustersFrom_ok hclusters).2 _ hmem
  refine ⟨_, hcluster, ?_⟩
  obtain ⟨k, hk⟩ := haligned
  rw [Span.mem_iff, Span.stop, clusterSpan]
  dsimp only
  rw [hk, Nat.add_sub_cancel, Nat.mul_comm (x / _), ← Nat.mul_sub, Nat.mul_div_cancel_left _ hpos,
    Nat.mul_comm _ geometry.bytesPerCluster, ← Nat.mul_add, Nat.add_sub_cancel' (by
      rw [hk, Nat.mul_comm] at hlow
      exact Nat.le_of_mul_le_mul_right hlow hpos)]
  have hdiv := Nat.div_add_mod x geometry.bytesPerCluster
  have hmod := Nat.mod_lt x hpos
  omega

theorem reserveBadClusters_ok {bad : List ℕ} (howned : Owned occupied clusters)
    (hlow : ∀ cluster ∈ bad, 2 ≤ cluster)
    (h : reserveBadClusters geometry occupied bad = .ok result) :
    Owned result (clusters ++ bad) ∧ result.length = occupied.length := by
  induction bad generalizing occupied clusters with
  | nil =>
    rw [reserveBadClusters, pure_eq_ok, Except.ok.injEq] at h
    rw [← h, List.append_nil]
    exact ⟨howned, rfl⟩
  | cons cluster rest ih =>
    rw [reserveBadClusters] at h
    split_ifs at h with hfree
    · obtain ⟨hfirst, hrest⟩ := List.forall_mem_cons.1 hlow
      obtain ⟨hresult, hlen⟩ := ih (howned.set hfirst hfree) hrest h
      rw [List.append_assoc, List.singleton_append] at hresult
      exact ⟨hresult, hlen.trans List.length_set⟩
    · simp only [bind_ok_iff] at h
      obtain ⟨_, -, h⟩ := h
      cases h

theorem destExfatBadClusters_low {ranges : List ByteRange}
    (h : destExfatBadClusters geometry ranges = .ok clusters) :
    ∀ cluster ∈ clusters, 2 ≤ cluster := by
  simp only [destExfatBadClusters, bind_ok_iff] at h
  obtain ⟨heapEnd, -, lcns, -, hclusters⟩ := h
  exact (badClustersFrom_ok hclusters).1

end Bad

/-! ### Stale boot sectors -/

/-- What scrubs are: ranges inside a cluster of their own, or outside the heap. -/
structure ScrubsIn (geometry : ExfatDestinationGeometry) (occupied : List Bool)
    (scrubs : List StaleBootSectorScrub) : Prop where
  pos : ∀ scrub ∈ scrubs, 0 < scrub.range.length
  heap : ∀ scrub ∈ scrubs, ∀ cluster ∈ scrub.heapCluster, 2 ≤ cluster ∧
    occupied[cluster - 2]? = some false ∧ scrub.range.Inside (clusterSpan geometry cluster)
  outside : ∀ scrub ∈ scrubs, scrub.heapCluster = none → scrub.range.stop ≤ heapStart geometry ∨
    heapStart geometry + heapBytes geometry ≤ scrub.range.offset
  nodup : (scrubClusters scrubs).Nodup

section Scrub

variable {geometry : ExfatDestinationGeometry} {occupied result : List Bool} {clusters : List ℕ}
  {scrubs out : List StaleBootSectorScrub} {range : ByteRange}

theorem ScrubsIn.snoc (h : ScrubsIn geometry occupied scrubs) {scrub : StaleBootSectorScrub}
    (hpos : 0 < scrub.range.length)
    (hheap : ∀ cluster ∈ scrub.heapCluster, 2 ≤ cluster ∧ occupied[cluster - 2]? = some false ∧
      scrub.range.Inside (clusterSpan geometry cluster) ∧ cluster ∉ scrubClusters scrubs)
    (houtside : scrub.heapCluster = none → scrub.range.stop ≤ heapStart geometry ∨
      heapStart geometry + heapBytes geometry ≤ scrub.range.offset) :
    ScrubsIn geometry occupied (scrubs ++ [scrub]) where
  pos other hother := by
    rcases List.mem_append.1 hother with hother | hother
    · exact h.pos other hother
    · rwa [List.mem_singleton.1 hother]
  heap other hother cluster hcluster := by
    rcases List.mem_append.1 hother with hother | hother
    · exact h.heap other hother cluster hcluster
    · rw [List.mem_singleton.1 hother] at hcluster ⊢
      obtain ⟨hlow, hfree, hin, -⟩ := hheap cluster hcluster
      exact ⟨hlow, hfree, hin⟩
  outside other hother hnone := by
    rcases List.mem_append.1 hother with hother | hother
    · exact h.outside other hother hnone
    · rw [List.mem_singleton.1 hother] at hnone ⊢
      exact houtside hnone
  nodup := by
    rw [scrubClusters, List.filterMap_append, List.nodup_append']
    refine ⟨h.nodup, ?_, fun cluster hcluster hother => ?_⟩
    · cases hscrub : scrub.heapCluster with
      | none => rw [List.filterMap_cons_none hscrub]; exact List.nodup_nil
      | some cluster => rw [List.filterMap_cons_some hscrub]; exact List.nodup_singleton cluster
    · simp only [List.mem_filterMap, List.mem_singleton, exists_eq_left] at hother
      exact (hheap cluster hother).2.2.2 hcluster

theorem within_false {start stop : ℕ} (h : within range start stop = .ok false) :
    range.stop ≤ start ∨ stop ≤ range.offset := by
  simp only [within, bind_ok_iff, orErr_ok_iff, checkedAdd_eq_some] at h
  obtain ⟨_, ⟨-, rfl⟩, h⟩ := h
  split_ifs at h with hout
  · exact hout
  · simp only [bind_ok_iff, pure_eq_ok] at h
    obtain ⟨_, -, h⟩ := h
    cases h

theorem within_true {start stop : ℕ} (h : within range start stop = .ok true) :
    start ≤ range.offset ∧ range.stop ≤ stop := by
  simp only [within, bind_ok_iff, orErr_ok_iff, checkedAdd_eq_some] at h
  obtain ⟨_, ⟨-, rfl⟩, h⟩ := h
  split_ifs at h with hout
  · cases h
  · simp only [bind_ok_iff, ensure_ok_iff, not_or, not_lt] at h
    obtain ⟨_, hin, -⟩ := h
    exact hin

theorem planHeapScrub_ok (hpos : 0 < range.length) (hlow : heapStart geometry ≤ range.offset)
    (hcluster : 0 < geometry.bytesPerCluster) (hscrubs : ScrubsIn geometry occupied scrubs)
    (h : planHeapScrub geometry occupied scrubs range = .ok out) : ScrubsIn geometry occupied out := by
  simp only [planHeapScrub, bind_ok_iff, ensure_ok_iff, orErr_ok_iff] at h
  obtain ⟨_, hone, used, hused, h⟩ := h
  set first := (range.offset - heapStart geometry) / geometry.bytesPerCluster with hfirst
  cases used with
  | true =>
    rw [if_pos rfl, pure_eq_ok, Except.ok.injEq] at h
    rwa [← h]
  | false =>
    simp only [Bool.false_eq_true, if_false, bind_ok_iff, ensure_ok_iff, pure_eq_ok,
      Except.ok.injEq] at h
    obtain ⟨_, -, _, hfresh, rfl⟩ := h
    refine hscrubs.snoc hpos (fun cluster hmem => ?_) fun hnone => by cases hnone
    rw [Option.mem_some_iff] at hmem
    subst hmem
    refine ⟨Nat.le_add_left _ _, hused, ?_, fun hmem => hfresh ?_⟩
    · have hstop : range.stop = range.offset + range.length := rfl
      have hlast := Nat.lt_mul_div_succ (range.stop - 1 - heapStart geometry) hcluster
      have hstart := Nat.div_mul_le_self (range.offset - heapStart geometry) geometry.bytesPerCluster
      rw [hone, Nat.mul_succ, Nat.mul_comm] at hlast
      rw [← hfirst] at hstart
      show heapStart geometry + (first + 2 - 2) * geometry.bytesPerCluster ≤ range.offset ∧
        range.stop ≤ heapStart geometry + (first + 2 - 2) * geometry.bytesPerCluster +
          geometry.bytesPerCluster
      rw [Nat.add_sub_cancel]
      omega
    · obtain ⟨scrub, hscrub, hsome⟩ := List.mem_filterMap.1 hmem
      exact List.mem_map.2 ⟨scrub, hscrub, hsome⟩

theorem planScrub_ok {fatEnd : ℕ} (hcluster : 0 < geometry.bytesPerCluster)
    (hscrubs : ScrubsIn geometry occupied scrubs)
    (h : planScrub geometry fatEnd (heapStart geometry + heapBytes geometry) occupied scrubs range =
      .ok out) : ScrubsIn geometry occupied out := by
  simp only [planScrub, bind_ok_iff, orErr_ok_iff, checkedAdd_eq_some, ensure_ok_iff, not_or] at h
  obtain ⟨_, ⟨-, rfl⟩, _, ⟨hlength, -⟩, _, -, written, -, h⟩ := h
  cases written with
  | true =>
    rw [if_pos rfl, pure_eq_ok, Except.ok.injEq] at h
    rwa [← h]
  | false =>
    simp only [Bool.false_eq_true, if_false, bind_ok_iff] at h
    obtain ⟨inHeap, hin, h⟩ := h
    cases inHeap with
    | true =>
      rw [if_pos rfl] at h
      exact planHeapScrub_ok (Nat.pos_of_ne_zero hlength) (within_true hin).1 hcluster hscrubs h
    | false =>
      rw [if_neg (by simp), pure_eq_ok, Except.ok.injEq] at h
      subst h
      exact hscrubs.snoc (Nat.pos_of_ne_zero hlength) (fun _ hmem => by cases hmem)
        fun _ => within_false hin

theorem planScrubs_ok {fatEnd : ℕ} {ranges : List ByteRange} (hcluster : 0 < geometry.bytesPerCluster)
    (hscrubs : ScrubsIn geometry occupied scrubs)
    (h : planScrubs geometry fatEnd (heapStart geometry + heapBytes geometry) occupied scrubs ranges =
      .ok out) : ScrubsIn geometry occupied out := by
  induction ranges generalizing scrubs with
  | nil =>
    rw [planScrubs, pure_eq_ok, Except.ok.injEq] at h
    rwa [← h]
  | cons range rest ih =>
    simp only [planScrubs, bind_ok_iff] at h
    obtain ⟨next, hnext, h⟩ := h
    exact ih (planScrub_ok hcluster hscrubs hnext) h

theorem planStaleBootSectorScrubs_ok {ranges : List ByteRange}
    (hcluster : 0 < geometry.bytesPerCluster)
    (h : planStaleBootSectorScrubs geometry ranges occupied = .ok out) :
    ScrubsIn geometry occupied out := by
  simp only [planStaleBootSectorScrubs, bind_ok_iff, orErr_ok_iff, checkedAdd_eq_some] at h
  obtain ⟨_, -, _, ⟨-, rfl⟩, h⟩ := h
  have hnil : ScrubsIn geometry occupied [] := by
    refine ⟨?_, ?_, ?_, List.nodup_nil⟩ <;>
      exact fun scrub hscrub => absurd hscrub List.not_mem_nil
  exact planScrubs_ok hcluster hnil h

/-- The clusters of the scrubs are handed out. -/
theorem reserveScrubs_ok (howned : Owned occupied clusters)
    (hscrubs : ScrubsIn geometry occupied scrubs) (h : reserveScrubs occupied scrubs = .ok result) :
    Owned result (clusters ++ scrubClusters scrubs) ∧ result.length = occupied.length := by
  refine howned.markClusters (fun cluster hcluster => ?_) hscrubs.nodup h
  obtain ⟨scrub, hscrub, hsome⟩ := List.mem_filterMap.1 hcluster
  obtain ⟨hlow, hfree, -⟩ := hscrubs.heap scrub hscrub cluster hsome
  exact ⟨hlow, hfree⟩

end Scrub

end Serialize

end Exfat

end StarConverter
