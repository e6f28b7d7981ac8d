import StarConverter.Exfat.AllocationBuild
import StarConverter.Exfat.DirectoryPlacement
import StarConverter.OverlayView

/-!
# The exFAT formatter

The formatter places everything the new volume needs (`placeVolume`), writes the boot regions, the FAT,
the bitmap, the up-case table, the directories and zeros over stale boot sectors (`volumeWrites`), and
makes an overlay of these writes. `Placed` says what has been placed where, and that no cluster serves two
purposes (`placeVolume_ok`).
-/

namespace StarConverter

open Base

namespace Exfat

structure ExfatSerializationPlan where
  geometry : ExfatDestinationGeometry
  overlay : OverlayPlan
  reservations : List Geometry.DestinationReservation
  sourceAllocations : List Geometry.SourceAllocation
  reusedPayloads : List ReusedPayload

structure ExfatSerializationOutput where
  plan : ExfatSerializationPlan
  pinned : PinnedExfatLayout

/-- Where everything lies: the locals of `serialize_exfat_destination_impl`. -/
structure ExfatPlacement where
  geometry : ExfatDestinationGeometry
  upcase : UpcaseTable
  layouts : Layouts
  occupied : List Bool
  badClusters : List ℕ
  scrubs : List StaleBootSectorScrub
  mapping : PayloadMapping
  bitmap : Allocation
  upcaseAllocation : Allocation
  directoryOrder : List ObjectId

namespace Serialize

/-! ## The formatter -/

/-- Bad clusters and the clusters of stale boot sectors are taken out of the heap. -/
def reserveHeap (geometry : ExfatDestinationGeometry) (profile : ExfatVolumeProfile) :
    Formatted (List Bool × List ℕ × List StaleBootSectorScrub) := do
  let badClusters ← destExfatBadClusters geometry profile.badClusterRanges
  let occupied ← reserveBadClusters geometry (List.replicate geometry.clusterCount false) badClusters
  let scrubs ← planStaleBootSectorScrubs geometry profile.staleBootSectors occupied
  let occupied ← reserveScrubs occupied scrubs
  pure (occupied, badClusters, scrubs)

def bitmapLength (geometry : ExfatDestinationGeometry) : ℕ := divCeil geometry.clusterCount 8

/-- Places the payload, the bitmap, the up-case table and the directories. -/
def placeVolume (graph : ObjectGraph) (metadata : List ExfatObjectMetadata)
    (profile : ExfatVolumeProfile) (options : ExfatSerializeOptions) (limits : ExfatFormatLimits)
    (payloadMode : PayloadPlacementMode) (pinned : Option PinnedExfatLayout) :
    Formatted ExfatPlacement := do
  validateLimits limits
  validateVolumeProfile profile
  let geometry ← (chooseGeometry graph.extents.volumeBytes options
    limits.toExfatSerializeLimits).mapError .serialize
  let upcase ← (UpcaseTable.parse profile.encodedUpcaseTable profile.upcaseChecksum
    UpcaseLimits.completeTable).mapError fun _ => .invalidUpcaseTable
  let layouts ← buildObjectLayouts graph metadata geometry upcase limits payloadMode
  let (occupied, badClusters, scrubs) ← reserveHeap geometry profile
  let (mapping, layouts) ← mapPayloads graph geometry layouts occupied limits payloadMode
  let bitmapClusters ← clustersFor (bitmapLength geometry) geometry.bytesPerCluster
  let upcaseClusters ← clustersFor profile.encodedUpcaseTable.length geometry.bytesPerCluster
  let (occupied, bitmap) ← placeAllocation (pinned.map PinnedExfatLayout.bitmap) mapping.occupied
    bitmapClusters
  let (occupied, upcaseAllocation) ← placeAllocation (pinned.map PinnedExfatLayout.upcase) occupied
    upcaseClusters
  let order ← directoryOrder graph layouts
  ensure (∀ layout ∈ pinned, layout.directories.map Prod.fst = order) .destinationLayoutChanged
  let state ← placeDirectories graph.root profile.volumeLabel.isSome geometry.bytesPerCluster
    limits.maxDirectoryBytes pinned 0 ⟨occupied, layouts⟩ order
  let rootCluster ← orErr ((state.layouts.get? graph.root).bind fun layout =>
    layout.directoryClusters.head?)
    (.unsupportedObject graph.root "root directory allocation is empty")
  let geometry := { geometry with rootDirectoryCluster := rootCluster }
  ensure (∀ layout ∈ pinned, layout.geometry = geometry) .destinationLayoutChanged
  pure ⟨geometry, upcase, state.layouts, state.occupied, badClusters, scrubs, mapping, bitmap,
    upcaseAllocation, order⟩

/-- `layouts[object].directory_clusters` of each directory. -/
def directoryChains (layouts : Layouts) : List ObjectId → Formatted (List (List ℕ))
  | [] => pure []
  | object :: rest => do
    let layout ← layouts.index object
    let more ← directoryChains layouts rest
    pure (layout.directoryClusters :: more)

/-- The chains of the root directory and of the fragmented payloads. -/
def volumeChains (root : ObjectId) (placement : ExfatPlacement) : Formatted (List (List ℕ)) := do
  let rootChains ← directoryChains placement.layouts
    (placement.directoryOrder.filter fun object => object = root)
  pure (rootChains ++ (placement.mapping.reused.filter fun reused => !reused.noFatChain).map
    ReusedPayload.clusters)

def allocationWrite (geometry : ExfatDestinationGeometry) (allocation : Allocation) (bytes : Bytes) :
    Formatted OverlayWrite := do
  let offset ← clusterOffset geometry allocation.firstCluster
  pure ⟨offset, bytes⟩

/-- The up-case table with zeros behind it. -/
def paddedUpcase (placement : ExfatPlacement) (profile : ExfatVolumeProfile) : Formatted Bytes := do
  let padded := zeros (paddedAllocationBytes placement.upcaseAllocation
    placement.geometry.bytesPerCluster)
  ensure (profile.encodedUpcaseTable.length ≤ padded.length) .aborted
  pure (overwrite padded 0 profile.encodedUpcaseTable)

def directoryWrite (root : ObjectId) (profile : ExfatVolumeProfile) (placement : ExfatPlacement)
    (object : ObjectId) : Formatted OverlayWrite := do
  let bytes ← buildDirectory object root placement.layouts placement.bitmap
    placement.upcaseAllocation (bitmapLength placement.geometry) profile.volumeLabel
    profile.encodedUpcaseTable profile.upcaseChecksum placement.upcase
    placement.geometry.bytesPerCluster
  let layout ← placement.layouts.index object
  let allocation ← allocationFromClusters layout.directoryClusters
  allocationWrite placement.geometry allocation bytes

def directoryWrites (root : ObjectId) (profile : ExfatVolumeProfile) (placement : ExfatPlacement) :
    List ObjectId → Formatted (List OverlayWrite)
  | [] => pure []
  | object :: rest => do
    let write ← directoryWrite root profile placement object
    let writes ← directoryWrites root profile placement rest
    pure (write :: writes)

def scrubWrite (scrub : StaleBootSectorScrub) : OverlayWrite :=
  ⟨scrub.range.offset, zeros scrub.range.length⟩

/-- Everything that is written. -/
def volumeWrites (root : ObjectId) (profile : ExfatVolumeProfile) (options : ExfatSerializeOptions)
    (placement : ExfatPlacement) : Formatted (List OverlayWrite) := do
  let geometry := placement.geometry
  let chains ← volumeChains root placement
  let fat ← buildFat geometry placement.bitmap placement.upcaseAllocation placement.badClusters chains
  let directories ← directoryChains placement.layouts placement.directoryOrder
  let allocated ← destinationAllocated geometry.clusterCount placement.mapping.reused
    placement.bitmap placement.upcaseAllocation placement.badClusters directories
  let bits ← bitmapBytes placement.bitmap geometry.bytesPerCluster allocated
  let boot ← (buildBootRegions geometry options (percentInUse allocated)).mapError .serialize
  let oneBootRegion := 12 * geometry.bytesPerSector
  let bitmapWrite ← allocationWrite geometry placement.bitmap bits
  let upcaseBytes ← paddedUpcase placement profile
  let upcaseWrite ← allocationWrite geometry placement.upcaseAllocation upcaseBytes
  let namespaceWrites ← directoryWrites root profile placement placement.directoryOrder
  pure ([⟨0, boot.take oneBootRegion⟩, ⟨oneBootRegion, boot.drop oneBootRegion⟩,
    ⟨geometry.fatOffsetSectors * geometry.bytesPerSector, fat⟩, bitmapWrite, upcaseWrite] ++
      namespaceWrites ++ placement.scrubs.map scrubWrite)

def allocationReservation (geometry : ExfatDestinationGeometry)
    (kind : Geometry.ReservationKind) (allocation : Allocation) :
    Formatted Geometry.DestinationReservation := do
  let offset ← clusterOffset geometry allocation.firstCluster
  pure ⟨⟨offset, allocation.clusterCount * geometry.bytesPerCluster⟩, kind⟩

/-- The allocations of the directories, in order. -/
def directoryAllocations (layouts : Layouts) :
    List ObjectId → Formatted (List (ObjectId × Allocation))
  | [] => pure []
  | object :: rest => do
    let layout ← layouts.index object
    let allocation ← allocationFromClusters layout.directoryClusters
    let more ← directoryAllocations layouts rest
    pure ((object, allocation) :: more)

def allocationReservations (geometry : ExfatDestinationGeometry) (kind : Geometry.ReservationKind) :
    List Allocation → Formatted (List Geometry.DestinationReservation)
  | [] => pure []
  | allocation :: rest => do
    let reservation ← allocationReservation geometry kind allocation
    let more ← allocationReservations geometry kind rest
    pure (reservation :: more)

def directoryReservations (geometry : ExfatDestinationGeometry) (layouts : Layouts) :
    List ObjectId → Formatted (List Geometry.DestinationReservation)
  | [] => pure []
  | object :: rest => do
    let layout ← layouts.index object
    let allocation ← allocationFromClusters layout.directoryClusters
    let reservation ← allocationReservation geometry .namespaceMetadata allocation
    let more ← directoryReservations geometry layouts rest
    pure (reservation :: more)

/-- A scrub inside the heap reserves its whole cluster. -/
def scrubReservation (geometry : ExfatDestinationGeometry) (scrub : StaleBootSectorScrub) :
    Formatted Geometry.DestinationReservation :=
  match scrub.heapCluster with
  | some cluster => allocationReservation geometry .other ⟨cluster, 1⟩
  | none => pure ⟨scrub.range, .other⟩

def scrubReservations (geometry : ExfatDestinationGeometry) :
    List StaleBootSectorScrub → Formatted (List Geometry.DestinationReservation)
  | [] => pure []
  | scrub :: rest => do
    let reservation ← scrubReservation geometry scrub
    let more ← scrubReservations geometry rest
    pure (reservation :: more)

def reservationsFor (placement : ExfatPlacement) :
    Formatted (List Geometry.DestinationReservation) := do
  let geometry := placement.geometry
  let sector := geometry.bytesPerSector
  let metadata ← allocationReservations geometry .allocationMetadata
    [placement.bitmap, placement.upcaseAllocation]
  let directories ← directoryReservations geometry placement.layouts placement.directoryOrder
  let bad ← allocationReservations geometry .other (placement.badClusters.map fun cluster =>
    ⟨cluster, 1⟩)
  let scrubs ← scrubReservations geometry placement.scrubs
  pure (sortByKey (fun item => item.range.offset) ([⟨⟨0, 12 * sector⟩, .bootRegion⟩,
    ⟨⟨12 * sector, 12 * sector⟩, .bootRegion⟩,
    ⟨⟨geometry.fatOffsetSectors * sector, geometry.fatLengthSectors * sector⟩,
      .allocationMetadata⟩] ++ metadata ++ directories ++ bad ++ scrubs))

def serializeExfatDestinationImpl (graph : ObjectGraph) (metadata : List ExfatObjectMetadata)
    (profile : ExfatVolumeProfile) (options : ExfatSerializeOptions) (limits : ExfatFormatLimits)
    (payloadMode : PayloadPlacementMode) (pinned : Option PinnedExfatLayout) :
    Formatted ExfatSerializationOutput := do
  let placement ← placeVolume graph metadata profile options limits payloadMode pinned
  let writes ← volumeWrites graph.root profile options placement
  let metadataBytes ← sumChecked (ExfatFormatError.arithmeticOverflow "metadata write bytes") 0
    (writes.map fun write => write.bytes.length)
  ensure (metadataBytes ≤ limits.maxMetadataBytes)
    (.limitExceeded "metadata bytes" metadataBytes limits.maxMetadataBytes)
  let reservations ← reservationsFor placement
  let overlay ← (OverlayPlan.build placement.geometry.volumeBytes placement.geometry.bytesPerSector
    writes limits.overlay).mapError .overlay
  let directories ← directoryAllocations placement.layouts placement.directoryOrder
  pure ⟨⟨placement.geometry, overlay, reservations, placement.mapping.source,
      placement.mapping.reused⟩,
    ⟨placement.geometry, placement.bitmap, placement.upcaseAllocation, directories⟩⟩

/-- A final volume. -/
def serializeExfatDestination (graph : ObjectGraph) (metadata : List ExfatObjectMetadata)
    (profile : ExfatVolumeProfile) (options : ExfatSerializeOptions) (limits : ExfatFormatLimits) :
    Formatted ExfatSerializationPlan := do
  let output ← serializeExfatDestinationImpl graph metadata profile options limits .final none
  pure output.plan

/-! ## What has been placed -/

/-- The clusters of the old directories. -/
def sourceDirectoryClusters (graph : ObjectGraph) (geometry : ExfatDestinationGeometry) : List ℕ :=
  (graph.extents.extents.filter fun extent => extent.kind ≠ .fileData).flatMap
    (extentClusters geometry)

def payloadClusters (layouts : Layouts) : List ℕ :=
  (payloadStreams layouts).flatMap StreamLayout.clusters

/-- A directory of the new volume and the clusters it lies in. -/
structure DirectoryAt (root : ObjectId) (hasVolumeLabel : Bool) (clusterBytes : ℕ)
    (layouts : Layouts) (object : ObjectId) (allocation : Allocation) : Prop where
  layout : ∃ layout, layouts.get? object = some layout ∧
    layout.directoryClusters = allocation.clusters
  length : ∃ bytes, directoryLength object root layouts hasVolumeLabel = .ok bytes ∧
    clustersFor bytes clusterBytes = .ok allocation.clusterCount
  low : 2 ≤ allocation.firstCluster

/-- The streams of the files lie in the clusters of their extents. -/
structure FilesPlaced (graph : ObjectGraph) (geometry : ExfatDestinationGeometry)
    (placement : ExfatPlacement) : Prop where
  stream : ∀ object ∈ graph.objects, object.kind = .file → ∀ layout,
    placement.layouts.get? object.id = some layout → ∃ stream,
      validateFileStream object.id object.streams geometry .final = .ok stream ∧
        layout.stream = some (placedStream graph geometry stream)
  mapped : ∀ stream ∈ payloadStreams placement.layouts, Mapped graph geometry stream
  reused : placement.mapping.reused.Perm ((payloadStreams placement.layouts).map reusedPayload)
  directories : ∀ extent ∈ graph.extents.extents, extent.kind ≠ .fileData →
    extent.kind = .directoryData ∧ ∃ range, InHeap geometry extent range
  source : ∀ object ∈ graph.objects, object.kind = .directory →
    validateDirectoryStreams object.id object.streams graph = .ok ()

/-- Where everything lies, in a geometry whose root is not chosen yet. -/
structure Placed (graph : ObjectGraph) (metadata : List ExfatObjectMetadata)
    (profile : ExfatVolumeProfile) (geometry : ExfatDestinationGeometry)
    (allocations : List Allocation) (placement : ExfatPlacement) : Prop where
  geometry_eq : placement.geometry =
    { geometry with rootDirectoryCluster := placement.geometry.rootDirectoryCluster }
  root : ((placement.layouts.get? graph.root).bind fun layout => layout.directoryClusters.head?) =
    some placement.geometry.rootDirectoryCluster
  profile_ok : validateVolumeProfile profile = .ok ()
  upcase : UpcaseTable.parse profile.encodedUpcaseTable profile.upcaseChecksum
    UpcaseLimits.completeTable = .ok placement.upcase
  layouts : LayoutsFor graph metadata placement.layouts
  folded : Folded placement.layouts placement.upcase
  files : FilesPlaced graph geometry placement
  order_nodup : placement.directoryOrder.Nodup
  order : ∀ id, id ∈ placement.directoryOrder ↔
    ObjectGraph.kindOf graph.objects id = some .directory
  directories : List.Forall₂ (DirectoryAt graph.root profile.volumeLabel.isSome
    geometry.bytesPerCluster placement.layouts) placement.directoryOrder allocations
  bitmap : clustersFor (bitmapLength geometry) geometry.bytesPerCluster =
    .ok placement.bitmap.clusterCount
  upcaseAllocation : clustersFor profile.encodedUpcaseTable.length geometry.bytesPerCluster =
    .ok placement.upcaseAllocation.clusterCount
  low : 2 ≤ placement.bitmap.firstCluster ∧ 2 ≤ placement.upcaseAllocation.firstCluster
  bad : destExfatBadClusters geometry profile.badClusterRanges = .ok placement.badClusters
  scrubs : ∃ occupied, ScrubsIn geometry occupied placement.scrubs
  owned : Owned placement.occupied (placement.badClusters ++ scrubClusters placement.scrubs ++
    sourceDirectoryClusters graph geometry ++ payloadClusters placement.layouts ++
      placement.bitmap.clusters ++ placement.upcaseAllocation.clusters ++
        allocations.flatMap Allocation.clusters)
  occupied_length : placement.occupied.length = geometry.clusterCount

section Place

variable {graph : ObjectGraph} {metadata : List ExfatObjectMetadata} {profile : ExfatVolumeProfile}
  {options : ExfatSerializeOptions} {limits : ExfatFormatLimits} {pinned : Option PinnedExfatLayout}

/-- Allocations that a draft fixed lie in the heap. -/
structure PinnedExfatLayout.InHeap (pinned : PinnedExfatLayout) : Prop where
  bitmap : 2 ≤ pinned.bitmap.firstCluster
  upcase : 2 ≤ pinned.upcase.firstCluster
  directories : ∀ item ∈ pinned.directories, 2 ≤ item.2.firstCluster

theorem reserveHeap_ok {geometry : ExfatDestinationGeometry} {occupied : List Bool} {bad : List ℕ}
    {scrubs : List StaleBootSectorScrub} (hpos : 0 < geometry.bytesPerCluster)
    (h : reserveHeap geometry profile = .ok (occupied, bad, scrubs)) :
    Owned occupied (bad ++ scrubClusters scrubs) ∧ occupied.length = geometry.clusterCount ∧
      destExfatBadClusters geometry profile.badClusterRanges = .ok bad ∧
      ∃ before, ScrubsIn geometry before scrubs := by
  simp only [reserveHeap, bind_ok_iff, pure_eq_ok, Except.ok.injEq, Prod.mk.injEq] at h
  obtain ⟨_, hbad, first, hfirst, _, hscrubs, _, hreserve, rfl, rfl, rfl⟩ := h
  obtain ⟨hownedBad, hlen⟩ := reserveBadClusters_ok (owned_replicate geometry.clusterCount)
    (destExfatBadClusters_low hbad) hfirst
  have hin := planStaleBootSectorScrubs_ok hpos hscrubs
  obtain ⟨howned, hlen'⟩ := reserveScrubs_ok hownedBad hin hreserve
  rw [List.nil_append] at howned
  exact ⟨howned, by rw [hlen', hlen, List.length_replicate], hbad, first, hin⟩

theorem clusters_of_validateFileStream {object : ObjectId} {streams : List ObjectStream}
    {geometry : ExfatDestinationGeometry} {payloadMode : PayloadPlacementMode} {stream : StreamLayout}
    (h : validateFileStream object streams geometry payloadMode = .ok stream) :
    stream.clusters = [] ∧ stream.noFatChain = false := by
  unfold validateFileStream at h
  split at h
  · rw [pure_eq_ok, Except.ok.injEq] at h
    rw [← h]
    exact ⟨rfl, rfl⟩
  · simp only [bind_ok_iff, pure_eq_ok, Except.ok.injEq] at h
    obtain ⟨_, -, _, -, _, -, rfl⟩ := h
    exact ⟨rfl, rfl⟩

theorem sameEntry_placedLayout (geometry : ExfatDestinationGeometry) (layout : ObjectLayout) :
    SameEntry (placedLayout graph geometry layout) layout := by
  unfold placedLayout
  split <;> exact ⟨rfl, rfl, rfl, rfl⟩

theorem payloadStreams_map {layouts : Layouts} {f : ObjectId → ObjectLayout → ObjectLayout}
    (hkind : ∀ object layout, (f object layout).kind = layout.kind)
    (hstream : ∀ object layout, (f object layout).stream = layout.stream) :
    payloadStreams (layouts.map fun item => (item.1, f item.1 item.2)) = payloadStreams layouts := by
  unfold payloadStreams
  rw [List.filterMap_map]
  refine List.filterMap_congr fun item _ => ?_
  simp only [Function.comp_apply, hkind, hstream]

/-- **Everything in its place.** What the formatter places tells the objects and entries of the graph,
and no cluster serves two purposes. -/
theorem placeVolume_ok {placement : ExfatPlacement}
    (hpinned : ∀ layout ∈ pinned, PinnedExfatLayout.InHeap layout)
    (h : placeVolume graph metadata profile options limits .final pinned = .ok placement) :
    ∃ geometry allocations, chooseGeometry graph.extents.volumeBytes options
        limits.toExfatSerializeLimits = .ok geometry ∧
      Placed graph metadata profile geometry allocations placement := by
  simp only [placeVolume, bind_ok_iff, mapError_ok_iff, ensure_ok_iff, orErr_ok_iff, pure_eq_ok,
    Except.ok.injEq] at h
  obtain ⟨_, -, _, hprofile, geometry, hgeometry, upcase, hupcase, layouts, hlayouts,
    ⟨occupied, bad, scrubs⟩, hreserve, ⟨mapping, mapped⟩, hmap, _, hbitmapCount, _, hupcaseCount,
    ⟨second, bitmap⟩, hbitmap, ⟨third, upcaseAllocation⟩, hupcaseAllocation, order, horder, _, -,
    state, hstate, rootCluster, hroot, _, -, rfl⟩ := h
  obtain ⟨sectorShift, clusterShift, reserved, hchosen⟩ := chooseGeometry_ok hgeometry
  have hpos : 0 < geometry.bytesPerCluster := by
    rw [hchosen.cluster_eq]
    exact Nat.mul_pos hchosen.sector_pos (Nat.two_pow_pos _)
  obtain ⟨hfor, hfolded, hunplaced⟩ := buildObjectLayouts_ok hlayouts
  obtain ⟨hreserved, hlength, hbad, hscrubs⟩ := reserveHeap_ok hpos hreserve
  have hfresh : ∀ item ∈ layouts, ∀ stream ∈ item.2.stream, stream.clusters = [] := by
    intro item hitem stream hstream
    obtain ⟨object, hobject, hid⟩ := List.mem_map.1
      (hfor.keys.mem_iff.1 (List.mem_map_of_mem (f := Prod.fst) hitem))
    obtain ⟨⟨-, hshape⟩, -⟩ := hunplaced object hobject item.2 (by rw [hid]; exact hitem)
    cases hkind : object.kind with
    | directory =>
      rw [hkind] at hshape
      rw [hshape.1] at hstream
      cases hstream
    | file =>
      rw [hkind] at hshape
      obtain ⟨other, hother, hvalid⟩ := hshape
      rw [hother, Option.mem_some_iff] at hstream
      exact hstream ▸ (clusters_of_validateFileStream hvalid).1
  obtain ⟨hmapped, hmappedLength, hreused, hmappedOwned, hall, hdirectoryExtents⟩ :=
    mapPayloads_ok hreserved hfresh hmap
  have hplacedSame := fun (_ : ObjectId) layout => @sameEntry_placedLayout graph geometry layout
  have hfor1 : LayoutsFor graph metadata mapped := by
    rw [hmapped]
    exact hfor.map hplacedSame
  obtain ⟨hsecond, hsecondLength, hbitmapEq, hbitmapLow⟩ := placeAllocation_ok hmappedOwned
    (fun allocation hallocation => by
      obtain ⟨layout, hlayout, rfl⟩ := Option.map_eq_some_iff.1 hallocation
      exact (hpinned layout hlayout).bitmap) hbitmap
  obtain ⟨hthird, hthirdLength, hupcaseEq, hupcaseLow⟩ := placeAllocation_ok hsecond
    (fun allocation hallocation => by
      obtain ⟨layout, hlayout, rfl⟩ := Option.map_eq_some_iff.1 hallocation
      exact (hpinned layout hlayout).upcase) hupcaseAllocation
  have hlinks : ∀ object ∈ graph.objects, object.id ≠ graph.root → object.linkCount = 1 := by
    intro object hobject
    obtain ⟨layout, hlayout, -⟩ := hfor.get?_object hobject
    exact (hunplaced object hobject layout ((Layouts.get?_eq_some hfor.nodup).1 hlayout)).2
  obtain ⟨horderNodup, horderMem⟩ := directoryOrder_ok hfor1 (nodup_targets hlinks) horder
  obtain ⟨f, allocations, hplaces, hplaced, hfinal, hfinalLength⟩ := placeDirectories_ok hthird
    horderNodup (fun layout hlayout => (hpinned layout hlayout).directories) hstate
  have hstateLayouts : state.layouts = mapped.map fun item => (item.1, f item.1 item.2) :=
    hplaces.layouts_eq
  have hstreams : payloadStreams state.layouts = payloadStreams mapped := by
    rw [hstateLayouts]
    exact payloadStreams_map (fun object layout => (hplaces.same object layout).kind) hplaces.stream
  have hfor2 : LayoutsFor graph metadata state.layouts := by
    rw [hstateLayouts]
    exact hfor1.map hplaces.same
  have hfiles : FilesPlaced graph geometry ⟨{ geometry with rootDirectoryCluster := rootCluster },
      upcase, state.layouts, state.occupied, bad, scrubs, mapping, bitmap, upcaseAllocation,
      order⟩ := by
    refine ⟨fun object hobject hkind layout hlayout => ?_, by rw [hstreams]; exact hall,
      by rw [hstreams]; exact hreused, hdirectoryExtents, fun object hobject hkind => ?_⟩
    · dsimp only at hlayout
      obtain ⟨first, hfirst, hdescribed⟩ := hfor.get?_object hobject
      rw [hstateLayouts, Layouts.get?_map f, hmapped,
        Layouts.get?_map fun _ layout => placedLayout graph geometry layout, hfirst, Option.map_some,
        Option.map_some, Option.some.injEq] at hlayout
      obtain ⟨⟨-, hshape⟩, -⟩ := hunplaced object hobject first
        ((Layouts.get?_eq_some hfor.nodup).1 hfirst)
      rw [hkind] at hshape
      obtain ⟨stream, hstream, hvalid⟩ := hshape
      refine ⟨stream, hvalid, ?_⟩
      rw [← hlayout, hplaces.stream, placedLayout, hdescribed.kind, hkind]
      dsimp only
      rw [hstream]
      rfl
    · obtain ⟨first, hfirst, -⟩ := hfor.get?_object hobject
      obtain ⟨⟨-, hshape⟩, -⟩ := hunplaced object hobject first
        ((Layouts.get?_eq_some hfor.nodup).1 hfirst)
      rw [hkind] at hshape
      exact hshape.2
  refine ⟨geometry, allocations, hgeometry, ⟨rfl, hroot, hprofile, hupcase, hfor2, ?_, hfiles,
    horderNodup, horderMem, ?_, ?_, ?_, ⟨hbitmapLow, hupcaseLow⟩, hbad, hscrubs, ?_, ?_⟩⟩
  · dsimp only
    rw [hstateLayouts, hmapped]
    exact (hfolded.map hplacedSame).map hplaces.same
  · refine hplaced.imp fun object allocation hat => ⟨?_, ?_, hat.low⟩
    · obtain ⟨layout, hlayout⟩ := Option.isSome_iff_exists.1 hat.present
      refine ⟨f object layout, ?_, hat.clusters layout⟩
      dsimp only
      rw [hstateLayouts, Layouts.get?_map f, hlayout]
      rfl
    · obtain ⟨bytes, hbytes, hcount⟩ := hat.length
      refine ⟨bytes, ?_, hcount⟩
      dsimp only
      rw [hstateLayouts, directoryLength_map hplaces.same]
      exact hbytes
  · rw [hbitmapCount, hbitmapEq]
  · rw [hupcaseCount, hupcaseEq]
  · rw [payloadClusters, hstreams]
    exact hfinal
  · rw [hfinalLength, hthirdLength, hsecondLength, hmappedLength, hlength]

end Place

end Serialize

end Exfat

end StarConverter
