import StarConverter.Exfat.ClusterAllocation

/-!
# Mapping the payload

The formatter leaves the payload of the source where it is: an extent that lies in the new heap on
cluster boundaries gives the clusters of the stream (`extentClusters`). The clusters of the old
directories stay occupied as long as the source has to remain readable. `mapPayloads_ok` says which
clusters the streams get, and that no cluster is handed out twice.
-/

namespace StarConverter

open Base

namespace Exfat

structure ReusedPayload where
  stream : StreamId
  clusters : List ℕ
  noFatChain : Bool
  deriving DecidableEq

/-- What the walk over the extents of a stream has found. -/
structure PayloadState where
  occupied : List Bool
  source : List Geometry.SourceAllocation
  clusters : List ℕ
  expectedLogical : ℕ
  deriving DecidableEq

/-- What the walk over the layouts has found. -/
structure PayloadMapping where
  occupied : List Bool
  source : List Geometry.SourceAllocation
  reused : List ReusedPayload
  deriving DecidableEq

namespace Serialize

/-! ## The formatter -/

/-- The first slot and the number of slots of a physical range of the heap. -/
def heapRange (geometry : ExfatDestinationGeometry) (stream : StreamId) (range : ByteRange) :
    Formatted (ℕ × ℕ) := do
  ensure (¬ (range.offset < heapStart geometry ∨
      (range.offset - heapStart geometry) % geometry.bytesPerCluster ≠ 0))
    (.payloadNotClusterAligned stream)
  let first := (range.offset - heapStart geometry) / geometry.bytesPerCluster
  let count := range.length / geometry.bytesPerCluster
  let stop ← orErr (checkedAdd first count) (.payloadOutsideHeap stream)
  ensure (stop ≤ geometry.clusterCount) (.payloadOutsideHeap stream)
  pure (first, count)

/-- Occupies slots one after the other, with a check of each; one in use is refused. -/
def occupySlots (stream : StreamId) (check : ℕ → Formatted Unit) :
    List Bool → List ℕ → Formatted (List Bool)
  | occupied, [] => pure occupied
  | occupied, slot :: rest => do
    let used ← orErr occupied[slot]? .aborted
    ensure (used = false) (.payloadOutsideHeap stream)
    check slot
    occupySlots stream check (occupied.set slot true) rest

/-- An extent of an old directory, which must not move. -/
def mapDirectoryExtent (geometry : ExfatDestinationGeometry) (occupied : List Bool)
    (extent : Extent) : Formatted (List Bool × Geometry.SourceAllocation) := do
  ensure (extent.kind = .directoryData ∧ extent.length % geometry.bytesPerCluster = 0)
    (.payloadNotClusterAligned extent.stream)
  let range ← orErr extent.physical? (.payloadNotClusterAligned extent.stream)
  let (first, count) ← heapRange geometry extent.stream range
  let occupied ← occupySlots extent.stream (fun _ => pure ()) occupied (List.range' first count)
  pure (occupied, ⟨extent.stream, extent.logicalOffset, range, false⟩)

def mapDirectoryExtents (geometry : ExfatDestinationGeometry) :
    List Bool → List Geometry.SourceAllocation → List Extent →
      Formatted (List Bool × List Geometry.SourceAllocation)
  | occupied, source, [] => pure (occupied, source)
  | occupied, source, extent :: rest => do
    let (occupied, allocation) ← mapDirectoryExtent geometry occupied extent
    mapDirectoryExtents geometry occupied (source ++ [allocation]) rest

/-- The clusters of an extent that stays where it is. -/
def placePayload (geometry : ExfatDestinationGeometry) (stream : StreamId) (range : ByteRange)
    (state : PayloadState) : Formatted PayloadState := do
  let (first, count) ← heapRange geometry stream range
  let occupied ← occupySlots stream
    (fun index => ensure (index + 2 < wordBound32) (.arithmeticOverflow "payload cluster number"))
    state.occupied (List.range' first count)
  pure { state with occupied, clusters := state.clusters ++ List.range' (first + 2) count }

/-- An extent of a file. A draft only notes where it lies. -/
def mapFileExtent (geometry : ExfatDestinationGeometry) (payloadMode : PayloadPlacementMode)
    (stream : StreamId) (state : PayloadState) (extent : Extent) : Formatted PayloadState := do
  ensure (extent.kind = .fileData ∧ extent.logicalOffset = state.expectedLogical)
    (.payloadNotClusterAligned stream)
  let range ← orErr extent.physical? (.unsupportedObject stream "sparse payload extent")
  ensure (payloadMode = .relocationDraft ∨ extent.length % geometry.bytesPerCluster = 0)
    (.payloadNotClusterAligned stream)
  let expectedLogical ← orErr (checkedAdd state.expectedLogical extent.length)
    (.arithmeticOverflow "payload logical length")
  let state := { state with
    source := state.source ++
      [⟨stream, extent.logicalOffset, range, decide (payloadMode = .relocationDraft)⟩]
    expectedLogical }
  if payloadMode = .relocationDraft then pure state else placePayload geometry stream range state

def mapFileExtents (geometry : ExfatDestinationGeometry) (payloadMode : PayloadPlacementMode)
    (stream : StreamId) : PayloadState → List Extent → Formatted PayloadState
  | state, [] => pure state
  | state, extent :: rest => do
    let state ← mapFileExtent geometry payloadMode stream state extent
    mapFileExtents geometry payloadMode stream state rest

/-- Whether a draft leaves the stream to be materialized. -/
def leftToSolver (graph : ObjectGraph) (payloadMode : PayloadPlacementMode) (stream : StreamId) :
    Bool :=
  decide (payloadMode = .relocationDraft) &&
    ((graph.objects.any fun object => object.streams.any fun candidate =>
        decide (candidate.id = stream ∧ candidate.storage ≠ .extents)) ||
      graph.extents.extents.any fun extent =>
        decide (extent.stream = stream ∧ extent.kind = .fileData ∧ extent.placement = .sparse))

/-- Maps a stream that has clusters of its own. -/
def mapStream (graph : ObjectGraph) (geometry : ExfatDestinationGeometry)
    (payloadMode : PayloadPlacementMode) (mapping : PayloadMapping) (stream : StreamLayout) :
    Formatted (PayloadMapping × StreamLayout) :=
  if stream.mappedBytes = 0 ∨ leftToSolver graph payloadMode stream.stream = true then
    pure (mapping, stream)
  else do
    let state ← mapFileExtents geometry payloadMode stream.stream
      ⟨mapping.occupied, mapping.source, stream.clusters, 0⟩
      (ObjectGraph.streamExtents graph.extents stream.stream)
    ensure (state.expectedLogical = stream.mappedBytes) (.payloadNotClusterAligned stream.stream)
    let noFatChain := decide (state.clusters.IsChain fun a b => b = a + 1)
    pure (⟨state.occupied, state.source,
      mapping.reused ++ [⟨stream.stream, state.clusters, noFatChain⟩]⟩,
      { stream with clusters := state.clusters, noFatChain })

def mapLayout (graph : ObjectGraph) (geometry : ExfatDestinationGeometry)
    (payloadMode : PayloadPlacementMode) (mapping : PayloadMapping) (layout : ObjectLayout) :
    Formatted (PayloadMapping × ObjectLayout) :=
  match layout.kind with
  | .directory => pure (mapping, layout)
  | .file => do
    let stream ← orErr layout.stream .aborted
    let (mapping, stream) ← mapStream graph geometry payloadMode mapping stream
    pure (mapping, { layout with stream := some stream })

def mapLayouts (graph : ObjectGraph) (geometry : ExfatDestinationGeometry)
    (payloadMode : PayloadPlacementMode) :
    PayloadMapping → Layouts → Formatted (PayloadMapping × Layouts)
  | mapping, [] => pure (mapping, [])
  | mapping, (object, layout) :: rest => do
    let (mapping, layout) ← mapLayout graph geometry payloadMode mapping layout
    let (mapping, layouts) ← mapLayouts graph geometry payloadMode mapping rest
    pure (mapping, (object, layout) :: layouts)

def mapPayloads (graph : ObjectGraph) (geometry : ExfatDestinationGeometry) (layouts : Layouts)
    (occupied : List Bool) (limits : ExfatFormatLimits) (payloadMode : PayloadPlacementMode) :
    Formatted (PayloadMapping × Layouts) := do
  let (occupied, source) ← mapDirectoryExtents geometry occupied []
    (graph.extents.extents.filter fun extent => extent.kind ≠ .fileData)
  let (mapping, layouts) ← mapLayouts graph geometry payloadMode ⟨occupied, source, []⟩ layouts
  ensure (mapping.source.length ≤ limits.maxExtents)
    (.limitExceeded "payload extents" mapping.source.length limits.maxExtents)
  pure ({ mapping with
    source := sortByKey (fun item => item.range.offset) mapping.source
    reused := sortByKey ReusedPayload.stream mapping.reused }, layouts)

/-! ## The clusters of the streams -/

/-- The clusters that an extent covers. -/
def extentClusters (geometry : ExfatDestinationGeometry) (extent : Extent) : List ℕ :=
  match extent.placement with
  | .physical byteOffset =>
    List.range' ((byteOffset - heapStart geometry) / geometry.bytesPerCluster + 2)
      (extent.length / geometry.bytesPerCluster)
  | .sparse => []

/-- The extent lies in the heap, on cluster boundaries. -/
structure InHeap (geometry : ExfatDestinationGeometry) (extent : Extent) (range : ByteRange) :
    Prop where
  physical : extent.physical? = some range
  start : heapStart geometry ≤ range.offset
  aligned : geometry.bytesPerCluster ∣ range.offset - heapStart geometry
  length : geometry.bytesPerCluster ∣ extent.length
  stop : (range.offset - heapStart geometry) / geometry.bytesPerCluster +
    extent.length / geometry.bytesPerCluster ≤ geometry.clusterCount

section Occupy

variable {geometry : ExfatDestinationGeometry} {stream : StreamId} {check : ℕ → Formatted Unit}
  {occupied result : List Bool} {clusters : List ℕ}

theorem occupySlots_ok (howned : Owned occupied clusters) {first count : ℕ}
    (h : occupySlots stream check occupied (List.range' first count) = .ok result) :
    Owned result (clusters ++ List.range' (first + 2) count) ∧ result.length = occupied.length := by
  induction count generalizing occupied clusters first with
  | zero =>
    rw [List.range'_zero, occupySlots, pure_eq_ok, Except.ok.injEq] at h
    rw [List.range'_zero, List.append_nil, ← h]
    exact ⟨howned, rfl⟩
  | succ count ih =>
    simp only [List.range'_succ, occupySlots, bind_ok_iff, orErr_ok_iff, ensure_ok_iff] at h
    obtain ⟨used, hused, _, rfl, _, -, h⟩ := h
    have hset := @Owned.set _ _ howned (first + 2) (Nat.le_add_left _ _) hused
    obtain ⟨hresult, hlen⟩ := ih hset h
    rw [List.append_assoc, List.singleton_append] at hresult
    rw [List.range'_succ]
    exact ⟨hresult, hlen.trans List.length_set⟩

theorem heapRange_ok {range : ByteRange} {first count : ℕ}
    (h : heapRange geometry stream range = .ok (first, count)) :
    heapStart geometry ≤ range.offset ∧
      geometry.bytesPerCluster ∣ range.offset - heapStart geometry ∧
      first = (range.offset - heapStart geometry) / geometry.bytesPerCluster ∧
      count = range.length / geometry.bytesPerCluster ∧ first + count ≤ geometry.clusterCount := by
  simp only [heapRange, bind_ok_iff, ensure_ok_iff, orErr_ok_iff, checkedAdd_eq_some, not_or, not_lt,
    ne_eq, Decidable.not_not, pure_eq_ok, Except.ok.injEq, Prod.mk.injEq] at h
  obtain ⟨_, ⟨hstart, haligned⟩, _, ⟨-, rfl⟩, _, hstop, rfl, rfl⟩ := h
  exact ⟨hstart, Nat.dvd_of_mod_eq_zero haligned, rfl, rfl, hstop⟩

theorem extentClusters_eq {extent : Extent} {range : ByteRange}
    (h : extent.physical? = some range) : extentClusters geometry extent =
      List.range' ((range.offset - heapStart geometry) / geometry.bytesPerCluster + 2)
        (range.length / geometry.bytesPerCluster) := by
  unfold Extent.physical? at h
  unfold extentClusters
  cases hplacement : extent.placement with
  | sparse =>
    rw [hplacement] at h
    cases h
  | physical byteOffset =>
    rw [hplacement, Option.some.injEq] at h
    subst h
    rfl

/-- Old directories keep their clusters. -/
theorem mapDirectoryExtents_ok {extents : List Extent} {source out : List Geometry.SourceAllocation}
    (howned : Owned occupied clusters)
    (h : mapDirectoryExtents geometry occupied source extents = .ok (result, out)) :
    Owned result (clusters ++ extents.flatMap (extentClusters geometry)) ∧
      result.length = occupied.length ∧
      ∀ extent ∈ extents, extent.kind = .directoryData ∧ ∃ range, InHeap geometry extent range := by
  induction extents generalizing occupied clusters source with
  | nil =>
    rw [mapDirectoryExtents, pure_eq_ok, Except.ok.injEq, Prod.mk.injEq] at h
    rw [List.flatMap_nil, List.append_nil, ← h.1]
    exact ⟨howned, rfl, fun _ hextent => absurd hextent List.not_mem_nil⟩
  | cons extent rest ih =>
    simp only [mapDirectoryExtents, mapDirectoryExtent, bind_ok_iff, ensure_ok_iff, orErr_ok_iff,
      pure_eq_ok, Except.ok.injEq] at h
    obtain ⟨_, ⟨_, ⟨hkind, hmod⟩, range, hrange, ⟨first, count⟩, hheap, next, hnext, rfl⟩, h⟩ := h
    obtain ⟨hstart, haligned, rfl, rfl, hstop⟩ := heapRange_ok hheap
    obtain ⟨hsingle, hlen⟩ := occupySlots_ok howned hnext
    obtain ⟨hresult, hlen', hall⟩ := ih hsingle h
    have hlength := physical_length hrange
    refine ⟨?_, hlen'.trans hlen, List.forall_mem_cons.2 ⟨⟨hkind, range, hrange, hstart, haligned,
      Nat.dvd_of_mod_eq_zero hmod, by rwa [← hlength]⟩, hall⟩⟩
    rwa [List.flatMap_cons, ← List.append_assoc, extentClusters_eq hrange]

end Occupy

/-! ## Streams in their place -/

/-- The stream with the clusters of its extents. -/
def placedStream (graph : ObjectGraph) (geometry : ExfatDestinationGeometry)
    (stream : StreamLayout) : StreamLayout :=
  if stream.mappedBytes = 0 then stream
  else
    let clusters := (ObjectGraph.streamExtents graph.extents stream.stream).flatMap
      (extentClusters geometry)
    { stream with clusters, noFatChain := decide (clusters.IsChain fun a b => b = a + 1) }

/-- The layout with its stream in its place. -/
def placedLayout (graph : ObjectGraph) (geometry : ExfatDestinationGeometry)
    (layout : ObjectLayout) : ObjectLayout :=
  match layout.kind with
  | .directory => layout
  | .file => { layout with stream := layout.stream.map (placedStream graph geometry) }

/-- The streams of the files that have bytes, in the order of the layouts. -/
def payloadStreams (layouts : Layouts) : List StreamLayout :=
  layouts.filterMap fun item => match item.2.kind with
    | .directory => none
    | .file => item.2.stream.filter fun stream => stream.mappedBytes ≠ 0

def reusedPayload (stream : StreamLayout) : ReusedPayload :=
  ⟨stream.stream, stream.clusters, stream.noFatChain⟩

/-- What the formatter has checked of the extents of a stream. -/
structure Mapped (graph : ObjectGraph) (geometry : ExfatDestinationGeometry)
    (stream : StreamLayout) : Prop where
  extents : ∀ extent ∈ ObjectGraph.streamExtents graph.extents stream.stream,
    extent.kind = .fileData ∧ ∃ range, InHeap geometry extent range
  total : ((ObjectGraph.streamExtents graph.extents stream.stream).map Extent.length).sum =
    stream.mappedBytes

section Map

variable {graph : ObjectGraph} {geometry : ExfatDestinationGeometry} {clusters : List ℕ}

theorem mapFileExtents_ok {stream : StreamId} {extents : List Extent} {state out : PayloadState}
    (howned : Owned state.occupied clusters)
    (h : mapFileExtents geometry .final stream state extents = .ok out) :
    Owned out.occupied (clusters ++ extents.flatMap (extentClusters geometry)) ∧
      out.occupied.length = state.occupied.length ∧
      out.clusters = state.clusters ++ extents.flatMap (extentClusters geometry) ∧
      out.expectedLogical = state.expectedLogical + (extents.map Extent.length).sum ∧
      ∀ extent ∈ extents, extent.kind = .fileData ∧ ∃ range, InHeap geometry extent range := by
  induction extents generalizing state clusters with
  | nil =>
    rw [mapFileExtents, pure_eq_ok, Except.ok.injEq] at h
    subst h
    rw [List.flatMap_nil, List.append_nil, List.append_nil]
    exact ⟨howned, rfl, rfl, rfl, fun _ hextent => absurd hextent List.not_mem_nil⟩
  | cons extent rest ih =>
    simp only [mapFileExtents, mapFileExtent, bind_ok_iff, ensure_ok_iff, orErr_ok_iff,
      checkedAdd_eq_some, reduceCtorEq, false_or, if_false, placePayload, pure_eq_ok,
      Except.ok.injEq] at h
    obtain ⟨_, ⟨_, ⟨hkind, hlogical⟩, range, hrange, _, hmod, _, ⟨-, rfl⟩, ⟨first, count⟩, hheap,
      next, hnext, rfl⟩, h⟩ := h
    obtain ⟨hstart, haligned, rfl, rfl, hstop⟩ := heapRange_ok hheap
    obtain ⟨hsingle, hlen⟩ := occupySlots_ok howned hnext
    obtain ⟨hresult, hlen', hclusters, hexpected, hall⟩ := ih hsingle h
    have hlength := physical_length hrange
    have hextent := @extentClusters_eq geometry extent range hrange
    refine ⟨?_, hlen'.trans hlen, ?_, ?_, List.forall_mem_cons.2 ⟨⟨hkind, range, hrange, hstart,
      haligned, Nat.dvd_of_mod_eq_zero hmod, by rwa [← hlength]⟩, hall⟩⟩
    · rwa [List.flatMap_cons, ← List.append_assoc, hextent]
    · rw [hclusters, List.flatMap_cons, ← List.append_assoc, hextent]
    · rw [hexpected, List.map_cons, List.sum_cons, ← Nat.add_assoc]

theorem mapStream_ok {stream out : StreamLayout} {mapping result : PayloadMapping}
    (howned : Owned mapping.occupied clusters) (hfresh : stream.clusters = [])
    (h : mapStream graph geometry .final mapping stream = .ok (result, out)) :
    out = placedStream graph geometry stream ∧
      result.occupied.length = mapping.occupied.length ∧
      if stream.mappedBytes = 0 then
        result.reused = mapping.reused ∧ Owned result.occupied clusters
      else Mapped graph geometry stream ∧
        result.reused = mapping.reused ++ [reusedPayload (placedStream graph geometry stream)] ∧
        Owned result.occupied (clusters ++ (placedStream graph geometry stream).clusters) := by
  have hleft : leftToSolver graph .final stream.stream = false := rfl
  unfold mapStream at h
  unfold placedStream
  rw [hleft] at h
  simp only [Bool.false_eq_true, or_false] at h
  split_ifs at h ⊢ with hempty
  · rw [pure_eq_ok, Except.ok.injEq, Prod.mk.injEq] at h
    obtain ⟨rfl, rfl⟩ := h
    exact ⟨rfl, rfl, rfl, howned⟩
  · simp only [bind_ok_iff, ensure_ok_iff, pure_eq_ok, Except.ok.injEq, Prod.mk.injEq] at h
    obtain ⟨state, hstate, _, htotal, rfl, rfl⟩ := h
    obtain ⟨hresult, hlen, hclusters, hexpected, hall⟩ := mapFileExtents_ok howned hstate
    rw [hfresh, List.nil_append] at hclusters
    rw [Nat.zero_add] at hexpected
    rw [hclusters]
    exact ⟨rfl, hlen, ⟨hall, hexpected.symm.trans htotal⟩, rfl, hresult⟩

theorem payloadStreams_cons (item : ObjectId × ObjectLayout) (rest : Layouts) :
    payloadStreams (item :: rest) = payloadStreams [item] ++ payloadStreams rest := by
  rw [← List.singleton_append]
  exact List.filterMap_append

theorem mapLayout_ok {object : ObjectId} {layout out : ObjectLayout}
    {mapping result : PayloadMapping} (howned : Owned mapping.occupied clusters)
    (hfresh : ∀ stream ∈ layout.stream, stream.clusters = [])
    (h : mapLayout graph geometry .final mapping layout = .ok (result, out)) :
    out = placedLayout graph geometry layout ∧
      result.occupied.length = mapping.occupied.length ∧
      result.reused = mapping.reused ++ (payloadStreams [(object, out)]).map reusedPayload ∧
      Owned result.occupied (clusters ++ (payloadStreams [(object, out)]).flatMap
        StreamLayout.clusters) ∧
      ∀ stream ∈ payloadStreams [(object, out)], Mapped graph geometry stream := by
  unfold mapLayout at h
  unfold placedLayout
  cases hkind : layout.kind with
  | directory =>
    simp only [hkind, pure_eq_ok, Except.ok.injEq, Prod.mk.injEq] at h
    obtain ⟨rfl, rfl⟩ := h
    have hnone : payloadStreams [(object, layout)] = [] :=
      List.filterMap_cons_none (by rw [hkind])
    rw [hnone]
    exact ⟨rfl, rfl, (List.append_nil _).symm, by simpa using howned,
      fun _ hstream => absurd hstream List.not_mem_nil⟩
  | file =>
    simp only [hkind, bind_ok_iff, orErr_ok_iff, pure_eq_ok, Except.ok.injEq, Prod.mk.injEq] at h
    obtain ⟨stream, hstream, ⟨mapped, outStream⟩, hmap, rfl, rfl⟩ := h
    obtain ⟨rfl, hlen, hcase⟩ := mapStream_ok howned (hfresh stream hstream) hmap
    have hbytes : (placedStream graph geometry stream).mappedBytes = stream.mappedBytes := by
      unfold placedStream
      split_ifs <;> rfl
    have hid : (placedStream graph geometry stream).stream = stream.stream := by
      unfold placedStream
      split_ifs <;> rfl
    have hstreams : payloadStreams [(object, ({ layout with
        kind := .file, stream := some (placedStream graph geometry stream) } : ObjectLayout))] =
          if stream.mappedBytes = 0 then [] else [placedStream graph geometry stream] := by
      unfold payloadStreams
      simp only [List.filterMap_cons, List.filterMap_nil, Option.filter_some, hbytes]
      split_ifs <;> simp_all
    refine ⟨by rw [hstream]; rfl, hlen, ?_⟩
    rw [hstreams]
    split_ifs at hcase ⊢ with hempty
    · obtain ⟨hreused, hnext⟩ := hcase
      exact ⟨by rw [hreused, List.map_nil, List.append_nil], by simpa using hnext,
        fun _ hstream => absurd hstream List.not_mem_nil⟩
    · obtain ⟨hmapped, hreused, hnext⟩ := hcase
      refine ⟨hreused, by rwa [List.flatMap_singleton], fun other hother => ?_⟩
      rw [List.mem_singleton.1 hother]
      exact ⟨by rw [hid]; exact hmapped.extents, by rw [hid, hbytes]; exact hmapped.total⟩

/-- The layouts with their streams in their place, and the clusters handed out for them. -/
theorem mapLayouts_ok {layouts out : Layouts} {mapping result : PayloadMapping}
    (howned : Owned mapping.occupied clusters)
    (hfresh : ∀ item ∈ layouts, ∀ stream ∈ item.2.stream, stream.clusters = [])
    (h : mapLayouts graph geometry .final mapping layouts = .ok (result, out)) :
    out = layouts.map (fun item => (item.1, placedLayout graph geometry item.2)) ∧
      result.occupied.length = mapping.occupied.length ∧
      result.reused = mapping.reused ++ (payloadStreams out).map reusedPayload ∧
      Owned result.occupied (clusters ++ (payloadStreams out).flatMap StreamLayout.clusters) ∧
      ∀ stream ∈ payloadStreams out, Mapped graph geometry stream := by
  induction layouts generalizing mapping clusters out with
  | nil =>
    rw [mapLayouts, pure_eq_ok, Except.ok.injEq, Prod.mk.injEq] at h
    obtain ⟨rfl, rfl⟩ := h
    exact ⟨rfl, rfl, (List.append_nil _).symm, by simpa [payloadStreams] using howned,
      fun _ hstream => absurd hstream List.not_mem_nil⟩
  | cons item rest ih =>
    obtain ⟨object, layout⟩ := item
    obtain ⟨hfirst, hrest⟩ := List.forall_mem_cons.1 hfresh
    simp only [mapLayouts, bind_ok_iff, pure_eq_ok, Except.ok.injEq, Prod.mk.injEq] at h
    obtain ⟨⟨next, placed⟩, hlayout, ⟨final, more⟩, hmore, rfl, rfl⟩ := h
    obtain ⟨rfl, hlen, hreused, hnext, hall⟩ :=
      @mapLayout_ok graph geometry clusters object _ _ _ _ howned hfirst hlayout
    obtain ⟨rfl, hlen', hreused', hresult, hall'⟩ := ih hnext hrest hmore
    refine ⟨rfl, hlen'.trans hlen, ?_, ?_, fun stream hstream => ?_⟩
    · rw [hreused', hreused, List.append_assoc, ← List.map_append, ← payloadStreams_cons]
    · rwa [payloadStreams_cons, List.flatMap_append, ← List.append_assoc]
    · rw [payloadStreams_cons] at hstream
      rcases List.mem_append.1 hstream with hstream | hstream
      · exact hall stream hstream
      · exact hall' stream hstream

/-- **The payload stays where it is.** Every stream gets the clusters that its extents cover, and no
cluster is handed out twice. -/
theorem mapPayloads_ok {layouts out : Layouts} {occupied : List Bool} {limits : ExfatFormatLimits}
    {mapping : PayloadMapping} (howned : Owned occupied clusters)
    (hfresh : ∀ item ∈ layouts, ∀ stream ∈ item.2.stream, stream.clusters = [])
    (h : mapPayloads graph geometry layouts occupied limits .final = .ok (mapping, out)) :
    out = layouts.map (fun item => (item.1, placedLayout graph geometry item.2)) ∧
      mapping.occupied.length = occupied.length ∧
      mapping.reused.Perm ((payloadStreams out).map reusedPayload) ∧
      Owned mapping.occupied (clusters ++
        (graph.extents.extents.filter fun extent => extent.kind ≠ .fileData).flatMap
          (extentClusters geometry) ++ (payloadStreams out).flatMap StreamLayout.clusters) ∧
      (∀ stream ∈ payloadStreams out, Mapped graph geometry stream) ∧
      ∀ extent ∈ graph.extents.extents, extent.kind ≠ .fileData →
        extent.kind = .directoryData ∧ ∃ range, InHeap geometry extent range := by
  simp only [mapPayloads, bind_ok_iff, pure_eq_ok, Except.ok.injEq, Prod.mk.injEq] at h
  obtain ⟨⟨next, source⟩, hdirectories, ⟨mapped, placed⟩, hlayouts, _, -, rfl, rfl⟩ := h
  obtain ⟨hnext, hlen, hextents⟩ := mapDirectoryExtents_ok howned hdirectories
  obtain ⟨hout, hlen', hreused, hresult, hall⟩ := mapLayouts_ok hnext hfresh hlayouts
  refine ⟨hout, hlen'.trans hlen, ?_, hresult, hall, fun extent hextent hkind =>
    hextents extent (List.mem_filter.2 ⟨hextent, by simpa using hkind⟩)⟩
  refine (sortByKey_perm _ _).trans ?_
  rw [hreused, List.nil_append]

end Map

end Serialize

end Exfat

end StarConverter
