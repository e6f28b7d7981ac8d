import StarConverter.Exfat.FormatSafety
import StarConverter.Geometry.Relocate

/-!
# Drafts of an exFAT volume

Files that lie where the new metadata goes have to move first. A draft fixes where the metadata goes
without placing the files; when these have moved, the volume is made over the relocated graph with the
metadata where the draft put it (`finalizeExfatDestination`). What a draft fixes lies in the heap
(`pinnedFromDraft_ok`), so a finalized volume is a volume over the relocated graph like any other
(`finalizeExfatDestination_ok`).
-/

namespace StarConverter

open Base

instance : DecidableEq ObjectGraph := fun a b =>
  decidable_of_iff (a.root = b.root ∧ a.objects = b.objects ∧ a.entries = b.entries ∧
      a.extents = b.extents)
    ⟨fun ⟨h1, h2, h3, h4⟩ => ObjectGraph.ext_fields h1 h2 h3 h4, fun h => by subst h; simp⟩

namespace Exfat

inductive ExfatPinnedMetadataKind
  | allocationBitmap
  | upcaseTable
  | directory (object : ObjectId)
  deriving DecidableEq

/-- A contiguous allocation of the new metadata. -/
structure ExfatPinnedMetadataAllocation where
  kind : ExfatPinnedMetadataKind
  firstCluster : ℕ
  clusterCount : ℕ
  deriving DecidableEq

structure ExfatDestinationDraft where
  geometry : ExfatDestinationGeometry
  reservations : List Geometry.DestinationReservation
  sourceAllocations : List Geometry.SourceAllocation
  metadataAllocations : List ExfatPinnedMetadataAllocation
  sourceGraph : ObjectGraph
  objectMetadata : List ExfatObjectMetadata
  profile : ExfatVolumeProfile
  options : ExfatSerializeOptions
  limits : ExfatFormatLimits
  root : ObjectId
  objects : List ObjectRecord
  entries : List NamespaceEntry

/-- The bytes in which all relocated clusters must lie. -/
def ExfatDestinationDraft.clusterHeapRange (draft : ExfatDestinationDraft) : ByteRange :=
  ⟨Serialize.heapStart draft.geometry, Serialize.heapBytes draft.geometry⟩

namespace Serialize

/-! ## Drafting -/

def pinnedAllocations (pinned : PinnedExfatLayout) : List ExfatPinnedMetadataAllocation :=
  [⟨.allocationBitmap, pinned.bitmap.firstCluster, pinned.bitmap.clusterCount⟩,
    ⟨.upcaseTable, pinned.upcase.firstCluster, pinned.upcase.clusterCount⟩] ++
      pinned.directories.map fun item =>
        ⟨.directory item.1, item.2.firstCluster, item.2.clusterCount⟩

/-- Fixes where the metadata goes. -/
def draftExfatDestination (graph : ObjectGraph) (metadata : List ExfatObjectMetadata)
    (profile : ExfatVolumeProfile) (options : ExfatSerializeOptions) (limits : ExfatFormatLimits) :
    Formatted ExfatDestinationDraft := do
  let output ← serializeExfatDestinationImpl graph metadata profile options limits .relocationDraft
    none
  pure ⟨output.plan.geometry, output.plan.reservations, output.plan.sourceAllocations,
    pinnedAllocations output.pinned, graph, metadata, profile, options, limits, graph.root,
    graph.objects, graph.entries⟩

/-! ## Finalizing -/

/-- A stream that was materialized has become an ordinary one; others have not changed. -/
def sameStream (materialized : List StreamId) (source target : ObjectStream) : Bool :=
  decide (source.id = target.id ∧ source.name = target.name ∧
    source.logicalBytes = target.logicalBytes ∧ source.initializedBytes = target.initializedBytes) &&
  if source.id ∈ materialized then
    decide (source.flags.sparse = target.flags.sparse ∧
      source.flags.encrypted = target.flags.encrypted ∧ target.flags.compressed = false ∧
      target.flags.compressionBlockBytes = 0 ∧ target.storage = .extents ∧
      target.mappedBytes = target.allocatedBytes)
  else decide (source = target)

def sameObject (materialized : List StreamId) (source target : ObjectRecord) : Bool :=
  decide (source.id = target.id ∧ source.kind = target.kind ∧ source.linkCount = target.linkCount ∧
    source.semantics = target.semantics ∧ source.streams.length = target.streams.length) &&
  (source.streams.zip target.streams).all fun pair => sameStream materialized pair.1 pair.2

/-- Relocation has changed nothing but where the data lies. -/
def draftGraphIdentityHolds (draft : ExfatDestinationDraft) (relocated : ObjectGraph)
    (layout : Geometry.LayoutPlan) : Bool :=
  decide (relocated.root = draft.root ∧ relocated.entries = draft.entries ∧
    relocated.extents.volumeBytes = draft.geometry.volumeBytes ∧
    relocated.objects.length = draft.objects.length) &&
  (draft.objects.zip relocated.objects).all fun pair =>
    sameObject (layout.materializations.map Geometry.Materialization.stream) pair.1 pair.2

/-- The allocations read back so far. -/
structure PinnedSoFar where
  bitmap : Option Allocation
  upcase : Option Allocation
  directories : List (ObjectId × Allocation)
  deriving DecidableEq

def pinAllocation (found : PinnedSoFar) (item : ExfatPinnedMetadataAllocation) :
    Formatted PinnedSoFar :=
  match item.kind with
  | .allocationBitmap => do
    ensure (found.bitmap = none) .destinationLayoutChanged
    pure { found with bitmap := some ⟨item.firstCluster, item.clusterCount⟩ }
  | .upcaseTable => do
    ensure (found.upcase = none) .destinationLayoutChanged
    pure { found with upcase := some ⟨item.firstCluster, item.clusterCount⟩ }
  | .directory object =>
    pure { found with
      directories := found.directories ++ [(object, ⟨item.firstCluster, item.clusterCount⟩)] }

def pinAllocations : PinnedSoFar → List ExfatPinnedMetadataAllocation → Formatted PinnedSoFar
  | found, [] => pure found
  | found, item :: rest => do
    let found ← pinAllocation found item
    pinAllocations found rest

def pinnedFromDraft (draft : ExfatDestinationDraft) : Formatted PinnedExfatLayout := do
  let found ← pinAllocations ⟨none, none, []⟩ draft.metadataAllocations
  let bitmap ← orErr found.bitmap .destinationLayoutChanged
  let upcase ← orErr found.upcase .destinationLayoutChanged
  pure ⟨draft.geometry, bitmap, upcase, found.directories⟩

/-- Makes the volume over the relocated graph, with the metadata where the draft put it. -/
def finalizeExfatDestination (draft : ExfatDestinationDraft)
    (relocation : Geometry.SealedRelocationPlan) : Formatted ExfatSerializationPlan := do
  ensure (relocation.sourceGraph = draft.sourceGraph) .graphSubstitution
  ensure (draftGraphIdentityHolds draft relocation.targetGraph relocation.layout = true)
    .graphSubstitution
  let pinned ← pinnedFromDraft draft
  let output ← serializeExfatDestinationImpl relocation.targetGraph draft.objectMetadata
    draft.profile draft.options draft.limits .final (some pinned)
  ensure (output.pinned = pinned ∧ output.plan.geometry = draft.geometry ∧
    output.plan.reservations = draft.reservations) .destinationLayoutChanged
  pure { output.plan with sourceAllocations := draft.sourceAllocations }

/-! ## What a draft fixes -/

section Drafted

variable {graph : ObjectGraph} {metadata : List ExfatObjectMetadata} {profile : ExfatVolumeProfile}
  {options : ExfatSerializeOptions} {limits : ExfatFormatLimits}

/-- A metadata allocation that is placed afresh lies in the heap. -/
theorem placeAllocation_low {occupied result : List Bool} {count : ℕ} {allocation : Allocation}
    (h : placeAllocation none occupied count = .ok (result, allocation)) :
    2 ≤ allocation.firstCluster := by
  simp only [placeAllocation, allocateContiguous, bind_ok_iff, pure_eq_ok, Except.ok.injEq,
    Prod.mk.injEq] at h
  obtain ⟨_, -, _, -, _, -, -, rfl⟩ := h
  exact Nat.le_add_left _ _

/-- The directories that have been placed lie in the heap. -/
def DirectoriesLow (layouts : Layouts) (placed : List ObjectId) : Prop :=
  ∀ object ∈ placed, ∀ layout, layouts.get? object = some layout →
    ∀ cluster ∈ layout.directoryClusters, 2 ≤ cluster

theorem placeDirectory_low {root object : ObjectId} {hasVolumeLabel : Bool}
    {clusterBytes maxDirectoryBytes : ℕ} {state out : DirectoryState} {placed : List ObjectId}
    (hlow : DirectoriesLow state.layouts placed)
    (h : placeDirectory root hasVolumeLabel clusterBytes maxDirectoryBytes none state object =
      .ok out) : DirectoriesLow out.layouts (object :: placed) := by
  simp only [placeDirectory, expandAllocation, bind_ok_iff, pure_eq_ok, Except.ok.injEq] at h
  obtain ⟨bytes, -, _, -, count, -, ⟨occupied, allocation⟩, hplace, _, -, _, ⟨_, -, rfl⟩, rfl⟩ := h
  intro other hother layout hlayout cluster hcluster
  dsimp only at hlayout
  rw [Layouts.modify_eq_map, Layouts.get?_map fun id layout => if id = object then
    { layout with directoryClusters := List.range' allocation.firstCluster allocation.clusterCount,
                  directoryBytes := bytes } else layout, Option.map_eq_some_iff] at hlayout
  obtain ⟨before, hbefore, rfl⟩ := hlayout
  split_ifs at hcluster with heq
  · exact (placeAllocation_low hplace).trans (List.mem_range'_1.1 hcluster).1
  · exact hlow other ((List.mem_cons.1 hother).resolve_left heq) before hbefore cluster hcluster

theorem placeDirectories_low {root : ObjectId} {hasVolumeLabel : Bool}
    {clusterBytes maxDirectoryBytes index : ℕ} {state out : DirectoryState}
    {placed order : List ObjectId} (hlow : DirectoriesLow state.layouts placed)
    (h : placeDirectories root hasVolumeLabel clusterBytes maxDirectoryBytes none index state order =
      .ok out) : DirectoriesLow out.layouts (order ++ placed) := by
  induction order generalizing index state placed with
  | nil =>
    rw [placeDirectories, pure_eq_ok, Except.ok.injEq] at h
    rwa [← h]
  | cons object rest ih =>
    simp only [placeDirectories, Option.bind_none, bind_ok_iff] at h
    obtain ⟨next, hnext, h⟩ := h
    intro other hother
    refine ih (placeDirectory_low hlow hnext) h other ?_
    simp only [List.cons_append, List.mem_cons, List.mem_append] at hother ⊢
    tauto

theorem directoryAllocations_low {layouts : Layouts} {order : List ObjectId}
    {allocations : List (ObjectId × Allocation)} (hlow : DirectoriesLow layouts order)
    (h : directoryAllocations layouts order = .ok allocations) :
    ∀ item ∈ allocations, 2 ≤ item.2.firstCluster := by
  induction order generalizing allocations with
  | nil =>
    rw [directoryAllocations, pure_eq_ok, Except.ok.injEq] at h
    rw [← h]
    exact fun _ hitem => absurd hitem List.not_mem_nil
  | cons object rest ih =>
    simp only [directoryAllocations, Layouts.index, allocationFromClusters, bind_ok_iff, orErr_ok_iff,
      pure_eq_ok, Except.ok.injEq] at h
    obtain ⟨layout, hlayout, _, ⟨first, hfirst, _, -, _, -, rfl⟩, more, hmore, rfl⟩ := h
    refine List.forall_mem_cons.2 ⟨?_, ih (fun other hother =>
      hlow other (List.mem_cons_of_mem _ hother)) hmore⟩
    exact hlow object List.mem_cons_self layout hlayout first (List.mem_of_mem_head? hfirst)

/-- What is placed afresh lies in the heap. -/
theorem serializeExfatDestinationImpl_inHeap {payloadMode : PayloadPlacementMode}
    {output : ExfatSerializationOutput}
    (h : serializeExfatDestinationImpl graph metadata profile options limits payloadMode none =
      .ok output) : PinnedExfatLayout.InHeap output.pinned := by
  simp only [serializeExfatDestinationImpl, placeVolume, Option.map_none, bind_ok_iff, mapError_ok_iff,
    orErr_ok_iff, pure_eq_ok, Except.ok.injEq] at h
  obtain ⟨_, ⟨_, -, _, -, _, -, _, -, _, -, _, -, _, -, _, -, _, -, ⟨_, _⟩, hbitmap, ⟨_, _⟩, hupcase,
    order, -, _, -, state, hstate, _, -, _, -, rfl⟩, writes, -, _, -, _, -, _, -, _, -, allocations,
    hallocations, rfl⟩ := h
  have hlow := placeDirectories_low (fun _ hobject => absurd hobject List.not_mem_nil) hstate
  rw [List.append_nil] at hlow
  exact ⟨placeAllocation_low hbitmap, placeAllocation_low hupcase,
    directoryAllocations_low hlow hallocations⟩

theorem pinAllocations_directories {found : PinnedSoFar} {directories : List (ObjectId × Allocation)} :
    pinAllocations found (directories.map fun item =>
      ⟨.directory item.1, item.2.firstCluster, item.2.clusterCount⟩) =
      .ok { found with directories := found.directories ++ directories } := by
  induction directories generalizing found with
  | nil => rw [List.append_nil]; rfl
  | cons item rest ih =>
    rw [List.map_cons, pinAllocations, pinAllocation]
    dsimp only
    rw [pure_eq_ok, ok_bind, ih, List.append_assoc]
    rfl

/-- A draft keeps what has been fixed. -/
theorem pinnedFromDraft_ok {drafted : ExfatDestinationDraft} {source : List Geometry.SourceAllocation}
    {pinned : PinnedExfatLayout}
    (hdraft : draftExfatDestination graph metadata profile options limits = .ok drafted)
    (h : pinnedFromDraft { drafted with sourceAllocations := source } = .ok pinned) :
    PinnedExfatLayout.InHeap pinned := by
  simp only [draftExfatDestination, bind_ok_iff, pure_eq_ok, Except.ok.injEq] at hdraft
  obtain ⟨output, houtput, rfl⟩ := hdraft
  have hfound : pinAllocations ⟨none, none, []⟩ (pinnedAllocations output.pinned) =
      .ok ⟨some output.pinned.bitmap, some output.pinned.upcase, output.pinned.directories⟩ := by
    exact @pinAllocations_directories ⟨some output.pinned.bitmap, some output.pinned.upcase, []⟩
      output.pinned.directories
  simp only [pinnedFromDraft, hfound, ok_bind, orErr_some, pure_eq_ok, Except.ok.injEq] at h
  have hin := serializeExfatDestinationImpl_inHeap houtput
  rw [← h]
  exact ⟨hin.bitmap, hin.upcase, hin.directories⟩

/-- A finalized volume is a volume over the relocated graph. -/
theorem finalizeExfatDestination_ok {drafted : ExfatDestinationDraft}
    {source : List Geometry.SourceAllocation} {relocation : Geometry.SealedRelocationPlan}
    {plan : ExfatSerializationPlan}
    (hdraft : draftExfatDestination graph metadata profile options limits = .ok drafted)
    (h : finalizeExfatDestination { drafted with sourceAllocations := source } relocation = .ok plan) :
    (∃ geometry allocations placement marks parts, FormatRun relocation.targetGraph metadata profile
        options plan geometry allocations placement marks parts) ∧
      relocation.sourceGraph = graph ∧ plan.geometry = drafted.geometry ∧
      plan.reservations = drafted.reservations := by
  simp only [finalizeExfatDestination, bind_ok_iff, ensure_ok_iff, pure_eq_ok, Except.ok.injEq] at h
  obtain ⟨_, hsource, _, -, pinned, hpinned, output, houtput, _, ⟨-, hgeometry, hreservations⟩, rfl⟩ := h
  have hin := pinnedFromDraft_ok hdraft hpinned
  simp only [draftExfatDestination, bind_ok_iff, pure_eq_ok, Except.ok.injEq] at hdraft
  obtain ⟨drafted, -, rfl⟩ := hdraft
  obtain ⟨geometry, allocations, placement, marks, parts, hrun, -⟩ := serializeExfatDestinationImpl_ok
    (fun layout hlayout => by rwa [← Option.mem_some_iff.1 hlayout]) houtput
  exact ⟨⟨geometry, allocations, placement, marks, parts, hrun.chosen, hrun.volume, hrun.placed,
    hrun.built, hrun.geometry_eq, hrun.image, hrun.writes⟩, hsource, hgeometry, hreservations⟩

end Drafted

end Serialize

end Exfat

end StarConverter
