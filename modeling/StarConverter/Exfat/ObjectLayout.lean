import Mathlib.Data.List.Lex
import StarConverter.Exfat.DestinationGeometry
import StarConverter.Exfat.FileSet
import StarConverter.Exfat.Upcase
import StarConverter.Namespace
import StarConverter.Overlay

/-!
# Object layouts

What the exFAT formatter keeps of each object of a graph: its name and metadata, the children of a
directory in the order of their names, and the stream of a file. Only a subset of the graphs can be
formatted; `LayoutsFor` says what the layouts of an accepted graph hold (`buildObjectLayouts_ok`).
-/

namespace StarConverter

open Base

namespace Exfat

structure ExfatPreservationEvidence where
  unusedDirectoryEntries : ℕ
  benignPrimarySets : ℕ
  benignSecondaryEntries : ℕ
  nonzeroNamePaddingSets : ℕ
  nonzeroVolumeLabelPadding : Bool
  deriving DecidableEq

/-- Volume metadata which the object graph does not carry. -/
structure ExfatVolumeProfile where
  volumeLabel : Option (List UInt16)
  encodedUpcaseTable : Bytes
  upcaseChecksum : ℕ
  sourcePreservation : ExfatPreservationEvidence
  allocatedBadClusters : ℕ
  badClusterRanges : List ByteRange
  staleBootSectors : List ByteRange
  deriving DecidableEq

/-- All limits of the formatter; the geometry needs only the number of clusters. -/
structure ExfatFormatLimits extends ExfatSerializeLimits where
  maxObjects : ℕ
  maxEntries : ℕ
  maxExtents : ℕ
  maxDirectoryBytes : ℕ
  maxMetadataBytes : ℕ
  overlay : OverlayLimits
  deriving DecidableEq

/-- The failures of the formatter. Those of the geometry and the boot regions keep their own type;
`aborted` is no error the source returns: it stands for an access that aborts. -/
inductive ExfatFormatError
  | serialize (error : ExfatSerializeError)
  | invalidLimit (field : String)
  | missingMetadata (object : ObjectId)
  | duplicateMetadata (object : ObjectId)
  | rootMetadata (object : ObjectId)
  | unknownMetadata (object : ObjectId)
  | unsupportedObject (object : ObjectId) (reason : String)
  | invalidAttributes (object : ObjectId)
  | invalidTimestamp (object : ObjectId)
  | invalidVolumeLabel (reason : String)
  | invalidUpcaseTable
  | unsupportedPreservationEvidence (reason : String)
  | invalidName (object : ObjectId) (reason : String)
  | caseInsensitiveCollision (parent : ObjectId)
  | payloadOutsideHeap (stream : StreamId)
  | payloadNotClusterAligned (stream : StreamId)
  | badClusterOverlapsDestinationMetadata (offset : ℕ)
  | metadataSpaceExhausted (clusters : ℕ)
  | graphSubstitution
  | destinationLayoutChanged
  | overlay (error : OverlayError)
  | aborted
  deriving DecidableEq

abbrev Formatted (α : Type) := Except ExfatFormatError α

namespace ExfatFormatError

abbrev limitExceeded (field : String) (actual maximum : ℕ) : ExfatFormatError :=
  .serialize (.limitExceeded field actual maximum)

abbrev arithmeticOverflow (operation : String) : ExfatFormatError :=
  .serialize (.arithmeticOverflow operation)

abbrev invalidGeometry (reason : String) : ExfatFormatError := .serialize (.invalidGeometry reason)

end ExfatFormatError

/-! ## Layouts -/

structure StreamLayout where
  stream : StreamId
  logicalBytes : ℕ
  initializedBytes : ℕ
  mappedBytes : ℕ
  clusters : List ℕ
  noFatChain : Bool
  deriving DecidableEq

structure ObjectLayout where
  kind : ObjectKind
  metadata : Option ExfatObjectMetadata
  name : Option (List UInt16)
  children : List ObjectId
  stream : Option StreamLayout
  directoryClusters : List ℕ
  directoryBytes : ℕ
  deriving DecidableEq

/-- The map of the layouts, in the order of its keys. -/
abbrev Layouts := List (ObjectId × ObjectLayout)

namespace Layouts

def get? (layouts : Layouts) (object : ObjectId) : Option ObjectLayout :=
  (layouts.find? fun entry => entry.1 = object).map Prod.snd

/-- `layouts[&object]`, which aborts when there is no such layout. -/
def index (layouts : Layouts) (object : ObjectId) : Formatted ObjectLayout :=
  orErr (layouts.get? object) .aborted

/-- `get_mut` and an assignment. -/
def modify (layouts : Layouts) (object : ObjectId) (f : ObjectLayout → ObjectLayout) : Layouts :=
  layouts.map fun entry => if entry.1 = object then (entry.1, f entry.2) else entry

end Layouts

inductive PayloadPlacementMode
  | final
  | relocationDraft
  deriving DecidableEq

/-! ## The checks of the inputs -/

namespace Serialize

def validateLimits (limits : ExfatFormatLimits) : Formatted Unit :=
  checkAll (fun field => ensure (field.2 ≠ 0) (.invalidLimit field.1))
    [("max_objects", limits.maxObjects), ("max_entries", limits.maxEntries),
      ("max_extents", limits.maxExtents), ("max_clusters", limits.maxClusters),
      ("max_directory_bytes", limits.maxDirectoryBytes),
      ("max_metadata_bytes", limits.maxMetadataBytes)]

def validateVolumeLabel (label : List UInt16) : Formatted Unit := do
  ensure (label.length ≤ 11) (.invalidVolumeLabel "more than 11 UTF-16 code units")
  ensure (label.any isForbiddenUnit = false)
    (.invalidVolumeLabel "contains an exFAT-forbidden character")
  ensure (decodesUtf16 label = true)
    (.invalidVolumeLabel "contains unpaired UTF-16 surrogate code units")

def validateVolumeProfile (profile : ExfatVolumeProfile) : Formatted Unit := do
  let evidence := profile.sourcePreservation
  ensure (evidence.unusedDirectoryEntries = 0)
    (.unsupportedPreservationEvidence "inactive nonzero directory entries are present")
  ensure (¬ (evidence.benignPrimarySets ≠ 0 ∨ evidence.benignSecondaryEntries ≠ 0))
    (.unsupportedPreservationEvidence "benign/vendor directory entries are present")
  ensure (¬ (evidence.nonzeroNamePaddingSets ≠ 0 ∨ evidence.nonzeroVolumeLabelPadding = true))
    (.unsupportedPreservationEvidence
      "nonzero recommended filename or volume-label padding is present")
  ensure (profile.allocatedBadClusters = profile.badClusterRanges.length)
    (.unsupportedPreservationEvidence "allocated bad-cluster markings are present")
  match profile.volumeLabel with
  | some label => validateVolumeLabel label
  | none => pure ()

/-- The directory bit of the file attributes. -/
def directoryAttribute : ℕ := 0x10

def validFileAttributes : ℕ := 0x37

def validateMetadata (object : ObjectId) (kind : ObjectKind) (item : ExfatObjectMetadata) :
    Formatted Unit := do
  ensure (item.fileAttributes &&& (0xFFFF - validFileAttributes) = 0 ∧
      (item.fileAttributes &&& directoryAttribute ≠ 0 ↔ kind = .directory))
    (.invalidAttributes object)
  ensure (validTimestamps item.timestamps = true) (.invalidTimestamp object)

def validateName (name : List UInt16) (object : ObjectId) : Formatted Unit := do
  ensure (¬ (name = [] ∨ maxFileNameCodeUnits < name.length))
    (.invalidName object "length is outside 1..=255 UTF-16 code units")
  ensure (¬ (name = [0x2E] ∨ name = [0x2E, 0x2E])) (.invalidName object "dot names are reserved")
  ensure (name.any isForbiddenUnit = false) (.invalidName object "contains a forbidden code unit")
  ensure (decodesUtf16 name = true) (.invalidName object "contains unpaired UTF-16 surrogates")

/-- Whether a draft takes the storage of a non-empty stream. -/
def validateDraftStorage (object : ObjectId) (stream : ObjectStream) : Formatted Unit :=
  match stream.storage with
  | .resident bytes =>
    ensure (bytes.length = stream.logicalBytes ∧ stream.allocatedBytes = 0 ∧
        stream.mappedBytes = stream.logicalBytes)
      (.unsupportedObject object "resident payload length does not match stream sizes")
  | .extents => pure ()

def validateStreamStorage (object : ObjectId) (stream : ObjectStream) (clusterBytes : ℕ)
    (payloadMode : PayloadPlacementMode) : Formatted Unit :=
  if stream.logicalBytes = 0 then
    ensure (stream.storage = .resident [])
      (.unsupportedObject object "empty files must use empty resident storage")
  else if payloadMode = .relocationDraft then validateDraftStorage object stream
  else
    ensure (stream.storage = .extents ∧ stream.mappedBytes % clusterBytes = 0 ∧
        stream.allocatedBytes = stream.mappedBytes)
      (.unsupportedObject object
        "non-empty files require fully physical, whole-cluster extent storage")

def validateFileStream (object : ObjectId) (streams : List ObjectStream)
    (geometry : ExfatDestinationGeometry) (payloadMode : PayloadPlacementMode) :
    Formatted StreamLayout :=
  match streams with
  | [] => pure ⟨object, 0, 0, 0, [], false⟩
  | stream :: more => do
    ensure (more = [] ∧ stream.name = none)
      (.unsupportedObject object "named or multiple data streams are unsupported")
    ensure (¬ (stream.flags.sparse = true ∨ stream.flags.compressed = true ∨
        stream.flags.encrypted = true))
      (.unsupportedObject object "sparse, compressed, or encrypted data cannot be represented")
    validateStreamStorage object stream geometry.bytesPerCluster payloadMode
    pure ⟨stream.id, stream.logicalBytes, stream.initializedBytes, stream.mappedBytes, [], false⟩

def validateDirectoryStreams (object : ObjectId) (streams : List ObjectStream)
    (graph : ObjectGraph) : Formatted Unit :=
  match streams with
  | [] => pure ()
  | stream :: more =>
    ensure (more = [] ∧ stream.name = none ∧ stream.flags = ⟨false, false, false, 0⟩ ∧
        stream.storage = .extents ∧
        ∀ extent ∈ graph.extents.extents, extent.stream = stream.id → extent.kind = .directoryData)
      (.unsupportedObject object "directory storage is not a single ordinary metadata stream")

/-! ## Building the layouts -/

/-- The metadata records, at most one for each object that is not the root. -/
def indexMetadata (graph : ObjectGraph) :
    List ExfatObjectMetadata → List ExfatObjectMetadata → Formatted (List ExfatObjectMetadata)
  | exact, [] => pure exact
  | exact, item :: rest => do
    ensure (item.object ≠ graph.root) (.rootMetadata item.object)
    ensure (item.object ∈ graph.objects.map ObjectRecord.id) (.unknownMetadata item.object)
    ensure (item.object ∉ exact.map ExfatObjectMetadata.object) (.duplicateMetadata item.object)
    indexMetadata graph (exact ++ [item]) rest

/-- The checked metadata of an object; the root has none. -/
def objectMetadata (graph : ObjectGraph) (exact : List ExfatObjectMetadata)
    (object : ObjectRecord) : Formatted (Option ExfatObjectMetadata) :=
  if object.id = graph.root then pure none
  else do
    let item ← orErr (exact.find? fun item => item.object = object.id) (.missingMetadata object.id)
    validateMetadata object.id object.kind item
    pure (some item)

/-- The stream of a file; a directory has none. -/
def objectStream (graph : ObjectGraph) (geometry : ExfatDestinationGeometry)
    (payloadMode : PayloadPlacementMode) (object : ObjectRecord) : Formatted (Option StreamLayout) :=
  match object.kind with
  | .directory => do
    validateDirectoryStreams object.id object.streams graph
    pure none
  | .file => do
    let stream ← validateFileStream object.id object.streams geometry payloadMode
    pure (some stream)

def objectLayout (graph : ObjectGraph) (exact : List ExfatObjectMetadata)
    (geometry : ExfatDestinationGeometry) (payloadMode : PayloadPlacementMode)
    (object : ObjectRecord) : Formatted ObjectLayout := do
  ensure (¬ (object.semantics.hasSecurityDescriptor = true ∨
      object.semantics.isReparsePoint = true ∨ object.id ≠ graph.root ∧ object.linkCount ≠ 1))
    (.unsupportedObject object.id
      "security descriptors, reparse points, or hard links are not in the supported subset")
  let item ← objectMetadata graph exact object
  let stream ← objectStream graph geometry payloadMode object
  pure ⟨object.kind, item, none, [], stream, [], 0⟩

def objectLayouts (graph : ObjectGraph) (exact : List ExfatObjectMetadata)
    (geometry : ExfatDestinationGeometry) (payloadMode : PayloadPlacementMode) :
    List ObjectRecord → Formatted Layouts
  | [] => pure []
  | object :: rest => do
    let layout ← objectLayout graph exact geometry payloadMode object
    let layouts ← objectLayouts graph exact geometry payloadMode rest
    pure ((object.id, layout) :: layouts)

/-- Gives every target its name and every parent its children. -/
def linkEntries : Layouts → List NamespaceEntry → Formatted Layouts
  | layouts, [] => pure layouts
  | layouts, entry :: rest => do
    validateName entry.name entry.target
    let _ ← orErr (layouts.get? entry.target)
      (.unsupportedObject entry.target "namespace target is absent")
    let layouts := layouts.modify entry.target fun layout => { layout with name := some entry.name }
    let _ ← orErr (layouts.get? entry.parent)
      (.unsupportedObject entry.parent "namespace parent is absent")
    linkEntries (layouts.modify entry.parent fun layout =>
      { layout with children := layout.children ++ [entry.target] }) rest

/-- The key of `layouts_name_order`: the name of the first entry, then the identity. -/
def nameOrder (graph : ObjectGraph) (object : ObjectId) : List ℕ ×ₗ ℕ :=
  toLex ((((graph.entries.find? fun entry => entry.target = object).map
    NamespaceEntry.name).getD []).map UInt16.toNat, object)

/-- The names of the children fold to different names. -/
def checkFolded (layouts : Layouts) (upcase : UpcaseTable) (parent : ObjectId) :
    List (List UInt16) → List ObjectId → Formatted Unit
  | _, [] => pure ()
  | folded, child :: rest => do
    let name ← orErr ((layouts.get? child).bind ObjectLayout.name)
      (.invalidName child "missing namespace name")
    let key := name.map upcase.map
    ensure (key ∉ folded) (.caseInsensitiveCollision parent)
    checkFolded layouts upcase parent (key :: folded) rest

/-- Sorts the children of each directory. -/
def sortChildren (graph : ObjectGraph) (upcase : UpcaseTable) :
    List ObjectId → Layouts → Formatted Layouts
  | [], layouts => pure layouts
  | parent :: rest, layouts => do
    let layout ← layouts.index parent
    let children := sortByKey (nameOrder graph) layout.children
    checkFolded layouts upcase parent [] children
    sortChildren graph upcase rest
      (layouts.modify parent fun layout => { layout with children := children })

def buildObjectLayouts (graph : ObjectGraph) (metadata : List ExfatObjectMetadata)
    (geometry : ExfatDestinationGeometry) (upcase : UpcaseTable) (limits : ExfatFormatLimits)
    (payloadMode : PayloadPlacementMode) : Formatted Layouts := do
  ensure (graph.objects.length ≤ limits.maxObjects)
    (.limitExceeded "objects" graph.objects.length limits.maxObjects)
  ensure (graph.entries.length ≤ limits.maxEntries)
    (.limitExceeded "entries" graph.entries.length limits.maxEntries)
  ensure (graph.extents.extents.length ≤ limits.maxExtents)
    (.limitExceeded "extents" graph.extents.extents.length limits.maxExtents)
  let exact ← indexMetadata graph [] metadata
  let layouts ← objectLayouts graph exact geometry payloadMode graph.objects
  ensure (exact.length = graph.objects.length - 1)
    (.unsupportedObject graph.root "metadata cardinality does not match non-root objects")
  let layouts ← linkEntries (sortByKey Prod.fst layouts) graph.entries
  sortChildren graph upcase (layouts.map Prod.fst) layouts

end Serialize

/-! ## What the layouts hold -/

namespace Layouts

variable {layouts : Layouts} {object : ObjectId} {layout : ObjectLayout}

theorem get?_eq_some (hkeys : (layouts.map Prod.fst).Nodup) :
    layouts.get? object = some layout ↔ (object, layout) ∈ layouts := by
  unfold get?
  induction layouts with
  | nil => simp
  | cons entry rest ih =>
    obtain ⟨hfresh, hrest⟩ := List.nodup_cons.1 hkeys
    by_cases hentry : entry.1 = object
    · rw [List.find?_cons_of_pos (by simpa using hentry), Option.map_some, Option.some.injEq,
        List.mem_cons]
      constructor
      · rintro rfl
        exact .inl (by rw [← hentry])
      · rintro (heq | hmem)
        · rw [← heq]
        · exact absurd (List.mem_map.2 ⟨_, hmem, hentry.symm⟩) hfresh
    · rw [List.find?_cons_of_neg (by simpa using hentry), ih hrest, List.mem_cons]
      refine ⟨.inr, fun h => h.resolve_left fun heq => hentry ?_⟩
      rw [← heq]

theorem get?_map (f : ObjectId → ObjectLayout → ObjectLayout) :
    get? (layouts.map fun item => (item.1, f item.1 item.2)) object =
      (layouts.get? object).map (f object) := by
  unfold get?
  induction layouts with
  | nil => rfl
  | cons item rest ih =>
    rw [List.map_cons]
    by_cases hitem : item.1 = object
    · rw [List.find?_cons_of_pos (by simpa using hitem), List.find?_cons_of_pos (by simpa using hitem),
        Option.map_some, Option.map_some, Option.map_some, hitem]
    · rw [List.find?_cons_of_neg (by simpa using hitem), List.find?_cons_of_neg (by simpa using hitem),
        ih]


theorem modify_eq_map (f : ObjectLayout → ObjectLayout) :
    layouts.modify object f =
      layouts.map fun item => (item.1, if item.1 = object then f item.2 else item.2) := by
  refine List.map_congr_left fun item _ => ?_
  split_ifs <;> rfl

theorem keys_map (f : ObjectId → ObjectLayout → ObjectLayout) :
    List.map Prod.fst (layouts.map fun item => (item.1, f item.1 item.2)) =
      layouts.map Prod.fst := by
  rw [List.map_map]
  rfl

end Layouts

namespace Serialize

/-- What the formatter keeps of an object, apart from where its data lies. -/
structure Described (graph : ObjectGraph) (metadata : List ExfatObjectMetadata)
    (object : ObjectRecord) (layout : ObjectLayout) : Prop where
  kind : layout.kind = object.kind
  root : object.id = graph.root → layout.metadata = none
  metadata : object.id ≠ graph.root → ∃ item ∈ metadata, item.object = object.id ∧
    layout.metadata = some item ∧ validateMetadata object.id object.kind item = .ok ()
  name : object.id ≠ graph.root → ∃ entry ∈ graph.entries, entry.target = object.id ∧
    layout.name = some entry.name
  children : layout.children.Perm
    ((graph.entries.filter fun entry => entry.parent = object.id).map NamespaceEntry.target)

/-- The layouts describe the objects of the graph. -/
structure LayoutsFor (graph : ObjectGraph) (metadata : List ExfatObjectMetadata)
    (layouts : Layouts) : Prop where
  keys : (layouts.map Prod.fst).Perm (graph.objects.map ObjectRecord.id)
  names : ∀ entry ∈ graph.entries, validateName entry.name entry.target = .ok ()
  described : ∀ object ∈ graph.objects, ∀ layout, (object.id, layout) ∈ layouts →
    Described graph metadata object layout

/-- The names of the children of each directory fold to different names. -/
def Folded (layouts : Layouts) (upcase : UpcaseTable) : Prop :=
  ∀ entry ∈ layouts, ∃ names : List (List UInt16), entry.2.children.map (fun child =>
    (layouts.get? child).bind ObjectLayout.name) = names.map some ∧
      (names.map fun name => name.map upcase.map).Nodup

/-- The stream of an object before its payload is placed. -/
def Unplaced (graph : ObjectGraph) (geometry : ExfatDestinationGeometry)
    (payloadMode : PayloadPlacementMode) (object : ObjectRecord) (layout : ObjectLayout) : Prop :=
  layout.directoryClusters = [] ∧
    match object.kind with
    | .directory => layout.stream = none ∧
        validateDirectoryStreams object.id object.streams graph = .ok ()
    | .file => ∃ stream, layout.stream = some stream ∧
        validateFileStream object.id object.streams geometry payloadMode = .ok stream

section Build

variable {graph : ObjectGraph} {geometry : ExfatDestinationGeometry}
  {payloadMode : PayloadPlacementMode}

theorem mem_indexMetadata {exact rest result : List ExfatObjectMetadata}
    (h : indexMetadata graph exact rest = .ok result) {item : ExfatObjectMetadata}
    (hitem : item ∈ result) : item ∈ exact ∨ item ∈ rest := by
  induction rest generalizing exact with
  | nil =>
    rw [indexMetadata, pure_eq_ok, Except.ok.injEq] at h
    exact .inl (h ▸ hitem)
  | cons first rest ih =>
    simp only [indexMetadata, bind_ok_iff] at h
    obtain ⟨_, -, _, -, _, -, h⟩ := h
    rcases ih h with hmem | hmem
    · rcases List.mem_append.1 hmem with hmem | hmem
      · exact .inl hmem
      · exact .inr (List.mem_cons.2 (.inl (List.mem_singleton.1 hmem)))
    · exact .inr (List.mem_cons_of_mem _ hmem)

/-- What an accepted object gives. -/
theorem objectLayout_ok {exact : List ExfatObjectMetadata} {object : ObjectRecord}
    {layout : ObjectLayout} (h : objectLayout graph exact geometry payloadMode object = .ok layout) :
    layout.kind = object.kind ∧ (object.id = graph.root → layout.metadata = none) ∧
      (object.id ≠ graph.root → object.linkCount = 1 ∧ ∃ item ∈ exact, item.object = object.id ∧
        layout.metadata = some item ∧ validateMetadata object.id object.kind item = .ok ()) ∧
      layout.name = none ∧ layout.children = [] ∧ Unplaced graph geometry payloadMode object layout := by
  simp only [objectLayout, bind_ok_iff, ensure_ok_iff, pure_eq_ok, Except.ok.injEq] at h
  obtain ⟨_, hsubset, item, hitem, stream, hstream, rfl⟩ := h
  refine ⟨rfl, fun hroot => ?_, fun hroot => ?_, rfl, rfl, rfl, ?_⟩
  · rw [objectMetadata, if_pos hroot, pure_eq_ok, Except.ok.injEq] at hitem
    exact hitem.symm
  · simp only [objectMetadata, if_neg hroot, bind_ok_iff, orErr_ok_iff, pure_eq_ok,
      Except.ok.injEq] at hitem
    obtain ⟨found, hfound, _, hvalid, rfl⟩ := hitem
    exact ⟨by tauto, found, List.mem_of_find?_eq_some hfound,
      by simpa using List.find?_some hfound, rfl, hvalid⟩
  · unfold objectStream at hstream
    cases hkind : object.kind with
    | directory =>
      simp only [hkind, bind_ok_iff, pure_eq_ok, Except.ok.injEq] at hstream
      obtain ⟨_, hvalid, rfl⟩ := hstream
      exact ⟨rfl, hvalid⟩
    | file =>
      simp only [hkind, bind_ok_iff, pure_eq_ok, Except.ok.injEq] at hstream
      obtain ⟨found, hfound, rfl⟩ := hstream
      exact ⟨found, rfl, hfound⟩

theorem objectLayouts_ok {exact : List ExfatObjectMetadata} {objects : List ObjectRecord}
    {layouts : Layouts} (h : objectLayouts graph exact geometry payloadMode objects = .ok layouts) :
    layouts.map Prod.fst = objects.map ObjectRecord.id ∧ ∀ entry ∈ layouts, ∃ object ∈ objects,
      object.id = entry.1 ∧ objectLayout graph exact geometry payloadMode object = .ok entry.2 := by
  induction objects generalizing layouts with
  | nil =>
    rw [objectLayouts, pure_eq_ok, Except.ok.injEq] at h
    subst h
    exact ⟨rfl, fun _ hentry => absurd hentry List.not_mem_nil⟩
  | cons object rest ih =>
    simp only [objectLayouts, bind_ok_iff, pure_eq_ok, Except.ok.injEq] at h
    obtain ⟨layout, hlayout, more, hmore, rfl⟩ := h
    obtain ⟨hkeys, hrest⟩ := ih hmore
    refine ⟨by rw [List.map_cons, List.map_cons, hkeys], fun entry hentry => ?_⟩
    rcases List.mem_cons.1 hentry with rfl | hentry
    · exact ⟨object, List.mem_cons_self, rfl, hlayout⟩
    · obtain ⟨other, hother, hid, hok⟩ := hrest entry hentry
      exact ⟨other, List.mem_cons_of_mem _ hother, hid, hok⟩

/-! ### Links -/

/-- What one entry of the namespace changes in a layout. -/
def linkLayout (object : ObjectId) (layout : ObjectLayout) (entry : NamespaceEntry) : ObjectLayout :=
  let layout := if object = entry.target then { layout with name := some entry.name } else layout
  if object = entry.parent then { layout with children := layout.children ++ [entry.target] }
  else layout

theorem linkEntries_ok {layouts result : Layouts} {entries : List NamespaceEntry}
    (h : linkEntries layouts entries = .ok result) :
    result = layouts.map (fun item => (item.1, entries.foldl (linkLayout item.1) item.2)) ∧
      ∀ entry ∈ entries, validateName entry.name entry.target = .ok () := by
  induction entries generalizing layouts with
  | nil =>
    rw [linkEntries, pure_eq_ok, Except.ok.injEq] at h
    subst h
    exact ⟨(List.map_id' layouts).symm, fun _ hentry => absurd hentry List.not_mem_nil⟩
  | cons entry rest ih =>
    simp only [linkEntries, bind_ok_iff] at h
    obtain ⟨_, hname, _, -, _, -, h⟩ := h
    obtain ⟨rfl, hrest⟩ := ih h
    refine ⟨?_, List.forall_mem_cons.2 ⟨hname, hrest⟩⟩
    unfold Layouts.modify
    rw [List.map_map, List.map_map]
    refine List.map_congr_left fun item _ => ?_
    simp only [Function.comp_apply, List.foldl_cons, linkLayout]
    split_ifs <;> simp_all

section Link

variable (object : ObjectId)

/-- The fields that a link leaves alone. -/
def SameObject (layout layout' : ObjectLayout) : Prop :=
  layout'.kind = layout.kind ∧ layout'.metadata = layout.metadata ∧ layout'.stream = layout.stream ∧
    layout'.directoryClusters = layout.directoryClusters

theorem sameObject_linkLayout (layout : ObjectLayout) (entry : NamespaceEntry) :
    SameObject layout (linkLayout object layout entry) := by
  unfold linkLayout
  dsimp only
  split_ifs <;> exact ⟨rfl, rfl, rfl, rfl⟩

theorem children_linkLayout (layout : ObjectLayout) (entry : NamespaceEntry) :
    (linkLayout object layout entry).children =
      layout.children ++ if entry.parent = object then [entry.target] else [] := by
  unfold linkLayout
  by_cases hparent : object = entry.parent
  · rw [if_pos hparent, if_pos hparent.symm]
    split_ifs <;> rfl
  · rw [if_neg hparent, if_neg (Ne.symm hparent), List.append_nil]
    split_ifs <;> rfl

/-- Links change the name and the children of a layout only. -/
theorem foldl_linkLayout (entries : List NamespaceEntry) (layout : ObjectLayout) :
    SameObject layout (entries.foldl (linkLayout object) layout) ∧
      (entries.foldl (linkLayout object) layout).children = layout.children ++
        (entries.filter fun entry => entry.parent = object).map NamespaceEntry.target := by
  induction entries generalizing layout with
  | nil => exact ⟨⟨rfl, rfl, rfl, rfl⟩, (List.append_nil _).symm⟩
  | cons entry rest ih =>
    obtain ⟨⟨hkind, hmetadata, hstream, hclusters⟩, hchildren⟩ := ih (linkLayout object layout entry)
    obtain ⟨hkind', hmetadata', hstream', hclusters'⟩ := sameObject_linkLayout object layout entry
    refine ⟨⟨hkind.trans hkind', hmetadata.trans hmetadata', hstream.trans hstream',
      hclusters.trans hclusters'⟩, ?_⟩
    rw [List.foldl_cons, hchildren, children_linkLayout, List.append_assoc, List.filter_cons]
    by_cases hparent : entry.parent = object
    · rw [if_pos hparent, if_pos (by simpa using hparent), List.map_cons, List.singleton_append]
    · rw [if_neg hparent, if_neg (by simpa using hparent), List.nil_append]

/-- A target has the name of one of its entries. -/
theorem name_foldl_linkLayout (entries : List NamespaceEntry) (layout : ObjectLayout) :
    (∃ entry ∈ entries, entry.target = object ∧
      (entries.foldl (linkLayout object) layout).name = some entry.name) ∨
    (∀ entry ∈ entries, entry.target ≠ object) ∧
      (entries.foldl (linkLayout object) layout).name = layout.name := by
  induction entries generalizing layout with
  | nil => exact .inr ⟨fun _ hentry => absurd hentry List.not_mem_nil, rfl⟩
  | cons entry rest ih =>
    rw [List.foldl_cons]
    rcases ih (linkLayout object layout entry) with ⟨other, hother, htarget, hname⟩ | ⟨hnone, hname⟩
    · exact .inl ⟨other, List.mem_cons_of_mem _ hother, htarget, hname⟩
    · by_cases htarget : object = entry.target
      · refine .inl ⟨entry, List.mem_cons_self, htarget.symm, hname.trans ?_⟩
        unfold linkLayout
        rw [if_pos htarget]
        split_ifs <;> rfl
      · refine .inr ⟨List.forall_mem_cons.2 ⟨Ne.symm htarget, hnone⟩, hname.trans ?_⟩
        unfold linkLayout
        rw [if_neg htarget]
        split_ifs <;> rfl

end Link

/-! ### Children in order -/

theorem checkFolded_ok {layouts : Layouts} {upcase : UpcaseTable} {parent : ObjectId}
    {folded : List (List UInt16)} {children : List ObjectId} {u : Unit}
    (h : checkFolded layouts upcase parent folded children = .ok u) :
    ∃ names : List (List UInt16),
      children.map (fun child => (layouts.get? child).bind ObjectLayout.name) = names.map some ∧
        (names.map fun name => name.map upcase.map).Nodup ∧
          ∀ name ∈ names, name.map upcase.map ∉ folded := by
  induction children generalizing folded with
  | nil => exact ⟨[], rfl, List.nodup_nil, fun _ hname => absurd hname List.not_mem_nil⟩
  | cons child rest ih =>
    simp only [checkFolded, bind_ok_iff, orErr_ok_iff, ensure_ok_iff] at h
    obtain ⟨name, hname, _, hfresh, h⟩ := h
    obtain ⟨names, hnames, hnodup, hapart⟩ := ih h
    refine ⟨name :: names, by rw [List.map_cons, List.map_cons, hnames, hname],
      List.nodup_cons.2 ⟨fun hmem => ?_, hnodup⟩, List.forall_mem_cons.2 ⟨hfresh, fun other hother =>
        fun hmem => hapart other hother (List.mem_cons_of_mem _ hmem)⟩⟩
    obtain ⟨other, hother, heq⟩ := List.mem_map.1 hmem
    exact hapart other hother (heq ▸ List.mem_cons_self)

/-- The children of a layout in the order of their names. -/
def withSortedChildren (graph : ObjectGraph) (layout : ObjectLayout) : ObjectLayout :=
  { layout with children := sortByKey (nameOrder graph) layout.children }

section Sorting

variable {upcase : UpcaseTable}

theorem sortChildren_ok {parents : List ObjectId} {layouts result : Layouts}
    (hkeys : (layouts.map Prod.fst).Nodup) (hparents : parents.Nodup)
    (h : sortChildren graph upcase parents layouts = .ok result) :
    result = layouts.map (fun item =>
        (item.1, if item.1 ∈ parents then withSortedChildren graph item.2 else item.2)) ∧
      ∀ parent ∈ parents, ∀ layout, layouts.get? parent = some layout →
        ∃ names : List (List UInt16), (withSortedChildren graph layout).children.map (fun child =>
          (layouts.get? child).bind ObjectLayout.name) = names.map some ∧
            (names.map fun name => name.map upcase.map).Nodup := by
  induction parents generalizing layouts with
  | nil =>
    rw [sortChildren, pure_eq_ok, Except.ok.injEq] at h
    subst h
    refine ⟨?_, fun _ hparent => absurd hparent List.not_mem_nil⟩
    simp
  | cons parent rest ih =>
    obtain ⟨hfresh, hrest⟩ := List.nodup_cons.1 hparents
    simp only [sortChildren, bind_ok_iff, Layouts.index, orErr_ok_iff] at h
    obtain ⟨layout, hlayout, _, hfolded, h⟩ := h
    have hmodify : layouts.modify parent (fun layout' =>
        { layout' with children := sortByKey (nameOrder graph) layout.children }) =
        layouts.map fun item =>
          (item.1, if item.1 = parent then withSortedChildren graph item.2 else item.2) := by
      rw [Layouts.modify_eq_map]
      refine List.map_congr_left fun item hitem => ?_
      split_ifs with hparent
      · have hsome := (Layouts.get?_eq_some hkeys).2 hitem
        rw [hparent, hlayout, Option.some.injEq] at hsome
        rw [hsome]
        rfl
      · rfl
    rw [hmodify] at h
    obtain ⟨rfl, hnames⟩ := ih (by rwa [List.map_map]) hrest h
    have hname : ∀ child, (Layouts.get? (layouts.map fun item =>
        (item.1, if item.1 = parent then withSortedChildren graph item.2 else item.2)) child).bind
          ObjectLayout.name = (layouts.get? child).bind ObjectLayout.name := by
      intro child
      rw [Layouts.get?_map fun id layout =>
        if id = parent then withSortedChildren graph layout else layout]
      cases layouts.get? child with
      | none => rfl
      | some layout =>
        rw [Option.map_some, Option.bind_some, Option.bind_some]
        split_ifs <;> rfl
    constructor
    · rw [List.map_map]
      refine List.map_congr_left fun item _ => ?_
      simp only [Function.comp_apply, List.mem_cons]
      by_cases hitem : item.1 = parent
      · rw [if_pos hitem, if_neg (hitem.symm ▸ hfresh), if_pos (Or.inl hitem)]
      · rw [if_neg hitem]
        simp only [hitem, false_or]
    · refine List.forall_mem_cons.2 ⟨fun layout' hlayout' => ?_, fun other hother layout' hlayout' => ?_⟩
      · rw [hlayout, Option.some.injEq] at hlayout'
        obtain ⟨names, hall, hnodup, -⟩ := checkFolded_ok hfolded
        exact ⟨names, by rw [← hlayout']; exact hall, hnodup⟩
      · have hne : other ≠ parent := fun heq => hfresh (heq ▸ hother)
        obtain ⟨names, hall, hnodup⟩ := hnames other hother layout' (by
          rw [Layouts.get?_map fun id layout =>
            if id = parent then withSortedChildren graph layout else layout, hlayout',
            Option.map_some, if_neg hne])
        simp only [hname] at hall
        exact ⟨names, hall, hnodup⟩

end Sorting

/-- The namespace that `build` accepted. -/
theorem namespaceValid (graph : ObjectGraph) :
    ∃ maxName, ObjectGraph.NamespaceValid graph.root graph.objects graph.entries maxName := by
  obtain ⟨limits, hlimits⟩ := graph.accepted
  exact ⟨_, (ObjectGraph.validateGraph_ok_iff.1 hlimits).2.1⟩

variable {metadata : List ExfatObjectMetadata} {upcase : UpcaseTable} {limits : ExfatFormatLimits}
  {layouts : Layouts}

/-- The layout of an object once its entries are linked and its children sorted. -/
def linkedLayout (graph : ObjectGraph) (object : ObjectId) (start : ObjectLayout) : ObjectLayout :=
  withSortedChildren graph (graph.entries.foldl (linkLayout object) start)

/-- The layouts are the linked layouts of the accepted objects. -/
structure BuiltFrom (graph : ObjectGraph) (exact : List ExfatObjectMetadata)
    (geometry : ExfatDestinationGeometry) (payloadMode : PayloadPlacementMode)
    (start layouts : Layouts) : Prop where
  keys : (start.map Prod.fst).Perm (graph.objects.map ObjectRecord.id)
  nodup : (start.map Prod.fst).Nodup
  layouts_eq : layouts = start.map fun item => (item.1, linkedLayout graph item.1 item.2)
  objects : ∀ item ∈ start, ∃ object ∈ graph.objects,
    object.id = item.1 ∧ objectLayout graph exact geometry payloadMode object = .ok item.2

theorem buildObjectLayouts_eq
    (h : buildObjectLayouts graph metadata geometry upcase limits payloadMode = .ok layouts) :
    ∃ exact start, indexMetadata graph [] metadata = .ok exact ∧
      BuiltFrom graph exact geometry payloadMode start layouts ∧
      (∀ entry ∈ graph.entries, validateName entry.name entry.target = .ok ()) ∧
      ∀ id layout, start.get? id = some layout → ∃ names : List (List UInt16),
        (linkedLayout graph id layout).children.map (fun child =>
          (layouts.get? child).bind ObjectLayout.name) = names.map some ∧
            (names.map fun name => name.map upcase.map).Nodup := by
  obtain ⟨maxName, hspace⟩ := namespaceValid graph
  simp only [buildObjectLayouts, bind_ok_iff] at h
  obtain ⟨_, -, _, -, _, -, exact, hexact, first, hfirst, _, -, linked, hlinked, h⟩ := h
  obtain ⟨hkeys, hobjects⟩ := objectLayouts_ok hfirst
  obtain ⟨rfl, hnames⟩ := linkEntries_ok hlinked
  set start : Layouts := sortByKey Prod.fst first with hstart
  have hperm : (start.map Prod.fst).Perm (graph.objects.map ObjectRecord.id) :=
    hkeys ▸ (sortByKey_perm _ _).map _
  have hnodup : (start.map Prod.fst).Nodup := hperm.nodup_iff.2 hspace.objects_distinct
  have hlinkedKeys := @Layouts.keys_map start fun id layout =>
    graph.entries.foldl (linkLayout id) layout
  obtain ⟨hresult, hfolded⟩ := sortChildren_ok (hlinkedKeys.symm ▸ hnodup)
    (hlinkedKeys.symm ▸ hnodup) h
  have hlayouts : layouts = start.map fun item => (item.1, linkedLayout graph item.1 item.2) := by
    rw [hresult, hlinkedKeys, List.map_map]
    refine List.map_congr_left fun item hitem => ?_
    simp only [Function.comp_apply]
    rw [if_pos (List.mem_map_of_mem hitem)]
    rfl
  refine ⟨exact, start, hexact, ⟨hperm, hnodup, hlayouts, fun item hitem =>
    hobjects item (mem_sortByKey.1 hitem)⟩, hnames, fun id layout hlayout => ?_⟩
  obtain ⟨names, hall, hfold⟩ := hfolded id (by
      rw [hlinkedKeys]
      exact List.mem_map.2 ⟨_, (Layouts.get?_eq_some hnodup).1 hlayout, rfl⟩) _ (by
      rw [Layouts.get?_map fun id layout => graph.entries.foldl (linkLayout id) layout, hlayout]
      rfl)
  refine ⟨names, ?_, hfold⟩
  rw [← hall]
  refine List.map_congr_left fun child _ => ?_
  rw [hlayouts, Layouts.get?_map (linkedLayout graph),
    Layouts.get?_map fun id layout => graph.entries.foldl (linkLayout id) layout]
  cases start.get? child <;> rfl

section Built

variable {exact : List ExfatObjectMetadata} {start : Layouts}
  (hbuilt : BuiltFrom graph exact geometry payloadMode start layouts)

include hbuilt

theorem BuiltFrom.keys_eq : layouts.map Prod.fst = start.map Prod.fst := by
  rw [hbuilt.layouts_eq]
  exact Layouts.keys_map (linkedLayout graph)

theorem BuiltFrom.of_mem {object : ObjectRecord} (hobject : object ∈ graph.objects)
    {layout : ObjectLayout} (hlayout : (object.id, layout) ∈ layouts) :
    ∃ first, objectLayout graph exact geometry payloadMode object = .ok first ∧
      layout = linkedLayout graph object.id first := by
  obtain ⟨maxName, hspace⟩ := namespaceValid graph
  rw [hbuilt.layouts_eq] at hlayout
  obtain ⟨item, hitem, heq⟩ := List.mem_map.1 hlayout
  obtain ⟨hid, rfl⟩ := Prod.mk.inj heq
  obtain ⟨other, hother, hsame, hok⟩ := hbuilt.objects item hitem
  obtain rfl := List.inj_on_of_nodup_map hspace.objects_distinct hother hobject (hsame.trans hid)
  exact ⟨item.2, hok, by rw [hid]⟩

theorem BuiltFrom.described (hexact : indexMetadata graph [] metadata = .ok exact)
    {object : ObjectRecord} (hobject : object ∈ graph.objects) {layout : ObjectLayout}
    (hlayout : (object.id, layout) ∈ layouts) : Described graph metadata object layout := by
  obtain ⟨maxName, hspace⟩ := namespaceValid graph
  obtain ⟨first, hfirst, rfl⟩ := hbuilt.of_mem hobject hlayout
  obtain ⟨hkind, hroot, hitem, -, hchildren, -⟩ := objectLayout_ok hfirst
  obtain ⟨⟨hkind', hmetadata', -, -⟩, hchildren'⟩ := foldl_linkLayout object.id graph.entries first
  refine ⟨hkind'.trans hkind, fun h => hmetadata'.trans (hroot h), fun h => ?_, fun h => ?_, ?_⟩
  · obtain ⟨-, item, hmem, hid, hsome, hvalid⟩ := hitem h
    exact ⟨item, (mem_indexMetadata hexact hmem).resolve_left List.not_mem_nil, hid,
      hmetadata'.trans hsome, hvalid⟩
  · rcases name_foldl_linkLayout object.id graph.entries first with hentry | ⟨hnone, -⟩
    · exact hentry
    · have hcount := (hspace.link_counts object hobject h).2
      rw [(hitem h).1] at hcount
      obtain ⟨entry, hentry, htarget⟩ := List.countP_pos_iff.1 (hcount ▸ Nat.one_pos)
      exact absurd (by simpa using htarget) (hnone entry hentry)
  · refine (sortByKey_perm _ _).trans ?_
    rw [hchildren', hchildren, List.nil_append]

theorem BuiltFrom.unplaced {object : ObjectRecord} (hobject : object ∈ graph.objects)
    {layout : ObjectLayout} (hlayout : (object.id, layout) ∈ layouts) :
    Unplaced graph geometry payloadMode object layout ∧
      (object.id ≠ graph.root → object.linkCount = 1) := by
  obtain ⟨first, hfirst, rfl⟩ := hbuilt.of_mem hobject hlayout
  obtain ⟨-, -, hitem, -, -, hclusters, hstream⟩ := objectLayout_ok hfirst
  obtain ⟨⟨-, -, hstream', hclusters'⟩, -⟩ := foldl_linkLayout object.id graph.entries first
  refine ⟨⟨hclusters'.trans hclusters, ?_⟩, fun h => (hitem h).1⟩
  cases hkind : object.kind with
  | directory =>
    rw [hkind] at hstream
    exact ⟨hstream'.trans hstream.1, hstream.2⟩
  | file =>
    rw [hkind] at hstream
    obtain ⟨stream, hsome, hvalid⟩ := hstream
    exact ⟨stream, hstream'.trans hsome, hvalid⟩

end Built

/-- **The layouts of an accepted graph** describe its objects and entries. -/
theorem buildObjectLayouts_ok
    (h : buildObjectLayouts graph metadata geometry upcase limits payloadMode = .ok layouts) :
    LayoutsFor graph metadata layouts ∧ Folded layouts upcase ∧
      ∀ object ∈ graph.objects, ∀ layout, (object.id, layout) ∈ layouts →
        Unplaced graph geometry payloadMode object layout ∧
          (object.id ≠ graph.root → object.linkCount = 1) := by
  obtain ⟨exact, start, hexact, hbuilt, hnames, hfolded⟩ := buildObjectLayouts_eq h
  refine ⟨⟨hbuilt.keys_eq ▸ hbuilt.keys, hnames, fun object hobject layout hlayout =>
    hbuilt.described hexact hobject hlayout⟩, fun item hitem => ?_,
    fun object hobject layout hlayout => hbuilt.unplaced hobject hlayout⟩
  have hget := (Layouts.get?_eq_some (hbuilt.keys_eq ▸ hbuilt.nodup)).2
    (show (item.1, item.2) ∈ layouts from hitem)
  rw [hbuilt.layouts_eq, Layouts.get?_map (linkedLayout graph)] at hget
  obtain ⟨first, hfirst, heq⟩ := Option.map_eq_some_iff.1 hget
  rw [← heq]
  exact hfolded item.1 first hfirst

end Build

end Serialize

end Exfat

end StarConverter
