import StarConverter.Exfat.DirectoryReadback
import StarConverter.Exfat.FormatTables

/-!
# What the reader accepts of a placed volume

The reader checks of every entry of a directory that its data can lie where the entry says. Here these
checks are derived from the placement: the clusters of a file, of a directory and of the tables of the
root are clusters of the heap, none twice, and hold at least the bytes that the entry tells
(`PlaceReadable`). With the checks of names and metadata that the formatter made, each child is readable
(`Placed.childReadable`), and so are the entries of the root (`FormatRun.systemReadable`).
-/

namespace StarConverter

open Base

namespace Exfat

namespace Serialize

/-- The fields of the source's own widths. -/
structure InWords (item : ExfatObjectMetadata) : Prop where
  attributes : item.fileAttributes < 2 ^ 16
  create : item.timestamps.create < 2 ^ 32
  modified : item.timestamps.modified < 2 ^ 32
  accessed : item.timestamps.accessed < 2 ^ 32
/-- Clusters in a row are a range. -/
theorem eq_range'_of_isChain {first : ℕ} {clusters : List ℕ}
    (h : (first :: clusters).IsChain fun a b => b = a + 1) :
    first :: clusters = List.range' first (clusters.length + 1) := by
  induction clusters generalizing first with
  | nil => rfl
  | cons next rest ih =>
    rw [List.isChain_cons_cons] at h
    obtain ⟨rfl, hrest⟩ := h
    rw [List.range'_succ, List.length_cons, ← ih hrest]

theorem divCeil_le_of_le {a n b : ℕ} (hb : 0 < b) (h : a ≤ n * b) : divCeil a b ≤ n := by
  rw [← @divCeil_mul n b hb]
  exact Nat.div_le_div_right (by omega)
section Allocation

variable {context : DirectoryContext} {first length index : ℕ} {noFatChain : Bool}
  {allocation : Allocation}

theorem validateAllocation_of (hcount : context.clusterCount ≤ maxClusterCount)
    (hbytes : context.bytesPerCluster ≤ 2 ^ 25) (hfirst : 2 ≤ first ∧ first ≤ context.clusterCount + 1)
    (hlength : length ≤ context.clusterCount * context.bytesPerCluster)
    (hrow : noFatChain = true → length ≠ 0 ∧
      first + (divCeil length context.bytesPerCluster - 1) ≤ context.clusterCount + 1) :
    validateAllocation index first length noFatChain context = .ok () := by
  have hmax : maxClusterCount + 2 < wordBound32 ∧ maxClusterCount * 2 ^ 25 < wordBound ∧
      wordBound32 < wordBound := by decide
  have hheap := Nat.mul_le_mul hcount hbytes
  rw [validateAllocation, checkedAdd32_of_lt (by omega), orErr_some, ok_bind, if_neg (by omega),
    ensure_of hfirst, ok_bind, checkedMul_of_lt (by omega), orErr_some, ok_bind,
    ensure_of (by
      rintro (hlt | ⟨hno, hzero⟩)
      · omega
      · exact (hrow hno).1 hzero), ok_bind]
  split_ifs with hno
  · obtain ⟨-, hlast⟩ := hrow hno
    dsimp only
    rw [checkedAdd_of_lt (by omega), orErr_some, ok_bind, ensure_of hlast]
  · rfl

theorem validateAllocation_zero (hcount : context.clusterCount ≤ maxClusterCount) :
    validateAllocation index 0 0 false context = .ok () := by
  have hmax : maxClusterCount + 2 < wordBound32 := by decide
  rw [validateAllocation, checkedAdd32_of_lt (by omega), orErr_some, ok_bind, if_pos rfl]
  exact ensure_of (by simp)

/-- Data in an allocation of the heap is accepted. -/
theorem validateAllocation_allocation (hcount : context.clusterCount ≤ maxClusterCount)
    (hbytes : context.bytesPerCluster ≤ 2 ^ 25) (hpos : 0 < context.bytesPerCluster)
    (hheap : ∀ cluster ∈ allocation.clusters, 2 ≤ cluster ∧ cluster < 2 + context.clusterCount)
    (hsome : allocation.clusterCount ≠ 0)
    (hle : length ≤ allocation.clusterCount * context.bytesPerCluster)
    (hzero : noFatChain = true → length ≠ 0) :
    validateAllocation index allocation.firstCluster length noFatChain context = .ok () := by
  have hfirst := hheap allocation.firstCluster (List.mem_range'_1.2 ⟨le_rfl, by omega⟩)
  have hlast := hheap (allocation.firstCluster + (allocation.clusterCount - 1))
    (List.mem_range'_1.2 ⟨by omega, by omega⟩)
  have hclusters : divCeil length context.bytesPerCluster ≤ allocation.clusterCount :=
    divCeil_le_of_le hpos hle
  refine validateAllocation_of hcount hbytes ⟨hfirst.1, by omega⟩
    (hle.trans (Nat.mul_le_mul_right _ (by omega))) fun hno => ⟨hzero hno, by omega⟩

end Allocation

section Places

variable {graph : ObjectGraph} {metadata : List ExfatObjectMetadata} {profile : ExfatVolumeProfile}
  {options : ExfatSerializeOptions} {geometry : ExfatDestinationGeometry}
  {allocations : List Allocation} {placement : ExfatPlacement} {marks : List Bool}
  {parts : VolumeParts} {plan : ExfatSerializationPlan} {image : Bytes}
  {context : DirectoryContext}

theorem bounds_of_clustersFor {bytes clusterBytes count : ℕ} (hpos : 0 < clusterBytes)
    (h : clustersFor bytes clusterBytes = .ok count) : bytes ≤ count * clusterBytes ∧ count ≠ 0 := by
  simp only [clustersFor, bind_ok_iff, ensure_ok_iff, pure_eq_ok, Except.ok.injEq] at h
  obtain ⟨_, -, rfl⟩ := h
  exact ⟨(le_divCeil_mul hpos).trans (Nat.mul_le_mul_right _ (Nat.le_max_left _ _)), by omega⟩

theorem length_streamClusters {extents : List Extent}
    (h : ∀ extent ∈ extents, ∃ range, InHeap geometry extent range) :
    (extents.flatMap (extentClusters geometry)).length * geometry.bytesPerCluster =
      (extents.map Extent.length).sum := by
  induction extents with
  | nil => rw [List.flatMap_nil, List.length_nil, Nat.zero_mul]; rfl
  | cons extent extents ih =>
    rw [List.forall_mem_cons] at h
    obtain ⟨⟨range, hrange⟩, hrest⟩ := h
    rw [List.flatMap_cons, List.length_append, Nat.add_mul, ih hrest, List.map_cons, List.sum_cons,
      extentClusters_eq hrange.physical, List.length_range', physical_length hrange.physical,
      Nat.div_mul_cancel hrange.length]

/-- Where the data of a child lies, as the reader asks it. -/
structure PlaceReadable (context : DirectoryContext) (kind : ObjectKind)
    (place : ℕ × ℕ × ℕ × Bool) : Prop where
  cluster_lt : place.1 < 2 ^ 32
  data_lt : place.2.2.1 < 2 ^ 64
  valid_le : place.2.1 ≤ place.2.2.1
  allocation : ∀ index, validateAllocation index place.1 place.2.2.1 place.2.2.2 context = .ok ()
  directory : kind = .directory → place.2.1 = place.2.2.1 ∧ place.2.2.1 ≤ maxDirectoryBytes

/-- The sizes of an accepted file. -/
theorem sizes_of_validateFileStream {object : ObjectRecord} (hobject : object ∈ graph.objects)
    {stream : StreamLayout}
    (h : validateFileStream object.id object.streams geometry .final = .ok stream) :
    stream.initializedBytes ≤ stream.logicalBytes ∧ stream.logicalBytes ≤ stream.mappedBytes ∧
      (stream.mappedBytes ≠ 0 → stream.logicalBytes ≠ 0) := by
  obtain ⟨limits, hlimits⟩ := graph.accepted
  obtain ⟨hvalid, -⟩ := ObjectGraph.streams_of_accepted hlimits
  cases hstreams : object.streams with
  | nil =>
    rw [hstreams, validateFileStream, pure_eq_ok, Except.ok.injEq] at h
    subst h
    exact ⟨le_rfl, le_rfl, fun hne => absurd rfl hne⟩
  | cons first more =>
    have hfirst : first ∈ ObjectGraph.allStreams graph.objects :=
      List.mem_flatMap.2 ⟨object, hobject, by rw [hstreams]; exact List.mem_cons_self⟩
    obtain ⟨⟨hinit, hlogical⟩, hstorage⟩ := hvalid.valid first hfirst
    simp only [hstreams, validateFileStream, bind_ok_iff, ensure_ok_iff, pure_eq_ok,
      Except.ok.injEq] at h
    obtain ⟨_, -, _, -, _, hchecked, rfl⟩ := h
    refine ⟨hinit, hlogical, fun hmapped hzero => hmapped ?_⟩
    dsimp only at hzero ⊢
    rw [validateStreamStorage, if_pos hzero, ensure_ok_iff] at hchecked
    simp only [ObjectGraph.validateStorage, hchecked, bind_ok_iff, ensure_ok_iff] at hstorage
    obtain ⟨_, -, _, -, hsame⟩ := hstorage
    rw [hsame, hzero]

/-- The context tells the sizes of the volume. -/
structure Tells (context : DirectoryContext) (geometry : ExfatDestinationGeometry) : Prop where
  count : context.clusterCount = geometry.clusterCount
  cluster : context.bytesPerCluster = geometry.bytesPerCluster
  count_le : geometry.clusterCount ≤ maxClusterCount
  cluster_le : geometry.bytesPerCluster ≤ 2 ^ 25
  cluster_pos : 0 < geometry.bytesPerCluster

/-- Data in an allocation of the volume is readable. -/
theorem Tells.place (h : Tells context geometry) {allocation : Allocation} {kind : ObjectKind}
    {valid length : ℕ} {noFatChain : Bool}
    (hheap : ∀ cluster ∈ allocation.clusters, 2 ≤ cluster ∧ cluster < 2 + geometry.clusterCount)
    (hsome : allocation.clusterCount ≠ 0)
    (hle : length ≤ allocation.clusterCount * geometry.bytesPerCluster)
    (hzero : noFatChain = true → length ≠ 0) (hvalid : valid ≤ length)
    (hkind : kind = .directory → valid = length ∧ length ≤ maxDirectoryBytes) :
    PlaceReadable context kind (allocation.firstCluster, valid, length, noFatChain) := by
  have hmax : 2 + maxClusterCount < 2 ^ 32 ∧ maxClusterCount * 2 ^ 25 < 2 ^ 64 := by decide
  have hcount := h.count_le
  have hfirst := hheap allocation.firstCluster (List.mem_range'_1.2 ⟨le_rfl, by omega⟩)
  have hlast := hheap (allocation.firstCluster + (allocation.clusterCount - 1))
    (List.mem_range'_1.2 ⟨by omega, by omega⟩)
  have hbytes : allocation.clusterCount * geometry.bytesPerCluster ≤ maxClusterCount * 2 ^ 25 :=
    Nat.mul_le_mul (by omega) h.cluster_le
  refine ⟨show allocation.firstCluster < 2 ^ 32 by omega, show length < 2 ^ 64 by omega, hvalid,
    fun index => ?_, hkind⟩
  exact validateAllocation_allocation (h.count ▸ h.count_le) (h.cluster ▸ h.cluster_le)
    (h.cluster ▸ h.cluster_pos) (by rwa [h.count]) hsome (by rwa [h.cluster]) hzero

/-- Data in the clusters of a stream is readable. -/
theorem Tells.streamPlace (h : Tells context geometry) {clusters : List ℕ} {valid length : ℕ}
    {noFatChain : Bool} (hnodup : clusters.Nodup)
    (hheap : ∀ cluster ∈ clusters, 2 ≤ cluster ∧ cluster < 2 + geometry.clusterCount)
    (hsome : clusters ≠ []) (hle : length ≤ clusters.length * geometry.bytesPerCluster)
    (hrow : noFatChain = true → clusters.IsChain fun a b => b = a + 1)
    (hzero : length ≠ 0) (hvalid : valid ≤ length) :
    PlaceReadable context .file (clusters.head?.getD 0, valid, length, noFatChain) := by
  have hcount := h.count_le
  have hmax : 2 + maxClusterCount < 2 ^ 32 ∧ maxClusterCount * 2 ^ 25 < 2 ^ 64 := by decide
  have hlength := length_le_of_inHeap hnodup hheap
  obtain ⟨first, rest, rfl⟩ := List.exists_cons_of_ne_nil hsome
  have hfirst := hheap first List.mem_cons_self
  have hbytes : (first :: rest).length * geometry.bytesPerCluster ≤ maxClusterCount * 2 ^ 25 :=
    Nat.mul_le_mul (hlength.trans h.count_le) h.cluster_le
  cases noFatChain with
  | true =>
    have hrange := eq_range'_of_isChain (hrow rfl)
    exact @Tells.place _ _ h ⟨first, rest.length + 1⟩ _ _ _ _ (by
      rw [Allocation.clusters, ← hrange]
      exact hheap) (Nat.succ_ne_zero _) hle (fun _ => hzero) hvalid (fun hkind => by cases hkind)
  | false =>
    refine ⟨show first < 2 ^ 32 by omega, show length < 2 ^ 64 by omega, hvalid, fun index => ?_,
      fun hkind => by cases hkind⟩
    exact validateAllocation_of (h.count ▸ h.count_le) (h.cluster ▸ h.cluster_le)
      ⟨hfirst.1, show first ≤ _ by rw [h.count]; omega⟩
      (by rw [h.count, h.cluster]; exact hle.trans (Nat.mul_le_mul_right _ hlength))
      (fun hno => by cases hno)

/-- The data of a file is readable. -/
theorem Placed.filePlace (h : Placed graph metadata profile geometry allocations placement)
    (htells : Tells context geometry) {object : ObjectRecord} (hobject : object ∈ graph.objects)
    (hkind : object.kind = .file) {layout : ObjectLayout}
    (hget : placement.layouts.get? object.id = some layout) (hfile : layout.kind = .file)
    {stream : StreamLayout} (hstream : layout.stream = some stream) :
    PlaceReadable context .file (stream.clusters.head?.getD 0, stream.initializedBytes,
      stream.logicalBytes, decide (stream.noFatChain = true ∧ stream.mappedBytes ≠ 0)) := by
  obtain ⟨before, hvalid, hplaced⟩ := h.files.stream object hobject hkind layout hget
  obtain rfl : stream = placedStream graph geometry before := Option.some.inj (hstream.symm.trans hplaced)
  obtain ⟨hinit, hlogical, hnonzero⟩ := sizes_of_validateFileStream hobject hvalid
  by_cases hzero : before.mappedBytes = 0
  · have hclusters := (clusters_of_validateFileStream hvalid).1
    have hplacedEq : placedStream graph geometry before = before := by rw [placedStream, if_pos hzero]
    rw [hplacedEq, hclusters, decide_eq_false (by simp [hzero]),
      show before.initializedBytes = 0 by omega, show before.logicalBytes = 0 by omega]
    exact ⟨by decide, by decide, le_rfl, fun index =>
      validateAllocation_zero (htells.count ▸ htells.count_le), fun hkind => by cases hkind⟩
  · have hsame : placedStream graph geometry before = { before with
        clusters := (ObjectGraph.streamExtents graph.extents before.stream).flatMap
          (extentClusters geometry)
        noFatChain := decide (((ObjectGraph.streamExtents graph.extents before.stream).flatMap
          (extentClusters geometry)).IsChain fun a b => b = a + 1) } := by
      rw [placedStream, if_neg hzero]
    have hmem : placedStream graph geometry before ∈ payloadStreams placement.layouts :=
      mem_payloadStreams.2 ⟨(object.id, layout), (Layouts.get?_eq_some h.layouts.nodup).1 hget, hfile,
        hstream, by rw [hsame]; exact hzero⟩
    have hmapped := h.files.mapped _ hmem
    have htotal := hmapped.total
    rw [← length_streamClusters fun extent hextent => (hmapped.extents extent hextent).2] at htotal
    have hsub : (placedStream graph geometry before).clusters.Nodup := by
      have hpayload : (payloadClusters placement.layouts).Nodup := by
        refine h.owned.nodup.sublist ?_
        refine (List.sublist_append_of_sublist_left (List.sublist_append_of_sublist_left
          (List.sublist_append_of_sublist_left (List.sublist_append_right _ _))))
      exact (List.nodup_flatMap.1 hpayload).1 _ hmem
    have hheap : ∀ cluster ∈ (placedStream graph geometry before).clusters,
        2 ≤ cluster ∧ cluster < 2 + geometry.clusterCount := fun cluster hcluster => by
      refine h.mem_used (List.mem_append_left _ (List.mem_append_left _ (List.mem_append_left _
        (List.mem_append_left _ (List.mem_flatMap.2 ⟨reusedPayload (placedStream graph geometry before),
          h.files.reused.mem_iff.2 (List.mem_map_of_mem hmem), hcluster⟩)))))
    rw [hsame] at htotal hsub hheap ⊢
    dsimp only at htotal hsub hheap ⊢
    refine htells.streamPlace hsub hheap ?_ (htotal ▸ hlogical) (fun hrow => ?_) (hnonzero hzero) hinit
    · intro hnil
      rw [hnil, List.length_nil, Nat.zero_mul] at htotal
      exact hzero htotal.symm
    · exact of_decide_eq_true (of_decide_eq_true hrow).1

/-- A directory of the volume has an allocation of the heap. -/
theorem Placed.directoryHeap (h : Placed graph metadata profile geometry allocations placement)
    (hpos : 0 < geometry.bytesPerCluster) {item : ObjectId × Allocation}
    (hitem : item ∈ placement.directoryOrder.zip allocations) :
    (∀ cluster ∈ item.2.clusters, 2 ≤ cluster ∧ cluster < 2 + geometry.clusterCount) ∧
      item.2.clusterCount ≠ 0 := by
  obtain ⟨bytes, -, hclusters⟩ := ((List.forall₂_iff_zip.1 h.directories).2 hitem).length
  exact ⟨fun cluster hcluster => h.mem_used (List.mem_append_right _ (List.mem_flatMap.2
    ⟨item.2, (List.of_mem_zip hitem).2, hcluster⟩)), (bounds_of_clustersFor hpos hclusters).2⟩

/-- The data of a child is readable. -/
theorem Placed.childPlace (h : Placed graph metadata profile geometry allocations placement)
    (htells : Tells context geometry)
    (hlarge : ∀ item ∈ placement.directoryOrder.zip allocations,
      item.2.clusterCount * geometry.bytesPerCluster ≤ maxDirectoryBytes) {object : ObjectRecord}
    (hobject : object ∈ graph.objects) {layout : ObjectLayout}
    (hget : placement.layouts.get? object.id = some layout) (hkind : layout.kind = object.kind)
    {place : ℕ × ℕ × ℕ × Bool} (hplace : childData layout geometry.bytesPerCluster = .ok place) :
    PlaceReadable context layout.kind place := by
  cases hlayout : layout.kind with
  | file =>
    simp only [childData, hlayout, bind_ok_iff, orErr_ok_iff, pure_eq_ok, Except.ok.injEq] at hplace
    obtain ⟨stream, hstream, rfl⟩ := hplace
    exact h.filePlace htells hobject (hkind ▸ hlayout) hget hlayout hstream
  | directory =>
    simp only [childData, hlayout, bind_ok_iff, orErr_ok_iff, checkedMul_eq_some, pure_eq_ok,
      Except.ok.injEq] at hplace
    obtain ⟨_, ⟨-, rfl⟩, first, hfirst, rfl⟩ := hplace
    have horder : object.id ∈ placement.directoryOrder := by
      rw [h.order, ← h.layouts.kind_get?, hget, Option.map_some, hlayout]
    rw [← List.map_fst_zip h.directories.length_eq.le, List.mem_map] at horder
    obtain ⟨⟨id, allocation⟩, hitem, hid⟩ := horder
    dsimp only at hid
    subst hid
    obtain ⟨other, hother, hclusters⟩ := ((List.forall₂_iff_zip.1 h.directories).2 hitem).layout
    obtain rfl : other = layout := Option.some.inj (hother.symm.trans hget)
    obtain ⟨hheap, hsome⟩ := h.directoryHeap htells.cluster_pos hitem
    have hhead : first = allocation.firstCluster := by
      obtain ⟨count, hcount⟩ := Nat.exists_eq_succ_of_ne_zero hsome
      dsimp only at hcount hclusters
      rw [hclusters, Allocation.clusters, hcount, List.range'_succ, List.head?_cons] at hfirst
      exact (Option.some.inj hfirst).symm
    have hlength : other.directoryClusters.length = allocation.clusterCount := by
      rw [hclusters, Allocation.clusters, List.length_range']
    rw [hhead, hlength]
    exact htells.place hheap hsome le_rfl (fun _ => Nat.mul_ne_zero hsome htells.cluster_pos.ne')
      le_rfl fun _ => ⟨rfl, hlarge _ hitem⟩

/-- The entry of a child is readable. -/
theorem Placed.childReadable (h : Placed graph metadata profile geometry allocations placement)
    (htells : Tells context geometry) (hsecondaries : 18 ≤ context.maxSecondaryEntries)
    (hwords : ∀ item ∈ metadata, InWords item)
    (hlarge : ∀ item ∈ placement.directoryOrder.zip allocations,
      item.2.clusterCount * geometry.bytesPerCluster ≤ maxDirectoryBytes) {child : ObjectId}
    {entry : ChildEntry}
    (hentry : EntryOf placement.layouts placement.upcase geometry.bytesPerCluster child entry) :
    entry.Readable context := by
  obtain ⟨⟨layout, item, hget, hname, hmetadata, hattributes, htimestamps, hplace⟩, hhash⟩ := hentry
  obtain ⟨object, hobject, rfl, hdescribed⟩ := h.layouts.object_of_get? hget
  have hroot : object.id ≠ graph.root := fun hroot => by
    rw [hdescribed.root hroot] at hmetadata
    cases hmetadata
  obtain ⟨found, hfound, -, hsame, hvalid⟩ := hdescribed.metadata hroot
  obtain rfl : found = item := Option.some.inj (hsame.symm.trans hmetadata)
  obtain ⟨edge, hedge, -, hedgeName⟩ := hdescribed.name hroot
  obtain hnameEq : edge.name = entry.name := Option.some.inj (hedgeName.symm.trans hname)
  have hnames := h.layouts.names edge hedge
  simp only [validateName, hnameEq, bind_ok_iff, ensure_ok_iff] at hnames
  obtain ⟨_, hlength, _, hdot, _, hforbidden, hdecodes⟩ := hnames
  simp only [validateMetadata, bind_ok_iff, ensure_ok_iff] at hvalid
  obtain ⟨_, ⟨hbits, hdirectory⟩, hstamps⟩ := hvalid
  simp only [validTimestamps, decide_eq_true_eq] at hstamps
  obtain ⟨hcreate, hmodified, haccessed, hcentiCreate, hcentiModified, hutcCreate, hutcModified,
    hutcAccessed⟩ := hstamps
  have hread := h.childPlace htells hlarge hobject hget hdescribed.kind hplace
  have hword := hwords found hfound
  simp only [UpcaseTable.nameHash, bind_ok_iff, pure_eq_ok, Except.ok.injEq] at hhash
  obtain ⟨_, -, hhash⟩ := hhash
  have hle : entry.name.length ≤ 255 := not_lt.1 fun hlt => hlength (.inr hlt)
  exact {
    attributes_lt := hattributes ▸ hword.attributes
    attributes := hattributes ▸ hbits
    create_lt := htimestamps ▸ hword.create
    modified_lt := htimestamps ▸ hword.modified
    accessed_lt := htimestamps ▸ hword.accessed
    create := htimestamps ▸ hcreate
    modified := htimestamps ▸ hmodified
    accessed := htimestamps ▸ haccessed
    createCentiseconds := htimestamps ▸ hcentiCreate
    modifiedCentiseconds := htimestamps ▸ hcentiModified
    createUtc := htimestamps ▸ hutcCreate
    modifiedUtc := htimestamps ▸ hutcModified
    accessedUtc := htimestamps ▸ hutcAccessed
    name_ne := fun hnil => hlength (.inl hnil)
    name_le := hle
    units := fun index => validateNameUnits_of hforbidden hdecodes fun hdots => hdot hdots.2
    hash_lt := hhash ▸ rotatingSum_lt 16 _
    cluster_lt := hread.cluster_lt
    data_lt := hread.data_lt
    valid_le := hread.valid_le
    allocation := hread.allocation
    directory := fun hbit => hread.directory
      (hdescribed.kind.trans (hdirectory.1 (hattributes ▸ hbit)))
    secondaries := by
      unfold ChildEntry.setEntries ChildEntry.nameEntries
      have : divCeil entry.name.length 15 ≤ 17 := divCeil_le_of_le (by decide) hle
      omega }

/-- The entries of the root are readable. -/
theorem FormatRun.systemReadable
    (h : FormatRun graph metadata profile options plan geometry allocations placement marks parts)
    (htells : Tells context geometry) (hisRoot : context.isRoot = true) :
    SystemReadable context placement.bitmap placement.upcaseAllocation (bitmapLength placement.geometry)
      profile.volumeLabel profile.encodedUpcaseTable profile.upcaseChecksum := by
  have hplaced := h.placed
  have hbitmapLength : bitmapLength placement.geometry = bitmapLength geometry :=
    congrArg (divCeil · 8) hplaced.clusterCount
  obtain ⟨hbitmap, hbitmapSome⟩ := bounds_of_clustersFor htells.cluster_pos hplaced.bitmap
  obtain ⟨hupcase, hupcaseSome⟩ := bounds_of_clustersFor htells.cluster_pos hplaced.upcaseAllocation
  have hbitmapPlace : PlaceReadable context .file (placement.bitmap.firstCluster, 0,
      bitmapLength geometry, false) :=
    htells.place (fun cluster hcluster => hplaced.mem_used (by simp [hcluster])) hbitmapSome hbitmap
      (fun hno => by cases hno) (Nat.zero_le _) fun hkind => by cases hkind
  have hupcasePlace : PlaceReadable context .file (placement.upcaseAllocation.firstCluster, 0,
      profile.encodedUpcaseTable.length, false) :=
    htells.place (fun cluster hcluster => hplaced.mem_used (by simp [hcluster])) hupcaseSome hupcase
      (fun hno => by cases hno) (Nat.zero_le _) fun hkind => by cases hkind
  have htable := hplaced.upcase
  simp only [UpcaseTable.parse, validateTable, bind_ok_iff, ensure_ok_iff, pure_eq_ok,
    Except.ok.injEq] at htable
  obtain ⟨_, ⟨_, -, _, -, _, hne, _, heven, _, hchecksum, -⟩, -⟩ := htable
  exact {
    isRoot := hisRoot
    label := fun label hlabel => by
      obtain ⟨hle, hany, hdecodes⟩ := hplaced.label_ok hlabel
      rw [validateVolumeLabel, ensure_of hle, ok_bind, ensure_of hany, ok_bind, ensure_of hdecodes]
    bitmap_lt := hbitmapPlace.cluster_lt
    bitmap_length := by rw [hbitmapLength, htells.count, bitmapLength]
    bitmap_length_lt := hbitmapLength ▸ hbitmapPlace.data_lt
    bitmap_allocation := hbitmapLength ▸ hbitmapPlace.allocation
    checksum_lt := hchecksum ▸ rotatingSum_lt 32 _
    upcase_lt := hupcasePlace.cluster_lt
    upcase_length := by
      rintro (hzero | hodd)
      · exact hne (List.length_eq_zero_iff.1 hzero)
      · exact hodd heven
    upcase_length_lt := hupcasePlace.data_lt
    upcase_allocation := hupcasePlace.allocation }

end Places

end Serialize

end Exfat

end StarConverter
