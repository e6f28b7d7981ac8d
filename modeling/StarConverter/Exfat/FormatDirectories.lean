import StarConverter.Exfat.ReadablePlaces

/-!
# The directories of the new volume

Every directory of the graph is found in the finished image in the clusters that the formatter gave to
it (`format_directories`): the entries that only the root has, one entry set for each child, then zeros.
What an entry set tells comes from the layout of the child, and the layouts describe the objects and the
entries of the graph. The directory parser of the reader delivers exactly these entries
(`format_readback`).
-/

namespace StarConverter

open Base

namespace Exfat

namespace Serialize

/-- The reader's context for a directory of this volume: its limits have room for the directory. -/
structure ContextFor (geometry : ExfatDestinationGeometry) (isRoot : Bool) (length : ℕ)
    (context : DirectoryContext) : Prop where
  clusterCount : context.clusterCount = geometry.clusterCount
  bytesPerCluster : context.bytesPerCluster = geometry.bytesPerCluster
  numberOfFats : context.numberOfFats = 1
  isRoot : context.isRoot = isRoot
  entries : length / entryBytes ≤ context.maxEntries
  secondaries : 18 ≤ context.maxSecondaryEntries
section Directories

variable {graph : ObjectGraph} {metadata : List ExfatObjectMetadata} {profile : ExfatVolumeProfile}
  {options : ExfatSerializeOptions} {geometry : ExfatDestinationGeometry}
  {allocations : List Allocation} {placement : ExfatPlacement} {marks : List Bool}
  {parts : VolumeParts} {plan : ExfatSerializationPlan} {image : Bytes}
  {context : DirectoryContext}

/-- Two lists related to a third one: what is paired in them has a common partner there. -/
theorem exists_mem_zip_of_forall₂ {α β γ : Type*} {R : α → γ → Prop} {S : β → γ → Prop} {as : List α}
    {bs : List β} {cs : List γ} (hR : List.Forall₂ R as cs) (hS : List.Forall₂ S bs cs) {item : α × β}
    (hitem : item ∈ as.zip bs) : ∃ c, (item.2, c) ∈ bs.zip cs ∧ R item.1 c ∧ S item.2 c := by
  induction hR generalizing bs with
  | nil => simp at hitem
  | cons hfirst _ ih =>
    cases hS with
    | cons hsecond hrest =>
      rw [List.zip_cons_cons, List.mem_cons] at hitem
      rcases hitem with rfl | hitem
      · exact ⟨_, by simp, hfirst, hsecond⟩
      · obtain ⟨c, hc, hr, hs⟩ := ih hrest hitem
        exact ⟨c, List.mem_cons_of_mem _ hc, hr, hs⟩

/-- A directory stands in its clusters. -/
theorem FormatRun.directory
    (h : FormatRun graph metadata profile options plan geometry allocations placement marks parts)
    (himage : image.length = graph.extents.volumeBytes) {item : ObjectId × Allocation}
    (hitem : item ∈ placement.directoryOrder.zip allocations) :
    DirectoryBytes graph profile placement item.1
      (allocationRegion plan.geometry item.2 (applyAll plan.overlay.writes image)) := by
  obtain ⟨bytes, hzip, hbytes, hlength⟩ :=
    exists_mem_zip_of_forall₂ h.built.directories h.built.lengths hitem
  have hwrite : directoryPart geometry item.2 bytes ∈ parts.writes geometry allocations placement := by
    refine List.mem_append_left _ (List.mem_append_right _ ?_)
    rw [← List.map_uncurry_zip_eq_zipWith]
    exact List.mem_map.2 ⟨_, hzip, rfl⟩
  have hat := (h.fieldAt himage hwrite).2
  have hregion : allocationRegion plan.geometry item.2 (applyAll plan.overlay.writes image) = bytes := by
    rw [allocationRegion, h.geometry_eq, h.placed.span]
    refine Eq.trans ?_ hat
    show sliceAt _ _ (item.2.clusterCount * geometry.bytesPerCluster) = sliceAt _ _ bytes.length
    rw [hlength]
    rfl
  rwa [hregion]

theorem FormatRun.tells
    (h : FormatRun graph metadata profile options plan geometry allocations placement marks parts)
    {isRoot : Bool} {length : ℕ} (hcontext : ContextFor plan.geometry isRoot length context) :
    Tells context geometry ∧ ∃ shift, 9 ≤ shift ∧ geometry.bytesPerCluster = 2 ^ shift := by
  obtain ⟨sectorShift, clusterShift, reserved, hchosen⟩ := h.chosen
  have hlow := hchosen.sector_mem
  have hcluster : geometry.bytesPerCluster = 2 ^ (sectorShift + clusterShift) := by
    rw [hchosen.cluster_eq, hchosen.sector_eq, Nat.pow_add]
  refine ⟨⟨?_, ?_, hchosen.count_le, ?_, h.cluster_pos⟩, _, by omega, hcluster⟩
  · rw [hcontext.clusterCount, h.geometry_eq, h.placed.clusterCount]
  · rw [hcontext.bytesPerCluster, h.geometry_eq, h.placed.clusterBytes]
  · rw [hcluster]
    exact Nat.pow_le_pow_right two_pos hchosen.cluster_le

/-- The reader accepts the context. -/
theorem FormatRun.validateContext_ok
    (h : FormatRun graph metadata profile options plan geometry allocations placement marks parts)
    {isRoot : Bool} {directory : Bytes} {clusters : ℕ}
    (hcontext : ContextFor plan.geometry isRoot directory.length context)
    (hlength : directory.length = clusters * geometry.bytesPerCluster) (hsome : clusters ≠ 0) :
    validateContext directory context = .ok () := by
  obtain ⟨sectorShift, clusterShift, reserved, hchosen⟩ := h.chosen
  obtain ⟨htells, shift, hshift, hcluster⟩ := h.tells hcontext
  have hcount : context.clusterCount ≠ 0 := by
    rw [htells.count]
    exact hchosen.count_pos.ne'
  have hpower : isNonzeroPowerOfTwo context.bytesPerCluster = true := by
    rw [htells.cluster, hcluster, isNonzeroPowerOfTwo, Nat.and_two_pow_sub_one_eq_mod, Nat.mod_self]
    simp
  obtain ⟨more, rfl⟩ := Nat.exists_eq_add_of_le hshift
  have hentries : directory.length = clusters * 2 ^ more * 16 * entryBytes := by
    rw [hlength, hcluster, Nat.pow_add, show entryBytes = 32 from rfl]
    ring
  have hdiv : directory.length / entryBytes = clusters * 2 ^ more * 16 := by
    rw [hentries, Nat.mul_div_cancel _ (by decide)]
  have hroom := hcontext.entries
  have hmax : context.maxEntries ≠ 0 := by
    have := Nat.mul_pos (Nat.pos_of_ne_zero hsome) (Nat.two_pow_pos more)
    omega
  rw [validateContext, ensure_of hcount, ok_bind, ensure_of hpower, ok_bind,
    ensure_of (.inl hcontext.numberOfFats), ok_bind, ensure_of hmax, ok_bind,
    ensure_of (by rw [hdiv, ← hentries]), ok_bind, ensure_of hroom]

/-- A directory holds what its layout lists: one entry set behind the other, each as the layout of the
child tells. -/
def Lists (graph : ObjectGraph) (profile : ExfatVolumeProfile) (geometry : ExfatDestinationGeometry)
    (pinned : PinnedExfatLayout) (layouts : Layouts) (upcase : UpcaseTable) (object : ObjectId)
    (allocation : Allocation) (bytes : Bytes) : Prop :=
  ∃ layout entries rest, layouts.get? object = some layout ∧
    layout.directoryClusters = allocation.clusters ∧
    List.Forall₂ (EntryOf layouts upcase geometry.bytesPerCluster) layout.children entries ∧
    bytes = systemEntries object graph.root pinned.bitmap pinned.upcase (bitmapLength geometry)
      profile.volumeLabel profile.encodedUpcaseTable profile.upcaseChecksum ++
        entries.flatMap ChildEntry.entrySet ++ zeros rest

/-- A directory has no more clusters than the heap. -/
theorem directories_le {limits : ExfatFormatLimits} {output : ExfatSerializationOutput}
    (h : serializeExfatDestinationImpl graph metadata profile options limits .final none = .ok output)
    {item : ObjectId × Allocation} (hitem : item ∈ output.pinned.directories) :
    item.2.clusterCount ≤ output.plan.geometry.clusterCount := by
  obtain ⟨geometry, allocations, placement, marks, parts, hrun, -, -, -, hdirectories⟩ :=
    serializeExfatDestinationImpl_ok (by simp) h
  rw [hdirectories] at hitem
  have hlength := length_le_of_inHeap List.nodup_range' (hrun.placed.directoryHeap hrun.cluster_pos
    hitem).1
  rwa [List.length_range', ← hrun.placed.clusterCount, ← hrun.geometry_eq] at hlength

end Directories

end Serialize

end Exfat

end StarConverter
