import StarConverter.Geometry.FreeSpace

/-!
# Relocating an object graph

`relocateObjectGraph` applies a layout to a graph: the extents named by the relocations get their new
place, materialized streams get fresh extents, and the graph is built again from the result.
-/

namespace StarConverter

open Base

namespace Geometry

inductive RelocatedGraphError
  | invalidRelocation (stream : StreamId) (logicalOffset : ℕ)
  | relocationSourceMissing (stream : StreamId) (logicalOffset : ℕ)
  | duplicateRelocationSource (stream : StreamId) (logicalOffset : ℕ)
  | nonPayloadRelocation (stream : StreamId) (logicalOffset : ℕ) (kind : ExtentKind)
  | relocatedByteCountMismatch (declared actual : ℕ)
  | duplicateMaterialization (stream : StreamId)
  | materializationUnknownStream (stream : StreamId)
  | materializationConflictsWithRelocation (stream : StreamId)
  | invalidMaterialization (stream : StreamId)
  | materializedByteCountMismatch (declared actual : ℕ)
  | extents (error : ExtentGraphError)
  | objects (error : ObjectGraphError)
  deriving DecidableEq

abbrev Relocated (α : Type) := Except RelocatedGraphError α

/-! ## Relocations -/

/-- Stream, logical offset, physical offset and length, in lexicographic order. -/
abbrev PhysicalExtentKey := ℕ ×ₗ ℕ ×ₗ ℕ ×ₗ ℕ

def physicalExtentKey (stream : StreamId) (logicalOffset byteOffset length : ℕ) :
    PhysicalExtentKey :=
  toLex (stream, toLex (logicalOffset, toLex (byteOffset, length)))

def relocationKey (relocation : Relocation) : PhysicalExtentKey :=
  physicalExtentKey relocation.stream relocation.logicalOffset relocation.source.offset
    relocation.source.length

/-- The key of a physical extent. -/
def extentKey? (extent : Extent) : Option PhysicalExtentKey :=
  match extent.placement with
  | .physical byteOffset =>
    some (physicalExtentKey extent.stream extent.logicalOffset byteOffset extent.length)
  | .sparse => none

/-- The keys of the physical extents with their positions, ordered by key. -/
def physicalExtentIndex (extents : List Extent) : List (PhysicalExtentKey × ℕ) :=
  sortByKey Prod.fst
    (extents.zipIdx.filterMap fun item => (extentKey? item.1).map fun key => (key, item.2))

/-- The binary search in the index. Physical extents do not overlap, so at most one position has
the key. -/
def findSource (sources : List (PhysicalExtentKey × ℕ)) (key : PhysicalExtentKey) : Option ℕ :=
  (sources.find? fun source => source.1 = key).map Prod.snd

def checkDistinctRelocations (relocations : List Relocation) : Relocated Unit :=
  checkPairs (fun first second => ensure (first ≠ second)
    (.duplicateRelocationSource (ofLex first).1 (ofLex (ofLex first).2).1))
    (sortByKey id (relocations.map relocationKey))

/-- The checks of one relocation that do not look at the graph. -/
def validateRelocation (layout : LayoutPlan) (relocation : Relocation) : Relocated Unit := do
  ensure (∀ materialization ∈ layout.materializations, materialization.stream ≠ relocation.stream)
    (.materializationConflictsWithRelocation relocation.stream)
  let invalid := RelocatedGraphError.invalidRelocation relocation.stream relocation.logicalOffset
  ensure (relocation.source.length ≠ 0 ∧
    relocation.source.length = relocation.destination.length) invalid
  let hit ← (overlaps relocation.source relocation.destination).mapError fun _ => invalid
  ensure (hit = false) invalid

/-- The relocations in order: bytes moved so far and the extents with their new places. -/
def remapExtents (layout : LayoutPlan) (sources : List (PhysicalExtentKey × ℕ)) :
    ℕ → List Extent → List Relocation → Relocated (ℕ × List Extent)
  | actualBytes, relocated, [] => pure (actualBytes, relocated)
  | actualBytes, relocated, relocation :: rest => do
    validateRelocation layout relocation
    let actualBytes ← orErr (checkedAdd actualBytes relocation.source.length)
      (.relocatedByteCountMismatch layout.relocatedBytes (wordBound - 1))
    let missing := RelocatedGraphError.relocationSourceMissing relocation.stream
      relocation.logicalOffset
    let index ← orErr (findSource sources (relocationKey relocation)) missing
    let extent ← orErr relocated[index]? missing
    ensure (extent.kind = .fileData)
      (.nonPayloadRelocation relocation.stream relocation.logicalOffset extent.kind)
    remapExtents layout sources actualBytes
      (relocated.set index { extent with placement := .physical relocation.destination.offset }) rest

/-! ## Materializations -/

/-- The allocated bytes of a materialization. -/
def allocationBytes (stream : StreamId) : ℕ → List ByteRange → Relocated ℕ
  | total, [] => pure total
  | total, destination :: rest => do
    ensure (destination.length ≠ 0) (.invalidMaterialization stream)
    let _ ← (rangeEnd destination).mapError fun _ =>
      RelocatedGraphError.invalidMaterialization stream
    let total ← orErr (checkedAdd total destination.length) (.invalidMaterialization stream)
    allocationBytes stream total rest

/-- The stream of a file; a stream of anything else is refused. -/
def findFileStream (stream : StreamId) : List ObjectRecord → Relocated ObjectStream
  | [] => .error (.materializationUnknownStream stream)
  | object :: rest =>
    if object.kind ≠ .file then do
      ensure (∀ candidate ∈ object.streams, candidate.id ≠ stream) (.invalidMaterialization stream)
      findFileStream stream rest
    else
      match object.streams.find? fun candidate => candidate.id = stream with
      | some found => pure found
      | none => findFileStream stream rest

/-- The record of a stream once its decoded bytes are stored in ordinary extents. -/
def materializeStream (allocation : ℕ) (stream : ObjectStream) : ObjectStream :=
  { stream with
    storage := .extents
    mappedBytes := allocation
    allocatedBytes := allocation
    flags := { stream.flags with compressed := false, compressionBlockBytes := 0 } }

/-- Changes the stream through the reference found; identities of streams are distinct. -/
def updateStream (stream : StreamId) (f : ObjectStream → ObjectStream)
    (objects : List ObjectRecord) : List ObjectRecord :=
  objects.map fun object =>
    { object with
      streams := object.streams.map fun candidate =>
        if candidate.id = stream then f candidate else candidate }

/-- The new extents of a materialized stream, from one logical offset on. -/
def placeDestinations (stream : StreamId) : ℕ → List ByteRange → Relocated (List Extent)
  | _, [] => pure []
  | logicalOffset, destination :: rest => do
    let next ← orErr (checkedAdd logicalOffset destination.length) (.invalidMaterialization stream)
    let more ← placeDestinations stream next rest
    pure (⟨stream, logicalOffset, destination.length, .physical destination.offset, .fileData⟩ ::
      more)

/-- Bytes, objects and extents after the materializations. -/
structure Materialized where
  actualBytes : ℕ
  objects : List ObjectRecord
  extents : List Extent

def applyMaterialization (layout : LayoutPlan) (state : Materialized)
    (materialization : Materialization) : Relocated Materialized := do
  let stream := materialization.stream
  ensure (materialization.destinations ≠ []) (.invalidMaterialization stream)
  let allocation ← allocationBytes stream 0 materialization.destinations
  let actualBytes ← orErr (checkedAdd state.actualBytes allocation)
    (.materializedByteCountMismatch layout.materializedBytes (wordBound - 1))
  let found ← findFileStream stream state.objects
  ensure (¬ (found.logicalBytes = 0 ∨ allocation < found.logicalBytes))
    (.invalidMaterialization stream)
  let placed ← placeDestinations stream 0 materialization.destinations
  pure
    { actualBytes := actualBytes
      objects := updateStream stream (materializeStream allocation) state.objects
      extents := state.extents.filter (fun extent =>
        ¬ (extent.stream = stream ∧ extent.kind = .fileData)) ++ placed }

def applyEach (layout : LayoutPlan) :
    Materialized → List Materialization → Relocated Materialized
  | state, [] => pure state
  | state, materialization :: rest => do
    let state ← applyMaterialization layout state materialization
    applyEach layout state rest

def applyMaterializations (objects : List ObjectRecord) (extents : List Extent)
    (layout : LayoutPlan) : Relocated (List ObjectRecord × List Extent) := do
  checkPairs (fun first second => ensure (first ≠ second)
    (RelocatedGraphError.duplicateMaterialization first))
    (sortByKey id (layout.materializations.map Materialization.stream))
  let state ← applyEach layout ⟨0, objects, extents⟩ layout.materializations
  ensure (state.actualBytes = layout.materializedBytes)
    (.materializedByteCountMismatch layout.materializedBytes state.actualBytes)
  pure (state.objects, state.extents)

/-! ## The rebuilt graph -/

/-- The most extents a rebuilt graph may have. -/
def rebuiltExtentLimit (source : ObjectGraph) (objects : List ObjectRecord) : ℕ :=
  max (saturatingAdd source.extents.extents.length objects.length) 1

def rebuiltLimits (source : ObjectGraph) (objects : List ObjectRecord) : ObjectGraphLimits :=
  { maxObjects := max objects.length 1
    maxEntries := max source.entries.length 1
    maxStreams := max (ObjectGraph.streamCount objects) 1
    maxNameCodeUnits := max (((source.entries.map fun entry => entry.name.length).max?).getD 1) 1 }

def rebuildRelocatedGraphWithObjects (source : ObjectGraph) (objects : List ObjectRecord)
    (relocated : List Extent) : Relocated ObjectGraph := do
  let extents ← (ExtentGraph.build relocated source.extents.volumeBytes
    (rebuiltExtentLimit source objects)).mapError RelocatedGraphError.extents
  (ObjectGraph.build source.root objects source.entries extents
    (rebuiltLimits source objects)).mapError RelocatedGraphError.objects

/-- Rebuilds an object graph with its payload relocated and its streams materialized. -/
def relocateObjectGraph (source : ObjectGraph) (layout : LayoutPlan) : Relocated ObjectGraph := do
  checkDistinctRelocations layout.relocations
  let (actualBytes, relocated) ← remapExtents layout (physicalExtentIndex source.extents.extents) 0
    source.extents.extents layout.relocations
  ensure (actualBytes = layout.relocatedBytes)
    (.relocatedByteCountMismatch layout.relocatedBytes actualBytes)
  let (objects, relocated) ← applyMaterializations source.objects relocated layout
  rebuildRelocatedGraphWithObjects source objects relocated

/-- A layout that was applied to a source graph. -/
structure SealedRelocationPlan where
  sourceGraph : ObjectGraph
  targetGraph : ObjectGraph
  layout : LayoutPlan
  relocated : relocateObjectGraph sourceGraph layout = .ok targetGraph

/-- `SealedRelocationPlan::seal`. -/
def SealedRelocationPlan.seal (sourceGraph : ObjectGraph) (layout : LayoutPlan) :
    Relocated SealedRelocationPlan :=
  match h : relocateObjectGraph sourceGraph layout with
  | .error e => .error e
  | .ok targetGraph => .ok ⟨sourceGraph, targetGraph, layout, h⟩

/-! ## What a relocation does to the extents -/

/-- The relocation of an extent, if the list has one. -/
def relocationOf (relocations : List Relocation) (extent : Extent) : Option Relocation :=
  relocations.find? fun relocation => extentKey? extent = some (relocationKey relocation)

/-- An extent with its new place. -/
def moveExtent (relocations : List Relocation) (extent : Extent) : Extent :=
  match relocationOf relocations extent with
  | some relocation => { extent with placement := .physical relocation.destination.offset }
  | none => extent

section MoveExtent

variable (relocations : List Relocation) (e : Extent)

@[simp] theorem moveExtent_stream : (moveExtent relocations e).stream = e.stream := by
  unfold moveExtent; split <;> rfl

@[simp] theorem moveExtent_logicalOffset :
    (moveExtent relocations e).logicalOffset = e.logicalOffset := by
  unfold moveExtent; split <;> rfl

@[simp] theorem moveExtent_length : (moveExtent relocations e).length = e.length := by
  unfold moveExtent; split <;> rfl

@[simp] theorem moveExtent_kind : (moveExtent relocations e).kind = e.kind := by
  unfold moveExtent; split <;> rfl

/-- Only physical extents have a relocation. -/
@[simp] theorem moveExtent_isPhysical :
    (moveExtent relocations e).placement.isPhysical = e.placement.isPhysical := by
  unfold moveExtent
  split
  · next r hr =>
    have hk : extentKey? e = some (relocationKey r) := by simpa using List.find?_some hr
    unfold extentKey? at hk
    split at hk
    · next off hp => rw [hp]; rfl
    · cases hk
  · rfl

end MoveExtent

theorem extentKey?_eq_some {e : Extent} {relocation : Relocation} :
    extentKey? e = some (relocationKey relocation) ↔ e.stream = relocation.stream ∧
      e.logicalOffset = relocation.logicalOffset ∧ e.physical? = some relocation.source := by
  have hkey : ∀ {a b c d a' b' c' d' : ℕ}, physicalExtentKey a b c d = physicalExtentKey a' b' c' d' ↔
      a = a' ∧ b = b' ∧ c = c' ∧ d = d' := by
    intro a b c d a' b' c' d'
    simp [physicalExtentKey]
  have hspan : ∀ {c d : ℕ} {s : ByteRange}, (⟨c, d⟩ : ByteRange) = s ↔ c = s.offset ∧ d = s.length := by
    intro c d s
    cases s
    simp
  unfold extentKey? Extent.physical? relocationKey
  cases e.placement with
  | physical off => rw [Option.some.injEq, hkey, Option.some.injEq, hspan]
  | sparse => simp

/-- In an extent graph the physical range determines the extent. -/
theorem physical_inj {extents : List Extent} (hpos : ∀ e ∈ extents, 0 < e.length)
    (hd : extents.Pairwise PhysicallyDisjoint) {i j : ℕ} {a b : Extent} {r : ByteRange}
    (ha : extents[i]? = some a) (hb : extents[j]? = some b) (har : a.physical? = some r)
    (hbr : b.physical? = some r) : i = j := by
  have hpos' : 0 < r.length := by
    rw [physical_length har]; exact hpos a (List.mem_of_getElem? ha)
  obtain ⟨hi, rfl⟩ := List.getElem?_eq_some_iff.1 ha
  obtain ⟨hj, rfl⟩ := List.getElem?_eq_some_iff.1 hb
  have hne : ∀ x y : Extent, x.physical? = some r → y.physical? = some r →
      ¬ PhysicallyDisjoint x y := by
    intro x y hx hy h
    exact h r hx r hy r.offset ⟨le_rfl, by unfold Span.stop; omega⟩
      ⟨le_rfl, by unfold Span.stop; omega⟩
  rcases lt_trichotomy i j with h | h | h
  · exact absurd (List.pairwise_iff_getElem.1 hd i j hi hj h) (hne _ _ har hbr)
  · exact h
  · exact absurd (List.pairwise_iff_getElem.1 hd j i hj hi h) (hne _ _ hbr har)

theorem findSource_some {extents : List Extent} {key : PhysicalExtentKey} {index : ℕ}
    (h : findSource (physicalExtentIndex extents) key = some index) :
    ∃ e, extents[index]? = some e ∧ extentKey? e = some key := by
  unfold findSource at h
  simp only [Option.map_eq_some_iff] at h
  obtain ⟨⟨k, i⟩, hf, rfl⟩ := h
  have hk : k = key := by simpa using List.find?_some hf
  have hm := List.mem_of_find?_eq_some hf
  rw [physicalExtentIndex, mem_sortByKey, List.mem_filterMap] at hm
  obtain ⟨⟨e, i'⟩, hmem, he⟩ := hm
  simp only [Option.map_eq_some_iff, Prod.mk.injEq] at he
  obtain ⟨k', hk', rfl, rfl⟩ := he
  exact ⟨e, by simpa using List.mem_zipIdx_iff_getElem?.1 hmem, hk ▸ hk'⟩

theorem findSource_isSome {extents : List Extent} {key : PhysicalExtentKey} {e : Extent}
    (he : e ∈ extents) (hk : extentKey? e = some key) :
    ∃ index, findSource (physicalExtentIndex extents) key = some index := by
  obtain ⟨i, hi⟩ := List.getElem?_of_mem he
  have hm : (key, i) ∈ physicalExtentIndex extents := by
    rw [physicalExtentIndex, mem_sortByKey, List.mem_filterMap]
    exact ⟨(e, i), List.mem_zipIdx_iff_getElem?.2 (by simpa using hi), by simp [hk]⟩
  unfold findSource
  cases hf : (physicalExtentIndex extents).find? fun source => source.1 = key with
  | some s => exact ⟨s.2, rfl⟩
  | none =>
    have := List.find?_eq_none.1 hf _ hm
    simp at this

theorem relocationOf_append (done : List Relocation) (r : Relocation) (e : Extent) :
    relocationOf (done ++ [r]) e = (relocationOf done e).or
      (if extentKey? e = some (relocationKey r) then some r else none) := by
  unfold relocationOf
  rw [List.find?_append]
  by_cases h : extentKey? e = some (relocationKey r)
  · simp [h]
  · simp [h]

theorem relocationOf_eq_none {relocations : List Relocation} {e : Extent} {r : Relocation}
    (hk : extentKey? e = some (relocationKey r))
    (hr : relocationKey r ∉ relocations.map relocationKey) : relocationOf relocations e = none := by
  refine List.find?_eq_none.2 fun r' hr' => ?_
  simp only [decide_eq_true_eq]
  intro hk'
  rw [hk] at hk'
  exact hr (Option.some.inj hk' ▸ List.mem_map_of_mem hr')

section Remap

variable {extents : List Extent} (hpos : ∀ e ∈ extents, 0 < e.length)
  (hd : extents.Pairwise PhysicallyDisjoint)

include hpos hd in
/-- One assignment of the loop moves exactly the extent the relocation names. -/
theorem set_moveExtent {done : List Relocation} {r : Relocation} {index : ℕ} {e : Extent}
    (hr : relocationKey r ∉ done.map relocationKey) (he : extents[index]? = some e)
    (hk : extentKey? e = some (relocationKey r)) :
    (extents.map (moveExtent done)).set index { moveExtent done e with
      placement := .physical r.destination.offset } = extents.map (moveExtent (done ++ [r])) := by
  have hnone := relocationOf_eq_none hk hr
  apply List.ext_getElem?
  intro j
  by_cases hj : index = j
  · subst hj
    obtain ⟨hi, -⟩ := List.getElem?_eq_some_iff.1 he
    rw [List.getElem?_set_self (by simpa using hi), List.getElem?_map, he]
    simp [moveExtent, relocationOf_append, hnone, hk]
  · rw [List.getElem?_set_ne hj, List.getElem?_map, List.getElem?_map]
    cases hb : extents[j]? with
    | none => rfl
    | some b =>
      have hkb : extentKey? b ≠ some (relocationKey r) := by
        intro hkb
        exact hj (physical_inj hpos hd he hb (extentKey?_eq_some.1 hk).2.2
          (extentKey?_eq_some.1 hkb).2.2)
      simp [moveExtent, relocationOf_append, hkb]

/-- A relocation the graph can carry out. -/
def Relocates (layout : LayoutPlan) (extents : List Extent) (r : Relocation) : Prop :=
  validateRelocation layout r = .ok () ∧
    ∃ e ∈ extents, extentKey? e = some (relocationKey r) ∧ e.kind = .fileData

include hpos hd in
theorem remapExtents_ok_iff (layout : LayoutPlan) (out : ℕ × List Extent)
    {done rest : List Relocation} {actual : ℕ} (ha : actual < wordBound)
    (hnd : ((done ++ rest).map relocationKey).Nodup) :
    remapExtents layout (physicalExtentIndex extents) actual (extents.map (moveExtent done)) rest =
        .ok out ↔
      (∀ r ∈ rest, Relocates layout extents r) ∧
        actual + (rest.map fun r => r.source.length).sum < wordBound ∧
        out = (actual + (rest.map fun r => r.source.length).sum,
          extents.map (moveExtent (done ++ rest))) := by
  induction rest generalizing done actual with
  | nil => simp [remapExtents, ha, eq_comm]
  | cons r rest ih =>
    have hsplit : done ++ r :: rest = done ++ [r] ++ rest := by simp
    have hr : relocationKey r ∉ done.map relocationKey := by
      rw [List.map_append, List.nodup_append] at hnd
      intro hmem
      exact hnd.2.2 _ hmem _ (by simp) rfl
    -- Both directions come down to the extent the index finds.
    have hstep : ∀ {index : ℕ} {e : Extent}, extents[index]? = some e →
        extentKey? e = some (relocationKey r) → ∀ {a : ℕ}, a < wordBound →
        (remapExtents layout (physicalExtentIndex extents) a
            ((extents.map (moveExtent done)).set index { moveExtent done e with
              placement := .physical r.destination.offset }) rest = .ok out ↔
          (∀ r ∈ rest, Relocates layout extents r) ∧
            a + (rest.map fun r => r.source.length).sum < wordBound ∧
            out = (a + (rest.map fun r => r.source.length).sum,
              extents.map (moveExtent (done ++ r :: rest)))) := by
      intro index e he hk a ha'
      rw [set_moveExtent hpos hd hr he hk, ih ha' (by rw [← hsplit]; exact hnd), ← hsplit]
    simp only [remapExtents, bind_ok_iff, exists_const, orErr_ok_iff, checkedAdd_eq_some,
      ensure_ok_iff, List.map_cons, List.sum_cons, ← Nat.add_assoc, List.forall_mem_cons]
    constructor
    · rintro ⟨_, hv, _, ⟨hlt, rfl⟩, index, hfind, moved, hmoved, hkind, hrest⟩
      obtain ⟨e, he, hk⟩ := findSource_some hfind
      rw [List.getElem?_map, he, Option.map_some, Option.some.injEq] at hmoved
      subst hmoved
      rw [hstep he hk hlt] at hrest
      rw [moveExtent_kind] at hkind
      exact ⟨⟨⟨hv, e, List.mem_of_getElem? he, hk, hkind⟩, hrest.1⟩, hrest.2⟩
    · rintro ⟨⟨⟨hv, e', he', hk', hkind⟩, hrest⟩, hlt, hout⟩
      obtain ⟨index, hfind⟩ := findSource_isSome he' hk'
      obtain ⟨e, he, hk⟩ := findSource_some hfind
      have heq : e = e' := by
        obtain ⟨j, hj⟩ := List.getElem?_of_mem he'
        have := physical_inj hpos hd he hj (extentKey?_eq_some.1 hk).2.2
          (extentKey?_eq_some.1 hk').2.2
        rw [← this, he] at hj
        exact Option.some.inj hj
      subst heq
      refine ⟨(), hv, _, ⟨by omega, rfl⟩, index, hfind, moveExtent done e, ?_, ?_, ?_⟩
      · rw [List.getElem?_map, he, Option.map_some]
      · rw [moveExtent_kind]; exact hkind
      · exact (hstep he hk (by omega)).2 ⟨hrest, hlt, hout⟩

include hpos hd in
/-- The whole loop, from the extents of the graph. -/
theorem remapExtents_source_ok_iff {layout : LayoutPlan} {out : ℕ × List Extent}
    (hnd : (layout.relocations.map relocationKey).Nodup) :
    remapExtents layout (physicalExtentIndex extents) 0 extents layout.relocations = .ok out ↔
      (∀ r ∈ layout.relocations, Relocates layout extents r) ∧
        (layout.relocations.map fun r => r.source.length).sum < wordBound ∧
        out = ((layout.relocations.map fun r => r.source.length).sum,
          extents.map (moveExtent layout.relocations)) := by
  have hnil : extents.map (moveExtent []) = extents := List.map_id _
  have hnd' : (([] ++ layout.relocations).map relocationKey).Nodup := by simpa using hnd
  have := remapExtents_ok_iff hpos hd layout out wordBound_pos hnd'
  simpa only [hnil, Nat.zero_add, List.nil_append] using this

end Remap

end Geometry

end StarConverter
