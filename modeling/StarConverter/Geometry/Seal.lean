import StarConverter.Geometry.Materialize

/-!
# Sealing a solved layout

Sealing applies a solved layout to the graph it was solved for. Everything the solver promises passes
the checks of the rebuilt graph except for two things the solver does not see: the rebuilt graph may
have at most one extent per old extent and object, while the solver splits materialized streams freely,
and a materialized stream keeps its extents of other kinds. `seal_ok_iff` says that these are the only
reasons for a failure.
-/

namespace StarConverter

open Base

namespace Geometry

/-- Stream, logical offset and range of the physical file data that stays payload when the given
streams are materialized. -/
def payload? (streams : List StreamId) (e : Extent) : Option (StreamId × ℕ × ByteRange) :=
  if e.kind = .fileData ∧ e.stream ∉ streams then
    e.physical?.map fun r => (e.stream, e.logicalOffset, r)
  else none

/-- The streams the requests name. -/
def LayoutInput.requested (i : LayoutInput) : List StreamId :=
  i.materializationRequests.map MaterializationRequest.stream

/-- The solver is asked about this graph: its payload is the source, everything else it stores is
excluded, and the requests have the lengths the graph asks for. -/
structure SealInput (g : ObjectGraph) (i : LayoutInput) : Prop where
  volume : i.volumeBytes = g.extents.volumeBytes
  source : (i.source.map fun a => (a.stream, a.logicalOffset, a.range)).Perm
    (g.extents.extents.filterMap (payload? i.requested))
  exclusions : ∀ r ∈ (g.extents.extents.filter fun e => payload? i.requested e = none).filterMap
    Extent.physical?, r ∈ i.stagingExclusions
  requests : ∀ r ∈ i.materializationRequests,
    materializationLengthForStream g r.stream i.destinationAlignment = some r.destinationLength

/-- What the rebuilt graph asks of a layout beyond what the solver promises. -/
structure Sealable (g : ObjectGraph) (plan : LayoutPlan) : Prop where
  kinds : ∀ m ∈ plan.materializations, ∀ e ∈ g.extents.extents, e.stream = m.stream →
    e.kind = .fileData
  count : (keptExtents plan.materializations g.extents.extents).length +
      (plan.materializations.map fun m => m.destinations.length).sum ≤
    rebuiltExtentLimit g g.objects

/-! ## What a solved layout brings along -/

/-- A layout that fits a graph, up to the checks of the rebuilt graph. -/
structure FitsGraph (g : ObjectGraph) (plan : LayoutPlan) : Prop where
  targets : ∀ s ∈ plan.targets,
    0 < s.length ∧ s.stop < wordBound ∧ s.stop ≤ g.extents.volumeBytes
  disjoint : plan.targets.Pairwise Span.Disjoint
  fresh : ∀ s ∈ plan.targets, ∀ e ∈ g.extents.extents, ∀ r, e.physical? = some r → s.Disjoint r
  distinct : (plan.relocations.map relocationKey).Nodup
  length_eq : ∀ r ∈ plan.relocations, r.destination.length = r.source.length
  payload : ∀ r ∈ plan.relocations, r.stream ∉ plan.materializations.map Materialization.stream ∧
    ∃ e ∈ g.extents.extents, extentKey? e = some (relocationKey r) ∧ e.kind = .fileData
  streams : (plan.materializations.map Materialization.stream).Nodup
  found : ∀ m ∈ plan.materializations, m.destinations ≠ [] ∧
    ∃ found, findFileStream m.stream g.objects = .ok found ∧ found.logicalBytes ≠ 0 ∧
      found.logicalBytes ≤ spanTotal m.destinations
  relocated_eq : (plan.relocations.map fun r => r.source.length).sum = plan.relocatedBytes
  materialized_eq : (plan.materializations.map fun m => spanTotal m.destinations).sum =
    plan.materializedBytes

theorem payload?_eq_some {streams : List StreamId} {e : Extent} {s : StreamId} {o : ℕ}
    {r : ByteRange} : payload? streams e = some (s, o, r) ↔ e.kind = .fileData ∧ e.stream ∉ streams ∧
      e.stream = s ∧ e.logicalOffset = o ∧ e.physical? = some r := by
  unfold payload?
  split_ifs with h
  · cases hp : e.physical? with
    | none => simp
    | some r' => simp [h.1, h.2]
  · simp only [false_iff]
    exact fun h' => h ⟨h'.1, h'.2.1⟩

theorem nodup_payload {g : ExtentGraph} (streams : List StreamId) :
    (g.extents.filterMap (payload? streams)).Nodup := by
  have hd : g.extents.Pairwise fun a b => a ∈ g.extents ∧ PhysicallyDisjoint a b :=
    g.physical.imp_of_mem fun ha _ h => ⟨ha, h⟩
  refine List.pairwise_filterMap.2 (hd.imp fun {a b} h x hx y hy hxy => ?_)
  subst hxy
  obtain ⟨s, o, r⟩ := x
  have ha := (payload?_eq_some.1 hx).2.2.2.2
  have hb := (payload?_eq_some.1 hy).2.2.2.2
  have hpos : 0 < r.length := by
    rw [physical_length ha]
    exact (g.valid a h.1).nonempty
  refine h.2 r ha r hb r.offset ⟨le_rfl, ?_⟩ ⟨le_rfl, ?_⟩ <;>
  · unfold Span.stop; omega

theorem relocationKey_inj {r r' : Relocation} (h : relocationKey r = relocationKey r') :
    (r.stream, r.logicalOffset, r.source) = (r'.stream, r'.logicalOffset, r'.source) := by
  simp only [relocationKey, physicalExtentKey, toLex_inj, Prod.mk.injEq] at h
  obtain ⟨h1, h2, h3, h4⟩ := h
  have hs : r.source = r'.source := by
    cases hr : r.source
    cases hr' : r'.source
    simp only [hr, hr'] at h3 h4
    rw [h3, h4]
  rw [h1, h2, hs]

theorem map_stream_of_serves {ms : List Materialization} {requests : List MaterializationRequest}
    (h : List.Forall₂ Serves ms requests) :
    ms.map Materialization.stream = requests.map MaterializationRequest.stream := by
  induction h with
  | nil => rfl
  | cons hs _ ih => rw [List.map_cons, List.map_cons, hs.stream, ih]

theorem exists_request {ms : List Materialization} {requests : List MaterializationRequest}
    (h : List.Forall₂ Serves ms requests) {m : Materialization} (hm : m ∈ ms) :
    ∃ r ∈ requests, Serves m r := by
  induction h with
  | nil => simp at hm
  | cons hs _ ih =>
    rcases List.mem_cons.1 hm with rfl | hm
    · exact ⟨_, by simp, hs⟩
    · obtain ⟨r, hr, hs'⟩ := ih hm
      exact ⟨r, by simp [hr], hs'⟩

theorem sum_spanTotal (ms : List Materialization) :
    (ms.map fun m => spanTotal m.destinations).sum =
      ((ms.flatMap Materialization.destinations).map fun s => s.length).sum := by
  induction ms with
  | nil => rfl
  | cons m ms ih =>
    rw [List.map_cons, List.sum_cons, ih, List.flatMap_cons, List.map_append, List.sum_append]
    rfl

/-- A layout solved for a graph fits it. -/
theorem fitsGraph_of_solved {g : ObjectGraph} {i : LayoutInput} {plan : LayoutPlan}
    (hi : SealInput g i)
    (h : solveLayoutWithDestinationDomainAlignmentsAndMaterializations i = .ok plan) :
    FitsGraph g plan := by
  simp only [solveLayoutWithDestinationDomainAlignmentsAndMaterializations, bind_ok_iff] at h
  obtain ⟨_, -, h⟩ := h
  have hsound := solveLayout_sound h
  obtain ⟨t⟩ := exists_solveTrace h
  have hv := t.valid
  have hserves : List.Forall₂ Serves plan.materializations i.materializationRequests :=
    hsound.materialized
  have hstreams : plan.materializations.map Materialization.stream = i.requested :=
    map_stream_of_serves hserves
  have hsource : ∀ r ∈ plan.relocations, ∃ a ∈ i.source,
      (a.stream, a.logicalOffset, a.range) = (r.stream, r.logicalOffset, r.source) := by
    intro r hr
    have := hsound.relocated.mem_iff.1 (List.mem_map_of_mem hr)
    obtain ⟨a, ha, heq⟩ := List.mem_map.1 this
    exact ⟨a, List.mem_of_mem_filter ha, heq⟩
  have hpayload : ∀ r ∈ plan.relocations, ∃ e ∈ g.extents.extents,
      payload? i.requested e = some (r.stream, r.logicalOffset, r.source) := by
    intro r hr
    obtain ⟨a, ha, heq⟩ := hsource r hr
    have := hi.source.mem_iff.1 (List.mem_map_of_mem ha)
    rw [heq] at this
    exact List.mem_filterMap.1 this
  have hpos : ∀ s ∈ plan.targets, 0 < s.length := by
    intro s hs
    rcases List.mem_append.1 hs with hs | hs
    · obtain ⟨r, hr, rfl⟩ := List.mem_map.1 hs
      obtain ⟨a, ha, heq⟩ := hsource r hr
      simp only [Prod.mk.injEq] at heq
      rw [hsound.relocated_length r hr, ← heq.2.2]
      exact (hv.source a ha).nonempty
    · obtain ⟨m, hm, hs⟩ := List.mem_flatMap.1 hs
      obtain ⟨r, -, hr⟩ := exists_request hserves hm
      exact hr.nonempty s hs
  refine ⟨?_, hsound.targets_disjoint, ?_, ?_, hsound.relocated_length, ?_, ?_, ?_,
    hsound.relocated_bytes.symm, ?_⟩
  · intro s hs
    have hin := (hsound.targets_placed s hs).1.2
    have hdom := hv.domain_stop
    exact ⟨hpos s hs, hin.trans_lt hdom.1, hi.volume ▸ hin.trans hdom.2⟩
  · intro s hs e he r hr
    obtain ⟨h1, -, h3⟩ := hsound.targets_fresh s hs
    cases hp : payload? i.requested e with
    | none =>
      refine h3 r (hi.exclusions r (List.mem_filterMap.2 ⟨e, List.mem_filter.2 ⟨he, ?_⟩, hr⟩))
      exact decide_eq_true hp
    | some x =>
      obtain ⟨st, o, r'⟩ := x
      have hr' := (payload?_eq_some.1 hp).2.2.2.2
      obtain rfl := Option.some.inj (hr.symm.trans hr')
      have := hi.source.mem_iff.2 (List.mem_filterMap.2 ⟨e, he, hp⟩)
      obtain ⟨a, ha, heq⟩ := List.mem_map.1 this
      simp only [Prod.mk.injEq] at heq
      rw [← heq.2.2]
      exact h1 a ha
  · have hnd : (plan.relocations.map fun r => (r.stream, r.logicalOffset, r.source)).Nodup := by
      refine hsound.relocated.nodup_iff.2 ?_
      refine List.Nodup.sublist (List.filter_sublist.map _) ?_
      exact hi.source.nodup_iff.2 (nodup_payload i.requested)
    rw [List.Nodup, List.pairwise_map] at hnd ⊢
    exact hnd.imp fun hne heq => hne (relocationKey_inj heq)
  · intro r hr
    obtain ⟨e, he, hp⟩ := hpayload r hr
    obtain ⟨h1, h2, h3, h4, h5⟩ := payload?_eq_some.1 hp
    exact ⟨by rw [hstreams, ← h3]; exact h2, e, he, extentKey?_eq_some.2 ⟨h3, h4, h5⟩, h1⟩
  · rw [hstreams]; exact hv.distinct
  · intro m hm
    obtain ⟨r, hr, hs⟩ := exists_request hserves hm
    have hsum : spanTotal m.destinations = r.destinationLength := hs.sum
    obtain ⟨record, hf, h0, hle⟩ := materializationLength_some (hi.requests r hr)
    refine ⟨?_, record, ?_, h0, hsum ▸ hle⟩
    · intro hnil
      rw [hnil] at hsum
      exact (hv.requests r hr).1 hsum.symm
    · rw [hs.stream]; exact findFileStream_of_findStream hf
  · rw [sum_spanTotal]; exact hsound.materialized_bytes.symm

section Rebuilt

variable {g : ObjectGraph} {plan : LayoutPlan}

theorem FitsGraph.mem_targets {r : Relocation} (hr : r ∈ plan.relocations) :
    r.destination ∈ plan.targets :=
  List.mem_append_left _ (List.mem_map_of_mem hr)

theorem FitsGraph.mem_targets_of_materialization {m : Materialization} {s : ByteRange}
    (hm : m ∈ plan.materializations) (hs : s ∈ m.destinations) : s ∈ plan.targets :=
  List.mem_append_right _ (List.mem_flatMap.2 ⟨m, hm, hs⟩)

/-- Targets of any part of the plan have fewer bytes than a word can count. -/
theorem FitsGraph.sum_lt (h : FitsGraph g plan) {l : List ByteRange}
    (hl : l.Sublist plan.targets) : (l.map fun s => s.length).sum < wordBound := by
  have hle : (l.map fun s => s.length).sum ≤ wordBound - 1 := by
    refine sum_length_le (fun s hs => (h.targets s (hl.subset hs)).1) (h.disjoint.sublist hl) ?_
    intro s hs
    have := (h.targets s (hl.subset hs)).2.1
    omega
  have := wordBound_pos
  omega

theorem FitsGraph.spanTotal_lt (h : FitsGraph g plan) {m : Materialization}
    (hm : m ∈ plan.materializations) : spanTotal m.destinations < wordBound := by
  refine h.sum_lt (List.Sublist.trans ?_ (List.sublist_append_right _ _))
  rw [← List.flatMap_singleton Materialization.destinations m]
  exact (List.singleton_sublist.2 hm).flatMap _

theorem overlaps_eq_false {r s : ByteRange} (hr : r.stop < wordBound) (hs : s.stop < wordBound)
    (hpr : 0 < r.length) (hps : 0 < s.length) (hd : r.Disjoint s) : overlaps r s = .ok false := by
  have hno := Span.not_overlaps_of_disjoint hpr hps hd
  have h1 : rangeEnd s = .ok s.stop := rangeEnd_ok_iff.2 ⟨hs, rfl⟩
  have h2 : rangeEnd r = .ok r.stop := rangeEnd_ok_iff.2 ⟨hr, rfl⟩
  unfold overlaps
  rw [h1, ok_bind]
  split_ifs with hlt
  · rw [h2, ok_bind]
    simp only [pure_eq_ok, Except.ok.injEq, decide_eq_false_iff_not]
    exact fun h => hno ⟨hlt, h⟩
  · rfl

theorem FitsGraph.relocates (h : FitsGraph g plan) {r : Relocation} (hr : r ∈ plan.relocations) :
    Relocates plan g.extents.extents r := by
  obtain ⟨hstream, e, he, hk, hkind⟩ := h.payload r hr
  have hphys := (extentKey?_eq_some.1 hk).2.2
  have hvalid := g.extents.valid e he
  have hpos : 0 < r.source.length := by rw [physical_length hphys]; exact hvalid.nonempty
  obtain ⟨hdpos, hdlt, -⟩ := h.targets _ (mem_targets hr)
  refine ⟨?_, e, he, hk, hkind⟩
  simp only [validateRelocation, bind_ok_iff, exists_const, ensure_ok_iff, mapError_ok_iff]
  refine ⟨?_, ⟨hpos.ne', (h.length_eq r hr).symm⟩, false, ?_, rfl⟩
  · intro m hm heq
    exact hstream (heq ▸ List.mem_map_of_mem hm)
  · exact overlaps_eq_false (hvalid.physical _ hphys).1 hdlt hpos hdpos
      (h.fresh _ (mem_targets hr) e he _ hphys).symm

theorem FitsGraph.applicable (h : FitsGraph g plan) : Applicable g plan := by
  refine ⟨h.distinct, fun r hr => h.relocates hr, ?_, h.relocated_eq, h.streams, ?_, ?_,
    h.materialized_eq⟩
  · have heq : (plan.relocations.map fun r => r.source.length) =
        (plan.relocations.map Relocation.destination).map fun s => s.length := by
      rw [List.map_map]
      exact List.map_congr_left fun r hr => (h.length_eq r hr).symm
    rw [heq]
    exact h.sum_lt (List.sublist_append_left _ _)
  · intro m hm
    obtain ⟨hne, hfound⟩ := h.found m hm
    refine ⟨hne, fun s hs => ?_, h.spanTotal_lt hm, hfound⟩
    have := h.targets s (mem_targets_of_materialization hm hs)
    exact ⟨this.1, this.2.1⟩
  · rw [sum_spanTotal]
    exact h.sum_lt (List.sublist_append_right _ _)

/-! ## The rebuilt extents -/

/-- The place of a moved extent is its old place or the destination of its relocation. -/
theorem physical_moveExtent {e : Extent} {s : ByteRange}
    (hlen : ∀ r ∈ plan.relocations, r.destination.length = r.source.length)
    (hs : (moveExtent plan.relocations e).physical? = some s) :
    e.physical? = some s ∨
      ∃ r ∈ plan.relocations, e.physical? = some r.source ∧ s = r.destination := by
  unfold moveExtent at hs
  split at hs
  · next r hr =>
    have hmem := List.mem_of_find?_eq_some hr
    have hk : extentKey? e = some (relocationKey r) := by simpa using List.find?_some hr
    have hphys := (extentKey?_eq_some.1 hk).2.2
    refine Or.inr ⟨r, hmem, hphys, ?_⟩
    have hle : e.length = r.destination.length := by
      rw [hlen r hmem, physical_length hphys]
    simp only [Extent.physical?, Option.some.injEq] at hs
    rw [← hs, hle]
  · exact Or.inl hs

theorem physical_moveExtent_isNone {e : Extent}
    (h : (moveExtent plan.relocations e).physical? = none) : e.physical? = none := by
  unfold moveExtent at h
  split at h
  · simp [Extent.physical?] at h
  · exact h

theorem FitsGraph.valid_moveExtent (h : FitsGraph g plan) {e : Extent} (he : e ∈ g.extents.extents) :
    (moveExtent plan.relocations e).Valid g.extents.volumeBytes := by
  have hv := g.extents.valid e he
  refine ⟨?_, ?_, ?_, ?_⟩
  · rw [moveExtent_length]; exact hv.nonempty
  · rw [moveExtent_length, moveExtent_logicalOffset]; exact hv.logical_lt
  · intro s hs
    rcases physical_moveExtent h.length_eq hs with hs | ⟨r, hr, -, rfl⟩
    · exact hv.physical s hs
    · exact (h.targets _ (mem_targets hr)).2
  · intro hs
    rw [moveExtent_kind]
    exact hv.sparse (physical_moveExtent_isNone hs)

/-- Moved extents keep apart. -/
theorem FitsGraph.physical_moved (h : FitsGraph g plan) :
    (g.extents.extents.map (moveExtent plan.relocations)).Pairwise PhysicallyDisjoint := by
  rw [List.pairwise_map]
  refine g.extents.physical.imp_of_mem fun {a b} ha hb hab s hs t ht => ?_
  have hdest : ∀ r ∈ plan.relocations, ∀ r' ∈ plan.relocations, r ≠ r' →
      r.destination.Disjoint r'.destination := by
    intro r hr r' hr' hne
    have hsymm : Std.Symm fun r r' : Relocation => r.destination.Disjoint r'.destination :=
      ⟨fun _ _ h => h.symm⟩
    have hd := List.pairwise_map.1 (List.pairwise_append.1 h.disjoint).1
    exact hd.forall hr hr' hne
  rcases physical_moveExtent h.length_eq hs with hs | ⟨r, hr, har, rfl⟩
  · rcases physical_moveExtent h.length_eq ht with ht | ⟨r, hr, -, rfl⟩
    · exact hab s hs t ht
    · exact (h.fresh _ (mem_targets hr) a ha s hs).symm
  · rcases physical_moveExtent h.length_eq ht with ht | ⟨r', hr', hbr, rfl⟩
    · exact h.fresh _ (mem_targets hr) b hb t ht
    · refine hdest r hr r' hr' ?_
      -- One relocation has one source, and the two extents have disjoint ones.
      rintro rfl
      have hpos : 0 < r.source.length := by
        rw [physical_length har]
        exact (g.extents.valid a ha).nonempty
      refine hab _ har _ hbr r.source.offset ⟨le_rfl, ?_⟩ ⟨le_rfl, ?_⟩ <;>
      · unfold Span.stop; omega

theorem placedExtents_physical (ms : List Materialization) :
    (placedExtents ms).filterMap Extent.physical? = ms.flatMap Materialization.destinations := by
  unfold placedExtents
  rw [List.filterMap_flatMap]
  exact List.flatMap_congr fun m _ => placeFrom_physical _ _ _

theorem mem_placedExtents {ms : List Materialization} {e : Extent} (he : e ∈ placedExtents ms) :
    ∃ m ∈ ms, e ∈ placeFrom m.stream 0 m.destinations :=
  List.mem_flatMap.1 he

/-- The extents that stay, before they are moved. -/
theorem keptExtents_map (ms : List Materialization) (relocations : List Relocation)
    (l : List Extent) : keptExtents ms (l.map (moveExtent relocations)) =
      (keptExtents ms l).map (moveExtent relocations) := by
  unfold keptExtents
  rw [List.filter_map]
  congr 1
  exact List.filter_congr fun e _ => by simp

theorem FitsGraph.physical (h : FitsGraph g plan) :
    (relocatedExtents g plan).Pairwise PhysicallyDisjoint := by
  unfold relocatedExtents
  refine List.pairwise_append.2 ⟨h.physical_moved.filter _, ?_, ?_⟩
  · rw [← pairwise_filterMap_physical, placedExtents_physical]
    exact (List.pairwise_append.1 h.disjoint).2.1
  · intro a ha b hb s hs t ht
    rw [keptExtents_map] at ha
    obtain ⟨e, he, rfl⟩ := List.mem_map.1 ha
    have he' : e ∈ g.extents.extents := List.mem_of_mem_filter he
    have ht' : t ∈ plan.materializations.flatMap Materialization.destinations := by
      rw [← placedExtents_physical]
      exact List.mem_filterMap.2 ⟨b, hb, ht⟩
    rcases physical_moveExtent h.length_eq hs with hs | ⟨r, hr, -, rfl⟩
    · exact (h.fresh t (List.mem_append_right _ ht') e he' s hs).symm
    · exact (List.pairwise_append.1 h.disjoint).2.2 _ (List.mem_map_of_mem hr) t ht'

theorem placeFrom_logical (stream : StreamId) (o : ℕ) (spans : List ByteRange) :
    (placeFrom stream o spans).Pairwise LogicallyDisjoint := by
  refine (placeFrom_ordered stream o spans).imp fun {a b} h _ => ?_
  exact Span.Before.disjoint (s := a.logical) (t := b.logical) h

theorem placedExtents_logical {ms : List Materialization}
    (hnd : (ms.map Materialization.stream).Nodup) :
    (placedExtents ms).Pairwise LogicallyDisjoint := by
  unfold placedExtents
  refine List.pairwise_flatMap.2 ⟨fun m _ => placeFrom_logical _ _ _, ?_⟩
  refine (List.pairwise_map.1 hnd).imp fun hne a ha b hb hs => ?_
  rw [placeFrom_stream ha, placeFrom_stream hb] at hs
  exact absurd hs hne

/-- All extents of the materialized streams are file data. -/
def OnlyFileData (g : ObjectGraph) (plan : LayoutPlan) : Prop :=
  ∀ m ∈ plan.materializations, ∀ e ∈ g.extents.extents, e.stream = m.stream → e.kind = .fileData

/-- Extents that stay belong to streams that are not materialized. -/
theorem OnlyFileData.stream_notMem (hkinds : OnlyFileData g plan) {e : Extent}
    (he : e ∈ keptExtents plan.materializations g.extents.extents) :
    e.stream ∉ plan.materializations.map Materialization.stream := by
  obtain ⟨he, hkept⟩ := List.mem_filter.1 he
  intro hmem
  obtain ⟨m, hm, heq⟩ := List.mem_map.1 hmem
  simp [hmem, hkinds m hm e he heq.symm] at hkept

theorem FitsGraph.logical (h : FitsGraph g plan) (hs : Sealable g plan) :
    (relocatedExtents g plan).Pairwise LogicallyDisjoint := by
  unfold relocatedExtents
  refine List.pairwise_append.2 ⟨?_, placedExtents_logical h.streams, ?_⟩
  · refine List.Pairwise.filter _ (List.pairwise_map.2 (g.extents.logical.imp fun {a b} hab => ?_))
    unfold LogicallyDisjoint Extent.logical at hab ⊢
    simpa using hab
  · intro a ha b hb heq
    rw [keptExtents_map] at ha
    obtain ⟨e, he, rfl⟩ := List.mem_map.1 ha
    obtain ⟨m, hm, hb⟩ := mem_placedExtents hb
    rw [moveExtent_stream, placeFrom_stream hb] at heq
    exact absurd (heq ▸ List.mem_map_of_mem hm) (OnlyFileData.stream_notMem hs.kinds he)

theorem FitsGraph.valid (h : FitsGraph g plan) :
    ∀ e ∈ relocatedExtents g plan, e.Valid g.extents.volumeBytes := by
  intro e he
  rcases List.mem_append.1 he with he | he
  · obtain ⟨e', he', rfl⟩ := List.mem_map.1 (List.mem_of_mem_filter he)
    exact h.valid_moveExtent he'
  · obtain ⟨m, hm, he⟩ := mem_placedExtents he
    obtain ⟨-, hlog, -, s, hs, hlen, hphys⟩ := mem_placeFrom he
    obtain ⟨hpos, hlt⟩ := h.targets s (mem_targets_of_materialization hm hs)
    have := h.spanTotal_lt hm
    refine ⟨hlen ▸ hpos, by omega, fun r hr => ?_, fun hr => ?_⟩
    · rw [hphys] at hr
      obtain rfl := Option.some.inj hr
      exact hlt
    · rw [hphys] at hr
      cases hr

/-- Nothing becomes sparse. -/
theorem sparseBytes_relocatedExtents_le :
    sparseBytes (relocatedExtents g plan) ≤ sparseBytes g.extents.extents := by
  have hplaced : (placedExtents plan.materializations).filter (fun e => !e.placement.isPhysical) =
      [] := by
    refine List.filter_eq_nil_iff.2 fun e he => ?_
    obtain ⟨m, -, he⟩ := mem_placedExtents he
    obtain ⟨-, -, -, s, -, -, hphys⟩ := mem_placeFrom he
    cases hp : e.placement with
    | physical off => simp [Placement.isPhysical]
    | sparse => simp [Extent.physical?, hp] at hphys
  have hmoved : ∀ l : List Extent, ((l.map (moveExtent plan.relocations)).filter fun e =>
      !e.placement.isPhysical).map Extent.length =
        (l.filter fun e => !e.placement.isPhysical).map Extent.length := by
    intro l
    rw [List.filter_map, List.map_map]
    simp [Function.comp_def]
  unfold sparseBytes relocatedExtents
  rw [List.filter_append, hplaced, List.append_nil, keptExtents_map, hmoved]
  exact ((List.filter_sublist.filter _).map _).sum_le_sum fun _ _ => Nat.zero_le _

theorem count_iff : (relocatedExtents g plan).length ≤ rebuiltExtentLimit g
      (materializedObjects plan.materializations g.objects) ↔
    (keptExtents plan.materializations g.extents.extents).length +
      (plan.materializations.map fun m => m.destinations.length).sum ≤
        rebuiltExtentLimit g g.objects := by
  have hlen : (placedExtents plan.materializations).length =
      (plan.materializations.map fun m => m.destinations.length).sum := by
    rw [placedExtents, List.length_flatMap]
    simp only [length_placeFrom]
  have hlim : rebuiltExtentLimit g (materializedObjects plan.materializations g.objects) =
      rebuiltExtentLimit g g.objects := by
    simp [rebuiltExtentLimit, materializedObjects]
  rw [hlim, relocatedExtents, List.length_append, keptExtents_map, List.length_map, hlen]

theorem FitsGraph.buildable (h : FitsGraph g plan) (hs : Sealable g plan) :
    Buildable (relocatedExtents g plan) g.extents.volumeBytes
      (rebuiltExtentLimit g (materializedObjects plan.materializations g.objects)) := by
  have hpos : ∀ e ∈ relocatedExtents g plan, 0 < e.length := fun e he => (h.valid e he).nonempty
  refine ⟨?_, h.valid, h.logical hs, h.physical, ?_, ?_⟩
  · exact count_iff.2 hs.count
  · exact physicalBytes_lt hpos (fun e he r hr => ((h.valid e he).physical r hr).1) h.physical
  · exact sparseBytes_relocatedExtents_le.trans_lt g.extents.sparse_lt

/-! ## The rebuilt streams -/

theorem allStreams_materializedObjects (ms : List Materialization) (objects : List ObjectRecord) :
    ObjectGraph.allStreams (materializedObjects ms objects) =
      (ObjectGraph.allStreams objects).map (materialized ms) := by
  unfold ObjectGraph.allStreams materializedObjects
  rw [List.flatMap_map, List.map_flatMap]

theorem materialized_of_mem {ms : List Materialization}
    (hnd : (ms.map Materialization.stream).Nodup) {m : Materialization} (hm : m ∈ ms)
    {s : ObjectStream} (hs : s.id = m.stream) :
    materialized ms s = materializeStream (spanTotal m.destinations) s := by
  have hfind : ms.find? (fun m' => m'.stream = s.id) = some m := by
    cases hf : ms.find? fun m' => m'.stream = s.id with
    | none => simpa [hs] using List.find?_eq_none.1 hf m hm
    | some m' =>
      have h1 := List.mem_of_find?_eq_some hf
      have h2 : m'.stream = s.id := by simpa using List.find?_some hf
      exact congrArg some (List.inj_on_of_nodup_map hnd h1 hm (h2.trans hs))
  unfold materialized
  rw [hfind]

theorem materialized_of_notMem {ms : List Materialization} {s : ObjectStream}
    (hs : s.id ∉ ms.map Materialization.stream) : materialized ms s = s := by
  have hfind : ms.find? (fun m' => m'.stream = s.id) = none := by
    refine List.find?_eq_none.2 fun m hm => ?_
    simpa using fun heq : m.stream = s.id => hs (heq ▸ List.mem_map_of_mem hm)
  unfold materialized
  rw [hfind]

theorem materialized_storage {ms : List Materialization} {s : ObjectStream}
    (hs : s.storage = .extents) : (materialized ms s).storage = .extents := by
  unfold materialized
  split
  · rfl
  · exact hs

/-- The placed extents of one stream. -/
theorem filter_placedExtents {ms : List Materialization}
    (hnd : (ms.map Materialization.stream).Nodup) {m : Materialization} (hm : m ∈ ms) :
    (placedExtents ms).filter (fun e => e.stream = m.stream) =
      placeFrom m.stream 0 m.destinations := by
  have hself : ∀ m' : Materialization, (placeFrom m'.stream 0 m'.destinations).filter
      (fun e => e.stream = m'.stream) = placeFrom m'.stream 0 m'.destinations := fun m' =>
    List.filter_eq_self.2 fun e he => by simpa using placeFrom_stream he
  have hother : ∀ m' : Materialization, m'.stream ≠ m.stream →
      (placeFrom m'.stream 0 m'.destinations).filter (fun e => e.stream = m.stream) = [] :=
    fun m' hne => List.filter_eq_nil_iff.2 fun e he => by
      rw [placeFrom_stream he]
      simpa using hne
  induction ms with
  | nil => simp at hm
  | cons m' ms ih =>
    obtain ⟨hnot, hnd'⟩ := List.nodup_cons.1 (List.map_cons ▸ hnd)
    rw [placedExtents, List.flatMap_cons, List.filter_append, ← placedExtents]
    rcases List.mem_cons.1 hm with rfl | hm
    · have hrest : (placedExtents ms).filter (fun e => e.stream = m.stream) = [] := by
        refine List.filter_eq_nil_iff.2 fun e he => ?_
        obtain ⟨m', hm', he⟩ := mem_placedExtents he
        rw [placeFrom_stream he]
        simpa using fun heq : m'.stream = m.stream => hnot (heq ▸ List.mem_map_of_mem hm')
      rw [hself, hrest, List.append_nil]
    · have hne : m'.stream ≠ m.stream := fun heq => hnot (heq ▸ List.mem_map_of_mem hm)
      rw [hother m' hne, ih hnd' hm, List.nil_append]

theorem filter_placedExtents_of_notMem {ms : List Materialization} {stream : StreamId}
    (hs : stream ∉ ms.map Materialization.stream) :
    (placedExtents ms).filter (fun e => e.stream = stream) = [] := by
  refine List.filter_eq_nil_iff.2 fun e he => ?_
  obtain ⟨m, hm, he⟩ := mem_placedExtents he
  rw [placeFrom_stream he]
  simpa using fun heq : m.stream = stream => hs (heq ▸ List.mem_map_of_mem hm)

/-- Extents of one stream are in the order of their logical offsets. -/
theorem streamExtents_sorted (graph : ExtentGraph) (stream : StreamId) :
    (ObjectGraph.streamExtents graph stream).Pairwise fun a b =>
      a.stream = b.stream ∧ a.logicalOffset < b.logicalOffset := by
  have hall : graph.extents.Pairwise fun a b => a.stream = b.stream →
      a.logicalOffset < b.logicalOffset := by
    refine (graph.sorted.and graph.logical).imp_of_mem fun {a b} ha hb ⟨hle, hd⟩ hs => ?_
    have hle' : a.logicalOffset ≤ b.logicalOffset := by
      simp only [extentSortKey, Prod.Lex.toLex_le_toLex, hs, lt_irrefl, false_or, true_and] at hle
      rcases hle with hlt | heq
      · exact hlt.le
      · exact heq.1.le
    have hbefore := (before_iff_disjoint (r := a.logical) (s := b.logical)
      (graph.valid a ha).nonempty (graph.valid b hb).nonempty hle').2 (hd hs)
    have := (graph.valid a ha).nonempty
    simp only [Extent.logical] at hbefore
    omega
  refine (hall.filter _).imp_of_mem fun {a b} ha hb h => ?_
  have h1 : a.stream = stream := by simpa using (List.mem_filter.1 ha).2
  have h2 : b.stream = stream := by simpa using (List.mem_filter.1 hb).2
  exact ⟨h1.trans h2.symm, h (h1.trans h2.symm)⟩

theorem extentSortKey_le {a b : Extent} (hs : a.stream = b.stream)
    (hlt : a.logicalOffset < b.logicalOffset) : extentSortKey a ≤ extentSortKey b := by
  simp only [extentSortKey, Prod.Lex.toLex_le_toLex, hs, lt_irrefl, false_or, true_and]
  exact Or.inl hlt

section Streams

variable {graph : ExtentGraph} (hext : graph.extents = sortByKey extentSortKey (relocatedExtents g plan))

include hext in
/-- A stream that is not materialized has its old extents, moved. -/
theorem streamExtents_moved {stream : StreamId}
    (hs : stream ∉ plan.materializations.map Materialization.stream) :
    ObjectGraph.streamExtents graph stream =
      (ObjectGraph.streamExtents g.extents stream).map (moveExtent plan.relocations) := by
  refine streamExtents_eq hext ?_ ?_
  · rw [relocatedExtents, List.filter_append, filter_placedExtents_of_notMem hs, List.append_nil,
      keptExtents_map, List.filter_map]
    congr 1
    unfold ObjectGraph.streamExtents keptExtents
    rw [List.filter_filter]
    refine List.filter_congr fun e _ => ?_
    simp only [Function.comp_apply, moveExtent_stream, ← Bool.decide_and, decide_eq_decide]
    constructor
    · exact fun h => h.1
    · rintro rfl
      exact ⟨rfl, fun h => hs h.1⟩
  · refine List.pairwise_map.2 ((streamExtents_sorted g.extents stream).imp fun {a b} h => ?_)
    exact extentSortKey_le (by simpa using h.1) (by simpa using h.2)

include hext in
/-- A materialized stream has its placed extents. -/
theorem streamExtents_placed (happ : Applicable g plan) (hkinds : OnlyFileData g plan)
    {m : Materialization} (hm : m ∈ plan.materializations) :
    ObjectGraph.streamExtents graph m.stream = placeFrom m.stream 0 m.destinations := by
  refine streamExtents_eq hext ?_ ?_
  · have hkept : (keptExtents plan.materializations
        (g.extents.extents.map (moveExtent plan.relocations))).filter
          (fun e => e.stream = m.stream) = [] := by
      rw [keptExtents_map]
      refine List.filter_eq_nil_iff.2 fun e he => ?_
      obtain ⟨e', he', rfl⟩ := List.mem_map.1 he
      rw [moveExtent_stream]
      simpa using fun heq : e'.stream = m.stream =>
        hkinds.stream_notMem he' (heq ▸ List.mem_map_of_mem hm)
    rw [relocatedExtents, List.filter_append, hkept, filter_placedExtents happ.streams hm,
      List.nil_append]
  · refine (placeFrom_ordered _ _ _).imp_of_mem fun {a b} ha hb hle => ?_
    obtain ⟨-, -, -, s, hs, hlen, -⟩ := mem_placeFrom ha
    have := ((happ.materializable m hm).spans s hs).1
    exact extentSortKey_le ((placeFrom_stream ha).trans (placeFrom_stream hb).symm) (by omega)

include hext in
theorem FitsGraph.streamsValid (h : FitsGraph g plan) (hs : Sealable g plan) :
    ObjectGraph.StreamsValid (materializedObjects plan.materializations g.objects) graph := by
  obtain ⟨limits, hacc⟩ := g.accepted
  obtain ⟨hvalid, -⟩ := ObjectGraph.streams_of_accepted hacc
  have hshape : ObjectGraph.SameShape (moveExtent plan.relocations) := fun e => by simp
  refine ⟨?_, ?_, ?_⟩
  · intro o ho
    obtain ⟨o', ho', rfl⟩ := List.mem_map.1 ho
    have hname : ∀ s, (materialized plan.materializations s).name = s.name := by
      intro s; unfold materialized; split <;> rfl
    have := hvalid.unnamed o' ho'
    simpa [Function.comp_def, hname] using this
  · rw [allStreams_materializedObjects]
    intro s hmem
    obtain ⟨t, ht, rfl⟩ := List.mem_map.1 hmem
    have htv := hvalid.valid t ht
    by_cases hin : t.id ∈ plan.materializations.map Materialization.stream
    · obtain ⟨m, hm, heq⟩ := List.mem_map.1 hin
      obtain ⟨hne, found, hf, -, hle⟩ := h.found m hm
      obtain ⟨hfmem, hfid⟩ := findFileStream_ok hf
      have htf : t = found :=
        List.inj_on_of_nodup_map hvalid.distinct ht hfmem (by rw [hfid, heq])
      rw [materialized_of_mem h.streams hm heq.symm]
      have hlt := h.spanTotal_lt hm
      refine ⟨⟨htv.sizes.1, htf ▸ hle⟩, ?_⟩
      have hwalk := walk_placeFrom m.stream (o := 0) (p := 0) (f := false) (by omega) (by omega)
        (l := m.destinations)
      simp only [ObjectGraph.validateStorage, materializeStream, ObjectGraph.validateStreamExtents,
        ← heq, streamExtents_placed hext h.applicable hs.kinds hm, hwalk, ok_bind]
      rw [ensure_of (Or.inr (by simpa using hne)), ok_bind, ensure_of (by simp), ok_bind,
        ensure_of (by simp)]
    · rw [materialized_of_notMem hin]
      refine ⟨htv.sizes, ?_⟩
      have hst := htv.storage
      unfold ObjectGraph.validateStorage ObjectGraph.validateStreamExtents at hst ⊢
      rw [streamExtents_moved hext hin, ObjectGraph.walkStreamExtents_map hshape]
      exact hst
  · rw [allStreams_materializedObjects, List.map_map]
    have hid : ObjectStream.id ∘ materialized plan.materializations = ObjectStream.id := by
      funext s; exact materialized_id _ s
    rw [hid]
    exact hvalid.distinct

include hext in
/-- Every extent of the rebuilt graph belongs to a stream stored in extents. -/
theorem FitsGraph.references (h : FitsGraph g plan) : ∀ e ∈ graph.extents,
    ∃ s ∈ ObjectGraph.allStreams (materializedObjects plan.materializations g.objects),
      s.id = e.stream ∧ s.storage = .extents := by
  obtain ⟨limits, hacc⟩ := g.accepted
  obtain ⟨-, href⟩ := ObjectGraph.streams_of_accepted hacc
  rw [allStreams_materializedObjects]
  intro e he
  rw [hext, mem_sortByKey] at he
  rcases List.mem_append.1 he with he | he
  · obtain ⟨e', he', rfl⟩ := List.mem_map.1 (List.mem_of_mem_filter he)
    obtain ⟨s, hs, hid, hst⟩ := href e' he'
    exact ⟨_, List.mem_map_of_mem hs, by simpa using hid, materialized_storage hst⟩
  · obtain ⟨m, hm, he⟩ := mem_placedExtents he
    obtain ⟨-, found, hf, -⟩ := h.found m hm
    obtain ⟨hfmem, hfid⟩ := findFileStream_ok hf
    refine ⟨_, List.mem_map_of_mem hfmem, ?_, ?_⟩
    · rw [materialized_id, hfid, placeFrom_stream he]
    · rw [materialized_of_mem h.streams hm hfid]; rfl

end Streams

theorem FitsGraph.relocated (h : FitsGraph g plan) (hs : Sealable g plan) :
    ∃ target, relocateObjectGraph g plan = .ok target := by
  obtain ⟨graph, hbuild⟩ := ExtentGraph.exists_build (h.buildable hs)
  have hext := (ExtentGraph.build_ok_iff.1 hbuild).2.2
  have hvalid : ObjectGraph.validateGraph g.root
      (materializedObjects plan.materializations g.objects) g.entries graph
      (rebuiltLimits g (materializedObjects plan.materializations g.objects)) = .ok () := by
    refine ObjectGraph.validateGraph_transfer (f := materialized plan.materializations) rfl ?_ ?_ ?_
      ?_ ?_ (h.streamsValid hext hs) (h.references hext)
    · simp [rebuiltLimits]
    · simp [rebuiltLimits, materializedObjects]
    · simp [rebuiltLimits]
    · have : ObjectGraph.streamCount (materializedObjects plan.materializations g.objects) =
          ObjectGraph.streamCount g.objects := by
        simp [ObjectGraph.streamCount, materializedObjects, Function.comp_def]
      simp [rebuiltLimits, this]
    · intro entry hentry
      refine le_trans ?_ (le_max_left _ _)
      exact List.le_max?_getD_of_mem (List.mem_map_of_mem hentry)
  obtain ⟨target, htarget⟩ := ObjectGraph.exists_build hvalid
  refine ⟨target, relocateObjectGraph_ok_iff.2 ⟨h.applicable, ?_⟩⟩
  simp only [rebuildRelocatedGraphWithObjects, bind_ok_iff, mapError_ok_iff]
  exact ⟨graph, hbuild, htarget⟩

/-- The extents of a materialized stream of a rebuilt graph add up to its destinations, which leaves no
room for extents of other kinds. -/
theorem Applicable.onlyFileData (h : Applicable g plan) {target : ObjectGraph}
    (ht : relocateObjectGraph g plan = .ok target) : OnlyFileData g plan := by
  obtain ⟨-, hb⟩ := relocateObjectGraph_ok_iff.1 ht
  simp only [rebuildRelocatedGraphWithObjects, bind_ok_iff, mapError_ok_iff] at hb
  obtain ⟨graph, hbuild, hobj⟩ := hb
  obtain ⟨hbuildable, -, hext⟩ := ExtentGraph.build_ok_iff.1 hbuild
  obtain ⟨hacc, -⟩ := ObjectGraph.build_ok_iff.1 hobj
  obtain ⟨hvalid, -⟩ := ObjectGraph.streams_of_accepted hacc
  intro m hm e he heq
  obtain ⟨found, hf, -⟩ := (h.materializable m hm).found
  obtain ⟨hfmem, hfid⟩ := findFileStream_ok hf
  have hst := (hvalid.valid _ (allStreams_materializedObjects _ _ ▸
    List.mem_map_of_mem hfmem)).storage
  rw [materialized_of_mem h.streams hm hfid] at hst
  simp only [ObjectGraph.validateStorage, materializeStream, ObjectGraph.validateStreamExtents,
    hfid, bind_ok_iff, exists_const, ensure_ok_iff] at hst
  obtain ⟨⟨o, p, f⟩, hwalk, -, rfl, -⟩ := hst
  have hsum := ObjectGraph.walkStreamExtents_ok hwalk
  have hperm : (ObjectGraph.streamExtents graph m.stream).Perm
      ((keptExtents plan.materializations
        (g.extents.extents.map (moveExtent plan.relocations))).filter
          (fun e => e.stream = m.stream) ++ placeFrom m.stream 0 m.destinations) := by
    rw [← filter_placedExtents h.streams hm, ← List.filter_append]
    unfold ObjectGraph.streamExtents
    rw [hext]
    exact (sortByKey_perm _ _).filter _
  rw [(hperm.map Extent.length).sum_eq, List.map_append, List.sum_append, placeFrom_length_sum]
    at hsum
  by_contra hkind
  have hmem : moveExtent plan.relocations e ∈ (keptExtents plan.materializations
      (g.extents.extents.map (moveExtent plan.relocations))).filter
        (fun e => e.stream = m.stream) := by
    refine List.mem_filter.2 ⟨List.mem_filter.2 ⟨List.mem_map_of_mem he, ?_⟩, by simpa using heq⟩
    simp [hkind]
  have hle := List.single_le_sum (fun _ _ => Nat.zero_le _) _
    (List.mem_map_of_mem (f := Extent.length) hmem)
  rw [moveExtent_length] at hle
  have := (g.extents.valid e he).nonempty
  omega

/-- What sealing says about the two graphs. -/
structure SealedGraphs (g target : ObjectGraph) (plan : LayoutPlan) : Prop where
  applicable : Applicable g plan
  kinds : OnlyFileData g plan
  extents : target.extents.extents = sortByKey extentSortKey (relocatedExtents g plan)
  objects : target.objects = materializedObjects plan.materializations g.objects

theorem sealedGraphs_of_relocated {target : ObjectGraph}
    (h : relocateObjectGraph g plan = .ok target) : SealedGraphs g target plan := by
  obtain ⟨happ, hb⟩ := relocateObjectGraph_ok_iff.1 h
  simp only [rebuildRelocatedGraphWithObjects, bind_ok_iff, mapError_ok_iff] at hb
  obtain ⟨graph, hbuild, hobj⟩ := hb
  obtain ⟨-, -, hext⟩ := ExtentGraph.build_ok_iff.1 hbuild
  obtain ⟨-, -, hobjects, -, hgraph⟩ := ObjectGraph.build_ok_iff.1 hobj
  exact ⟨happ, happ.onlyFileData h, by rw [hgraph, hext], hobjects⟩

/-- A graph that could be rebuilt came from a sealable layout. -/
theorem FitsGraph.sealable (h : FitsGraph g plan) {target : ObjectGraph}
    (ht : relocateObjectGraph g plan = .ok target) : Sealable g plan := by
  refine ⟨h.applicable.onlyFileData ht, ?_⟩
  obtain ⟨-, hb⟩ := relocateObjectGraph_ok_iff.1 ht
  simp only [rebuildRelocatedGraphWithObjects, bind_ok_iff, mapError_ok_iff] at hb
  obtain ⟨graph, hbuild, -⟩ := hb
  exact count_iff.1 (ExtentGraph.build_ok_iff.1 hbuild).1.count

end Rebuilt

theorem seal_ok_iff_relocated {g : ObjectGraph} {plan : LayoutPlan} :
    (∃ s, SealedRelocationPlan.seal g plan = .ok s) ↔
      ∃ target, relocateObjectGraph g plan = .ok target := by
  unfold SealedRelocationPlan.seal
  split
  · next e he => simp [he]
  · next target he => simp [he]

/-- **Sealing.** A layout solved for a graph can be sealed if and only if every extent of a
materialized stream is file data and the rebuilt graph stays within its limit on extents. -/
theorem seal_ok_iff {g : ObjectGraph} {i : LayoutInput} {plan : LayoutPlan} (hi : SealInput g i)
    (h : solveLayoutWithDestinationDomainAlignmentsAndMaterializations i = .ok plan) :
    (∃ s, SealedRelocationPlan.seal g plan = .ok s) ↔ Sealable g plan := by
  have hfits := fitsGraph_of_solved hi h
  rw [seal_ok_iff_relocated]
  exact ⟨fun ⟨_, ht⟩ => hfits.sealable ht, hfits.relocated⟩

/-- A directory with a sparse file of 20 bytes and a file of four bytes at 8, in 64 bytes. -/
def sparseFileExtents : ExtentGraph :=
  okValue (ExtentGraph.build
    [⟨7, 0, 4, .physical 0, .directoryData⟩, ⟨9, 0, 20, .sparse, .fileData⟩,
      ⟨10, 0, 4, .physical 8, .fileData⟩] 64 3) (by decide +kernel)

def sparseFileGraph : ObjectGraph :=
  okValue (ObjectGraph.build 1
    [⟨1, .directory, 0, ⟨false, false⟩,
        [⟨7, none, 4, 4, 4, 4, ⟨false, false, false, 0⟩, .extents⟩]⟩,
      ⟨2, .file, 1, ⟨false, false⟩,
        [⟨9, none, 20, 20, 20, 0, ⟨true, false, false, 0⟩, .extents⟩]⟩,
      ⟨3, .file, 1, ⟨false, false⟩,
        [⟨10, none, 4, 4, 4, 4, ⟨false, false, false, 0⟩, .extents⟩]⟩]
    [⟨1, 2, [97]⟩, ⟨1, 3, [98]⟩] sparseFileExtents ⟨4, 4, 4, 4⟩) (by decide +kernel)

/-- The sparse file has to be written anew, around the given reservations. -/
def sparseFileInput (reservations : List ByteRange) : LayoutInput :=
  { volumeBytes := 64
    sourceAlignment := 4
    destinationAlignment := 4
    ioAlignment := 4
    destinationDomain := ⟨0, 64⟩
    requireAlignedDomain := true
    source := [⟨10, 0, ⟨8, 4⟩, true⟩]
    reservations := reservations.map fun range => ⟨range, .journal⟩
    stagingExclusions := [⟨0, 4⟩]
    materializationRequests := [⟨9, 20⟩]
    limits := ⟨16, 16, 16, 16⟩ }

/-- Free space in four pieces once the small file has moved; the last one has eight bytes. -/
def fourPieces : List ByteRange := [⟨8, 8⟩, ⟨20, 4⟩, ⟨28, 4⟩, ⟨36, 4⟩, ⟨48, 16⟩]

/-- The same with five pieces of four bytes. -/
def fivePieces : List ByteRange := [⟨8, 8⟩, ⟨20, 4⟩, ⟨28, 4⟩, ⟨36, 4⟩, ⟨44, 4⟩, ⟨52, 12⟩]

def fourPiecePlan : LayoutPlan :=
  okValue (solveLayoutWithDestinationDomainAlignmentsAndMaterializations
    (sparseFileInput fourPieces)) (by decide +kernel)

def fivePiecePlan : LayoutPlan :=
  okValue (solveLayoutWithDestinationDomainAlignmentsAndMaterializations
    (sparseFileInput fivePieces)) (by decide +kernel)

theorem sealInput_sparseFile (reservations : List ByteRange) :
    SealInput sparseFileGraph (sparseFileInput reservations) := by
  have h : SealInput sparseFileGraph (sparseFileInput []) :=
    ⟨by decide +kernel, by decide +kernel, by decide +kernel, by decide +kernel⟩
  exact ⟨h.volume, h.source, h.exclusions, h.requests⟩

theorem seal_fourPieces :
    ∃ s, SealedRelocationPlan.seal sparseFileGraph fourPiecePlan = .ok s :=
  (seal_ok_iff (sealInput_sparseFile fourPieces) (eq_okValue _)).2
    ⟨by decide +kernel, by decide +kernel⟩

/-- Five pieces, two extents that stay, and room for six. -/
theorem not_seal_fivePieces : SealInput sparseFileGraph (sparseFileInput fivePieces) ∧
    solveLayoutWithDestinationDomainAlignmentsAndMaterializations (sparseFileInput fivePieces) =
      .ok fivePiecePlan ∧
    ¬ ∃ s, SealedRelocationPlan.seal sparseFileGraph fivePiecePlan = .ok s := by
  refine ⟨sealInput_sparseFile fivePieces, eq_okValue _, ?_⟩
  rw [seal_ok_iff_relocated]
  rintro ⟨target, h⟩
  have hno : (relocateObjectGraph sparseFileGraph fivePiecePlan).toOption.isSome = false := by
    decide +kernel
  rw [h] at hno
  cases hno

end Geometry

end StarConverter
