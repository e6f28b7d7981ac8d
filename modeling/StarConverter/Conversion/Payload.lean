import StarConverter.Conversion.Sealed
import StarConverter.Relocation

/-!
# Payload is kept

A built plan moves content out of the way and then writes over the rest. `KeepsPayload` collects what
an accepted draft promises about places; from it follow the bytes of every stream after all writes
(`keeps_payload`).
-/

namespace StarConverter

open Base Geometry Capsule Recovery Conversion

/-! ## Relocations one after the other -/

/-- The copies of the relocations, each from the image the ones before left. -/
def copyAll (relocations : List Relocation) (image : Bytes) : Bytes :=
  relocations.foldl (fun image r =>
    Patch.apply ⟨r.destination.offset, sliceAt image r.source.offset r.source.length⟩ image) image

/-- When no destination touches a source, the order of the copies does not matter. -/
theorem copyAll_eq {rs : List Relocation} {image : Bytes}
    (hlen : ∀ r ∈ rs, r.source.length = r.destination.length)
    (hapart : ∀ r ∈ rs, ∀ r' ∈ rs, r.destination.Disjoint r'.source) :
    copyAll rs image = applyAll (ImageExecutor.copyPatches rs image) image := by
  suffices key : ∀ now : Bytes, (∀ r ∈ rs, sliceAt now r.source.offset r.source.length =
      sliceAt image r.source.offset r.source.length) →
      copyAll rs now = applyAll (ImageExecutor.copyPatches rs image) now from
    key image fun _ _ => rfl
  induction rs with
  | nil => exact fun _ _ => rfl
  | cons r rest ih =>
    intro now hnow
    have hr := hnow r List.mem_cons_self
    rw [ImageExecutor.copyPatches, List.map_cons, applyAll_cons, copyAll, List.foldl_cons, hr]
    refine ih (fun a ha => hlen a (List.mem_cons_of_mem _ ha))
      (fun a ha b hb => hapart a (List.mem_cons_of_mem _ ha) b (List.mem_cons_of_mem _ hb)) _ ?_
    intro r' hr'
    rw [← hnow r' (List.mem_cons_of_mem _ hr'), Patch.apply]
    refine sliceAt_overwrite_of_disjoint fun x h1 h2 hx => ?_
    dsimp only at hx
    have hle : (sliceAt image r.source.offset r.source.length).length ≤ r.source.length := by
      rw [length_sliceAt]
      exact Nat.min_le_left _ _
    have hr := hlen r List.mem_cons_self
    exact hapart r List.mem_cons_self r' (List.mem_cons_of_mem _ hr') x
      ⟨hx.1, by unfold Span.stop; omega⟩ ⟨h1, h2⟩

namespace PreparedConversion

variable {H : Hashing} {p : PreparedConversion} {source projected target : ObjectGraph}
  {draft : ConversionDraft} {before : List OverlayWrite} {limits : ConversionLimits}

/-- The image after the relocations and all writes of the plan. -/
def finalImage (p : PreparedConversion) (image : Bytes) : Bytes :=
  applyAll (finalWrites p.writes) (copyAll p.layout.relocations image)

/-- Every before-image of the plan. -/
def beforeImages (p : PreparedConversion) : List OverlayWrite :=
  p.relocationRollbackOverlay.writes ++ rollbackWrites p.writes

/-- How the places of an accepted draft lie to each other. -/
structure KeepsPayload (source projected target : ObjectGraph) (p : PreparedConversion) : Prop where
  moved : Moved projected p.layout target
  volume : source.extents.volumeBytes = p.preflight.image.imageBytes
  destination : ∀ r ∈ p.layout.relocations, r.destination.stop ≤ p.preflight.image.imageBytes
  fresh : ∀ r ∈ p.layout.relocations, ∀ e ∈ source.extents.extents, ∀ s, e.physical? = some s →
    r.destination.Disjoint s
  clear : ∀ r ∈ p.layout.relocations, ∀ w ∈ finalWrites p.writes, r.destination.Disjoint w.span
  place : ∀ e ∈ source.extents.extents, ∀ s, e.physical? = some s →
    (∃ r ∈ p.layout.relocations, r.source = s) ∨ ∀ w ∈ finalWrites p.writes, s.Disjoint w.span
  sources : ∀ r ∈ p.layout.relocations, ∃ e ∈ source.extents.extents, e.physical? = some r.source
  destinations : (p.relocationRollbackOverlay.writes.map Patch.span).Perm
    (p.layout.relocations.map Relocation.destination)
  rollback : ((rollbackWrites p.writes).map Patch.span).Perm
    ((finalWrites p.writes).map Patch.span)

/-! ## What the checks say about places -/

theorem perm_of_sortByKey_eq {α : Type} [LinearOrder α] {l l' : List α}
    (h : sortByKey id l = sortByKey id l') : l.Perm l' :=
  ((sortByKey_perm id l).symm.trans (List.Perm.of_eq h)).trans (sortByKey_perm id l')

/-- The place of a range key. -/
def keySpan (key : ℕ ×ₗ ℕ) : ByteRange := ⟨(ofLex key).1, (ofLex key).2⟩

theorem keySpan_rangeKey (write : OverlayWrite) : keySpan (rangeKey write) = write.span := rfl

theorem validatePairing_spans {forward : List ReservedWrite} {rollback : List OverlayWrite} {u : Unit}
    (h : validatePairing forward rollback = .ok u) :
    (rollback.map Patch.span).Perm ((forward.map ReservedWrite.write).map Patch.span) := by
  rw [validatePairing, ensure_ok_iff] at h
  have hperm := (perm_of_sortByKey_eq h).symm.map keySpan
  rw [List.map_map, List.map_map] at hperm
  rw [List.map_map]
  exact hperm

theorem validateRollbackPairing_spans {writes : OpaqueWriteSets} {u : Unit}
    (h : validateRollbackPairing writes = .ok u) :
    ((rollbackWrites writes).map Patch.span).Perm ((finalWrites writes).map Patch.span) := by
  simp only [validateRollbackPairing, bind_ok_iff] at h
  obtain ⟨_, h1, _, h2, h3⟩ := h
  simp only [rollbackWrites, finalWrites, forwardWrites, List.map_append]
  exact ((validatePairing_spans h1).append (validatePairing_spans h2)).append
    (validatePairing_spans h3)

theorem beforeImages_spans {layout : LayoutPlan} {images : List OverlayWrite} {u : Unit}
    (h : validateRelocationBeforeImageRanges layout images = .ok u) :
    (images.map Patch.span).Perm (layout.relocations.map Relocation.destination) := by
  rw [validateRelocationBeforeImageRanges, ensure_ok_iff] at h
  have hperm := ((List.Perm.of_eq h).trans (sortByKey_perm id _)).map keySpan
  rw [List.map_map, List.map_map] at hperm
  exact hperm

/-- Every write lies inside a reservation. -/
theorem validateWritesAgainstReservations_inside {writes : OpaqueWriteSets}
    {reservations : List DestinationReservation} {u : Unit}
    (h : validateWritesAgainstReservations writes reservations = .ok u) :
    ∀ w ∈ finalWrites writes, ∃ r ∈ reservations, w.span.Inside r.range := by
  have hwrite : ∀ {set : String} {allowed : ReservationKind → Prop} [DecidablePred allowed]
      {values : List ReservedWrite} {u : Unit},
      checkAll (validateReservedWrite reservations set allowed) values = .ok u →
      ∀ v ∈ values, ∃ r ∈ reservations, v.write.span.Inside r.range := by
    intro set allowed _ values u hall v hv
    have hone := checkAll_ok_iff.1 hall v hv
    simp only [validateReservedWrite, bind_ok_iff, ensure_ok_iff, orErr_ok_iff,
      checkedAdd_eq_some] at hone
    obtain ⟨_, -, _, ⟨-, rfl⟩, r, hr, -, hle, -, hstop⟩ := hone
    exact ⟨r, hr, hle, hstop⟩
  simp only [validateWritesAgainstReservations, bind_ok_iff] at h
  obtain ⟨_, h1, _, h2, h3⟩ := h
  intro w hw
  simp only [finalWrites, forwardWrites, List.map_append, List.mem_append, List.mem_map] at hw
  rcases hw with (⟨v, hv, rfl⟩ | ⟨v, hv, rfl⟩) | ⟨v, hv, rfl⟩
  · exact hwrite h1 v hv
  · exact hwrite h2 v hv
  · exact hwrite h3 v hv

/-- Every place of the source graph is allocated, and the allocation goes to the solver. -/
theorem exists_live {allocations : List SourceAllocation} {u : Unit}
    (h : validateSourceAllocations source allocations = .ok u) {e : Extent}
    (he : e ∈ source.extents.extents) {s : ByteRange} (hs : e.physical? = some s) :
    ∃ a ∈ (partitionSourceAllocations source allocations).1, a.range = s := by
  simp only [validateSourceAllocations, bind_ok_iff, checkAll_ok_iff] at h
  obtain ⟨_, hall, -⟩ := h
  have hone := hall e he
  have hphysical : e.placement.isPhysical = true := by
    unfold Extent.physical? at hs
    split at hs
    · rename_i heq
      rw [heq]
      rfl
    · cases hs
  rw [validateExtentAllocation, if_pos hphysical] at hone
  simp only [bind_ok_iff, orErr_ok_iff] at hone
  obtain ⟨a, hfind, -⟩ := hone
  have ha := List.mem_of_find?_eq_some hfind
  have hallocates : allocates a e := by simpa using List.find?_some hfind
  have hrange := hallocates.2.2
  rw [hs, Option.some.injEq] at hrange
  refine ⟨a, ?_, hrange⟩
  rw [partitionSourceAllocations, List.mem_filter]
  exact ⟨ha, by simpa using ⟨e, he, hallocates⟩⟩

theorem exists_extent_of_live {allocations : List SourceAllocation} {a : SourceAllocation}
    (ha : a ∈ (partitionSourceAllocations source allocations).1) :
    ∃ e ∈ source.extents.extents, e.physical? = some a.range := by
  rw [partitionSourceAllocations, List.mem_filter] at ha
  obtain ⟨e, he, hallocates⟩ : isGraphAllocation source a := by simpa using ha.2
  exact ⟨e, he, hallocates.2.2.symm⟩

/-- The extents of two graphs with the same contents are the same. -/
theorem moved_of_target {layout : LayoutPlan} {relocated : ObjectGraph}
    (h : Moved projected layout relocated)
    (heq : relocated.root = target.root ∧ relocated.objects = target.objects ∧
      relocated.entries = target.entries ∧ relocated.extents = target.extents) :
    Moved projected layout target := by
  obtain ⟨h1, h2, h3, h4⟩ := heq
  exact ⟨h1 ▸ h.root, h2 ▸ h.objects, h3 ▸ h.entries, h4 ▸ h.volume, h4 ▸ h.extents, h.relocates,
    h.distinct, h.total_lt⟩

theorem keepsPayload_of_build {encode : EnvelopeEncoder}
    (h : buildWithProjectedTargetGraph H encode source projected target draft before limits =
      .ok p) : KeepsPayload source projected target p := by
  simp only [buildWithProjectedTargetGraph, bind_ok_iff, refreshDurableEnvelope, pure_eq_ok,
    Except.ok.injEq] at h
  obtain ⟨planned, hplan, prepared, hseal, encoded, -, -, -, rfl⟩ := h
  have hc := consistent_of_plan hplan
  simp only [sealPlan, bind_ok_iff, pure_eq_ok, Except.ok.injEq, mapError_ok_iff] at hseal
  obtain ⟨payload, -, rfl⟩ := hseal
  simp only [plan, bind_ok_iff, pure_eq_ok, Except.ok.injEq, mapError_ok_iff, ensure_ok_iff,
    exists_const] at hplan
  obtain ⟨-, -, -, -, -, _, hpreflight, target', -, _, hsource, -, -, -, -, _, hreserved, _, hpairing,
    layout, hlayout, hmaterial, relocated, hrelocated, htarget, images, himages, candidate, hcandidate,
    relocation, hrelocation, staging, hstaging, preactivation, hpreactivation, full, hfull, rfl⟩ := hplan
  have hmoved := moved_of_target (relocateObjectGraph_moved hmaterial hrelocated) htarget
  rw [solveLayoutWithStagingExclusionsAndIoAlignment] at hlayout
  obtain ⟨t⟩ := exists_solveTrace hlayout
  have hs := t.sound
  have htargets : ∀ r ∈ layout.relocations, r.destination ∈ layout.targets := fun r hr =>
    List.mem_append_left _ (List.mem_map_of_mem hr)
  have hinside := validateWritesAgainstReservations_inside hreserved
  have hordered := hc.before
  simp only at hordered
  refine ⟨hmoved, ?_, ?_, ?_, ?_, ?_, ?_, ?_, validateRollbackPairing_spans hpairing⟩
  · simp only [validatePreflight, bind_ok_iff, ensure_ok_iff, exists_const] at hpreflight
    exact hpreflight.2.2.1
  · intro r hr
    have hplaced := (hs.targets_placed _ (htargets r hr)).1.2
    rwa [Span.stop, Span.stop, Nat.zero_add] at hplaced
  · intro r hr e he s hes
    obtain ⟨a, ha, rfl⟩ := exists_live hsource he hes
    exact (hs.targets_fresh _ (htargets r hr)).1 a ha
  · intro r hr w hw
    obtain ⟨d, hd, hin⟩ := hinside w hw
    exact ((hs.targets_fresh _ (htargets r hr)).2.1 d hd).mono ⟨le_rfl, le_rfl⟩ hin
  · intro e he s hes
    obtain ⟨a, ha, rfl⟩ := exists_live hsource he hes
    by_cases hmust : a.movable = true ∧ MustMove ⟨0, draft.preflight.image.imageBytes⟩
        draft.preflight.allocationAlignment
        ((sortByKey reservationSortKey draft.reservations).map DestinationReservation.range) a.range
    · have hmem : (a.stream, a.logicalOffset, a.range) ∈
          layout.relocations.map fun r => (r.stream, r.logicalOffset, r.source) := by
        rw [hs.relocated.mem_iff]
        exact List.mem_map_of_mem (List.mem_filter.2 ⟨ha, decide_eq_true hmust⟩)
      obtain ⟨r, hr, hkey⟩ := List.mem_map.1 hmem
      exact Or.inl ⟨r, hr, (Prod.mk.inj (Prod.mk.inj hkey).2).2⟩
    · refine Or.inr fun w hw => ?_
      obtain ⟨d, hd, hin⟩ := hinside w hw
      exact (hs.kept_clear a ha hmust d hd).mono ⟨le_rfl, le_rfl⟩ hin
  · intro r hr
    have hmem : (r.stream, r.logicalOffset, r.source) ∈
        layout.relocations.map fun r => (r.stream, r.logicalOffset, r.source) :=
      List.mem_map_of_mem hr
    rw [hs.relocated.mem_iff] at hmem
    obtain ⟨a, ha, hkey⟩ := List.mem_map.1 hmem
    obtain ⟨e, he, hes⟩ := exists_extent_of_live (List.mem_filter.1 ha).1
    rw [← (Prod.mk.inj (Prod.mk.inj hkey).2).2]
    exact ⟨e, he, hes⟩
  · rw [hordered]
    simp only [validateRelocationBeforeImages, bind_ok_iff, pure_eq_ok, Except.ok.injEq] at himages
    obtain ⟨_, hranges, -, -, -, -, -, -, -, -, rfl⟩ := himages
    exact beforeImages_spans hranges

/-! ## The bytes of a stream after all writes -/

/-- What no write touches keeps its bytes. -/
theorem sliceAt_applyAll_of_disjoint {ps : List OverlayWrite} {image : Bytes} {s : ByteRange}
    (h : ∀ w ∈ ps, s.Disjoint w.span) :
    sliceAt (applyAll ps image) s.offset s.length = sliceAt image s.offset s.length := by
  refine sliceAt_congr fun x h1 h2 => getElem?_applyAll_of_not_mem fun hx => ?_
  obtain ⟨w, hw, hxw⟩ := mem_touched.1 hx
  exact h w hw x ⟨h1, h2⟩ hxw

namespace KeepsPayload

variable {image : Bytes} (h : KeepsPayload source projected target p)
  (hlen : image.length = p.preflight.image.imageBytes)

include h hlen

theorem copyable : ImageExecutor.CopyableGroup image.length p.layout.relocations := by
  have hfits : ∀ r ∈ p.layout.relocations, ImageExecutor.Fits image.length r.source := by
    intro r hr
    obtain ⟨e, he, hes⟩ := h.sources r hr
    rw [hlen, ← h.volume]
    exact Moved.fits_of_mem he hes
  have hlength : ∀ r ∈ p.layout.relocations, r.source.length = r.destination.length := by
    intro r hr
    obtain ⟨i, e, hi, hs, -, hd⟩ := h.moved.exists_extent hr
    rw [physical_length hs, physical_length hd, moveExtent_length]
  refine ⟨hfits, fun r hr => ?_, hlength, h.moved.destinations_disjoint, fun r hr r' hr' => ?_,
    h.moved.total_lt⟩
  · obtain ⟨i, e, hi, -, -, hd⟩ := h.moved.exists_extent hr
    have hdest := Moved.fits_of_mem (List.mem_of_getElem? (h.moved.target_getElem? hi)) hd
    exact ⟨hdest.nonempty, hdest.stop_lt, hlen ▸ h.destination r hr⟩
  · obtain ⟨e, he, hes⟩ := h.sources r' hr'
    exact h.fresh r hr e he _ hes

theorem copyAll_eq : copyAll p.layout.relocations image =
    applyAll (ImageExecutor.copyPatches p.layout.relocations image) image :=
  have hg := h.copyable hlen
  StarConverter.copyAll_eq hg.length hg.apart

theorem getElem?_finalImage_of_not_mem {x : ℕ}
    (hr : ∀ r ∈ p.layout.relocations, x ∉ r.destination)
    (hw : ∀ w ∈ finalWrites p.writes, x ∉ w.span) : (p.finalImage image)[x]? = image[x]? := by
  have hg := h.copyable hlen
  rw [finalImage, getElem?_applyAll_of_not_mem, h.copyAll_eq hlen, getElem?_applyAll_of_not_mem]
  · unfold touched
    rw [map_span_copyPatches hg]
    rintro ⟨d, hd, hx⟩
    obtain ⟨r, hmem, rfl⟩ := List.mem_map.1 hd
    exact hr r hmem hx
  · intro hx
    obtain ⟨w, hmem, hxw⟩ := mem_touched.1 hx
    exact hw w hmem hxw

/-- An extent of the projected graph has its bytes where the target graph places it. -/
theorem extentBytes_eq (hphys : ∀ e ∈ projected.extents.extents, ∀ s, e.physical? = some s →
      ∃ e' ∈ source.extents.extents, e'.physical? = some s)
    {e : Extent} (he : e ∈ projected.extents.extents) :
    extentBytes (p.finalImage image) (moveExtent p.layout.relocations e) = extentBytes image e := by
  have hg := h.copyable hlen
  rw [← h.moved.extentBytes_eq hg he, finalImage, h.copyAll_eq hlen]
  unfold extentBytes
  cases hs : (moveExtent p.layout.relocations e).physical? with
  | none => rfl
  | some s =>
    refine sliceAt_applyAll_of_disjoint fun w hw => ?_
    obtain ⟨i, hi⟩ := List.getElem?_of_mem he
    have hpos : ∀ e ∈ projected.extents.extents, 0 < e.length :=
      fun e he => (projected.extents.valid e he).nonempty
    cases hof : relocationOf p.layout.relocations e with
    | some r =>
      have hr : r ∈ p.layout.relocations := List.mem_of_find?_eq_some hof
      obtain ⟨j, e', hj, hs', -, hd⟩ := h.moved.exists_extent hr
      have hk : extentKey? e = some (relocationKey r) := by simpa using List.find?_some hof
      obtain rfl := physical_inj hpos projected.extents.physical hi hj
        (extentKey?_eq_some.1 hk).2.2 hs'
      rw [hi, Option.some.injEq] at hj
      rw [← hj, hs, Option.some.injEq] at hd
      exact hd ▸ h.clear r hr w hw
    | none =>
      -- A kept extent is no source of a relocation, so the solver kept it off the reservations.
      have hkept : moveExtent p.layout.relocations e = e := by unfold moveExtent; rw [hof]
      rw [hkept] at hs
      obtain ⟨e', he', hes'⟩ := hphys e he s hs
      rcases h.place e' he' s hes' with ⟨r, hr, rfl⟩ | hclear
      · obtain ⟨j, e'', hj, hs'', hof', -⟩ := h.moved.exists_extent hr
        obtain rfl := physical_inj hpos projected.extents.physical hi hj hs hs''
        rw [hi, Option.some.injEq] at hj
        rw [← hj, hof] at hof'
        cases hof'
      · exact hclear w hw

theorem readStream_eq (hphys : ∀ e ∈ projected.extents.extents, ∀ s, e.physical? = some s →
      ∃ e' ∈ source.extents.extents, e'.physical? = some s) (stream : StreamId) :
    readStream target.extents (p.finalImage image) stream =
      readStream projected.extents image stream := by
  unfold readStream ObjectGraph.streamExtents
  rw [h.moved.extents, List.filter_map, List.flatMap_map]
  simp only [Function.comp_def, moveExtent_stream]
  exact List.flatMap_congr fun e he =>
    h.extentBytes_eq hlen hphys (List.mem_of_mem_filter he)

omit hlen in
/-- The before-images stand exactly where the plan writes. -/
theorem mem_touched_beforeImages {x : ℕ} : x ∈ touched p.beforeImages ↔
    (∃ r ∈ p.layout.relocations, x ∈ r.destination) ∨ ∃ w ∈ finalWrites p.writes, x ∈ w.span := by
  rw [beforeImages, touched_append, Set.mem_union]
  unfold touched
  rw [cells_perm h.destinations, cells_perm h.rollback]
  simp only [mem_cells, List.mem_map, exists_exists_and_eq_and]

end KeepsPayload

/-- **Payload is kept.** After the relocations and all writes of a built plan every stream of the
target graph has the bytes the projected graph had in the source image; no relocation goes to a place
of the source graph or of a write, and the before-images cover exactly what is written. -/
theorem keeps_payload {encode : EnvelopeEncoder}
    (hbuild : buildWithProjectedTargetGraph H encode source projected target draft before limits =
      .ok p)
    (hphys : ∀ e ∈ projected.extents.extents, ∀ s, e.physical? = some s →
      ∃ e' ∈ source.extents.extents, e'.physical? = some s)
    {image : Bytes} (hlen : image.length = source.extents.volumeBytes) :
    (∀ stream, readStream target.extents (p.finalImage image) stream =
      readStream projected.extents image stream) ∧
    (∀ r ∈ p.layout.relocations,
      (∀ w ∈ finalWrites p.writes, r.destination.Disjoint w.span) ∧
      (∀ e ∈ projected.extents.extents, relocationOf p.layout.relocations e = none →
        ∀ s, e.physical? = some s → r.destination.Disjoint s) ∧
      ∀ e ∈ source.extents.extents, ∀ s, e.physical? = some s → r.destination.Disjoint s) ∧
    (∀ x, x ∈ touched p.beforeImages ↔
      (∃ r ∈ p.layout.relocations, x ∈ r.destination) ∨ ∃ w ∈ finalWrites p.writes, x ∈ w.span) ∧
    ∀ x, x ∉ touched p.beforeImages → (p.finalImage image)[x]? = image[x]? := by
  have h := keepsPayload_of_build hbuild
  rw [h.volume] at hlen
  refine ⟨h.readStream_eq hlen hphys, fun r hr => ⟨h.clear r hr, ?_, h.fresh r hr⟩,
    fun x => h.mem_touched_beforeImages, fun x hx => ?_⟩
  · intro e he hnone s hs
    obtain ⟨e', he', hes'⟩ := hphys e he s hs
    exact h.fresh r hr e' he' s hes'
  · rw [h.mem_touched_beforeImages] at hx
    exact h.getElem?_finalImage_of_not_mem hlen (fun r hr hxr => hx (Or.inl ⟨r, hr, hxr⟩))
      fun w hw hxw => hx (Or.inr ⟨w, hw, hxw⟩)

/-- The file of the sample moves, and its old place is written over. -/
theorem keeps_payload_sample : ∃ source target,
    buildWithProjectedTargetGraph plainHashing (durableEncoder plainHashing) source source target
      (sampleDraft [7]) (sampleBefore 1) sampleConversionLimits = .ok samplePrepared ∧
    readStream target.extents (samplePrepared.finalImage [0, 0, 7, 0, 0, 0]) 10 =
      readStream source.extents [0, 0, 7, 0, 0, 0] 10 := by
  obtain ⟨source, hsource, target, -, hbuild⟩ : ∃ source, sampleFile 2 1 = some source ∧
      ∃ target, sampleFile 3 1 = some target ∧
      buildWithProjectedTargetGraph plainHashing (durableEncoder plainHashing) source source target
        (sampleDraft [7]) (sampleBefore 1) sampleConversionLimits = .ok samplePrepared := by
    have h := sampleBuild_samplePrepared
    simp only [sampleBuild, bind_ok_iff, orErr_ok_iff] at h
    obtain ⟨source, hsource, target, htarget, h⟩ := h
    exact ⟨source, hsource, target, htarget, h⟩
  have hvolume : source.extents.volumeBytes = 6 := by
    have h : (sampleFile 2 1).map (fun g => g.extents.volumeBytes) = some 6 := by decide +kernel
    rw [hsource, Option.map_some, Option.some.injEq] at h
    exact h
  have hlen : ([0, 0, 7, 0, 0, 0] : Bytes).length = source.extents.volumeBytes := hvolume.symm
  exact ⟨source, target, hbuild, (keeps_payload hbuild (fun e he s hs => ⟨e, he, hs⟩) hlen).1 10⟩

end PreparedConversion

end StarConverter
