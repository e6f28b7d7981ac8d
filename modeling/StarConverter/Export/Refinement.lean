import StarConverter.Export.ViewAgrees

/-!
# The copy export keeps the logical content

Read through the target graph, the candidate holds for every stream what the source holds through its
own graph: a stream that stays has its old extents, moved with their bytes, and a materialized stream
has the bytes it was rebuilt from. `faithful_iff` says when the export gets that far.
-/

namespace StarConverter

open Base Geometry Conversion

namespace Export

namespace CopyExport

variable {x : CopyExport}

/-- The streams the plan materializes. -/
def materializedStreams (x : CopyExport) : List StreamId :=
  x.layout.materializations.map Materialization.stream

theorem mem_materializedStreams_of_span {s : MaterializationSpan} (hs : s ∈ x.spans) :
    s.stream ∈ x.materializedStreams := by
  obtain ⟨m, hm, hs⟩ := List.mem_flatMap.1 (x.authorized.spans_perm.mem_iff.1 hs)
  rw [(mem_spansFrom hs).2.1]
  exact List.mem_map_of_mem hm

/-! ## Streams that stay -/

/-- Extents of the target graph are told apart by their physical ranges. -/
theorem eq_of_physical {a b : Extent} {r : ByteRange} (ha : a ∈ x.target.extents.extents)
    (hb : b ∈ x.target.extents.extents) (har : a.physical? = some r) (hbr : b.physical? = some r) :
    a = b := by
  by_contra hne
  have hpos : 0 < r.length := by
    rw [physical_length har]
    exact (x.target.extents.valid a ha).nonempty
  have hmem : r.offset ∈ r := ⟨le_rfl, by unfold Span.stop; omega⟩
  exact target_disjoint ha hb har hbr hne r.offset hmem hmem

/-- Extents of the source graph are told apart by their places in the streams. -/
theorem eq_of_logical {a b : Extent} (ha : a ∈ x.graph.extents.extents)
    (hb : b ∈ x.graph.extents.extents) (hstream : a.stream = b.stream)
    (hoffset : a.logicalOffset = b.logicalOffset) : a = b := by
  by_contra hne
  have hsymm : Std.Symm LogicallyDisjoint := ⟨fun _ _ h hs => (h hs.symm).symm⟩
  have hpos := (x.graph.extents.valid a ha).nonempty
  have hpos' := (x.graph.extents.valid b hb).nonempty
  refine x.graph.extents.logical.forall ha hb hne hstream a.logicalOffset ⟨le_rfl, ?_⟩ ⟨?_, ?_⟩
  · show a.logicalOffset < a.logicalOffset + a.length
    omega
  · exact hoffset.ge
  · show a.logicalOffset < b.logicalOffset + b.length
    omega

section Stays

variable {e : Extent} (he : e ∈ x.graph.extents.extents) (hstays : e.stream ∉ x.materializedStreams)

include he hstays

theorem moveExtent_mem_target : moveExtent x.layout.relocations e ∈ x.target.extents.extents := by
  rw [x.graphs.extents, mem_sortByKey, relocatedExtents, keptExtents_map]
  refine List.mem_append_left _ (List.mem_map_of_mem (List.mem_filter.2 ⟨he, ?_⟩))
  simp only [decide_eq_true_eq, not_and]
  exact fun h => absurd h hstays

/-- An extent that is not moved is no destination either. -/
theorem content_unmoved (hnone : relocationOf x.layout.relocations e = none) {r : ByteRange}
    (hr : e.physical? = some r) {i : ℕ} (hi : i ∈ r) : x.content[i]? = x.source.content[i]? := by
  have htarget : e ∈ x.target.extents.extents := by
    have hmem := moveExtent_mem_target he hstays
    rwa [moveExtent, hnone] at hmem
  refine content_of_no_destination htarget hr (fun s hs heq => ?_) (fun m hm heq => ?_) hi
  · obtain ⟨e', he', hstream, -, hphys⟩ := x.authorized.span_committed s hs
    obtain rfl := eq_of_physical he' htarget hphys (heq ▸ hr)
    exact hstays (hstream ▸ mem_materializedStreams_of_span hs)
  · obtain ⟨e', he', hstream, hoffset, hphys⟩ := x.authorized.relocation_committed m hm
    obtain rfl := eq_of_physical he' htarget hphys (heq ▸ hr)
    have hm' : m ∈ x.layout.relocations := x.authorized.relocations_perm.mem_iff.1 hm
    obtain ⟨-, e'', he'', hkey, -⟩ := x.graphs.applicable.relocates m hm'
    obtain ⟨hstream', hoffset', -⟩ := extentKey?_eq_some.1 hkey
    obtain rfl := eq_of_logical he'' he (hstream'.trans hstream.symm) (hoffset'.trans hoffset.symm)
    exact absurd (decide_eq_true hkey) (List.find?_eq_none.1 hnone m hm')

/-- A physical extent keeps its bytes, at its new place. -/
theorem moved_bytes {byteOffset : ℕ} (hplace : e.placement = .physical byteOffset) :
    ∃ byteOffset', (moveExtent x.layout.relocations e).placement = .physical byteOffset' ∧
      ∀ j < e.length, x.content[byteOffset' + j]? = x.source.content[byteOffset + j]? := by
  have hphys : e.physical? = some ⟨byteOffset, e.length⟩ := by
    rw [Extent.physical?, hplace]
  cases hfind : relocationOf x.layout.relocations e with
  | none =>
    refine ⟨byteOffset, by rw [moveExtent, hfind]; exact hplace, fun j hj => ?_⟩
    refine content_unmoved he hstays hfind hphys ⟨Nat.le_add_right _ _, ?_⟩
    exact Nat.add_lt_add_left hj _
  | some m =>
    have hm : m ∈ x.relocations :=
      x.authorized.relocations_perm.mem_iff.2 (List.mem_of_find?_eq_some hfind)
    have hkey : extentKey? e = some (relocationKey m) := by simpa using List.find?_some hfind
    have hsource : m.source = ⟨byteOffset, e.length⟩ :=
      Option.some.inj ((extentKey?_eq_some.1 hkey).2.2.symm.trans hphys)
    have hlength : m.destination.length = e.length := by
      rw [← (x.authorized.relocation m hm).1, hsource]
    refine ⟨m.destination.offset, by rw [moveExtent, hfind], fun j hj => ?_⟩
    rw [content_relocation hm ⟨Nat.le_add_right _ _, by unfold Span.stop; omega⟩, hsource,
      Nat.add_sub_cancel_left]

omit he hstays in
theorem moveExtent_sparse (hplace : e.placement = .sparse) :
    (moveExtent x.layout.relocations e).placement = .sparse := by
  have hphysical := moveExtent_isPhysical x.layout.relocations e
  rw [hplace] at hphysical
  cases hmoved : (moveExtent x.layout.relocations e).placement with
  | sparse => rfl
  | physical byteOffset =>
    rw [hmoved] at hphysical
    cases hphysical

theorem placedByte_moved {i : ℕ} (hlo : e.logicalOffset ≤ i) (hhi : i < e.logicalOffset + e.length) :
    Verify.placedByte x.content (moveExtent x.layout.relocations e) i =
      Verify.placedByte x.source.content e i := by
  unfold Verify.placedByte
  cases hplace : e.placement with
  | sparse => rw [moveExtent_sparse hplace]
  | physical byteOffset =>
    obtain ⟨byteOffset', hmoved, hbytes⟩ := moved_bytes he hstays hplace
    rw [hmoved]
    dsimp only
    rw [moveExtent_logicalOffset, List.getD_eq_getElem?_getD, List.getD_eq_getElem?_getD,
      hbytes _ (by omega)]

/-- The part of an extent inside a window keeps its bytes. -/
theorem piece_moved (lo hi : ℕ) :
    Lznt1.piece x.content (Lznt1.clip lo hi (moveExtent x.layout.relocations e)) =
      Lznt1.piece x.source.content (Lznt1.clip lo hi e) := by
  unfold Lznt1.piece Extent.physical? Lznt1.clip
  rw [moveExtent_logicalOffset, moveExtent_length]
  cases hplace : e.placement with
  | sparse => rw [moveExtent_sparse hplace]
  | physical byteOffset =>
    obtain ⟨byteOffset', hmoved, hbytes⟩ := moved_bytes he hstays hplace
    rw [hmoved]
    dsimp only
    refine sliceAt_eq fun j hj => ?_
    rw [Nat.add_assoc, Nat.add_assoc]
    exact hbytes _ (by omega)

end Stays

section StaysStream

variable {stream : ObjectStream} (hstays : stream.id ∉ x.materializedStreams)

include hstays

theorem storedByte_stays (i : ℕ) : Verify.storedByte x.content x.target.extents stream i =
    Verify.storedByte x.source.content x.graph.extents stream i := by
  unfold Verify.storedByte
  cases stream.storage with
  | resident bytes => rfl
  | extents =>
    have hpred : ((fun e : Extent => decide (e.logicalOffset ≤ i ∧
        i < e.logicalOffset + e.length)) ∘ moveExtent x.layout.relocations) =
        fun e : Extent => decide (e.logicalOffset ≤ i ∧ i < e.logicalOffset + e.length) := by
      funext e
      simp only [Function.comp_apply, moveExtent_logicalOffset, moveExtent_length]
    rw [streamExtents_moved x.graphs.extents hstays, List.find?_map, hpred]
    cases hfind : (ObjectGraph.streamExtents x.graph.extents stream.id).find? fun e =>
        decide (e.logicalOffset ≤ i ∧ i < e.logicalOffset + e.length) with
    | none => rfl
    | some e =>
      have hin : e.logicalOffset ≤ i ∧ i < e.logicalOffset + e.length := by
        simpa using List.find?_some hfind
      obtain ⟨he, hid⟩ := List.mem_filter.1 (List.mem_of_find?_eq_some hfind)
      have hid : e.stream = stream.id := of_decide_eq_true hid
      exact placedByte_moved he (hid ▸ hstays) hin.1 hin.2

theorem unitTextAt_stays (block k : ℕ) :
    Lznt1.unitTextAt x.content x.target.extents.extents stream.id block k =
      Lznt1.unitTextAt x.source.content x.graph.extents.extents stream.id block k := by
  have hmoved : (x.target.extents.extents.filter fun e => e.stream = stream.id) =
      (x.graph.extents.extents.filter fun e => e.stream = stream.id).map
        (moveExtent x.layout.relocations) := streamExtents_moved x.graphs.extents hstays
  unfold Lznt1.unitTextAt
  generalize k * block = lo
  rw [Lznt1.windowExtents_eq, Lznt1.windowExtents_eq, hmoved, List.filter_map, List.map_map]
  have hpred : ((fun e : Extent => decide (e.kind = .fileData ∧ e.logicalOffset < lo + block ∧
      lo < e.logicalOffset + e.length)) ∘ moveExtent x.layout.relocations) =
        fun e : Extent => decide (e.kind = .fileData ∧ e.logicalOffset < lo + block ∧
          lo < e.logicalOffset + e.length) := by
    funext e
    simp only [Function.comp_apply, moveExtent_logicalOffset, moveExtent_length, moveExtent_kind]
  rw [hpred]
  refine Lznt1.windowText_map_congr block (fun e _ => ?_) (fun e _ => ?_) fun e he => ?_
  · show (Lznt1.clip _ _ (moveExtent _ e)).length = (Lznt1.clip _ _ e).length
    unfold Lznt1.clip
    rw [moveExtent_logicalOffset, moveExtent_length]
  · have hclip : ∀ e : Extent,
        (Lznt1.clip lo (lo + block) e).placement.isPhysical = e.placement.isPhysical := by
      intro e
      unfold Lznt1.clip
      cases e.placement <;> rfl
    rw [Function.comp_apply, hclip, hclip, moveExtent_isPhysical]
  · obtain ⟨he, hid⟩ := List.mem_filter.1 (List.mem_of_mem_filter he)
    have hid : e.stream = stream.id := of_decide_eq_true hid
    exact piece_moved he (hid ▸ hstays) lo (lo + block)

/-- A stream that stays keeps its content, also where it cannot be decoded. -/
theorem logicalContent_stays : logicalContent x.content x.target.extents stream =
    logicalContent x.source.content x.graph.extents stream := by
  have hbyte : ∀ i, logicalByte x.content x.target.extents stream i =
      logicalByte x.source.content x.graph.extents stream i := by
    intro i
    rw [logicalByte, logicalByte, unitTextAt_stays hstays, storedByte_stays hstays]
  simp only [logicalContent, hbyte]

end StaysStream

/-! ## Materialized streams -/

/-- The extent placed around a place of a stream, and its span. -/
theorem find_placeFrom (stream : StreamId) (total : ℕ) {start i : ℕ} {destinations : List ByteRange}
    (hlo : start ≤ i) (hhi : i < start + spanTotal destinations) :
    ∃ e d, (placeFrom stream start destinations).find? (fun e : Extent =>
        decide (e.logicalOffset ≤ i ∧ i < e.logicalOffset + e.length)) = some e ∧
      e.placement = .physical d.offset ∧ e.logicalOffset ≤ i ∧ i < e.logicalOffset + d.length ∧
        (⟨stream, e.logicalOffset, d, total⟩ : MaterializationSpan) ∈
          spansFrom stream total start destinations := by
  induction destinations generalizing start with
  | nil =>
    rw [spanTotal, List.map_nil, List.sum_nil] at hhi
    omega
  | cons d rest ih =>
    have hcons : spanTotal (d :: rest) = d.length + spanTotal rest := by simp [spanTotal]
    rw [placeFrom, List.find?_cons]
    by_cases hin : i < start + d.length
    · rw [decide_eq_true (show start ≤ i ∧ i < start + d.length from ⟨hlo, hin⟩)]
      exact ⟨_, d, rfl, rfl, hlo, hin, List.mem_cons_self⟩
    · rw [decide_eq_false (show ¬ (start ≤ i ∧ i < start + d.length) from fun h => hin h.2)]
      obtain ⟨e, d', hfind, hplace, hle, hlt, hmem⟩ :=
        @ih (start + d.length) (by omega) (by omega)
      exact ⟨e, d', hfind, hplace, hle, hlt, List.mem_cons_of_mem _ hmem⟩

section Materialized

variable {m : Materialization} (hm : m ∈ x.layout.materializations) {stream : ObjectStream}
  (hs : stream ∈ ObjectGraph.allStreams x.graph.objects) (hid : stream.id = m.stream)

include hm hs hid

theorem logicalBytes_le : stream.logicalBytes ≤ spanTotal m.destinations := by
  obtain ⟨found, hfound, -, hle⟩ := (x.graphs.applicable.materializable m hm).found
  obtain ⟨hmem, hfid⟩ := findFileStream_ok hfound
  obtain ⟨limits, hacc⟩ := x.graph.accepted
  obtain ⟨hvalid, -⟩ := ObjectGraph.streams_of_accepted hacc
  obtain rfl : stream = found := List.inj_on_of_nodup_map hvalid.distinct hs hmem (hid.trans hfid.symm)
  exact hle

/-- The rebuilding of a materialized stream. -/
theorem reconstruct_iff :
    (∀ out, reconstructStreamDestination x.source x.graph m.stream (spanTotal m.destinations) =
      .ok out → Rebuildable x.source x.graph.extents stream ∧
        Rebuilds x.source x.graph.extents stream (spanTotal m.destinations) out) ∧
    (Rebuildable x.source x.graph.extents stream →
      ∃ out, reconstructStreamDestination x.source x.graph m.stream (spanTotal m.destinations) =
        .ok out) := by
  have hkinds : ∀ e ∈ x.graph.extents.extents, e.stream = stream.id → e.kind = .fileData :=
    fun e he heq => x.graphs.kinds m hm e he (heq.trans hid)
  rw [← hid]
  exact reconstructStreamDestination_ok_iff hs hkinds (logicalBytes_le hm hs hid)

/-- A materialized stream holds the bytes it was rebuilt from. -/
theorem logicalContent_materialized (hms : x.AllRebuilt) :
    logicalContent x.content x.target.extents
        (materializeStream (spanTotal m.destinations) stream) =
      logicalContent x.source.content x.graph.extents stream := by
  obtain ⟨payload, hpayload, hlen⟩ := hms m hm
  have hrebuilds := ((reconstruct_iff hm hs hid).1 payload hpayload).2
  obtain ⟨limits, hacc⟩ := x.graph.accepted
  obtain ⟨hvalid, -⟩ := ObjectGraph.streams_of_accepted hacc
  have hsizes := (hvalid.valid stream hs).sizes.1
  have hle := logicalBytes_le hm hs hid
  have hextents : ObjectGraph.streamExtents x.target.extents stream.id =
      placeFrom m.stream 0 m.destinations := by
    rw [hid]
    exact streamExtents_placed x.graphs.extents x.graphs.applicable x.graphs.kinds hm
  have hbyte : ∀ i, i < stream.initializedBytes →
      logicalByte x.content x.target.extents (materializeStream (spanTotal m.destinations) stream) i =
        logicalByte x.source.content x.graph.extents stream i := by
    intro i hi
    obtain ⟨e, d, hfind, hplace, hlo, hhi, hmem⟩ := find_placeFrom m.stream (spanTotal m.destinations)
      (Nat.zero_le i) (show i < 0 + spanTotal m.destinations by omega)
    have hspan : (⟨m.stream, e.logicalOffset, d, spanTotal m.destinations⟩ : MaterializationSpan) ∈
        x.spans := x.authorized.spans_perm.mem_iff.2 (List.mem_flatMap.2 ⟨m, hm, hmem⟩)
    have hpart : payloadOf x.source x.graph
        ⟨m.stream, e.logicalOffset, d, spanTotal m.destinations⟩ = payload := by
      rw [payloadOf, hpayload]
      rfl
    have hinside : d.offset + (i - e.logicalOffset) ∈ d :=
      ⟨Nat.le_add_right _ _, by unfold Span.stop; omega⟩
    have hcontent := content_span hms hspan hinside
    dsimp only at hcontent
    rw [hpart, Nat.add_sub_cancel_left, Nat.add_sub_cancel' hlo] at hcontent
    have hplain : ¬ Compressed (materializeStream (spanTotal m.destinations) stream) :=
      fun h => h.2 rfl
    rw [hrebuilds.byte i hi, logicalByte, if_neg hplain]
    refine congrArg some ?_
    have hname : (materializeStream (spanTotal m.destinations) stream).id = stream.id := rfl
    have hstorage : (materializeStream (spanTotal m.destinations) stream).storage = .extents := rfl
    rw [Verify.storedByte, hstorage]
    dsimp only
    rw [hname, hextents, hfind]
    dsimp only
    rw [Verify.placedByte, hplace]
    dsimp only
    rw [List.getD_eq_getElem?_getD, List.getD_eq_getElem?_getD, hcontent]
  unfold logicalContent
  have hpoint : ∀ i, (if i < stream.initializedBytes then logicalByte x.content x.target.extents
      (materializeStream (spanTotal m.destinations) stream) i else some 0) =
        if i < stream.initializedBytes then
          logicalByte x.source.content x.graph.extents stream i else some 0 := by
    intro i
    split_ifs with hi
    · exact hbyte i hi
    · rfl
  exact congrArg (fun f => (List.range stream.logicalBytes).mapM f) (funext hpoint)

end Materialized

/-! ## When the candidate is what the view promises -/

/-- The candidate holds, in every window of every physical extent of the target graph, what the view
reads there, and for every stream of the target graph the content the stream has in the source. -/
def Faithful (x : CopyExport) : Prop :=
  ∃ candidate, x.candidate = .ok candidate ∧
    (∀ e ∈ x.target.extents.extents, ∀ range ∈ e.physical?, ∀ offset length,
      range.offset ≤ offset → offset + length ≤ range.stop → length ≤ x.source.maxReadBytes →
        x.view.readExactAt offset length = .ok (sliceAt candidate offset length)) ∧
    List.Forall₂ (fun s t => s.id = t.id ∧ logicalContent candidate x.target.extents t =
        logicalContent x.source.content x.graph.extents s)
      (ObjectGraph.allStreams x.graph.objects) (ObjectGraph.allStreams x.target.objects)

/-- What the image has to offer: reads as long as the chunks of the copy and the pieces of materialized
streams, and room for the target graph. -/
structure Exportable (x : CopyExport) : Prop where
  copyable : Copyable x.source x.chunkBytes
  inside : ∀ e ∈ x.target.extents.extents, ∀ range ∈ e.physical?, range.stop ≤ x.source.len
  rebuildable : ∀ stream ∈ ObjectGraph.allStreams x.graph.objects,
    stream.id ∈ x.materializedStreams → Rebuildable x.source x.graph.extents stream

theorem Exportable.allRebuilt (h : Exportable x) : x.AllRebuilt := by
  intro m hm
  obtain ⟨found, hfound, -⟩ := (x.graphs.applicable.materializable m hm).found
  obtain ⟨hs, hid⟩ := findFileStream_ok hfound
  have hbuild := h.rebuildable found hs (hid ▸ List.mem_map_of_mem hm)
  obtain ⟨out, hout⟩ := (reconstruct_iff hm hs hid).2 hbuild
  exact ⟨out, hout, ((reconstruct_iff hm hs hid).1 out hout).2.length⟩

theorem logicalContent_materializedObjects (hms : x.AllRebuilt) : List.Forall₂
    (fun s t => s.id = t.id ∧ logicalContent x.content x.target.extents t =
      logicalContent x.source.content x.graph.extents s)
    (ObjectGraph.allStreams x.graph.objects) (ObjectGraph.allStreams x.target.objects) := by
  rw [x.graphs.objects, allStreams_materializedObjects, List.forall₂_map_right_iff, List.forall₂_same]
  intro s hs
  refine ⟨(materialized_id _ s).symm, ?_⟩
  by_cases hin : s.id ∈ x.materializedStreams
  · obtain ⟨m, hm, hid⟩ := List.mem_map.1 hin
    rw [materialized_of_mem x.graphs.applicable.streams hm hid.symm]
    exact logicalContent_materialized hm hs hid.symm hms
  · rw [materialized_of_notMem hin]
    exact logicalContent_stays hin

/-- What a finished candidate tells about the image. -/
theorem exportable_of_faithful (h : x.Faithful) : x.Exportable := by
  obtain ⟨candidate, hok, hview, -⟩ := h
  have hcopy : Copyable x.source x.chunkBytes := by
    simp only [CopyExport.candidate, buildCandidate, bind_ok_iff] at hok
    obtain ⟨output, hcopy, -⟩ := hok
    exact ((copySource_ok_iff x.chunkBytes_pos).1 hcopy).1
  have hbuild : ∀ m ∈ x.layout.materializations, ∃ payload,
      reconstructStreamDestination x.source x.graph m.stream (spanTotal m.destinations) =
        .ok payload := by
    simp only [CopyExport.candidate, buildCandidate, bind_ok_iff, x.materializations_eq] at hok
    obtain ⟨output, -, moved, -, rebuilt, hrebuilt, -⟩ := hok
    exact reconstruct_of_applyMaterializations hrebuilt
  have hrebuildable : ∀ stream ∈ ObjectGraph.allStreams x.graph.objects,
      stream.id ∈ x.materializedStreams → Rebuildable x.source x.graph.extents stream := by
    intro stream hs hin
    obtain ⟨m, hm, hid⟩ := List.mem_map.1 hin
    obtain ⟨payload, hpayload⟩ := hbuild m hm
    exact ((reconstruct_iff hm hs hid.symm).1 payload hpayload).1
  have hms : x.AllRebuilt := by
    intro m hm
    obtain ⟨payload, hpayload⟩ := hbuild m hm
    obtain ⟨found, hfound, -⟩ := (x.graphs.applicable.materializable m hm).found
    obtain ⟨hs, hid⟩ := findFileStream_ok hfound
    exact ⟨payload, hpayload, ((reconstruct_iff hm hs hid).1 payload hpayload).2.length⟩
  obtain rfl : x.content = candidate :=
    Except.ok.inj ((x.candidate_eq hcopy hms).symm.trans hok)
  refine ⟨hcopy, fun e he range hr => ?_, hrebuildable⟩
  -- The last byte of the extent is read by a window of one byte.
  have hpos : 0 < range.length := by
    rw [physical_length hr]
    exact (x.target.extents.valid e he).nonempty
  have hstop : range.stop = range.offset + range.length := rfl
  have hread := hview e he range hr (range.stop - 1) 1 (by omega) (by omega)
    x.source.maxReadBytes_pos
  have hone := x.view.readExactAt_length hread
  rw [length_sliceAt, length_content] at hone
  omega

/-- **The copy export refines its view.** The candidate is built, agrees with the view in every window
and keeps the content of every stream, if and only if the chunks of the copy and the pieces of the
materialized streams fit one read each and the target graph fits the image. -/
theorem faithful_iff (x : CopyExport) : x.Faithful ↔ x.Exportable := by
  refine ⟨exportable_of_faithful, fun h => ?_⟩
  have hms := h.allRebuilt
  refine ⟨x.content, x.candidate_eq h.copyable hms, fun e he range hr offset length hlo hhi hmax => ?_,
    logicalContent_materializedObjects hms⟩
  exact view_readExactAt hms he hr (h.inside e he range hr) hmax hlo hhi

theorem rebuildable_of_plain {source : SourceImage} {extents : ExtentGraph} {stream : ObjectStream}
    (hstorage : stream.storage = .extents) (hblock : stream.flags.compressionBlockBytes = 0)
    (h : ∀ extent ∈ fileData extents stream.id, extent.logicalOffset < stream.initializedBytes →
      ∀ range ∈ extent.physical?, source.Fits range.offset
        (min range.length (stream.initializedBytes - extent.logicalOffset))) :
    Rebuildable source extents stream := by
  unfold Rebuildable
  rw [hstorage]
  dsimp only
  rw [if_neg (not_not.2 hblock)]
  exact h

/-- A directory, and a file of eight bytes of which four are stored at 8 and four are sparse. -/
def halfSparseExtents : ExtentGraph :=
  okValue (ExtentGraph.build
    [⟨7, 0, 4, .physical 0, .directoryData⟩, ⟨9, 0, 4, .physical 8, .fileData⟩,
      ⟨9, 4, 4, .sparse, .fileData⟩] 32 3) (by decide +kernel)

def halfSparseGraph : ObjectGraph :=
  okValue (ObjectGraph.build 1
    [⟨1, .directory, 0, ⟨false, false⟩,
        [⟨7, none, 4, 4, 4, 4, ⟨false, false, false, 0⟩, .extents⟩]⟩,
      ⟨2, .file, 1, ⟨false, false⟩,
        [⟨9, none, 8, 8, 8, 4, ⟨true, false, false, 0⟩, .extents⟩]⟩]
    [⟨1, 2, [97]⟩] halfSparseExtents ⟨2, 2, 2, 4⟩) (by decide +kernel)

/-- The file is written anew to eight bytes at 16. -/
def halfSparseLayout : LayoutPlan :=
  { relocations := []
    materializations := [⟨9, [⟨16, 8⟩]⟩]
    freeAfterStaging := []
    relocatedBytes := 0
    materializedBytes := 8
    largestFreeRange := 0 }

def halfSparsePlan : SealedRelocationPlan where
  sourceGraph := halfSparseGraph
  targetGraph := okValue (relocateObjectGraph halfSparseGraph halfSparseLayout) (by decide +kernel)
  layout := halfSparseLayout
  relocated := eq_okValue _

/-- One byte for each phase. -/
def threeWrites : OpaqueWriteSets where
  targetStaging := [⟨.other, ⟨4, [1]⟩⟩]
  backupBoot := [⟨.other, ⟨5, [2]⟩⟩]
  activation := [⟨.bootRegion, ⟨6, [3]⟩⟩]
  targetStagingRollback := [⟨4, [0]⟩]
  backupBootRollback := [⟨5, [0]⟩]
  activationRollback := [⟨6, [0]⟩]

/-- An image of 32 bytes that returns at most `maxReadBytes` at once. -/
def halfSparseImage (maxReadBytes : ℕ) (hpos : 0 < maxReadBytes) : SourceImage where
  content := List.replicate 32 0
  maxReadBytes := maxReadBytes
  maxReadBytes_pos := hpos
  length_lt := by decide

def halfSparseLimits : CandidateExportLimits := ⟨16, 1024⟩

/-- The export with reads of four bytes. -/
def fourByteExport : CopyExport where
  source := halfSparseImage 4 (by decide)
  authority := halfSparsePlan
  writes := threeWrites
  limits := halfSparseLimits
  chunkBytes := 2
  preview := okValue (validatePreview (halfSparseImage 4 (by decide)).reader threeWrites
    halfSparseLimits) (by decide +kernel)
  moved := okValue (validateRelocations (halfSparseImage 4 (by decide)) halfSparsePlan threeWrites
    halfSparseLimits) (by decide +kernel)
  rebuilt := okValue (validateMaterializations (halfSparseImage 4 (by decide)) halfSparsePlan
    threeWrites halfSparseLimits) (by decide +kernel)
  chunkBytes_pos := by decide
  preview_ok := eq_okValue _
  moved_ok := eq_okValue _
  rebuilt_ok := eq_okValue _
  apart := by
    intro w hw e he r hr
    refine Span.disjoint_of_not_overlaps ?_
    revert w e r
    decide +kernel

/-- The same with reads of two bytes. -/
def twoByteExport : CopyExport where
  source := halfSparseImage 2 (by decide)
  authority := halfSparsePlan
  writes := threeWrites
  limits := halfSparseLimits
  chunkBytes := 2
  preview := okValue (validatePreview (halfSparseImage 2 (by decide)).reader threeWrites
    halfSparseLimits) (by decide +kernel)
  moved := okValue (validateRelocations (halfSparseImage 2 (by decide)) halfSparsePlan threeWrites
    halfSparseLimits) (by decide +kernel)
  rebuilt := okValue (validateMaterializations (halfSparseImage 2 (by decide)) halfSparsePlan
    threeWrites halfSparseLimits) (by decide +kernel)
  chunkBytes_pos := by decide
  preview_ok := eq_okValue _
  moved_ok := eq_okValue _
  rebuilt_ok := eq_okValue _
  apart := fourByteExport.apart

theorem faithful_fourByteExport : fourByteExport.Faithful := by
  have hplain : ∀ stream ∈ ObjectGraph.allStreams fourByteExport.graph.objects,
      stream.id ∈ fourByteExport.materializedStreams → stream.storage = .extents ∧
        stream.flags.compressionBlockBytes = 0 ∧
          ∀ extent ∈ fileData fourByteExport.graph.extents stream.id,
            extent.logicalOffset < stream.initializedBytes → ∀ range ∈ extent.physical?,
              fourByteExport.source.Fits range.offset
                (min range.length (stream.initializedBytes - extent.logicalOffset)) := by
    decide +kernel
  refine (faithful_iff fourByteExport).2 ⟨by decide +kernel, by decide +kernel, fun stream hs hin => ?_⟩
  obtain ⟨hstorage, hblock, hfits⟩ := hplain stream hs hin
  exact rebuildable_of_plain hstorage hblock hfits

/-- The four stored bytes do not fit one read of two. -/
theorem not_faithful_twoByteExport : ¬ twoByteExport.Faithful := by
  rintro ⟨candidate, hok, -⟩
  have hno : twoByteExport.candidate.toOption.isSome = false := by decide +kernel
  rw [hok] at hno
  cases hno

end CopyExport

end Export

end StarConverter
