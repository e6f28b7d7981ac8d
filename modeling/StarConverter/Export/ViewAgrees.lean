import StarConverter.Export.CopyExport

/-!
# The view shows the candidate

A window inside a physical extent of the target graph lies in the span of a rebuilt stream, in the
destination of a relocation, or where nothing was written. The view tells the three apart by searching
its two sorted lists, and reads what the candidate holds there (`view_readExactAt`).
-/

namespace StarConverter

open Base Geometry Conversion

namespace Export

theorem coveringMaterialization_some {spans : List MaterializationSpan} {offset stop : ℕ}
    {s : MaterializationSpan} (h : coveringMaterialization spans offset stop = some s) :
    s ∈ spans ∧ s.destination.offset ≤ offset ∧ stop ≤ s.destination.stop := by
  rw [coveringMaterialization, Option.filter_eq_some_iff] at h
  obtain ⟨hfound, hend⟩ := h
  obtain ⟨destinationEnd, hsum, hle⟩ := Option.any_eq_true _ _ |>.1 hend
  rw [checkedAdd_eq_some] at hsum
  obtain ⟨-, rfl⟩ := hsum
  obtain ⟨hmem, hoffset⟩ := lastStarting_some hfound
  have hle := of_decide_eq_true hle
  exact ⟨hmem, hoffset, hle⟩

/-- A span that holds a whole nonempty window is found. -/
theorem coveringMaterialization_of_mem {spans : List MaterializationSpan}
    (ho : Ordered (spans.map MaterializationSpan.destination)) {s : MaterializationSpan}
    (hs : s ∈ spans) {offset stop : ℕ} (hoffset : offset ∈ s.destination)
    (hstop : stop ≤ s.destination.stop) (hlt : s.destination.stop < wordBound) :
    coveringMaterialization spans offset stop = some s := by
  have hfound : lastStarting (fun item : MaterializationSpan => item.destination.offset) offset spans =
      some s := lastStarting_of_mem ho hs hoffset
  have hword : s.destination.offset + s.destination.length < wordBound := hlt
  rw [coveringMaterialization, hfound, Option.filter_some, checkedAdd_of_lt hword, Option.any_some]
  exact if_pos (decide_eq_true hstop)

namespace CopyExport

variable {x : CopyExport}

/-- Different physical ranges of the target graph are disjoint. -/
theorem target_disjoint {a b : Extent} {r r' : ByteRange} (ha : a ∈ x.target.extents.extents)
    (hb : b ∈ x.target.extents.extents) (har : a.physical? = some r) (hbr : b.physical? = some r')
    (hne : a ≠ b) : r.Disjoint r' := by
  have hsymm : Std.Symm PhysicallyDisjoint := ⟨fun _ _ h s hs t ht => (h t ht s hs).symm⟩
  exact x.target.extents.physical.forall ha hb hne r har r' hbr

/-- An extent of the target graph that is no destination of the plan holds the bytes of the source. -/
theorem content_of_no_destination {e : Extent} {r : ByteRange} (he : e ∈ x.target.extents.extents)
    (hr : e.physical? = some r) (hs : ∀ s ∈ x.spans, s.destination ≠ r)
    (hm : ∀ m ∈ x.relocations, m.destination ≠ r) {i : ℕ} (hi : i ∈ r) :
    x.content[i]? = x.source.content[i]? := by
  refine content_untouched (fun w hw hmem => ?_) (fun s hs' hmem => ?_) fun m hm' hmem => ?_
  · exact x.apart w hw e he r hr i hmem hi
  · obtain ⟨e', he', -, -, hphys⟩ := x.authorized.span_committed s hs'
    refine target_disjoint he' he hphys hr (fun heq => hs s hs' ?_) i hmem hi
    exact Option.some.inj (hphys.symm.trans (heq ▸ hr))
  · obtain ⟨e', he', -, -, hphys⟩ := x.authorized.relocation_committed m hm'
    refine target_disjoint he' he hphys hr (fun heq => hm m hm' ?_) i hmem hi
    exact Option.some.inj (hphys.symm.trans (heq ▸ hr))

section Window

variable {offset length : ℕ}

/-- A window that reads the same in the source and in the candidate. -/
theorem read_same (hmax : length ≤ x.source.maxReadBytes) {sourceOffset : ℕ}
    (hsource : sourceOffset + length ≤ x.source.len)
    (h : ∀ j < length, x.content[offset + j]? = x.source.content[sourceOffset + j]?) :
    x.source.reader.readExactAt sourceOffset length = .ok (sliceAt x.content offset length) := by
  have hlt := x.source.length_lt
  exact Preimage.imageFileRead_ok_iff.2 ⟨lt_of_le_of_lt hsource hlt, hmax, hsource, sliceAt_eq h⟩

/-- A window inside a span is cut out of the rebuilt stream. -/
theorem readMaterialized (hms : x.AllRebuilt) {s : MaterializationSpan} (hs : s ∈ x.spans)
    (hoffset : s.destination.offset ≤ offset) (hstop : offset + length ≤ s.destination.stop) :
    readMaterializedLogical x.source x.graph s offset length =
      .ok (sliceAt x.content offset length) := by
  obtain ⟨hpayload, hle⟩ := payload_of_span hms hs
  have hstop' : offset + length ≤ s.destination.offset + s.destination.length := hstop
  have hword : (payloadOf x.source x.graph s).length < wordBound := by
    obtain ⟨m, hm, hs'⟩ := List.mem_flatMap.1 (x.authorized.spans_perm.mem_iff.1 hs)
    obtain ⟨-, hstream, htotal, -⟩ := mem_spansFrom hs'
    obtain ⟨payload, hok, hlen⟩ := hms m hm
    rw [hstream, htotal, hok] at hpayload
    rw [← Except.ok.inj hpayload, hlen]
    exact (x.graphs.applicable.materializable m hm).total_lt
  have hslice : sliceAt x.content offset length = sliceAt (payloadOf x.source x.graph s)
      (s.logicalOffset + (offset - s.destination.offset)) length := by
    refine sliceAt_eq fun j hj => ?_
    rw [content_span hms hs ⟨by omega, by unfold Span.stop; omega⟩]
    congr 1
    omega
  rw [readMaterializedLogical, checkedSub_of_le hoffset, orErr_some, ok_bind,
    checkedAdd_of_lt (by omega), orErr_some, ok_bind, hpayload, ok_bind, checkedAdd_of_lt (by omega),
    orErr_some, ok_bind, ensure_of (show _ ≤ _ by omega), ok_bind, hslice]
  rfl

/-- A window that no span covers. -/
theorem readRelocated_eq (hin : offset + length ≤ x.source.len)
    (hmax : length ≤ x.source.maxReadBytes)
    (hsame : (∀ m ∈ x.relocations, offset ∈ m.destination →
        ¬ offset + length ≤ m.destination.stop) →
      ∀ j < length, x.content[offset + j]? = x.source.content[offset + j]?) :
    x.view.readRelocated offset length (offset + length) =
      .ok (sliceAt x.content offset length) := by
  have hord := x.authorized.relocations_ordered
  have hlt : x.source.len < wordBound := x.source.length_lt
  have hdirect : (∀ m ∈ x.relocations, offset ∈ m.destination →
      ¬ offset + length ≤ m.destination.stop) →
        x.source.reader.readExactAt offset length = .ok (sliceAt x.content offset length) :=
    fun h => read_same hmax hin (hsame h)
  have hlast : ∀ m ∈ x.relocations, offset ∈ m.destination →
      lastStarting (fun r : Relocation => r.destination.offset) offset x.relocations = some m :=
    fun m hm hmem => lastStarting_of_mem hord hm hmem
  unfold RelocatedSourceView.readRelocated
  split
  · next m hfound =>
    obtain ⟨hm, hoffset⟩ := lastStarting_some hfound
    obtain ⟨hlen, ⟨-, hsource⟩, -, hdest⟩ := x.authorized.relocation m hm
    have hsource' : m.source.offset + m.source.length ≤ x.source.len := hsource
    have hdest' : m.destination.offset + m.destination.length ≤ x.source.len := hdest
    rw [checkedAdd_of_lt (by omega), orErr_some, ok_bind]
    split_ifs with hstop
    · rw [checkedAdd_of_lt (by omega), orErr_some, ok_bind]
      refine read_same hmax (by omega) fun j hj => ?_
      rw [content_relocation hm ⟨by omega, by unfold Span.stop; omega⟩]
      congr 1
      omega
    · refine hdirect fun m' hm' hmem hle => hstop ?_
      obtain rfl : m = m' := Option.some.inj (hfound.symm.trans (hlast m' hm' hmem))
      exact hle
  · next hnone =>
    refine hdirect fun m' hm' hmem => ?_
    have hsome := hnone.symm.trans (hlast m' hm' hmem)
    cases hsome

/-- **The view.** Inside a physical extent of the target graph the view reads the bytes of the
candidate. -/
theorem view_readExactAt (hms : x.AllRebuilt) {e : Extent} {r : ByteRange}
    (he : e ∈ x.target.extents.extents) (hr : e.physical? = some r) (hle : r.stop ≤ x.source.len)
    (hmax : length ≤ x.source.maxReadBytes) (hoffset : r.offset ≤ offset)
    (hstop : offset + length ≤ r.stop) :
    x.view.readExactAt offset length = .ok (sliceAt x.content offset length) := by
  have hlt : x.source.len < wordBound := x.source.length_lt
  cases hcover : coveringMaterialization x.spans offset (offset + length) with
  | some s =>
    obtain ⟨hs, hoffset', hstop'⟩ := coveringMaterialization_some hcover
    rw [@RelocatedSourceView.readExactAt_of_covered x.view offset length x.graph s (by omega) rfl
      hcover]
    show (readMaterializedLogical x.source x.graph s offset length).mapError _ = _
    rw [readMaterialized hms hs hoffset' hstop']
    rfl
  | none =>
    rw [@RelocatedSourceView.readExactAt_of_uncovered x.view offset length (by omega) hcover]
    refine readRelocated_eq (by omega) hmax fun hno j hj => ?_
    have hi : offset + j ∈ r := ⟨by omega, by omega⟩
    have hstart : offset ∈ r := ⟨hoffset, by omega⟩
    refine content_of_no_destination he hr (fun s hs heq => ?_) (fun m hm heq => ?_) hi
    · have hsome := coveringMaterialization_of_mem x.authorized.spans_ordered hs
        (show offset ∈ s.destination from heq ▸ hstart)
        (show offset + length ≤ s.destination.stop from heq ▸ hstop) (heq ▸ by omega)
      rw [hcover] at hsome
      cases hsome
    · exact hno m hm (heq ▸ hstart) (heq ▸ hstop)

end Window

end CopyExport

end Export

end StarConverter
