import StarConverter.Export.View

/-!
# What an export may move

Before anything is written the exporter checks the movements of a sealed plan against both graphs, the
image and the forward writes, and sorts them by destination. `Authorized` collects what the later passes
use of it: every range lies inside the image, and all destinations keep apart, from each other and from
the writes.
-/

namespace StarConverter

open Base Geometry Conversion

namespace Export

/-! ## Relocations -/

section Code

variable (source : SourceImage) (authority : SealedRelocationPlan)

/-- The checks of one relocation. -/
def authorizeRelocation (relocation : Relocation) : Except CandidateExportError Unit := do
  ensure (relocation.source.length ≠ 0 ∧
      relocation.source.length = relocation.destination.length)
    (.relocationShape "source and destination lengths must be equal and nonzero")
  let sourceEnd ← orErr (checkedAdd relocation.source.offset relocation.source.length)
    (.relocationShape "source range overflows")
  let destinationEnd ← orErr
    (checkedAdd relocation.destination.offset relocation.destination.length)
    (.relocationShape "destination range overflows")
  ensure (sourceEnd ≤ source.len ∧ destinationEnd ≤ source.len)
    (.relocationShape "range is outside the image")
  ensure (¬ (relocation.source.offset < destinationEnd ∧ relocation.destination.offset < sourceEnd))
    (.relocationShape "source and destination overlap")
  ensure (∃ extent ∈ authority.sourceGraph.extents.extents, extent.kind = .fileData ∧
      extent.stream = relocation.stream ∧ extent.logicalOffset = relocation.logicalOffset ∧
      extent.length = relocation.source.length ∧
      extent.placement = .physical relocation.source.offset)
    (.relocationShape "source graph does not authorize a relocation read")
  ensure (∃ extent ∈ authority.targetGraph.extents.extents, extent.stream = relocation.stream ∧
      extent.logicalOffset = relocation.logicalOffset ∧
      extent.length = relocation.destination.length ∧
      extent.placement = .physical relocation.destination.offset)
    (.relocationShape "target graph does not commit a relocation destination")

def authorizeRelocations : ℕ → List Relocation → Except CandidateExportError ℕ
  | relocatedBytes, [] => pure relocatedBytes
  | relocatedBytes, relocation :: rest => do
    authorizeRelocation source authority relocation
    let relocatedBytes ← orErr (checkedAdd relocatedBytes relocation.source.length)
      (.arithmeticOverflow "relocation byte total")
    authorizeRelocations relocatedBytes rest

/-- No forward write touches the destination. -/
def checkWritesApart (reason : String) (writes : List ReservedWrite) (destination : ByteRange) :
    Except CandidateExportError Unit :=
  checkAll (fun write => do
    let writeEnd ← orErr (checkedAdd write.write.offset write.write.bytes.length)
      (CandidateExportError.arithmeticOverflow "candidate write end")
    ensure (¬ (destination.offset < writeEnd ∧ write.write.offset < destination.stop))
      (.relocationShape reason)) writes

/-- `windows(2)` over ranges sorted by offset. -/
def checkRangesApart (reason : String) (ranges : List ByteRange) : Except CandidateExportError Unit :=
  checkPairs (fun first second => ensure
    ((checkedAdd first.offset first.length).any (fun stop => decide (stop ≤ second.offset)) = true)
    (CandidateExportError.relocationShape reason)) ranges

/-- The number of relocations, their bytes, and the relocations sorted by destination. -/
def validateRelocations (writes : OpaqueWriteSets) (limits : CandidateExportLimits) :
    Except CandidateExportError (ℕ × ℕ × List Relocation) := do
  let layout := authority.layout
  ensure (layout.relocations.length ≤ limits.maxWrites)
    (.writeLimitExceeded layout.relocations.length limits.maxWrites)
  let relocatedBytes ← authorizeRelocations source authority 0 layout.relocations
  ensure (relocatedBytes = layout.relocatedBytes)
    (.relocationShape "relocated byte total disagrees with the layout")
  checkPairs (fun first second => ensure (first.stop ≤ second.offset)
    (CandidateExportError.relocationShape "source ranges overlap"))
    (sortByKey (fun range : ByteRange => toLex (range.offset, range.stop))
      (layout.relocations.map Relocation.source))
  let relocations := sortByKey (fun relocation => relocation.destination.offset) layout.relocations
  checkRangesApart "destination ranges overlap" (relocations.map Relocation.destination)
  checkAll (fun relocation => checkWritesApart "destination overlaps candidate metadata"
    (forwardWrites writes) relocation.destination) relocations
  pure (relocations.length, relocatedBytes, relocations)

/-! ## Materializations -/

/-- The bytes of the destinations of a materialization. -/
def materializationLength : ℕ → List ByteRange → Except CandidateExportError ℕ
  | logicalOffset, [] => pure logicalOffset
  | logicalOffset, destination :: rest => do
    ensure (destination.length ≠ 0)
      (.relocationShape "materialization destination span length must be nonzero")
    let destinationEnd ← orErr (checkedAdd destination.offset destination.length)
      (.relocationShape "materialization destination overflows")
    ensure (destinationEnd ≤ source.len)
      (.relocationShape "materialization destination is outside the image")
    let logicalOffset ← orErr (checkedAdd logicalOffset destination.length)
      (.arithmeticOverflow "materialization logical coverage")
    materializationLength logicalOffset rest

/-- The spans of a materialization, each committed by the target graph. -/
def commitSpans (stream : StreamId) (destinationLength : ℕ) :
    ℕ → List ByteRange → Except CandidateExportError (List MaterializationSpan)
  | _, [] => pure []
  | logicalOffset, destination :: rest => do
    ensure (∃ extent ∈ authority.targetGraph.extents.extents, extent.kind = .fileData ∧
        extent.stream = stream ∧ extent.logicalOffset = logicalOffset ∧
        extent.length = destination.length ∧ extent.placement = .physical destination.offset)
      (.relocationShape "target graph does not commit a materialization destination span")
    let next ← orErr (checkedAdd logicalOffset destination.length)
      (.arithmeticOverflow "materialization logical offset")
    let more ← commitSpans stream destinationLength next rest
    pure (⟨stream, logicalOffset, destination, destinationLength⟩ :: more)

/-- The spans of one materialization and their bytes. -/
def authorizeMaterialization (materialization : Materialization) :
    Except CandidateExportError (List MaterializationSpan × ℕ) := do
  ensure (materialization.destinations ≠ [])
    (.relocationShape "materialization must contain at least one destination span")
  let found ← orErr (findStream authority.sourceGraph.objects materialization.stream)
    (.relocationShape "source graph does not authorize a materialization read")
  let destinationLength ← materializationLength source 0 materialization.destinations
  ensure (found.2.logicalBytes ≤ destinationLength)
    (.relocationShape "materialization destination is smaller than logical stream bytes")
  let spans ← commitSpans authority materialization.stream destinationLength 0
    materialization.destinations
  pure (spans, destinationLength)

def authorizeMaterializations :
    ℕ → List Materialization → Except CandidateExportError (List MaterializationSpan × ℕ)
  | materializedBytes, [] => pure ([], materializedBytes)
  | materializedBytes, materialization :: rest => do
    let (spans, destinationLength) ← authorizeMaterialization source authority materialization
    let materializedBytes ← orErr (checkedAdd materializedBytes destinationLength)
      (.arithmeticOverflow "materialization byte total")
    let (more, materializedBytes) ← authorizeMaterializations materializedBytes rest
    pure (spans ++ more, materializedBytes)

/-- No relocation goes where a span goes. -/
def checkRelocationsApart (destination : ByteRange) : Except CandidateExportError Unit :=
  checkAll (fun relocation => ensure
    (¬ (destination.offset < relocation.destination.stop ∧
      relocation.destination.offset < destination.stop))
    (CandidateExportError.relocationShape "materialization destination overlaps a relocation"))
    authority.layout.relocations

/-- The number of spans, their bytes, the materializations, and the spans sorted by destination. -/
def validateMaterializations (writes : OpaqueWriteSets) (limits : CandidateExportLimits) :
    Except CandidateExportError (ℕ × ℕ × List Materialization × List MaterializationSpan) := do
  let materializations := authority.layout.materializations
  ensure (materializations.length ≤ limits.maxWrites)
    (.writeLimitExceeded materializations.length limits.maxWrites)
  let (spans, materializedBytes) ← authorizeMaterializations source authority 0 materializations
  ensure (materializedBytes = authority.layout.materializedBytes)
    (.relocationShape "materialized byte total disagrees with the layout")
  ensure (spans.length ≤ limits.maxWrites) (.writeLimitExceeded spans.length limits.maxWrites)
  let spans := sortByKey (fun item => item.destination.offset) spans
  checkRangesApart "materialization destinations overlap"
    (spans.map MaterializationSpan.destination)
  checkAll (fun item => do
    checkRelocationsApart authority item.destination
    checkWritesApart "materialization destination overlaps candidate metadata"
      (forwardWrites writes) item.destination) spans
  pure (spans.length, materializedBytes, materializations, spans)

end Code

/-! ## What the checks say -/

theorem ordered_of_checkRangesApart {reason : String} {ranges : List ByteRange} {u : Unit}
    (h : checkRangesApart reason ranges = .ok u) : Ordered ranges := by
  rw [checkRangesApart, checkPairs_ok_iff] at h
  refine List.isChain_iff_pairwise.1 (h.imp fun a b hab => ?_)
  rw [ensure_ok_iff, Option.any_eq_true] at hab
  obtain ⟨stop, hstop, hle⟩ := hab
  rw [checkedAdd_eq_some] at hstop
  obtain ⟨-, rfl⟩ := hstop
  have hle := of_decide_eq_true hle
  exact hle

theorem apart_of_checkWritesApart {reason : String} {writes : OpaqueWriteSets}
    {destination : ByteRange} {u : Unit}
    (h : checkWritesApart reason (forwardWrites writes) destination = .ok u) :
    ∀ w ∈ finalWrites writes, destination.Disjoint w.span := by
  rw [checkWritesApart, checkAll_ok_iff] at h
  intro w hw
  obtain ⟨write, hwrite, rfl⟩ := List.mem_map.1 hw
  have hone := h write hwrite
  simp only [bind_ok_iff, orErr_ok_iff, checkedAdd_eq_some, ensure_ok_iff] at hone
  obtain ⟨_, ⟨-, rfl⟩, hno⟩ := hone
  exact Span.disjoint_of_not_overlaps hno

section Facts

variable {source : SourceImage} {authority : SealedRelocationPlan}

/-- A range of positive length inside the image. -/
def Placeable (source : SourceImage) (range : ByteRange) : Prop :=
  0 < range.length ∧ range.stop ≤ source.len

/-- An extent of the target graph holds this range at this place of the stream. -/
def Commits (authority : SealedRelocationPlan) (stream : StreamId) (logicalOffset : ℕ)
    (range : ByteRange) : Prop :=
  ∃ extent ∈ authority.targetGraph.extents.extents, extent.stream = stream ∧
    extent.logicalOffset = logicalOffset ∧ extent.physical? = some range

theorem commits_of_placement {stream : StreamId} {logicalOffset : ℕ} {range : ByteRange}
    {extent : Extent} (he : extent ∈ authority.targetGraph.extents.extents)
    (hstream : extent.stream = stream) (hoffset : extent.logicalOffset = logicalOffset)
    (hlength : extent.length = range.length) (hplace : extent.placement = .physical range.offset) :
    Commits authority stream logicalOffset range := by
  refine ⟨extent, he, hstream, hoffset, ?_⟩
  rw [Extent.physical?, hplace]
  dsimp only
  rw [hlength]

theorem authorizeRelocation_ok {relocation : Relocation} {u : Unit}
    (h : authorizeRelocation source authority relocation = .ok u) :
    (relocation.source.length = relocation.destination.length ∧
      Placeable source relocation.source ∧ Placeable source relocation.destination) ∧
        Commits authority relocation.stream relocation.logicalOffset relocation.destination := by
  simp only [authorizeRelocation, bind_ok_iff, exists_const, ensure_ok_iff, orErr_ok_iff,
    checkedAdd_eq_some] at h
  obtain ⟨⟨h0, hlen⟩, _, ⟨-, rfl⟩, _, ⟨-, rfl⟩, ⟨hsource, hdestination⟩, -, -, extent, he, hstream,
    hoffset, hlength, hplace⟩ := h
  exact ⟨⟨hlen, ⟨by omega, hsource⟩, by omega, hdestination⟩,
    commits_of_placement he hstream hoffset hlength hplace⟩

theorem authorizeRelocations_ok {total out : ℕ} {relocations : List Relocation}
    (h : authorizeRelocations source authority total relocations = .ok out) :
    ∀ r ∈ relocations, (r.source.length = r.destination.length ∧ Placeable source r.source ∧
      Placeable source r.destination) ∧ Commits authority r.stream r.logicalOffset r.destination := by
  induction relocations generalizing total with
  | nil => simp
  | cons r rest ih =>
    simp only [authorizeRelocations, bind_ok_iff] at h
    obtain ⟨_, hr, _, -, h⟩ := h
    exact List.forall_mem_cons.2 ⟨authorizeRelocation_ok hr, ih h⟩

/-- The spans of a stream, from one place of it on. -/
def spansFrom (stream : StreamId) (destinationLength : ℕ) :
    ℕ → List ByteRange → List MaterializationSpan
  | _, [] => []
  | logicalOffset, destination :: rest =>
    ⟨stream, logicalOffset, destination, destinationLength⟩ ::
      spansFrom stream destinationLength (logicalOffset + destination.length) rest

/-- The spans of all materializations, in the order of the plan. -/
def materializationSpans (materializations : List Materialization) : List MaterializationSpan :=
  materializations.flatMap fun m => spansFrom m.stream (spanTotal m.destinations) 0 m.destinations

theorem materializationLength_ok {start out : ℕ} {destinations : List ByteRange}
    (h : materializationLength source start destinations = .ok out) :
    out = start + spanTotal destinations ∧ ∀ d ∈ destinations, Placeable source d := by
  induction destinations generalizing start with
  | nil =>
    obtain rfl := Except.ok.inj h
    exact ⟨rfl, by simp⟩
  | cons d rest ih =>
    simp only [materializationLength, bind_ok_iff, exists_const, ensure_ok_iff, orErr_ok_iff,
      checkedAdd_eq_some] at h
    obtain ⟨h0, _, ⟨-, rfl⟩, hle, _, ⟨-, rfl⟩, h⟩ := h
    obtain ⟨rfl, hrest⟩ := ih h
    have hcons : spanTotal (d :: rest) = d.length + spanTotal rest := by simp [spanTotal]
    exact ⟨by omega, List.forall_mem_cons.2 ⟨⟨Nat.pos_of_ne_zero h0, hle⟩, hrest⟩⟩

theorem commitSpans_ok {stream : StreamId} {destinationLength start : ℕ}
    {destinations : List ByteRange} {out : List MaterializationSpan}
    (h : commitSpans authority stream destinationLength start destinations = .ok out) :
    out = spansFrom stream destinationLength start destinations ∧
      ∀ s ∈ out, Commits authority s.stream s.logicalOffset s.destination := by
  induction destinations generalizing start out with
  | nil =>
    obtain rfl := Except.ok.inj h
    exact ⟨rfl, by simp⟩
  | cons d rest ih =>
    simp only [commitSpans, bind_ok_iff, exists_const, ensure_ok_iff, orErr_ok_iff,
      checkedAdd_eq_some, pure_eq_ok, Except.ok.injEq] at h
    obtain ⟨⟨extent, he, -, hstream, hoffset, hlength, hplace⟩, _, ⟨-, rfl⟩, more, hmore, rfl⟩ := h
    obtain ⟨rfl, hcommits⟩ := ih hmore
    exact ⟨rfl, List.forall_mem_cons.2 ⟨commits_of_placement he hstream hoffset hlength hplace,
      hcommits⟩⟩

theorem authorizeMaterializations_ok {total : ℕ} {materializations : List Materialization}
    {out : List MaterializationSpan × ℕ}
    (h : authorizeMaterializations source authority total materializations = .ok out) :
    out.1 = materializationSpans materializations ∧
      (∀ m ∈ materializations, ∀ d ∈ m.destinations, Placeable source d) ∧
        ∀ s ∈ out.1, Commits authority s.stream s.logicalOffset s.destination := by
  induction materializations generalizing total out with
  | nil =>
    obtain rfl := Except.ok.inj h
    exact ⟨rfl, by simp, by simp⟩
  | cons m rest ih =>
    simp only [authorizeMaterializations, authorizeMaterialization, bind_ok_iff, exists_const,
      ensure_ok_iff, pure_eq_ok, Except.ok.injEq] at h
    obtain ⟨_, ⟨-, found, -, destinationLength, hlength, -, spans, hspans, rfl⟩, _, -, more, hmore,
      rfl⟩ := h
    obtain ⟨hsum, hplace⟩ := materializationLength_ok hlength
    obtain ⟨hmore, hrest, hlater⟩ := ih hmore
    rw [Nat.zero_add] at hsum
    subst hsum
    obtain ⟨hlist, hcommits⟩ := commitSpans_ok hspans
    refine ⟨?_, List.forall_mem_cons.2 ⟨hplace, hrest⟩, fun s hs => ?_⟩
    · rw [hlist, hmore]
      rfl
    · rcases List.mem_append.1 hs with hs | hs
      · exact hcommits s hs
      · exact hlater s hs

end Facts

/-- What the two checks leave for the passes over the image. -/
structure Authorized (source : SourceImage) (authority : SealedRelocationPlan)
    (writes : OpaqueWriteSets) (relocations : List Relocation) (spans : List MaterializationSpan) :
    Prop where
  relocations_perm : relocations.Perm authority.layout.relocations
  spans_perm : spans.Perm (materializationSpans authority.layout.materializations)
  relocation : ∀ r ∈ relocations, r.source.length = r.destination.length ∧
    Placeable source r.source ∧ Placeable source r.destination
  span : ∀ s ∈ spans, Placeable source s.destination
  relocation_committed : ∀ r ∈ relocations,
    Commits authority r.stream r.logicalOffset r.destination
  span_committed : ∀ s ∈ spans, Commits authority s.stream s.logicalOffset s.destination
  relocations_ordered : Ordered (relocations.map Relocation.destination)
  spans_ordered : Ordered (spans.map MaterializationSpan.destination)
  apart : ∀ s ∈ spans, ∀ r ∈ relocations, s.destination.Disjoint r.destination
  relocation_apart : ∀ r ∈ relocations, ∀ w ∈ finalWrites writes, r.destination.Disjoint w.span
  span_apart : ∀ s ∈ spans, ∀ w ∈ finalWrites writes, s.destination.Disjoint w.span

theorem mem_spansFrom {stream : StreamId} {destinationLength start : ℕ}
    {destinations : List ByteRange} {s : MaterializationSpan}
    (h : s ∈ spansFrom stream destinationLength start destinations) :
    s.destination ∈ destinations ∧ s.stream = stream ∧
      s.streamDestinationLength = destinationLength ∧
        s.logicalOffset + s.destination.length ≤ start + spanTotal destinations := by
  induction destinations generalizing start with
  | nil => simp [spansFrom] at h
  | cons d rest ih =>
    have hcons : spanTotal (d :: rest) = d.length + spanTotal rest := by simp [spanTotal]
    rcases List.mem_cons.1 h with rfl | h
    · exact ⟨List.mem_cons_self, rfl, rfl, by dsimp only; omega⟩
    · obtain ⟨hmem, hstream, hlength, hle⟩ := ih h
      exact ⟨List.mem_cons_of_mem _ hmem, hstream, hlength, by omega⟩

/-- **Authority.** -/
theorem authorized_of_ok {source : SourceImage} {authority : SealedRelocationPlan}
    {writes : OpaqueWriteSets} {limits : CandidateExportLimits}
    {moved : ℕ × ℕ × List Relocation} {rebuilt : ℕ × ℕ × List Materialization × List MaterializationSpan}
    (hmoved : validateRelocations source authority writes limits = .ok moved)
    (hrebuilt : validateMaterializations source authority writes limits = .ok rebuilt) :
    Authorized source authority writes moved.2.2 rebuilt.2.2.2 ∧
      moved.2.1 = authority.layout.relocatedBytes ∧
        rebuilt.2.2.1 = authority.layout.materializations := by
  simp only [validateRelocations, bind_ok_iff, exists_const, ensure_ok_iff, checkAll_ok_iff, pure_eq_ok,
    Except.ok.injEq] at hmoved
  obtain ⟨-, _, hauth, hbytes, _, -, _, hranges, hwrites, rfl⟩ := hmoved
  simp only [validateMaterializations, bind_ok_iff, exists_const, ensure_ok_iff, checkAll_ok_iff,
    pure_eq_ok, Except.ok.injEq] at hrebuilt
  obtain ⟨-, _, hmat, -, -, _, hspans, happart, rfl⟩ := hrebuilt
  obtain ⟨hlist, hplace, hcommits⟩ := authorizeMaterializations_ok hmat
  have hr := authorizeRelocations_ok hauth
  refine ⟨⟨sortByKey_perm _ _, hlist ▸ sortByKey_perm _ _, fun r h => (hr r (mem_sortByKey.1 h)).1,
    fun s h => ?_, fun r h => (hr r (mem_sortByKey.1 h)).2,
    fun s h => hcommits s (mem_sortByKey.1 h), ordered_of_checkRangesApart hranges, ordered_of_checkRangesApart hspans,
    fun s h r h' => ?_, fun r h => apart_of_checkWritesApart (hwrites r h),
    fun s h => apart_of_checkWritesApart (happart s h).choose_spec.2⟩, hbytes, rfl⟩
  · rw [mem_sortByKey, hlist] at h
    obtain ⟨m, hm, h⟩ := List.mem_flatMap.1 h
    exact hplace m hm _ (mem_spansFrom h).1
  · obtain ⟨_, hone, -⟩ := happart s h
    rw [checkRelocationsApart, checkAll_ok_iff] at hone
    have hno := hone r (mem_sortByKey.1 h')
    rw [ensure_ok_iff] at hno
    exact Span.disjoint_of_not_overlaps hno

end Export

end StarConverter
