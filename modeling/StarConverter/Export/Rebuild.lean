import StarConverter.Export.Preview
import StarConverter.Geometry.Seal
import StarConverter.Ntfs.CompressedStream
import StarConverter.Verify.Content

/-!
# Rebuilding a stream for its destinations

A materialized stream is rebuilt in memory from the source image: resident bytes, the file data of its
extents, or the units of a compressed stream, each up to the initialized size, with zeros behind.
`logicalContent` says what a stream holds; `reconstructStreamDestination_ok_iff` that a rebuilt stream
holds just that, and that it is rebuilt if and only if its parts can be read, each in one piece.
-/

namespace StarConverter

open Base Geometry

namespace Export

/-- A source image, with the most bytes it returns at once. Its length is a machine word. -/
structure SourceImage where
  content : Bytes
  maxReadBytes : ℕ
  maxReadBytes_pos : 0 < maxReadBytes
  length_lt : content.length < wordBound

namespace SourceImage

def len (source : SourceImage) : ℕ := source.content.length

def reader (source : SourceImage) : BoundedImageReader :=
  imageFile source.content source.maxReadBytes source.maxReadBytes_pos

/-- `source.read_exact_at(offset, length)?`. -/
def readExactAt (source : SourceImage) (offset length : ℕ) : Except CandidateExportError Bytes :=
  (source.reader.readExactAt offset length).mapError .image

/-- A range that one read returns. -/
def Fits (source : SourceImage) (offset length : ℕ) : Prop :=
  offset + length < wordBound ∧ length ≤ source.maxReadBytes ∧ offset + length ≤ source.len

instance (source : SourceImage) (offset length : ℕ) : Decidable (source.Fits offset length) := by
  unfold Fits
  infer_instance

theorem readExactAt_ok_iff {source : SourceImage} {offset length : ℕ} {bytes : Bytes} :
    source.readExactAt offset length = .ok bytes ↔
      source.Fits offset length ∧ bytes = sliceAt source.content offset length := by
  rw [readExactAt, mapError_ok_iff]
  exact Preimage.imageFileRead_ok_iff.trans ⟨fun h => ⟨⟨h.1, h.2.1, h.2.2.1⟩, h.2.2.2⟩,
    fun h => ⟨h.1.1, h.1.2.1, h.1.2.2, h.2⟩⟩

end SourceImage

/-! ## Rebuilding -/

/-- The file data of a stream, extent by extent. -/
def copyExtents (source : SourceImage) (initializedBytes : ℕ) :
    Bytes → List Extent → Except CandidateExportError Bytes
  | destination, [] => pure destination
  | destination, extent :: rest =>
    if initializedBytes ≤ extent.logicalOffset then copyExtents source initializedBytes destination rest
    else
      let take := min extent.length (initializedBytes - extent.logicalOffset)
      if destination.length ≤ extent.logicalOffset then
        copyExtents source initializedBytes destination rest
      else
        let copy := min take (destination.length - extent.logicalOffset)
        match extent.placement with
        | .physical byteOffset => do
          let bytes ← source.readExactAt byteOffset copy
          copyExtents source initializedBytes (overwrite destination extent.logicalOffset bytes) rest
        | .sparse => copyExtents source initializedBytes destination rest

/-- The file data of a stream. -/
def fileData (graph : ExtentGraph) (stream : StreamId) : List Extent :=
  graph.extents.filter fun extent => extent.stream = stream ∧ extent.kind = .fileData

/-- The bytes of a stream as they go to its destinations. -/
def reconstructStreamDestination (source : SourceImage) (graph : ObjectGraph)
    (materializedStream : StreamId) (destinationLength : ℕ) : Except CandidateExportError Bytes := do
  let found ← orErr (findStream graph.objects materializedStream)
    (.relocationShape "source graph does not authorize a materialization read")
  let stream := found.2
  let destination := List.replicate destinationLength (0 : UInt8)
  let initialized := min stream.initializedBytes stream.logicalBytes
  match stream.storage with
  | .resident bytes =>
    let copy := min (min initialized bytes.length) destinationLength
    pure (overwrite destination 0 (bytes.take copy))
  | .extents =>
    if stream.flags.compressionBlockBytes ≠ 0 then
      Lznt1.materializeNtfsCompressedStream .ntfsCompression source.readExactAt graph.extents.extents
        stream.id stream.flags.compressionBlockBytes initialized destinationLength
    else copyExtents source stream.initializedBytes destination (fileData graph.extents stream.id)

/-! ## What a stream holds -/

/-- Whether the units of a stream go through the decoder. -/
def Compressed (stream : ObjectStream) : Prop :=
  stream.storage = .extents ∧ stream.flags.compressionBlockBytes ≠ 0

instance : DecidablePred Compressed := fun stream => by
  unfold Compressed
  infer_instance

/-- The byte of a stream at a place up to its initialized size. What a unit holds is for the decoder to
say. -/
def logicalByte (content : Bytes) (extents : ExtentGraph) (stream : ObjectStream) (i : ℕ) :
    Option UInt8 :=
  if Compressed stream then
    (Lznt1.unitTextAt content extents.extents stream.id stream.flags.compressionBlockBytes
      (i / stream.flags.compressionBlockBytes)).map fun text =>
        text.getD (i % stream.flags.compressionBlockBytes) 0
  else some (Verify.storedByte content extents stream i)

/-- The logical content of a stream: what is stored up to the initialized size, zeros up to the logical
size. A stream with a unit that cannot be decoded has none. -/
def logicalContent (content : Bytes) (extents : ExtentGraph) (stream : ObjectStream) : Option Bytes :=
  (List.range stream.logicalBytes).mapM fun i =>
    if i < stream.initializedBytes then logicalByte content extents stream i else some 0

/-- A stream that can be rebuilt: each piece of it is read at once, so it has to fit one read. -/
def Rebuildable (source : SourceImage) (extents : ExtentGraph) (stream : ObjectStream) : Prop :=
  match stream.storage with
  | .resident _ => True
  | .extents =>
    if stream.flags.compressionBlockBytes ≠ 0 then
      stream.flags.compressionBlockBytes ≤ Lznt1.maxCompressionBlock ∧
        ∀ k, k * stream.flags.compressionBlockBytes < stream.initializedBytes →
          Lznt1.UnitFits source.Fits source.content extents.extents stream.id
            stream.flags.compressionBlockBytes k
    else ∀ extent ∈ fileData extents stream.id, extent.logicalOffset < stream.initializedBytes →
      ∀ range ∈ extent.physical?, source.Fits range.offset
        (min range.length (stream.initializedBytes - extent.logicalOffset))

/-! ## What is rebuilt -/

/-- The patch a file extent leaves in the rebuilt stream. -/
def extentPatch (content : Bytes) (initializedBytes : ℕ) (extent : Extent) : Option (Patch UInt8) :=
  if extent.logicalOffset < initializedBytes then
    extent.physical?.map fun range => ⟨extent.logicalOffset, sliceAt content range.offset
      (min range.length (initializedBytes - extent.logicalOffset))⟩
  else none

section Rebuild

variable {source : SourceImage}

theorem copyExtents_ok_iff {initializedBytes : ℕ} {destination out : Bytes} {extents : List Extent}
    (hle : initializedBytes ≤ destination.length) :
    copyExtents source initializedBytes destination extents = .ok out ↔
      (∀ extent ∈ extents, extent.logicalOffset < initializedBytes → ∀ range ∈ extent.physical?,
        source.Fits range.offset
          (min range.length (initializedBytes - extent.logicalOffset))) ∧
        out = applyAll (extents.filterMap (extentPatch source.content initializedBytes)) destination := by
  induction extents generalizing destination with
  | nil => simp [copyExtents, eq_comm]
  | cons extent rest ih =>
    rw [copyExtents, List.forall_mem_cons, List.filterMap_cons]
    by_cases hstart : initializedBytes ≤ extent.logicalOffset
    · have hnone : extentPatch source.content initializedBytes extent = none := if_neg (by omega)
      rw [if_pos hstart, hnone, ih hle]
      exact and_congr_left fun _ => ⟨fun h => ⟨fun hlt => absurd hstart (by omega), h⟩, And.right⟩
    · have hlt : extent.logicalOffset < initializedBytes := by omega
      rw [if_neg hstart, extentPatch, if_pos hlt]
      dsimp only
      rw [if_neg (by omega)]
      cases hp : extent.placement with
      | sparse =>
        have hnone : extent.physical? = none := by simp only [Extent.physical?, hp]
        simp only [hnone, Option.map_none, ih hle]
        exact and_congr_left fun _ => ⟨fun h => ⟨fun _ r hr => by simp at hr, h⟩, And.right⟩
      | physical byteOffset =>
        have hsome : extent.physical? = some ⟨byteOffset, extent.length⟩ := by
          simp only [Extent.physical?, hp]
        have hcopy : min (min extent.length (initializedBytes - extent.logicalOffset))
            (destination.length - extent.logicalOffset) =
              min extent.length (initializedBytes - extent.logicalOffset) := by omega
        simp only [hsome, Option.map_some, hcopy, bind_ok_iff, SourceImage.readExactAt_ok_iff]
        constructor
        · rintro ⟨_, ⟨hfit, rfl⟩, h⟩
          obtain ⟨hrest, rfl⟩ := (ih (by rwa [length_overwrite])).1 h
          refine ⟨⟨fun _ r hr => ?_, hrest⟩, rfl⟩
          obtain rfl := Option.some.inj hr
          exact hfit
        · rintro ⟨⟨hfit, hrest⟩, rfl⟩
          exact ⟨_, ⟨hfit hlt _ rfl, rfl⟩, (ih (by rwa [length_overwrite])).2 ⟨hrest, rfl⟩⟩

/-- A rebuilt stream: its logical bytes up to the initialized size, and zeros behind. -/
structure Rebuilds (source : SourceImage) (extents : ExtentGraph) (stream : ObjectStream)
    (destinationLength : ℕ) (out : Bytes) : Prop where
  length : out.length = destinationLength
  byte : ∀ i, i < stream.initializedBytes →
    logicalByte source.content extents stream i = some (out.getD i 0)
  zero : ∀ i, stream.initializedBytes ≤ i → out.getD i 0 = 0

section Stream

variable {extents : ExtentGraph} {stream : ObjectStream} {destinationLength : ℕ}
  (hsizes : stream.initializedBytes ≤ stream.logicalBytes)
  (hle : stream.logicalBytes ≤ destinationLength)

include hsizes hle

theorem rebuilds_resident {bytes : Bytes} (hstorage : stream.storage = .resident bytes)
    (hlen : bytes.length = stream.logicalBytes) :
    Rebuilds source extents stream destinationLength
      (overwrite (List.replicate destinationLength 0) 0 (bytes.take
        (min (min (min stream.initializedBytes stream.logicalBytes) bytes.length)
          destinationLength))) := by
  have hcopy : min (min (min stream.initializedBytes stream.logicalBytes) bytes.length)
      destinationLength = stream.initializedBytes := by omega
  have htake : (bytes.take stream.initializedBytes).length = stream.initializedBytes := by
    rw [List.length_take]
    omega
  rw [hcopy]
  refine ⟨by simp, fun i hi => ?_, fun i hi => ?_⟩
  · have hplain : ¬ Compressed stream := fun h => by simp [h.1] at hstorage
    have hget : i < bytes.length := by omega
    rw [logicalByte, if_neg hplain, Verify.storedByte, hstorage]
    dsimp only
    rw [List.getD_eq_getElem?_getD, List.getD_eq_getElem?_getD,
      getElem?_overwrite_of_mem (Nat.zero_le _) (by omega) (by simp; omega), Nat.sub_zero,
      List.getElem?_take_of_lt hi]
  · rw [List.getD_eq_getElem?_getD, getElem?_overwrite_of_not_mem (by omega), List.getElem?_replicate]
    split_ifs <;> rfl

/-- The patches of disjoint extents give every place its stored byte. -/
theorem rebuilds_plain (hstorage : stream.storage = .extents)
    (hblock : stream.flags.compressionBlockBytes = 0)
    (hkinds : ∀ e ∈ extents.extents, e.stream = stream.id → e.kind = .fileData)
    (hfits : ∀ e ∈ fileData extents stream.id, e.logicalOffset < stream.initializedBytes →
      ∀ r ∈ e.physical?, source.Fits r.offset (min r.length (stream.initializedBytes - e.logicalOffset))) :
    Rebuilds source extents stream destinationLength
      (applyAll ((fileData extents stream.id).filterMap
        (extentPatch source.content stream.initializedBytes)) (List.replicate destinationLength 0)) := by
  have hall : ObjectGraph.streamExtents extents stream.id = fileData extents stream.id := by
    refine List.filter_congr fun e he => decide_eq_decide.2 ?_
    exact ⟨fun h => ⟨h, hkinds e he h⟩, And.left⟩
  have hpatch : ∀ p ∈ (fileData extents stream.id).filterMap
      (extentPatch source.content stream.initializedBytes), ∃ e ∈ fileData extents stream.id,
        ∃ byteOffset, e.placement = .physical byteOffset ∧
          e.logicalOffset < stream.initializedBytes ∧ p = ⟨e.logicalOffset, sliceAt source.content
            byteOffset (min e.length (stream.initializedBytes - e.logicalOffset))⟩ := by
    intro p hp
    obtain ⟨e, he, hpe⟩ := List.mem_filterMap.1 hp
    unfold extentPatch at hpe
    split_ifs at hpe with hlt
    obtain ⟨r, hr, rfl⟩ := Option.map_eq_some_iff.1 hpe
    cases hpl : e.placement with
    | sparse => simp [Extent.physical?, hpl] at hr
    | physical byteOffset =>
      simp only [Extent.physical?, hpl, Option.some.injEq] at hr
      subst hr
      exact ⟨e, he, byteOffset, hpl, hlt, rfl⟩
  have hcover : ∀ e ∈ fileData extents stream.id, ∀ e' ∈ fileData extents stream.id, ∀ i,
      e.logicalOffset ≤ i → i < e.logicalOffset + e.length → e'.logicalOffset ≤ i →
        i < e'.logicalOffset + e'.length → e = e' := by
    intro e he e' he' i h1 h2 h3 h4
    by_contra hne
    have hsymm : Std.Symm LogicallyDisjoint := ⟨fun x y h hs => (h hs.symm).symm⟩
    have hid : ∀ x ∈ fileData extents stream.id, x.stream = stream.id := fun x hx => by
      have := (List.mem_filter.1 hx).2
      simp only [decide_eq_true_eq] at this
      exact this.1
    exact extents.logical.forall (List.mem_of_mem_filter he) (List.mem_of_mem_filter he') hne
      ((hid e he).trans (hid e' he').symm) i ⟨h1, h2⟩ ⟨h3, h4⟩
  have hplain : ¬ Compressed stream := fun h => h.2 hblock
  refine ⟨by simp, fun i hi => ?_, fun i hi => ?_⟩
  · rw [logicalByte, if_neg hplain, Verify.storedByte, hstorage, hall]
    dsimp only
    refine congrArg some ?_
    have hlen : i < (List.replicate destinationLength (0 : UInt8)).length := by simp; omega
    have hzero : (List.replicate destinationLength (0 : UInt8))[i]? = some 0 := by
      rw [List.getElem?_replicate, if_pos (by omega)]
    rw [List.getD_eq_getElem?_getD]
    cases hfind : (fileData extents stream.id).find? fun e =>
        e.logicalOffset ≤ i ∧ i < e.logicalOffset + e.length with
    | none =>
      have hnone : (applyAll ((fileData extents stream.id).filterMap
          (extentPatch source.content stream.initializedBytes))
          (List.replicate destinationLength 0))[i]? = some 0 := by
        refine (getElem?_applyAll_of_not_mem fun hmem => ?_).trans hzero
        obtain ⟨p, hp, hi'⟩ := mem_touched.1 hmem
        obtain ⟨e, he, byteOffset, -, -, rfl⟩ := hpatch p hp
        have hno := List.find?_eq_none.1 hfind e he
        rw [Patch.mem_span, length_sliceAt] at hi'
        simp only [decide_eq_true_eq] at hno
        dsimp only at hi'
        omega
      rw [hnone, Option.getD_some]
    | some e =>
      have he := List.mem_of_find?_eq_some hfind
      have hin := List.find?_some hfind
      simp only [decide_eq_true_eq] at hin
      dsimp only
      have hbyte : (applyAll ((fileData extents stream.id).filterMap
          (extentPatch source.content stream.initializedBytes))
          (List.replicate destinationLength 0))[i]? =
            some (Verify.placedByte source.content e i) := by
        refine getElem?_applyAll hlen (fun p hp hi' => ?_) ?_
        · obtain ⟨e', he', byteOffset, hpl, hlt, rfl⟩ := hpatch p hp
          have hfit := hfits e' he' hlt ⟨byteOffset, e'.length⟩ (by simp [Extent.physical?, hpl])
          have hsize : (sliceAt source.content byteOffset
              (min e'.length (stream.initializedBytes - e'.logicalOffset))).length = _ :=
            length_sliceAt_of_le hfit.2.2
          rw [Patch.mem_span, hsize] at hi'
          dsimp only at hi'
          obtain rfl := hcover e he e' he' i hin.1 hin.2 hi'.1 (by omega)
          have hin' : byteOffset + (i - e.logicalOffset) < source.content.length := by
            have := hfit.2.2
            unfold SourceImage.len at this
            dsimp only at this
            omega
          show (sliceAt source.content byteOffset _)[i - e.logicalOffset]? = _
          rw [getElem?_sliceAt, if_pos (by omega), Verify.placedByte, hpl]
          dsimp only
          rw [List.getD_eq_getElem?_getD, List.getElem?_eq_getElem hin', Option.getD_some]
        · cases hpl : e.placement with
          | sparse =>
            refine Or.inr ?_
            rw [hzero, Verify.placedByte, hpl]
          | physical byteOffset =>
            have hpe : extentPatch source.content stream.initializedBytes e =
                some ⟨e.logicalOffset, sliceAt source.content byteOffset
                  (min e.length (stream.initializedBytes - e.logicalOffset))⟩ := by
              rw [extentPatch, if_pos (by omega)]
              simp only [Extent.physical?, hpl, Option.map_some]
            have hfit := hfits e he (by omega) ⟨byteOffset, e.length⟩ (by simp [Extent.physical?, hpl])
            have hsize : (sliceAt source.content byteOffset
                (min e.length (stream.initializedBytes - e.logicalOffset))).length = _ :=
              length_sliceAt_of_le hfit.2.2
            refine Or.inl (mem_touched.2 ⟨_, List.mem_filterMap.2 ⟨e, he, hpe⟩, ?_⟩)
            rw [Patch.mem_span, hsize]
            dsimp only
            omega
      rw [hbyte, Option.getD_some]
  · have hnone : ∀ x, (applyAll ((fileData extents stream.id).filterMap
        (extentPatch source.content stream.initializedBytes))
        (List.replicate destinationLength 0))[i]? = some x → x = 0 := by
      intro x hx
      rw [getElem?_applyAll_of_not_mem fun hmem => ?_, List.getElem?_replicate] at hx
      · split_ifs at hx
        exact (Option.some.inj hx).symm
      · obtain ⟨p, hp, hi'⟩ := mem_touched.1 hmem
        obtain ⟨e, he, byteOffset, -, hlt, rfl⟩ := hpatch p hp
        rw [Patch.mem_span, length_sliceAt] at hi'
        dsimp only at hi'
        omega
    rw [List.getD_eq_getElem?_getD]
    cases hget : (applyAll ((fileData extents stream.id).filterMap
        (extentPatch source.content stream.initializedBytes))
        (List.replicate destinationLength 0))[i]? with
    | none => rfl
    | some x => exact hnone x hget

theorem rebuilds_compressed (hcomp : Compressed stream)
    (hunits : ∀ k, k * stream.flags.compressionBlockBytes < stream.initializedBytes →
      Lznt1.UnitFits source.Fits source.content extents.extents stream.id
        stream.flags.compressionBlockBytes k) :
    Rebuilds source extents stream destinationLength
      (Lznt1.rebuilt source.content extents.extents stream.id stream.flags.compressionBlockBytes
        destinationLength stream.initializedBytes) := by
  refine ⟨Lznt1.length_rebuilt _ _ _ _ _ _, fun i hi => ?_, fun i hi => ?_⟩
  · have hunit := (hunits (i / stream.flags.compressionBlockBytes)
      (lt_of_le_of_lt (Nat.div_mul_le_self _ _) hi)).text
    obtain ⟨text, htext⟩ := Option.isSome_iff_exists.1 hunit
    rw [logicalByte, if_pos hcomp, htext, Option.map_some, List.getD_eq_getElem?_getD (l := Lznt1.rebuilt _ _ _ _ _ _),
      Lznt1.getElem?_rebuilt _ _ _ (by omega), Option.getD_some, if_pos hi, Lznt1.unitByte, htext,
      Option.getD_some]
  · rw [List.getD_eq_getElem?_getD]
    by_cases hlt : i < destinationLength
    · rw [Lznt1.getElem?_rebuilt _ _ _ hlt, Option.getD_some, if_neg (by omega)]
    · rw [List.getElem?_eq_none (by rw [Lznt1.length_rebuilt]; omega), Option.getD_none]

end Stream

theorem findStream_ok {objects : List ObjectRecord} {id : StreamId} {found : ObjectKind × ObjectStream}
    (h : findStream objects id = some found) :
    found.2 ∈ ObjectGraph.allStreams objects ∧ found.2.id = id := by
  obtain ⟨object, hobject, hfound⟩ := List.exists_of_findSome?_eq_some h
  obtain ⟨stream, hstream, rfl⟩ := Option.map_eq_some_iff.1 hfound
  exact ⟨List.mem_flatMap.2 ⟨object, hobject, List.mem_of_find?_eq_some hstream⟩,
    by simpa using List.find?_some hstream⟩

/-- Identities are distinct, so a stream is found by its own. -/
theorem findStream_of_mem {graph : ObjectGraph} {stream : ObjectStream}
    (hs : stream ∈ ObjectGraph.allStreams graph.objects) :
    ∃ kind, findStream graph.objects stream.id = some (kind, stream) := by
  obtain ⟨limits, hacc⟩ := graph.accepted
  obtain ⟨hvalid, -⟩ := ObjectGraph.streams_of_accepted hacc
  cases hfind : findStream graph.objects stream.id with
  | none =>
    obtain ⟨object, hobject, hmem⟩ := List.mem_flatMap.1 hs
    have hnone := List.findSome?_eq_none_iff.1 hfind object hobject
    rw [Option.map_eq_none_iff] at hnone
    simpa using List.find?_eq_none.1 hnone stream hmem
  | some found =>
    obtain ⟨hmem, hid⟩ := findStream_ok hfind
    exact ⟨found.1, congrArg some (Prod.ext rfl
      (List.inj_on_of_nodup_map hvalid.distinct hmem hs hid))⟩

/-- **Rebuilding a stream.** A stream of file data is rebuilt if and only if its pieces can be read and
decoded, and holds its logical bytes and zeros behind them. -/
theorem reconstructStreamDestination_ok_iff {graph : ObjectGraph} {stream : ObjectStream}
    {destinationLength : ℕ} (hs : stream ∈ ObjectGraph.allStreams graph.objects)
    (hkinds : ∀ e ∈ graph.extents.extents, e.stream = stream.id → e.kind = .fileData)
    (hle : stream.logicalBytes ≤ destinationLength) :
    (∀ out, reconstructStreamDestination source graph stream.id destinationLength = .ok out →
      Rebuildable source graph.extents stream ∧
        Rebuilds source graph.extents stream destinationLength out) ∧
    (Rebuildable source graph.extents stream →
      ∃ out, reconstructStreamDestination source graph stream.id destinationLength = .ok out) := by
  obtain ⟨limits, hacc⟩ := graph.accepted
  obtain ⟨hvalid, -⟩ := ObjectGraph.streams_of_accepted hacc
  have hv := hvalid.valid stream hs
  have hinit : min stream.initializedBytes stream.logicalBytes = stream.initializedBytes :=
    Nat.min_eq_left hv.sizes.1
  obtain ⟨kind, hfind⟩ := findStream_of_mem hs
  rw [reconstructStreamDestination, hfind, orErr_some, ok_bind]
  cases hstorage : stream.storage with
  | resident bytes =>
    have hst := hv.storage
    simp only [ObjectGraph.validateStorage, hstorage, bind_ok_iff, exists_const, ensure_ok_iff] at hst
    have hrebuilds : Rebuilds source graph.extents stream destinationLength _ :=
      rebuilds_resident hv.sizes.1 hle hstorage hst.1
    simp only [Rebuildable, hstorage, pure_eq_ok, Except.ok.injEq, true_and, forall_const,
      exists_eq']
    exact ⟨fun out hout => hout ▸ hrebuilds, trivial⟩
  | extents =>
    simp only [Rebuildable, hstorage]
    by_cases hblock : stream.flags.compressionBlockBytes = 0
    · simp only [hblock, ne_eq, not_true_eq_false, if_false]
      have hlen : stream.initializedBytes ≤ (List.replicate destinationLength (0 : UInt8)).length := by
        rw [List.length_replicate]
        omega
      have hcopy : ∀ out, copyExtents source stream.initializedBytes
          (List.replicate destinationLength 0) (fileData graph.extents stream.id) = .ok out ↔ _ :=
        fun out => copyExtents_ok_iff hlen
      refine ⟨fun out hout => ?_, fun h => ⟨_, (hcopy _).2 ⟨h, rfl⟩⟩⟩
      obtain ⟨hfits, rfl⟩ := (hcopy out).1 hout
      exact ⟨hfits, rebuilds_plain hv.sizes.1 hle hstorage hblock hkinds hfits⟩
    · simp only [ne_eq, hblock, not_false_eq_true, if_true, hinit]
      have hread : ∀ {offset length bytes}, source.readExactAt offset length = .ok bytes ↔
          source.Fits offset length ∧ bytes = sliceAt source.content offset length :=
        SourceImage.readExactAt_ok_iff
      have hmat : ∀ out, Lznt1.materializeNtfsCompressedStream .ntfsCompression source.readExactAt
          graph.extents.extents stream.id stream.flags.compressionBlockBytes
          stream.initializedBytes destinationLength = .ok out ↔ _ := fun out =>
        Lznt1.materializeNtfsCompressedStream_ok_iff hread (fun h => h.2.2) (hv.sizes.1.trans hle)
      refine ⟨fun out hout => ?_, fun h => ⟨_, (hmat _).2 ⟨⟨hblock, h.1⟩, h.2, rfl⟩⟩⟩
      obtain ⟨⟨-, hmax⟩, hunits, rfl⟩ := (hmat out).1 hout
      exact ⟨⟨hmax, hunits⟩, rebuilds_compressed hv.sizes.1 hle ⟨hstorage, hblock⟩ hunits⟩

end Rebuild

end Export

end StarConverter
