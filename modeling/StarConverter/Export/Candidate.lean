import StarConverter.Export.Authority

/-!
# Building a candidate

The candidate starts as a copy of the source; relocated bytes, rebuilt streams and the forward writes
are written over it, each in chunks. `buildCandidate_ok` says what stands in it at the end: the
source with three lists of patches, whatever the chunks.
-/

namespace StarConverter

open Base Geometry Conversion

namespace Export

/-! ## The output file -/

/-- A file being written: its bytes and the place of the next write. -/
structure OutputFile where
  bytes : Bytes
  cursor : ℕ
  deriving DecidableEq

namespace OutputFile

def seek (output : OutputFile) (offset : ℕ) : OutputFile := { output with cursor := offset }

/-- A write behind the end extends the file, with zeros in a gap. -/
def writeAll (output : OutputFile) (data : Bytes) : OutputFile where
  bytes := if data = [] then output.bytes
    else overwrite (output.bytes ++
      List.replicate (output.cursor + data.length - output.bytes.length) 0) output.cursor data
  cursor := output.cursor + data.length

theorem writeAll_of_le {output : OutputFile} {data : Bytes}
    (h : output.cursor + data.length ≤ output.bytes.length) :
    output.writeAll data = ⟨overwrite output.bytes output.cursor data, output.cursor + data.length⟩ := by
  unfold writeAll
  split_ifs with hdata
  · simp [hdata]
  · rw [Nat.sub_eq_zero_of_le h, List.replicate_zero, List.append_nil]

theorem writeAll_end {output : OutputFile} {data : Bytes} (h : output.cursor = output.bytes.length) :
    output.writeAll data = ⟨output.bytes ++ data, (output.bytes ++ data).length⟩ := by
  unfold writeAll
  rw [h, Nat.add_sub_cancel_left, List.length_append]
  split_ifs with hdata
  · simp [hdata]
  · congr 1
    refine List.ext_getElem? fun i => ?_
    rcases Nat.lt_or_ge i output.bytes.length with hi | hi
    · rw [getElem?_overwrite_of_not_mem (by omega), List.getElem?_append_left hi,
        List.getElem?_append_left hi]
    · by_cases hin : i < output.bytes.length + data.length
      · rw [getElem?_overwrite_of_mem hi hin (by simpa using hin), List.getElem?_append_right hi]
      · rw [List.getElem?_eq_none (by simp; omega), List.getElem?_eq_none (by simp; omega)]

end OutputFile

/-! ## The passes -/

section Code

variable (source : SourceImage) (chunkBytes : ℕ)

/-- `while offset < source.len()`; a chunk has at least one byte. -/
def copySourceFrom : ℕ → ℕ → OutputFile → Except CandidateExportError OutputFile
  | 0, _, output => pure output
  | rounds + 1, offset, output =>
    if offset < source.len then do
      let length := min (source.len - offset) chunkBytes
      let bytes ← source.readExactAt offset length
      let next ← orErr (checkedAdd offset length) (.arithmeticOverflow "copy offset")
      copySourceFrom rounds next (output.writeAll bytes)
    else pure output

def copySource (output : OutputFile) : Except CandidateExportError OutputFile :=
  copySourceFrom source chunkBytes source.len 0 output

/-- `while copied < relocation.source.length`; the state is the progress and the output. -/
def applyRelocationFrom (relocation : Relocation) :
    ℕ → ℕ → ℕ × OutputFile → Except CandidateExportError (ℕ × OutputFile)
  | 0, _, state => pure state
  | rounds + 1, copied, (completed, output) =>
    if copied < relocation.source.length then do
      let length := min (relocation.source.length - copied) chunkBytes
      let sourceOffset ← orErr (checkedAdd relocation.source.offset copied)
        (.arithmeticOverflow "relocation source offset")
      let destinationOffset ← orErr (checkedAdd relocation.destination.offset copied)
        (.arithmeticOverflow "relocation destination offset")
      let bytes ← source.readExactAt sourceOffset length
      let copied ← orErr (checkedAdd copied length) (.arithmeticOverflow "relocation extent progress")
      let completed ← orErr (checkedAdd completed length)
        (.arithmeticOverflow "relocation total progress")
      applyRelocationFrom relocation rounds copied
        (completed, (output.seek destinationOffset).writeAll bytes)
    else pure (completed, output)

def applyRelocations (relocations : List Relocation) (output : OutputFile) :
    Except CandidateExportError (ℕ × OutputFile) :=
  relocations.foldlM (fun state relocation =>
    applyRelocationFrom source chunkBytes relocation relocation.source.length 0 state) (0, output)

/-- `while copied < span_length`. -/
def writeSpanFrom (payload : Bytes) (destination : ByteRange) (logicalOffset : ℕ) :
    ℕ → ℕ → ℕ × OutputFile → Except CandidateExportError (ℕ × OutputFile)
  | 0, _, state => pure state
  | rounds + 1, copied, (completed, output) =>
    if copied < destination.length then do
      let length := min (destination.length - copied) chunkBytes
      let destinationOffset ← orErr (checkedAdd destination.offset copied)
        (.arithmeticOverflow "materialization write offset")
      let output := (output.seek destinationOffset).writeAll
        (sliceAt payload (logicalOffset + copied) length)
      let completed ← orErr (checkedAdd completed length)
        (.arithmeticOverflow "materialization total progress")
      writeSpanFrom payload destination logicalOffset rounds (copied + length) (completed, output)
    else pure (completed, output)

def writeSpans (payload : Bytes) :
    ℕ → List ByteRange → ℕ × OutputFile → Except CandidateExportError (ℕ × OutputFile)
  | _, [], state => pure state
  | logicalOffset, destination :: rest, state => do
    let spanEnd ← orErr (checkedAdd logicalOffset destination.length)
      (.arithmeticOverflow "materialization span end")
    let state ← writeSpanFrom chunkBytes payload destination logicalOffset destination.length 0 state
    writeSpans payload spanEnd rest state

def applyMaterialization (sourceGraph : ObjectGraph) (state : ℕ × OutputFile)
    (materialization : Materialization) : Except CandidateExportError (ℕ × OutputFile) := do
  let destinationLength ← sumChecked
    (CandidateExportError.arithmeticOverflow "materialization destination total") 0
    (materialization.destinations.map fun range => range.length)
  let payload ← reconstructStreamDestination source sourceGraph materialization.stream
    destinationLength
  writeSpans chunkBytes payload 0 materialization.destinations state

def applyMaterializations (sourceGraph : ObjectGraph) (materializations : List Materialization)
    (completedBytes : ℕ) (output : OutputFile) : Except CandidateExportError (ℕ × OutputFile) :=
  materializations.foldlM (applyMaterialization source chunkBytes sourceGraph)
    (completedBytes, output)

/-- The chunks of one write. -/
def writeChunksFrom : ℕ → Bytes → ℕ × OutputFile → Except CandidateExportError (ℕ × OutputFile)
  | 0, _, state => pure state
  | rounds + 1, bytes, (completed, output) =>
    if bytes = [] then pure (completed, output)
    else do
      let chunk := bytes.take chunkBytes
      let completed ← orErr (checkedAdd completed chunk.length)
        (.arithmeticOverflow "candidate write progress")
      writeChunksFrom rounds (bytes.drop chunkBytes) (completed, output.writeAll chunk)

def applyForwardWrites (writes : OpaqueWriteSets) (output : OutputFile) :
    Except CandidateExportError (ℕ × OutputFile) :=
  (finalWrites writes).foldlM (fun state write =>
    writeChunksFrom chunkBytes write.bytes.length write.bytes
      (state.1, state.2.seek write.offset)) (0, output)

/-- The passes over a new file, one after another. -/
def buildCandidate (sourceGraph : ObjectGraph) (relocations : List Relocation)
    (relocationBytes : ℕ) (materializations : List Materialization) (writes : OpaqueWriteSets) :
    Except CandidateExportError Bytes := do
  let output ← copySource source chunkBytes ⟨[], 0⟩
  let moved ← applyRelocations source chunkBytes relocations output
  let rebuilt ← applyMaterializations source chunkBytes sourceGraph materializations
    relocationBytes moved.2
  let final ← applyForwardWrites chunkBytes writes rebuilt.2
  pure final.2.bytes

end Code

/-! ## Copying the source -/

section Passes

variable {source : SourceImage} {chunkBytes : ℕ} (hchunk : 0 < chunkBytes)

/-- Chunks of the copy fit one read. -/
def Copyable (source : SourceImage) (chunkBytes : ℕ) : Prop :=
  min source.len chunkBytes ≤ source.maxReadBytes

instance (source : SourceImage) (chunkBytes : ℕ) : Decidable (Copyable source chunkBytes) := by
  unfold Copyable
  infer_instance

theorem Copyable.fits (h : Copyable source chunkBytes) {offset n : ℕ} (length : ℕ)
    (hlen : offset + length ≤ source.len) (hn : n = min length chunkBytes) :
    source.Fits offset n := by
  have hlt := source.length_lt
  unfold Copyable at h
  unfold SourceImage.Fits
  simp only [SourceImage.len] at *
  omega

include hchunk in
theorem copySourceFrom_ok (h : Copyable source chunkBytes) {rounds offset : ℕ}
    (hrounds : source.len - offset ≤ rounds) (hle : offset ≤ source.len) :
    copySourceFrom source chunkBytes rounds offset ⟨source.content.take offset, offset⟩ =
      .ok ⟨source.content, source.len⟩ := by
  have hlt := source.length_lt
  have hlen : source.len = source.content.length := rfl
  have hdone : ∀ {n}, n = source.len → (⟨source.content.take n, n⟩ : OutputFile) =
      ⟨source.content, source.len⟩ := by
    rintro _ rfl
    rw [hlen, List.take_length]
  induction rounds generalizing offset with
  | zero => exact congrArg Except.ok (hdone (by omega))
  | succ rounds ih =>
    rw [copySourceFrom]
    split_ifs with hmore
    · have hread : source.readExactAt offset (min (source.len - offset) chunkBytes) = .ok _ :=
        SourceImage.readExactAt_ok_iff.2 ⟨h.fits _ (by omega) rfl, rfl⟩
      dsimp only
      rw [hread, ok_bind, checkedAdd_of_lt (by omega), orErr_some, ok_bind,
        OutputFile.writeAll_end (by simp; omega)]
      have hnext : source.content.take offset ++ sliceAt source.content offset
          (min (source.len - offset) chunkBytes) =
            source.content.take (offset + min (source.len - offset) chunkBytes) := by
        rw [sliceAt, List.take_add]
      have hsize : min (offset + min (source.len - offset) chunkBytes) source.content.length =
          offset + min (source.len - offset) chunkBytes := by omega
      simp only [hnext, List.length_take, hsize]
      exact ih (by omega) (by omega)
    · exact congrArg Except.ok (hdone (by omega))

include hchunk in
/-- **Copy.** The source is copied if and only if its chunks fit one read. -/
theorem copySource_ok_iff {output : OutputFile} :
    copySource source chunkBytes ⟨[], 0⟩ = .ok output ↔
      Copyable source chunkBytes ∧ output = ⟨source.content, source.len⟩ := by
  have hrun : Copyable source chunkBytes →
      copySource source chunkBytes ⟨[], 0⟩ = .ok ⟨source.content, source.len⟩ :=
    fun h => copySourceFrom_ok hchunk h (by omega) (Nat.zero_le _)
  constructor
  · intro hok
    have h : Copyable source chunkBytes := by
      unfold copySource at hok
      cases hlen : source.len with
      | zero => rw [Copyable, hlen, Nat.zero_min]; exact Nat.zero_le _
      | succ n =>
        rw [hlen, copySourceFrom, if_pos (by omega)] at hok
        simp only [bind_ok_iff, SourceImage.readExactAt_ok_iff] at hok
        obtain ⟨_, ⟨hfit, -⟩, -⟩ := hok
        exact hfit.2.1
    exact ⟨h, Except.ok.inj (hok.symm.trans (hrun h))⟩
  · rintro ⟨h, rfl⟩
    exact hrun h

/-! ## Moving bytes -/

/-- A write at a place inside the file. -/
theorem seek_writeAll {output : OutputFile} {offset : ℕ} {data : Bytes}
    (h : offset + data.length ≤ output.bytes.length) :
    (output.seek offset).writeAll data =
      ⟨overwrite output.bytes offset data, offset + data.length⟩ := by
  show OutputFile.writeAll ⟨output.bytes, offset⟩ data = _
  exact OutputFile.writeAll_of_le h

theorem sliceAt_append_slice {α : Type} (l : List α) (offset : ℕ) {n length : ℕ} (h : n ≤ length) :
    sliceAt l offset n ++ sliceAt l (offset + n) (length - n) = sliceAt l offset length :=
  (Verify.sliceAt_split l offset h).symm

include hchunk in
theorem applyRelocationFrom_ok (h : Copyable source chunkBytes) {relocation : Relocation}
    (hsource : relocation.source.stop ≤ source.len) {rounds copied completed : ℕ}
    {output : OutputFile} (hrounds : relocation.source.length - copied ≤ rounds)
    (hcopied : copied ≤ relocation.source.length)
    (hdestination : relocation.destination.offset + relocation.source.length ≤ output.bytes.length)
    (hlt : output.bytes.length < wordBound)
    (hcompleted : completed + (relocation.source.length - copied) < wordBound) :
    ∃ cursor, applyRelocationFrom source chunkBytes relocation rounds copied (completed, output) =
      .ok (completed + (relocation.source.length - copied),
        ⟨overwrite output.bytes (relocation.destination.offset + copied) (sliceAt source.content
          (relocation.source.offset + copied) (relocation.source.length - copied)), cursor⟩) := by
  have hword := source.length_lt
  have hstop : relocation.source.offset + relocation.source.length ≤ source.content.length := hsource
  induction rounds generalizing copied completed output with
  | zero =>
    refine ⟨output.cursor, ?_⟩
    rw [applyRelocationFrom, show relocation.source.length - copied = 0 by omega, sliceAt,
      List.take_zero, overwrite_nil]
    rfl
  | succ rounds ih =>
    rw [applyRelocationFrom]
    split_ifs with hmore
    · set length := min (relocation.source.length - copied) chunkBytes with hlength
      have hread : source.readExactAt (relocation.source.offset + copied) length =
          .ok (sliceAt source.content (relocation.source.offset + copied) length) :=
        SourceImage.readExactAt_ok_iff.2 ⟨h.fits (relocation.source.length - copied)
          (show _ ≤ source.content.length by omega) hlength, rfl⟩
      have hsize : (sliceAt source.content (relocation.source.offset + copied) length).length =
          length := length_sliceAt_of_le (by omega)
      dsimp only
      rw [checkedAdd_of_lt (by omega), orErr_some, ok_bind, checkedAdd_of_lt (by omega), orErr_some,
        ok_bind, hread, ok_bind, checkedAdd_of_lt (by omega), orErr_some, ok_bind,
        checkedAdd_of_lt (by omega), orErr_some, ok_bind, seek_writeAll (by omega)]
      obtain ⟨cursor, hrest⟩ := @ih (copied + length) (completed + length)
        ⟨overwrite output.bytes (relocation.destination.offset + copied)
          (sliceAt source.content (relocation.source.offset + copied) length), _⟩ (by omega)
        (by omega) (by simpa using hdestination) (by simpa using hlt) (by omega)
      refine ⟨cursor, hrest.trans ?_⟩
      dsimp only
      have hpieces := overwrite_append output.bytes (relocation.destination.offset + copied)
        (sliceAt source.content (relocation.source.offset + copied) length)
        (sliceAt source.content (relocation.source.offset + (copied + length))
          (relocation.source.length - (copied + length)))
      rw [hsize, Nat.add_assoc] at hpieces
      rw [hpieces, ← Nat.add_assoc relocation.source.offset, Nat.sub_add_eq,
        sliceAt_append_slice _ _ (by omega)]
      congr 2
      omega
    · refine ⟨output.cursor, ?_⟩
      rw [show relocation.source.length - copied = 0 by omega, sliceAt, List.take_zero, overwrite_nil]
      rfl

include hchunk in
theorem applyRelocations_ok (h : Copyable source chunkBytes) {relocations : List Relocation}
    (hsource : ∀ r ∈ relocations, r.source.length = r.destination.length ∧
      r.source.stop ≤ source.len ∧ r.destination.stop ≤ source.len) {completed : ℕ}
    {output : OutputFile} (hlen : output.bytes.length = source.len)
    (hcompleted : completed + (relocations.map fun r => r.source.length).sum < wordBound) :
    ∃ cursor, relocations.foldlM (fun state relocation =>
        applyRelocationFrom source chunkBytes relocation relocation.source.length 0 state)
        (completed, output) =
      .ok (completed + (relocations.map fun r => r.source.length).sum,
        ⟨applyAll (ImageExecutor.copyPatches relocations source.content) output.bytes, cursor⟩) := by
  induction relocations generalizing completed output with
  | nil => exact ⟨output.cursor, rfl⟩
  | cons r rest ih =>
    obtain ⟨⟨hsame, hsrc, hdst⟩, hrest⟩ := List.forall_mem_cons.1 hsource
    have hlt := source.length_lt
    have hcontent : source.len = source.content.length := rfl
    rw [List.map_cons, List.sum_cons] at hcompleted
    have hdst' : r.destination.offset + r.source.length ≤ output.bytes.length := by
      rw [hsame, hlen]
      exact hdst
    obtain ⟨cursor, hone⟩ := applyRelocationFrom_ok hchunk h hsrc
      (show r.source.length - 0 ≤ r.source.length by omega) (Nat.zero_le _) hdst' (by omega)
      (show completed + (r.source.length - 0) < wordBound by omega)
    rw [List.foldlM_cons, hone, ok_bind, Nat.sub_zero, Nat.add_zero, Nat.add_zero]
    obtain ⟨cursor', hmore⟩ := @ih hrest (completed + r.source.length)
      ⟨overwrite output.bytes r.destination.offset
        (sliceAt source.content r.source.offset r.source.length), cursor⟩ (by simpa using hlen)
      (by omega)
    refine ⟨cursor', hmore.trans ?_⟩
    rw [List.map_cons, List.sum_cons, Nat.add_assoc]
    rfl

/-! ## Writing rebuilt streams -/

include hchunk in
theorem writeSpanFrom_ok {payload : Bytes} {destination : ByteRange} {logicalOffset : ℕ}
    {rounds copied completed : ℕ} {output : OutputFile}
    (hpayload : logicalOffset + destination.length ≤ payload.length)
    (hrounds : destination.length - copied ≤ rounds) (hcopied : copied ≤ destination.length)
    (hdestination : destination.stop ≤ output.bytes.length) (hlt : output.bytes.length < wordBound)
    (hcompleted : completed + (destination.length - copied) < wordBound) :
    ∃ cursor, writeSpanFrom chunkBytes payload destination logicalOffset rounds copied
        (completed, output) = .ok (completed + (destination.length - copied),
          ⟨overwrite output.bytes (destination.offset + copied) (sliceAt payload
            (logicalOffset + copied) (destination.length - copied)), cursor⟩) := by
  have hstop : destination.offset + destination.length ≤ output.bytes.length := hdestination
  induction rounds generalizing copied completed output with
  | zero =>
    refine ⟨output.cursor, ?_⟩
    rw [writeSpanFrom, show destination.length - copied = 0 by omega, sliceAt, List.take_zero,
      overwrite_nil]
    rfl
  | succ rounds ih =>
    rw [writeSpanFrom]
    split_ifs with hmore
    · set length := min (destination.length - copied) chunkBytes with hlength
      have hsize : (sliceAt payload (logicalOffset + copied) length).length = length :=
        length_sliceAt_of_le (by omega)
      dsimp only
      rw [checkedAdd_of_lt (by omega), orErr_some, ok_bind, checkedAdd_of_lt (by omega), orErr_some,
        ok_bind, seek_writeAll (by omega)]
      obtain ⟨cursor, hrest⟩ := @ih (copied + length) (completed + length)
        ⟨overwrite output.bytes (destination.offset + copied)
          (sliceAt payload (logicalOffset + copied) length), _⟩ (by omega) (by omega)
        (by simpa using hdestination) (by simpa using hlt) (by omega) (by simpa using hstop)
      refine ⟨cursor, hrest.trans ?_⟩
      dsimp only
      have hpieces := overwrite_append output.bytes (destination.offset + copied)
        (sliceAt payload (logicalOffset + copied) length)
        (sliceAt payload (logicalOffset + (copied + length)) (destination.length - (copied + length)))
      rw [hsize, Nat.add_assoc] at hpieces
      rw [hpieces, ← Nat.add_assoc logicalOffset, Nat.sub_add_eq, sliceAt_append_slice _ _ (by omega)]
      congr 2
      omega
    · refine ⟨output.cursor, ?_⟩
      rw [show destination.length - copied = 0 by omega, sliceAt, List.take_zero, overwrite_nil]
      rfl

/-- What a span writes of a payload. -/
def spanPatch (payload : Bytes) (span : MaterializationSpan) : Patch UInt8 :=
  ⟨span.destination.offset, sliceAt payload span.logicalOffset span.destination.length⟩

include hchunk in
theorem writeSpans_ok (stream : StreamId) (total : ℕ) {payload : Bytes}
    {logicalOffset completed : ℕ} {destinations : List ByteRange} {output : OutputFile}
    (hpayload : logicalOffset + spanTotal destinations ≤ payload.length)
    (hword : payload.length < wordBound)
    (hdestinations : ∀ d ∈ destinations, d.stop ≤ output.bytes.length)
    (hlt : output.bytes.length < wordBound)
    (hcompleted : completed + spanTotal destinations < wordBound) :
    ∃ cursor, writeSpans chunkBytes payload logicalOffset destinations (completed, output) =
      .ok (completed + spanTotal destinations,
        ⟨applyAll ((spansFrom stream total logicalOffset destinations).map (spanPatch payload))
          output.bytes, cursor⟩) := by
  induction destinations generalizing logicalOffset completed output with
  | nil => exact ⟨output.cursor, rfl⟩
  | cons d rest ih =>
    have hcons : spanTotal (d :: rest) = d.length + spanTotal rest := by simp [spanTotal]
    obtain ⟨hd, hrest⟩ := List.forall_mem_cons.1 hdestinations
    rw [hcons] at hpayload hcompleted
    obtain ⟨cursor, hone⟩ := writeSpanFrom_ok hchunk
      (show logicalOffset + d.length ≤ payload.length by omega)
      (show d.length - 0 ≤ d.length by omega) (Nat.zero_le _) hd hlt
      (show completed + (d.length - 0) < wordBound by omega)
    rw [Nat.sub_zero, Nat.add_zero, Nat.add_zero] at hone
    obtain ⟨cursor', hmore⟩ := @ih (logicalOffset + d.length) (completed + d.length)
      ⟨overwrite output.bytes d.offset (sliceAt payload logicalOffset d.length), cursor⟩ (by omega)
      (by simpa using hrest) (by simpa using hlt) (by omega)
    refine ⟨cursor', ?_⟩
    rw [writeSpans, checkedAdd_of_lt (by omega), orErr_some, ok_bind, hone, ok_bind, hmore, hcons,
      Nat.add_assoc]
    rfl

/-- The stream of a span as it is rebuilt. -/
def payloadOf (source : SourceImage) (graph : ObjectGraph) (span : MaterializationSpan) : Bytes :=
  (reconstructStreamDestination source graph span.stream
    span.streamDestinationLength).toOption.getD []

def materializationPatches (source : SourceImage) (graph : ObjectGraph)
    (materializations : List Materialization) : List (Patch UInt8) :=
  (materializationSpans materializations).map fun span => spanPatch (payloadOf source graph span) span

/-- A materialization whose stream can be rebuilt. -/
def Rebuilt (source : SourceImage) (graph : ObjectGraph) (m : Materialization) : Prop :=
  ∃ payload, reconstructStreamDestination source graph m.stream (spanTotal m.destinations) =
    .ok payload ∧ payload.length = spanTotal m.destinations

theorem spanTotal_eq (destinations : List ByteRange) :
    (destinations.map fun range => range.length).sum = spanTotal destinations := rfl

include hchunk in
theorem applyMaterialization_ok {graph : ObjectGraph} {m : Materialization} {completed : ℕ}
    {output : OutputFile} (hm : Rebuilt source graph m)
    (hdestinations : ∀ d ∈ m.destinations, d.stop ≤ output.bytes.length)
    (hlt : output.bytes.length < wordBound)
    (hcompleted : completed + spanTotal m.destinations < wordBound) :
    ∃ cursor, applyMaterialization source chunkBytes graph (completed, output) m =
      .ok (completed + spanTotal m.destinations,
        ⟨applyAll (materializationPatches source graph [m]) output.bytes, cursor⟩) := by
  obtain ⟨payload, hpayload, hlen⟩ := hm
  have hsum : sumChecked (CandidateExportError.arithmeticOverflow "materialization destination total")
      0 (m.destinations.map fun range => range.length) = .ok (spanTotal m.destinations) := by
    rw [sumChecked_ok_iff wordBound_pos, spanTotal_eq, Nat.zero_add]
    exact ⟨by omega, rfl⟩
  have hpatches : materializationPatches source graph [m] =
      (spansFrom m.stream (spanTotal m.destinations) 0 m.destinations).map (spanPatch payload) := by
    rw [materializationPatches, materializationSpans, List.flatMap_cons, List.flatMap_nil,
      List.append_nil]
    refine List.map_congr_left fun s hs => ?_
    obtain ⟨-, hstream, hlength, -⟩ := mem_spansFrom hs
    rw [payloadOf, hstream, hlength, hpayload]
    rfl
  obtain ⟨cursor, hrun⟩ := writeSpans_ok hchunk m.stream (spanTotal m.destinations)
    (show 0 + spanTotal m.destinations ≤ payload.length by omega) (by omega) hdestinations hlt
    hcompleted
  refine ⟨cursor, ?_⟩
  rw [applyMaterialization, hsum, ok_bind, hpayload, ok_bind, hrun, hpatches]

include hchunk in
theorem applyMaterializations_ok {graph : ObjectGraph} {ms : List Materialization} {completed : ℕ}
    {output : OutputFile} (hms : ∀ m ∈ ms, Rebuilt source graph m)
    (hdestinations : ∀ m ∈ ms, ∀ d ∈ m.destinations, d.stop ≤ source.len)
    (hlen : output.bytes.length = source.len)
    (hcompleted : completed + (ms.map fun m => spanTotal m.destinations).sum < wordBound) :
    ∃ cursor, applyMaterializations source chunkBytes graph ms completed output =
      .ok (completed + (ms.map fun m => spanTotal m.destinations).sum,
        ⟨applyAll (materializationPatches source graph ms) output.bytes, cursor⟩) := by
  unfold applyMaterializations
  induction ms generalizing completed output with
  | nil => exact ⟨output.cursor, rfl⟩
  | cons m rest ih =>
    obtain ⟨hm, hrest⟩ := List.forall_mem_cons.1 hms
    obtain ⟨hd, hds⟩ := List.forall_mem_cons.1 hdestinations
    have hlt : source.len < wordBound := source.length_lt
    rw [List.map_cons, List.sum_cons] at hcompleted
    obtain ⟨cursor, hone⟩ := applyMaterialization_ok hchunk hm (fun d h => hlen ▸ hd d h) (hlen ▸ hlt)
      (show completed + spanTotal m.destinations < wordBound by omega)
    obtain ⟨cursor', hmore⟩ := @ih (completed + spanTotal m.destinations)
      ⟨applyAll (materializationPatches source graph [m]) output.bytes, cursor⟩ hrest hds
      (by simpa using hlen) (by omega)
    have hsplit : materializationPatches source graph (m :: rest) =
        materializationPatches source graph [m] ++ materializationPatches source graph rest := by
      rw [materializationPatches, materializationPatches, materializationPatches, ← List.map_append]
      simp only [materializationSpans, List.flatMap_cons, List.flatMap_nil, List.append_nil]
    refine ⟨cursor', ?_⟩
    rw [List.foldlM_cons, hone, ok_bind, hmore, List.map_cons, List.sum_cons, Nat.add_assoc, hsplit,
      applyAll_append]

/-- Streams that were written could be rebuilt. -/
theorem reconstruct_of_applyMaterializations {graph : ObjectGraph} {ms : List Materialization}
    {completed : ℕ} {output : OutputFile} {out : ℕ × OutputFile}
    (h : applyMaterializations source chunkBytes graph ms completed output = .ok out) :
    ∀ m ∈ ms, ∃ payload, reconstructStreamDestination source graph m.stream
      (spanTotal m.destinations) = .ok payload := by
  unfold applyMaterializations at h
  generalize (completed, output) = state at h
  induction ms generalizing state with
  | nil => simp
  | cons m rest ih =>
    rw [List.foldlM_cons, bind_ok_iff] at h
    obtain ⟨next, hone, hrest⟩ := h
    simp only [applyMaterialization, bind_ok_iff, sumChecked_ok_iff wordBound_pos, spanTotal_eq,
      Nat.zero_add] at hone
    obtain ⟨_, ⟨-, rfl⟩, payload, hpayload, -⟩ := hone
    exact List.forall_mem_cons.2 ⟨⟨payload, hpayload⟩, ih next hrest⟩

/-! ## The forward writes -/

include hchunk in
theorem writeChunksFrom_ok {rounds completed : ℕ} {bytes : Bytes} {output : OutputFile}
    (hrounds : bytes.length ≤ rounds) (hle : output.cursor + bytes.length ≤ output.bytes.length)
    (hcompleted : completed + bytes.length < wordBound) :
    ∃ cursor, writeChunksFrom chunkBytes rounds bytes (completed, output) =
      .ok (completed + bytes.length, ⟨overwrite output.bytes output.cursor bytes, cursor⟩) := by
  have hdone : ∀ {b : Bytes}, b = [] → (.ok (completed, output) : Except CandidateExportError _) =
      .ok (completed + b.length, ⟨overwrite output.bytes output.cursor b, output.cursor⟩) := by
    rintro _ rfl
    rw [overwrite_nil]
    rfl
  induction rounds generalizing completed bytes output with
  | zero => exact ⟨_, hdone (List.length_eq_zero_iff.1 (by omega))⟩
  | succ rounds ih =>
    rw [writeChunksFrom]
    split_ifs with hnil
    · exact ⟨_, hdone hnil⟩
    · have hpos := List.length_pos_iff.2 hnil
      have htake : (bytes.take chunkBytes).length = min chunkBytes bytes.length := List.length_take
      have hdrop : (bytes.drop chunkBytes).length = bytes.length - chunkBytes := List.length_drop
      dsimp only
      rw [checkedAdd_of_lt (by omega), orErr_some, ok_bind, OutputFile.writeAll_of_le (by omega)]
      obtain ⟨cursor, hrest⟩ := @ih (completed + (bytes.take chunkBytes).length)
        (bytes.drop chunkBytes) ⟨overwrite output.bytes output.cursor (bytes.take chunkBytes), _⟩
        (by omega) (show output.cursor + (bytes.take chunkBytes).length +
          (bytes.drop chunkBytes).length ≤ _ by rw [length_overwrite]; omega) (by omega) (by
            rintro _ rfl
            rw [overwrite_nil]
            rfl)
      refine ⟨cursor, hrest.trans ?_⟩
      dsimp only
      rw [overwrite_append, List.take_append_drop]
      congr 2
      omega

include hchunk in
theorem applyForwardWrites_ok {writes : OpaqueWriteSets} {output : OutputFile}
    (hle : ∀ w ∈ finalWrites writes, w.offset + w.bytes.length ≤ output.bytes.length)
    (hcompleted : OverlayPlan.byteCount (finalWrites writes) < wordBound) :
    ∃ completed cursor, applyForwardWrites chunkBytes writes output =
      .ok (completed, ⟨applyAll (finalWrites writes) output.bytes, cursor⟩) := by
  have hrun : ∀ (ws : List OverlayWrite) (completed : ℕ) (out : OutputFile),
      (∀ w ∈ ws, w.offset + w.bytes.length ≤ out.bytes.length) →
      completed + OverlayPlan.byteCount ws < wordBound →
      ∃ completed' cursor, ws.foldlM (fun state write =>
        writeChunksFrom chunkBytes write.bytes.length write.bytes
          (state.1, state.2.seek write.offset)) (completed, out) =
        .ok (completed', ⟨applyAll ws out.bytes, cursor⟩) := by
    intro ws
    induction ws with
    | nil => exact fun completed out _ _ => ⟨completed, out.cursor, rfl⟩
    | cons w rest ih =>
      intro completed out hle hsum
      obtain ⟨hw, hrest⟩ := List.forall_mem_cons.1 hle
      have hcons : OverlayPlan.byteCount (w :: rest) =
          w.bytes.length + OverlayPlan.byteCount rest := rfl
      rw [hcons] at hsum
      obtain ⟨cursor, hone⟩ := writeChunksFrom_ok hchunk (le_refl w.bytes.length)
        (show (out.seek w.offset).cursor + w.bytes.length ≤ _ from hw)
        (show completed + w.bytes.length < wordBound by omega)
      obtain ⟨completed', cursor', hmore⟩ := ih (completed + w.bytes.length)
        ⟨overwrite out.bytes w.offset w.bytes, cursor⟩ (by simpa using hrest) (by omega)
      refine ⟨completed', cursor', ?_⟩
      rw [List.foldlM_cons, hone, ok_bind]
      exact hmore
  exact hrun _ 0 output hle (by rwa [Nat.zero_add])

/-! ## The candidate -/

/-- The candidate, whatever the chunks: the source with the bytes of the relocations, the rebuilt
streams and the forward writes. -/
def candidateOf (source : SourceImage) (authority : SealedRelocationPlan) (writes : OpaqueWriteSets)
    (relocations : List Relocation) : Bytes :=
  applyAll (finalWrites writes)
    (applyAll (materializationPatches source authority.sourceGraph authority.layout.materializations)
      (applyAll (ImageExecutor.copyPatches relocations source.content) source.content))

@[simp] theorem length_candidateOf (source : SourceImage) (authority : SealedRelocationPlan)
    (writes : OpaqueWriteSets) (relocations : List Relocation) :
    (candidateOf source authority writes relocations).length = source.len := by
  simp only [candidateOf, length_applyAll]
  rfl

section Build

variable {authority : SealedRelocationPlan} {writes : OpaqueWriteSets}
  {relocations : List Relocation} {spans : List MaterializationSpan}

theorem map_destination_materializationSpans (ms : List Materialization) :
    (materializationSpans ms).map MaterializationSpan.destination =
      ms.flatMap Materialization.destinations := by
  have hone : ∀ (stream : StreamId) (total start : ℕ) (l : List ByteRange),
      (spansFrom stream total start l).map MaterializationSpan.destination = l := by
    intro stream total start l
    induction l generalizing start with
    | nil => rfl
    | cons d rest ih => rw [spansFrom, List.map_cons, ih]
  rw [materializationSpans, List.map_flatMap]
  exact List.flatMap_congr fun m _ => hone _ _ _ _

/-- Destinations are disjoint parts of the image. -/
theorem Authorized.sum_le (h : Authorized source authority writes relocations spans) :
    (relocations.map fun r => r.source.length).sum +
      (authority.layout.materializations.map fun m => spanTotal m.destinations).sum ≤ source.len := by
  have hspans : (spans.map MaterializationSpan.destination).Perm
      (authority.layout.materializations.flatMap Materialization.destinations) := by
    rw [← map_destination_materializationSpans]
    exact h.spans_perm.map _
  have hlengths : (relocations.map fun r => r.source.length) =
      (relocations.map Relocation.destination).map fun s => s.length := by
    rw [List.map_map]
    exact List.map_congr_left fun r hr => (h.relocation r hr).1
  rw [hlengths, sum_spanTotal, ← (hspans.map fun s => s.length).sum_eq, ← List.sum_append,
    ← List.map_append]
  refine sum_length_le ?_ (List.pairwise_append.2 ⟨h.relocations_ordered.disjoint,
    h.spans_ordered.disjoint, ?_⟩) ?_
  · intro s hs
    rcases List.mem_append.1 hs with hs | hs
    · obtain ⟨r, hr, rfl⟩ := List.mem_map.1 hs
      exact (h.relocation r hr).2.2.1
    · obtain ⟨span, hspan, rfl⟩ := List.mem_map.1 hs
      exact (h.span span hspan).1
  · intro s hs t ht
    obtain ⟨r, hr, rfl⟩ := List.mem_map.1 hs
    obtain ⟨span, hspan, rfl⟩ := List.mem_map.1 ht
    exact (h.apart span hspan r hr).symm
  · intro s hs
    rcases List.mem_append.1 hs with hs | hs
    · obtain ⟨r, hr, rfl⟩ := List.mem_map.1 hs
      exact (h.relocation r hr).2.2.2
    · obtain ⟨span, hspan, rfl⟩ := List.mem_map.1 hs
      exact (h.span span hspan).2

theorem Authorized.destination_le (h : Authorized source authority writes relocations spans) :
    ∀ m ∈ authority.layout.materializations, ∀ d ∈ m.destinations, d.stop ≤ source.len := by
  intro m hm d hd
  have hmem : d ∈ (materializationSpans authority.layout.materializations).map
      MaterializationSpan.destination := by
    rw [map_destination_materializationSpans]
    exact List.mem_flatMap.2 ⟨m, hm, hd⟩
  obtain ⟨span, hspan, rfl⟩ := List.mem_map.1 hmem
  exact (h.span span (h.spans_perm.mem_iff.2 hspan)).2

include hchunk in
/-- **Candidate.** -/
theorem buildCandidate_ok (hcopy : Copyable source chunkBytes)
    (h : Authorized source authority writes relocations spans)
    (hms : ∀ m ∈ authority.layout.materializations, Rebuilt source authority.sourceGraph m)
    (hwrites : ∀ w ∈ finalWrites writes, w.offset + w.bytes.length ≤ source.len)
    (hbytes : OverlayPlan.byteCount (finalWrites writes) < wordBound) {relocationBytes : ℕ}
    (hrelocation : relocationBytes = (relocations.map fun r => r.source.length).sum) :
    buildCandidate source chunkBytes authority.sourceGraph relocations relocationBytes
        authority.layout.materializations writes =
      .ok (candidateOf source authority writes relocations) := by
  have hlt : source.len < wordBound := source.length_lt
  have hsum := h.sum_le
  have hfits : ∀ r ∈ relocations, r.source.length = r.destination.length ∧
      r.source.stop ≤ source.len ∧ r.destination.stop ≤ source.len := fun r hr =>
    ⟨(h.relocation r hr).1, (h.relocation r hr).2.1.2, (h.relocation r hr).2.2.2⟩
  obtain ⟨cursor, hmove⟩ := applyRelocations_ok hchunk hcopy hfits
    (show (⟨source.content, source.len⟩ : OutputFile).bytes.length = source.len from rfl)
    (show 0 + (relocations.map fun r => r.source.length).sum < wordBound by omega)
  obtain ⟨cursor', hrebuild⟩ := applyMaterializations_ok hchunk hms h.destination_le
    (show (⟨applyAll (ImageExecutor.copyPatches relocations source.content) source.content,
      cursor⟩ : OutputFile).bytes.length = source.len from by simp; rfl)
    (show relocationBytes + _ < wordBound by omega)
  let rebuilt : OutputFile := ⟨applyAll (materializationPatches source authority.sourceGraph
    authority.layout.materializations) (applyAll (ImageExecutor.copyPatches relocations
      source.content) source.content), cursor'⟩
  have hlength : rebuilt.bytes.length = source.len := by
    simp only [rebuilt, length_applyAll]
    rfl
  obtain ⟨completed, cursor'', hforward⟩ := applyForwardWrites_ok hchunk
    (show ∀ w ∈ finalWrites writes, w.offset + w.bytes.length ≤ rebuilt.bytes.length by
      rw [hlength]; exact hwrites) hbytes
  rw [buildCandidate, (copySource_ok_iff hchunk).2 ⟨hcopy, rfl⟩, ok_bind, applyRelocations, hmove,
    ok_bind, hrebuild, ok_bind, hforward]
  rfl

end Build

end Passes

end Export

end StarConverter
