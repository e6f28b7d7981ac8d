import StarConverter.Conversion.Checkpoint
import StarConverter.Conversion.EnvelopeRoundTrip

/-!
# Hash functions and builds

A plan that was solved and sealed passes every digest check of its own envelope, so whether a build
succeeds does not depend on the hash functions (`exists_build`).
-/

namespace StarConverter

open Base Geometry Capsule Recovery Conversion Envelope

namespace PreparedConversion

variable {H : Hashing} {p : PreparedConversion} {source projected target : ObjectGraph}
  {draft : ConversionDraft} {before : List OverlayWrite} {limits : ConversionLimits}
  {planned : Planned}

/-- Solving a draft needs no hash function. -/
theorem plan_hashing (H H' : Hashing) :
    plan H source projected target draft before limits =
      plan H' source projected target draft before limits := rfl

theorem digestOverlayWrites_sort (H : Hashing) (writes : List OverlayWrite) :
    digestOverlayWrites H (sortByKey Patch.offset writes) = digestOverlayWrites H writes := by
  rw [digestOverlayWrites, digestOverlayWrites, overlayWritesText, overlayWritesText,
    sortByKey_eq_self (sortByKey_sorted _ _)]

theorem sorted_of_validateRelocationBeforeImages {layout : LayoutPlan}
    {before ordered : List OverlayWrite} {writes : OpaqueWriteSets} {limits : ConversionLimits}
    (h : validateRelocationBeforeImages layout before writes limits = .ok ordered) :
    sortByKey Patch.offset ordered = ordered := by
  simp only [validateRelocationBeforeImages, bind_ok_iff, pure_eq_ok, Except.ok.injEq] at h
  obtain ⟨-, -, -, -, -, -, -, -, -, -, rfl⟩ := h
  exact sortByKey_eq_self (sortByKey_sorted _ _)

/-- The overlays of a solved draft are those of its writes. -/
structure Planned.Consistent (planned : Planned) : Prop where
  before : planned.relocationRollback.writes = planned.beforeImages
  candidate : planned.candidate.writes = sortByKey Patch.offset (finalWrites planned.writes)
  staging : planned.stagingRollback.writes =
    sortByKey Patch.offset (stagingRollbackWrites planned.beforeImages planned.writes)
  preactivation : planned.preactivationRollback.writes =
    sortByKey Patch.offset (preactivationRollbackWrites planned.beforeImages planned.writes)
  full : planned.fullRollback.writes =
    sortByKey Patch.offset (fullRollbackWrites planned.beforeImages planned.writes)

theorem consistent_of_plan
    (h : plan H source projected target draft before limits = .ok planned) :
    planned.Consistent := by
  simp only [plan, bind_ok_iff, pure_eq_ok, Except.ok.injEq, mapError_ok_iff] at h
  obtain ⟨-, -, -, -, -, -, -, -, target', -, -, -, -, -, -, -, -, -, -, -, layout, -, -, -, -, -, -, -,
    images, himages, candidate, hcandidate, relocation, hrelocation, staging, hstaging,
    preactivation, hpreactivation, full, hfull, rfl⟩ := h
  have hsorted := sorted_of_validateRelocationBeforeImages himages
  exact ⟨(OverlayPlan.build_ok hrelocation).2.2.1.trans hsorted,
    (OverlayPlan.build_ok hcandidate).2.2.1, (OverlayPlan.build_ok hstaging).2.2.1,
    (OverlayPlan.build_ok hpreactivation).2.2.1, (OverlayPlan.build_ok hfull).2.2.1⟩

theorem validateCommitments_of_seal (hc : planned.Consistent)
    (hs : sealPlan H source target draft limits planned = .ok p) :
    validateCommitments H (EnvelopeState.fromPrepared p) = .ok () := by
  simp only [sealPlan, bind_ok_iff, pure_eq_ok, Except.ok.injEq, mapError_ok_iff] at hs
  obtain ⟨payload, -, rfl⟩ := hs
  simp only [validateCommitments, EnvelopeState.fromPrepared, hc.before, hc.candidate, hc.staging,
    hc.preactivation, hc.full, digestOverlayWrites_sort]
  rw [bind_unit_ok_iff, checkAll_ok_iff]
  refine ⟨fun commitment hmem => ensure_of ?_, ?_⟩
  · fin_cases hmem <;> rfl
  · rw [ensure_of trivial, ok_bind, ensure_of trivial]

theorem validateRecovery_of_seal {entryLimits : PreparedEnvelopeLimits} (hc : planned.Consistent)
    (hs : sealPlan H source target draft limits planned = .ok p)
    (hmax : entryLimits.maxRecoveryBytes < wordBound)
    (hlimits : Recovery.validateLimits ⟨entryLimits.maxEntries, entryLimits.maxRecoveryBytes⟩ = .ok ())
    (hbundle : validateBundle (bundleOf (EnvelopeState.fromPrepared p))
      ⟨entryLimits.maxEntries, entryLimits.maxRecoveryBytes⟩ = .ok ()) :
    validateRecovery (EnvelopeState.fromPrepared p) entryLimits = .ok () := by
  simp only [sealPlan, bind_ok_iff, pure_eq_ok, Except.ok.injEq, mapError_ok_iff] at hs
  obtain ⟨payload, hpayload, rfl⟩ := hs
  simp only [bundleOf, EnvelopeState.fromPrepared, hc.before] at hbundle
  have hdecode := decodeRecoveryBundle_encode hpayload hmax hlimits hbundle
  simp only [validateRecovery, EnvelopeState.fromPrepared, bundleOf, hc.before]
  rw [hdecode]
  exact ensure_of rfl

/-! ## Another hash function -/

theorem validateBundle_of_decode {bytes : Bytes} {bundle : RecoveryBundle} {limits : RecoveryLimits}
    (h : decodeRecoveryBundle bytes limits = .ok bundle) : validateBundle bundle limits = .ok () := by
  simp only [decodeRecoveryBundle, bind_ok_iff] at h
  obtain ⟨_, -, h⟩ := h
  split at h
  · simp only [bind_ok_iff, decodeGroups, pure_eq_ok, Except.ok.injEq] at h
    obtain ⟨_, -, _, -, _, -, _, -, _, -, _, -, _, -, _, -, _, -, _, -, _, -, _, -, _, -, _, -, _, -, _, hb, rfl⟩ := h
    exact hb
  · cases h

/-- The plan digest of a bundle has no part in its checks or its length. -/
theorem encodeRecoveryBundle_digest {bundle : RecoveryBundle} {limits : RecoveryLimits} {bytes : Bytes}
    (h : encodeRecoveryBundle bundle limits = .ok bytes) (digest : Digest) :
    ∃ bytes', encodeRecoveryBundle { bundle with planDigest := digest } limits = .ok bytes' ∧
      bytes'.length = bytes.length := by
  simp only [encodeRecoveryBundle, bind_ok_iff, pure_eq_ok, Except.ok.injEq] at h ⊢
  obtain ⟨_, h1, _, h2, payload, h3, count, h4, entries, h5, total, h6, _, h7, rfl⟩ := h
  refine ⟨_, ⟨_, h1, _, h2, payload, h3, count, h4, entries, h5, total, h6, _, h7, rfl⟩, ?_⟩
  simp only [List.length_append, length_fixedBytes]
  rfl

/-- Two states that differ in digests and in the content of the recovery payload only. -/
structure Alike (state state' : EnvelopeState) : Prop where
  preflight : state'.preflight = state.preflight
  targetFilesystem : state'.targetFilesystem = state.targetFilesystem
  targetFeatures : state'.targetFeatures = state.targetFeatures
  reservations : state'.reservations = state.reservations
  layout : state'.layout = state.layout
  writes : state'.writes = state.writes
  beforeImages :
    state'.relocationDestinationBeforeImages = state.relocationDestinationBeforeImages
  recoveryPayload : state'.recoveryPayload.length = state.recoveryPayload.length
  capsuleLimits : state'.capsuleLimits = state.capsuleLimits

section Alike

variable {state state' : EnvelopeState} (h : Alike state state')

include h

theorem Alike.validateShape_eq (entryLimits : PreparedEnvelopeLimits) :
    validateShape state' entryLimits = validateShape state entryLimits := by
  simp only [validateShape, validateGeometry, validateCountsAndBytes, Envelope.validateRanges, entryCounts,
    writeLengths, h.preflight, h.targetFilesystem, h.targetFeatures, h.reservations, h.layout,
    h.writes, h.beforeImages, h.recoveryPayload, h.capsuleLimits]

theorem Alike.fits (hf : EnvelopeState.Fits state) : EnvelopeState.Fits state' := by
  obtain ⟨h1, h2, h3, h4, h5, h6, h7, h8⟩ := hf
  rw [← h.preflight] at h1 h2 h3
  rw [← h.capsuleLimits] at h4 h5 h6
  rw [← h.layout] at h7
  rw [← h.targetFeatures] at h8
  exact ⟨h1, h2, h3, h4, h5, h6, h7, h8⟩

theorem Alike.sections :
    (sectionsOf state').map EncodedSection.count = (sectionsOf state).map EncodedSection.count ∧
      (sectionsOf state').map (fun v => v.bytes.length) =
        (sectionsOf state).map fun v => v.bytes.length := by
  simp only [sectionsOf, List.map_cons, List.map_nil, h.targetFeatures, h.reservations, h.layout,
    h.writes, h.beforeImages, h.recoveryPayload, and_self]

end Alike

theorem encodeSections_of_count {state : EnvelopeState}
    (h : ∀ value ∈ sectionsOf state, value.count < 2 ^ 32) :
    encodeSections state = .ok (sectionsOf state) := by
  simp only [sectionsOf, List.forall_mem_cons] at h
  obtain ⟨h1, h2, h3, h4, h5, h6, h7, h8, h9, -, h11, h12, -⟩ := h
  simp only [encodeSections, listSection, ensure_of h1, ensure_of h2, ensure_of h3, ensure_of h4,
    ensure_of h5, ensure_of h6, ensure_of h7, ensure_of h8, ensure_of h9, ensure_of h11,
    ensure_of h12, ok_bind, pure_eq_ok]
  rfl

theorem sum_sections (sections : List EncodedSection) :
    (sections.flatMap fun value => [sectionHeaderBytes, value.bytes.length]).sum =
      sections.length * sectionHeaderBytes + (sections.map fun value => value.bytes.length).sum := by
  induction sections with
  | nil => rfl
  | cons value rest ih =>
    rw [List.flatMap_cons, List.sum_append, ih, List.sum_pair, List.length_cons, List.map_cons,
      List.sum_cons]
    ring

/-- A state alike to an encoded one is encoded too, as long as its own digests are right. -/
theorem Alike.encodeState {H' : Hashing} {state state' : EnvelopeState} (h : Alike state state')
    {entryLimits : PreparedEnvelopeLimits} {bytes : Bytes}
    (he : encodeState H state entryLimits = .ok bytes)
    (hr : validateRecovery state' entryLimits = .ok ())
    (hd : validateCommitments H' state' = .ok ()) :
    ∃ bytes', Envelope.encodeState H' state' entryLimits = .ok bytes' ∧ bytes'.length = bytes.length := by
  obtain ⟨sections, source, target, crc, hstate, hsections, henc, hcap, hgen⟩ := encodeState_ok he
  obtain ⟨rfl, hcount⟩ := encodeSections_ok hsections
  have hlen := henc.length_eq
  have hlt := henc.length_lt
  rw [length_sections, sum_sections] at hlen
  have hcount' : ∀ value ∈ sectionsOf state', value.count < 2 ^ 32 := by
    have hall : ∀ n ∈ (sectionsOf state).map EncodedSection.count, n < 2 ^ 32 :=
      List.forall_mem_map.2 hcount
    rw [← h.sections.1] at hall
    exact List.forall_mem_map.1 hall
  have hlen' : Envelope.headerBytes + ((sectionsOf state').flatMap fun value =>
      [sectionHeaderBytes, value.bytes.length]).sum = bytes.length := by
    rw [sum_sections, h.sections.2, hlen]
    rfl
  have hshape : validateState H' state' entryLimits = .ok () := by
    rw [validateState, bind_unit_ok_iff] at hstate
    rw [validateState, h.validateShape_eq, hstate.1, ok_bind, hr, ok_bind, hd]
  have hlimits : validateLimits entryLimits = .ok () := by
    rw [validateState, bind_unit_ok_iff, validateShape, bind_unit_ok_iff] at hstate
    exact hstate.1.1
  obtain ⟨header, hheader⟩ : ∃ header, Envelope.encodeHeader H' state' bytes.length
      (H'.sha256 ((sectionsOf state').map (encodeSection H')).flatten) = .ok header := by
    simp only [Envelope.encodeHeader, h.preflight, h.targetFilesystem, henc.source_eq,
      henc.target_eq, ok_bind, pure_eq_ok]
    exact ⟨_, rfl⟩
  have hout : Envelope.encodeState H' state' entryLimits =
      .ok (header ++ ((sectionsOf state').map (encodeSection H')).flatten) := by
    rw [Envelope.encodeState, hlimits, ok_bind, hshape, ok_bind, encodeSections_of_count hcount',
      ok_bind, (sumChecked_ok_iff wordBound_pos).2 ⟨by omega, rfl⟩, ok_bind, Nat.zero_add,
      checkedAdd_of_lt (by omega), orErr_some, ok_bind, hlen', ensureEnvelopeCap, ensure_of hcap,
      ok_bind, h.capsuleLimits, hgen, ok_bind]
    dsimp only
    rw [hheader, ok_bind]
    rfl
  refine ⟨_, hout, ?_⟩
  obtain ⟨sections', _, _, _, -, hsections', henc', -⟩ := encodeState_ok hout
  obtain ⟨rfl, -⟩ := encodeSections_ok hsections'
  rw [henc'.length_eq, length_sections, ← hlen']

/-- **Hash functions.** A build that succeeds with one pair of hash functions succeeds with any
other, with the same work to do. -/
theorem exists_build
    (h : buildWithProjectedTargetGraph H (durableEncoder H) source projected target draft before
      limits = .ok p) (H' : Hashing) :
    ∃ p', buildWithProjectedTargetGraph H' (durableEncoder H') source projected target draft before
        limits = .ok p' ∧
      Alike (EnvelopeState.fromPrepared p) (EnvelopeState.fromPrepared p') := by
  simp only [buildWithProjectedTargetGraph, bind_ok_iff, refreshDurableEnvelope, durableEncoder,
    encodePreparedEnvelope, mapError_ok_iff, pure_eq_ok, Except.ok.injEq] at h
  obtain ⟨planned, hplan, prepared, hseal, encoded, hencode, _, hroom, rfl⟩ := h
  have hc := consistent_of_plan hplan
  rw [plan_hashing H H'] at hplan
  have hseal' := hseal
  simp only [sealPlan, bind_ok_iff, pure_eq_ok, Except.ok.injEq, mapError_ok_iff] at hseal'
  obtain ⟨payload, hpayload, hprepared⟩ := hseal'
  obtain ⟨payload', hpayload', hlength⟩ := encodeRecoveryBundle_digest hpayload
    (digestPlan H' draft.preflight draft.target.filesystem planned.target.features
      planned.reservations planned.layout planned.writes (digestGraph H' source)
      (digestGraph H' target) planned.beforeImages)
  have hseal' : ∃ p', sealPlan H' source target draft limits planned = .ok p' ∧
      Alike (EnvelopeState.fromPrepared prepared) (EnvelopeState.fromPrepared p') ∧
      p'.capsuleLimits = prepared.capsuleLimits := by
    simp only [sealPlan, hpayload', Except.mapError, ok_bind, pure_eq_ok, Except.ok.injEq]
    subst hprepared
    exact ⟨_, rfl, ⟨rfl, rfl, rfl, rfl, rfl, rfl, rfl, hlength, rfl⟩, rfl⟩
  obtain ⟨p', hp', halike, hlimits⟩ := hseal'
  have hrecovery : validateRecovery (EnvelopeState.fromPrepared p') .default = .ok () := by
    refine validateRecovery_of_seal hc hp' (by decide) rfl ?_
    obtain ⟨-, -, -, -, hstate, -⟩ := encodeState_ok hencode
    simp only [validateState, bind_unit_ok_iff] at hstate
    obtain ⟨-, hr, -⟩ := hstate
    simp only [validateRecovery, bind_ok_iff, mapError_ok_iff, ensure_ok_iff] at hr
    obtain ⟨bundle, hdecode, rfl⟩ := hr
    have hbundle : bundleOf (EnvelopeState.fromPrepared p') =
        { bundleOf (EnvelopeState.fromPrepared prepared) with
          planDigest := (EnvelopeState.fromPrepared p').planDigest } := by
      simp only [bundleOf, halike.writes, halike.beforeImages]
    have hb := validateBundle_of_decode hdecode
    rw [hbundle]
    exact hb
  obtain ⟨encoded', hencoded', hlength'⟩ := halike.encodeState hencode hrecovery
    (validateCommitments_of_seal hc hp')
  refine ⟨{ p' with preparedEnvelope := encoded' }, ?_, halike⟩
  rw [buildWithProjectedTargetGraph, hplan, ok_bind, hp', ok_bind, refreshDurableEnvelope,
    durableEncoder, encodePreparedEnvelope, hencoded']
  simp only [Except.mapError, ok_bind]
  rw [hlength', hlimits, hroom, ok_bind]
  rfl

/-! ## A small volume -/

/-- Hash functions that are quick to evaluate. -/
def plainHashing : Hashing := ⟨fun _ => 0, fun _ => zeroBytes 32⟩

/-- A directory with one file of `n` bytes at `offset`. -/
def sampleFile (offset n : ℕ) : Option ObjectGraph := do
  let extents ← (ExtentGraph.build [⟨10, 0, n, .physical offset, .fileData⟩] (2 * n + 4) 4).toOption
  (ObjectGraph.build 1
    [⟨1, .directory, 0, ⟨false, false⟩, []⟩,
      ⟨2, .file, 1, ⟨false, false⟩,
        [⟨10, none, n, n, n, n, ⟨false, false, false, 0⟩, .extents⟩]⟩]
    [⟨1, 2, [97]⟩] extents ⟨4, 4, 4, 4⟩).toOption

/-- The file stands where the target's namespace goes, so it has to move. -/
def sampleDraft (content : Bytes) : ConversionDraft :=
  let n := content.length
  { transactionId := zeroBytes 16
    preflight :=
      { image := ⟨zeroBytes 32, 2 * n + 4⟩
        sourceFilesystem := .exFat
        sourceEvidenceDigest := zeroBytes 32
        sourceManifestCommitment := ⟨zeroBytes 32, n, 2⟩
        sectorBytes := 1
        allocationAlignment := 1
        inventoryComplete := true
        allocationMapComplete := true
        health := .clean
        access := .offline }
    target := ⟨.ntfs, []⟩
    sourceAllocations := [⟨10, 0, ⟨2, n⟩, true⟩]
    reservations := [⟨⟨0, 1⟩, .bootRegion⟩, ⟨⟨1, 1⟩, .allocationMetadata⟩,
      ⟨⟨2, n⟩, .namespaceMetadata⟩, ⟨⟨2 * n + 3, 1⟩, .bootRegion⟩]
    writes := ⟨.ntfs,
      { targetStaging := [⟨.namespaceMetadata, ⟨2, List.replicate n 1⟩⟩]
        backupBoot := [⟨.bootRegion, ⟨2 * n + 3, [1]⟩⟩]
        activation := [⟨.bootRegion, ⟨0, [1]⟩⟩]
        targetStagingRollback := [⟨2, content⟩]
        backupBootRollback := [⟨2 * n + 3, [0]⟩]
        activationRollback := [⟨0, [0]⟩] }⟩ }

/-- The bytes at the place the file moves to. -/
def sampleBefore (n : ℕ) : List OverlayWrite := [⟨n + 2, List.replicate n 0⟩]

/-- The limits of the source. -/
def sampleConversionLimits : ConversionLimits :=
  { layout := ⟨8 * 1024 * 1024, 1024 * 1024, 8 * 1024 * 1024, 8 * 1024 * 1024⟩
    overlay := ⟨1048576, 512 * 1024 * 1024, 16 * 1024 * 1024⟩
    capsule := ⟨1024 * 1024 * 1024, 256 * 1024 * 1024, 4096⟩
    maxFeatureRules := 64
    maxTotalWrites := 2 * 1024 * 1024
    maxTotalWriteBytes := 1024 * 1024 * 1024 }

/-- The build of the sample for a file with the given content. -/
def sampleBuild (H : Hashing) (content : Bytes) : Converted PreparedConversion := do
  let source ← orErr (sampleFile 2 content.length) .targetGraphMismatch
  let target ← orErr (sampleFile (content.length + 2) content.length) .targetGraphMismatch
  buildWithProjectedTargetGraph H (durableEncoder H) source source target (sampleDraft content)
    (sampleBefore content.length) sampleConversionLimits

theorem sampleBuild_ok {content : Bytes} (h : sampleBuild H content = .ok p) :
    ∃ source target, buildWithProjectedTargetGraph H (durableEncoder H) source source target
      (sampleDraft content) (sampleBefore content.length) sampleConversionLimits = .ok p := by
  simp only [sampleBuild, bind_ok_iff] at h
  obtain ⟨source, -, target, -, h⟩ := h
  exact ⟨source, target, h⟩

/-- The sample is built with any hash functions once it is built with some. -/
theorem exists_sampleBuild {content : Bytes} (h : sampleBuild H content = .ok p) (H' : Hashing) :
    ∃ p', sampleBuild H' content = .ok p' ∧
      Alike (EnvelopeState.fromPrepared p) (EnvelopeState.fromPrepared p') := by
  simp only [sampleBuild, bind_ok_iff] at h ⊢
  obtain ⟨source, hsource, target, htarget, h⟩ := h
  obtain ⟨p', hp', halike⟩ := exists_build h H'
  exact ⟨p', ⟨source, hsource, target, htarget, hp'⟩, halike⟩

/-- The sample of one byte. -/
def samplePrepared : PreparedConversion :=
  okValue (sampleBuild plainHashing [7]) (by decide +kernel)

theorem sampleBuild_samplePrepared : sampleBuild plainHashing [7] = .ok samplePrepared :=
  eq_okValue _

end PreparedConversion

end StarConverter
