import StarConverter.Conversion.Prepared

/-!
# The state of a prepared envelope

Everything of a prepared conversion that its durable encoding holds, and `validateState`, the checks
both the encoder and the decoder make of it.
-/

namespace StarConverter

open Base Geometry Capsule Recovery Conversion

/-- Decode and reconstruction limits. -/
structure PreparedEnvelopeLimits where
  maxEnvelopeBytes : ℕ
  maxEntries : ℕ
  maxWriteBytes : ℕ
  maxRecoveryBytes : ℕ
  maxReadBytes : ℕ
  maxLogicalBytes : ℕ
  deriving DecidableEq

/-- `PreparedEnvelopeLimits::default`. -/
def PreparedEnvelopeLimits.default : PreparedEnvelopeLimits :=
  { maxEnvelopeBytes := 2 * 1024 * 1024 * 1024
    maxEntries := 8 * 1024 * 1024
    maxWriteBytes := 1024 * 1024 * 1024
    maxRecoveryBytes := 1024 * 1024 * 1024
    maxReadBytes := 16 * 1024 * 1024
    maxLogicalBytes := 2 ^ 50 }

inductive PreparedEnvelopeError
  | invalidLimit (field : String)
  | envelopeTooLarge (actual maximum : ℕ)
  | truncated
  | invalidMagic
  | unsupportedVersion (actual : ℕ)
  | invalidHeaderLength (actual : ℕ)
  | invalidTotalLength (declared actual : ℕ)
  | nonZeroReserved
  | headerCrcMismatch
  | payloadDigestMismatch
  | invalidSectionCount (actual : ℕ)
  | unexpectedSection (expected actual : ℕ)
  | sectionDigestMismatch (section_ : ℕ)
  | entryLimitExceeded (actual maximum : ℕ)
  | writeByteLimitExceeded (actual maximum : ℕ)
  | recoveryByteLimitExceeded (actual maximum : ℕ)
  | invalidFixedSectionLength (section_ declared : ℕ)
  | invalidSingletonSection (section_ count : ℕ)
  | invalidEnum (field : String) (value : UInt8)
  | invalidBooleanFlags (value : UInt8)
  | invalidGeometry
  | invalidCapsuleLimits
  | invalidPreparedInvariant
  | emptyWrite (section_ offset : ℕ)
  | rangeOverflow (offset length : ℕ)
  | nonCanonicalOrder (section_ : ℕ)
  | arithmeticOverflow
  | capsule (error : CapsuleError)
  | recovery (error : RecoveryError)
  | recoveryMismatch
  | commitmentMismatch (field : String)
  | overlay (error : OverlayError)
  deriving DecidableEq

abbrev Enveloped (α : Type) := Except PreparedEnvelopeError α

structure EnvelopeState where
  identity : CapsuleIdentity
  preflight : PreflightEvidence
  targetFilesystem : FileSystem
  targetFeatures : List FeatureCompatibility
  sourceGraphDigest : Digest
  targetGraphDigest : Digest
  planDigest : Digest
  candidateOverlayDigest : Digest
  relocationRollbackDigest : Digest
  stagingRollbackDigest : Digest
  preactivationRollbackDigest : Digest
  fullRollbackDigest : Digest
  reservations : List DestinationReservation
  layout : LayoutPlan
  writes : OpaqueWriteSets
  relocationDestinationBeforeImages : List OverlayWrite
  recoveryPayload : Bytes
  capsuleLimits : CapsuleLimits

namespace Envelope

def reservationsTag : ℕ := 1
def relocationsTag : ℕ := 2
def freeRangesTag : ℕ := 3
def targetStagingTag : ℕ := 4
def backupBootTag : ℕ := 5
def activationTag : ℕ := 6
def targetStagingRollbackTag : ℕ := 7
def backupBootRollbackTag : ℕ := 8
def activationRollbackTag : ℕ := 9
def recoveryPayloadTag : ℕ := 10
def targetFeaturesTag : ℕ := 11
def relocationDestinationRollbackTag : ℕ := 12

def EnvelopeState.fromPrepared (prepared : PreparedConversion) : EnvelopeState :=
  { identity := prepared.identity
    preflight := prepared.preflight
    targetFilesystem := prepared.targetFilesystem
    targetFeatures := prepared.targetFeatures
    sourceGraphDigest := prepared.sourceGraphDigest
    targetGraphDigest := prepared.targetGraphDigest
    planDigest := prepared.planDigest
    candidateOverlayDigest := prepared.candidateOverlayDigest
    relocationRollbackDigest := prepared.relocationRollbackDigest
    stagingRollbackDigest := prepared.stagingRollbackDigest
    preactivationRollbackDigest := prepared.preactivationRollbackDigest
    fullRollbackDigest := prepared.fullRollbackDigest
    reservations := prepared.reservations
    layout := prepared.layout
    writes := prepared.writes
    relocationDestinationBeforeImages := prepared.relocationRollbackOverlay.writes
    recoveryPayload := prepared.recoveryPayload
    capsuleLimits := prepared.capsuleLimits }

/-! ## Checks -/

def validateLimits (limits : PreparedEnvelopeLimits) : Enveloped Unit :=
  checkAll (fun field => ensure (field.2 ≠ 0) (.invalidLimit field.1))
    [("max_envelope_bytes", limits.maxEnvelopeBytes), ("max_entries", limits.maxEntries),
      ("max_write_bytes", limits.maxWriteBytes), ("max_recovery_bytes", limits.maxRecoveryBytes),
      ("max_read_bytes", limits.maxReadBytes), ("max_logical_bytes", limits.maxLogicalBytes)]

/-- The keys grow from each value to the next. -/
def ensureOrder {α κ : Type} [LinearOrder κ] (values : List α) (section_ : ℕ) (key : α → κ) :
    Enveloped Unit :=
  checkPairs (fun first second => ensure (key first < key second) (.nonCanonicalOrder section_))
    values

def relocationOrderKey (value : Relocation) : ℕ ×ₗ ℕ ×ₗ ℕ :=
  toLex (value.source.offset, toLex (value.stream, value.logicalOffset))

def rangeOrderKey (value : ByteRange) : ℕ ×ₗ ℕ := toLex (value.offset, value.length)

def reservedWriteOrderKey (value : ReservedWrite) : ℕ ×ₗ ℕ :=
  toLex (value.write.offset, reservationKindKey value.reservationKind)

def validateWrite (section_ : ℕ) (write : OverlayWrite) : Enveloped Unit := do
  ensure (write.bytes.length ≠ 0) (.emptyWrite section_ write.offset)
  let _ ← orErr (checkedAdd write.offset write.bytes.length)
    (.rangeOverflow write.offset write.bytes.length)
  pure ()

def validateRange (range : ByteRange) : Enveloped Unit := do
  ensure (range.length ≠ 0) .invalidGeometry
  let _ ← orErr (checkedAdd range.offset range.length) (.rangeOverflow range.offset range.length)
  pure ()

/-- The bytes of all relocations, whose two ranges have to be of one length. -/
def sumRelocations : ℕ → List Relocation → Enveloped ℕ
  | sum, [] => pure sum
  | sum, value :: rest => do
    ensure (value.source.length = value.destination.length) .invalidPreparedInvariant
    let sum ← orErr (checkedAdd sum value.source.length) .arithmeticOverflow
    sumRelocations sum rest

def validateReservedWrites (section_ : ℕ) (writes : List ReservedWrite) : Enveloped Unit := do
  ensureOrder writes section_ reservedWriteOrderKey
  checkAll (fun value => validateWrite section_ value.write) writes

def validateRollbackWrites (section_ : ℕ) (writes : List OverlayWrite) : Enveloped Unit := do
  ensureOrder writes section_ Patch.offset
  checkAll (validateWrite section_) writes

def largestRange (ranges : List ByteRange) : ℕ := (ranges.map Span.length).foldl max 0

def validateRanges (state : EnvelopeState) : Enveloped Unit := do
  checkAll validateRange (state.reservations.map DestinationReservation.range ++
    state.layout.freeAfterStaging ++
    state.layout.relocations.flatMap fun value => [value.source, value.destination])
  ensureOrder state.reservations reservationsTag reservationSortKey
  ensureOrder state.layout.relocations relocationsTag relocationOrderKey
  ensureOrder state.layout.freeAfterStaging freeRangesTag rangeOrderKey
  let relocatedBytes ← sumRelocations 0 state.layout.relocations
  ensure (state.layout.materializations = [] ∧ state.layout.materializedBytes = 0)
    .invalidPreparedInvariant
  ensure (relocatedBytes = state.layout.relocatedBytes ∧
    largestRange state.layout.freeAfterStaging = state.layout.largestFreeRange)
    .invalidPreparedInvariant
  validateReservedWrites targetStagingTag state.writes.targetStaging
  validateReservedWrites backupBootTag state.writes.backupBoot
  validateReservedWrites activationTag state.writes.activation
  validateRollbackWrites targetStagingRollbackTag state.writes.targetStagingRollback
  validateRollbackWrites backupBootRollbackTag state.writes.backupBootRollback
  validateRollbackWrites activationRollbackTag state.writes.activationRollback
  validateRollbackWrites relocationDestinationRollbackTag state.relocationDestinationBeforeImages

/-- The number of entries of every section but the recovery payload. -/
def entryCounts (state : EnvelopeState) : List ℕ :=
  [state.reservations.length, state.layout.relocations.length, state.layout.freeAfterStaging.length,
    state.writes.targetStaging.length, state.writes.backupBoot.length, state.writes.activation.length,
    state.writes.targetStagingRollback.length, state.writes.backupBootRollback.length,
    state.writes.activationRollback.length, state.relocationDestinationBeforeImages.length,
    state.targetFeatures.length]

/-- The lengths of all writes. -/
def writeLengths (state : EnvelopeState) : List ℕ :=
  (forwardWrites state.writes).map (fun value => value.write.bytes.length) ++
    (rollbackWrites state.writes ++ state.relocationDestinationBeforeImages).map
      fun value => value.bytes.length

def validateCountsAndBytes (state : EnvelopeState) (limits : PreparedEnvelopeLimits) :
    Enveloped Unit := do
  let total ← sumChecked .arithmeticOverflow 0 (entryCounts state)
  ensure (total ≤ limits.maxEntries) (.entryLimitExceeded total limits.maxEntries)
  let writeBytes ← sumChecked .arithmeticOverflow 0 (writeLengths state)
  ensure (writeBytes ≤ limits.maxWriteBytes) (.writeByteLimitExceeded writeBytes limits.maxWriteBytes)
  ensure (state.recoveryPayload.length ≤ limits.maxRecoveryBytes)
    (.recoveryByteLimitExceeded state.recoveryPayload.length limits.maxRecoveryBytes)

def validateTargetFeatures (features : List FeatureCompatibility) : Enveloped Unit := do
  ensureOrder features targetFeaturesTag fun value => featureKey value.feature
  checkAll (fun value => match value.method with
    | .native => pure ()
    | .escrow schemaVersion _ => ensure (schemaVersion ≠ 0) (.commitmentMismatch "escrow schema version"))
    features

/-- The image, the two file systems and what preflight found. -/
def validateGeometry (state : EnvelopeState) : Enveloped Unit :=
  ensure (state.preflight.image.imageBytes ≠ 0 ∧ isPowerOfTwo state.preflight.sectorBytes ∧
    isPowerOfTwo state.preflight.allocationAlignment ∧
    state.preflight.sourceFilesystem ≠ .unknown ∧ state.targetFilesystem ≠ .unknown ∧
    state.preflight.sourceFilesystem ≠ state.targetFilesystem ∧
    state.preflight.inventoryComplete = true ∧ state.preflight.allocationMapComplete = true ∧
    state.preflight.health = .clean ∧ state.preflight.access = .offline) .invalidGeometry

def validateCapsuleLimits (limits : CapsuleLimits) : Enveloped Unit :=
  ensure (limits.maxCapsuleBytes ≠ 0 ∧ limits.maxGenerationBytes ≠ 0 ∧ limits.maxGenerations ≠ 0)
    .invalidCapsuleLimits

/-- A failed check of the coordinator is a broken invariant here. -/
def prepared (check : Converted Unit) : Enveloped Unit :=
  check.mapError fun _ => .invalidPreparedInvariant

/-- The checks that need neither the recovery payload nor a digest. -/
def validateShape (state : EnvelopeState) (limits : PreparedEnvelopeLimits) : Enveloped Unit := do
  validateLimits limits
  validateGeometry state
  validateCapsuleLimits state.capsuleLimits
  validateCountsAndBytes state limits
  validateRanges state
  validateTargetFeatures state.targetFeatures
  prepared (validateRequiredReservations state.reservations)
  prepared (validateWritesAgainstReservations state.writes state.reservations)
  prepared (validateRollbackPairing state.writes)
  prepared (validateRelocationBeforeImageRanges state.layout state.relocationDestinationBeforeImages)
  ensure (state.preflight.sourceManifestCommitment.objectCount ≤ limits.maxEntries ∧
    state.preflight.sourceManifestCommitment.logicalBytesHashed ≤ limits.maxLogicalBytes)
    .invalidPreparedInvariant

/-- The before-images of the state as a recovery bundle. -/
def bundleOf (state : EnvelopeState) : RecoveryBundle :=
  { planDigest := state.planDigest
    relocationDestinations := state.relocationDestinationBeforeImages
    targetStaging := state.writes.targetStagingRollback
    backupBoot := state.writes.backupBootRollback
    activation := state.writes.activationRollback }

/-- The recovery payload decodes to the before-images of the state. -/
def validateRecovery (state : EnvelopeState) (limits : PreparedEnvelopeLimits) : Enveloped Unit := do
  let recovery ← (decodeRecoveryBundle state.recoveryPayload
    ⟨limits.maxEntries, limits.maxRecoveryBytes⟩).mapError PreparedEnvelopeError.recovery
  ensure (recovery = bundleOf state) .recoveryMismatch

section Digests

variable (H : Hashing)

/-- The digests of the five overlays, the plan and the source. -/
def validateCommitments (state : EnvelopeState) : Enveloped Unit := do
  let before := state.relocationDestinationBeforeImages
  checkAll (fun commitment => ensure (commitment.2.1 = commitment.2.2)
      (.commitmentMismatch commitment.1))
    [("candidate overlay", digestOverlayWrites H (finalWrites state.writes),
        state.candidateOverlayDigest),
      ("relocation rollback", digestOverlayWrites H before, state.relocationRollbackDigest),
      ("staging rollback", digestOverlayWrites H (stagingRollbackWrites before state.writes),
        state.stagingRollbackDigest),
      ("preactivation rollback",
        digestOverlayWrites H (preactivationRollbackWrites before state.writes),
        state.preactivationRollbackDigest),
      ("full rollback", digestOverlayWrites H (fullRollbackWrites before state.writes),
        state.fullRollbackDigest)]
  ensure (digestPlan H state.preflight state.targetFilesystem state.targetFeatures
    state.reservations state.layout state.writes state.sourceGraphDigest state.targetGraphDigest
    before = state.planDigest) (.commitmentMismatch "plan")
  ensure (digestSourceIdentity H state.preflight state.sourceGraphDigest =
    state.identity.sourceDigest) (.commitmentMismatch "source identity")

def validateState (state : EnvelopeState) (limits : PreparedEnvelopeLimits) : Enveloped Unit := do
  validateShape state limits
  validateRecovery state limits
  validateCommitments H state

end Digests

/-! ## What the checks say -/

theorem validateWrite_ok_iff {section_ : ℕ} {write : OverlayWrite} {u : Unit} :
    validateWrite section_ write = .ok u ↔
      write.bytes.length ≠ 0 ∧ write.offset + write.bytes.length < wordBound := by
  simp [validateWrite]

theorem validateRange_ok_iff {range : ByteRange} {u : Unit} :
    validateRange range = .ok u ↔ range.length ≠ 0 ∧ range.stop < wordBound := by
  simp [validateRange, Span.stop]

theorem validateReservedWrites_ok_iff {section_ : ℕ} {writes : List ReservedWrite} {u : Unit} :
    validateReservedWrites section_ writes = .ok u ↔
      ensureOrder writes section_ reservedWriteOrderKey = .ok () ∧
        ∀ v ∈ writes, v.write.bytes.length ≠ 0 ∧
          v.write.offset + v.write.bytes.length < wordBound := by
  simp only [validateReservedWrites, bind_unit_ok_iff, checkAll_ok_iff, validateWrite_ok_iff]

theorem validateRollbackWrites_ok_iff {section_ : ℕ} {writes : List OverlayWrite} {u : Unit} :
    validateRollbackWrites section_ writes = .ok u ↔
      ensureOrder writes section_ Patch.offset = .ok () ∧
        ∀ v ∈ writes, v.bytes.length ≠ 0 ∧ v.offset + v.bytes.length < wordBound := by
  simp only [validateRollbackWrites, bind_unit_ok_iff, checkAll_ok_iff, validateWrite_ok_iff]

theorem sumRelocations_lt {sum total : ℕ} {relocations : List Relocation}
    (h : sumRelocations sum relocations = .ok total) (hs : sum < wordBound) : total < wordBound := by
  induction relocations generalizing sum with
  | nil =>
    obtain rfl := Except.ok.inj h
    exact hs
  | cons value rest ih =>
    simp only [sumRelocations, bind_ok_iff, ensure_ok_iff, exists_const, orErr_ok_iff,
      checkedAdd_eq_some] at h
    obtain ⟨-, _, ⟨hlt, rfl⟩, h⟩ := h
    exact ih h hlt

theorem largestRange_lt {ranges : List ByteRange} {bound : ℕ} (hb : 0 < bound)
    (h : ∀ r ∈ ranges, r.length < bound) : largestRange ranges < bound := by
  suffices key : ∀ acc, acc < bound → (ranges.map Span.length).foldl max acc < bound from key 0 hb
  induction ranges with
  | nil => exact fun acc hacc => hacc
  | cons r rest ih =>
    intro acc hacc
    rw [List.map_cons, List.foldl_cons]
    exact ih (fun x hx => h x (List.mem_cons_of_mem _ hx)) _ (max_lt hacc (h r List.mem_cons_self))

/-- What the checks without digests leave to the encoder. -/
structure Shaped (state : EnvelopeState) (limits : PreparedEnvelopeLimits) : Prop where
  objectCount_le : state.preflight.sourceManifestCommitment.objectCount ≤ limits.maxEntries
  logicalBytes_le :
    state.preflight.sourceManifestCommitment.logicalBytesHashed ≤ limits.maxLogicalBytes
  entries_le : (entryCounts state).sum ≤ limits.maxEntries
  writeBytes_le : (writeLengths state).sum ≤ limits.maxWriteBytes
  recovery_le : state.recoveryPayload.length ≤ limits.maxRecoveryBytes
  reservations_lt : ∀ v ∈ state.reservations, v.range.stop < wordBound
  free_lt : ∀ v ∈ state.layout.freeAfterStaging, v.stop < wordBound
  relocations_lt : ∀ v ∈ state.layout.relocations,
    v.source.stop < wordBound ∧ v.destination.stop < wordBound
  reservations_order : ensureOrder state.reservations reservationsTag reservationSortKey = .ok ()
  relocations_order :
    ensureOrder state.layout.relocations relocationsTag relocationOrderKey = .ok ()
  free_order : ensureOrder state.layout.freeAfterStaging freeRangesTag rangeOrderKey = .ok ()
  relocatedBytes_lt : state.layout.relocatedBytes < wordBound
  largestFreeRange_lt : state.layout.largestFreeRange < wordBound
  materializations_eq : state.layout.materializations = []
  materializedBytes_eq : state.layout.materializedBytes = 0
  targetStaging : validateReservedWrites targetStagingTag state.writes.targetStaging = .ok ()
  backupBoot : validateReservedWrites backupBootTag state.writes.backupBoot = .ok ()
  activation : validateReservedWrites activationTag state.writes.activation = .ok ()
  targetStagingRollback :
    validateRollbackWrites targetStagingRollbackTag state.writes.targetStagingRollback = .ok ()
  backupBootRollback :
    validateRollbackWrites backupBootRollbackTag state.writes.backupBootRollback = .ok ()
  activationRollback :
    validateRollbackWrites activationRollbackTag state.writes.activationRollback = .ok ()
  beforeImages : validateRollbackWrites relocationDestinationRollbackTag
    state.relocationDestinationBeforeImages = .ok ()
  features : validateTargetFeatures state.targetFeatures = .ok ()

theorem shaped_of_validateShape {state : EnvelopeState} {limits : PreparedEnvelopeLimits} {u : Unit}
    (h : validateShape state limits = .ok u) : Shaped state limits := by
  simp only [validateShape, validateCountsAndBytes, validateRanges, bind_unit_ok_iff] at h
  simp only [bind_ok_iff, ensure_ok_iff, exists_const, sumChecked_ok_iff wordBound_pos, Nat.zero_add,
    checkAll_ok_iff, validateRange_ok_iff] at h
  obtain ⟨-, -, -, ⟨_, ⟨-, rfl⟩, hentries, _, ⟨-, rfl⟩, hwrites, hrecovery⟩, ⟨hranges, hro, hlo, hfo,
    _, hsum, hmat, ⟨rfl, hlargest⟩, _, hts, _, hbb, _, hac, _, htr, _, hbr, _, har, hbi⟩, hfeatures, -, -, -, -,
    hobjects, hlogical⟩ := h
  have hreservations : ∀ v ∈ state.reservations, v.range.stop < wordBound := fun v hv =>
    (hranges v.range (List.mem_append_left _ (List.mem_append_left _ (List.mem_map_of_mem hv)))).2
  have hfree : ∀ v ∈ state.layout.freeAfterStaging, v.stop < wordBound := fun v hv =>
    (hranges v (List.mem_append_left _ (List.mem_append_right _ hv))).2
  have hrelocations : ∀ v ∈ state.layout.relocations,
      v.source.stop < wordBound ∧ v.destination.stop < wordBound := by
    intro v hv
    have hmem : ∀ r ∈ [v.source, v.destination], r ∈ state.layout.relocations.flatMap fun value =>
        [value.source, value.destination] := fun r hr => List.mem_flatMap.2 ⟨v, hv, hr⟩
    exact ⟨(hranges _ (List.mem_append_right _ (hmem _ (by simp)))).2,
      (hranges _ (List.mem_append_right _ (hmem _ (by simp)))).2⟩
  refine ⟨hobjects, hlogical, hentries, hwrites, hrecovery, hreservations, hfree, hrelocations, hro,
    hlo, hfo, sumRelocations_lt hsum wordBound_pos, ?_, hmat.1, hmat.2, hts, hbb, hac, htr, hbr, har,
    hbi, hfeatures⟩
  rw [← hlargest]
  refine largestRange_lt wordBound_pos fun r hr => ?_
  have := hfree r hr
  unfold Span.stop at this
  omega

end Envelope

end StarConverter
