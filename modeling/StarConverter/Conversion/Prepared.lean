import StarConverter.Conversion.Digest
import StarConverter.Geometry.Soundness

/-!
# Prepared conversions

`buildWithProjectedTargetGraph` turns a draft into an immutable plan: a solved layout, the write sets
in order, and one rollback overlay per phase boundary. `Prepared` collects what an accepted plan
promises; everything later about plans follows from it.
-/

namespace StarConverter

open Base Geometry Capsule Recovery

structure PreparedConversion where
  identity : CapsuleIdentity
  preflight : PreflightEvidence
  targetFilesystem : FileSystem
  targetFeatures : List FeatureCompatibility
  sourceGraphDigest : Digest
  targetGraphDigest : Digest
  planDigest : Digest
  candidateOverlayDigest : Digest
  relocationRollbackDigest : Digest
  stagingRollbackDigest : Digest
  preactivationRollbackDigest : Digest
  fullRollbackDigest : Digest
  reservations : List DestinationReservation
  layout : LayoutPlan
  writes : OpaqueWriteSets
  candidateOverlay : OverlayPlan
  relocationRollbackOverlay : OverlayPlan
  stagingRollbackOverlay : OverlayPlan
  preactivationRollbackOverlay : OverlayPlan
  fullRollbackOverlay : OverlayPlan
  recoveryPayload : Bytes
  preparedEnvelope : Bytes
  capsuleLimits : CapsuleLimits

namespace PreparedConversion

open Conversion

def validateInitialCapsuleGeneration (payloadBytes : ℕ) (limits : CapsuleLimits) :
    Converted Unit := do
  ensure (payloadBytes ≤ limits.maxGenerationBytes)
    (.capsule (.generationTooLarge payloadBytes limits.maxGenerationBytes))
  let recordBytes ← orErr (checkedAdd (Capsule.headerBytes * 2) payloadBytes) (.capsule .arithmeticOverflow)
  ensure (recordBytes ≤ limits.maxCapsuleBytes)
    (.capsule (.capsuleTooLarge recordBytes limits.maxCapsuleBytes))

section Build

variable (H : Hashing)

/-- The encoder of the durable envelope, up to the conversion of its errors. -/
abbrev EnvelopeEncoder := PreparedConversion → Converted Bytes

def refreshDurableEnvelope (encodePreparedEnvelope : EnvelopeEncoder)
    (prepared : PreparedConversion) : Converted PreparedConversion := do
  let encoded ← encodePreparedEnvelope prepared
  validateInitialCapsuleGeneration encoded.length prepared.capsuleLimits
  pure { prepared with preparedEnvelope := encoded }

/-- The part of the plan that is fixed before anything is encoded. -/
structure Planned where
  target : TargetCapabilities
  reservations : List DestinationReservation
  writes : OpaqueWriteSets
  layout : LayoutPlan
  beforeImages : List OverlayWrite
  candidate : OverlayPlan
  relocationRollback : OverlayPlan
  stagingRollback : OverlayPlan
  preactivationRollback : OverlayPlan
  fullRollback : OverlayPlan

/-- The checks and the layout. -/
def plan (sourceGraph projectedTargetGraph targetGraph : ObjectGraph) (draft : ConversionDraft)
    (relocationDestinationBeforeImages : List OverlayWrite) (limits : ConversionLimits) :
    Converted Planned := do
  validateLimits limits
  let _ ← (scanCapsule H [] limits.capsule).mapError ConversionError.capsule
  ensure (draft.writes.filesystem = draft.target.filesystem)
    (.activationAuthorizationMismatch draft.writes.filesystem draft.target.filesystem)
  validatePreflight sourceGraph draft.preflight draft.target.filesystem
  let target ← validateFeatures sourceGraph draft.target limits.maxFeatureRules
  validateSourceAllocations sourceGraph draft.sourceAllocations
  validateRequiredReservations draft.reservations
  validateWriteCaps draft.writes.writes limits
  let reservations := sortByKey reservationSortKey draft.reservations
  let writes := sortWrites draft.writes.writes
  validateWritesAgainstReservations writes reservations
  validateRollbackPairing writes
  let (liveAllocations, stagingExclusions) :=
    partitionSourceAllocations sourceGraph draft.sourceAllocations
  let layout ← (solveLayoutWithStagingExclusionsAndIoAlignment draft.preflight.image.imageBytes
    draft.preflight.allocationAlignment draft.preflight.sectorBytes liveAllocations reservations
    stagingExclusions limits.layout).mapError ConversionError.layout
  ensure (layout.materializations = []) .inPlaceMaterializationUnsupported
  let relocatedTarget ← (relocateObjectGraph projectedTargetGraph layout).mapError
    ConversionError.relocatedGraph
  ensure (relocatedTarget.root = targetGraph.root ∧ relocatedTarget.objects = targetGraph.objects ∧
    relocatedTarget.entries = targetGraph.entries ∧ relocatedTarget.extents = targetGraph.extents)
    .targetGraphMismatch
  let beforeImages ← validateRelocationBeforeImages layout relocationDestinationBeforeImages writes
    limits
  let overlay := fun writes => (OverlayPlan.build draft.preflight.image.imageBytes
    draft.preflight.sectorBytes writes limits.overlay).mapError ConversionError.overlay
  let candidate ← overlay (finalWrites writes)
  let relocationRollback ← overlay beforeImages
  let stagingRollback ← overlay (stagingRollbackWrites beforeImages writes)
  let preactivationRollback ← overlay (preactivationRollbackWrites beforeImages writes)
  let fullRollback ← overlay (fullRollbackWrites beforeImages writes)
  pure ⟨target, reservations, writes, layout, beforeImages, candidate, relocationRollback,
    stagingRollback, preactivationRollback, fullRollback⟩

/-- The record of a plan, without its envelope. -/
def sealPlan (sourceGraph targetGraph : ObjectGraph) (draft : ConversionDraft)
    (limits : ConversionLimits) (p : Planned) : Converted PreparedConversion := do
  let sourceGraphDigest := digestGraph H sourceGraph
  let targetGraphDigest := digestGraph H targetGraph
  let planDigest := digestPlan H draft.preflight draft.target.filesystem p.target.features
    p.reservations p.layout p.writes sourceGraphDigest targetGraphDigest p.beforeImages
  let recoveryPayload ← (encodeRecoveryBundle
    { planDigest := planDigest
      relocationDestinations := p.beforeImages
      targetStaging := p.writes.targetStagingRollback
      backupBoot := p.writes.backupBootRollback
      activation := p.writes.activationRollback }
    ⟨limits.maxTotalWrites, limits.maxTotalWriteBytes⟩).mapError ConversionError.recovery
  pure
    { identity :=
        { transactionId := draft.transactionId
          sourceDigest := digestSourceIdentity H draft.preflight sourceGraphDigest }
      preflight := draft.preflight
      targetFilesystem := draft.target.filesystem
      targetFeatures := p.target.features
      sourceGraphDigest := sourceGraphDigest
      targetGraphDigest := targetGraphDigest
      planDigest := planDigest
      candidateOverlayDigest := digestOverlayWrites H p.candidate.writes
      relocationRollbackDigest := digestOverlayWrites H p.relocationRollback.writes
      stagingRollbackDigest := digestOverlayWrites H p.stagingRollback.writes
      preactivationRollbackDigest := digestOverlayWrites H p.preactivationRollback.writes
      fullRollbackDigest := digestOverlayWrites H p.fullRollback.writes
      reservations := p.reservations
      layout := p.layout
      writes := p.writes
      candidateOverlay := p.candidate
      relocationRollbackOverlay := p.relocationRollback
      stagingRollbackOverlay := p.stagingRollback
      preactivationRollbackOverlay := p.preactivationRollback
      fullRollbackOverlay := p.fullRollback
      recoveryPayload := recoveryPayload
      preparedEnvelope := []
      capsuleLimits := limits.capsule }

def buildWithProjectedTargetGraph (encodePreparedEnvelope : EnvelopeEncoder)
    (sourceGraph projectedTargetGraph targetGraph : ObjectGraph) (draft : ConversionDraft)
    (relocationDestinationBeforeImages : List OverlayWrite) (limits : ConversionLimits) :
    Converted PreparedConversion := do
  let planned ← plan H sourceGraph projectedTargetGraph targetGraph draft
    relocationDestinationBeforeImages limits
  let prepared ← sealPlan H sourceGraph targetGraph draft limits planned
  refreshDurableEnvelope encodePreparedEnvelope prepared

end Build

end PreparedConversion

end StarConverter
