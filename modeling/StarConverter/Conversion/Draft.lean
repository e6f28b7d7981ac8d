import StarConverter.Capsule.Scan
import StarConverter.Executor
import StarConverter.Geometry.Relocate
import StarConverter.Recovery

/-!
# Conversion drafts

The evidence, reservations and write sets a conversion is planned from, and the checks they have to
pass before a layout is solved.
-/

namespace StarConverter

open Base Geometry Capsule Recovery

inductive FileSystem
  | exFat
  | ntfs
  | unknown
  deriving DecidableEq

inductive HealthState
  | clean
  | dirty
  | unknown
  deriving DecidableEq

inductive AccessState
  | offline
  | mounted
  | unknown
  deriving DecidableEq

/-- Commitment to a verification manifest. -/
structure ManifestCommitment where
  digest : Digest
  logicalBytesHashed : ℕ
  objectCount : ℕ
  deriving DecidableEq

/-- Facts established before a conversion is coordinated. -/
structure PreflightEvidence where
  image : ImageIdentity
  sourceFilesystem : FileSystem
  sourceEvidenceDigest : Digest
  sourceManifestCommitment : ManifestCommitment
  sectorBytes : ℕ
  allocationAlignment : ℕ
  inventoryComplete : Bool
  allocationMapComplete : Bool
  health : HealthState
  access : AccessState
  deriving DecidableEq

inductive PreservationMethod
  | native
  | escrow (schemaVersion : ℕ) (payloadDigest : Digest)
  deriving DecidableEq

structure FeatureCompatibility where
  feature : SemanticFeature
  method : PreservationMethod
  deriving DecidableEq

structure TargetCapabilities where
  filesystem : FileSystem
  features : List FeatureCompatibility
  deriving DecidableEq

/-- A write bound to the kind of reservation that authorizes its range. -/
structure ReservedWrite where
  reservationKind : ReservationKind
  write : OverlayWrite
  deriving DecidableEq

/-- Writes grouped by durability boundary, with the source bytes that restore each range. -/
structure OpaqueWriteSets where
  targetStaging : List ReservedWrite
  backupBoot : List ReservedWrite
  activation : List ReservedWrite
  targetStagingRollback : List OverlayWrite
  backupBootRollback : List OverlayWrite
  activationRollback : List OverlayWrite
  deriving DecidableEq

/-- Writes authorized by a serializer for one file system. -/
structure ActivationAuthorizedWrites where
  filesystem : FileSystem
  writes : OpaqueWriteSets
  deriving DecidableEq

structure ConversionDraft where
  transactionId : FixedBytes 16
  preflight : PreflightEvidence
  target : TargetCapabilities
  sourceAllocations : List SourceAllocation
  reservations : List DestinationReservation
  writes : ActivationAuthorizedWrites
  deriving DecidableEq

structure ConversionLimits where
  layout : LayoutLimits
  overlay : OverlayLimits
  capsule : CapsuleLimits
  maxFeatureRules : ℕ
  maxTotalWrites : ℕ
  maxTotalWriteBytes : ℕ

inductive ConversionError
  | invalidLimit (field : String)
  | unknownFilesystem
  | sameFilesystem
  | activationAuthorizationMismatch (authorized target : FileSystem)
  | imageLengthMismatch (graph evidence : ℕ)
  | inventoryIncomplete
  | allocationMapIncomplete
  | healthNotClean (actual : HealthState)
  | accessNotOffline (actual : AccessState)
  | invalidSectorSize (sectorBytes : ℕ)
  | invalidAlignment (alignment : ℕ)
  | featureRuleLimitExceeded (actual maximum : ℕ)
  | duplicateFeatureRule (feature : SemanticFeature)
  | missingFeatureRule (feature : SemanticFeature)
  | featureNotPresent (feature : SemanticFeature)
  | unsupportedNativeFeature (feature : SemanticFeature) (target : FileSystem)
  | invalidEscrowRule (feature : SemanticFeature)
  | missingGraphAllocation (stream : StreamId) (logicalOffset : ℕ)
  | unsafeMovableAllocation (stream : StreamId) (logicalOffset : ℕ)
  | missingReservation (kind : ReservationKind)
  | writeLimitExceeded (actual maximum : ℕ)
  | writeByteLimitExceeded (actual maximum : ℕ)
  | emptyWriteSet (set : String)
  | writeNotReserved (offset : ℕ) (kind : ReservationKind)
  | invalidWritePhase (set : String) (kind : ReservationKind)
  | rollbackRangeMismatch
  | relocationBeforeImageRangeMismatch
  | inPlaceMaterializationUnsupported
  | targetGraphMismatch
  | capsuleAlreadyStarted
  | capsuleNotStarted
  | legacyCapsuleRollbackOnly
  | envelopeRaisesCapsuleLimits
  | transactionIdentityChanged
  | imageIdentityChanged
  | staleSourceEvidence
  | planChanged
  | terminalPhase (phase : TransactionPhase)
  | unexpectedPhase (expected actual : TransactionPhase)
  | verificationRequired
  | stagingVerificationRequired
  | unexpectedStagingVerificationEvidence
  | stagingVerificationNotExpected (phase : TransactionPhase)
  | stagingVerificationIncomplete
  | stagingVerificationMismatch
  | unexpectedVerificationEvidence
  | invalidExecutionEvidence
  | verificationInventoryIncomplete
  | verificationMismatch
  | rollbackBoundaryCrossed (phase : TransactionPhase)
  | invalidRollbackEvidence
  | arithmeticOverflow
  | layout (error : LayoutError)
  | relocatedGraph (error : RelocatedGraphError)
  | overlay (error : OverlayError)
  | capsule (error : CapsuleError)
  | recovery (error : RecoveryError)
  | preparedEnvelopeInvalid
  deriving DecidableEq

abbrev Converted (α : Type) := Except ConversionError α

namespace Conversion

/-! ## Keys -/

def featureKey : SemanticFeature → ℕ
  | .accessControl => 0
  | .alternateDataStreams => 1
  | .compression => 2
  | .encryptedFiles => 3
  | .hardLinks => 4
  | .reparsePoints => 5
  | .sparseFiles => 6
  | .caseCollisions => 7

def reservationKindKey : ReservationKind → ℕ
  | .bootRegion => 0
  | .allocationMetadata => 1
  | .namespaceMetadata => 2
  | .journal => 3
  | .capsule => 4
  | .other => 5

def filesystemKey : FileSystem → ℕ
  | .exFat => 0
  | .ntfs => 1
  | .unknown => 2

def reservationSortKey (value : DestinationReservation) : ℕ ×ₗ ℕ ×ₗ ℕ :=
  toLex (value.range.offset, toLex (value.range.length, reservationKindKey value.kind))

def reservedWriteSortKey (value : ReservedWrite) : ℕ ×ₗ ℕ ×ₗ ℕ :=
  toLex (value.write.offset,
    toLex (value.write.bytes.length, reservationKindKey value.reservationKind))

/-! ## Checks -/

def validateLimits (limits : ConversionLimits) : Converted Unit :=
  checkAll (fun field => ensure (field.2 ≠ 0) (.invalidLimit field.1))
    [("max_feature_rules", limits.maxFeatureRules), ("max_total_writes", limits.maxTotalWrites),
      ("max_total_write_bytes", limits.maxTotalWriteBytes)]

def requireCleanOffline (health : HealthState) (access : AccessState) : Converted Unit := do
  ensure (health = .clean) (.healthNotClean health)
  ensure (access = .offline) (.accessNotOffline access)

def validatePreflight (graph : ObjectGraph) (evidence : PreflightEvidence) (target : FileSystem) :
    Converted Unit := do
  ensure (evidence.sourceFilesystem ≠ .unknown ∧ target ≠ .unknown) .unknownFilesystem
  ensure (evidence.sourceFilesystem ≠ target) .sameFilesystem
  ensure (graph.extents.volumeBytes = evidence.image.imageBytes)
    (.imageLengthMismatch graph.extents.volumeBytes evidence.image.imageBytes)
  ensure (evidence.inventoryComplete = true) .inventoryIncomplete
  ensure (evidence.allocationMapComplete = true) .allocationMapIncomplete
  requireCleanOffline evidence.health evidence.access
  ensure (isPowerOfTwo evidence.sectorBytes) (.invalidSectorSize evidence.sectorBytes)
  ensure (isPowerOfTwo evidence.allocationAlignment) (.invalidAlignment evidence.allocationAlignment)
  ensure (evidence.allocationAlignment % evidence.sectorBytes = 0)
    (.invalidAlignment evidence.allocationAlignment)

def nativeFeature (target : FileSystem) (feature : SemanticFeature) : Bool :=
  decide (target = .ntfs ∧ feature ≠ .caseCollisions)

def validateFeatureRule (target : FileSystem) (features : List FeatureCompatibility)
    (feature : SemanticFeature) : Converted Unit := do
  let rule ← orErr (features.find? fun rule => rule.feature = feature) (.missingFeatureRule feature)
  match rule.method with
  | .native => ensure (nativeFeature target feature = true) (.unsupportedNativeFeature feature target)
  | .escrow schemaVersion payloadDigest =>
    ensure (¬ (schemaVersion = 0 ∨ payloadDigest.1 = List.replicate 32 0))
      (.invalidEscrowRule feature)

/-- The rules in the order of their features. -/
def validateFeatures (graph : ObjectGraph) (target : TargetCapabilities) (maximum : ℕ) :
    Converted TargetCapabilities := do
  ensure (target.features.length ≤ maximum)
    (.featureRuleLimitExceeded target.features.length maximum)
  let features := sortByKey (fun rule : FeatureCompatibility => featureKey rule.feature)
    target.features
  checkPairs (fun first second => ensure (first.feature ≠ second.feature)
    (.duplicateFeatureRule first.feature)) features
  checkAll (validateFeatureRule target.filesystem features) graph.features
  checkAll (fun rule => ensure (rule.feature ∈ graph.features) (.featureNotPresent rule.feature))
    features
  pure { target with features := features }

/-- The allocation names exactly this extent. -/
def allocates (allocation : SourceAllocation) (extent : Extent) : Prop :=
  allocation.stream = extent.stream ∧ allocation.logicalOffset = extent.logicalOffset ∧
    some allocation.range = extent.physical?

instance (allocation : SourceAllocation) (extent : Extent) :
    Decidable (allocates allocation extent) := inferInstanceAs (Decidable (_ ∧ _ ∧ _))

def validateExtentAllocation (allocations : List SourceAllocation) (extent : Extent) :
    Converted Unit :=
  if extent.placement.isPhysical = true then do
    let matched ← orErr (allocations.find? fun allocation => allocates allocation extent)
      (.missingGraphAllocation extent.stream extent.logicalOffset)
    ensure (¬ (matched.movable = true ∧ extent.kind ≠ .fileData))
      (.unsafeMovableAllocation extent.stream extent.logicalOffset)
  else pure ()

def validateSourceAllocations (graph : ObjectGraph) (allocations : List SourceAllocation) :
    Converted Unit := do
  checkAll (validateExtentAllocation allocations) graph.extents.extents
  checkAll (fun allocation => ensure (∃ extent ∈ graph.extents.extents,
      allocates allocation extent ∧ extent.kind = .fileData)
    (.unsafeMovableAllocation allocation.stream allocation.logicalOffset))
    (allocations.filter fun allocation => allocation.movable = true)

def isGraphAllocation (graph : ObjectGraph) (allocation : SourceAllocation) : Prop :=
  ∃ extent ∈ graph.extents.extents, allocates allocation extent

instance (graph : ObjectGraph) (allocation : SourceAllocation) :
    Decidable (isGraphAllocation graph allocation) :=
  inferInstanceAs (Decidable (∃ extent ∈ graph.extents.extents, allocates allocation extent))

/-- Content of the graph, and the ranges of retired file-system metadata. -/
def partitionSourceAllocations (graph : ObjectGraph) (allocations : List SourceAllocation) :
    List SourceAllocation × List ByteRange :=
  (allocations.filter fun allocation => isGraphAllocation graph allocation,
    (allocations.filter fun allocation => ¬ isGraphAllocation graph allocation).map
      SourceAllocation.range)

def validateRequiredReservations (reservations : List DestinationReservation) : Converted Unit :=
  checkAll (fun kind => ensure (∃ reservation ∈ reservations, reservation.kind = kind)
    (.missingReservation kind)) [.bootRegion, .allocationMetadata, .namespaceMetadata]

/-- The sizes of all write sets, forward sets first. -/
def OpaqueWriteSets.lengths (writes : OpaqueWriteSets) : List ℕ :=
  [writes.targetStaging.length, writes.backupBoot.length, writes.activation.length,
    writes.targetStagingRollback.length, writes.backupBootRollback.length,
    writes.activationRollback.length]

def forwardWrites (writes : OpaqueWriteSets) : List ReservedWrite :=
  writes.targetStaging ++ writes.backupBoot ++ writes.activation

def rollbackWrites (writes : OpaqueWriteSets) : List OverlayWrite :=
  writes.targetStagingRollback ++ writes.backupBootRollback ++ writes.activationRollback

def validateWriteCaps (writes : OpaqueWriteSets) (limits : ConversionLimits) : Converted Unit := do
  checkAll (fun set => ensure (set.2 ≠ 0) (.emptyWriteSet set.1))
    [("target_staging", writes.targetStaging.length), ("backup_boot", writes.backupBoot.length),
      ("activation", writes.activation.length),
      ("target_staging_rollback", writes.targetStagingRollback.length),
      ("backup_boot_rollback", writes.backupBootRollback.length),
      ("activation_rollback", writes.activationRollback.length)]
  let count ← sumChecked ConversionError.arithmeticOverflow 0 (OpaqueWriteSets.lengths writes)
  ensure (count ≤ limits.maxTotalWrites) (.writeLimitExceeded count limits.maxTotalWrites)
  let forward ← sumChecked ConversionError.arithmeticOverflow 0
    ((forwardWrites writes).map fun item => item.write.bytes.length)
  let rollback ← sumChecked ConversionError.arithmeticOverflow 0
    ((rollbackWrites writes).map fun item => item.bytes.length)
  let bytes ← orErr (checkedAdd forward rollback) .arithmeticOverflow
  ensure (bytes ≤ limits.maxTotalWriteBytes)
    (.writeByteLimitExceeded bytes limits.maxTotalWriteBytes)

/-- A write may claim the reservation kinds of its set only, and lies inside one reservation of its
kind. -/
def validateReservedWrite (reservations : List DestinationReservation) (set : String)
    (allowed : ReservationKind → Prop) [DecidablePred allowed] (value : ReservedWrite) :
    Converted Unit := do
  ensure (allowed value.reservationKind) (.invalidWritePhase set value.reservationKind)
  let writeEnd ← orErr (checkedAdd value.write.offset value.write.bytes.length) .arithmeticOverflow
  ensure (∃ reservation ∈ reservations, reservation.kind = value.reservationKind ∧
      reservation.range.offset ≤ value.write.offset ∧
      reservation.range.stop < wordBound ∧ writeEnd ≤ reservation.range.stop)
    (.writeNotReserved value.write.offset value.reservationKind)

def stagingKind (kind : ReservationKind) : Prop := kind ≠ .bootRegion ∧ kind ≠ .capsule

def bootKind (kind : ReservationKind) : Prop := kind = .bootRegion

instance : DecidablePred stagingKind := fun _ => inferInstanceAs (Decidable (_ ∧ _))

instance : DecidablePred bootKind := fun _ => inferInstanceAs (Decidable (_ = _))

def validateWritesAgainstReservations (writes : OpaqueWriteSets)
    (reservations : List DestinationReservation) : Converted Unit := do
  checkAll (validateReservedWrite reservations "target_staging" stagingKind) writes.targetStaging
  checkAll (validateReservedWrite reservations "backup_boot" bootKind) writes.backupBoot
  checkAll (validateReservedWrite reservations "activation" bootKind) writes.activation

def rangeKey (write : OverlayWrite) : ℕ ×ₗ ℕ := toLex (write.offset, write.bytes.length)

/-- Both groups cover the same ranges. -/
def validatePairing (forward : List ReservedWrite) (rollback : List OverlayWrite) : Converted Unit :=
  ensure (sortByKey id (forward.map fun value => rangeKey value.write) =
    sortByKey id (rollback.map rangeKey)) .rollbackRangeMismatch

def validateRollbackPairing (writes : OpaqueWriteSets) : Converted Unit := do
  validatePairing writes.targetStaging writes.targetStagingRollback
  validatePairing writes.backupBoot writes.backupBootRollback
  validatePairing writes.activation writes.activationRollback

/-- The before-images name exactly the destinations of the relocations, in order. -/
def validateRelocationBeforeImageRanges (layout : LayoutPlan) (beforeImages : List OverlayWrite) :
    Converted Unit :=
  ensure (beforeImages.map rangeKey = sortByKey id (layout.relocations.map fun relocation =>
    toLex (relocation.destination.offset, relocation.destination.length)))
    .relocationBeforeImageRangeMismatch

/-- The before-images, ordered, one for each relocation destination. -/
def validateRelocationBeforeImages (layout : LayoutPlan) (beforeImages : List OverlayWrite)
    (writes : OpaqueWriteSets) (limits : ConversionLimits) : Converted (List OverlayWrite) := do
  let ordered := sortByKey Patch.offset beforeImages
  validateRelocationBeforeImageRanges layout ordered
  let count ← sumChecked ConversionError.arithmeticOverflow 0
    (OpaqueWriteSets.lengths writes ++ [ordered.length])
  ensure (count ≤ limits.maxTotalWrites) (.writeLimitExceeded count limits.maxTotalWrites)
  let bytes ← sumChecked ConversionError.arithmeticOverflow 0
    ((forwardWrites writes).map (fun item => item.write.bytes.length) ++
      (rollbackWrites writes ++ ordered).map fun item => item.bytes.length)
  ensure (bytes ≤ limits.maxTotalWriteBytes)
    (.writeByteLimitExceeded bytes limits.maxTotalWriteBytes)
  pure ordered

/-- The write sets in the order of the plan. -/
def sortWrites (writes : OpaqueWriteSets) : OpaqueWriteSets :=
  { targetStaging := sortByKey reservedWriteSortKey writes.targetStaging
    backupBoot := sortByKey reservedWriteSortKey writes.backupBoot
    activation := sortByKey reservedWriteSortKey writes.activation
    targetStagingRollback := sortByKey Patch.offset writes.targetStagingRollback
    backupBootRollback := sortByKey Patch.offset writes.backupBootRollback
    activationRollback := sortByKey Patch.offset writes.activationRollback }

def stagingRollbackWrites (relocation : List OverlayWrite) (writes : OpaqueWriteSets) :
    List OverlayWrite :=
  relocation ++ writes.targetStagingRollback

def preactivationRollbackWrites (relocation : List OverlayWrite) (writes : OpaqueWriteSets) :
    List OverlayWrite :=
  stagingRollbackWrites relocation writes ++ writes.backupBootRollback

def fullRollbackWrites (relocation : List OverlayWrite) (writes : OpaqueWriteSets) :
    List OverlayWrite :=
  preactivationRollbackWrites relocation writes ++ writes.activationRollback

def finalWrites (writes : OpaqueWriteSets) : List OverlayWrite :=
  (forwardWrites writes).map ReservedWrite.write

end Conversion

end StarConverter
