import StarConverter.Conversion.Envelope

/-!
# Checkpoints of a prepared conversion

What the plan appends to its capsule and what it reads back from one: the phase reached, the next
intent, the conservative rollback of a phase, and the plan itself (`fromRestartCapsule`).
-/

namespace StarConverter

open Base Geometry Capsule Recovery Conversion

structure ObservedImage where
  image : ImageIdentity
  sourceEvidenceDigest : Option Digest
  deriving DecidableEq

structure ExpectedVerification where
  targetFilesystem : FileSystem
  objectGraphDigest : Digest
  planDigest : Digest
  deriving DecidableEq

structure ExpectedStagingVerification where
  targetFilesystem : FileSystem
  objectGraphDigest : Digest
  planDigest : Digest
  candidateOverlayDigest : Digest
  deriving DecidableEq

structure StagingVerificationEvidence where
  targetFilesystem : FileSystem
  parserValidated : Bool
  inventoryComplete : Bool
  objectGraphDigest : Digest
  planDigest : Digest
  candidateOverlayDigest : Digest
  deriving DecidableEq

structure PhaseCompletion where
  image : ImageIdentity
  planDigest : Digest
  health : HealthState
  access : AccessState
  deriving DecidableEq

structure VerificationEvidence where
  targetFilesystem : FileSystem
  inventoryComplete : Bool
  objectGraphDigest : Digest
  planDigest : Digest
  deriving DecidableEq

structure RollbackCompletion where
  image : ImageIdentity
  planDigest : Digest
  appliedRollbackDigest : Option Digest
  health : HealthState
  access : AccessState
  deriving DecidableEq

/-- The next operation outside the plan. -/
inductive TransactionIntent
  | reserve (reservations : List DestinationReservation)
  | relocate (relocations : List Relocation)
  | stageTarget (writes : List ReservedWrite)
  | writeBackupBoot (writes : List ReservedWrite)
  | verifyStaging (expected : ExpectedStagingVerification)
  | activate (writes : List ReservedWrite)
  | verify (expected : ExpectedVerification)
  | finalize
  | none
  deriving DecidableEq

inductive RollbackIntent
  | discardStaging
  | restoreSource (writes : List OverlayWrite) (digest : Digest)
  deriving DecidableEq

structure ResumePoint where
  generation : UInt64
  phase : TransactionPhase
  next : TransactionIntent
  deriving DecidableEq

/-- Executor evidence of one completed group. -/
structure ExecutedIntent where
  evidence : ExecutionEvidence
  planDigest : Digest
  imageInstance : Digest
  completedPhase : TransactionPhase

inductive RollbackOutcome
  | stagingDiscarded
  | sourceRestored (evidence : ExecutionEvidence)

/-- Executor evidence of a completed rollback. -/
structure ExecutedRollback where
  outcome : RollbackOutcome
  planDigest : Digest
  imageInstance : Digest
  rollbackDigest : Option Digest

def nextPhase : TransactionPhase → Option TransactionPhase
  | .discovered => some .reserved
  | .reserved => some .relocating
  | .relocating => some .targetStaged
  | .targetStaged => some .backupBootWritten
  | .backupBootWritten => some .activated
  | .activated => some .verified
  | .verified => some .finalized
  | .finalized => none
  | .rolledBack => none

def phaseRequiresSourceEvidence (phase : TransactionPhase) : Prop :=
  phase = .discovered ∨ phase = .reserved ∨ phase = .relocating ∨ phase = .targetStaged ∨
    phase = .backupBootWritten

instance : DecidablePred phaseRequiresSourceEvidence := fun _ =>
  inferInstanceAs (Decidable (_ ∨ _ ∨ _ ∨ _ ∨ _))

namespace PreparedConversion

variable (H : Hashing) (p : PreparedConversion)

def checkpointMagic : Bytes := ascii "SCORCH1\x00"

def checkpointPayload : Bytes := checkpointMagic ++ p.planDigest.1

def expectedVerification : ExpectedVerification :=
  ⟨p.targetFilesystem, p.targetGraphDigest, p.planDigest⟩

def expectedStagingVerification : ExpectedStagingVerification :=
  ⟨p.targetFilesystem, p.targetGraphDigest, p.planDigest, p.candidateOverlayDigest⟩

def intentAfter : TransactionPhase → TransactionIntent
  | .discovered => .reserve p.reservations
  | .reserved => .relocate p.layout.relocations
  | .relocating => .stageTarget p.writes.targetStaging
  | .targetStaged => .verifyStaging p.expectedStagingVerification
  | .backupBootWritten => .activate p.writes.activation
  | .activated => .verify p.expectedVerification
  | .verified => .finalize
  | .finalized => .none
  | .rolledBack => .none

/-- The rollback of a durable phase. It also covers the group that may be torn next. -/
def rollbackIntent (phase : TransactionPhase) : Converted RollbackIntent :=
  match phase with
  | .discovered => pure .discardStaging
  | .reserved =>
    if p.layout.relocations = [] then pure .discardStaging
    else pure (.restoreSource p.relocationRollbackOverlay.writes p.relocationRollbackDigest)
  | .relocating => pure (.restoreSource p.stagingRollbackOverlay.writes p.stagingRollbackDigest)
  | .targetStaged =>
    pure (.restoreSource p.preactivationRollbackOverlay.writes p.preactivationRollbackDigest)
  | .backupBootWritten => pure (.restoreSource p.fullRollbackOverlay.writes p.fullRollbackDigest)
  | .activated => pure (.restoreSource p.fullRollbackOverlay.writes p.fullRollbackDigest)
  | .verified => pure (.restoreSource p.fullRollbackOverlay.writes p.fullRollbackDigest)
  | .finalized => .error (.rollbackBoundaryCrossed phase)
  | .rolledBack => .error (.rollbackBoundaryCrossed phase)

/-! ## Evidence -/

def validateObserved (observed : ObservedImage) (requireSource : Prop) [Decidable requireSource] :
    Converted Unit := do
  ensure (observed.image = p.preflight.image) .imageIdentityChanged
  ensure (requireSource → observed.sourceEvidenceDigest = some p.preflight.sourceEvidenceDigest)
    .staleSourceEvidence

def validateCommonCompletion (image : ImageIdentity) (planDigest : Digest) (health : HealthState)
    (access : AccessState) : Converted Unit := do
  ensure (image = p.preflight.image) .imageIdentityChanged
  ensure (planDigest = p.planDigest) .planChanged
  requireCleanOffline health access

def validateCompletion (completion : PhaseCompletion) : Converted Unit :=
  p.validateCommonCompletion completion.image completion.planDigest completion.health
    completion.access

def validateVerification (evidence : VerificationEvidence) : Converted Unit := do
  ensure (evidence.inventoryComplete = true) .verificationInventoryIncomplete
  ensure (evidence.targetFilesystem = p.expectedVerification.targetFilesystem ∧
    evidence.objectGraphDigest = p.expectedVerification.objectGraphDigest ∧
    evidence.planDigest = p.expectedVerification.planDigest) .verificationMismatch

def validateStagingVerification (evidence : StagingVerificationEvidence) : Converted Unit := do
  ensure (evidence.parserValidated = true ∧ evidence.inventoryComplete = true)
    .stagingVerificationIncomplete
  let expected := p.expectedStagingVerification
  ensure (evidence.targetFilesystem = expected.targetFilesystem ∧
    evidence.objectGraphDigest = expected.objectGraphDigest ∧
    evidence.planDigest = expected.planDigest ∧
    evidence.candidateOverlayDigest = expected.candidateOverlayDigest) .stagingVerificationMismatch

/-! ## Capsule operations -/

def recover (capsule : Bytes) (limits : CapsuleLimits) : Converted CapsuleView :=
  (recoverCapsule H capsule limits).mapError ConversionError.capsule

def append (capsule : Bytes) (phase : TransactionPhase) (payload : Bytes) : Converted Bytes :=
  (appendGeneration H capsule p.identity phase payload p.capsuleLimits).mapError
    ConversionError.capsule

/-- Starts a capsule with a `Discovered` checkpoint that holds the envelope. -/
def beginCapsule (capsule : Bytes) (observed : ObservedImage) : Converted Bytes := do
  ensure (capsule = []) .capsuleAlreadyStarted
  p.validateObserved observed True
  p.append H capsule .discovered p.preparedEnvelope

def resumeWithoutObservation (capsule : Bytes) : Converted ResumePoint := do
  let view ← recover H capsule p.capsuleLimits
  let newest ← orErr view.newest .capsuleNotStarted
  ensure (newest.identity = p.identity) .transactionIdentityChanged
  let first ← orErr view.generations.head? .capsuleNotStarted
  ensure (first.payload = p.preparedEnvelope ∨ first.payload = p.recoveryPayload) .planChanged
  ensure (newest.generation ≠ 0 → newest.payload = p.checkpointPayload) .planChanged
  pure ⟨newest.generation, newest.phase, p.intentAfter newest.phase⟩

def isLegacyCapsule (capsule : Bytes) : Converted Bool := do
  let view ← recover H capsule p.capsuleLimits
  let first ← orErr view.generations.head? .capsuleNotStarted
  pure (first.payload = p.recoveryPayload)

/-- The phase reached and the next intent, for an image observed to be the right one. -/
def resume (capsule : Bytes) (observed : ObservedImage) : Converted ResumePoint := do
  let resumed ← p.resumeWithoutObservation H capsule
  let legacy ← p.isLegacyCapsule H capsule
  ensure (legacy = false) .legacyCapsuleRollbackOnly
  p.validateObserved observed (phaseRequiresSourceEvidence resumed.phase)
  pure resumed

def resumeForRollback (capsule : Bytes) (observed : ObservedImage) : Converted ResumePoint := do
  let resumed ← p.resumeWithoutObservation H capsule
  p.validateObserved observed (phaseRequiresSourceEvidence resumed.phase)
  pure resumed

/-- Staging evidence comes with exactly the backup-boot checkpoint. -/
def checkStagingVerification (next : TransactionPhase)
    (evidence : Option StagingVerificationEvidence) : Converted Unit :=
  if next = .backupBootWritten then do
    let evidence ← orErr evidence .stagingVerificationRequired
    p.validateStagingVerification evidence
  else ensure (evidence = none) .unexpectedStagingVerificationEvidence

/-- Verification evidence comes with exactly the verified checkpoint. -/
def checkVerification (next : TransactionPhase) (evidence : Option VerificationEvidence) :
    Converted Unit :=
  if next = .verified then do
    let evidence ← orErr evidence .verificationRequired
    p.validateVerification evidence
  else ensure (evidence = none) .unexpectedVerificationEvidence

/-- Records completion of exactly the next phase, behind the validated part of the capsule. -/
def recordPhase (capsule : Bytes) (observed : ObservedImage) (next : TransactionPhase)
    (completion : PhaseCompletion) (stagingVerification : Option StagingVerificationEvidence)
    (verification : Option VerificationEvidence) : Converted Bytes := do
  let current ← p.resume H capsule observed
  let view ← recover H capsule p.capsuleLimits
  let expected ← orErr (nextPhase current.phase) (.terminalPhase current.phase)
  ensure (next = expected) (.unexpectedPhase expected next)
  p.validateCompletion completion
  p.checkStagingVerification next stagingVerification
  p.checkVerification next verification
  p.append H (capsule.take view.validatedBytes) next p.checkpointPayload

/-- The completion a record call makes of the plan's own evidence. -/
def ownCompletion : PhaseCompletion :=
  ⟨p.preflight.image, p.planDigest, p.preflight.health, p.preflight.access⟩

def recordReservation (capsule : Bytes) (observed : ObservedImage) : Converted Bytes :=
  p.recordPhase H capsule observed .reserved p.ownCompletion none none

def recordExecution (capsule : Bytes) (observed : ObservedImage) (executed : ExecutedIntent)
    (stagingVerification : Option StagingVerificationEvidence) : Converted Bytes := do
  ensure (executed.planDigest = p.planDigest ∧
    executed.imageInstance = p.preflight.image.imageInstance ∧
    executed.evidence.syncDataCompleted = true ∧ executed.evidence.syncAllCompleted = true)
    .invalidExecutionEvidence
  p.recordPhase H capsule observed executed.completedPhase p.ownCompletion stagingVerification none

def recordVerification (capsule : Bytes) (observed : ObservedImage)
    (evidence : VerificationEvidence) : Converted Bytes :=
  p.recordPhase H capsule observed .verified p.ownCompletion none (some evidence)

def recordFinalization (capsule : Bytes) (observed : ObservedImage) : Converted Bytes :=
  p.recordPhase H capsule observed .finalized p.ownCompletion none none

/-- The digest of the restored bytes, as far as the intent restores any. -/
def rollbackDigestOf : RollbackIntent → Option Digest
  | .discardStaging => none
  | .restoreSource _ digest => some digest

def recordRollback (capsule : Bytes) (observed : ObservedImage) (completion : RollbackCompletion) :
    Converted Bytes := do
  let current ← p.resumeForRollback H capsule observed
  p.validateObserved observed True
  let view ← recover H capsule p.capsuleLimits
  let intent ← p.rollbackIntent current.phase
  p.validateCommonCompletion completion.image completion.planDigest completion.health
    completion.access
  ensure (completion.appliedRollbackDigest = rollbackDigestOf intent) .invalidRollbackEvidence
  p.append H (capsule.take view.validatedBytes) .rolledBack p.checkpointPayload

/-- The executor restored and flushed what it says it restored. -/
def rollbackDurable (executed : ExecutedRollback) : Prop :=
  match executed.outcome with
  | .stagingDiscarded => executed.rollbackDigest = none
  | .sourceRestored evidence =>
    evidence.kind = .rollback ∧ evidence.syncDataCompleted = true ∧
      evidence.syncAllCompleted = true ∧ executed.rollbackDigest.isSome = true

instance (executed : ExecutedRollback) : Decidable (rollbackDurable executed) := by
  unfold rollbackDurable
  split <;> infer_instance

def recordExecutedRollback (capsule : Bytes) (observed : ObservedImage)
    (executed : ExecutedRollback) : Converted Bytes := do
  ensure (rollbackDurable executed ∧ executed.planDigest = p.planDigest ∧
    executed.imageInstance = p.preflight.image.imageInstance) .invalidExecutionEvidence
  p.recordRollback H capsule observed
    ⟨p.preflight.image, p.planDigest, executed.rollbackDigest, p.preflight.health,
      p.preflight.access⟩

/-- Reconstructs the plan from a capsule alone. -/
def fromRestartCapsule (capsule : Bytes) (policy : CapsuleLimits) : Converted PreparedConversion := do
  let view ← recover H capsule policy
  let first ← orErr view.generations.head? .capsuleNotStarted
  let decoded ← (Envelope.decodePreparedEnvelope H first.payload .default).mapError
    Envelope.toConversionError
  ensure (decoded.capsuleLimits.maxCapsuleBytes ≤ policy.maxCapsuleBytes ∧
    decoded.capsuleLimits.maxGenerationBytes ≤ policy.maxGenerationBytes ∧
    decoded.capsuleLimits.maxGenerations ≤ policy.maxGenerations) .envelopeRaisesCapsuleLimits
  ensure (first.identity = decoded.identity) .transactionIdentityChanged
  let prepared := { decoded with preparedEnvelope := first.payload }
  let _ ← prepared.resumeWithoutObservation H capsule
  pure prepared

/-- The encoder of `refresh_durable_envelope`. -/
def durableEncoder : EnvelopeEncoder := fun prepared =>
  (Envelope.encodePreparedEnvelope H prepared .default).mapError Envelope.toConversionError

end PreparedConversion

end StarConverter
