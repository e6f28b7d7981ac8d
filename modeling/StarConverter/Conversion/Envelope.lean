import StarConverter.Base.Codec
import StarConverter.Conversion.EnvelopeState

/-!
# The durable encoding of a prepared conversion

A 576-byte header of fixed fields and twelve tagged sections behind it, each with its own digest.
-/

namespace StarConverter

open Base Geometry Capsule Recovery Conversion

namespace Envelope

def magic : Bytes := ascii "SCPREP02"
def version : ℕ := 2
def headerBytes : ℕ := 576
def headerCrcOffset : ℕ := 64
def sectionHeaderBytes : ℕ := 48
def sectionCount : ℕ := 12
def reservedWriteHeaderBytes : ℕ := 24
def rollbackWriteHeaderBytes : ℕ := 16

/-! ## Keys -/

def filesystemByte : FileSystem → Enveloped UInt8
  | .exFat => pure 0
  | .ntfs => pure 1
  | .unknown => .error (.invalidEnum "filesystem" 2)

def decodeFilesystem (value : UInt8) (field : String) : Enveloped FileSystem :=
  if value = 0 then pure .exFat
  else if value = 1 then pure .ntfs
  else .error (.invalidEnum field value)

def healthByte : HealthState → UInt8
  | .clean => 0
  | .dirty => 1
  | .unknown => 2

def decodeHealth (value : UInt8) : Enveloped HealthState :=
  if value = 0 then pure .clean
  else if value = 1 then pure .dirty
  else if value = 2 then pure .unknown
  else .error (.invalidEnum "health" value)

def accessByte : AccessState → UInt8
  | .offline => 0
  | .mounted => 1
  | .unknown => 2

def decodeAccess (value : UInt8) : Enveloped AccessState :=
  if value = 0 then pure .offline
  else if value = 1 then pure .mounted
  else if value = 2 then pure .unknown
  else .error (.invalidEnum "access" value)

def reservationKindByte (kind : ReservationKind) : UInt8 := UInt8.ofNat (reservationKindKey kind)

def decodeReservationKind (value : UInt8) : Enveloped ReservationKind :=
  orErr ([.bootRegion, .allocationMetadata, .namespaceMetadata, .journal, .capsule,
    .other][value.toNat]?) (.invalidEnum "reservation kind" value)

def semanticFeatureByte (feature : SemanticFeature) : UInt8 := UInt8.ofNat (featureKey feature)

def decodeSemanticFeature (value : UInt8) : Enveloped SemanticFeature :=
  orErr ([.accessControl, .alternateDataStreams, .compression, .encryptedFiles, .hardLinks,
    .reparsePoints, .sparseFiles, .caseCollisions][value.toNat]?)
    (.invalidEnum "semantic feature" value)

def flagsByte (inventoryComplete allocationMapComplete : Bool) : UInt8 :=
  (if inventoryComplete = true then 1 else 0) ||| (if allocationMapComplete = true then 2 else 0)

/-! ## Encoding -/

structure EncodedSection where
  tag : ℕ
  count : ℕ
  bytes : Bytes

def encodeRange (value : ByteRange) : Bytes := toLe 8 value.offset ++ toLe 8 value.length

def encodeReservation (value : DestinationReservation) : Bytes :=
  encodeRange value.range ++ [reservationKindByte value.kind] ++ [0, 0, 0, 0, 0, 0, 0]

def encodeRelocation (value : Relocation) : Bytes :=
  toLe 8 value.stream ++ toLe 8 value.logicalOffset ++ encodeRange value.source ++
    encodeRange value.destination

def encodeTargetFeature (value : FeatureCompatibility) : Bytes :=
  [semanticFeatureByte value.feature] ++
    match value.method with
    | .native => [0] ++ toLe 2 0 ++ List.replicate 32 0
    | .escrow schemaVersion payloadDigest => [1] ++ toLe 2 schemaVersion ++ payloadDigest.1

def encodeReservedWrite (value : ReservedWrite) : Bytes :=
  [reservationKindByte value.reservationKind] ++ [0, 0, 0, 0, 0, 0, 0] ++
    toLe 8 value.write.offset ++ toLe 8 value.write.bytes.length ++ value.write.bytes

def encodeRollbackWrite (value : OverlayWrite) : Bytes :=
  toLe 8 value.offset ++ toLe 8 value.bytes.length ++ value.bytes

/-- A section of the encodings of a list; `fixed_section`, `reserved_write_section` and
`rollback_write_section` are this with their own encodings. -/
def listSection {α : Type} (tag : ℕ) (values : List α) (encode : α → Bytes) :
    Enveloped EncodedSection := do
  ensure (values.length < 2 ^ 32) .arithmeticOverflow
  pure ⟨tag, values.length, (values.map encode).flatten⟩

def encodeSections (state : EnvelopeState) : Enveloped (List EncodedSection) := do
  let reservations ← listSection reservationsTag state.reservations encodeReservation
  let relocations ← listSection relocationsTag state.layout.relocations encodeRelocation
  let freeRanges ← listSection freeRangesTag state.layout.freeAfterStaging encodeRange
  let targetStaging ← listSection targetStagingTag state.writes.targetStaging encodeReservedWrite
  let backupBoot ← listSection backupBootTag state.writes.backupBoot encodeReservedWrite
  let activation ← listSection activationTag state.writes.activation encodeReservedWrite
  let targetStagingRollback ← listSection targetStagingRollbackTag
    state.writes.targetStagingRollback encodeRollbackWrite
  let backupBootRollback ← listSection backupBootRollbackTag state.writes.backupBootRollback
    encodeRollbackWrite
  let activationRollback ← listSection activationRollbackTag state.writes.activationRollback
    encodeRollbackWrite
  let recoveryPayload : EncodedSection := ⟨recoveryPayloadTag, 1, state.recoveryPayload⟩
  let targetFeatures ← listSection targetFeaturesTag state.targetFeatures encodeTargetFeature
  let relocationRollback ← listSection relocationDestinationRollbackTag
    state.relocationDestinationBeforeImages encodeRollbackWrite
  pure [reservations, relocations, freeRanges, targetStaging, backupBoot, activation,
    targetStagingRollback, backupBootRollback, activationRollback, recoveryPayload, targetFeatures,
    relocationRollback]

def ensureEnvelopeCap (actual : ℕ) (limits : PreparedEnvelopeLimits) : Enveloped Unit :=
  ensure (actual ≤ limits.maxEnvelopeBytes) (.envelopeTooLarge actual limits.maxEnvelopeBytes)

def validateEnvelopeGeneration (payloadBytes : ℕ) (limits : CapsuleLimits) : Enveloped Unit :=
  (PreparedConversion.validateInitialCapsuleGeneration payloadBytes limits).mapError fun
    | .capsule error => .capsule error
    | _ => .invalidPreparedInvariant

/-- The fields of the header in order of their offsets; zeros are the reserved bytes. -/
def headerFields (state : EnvelopeState) (totalBytes : ℕ) (payloadDigest : Digest)
    (source target : UInt8) (crc : Bytes) : List Bytes :=
  [magic, toLe 2 version, toLe 2 headerBytes, [0, 0, 0, 0], toLe 8 totalBytes,
    toLe 8 (totalBytes - headerBytes), payloadDigest.1, crc, [0, 0, 0, 0],
    state.identity.transactionId.1, state.identity.sourceDigest.1,
    state.preflight.image.imageInstance.1, toLe 8 state.preflight.image.imageBytes,
    state.preflight.sourceEvidenceDigest.1, state.sourceGraphDigest.1, state.planDigest.1,
    state.candidateOverlayDigest.1, state.stagingRollbackDigest.1,
    state.preactivationRollbackDigest.1, state.fullRollbackDigest.1,
    state.preflight.sourceManifestCommitment.digest.1,
    toLe 8 state.preflight.sourceManifestCommitment.logicalBytesHashed,
    toLe 4 state.preflight.sectorBytes, [source], [target], [healthByte state.preflight.health],
    [accessByte state.preflight.access], toLe 8 state.preflight.allocationAlignment,
    [flagsByte state.preflight.inventoryComplete state.preflight.allocationMapComplete],
    [0, 0, 0, 0, 0, 0, 0], toLe 8 state.layout.relocatedBytes, toLe 8 state.layout.largestFreeRange,
    toLe 8 state.capsuleLimits.maxCapsuleBytes, toLe 8 state.capsuleLimits.maxGenerationBytes,
    toLe 8 state.capsuleLimits.maxGenerations, toLe 4 sectionCount,
    toLe 8 state.preflight.sourceManifestCommitment.objectCount, state.targetGraphDigest.1,
    state.relocationRollbackDigest.1, [0, 0, 0, 0, 0, 0, 0, 0, 0, 0, 0, 0]]

section Codec

variable (H : Hashing)

/-- The checksum of a header, taken with the checksum field read as zero. -/
def headerCrc (bytes : Bytes) : UInt32 :=
  H.crc32 (sliceAt bytes 0 headerCrcOffset ++ [0, 0, 0, 0] ++
    sliceAt bytes (headerCrcOffset + 4) (headerBytes - headerCrcOffset - 4))

def encodeHeader (state : EnvelopeState) (totalBytes : ℕ) (payloadDigest : Digest) :
    Enveloped Bytes := do
  let source ← filesystemByte state.preflight.sourceFilesystem
  let target ← filesystemByte state.targetFilesystem
  let fields := headerFields state totalBytes payloadDigest source target
  let crc := headerCrc H (fields [0, 0, 0, 0]).flatten
  pure (fields (toLe 4 crc.toNat)).flatten

def encodeSection (value : EncodedSection) : Bytes :=
  toLe 2 value.tag ++ [0, 0] ++ toLe 4 value.count ++ toLe 8 value.bytes.length ++
    (H.sha256 value.bytes).1 ++ value.bytes

def encodeState (state : EnvelopeState) (limits : PreparedEnvelopeLimits) : Enveloped Bytes := do
  validateLimits limits
  validateState H state limits
  let sections ← encodeSections state
  let payloadBytes ← sumChecked .arithmeticOverflow 0
    (sections.flatMap fun value => [sectionHeaderBytes, value.bytes.length])
  let totalBytes ← orErr (checkedAdd headerBytes payloadBytes) .arithmeticOverflow
  ensureEnvelopeCap totalBytes limits
  validateEnvelopeGeneration totalBytes state.capsuleLimits
  let payload := (sections.map (encodeSection H)).flatten
  let header ← encodeHeader H state totalBytes (H.sha256 payload)
  pure (header ++ payload)

/-- Encodes the plan and the recovery evidence deterministically. -/
def encodePreparedEnvelope (prepared : PreparedConversion) (limits : PreparedEnvelopeLimits) :
    Enveloped Bytes :=
  encodeState H (EnvelopeState.fromPrepared prepared) limits

/-! ## Decoding -/

/-- A little-endian word of `n` bytes at `offset`. -/
def readWord (n : ℕ) (bytes : Bytes) (offset : ℕ) : Enveloped ℕ :=
  orErr (readLe? n bytes offset) .truncated

/-- The `n`-byte array at `offset`. -/
def arrayAt (n : ℕ) (bytes : Bytes) (offset : ℕ) : Enveloped (FixedBytes n) :=
  if h : offset + n ≤ bytes.length then .ok ⟨sliceAt bytes offset n, length_sliceAt_of_le h⟩
  else .error .truncated

def validateHeader (bytes : Bytes) : Enveloped Unit := do
  ensure (sliceAt bytes 0 8 = magic) .invalidMagic
  let version ← readWord 2 bytes 8
  ensure (version = Envelope.version) (.unsupportedVersion version)
  let headerLen ← readWord 2 bytes 10
  ensure (headerLen = headerBytes) (.invalidHeaderLength headerLen)
  ensure (AllZero (sliceAt bytes 12 4 ++ sliceAt bytes 68 4 ++ sliceAt bytes 441 7 ++
    sliceAt bytes 564 12)) .nonZeroReserved
  let crc ← readWord 4 bytes headerCrcOffset
  ensure (crc = (headerCrc H bytes).toNat) .headerCrcMismatch

structure HeaderState where
  identity : CapsuleIdentity
  preflight : PreflightEvidence
  targetFilesystem : FileSystem
  sourceGraphDigest : Digest
  targetGraphDigest : Digest
  planDigest : Digest
  candidateOverlayDigest : Digest
  relocationRollbackDigest : Digest
  stagingRollbackDigest : Digest
  preactivationRollbackDigest : Digest
  fullRollbackDigest : Digest
  relocatedBytes : ℕ
  largestFreeRange : ℕ
  capsuleLimits : CapsuleLimits

def decodeHeader (bytes : Bytes) : Enveloped HeaderState := do
  let flags := bytes.getD 440 0
  ensure (flags &&& ~~~ 0x03 = 0) (.invalidBooleanFlags flags)
  let maxCapsuleBytes ← readWord 8 bytes 464
  let maxGenerationBytes ← readWord 8 bytes 472
  let maxGenerations ← readWord 8 bytes 480
  let transactionId ← arrayAt 16 bytes 72
  let sourceDigest ← arrayAt 32 bytes 88
  let imageInstance ← arrayAt 32 bytes 120
  let imageBytes ← readWord 8 bytes 152
  let sourceFilesystem ← decodeFilesystem (bytes.getD 428 0) "source filesystem"
  let sourceEvidenceDigest ← arrayAt 32 bytes 160
  let manifestDigest ← arrayAt 32 bytes 384
  let logicalBytesHashed ← readWord 8 bytes 416
  let objectCount ← readWord 8 bytes 492
  let sectorBytes ← readWord 4 bytes 424
  let allocationAlignment ← readWord 8 bytes 432
  let health ← decodeHealth (bytes.getD 430 0)
  let access ← decodeAccess (bytes.getD 431 0)
  let targetFilesystem ← decodeFilesystem (bytes.getD 429 0) "target filesystem"
  let sourceGraphDigest ← arrayAt 32 bytes 192
  let targetGraphDigest ← arrayAt 32 bytes 500
  let planDigest ← arrayAt 32 bytes 224
  let candidateOverlayDigest ← arrayAt 32 bytes 256
  let relocationRollbackDigest ← arrayAt 32 bytes 532
  let stagingRollbackDigest ← arrayAt 32 bytes 288
  let preactivationRollbackDigest ← arrayAt 32 bytes 320
  let fullRollbackDigest ← arrayAt 32 bytes 352
  let relocatedBytes ← readWord 8 bytes 448
  let largestFreeRange ← readWord 8 bytes 456
  pure
    { identity := ⟨transactionId, sourceDigest⟩
      preflight :=
        { image := ⟨imageInstance, imageBytes⟩
          sourceFilesystem := sourceFilesystem
          sourceEvidenceDigest := sourceEvidenceDigest
          sourceManifestCommitment := ⟨manifestDigest, logicalBytesHashed, objectCount⟩
          sectorBytes := sectorBytes
          allocationAlignment := allocationAlignment
          inventoryComplete := flags &&& 1 ≠ 0
          allocationMapComplete := flags &&& 2 ≠ 0
          health := health
          access := access }
      targetFilesystem := targetFilesystem
      sourceGraphDigest := sourceGraphDigest
      targetGraphDigest := targetGraphDigest
      planDigest := planDigest
      candidateOverlayDigest := candidateOverlayDigest
      relocationRollbackDigest := relocationRollbackDigest
      stagingRollbackDigest := stagingRollbackDigest
      preactivationRollbackDigest := preactivationRollbackDigest
      fullRollbackDigest := fullRollbackDigest
      relocatedBytes := relocatedBytes
      largestFreeRange := largestFreeRange
      capsuleLimits := ⟨maxCapsuleBytes, maxGenerationBytes, maxGenerations⟩ }

structure SectionMeta where
  tag : ℕ
  count : ℕ
  start : ℕ
  stop : ℕ

/-- Position and running totals of the scan over the sections. -/
structure SectionScan where
  cursor : ℕ
  entries : ℕ
  writeBytes : ℕ

/-- The size of the entry headers of a section of writes. -/
def writeHeaderBytes (tag : ℕ) : Option ℕ :=
  if tag = targetStagingTag ∨ tag = backupBootTag ∨ tag = activationTag then
    some reservedWriteHeaderBytes
  else if tag = targetStagingRollbackTag ∨ tag = backupBootRollbackTag ∨
      tag = activationRollbackTag ∨ tag = relocationDestinationRollbackTag then
    some rollbackWriteHeaderBytes
  else none

def fixedUnit (tag : ℕ) : Option ℕ :=
  if tag = reservationsTag then some 24
  else if tag = relocationsTag then some 48
  else if tag = freeRangesTag then some 16
  else if tag = targetFeaturesTag then some 36
  else none

def validateFixedSectionLen (tag count length : ℕ) : Enveloped Unit :=
  match fixedUnit tag with
  | none => pure ()
  | some unit => ensure (length = count * unit) (.invalidFixedSectionLength tag length)

/-- The entries seen so far, or the bound on the recovery payload. -/
def countSection (limits : PreparedEnvelopeLimits) (tag count length entries : ℕ) : Enveloped ℕ :=
  if tag = recoveryPayloadTag then do
    ensure (count = 1) (.invalidSingletonSection tag count)
    ensure (length ≤ limits.maxRecoveryBytes)
      (.recoveryByteLimitExceeded length limits.maxRecoveryBytes)
    pure entries
  else do
    let entries ← orErr (checkedAdd entries count) .arithmeticOverflow
    ensure (entries ≤ limits.maxEntries) (.entryLimitExceeded entries limits.maxEntries)
    pure entries

/-- The bytes of writes seen so far. -/
def weighSection (limits : PreparedEnvelopeLimits) (tag count length writeBytes : ℕ) :
    Enveloped ℕ :=
  match writeHeaderBytes tag with
  | none => pure writeBytes
  | some headerBytes => do
    let payloadBytes ← orErr (checkedSub length (count * headerBytes))
      (.invalidFixedSectionLength tag length)
    let writeBytes ← orErr (checkedAdd writeBytes payloadBytes) .arithmeticOverflow
    ensure (writeBytes ≤ limits.maxWriteBytes)
      (.writeByteLimitExceeded writeBytes limits.maxWriteBytes)
    pure writeBytes

/-- One section. -/
def scanSection (bytes : Bytes) (limits : PreparedEnvelopeLimits) (expected : ℕ)
    (scan : SectionScan) : Enveloped (SectionMeta × SectionScan) := do
  let headerEnd ← orErr (checkedAdd scan.cursor sectionHeaderBytes) .arithmeticOverflow
  ensure (headerEnd ≤ bytes.length) .truncated
  let tag ← readWord 2 bytes scan.cursor
  ensure (tag = expected) (.unexpectedSection expected tag)
  ensure (AllZero (sliceAt bytes (scan.cursor + 2) 2)) .nonZeroReserved
  let count ← readWord 4 bytes (scan.cursor + 4)
  let length ← readWord 8 bytes (scan.cursor + 8)
  let entries ← countSection limits tag count length scan.entries
  let dataEnd ← orErr (checkedAdd headerEnd length) .arithmeticOverflow
  ensure (dataEnd ≤ bytes.length) .truncated
  let digest ← arrayAt 32 bytes (scan.cursor + 16)
  ensure (H.sha256 (sliceAt bytes headerEnd length) = digest) (.sectionDigestMismatch tag)
  let writeBytes ← weighSection limits tag count length scan.writeBytes
  validateFixedSectionLen tag count length
  pure (⟨tag, count, headerEnd, dataEnd⟩, ⟨dataEnd, entries, writeBytes⟩)

/-- The sections with the expected tags, one behind the other. -/
def scanFrom (bytes : Bytes) (limits : PreparedEnvelopeLimits) :
    List ℕ → SectionScan → Enveloped (List SectionMeta × SectionScan)
  | [], scan => pure ([], scan)
  | expected :: rest, scan => do
    let (entry, scan) ← scanSection H bytes limits expected scan
    let (metas, scan) ← scanFrom bytes limits rest scan
    pure (entry :: metas, scan)

def scanSections (bytes : Bytes) (limits : PreparedEnvelopeLimits) :
    Enveloped (List SectionMeta) := do
  let (metas, scan) ← scanFrom H bytes limits (List.range' 1 sectionCount) ⟨headerBytes, 0, 0⟩
  ensure (scan.cursor = bytes.length) (.invalidTotalLength scan.cursor bytes.length)
  pure metas

def decodeRange (chunk : Bytes) (offset : ℕ) : Enveloped ByteRange := do
  let start ← readWord 8 chunk offset
  let length ← readWord 8 chunk (offset + 8)
  pure ⟨start, length⟩

def decodeReservation (chunk : Bytes) : Enveloped DestinationReservation := do
  ensure (AllZero (sliceAt chunk 17 7)) .nonZeroReserved
  let range ← decodeRange chunk 0
  let kind ← decodeReservationKind (chunk.getD 16 0)
  pure ⟨range, kind⟩

def decodeReservations (bytes : Bytes) : Enveloped (List DestinationReservation) := do
  let output ← decodeEach decodeReservation (chunksExact 24 bytes)
  ensureOrder output reservationsTag reservationSortKey
  pure output

def decodeRelocation (chunk : Bytes) : Enveloped Relocation := do
  let stream ← readWord 8 chunk 0
  let logicalOffset ← readWord 8 chunk 8
  let source ← decodeRange chunk 16
  let destination ← decodeRange chunk 32
  pure ⟨stream, logicalOffset, source, destination⟩

def decodeRelocations (bytes : Bytes) : Enveloped (List Relocation) := do
  let output ← decodeEach decodeRelocation (chunksExact 48 bytes)
  ensureOrder output relocationsTag relocationOrderKey
  pure output

def decodeRanges (bytes : Bytes) : Enveloped (List ByteRange) := do
  let output ← decodeEach (fun chunk => decodeRange chunk 0) (chunksExact 16 bytes)
  ensureOrder output freeRangesTag rangeOrderKey
  pure output

def decodeTargetFeature (chunk : Bytes) : Enveloped FeatureCompatibility := do
  let feature ← decodeSemanticFeature (chunk.getD 0 0)
  let schemaVersion ← readWord 2 chunk 2
  let payloadDigest ← arrayAt 32 chunk 4
  let method := chunk.getD 1 0
  if method = 0 then do
    ensure (schemaVersion = 0 ∧ payloadDigest.1 = List.replicate 32 0) .nonZeroReserved
    pure ⟨feature, .native⟩
  else if method = 1 ∧ schemaVersion ≠ 0 then pure ⟨feature, .escrow schemaVersion payloadDigest⟩
  else .error (.invalidEnum "preservation method" method)

def decodeTargetFeatures (bytes : Bytes) : Enveloped (List FeatureCompatibility) := do
  let output ← decodeEach decodeTargetFeature (chunksExact 36 bytes)
  validateTargetFeatures output
  pure output

/-- The end of the bytes of a write and the write bytes of its section so far. -/
def boundedWriteEnd (bytes : Bytes) (start offset length section_ payload : ℕ)
    (limits : PreparedEnvelopeLimits) : Enveloped (ℕ × ℕ) := do
  ensure (length ≠ 0) (.emptyWrite section_ offset)
  let _ ← orErr (checkedAdd offset length) (.rangeOverflow offset length)
  let payload ← orErr (checkedAdd payload length) .arithmeticOverflow
  ensure (payload ≤ limits.maxWriteBytes) (.writeByteLimitExceeded payload limits.maxWriteBytes)
  let stop ← orErr (checkedAdd start length) .arithmeticOverflow
  ensure (stop ≤ bytes.length) .truncated
  pure (stop, payload)

def readReservedWrite (bytes : Bytes) (section_ : ℕ) (limits : PreparedEnvelopeLimits)
    (cursor payload : ℕ) : Enveloped (ReservedWrite × ℕ × ℕ) := do
  let headerEnd ← orErr (checkedAdd cursor reservedWriteHeaderBytes) .arithmeticOverflow
  ensure (headerEnd ≤ bytes.length) .truncated
  ensure (AllZero (sliceAt bytes (cursor + 1) 7)) .nonZeroReserved
  let offset ← readWord 8 bytes (cursor + 8)
  let length ← readWord 8 bytes (cursor + 16)
  let (dataEnd, payload) ← boundedWriteEnd bytes headerEnd offset length section_ payload limits
  let kind ← decodeReservationKind (bytes.getD cursor 0)
  pure (⟨kind, ⟨offset, sliceAt bytes headerEnd (dataEnd - headerEnd)⟩⟩, dataEnd, payload)

def decodeReservedWrites (bytes : Bytes) (entry : SectionMeta) (limits : PreparedEnvelopeLimits) :
    Enveloped (List ReservedWrite) := do
  let (output, cursor, _) ← readEntries (readReservedWrite bytes entry.tag limits) entry.count 0 0
  ensure (cursor = bytes.length) (.invalidFixedSectionLength entry.tag bytes.length)
  ensureOrder output entry.tag reservedWriteOrderKey
  pure output

def readRollbackWrite (bytes : Bytes) (section_ : ℕ) (limits : PreparedEnvelopeLimits)
    (cursor payload : ℕ) : Enveloped (OverlayWrite × ℕ × ℕ) := do
  let headerEnd ← orErr (checkedAdd cursor rollbackWriteHeaderBytes) .arithmeticOverflow
  ensure (headerEnd ≤ bytes.length) .truncated
  let offset ← readWord 8 bytes cursor
  let length ← readWord 8 bytes (cursor + 8)
  let (dataEnd, payload) ← boundedWriteEnd bytes headerEnd offset length section_ payload limits
  pure (⟨offset, sliceAt bytes headerEnd (dataEnd - headerEnd)⟩, dataEnd, payload)

def decodeRollbackWrites (bytes : Bytes) (entry : SectionMeta) (limits : PreparedEnvelopeLimits) :
    Enveloped (List OverlayWrite) := do
  let (output, cursor, _) ← readEntries (readRollbackWrite bytes entry.tag limits) entry.count 0 0
  ensure (cursor = bytes.length) (.invalidFixedSectionLength entry.tag bytes.length)
  ensureOrder output entry.tag Patch.offset
  pure output

def sectionBytes (bytes : Bytes) (entry : SectionMeta) : Bytes :=
  sliceAt bytes entry.start (entry.stop - entry.start)

/-- The contents of the twelve sections. -/
def decodeSections (bytes : Bytes) (header : HeaderState) (metas : List SectionMeta)
    (limits : PreparedEnvelopeLimits) : Enveloped EnvelopeState := do
  let section_ : ℕ → SectionMeta := fun i => metas.getD i ⟨0, 0, 0, 0⟩
  let reservations ← decodeReservations (sectionBytes bytes (section_ 0))
  let relocations ← decodeRelocations (sectionBytes bytes (section_ 1))
  let freeAfterStaging ← decodeRanges (sectionBytes bytes (section_ 2))
  let reserved := fun i => decodeReservedWrites (sectionBytes bytes (section_ i)) (section_ i) limits
  let rollback := fun i => decodeRollbackWrites (sectionBytes bytes (section_ i)) (section_ i) limits
  let targetStaging ← reserved 3
  let backupBoot ← reserved 4
  let activation ← reserved 5
  let targetStagingRollback ← rollback 6
  let backupBootRollback ← rollback 7
  let activationRollback ← rollback 8
  let relocationDestinationBeforeImages ← rollback 11
  let targetFeatures ← decodeTargetFeatures (sectionBytes bytes (section_ 10))
  pure
    { identity := header.identity
      preflight := header.preflight
      targetFilesystem := header.targetFilesystem
      targetFeatures := targetFeatures
      sourceGraphDigest := header.sourceGraphDigest
      targetGraphDigest := header.targetGraphDigest
      planDigest := header.planDigest
      candidateOverlayDigest := header.candidateOverlayDigest
      relocationRollbackDigest := header.relocationRollbackDigest
      stagingRollbackDigest := header.stagingRollbackDigest
      preactivationRollbackDigest := header.preactivationRollbackDigest
      fullRollbackDigest := header.fullRollbackDigest
      reservations := reservations
      layout :=
        { relocations := relocations
          materializations := []
          freeAfterStaging := freeAfterStaging
          relocatedBytes := header.relocatedBytes
          materializedBytes := 0
          largestFreeRange := header.largestFreeRange }
      writes :=
        { targetStaging := targetStaging
          backupBoot := backupBoot
          activation := activation
          targetStagingRollback := targetStagingRollback
          backupBootRollback := backupBootRollback
          activationRollback := activationRollback }
      relocationDestinationBeforeImages := relocationDestinationBeforeImages
      recoveryPayload := sectionBytes bytes (section_ 9)
      capsuleLimits := header.capsuleLimits }

def decodeState (bytes : Bytes) (limits : PreparedEnvelopeLimits) : Enveloped EnvelopeState := do
  validateLimits limits
  ensureEnvelopeCap bytes.length limits
  ensure (headerBytes ≤ bytes.length) .truncated
  validateHeader H bytes
  let total ← readWord 8 bytes 16
  ensure (total = bytes.length) (.invalidTotalLength total bytes.length)
  let payloadLen ← readWord 8 bytes 24
  ensure (payloadLen = bytes.length - headerBytes)
    (.invalidTotalLength payloadLen (bytes.length - headerBytes))
  let payloadDigest ← arrayAt 32 bytes 32
  ensure (H.sha256 (bytes.drop headerBytes) = payloadDigest) .payloadDigestMismatch
  let count ← readWord 4 bytes 488
  ensure (count = sectionCount) (.invalidSectionCount count)
  let header ← decodeHeader bytes
  validateEnvelopeGeneration bytes.length header.capsuleLimits
  let metas ← scanSections H bytes limits
  let state ← decodeSections bytes header metas limits
  validateState H state limits
  pure state

/-- `into_decoded`: the plan of a decoded state, without its envelope. -/
def intoDecoded (state : EnvelopeState) (limits : PreparedEnvelopeLimits) :
    Enveloped PreparedConversion := do
  validateState H state limits
  let before := state.relocationDestinationBeforeImages
  let overlay := fun writes => (OverlayPlan.build state.preflight.image.imageBytes
    state.preflight.sectorBytes writes
    ⟨limits.maxEntries, limits.maxWriteBytes, limits.maxReadBytes⟩).mapError
      PreparedEnvelopeError.overlay
  let candidateOverlay ← overlay (finalWrites state.writes)
  let stagingRollbackOverlay ← overlay (stagingRollbackWrites before state.writes)
  let preactivationRollbackOverlay ← overlay (preactivationRollbackWrites before state.writes)
  let fullRollbackOverlay ← overlay (fullRollbackWrites before state.writes)
  let relocationRollbackOverlay ← overlay before
  pure
    { identity := state.identity
      preflight := state.preflight
      targetFilesystem := state.targetFilesystem
      targetFeatures := state.targetFeatures
      sourceGraphDigest := state.sourceGraphDigest
      targetGraphDigest := state.targetGraphDigest
      planDigest := state.planDigest
      candidateOverlayDigest := state.candidateOverlayDigest
      relocationRollbackDigest := state.relocationRollbackDigest
      stagingRollbackDigest := state.stagingRollbackDigest
      preactivationRollbackDigest := state.preactivationRollbackDigest
      fullRollbackDigest := state.fullRollbackDigest
      reservations := state.reservations
      layout := state.layout
      writes := state.writes
      candidateOverlay := candidateOverlay
      relocationRollbackOverlay := relocationRollbackOverlay
      stagingRollbackOverlay := stagingRollbackOverlay
      preactivationRollbackOverlay := preactivationRollbackOverlay
      fullRollbackOverlay := fullRollbackOverlay
      recoveryPayload := state.recoveryPayload
      preparedEnvelope := []
      capsuleLimits := state.capsuleLimits }

/-- Decodes and reconstructs a prepared plan. -/
def decodePreparedEnvelope (bytes : Bytes) (limits : PreparedEnvelopeLimits) :
    Enveloped PreparedConversion := do
  let state ← decodeState H bytes limits
  let decoded ← intoDecoded H state limits
  pure { decoded with preparedEnvelope := bytes }

end Codec

/-- How a failure of the envelope is reported by the coordinator. -/
def toConversionError : PreparedEnvelopeError → ConversionError
  | .capsule error => .capsule error
  | _ => .preparedEnvelopeInvalid

end Envelope

end StarConverter
