import StarConverter.Conversion.Draft

/-!
# Digests

The domain-separated strings a plan commits to, and their digests.
-/

namespace StarConverter

open Base Geometry

namespace Conversion

/-- `put_u64`. -/
def putU64 (value : ℕ) : Bytes := toLe 8 value

/-- `put_bytes`. -/
def putBytes (bytes : Bytes) : Bytes := putU64 bytes.length ++ bytes

def putByte (value : ℕ) : Bytes := [UInt8.ofNat value]

def putBool (value : Bool) : Bytes := [if value = true then 1 else 0]

def putUnits (name : List UInt16) : Bytes := (name.map fun unit => toLe 2 unit.toNat).flatten

/-- The string of `digest_overlay_writes`. -/
def overlayWritesText (writes : List OverlayWrite) : Bytes :=
  ascii "starconverter-overlay-writes-v1" ++
    ((sortByKey Patch.offset writes).map fun write =>
      putU64 write.offset ++ putBytes write.bytes).flatten

def digestOverlayWrites (H : Hashing) (writes : List OverlayWrite) : Digest :=
  H.sha256 (overlayWritesText writes)

def digestSourceIdentity (H : Hashing) (evidence : PreflightEvidence) (graphDigest : Digest) :
    Digest :=
  H.sha256 (ascii "starconverter-source-v1" ++ evidence.image.imageInstance.1 ++
    putU64 evidence.image.imageBytes ++ evidence.sourceEvidenceDigest.1 ++
    evidence.sourceManifestCommitment.digest.1 ++
    putU64 evidence.sourceManifestCommitment.logicalBytesHashed ++
    putU64 evidence.sourceManifestCommitment.objectCount ++ graphDigest.1)

def streamText (stream : ObjectStream) : Bytes :=
  putU64 stream.id ++
    (match stream.name with
    | none => putByte 0
    | some name => putByte 1 ++ putU64 name.length ++ putUnits name) ++
    putU64 stream.logicalBytes ++ putU64 stream.initializedBytes ++ putU64 stream.mappedBytes ++
    putU64 stream.allocatedBytes ++ putBool stream.flags.sparse ++ putBool stream.flags.compressed ++
    putBool stream.flags.encrypted ++ putU64 stream.flags.compressionBlockBytes ++
    match stream.storage with
    | .resident bytes => putByte 0 ++ putBytes bytes
    | .extents => putByte 1

def objectText (object : ObjectRecord) : Bytes :=
  putU64 object.id ++ putByte (match object.kind with | .file => 0 | .directory => 1) ++
    toLe 4 object.linkCount ++ putBool object.semantics.hasSecurityDescriptor ++
    putBool object.semantics.isReparsePoint ++
    ((sortByKey ObjectStream.id object.streams).map streamText).flatten

def entryText (entry : NamespaceEntry) : Bytes :=
  putU64 entry.parent ++ putU64 entry.target ++ putU64 entry.name.length ++ putUnits entry.name

def extentKindKey : ExtentKind → ℕ
  | .fileData => 0
  | .directoryData => 1
  | .fileSystemMetadata => 2
  | .reserved => 3
  | .badCluster => 4

def extentText (extent : Extent) : Bytes :=
  putU64 extent.stream ++ putU64 extent.logicalOffset ++ putU64 extent.length ++
    putByte (extentKindKey extent.kind) ++
    match extent.placement with
    | .physical byteOffset => putByte 0 ++ putU64 byteOffset
    | .sparse => putByte 1

/-- Parent, name and target, the names compared unit by unit. -/
def entryKey (entry : NamespaceEntry) : ℕ ×ₗ List ℕ ×ₗ ℕ :=
  toLex (entry.parent, toLex (entry.name.map UInt16.toNat, entry.target))

def digestGraph (H : Hashing) (graph : ObjectGraph) : Digest :=
  H.sha256 (ascii "starconverter-object-graph-v1" ++ putU64 graph.root ++
    ((sortByKey ObjectRecord.id graph.objects).map objectText).flatten ++
    ((sortByKey entryKey graph.entries).map entryText).flatten ++
    (graph.extents.extents.map extentText).flatten)

def featureText (rule : FeatureCompatibility) : Bytes :=
  putByte (featureKey rule.feature) ++
    match rule.method with
    | .native => putByte 0
    | .escrow schemaVersion payloadDigest => putByte 1 ++ toLe 2 schemaVersion ++ payloadDigest.1

def rangeText (range : ByteRange) : Bytes := putU64 range.offset ++ putU64 range.length

def reservationText (reservation : DestinationReservation) : Bytes :=
  rangeText reservation.range ++ putByte (reservationKindKey reservation.kind)

def relocationText (relocation : Relocation) : Bytes :=
  putU64 relocation.stream ++ putU64 relocation.logicalOffset ++ rangeText relocation.source ++
    rangeText relocation.destination

def materializationText (materialization : Materialization) : Bytes :=
  putU64 materialization.stream ++ putU64 materialization.destinations.length ++
    (materialization.destinations.map rangeText).flatten

def reservedWritesText (tag : ℕ) (writes : List ReservedWrite) : Bytes :=
  (writes.map fun value => putByte tag ++ putByte (reservationKindKey value.reservationKind) ++
    putU64 value.write.offset ++ putBytes value.write.bytes).flatten

def digestPlan (H : Hashing) (evidence : PreflightEvidence) (target : FileSystem)
    (features : List FeatureCompatibility) (reservations : List DestinationReservation)
    (layout : LayoutPlan) (writes : OpaqueWriteSets) (sourceGraphDigest targetGraphDigest : Digest)
    (relocationDestinationBeforeImages : List OverlayWrite) : Digest :=
  H.sha256 (ascii "starconverter-plan-v2" ++ sourceGraphDigest.1 ++ targetGraphDigest.1 ++
    putByte (filesystemKey evidence.sourceFilesystem) ++ putByte (filesystemKey target) ++
    putU64 evidence.image.imageBytes ++ toLe 4 evidence.sectorBytes ++
    putU64 evidence.allocationAlignment ++ evidence.sourceManifestCommitment.digest.1 ++
    putU64 evidence.sourceManifestCommitment.logicalBytesHashed ++
    putU64 evidence.sourceManifestCommitment.objectCount ++ (features.map featureText).flatten ++
    (reservations.map reservationText).flatten ++ (layout.relocations.map relocationText).flatten ++
    (layout.materializations.map materializationText).flatten ++
    reservedWritesText 0 writes.targetStaging ++ reservedWritesText 1 writes.backupBoot ++
    reservedWritesText 2 writes.activation ++
    (digestOverlayWrites H writes.targetStagingRollback).1 ++
    (digestOverlayWrites H writes.backupBootRollback).1 ++
    (digestOverlayWrites H writes.activationRollback).1 ++
    (digestOverlayWrites H relocationDestinationBeforeImages).1)

end Conversion

end StarConverter
