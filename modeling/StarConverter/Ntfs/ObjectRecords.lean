import StarConverter.Ntfs.DataFragments
import StarConverter.Ntfs.IndexSerialize
import StarConverter.Ntfs.Packing

/-!
# The records of files and directories

The attributes of an object are built from its names, its security descriptor, its streams or its
directory index, and its reparse point, and packed into records. `countFileExtensionRecords` builds
them beforehand, with descriptors that are not placed yet, to learn how many extension records the
volume needs.
-/

namespace StarConverter

open Base

namespace Ntfs

def fileAttributeHidden : ℕ := 0x0002
def fileAttributeSystem : ℕ := 0x0004
def fileAttributeDirectory : ℕ := 0x0010
def fileAttributeReparsePoint : ℕ := 0x0400
def fileAttributeI30IndexPresent : ℕ := 0x10000000

/-- The name of directory indexes. -/
def i30 : List UInt16 := [0x24, 0x49, 0x33, 0x30]

def fileNameNamespaceId : FileNameNamespace → ℕ
  | .posix => 0
  | .win32 => 1
  | .dos => 2
  | .win32AndDos => 3

def userFileNameNamespace : FileNameNamespace := .posix
def systemFileNameNamespace : FileNameNamespace := .win32AndDos

inductive PayloadPlacementMode
  | final
  | relocationDraft
  deriving DecidableEq

structure NtfsObjectTimestamps where
  creationTime : ℕ
  modificationTime : ℕ
  mftChangeTime : ℕ
  accessTime : ℕ
  deriving DecidableEq

structure NtfsObjectMetadata where
  timestamps : NtfsObjectTimestamps
  dosFileAttributes : ℕ
  securityId : ℕ
  deriving DecidableEq

/-- A security descriptor and, when it is too large for a record, its clusters. -/
structure PlannedSecurityDescriptor where
  bytes : Bytes
  nonresident : Option NamedResidentOverflow
  deriving DecidableEq

structure PlannedDirectoryIndex where
  object : ObjectId
  recordNumber : ℕ
  serialized : SerializedNtfsDirectoryIndex
  allocationLcn : Option ℕ
  allocationClusters : ℕ
  deriving DecidableEq

/-- What the records of all objects are built from. -/
structure RecordSources where
  graph : ObjectGraph
  names : ObjectId → List NamespaceEntry
  records : ObjectId → ℕ
  metadata : ObjectId → NtfsObjectMetadata
  reparse : ObjectId → Option Bytes
  maxResidentDataBytes : ℕ
  payloadMode : PayloadPlacementMode
  overflowRuns : StreamId → Option NamedResidentOverflow
  cluster : ℕ

/-! ## Values -/

def standardInformationAttributes (dosFileAttributes : ℕ) : ℕ :=
  dosFileAttributes.ldiff fileAttributeDirectory

def fileNameAttributes (dosFileAttributes : ℕ) : ObjectKind → ℕ
  | .directory => standardInformationAttributes dosFileAttributes ||| fileAttributeI30IndexPresent
  | .file => standardInformationAttributes dosFileAttributes

def timestampPatches (offset : ℕ) (timestamps : NtfsObjectTimestamps) : List (Patch UInt8) :=
  [put 8 offset timestamps.creationTime, put 8 (offset + 8) timestamps.modificationTime,
    put 8 (offset + 16) timestamps.mftChangeTime, put 8 (offset + 24) timestamps.accessTime]

def standardInformationWithSecurityId (timestamps : NtfsObjectTimestamps)
    (attributes securityId : ℕ) : Except NtfsSerializeError Bytes :=
  residentAttribute standardInformation none 0 <| applyAll
    (timestampPatches 0 timestamps ++ [put 4 32 attributes, put 4 52 securityId]) (zeros 72)

def fileNameValue (parentRecord : ℕ) (name : List UInt16) (allocated logical attributes : ℕ)
    (timestamps : NtfsObjectTimestamps) (reparseTagOrEaSize : ℕ) (nameSpace : FileNameNamespace) :
    Except NtfsSerializeError Bytes := do
  ensure (name.length < 2 ^ 8) .arithmeticOverflow
  pure <| applyAll
    ([put 8 0 (mftReferenceWithSequence parentRecord (recordSequence parentRecord))] ++
      timestampPatches 8 timestamps ++
      [put 8 40 allocated, put 8 48 logical, put 4 56 attributes, put 4 60 reparseTagOrEaSize,
        put 1 64 name.length, put 1 65 (fileNameNamespaceId nameSpace), ⟨66, utf16Bytes name⟩])
    (zeros (66 + name.length * 2))

def validateReparsePayload (object : ObjectId) (payload : Bytes) (maximum : ℕ) :
    Except NtfsSerializeError Unit := do
  ensure (8 ≤ payload.length ∧ payload.length ≤ maximum)
    (.invalidReparsePoint object payload.length)
  ensure (leAt 2 payload 4 + 8 = payload.length) (.invalidReparsePoint object payload.length)

def reparseTag (payload : Bytes) : ℕ := leAt 4 payload 0

/-! ## Attributes -/

def nonresidentNamedAttribute (attributeType : ℕ) (name : List UInt16) (run : ℕ × ℕ)
    (logical initialized allocated id : ℕ) : Except NtfsSerializeError Bytes := do
  ensure (¬ (name = [] ∨ run.2 = 0)) .arithmeticOverflow
  let pairs ← orErr (encodeRuns [(some run.1, run.2)]) .arithmeticOverflow
  nonresidentNamedAttributeFromPairs attributeType name pairs 0 run.2 logical initialized allocated
    id false

def securityDescriptorAttribute (planned : PlannedSecurityDescriptor) (id cluster : ℕ) :
    Except NtfsSerializeError Bytes :=
  match planned.nonresident with
  | none => residentAttribute securityDescriptor none id planned.bytes
  | some run => do
    ensure (run.logicalBytes = planned.bytes.length ∧ run.clusters ≠ 0) .destinationLayoutChanged
    let allocated ← orErr (checkedMul run.clusters cluster) .arithmeticOverflow
    let pairs ← orErr (encodeRuns [(some run.lcn, run.clusters)]) .arithmeticOverflow
    nonresidentAttributeFromPairs securityDescriptor pairs 0 run.clusters planned.bytes.length
      planned.bytes.length allocated id false

/-- The attribute of a descriptor, if there is one, and the next instance. -/
def securityAttributes (planned : Option PlannedSecurityDescriptor) (id cluster : ℕ) :
    Except NtfsSerializeError (List Bytes × ℕ) :=
  match planned with
  | none => .ok ([], id)
  | some planned => do
    let attr ← securityDescriptorAttribute planned id cluster
    let next ← orErr (checkedAdd16 id 1) .arithmeticOverflow
    pure ([attr], next)

def directoryReparseAttribute (object : ObjectId) (payload : Bytes) (maxResidentDataBytes id : ℕ) :
    Except NtfsSerializeError Bytes := do
  validateReparsePayload object payload maxResidentDataBytes
  residentAttribute reparsePoint none id payload

def appendAttributeListContinuation (attributes : List Bytes)
    (listRun : Option NamedResidentOverflow) : Except NtfsSerializeError (List Bytes) :=
  match listRun with
  | none => .ok attributes
  | some run =>
    if run.clusters < 2 then .ok attributes
    else do
      let remaining := run.clusters - 1
      let continuationLcn ← orErr (checkedAdd run.lcn 1) .arithmeticOverflow
      let pairs ← orErr (encodeRuns [(some continuationLcn, remaining)]) .arithmeticOverflow
      let listInstance ← nextAttributeInstance attributes
      let attr ← nonresidentAttributeFromPairs attributeList pairs 1 remaining 0 0 0 listInstance
        false
      pure (attributes ++ [attr])

/-! ## Streams -/

section Streams

variable (sources : RecordSources)

def residentOrOverflowDataAttribute (stream : ObjectStream) (bytes : Bytes) (id : ℕ) :
    Except NtfsSerializeError Bytes :=
  if sources.payloadMode = .relocationDraft ∧ sources.maxResidentDataBytes < bytes.length then
    residentAttribute data stream.name id []
  else if bytes.length ≤ sources.maxResidentDataBytes then
    residentAttribute data stream.name id bytes
  else
    match stream.name with
    | none => .error (.residentDataTooLarge stream.id bytes.length sources.maxResidentDataBytes)
    | some name => do
      let overflow ← orErr (sources.overflowRuns stream.id) .destinationLayoutChanged
      ensure (overflow.logicalBytes = bytes.length) .destinationLayoutChanged
      let allocated ← orErr (checkedMul overflow.clusters sources.cluster) .arithmeticOverflow
      nonresidentNamedAttribute data name (overflow.lcn, overflow.clusters) bytes.length
        bytes.length allocated id

def unalignedOrDraftResident (stream : ObjectStream) (extent : Extent) (id : ℕ)
    (sparseStream : Bool) : Except NtfsSerializeError Bytes :=
  if sources.payloadMode = .relocationDraft ∧ sparseStream = false then
    residentAttribute data stream.name id []
  else
    .error (.unalignedExtent stream.id
      (match extent.placement with
        | .physical byteOffset => byteOffset
        | .sparse => 0)
      extent.length)

/-- The runs collected from the extents of a stream. -/
structure CollectedRuns where
  runs : List Run
  mappedClusters : ℕ
  physicalBytes : ℕ
  hasSparseRun : Bool
  deriving DecidableEq

/-- Turns extents into runs; an extent that is not aligned ends the walk. -/
def collectRuns (stream : ObjectStream) (id : ℕ) (sparseStream : Bool) :
    List Extent → CollectedRuns → Except NtfsSerializeError (Bytes ⊕ CollectedRuns)
  | [], collected => pure (.inr collected)
  | extent :: rest, collected =>
    if extent.length = 0 ∨ extent.length % sources.cluster ≠ 0 then do
      let attr ← unalignedOrDraftResident sources stream extent id sparseStream
      pure (.inl attr)
    else do
      let clusters := extent.length / sources.cluster
      let mappedClusters ← orErr (checkedAdd collected.mappedClusters clusters) .arithmeticOverflow
      match extent.placement with
      | .sparse => do
        ensure (stream.flags.sparse = true) (.sparseExtent stream.id)
        collectRuns stream id sparseStream rest
          { collected with
            runs := collected.runs ++ [(none, clusters)]
            mappedClusters := mappedClusters
            hasSparseRun := true }
      | .physical byteOffset =>
        if byteOffset % sources.cluster ≠ 0 then do
          let attr ← unalignedOrDraftResident sources stream extent id sparseStream
          pure (.inl attr)
        else do
          let physicalBytes ← orErr (checkedAdd collected.physicalBytes extent.length)
            .arithmeticOverflow
          collectRuns stream id sparseStream rest
            { collected with
              runs := collected.runs ++ [(some (byteOffset / sources.cluster), clusters)]
              mappedClusters := mappedClusters
              physicalBytes := physicalBytes }

/-- The attributes of the runs of a stream, once all its extents are aligned. -/
def runAttributes (stream : ObjectStream) (id : ℕ) (collected : CollectedRuns) :
    Except NtfsSerializeError (List Bytes) := do
  ensure (¬ (collected.hasSparseRun = true ∧ collected.physicalBytes ≠ stream.allocatedBytes))
    (.unalignedExtent stream.id 0 stream.allocatedBytes)
  if collected.runs = [] ∧ sources.payloadMode = .relocationDraft then do
    let attr ← residentAttribute data stream.name id []
    pure [attr]
  else do
    let clusters := stream.mappedBytes / sources.cluster
    ensure (clusters = collected.mappedClusters ∧ stream.mappedBytes % sources.cluster = 0)
      (.unalignedExtent stream.id 0 stream.mappedBytes)
    ensure (stream.name ≠ some []) .arithmeticOverflow
    if clusters = 0 then do
      let attr ← residentAttribute data stream.name id []
      pure [attr]
    else splitNonresidentDataAttributes stream collected.runs id

def nonresidentStreamAttributes (stream : ObjectStream) (id : ℕ) :
    Except NtfsSerializeError (List Bytes) := do
  let extents := sources.graph.extents.extents.filter fun extent =>
    extent.stream = stream.id ∧ extent.kind = .fileData
  let sparseStream := stream.flags.sparse || extents.any (·.placement = .sparse)
  let collected ← collectRuns sources stream id sparseStream extents ⟨[], 0, 0, false⟩
  match collected with
  | .inl attr => pure [attr]
  | .inr collected => runAttributes sources stream id collected

/-- The attributes of a stream and the instance of its last one. -/
def streamAttributes (stream : ObjectStream) (id : ℕ) :
    Except NtfsSerializeError (List Bytes × ℕ) :=
  match stream.storage with
  | .resident bytes => do
    let attr ← residentOrOverflowDataAttribute sources stream bytes id
    pure ([attr], id)
  | .extents => do
    let fragments ← nonresidentStreamAttributes sources stream id
    ensure (fragments ≠ []) .arithmeticOverflow
    ensure (fragments.length - 1 < 2 ^ 16) .arithmeticOverflow
    let last ← orErr (checkedAdd16 id (fragments.length - 1)) .arithmeticOverflow
    pure (fragments, last)

def allStreamAttributes : ℕ → List ObjectStream → Except NtfsSerializeError (List Bytes × ℕ)
  | id, [] => pure ([], id)
  | id, stream :: rest => do
    let attrs ← streamAttributes sources stream id
    let next ← orErr (checkedAdd16 attrs.2 1) .arithmeticOverflow
    let more ← allStreamAttributes next rest
    pure (attrs.1 ++ more.1, more.2)

/-- The unnamed stream first, then the others by their names. -/
def streamKey (stream : ObjectStream) : Bool ×ₗ List ℕ :=
  toLex (stream.name.isSome, (stream.name.getD []).map UInt16.toNat)

/-- The data attributes of a file; a file without streams gets an empty one. -/
def fileDataAttributes (object : ObjectRecord) (id : ℕ) :
    Except NtfsSerializeError (List Bytes × ℕ) :=
  if object.streams = [] then do
    let attr ← residentAttribute data none id []
    pure ([attr], id)
  else allStreamAttributes sources id (sortByKey streamKey object.streams)

end Streams

/-! ## Files -/

section Objects

variable (sources : RecordSources)

def fileNameAttributesFrom (object : ObjectRecord) (allocated logical dosFileAttributes tag : ℕ) :
    ℕ → List NamespaceEntry → Except NtfsSerializeError (List Bytes × ℕ)
  | id, [] => pure ([], id)
  | id, entry :: rest => do
    let value ← fileNameValue (sources.records entry.parent) entry.name allocated logical
      (fileNameAttributes dosFileAttributes object.kind) (sources.metadata object.id).timestamps tag
      userFileNameNamespace
    let attr ← residentAttribute fileName none id value
    let next ← orErr (checkedAdd16 id 1) .arithmeticOverflow
    let more ← fileNameAttributesFrom object allocated logical dosFileAttributes tag next rest
    pure (attr :: more.1, more.2)

/-- The attributes of a file in front of its descriptor, and the next instance. -/
def fileFrontAttributes (object : ObjectRecord) : Except NtfsSerializeError (List Bytes × ℕ) := do
  let unnamed := object.streams.find? (·.name = none)
  let metadata := sources.metadata object.id
  let reparse := sources.reparse object.id
  checkAll (fun payload => validateReparsePayload object.id payload sources.maxResidentDataBytes)
    reparse.toList
  let dosFileAttributes := reparse.elim metadata.dosFileAttributes fun _ =>
    metadata.dosFileAttributes ||| fileAttributeReparsePoint
  let first ← standardInformationWithSecurityId metadata.timestamps
    (standardInformationAttributes dosFileAttributes) metadata.securityId
  let names ← fileNameAttributesFrom sources object (unnamed.elim 0 ObjectStream.allocatedBytes)
    (unnamed.elim 0 ObjectStream.logicalBytes) dosFileAttributes (reparse.elim 0 reparseTag) 1
    (sources.names object.id)
  pure (first :: names.1, names.2)

/-- The attributes of a file behind its descriptor. -/
def fileTailAttributes (object : ObjectRecord) (id : ℕ) : Except NtfsSerializeError (List Bytes) := do
  let streams ← fileDataAttributes sources object id
  match sources.reparse object.id with
  | none => pure streams.1
  | some payload => do
    let attr ← residentAttribute reparsePoint none streams.2 payload
    pure (streams.1 ++ [attr])

def fileAttributes (object : ObjectRecord) (security : Option PlannedSecurityDescriptor) :
    Except NtfsSerializeError (List Bytes) := do
  let front ← fileFrontAttributes sources object
  let middle ← securityAttributes security front.2 sources.cluster
  let tail ← fileTailAttributes sources object middle.2
  pure (front.1 ++ middle.1 ++ tail)

/-- Consecutive record numbers. -/
def extensionNumbers (first : ℕ) : ℕ → Except NtfsSerializeError (List ℕ)
  | 0 => pure []
  | extra + 1 => do
    let numbers ← extensionNumbers first extra
    let number ← orErr (checkedAdd first extra) .arithmeticOverflow
    pure (numbers ++ [number])

def fileRecord (object : ObjectRecord) (security : Option PlannedSecurityDescriptor)
    (firstExtensionRecord : ℕ) (listRun : Option NamedResidentOverflow) :
    Except NtfsSerializeError PackedFileRecords := do
  let hardLinks := (sources.names object.id).length
  ensure (hardLinks < 2 ^ 16) .arithmeticOverflow
  ensure (hardLinks ≠ 0) (.invalidName object.id)
  let recordNumber := sources.records object.id
  let attributes ← fileAttributes sources object security
  let attributes ← appendAttributeListContinuation attributes listRun
  let extra ← fileExtensionRecordCount recordNumber attributes listRun sources.cluster
  let extensionRecords ← extensionNumbers firstExtensionRecord extra
  serializePackedFileRecords recordNumber hardLinks attributes extensionRecords listRun
    sources.cluster

/-! ## Directories -/

def directoryNameAttributes (recordNumber dosFileAttributes tag : ℕ)
    (timestamps : NtfsObjectTimestamps) :
    ℕ → List NamespaceEntry → Except NtfsSerializeError (List Bytes)
  | _, [] => pure []
  | index, entry :: rest => do
    ensure (index + 1 < 2 ^ 16) .arithmeticOverflow
    let value ← fileNameValue (sources.records entry.parent) entry.name 0 0
      (fileNameAttributes dosFileAttributes .directory) timestamps tag
      (if recordNumber = 5 then systemFileNameNamespace else userFileNameNamespace)
    let attr ← residentAttribute fileName none (index + 1) value
    let more ← directoryNameAttributes recordNumber dosFileAttributes tag timestamps (index + 1) rest
    pure (attr :: more)

def directoryPrefixAttributes (recordNumber : ℕ) (names : List NamespaceEntry)
    (metadata : NtfsObjectMetadata) (reparse : Option Bytes) :
    Except NtfsSerializeError (List Bytes) := do
  let rootAttributes := if recordNumber = 5 then
    metadata.dosFileAttributes ||| (fileAttributeHidden ||| fileAttributeSystem)
    else metadata.dosFileAttributes
  let dosFileAttributes := reparse.elim rootAttributes fun _ =>
    rootAttributes ||| fileAttributeReparsePoint
  let first ← standardInformationWithSecurityId metadata.timestamps
    (standardInformationAttributes dosFileAttributes) metadata.securityId
  let attrs ← directoryNameAttributes sources recordNumber dosFileAttributes
    (reparse.elim 0 reparseTag) metadata.timestamps 0 names
  ensure (recordNumber ≤ 0xFFFFFFFFFFFF) .arithmeticOverflow
  pure (first :: attrs)

/-- A stand-in for the descriptor of a directory: only its size matters. -/
def exactSecuritySuffix (security : Option PlannedSecurityDescriptor) (cluster : ℕ) :
    Except NtfsSerializeError (List Bytes) :=
  match security with
  | none => .ok []
  | some planned => do
    let attr ← securityDescriptorAttribute planned 6 cluster
    pure [attr]

def exactReparseSuffix (object : ObjectId) (reparse : Option Bytes) :
    Except NtfsSerializeError (List Bytes) :=
  match reparse with
  | none => .ok []
  | some payload => do
    let attr ← directoryReparseAttribute object payload sources.maxResidentDataBytes 5
    pure [attr]

def directoryExactSuffix (object : ObjectId) (reparse : Option Bytes)
    (security : Option PlannedSecurityDescriptor) : Except NtfsSerializeError (List Bytes) := do
  let descriptor ← exactSecuritySuffix security sources.cluster
  let tail ← exactReparseSuffix sources object reparse
  pure (descriptor ++ tail)

/-- Room of an index root behind these attributes. -/
def directoryIndexRootBudget (object : ObjectId) (front suffix : List Bytes) :
    Except NtfsSerializeError ℕ := do
  let used ← sumChecked .arithmeticOverflow 0 ((front ++ suffix).map List.length)
  let attributeCapacity := (recordBytes - 2 - 8 - attributesOffset) / 8 * 8
  let rootAttributeCapacity ← orErr (checkedSub attributeCapacity used)
    (.directoryIndexOverflow object)
  orErr (checkedSub rootAttributeCapacity 32) (.directoryIndexOverflow object)

def dummySpillSuffix (cluster : ℕ) : Except NtfsSerializeError (List Bytes) := do
  let allocation ← nonresidentNamedAttribute indexAllocation i30 (0, 1) cluster cluster cluster 3
  let bits ← residentAttribute bitmap (some i30) 4 [0xFF]
  pure [allocation, bits]

/-- An index that overflows is an answer, every other error is one. -/
def overflows (result : Except NtfsSerializeError ℕ) : Except NtfsSerializeError Bool :=
  match result with
  | .ok _ => .ok false
  | .error (.directoryIndexOverflow _) => .ok true
  | .error error => .error error

def directoryNeedsAttributeList (object : ObjectId) (front : List Bytes) (cluster : ℕ)
    (suffix : List Bytes) : Except NtfsSerializeError Bool := do
  let alone ← overflows (directoryIndexRootBudget object front suffix)
  if alone = true then pure true
  else do
    let spill ← dummySpillSuffix cluster
    overflows (directoryIndexRootBudget object front (spill ++ suffix))

/-- The allocation of a spilled index, its bitmap and the instance of the last attribute. -/
def indexAllocationAttributes (index : PlannedDirectoryIndex) (id : ℕ) :
    Except NtfsSerializeError (List Bytes × ℕ) :=
  match index.allocationLcn with
  | none => .ok ([], id)
  | some lcn => do
    let logical := index.serialized.indexAllocation.length
    let allocated ← orErr (checkedMul index.allocationClusters sources.cluster) .arithmeticOverflow
    let allocation ← nonresidentNamedAttribute indexAllocation i30 (lcn, index.allocationClusters)
      logical logical allocated id
    let next ← orErr (checkedAdd16 id 1) .arithmeticOverflow
    let bits ← residentAttribute bitmap (some i30) next index.serialized.bitmap
    pure ([allocation, bits], next)

/-- The instance behind a bitmap was not counted yet. -/
def reparseId (index : PlannedDirectoryIndex) (id : ℕ) : Except NtfsSerializeError ℕ :=
  if index.allocationLcn.isSome then orErr (checkedAdd16 id 1) .arithmeticOverflow else .ok id

/-- The reparse point of a directory stands behind its index. -/
def indexReparseAttributes (index : PlannedDirectoryIndex) (reparse : Option Bytes) (id : ℕ) :
    Except NtfsSerializeError (List Bytes) :=
  match reparse with
  | none => .ok []
  | some payload => do
    let id ← reparseId index id
    let attr ← directoryReparseAttribute index.object payload sources.maxResidentDataBytes id
    pure [attr]

def directoryIndexAttributes (id : ℕ) (index : PlannedDirectoryIndex) (reparse : Option Bytes)
    (security : Option PlannedSecurityDescriptor) : Except NtfsSerializeError (List Bytes) := do
  let descriptor ← securityAttributes security id sources.cluster
  let root ← residentAttribute indexRoot (some i30) descriptor.2 index.serialized.indexRoot
  let next ← orErr (checkedAdd16 descriptor.2 1) .arithmeticOverflow
  let allocation ← indexAllocationAttributes sources index next
  let tail ← indexReparseAttributes sources index reparse allocation.2
  pure (descriptor.1 ++ [root] ++ allocation.1 ++ tail)

def directoryFileNameCount (recordNumber : ℕ) (names : List NamespaceEntry)
    (metadata : NtfsObjectMetadata) (reparse : Option Bytes) : Except NtfsSerializeError ℕ := do
  let front ← directoryPrefixAttributes sources recordNumber names metadata reparse
  directoryFileNameExtensionCount recordNumber front

def buildDirectoryRecord (recordNumber : ℕ) (names : List NamespaceEntry)
    (metadata : NtfsObjectMetadata) (index : PlannedDirectoryIndex) (firstExtensionRecord : ℕ)
    (reparse : Option Bytes) (security : Option PlannedSecurityDescriptor)
    (listRun : Option NamedResidentOverflow) : Except NtfsSerializeError PackedFileRecords := do
  ensure (index.recordNumber = recordNumber) .arithmeticOverflow
  let hardLinks := names.length
  ensure (hardLinks < 2 ^ 16) .arithmeticOverflow
  ensure (hardLinks ≠ 0) (.invalidName index.object)
  let front ← directoryPrefixAttributes sources recordNumber names metadata reparse
  let exactSuffix ← directoryExactSuffix sources index.object reparse security
  let needsList ← directoryNeedsAttributeList index.object front sources.cluster exactSuffix
  let nextId ← orErr (checkedAdd16 hardLinks 1) .arithmeticOverflow
  let suffix ← directoryIndexAttributes sources nextId index reparse security
  match needsList with
  | false => do
    let base ← (finishRecord recordNumber (fileRecordInUse + fileRecordDirectory) hardLinks
      (front ++ suffix)).mapError (asDirectoryIndexOverflow index.object)
    pure ⟨base, [], none⟩
  | true => do
    let extra ← directoryFileNameCount sources recordNumber names metadata reparse
    let extensionRecords ← extensionNumbers firstExtensionRecord extra
    let attributes ← appendAttributeListContinuation (front ++ suffix) listRun
    serializePackedDirectoryRecords recordNumber index.object hardLinks attributes extensionRecords
      listRun sources.cluster

/-! ## Counting extension records -/

/-- How many extension records the count pass adds for an object. -/
def addedExtensionRecords (security : ObjectId → Option PlannedSecurityDescriptor)
    (listRuns : ℕ → Option NamedResidentOverflow) (object : ObjectRecord) :
    Except NtfsSerializeError ℕ :=
  let recordNumber := sources.records object.id
  match object.kind with
  | .file => do
    let attributes ← fileAttributes sources object (security object.id)
    let attributes ← appendAttributeListContinuation attributes (listRuns recordNumber)
    fileExtensionRecordCount recordNumber attributes (listRuns recordNumber) sources.cluster
  | .directory => do
    let reparse := sources.reparse object.id
    let metadata := sources.metadata object.id
    let front ← directoryPrefixAttributes sources recordNumber (sources.names object.id) metadata
      reparse
    let exactSuffix ← directoryExactSuffix sources object.id reparse (security object.id)
    let needsList ← directoryNeedsAttributeList object.id front sources.cluster exactSuffix
    match needsList with
    | true =>
      directoryFileNameCount sources recordNumber (sources.names object.id) metadata reparse
    | false => pure 0

def countFileExtensionRecords (security : ObjectId → Option PlannedSecurityDescriptor)
    (listRuns : ℕ → Option NamedResidentOverflow) :
    ℕ → List ObjectRecord → Except NtfsSerializeError ℕ
  | extra, [] => pure extra
  | extra, object :: rest =>
    if object.id = sources.graph.root then countFileExtensionRecords security listRuns extra rest
    else do
      let added ← addedExtensionRecords sources security listRuns object
      let extra ← orErr (checkedAdd extra added) .arithmeticOverflow
      countFileExtensionRecords security listRuns extra rest

/-- The descriptors of the count pass take the same room as the placed ones. -/
def securityDescriptorBudgetsMatch (budget planned : List (ObjectId × PlannedSecurityDescriptor))
    (cluster : ℕ) : Except NtfsSerializeError Unit := do
  ensure (budget.length = planned.length) .destinationLayoutChanged
  checkAll (fun entry => do
    let actual ← orErr (planned.lookup entry.1) .destinationLayoutChanged
    let expectedAttribute ← securityDescriptorAttribute entry.2 1 cluster
    let actualAttribute ← securityDescriptorAttribute actual 1 cluster
    ensure (expectedAttribute.length = actualAttribute.length) .destinationLayoutChanged) budget

end Objects

end Ntfs

end StarConverter
