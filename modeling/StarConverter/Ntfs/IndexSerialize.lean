import StarConverter.Ntfs.Index

/-!
# Serializing NTFS directory indexes

A directory index small enough for its resident root is written into the root alone. A larger one is
cut into leaves with a separator between any two of them; as long as the separators do not fit into
the root, the nodes of the last level are joined under nodes of a new one. The validator reads the
written streams back and walks the index in order.
-/

namespace StarConverter

open Base

namespace Ntfs

def indexRootPrefixBytes : ℕ := 16
def indexHeaderBytes : ℕ := 16
def indexBlockHeaderBytes : ℕ := 24
def indexEntryHeaderBytes : ℕ := 16
def fileNameKeyHeaderBytes : ℕ := 66
def indexSequenceOffset : ℕ := 40
def indexEntryNode : ℕ := 0x0001
def indexEntryEnd : ℕ := 0x0002
def maxMftRecordNumber : ℕ := 0x0000_ffff_ffff_ffff
def fullUpcaseUnits : ℕ := 65536
def maxIndexDepth : ℕ := 8

structure NtfsDirectoryIndexGeometry where
  clusterBytes : ℕ
  indexBlockBytes : ℕ
  residentRootBytes : ℕ

structure NtfsDirectoryIndexLimits where
  maxEntries : ℕ
  maxBlocks : ℕ
  maxRootBytes : ℕ
  maxBlockBytes : ℕ
  maxAllocationBytes : ℕ
  maxNameCodeUnits : ℕ

/-- The metadata of one filename key, with the record it refers to. -/
structure NtfsDirectoryIndexEntry where
  fileReference : NtfsFileReference
  parentDirectory : NtfsFileReference
  creationTime : UInt64
  modificationTime : UInt64
  mftChangeTime : UInt64
  accessTime : UInt64
  allocatedSize : UInt64
  dataSize : UInt64
  fileAttributes : UInt32
  reparseTagOrEaSize : UInt32
  nameSpace : FileNameNamespace
  name : List UInt16
  deriving DecidableEq

instance : Inhabited NtfsDirectoryIndexEntry :=
  ⟨⟨⟨0, 0⟩, ⟨0, 0⟩, 0, 0, 0, 0, 0, 0, 0, 0, .posix, []⟩⟩

structure SerializedNtfsDirectoryIndex where
  indexRoot : Bytes
  indexAllocation : Bytes
  bitmap : Bytes
  blockVcns : List ℕ
  deriving DecidableEq

structure ValidatedNtfsDirectoryIndex where
  entryCount : ℕ
  blockCount : ℕ
  spilled : Bool
  deriving DecidableEq

inductive NtfsDirectoryIndexError
  | incompleteUpcaseTable (actual : ℕ)
  | unsupportedGeometry (reason : String)
  | invalidLimit (field : String)
  | entryLimitExceeded (actual maximum : ℕ)
  | emptyName (entry : ℕ)
  | nameTooLong (entry actual maximum : ℕ)
  | fileReferenceOutOfRange (entry recordNumber : ℕ)
  | collationCollision (first second : ℕ)
  | entryCannotFitLeaf (entry required available : ℕ)
  | unsupportedSingleLevelPartition (remainingEntries : ℕ)
  | multiLevelTreeRequired (rootBytes maximum : ℕ)
  | allocationLimitExceeded (actual maximum : ℕ)
  | blockLimitExceeded (actual maximum : ℕ)
  | arithmeticOverflow
  | malformed (component reason : String)
  /-- A component that the parser refuses; the reason is the text of its error. -/
  | malformedNode (component : String) (error : NtfsIndexError)
  deriving DecidableEq

/-- A result of the serializer. -/
abbrev Indexed (α : Type) := Except NtfsDirectoryIndexError α

structure CheckedGeometry where
  blockBytes : ℕ
  vcnUnitsPerBlock : ℕ
  entriesOffset : ℕ
  leafEntryBytes : ℕ
  rootBudget : ℕ

/-! ## Sizes and names -/

/-- `align_eight`, checked. -/
def checkedAlignEight (value : ℕ) : Indexed ℕ := do
  let padded ← orErr (checkedAdd value 7) .arithmeticOverflow
  pure (padded / 8 * 8)

def serializedEntryLen (nameUnits : ℕ) (child : Bool) : Indexed ℕ := do
  let nameBytes ← orErr (checkedMul nameUnits 2) .arithmeticOverflow
  let childBytes := if child then 8 else 0
  let bytes ← orErr (checkedAdd (indexEntryHeaderBytes + fileNameKeyHeaderBytes) nameBytes)
    .arithmeticOverflow
  let bytes ← orErr (checkedAdd bytes childBytes) .arithmeticOverflow
  checkedAlignEight bytes

def serializedTerminalLen (child : Bool) : ℕ := indexEntryHeaderBytes + if child then 8 else 0

/-- The up-cased value of a code unit. -/
def upcaseUnit (upcase : List UInt16) (unit : UInt16) : UInt16 := upcase.getD unit.toNat 0

/-- The first position on which the up-cased units differ decides. -/
def collateUpcased (upcase : List UInt16) : List UInt16 → List UInt16 → Ordering
  | l :: left, r :: right =>
    (compare (upcaseUnit upcase l) (upcaseUnit upcase r)).then (collateUpcased upcase left right)
  | _, _ => .eq

/-- The first position on which the units themselves differ decides. -/
def collateRaw : List UInt16 → List UInt16 → Ordering
  | l :: left, r :: right => (compare l r).then (collateRaw left right)
  | _, _ => .eq

def collateNames (left right : List UInt16) (upcase : List UInt16) : Ordering :=
  (collateUpcased upcase left right).then
    ((compare left.length right.length).then (collateRaw left right))

/-! ## Checks -/

/-- The VCN units of one block: clusters, or sectors below the cluster size. -/
def vcnUnits (blockBytes clusterBytes : ℕ) : Indexed ℕ :=
  if clusterBytes ≤ blockBytes then do
    ensure (blockBytes % clusterBytes = 0) (.unsupportedGeometry
      "index blocks at least one cluster must contain a whole cluster count")
    pure (blockBytes / clusterBytes)
  else do
    ensure (clusterBytes % blockBytes = 0) (.unsupportedGeometry
      "sub-cluster index blocks must divide one cluster exactly")
    pure (blockBytes / indexStride)

def checkGeometry (upcase : List UInt16) (geometry : NtfsDirectoryIndexGeometry)
    (limits : NtfsDirectoryIndexLimits) : Indexed CheckedGeometry := do
  ensure (upcase.length = fullUpcaseUnits) (.incompleteUpcaseTable upcase.length)
  ensure (limits.maxEntries ≠ 0) (.invalidLimit "max_entries")
  ensure (limits.maxBlocks ≠ 0) (.invalidLimit "max_blocks")
  ensure (limits.maxNameCodeUnits ≠ 0) (.invalidLimit "max_name_code_units")
  let blockBytes := geometry.indexBlockBytes
  let clusterBytes := geometry.clusterBytes
  ensure (indexStride ≤ clusterBytes ∧ isPowerOfTwo clusterBytes) (.unsupportedGeometry
    "cluster size must be a power of two of at least 512 bytes")
  ensure (isPowerOfTwo blockBytes ∧ blockBytes % indexStride = 0) (.unsupportedGeometry
    "index blocks must be power-of-two multiples of 512 bytes")
  ensure (blockBytes ≤ limits.maxBlockBytes) (.unsupportedGeometry
    "index block exceeds the configured block-size cap")
  let vcnUnitsPerBlock ← vcnUnits blockBytes clusterBytes
  ensure (vcnUnitsPerBlock < 256) (.unsupportedGeometry
    "index-block VCN units do not fit the supported positive root field")
  ensure (vcnUnitsPerBlock ≠ 0) (.unsupportedGeometry "index-block VCN units must be nonzero")
  let sectorCount := blockBytes / indexStride
  let usaCount ← orErr (checkedAdd sectorCount 1) .arithmeticOverflow
  let usaBytes ← orErr (checkedMul usaCount 2) .arithmeticOverflow
  let usaEnd ← orErr (checkedAdd indexSequenceOffset usaBytes) .arithmeticOverflow
  ensure (usaEnd ≤ indexStride - 2) (.unsupportedGeometry
    "update-sequence array does not fit before the first sector trailer")
  let entriesOffset ← checkedAlignEight usaEnd
  let leafEntryBytes ← orErr (checkedSub blockBytes entriesOffset) (.unsupportedGeometry
    "index block has no room for entries")
  ensure (indexEntryHeaderBytes ≤ leafEntryBytes) (.unsupportedGeometry
    "index block has no room for a terminal entry")
  let rootBudget := min geometry.residentRootBytes limits.maxRootBytes
  ensure (indexRootPrefixBytes + indexHeaderBytes + indexEntryHeaderBytes ≤ rootBudget)
    (.unsupportedGeometry "resident root budget cannot hold an empty small index")
  pure ⟨blockBytes, vcnUnitsPerBlock, entriesOffset, leafEntryBytes, rootBudget⟩

def checkReference (position : ℕ) (reference : NtfsFileReference) : Indexed Unit :=
  ensure (reference.recordNumber.toNat ≤ maxMftRecordNumber)
    (.fileReferenceOutOfRange position reference.recordNumber.toNat)

def checkEntry (maximumName : ℕ) (entry : ℕ × NtfsDirectoryIndexEntry) : Indexed Unit := do
  ensure (entry.2.name ≠ []) (.emptyName entry.1)
  ensure (entry.2.name.length ≤ maximumName)
    (.nameTooLong entry.1 entry.2.name.length maximumName)
  checkReference entry.1 entry.2.fileReference
  checkReference entry.1 entry.2.parentDirectory

/-- The entries with their positions in the input. -/
def enumerate (entries : List NtfsDirectoryIndexEntry) : List (ℕ × NtfsDirectoryIndexEntry) :=
  entries.zipIdx.map Prod.swap

def checkInputs (entries : List NtfsDirectoryIndexEntry) (upcase : List UInt16)
    (geometry : NtfsDirectoryIndexGeometry) (limits : NtfsDirectoryIndexLimits) :
    Indexed CheckedGeometry := do
  let checked ← checkGeometry upcase geometry limits
  ensure (entries.length ≤ limits.maxEntries)
    (.entryLimitExceeded entries.length limits.maxEntries)
  let maximumName := min limits.maxNameCodeUnits 255
  checkAll (checkEntry maximumName) (enumerate entries)
  pure checked

/-! ## Partitions -/

def rootSizeFrom (children : Bool) : ℕ → List NtfsDirectoryIndexEntry → Indexed ℕ
  | bytes, [] => orErr (checkedAdd bytes (serializedTerminalLen children)) .arithmeticOverflow
  | bytes, entry :: rest => do
    let size ← serializedEntryLen entry.name.length children
    let bytes ← orErr (checkedAdd bytes size) .arithmeticOverflow
    rootSizeFrom children bytes rest

def rootSize (entries : List NtfsDirectoryIndexEntry) (children : Bool) : Indexed ℕ :=
  rootSizeFrom children (indexRootPrefixBytes + indexHeaderBytes) entries

/-- The entries at the given positions. -/
def select (entries : List NtfsDirectoryIndexEntry) (positions : List ℕ) :
    List NtfsDirectoryIndexEntry :=
  positions.map fun position => entries.getD position default

def rootSizeForSeparators (entries : List NtfsDirectoryIndexEntry) (separators : List ℕ) :
    Indexed ℕ :=
  rootSize (select entries separators) true

/-- How many of the entries fit behind each other into the capacity of a node. -/
def packEntries (capacity : ℕ) (child : Bool) : ℕ → List NtfsDirectoryIndexEntry → Indexed ℕ
  | _, [] => pure 0
  | used, entry :: rest => do
    let size ← serializedEntryLen entry.name.length child
    if (checkedAdd used size).all (capacity < ·) then pure 0
    else do
      let more ← packEntries capacity child (used + size) rest
      pure (more + 1)

/-- The leaves from a position on, the separators between them and the position of the last leaf. Each
step places an entry, so as much fuel as there are entries is enough. -/
def partitionLeavesFrom (entries : List NtfsDirectoryIndexEntry) (capacity : ℕ) :
    ℕ → ℕ → Indexed (List (ℕ × ℕ) × List ℕ × ℕ)
  | 0, cursor => pure ([], [], cursor)
  | fuel + 1, cursor =>
    if entries.length ≤ cursor then pure ([], [], cursor)
    else do
      let packed ← packEntries capacity false 0 (entries.drop cursor)
      if cursor + packed = entries.length then pure ([(cursor, cursor + packed)], [], cursor)
      else do
        -- a separator and one more entry stay behind the leaf
        let maximumGroup := entries.length - cursor - 2
        let stop := min (cursor + packed) (cursor + maximumGroup)
        ensure (stop ≠ cursor) (.unsupportedSingleLevelPartition (entries.length - cursor))
        let rest ← partitionLeavesFrom entries capacity fuel (stop + 1)
        pure ((cursor, stop) :: rest.1, stop :: rest.2.1, rest.2.2)

def partitionLeaves (entries : List NtfsDirectoryIndexEntry) (checked : CheckedGeometry) :
    Indexed (List (ℕ × ℕ) × List ℕ) := do
  let capacity ← orErr (checkedSub checked.leafEntryBytes indexEntryHeaderBytes) .arithmeticOverflow
  let parts ← partitionLeavesFrom entries capacity (entries.length + 1) 0
  ensure (parts.1.length = parts.2.1.length + 1 ∧ ∀ range ∈ parts.1, range.1 < range.2)
    (.unsupportedSingleLevelPartition (entries.length - parts.2.2))
  pure (parts.1, parts.2.1)

/-- A node over neighbouring children: its separators and the number of its children. -/
abbrev IndexNodeGroup := List ℕ × ℕ

def checkKeyFits (capacity : ℕ) (sorted : List (ℕ × NtfsDirectoryIndexEntry)) (key : ℕ) :
    Indexed Unit := do
  let entry := sorted.getD key default
  let required ← serializedEntryLen entry.2.name.length true
  ensure (required ≤ capacity) (.entryCannotFitLeaf entry.1 required capacity)

/-- The groups of the remaining children, given the separators between them. -/
def groupNodesFrom (entries : List NtfsDirectoryIndexEntry) (capacity childCount : ℕ) :
    ℕ → List ℕ → ℕ → Indexed (List IndexNodeGroup × List ℕ × ℕ)
  | 0, _, childCursor => pure ([], [], childCursor)
  | fuel + 1, keys, childCursor =>
    if childCount ≤ childCursor then pure ([], [], childCursor)
    else do
      let remainingChildren := childCount - childCursor
      let packedKeys ← packEntries capacity true 0 (select entries keys)
      let next ← orErr (checkedAdd packedKeys 1) .arithmeticOverflow
      let take := min next remainingChildren
      if childCursor + take < childCount then do
        let take := min take (remainingChildren - 1)
        ensure (take ≠ 0 ∧ take ≤ keys.length) (.unsupportedSingleLevelPartition remainingChildren)
        let groupKeyCount := take - 1
        let rest ← groupNodesFrom entries capacity childCount fuel (keys.drop take)
          (childCursor + take)
        pure ((keys.take groupKeyCount, take) :: rest.1, keys.getD groupKeyCount 0 :: rest.2.1,
          rest.2.2)
      else do
        ensure (keys.length + 1 = take) (.unsupportedSingleLevelPartition remainingChildren)
        pure ([(keys, take)], [], childCursor)

def partitionIndexNodes (sorted : List (ℕ × NtfsDirectoryIndexEntry)) (keys : List ℕ)
    (childCount : ℕ) (checked : CheckedGeometry) : Indexed (List IndexNodeGroup × List ℕ) := do
  ensure (childCount ≠ 0 ∧ checkedAdd keys.length 1 = some childCount) .arithmeticOverflow
  let capacity ← orErr (checkedSub checked.leafEntryBytes (serializedTerminalLen true))
    .arithmeticOverflow
  checkAll (checkKeyFits capacity sorted) keys
  let parts ← groupNodesFrom (sorted.map Prod.snd) capacity childCount (childCount + 1) keys 0
  ensure (parts.1.length = parts.2.1.length + 1 ∧ ∀ group ∈ parts.1, group.2 ≠ 0)
    (.unsupportedSingleLevelPartition (childCount - parts.2.2))
  pure (parts.1, parts.2.1)

/-! ## Bytes -/

def encodeReference (reference : NtfsFileReference) : Indexed ℕ := do
  ensure (reference.recordNumber.toNat ≤ maxMftRecordNumber) .arithmeticOverflow
  pure (reference.recordNumber.toNat ||| reference.sequenceNumber.toNat <<< 48)

def namespaceByte : FileNameNamespace → UInt8
  | .posix => 0
  | .win32 => 1
  | .dos => 2
  | .win32AndDos => 3

def encodeFileNameKey (entry : NtfsDirectoryIndexEntry) : Indexed Bytes := do
  let nameBytes ← orErr (checkedMul entry.name.length 2) .arithmeticOverflow
  let keyBytes ← orErr (checkedAdd fileNameKeyHeaderBytes nameBytes) .arithmeticOverflow
  let parent ← encodeReference entry.parentDirectory
  ensure (entry.name.length < 256) .arithmeticOverflow
  pure <| applyAll
    [put 8 0 parent, put 8 8 entry.creationTime.toNat, put 8 16 entry.modificationTime.toNat,
      put 8 24 entry.mftChangeTime.toNat, put 8 32 entry.accessTime.toNat,
      put 8 40 entry.allocatedSize.toNat, put 8 48 entry.dataSize.toNat,
      put 4 56 entry.fileAttributes.toNat, put 4 60 entry.reparseTagOrEaSize.toNat,
      put 1 64 entry.name.length, ⟨65, [namespaceByte entry.nameSpace]⟩,
      ⟨fileNameKeyHeaderBytes, utf16Bytes entry.name⟩]
    (zeros keyBytes)

/-- The child pointer at the end of an entry. -/
def childPatch (length : ℕ) : Option ℕ → List (Patch UInt8)
  | none => []
  | some vcn => [put 8 (length - 8) vcn]

def nodeFlag (childVcn : Option ℕ) : ℕ := if childVcn.isSome then indexEntryNode else 0

def appendEntry (output : Bytes) (entry : NtfsDirectoryIndexEntry) (childVcn : Option ℕ) :
    Indexed Bytes := do
  let key ← encodeFileNameKey entry
  let length ← serializedEntryLen entry.name.length childVcn.isSome
  let _ ← orErr (checkedAdd output.length length) .arithmeticOverflow
  let reference ← encodeReference entry.fileReference
  ensure (length < 2 ^ 16) .arithmeticOverflow
  ensure (key.length < 2 ^ 16) .arithmeticOverflow
  pure <| output ++ applyAll
    ([put 8 0 reference, put 2 8 length, put 2 10 key.length, put 2 12 (nodeFlag childVcn),
      ⟨indexEntryHeaderBytes, key⟩] ++ childPatch length childVcn)
    (zeros length)

def appendTerminal (output : Bytes) (childVcn : Option ℕ) : Indexed Bytes := do
  let length := serializedTerminalLen childVcn.isSome
  let _ ← orErr (checkedAdd output.length length) .arithmeticOverflow
  ensure (length < 2 ^ 16) .arithmeticOverflow
  pure <| output ++ applyAll
    ([put 2 8 length, put 2 12 (indexEntryEnd ||| nodeFlag childVcn)] ++ childPatch length childVcn)
    (zeros length)

/-- Appends the entries of a node with the child pointers before them, and the terminal entry. -/
def appendNode (output : Bytes) : List NtfsDirectoryIndexEntry → List (Option ℕ) → Indexed Bytes
  | [], children => appendTerminal output (children.headD none)
  | entry :: rest, children => do
    let output ← appendEntry output entry (children.headD none)
    appendNode output rest children.tail

/-- The child pointers of a node, when it has children. -/
def nodeChildren (children : Bool) (childVcns : List ℕ) : List (Option ℕ) :=
  if children then childVcns.map some else []

def buildRoot (entries : List NtfsDirectoryIndexEntry) (separators childVcns : List ℕ)
    (checked : CheckedGeometry) (children : Bool) : Indexed Bytes := do
  let selected := if children then select entries separators else entries
  ensure (children = true → childVcns.length = selected.length + 1) .arithmeticOverflow
  let _ ← rootSize selected children
  ensure (checked.blockBytes < wordBound32) .arithmeticOverflow
  let front := applyAll
    [put 4 0 fileNameAttributeType, put 4 4 fileNameCollationRule, put 4 8 checked.blockBytes,
      ⟨12, [UInt8.ofNat checked.vcnUnitsPerBlock]⟩]
    (zeros (indexRootPrefixBytes + indexHeaderBytes))
  let bytes ← appendNode front selected (nodeChildren children childVcns)
  let used ← orErr (checkedSub bytes.length indexRootPrefixBytes) .arithmeticOverflow
  ensure (used < wordBound32) .arithmeticOverflow
  pure <| applyAll
    [put 4 indexRootPrefixBytes 16, put 4 (indexRootPrefixBytes + 4) used,
      put 4 (indexRootPrefixBytes + 8) used,
      ⟨indexRootPrefixBytes + 12, [if children then 1 else 0]⟩]
    bytes

def updateSequenceNumber (blockNumber : ℕ) : ℕ := 0xa000 + blockNumber % 0x5ffe

/-- Moves the end of each sector into the update-sequence array. -/
def protectSectors (usn : ℕ) : List ℕ → Bytes → Bytes
  | [], bytes => bytes
  | sector :: rest, bytes =>
    let trailer := (sector + 1) * indexStride - 2
    let original := leAt 2 bytes trailer
    protectSectors usn rest
      (applyAll [put 2 (indexSequenceOffset + 2 + sector * 2) original, put 2 trailer usn] bytes)

/-- The record before its sectors are protected. -/
def unprotectedBlock (checked : CheckedGeometry) (hasChildren : Bool) (vcn usn : ℕ)
    (encoded : Bytes) : Bytes :=
  applyAll
    [⟨0, indxMagic⟩, put 2 4 indexSequenceOffset, put 2 6 (checked.blockBytes / indexStride + 1),
      put 8 16 vcn, put 4 indexBlockHeaderBytes (checked.entriesOffset - indexBlockHeaderBytes),
      put 4 (indexBlockHeaderBytes + 4)
        (checked.entriesOffset + encoded.length - indexBlockHeaderBytes),
      put 4 (indexBlockHeaderBytes + 8) (checked.blockBytes - indexBlockHeaderBytes),
      ⟨indexBlockHeaderBytes + 12, [if hasChildren then 1 else 0]⟩,
      put 2 indexSequenceOffset usn, ⟨checked.entriesOffset, encoded⟩]
    (zeros checked.blockBytes)

/-- Writes one record. All fields before the entries lie inside a block of a checked geometry. -/
def buildIndexBlock (entries : List NtfsDirectoryIndexEntry) (childVcns : List ℕ)
    (hasChildren : Bool) (vcn blockNumber : ℕ) (checked : CheckedGeometry) : Indexed Bytes := do
  ensure (hasChildren = true → childVcns.length = entries.length + 1) .arithmeticOverflow
  ensure (hasChildren = false → childVcns = []) .arithmeticOverflow
  let sectorCount := checked.blockBytes / indexStride
  let usaCount ← orErr (checkedAdd sectorCount 1) .arithmeticOverflow
  ensure (usaCount < 2 ^ 16) .arithmeticOverflow
  let encoded ← appendNode [] entries (nodeChildren hasChildren childVcns)
  let usedEnd ← orErr (checkedAdd checked.entriesOffset encoded.length) .arithmeticOverflow
  ensure (usedEnd ≤ checked.blockBytes)
    (.malformed "INDEX_ALLOCATION" "index entries exceed their block")
  ensure (checked.blockBytes - indexBlockHeaderBytes < wordBound32) .arithmeticOverflow
  let usn := updateSequenceNumber blockNumber
  pure <| protectSectors usn (List.range sectorCount)
    (unprotectedBlock checked hasChildren vcn usn encoded)

/-! ## Spilling -/

/-- A planned record. -/
inductive PlannedIndexNode
  | leaf (start stop : ℕ)
  | inner (children separators : List ℕ)
  deriving DecidableEq

def childVcn (blockNumber vcnUnitsPerBlock : ℕ) : Indexed ℕ :=
  orErr (checkedMul blockNumber vcnUnitsPerBlock) .arithmeticOverflow

def blockVcns (count vcnUnitsPerBlock : ℕ) : Indexed (List ℕ) :=
  decodeEach (childVcn · vcnUnitsPerBlock) (List.range count)

def buildBitmap (blockCount : ℕ) : Indexed Bytes := do
  let padded ← orErr (checkedAdd blockCount 7) .arithmeticOverflow
  let byteCount ← checkedAlignEight (padded / 8)
  pure <| (List.range blockCount).foldl (fun bitmap block =>
    bitmap.set (block / 8) (bitmap.getD (block / 8) 0 ||| 1 <<< UInt8.ofNat (block % 8)))
    (zeros byteCount)

/-- The VCN of each of the given blocks. -/
def vcnsOf (blockVcns children : List ℕ) : Indexed (List ℕ) :=
  decodeEach (fun child => orErr blockVcns[child]? .arithmeticOverflow) children

def buildPlannedBlock (entries : List NtfsDirectoryIndexEntry) (blockVcns : List ℕ) (vcn : ℕ)
    (blockNumber : ℕ) (checked : CheckedGeometry) : PlannedIndexNode → Indexed Bytes
  | .leaf start stop =>
    buildIndexBlock (sliceAt entries start (stop - start)) [] false vcn blockNumber checked
  | .inner children separators => do
    ensure (children.length = separators.length + 1) .arithmeticOverflow
    let childVcns ← vcnsOf blockVcns children
    buildIndexBlock (select entries separators) childVcns true vcn blockNumber checked

/-- The records of the planned nodes, one behind the other. -/
def buildPlannedBlocks (entries : List NtfsDirectoryIndexEntry) (blockVcns : List ℕ)
    (checked : CheckedGeometry) : ℕ → List PlannedIndexNode → Indexed Bytes
  | _, [] => pure []
  | blockNumber, node :: rest => do
    let block ← buildPlannedBlock entries blockVcns (blockVcns.getD blockNumber 0) blockNumber
      checked node
    let more ← buildPlannedBlocks entries blockVcns checked (blockNumber + 1) rest
    pure (block ++ more)

def emitSpilledIndex (entries : List NtfsDirectoryIndexEntry) (nodes : List PlannedIndexNode)
    (rootChildren separators : List ℕ) (checked : CheckedGeometry)
    (limits : NtfsDirectoryIndexLimits) : Indexed SerializedNtfsDirectoryIndex := do
  ensure (nodes.length ≤ limits.maxBlocks) (.blockLimitExceeded nodes.length limits.maxBlocks)
  let allocationBytes ← orErr (checkedMul checked.blockBytes nodes.length) .arithmeticOverflow
  ensure (allocationBytes ≤ limits.maxAllocationBytes)
    (.allocationLimitExceeded allocationBytes limits.maxAllocationBytes)
  let vcns ← blockVcns nodes.length checked.vcnUnitsPerBlock
  let indexAllocation ← buildPlannedBlocks entries vcns checked 0 nodes
  let rootChildVcns ← vcnsOf vcns rootChildren
  let indexRoot ← buildRoot entries separators rootChildVcns checked true
  let bitmap ← buildBitmap nodes.length
  pure ⟨indexRoot, indexAllocation, bitmap, vcns⟩

/-- Joins the nodes of a level under new nodes, one for each group. -/
def formLevel (level : List ℕ) :
    List IndexNodeGroup → ℕ → List PlannedIndexNode → Indexed (List PlannedIndexNode × List ℕ)
  | [], _, nodes => pure (nodes, [])
  | (separators, childCount) :: groups, childCursor, nodes => do
    let stop ← orErr (checkedAdd childCursor childCount) .arithmeticOverflow
    ensure (stop ≤ level.length) .arithmeticOverflow
    let rest ← formLevel level groups stop
      (nodes ++ [.inner (sliceAt level childCursor (stop - childCursor)) separators])
    pure (rest.1, nodes.length :: rest.2)

/-- Emits the index when the separators fit into the root, and adds a level otherwise. -/
def spillLevels (sorted : List (ℕ × NtfsDirectoryIndexEntry)) (checked : CheckedGeometry)
    (limits : NtfsDirectoryIndexLimits) :
    ℕ → List PlannedIndexNode → List ℕ → List ℕ → Indexed SerializedNtfsDirectoryIndex
  | 0, _, _, separators => do
    let rootBytes ← rootSizeForSeparators (sorted.map Prod.snd) separators
    .error (.multiLevelTreeRequired rootBytes checked.rootBudget)
  | depth + 1, nodes, level, separators => do
    let rootBytes ← rootSizeForSeparators (sorted.map Prod.snd) separators
    if rootBytes ≤ checked.rootBudget then
      emitSpilledIndex (sorted.map Prod.snd) nodes level separators checked limits
    else do
      let parts ← partitionIndexNodes sorted separators level.length checked
      let next ← formLevel level parts.1 0 nodes
      ensure (next.2 ≠ [] ∧ next.2.length < level.length)
        (.multiLevelTreeRequired rootBytes checked.rootBudget)
      spillLevels sorted checked limits depth next.1 next.2 parts.2

def spillDirectoryIndex (sorted : List (ℕ × NtfsDirectoryIndexEntry)) (checked : CheckedGeometry)
    (limits : NtfsDirectoryIndexLimits) : Indexed SerializedNtfsDirectoryIndex := do
  let parts ← partitionLeaves (sorted.map Prod.snd) checked
  let nodes := parts.1.map fun range => PlannedIndexNode.leaf range.1 range.2
  spillLevels sorted checked limits maxIndexDepth nodes (List.range nodes.length) parts.2

def checkLeafFit (checked : CheckedGeometry) (entry : ℕ × NtfsDirectoryIndexEntry) :
    Indexed Unit := do
  let size ← serializedEntryLen entry.2.name.length false
  let required ← orErr (checkedAdd size indexEntryHeaderBytes) .arithmeticOverflow
  ensure (required ≤ checked.leafEntryBytes)
    (.entryCannotFitLeaf entry.1 required checked.leafEntryBytes)

/-- The entries with their positions in collation order. -/
def sortEntries (entries : List NtfsDirectoryIndexEntry) (upcase : List UInt16) :
    List (ℕ × NtfsDirectoryIndexEntry) :=
  (enumerate entries).insertionSort fun left right =>
    collateNames left.2.name right.2.name upcase ≠ .gt

/-- The index inside the resident root, or spilled when it does not fit there. -/
def serializeSorted (sorted : List (ℕ × NtfsDirectoryIndexEntry)) (checked : CheckedGeometry)
    (limits : NtfsDirectoryIndexLimits) : Indexed SerializedNtfsDirectoryIndex := do
  let residentBytes ← rootSize (sorted.map Prod.snd) false
  if residentBytes ≤ checked.rootBudget then do
    let indexRoot ← buildRoot (sorted.map Prod.snd) [] [] checked false
    pure ⟨indexRoot, [], [], []⟩
  else do
    checkAll (checkLeafFit checked) sorted
    spillDirectoryIndex sorted checked limits

def serializeNtfsDirectoryIndex (entries : List NtfsDirectoryIndexEntry) (upcase : List UInt16)
    (geometry : NtfsDirectoryIndexGeometry) (limits : NtfsDirectoryIndexLimits) :
    Indexed SerializedNtfsDirectoryIndex := do
  let checked ← checkInputs entries upcase geometry limits
  let sorted := sortEntries entries upcase
  checkPairs (fun first second =>
    ensure (collateNames first.2.name second.2.name upcase ≠ .eq)
      (.collationCollision first.1 second.1)) sorted
  serializeSorted sorted checked limits

end Ntfs

end StarConverter
