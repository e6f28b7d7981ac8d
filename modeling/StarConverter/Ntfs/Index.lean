import StarConverter.Base.Fields
import StarConverter.Ntfs.BadClus

/-!
# Parsing NTFS directory indexes

The parser of a resident `INDEX_ROOT` value and of an `INDX` record. The update sequence of a record
is undone virtually: a `ByteView` shows the bytes behind it. Every entry of a node is validated
before the node is accepted; the entries are decoded from the accepted node.
-/

namespace StarConverter

open Base

namespace Ntfs

def fileNameAttributeType : ℕ := 0x30
def fileNameCollationRule : ℕ := 0x01
def indexStride : ℕ := 512
def indexRootHeaderLen : ℕ := 16
def indexHeaderLen : ℕ := 16
def indexBlockHeaderLen : ℕ := 24
def indexEntryHeaderLen : ℕ := 16
def fileNameKeyHeaderLen : ℕ := 66
def indxMagic : Bytes := ascii "INDX"

/-- Caps of the index parser. -/
structure NtfsIndexLimits where
  maxRootBytes : ℕ
  maxBlockBytes : ℕ
  maxEntriesPerNode : ℕ
  maxNameCodeUnits : ℕ

structure NtfsFileReference where
  recordNumber : UInt64
  sequenceNumber : UInt16
  deriving DecidableEq

structure NtfsIndexHeader where
  entriesOffset : ℕ
  indexLength : ℕ
  allocatedSize : ℕ
  hasChildren : Bool
  deriving DecidableEq

inductive FileNameNamespace
  | posix
  | win32
  | dos
  | win32AndDos
  deriving DecidableEq

/-- The `$FILE_NAME` key of a directory index entry. -/
structure NtfsFileNameKey where
  parentDirectory : NtfsFileReference
  creationTime : UInt64
  modificationTime : UInt64
  mftChangeTime : UInt64
  accessTime : UInt64
  allocatedSize : UInt64
  dataSize : UInt64
  fileAttributes : UInt32
  reparseTagOrEaSize : UInt32
  nameSpace : FileNameNamespace
  name : List UInt16
  deriving DecidableEq

/-- One decoded entry; the terminal entry has neither reference nor key. -/
structure NtfsIndexEntry where
  fileReference : Option NtfsFileReference
  entryLength : ℕ
  keyLength : ℕ
  hasChild : Bool
  isEnd : Bool
  childVcn : Option ℕ
  fileName : Option NtfsFileNameKey
  deriving DecidableEq

inductive NtfsIndexError
  | truncated (actual required : ℕ)
  | inputTooLarge (actual maximum : ℕ)
  | unsupportedAttributeType (found : ℕ)
  | unsupportedCollationRule (found : ℕ)
  | invalidIndexBlockSize (value : ℕ)
  | invalidClustersPerIndexBlock (value : ℕ)
  | invalidMagic (found : Bytes)
  | blockSizeNotStrideAligned (size stride : ℕ)
  | invalidUpdateSequenceOffset (value : ℕ)
  | invalidUpdateSequenceCount (found expected : ℕ)
  | updateSequenceArrayOutOfBounds (offset length : ℕ)
  | fixupMismatch (sector found expected : ℕ)
  | negativeIndexBlockVcn (value : ℤ)
  | unexpectedIndexBlockVcn (found expected : ℕ)
  | invalidIndexHeaderFlags (value : ℕ)
  | nonzeroIndexHeaderReserved
  | invalidEntriesOffset (value minimum : ℕ)
  | entriesOffsetNotEightByteAligned (value : ℕ)
  | invalidIndexLength (value entriesOffset available : ℕ)
  | invalidAllocatedSize (value indexLength available : ℕ)
  | truncatedEntry (offset remaining : ℕ)
  | invalidEntryLength (offset value remaining : ℕ)
  | noncanonicalEntryLength (offset found expected : ℕ)
  | entryLengthNotEightByteAligned (offset value : ℕ)
  | invalidEntryFlags (offset value : ℕ)
  | nonzeroEntryReserved (offset value : ℕ)
  | invalidKeyLength (offset value available : ℕ)
  | terminalEntryHasKey (offset keyLength : ℕ)
  | missingChildVcn (offset : ℕ)
  | negativeChildVcn (offset : ℕ) (value : ℤ)
  | invalidFileNameKeyLength (offset value : ℕ)
  | invalidFileNameNamespace (offset value : ℕ)
  | emptyFileName (offset : ℕ)
  | fileNameTooLong (offset found maximum : ℕ)
  | fileNameLengthMismatch (offset keyLength expected : ℕ)
  | entryLimitExceeded (maximum : ℕ)
  | missingEndEntry
  | dataAfterEndEntry (stop usedEnd : ℕ)
  | childFlagMismatch (headerHasChildren entriesHaveChildren : Bool)
  | mixedChildPointers
  deriving DecidableEq

/-! ## Views of bytes -/

/-- Plain bytes, or a record seen through its update sequence. -/
inductive ByteView
  | plain (bytes : Bytes)
  | mst (bytes : Bytes) (updateSequenceOffset : ℕ)
  deriving DecidableEq

namespace ByteView

def len : ByteView → ℕ
  | plain bytes => bytes.length
  | mst bytes _ => bytes.length

def byte : ByteView → ℕ → UInt8
  | plain bytes, offset => bytes.getD offset 0
  | mst bytes updateSequenceOffset, offset =>
    let withinSector := offset % indexStride
    if indexStride - 2 ≤ withinSector then
      let replacement := updateSequenceOffset + 2 + offset / indexStride * 2
      bytes.getD (replacement + withinSector - (indexStride - 2)) 0
    else bytes.getD offset 0

/-- `u16`, `u32`, `u64`: the little-endian word of `n` bytes at an offset. -/
def word (n : ℕ) (view : ByteView) (offset : ℕ) : ℕ :=
  fromLe ((List.range n).map fun i => view.byte (offset + i))

end ByteView

/-- The signed value of the bits of a 64-bit word. -/
def signedWord (raw : ℕ) : ℤ := if raw < 2 ^ 63 then raw else (raw : ℤ) - 2 ^ 64

/-! ## Entries -/

/-- What the validation of an entry tells about it. -/
structure ValidatedEntryShape where
  length : ℕ
  isEnd : Bool
  hasChild : Bool

def validateFileNameKey (view : ByteView) (offset keyLength : ℕ) (limits : NtfsIndexLimits) :
    Except NtfsIndexError Unit := do
  ensure (fileNameKeyHeaderLen ≤ keyLength) (.invalidFileNameKeyLength offset keyLength)
  let nameUnits := (view.byte (offset + 64)).toNat
  ensure (nameUnits ≠ 0) (.emptyFileName offset)
  ensure (nameUnits ≤ limits.maxNameCodeUnits)
    (.fileNameTooLong offset nameUnits limits.maxNameCodeUnits)
  let nameSpace := (view.byte (offset + 65)).toNat
  ensure (nameSpace ≤ 3) (.invalidFileNameNamespace offset nameSpace)
  let expected := fileNameKeyHeaderLen + nameUnits * 2
  ensure (keyLength = expected) (.fileNameLengthMismatch offset keyLength expected)

def validateEntry (view : ByteView) (offset remaining : ℕ) (limits : NtfsIndexLimits) :
    Except NtfsIndexError ValidatedEntryShape := do
  let entryLength := view.word 2 (offset + 8)
  let keyLength := view.word 2 (offset + 10)
  let flags := view.word 2 (offset + 12)
  let reserved := view.word 2 (offset + 14)
  ensure (reserved = 0) (.nonzeroEntryReserved offset reserved)
  ensure (flags < 4) (.invalidEntryFlags offset flags)
  ensure (indexEntryHeaderLen ≤ entryLength ∧ entryLength ≤ remaining)
    (.invalidEntryLength offset entryLength remaining)
  ensure (entryLength % 8 = 0) (.entryLengthNotEightByteAligned offset entryLength)
  let hasChild := flags.testBit 0
  let childBytes := if hasChild then 8 else 0
  ensure (indexEntryHeaderLen + childBytes ≤ entryLength) (.missingChildVcn offset)
  let keyAvailable := entryLength - indexEntryHeaderLen - childBytes
  ensure (keyLength ≤ keyAvailable) (.invalidKeyLength offset keyLength keyAvailable)
  let isEnd := flags.testBit 1
  ensure (¬ (isEnd = true ∧ keyLength ≠ 0)) (.terminalEntryHasKey offset keyLength)
  (if isEnd then .ok ()
    else validateFileNameKey view (offset + indexEntryHeaderLen) keyLength limits)
  let expected := alignEight (indexEntryHeaderLen + keyLength + childBytes)
  ensure (entryLength = expected) (.noncanonicalEntryLength offset entryLength expected)
  let raw := signedWord (view.word 8 (offset + entryLength - 8))
  ensure (¬ (hasChild = true ∧ raw < 0)) (.negativeChildVcn offset raw)
  pure ⟨entryLength, isEnd, hasChild⟩

/-- Validates the entries of a node up to the terminal one: how many there are, whether one of them
has a child and whether all of them do. An entry is not empty, so as much fuel as there are bytes is
enough. -/
def validateEntriesFrom (view : ByteView) (usedEnd : ℕ) (limits : NtfsIndexLimits) :
    ℕ → ℕ → ℕ → Bool → Bool → Except NtfsIndexError (ℕ × Bool × Bool)
  | 0, _, _, _, _ => .error .missingEndEntry
  | fuel + 1, cursor, count, hasChildren, everyEntryHasChild => do
    ensure (count < limits.maxEntriesPerNode) (.entryLimitExceeded limits.maxEntriesPerNode)
    let remaining := usedEnd - cursor
    ensure (indexEntryHeaderLen ≤ remaining)
      (if remaining = 0 then .missingEndEntry else .truncatedEntry cursor remaining)
    let entry ← validateEntry view cursor remaining limits
    let stop := cursor + entry.length
    if entry.isEnd then do
      ensure (stop = usedEnd) (.dataAfterEndEntry stop usedEnd)
      pure (count + 1, hasChildren || entry.hasChild, everyEntryHasChild && entry.hasChild)
    else
      validateEntriesFrom view usedEnd limits fuel stop (count + 1) (hasChildren || entry.hasChild)
        (everyEntryHasChild && entry.hasChild)

def validateEntries (view : ByteView) (start usedEnd : ℕ) (limits : NtfsIndexLimits) :
    Except NtfsIndexError (ℕ × Bool × Bool) :=
  validateEntriesFrom view usedEnd limits (usedEnd + 1) start 0 false true

def decodeReference (raw : ℕ) : NtfsFileReference :=
  ⟨UInt64.ofNat (raw % 2 ^ 48), UInt16.ofNat (raw / 2 ^ 48)⟩

/-- The namespace byte of a validated key. -/
def decodeNamespace : UInt8 → FileNameNamespace
  | 0 => .posix
  | 1 => .win32
  | 2 => .dos
  | _ => .win32AndDos

def decodeFileName (view : ByteView) (offset : ℕ) : NtfsFileNameKey where
  parentDirectory := decodeReference (view.word 8 offset)
  creationTime := UInt64.ofNat (view.word 8 (offset + 8))
  modificationTime := UInt64.ofNat (view.word 8 (offset + 16))
  mftChangeTime := UInt64.ofNat (view.word 8 (offset + 24))
  accessTime := UInt64.ofNat (view.word 8 (offset + 32))
  allocatedSize := UInt64.ofNat (view.word 8 (offset + 40))
  dataSize := UInt64.ofNat (view.word 8 (offset + 48))
  fileAttributes := UInt32.ofNat (view.word 4 (offset + 56))
  reparseTagOrEaSize := UInt32.ofNat (view.word 4 (offset + 60))
  nameSpace := decodeNamespace (view.byte (offset + 65))
  name := (List.range (view.byte (offset + 64)).toNat).map fun i =>
    UInt16.ofNat (view.word 2 (offset + fileNameKeyHeaderLen + i * 2))

def decodeEntry (view : ByteView) (offset : ℕ) : NtfsIndexEntry :=
  let entryLength := view.word 2 (offset + 8)
  let keyLength := view.word 2 (offset + 10)
  let flags := view.word 2 (offset + 12)
  let hasChild := flags.testBit 0
  let isEnd := flags.testBit 1
  { fileReference := if isEnd then none else some (decodeReference (view.word 8 offset))
    entryLength
    keyLength
    hasChild
    isEnd
    childVcn := if hasChild then some (view.word 8 (offset + entryLength - 8)) else none
    fileName := if isEnd then none else some (decodeFileName view (offset + indexEntryHeaderLen)) }

/-- The next `count` entries from an offset on. -/
def decodeEntries (view : ByteView) : ℕ → ℕ → List NtfsIndexEntry
  | 0, _ => []
  | count + 1, cursor =>
    let entry := decodeEntry view cursor
    entry :: decodeEntries view count (cursor + entry.entryLength)

/-- The entries of an accepted node. -/
structure ValidatedEntries where
  view : ByteView
  start : ℕ
  count : ℕ
  deriving DecidableEq

def ValidatedEntries.entries (validated : ValidatedEntries) : List NtfsIndexEntry :=
  decodeEntries validated.view validated.count validated.start

/-! ## Nodes -/

structure NtfsIndexRoot where
  indexedAttributeType : ℕ
  collationRule : ℕ
  indexBlockSize : ℕ
  clustersPerIndexBlock : ℕ
  header : NtfsIndexHeader
  node : ValidatedEntries

structure NtfsIndexBlock where
  logFileSequenceNumber : ℕ
  indexBlockVcn : ℕ
  updateSequenceOffset : ℕ
  updateSequenceCount : ℕ
  header : NtfsIndexHeader
  node : ValidatedEntries

def NtfsIndexRoot.entries (root : NtfsIndexRoot) : List NtfsIndexEntry := root.node.entries

def NtfsIndexBlock.entries (block : NtfsIndexBlock) : List NtfsIndexEntry := block.node.entries

def parseNode (view : ByteView) (headerOffset : ℕ) (limits : NtfsIndexLimits) :
    Except NtfsIndexError (NtfsIndexHeader × ValidatedEntries) := do
  let entriesOffset := view.word 4 headerOffset
  let indexLength := view.word 4 (headerOffset + 4)
  let allocatedSize := view.word 4 (headerOffset + 8)
  let flags := (view.byte (headerOffset + 12)).toNat
  ensure (flags ≤ 1) (.invalidIndexHeaderFlags flags)
  ensure (view.byte (headerOffset + 13) = 0 ∧ view.byte (headerOffset + 14) = 0 ∧
    view.byte (headerOffset + 15) = 0) .nonzeroIndexHeaderReserved
  ensure (indexHeaderLen ≤ entriesOffset) (.invalidEntriesOffset entriesOffset indexHeaderLen)
  ensure (entriesOffset % 8 = 0) (.entriesOffsetNotEightByteAligned entriesOffset)
  let available := view.len - headerOffset
  ensure (entriesOffset ≤ indexLength ∧ indexLength ≤ available)
    (.invalidIndexLength indexLength entriesOffset available)
  ensure (indexLength ≤ allocatedSize ∧ allocatedSize ≤ available)
    (.invalidAllocatedSize allocatedSize indexLength available)
  let entriesStart := headerOffset + entriesOffset
  let usedEnd := headerOffset + indexLength
  let shape ← validateEntries view entriesStart usedEnd limits
  let entriesHaveChildren := shape.2.1
  let everyEntryHasChild := shape.2.2
  let headerHasChildren := decide (flags = 1)
  ensure (entriesHaveChildren = everyEntryHasChild) .mixedChildPointers
  ensure (headerHasChildren = entriesHaveChildren)
    (.childFlagMismatch headerHasChildren entriesHaveChildren)
  pure (⟨entriesOffset, indexLength, allocatedSize, headerHasChildren⟩,
    ⟨view, entriesStart, shape.1⟩)

def parseIndexRoot (bytes : Bytes) (limits : NtfsIndexLimits) :
    Except NtfsIndexError NtfsIndexRoot := do
  ensure (indexRootHeaderLen + indexHeaderLen ≤ bytes.length)
    (.truncated bytes.length (indexRootHeaderLen + indexHeaderLen))
  ensure (bytes.length ≤ limits.maxRootBytes) (.inputTooLarge bytes.length limits.maxRootBytes)
  let view := ByteView.plain bytes
  let indexedAttributeType := view.word 4 0
  ensure (indexedAttributeType = fileNameAttributeType)
    (.unsupportedAttributeType indexedAttributeType)
  let collationRule := view.word 4 4
  ensure (collationRule = fileNameCollationRule) (.unsupportedCollationRule collationRule)
  let indexBlockSize := view.word 4 8
  ensure (indexBlockSize ≠ 0 ∧ isPowerOfTwo indexBlockSize ∧ indexBlockSize % 512 = 0)
    (.invalidIndexBlockSize indexBlockSize)
  let clustersPerIndexBlock := (bytes.getD 12 0).toNat
  ensure (clustersPerIndexBlock ≠ 0) (.invalidClustersPerIndexBlock clustersPerIndexBlock)
  ensure (sliceAt bytes 13 3 = [0, 0, 0]) .nonzeroIndexHeaderReserved
  let node ← parseNode view indexRootHeaderLen limits
  pure ⟨indexedAttributeType, collationRule, indexBlockSize, clustersPerIndexBlock, node.1, node.2⟩

def validateFixups (bytes : Bytes) (offset count : ℕ) : Except NtfsIndexError Unit := do
  ensure (indexBlockHeaderLen + indexHeaderLen ≤ offset ∧ offset % 2 = 0)
    (.invalidUpdateSequenceOffset offset)
  let expected := 1 + bytes.length / indexStride
  ensure (count = expected) (.invalidUpdateSequenceCount count expected)
  let length := count * 2
  ensure (offset + length ≤ indexStride - 2) (.updateSequenceArrayOutOfBounds offset length)
  let usn := leAt 2 bytes offset
  checkAll (fun sector => do
    let found := leAt 2 bytes ((sector + 1) * indexStride - 2)
    ensure (found = usn) (.fixupMismatch sector found usn)) (List.range (expected - 1))

def parseIndexBlock (bytes : Bytes) (expectedVcn : Option ℕ) (limits : NtfsIndexLimits) :
    Except NtfsIndexError NtfsIndexBlock := do
  ensure (indexStride ≤ bytes.length) (.truncated bytes.length indexStride)
  ensure (bytes.length ≤ limits.maxBlockBytes) (.inputTooLarge bytes.length limits.maxBlockBytes)
  ensure (bytes.length % indexStride = 0) (.blockSizeNotStrideAligned bytes.length indexStride)
  let magic := sliceAt bytes 0 4
  ensure (magic = indxMagic) (.invalidMagic magic)
  let updateSequenceOffset := leAt 2 bytes 4
  let updateSequenceCount := leAt 2 bytes 6
  validateFixups bytes updateSequenceOffset updateSequenceCount
  let view := ByteView.mst bytes updateSequenceOffset
  let indexBlockVcn := view.word 8 16
  ensure (0 ≤ signedWord indexBlockVcn) (.negativeIndexBlockVcn (signedWord indexBlockVcn))
  ensure (∀ expected ∈ expectedVcn, indexBlockVcn = expected)
    (.unexpectedIndexBlockVcn indexBlockVcn (expectedVcn.getD 0))
  let node ← parseNode view indexBlockHeaderLen limits
  let usaEnd := updateSequenceOffset + updateSequenceCount * 2
  ensure (usaEnd ≤ indexBlockHeaderLen + node.1.entriesOffset)
    (.updateSequenceArrayOutOfBounds updateSequenceOffset (updateSequenceCount * 2))
  pure ⟨view.word 8 8, indexBlockVcn, updateSequenceOffset, updateSequenceCount, node.1, node.2⟩

end Ntfs

end StarConverter
