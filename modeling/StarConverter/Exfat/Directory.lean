import StarConverter.Base.Words

/-!
# Directory entries

A directory is a run of entries of 32 bytes. An entry set is a primary entry with the secondary
entries it counts. The whole directory is scanned twice: the first pass only checks, the second
delivers the records. Each record stands in entries of its own, so there are no more records than
entries (`parseDirectory_records`).
-/

namespace StarConverter

open Base

namespace Exfat

def entryBytes : ℕ := 32

def maxDirectoryBytes : ℕ := 256 * 1024 * 1024

/-- Resource and geometry bounds for one directory. -/
structure DirectoryContext where
  clusterCount : ℕ
  bytesPerCluster : ℕ
  numberOfFats : ℕ
  isRoot : Bool
  maxEntries : ℕ
  maxSecondaryEntries : ℕ
  deriving DecidableEq

structure DirectorySummary where
  entriesExamined : ℕ
  records : ℕ
  unusedEntries : ℕ
  reachedEndMarker : Bool
  allocationBitmaps : ℕ
  upcaseTables : ℕ
  volumeLabels : ℕ
  files : ℕ
  benignPrimarySets : ℕ
  deriving DecidableEq

structure AllocationBitmapEntry where
  bitmapIdentifier : ℕ
  firstCluster : ℕ
  dataLength : ℕ
  deriving DecidableEq

structure UpcaseTableEntry where
  tableChecksum : ℕ
  firstCluster : ℕ
  dataLength : ℕ
  deriving DecidableEq

structure VolumeLabelEntry where
  units : List UInt16
  len : ℕ
  paddingZeroed : Bool
  deriving DecidableEq

/-- A validated set of a file entry, its stream extension and its name entries. -/
structure FileEntry where
  fileAttributes : ℕ
  createTimestamp : ℕ
  modifiedTimestamp : ℕ
  accessedTimestamp : ℕ
  createCentiseconds : UInt8
  modifiedCentiseconds : UInt8
  createUtcOffset : UInt8
  modifiedUtcOffset : UInt8
  accessedUtcOffset : UInt8
  isDirectory : Bool
  noFatChain : Bool
  nameHash : ℕ
  validDataLength : ℕ
  firstCluster : ℕ
  dataLength : ℕ
  name : List UInt16
  namePaddingZeroed : Bool
  benignSecondaryEntries : ℕ
  rawSet : Bytes
  deriving DecidableEq

inductive DirectoryRecord
  | unused (entryType : UInt8) (raw : Bytes)
  | allocationBitmap (entry : AllocationBitmapEntry)
  | upcaseTable (entry : UpcaseTableEntry)
  | volumeLabel (entry : VolumeLabelEntry)
  | file (entry : FileEntry)
  | benignPrimary (entryType : UInt8) (secondaryCount : ℕ) (rawSet : Bytes)
  deriving DecidableEq

/-- The failures of the parser. `indexOutOfBounds` is no error the source returns: it stands for the
slice access that aborts. -/
inductive DirectoryError
  | invalidContext (reason : String)
  | lengthNotEntryAligned (actual : ℕ)
  | entryLimitExceeded (entries limit : ℕ)
  | invalidEntryType (index : ℕ) (entryType : UInt8)
  | unexpectedSecondary (index : ℕ) (entryType : UInt8)
  | unknownCriticalEntry (index : ℕ) (entryType : UInt8)
  | criticalSystemEntryOutsideRoot (index : ℕ) (entryType : UInt8)
  | entrySetTruncated (index secondaryCount : ℕ)
  | secondaryLimitExceeded (index count limit : ℕ)
  | invalidSetMember (index : ℕ) (entryType : UInt8)
  | setChecksumMismatch (index stored computed : ℕ)
  | reservedNotZero (index offset : ℕ) (value : UInt8)
  | invalidFlags (index value : ℕ)
  | invalidTimestamp (index offset value : ℕ)
  | invalidCluster (index cluster : ℕ)
  | invalidDataLength (index length : ℕ)
  | invalidBitmapIdentifier (index identifier : ℕ)
  | bitmapTooShort (index length required : ℕ)
  | bitmapTooLong (index length required : ℕ)
  | invalidVolumeLabelLength (index length : ℕ)
  | invalidNameLength (index length : ℕ)
  | invalidNameEntryCount (index expected found : ℕ)
  | invalidNameCharacter (index : ℕ) (codeUnit : UInt16)
  | invalidUtf16Name (index : ℕ)
  | reservedFileName (index : ℕ)
  | invalidValidDataLength (index valid data : ℕ)
  | directoryDataLengthMismatch (index valid data : ℕ)
  | directoryTooLarge (index length : ℕ)
  | contiguousAllocationOutsideHeap (index : ℕ)
  | duplicateAllocationBitmap (identifier : ℕ)
  | invalidRootEntryCount (entryType : UInt8) (found expected : ℕ)
  | arithmeticOverflow (operation : String)
  | indexOutOfBounds
  deriving DecidableEq

abbrev Parsed (α : Type) := Except DirectoryError α

/-! ## Reading entries -/

/-- The entry at an index; the slice has to be inside the bytes. -/
def entryAt (bytes : Bytes) (index : ℕ) : Parsed Bytes :=
  orErr (slice? bytes (index * entryBytes) ((index + 1) * entryBytes)) .indexOutOfBounds

/-- A byte of an entry. -/
def byteAt (entry : Bytes) (offset : ℕ) : UInt8 := entry.getD offset 0

def requireZero (entry : Bytes) (start stop index : ℕ) : Parsed Unit :=
  match (List.range' start (stop - start)).find? fun offset => byteAt entry offset ≠ 0 with
  | some offset => .error (.reservedNotZero index offset (byteAt entry offset))
  | none => pure ()

def requireRoot (context : DirectoryContext) (index : ℕ) (entryType : UInt8) : Parsed Unit :=
  ensure (context.isRoot = true) (.criticalSystemEntryOutsideRoot index entryType)

def requireCount (entryType : UInt8) (found expected : ℕ) : Parsed Unit :=
  ensure (found = expected) (.invalidRootEntryCount entryType found expected)

/-- Whether the units decode as UTF-16: every surrogate stands in a pair. -/
def decodesUtf16 : List UInt16 → Bool
  | [] => true
  | unit :: rest =>
    if unit < 0xD800 ∨ 0xDFFF < unit then decodesUtf16 rest
    else if 0xDC00 ≤ unit then false
    else
      match rest with
      | [] => false
      | low :: rest => if 0xDC00 ≤ low ∧ low ≤ 0xDFFF then decodesUtf16 rest else false

/-- The units no name may have. -/
def isForbiddenUnit (unit : UInt16) : Bool :=
  unit ≤ 0x1F ∨ unit ∈ ([0x22, 0x2A, 0x2F, 0x3A, 0x3C, 0x3E, 0x3F, 0x5C, 0x7C] : List UInt16)

def validateNameUnits (units : List UInt16) (index : ℕ) (rejectDotNames : Bool) : Parsed Unit := do
  checkAll (fun unit => ensure (isForbiddenUnit unit = false) (.invalidNameCharacter index unit)) units
  ensure (decodesUtf16 units = true) (.invalidUtf16Name index)
  ensure (¬ (rejectDotNames = true ∧ (units = [0x2E] ∨ units = [0x2E, 0x2E])))
    (.reservedFileName index)

def maximumDay (year month : ℕ) : ℕ :=
  if month ∈ [1, 3, 5, 7, 8, 10, 12] then 31
  else if month ∈ [4, 6, 9, 11] then 30
  -- 2100 is the only year of the encoded range that the century rule excludes.
  else if month = 2 then if year % 4 = 0 ∧ year ≠ 2100 then 29 else 28
  else 0

def validateTimestamp (entry : Bytes) (index offset : ℕ) : Parsed Unit :=
  let timestamp := leAt 4 entry offset
  let doubleSeconds := timestamp % 32
  let minute := timestamp / 2 ^ 5 % 64
  let hour := timestamp / 2 ^ 11 % 32
  let day := timestamp / 2 ^ 16 % 32
  let month := timestamp / 2 ^ 21 % 16
  let year := 1980 + timestamp / 2 ^ 25 % 128
  ensure (¬ (29 < doubleSeconds ∨ 59 < minute ∨ 23 < hour ∨ day = 0 ∨ maximumDay year month < day))
    (.invalidTimestamp index offset timestamp)

def validateAllocation (index cluster length : ℕ) (noFatChain : Bool) (context : DirectoryContext) :
    Parsed Unit := do
  let maximumCluster ← orErr (checkedAdd32 context.clusterCount 1)
    (.arithmeticOverflow "maximum cluster")
  if cluster = 0 then
    ensure (¬ (length ≠ 0 ∨ noFatChain = true)) (.invalidDataLength index length)
  else do
    ensure (2 ≤ cluster ∧ cluster ≤ maximumCluster) (.invalidCluster index cluster)
    let heapBytes ← orErr (checkedMul context.clusterCount context.bytesPerCluster)
      (.arithmeticOverflow "cluster heap byte length")
    ensure (¬ (heapBytes < length ∨ noFatChain = true ∧ length = 0)) (.invalidDataLength index length)
    if noFatChain = true then do
      let clusters := divCeil length context.bytesPerCluster
      let last ← orErr (checkedAdd cluster (clusters - 1))
        (.arithmeticOverflow "contiguous allocation end")
      ensure (last ≤ maximumCluster) (.contiguousAllocationOutsideHeap index)
    else pure ()

/-! ## Entry sets -/

/-- The bytes of a primary entry and its secondaries. -/
def checkedSet (directory : Bytes) (index count : ℕ) (context : DirectoryContext) : Parsed Bytes := do
  ensure (count ≤ context.maxSecondaryEntries)
    (.secondaryLimitExceeded index count context.maxSecondaryEntries)
  let endEntry ← orErr (checkedAdd index (count + 1)) (.arithmeticOverflow "entry set end")
  ensure (endEntry ≤ directory.length / entryBytes) (.entrySetTruncated index count)
  orErr (slice? directory (index * entryBytes) (endEntry * entryBytes)) .indexOutOfBounds

/-- The checksum of a set covers every byte but the checksum's own two. -/
def setChecksum (raw : Bytes) : ℕ := rotatingSum 16 (raw.take 2 ++ raw.drop 4)

def verifySetChecksum (raw : Bytes) (index : ℕ) : Parsed Unit :=
  let stored := leAt 2 raw 2
  let computed := setChecksum raw
  ensure (stored = computed) (.setChecksumMismatch index stored computed)

def parseBitmap (entry : Bytes) (index : ℕ) (context : DirectoryContext) :
    Parsed AllocationBitmapEntry := do
  let flags := byteAt entry 1
  ensure (flags &&& 0xFE = 0) (.invalidFlags index flags.toNat)
  requireZero entry 2 20 index
  let identifier := (flags &&& 1).toNat
  ensure (identifier < context.numberOfFats) (.invalidBitmapIdentifier index identifier)
  let firstCluster := leAt 4 entry 20
  let dataLength := leAt 8 entry 24
  validateAllocation index firstCluster dataLength false context
  let required := divCeil context.clusterCount 8
  ensure (required ≤ dataLength) (.bitmapTooShort index dataLength required)
  ensure (dataLength ≤ required) (.bitmapTooLong index dataLength required)
  pure ⟨identifier, firstCluster, dataLength⟩

def parseUpcase (entry : Bytes) (index : ℕ) (context : DirectoryContext) :
    Parsed UpcaseTableEntry := do
  requireZero entry 1 4 index
  requireZero entry 8 20 index
  let firstCluster := leAt 4 entry 20
  let dataLength := leAt 8 entry 24
  validateAllocation index firstCluster dataLength false context
  ensure (¬ (dataLength = 0 ∨ dataLength % 2 ≠ 0)) (.invalidDataLength index dataLength)
  pure ⟨leAt 4 entry 4, firstCluster, dataLength⟩

/-- The UTF-16 units of a member from an offset on. -/
def unitsAt (member : Bytes) (offset count : ℕ) : List UInt16 :=
  (List.range count).map fun slot => UInt16.ofNat (leAt 2 member (offset + slot * 2))

def parseVolumeLabel (entry : Bytes) (index : ℕ) : Parsed VolumeLabelEntry := do
  let len := (byteAt entry 1).toNat
  ensure (len ≤ 11) (.invalidVolumeLabelLength index len)
  requireZero entry 24 32 index
  let units := unitsAt entry 2 11
  validateNameUnits (units.take len) index false
  pure ⟨units, len, (units.drop len).all (· = 0)⟩

/-- The checks of the primary entry of a file set. -/
def validateFilePrimary (primary : Bytes) (index : ℕ) : Parsed Unit := do
  let attributes := leAt 2 primary 4
  ensure (attributes &&& 0xFFC8 = 0) (.invalidFlags index attributes)
  requireZero primary 6 8 index
  requireZero primary 25 32 index
  checkAll (validateTimestamp primary index) [8, 12, 16]
  checkAll (fun offset => ensure (byteAt primary offset ≤ 199)
    (.invalidFlags index (byteAt primary offset).toNat)) [20, 21]
  checkAll (fun offset => ensure
    (¬ (byteAt primary offset &&& 0x80 = 0 ∧ byteAt primary offset ≠ 0))
    (.invalidFlags index (byteAt primary offset).toNat)) [22, 23, 24]

/-- The checks of the stream extension of a file set. -/
def validateStreamEntry (stream : Bytes) (index : ℕ) : Parsed Unit := do
  ensure (byteAt stream 0 = 0xC0) (.invalidSetMember (index + 1) (byteAt stream 0))
  let flags := byteAt stream 1
  ensure (¬ (flags &&& 0xFC ≠ 0 ∨ flags &&& 1 = 0)) (.invalidFlags (index + 1) flags.toNat)
  requireZero stream 2 3 (index + 1)
  requireZero stream 6 8 (index + 1)
  requireZero stream 16 20 (index + 1)
  ensure (byteAt stream 3 ≠ 0) (.invalidNameLength (index + 1) (byteAt stream 3).toNat)

/-- The units of the name entry with the given number in its set. -/
def nameMember (rawSet : Bytes) (index memberIndex : ℕ) : Parsed (List UInt16) := do
  let member ← entryAt rawSet memberIndex
  ensure (byteAt member 0 = 0xC1) (.invalidSetMember (index + memberIndex) (byteAt member 0))
  ensure (byteAt member 1 = 0) (.invalidFlags (index + memberIndex) (byteAt member 1).toNat)
  pure (unitsAt member 2 15)

/-- The units of all name entries of a set. -/
def nameMembers (rawSet : Bytes) (index : ℕ) : List ℕ → Parsed (List UInt16)
  | [] => pure []
  | memberIndex :: rest => do
    let units ← nameMember rawSet index memberIndex
    let more ← nameMembers rawSet index rest
    pure (units ++ more)

/-- A member behind the name entries has to be a benign secondary. -/
def validateBenignSecondary (rawSet : Bytes) (index memberIndex : ℕ) : Parsed Unit := do
  let member ← entryAt rawSet memberIndex
  let memberType := byteAt member 0
  ensure (memberType &&& 0xE0 = 0xE0)
    (if memberType &&& 0x20 = 0 then .unknownCriticalEntry (index + memberIndex) memberType
      else .invalidSetMember (index + memberIndex) memberType)

/-- A file set and the number of its entries. -/
def parseFileSet (directory : Bytes) (index : ℕ) (context : DirectoryContext) :
    Parsed (FileEntry × ℕ) := do
  let primary ← entryAt directory index
  let secondaryCount := (byteAt primary 1).toNat
  let rawSet ← checkedSet directory index secondaryCount context
  verifySetChecksum rawSet index
  validateFilePrimary primary index
  let stream ← entryAt rawSet 1
  validateStreamEntry stream index
  let nameLength := (byteAt stream 3).toNat
  let nameEntries := divCeil nameLength 15
  ensure (nameEntries + 1 ≤ secondaryCount)
    (.invalidNameEntryCount index nameEntries (secondaryCount - 1))
  let units ← nameMembers rawSet index (List.range' 2 nameEntries)
  let name := units.take nameLength
  validateNameUnits name index true
  let requiredSecondaries := 1 + nameEntries
  let benignCount := secondaryCount - requiredSecondaries
  checkAll (validateBenignSecondary rawSet index) (List.range' (requiredSecondaries + 1) benignCount)
  let validDataLength := leAt 8 stream 8
  let firstCluster := leAt 4 stream 20
  let dataLength := leAt 8 stream 24
  let noFatChain := decide (byteAt stream 1 &&& 2 ≠ 0)
  validateAllocation (index + 1) firstCluster dataLength noFatChain context
  ensure (validDataLength ≤ dataLength) (.invalidValidDataLength index validDataLength dataLength)
  let fileAttributes := leAt 2 primary 4
  let isDirectory := decide (fileAttributes &&& 0x10 ≠ 0)
  ensure (¬ (isDirectory = true ∧ validDataLength ≠ dataLength))
    (.directoryDataLengthMismatch index validDataLength dataLength)
  ensure (¬ (isDirectory = true ∧ maxDirectoryBytes < dataLength)) (.directoryTooLarge index dataLength)
  pure
    ({ fileAttributes
       createTimestamp := leAt 4 primary 8
       modifiedTimestamp := leAt 4 primary 12
       accessedTimestamp := leAt 4 primary 16
       createCentiseconds := byteAt primary 20
       modifiedCentiseconds := byteAt primary 21
       createUtcOffset := byteAt primary 22
       modifiedUtcOffset := byteAt primary 23
       accessedUtcOffset := byteAt primary 24
       isDirectory
       noFatChain
       nameHash := leAt 2 stream 4
       validDataLength
       firstCluster
       dataLength
       name
       namePaddingZeroed := (units.drop nameLength).all (· = 0)
       benignSecondaryEntries := benignCount
       rawSet }, secondaryCount + 1)

/-- The bytes of a set whose primary is benign. -/
def genericBenignSet (directory : Bytes) (index count : ℕ) (context : DirectoryContext) :
    Parsed Bytes := do
  let raw ← checkedSet directory index count context
  verifySetChecksum raw index
  checkAll (fun memberIndex => do
    let member ← entryAt raw memberIndex
    ensure (byteAt member 0 &&& 0xC0 = 0xC0)
      (.invalidSetMember (index + memberIndex) (byteAt member 0))) (List.range' 1 count)
  pure raw

/-! ## The scan -/

/-- Where the scan stands and what it has delivered. -/
structure ScanState where
  index : ℕ
  bitmapMask : ℕ
  summary : DirectorySummary
  records : List DirectoryRecord

namespace ScanState

def initial : ScanState := ⟨0, 0, ⟨0, 0, 0, false, 0, 0, 0, 0, 0⟩, []⟩

/-- Delivers a record that takes `consumed` entries. -/
def deliver (state : ScanState) (record : DirectoryRecord) (summary : DirectorySummary)
    (consumed : ℕ) : Parsed ScanState := do
  let index ← orErr (checkedAdd state.index consumed) (.arithmeticOverflow "directory entry index")
  pure { state with index, summary, records := state.records ++ [record] }

end ScanState

/-- One entry in use: an entry set of a known type, or a benign one. -/
def scanPrimary (directory : Bytes) (context : DirectoryContext) (state : ScanState) (entry : Bytes)
    (entryType : UInt8) : Parsed ScanState :=
  let summary := state.summary
  if entryType = 0x81 then do
    requireRoot context state.index entryType
    let parsed ← parseBitmap entry state.index context
    ensure (state.bitmapMask.testBit parsed.bitmapIdentifier = false)
      (.duplicateAllocationBitmap parsed.bitmapIdentifier)
    { state with bitmapMask := state.bitmapMask ||| 2 ^ parsed.bitmapIdentifier }.deliver
      (.allocationBitmap parsed)
      { summary with
        allocationBitmaps := summary.allocationBitmaps + 1
        records := summary.records + 1 } 1
  else if entryType = 0x82 then do
    requireRoot context state.index entryType
    let parsed ← parseUpcase entry state.index context
    state.deliver (.upcaseTable parsed)
      { summary with
        upcaseTables := min (summary.upcaseTables + 1) 255
        records := summary.records + 1 } 1
  else if entryType = 0x83 then do
    requireRoot context state.index entryType
    let parsed ← parseVolumeLabel entry state.index
    state.deliver (.volumeLabel parsed)
      { summary with
        volumeLabels := min (summary.volumeLabels + 1) 255
        records := summary.records + 1 } 1
  else if entryType = 0x85 then do
    let (parsed, count) ← parseFileSet directory state.index context
    state.deliver (.file parsed)
      { summary with
        files := summary.files + 1
        records := summary.records + 1 } count
  else if entryType &&& 0x20 ≠ 0 then do
    let secondaryCount := (byteAt entry 1).toNat
    let rawSet ← genericBenignSet directory state.index secondaryCount context
    state.deliver (.benignPrimary entryType secondaryCount rawSet)
      { summary with
        benignPrimarySets := summary.benignPrimarySets + 1
        records := summary.records + 1 } (secondaryCount + 1)
  else .error (.unknownCriticalEntry state.index entryType)

/-- One entry that is not the end marker. -/
def scanEntry (directory : Bytes) (context : DirectoryContext) (state : ScanState) (entry : Bytes)
    (entryType : UInt8) : Parsed ScanState := do
  ensure (entryType ≠ 0x80) (.invalidEntryType state.index entryType)
  let state := { state with summary := { state.summary with entriesExamined := state.index + 1 } }
  if entryType &&& 0x80 = 0 then
    pure { state with
      index := state.index + 1
      summary := { state.summary with unusedEntries := state.summary.unusedEntries + 1 }
      records := state.records ++ [.unused entryType entry] }
  else do
    ensure (entryType &&& 0x40 = 0) (.unexpectedSecondary state.index entryType)
    scanPrimary directory context state entry entryType

/-- Behind the end marker every entry has to be one. -/
def scanEndMarker (directory : Bytes) (state : ScanState) : Parsed ScanState := do
  let entryCount := directory.length / entryBytes
  checkAll (fun later => do
    let entry ← entryAt directory later
    ensure (byteAt entry 0 = 0) (.invalidEntryType later (byteAt entry 0)))
    (List.range' (state.index + 1) (entryCount - (state.index + 1)))
  pure { state with
    summary := { state.summary with reachedEndMarker := true, entriesExamined := entryCount } }

/-- Scans entries until the end marker or the end; every step consumes an entry. -/
def scanLoop (directory : Bytes) (context : DirectoryContext) : ℕ → ScanState → Parsed ScanState
  | 0, state => pure state
  | fuel + 1, state =>
    if state.index < directory.length / entryBytes then do
      let entry ← entryAt directory state.index
      if byteAt entry 0 = 0 then scanEndMarker directory state
      else do
        let next ← scanEntry directory context state entry (byteAt entry 0)
        scanLoop directory context fuel next
    else pure state

/-- What the root has to hold. -/
def validateRootCounts (context : DirectoryContext) (summary : DirectorySummary) : Parsed Unit :=
  if context.isRoot = true then do
    requireCount 0x81 summary.allocationBitmaps context.numberOfFats
    requireCount 0x82 summary.upcaseTables 1
    ensure (summary.volumeLabels ≤ 1) (.invalidRootEntryCount 0x83 summary.volumeLabels 1)
  else pure ()

def scanDirectory (directory : Bytes) (context : DirectoryContext) :
    Parsed (DirectorySummary × List DirectoryRecord) := do
  let state ← scanLoop directory context (directory.length / entryBytes) ScanState.initial
  validateRootCounts context state.summary
  pure (state.summary, state.records)

def isNonzeroPowerOfTwo (n : ℕ) : Bool := n ≠ 0 ∧ n &&& (n - 1) = 0

def validateContext (directory : Bytes) (context : DirectoryContext) : Parsed Unit := do
  ensure (context.clusterCount ≠ 0) (.invalidContext "cluster_count is zero")
  ensure (isNonzeroPowerOfTwo context.bytesPerCluster = true)
    (.invalidContext "bytes_per_cluster is not a non-zero power of two")
  ensure (context.numberOfFats = 1 ∨ context.numberOfFats = 2)
    (.invalidContext "number_of_fats is not one or two")
  ensure (context.maxEntries ≠ 0) (.invalidContext "max_entries is zero")
  ensure (directory.length / entryBytes * entryBytes = directory.length)
    (.lengthNotEntryAligned directory.length)
  ensure (directory.length / entryBytes ≤ context.maxEntries)
    (.entryLimitExceeded (directory.length / entryBytes) context.maxEntries)

/-- The summary of a directory and the records its second scan delivers. -/
def parseDirectory (directory : Bytes) (context : DirectoryContext) :
    Parsed (DirectorySummary × List DirectoryRecord) := do
  validateContext directory context
  let _ ← scanDirectory directory context
  scanDirectory directory context

/-! ## Records stand in entries of their own -/

section Records

variable {directory : Bytes} {context : DirectoryContext}

theorem deliver_ok {state next : ScanState} {record : DirectoryRecord} {summary : DirectorySummary}
    {consumed : ℕ} (h : state.deliver record summary consumed = .ok next) :
    next.index = state.index + consumed ∧ next.records = state.records ++ [record] := by
  simp only [ScanState.deliver, bind_ok_iff, orErr_ok_iff, checkedAdd_eq_some, pure_eq_ok,
    Except.ok.injEq] at h
  obtain ⟨_, ⟨-, rfl⟩, rfl⟩ := h
  exact ⟨rfl, rfl⟩

theorem checkedSet_ok {index count : ℕ} {raw : Bytes}
    (h : checkedSet directory index count context = .ok raw) :
    index + (count + 1) ≤ directory.length / entryBytes := by
  simp only [checkedSet, bind_ok_iff, orErr_ok_iff, checkedAdd_eq_some, ensure_ok_iff] at h
  obtain ⟨_, -, _, ⟨-, rfl⟩, _, hle, -⟩ := h
  exact hle

theorem parseFileSet_ok {index count : ℕ} {file : FileEntry}
    (h : parseFileSet directory index context = .ok (file, count)) :
    0 < count ∧ index + count ≤ directory.length / entryBytes := by
  simp only [parseFileSet, bind_ok_iff, pure_eq_ok, Except.ok.injEq, Prod.mk.injEq] at h
  obtain ⟨primary, -, rawSet, hset, _, -, _, -, _, -, _, -, _, -, _, -, _, -, _, -, _, -, _, -, _, -,
    _, -, -, rfl⟩ := h
  exact ⟨Nat.succ_pos _, checkedSet_ok hset⟩

/-- One step delivers one record and moves behind its entries. -/
theorem scanEntry_ok {state next : ScanState} {entry : Bytes} {entryType : UInt8}
    (hindex : state.index < directory.length / entryBytes)
    (h : scanEntry directory context state entry entryType = .ok next) :
    ∃ record, next.records = state.records ++ [record] ∧ state.index < next.index ∧
      next.index ≤ directory.length / entryBytes := by
  simp only [scanEntry, bind_ok_iff] at h
  obtain ⟨_, -, h⟩ := h
  split at h
  · simp only [pure_eq_ok, Except.ok.injEq] at h
    subst h
    exact ⟨_, rfl, Nat.lt_succ_self _, hindex⟩
  · simp only [bind_ok_iff] at h
    obtain ⟨_, -, h⟩ := h
    unfold scanPrimary at h
    split_ifs at h
    · simp only [bind_ok_iff] at h
      obtain ⟨_, -, parsed, -, _, -, h⟩ := h
      obtain ⟨hi, hr⟩ := deliver_ok h
      dsimp only at hi
      exact ⟨_, hr, by omega, by omega⟩
    · simp only [bind_ok_iff] at h
      obtain ⟨_, -, parsed, -, h⟩ := h
      obtain ⟨hi, hr⟩ := deliver_ok h
      dsimp only at hi
      exact ⟨_, hr, by omega, by omega⟩
    · simp only [bind_ok_iff] at h
      obtain ⟨_, -, parsed, -, h⟩ := h
      obtain ⟨hi, hr⟩ := deliver_ok h
      dsimp only at hi
      exact ⟨_, hr, by omega, by omega⟩
    · simp only [bind_ok_iff] at h
      obtain ⟨⟨parsed, count⟩, hset, h⟩ := h
      obtain ⟨hi, hr⟩ := deliver_ok h
      obtain ⟨hpos, hle⟩ := parseFileSet_ok hset
      dsimp only at hi hle
      exact ⟨_, hr, by omega, by omega⟩
    · simp only [bind_ok_iff, genericBenignSet] at h
      obtain ⟨raw, ⟨_, hset, -⟩, h⟩ := h
      obtain ⟨hi, hr⟩ := deliver_ok h
      have hle := checkedSet_ok hset
      dsimp only at hi hle
      exact ⟨_, hr, by omega, by omega⟩

theorem scanLoop_ok {fuel : ℕ} {state final : ScanState}
    (h : scanLoop directory context fuel state = .ok final)
    (hindex : state.index ≤ directory.length / entryBytes)
    (hrecords : state.records.length ≤ state.index) :
    final.records.length ≤ directory.length / entryBytes := by
  induction fuel generalizing state with
  | zero =>
    simp only [scanLoop, pure_eq_ok, Except.ok.injEq] at h
    subst h
    exact hrecords.trans hindex
  | succ fuel ih =>
    rw [scanLoop] at h
    split_ifs at h with hlt
    · simp only [bind_ok_iff] at h
      obtain ⟨entry, -, h⟩ := h
      split_ifs at h with hend
      · simp only [scanEndMarker, bind_ok_iff, pure_eq_ok, Except.ok.injEq] at h
        obtain ⟨_, -, rfl⟩ := h
        exact hrecords.trans hindex
      · simp only [bind_ok_iff] at h
        obtain ⟨next, hnext, h⟩ := h
        obtain ⟨record, hr, hi, hle⟩ := scanEntry_ok hlt hnext
        refine ih h hle ?_
        rw [hr, List.length_append, List.length_singleton]
        omega
    · simp only [pure_eq_ok, Except.ok.injEq] at h
      subst h
      exact hrecords.trans hindex

/-- **Records of a directory.** A directory that is accepted has a valid geometry and no more records
than entries. -/
theorem parseDirectory_records {summary : DirectorySummary} {records : List DirectoryRecord}
    (h : parseDirectory directory context = .ok (summary, records)) :
    0 < context.bytesPerCluster ∧ records.length * entryBytes ≤ directory.length := by
  simp only [parseDirectory, validateContext, scanDirectory, bind_ok_iff, ensure_ok_iff, pure_eq_ok,
    Except.ok.injEq, Prod.mk.injEq] at h
  obtain ⟨_, ⟨_, -, _, hpow, -⟩, _, -, final, hloop, _, -, -, rfl⟩ := h
  have hle := scanLoop_ok hloop (Nat.zero_le _) (Nat.zero_le _)
  have hpos : context.bytesPerCluster ≠ 0 := (of_decide_eq_true hpow).1
  exact ⟨Nat.pos_of_ne_zero hpos, (Nat.le_div_iff_mul_le (by decide)).1 hle⟩

end Records

end Exfat

end StarConverter
