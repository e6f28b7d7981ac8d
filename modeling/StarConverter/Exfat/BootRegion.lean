import StarConverter.Base.Decides
import StarConverter.Base.Fields
import StarConverter.Exfat.Allocation
import StarConverter.Geometry.Solver

/-!
# Boot regions

A boot region is a boot sector, eight extended boot sectors, two sectors of zeros and a sector that
repeats the checksum of the others; a volume has two of them. The formatter writes the region as fields
in ascending order and has the validator read it back; `parseBootSector_of_valid` and
`validateBootRegions_of_written` say that the validator accepts what it wrote whenever the geometry in
it is the one the format requires (`BootSectorOf.Valid`).
-/

namespace StarConverter

open Base

namespace Exfat

def fixedBootFieldsBytes : ℕ := 512
def jumpBoot : Bytes := [0xEB, 0x76, 0x90]
def fileSystemName : Bytes := ascii "EXFAT   "
def bootSignature : ℕ := 0xAA55
def exfatRevision : ℕ := 0x0100
def mainAndBackupBootSectors : ℕ := 24
def minBytesPerSectorShift : ℕ := 9
def maxBytesPerSectorShift : ℕ := 12
def maxClusterBytesShift : ℕ := 25
def maxClusterCount : ℕ := 0xFFFFFFF5
def validVolumeFlagsMask : ℕ := 0x000F
def activeFatFlag : ℕ := 0x0001
def unknownPercentInUse : ℕ := 0xFF
def sectorsPerBootRegion : ℕ := 12
def checksummedSectorsPerRegion : ℕ := 11
def extendedBootSignature : ℕ := 0xAA550000
def bootCodeStart : ℕ := 120
def bootCodeEnd : ℕ := 510

inductive ExfatBootSectorError
  | truncated (actual minimum : ℕ)
  | sectorLengthMismatch (declared actual : ℕ)
  | invalidJumpBoot (found : Bytes)
  | invalidFileSystemName (found : Bytes)
  | mustBeZero (offset : ℕ) (value : UInt8)
  | reservedMustBeZero (offset : ℕ) (value : UInt8)
  | unsupportedRevision (found : ℕ)
  | invalidBytesPerSectorShift (found : ℕ)
  | invalidSectorsPerClusterShift (found maximum : ℕ)
  | invalidFatCount (found : ℕ)
  | invalidVolumeFlags (found : ℕ)
  | inactiveOnlyFatMarkedActive
  | invalidPercentInUse (found : ℕ)
  | invalidBootSignature (found : ℕ)
  | volumeTooShort (found minimum : ℕ)
  | fatOffsetBeforeBootRegions (found minimum : ℕ)
  | zeroFatLength
  | invalidClusterCount (found : ℕ)
  | clusterCountMismatch (found expected : ℕ)
  | fatTooSmall (found minimum : ℕ)
  | fatRegionOutsideVolume (stop volumeLength : ℕ)
  | clusterHeapOverlapsFatRegion (heapOffset fatEnd : ℕ)
  | clusterHeapOutsideVolume (heapOffset volumeLength : ℕ)
  | clusterHeapOutsideVolumeEnd (heapEnd volumeLength : ℕ)
  | rootDirectoryClusterOutOfRange (found minimum maximum : ℕ)
  | arithmeticOverflow (operation : String)
  deriving DecidableEq

inductive ExfatBootRegionKind
  | main
  | backup
  deriving DecidableEq

inductive ExfatBootRegionError
  | invalidSectorSize (found : ℕ)
  | arithmeticOverflow (operation : String)
  | lengthMismatch (actual expected : ℕ)
  | invalidBootSector (region : ExfatBootRegionKind) (source : ExfatBootSectorError)
  | invalidExtendedBootSignature (region : ExfatBootRegionKind) (sector found : ℕ)
  | invalidBootChecksumWord (region : ExfatBootRegionKind) (word expected found : ℕ)
  deriving DecidableEq

/-- `1_u32.checked_shl`. -/
def checkedShl32 (shift : ℕ) : Option ℕ := if shift < 32 then some (2 ^ shift) else none

/-- `u32::checked_mul`. -/
def checkedMul32 (a b : ℕ) : Option ℕ := if a * b < wordBound32 then some (a * b) else none

/-! ## The boot sector -/

/-- The bytes from `start` to `stop` are zero; `error` gets the first one that is not. -/
def validateZeroes (bytes : Bytes) (start stop : ℕ)
    (error : ℕ → UInt8 → ExfatBootSectorError) : Except ExfatBootSectorError Unit :=
  match (sliceAt bytes start (stop - start)).findIdx? (· ≠ 0) with
  | none => pure ()
  | some relativeOffset => .error (error (start + relativeOffset) (bytes.getD (start + relativeOffset) 0))

/-- The checks of the geometry a boot sector declares. -/
def validateGeometry (bytesPerSector sectorsPerCluster partitionOffset volumeLength fatOffset
    fatLength heapOffset clusterCount numberOfFats rootCluster : ℕ) :
    Except ExfatBootSectorError Unit := do
  let _ ← orErr (checkedAdd partitionOffset volumeLength) (.arithmeticOverflow "partition end")
  ensure (2 ^ 20 / bytesPerSector ≤ volumeLength)
    (.volumeTooShort volumeLength (2 ^ 20 / bytesPerSector))
  ensure (mainAndBackupBootSectors ≤ fatOffset)
    (.fatOffsetBeforeBootRegions fatOffset mainAndBackupBootSectors)
  ensure (fatLength ≠ 0) .zeroFatLength
  ensure (clusterCount ≠ 0 ∧ clusterCount ≤ maxClusterCount) (.invalidClusterCount clusterCount)
  let fatEntryCount ← orErr (checkedAdd clusterCount 2) (.arithmeticOverflow "FAT entry count")
  let fatBytesRequired ← orErr (checkedMul fatEntryCount 4) (.arithmeticOverflow "FAT byte length")
  let rounded ← orErr (checkedAdd fatBytesRequired (bytesPerSector - 1))
    (.arithmeticOverflow "rounded FAT byte length")
  let minimumFatSectors := rounded / bytesPerSector
  ensure (minimumFatSectors ≤ fatLength) (.fatTooSmall fatLength minimumFatSectors)
  let allFatsLength ← orErr (checkedMul fatLength numberOfFats)
    (.arithmeticOverflow "combined FAT length")
  let fatEnd ← orErr (checkedAdd fatOffset allFatsLength) (.arithmeticOverflow "FAT region end")
  ensure (fatEnd ≤ volumeLength) (.fatRegionOutsideVolume fatEnd volumeLength)
  ensure (fatEnd ≤ heapOffset) (.clusterHeapOverlapsFatRegion heapOffset fatEnd)
  ensure (heapOffset < volumeLength) (.clusterHeapOutsideVolume heapOffset volumeLength)
  let heapLength ← orErr (checkedMul clusterCount sectorsPerCluster)
    (.arithmeticOverflow "cluster heap length")
  let heapEnd ← orErr (checkedAdd heapOffset heapLength) (.arithmeticOverflow "cluster heap end")
  ensure (heapEnd ≤ volumeLength) (.clusterHeapOutsideVolumeEnd heapEnd volumeLength)
  let expected := min ((volumeLength - heapOffset) / sectorsPerCluster) maxClusterCount
  ensure (clusterCount = expected) (.clusterCountMismatch clusterCount expected)
  let maximumRoot ← orErr (checkedAdd32 clusterCount 1)
    (.arithmeticOverflow "maximum root directory cluster")
  ensure (2 ≤ rootCluster ∧ rootCluster ≤ maximumRoot)
    (.rootDirectoryClusterOutOfRange rootCluster 2 maximumRoot)

def parseBootSector (sector : Bytes) : Except ExfatBootSectorError ExfatBootSector := do
  ensure (fixedBootFieldsBytes ≤ sector.length) (.truncated sector.length fixedBootFieldsBytes)
  ensure (sliceAt sector 0 3 = jumpBoot) (.invalidJumpBoot (sliceAt sector 0 3))
  ensure (sliceAt sector 3 8 = fileSystemName) (.invalidFileSystemName (sliceAt sector 3 8))
  validateZeroes sector 11 64 .mustBeZero
  let bytesPerSectorShift := leAt 1 sector 108
  ensure (minBytesPerSectorShift ≤ bytesPerSectorShift ∧ bytesPerSectorShift ≤ maxBytesPerSectorShift)
    (.invalidBytesPerSectorShift bytesPerSectorShift)
  let bytesPerSector ← orErr (checkedShl32 bytesPerSectorShift)
    (.arithmeticOverflow "logical sector size")
  ensure (sector.length = bytesPerSector) (.sectorLengthMismatch bytesPerSector sector.length)
  let sectorsPerClusterShift := leAt 1 sector 109
  ensure (sectorsPerClusterShift ≤ maxClusterBytesShift - bytesPerSectorShift)
    (.invalidSectorsPerClusterShift sectorsPerClusterShift
      (maxClusterBytesShift - bytesPerSectorShift))
  let sectorsPerCluster ← orErr (checkedShl32 sectorsPerClusterShift)
    (.arithmeticOverflow "sectors per cluster")
  let bytesPerCluster ← orErr (checkedMul32 bytesPerSector sectorsPerCluster)
    (.arithmeticOverflow "bytes per cluster")
  validateZeroes sector 113 120 .reservedMustBeZero
  ensure (leAt 2 sector 104 = exfatRevision) (.unsupportedRevision (leAt 2 sector 104))
  let numberOfFats := leAt 1 sector 110
  ensure (numberOfFats = 1 ∨ numberOfFats = 2) (.invalidFatCount numberOfFats)
  let volumeFlags := leAt 2 sector 106
  ensure (volumeFlags &&& (2 ^ 16 - 1 - validVolumeFlagsMask) = 0) (.invalidVolumeFlags volumeFlags)
  ensure (¬ (numberOfFats = 1 ∧ volumeFlags &&& activeFatFlag ≠ 0)) .inactiveOnlyFatMarkedActive
  let percentInUseRaw := leAt 1 sector 112
  ensure (percentInUseRaw ≤ 100 ∨ percentInUseRaw = unknownPercentInUse)
    (.invalidPercentInUse percentInUseRaw)
  ensure (leAt 2 sector 510 = bootSignature) (.invalidBootSignature (leAt 2 sector 510))
  validateGeometry bytesPerSector sectorsPerCluster (leAt 8 sector 64) (leAt 8 sector 72)
    (leAt 4 sector 80) (leAt 4 sector 84) (leAt 4 sector 88) (leAt 4 sector 92) numberOfFats
    (leAt 4 sector 96)
  pure ⟨leAt 8 sector 72, leAt 4 sector 80, leAt 4 sector 84, leAt 4 sector 88, leAt 4 sector 92,
    leAt 4 sector 96, leAt 4 sector 100, volumeFlags, numberOfFats,
    if percentInUseRaw ≤ 100 then some percentInUseRaw else none, bytesPerSector, bytesPerCluster⟩

/-! ## The region -/

def validateSectorSize (bytesPerSector : ℕ) : Except ExfatBootRegionError Unit :=
  ensure (Geometry.isPowerOfTwo bytesPerSector ∧ 512 ≤ bytesPerSector ∧ bytesPerSector ≤ 4096)
    (.invalidSectorSize bytesPerSector)

/-- The fields that may change without a new checksum. -/
def staleOffsets : List ℕ := [106, 107, 112]

/-- Rotates and adds all bytes but those of the stale fields. -/
def bootChecksum (covered : Bytes) : ℕ :=
  (covered.zipIdx.filter fun byte => byte.2 ∉ staleOffsets).foldl
    (fun checksum byte => rotateAdd 32 checksum byte.1) 0

def validateChecksumSector (sector : Bytes) (expected : ℕ) (kind : ExfatBootRegionKind) :
    Except ExfatBootRegionError Unit :=
  checkAll (fun word => ensure (leAt 4 sector (word * 4) = expected)
    (.invalidBootChecksumWord kind word expected (leAt 4 sector (word * 4))))
    (List.range (sector.length / 4))

structure ExfatBootRegionValidation where
  kind : ExfatBootRegionKind
  bootSector : ExfatBootSector
  bootChecksum : ℕ
  deriving DecidableEq

def validateExtendedBootSector (region : Bytes) (bytesPerSector : ℕ) (kind : ExfatBootRegionKind)
    (sector : ℕ) : Except ExfatBootRegionError Unit := do
  let sectorStart ← orErr (checkedMul sector bytesPerSector)
    (.arithmeticOverflow "extended boot sector offset")
  let signatureStart ← orErr (checkedAdd sectorStart (bytesPerSector - 4))
    (.arithmeticOverflow "extended boot signature offset")
  ensure (leAt 4 region signatureStart = extendedBootSignature)
    (.invalidExtendedBootSignature kind sector (leAt 4 region signatureStart))

def validateBootRegion (region : Bytes) (bytesPerSector : ℕ) (kind : ExfatBootRegionKind) :
    Except ExfatBootRegionError ExfatBootRegionValidation := do
  validateSectorSize bytesPerSector
  let expectedLength ← orErr (checkedMul bytesPerSector sectorsPerBootRegion)
    (.arithmeticOverflow "boot-region byte length")
  ensure (region.length = expectedLength) (.lengthMismatch region.length expectedLength)
  let checksummedBytes ← orErr (checkedMul bytesPerSector checksummedSectorsPerRegion)
    (.arithmeticOverflow "checksummed boot-region byte length")
  let checksum := bootChecksum (region.take checksummedBytes)
  validateChecksumSector (region.drop checksummedBytes) checksum kind
  let bootSector ← (parseBootSector (region.take bytesPerSector)).mapError (.invalidBootSector kind)
  checkAll (validateExtendedBootSector region bytesPerSector kind) (List.range' 1 8)
  pure ⟨kind, bootSector, checksum⟩

/-- How the two regions differ, their checksum sectors aside. -/
inductive ExfatBootRegionComparison
  | exact
  | equivalentExceptStaleFields (volumeFlagsDiffer percentInUseDiffers : Bool)
  | divergent (firstDifferingByte : ℕ)
  deriving DecidableEq

def compareRegions (main backup : Bytes) (bytesPerSector : ℕ) : ExfatBootRegionComparison :=
  match (List.range (bytesPerSector * checksummedSectorsPerRegion)).find? fun offset =>
      offset ∉ staleOffsets ∧ main[offset]? ≠ backup[offset]? with
  | some firstDifferingByte => .divergent firstDifferingByte
  | none =>
    let volumeFlagsDiffer := decide (main[106]? ≠ backup[106]? ∨ main[107]? ≠ backup[107]?)
    let percentInUseDiffers := decide (main[112]? ≠ backup[112]?)
    if volumeFlagsDiffer || percentInUseDiffers then
      .equivalentExceptStaleFields volumeFlagsDiffer percentInUseDiffers
    else .exact

structure ExfatBootRegionsValidation where
  main : ExfatBootRegionValidation
  backup : ExfatBootRegionValidation
  comparison : ExfatBootRegionComparison
  deriving DecidableEq

def validateBootRegions (regions : Bytes) (bytesPerSector : ℕ) :
    Except ExfatBootRegionError ExfatBootRegionsValidation := do
  validateSectorSize bytesPerSector
  let expectedLength ← orErr (checkedMul bytesPerSector (2 * sectorsPerBootRegion))
    (.arithmeticOverflow "combined boot-region byte length")
  ensure (regions.length = expectedLength) (.lengthMismatch regions.length expectedLength)
  let regionBytes ← orErr (checkedMul bytesPerSector sectorsPerBootRegion)
    (.arithmeticOverflow "single boot-region byte length")
  let main ← validateBootRegion (regions.take regionBytes) bytesPerSector .main
  let backup ← validateBootRegion (regions.drop regionBytes) bytesPerSector .backup
  pure ⟨main, backup, compareRegions (regions.take regionBytes) (regions.drop regionBytes)
    bytesPerSector⟩

/-! ## The formatter -/

inductive ExfatSerializeError
  | invalidGeometry (reason : String)
  | limitExceeded (field : String) (actual maximum : ℕ)
  | generatedBootRegion (source : ExfatBootRegionError)
  | generatedBootCode (region : ExfatBootRegionKind) (offset : ℕ) (found : UInt8)
  | arithmeticOverflow (operation : String)
  deriving DecidableEq

structure ExfatSerializeOptions where
  bytesPerSector : ℕ
  bytesPerCluster : ℕ
  partitionOffsetSectors : ℕ
  volumeSerialNumber : ℕ
  driveSelect : ℕ
  deriving DecidableEq

structure ExfatDestinationGeometry where
  volumeBytes : ℕ
  volumeSectors : ℕ
  fatOffsetSectors : ℕ
  fatLengthSectors : ℕ
  clusterHeapOffsetSectors : ℕ
  clusterCount : ℕ
  rootDirectoryCluster : ℕ
  bytesPerSector : ℕ
  bytesPerCluster : ℕ
  deriving DecidableEq

/-- `u32::trailing_zeros`. -/
def trailingZeros32 (value : ℕ) : ℕ := ((List.range 32).takeWhile fun i => !value.testBit i).length

def validateFormatterBootCode (regions : Bytes) (bytesPerSector : ℕ) :
    Except ExfatSerializeError Unit := do
  let regionBytes ← orErr (checkedMul bytesPerSector 12)
    (.arithmeticOverflow "boot region byte length")
  checkAll (fun region => do
    let bootCode ← orErr (slice? regions (region.2 + bootCodeStart) (region.2 + bootCodeEnd))
      (.invalidGeometry "generated boot code range is truncated")
    match bootCode.findIdx? (· ≠ 0xf4) with
    | none => pure ()
    | some offset => .error (.generatedBootCode region.1 offset (bootCode.getD offset 0)))
    [(ExfatBootRegionKind.main, 0), (.backup, regionBytes)]

def validateGeneratedBootRegions (regions : Bytes) (bytesPerSector : ℕ) :
    Except ExfatSerializeError Unit := do
  let validated ← (validateBootRegions regions bytesPerSector).mapError .generatedBootRegion
  ensure (validated.comparison = .exact)
    (.invalidGeometry "generated main and backup boot regions differ")
  validateFormatterBootCode regions bytesPerSector

/-- The fields of the boot sector, in ascending order. -/
def bootSectorFields (geometry : ExfatDestinationGeometry) (options : ExfatSerializeOptions)
    (percentInUse : UInt8) : List (Patch UInt8) :=
  [⟨0, jumpBoot⟩, ⟨3, fileSystemName⟩, put 8 64 options.partitionOffsetSectors,
    put 8 72 geometry.volumeSectors, put 4 80 geometry.fatOffsetSectors,
    put 4 84 geometry.fatLengthSectors, put 4 88 geometry.clusterHeapOffsetSectors,
    put 4 92 geometry.clusterCount, put 4 96 geometry.rootDirectoryCluster,
    put 4 100 options.volumeSerialNumber, put 2 104 exfatRevision,
    put 1 108 (trailingZeros32 geometry.bytesPerSector),
    put 1 109 (trailingZeros32 (geometry.bytesPerCluster / geometry.bytesPerSector)), put 1 110 1,
    put 1 111 options.driveSelect, put 1 112 percentInUse.toNat,
    ⟨bootCodeStart, List.replicate (bootCodeEnd - bootCodeStart) 0xf4⟩, put 2 510 bootSignature]

/-- The signature at the end of every extended boot sector. -/
def extendedSignatures (sector : ℕ) : List (Patch UInt8) :=
  (List.range' 1 8).map fun index => put 4 (index * sector + sector - 4) extendedBootSignature

/-- The checksum in every word of the last sector. -/
def checksumWords (sector checksum : ℕ) : List (Patch UInt8) :=
  (List.range (divCeil sector 4)).map fun word => put 4 (11 * sector + word * 4) checksum

def buildBootRegions (geometry : ExfatDestinationGeometry) (options : ExfatSerializeOptions)
    (percentInUse : UInt8) : Except ExfatSerializeError Bytes := do
  let sector := geometry.bytesPerSector
  let regionBytes ← orErr (checkedMul sector 12) (.arithmeticOverflow "boot region bytes")
  let fields := applyAll (bootSectorFields geometry options percentInUse ++ extendedSignatures sector)
    (zeros regionBytes)
  let checksum := bootChecksum (fields.take (11 * sector))
  let main := applyAll (checksumWords sector checksum) fields
  validateGeneratedBootRegions (main ++ main) sector
  pure (main ++ main)

/-! ## The geometry a boot sector declares -/

theorem checkedMul_of_lt {a b : ℕ} (h : a * b < wordBound) : checkedMul a b = some (a * b) :=
  if_pos h

theorem checkedAdd32_of_lt {a b : ℕ} (h : a + b < wordBound32) : checkedAdd32 a b = some (a + b) :=
  if_pos h

/-- A geometry the format allows, of sectors of `2 ^ sectorShift` bytes and clusters of
`2 ^ clusterShift` sectors. -/
structure ExfatDestinationGeometry.Valid (geometry : ExfatDestinationGeometry)
    (partitionOffset sectorShift clusterShift : ℕ) : Prop where
  sector_eq : geometry.bytesPerSector = 2 ^ sectorShift
  sector_mem : 9 ≤ sectorShift ∧ sectorShift ≤ 12
  cluster_eq : geometry.bytesPerCluster = geometry.bytesPerSector * 2 ^ clusterShift
  cluster_le : sectorShift + clusterShift ≤ 25
  partition : partitionOffset + geometry.volumeSectors < wordBound
  minimum : 2 ^ 20 / geometry.bytesPerSector ≤ geometry.volumeSectors
  fat_offset : geometry.fatOffsetSectors = mainAndBackupBootSectors
  fat_room : (geometry.clusterCount + 2) * 4 ≤ geometry.fatLengthSectors * geometry.bytesPerSector
  fat_end : geometry.fatOffsetSectors + geometry.fatLengthSectors ≤
    geometry.clusterHeapOffsetSectors
  heap_lt : geometry.clusterHeapOffsetSectors < geometry.volumeSectors
  heap_word : geometry.clusterHeapOffsetSectors < wordBound32
  count_pos : 0 < geometry.clusterCount
  count_le : geometry.clusterCount ≤ maxClusterCount
  count_eq : geometry.clusterCount =
    (geometry.volumeSectors - geometry.clusterHeapOffsetSectors) / 2 ^ clusterShift
  root : 2 ≤ geometry.rootDirectoryCluster ∧
    geometry.rootDirectoryCluster ≤ geometry.clusterCount + 1

namespace ExfatDestinationGeometry.Valid

variable {geometry : ExfatDestinationGeometry} {partitionOffset sectorShift clusterShift : ℕ}

section
include geometry partitionOffset sectorShift clusterShift

theorem sector_bounds (h : geometry.Valid partitionOffset sectorShift clusterShift) :
    512 ≤ geometry.bytesPerSector ∧ geometry.bytesPerSector ≤ 4096 ∧
      4 ∣ geometry.bytesPerSector := by
  have hmem := h.sector_mem
  rw [h.sector_eq]
  obtain rfl | rfl | rfl | rfl :
      sectorShift = 9 ∨ sectorShift = 10 ∨ sectorShift = 11 ∨ sectorShift = 12 := by omega
  all_goals norm_num

theorem fat_pos (h : geometry.Valid partitionOffset sectorShift clusterShift) :
    geometry.fatLengthSectors ≠ 0 := by
  intro hzero
  have hroom := h.fat_room
  rw [hzero] at hroom
  omega

/-- The validator accepts the geometry. -/
theorem validateGeometry_ok (h : geometry.Valid partitionOffset sectorShift clusterShift) :
    validateGeometry geometry.bytesPerSector (2 ^ clusterShift) partitionOffset geometry.volumeSectors
      geometry.fatOffsetSectors geometry.fatLengthSectors geometry.clusterHeapOffsetSectors
      geometry.clusterCount 1 geometry.rootDirectoryCluster = .ok () := by
  obtain ⟨hlow, hhigh, -⟩ := h.sector_bounds
  have hword : wordBound = 2 ^ 64 := rfl
  have hword32 : wordBound32 = 2 ^ 32 := rfl
  have hmax : maxClusterCount = 0xFFFFFFF5 := rfl
  have hpart := h.partition
  have hcount := h.count_le
  have hpos := h.count_pos
  have hfat := h.fat_end
  have hheap := h.heap_lt
  have hheap32 := h.heap_word
  have hmul : geometry.clusterCount * 2 ^ clusterShift ≤
      geometry.volumeSectors - geometry.clusterHeapOffsetSectors := by
    rw [h.count_eq]
    exact Nat.div_mul_le_self _ _
  have hround : ((geometry.clusterCount + 2) * 4 + (geometry.bytesPerSector - 1)) /
      geometry.bytesPerSector ≤ geometry.fatLengthSectors := by
    rw [Nat.div_le_iff_le_mul (by omega)]
    have := h.fat_room
    omega
  rw [validateGeometry, checkedAdd_of_lt (by omega), orErr_some, ok_bind, ensure_of h.minimum, ok_bind,
    ensure_of h.fat_offset.ge, ok_bind, ensure_of h.fat_pos, ok_bind, ensure_of ⟨by omega, hcount⟩,
    ok_bind, checkedAdd_of_lt (by omega), orErr_some, ok_bind, checkedMul_of_lt (by omega), orErr_some,
    ok_bind, checkedAdd_of_lt (by omega), orErr_some, ok_bind]
  dsimp only
  rw [ensure_of hround, ok_bind, checkedMul_of_lt (by omega), orErr_some, ok_bind, Nat.mul_one,
    checkedAdd_of_lt (by omega), orErr_some, ok_bind, ensure_of (by omega), ok_bind, ensure_of hfat,
    ok_bind, ensure_of hheap, ok_bind, checkedMul_of_lt (by omega), orErr_some, ok_bind,
    checkedAdd_of_lt (by omega), orErr_some, ok_bind, ensure_of (by omega), ok_bind,
    ensure_of (by rw [← h.count_eq, min_eq_left hcount]), ok_bind, checkedAdd32_of_lt (by omega),
    orErr_some, ok_bind, ensure_of h.root]

end

end ExfatDestinationGeometry.Valid

/-! ## The written region -/

/-- All fields of a region, in ascending order. -/
def regionFields (geometry : ExfatDestinationGeometry) (options : ExfatSerializeOptions)
    (percentInUse : UInt8) (checksum : ℕ) : List (Patch UInt8) :=
  (bootSectorFields geometry options percentInUse ++ extendedSignatures geometry.bytesPerSector) ++
    checksumWords geometry.bytesPerSector checksum

section Written

variable {geometry : ExfatDestinationGeometry} {options : ExfatSerializeOptions}
  {percentInUse : UInt8} {checksum : ℕ}

theorem ascending_bootSectorFields :
    Ascending (bootSectorFields geometry options percentInUse) := by
  unfold Ascending bootSectorFields
  simp only [List.isChain_cons_cons, put_offset, length_put, List.length_replicate]
  decide

theorem bootSectorFields_le {p : Patch UInt8}
    (hp : p ∈ bootSectorFields geometry options percentInUse) :
    p.offset + p.bytes.length ≤ 512 := by
  have hall : ∀ p ∈ bootSectorFields geometry options percentInUse,
      p.offset + p.bytes.length ≤ 512 := by
    unfold bootSectorFields
    simp only [List.forall_mem_cons, put_offset, length_put, List.length_replicate]
    decide
  exact hall p hp

theorem mem_extendedSignatures {sector : ℕ} {p : Patch UInt8} :
    p ∈ extendedSignatures sector ↔ ∃ index, (1 ≤ index ∧ index < 9) ∧
      p = put 4 (index * sector + sector - 4) extendedBootSignature := by
  unfold extendedSignatures
  rw [List.mem_map]
  simp only [List.mem_range'_1, eq_comm]

theorem mem_checksumWords {sector : ℕ} {p : Patch UInt8} :
    p ∈ checksumWords sector checksum ↔ ∃ word < divCeil sector 4,
      p = put 4 (11 * sector + word * 4) checksum := by
  unfold checksumWords
  rw [List.mem_map]
  simp only [List.mem_range, eq_comm]

theorem ascending_regionFields (h : 512 ≤ geometry.bytesPerSector) :
    Ascending (regionFields geometry options percentInUse checksum) := by
  have hsignatures : Ascending (extendedSignatures geometry.bytesPerSector) :=
    ascending_map_range' (fun i => by
      rw [put_offset, put_offset, length_put, Nat.succ_mul]
      omega) 1 8
  have hwords : Ascending (checksumWords geometry.bytesPerSector checksum) := by
    unfold checksumWords
    rw [List.range_eq_range']
    exact ascending_map_range' (fun i => by
      rw [put_offset, put_offset, length_put]
      omega) 0 _
  refine (ascending_bootSectorFields.append hsignatures (n := 512)
    (fun p hp => bootSectorFields_le hp) fun q hq => ?_).append hwords
    (n := 9 * geometry.bytesPerSector) (fun p hp => ?_) fun q hq => ?_
  · obtain ⟨index, ⟨hindex, -⟩, rfl⟩ := mem_extendedSignatures.1 hq
    have := Nat.mul_le_mul_right geometry.bytesPerSector hindex
    rw [put_offset]
    omega
  · rcases List.mem_append.1 hp with hp | hp
    · have := bootSectorFields_le hp
      omega
    · obtain ⟨index, ⟨-, hindex⟩, rfl⟩ := mem_extendedSignatures.1 hp
      have := Nat.mul_le_mul_right geometry.bytesPerSector (Nat.le_of_lt_succ hindex)
      rw [put_offset, length_put]
      omega
  · obtain ⟨word, -, rfl⟩ := mem_checksumWords.1 hq
    rw [put_offset]
    omega

/-- The region with the checksum of what is in front of it. -/
def bootRegion (geometry : ExfatDestinationGeometry) (options : ExfatSerializeOptions)
    (percentInUse : UInt8) (checksum : ℕ) : Bytes :=
  applyAll (regionFields geometry options percentInUse checksum)
    (zeros (geometry.bytesPerSector * 12))

@[simp] theorem length_bootRegion :
    (bootRegion geometry options percentInUse checksum).length = geometry.bytesPerSector * 12 := by
  rw [bootRegion, length_applyAll, length_zeros]

/-- A field of the boot sector stands in the region's first sector. -/
theorem fieldAt_bootSector (h : 512 ≤ geometry.bytesPerSector) {p : Patch UInt8}
    (hp : p ∈ bootSectorFields geometry options percentInUse) :
    FieldAt (bootRegion geometry options percentInUse checksum) p.offset p.bytes := by
  have hle := bootSectorFields_le hp
  refine fieldAt_applyAll (ascending_regionFields h)
    (List.mem_append_left _ (List.mem_append_left _ hp)) ?_
  rw [length_zeros]
  omega

theorem leAt_bootSector (h : 512 ≤ geometry.bytesPerSector) {n offset value : ℕ}
    (hp : put n offset value ∈ bootSectorFields geometry options percentInUse)
    (hvalue : value < 256 ^ n) :
    leAt n (bootRegion geometry options percentInUse checksum) offset = value :=
  FieldAt.leAt (fieldAt_bootSector h hp) hvalue

/-- Bytes of the boot sector no field covers. -/
theorem fieldAt_gap (h : 512 ≤ geometry.bytesPerSector) {offset n : ℕ} (hin : offset + n ≤ 508)
    (hgap : ∀ p ∈ bootSectorFields geometry options percentInUse,
      p.offset + p.bytes.length ≤ offset ∨ offset + n ≤ p.offset) :
    FieldAt (bootRegion geometry options percentInUse checksum) offset (zeros n) := by
  refine fieldAt_applyAll_zeros (by omega) fun p hp => ?_
  rcases List.mem_append.1 hp with hp | hp
  · rcases List.mem_append.1 hp with hp | hp
    · exact hgap p hp
    · obtain ⟨index, ⟨hindex, -⟩, rfl⟩ := mem_extendedSignatures.1 hp
      have := Nat.mul_le_mul_right geometry.bytesPerSector hindex
      rw [put_offset]
      omega
  · obtain ⟨word, -, rfl⟩ := mem_checksumWords.1 hp
    rw [put_offset]
    omega

/-- The region's first sector. -/
def writtenSector (geometry : ExfatDestinationGeometry) (options : ExfatSerializeOptions)
    (percentInUse : UInt8) (checksum : ℕ) : Bytes :=
  (bootRegion geometry options percentInUse checksum).take geometry.bytesPerSector

theorem sliceAt_writtenSector {offset n : ℕ} (h : offset + n ≤ geometry.bytesPerSector) :
    sliceAt (writtenSector geometry options percentInUse checksum) offset n =
      sliceAt (bootRegion geometry options percentInUse checksum) offset n := by
  have heq : sliceAt (sliceAt (bootRegion geometry options percentInUse checksum) 0
      geometry.bytesPerSector) offset n =
      sliceAt (bootRegion geometry options percentInUse checksum) (0 + offset) n :=
    sliceAt_sliceAt h
  rwa [Nat.zero_add] at heq

theorem slice_writtenSector (h : 512 ≤ geometry.bytesPerSector) {offset n : ℕ} {bytes : Bytes}
    (hp : ⟨offset, bytes⟩ ∈ bootSectorFields geometry options percentInUse)
    (hn : bytes.length = n) :
    sliceAt (writtenSector geometry options percentInUse checksum) offset n = bytes := by
  have hle : offset + bytes.length ≤ 512 := bootSectorFields_le hp
  rw [sliceAt_writtenSector (by omega)]
  exact (fieldAt_bootSector h hp).slice hn

theorem leAt_writtenSector (h : 512 ≤ geometry.bytesPerSector) {n offset value : ℕ}
    (hp : put n offset value ∈ bootSectorFields geometry options percentInUse)
    (hvalue : value < 256 ^ n) :
    leAt n (writtenSector geometry options percentInUse checksum) offset = value := by
  rw [leAt, slice_writtenSector h hp (length_toLe n value), fromLe_toLe n value hvalue]

theorem gap_writtenSector (h : 512 ≤ geometry.bytesPerSector) {offset n : ℕ}
    (hin : offset + n ≤ 508)
    (hgap : ∀ p ∈ bootSectorFields geometry options percentInUse,
      p.offset + p.bytes.length ≤ offset ∨ offset + n ≤ p.offset) :
    sliceAt (writtenSector geometry options percentInUse checksum) offset n = zeros n := by
  rw [sliceAt_writtenSector (by omega)]
  exact (fieldAt_gap h hin hgap).slice (length_zeros n)

theorem findIdx?_replicate (n : ℕ) (byte : UInt8) :
    (List.replicate n byte).findIdx? (· ≠ byte) = none := by
  rw [List.findIdx?_eq_none_iff]
  intro found hfound
  rw [List.eq_of_mem_replicate hfound, decide_eq_false (not_not.2 rfl)]

theorem validateZeroes_ok {bytes : Bytes} {start stop : ℕ} {error : ℕ → UInt8 → ExfatBootSectorError}
    (h : sliceAt bytes start (stop - start) = zeros (stop - start)) :
    validateZeroes bytes start stop error = .ok () := by
  rw [validateZeroes, h, zeros, findIdx?_replicate]
  rfl

theorem trailingZeros32_two_pow {k : ℕ} (h : k < 32) : trailingZeros32 (2 ^ k) = k := by
  have hall : ∀ k < 32, trailingZeros32 (2 ^ k) = k := by decide
  exact hall k h

/-- A value of the percent field the format allows. -/
def PercentAllowed (percentInUse : UInt8) : Prop :=
  percentInUse.toNat ≤ 100 ∨ percentInUse.toNat = unknownPercentInUse

/-- The boot sector of a written region is accepted if its percent field is. -/
theorem parseBootSector_of_valid {sectorShift clusterShift : ℕ}
    (h : geometry.Valid options.partitionOffsetSectors sectorShift clusterShift) :
    (∃ boot, parseBootSector (writtenSector geometry options percentInUse checksum) = .ok boot) ↔
      PercentAllowed percentInUse := by
  obtain ⟨hlow, -, -⟩ := h.sector_bounds
  have hmem := h.sector_mem
  have hcluster := h.cluster_le
  have hword : wordBound = 2 ^ 64 := rfl
  have hword32 : wordBound32 = 2 ^ 32 := rfl
  have hmax : maxClusterCount = 0xFFFFFFF5 := rfl
  have hboot : mainAndBackupBootSectors = 24 := rfl
  have hpart := h.partition
  have hcount := h.count_le
  have hfat := h.fat_end
  have hfatoff := h.fat_offset
  have hheap32 := h.heap_word
  have hroot := h.root.2
  have hvalid := h.validateGeometry_ok
  have hshift : trailingZeros32 geometry.bytesPerSector = sectorShift := by
    rw [h.sector_eq, trailingZeros32_two_pow (by omega)]
  have hratio : trailingZeros32 (geometry.bytesPerCluster / geometry.bytesPerSector) =
      clusterShift := by
    rw [h.cluster_eq, Nat.mul_div_cancel_left _ (by omega), trailingZeros32_two_pow (by omega)]
  set sector := writtenSector geometry options percentInUse checksum with hsector
  have hlength : sector.length = 2 ^ sectorShift := by
    rw [hsector, writtenSector, List.length_take, length_bootRegion, ← h.sector_eq]
    omega
  have hjump : sliceAt sector 0 3 = jumpBoot :=
    slice_writtenSector hlow (by simp [bootSectorFields]) rfl
  have hname : sliceAt sector 3 8 = fileSystemName :=
    slice_writtenSector hlow (by simp [bootSectorFields]) rfl
  have hzero : sliceAt sector 11 53 = zeros 53 :=
    gap_writtenSector hlow (by omega) (by
      simp [bootSectorFields, jumpBoot, fileSystemName, ascii, bootCodeStart])
  have hreserved : sliceAt sector 113 7 = zeros 7 :=
    gap_writtenSector hlow (by omega) (by
      simp [bootSectorFields, jumpBoot, fileSystemName, ascii, bootCodeStart])
  have hflags : leAt 2 sector 106 = 0 := by
    have hslice : sliceAt sector 106 2 = zeros 2 := gap_writtenSector hlow (by omega) (by
      simp [bootSectorFields, jumpBoot, fileSystemName, ascii, bootCodeStart])
    rw [leAt, hslice]
    rfl
  have h104 : leAt 2 sector 104 = exfatRevision :=
    leAt_writtenSector hlow (by simp [bootSectorFields]) (by decide)
  have h108 : leAt 1 sector 108 = sectorShift :=
    leAt_writtenSector hlow (by simp [bootSectorFields, hshift]) (by omega)
  have h109 : leAt 1 sector 109 = clusterShift :=
    leAt_writtenSector hlow (by simp [bootSectorFields, hratio]) (by omega)
  have h110 : leAt 1 sector 110 = 1 :=
    leAt_writtenSector hlow (by simp [bootSectorFields]) (by decide)
  have h112 : leAt 1 sector 112 = percentInUse.toNat :=
    leAt_writtenSector hlow (by simp [bootSectorFields]) percentInUse.toNat_lt
  have h510 : leAt 2 sector 510 = bootSignature :=
    leAt_writtenSector hlow (by simp [bootSectorFields]) (by decide)
  have h64 : leAt 8 sector 64 = options.partitionOffsetSectors :=
    leAt_writtenSector hlow (by simp [bootSectorFields]) (by omega)
  have h72 : leAt 8 sector 72 = geometry.volumeSectors :=
    leAt_writtenSector hlow (by simp [bootSectorFields]) (by omega)
  have h80 : leAt 4 sector 80 = geometry.fatOffsetSectors :=
    leAt_writtenSector hlow (by simp [bootSectorFields]) (by omega)
  have h84 : leAt 4 sector 84 = geometry.fatLengthSectors :=
    leAt_writtenSector hlow (by simp [bootSectorFields]) (by omega)
  have h88 : leAt 4 sector 88 = geometry.clusterHeapOffsetSectors :=
    leAt_writtenSector hlow (by simp [bootSectorFields]) (by omega)
  have h92 : leAt 4 sector 92 = geometry.clusterCount :=
    leAt_writtenSector hlow (by simp [bootSectorFields]) (by omega)
  have h96 : leAt 4 sector 96 = geometry.rootDirectoryCluster :=
    leAt_writtenSector hlow (by simp [bootSectorFields]) (by omega)
  clear_value sector
  have hcluster32 : 2 ^ sectorShift * 2 ^ clusterShift < wordBound32 := by
    rw [← pow_add, hword32]
    exact Nat.pow_lt_pow_right (by omega) (by omega)
  rw [h.sector_eq] at hvalid
  have hlong : 2 ^ 9 ≤ 2 ^ sectorShift := Nat.pow_le_pow_right (by omega) hmem.1
  rw [parseBootSector, ensure_of (by rw [hlength]; exact hlong), ok_bind, ensure_of hjump, ok_bind,
    ensure_of hname, ok_bind, validateZeroes_ok hzero, ok_bind]
  dsimp only
  rw [h108, h109, h110, h112, hflags, h104, h510, h64, h72, h80, h84, h88, h92, h96,
    ensure_of (show minBytesPerSectorShift ≤ sectorShift ∧ sectorShift ≤ maxBytesPerSectorShift from
      hmem), ok_bind, checkedShl32, if_pos (by omega), orErr_some, ok_bind, ensure_of hlength,
    ok_bind, ensure_of (show clusterShift ≤ maxClusterBytesShift - sectorShift from
      Nat.le_sub_of_add_le' hcluster), ok_bind, checkedShl32, if_pos (by omega), orErr_some, ok_bind,
    checkedMul32, if_pos hcluster32, orErr_some, ok_bind, validateZeroes_ok hreserved, ok_bind,
    ensure_of rfl, ok_bind, ensure_of (Or.inl rfl), ok_bind, ensure_of (by simp), ok_bind,
    ensure_of (by simp), ok_bind]
  by_cases hpercent : percentInUse.toNat ≤ 100 ∨ percentInUse.toNat = unknownPercentInUse
  · rw [ensure_of hpercent, ok_bind, ensure_of rfl, ok_bind, hvalid, ok_bind]
    exact iff_of_true ⟨_, rfl⟩ hpercent
  · rw [ensure_of_not hpercent, error_bind]
    exact iff_of_false (by rintro ⟨boot, hboot⟩; cases hboot) hpercent

theorem bootChecksum_lt (covered : Bytes) : bootChecksum covered < 256 ^ 4 := by
  unfold bootChecksum
  generalize covered.zipIdx.filter _ = bytes
  induction bytes using List.reverseRecOn with
  | nil => decide
  | append_singleton bytes byte _ =>
    rw [List.foldl_append, List.foldl_cons, List.foldl_nil, rotateAdd]
    exact Nat.mod_lt _ (by decide)

/-- The checksum words do not change what they are the checksum of. -/
theorem take_bootRegion :
    (bootRegion geometry options percentInUse checksum).take (11 * geometry.bytesPerSector) =
      (applyAll (bootSectorFields geometry options percentInUse ++
        extendedSignatures geometry.bytesPerSector) (zeros (geometry.bytesPerSector * 12))).take
          (11 * geometry.bytesPerSector) := by
  rw [bootRegion, regionFields, applyAll_append]
  refine take_applyAll fun p hp => ?_
  obtain ⟨word, -, rfl⟩ := mem_checksumWords.1 hp
  exact Nat.le_add_right _ _

theorem validateChecksumSector_ok (h : 512 ≤ geometry.bytesPerSector)
    (hchecksum : checksum < 256 ^ 4) (kind : ExfatBootRegionKind) :
    validateChecksumSector ((bootRegion geometry options percentInUse checksum).drop
      (geometry.bytesPerSector * 11)) checksum kind = .ok () := by
  rw [validateChecksumSector, checkAll_ok_iff]
  intro word hword
  rw [List.mem_range, List.length_drop, length_bootRegion] at hword
  have hin : word * 4 + 4 ≤ geometry.bytesPerSector := by omega
  have hmem : put 4 (11 * geometry.bytesPerSector + word * 4) checksum ∈
      regionFields geometry options percentInUse checksum := by
    refine List.mem_append_right _ (mem_checksumWords.2 ⟨word, ?_, rfl⟩)
    rw [divCeil]
    omega
  have hread : leAt 4 (bootRegion geometry options percentInUse checksum)
      (11 * geometry.bytesPerSector + word * 4) = checksum :=
    leAt_put (ascending_regionFields h) hmem (by omega) hchecksum
  refine ensure_of ?_
  rw [leAt, sliceAt, List.drop_drop, Nat.mul_comm geometry.bytesPerSector]
  exact hread

theorem validateExtendedBootSector_ok (h : 512 ≤ geometry.bytesPerSector)
    (hhigh : geometry.bytesPerSector ≤ 4096) (kind : ExfatBootRegionKind) {index : ℕ}
    (hindex : 1 ≤ index ∧ index < 9) :
    validateExtendedBootSector (bootRegion geometry options percentInUse checksum)
      geometry.bytesPerSector kind index = .ok () := by
  have hmem : put 4 (index * geometry.bytesPerSector + geometry.bytesPerSector - 4)
      extendedBootSignature ∈ regionFields geometry options percentInUse checksum :=
    List.mem_append_left _ (List.mem_append_right _ (mem_extendedSignatures.2 ⟨index, hindex, rfl⟩))
  have hle := Nat.mul_le_mul_right geometry.bytesPerSector (Nat.le_of_lt_succ hindex.2)
  have hword : wordBound = 2 ^ 64 := rfl
  have hread : leAt 4 (bootRegion geometry options percentInUse checksum)
      (index * geometry.bytesPerSector + geometry.bytesPerSector - 4) = extendedBootSignature :=
    leAt_put (ascending_regionFields h) hmem (by omega) (by decide)
  rw [validateExtendedBootSector, checkedMul_of_lt (by omega), orErr_some, ok_bind,
    checkedAdd_of_lt (by omega), orErr_some, ok_bind,
    ← Nat.add_sub_assoc (show 4 ≤ geometry.bytesPerSector by omega)]
  exact ensure_of hread

theorem validateSectorSize_ok {sectorShift clusterShift partitionOffset : ℕ}
    (h : geometry.Valid partitionOffset sectorShift clusterShift) :
    validateSectorSize geometry.bytesPerSector = .ok () := by
  obtain ⟨hlow, hhigh, -⟩ := h.sector_bounds
  refine ensure_of ⟨⟨by omega, ?_⟩, hlow, hhigh⟩
  rw [h.sector_eq, Nat.log2_two_pow]

/-- One region is accepted if its percent field is. -/
theorem validateBootRegion_of_valid {sectorShift clusterShift : ℕ}
    (h : geometry.Valid options.partitionOffsetSectors sectorShift clusterShift)
    (hchecksum : bootChecksum ((bootRegion geometry options percentInUse checksum).take
      (11 * geometry.bytesPerSector)) = checksum) (kind : ExfatBootRegionKind) :
    (∃ validated, validateBootRegion (bootRegion geometry options percentInUse checksum)
      geometry.bytesPerSector kind = .ok validated) ↔ PercentAllowed percentInUse := by
  obtain ⟨hlow, hhigh, -⟩ := h.sector_bounds
  have hword : wordBound = 2 ^ 64 := rfl
  have hlt : checksum < 256 ^ 4 := hchecksum ▸ bootChecksum_lt _
  have hsectors : checkAll (validateExtendedBootSector
      (bootRegion geometry options percentInUse checksum) geometry.bytesPerSector kind)
      (List.range' 1 8) = .ok () := by
    rw [checkAll_ok_iff]
    intro index hindex
    rw [List.mem_range'_1] at hindex
    exact validateExtendedBootSector_ok hlow hhigh kind hindex
  have hlength : (bootRegion geometry options percentInUse checksum).length =
      geometry.bytesPerSector * sectorsPerBootRegion := length_bootRegion
  have heleven : checksummedSectorsPerRegion = 11 := rfl
  have hregion : geometry.bytesPerSector * sectorsPerBootRegion < wordBound := by
    rw [show sectorsPerBootRegion = 12 from rfl]
    omega
  rw [validateBootRegion, validateSectorSize_ok h, ok_bind,
    checkedMul_of_lt hregion, orErr_some, ok_bind, ensure_of hlength, ok_bind, heleven,
    checkedMul_of_lt (by omega), orErr_some, ok_bind]
  dsimp only
  rw [Nat.mul_comm geometry.bytesPerSector 11, hchecksum, Nat.mul_comm 11,
    validateChecksumSector_ok hlow hlt, ok_bind, ← parseBootSector_of_valid h]
  constructor
  · rintro ⟨validated, hvalidated⟩
    simp only [bind_ok_iff, mapError_ok_iff] at hvalidated
    obtain ⟨boot, hboot, -⟩ := hvalidated
    exact ⟨boot, hboot⟩
  · rintro ⟨boot, hboot⟩
    rw [writtenSector] at hboot
    rw [hboot, hsectors]
    exact ⟨_, rfl⟩

theorem compareRegions_self (region : Bytes) (bytesPerSector : ℕ) :
    compareRegions region region bytesPerSector = .exact := by
  have hnone : (List.range (bytesPerSector * checksummedSectorsPerRegion)).find? (fun offset =>
      decide (offset ∉ staleOffsets ∧ region[offset]? ≠ region[offset]?)) = none := by
    rw [List.find?_eq_none]
    simp
  rw [compareRegions, hnone]
  simp

/-- Both regions, one the copy of the other. -/
theorem validateBootRegions_of_valid {sectorShift clusterShift : ℕ}
    (h : geometry.Valid options.partitionOffsetSectors sectorShift clusterShift)
    (hchecksum : bootChecksum ((bootRegion geometry options percentInUse checksum).take
      (11 * geometry.bytesPerSector)) = checksum) :
    (∃ validated, validateBootRegions (bootRegion geometry options percentInUse checksum ++
      bootRegion geometry options percentInUse checksum) geometry.bytesPerSector = .ok validated ∧
        validated.comparison = .exact) ↔ PercentAllowed percentInUse := by
  obtain ⟨hlow, hhigh, -⟩ := h.sector_bounds
  have hword : wordBound = 2 ^ 64 := rfl
  have hlength : (bootRegion geometry options percentInUse checksum).length =
      geometry.bytesPerSector * sectorsPerBootRegion := length_bootRegion
  have hregion : geometry.bytesPerSector * sectorsPerBootRegion < wordBound := by
    rw [show sectorsPerBootRegion = 12 from rfl]
    omega
  have hboth : geometry.bytesPerSector * (2 * sectorsPerBootRegion) < wordBound := by
    rw [show sectorsPerBootRegion = 12 from rfl]
    omega
  rw [validateBootRegions, validateSectorSize_ok h, ok_bind,
    checkedMul_of_lt hboth, orErr_some, ok_bind,
    ensure_of (by rw [List.length_append, hlength]; ring), ok_bind,
    checkedMul_of_lt hregion, orErr_some, ok_bind,
    List.take_left' hlength, List.drop_left' hlength]
  have hmain := validateBootRegion_of_valid h hchecksum .main
  have hbackup := validateBootRegion_of_valid h hchecksum .backup
  constructor
  · rintro ⟨validated, hvalidated, -⟩
    simp only [bind_ok_iff] at hvalidated
    obtain ⟨main, hok, -⟩ := hvalidated
    exact hmain.1 ⟨main, hok⟩
  · intro hpercent
    obtain ⟨main, hmain⟩ := hmain.2 hpercent
    obtain ⟨backup, hbackup⟩ := hbackup.2 hpercent
    rw [hmain, ok_bind, hbackup]
    exact ⟨_, rfl, compareRegions_self _ _⟩

theorem validateFormatterBootCode_ok (h : 512 ≤ geometry.bytesPerSector)
    (hhigh : geometry.bytesPerSector ≤ 4096) :
    validateFormatterBootCode (bootRegion geometry options percentInUse checksum ++
      bootRegion geometry options percentInUse checksum) geometry.bytesPerSector = .ok () := by
  have hword : wordBound = 2 ^ 64 := rfl
  have hcode : FieldAt (bootRegion geometry options percentInUse checksum) bootCodeStart
      (List.replicate (bootCodeEnd - bootCodeStart) 0xf4) :=
    fieldAt_bootSector h (p := ⟨bootCodeStart, List.replicate (bootCodeEnd - bootCodeStart) 0xf4⟩)
      (by simp [bootSectorFields])
  have hin := hcode.1
  have hnone := findIdx?_replicate (bootCodeEnd - bootCodeStart) 0xf4
  have hlen : (List.replicate (bootCodeEnd - bootCodeStart) (0xf4 : UInt8)).length =
      bootCodeEnd - bootCodeStart := List.length_replicate
  have hspan : bootCodeEnd - bootCodeStart = 390 := rfl
  have hstart : bootCodeStart = 120 := rfl
  have hstop : bootCodeEnd = 510 := rfl
  have hfirst : slice? (bootRegion geometry options percentInUse checksum ++
      bootRegion geometry options percentInUse checksum) (0 + bootCodeStart) (0 + bootCodeEnd) =
      some (List.replicate (bootCodeEnd - bootCodeStart) 0xf4) := by
    rw [Nat.zero_add, Nat.zero_add, slice?_eq_some, List.length_append,
      sliceAt_append_left (by omega)]
    exact ⟨by omega, hcode.slice hlen⟩
  have hsecond : slice? (bootRegion geometry options percentInUse checksum ++
      bootRegion geometry options percentInUse checksum)
      (geometry.bytesPerSector * 12 + bootCodeStart) (geometry.bytesPerSector * 12 + bootCodeEnd) =
      some (List.replicate (bootCodeEnd - bootCodeStart) 0xf4) := by
    rw [slice?_eq_some, List.length_append, sliceAt_append_right (by rw [length_bootRegion]; omega),
      length_bootRegion, Nat.add_sub_cancel_left, Nat.add_sub_add_left]
    exact ⟨by omega, hcode.slice hlen⟩
  rw [validateFormatterBootCode, checkedMul_of_lt (by omega), orErr_some, ok_bind, checkAll_ok_iff]
  intro region hregion
  rcases List.mem_cons.1 hregion with rfl | hregion
  · rw [hfirst, orErr_some, ok_bind, hnone]
    rfl
  · rw [List.mem_singleton.1 hregion, hsecond, orErr_some, ok_bind, hnone]
    rfl

/-- **Boot regions.** Both regions are written, for a valid geometry, exactly if the percent field is
one the format allows. -/
theorem buildBootRegions_of_valid {sectorShift clusterShift : ℕ}
    (h : geometry.Valid options.partitionOffsetSectors sectorShift clusterShift) :
    (∃ regions, buildBootRegions geometry options percentInUse = .ok regions) ↔
      PercentAllowed percentInUse := by
  obtain ⟨hlow, hhigh, -⟩ := h.sector_bounds
  have hword : wordBound = 2 ^ 64 := rfl
  rw [buildBootRegions]
  dsimp only
  rw [checkedMul_of_lt (by omega), orErr_some, ok_bind]
  generalize hchecksum : bootChecksum ((applyAll (bootSectorFields geometry options percentInUse ++
    extendedSignatures geometry.bytesPerSector) (zeros (geometry.bytesPerSector * 12))).take
      (11 * geometry.bytesPerSector)) = checksum
  rw [← applyAll_append, ← regionFields, ← bootRegion, validateGeneratedBootRegions]
  rw [← take_bootRegion] at hchecksum
  rw [← validateBootRegions_of_valid h hchecksum]
  constructor
  · rintro ⟨regions, hregions⟩
    simp only [bind_ok_iff, mapError_ok_iff, ensure_ok_iff] at hregions
    obtain ⟨_, ⟨validated, hvalidated, _, hexact, -⟩, -⟩ := hregions
    exact ⟨validated, hvalidated, hexact⟩
  · rintro ⟨validated, hvalidated, hexact⟩
    have hmapped : (validateBootRegions (bootRegion geometry options percentInUse checksum ++
        bootRegion geometry options percentInUse checksum) geometry.bytesPerSector).mapError
          ExfatSerializeError.generatedBootRegion = .ok validated := by rw [hvalidated]; rfl
    rw [hmapped, ok_bind, ensure_of hexact, ok_bind, validateFormatterBootCode_ok hlow hhigh]
    exact ⟨_, rfl⟩

end Written

end Exfat

end StarConverter
