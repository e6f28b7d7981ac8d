import StarConverter.Base.Words

/-!
# Clusters, FAT entries and the allocation bitmap

The geometry of a volume as its boot sector gives it, the place of a cluster in the image, the meaning
of a FAT entry and the bit of a cluster in the allocation bitmap.
-/

namespace StarConverter

open Base

namespace Exfat

/-- The validated fields of an exFAT boot sector. -/
structure ExfatBootSector where
  volumeLengthSectors : ℕ
  fatOffsetSectors : ℕ
  fatLengthSectors : ℕ
  clusterHeapOffsetSectors : ℕ
  clusterCount : ℕ
  rootDirectoryCluster : ℕ
  volumeSerialNumber : ℕ
  volumeFlags : ℕ
  numberOfFats : ℕ
  percentInUse : Option ℕ
  bytesPerSector : ℕ
  bytesPerCluster : ℕ
  deriving DecidableEq

def firstDataCluster : ℕ := 2

def badCluster : ℕ := 0xfffffff7

def endOfChain : ℕ := 0xffffffff

/-- Meaning of one validated FAT entry. -/
inductive FatEntry
  | free
  | next (cluster : ℕ)
  | bad
  | endOfChain
  deriving DecidableEq

/-- Counts from the meaningful bits of an allocation bitmap. -/
structure AllocationSummary where
  allocatedClusters : ℕ
  freeClusters : ℕ
  requiredBitmapBytes : ℕ
  deriving DecidableEq

inductive ExfatAllocationError
  | invalidCluster (cluster : ℕ)
  | arithmeticOverflow (calculation : String)
  | fatSliceTooShort (required actual : ℕ)
  | bitmapSliceTooShort (required actual : ℕ)
  | bitmapSliceTooLong (required actual : ℕ)
  | bitmapReservedTailBitSet (bitIndex : ℕ)
  | invalidFatValue (cluster value : ℕ)
  | freeClusterInChain (cluster : ℕ)
  | badClusterInChain (cluster : ℕ)
  | chainCycleOrTooLong (startCluster : ℕ)
  deriving DecidableEq

def validateCluster (geometry : ExfatBootSector) (cluster : ℕ) : Except ExfatAllocationError Unit := do
  let clusterLimit ← orErr (checkedAdd32 firstDataCluster geometry.clusterCount)
    (.arithmeticOverflow "cluster heap index limit")
  ensure (¬ (cluster < firstDataCluster ∨ clusterLimit ≤ cluster)) (.invalidCluster cluster)

/-- The image-relative byte offset of a data cluster. -/
def clusterByteOffset (geometry : ExfatBootSector) (cluster : ℕ) : Except ExfatAllocationError ℕ := do
  validateCluster geometry cluster
  let relativeCluster := cluster - firstDataCluster
  let relativeBytes ← orErr (checkedMul relativeCluster geometry.bytesPerCluster)
    (.arithmeticOverflow "cluster-relative byte offset")
  orErr ((checkedMul geometry.clusterHeapOffsetSectors geometry.bytesPerSector).bind
      fun heapOffset => checkedAdd heapOffset relativeBytes)
    (.arithmeticOverflow "image-relative cluster byte offset")

/-- Whether a cluster can be addressed. -/
def isCluster (geometry : ExfatBootSector) (cluster : ℕ) : Bool :=
  (clusterByteOffset geometry cluster).toOption.isSome

/-- The meaning of the FAT value of a cluster. -/
def decodeFatValue (geometry : ExfatBootSector) (cluster value : ℕ) :
    Except ExfatAllocationError FatEntry :=
  if value = 0 then pure .free
  else if value = badCluster then pure .bad
  else if value = endOfChain then pure .endOfChain
  else if isCluster geometry value then pure (.next value)
  else .error (.invalidFatValue cluster value)

/-- Whether the bitmap marks a cluster allocated. -/
def bitmapClusterIsAllocated (bitmap : Bytes) (geometry : ExfatBootSector) (cluster : ℕ) :
    Except ExfatAllocationError Bool := do
  validateCluster geometry cluster
  let bitIndex := cluster - firstDataCluster
  let byteIndex := bitIndex / 8
  let byte ← orErr bitmap[byteIndex]? (.bitmapSliceTooShort (byteIndex + 1) bitmap.length)
  pure (byte.toNat.testBit (bitIndex % 8))

/-- `count_ones` of a byte. -/
def countOnes (byte : UInt8) : ℕ := (List.range 8).countP byte.toNat.testBit

/-- Counts allocated and free clusters; the bitmap has one byte for every eight clusters and no bit
behind the last cluster. -/
def summarizeAllocationBitmap (bitmap : Bytes) (geometry : ExfatBootSector) :
    Except ExfatAllocationError AllocationSummary := do
  let requiredBitmapBytes := divCeil geometry.clusterCount 8
  ensure (requiredBitmapBytes ≤ bitmap.length)
    (.bitmapSliceTooShort requiredBitmapBytes bitmap.length)
  ensure (bitmap.length ≤ requiredBitmapBytes)
    (.bitmapSliceTooLong requiredBitmapBytes bitmap.length)
  let fullBytes := geometry.clusterCount / 8
  let allocatedInFullBytes := ((bitmap.take fullBytes).map countOnes).sum
  let tailBits := geometry.clusterCount % 8
  let tail := bitmap.getD fullBytes 0
  let reserved := (List.range 8).filter fun bit => tailBits ≤ bit ∧ tail.toNat.testBit bit
  if tailBits ≠ 0 then
    match reserved.head? with
    | some bit => .error (.bitmapReservedTailBitSet (fullBytes * 8 + bit))
    | none => pure ()
  let allocatedInTail := if tailBits = 0 then 0 else (List.range tailBits).countP tail.toNat.testBit
  let allocatedClusters := allocatedInFullBytes + allocatedInTail
  pure ⟨allocatedClusters, geometry.clusterCount - allocatedClusters, requiredBitmapBytes⟩

/-! ## What a valid cluster is -/

theorem validateCluster_ok_iff {geometry : ExfatBootSector} {cluster : ℕ} {u : Unit} :
    validateCluster geometry cluster = .ok u ↔ 2 + geometry.clusterCount < wordBound32 ∧
      2 ≤ cluster ∧ cluster < 2 + geometry.clusterCount := by
  simp only [validateCluster, firstDataCluster, bind_ok_iff, orErr_ok_iff, checkedAdd32_eq_some,
    ensure_ok_iff, not_or, not_lt, not_le]
  constructor
  · rintro ⟨_, ⟨hlt, rfl⟩, h⟩
    exact ⟨hlt, h⟩
  · rintro ⟨hlt, h⟩
    exact ⟨_, ⟨hlt, rfl⟩, h⟩

/-- The place of a cluster, where it can be computed. -/
def clusterOffset (geometry : ExfatBootSector) (cluster : ℕ) : ℕ :=
  geometry.clusterHeapOffsetSectors * geometry.bytesPerSector +
    (cluster - 2) * geometry.bytesPerCluster

theorem clusterByteOffset_ok {geometry : ExfatBootSector} {cluster offset : ℕ}
    (h : clusterByteOffset geometry cluster = .ok offset) :
    offset = clusterOffset geometry cluster ∧ 2 ≤ cluster ∧ cluster < 2 + geometry.clusterCount := by
  simp only [clusterByteOffset, bind_ok_iff, orErr_ok_iff, checkedMul_eq_some,
    Option.bind_eq_some_iff, checkedAdd_eq_some, validateCluster_ok_iff] at h
  obtain ⟨_, ⟨-, hcluster⟩, _, ⟨-, rfl⟩, _, ⟨-, rfl⟩, -, rfl⟩ := h
  exact ⟨rfl, hcluster⟩

theorem isCluster_iff {geometry : ExfatBootSector} {cluster : ℕ} :
    isCluster geometry cluster = true ↔ ∃ offset, clusterByteOffset geometry cluster = .ok offset := by
  unfold isCluster
  cases clusterByteOffset geometry cluster <;> simp [Except.toOption]

/-- Consecutive clusters lie one behind the other. -/
theorem clusterOffset_add {geometry : ExfatBootSector} {cluster n : ℕ} (h : 2 ≤ cluster) :
    clusterOffset geometry (cluster + n) =
      clusterOffset geometry cluster + n * geometry.bytesPerCluster := by
  unfold clusterOffset
  rw [show cluster + n - 2 = cluster - 2 + n by omega, Nat.add_mul]
  omega

end Exfat

end StarConverter
