import StarConverter.Exfat.Directory
import StarConverter.Exfat.Stream
import StarConverter.Exfat.Upcase

/-!
# Root discovery

The root directory names the active allocation bitmap and the up-case table; both are read and
checked, and the clusters of the three streams have to be allocated.
-/

namespace StarConverter

open Base

namespace Exfat

structure ExfatDiscoveryLimits where
  rootStream : StreamReadLimits
  systemStream : StreamReadLimits
  maxDirectoryEntries : ℕ
  maxSecondaryEntries : ℕ
  deriving DecidableEq

/-- Root metadata and the evidence of the active allocation bitmap. -/
structure ExfatRootDiscovery where
  directory : DirectorySummary
  activeBitmap : AllocationBitmapEntry
  upcaseTable : UpcaseTableEntry
  upcaseMappings : UpcaseTable
  allocation : AllocationSummary
  freeBytes : ℕ
  rootClusters : List ℕ
  bitmapClusters : List ℕ
  upcaseClusters : List ℕ
  deriving DecidableEq

inductive ExfatDiscoveryError
  | invalidLimits
  | rootStream (error : ExfatImageError)
  | rootDirectory (error : DirectoryError)
  | missingActiveBitmap (identifier : ℕ)
  | missingUpcaseTable
  | bitmapStream (error : ExfatImageError)
  | upcaseStream (error : ExfatImageError)
  | upcase (error : UpcaseError)
  | allocation (error : ExfatAllocationError)
  | metadataClusterMarkedFree (cluster : ℕ) (role : String)
  | percentInUseMismatch (stored calculated : ℕ)
  | arithmeticOverflow (calculation : String)
  deriving DecidableEq

abbrev Discovered (α : Type) := Except ExfatDiscoveryError α

/-- The last bitmap entry with the given identifier. -/
def findBitmap (identifier : ℕ) : List DirectoryRecord → Option AllocationBitmapEntry
  | [] => none
  | .allocationBitmap entry :: rest =>
    (findBitmap identifier rest).or (if entry.bitmapIdentifier = identifier then some entry else none)
  | _ :: rest => findBitmap identifier rest

/-- The last up-case entry. -/
def findUpcase : List DirectoryRecord → Option UpcaseTableEntry
  | [] => none
  | .upcaseTable entry :: rest => (findUpcase rest).or (some entry)
  | _ :: rest => findUpcase rest

def validateMetadataAllocated (bitmap : Bytes) (boot : ExfatBootSector) (clusters : List ℕ)
    (role : String) : Discovered Unit :=
  checkAll (fun cluster => do
    let allocated ← (bitmapClusterIsAllocated bitmap boot cluster).mapError .allocation
    ensure (allocated = true) (.metadataClusterMarkedFree cluster role)) clusters

def validatePercentInUse (boot : ExfatBootSector) (allocation : AllocationSummary) :
    Discovered Unit := do
  let numerator ← orErr (checkedMul allocation.allocatedClusters 100)
    (.arithmeticOverflow "allocated-cluster percentage numerator")
  let calculated := numerator / boot.clusterCount
  ensure (calculated < 256) (.arithmeticOverflow "allocated-cluster percentage conversion")
  let rounded ← orErr (checkedAdd numerator (boot.clusterCount / 2))
    (.arithmeticOverflow "legacy allocated-cluster percentage rounding")
  let legacyNearest := rounded / boot.clusterCount
  ensure (legacyNearest < 256) (.arithmeticOverflow "legacy allocated-cluster percentage conversion")
  match boot.percentInUse with
  | some stored =>
    ensure (¬ (stored ≠ calculated ∧ stored ≠ legacyNearest))
      (.percentInUseMismatch stored calculated)
  | none => pure ()

/-- The context in which a directory of the volume is parsed. -/
def directoryContext (boot : ExfatBootSector) (isRoot : Bool) (limits : ExfatDiscoveryLimits) :
    DirectoryContext :=
  { clusterCount := boot.clusterCount
    bytesPerCluster := boot.bytesPerCluster
    numberOfFats := boot.numberOfFats
    isRoot
    maxEntries := limits.maxDirectoryEntries
    maxSecondaryEntries := limits.maxSecondaryEntries }

def discoverRoot (image : BoundedImageReader) (boot : ExfatBootSector)
    (limits : ExfatDiscoveryLimits) : Discovered ExfatRootDiscovery := do
  ensure (¬ (limits.maxDirectoryEntries = 0 ∨ limits.maxSecondaryEntries = 0)) .invalidLimits
  let root ← (readChainToEnd image boot boot.rootDirectoryCluster limits.rootStream).mapError
    .rootStream
  let activeIdentifier := boot.volumeFlags % 2
  let (directory, records) ← (parseDirectory root.bytes (directoryContext boot true limits)).mapError
    .rootDirectory
  let activeBitmap ← orErr (findBitmap activeIdentifier records)
    (.missingActiveBitmap activeIdentifier)
  let upcaseTable ← orErr (findUpcase records) .missingUpcaseTable
  let bitmap ← (readStream image boot activeBitmap.firstCluster activeBitmap.dataLength false
    limits.systemStream).mapError .bitmapStream
  let allocation ← (summarizeAllocationBitmap bitmap.bytes boot).mapError .allocation
  let upcase ← (readStream image boot upcaseTable.firstCluster upcaseTable.dataLength false
    limits.systemStream).mapError .upcaseStream
  let upcaseMappings ← (UpcaseTable.parse upcase.bytes upcaseTable.tableChecksum
    UpcaseLimits.completeTable).mapError .upcase
  validateMetadataAllocated bitmap.bytes boot root.clusters "root directory"
  validateMetadataAllocated bitmap.bytes boot bitmap.clusters "Allocation Bitmap"
  validateMetadataAllocated bitmap.bytes boot upcase.clusters "Up-case Table"
  validatePercentInUse boot allocation
  let freeBytes ← orErr (checkedMul allocation.freeClusters boot.bytesPerCluster)
    (.arithmeticOverflow "free byte count")
  pure
    { directory, activeBitmap, upcaseTable, upcaseMappings, allocation, freeBytes
      rootClusters := root.clusters
      bitmapClusters := bitmap.clusters
      upcaseClusters := upcase.clusters }

end Exfat

end StarConverter
