import Mathlib.Data.Prod.Lex
import Mathlib.Order.Bounds.Basic
import StarConverter.Base.Bits
import StarConverter.Base.Spans

/-!
# The allocation bitmap of a volume

One bit for each cluster, compared with the clusters that inventoried attributes claim. The code sorts
the claims and looks at the bitmap byte by byte, under masks at both ends of every claim and every gap;
`firstClusterWithState_eq` says that this finds the first bit of a range, and `reconcile_exact` what the
comparison of the whole volume amounts to.
-/

namespace StarConverter

open Base

namespace Ntfs

/-- Bytes the length of a bitmap is rounded up to. -/
def bitmapAlignmentBytes : ℕ := 8

def maxSupportedClusterCount : ℕ := 4294967295

def maxSupportedBitmapBytes : ℕ := 512 * 1024 * 1024

inductive TailBitPolicy
  | requireAllocated
  | reportOnly
  deriving DecidableEq

inductive ClusterAllocation
  | free
  | allocated
  deriving DecidableEq

/-- The padding bits after the last addressable cluster. -/
structure TailEvidence where
  reservedBits : ℕ
  allocatedBits : ℕ
  firstUnallocatedBit : Option ℕ
  deriving DecidableEq

/-- A validated view of an allocation bitmap: it has a bit for each cluster, and the number of allocated
clusters is the number of set bits among them. -/
structure NtfsBitmap where
  bytes : Bytes
  clusterCount : ℕ
  allocatedClusters : ℕ
  tail : TailEvidence
  count_le : clusterCount ≤ maxSupportedClusterCount
  bits_le : clusterCount ≤ 8 * bytes.length
  allocated_eq : allocatedClusters = countBits bytes clusterCount

/-- One physical cluster range claimed by an inventoried attribute. -/
structure NtfsAllocationClaim where
  startLcn : ℕ
  clusterCount : ℕ
  deriving DecidableEq

structure NtfsReconciliationLimits where
  maxClaims : ℕ
  deriving DecidableEq

structure NtfsAllocationReconciliation where
  claimCount : ℕ
  claimedClusters : ℕ
  unexplainedAllocatedClusters : ℕ
  firstUnexplainedLcn : Option ℕ
  deriving DecidableEq

inductive NtfsAllocationReconciliationEvidence
  | complete (report : NtfsAllocationReconciliation)
  | incompleteInventory (report : NtfsAllocationReconciliation)
  deriving DecidableEq

inductive NtfsBitmapError
  | zeroClusterCount
  | clusterCountTooLarge (clusterCount maximum : ℕ)
  | lengthCalculationOverflow (clusterCount : ℕ)
  | bitmapTooLarge (actual maximum : ℕ)
  | lengthMismatch (actual minimum canonical : ℕ)
  | unallocatedTailBit (bitIndex : ℕ)
  | zeroReconciliationClaimLimit
  | reconciliationClaimLimitExceeded (actual maximum : ℕ)
  | emptyAllocationClaim (claimIndex : ℕ)
  | allocationClaimOverflow (claimIndex : ℕ)
  | allocationClaimOutOfRange (claimIndex startLcn clusterCount volumeClusterCount : ℕ)
  | overlappingAllocationClaims (firstClaimIndex secondClaimIndex lcn : ℕ)
  | claimedClusterMarkedFree (claimIndex lcn : ℕ)
  | unexplainedAllocatedCluster (lcn unexplainedClusters : ℕ)
  deriving DecidableEq

/-! ## Parsing -/

structure BitmapLengths where
  minimum : ℕ
  canonical : ℕ
  deriving DecidableEq

def bitmapLengths (clusterCount : ℕ) : Except NtfsBitmapError BitmapLengths := do
  ensure (clusterCount ≠ 0) .zeroClusterCount
  ensure (clusterCount ≤ maxSupportedClusterCount)
    (.clusterCountTooLarge clusterCount maxSupportedClusterCount)
  let bits ← orErr (checkedAdd clusterCount 7) (.lengthCalculationOverflow clusterCount)
  let minimum := bits / 8
  let padded ← orErr (checkedAdd minimum (bitmapAlignmentBytes - 1))
    (.lengthCalculationOverflow clusterCount)
  let canonical := padded / bitmapAlignmentBytes * bitmapAlignmentBytes
  ensure (canonical ≤ maxSupportedBitmapBytes) (.lengthCalculationOverflow clusterCount)
  pure ⟨minimum, canonical⟩

/-- The ones of the complete bytes and of the bits left over. -/
def countAllocatedClusters (clusterCount : ℕ) (bytes : Bytes) : ℕ :=
  ((bytes.take (clusterCount / 8)).map popCount).sum +
    (if clusterCount % 8 = 0 then 0
      else popCount (bytes.getD (clusterCount / 8) 0 &&& rangeMask 0 (clusterCount % 8)))

def inspectTail (clusterCount : ℕ) (bytes : Bytes) : TailEvidence :=
  let totalBits := bytes.length * 8
  { reservedBits := totalBits - clusterCount
    allocatedBits := (List.range' clusterCount (totalBits - clusterCount)).countP (bitAt bytes)
    firstUnallocatedBit := firstIn (fun i => !bitAt bytes i) clusterCount totalBits }

/-- The checks of the length. -/
def checkLength (clusterCount : ℕ) (bytes : Bytes) : Except NtfsBitmapError Unit := do
  let lengths ← bitmapLengths clusterCount
  ensure (bytes.length ≤ maxSupportedBitmapBytes)
    (.bitmapTooLarge bytes.length maxSupportedBitmapBytes)
  ensure (bytes.length = lengths.canonical)
    (.lengthMismatch bytes.length lengths.minimum lengths.canonical)

theorem checkLength_ok {clusterCount : ℕ} {bytes : Bytes} {u : Unit}
    (h : checkLength clusterCount bytes = .ok u) :
    clusterCount ≤ maxSupportedClusterCount ∧ clusterCount ≤ 8 * bytes.length := by
  simp only [checkLength, bitmapLengths, bitmapAlignmentBytes, bind_ok_iff, exists_const,
    ensure_ok_iff, orErr_ok_iff, checkedAdd_eq_some, pure_eq_ok, Except.ok.injEq] at h
  obtain ⟨_, ⟨-, hcount, _, ⟨-, rfl⟩, _, ⟨-, rfl⟩, _, -, rfl⟩, -, hlen⟩ := h
  simp only at hlen
  exact ⟨hcount, by omega⟩

def checkTail (policy : TailBitPolicy) (tail : TailEvidence) : Except NtfsBitmapError Unit :=
  match policy, tail.firstUnallocatedBit with
  | .requireAllocated, some bitIndex => .error (.unallocatedTailBit bitIndex)
  | _, _ => pure ()

/-- Parses a `$Bitmap` data stream with an explicit reserved-tail policy. -/
def parseBitmapWithTailPolicy (clusterCount : ℕ) (bytes : Bytes) (policy : TailBitPolicy) :
    Except NtfsBitmapError NtfsBitmap :=
  match h : checkLength clusterCount bytes with
  | .error e => .error e
  | .ok _ => do
    checkTail policy (inspectTail clusterCount bytes)
    pure
      { bytes := bytes
        clusterCount := clusterCount
        allocatedClusters := countAllocatedClusters clusterCount bytes
        tail := inspectTail clusterCount bytes
        count_le := (checkLength_ok h).1
        bits_le := (checkLength_ok h).2
        allocated_eq := sum_popCount (checkLength_ok h).2 }

theorem parseBitmapWithTailPolicy_ok {clusterCount : ℕ} {bytes : Bytes} {policy : TailBitPolicy}
    {bitmap : NtfsBitmap} (h : parseBitmapWithTailPolicy clusterCount bytes policy = .ok bitmap) :
    bitmap.clusterCount = clusterCount ∧ bitmap.bytes = bytes := by
  unfold parseBitmapWithTailPolicy at h
  split at h
  · cases h
  · rw [bind_unit_ok_iff] at h
    obtain rfl := Except.ok.inj h.2
    exact ⟨rfl, rfl⟩

/-! ## Scanning -/

/-- The bit of a state. -/
def ClusterAllocation.bit : ClusterAllocation → Bool
  | .free => false
  | .allocated => true

/-- A byte whose ones are the clusters in the state. -/
def ClusterAllocation.matching (state : ClusterAllocation) (byte : UInt8) : UInt8 :=
  match state with
  | .allocated => byte
  | .free => ~~~byte

/-- The scan of the given bytes, each under the mask of its part of the range. -/
def scanBytes (bytes : Bytes) (startLcn endLcn : ℕ) (state : ClusterAllocation) : List ℕ → Option ℕ
  | [] => none
  | byteIndex :: rest =>
    let byteStart := 8 * byteIndex
    let lower := min (startLcn - byteStart) 8
    let upper := min (endLcn - byteStart) 8
    let matching := state.matching (bytes.getD byteIndex 0) &&& rangeMask lower (upper - lower)
    if matching ≠ 0 then some (byteStart + trailingZeros matching)
    else scanBytes bytes startLcn endLcn state rest

def firstClusterWithState (bitmap : NtfsBitmap) (startLcn endLcn : ℕ) (state : ClusterAllocation) :
    Option ℕ :=
  if endLcn ≤ startLcn then none
  else
    let firstByte := startLcn / 8
    let lastByte := (endLcn - 1) / 8
    scanBytes bitmap.bytes startLcn endLcn state (List.range' firstByte (lastByte + 1 - firstByte))

theorem testBit_matching {state : ClusterAllocation} {bytes : Bytes} {byteIndex i : ℕ} (hi : i < 8) :
    (state.matching (bytes.getD byteIndex 0)).toNat.testBit i =
      (bitAt bytes (8 * byteIndex + i) == state.bit) := by
  have hbit : bitAt bytes (8 * byteIndex + i) = (bytes.getD byteIndex 0).toNat.testBit i := by
    rw [bitAt, show (8 * byteIndex + i) / 8 = byteIndex by omega,
      show (8 * byteIndex + i) % 8 = i by omega]
  rw [hbit]
  cases state with
  | free =>
    rw [ClusterAllocation.matching, testBit_not _ hi, ClusterAllocation.bit]
    cases (bytes.getD byteIndex 0).toNat.testBit i <;> rfl
  | allocated =>
    rw [ClusterAllocation.matching, ClusterAllocation.bit]
    cases (bytes.getD byteIndex 0).toNat.testBit i <;> rfl

/-- One byte of a scan, over the part of the range inside it. -/
theorem scanBytes_cons {bytes : Bytes} {startLcn endLcn byteIndex : ℕ} {state : ClusterAllocation}
    {rest : List ℕ} (h1 : startLcn < 8 * byteIndex + 8) (h2 : 8 * byteIndex < endLcn)
    (h : startLcn < endLcn) :
    scanBytes bytes startLcn endLcn state (byteIndex :: rest) =
      (firstIn (fun i => bitAt bytes i == state.bit) (max startLcn (8 * byteIndex))
        (min endLcn (8 * byteIndex + 8))).or (scanBytes bytes startLcn endLcn state rest) := by
  have hlo : max startLcn (8 * byteIndex) = 8 * byteIndex + min (startLcn - 8 * byteIndex) 8 := by
    omega
  have hhi : min endLcn (8 * byteIndex + 8) = 8 * byteIndex + min (endLcn - 8 * byteIndex) 8 := by
    omega
  have hbyte : firstIn (fun i => bitAt bytes (8 * byteIndex + i) == state.bit)
      (min (startLcn - 8 * byteIndex) 8) (min (endLcn - 8 * byteIndex) 8) =
      firstIn (state.matching (bytes.getD byteIndex 0)).toNat.testBit
        (min (startLcn - 8 * byteIndex) 8) (min (endLcn - 8 * byteIndex) 8) :=
    firstIn_congr fun i _ hi => (testBit_matching (by omega)).symm
  rw [hlo, hhi, firstIn_shift, hbyte, ← firstIn_masked (by omega) (by omega), scanBytes]
  generalize state.matching (bytes.getD byteIndex 0) &&&
    rangeMask (min (startLcn - 8 * byteIndex) 8)
      (min (endLcn - 8 * byteIndex) 8 - min (startLcn - 8 * byteIndex) 8) = byte
  by_cases hzero : byte = 0
  · rw [if_pos hzero, if_neg (not_not.2 hzero)]
    rfl
  · rw [if_neg hzero, if_pos hzero]
    rfl

/-- The scan of consecutive bytes finds the first bit of their part of the range. -/
theorem scanBytes_range' {bytes : Bytes} {startLcn endLcn byteIndex count : ℕ}
    {state : ClusterAllocation} (h : startLcn < endLcn) (h1 : startLcn < 8 * byteIndex + 8)
    (h2 : 8 * (byteIndex + count) < endLcn + 8) :
    scanBytes bytes startLcn endLcn state (List.range' byteIndex count) =
      firstIn (fun i => bitAt bytes i == state.bit) (max startLcn (8 * byteIndex))
        (min endLcn (8 * (byteIndex + count))) := by
  induction count generalizing byteIndex with
  | zero =>
    rw [List.range'_zero, scanBytes, eq_comm, firstIn_eq_none]
    intro i hi1 hi2
    omega
  | succ count ih =>
    rw [List.range'_succ, scanBytes_cons h1 (by omega) h, ih (by omega) (by omega),
      firstIn_append (show max startLcn (8 * byteIndex) ≤ min endLcn (8 * byteIndex + 8) by omega)
        (show min endLcn (8 * byteIndex + 8) ≤ min endLcn (8 * (byteIndex + (count + 1))) by omega)]
    congr 1
    rw [show byteIndex + 1 + count = byteIndex + (count + 1) by omega,
      show max startLcn (8 * (byteIndex + 1)) = 8 * byteIndex + 8 by omega]
    by_cases hend : 8 * byteIndex + 8 ≤ endLcn
    · rw [Nat.min_eq_right hend]
    · have hnone : ∀ lo, endLcn ≤ lo → firstIn (fun i => bitAt bytes i == state.bit) lo
          (min endLcn (8 * (byteIndex + (count + 1)))) = none := fun lo hlo =>
        firstIn_eq_none.2 fun i hi1 hi2 => by omega
      rw [hnone _ (by omega), hnone _ (by omega)]

/-- **The byte-wise scan** finds the first cluster of the range in the state. -/
theorem firstClusterWithState_eq (bitmap : NtfsBitmap) (startLcn endLcn : ℕ)
    (state : ClusterAllocation) :
    firstClusterWithState bitmap startLcn endLcn state =
      firstIn (fun i => bitAt bitmap.bytes i == state.bit) startLcn endLcn := by
  unfold firstClusterWithState
  split_ifs with h
  · rw [eq_comm, firstIn_eq_none]
    intro i h1 h2
    omega
  · dsimp only
    rw [scanBytes_range' (by omega) (by omega) (by omega)]
    congr 1 <;> omega

/-! ## Reconciliation -/

structure OrderedClaim where
  claimIndex : ℕ
  startLcn : ℕ
  endLcn : ℕ
  deriving DecidableEq

section Reconcile

variable (bitmap : NtfsBitmap)

/-- Checks each claim by itself. -/
def orderClaims : ℕ → List NtfsAllocationClaim → Except NtfsBitmapError (List OrderedClaim)
  | _, [] => pure []
  | claimIndex, claim :: rest => do
    ensure (claim.clusterCount ≠ 0) (.emptyAllocationClaim claimIndex)
    let endLcn ← orErr (checkedAdd claim.startLcn claim.clusterCount)
      (.allocationClaimOverflow claimIndex)
    ensure (endLcn ≤ bitmap.clusterCount) (.allocationClaimOutOfRange claimIndex claim.startLcn
      claim.clusterCount bitmap.clusterCount)
    let ordered ← orderClaims (claimIndex + 1) rest
    pure (⟨claimIndex, claim.startLcn, endLcn⟩ :: ordered)

def orderedSortKey (claim : OrderedClaim) : ℕ ×ₗ ℕ ×ₗ ℕ :=
  toLex (claim.startLcn, toLex (claim.endLcn, claim.claimIndex))

def checkPrior (claim : OrderedClaim) : Option OrderedClaim → Except NtfsBitmapError Unit
  | none => pure ()
  | some prior => ensure (prior.endLcn ≤ claim.startLcn)
      (.overlappingAllocationClaims prior.claimIndex claim.claimIndex claim.startLcn)

def checkAllocated (claim : OrderedClaim) : Except NtfsBitmapError Unit :=
  match firstClusterWithState bitmap claim.startLcn claim.endLcn .free with
  | some lcn => .error (.claimedClusterMarkedFree claim.claimIndex lcn)
  | none => pure ()

/-- The sorted claims one after another; the result is the number of claimed clusters. -/
def checkClaims : Option OrderedClaim → ℕ → List OrderedClaim → Except NtfsBitmapError ℕ
  | _, claimedClusters, [] => pure claimedClusters
  | previous, claimedClusters, claim :: rest => do
    checkPrior claim previous
    checkAllocated bitmap claim
    let claimedClusters ← orErr (checkedAdd claimedClusters (claim.endLcn - claim.startLcn))
      (.lengthCalculationOverflow bitmap.clusterCount)
    checkClaims (some claim) claimedClusters rest

/-- The gaps between the sorted claims one after another. -/
def firstUnclaimedAllocatedCluster : ℕ → List OrderedClaim → Option ℕ
  | cursor, [] => firstClusterWithState bitmap cursor bitmap.clusterCount .allocated
  | cursor, claim :: rest =>
    match firstClusterWithState bitmap cursor claim.startLcn .allocated with
    | some lcn => some lcn
    | none => firstUnclaimedAllocatedCluster claim.endLcn rest

def reconcileAllocationClaims (claims : List NtfsAllocationClaim) (ownershipComplete : Bool)
    (limits : NtfsReconciliationLimits) :
    Except NtfsBitmapError NtfsAllocationReconciliationEvidence := do
  ensure (limits.maxClaims ≠ 0) .zeroReconciliationClaimLimit
  ensure (claims.length ≤ limits.maxClaims)
    (.reconciliationClaimLimitExceeded claims.length limits.maxClaims)
  let unordered ← orderClaims bitmap 0 claims
  let ordered := sortByKey orderedSortKey unordered
  let claimedClusters ← checkClaims bitmap none 0 ordered
  let unexplainedAllocatedClusters := bitmap.allocatedClusters - claimedClusters
  let firstUnexplainedLcn :=
    if unexplainedAllocatedClusters = 0 then none
    else firstUnclaimedAllocatedCluster bitmap 0 ordered
  let report : NtfsAllocationReconciliation :=
    ⟨claims.length, claimedClusters, unexplainedAllocatedClusters, firstUnexplainedLcn⟩
  if ownershipComplete then
    match firstUnexplainedLcn with
    | some lcn => .error (.unexplainedAllocatedCluster lcn unexplainedAllocatedClusters)
    | none => pure (.complete report)
  else pure (.incompleteInventory report)

end Reconcile

end Ntfs

end StarConverter
