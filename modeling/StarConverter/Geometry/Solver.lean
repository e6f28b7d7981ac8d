import StarConverter.Object

/-!
# The layout solver

Source allocations, destination reservations and staging exclusions are validated and sorted; the
conflicting allocations are collected; the complement of everything occupied is the free list; and
relocations and materializations are taken out of the free list first fit.
-/

namespace StarConverter

open Base

namespace Geometry

structure SourceAllocation where
  stream : StreamId
  logicalOffset : ℕ
  range : ByteRange
  movable : Bool
  deriving DecidableEq

inductive ReservationKind
  | bootRegion
  | allocationMetadata
  | namespaceMetadata
  | journal
  | capsule
  | other
  deriving DecidableEq

structure DestinationReservation where
  range : ByteRange
  kind : ReservationKind
  deriving DecidableEq

structure Relocation where
  stream : StreamId
  logicalOffset : ℕ
  source : ByteRange
  destination : ByteRange
  deriving DecidableEq

structure MaterializationRequest where
  stream : StreamId
  destinationLength : ℕ
  deriving DecidableEq

structure Materialization where
  stream : StreamId
  destinations : List ByteRange
  deriving DecidableEq

structure LayoutPlan where
  relocations : List Relocation
  materializations : List Materialization
  freeAfterStaging : List ByteRange
  relocatedBytes : ℕ
  materializedBytes : ℕ
  largestFreeRange : ℕ
  deriving DecidableEq

structure LayoutLimits where
  maxSourceExtents : ℕ
  maxReservations : ℕ
  maxFreeRanges : ℕ
  maxRelocations : ℕ
  deriving DecidableEq

inductive LayoutError
  | invalidLimit (field : String)
  | invalidAlignment (alignment : ℕ)
  | incompatibleAlignments (ioAlignment destinationAlignment : ℕ)
  | sourceLimitExceeded (actual maximum : ℕ)
  | reservationLimitExceeded (actual maximum : ℕ)
  | relocationLimitExceeded (maximum : ℕ)
  | freeRangeLimitExceeded (maximum : ℕ)
  | zeroLengthRange (offset : ℕ)
  | rangeOverflow (offset length : ℕ)
  | rangeOutsideVolume (offset length volumeBytes : ℕ)
  | unalignedRange (offset length alignment : ℕ)
  | destinationLengthUnaligned (stream : StreamId) (logicalOffset length alignment : ℕ)
  | sourceOverlap (firstOffset secondOffset : ℕ)
  | stagingExclusionOverlap (firstOffset secondOffset : ℕ)
  | stagingExclusionOverlapsSource (sourceOffset exclusionOffset : ℕ)
  | reservationOverlap (firstOffset secondOffset : ℕ)
  | immovableConflict (stream : StreamId) (sourceOffset reservationOffset : ℕ)
  | immovableOutsideDestinationDomain (stream : StreamId) (sourceOffset domainOffset domainLength
      alignment : ℕ)
  | insufficientStagingSpace (required largestFreeRange totalFree : ℕ)
  | duplicateMaterialization (stream : StreamId)
  | materializationConflictsWithLiveSource (stream : StreamId)
  | accountingOverflow
  /-- The `expect` on a range measured from the same free list. -/
  | measuredRangeLost
  deriving DecidableEq

abbrev Solved (α : Type) := Except LayoutError α

/-! ## Ranges and alignment -/

/-- `end()`: the checked end of a range. -/
def rangeEnd (r : ByteRange) : Solved ℕ :=
  orErr (checkedAdd r.offset r.length) (.rangeOverflow r.offset r.length)

def overlaps (left right : ByteRange) : Solved Bool := do
  let rightEnd ← rangeEnd right
  if left.offset < rightEnd then do
    let leftEnd ← rangeEnd left
    pure (decide (right.offset < leftEnd))
  else pure false

/-- `is_power_of_two`. -/
def isPowerOfTwo (a : ℕ) : Prop := a ≠ 0 ∧ 2 ^ a.log2 = a

instance (a : ℕ) : Decidable (isPowerOfTwo a) := inferInstanceAs (Decidable (_ ∧ _))

/-- `value & !(alignment - 1)` on words. -/
def clearLow (value alignment : ℕ) : ℕ := value &&& (wordBound - 1 - (alignment - 1))

/-- `(value + (alignment - 1)) & !(alignment - 1)`, the addition checked. -/
def alignedStart (value alignment : ℕ) : Solved ℕ := do
  let raised ← orErr (checkedAdd value (alignment - 1)) .accountingOverflow
  pure (clearLow raised alignment)

def alignUp (value alignment : ℕ) : Option ℕ :=
  if value = 0 then some 0
  else (checkedAdd value (alignment - 1)).map fun raised => clearLow raised alignment

/-! ## Validation -/

def validateLimits (limits : LayoutLimits) : Solved Unit :=
  checkAll (fun field => ensure (field.2 ≠ 0) (.invalidLimit field.1))
    [("max_source_extents", limits.maxSourceExtents), ("max_reservations", limits.maxReservations),
      ("max_free_ranges", limits.maxFreeRanges), ("max_relocations", limits.maxRelocations)]

def validateAlignments (alignments : List ℕ) : Solved Unit :=
  checkAll (fun alignment => ensure (isPowerOfTwo alignment) (.invalidAlignment alignment)) alignments

def validateDestinationLengths (source : List SourceAllocation) (alignment : ℕ) : Solved Unit :=
  checkAll (fun allocation => ensure (allocation.range.length % alignment = 0)
    (.destinationLengthUnaligned allocation.stream allocation.logicalOffset
      allocation.range.length alignment)) source

def validateMaterializationRequests (source : List SourceAllocation)
    (requests : List MaterializationRequest) (alignment maximum : ℕ) : Solved Unit := do
  ensure (requests.length ≤ maximum) (.relocationLimitExceeded maximum)
  checkPairs (fun first second => ensure (first ≠ second) (.duplicateMaterialization first))
    (sortByKey id (requests.map MaterializationRequest.stream))
  checkAll (fun request => do
    ensure (request.destinationLength ≠ 0 ∧ request.destinationLength % alignment = 0)
      (.destinationLengthUnaligned request.stream 0 request.destinationLength alignment)
    ensure (∀ allocation ∈ source, allocation.stream ≠ request.stream)
      (.materializationConflictsWithLiveSource request.stream)) requests

def validateRange (volumeBytes alignment : ℕ) (range : ByteRange) : Solved Unit := do
  ensure (range.length ≠ 0) (.zeroLengthRange range.offset)
  let stop ← rangeEnd range
  ensure (stop ≤ volumeBytes) (.rangeOutsideVolume range.offset range.length volumeBytes)
  ensure (range.offset % alignment = 0 ∧ range.length % alignment = 0)
    (.unalignedRange range.offset range.length alignment)

def validateRanges (volumeBytes sourceAlignment reservationAlignment : ℕ)
    (source : List SourceAllocation) (reservations : List DestinationReservation) :
    Solved Unit := do
  checkAll (fun value => validateRange volumeBytes sourceAlignment value.range) source
  checkAll (fun value => validateRange volumeBytes reservationAlignment value.range) reservations

/-- Adjacent ranges of a sorted list do not overlap. -/
def validateNonoverlap (overlap : ℕ → ℕ → LayoutError) (ranges : List ByteRange) : Solved Unit :=
  checkPairs (fun first second => do
    let stop ← rangeEnd first
    ensure (stop ≤ second.offset) (overlap first.offset second.offset)) ranges

def validateNonoverlapSource (source : List SourceAllocation) : Solved Unit :=
  validateNonoverlap .sourceOverlap (source.map SourceAllocation.range)

def validateNonoverlapReservations (reservations : List DestinationReservation) : Solved Unit :=
  validateNonoverlap .reservationOverlap (reservations.map DestinationReservation.range)

/-- Skips the ranges that end at or before `offset`. -/
def skipEnded (offset : ℕ) : List ByteRange → Solved (List ByteRange)
  | [] => pure []
  | range :: rest => do
    let stop ← rangeEnd range
    if stop ≤ offset then skipEnded offset rest else pure (range :: rest)

/-- Each exclusion against the first source range that does not end before it. -/
def walkExclusions : List ByteRange → List ByteRange → Solved Unit
  | _, [] => pure ()
  | source, exclusion :: rest => do
    let source ← skipEnded exclusion.offset source
    match source with
    | [] => walkExclusions source rest
    | first :: _ => do
      let hit ← overlaps first exclusion
      ensure (hit = false) (.stagingExclusionOverlapsSource first.offset exclusion.offset)
      walkExclusions source rest

def validateStagingExclusions (source : List SourceAllocation) (exclusions : List ByteRange) :
    Solved Unit := do
  validateNonoverlap .stagingExclusionOverlap exclusions
  walkExclusions (source.map SourceAllocation.range) exclusions

/-! ## Conflicts -/

/-- The reservations that start before the allocation ends: whether any overlaps it. -/
def scanReservations (allocation : SourceAllocation) (sourceEnd : ℕ) :
    Bool → List ByteRange → Solved Bool
  | found, [] => pure found
  | found, reservation :: rest =>
    if reservation.offset < sourceEnd then do
      let hit ← overlaps allocation.range reservation
      if hit = true then do
        ensure (allocation.movable = true) (.immovableConflict allocation.stream
          allocation.range.offset reservation.offset)
        scanReservations allocation sourceEnd true rest
      else scanReservations allocation sourceEnd found rest
    else pure found

/-- An allocation cannot stay where it is because of the domain or its alignment. -/
def Misplaced (domain : ByteRange) (alignment : ℕ) (range : ByteRange) : Prop :=
  range.offset < domain.offset ∨ domain.stop < range.stop ∨ range.offset % alignment ≠ 0

instance (domain : ByteRange) (alignment : ℕ) (range : ByteRange) :
    Decidable (Misplaced domain alignment range) := inferInstanceAs (Decidable (_ ∨ _ ∨ _))

/-- The conflicting allocations, in order; `count` are already collected. -/
def collectConflicts (domain : ByteRange) (alignment maximum : ℕ) :
    ℕ → List ByteRange → List SourceAllocation → Solved (List SourceAllocation)
  | _, _, [] => pure []
  | count, reservations, allocation :: rest => do
    let reservations ← skipEnded allocation.range.offset reservations
    let sourceEnd ← rangeEnd allocation.range
    let _ ← rangeEnd domain
    ensure (¬ (Misplaced domain alignment allocation.range ∧ allocation.movable = false))
      (.immovableOutsideDestinationDomain allocation.stream allocation.range.offset domain.offset
        domain.length alignment)
    let found ← scanReservations allocation sourceEnd
      (decide (Misplaced domain alignment allocation.range)) reservations
    if found = true then do
      ensure (count < maximum) (.relocationLimitExceeded maximum)
      let more ← collectConflicts domain alignment maximum (count + 1) reservations rest
      pure (allocation :: more)
    else collectConflicts domain alignment maximum count reservations rest

/-! ## The free list -/

/-- Merges sorted ranges; the newest merged range comes first. -/
def mergeRanges (maximum : ℕ) : List ByteRange → List ByteRange → Solved (List ByteRange)
  | merged, [] => pure merged.reverse
  | [], range :: rest => do
    ensure (0 < maximum) (.freeRangeLimitExceeded maximum)
    mergeRanges maximum [range] rest
  | last :: done, range :: rest => do
    let lastEnd ← rangeEnd last
    if range.offset ≤ lastEnd then do
      let stop ← rangeEnd range
      mergeRanges maximum (⟨last.offset, max stop lastEnd - last.offset⟩ :: done) rest
    else do
      ensure (done.length + 1 < maximum) (.freeRangeLimitExceeded maximum)
      mergeRanges maximum (range :: last :: done) rest

def unionOccupied (source : List SourceAllocation) (reservations : List DestinationReservation)
    (stagingExclusions : List ByteRange) (maximum : ℕ) : Solved (List ByteRange) :=
  mergeRanges maximum [] (sortByKey (fun range : ByteRange => range.offset)
    (source.map SourceAllocation.range ++ reservations.map DestinationReservation.range ++
      stagingExclusions))

/-- The gaps between occupied ranges, from `cursor` to the end of the volume. -/
def complement (volumeBytes maximum : ℕ) : ℕ → ℕ → List ByteRange → Solved (List ByteRange)
  | count, cursor, [] =>
    if cursor < volumeBytes then do
      ensure (count < maximum) (.freeRangeLimitExceeded maximum)
      pure [⟨cursor, volumeBytes - cursor⟩]
    else pure []
  | count, cursor, range :: rest =>
    if cursor < range.offset then do
      ensure (count < maximum) (.freeRangeLimitExceeded maximum)
      let stop ← rangeEnd range
      let more ← complement volumeBytes maximum (count + 1) stop rest
      pure (⟨cursor, range.offset - cursor⟩ :: more)
    else do
      let stop ← rangeEnd range
      complement volumeBytes maximum count stop rest

/-- What is left of a range and its successors when `aligned .. destinationEnd` is taken out of it. -/
def splitRange (maximum total : ℕ) (range : ByteRange) (stop aligned destinationEnd : ℕ)
    (rest : List ByteRange) : Solved (List ByteRange) :=
  match aligned - range.offset, stop - destinationEnd with
  | 0, 0 => pure rest
  | 0, suffix => pure (⟨destinationEnd, suffix⟩ :: rest)
  | before, 0 => pure (⟨range.offset, before⟩ :: rest)
  | before, suffix => do
    ensure (total < maximum) (.freeRangeLimitExceeded maximum)
    pure (⟨range.offset, before⟩ :: ⟨destinationEnd, suffix⟩ :: rest)

/-- First fit over the free ranges from one position on; `total` is the length of the whole list.
Returns the allocated range and what is left. -/
def firstFitFrom (length alignment : ℕ) (domain : ByteRange) (domainEnd maximum total : ℕ) :
    List ByteRange → Solved (Option (ByteRange × List ByteRange))
  | [] => pure none
  | range :: rest => do
    let stop ← rangeEnd range
    let next := do
      let found ← firstFitFrom length alignment domain domainEnd maximum total rest
      pure (found.map fun r => (r.1, range :: r.2))
    if min stop domainEnd ≤ max range.offset domain.offset then next
    else do
      let aligned ← alignedStart (max range.offset domain.offset) alignment
      let destinationEnd ← orErr (checkedAdd aligned length) .accountingOverflow
      if min stop domainEnd < destinationEnd then next
      else do
        let left ← splitRange maximum total range stop aligned destinationEnd rest
        pure (some (⟨aligned, length⟩, left))

def allocateFirstFitAlignedWithin (free : List ByteRange) (length alignment : ℕ)
    (domain : ByteRange) (maximumRanges : ℕ) : Solved (Option (ByteRange × List ByteRange)) := do
  let domainEnd ← rangeEnd domain
  firstFitFrom length alignment domain domainEnd maximumRanges free.length free

/-- The usable length of the first free range with room for one aligned unit. -/
def measureNext (alignment : ℕ) (domain : ByteRange) (domainEnd : ℕ) :
    List ByteRange → Solved (Option ℕ)
  | [] => pure none
  | range :: rest => do
    let stop ← rangeEnd range
    if min stop domainEnd ≤ max range.offset domain.offset then
      measureNext alignment domain domainEnd rest
    else do
      let aligned ← alignedStart (max range.offset domain.offset) alignment
      if min stop domainEnd ≤ aligned then measureNext alignment domain domainEnd rest
      else
        let usable := clearLow (min stop domainEnd - aligned) alignment
        if usable ≠ 0 then pure (some usable) else measureNext alignment domain domainEnd rest

/-- The loop of the fragmented allocation; `room` more ranges may be taken. -/
def fragmentedLoop (alignment : ℕ) (domain : ByteRange) (domainEnd maximumRanges
    maximumFreeRanges : ℕ) :
    ℕ → List ByteRange → ℕ → Solved (Option (List ByteRange × List ByteRange))
  | room, working, remaining =>
    if remaining = 0 then pure (some ([], working))
    else do
      let measured ← measureNext alignment domain domainEnd working
      match measured with
      | none => pure none
      | some usable =>
        match room with
        | 0 => .error (.relocationLimitExceeded maximumRanges)
        | room + 1 => do
          let nextLength := min usable remaining
          let found ← allocateFirstFitAlignedWithin working nextLength alignment domain
            maximumFreeRanges
          let (range, working) ← orErr found .measuredRangeLost
          let more ← fragmentedLoop alignment domain domainEnd maximumRanges maximumFreeRanges room
            working (remaining - nextLength)
          pure (more.map fun r => (range :: r.1, r.2))

def allocateFirstFitFragmentedAlignedWithin (free : List ByteRange) (length alignment : ℕ)
    (domain : ByteRange) (maximumRanges maximumFreeRanges : ℕ) :
    Solved (Option (List ByteRange × List ByteRange)) := do
  ensure (isPowerOfTwo alignment) (.invalidAlignment alignment)
  ensure (length ≠ 0 ∧ length % alignment = 0) (.unalignedRange 0 length alignment)
  ensure (domain.length ≠ 0) (.zeroLengthRange domain.offset)
  let _ ← rangeEnd domain
  ensure (domain.offset % alignment = 0 ∧ domain.length % alignment = 0)
    (.unalignedRange domain.offset domain.length alignment)
  ensure (maximumRanges ≠ 0) (.relocationLimitExceeded maximumRanges)
  ensure (maximumFreeRanges ≠ 0) (.invalidLimit "max_free_ranges")
  let domainEnd ← rangeEnd domain
  fragmentedLoop alignment domain domainEnd maximumRanges maximumFreeRanges maximumRanges free length

/-- Largest and total free capacity inside the domain. -/
def freeCapacityWithin (domain : ByteRange) (alignment domainEnd : ℕ) :
    ℕ × ℕ → List ByteRange → Solved (ℕ × ℕ)
  | totals, [] => pure totals
  | (largest, total), range :: rest => do
    let start ← alignedStart (max range.offset domain.offset) alignment
    let stop ← rangeEnd range
    if min stop domainEnd ≤ start then
      freeCapacityWithin domain alignment domainEnd (largest, total) rest
    else do
      let length := min stop domainEnd - start
      let total ← orErr (checkedAdd total length) .accountingOverflow
      freeCapacityWithin domain alignment domainEnd (max largest length, total) rest

def insufficientSpace (free : List ByteRange) (required : ℕ) (domain : ByteRange)
    (alignment : ℕ) : LayoutError :=
  match (do
    let domainEnd ← rangeEnd domain
    freeCapacityWithin domain alignment domainEnd (0, 0) free : Solved (ℕ × ℕ)) with
  | .ok (largest, total) => .insufficientStagingSpace required largest total
  | .error _ => .insufficientStagingSpace required 0 0

/-! ## Allocation -/

def ensureWorkRangeCap (materializationRanges relocationRanges maximum : ℕ) : Solved Unit := do
  let total ← orErr (checkedAdd materializationRanges relocationRanges) .accountingOverflow
  ensure (total ≤ maximum) (.relocationLimitExceeded maximum)

def materializationsFitContiguously (alignment : ℕ) (domain : ByteRange) (maximumFreeRanges : ℕ) :
    List ByteRange → List MaterializationRequest → Solved Bool
  | _, [] => pure true
  | trial, request :: rest => do
    let found ← allocateFirstFitAlignedWithin trial request.destinationLength alignment domain
      maximumFreeRanges
    match found with
    | none => pure false
    | some (_, trial) =>
      materializationsFitContiguously alignment domain maximumFreeRanges trial rest

/-- The spans of one materialization request. -/
def allocateSpans (free : List ByteRange) (length alignment : ℕ) (domain : ByteRange)
    (capacity maximumFreeRanges : ℕ) (allowFragmented : Bool) :
    Solved (Option (List ByteRange × List ByteRange)) :=
  if allowFragmented = true then
    allocateFirstFitFragmentedAlignedWithin free length alignment domain capacity maximumFreeRanges
  else do
    let found ← allocateFirstFitAlignedWithin free length alignment domain maximumFreeRanges
    pure (found.map fun r => ([r.1], r.2))

/-- What a run over the requests produced: materializations, bytes, number of ranges, and the free
list left. -/
structure MaterializationRun where
  materializations : List Materialization
  bytes : ℕ
  ranges : ℕ
  free : List ByteRange

def allocateMaterializationRequests (alignment : ℕ) (domain : ByteRange) (limits : LayoutLimits)
    (allowFragmented : Bool) :
    MaterializationRun → List MaterializationRequest → Solved MaterializationRun
  | run, [] => pure run
  | run, request :: rest => do
    let capacity ← orErr (checkedSub limits.maxRelocations run.ranges)
      (.relocationLimitExceeded limits.maxRelocations)
    let found ← allocateSpans run.free request.destinationLength alignment domain capacity
      limits.maxFreeRanges allowFragmented
    let (destinations, free) ← orErr found
      (insufficientSpace run.free request.destinationLength domain alignment)
    let ranges ← orErr (checkedAdd run.ranges destinations.length) .accountingOverflow
    let bytes ← orErr (checkedAdd run.bytes request.destinationLength) .accountingOverflow
    allocateMaterializationRequests alignment domain limits allowFragmented
      { materializations := run.materializations ++ [⟨request.stream, destinations⟩]
        bytes := bytes
        ranges := ranges
        free := free } rest

/-- What a run over the conflicts produced. -/
structure RelocationRun where
  relocations : List Relocation
  bytes : ℕ
  free : List ByteRange

def allocateRelocationConflicts (alignment : ℕ) (domain : ByteRange) (maximumFreeRanges : ℕ) :
    RelocationRun → List SourceAllocation → Solved RelocationRun
  | run, [] => pure run
  | run, allocation :: rest => do
    let found ← allocateFirstFitAlignedWithin run.free allocation.range.length alignment domain
      maximumFreeRanges
    let (destination, free) ← orErr found
      (insufficientSpace run.free allocation.range.length domain alignment)
    let bytes ← orErr (checkedAdd run.bytes allocation.range.length) .accountingOverflow
    allocateRelocationConflicts alignment domain maximumFreeRanges
      { relocations := run.relocations ++
          [⟨allocation.stream, allocation.logicalOffset, allocation.range, destination⟩]
        bytes := bytes
        free := free } rest

/-- Relocations, materializations, their byte counts, and the free list left. -/
abbrev Allocation := RelocationRun × MaterializationRun

def allocateRelocationsThenFragmentedMaterializations (free : List ByteRange)
    (conflicts : List SourceAllocation) (requests : List MaterializationRequest) (alignment : ℕ)
    (domain : ByteRange) (limits : LayoutLimits) : Solved Allocation := do
  let relocated ← allocateRelocationConflicts alignment domain limits.maxFreeRanges ⟨[], 0, free⟩
    conflicts
  let remaining ← orErr (checkedSub limits.maxRelocations relocated.relocations.length)
    (.relocationLimitExceeded limits.maxRelocations)
  let materialized ← allocateMaterializationRequests alignment domain
    { limits with maxRelocations := remaining } true ⟨[], 0, 0, relocated.free⟩ requests
  pure (relocated, materialized)

/-- Materializations in one piece each, then relocations. -/
def contiguousAttempt (free : List ByteRange) (conflicts : List SourceAllocation)
    (requests : List MaterializationRequest) (alignment : ℕ) (domain : ByteRange)
    (limits : LayoutLimits) : Solved Allocation := do
  let materialized ← allocateMaterializationRequests alignment domain limits false
    ⟨[], 0, 0, free⟩ requests
  ensureWorkRangeCap materialized.ranges conflicts.length limits.maxRelocations
  let relocated ← allocateRelocationConflicts alignment domain limits.maxFreeRanges
    ⟨[], 0, materialized.free⟩ conflicts
  pure (relocated, materialized)

/-- The allocation and the free list it leaves: one piece each if possible, else relocations first
and fragmented materializations, from the untouched free list. -/
def allocateAll (free : List ByteRange) (conflicts : List SourceAllocation)
    (requests : List MaterializationRequest) (alignment : ℕ) (domain : ByteRange)
    (limits : LayoutLimits) (contiguous : Bool) : Solved (Allocation × List ByteRange) :=
  let fragmented : Solved (Allocation × List ByteRange) := do
    let result ← allocateRelocationsThenFragmentedMaterializations free conflicts requests alignment
      domain limits
    pure (result, result.2.free)
  if contiguous = true then
    match contiguousAttempt free conflicts requests alignment domain limits with
    | .ok result => pure (result, result.1.free)
    | .error (.insufficientStagingSpace _ _ _) => fragmented
    | .error e => .error e
  else fragmented

/-- The arguments of the solver. -/
structure LayoutInput where
  volumeBytes : ℕ
  sourceAlignment : ℕ
  destinationAlignment : ℕ
  ioAlignment : ℕ
  destinationDomain : ByteRange
  requireAlignedDomain : Bool
  source : List SourceAllocation
  reservations : List DestinationReservation
  stagingExclusions : List ByteRange
  materializationRequests : List MaterializationRequest
  limits : LayoutLimits

def validateDomain (i : LayoutInput) : Solved Unit :=
  if i.requireAlignedDomain = true then
    validateRange i.volumeBytes i.destinationAlignment i.destinationDomain
  else validateRange i.volumeBytes i.ioAlignment i.destinationDomain

/-- The checks on unsorted input. -/
def validateInput (i : LayoutInput) : Solved Unit := do
  validateLimits i.limits
  validateAlignments [i.sourceAlignment, i.destinationAlignment, i.ioAlignment]
  let protectedCount ← orErr (checkedAdd i.source.length i.stagingExclusions.length)
    .accountingOverflow
  ensure (protectedCount ≤ i.limits.maxSourceExtents)
    (.sourceLimitExceeded protectedCount i.limits.maxSourceExtents)
  ensure (i.reservations.length ≤ i.limits.maxReservations)
    (.reservationLimitExceeded i.reservations.length i.limits.maxReservations)
  validateRanges i.volumeBytes i.sourceAlignment i.ioAlignment i.source i.reservations
  validateDomain i
  validateDestinationLengths i.source i.destinationAlignment
  validateMaterializationRequests i.source i.materializationRequests i.destinationAlignment
    i.limits.maxRelocations
  checkAll (fun range => validateRange i.volumeBytes i.ioAlignment range) i.stagingExclusions

def sortedSource (i : LayoutInput) : List SourceAllocation :=
  sortByKey (fun value : SourceAllocation => value.range.offset) i.source

def sortedReservations (i : LayoutInput) : List DestinationReservation :=
  sortByKey (fun value : DestinationReservation => value.range.offset) i.reservations

def sortedExclusions (i : LayoutInput) : List ByteRange :=
  sortByKey (fun range : ByteRange => range.offset) i.stagingExclusions

def largestFree (free : List ByteRange) : ℕ := (free.map fun range => range.length).foldl max 0

def solveLayoutWithDomainAndAlignmentsInner (i : LayoutInput) : Solved LayoutPlan := do
  validateInput i
  let source := sortedSource i
  let reservations := sortedReservations i
  let stagingExclusions := sortedExclusions i
  validateNonoverlapSource source
  validateNonoverlapReservations reservations
  validateStagingExclusions source stagingExclusions
  let conflicts ← collectConflicts i.destinationDomain i.destinationAlignment
    i.limits.maxRelocations 0 (reservations.map DestinationReservation.range) source
  let occupied ← unionOccupied source reservations stagingExclusions i.limits.maxFreeRanges
  let free ← complement i.volumeBytes i.limits.maxFreeRanges 0 0 occupied
  let contiguous ← materializationsFitContiguously i.destinationAlignment i.destinationDomain
    i.limits.maxFreeRanges free i.materializationRequests
  let ((relocated, materialized), free) ← allocateAll free conflicts i.materializationRequests
    i.destinationAlignment i.destinationDomain i.limits contiguous
  pure
    { relocations := relocated.relocations
      materializations := materialized.materializations
      freeAfterStaging := free
      relocatedBytes := relocated.bytes
      materializedBytes := materialized.bytes
      largestFreeRange := largestFree free }

/-- The checks both domain entry points make before they call the solver. -/
def validateDomainAlignments (i : LayoutInput) : Solved Unit := do
  validateAlignments [i.sourceAlignment, i.destinationAlignment, i.ioAlignment]
  ensure (i.destinationAlignment % i.ioAlignment = 0)
    (.incompatibleAlignments i.ioAlignment i.destinationAlignment)

def solveLayoutWithDestinationDomainAlignmentsAndMaterializations (i : LayoutInput) :
    Solved LayoutPlan := do
  validateDomainAlignments i
  solveLayoutWithDomainAndAlignmentsInner { i with requireAlignedDomain := true }

/-- One alignment for payload and placement, the whole volume as domain, and no
materializations. -/
def solveLayoutWithStagingExclusionsAndIoAlignment (volumeBytes relocationAlignment
    ioAlignment : ℕ) (source : List SourceAllocation) (reservations : List DestinationReservation)
    (stagingExclusions : List ByteRange) (limits : LayoutLimits) : Solved LayoutPlan :=
  solveLayoutWithDomainAndAlignmentsInner
    { volumeBytes := volumeBytes
      sourceAlignment := relocationAlignment
      destinationAlignment := relocationAlignment
      ioAlignment := ioAlignment
      destinationDomain := ⟨0, volumeBytes⟩
      requireAlignedDomain := false
      source := source
      reservations := reservations
      stagingExclusions := stagingExclusions
      materializationRequests := []
      limits := limits }

end Geometry

end StarConverter
