import StarConverter.Base.Coalesce
import StarConverter.Base.Codec
import StarConverter.Ntfs.Runs

/-!
# Reading mapping pairs

The parser follows the pairs up to the terminator and merges neighbouring extents as it goes. What
one run does to the state is `parseRun`; `parseLoop_ok` carries the invariant `Decoded` through the
loop, so the extents of an accepted byte string tile its VCN range, lie inside the volume and have no
two neighbours that could be merged. `parseLoop_encodeRuns` reads an encoded run list back.
-/

namespace StarConverter

open Base

namespace Ntfs

/-- Geometry and resource limits for parsing mapping pairs. -/
structure MappingPairsLimits where
  startingVcn : ℕ
  expectedNextVcn : Option ℕ
  volumeClusterCount : ℕ
  maxRuns : ℕ
  maxDecodedClusters : ℕ
  deriving DecidableEq

inductive ExtentLocation
  | sparse
  | physical (lcn : ℕ)
  deriving DecidableEq

/-- A contiguous range of virtual clusters. -/
structure NtfsExtent where
  vcn : ℕ
  length : ℕ
  location : ExtentLocation
  deriving DecidableEq

structure NtfsRunlist where
  extents : List NtfsExtent
  nextVcn : ℕ
  encodedRuns : ℕ
  bytesConsumed : ℕ
  decodedClusters : ℕ
  physicalClusters : ℕ
  sparseClusters : ℕ
  deriving DecidableEq

inductive MappingPairField
  | runLength
  | lcnDelta
  deriving DecidableEq

inductive MappingPairsError
  | missingTerminator
  | missingRunLength (offset : ℕ)
  | fieldWidthTooLarge (field : MappingPairField) (offset width : ℕ)
  | truncatedRun (offset requiredEnd actual : ℕ)
  | runLimitExceeded (maximum : ℕ)
  | zeroLengthPhysicalRun (runIndex : ℕ)
  | decodedClusterCountOverflow
  | decodedClusterLimitExceeded (decoded maximum : ℕ)
  | vcnOverflow (vcn length : ℕ)
  | lcnOverflow (runIndex : ℕ) (previousLcn delta : ℤ)
  | negativeLcn (runIndex : ℕ) (value : ℤ)
  | physicalRunEndOverflow (runIndex lcn length : ℕ)
  | physicalRunOutOfBounds (runIndex lcn length volumeClusterCount : ℕ)
  | expectedNextVcnMismatch (expected actual : ℕ)
  | trailingNonZeroByte (offset : ℕ) (value : UInt8)
  deriving DecidableEq

/-! ## One run -/

structure DecodedRun where
  length : ℕ
  location : ExtentLocation
  nextLcn : ℤ
  nextOffset : ℕ

def validateWidth (field : MappingPairField) (offset width : ℕ) : Except MappingPairsError Unit :=
  ensure (width ≤ 8) (.fieldWidthTooLarge field offset width)

def decodeUnsigned (bytes : Bytes) : ℕ := fromLe bytes

/-- A two's-complement number of as many bytes, whose sign is the top bit of the last one. -/
def decodeSigned (bytes : Bytes) : ℤ :=
  let unsigned := decodeUnsigned bytes
  if bytes.getLast?.any (0x80 ≤ ·) then (unsigned : ℤ) - 2 ^ (bytes.length * 8) else unsigned

def decodeRun (bytes : Bytes) (offset : ℕ) (header : UInt8) (runIndex : ℕ) (previousLcn : ℤ)
    (volumeClusterCount : ℕ) : Except MappingPairsError DecodedRun := do
  let lengthWidth := header.toNat % 16
  let lcnWidth := header.toNat / 16
  ensure (lengthWidth ≠ 0) (.missingRunLength offset)
  validateWidth .runLength offset lengthWidth
  validateWidth .lcnDelta offset lcnWidth
  let requiredEnd ← orErr (checkedAdd offset (1 + (lengthWidth + lcnWidth)))
    (.truncatedRun offset (wordBound - 1) bytes.length)
  ensure (requiredEnd ≤ bytes.length) (.truncatedRun offset requiredEnd bytes.length)
  let lengthStart := offset + 1
  let lcnStart := lengthStart + lengthWidth
  let length := decodeUnsigned (sliceAt bytes lengthStart lengthWidth)
  if lcnWidth = 0 then pure ⟨length, .sparse, previousLcn, requiredEnd⟩
  else do
    ensure (length ≠ 0) (.zeroLengthPhysicalRun runIndex)
    let delta := decodeSigned (sliceAt bytes lcnStart lcnWidth)
    let nextLcn ← orErr (toI64 (previousLcn + delta)) (.lcnOverflow runIndex previousLcn delta)
    ensure (0 ≤ nextLcn) (.negativeLcn runIndex nextLcn)
    let lcn := nextLcn.toNat
    let runEnd ← orErr (checkedAdd lcn length) (.physicalRunEndOverflow runIndex lcn length)
    ensure (runEnd ≤ volumeClusterCount)
      (.physicalRunOutOfBounds runIndex lcn length volumeClusterCount)
    pure ⟨length, .physical lcn, nextLcn, requiredEnd⟩

/-- Clusters that follow each other on disk, or two holes. -/
def mergeable (previous extent : NtfsExtent) : Bool :=
  match previous.location, extent.location with
  | .sparse, .sparse => true
  | .physical previousLcn, .physical lcn => checkedAdd previousLcn previous.length = some lcn
  | _, _ => false

def appendExtent (extents : List NtfsExtent) (extent : NtfsExtent) :
    Except MappingPairsError (List NtfsExtent) :=
  match extents.getLast? with
  | some previous =>
    if checkedAdd previous.vcn previous.length = some extent.vcn ∧ mergeable previous extent then do
      let length ← orErr (checkedAdd previous.length extent.length) .decodedClusterCountOverflow
      pure (extents.dropLast ++ [{ previous with length }])
    else pure (extents ++ [extent])
  | none => pure (extents ++ [extent])

/-! ## The loop -/

/-- The variables of the parser's loop. -/
structure ParseState where
  extents : List NtfsExtent
  offset : ℕ
  encodedRuns : ℕ
  nextVcn : ℕ
  previousLcn : ℤ
  decodedClusters : ℕ
  physicalClusters : ℕ
  sparseClusters : ℕ

def ParseState.start (limits : MappingPairsLimits) : ParseState where
  extents := []
  offset := 0
  encodedRuns := 0
  nextVcn := limits.startingVcn
  previousLcn := 0
  decodedClusters := 0
  physicalClusters := 0
  sparseClusters := 0

/-- The clusters of a run, counted under its kind. -/
def countClusters (s : ParseState) (run : DecodedRun) : Except MappingPairsError (ℕ × ℕ) :=
  match run.location with
  | .sparse => do
    let sparse ← orErr (checkedAdd s.sparseClusters run.length) .decodedClusterCountOverflow
    pure (s.physicalClusters, sparse)
  | .physical _ => do
    let physical ← orErr (checkedAdd s.physicalClusters run.length) .decodedClusterCountOverflow
    pure (physical, s.sparseClusters)

/-- The extents behind a run; an empty hole leaves no extent. -/
def growExtents (s : ParseState) (run : DecodedRun) : Except MappingPairsError (List NtfsExtent) :=
  if run.length ≠ 0 then appendExtent s.extents ⟨s.nextVcn, run.length, run.location⟩
  else pure s.extents

/-- The loop's body for a header that is not the terminator. -/
def parseRun (bytes : Bytes) (limits : MappingPairsLimits) (header : UInt8) (s : ParseState) :
    Except MappingPairsError ParseState := do
  ensure (s.encodedRuns < limits.maxRuns) (.runLimitExceeded limits.maxRuns)
  let run ← decodeRun bytes s.offset header s.encodedRuns s.previousLcn limits.volumeClusterCount
  let decodedClusters ← orErr (checkedAdd s.decodedClusters run.length) .decodedClusterCountOverflow
  ensure (decodedClusters ≤ limits.maxDecodedClusters)
    (.decodedClusterLimitExceeded decodedClusters limits.maxDecodedClusters)
  let nextVcn ← orErr (checkedAdd s.nextVcn run.length) (.vcnOverflow s.nextVcn run.length)
  let counts ← countClusters s run
  let extents ← growExtents s run
  pure
    { extents
      offset := run.nextOffset
      encodedRuns := s.encodedRuns + 1
      nextVcn
      previousLcn := run.nextLcn
      decodedClusters
      physicalClusters := counts.1
      sparseClusters := counts.2 }

def validateZeroPadding (bytes : Bytes) (start : ℕ) : Except MappingPairsError Unit :=
  match (bytes.drop start).findIdx? (· ≠ 0) with
  | some relative =>
    .error (.trailingNonZeroByte (start + relative) ((bytes.drop start).getD relative 0))
  | none => .ok ()

/-- The final alignment of an attribute may hold what it held before; otherwise padding is zero. -/
def checkPadding (bytes : Bytes) (bytesConsumed : ℕ) (attributeAlignmentPadding : Bool) :
    Except MappingPairsError Unit :=
  if attributeAlignmentPadding ∧ bytes.length % 8 = 0 ∧ bytes.length - bytesConsumed ≤ 7 then .ok ()
  else validateZeroPadding bytes bytesConsumed

def checkNextVcn (expectedNextVcn : Option ℕ) (nextVcn : ℕ) : Except MappingPairsError Unit :=
  match expectedNextVcn with
  | some expected => ensure (nextVcn = expected) (.expectedNextVcnMismatch expected nextVcn)
  | none => .ok ()

/-- The checks at the terminator. -/
def parseEnd (bytes : Bytes) (limits : MappingPairsLimits) (attributeAlignmentPadding : Bool)
    (s : ParseState) : Except MappingPairsError NtfsRunlist := do
  let bytesConsumed := s.offset + 1
  checkPadding bytes bytesConsumed attributeAlignmentPadding
  checkNextVcn limits.expectedNextVcn s.nextVcn
  pure
    { extents := s.extents
      nextVcn := s.nextVcn
      encodedRuns := s.encodedRuns
      bytesConsumed
      decodedClusters := s.decodedClusters
      physicalClusters := s.physicalClusters
      sparseClusters := s.sparseClusters }

/-- The loop. A run moves the offset on, so more fuel than bytes are left is never used up. -/
def parseLoop (bytes : Bytes) (limits : MappingPairsLimits) (attributeAlignmentPadding : Bool) :
    ℕ → ParseState → Except MappingPairsError NtfsRunlist
  | 0, _ => .error .missingTerminator
  | fuel + 1, s =>
    match bytes[s.offset]? with
    | none => .error .missingTerminator
    | some header =>
      if header = 0 then parseEnd bytes limits attributeAlignmentPadding s
      else do
        let s ← parseRun bytes limits header s
        parseLoop bytes limits attributeAlignmentPadding fuel s

def parseMappingPairsWithPadding (bytes : Bytes) (limits : MappingPairsLimits)
    (attributeAlignmentPadding : Bool) : Except MappingPairsError NtfsRunlist :=
  parseLoop bytes limits attributeAlignmentPadding (bytes.length + 1) (.start limits)

def parseMappingPairs (bytes : Bytes) (limits : MappingPairsLimits) :
    Except MappingPairsError NtfsRunlist :=
  parseMappingPairsWithPadding bytes limits false

def parseAttributeMappingPairs (bytes : Bytes) (limits : MappingPairsLimits) :
    Except MappingPairsError NtfsRunlist :=
  parseMappingPairsWithPadding bytes limits true

/-! ## Merged extents -/

/-- The location `clusters` further on. -/
def ExtentLocation.advance : ExtentLocation → ℕ → ExtentLocation
  | .sparse, _ => .sparse
  | .physical lcn, clusters => .physical (lcn + clusters)

theorem ExtentLocation.advance_advance (l : ExtentLocation) (m n : ℕ) :
    (l.advance m).advance n = l.advance (m + n) := by
  cases l <;> simp [advance, Nat.add_assoc]

/-- The extent of two that follow each other both in the stream and on disk. -/
def mergeExtents (a b : NtfsExtent) : Option NtfsExtent :=
  if a.vcn + a.length = b.vcn ∧ a.location.advance a.length = b.location then
    some { a with length := a.length + b.length }
  else none

theorem mergeExtents_eq_some {a b c : NtfsExtent} : mergeExtents a b = some c ↔
    (a.vcn + a.length = b.vcn ∧ a.location.advance a.length = b.location) ∧
      ⟨a.vcn, a.length + b.length, a.location⟩ = c := by
  unfold mergeExtents
  split <;> simp_all

theorem mergeExtents_eq_none {a b : NtfsExtent} : mergeExtents a b = none ↔
    ¬ (a.vcn + a.length = b.vcn ∧ a.location.advance a.length = b.location) := by
  unfold mergeExtents
  split <;> simp_all

theorem lawfulMerge_mergeExtents : LawfulMerge mergeExtents where
  none_left := by
    intro a b c bc hbc hab
    obtain ⟨-, rfl⟩ := mergeExtents_eq_some.1 hbc
    rw [mergeExtents_eq_none] at hab ⊢
    exact hab
  assoc := by
    intro a b c ab bc hbc hab
    obtain ⟨⟨hvbc, hlbc⟩, rfl⟩ := mergeExtents_eq_some.1 hbc
    obtain ⟨⟨hvab, hlab⟩, rfl⟩ := mergeExtents_eq_some.1 hab
    have hloc : a.location.advance (a.length + b.length) = c.location := by
      rw [← ExtentLocation.advance_advance, hlab, hlbc]
    refine ⟨⟨a.vcn, a.length + b.length + c.length, a.location⟩, ?_, ?_⟩
    · exact mergeExtents_eq_some.2 ⟨⟨by dsimp only; omega, hloc⟩, rfl⟩
    · exact mergeExtents_eq_some.2 ⟨⟨hvab, hlab⟩, by rw [Nat.add_assoc]⟩

/-- Where a virtual cluster of the extent lies. -/
def NtfsExtent.locate (extent : NtfsExtent) (vcn : ℕ) : Option ExtentLocation :=
  if extent.vcn ≤ vcn ∧ vcn < extent.vcn + extent.length then
    some (extent.location.advance (vcn - extent.vcn))
  else none

/-- Where a virtual cluster of the stream lies. -/
def locateVcn (extents : List NtfsExtent) (vcn : ℕ) : Option ExtentLocation :=
  extents.findSome? (·.locate vcn)

theorem locate_mergeExtents {a b c : NtfsExtent} (h : mergeExtents a b = some c) (vcn : ℕ) :
    c.locate vcn = (a.locate vcn).or (b.locate vcn) := by
  obtain ⟨⟨hv, hl⟩, rfl⟩ := mergeExtents_eq_some.1 h
  simp only [NtfsExtent.locate]
  by_cases ha : a.vcn ≤ vcn ∧ vcn < a.vcn + a.length
  · rw [if_pos ha, if_pos (by omega), Option.some_or]
  · rw [if_neg ha, Option.none_or]
    by_cases hb : b.vcn ≤ vcn ∧ vcn < b.vcn + b.length
    · rw [if_pos hb, if_pos (by omega), ← hl, ExtentLocation.advance_advance,
        show a.length + (vcn - b.vcn) = vcn - a.vcn by omega]
    · rw [if_neg hb, if_neg (by omega)]

/-- Merging neighbours leaves every virtual cluster where it is. -/
theorem locateVcn_coalesce (extents : List NtfsExtent) (vcn : ℕ) :
    locateVcn (coalesce mergeExtents extents) vcn = locateVcn extents vcn :=
  findSome?_coalesce (fun _ _ _ h => locate_mergeExtents h vcn) extents

theorem mergeable_iff {previous extent : NtfsExtent}
    (h : ∀ lcn, extent.location = .physical lcn → lcn < wordBound) :
    mergeable previous extent = true ↔
      previous.location.advance previous.length = extent.location := by
  unfold mergeable ExtentLocation.advance
  cases previous.location with
  | sparse => cases extent.location <;> simp
  | physical p =>
    cases hlocation : extent.location with
    | sparse => simp
    | physical lcn =>
      have hlcn := h lcn hlocation
      simp only [checkedAdd_eq_some, decide_eq_true_eq, ExtentLocation.physical.injEq]
      exact ⟨And.right, fun heq => ⟨by omega, heq⟩⟩

/-- An extent in range is appended as `pushMerge` does. -/
theorem appendExtent_eq {extents : List NtfsExtent} {extent : NtfsExtent}
    (hvcn : extent.vcn + extent.length < wordBound)
    (hlcn : ∀ lcn, extent.location = .physical lcn → lcn < wordBound) :
    appendExtent extents extent = .ok (pushMerge mergeExtents extents extent) := by
  induction extents using List.reverseRecOn with
  | nil => rfl
  | append_singleton extents previous _ =>
    simp only [appendExtent, List.getLast?_concat, checkedAdd_eq_some, mergeable_iff hlcn,
      List.dropLast_concat]
    by_cases h : previous.vcn + previous.length = extent.vcn ∧
        previous.location.advance previous.length = extent.location
    · rw [if_pos ⟨⟨by omega, h.1⟩, h.2⟩, checkedAdd_of_lt (by omega), orErr_some, ok_bind,
        pure_eq_ok, pushMerge_of_some (mergeExtents_eq_some.2 ⟨h, rfl⟩)]
    · rw [if_neg fun hc => h ⟨hc.1.2, hc.2⟩, pure_eq_ok,
        pushMerge_of_none (mergeExtents_eq_none.2 h)]

/-- The clusters on disk of an extent. -/
def physicalPart : ExtentLocation → ℕ → ℕ
  | .sparse, _ => 0
  | .physical _, length => length

/-- The clusters of an extent that are a hole. -/
def sparsePart : ExtentLocation → ℕ → ℕ
  | .sparse, length => length
  | .physical _, _ => 0

theorem physicalPart_le (l : ExtentLocation) (length : ℕ) : physicalPart l length ≤ length := by
  cases l <;> simp [physicalPart]

theorem sparsePart_le (l : ExtentLocation) (length : ℕ) : sparsePart l length ≤ length := by
  cases l <;> simp [sparsePart]

/-- Both parts of an extent that continues another one add up. -/
theorem parts_advance (l : ExtentLocation) (m n : ℕ) :
    physicalPart l (m + n) = physicalPart l m + physicalPart (l.advance m) n ∧
      sparsePart l (m + n) = sparsePart l m + sparsePart (l.advance m) n := by
  cases l <;> simp [physicalPart, sparsePart, ExtentLocation.advance]

/-! ## What one run does -/

/-- The state behind a run. -/
def ParseState.after (s : ParseState) (run : DecodedRun) : ParseState where
  extents :=
    if run.length ≠ 0 then pushMerge mergeExtents s.extents ⟨s.nextVcn, run.length, run.location⟩
    else s.extents
  offset := run.nextOffset
  encodedRuns := s.encodedRuns + 1
  nextVcn := s.nextVcn + run.length
  previousLcn := run.nextLcn
  decodedClusters := s.decodedClusters + run.length
  physicalClusters := s.physicalClusters + physicalPart run.location run.length
  sparseClusters := s.sparseClusters + sparsePart run.location run.length

/-- The checks on a decoded run. -/
structure RunFits (limits : MappingPairsLimits) (s : ParseState) (run : DecodedRun) : Prop where
  runs : s.encodedRuns < limits.maxRuns
  decoded : s.decodedClusters + run.length < wordBound
  limit : s.decodedClusters + run.length ≤ limits.maxDecodedClusters
  vcn : s.nextVcn + run.length < wordBound
  sparse : run.location = .sparse → s.sparseClusters + run.length < wordBound
  physical : run.location ≠ .sparse → s.physicalClusters + run.length < wordBound

/-- The clusters of a physical run lie inside the volume. -/
def RunInside (volumeClusterCount length : ℕ) (location : ExtentLocation) : Prop :=
  ∀ lcn, location = .physical lcn → lcn + length < wordBound ∧ lcn + length ≤ volumeClusterCount

theorem decodeRun_inside {bytes : Bytes} {offset runIndex volumeClusterCount : ℕ} {header : UInt8}
    {previousLcn : ℤ} {run : DecodedRun}
    (h : decodeRun bytes offset header runIndex previousLcn volumeClusterCount = .ok run) :
    RunInside volumeClusterCount run.length run.location := by
  simp only [decodeRun, validateWidth, bind_ok_iff, exists_const, ensure_ok_iff, orErr_ok_iff] at h
  obtain ⟨-, -, -, requiredEnd, -, -, h⟩ := h
  intro lcn hlcn
  split_ifs at h with hwidth
  · rw [pure_eq_ok, Except.ok.injEq] at h
    rw [← h] at hlcn
    cases hlcn
  · simp only [bind_ok_iff, exists_const, ensure_ok_iff, orErr_ok_iff, checkedAdd_eq_some,
      pure_eq_ok, Except.ok.injEq] at h
    obtain ⟨-, nextLcn, -, -, runEnd, ⟨hword, hend⟩, hle, rfl⟩ := h
    rw [ExtentLocation.physical.injEq] at hlcn
    subst hlcn
    exact ⟨hword, hend.le.trans hle⟩

theorem countClusters_ok_iff {s : ParseState} {run : DecodedRun} {counts : ℕ × ℕ} :
    countClusters s run = .ok counts ↔
      ((run.location = .sparse → s.sparseClusters + run.length < wordBound) ∧
        (run.location ≠ .sparse → s.physicalClusters + run.length < wordBound)) ∧
      counts = ((s.after run).physicalClusters, (s.after run).sparseClusters) := by
  unfold countClusters ParseState.after
  cases run.location with
  | sparse => simp [physicalPart, sparsePart, and_comm, eq_comm (a := counts)]
  | physical lcn => simp [physicalPart, sparsePart, and_comm, eq_comm (a := counts)]

theorem growExtents_eq {s : ParseState} {run : DecodedRun} {volumeClusterCount : ℕ}
    (hvcn : s.nextVcn + run.length < wordBound)
    (hinside : RunInside volumeClusterCount run.length run.location) :
    growExtents s run = .ok (s.after run).extents := by
  unfold growExtents ParseState.after
  by_cases h : run.length ≠ 0
  · rw [if_pos h, appendExtent_eq hvcn]
    · simp only [if_pos h]
    · intro lcn hlcn
      have := (hinside lcn hlcn).1
      omega
  · simp only [if_neg h, pure_eq_ok]

/-- The loop's body succeeds exactly on a run that passes the checks. -/
theorem parseRun_ok_iff {bytes : Bytes} {limits : MappingPairsLimits} {header : UInt8}
    {s s' : ParseState} : parseRun bytes limits header s = .ok s' ↔
      ∃ run, decodeRun bytes s.offset header s.encodedRuns s.previousLcn
        limits.volumeClusterCount = .ok run ∧ RunFits limits s run ∧ s.after run = s' := by
  simp only [parseRun, bind_ok_iff, exists_const, ensure_ok_iff, orErr_ok_iff, checkedAdd_eq_some,
    countClusters_ok_iff, pure_eq_ok, Except.ok.injEq]
  constructor
  · rintro ⟨hruns, run, hrun, decoded, ⟨hdecoded, rfl⟩, hlimit, vcn, ⟨hvcn, rfl⟩, counts,
      ⟨⟨hsparse, hphysical⟩, rfl⟩, extents, hextents, rfl⟩
    rw [growExtents_eq hvcn (decodeRun_inside hrun), Except.ok.injEq] at hextents
    subst hextents
    exact ⟨run, hrun, ⟨hruns, hdecoded, hlimit, hvcn, hsparse, hphysical⟩, rfl⟩
  · rintro ⟨run, hrun, hfits, rfl⟩
    exact ⟨hfits.runs, run, hrun, _, ⟨hfits.decoded, rfl⟩, hfits.limit, _, ⟨hfits.vcn, rfl⟩, _,
      ⟨⟨hfits.sparse, hfits.physical⟩, rfl⟩, _, growExtents_eq hfits.vcn (decodeRun_inside hrun), rfl⟩

/-! ## Accepted byte strings -/

/-- Extents that tile a range of virtual clusters in order. -/
def Contiguous : ℕ → List NtfsExtent → ℕ → Prop
  | vcn, [], stop => vcn = stop
  | vcn, extent :: rest, stop => extent.vcn = vcn ∧ Contiguous (vcn + extent.length) rest stop

theorem contiguous_append {start stop : ℕ} {a b : List NtfsExtent} :
    Contiguous start (a ++ b) stop ↔ ∃ mid, Contiguous start a mid ∧ Contiguous mid b stop := by
  induction a generalizing start with
  | nil => simp [Contiguous]
  | cons extent rest ih => simp [Contiguous, ih, and_assoc]

theorem contiguous_pushMerge {start : ℕ} {extents : List NtfsExtent} {extent : NtfsExtent}
    (h : Contiguous start extents extent.vcn) :
    Contiguous start (pushMerge mergeExtents extents extent) (extent.vcn + extent.length) := by
  induction extents using List.reverseRecOn with
  | nil =>
    rw [Contiguous] at h
    exact ⟨h.symm, by rw [Contiguous, h]⟩
  | append_singleton extents last _ =>
    cases hm : mergeExtents last extent with
    | none =>
      rw [pushMerge_of_none hm]
      exact contiguous_append.2 ⟨extent.vcn, h, rfl, rfl⟩
    | some merged =>
      obtain ⟨⟨hv, -⟩, rfl⟩ := mergeExtents_eq_some.1 hm
      obtain ⟨mid, hextents, hmid, -⟩ := contiguous_append.1 h
      rw [pushMerge_of_some hm]
      refine contiguous_append.2 ⟨mid, hextents, hmid, ?_⟩
      rw [Contiguous]
      dsimp only
      omega

/-- What the extents and counts of a parser state or a runlist say about a volume. -/
structure WellMapped (limits : MappingPairsLimits) (extents : List NtfsExtent)
    (nextVcn decodedClusters physicalClusters sparseClusters : ℕ) : Prop where
  contiguous : Contiguous limits.startingVcn extents nextVcn
  nonempty : ∀ extent ∈ extents, 0 < extent.length
  maximal : extents.IsChain fun a b => mergeExtents a b = none
  inside : ∀ extent ∈ extents, ∀ lcn, extent.location = .physical lcn →
    lcn + extent.length ≤ limits.volumeClusterCount
  decoded : (extents.map (·.length)).sum = decodedClusters
  physical : (extents.map fun e => physicalPart e.location e.length).sum = physicalClusters
  sparse : (extents.map fun e => sparsePart e.location e.length).sum = sparseClusters

def ParseState.Mapped (limits : MappingPairsLimits) (s : ParseState) : Prop :=
  WellMapped limits s.extents s.nextVcn s.decodedClusters s.physicalClusters s.sparseClusters

def NtfsRunlist.Mapped (limits : MappingPairsLimits) (list : NtfsRunlist) : Prop :=
  WellMapped limits list.extents list.nextVcn list.decodedClusters list.physicalClusters
    list.sparseClusters

theorem ParseState.mapped_start (limits : MappingPairsLimits) :
    (ParseState.start limits).Mapped limits where
  contiguous := rfl
  nonempty := by simp [start]
  maximal := List.isChain_nil
  inside := by simp [start]
  decoded := rfl
  physical := rfl
  sparse := rfl

theorem ParseState.Mapped.after {limits : MappingPairsLimits} {s : ParseState} (h : s.Mapped limits)
    {run : DecodedRun} (hinside : RunInside limits.volumeClusterCount run.length run.location) :
    (s.after run).Mapped limits := by
  by_cases hlength : run.length = 0
  · -- An empty hole changes neither the extents nor the counts.
    have hphysical := Nat.le_zero.1 (physicalPart_le run.location 0)
    have hsparse := Nat.le_zero.1 (sparsePart_le run.location 0)
    simpa [Mapped, ParseState.after, hlength, hphysical, hsparse] using h
  · have hextents : (s.after run).extents =
        pushMerge mergeExtents s.extents ⟨s.nextVcn, run.length, run.location⟩ := by
      simp only [ParseState.after, ne_eq, hlength, not_false_eq_true, if_true]
    unfold Mapped
    rw [hextents]
    constructor
    · exact contiguous_pushMerge h.contiguous
    · refine forall_mem_pushMerge ?_ h.nonempty (Nat.pos_of_ne_zero hlength)
      intro a b ab hab ha _
      obtain ⟨-, rfl⟩ := mergeExtents_eq_some.1 hab
      exact Nat.add_pos_left ha _
    · exact lawfulMerge_mergeExtents.isChain_pushMerge h.maximal _
    · refine forall_mem_pushMerge ?_ h.inside fun lcn hlcn => (hinside lcn hlcn).2
      intro a b ab hab _ hb lcn hlcn
      obtain ⟨⟨-, hloc⟩, rfl⟩ := mergeExtents_eq_some.1 hab
      have hb' := hb (lcn + a.length) (by rw [← hloc]; dsimp only at hlcn; rw [hlcn]; rfl)
      dsimp only
      omega
    · rw [sum_map_pushMerge, h.decoded]
      · rfl
      · intro a b ab hab
        obtain ⟨-, rfl⟩ := mergeExtents_eq_some.1 hab
        rfl
    · rw [sum_map_pushMerge, h.physical]
      · rfl
      · intro a b ab hab
        obtain ⟨⟨-, hloc⟩, rfl⟩ := mergeExtents_eq_some.1 hab
        dsimp only
        rw [← hloc, (parts_advance _ _ _).1]
    · rw [sum_map_pushMerge, h.sparse]
      · rfl
      · intro a b ab hab
        obtain ⟨⟨-, hloc⟩, rfl⟩ := mergeExtents_eq_some.1 hab
        dsimp only
        rw [← hloc, (parts_advance _ _ _).2]

theorem parseLoop_ok {bytes : Bytes} {limits : MappingPairsLimits} {padding : Bool} {fuel : ℕ}
    {s : ParseState} {list : NtfsRunlist} (hs : s.Mapped limits)
    (h : parseLoop bytes limits padding fuel s = .ok list) : list.Mapped limits := by
  induction fuel generalizing s with
  | zero => cases h
  | succ fuel ih =>
    rw [parseLoop] at h
    split at h
    · cases h
    · split_ifs at h with hzero
      · simp only [parseEnd, bind_ok_iff, pure_eq_ok, Except.ok.injEq] at h
        obtain ⟨-, -, -, -, rfl⟩ := h
        exact hs
      · obtain ⟨s', hrun, h⟩ := bind_ok_iff.1 h
        obtain ⟨run, hdecode, -, rfl⟩ := parseRun_ok_iff.1 hrun
        exact ih (hs.after (decodeRun_inside hdecode)) h

/-- **Accepted mapping pairs.** The extents of an accepted byte string are nonempty, tile the range
from the starting VCN to `nextVcn`, leave no neighbours to merge, lie inside the volume and add up to
the counted clusters. -/
theorem parseMappingPairs_mapped {bytes : Bytes} {limits : MappingPairsLimits} {list : NtfsRunlist}
    (h : parseMappingPairs bytes limits = .ok list) : list.Mapped limits :=
  parseLoop_ok (ParseState.mapped_start limits) h

/-! ## Reading an encoded run list -/

def runLocation : Option ℕ → ExtentLocation
  | none => .sparse
  | some lcn => .physical lcn

/-- The extents of runs from a virtual cluster on. -/
def runExtents : ℕ → List Run → List NtfsExtent
  | _, [] => []
  | vcn, run :: rest => ⟨vcn, run.2, runLocation run.1⟩ :: runExtents (vcn + run.2) rest

/-- The clusters of runs. -/
def totalClusters (runs : List Run) : ℕ := (runs.map Prod.snd).sum

/-- Runs whose lengths are words and whose clusters lie in a volume of `n` clusters. -/
def RunsInVolume (n : ℕ) (runs : List Run) : Prop :=
  ∀ run ∈ runs, run.2 < wordBound ∧ ∀ lcn, run.1 = some lcn → lcn + run.2 ≤ n

instance (n : ℕ) (runs : List Run) : Decidable (RunsInVolume n runs) :=
  inferInstanceAs (Decidable (∀ run ∈ runs, run.2 < wordBound ∧
    ∀ lcn ∈ run.1, lcn + run.2 ≤ n))

@[simp] theorem totalClusters_nil : totalClusters [] = 0 := rfl

@[simp] theorem totalClusters_cons (run : Run) (runs : List Run) :
    totalClusters (run :: runs) = run.2 + totalClusters runs := by simp [totalClusters]

@[simp] theorem totalClusters_append (a b : List Run) :
    totalClusters (a ++ b) = totalClusters a + totalClusters b := by simp [totalClusters]

theorem runExtents_append (vcn : ℕ) (a b : List Run) :
    runExtents vcn (a ++ b) = runExtents vcn a ++ runExtents (vcn + totalClusters a) b := by
  induction a generalizing vcn with
  | nil => simp [runExtents]
  | cons run rest ih => simp [runExtents, ih, Nat.add_assoc]

theorem decodeSigned_eq {bytes : Bytes} (h : bytes ≠ []) : decodeSigned bytes = signedValue bytes := by
  obtain ⟨init, last, rfl⟩ := List.eq_nil_or_concat' bytes |>.resolve_left h
  have hlast : last.toNat < 256 := last.toNat_lt
  have hinit := fromLe_lt init
  have hvalue : fromLe (init ++ [last]) = fromLe init + 256 ^ init.length * last.toNat := by
    rw [fromLe_append]
    simp [fromLe]
  have hpow : (256 : ℕ) ^ (init ++ [last]).length = 256 ^ init.length * 256 := by
    rw [List.length_append, List.length_singleton, pow_succ]
  have htop : 0x80 ≤ last ↔ ¬ 2 * fromLe (init ++ [last]) < 256 ^ (init ++ [last]).length := by
    rw [UInt8.le_iff_toNat_le, hvalue, hpow]
    have hbyte : (0x80 : UInt8).toNat = 128 := rfl
    rw [hbyte]
    constructor
    · intro hge
      have := Nat.mul_le_mul_left (256 ^ init.length) hge
      omega
    · intro hge
      by_contra hlt
      have := Nat.mul_le_mul_left (256 ^ init.length) (show last.toNat ≤ 127 by omega)
      omega
  have hbits : (2 : ℤ) ^ ((init ++ [last]).length * 8) = 256 ^ (init ++ [last]).length := by
    rw [Nat.mul_comm, pow_mul]
    norm_num
  unfold decodeSigned signedValue decodeUnsigned
  rw [List.getLast?_concat, hbits]
  by_cases hc : 2 * fromLe (init ++ [last]) < 256 ^ (init ++ [last]).length
  · rw [if_pos hc, if_neg (by simpa [htop] using hc)]
  · rw [if_neg hc, if_pos (by simpa [htop] using hc)]

/-- The header of a pair. -/
def pairHeader (fields : Bytes × Bytes) : UInt8 :=
  UInt8.ofNat (fields.2.length * 16 + fields.1.length)

section Pair

variable {previous : ℤ} {run : Run} {bytes rest : Bytes} {offset n : ℕ}
  (hprevious : SmallLcn previous) (hn : n ≤ 2 ^ 63) (hpos : 1 ≤ run.2)
  (hword : run.2 < wordBound) (hin : ∀ lcn, run.1 = some lcn → lcn + run.2 ≤ n)

/-- What the parser makes of the pair of a run. -/
def decodedRun (previous : ℤ) (run : Run) (offset : ℕ) : DecodedRun where
  length := run.2
  location := runLocation run.1
  nextLcn := nextPrevious previous run
  nextOffset := offset + (pairBytes (runFields previous run)).length

include hprevious hn hpos hword hin in
/-- A pair is read back. -/
theorem decodeRun_pair (hlength : bytes.length < wordBound)
    (hbytes : bytes.drop offset = pairBytes (runFields previous run) ++ rest) (runIndex : ℕ) :
    decodeRun bytes offset (pairHeader (runFields previous run)) runIndex previous n =
      .ok (decodedRun previous run offset) := by
  have hwidths := fieldWidths_runFields previous hword
  have hheader := hwidths.header
  obtain ⟨h1, h2, h3⟩ := hwidths
  set fields := runFields previous run with hfields
  have hend : offset + (1 + (fields.1.length + fields.2.length)) ≤ bytes.length := by
    have := congrArg List.length hbytes
    rw [List.length_drop, List.length_append] at this
    simp only [pairBytes, List.length_cons, List.length_append] at this
    omega
  have hfirst : sliceAt bytes (offset + 1) fields.1.length = fields.1 := by
    rw [sliceAt, ← List.drop_drop, hbytes]
    simp [pairBytes]
  have hsecond : sliceAt bytes (offset + 1 + fields.1.length) fields.2.length = fields.2 := by
    rw [sliceAt, ← List.drop_drop, ← List.drop_drop, hbytes]
    simp [pairBytes]
  have hvalue : decodeUnsigned fields.1 = run.2 := by
    rw [hfields]
    obtain ⟨_ | lcn, length⟩ := run <;> exact fromLe_unsignedBytes hword
  have hmod : (pairHeader fields).toNat % 16 = fields.1.length := by
    rw [pairHeader, hheader]
    omega
  have hdiv : (pairHeader fields).toNat / 16 = fields.2.length := by
    rw [pairHeader, hheader]
    omega
  have hoffset : offset + (pairBytes fields).length =
      offset + (1 + (fields.1.length + fields.2.length)) := by
    simp only [pairBytes, List.length_cons, List.length_append]
    omega
  rw [decodeRun, hmod, hdiv, ensure_of (by omega), ok_bind, validateWidth, ensure_of h2, ok_bind,
    validateWidth, ensure_of h3, ok_bind, checkedAdd_of_lt (by omega), orErr_some, ok_bind,
    ensure_of hend, ok_bind]
  dsimp only
  rw [hfirst, hvalue, hsecond, decodedRun, ← hfields, hoffset]
  obtain ⟨lcn, length⟩ := run
  cases lcn with
  | none =>
    rw [if_pos (by rw [hfields]; rfl)]
    rfl
  | some lcn =>
    obtain ⟨h0, h63⟩ := hprevious
    have hle := hin lcn rfl
    dsimp only at hpos hword hle ⊢
    have hlcn : lcn < 2 ^ 63 := by omega
    have hdelta : decodeSigned fields.2 = (lcn : ℤ) - previous := by
      have hne : fields.2 ≠ [] := by
        intro hnil
        have := (length_signedBytes ((lcn : ℤ) - previous)).1
        rw [show signedBytes ((lcn : ℤ) - previous) = fields.2 from rfl, hnil] at this
        simp at this
      rw [decodeSigned_eq hne]
      exact signedValue_signedBytes (by omega) (by omega)
    have hwidth : fields.2.length ≠ 0 := by
      have := (length_signedBytes ((lcn : ℤ) - previous)).1
      exact Nat.one_le_iff_ne_zero.1 this
    have hnext : toI64 (previous + ((lcn : ℤ) - previous)) = some (lcn : ℤ) :=
      toI64_eq_some.2 ⟨⟨by omega, by omega⟩, by omega⟩
    unfold wordBound at hword
    rw [if_neg hwidth, ensure_of (by omega), ok_bind, hdelta, hnext, orErr_some, ok_bind,
      ensure_of (by omega), ok_bind, Int.toNat_natCast,
      checkedAdd_of_lt (by unfold wordBound; omega), orErr_some, ok_bind, ensure_of hle, ok_bind]
    rfl

end Pair

/-- The limits leave room for more runs behind a state. -/
structure Room (limits : MappingPairsLimits) (s : ParseState) (runs : List Run) : Prop where
  encoded : s.encodedRuns + runs.length ≤ limits.maxRuns
  limit : s.decodedClusters + totalClusters runs ≤ limits.maxDecodedClusters
  word : s.decodedClusters + totalClusters runs < wordBound
  vcn : s.nextVcn + totalClusters runs < wordBound
  physical : s.physicalClusters ≤ s.decodedClusters
  sparse : s.sparseClusters ≤ s.decodedClusters
  expected : ∀ expected ∈ limits.expectedNextVcn, s.nextVcn + totalClusters runs = expected

theorem Room.start {limits : MappingPairsLimits} {runs : List Run}
    (hruns : runs.length ≤ limits.maxRuns) (hlimit : totalClusters runs ≤ limits.maxDecodedClusters)
    (hvcn : limits.startingVcn + totalClusters runs < wordBound)
    (hexpected : ∀ expected ∈ limits.expectedNextVcn,
      limits.startingVcn + totalClusters runs = expected) :
    Room limits (.start limits) runs where
  encoded := by simpa [ParseState.start] using hruns
  limit := by simpa [ParseState.start] using hlimit
  word := by simp only [ParseState.start]; omega
  vcn := hvcn
  physical := le_rfl
  sparse := le_rfl
  expected := hexpected

namespace Room

variable {limits : MappingPairsLimits} {s : ParseState} {run : Run} {rest : List Run}

theorem fits (h : Room limits s (run :: rest)) (offset : ℕ) :
    RunFits limits s (decodedRun s.previousLcn run offset) := by
  obtain ⟨hencoded, hlimit, hword, hvcn, hphysical, hsparse, -⟩ := h
  rw [totalClusters_cons] at hlimit hword hvcn
  rw [List.length_cons] at hencoded
  exact ⟨by omega, by dsimp only [decodedRun]; omega, by dsimp only [decodedRun]; omega,
    by dsimp only [decodedRun]; omega, fun _ => by dsimp only [decodedRun]; omega,
    fun _ => by dsimp only [decodedRun]; omega⟩

theorem after (h : Room limits s (run :: rest)) (offset : ℕ) :
    Room limits (s.after (decodedRun s.previousLcn run offset)) rest := by
  obtain ⟨hencoded, hlimit, hword, hvcn, hphysical, hsparse, hexpected⟩ := h
  rw [totalClusters_cons] at hlimit hword hvcn hexpected
  rw [List.length_cons] at hencoded
  constructor <;> simp only [ParseState.after, decodedRun]
  · omega
  · omega
  · omega
  · omega
  · exact Nat.add_le_add hphysical (physicalPart_le _ _)
  · exact Nat.add_le_add hsparse (sparsePart_le _ _)
  · intro expected he
    rw [Nat.add_assoc]
    exact hexpected expected he

end Room

theorem checkPadding_allZero {bytes tail : Bytes} {start : ℕ} (h : bytes.drop start = tail)
    (hzero : AllZero tail) (padding : Bool) : checkPadding bytes start padding = .ok () := by
  unfold checkPadding validateZeroPadding
  split
  · rfl
  · have hnone : (bytes.drop start).findIdx? (· ≠ 0) = none := by
      rw [h, List.findIdx?_eq_none_iff]
      intro b hb
      simp [hzero b hb]
    rw [hnone]

/-- An encoded run list in front of zeros is read back, whatever was read before. -/
theorem parseLoop_encodeRuns {bytes tail : Bytes} {limits : MappingPairsLimits} {padding : Bool}
    (hlength : bytes.length < wordBound) (hn : limits.volumeClusterCount ≤ 2 ^ 63)
    (hzero : AllZero tail) {runs : List Run} {s : ParseState} {encoded : Bytes} {fuel : ℕ}
    (hencode : encodeRunsFrom s.previousLcn runs = some encoded)
    (hbytes : bytes.drop s.offset = encoded ++ tail) (hprevious : SmallLcn s.previousLcn)
    (hruns : RunsInVolume limits.volumeClusterCount runs) (hroom : Room limits s runs)
    (hfuel : bytes.length < s.offset + fuel) :
    ∃ list, parseLoop bytes limits padding fuel s = .ok list ∧
      list.extents = (runExtents s.nextVcn runs).foldl (pushMerge mergeExtents) s.extents ∧
      list.nextVcn = s.nextVcn + totalClusters runs := by
  induction runs generalizing s encoded fuel with
  | nil =>
    have hencoded : encoded = [0] := by
      rw [encodeRunsFrom, Option.some.injEq] at hencode
      exact hencode.symm
    subst hencoded
    have hhead : bytes[s.offset]? = some 0 := by
      rw [← List.head?_drop, hbytes]
      rfl
    have htail : bytes.drop (s.offset + 1) = tail := by
      rw [← List.drop_drop, hbytes]
      rfl
    obtain ⟨fuel, rfl⟩ : ∃ k, fuel = k + 1 := by
      have := (List.getElem?_eq_some_iff.1 hhead).1
      exact ⟨fuel - 1, by omega⟩
    have hnext : checkNextVcn limits.expectedNextVcn s.nextVcn = .ok () := by
      unfold checkNextVcn
      split
      · next expected he => exact ensure_of (hroom.expected expected he)
      · rfl
    refine ⟨⟨s.extents, s.nextVcn, s.encodedRuns, s.offset + 1, s.decodedClusters,
      s.physicalClusters, s.sparseClusters⟩, ?_, rfl, rfl⟩
    rw [parseLoop, hhead]
    dsimp only
    rw [if_pos rfl, parseEnd, checkPadding_allZero htail hzero, ok_bind, hnext, ok_bind, pure_eq_ok]
  | cons run rest ih =>
    obtain ⟨hword, hin⟩ := hruns run List.mem_cons_self
    have hpos : 1 ≤ run.2 := by
      rw [Nat.one_le_iff_ne_zero]
      intro hzero
      obtain ⟨_ | lcn, length⟩ := run <;>
        · dsimp only at hzero
          simp [encodeRunsFrom, encodeRun, hzero] at hencode
    have hlcn : ∀ lcn, run.1 = some lcn → lcn < 2 ^ 63 := by
      intro lcn hsome
      have := hin lcn hsome
      omega
    simp only [encodeRunsFrom, encodeRun_small hprevious hpos hlcn, Option.bind_eq_bind,
      Option.bind_some, Option.bind_eq_some_iff, Option.some.injEq] at hencode
    obtain ⟨more, hmore, rfl⟩ := hencode
    set fields := runFields s.previousLcn run with hfields
    have hwidths := fieldWidths_runFields s.previousLcn hword
    rw [List.append_assoc] at hbytes
    have hhead : bytes[s.offset]? = some (pairHeader fields) := by
      rw [← List.head?_drop, hbytes]
      rfl
    have hne : pairHeader fields ≠ 0 := by
      intro hz
      have hheader := hwidths.header
      have hpos := hwidths.length_pos
      rw [show UInt8.ofNat ((runFields s.previousLcn run).2.length * 16 +
        (runFields s.previousLcn run).1.length) = pairHeader fields from rfl, hz] at hheader
      have h0 : (0 : UInt8).toNat = 0 := rfl
      omega
    have hoffset := (List.getElem?_eq_some_iff.1 hhead).1
    obtain ⟨fuel, rfl⟩ : ∃ k, fuel = k + 1 := ⟨fuel - 1, by omega⟩
    have hdecode := decodeRun_pair hprevious hn hpos hword hin hlength hbytes s.encodedRuns
    have hrun := parseRun_ok_iff.2 ⟨_, hdecode, hroom.fits s.offset, rfl⟩
    have hnext : bytes.drop (s.offset + (pairBytes fields).length) = more ++ tail := by
      rw [← List.drop_drop, hbytes, List.drop_left]
    have hleft : bytes.length < (s.after (decodedRun s.previousLcn run s.offset)).offset + fuel := by
      simp only [ParseState.after, decodedRun, pairBytes, List.cons_append, List.length_cons]
      omega
    obtain ⟨list, hlist, hextents, hvcn⟩ := ih hmore hnext (hprevious.next hlcn)
      (fun r hr => hruns r (List.mem_cons_of_mem _ hr)) (hroom.after s.offset) hleft
    refine ⟨list, ?_, ?_, ?_⟩
    · rw [parseLoop, hhead]
      dsimp only
      rw [if_neg hne, hrun, ok_bind, hlist]
    · rw [hextents, runExtents, List.foldl_cons]
      simp only [ParseState.after, decodedRun, ne_eq, Nat.one_le_iff_ne_zero.1 hpos,
        not_false_eq_true, if_true]
    · rw [hvcn, totalClusters_cons]
      exact Nat.add_assoc _ _ _

/-- **Reading back.** An encoded run list in front of zeros gives the extents of its runs, merged. -/
theorem parseMappingPairsWithPadding_encodeRuns {encoded tail : Bytes} {limits : MappingPairsLimits}
    {runs : List Run} (hencode : encodeRuns runs = some encoded) (hzero : AllZero tail)
    (hlength : (encoded ++ tail).length < wordBound) (hn : limits.volumeClusterCount ≤ 2 ^ 63)
    (hruns : RunsInVolume limits.volumeClusterCount runs) (hroom : Room limits (.start limits) runs)
    (padding : Bool) :
    ∃ list, parseMappingPairsWithPadding (encoded ++ tail) limits padding = .ok list ∧
      list.extents = coalesce mergeExtents (runExtents limits.startingVcn runs) ∧
      list.nextVcn = limits.startingVcn + totalClusters runs :=
  have hprevious : SmallLcn 0 := ⟨le_rfl, by norm_num⟩
  parseLoop_encodeRuns hlength hn hzero hencode rfl hprevious hruns hroom (by simp [ParseState.start])

end Ntfs

end StarConverter
