import StarConverter.Base.Panics
import StarConverter.Capsule.Walk

/-!
# Panics of the capsule scan

The scan again, with every slice, index and plain addition of the source as an operation that can panic
and with a walk that can run out of rounds. On a string that is empty or at least as long as the magic
these ends are not reached, and the scan is the one without them (`scanCapsuleRun_eq`). On one to seven
bytes the first comparison with the magic slices beyond the end (`scanCapsuleRun_short`).
-/

namespace StarConverter

open Base

namespace Capsule

section Run

variable (H : Hashing)

/-- A program of the scan: its errors, or a panic. -/
abbrev ScanRun (α : Type) := Except (Stop CapsuleError) α

def readU16Run (bytes : Bytes) (offset : ℕ) : ScanRun ℕ := do
  let word ← readIndices bytes offset 2
  pure (fromLe word)

def readU32Run (bytes : Bytes) (offset : ℕ) : ScanRun ℕ := do
  let word ← readIndices bytes offset 4
  pure (fromLe word)

def readU64Run (bytes : Bytes) (offset : ℕ) : ScanRun UInt64 := do
  let word ← readIndices bytes offset 8
  pure (UInt64.ofNat (fromLe word))

def headerCrcRun (bytes : Bytes) : ScanRun UInt32 := do
  let front ← sliceIndex bytes 0 crcOffset
  let back ← sliceIndex bytes (crcOffset + 4) headerBytes
  pure (H.crc32 (front ++ [0, 0, 0, 0] ++ back))

/-- The fields behind the framing checks. -/
def decodeFieldsRun (bytes : Bytes) (phase : TransactionPhase) : ScanRun Header := do
  let previous ← readU64Run bytes 40
  let transactionId ← sliceIndex bytes 48 64
  let transactionId ← copyFixed 16 transactionId
  let sourceDigest ← sliceIndex bytes 64 96
  let sourceDigest ← copyFixed 32 sourceDigest
  let payloadDigest ← sliceIndex bytes 96 128
  let payloadDigest ← copyFixed 32 payloadDigest
  let generation ← readU64Run bytes 16
  let payloadLen ← readU64Run bytes 32
  pure
    { generation := generation
      phase := phase
      payloadLen := payloadLen
      previousOffset := if previous = noPrevious then none else some previous
      identity := ⟨transactionId, sourceDigest⟩
      payloadDigest := payloadDigest }

/-- The checks behind the magic. -/
def decodeFramingRun (bytes : Bytes) : ScanRun Header := do
  let version ← readU16Run bytes 8
  ensure (version = capsuleVersion) (.error (.unsupportedVersion version))
  let headerLen ← readU16Run bytes 10
  ensure (headerLen = headerBytes) (.error (.invalidHeaderLength headerLen))
  let reserved ← sliceIndex bytes 12 16
  ensure (∀ b ∈ reserved, b = 0) (.error .nonZeroReserved)
  let reserved ← sliceIndex bytes 25 32
  ensure (∀ b ∈ reserved, b = 0) (.error .nonZeroReserved)
  let reserved ← sliceIndex bytes 132 136
  ensure (∀ b ∈ reserved, b = 0) (.error .nonZeroReserved)
  let stored ← readU32Run bytes crcOffset
  let checksum ← headerCrcRun H bytes
  ensure (stored = checksum.toNat) (.error (.noRecoverableHeader 0))
  let phaseValue ← indexAt bytes 24
  let phase ← orErr (TransactionPhase.fromByte phaseValue) (.error (.invalidPhase phaseValue))
  decodeFieldsRun bytes phase

def decodeHeaderRun (bytes : Bytes) : ScanRun Header :=
  if bytes.length ≠ headerBytes then .error (.error (.noRecoverableHeader 0))
  else do
    let head ← sliceIndex bytes 0 8
    if head ≠ magic then .error (.error (.noRecoverableHeader 0))
    else decodeFramingRun H bytes

/-- `decode_header(bytes).ok()`, through which only a panic passes. -/
def headerRun? (bytes : Bytes) : ScanRun (Option Header) :=
  match decodeHeaderRun H bytes with
  | .ok header => .ok (some header)
  | .error (.error _) => .ok none
  | .error stop => .error stop

def candidateAsPrimaryRun (bytes : Bytes) (start : ℕ) (header : Header) (payloadLen : ℕ) :
    ScanRun (Option Candidate) := do
  let payloadStart ← orErr (checkedAdd start headerBytes) (.error .arithmeticOverflow)
  let trailing ← orErr (checkedAdd payloadStart payloadLen) (.error .arithmeticOverflow)
  match slice? bytes trailing (saturatingAdd trailing headerBytes) with
  | none => pure none
  | some trailingBytes => do
    let trailingHeader ← headerRun? H trailingBytes
    if trailingHeader = none ∨ trailingHeader = some header then
      pure (some ⟨start, header, true, decide (trailingHeader = some header)⟩)
    else pure none

def candidateAsTrailingRun (bytes : Bytes) (trailing : ℕ) (header : Header) (payloadLen : ℕ) :
    ScanRun (Option Candidate) :=
  match checkedSub trailing (saturatingAdd headerBytes payloadLen) with
  | none => pure none
  | some start =>
    match slice? bytes start (saturatingAdd start headerBytes) with
    | none => pure none
    | some primaryBytes => do
      let primaryHeader ← headerRun? H primaryBytes
      if primaryHeader = none ∨ primaryHeader = some header then
        pure (some ⟨start, header, decide (primaryHeader = some header), true⟩)
      else pure none

/-- The candidates a decoded header makes at its position. -/
def candidatesOfRun (bytes : Bytes) (limits : CapsuleLimits) (position : ℕ) :
    Option Header → ScanRun (List Candidate)
  | none => pure []
  | some header =>
    if limits.maxGenerationBytes < header.payloadLen.toNat then pure []
    else do
      let primary ← candidateAsPrimaryRun H bytes position header header.payloadLen.toNat
      let trailing ← candidateAsTrailingRun H bytes position header header.payloadLen.toNat
      pure (primary.toList ++ trailing.toList)

def candidatesAtRun (bytes : Bytes) (limits : CapsuleLimits) (position : ℕ) :
    ScanRun (List Candidate) := do
  let stop ← plainAdd position magic.length
  let head ← sliceIndex bytes position stop
  if head ≠ magic then pure []
  else
    match slice? bytes position (saturatingAdd position headerBytes) with
    | none => pure []
    | some found => do
      let header ← headerRun? H found
      candidatesOfRun H bytes limits position header

def collectCandidatesRun (bytes : Bytes) (limits : CapsuleLimits) :
    List ℕ → ScanRun (List Candidate)
  | [] => pure []
  | position :: rest => do
    let here ← candidatesAtRun H bytes limits position
    let more ← collectCandidatesRun bytes limits rest
    pure (here ++ more)

/-- The vector is reserved for a bounded number of candidates before the positions are visited. -/
def findCandidatesRun (bytes : Bytes) (limits : CapsuleLimits) : ScanRun (List Candidate) := do
  let _ ← plainAdd (bytes.length / 8) 1
  collectCandidatesRun H bytes limits (List.range (bytes.length - magic.length + 1))

def isRecoverableTornTailRun (bytes : Bytes) (offset : ℕ) (generations : List CapsuleGeneration)
    (limits : CapsuleLimits) : ScanRun Bool := do
  let remaining ← orErr (checkedSub bytes.length offset) (.error .arithmeticOverflow)
  if remaining = 0 then pure false
  else if remaining < headerBytes then pure true
  else do
    let stop ← plainAdd offset headerBytes
    let found ← sliceIndex bytes offset stop
    let header ← decodeHeaderRun H found
    let payloadLen := header.payloadLen.toNat
    ensure (payloadLen ≤ limits.maxGenerationBytes)
      (.error (.generationTooLarge payloadLen limits.maxGenerationBytes))
    let payloadStart ← orErr (checkedAdd offset headerBytes) (.error .arithmeticOverflow)
    let payloadEnd ← orErr (checkedAdd payloadStart payloadLen) (.error .arithmeticOverflow)
    let recordEnd ← orErr (checkedAdd payloadEnd headerBytes) (.error .arithmeticOverflow)
    if recordEnd ≤ bytes.length then pure false
    else do
      embed (validateChain generations ⟨offset, header, true, false⟩)
      pure true

def readGenerationRun (bytes : Bytes) (generations : List CapsuleGeneration) (offset : ℕ)
    (candidate : Candidate) : ScanRun (CapsuleGeneration × ℕ) := do
  let payloadLen := candidate.header.payloadLen.toNat
  let payloadStart ← orErr (checkedAdd offset headerBytes) (.error .arithmeticOverflow)
  let payloadEnd ← orErr (checkedAdd payloadStart payloadLen) (.error .arithmeticOverflow)
  let recordEnd ← orErr (checkedAdd payloadEnd headerBytes) (.error .arithmeticOverflow)
  ensure (recordEnd ≤ bytes.length) (.error (.unframedBytes offset))
  let payload ← sliceIndex bytes payloadStart payloadEnd
  ensure (H.sha256 payload = candidate.header.payloadDigest) (.error (.payloadDigestMismatch offset))
  embed (validateChain generations candidate)
  pure
    ({ offset := UInt64.ofNat offset
       generation := candidate.header.generation
       phase := candidate.header.phase
       previousOffset := candidate.header.previousOffset
       identity := candidate.header.identity
       payloadDigest := candidate.header.payloadDigest
       payload := payload
       primaryHeaderValid := candidate.primaryValid
       trailingHeaderValid := candidate.trailingValid }, recordEnd)

def walkRun (bytes : Bytes) (limits : CapsuleLimits) (byStart : CandidateMap)
    (allowTornTail : Bool) : ℕ → List CapsuleGeneration → ℕ → ScanRun CapsuleView
  | 0, generations, offset =>
    if offset < bytes.length then .error .outOfRounds else pure ⟨generations, offset⟩
  | rounds + 1, generations, offset =>
    if offset < bytes.length then do
      ensure (generations.length < limits.maxGenerations)
        (.error (.tooManyGenerations limits.maxGenerations))
      match byStart offset with
      | none =>
        if allowTornTail = true then do
          let torn ← isRecoverableTornTailRun H bytes offset generations limits
          if torn = true then pure ⟨generations, offset⟩
          else .error (.error (.noRecoverableHeader offset))
        else .error (.error (.noRecoverableHeader offset))
      | some candidate => do
        let read ← readGenerationRun H bytes generations offset candidate
        walkRun bytes limits byStart allowTornTail rounds (generations ++ [read.1]) read.2
    else pure ⟨generations, offset⟩

/-- The scan with its panics. -/
def scanCapsuleRun (bytes : Bytes) (limits : CapsuleLimits) (allowTornTail : Bool) :
    ScanRun CapsuleView := do
  embed (validateLimits limits)
  ensure (bytes.length ≤ limits.maxCapsuleBytes)
    (.error (.capsuleTooLarge bytes.length limits.maxCapsuleBytes))
  if bytes = [] then pure ⟨[], 0⟩
  else do
    let candidates ← findCandidatesRun H bytes limits
    let byStart ← embed (mergeCandidates (fun _ => none) candidates)
    let view ← walkRun H bytes limits byStart allowTornTail bytes.length [] 0
    ensure (allowTornTail = true ∨ view.validatedBytes = bytes.length)
      (.error (.unframedBytes view.validatedBytes))
    pure view

end Run

section Agreement

variable {H : Hashing} {bytes : Bytes}

/-! ## Headers -/

section Fields

variable (h : bytes.length = headerBytes)

include h

theorem readU16Run_eq {offset : ℕ} (ho : offset + 2 ≤ 136) :
    readU16Run bytes offset = .ok (readU16 bytes offset) := by
  have hlen : bytes.length = 136 := h
  rw [readU16Run, readIndices_of_le (by unfold wordBound; omega) (by omega)]
  rfl

theorem readU32Run_eq {offset : ℕ} (ho : offset + 4 ≤ 136) :
    readU32Run bytes offset = .ok (readU32 bytes offset) := by
  have hlen : bytes.length = 136 := h
  rw [readU32Run, readIndices_of_le (by unfold wordBound; omega) (by omega)]
  rfl

theorem readU64Run_eq {offset : ℕ} (ho : offset + 8 ≤ 136) :
    readU64Run bytes offset = .ok (readU64 bytes offset) := by
  have hlen : bytes.length = 136 := h
  rw [readU64Run, readIndices_of_le (by unfold wordBound; omega) (by omega)]
  rfl

theorem sliceIndex_header (lo n : ℕ) {hi : ℕ} (hn : hi = lo + n) (hhi : hi ≤ 136) :
    (sliceIndex bytes lo hi : ScanRun Bytes) = .ok (sliceAt bytes lo n) :=
  sliceIndex_of_le hn (h.symm ▸ hhi)

theorem headerCrcRun_eq : headerCrcRun H bytes = .ok (headerCrc H bytes) := by
  rw [headerCrcRun, sliceIndex_header h 0 crcOffset (by omega) (by decide), ok_bind,
    sliceIndex_header h (crcOffset + 4) 4 (show headerBytes = crcOffset + 4 + 4 from rfl) (by decide)]
  rfl

theorem copyFixed_header {lo n : ℕ} (hhi : lo + n ≤ 136) :
    (copyFixed n (sliceAt bytes lo n) : ScanRun (FixedBytes n)) =
      .ok (fixedAt bytes lo n (h.symm ▸ hhi)) :=
  copyFixed_of_length _

theorem decodeFieldsRun_eq (phase : TransactionPhase) :
    decodeFieldsRun bytes phase = .ok (decodeFields bytes h phase) := by
  rw [decodeFieldsRun, readU64Run_eq h (by omega), ok_bind,
    sliceIndex_header h 48 16 rfl (by omega), ok_bind, copyFixed_header h (by omega), ok_bind,
    sliceIndex_header h 64 32 rfl (by omega), ok_bind, copyFixed_header h (by omega), ok_bind,
    sliceIndex_header h 96 32 rfl (by omega), ok_bind, copyFixed_header h (by omega), ok_bind,
    readU64Run_eq h (by omega), ok_bind, readU64Run_eq h (by omega), ok_bind]
  rfl

end Fields

/-- Decoding a header returns on every string. -/
theorem decodeHeaderRun_eq (bytes : Bytes) :
    decodeHeaderRun H bytes = embed (decodeHeader H bytes) := by
  rw [decodeHeaderRun, decodeHeader]
  by_cases hlen : bytes.length = headerBytes
  · have hlt : 24 < bytes.length := by
      rw [hlen]
      decide
    rw [if_neg (not_not.2 hlen), sliceIndex_header hlen 0 8 rfl (by omega), ok_bind]
    by_cases hmagic : sliceAt bytes 0 8 = magic
    · rw [if_neg (not_not.2 hmagic), dif_pos ⟨hlen, hmagic⟩, decodeFramingRun]
      simp only [embed_bind, embed_ensure, embed_orErr, ensure_and, embed_pure, bind_assoc]
      rw [readU16Run_eq hlen (by omega), ok_bind]
      refine bind_congr fun _ => ?_
      rw [readU16Run_eq hlen (by omega), ok_bind]
      refine bind_congr fun _ => ?_
      rw [sliceIndex_header hlen 12 4 rfl (by omega), ok_bind]
      refine bind_congr fun _ => ?_
      rw [sliceIndex_header hlen 25 7 rfl (by omega), ok_bind]
      refine bind_congr fun _ => ?_
      rw [sliceIndex_header hlen 132 4 rfl (by omega), ok_bind]
      refine bind_congr fun _ => ?_
      rw [readU32Run_eq hlen (by decide), ok_bind, headerCrcRun_eq hlen, ok_bind]
      refine bind_congr fun _ => ?_
      rw [indexAt_of_lt 0 hlt, ok_bind]
      exact bind_congr fun phase => decodeFieldsRun_eq hlen phase
    · rw [if_pos hmagic, dif_neg fun h => hmagic h.2]
      rfl
  · rw [if_pos hlen, dif_neg fun h => hlen h.1]
    rfl

theorem headerRun?_eq (bytes : Bytes) : headerRun? H bytes = .ok (header? H bytes) := by
  rw [headerRun?, header?, decodeHeaderRun_eq]
  cases decodeHeader H bytes <;> rfl

/-! ## Candidates -/

theorem candidateAsPrimaryRun_eq (bytes : Bytes) (start : ℕ) (header : Header) (payloadLen : ℕ) :
    candidateAsPrimaryRun H bytes start header payloadLen =
      embed (candidateAsPrimary H bytes start header payloadLen) := by
  simp only [candidateAsPrimaryRun, candidateAsPrimary, embed_bind, embed_orErr]
  refine bind_congr fun payloadStart => bind_congr fun trailing => ?_
  cases slice? bytes trailing (saturatingAdd trailing headerBytes) with
  | none => rfl
  | some trailingBytes =>
    simp only [headerRun?_eq, ok_bind, embed_ite, embed_pure]

theorem candidateAsTrailingRun_eq (bytes : Bytes) (trailing : ℕ) (header : Header)
    (payloadLen : ℕ) :
    candidateAsTrailingRun H bytes trailing header payloadLen =
      .ok (candidateAsTrailing H bytes trailing header payloadLen) := by
  rw [candidateAsTrailingRun, candidateAsTrailing]
  cases checkedSub trailing (saturatingAdd headerBytes payloadLen) with
  | none => rfl
  | some start =>
    simp only [Option.bind_eq_bind, Option.bind_some]
    cases slice? bytes start (saturatingAdd start headerBytes) with
    | none => rfl
    | some primaryBytes =>
      simp only [headerRun?_eq, ok_bind, Option.bind_some]
      split_ifs <;> rfl

/-- At a position that leaves room for the magic, no operation panics. -/
theorem candidatesAtRun_eq {limits : CapsuleLimits} {position : ℕ}
    (hlen : bytes.length < wordBound) (hpos : position + magic.length ≤ bytes.length) :
    candidatesAtRun H bytes limits position = embed (candidatesAt H bytes limits position) := by
  have hsome : slice? bytes position (position + magic.length) =
      some (sliceAt bytes position magic.length) := by
    rw [slice?_eq_some, Nat.add_sub_cancel_left]
    exact ⟨⟨by omega, hpos⟩, rfl⟩
  rw [candidatesAtRun, candidatesAt, plainAdd_of_lt (by omega), ok_bind,
    sliceIndex_of_le rfl hpos, ok_bind, hsome, orErr_some, ok_bind]
  by_cases hmagic : sliceAt bytes position magic.length = magic
  · rw [if_neg (not_not.2 hmagic), if_neg (not_not.2 hmagic)]
    cases slice? bytes position (saturatingAdd position headerBytes) with
    | none => rfl
    | some found =>
      dsimp only
      rw [headerRun?_eq, ok_bind]
      cases header? H found with
      | none => rfl
      | some header =>
        rw [candidatesOfRun]
        simp only [candidateAsPrimaryRun_eq, candidateAsTrailingRun_eq, ok_bind, embed_ite,
          embed_bind, embed_pure]
  · rw [if_pos hmagic, if_pos hmagic]
    rfl

theorem collectCandidatesRun_eq {limits : CapsuleLimits} {positions : List ℕ}
    (hlen : bytes.length < wordBound)
    (hpos : ∀ position ∈ positions, position + magic.length ≤ bytes.length) :
    collectCandidatesRun H bytes limits positions =
      embed (collectCandidates H bytes limits positions) := by
  induction positions with
  | nil => rfl
  | cons position rest ih =>
    obtain ⟨hhead, hrest⟩ := List.forall_mem_cons.1 hpos
    simp only [collectCandidatesRun, collectCandidates, candidatesAtRun_eq hlen hhead, ih hrest,
      embed_bind, embed_pure]

theorem findCandidatesRun_eq {limits : CapsuleLimits} (hlen : bytes.length < wordBound)
    (hmagic : magic.length ≤ bytes.length) :
    findCandidatesRun H bytes limits = embed (findCandidates H bytes limits) := by
  have hdiv : bytes.length / 8 + 1 < wordBound := by
    unfold wordBound at hlen ⊢
    omega
  rw [findCandidatesRun, plainAdd_of_lt hdiv, ok_bind, findCandidates]
  refine collectCandidatesRun_eq hlen fun position hp => ?_
  rw [List.mem_range] at hp
  omega

/-! ## The walk -/

theorem isRecoverableTornTailRun_eq {limits : CapsuleLimits} {offset : ℕ}
    {generations : List CapsuleGeneration} (hlen : bytes.length < wordBound) :
    isRecoverableTornTailRun H bytes offset generations limits =
      embed (isRecoverableTornTail H bytes offset generations limits) := by
  rw [isRecoverableTornTailRun, isRecoverableTornTail, embed_bind, embed_orErr]
  cases hsub : checkedSub bytes.length offset with
  | none => rfl
  | some remaining =>
    obtain ⟨hle, rfl⟩ := checkedSub_eq_some.1 hsub
    simp only [orErr_some, ok_bind, embed_ite, embed_pure]
    split_ifs with h0 hshort
    · rfl
    · rfl
    · rw [plainAdd_of_lt (by omega), ok_bind, sliceIndex_of_le rfl (by omega), ok_bind]
      simp only [decodeHeaderRun_eq, embed_bind, embed_ensure, embed_orErr, embed_ite, embed_pure]

theorem readGenerationRun_eq {offset : ℕ} {generations : List CapsuleGeneration}
    {candidate : Candidate} :
    readGenerationRun H bytes generations offset candidate =
      embed (readGeneration H bytes generations offset candidate) := by
  simp only [readGenerationRun, readGeneration, embed_bind, embed_orErr, embed_ensure, embed_pure]
  cases checkedAdd offset headerBytes with
  | none => rfl
  | some payloadStart =>
    simp only [orErr_some, ok_bind]
    cases hend : checkedAdd payloadStart candidate.header.payloadLen.toNat with
    | none => rfl
    | some payloadEnd =>
      simp only [orErr_some, ok_bind]
      cases hrecord : checkedAdd payloadEnd headerBytes with
      | none => rfl
      | some recordEnd =>
        simp only [orErr_some, ok_bind]
        obtain ⟨-, rfl⟩ := checkedAdd_eq_some.1 hend
        obtain ⟨-, rfl⟩ := checkedAdd_eq_some.1 hrecord
        by_cases hle : payloadStart + candidate.header.payloadLen.toNat + headerBytes ≤ bytes.length
        · rw [ensure_of hle, ok_bind, ok_bind, sliceIndex_of_le rfl (by omega), ok_bind]
        · rw [ensure_of_not hle]
          rfl

theorem readGeneration_end {offset : ℕ} {generations : List CapsuleGeneration}
    {candidate : Candidate} {r : CapsuleGeneration × ℕ}
    (h : readGeneration H bytes generations offset candidate = .ok r) : offset < r.2 := by
  simp only [readGeneration, bind_ok_iff, orErr_ok_iff, checkedAdd_eq_some, pure_eq_ok,
    Except.ok.injEq] at h
  obtain ⟨_, ⟨-, rfl⟩, _, ⟨-, rfl⟩, _, ⟨-, rfl⟩, _, -, _, -, _, -, rfl⟩ := h
  unfold headerBytes
  dsimp only
  omega

/-- A round of the walk advances, so as many rounds as bytes are left suffice. -/
theorem walkRun_eq {limits : CapsuleLimits} {byStart : CandidateMap} {allowTornTail : Bool}
    {rounds offset : ℕ} {generations : List CapsuleGeneration} (hlen : bytes.length < wordBound)
    (hrounds : bytes.length ≤ offset + rounds) :
    walkRun H bytes limits byStart allowTornTail rounds generations offset =
      embed (walk H bytes limits byStart allowTornTail rounds generations offset) := by
  induction rounds generalizing generations offset with
  | zero =>
    rw [walkRun, walk, if_neg (by omega)]
    rfl
  | succ rounds ih =>
    rw [walkRun, walk, embed_ite]
    by_cases hlt : offset < bytes.length
    · rw [if_pos hlt, if_pos hlt, embed_bind, embed_ensure]
      refine bind_congr fun _ => ?_
      cases byStart offset with
      | none =>
        simp only [isRecoverableTornTailRun_eq hlen, embed_ite, embed_bind, embed_pure, embed_error]
      | some candidate =>
        dsimp only
        rw [readGenerationRun_eq, embed_bind]
        cases hread : readGeneration H bytes generations offset candidate with
        | error e => rfl
        | ok r =>
          have hlt' := readGeneration_end hread
          exact ih (by omega)
    · rw [if_neg hlt, if_neg hlt]
      rfl

/-- **Where the scan returns.** On an empty string and on one that has room for the magic, the scan
is the one without panics. -/
theorem scanCapsuleRun_eq {limits : CapsuleLimits} {allowTornTail : Bool}
    (hlen : bytes.length < wordBound) (h : bytes = [] ∨ magic.length ≤ bytes.length) :
    scanCapsuleRun H bytes limits allowTornTail =
      embed (scanCapsuleImpl H bytes limits allowTornTail) := by
  rw [scanCapsuleRun, scanCapsuleImpl]
  simp only [embed_bind, embed_ensure, embed_ite, embed_pure]
  refine bind_congr fun _ => bind_congr fun _ => ?_
  obtain rfl | hmagic := h
  · rfl
  · have hne : bytes ≠ [] := by
      rintro rfl
      exact absurd hmagic (by decide)
    rw [if_neg hne, if_neg hne, findCandidatesRun_eq hlen hmagic]
    refine bind_congr fun candidates => bind_congr fun byStart => ?_
    rw [walkRun_eq hlen (by omega)]

/-- One to seven bytes leave no room for the magic, which is compared at position zero all the
same. -/
theorem scanCapsuleRun_short {limits : CapsuleLimits} {allowTornTail : Bool}
    (hlimits : validateLimits limits = .ok ()) (hmax : bytes.length ≤ limits.maxCapsuleBytes)
    (hpos : 0 < bytes.length) (hshort : bytes.length < magic.length) :
    scanCapsuleRun H bytes limits allowTornTail = .error .panic := by
  have hne : bytes ≠ [] := List.ne_nil_of_length_pos hpos
  have hmagic : magic.length = 8 := rfl
  have hrange : List.range (bytes.length - magic.length + 1) = [0] := by
    rw [show bytes.length - magic.length = 0 by omega]
    rfl
  have hslice : slice? bytes 0 (0 + magic.length) = none := by
    rw [slice?, if_neg]
    omega
  have hadd : bytes.length / 8 + 1 < wordBound := by
    unfold wordBound
    omega
  rw [scanCapsuleRun, hlimits, embed_ok, ok_bind, ensure_of hmax, ok_bind, if_neg hne,
    findCandidatesRun, plainAdd_of_lt hadd, ok_bind, hrange, collectCandidatesRun, candidatesAtRun,
    plainAdd_of_lt (by rw [hmagic]; decide), ok_bind, sliceIndex, hslice]
  rfl

end Agreement

/-- **When the scan returns.** Under nonzero limits, the strict and the recovering scan return on
every string but those of one to seven bytes that the limits admit. -/
theorem scan_returns_iff (H : Hashing) (bytes : Bytes) (limits : CapsuleLimits)
    (hlen : bytes.length ≤ isizeMax) (hlimits : limits.Valid) :
    (∀ allowTornTail, Returns (scanCapsuleRun H bytes limits allowTornTail)) ↔
      ¬ (1 ≤ bytes.length ∧ bytes.length ≤ 7 ∧ bytes.length ≤ limits.maxCapsuleBytes) := by
  have hok : validateLimits limits = .ok () := validateLimits_ok_iff.2 hlimits
  have hmagic : magic.length = 8 := rfl
  have hword : bytes.length < wordBound := by
    unfold isizeMax at hlen
    unfold wordBound
    omega
  constructor
  · rintro hreturns ⟨hpos, hshort, hmax⟩
    exact (hreturns false).1 (scanCapsuleRun_short hok hmax hpos (by omega))
  · intro h allowTornTail
    by_cases hmax : bytes.length ≤ limits.maxCapsuleBytes
    · rw [scanCapsuleRun_eq hword]
      · exact returns_embed _
      · by_cases hnil : bytes = []
        · exact .inl hnil
        · have := List.length_pos_of_ne_nil hnil
          exact .inr (by omega)
    · rw [scanCapsuleRun, hok, embed_ok, ok_bind, ensure_of_not hmax]
      exact returns_embed (.error _)

theorem scan_magic_returns :
    Returns (scanCapsuleRun .standard magic ⟨65536, 4096, 16⟩ false) ∧
      Returns (scanCapsuleRun .standard magic ⟨65536, 4096, 16⟩ true) :=
  have h := (scan_returns_iff .standard magic ⟨65536, 4096, 16⟩ (by decide) (by decide)).2
    (by decide)
  ⟨h false, h true⟩

/-- Half a magic, as a crash during the first write leaves it, is enough for a panic. -/
theorem scan_half_magic_panics : ¬ ∀ (bytes : Bytes) (limits : CapsuleLimits),
    bytes.length ≤ isizeMax → limits.Valid →
      ∀ allowTornTail, Returns (scanCapsuleRun .standard bytes limits allowTornTail) := by
  intro h
  exact (h (magic.take 4) ⟨65536, 4096, 16⟩ (by decide) (by decide) true).1
    (scanCapsuleRun_short rfl (by decide) (by decide) (by decide))

end Capsule

end StarConverter
