import StarConverter.Capsule.Header

/-!
# Scanning and appending capsule generations

The scanner looks for the magic at every byte position. Every decodable header found there claims a
record start twice: as the leading copy of a record starting at its own position, and as the
trailing copy of the record it would end. The claims are merged by start, the records are walked
from offset zero, and each one is checked against the chain read so far.
-/

namespace StarConverter

open Base

namespace Capsule

/-- Caller-controlled recovery and append bounds. -/
structure CapsuleLimits where
  maxCapsuleBytes : ℕ
  maxGenerationBytes : ℕ
  maxGenerations : ℕ
  deriving DecidableEq

/-- The longest byte vector the language can hold. -/
def isizeMax : ℕ := 2 ^ 63 - 1

/-- One recovered complete generation. -/
structure CapsuleGeneration where
  offset : UInt64
  generation : UInt64
  phase : TransactionPhase
  previousOffset : Option UInt64
  identity : CapsuleIdentity
  payloadDigest : Digest
  payload : Bytes
  primaryHeaderValid : Bool
  trailingHeaderValid : Bool
  deriving DecidableEq

/-- A validated capsule: its generations and the length of the validated prefix. -/
structure CapsuleView where
  generations : List CapsuleGeneration
  validatedBytes : ℕ
  deriving DecidableEq

def CapsuleView.newest (view : CapsuleView) : Option CapsuleGeneration := view.generations.getLast?

/-- A header that claims the record starting at `start`. -/
structure Candidate where
  start : ℕ
  header : Header
  primaryValid : Bool
  trailingValid : Bool
  deriving DecidableEq

def validateLimits (limits : CapsuleLimits) : Except CapsuleError Unit :=
  checkAll (fun field => ensure (field.2 ≠ 0) (.invalidLimit field.1))
    [("max_capsule_bytes", limits.maxCapsuleBytes),
      ("max_generation_bytes", limits.maxGenerationBytes),
      ("max_generations", limits.maxGenerations)]

/-- `checked_add(1)` of a generation number. -/
def nextGeneration (generation : UInt64) : Option UInt64 :=
  (checkedAdd generation.toNat 1).map UInt64.ofNat

def validateChain (generations : List CapsuleGeneration) (candidate : Candidate) :
    Except CapsuleError Unit :=
  match generations.getLast? with
  | none =>
    ensure (candidate.header.generation = 0 ∧ candidate.header.phase = .discovered ∧
      candidate.header.previousOffset = none) .firstGenerationInvalid
  | some previous => do
    let expected ← orErr (nextGeneration previous.generation) .generationOverflow
    ensure (candidate.header.generation = expected)
      (.generationSequence expected candidate.header.generation)
    ensure (candidate.header.previousOffset = some previous.offset)
      (.previousOffsetMismatch (some previous.offset) candidate.header.previousOffset)
    ensure (candidate.header.identity = previous.identity) .identityChanged
    ensure (candidate.header.phase.mayFollow previous.phase = true)
      (.invalidPhaseTransition previous.phase candidate.header.phase)

section Scan

variable (H : Hashing)

def candidateAsPrimary (bytes : Bytes) (start : ℕ) (header : Header) (payloadLen : ℕ) :
    Except CapsuleError (Option Candidate) := do
  let payloadStart ← orErr (checkedAdd start headerBytes) .arithmeticOverflow
  let trailing ← orErr (checkedAdd payloadStart payloadLen) .arithmeticOverflow
  match slice? bytes trailing (saturatingAdd trailing headerBytes) with
  | none => pure none
  | some trailingBytes =>
    let trailingHeader := header? H trailingBytes
    if trailingHeader = none ∨ trailingHeader = some header then
      pure (some ⟨start, header, true, decide (trailingHeader = some header)⟩)
    else pure none

def candidateAsTrailing (bytes : Bytes) (trailing : ℕ) (header : Header) (payloadLen : ℕ) :
    Option Candidate := do
  let start ← checkedSub trailing (saturatingAdd headerBytes payloadLen)
  let primaryBytes ← slice? bytes start (saturatingAdd start headerBytes)
  let primaryHeader := header? H primaryBytes
  if primaryHeader = none ∨ primaryHeader = some header then
    some ⟨start, header, decide (primaryHeader = some header), true⟩
  else none

/-- The candidates found at one byte position. -/
def candidatesAt (bytes : Bytes) (limits : CapsuleLimits) (position : ℕ) :
    Except CapsuleError (List Candidate) := do
  let head ← orErr (slice? bytes position (position + magic.length)) .indexOutOfBounds
  if head ≠ magic then pure []
  else
    match slice? bytes position (saturatingAdd position headerBytes) with
    | none => pure []
    | some found =>
      match header? H found with
      | none => pure []
      | some header =>
        let payloadLen := header.payloadLen.toNat
        if limits.maxGenerationBytes < payloadLen then pure []
        else do
          let primary ← candidateAsPrimary H bytes position header payloadLen
          pure (primary.toList ++ (candidateAsTrailing H bytes position header payloadLen).toList)

/-- The candidates of a list of positions, in order. -/
def collectCandidates (bytes : Bytes) (limits : CapsuleLimits) :
    List ℕ → Except CapsuleError (List Candidate)
  | [] => pure []
  | position :: rest => do
    let here ← candidatesAt H bytes limits position
    let more ← collectCandidates bytes limits rest
    pure (here ++ more)

def findCandidates (bytes : Bytes) (limits : CapsuleLimits) :
    Except CapsuleError (List Candidate) :=
  collectCandidates H bytes limits (List.range (bytes.length - magic.length + 1))

/-- Candidates by the start they claim. -/
abbrev CandidateMap := ℕ → Option Candidate

/-- Merges candidates by start; two different headers claiming one start are ambiguous. -/
def mergeCandidates : CandidateMap → List Candidate → Except CapsuleError CandidateMap
  | byStart, [] => pure byStart
  | byStart, candidate :: rest =>
    match byStart candidate.start with
    | none => mergeCandidates (Function.update byStart candidate.start (some candidate)) rest
    | some existing =>
      if existing.header = candidate.header then
        let merged : Candidate :=
          { existing with
            primaryValid := existing.primaryValid || candidate.primaryValid
            trailingValid := existing.trailingValid || candidate.trailingValid }
        mergeCandidates (Function.update byStart candidate.start (some merged)) rest
      else .error (.ambiguousGeneration candidate.start)

def isRecoverableTornTail (bytes : Bytes) (offset : ℕ) (generations : List CapsuleGeneration)
    (limits : CapsuleLimits) : Except CapsuleError Bool := do
  let remaining ← orErr (checkedSub bytes.length offset) .arithmeticOverflow
  if remaining = 0 then pure false
  else if remaining < headerBytes then pure true
  else do
    let header ← decodeHeader H (sliceAt bytes offset headerBytes)
    let payloadLen := header.payloadLen.toNat
    ensure (payloadLen ≤ limits.maxGenerationBytes)
      (.generationTooLarge payloadLen limits.maxGenerationBytes)
    let payloadStart ← orErr (checkedAdd offset headerBytes) .arithmeticOverflow
    let payloadEnd ← orErr (checkedAdd payloadStart payloadLen) .arithmeticOverflow
    let recordEnd ← orErr (checkedAdd payloadEnd headerBytes) .arithmeticOverflow
    if recordEnd ≤ bytes.length then pure false
    else do
      validateChain generations ⟨offset, header, true, false⟩
      pure true

/-- One record of the walk: its generation and its end. -/
def readGeneration (bytes : Bytes) (generations : List CapsuleGeneration) (offset : ℕ)
    (candidate : Candidate) : Except CapsuleError (CapsuleGeneration × ℕ) := do
  let payloadLen := candidate.header.payloadLen.toNat
  let payloadStart ← orErr (checkedAdd offset headerBytes) .arithmeticOverflow
  let payloadEnd ← orErr (checkedAdd payloadStart payloadLen) .arithmeticOverflow
  let recordEnd ← orErr (checkedAdd payloadEnd headerBytes) .arithmeticOverflow
  ensure (recordEnd ≤ bytes.length) (.unframedBytes offset)
  let payload := sliceAt bytes payloadStart payloadLen
  ensure (H.sha256 payload = candidate.header.payloadDigest) (.payloadDigestMismatch offset)
  validateChain generations candidate
  pure
    ({ offset := UInt64.ofNat offset
       generation := candidate.header.generation
       phase := candidate.header.phase
       previousOffset := candidate.header.previousOffset
       identity := candidate.header.identity
       payloadDigest := candidate.header.payloadDigest
       payload := payload
       primaryHeaderValid := candidate.primaryValid
       trailingHeaderValid := candidate.trailingValid }, recordEnd)

/-- The walk over records. A record is at least two headers long, so as many rounds as there are
bytes always reach the end. -/
def walk (bytes : Bytes) (limits : CapsuleLimits) (byStart : CandidateMap) (allowTornTail : Bool) :
    ℕ → List CapsuleGeneration → ℕ → Except CapsuleError CapsuleView
  | 0, generations, offset => pure ⟨generations, offset⟩
  | rounds + 1, generations, offset =>
    if offset < bytes.length then do
      ensure (generations.length < limits.maxGenerations) (.tooManyGenerations limits.maxGenerations)
      match byStart offset with
      | none =>
        if allowTornTail = true then do
          let torn ← isRecoverableTornTail H bytes offset generations limits
          if torn = true then pure ⟨generations, offset⟩
          else .error (.noRecoverableHeader offset)
        else .error (.noRecoverableHeader offset)
      | some candidate => do
        let (generation, recordEnd) ← readGeneration H bytes generations offset candidate
        walk bytes limits byStart allowTornTail rounds (generations ++ [generation]) recordEnd
    else pure ⟨generations, offset⟩

def scanCapsuleImpl (bytes : Bytes) (limits : CapsuleLimits) (allowTornTail : Bool) :
    Except CapsuleError CapsuleView := do
  validateLimits limits
  ensure (bytes.length ≤ limits.maxCapsuleBytes)
    (.capsuleTooLarge bytes.length limits.maxCapsuleBytes)
  if bytes = [] then pure ⟨[], 0⟩
  else do
    let candidates ← findCandidates H bytes limits
    let byStart ← mergeCandidates (fun _ => none) candidates
    let view ← walk H bytes limits byStart allowTornTail bytes.length [] 0
    ensure (allowTornTail = true ∨ view.validatedBytes = bytes.length)
      (.unframedBytes view.validatedBytes)
    pure view

/-- Validates every generation of a complete capsule. -/
def scanCapsule (bytes : Bytes) (limits : CapsuleLimits) : Except CapsuleError CapsuleView :=
  scanCapsuleImpl H bytes limits false

/-- Validates the complete generations and tolerates a provably incomplete newest append. -/
def recoverCapsule (bytes : Bytes) (limits : CapsuleLimits) : Except CapsuleError CapsuleView :=
  scanCapsuleImpl H bytes limits true

/-! ## Appending -/

/-- One record: the payload between two copies of its header. -/
def encodeRecord (header : Header) (payload : Bytes) : Bytes :=
  encodeHeader H header ++ payload ++ encodeHeader H header

/-- Number and previous offset of the generation that follows `newest`. -/
def successorOf (newest : Option CapsuleGeneration) (identity : CapsuleIdentity)
    (phase : TransactionPhase) : Except CapsuleError (UInt64 × Option UInt64) :=
  match newest with
  | none => do
    ensure (phase = .discovered) .firstGenerationInvalid
    pure (0, none)
  | some previous => do
    ensure (previous.identity = identity) .identityChanged
    ensure (phase.mayFollow previous.phase = true) (.invalidPhaseTransition previous.phase phase)
    let generation ← orErr (nextGeneration previous.generation) .generationOverflow
    pure (generation, some previous.offset)

/-- Appends one complete generation. Growing the vector past `isizeMax` fails as its reservation
does. -/
def appendGeneration (capsule : Bytes) (identity : CapsuleIdentity) (phase : TransactionPhase)
    (payload : Bytes) (limits : CapsuleLimits) : Except CapsuleError Bytes := do
  validateLimits limits
  ensure (payload.length ≤ limits.maxGenerationBytes)
    (.generationTooLarge payload.length limits.maxGenerationBytes)
  let view ← scanCapsule H capsule limits
  let (generation, previousOffset) ← successorOf view.newest identity phase
  ensure (view.generations.length < limits.maxGenerations) (.tooManyGenerations limits.maxGenerations)
  let recordBytes ← orErr (checkedAdd (headerBytes * 2) payload.length) .arithmeticOverflow
  let finalLen ← orErr (checkedAdd capsule.length recordBytes) .arithmeticOverflow
  ensure (finalLen ≤ limits.maxCapsuleBytes) (.capsuleTooLarge finalLen limits.maxCapsuleBytes)
  let header : Header :=
    { generation := generation
      phase := phase
      payloadLen := UInt64.ofNat payload.length
      previousOffset := previousOffset
      identity := identity
      payloadDigest := H.sha256 payload }
  ensure (finalLen ≤ isizeMax) .allocationFailed
  pure (capsule ++ encodeRecord H header payload)

end Scan

end Capsule

end StarConverter
