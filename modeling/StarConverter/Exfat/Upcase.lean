import StarConverter.Base.Words

/-!
# The up-case table

The table maps every UTF-16 unit; runs of identities are compressed to a marker and a length. Names
are compared unit by unit through the table; a hash of the mapped name is compared first, and names
that agree have the same hash (`nameHash_eq_of_upcase_eq`), so the scan for duplicates misses none
(`findDuplicateNames_none`).
-/

namespace StarConverter

open Base

namespace Exfat

def unicodeMappingCount : ℕ := 65536

def maxFileNameCodeUnits : ℕ := 255

def compressionMarker : UInt16 := 0xFFFF

structure UpcaseLimits where
  maxEncodedBytes : ℕ
  maxMappings : ℕ
  deriving DecidableEq

/-- Limits sufficient for every table. -/
def UpcaseLimits.completeTable : UpcaseLimits := ⟨unicodeMappingCount * 2, unicodeMappingCount⟩

inductive UpcaseError
  | encodedTableTooLarge (actual maximum : ℕ)
  | mappingLimitTooSmall (required maximum : ℕ)
  | emptyTable
  | oddByteLength (actual : ℕ)
  | checksumMismatch (expected actual : ℕ)
  | danglingCompressionMarker (mappingIndex : ℕ)
  | zeroIdentityRun (mappingIndex : ℕ)
  | identityRunOverflow (mappingIndex runLength : ℕ)
  | extraMapping (encodedWordIndex : ℕ)
  | incompleteTable (mappings required : ℕ)
  | invalidMandatoryMapping (codeUnit expected actual : UInt16)
  deriving DecidableEq

inductive NameError
  | empty
  | invalidLimit (requested maximum : ℕ)
  | tooLong (actual maximum : ℕ)
  deriving DecidableEq

inductive DuplicateError
  | invalidNameLimit (requested maximum : ℕ)
  | tooManyNames (actual maximum : ℕ)
  | invalidName (index : ℕ) (source : NameError)
  | comparisonLimitExceeded (requiredAtLeast maximum : ℕ)
  deriving DecidableEq

/-! ## The encoded table -/

def tableChecksum (encoded : Bytes) : ℕ := rotatingSum 32 encoded

/-- The words of the encoded table. -/
def encodedWords (encoded : Bytes) : List UInt16 :=
  (List.range (encoded.length / 2)).map fun index => UInt16.ofNat (leAt 2 encoded (index * 2))

def mappingCodeUnit (index : ℕ) : UInt16 := UInt16.ofNat index

def validateMandatory (index : ℕ) (actual : UInt16) : Except UpcaseError Unit :=
  if 128 ≤ index then pure ()
  else
    let codeUnit := mappingCodeUnit index
    let expected := if 0x61 ≤ index ∧ index ≤ 0x7A then codeUnit - 0x20 else codeUnit
    ensure (actual = expected) (.invalidMandatoryMapping codeUnit expected actual)

/-- Whether a marker word starts a run: the last word of a table that is complete but for one mapping
is that mapping itself. -/
def startsRun (word : UInt16) (mappingIndex : ℕ) (rest : List UInt16) : Bool :=
  word = compressionMarker ∧ ¬ (mappingIndex = unicodeMappingCount - 1 ∧ rest = [])

/-- Checks the words from `wordIndex` on, which map the units from `mappingIndex` on. -/
def validateWords : ℕ → ℕ → List UInt16 → Except UpcaseError ℕ
  | mappingIndex, _, [] => pure mappingIndex
  | mappingIndex, wordIndex, word :: rest => do
    ensure (mappingIndex ≠ unicodeMappingCount) (.extraMapping wordIndex)
    if startsRun word mappingIndex rest then
      match rest with
      | [] => .error (.danglingCompressionMarker mappingIndex)
      | run :: rest => do
        let runLength := run.toNat
        ensure (runLength ≠ 0) (.zeroIdentityRun mappingIndex)
        let runEnd := mappingIndex + runLength
        ensure (runEnd ≤ unicodeMappingCount) (.identityRunOverflow mappingIndex runLength)
        checkAll (fun index => validateMandatory index (mappingCodeUnit index))
          (List.range' mappingIndex (min runEnd 128 - mappingIndex))
        validateWords runEnd (wordIndex + 2) rest
    else do
      validateMandatory mappingIndex word
      validateWords (mappingIndex + 1) (wordIndex + 1) rest

def validateEncoding (encoded : Bytes) : Except UpcaseError Unit := do
  let mappings ← validateWords 0 0 (encodedWords encoded)
  ensure (mappings = unicodeMappingCount) (.incompleteTable mappings unicodeMappingCount)

/-- The mappings of the words from `mappingIndex` on. -/
def decodeWords : ℕ → List UInt16 → List UInt16
  | _, [] => []
  | mappingIndex, word :: rest =>
    if startsRun word mappingIndex rest then
      match rest with
      | [] => []
      | run :: rest => (List.range' mappingIndex run.toNat).map mappingCodeUnit ++
          decodeWords (mappingIndex + run.toNat) rest
    else word :: decodeWords (mappingIndex + 1) rest

def decodeValidTable (encoded : Bytes) : List UInt16 := decodeWords 0 (encodedWords encoded)

def validateTable (encoded : Bytes) (expectedChecksum : ℕ) (limits : UpcaseLimits) :
    Except UpcaseError Unit := do
  ensure (encoded.length ≤ limits.maxEncodedBytes)
    (.encodedTableTooLarge encoded.length limits.maxEncodedBytes)
  ensure (unicodeMappingCount ≤ limits.maxMappings)
    (.mappingLimitTooSmall unicodeMappingCount limits.maxMappings)
  ensure (encoded ≠ []) .emptyTable
  ensure (encoded.length % 2 = 0) (.oddByteLength encoded.length)
  let actualChecksum := tableChecksum encoded
  ensure (actualChecksum = expectedChecksum) (.checksumMismatch expectedChecksum actualChecksum)
  validateEncoding encoded

/-- A validated table. -/
structure UpcaseTable where
  mappings : List UInt16
  deriving DecidableEq

namespace UpcaseTable

def parse (encoded : Bytes) (expectedChecksum : ℕ) (limits : UpcaseLimits) :
    Except UpcaseError UpcaseTable := do
  validateTable encoded expectedChecksum limits
  pure ⟨decodeValidTable encoded⟩

/-- The mapping of one unit. -/
def map (table : UpcaseTable) (codeUnit : UInt16) : UInt16 := table.mappings.getD codeUnit.toNat 0

/-- A name with every unit mapped. -/
def upcase (table : UpcaseTable) (name : List UInt16) : List UInt16 := name.map table.map

end UpcaseTable

/-! ## Names -/

def validateName (name : List UInt16) (maxCodeUnits : ℕ) : Except NameError Unit := do
  ensure (maxCodeUnits ≤ maxFileNameCodeUnits) (.invalidLimit maxCodeUnits maxFileNameCodeUnits)
  ensure (name ≠ []) .empty
  ensure (name.length ≤ maxCodeUnits) (.tooLong name.length maxCodeUnits)

structure DuplicateLimits where
  maxNames : ℕ
  maxNameCodeUnits : ℕ
  maxComparisons : ℕ
  deriving DecidableEq

structure DuplicateName where
  firstIndex : ℕ
  secondIndex : ℕ
  nameHash : ℕ
  deriving DecidableEq

namespace UpcaseTable

variable (table : UpcaseTable)

/-- The hash of a name's mapped units, each as its two bytes. -/
def hashUnits (name : List UInt16) : ℕ :=
  rotatingSum 16 ((table.upcase name).flatMap fun unit => toLe 2 unit.toNat)

def nameHash (name : List UInt16) (maxCodeUnits : ℕ) : Except NameError ℕ := do
  validateName name maxCodeUnits
  pure (table.hashUnits name)

/-- Compares one name with the names before it; `comparisons` were made so far. -/
def findDuplicateOf (limits : DuplicateLimits) (second : List UInt16) (secondIndex secondHash : ℕ) :
    ℕ → ℕ → List (List UInt16) → Except DuplicateError (Option DuplicateName × ℕ)
  | _, comparisons, [] => pure (none, comparisons)
  | firstIndex, comparisons, first :: rest => do
    let comparisons ← orErr (checkedAdd comparisons 1)
      (.comparisonLimitExceeded (wordBound - 1) limits.maxComparisons)
    ensure (comparisons ≤ limits.maxComparisons)
      (.comparisonLimitExceeded comparisons limits.maxComparisons)
    let firstHash ← (table.nameHash first limits.maxNameCodeUnits).mapError
      (.invalidName firstIndex)
    if firstHash = secondHash ∧ first.length = second.length ∧
        ((first.zip second).all fun pair => table.map pair.1 = table.map pair.2) then
      pure (some ⟨firstIndex, secondIndex, firstHash⟩, comparisons)
    else findDuplicateOf limits second secondIndex secondHash (firstIndex + 1) comparisons rest

/-- Compares every remaining name with all names before it. -/
def findDuplicateLoop (limits : DuplicateLimits) :
    List (List UInt16) → ℕ → List (List UInt16) → Except DuplicateError (Option DuplicateName)
  | _, _, [] => pure none
  | before, comparisons, second :: rest => do
    let secondHash ← (table.nameHash second limits.maxNameCodeUnits).mapError
      (.invalidName before.length)
    let found ← table.findDuplicateOf limits second before.length secondHash 0 comparisons before
    match found with
    | (some duplicate, _) => pure (some duplicate)
    | (none, comparisons) => findDuplicateLoop limits (before ++ [second]) comparisons rest

/-- Checks every name against the limit. -/
def validateNames (maxCodeUnits : ℕ) : ℕ → List (List UInt16) → Except DuplicateError Unit
  | _, [] => pure ()
  | index, name :: rest => do
    (validateName name maxCodeUnits).mapError (.invalidName index)
    validateNames maxCodeUnits (index + 1) rest

/-- The first pair of names that are equal after up-casing. -/
def findDuplicateNames (names : List (List UInt16)) (limits : DuplicateLimits) :
    Except DuplicateError (Option DuplicateName) := do
  ensure (limits.maxNameCodeUnits ≤ maxFileNameCodeUnits)
    (.invalidNameLimit limits.maxNameCodeUnits maxFileNameCodeUnits)
  ensure (names.length ≤ limits.maxNames) (.tooManyNames names.length limits.maxNames)
  validateNames limits.maxNameCodeUnits 0 names
  table.findDuplicateLoop limits (names.take 1) 0 (names.drop 1)

/-! ## No duplicate is missed -/

variable {table}

theorem nameHash_eq_of_upcase_eq {first second : List UInt16} {maxCodeUnits a b : ℕ}
    (h : table.upcase first = table.upcase second)
    (ha : table.nameHash first maxCodeUnits = .ok a)
    (hb : table.nameHash second maxCodeUnits = .ok b) : a = b := by
  simp only [nameHash, bind_ok_iff, pure_eq_ok, Except.ok.injEq] at ha hb
  obtain ⟨_, -, rfl⟩ := ha
  obtain ⟨_, -, rfl⟩ := hb
  unfold hashUnits
  rw [h]

theorem all_zip_of_upcase_eq {first second : List UInt16}
    (h : table.upcase first = table.upcase second) :
    ((first.zip second).all fun pair => table.map pair.1 = table.map pair.2) = true := by
  unfold upcase at h
  rw [List.all_eq_true]
  intro pair hpair
  obtain ⟨i, hi⟩ := List.getElem?_of_mem hpair
  rw [List.getElem?_zip_eq_some] at hi
  have hget := congrArg (fun l => l[i]?) h
  simp only [List.getElem?_map, hi.1, hi.2, Option.map_some, Option.some.injEq] at hget
  exact decide_eq_true hget

theorem findDuplicateOf_none {limits : DuplicateLimits} {second : List UInt16}
    {secondIndex secondHash firstIndex comparisons comparisons' : ℕ} {before : List (List UInt16)}
    (hhash : table.nameHash second limits.maxNameCodeUnits = .ok secondHash)
    (h : table.findDuplicateOf limits second secondIndex secondHash firstIndex comparisons before =
      .ok (none, comparisons')) :
    ∀ first ∈ before, table.upcase first ≠ table.upcase second := by
  induction before generalizing firstIndex comparisons with
  | nil => exact fun _ hmem => (List.not_mem_nil hmem).elim
  | cons first rest ih =>
    simp only [findDuplicateOf, bind_ok_iff, orErr_ok_iff, checkedAdd_eq_some, mapError_ok_iff] at h
    obtain ⟨_, -, _, -, firstHash, hfirst, h⟩ := h
    split_ifs at h with hfound
    · simp only [pure_eq_ok, Except.ok.injEq, Prod.mk.injEq, reduceCtorEq, false_and] at h
    · intro name hname
      rcases List.mem_cons.1 hname with rfl | hmem
      · intro heq
        refine hfound ⟨nameHash_eq_of_upcase_eq heq hfirst hhash, ?_, all_zip_of_upcase_eq heq⟩
        simpa [upcase] using congrArg List.length heq
      · exact ih h name hmem

theorem findDuplicateLoop_none {limits : DuplicateLimits} {before names : List (List UInt16)}
    {comparisons : ℕ} (h : table.findDuplicateLoop limits before comparisons names = .ok none)
    (hbefore : (before.map table.upcase).Nodup) : ((before ++ names).map table.upcase).Nodup := by
  induction names generalizing before comparisons with
  | nil => rwa [List.append_nil]
  | cons second rest ih =>
    simp only [findDuplicateLoop, bind_ok_iff, mapError_ok_iff] at h
    obtain ⟨secondHash, hhash, ⟨found, comparisons'⟩, hfound, h⟩ := h
    cases found with
    | some duplicate => simp at h
    | none =>
      have hnew := findDuplicateOf_none hhash hfound
      rw [List.append_cons]
      refine ih h ?_
      rw [List.map_append, List.nodup_append]
      refine ⟨hbefore, by simp, ?_⟩
      intro a ha b hb heq
      obtain ⟨first, hfirst, rfl⟩ := List.mem_map.1 ha
      rw [List.map_singleton, List.mem_singleton] at hb
      exact hnew first hfirst (heq.trans hb)

/-- **Duplicates are found.** Names among which no duplicate is found are pairwise distinct after
up-casing. -/
theorem findDuplicateNames_none {names : List (List UInt16)} {limits : DuplicateLimits}
    (h : table.findDuplicateNames names limits = .ok none) : (names.map table.upcase).Nodup := by
  simp only [findDuplicateNames, bind_ok_iff] at h
  obtain ⟨_, -, _, -, _, -, h⟩ := h
  have hone : ((names.take 1).map table.upcase).Nodup := by
    cases names with
    | nil => simp
    | cons a rest => simp
  have hall := findDuplicateLoop_none h hone
  rwa [List.take_append_drop] at hall

end UpcaseTable

end Exfat

end StarConverter
