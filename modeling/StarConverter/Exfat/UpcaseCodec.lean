import StarConverter.Exfat.Upcase

/-!
# The up-case table codec

The encoded table is words. A word other than the marker maps one unit; the marker and a count map
that many units to themselves; a marker that is the last word of a table that lacks one mapping is that
mapping. `Expands` says so without a loop. The validator and the decoder are two loops over the words,
the decoder with its reads unchecked; here every read of the decoder is checked (`visitWords`), and none
fails on a table the validator accepts. Restoring a volume writes its table again, with the runs of
identities compressed or with none, and either is accepted and decoded to the same mappings.
-/

namespace StarConverter

open Base

namespace Exfat

/-! ## The decoder, with its reads checked -/

/-- A word of the table; `none` when a byte is out of range. -/
def encodedWord (encoded : Bytes) (wordIndex : ℕ) : Option UInt16 := do
  let low ← encoded[wordIndex * 2]?
  let high ← encoded[wordIndex * 2 + 1]?
  some (UInt16.ofNat (fromLe [low, high]))

/-- The code unit of an index; `none` when it is not one. -/
def codeUnitAt (index : ℕ) : Option UInt16 :=
  if index < unicodeMappingCount then some (mappingCodeUnit index) else none

/-- The visits of an identity run. -/
def visitRun : ℕ → ℕ → Option (List (UInt16 × UInt16))
  | _, 0 => some []
  | mappingIndex, count + 1 => do
    let codeUnit ← codeUnitAt mappingIndex
    let visits ← visitRun (mappingIndex + 1) count
    some ((codeUnit, codeUnit) :: visits)

/-- The visits from `mappingIndex` on, reading from `wordIndex` on; `none` at a read or an index out of
range, and where the loop ends before all units are mapped. -/
def visitWords (encoded : Bytes) (mappingIndex wordIndex : ℕ) : Option (List (UInt16 × UInt16)) :=
  if wordIndex < encoded.length / 2 then do
    let word ← encodedWord encoded wordIndex
    if word = compressionMarker ∧ ¬ (mappingIndex = unicodeMappingCount - 1 ∧
        wordIndex + 1 = encoded.length / 2) then do
      let run ← encodedWord encoded (wordIndex + 1)
      let visits ← visitRun mappingIndex run.toNat
      let rest ← visitWords encoded (mappingIndex + run.toNat) (wordIndex + 2)
      some (visits ++ rest)
    else do
      let codeUnit ← codeUnitAt mappingIndex
      let rest ← visitWords encoded (mappingIndex + 1) (wordIndex + 1)
      some ((codeUnit, word) :: rest)
  else if mappingIndex = unicodeMappingCount then some []
  else none
termination_by encoded.length / 2 - wordIndex

/-- What `decode_valid_table` hands to its visitor. -/
def visitTable (encoded : Bytes) : Option (List (UInt16 × UInt16)) := visitWords encoded 0 0

/-! ## The encoders -/

inductive ReencodeError
  | allocationFailed
  deriving DecidableEq

/-- The two bytes of every word. -/
def wordBytes (words : List UInt16) : Bytes := words.flatMap fun word => toLe 2 word.toNat

def literalUpcaseMappings (mappings : List UInt16) : Bytes := wordBytes mappings

/-- How many of the mappings from `index` on are identities before the first that is not. -/
def identityRun : ℕ → List UInt16 → ℕ
  | _, [] => 0
  | index, mapping :: rest =>
    if codeUnitAt index = some mapping then identityRun (index + 1) rest + 1 else 0

def compressFrom (index : ℕ) (mappings : List UInt16) : Except ReencodeError Bytes :=
  match mappings with
  | [] => pure []
  | mapping :: rest => do
    let codeUnit ← orErr (codeUnitAt index) .allocationFailed
    if mapping = codeUnit ∧ 2 ≤ identityRun index (mapping :: rest) then do
      let run ← orErr (codeUnitAt (identityRun index (mapping :: rest))) .allocationFailed
      let encoded ← compressFrom (index + identityRun index (mapping :: rest))
        (rest.drop (identityRun index (mapping :: rest) - 1))
      pure (wordBytes [compressionMarker, run] ++ encoded)
    else do
      let encoded ← compressFrom (index + 1) rest
      pure (wordBytes [mapping] ++ encoded)
termination_by mappings.length

def compressUpcaseMappings (mappings : List UInt16) : Except ReencodeError Bytes :=
  compressFrom 0 mappings

/-! ## The reference expansion -/

/-- The identities of `count` units from `index` on. -/
def identities (index count : ℕ) : List UInt16 := (List.range' index count).map mappingCodeUnit

/-- The words map the units from an index on, through the last, to the mappings. -/
inductive Expands : ℕ → List UInt16 → List UInt16 → Prop
  | done : Expands unicodeMappingCount [] []
  | last : Expands (unicodeMappingCount - 1) [compressionMarker] [compressionMarker]
  | literal {index word words mappings} : word ≠ compressionMarker → index < unicodeMappingCount →
      Expands (index + 1) words mappings → Expands index (word :: words) (word :: mappings)
  | run {index run words mappings} : 0 < run.toNat →
      Expands (index + run.toNat) words mappings →
      Expands index (compressionMarker :: run :: words) (identities index run.toNat ++ mappings)

/-- Every mapping of an ASCII unit is the one the format prescribes. -/
def Mandatory (index : ℕ) (mappings : List UInt16) : Prop :=
  ∀ j mapping, mappings[j]? = some mapping → validateMandatory (index + j) mapping = .ok ()

/-! ## Words and units -/

theorem toNat_mappingCodeUnit {index : ℕ} (h : index < unicodeMappingCount) :
    (mappingCodeUnit index).toNat = index :=
  UInt16.toNat_ofNat_of_lt' h

theorem codeUnitAt_of_lt {index : ℕ} (h : index < unicodeMappingCount) :
    codeUnitAt index = some (mappingCodeUnit index) := if_pos h

theorem codeUnitAt_eq_some {index : ℕ} {codeUnit : UInt16} :
    codeUnitAt index = some codeUnit ↔ index < unicodeMappingCount ∧ codeUnit.toNat = index := by
  unfold codeUnitAt
  constructor
  · intro h
    split_ifs at h with hlt
    cases h
    exact ⟨hlt, toNat_mappingCodeUnit hlt⟩
  · rintro ⟨hlt, rfl⟩
    rw [if_pos hlt, mappingCodeUnit, UInt16.ofNat_toNat]

theorem eq_marker_iff {index : ℕ} (h : index < unicodeMappingCount) :
    mappingCodeUnit index = compressionMarker ↔ index = unicodeMappingCount - 1 := by
  rw [← UInt16.toNat_inj, toNat_mappingCodeUnit h]
  rfl

@[simp] theorem length_wordBytes (words : List UInt16) :
    (wordBytes words).length = words.length * 2 := by
  induction words with
  | nil => rfl
  | cons word words ih =>
    rw [wordBytes, List.flatMap_cons, ← wordBytes, List.length_append, length_toLe, ih,
      List.length_cons]
    ring

theorem wordBytes_cons (word : UInt16) (words : List UInt16) :
    wordBytes (word :: words) = toLe 2 word.toNat ++ wordBytes words := List.flatMap_cons

theorem wordBytes_append (words words' : List UInt16) :
    wordBytes (words ++ words') = wordBytes words ++ wordBytes words' := List.flatMap_append

/-- The words of words' bytes. -/
theorem encodedWords_wordBytes (words : List UInt16) : encodedWords (wordBytes words) = words := by
  have hget (words : List UInt16) (i : ℕ) (hi : i < words.length) :
      sliceAt (wordBytes words) (i * 2) 2 = toLe 2 words[i].toNat := by
    induction words generalizing i with
    | nil => exact absurd hi (Nat.not_lt_zero i)
    | cons word words ih =>
      rw [wordBytes_cons]
      cases i with
      | zero =>
        rw [sliceAt_append_left (by rw [length_toLe]), Nat.zero_mul]
        rfl
      | succ i =>
        rw [sliceAt_append_right (by rw [length_toLe]; omega), length_toLe,
          show (i + 1) * 2 - 2 = i * 2 by omega]
        exact ih i (Nat.lt_of_succ_lt_succ hi)
  refine List.ext_getElem (by simp [encodedWords]) fun i _ hi => ?_
  simp only [encodedWords, List.getElem_map, List.getElem_range, leAt]
  rw [hget words i hi, fromLe_toLe _ _ (UInt16.toNat_lt words[i]), UInt16.ofNat_toNat]

/-! ## The expansion is a function of the words -/

@[simp] theorem length_identities (index count : ℕ) : (identities index count).length = count := by
  rw [identities, List.length_map, List.length_range']

theorem Expands.length {index : ℕ} {words mappings : List UInt16} (h : Expands index words mappings) :
    index + mappings.length = unicodeMappingCount := by
  induction h with
  | done => rfl
  | last => rfl
  | literal _ _ _ ih =>
    rw [List.length_cons]
    omega
  | run _ _ ih =>
    rw [List.length_append, length_identities]
    omega

theorem Expands.unique {index : ℕ} {words mappings mappings' : List UInt16}
    (h : Expands index words mappings) (h' : Expands index words mappings') :
    mappings = mappings' := by
  induction h generalizing mappings' with
  | done => cases h'; rfl
  | last =>
    cases h' with
    | last => rfl
    | literal hne _ _ => exact absurd rfl hne
  | literal hne _ _ ih =>
    cases h' with
    | last => exact absurd rfl hne
    | literal _ _ htail => rw [ih htail]
    | run _ _ => exact absurd rfl hne
  | run _ _ ih =>
    cases h' with
    | literal hne _ _ => exact absurd rfl hne
    | run _ htail => rw [ih htail]

/-- Only the last unit is mapped to the marker's value. -/
theorem Expands.marker_last {index : ℕ} {words mappings : List UInt16}
    (h : Expands index words mappings) {j : ℕ} (hj : mappings[j]? = some compressionMarker) :
    index + j = unicodeMappingCount - 1 := by
  induction h generalizing j with
  | done => cases hj
  | last =>
    have hlt := (List.getElem?_eq_some_iff.1 hj).1
    rw [List.length_singleton] at hlt
    omega
  | literal hne _ _ ih =>
    cases j with
    | zero => exact absurd (Option.some.inj hj) hne
    | succ j =>
      have := ih (j := j) hj
      omega
  | @run index run words mappings _ htail ih =>
    have hlen := htail.length
    by_cases hlt : j < run.toNat
    · rw [List.getElem?_append_left (by rwa [length_identities]), identities, List.getElem?_map,
        List.getElem?_range' (by omega), Option.map_some, Option.some.injEq, Nat.one_mul] at hj
      exact (eq_marker_iff (by omega)).1 hj
    · rw [List.getElem?_append_right (by rw [length_identities]; omega), length_identities] at hj
      have := ih hj
      omega

theorem Mandatory.cons_iff {index : ℕ} {mapping : UInt16} {mappings : List UInt16} :
    Mandatory index (mapping :: mappings) ↔
      validateMandatory index mapping = .ok () ∧ Mandatory (index + 1) mappings := by
  constructor
  · intro h
    refine ⟨h 0 mapping rfl, fun j m hm => ?_⟩
    have := h (j + 1) m hm
    rwa [show index + 1 + j = index + (j + 1) by omega]
  · rintro ⟨hfirst, hrest⟩ j m hm
    cases j with
    | zero =>
      cases hm
      exact hfirst
    | succ j =>
      have := hrest j m hm
      rwa [show index + (j + 1) = index + 1 + j by omega]

theorem Mandatory.append_iff {index : ℕ} {mappings mappings' : List UInt16} :
    Mandatory index (mappings ++ mappings') ↔
      Mandatory index mappings ∧ Mandatory (index + mappings.length) mappings' := by
  induction mappings generalizing index with
  | nil => simp [Mandatory]
  | cons mapping mappings ih =>
    rw [List.cons_append, cons_iff, cons_iff, ih, List.length_cons, and_assoc,
      show index + 1 + mappings.length = index + (mappings.length + 1) by omega]

theorem mandatory_identities {index count : ℕ} :
    Mandatory index (identities index count) ↔
      checkAll (fun index => validateMandatory index (mappingCodeUnit index))
        (List.range' index (min (index + count) 128 - index)) = .ok () := by
  rw [checkAll_ok_iff]
  simp only [List.mem_range'_1]
  constructor
  · intro h i hi
    obtain ⟨j, rfl⟩ := Nat.exists_eq_add_of_le hi.1
    refine h j _ ?_
    rw [identities, List.getElem?_map, List.getElem?_range' (by omega), Option.map_some, Nat.one_mul]
  · intro h j m hm
    rw [identities, List.getElem?_map, Option.map_eq_some_iff] at hm
    obtain ⟨i, hi, rfl⟩ := hm
    obtain ⟨hlt, rfl⟩ := List.getElem?_eq_some_iff.1 hi
    rw [List.length_range'] at hlt
    rw [List.getElem_range', Nat.one_mul]
    by_cases hascii : index + j < 128
    · exact h (index + j) (by omega)
    · rw [validateMandatory, if_pos (by omega)]
      rfl

/-! ## The validator accepts what expands -/

theorem startsRun_iff {word : UInt16} {index : ℕ} {rest : List UInt16} :
    startsRun word index rest = true ↔
      word = compressionMarker ∧ ¬ (index = unicodeMappingCount - 1 ∧ rest = []) :=
  decide_eq_true_iff

theorem startsRun_pair (index : ℕ) (run : UInt16) (rest : List UInt16) :
    startsRun compressionMarker index (run :: rest) = true :=
  startsRun_iff.2 ⟨rfl, fun hlast => List.cons_ne_nil run rest hlast.2⟩

theorem decodeWords_literal {word : UInt16} {index : ℕ} {rest : List UInt16}
    (h : ¬ startsRun word index rest = true) :
    decodeWords index (word :: rest) = word :: decodeWords (index + 1) rest := by
  cases rest <;> conv_lhs => rw [decodeWords, if_neg h]

theorem decodeWords_run (index : ℕ) (run : UInt16) (rest : List UInt16) :
    decodeWords index (compressionMarker :: run :: rest) =
      identities index run.toNat ++ decodeWords (index + run.toNat) rest := by
  rw [decodeWords, if_pos (startsRun_pair index run rest)]
  rfl

theorem validateWords_literal {word : UInt16} {index wordIndex : ℕ} {rest : List UInt16}
    (h : ¬ startsRun word index rest = true) :
    validateWords index wordIndex (word :: rest) =
      ensure (index ≠ unicodeMappingCount) (.extraMapping wordIndex) >>= fun _ =>
        validateMandatory index word >>= fun _ => validateWords (index + 1) (wordIndex + 1) rest := by
  cases rest <;> conv_lhs => rw [validateWords, if_neg h]

theorem validateWords_run_ok {index wordIndex r : ℕ} {run : UInt16} {rest : List UInt16} :
    validateWords index wordIndex (compressionMarker :: run :: rest) = .ok r ↔
      index ≠ unicodeMappingCount ∧ run.toNat ≠ 0 ∧ index + run.toNat ≤ unicodeMappingCount ∧
        Mandatory index (identities index run.toNat) ∧
        validateWords (index + run.toNat) (wordIndex + 2) rest = .ok r := by
  rw [validateWords, if_pos (startsRun_pair index run rest), mandatory_identities]
  simp only [bind_unit_ok_iff, ensure_ok_iff]

theorem decodeWords_eq {index : ℕ} {words mappings : List UInt16} (h : Expands index words mappings) :
    decodeWords index words = mappings := by
  induction h with
  | done => rw [decodeWords]
  | last => rfl
  | literal hne _ _ ih => rw [decodeWords_literal fun hs => hne (startsRun_iff.1 hs).1, ih]
  | run _ _ ih => rw [decodeWords_run, ih]

theorem validateWords_of_expands {index wordIndex : ℕ} {words mappings : List UInt16}
    (h : Expands index words mappings) (hm : Mandatory index mappings) :
    validateWords index wordIndex words = .ok unicodeMappingCount := by
  induction h generalizing wordIndex with
  | done => rw [validateWords]; rfl
  | last => rfl
  | @literal index word words mappings hne hlt _ ih =>
    rw [Mandatory.cons_iff] at hm
    rw [validateWords_literal fun hs => hne (startsRun_iff.1 hs).1, ensure_of (by omega), ok_bind,
      hm.1, ok_bind]
    exact ih hm.2
  | @run index run words mappings hpos htail ih =>
    have hlen := htail.length
    rw [Mandatory.append_iff, length_identities] at hm
    rw [validateWords_run_ok]
    exact ⟨by omega, by omega, by omega, hm.1, ih hm.2⟩

theorem expands_of_validateWords (n : ℕ) {index wordIndex : ℕ} {words : List UInt16}
    (hn : words.length ≤ n) (hindex : index ≤ unicodeMappingCount)
    (h : validateWords index wordIndex words = .ok unicodeMappingCount) :
    ∃ mappings, Expands index words mappings ∧ Mandatory index mappings := by
  induction n generalizing index wordIndex words with
  | zero =>
    rw [List.length_eq_zero_iff.1 (Nat.le_zero.1 hn), validateWords, pure_eq_ok,
      Except.ok.injEq] at h
    rw [List.length_eq_zero_iff.1 (Nat.le_zero.1 hn), h]
    exact ⟨[], .done, fun j m hm => nomatch hm⟩
  | succ n ih =>
    cases words with
    | nil =>
      rw [validateWords, pure_eq_ok, Except.ok.injEq] at h
      rw [h]
      exact ⟨[], .done, fun j m hm => nomatch hm⟩
    | cons word rest =>
      rw [List.length_cons] at hn
      by_cases hs : startsRun word index rest = true
      · obtain ⟨rfl, -⟩ := startsRun_iff.1 hs
        cases rest with
        | nil =>
          rw [validateWords, if_pos hs] at h
          simp only [bind_ok_iff, reduceCtorEq, and_false, exists_false] at h
        | cons run rest =>
          rw [List.length_cons] at hn
          obtain ⟨-, hpos, hend, hmand, h⟩ := validateWords_run_ok.1 h
          obtain ⟨mappings, hexp, hrest⟩ := ih (by omega) hend h
          refine ⟨_, .run (by omega) hexp, Mandatory.append_iff.2 ⟨hmand, ?_⟩⟩
          rwa [length_identities]
      · rw [validateWords_literal hs] at h
        simp only [bind_unit_ok_iff, ensure_ok_iff] at h
        obtain ⟨hne, hmand, h⟩ := h
        by_cases hmark : word = compressionMarker
        · -- the one marker that starts no run is the last unit's mapping
          obtain ⟨rfl, rfl⟩ := not_not.1 fun hn => hs (startsRun_iff.2 ⟨hmark, hn⟩)
          subst hmark
          exact ⟨_, .last, Mandatory.cons_iff.2 ⟨hmand, fun j m hm => nomatch hm⟩⟩
        · obtain ⟨mappings, hexp, hrest⟩ := ih (by omega) (by omega) h
          exact ⟨_, .literal hmark (by omega) hexp, Mandatory.cons_iff.2 ⟨hmand, hrest⟩⟩

/-- **The validator is exact.** It accepts the tables that expand to all mappings, the mandatory ones
among them. -/
theorem validateEncoding_iff {encoded : Bytes} :
    validateEncoding encoded = .ok () ↔
      ∃ mappings, Expands 0 (encodedWords encoded) mappings ∧ Mandatory 0 mappings := by
  simp only [validateEncoding, bind_ok_iff, ensure_ok_iff]
  constructor
  · rintro ⟨_, h, rfl⟩
    exact expands_of_validateWords _ le_rfl (Nat.zero_le _) h
  · rintro ⟨mappings, hexp, hm⟩
    exact ⟨_, validateWords_of_expands hexp hm, rfl⟩

/-! ## The decoder reads in range -/

theorem encodedWord_eq {encoded : Bytes} {wordIndex : ℕ} (h : wordIndex < encoded.length / 2) :
    encodedWord encoded wordIndex = (encodedWords encoded)[wordIndex]? := by
  have hlow : wordIndex * 2 < encoded.length := by omega
  have hhigh : wordIndex * 2 + 1 < encoded.length := by omega
  have htwo : sliceAt encoded (wordIndex * 2) 2 =
      [encoded[wordIndex * 2], encoded[wordIndex * 2 + 1]] := by
    rw [sliceAt, List.drop_eq_getElem_cons hlow, List.drop_eq_getElem_cons hhigh]
    rfl
  rw [encodedWord, List.getElem?_eq_getElem hlow, List.getElem?_eq_getElem hhigh, encodedWords,
    List.getElem?_map, List.getElem?_range h, Option.map_some, leAt, htwo]
  rfl

theorem visitRun_eq {index count : ℕ} (h : index + count ≤ unicodeMappingCount) :
    visitRun index count =
      some ((List.range' index count).map fun unit => (mappingCodeUnit unit, mappingCodeUnit unit)) := by
  induction count generalizing index with
  | zero => rfl
  | succ count ih =>
    rw [visitRun, codeUnitAt_of_lt (by omega), Option.bind_eq_bind, Option.bind_some,
      ih (by omega), Option.bind_eq_bind, Option.bind_some, List.range'_succ, List.map_cons]

/-- The visits that map the units from `index` on. -/
def visitsOf (index : ℕ) (mappings : List UInt16) : List (UInt16 × UInt16) :=
  (identities index mappings.length).zip mappings

theorem visitsOf_cons (index : ℕ) (mapping : UInt16) (mappings : List UInt16) :
    visitsOf index (mapping :: mappings) =
      (mappingCodeUnit index, mapping) :: visitsOf (index + 1) mappings := rfl

theorem visitsOf_append (index : ℕ) (mappings mappings' : List UInt16) :
    visitsOf index (mappings ++ mappings') =
      visitsOf index mappings ++ visitsOf (index + mappings.length) mappings' := by
  induction mappings generalizing index with
  | nil => rfl
  | cons mapping mappings ih =>
    rw [List.cons_append, visitsOf_cons, visitsOf_cons, ih, List.cons_append, List.length_cons,
      show index + 1 + mappings.length = index + (mappings.length + 1) by omega]

theorem visitsOf_identities (index count : ℕ) :
    visitsOf index (identities index count) = (List.range' index count).map
      fun unit => (mappingCodeUnit unit, mappingCodeUnit unit) := by
  rw [visitsOf, length_identities, identities, List.zip_map']

theorem visitWords_eq {encoded : Bytes} {index wordIndex : ℕ} {words mappings : List UInt16}
    (h : Expands index words mappings) (hwords : (encodedWords encoded).drop wordIndex = words) :
    visitWords encoded index wordIndex = some (visitsOf index mappings) := by
  have hcount : (encodedWords encoded).length = encoded.length / 2 := by simp [encodedWords]
  have hword {k : ℕ} {word : UInt16} {rest : List UInt16}
      (hdrop : (encodedWords encoded).drop k = word :: rest) :
      k < encoded.length / 2 ∧ encodedWord encoded k = some word ∧
        (encodedWords encoded).drop (k + 1) = rest := by
    have hlt : k < (encodedWords encoded).length := by
      by_contra hge
      rw [List.drop_eq_nil_of_le (by omega)] at hdrop
      cases hdrop
    rw [List.drop_eq_getElem_cons hlt, List.cons.injEq] at hdrop
    rw [encodedWord_eq (by omega), List.getElem?_eq_getElem hlt, hdrop.1]
    exact ⟨by omega, rfl, hdrop.2⟩
  induction h generalizing wordIndex with
  | done =>
    have hlen := congrArg List.length hwords
    rw [List.length_drop, List.length_nil] at hlen
    rw [visitWords, if_neg (by omega), if_pos rfl]
    rfl
  | last =>
    obtain ⟨hlt, hread, hrest⟩ := hword hwords
    have hlen := congrArg List.length hrest
    rw [List.length_drop, List.length_nil] at hlen
    rw [visitWords, if_pos hlt, hread, Option.bind_eq_bind, Option.bind_some,
      if_neg fun hrun => hrun.2 ⟨rfl, by omega⟩, codeUnitAt_of_lt (by decide),
      Option.bind_eq_bind, Option.bind_some, visitWords, if_neg (by omega),
      if_pos (show unicodeMappingCount - 1 + 1 = unicodeMappingCount from rfl)]
    rfl
  | @literal index word words mappings hne hindex _ ih =>
    obtain ⟨hlt, hread, hrest⟩ := hword hwords
    rw [visitWords, if_pos hlt, hread, Option.bind_eq_bind, Option.bind_some,
      if_neg fun hrun => hne hrun.1, codeUnitAt_of_lt hindex, Option.bind_eq_bind, Option.bind_some,
      ih hrest]
    rfl
  | @run index run words mappings _ htail ih =>
    obtain ⟨hlt, hread, hrest⟩ := hword hwords
    obtain ⟨hlt', hread', hrest'⟩ := hword hrest
    have hlen := htail.length
    rw [visitWords, if_pos hlt, hread, Option.bind_eq_bind, Option.bind_some,
      if_pos ⟨rfl, fun hlast => by omega⟩, hread', Option.bind_eq_bind, Option.bind_some,
      visitRun_eq (by omega), Option.bind_some, ih hrest', Option.bind_some, visitsOf_append,
      visitsOf_identities, length_identities]

/-! ## The encoders' words expand -/

theorem Expands.eq_nil {index : ℕ} {words : List UInt16} (h : Expands index words []) :
    words = [] := by
  generalize hm : ([] : List UInt16) = mappings at h
  cases h with
  | done => rfl
  | last => cases hm
  | literal _ _ _ => cases hm
  | run hpos _ =>
    have hlen := congrArg List.length hm
    rw [List.length_append, length_identities, List.length_nil] at hlen
    omega

/-- Mappings that words expand to: they reach through the last unit, and only that one is mapped to the
marker's value. -/
structure Encodable (index : ℕ) (mappings : List UInt16) : Prop where
  complete : index + mappings.length = unicodeMappingCount
  marker_last : ∀ j, mappings[j]? = some compressionMarker → index + j = unicodeMappingCount - 1

theorem Expands.encodable {index : ℕ} {words mappings : List UInt16}
    (h : Expands index words mappings) : Encodable index mappings :=
  ⟨h.length, fun _ hj => h.marker_last hj⟩

theorem Encodable.drop {index : ℕ} {mappings : List UInt16} (h : Encodable index mappings) {n : ℕ}
    (hn : n ≤ mappings.length) : Encodable (index + n) (mappings.drop n) := by
  have hlen := h.complete
  refine ⟨by rw [List.length_drop]; omega, fun j hj => ?_⟩
  rw [List.getElem?_drop] at hj
  have := h.marker_last _ hj
  omega

/-- A mapping written as its own word. -/
theorem Encodable.expands_cons {index : ℕ} {mapping : UInt16} {words mappings : List UInt16}
    (h : Encodable index (mapping :: mappings)) (htail : Expands (index + 1) words mappings) :
    Expands index (mapping :: words) (mapping :: mappings) := by
  have hlen := h.complete
  rw [List.length_cons] at hlen
  by_cases hmark : mapping = compressionMarker
  · subst hmark
    have hindex : index = unicodeMappingCount - 1 := h.marker_last 0 rfl
    subst hindex
    have hnil : mappings = [] := List.length_eq_zero_iff.1 (by omega)
    subst hnil
    rw [htail.eq_nil]
    exact .last
  · exact .literal hmark (by omega) htail

theorem Encodable.expands_literal {index : ℕ} {mappings : List UInt16}
    (h : Encodable index mappings) : Expands index mappings mappings := by
  induction mappings generalizing index with
  | nil =>
    have hlen : index = unicodeMappingCount := h.complete
    rw [hlen]
    exact .done
  | cons mapping mappings ih =>
    exact h.expands_cons (ih (h.drop (n := 1) (Nat.le_add_left 1 _)))

theorem identityRun_le (index : ℕ) (mappings : List UInt16) :
    identityRun index mappings ≤ mappings.length := by
  induction mappings generalizing index with
  | nil => exact le_rfl
  | cons mapping mappings ih =>
    rw [identityRun, List.length_cons]
    split_ifs
    · exact Nat.succ_le_succ (ih _)
    · exact Nat.zero_le _

theorem take_identityRun (index : ℕ) (mappings : List UInt16) :
    mappings.take (identityRun index mappings) = identities index (identityRun index mappings) := by
  induction mappings generalizing index with
  | nil => rfl
  | cons mapping mappings ih =>
    rw [identityRun]
    split_ifs with h
    · have hmap : mapping = mappingCodeUnit index := by
        obtain ⟨-, hnat⟩ := codeUnitAt_eq_some.1 h
        rw [mappingCodeUnit, ← hnat, UInt16.ofNat_toNat]
      rw [List.take_succ_cons, ih, identities, identities, List.range'_succ, List.map_cons, hmap]
    · rfl

/-- Compressed mappings expand to themselves. -/
theorem Encodable.compressFrom_expands (n : ℕ) {index : ℕ} {mappings : List UInt16}
    (hn : mappings.length ≤ n) (h : Encodable index mappings)
    (hrun : identityRun index mappings < unicodeMappingCount) :
    ∃ words, compressFrom index mappings = .ok (wordBytes words) ∧ Expands index words mappings ∧
      words.length ≤ mappings.length := by
  induction n generalizing index mappings with
  | zero =>
    have hnil := List.length_eq_zero_iff.1 (Nat.le_zero.1 hn)
    subst hnil
    exact ⟨[], by rw [compressFrom]; rfl, h.expands_literal, le_rfl⟩
  | succ n ih =>
    cases mappings with
    | nil => exact ⟨[], by rw [compressFrom]; rfl, h.expands_literal, le_rfl⟩
    | cons mapping rest =>
      have hlen := h.complete
      rw [List.length_cons] at hlen hn
      have hshort (i : ℕ) (mappings : List UInt16) (hlt : mappings.length ≤ rest.length) :
          identityRun i mappings < unicodeMappingCount :=
        lt_of_le_of_lt ((identityRun_le i mappings).trans hlt) (by omega)
      rw [compressFrom, codeUnitAt_of_lt (by omega), orErr_some, ok_bind]
      by_cases hc : mapping = mappingCodeUnit index ∧ 2 ≤ identityRun index (mapping :: rest)
      · rw [if_pos hc]
        have hle := identityRun_le index (mapping :: rest)
        have hsplit := (List.take_append_drop (identityRun index (mapping :: rest))
          (mapping :: rest)).symm
        rw [take_identityRun] at hsplit
        have htail := h.drop hle
        have htwo := hc.2
        generalize identityRun index (mapping :: rest) = run at *
        obtain ⟨run, rfl⟩ := Nat.exists_eq_add_of_le' (show 1 ≤ run by omega)
        rw [List.drop_succ_cons] at hsplit htail
        rw [codeUnitAt_of_lt hrun, orErr_some, ok_bind, Nat.add_sub_cancel]
        rw [List.length_cons] at hle
        obtain ⟨words, hok, hexp, hwords⟩ := ih (by rw [List.length_drop]; omega) htail
          (hshort _ _ (by rw [List.length_drop]; omega))
        rw [List.length_drop] at hwords
        refine ⟨compressionMarker :: mappingCodeUnit (run + 1) :: words, ?_, ?_, ?_⟩
        · rw [hok, ok_bind]
          rfl
        · have hnat := toNat_mappingCodeUnit hrun
          rw [hsplit]
          conv in identities index (run + 1) => rw [← hnat]
          exact .run (by rw [hnat]; omega) (by rwa [hnat])
        · rw [List.length_cons, List.length_cons, List.length_cons]
          omega
      · rw [if_neg hc]
        obtain ⟨words, hok, hexp, hwords⟩ := @ih (index + 1) rest (by omega)
          (h.drop (n := 1) (Nat.le_add_left 1 _)) (hshort _ _ le_rfl)
        refine ⟨mapping :: words, ?_, h.expands_cons hexp, Nat.succ_le_succ hwords⟩
        rw [hok, ok_bind]
        rfl

/-- A run covers no whole table: the lowercase letters are not mapped to themselves. -/
theorem identityRun_lt {mappings : List UInt16} (h : Encodable 0 mappings)
    (hm : Mandatory 0 mappings) : identityRun 0 mappings < unicodeMappingCount := by
  have hle := identityRun_le 0 mappings
  have hlen := h.complete
  rw [Nat.zero_add] at hlen
  rcases Nat.lt_or_eq_of_le hle with hlt | hall
  · omega
  · have htake := take_identityRun 0 mappings
    rw [hall, List.take_length, hlen] at htake
    have hletter : mappings[0x61]? = some (mappingCodeUnit 0x61) := by
      rw [htake, identities, List.getElem?_map, List.getElem?_range' (by decide)]
      rfl
    exact absurd (hm _ _ hletter) (by decide)

/-! ## The codec -/

/-- The bytes are accepted with their own checksum, under any limits sufficient for every table, and
decoded to the mappings. -/
def Rereads (encoded : Bytes) (mappings : List UInt16) : Prop :=
  ∀ limits : UpcaseLimits, UpcaseLimits.completeTable.maxEncodedBytes ≤ limits.maxEncodedBytes →
    UpcaseLimits.completeTable.maxMappings ≤ limits.maxMappings →
    UpcaseTable.parse encoded (tableChecksum encoded) limits = .ok ⟨mappings⟩ ∧
      visitTable encoded = some ((identities 0 unicodeMappingCount).zip mappings)

theorem validateTable_ok_iff {encoded : Bytes} {expectedChecksum : ℕ} {limits : UpcaseLimits} :
    validateTable encoded expectedChecksum limits = .ok () ↔
      encoded.length ≤ limits.maxEncodedBytes ∧ unicodeMappingCount ≤ limits.maxMappings ∧
        encoded ≠ [] ∧ encoded.length % 2 = 0 ∧ tableChecksum encoded = expectedChecksum ∧
        validateEncoding encoded = .ok () := by
  simp only [validateTable, bind_unit_ok_iff, ensure_ok_iff]

theorem visitTable_eq {encoded : Bytes} {mappings : List UInt16}
    (h : Expands 0 (encodedWords encoded) mappings) :
    visitTable encoded = some ((identities 0 unicodeMappingCount).zip mappings) := by
  have hlen := h.length
  rw [Nat.zero_add] at hlen
  rw [visitTable, visitWords_eq h List.drop_zero, visitsOf, hlen]

theorem rereads_of_expands {words mappings : List UInt16} (h : Expands 0 words mappings)
    (hm : Mandatory 0 mappings) (hwords : words.length ≤ mappings.length) :
    Rereads (wordBytes words) mappings := by
  intro limits hbytes hmappings
  have hlen := h.length
  rw [Nat.zero_add] at hlen
  have hne : words ≠ [] := by
    rintro rfl
    generalize hzero : 0 = index at h
    cases h
    cases hzero
  have hpos := List.length_pos_iff.2 hne
  have hexp : Expands 0 (encodedWords (wordBytes words)) mappings := by
    rwa [encodedWords_wordBytes]
  have hvalid : validateTable (wordBytes words) (tableChecksum (wordBytes words)) limits = .ok () := by
    rw [validateTable_ok_iff, length_wordBytes]
    refine ⟨?_, hmappings, ?_, Nat.mul_mod_left _ _, rfl, validateEncoding_iff.2 ⟨_, hexp, hm⟩⟩
    · have hmax : UpcaseLimits.completeTable.maxEncodedBytes = unicodeMappingCount * 2 := rfl
      omega
    · intro hnil
      have := congrArg List.length hnil
      rw [length_wordBytes, List.length_nil] at this
      omega
  refine ⟨?_, visitTable_eq hexp⟩
  rw [UpcaseTable.parse, hvalid, ok_bind, decodeValidTable, decodeWords_eq hexp]
  rfl

/-- **The codec is exact.** A table the validator accepts has one expansion, of all units; the decoder
reads no word out of range and visits the units in ascending order with their mappings in it; and the
mappings written again, compressed or one word each, are accepted and decoded to themselves. -/
theorem upcaseCodec_exact {encoded : Bytes} {expectedChecksum : ℕ} {limits : UpcaseLimits}
    (h : validateTable encoded expectedChecksum limits = .ok ()) :
    ∃ mappings, mappings.length = unicodeMappingCount ∧
      (∀ expansion, Expands 0 (encodedWords encoded) expansion ↔ expansion = mappings) ∧
      visitTable encoded = some ((identities 0 unicodeMappingCount).zip mappings) ∧
      UpcaseTable.parse encoded expectedChecksum limits = .ok ⟨mappings⟩ ∧
      Rereads (literalUpcaseMappings mappings) mappings ∧
      ∃ compressed, compressUpcaseMappings mappings = .ok compressed ∧
        Rereads compressed mappings := by
  obtain ⟨mappings, hexp, hm⟩ := validateEncoding_iff.1 (validateTable_ok_iff.1 h).2.2.2.2.2
  have hlen := hexp.length
  rw [Nat.zero_add] at hlen
  have henc := hexp.encodable
  obtain ⟨words, hok, hcomp, hwords⟩ :=
    henc.compressFrom_expands _ le_rfl (identityRun_lt henc hm)
  refine ⟨mappings, hlen, fun expansion => ⟨fun he => he.unique hexp, ?_⟩, visitTable_eq hexp, ?_,
    rereads_of_expands henc.expands_literal hm le_rfl, _, hok, rereads_of_expands hcomp hm hwords⟩
  · rintro rfl
    exact hexp
  · rw [UpcaseTable.parse, h, ok_bind, decodeValidTable, decodeWords_eq hexp]
    rfl

/-- The smallest table: only the lowercase letters are not identities. -/
def asciiTable : Bytes :=
  wordBytes ([compressionMarker, 0x61] ++ (List.range' 0x41 26).map mappingCodeUnit ++
    [compressionMarker, 0xFF85])

theorem upcaseCodec_exact_ascii :
    ∃ mappings, mappings.length = unicodeMappingCount ∧
      visitTable asciiTable = some ((identities 0 unicodeMappingCount).zip mappings) := by
  obtain ⟨mappings, hlen, -, hvisit, -⟩ := @upcaseCodec_exact asciiTable
    (tableChecksum asciiTable) .completeTable (by decide +kernel)
  exact ⟨mappings, hlen, hvisit⟩

end Exfat

end StarConverter
