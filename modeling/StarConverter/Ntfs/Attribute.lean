import StarConverter.Base.Fields
import StarConverter.Ntfs.Runs
import StarConverter.Object

/-!
# Encoded attributes

An attribute of a FILE record is a zeroed buffer of whole eight-byte units with its header, its name
and its value or mapping pairs written into it. `StoresPairs` says what a reader finds in a
nonresident attribute: the range of virtual clusters in the header and the mapping pairs, followed by
zeros only.
-/

namespace StarConverter

open Base

namespace Ntfs

/-! ## Attribute types and record geometry -/

def recordBytes : ℕ := 1024
def standardInformation : ℕ := 0x10
def attributeList : ℕ := 0x20
def fileName : ℕ := 0x30
def securityDescriptor : ℕ := 0x50
def data : ℕ := 0x80
def indexRoot : ℕ := 0x90
def indexAllocation : ℕ := 0xA0
def bitmap : ℕ := 0xB0
def reparsePoint : ℕ := 0xC0
def endAttribute : ℕ := 0xFFFFFFFF
def attributesOffset : ℕ := 56
def attributeFlagSparse : ℕ := 0x8000
def nonresidentHeaderBytes : ℕ := 64
def sparseNonresidentHeaderBytes : ℕ := 72

/-- The errors of the serializer that its modelled functions return. -/
inductive NtfsSerializeError
  | arithmeticOverflow
  | mappingPairsTooLarge (stream : StreamId)
  | recordOverflow (recordNumber : ℕ)
  | directoryIndexOverflow (object : ObjectId)
  | invalidName (target : ObjectId)
  | invalidReparsePoint (object : ObjectId) (actual : ℕ)
  | sparseExtent (stream : StreamId)
  | unalignedExtent (stream : StreamId) (offset length : ℕ)
  | residentDataTooLarge (stream : StreamId) (actual maximum : ℕ)
  | destinationLayoutChanged
  deriving DecidableEq

/-- `checked_add` of two 16-bit words. -/
def checkedAdd16 (a b : ℕ) : Option ℕ := if a + b < 2 ^ 16 then some (a + b) else none

@[simp] theorem checkedAdd16_eq_some {a b c : ℕ} :
    checkedAdd16 a b = some c ↔ a + b < 2 ^ 16 ∧ a + b = c := by
  unfold checkedAdd16; split <;> simp_all

/-- The attributes of these lengths fit one behind the other into a FILE record. -/
def recordLengthsFitFrom : ℕ → List ℕ → Except NtfsSerializeError Bool
  | _, [] => pure true
  | cursor, length :: rest => do
    let stop ← orErr (checkedAdd cursor length) .arithmeticOverflow
    if (checkedAdd stop 8).all (recordBytes - 2 < ·) then pure false
    else recordLengthsFitFrom stop rest

def recordLengthsFit (lengths : List ℕ) : Except NtfsSerializeError Bool :=
  recordLengthsFitFrom attributesOffset lengths

/-! ## Resident attributes -/

def residentAttribute (attributeType : ℕ) (name : Option (List UInt16)) (id : ℕ) (value : Bytes) :
    Except NtfsSerializeError Bytes := do
  let name := name.getD []
  let nameBytes ← orErr (checkedMul name.length 2) .arithmeticOverflow
  let nameOffset := if name = [] then 0 else 24
  let valueOffset := alignEight (24 + nameBytes)
  let total := alignEight (← orErr (checkedAdd valueOffset value.length) .arithmeticOverflow)
  ensure (total < wordBound32) .arithmeticOverflow
  ensure (name.length < 2 ^ 8) .arithmeticOverflow
  ensure (value.length < wordBound32) .arithmeticOverflow
  ensure (valueOffset < 2 ^ 16) .arithmeticOverflow
  pure <| applyAll
    ([put 4 0 attributeType, put 4 4 total, put 1 9 name.length, put 2 10 nameOffset, put 2 14 id,
        put 4 16 value.length, put 2 20 valueOffset] ++
      (if attributeType = fileName then [put 1 22 1] else []) ++
      (if name = [] then [] else [⟨nameOffset, utf16Bytes name⟩]) ++
      [⟨valueOffset, value⟩])
    (zeros total)

/-! ## Nonresident attributes -/

/-- The header a nonresident attribute has before its name or mapping pairs. -/
def nonresidentHeader (sparse : Bool) : ℕ :=
  if sparse then sparseNonresidentHeaderBytes else nonresidentHeaderBytes

/-- The sizes in the header of the first extent of an attribute. -/
def sizeFields (lowestVcn logical initialized allocated : ℕ) (sparse : Bool) : List (Patch UInt8) :=
  if lowestVcn = 0 then
    [put 8 40 allocated, put 8 48 logical, put 8 56 initialized] ++
      if sparse then [put 8 64 allocated] else []
  else []

def nonresidentAttributeFromPairs (attributeType : ℕ) (pairs : Bytes)
    (lowestVcn fragmentClusters logical initialized allocated id : ℕ) (sparse : Bool) :
    Except NtfsSerializeError Bytes :=
  if fragmentClusters = 0 then residentAttribute attributeType none id []
  else do
    let header := nonresidentHeader sparse
    let total := alignEight (← orErr (checkedAdd header pairs.length) .arithmeticOverflow)
    let highestVcn ← orErr ((checkedAdd lowestVcn fragmentClusters).bind (checkedSub · 1))
      .arithmeticOverflow
    ensure (total < wordBound32) .arithmeticOverflow
    pure <| applyAll
      ([put 4 0 attributeType, put 4 4 total, put 1 8 1] ++
        (if sparse then [put 2 12 attributeFlagSparse] else []) ++
        [put 2 14 id, put 8 16 lowestVcn, put 8 24 highestVcn, put 2 32 header] ++
        sizeFields lowestVcn logical initialized allocated sparse ++
        [⟨header, pairs⟩])
      (zeros total)

def nonresidentNamedAttributeFromPairs (attributeType : ℕ) (name : List UInt16) (pairs : Bytes)
    (lowestVcn fragmentClusters logical initialized allocated id : ℕ) (sparse : Bool) :
    Except NtfsSerializeError Bytes := do
  ensure (¬ (name = [] ∨ fragmentClusters = 0)) .arithmeticOverflow
  let header := nonresidentHeader sparse
  let nameBytes ← orErr (checkedMul name.length 2) .arithmeticOverflow
  let mappingOffset := alignEight (← orErr (checkedAdd header nameBytes) .arithmeticOverflow)
  let total := alignEight (← orErr (checkedAdd mappingOffset pairs.length) .arithmeticOverflow)
  let highestVcn ← orErr ((checkedAdd lowestVcn fragmentClusters).bind (checkedSub · 1))
    .arithmeticOverflow
  ensure (total < wordBound32) .arithmeticOverflow
  ensure (name.length < 2 ^ 8) .arithmeticOverflow
  ensure (mappingOffset < 2 ^ 16) .arithmeticOverflow
  pure <| applyAll
    ([put 4 0 attributeType, put 4 4 total, put 1 8 1, put 1 9 name.length, put 2 10 header] ++
      (if sparse then [put 2 12 attributeFlagSparse] else []) ++
      [put 2 14 id, put 8 16 lowestVcn, put 8 24 highestVcn, put 2 32 mappingOffset] ++
      sizeFields lowestVcn logical initialized allocated sparse ++
      [⟨header, utf16Bytes name⟩, ⟨mappingOffset, pairs⟩])
    (zeros total)

/-! ## What a reader finds -/

/-- The range of virtual clusters in the header, and the mapping pairs in front of zeros. -/
structure StoresPairs (bytes pairs : Bytes) (lowestVcn fragmentClusters : ℕ) : Prop where
  lowest : leAt 8 bytes 16 = lowestVcn
  highest : leAt 8 bytes 24 + 1 = lowestVcn + fragmentClusters
  range : lowestVcn + fragmentClusters < wordBound
  pairs : ∃ tail, AllZero tail ∧ bytes.drop (leAt 2 bytes 32) = pairs ++ tail

/-- Mapping pairs written behind a header and, perhaps, a name are found by a reader. -/
theorem storesPairs_applyAll {front : List (Patch UInt8)} {pairs : Bytes}
    {lowestVcn fragmentClusters mappingOffset total : ℕ}
    (hascending : Ascending (front ++ [⟨mappingOffset, pairs⟩]))
    (hin : mappingOffset + pairs.length ≤ total) (hoffset : 40 ≤ mappingOffset)
    (hmapping : mappingOffset < 2 ^ 16) (hclusters : fragmentClusters ≠ 0)
    (hrange : lowestVcn + fragmentClusters < wordBound)
    (hlowest : put 8 16 lowestVcn ∈ front)
    (hhighest : put 8 24 (lowestVcn + fragmentClusters - 1) ∈ front)
    (hpairs : put 2 32 mappingOffset ∈ front) :
    StoresPairs (applyAll (front ++ [⟨mappingOffset, pairs⟩]) (zeros total)) pairs lowestVcn
      fragmentClusters := by
  have hword : wordBound = 256 ^ 8 := by unfold wordBound; norm_num
  have hfield : ∀ {n offset value : ℕ}, put n offset value ∈ front → offset + n ≤ total →
      value < 256 ^ n →
      leAt n (applyAll (front ++ [⟨mappingOffset, pairs⟩]) (zeros total)) offset = value := by
    intro n offset value hmem hle hvalue
    exact leAt_put hascending (List.mem_append_left _ hmem) hle hvalue
  have h32 := hfield hpairs (by omega) (by omega)
  refine ⟨hfield hlowest (by omega) (by omega), ?_, hrange, ?_⟩
  · rw [hfield hhighest (by omega) (by omega)]
    omega
  · refine ⟨zeros (total - (mappingOffset + pairs.length)), allZero_zeros _, ?_⟩
    rw [h32, drop_applyAll_last hascending (by rwa [length_zeros]), drop_zeros]

theorem checkedRange_eq_some {lowestVcn fragmentClusters highestVcn : ℕ} :
    (checkedAdd lowestVcn fragmentClusters).bind (checkedSub · 1) = some highestVcn ↔
      (lowestVcn + fragmentClusters < wordBound ∧ 1 ≤ lowestVcn + fragmentClusters) ∧
        lowestVcn + fragmentClusters - 1 = highestVcn := by
  simp only [Option.bind_eq_some_iff, checkedAdd_eq_some, checkedSub_eq_some]
  constructor
  · rintro ⟨stop, ⟨hlt, rfl⟩, hle, rfl⟩
    exact ⟨⟨hlt, hle⟩, rfl⟩
  · rintro ⟨⟨hlt, hle⟩, rfl⟩
    exact ⟨_, ⟨hlt, rfl⟩, hle, rfl⟩

theorem nonresidentHeader_le (sparse : Bool) :
    64 ≤ nonresidentHeader sparse ∧ nonresidentHeader sparse ≤ 72 := by
  cases sparse <;> exact ⟨by decide, by decide⟩

theorem nonresidentAttributeFromPairs_stores {attributeType : ℕ} {pairs : Bytes}
    {lowestVcn fragmentClusters logical initialized allocated id : ℕ} {sparse : Bool} {bytes : Bytes}
    (hclusters : fragmentClusters ≠ 0)
    (h : nonresidentAttributeFromPairs attributeType pairs lowestVcn fragmentClusters logical
      initialized allocated id sparse = .ok bytes) :
    StoresPairs bytes pairs lowestVcn fragmentClusters := by
  rw [nonresidentAttributeFromPairs, if_neg hclusters] at h
  simp only [bind_ok_iff, exists_const, ensure_ok_iff, orErr_ok_iff, checkedAdd_eq_some,
    checkedRange_eq_some, pure_eq_ok, Except.ok.injEq] at h
  obtain ⟨total, ⟨-, rfl⟩, highestVcn, ⟨⟨hrange, -⟩, rfl⟩, hsmall, rfl⟩ := h
  have hheader := nonresidentHeader_le sparse
  refine storesPairs_applyAll ?_ (le_alignEight hsmall) (by omega) (by omega) hclusters hrange
    (by simp) (by simp) (by simp)
  unfold Ascending sizeFields
  cases sparse <;> by_cases hlowest : lowestVcn = 0 <;>
    simp [hlowest, nonresidentHeader, nonresidentHeaderBytes, sparseNonresidentHeaderBytes]

theorem nonresidentNamedAttributeFromPairs_stores {attributeType : ℕ} {name : List UInt16}
    {pairs : Bytes} {lowestVcn fragmentClusters logical initialized allocated id : ℕ} {sparse : Bool}
    {bytes : Bytes} (h : nonresidentNamedAttributeFromPairs attributeType name pairs lowestVcn
      fragmentClusters logical initialized allocated id sparse = .ok bytes) :
    StoresPairs bytes pairs lowestVcn fragmentClusters := by
  simp only [nonresidentNamedAttributeFromPairs, bind_ok_iff, exists_const, ensure_ok_iff,
    orErr_ok_iff, checkedAdd_eq_some, checkedMul_eq_some, checkedRange_eq_some, pure_eq_ok,
    Except.ok.injEq, not_or] at h
  obtain ⟨⟨-, hclusters⟩, nameBytes, ⟨-, rfl⟩, nameEnd, ⟨-, rfl⟩, total, ⟨-, rfl⟩, highestVcn,
    ⟨⟨hrange, -⟩, rfl⟩, hsmall, -, hmapping, rfl⟩ := h
  have hheader := nonresidentHeader_le sparse
  have hname := le_alignEight (hmapping.trans (by norm_num [wordBound32]))
  rw [List.append_cons _ (⟨nonresidentHeader sparse, utf16Bytes name⟩ : Patch UInt8)]
  refine storesPairs_applyAll ?_ (le_alignEight hsmall) (by omega) hmapping hclusters hrange
    (by simp) (by simp) (by simp)
  unfold Ascending sizeFields
  cases sparse <;> by_cases hlowest : lowestVcn = 0 <;>
    simp [hlowest, nonresidentHeader, nonresidentHeaderBytes, sparseNonresidentHeaderBytes] at hname ⊢
  all_goals omega

end Ntfs

end StarConverter
