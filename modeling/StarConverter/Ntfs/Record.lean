import StarConverter.Base.Fields

/-!
# FILE records

The validation of an NTFS `FILE` record: the geometry of the buffer, the update sequence that
protects its sectors, the sizes in its header and the boundaries of its attributes. `recordAttributes`
cuts the attributes of an accepted record out of its repaired bytes.
-/

namespace StarConverter

open Base

namespace Ntfs

def minFileRecordHeaderLen : ℕ := 42
def maxFileRecordSize : ℕ := 16 * 1024 * 1024
def updateSequenceStride : ℕ := 512
def fileMagic : Bytes := ascii "FILE"
def ntfs31HeaderLen : ℕ := 48
def attributeHeaderLen : ℕ := 16
def attributeEnd : ℕ := 0xFFFFFFFF

inductive FileRecordHeaderVersion
  | legacy
  | ntfs31
  deriving DecidableEq

structure MftReference where
  recordNumber : ℕ
  sequenceNumber : ℕ
  deriving DecidableEq

structure FileRecordFlags where
  raw : ℕ
  unknownBits : ℕ
  deriving DecidableEq

namespace FileRecordFlags

def isInUse (flags : FileRecordFlags) : Bool := flags.raw.testBit 0

def isDirectory (flags : FileRecordFlags) : Bool := flags.raw.testBit 1

end FileRecordFlags

/-- A validated record and its repaired bytes. -/
structure NtfsFileRecord where
  repaired : Bytes
  headerVersion : FileRecordHeaderVersion
  updateSequenceOffset : ℕ
  updateSequenceCount : ℕ
  logFileSequenceNumber : ℕ
  sequenceNumber : ℕ
  hardLinkCount : ℕ
  attributesOffset : ℕ
  flags : FileRecordFlags
  bytesInUse : ℕ
  bytesAllocated : ℕ
  baseRecord : Option MftReference
  nextAttributeId : ℕ
  recordNumber : Option ℕ
  attributeCount : ℕ
  endMarkerOffset : ℕ
  deriving DecidableEq

inductive NtfsFileRecordError
  | truncated (actual required : ℕ)
  | recordTooLarge (actual maximum : ℕ)
  | recordSizeNotStrideAligned (recordSize stride : ℕ)
  | invalidMagic (found : Bytes)
  | invalidUpdateSequenceOffset (value : ℕ)
  | invalidUpdateSequenceCount (found expected : ℕ)
  | updateSequenceArrayOutOfBounds (offset length firstSectorLimit : ℕ)
  | updateSequenceOverlapsAttributes (updateSequenceEnd attributesOffset : ℕ)
  | fixupMismatch (sector found expected : ℕ)
  | invalidAllocatedSize (found recordSize : ℕ)
  | invalidUsedSize (found minimum allocated : ℕ)
  | usedSizeNotEightByteAligned (value : ℕ)
  | invalidAttributeOffset (value minimum used : ℕ)
  | attributeOffsetNotEightByteAligned (value : ℕ)
  | reservedFieldNotZero (value : ℕ)
  | truncatedAttributeHeader (offset remaining : ℕ)
  | invalidAttributeType (offset value : ℕ)
  | attributeTypesOutOfOrder (offset previous current : ℕ)
  | invalidAttributeLength (offset value remaining : ℕ)
  | invalidNonResidentFlag (offset value : ℕ)
  | missingEndMarker (attributesOffset used : ℕ)
  deriving DecidableEq

/-! ## Checks -/

def validateInputGeometry (bytes : Bytes) : Except NtfsFileRecordError Unit := do
  ensure (minFileRecordHeaderLen ≤ bytes.length) (.truncated bytes.length minFileRecordHeaderLen)
  ensure (bytes.length ≤ maxFileRecordSize) (.recordTooLarge bytes.length maxFileRecordSize)
  ensure (bytes.length % updateSequenceStride = 0)
    (.recordSizeNotStrideAligned bytes.length updateSequenceStride)

/-- The header generation told by the place of the update-sequence array. -/
def headerVersionAt (offset : ℕ) : Except NtfsFileRecordError FileRecordHeaderVersion :=
  if offset = minFileRecordHeaderLen then .ok .legacy
  else if ntfs31HeaderLen ≤ offset ∧ offset % 2 = 0 then .ok .ntfs31
  else .error (.invalidUpdateSequenceOffset offset)

def validateUpdateSequenceLayout (recordSize offset count : ℕ) :
    Except NtfsFileRecordError FileRecordHeaderVersion := do
  let version ← headerVersionAt offset
  let expected := 1 + recordSize / updateSequenceStride
  ensure (count = expected) (.invalidUpdateSequenceCount count expected)
  let firstSectorLimit := updateSequenceStride - 2
  ensure (offset + count * 2 ≤ firstSectorLimit)
    (.updateSequenceArrayOutOfBounds offset (count * 2) firstSectorLimit)
  pure version

def minimumHeader : FileRecordHeaderVersion → ℕ
  | .legacy => minFileRecordHeaderLen
  | .ntfs31 => ntfs31HeaderLen

def validateHeaderSizes (recordSize : ℕ) (version : FileRecordHeaderVersion)
    (updateSequenceOffset updateSequenceCount attributesOffset bytesInUse bytesAllocated : ℕ) :
    Except NtfsFileRecordError Unit := do
  ensure (bytesAllocated = recordSize) (.invalidAllocatedSize bytesAllocated recordSize)
  let minimum := minimumHeader version
  ensure (minimum + 4 ≤ bytesInUse ∧ bytesInUse ≤ recordSize)
    (.invalidUsedSize bytesInUse (minimum + 4) bytesAllocated)
  ensure (bytesInUse % 8 = 0) (.usedSizeNotEightByteAligned bytesInUse)
  ensure (attributesOffset % 8 = 0) (.attributeOffsetNotEightByteAligned attributesOffset)
  ensure (minimum ≤ attributesOffset ∧ attributesOffset + 4 ≤ bytesInUse)
    (.invalidAttributeOffset attributesOffset minimum bytesInUse)
  let updateSequenceEnd := updateSequenceOffset + updateSequenceCount * 2
  ensure (updateSequenceEnd ≤ attributesOffset)
    (.updateSequenceOverlapsAttributes updateSequenceEnd attributesOffset)

/-- Puts the words of the update-sequence array back to the ends of the sectors. -/
def fixSectors (bytes : Bytes) (arrayOffset updateSequenceNumber : ℕ) :
    List ℕ → Bytes → Except NtfsFileRecordError Bytes
  | [], repaired => pure repaired
  | sector :: rest, repaired => do
    let trailer := (sector + 1) * updateSequenceStride - 2
    let found := leAt 2 bytes trailer
    ensure (found = updateSequenceNumber) (.fixupMismatch sector found updateSequenceNumber)
    let replacement := sliceAt bytes (arrayOffset + (sector + 1) * 2) 2
    fixSectors bytes arrayOffset updateSequenceNumber rest (overwrite repaired trailer replacement)

def applyUpdateSequenceFixups (bytes : Bytes) (arrayOffset arrayCount : ℕ) :
    Except NtfsFileRecordError Bytes :=
  fixSectors bytes arrayOffset (leAt 2 bytes arrayOffset) (List.range (arrayCount - 1)) bytes

/-- Walks the attributes up to the end marker and returns how many there are and where it stands. An
attribute has at least a header, so as much fuel as there are bytes is enough. -/
def validateAttributesFrom (repaired : Bytes) (attributesOffset bytesInUse : ℕ) :
    ℕ → ℕ → ℕ → ℕ → Except NtfsFileRecordError (ℕ × ℕ)
  | 0, _, _, _ => .error (.missingEndMarker attributesOffset bytesInUse)
  | fuel + 1, offset, count, previousType =>
    if bytesInUse - offset < 4 then .error (.missingEndMarker attributesOffset bytesInUse)
    else
      let attributeType := leAt 4 repaired offset
      if attributeType = attributeEnd then pure (count, offset)
      else do
        let remaining := bytesInUse - offset
        ensure (attributeHeaderLen ≤ remaining) (.truncatedAttributeHeader offset remaining)
        ensure (attributeType ≠ 0) (.invalidAttributeType offset attributeType)
        ensure (previousType ≤ attributeType)
          (.attributeTypesOutOfOrder offset previousType attributeType)
        let length := leAt 4 repaired (offset + 4)
        ensure (attributeHeaderLen ≤ length ∧ length ≤ remaining ∧ length % 8 = 0)
          (.invalidAttributeLength offset length remaining)
        let nonResident := (repaired.getD (offset + 8) 0).toNat
        ensure (nonResident ≤ 1) (.invalidNonResidentFlag offset nonResident)
        validateAttributesFrom repaired attributesOffset bytesInUse fuel (offset + length)
          (count + 1) attributeType

def validateAttributeList (repaired : Bytes) (attributesOffset bytesInUse : ℕ) :
    Except NtfsFileRecordError (ℕ × ℕ) :=
  validateAttributesFrom repaired attributesOffset bytesInUse bytesInUse attributesOffset 0 0x10

def decodeMftReference (raw : ℕ) : MftReference := ⟨raw % 2 ^ 48, raw / 2 ^ 48⟩

/-- The record number of an NTFS 3.1 header. -/
def headerRecordNumber (bytes : Bytes) : FileRecordHeaderVersion →
    Except NtfsFileRecordError (Option ℕ)
  | .legacy => .ok none
  | .ntfs31 => do
    let reserved := leAt 2 bytes 42
    ensure (reserved = 0) (.reservedFieldNotZero reserved)
    pure (some (leAt 4 bytes 44))

def parseFileRecord (bytes : Bytes) : Except NtfsFileRecordError NtfsFileRecord := do
  validateInputGeometry bytes
  let magic := sliceAt bytes 0 4
  ensure (magic = fileMagic) (.invalidMagic magic)
  let updateSequenceOffset := leAt 2 bytes 4
  let updateSequenceCount := leAt 2 bytes 6
  let headerVersion ←
    validateUpdateSequenceLayout bytes.length updateSequenceOffset updateSequenceCount
  let attributesOffset := leAt 2 bytes 20
  let bytesInUse := leAt 4 bytes 24
  let bytesAllocated := leAt 4 bytes 28
  validateHeaderSizes bytes.length headerVersion updateSequenceOffset updateSequenceCount
    attributesOffset bytesInUse bytesAllocated
  let recordNumber ← headerRecordNumber bytes headerVersion
  let repaired ← applyUpdateSequenceFixups bytes updateSequenceOffset updateSequenceCount
  let walked ← validateAttributeList repaired attributesOffset bytesInUse
  let rawFlags := leAt 2 repaired 22
  let baseRaw := leAt 8 repaired 32
  pure
    { repaired
      headerVersion
      updateSequenceOffset
      updateSequenceCount
      logFileSequenceNumber := leAt 8 bytes 8
      sequenceNumber := leAt 2 bytes 16
      hardLinkCount := leAt 2 bytes 18
      attributesOffset
      flags := ⟨rawFlags, rawFlags / 16 * 16⟩
      bytesInUse
      bytesAllocated
      baseRecord := if baseRaw ≠ 0 then some (decodeMftReference baseRaw) else none
      nextAttributeId := leAt 2 bytes 40
      recordNumber
      attributeCount := walked.1
      endMarkerOffset := walked.2 }

/-! ## The attributes of a record -/

/-- The next `count` attributes from an offset on, cut by their length fields. -/
def attributesFrom (bytes : Bytes) : ℕ → ℕ → List Bytes
  | 0, _ => []
  | count + 1, offset =>
    let length := leAt 4 bytes (offset + 4)
    sliceAt bytes offset length :: attributesFrom bytes count (offset + length)

/-- The attributes of an accepted record. -/
def recordAttributes (record : NtfsFileRecord) : List Bytes :=
  attributesFrom record.repaired record.attributeCount record.attributesOffset

/-- The type of an attribute. -/
def typeOf (attr : Bytes) : ℕ := leAt 4 attr 0

/-- An attribute as the encoders write it: whole eight-byte units with its length in the header. -/
structure EncodedAttribute (attr : Bytes) : Prop where
  header : attributeHeaderLen ≤ attr.length
  aligned : attr.length % 8 = 0
  length : leAt 4 attr 4 = attr.length
  flag : (attr.getD 8 0).toNat ≤ 1
  known : 0x10 ≤ typeOf attr
  notEnd : typeOf attr < attributeEnd

/-- Attributes that stand one behind the other from an offset on. -/
def AttributesAt (bytes : Bytes) : ℕ → List Bytes → ℕ → Prop
  | offset, [], stop => offset = stop
  | offset, attr :: rest, stop =>
    FieldAt bytes offset attr ∧ AttributesAt bytes (offset + attr.length) rest stop

theorem AttributesAt.stop_eq {bytes : Bytes} {offset stop : ℕ} {attrs : List Bytes}
    (h : AttributesAt bytes offset attrs stop) : stop = offset + (attrs.map List.length).sum := by
  induction attrs generalizing offset with
  | nil => exact h.symm
  | cons attr rest ih =>
    rw [ih h.2, List.map_cons, List.sum_cons, Nat.add_assoc]

/-- A word of a field is the word of the string at the field's place. -/
theorem leAt_fieldAt {bytes s : Bytes} {offset n i : ℕ} (h : FieldAt bytes offset s)
    (hi : i + n ≤ s.length) : leAt n bytes (offset + i) = leAt n s i := by
  unfold leAt
  conv_rhs => rw [← h.2, sliceAt_sliceAt hi]

theorem getD_fieldAt {bytes s : Bytes} {offset i : ℕ} (h : FieldAt bytes offset s)
    (hi : i < s.length) : bytes.getD (offset + i) 0 = s.getD i 0 := by
  rw [List.getD_eq_getElem?_getD, List.getD_eq_getElem?_getD]
  conv_rhs => rw [← h.2, getElem?_sliceAt, if_pos hi]

theorem attributesFrom_eq {bytes : Bytes} {offset stop : ℕ} {attrs : List Bytes}
    (h : AttributesAt bytes offset attrs stop) (hencoded : ∀ attr ∈ attrs, EncodedAttribute attr) :
    attributesFrom bytes attrs.length offset = attrs := by
  induction attrs generalizing offset with
  | nil => rfl
  | cons attr rest ih =>
    obtain ⟨hfield, hrest⟩ := h
    have hattr := hencoded attr List.mem_cons_self
    have hheader := hattr.header
    have hlength : leAt 4 bytes (offset + 4) = attr.length := by
      rw [leAt_fieldAt hfield (by unfold attributeHeaderLen at hheader; omega), hattr.length]
    rw [List.length_cons, attributesFrom, hlength, hfield.2,
      ih hrest fun a ha => hencoded a (List.mem_cons_of_mem _ ha)]

/-- Encoded attributes in type order before an end marker are accepted. -/
theorem validateAttributesFrom_ok {repaired : Bytes} {attributesOffset bytesInUse : ℕ}
    {attrs : List Bytes} {fuel offset stop count previousType : ℕ}
    (h : AttributesAt repaired offset attrs stop)
    (hend : FieldAt repaired stop (toLe 4 attributeEnd)) (hused : stop + 8 ≤ bytesInUse)
    (hencoded : ∀ attr ∈ attrs, EncodedAttribute attr)
    (hsorted : (previousType :: attrs.map typeOf).Pairwise (· ≤ ·))
    (hfuel : attrs.length < fuel) :
    validateAttributesFrom repaired attributesOffset bytesInUse fuel offset count previousType =
      .ok (count + attrs.length, stop) := by
  induction attrs generalizing fuel offset count previousType with
  | nil =>
    obtain ⟨fuel, rfl⟩ : ∃ k, fuel = k + 1 := ⟨fuel - 1, by simp at hfuel; omega⟩
    obtain rfl : offset = stop := h
    rw [validateAttributesFrom, if_neg (by omega), hend.leAt (by decide), if_pos rfl]
    rfl
  | cons attr rest ih =>
    obtain ⟨fuel, rfl⟩ : ∃ k, fuel = k + 1 := ⟨fuel - 1, by simp at hfuel; omega⟩
    obtain ⟨hfield, hrest⟩ := h
    obtain ⟨hheader, haligned, hlength, hflag, hknown, hnotEnd⟩ := hencoded attr List.mem_cons_self
    have hstop := hrest.stop_eq
    have h16 : 16 ≤ attr.length := hheader
    have htype : leAt 4 repaired offset = typeOf attr := by
      have := leAt_fieldAt (i := 0) (n := 4) hfield (by omega)
      exact this
    have hlen : leAt 4 repaired (offset + 4) = attr.length := by
      rw [leAt_fieldAt hfield (by omega), hlength]
    have hresident : (repaired.getD (offset + 8) 0).toNat ≤ 1 := by
      rwa [getD_fieldAt hfield (by omega)]
    rw [List.map_cons, List.pairwise_cons] at hsorted
    have hprevious : previousType ≤ typeOf attr := hsorted.1 _ List.mem_cons_self
    rw [validateAttributesFrom, if_neg (by omega)]
    dsimp only
    rw [htype, if_neg (Nat.ne_of_lt hnotEnd), ensure_of (by unfold attributeHeaderLen; omega),
      ok_bind, ensure_of (by omega), ok_bind, ensure_of hprevious, ok_bind, hlen,
      ensure_of ⟨hheader, by omega, haligned⟩, ok_bind, ensure_of hresident, ok_bind,
      ih hrest (fun a ha => hencoded a (List.mem_cons_of_mem _ ha)) hsorted.2 (by simpa using hfuel),
      List.length_cons]
    congr 2
    omega

/-- Attributes are accepted in type order only. -/
theorem sorted_of_validateAttributesFrom {repaired : Bytes} {attributesOffset bytesInUse : ℕ}
    {attrs : List Bytes} {fuel offset stop count previousType : ℕ} {walked : ℕ × ℕ}
    (h : validateAttributesFrom repaired attributesOffset bytesInUse fuel offset count previousType =
      .ok walked)
    (hattrs : AttributesAt repaired offset attrs stop)
    (hencoded : ∀ attr ∈ attrs, EncodedAttribute attr) :
    (previousType :: attrs.map typeOf).IsChain (· ≤ ·) := by
  induction attrs generalizing fuel offset count previousType with
  | nil => exact List.isChain_singleton _
  | cons attr rest ih =>
    obtain ⟨hfield, hrest⟩ := hattrs
    obtain ⟨hheader, -, hlength, -, -, hnotEnd⟩ := hencoded attr List.mem_cons_self
    have h16 : 16 ≤ attr.length := hheader
    have htype : leAt 4 repaired offset = typeOf attr := by
      have := leAt_fieldAt (i := 0) (n := 4) hfield (by omega)
      exact this
    have hlen : leAt 4 repaired (offset + 4) = attr.length := by
      rw [leAt_fieldAt hfield (by omega), hlength]
    cases fuel with
    | zero => cases h
    | succ fuel =>
      rw [validateAttributesFrom] at h
      split_ifs at h
      dsimp only at h
      rw [htype, if_neg (Nat.ne_of_lt hnotEnd), hlen] at h
      simp only [bind_ok_iff, exists_const, ensure_ok_iff] at h
      obtain ⟨-, -, hprevious, -, -, h⟩ := h
      exact List.isChain_cons_cons.2
        ⟨hprevious, ih h hrest fun a ha => hencoded a (List.mem_cons_of_mem _ ha)⟩

end Ntfs

end StarConverter
