import StarConverter.Ntfs.Attribute
import StarConverter.Ntfs.Record

/-!
# Writing FILE records

A record is a zeroed buffer with its header, its attributes and an end marker; the last two bytes of
each sector are moved into the update-sequence array. `recordImage_finishRecord` says what stands in
a written record, `RecordImage.withReference` what a base reference changes, and `RecordImage.parse`
reads it back: the parser accepts the record, with exactly the attributes it was written from.
-/

namespace StarConverter

open Base

namespace Ntfs

def fileRecordInUse : ℕ := 0x0001
def fileRecordDirectory : ℕ := 0x0002
def usaOffset : ℕ := 48
def usaValue : ℕ := 0xA55A

/-- The sequence number of a freshly formatted record. -/
def recordSequence (recordNumber : ℕ) : ℕ :=
  if 1 ≤ recordNumber ∧ recordNumber ≤ 23 then recordNumber else 1

def mftReferenceWithSequence (recordNumber sequenceNumber : ℕ) : ℕ :=
  sequenceNumber <<< 48 ||| recordNumber

/-- Places attributes one behind the other; a record keeps room for its end marker. -/
def placeAttributes (recordNumber : ℕ) :
    ℕ → List Bytes → Except NtfsSerializeError (List (Patch UInt8) × ℕ)
  | cursor, [] => pure ([], cursor)
  | cursor, attr :: rest => do
    let stop ← orErr (checkedAdd cursor attr.length) .arithmeticOverflow
    ensure (¬ (checkedAdd stop 8).all (recordBytes - 2 < ·)) (.recordOverflow recordNumber)
    let more ← placeAttributes recordNumber stop rest
    pure (⟨cursor, attr⟩ :: more.1, more.2)

/-- The header of a record. -/
def headerPatches (recordNumber sequenceNumber flags hardLinks used count : ℕ) :
    List (Patch UInt8) :=
  [⟨0, fileMagic⟩, put 2 4 48, put 2 6 3, put 2 16 sequenceNumber, put 2 18 hardLinks, put 2 20 56,
    put 2 22 flags, put 4 24 used, put 4 28 1024,
    put 2 40 (if count < 2 ^ 16 then count else 2 ^ 16 - 1), put 4 44 recordNumber,
    put 2 usaOffset usaValue]

/-- The record as a reader restores it, without the words in the update-sequence array. -/
def unprotectedRecord (recordNumber sequenceNumber flags hardLinks count : ℕ)
    (placed : List (Patch UInt8)) (cursor : ℕ) : Bytes :=
  applyAll (headerPatches recordNumber sequenceNumber flags hardLinks (alignEight (cursor + 4)) count ++
    (placed ++ [put 4 cursor endAttribute])) (zeros recordBytes)

/-- Moves the ends of the sectors into the update-sequence array. -/
def protectRecord (repaired : Bytes) : Bytes :=
  applyAll [put 2 (usaOffset + 2) (leAt 2 repaired 510), put 2 (usaOffset + 4) (leAt 2 repaired 1022),
    put 2 510 usaValue, put 2 1022 usaValue] repaired

def finishRecordWithSequence (recordNumber sequenceNumber flags hardLinks : ℕ)
    (attributes : List Bytes) : Except NtfsSerializeError Bytes := do
  ensure (recordNumber < wordBound32) .arithmeticOverflow
  let placed ← placeAttributes recordNumber attributesOffset attributes
  pure <| protectRecord (unprotectedRecord recordNumber sequenceNumber flags hardLinks
    attributes.length placed.1 placed.2)

def finishRecord (recordNumber flags hardLinks : ℕ) (attributes : List Bytes) :
    Except NtfsSerializeError Bytes :=
  finishRecordWithSequence recordNumber (recordSequence recordNumber) flags hardLinks attributes

/-- Writes the reference to the base record into an extension record. -/
def withBaseReference (baseRecord : ℕ) (bytes : Bytes) : Bytes :=
  (put 8 32 (mftReferenceWithSequence baseRecord (recordSequence baseRecord))).apply bytes

/-! ## Where the attributes stand -/

/-- Attributes one behind the other, as patches. -/
def placedAt : ℕ → List Bytes → List (Patch UInt8)
  | _, [] => []
  | cursor, attr :: rest => ⟨cursor, attr⟩ :: placedAt (cursor + attr.length) rest

theorem placeAttributes_ok {recordNumber cursor : ℕ} {attrs : List Bytes}
    {placed : List (Patch UInt8) × ℕ} (h : placeAttributes recordNumber cursor attrs = .ok placed)
    (hcursor : cursor + 8 ≤ recordBytes - 2) :
    placed = (placedAt cursor attrs, cursor + (attrs.map List.length).sum) ∧
      cursor + (attrs.map List.length).sum + 8 ≤ recordBytes - 2 := by
  induction attrs generalizing cursor placed with
  | nil =>
    rw [placeAttributes, pure_eq_ok, Except.ok.injEq] at h
    exact ⟨h.symm, hcursor⟩
  | cons attr rest ih =>
    simp only [placeAttributes, bind_ok_iff, exists_const, ensure_ok_iff, orErr_ok_iff,
      checkedAdd_eq_some, pure_eq_ok, Except.ok.injEq] at h
    obtain ⟨stop, ⟨hstop, rfl⟩, hroom, more, hmore, rfl⟩ := h
    have hle : cursor + attr.length + 8 ≤ recordBytes - 2 := by
      by_contra hgt
      refine hroom ?_
      unfold checkedAdd
      split
      · simp only [Option.all_some, decide_eq_true_eq]
        omega
      · rfl
    obtain ⟨rfl, hfit⟩ := ih hmore hle
    rw [List.map_cons, List.sum_cons, ← Nat.add_assoc]
    exact ⟨rfl, hfit⟩

theorem mem_placedAt {cursor : ℕ} {attrs : List Bytes} {p : Patch UInt8}
    (h : p ∈ placedAt cursor attrs) :
    cursor ≤ p.offset ∧ p.offset + p.bytes.length ≤ cursor + (attrs.map List.length).sum := by
  induction attrs generalizing cursor with
  | nil => cases h
  | cons attr rest ih =>
    rw [List.map_cons, List.sum_cons]
    rcases List.mem_cons.1 h with rfl | h
    · exact ⟨le_rfl, by dsimp only; omega⟩
    · have := ih h
      omega

theorem ascending_placedAt (cursor : ℕ) (attrs : List Bytes) {last : Patch UInt8}
    (hlast : cursor + (attrs.map List.length).sum ≤ last.offset) :
    Ascending (placedAt cursor attrs ++ [last]) := by
  induction attrs generalizing cursor with
  | nil => exact List.isChain_singleton _
  | cons attr rest ih =>
    rw [List.map_cons, List.sum_cons] at hlast
    have hrest := ih (cursor + attr.length) (by omega)
    cases rest with
    | nil => exact List.isChain_cons_cons.2 ⟨by simp at hlast ⊢; omega, hrest⟩
    | cons next rest => exact List.isChain_cons_cons.2 ⟨le_rfl, hrest⟩

theorem attributesAt_of_fields {bytes : Bytes} {cursor : ℕ} {attrs : List Bytes}
    (h : ∀ p ∈ placedAt cursor attrs, FieldAt bytes p.offset p.bytes) :
    AttributesAt bytes cursor attrs (cursor + (attrs.map List.length).sum) := by
  induction attrs generalizing cursor with
  | nil => rfl
  | cons attr rest ih =>
    rw [List.map_cons, List.sum_cons, ← Nat.add_assoc]
    exact ⟨h ⟨cursor, attr⟩ List.mem_cons_self, ih fun p hp => h p (List.mem_cons_of_mem _ hp)⟩

theorem AttributesAt.overwrite {bytes new : Bytes} {offset off stop : ℕ} {attrs : List Bytes}
    (h : AttributesAt bytes offset attrs stop) (hoff : off + new.length ≤ offset) :
    AttributesAt (overwrite bytes off new) offset attrs stop := by
  induction attrs generalizing offset with
  | nil => exact h
  | cons attr rest ih => exact ⟨h.1.overwrite (Or.inl hoff), ih h.2 (by omega)⟩

/-! ## What the parser finds in a record -/

/-- Where the attributes of a record end. -/
def attributesStop (attrs : List Bytes) : ℕ := attributesOffset + (attrs.map List.length).sum

/-- A protected record, what it is restored to, and the fields it was written from. -/
structure RecordImage (bytes restored : Bytes)
    (recordNumber sequenceNumber flags hardLinks reference : ℕ) (attrs : List Bytes) : Prop where
  length : bytes.length = recordBytes
  header : ∀ p ∈ headerPatches recordNumber sequenceNumber flags hardLinks
    (alignEight (attributesStop attrs + 4)) attrs.length, FieldAt bytes p.offset p.bytes
  reserved : FieldAt bytes 42 (toLe 2 0)
  flags : FieldAt restored 22 (toLe 2 flags)
  reference : FieldAt restored 32 (toLe 8 reference)
  first : FieldAt bytes 510 (toLe 2 usaValue)
  second : FieldAt bytes 1022 (toLe 2 usaValue)
  repaired : overwrite (overwrite bytes 510 (sliceAt bytes 50 2)) 1022 (sliceAt bytes 52 2) = restored
  attributes : AttributesAt restored attributesOffset attrs (attributesStop attrs)
  stop : FieldAt restored (attributesStop attrs) (toLe 4 endAttribute)
  room : attributesStop attrs + 8 ≤ recordBytes - 2

section Image

variable {recordNumber sequenceNumber flags hardLinks used count : ℕ}

theorem headerPatches_apart {p : Patch UInt8}
    (h : p ∈ headerPatches recordNumber sequenceNumber flags hardLinks used count) :
    p.offset + p.bytes.length ≤ 50 ∧ (p.offset + p.bytes.length ≤ 32 ∨ 40 ≤ p.offset) ∧
      (p.offset + p.bytes.length ≤ 42 ∨ 44 ≤ p.offset) := by
  have hall : ∀ p ∈ headerPatches recordNumber sequenceNumber flags hardLinks used count,
      p.offset + p.bytes.length ≤ 50 ∧ (p.offset + p.bytes.length ≤ 32 ∨ 40 ≤ p.offset) ∧
        (p.offset + p.bytes.length ≤ 42 ∨ 44 ≤ p.offset) := by
    have hmagic : fileMagic.length = 4 := rfl
    simp [headerPatches, hmagic, usaOffset]
  exact hall p h

theorem ascending_headerPatches {rest : List (Patch UInt8)} (hrest : Ascending rest)
    (hfrom : ∀ p ∈ rest, attributesOffset ≤ p.offset) :
    Ascending (headerPatches recordNumber sequenceNumber flags hardLinks used count ++ rest) := by
  refine List.isChain_append.2 ⟨?_, hrest, ?_⟩
  · have hmagic : fileMagic.length = 4 := rfl
    simp [headerPatches, hmagic, usaOffset]
  · intro p hp q hq
    have hlast := (headerPatches_apart (List.mem_of_mem_getLast? hp)).1
    have hfirst := hfrom q (List.mem_of_mem_head? hq)
    unfold attributesOffset at hfirst
    omega

end Image

/-- A record before its sectors are protected, and the fields it was written from. -/
structure RawRecord (raw : Bytes) (recordNumber sequenceNumber flags hardLinks : ℕ)
    (attrs : List Bytes) : Prop where
  length : raw.length = recordBytes
  header : ∀ p ∈ headerPatches recordNumber sequenceNumber flags hardLinks
    (alignEight (attributesStop attrs + 4)) attrs.length, FieldAt raw p.offset p.bytes
  reserved : FieldAt raw 42 (toLe 2 0)
  reference : FieldAt raw 32 (toLe 8 0)
  attributes : ∀ p ∈ placedAt attributesOffset attrs, FieldAt raw p.offset p.bytes
  stop : FieldAt raw (attributesStop attrs) (toLe 4 endAttribute)

theorem rawRecord_unprotectedRecord {recordNumber sequenceNumber flags hardLinks : ℕ}
    {attrs : List Bytes} (hroom : attributesStop attrs + 8 ≤ recordBytes - 2) :
    RawRecord (unprotectedRecord recordNumber sequenceNumber flags hardLinks attrs.length
        (placedAt attributesOffset attrs) (attributesStop attrs))
      recordNumber sequenceNumber flags hardLinks attrs := by
  have hlimit : recordBytes = 1024 := rfl
  have hoffset : attributesOffset = 56 := rfl
  have hstop : attributesOffset ≤ attributesStop attrs := Nat.le_add_right _ _
  unfold unprotectedRecord
  set tail := placedAt attributesOffset attrs ++ [put 4 (attributesStop attrs) endAttribute]
    with htail
  set header := headerPatches recordNumber sequenceNumber flags hardLinks
    (alignEight (attributesStop attrs + 4)) attrs.length with hheader
  have htailFrom : ∀ p ∈ tail, attributesOffset ≤ p.offset ∧
      p.offset + p.bytes.length ≤ recordBytes - 2 := by
    intro p hp
    rcases List.mem_append.1 hp with hp | hp
    · have hplaced := mem_placedAt hp
      have hsum : attributesOffset + (attrs.map List.length).sum = attributesStop attrs := rfl
      exact ⟨hplaced.1, by omega⟩
    · rw [List.mem_singleton.1 hp, put_offset, length_put]
      omega
  have hascending : Ascending (header ++ tail) :=
    ascending_headerPatches (ascending_placedAt _ _ le_rfl) fun p hp => (htailFrom p hp).1
  have hfield : ∀ p ∈ header ++ tail,
      FieldAt (applyAll (header ++ tail) (zeros recordBytes)) p.offset p.bytes := by
    intro p hp
    refine fieldAt_applyAll hascending hp ?_
    rw [length_zeros]
    rcases List.mem_append.1 hp with hp | hp
    · have := (headerPatches_apart hp).1
      omega
    · exact (htailFrom p hp).2.trans (Nat.sub_le _ _)
  have huntouched : ∀ n offset : ℕ, offset + n ≤ attributesOffset →
      (∀ p ∈ header, p.offset + p.bytes.length ≤ offset ∨ offset + n ≤ p.offset) →
      FieldAt (applyAll (header ++ tail) (zeros recordBytes)) offset (toLe n 0) := by
    intro n offset hle hapart
    rw [toLe_zero]
    refine (fieldAt_zeros (by omega)).applyAll fun p hp => ?_
    rw [length_zeros]
    rcases List.mem_append.1 hp with hp | hp
    · exact hapart p hp
    · exact Or.inr (hle.trans (htailFrom p hp).1)
  refine ⟨?_, ?_, ?_, ?_, ?_, ?_⟩
  · rw [length_applyAll, length_zeros]
  · exact fun p hp => hfield p (List.mem_append_left _ hp)
  · exact huntouched 2 42 (by omega) fun p hp => (headerPatches_apart hp).2.2
  · exact huntouched 8 32 (by omega) fun p hp => (headerPatches_apart hp).2.1
  · exact fun p hp => hfield p (List.mem_append_right _ (List.mem_append_left _ hp))
  · exact hfield (put 4 (attributesStop attrs) endAttribute) (by simp [htail])

/-- The record with the ends of its sectors saved in the update-sequence array. -/
def savedRecord (raw : Bytes) : Bytes :=
  applyAll [put 2 (usaOffset + 2) (leAt 2 raw 510), put 2 (usaOffset + 4) (leAt 2 raw 1022)] raw

theorem protectRecord_eq (raw : Bytes) :
    protectRecord raw = applyAll [put 2 510 usaValue, put 2 1022 usaValue] (savedRecord raw) := rfl

theorem FieldAt.saved {raw s : Bytes} {offset : ℕ} (h : FieldAt raw offset s)
    (hapart : offset + s.length ≤ 50 ∨ 54 ≤ offset) : FieldAt (savedRecord raw) offset s := by
  refine h.applyAll ?_
  simp only [List.mem_cons, List.not_mem_nil, or_false, forall_eq_or_imp, forall_eq, put_offset,
    length_put, usaOffset]
  omega

theorem FieldAt.protect {raw s : Bytes} {offset : ℕ} (h : FieldAt (savedRecord raw) offset s)
    (hapart : offset + s.length ≤ 510) : FieldAt (protectRecord raw) offset s := by
  rw [protectRecord_eq]
  refine h.applyAll ?_
  simp only [List.mem_cons, List.not_mem_nil, or_false, forall_eq_or_imp, forall_eq, put_offset,
    length_put]
  omega

theorem toLe_leAt {n offset : ℕ} {bytes : Bytes} (h : offset + n ≤ bytes.length) :
    toLe n (leAt n bytes offset) = sliceAt bytes offset n := by
  have hself := toLe_fromLe (sliceAt bytes offset n)
  rwa [length_sliceAt_of_le h] at hself

/-- The words saved in the update-sequence array. -/
theorem savedRecord_words {raw : Bytes} (hlength : raw.length = recordBytes) :
    FieldAt (savedRecord raw) 50 (sliceAt raw 510 2) ∧
      FieldAt (savedRecord raw) 52 (sliceAt raw 1022 2) := by
  have hlimit : raw.length = 1024 := hlength
  have hascending : Ascending [put 2 (usaOffset + 2) (leAt 2 raw 510),
      put 2 (usaOffset + 4) (leAt 2 raw 1022)] := by
    simp [Ascending, usaOffset]
  rw [← toLe_leAt (by omega), ← toLe_leAt (by omega)]
  constructor
  · exact fieldAt_applyAll hascending (p := put 2 (usaOffset + 2) (leAt 2 raw 510)) (by simp)
      (by rw [put_offset, length_put, usaOffset]; omega)
  · exact fieldAt_applyAll hascending (p := put 2 (usaOffset + 4) (leAt 2 raw 1022)) (by simp)
      (by rw [put_offset, length_put, usaOffset]; omega)

/-- Restoring the ends of the sectors undoes their protection. -/
theorem restore_protectRecord {raw : Bytes} (hlength : raw.length = recordBytes) :
    overwrite (overwrite (protectRecord raw) 510 (sliceAt (protectRecord raw) 50 2)) 1022
      (sliceAt (protectRecord raw) 52 2) = savedRecord raw := by
  have hlimit : raw.length = 1024 := hlength
  obtain ⟨hfirst, hsecond⟩ := savedRecord_words hlength
  have hlen510 : (sliceAt raw 510 2).length = 2 := length_sliceAt_of_le (by omega)
  have hlen1022 : (sliceAt raw 1022 2).length = 2 := length_sliceAt_of_le (by omega)
  rw [(FieldAt.protect hfirst (by omega)).slice hlen510,
    (FieldAt.protect hsecond (by omega)).slice hlen1022]
  have hself : ∀ place, 54 ≤ place → place + 2 ≤ 1024 →
      sliceAt (savedRecord raw) place 2 = sliceAt raw place 2 := by
    intro place hfrom hto
    have hlen : (sliceAt raw place 2).length = 2 := length_sliceAt_of_le (by omega)
    have hfield : FieldAt raw place (sliceAt raw place 2) := ⟨by omega, by rw [hlen]⟩
    exact (FieldAt.saved hfield (Or.inr hfrom)).slice hlen
  show applyAll [⟨510, sliceAt raw 510 2⟩, ⟨1022, sliceAt raw 1022 2⟩] (protectRecord raw) = _
  refine applyAll_eq_of_matches ?_ ?_ ?_
  · rw [protectRecord_eq, length_applyAll]
  · intro p hp
    simp only [List.mem_cons, List.not_mem_nil, or_false] at hp
    rcases hp with rfl | rfl
    · show sliceAt (savedRecord raw) 510 (sliceAt raw 510 2).length = _
      rw [hlen510, hself 510 (by omega) (by omega)]
    · show sliceAt (savedRecord raw) 1022 (sliceAt raw 1022 2).length = _
      rw [hlen1022, hself 1022 (by omega) (by omega)]
  · intro x hx
    rw [protectRecord_eq]
    refine getElem?_applyAll_of_not_mem fun hmem => hx ?_
    rw [mem_touched] at hmem ⊢
    simp only [List.mem_cons, List.not_mem_nil, or_false, exists_eq_or_imp, exists_eq_left,
      Patch.mem_span, put_offset, length_put, hlen510, hlen1022] at hmem ⊢
    exact hmem

theorem RawRecord.protect {raw : Bytes} {recordNumber sequenceNumber flags hardLinks : ℕ}
    {attrs : List Bytes} (h : RawRecord raw recordNumber sequenceNumber flags hardLinks attrs)
    (hroom : attributesStop attrs + 8 ≤ recordBytes - 2) :
    RecordImage (protectRecord raw) (savedRecord raw) recordNumber sequenceNumber flags hardLinks 0
      attrs := by
  have hlimit : raw.length = 1024 := h.length
  have hrecord : recordBytes = 1024 := rfl
  have hstop : 56 ≤ attributesStop attrs := Nat.le_add_right _ _
  have husa : ∀ place, put 2 place usaValue ∈ [put 2 510 usaValue, put 2 1022 usaValue] →
      place + 2 ≤ 1024 → FieldAt (protectRecord raw) place (toLe 2 usaValue) := by
    intro place hmem hle
    have hascending : Ascending [put 2 510 usaValue, put 2 1022 usaValue] := by
      simp [Ascending]
    rw [protectRecord_eq]
    refine fieldAt_applyAll hascending hmem ?_
    rw [put_offset, length_put, savedRecord, length_applyAll]
    omega
  refine ⟨?_, ?_, ?_, ?_, ?_, ?_, ?_, restore_protectRecord h.length, ?_, ?_, hroom⟩
  · rw [protectRecord_eq, length_applyAll, savedRecord, length_applyAll, h.length]
  · intro p hp
    have hapart := (headerPatches_apart hp).1
    exact FieldAt.protect (FieldAt.saved (h.header p hp) (Or.inl hapart)) (by omega)
  · exact FieldAt.protect (FieldAt.saved h.reserved (by simp)) (by simp)
  · exact FieldAt.saved (h.header (put 2 22 flags) (by simp [headerPatches])) (by simp)
  · exact FieldAt.saved h.reference (by simp)
  · exact husa 510 (by simp) (by omega)
  · exact husa 1022 (by simp) (by omega)
  · refine attributesAt_of_fields fun p hp => FieldAt.saved (h.attributes p hp) (Or.inr ?_)
    have hplaced := (mem_placedAt hp).1
    unfold attributesOffset at hplaced
    omega
  · exact FieldAt.saved h.stop (Or.inr (by omega))

/-- A written record is what its fields say. -/
theorem recordImage_finishRecord {recordNumber sequenceNumber flags hardLinks : ℕ}
    {attrs : List Bytes} {bytes : Bytes}
    (h : finishRecordWithSequence recordNumber sequenceNumber flags hardLinks attrs = .ok bytes) :
    recordNumber < wordBound32 ∧ ∃ restored,
      RecordImage bytes restored recordNumber sequenceNumber flags hardLinks 0 attrs := by
  simp only [finishRecordWithSequence, bind_ok_iff, exists_const, ensure_ok_iff, pure_eq_ok,
    Except.ok.injEq] at h
  obtain ⟨hnumber, placed, hplaced, rfl⟩ := h
  obtain ⟨rfl, hroom⟩ := placeAttributes_ok hplaced (by decide)
  exact ⟨hnumber, _, (rawRecord_unprotectedRecord hroom).protect hroom⟩

/-- The base reference is written into a protected record. -/
theorem RecordImage.withReference {bytes restored : Bytes}
    {recordNumber sequenceNumber flags hardLinks reference : ℕ} {attrs : List Bytes}
    (h : RecordImage bytes restored recordNumber sequenceNumber flags hardLinks 0 attrs) :
    RecordImage (overwrite bytes 32 (toLe 8 reference)) (overwrite restored 32 (toLe 8 reference))
      recordNumber sequenceNumber flags hardLinks reference attrs := by
  have hlength : bytes.length = 1024 := h.length
  have hstop : 56 ≤ attributesStop attrs := Nat.le_add_right _ _
  have hrestored : restored.length = 1024 := by
    rw [← h.repaired, length_overwrite, length_overwrite, hlength]
  have hslice : ∀ place, 40 ≤ place →
      sliceAt (overwrite bytes 32 (toLe 8 reference)) place 2 = sliceAt bytes place 2 := by
    intro place hplace
    refine sliceAt_overwrite_of_disjoint fun x h1 h2 => ?_
    rw [length_toLe]
    omega
  have hlen : ∀ place, place + 2 ≤ 1024 → (sliceAt bytes place 2).length = 2 := fun place hle =>
    length_sliceAt_of_le (by omega)
  refine ⟨?_, ?_, ?_, ?_, ?_, ?_, ?_, ?_, ?_, ?_, h.room⟩
  · rw [length_overwrite, h.length]
  · intro p hp
    have hapart := (headerPatches_apart hp).2.1
    exact (h.header p hp).overwrite (by rw [length_toLe]; omega)
  · exact h.reserved.overwrite (by simp)
  · exact h.flags.overwrite (by simp)
  · refine ⟨by simp [hrestored], sliceAt_overwrite_self (by simp [hrestored])⟩
  · exact h.first.overwrite (by simp)
  · exact h.second.overwrite (by simp)
  · rw [hslice 50 (by omega), hslice 52 (by omega),
      overwrite_comm (o := 32) (by rw [length_toLe]; omega),
      overwrite_comm (o := 32) (by rw [length_toLe]; omega), h.repaired]
  · exact h.attributes.overwrite (by simp [attributesOffset])
  · exact h.stop.overwrite (by rw [length_toLe]; omega)

/-! ## Parsing a written record -/

/-- What the parser returns for a record written from the given fields. -/
structure ParsedFrom (bytes : Bytes) (record : NtfsFileRecord)
    (recordNumber sequenceNumber flags reference : ℕ) (attrs : List Bytes) : Prop where
  parsed : parseFileRecord bytes = .ok record
  attributes : recordAttributes record = attrs
  number : record.recordNumber = some recordNumber
  sequence : record.sequenceNumber = sequenceNumber
  flags : record.flags.raw = flags
  baseRecord : record.baseRecord = if reference ≠ 0 then some (decodeMftReference reference) else none

theorem attributesStop_aligned {attrs : List Bytes} (h : ∀ attr ∈ attrs, EncodedAttribute attr) :
    attributesStop attrs % 8 = 0 := by
  have hsum : (attrs.map List.length).sum % 8 = 0 := by
    induction attrs with
    | nil => rfl
    | cons attr rest ih =>
      have hattr := (h attr List.mem_cons_self).aligned
      have hrest := ih fun a ha => h a (List.mem_cons_of_mem _ ha)
      rw [List.map_cons, List.sum_cons]
      omega
  unfold attributesStop attributesOffset
  omega

theorem length_le_sum {attrs : List Bytes} (h : ∀ attr ∈ attrs, EncodedAttribute attr) :
    attrs.length ≤ (attrs.map List.length).sum := by
  induction attrs with
  | nil => exact le_rfl
  | cons attr rest ih =>
    have hattr := (h attr List.mem_cons_self).header
    have hrest := ih fun a ha => h a (List.mem_cons_of_mem _ ha)
    unfold attributeHeaderLen at hattr
    rw [List.length_cons, List.map_cons, List.sum_cons]
    omega

section Parse

variable {bytes restored : Bytes} {recordNumber sequenceNumber flags hardLinks reference : ℕ}
  {attrs : List Bytes}

theorem RecordImage.fixups
    (h : RecordImage bytes restored recordNumber sequenceNumber flags hardLinks reference attrs) :
    applyUpdateSequenceFixups bytes 48 3 = .ok restored := by
  have h48 : leAt 2 bytes 48 = usaValue :=
    (h.header (put 2 48 usaValue) (by simp [headerPatches, usaOffset])).leAt
      (by unfold usaValue; norm_num)
  have h510 : leAt 2 bytes ((0 + 1) * updateSequenceStride - 2) = usaValue :=
    h.first.leAt (by unfold usaValue; norm_num)
  have h1022 : leAt 2 bytes ((1 + 1) * updateSequenceStride - 2) = usaValue :=
    h.second.leAt (by unfold usaValue; norm_num)
  show fixSectors bytes 48 (leAt 2 bytes 48) [0, 1] bytes = _
  rw [h48, fixSectors, ensure_of h510, ok_bind, fixSectors, ensure_of h1022, ok_bind, fixSectors,
    pure_eq_ok, ← h.repaired]
  rfl

/-- A record written from attributes in type order is accepted, with these attributes. -/
theorem RecordImage.parse
    (h : RecordImage bytes restored recordNumber sequenceNumber flags hardLinks reference attrs)
    (hnumber : recordNumber < wordBound32) (hsequence : sequenceNumber < 2 ^ 16)
    (hflags : flags < 2 ^ 16) (hreference : reference < wordBound)
    (hencoded : ∀ attr ∈ attrs, EncodedAttribute attr)
    (hsorted : (attrs.map typeOf).Pairwise (· ≤ ·)) :
    ∃ record, ParsedFrom bytes record recordNumber sequenceNumber flags reference attrs := by
  have hlength : bytes.length = 1024 := h.length
  have haligned := attributesStop_aligned hencoded
  have hroom : attributesStop attrs + 8 ≤ 1022 := h.room
  have hcount := length_le_sum hencoded
  have hstop : attributesStop attrs = 56 + (attrs.map List.length).sum := rfl
  have hused : alignEight (attributesStop attrs + 4) = attributesStop attrs + 8 := by
    rw [alignEight_eq (by unfold wordBound; omega)]
    omega
  have hword : ∀ {n offset value : ℕ}, put n offset value ∈ headerPatches recordNumber sequenceNumber
      flags hardLinks (alignEight (attributesStop attrs + 4)) attrs.length → value < 256 ^ n →
      leAt n bytes offset = value := fun hmem hvalue => (h.header _ hmem).leAt hvalue
  have hmagic : sliceAt bytes 0 4 = fileMagic :=
    (h.header ⟨0, fileMagic⟩ (by simp [headerPatches])).slice rfl
  have h4 : leAt 2 bytes 4 = 48 := hword (by simp [headerPatches]) (by norm_num)
  have h6 : leAt 2 bytes 6 = 3 := hword (by simp [headerPatches]) (by norm_num)
  have h16 : leAt 2 bytes 16 = sequenceNumber := hword (by simp [headerPatches]) (by omega)
  have h20 : leAt 2 bytes 20 = 56 := hword (by simp [headerPatches]) (by norm_num)
  have h24 : leAt 4 bytes 24 = alignEight (attributesStop attrs + 4) :=
    hword (by simp [headerPatches]) (by rw [hused]; omega)
  have h28 : leAt 4 bytes 28 = 1024 := hword (by simp [headerPatches]) (by norm_num)
  have h42 : leAt 2 bytes 42 = 0 := h.reserved.leAt (by norm_num)
  have h44 : leAt 4 bytes 44 = recordNumber := by
    refine hword (by simp [headerPatches]) ?_
    unfold wordBound32 at hnumber
    omega
  rw [hused] at h24
  have hgeometry : validateInputGeometry bytes = .ok () := by
    unfold validateInputGeometry
    rw [hlength]
    rfl
  have hlayout : validateUpdateSequenceLayout bytes.length 48 3 = .ok .ntfs31 := by
    rw [hlength]
    rfl
  have hsizes : validateHeaderSizes bytes.length .ntfs31 48 3 56 (attributesStop attrs + 8) 1024 =
      .ok () := by
    have hminimum : minimumHeader .ntfs31 = 48 := rfl
    simp only [validateHeaderSizes, bind_unit_ok_iff, ensure_ok_iff, hminimum, hlength]
    exact ⟨trivial, by omega, by omega, trivial, by omega, by omega⟩
  have hheader : headerRecordNumber bytes .ntfs31 = .ok (some recordNumber) := by
    rw [headerRecordNumber, h42, ensure_of rfl, ok_bind, h44, pure_eq_ok]
  have hwalk : validateAttributeList restored 56 (attributesStop attrs + 8) =
      .ok (attrs.length, attributesStop attrs) := by
    have hlow : (0x10 :: attrs.map typeOf).Pairwise (· ≤ ·) := by
      refine List.pairwise_cons.2 ⟨fun t ht => ?_, hsorted⟩
      obtain ⟨attr, hattr, rfl⟩ := List.mem_map.1 ht
      exact (hencoded attr hattr).known
    unfold validateAttributeList
    refine (validateAttributesFrom_ok h.attributes h.stop le_rfl hencoded hlow (by omega)).trans ?_
    rw [Nat.zero_add]
  have hraw : leAt 8 restored 32 = reference := by
    refine h.reference.leAt ?_
    unfold wordBound at hreference
    norm_num at hreference ⊢
    exact hreference
  have hparse : parseFileRecord bytes = .ok
      { repaired := restored
        headerVersion := .ntfs31
        updateSequenceOffset := 48
        updateSequenceCount := 3
        logFileSequenceNumber := leAt 8 bytes 8
        sequenceNumber := leAt 2 bytes 16
        hardLinkCount := leAt 2 bytes 18
        attributesOffset := 56
        flags := ⟨leAt 2 restored 22, leAt 2 restored 22 / 16 * 16⟩
        bytesInUse := attributesStop attrs + 8
        bytesAllocated := 1024
        baseRecord := if leAt 8 restored 32 ≠ 0 then
          some (decodeMftReference (leAt 8 restored 32)) else none
        nextAttributeId := leAt 2 bytes 40
        recordNumber := some recordNumber
        attributeCount := attrs.length
        endMarkerOffset := attributesStop attrs } := by
    unfold parseFileRecord
    rw [hgeometry, ok_bind]
    dsimp only
    rw [hmagic, ensure_of rfl, ok_bind, h4, h6, hlayout, ok_bind, h20, h24, h28, hsizes, ok_bind,
      hheader, ok_bind, h.fixups, ok_bind, hwalk, ok_bind, pure_eq_ok]
  refine ⟨_, hparse, attributesFrom_eq h.attributes hencoded, rfl, h16, h.flags.leAt (by omega), ?_⟩
  dsimp only
  rw [hraw]

/-- A record is accepted only when its attributes are in type order. -/
theorem RecordImage.sorted_of_parse
    (h : RecordImage bytes restored recordNumber sequenceNumber flags hardLinks reference attrs)
    (hencoded : ∀ attr ∈ attrs, EncodedAttribute attr) {record : NtfsFileRecord}
    (hparse : parseFileRecord bytes = .ok record) : (attrs.map typeOf).IsChain (· ≤ ·) := by
  have hword : ∀ {offset value : ℕ}, put 2 offset value ∈ headerPatches recordNumber sequenceNumber
      flags hardLinks (alignEight (attributesStop attrs + 4)) attrs.length → value < 256 ^ 2 →
      leAt 2 bytes offset = value := fun hmem hvalue => (h.header _ hmem).leAt hvalue
  have h4 : leAt 2 bytes 4 = 48 := hword (by simp [headerPatches]) (by norm_num)
  have h6 : leAt 2 bytes 6 = 3 := hword (by simp [headerPatches]) (by norm_num)
  have h20 : leAt 2 bytes 20 = 56 := hword (by simp [headerPatches]) (by norm_num)
  unfold parseFileRecord at hparse
  dsimp only at hparse
  rw [h4, h6, h20, h.fixups] at hparse
  simp only [bind_ok_iff, ok_bind] at hparse
  obtain ⟨_, -, _, -, version, -, _, -, number, -, walked, hwalked, -⟩ := hparse
  exact (sorted_of_validateAttributesFrom hwalked h.attributes hencoded).tail

end Parse

end Ntfs

end StarConverter
