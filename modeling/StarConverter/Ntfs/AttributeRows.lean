import StarConverter.Ntfs.Packing

/-!
# The rows of an attribute list

`EntriesAt` says what a reader finds in an attribute list: one entry behind the other, each with the
fields of its row. `encodeAttributeListValue_ok` reads the encoder's value: its rows are sorted, and
they are those of the attributes of every record, each under the number of the record that holds it.
-/

namespace StarConverter

open Base

namespace Ntfs

/-! ## Entries -/

/-- The length of the entry of a row. -/
def rowLength (row : ListRow) : ℕ := alignEight (attributeListEntryHeader + row.name.length * 2)

/-- The fields of an entry of the attribute list. -/
structure EntryAt (bytes : Bytes) (offset : ℕ) (row : ListRow) : Prop where
  attributeType : leAt 4 bytes offset = row.attributeType
  length : leAt 2 bytes (offset + 4) = rowLength row
  nameLength : leAt 1 bytes (offset + 6) = row.name.length
  name : row.name ≠ [] → FieldAt bytes (offset + leAt 1 bytes (offset + 7)) (utf16Bytes row.name)
  lowestVcn : leAt 8 bytes (offset + 8) = row.lowestVcn
  reference : decodeMftReference (leAt 8 bytes (offset + 16)) = ⟨row.host, row.sequence⟩
  id : leAt 2 bytes (offset + 24) = row.id

/-- Entries that stand one behind the other from an offset on. -/
def EntriesAt (bytes : Bytes) : ℕ → List ListRow → ℕ → Prop
  | offset, [], stop => offset = stop
  | offset, row :: rest, stop =>
    EntryAt bytes offset row ∧ EntriesAt bytes (offset + rowLength row) rest stop

/-- The fields of a row fit into those of an entry. -/
structure ListRow.Fits (row : ListRow) : Prop where
  attributeType : row.attributeType < 2 ^ 32
  lowestVcn : row.lowestVcn < wordBound
  host : row.host < wordBound32
  sequence : row.sequence < 2 ^ 16
  id : row.id < 2 ^ 16

theorem decodeMftReference_withSequence {recordNumber sequenceNumber : ℕ}
    (h : recordNumber < wordBound32) :
    decodeMftReference (mftReferenceWithSequence recordNumber sequenceNumber) =
      ⟨recordNumber, sequenceNumber⟩ := by
  have hlt : recordNumber < 2 ^ 48 := h.trans (by norm_num [wordBound32])
  rw [mftReferenceWithSequence, ← Nat.shiftLeft_add_eq_or_of_lt hlt, Nat.shiftLeft_eq,
    decodeMftReference, MftReference.mk.injEq]
  constructor
  · rw [Nat.mul_add_mod_self_right, Nat.mod_eq_of_lt hlt]
  · omega

theorem mftReferenceWithSequence_lt {recordNumber sequenceNumber : ℕ} (h : recordNumber < wordBound32)
    (hsequence : sequenceNumber < 2 ^ 16) :
    mftReferenceWithSequence recordNumber sequenceNumber < wordBound := by
  have hlt : recordNumber < 2 ^ 48 := h.trans (by norm_num [wordBound32])
  rw [mftReferenceWithSequence, ← Nat.shiftLeft_add_eq_or_of_lt hlt, Nat.shiftLeft_eq]
  unfold wordBound
  omega

/-- An entry stands where its bytes stand. -/
theorem EntryAt.of_fieldAt {bytes entry : Bytes} {offset : ℕ} {row : ListRow}
    (h : FieldAt bytes offset entry) (hrow : EntryAt entry 0 row) (hlength : 26 ≤ entry.length) :
    EntryAt bytes offset row := by
  have hword : ∀ n i, i + n ≤ entry.length → leAt n bytes (offset + i) = leAt n entry i :=
    fun n i hi => leAt_fieldAt h hi
  obtain ⟨htype, hlen, hnameLength, hname, hlowest, hreference, hid⟩ := hrow
  rw [Nat.zero_add] at hlen hnameLength hname hlowest hreference hid
  refine ⟨?_, ?_, ?_, ?_, ?_, ?_, ?_⟩
  · have := hword 4 0 (by omega)
    rw [Nat.add_zero] at this
    rw [this, htype]
  · rw [hword 2 4 (by omega), hlen]
  · rw [hword 1 6 (by omega), hnameLength]
  · intro hne
    rw [hword 1 7 (by omega)]
    have hnested := h.nested (hname hne)
    rwa [Nat.zero_add] at hnested
  · rw [hword 8 8 (by omega), hlowest]
  · rw [hword 8 16 (by omega), hreference]
  · rw [hword 2 24 (by omega), hid]

theorem entryLength_ok {nameLen length : ℕ} (h : entryLength nameLen = .ok length) :
    length = alignEight (attributeListEntryHeader + nameLen * 2) := by
  simp only [entryLength, bind_ok_iff, orErr_ok_iff, checkedMul_eq_some, checkedAdd_eq_some,
    pure_eq_ok, Except.ok.injEq] at h
  obtain ⟨_, ⟨-, rfl⟩, _, ⟨-, rfl⟩, rfl⟩ := h
  rfl

theorem encodeAttributeListEntry_ok {row : ListRow} {entry : Bytes} (hfits : row.Fits)
    (h : encodeAttributeListEntry row.attributeType row.name row.lowestVcn row.host row.sequence
      row.id = .ok entry) :
    entry.length = rowLength row ∧ EntryAt entry 0 row := by
  simp only [encodeAttributeListEntry, bind_ok_iff, exists_const, ensure_ok_iff, pure_eq_ok,
    Except.ok.injEq] at h
  obtain ⟨length, hlength, hlt, hname, rfl⟩ := h
  obtain rfl : length = rowLength row := entryLength_ok hlength
  have hle : attributeListEntryHeader + row.name.length * 2 ≤ rowLength row :=
    le_alignEight (hlt.trans (by norm_num [wordBound32]))
  set patches := [put 4 0 row.attributeType, put 2 4 (rowLength row), put 1 6 row.name.length] ++
    (if row.name = [] then [] else [put 1 7 attributeListEntryHeader]) ++
    [put 8 8 row.lowestVcn, put 8 16 (mftReferenceWithSequence row.host row.sequence),
      put 2 24 row.id] ++
    (if row.name = [] then [] else [⟨attributeListEntryHeader, utf16Bytes row.name⟩]) with hpatches
  have hheader : attributeListEntryHeader = 26 := rfl
  have hascending : Ascending patches := by
    rw [hpatches]
    unfold Ascending
    by_cases hempty : row.name = [] <;> simp [hempty, hheader]
  have hword : ∀ {n offset value : ℕ}, put n offset value ∈ patches → offset + n ≤ 26 →
      value < 256 ^ n → leAt n (applyAll patches (zeros (rowLength row))) offset = value :=
    fun hmem hin hvalue => leAt_put hascending hmem (by omega) hvalue
  have hreference := mftReferenceWithSequence_lt hfits.host hfits.sequence
  refine ⟨by rw [length_applyAll, length_zeros], ?_, ?_, ?_, ?_, ?_, ?_, ?_⟩
  · exact hword (by simp [hpatches]) (by omega) (hfits.attributeType.trans_eq (by norm_num))
  · exact hword (by simp [hpatches]) (by omega) (hlt.trans_eq (by norm_num))
  · exact hword (by simp [hpatches]) (by omega) (hname.trans_eq (by norm_num))
  · intro hne
    have h7 : leAt 1 (applyAll patches (zeros (rowLength row))) (0 + 7) = 26 :=
      hword (by simp [hpatches, hne, hheader]) (by omega) (by norm_num)
    rw [h7]
    refine fieldAt_applyAll (p := ⟨26, utf16Bytes row.name⟩) hascending ?_ ?_
    · simp [hpatches, hne, hheader]
    · rw [length_zeros]
      dsimp only
      rw [length_utf16Bytes]
      omega
  · exact hword (by simp [hpatches]) (by omega) (hfits.lowestVcn.trans_eq (by norm_num [wordBound]))
  · have h16 : leAt 8 (applyAll patches (zeros (rowLength row))) (0 + 16) =
        mftReferenceWithSequence row.host row.sequence :=
      hword (by simp [hpatches]) (by omega) (hreference.trans_eq (by norm_num [wordBound]))
    rw [h16, decodeMftReference_withSequence hfits.host]
  · exact hword (by simp [hpatches]) (by omega) (hfits.id.trans_eq (by norm_num))

theorem le_rowLength {row : ListRow} {entry : Bytes}
    (h : encodeAttributeListEntry row.attributeType row.name row.lowestVcn row.host row.sequence
      row.id = .ok entry) : 26 ≤ rowLength row := by
  simp only [encodeAttributeListEntry, bind_ok_iff, exists_const, ensure_ok_iff, pure_eq_ok,
    Except.ok.injEq] at h
  obtain ⟨length, hlength, hlt, -, -⟩ := h
  obtain rfl : length = rowLength row := entryLength_ok hlength
  have hle : attributeListEntryHeader + row.name.length * 2 ≤ rowLength row :=
    le_alignEight (hlt.trans (by norm_num [wordBound32]))
  have hheader : attributeListEntryHeader = 26 := rfl
  omega

/-- The encoded rows stand one behind the other. -/
theorem encodeRows_ok {rows : List ListRow} {value : Bytes} (hfits : ∀ row ∈ rows, row.Fits)
    (h : encodeRows rows = .ok value) :
    value.length = (rows.map rowLength).sum ∧
      ∀ front : Bytes, EntriesAt (front ++ value) front.length rows (front ++ value).length := by
  induction rows generalizing value with
  | nil =>
    rw [encodeRows, pure_eq_ok, Except.ok.injEq] at h
    subst h
    exact ⟨rfl, fun front => by rw [List.append_nil]; exact rfl⟩
  | cons row rest ih =>
    simp only [encodeRows, bind_ok_iff, pure_eq_ok, Except.ok.injEq] at h
    obtain ⟨entry, hentry, more, hmore, rfl⟩ := h
    obtain ⟨hlength, hrow⟩ := encodeAttributeListEntry_ok (hfits row List.mem_cons_self) hentry
    obtain ⟨hsum, hrest⟩ := ih (fun r hr => hfits r (List.mem_cons_of_mem _ hr)) hmore
    refine ⟨?_, fun front => ⟨?_, ?_⟩⟩
    · rw [List.length_append, hlength, hsum, List.map_cons, List.sum_cons]
    · exact EntryAt.of_fieldAt (fieldAt_append front entry more) hrow
        (by rw [hlength]; exact le_rowLength hentry)
    · have happend := hrest (front ++ entry)
      rwa [List.append_assoc, List.length_append, hlength] at happend

/-! ## Rows -/

theorem recordSequence_lt (recordNumber : ℕ) : recordSequence recordNumber < 2 ^ 16 := by
  unfold recordSequence
  split_ifs <;> omega

theorem storedLowestVcn_lt {attr : Bytes} {vcn : ℕ} (h : storedLowestVcn attr = .ok vcn) :
    vcn < wordBound := by
  simp only [storedLowestVcn, bind_ok_iff, exists_const, ensure_ok_iff, pure_eq_ok,
    Except.ok.injEq] at h
  obtain ⟨hlength, -, rfl⟩ := h
  have hlt := fromLe_lt (sliceAt attr 16 8)
  rw [length_sliceAt_of_le (by omega)] at hlt
  unfold signedValue wordBound
  rw [length_sliceAt_of_le (by omega)]
  split_ifs <;> omega

theorem rowFor_ok {attr : Bytes} {host : ℕ} {row : ListRow} (h : rowFor attr host = .ok row) :
    row.host = host ∧ row.sequence = recordSequence host ∧
      attributeNameUnits attr = .ok row.name ∧ (host < wordBound32 → row.Fits) := by
  simp only [rowFor, bind_ok_iff, pure_eq_ok, Except.ok.injEq] at h
  obtain ⟨attributeType, htype, name, hname, lowestVcn, hlowest, id, hid, rfl⟩ := h
  refine ⟨rfl, rfl, hname, fun hhost => ⟨?_, ?_, hhost, recordSequence_lt host, ?_⟩⟩
  · simp only [attributeTypeOf, bind_ok_iff, exists_const, ensure_ok_iff, pure_eq_ok,
      Except.ok.injEq] at htype
    rw [← htype.2]
    exact (leAt_lt 4 attr 0).trans_eq (by norm_num)
  · simp only [attributeLowestVcn, bind_ok_iff, exists_const, ensure_ok_iff] at hlowest
    obtain ⟨-, hlowest⟩ := hlowest
    split_ifs at hlowest
    · rw [pure_eq_ok, Except.ok.injEq] at hlowest
      rw [← hlowest]
      exact wordBound_pos
    · exact storedLowestVcn_lt hlowest
  · simp only [attributeInstance, bind_ok_iff, exists_const, ensure_ok_iff, pure_eq_ok,
      Except.ok.injEq] at hid
    rw [← hid.2]
    exact (leAt_lt 2 attr 14).trans_eq (by norm_num)

/-- The row of the attribute with an index. -/
def indexedRow (attributes : List Bytes) (groups : FileAttributeGroups) (baseRecord : ℕ)
    (extensionRecords : List ℕ) (index : ℕ) : Except NtfsSerializeError ListRow := do
  let host ← attributeHostRecord index groups baseRecord extensionRecords
  rowFor (attributes.getD index []) host

theorem listRows_ok {groups : FileAttributeGroups} {baseRecord : ℕ} {extensionRecords : List ℕ}
    {front attrs : List Bytes} {rows : List ListRow}
    (h : listRows groups baseRecord extensionRecords front.length attrs = .ok rows) :
    rows.map Except.ok = (List.range' front.length attrs.length).map
      (indexedRow (front ++ attrs) groups baseRecord extensionRecords) := by
  induction attrs generalizing front rows with
  | nil =>
    rw [listRows, pure_eq_ok, Except.ok.injEq] at h
    rw [← h]
    rfl
  | cons attr rest ih =>
    simp only [listRows, bind_ok_iff, pure_eq_ok, Except.ok.injEq] at h
    obtain ⟨host, hhost, row, hrow, more, hmore, rfl⟩ := h
    have hmore' : more.map Except.ok = (List.range' (front ++ [attr]).length rest.length).map
        (indexedRow (front ++ [attr] ++ rest) groups baseRecord extensionRecords) :=
      ih (by rwa [List.length_append])
    rw [List.append_assoc, List.singleton_append, List.length_append, List.length_singleton]
      at hmore'
    rw [List.map_cons, hmore', List.length_cons (a := attr), List.range'_succ, List.map_cons]
    congr 1
    have hget : (front ++ attr :: rest).getD front.length [] = attr := by simp
    rw [indexedRow, hhost, ok_bind, hget, hrow]

theorem listRows_lengths {groups : FileAttributeGroups} {baseRecord index total sum : ℕ}
    {extensionRecords : List ℕ} {attrs : List Bytes} {rows : List ListRow}
    (h : listRows groups baseRecord extensionRecords index attrs = .ok rows)
    (htotal : attributeListValueLenFrom total attrs = .ok sum) :
    sum = total + (rows.map rowLength).sum := by
  induction attrs generalizing index total rows with
  | nil =>
    rw [listRows, pure_eq_ok, Except.ok.injEq] at h
    rw [attributeListValueLenFrom, pure_eq_ok, Except.ok.injEq] at htotal
    rw [← h, ← htotal]
    rfl
  | cons attr rest ih =>
    simp only [listRows, bind_ok_iff, pure_eq_ok, Except.ok.injEq] at h
    obtain ⟨host, -, row, hrow, more, hmore, rfl⟩ := h
    simp only [attributeListValueLenFrom, bind_ok_iff, orErr_ok_iff, checkedAdd_eq_some] at htotal
    obtain ⟨name, hname, length, hlength, next, ⟨-, rfl⟩, htotal⟩ := htotal
    obtain ⟨-, -, hrowName, -⟩ := rowFor_ok hrow
    obtain rfl : name = row.name := by
      rw [hname, Except.ok.injEq] at hrowName
      exact hrowName
    rw [ih hmore htotal, entryLength_ok hlength, List.map_cons, List.sum_cons, rowLength,
      Nat.add_assoc]

/-! ## Hosts -/

/-- Every index of disjoint groups is looked up at the number of its group. -/
theorem map_hostIn {β : Type} {groups : List (List ℕ)} {numbers : List ℕ}
    (hlength : groups.length = numbers.length) (hnodup : groups.flatten.Nodup)
    (f : ℕ → ℕ → Except NtfsSerializeError β) :
    (groups.flatten.map fun index => hostIn index groups numbers >>= f index) =
      (groups.zip numbers).flatMap fun group => group.1.map fun index => f index group.2 := by
  induction groups generalizing numbers with
  | nil => rfl
  | cons group groups ih =>
    cases numbers with
    | nil => cases hlength
    | cons number numbers =>
      rw [List.flatten_cons, List.nodup_append'] at hnodup
      obtain ⟨-, hrest, hdisjoint⟩ := hnodup
      rw [List.zip_cons_cons, List.flatMap_cons, List.flatten_cons, List.map_append,
        ← ih (by simpa using hlength) hrest]
      congr 1
      · refine List.map_congr_left fun index hindex => ?_
        rw [hostIn, if_pos hindex]
        rfl
      · refine List.map_congr_left fun index hindex => ?_
        rw [hostIn, if_neg fun hmem => hdisjoint hmem hindex]
        rfl

/-- The rows of the attributes of every record, under the record's number. -/
def hostedRows (attributes : List Bytes) (groups : FileAttributeGroups) (baseRecord : ℕ)
    (extensionRecords : List ℕ) : List (Except NtfsSerializeError ListRow) :=
  (attributesFromIndices attributes groups.basePayload).map (rowFor · baseRecord) ++
    (groups.extensions.zip extensionRecords).flatMap fun group =>
      (attributesFromIndices attributes group.1).map (rowFor · group.2)

theorem map_indexedRow {attributes : List Bytes} {groups : FileAttributeGroups} {baseRecord : ℕ}
    {extensionRecords : List ℕ} (hlength : groups.extensions.length = extensionRecords.length)
    (hnodup : (groups.basePayload ++ groups.extensions.flatten).Nodup) :
    (groups.basePayload ++ groups.extensions.flatten).map
        (indexedRow attributes groups baseRecord extensionRecords) =
      hostedRows attributes groups baseRecord extensionRecords := by
  rw [List.nodup_append'] at hnodup
  obtain ⟨-, hext, hdisjoint⟩ := hnodup
  rw [List.map_append, hostedRows]
  congr 1
  · rw [attributesFromIndices, List.map_map]
    refine List.map_congr_left fun index hindex => ?_
    rw [indexedRow, attributeHostRecord, if_pos hindex]
    rfl
  · have hhost := map_hostIn hlength hext fun index host => rowFor (attributes.getD index []) host
    simp only [attributesFromIndices, List.map_map]
    refine Eq.trans (List.map_congr_left fun index hindex => ?_) hhost
    rw [indexedRow, attributeHostRecord, if_neg fun hmem => hdisjoint hmem hindex]

/-- **The attribute list.** Its rows are sorted and are those of the attributes of every record. -/
theorem encodeAttributeListValue_ok {attributes : List Bytes} {groups : FileAttributeGroups}
    {baseRecord total : ℕ} {extensionRecords : List ℕ} {value : Bytes}
    (h : encodeAttributeListValue attributes groups baseRecord extensionRecords = .ok value)
    (hall : (groups.basePayload ++ groups.extensions.flatten).Perm (List.range attributes.length))
    (hlength : groups.extensions.length = extensionRecords.length)
    (hnumbers : ∀ number ∈ baseRecord :: extensionRecords, number < wordBound32)
    (htotal : attributeListValueLen attributes = .ok total) :
    value.length = total ∧ ∃ rows : List ListRow, rows.Pairwise (fun a b => a.key ≤ b.key) ∧
      EntriesAt value 0 rows value.length ∧
      (rows.map Except.ok).Perm (hostedRows attributes groups baseRecord extensionRecords) := by
  simp only [encodeAttributeListValue, bind_ok_iff] at h
  obtain ⟨rows, hrows, hencoded⟩ := h
  have hsorted := sortByKey_perm ListRow.key rows
  have hindexed : rows.map Except.ok = (List.range attributes.length).map
      (indexedRow attributes groups baseRecord extensionRecords) := by
    have hrows' : listRows groups baseRecord extensionRecords ([] : List Bytes).length attributes =
        .ok rows := hrows
    rw [List.range_eq_range']
    exact listRows_ok hrows'
  have hhosted : (rows.map Except.ok).Perm
      (hostedRows attributes groups baseRecord extensionRecords) := by
    rw [hindexed, ← map_indexedRow hlength (hall.nodup_iff.2 List.nodup_range)]
    exact (hall.map _).symm
  have hfits : ∀ row ∈ rows, row.Fits := by
    intro row hrow
    have hmem := hhosted.mem_iff.1 (List.mem_map_of_mem hrow)
    rcases List.mem_append.1 hmem with hmem | hmem
    · obtain ⟨attr, -, hattr⟩ := List.mem_map.1 hmem
      exact (rowFor_ok hattr).2.2.2 (hnumbers _ List.mem_cons_self)
    · obtain ⟨group, hgroup, hmem⟩ := List.mem_flatMap.1 hmem
      obtain ⟨attr, -, hattr⟩ := List.mem_map.1 hmem
      exact (rowFor_ok hattr).2.2.2
        (hnumbers _ (List.mem_cons_of_mem _ (List.of_mem_zip hgroup).2))
  obtain ⟨hlen, hentries⟩ := encodeRows_ok
    (fun row hrow => hfits row (hsorted.mem_iff.1 hrow)) hencoded
  refine ⟨?_, sortByKey ListRow.key rows, sortByKey_sorted _ _, hentries [],
    (hsorted.map _).trans hhosted⟩
  rw [hlen, (hsorted.map rowLength).sum_eq, listRows_lengths hrows htotal, Nat.zero_add]

end Ntfs

end StarConverter
