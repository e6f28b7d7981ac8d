import StarConverter.Ntfs.AttributeRows
import StarConverter.Ntfs.RecordCount

/-!
# What packing preserves

`PackedRecords` says what a reader finds in packed records: the parser accepts the base and every
extension, and together they hold every attribute once, in type order inside each record.
`ListsRecords` says what it finds in the attribute list.
-/

namespace StarConverter

open Base

namespace Ntfs

/-- What a reader finds in the records of an object whose attributes were packed. `listed` is the
attribute list, if there is one. -/
structure PackedRecords (recordNumber : ℕ) (attributes : List Bytes) (extensionRecords : List ℕ)
    (packed : PackedFileRecords) (base : NtfsFileRecord) (extensions : List NtfsFileRecord)
    (listed : List Bytes) : Prop where
  baseParsed : parseFileRecord packed.base = .ok base
  extensionsParsed : packed.extensions.map parseFileRecord = extensions.map .ok
  contents : (recordAttributes base ++ extensions.flatMap recordAttributes).Perm
    (listed ++ attributes)
  types : ∀ record ∈ base :: extensions,
    ((recordAttributes record).map typeOf).Pairwise (· ≤ ·)
  numbers : (base :: extensions).map NtfsFileRecord.recordNumber =
    (recordNumber :: extensionRecords).map some
  sequences : (base :: extensions).map NtfsFileRecord.sequenceNumber =
    (recordNumber :: extensionRecords).map recordSequence
  baseRecord : base.baseRecord = none
  references : ∀ extension ∈ extensions,
    extension.baseRecord = some ⟨recordNumber, recordSequence recordNumber⟩

/-- Where the value of an attribute list is stored. -/
inductive ListStored (list value : Bytes) (cluster : ℕ) :
    Option NamedResidentOverflow → Option OverlayWrite → Prop
  | resident (hvalue : StoresValue list value) : ListStored list value cluster none none
  | nonresident {run : NamedResidentOverflow} {write : OverlayWrite}
    (hflag : list.getD 8 0 = 1) (hlogical : leAt 8 list 48 = value.length)
    (hlength : value.length = run.logicalBytes) (hoffset : write.offset = run.lcn * cluster)
    (hvalue : run.logicalBytes ≤ run.clusters * cluster → value <+: write.bytes) :
    ListStored list value cluster (some run) (some write)

/-- What a reader finds in the attribute list of packed records: behind the first attribute of the
base stands a list with one row for every attribute, which names the record that holds it. -/
structure ListsRecords (recordNumber : ℕ) (attributes : List Bytes) (extensionRecords : List ℕ)
    (listRun : Option NamedResidentOverflow) (cluster : ℕ) (packed : PackedFileRecords)
    (base : NtfsFileRecord) (extensions : List NtfsFileRecord) (first list : Bytes)
    (rest : List Bytes) (value : Bytes) (rows : List ListRow) : Prop where
  place : recordAttributes base = first :: list :: rest
  listType : typeOf list = attributeList
  stored : ListStored list value cluster listRun packed.attributeListWrite
  length : attributeListValueLen attributes = .ok value.length
  entries : EntriesAt value 0 rows value.length
  sorted : rows.Pairwise fun a b => a.key ≤ b.key
  hosts : (rows.map Except.ok).Perm ((first :: rest).map (rowFor · recordNumber) ++
    (extensions.zip extensionRecords).flatMap fun extension =>
      (recordAttributes extension.1).map (rowFor · extension.2))

/-! ## Records -/

theorem recordSequence_pos (recordNumber : ℕ) : 0 < recordSequence recordNumber := by
  unfold recordSequence
  split_ifs <;> omega

/-- The reference to a base record is not the empty one. -/
theorem mftReference_ne_zero (recordNumber : ℕ) :
    mftReferenceWithSequence recordNumber (recordSequence recordNumber) ≠ 0 := by
  intro hzero
  have hshift : recordSequence recordNumber <<< 48 = 0 := (Nat.or_eq_zero_iff.1 hzero).1
  rw [Nat.shiftLeft_eq] at hshift
  have := recordSequence_pos recordNumber
  omega

theorem parse_finishRecord {recordNumber flags hardLinks : ℕ} {attrs : List Bytes} {bytes : Bytes}
    (h : finishRecord recordNumber flags hardLinks attrs = .ok bytes) (hflags : flags < 2 ^ 16)
    (hencoded : ∀ attr ∈ attrs, EncodedAttribute attr)
    (hsorted : (attrs.map typeOf).Pairwise (· ≤ ·)) :
    recordNumber < wordBound32 ∧ ∃ record, ParsedFrom bytes record recordNumber
      (recordSequence recordNumber) flags 0 attrs := by
  obtain ⟨hnumber, restored, himage⟩ := recordImage_finishRecord h
  exact ⟨hnumber, himage.parse hnumber (recordSequence_lt _) hflags wordBound_pos hencoded hsorted⟩

theorem parse_withBaseReference {baseRecord recordNumber hardLinks : ℕ} {attrs : List Bytes}
    {bytes : Bytes} (hbase : baseRecord < wordBound32)
    (h : finishRecordWithSequence recordNumber (recordSequence recordNumber) fileRecordInUse hardLinks
      attrs = .ok bytes)
    (hencoded : ∀ attr ∈ attrs, EncodedAttribute attr)
    (hsorted : (attrs.map typeOf).Pairwise (· ≤ ·)) :
    recordNumber < wordBound32 ∧ ∃ record, ParsedFrom (withBaseReference baseRecord bytes) record
      recordNumber (recordSequence recordNumber) fileRecordInUse
      (mftReferenceWithSequence baseRecord (recordSequence baseRecord)) attrs := by
  obtain ⟨hnumber, restored, himage⟩ := recordImage_finishRecord h
  exact ⟨hnumber, himage.withReference.parse hnumber (recordSequence_lt _) (by decide)
    (mftReferenceWithSequence_lt hbase (recordSequence_lt _)) hencoded hsorted⟩

section Extensions

variable {attributes : List Bytes}

theorem attributesFromIndices_encoded
    (hencoded : ∀ attr ∈ attributes, EncodedAttribute attr) {indices : List ℕ}
    (hindices : ∀ index ∈ indices, index < attributes.length) :
    ∀ attr ∈ attributesFromIndices attributes indices, EncodedAttribute attr := by
  intro attr hattr
  obtain ⟨index, hindex, rfl⟩ := List.mem_map.1 hattr
  exact getD_encoded hencoded (hindices index hindex)

/-- Every extension record is accepted, with the attributes of its group. -/
theorem packExtensions_ok {recordNumber hardLinks : ℕ} {groups : List (List ℕ)}
    {numbers : List ℕ} {packed : List Bytes}
    (h : packExtensions recordNumber hardLinks attributes groups numbers = .ok packed)
    (hlength : groups.length = numbers.length) (hbase : recordNumber < wordBound32)
    (hencoded : ∀ attr ∈ attributes, EncodedAttribute attr)
    (hindices : ∀ group ∈ groups, ∀ index ∈ group, index < attributes.length)
    (hordered : ∀ group ∈ groups, TypesOrdered attributes group) :
    (∀ number ∈ numbers, number < wordBound32) ∧ ∃ records : List NtfsFileRecord,
      packed.map parseFileRecord = records.map .ok ∧
      records.map recordAttributes = groups.map (attributesFromIndices attributes) ∧
      records.map NtfsFileRecord.recordNumber = numbers.map some ∧
      records.map NtfsFileRecord.sequenceNumber = numbers.map recordSequence ∧
      ∀ record ∈ records, record.baseRecord = some ⟨recordNumber, recordSequence recordNumber⟩ := by
  induction groups generalizing numbers packed with
  | nil =>
    obtain rfl : numbers = [] := List.length_eq_zero_iff.1 hlength.symm
    rw [packExtensions.eq_def, pure_eq_ok, Except.ok.injEq] at h
    rw [← h]
    exact ⟨by simp, [], rfl, rfl, rfl, rfl, by simp⟩
  | cons group groups ih =>
    cases numbers with
    | nil => cases hlength
    | cons number numbers =>
      simp only [packExtensions, bind_ok_iff, pure_eq_ok, Except.ok.injEq] at h
      obtain ⟨extension, hextension, more, hmore, rfl⟩ := h
      obtain ⟨hnumber, record, hrecord⟩ := parse_withBaseReference hbase hextension
        (attributesFromIndices_encoded hencoded (hindices group List.mem_cons_self))
        (hordered group List.mem_cons_self).map
      obtain ⟨hnumbers, records, hparsed, hattributes, hrecordNumbers, hsequences, hreferences⟩ :=
        ih hmore (by simpa using hlength) (fun g hg => hindices g (List.mem_cons_of_mem _ hg))
          fun g hg => hordered g (List.mem_cons_of_mem _ hg)
      have hreference : record.baseRecord = some ⟨recordNumber, recordSequence recordNumber⟩ := by
        rw [hrecord.baseRecord, if_pos (mftReference_ne_zero recordNumber),
          decodeMftReference_withSequence hbase]
      refine ⟨List.forall_mem_cons.2 ⟨hnumber, hnumbers⟩, record :: records, ?_, ?_, ?_, ?_,
        List.forall_mem_cons.2 ⟨hreference, hreferences⟩⟩
      · rw [List.map_cons, List.map_cons, hrecord.parsed, hparsed]
      · rw [List.map_cons, List.map_cons, hrecord.attributes, hattributes]
      · rw [List.map_cons, List.map_cons, hrecord.number, hrecordNumbers]
      · rw [List.map_cons, List.map_cons, hrecord.sequence, hsequences]

end Extensions

/-! ## The attribute list -/

theorem destClusterPayloadWrite_ok {run : NamedResidentOverflow} {bytes : Bytes} {cluster : ℕ}
    {write : OverlayWrite} (h : destClusterPayloadWrite run bytes cluster = .ok write) :
    write.offset = run.lcn * cluster ∧
      (run.logicalBytes ≤ run.clusters * cluster → bytes <+: write.bytes) := by
  simp only [destClusterPayloadWrite, bind_ok_iff, exists_const, ensure_ok_iff, orErr_ok_iff,
    checkedMul_eq_some, pure_eq_ok, Except.ok.injEq] at h
  obtain ⟨allocated, ⟨-, rfl⟩, hlength, offset, ⟨-, rfl⟩, rfl⟩ := h
  refine ⟨rfl, fun hle => ?_⟩
  dsimp only
  rw [List.take_of_length_le (by omega)]
  exact List.prefix_append _ _

theorem firstNonresidentAttributeList_ok {run : NamedResidentOverflow}
    {cluster id logical : ℕ} {splitFirstExtent : Bool} {attr : Bytes}
    (h : firstNonresidentAttributeList run cluster id splitFirstExtent logical = .ok attr)
    (hlogical : logical < wordBound) :
    EncodedAttribute attr ∧ typeOf attr = attributeList ∧ attr.getD 8 0 = 1 ∧
      leAt 8 attr 48 = logical := by
  have hrun : ∀ {lcn clusters : ℕ} {pairs : Bytes}, encodeRuns [(some lcn, clusters)] = some pairs →
      clusters ≠ 0 := by
    intro lcn clusters pairs hpairs hzero
    simp [encodeRuns, encodeRunsFrom, encodeRun, hzero] at hpairs
  cases splitFirstExtent with
  | true =>
    simp only [firstNonresidentAttributeList, bind_ok_iff, exists_const, ensure_ok_iff,
      orErr_ok_iff] at h
    obtain ⟨allocated, -, -, pairs, -, h⟩ := h
    obtain ⟨hencoded, htype, hflag, hlen⟩ := nonresidentAttributeFromPairs_encoded one_ne_zero h
      (by decide) (by decide)
    exact ⟨hencoded, htype, hflag, hlen rfl hlogical⟩
  | false =>
    simp only [firstNonresidentAttributeList, nonresidentAttribute, bind_ok_iff, orErr_ok_iff] at h
    obtain ⟨allocated, -, pairs, hpairs, h⟩ := h
    obtain ⟨hencoded, htype, hflag, hlen⟩ := nonresidentAttributeFromPairs_encoded (hrun hpairs) h
      (by decide) (by decide)
    exact ⟨hencoded, htype, hflag, hlen rfl hlogical⟩

theorem emitAttributeList_ok {listInstance cluster : ℕ} {value : Bytes}
    {listRun : Option NamedResidentOverflow} {splitFirstExtent : Bool}
    {emitted : Bytes × Option OverlayWrite}
    (h : emitAttributeList listInstance value listRun cluster splitFirstExtent = .ok emitted)
    (hvalue : value.length < wordBound) :
    EncodedAttribute emitted.1 ∧ typeOf emitted.1 = attributeList ∧
      ListStored emitted.1 value cluster listRun emitted.2 := by
  cases listRun with
  | none =>
    simp only [emitAttributeList, bind_ok_iff, exists_const, ensure_ok_iff, pure_eq_ok,
      Except.ok.injEq] at h
    obtain ⟨-, attr, hattr, rfl⟩ := h
    obtain ⟨hencoded, htype, hstored⟩ := residentAttribute_encoded hattr (by decide) (by decide)
    exact ⟨hencoded, htype, .resident hstored⟩
  | some run =>
    simp only [emitAttributeList, bind_ok_iff, exists_const, ensure_ok_iff, pure_eq_ok,
      Except.ok.injEq] at h
    obtain ⟨hlength, attr, hattr, write, hwrite, rfl⟩ := h
    obtain ⟨hencoded, htype, hflag, hlogical⟩ := firstNonresidentAttributeList_ok hattr hvalue
    obtain ⟨hoffset, hfront⟩ := destClusterPayloadWrite_ok hwrite
    exact ⟨hencoded, htype, .nonresident hflag hlogical hlength hoffset hfront⟩

/-! ## Packed records -/

theorem attributesFromIndices_range (attributes : List Bytes) :
    attributesFromIndices attributes (List.range attributes.length) = attributes := by
  refine List.ext_getElem (by simp [attributesFromIndices]) fun i h1 h2 => ?_
  simp [attributesFromIndices, h2]

theorem attributeListValueLenFrom_lt {total sum : ℕ} {attrs : List Bytes}
    (h : attributeListValueLenFrom total attrs = .ok sum) (htotal : total < wordBound) :
    sum < wordBound := by
  induction attrs generalizing total with
  | nil =>
    rw [attributeListValueLenFrom, pure_eq_ok, Except.ok.injEq] at h
    rwa [← h]
  | cons attr rest ih =>
    simp only [attributeListValueLenFrom, bind_ok_iff, orErr_ok_iff, checkedAdd_eq_some] at h
    obtain ⟨name, -, length, -, next, ⟨hlt, rfl⟩, h⟩ := h
    exact ih h hlt

section Packed

variable {recordNumber hardLinks cluster : ℕ} {attributes : List Bytes} {extensionRecords : List ℕ}
  {listRun : Option NamedResidentOverflow} {packed : PackedFileRecords}

/-- The records of a plan with an attribute list. -/
theorem packWithList_ok {flags listInstance : ℕ} {groups : FileAttributeGroups}
    {baseError : NtfsSerializeError → NtfsSerializeError}
    (h : packWithList recordNumber flags hardLinks attributes extensionRecords cluster groups
      listInstance baseError = .ok packed)
    (hgroups : ListedGroups attributes listRun groups)
    (hlength : groups.extensions.length = extensionRecords.length) (hflags : flags < 2 ^ 16)
    (hencoded : ∀ attr ∈ attributes, EncodedAttribute attr)
    (hothers : ∀ attr ∈ attributes.tail, attributeList ≤ typeOf attr) :
    ∃ base extensions first list rest value rows,
      PackedRecords recordNumber attributes extensionRecords packed base extensions [list] ∧
      ListsRecords recordNumber attributes extensionRecords listRun cluster packed base extensions
        first list rest value rows := by
  simp only [packWithList, bind_ok_iff, mapError_ok_iff, pure_eq_ok, Except.ok.injEq] at h
  obtain ⟨value, hvalue, emitted, hemitted, base, hbase, packedExtensions, hextensions, rfl⟩ := h
  obtain ⟨total, htotal⟩ := hgroups.listLength
  obtain ⟨kept, hkept⟩ : ∃ kept, groups.basePayload = 0 :: kept := by
    cases hpayload : groups.basePayload with
    | nil =>
      have hfirst := hgroups.first
      rw [hpayload] at hfirst
      cases hfirst
    | cons index kept =>
      have hfirst := hgroups.first
      rw [hpayload, List.head?_cons, Option.some.injEq] at hfirst
      exact ⟨kept, by rw [hfirst]⟩
  have hall := hgroups.all
  rw [hkept, List.cons_append] at hall
  have hin : ∀ index ∈ 0 :: (kept ++ groups.extensions.flatten), index < attributes.length :=
    fun index hindex => List.mem_range.1 (hall.mem_iff.1 hindex)
  have hnodup := hall.nodup_iff.2 List.nodup_range
  set first := attributes.getD 0 [] with hfirst
  set rest := attributesFromIndices attributes kept with hrest
  have hbaseAttributes : attributesFromIndices attributes (groups.basePayload.take 1) ++
      [emitted.1] ++ attributesFromIndices attributes (groups.basePayload.drop 1) =
      first :: emitted.1 :: rest := by
    rw [hkept]
    rfl
  rw [hbaseAttributes] at hbase
  have hspilled : ∀ group ∈ groups.extensions, ∀ index ∈ group, index < attributes.length :=
    fun group hgroup index hindex => hin index <| List.mem_cons_of_mem _ <|
      List.mem_append_right _ <| List.mem_flatten_of_mem hgroup hindex
  have hrestEncoded : ∀ attr ∈ rest, EncodedAttribute attr :=
    attributesFromIndices_encoded hencoded fun index hindex =>
      hin index (List.mem_cons_of_mem _ (List.mem_append_left _ hindex))
  have hfirstEncoded : EncodedAttribute first := getD_encoded hencoded (hin 0 List.mem_cons_self)
  obtain ⟨hnumber, restored, himage⟩ := recordImage_finishRecord hbase
  obtain ⟨hnumbers, records, hparsed, hattributes, hrecordNumbers, hsequences, hreferences⟩ :=
    packExtensions_ok hextensions hlength hnumber hencoded hspilled hgroups.spilled
  obtain ⟨hvalueLength, rows, hsorted, hentries, hhosted⟩ := encodeAttributeListValue_ok hvalue
    hgroups.all hlength (List.forall_mem_cons.2 ⟨hnumber, hnumbers⟩) htotal
  have hvalueLt : value.length < wordBound := by
    rw [hvalueLength]
    exact attributeListValueLenFrom_lt htotal wordBound_pos
  obtain ⟨hlistEncoded, hlistType, hstored⟩ := emitAttributeList_ok hemitted hvalueLt
  rw [hgroups.run] at hstored
  have hrestTypes : ∀ attr ∈ rest, attributeList ≤ typeOf attr := by
    intro attr hattr
    obtain ⟨index, hindex, rfl⟩ := List.mem_map.1 hattr
    have hlt := hin index (List.mem_cons_of_mem _ (List.mem_append_left _ hindex))
    have hpos : index ≠ 0 := fun hzero =>
      (List.nodup_cons.1 hnodup).1 (List.mem_append_left _ (hzero ▸ hindex))
    refine hothers _ (List.mem_iff_getElem.2 ⟨index - 1, by rw [List.length_tail]; omega, ?_⟩)
    rw [List.getElem_tail, List.getD_eq_getElem _ _ hlt]
    congr 1
    omega
  have hkeptOrdered : (rest.map typeOf).Pairwise (· ≤ ·) := by
    have hordered := hgroups.kept
    rw [hkept, List.drop_succ_cons, List.drop_zero] at hordered
    exact hordered.map
  have hbaseOrdered : ((first :: emitted.1 :: rest).map typeOf).Pairwise (· ≤ ·) := by
    have hfirstType : typeOf first = standardInformation := hgroups.firstType
    rw [List.map_cons, List.map_cons, hfirstType, hlistType, List.pairwise_cons, List.pairwise_cons]
    refine ⟨List.forall_mem_cons.2 ⟨by decide, fun t ht => ?_⟩, fun t ht => ?_, hkeptOrdered⟩
    · obtain ⟨attr, hattr, rfl⟩ := List.mem_map.1 ht
      exact le_trans (by decide) (hrestTypes attr hattr)
    · obtain ⟨attr, hattr, rfl⟩ := List.mem_map.1 ht
      exact hrestTypes attr hattr
  obtain ⟨-, record, hrecord⟩ := parse_finishRecord hbase hflags
    (List.forall_mem_cons.2 ⟨hfirstEncoded, List.forall_mem_cons.2 ⟨hlistEncoded, hrestEncoded⟩⟩)
    hbaseOrdered
  have hflatMap : records.flatMap recordAttributes =
      attributesFromIndices attributes groups.extensions.flatten := by
    rw [List.flatMap_def, hattributes, attributesFromIndices, List.map_flatten]
    rfl
  refine ⟨record, records, first, emitted.1, rest, value, rows,
    ⟨hrecord.parsed, hparsed, ?_, ?_, ?_, ?_, ?_, hreferences⟩,
    ⟨hrecord.attributes, hlistType, hstored, ?_, hentries, hsorted, ?_⟩⟩
  · rw [hrecord.attributes, hflatMap]
    refine (List.Perm.swap _ _ _).trans (List.Perm.cons _ ?_)
    have hperm := hall.map fun index => attributes.getD index []
    rw [List.map_cons, List.map_append] at hperm
    exact hperm.trans (List.Perm.of_eq (attributesFromIndices_range attributes))
  · refine List.forall_mem_cons.2 ⟨by rw [hrecord.attributes]; exact hbaseOrdered, ?_⟩
    intro extension hextension
    have hmem : recordAttributes extension ∈ groups.extensions.map
        (attributesFromIndices attributes) := hattributes ▸ List.mem_map_of_mem hextension
    obtain ⟨group, hgroup, heq⟩ := List.mem_map.1 hmem
    rw [← heq]
    exact (hgroups.spilled group hgroup).map
  · rw [List.map_cons, List.map_cons, hrecord.number, hrecordNumbers]
  · rw [List.map_cons, List.map_cons, hrecord.sequence, hsequences]
  · rw [hrecord.baseRecord, if_neg (by simp)]
  · rw [hvalueLength, htotal]
  · refine hhosted.trans (List.Perm.of_eq ?_)
    rw [hostedRows, hkept]
    congr 1
    have hzip : ∀ lists : List (List Bytes), lists = records.map recordAttributes →
        (lists.zip extensionRecords).flatMap (fun pair => pair.1.map (rowFor · pair.2)) =
          (records.zip extensionRecords).flatMap fun extension =>
            (recordAttributes extension.1).map (rowFor · extension.2) := by
      rintro _ rfl
      rw [List.zip_map_left, List.flatMap_map]
      rfl
    rw [← hzip _ hattributes.symm, List.zip_map_left, List.flatMap_map]
    rfl

/-- What a reader finds in the records an object was packed into: one record without an attribute
list, or a base record with a list and the extension records. -/
inductive Packed (recordNumber : ℕ) (attributes : List Bytes) (extensionRecords : List ℕ)
    (listRun : Option NamedResidentOverflow) (cluster : ℕ) (packed : PackedFileRecords) : Prop
  | single {base : NtfsFileRecord}
    (hrecords : PackedRecords recordNumber attributes extensionRecords packed base [] [])
    (hrun : listRun = none) (hwrite : packed.attributeListWrite = none) :
    Packed recordNumber attributes extensionRecords listRun cluster packed
  | listed {base : NtfsFileRecord} {extensions : List NtfsFileRecord} {first list : Bytes}
    {rest : List Bytes} {value : Bytes} {rows : List ListRow}
    (hrecords : PackedRecords recordNumber attributes extensionRecords packed base extensions [list])
    (hlist : ListsRecords recordNumber attributes extensionRecords listRun cluster packed base
      extensions first list rest value rows) :
    Packed recordNumber attributes extensionRecords listRun cluster packed

theorem serializePackedFileRecords_ok
    (h : serializePackedFileRecords recordNumber hardLinks attributes extensionRecords listRun
      cluster = .ok packed)
    (hencoded : ∀ attr ∈ attributes, EncodedAttribute attr)
    (hothers : ∀ attr ∈ attributes.tail, attributeList ≤ typeOf attr)
    (hordered : recordLengthsFit (attributes.map List.length) = .ok true →
      (attributes.map typeOf).Pairwise (· ≤ ·)) :
    Packed recordNumber attributes extensionRecords listRun cluster packed := by
  simp only [serializePackedFileRecords, bind_ok_iff, exists_const, ensure_ok_iff] at h
  obtain ⟨groups, hgroups, hlength, h⟩ := h
  rcases planFileAttributeGroups_ok hgroups hencoded with
    ⟨hfits, hnone, hextensions, hrun⟩ | ⟨hlisted, hsome, -⟩
  · rw [hnone] at h
    simp only [bind_ok_iff, pure_eq_ok, Except.ok.injEq] at h
    obtain ⟨base, hbase, rfl⟩ := h
    obtain ⟨-, record, hrecord⟩ := parse_finishRecord hbase (by decide) hencoded (hordered hfits)
    rw [hextensions] at hlength
    obtain rfl : extensionRecords = [] := List.length_eq_zero_iff.1 hlength.symm
    refine .single ⟨hrecord.parsed, rfl, ?_, ?_, ?_, ?_, ?_, by simp⟩ hrun rfl
    · rw [hrecord.attributes]
      simp
    · refine List.forall_mem_singleton.2 ?_
      rw [hrecord.attributes]
      exact hordered hfits
    · rw [List.map_cons, hrecord.number]
      rfl
    · rw [List.map_cons, hrecord.sequence]
      rfl
    · rw [hrecord.baseRecord, if_neg (by simp)]
  · obtain ⟨listInstance, hinstance⟩ := Option.isSome_iff_exists.1 hsome
    rw [hinstance] at h
    obtain ⟨base, extensions, first, list, rest, value, rows, hrecords, hlist⟩ :=
      packWithList_ok h hlisted hlength (by decide) hencoded hothers
    exact .listed hrecords hlist

theorem serializePackedDirectoryRecords_ok {object : ObjectId}
    (h : serializePackedDirectoryRecords recordNumber object hardLinks attributes extensionRecords
      listRun cluster = .ok packed)
    (hencoded : ∀ attr ∈ attributes, EncodedAttribute attr)
    (hothers : ∀ attr ∈ attributes.tail, attributeList ≤ typeOf attr) :
    Packed recordNumber attributes extensionRecords listRun cluster packed := by
  simp only [serializePackedDirectoryRecords, bind_ok_iff, exists_const, ensure_ok_iff,
    mapError_ok_iff, orErr_ok_iff] at h
  obtain ⟨groups, hgroups, hlength, listInstance, -, h⟩ := h
  obtain ⟨hlisted, -⟩ := planDirectoryAttributeGroups_ok hgroups hencoded
  obtain ⟨base, extensions, first, list, rest, value, rows, hrecords, hlist⟩ :=
    packWithList_ok h hlisted hlength (by decide) hencoded hothers
  exact .listed hrecords hlist

end Packed

/-- A file that needs no attribute list is written in the order it was given, which the parser accepts
in type order only. -/
theorem sorted_of_single {recordNumber hardLinks cluster : ℕ} {attributes : List Bytes}
    {extensionRecords : List ℕ} {listRun : Option NamedResidentOverflow}
    {packed : PackedFileRecords} {base : NtfsFileRecord}
    (h : serializePackedFileRecords recordNumber hardLinks attributes extensionRecords listRun
      cluster = .ok packed)
    (hfits : recordLengthsFit (attributes.map List.length) = .ok true)
    (hencoded : ∀ attr ∈ attributes, EncodedAttribute attr)
    (hparse : parseFileRecord packed.base = .ok base) :
    (attributes.map typeOf).IsChain (· ≤ ·) := by
  simp only [serializePackedFileRecords, bind_ok_iff, exists_const, ensure_ok_iff] at h
  obtain ⟨groups, hgroups, -, h⟩ := h
  have hnone : groups.listInstance = none := by
    unfold planFileAttributeGroups at hgroups
    split at hgroups
    · cases hgroups
    · rw [hfits] at hgroups
      simp only [ok_bind, bind_ok_iff, exists_const, ensure_ok_iff, pure_eq_ok,
        Except.ok.injEq] at hgroups
      obtain ⟨firstType, -, -, -, rfl⟩ := hgroups
      rfl
  rw [hnone] at h
  simp only [bind_ok_iff, pure_eq_ok, Except.ok.injEq] at h
  obtain ⟨bytes, hbytes, rfl⟩ := h
  obtain ⟨-, restored, himage⟩ := recordImage_finishRecord hbytes
  exact himage.sorted_of_parse hencoded hparse

/-- **Packing loses and duplicates nothing.** The records of a file or a directory hold its attributes
once each, in type order, and list them where they are; and every object is written with the number
of extension records that was counted for it beforehand. -/
theorem packing_preserves_attributes :
    (∀ (recordNumber hardLinks : ℕ) (attributes : List Bytes) (extensionRecords : List ℕ)
      (listRun : Option NamedResidentOverflow) (cluster : ℕ) (packed : PackedFileRecords),
      serializePackedFileRecords recordNumber hardLinks attributes extensionRecords listRun cluster =
        .ok packed →
      (∀ attr ∈ attributes, EncodedAttribute attr) →
      (∀ attr ∈ attributes.tail, attributeList ≤ typeOf attr) →
      (recordLengthsFit (attributes.map List.length) = .ok true →
        (attributes.map typeOf).Pairwise (· ≤ ·)) →
      Packed recordNumber attributes extensionRecords listRun cluster packed) ∧
    (∀ (recordNumber : ℕ) (object : ObjectId) (hardLinks : ℕ) (attributes : List Bytes)
      (extensionRecords : List ℕ) (listRun : Option NamedResidentOverflow) (cluster : ℕ)
      (packed : PackedFileRecords),
      serializePackedDirectoryRecords recordNumber object hardLinks attributes extensionRecords
        listRun cluster = .ok packed →
      (∀ attr ∈ attributes, EncodedAttribute attr) →
      (∀ attr ∈ attributes.tail, attributeList ≤ typeOf attr) →
      Packed recordNumber attributes extensionRecords listRun cluster packed) ∧
    (∀ (sources : RecordSources) (budget planned : List (ObjectId × PlannedSecurityDescriptor))
      (counted emitted : ℕ → Option NamedResidentOverflow) (objects : List ObjectRecord)
      (packed : ObjectRecord → PackedFileRecords) (total : ℕ),
      (budget.map Prod.fst).Nodup →
      securityDescriptorBudgetsMatch budget planned sources.cluster = .ok () →
      countFileExtensionRecords sources (budget.lookup ·) counted 0 objects = .ok total →
      (∀ object ∈ objects, object.id ≠ sources.graph.root →
        Emitted sources (planned.lookup ·) emitted object (packed object)) →
      (∀ object ∈ objects, object.kind = .file →
        counted (sources.records object.id) = emitted (sources.records object.id)) →
      (∀ object ∈ objects, object.id ≠ sources.graph.root →
        addedExtensionRecords sources (budget.lookup ·) counted object =
          .ok (packed object).extensions.length) ∧
      total = ((objects.filter fun object => object.id ≠ sources.graph.root).map
        fun object => (packed object).extensions.length).sum) := by
  refine ⟨?_, ?_, ?_⟩
  · intro recordNumber hardLinks attributes extensionRecords listRun cluster packed h
    exact serializePackedFileRecords_ok h
  · intro recordNumber object hardLinks attributes extensionRecords listRun cluster packed h
    exact serializePackedDirectoryRecords_ok h
  · intro sources budget planned counted emitted objects packed total hnodup hmatch hcount hpacked
      hruns
    obtain ⟨hadded, htotal⟩ := countFileExtensionRecords_emitted hcount hpacked
      (fun object => securityDescriptorBudgetsMatch_ok hmatch hnodup object) hruns
    rw [Nat.zero_add] at htotal
    exact ⟨hadded, htotal⟩

/-! ## Examples -/

/-- A resident attribute without a name. -/
def plainAttribute (attributeType id : ℕ) : Bytes :=
  (residentAttribute attributeType none id []).toOption.getD []

theorem plainAttribute_encoded {attributeType id : ℕ}
    (hok : (residentAttribute attributeType none id []).toOption.isSome = true)
    (hknown : 0x10 ≤ attributeType) (hend : attributeType < attributeEnd) :
    EncodedAttribute (plainAttribute attributeType id) ∧
      typeOf (plainAttribute attributeType id) = attributeType := by
  obtain ⟨attr, hattr⟩ : ∃ attr, residentAttribute attributeType none id [] = .ok attr :=
    ⟨_, eq_okValue hok⟩
  obtain ⟨hencoded, htype, -⟩ := residentAttribute_encoded hattr hknown hend
  rw [plainAttribute, hattr]
  exact ⟨hencoded, htype⟩

theorem plain_standardInformation : EncodedAttribute (plainAttribute standardInformation 0) ∧
    typeOf (plainAttribute standardInformation 0) = standardInformation :=
  plainAttribute_encoded (by decide +kernel) (by decide) (by decide)

theorem plain_fileName : EncodedAttribute (plainAttribute fileName 1) ∧
    typeOf (plainAttribute fileName 1) = fileName :=
  plainAttribute_encoded (by decide +kernel) (by decide) (by decide)

theorem plain_data : EncodedAttribute (plainAttribute data 2) ∧
    typeOf (plainAttribute data 2) = data :=
  plainAttribute_encoded (by decide +kernel) (by decide) (by decide)

theorem packing_preserves_attributes_directory :
    ∃ packed, serializePackedDirectoryRecords 30 7 1
      [plainAttribute standardInformation 0, plainAttribute fileName 1] [40] none 4096 = .ok packed ∧
      Packed 30 [plainAttribute standardInformation 0, plainAttribute fileName 1] [40] none 4096
        packed := by
  have hok : (serializePackedDirectoryRecords 30 7 1
      [plainAttribute standardInformation 0, plainAttribute fileName 1] [40] none
      4096).toOption.isSome = true := by decide +kernel
  obtain ⟨packed, hpacked⟩ : ∃ packed, serializePackedDirectoryRecords 30 7 1
      [plainAttribute standardInformation 0, plainAttribute fileName 1] [40] none 4096 = .ok packed :=
    ⟨okValue _ hok, eq_okValue hok⟩
  refine ⟨packed, hpacked, packing_preserves_attributes.2.1 30 7 1 _ _ _ _ packed hpacked ?_ ?_⟩
  · exact List.forall_mem_cons.2
      ⟨plain_standardInformation.1, List.forall_mem_singleton.2 plain_fileName.1⟩
  · refine List.forall_mem_singleton.2 ?_
    rw [plain_fileName.2]
    decide

/-- A file with its data in front of its name is written as it stands, and refused by the parser. -/
theorem not_packing_preserves_attributes :
    ¬ ∀ (recordNumber hardLinks : ℕ) (attributes : List Bytes) (extensionRecords : List ℕ)
      (listRun : Option NamedResidentOverflow) (cluster : ℕ) (packed : PackedFileRecords),
      serializePackedFileRecords recordNumber hardLinks attributes extensionRecords listRun cluster =
        .ok packed →
      (∀ attr ∈ attributes, EncodedAttribute attr) →
      attributes.head?.map typeOf = some standardInformation →
      ∃ base, parseFileRecord packed.base = .ok base := by
  intro h
  have hok : (serializePackedFileRecords 30 1 [plainAttribute standardInformation 0,
      plainAttribute data 2, plainAttribute fileName 1] [] none 4096).toOption.isSome = true := by
    decide +kernel
  have hencoded : ∀ attr ∈ [plainAttribute standardInformation 0, plainAttribute data 2,
      plainAttribute fileName 1], EncodedAttribute attr :=
    List.forall_mem_cons.2 ⟨plain_standardInformation.1, List.forall_mem_cons.2
      ⟨plain_data.1, List.forall_mem_singleton.2 plain_fileName.1⟩⟩
  obtain ⟨packed, hpacked⟩ : ∃ packed, serializePackedFileRecords 30 1
      [plainAttribute standardInformation 0, plainAttribute data 2, plainAttribute fileName 1] [] none
      4096 = .ok packed := ⟨okValue _ hok, eq_okValue hok⟩
  obtain ⟨base, hbase⟩ := h 30 1 _ [] none 4096 packed hpacked hencoded
    (congrArg some plain_standardInformation.2)
  have hsorted := sorted_of_single hpacked (by decide +kernel) hencoded hbase
  simp only [List.map_cons, List.map_nil, plain_standardInformation.2, plain_data.2,
    plain_fileName.2] at hsorted
  revert hsorted
  decide

end Ntfs

end StarConverter
