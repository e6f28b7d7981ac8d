import StarConverter.Ntfs.ObjectRecords
import StarConverter.Ntfs.PlanShape

/-!
# Counting extension records

The count pass builds the attributes of every object with descriptors that are not placed yet. They
take the same room as the placed ones, so the plans agree and every object is written with as many
extension records as were counted for it (`addedExtensionRecords_emitted`).
-/

namespace StarConverter

open Base

namespace Ntfs

/-! ## Packed records -/

theorem packExtensions_length {recordNumber hardLinks : ℕ} {attributes : List Bytes}
    {groups : List (List ℕ)} {numbers : List ℕ} {packed : List Bytes}
    (h : packExtensions recordNumber hardLinks attributes groups numbers = .ok packed)
    (hlength : groups.length = numbers.length) : packed.length = groups.length := by
  induction groups generalizing numbers packed with
  | nil =>
    rw [packExtensions.eq_def, pure_eq_ok, Except.ok.injEq] at h
    rw [← h]
    rfl
  | cons group groups ih =>
    cases numbers with
    | nil => cases hlength
    | cons number numbers =>
      simp only [packExtensions, bind_ok_iff, pure_eq_ok, Except.ok.injEq] at h
      obtain ⟨extension, -, more, hmore, rfl⟩ := h
      rw [List.length_cons, ih hmore (by simpa using hlength), List.length_cons]

theorem packWithList_length {recordNumber flags hardLinks cluster listInstance : ℕ}
    {attributes : List Bytes} {extensionRecords : List ℕ} {groups : FileAttributeGroups}
    {baseError : NtfsSerializeError → NtfsSerializeError} {packed : PackedFileRecords}
    (h : packWithList recordNumber flags hardLinks attributes extensionRecords cluster groups
      listInstance baseError = .ok packed)
    (hlength : groups.extensions.length = extensionRecords.length) :
    packed.extensions.length = groups.extensions.length := by
  simp only [packWithList, bind_ok_iff, mapError_ok_iff, pure_eq_ok, Except.ok.injEq] at h
  obtain ⟨value, -, emitted, -, base, -, extensions, hextensions, rfl⟩ := h
  exact packExtensions_length hextensions hlength

section Serialize

variable {recordNumber hardLinks cluster : ℕ} {object : ObjectId} {extensionRecords : List ℕ}
  {listRun : Option NamedResidentOverflow} {packed : PackedFileRecords}

/-- A file has as many extension records as its plan has groups. -/
theorem serializePackedFileRecords_count {attributes : List Bytes}
    (h : serializePackedFileRecords recordNumber hardLinks attributes extensionRecords listRun
      cluster = .ok packed) :
    fileExtensionRecordCount recordNumber attributes listRun cluster =
      .ok packed.extensions.length := by
  simp only [serializePackedFileRecords, bind_ok_iff, exists_const, ensure_ok_iff] at h
  obtain ⟨groups, hgroups, hlength, h⟩ := h
  rw [fileExtensionRecordCount, hgroups, ok_bind, pure_eq_ok, Except.ok.injEq]
  split at h
  · rename_i hnone
    simp only [bind_ok_iff, pure_eq_ok, Except.ok.injEq] at h
    obtain ⟨base, -, rfl⟩ := h
    have hempty := planFileAttributeGroups_unlisted hgroups hnone
    rw [hempty]
    rfl
  · exact (packWithList_length h hlength).symm

theorem partitionDirectory_names {index : ℕ} {names rest : List Bytes} {parts : List ℕ × List ℕ}
    (hnames : ∀ attr ∈ names, attributeTypeOf attr = .ok fileName)
    (hrest : ∀ attr ∈ rest, attributeTypeOf attr ≠ .ok fileName)
    (h : partitionDirectory recordNumber index (names ++ rest) = .ok parts) :
    parts.2 = List.range' index names.length := by
  induction names generalizing index parts with
  | nil =>
    rw [List.nil_append] at h
    induction rest generalizing index parts with
    | nil =>
      rw [partitionDirectory, pure_eq_ok, Except.ok.injEq] at h
      rw [← h]
      rfl
    | cons attr rest ih =>
      simp only [partitionDirectory, bind_ok_iff, exists_const, ensure_ok_iff, pure_eq_ok,
        Except.ok.injEq] at h
      obtain ⟨attributeType, htype, -, more, hmore, rfl⟩ := h
      have hne : attributeType ≠ fileName := fun heq =>
        hrest attr List.mem_cons_self (by rw [htype, heq])
      have hnone : more.2 = List.range' (index + 1) ([] : List Bytes).length :=
        ih (fun a ha => hrest a (List.mem_cons_of_mem _ ha)) hmore
      rw [if_neg hne]
      exact hnone
  | cons attr names ih =>
    simp only [List.cons_append, partitionDirectory, bind_ok_iff, exists_const, ensure_ok_iff,
      pure_eq_ok, Except.ok.injEq] at h
    obtain ⟨attributeType, htype, -, more, hmore, rfl⟩ := h
    rw [hnames attr List.mem_cons_self, Except.ok.injEq] at htype
    rw [if_pos htype.symm, List.length_cons, List.range'_succ,
      ih (fun a ha => hnames a (List.mem_cons_of_mem _ ha)) hmore]

/-- A directory has as many extension records as its names alone take. -/
theorem serializePackedDirectoryRecords_count {first : Bytes} {names rest : List Bytes}
    (hfirst : attributeTypeOf first ≠ .ok fileName)
    (hnames : ∀ attr ∈ names, attributeTypeOf attr = .ok fileName)
    (hrest : ∀ attr ∈ rest, attributeTypeOf attr ≠ .ok fileName)
    (h : serializePackedDirectoryRecords recordNumber object hardLinks (first :: (names ++ rest))
      extensionRecords listRun cluster = .ok packed) :
    directoryFileNameExtensionCount recordNumber (first :: names) =
      .ok packed.extensions.length := by
  simp only [serializePackedDirectoryRecords, bind_ok_iff, exists_const, ensure_ok_iff,
    mapError_ok_iff, orErr_ok_iff] at h
  obtain ⟨groups, hgroups, hlength, listInstance, -, h⟩ := h
  rw [packWithList_length h hlength]
  simp only [planDirectoryAttributeGroups, bind_ok_iff, exists_const, ensure_ok_iff, pure_eq_ok,
    Except.ok.injEq] at hgroups
  obtain ⟨firstType, -, -, parts, hparts, -, listInstance, -, listValueLen, -, residentLen, -,
    residentFits, -, chosen, -, extensions, hextensions, rfl⟩ := hgroups
  obtain hindices : parts.2 = List.range' 1 names.length := by
    simp only [partitionDirectory, bind_ok_iff, exists_const, ensure_ok_iff, pure_eq_ok,
      Except.ok.injEq] at hparts
    obtain ⟨attributeType, htype, -, more, hmore, rfl⟩ := hparts
    have hne : attributeType ≠ fileName := fun heq => hfirst (by rw [htype, heq])
    have hmore2 : more.2 = List.range' 1 names.length :=
      partitionDirectory_names hnames hrest hmore
    rw [if_neg hne]
    exact hmore2
  rw [hindices] at hextensions
  have hlengths : (List.range' 1 names.length).map
      (fun index => (first :: (names ++ rest))[index]?.map List.length) =
      (List.range names.length).map fun index => names[index]?.map List.length := by
    rw [List.range'_eq_map_range, List.map_map]
    refine List.map_congr_left fun index hindex => ?_
    have hlt := List.mem_range.1 hindex
    rw [Function.comp_apply, Nat.add_comm, List.getElem?_cons_succ, List.getElem?_append_left hlt]
  obtain ⟨groups', hgroups', hcount⟩ := packIndicesIntoRecords_count hextensions hlengths
  unfold directoryFileNameExtensionCount
  split_ifs with hempty
  · obtain rfl : names = [] := by
      rw [List.length_cons] at hempty
      exact List.length_eq_zero_iff.1 (by omega)
    simp only [List.length_nil, List.range'_zero, packIndicesIntoRecords, packLoop, if_true,
      pure_eq_ok, ok_bind, bind_ok_iff, Except.ok.injEq] at hextensions
    obtain ⟨-, -, rfl⟩ := hextensions
    rfl
  · rw [List.drop_succ_cons, List.drop_zero]
    dsimp only
    rw [hgroups', ok_bind, pure_eq_ok, hcount]

end Serialize

/-! ## Descriptors of the count pass -/

/-- The length of the attribute of a descriptor. -/
def securityDescriptorLength (planned : PlannedSecurityDescriptor) : ℕ :=
  match planned.nonresident with
  | none => alignEight (alignEight 24 + planned.bytes.length)
  | some run => alignEight (64 + ((encodeRuns [(some run.lcn, run.clusters)]).getD []).length)

theorem residentAttribute_length {attributeType id : ℕ} {value attr : Bytes}
    (h : residentAttribute attributeType none id value = .ok attr) :
    attr.length = alignEight (alignEight 24 + value.length) := by
  simp only [residentAttribute, bind_ok_iff, exists_const, ensure_ok_iff, orErr_ok_iff,
    checkedAdd_eq_some, checkedMul_eq_some, pure_eq_ok, Except.ok.injEq] at h
  obtain ⟨nameBytes, ⟨-, rfl⟩, stop, ⟨-, rfl⟩, -, -, -, -, rfl⟩ := h
  rw [length_applyAll, length_zeros]
  rfl

theorem securityDescriptorAttribute_ok {planned : PlannedSecurityDescriptor} {id cluster : ℕ}
    {attr : Bytes} (h : securityDescriptorAttribute planned id cluster = .ok attr) :
    Unnamed securityDescriptor id attr ∧ attr.length = securityDescriptorLength planned := by
  obtain ⟨bytes, nonresident⟩ := planned
  cases nonresident with
  | none => exact ⟨residentAttribute_unnamed h (by decide) (by decide), residentAttribute_length h⟩
  | some run =>
    simp only [securityDescriptorAttribute, bind_ok_iff, exists_const, ensure_ok_iff,
      orErr_ok_iff] at h
    obtain ⟨⟨-, hclusters⟩, allocated, -, pairs, hpairs, h⟩ := h
    obtain ⟨hshape, hlength⟩ :=
      nonresidentAttributeFromPairs_unnamed hclusters h (by decide) (by decide)
    refine ⟨hshape, ?_⟩
    rw [hlength, securityDescriptorLength]
    dsimp only
    rw [hpairs, Option.getD_some]

/-- A descriptor of the count pass takes the room of the placed one. -/
inductive BudgetMatches :
    Option PlannedSecurityDescriptor → Option PlannedSecurityDescriptor → Prop
  | none : BudgetMatches none none
  | some {expected actual : PlannedSecurityDescriptor}
    (h : securityDescriptorLength expected = securityDescriptorLength actual) :
    BudgetMatches (some expected) (some actual)

theorem mem_of_lookup {κ β : Type} [BEq κ] [LawfulBEq κ] {key : κ} {value : β} {l : List (κ × β)}
    (h : l.lookup key = some value) : (key, value) ∈ l := by
  obtain ⟨front, back, rfl, -⟩ := List.lookup_eq_some_iff.1 h
  exact List.mem_append_right _ List.mem_cons_self

theorem ne_of_lookup_none {κ β : Type} [BEq κ] [LawfulBEq κ] {key : κ} {entry : κ × β}
    {l : List (κ × β)} (h : l.lookup key = none) (hentry : entry ∈ l) : key ≠ entry.1 := by
  have hne := List.lookup_eq_none_iff.1 h entry hentry
  simpa using hne

theorem securityDescriptorBudgetsMatch_ok {budget planned : List (ObjectId × PlannedSecurityDescriptor)}
    {cluster : ℕ} (h : securityDescriptorBudgetsMatch budget planned cluster = .ok ())
    (hbudget : (budget.map Prod.fst).Nodup) (object : ObjectId) :
    BudgetMatches (budget.lookup object) (planned.lookup object) := by
  simp only [securityDescriptorBudgetsMatch, ensure_ok_iff, checkAll_ok_iff, bind_ok_iff,
    exists_const, orErr_ok_iff] at h
  obtain ⟨hlength, hall⟩ := h
  have hfound : ∀ {entry : ObjectId × PlannedSecurityDescriptor}, entry ∈ budget →
      ∃ actual, planned.lookup entry.1 = some actual ∧
        securityDescriptorLength entry.2 = securityDescriptorLength actual := by
    intro entry hentry
    obtain ⟨actual, hactual, first, hfirst, second, hsecond, heq⟩ := hall entry hentry
    refine ⟨actual, hactual, ?_⟩
    rw [← (securityDescriptorAttribute_ok hfirst).2, heq, (securityDescriptorAttribute_ok hsecond).2]
  cases hlookup : budget.lookup object with
  | some expected =>
    obtain ⟨actual, hactual, heq⟩ := hfound (mem_of_lookup hlookup)
    rw [hactual]
    exact .some heq
  | none =>
    -- Both maps have the same keys: the planned one has those of the budget and no room for more.
    have hsubset : budget.map Prod.fst ⊆ planned.map Prod.fst := by
      intro key hkey
      obtain ⟨entry, hentry, rfl⟩ := List.mem_map.1 hkey
      obtain ⟨actual, hactual, -⟩ := hfound hentry
      exact List.mem_map.2 ⟨_, mem_of_lookup hactual, rfl⟩
    have hperm : (budget.map Prod.fst).Perm (planned.map Prod.fst) :=
      (hbudget.subperm hsubset).perm_of_length_le (by simp [hlength])
    have hmissing : object ∉ planned.map Prod.fst := fun hmem => by
      obtain ⟨entry, hentry, rfl⟩ := List.mem_map.1 (hperm.mem_iff.2 hmem)
      exact absurd rfl (ne_of_lookup_none hlookup hentry)
    cases hplanned : planned.lookup object with
    | none => exact .none
    | some actual => exact absurd (List.mem_map.2 ⟨_, mem_of_lookup hplanned, rfl⟩) hmissing

section Shapes

variable {sources : RecordSources} {expected actual : Option PlannedSecurityDescriptor}

theorem securityAttributes_shape (h : BudgetMatches expected actual) {id cluster : ℕ}
    {a b : List Bytes × ℕ} (ha : securityAttributes expected id cluster = .ok a)
    (hb : securityAttributes actual id cluster = .ok b) :
    List.Forall₂ SameShape a.1 b.1 ∧ a.2 = b.2 := by
  cases h with
  | none =>
    rw [securityAttributes, Except.ok.injEq] at ha hb
    rw [← ha, ← hb]
    exact ⟨List.Forall₂.nil, rfl⟩
  | some hlength =>
    simp only [securityAttributes, bind_ok_iff, orErr_ok_iff, pure_eq_ok, Except.ok.injEq] at ha hb
    obtain ⟨attr, hattr, next, hnext, rfl⟩ := ha
    obtain ⟨attr', hattr', next', hnext', rfl⟩ := hb
    obtain ⟨hshape, hlen⟩ := securityDescriptorAttribute_ok hattr
    obtain ⟨hshape', hlen'⟩ := securityDescriptorAttribute_ok hattr'
    rw [hnext, Option.some.injEq] at hnext'
    exact ⟨List.Forall₂.cons (hshape.sameShape hshape' (by rw [hlen, hlen', hlength]))
      List.Forall₂.nil, hnext'⟩

theorem fileAttributes_shape (h : BudgetMatches expected actual) {object : ObjectRecord}
    {as bs : List Bytes} (ha : fileAttributes sources object expected = .ok as)
    (hb : fileAttributes sources object actual = .ok bs) : List.Forall₂ SameShape as bs := by
  simp only [fileAttributes, bind_ok_iff, pure_eq_ok, Except.ok.injEq] at ha hb
  obtain ⟨front, hfront, middle, hmiddle, tail, htail, rfl⟩ := ha
  obtain ⟨front', hfront', middle', hmiddle', tail', htail', rfl⟩ := hb
  obtain rfl : front = front' := by
    rw [hfront, Except.ok.injEq] at hfront'
    exact hfront'
  obtain ⟨hshape, hnext⟩ := securityAttributes_shape h hmiddle hmiddle'
  rw [← hnext, htail, Except.ok.injEq] at htail'
  rw [← htail']
  exact List.rel_append (List.rel_append (sameShape_refl _) hshape) (sameShape_refl _)

theorem appendAttributeListContinuation_shape {as bs as' bs' : List Bytes}
    {listRun : Option NamedResidentOverflow} (h : List.Forall₂ SameShape as bs)
    (ha : appendAttributeListContinuation as listRun = .ok as')
    (hb : appendAttributeListContinuation bs listRun = .ok bs') :
    List.Forall₂ SameShape as' bs' := by
  cases listRun with
  | none =>
    rw [appendAttributeListContinuation, Except.ok.injEq] at ha hb
    rwa [← ha, ← hb]
  | some run =>
    by_cases hsmall : run.clusters < 2
    · simp only [appendAttributeListContinuation, if_pos hsmall, Except.ok.injEq] at ha hb
      rwa [← ha, ← hb]
    · simp only [appendAttributeListContinuation, if_neg hsmall, bind_ok_iff, orErr_ok_iff,
        pure_eq_ok, Except.ok.injEq] at ha hb
      obtain ⟨lcn, hlcn, pairs, hpairs, listInstance, hinstance, attr, hattr, rfl⟩ := ha
      obtain ⟨lcn', hlcn', pairs', hpairs', listInstance', hinstance', attr', hattr', rfl⟩ := hb
      rw [hlcn, Option.some.injEq] at hlcn'
      rw [← hlcn', hpairs, Option.some.injEq] at hpairs'
      rw [← nextAttributeInstance_congr h, hinstance, Except.ok.injEq] at hinstance'
      rw [← hpairs', ← hinstance', hattr, Except.ok.injEq] at hattr'
      rw [← hattr']
      exact List.rel_append h (sameShape_refl _)

theorem directoryExactSuffix_lengths (h : BudgetMatches expected actual) {object : ObjectId}
    {reparse : Option Bytes} {as bs : List Bytes}
    (ha : directoryExactSuffix sources object reparse expected = .ok as)
    (hb : directoryExactSuffix sources object reparse actual = .ok bs) :
    as.map List.length = bs.map List.length := by
  simp only [directoryExactSuffix, bind_ok_iff, pure_eq_ok, Except.ok.injEq] at ha hb
  obtain ⟨first, hfirst, tail, htail, rfl⟩ := ha
  obtain ⟨first', hfirst', tail', htail', rfl⟩ := hb
  rw [htail, Except.ok.injEq] at htail'
  rw [← htail', List.map_append, List.map_append]
  congr 1
  cases h with
  | none =>
    rw [exactSecuritySuffix, Except.ok.injEq] at hfirst hfirst'
    rw [← hfirst, ← hfirst']
  | some hlength =>
    simp only [exactSecuritySuffix, bind_ok_iff, pure_eq_ok, Except.ok.injEq] at hfirst hfirst'
    obtain ⟨attr, hattr, rfl⟩ := hfirst
    obtain ⟨attr', hattr', rfl⟩ := hfirst'
    rw [List.map_cons, List.map_cons, (securityDescriptorAttribute_ok hattr).2,
      (securityDescriptorAttribute_ok hattr').2, hlength]

end Shapes

/-! ## Types of the attributes of a directory -/

theorem residentAttribute_type {attributeType id : ℕ} {name : Option (List UInt16)}
    {value attr : Bytes} (h : residentAttribute attributeType name id value = .ok attr)
    (hknown : 0x10 ≤ attributeType) (hend : attributeType < attributeEnd) :
    attributeTypeOf attr = .ok attributeType := by
  obtain ⟨hencoded, htype, -⟩ := residentAttribute_encoded h hknown hend
  rw [attributeTypeOf_encoded hencoded, htype]

theorem nonresidentNamedAttribute_type {attributeType : ℕ} {name : List UInt16} {run : ℕ × ℕ}
    {logical initialized allocated id : ℕ} {attr : Bytes}
    (h : nonresidentNamedAttribute attributeType name run logical initialized allocated id = .ok attr)
    (htype : attributeType < wordBound32) : attributeTypeOf attr = .ok attributeType := by
  simp only [nonresidentNamedAttribute, bind_ok_iff, exists_const, ensure_ok_iff, orErr_ok_iff] at h
  obtain ⟨-, pairs, -, h⟩ := h
  obtain ⟨hlength, htypeOf⟩ := nonresidentNamedAttributeFromPairs_typeOf h htype
  rw [attributeTypeOf, ensure_of hlength, ok_bind, pure_eq_ok, ← htypeOf, typeOf]

section Directories

variable {sources : RecordSources}

theorem directoryNameAttributes_types {recordNumber dosFileAttributes tag index : ℕ}
    {timestamps : NtfsObjectTimestamps} {names : List NamespaceEntry} {attrs : List Bytes}
    (h : directoryNameAttributes sources recordNumber dosFileAttributes tag timestamps index names =
      .ok attrs) : ∀ attr ∈ attrs, attributeTypeOf attr = .ok fileName := by
  induction names generalizing index attrs with
  | nil =>
    rw [directoryNameAttributes, pure_eq_ok, Except.ok.injEq] at h
    rw [← h]
    simp
  | cons entry rest ih =>
    simp only [directoryNameAttributes, bind_ok_iff, exists_const, ensure_ok_iff, pure_eq_ok,
      Except.ok.injEq] at h
    obtain ⟨-, value, -, attr, hattr, more, hmore, rfl⟩ := h
    exact List.forall_mem_cons.2 ⟨residentAttribute_type hattr (by decide) (by decide), ih hmore⟩

theorem directoryPrefixAttributes_types {recordNumber : ℕ} {names : List NamespaceEntry}
    {metadata : NtfsObjectMetadata} {reparse : Option Bytes} {front : List Bytes}
    (h : directoryPrefixAttributes sources recordNumber names metadata reparse = .ok front) :
    ∃ first attrs, front = first :: attrs ∧ attributeTypeOf first ≠ .ok fileName ∧
      ∀ attr ∈ attrs, attributeTypeOf attr = .ok fileName := by
  simp only [directoryPrefixAttributes, bind_ok_iff, exists_const, ensure_ok_iff, pure_eq_ok,
    Except.ok.injEq] at h
  obtain ⟨first, hfirst, attrs, hattrs, -, rfl⟩ := h
  refine ⟨first, attrs, rfl, ?_, directoryNameAttributes_types hattrs⟩
  rw [residentAttribute_type hfirst (by decide) (by decide)]
  decide

theorem directoryIndexAttributes_types {id : ℕ} {index : PlannedDirectoryIndex}
    {reparse : Option Bytes} {security : Option PlannedSecurityDescriptor} {suffix : List Bytes}
    (h : directoryIndexAttributes sources id index reparse security = .ok suffix) :
    ∀ attr ∈ suffix, attributeTypeOf attr ≠ .ok fileName := by
  have hne : ∀ {attr : Bytes} {attributeType : ℕ}, attributeTypeOf attr = .ok attributeType →
      attributeType ≠ fileName → attributeTypeOf attr ≠ .ok fileName := by
    intro attr attributeType htype hne heq
    rw [htype, Except.ok.injEq] at heq
    exact hne heq
  simp only [directoryIndexAttributes, bind_ok_iff, pure_eq_ok, Except.ok.injEq] at h
  obtain ⟨descriptor, hdescriptor, root, hroot, next, -, allocation, hallocation, tail, htail, rfl⟩ :=
    h
  have hdescriptorTypes : ∀ attr ∈ descriptor.1, attributeTypeOf attr ≠ .ok fileName := by
    cases security with
    | none =>
      rw [securityAttributes, Except.ok.injEq] at hdescriptor
      rw [← hdescriptor]
      simp
    | some planned =>
      simp only [securityAttributes, bind_ok_iff, pure_eq_ok, Except.ok.injEq] at hdescriptor
      obtain ⟨attr, hattr, next, -, rfl⟩ := hdescriptor
      exact List.forall_mem_singleton.2
        (hne (securityDescriptorAttribute_ok hattr).1.attributeType (by decide))
  have hallocationTypes : ∀ attr ∈ allocation.1, attributeTypeOf attr ≠ .ok fileName := by
    unfold indexAllocationAttributes at hallocation
    split at hallocation
    · rw [Except.ok.injEq] at hallocation
      rw [← hallocation]
      simp
    · simp only [bind_ok_iff, pure_eq_ok, Except.ok.injEq] at hallocation
      obtain ⟨allocated, -, attr, hattr, next, -, bits, hbits, rfl⟩ := hallocation
      exact List.forall_mem_cons.2 ⟨hne (nonresidentNamedAttribute_type hattr (by decide)) (by decide),
        List.forall_mem_singleton.2
          (hne (residentAttribute_type hbits (by decide) (by decide)) (by decide))⟩
  have htailTypes : ∀ attr ∈ tail, attributeTypeOf attr ≠ .ok fileName := by
    unfold indexReparseAttributes at htail
    split at htail
    · rw [Except.ok.injEq] at htail
      rw [← htail]
      simp
    · simp only [directoryReparseAttribute, bind_ok_iff, pure_eq_ok, Except.ok.injEq] at htail
      obtain ⟨id, -, attr, ⟨_, -, hattr⟩, rfl⟩ := htail
      exact List.forall_mem_singleton.2
        (hne (residentAttribute_type hattr (by decide) (by decide)) (by decide))
  refine List.forall_mem_append.2 ⟨List.forall_mem_append.2 ⟨List.forall_mem_append.2
    ⟨hdescriptorTypes, List.forall_mem_singleton.2 ?_⟩, hallocationTypes⟩, htailTypes⟩
  exact hne (residentAttribute_type hroot (by decide) (by decide)) (by decide)

/-- A continuation is appended behind all attributes. -/
theorem appendAttributeListContinuation_ok {attributes appended : List Bytes}
    {listRun : Option NamedResidentOverflow}
    (h : appendAttributeListContinuation attributes listRun = .ok appended) :
    ∃ tail, appended = attributes ++ tail ∧
      ∀ attr ∈ tail, attributeTypeOf attr = .ok attributeList := by
  cases listRun with
  | none =>
    rw [appendAttributeListContinuation, Except.ok.injEq] at h
    exact ⟨[], by rw [← h, List.append_nil], by simp⟩
  | some run =>
    by_cases hsmall : run.clusters < 2
    · simp only [appendAttributeListContinuation, if_pos hsmall, Except.ok.injEq] at h
      exact ⟨[], by rw [← h, List.append_nil], by simp⟩
    · simp only [appendAttributeListContinuation, if_neg hsmall, bind_ok_iff, pure_eq_ok,
        Except.ok.injEq] at h
      obtain ⟨lcn, -, pairs, -, listInstance, -, attr, hattr, rfl⟩ := h
      refine ⟨[attr], rfl, List.forall_mem_singleton.2 ?_⟩
      exact (nonresidentAttributeFromPairs_unnamed (by omega) hattr (by decide)
        (by decide)).1.attributeType

theorem directoryNeedsAttributeList_congr {object : ObjectId} {front suffix suffix' : List Bytes}
    {cluster : ℕ} (h : suffix.map List.length = suffix'.map List.length) :
    directoryNeedsAttributeList object front cluster suffix =
      directoryNeedsAttributeList object front cluster suffix' := by
  simp only [directoryNeedsAttributeList, directoryIndexRootBudget, List.map_append, h]

end Directories

/-! ## Emitted records -/

/-- The records of an object, written with its placed descriptor. -/
inductive Emitted (sources : RecordSources)
    (security : ObjectId → Option PlannedSecurityDescriptor)
    (listRuns : ℕ → Option NamedResidentOverflow) (object : ObjectRecord) :
    PackedFileRecords → Prop
  | file {firstExtensionRecord : ℕ} {packed : PackedFileRecords} (hkind : object.kind = .file)
    (h : fileRecord sources object (security object.id) firstExtensionRecord
      (listRuns (sources.records object.id)) = .ok packed) :
    Emitted sources security listRuns object packed
  | directory {firstExtensionRecord : ℕ} {index : PlannedDirectoryIndex}
    {packed : PackedFileRecords} (hkind : object.kind = .directory) (hindex : index.object = object.id)
    (h : buildDirectoryRecord sources (sources.records object.id) (sources.names object.id)
      (sources.metadata object.id) index firstExtensionRecord (sources.reparse object.id)
      (security object.id) (listRuns (sources.records object.id)) = .ok packed) :
    Emitted sources security listRuns object packed

section Emitted

variable {sources : RecordSources} {budget planned : ObjectId → Option PlannedSecurityDescriptor}
  {counted emitted : ℕ → Option NamedResidentOverflow} {object : ObjectRecord}
  {packed : PackedFileRecords} {added : ℕ}

/-- **Counted extension records.** An object is written with as many extension records as the count
pass added for it. -/
theorem addedExtensionRecords_emitted
    (h : addedExtensionRecords sources budget counted object = .ok added)
    (hpacked : Emitted sources planned emitted object packed)
    (hbudget : BudgetMatches (budget object.id) (planned object.id))
    (hruns : object.kind = .file →
      counted (sources.records object.id) = emitted (sources.records object.id)) :
    packed.extensions.length = added := by
  unfold addedExtensionRecords at h
  dsimp only at h
  cases hpacked with
  | file hkind hrecord =>
    rw [hkind] at h
    rw [hruns hkind] at h
    simp only [bind_ok_iff] at h
    obtain ⟨as, has, as', has', hadded⟩ := h
    simp only [fileRecord, bind_ok_iff, exists_const, ensure_ok_iff] at hrecord
    obtain ⟨-, -, bs, hbs, bs', hbs', extra, -, numbers, -, hserialized⟩ := hrecord
    have hcount := serializePackedFileRecords_count hserialized
    rw [← fileExtensionRecordCount_congr (appendAttributeListContinuation_shape
      (fileAttributes_shape hbudget has hbs) has' hbs'), hadded, Except.ok.injEq] at hcount
    exact hcount.symm
  | directory hkind hindex hrecord =>
    rw [hkind] at h
    simp only [bind_ok_iff] at h
    obtain ⟨front, hfront, exact, hexact, needsList, hneeds, hadded⟩ := h
    simp only [buildDirectoryRecord, bind_ok_iff, exists_const, ensure_ok_iff] at hrecord
    obtain ⟨-, -, -, front', hfront', exact', hexact', needsList', hneeds', nextId, -, suffix, hsuffix,
      hrecord⟩ := hrecord
    rw [hfront, Except.ok.injEq] at hfront'
    subst hfront'
    rw [hindex] at hexact' hneeds'
    rw [← directoryNeedsAttributeList_congr (directoryExactSuffix_lengths hbudget hexact hexact'),
      hneeds, Except.ok.injEq] at hneeds'
    subst hneeds'
    cases needsList with
    | false =>
      rw [pure_eq_ok, Except.ok.injEq] at hadded
      simp only [bind_ok_iff, pure_eq_ok, Except.ok.injEq] at hrecord
      obtain ⟨base, -, rfl⟩ := hrecord
      exact hadded
    | true =>
      simp only [bind_ok_iff] at hrecord
      obtain ⟨extra, -, numbers, -, attributes, hattributes, hserialized⟩ := hrecord
      obtain ⟨tail, rfl, htail⟩ := appendAttributeListContinuation_ok hattributes
      obtain ⟨first, names, rfl, hfirst, hnames⟩ := directoryPrefixAttributes_types hfront
      rw [List.append_assoc, List.cons_append] at hserialized
      have hcount := serializePackedDirectoryRecords_count hfirst hnames
        (List.forall_mem_append.2 ⟨directoryIndexAttributes_types hsuffix, fun attr hattr => by
          rw [htail attr hattr]
          decide⟩) hserialized
      simp only [directoryFileNameCount, hfront, ok_bind] at hadded
      rw [hcount, Except.ok.injEq] at hadded
      exact hadded

/-- The count of the whole volume is the number of extension records that are written. -/
theorem countFileExtensionRecords_emitted {extra total : ℕ} {objects : List ObjectRecord}
    {packed : ObjectRecord → PackedFileRecords}
    (h : countFileExtensionRecords sources budget counted extra objects = .ok total)
    (hpacked : ∀ object ∈ objects, object.id ≠ sources.graph.root →
      Emitted sources planned emitted object (packed object))
    (hbudget : ∀ object, BudgetMatches (budget object) (planned object))
    (hruns : ∀ object ∈ objects, object.kind = .file →
      counted (sources.records object.id) = emitted (sources.records object.id)) :
    (∀ object ∈ objects, object.id ≠ sources.graph.root →
      addedExtensionRecords sources budget counted object =
        .ok (packed object).extensions.length) ∧
    total = extra + ((objects.filter fun object => object.id ≠ sources.graph.root).map
      fun object => (packed object).extensions.length).sum := by
  induction objects generalizing extra with
  | nil =>
    rw [countFileExtensionRecords, pure_eq_ok, Except.ok.injEq] at h
    exact ⟨by simp, by simp [h]⟩
  | cons object rest ih =>
    have hpackedRest := fun o ho => hpacked o (List.mem_cons_of_mem _ ho)
    have hrunsRest := fun o ho => hruns o (List.mem_cons_of_mem _ ho)
    unfold countFileExtensionRecords at h
    split_ifs at h with hroot
    · obtain ⟨hall, htotal⟩ := ih h hpackedRest hrunsRest
      refine ⟨List.forall_mem_cons.2 ⟨fun hne => absurd hroot hne, hall⟩, ?_⟩
      rw [List.filter_cons_of_neg (by simpa using hroot)]
      exact htotal
    · simp only [bind_ok_iff, orErr_ok_iff, checkedAdd_eq_some] at h
      obtain ⟨added, hadded, extra', ⟨-, rfl⟩, h⟩ := h
      obtain ⟨hall, htotal⟩ := ih h hpackedRest hrunsRest
      have hcount := addedExtensionRecords_emitted hadded
        (hpacked object List.mem_cons_self hroot) (hbudget object.id)
        (hruns object List.mem_cons_self)
      refine ⟨List.forall_mem_cons.2 ⟨fun _ => by rw [hadded, hcount], hall⟩, ?_⟩
      rw [List.filter_cons_of_pos (by simpa using hroot), List.map_cons, List.sum_cons, hcount,
        htotal, Nat.add_assoc]

end Emitted

end Ntfs

end StarConverter
