import Mathlib.Data.List.GetD
import StarConverter.Ntfs.Packing

/-!
# The groups of a plan

Both plans put every attribute into exactly one group, keep the first attribute in front of the base
record and leave every group in type order (`ListedGroups`). The number of extension groups depends on
the lengths of the attributes alone, so a count taken from other attributes of the same lengths
agrees with the plan (`packIndicesIntoRecords_count`).
-/

namespace StarConverter

open Base

namespace Ntfs

/-- The attributes with these indices are in type order. -/
def TypesOrdered (attributes : List Bytes) (indices : List ℕ) : Prop :=
  indices.Pairwise fun i j => typeOf (attributes.getD i []) ≤ typeOf (attributes.getD j [])

theorem TypesOrdered.map {attributes : List Bytes} {indices : List ℕ}
    (h : TypesOrdered attributes indices) :
    ((attributesFromIndices attributes indices).map typeOf).Pairwise (· ≤ ·) := by
  rw [attributesFromIndices, List.map_map, List.pairwise_map]
  exact h

/-- Groups with an attribute list that hold every attribute once, each in type order. -/
structure ListedGroups (attributes : List Bytes) (listRun : Option NamedResidentOverflow)
    (groups : FileAttributeGroups) : Prop where
  firstType : typeOf (attributes.getD 0 []) = standardInformation
  first : groups.basePayload.head? = some 0
  all : (groups.basePayload ++ groups.extensions.flatten).Perm (List.range attributes.length)
  kept : TypesOrdered attributes (groups.basePayload.drop 1)
  spilled : ∀ group ∈ groups.extensions, TypesOrdered attributes group
  run : groups.listRun = listRun
  split : groups.splitAttributeList = isSplit listRun
  listLength : ∃ total, attributeListValueLen attributes = .ok total

/-! ## Filling records -/

theorem packLoop_flatten {attributes : List Bytes} {recordNumber : ℕ} {indices : List ℕ}
    {groups result : List (List ℕ)} {current lengths : List ℕ}
    (h : packLoop attributes recordNumber indices groups current lengths = .ok result) :
    result.flatten = groups.flatten ++ current ++ indices := by
  induction indices generalizing groups current lengths with
  | nil =>
    rw [packLoop, pure_eq_ok, Except.ok.injEq] at h
    rw [← h]
    split_ifs with hc
    · simp [hc]
    · simp
  | cons index rest ih =>
    simp only [packLoop, bind_ok_iff, orErr_ok_iff] at h
    obtain ⟨length, -, fits, -, h⟩ := h
    split_ifs at h
    · rw [ih h]
      simp
    · simp only [bind_ok_iff, exists_const, ensure_ok_iff] at h
      obtain ⟨-, alone, -, -, h⟩ := h
      rw [ih h]
      simp

theorem packIndicesIntoRecords_ok {attributes : List Bytes} {recordNumber : ℕ} {indices : List ℕ}
    {groups : List (List ℕ)}
    (h : packIndicesIntoRecords indices attributes recordNumber = .ok groups) :
    groups.flatten = indices := by
  simp only [packIndicesIntoRecords, bind_ok_iff, exists_const, ensure_ok_iff, pure_eq_ok,
    Except.ok.injEq] at h
  obtain ⟨groups, hgroups, -, rfl⟩ := h
  rw [packLoop_flatten hgroups]
  rfl

/-- Only the lengths of the attributes decide how many records they take. -/
theorem packLoop_count {attributes attributes' : List Bytes} {recordNumber : ℕ}
    {indices indices' : List ℕ} {groups groups' result : List (List ℕ)}
    {current current' lengths : List ℕ}
    (h : packLoop attributes recordNumber indices groups current lengths = .ok result)
    (hlengths : indices.map (fun index => attributes[index]?.map List.length) =
      indices'.map fun index => attributes'[index]?.map List.length)
    (hgroups : groups.length = groups'.length) (hcurrent : current = [] ↔ current' = []) :
    ∃ result', packLoop attributes' recordNumber indices' groups' current' lengths = .ok result' ∧
      result'.length = result.length := by
  induction indices generalizing indices' groups groups' current current' lengths with
  | nil =>
    obtain rfl : indices' = [] := List.map_eq_nil_iff.1 hlengths.symm
    rw [packLoop, pure_eq_ok, Except.ok.injEq] at h
    refine ⟨_, rfl, ?_⟩
    rw [← h]
    by_cases hc : current = []
    · rw [if_pos hc, if_pos (hcurrent.1 hc), hgroups]
    · rw [if_neg hc, if_neg fun hc' => hc (hcurrent.2 hc'), List.length_append, List.length_append,
        hgroups]
      rfl
  | cons index rest ih =>
    cases indices' with
    | nil => cases hlengths
    | cons index' rest' =>
      rw [List.map_cons, List.map_cons, List.cons.injEq] at hlengths
      obtain ⟨hhead, hrest⟩ := hlengths
      simp only [packLoop, bind_ok_iff, orErr_ok_iff] at h
      obtain ⟨length, hlength, fits, hfits, h⟩ := h
      rw [packLoop, ← hhead, hlength, orErr_some, ok_bind, hfits, ok_bind]
      split_ifs at h with hc
      · rw [if_pos hc]
        exact ih h hrest hgroups (by simp)
      · simp only [bind_ok_iff, exists_const, ensure_ok_iff] at h
        obtain ⟨hne, alone, halone, hcan, h⟩ := h
        rw [if_neg hc, ensure_of (mt hcurrent.2 hne), ok_bind, halone, ok_bind, ensure_of hcan,
          ok_bind]
        exact ih h hrest (by simp [hgroups]) (by simp)

theorem packIndicesIntoRecords_count {attributes attributes' : List Bytes} {recordNumber : ℕ}
    {indices indices' : List ℕ} {groups : List (List ℕ)}
    (h : packIndicesIntoRecords indices attributes recordNumber = .ok groups)
    (hlengths : indices.map (fun index => attributes[index]?.map List.length) =
      indices'.map fun index => attributes'[index]?.map List.length) :
    ∃ groups', packIndicesIntoRecords indices' attributes' recordNumber = .ok groups' ∧
      groups'.length = groups.length := by
  simp only [packIndicesIntoRecords, bind_ok_iff, exists_const, ensure_ok_iff, pure_eq_ok,
    Except.ok.injEq] at h
  obtain ⟨groups, hgroups, hmany, rfl⟩ := h
  have hnone : ([] : List ℕ) = [] ↔ ([] : List ℕ) = [] := Iff.rfl
  obtain ⟨groups', hgroups', hcount⟩ := packLoop_count hgroups hlengths rfl hnone
  refine ⟨groups', ?_, hcount⟩
  rw [packIndicesIntoRecords, hgroups', ok_bind, ensure_of (by rwa [hcount]), ok_bind, pure_eq_ok]

theorem fillBase_ok {attributes : List Bytes} {remaining lengths kept spilled : List ℕ}
    {result : List ℕ × List ℕ}
    (h : fillBase attributes remaining lengths kept spilled = .ok result) :
    ∃ k s, result = (kept ++ k, spilled ++ s) ∧ k.Sublist remaining ∧ s.Sublist remaining ∧
      (k ++ s).Perm remaining := by
  induction remaining generalizing lengths kept spilled with
  | nil =>
    rw [fillBase, pure_eq_ok, Except.ok.injEq] at h
    exact ⟨[], [], by simpa using h.symm, List.Sublist.refl _, List.Sublist.refl _, List.Perm.refl _⟩
  | cons index rest ih =>
    simp only [fillBase, bind_ok_iff] at h
    obtain ⟨fits, -, h⟩ := h
    split_ifs at h
    · obtain ⟨k, s, rfl, hk, hs, hperm⟩ := ih h
      exact ⟨index :: k, s, by simp, hk.cons_cons index, hs.cons index, hperm.cons index⟩
    · obtain ⟨k, s, rfl, hk, hs, hperm⟩ := ih h
      exact ⟨k, index :: s, by simp, hk.cons index, hs.cons_cons index,
        List.perm_middle.trans (hperm.cons index)⟩

/-! ## Type order -/

theorem attributeTypeOf_encoded {attr : Bytes} (h : EncodedAttribute attr) :
    attributeTypeOf attr = .ok (typeOf attr) := by
  have hheader : 16 ≤ attr.length := h.header
  rw [attributeTypeOf, ensure_of hheader, ok_bind, pure_eq_ok, typeOf]

theorem getD_encoded {attributes : List Bytes} (hencoded : ∀ attr ∈ attributes, EncodedAttribute attr)
    {index : ℕ} (hindex : index < attributes.length) :
    EncodedAttribute (attributes.getD index []) := by
  rw [List.getD_eq_getElem _ _ hindex]
  exact hencoded _ (List.getElem_mem hindex)

/-- Indices sorted by type are in type order. -/
theorem typesOrdered_of_sorted {attributes : List Bytes} {indices : List ℕ}
    (hencoded : ∀ attr ∈ attributes, EncodedAttribute attr)
    (hindices : ∀ index ∈ indices, index < attributes.length)
    (hsorted : indices.Pairwise fun i j => typeKey attributes i ≤ typeKey attributes j) :
    TypesOrdered attributes indices := by
  have hkey : ∀ index ∈ indices, typeKey attributes index =
      toLex (typeOf (attributes.getD index []), index) := by
    intro index hindex
    rw [typeKey, attributeTypeOf_encoded (getD_encoded hencoded (hindices index hindex))]
  refine hsorted.imp_of_mem fun {i j} hi hj hij => ?_
  rw [hkey i hi, hkey j hj, Prod.Lex.toLex_le_toLex] at hij
  rcases hij with hlt | ⟨heq, -⟩
  · exact hlt.le
  · exact heq.le

theorem TypesOrdered.sublist {attributes : List Bytes} {indices indices' : List ℕ}
    (h : TypesOrdered attributes indices') (hsub : indices.Sublist indices') :
    TypesOrdered attributes indices := List.Pairwise.sublist hsub h

/-- The indices of attributes of one type are in type order. -/
theorem typesOrdered_of_forall {attributes : List Bytes} {indices : List ℕ} {attributeType : ℕ}
    (h : ∀ index ∈ indices, typeOf (attributes.getD index []) = attributeType) :
    TypesOrdered attributes indices :=
  List.pairwise_of_forall_mem_list fun i hi j hj => ((h i hi).trans (h j hj).symm).le

/-! ## Files -/

theorem chooseListStorage_run {recordNumber cluster listInstance residentLen : ℕ}
    {listRun : Option NamedResidentOverflow} {residentFits : Bool}
    {storage : ℕ × Option NamedResidentOverflow}
    (h : chooseListStorage recordNumber listRun cluster listInstance residentLen residentFits =
      .ok storage) : storage.2 = listRun := by
  unfold chooseListStorage at h
  split at h
  · cases h
  · rw [Except.ok.injEq] at h
    rw [← h]
  · cases h
  · simp only [bind_ok_iff, pure_eq_ok, Except.ok.injEq] at h
    obtain ⟨length, -, rfl⟩ := h
    rfl

theorem planSpilledFile_ok {recordNumber cluster : ℕ} {first : Bytes} {rest : List Bytes}
    {listRun : Option NamedResidentOverflow} {groups : FileAttributeGroups}
    (h : planSpilledFile recordNumber first (first :: rest) listRun cluster = .ok groups)
    (hfirst : typeOf first = standardInformation)
    (hencoded : ∀ attr ∈ first :: rest, EncodedAttribute attr) :
    ListedGroups (first :: rest) listRun groups ∧ groups.listInstance.isSome ∧
      groups.extensions ≠ [] := by
  simp only [planSpilledFile, bind_ok_iff, exists_const, ensure_ok_iff, pure_eq_ok,
    Except.ok.injEq] at h
  obtain ⟨listInstance, -, listValueLen, hlen, residentLen, -, residentFits, -, storage, hstorage,
    listFits, -, -, filled, hfilled, extensions, hextensions, ⟨hne, -⟩, rfl⟩ := h
  have hrun := chooseListStorage_run hstorage
  set remaining := sortByKey (typeKey (first :: rest)) (List.range' 1 ((first :: rest).length - 1))
  have hremaining : remaining.Perm (List.range' 1 rest.length) := sortByKey_perm _ _
  obtain ⟨k, s, rfl, hk, hs, hperm⟩ := fillBase_ok hfilled
  have hflatten : extensions.flatten = s := by simpa using packLoop_flatten hextensions
  have hordered : TypesOrdered (first :: rest) remaining := by
    refine typesOrdered_of_sorted hencoded (fun index hindex => ?_) (sortByKey_sorted _ _)
    have := List.mem_range'_1.1 (hremaining.mem_iff.1 hindex)
    rw [List.length_cons]
    omega
  refine ⟨⟨hfirst, rfl, ?_, hordered.sublist hk, fun group hgroup => ?_, hrun, by rw [hrun], _, hlen⟩,
    rfl, hne⟩
  · rw [hflatten, List.singleton_append, List.cons_append, List.length_cons, List.range_eq_range',
      List.range'_succ]
    exact (hperm.trans hremaining).cons 0
  · refine hordered.sublist (List.Sublist.trans ?_ hs)
    rw [← hflatten]
    exact List.sublist_flatten_of_mem hgroup

/-- The two outcomes of planning a file. -/
theorem planFileAttributeGroups_ok {recordNumber cluster : ℕ} {attributes : List Bytes}
    {listRun : Option NamedResidentOverflow} {groups : FileAttributeGroups}
    (h : planFileAttributeGroups recordNumber attributes listRun cluster = .ok groups)
    (hencoded : ∀ attr ∈ attributes, EncodedAttribute attr) :
    (recordLengthsFit (attributes.map List.length) = .ok true ∧ groups.listInstance = none ∧
        groups.extensions = [] ∧ listRun = none) ∨
      ListedGroups attributes listRun groups ∧ groups.listInstance.isSome ∧
        groups.extensions ≠ [] := by
  unfold planFileAttributeGroups at h
  split at h
  · cases h
  · simp only [bind_ok_iff, exists_const, ensure_ok_iff] at h
    obtain ⟨firstType, htype, rfl, fits, hfits, h⟩ := h
    rw [attributeTypeOf_encoded (hencoded _ List.mem_cons_self), Except.ok.injEq] at htype
    cases fits with
    | true =>
      simp only [bind_ok_iff, exists_const, ensure_ok_iff, pure_eq_ok, Except.ok.injEq] at h
      obtain ⟨hrun, rfl⟩ := h
      exact Or.inl ⟨hfits, rfl, rfl, hrun⟩
    | false => exact Or.inr (planSpilledFile_ok h htype hencoded)

/-- A plan without an attribute list has no extensions. -/
theorem planFileAttributeGroups_unlisted {recordNumber cluster : ℕ} {attributes : List Bytes}
    {listRun : Option NamedResidentOverflow} {groups : FileAttributeGroups}
    (h : planFileAttributeGroups recordNumber attributes listRun cluster = .ok groups)
    (hlist : groups.listInstance = none) : groups.extensions = [] := by
  unfold planFileAttributeGroups at h
  split at h
  · cases h
  · simp only [bind_ok_iff, exists_const, ensure_ok_iff] at h
    obtain ⟨firstType, -, -, fits, -, h⟩ := h
    cases fits with
    | true =>
      simp only [bind_ok_iff, exists_const, ensure_ok_iff, pure_eq_ok, Except.ok.injEq] at h
      rw [← h.2]
    | false =>
      simp only [planSpilledFile, bind_ok_iff, exists_const, ensure_ok_iff, pure_eq_ok,
        Except.ok.injEq] at h
      obtain ⟨listInstance, -, listValueLen, -, residentLen, -, residentFits, -, storage, -, listFits,
        -, -, filled, -, extensions, -, -, rfl⟩ := h
      exact absurd hlist (Option.some_ne_none listInstance)

/-! ## Directories -/

theorem partitionDirectory_ok {recordNumber index : ℕ} {attrs : List Bytes}
    {parts : List ℕ × List ℕ}
    (h : partitionDirectory recordNumber index attrs = .ok parts) :
    (parts.1 ++ parts.2).Perm (List.range' index attrs.length) ∧
      parts.1.Sublist (List.range' index attrs.length) ∧
      ∀ i ∈ parts.2, index ≤ i ∧ attributeTypeOf (attrs.getD (i - index) []) = .ok fileName := by
  induction attrs generalizing index parts with
  | nil =>
    rw [partitionDirectory, pure_eq_ok, Except.ok.injEq] at h
    rw [← h]
    exact ⟨List.Perm.refl _, List.Sublist.refl _, by simp⟩
  | cons attr rest ih =>
    simp only [partitionDirectory, bind_ok_iff, exists_const, ensure_ok_iff, pure_eq_ok,
      Except.ok.injEq] at h
    obtain ⟨attributeType, htype, -, more, hmore, rfl⟩ := h
    obtain ⟨hperm, hsub, hnames⟩ := ih hmore
    rw [List.length_cons, List.range'_succ]
    have hlater : ∀ i ∈ more.2,
        index ≤ i ∧ attributeTypeOf ((attr :: rest).getD (i - index) []) = .ok fileName := by
      intro i hi
      obtain ⟨hle, hname⟩ := hnames i hi
      obtain ⟨j, rfl⟩ : ∃ j, i = index + 1 + j := ⟨i - (index + 1), by omega⟩
      refine ⟨by omega, ?_⟩
      rw [show index + 1 + j - index = j + 1 by omega, List.getD_cons_succ]
      rwa [Nat.add_sub_cancel_left] at hname
    split_ifs with hc
    · refine ⟨List.perm_middle.trans (hperm.cons index), hsub.cons index, ?_⟩
      intro i hi
      rcases List.mem_cons.1 hi with rfl | hi
      · rw [Nat.sub_self, List.getD_cons_zero, htype, hc]
        exact ⟨le_rfl, rfl⟩
      · exact hlater i hi
    · exact ⟨hperm.cons index, hsub.cons_cons index, hlater⟩

theorem chooseDirectoryList_run {recordNumber cluster listInstance : ℕ}
    {listRun chosen : Option NamedResidentOverflow} {baseLengths : List ℕ} {residentFits : Bool}
    (h : chooseDirectoryList recordNumber listRun cluster listInstance baseLengths residentFits =
      .ok chosen) : chosen = listRun := by
  unfold chooseDirectoryList at h
  split at h
  · cases h
  · rw [Except.ok.injEq] at h
    exact h.symm
  · cases h
  · simp only [bind_ok_iff, exists_const, ensure_ok_iff, pure_eq_ok, Except.ok.injEq] at h
    obtain ⟨length, -, fits, -, -, rfl⟩ := h
    rfl

theorem planDirectoryAttributeGroups_ok {recordNumber cluster : ℕ} {attributes : List Bytes}
    {listRun : Option NamedResidentOverflow} {groups : FileAttributeGroups}
    (h : planDirectoryAttributeGroups recordNumber attributes listRun cluster = .ok groups)
    (hencoded : ∀ attr ∈ attributes, EncodedAttribute attr) :
    ListedGroups attributes listRun groups ∧ ∃ parts,
      partitionDirectory recordNumber 0 attributes = .ok parts ∧
      packIndicesIntoRecords parts.2 attributes recordNumber = .ok groups.extensions := by
  unfold planDirectoryAttributeGroups at h
  split at h
  · cases h
  · simp only [bind_ok_iff, exists_const, ensure_ok_iff, pure_eq_ok, Except.ok.injEq] at h
    obtain ⟨firstType, htype, rfl, parts, hparts, hfirst, listInstance, -, listValueLen, hlen, residentLen,
      -, residentFits, -, chosen, hchosen, extensions, hextensions, rfl⟩ := h
    rw [attributeTypeOf_encoded (hencoded _ List.mem_cons_self), Except.ok.injEq] at htype
    obtain rfl := chooseDirectoryList_run hchosen
    obtain ⟨hperm, hsub, hnames⟩ := partitionDirectory_ok hparts
    rename_i first rest
    set attributes := first :: rest with hattributes
    obtain ⟨others, hothers⟩ : ∃ others, parts.1 = 0 :: others := by
      cases hkept : parts.1 with
      | nil => rw [hkept] at hfirst; cases hfirst
      | cons index others =>
        rw [hkept, List.head?_cons, Option.some.injEq] at hfirst
        exact ⟨others, by rw [hfirst]⟩
    have hflatten := packIndicesIntoRecords_ok hextensions
    have hin : ∀ index ∈ parts.1 ++ parts.2, index < attributes.length := by
      intro index hindex
      have := List.mem_range'_1.1 (hperm.mem_iff.1 hindex)
      omega
    have hsorted := sortByKey_perm (typeKey attributes) others
    rw [hothers, List.take_succ_cons, List.take_zero, List.drop_succ_cons, List.drop_zero]
    refine ⟨⟨htype, rfl, ?_, ?_, fun group hgroup => ?_, rfl, rfl, _, hlen⟩, parts, hparts,
      hextensions⟩
    · rw [hflatten, List.range_eq_range', List.singleton_append, List.cons_append]
      refine ((hsorted.append_right parts.2).cons 0).trans ?_
      rw [← List.cons_append, ← hothers]
      exact hperm
    · refine typesOrdered_of_sorted hencoded (fun index hindex => ?_) (sortByKey_sorted _ _)
      refine hin index (List.mem_append_left _ ?_)
      rw [hothers]
      exact List.mem_cons_of_mem _ (hsorted.mem_iff.1 hindex)
    · suffices hall : ∀ index ∈ group, typeOf (attributes.getD index []) = fileName from
        typesOrdered_of_forall hall
      intro index hindex
      have hmem : index ∈ parts.2 := hflatten ▸ List.mem_flatten_of_mem hgroup hindex
      have htype := (hnames index hmem).2
      rw [Nat.sub_zero, attributeTypeOf_encoded (getD_encoded hencoded
        (hin index (List.mem_append_right _ hmem))), Except.ok.injEq] at htype
      exact htype

end Ntfs

end StarConverter
