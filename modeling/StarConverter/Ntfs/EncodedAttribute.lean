import StarConverter.Ntfs.Attribute
import StarConverter.Ntfs.Record

/-!
# What the attribute encoders write

Every attribute the encoders return is an `EncodedAttribute` of the type it was asked for; a resident
one stores its value (`StoresValue`).
-/

namespace StarConverter

open Base

namespace Ntfs

/-- The value of a resident attribute, found by its header. -/
structure StoresValue (attr value : Bytes) : Prop where
  resident : attr.getD 8 0 = 0
  value : sliceAt attr (leAt 2 attr 20) (leAt 4 attr 16) = value

/-- The patches of a resident attribute. -/
def residentPatches (attributeType : ℕ) (name : List UInt16) (id valueOffset total : ℕ)
    (value : Bytes) : List (Patch UInt8) :=
  [put 4 0 attributeType, put 4 4 total, put 1 9 name.length,
      put 2 10 (if name = [] then 0 else 24), put 2 14 id, put 4 16 value.length,
      put 2 20 valueOffset] ++
    (if attributeType = fileName then [put 1 22 1] else []) ++
    (if name = [] then [] else [⟨if name = [] then 0 else 24, utf16Bytes name⟩]) ++
    [⟨valueOffset, value⟩]

section Resident

variable {attributeType id valueOffset total : ℕ} {name : List UInt16} {value : Bytes}

theorem ascending_residentPatches (hoffset : 24 + 2 * name.length ≤ valueOffset) :
    Ascending (residentPatches attributeType name id valueOffset total value) := by
  unfold Ascending residentPatches
  by_cases hname : name = [] <;> by_cases htype : attributeType = fileName <;>
    simp [hname, htype] <;> omega

/-- The eighth byte is the flag of nonresident attributes. -/
theorem residentPatches_apart (hoffset : 24 ≤ valueOffset) {p : Patch UInt8}
    (hp : p ∈ residentPatches attributeType name id valueOffset total value) :
    p.offset + p.bytes.length ≤ 8 ∨ 8 < p.offset := by
  have hall : ∀ p ∈ residentPatches attributeType name id valueOffset total value,
      p.offset + p.bytes.length ≤ 8 ∨ 8 < p.offset := by
    unfold residentPatches
    by_cases hname : name = [] <;> by_cases htype : attributeType = fileName <;>
      simp [hname, htype] <;> omega
  exact hall p hp

end Resident

theorem residentAttribute_ok {attributeType id : ℕ} {name : Option (List UInt16)}
    {value attr : Bytes} (h : residentAttribute attributeType name id value = .ok attr) :
    ∃ valueOffset total, attr = applyAll
        (residentPatches attributeType (name.getD []) id valueOffset total value) (zeros total) ∧
      24 + 2 * (name.getD []).length ≤ valueOffset ∧ valueOffset < 2 ^ 16 ∧
      valueOffset + value.length ≤ total ∧ total % 8 = 0 ∧ total < wordBound32 ∧
      value.length < wordBound32 := by
  simp only [residentAttribute, bind_ok_iff, exists_const, ensure_ok_iff, orErr_ok_iff,
    checkedAdd_eq_some, checkedMul_eq_some, pure_eq_ok, Except.ok.injEq] at h
  obtain ⟨nameBytes, ⟨-, rfl⟩, stop, ⟨-, rfl⟩, htotal, -, hvalue, hoffset, rfl⟩ := h
  refine ⟨_, _, rfl, ?_, hoffset, le_alignEight htotal, alignEight_mod _, htotal, hvalue⟩
  have hname : 24 + (name.getD []).length * 2 ≤ alignEight (24 + (name.getD []).length * 2) :=
    le_alignEight (hoffset.trans (by norm_num [wordBound32]))
  omega

theorem residentAttribute_encoded {attributeType id : ℕ} {name : Option (List UInt16)}
    {value attr : Bytes} (h : residentAttribute attributeType name id value = .ok attr)
    (hknown : 0x10 ≤ attributeType) (hend : attributeType < attributeEnd) :
    EncodedAttribute attr ∧ typeOf attr = attributeType ∧ StoresValue attr value := by
  obtain ⟨valueOffset, total, rfl, hoffset, hsmall, hin, haligned, htotal, hvalue⟩ :=
    residentAttribute_ok h
  have hascending : Ascending
      (residentPatches attributeType (name.getD []) id valueOffset total value) :=
    ascending_residentPatches hoffset
  set patches := residentPatches attributeType (name.getD []) id valueOffset total value
  have htype : typeOf (applyAll patches (zeros total)) = attributeType :=
    leAt_put hascending (by simp [patches, residentPatches]) (by omega)
      (hend.trans (by norm_num [attributeEnd]))
  have hflag : (applyAll patches (zeros total)).getD 8 0 = 0 :=
    getD_applyAll_zeros fun p hp => residentPatches_apart (by omega) hp
  have hlength : leAt 4 (applyAll patches (zeros total)) 4 = total :=
    leAt_put hascending (by simp [patches, residentPatches]) (by omega)
      (htotal.trans_eq (by norm_num [wordBound32]))
  have hlen : (applyAll patches (zeros total)).length = total := by
    rw [length_applyAll, length_zeros]
  refine ⟨⟨?_, ?_, ?_, ?_, ?_, ?_⟩, htype, hflag, ?_⟩
  · rw [hlen, attributeHeaderLen]
    omega
  · rw [hlen, haligned]
  · rw [hlength, hlen]
  · rw [hflag]
    exact Nat.zero_le 1
  · rwa [htype]
  · rwa [htype]
  · have h20 : leAt 2 (applyAll patches (zeros total)) 20 = valueOffset :=
      leAt_put hascending (by simp [patches, residentPatches]) (by omega)
        (hsmall.trans_eq (by norm_num))
    have h16 : leAt 4 (applyAll patches (zeros total)) 16 = value.length :=
      leAt_put hascending (by simp [patches, residentPatches]) (by omega)
        (hvalue.trans_eq (by norm_num [wordBound32]))
    rw [h20, h16]
    refine FieldAt.slice (fieldAt_applyAll (p := ⟨valueOffset, value⟩) hascending ?_ ?_) rfl
    · simp [patches, residentPatches]
    · rw [length_zeros]
      exact hin

theorem nonresidentAttributeFromPairs_encoded {attributeType : ℕ} {pairs : Bytes}
    {lowestVcn fragmentClusters logical initialized allocated id : ℕ} {sparse : Bool} {attr : Bytes}
    (hclusters : fragmentClusters ≠ 0)
    (h : nonresidentAttributeFromPairs attributeType pairs lowestVcn fragmentClusters logical
      initialized allocated id sparse = .ok attr)
    (hknown : 0x10 ≤ attributeType) (hend : attributeType < attributeEnd) :
    EncodedAttribute attr ∧ typeOf attr = attributeType ∧ attr.getD 8 0 = 1 ∧
      (lowestVcn = 0 → logical < wordBound → leAt 8 attr 48 = logical) := by
  rw [nonresidentAttributeFromPairs, if_neg hclusters] at h
  simp only [bind_ok_iff, exists_const, ensure_ok_iff, orErr_ok_iff, checkedAdd_eq_some,
    checkedRange_eq_some, pure_eq_ok, Except.ok.injEq] at h
  obtain ⟨total, ⟨-, rfl⟩, highestVcn, ⟨⟨hrange, -⟩, rfl⟩, hsmall, rfl⟩ := h
  have hheader := nonresidentHeader_le sparse
  have hin := le_alignEight hsmall
  set total := alignEight (nonresidentHeader sparse + pairs.length) with htotal
  set patches := [put 4 0 attributeType, put 4 4 total, put 1 8 1] ++
    (if sparse = true then [put 2 12 attributeFlagSparse] else []) ++
    [put 2 14 id, put 8 16 lowestVcn, put 8 24 (lowestVcn + fragmentClusters - 1),
      put 2 32 (nonresidentHeader sparse)] ++
    sizeFields lowestVcn logical initialized allocated sparse ++
    [⟨nonresidentHeader sparse, pairs⟩] with hpatches
  have hascending : Ascending patches := by
    rw [hpatches]
    unfold Ascending sizeFields
    cases sparse <;> by_cases hlowest : lowestVcn = 0 <;>
      simp [hlowest, nonresidentHeader, nonresidentHeaderBytes, sparseNonresidentHeaderBytes]
  have htype : typeOf (applyAll patches (zeros total)) = attributeType :=
    leAt_put hascending (by simp [hpatches]) (by omega) (hend.trans (by norm_num [attributeEnd]))
  have hflag : (applyAll patches (zeros total)).getD 8 0 = 1 :=
    FieldAt.getD (fieldAt_applyAll (p := put 1 8 1) hascending (by simp [hpatches])
      (by rw [put_offset, length_put, length_zeros]; omega))
  have hlength : leAt 4 (applyAll patches (zeros total)) 4 = total :=
    leAt_put hascending (by simp [hpatches]) (by omega)
      (hsmall.trans_eq (by norm_num [wordBound32]))
  have hlen : (applyAll patches (zeros total)).length = total := by
    rw [length_applyAll, length_zeros]
  refine ⟨⟨?_, ?_, ?_, ?_, ?_, ?_⟩, htype, hflag, ?_⟩
  · rw [hlen, attributeHeaderLen]
    omega
  · rw [hlen, htotal, alignEight_mod]
  · rw [hlength, hlen]
  · rw [hflag]
    exact le_rfl
  · rwa [htype]
  · rwa [htype]
  · intro hlowest hlogical
    refine leAt_put hascending ?_ (by omega) (hlogical.trans_eq (by norm_num [wordBound]))
    simp [hpatches, sizeFields, hlowest]

theorem nonresidentNamedAttributeFromPairs_typeOf {attributeType : ℕ} {name : List UInt16}
    {pairs : Bytes} {lowestVcn fragmentClusters logical initialized allocated id : ℕ} {sparse : Bool}
    {attr : Bytes} (h : nonresidentNamedAttributeFromPairs attributeType name pairs lowestVcn
      fragmentClusters logical initialized allocated id sparse = .ok attr)
    (htype : attributeType < wordBound32) : 16 ≤ attr.length ∧ typeOf attr = attributeType := by
  simp only [nonresidentNamedAttributeFromPairs, bind_ok_iff, exists_const, ensure_ok_iff,
    orErr_ok_iff, checkedAdd_eq_some, checkedMul_eq_some, checkedRange_eq_some, pure_eq_ok,
    Except.ok.injEq, not_or] at h
  obtain ⟨-, nameBytes, ⟨-, rfl⟩, nameEnd, ⟨-, rfl⟩, total, ⟨-, rfl⟩, highestVcn, ⟨-, rfl⟩, hsmall, -,
    hmapping, rfl⟩ := h
  have hheader := nonresidentHeader_le sparse
  have hin := le_alignEight hsmall
  have hname := le_alignEight (hmapping.trans (by norm_num [wordBound32]))
  refine ⟨by rw [length_applyAll, length_zeros]; omega, ?_⟩
  refine leAt_put ?_ (by simp) (by omega) (htype.trans_eq (by norm_num [wordBound32]))
  unfold Ascending sizeFields
  cases sparse <;> by_cases hlowest : lowestVcn = 0 <;>
    simp [hlowest, nonresidentHeader, nonresidentHeaderBytes, sparseNonresidentHeaderBytes]
      at hname ⊢
  all_goals omega

end Ntfs

end StarConverter
