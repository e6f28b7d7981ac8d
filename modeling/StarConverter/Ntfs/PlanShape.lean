import StarConverter.Ntfs.EncodedAttribute
import StarConverter.Ntfs.PackingPlan

/-!
# What a plan depends on

A plan sees the lengths, types, names and instances of the attributes and nothing else
(`planFileAttributeGroups_congr`). A count taken from stand-ins of the same shape is the count of the
plan.
-/

namespace StarConverter

open Base

namespace Ntfs

/-- Attributes that a plan cannot tell apart. -/
structure SameShape (a b : Bytes) : Prop where
  length : a.length = b.length
  attributeType : attributeTypeOf a = attributeTypeOf b
  name : attributeNameUnits a = attributeNameUnits b
  id : attributeInstance a = attributeInstance b

theorem SameShape.refl (a : Bytes) : SameShape a a := ⟨rfl, rfl, rfl, rfl⟩

section Congr

variable {as bs : List Bytes}

theorem sameShape_refl (attrs : List Bytes) : List.Forall₂ SameShape attrs attrs :=
  List.forall₂_same.2 fun a _ => SameShape.refl a

theorem map_length_congr (h : List.Forall₂ SameShape as bs) :
    as.map List.length = bs.map List.length := by
  induction h with
  | nil => rfl
  | cons hab _ ih => rw [List.map_cons, List.map_cons, hab.length, ih]

theorem getD_shape (h : List.Forall₂ SameShape as bs) (index : ℕ) :
    SameShape (as.getD index []) (bs.getD index []) := by
  induction h generalizing index with
  | nil => exact SameShape.refl _
  | cons hab _ ih =>
    cases index with
    | zero => exact hab
    | succ index => exact ih index

theorem getElem?_length_congr (h : List.Forall₂ SameShape as bs) (index : ℕ) :
    as[index]?.map List.length = bs[index]?.map List.length := by
  rw [← List.getElem?_map, ← List.getElem?_map, map_length_congr h]

theorem maxInstance_congr (h : List.Forall₂ SameShape as bs) (maxId : ℕ) :
    maxInstance maxId as = maxInstance maxId bs := by
  induction h generalizing maxId with
  | nil => rfl
  | cons hab _ ih => simp only [maxInstance, hab.id, ih]

theorem nextAttributeInstance_congr (h : List.Forall₂ SameShape as bs) :
    nextAttributeInstance as = nextAttributeInstance bs := by
  rw [nextAttributeInstance, maxInstance_congr h, nextAttributeInstance]

theorem attributeListValueLen_congr (h : List.Forall₂ SameShape as bs) :
    attributeListValueLen as = attributeListValueLen bs := by
  have hfrom : ∀ total, attributeListValueLenFrom total as = attributeListValueLenFrom total bs := by
    induction h with
    | nil => exact fun _ => rfl
    | cons hab _ ih =>
      intro total
      simp only [attributeListValueLenFrom, hab.name, ih]
  exact hfrom 0

theorem typeKey_congr (h : List.Forall₂ SameShape as bs) : typeKey as = typeKey bs := by
  funext index
  rw [typeKey, (getD_shape h index).attributeType, typeKey]

theorem packLoop_congr (h : List.Forall₂ SameShape as bs) (recordNumber : ℕ) (indices : List ℕ)
    (groups : List (List ℕ)) (current lengths : List ℕ) :
    packLoop as recordNumber indices groups current lengths =
      packLoop bs recordNumber indices groups current lengths := by
  induction indices generalizing groups current lengths with
  | nil => rfl
  | cons index rest ih => simp only [packLoop, getElem?_length_congr h, ih]

theorem fillBase_congr (h : List.Forall₂ SameShape as bs) (remaining lengths kept spilled : List ℕ) :
    fillBase as remaining lengths kept spilled = fillBase bs remaining lengths kept spilled := by
  induction remaining generalizing lengths kept spilled with
  | nil => rfl
  | cons index rest ih => simp only [fillBase, (getD_shape h index).length, ih]

theorem planSpilledFile_congr (h : List.Forall₂ SameShape as bs) {a b : Bytes} (hab : SameShape a b)
    (recordNumber : ℕ) (listRun : Option NamedResidentOverflow) (cluster : ℕ) :
    planSpilledFile recordNumber a as listRun cluster =
      planSpilledFile recordNumber b bs listRun cluster := by
  simp only [planSpilledFile, nextAttributeInstance_congr h, attributeListValueLen_congr h,
    hab.length, h.length_eq, typeKey_congr h, fillBase_congr h, packLoop_congr h]

theorem planFileAttributeGroups_congr (h : List.Forall₂ SameShape as bs) (recordNumber : ℕ)
    (listRun : Option NamedResidentOverflow) (cluster : ℕ) :
    planFileAttributeGroups recordNumber as listRun cluster =
      planFileAttributeGroups recordNumber bs listRun cluster := by
  cases h with
  | nil => rfl
  | cons hab hrest =>
    have hall := List.Forall₂.cons hab hrest
    simp only [planFileAttributeGroups, hab.attributeType, map_length_congr hall,
      planSpilledFile_congr hall hab, hall.length_eq]

theorem fileExtensionRecordCount_congr (h : List.Forall₂ SameShape as bs) (recordNumber : ℕ)
    (listRun : Option NamedResidentOverflow) (cluster : ℕ) :
    fileExtensionRecordCount recordNumber as listRun cluster =
      fileExtensionRecordCount recordNumber bs listRun cluster := by
  rw [fileExtensionRecordCount, planFileAttributeGroups_congr h, fileExtensionRecordCount]

end Congr

/-! ## Shapes of unnamed attributes -/

theorem attributeInstance_put {ps : List (Patch UInt8)} {total id : ℕ} (h : Ascending ps)
    (hmem : put 2 14 id ∈ ps) (hin : 16 ≤ total) :
    attributeInstance (applyAll ps (zeros total)) = .ok (fromLe (toLe 2 id)) := by
  have hlength : 16 ≤ (applyAll ps (zeros total)).length := by
    rwa [length_applyAll, length_zeros]
  have hfield := fieldAt_applyAll (l := zeros total) h hmem (by simpa using hin)
  rw [attributeInstance, ensure_of hlength, ok_bind, pure_eq_ok, leAt]
  exact congrArg (fun b => Except.ok (fromLe b)) (hfield.slice (length_toLe 2 id))

/-- What a plan sees of an unnamed attribute. -/
structure Unnamed (attributeType id : ℕ) (attr : Bytes) : Prop where
  attributeType : attributeTypeOf attr = .ok attributeType
  name : attributeNameUnits attr = .ok []
  id : attributeInstance attr = .ok (fromLe (toLe 2 id))

theorem Unnamed.sameShape {attributeType id : ℕ} {a b : Bytes} (ha : Unnamed attributeType id a)
    (hb : Unnamed attributeType id b) (hlength : a.length = b.length) : SameShape a b :=
  ⟨hlength, by rw [ha.attributeType, hb.attributeType], by rw [ha.name, hb.name],
    by rw [ha.id, hb.id]⟩

theorem attributeNameUnits_none {attr : Bytes} (hlength : 16 ≤ attr.length)
    (hname : attr.getD 9 0 = 0) : attributeNameUnits attr = .ok [] := by
  rw [attributeNameUnits, ensure_of hlength, ok_bind, hname]
  rfl

theorem residentAttribute_unnamed {attributeType id : ℕ} {value attr : Bytes}
    (h : residentAttribute attributeType none id value = .ok attr) (hknown : 0x10 ≤ attributeType)
    (hend : attributeType < attributeEnd) : Unnamed attributeType id attr := by
  obtain ⟨hencoded, htype, -⟩ := residentAttribute_encoded h hknown hend
  obtain ⟨valueOffset, total, rfl, hoffset, -, hin, -⟩ := residentAttribute_ok h
  have hascending : Ascending (residentPatches attributeType [] id valueOffset total value) :=
    ascending_residentPatches hoffset
  have hlength : 16 ≤ (applyAll (residentPatches attributeType ((none : Option (List UInt16)).getD [])
      id valueOffset total value) (zeros total)).length := hencoded.header
  refine ⟨?_, attributeNameUnits_none hlength ?_, ?_⟩
  · rw [attributeTypeOf_encoded hencoded, htype]
  · refine FieldAt.getD (fieldAt_applyAll (p := put 1 9 0) hascending ?_ ?_)
    · simp [residentPatches]
    · simp at hoffset ⊢
      omega
  · exact attributeInstance_put hascending (by simp [residentPatches]) (by simp at hoffset; omega)

theorem nonresidentAttributeFromPairs_unnamed {attributeType : ℕ} {pairs : Bytes}
    {lowestVcn fragmentClusters logical initialized allocated id : ℕ} {attr : Bytes}
    (hclusters : fragmentClusters ≠ 0)
    (h : nonresidentAttributeFromPairs attributeType pairs lowestVcn fragmentClusters logical
      initialized allocated id false = .ok attr)
    (hknown : 0x10 ≤ attributeType) (hend : attributeType < attributeEnd) :
    Unnamed attributeType id attr ∧ attr.length = alignEight (64 + pairs.length) := by
  obtain ⟨hencoded, htype, -⟩ := nonresidentAttributeFromPairs_encoded hclusters h hknown hend
  rw [nonresidentAttributeFromPairs, if_neg hclusters] at h
  simp only [bind_ok_iff, exists_const, ensure_ok_iff, orErr_ok_iff, checkedAdd_eq_some,
    checkedRange_eq_some, pure_eq_ok, Except.ok.injEq, Bool.false_eq_true, if_false,
    List.append_nil] at h
  obtain ⟨total, ⟨-, rfl⟩, highestVcn, ⟨-, rfl⟩, hsmall, rfl⟩ := h
  have hheader : nonresidentHeader false = 64 := rfl
  have hin := le_alignEight hsmall
  rw [hheader] at hencoded htype hin ⊢
  set total := alignEight (64 + pairs.length)
  set patches := [put 4 0 attributeType, put 4 4 total, put 1 8 1] ++
    [put 2 14 id, put 8 16 lowestVcn, put 8 24 (lowestVcn + fragmentClusters - 1), put 2 32 64] ++
    sizeFields lowestVcn logical initialized allocated false ++ [⟨64, pairs⟩] with hpatches
  have hascending : Ascending patches := by
    rw [hpatches]
    unfold Ascending sizeFields
    by_cases hlowest : lowestVcn = 0 <;> simp [hlowest]
  have hapart : ∀ p ∈ patches, p.offset + p.bytes.length ≤ 9 ∨ 9 < p.offset := by
    rw [hpatches]
    unfold sizeFields
    by_cases hlowest : lowestVcn = 0 <;> simp [hlowest]
  refine ⟨⟨?_, attributeNameUnits_none hencoded.header (getD_applyAll_zeros hapart), ?_⟩, ?_⟩
  · rw [attributeTypeOf_encoded hencoded, htype]
  · exact attributeInstance_put hascending (by simp [hpatches]) (by omega)
  · rw [length_applyAll, length_zeros]

end Ntfs

end StarConverter
