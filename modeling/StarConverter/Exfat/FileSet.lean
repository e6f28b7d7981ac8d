import StarConverter.Base.Fields
import StarConverter.Exfat.DirectoryScan
import StarConverter.Exfat.Timestamps

/-!
# File entry sets

What the formatter writes for one child of a directory: a file entry, its stream extension, as many
name entries as the name needs, and the checksum over all of them. `ShowsChild` says which fields a
reader finds; from these fields alone the directory parser makes the entry the set was written from
(`parseFileSet_shown`).
-/

namespace StarConverter

open Base

namespace Exfat

/-- Exact metadata of one object, field by field as it is stored. -/
structure ExfatObjectMetadata where
  object : ℕ
  fileAttributes : ℕ
  timestamps : ExfatTimestamps
  deriving DecidableEq

/-- What the entry set of a child tells. -/
structure ChildEntry where
  fileAttributes : ℕ
  timestamps : ExfatTimestamps
  name : List UInt16
  nameHash : ℕ
  validLength : ℕ
  firstCluster : ℕ
  dataLength : ℕ
  noFatChain : Bool
  deriving DecidableEq

/-- `write_timestamps` -/
def timestampFields (value : ExfatTimestamps) : List (Patch UInt8) :=
  [put 4 8 value.create, put 4 12 value.modified, put 4 16 value.accessed,
    ⟨20, [value.createCentiseconds]⟩, ⟨21, [value.modifiedCentiseconds]⟩,
    ⟨22, [value.createUtcOffset]⟩, ⟨23, [value.modifiedUtcOffset]⟩, ⟨24, [value.accessedUtcOffset]⟩]

/-- The type byte of the name entry that holds a unit. -/
def nameTypeField (index : ℕ) : Patch UInt8 := ⟨2 * entryBytes + index / 15 * entryBytes, [0xC1]⟩

/-- The place of a unit in its name entry. -/
def nameUnitField (index : ℕ) (unit : UInt16) : Patch UInt8 :=
  put 2 (2 * entryBytes + index / 15 * entryBytes + 2 + index % 15 * 2) unit.toNat

/-- The type byte is written once for each unit. -/
def nameFields (name : List UInt16) : List (Patch UInt8) :=
  (List.range name.length).flatMap fun index =>
    [nameTypeField index, nameUnitField index (name.getD index 0)]

/-- `set_checksum` -/
def withSetChecksum (set : Bytes) : Bytes :=
  let cleared := (put 2 2 0).apply set
  (put 2 2 (setChecksum cleared)).apply cleared

namespace ChildEntry

variable (child : ChildEntry)

def nameEntries : ℕ := divCeil child.name.length 15

def setEntries : ℕ := 2 + child.nameEntries

/-- The fields of the file entry and the stream extension, in ascending order. -/
def fixedFields : List (Patch UInt8) :=
  [⟨0, [0x85]⟩, put 1 1 (child.setEntries - 1), put 2 4 child.fileAttributes] ++
    timestampFields child.timestamps ++
    [⟨entryBytes, [0xC0]⟩, ⟨entryBytes + 1, [1 ||| if child.noFatChain then 2 else 0]⟩,
      put 1 (entryBytes + 3) child.name.length, put 2 (entryBytes + 4) child.nameHash,
      put 8 (entryBytes + 8) child.validLength, put 4 (entryBytes + 20) child.firstCluster,
      put 8 (entryBytes + 24) child.dataLength]

/-- The entry set of a child. -/
def entrySet : Bytes :=
  withSetChecksum
    (applyAll (child.fixedFields ++ nameFields child.name) (zeros (child.setEntries * entryBytes)))

end ChildEntry

/-! ## What a reader finds -/

/-- The fields of a file entry set. -/
structure ShowsChild (set : Bytes) (child : ChildEntry) : Prop where
  length : set.length = child.setEntries * entryBytes
  checksum : leAt 2 set 2 = setChecksum set
  fixed : ∀ p ∈ child.fixedFields, FieldAt set p.offset p.bytes
  reserved : ∀ gap ∈ [(6, 2), (25, 7), (entryBytes + 2, 1), (entryBytes + 6, 2),
    (entryBytes + 16, 4)], FieldAt set gap.1 (zeros gap.2)
  nameType : ∀ k < child.nameEntries, FieldAt set ((2 + k) * entryBytes) [0xC1]
  nameFlags : ∀ k < child.nameEntries, FieldAt set ((2 + k) * entryBytes + 1) [0]
  nameUnit : ∀ k < child.nameEntries, ∀ slot < 15, FieldAt set ((2 + k) * entryBytes + (2 + slot * 2))
    (toLe 2 (child.name.getD (15 * k + slot) 0).toNat)

theorem mem_nameFields {name : List UInt16} {p : Patch UInt8} :
    p ∈ nameFields name ↔ ∃ index < name.length,
      p = nameTypeField index ∨ p = nameUnitField index (name.getD index 0) := by
  simp only [nameFields, List.mem_flatMap, List.mem_range, List.mem_cons, List.not_mem_nil, or_false]

theorem rotatingSum_lt (bits : ℕ) (bytes : Bytes) : rotatingSum bits bytes < 2 ^ bits := by
  unfold rotatingSum
  cases bytes using List.reverseRecOn with
  | nil => exact Nat.two_pow_pos bits
  | append_singleton bytes b =>
    rw [List.foldl_append]
    exact Nat.mod_lt _ (Nat.two_pow_pos bits)

theorem length_withSetChecksum (set : Bytes) : (withSetChecksum set).length = set.length := by
  unfold withSetChecksum
  rw [Patch.length_apply, Patch.length_apply]

/-- The checksum stands in the set it was computed of. -/
theorem leAt_withSetChecksum {set : Bytes} (hlen : 4 ≤ set.length) :
    leAt 2 (withSetChecksum set) 2 = setChecksum (withSetChecksum set) := by
  set cleared := (put 2 2 0).apply set with hcleared
  have hlength : cleared.length = set.length := Patch.length_apply _ _
  have hstored : FieldAt (withSetChecksum set) 2 (toLe 2 (setChecksum cleared)) := by
    refine @fieldAt_applyAll_of_apart _ [put 2 2 (setChecksum cleared)] cleared _
      (List.mem_singleton_self _) ?_ fun q hq => .inl (List.mem_singleton.1 hq)
    rw [put_offset, length_put]
    omega
  have hsame : setChecksum (withSetChecksum set) = setChecksum cleared := by
    unfold setChecksum
    refine congrArg _ (congrArg₂ _ ?_ ?_)
    · exact @take_applyAll _ [put 2 2 (setChecksum cleared)] cleared _ fun p hp => by
        rw [List.mem_singleton.1 hp, put_offset]
    · exact @drop_applyAll _ [put 2 2 (setChecksum cleared)] cleared _ fun p hp => by
        rw [List.mem_singleton.1 hp, put_offset, length_put]
  rw [hsame]
  exact hstored.leAt (rotatingSum_lt 16 _)

/-- Fields apart from the checksum stay where they are. -/
theorem FieldAt.withSetChecksum {set s : Bytes} {offset : ℕ} (h : FieldAt set offset s)
    (hoff : offset + s.length ≤ 2 ∨ 4 ≤ offset) : FieldAt (Exfat.withSetChecksum set) offset s := by
  refine FieldAt.overwrite (FieldAt.overwrite h ?_) ?_
  · show 2 + (toLe 2 0).length ≤ offset ∨ offset + s.length ≤ 2
    rw [length_toLe]
    omega
  · show 2 + (toLe 2 _).length ≤ offset ∨ offset + s.length ≤ 2
    rw [length_toLe]
    omega

namespace ChildEntry

variable (child : ChildEntry)

theorem ascending_fixedFields : Ascending child.fixedFields := by
  simp [Ascending, fixedFields, timestampFields, entryBytes]

theorem fixedFields_le {p : Patch UInt8} (hp : p ∈ child.fixedFields) :
    p.offset + p.bytes.length ≤ 2 * entryBytes := by
  revert p
  simp [fixedFields, timestampFields, entryBytes]

/-- The fixed fields leave the checksum alone. -/
theorem fixedFields_apart {p : Patch UInt8} (hp : p ∈ child.fixedFields) :
    p.offset + p.bytes.length ≤ 2 ∨ 4 ≤ p.offset := by
  revert p
  simp [fixedFields, timestampFields, entryBytes]

/-- The fixed fields leave the reserved bytes alone. -/
theorem fixedFields_reserved {p : Patch UInt8} (hp : p ∈ child.fixedFields) :
    ∀ gap ∈ [(6, 2), (25, 7), (entryBytes + 2, 1), (entryBytes + 6, 2), (entryBytes + 16, 4)],
      p.offset + p.bytes.length ≤ gap.1 ∨ gap.1 + gap.2 ≤ p.offset := by
  revert p
  simp [fixedFields, timestampFields, entryBytes]

theorem nameFields_ge {name : List UInt16} {p : Patch UInt8} (hp : p ∈ nameFields name) :
    2 * entryBytes ≤ p.offset := by
  obtain ⟨index, -, rfl | rfl⟩ := mem_nameFields.1 hp
  · exact Nat.le_add_right _ _
  · show 2 * entryBytes ≤ 2 * entryBytes + index / 15 * entryBytes + 2 + index % 15 * 2
    omega

/-- The bytes of a set before its checksum. -/
def body : Bytes :=
  applyAll (child.fixedFields ++ nameFields child.name) (zeros (child.setEntries * entryBytes))

theorem length_body : child.body.length = child.setEntries * entryBytes := by
  rw [body, length_applyAll, length_zeros]

theorem fieldAt_fixed {p : Patch UInt8} (hp : p ∈ child.fixedFields) :
    FieldAt child.body p.offset p.bytes := by
  have hle := child.fixedFields_le hp
  unfold body
  rw [applyAll_append]
  refine FieldAt.applyAll (fieldAt_applyAll child.ascending_fixedFields hp ?_) fun q hq => .inr ?_
  · rw [length_zeros]
    unfold setEntries
    exact hle.trans (Nat.mul_le_mul_right _ (Nat.le_add_right _ _))
  · exact hle.trans (nameFields_ge hq)

theorem fieldAt_reserved {gap : ℕ × ℕ} (hgap : gap ∈ [(6, 2), (25, 7), (entryBytes + 2, 1),
    (entryBytes + 6, 2), (entryBytes + 16, 4)]) : FieldAt child.body gap.1 (zeros gap.2) := by
  have hle : gap.1 + gap.2 ≤ 2 * entryBytes := by
    revert gap
    simp [entryBytes]
  refine fieldAt_applyAll_zeros ?_ fun p hp => ?_
  · unfold setEntries
    exact hle.trans (Nat.mul_le_mul_right _ (Nat.le_add_right _ _))
  · rcases List.mem_append.1 hp with hp | hp
    · exact child.fixedFields_reserved hp gap hgap
    · exact .inr (hle.trans (nameFields_ge hp))

/-- Every field of the fixed part lies before the name entries. -/
theorem apart_nameEntry {p : Patch UInt8} {offset : ℕ} (hoff : 2 * entryBytes ≤ offset)
    (hp : p ∈ child.fixedFields) : p.offset + p.bytes.length ≤ offset :=
  (child.fixedFields_le hp).trans hoff

theorem nameEntries_le {k : ℕ} (hk : k < child.nameEntries) :
    15 * k < child.name.length ∧ (2 + k) * entryBytes + entryBytes ≤
      child.setEntries * entryBytes := by
  unfold nameEntries divCeil at hk
  unfold setEntries nameEntries divCeil entryBytes
  omega

theorem fieldAt_nameType {k : ℕ} (hk : k < child.nameEntries) :
    FieldAt child.body ((2 + k) * entryBytes) [0xC1] := by
  obtain ⟨hname, hin⟩ := child.nameEntries_le hk
  have hoffset : 2 * entryBytes + 15 * k / 15 * entryBytes = (2 + k) * entryBytes := by
    rw [Nat.mul_div_cancel_left _ (by norm_num), Nat.add_mul]
  have hmem : nameTypeField (15 * k) ∈ child.fixedFields ++ nameFields child.name :=
    List.mem_append_right _ (mem_nameFields.2 ⟨15 * k, hname, .inl rfl⟩)
  have hfield := @fieldAt_applyAll_of_apart UInt8 _ (zeros (child.setEntries * entryBytes)) _ hmem
    (by rw [length_zeros]; unfold nameTypeField; rw [hoffset]; unfold entryBytes at *; simp; omega)
    fun q hq => ?_
  · unfold nameTypeField at hfield
    rwa [hoffset] at hfield
  · rcases List.mem_append.1 hq with hq | hq
    · exact .inr (.inl (child.apart_nameEntry (Nat.le_add_right _ _) hq))
    · obtain ⟨index, hindex, rfl | rfl⟩ := mem_nameFields.1 hq
      · unfold nameTypeField
        rw [Patch.mk.injEq]
        simp only [List.length_singleton, and_true]
        unfold entryBytes
        omega
      · refine .inr ?_
        simp only [nameUnitField, nameTypeField, put_offset, length_put, List.length_singleton]
        unfold entryBytes
        omega

theorem fieldAt_nameFlags {k : ℕ} (hk : k < child.nameEntries) :
    FieldAt child.body ((2 + k) * entryBytes + 1) [0] := by
  obtain ⟨hname, hin⟩ := child.nameEntries_le hk
  refine fieldAt_applyAll_zeros (n := 1) ?_ fun p hp => ?_
  · unfold entryBytes at *
    omega
  · rcases List.mem_append.1 hp with hp | hp
    · refine .inl (child.apart_nameEntry ?_ hp)
      unfold entryBytes
      omega
    · obtain ⟨index, hindex, rfl | rfl⟩ := mem_nameFields.1 hp
      · simp only [nameTypeField, List.length_singleton]
        unfold entryBytes
        omega
      · simp only [nameUnitField, put_offset, length_put]
        unfold entryBytes
        omega

/-- A unit stands at its place, and the places behind the name are zero. -/
theorem fieldAt_nameUnit {k slot : ℕ} (hk : k < child.nameEntries) (hslot : slot < 15) :
    FieldAt child.body ((2 + k) * entryBytes + (2 + slot * 2))
      (toLe 2 (child.name.getD (15 * k + slot) 0).toNat) := by
  obtain ⟨hname, hin⟩ := child.nameEntries_le hk
  by_cases hunit : 15 * k + slot < child.name.length
  · have hmem : nameUnitField (15 * k + slot) (child.name.getD (15 * k + slot) 0) ∈
        child.fixedFields ++ nameFields child.name :=
      List.mem_append_right _ (mem_nameFields.2 ⟨_, hunit, .inr rfl⟩)
    have hoffset : 2 * entryBytes + (15 * k + slot) / 15 * entryBytes + 2 +
        (15 * k + slot) % 15 * 2 = (2 + k) * entryBytes + (2 + slot * 2) := by
      unfold entryBytes
      omega
    have hfield := @fieldAt_applyAll_of_apart UInt8 _ (zeros (child.setEntries * entryBytes)) _ hmem
      (by
        rw [length_zeros, nameUnitField, put_offset, length_put, hoffset]
        unfold entryBytes at *
        omega)
      fun q hq => ?_
    · unfold nameUnitField at hfield
      rwa [put_offset, hoffset] at hfield
    · rcases List.mem_append.1 hq with hq | hq
      · refine .inr (.inl (child.apart_nameEntry ?_ hq))
        rw [nameUnitField, put_offset]
        omega
      · obtain ⟨index, hindex, rfl | rfl⟩ := mem_nameFields.1 hq
        · refine .inr ?_
          simp only [nameUnitField, nameTypeField, put_offset, length_put, List.length_singleton]
          unfold entryBytes
          omega
        · by_cases hsame : index = 15 * k + slot
          · exact .inl (by rw [hsame])
          · refine .inr ?_
            simp only [nameUnitField, put_offset, length_put]
            unfold entryBytes
            omega
  · rw [List.getD_eq_getElem?_getD, List.getElem?_eq_none (by omega), Option.getD_none,
      show (0 : UInt16).toNat = 0 from rfl, toLe_zero]
    refine fieldAt_applyAll_zeros ?_ fun p hp => ?_
    · unfold entryBytes at *
      omega
    · rcases List.mem_append.1 hp with hp | hp
      · refine .inl (child.apart_nameEntry ?_ hp)
        unfold entryBytes
        omega
      · obtain ⟨index, hindex, rfl | rfl⟩ := mem_nameFields.1 hp
        · simp only [nameTypeField, List.length_singleton]
          unfold entryBytes
          omega
        · simp only [nameUnitField, put_offset, length_put]
          unfold entryBytes
          omega

/-- The set of a child shows the child. -/
theorem shows_entrySet : ShowsChild child.entrySet child where
  length := by
    rw [entrySet, length_withSetChecksum]
    exact child.length_body
  checksum := by
    refine leAt_withSetChecksum ?_
    rw [length_applyAll, length_zeros]
    unfold setEntries entryBytes
    omega
  fixed p hp := FieldAt.withSetChecksum (child.fieldAt_fixed hp) (child.fixedFields_apart hp)
  reserved gap hgap := by
    refine FieldAt.withSetChecksum (child.fieldAt_reserved hgap) (.inr ?_)
    revert gap
    simp [entryBytes]
  nameType k hk := by
    refine FieldAt.withSetChecksum (child.fieldAt_nameType hk) (.inr ?_)
    unfold entryBytes
    omega
  nameFlags k hk := by
    refine FieldAt.withSetChecksum (child.fieldAt_nameFlags hk) (.inr ?_)
    unfold entryBytes
    omega
  nameUnit k hk slot hslot := by
    refine FieldAt.withSetChecksum (child.fieldAt_nameUnit hk hslot) (.inr ?_)
    unfold entryBytes
    omega

end ChildEntry

/-! ## The parser reads the set back -/

/-- Where a name stands behind its entries there are only zeros. -/
def ChildEntry.paddedUnits (child : ChildEntry) : List UInt16 :=
  (List.range (15 * child.nameEntries)).map fun i => child.name.getD i 0

/-- Units with zeros behind them. -/
theorem take_padded {units : List UInt16} {n : ℕ} (h : units.length ≤ n) :
    ((List.range n).map fun i => units.getD i 0).take units.length = units := by
  apply List.ext_getElem?
  intro i
  by_cases hi : i < units.length
  · rw [List.getElem?_take_of_lt hi, List.getElem?_map, List.getElem?_range (by omega),
      Option.map_some, List.getD_eq_getElem?_getD, List.getElem?_eq_getElem hi, Option.getD_some]
  · rw [List.getElem?_take_eq_none (by omega), List.getElem?_eq_none (by omega)]

theorem drop_padded (units : List UInt16) (n : ℕ) :
    (((List.range n).map fun i => units.getD i 0).drop units.length).all (· = 0) = true := by
  rw [List.all_eq_true]
  intro unit hunit
  obtain ⟨i, hi⟩ := List.mem_iff_getElem?.1 hunit
  rw [List.getElem?_drop, List.getElem?_map, Option.map_eq_some_iff] at hi
  obtain ⟨j, hj, rfl⟩ := hi
  obtain ⟨hlt, hj⟩ := List.getElem?_eq_some_iff.1 hj
  rw [← hj, List.getElem_range, List.getD_eq_getElem?_getD, List.getElem?_eq_none (by omega)]
  rfl

theorem take_paddedUnits (child : ChildEntry) :
    child.paddedUnits.take child.name.length = child.name := by
  refine take_padded ?_
  unfold ChildEntry.nameEntries divCeil
  omega

theorem drop_paddedUnits (child : ChildEntry) :
    (child.paddedUnits.drop child.name.length).all (· = 0) = true := drop_padded _ _

theorem requireZero_ok {entry : Bytes} {start n index : ℕ} (h : FieldAt entry start (zeros n)) :
    requireZero entry start (start + n) index = .ok () := by
  have hnone : (List.range' start (start + n - start)).find?
      (fun offset => byteAt entry offset ≠ 0) = none := by
    rw [List.find?_eq_none]
    intro offset hoffset
    obtain ⟨hlow, hhigh⟩ := List.mem_range'_1.1 hoffset
    have hzero : (zeros n)[offset - start]? = some 0 := by
      rw [zeros, List.getElem?_replicate, if_pos (by omega)]
    rw [← h.2, getElem?_sliceAt, length_zeros, if_pos (by omega), Nat.add_sub_cancel' hlow] at hzero
    rw [byteAt, List.getD_eq_getElem?_getD, hzero]
    simp
  unfold requireZero
  rw [hnone]
  rfl

section Read

variable {directory set : Bytes} {context : DirectoryContext} {index : ℕ} {child : ChildEntry}

namespace ShowsChild

variable (h : ShowsChild set child)

include h

theorem entryAt_eq {k : ℕ} (hk : k < child.setEntries) :
    entryAt set k = .ok (entryBytesAt set k) := by
  refine entryAt_of_lt ?_
  rwa [h.length, Nat.mul_div_cancel _ (by decide)]

/-- A field of the set, inside its entry. -/
theorem entryField {k offset : ℕ} {s : Bytes} (hk : k < child.setEntries)
    (hfield : FieldAt set (k * entryBytes + offset) s) (hin : offset + s.length ≤ entryBytes) :
    FieldAt (entryBytesAt set k) offset s := by
  refine hfield.window hin ?_
  rw [h.length, ← Nat.succ_mul]
  exact Nat.mul_le_mul_right _ hk

theorem nameMember_ok {k : ℕ} (hk : k < child.nameEntries) :
    nameMember set index (2 + k) =
      .ok ((List.range 15).map fun slot => child.name.getD (15 * k + slot) 0) := by
  have hentry : 2 + k < child.setEntries := by
    unfold ChildEntry.setEntries
    omega
  have htype : FieldAt (entryBytesAt set (2 + k)) 0 [0xC1] :=
    h.entryField hentry (h.nameType k hk) (by decide)
  have hflags : FieldAt (entryBytesAt set (2 + k)) 1 [0] :=
    h.entryField hentry (h.nameFlags k hk) (by decide)
  rw [nameMember, h.entryAt_eq hentry, ok_bind, byteAt, htype.getD, ensure_of rfl, ok_bind, byteAt,
    hflags.getD, ensure_of rfl, ok_bind, pure_eq_ok, unitsAt]
  refine congrArg _ (List.map_congr_left fun slot hslot => ?_)
  have hslot := List.mem_range.1 hslot
  have hunit : FieldAt (entryBytesAt set (2 + k)) (2 + slot * 2)
      (toLe 2 (child.name.getD (15 * k + slot) 0).toNat) := by
    refine h.entryField hentry (h.nameUnit k hk slot hslot) ?_
    rw [length_toLe]
    unfold entryBytes
    omega
  rw [hunit.leAt (UInt16.toNat_lt _), UInt16.ofNat_toNat]

theorem nameMembers_ok :
    nameMembers set index (List.range' 2 child.nameEntries) = .ok child.paddedUnits := by
  have hall : ∀ n first, first + n = child.nameEntries →
      nameMembers set index (List.range' (2 + first) n) =
        .ok ((List.range' (15 * first) (15 * n)).map fun i => child.name.getD i 0) := by
    intro n
    induction n with
    | zero => exact fun _ _ => rfl
    | succ n ih =>
      intro first hfirst
      rw [List.range'_succ, nameMembers, h.nameMember_ok (by omega), ok_bind, Nat.add_assoc,
        ih (first + 1) (by omega), ok_bind, pure_eq_ok]
      have hsplit : List.range' (15 * first) (15 * (n + 1)) =
          List.range' (15 * first) 15 ++ List.range' (15 * (first + 1)) (15 * n) := by
        rw [Nat.mul_succ, Nat.mul_succ, Nat.add_comm (15 * n) 15, ← List.range'_append_1]
      have hfirst15 : List.range' (15 * first) 15 =
          (List.range 15).map fun slot => 15 * first + slot := by
        rw [List.range_eq_range', List.map_add_range']
        rfl
      rw [hsplit, List.map_append, hfirst15, List.map_map]
      rfl
  have hzero := hall child.nameEntries 0 (Nat.zero_add _)
  rwa [Nat.add_zero, Nat.mul_zero, ← List.range_eq_range'] at hzero

/-- The entries of a set inside a directory. -/
theorem entryBytesAt_directory (hset : FieldAt directory (index * entryBytes) set) {k : ℕ}
    (hk : k < child.setEntries) : entryBytesAt directory (index + k) = entryBytesAt set k := by
  have hle : k * entryBytes + entryBytes ≤ set.length := by
    rw [h.length, ← Nat.succ_mul]
    exact Nat.mul_le_mul_right _ hk
  unfold entryBytesAt
  rw [Nat.add_mul, ← sliceAt_sliceAt hle, hset.2]

theorem checkedSet_ok (hset : FieldAt directory (index * entryBytes) set)
    (hlen : directory.length < wordBound)
    (hsecondary : child.setEntries - 1 ≤ context.maxSecondaryEntries) :
    checkedSet directory index (child.setEntries - 1) context = .ok set := by
  have hcount : child.setEntries - 1 + 1 = child.setEntries := Nat.sub_add_cancel (by
    unfold ChildEntry.setEntries
    omega)
  have hstop := hset.1
  rw [h.length, ← Nat.add_mul] at hstop
  have hend : index + child.setEntries ≤ directory.length / entryBytes :=
    (Nat.le_div_iff_mul_le (by decide)).2 hstop
  have hword : index + child.setEntries < wordBound :=
    lt_of_le_of_lt (hend.trans (Nat.div_le_self _ _)) hlen
  rw [checkedSet, ensure_of hsecondary, ok_bind, hcount, checkedAdd_of_lt hword, orErr_some, ok_bind,
    ensure_of hend, ok_bind, slice?,
    if_pos ⟨Nat.mul_le_mul_right _ (Nat.le_add_right _ _), hstop⟩, orErr_some]
  refine congrArg _ ?_
  rw [Nat.add_mul, Nat.add_sub_cancel_left, ← h.length]
  exact hset.2

end ShowsChild

/-- What the parser asks of a child. -/
structure ChildEntry.Readable (child : ChildEntry) (context : DirectoryContext) : Prop where
  attributes_lt : child.fileAttributes < 2 ^ 16
  attributes : child.fileAttributes &&& 0xFFC8 = 0
  create_lt : child.timestamps.create < 2 ^ 32
  modified_lt : child.timestamps.modified < 2 ^ 32
  accessed_lt : child.timestamps.accessed < 2 ^ 32
  create : validTimestamp child.timestamps.create = true
  modified : validTimestamp child.timestamps.modified = true
  accessed : validTimestamp child.timestamps.accessed = true
  createCentiseconds : child.timestamps.createCentiseconds ≤ 199
  modifiedCentiseconds : child.timestamps.modifiedCentiseconds ≤ 199
  createUtc : validUtc child.timestamps.createUtcOffset = true
  modifiedUtc : validUtc child.timestamps.modifiedUtcOffset = true
  accessedUtc : validUtc child.timestamps.accessedUtcOffset = true
  name_ne : child.name ≠ []
  name_le : child.name.length ≤ 255
  units : ∀ index, validateNameUnits child.name index true = .ok ()
  hash_lt : child.nameHash < 2 ^ 16
  cluster_lt : child.firstCluster < 2 ^ 32
  data_lt : child.dataLength < 2 ^ 64
  valid_le : child.validLength ≤ child.dataLength
  allocation : ∀ index, validateAllocation index child.firstCluster child.dataLength child.noFatChain
    context = .ok ()
  directory : child.fileAttributes &&& 0x10 ≠ 0 →
    child.validLength = child.dataLength ∧ child.dataLength ≤ maxDirectoryBytes
  secondaries : child.setEntries - 1 ≤ context.maxSecondaryEntries

/-- The entry a child is read back as. -/
def ChildEntry.fileEntry (child : ChildEntry) : FileEntry where
  fileAttributes := child.fileAttributes
  createTimestamp := child.timestamps.create
  modifiedTimestamp := child.timestamps.modified
  accessedTimestamp := child.timestamps.accessed
  createCentiseconds := child.timestamps.createCentiseconds
  modifiedCentiseconds := child.timestamps.modifiedCentiseconds
  createUtcOffset := child.timestamps.createUtcOffset
  modifiedUtcOffset := child.timestamps.modifiedUtcOffset
  accessedUtcOffset := child.timestamps.accessedUtcOffset
  isDirectory := child.fileAttributes &&& 0x10 ≠ 0
  noFatChain := child.noFatChain
  nameHash := child.nameHash
  validDataLength := child.validLength
  firstCluster := child.firstCluster
  dataLength := child.dataLength
  name := child.name
  namePaddingZeroed := true
  benignSecondaryEntries := 0
  rawSet := child.entrySet

/-- The values of a file entry. -/
structure PrimaryShows (entry : Bytes) (child : ChildEntry) : Prop where
  count : byteAt entry 1 = UInt8.ofNat (child.setEntries - 1)
  attributes : leAt 2 entry 4 = child.fileAttributes
  create : leAt 4 entry 8 = child.timestamps.create
  modified : leAt 4 entry 12 = child.timestamps.modified
  accessed : leAt 4 entry 16 = child.timestamps.accessed
  createCentiseconds : byteAt entry 20 = child.timestamps.createCentiseconds
  modifiedCentiseconds : byteAt entry 21 = child.timestamps.modifiedCentiseconds
  createUtc : byteAt entry 22 = child.timestamps.createUtcOffset
  modifiedUtc : byteAt entry 23 = child.timestamps.modifiedUtcOffset
  accessedUtc : byteAt entry 24 = child.timestamps.accessedUtcOffset
  reserved : ∀ index, requireZero entry 6 8 index = .ok () ∧ requireZero entry 25 32 index = .ok ()

/-- The values of a stream extension. -/
structure StreamShows (entry : Bytes) (child : ChildEntry) : Prop where
  entryType : byteAt entry 0 = 0xC0
  flags : byteAt entry 1 = 1 ||| if child.noFatChain then 2 else 0
  nameLength : byteAt entry 3 = UInt8.ofNat child.name.length
  nameHash : leAt 2 entry 4 = child.nameHash
  validLength : leAt 8 entry 8 = child.validLength
  firstCluster : leAt 4 entry 20 = child.firstCluster
  dataLength : leAt 8 entry 24 = child.dataLength
  reserved : ∀ index, requireZero entry 2 3 index = .ok () ∧ requireZero entry 6 8 index = .ok () ∧
    requireZero entry 16 20 index = .ok ()

section Values

variable (h : ShowsChild set child) (hchild : child.Readable context)

include h

theorem ShowsChild.primaryField {offset : ℕ} {s : Bytes}
    (hmem : (⟨offset, s⟩ : Patch UInt8) ∈ child.fixedFields) (hin : offset + s.length ≤ entryBytes) :
    FieldAt (entryBytesAt set 0) offset s := by
  refine h.entryField (Nat.lt_of_lt_of_le two_pos (Nat.le_add_right _ _)) ?_ hin
  rw [Nat.zero_mul, Nat.zero_add]
  exact h.fixed _ hmem

theorem ShowsChild.streamField {offset : ℕ} {s : Bytes}
    (hmem : (⟨entryBytes + offset, s⟩ : Patch UInt8) ∈ child.fixedFields)
    (hin : offset + s.length ≤ entryBytes) : FieldAt (entryBytesAt set 1) offset s := by
  refine h.entryField (Nat.lt_of_lt_of_le one_lt_two (Nat.le_add_right _ _)) ?_ hin
  rw [Nat.one_mul]
  exact h.fixed _ hmem

theorem ShowsChild.primaryByte {offset : ℕ} {b : UInt8}
    (hmem : (⟨offset, [b]⟩ : Patch UInt8) ∈ child.fixedFields) (hin : offset + 1 ≤ entryBytes) :
    byteAt (entryBytesAt set 0) offset = b := (h.primaryField hmem hin).getD

theorem ShowsChild.streamByte {offset : ℕ} {b : UInt8}
    (hmem : (⟨entryBytes + offset, [b]⟩ : Patch UInt8) ∈ child.fixedFields)
    (hin : offset + 1 ≤ entryBytes) : byteAt (entryBytesAt set 1) offset = b :=
  (h.streamField hmem hin).getD

theorem ShowsChild.reservedZero (k offset n : ℕ) (hk : k < 2)
    (hmem : (k * entryBytes + offset, n) ∈ [(6, 2), (25, 7), (entryBytes + 2, 1),
      (entryBytes + 6, 2), (entryBytes + 16, 4)]) (hin : offset + n ≤ entryBytes) (index : ℕ) :
    requireZero (entryBytesAt set k) offset (offset + n) index = .ok () := by
  refine requireZero_ok (h.entryField (Nat.lt_of_lt_of_le hk (Nat.le_add_right _ _))
    (h.reserved _ hmem) ?_)
  rwa [length_zeros]

include hchild

theorem ShowsChild.primaryShows : PrimaryShows (entryBytesAt set 0) child where
  count := h.primaryByte (by simp [ChildEntry.fixedFields, put, toLe]) (by decide)
  attributes := (h.primaryField (s := toLe 2 child.fileAttributes)
    (by simp [ChildEntry.fixedFields, put]) (by rw [length_toLe]; decide)).leAt hchild.attributes_lt
  create := (h.primaryField (s := toLe 4 child.timestamps.create)
    (by simp [ChildEntry.fixedFields, timestampFields, put]) (by rw [length_toLe]; decide)).leAt
      hchild.create_lt
  modified := (h.primaryField (s := toLe 4 child.timestamps.modified)
    (by simp [ChildEntry.fixedFields, timestampFields, put]) (by rw [length_toLe]; decide)).leAt
      hchild.modified_lt
  accessed := (h.primaryField (s := toLe 4 child.timestamps.accessed)
    (by simp [ChildEntry.fixedFields, timestampFields, put]) (by rw [length_toLe]; decide)).leAt
      hchild.accessed_lt
  createCentiseconds := h.primaryByte (by simp [ChildEntry.fixedFields, timestampFields]) (by decide)
  modifiedCentiseconds := h.primaryByte (by simp [ChildEntry.fixedFields, timestampFields]) (by decide)
  createUtc := h.primaryByte (by simp [ChildEntry.fixedFields, timestampFields]) (by decide)
  modifiedUtc := h.primaryByte (by simp [ChildEntry.fixedFields, timestampFields]) (by decide)
  accessedUtc := h.primaryByte (by simp [ChildEntry.fixedFields, timestampFields]) (by decide)
  reserved index := ⟨h.reservedZero 0 6 2 two_pos (by simp) (by decide) index,
    h.reservedZero 0 25 7 two_pos (by simp) (by decide) index⟩

theorem ShowsChild.streamShows : StreamShows (entryBytesAt set 1) child where
  entryType := h.streamByte (by simp [ChildEntry.fixedFields]) (by decide)
  flags := h.streamByte (by simp [ChildEntry.fixedFields]) (by decide)
  nameLength := h.streamByte (by simp [ChildEntry.fixedFields, put, toLe]) (by decide)
  nameHash := (h.streamField (s := toLe 2 child.nameHash) (by simp [ChildEntry.fixedFields, put])
    (by rw [length_toLe]; decide)).leAt hchild.hash_lt
  validLength := (h.streamField (s := toLe 8 child.validLength)
    (by simp [ChildEntry.fixedFields, put]) (by rw [length_toLe]; decide)).leAt
      (lt_of_le_of_lt hchild.valid_le hchild.data_lt)
  firstCluster := (h.streamField (s := toLe 4 child.firstCluster)
    (by simp [ChildEntry.fixedFields, put]) (by rw [length_toLe]; decide)).leAt hchild.cluster_lt
  dataLength := (h.streamField (s := toLe 8 child.dataLength)
    (by simp [ChildEntry.fixedFields, put]) (by rw [length_toLe]; decide)).leAt hchild.data_lt
  reserved index := ⟨h.reservedZero 1 2 1 one_lt_two (by simp) (by decide) index,
    h.reservedZero 1 6 2 one_lt_two (by simp) (by decide) index,
    h.reservedZero 1 16 4 one_lt_two (by simp) (by decide) index⟩

theorem ShowsChild.validateFilePrimary_ok : validateFilePrimary (entryBytesAt set 0) index = .ok () := by
  have hp := h.primaryShows hchild
  simp only [validateFilePrimary, bind_unit_ok_iff, checkAll_ok_iff, validateTimestamp_ok_iff,
    ensure_ok_iff, ← validUtc_iff]
  refine ⟨?_, (hp.reserved index).1, (hp.reserved index).2, fun offset ho => ?_, fun offset ho => ?_,
    fun offset ho => ?_⟩
  · rw [hp.attributes]
    exact hchild.attributes
  · simp only [List.mem_cons, List.not_mem_nil, or_false] at ho
    obtain rfl | rfl | rfl := ho
    · exact hp.create.symm ▸ hchild.create
    · exact hp.modified.symm ▸ hchild.modified
    · exact hp.accessed.symm ▸ hchild.accessed
  · simp only [List.mem_cons, List.not_mem_nil, or_false] at ho
    obtain rfl | rfl := ho
    · exact hp.createCentiseconds.symm ▸ hchild.createCentiseconds
    · exact hp.modifiedCentiseconds.symm ▸ hchild.modifiedCentiseconds
  · simp only [List.mem_cons, List.not_mem_nil, or_false] at ho
    obtain rfl | rfl | rfl := ho
    · exact hp.createUtc.symm ▸ hchild.createUtc
    · exact hp.modifiedUtc.symm ▸ hchild.modifiedUtc
    · exact hp.accessedUtc.symm ▸ hchild.accessedUtc

theorem ShowsChild.validateStreamEntry_ok :
    validateStreamEntry (entryBytesAt set 1) index = .ok () := by
  have hs := h.streamShows hchild
  have hname : UInt8.ofNat child.name.length ≠ 0 := by
    intro hzero
    have hnat := congrArg UInt8.toNat hzero
    rw [UInt8.toNat_ofNat_of_lt' (Nat.lt_succ_of_le hchild.name_le)] at hnat
    exact hchild.name_ne (List.length_eq_zero_iff.1 hnat)
  simp only [validateStreamEntry, bind_unit_ok_iff, ensure_ok_iff]
  refine ⟨hs.entryType, ?_, (hs.reserved _).1, (hs.reserved _).2.1, (hs.reserved _).2.2, ?_⟩
  · rw [hs.flags]
    cases child.noFatChain <;> decide
  · rwa [hs.nameLength]

/-- **An entry set reads back.** A directory that holds the set of a child is parsed there as the
child, and the parser goes on behind the set. -/
theorem ShowsChild.parseFileSet_shown (hset : FieldAt directory (index * entryBytes) set)
    (hlen : directory.length < wordBound) (heq : set = child.entrySet) :
    parseFileSet directory index context = .ok (child.fileEntry, child.setEntries) := by
  have hp := h.primaryShows hchild
  have hs := h.streamShows hchild
  have hentries : child.setEntries = 2 + child.nameEntries := rfl
  have hnames : child.nameEntries ≤ 17 := by
    have hle := hchild.name_le
    unfold ChildEntry.nameEntries divCeil
    omega
  have hcount : (UInt8.ofNat (child.setEntries - 1)).toNat = child.setEntries - 1 :=
    UInt8.toNat_ofNat_of_lt' (by show _ < 256; omega)
  have hnameLength : (UInt8.ofNat child.name.length).toNat = child.name.length :=
    UInt8.toNat_ofNat_of_lt' (Nat.lt_succ_of_le hchild.name_le)
  have hfirst : entryAt directory index = .ok (entryBytesAt set 0) := by
    have hstop := hset.1
    rw [h.length, ← Nat.add_mul] at hstop
    have hend := (Nat.le_div_iff_mul_le (k := entryBytes) (by decide)).2 hstop
    rw [entryAt_of_lt (by omega), ← h.entryBytesAt_directory hset (by omega), Nat.add_zero]
  have hnext : child.setEntries - 1 - (1 + child.nameEntries) = 0 := by omega
  have hflag : decide (byteAt (entryBytesAt set 1) 1 &&& 2 ≠ 0) = child.noFatChain := by
    rw [hs.flags]
    cases child.noFatChain <;> decide
  rw [parseFileSet, hfirst, ok_bind, hp.count, hcount]
  dsimp only
  rw [h.checkedSet_ok hset hlen hchild.secondaries, ok_bind, verifySetChecksum,
    ensure_of h.checksum, ok_bind, h.validateFilePrimary_ok hchild, ok_bind,
    h.entryAt_eq (by omega), ok_bind, h.validateStreamEntry_ok hchild, ok_bind, hs.nameLength,
    hnameLength, ensure_of (show divCeil child.name.length 15 + 1 ≤ child.setEntries - 1 by
      rw [hentries, ChildEntry.nameEntries]; omega), ok_bind, ← ChildEntry.nameEntries, h.nameMembers_ok,
    ok_bind, take_paddedUnits, hchild.units, ok_bind, hnext, List.range'_zero, checkAll,
    ok_bind, hflag, hs.firstCluster, hs.dataLength, hs.validLength, hchild.allocation, ok_bind,
    ensure_of hchild.valid_le, ok_bind, hp.attributes,
    ensure_of fun hne => hne.2 (hchild.directory (of_decide_eq_true hne.1)).1, ok_bind,
    ensure_of fun hlt => absurd (hchild.directory (of_decide_eq_true hlt.1)).2 (Nat.not_le.2 hlt.2),
    ok_bind, pure_eq_ok, hp.create, hp.modified, hp.accessed, hp.createCentiseconds,
    hp.modifiedCentiseconds, hp.createUtc, hp.modifiedUtc, hp.accessedUtc, hs.nameHash,
    drop_paddedUnits, heq, Nat.sub_add_cancel (by omega)]
  rfl

end Values

end Read

end Exfat

end StarConverter
