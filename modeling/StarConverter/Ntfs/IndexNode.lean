import Mathlib.Data.List.GetD
import StarConverter.Base.BlockTree
import StarConverter.Ntfs.IndexSerialize
import StarConverter.Ntfs.Record

/-!
# Reading index nodes back

What the serializer appends for a node is read back by the parser: every key decodes to the metadata
it was written from (`decodeFileName_shown`), every entry is accepted (`validateEntry_shown`), and a
whole node decodes to its entries with their child pointers (`decodeEntries_shown`).
-/

namespace StarConverter

open Base

namespace Ntfs

namespace ByteView

variable {view : ByteView} {offset : ℕ} {s t : Bytes}

/-- The view shows the string at an offset. -/
def Shows (view : ByteView) (offset : ℕ) (s : Bytes) : Prop :=
  ∀ i < s.length, view.byte (offset + i) = s.getD i 0

theorem shows_plain {bytes : Bytes} (h : FieldAt bytes offset s) :
    (plain bytes).Shows offset s := fun _ hi => getD_fieldAt h hi

theorem Shows.field (h : view.Shows offset s) {i : ℕ} (ht : FieldAt s i t) :
    view.Shows (offset + i) t := by
  intro j hj
  have hin := ht.1
  rw [Nat.add_assoc, h (i + j) (by omega), getD_fieldAt ht hj]

theorem Shows.left (h : view.Shows offset (s ++ t)) : view.Shows offset s := by
  have hfield : FieldAt (s ++ t) 0 s := by simpa using fieldAt_append [] s t
  exact h.field hfield

theorem Shows.right (h : view.Shows offset (s ++ t)) : view.Shows (offset + s.length) t := by
  have hfield : FieldAt (s ++ t) s.length t := by simpa using fieldAt_append s t []
  exact h.field hfield

theorem Shows.bytes (h : view.Shows offset s) {n : ℕ} (hn : s.length = n) :
    ((List.range n).map fun i => view.byte (offset + i)) = s := by
  subst hn
  apply List.ext_getElem
  · rw [List.length_map, List.length_range]
  · intro i hi hs
    rw [List.getElem_map, List.getElem_range, h i hs, List.getD_eq_getElem _ _ hs]

theorem Shows.word {n v : ℕ} (h : view.Shows offset (toLe n v)) (hv : v < 256 ^ n) :
    view.word n offset = v := by
  rw [ByteView.word, h.bytes (length_toLe n v), fromLe_toLe n v hv]

theorem Shows.byte {b : UInt8} (h : view.Shows offset [b]) : view.byte offset = b :=
  h 0 Nat.zero_lt_one

end ByteView

open ByteView

/-! ## Keys -/

/-- The key of an entry. -/
def NtfsDirectoryIndexEntry.key (entry : NtfsDirectoryIndexEntry) : NtfsFileNameKey where
  parentDirectory := entry.parentDirectory
  creationTime := entry.creationTime
  modificationTime := entry.modificationTime
  mftChangeTime := entry.mftChangeTime
  accessTime := entry.accessTime
  allocatedSize := entry.allocatedSize
  dataSize := entry.dataSize
  fileAttributes := entry.fileAttributes
  reparseTagOrEaSize := entry.reparseTagOrEaSize
  nameSpace := entry.nameSpace
  name := entry.name

/-- An entry that can be written. -/
structure EntryFits (maximumName : ℕ) (entry : NtfsDirectoryIndexEntry) : Prop where
  nonempty : entry.name ≠ []
  name : entry.name.length ≤ maximumName
  reference : entry.fileReference.recordNumber.toNat ≤ maxMftRecordNumber
  parent : entry.parentDirectory.recordNumber.toNat ≤ maxMftRecordNumber

def encodedReference (reference : NtfsFileReference) : ℕ :=
  reference.recordNumber.toNat ||| reference.sequenceNumber.toNat <<< 48

theorem encodeReference_ok_iff {reference : NtfsFileReference} {raw : ℕ} :
    encodeReference reference = .ok raw ↔
      reference.recordNumber.toNat ≤ maxMftRecordNumber ∧ encodedReference reference = raw := by
  simp only [encodeReference, bind_ok_iff, exists_const, ensure_ok_iff, pure_eq_ok,
    Except.ok.injEq, encodedReference]

theorem encodedReference_eq {reference : NtfsFileReference}
    (h : reference.recordNumber.toNat ≤ maxMftRecordNumber) :
    encodedReference reference =
      reference.sequenceNumber.toNat * 2 ^ 48 + reference.recordNumber.toNat := by
  unfold maxMftRecordNumber at h
  rw [encodedReference, Nat.or_comm, ← Nat.shiftLeft_add_eq_or_of_lt (by omega),
    Nat.shiftLeft_eq]

theorem encodedReference_lt {reference : NtfsFileReference}
    (h : reference.recordNumber.toNat ≤ maxMftRecordNumber) :
    encodedReference reference < 256 ^ 8 := by
  have hs := reference.sequenceNumber.toNat_lt
  rw [encodedReference_eq h]
  unfold maxMftRecordNumber at h
  omega

theorem decodeReference_encoded {reference : NtfsFileReference}
    (h : reference.recordNumber.toNat ≤ maxMftRecordNumber) :
    decodeReference (encodedReference reference) = reference := by
  have hs := reference.sequenceNumber.toNat_lt
  rw [decodeReference, encodedReference_eq h]
  unfold maxMftRecordNumber at h
  rw [show (reference.sequenceNumber.toNat * 2 ^ 48 + reference.recordNumber.toNat) % 2 ^ 48 =
      reference.recordNumber.toNat by omega,
    show (reference.sequenceNumber.toNat * 2 ^ 48 + reference.recordNumber.toNat) / 2 ^ 48 =
      reference.sequenceNumber.toNat by omega, UInt64.ofNat_toNat, UInt16.ofNat_toNat]

theorem decodeNamespace_byte (nameSpace : FileNameNamespace) :
    decodeNamespace (namespaceByte nameSpace) = nameSpace := by
  cases nameSpace <;> rfl

def keyPatches (entry : NtfsDirectoryIndexEntry) : List (Patch UInt8) :=
  [put 8 0 (encodedReference entry.parentDirectory), put 8 8 entry.creationTime.toNat,
    put 8 16 entry.modificationTime.toNat, put 8 24 entry.mftChangeTime.toNat,
    put 8 32 entry.accessTime.toNat, put 8 40 entry.allocatedSize.toNat,
    put 8 48 entry.dataSize.toNat, put 4 56 entry.fileAttributes.toNat,
    put 4 60 entry.reparseTagOrEaSize.toNat, put 1 64 entry.name.length,
    ⟨65, [namespaceByte entry.nameSpace]⟩, ⟨fileNameKeyHeaderBytes, utf16Bytes entry.name⟩]

def encodedKey (entry : NtfsDirectoryIndexEntry) : Bytes :=
  applyAll (keyPatches entry) (zeros (fileNameKeyHeaderBytes + entry.name.length * 2))

@[simp] theorem length_encodedKey (entry : NtfsDirectoryIndexEntry) :
    (encodedKey entry).length = fileNameKeyHeaderBytes + entry.name.length * 2 := by
  rw [encodedKey, length_applyAll, length_zeros]

theorem encodeFileNameKey_ok {entry : NtfsDirectoryIndexEntry} {key : Bytes}
    (h : encodeFileNameKey entry = .ok key) : key = encodedKey entry := by
  simp only [encodeFileNameKey, bind_ok_iff, exists_const, ensure_ok_iff, orErr_ok_iff,
    checkedMul_eq_some, checkedAdd_eq_some, encodeReference_ok_iff, pure_eq_ok,
    Except.ok.injEq] at h
  obtain ⟨_, ⟨_, rfl⟩, _, ⟨_, rfl⟩, _, ⟨_, rfl⟩, _, rfl⟩ := h
  rfl

theorem ascending_keyPatches (entry : NtfsDirectoryIndexEntry) : Ascending (keyPatches entry) := by
  simp [Ascending, keyPatches, fileNameKeyHeaderBytes]

theorem fieldAt_encodedKey {entry : NtfsDirectoryIndexEntry} {p : Patch UInt8}
    (hp : p ∈ keyPatches entry) : FieldAt (encodedKey entry) p.offset p.bytes := by
  refine fieldAt_applyAll (ascending_keyPatches entry) hp ?_
  have hall : ∀ p ∈ keyPatches entry,
      p.offset + p.bytes.length ≤ fileNameKeyHeaderBytes + entry.name.length * 2 := by
    simp only [keyPatches, List.forall_mem_cons, put_offset, length_put, List.length_singleton,
      length_utf16Bytes, fileNameKeyHeaderBytes]
    refine ⟨?_, ?_, ?_, ?_, ?_, ?_, ?_, ?_, ?_, ?_, ?_, ?_, fun _ h => by cases h⟩ <;> omega
  rw [length_zeros]
  exact hall p hp

/-- The units of a name stand one behind the other. -/
theorem utf16_shown {view : ByteView} {offset : ℕ} {name : List UInt16}
    (h : view.Shows offset (utf16Bytes name)) :
    ((List.range name.length).map fun i => UInt16.ofNat (view.word 2 (offset + i * 2))) = name := by
  induction name generalizing offset with
  | nil => rfl
  | cons unit name ih =>
    have hsplit : utf16Bytes (unit :: name) = toLe 2 unit.toNat ++ utf16Bytes name := rfl
    rw [hsplit] at h
    have hunit : view.word 2 offset = unit.toNat := h.left.word unit.toNat_lt
    have hright := h.right
    rw [length_toLe] at hright
    rw [List.length_cons, List.range_succ_eq_map, List.map_cons, Nat.zero_mul, Nat.add_zero, hunit,
      UInt16.ofNat_toNat, List.map_map]
    congr 1
    refine (List.map_congr_left fun i _ => ?_).trans (ih hright)
    rw [Function.comp_apply, show offset + (i + 1) * 2 = offset + 2 + i * 2 by omega]

/-- A key reads back as the metadata it was written from. -/
theorem decodeFileName_shown {view : ByteView} {offset maximumName : ℕ}
    {entry : NtfsDirectoryIndexEntry} (hfits : EntryFits maximumName entry)
    (hname : maximumName ≤ 255) (h : view.Shows offset (encodedKey entry)) :
    decodeFileName view offset = entry.key := by
  have hword : ∀ {n i v : ℕ}, put n i v ∈ keyPatches entry → v < 256 ^ n →
      view.word n (offset + i) = v := fun hp hv => (h.field (fieldAt_encodedKey hp)).word hv
  have hparent : view.word 8 offset = encodedReference entry.parentDirectory :=
    hword (i := 0) (by simp [keyPatches]) (encodedReference_lt hfits.parent)
  have hnameSpace : view.byte (offset + 65) = namespaceByte entry.nameSpace :=
    (h.field (fieldAt_encodedKey (p := ⟨65, [namespaceByte entry.nameSpace]⟩)
      (by simp [keyPatches]))).byte
  have hunits : (view.byte (offset + 64)).toNat = entry.name.length := by
    have hone : view.word 1 (offset + 64) = entry.name.length := by
      refine hword (by simp [keyPatches]) ?_
      have := hfits.name
      omega
    rw [← hone]
    simp [ByteView.word, fromLe]
  have hunitsAt : view.Shows (offset + fileNameKeyHeaderLen) (utf16Bytes entry.name) :=
    h.field (fieldAt_encodedKey (p := ⟨fileNameKeyHeaderBytes, utf16Bytes entry.name⟩)
      (by simp [keyPatches]))
  unfold decodeFileName NtfsDirectoryIndexEntry.key
  rw [hparent, decodeReference_encoded hfits.parent, hnameSpace, decodeNamespace_byte, hunits,
    utf16_shown hunitsAt,
    hword (n := 8) (i := 8) (by simp [keyPatches]) entry.creationTime.toNat_lt,
    hword (n := 8) (i := 16) (by simp [keyPatches]) entry.modificationTime.toNat_lt,
    hword (n := 8) (i := 24) (by simp [keyPatches]) entry.mftChangeTime.toNat_lt,
    hword (n := 8) (i := 32) (by simp [keyPatches]) entry.accessTime.toNat_lt,
    hword (n := 8) (i := 40) (by simp [keyPatches]) entry.allocatedSize.toNat_lt,
    hword (n := 8) (i := 48) (by simp [keyPatches]) entry.dataSize.toNat_lt,
    hword (n := 4) (i := 56) (by simp [keyPatches]) entry.fileAttributes.toNat_lt,
    hword (n := 4) (i := 60) (by simp [keyPatches]) entry.reparseTagOrEaSize.toNat_lt]
  simp only [UInt64.ofNat_toNat, UInt32.ofNat_toNat]

/-- A key is accepted. -/
theorem validateFileNameKey_shown {view : ByteView} {offset maximumName : ℕ}
    {limits : NtfsIndexLimits} {entry : NtfsDirectoryIndexEntry}
    (hfits : EntryFits maximumName entry) (hname : maximumName ≤ 255)
    (hlimit : maximumName ≤ limits.maxNameCodeUnits) (h : view.Shows offset (encodedKey entry)) :
    validateFileNameKey view offset (encodedKey entry).length limits = .ok () := by
  have hkey := congrArg (fun key => (key.name.length, key.nameSpace))
    (decodeFileName_shown hfits hname h)
  have hunits : (view.byte (offset + 64)).toNat = entry.name.length := by
    simpa [decodeFileName, NtfsDirectoryIndexEntry.key] using congrArg Prod.fst hkey
  have hnameSpace : view.byte (offset + 65) = namespaceByte entry.nameSpace :=
    (h.field (fieldAt_encodedKey (p := ⟨65, [namespaceByte entry.nameSpace]⟩)
      (by simp [keyPatches]))).byte
  have hbyte : (namespaceByte entry.nameSpace).toNat ≤ 3 := by
    cases entry.nameSpace <;> decide
  have hne : entry.name.length ≠ 0 := fun h0 => hfits.nonempty (List.length_eq_zero_iff.1 h0)
  have hle := hfits.name
  have hsizes : fileNameKeyHeaderLen = fileNameKeyHeaderBytes := rfl
  rw [validateFileNameKey, length_encodedKey,
    ensure_of (show fileNameKeyHeaderLen ≤ fileNameKeyHeaderBytes + entry.name.length * 2 from
      Nat.le_add_right _ _), ok_bind]
  dsimp only
  rw [hunits, hnameSpace, ensure_of hne, ok_bind, ensure_of (by omega), ok_bind, ensure_of hbyte,
    ok_bind, hsizes, ensure_of rfl]

/-! ## Entries -/

/-- The length of an entry with a name of so many units. -/
def entryLen (nameUnits : ℕ) (child : Bool) : ℕ :=
  (indexEntryHeaderBytes + fileNameKeyHeaderBytes + nameUnits * 2 + (if child then 8 else 0) + 7) /
    8 * 8

theorem serializedEntryLen_ok {nameUnits length : ℕ} {child : Bool}
    (h : serializedEntryLen nameUnits child = .ok length) : length = entryLen nameUnits child := by
  simp only [serializedEntryLen, checkedAlignEight, bind_ok_iff, orErr_ok_iff, checkedMul_eq_some,
    checkedAdd_eq_some, pure_eq_ok, Except.ok.injEq] at h
  obtain ⟨_, ⟨_, rfl⟩, _, ⟨_, rfl⟩, _, ⟨_, rfl⟩, _, ⟨_, rfl⟩, rfl⟩ := h
  rfl

theorem serializedEntryLen_of_le {nameUnits : ℕ} {child : Bool} (h : nameUnits ≤ 255) :
    serializedEntryLen nameUnits child = .ok (entryLen nameUnits child) := by
  have hchild : (if child then 8 else 0) ≤ 8 := by split <;> omega
  have hb : wordBound = 2 ^ 64 := rfl
  unfold serializedEntryLen checkedAlignEight entryLen indexEntryHeaderBytes fileNameKeyHeaderBytes
  rw [show checkedMul nameUnits 2 = some (nameUnits * 2) by
      rw [checkedMul_eq_some]; exact ⟨by omega, rfl⟩, orErr_some, ok_bind,
    checkedAdd_of_lt (by omega), orErr_some, ok_bind, checkedAdd_of_lt (by omega), orErr_some,
    ok_bind, checkedAdd_of_lt (by omega), orErr_some, ok_bind]
  rfl

theorem entryLen_mod (nameUnits : ℕ) (child : Bool) : entryLen nameUnits child % 8 = 0 :=
  Nat.mul_mod_left _ _

theorem entryLen_bounds (nameUnits : ℕ) (child : Bool) :
    82 + nameUnits * 2 + (if child then 8 else 0) ≤ entryLen nameUnits child ∧
      entryLen nameUnits child ≤ 89 + nameUnits * 2 + (if child then 8 else 0) := by
  unfold entryLen indexEntryHeaderBytes fileNameKeyHeaderBytes
  omega

/-- The length of an entry of a node. -/
def entrySize : NodeEntry NtfsDirectoryIndexEntry → ℕ
  | (some entry, childVcn) => entryLen entry.name.length childVcn.isSome
  | (none, childVcn) => serializedTerminalLen childVcn.isSome

/-- The length of the key of an entry of a node. -/
def keySize : NodeEntry NtfsDirectoryIndexEntry → ℕ
  | (some entry, _) => fileNameKeyHeaderBytes + entry.name.length * 2
  | (none, _) => 0

def entryFlags : NodeEntry NtfsDirectoryIndexEntry → ℕ
  | (some _, childVcn) => nodeFlag childVcn
  | (none, childVcn) => indexEntryEnd ||| nodeFlag childVcn

/-- The fields in front of the child pointer. -/
def frontPatches : NodeEntry NtfsDirectoryIndexEntry → List (Patch UInt8)
  | (some entry, childVcn) =>
    [put 8 0 (encodedReference entry.fileReference),
      put 2 8 (entrySize (some entry, childVcn)), put 2 10 (encodedKey entry).length,
      put 2 12 (entryFlags (some entry, childVcn)), ⟨indexEntryHeaderBytes, encodedKey entry⟩]
  | (none, childVcn) =>
    [put 2 8 (entrySize (none, childVcn)), put 2 12 (entryFlags (none, childVcn))]

/-- The bytes of an entry of a node. -/
def entryBytes (entry : NodeEntry NtfsDirectoryIndexEntry) : Bytes :=
  applyAll (frontPatches entry ++ childPatch (entrySize entry) entry.2) (zeros (entrySize entry))

@[simp] theorem length_entryBytes (entry : NodeEntry NtfsDirectoryIndexEntry) :
    (entryBytes entry).length = entrySize entry := by
  rw [entryBytes, length_applyAll, length_zeros]

/-- The parser's view of an entry of a node. -/
def decodedEntry (entry : NodeEntry NtfsDirectoryIndexEntry) : NtfsIndexEntry where
  fileReference := entry.1.map (·.fileReference)
  entryLength := entrySize entry
  keyLength := keySize entry
  hasChild := entry.2.isSome
  isEnd := entry.1.isNone
  childVcn := entry.2
  fileName := entry.1.map (·.key)

structure NodeEntryFits (maximumName : ℕ) (entry : NodeEntry NtfsDirectoryIndexEntry) : Prop where
  key : ∀ e ∈ entry.1, EntryFits maximumName e
  child : ∀ vcn ∈ entry.2, vcn < 2 ^ 63

theorem entrySize_mod (entry : NodeEntry NtfsDirectoryIndexEntry) : entrySize entry % 8 = 0 := by
  obtain ⟨_ | e, c⟩ := entry
  · cases c <;> simp [entrySize, serializedTerminalLen, indexEntryHeaderBytes]
  · exact entryLen_mod _ _

/-- An entry has room for its header, its key and its child pointer, and no more than it needs. -/
theorem entrySize_eq (entry : NodeEntry NtfsDirectoryIndexEntry) :
    entrySize entry =
      (indexEntryHeaderBytes + keySize entry + (if entry.2.isSome then 8 else 0) + 7) / 8 * 8 := by
  obtain ⟨_ | e, c⟩ := entry
  · cases c <;> simp [entrySize, serializedTerminalLen, keySize, indexEntryHeaderBytes]
  · simp only [entrySize, entryLen, keySize, Nat.add_assoc]

theorem entrySize_le (entry : NodeEntry NtfsDirectoryIndexEntry) :
    indexEntryHeaderBytes + keySize entry + (if entry.2.isSome then 8 else 0) ≤ entrySize entry := by
  rw [entrySize_eq]
  omega

/-- Where the fields of an entry stand. -/
theorem patches_inside {entry : NodeEntry NtfsDirectoryIndexEntry} {p : Patch UInt8}
    (hp : p ∈ frontPatches entry ++ childPatch (entrySize entry) entry.2) :
    p.offset + p.bytes.length ≤ entrySize entry ∧
      (p.offset + p.bytes.length ≤ 14 ∨ indexEntryHeaderBytes ≤ p.offset) := by
  have hsize := entrySize_le entry
  obtain ⟨_ | e, _ | c⟩ := entry
  · simp only [frontPatches, childPatch, List.append_nil, List.mem_cons, List.not_mem_nil,
      or_false] at hp
    rcases hp with rfl | rfl <;>
      simp only [put_offset, length_put, indexEntryHeaderBytes] at hsize ⊢ <;> omega
  · simp only [frontPatches, childPatch, List.cons_append, List.nil_append, List.mem_cons,
      List.not_mem_nil, or_false] at hp
    simp only [Option.isSome_some, if_true] at hsize
    rcases hp with rfl | rfl | rfl <;>
      simp only [put_offset, length_put, indexEntryHeaderBytes] at hsize ⊢ <;> omega
  · simp only [frontPatches, childPatch, List.append_nil, List.mem_cons, List.not_mem_nil,
      or_false] at hp
    rcases hp with rfl | rfl | rfl | rfl | rfl <;>
      simp only [put_offset, length_put, length_encodedKey, indexEntryHeaderBytes, keySize]
        at hsize ⊢ <;> omega
  · simp only [frontPatches, childPatch, List.cons_append, List.nil_append, List.mem_cons,
      List.not_mem_nil, or_false] at hp
    simp only [Option.isSome_some, if_true] at hsize
    rcases hp with rfl | rfl | rfl | rfl | rfl | rfl <;>
      simp only [put_offset, length_put, length_encodedKey, indexEntryHeaderBytes, keySize]
        at hsize ⊢ <;> omega

theorem ascending_entry (entry : NodeEntry NtfsDirectoryIndexEntry) :
    Ascending (frontPatches entry ++ childPatch (entrySize entry) entry.2) := by
  have hsize := entrySize_le entry
  obtain ⟨_ | e, _ | c⟩ := entry
  · simp [Ascending, frontPatches, childPatch]
  · simp only [Option.isSome_some, if_true, indexEntryHeaderBytes] at hsize
    simp [Ascending, frontPatches, childPatch]
    omega
  · simp [Ascending, frontPatches, childPatch, indexEntryHeaderBytes]
  · simp only [keySize, Option.isSome_some, if_true, indexEntryHeaderBytes] at hsize
    simp [Ascending, frontPatches, childPatch, indexEntryHeaderBytes]
    omega

theorem fieldAt_entryBytes {entry : NodeEntry NtfsDirectoryIndexEntry} {p : Patch UInt8}
    (hp : p ∈ frontPatches entry ++ childPatch (entrySize entry) entry.2) :
    FieldAt (entryBytes entry) p.offset p.bytes := by
  refine fieldAt_applyAll (ascending_entry entry) hp ?_
  rw [length_zeros]
  exact (patches_inside hp).1

section Entry

variable {view : ByteView} {offset maximumName : ℕ} {entry : NodeEntry NtfsDirectoryIndexEntry}

theorem word_shown (h : view.Shows offset (entryBytes entry)) {n i v : ℕ}
    (hp : put n i v ∈ frontPatches entry ++ childPatch (entrySize entry) entry.2)
    (hv : v < 256 ^ n) : view.word n (offset + i) = v :=
  (h.field (fieldAt_entryBytes hp)).word hv

theorem entrySize_lt (hfits : NodeEntryFits maximumName entry) (hname : maximumName ≤ 255) :
    entrySize entry < 2 ^ 10 := by
  have hkey : keySize entry ≤ 576 := by
    obtain ⟨_ | e, c⟩ := entry
    · exact Nat.zero_le _
    · have hle := (hfits.key e rfl).name
      simp only [keySize, fileNameKeyHeaderBytes]
      omega
  rw [entrySize_eq, indexEntryHeaderBytes]
  split <;> omega

theorem entryFlags_lt (entry : NodeEntry NtfsDirectoryIndexEntry) : entryFlags entry < 4 := by
  obtain ⟨_ | e, _ | c⟩ := entry <;>
    simp [entryFlags, nodeFlag, indexEntryNode, indexEntryEnd]

theorem entryFlags_child (entry : NodeEntry NtfsDirectoryIndexEntry) :
    (entryFlags entry).testBit 0 = entry.2.isSome := by
  obtain ⟨_ | e, _ | c⟩ := entry <;>
    simp [entryFlags, nodeFlag, indexEntryNode, indexEntryEnd]

theorem entryFlags_end (entry : NodeEntry NtfsDirectoryIndexEntry) :
    (entryFlags entry).testBit 1 = entry.1.isNone := by
  obtain ⟨_ | e, _ | c⟩ := entry <;>
    simp [entryFlags, nodeFlag, indexEntryNode, indexEntryEnd, Nat.testBit]

theorem shown_length (h : view.Shows offset (entryBytes entry))
    (hfits : NodeEntryFits maximumName entry) (hname : maximumName ≤ 255) :
    view.word 2 (offset + 8) = entrySize entry := by
  have hlt := entrySize_lt hfits hname
  refine word_shown h ?_ (by omega)
  obtain ⟨_ | e, c⟩ := entry <;> simp [frontPatches]

theorem shown_flags (h : view.Shows offset (entryBytes entry)) :
    view.word 2 (offset + 12) = entryFlags entry := by
  have hlt := entryFlags_lt entry
  refine word_shown h ?_ (by omega)
  obtain ⟨_ | e, c⟩ := entry <;> simp [frontPatches]

theorem shown_zero (h : view.Shows offset (entryBytes entry)) {i : ℕ}
    (hi : i + 2 ≤ indexEntryHeaderBytes)
    (happart : ∀ p ∈ frontPatches entry ++ childPatch (entrySize entry) entry.2,
      p.offset + p.bytes.length ≤ i ∨ i + 2 ≤ p.offset) : view.word 2 (offset + i) = 0 := by
  have hsize := entrySize_le entry
  have hzero : FieldAt (entryBytes entry) i (toLe 2 0) := by
    rw [toLe_zero]
    exact (fieldAt_zeros (by omega)).applyAll happart
  exact (h.field hzero).word (by norm_num)

theorem shown_reserved (h : view.Shows offset (entryBytes entry)) :
    view.word 2 (offset + 14) = 0 :=
  shown_zero h (i := 14) (by decide) fun _ hp => (patches_inside hp).2

theorem shown_keyLength (h : view.Shows offset (entryBytes entry))
    (hfits : NodeEntryFits maximumName entry) (hname : maximumName ≤ 255) :
    view.word 2 (offset + 10) = keySize entry := by
  obtain ⟨_ | e, c⟩ := entry
  · refine shown_zero h (i := 10) (by decide) fun p hp => ?_
    have hsize := entrySize_le (none, c)
    rcases List.mem_append.1 hp with hp | hp
    · simp only [frontPatches, List.mem_cons, List.not_mem_nil, or_false] at hp
      rcases hp with rfl | rfl <;> simp
    · cases c with
      | none => cases hp
      | some vcn =>
        obtain rfl := List.mem_singleton.1 hp
        simp only [Option.isSome_some, if_true, indexEntryHeaderBytes] at hsize
        simp only [put_offset, length_put]
        omega
  · have hlt := entrySize_lt hfits hname
    have hle := entrySize_le (some e, c)
    simp only [keySize] at hle ⊢
    refine word_shown h ?_ (by omega)
    simp [frontPatches]

theorem shown_child (h : view.Shows offset (entryBytes entry))
    (hfits : NodeEntryFits maximumName entry) {vcn : ℕ} (hvcn : entry.2 = some vcn) :
    view.word 8 (offset + entrySize entry - 8) = vcn := by
  have hsize := entrySize_le entry
  rw [hvcn, Option.isSome_some, if_pos rfl] at hsize
  have hlt := hfits.child vcn hvcn
  rw [show offset + entrySize entry - 8 = offset + (entrySize entry - 8) by omega]
  refine word_shown h ?_ (by omega)
  rw [hvcn]
  simp [childPatch]

theorem fieldAt_key (e : NtfsDirectoryIndexEntry) (childVcn : Option ℕ) :
    FieldAt (entryBytes (some e, childVcn)) indexEntryHeaderBytes (encodedKey e) := by
  have hmem : (⟨indexEntryHeaderBytes, encodedKey e⟩ : Patch UInt8) ∈
      frontPatches (some e, childVcn) := by
    simp only [frontPatches, List.mem_cons, true_or, or_true]
  have h := @fieldAt_entryBytes (some e, childVcn) _ (List.mem_append_left _ hmem)
  dsimp only at h
  exact h

theorem shown_key {e : NtfsDirectoryIndexEntry} {childVcn : Option ℕ}
    (h : view.Shows offset (entryBytes (some e, childVcn))) :
    view.Shows (offset + indexEntryHeaderBytes) (encodedKey e) :=
  h.field (fieldAt_key e childVcn)

/-- An entry decodes to what it was written from. -/
theorem decodeEntry_shown (h : view.Shows offset (entryBytes entry))
    (hfits : NodeEntryFits maximumName entry) (hname : maximumName ≤ 255) :
    decodeEntry view offset = decodedEntry entry := by
  unfold decodeEntry decodedEntry
  dsimp only
  rw [shown_length h hfits hname, shown_keyLength h hfits hname, shown_flags h,
    entryFlags_child, entryFlags_end]
  have hchild : (if entry.2.isSome then some (view.word 8 (offset + entrySize entry - 8)) else none) =
      entry.2 := by
    cases hc : entry.2 with
    | none => rfl
    | some vcn => rw [← hc, shown_child h hfits hc, hc]; rfl
  rw [hchild]
  obtain ⟨_ | e, c⟩ := entry
  · rfl
  · have hreference : view.word 8 (offset + 0) = encodedReference e.fileReference :=
      word_shown h (by simp [frontPatches]) (encodedReference_lt (hfits.key e rfl).reference)
    simp only [Option.isNone_some, Option.map_some, Bool.false_eq_true, if_false]
    rw [Nat.add_zero] at hreference
    rw [hreference, decodeReference_encoded (hfits.key e rfl).reference,
      show indexEntryHeaderLen = indexEntryHeaderBytes from rfl,
      decodeFileName_shown (hfits.key e rfl) hname (shown_key h)]

theorem signedWord_nonneg {raw : ℕ} (h : raw < 2 ^ 63) : ¬ signedWord raw < 0 := by
  rw [signedWord, if_pos h]
  omega

/-- An entry is accepted. -/
theorem validateEntry_shown {limits : NtfsIndexLimits} {remaining : ℕ}
    (h : view.Shows offset (entryBytes entry)) (hfits : NodeEntryFits maximumName entry)
    (hname : maximumName ≤ 255) (hlimit : maximumName ≤ limits.maxNameCodeUnits)
    (hremaining : entrySize entry ≤ remaining) :
    validateEntry view offset remaining limits =
      .ok ⟨entrySize entry, entry.1.isNone, entry.2.isSome⟩ := by
  have hsize := entrySize_le entry
  have hlt := entrySize_lt hfits hname
  have heq := entrySize_eq entry
  have hheader : indexEntryHeaderLen = indexEntryHeaderBytes := rfl
  have halign : alignEight (indexEntryHeaderLen + keySize entry +
      (if entry.2.isSome then 8 else 0)) = entrySize entry := by
    rw [alignEight_eq (by rw [hheader]; unfold wordBound; omega), heq, hheader]
  have hkey : (if entry.1.isNone then .ok ()
      else validateFileNameKey view (offset + indexEntryHeaderLen) (keySize entry) limits) =
        (.ok () : Except NtfsIndexError Unit) := by
    obtain ⟨_ | e, c⟩ := entry
    · rfl
    · have := validateFileNameKey_shown (hfits.key e rfl) hname hlimit (shown_key h)
      rw [length_encodedKey] at this
      exact this
  have hend : ¬ (entry.1.isNone = true ∧ keySize entry ≠ 0) := by
    obtain ⟨_ | e, c⟩ := entry <;> simp [keySize]
  have hchild : ¬ (entry.2.isSome = true ∧
      signedWord (view.word 8 (offset + entrySize entry - 8)) < 0) := by
    rintro ⟨hsome, hneg⟩
    obtain ⟨vcn, hvcn⟩ := Option.isSome_iff_exists.1 hsome
    rw [shown_child h hfits hvcn] at hneg
    exact signedWord_nonneg (hfits.child vcn hvcn) hneg
  rw [validateEntry]
  dsimp only
  rw [shown_length h hfits hname, shown_keyLength h hfits hname, shown_flags h, shown_reserved h,
    entryFlags_child, entryFlags_end, ensure_of rfl, ok_bind, ensure_of (entryFlags_lt entry),
    ok_bind, ensure_of ⟨by rw [hheader]; omega, hremaining⟩, ok_bind,
    ensure_of (entrySize_mod entry), ok_bind, ensure_of (by rw [hheader]; omega), ok_bind,
    ensure_of (by rw [hheader]; omega), ok_bind, ensure_of hend, ok_bind, hkey, ok_bind, halign,
    ensure_of rfl, ok_bind, ensure_of hchild, ok_bind]
  rfl

end Entry

/-! ## Nodes -/

/-- The entries of a node: its keys with the child pointers before them, and the terminal entry. -/
def nodeEntries : List NtfsDirectoryIndexEntry → List (Option ℕ) →
    List (NodeEntry NtfsDirectoryIndexEntry)
  | [], children => [(none, children.headD none)]
  | entry :: rest, children => (some entry, children.headD none) :: nodeEntries rest children.tail

def nodeBytes (entries : List (NodeEntry NtfsDirectoryIndexEntry)) : Bytes :=
  entries.flatMap entryBytes

theorem appendEntry_ok {output out : Bytes} {entry : NtfsDirectoryIndexEntry}
    {childVcn : Option ℕ} (h : appendEntry output entry childVcn = .ok out) :
    out = output ++ entryBytes (some entry, childVcn) := by
  simp only [appendEntry, bind_ok_iff, exists_const, ensure_ok_iff, orErr_ok_iff,
    checkedAdd_eq_some, encodeReference_ok_iff, pure_eq_ok, Except.ok.injEq] at h
  obtain ⟨key, hkey, length, hlength, _, -, reference, ⟨-, rfl⟩, -, -, rfl⟩ := h
  obtain rfl := encodeFileNameKey_ok hkey
  obtain rfl := serializedEntryLen_ok hlength
  rfl

theorem appendTerminal_ok {output out : Bytes} {childVcn : Option ℕ}
    (h : appendTerminal output childVcn = .ok out) :
    out = output ++ entryBytes (none, childVcn) := by
  simp only [appendTerminal, bind_ok_iff, exists_const, ensure_ok_iff, orErr_ok_iff,
    checkedAdd_eq_some, pure_eq_ok, Except.ok.injEq] at h
  obtain ⟨_, -, -, rfl⟩ := h
  rfl

theorem appendNode_ok {output out : Bytes} {entries : List NtfsDirectoryIndexEntry}
    {children : List (Option ℕ)} (h : appendNode output entries children = .ok out) :
    out = output ++ nodeBytes (nodeEntries entries children) := by
  induction entries generalizing output children with
  | nil =>
    rw [appendTerminal_ok h, nodeEntries, nodeBytes, List.flatMap_cons, List.flatMap_nil,
      List.append_nil]
  | cons entry rest ih =>
    simp only [appendNode, bind_ok_iff] at h
    obtain ⟨next, hnext, h⟩ := h
    rw [ih h, appendEntry_ok hnext, List.append_assoc]
    rfl

theorem nodeBytes_cons (entry : NodeEntry NtfsDirectoryIndexEntry)
    (rest : List (NodeEntry NtfsDirectoryIndexEntry)) :
    nodeBytes (entry :: rest) = entryBytes entry ++ nodeBytes rest := rfl

theorem length_nodeBytes (entries : List (NodeEntry NtfsDirectoryIndexEntry)) :
    (nodeBytes entries).length = (entries.map entrySize).sum := by
  rw [nodeBytes, List.length_flatMap]
  simp only [length_entryBytes]

theorem length_nodeEntries (entries : List NtfsDirectoryIndexEntry) (children : List (Option ℕ)) :
    (nodeEntries entries children).length = entries.length + 1 := by
  induction entries generalizing children with
  | nil => rfl
  | cons entry rest ih => rw [nodeEntries, List.length_cons, ih, List.length_cons]

theorem indexEntryHeaderBytes_le (entry : NodeEntry NtfsDirectoryIndexEntry) :
    indexEntryHeaderBytes ≤ entrySize entry := by
  have := entrySize_le entry
  omega

theorem length_lt_nodeBytes (entries : List NtfsDirectoryIndexEntry) (children : List (Option ℕ)) :
    entries.length < (nodeBytes (nodeEntries entries children)).length := by
  induction entries generalizing children with
  | nil =>
    have h := indexEntryHeaderBytes_le (none, children.headD none)
    rw [nodeEntries, nodeBytes_cons, List.length_append, length_entryBytes]
    unfold indexEntryHeaderBytes at h
    simp only [List.length_nil]
    omega
  | cons entry rest ih =>
    have h := indexEntryHeaderBytes_le (some entry, children.headD none)
    have := ih children.tail
    rw [nodeEntries, nodeBytes_cons, List.length_append, length_entryBytes, List.length_cons]
    unfold indexEntryHeaderBytes at h
    omega

section Node

variable {view : ByteView} {maximumName : ℕ} {limits : NtfsIndexLimits}

/-- A node whose entries all have a child or all have none is accepted. -/
theorem validateEntriesFrom_shown {cursor usedEnd fuel count : ℕ} {child hasChildren every : Bool}
    {entries : List NtfsDirectoryIndexEntry} {children : List (Option ℕ)}
    (h : view.Shows cursor (nodeBytes (nodeEntries entries children)))
    (hfits : ∀ entry ∈ nodeEntries entries children, NodeEntryFits maximumName entry)
    (hname : maximumName ≤ 255) (hlimit : maximumName ≤ limits.maxNameCodeUnits)
    (huniform : ∀ entry ∈ nodeEntries entries children, entry.2.isSome = child)
    (hcount : count + entries.length + 1 ≤ limits.maxEntriesPerNode)
    (hstop : usedEnd = cursor + (nodeBytes (nodeEntries entries children)).length)
    (hfuel : entries.length < fuel) :
    validateEntriesFrom view usedEnd limits fuel cursor count hasChildren every =
      .ok (count + entries.length + 1, hasChildren || child, every && child) := by
  induction entries generalizing cursor fuel count children hasChildren every with
  | nil =>
    obtain ⟨fuel, rfl⟩ : ∃ k, fuel = k + 1 := ⟨fuel - 1, by simp at hfuel; omega⟩
    rw [nodeEntries] at h hfits huniform hstop
    rw [nodeBytes_cons, show nodeBytes [] = [] from rfl, List.append_nil] at h hstop
    rw [length_entryBytes] at hstop
    have hsize := indexEntryHeaderBytes_le (none, children.headD none)
    have hchild := huniform _ List.mem_cons_self
    rw [validateEntriesFrom, ensure_of (by simp at hcount; omega), ok_bind]
    dsimp only
    rw [ensure_of (show indexEntryHeaderLen ≤ usedEnd - cursor by
        rw [show indexEntryHeaderLen = indexEntryHeaderBytes from rfl]; omega), ok_bind,
      validateEntry_shown h (hfits _ List.mem_cons_self) hname hlimit (by omega), ok_bind]
    dsimp only at hchild ⊢
    rw [hchild, Option.isNone_none, if_pos rfl, ensure_of (by omega), ok_bind]
    rfl
  | cons entry rest ih =>
    obtain ⟨fuel, rfl⟩ : ∃ k, fuel = k + 1 := ⟨fuel - 1, by simp at hfuel; omega⟩
    rw [nodeEntries] at h hfits huniform hstop
    rw [nodeBytes_cons] at h hstop
    rw [List.length_append, length_entryBytes] at hstop
    have hsize := indexEntryHeaderBytes_le (some entry, children.headD none)
    have hchild := huniform _ List.mem_cons_self
    have hright := h.right
    rw [length_entryBytes] at hright
    rw [List.length_cons] at hcount hfuel ⊢
    rw [validateEntriesFrom, ensure_of (by omega), ok_bind]
    dsimp only
    rw [ensure_of (show indexEntryHeaderLen ≤ usedEnd - cursor by
        rw [show indexEntryHeaderLen = indexEntryHeaderBytes from rfl]; omega), ok_bind,
      validateEntry_shown h.left (hfits _ List.mem_cons_self) hname hlimit (by omega), ok_bind]
    dsimp only at hchild ⊢
    rw [hchild, Option.isNone_some, if_neg (by decide),
      ih hright (fun e he => hfits e (List.mem_cons_of_mem _ he))
        (fun e he => huniform e (List.mem_cons_of_mem _ he)) (by omega) (by omega) (by omega)]
    cases child <;> simp [Nat.add_assoc, Nat.add_comm 1]

/-- A node decodes to its entries. -/
theorem decodeEntries_shown {cursor : ℕ} {entries : List NtfsDirectoryIndexEntry}
    {children : List (Option ℕ)}
    (h : view.Shows cursor (nodeBytes (nodeEntries entries children)))
    (hfits : ∀ entry ∈ nodeEntries entries children, NodeEntryFits maximumName entry)
    (hname : maximumName ≤ 255) :
    decodeEntries view (entries.length + 1) cursor =
      (nodeEntries entries children).map decodedEntry := by
  induction entries generalizing cursor children with
  | nil =>
    rw [nodeEntries] at h hfits ⊢
    rw [nodeBytes_cons] at h
    rw [decodeEntries, decodeEntry_shown h.left (hfits _ List.mem_cons_self) hname]
    rfl
  | cons entry rest ih =>
    rw [nodeEntries] at h hfits ⊢
    rw [nodeBytes_cons] at h
    have hright := h.right
    rw [length_entryBytes] at hright
    rw [List.length_cons, decodeEntries, decodeEntry_shown h.left (hfits _ List.mem_cons_self) hname,
      show (decodedEntry (some entry, children.headD none)).entryLength =
        entrySize (some entry, children.headD none) from rfl,
      ih hright fun e he => hfits e (List.mem_cons_of_mem _ he)]
    rfl

/-- The header of a node and the entries behind it. -/
structure NodeShown (view : ByteView) (headerOffset start allocated : ℕ) (child : Bool)
    (entries : List NtfsDirectoryIndexEntry) (children : List (Option ℕ)) : Prop where
  entriesOffset : view.word 4 headerOffset = start
  indexLength : view.word 4 (headerOffset + 4) =
    start + (nodeBytes (nodeEntries entries children)).length
  allocatedSize : view.word 4 (headerOffset + 8) = allocated
  flag : view.byte (headerOffset + 12) = if child then 1 else 0
  reserved : view.byte (headerOffset + 13) = 0 ∧ view.byte (headerOffset + 14) = 0 ∧
    view.byte (headerOffset + 15) = 0
  behind : indexHeaderLen ≤ start
  aligned : start % 8 = 0
  used : start + (nodeBytes (nodeEntries entries children)).length ≤ allocated
  room : allocated ≤ view.len - headerOffset
  shows : view.Shows (headerOffset + start) (nodeBytes (nodeEntries entries children))
  uniform : ∀ entry ∈ nodeEntries entries children, entry.2.isSome = child

/-- A node is accepted, with all its entries. -/
theorem parseNode_shown {headerOffset start allocated : ℕ} {child : Bool}
    {entries : List NtfsDirectoryIndexEntry} {children : List (Option ℕ)}
    (h : NodeShown view headerOffset start allocated child entries children)
    (hfits : ∀ entry ∈ nodeEntries entries children, NodeEntryFits maximumName entry)
    (hname : maximumName ≤ 255) (hlimit : maximumName ≤ limits.maxNameCodeUnits)
    (hcount : entries.length + 1 ≤ limits.maxEntriesPerNode) :
    parseNode view headerOffset limits =
      .ok (⟨start, start + (nodeBytes (nodeEntries entries children)).length, allocated, child⟩,
        ⟨view, headerOffset + start, entries.length + 1⟩) := by
  have hflag : (view.byte (headerOffset + 12)).toNat = if child then 1 else 0 := by
    rw [h.flag]
    cases child <;> rfl
  have hle := length_lt_nodeBytes entries children
  have hentries : validateEntries view (headerOffset + start)
      (headerOffset + (start + (nodeBytes (nodeEntries entries children)).length)) limits =
        .ok (0 + entries.length + 1, false || child, true && child) :=
    validateEntriesFrom_shown h.shows hfits hname hlimit h.uniform (by omega)
      (Nat.add_assoc _ _ _).symm (by omega)
  have hused := h.used
  have hroom := h.room
  rw [parseNode]
  dsimp only
  rw [h.entriesOffset, h.indexLength, h.allocatedSize, hflag,
    ensure_of (by cases child <;> decide), ok_bind, ensure_of h.reserved, ok_bind,
    ensure_of h.behind, ok_bind, ensure_of h.aligned, ok_bind, ensure_of (by omega), ok_bind,
    ensure_of (by omega), ok_bind, hentries, ok_bind]
  dsimp only
  rw [ensure_of (by cases child <;> rfl), ok_bind, ensure_of (by cases child <;> rfl), ok_bind,
    Nat.zero_add]
  cases child <;> rfl

end Node

end Ntfs

end StarConverter
