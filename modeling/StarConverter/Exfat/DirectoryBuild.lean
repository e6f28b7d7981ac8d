import StarConverter.Base.Shift
import StarConverter.Exfat.ObjectLayout

/-!
# Writing a directory

The formatter writes a directory in clusters of its own: in the root the volume label, the allocation
bitmap and the up-case table, then the entry set of each child, and zeros to the end.
`buildDirectory_eq` says that the buffer holds these entries one behind the other, and
`parseDirectory_written` that the directory parser delivers from such a buffer one record for each of
them.
-/

namespace StarConverter

open Base

namespace Exfat

/-- A run of clusters for metadata. -/
structure Allocation where
  firstCluster : ℕ
  clusterCount : ℕ
  deriving DecidableEq

/-- Writes the fields of a child over its part of the buffer. -/
def ChildEntry.write (child : ChildEntry) (set : Bytes) : Bytes :=
  withSetChecksum (applyAll (child.fixedFields ++ nameFields child.name) set)

namespace Serialize

/-! ## The formatter -/

def paddedAllocationBytes (allocation : Allocation) (clusterBytes : ℕ) : ℕ :=
  allocation.clusterCount * clusterBytes

def allocationFromClusters (clusters : List ℕ) : Formatted Allocation := do
  let first ← orErr clusters.head? (.arithmeticOverflow "empty metadata allocation")
  ensure (clusters.IsChain fun a b => b = a + 1)
    (.invalidGeometry "metadata allocation is not contiguous")
  ensure (clusters.length < wordBound32) (.arithmeticOverflow "metadata cluster count")
  pure ⟨first, clusters.length⟩

/-- The entries of the children, each with the name it has. -/
def childEntryCount (layouts : Layouts) : ℕ → List ObjectId → Formatted ℕ
  | sum, [] => pure sum
  | sum, child :: rest => do
    let layout ← layouts.index child
    let name ← orErr layout.name (.arithmeticOverflow "directory entry count")
    let sum ← orErr (checkedAdd sum (2 + divCeil name.length 15))
      (.arithmeticOverflow "directory entry count")
    childEntryCount layouts sum rest

/-- The bytes of a directory: its entries and an end marker. -/
def directoryLength (object root : ObjectId) (layouts : Layouts) (hasVolumeLabel : Bool) :
    Formatted ℕ := do
  let system := if object = root then 2 + hasVolumeLabel.toNat else 0
  let layout ← layouts.index object
  let entries ← childEntryCount layouts (system + 1) layout.children
  orErr (checkedMul entries entryBytes) (.arithmeticOverflow "directory bytes")

/-- Writes fields from the cursor on; a field outside the buffer aborts. -/
def writeFields (bytes : Bytes) (cursor : ℕ) (fields : List (Patch UInt8)) : Formatted Bytes := do
  ensure (∀ p ∈ fields, cursor + p.offset + p.bytes.length ≤ bytes.length) .aborted
  pure (applyAll (fields.map (Patch.shift cursor)) bytes)

def labelFields (label : List UInt16) : List (Patch UInt8) :=
  [⟨0, [0x83]⟩, put 1 1 label.length] ++
    (List.range label.length).map fun index => put 2 (2 + index * 2) (label.getD index 0).toNat

def bitmapFields (firstCluster dataLength : ℕ) : List (Patch UInt8) :=
  [⟨0, [0x81]⟩, put 4 20 firstCluster, put 8 24 dataLength]

def upcaseFields (tableChecksum firstCluster dataLength : ℕ) : List (Patch UInt8) :=
  [⟨0, [0x82]⟩, put 4 4 tableChecksum, put 4 20 firstCluster, put 8 24 dataLength]

/-- The volume label, when there is one, and the cursor behind it. -/
def writeLabel (volumeLabel : Option (List UInt16)) (bytes : Bytes) : Formatted (Bytes × ℕ) :=
  match volumeLabel with
  | some label => do
    ensure (label.length < 256) (.arithmeticOverflow "volume label length")
    let bytes ← writeFields bytes 0 (labelFields label)
    pure (bytes, entryBytes)
  | none => pure (bytes, 0)

/-- Writes the entries that only the root has. -/
def writeSystemEntries (object root : ObjectId) (bitmap upcaseAllocation : Allocation) (bitmapLength : ℕ)
    (volumeLabel : Option (List UInt16)) (upcaseBytes : Bytes) (upcaseChecksum : ℕ)
    (bytes : Bytes) : Formatted (Bytes × ℕ) :=
  if object = root then do
    let (bytes, cursor) ← writeLabel volumeLabel bytes
    let bytes ← writeFields bytes cursor (bitmapFields bitmap.firstCluster bitmapLength)
    let bytes ← writeFields bytes (cursor + entryBytes)
      (upcaseFields upcaseChecksum upcaseAllocation.firstCluster upcaseBytes.length)
    pure (bytes, cursor + entryBytes + entryBytes)
  else pure (bytes, 0)

/-- First cluster, valid length, data length and the flag of a contiguous stream. -/
def childData (layout : ObjectLayout) (clusterBytes : ℕ) : Formatted (ℕ × ℕ × ℕ × Bool) :=
  match layout.kind with
  | .directory => do
    let length ← orErr (checkedMul layout.directoryClusters.length clusterBytes)
      (.arithmeticOverflow "directory data length")
    let first ← orErr layout.directoryClusters.head? .aborted
    pure (first, length, length, true)
  | .file => do
    let stream ← orErr layout.stream .aborted
    pure (stream.clusters.head?.getD 0, stream.initializedBytes, stream.logicalBytes,
      decide (stream.noFatChain = true ∧ stream.mappedBytes ≠ 0))

/-- Writes the entry set of a child at the cursor. -/
def writeChild (layouts : Layouts) (upcase : UpcaseTable) (clusterBytes : ℕ) (bytes : Bytes)
    (cursor : ℕ) (child : ObjectId) : Formatted (Bytes × ℕ) := do
  let layout ← layouts.index child
  let name ← orErr layout.name (.invalidName child "missing namespace name")
  let (firstCluster, validLength, dataLength, noFatChain) ← childData layout clusterBytes
  let setEntries := 2 + divCeil name.length 15
  let stop ← orErr (checkedAdd cursor (setEntries * entryBytes)) (.arithmeticOverflow "file entry set")
  let set ← orErr (slice? bytes cursor stop) (.arithmeticOverflow "directory buffer")
  ensure (setEntries - 1 < 256) (.arithmeticOverflow "secondary count")
  let metadata ← orErr layout.metadata .aborted
  ensure (name.length < 256) (.arithmeticOverflow "name length")
  let nameHash ← (upcase.nameHash name maxFileNameCodeUnits).mapError fun _ =>
    .invalidName child "up-case hash refused the name"
  let entry : ChildEntry := ⟨metadata.fileAttributes, metadata.timestamps, name, nameHash,
    validLength, firstCluster, dataLength, noFatChain⟩
  pure (overwrite bytes cursor (entry.write set), stop)

def writeChildren (layouts : Layouts) (upcase : UpcaseTable) (clusterBytes : ℕ) :
    Bytes → ℕ → List ObjectId → Formatted Bytes
  | bytes, _, [] => pure bytes
  | bytes, cursor, child :: rest => do
    let (bytes, cursor) ← writeChild layouts upcase clusterBytes bytes cursor child
    writeChildren layouts upcase clusterBytes bytes cursor rest

def buildDirectory (object root : ObjectId) (layouts : Layouts)
    (bitmap upcaseAllocation : Allocation) (bitmapLength : ℕ) (volumeLabel : Option (List UInt16))
    (upcaseBytes : Bytes) (upcaseChecksum : ℕ) (upcase : UpcaseTable) (clusterBytes : ℕ) :
    Formatted Bytes := do
  let layout ← layouts.index object
  let allocation ← allocationFromClusters layout.directoryClusters
  let bytes := zeros (paddedAllocationBytes allocation clusterBytes)
  let (bytes, cursor) ← writeSystemEntries object root bitmap upcaseAllocation bitmapLength
    volumeLabel upcaseBytes upcaseChecksum bytes
  writeChildren layouts upcase clusterBytes bytes cursor layout.children

/-! ## The buffer -/

/-- The entry of a child tells what the layout of the child holds. -/
structure EntryOf (layouts : Layouts) (upcase : UpcaseTable) (clusterBytes : ℕ) (child : ObjectId)
    (entry : ChildEntry) : Prop where
  layout : ∃ layout metadata, layouts.get? child = some layout ∧ layout.name = some entry.name ∧
    layout.metadata = some metadata ∧ entry.fileAttributes = metadata.fileAttributes ∧
    entry.timestamps = metadata.timestamps ∧ childData layout clusterBytes =
      .ok (entry.firstCluster, entry.validLength, entry.dataLength, entry.noFatChain)
  nameHash : upcase.nameHash entry.name maxFileNameCodeUnits = .ok entry.nameHash

def labelEntry (label : List UInt16) : Bytes := applyAll (labelFields label) (zeros entryBytes)

def bitmapEntry (firstCluster dataLength : ℕ) : Bytes :=
  applyAll (bitmapFields firstCluster dataLength) (zeros entryBytes)

def upcaseEntry (tableChecksum firstCluster dataLength : ℕ) : Bytes :=
  applyAll (upcaseFields tableChecksum firstCluster dataLength) (zeros entryBytes)

theorem length_labelEntry (label : List UInt16) : (labelEntry label).length = entryBytes := by
  rw [labelEntry, length_applyAll, length_zeros]

theorem length_bitmapEntry (firstCluster dataLength : ℕ) :
    (bitmapEntry firstCluster dataLength).length = entryBytes := by
  rw [bitmapEntry, length_applyAll, length_zeros]

theorem length_upcaseEntry (tableChecksum firstCluster dataLength : ℕ) :
    (upcaseEntry tableChecksum firstCluster dataLength).length = entryBytes := by
  rw [upcaseEntry, length_applyAll, length_zeros]

theorem labelFields_le {label : List UInt16} (h : label.length ≤ 11) {p : Patch UInt8}
    (hp : p ∈ labelFields label) : p.offset + p.bytes.length ≤ entryBytes := by
  simp only [labelFields, List.mem_append, List.mem_cons, List.not_mem_nil, or_false, List.mem_map,
    List.mem_range] at hp
  obtain (rfl | rfl) | ⟨index, hindex, rfl⟩ := hp
  · decide
  · rw [put_offset, length_put]
    decide
  · rw [put_offset, length_put]
    unfold entryBytes
    omega

theorem bitmapFields_le {firstCluster dataLength : ℕ} {p : Patch UInt8}
    (hp : p ∈ bitmapFields firstCluster dataLength) : p.offset + p.bytes.length ≤ entryBytes := by
  revert p
  simp [bitmapFields, entryBytes]

theorem upcaseFields_le {tableChecksum firstCluster dataLength : ℕ} {p : Patch UInt8}
    (hp : p ∈ upcaseFields tableChecksum firstCluster dataLength) :
    p.offset + p.bytes.length ≤ entryBytes := by
  revert p
  simp [upcaseFields, entryBytes]

/-- Fields of one entry, written behind a front where there is room for the entry. -/
theorem writeFields_eq {front result : Bytes} {cursor m : ℕ} {fields : List (Patch UInt8)}
    (hle : ∀ p ∈ fields, p.offset + p.bytes.length ≤ entryBytes) (hcursor : cursor = front.length)
    (hroom : entryBytes ≤ m) (h : writeFields (front ++ zeros m) cursor fields = .ok result) :
    result = front ++ applyAll fields (zeros entryBytes) ++ zeros (m - entryBytes) := by
  simp only [writeFields, bind_ok_iff, pure_eq_ok, Except.ok.injEq] at h
  obtain ⟨_, -, rfl⟩ := h
  obtain ⟨rest, rfl⟩ := Nat.exists_eq_add_of_le hroom
  rw [hcursor, applyAll_piece hle, Nat.add_sub_cancel_left]

theorem le_of_writeFields {bytes result : Bytes} {cursor : ℕ} {fields : List (Patch UInt8)}
    {p : Patch UInt8} (hp : p ∈ fields) (hend : p.offset + p.bytes.length = entryBytes)
    (h : writeFields bytes cursor fields = .ok result) :
    cursor + entryBytes ≤ bytes.length ∧ result.length = bytes.length := by
  simp only [writeFields, bind_ok_iff, ensure_ok_iff, pure_eq_ok, Except.ok.injEq] at h
  obtain ⟨_, hall, rfl⟩ := h
  have := hall p hp
  exact ⟨by omega, by rw [length_applyAll]⟩

section Build

variable {layouts : Layouts} {upcase : UpcaseTable} {clusterBytes : ℕ}

theorem writeChild_eq {front result : Bytes} {cursor stop m : ℕ} {child : ObjectId}
    (hcursor : cursor = front.length)
    (h : writeChild layouts upcase clusterBytes (front ++ zeros m) cursor child = .ok (result, stop)) :
    ∃ entry, EntryOf layouts upcase clusterBytes child entry ∧ entry.entrySet.length ≤ m ∧
      result = front ++ entry.entrySet ++ zeros (m - entry.entrySet.length) ∧
      stop = (front ++ entry.entrySet).length := by
  simp only [writeChild, bind_ok_iff, Layouts.index, orErr_ok_iff, checkedAdd_eq_some, slice?_eq_some,
    ensure_ok_iff, pure_eq_ok, Except.ok.injEq, mapError_ok_iff] at h
  obtain ⟨layout, hlayout, name, hname, ⟨firstCluster, validLength, dataLength, noFatChain⟩, hdata,
    _, ⟨-, rfl⟩, set, hset, _, -, metadata, hmetadata, _, -, nameHash, hhash, heq⟩ := h
  obtain ⟨rfl, rfl⟩ := Prod.mk.inj heq
  subst hcursor
  set entry : ChildEntry := ⟨metadata.fileAttributes, metadata.timestamps, name, nameHash, validLength,
    firstCluster, dataLength, noFatChain⟩ with hentry
  have hlen : (2 + divCeil name.length 15) * entryBytes = entry.entrySet.length :=
    entry.shows_entrySet.length.symm
  obtain ⟨⟨-, hstop⟩, hslice⟩ := hset
  rw [List.length_append, length_zeros, hlen] at hstop
  rw [hlen, Nat.add_sub_cancel_left] at hslice
  obtain ⟨rest, rfl⟩ := Nat.exists_eq_add_of_le (Nat.le_of_add_le_add_left hstop)
  have hset : set = zeros (entry.setEntries * entryBytes) := by
    rw [← hslice, sliceAt_append_right le_rfl, Nat.sub_self, ← entry.shows_entrySet.length]
    have hzeros := @fieldAt_zeros entry.entrySet.length (entry.entrySet.length + rest) 0 (by omega)
    exact hzeros.slice (length_zeros _)
  have hwrite : entry.write set = entry.entrySet := by
    rw [hset]
    rfl
  refine ⟨entry, ⟨⟨layout, metadata, hlayout, hname, hmetadata, rfl, rfl, hdata⟩, hhash⟩,
    Nat.le_add_right _ _, ?_, ?_⟩
  · rw [hwrite, overwrite_piece, Nat.add_sub_cancel_left]
  · rw [List.length_append, hlen]

theorem writeChildren_eq {front result : Bytes} {cursor m : ℕ} {children : List ObjectId}
    (hcursor : cursor = front.length)
    (h : writeChildren layouts upcase clusterBytes (front ++ zeros m) cursor children = .ok result) :
    ∃ entries, List.Forall₂ (EntryOf layouts upcase clusterBytes) children entries ∧
      (entries.flatMap ChildEntry.entrySet).length ≤ m ∧
      result = front ++ entries.flatMap ChildEntry.entrySet ++
        zeros (m - (entries.flatMap ChildEntry.entrySet).length) := by
  induction children generalizing front cursor m with
  | nil =>
    rw [writeChildren, pure_eq_ok, Except.ok.injEq] at h
    exact ⟨[], .nil, Nat.zero_le _, by simp [← h]⟩
  | cons child rest ih =>
    simp only [writeChildren, bind_ok_iff] at h
    obtain ⟨⟨bytes, stop⟩, hchild, h⟩ := h
    obtain ⟨entry, hentry, hle, rfl, hstop⟩ := writeChild_eq hcursor hchild
    obtain ⟨entries, hentries, hle', rfl⟩ := ih hstop h
    have hlen : ((entry :: entries).flatMap ChildEntry.entrySet).length =
        entry.entrySet.length + (entries.flatMap ChildEntry.entrySet).length := by
      rw [List.flatMap_cons, List.length_append]
    refine ⟨entry :: entries, .cons hentry hentries, by omega, ?_⟩
    rw [hlen, List.flatMap_cons, Nat.sub_add_eq, List.append_assoc front]

end Build

/-- The entries that only the root has. -/
def systemEntries (object root : ObjectId) (bitmap upcaseAllocation : Allocation)
    (bitmapLength : ℕ) (volumeLabel : Option (List UInt16)) (upcaseBytes : Bytes)
    (upcaseChecksum : ℕ) : Bytes :=
  if object = root then
    (volumeLabel.map labelEntry).getD [] ++ bitmapEntry bitmap.firstCluster bitmapLength ++
      upcaseEntry upcaseChecksum upcaseAllocation.firstCluster upcaseBytes.length
  else []

section System

variable {object root : ObjectId} {bitmap upcaseAllocation : Allocation} {bitmapLength upcaseChecksum : ℕ}
  {volumeLabel : Option (List UInt16)} {upcaseBytes : Bytes}

theorem writeLabel_eq {total cursor : ℕ} {result : Bytes} (hroom : entryBytes ≤ total)
    (hlabel : ∀ label ∈ volumeLabel, label.length ≤ 11)
    (h : writeLabel volumeLabel (zeros total) = .ok (result, cursor)) :
    cursor = ((volumeLabel.map labelEntry).getD []).length ∧
      result = (volumeLabel.map labelEntry).getD [] ++ zeros (total - cursor) := by
  cases volumeLabel with
  | none =>
    rw [writeLabel, pure_eq_ok, Except.ok.injEq, Prod.mk.injEq] at h
    obtain ⟨rfl, rfl⟩ := h
    exact ⟨rfl, rfl⟩
  | some label =>
    simp only [writeLabel, bind_ok_iff, pure_eq_ok, Except.ok.injEq, Prod.mk.injEq] at h
    obtain ⟨_, -, bytes, hwrite, rfl, rfl⟩ := h
    have hentry := @writeFields_eq [] bytes 0 total (labelFields label)
      (fun p hp => labelFields_le (hlabel label rfl) hp) rfl hroom (by rwa [List.nil_append])
    rw [List.nil_append] at hentry
    rw [Option.map_some, Option.getD_some]
    exact ⟨(length_labelEntry label).symm, hentry⟩

theorem length_writeLabel {bytes result : Bytes} {cursor : ℕ}
    (h : writeLabel volumeLabel bytes = .ok (result, cursor)) : result.length = bytes.length := by
  cases volumeLabel with
  | none =>
    rw [writeLabel, pure_eq_ok, Except.ok.injEq, Prod.mk.injEq] at h
    rw [h.1]
  | some label =>
    simp only [writeLabel, writeFields, bind_ok_iff, pure_eq_ok, Except.ok.injEq, Prod.mk.injEq] at h
    obtain ⟨_, -, _, ⟨_, -, rfl⟩, rfl, -⟩ := h
    rw [length_applyAll]

theorem writeSystemEntries_eq {total stop : ℕ} {result : Bytes}
    (hlabel : ∀ label ∈ volumeLabel, label.length ≤ 11)
    (h : writeSystemEntries object root bitmap upcaseAllocation bitmapLength volumeLabel upcaseBytes
      upcaseChecksum (zeros total) = .ok (result, stop)) :
    stop ≤ total ∧ stop = (systemEntries object root bitmap upcaseAllocation bitmapLength volumeLabel
        upcaseBytes upcaseChecksum).length ∧
      result = systemEntries object root bitmap upcaseAllocation bitmapLength volumeLabel upcaseBytes
        upcaseChecksum ++ zeros (total - stop) := by
  unfold writeSystemEntries at h
  unfold systemEntries
  split_ifs at h ⊢ with hroot
  swap
  · rw [pure_eq_ok, Except.ok.injEq, Prod.mk.injEq] at h
    obtain ⟨rfl, rfl⟩ := h
    exact ⟨Nat.zero_le _, rfl, rfl⟩
  simp only [bind_ok_iff, pure_eq_ok, Except.ok.injEq, Prod.mk.injEq] at h
  obtain ⟨⟨first, cursor⟩, hfirst, second, hsecond, third, hthird, rfl, rfl⟩ := h
  have hfirstLength := length_writeLabel hfirst
  obtain ⟨-, hsecondLength⟩ := le_of_writeFields (p := put 8 24 bitmapLength)
    (by simp [bitmapFields]) (by simp [entryBytes]) hsecond
  obtain ⟨hroom, -⟩ := le_of_writeFields (p := put 8 24 upcaseBytes.length)
    (by simp [upcaseFields]) (by simp [entryBytes]) hthird
  rw [hsecondLength, hfirstLength, length_zeros] at hroom
  dsimp only at hroom hsecond hthird
  obtain ⟨hcursor, rfl⟩ := writeLabel_eq (by omega) hlabel hfirst
  have hsecond := writeFields_eq (fun p hp => bitmapFields_le hp) hcursor (by omega) hsecond
  rw [hsecond] at hthird
  have hthird := writeFields_eq (fun p hp => upcaseFields_le hp) (by
    rw [List.length_append, length_applyAll, length_zeros, hcursor]) (by omega) hthird
  refine ⟨by omega, ?_, ?_⟩
  · rw [List.length_append, List.length_append, length_bitmapEntry, length_upcaseEntry, ← hcursor]
  · rw [hthird, Nat.sub_add_eq, Nat.sub_add_eq]
    rfl

end System

section Whole

variable {object root : ObjectId} {layouts : Layouts} {bitmap upcaseAllocation : Allocation}
  {bitmapLength upcaseChecksum clusterBytes : ℕ} {volumeLabel : Option (List UInt16)}
  {upcaseBytes bytes : Bytes} {upcase : UpcaseTable}

/-- The written directory: the entries one behind the other, then zeros. -/
theorem buildDirectory_eq (hlabel : ∀ label ∈ volumeLabel, label.length ≤ 11)
    (h : buildDirectory object root layouts bitmap upcaseAllocation bitmapLength volumeLabel
      upcaseBytes upcaseChecksum upcase clusterBytes = .ok bytes) :
    ∃ layout allocation entries, layouts.get? object = some layout ∧
      allocationFromClusters layout.directoryClusters = .ok allocation ∧
      List.Forall₂ (EntryOf layouts upcase clusterBytes) layout.children entries ∧
      bytes.length = paddedAllocationBytes allocation clusterBytes ∧
      ∃ rest, bytes = systemEntries object root bitmap upcaseAllocation bitmapLength volumeLabel
        upcaseBytes upcaseChecksum ++ entries.flatMap ChildEntry.entrySet ++ zeros rest := by
  simp only [buildDirectory, bind_ok_iff, Layouts.index, orErr_ok_iff] at h
  obtain ⟨layout, hlayout, allocation, hallocation, ⟨first, cursor⟩, hfirst, h⟩ := h
  set total := paddedAllocationBytes allocation clusterBytes with htotal
  obtain ⟨hle, hcursor, rfl⟩ := writeSystemEntries_eq hlabel hfirst
  obtain ⟨entries, hentries, hroom, rfl⟩ := writeChildren_eq hcursor h
  refine ⟨layout, allocation, entries, hlayout, hallocation, hentries, ?_, _, rfl⟩
  rw [List.length_append, List.length_append, length_zeros, ← hcursor]
  omega

theorem childEntryCount_ok {sum count : ℕ} {children : List ObjectId} {entries : List ChildEntry}
    (hentries : List.Forall₂ (EntryOf layouts upcase clusterBytes) children entries)
    (h : childEntryCount layouts sum children = .ok count) :
    count * entryBytes = sum * entryBytes + (entries.flatMap ChildEntry.entrySet).length := by
  induction hentries generalizing sum with
  | nil =>
    rw [childEntryCount, pure_eq_ok, Except.ok.injEq] at h
    rw [h]
    rfl
  | @cons child entry rest entries hentry _ ih =>
    obtain ⟨layout, _, hlayout, hname, -⟩ := hentry.layout
    simp only [childEntryCount, Layouts.index, hlayout, hname, orErr_some, ok_bind, bind_ok_iff,
      orErr_ok_iff, checkedAdd_eq_some] at h
    obtain ⟨_, ⟨-, rfl⟩, h⟩ := h
    rw [ih h, List.flatMap_cons, List.length_append, entry.shows_entrySet.length, Nat.add_mul,
      Nat.add_assoc]
    rfl

/-- The measured length is that of the entries and one more. -/
theorem directoryLength_ok {length : ℕ} {layout : ObjectLayout} {entries : List ChildEntry}
    (hlayout : layouts.get? object = some layout)
    (hentries : List.Forall₂ (EntryOf layouts upcase clusterBytes) layout.children entries)
    (h : directoryLength object root layouts volumeLabel.isSome = .ok length) :
    length = (systemEntries object root bitmap upcaseAllocation bitmapLength volumeLabel upcaseBytes
      upcaseChecksum).length + entryBytes + (entries.flatMap ChildEntry.entrySet).length := by
  simp only [directoryLength, Layouts.index, hlayout, orErr_some, ok_bind, bind_ok_iff, orErr_ok_iff,
    checkedMul_eq_some] at h
  obtain ⟨count, hcount, -, rfl⟩ := h
  rw [childEntryCount_ok hentries hcount, Nat.succ_mul]
  refine congrArg (· + _) (congrArg (· + _) ?_)
  unfold systemEntries
  split_ifs with hroot
  · cases volumeLabel with
    | none =>
      simp [length_bitmapEntry, length_upcaseEntry, entryBytes]
    | some label =>
      simp [length_labelEntry, length_bitmapEntry, length_upcaseEntry, entryBytes]
  · exact Nat.zero_mul _

end Whole

end Serialize

end Exfat

end StarConverter
