import StarConverter.Exfat.DirectoryBuild

/-!
# Reading a written directory

The directory parser reads what the formatter wrote: each entry set gives one record, in order, and
the zeros behind them are end markers. The scan of one entry adds its record to the state
(`ScanState.recorded`); the scan of the entries one behind the other is then a fold
(`scanLoop_sets`), and both passes of the parser end in the same records
(`parseDirectory_written`).
-/

namespace StarConverter

open Base

namespace Exfat

/-- The summary with one record more. -/
def DirectorySummary.counted (summary : DirectorySummary) : DirectoryRecord → DirectorySummary
  | .allocationBitmap _ =>
    { summary with
      allocationBitmaps := summary.allocationBitmaps + 1
      records := summary.records + 1 }
  | .upcaseTable _ =>
    { summary with
      upcaseTables := min (summary.upcaseTables + 1) 255
      records := summary.records + 1 }
  | .volumeLabel _ =>
    { summary with
      volumeLabels := min (summary.volumeLabels + 1) 255
      records := summary.records + 1 }
  | .file _ => { summary with files := summary.files + 1, records := summary.records + 1 }
  | .benignPrimary _ _ _ =>
    { summary with
      benignPrimarySets := summary.benignPrimarySets + 1
      records := summary.records + 1 }
  | .unused _ _ => { summary with unusedEntries := summary.unusedEntries + 1 }

/-- The bitmaps seen once a record is delivered. -/
def DirectoryRecord.mask (mask : ℕ) : DirectoryRecord → ℕ
  | .allocationBitmap entry => mask ||| 2 ^ entry.bitmapIdentifier
  | _ => mask

/-- The state behind a record. -/
def ScanState.recorded (state : ScanState) (record : DirectoryRecord) : ScanState where
  index := state.index + record.entryCount
  bitmapMask := record.mask state.bitmapMask
  summary := DirectorySummary.counted { state.summary with entriesExamined := state.index + 1 } record
  records := state.records ++ [record]

section Scan

variable {directory : Bytes} {context : DirectoryContext} {state : ScanState} {entry : Bytes}

theorem deliver_eq {record : DirectoryRecord} {summary : DirectorySummary} {consumed : ℕ}
    (h : state.index + consumed < wordBound) :
    state.deliver record summary consumed =
      .ok { state with
        index := state.index + consumed, summary, records := state.records ++ [record] } := by
  rw [ScanState.deliver, checkedAdd_of_lt h, orErr_some, ok_bind]
  rfl

theorem scanEntry_label (hroot : context.isRoot = true) {label : VolumeLabelEntry}
    (hparse : parseVolumeLabel entry state.index = .ok label) (hword : state.index + 1 < wordBound) :
    scanEntry directory context state entry 0x83 = .ok (state.recorded (.volumeLabel label)) := by
  rw [scanEntry, ensure_of (by decide), ok_bind]
  dsimp only
  rw [if_neg (by decide), ensure_of (by decide), ok_bind, scanPrimary]
  dsimp only
  rw [if_neg (by decide), if_neg (by decide), if_pos rfl, requireRoot, ensure_of hroot, ok_bind,
    hparse, ok_bind]
  exact deliver_eq hword

theorem scanEntry_bitmap (hroot : context.isRoot = true) {bitmap : AllocationBitmapEntry}
    (hparse : parseBitmap entry state.index context = .ok bitmap)
    (hfresh : state.bitmapMask.testBit bitmap.bitmapIdentifier = false)
    (hword : state.index + 1 < wordBound) :
    scanEntry directory context state entry 0x81 = .ok (state.recorded (.allocationBitmap bitmap)) := by
  rw [scanEntry, ensure_of (by decide), ok_bind]
  dsimp only
  rw [if_neg (by decide), ensure_of (by decide), ok_bind, scanPrimary]
  dsimp only
  rw [if_pos rfl, requireRoot, ensure_of hroot, ok_bind, hparse, ok_bind, ensure_of hfresh, ok_bind]
  exact deliver_eq hword

theorem scanEntry_upcase (hroot : context.isRoot = true) {table : UpcaseTableEntry}
    (hparse : parseUpcase entry state.index context = .ok table)
    (hword : state.index + 1 < wordBound) :
    scanEntry directory context state entry 0x82 = .ok (state.recorded (.upcaseTable table)) := by
  rw [scanEntry, ensure_of (by decide), ok_bind]
  dsimp only
  rw [if_neg (by decide), ensure_of (by decide), ok_bind, scanPrimary]
  dsimp only
  rw [if_neg (by decide), if_pos rfl, requireRoot, ensure_of hroot, ok_bind, hparse, ok_bind]
  exact deliver_eq hword

theorem scanEntry_file {file : FileEntry} {count : ℕ}
    (hparse : parseFileSet directory state.index context = .ok (file, count))
    (hcount : file.rawSet.length / entryBytes = count) (hword : state.index + count < wordBound) :
    scanEntry directory context state entry 0x85 = .ok (state.recorded (.file file)) := by
  rw [scanEntry, ensure_of (by decide), ok_bind]
  dsimp only
  rw [if_neg (by decide), ensure_of (by decide), ok_bind, scanPrimary]
  dsimp only
  rw [if_neg (by decide), if_neg (by decide), if_neg (by decide), if_pos rfl, hparse, ok_bind]
  subst hcount
  exact deliver_eq hword

/-- The scan goes on behind an entry that was read. -/
theorem scanLoop_step {fuel : ℕ} {next : ScanState} (hindex : state.index < directory.length / entryBytes)
    {entryType : UInt8} (htype : byteAt (entryBytesAt directory state.index) 0 = entryType)
    (hused : entryType ≠ 0) (h : scanEntry directory context state
      (entryBytesAt directory state.index) entryType = .ok next) :
    scanLoop directory context (fuel + 1) state = scanLoop directory context fuel next := by
  rw [scanLoop, if_pos hindex, entryAt_of_lt hindex, ok_bind, htype, if_neg hused, h, ok_bind]

/-- An entry that stands behind a front. -/
theorem scanLoop_piece {fuel : ℕ} {next : ScanState} {front piece tail : Bytes}
    (hdirectory : directory = front ++ (piece ++ tail))
    (hfront : front.length = state.index * entryBytes) (hpiece : piece.length = entryBytes)
    {entryType : UInt8} (htype : byteAt piece 0 = entryType) (hused : entryType ≠ 0)
    (h : scanEntry directory context state piece entryType = .ok next) :
    scanLoop directory context (fuel + 1) state = scanLoop directory context fuel next := by
  have hfield : FieldAt directory (state.index * entryBytes) piece := by
    rw [hdirectory, ← hfront]
    exact fieldAt_append front piece tail
  have hentry : entryBytesAt directory state.index = piece := by
    exact hfield.slice hpiece
  have hindex : state.index < directory.length / entryBytes := by
    have hle := hfield.1
    rw [hpiece, ← Nat.succ_mul] at hle
    exact (Nat.le_div_iff_mul_le (by decide)).2 hle
  exact scanLoop_step hindex (hentry ▸ htype) hused (hentry ▸ h)

/-- Entry sets one behind the other. -/
theorem scanLoop_sets {fuel : ℕ} {front tail : Bytes} {entries : List ChildEntry}
    (hdirectory : directory = front ++ (entries.flatMap ChildEntry.entrySet ++ tail))
    (hfront : front.length = state.index * entryBytes) (hlen : directory.length < wordBound)
    (hreadable : ∀ entry ∈ entries, entry.Readable context) :
    scanLoop directory context (fuel + entries.length) state = scanLoop directory context fuel
      ((entries.map fun entry => .file entry.fileEntry).foldl ScanState.recorded state) := by
  induction entries generalizing front state with
  | nil => rfl
  | cons entry entries ih =>
    obtain ⟨hentry, hentries⟩ := List.forall_mem_cons.1 hreadable
    have hshows := entry.shows_entrySet
    have hpos : 0 < entry.setEntries := Nat.lt_of_lt_of_le two_pos (Nat.le_add_right _ _)
    have hsplit : directory = front ++ (entry.entrySet ++
        (entries.flatMap ChildEntry.entrySet ++ tail)) := by
      rw [hdirectory, List.flatMap_cons, List.append_assoc entry.entrySet]
    have hset : FieldAt directory (state.index * entryBytes) entry.entrySet := by
      rw [hsplit, ← hfront]
      exact fieldAt_append _ _ _
    have hstop := hset.1
    rw [hshows.length, ← Nat.add_mul] at hstop
    have hend := (Nat.le_div_iff_mul_le (k := entryBytes) (by decide)).2 hstop
    have htype : byteAt (entryBytesAt directory state.index) 0 = 0x85 := by
      have hfirst := hshows.entryBytesAt_directory hset hpos
      rw [Nat.add_zero] at hfirst
      rw [hfirst]
      exact hshows.primaryByte (by simp [ChildEntry.fixedFields]) (by decide)
    have hcount : entry.fileEntry.rawSet.length / entryBytes = entry.setEntries := by
      show entry.entrySet.length / entryBytes = _
      rw [hshows.length, Nat.mul_div_cancel _ (by decide)]
    have hword : state.index + entry.setEntries < wordBound :=
      lt_of_le_of_lt (hend.trans (Nat.div_le_self _ _)) hlen
    rw [List.length_cons, ← Nat.add_assoc, scanLoop_step (by omega) htype (by decide)
      (scanEntry_file (hshows.parseFileSet_shown hentry hset hlen rfl) hcount hword),
      @ih (state.recorded (.file entry.fileEntry)) (front ++ entry.entrySet)
        (by rw [hsplit, List.append_assoc])
        (by
          show _ = (state.index + entry.fileEntry.rawSet.length / entryBytes) * entryBytes
          rw [List.length_append, hfront, hcount, Nat.add_mul, hshows.length])
        hentries]
    rfl

/-- The scan ends at the first of the zeros. -/
theorem scanLoop_zeros {fuel rest : ℕ} {front : Bytes} (hdirectory : directory = front ++ zeros rest)
    (hfront : front.length = state.index * entryBytes) (hrest : entryBytes ≤ rest) :
    scanLoop directory context (fuel + 1) state = .ok { state with
      summary := { state.summary with
        reachedEndMarker := true
        entriesExamined := directory.length / entryBytes } } := by
  have hzero : ∀ index, state.index ≤ index → index < directory.length / entryBytes →
      byteAt (entryBytesAt directory index) 0 = 0 := by
    intro index hlow hhigh
    have hend := (Nat.le_div_iff_mul_le (by decide)).1 hhigh
    have hfits : state.index * entryBytes ≤ index * entryBytes := Nat.mul_le_mul_right _ hlow
    have hall : FieldAt directory front.length (zeros rest) := by
      have happend := fieldAt_append front (zeros rest) []
      rwa [List.append_nil, ← hdirectory] at happend
    have htotal : directory.length = front.length + rest := by
      rw [hdirectory, List.length_append, length_zeros]
    rw [Nat.succ_mul] at hend
    have hplace : front.length + (index * entryBytes - front.length) = index * entryBytes + 0 := by
      omega
    have hbyte := hall.nested (@fieldAt_zeros 1 rest (index * entryBytes - front.length)
      (by unfold entryBytes at *; omega))
    rw [hplace] at hbyte
    exact (hbyte.window (n := entryBytes) (by decide) (by omega)).getD
  have hindex : state.index < directory.length / entryBytes := by
    rw [hdirectory, List.length_append, length_zeros, hfront]
    exact (Nat.le_div_iff_mul_le (by decide)).2 (by rw [Nat.succ_mul]; omega)
  rw [scanLoop, if_pos hindex, entryAt_of_lt hindex, ok_bind, hzero _ le_rfl hindex, if_pos rfl,
    scanEndMarker]
  dsimp only
  rw [show checkAll (fun later => do
      let entry ← entryAt directory later
      ensure (byteAt entry 0 = 0) (.invalidEntryType later (byteAt entry 0)))
      (List.range' (state.index + 1) (directory.length / entryBytes - (state.index + 1))) = .ok () from
    checkAll_ok_iff.2 fun later hlater => by
      rw [List.mem_range'_1] at hlater
      rw [entryAt_of_lt (by omega), ok_bind, ensure_of (hzero later (by omega) (by omega))], ok_bind]
  rfl

end Scan

/-! ## The entries of the root -/

theorem validateNameUnits_of {units : List UInt16} {index : ℕ} {rejectDotNames : Bool}
    (hforbidden : units.any isForbiddenUnit = false) (hdecodes : decodesUtf16 units = true)
    (hdot : ¬ (rejectDotNames = true ∧ (units = [0x2E] ∨ units = [0x2E, 0x2E]))) :
    validateNameUnits units index rejectDotNames = .ok () := by
  rw [validateNameUnits, show checkAll (fun unit => ensure (isForbiddenUnit unit = false)
      (DirectoryError.invalidNameCharacter index unit)) units = .ok () from
    checkAll_ok_iff.2 fun unit hunit => ensure_of (by
      rw [List.any_eq_false] at hforbidden
      simpa using hforbidden unit hunit), ok_bind, ensure_of hdecodes, ok_bind, ensure_of hdot]

/-- The record of a volume label. -/
def labelRecord (label : List UInt16) : VolumeLabelEntry :=
  ⟨(List.range 11).map fun i => label.getD i 0, label.length, true⟩

namespace Serialize

theorem ascending_labelFields (label : List UInt16) : Ascending (labelFields label) := by
  refine Ascending.append (n := 2) (by simp [Ascending]) ?_ (by simp) fun q hq => ?_
  · rw [List.range_eq_range']
    exact ascending_map_range' (fun i => by rw [put_offset, length_put, put_offset]; omega) 0 _
  · obtain ⟨index, -, rfl⟩ := List.mem_map.1 hq
    exact Nat.le_add_right _ _

theorem ascending_bitmapFields (firstCluster dataLength : ℕ) :
    Ascending (bitmapFields firstCluster dataLength) := by
  simp [Ascending, bitmapFields]

theorem ascending_upcaseFields (tableChecksum firstCluster dataLength : ℕ) :
    Ascending (upcaseFields tableChecksum firstCluster dataLength) := by
  simp [Ascending, upcaseFields]

/-- A field of an entry that was written over zeros. -/
theorem fieldAt_entry {fields : List (Patch UInt8)} (hascending : Ascending fields)
    (hle : ∀ p ∈ fields, p.offset + p.bytes.length ≤ entryBytes) {p : Patch UInt8} (hp : p ∈ fields) :
    FieldAt (applyAll fields (zeros entryBytes)) p.offset p.bytes :=
  fieldAt_applyAll hascending hp (by rw [length_zeros]; exact hle p hp)

section Entries

variable {label : List UInt16} {index : ℕ} {context : DirectoryContext}

theorem parseVolumeLabel_labelEntry (hlabel : validateVolumeLabel label = .ok ()) :
    parseVolumeLabel (labelEntry label) index = .ok (labelRecord label) := by
  simp only [validateVolumeLabel, bind_ok_iff, exists_const, ensure_ok_iff] at hlabel
  obtain ⟨hlen, hforbidden, hdecodes⟩ := hlabel
  have hfields : ∀ p ∈ labelFields label, FieldAt (labelEntry label) p.offset p.bytes :=
    fun p hp => fieldAt_entry (ascending_labelFields label) (fun p hp => labelFields_le hlen hp) hp
  have hcount : (byteAt (labelEntry label) 1).toNat = label.length := by
    have hfield := hfields (put 1 1 label.length) (by simp [labelFields])
    have hbyte : byteAt (labelEntry label) 1 = UInt8.ofNat label.length := hfield.getD
    rw [hbyte, UInt8.toNat_ofNat_of_lt' (by show _ < 256; omega)]
  have hreserved : requireZero (labelEntry label) 24 (24 + 8) index = .ok () := by
    refine requireZero_ok (fieldAt_applyAll_zeros (by decide) fun p hp => ?_)
    simp only [labelFields, List.mem_append, List.mem_cons, List.not_mem_nil, or_false, List.mem_map,
      List.mem_range] at hp
    obtain (rfl | rfl) | ⟨unit, hunit, rfl⟩ := hp
    · decide
    · rw [put_offset, length_put]
      decide
    · rw [put_offset, length_put]
      omega
  have hunits : unitsAt (labelEntry label) 2 11 = (labelRecord label).units := by
    show _ = (List.range 11).map fun i => label.getD i 0
    refine List.map_congr_left fun slot hslot => ?_
    have hslot := List.mem_range.1 hslot
    by_cases hunit : slot < label.length
    · have hfield : FieldAt (labelEntry label) (2 + slot * 2) (toLe 2 (label.getD slot 0).toNat) :=
        hfields (put 2 (2 + slot * 2) (label.getD slot 0).toNat) (by
          simp only [labelFields, List.mem_append, List.mem_map, List.mem_range]
          exact .inr ⟨slot, hunit, rfl⟩)
      rw [hfield.leAt (UInt16.toNat_lt _), UInt16.ofNat_toNat]
    · have hzero : FieldAt (labelEntry label) (2 + slot * 2) (toLe 2 0) := by
        rw [toLe_zero]
        refine fieldAt_applyAll_zeros (by unfold entryBytes; omega) fun p hp => ?_
        simp only [labelFields, List.mem_append, List.mem_cons, List.not_mem_nil, or_false,
          List.mem_map, List.mem_range] at hp
        obtain (rfl | rfl) | ⟨unit, hunit', rfl⟩ := hp
        · exact .inl (by show 0 + 1 ≤ 2 + slot * 2; omega)
        · refine .inl ?_
          rw [put_offset, length_put]
          omega
        · refine .inl ?_
          rw [put_offset, length_put]
          omega
      rw [hzero.leAt (by decide), List.getD_eq_getElem?_getD, List.getElem?_eq_none (by omega),
        Option.getD_none]
      rfl
  rw [parseVolumeLabel]
  dsimp only
  rw [hcount, ensure_of hlen, ok_bind, hreserved, ok_bind, hunits, labelRecord, take_padded hlen,
    validateNameUnits_of hforbidden hdecodes (by simp), ok_bind, drop_padded]
  rfl

theorem parseBitmap_bitmapEntry {firstCluster dataLength : ℕ} (hcluster : firstCluster < 2 ^ 32)
    (hlength : dataLength = divCeil context.clusterCount 8) (hlt : dataLength < 2 ^ 64)
    (hfats : 0 < context.numberOfFats)
    (hallocation : validateAllocation index firstCluster dataLength false context = .ok ()) :
    parseBitmap (bitmapEntry firstCluster dataLength) index context =
      .ok ⟨0, firstCluster, dataLength⟩ := by
  have hfields : ∀ p ∈ bitmapFields firstCluster dataLength,
      FieldAt (bitmapEntry firstCluster dataLength) p.offset p.bytes :=
    fun p hp => fieldAt_entry (ascending_bitmapFields _ _) (fun p hp => bitmapFields_le hp) hp
  have hzeros : FieldAt (bitmapEntry firstCluster dataLength) 1 (zeros 19) := by
    refine fieldAt_applyAll_zeros (by decide) fun p hp => ?_
    revert p
    simp [bitmapFields]
  have hflags : byteAt (bitmapEntry firstCluster dataLength) 1 = 0 :=
    (hzeros.nested (@fieldAt_zeros 1 19 0 (by decide))).getD
  have hreserved : requireZero (bitmapEntry firstCluster dataLength) 2 (2 + 18) index = .ok () :=
    requireZero_ok (hzeros.nested (@fieldAt_zeros 18 19 1 (by decide)))
  have hfirst : leAt 4 (bitmapEntry firstCluster dataLength) 20 = firstCluster :=
    (hfields (put 4 20 firstCluster) (by simp [bitmapFields])).leAt hcluster
  have hdata : leAt 8 (bitmapEntry firstCluster dataLength) 24 = dataLength :=
    (hfields (put 8 24 dataLength) (by simp [bitmapFields])).leAt hlt
  rw [parseBitmap]
  dsimp only
  rw [hflags, ensure_of (by decide), ok_bind, hreserved, ok_bind,
    show ((0 : UInt8) &&& 1).toNat = 0 from rfl, ensure_of hfats, ok_bind, hfirst,
    hdata, hallocation, ok_bind, ensure_of hlength.ge, ok_bind, ensure_of hlength.le]
  rfl

theorem parseUpcase_upcaseEntry {tableChecksum firstCluster dataLength : ℕ}
    (hchecksum : tableChecksum < 2 ^ 32) (hcluster : firstCluster < 2 ^ 32)
    (hlt : dataLength < 2 ^ 64) (hlength : ¬ (dataLength = 0 ∨ dataLength % 2 ≠ 0))
    (hallocation : validateAllocation index firstCluster dataLength false context = .ok ()) :
    parseUpcase (upcaseEntry tableChecksum firstCluster dataLength) index context =
      .ok ⟨tableChecksum, firstCluster, dataLength⟩ := by
  have hfields : ∀ p ∈ upcaseFields tableChecksum firstCluster dataLength,
      FieldAt (upcaseEntry tableChecksum firstCluster dataLength) p.offset p.bytes :=
    fun p hp => fieldAt_entry (ascending_upcaseFields _ _ _) (fun p hp => upcaseFields_le hp) hp
  have hzeros : ∀ gap ∈ [(1, 3), (8, 12)],
      FieldAt (upcaseEntry tableChecksum firstCluster dataLength) gap.1 (zeros gap.2) := by
    intro gap hgap
    refine fieldAt_applyAll_zeros (by revert gap; simp [entryBytes]) fun p hp => ?_
    revert gap p
    simp [upcaseFields]
  have hreserved : requireZero (upcaseEntry tableChecksum firstCluster dataLength) 1 (1 + 3) index =
      .ok () := requireZero_ok (hzeros (1, 3) (by simp))
  have hreserved' : requireZero (upcaseEntry tableChecksum firstCluster dataLength) 8 (8 + 12) index =
      .ok () := requireZero_ok (hzeros (8, 12) (by simp))
  have htable : leAt 4 (upcaseEntry tableChecksum firstCluster dataLength) 4 = tableChecksum :=
    (hfields (put 4 4 tableChecksum) (by simp [upcaseFields])).leAt hchecksum
  have hfirst : leAt 4 (upcaseEntry tableChecksum firstCluster dataLength) 20 = firstCluster :=
    (hfields (put 4 20 firstCluster) (by simp [upcaseFields])).leAt hcluster
  have hdata : leAt 8 (upcaseEntry tableChecksum firstCluster dataLength) 24 = dataLength :=
    (hfields (put 8 24 dataLength) (by simp [upcaseFields])).leAt hlt
  rw [parseUpcase, hreserved, ok_bind, hreserved', ok_bind]
  dsimp only
  rw [hfirst, hdata, hallocation, ok_bind, ensure_of hlength, ok_bind, htable]
  rfl

end Entries

/-! ## The whole directory -/

/-- The records of the entries that only the root has. -/
def systemRecords (object root : ObjectId) (bitmap upcaseAllocation : Allocation) (bitmapLength : ℕ)
    (volumeLabel : Option (List UInt16)) (upcaseBytes : Bytes) (upcaseChecksum : ℕ) :
    List DirectoryRecord :=
  if object = root then
    (volumeLabel.map fun label => DirectoryRecord.volumeLabel (labelRecord label)).toList ++
      [.allocationBitmap ⟨0, bitmap.firstCluster, bitmapLength⟩,
        .upcaseTable ⟨upcaseChecksum, upcaseAllocation.firstCluster, upcaseBytes.length⟩]
  else []

/-- What the parser asks of the entries that only the root has. -/
structure SystemReadable (context : DirectoryContext) (bitmap upcaseAllocation : Allocation)
    (bitmapLength : ℕ) (volumeLabel : Option (List UInt16)) (upcaseBytes : Bytes)
    (upcaseChecksum : ℕ) : Prop where
  isRoot : context.isRoot = true
  label : ∀ label ∈ volumeLabel, validateVolumeLabel label = .ok ()
  bitmap_lt : bitmap.firstCluster < 2 ^ 32
  bitmap_length : bitmapLength = divCeil context.clusterCount 8
  bitmap_length_lt : bitmapLength < 2 ^ 64
  bitmap_allocation : ∀ index,
    validateAllocation index bitmap.firstCluster bitmapLength false context = .ok ()
  checksum_lt : upcaseChecksum < 2 ^ 32
  upcase_lt : upcaseAllocation.firstCluster < 2 ^ 32
  upcase_length : ¬ (upcaseBytes.length = 0 ∨ upcaseBytes.length % 2 ≠ 0)
  upcase_length_lt : upcaseBytes.length < 2 ^ 64
  upcase_allocation : ∀ index,
    validateAllocation index upcaseAllocation.firstCluster upcaseBytes.length false context = .ok ()

section Directory

variable {object root : ObjectId} {bitmap upcaseAllocation : Allocation}
  {bitmapLength upcaseChecksum : ℕ} {volumeLabel : Option (List UInt16)} {upcaseBytes : Bytes}
  {directory : Bytes} {context : DirectoryContext}

/-- The bitmap and the up-case table, wherever the scan stands. -/
theorem scanLoop_tables {fuel : ℕ} {state : ScanState} {front tail : Bytes}
    (hfats : 0 < context.numberOfFats)
    (hread : SystemReadable context bitmap upcaseAllocation bitmapLength volumeLabel upcaseBytes
      upcaseChecksum)
    (hdirectory : directory = front ++ (bitmapEntry bitmap.firstCluster bitmapLength ++
      (upcaseEntry upcaseChecksum upcaseAllocation.firstCluster upcaseBytes.length ++ tail)))
    (hfront : front.length = state.index * entryBytes) (hmask : state.bitmapMask = 0)
    (hword : state.index + 2 < wordBound) :
    scanLoop directory context (fuel + 2) state = scanLoop directory context fuel
      ((state.recorded (.allocationBitmap ⟨0, bitmap.firstCluster, bitmapLength⟩)).recorded
        (.upcaseTable ⟨upcaseChecksum, upcaseAllocation.firstCluster, upcaseBytes.length⟩)) := by
  have htypeBitmap : byteAt (bitmapEntry bitmap.firstCluster bitmapLength) 0 = 0x81 :=
    (fieldAt_entry (ascending_bitmapFields _ _) (fun p hp => bitmapFields_le hp)
      (p := ⟨0, [0x81]⟩) (by simp [bitmapFields])).getD
  have htypeUpcase : byteAt (upcaseEntry upcaseChecksum upcaseAllocation.firstCluster
      upcaseBytes.length) 0 = 0x82 :=
    (fieldAt_entry (ascending_upcaseFields _ _ _) (fun p hp => upcaseFields_le hp)
      (p := ⟨0, [0x82]⟩) (by simp [upcaseFields])).getD
  have hbitmap : scanEntry directory context state (bitmapEntry bitmap.firstCluster bitmapLength) 0x81 =
      .ok (state.recorded (.allocationBitmap ⟨0, bitmap.firstCluster, bitmapLength⟩)) :=
    scanEntry_bitmap hread.isRoot (parseBitmap_bitmapEntry hread.bitmap_lt hread.bitmap_length
      hread.bitmap_length_lt hfats (hread.bitmap_allocation _)) (by rw [hmask]; exact Nat.zero_testBit _) (by omega)
  rw [scanLoop_piece hdirectory hfront (length_bitmapEntry _ _) htypeBitmap (by decide) hbitmap]
  refine @scanLoop_piece directory context _ fuel _
    (front ++ bitmapEntry bitmap.firstCluster bitmapLength) _ tail
    (by rw [hdirectory, List.append_assoc]) ?_ (length_upcaseEntry _ _ _) _ htypeUpcase (by decide)
    (scanEntry_upcase hread.isRoot (parseUpcase_upcaseEntry hread.checksum_lt hread.upcase_lt
      hread.upcase_length_lt hread.upcase_length (hread.upcase_allocation _)) ?_)
  · rw [List.length_append, length_bitmapEntry, hfront]
    exact (Nat.succ_mul _ _).symm
  · exact hword

/-- The scan of the root begins with its own entries. -/
theorem scanLoop_system {fuel : ℕ} {tail : Bytes} (hfats : 0 < context.numberOfFats)
    (hsystem : object = root → SystemReadable context bitmap upcaseAllocation bitmapLength volumeLabel
      upcaseBytes upcaseChecksum)
    (hdirectory : directory = systemEntries object root bitmap upcaseAllocation bitmapLength volumeLabel
      upcaseBytes upcaseChecksum ++ tail) :
    scanLoop directory context (fuel + (systemRecords object root bitmap upcaseAllocation bitmapLength
        volumeLabel upcaseBytes upcaseChecksum).length) ScanState.initial =
      scanLoop directory context fuel ((systemRecords object root bitmap upcaseAllocation bitmapLength
        volumeLabel upcaseBytes upcaseChecksum).foldl ScanState.recorded ScanState.initial) := by
  unfold systemEntries at hdirectory
  unfold systemRecords
  split_ifs at hdirectory ⊢ with hroot
  swap
  · rfl
  have hread := hsystem hroot
  have hword : 3 < wordBound := by
    unfold wordBound
    norm_num
  cases volumeLabel with
  | none =>
    rw [Option.map_none, Option.getD_none, List.nil_append, List.append_assoc] at hdirectory
    exact @scanLoop_tables bitmap upcaseAllocation _ _ none _ directory context fuel
      ScanState.initial [] tail hfats hread (hdirectory.trans (List.nil_append _).symm) rfl rfl
      (by show 0 + 2 < wordBound; omega)
  | some label =>
    have hlabel := hread.label label rfl
    have htype : byteAt (labelEntry label) 0 = 0x83 := by
      refine (fieldAt_entry (ascending_labelFields label) (fun p hp => labelFields_le ?_ hp)
        (p := ⟨0, [0x83]⟩) (by simp [labelFields])).getD
      simp only [validateVolumeLabel, bind_ok_iff, ensure_ok_iff] at hlabel
      exact hlabel.choose_spec.1
    rw [Option.map_some, Option.getD_some, List.append_assoc, List.append_assoc] at hdirectory
    have hfirst : scanEntry directory context ScanState.initial (labelEntry label) 0x83 =
        .ok (ScanState.initial.recorded (.volumeLabel (labelRecord label))) :=
      scanEntry_label hread.isRoot (parseVolumeLabel_labelEntry hlabel)
        (by show 0 + 1 < wordBound; omega)
    show scanLoop directory context (fuel + 2 + 1) ScanState.initial = _
    rw [@scanLoop_piece directory context _ (fuel + 2) _ [] _ _
      (hdirectory.trans (List.nil_append _).symm) rfl
      (length_labelEntry label) _ htype (by decide) hfirst]
    exact scanLoop_tables hfats hread hdirectory (by rw [length_labelEntry]; rfl) rfl
      (by show 0 + 1 + 2 < wordBound; omega)

theorem length_systemEntries :
    (systemEntries object root bitmap upcaseAllocation bitmapLength volumeLabel upcaseBytes
        upcaseChecksum).length =
      (systemRecords object root bitmap upcaseAllocation bitmapLength volumeLabel upcaseBytes
        upcaseChecksum).length * entryBytes := by
  unfold systemEntries systemRecords
  split_ifs with hroot
  · cases volumeLabel <;>
      simp [length_labelEntry, length_bitmapEntry, length_upcaseEntry, entryBytes]
  · rfl

/-- The summary of a written directory. -/
def writtenSummary (object root : ObjectId) (volumeLabel : Option (List UInt16))
    (files entryCount : ℕ) : DirectorySummary where
  entriesExamined := entryCount
  records := (if object = root then 2 + volumeLabel.isSome.toNat else 0) + files
  unusedEntries := 0
  reachedEndMarker := true
  allocationBitmaps := if object = root then 1 else 0
  upcaseTables := if object = root then 1 else 0
  volumeLabels := if object = root then volumeLabel.isSome.toNat else 0
  files := files
  benignPrimarySets := 0

/-- The entries that the sets of the children take. -/
def setCount (entries : List ChildEntry) : ℕ := (entries.map ChildEntry.setEntries).sum

theorem length_entrySets (entries : List ChildEntry) :
    (entries.flatMap ChildEntry.entrySet).length = setCount entries * entryBytes := by
  induction entries with
  | nil => rfl
  | cons entry entries ih =>
    rw [List.flatMap_cons, List.length_append, ih, entry.shows_entrySet.length, ← Nat.add_mul]
    rfl

theorem length_le_setCount (entries : List ChildEntry) : entries.length ≤ setCount entries := by
  induction entries with
  | nil => exact Nat.zero_le _
  | cons entry entries ih =>
    have hcons : setCount (entry :: entries) = 2 + entry.nameEntries + setCount entries := rfl
    rw [List.length_cons, hcons]
    omega

/-- What the records of entry sets add to a state. -/
theorem foldl_recorded_files (entries : List ChildEntry) (state : ScanState) :
    ∃ examined, (entries.map fun entry => DirectoryRecord.file entry.fileEntry).foldl
        ScanState.recorded state =
      { index := state.index + setCount entries
        bitmapMask := state.bitmapMask
        summary := { state.summary with
          entriesExamined := examined
          files := state.summary.files + entries.length
          records := state.summary.records + entries.length }
        records := state.records ++ entries.map fun entry => .file entry.fileEntry } := by
  induction entries generalizing state with
  | nil => exact ⟨state.summary.entriesExamined, by simp [setCount]⟩
  | cons entry entries ih =>
    obtain ⟨examined, heq⟩ := ih (state.recorded (.file entry.fileEntry))
    refine ⟨examined, ?_⟩
    have hcount : (DirectoryRecord.file entry.fileEntry).entryCount = entry.setEntries := by
      show entry.entrySet.length / entryBytes = _
      rw [entry.shows_entrySet.length, Nat.mul_div_cancel _ (by decide)]
    have hcons : setCount (entry :: entries) = entry.setEntries + setCount entries := rfl
    rw [List.map_cons, List.foldl_cons, heq]
    simp only [ScanState.recorded, hcount, DirectorySummary.counted, DirectoryRecord.mask, hcons,
      List.length_cons, List.append_assoc, List.singleton_append]
    congr 1
    · omega
    · congr 1 <;> omega

/-- The state behind the records of the root. -/
theorem foldl_recorded_system :
    ∃ examined, (systemRecords object root bitmap upcaseAllocation bitmapLength volumeLabel upcaseBytes
        upcaseChecksum).foldl ScanState.recorded ScanState.initial =
      { index := (systemRecords object root bitmap upcaseAllocation bitmapLength volumeLabel upcaseBytes
          upcaseChecksum).length
        bitmapMask := if object = root then 1 else 0
        summary := { writtenSummary object root volumeLabel 0 examined with reachedEndMarker := false }
        records := systemRecords object root bitmap upcaseAllocation bitmapLength volumeLabel upcaseBytes
          upcaseChecksum } := by
  unfold systemRecords writtenSummary
  split_ifs
  · cases volumeLabel
    · exact ⟨2, by simp [ScanState.recorded, ScanState.initial, DirectorySummary.counted,
        DirectoryRecord.mask, DirectoryRecord.entryCount]⟩
    · exact ⟨3, by simp [ScanState.recorded, ScanState.initial, DirectorySummary.counted,
        DirectoryRecord.mask, DirectoryRecord.entryCount]⟩
  · exact ⟨0, rfl⟩

theorem validateRootCounts_written {files entryCount : ℕ} (hfats : context.numberOfFats = 1)
    (hisRoot : context.isRoot = decide (object = root)) :
    validateRootCounts context (writtenSummary object root volumeLabel files entryCount) = .ok () := by
  unfold validateRootCounts
  split_ifs with h
  · rw [hisRoot, decide_eq_true_iff] at h
    unfold writtenSummary requireCount
    rw [if_pos h, if_pos h, if_pos h, ensure_of hfats.symm, ok_bind, ensure_of rfl, ok_bind]
    exact ensure_of (Bool.toNat_le _)
  · rfl

/-- One pass over a written directory. -/
theorem scanDirectory_written {entries : List ChildEntry} {rest : ℕ}
    (hfats : context.numberOfFats = 1) (hisRoot : context.isRoot = decide (object = root))
    (hsystem : object = root → SystemReadable context bitmap upcaseAllocation bitmapLength volumeLabel
      upcaseBytes upcaseChecksum)
    (hreadable : ∀ entry ∈ entries, entry.Readable context) (hlen : directory.length < wordBound)
    (hdirectory : directory = systemEntries object root bitmap upcaseAllocation bitmapLength volumeLabel
      upcaseBytes upcaseChecksum ++ entries.flatMap ChildEntry.entrySet ++ zeros rest)
    (hrest : entryBytes ≤ rest) :
    scanDirectory directory context =
      .ok (writtenSummary object root volumeLabel entries.length (directory.length / entryBytes),
        systemRecords object root bitmap upcaseAllocation bitmapLength volumeLabel upcaseBytes
          upcaseChecksum ++ entries.map fun entry => .file entry.fileEntry) := by
  have hlengthSystem := @length_systemEntries object root bitmap upcaseAllocation bitmapLength
    upcaseChecksum volumeLabel upcaseBytes
  obtain ⟨examined, hstate⟩ := @foldl_recorded_system object root bitmap upcaseAllocation bitmapLength
    upcaseChecksum volumeLabel upcaseBytes
  set system := systemRecords object root bitmap upcaseAllocation bitmapLength volumeLabel upcaseBytes
    upcaseChecksum with hsystemRecords
  set state := system.foldl ScanState.recorded ScanState.initial with hstateEq
  obtain ⟨examined', hfiles⟩ := foldl_recorded_files entries state
  have hlength : directory.length = (system.length + setCount entries) * entryBytes + rest := by
    rw [hdirectory, List.length_append, List.length_append, hlengthSystem, length_entrySets,
      length_zeros, Nat.add_mul]
  have hle := length_le_setCount entries
  obtain ⟨spare, hspare⟩ : ∃ spare, directory.length / entryBytes =
      spare + 1 + entries.length + system.length := by
    have hdiv : system.length + setCount entries + 1 ≤ directory.length / entryBytes :=
      (Nat.le_div_iff_mul_le (by decide)).2 (by rw [hlength, Nat.succ_mul]; omega)
    exact ⟨directory.length / entryBytes - 1 - entries.length - system.length, by omega⟩
  have hindex : state.index = system.length := by rw [hstate]
  have hloop := calc
    scanLoop directory context (directory.length / entryBytes) ScanState.initial
        = scanLoop directory context (spare + 1 + entries.length + system.length)
            ScanState.initial := by rw [hspare]
      _ = scanLoop directory context (spare + 1 + entries.length) state :=
          scanLoop_system (hfats ▸ Nat.one_pos) hsystem (by rw [hdirectory, List.append_assoc])
      _ = scanLoop directory context (spare + 1) _ :=
          scanLoop_sets (by rw [hdirectory, List.append_assoc]) (by rw [hlengthSystem, hindex]) hlen
            hreadable
      _ = _ := scanLoop_zeros hdirectory (by
          rw [hfiles, List.length_append, hlengthSystem, length_entrySets, hindex, Nat.add_mul]) hrest
  rw [scanDirectory, hloop, ok_bind, hfiles]
  dsimp only
  rw [show ({ state.summary with
      entriesExamined := directory.length / entryBytes
      files := state.summary.files + entries.length
      records := state.summary.records + entries.length
      reachedEndMarker := true } : DirectorySummary) =
        writtenSummary object root volumeLabel entries.length (directory.length / entryBytes) by
      rw [hstate]
      simp [writtenSummary],
    validateRootCounts_written hfats hisRoot, ok_bind, hstate]
  rfl

/-- **A written directory reads back.** The parser finds the records of the root and one file for each
entry set, in order, and nothing else. -/
theorem parseDirectory_written {entries : List ChildEntry} {rest : ℕ}
    (hcontext : validateContext directory context = .ok ()) (hfats : context.numberOfFats = 1)
    (hisRoot : context.isRoot = decide (object = root))
    (hsystem : object = root → SystemReadable context bitmap upcaseAllocation bitmapLength volumeLabel
      upcaseBytes upcaseChecksum)
    (hreadable : ∀ entry ∈ entries, entry.Readable context) (hlen : directory.length < wordBound)
    (hdirectory : directory = systemEntries object root bitmap upcaseAllocation bitmapLength volumeLabel
      upcaseBytes upcaseChecksum ++ entries.flatMap ChildEntry.entrySet ++ zeros rest)
    (hrest : entryBytes ≤ rest) :
    parseDirectory directory context =
      .ok (writtenSummary object root volumeLabel entries.length (directory.length / entryBytes),
        systemRecords object root bitmap upcaseAllocation bitmapLength volumeLabel upcaseBytes
          upcaseChecksum ++ entries.map fun entry => .file entry.fileEntry) := by
  have hscan := scanDirectory_written hfats hisRoot hsystem hreadable hlen hdirectory hrest
  rw [parseDirectory, hcontext, ok_bind, hscan, ok_bind]

end Directory

end Serialize

end Exfat

end StarConverter
