import StarConverter.Base.Bits
import StarConverter.Exfat.FatChain
import StarConverter.Exfat.PayloadMap

/-!
# Writing the FAT and the bitmap

The formatter writes the chains one after the other into a FAT of zeros. As long as no cluster is in two
chains, the finished FAT holds the entries of all of them and nothing else (`buildFat_ok`). The bitmap
marks the clusters that the new volume refers to, which are not all that were handed out: those of the
old directories become free (`destinationAllocated_ok`, `bitmapBytes_ok`).
-/

namespace StarConverter

open Base

namespace Exfat

def fatMediaEntry : ℕ := 0xfffffff8

namespace Serialize

/-! ## The formatter -/

def writeFatEntry (fat : Bytes) (cluster value : ℕ) : Formatted Bytes := do
  let offset ← orErr (checkedMul cluster 4) (.arithmeticOverflow "FAT byte offset")
  ensure (offset + 4 ≤ fat.length) (.invalidGeometry "FAT entry exceeds FAT")
  pure ((put 4 offset value).apply fat)

def writeChain : Bytes → List ℕ → Formatted Bytes
  | fat, [] => pure fat
  | fat, cluster :: rest => do
    let offset ← orErr (checkedMul cluster 4) (.arithmeticOverflow "FAT byte offset")
    ensure (offset + 4 ≤ fat.length) (.invalidGeometry "FAT chain exceeds FAT")
    writeChain ((put 4 offset (rest.head?.getD endOfChain)).apply fat) rest

def writeBadEntries : Bytes → List ℕ → Formatted Bytes
  | fat, [] => pure fat
  | fat, cluster :: rest => do
    let fat ← writeFatEntry fat cluster badCluster
    writeBadEntries fat rest

def writeChains : Bytes → List (List ℕ) → Formatted Bytes
  | fat, [] => pure fat
  | fat, chain :: rest => do
    let fat ← writeChain fat chain
    writeChains fat rest

def fatByteLength (geometry : ExfatDestinationGeometry) : ℕ :=
  geometry.fatLengthSectors * geometry.bytesPerSector

/-- The FAT of the bitmap, the up-case table, the bad clusters and the other chains. -/
def buildFat (geometry : ExfatDestinationGeometry) (bitmap upcase : Allocation) (bad : List ℕ)
    (chains : List (List ℕ)) : Formatted Bytes := do
  let fat ← writeFields (zeros (fatByteLength geometry)) 0
    [put 4 0 fatMediaEntry, put 4 4 endOfChain]
  let bitmapChain ← expandAllocation bitmap
  let fat ← writeChain fat bitmapChain
  let upcaseChain ← expandAllocation upcase
  let fat ← writeChain fat upcaseChain
  let fat ← writeBadEntries fat bad
  writeChains fat chains

/-- The clusters that the new volume refers to. -/
def destinationAllocated (clusterCount : ℕ) (reused : List ReusedPayload)
    (bitmap upcase : Allocation) (bad : List ℕ) (directories : List (List ℕ)) :
    Formatted (List Bool) := do
  let bits ← markClusters (List.replicate clusterCount false)
    (reused.flatMap ReusedPayload.clusters)
  let bits ← markAllocation bits bitmap
  let bits ← markAllocation bits upcase
  let bits ← markClusters bits bad
  markClusters bits directories.flatten

/-- `bitmap_bytes[index / 8] |= 1 << (index % 8)` -/
def setBit (bytes : Bytes) (index : ℕ) : Formatted Bytes := do
  let byte ← orErr bytes[index / 8]? .aborted
  pure (bytes.set (index / 8) (byte ||| UInt8.ofNat (1 <<< (index % 8))))

/-- Sets the bits of the allocated clusters, beginning with the given index. -/
def writeBits : Bytes → ℕ → List Bool → Formatted Bytes
  | bytes, _, [] => pure bytes
  | bytes, index, allocated :: rest =>
    if allocated then do
      let bytes ← setBit bytes index
      writeBits bytes (index + 1) rest
    else writeBits bytes (index + 1) rest

def bitmapBytes (bitmap : Allocation) (clusterBytes : ℕ) (allocated : List Bool) : Formatted Bytes :=
  writeBits (zeros (paddedAllocationBytes bitmap clusterBytes)) 0 allocated

/-! ## The entries of a FAT -/

/-- The entries of a chain: each cluster leads to the next and the last one ends the chain. -/
def chainEntries : List ℕ → List (ℕ × ℕ)
  | [] => []
  | cluster :: rest => (cluster, rest.head?.getD endOfChain) :: chainEntries rest

theorem map_fst_chainEntries (chain : List ℕ) : (chainEntries chain).map Prod.fst = chain := by
  induction chain with
  | nil => rfl
  | cons cluster rest ih => rw [chainEntries, List.map_cons, ih]

/-- The FAT holds these entries, and zero everywhere else. -/
structure FatHolds (fat : Bytes) (entries : List (ℕ × ℕ)) : Prop where
  holds : ∀ entry ∈ entries, InFat fat entry.1 ∧ fatValue fat entry.1 = entry.2
  free : ∀ cluster, InFat fat cluster → cluster ∉ entries.map Prod.fst → fatValue fat cluster = 0

section Entries

variable {fat result : Bytes} {entries : List (ℕ × ℕ)} {cluster value : ℕ}

theorem inFat_of_length {other : Bytes} (h : other.length = fat.length) :
    InFat other cluster ↔ InFat fat cluster := by
  unfold InFat
  rw [h]

theorem fatValue_put (hin : 4 * cluster + 4 ≤ fat.length) (hvalue : value < wordBound32) (other : ℕ) :
    fatValue ((put 4 (4 * cluster) value).apply fat) other =
      if other = cluster then value else fatValue fat other := by
  split_ifs with hother
  · subst hother
    have hfield : FieldAt ((put 4 (4 * other) value).apply fat) (4 * other) (toLe 4 value) :=
      @fieldAt_applyAll_of_apart _ [put 4 (4 * other) value] fat _ (List.mem_singleton_self _)
        (by rw [put_offset, length_put]; exact hin) fun q hq => .inl (List.mem_singleton.1 hq)
    exact hfield.leAt (by unfold wordBound32 at hvalue; omega)
  · refine congrArg fromLe (sliceAt_overwrite_of_disjoint fun i hlow hhigh hmem => ?_)
    rw [put_offset, length_put] at hmem
    omega

/-- One more entry. -/
theorem FatHolds.put (h : FatHolds fat entries) (hin : 4 * cluster + 4 ≤ fat.length)
    (hvalue : value < wordBound32) (hfresh : cluster ∉ entries.map Prod.fst) :
    FatHolds ((Base.put 4 (4 * cluster) value).apply fat) (entries ++ [(cluster, value)]) := by
  have hlen : ((Base.put 4 (4 * cluster) value).apply fat).length = fat.length :=
    Patch.length_apply _ _
  constructor
  · intro entry hentry
    rw [inFat_of_length hlen, fatValue_put hin hvalue]
    rcases List.mem_append.1 hentry with hentry | hentry
    · have hne : entry.1 ≠ cluster := fun heq => hfresh (heq ▸ List.mem_map_of_mem hentry)
      rw [if_neg hne]
      exact h.holds entry hentry
    · rw [List.mem_singleton.1 hentry, if_pos rfl]
      exact ⟨hin, rfl⟩
  · intro other hother hnone
    rw [List.map_append, List.mem_append, not_or] at hnone
    have hne : other ≠ cluster := fun heq => hnone.2 (by rw [heq]; exact List.mem_singleton_self _)
    rw [fatValue_put hin hvalue, if_neg hne]
    exact h.free other ((inFat_of_length hlen).1 hother) hnone.1

theorem fatHolds_zeros (n : ℕ) : FatHolds (zeros n) [] where
  holds entry hentry := absurd hentry List.not_mem_nil
  free cluster hin _ := by
    have hzero : FieldAt (zeros n) (4 * cluster) (toLe 4 0) := by
      rw [toLe_zero]
      exact fieldAt_zeros (by simpa [InFat] using hin)
    exact hzero.leAt (by norm_num)

/-- The fresh entries of a list, written one after the other. -/
theorem writeChain_ok {chain : List ℕ} (hholds : FatHolds fat entries)
    (hlt : ∀ cluster ∈ chain, cluster < wordBound32)
    (hnodup : (entries.map Prod.fst ++ chain).Nodup) (h : writeChain fat chain = .ok result) :
    FatHolds result (entries ++ chainEntries chain) ∧ result.length = fat.length := by
  induction chain generalizing fat entries with
  | nil =>
    rw [writeChain, pure_eq_ok, Except.ok.injEq] at h
    rw [chainEntries, List.append_nil, ← h]
    exact ⟨hholds, rfl⟩
  | cons cluster rest ih =>
    obtain ⟨-, hrest⟩ := List.forall_mem_cons.1 hlt
    simp only [writeChain, bind_ok_iff, orErr_ok_iff, checkedMul_eq_some, ensure_ok_iff] at h
    obtain ⟨_, ⟨-, rfl⟩, _, hin, h⟩ := h
    rw [Nat.mul_comm] at hin h
    have hvalue : rest.head?.getD endOfChain < wordBound32 := by
      cases rest with
      | nil => decide
      | cons next _ => exact hrest next List.mem_cons_self
    have hfresh : cluster ∉ entries.map Prod.fst := fun hmem =>
      (List.nodup_append'.1 hnodup).2.2 hmem List.mem_cons_self
    obtain ⟨hresult, hlen⟩ := ih (hholds.put hin hvalue hfresh) hrest
      (by rwa [List.map_append, List.append_assoc]) h
    rw [List.append_assoc, List.singleton_append] at hresult
    exact ⟨hresult, hlen.trans (Patch.length_apply _ _)⟩

theorem writeBadEntries_ok {bad : List ℕ} (hholds : FatHolds fat entries)
    (hnodup : (entries.map Prod.fst ++ bad).Nodup) (h : writeBadEntries fat bad = .ok result) :
    FatHolds result (entries ++ bad.map fun cluster => (cluster, badCluster)) ∧
      result.length = fat.length := by
  induction bad generalizing fat entries with
  | nil =>
    rw [writeBadEntries, pure_eq_ok, Except.ok.injEq] at h
    rw [List.map_nil, List.append_nil, ← h]
    exact ⟨hholds, rfl⟩
  | cons cluster rest ih =>
    simp only [writeBadEntries, writeFatEntry, bind_ok_iff, orErr_ok_iff, checkedMul_eq_some,
      ensure_ok_iff, pure_eq_ok, Except.ok.injEq] at h
    obtain ⟨_, ⟨_, ⟨-, rfl⟩, _, hin, rfl⟩, h⟩ := h
    rw [Nat.mul_comm] at hin h
    have hfresh : cluster ∉ entries.map Prod.fst := fun hmem =>
      (List.nodup_append'.1 hnodup).2.2 hmem List.mem_cons_self
    obtain ⟨hresult, hlen⟩ := ih (hholds.put hin (by decide) hfresh)
      (by rwa [List.map_append, List.append_assoc]) h
    rw [List.append_assoc, List.singleton_append] at hresult
    exact ⟨hresult, hlen.trans (Patch.length_apply _ _)⟩

theorem writeChains_ok {chains : List (List ℕ)} (hholds : FatHolds fat entries)
    (hlt : ∀ chain ∈ chains, ∀ cluster ∈ chain, cluster < wordBound32)
    (hnodup : (entries.map Prod.fst ++ chains.flatten).Nodup)
    (h : writeChains fat chains = .ok result) :
    FatHolds result (entries ++ chains.flatMap chainEntries) ∧ result.length = fat.length := by
  induction chains generalizing fat entries with
  | nil =>
    rw [writeChains, pure_eq_ok, Except.ok.injEq] at h
    rw [List.flatMap_nil, List.append_nil, ← h]
    exact ⟨hholds, rfl⟩
  | cons chain rest ih =>
    obtain ⟨hfirst, hrest⟩ := List.forall_mem_cons.1 hlt
    simp only [writeChains, bind_ok_iff] at h
    obtain ⟨next, hnext, h⟩ := h
    rw [List.flatten_cons, ← List.append_assoc] at hnodup
    obtain ⟨hsingle, hlen⟩ := writeChain_ok hholds hfirst (List.nodup_append'.1 hnodup).1 hnext
    obtain ⟨hresult, hlen'⟩ := ih hsingle hrest
      (by rwa [List.map_append, map_fst_chainEntries]) h
    rw [List.append_assoc] at hresult
    exact ⟨hresult, hlen'.trans hlen⟩

end Entries

/-- The entries of the finished FAT. -/
def fatEntries (bitmap upcase : Allocation) (bad : List ℕ) (chains : List (List ℕ)) :
    List (ℕ × ℕ) :=
  [(0, fatMediaEntry), (1, endOfChain)] ++ chainEntries bitmap.clusters ++
    chainEntries upcase.clusters ++ bad.map (fun cluster => (cluster, badCluster)) ++
      chains.flatMap chainEntries

/-- **The finished FAT** holds the entries of its chains and of the bad clusters, and no others. -/
theorem buildFat_ok {geometry : ExfatDestinationGeometry} {bitmap upcase : Allocation} {bad : List ℕ}
    {chains : List (List ℕ)} {fat : Bytes}
    (hlow : ∀ cluster ∈ bitmap.clusters ++ upcase.clusters ++ bad ++ chains.flatten, 2 ≤ cluster)
    (hlt : ∀ cluster ∈ bitmap.clusters ++ upcase.clusters ++ bad ++ chains.flatten,
      cluster < wordBound32)
    (hnodup : (bitmap.clusters ++ upcase.clusters ++ bad ++ chains.flatten).Nodup)
    (h : buildFat geometry bitmap upcase bad chains = .ok fat) :
    FatHolds fat (fatEntries bitmap upcase bad chains) ∧ fat.length = fatByteLength geometry := by
  have hall : ([0, 1] ++ bitmap.clusters ++ upcase.clusters ++ bad ++ chains.flatten).Nodup := by
    rw [List.append_assoc, List.append_assoc, List.append_assoc, List.nodup_append']
    refine ⟨by decide, by simpa only [List.append_assoc] using hnodup, fun cluster hsmall hmem => ?_⟩
    have := hlow cluster (by simpa only [List.append_assoc] using hmem)
    simp only [List.mem_cons, List.not_mem_nil, or_false] at hsmall
    omega
  simp only [buildFat, writeFields, expandAllocation, bind_ok_iff, ensure_ok_iff, pure_eq_ok,
    Except.ok.injEq] at h
  obtain ⟨first, ⟨_, hroom, rfl⟩, _, ⟨_, -, rfl⟩, second, hsecond, _, ⟨_, -, rfl⟩, third, hthird,
    fourth, hfourth, h⟩ := h
  have hlength : 8 ≤ (zeros (fatByteLength geometry)).length := by
    have := hroom (put 4 4 endOfChain) (by simp)
    rw [put_offset, length_put] at this
    omega
  have hstart : FatHolds (applyAll ([put 4 0 fatMediaEntry, put 4 4 endOfChain].map (Patch.shift 0))
      (zeros (fatByteLength geometry))) [(0, fatMediaEntry), (1, endOfChain)] := by
    have hfirst := @FatHolds.put _ _ 0 fatMediaEntry (fatHolds_zeros (fatByteLength geometry))
      (by omega) (by decide) List.not_mem_nil
    exact @FatHolds.put _ _ 1 endOfChain hfirst (by rw [Patch.length_apply]; omega) (by decide)
      (by decide)
  have hmem : ∀ {cluster : ℕ}, (cluster ∈ bitmap.clusters ∨ cluster ∈ upcase.clusters ∨
      cluster ∈ bad ∨ cluster ∈ chains.flatten) → cluster < wordBound32 := fun hor =>
    hlt _ (by simpa only [List.mem_append, or_assoc] using hor)
  have hfront := fun {l l' : List ℕ} (hl : (l ++ l').Nodup) => (List.nodup_append'.1 hl).1
  obtain ⟨hsecondHolds, hlen2⟩ := writeChain_ok hstart (fun c hc => hmem (.inl hc))
    (hfront (hfront (hfront hall))) hsecond
  obtain ⟨hthirdHolds, hlen3⟩ := writeChain_ok hsecondHolds (fun c hc => hmem (.inr (.inl hc)))
    (by
      rw [List.map_append, map_fst_chainEntries]
      exact hfront (hfront hall)) hthird
  obtain ⟨hfourthHolds, hlen4⟩ := writeBadEntries_ok hthirdHolds
    (by
      rw [List.map_append, List.map_append, map_fst_chainEntries, map_fst_chainEntries]
      exact hfront hall) hfourth
  obtain ⟨hresult, hlen5⟩ := writeChains_ok hfourthHolds
    (fun chain hchain c hc => hmem (.inr (.inr (.inr (List.mem_flatten.2 ⟨chain, hchain, hc⟩)))))
    (by
      rw [List.map_append, List.map_append, List.map_append, map_fst_chainEntries,
        map_fst_chainEntries, List.map_map]
      have hid : bad.map (Prod.fst ∘ fun cluster => (cluster, badCluster)) = bad := List.map_id bad
      rw [hid]
      exact hall) h
  refine ⟨hresult, ?_⟩
  rw [hlen5, hlen4, hlen3, hlen2, length_applyAll, length_zeros]

/-! ## The bits of the bitmap -/

section Bitmap

variable {clusterCount : ℕ} {bits : List Bool}

/-- The bits that are set are those of the clusters that the volume refers to. -/
theorem destinationAllocated_ok {reused : List ReusedPayload} {bitmap upcase : Allocation}
    {bad : List ℕ} {directories : List (List ℕ)}
    (h : destinationAllocated clusterCount reused bitmap upcase bad directories = .ok bits) :
    bits.length = clusterCount ∧
      Marked bits ((reused.flatMap ReusedPayload.clusters).map (· - 2) ++
        List.range' (bitmap.firstCluster - 2) bitmap.clusterCount ++
        List.range' (upcase.firstCluster - 2) upcase.clusterCount ++ bad.map (· - 2) ++
        directories.flatten.map (· - 2)) := by
  simp only [destinationAllocated, bind_ok_iff] at h
  obtain ⟨first, hfirst, second, hsecond, third, hthird, fourth, hfourth, h⟩ := h
  obtain ⟨hmarked1, hlen1⟩ := markClusters_ok (marked_replicate clusterCount) hfirst
  obtain ⟨hmarked2, hlen2⟩ := markAllocation_ok hmarked1 hsecond
  obtain ⟨hmarked3, hlen3⟩ := markAllocation_ok hmarked2 hthird
  obtain ⟨hmarked4, hlen4⟩ := markClusters_ok hmarked3 hfourth
  obtain ⟨hmarked5, hlen5⟩ := markClusters_ok hmarked4 h
  refine ⟨?_, hmarked5⟩
  rw [hlen5, hlen4, hlen3, hlen2, hlen1, List.length_replicate]

theorem testBit_or_shift (byte : UInt8) {m : ℕ} (hm : m < 8) (i : ℕ) :
    (byte ||| UInt8.ofNat (1 <<< m)).toNat.testBit i = (byte.toNat.testBit i || decide (m = i)) := by
  have hlt : 1 <<< m < 2 ^ 8 := by
    rw [Nat.one_shiftLeft]
    exact Nat.pow_lt_pow_right (by norm_num) hm
  rw [UInt8.toNat_or, Nat.testBit_or, UInt8.toNat_ofNat_of_lt' hlt, Nat.one_shiftLeft,
    Nat.testBit_two_pow]

theorem setBit_ok {bytes result : Bytes} {index : ℕ} (h : setBit bytes index = .ok result) :
    result.length = bytes.length ∧
      ∀ i, bitAt result i = (bitAt bytes i || decide (i = index)) := by
  simp only [setBit, bind_ok_iff, orErr_ok_iff, pure_eq_ok, Except.ok.injEq] at h
  obtain ⟨byte, hbyte, rfl⟩ := h
  have hlt : index / 8 < bytes.length := (List.getElem?_eq_some_iff.1 hbyte).1
  refine ⟨List.length_set, fun i => ?_⟩
  unfold bitAt
  rw [List.getD_eq_getElem?_getD, List.getD_eq_getElem?_getD, List.getElem?_set]
  by_cases hi : index / 8 = i / 8
  · rw [if_pos hi, if_pos (hi ▸ hlt), ← hi, hbyte, Option.getD_some, Option.getD_some,
      testBit_or_shift byte (Nat.mod_lt _ (by norm_num))]
    congr 2
    exact propext ⟨fun h => by omega, fun h => by rw [h]⟩
  · have hne : i ≠ index := fun heq => hi (by rw [heq])
    rw [if_neg hi, decide_eq_false hne, Bool.or_false]

theorem writeBits_ok {bytes result : Bytes} {index : ℕ} (h : writeBits bytes index bits = .ok result) :
    result.length = bytes.length ∧
      ∀ i, bitAt result i = (bitAt bytes i || decide (index ≤ i ∧ bits[i - index]? = some true)) := by
  induction bits generalizing bytes index with
  | nil =>
    rw [writeBits, pure_eq_ok, Except.ok.injEq] at h
    subst h
    exact ⟨rfl, fun i => by simp⟩
  | cons allocated rest ih =>
    rw [writeBits] at h
    have hshift : ∀ i, decide (index + 1 ≤ i ∧ rest[i - (index + 1)]? = some true) =
        decide (index < i ∧ (allocated :: rest)[i - index]? = some true) := by
      intro i
      refine decide_eq_decide.2 (and_congr_right fun hi => ?_)
      rw [show i - index = i - (index + 1) + 1 by omega, List.getElem?_cons_succ]
    have hself : ∀ i, i = index → (allocated :: rest)[i - index]? = some allocated := by
      rintro i rfl
      rw [Nat.sub_self, List.getElem?_cons_zero]
    cases allocated with
    | true =>
      simp only [if_true, bind_ok_iff] at h
      obtain ⟨next, hnext, h⟩ := h
      obtain ⟨hlen, hbits⟩ := setBit_ok hnext
      obtain ⟨hlen', hbits'⟩ := ih h
      refine ⟨hlen'.trans hlen, fun i => ?_⟩
      rw [hbits', hbits, hshift, Bool.or_assoc, ← Bool.decide_or]
      congr 2
      refine propext ⟨fun h => ?_, fun h => ?_⟩
      · rcases h with rfl | ⟨hlt, hbit⟩
        · exact ⟨le_rfl, hself i rfl⟩
        · exact ⟨hlt.le, hbit⟩
      · obtain ⟨hle, hbit⟩ := h
        rcases Nat.eq_or_lt_of_le hle with rfl | hlt
        · exact .inl rfl
        · exact .inr ⟨hlt, hbit⟩
    | false =>
      rw [if_neg (by simp)] at h
      obtain ⟨hlen, hbits⟩ := ih h
      refine ⟨hlen, fun i => ?_⟩
      rw [hbits, hshift]
      congr 2
      refine propext ⟨fun h => ⟨h.1.le, h.2⟩, fun h => ?_⟩
      obtain ⟨hle, hbit⟩ := h
      rcases Nat.eq_or_lt_of_le hle with rfl | hlt
      · rw [hself index rfl] at hbit
        cases hbit
      · exact ⟨hlt, hbit⟩

theorem bitAt_zeros (n i : ℕ) : bitAt (zeros n) i = false := by
  unfold bitAt
  have hzero : (zeros n).getD (i / 8) 0 = 0 := by
    rw [List.getD_eq_getElem?_getD, zeros, List.getElem?_replicate]
    split_ifs <;> rfl
  rw [hzero]
  exact Nat.zero_testBit _

/-- **The bitmap** has the bit of each allocated cluster, and no others. -/
theorem bitmapBytes_ok {bitmap : Allocation} {clusterBytes : ℕ} {bytes : Bytes}
    (h : bitmapBytes bitmap clusterBytes bits = .ok bytes) :
    bytes.length = paddedAllocationBytes bitmap clusterBytes ∧
      ∀ i, bitAt bytes i = decide (bits[i]? = some true) := by
  obtain ⟨hlen, hbits⟩ := writeBits_ok h
  refine ⟨hlen.trans (length_zeros _), fun i => ?_⟩
  rw [hbits, bitAt_zeros, Bool.false_or, Nat.sub_zero]
  exact decide_eq_decide.2 (and_iff_right (Nat.zero_le i))

end Bitmap

end Serialize

end Exfat

end StarConverter
