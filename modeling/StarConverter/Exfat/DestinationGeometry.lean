import StarConverter.Exfat.BootRegion

/-!
# The destination's geometry

The length of the FAT, the offset of the cluster heap and the number of clusters depend on each other;
the formatter iterates from a FAT of one sector for at most 64 rounds. A longer FAT leaves fewer
clusters and these need a shorter FAT (`fatFor_antitone`), so the lengths are alternately too short and
long enough, and after an even number of rounds the FAT that was reserved is at least as long as the
one that is needed (`iterateGeometry_sound`), whether the rounds reach a fixed point or alternate
between two lengths to the end.
-/

namespace StarConverter

open Base

namespace Exfat

/-! ## The iteration -/

def fatOffsetSectors : ℕ := 24

def geometryRounds : ℕ := 64

structure ExfatSerializeLimits where
  maxClusters : ℕ
  deriving DecidableEq

def alignUp (value alignment : ℕ) : Option ℕ :=
  (checkedAdd value (alignment - 1)).map fun sum => sum / alignment * alignment

/-- The three lengths of one round. -/
structure GeometryRound where
  heapOffset : ℕ
  clusterCount : ℕ
  fatLength : ℕ
  deriving DecidableEq

/-- The heap behind a FAT of the given length, its clusters and the FAT these need. -/
def nextRound (volumeSectors sectorsPerCluster sector fatLength : ℕ) :
    Except ExfatSerializeError GeometryRound := do
  let fatEnd ← orErr (checkedAdd fatOffsetSectors fatLength) (.arithmeticOverflow "FAT end")
  let newHeap ← orErr (alignUp fatEnd sectorsPerCluster) (.arithmeticOverflow "alignment")
  ensure (newHeap < volumeSectors) (.invalidGeometry "metadata leaves no cluster heap")
  let newCount := (volumeSectors - newHeap) / sectorsPerCluster
  let entries ← orErr (checkedAdd newCount 2) (.arithmeticOverflow "FAT entries")
  let fatBytes ← orErr (checkedMul entries 4) (.arithmeticOverflow "FAT entries")
  pure ⟨newHeap, newCount, divCeil fatBytes sector⟩

/-- At most the given number of rounds, ending at the first that changes nothing. -/
def iterateGeometry (volumeSectors sectorsPerCluster sector : ℕ) :
    ℕ → GeometryRound → Except ExfatSerializeError GeometryRound
  | 0, round => pure round
  | rounds + 1, round => do
    let next ← nextRound volumeSectors sectorsPerCluster sector round.fatLength
    if next = round then pure round
    else iterateGeometry volumeSectors sectorsPerCluster sector rounds next

def toWord32 (value : ℕ) (operation : String) : Except ExfatSerializeError ℕ :=
  if value < wordBound32 then .ok value else .error (.arithmeticOverflow operation)

def chooseGeometry (volumeBytes : ℕ) (options : ExfatSerializeOptions)
    (limits : ExfatSerializeLimits) : Except ExfatSerializeError ExfatDestinationGeometry := do
  let sector := options.bytesPerSector
  let cluster := options.bytesPerCluster
  ensure ((512 ≤ sector ∧ sector ≤ 4096) ∧ Geometry.isPowerOfTwo sector)
    (.invalidGeometry "sector size must be a power of two from 512 through 4096")
  ensure (sector ≤ cluster ∧ Geometry.isPowerOfTwo cluster ∧ cluster ≤ 32 * 1024 * 1024 ∧
      cluster % sector = 0)
    (.invalidGeometry
      "cluster size must be a sector multiple and a power of two no larger than 32 MiB")
  ensure (1048576 ≤ volumeBytes ∧ volumeBytes % sector = 0)
    (.invalidGeometry "volume must be at least 1 MiB and sector aligned")
  let volumeSectors := volumeBytes / sector
  let _ ← orErr (checkedAdd options.partitionOffsetSectors volumeSectors)
    (.invalidGeometry "partition offset plus volume length overflows")
  let sectorsPerCluster := cluster / sector
  let round ← iterateGeometry volumeSectors sectorsPerCluster sector geometryRounds ⟨0, 0, 1⟩
  ensure (round.clusterCount ≠ 0 ∧ round.clusterCount ≤ maxClusterCount)
    (.invalidGeometry "cluster count is outside exFAT 1.00 bounds")
  ensure (round.clusterCount ≤ limits.maxClusters)
    (.limitExceeded "clusters" round.clusterCount limits.maxClusters)
  let fatLength ← toWord32 round.fatLength "FAT sector count"
  let heapOffset ← toWord32 round.heapOffset "heap sector offset"
  let clusterCount ← toWord32 round.clusterCount "cluster count"
  pure ⟨volumeBytes, volumeSectors, fatOffsetSectors, fatLength, heapOffset, clusterCount, 2, sector,
    cluster⟩

/-- The percent field: the share of the clusters that are allocated. -/
def percentInUse (allocated : List Bool) : UInt8 :=
  let percent := min (allocated.count true * 100) (wordBound - 1) / allocated.length
  if percent < 256 then UInt8.ofNat percent else 100

theorem percentInUse_allowed (allocated : List Bool) : PercentAllowed (percentInUse allocated) := by
  have hle : min (allocated.count true * 100) (wordBound - 1) / allocated.length ≤ 100 := by
    refine Nat.div_le_of_le_mul ?_
    have := allocated.count_le_length (a := true)
    omega
  rw [percentInUse, if_pos (by omega)]
  refine Or.inl ?_
  rwa [UInt8.toNat_ofNat_of_lt' (show _ < 256 by omega)]

/-! ## What a round computes -/

section Round

variable (volumeSectors sectorsPerCluster sector : ℕ)

/-- The heap's offset behind a FAT of the given length. -/
def heapFor (fatLength : ℕ) : ℕ :=
  (fatOffsetSectors + fatLength + (sectorsPerCluster - 1)) / sectorsPerCluster * sectorsPerCluster

/-- The whole clusters in that heap. -/
def clustersFor (fatLength : ℕ) : ℕ :=
  (volumeSectors - heapFor sectorsPerCluster fatLength) / sectorsPerCluster

/-- The length of a FAT for these clusters. -/
def fatFor (fatLength : ℕ) : ℕ :=
  divCeil ((clustersFor volumeSectors sectorsPerCluster fatLength + 2) * 4) sector

variable {volumeSectors sectorsPerCluster sector}

theorem le_heapFor (h : 0 < sectorsPerCluster) (fatLength : ℕ) :
    fatOffsetSectors + fatLength ≤ heapFor sectorsPerCluster fatLength := by
  have hdiv := Nat.div_add_mod (fatOffsetSectors + fatLength + (sectorsPerCluster - 1))
    sectorsPerCluster
  have hmod := Nat.mod_lt (fatOffsetSectors + fatLength + (sectorsPerCluster - 1)) h
  rw [Nat.mul_comm] at hdiv
  rw [heapFor]
  omega

theorem heapFor_mono {a b : ℕ} (h : a ≤ b) :
    heapFor sectorsPerCluster a ≤ heapFor sectorsPerCluster b :=
  Nat.mul_le_mul_right _ (Nat.div_le_div_right (by omega))

theorem clustersFor_antitone {a b : ℕ} (h : a ≤ b) :
    clustersFor volumeSectors sectorsPerCluster b ≤ clustersFor volumeSectors sectorsPerCluster a :=
  Nat.div_le_div_right (Nat.sub_le_sub_left (heapFor_mono h) _)

/-- A longer FAT needs no longer FAT. -/
theorem fatFor_antitone : Antitone (fatFor volumeSectors sectorsPerCluster sector) := by
  intro a b h
  have := @clustersFor_antitone volumeSectors sectorsPerCluster a b h
  exact Nat.div_le_div_right (by omega)

theorem fatFor_pos (h : 0 < sector) (fatLength : ℕ) :
    1 ≤ fatFor volumeSectors sectorsPerCluster sector fatLength :=
  Nat.div_pos (by omega) h

theorem nextRound_ok {fatLength : ℕ} {round : GeometryRound}
    (h : nextRound volumeSectors sectorsPerCluster sector fatLength = .ok round) :
    round = ⟨heapFor sectorsPerCluster fatLength, clustersFor volumeSectors sectorsPerCluster fatLength,
      fatFor volumeSectors sectorsPerCluster sector fatLength⟩ ∧ round.heapOffset < volumeSectors := by
  simp only [nextRound, alignUp, bind_ok_iff, orErr_ok_iff, checkedAdd_eq_some, checkedMul_eq_some,
    Option.map_eq_some_iff, ensure_ok_iff, pure_eq_ok, Except.ok.injEq] at h
  obtain ⟨_, ⟨-, rfl⟩, _, ⟨_, ⟨-, rfl⟩, rfl⟩, _, hlt, _, ⟨-, rfl⟩, _, ⟨-, rfl⟩, rfl⟩ := h
  exact ⟨rfl, hlt⟩

/-- **The last round.** The FAT that was reserved in front of the heap is at least as long as the one
that is needed, after any even number of rounds. -/
theorem iterateGeometry_sound {rounds : ℕ} {round result : GeometryRound} (hpos : 0 < rounds)
    (hparity : if rounds % 2 = 0
      then round.fatLength ≤ fatFor volumeSectors sectorsPerCluster sector round.fatLength
      else fatFor volumeSectors sectorsPerCluster sector round.fatLength ≤ round.fatLength)
    (h : iterateGeometry volumeSectors sectorsPerCluster sector rounds round = .ok result) :
    ∃ reserved, result = ⟨heapFor sectorsPerCluster reserved,
        clustersFor volumeSectors sectorsPerCluster reserved,
        fatFor volumeSectors sectorsPerCluster sector reserved⟩ ∧
      fatFor volumeSectors sectorsPerCluster sector reserved ≤ reserved ∧
      heapFor sectorsPerCluster reserved < volumeSectors := by
  induction rounds generalizing round with
  | zero => exact absurd hpos (lt_irrefl 0)
  | succ rounds ih =>
    simp only [iterateGeometry, bind_ok_iff] at h
    obtain ⟨next, hnext, h⟩ := h
    obtain ⟨rfl, hheap⟩ := nextRound_ok hnext
    split_ifs at h with hfixed
    · rw [pure_eq_ok, Except.ok.injEq] at h
      subst h
      exact ⟨round.fatLength, hfixed.symm, (congrArg GeometryRound.fatLength hfixed).le, hheap⟩
    · by_cases hlast : rounds = 0
      · subst hlast
        rw [iterateGeometry, pure_eq_ok, Except.ok.injEq] at h
        exact ⟨round.fatLength, h.symm, hparity, hheap⟩
      · refine ih (Nat.pos_of_ne_zero hlast) ?_ h
        -- one round turns a length that is too short into one that is long enough, and back
        by_cases heven : (rounds + 1) % 2 = 0
        · rw [if_pos heven] at hparity
          rw [if_neg (by omega)]
          exact fatFor_antitone hparity
        · rw [if_neg heven] at hparity
          rw [if_pos (by omega)]
          exact fatFor_antitone hparity

end Round

/-! ## The chosen geometry -/

/-- The regions of a volume lie one behind the other and the heap takes all whole clusters behind its
offset. -/
structure ExfatDestinationGeometry.SelfConsistent (geometry : ExfatDestinationGeometry) : Prop where
  fat_after_boot : 2 * sectorsPerBootRegion ≤ geometry.fatOffsetSectors
  fat_room : (geometry.clusterCount + 2) * 4 ≤ geometry.fatLengthSectors * geometry.bytesPerSector
  fat_end : geometry.fatOffsetSectors + geometry.fatLengthSectors ≤
    geometry.clusterHeapOffsetSectors
  heap_aligned : geometry.bytesPerCluster ∣
    geometry.clusterHeapOffsetSectors * geometry.bytesPerSector
  heap_inside : geometry.clusterHeapOffsetSectors * geometry.bytesPerSector +
    geometry.clusterCount * geometry.bytesPerCluster ≤ geometry.volumeBytes
  count_eq : geometry.clusterCount = (geometry.volumeBytes -
    geometry.clusterHeapOffsetSectors * geometry.bytesPerSector) / geometry.bytesPerCluster

/-- The exponent of a power of two between two others. -/
theorem log2_bounds {a lo hi : ℕ} (h : Geometry.isPowerOfTwo a) (hlo : 2 ^ lo ≤ a)
    (hhi : a ≤ 2 ^ hi) : lo ≤ a.log2 ∧ a.log2 ≤ hi := by
  rw [← h.2] at hlo hhi
  exact ⟨(Nat.pow_le_pow_iff_right (by omega)).1 hlo, (Nat.pow_le_pow_iff_right (by omega)).1 hhi⟩

/-- A cluster is a power of two of sectors. -/
theorem cluster_eq {sector cluster : ℕ} (hs : Geometry.isPowerOfTwo sector)
    (hc : Geometry.isPowerOfTwo cluster) (hle : sector ≤ cluster) :
    cluster = sector * 2 ^ (cluster.log2 - sector.log2) := by
  have hlog : sector.log2 ≤ cluster.log2 := (log2_bounds hc (hs.2.trans_le hle) hc.2.ge).1
  conv_lhs => rw [← hc.2]
  conv_rhs => rw [← hs.2]
  rw [Nat.log2_two_pow, ← pow_add, Nat.add_sub_cancel' hlog]

/-- A geometry of sectors of `2 ^ sectorShift` bytes and clusters of `2 ^ clusterShift` sectors whose heap
lies behind a FAT of `reserved` sectors. -/
structure ExfatDestinationGeometry.ChosenFor (geometry : ExfatDestinationGeometry)
    (partitionOffset sectorShift clusterShift reserved : ℕ) : Prop where
  sector_eq : geometry.bytesPerSector = 2 ^ sectorShift
  sector_mem : 9 ≤ sectorShift ∧ sectorShift ≤ 12
  cluster_eq : geometry.bytesPerCluster = geometry.bytesPerSector * 2 ^ clusterShift
  cluster_le : sectorShift + clusterShift ≤ 25
  minimum : 2 ^ 20 ≤ geometry.volumeBytes
  volume_eq : geometry.volumeBytes = geometry.volumeSectors * geometry.bytesPerSector
  partition : partitionOffset + geometry.volumeSectors < wordBound
  fat_offset : geometry.fatOffsetSectors = Exfat.fatOffsetSectors
  heap_eq : geometry.clusterHeapOffsetSectors = heapFor (2 ^ clusterShift) reserved
  count_eq : geometry.clusterCount = clustersFor geometry.volumeSectors (2 ^ clusterShift) reserved
  fat_eq : geometry.fatLengthSectors = fatFor geometry.volumeSectors (2 ^ clusterShift)
    geometry.bytesPerSector reserved
  fat_le : geometry.fatLengthSectors ≤ reserved
  heap_lt : geometry.clusterHeapOffsetSectors < geometry.volumeSectors
  heap_word : geometry.clusterHeapOffsetSectors < wordBound32
  count_pos : 0 < geometry.clusterCount
  count_le : geometry.clusterCount ≤ maxClusterCount

variable {volumeBytes : ℕ} {options : ExfatSerializeOptions} {limits : ExfatSerializeLimits}
  {geometry : ExfatDestinationGeometry}

theorem toWord32_ok {value result : ℕ} {operation : String}
    (h : toWord32 value operation = .ok result) : result = value ∧ value < wordBound32 := by
  unfold toWord32 at h
  split_ifs at h with hlt
  cases h
  exact ⟨rfl, hlt⟩

/-- What the checks and the rounds leave. -/
theorem chooseGeometry_ok (h : chooseGeometry volumeBytes options limits = .ok geometry) :
    ∃ sectorShift clusterShift reserved,
      geometry.ChosenFor options.partitionOffsetSectors sectorShift clusterShift reserved := by
  simp only [chooseGeometry, bind_ok_iff, exists_const, ensure_ok_iff, orErr_ok_iff,
    checkedAdd_eq_some, pure_eq_ok, Except.ok.injEq] at h
  obtain ⟨⟨⟨hlow, hhigh⟩, hsector⟩, ⟨hle, hcluster, hmax, -⟩, ⟨hmin, hmod⟩, _, ⟨hpart, -⟩, round,
    hround, ⟨hpos, hcount⟩, -, _, hfat, _, hheap, _, hclusters, rfl⟩ := h
  obtain ⟨rfl, -⟩ := toWord32_ok hfat
  obtain ⟨rfl, hheap32⟩ := toWord32_ok hheap
  obtain ⟨rfl, -⟩ := toWord32_ok hclusters
  have hsbounds := @log2_bounds _ 9 12 hsector hlow hhigh
  have hcbounds := @log2_bounds _ 0 25 hcluster (Nat.pos_of_ne_zero hcluster.1) hmax
  have hspc : options.bytesPerCluster / options.bytesPerSector =
      2 ^ (options.bytesPerCluster.log2 - options.bytesPerSector.log2) := by
    conv_lhs => rw [cluster_eq hsector hcluster hle]
    exact Nat.mul_div_cancel_left _ (by omega)
  have hlog : options.bytesPerSector.log2 ≤ options.bytesPerCluster.log2 :=
    (log2_bounds hcluster (hsector.2.trans_le hle) hcluster.2.ge).1
  rw [hspc] at hround
  have hstart : 1 ≤ fatFor (volumeBytes / options.bytesPerSector)
      (2 ^ (options.bytesPerCluster.log2 - options.bytesPerSector.log2)) options.bytesPerSector 1 :=
    fatFor_pos (by omega) 1
  obtain ⟨reserved, rfl, hfatle, hheaplt⟩ :=
    iterateGeometry_sound (by decide) (by simpa [geometryRounds] using hstart) hround
  exact ⟨options.bytesPerSector.log2, options.bytesPerCluster.log2 - options.bytesPerSector.log2,
    reserved,
    { sector_eq := hsector.2.symm
      sector_mem := hsbounds
      cluster_eq := cluster_eq hsector hcluster hle
      cluster_le := by omega
      minimum := hmin
      volume_eq := (Nat.div_mul_cancel (Nat.dvd_of_mod_eq_zero hmod)).symm
      partition := hpart
      fat_offset := rfl
      heap_eq := rfl
      count_eq := rfl
      fat_eq := rfl
      fat_le := hfatle
      heap_lt := hheaplt
      heap_word := hheap32
      count_pos := Nat.pos_of_ne_zero hpos
      count_le := hcount }⟩

namespace ExfatDestinationGeometry.ChosenFor

variable {partitionOffset sectorShift clusterShift reserved : ℕ}

theorem sector_pos
    (h : geometry.ChosenFor partitionOffset sectorShift clusterShift reserved) :
    0 < geometry.bytesPerSector := by
  rw [h.sector_eq]
  exact Nat.two_pow_pos _

theorem fat_room
    (h : geometry.ChosenFor partitionOffset sectorShift clusterShift reserved) :
    (geometry.clusterCount + 2) * 4 ≤ geometry.fatLengthSectors * geometry.bytesPerSector := by
  rw [h.fat_eq, h.count_eq]
  exact le_divCeil_mul h.sector_pos

theorem fat_end
    (h : geometry.ChosenFor partitionOffset sectorShift clusterShift reserved) :
    geometry.fatOffsetSectors + geometry.fatLengthSectors ≤ geometry.clusterHeapOffsetSectors := by
  have hheap := le_heapFor (Nat.two_pow_pos clusterShift) reserved
  have hle := h.fat_le
  rw [h.fat_offset, h.heap_eq]
  omega

/-- Sectors behind the heap's offset, as bytes. -/
theorem heap_bytes
    (h : geometry.ChosenFor partitionOffset sectorShift clusterShift reserved) :
    geometry.volumeBytes - geometry.clusterHeapOffsetSectors * geometry.bytesPerSector =
      (geometry.volumeSectors - geometry.clusterHeapOffsetSectors) * geometry.bytesPerSector := by
  rw [h.volume_eq, Nat.sub_mul]

theorem selfConsistent
    (h : geometry.ChosenFor partitionOffset sectorShift clusterShift reserved) :
    geometry.SelfConsistent where
  fat_after_boot := h.fat_offset.ge
  fat_room := h.fat_room
  fat_end := h.fat_end
  heap_aligned := by
    rw [h.heap_eq, h.cluster_eq, heapFor, Nat.mul_comm geometry.bytesPerSector]
    exact Nat.mul_dvd_mul_right (Nat.dvd_mul_left _ _) _
  heap_inside := by
    have hfit : geometry.clusterCount * 2 ^ clusterShift ≤
        geometry.volumeSectors - geometry.clusterHeapOffsetSectors := by
      rw [h.count_eq, h.heap_eq]
      exact Nat.div_mul_le_self _ _
    have hbytes := Nat.mul_le_mul_right geometry.bytesPerSector hfit
    have hlt := Nat.mul_le_mul_right geometry.bytesPerSector h.heap_lt.le
    rw [← h.heap_bytes] at hbytes
    rw [← h.volume_eq] at hlt
    rw [h.cluster_eq, Nat.mul_comm geometry.bytesPerSector, ← Nat.mul_assoc]
    omega
  count_eq := by
    rw [h.heap_bytes, h.cluster_eq, Nat.mul_comm geometry.bytesPerSector,
      Nat.mul_div_mul_right _ _ h.sector_pos, h.count_eq, h.heap_eq]
    rfl

theorem valid (h : geometry.ChosenFor partitionOffset sectorShift clusterShift reserved) {root : ℕ}
    (hroot : 2 ≤ root ∧ root ≤ geometry.clusterCount + 1) :
    { geometry with rootDirectoryCluster := root }.Valid partitionOffset sectorShift clusterShift where
  sector_eq := h.sector_eq
  sector_mem := h.sector_mem
  cluster_eq := h.cluster_eq
  cluster_le := h.cluster_le
  partition := h.partition
  minimum := by
    refine Nat.div_le_of_le_mul ?_
    rw [Nat.mul_comm, ← h.volume_eq]
    exact h.minimum
  fat_offset := h.fat_offset
  fat_room := h.fat_room
  fat_end := h.fat_end
  heap_lt := h.heap_lt
  heap_word := h.heap_word
  count_pos := h.count_pos
  count_le := h.count_le
  count_eq := by
    rw [h.count_eq, h.heap_eq]
    rfl
  root := hroot

end ExfatDestinationGeometry.ChosenFor

/-- **The chosen geometry is self-consistent.** Whether or not the rounds reached a fixed point, the
regions fit one behind the other, and the boot regions are written for every root cluster in the heap:
for every percent field the format allows, the one of any allocation of the clusters among them. -/
theorem chooseGeometry_sound (h : chooseGeometry volumeBytes options limits = .ok geometry) :
    geometry.SelfConsistent ∧
      ∀ root, 2 ≤ root → root ≤ geometry.clusterCount + 1 →
        (∀ percent, (∃ regions, buildBootRegions { geometry with rootDirectoryCluster := root } options
          percent = .ok regions) ↔ PercentAllowed percent) ∧
        ∀ allocated : List Bool, ∃ regions, buildBootRegions
          { geometry with rootDirectoryCluster := root } options (percentInUse allocated) =
            .ok regions := by
  obtain ⟨sectorShift, clusterShift, reserved, hchosen⟩ := chooseGeometry_ok h
  refine ⟨hchosen.selfConsistent, fun root hlow hhigh => ?_⟩
  have hbuilt := fun percent =>
    @buildBootRegions_of_valid _ options percent _ _ (hchosen.valid ⟨hlow, hhigh⟩)
  exact ⟨hbuilt, fun allocated => (hbuilt _).2 (percentInUse_allowed allocated)⟩

/-- A volume whose rounds alternate between FATs of 16 and 17 sectors to the end. -/
theorem chooseGeometry_sound_alternating :
    (⟨1068544, 2087, 24, 16, 41, 2046, 2, 512, 512⟩ : ExfatDestinationGeometry).SelfConsistent :=
  (@chooseGeometry_sound 1068544 ⟨512, 512, 0, 0, 0x80⟩ ⟨1000000⟩ _ (by decide +kernel)).1

end Exfat

end StarConverter
