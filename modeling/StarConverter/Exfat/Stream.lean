import StarConverter.Exfat.Allocation
import StarConverter.Image

/-!
# Streams of clusters

A stream is a chain of clusters, contiguous or linked by the FAT, and the bytes read through it. A
chain is followed with the list of clusters seen so far, so a chain that is returned has no cluster
twice (`IsChain`); two readers that follow the same FAT from the same cluster for the same number of
clusters return the same chain (`chain_unique`).
-/

namespace StarConverter

open Base

namespace Exfat

/-- Resource limits for one stream read. -/
structure StreamReadLimits where
  maxBytes : ℕ
  maxClusters : ℕ
  deriving DecidableEq

/-- Stream bytes and the clusters they were read from. -/
structure ExfatStream where
  bytes : Bytes
  clusters : List ℕ
  allocationBytes : ℕ
  contiguous : Bool
  deriving DecidableEq

inductive FatIndex
  | first
  | second
  deriving DecidableEq

namespace FatIndex

def number : FatIndex → ℕ
  | .first => 0
  | .second => 1

def fromBitmapIdentifier (identifier : ℕ) : Option FatIndex :=
  match identifier with
  | 0 => some .first
  | 1 => some .second
  | _ => none

def active (geometry : ExfatBootSector) : FatIndex :=
  if geometry.volumeFlags % 2 = 0 then .first else .second

end FatIndex

inductive ExfatImageError
  | invalidLimits
  | invalidFatIndex (requested available : ℕ)
  | invalidDataLength (length : ℕ)
  | streamTooLarge (length maximum : ℕ)
  | clusterLimitExceeded (maximum : ℕ)
  | chainCycle (cluster : ℕ)
  | chainEndedEarly (expectedClusters actualClusters : ℕ)
  | chainContinuesPastData (nextCluster : ℕ)
  | freeClusterInChain (cluster : ℕ)
  | badClusterInChain (cluster : ℕ)
  | arithmeticOverflow (calculation : String)
  | allocation (error : ExfatAllocationError)
  | image (error : ImageError)
  deriving DecidableEq

abbrev Streamed (α : Type) := Except ExfatImageError α

def validateFatIndex (geometry : ExfatBootSector) (fat : FatIndex) : Streamed Unit :=
  ensure (fat.number < geometry.numberOfFats) (.invalidFatIndex fat.number geometry.numberOfFats)

namespace StreamReadLimits

def validate (limits : StreamReadLimits) : Streamed Unit :=
  ensure (¬ (limits.maxBytes = 0 ∨ limits.maxClusters = 0)) .invalidLimits

end StreamReadLimits

def enforceByteLimit (length maximum : ℕ) : Streamed Unit :=
  ensure (length ≤ maximum) (.streamTooLarge length maximum)

section Chains

variable (image : BoundedImageReader) (geometry : ExfatBootSector)

/-- Where the FAT keeps the entry of a cluster; the names are those of the three calculations. -/
def fatEntryOffset {ε : Type} (overflow : String → ε) (skip sector entry : String) (fat : FatIndex)
    (cluster : ℕ) : Except ε ℕ := do
  let skipped ← orErr (checkedMul fat.number geometry.fatLengthSectors) (overflow skip)
  let fatSector ← orErr (checkedAdd geometry.fatOffsetSectors skipped) (overflow sector)
  orErr ((checkedMul fatSector geometry.bytesPerSector).bind fun base => checkedAdd base (cluster * 4))
    (overflow entry)

def readFatEntry (fat : FatIndex) (cluster : ℕ) : Streamed FatEntry := do
  let offset ← fatEntryOffset geometry .arithmeticOverflow "selected FAT sector offset"
    "selected FAT sector" "FAT entry image offset" fat cluster
  let bytes ← (image.readExactAt offset 4).mapError .image
  (decodeFatValue geometry cluster (fromLe bytes)).mapError .allocation

def validateNewCluster (cluster : ℕ) (seen : List ℕ) : Streamed Unit := do
  let _ ← (clusterByteOffset geometry cluster).mapError .allocation
  ensure (cluster ∉ seen) (.chainCycle cluster)

def contiguousClusters (firstCluster count : ℕ) : Streamed (List ℕ) := do
  let _ ← (clusterByteOffset geometry firstCluster).mapError .allocation
  ensure (count < wordBound32) (.arithmeticOverflow "contiguous cluster count conversion")
  let stop ← orErr (checkedAdd32 firstCluster count) (.arithmeticOverflow "contiguous cluster range")
  let heapEnd ← orErr (checkedAdd32 2 geometry.clusterCount) (.arithmeticOverflow "cluster heap end")
  ensure (stop ≤ heapEnd) (.allocation (.invalidCluster (stop - 1)))
  pure (List.range' firstCluster count)

/-- The remaining `n` clusters of a chain that needs exactly `clusters.length + n` of them. -/
def exactFatChainLoop (fat : FatIndex) (needed maximum : ℕ) :
    ℕ → List ℕ → ℕ → Streamed (List ℕ)
  | 0, _, _ => .error (.clusterLimitExceeded maximum)
  | n + 1, clusters, current => do
    validateNewCluster geometry current clusters
    let clusters := clusters ++ [current]
    let entry ← readFatEntry image geometry fat current
    match entry with
    | .next next =>
      if n = 0 then .error (.chainContinuesPastData next)
      else exactFatChainLoop fat needed maximum n clusters next
    | .endOfChain =>
      if n = 0 then pure clusters else .error (.chainEndedEarly needed clusters.length)
    | .free => .error (.freeClusterInChain current)
    | .bad => .error (.badClusterInChain current)

def exactFatChain (fat : FatIndex) (firstCluster needed maximum : ℕ) : Streamed (List ℕ) :=
  exactFatChainLoop image geometry fat needed maximum needed [] firstCluster

/-- The clusters up to the end of the chain, `n` more at most. -/
def fatChainToEndLoop (fat : FatIndex) (maximum : ℕ) : ℕ → List ℕ → ℕ → Streamed (List ℕ)
  | 0, _, _ => .error (.clusterLimitExceeded maximum)
  | n + 1, clusters, current => do
    validateNewCluster geometry current clusters
    let clusters := clusters ++ [current]
    let entry ← readFatEntry image geometry fat current
    match entry with
    | .next next => fatChainToEndLoop fat maximum n clusters next
    | .endOfChain => pure clusters
    | .free => .error (.freeClusterInChain current)
    | .bad => .error (.badClusterInChain current)

def fatChainToEnd (fat : FatIndex) (firstCluster maximum : ℕ) : Streamed (List ℕ) :=
  fatChainToEndLoop image geometry fat maximum maximum [] firstCluster

/-- Reads `remaining` bytes in chunks the reader accepts; every chunk has a byte, so `remaining` chunks
are enough. -/
def readChunks : ℕ → ℕ → ℕ → Streamed Bytes
  | 0, _, _ => pure []
  | fuel + 1, offset, remaining =>
    if remaining = 0 then pure []
    else do
      let chunkLength := min remaining image.maxReadBytes
      let chunk ← (image.readExactAt offset chunkLength).mapError .image
      let offset ← orErr (checkedAdd offset chunkLength) (.arithmeticOverflow "cluster chunk offset")
      let more ← readChunks fuel offset (remaining - chunkLength)
      pure (chunk ++ more)

/-- Reads the clusters one behind the other until no bytes remain. -/
def readClusterBytes : List ℕ → ℕ → Streamed Bytes
  | [], _ => pure []
  | cluster :: rest, remaining => do
    let offset ← (clusterByteOffset geometry cluster).mapError .allocation
    let count := min remaining geometry.bytesPerCluster
    let bytes ← readChunks image count offset count
    if remaining - count = 0 then pure bytes
    else do
      let more ← readClusterBytes rest (remaining - count)
      pure (bytes ++ more)

def readClusters (clusters : List ℕ) (dataLength maximum : ℕ) : Streamed Bytes := do
  enforceByteLimit dataLength maximum
  readClusterBytes image geometry clusters dataLength

/-- The clusters of a stream of known length. -/
def streamClusters (fat : FatIndex) (firstCluster needed : ℕ) (noFatChain : Bool)
    (limits : StreamReadLimits) : Streamed (List ℕ) :=
  if noFatChain then contiguousClusters geometry firstCluster needed
  else exactFatChain image geometry fat firstCluster needed limits.maxClusters

def readStreamFromFat (fat : FatIndex) (firstCluster dataLength : ℕ) (noFatChain : Bool)
    (limits : StreamReadLimits) : Streamed ExfatStream := do
  limits.validate
  validateFatIndex geometry fat
  if dataLength = 0 then do
    ensure (firstCluster = 0) (.invalidDataLength dataLength)
    pure ⟨[], [], 0, noFatChain⟩
  else do
    enforceByteLimit dataLength limits.maxBytes
    let needed := divCeil dataLength geometry.bytesPerCluster
    ensure (needed ≤ limits.maxClusters) (.clusterLimitExceeded limits.maxClusters)
    let clusters ← streamClusters image geometry fat firstCluster needed noFatChain limits
    let allocationBytes ← orErr (checkedMul needed geometry.bytesPerCluster)
      (.arithmeticOverflow "stream allocation length")
    let bytes ← readClusters image geometry clusters dataLength limits.maxBytes
    pure ⟨bytes, clusters, allocationBytes, noFatChain⟩

/-- Reads a stream of known length through the active FAT. -/
def readStream (firstCluster dataLength : ℕ) (noFatChain : Bool) (limits : StreamReadLimits) :
    Streamed ExfatStream :=
  readStreamFromFat image geometry (FatIndex.active geometry) firstCluster dataLength noFatChain limits

def readChainToEndFromFat (fat : FatIndex) (firstCluster : ℕ) (limits : StreamReadLimits) :
    Streamed ExfatStream := do
  limits.validate
  validateFatIndex geometry fat
  let clusters ← fatChainToEnd image geometry fat firstCluster limits.maxClusters
  let dataLength ← orErr (checkedMul clusters.length geometry.bytesPerCluster)
    (.arithmeticOverflow "chain byte length")
  enforceByteLimit dataLength limits.maxBytes
  let bytes ← readClusters image geometry clusters dataLength limits.maxBytes
  pure ⟨bytes, clusters, dataLength, false⟩

/-- Reads a stream whose length its chain defines, such as the root directory. -/
def readChainToEnd (firstCluster : ℕ) (limits : StreamReadLimits) : Streamed ExfatStream :=
  readChainToEndFromFat image geometry (FatIndex.active geometry) firstCluster limits

end Chains

/-! ## What a chain is -/

section Chain

variable {image : BoundedImageReader} {geometry : ExfatBootSector}

/-- The FAT links the clusters, beginning with `first`, and ends the chain at the last one. -/
def Linked (image : BoundedImageReader) (geometry : ExfatBootSector) (fat : FatIndex) :
    ℕ → List ℕ → Prop
  | _, [] => False
  | first, cluster :: rest => first = cluster ∧
      ((rest = [] ∧ readFatEntry image geometry fat cluster = .ok .endOfChain) ∨
        ∃ next, readFatEntry image geometry fat cluster = .ok (.next next) ∧
          Linked image geometry fat next rest)

theorem Linked.unique {fat : FatIndex} {first : ℕ} {chain chain' : List ℕ}
    (h : Linked image geometry fat first chain) (h' : Linked image geometry fat first chain') :
    chain = chain' := by
  induction chain generalizing first chain' with
  | nil => exact h.elim
  | cons cluster rest ih =>
    cases chain' with
    | nil => exact h'.elim
    | cons cluster' rest' =>
      obtain ⟨rfl, hr⟩ := h
      obtain ⟨rfl, hr'⟩ := h'
      rcases hr with ⟨rfl, he⟩ | ⟨next, he, hl⟩ <;> rcases hr' with ⟨rfl, he'⟩ | ⟨next', he', hl'⟩
      · rfl
      · rw [he] at he'
        cases he'
      · rw [he] at he'
        cases he'
      · rw [he, Except.ok.injEq, FatEntry.next.injEq] at he'
        subst he'
        rw [ih hl hl']

/-- The clusters of a stream: none, a run of clusters, or the chain the FAT links. -/
def StreamChain (image : BoundedImageReader) (geometry : ExfatBootSector) (fat : FatIndex)
    (first dataLength : ℕ) (noFatChain : Bool) (clusters : List ℕ) : Prop :=
  clusters.length = divCeil dataLength geometry.bytesPerCluster ∧
    (dataLength = 0 ∧ clusters = [] ∨
      0 < dataLength ∧ noFatChain = true ∧ clusters = List.range' first clusters.length ∨
      0 < dataLength ∧ noFatChain = false ∧ Linked image geometry fat first clusters)

theorem StreamChain.unique {fat : FatIndex} {first dataLength : ℕ} {noFatChain : Bool}
    {clusters clusters' : List ℕ}
    (h : StreamChain image geometry fat first dataLength noFatChain clusters)
    (h' : StreamChain image geometry fat first dataLength noFatChain clusters') :
    clusters = clusters' := by
  obtain ⟨hlen, h⟩ := h
  obtain ⟨hlen', h'⟩ := h'
  rcases h with ⟨hz, h⟩ | ⟨hz, hn, h⟩ | ⟨hz, hn, h⟩ <;>
    rcases h' with ⟨hz', h'⟩ | ⟨hz', hn', h'⟩ | ⟨hz', hn', h'⟩ <;> try omega
  · rw [h, h']
  · rw [h, h', hlen, hlen']
  · rw [hn] at hn'
    cases hn'
  · rw [hn] at hn'
    cases hn'
  · exact h.unique h'

theorem exactFatChainLoop_ok {fat : FatIndex} {needed maximum n : ℕ} {clusters : List ℕ}
    {current : ℕ} {result : List ℕ}
    (h : exactFatChainLoop image geometry fat needed maximum n clusters current = .ok result) :
    ∃ chain, result = clusters ++ chain ∧ chain.length = n ∧
      Linked image geometry fat current chain := by
  induction n generalizing clusters current with
  | zero => cases h
  | succ n ih =>
    simp only [exactFatChainLoop, bind_ok_iff] at h
    obtain ⟨_, -, entry, hentry, h⟩ := h
    cases entry with
    | free => cases h
    | bad => cases h
    | endOfChain =>
      dsimp only at h
      split at h
      · next hn =>
        simp only [pure_eq_ok, Except.ok.injEq] at h
        exact ⟨[current], h.symm, by simp [hn], rfl, Or.inl ⟨rfl, hentry⟩⟩
      · cases h
    | next next =>
      dsimp only at h
      split at h
      · cases h
      · obtain ⟨chain, rfl, hlen, hlinked⟩ := ih h
        exact ⟨current :: chain, by simp, by simp [hlen], rfl, Or.inr ⟨next, hentry, hlinked⟩⟩

theorem fatChainToEndLoop_ok {fat : FatIndex} {maximum n : ℕ} {clusters : List ℕ} {current : ℕ}
    {result : List ℕ}
    (h : fatChainToEndLoop image geometry fat maximum n clusters current = .ok result) :
    ∃ chain, result = clusters ++ chain ∧ Linked image geometry fat current chain := by
  induction n generalizing clusters current with
  | zero => cases h
  | succ n ih =>
    simp only [fatChainToEndLoop, bind_ok_iff] at h
    obtain ⟨_, -, entry, hentry, h⟩ := h
    cases entry with
    | free => cases h
    | bad => cases h
    | endOfChain =>
      simp only [pure_eq_ok, Except.ok.injEq] at h
      exact ⟨[current], h.symm, rfl, Or.inl ⟨rfl, hentry⟩⟩
    | next next =>
      obtain ⟨chain, rfl, hlinked⟩ := ih h
      exact ⟨current :: chain, by simp, rfl, Or.inr ⟨next, hentry, hlinked⟩⟩

/-! ## What a read returns -/

theorem length_readChunks {fuel offset remaining : ℕ} {bytes : Bytes}
    (h : readChunks image fuel offset remaining = .ok bytes) : bytes.length ≤ remaining := by
  induction fuel generalizing offset remaining bytes with
  | zero =>
    simp only [readChunks, pure_eq_ok, Except.ok.injEq] at h
    subst h
    exact Nat.zero_le _
  | succ fuel ih =>
    rw [readChunks] at h
    split at h
    · simp only [pure_eq_ok, Except.ok.injEq] at h
      subst h
      exact Nat.zero_le _
    · simp only [bind_ok_iff, mapError_ok_iff, orErr_ok_iff, checkedAdd_eq_some, pure_eq_ok,
        Except.ok.injEq] at h
      obtain ⟨chunk, hread, _, -, more, hmore, rfl⟩ := h
      have hchunk := image.length_eq hread
      have hle := ih hmore
      rw [List.length_append]
      omega

theorem length_readClusterBytes {clusters : List ℕ} {remaining : ℕ} {bytes : Bytes}
    (h : readClusterBytes image geometry clusters remaining = .ok bytes) :
    bytes.length ≤ remaining := by
  induction clusters generalizing remaining bytes with
  | nil =>
    simp only [readClusterBytes, pure_eq_ok, Except.ok.injEq] at h
    subst h
    exact Nat.zero_le _
  | cons cluster rest ih =>
    simp only [readClusterBytes, bind_ok_iff, mapError_ok_iff] at h
    obtain ⟨offset, -, first, hfirst, h⟩ := h
    have hle := length_readChunks hfirst
    split at h
    · simp only [pure_eq_ok, Except.ok.injEq] at h
      subst h
      omega
    · simp only [bind_ok_iff, pure_eq_ok, Except.ok.injEq] at h
      obtain ⟨more, hmore, rfl⟩ := h
      have := ih hmore
      rw [List.length_append]
      omega

theorem readStreamFromFat_ok {fat : FatIndex} {first dataLength : ℕ} {noFatChain : Bool}
    {limits : StreamReadLimits} {stream : ExfatStream}
    (h : readStreamFromFat image geometry fat first dataLength noFatChain limits = .ok stream)
    (hpos : 0 < geometry.bytesPerCluster) :
    StreamChain image geometry fat first dataLength noFatChain stream.clusters ∧
      stream.bytes.length ≤ dataLength := by
  simp only [readStreamFromFat, bind_ok_iff] at h
  obtain ⟨_, -, _, -, h⟩ := h
  split at h
  · next hzero =>
    simp only [bind_ok_iff, pure_eq_ok, Except.ok.injEq] at h
    obtain ⟨_, -, rfl⟩ := h
    refine ⟨⟨?_, Or.inl ⟨hzero, rfl⟩⟩, by simp⟩
    rw [hzero, divCeil, Nat.zero_add, Nat.div_eq_of_lt (by omega), List.length_nil]
  · next hzero =>
    simp only [bind_ok_iff, orErr_ok_iff, checkedMul_eq_some, pure_eq_ok, Except.ok.injEq,
      readClusters] at h
    obtain ⟨_, -, _, -, clusters, hclusters, _, -, bytes, ⟨_, -, hbytes⟩, rfl⟩ := h
    refine ⟨?_, length_readClusterBytes hbytes⟩
    unfold streamClusters at hclusters
    cases noFatChain with
    | true =>
      rw [if_pos rfl] at hclusters
      simp only [contiguousClusters, bind_ok_iff, pure_eq_ok, Except.ok.injEq] at hclusters
      obtain ⟨_, -, _, -, _, -, _, -, _, -, rfl⟩ := hclusters
      refine ⟨List.length_range', Or.inr (Or.inl ⟨by omega, rfl, ?_⟩)⟩
      rw [List.length_range']
    | false =>
      rw [if_neg (by simp)] at hclusters
      obtain ⟨chain, rfl, hlen, hlinked⟩ := exactFatChainLoop_ok hclusters
      exact ⟨hlen, Or.inr (Or.inr ⟨by omega, rfl, hlinked⟩)⟩

theorem readChainToEnd_ok {first : ℕ} {limits : StreamReadLimits} {stream : ExfatStream}
    (h : readChainToEnd image geometry first limits = .ok stream) :
    Linked image geometry (FatIndex.active geometry) first stream.clusters ∧
      stream.allocationBytes = stream.clusters.length * geometry.bytesPerCluster ∧
      stream.allocationBytes < wordBound ∧ stream.bytes.length ≤ stream.allocationBytes := by
  simp only [readChainToEnd, readChainToEndFromFat, bind_ok_iff, orErr_ok_iff, checkedMul_eq_some,
    pure_eq_ok, Except.ok.injEq, readClusters] at h
  obtain ⟨_, -, _, -, clusters, hclusters, _, ⟨hlt, rfl⟩, _, -, bytes, ⟨_, -, hbytes⟩, rfl⟩ := h
  obtain ⟨chain, rfl, hlinked⟩ := fatChainToEndLoop_ok hclusters
  exact ⟨hlinked, rfl, hlt, length_readClusterBytes hbytes⟩

end Chain

end Exfat

end StarConverter
