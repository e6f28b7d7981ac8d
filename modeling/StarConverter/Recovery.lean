import Mathlib.Data.FinEnum
import StarConverter.Base.Codec
import StarConverter.Hashing
import StarConverter.Overlay

/-!
# Recovery bundles

The exact before-images a transaction retains, in the versioned encoding of the capsule payload. What
the encoder accepts is decoded to the same bundle (`decodeRecoveryBundle_encode`).
-/

namespace StarConverter

open Base

namespace Recovery

def magic : Bytes := ascii "SCRECOV2"
def version : ℕ := 2
def headerBytes : ℕ := 64
def entryBytes : ℕ := 16

structure RecoveryLimits where
  maxWrites : ℕ
  maxBytes : ℕ
  deriving DecidableEq

structure RecoveryBundle where
  planDigest : Digest
  relocationDestinations : List OverlayWrite
  targetStaging : List OverlayWrite
  backupBoot : List OverlayWrite
  activation : List OverlayWrite
  deriving DecidableEq

inductive RecoveryError
  | invalidLimit (field : String)
  | truncated
  | invalidMagic
  | unsupportedVersion (actual : ℕ)
  | nonZeroReserved
  | trailingBytes (actual : ℕ)
  | writeLimitExceeded (actual maximum : ℕ)
  | byteLimitExceeded (actual maximum : ℕ)
  | emptyWrite (offset : ℕ)
  | rangeOverflow (offset length : ℕ)
  | overlappingWrites (firstOffset secondOffset : ℕ)
  | arithmeticOverflow
  deriving DecidableEq

namespace RecoveryBundle

/-- The four groups in the order of the encoding. -/
def groups (bundle : RecoveryBundle) : List (List OverlayWrite) :=
  [bundle.relocationDestinations, bundle.targetStaging, bundle.backupBoot, bundle.activation]

def writes (bundle : RecoveryBundle) : List OverlayWrite := bundle.groups.flatten

end RecoveryBundle

def validateLimits (limits : RecoveryLimits) : Except RecoveryError Unit := do
  ensure (limits.maxWrites ≠ 0) (.invalidLimit "max_writes")
  ensure (limits.maxBytes ≠ 0) (.invalidLimit "max_bytes")

def totalWriteCount (bundle : RecoveryBundle) : Except RecoveryError ℕ :=
  sumChecked .arithmeticOverflow 0 (bundle.groups.map List.length)

def totalPayloadBytes (bundle : RecoveryBundle) : Except RecoveryError ℕ :=
  sumChecked .arithmeticOverflow 0 (bundle.writes.map fun write => write.bytes.length)

/-- Start and end of every write, in order. -/
def writeRanges : List OverlayWrite → Except RecoveryError (List (ℕ × ℕ))
  | [] => pure []
  | write :: rest => do
    ensure (write.bytes ≠ []) (.emptyWrite write.offset)
    let stop ← orErr (checkedAdd write.offset write.bytes.length)
      (.rangeOverflow write.offset write.bytes.length)
    let ranges ← writeRanges rest
    pure ((write.offset, stop) :: ranges)

def validateBundle (bundle : RecoveryBundle) (limits : RecoveryLimits) :
    Except RecoveryError Unit := do
  let count ← totalWriteCount bundle
  ensure (count ≤ limits.maxWrites) (.writeLimitExceeded count limits.maxWrites)
  let bytes ← totalPayloadBytes bundle
  ensure (bytes ≤ limits.maxBytes) (.byteLimitExceeded bytes limits.maxBytes)
  let ranges ← writeRanges bundle.writes
  checkPairs (fun first second => ensure (first.2 ≤ second.1)
    (RecoveryError.overlappingWrites first.1 second.1))
    (sortByKey (fun range : ℕ × ℕ => toLex range) ranges)

def encodeWrite (write : OverlayWrite) : Bytes :=
  toLe 8 write.offset ++ toLe 8 write.bytes.length ++ write.bytes

/-- Encodes the before-images of all phases. -/
def encodeRecoveryBundle (bundle : RecoveryBundle) (limits : RecoveryLimits) :
    Except RecoveryError Bytes := do
  validateLimits limits
  validateBundle bundle limits
  let payloadBytes ← totalPayloadBytes bundle
  let entryCount ← totalWriteCount bundle
  let entries ← orErr (checkedAdd headerBytes (entryCount * entryBytes)) .arithmeticOverflow
  let _ ← orErr (checkedAdd entries payloadBytes) .arithmeticOverflow
  checkAll (fun group => ensure (group.length < 2 ^ 32) .arithmeticOverflow) bundle.groups
  pure (magic ++ toLe 2 version ++ [0, 0, 0, 0, 0, 0] ++ bundle.planDigest.1 ++
    (bundle.groups.map fun group => toLe 4 group.length).flatten ++
    (bundle.writes.map encodeWrite).flatten)

/-! ## Decoding -/

/-- One entry at `cursor`, with the position behind it and the payload bytes read so far. -/
def readEntry (bytes : Bytes) (limits : RecoveryLimits) (cursor totalBytes : ℕ) :
    Except RecoveryError (OverlayWrite × ℕ × ℕ) := do
  let headerEnd ← orErr (checkedAdd cursor entryBytes) .arithmeticOverflow
  ensure (headerEnd ≤ bytes.length) .truncated
  let offset ← orErr (readLe? 8 bytes cursor) .truncated
  let length ← orErr (readLe? 8 bytes (cursor + 8)) .truncated
  ensure (length ≠ 0) (.emptyWrite offset)
  let _ ← orErr (checkedAdd offset length) (.rangeOverflow offset length)
  let dataEnd ← orErr (checkedAdd headerEnd length) .arithmeticOverflow
  ensure (dataEnd ≤ bytes.length) .truncated
  let totalBytes ← orErr (checkedAdd totalBytes length) .arithmeticOverflow
  ensure (totalBytes ≤ limits.maxBytes) (.byteLimitExceeded totalBytes limits.maxBytes)
  pure (⟨offset, sliceAt bytes headerEnd length⟩, dataEnd, totalBytes)

/-- The four groups behind the header. -/
def decodeGroups (bytes : Bytes) (limits : RecoveryLimits) (planDigest : Digest)
    (counts : ℕ × ℕ × ℕ × ℕ) : Except RecoveryError RecoveryBundle := do
  let total ← sumChecked .arithmeticOverflow 0 [counts.1, counts.2.1, counts.2.2.1, counts.2.2.2]
  ensure (total ≤ limits.maxWrites) (.writeLimitExceeded total limits.maxWrites)
  let read := readEntry bytes limits
  let (relocationDestinations, cursor, totalBytes) ← readEntries read counts.1 headerBytes 0
  let (targetStaging, cursor, totalBytes) ← readEntries read counts.2.1 cursor totalBytes
  let (backupBoot, cursor, totalBytes) ← readEntries read counts.2.2.1 cursor totalBytes
  let (activation, cursor, _) ← readEntries read counts.2.2.2 cursor totalBytes
  ensure (cursor = bytes.length) (.trailingBytes (bytes.length - cursor))
  let bundle : RecoveryBundle :=
    ⟨planDigest, relocationDestinations, targetStaging, backupBoot, activation⟩
  validateBundle bundle limits
  pure bundle

/-- Decodes and validates the before-images of all phases. -/
def decodeRecoveryBundle (bytes : Bytes) (limits : RecoveryLimits) :
    Except RecoveryError RecoveryBundle := do
  validateLimits limits
  if h : headerBytes ≤ bytes.length then do
    ensure (sliceAt bytes 0 8 = magic) .invalidMagic
    let version ← orErr (readLe? 2 bytes 8) .truncated
    ensure (version = Recovery.version) (.unsupportedVersion version)
    ensure (∀ b ∈ sliceAt bytes 10 6, b = 0) .nonZeroReserved
    let planDigest : Digest := ⟨sliceAt bytes 16 32, length_sliceAt_of_le (by
      unfold headerBytes at h; omega)⟩
    let relocationDestinations ← orErr (readLe? 4 bytes 48) .truncated
    let targetStaging ← orErr (readLe? 4 bytes 52) .truncated
    let backupBoot ← orErr (readLe? 4 bytes 56) .truncated
    let activation ← orErr (readLe? 4 bytes 60) .truncated
    decodeGroups bytes limits planDigest
      (relocationDestinations, targetStaging, backupBoot, activation)
  else .error .truncated

/-! ## Round trip -/

section RoundTrip

variable {bundle : RecoveryBundle} {bytes : Bytes} {limits limits' : RecoveryLimits}

theorem writeRanges_ok {writes : List OverlayWrite} {ranges : List (ℕ × ℕ)}
    (h : writeRanges writes = .ok ranges) :
    ∀ w ∈ writes, w.bytes ≠ [] ∧ w.offset + w.bytes.length < wordBound := by
  induction writes generalizing ranges with
  | nil => simp
  | cons w rest ih =>
    simp only [writeRanges, bind_ok_iff, exists_const, ensure_ok_iff, orErr_ok_iff,
      checkedAdd_eq_some] at h
    obtain ⟨hne, _, ⟨hlt, -⟩, more, hmore, -⟩ := h
    exact List.forall_mem_cons.2 ⟨⟨hne, hlt⟩, ih hmore⟩

@[simp] theorem length_encodeWrite (write : OverlayWrite) :
    (encodeWrite write).length = 16 + write.bytes.length := by
  simp only [encodeWrite, List.length_append, length_toLe]

/-- Reading one entry returns the write that was encoded. -/
theorem readEntry_encodeWrite {write : OverlayWrite} {before after : Bytes} {total : ℕ}
    (hbytes : bytes = before ++ encodeWrite write ++ after) (hlen : bytes.length < wordBound)
    (hne : write.bytes ≠ []) (hstop : write.offset + write.bytes.length < wordBound)
    (hmax : limits.maxBytes < wordBound) (htotal : total + write.bytes.length ≤ limits.maxBytes) :
    readEntry bytes limits before.length total =
      .ok (write, before.length + (encodeWrite write).length, total + write.bytes.length) := by
  have hw : wordBound = 256 ^ 8 := by norm_num [wordBound]
  have hpos : write.bytes.length ≠ 0 := by simpa using hne
  have hlength : bytes.length = before.length + (16 + write.bytes.length) + after.length := by
    rw [hbytes, List.length_append, List.length_append, length_encodeWrite]
  have hfield : ∀ {i off : ℕ} {s : Bytes},
      [toLe 8 write.offset, toLe 8 write.bytes.length, write.bytes][i]? = some s →
      before.length + (([8, 8, write.bytes.length] : List ℕ).take i).sum = off →
      FieldAt bytes off s := by
    intro i off s hs hoff
    refine fieldAt_table (a := before) (b := after) ?_ (by simp) hs hoff
    rw [hbytes]
    simp [encodeWrite]
  have hoffset : readLe? 8 bytes before.length = some write.offset :=
    (hfield (i := 0) rfl rfl).readLe? (by omega)
  have hlen8 : readLe? 8 bytes (before.length + 8) = some write.bytes.length :=
    (hfield (i := 1) rfl rfl).readLe? (by omega)
  have hdata : sliceAt bytes (before.length + 16) write.bytes.length = write.bytes :=
    (hfield (i := 2) rfl rfl).slice rfl
  simp only [readEntry, bind_ok_iff, exists_const, ensure_ok_iff, orErr_ok_iff, checkedAdd_eq_some,
    pure_eq_ok, Except.ok.injEq, entryBytes]
  refine ⟨_, ⟨by omega, rfl⟩, by omega, _, hoffset, _, hlen8, hpos, _, ⟨hstop, rfl⟩, _,
    ⟨by omega, rfl⟩, by omega, _, ⟨by omega, rfl⟩, htotal, ?_⟩
  rw [hdata, length_encodeWrite]
  simp only [Prod.mk.injEq, and_true, true_and]
  omega

theorem validateBundle_ok {u : Unit} (h : validateBundle bundle limits = .ok u) :
    (bundle.groups.map List.length).sum ≤ limits.maxWrites ∧
      (bundle.groups.map List.length).sum < wordBound ∧
      (bundle.writes.map fun w => w.bytes.length).sum ≤ limits.maxBytes ∧
      ∀ w ∈ bundle.writes, w.bytes ≠ [] ∧ w.offset + w.bytes.length < wordBound := by
  simp only [validateBundle, totalWriteCount, totalPayloadBytes, bind_ok_iff, exists_const,
    ensure_ok_iff, sumChecked_ok_iff wordBound_pos, Nat.zero_add] at h
  obtain ⟨_, ⟨hc, rfl⟩, hcount, _, ⟨-, rfl⟩, hbytes, ranges, hranges, -⟩ := h
  exact ⟨hcount, hc, hbytes, writeRanges_ok hranges⟩

/-- The fields of the header of a bundle. -/
def headerFields (bundle : RecoveryBundle) : List Bytes :=
  [magic, toLe 2 version, [0, 0, 0, 0, 0, 0], bundle.planDigest.1,
    toLe 4 bundle.relocationDestinations.length, toLe 4 bundle.targetStaging.length,
    toLe 4 bundle.backupBoot.length, toLe 4 bundle.activation.length]

theorem headerFields_lengths (bundle : RecoveryBundle) :
    (headerFields bundle).map List.length = [8, 2, 6, 32, 4, 4, 4, 4] := by
  simp [headerFields, magic, ascii]

theorem length_headerFields (bundle : RecoveryBundle) :
    (headerFields bundle).flatten.length = headerBytes := by
  rw [List.length_flatten, headerFields_lengths]
  rfl

theorem length_encodedWrites (bundle : RecoveryBundle) :
    (bundle.writes.map encodeWrite).flatten.length =
      (bundle.groups.map List.length).sum * entryBytes +
        (bundle.writes.map fun w => w.bytes.length).sum := by
  rw [RecoveryBundle.writes, ← List.length_flatten]
  generalize bundle.groups.flatten = writes
  induction writes with
  | nil => rfl
  | cons w rest ih =>
    rw [List.map_cons, List.flatten_cons, List.length_append, ih, List.map_cons, List.sum_cons,
      List.length_cons, length_encodeWrite]
    unfold entryBytes
    omega

/-- What an accepted bundle is encoded to. -/
theorem encodeRecoveryBundle_ok (h : encodeRecoveryBundle bundle limits = .ok bytes) :
    bytes = (headerFields bundle).flatten ++ (bundle.writes.map encodeWrite).flatten ∧
      bytes.length < wordBound ∧ ∀ group ∈ bundle.groups, group.length < 2 ^ 32 := by
  simp only [encodeRecoveryBundle, totalPayloadBytes, totalWriteCount, bind_ok_iff, exists_const,
    orErr_ok_iff, checkedAdd_eq_some, checkAll_ok_iff, ensure_ok_iff, pure_eq_ok, Except.ok.injEq,
    sumChecked_ok_iff wordBound_pos, Nat.zero_add] at h
  obtain ⟨_, -, _, -, _, ⟨-, rfl⟩, _, ⟨-, rfl⟩, _, ⟨-, rfl⟩, _, ⟨hlt, rfl⟩, hgroups, rfl⟩ := h
  have heq : magic ++ toLe 2 version ++ [0, 0, 0, 0, 0, 0] ++ bundle.planDigest.1 ++
      (bundle.groups.map fun group => toLe 4 group.length).flatten =
        (headerFields bundle).flatten := by
    simp [headerFields, RecoveryBundle.groups]
  rw [heq]
  refine ⟨rfl, ?_, hgroups⟩
  rw [List.length_append, length_headerFields, length_encodedWrites]
  omega

/-- The four groups are read back one after the other. -/
theorem decodeGroups_ok (hlen : bytes.length < wordBound) (hmax : limits.maxBytes < wordBound)
    (hb : validateBundle bundle limits = .ok ()) {header : Bytes}
    (hheader : header.length = headerBytes)
    (hbytes : bytes = header ++ (bundle.writes.map encodeWrite).flatten) :
    decodeGroups bytes limits bundle.planDigest
      (bundle.relocationDestinations.length, bundle.targetStaging.length, bundle.backupBoot.length,
        bundle.activation.length) = .ok bundle := by
  obtain ⟨hcount, hword, htotal, hvalid⟩ := validateBundle_ok hb
  let size : List OverlayWrite → ℕ := fun group => (group.map fun w => w.bytes.length).sum
  let text : List OverlayWrite → Bytes := fun group => (group.map encodeWrite).flatten
  have hwrites : bundle.writes = bundle.relocationDestinations ++ bundle.targetStaging ++
      bundle.backupBoot ++ bundle.activation := by
    simp [RecoveryBundle.writes, RecoveryBundle.groups]
  have hsize : size bundle.relocationDestinations + size bundle.targetStaging +
      size bundle.backupBoot + size bundle.activation ≤ limits.maxBytes := by
    rw [hwrites] at htotal
    simp only [List.map_append, List.sum_append] at htotal
    exact htotal
  have hsplit : bytes = header ++ text bundle.relocationDestinations ++ text bundle.targetStaging ++
      text bundle.backupBoot ++ text bundle.activation := by
    rw [hbytes, hwrites]
    simp [text]
  have hgroup : ∀ group ∈ bundle.groups, ∀ before after total, bytes = before ++ text group ++ after →
      total + size group ≤ limits.maxBytes →
        readEntries (readEntry bytes limits) group.length before.length total =
          .ok (group, (before ++ text group).length, total + size group) := by
    intro group hg before after total hb ht
    rw [List.length_append]
    refine readEntries_ok _ encodeWrite _ limits.maxBytes (fun w hw before after total hb ht => ?_) _ _
      _ hb ht
    have hmem : w ∈ bundle.writes := List.mem_flatten.2 ⟨group, hg, hw⟩
    exact readEntry_encodeWrite hb hlen (hvalid w hmem).1 (hvalid w hmem).2 hmax ht
  have h1 := hgroup bundle.relocationDestinations (by simp [RecoveryBundle.groups]) header
    (text bundle.targetStaging ++ text bundle.backupBoot ++ text bundle.activation) 0
    (by rw [hsplit]; simp only [List.append_assoc]) (by omega)
  have h2 := hgroup bundle.targetStaging (by simp [RecoveryBundle.groups])
    (header ++ text bundle.relocationDestinations) (text bundle.backupBoot ++ text bundle.activation)
    (0 + size bundle.relocationDestinations)
    (by rw [hsplit]; simp only [List.append_assoc]) (by omega)
  have h3 := hgroup bundle.backupBoot (by simp [RecoveryBundle.groups])
    (header ++ text bundle.relocationDestinations ++ text bundle.targetStaging)
    (text bundle.activation) (0 + size bundle.relocationDestinations + size bundle.targetStaging)
    hsplit (by omega)
  have h4 := hgroup bundle.activation (by simp [RecoveryBundle.groups])
    (header ++ text bundle.relocationDestinations ++ text bundle.targetStaging ++
      text bundle.backupBoot) []
    (0 + size bundle.relocationDestinations + size bundle.targetStaging + size bundle.backupBoot)
    (by rw [hsplit]; simp only [List.append_assoc, List.append_nil]) (by omega)
  rw [hheader] at h1
  have hsum : [bundle.relocationDestinations.length, bundle.targetStaging.length,
      bundle.backupBoot.length, bundle.activation.length].sum =
        (bundle.groups.map List.length).sum := rfl
  simp only [decodeGroups, bind_ok_iff, exists_const, ensure_ok_iff, pure_eq_ok, Except.ok.injEq,
    sumChecked_ok_iff wordBound_pos, Nat.zero_add, hsum]
  refine ⟨_, ⟨hword, rfl⟩, hcount, _, h1, _, h2, _, h3, _, h4, ?_, _, hb, rfl⟩
  dsimp only
  rw [hsplit]

/-- **Recovery round trip.** -/
theorem decodeRecoveryBundle_encode (h : encodeRecoveryBundle bundle limits = .ok bytes)
    (hmax : limits'.maxBytes < wordBound) (hl : validateLimits limits' = .ok ())
    (hb : validateBundle bundle limits' = .ok ()) :
    decodeRecoveryBundle bytes limits' = .ok bundle := by
  obtain ⟨rfl, hlen, hgroups⟩ := encodeRecoveryBundle_ok h
  set bytes := (headerFields bundle).flatten ++ (bundle.writes.map encodeWrite).flatten with hbytes
  have hlength : headerBytes ≤ bytes.length := by
    rw [hbytes, List.length_append, length_headerFields]
    omega
  have hfield : ∀ {i k : ℕ} {s : Bytes}, (headerFields bundle)[i]? = some s →
      (([8, 2, 6, 32, 4, 4, 4, 4] : List ℕ).take i).sum = k → FieldAt bytes k s := by
    intro i k s hs hoff
    refine fieldAt_table (a := []) (b := (bundle.writes.map encodeWrite).flatten) hbytes
      (headerFields_lengths bundle) hs ?_
    rw [List.length_nil, Nat.zero_add, hoff]
  have hwords : ∀ {i off : ℕ} {group : List OverlayWrite}, group ∈ bundle.groups →
      (headerFields bundle)[i]? = some (toLe 4 group.length) →
      (([8, 2, 6, 32, 4, 4, 4, 4] : List ℕ).take i).sum = off →
      readLe? 4 bytes off = some group.length :=
    fun hg hs hoff => (hfield hs hoff).readLe? (hgroups _ hg)
  have hversion : readLe? 2 bytes 8 = some version := (hfield (i := 1) rfl rfl).readLe? (by decide)
  have hmagic : sliceAt bytes 0 8 = magic := (hfield (i := 0) rfl rfl).slice rfl
  have hdigest : sliceAt bytes 16 32 = bundle.planDigest.1 :=
    (hfield (i := 3) rfl rfl).slice bundle.planDigest.2
  have hzero : ∀ b ∈ sliceAt bytes 10 6, b = 0 := by
    rw [(hfield (i := 2) (k := 10) rfl rfl).slice (n := 6) rfl]
    simp
  have hgroupsOk : decodeGroups bytes limits' bundle.planDigest
      (bundle.relocationDestinations.length, bundle.targetStaging.length, bundle.backupBoot.length,
        bundle.activation.length) = .ok bundle := decodeGroups_ok hlen hmax hb (length_headerFields bundle) hbytes
  rw [decodeRecoveryBundle, hl, ok_bind, dif_pos hlength]
  simp only [bind_ok_iff, exists_const, ensure_ok_iff, orErr_ok_iff]
  refine ⟨hmagic, _, hversion, rfl, hzero, _,
    hwords (i := 4) (by simp [RecoveryBundle.groups]) rfl rfl, _,
    hwords (i := 5) (by simp [RecoveryBundle.groups]) rfl rfl, _,
    hwords (i := 6) (by simp [RecoveryBundle.groups]) rfl rfl, _,
    hwords (i := 7) (by simp [RecoveryBundle.groups]) rfl rfl, ?_⟩
  simp only [hdigest]
  exact hgroupsOk

end RoundTrip

end Recovery

end StarConverter
