import StarConverter.Ntfs.Lznt1
import StarConverter.Phase

/-!
# Previews before an export

The exporter compares the forward writes of a preview with their before-images position by position,
and reads every before-image again in one piece. A capture lists its before-images by offset and reads
them in chunks, so the two agree exactly when the staging writes are listed by offset and no write is
longer than one read of the image (`previews_accepted_iff`).
-/

namespace StarConverter

open Base Geometry Preimage Phase Conversion

namespace Export

/-- The limits the exporter puts on a preview. -/
structure CandidateExportLimits where
  maxWrites : ℕ
  maxReplacementBytes : ℕ
  deriving DecidableEq

inductive CandidateExportError
  | writeLimitExceeded (actual maximum : ℕ)
  | replacementLimitExceeded (actual maximum : ℕ)
  | previewShape (reason : String)
  | previewDoesNotMatchSource (offset : ℕ)
  | relocationShape (reason : String)
  | arithmeticOverflow (operation : String)
  | ntfsCompression (error : Lznt1.Lznt1Error)
  | image (error : ImageError)
  deriving DecidableEq

def validateBeforeImage (source : BoundedImageReader) (forward : ReservedWrite)
    (rollback : OverlayWrite) : Except CandidateExportError Unit := do
  ensure (forward.write.offset = rollback.offset ∧
      forward.write.bytes.length = rollback.bytes.length)
    (.previewShape "a forward write and rollback before-image disagree on range")
  let actual ← (source.readExactAt rollback.offset rollback.bytes.length).mapError .image
  ensure (actual = rollback.bytes) (.previewDoesNotMatchSource rollback.offset)

/-- The pairs of a phase, counted with their bytes. -/
def validatePairs (source : BoundedImageReader) :
    ℕ → ℕ → List (ReservedWrite × OverlayWrite) → Except CandidateExportError (ℕ × ℕ)
  | count, bytes, [] => pure (count, bytes)
  | count, bytes, (write, before) :: rest => do
    validateBeforeImage source write before
    let count ← orErr (checkedAdd count 1) (.arithmeticOverflow "write count")
    let bytes ← orErr (checkedAdd bytes write.write.bytes.length)
      (.arithmeticOverflow "replacement byte total")
    validatePairs source count bytes rest

def validateGroup (source : BoundedImageReader) (sofar : ℕ × ℕ) (forward : List ReservedWrite)
    (rollback : List OverlayWrite) : Except CandidateExportError (ℕ × ℕ) := do
  ensure (forward ≠ [] ∧ forward.length = rollback.length)
    (.previewShape "each phase must have matching nonempty forward and rollback sets")
  validatePairs source sofar.1 sofar.2 (forward.zip rollback)

/-- The number of writes of a preview and of the bytes they replace. -/
def validatePreview (source : BoundedImageReader) (writes : OpaqueWriteSets)
    (limits : CandidateExportLimits) : Except CandidateExportError (ℕ × ℕ) := do
  let staged ← validateGroup source (0, 0) writes.targetStaging writes.targetStagingRollback
  let backed ← validateGroup source staged writes.backupBoot writes.backupBootRollback
  let total ← validateGroup source backed writes.activation writes.activationRollback
  ensure (total.1 ≤ limits.maxWrites) (.writeLimitExceeded total.1 limits.maxWrites)
  ensure (total.2 ≤ limits.maxReplacementBytes)
    (.replacementLimitExceeded total.2 limits.maxReplacementBytes)
  pure total

/-! ## When a group is accepted -/

section File

variable {image : Bytes} {maxReadBytes : ℕ} {hpos : 0 < maxReadBytes}

/-- A captured before-image is accepted for a write of the same range, when one read returns it. -/
theorem validateBeforeImage_ok_iff {forward : ReservedWrite} {write : OverlayWrite} {u : Unit}
    (hw : InImage image write) :
    validateBeforeImage (imageFile image maxReadBytes hpos) forward (beforeImage image write) = .ok u ↔
      forward.write.offset = write.offset ∧ forward.write.bytes.length = write.bytes.length ∧
        write.bytes.length ≤ maxReadBytes := by
  have hread : (imageFile image maxReadBytes hpos).readExactAt = imageFileRead image maxReadBytes := rfl
  have hoffset : (beforeImage image write).offset = write.offset := rfl
  have hlt : write.offset + write.bytes.length < wordBound := hw.stop_lt
  have hle : write.offset + write.bytes.length ≤ image.length := hw.stop_le
  simp only [validateBeforeImage, bind_ok_iff, exists_const, ensure_ok_iff, hread, mapError_ok_iff,
    imageFileRead_ok_iff, length_beforeImage hw, hoffset]
  constructor
  · rintro ⟨⟨ho, hl⟩, _, ⟨-, hmax, -, rfl⟩, -⟩
    exact ⟨ho, hl, hmax⟩
  · rintro ⟨ho, hl, hmax⟩
    exact ⟨⟨ho, hl⟩, _, ⟨hlt, hmax, hle, rfl⟩, rfl⟩

/-- The bytes of the forward writes of some pairs. -/
def pairBytes (pairs : List (ReservedWrite × OverlayWrite)) : ℕ :=
  (pairs.map fun pair => pair.1.write.bytes.length).sum

theorem validatePairs_ok_iff {source : BoundedImageReader} {count bytes : ℕ}
    {pairs : List (ReservedWrite × OverlayWrite)} {total : ℕ × ℕ} (hc : count < wordBound)
    (hb : bytes < wordBound) :
    validatePairs source count bytes pairs = .ok total ↔
      (∀ pair ∈ pairs, validateBeforeImage source pair.1 pair.2 = .ok ()) ∧
        count + pairs.length < wordBound ∧ bytes + pairBytes pairs < wordBound ∧
          total = (count + pairs.length, bytes + pairBytes pairs) := by
  induction pairs generalizing count bytes with
  | nil => simp [validatePairs, pairBytes, hc, hb, eq_comm]
  | cons pair rest ih =>
    obtain ⟨write, before⟩ := pair
    have hcons : pairBytes ((write, before) :: rest) = write.write.bytes.length + pairBytes rest := rfl
    simp only [validatePairs, bind_ok_iff, orErr_ok_iff, checkedAdd_eq_some,
      List.forall_mem_cons, hcons, List.length_cons]
    constructor
    · rintro ⟨_, hw, _, ⟨hlt, rfl⟩, _, ⟨hlt', rfl⟩, h⟩
      obtain ⟨hall, hlen, hsum, rfl⟩ := (ih hlt hlt').1 h
      exact ⟨⟨hw, hall⟩, by omega, by omega, Prod.ext (by dsimp only; omega) (by dsimp only; omega)⟩
    · rintro ⟨⟨hw, hall⟩, hlen, hsum, rfl⟩
      exact ⟨(), hw, _, ⟨by omega, rfl⟩, _, ⟨by omega, rfl⟩, (ih (by omega) (by omega)).2
        ⟨hall, by omega, by omega, Prod.ext (by dsimp only; omega) (by dsimp only; omega)⟩⟩

/-- Writes that match their own sorted list position by position are sorted. -/
theorem pairwise_of_forall₂_sortByKey {writes : List OverlayWrite}
    (h : List.Forall₂ (fun a b : OverlayWrite => a.offset = b.offset) writes
      (sortByKey Patch.offset writes)) :
    writes.Pairwise fun a b => a.offset ≤ b.offset := by
  have hmap : writes.map Patch.offset = (sortByKey Patch.offset writes).map Patch.offset := by
    refine List.forall₂_eq_eq_eq ▸ ?_
    rw [List.forall₂_map_left_iff, List.forall₂_map_right_iff]
    exact h
  have hsorted : ((sortByKey Patch.offset writes).map Patch.offset).Pairwise (· ≤ ·) :=
    List.pairwise_map.2 (sortByKey_sorted Patch.offset writes)
  rw [← hmap] at hsorted
  exact List.pairwise_map.1 hsorted

/-- A phase and its capture: the writes have to be listed by offset, none longer than one read. -/
theorem validateGroup_ok_iff {sofar total : ℕ × ℕ} {forward : List ReservedWrite}
    {writes : List OverlayWrite} (hforward : forward.map ReservedWrite.write = writes)
    (hin : ∀ w ∈ writes, InImage image w) (hne : writes ≠ []) (hc : sofar.1 < wordBound)
    (hb : sofar.2 < wordBound) :
    validateGroup (imageFile image maxReadBytes hpos) sofar forward
        ((sortByKey Patch.offset writes).map (beforeImage image)) = .ok total ↔
      ((writes.Pairwise fun a b => a.offset ≤ b.offset) ∧
          ∀ w ∈ writes, w.bytes.length ≤ maxReadBytes) ∧
        sofar.1 + writes.length < wordBound ∧
          sofar.2 + OverlayPlan.byteCount writes < wordBound ∧
            total = (sofar.1 + writes.length, sofar.2 + OverlayPlan.byteCount writes) := by
  subst hforward
  set rollback := (sortByKey Patch.offset (forward.map ReservedWrite.write)).map (beforeImage image)
    with hrollback
  have hlen : forward.length = rollback.length := by simp [hrollback]
  have hzip : (forward.zip rollback).length = forward.length := by simp [List.length_zip, hlen]
  have hbytes : pairBytes (forward.zip rollback) =
      OverlayPlan.byteCount (forward.map ReservedWrite.write) := by
    unfold pairBytes OverlayPlan.byteCount
    rw [List.map_map]
    have hfst : forward = (forward.zip rollback).map Prod.fst := (List.map_fst_zip hlen.le).symm
    conv_rhs => rw [hfst]
    rw [List.map_map]
    rfl
  have hpairs : (∀ pair ∈ forward.zip rollback,
      validateBeforeImage (imageFile image maxReadBytes hpos) pair.1 pair.2 = .ok ()) ↔
      List.Forall₂ (fun w v : OverlayWrite => w.offset = v.offset ∧
          w.bytes.length = v.bytes.length ∧ v.bytes.length ≤ maxReadBytes)
        (forward.map ReservedWrite.write)
        (sortByKey Patch.offset (forward.map ReservedWrite.write)) := by
    have hswap : List.Forall₂ (fun (forward : ReservedWrite) (before : OverlayWrite) =>
          validateBeforeImage (imageFile image maxReadBytes hpos) forward before = .ok ())
        forward rollback ↔ ∀ pair ∈ forward.zip rollback,
          validateBeforeImage (imageFile image maxReadBytes hpos) pair.1 pair.2 = .ok () := by
      rw [List.forall₂_iff_zip]
      exact ⟨fun h pair hp => h.2 hp, fun h => ⟨hlen, fun hp => h _ hp⟩⟩
    rw [← hswap, hrollback, List.forall₂_map_right_iff, List.forall₂_map_left_iff]
    rw [List.forall₂_iff_zip, List.forall₂_iff_zip]
    refine and_congr_right fun _ => forall_congr' fun f => forall_congr' fun v => ?_
    refine forall_congr' fun hmem => ?_
    exact validateBeforeImage_ok_iff
      (hin v (mem_sortByKey.1 (List.of_mem_zip hmem).2))
  have hsorted : List.Forall₂ (fun w v : OverlayWrite => w.offset = v.offset ∧
          w.bytes.length = v.bytes.length ∧ v.bytes.length ≤ maxReadBytes)
        (forward.map ReservedWrite.write)
        (sortByKey Patch.offset (forward.map ReservedWrite.write)) ↔
      ((forward.map ReservedWrite.write).Pairwise fun a b => a.offset ≤ b.offset) ∧
        ∀ w ∈ forward.map ReservedWrite.write, w.bytes.length ≤ maxReadBytes := by
    constructor
    · intro h
      have hpw := pairwise_of_forall₂_sortByKey (h.imp fun _ _ h => h.1)
      rw [sortByKey_eq_self hpw, List.forall₂_same] at h
      exact ⟨hpw, fun w hw => (h w hw).2.2⟩
    · rintro ⟨hpw, hmax⟩
      rw [sortByKey_eq_self hpw, List.forall₂_same]
      exact fun w hw => ⟨rfl, rfl, hmax w hw⟩
  have hne' : forward ≠ [] := fun h => hne (by rw [h]; rfl)
  have hensure : (forward ≠ [] ∧ forward.length = rollback.length) := ⟨hne', hlen⟩
  rw [validateGroup, ensure_of hensure, ok_bind, validatePairs_ok_iff hc hb, hpairs, hsorted, hzip,
    hbytes, List.length_map]

/-- The staging writes of prepared sets are listed by offset, and every write fits one read. -/
def Comparable (maxReadBytes : ℕ) (staging : List OverlayWrite)
    (backupBoot activation : OverlayWrite) : Prop :=
  (staging.Pairwise fun a b => a.offset ≤ b.offset) ∧
    ∀ w ∈ staging ++ [backupBoot, activation], w.bytes.length ≤ maxReadBytes

theorem length_le_byteCount {writes : List OverlayWrite} (h : ∀ w ∈ writes, w.bytes ≠ []) :
    writes.length ≤ OverlayPlan.byteCount writes := by
  induction writes with
  | nil => simp
  | cons w rest ih =>
    have hw := List.length_pos_iff.2 (h w (by simp))
    have := ih fun v hv => h v (by simp [hv])
    have hcons : OverlayPlan.byteCount (w :: rest) =
        w.bytes.length + OverlayPlan.byteCount rest := rfl
    rw [List.length_cons]
    omega

/-- Prepared sets pass the exporter's comparison exactly when they are comparable. -/
theorem validatePreview_captured_iff {limits : PreimageLimits} {exportLimits : CandidateExportLimits}
    {staging : List OverlayWrite} {backupBoot activation : OverlayWrite} {writes : OpaqueWriteSets}
    (h : Captured image limits staging backupBoot activation writes)
    (hcount : (finalWrites writes).length ≤ exportLimits.maxWrites)
    (hbytes : OverlayPlan.byteCount (finalWrites writes) ≤ exportLimits.maxReplacementBytes) :
    validatePreview (imageFile image maxReadBytes hpos) writes exportLimits =
        .ok ((finalWrites writes).length, OverlayPlan.byteCount (finalWrites writes)) ↔
      Comparable maxReadBytes staging backupBoot activation := by
  have hforward : finalWrites writes = staging ++ [backupBoot, activation] := by
    rw [finalWrites, forwardWrites, List.map_append, List.map_append, h.targetStaging_eq, h.backupBoot_eq,
      h.activation_eq, List.append_assoc]
    rfl
  rw [hforward] at hcount hbytes ⊢
  have hlen : (staging ++ [backupBoot, activation]).length = staging.length + 1 + 1 := by simp
  have hsum : OverlayPlan.byteCount (staging ++ [backupBoot, activation]) =
      OverlayPlan.byteCount staging + backupBoot.bytes.length + activation.bytes.length := by
    simp [OverlayPlan.byteCount, Nat.add_assoc]
  have hlt := h.total_lt
  have hstaging := h.staging_capturable.inImage
  have hbackup := h.backupBoot_capturable.inImage
  have hactive := h.activation_capturable.inImage
  have hle : (staging ++ [backupBoot, activation]).length ≤
      OverlayPlan.byteCount (staging ++ [backupBoot, activation]) := by
    refine length_le_byteCount fun w hw => ?_
    rcases List.mem_append.1 hw with hw | hw
    · exact (hstaging w hw).nonempty
    · rcases List.mem_cons.1 hw with rfl | hw
      · exact (hbackup w (by simp)).nonempty
      · exact (hactive w (by simpa using hw)).nonempty
  rw [hlen] at hle hcount
  rw [hsum] at hle hbytes hlt
  rw [hlen, hsum]
  have hone : ∀ w : OverlayWrite, OverlayPlan.byteCount [w] = w.bytes.length := by
    simp [OverlayPlan.byteCount]
  have hbackupEq : writes.backupBootRollback =
      (sortByKey Patch.offset [backupBoot]).map (beforeImage image) := h.backupBootRollback_eq
  have hactiveEq : writes.activationRollback =
      (sortByKey Patch.offset [activation]).map (beforeImage image) := h.activationRollback_eq
  rw [validatePreview, h.targetStagingRollback_eq, hbackupEq, hactiveEq]
  simp only [bind_ok_iff, exists_const, ensure_ok_iff, pure_eq_ok, Except.ok.injEq]
  constructor
  · rintro ⟨staged, hs, backed, hb, total, ha, -, -, rfl⟩
    obtain ⟨⟨hpw, hmax⟩, -, -, rfl⟩ := (validateGroup_ok_iff h.targetStaging_eq hstaging h.staging_ne
      wordBound_pos wordBound_pos).1 hs
    obtain ⟨⟨-, hbmax⟩, -, -, rfl⟩ := (validateGroup_ok_iff h.backupBoot_eq hbackup (by simp)
      (by dsimp only; omega) (by dsimp only; omega)).1 hb
    obtain ⟨⟨-, hamax⟩, -, -, -⟩ := (validateGroup_ok_iff h.activation_eq hactive (by simp)
      (by simp only [List.length_singleton]; omega)
      (by simp only [hone]; omega)).1 ha
    refine ⟨hpw, fun w hw => ?_⟩
    rcases List.mem_append.1 hw with hw | hw
    · exact hmax w hw
    · rcases List.mem_cons.1 hw with rfl | hw
      · exact hbmax w (by simp)
      · exact hamax w hw
  · rintro ⟨hpw, hmax⟩
    refine ⟨(0 + staging.length, 0 + OverlayPlan.byteCount staging), ?_,
      (0 + staging.length + 1, 0 + OverlayPlan.byteCount staging + backupBoot.bytes.length), ?_,
      (0 + staging.length + 1 + 1, 0 + OverlayPlan.byteCount staging + backupBoot.bytes.length +
        activation.bytes.length), ?_, by dsimp only; omega, by dsimp only; omega, by
          rw [Nat.zero_add, Nat.zero_add]⟩
    · refine (validateGroup_ok_iff h.targetStaging_eq hstaging h.staging_ne wordBound_pos
        wordBound_pos).2 ⟨⟨hpw, fun w hw => hmax w (by simp [hw])⟩, by dsimp only; omega,
          by dsimp only; omega, rfl⟩
    · refine (validateGroup_ok_iff h.backupBoot_eq hbackup (by simp) (by dsimp only; omega)
        (by dsimp only; omega)).2 ⟨⟨by simp, fun w hw => hmax w ?_⟩,
          by simp only [List.length_singleton]; omega, by simp only [hone]; omega,
          by simp only [hone, List.length_singleton]⟩
      rw [List.mem_singleton.1 hw]
      simp
    · refine (validateGroup_ok_iff h.activation_eq hactive (by simp) (by dsimp only; omega)
        (by dsimp only; omega)).2 ⟨⟨by simp, fun w hw => hmax w ?_⟩,
          by simp only [List.length_singleton]; omega, by simp only [hone]; omega,
          by simp only [hone, List.length_singleton]⟩
      rw [List.mem_singleton.1 hw]
      simp

end File

/-- **When the exporter accepts a captured preview.** With room for its writes and bytes, the preview
of an exFAT plan is accepted exactly when every write fits one read of the image; an NTFS plan also has
to list its staging writes by offset. -/
theorem previews_accepted_iff (image : Bytes) (maxReadBytes : ℕ) (hpos : 0 < maxReadBytes)
    (limits : PreimageLimits) (exportLimits : CandidateExportLimits) :
    (∀ (plan : ExfatSerializationPlan) (preview : PhaseWritePreview),
      previewExfatPhaseWrites (imageFile image maxReadBytes hpos) plan limits = .ok preview →
      (finalWrites preview.writes).length ≤ exportLimits.maxWrites →
      OverlayPlan.byteCount (finalWrites preview.writes) ≤ exportLimits.maxReplacementBytes →
      (validatePreview (imageFile image maxReadBytes hpos) preview.writes exportLimits =
          .ok ((finalWrites preview.writes).length,
            OverlayPlan.byteCount (finalWrites preview.writes)) ↔
        ∀ w ∈ plan.overlay.writes, w.bytes.length ≤ maxReadBytes)) ∧
    (∀ (plan : NtfsDestinationPlan) (preview : PhaseWritePreview),
      previewNtfsPhaseWrites (imageFile image maxReadBytes hpos) plan limits = .ok preview →
      (finalWrites preview.writes).length ≤ exportLimits.maxWrites →
      OverlayPlan.byteCount (finalWrites preview.writes) ≤ exportLimits.maxReplacementBytes →
      (validatePreview (imageFile image maxReadBytes hpos) preview.writes exportLimits =
          .ok ((finalWrites preview.writes).length,
            OverlayPlan.byteCount (finalWrites preview.writes)) ↔
        (plan.stagingWrites.Pairwise fun a b => a.offset ≤ b.offset) ∧
          ∀ w ∈ plan.stagingWrites ++ [plan.backupBootWrite, plan.primaryBootWrite],
            w.bytes.length ≤ maxReadBytes)) := by
  constructor
  · intro plan preview h hcount hbytes
    simp only [previewExfatPhaseWrites, bind_ok_iff, pure_eq_ok, Except.ok.injEq] at h
    obtain ⟨writes, hw, rfl⟩ := h
    rw [validatePreview_captured_iff (preparePhaseWrites_ok hw) hcount hbytes, Comparable,
      and_iff_right plan.stagingWrites_sorted, plan.writes_eq]
    simp only [List.forall_mem_append, List.forall_mem_cons, List.not_mem_nil, false_implies,
      implies_true, and_true]
    tauto
  · intro plan preview h hcount hbytes
    simp only [previewNtfsPhaseWrites, bind_ok_iff, pure_eq_ok, Except.ok.injEq] at h
    obtain ⟨writes, hw, rfl⟩ := h
    exact validatePreview_captured_iff (preparePhaseWrites_ok hw) hcount hbytes

/-! ## A small exFAT volume -/

/-- Two boot regions of twelve sectors and one sector of a FAT. -/
def sampleOverlay : Except OverlayError OverlayPlan :=
  OverlayPlan.build 16384 512
    [⟨0, List.replicate 6144 1⟩, ⟨6144, List.replicate 6144 1⟩, ⟨12288, List.replicate 512 2⟩]
    ⟨16, 65536, 65536⟩

def samplePlan : ExfatSerializationPlan where
  overlay := okValue sampleOverlay (by decide +kernel)
  reservations := [⟨⟨0, 12288⟩, .bootRegion⟩, ⟨⟨12288, 512⟩, .allocationMetadata⟩]
  two_le := by decide +kernel

def sampleImage : Bytes := List.replicate 16384 0

def samplePreview (maxReadBytes : ℕ) (hpos : 0 < maxReadBytes) :
    Except PhaseWriteError PhaseWritePreview :=
  previewExfatPhaseWrites (imageFile sampleImage maxReadBytes hpos) samplePlan ⟨16, 65536⟩

/-- A plan that stages one sector at the end of the volume before one in the middle. -/
def sampleNtfsPlan : NtfsDestinationPlan where
  stagingWrites := [⟨2048, List.replicate 512 2⟩, ⟨1024, List.replicate 512 2⟩]
  backupBootWrite := ⟨3584, List.replicate 512 1⟩
  primaryBootWrite := ⟨0, List.replicate 512 1⟩
  reservations := [⟨⟨0, 512⟩, .bootRegion⟩, ⟨⟨1024, 2048⟩, .allocationMetadata⟩,
    ⟨⟨3584, 512⟩, .bootRegion⟩]
  exactObjectMetadata := true

/-- With room for a whole boot region in one read, the exFAT preview is accepted. -/
theorem samplePreview_accepted :
    ∃ preview, samplePreview 6144 (by decide) = .ok preview ∧
      validatePreview (imageFile sampleImage 6144 (by decide)) preview.writes ⟨3, 12800⟩ =
        .ok (3, 12800) := by
  have hok : (samplePreview 6144 (by decide)).toOption.isSome = true := by decide +kernel
  have hwrites : (finalWrites (okValue _ hok).writes).length = 3 ∧
      OverlayPlan.byteCount (finalWrites (okValue _ hok).writes) = 12800 := by
    decide +kernel +revert
  have hplan : ∀ w ∈ samplePlan.overlay.writes, w.bytes.length ≤ 6144 := by decide +kernel
  refine ⟨okValue _ hok, eq_okValue hok, ?_⟩
  have h := ((previews_accepted_iff sampleImage 6144 (by decide) ⟨16, 65536⟩ ⟨3, 12800⟩).1 samplePlan
    (okValue _ hok) (eq_okValue hok) hwrites.1.le hwrites.2.le).2 hplan
  rw [hwrites.1, hwrites.2] at h
  exact h

/-- Captured from the same image opened with reads of at most 4096 bytes, the preview is refused. -/
theorem samplePreview_refused :
    ∃ preview, samplePreview 4096 (by decide) = .ok preview ∧
      validatePreview (imageFile sampleImage 4096 (by decide)) preview.writes ⟨3, 12800⟩ =
        .error (.image (.readTooLarge 6144 4096)) := by
  have hok : (samplePreview 4096 (by decide)).toOption.isSome = true := by decide +kernel
  refine ⟨okValue _ hok, eq_okValue hok, ?_⟩
  decide +kernel +revert

-- Staging writes out of order are refused however much one read returns.
example : (previewNtfsPhaseWrites (imageFile (List.replicate 4096 0) 4096 (by decide)) sampleNtfsPlan
      ⟨16, 65536⟩).toOption.map (fun preview =>
        validatePreview (imageFile (List.replicate 4096 0) 4096 (by decide)) preview.writes ⟨4, 2048⟩) =
    some (.error (.previewShape "a forward write and rollback before-image disagree on range")) := by
  decide +kernel

end Export

end StarConverter
