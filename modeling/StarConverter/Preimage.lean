import StarConverter.Image
import StarConverter.Overlay

/-!
# Before-images

The exact bytes of an image under a set of planned replacements, read in chunks no longer than one
read of the image allows. Whatever the chunks, the capture is the list of replaced ranges in order of
offset, with the image's own bytes in each (`captureBeforeImages_ok`).
-/

namespace StarConverter

open Base

namespace Preimage

structure PreimageLimits where
  maxWrites : ℕ
  maxTotalBytes : ℕ
  deriving DecidableEq

inductive PreimageError
  | invalidLimit (field : String)
  | writeLimitExceeded (actual maximum : ℕ)
  | byteLimitExceeded (actual maximum : ℕ)
  | emptyWrite (offset : ℕ)
  | rangeOverflow (offset length : ℕ)
  | overlappingWrites (firstOffset secondOffset : ℕ)
  | allocationFailed
  | image (error : ImageError)
  deriving DecidableEq

/-- The range before `write`, when there is one, ends at or before it. -/
def checkPrior (write : OverlayWrite) : Option (ℕ × ℕ) → Except PreimageError Unit
  | none => pure ()
  | some (priorOffset, priorEnd) =>
    ensure (priorEnd ≤ write.offset) (.overlappingWrites priorOffset write.offset)

/-- The checks of the sorted replacements; the result is the number of bytes they replace. -/
def checkOrdered (limits : PreimageLimits) :
    Option (ℕ × ℕ) → ℕ → List OverlayWrite → Except PreimageError ℕ
  | _, total, [] => pure total
  | prior, total, write :: rest => do
    ensure (write.bytes ≠ []) (.emptyWrite write.offset)
    let stop ← orErr (checkedAdd write.offset write.bytes.length)
      (.rangeOverflow write.offset write.bytes.length)
    checkPrior write prior
    let total ← orErr (checkedAdd total write.bytes.length)
      (.byteLimitExceeded (wordBound - 1) limits.maxTotalBytes)
    checkOrdered limits (some (write.offset, stop)) total rest

/-- `while remaining != 0`; a chunk has at least one byte, so `remaining` rounds are enough. -/
def readChunks (image : BoundedImageReader) : ℕ → ℕ → ℕ → Except PreimageError Bytes
  | 0, _, _ => pure []
  | rounds + 1, readOffset, remaining =>
    if remaining = 0 then pure []
    else do
      let chunkLength := min remaining image.maxReadBytes
      let chunk ← (image.readExactAt readOffset chunkLength).mapError .image
      let next ← orErr (checkedAdd readOffset chunkLength) (.rangeOverflow readOffset chunkLength)
      let rest ← readChunks image rounds next (remaining - chunkLength)
      pure (chunk ++ rest)

def captureEach (image : BoundedImageReader) :
    List OverlayWrite → Except PreimageError (List OverlayWrite)
  | [] => pure []
  | replacement :: rest => do
    let bytes ← readChunks image replacement.bytes.length replacement.offset replacement.bytes.length
    let output ← captureEach image rest
    pure (⟨replacement.offset, bytes⟩ :: output)

/-- Reads exact before-images for nonempty, nonoverlapping replacement ranges. -/
def captureBeforeImages (image : BoundedImageReader) (replacements : List OverlayWrite)
    (limits : PreimageLimits) : Except PreimageError (List OverlayWrite) := do
  ensure (limits.maxWrites ≠ 0) (.invalidLimit "max_writes")
  ensure (limits.maxTotalBytes ≠ 0) (.invalidLimit "max_total_bytes")
  ensure (replacements.length ≤ limits.maxWrites)
    (.writeLimitExceeded replacements.length limits.maxWrites)
  let ordered := sortByKey Patch.offset replacements
  let total ← checkOrdered limits none 0 ordered
  ensure (total ≤ limits.maxTotalBytes) (.byteLimitExceeded total limits.maxTotalBytes)
  captureEach image ordered

/-! ## What a capture holds -/

/-- The bytes an image holds under a replacement. -/
def beforeImage (image : Bytes) (replacement : OverlayWrite) : OverlayWrite :=
  ⟨replacement.offset, sliceAt image replacement.offset replacement.bytes.length⟩

/-- A nonempty replacement inside the image. -/
structure InImage (image : Bytes) (write : OverlayWrite) : Prop where
  nonempty : write.bytes ≠ []
  stop_lt : write.span.stop < wordBound
  stop_le : write.span.stop ≤ image.length

theorem length_beforeImage {image : Bytes} {write : OverlayWrite} (h : InImage image write) :
    (beforeImage image write).bytes.length = write.bytes.length :=
  length_sliceAt_of_le h.stop_le

theorem imageFileRead_ok_iff {image bytes : Bytes} {maxReadBytes offset length : ℕ} :
    imageFileRead image maxReadBytes offset length = .ok bytes ↔
      offset + length < wordBound ∧ length ≤ maxReadBytes ∧ offset + length ≤ image.length ∧
        bytes = sliceAt image offset length := by
  simp only [imageFileRead, bind_ok_iff, orErr_ok_iff, checkedAdd_eq_some, ensure_ok_iff,
    exists_const, pure_eq_ok, Except.ok.injEq]
  constructor
  · rintro ⟨_, ⟨hlt, rfl⟩, hmax, hle, rfl⟩
    exact ⟨hlt, hmax, hle, rfl⟩
  · rintro ⟨hlt, hmax, hle, rfl⟩
    exact ⟨_, ⟨hlt, rfl⟩, hmax, hle, rfl⟩

section File

variable {image : Bytes} {maxReadBytes : ℕ} {hpos : 0 < maxReadBytes}

/-- Reading in chunks succeeds exactly for the ranges inside the image, whatever one read allows. -/
theorem readChunks_ok_iff {rounds offset remaining : ℕ} {bytes : Bytes} (hr : remaining ≤ rounds) :
    readChunks (imageFile image maxReadBytes hpos) rounds offset remaining = .ok bytes ↔
      (remaining = 0 ∨ offset + remaining < wordBound ∧ offset + remaining ≤ image.length) ∧
        bytes = sliceAt image offset remaining := by
  induction rounds generalizing offset remaining bytes with
  | zero =>
    obtain rfl : remaining = 0 := by omega
    simp [readChunks, sliceAt, eq_comm]
  | succ rounds ih =>
    rw [readChunks]
    split_ifs with h0
    · simp [h0, sliceAt, eq_comm]
    · have hmax : (imageFile image maxReadBytes hpos).maxReadBytes = maxReadBytes := rfl
      have hread : (imageFile image maxReadBytes hpos).readExactAt = imageFileRead image maxReadBytes :=
        rfl
      rw [hmax, hread]
      have hsplit : ∀ n, n ≤ remaining → sliceAt image offset remaining =
          sliceAt image offset n ++ sliceAt image (offset + n) (remaining - n) := by
        intro n hn
        obtain ⟨k, rfl⟩ := Nat.exists_eq_add_of_le hn
        rw [Nat.add_sub_cancel_left, sliceAt, sliceAt, sliceAt, ← List.drop_drop, List.take_add]
      have hchunk : 0 < min remaining maxReadBytes := by omega
      simp only [bind_ok_iff, mapError_ok_iff, imageFileRead_ok_iff, orErr_ok_iff,
        checkedAdd_eq_some, pure_eq_ok, Except.ok.injEq]
      constructor
      · rintro ⟨_, ⟨hlt, hle, hin, rfl⟩, _, ⟨-, rfl⟩, _, hrest, rfl⟩
        obtain ⟨hcase, rfl⟩ := (ih (by omega)).1 hrest
        exact ⟨Or.inr (by omega), (hsplit _ (by omega)).symm⟩
      · rintro ⟨hcase, rfl⟩
        obtain ⟨hlt, hin⟩ := hcase.resolve_left h0
        refine ⟨_, ⟨by omega, by omega, by omega, rfl⟩, _, ⟨by omega, rfl⟩, _,
          (ih (by omega)).2 ⟨by omega, rfl⟩, (hsplit _ (by omega)).symm⟩

theorem captureEach_ok_iff {writes output : List OverlayWrite} (hne : ∀ w ∈ writes, w.bytes ≠ []) :
    captureEach (imageFile image maxReadBytes hpos) writes = .ok output ↔
      (∀ w ∈ writes, InImage image w) ∧ output = writes.map (beforeImage image) := by
  induction writes generalizing output with
  | nil => simp [captureEach, eq_comm]
  | cons w rest ih =>
    have hw : w.bytes.length ≠ 0 := fun h => hne w (by simp) (List.length_eq_zero_iff.1 h)
    have hin : (w.bytes.length = 0 ∨ w.offset + w.bytes.length < wordBound ∧
        w.offset + w.bytes.length ≤ image.length) ↔ InImage image w := by
      constructor
      · intro h
        obtain ⟨hlt, hle⟩ := h.resolve_left hw
        exact ⟨hne w (by simp), hlt, hle⟩
      · exact fun h => Or.inr ⟨h.stop_lt, h.stop_le⟩
    simp only [captureEach, bind_ok_iff, readChunks_ok_iff le_rfl, hin,
      ih fun v hv => hne v (by simp [hv]), pure_eq_ok, Except.ok.injEq, List.forall_mem_cons,
      List.map_cons]
    constructor
    · rintro ⟨_, ⟨hi, rfl⟩, _, ⟨hrest, rfl⟩, rfl⟩
      exact ⟨⟨hi, hrest⟩, rfl⟩
    · rintro ⟨⟨hi, hrest⟩, rfl⟩
      exact ⟨_, ⟨hi, rfl⟩, _, ⟨hrest, rfl⟩, rfl⟩

end File

/-- What the checks of the sorted replacements establish. -/
structure OrderedFrom (prior : Option (ℕ × ℕ)) (total : ℕ) (writes : List OverlayWrite) : Prop where
  nonempty : ∀ w ∈ writes, w.bytes ≠ []
  stop_lt : ∀ w ∈ writes, w.span.stop < wordBound
  after_prior : ∀ p ∈ prior, ∀ w ∈ writes.head?, p.2 ≤ w.offset
  chain : List.IsChain Span.Before (writes.map Patch.span)
  total_lt : total + OverlayPlan.byteCount writes < wordBound

theorem checkPrior_ok_iff {write : OverlayWrite} {prior : Option (ℕ × ℕ)} {u : Unit} :
    checkPrior write prior = .ok u ↔ ∀ p ∈ prior, p.2 ≤ write.offset := by
  cases prior with
  | none => simp [checkPrior]
  | some p => simp [checkPrior]

theorem checkOrdered_ok_iff {limits : PreimageLimits} {prior : Option (ℕ × ℕ)} {total n : ℕ}
    {writes : List OverlayWrite} (ht : total < wordBound) :
    checkOrdered limits prior total writes = .ok n ↔
      OrderedFrom prior total writes ∧ n = total + OverlayPlan.byteCount writes := by
  induction writes generalizing prior total with
  | nil =>
    simp only [checkOrdered, pure_eq_ok, Except.ok.injEq]
    constructor
    · rintro rfl
      exact ⟨⟨by simp, by simp, by simp, by simp, by simpa [OverlayPlan.byteCount] using ht⟩, rfl⟩
    · rintro ⟨-, rfl⟩
      rfl
  | cons w rest ih =>
    have hcons : OverlayPlan.byteCount (w :: rest) =
        w.bytes.length + OverlayPlan.byteCount rest := rfl
    simp only [checkOrdered, bind_ok_iff, exists_const, ensure_ok_iff, orErr_ok_iff,
      checkedAdd_eq_some, checkPrior_ok_iff]
    constructor
    · rintro ⟨hne, _, ⟨hstop, rfl⟩, hprior, _, ⟨hlt, rfl⟩, h⟩
      obtain ⟨ho, rfl⟩ := (ih hlt).1 h
      refine ⟨⟨by simpa using ⟨hne, ho.nonempty⟩, by simpa using ⟨hstop, ho.stop_lt⟩,
        by simpa using hprior, ?_, by have := ho.total_lt; omega⟩, by omega⟩
      rw [List.map_cons, List.isChain_cons]
      refine ⟨fun s hs => ?_, ho.chain⟩
      rw [List.head?_map, Option.mem_map] at hs
      obtain ⟨v, hv, rfl⟩ := hs
      exact ho.after_prior _ rfl v hv
    · rintro ⟨ho, rfl⟩
      have hall := List.forall_mem_cons.1 ho.nonempty
      have hstop := List.forall_mem_cons.1 ho.stop_lt
      have hchain := ho.chain
      rw [List.map_cons, List.isChain_cons] at hchain
      have htotal := ho.total_lt
      refine ⟨hall.1, _, ⟨hstop.1, rfl⟩, fun p hp => ho.after_prior p hp w (by simp), _,
        ⟨by omega, rfl⟩, (ih (by omega)).2 ⟨⟨hall.2, hstop.2, ?_, hchain.2, by omega⟩, by omega⟩⟩
      intro p hp v hv
      obtain rfl := Option.mem_some_iff.1 hp
      exact hchain.1 _ (by rw [List.head?_map]; exact Option.mem_map_of_mem _ hv)

/-- The replacements of a capture: nonempty, inside the image and apart. -/
structure Capturable (image : Bytes) (limits : PreimageLimits) (writes : List OverlayWrite) :
    Prop where
  maxWrites_ne : limits.maxWrites ≠ 0
  maxTotalBytes_ne : limits.maxTotalBytes ≠ 0
  count_le : writes.length ≤ limits.maxWrites
  inImage : ∀ w ∈ writes, InImage image w
  ordered : Ordered ((sortByKey Patch.offset writes).map Patch.span)
  total_lt : OverlayPlan.byteCount writes < wordBound
  total_le : OverlayPlan.byteCount writes ≤ limits.maxTotalBytes

/-- **A capture is the image's own bytes.** It succeeds exactly for nonempty ranges inside the image
and apart, within the limits; it lists them in order of offset with what the image holds there. -/
theorem captureBeforeImages_ok_iff {image : Bytes} {maxReadBytes : ℕ} {hpos : 0 < maxReadBytes}
    {writes output : List OverlayWrite} {limits : PreimageLimits} :
    captureBeforeImages (imageFile image maxReadBytes hpos) writes limits = .ok output ↔
      Capturable image limits writes ∧
        output = (sortByKey Patch.offset writes).map (beforeImage image) := by
  have hbytes : OverlayPlan.byteCount (sortByKey Patch.offset writes) = OverlayPlan.byteCount writes :=
    OverlayPlan.byteCount_perm (sortByKey_perm _ _)
  simp only [captureBeforeImages, bind_ok_iff, exists_const, ensure_ok_iff,
    checkOrdered_ok_iff wordBound_pos, Nat.zero_add, hbytes]
  constructor
  · rintro ⟨hmax, hbytesMax, hcount, _, ⟨ho, rfl⟩, htotal, h⟩
    obtain ⟨hin, rfl⟩ := (captureEach_ok_iff ho.nonempty).1 h
    have hlt := ho.total_lt
    rw [hbytes, Nat.zero_add] at hlt
    exact ⟨⟨hmax, hbytesMax, hcount, fun w hw => hin w (mem_sortByKey.2 hw),
      List.isChain_iff_pairwise.1 ho.chain, hlt, htotal⟩, rfl⟩
  · rintro ⟨h, rfl⟩
    have hin : ∀ w ∈ sortByKey Patch.offset writes, InImage image w :=
      fun w hw => h.inImage w (mem_sortByKey.1 hw)
    refine ⟨h.maxWrites_ne, h.maxTotalBytes_ne, h.count_le, _, ⟨⟨fun w hw => (hin w hw).nonempty,
      fun w hw => (hin w hw).stop_lt, by simp, List.isChain_iff_pairwise.2 h.ordered, ?_⟩, rfl⟩,
      h.total_le, (captureEach_ok_iff fun w hw => (hin w hw).nonempty).2 ⟨hin, rfl⟩⟩
    rw [hbytes, Nat.zero_add]
    exact h.total_lt

end Preimage

end StarConverter
