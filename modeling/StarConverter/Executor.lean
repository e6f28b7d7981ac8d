import StarConverter.Geometry.Solver
import StarConverter.Hashing
import StarConverter.World

/-!
# The executor

Verified mutation of the image: relocation copies and prepared writes go out in chunks, each chunk is
read back, and two flushes end the group. Whatever interrupts a group, the image is the old one with
some of the group's bytes written (`copyRelocations_spec`, `applyWriteRefs_spec`).
-/

namespace StarConverter

open Base World Geometry

/-- Stable identity of the image container. -/
structure ImageIdentity where
  imageInstance : Digest
  imageBytes : ℕ
  deriving DecidableEq

inductive ImageError
  | io (operation : String)
  | rangeOverflow (offset length : ℕ)
  | outOfRange (offset length imageLength : ℕ)
  | readTooLarge (requested maximum : ℕ)
  | truncated (offset expected : ℕ)
  | sourceChanged
  deriving DecidableEq

inductive ExecutorError
  | image (error : ImageError)
  | io (operation : String)
  | identityMismatch
  | planImageMismatch
  | invalidExecutionLease
  | leaseIntentMismatch
  | intentNotAuthorized
  | nonMutatingIntent
  | invalidRelocation (index : ℕ)
  | rangeOutsideImage (offset length imageLength : ℕ)
  | arithmeticOverflow
  | verificationMismatch (offset : ℕ)
  deriving DecidableEq

inductive ExecutionKind
  | relocation
  | targetStaging
  | backupBoot
  | activation
  | rollback
  deriving DecidableEq

structure ExecutionEvidence where
  kind : ExecutionKind
  operations : ℕ
  bytesWritten : ℕ
  syncDataCompleted : Bool
  syncAllCompleted : Bool
  deriving DecidableEq

/-- Opening an executor refuses an empty chunk. -/
structure ExecutorLimits where
  maxChunkBytes : ℕ
  pos : 0 < maxChunkBytes

/-- An exclusively opened image. -/
structure ImageExecutor where
  identity : ImageIdentity
  limits : ExecutorLimits

abbrev Execution (α : Type) := Prog World ExecutorError α

namespace ImageExecutor

variable (x : ImageExecutor)

/-- The handle and the path still name the container, and its length has not changed. -/
def ensureSameContainer : Execution Unit := do
  tick (.io "revalidate opened image")
  tick (.io "identify opened image")
  let w ← Prog.get
  check (w.image.now.length = x.identity.imageBytes) .identityMismatch
  tick .identityMismatch
  tick (.io "revalidate canonical image path")
  tick (.io "revalidate image path")
  tick .identityMismatch

def validateRange (imageLength : ℕ) (range : ByteRange) : Except ExecutorError Unit := do
  let stop ← orErr (checkedAdd range.offset range.length) .arithmeticOverflow
  ensure (range.length ≠ 0 ∧ stop ≤ imageLength)
    (.rangeOutsideImage range.offset range.length imageLength)

def rangesOverlap (a b : ByteRange) : Except ExecutorError Bool := do
  let aEnd ← orErr (checkedAdd a.offset a.length) .arithmeticOverflow
  let bEnd ← orErr (checkedAdd b.offset b.length) .arithmeticOverflow
  pure (decide (a.offset < bEnd ∧ b.offset < aEnd))

def verifyAt (offset : ℕ) (expected : Bytes) : Execution Unit := do
  let actual ← readImage (.io "read back written image range") offset expected.length
  check (actual = expected) (.verificationMismatch offset)

def finishDurable (kind : ExecutionKind) (operations bytesWritten : ℕ) :
    Execution ExecutionEvidence := do
  x.ensureSameContainer
  syncImage (.io "flush image data")
  x.ensureSameContainer
  syncImage (.io "flush image data and metadata")
  x.ensureSameContainer
  pure ⟨kind, operations, bytesWritten, true, true⟩

/-- One chunk of a relocation; `total` bytes were copied by the relocations before. -/
def copyChunk (total : ℕ) (relocation : Relocation) (relative count : ℕ) : Execution Unit := do
  x.ensureSameContainer
  let bytes ← readImage (.io "read relocation source") (relocation.source.offset + relative) count
  writeImage (.io "write relocation destination") (relocation.destination.offset + relative) bytes
  verifyAt (relocation.destination.offset + relative) bytes
  check (total + (relative + count) < wordBound) .arithmeticOverflow

def copyRelocation (index total : ℕ) (relocation : Relocation) : Execution Unit := do
  check (relocation.source.length = relocation.destination.length ∧ relocation.source.length ≠ 0)
    (.invalidRelocation index)
  let hit ← Prog.lift (rangesOverlap relocation.source relocation.destination)
  check (hit = false) (.invalidRelocation index)
  Prog.lift (validateRange x.identity.imageBytes relocation.source)
  Prog.lift (validateRange x.identity.imageBytes relocation.destination)
  Prog.forChunks x.limits.maxChunkBytes relocation.source.length (x.copyChunk total relocation)

/-- The relocations in order, with their index and the bytes copied so far. -/
def copyEach : ℕ → ℕ → List Relocation → Execution ℕ
  | _, total, [] => pure total
  | index, total, relocation :: rest => do
    x.copyRelocation index total relocation
    copyEach (index + 1) (total + relocation.source.length) rest

def copyRelocations (relocations : List Relocation) : Execution ExecutionEvidence := do
  let total ← x.copyEach 0 0 relocations
  x.finishDurable .relocation relocations.length total

def writeChunk (total : ℕ) (write : Patch UInt8) (relative count : ℕ) : Execution Unit := do
  let bytes := sliceAt write.bytes relative count
  x.ensureSameContainer
  writeImage (.io "write prepared image range") (write.offset + relative) bytes
  verifyAt (write.offset + relative) bytes
  check (total + (relative + count) < wordBound) .arithmeticOverflow

def applyWrite (total : ℕ) (write : Patch UInt8) : Execution Unit := do
  Prog.lift (validateRange x.identity.imageBytes write.span)
  Prog.forChunks x.limits.maxChunkBytes write.bytes.length (x.writeChunk total write)

def applyEach : ℕ → List (Patch UInt8) → Execution ℕ
  | total, [] => pure total
  | total, write :: rest => do
    x.applyWrite total write
    applyEach (total + write.bytes.length) rest

def applyWriteRefs (kind : ExecutionKind) (writes : List (Patch UInt8)) :
    Execution ExecutionEvidence := do
  let total ← x.applyEach 0 writes
  x.finishDurable kind writes.length total

/-! ## Single steps -/

section Steps

variable {x : ImageExecutor} {w : World} (hlen : w.image.now.length = x.identity.imageBytes)

include hlen in
theorem ensureSameContainer_spec :
    Prog.Spec x.ensureSameContainer w (fun _ => w.Waits) w.Failed := by
  refine tick_bind (fun w1 h1 => ?_) fun _ h => h
  refine tick_bind (fun w2 h2 => ?_) fun _ h => h1.failed h
  have h12 := h1.trans h2
  refine (Prog.Spec.get (Q := fun a s => a = w2 ∧ s = w2) ⟨rfl, rfl⟩).bind ?_
  rintro _ _ ⟨rfl, rfl⟩
  refine (check_spec (by rw [h12.image]; exact hlen)).bind ?_
  rintro _ _ rfl
  refine tick_bind (fun w3 h3 => ?_) fun _ h => h12.failed h
  have h13 := h12.trans h3
  refine tick_bind (fun w4 h4 => ?_) fun _ h => h13.failed h
  have h14 := h13.trans h4
  refine tick_bind (fun w5 h5 => ?_) fun _ h => h14.failed h
  have h15 := h14.trans h5
  exact (tick_spec _ w5).mono (fun _ _ h => h15.trans h) fun _ h => h15.failed h

theorem validateRange_ok {imageLength : ℕ} {r : ByteRange} (hpos : 0 < r.length)
    (hlt : r.stop < wordBound) (hle : r.stop ≤ imageLength) :
    validateRange imageLength r = .ok () := by
  unfold Span.stop at hlt hle
  simp only [validateRange, bind_ok_iff, orErr_ok_iff, checkedAdd_eq_some, ensure_ok_iff]
  exact ⟨_, ⟨hlt, rfl⟩, by omega, hle⟩

theorem verifyAt_spec {offset : ℕ} {expected : Bytes}
    (h : sliceAt w.image.now offset expected.length = expected)
    (hle : offset + expected.length ≤ w.image.now.length) :
    Prog.Spec (verifyAt offset expected) w (fun _ => w.Waits) w.Failed := by
  refine waits_bind (R := fun b _ => b = expected)
    ((readImage_spec _ hle).mono (fun b _ hb => ⟨hb.1, hb.2.trans h⟩) fun _ h => h) ?_ fun _ h => h
  rintro b w' hw rfl
  exact (check_spec rfl).mono (fun _ _ h => h ▸ hw) fun _ h => h

include hlen in
/-- Writing one chunk, reading it back and counting it. -/
theorem writeVerify_spec {e : ExecutorError} {offset n : ℕ} {bytes : Bytes}
    (hle : offset + bytes.length ≤ x.identity.imageBytes) (hn : n < wordBound) :
    Prog.Spec (do
      writeImage e offset bytes
      verifyAt offset bytes
      check (n < wordBound) .arithmeticOverflow) w
      (fun _ w' => w.Writes [⟨offset, bytes⟩] w' ∧
        w'.image.now = overwrite w.image.now offset bytes) (w.Torn [⟨offset, bytes⟩]) := by
  refine (writeImage_spec e offset bytes w).bind ?_
  rintro _ w1 ⟨hw1, him⟩
  have hnow : w1.image.now = overwrite w.image.now offset bytes := by rw [him]; rfl
  have hfit : offset + bytes.length ≤ w.image.now.length := by rw [hlen]; exact hle
  refine ((verifyAt_spec (w := w1) ?_ ?_).mono (fun _ _ h => h) ?_).bind ?_
  · rw [hnow]; exact sliceAt_overwrite_self hfit
  · rw [hnow, length_overwrite]; exact hfit
  · rintro w2 ⟨h2, hq⟩
    exact ⟨⟨h2.image ▸ hw1.image, h2.capsule.trans hw1.capsule, hw1.calm.trans h2.calm⟩,
      fun hq' => hq (hw1.calm hq')⟩
  · intro _ w2 h2
    refine (check_spec hn).mono ?_ fun _ h => h
    rintro _ _ rfl
    exact ⟨⟨h2.image ▸ hw1.image, h2.capsule.trans hw1.capsule, hw1.calm.trans h2.calm⟩,
      by rw [h2.image]; exact hnow⟩

end Steps

/-! ## Chunks -/

section Chunks

variable {x : ImageExecutor} {w : World} {off : ℕ} {bytes : Bytes}

/-- The image while the bytes of one patch go out: the first `relative` of them are written. -/
structure Underway (w : World) (off : ℕ) (bytes : Bytes) (relative : ℕ) (w' : World) : Prop where
  writes : w.Writes [⟨off, bytes.take relative⟩] w'
  now : w'.image.now = overwrite w.image.now off (bytes.take relative)

theorem Underway.zero (w : World) (off : ℕ) (bytes : Bytes) : Underway w off bytes 0 w :=
  ⟨(Waits.refl w).writes _, by simp⟩

theorem take_append_sliceAt {relative count : ℕ} :
    bytes.take relative ++ sliceAt bytes relative count = bytes.take (relative + count) := by
  rw [sliceAt, List.take_add]

variable {w' : World} {relative count : ℕ}

/-- One more chunk. -/
theorem Underway.step (h : Underway w off bytes relative w') (hle : relative + count ≤ bytes.length)
    {w'' : World} (hw : w'.Writes [⟨off + relative, sliceAt bytes relative count⟩] w'')
    (hnow : w''.image.now = overwrite w'.image.now (off + relative) (sliceAt bytes relative count)) :
    Underway w off bytes (relative + count) w'' := by
  have hlen : (bytes.take relative).length = relative := by simp; omega
  refine ⟨(h.writes.trans hw ?_).of_parts ?_, ?_⟩
  · intro y hy hy'
    simp only [mem_touched, List.mem_singleton, exists_eq_left, Patch.mem_span] at hy hy'
    omega
  · have h1 : (⟨off, bytes.take relative⟩ : Patch UInt8).PartOf
        ⟨off, bytes.take (relative + count)⟩ := by
      have := Patch.partOf_take off (bytes.take (relative + count)) relative
      rwa [List.take_take, Nat.min_eq_left (by omega)] at this
    have h2 : (⟨off + relative, sliceAt bytes relative count⟩ : Patch UInt8).PartOf
        ⟨off, bytes.take (relative + count)⟩ := by
      have := Patch.partOf_slice off (bytes.take (relative + count)) relative count
      rwa [show sliceAt (bytes.take (relative + count)) relative count =
        sliceAt bytes relative count by simp [sliceAt, List.drop_take]] at this
    simpa using ⟨h1, h2⟩
  · rw [hnow, h.now, ← take_append_sliceAt, ← overwrite_append, hlen]

/-- A chunk that was interrupted. -/
theorem Underway.torn (h : Underway w off bytes relative w') (hle : relative ≤ bytes.length)
    {w'' : World} (hw : w'.Torn [⟨off + relative, sliceAt bytes relative count⟩] w'') :
    w.Torn [⟨off, bytes⟩] w'' := by
  have hlen : (bytes.take relative).length = relative := by simp; omega
  refine ⟨(h.writes.trans hw.1 ?_).of_parts ?_, fun hq => hw.2 (h.writes.calm hq)⟩
  · intro y hy hy'
    simp only [mem_touched, List.mem_singleton, exists_eq_left, Patch.mem_span] at hy hy'
    omega
  · simpa using ⟨Patch.partOf_take off bytes relative, Patch.partOf_slice off bytes relative count⟩

theorem Underway.failed (h : Underway w off bytes relative w') (hle : relative ≤ bytes.length)
    {w'' : World} (hw : w'.Failed w'') : w.Torn [⟨off, bytes⟩] w'' :=
  h.torn hle (hw.torn [⟨off + relative, sliceAt bytes relative 0⟩])

theorem Underway.waits (h : Underway w off bytes relative w') {w'' : World} (hw : w'.Waits w'') :
    Underway w off bytes relative w'' :=
  ⟨⟨hw.image ▸ h.writes.image, hw.capsule.trans h.writes.capsule, h.writes.calm.trans hw.calm⟩,
    hw.image ▸ h.now⟩

theorem Underway.length (h : Underway w off bytes relative w') :
    w'.image.now.length = w.image.now.length := by rw [h.now, length_overwrite]

/-- The last steps of every chunk, in the course of a patch. -/
theorem Underway.writeVerify (h : Underway w off bytes relative w')
    (hlen : w.image.now.length = x.identity.imageBytes)
    (hfit : off + bytes.length ≤ x.identity.imageBytes) (hle : relative + count ≤ bytes.length)
    {e : ExecutorError} {n : ℕ} (hn : n < wordBound) :
    Prog.Spec (do
      writeImage e (off + relative) (sliceAt bytes relative count)
      verifyAt (off + relative) (sliceAt bytes relative count)
      check (n < wordBound) .arithmeticOverflow) w'
      (fun _ => Underway w off bytes (relative + count)) (w.Torn [⟨off, bytes⟩]) := by
  refine (writeVerify_spec (x := x) (h.length.trans hlen) ?_ hn).mono ?_ ?_
  · rw [length_sliceAt_of_le hle]; omega
  · rintro _ w'' ⟨h1, h2⟩
    exact h.step hle h1 h2
  · exact fun w'' h' => h.torn (by omega) h'

end Chunks

/-! ## Groups of writes -/

/-- A range the executor accepts. -/
structure Fits (imageBytes : ℕ) (r : ByteRange) : Prop where
  nonempty : 0 < r.length
  stop_lt : r.stop < wordBound
  stop_le : r.stop ≤ imageBytes

/-- Writes the executor can carry out as one group. -/
structure WritableGroup (imageBytes : ℕ) (ps : List (Patch UInt8)) : Prop where
  fits : ∀ p ∈ ps, Fits imageBytes p.span
  disjoint : (ps.map Patch.span).Pairwise Span.Disjoint
  total_lt : (ps.map fun p => p.bytes.length).sum < wordBound

section Writes

variable {x : ImageExecutor} {w : World} (hlen : w.image.now.length = x.identity.imageBytes)

include hlen in
theorem applyWrite_spec {total : ℕ} {p : Patch UInt8} (hp : Fits x.identity.imageBytes p.span)
    (ht : total + p.bytes.length < wordBound) :
    Prog.Spec (x.applyWrite total p) w
      (fun _ w' => w.Writes [p] w' ∧ w'.image.now = p.apply w.image.now) (w.Torn [p]) := by
  have hfit : p.offset + p.bytes.length ≤ x.identity.imageBytes := hp.stop_le
  have hv := validateRange_ok hp.nonempty hp.stop_lt hp.stop_le
  refine (Prog.Spec.lift (Q := fun _ w' => w = w') (fun _ _ => rfl) fun e he => ?_).bind ?_
  · rw [hv] at he; cases he
  rintro _ _ rfl
  refine (Prog.Spec.forChunks (Underway w p.offset p.bytes) x.limits.pos ?_
    (Underway.zero w _ _)).mono ?_ fun _ h => h
  · intro relative count w' hc hle hu
    refine waits_bind (R := fun _ _ => True)
      ((ensureSameContainer_spec (hu.length.trans hlen)).mono (fun _ _ h => ⟨h, trivial⟩)
        fun _ h => h) ?_ fun _ h => hu.failed (by omega) h
    intro _ w'' hw _
    exact (hu.waits hw).writeVerify hlen hfit hle (by omega)
  · intro _ w' hu
    have := hu.writes
    have hnow := hu.now
    rw [List.take_length] at this hnow
    exact ⟨this, hnow⟩

include hlen in
theorem applyEach_spec (total : ℕ) {ps : List (Patch UInt8)}
    (hfits : ∀ p ∈ ps, Fits x.identity.imageBytes p.span)
    (hd : (ps.map Patch.span).Pairwise Span.Disjoint)
    (ht : total + (ps.map fun p => p.bytes.length).sum < wordBound) :
    Prog.Spec (x.applyEach total ps) w
      (fun _ w' => w.Writes ps w' ∧ w'.image.now = applyAll ps w.image.now) (w.Torn ps) := by
  induction ps generalizing w total with
  | nil => exact Prog.Spec.pure ⟨(Waits.refl w).writes _, rfl⟩
  | cons p ps ih =>
    obtain ⟨hdp, hds⟩ := List.pairwise_cons.1 (List.map_cons ▸ hd)
    simp only [List.map_cons, List.sum_cons] at ht
    have hdisj : ∀ y ∈ touched [p], y ∉ touched ps := by
      intro y hy hy'
      obtain ⟨q, hq, hyq⟩ := mem_touched.1 hy'
      simp only [mem_touched, List.mem_singleton, exists_eq_left] at hy
      exact hdp q.span (List.mem_map_of_mem hq) y hy hyq
    refine ((applyWrite_spec hlen (hfits p (by simp)) (by omega)).mono (fun _ _ h => h) ?_).bind ?_
    · exact fun w' h => ⟨h.1.mono (by simp), h.2⟩
    rintro _ w' ⟨hw, hnow⟩
    have hlen' : w'.image.now.length = x.identity.imageBytes := by
      rw [hnow, Patch.length_apply]; exact hlen
    refine (ih hlen' _ (fun q hq => hfits q (by simp [hq])) hds (by omega)).mono ?_ ?_
    · rintro t w'' ⟨hw', hnow'⟩
      exact ⟨hw.trans hw' hdisj, by rw [hnow', hnow, applyAll_cons]⟩
    · rintro w'' ⟨hw', hq⟩
      exact ⟨hw.trans hw' hdisj, fun hq' => hq (hw.calm hq')⟩

/-- The image after a finished group: the patches are written and durable. -/
structure Done (ps : List (Patch UInt8)) (w w' : World) : Prop where
  image : w'.image = Medium.clean (applyAll ps w.image.now)
  capsule : w'.capsule = w.capsule
  calm : w.Calm w'

theorem finishDurable_spec {kind : ExecutionKind} {n b : ℕ} {w : World}
    (hlen : w.image.now.length = x.identity.imageBytes) :
    Prog.Spec (x.finishDurable kind n b) w
      (fun ev w' => ev = ⟨kind, n, b, true, true⟩ ∧ w'.image = w.image.flush ∧
        w'.capsule = w.capsule ∧ w.Calm w')
      (fun w' => (w'.image = w.image ∨ w'.image = w.image.flush) ∧ w'.capsule = w.capsule ∧
        w.Calm w' ∧ ¬ w.Quiet) := by
  refine waits_bind (R := fun _ _ => True) ((ensureSameContainer_spec hlen).mono
    (fun _ _ h => ⟨h, trivial⟩) fun _ h => h) ?_
    fun w' h => ⟨Or.inl h.1.image, h.1.capsule, h.1.calm, h.2⟩
  intro _ w1 h1 _
  refine ((syncImage_spec _ w1).mono (fun _ _ h => h) fun w' h => ?_).bind ?_
  · exact ⟨Or.inl (h.1.image.trans h1.image), h.1.capsule.trans h1.capsule, h1.calm.trans h.1.calm,
      fun hq => h.2 (h1.calm hq)⟩
  rintro _ w2 ⟨him, hcap, hcalm⟩
  have him2 : w2.image = w.image.flush := by rw [him, h1.image]
  have hcap2 := hcap.trans h1.capsule
  have hcalm2 := h1.calm.trans hcalm
  have hlen2 : w2.image.now.length = x.identity.imageBytes := by rw [him2]; exact hlen
  have hfail : ∀ {w' w'' : World}, w2.Waits w' → w'.Failed w'' →
      (w''.image = w.image ∨ w''.image = w.image.flush) ∧ w''.capsule = w.capsule ∧
        w.Calm w'' ∧ ¬ w.Quiet := by
    intro w' w'' hw hf
    exact ⟨Or.inr (hf.1.image.trans (hw.image.trans him2)),
      hf.1.capsule.trans (hw.capsule.trans hcap2), hcalm2.trans (hw.calm.trans hf.1.calm),
      fun hq => hf.2 (hw.calm (hcalm2 hq))⟩
  refine waits_bind (R := fun _ _ => True) ((ensureSameContainer_spec hlen2).mono
    (fun _ _ h => ⟨h, trivial⟩) fun _ h => h) ?_ fun w' h => hfail (Waits.refl w2) h
  intro _ w3 h3 _
  refine ((syncImage_spec _ w3).mono (fun _ _ h => h) fun w' h => hfail h3 h).bind ?_
  rintro _ w4 ⟨him4, hcap4, hcalm4⟩
  have him4' : w4.image = w.image.flush := by rw [him4, h3.image, him2]; rfl
  have h24 : w2.Waits w4 := ⟨him4'.trans him2.symm, hcap4.trans h3.capsule, h3.calm.trans hcalm4⟩
  have hlen4 : w4.image.now.length = x.identity.imageBytes := by rw [him4']; exact hlen
  refine waits_bind (R := fun _ _ => True) ((ensureSameContainer_spec hlen4).mono
    (fun _ _ h => ⟨h, trivial⟩) fun _ h => h) ?_ fun w' h => hfail h24 h
  intro _ w5 h5 _
  have h25 := h24.trans h5
  exact Prog.Spec.pure ⟨rfl, h25.image.trans him2, h25.capsule.trans hcap2, hcalm2.trans h25.calm⟩

/-- A group that was written and then flushed, or not. -/
theorem finishGroup_spec {kind : ExecutionKind} {n b : ℕ} {ps : List (Patch UInt8)} {w w' : World}
    (hlen : w.image.now.length = x.identity.imageBytes) (hw : w.Writes ps w')
    (hnow : w'.image.now = applyAll ps w.image.now) :
    Prog.Spec (x.finishDurable kind n b) w'
      (fun ev w'' => ev = ⟨kind, n, b, true, true⟩ ∧ Done ps w w'') (w.Torn ps) := by
  have hlen' : w'.image.now.length = x.identity.imageBytes := by
    rw [hnow, length_applyAll]; exact hlen
  refine (finishDurable_spec hlen').mono ?_ ?_
  · rintro ev w'' ⟨rfl, him, hcap, hcalm⟩
    exact ⟨rfl, by rw [him, ← hnow]; rfl, hcap.trans hw.capsule, hw.calm.trans hcalm⟩
  · rintro w'' ⟨him, hcap, hcalm, hq⟩
    refine ⟨⟨?_, hcap.trans hw.capsule, hw.calm.trans hcalm⟩, fun hq' => hq (hw.calm hq')⟩
    rcases him with him | him
    · rw [him]; exact hw.image
    · rw [him]; exact ⟨hw.image.now, by simp [Medium.flush]⟩

include hlen in
/-- **Prepared writes.** A group ends complete and durable, or it is interrupted by the environment
with some of its bytes written. -/
theorem applyWriteRefs_spec {kind : ExecutionKind} {ps : List (Patch UInt8)}
    (hg : WritableGroup x.identity.imageBytes ps) :
    Prog.Spec (x.applyWriteRefs kind ps) w
      (fun ev w' => (ev.kind = kind ∧ ev.syncDataCompleted = true ∧ ev.syncAllCompleted = true) ∧
        Done ps w w') (w.Torn ps) := by
  refine (applyEach_spec hlen 0 hg.fits hg.disjoint (by simpa using hg.total_lt)).bind ?_
  rintro t w' ⟨hw, hnow⟩
  refine (finishGroup_spec hlen hw hnow).mono ?_ fun _ h => h
  rintro ev w'' ⟨rfl, h⟩
  exact ⟨⟨rfl, rfl, rfl⟩, h⟩

end Writes

/-! ## Relocations -/

/-- The relocations as writes of the bytes their sources hold. -/
def copyPatches (relocations : List Relocation) (image : Bytes) : List (Patch UInt8) :=
  relocations.map fun r => ⟨r.destination.offset, sliceAt image r.source.offset r.source.length⟩

/-- Relocations the executor can carry out as one group. -/
structure CopyableGroup (imageBytes : ℕ) (rs : List Relocation) : Prop where
  source : ∀ r ∈ rs, Fits imageBytes r.source
  destination : ∀ r ∈ rs, Fits imageBytes r.destination
  length : ∀ r ∈ rs, r.source.length = r.destination.length
  disjoint : (rs.map Relocation.destination).Pairwise Span.Disjoint
  apart : ∀ r ∈ rs, ∀ r' ∈ rs, r.destination.Disjoint r'.source
  total_lt : (rs.map fun r => r.source.length).sum < wordBound

section Relocations

variable {x : ImageExecutor} {w : World} (hlen : w.image.now.length = x.identity.imageBytes)

theorem rangesOverlap_ok {a b : ByteRange} (ha : a.stop < wordBound) (hb : b.stop < wordBound) :
    rangesOverlap a b = .ok (decide (a.Overlaps b)) := by
  unfold Span.stop at ha hb
  rw [rangesOverlap, checkedAdd_of_lt ha, checkedAdd_of_lt hb]
  rfl

include hlen in
theorem copyRelocation_spec {index total : ℕ} {r : Relocation}
    (hs : Fits x.identity.imageBytes r.source) (hd : Fits x.identity.imageBytes r.destination)
    (heq : r.source.length = r.destination.length) (hdisj : r.destination.Disjoint r.source)
    (ht : total + r.source.length < wordBound) {p : Patch UInt8}
    (hp : p = ⟨r.destination.offset, sliceAt w.image.now r.source.offset r.source.length⟩) :
    Prog.Spec (x.copyRelocation index total r) w
      (fun _ w' => w.Writes [p] w' ∧ w'.image.now = p.apply w.image.now) (w.Torn [p]) := by
  have hsfit : r.source.offset + r.source.length ≤ w.image.now.length := by
    rw [hlen]; exact hs.stop_le
  have hplen : p.bytes.length = r.source.length := by
    rw [hp]; exact length_sliceAt_of_le hsfit
  have hoff : p.offset = r.destination.offset := by rw [hp]
  have hfit : p.offset + p.bytes.length ≤ x.identity.imageBytes := by
    rw [hoff, hplen, heq]; exact hd.stop_le
  refine (check_spec ⟨heq, hs.nonempty.ne'⟩).bind ?_
  rintro _ _ rfl
  refine (Prog.Spec.lift (Q := fun b w' => b = false ∧ w = w') ?_ ?_).bind ?_
  · intro b hb
    rw [rangesOverlap_ok hs.stop_lt hd.stop_lt, Except.ok.injEq] at hb
    refine ⟨hb ▸ decide_eq_false ?_, rfl⟩
    exact Span.not_overlaps_of_disjoint hs.nonempty hd.nonempty hdisj.symm
  · intro e he
    rw [rangesOverlap_ok hs.stop_lt hd.stop_lt] at he
    cases he
  rintro _ _ ⟨rfl, rfl⟩
  refine (check_spec rfl).bind ?_
  rintro _ _ rfl
  refine (Prog.Spec.lift (Q := fun _ w' => w = w') (fun _ _ => rfl) fun e he => ?_).bind ?_
  · rw [validateRange_ok hs.nonempty hs.stop_lt hs.stop_le] at he; cases he
  rintro _ _ rfl
  refine (Prog.Spec.lift (Q := fun _ w' => w = w') (fun _ _ => rfl) fun e he => ?_).bind ?_
  · rw [validateRange_ok hd.nonempty hd.stop_lt hd.stop_le] at he; cases he
  rintro _ _ rfl
  refine (Prog.Spec.forChunks (Underway w p.offset p.bytes) x.limits.pos ?_
    (Underway.zero w _ _)).mono ?_ fun _ h => h
  · intro relative count w' hc hle hu
    rw [← hplen] at hle
    -- The chunk read is the chunk of the original source, because nothing was written there.
    have hread : sliceAt w'.image.now (r.source.offset + relative) count =
        sliceAt p.bytes relative count := by
      rw [hu.now, sliceAt_overwrite_of_disjoint, hp]
      · exact (sliceAt_sliceAt (by omega)).symm
      · rintro y h1 h2 ⟨h3, h4⟩
        simp only [List.length_take] at h4
        refine hdisj y ⟨by omega, ?_⟩ ⟨by omega, ?_⟩
        · unfold Span.stop; omega
        · unfold Span.stop; omega
    refine waits_bind (R := fun _ _ => True)
      ((ensureSameContainer_spec (hu.length.trans hlen)).mono (fun _ _ h => ⟨h, trivial⟩)
        fun _ h => h) ?_ fun _ h => hu.failed (by omega) h
    intro _ w1 hw1 _
    have hu1 := hu.waits hw1
    refine waits_bind (R := fun b _ => b = sliceAt p.bytes relative count)
      ((readImage_spec _ ?_).mono ?_ fun _ h => h) ?_ fun _ h => hu1.failed (by omega) h
    · rw [hu1.length]; omega
    · rintro b w2 ⟨h2, rfl⟩
      exact ⟨h2, by rw [hw1.image]; exact hread⟩
    rintro _ w2 hw2 rfl
    rw [← hoff]
    exact (hu1.waits hw2).writeVerify hlen hfit hle (by omega)
  · intro _ w' hu
    have hw := hu.writes
    have hnow := hu.now
    rw [← hplen, List.take_length] at hw hnow
    exact ⟨hw, hnow⟩

include hlen in
theorem copyEach_spec (index total : ℕ) {rs : List Relocation}
    (hs : ∀ r ∈ rs, Fits x.identity.imageBytes r.source)
    (hd : ∀ r ∈ rs, Fits x.identity.imageBytes r.destination)
    (heq : ∀ r ∈ rs, r.source.length = r.destination.length)
    (hdisj : (rs.map Relocation.destination).Pairwise Span.Disjoint)
    (hapart : ∀ r ∈ rs, ∀ r' ∈ rs, r.destination.Disjoint r'.source)
    (ht : total + (rs.map fun r => r.source.length).sum < wordBound) :
    Prog.Spec (x.copyEach index total rs) w
      (fun _ w' => w.Writes (copyPatches rs w.image.now) w' ∧
        w'.image.now = applyAll (copyPatches rs w.image.now) w.image.now)
      (w.Torn (copyPatches rs w.image.now)) := by
  induction rs generalizing w index total with
  | nil => exact Prog.Spec.pure ⟨(Waits.refl w).writes _, rfl⟩
  | cons r rs ih =>
    simp only [List.map_cons, List.sum_cons] at ht
    obtain ⟨hdr, hds⟩ := List.pairwise_cons.1 (List.map_cons ▸ hdisj)
    set p : Patch UInt8 :=
      ⟨r.destination.offset, sliceAt w.image.now r.source.offset r.source.length⟩ with hp
    have hplen : p.bytes.length = r.destination.length := by
      rw [← heq r (by simp)]
      exact length_sliceAt_of_le (by rw [hlen]; exact (hs r (by simp)).stop_le)
    have hspan : p.span = r.destination := by
      rw [Patch.span, hplen]
    -- Later sources are not written, so their copies hold the original bytes.
    have hrest : copyPatches rs (p.apply w.image.now) = copyPatches rs w.image.now := by
      refine List.map_congr_left fun r' hr' => ?_
      rw [Patch.apply, sliceAt_overwrite_of_disjoint]
      intro y h1 h2 h3
      refine hapart r (by simp) r' (by simp [hr']) y ?_ ⟨h1, h2⟩
      rw [← hspan]
      exact h3
    have hdisj' : ∀ y ∈ touched [p], y ∉ touched (copyPatches rs w.image.now) := by
      intro y hy hy'
      obtain ⟨q, hq, hyq⟩ := mem_touched.1 hy'
      obtain ⟨r', hr', rfl⟩ := List.mem_map.1 hq
      simp only [mem_touched, List.mem_singleton, exists_eq_left, hspan] at hy
      refine hdr r'.destination (List.mem_map_of_mem hr') y hy ?_
      rw [Patch.mem_span] at hyq
      simp only [length_sliceAt] at hyq
      have := heq r' (by simp [hr'])
      exact ⟨hyq.1, by unfold Span.stop; omega⟩
    refine ((copyRelocation_spec hlen (hs r (by simp)) (hd r (by simp)) (heq r (by simp))
      (hapart r (by simp) r (by simp)) (by omega) hp).mono (fun _ _ h => h) ?_).bind ?_
    · exact fun w' h => ⟨h.1.mono (by simp [copyPatches, hp]), h.2⟩
    rintro _ w' ⟨hw, hnow⟩
    have hlen' : w'.image.now.length = x.identity.imageBytes := by
      rw [hnow, Patch.length_apply]; exact hlen
    have hih := ih hlen' (index + 1) (total + r.source.length) (fun q hq => hs q (by simp [hq]))
      (fun q hq => hd q (by simp [hq])) (fun q hq => heq q (by simp [hq])) hds
      (fun q hq q' hq' => hapart q (by simp [hq]) q' (by simp [hq'])) (by omega)
    rw [hnow, hrest] at hih
    refine hih.mono ?_ ?_
    · rintro t w'' ⟨hw', hnow'⟩
      exact ⟨hw.trans hw' hdisj', hnow'⟩
    · rintro w'' ⟨hw', hq⟩
      exact ⟨hw.trans hw' hdisj', fun hq' => hq (hw.calm hq')⟩

include hlen in
/-- **Relocation copies.** The copies end complete and durable, or they are interrupted by the
environment with some of their bytes written. -/
theorem copyRelocations_spec {rs : List Relocation} (hg : CopyableGroup x.identity.imageBytes rs) :
    Prog.Spec (x.copyRelocations rs) w
      (fun ev w' => (ev.kind = .relocation ∧ ev.syncDataCompleted = true ∧
        ev.syncAllCompleted = true) ∧ Done (copyPatches rs w.image.now) w w')
      (w.Torn (copyPatches rs w.image.now)) := by
  refine (copyEach_spec hlen 0 0 hg.source hg.destination hg.length
    hg.disjoint hg.apart (by simpa using hg.total_lt)).bind ?_
  rintro t w' ⟨hw, hnow⟩
  refine (finishGroup_spec hlen hw hnow).mono ?_ fun _ h => h
  rintro ev w'' ⟨rfl, h⟩
  exact ⟨⟨rfl, rfl, rfl⟩, h⟩

end Relocations

end ImageExecutor

end StarConverter
