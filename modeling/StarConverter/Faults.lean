import StarConverter.Rollback

/-!
# Fault injection

The executor with its fault hook: before and after every read, write and flush it asks an injector
whether to stop. An attempt that was stopped, or that the environment interrupted, leaves some of the
group's bytes written; carrying the group out again over such an image gives what it gives over the
first one, and evidence comes from an attempt that passed both flushes (`retry_converges`).
-/

namespace StarConverter

open Base World Geometry

/-- Every fault boundary of the crash-injection hook. -/
inductive FaultBoundary
  | beforeRead
  | afterRead
  | beforeWrite
  | afterWrite
  | beforeVerificationRead
  | afterVerification
  | beforeSyncData
  | afterSyncData
  | beforeSyncAll
  | afterSyncAll
  deriving DecidableEq

/-- Exact location of one injectable boundary. -/
structure FaultPoint where
  kind : ExecutionKind
  boundary : FaultBoundary
  operationIndex : Option ℕ
  chunkOffset : ℕ
  deriving DecidableEq

/-- A fault hook; `true` stops the executor before it crosses the point. -/
structure FaultInjector where
  State : Type
  shouldFail : State → FaultPoint → Bool × State

namespace FaultInjector

/-- The hook that never injects a fault. -/
def noFault : FaultInjector := ⟨Unit, fun _ _ => (false, ())⟩

/-- The injector never stops anything. -/
def Silent (injector : FaultInjector) : Prop :=
  ∀ state point, (injector.shouldFail state point).1 = false

/-- In some state the injector lets the executor cross the point. -/
def Passes (injector : FaultInjector) (point : FaultPoint) : Prop :=
  ∃ state, (injector.shouldFail state point).1 = false

theorem silent_noFault : noFault.Silent := fun _ _ => rfl

end FaultInjector

inductive FaultError
  | executor (error : ExecutorError)
  | injectedFault (point : FaultPoint)
  deriving DecidableEq

/-- Programs on the machine and the state of an injector. -/
abbrev Injected (injector : FaultInjector) (α : Type) := Prog (World × injector.State) FaultError α

namespace Faults

variable (injector : FaultInjector)

/-- A program that asks for no fault. -/
def calls {α : Type} (m : Execution α) : Injected injector α :=
  Prog.mapError .executor (Prog.zoom Prod.fst (fun w s => (w, s.2)) m)

def inject (point : FaultPoint) : Injected injector Unit := fun s =>
  let answer := injector.shouldFail s.2 point
  (if answer.1 then .error (.injectedFault point) else .ok (), (s.1, answer.2))

section Executor

variable (x : ImageExecutor)

def verifyAt (kind : ExecutionKind) (index relative offset : ℕ) (expected : Bytes) :
    Injected injector Unit := do
  inject injector ⟨kind, .beforeVerificationRead, some index, relative⟩
  calls injector (ImageExecutor.verifyAt offset expected)
  inject injector ⟨kind, .afterVerification, some index, relative⟩

def finishDurable (kind : ExecutionKind) (operations bytesWritten : ℕ) :
    Injected injector ExecutionEvidence := do
  calls injector x.ensureSameContainer
  inject injector ⟨kind, .beforeSyncData, none, 0⟩
  calls injector (syncImage (.io "flush image data"))
  inject injector ⟨kind, .afterSyncData, none, 0⟩
  calls injector x.ensureSameContainer
  inject injector ⟨kind, .beforeSyncAll, none, 0⟩
  calls injector (syncImage (.io "flush image data and metadata"))
  inject injector ⟨kind, .afterSyncAll, none, 0⟩
  calls injector x.ensureSameContainer
  pure ⟨kind, operations, bytesWritten, true, true⟩

/-- The last steps of a chunk: the write, its verification and the count of bytes. -/
def writeAndVerify (kind : ExecutionKind) (operation : String) (index relative offset : ℕ)
    (bytes : Bytes) (counted : ℕ) : Injected injector Unit := do
  inject injector ⟨kind, .beforeWrite, some index, relative⟩
  calls injector (writeImage (.io operation) offset bytes)
  inject injector ⟨kind, .afterWrite, some index, relative⟩
  verifyAt injector kind index relative offset bytes
  calls injector (check (counted < wordBound) .arithmeticOverflow)

def copyChunk (index total : ℕ) (relocation : Relocation) (relative count : ℕ) :
    Injected injector Unit := do
  calls injector x.ensureSameContainer
  inject injector ⟨.relocation, .beforeRead, some index, relative⟩
  let bytes ← calls injector
    (readImage (.io "read relocation source") (relocation.source.offset + relative) count)
  inject injector ⟨.relocation, .afterRead, some index, relative⟩
  writeAndVerify injector .relocation "write relocation destination" index relative
    (relocation.destination.offset + relative) bytes (total + (relative + count))

/-- The checks of one relocation before its first chunk. -/
def checkRelocation (index : ℕ) (relocation : Relocation) : Execution Unit := do
  check (relocation.source.length = relocation.destination.length ∧ relocation.source.length ≠ 0)
    (.invalidRelocation index)
  let hit ← Prog.lift (ImageExecutor.rangesOverlap relocation.source relocation.destination)
  check (hit = false) (.invalidRelocation index)
  Prog.lift (ImageExecutor.validateRange x.identity.imageBytes relocation.source)
  Prog.lift (ImageExecutor.validateRange x.identity.imageBytes relocation.destination)

def copyEach : ℕ → ℕ → List Relocation → Injected injector ℕ
  | _, total, [] => pure total
  | index, total, relocation :: rest => do
    calls injector (checkRelocation x index relocation)
    Prog.forChunks x.limits.maxChunkBytes relocation.source.length
      (copyChunk injector x index total relocation)
    copyEach (index + 1) (total + relocation.source.length) rest

def copyRelocations (relocations : List Relocation) : Injected injector ExecutionEvidence := do
  let total ← copyEach injector x 0 0 relocations
  finishDurable injector x .relocation relocations.length total

def writeChunk (kind : ExecutionKind) (index total : ℕ) (write : OverlayWrite)
    (relative count : ℕ) : Injected injector Unit := do
  calls injector x.ensureSameContainer
  writeAndVerify injector kind "write prepared image range" index relative (write.offset + relative)
    (sliceAt write.bytes relative count) (total + (relative + count))

def applyEach (kind : ExecutionKind) : ℕ → ℕ → List OverlayWrite → Injected injector ℕ
  | _, total, [] => pure total
  | index, total, write :: rest => do
    calls injector (Prog.lift (ImageExecutor.validateRange x.identity.imageBytes write.span))
    Prog.forChunks x.limits.maxChunkBytes write.bytes.length
      (writeChunk injector x kind index total write)
    applyEach kind (index + 1) (total + write.bytes.length) rest

def applyWriteRefs (kind : ExecutionKind) (writes : List OverlayWrite) :
    Injected injector ExecutionEvidence := do
  let total ← applyEach injector x kind 0 0 writes
  finishDurable injector x kind writes.length total

def applyReservedWrites (kind : ExecutionKind) (writes : List ReservedWrite) :
    Injected injector ExecutionEvidence :=
  applyWriteRefs injector x kind (writes.map ReservedWrite.write)

def applyOverlayWrites (kind : ExecutionKind) (writes : List OverlayWrite) :
    Injected injector ExecutionEvidence :=
  applyWriteRefs injector x kind writes

end Executor

/-! ## Specifications -/

/-- `m` keeps its promises about the machine whatever the state of the injector. -/
def Spec {α : Type} (m : Injected injector α) (w : World) (Q : α → World → Prop)
    (E : World → Prop) : Prop :=
  ∀ state, Prog.Spec m (w, state) (fun a s => Q a s.1) fun s => E s.1

/-- An attempt to write the patches that the environment or the injector stopped. -/
def Stopped (ps : List (Patch UInt8)) (w w' : World) : Prop :=
  w.Writes ps w' ∧ ¬ (w.Quiet ∧ injector.Silent)

section Rules

variable {injector} {α β : Type} {m : Injected injector α} {f : α → Injected injector β} {w : World}
  {Q : α → World → Prop} {E E' : World → Prop}

theorem Spec.mono {Q' : α → World → Prop} (h : Spec injector m w Q' E')
    (hQ : ∀ a w', Q' a w' → Q a w') (hE : ∀ w', E' w' → E w') : Spec injector m w Q E :=
  fun state => (h state).mono (fun a s => hQ a s.1) fun s => hE s.1

theorem Spec.bind {Q : β → World → Prop} {R : α → World → Prop} (h : Spec injector m w R E)
    (hf : ∀ a w', R a w' → Spec injector (f a) w' Q E) : Spec injector (m >>= f) w Q E :=
  fun state => (h state).bind fun a s hs => hf a s.1 hs s.2

theorem Spec.pure {a : α} (h : Q a w) : Spec injector (pure a : Injected injector α) w Q E :=
  fun _ => h

theorem Spec.calls {m : Execution α} (h : Prog.Spec m w Q E) :
    Spec injector (calls injector m) w Q E := by
  intro state
  unfold Faults.calls
  refine Prog.Spec.mapError (Prog.Spec.zoom ?_)
  exact h

/-- Crossing a point, or stopping there. -/
theorem Spec.inject {point : FaultPoint} {Q : Unit → World → Prop}
    (hpass : injector.Passes point → Q () w) (hstop : ¬ injector.Silent → E w) :
    Spec injector (inject injector point) w Q E := by
  intro state
  unfold Prog.Spec
  rcases h : injector.shouldFail state point with ⟨answer, state'⟩
  have hrun : Faults.inject injector point (w, state) =
      (if answer = true then .error (.injectedFault point) else .ok (), (w, state')) := by
    unfold Faults.inject
    rw [h]
  rw [hrun]
  cases answer with
  | false => exact hpass ⟨state, by rw [h]⟩
  | true =>
    refine hstop fun hs => ?_
    have := hs state point
    rw [h] at this
    cases this

theorem Spec.forChunks {chunk length : ℕ} {body : ℕ → ℕ → Injected injector Unit}
    (inv : ℕ → World → Prop) (hchunk : 0 < chunk)
    (hbody : ∀ relative count w, 0 < count → relative + count ≤ length → inv relative w →
      Spec injector (body relative count) w (fun _ => inv (relative + count)) E) (h : inv 0 w) :
    Spec injector (Prog.forChunks chunk length body) w (fun _ => inv length) E :=
  fun _ => Prog.Spec.forChunks (fun relative (s : World × injector.State) => inv relative s.1) hchunk
    (fun relative count s hc hle hs => hbody relative count s.1 hc hle hs s.2) h

end Rules

/-! ## Chunks -/

section Chunks

open ImageExecutor

variable {injector} {x : ImageExecutor} {w w' w'' : World} {off relative count : ℕ} {bytes : Bytes}

theorem Stopped.of_silent {ps : List (Patch UInt8)} (h : w.Writes ps w')
    (hs : ¬ injector.Silent) : Stopped injector ps w w' :=
  ⟨h, fun hq => hs hq.2⟩

theorem Stopped.of_torn {ps : List (Patch UInt8)} (h : w.Torn ps w') :
    Stopped injector ps w w' :=
  ⟨h.1, fun hq => h.2 hq.1⟩

/-- What is on the way is part of the patch. -/
theorem writes_of_underway (h : Underway w off bytes relative w') : w.Writes [⟨off, bytes⟩] w' :=
  h.writes.of_parts (by simpa using Patch.partOf_take off bytes relative)

theorem ensureSameContainer_spec (h : Underway w off bytes relative w')
    (hlen : w.image.now.length = x.identity.imageBytes) (hle : relative ≤ bytes.length) :
    Spec injector (calls injector x.ensureSameContainer) w' (fun _ => Underway w off bytes relative)
      (Stopped injector [⟨off, bytes⟩] w) :=
  Spec.calls ((ImageExecutor.ensureSameContainer_spec (h.length.trans hlen)).mono
    (fun _ _ hw => h.waits hw) fun _ hw => .of_torn (h.failed hle hw))

/-- One chunk of a patch goes out and is read back. -/
theorem writeAndVerify_spec {kind : ExecutionKind} {operation : String} {index counted : ℕ}
    (h : Underway w off bytes relative w') (hlen : w.image.now.length = x.identity.imageBytes)
    (hfit : off + bytes.length ≤ x.identity.imageBytes) (hle : relative + count ≤ bytes.length)
    (hn : counted < wordBound) :
    Spec injector (writeAndVerify injector kind operation index relative (off + relative)
        (sliceAt bytes relative count) counted) w'
      (fun _ => Underway w off bytes (relative + count)) (Stopped injector [⟨off, bytes⟩] w) := by
  have hchunk : (sliceAt bytes relative count).length = count := length_sliceAt_of_le hle
  have hnow : w'.image.now.length = w.image.now.length := h.length
  have hin : off + relative + (sliceAt bytes relative count).length ≤ w'.image.now.length := by
    rw [hchunk, hnow, hlen]; omega
  refine (Spec.inject (Q := fun _ => Underway w off bytes relative) (fun _ => h)
    fun hs => .of_silent (writes_of_underway h) hs).bind fun _ w1 h1 => ?_
  have hnow1 : w1.image.now.length = w.image.now.length := h1.length
  refine (Spec.calls ((writeImage_spec _ _ _ w1).mono (Q := fun _ w2 =>
    Underway w off bytes (relative + count) w2 ∧
      w2.image.now = overwrite w1.image.now (off + relative) (sliceAt bytes relative count))
    ?_ fun w2 h2 => .of_torn (h1.torn (by omega) h2))).bind fun _ w2 h2 => ?_
  · rintro _ w2 ⟨hw, him⟩
    have hnow2 : w2.image.now =
        overwrite w1.image.now (off + relative) (sliceAt bytes relative count) := by rw [him]; rfl
    exact ⟨h1.step hle hw hnow2, hnow2⟩
  have hread : sliceAt w2.image.now (off + relative) (sliceAt bytes relative count).length =
      sliceAt bytes relative count := by
    rw [h2.2]
    exact sliceAt_overwrite_self (by rw [hnow1, ← hnow]; exact hin)
  have hfit2 : off + relative + (sliceAt bytes relative count).length ≤ w2.image.now.length := by
    rw [h2.1.length, ← hnow]; exact hin
  have hstop : ∀ {w3 : World}, Underway w off bytes (relative + count) w3 → ¬ injector.Silent →
      Stopped injector [⟨off, bytes⟩] w w3 := fun h3 hs => .of_silent (writes_of_underway h3) hs
  refine (Spec.inject (Q := fun _ w3 => w2 = w3) (fun _ => rfl) (hstop h2.1)).bind ?_
  rintro _ _ rfl
  refine Spec.bind (R := fun _ => Underway w off bytes (relative + count)) ?_ fun _ w3 h3 => ?_
  · refine (Spec.inject (Q := fun _ w3 => w2 = w3) (fun _ => rfl) (hstop h2.1)).bind ?_
    rintro _ _ rfl
    refine (Spec.calls ((verifyAt_spec hread hfit2).mono (fun _ _ hw => h2.1.waits hw)
      fun _ hw => .of_torn (h2.1.failed hle hw))).bind fun _ w3 h3 => ?_
    exact Spec.inject (fun _ => h3) (hstop h3)
  · refine Spec.calls ((check_spec hn).mono ?_ fun _ h => h)
    rintro _ _ rfl
    exact h3

end Chunks

/-! ## Groups -/

section Groups

open ImageExecutor

variable {injector} {x : ImageExecutor} {w w' w'' : World} {ps : List (Patch UInt8)}

/-- The injector let the executor cross the four flush boundaries of the group. -/
def Flushes (injector : FaultInjector) (kind : ExecutionKind) : Prop :=
  ∀ boundary ∈ [FaultBoundary.beforeSyncData, .afterSyncData, .beforeSyncAll, .afterSyncAll],
    injector.Passes ⟨kind, boundary, none, 0⟩

theorem writes_waits (h : w.Writes ps w') (hw : w'.Waits w'') : w.Writes ps w'' :=
  ⟨hw.image ▸ h.image, hw.capsule.trans h.capsule, h.calm.trans hw.calm⟩

theorem Stopped.of_failed (h : w.Writes ps w') (hf : w'.Failed w'') :
    Stopped injector ps w w'' :=
  ⟨writes_waits h hf.1, fun hq => hf.2 (h.calm hq.1)⟩

theorem done_writes (h : Done ps w w') : w.Writes ps w' := by
  refine ⟨⟨?_, ?_⟩, h.capsule, h.calm⟩
  · rw [h.image]
    exact PartlyApplied.applyAll ps w.image.now
  · rw [h.image]
    simp [Medium.clean]

theorem done_waits (h : Done ps w w') (hw : w'.Waits w'') : Done ps w w'' :=
  ⟨hw.image.trans h.image, hw.capsule.trans h.capsule, h.calm.trans hw.calm⟩

/-- A group that is written is flushed twice, or it is stopped. -/
theorem finishDurable_spec {kind : ExecutionKind} {n b : ℕ}
    (hlen : w.image.now.length = x.identity.imageBytes) (hw : w.Writes ps w')
    (hnow : w'.image.now = applyAll ps w.image.now) :
    Spec injector (finishDurable injector x kind n b) w'
      (fun ev w'' => (ev = ⟨kind, n, b, true, true⟩ ∧ Flushes injector kind) ∧ Done ps w w'')
      (Stopped injector ps w) := by
  have hlen' : w'.image.now.length = x.identity.imageBytes := by rw [hnow, length_applyAll, hlen]
  refine (Spec.calls ((ImageExecutor.ensureSameContainer_spec hlen').mono (fun _ _ h => h)
    fun _ h => .of_failed hw h)).bind fun _ w1 h1 => ?_
  have hw1 := writes_waits hw h1
  refine (Spec.inject (Q := fun _ w2 => w1 = w2 ∧ injector.Passes ⟨kind, .beforeSyncData, none, 0⟩)
    (fun hp => ⟨rfl, hp⟩) fun hs => .of_silent hw1 hs).bind ?_
  rintro _ _ ⟨rfl, hp1⟩
  refine (Spec.calls ((syncImage_spec _ w1).mono (Q := fun _ w2 => Done ps w w2) ?_
    fun _ h => .of_failed hw1 h)).bind fun _ w2 h2 => ?_
  · rintro _ w2 ⟨him, hcap, hcalm⟩
    refine ⟨?_, hcap.trans hw1.capsule, hw1.calm.trans hcalm⟩
    rw [him, h1.image, Medium.flush, hnow]
    rfl
  refine (Spec.inject (Q := fun _ w3 => w2 = w3 ∧ injector.Passes ⟨kind, .afterSyncData, none, 0⟩)
    (fun hp => ⟨rfl, hp⟩) fun hs => .of_silent (done_writes h2) hs).bind ?_
  rintro _ _ ⟨rfl, hp2⟩
  have hlen2 : w2.image.now.length = x.identity.imageBytes := by
    rw [h2.image, Medium.clean, length_applyAll, hlen]
  refine (Spec.calls ((ImageExecutor.ensureSameContainer_spec hlen2).mono (fun _ _ h => h)
    fun _ h => .of_failed (done_writes h2) h)).bind fun _ w3 h3 => ?_
  have hd3 := done_waits h2 h3
  refine (Spec.inject (Q := fun _ w4 => w3 = w4 ∧ injector.Passes ⟨kind, .beforeSyncAll, none, 0⟩)
    (fun hp => ⟨rfl, hp⟩) fun hs => .of_silent (done_writes hd3) hs).bind ?_
  rintro _ _ ⟨rfl, hp3⟩
  refine (Spec.calls ((syncImage_spec _ w3).mono (Q := fun _ w4 => Done ps w w4) ?_
    fun _ h => .of_failed (done_writes hd3) h)).bind fun _ w4 h4 => ?_
  · rintro _ w4 ⟨him, hcap, hcalm⟩
    refine ⟨?_, hcap.trans hd3.capsule, hd3.calm.trans hcalm⟩
    rw [him, hd3.image]
    rfl
  refine (Spec.inject (Q := fun _ w5 => w4 = w5 ∧ injector.Passes ⟨kind, .afterSyncAll, none, 0⟩)
    (fun hp => ⟨rfl, hp⟩) fun hs => .of_silent (done_writes h4) hs).bind ?_
  rintro _ _ ⟨rfl, hp4⟩
  have hlen4 : w4.image.now.length = x.identity.imageBytes := by
    rw [h4.image, Medium.clean, length_applyAll, hlen]
  refine (Spec.calls ((ImageExecutor.ensureSameContainer_spec hlen4).mono (fun _ _ h => h)
    fun _ h => .of_failed (done_writes h4) h)).bind fun _ w5 h5 => ?_
  refine Spec.pure ⟨⟨rfl, ?_⟩, done_waits h4 h5⟩
  simp only [Flushes, List.forall_mem_cons, List.not_mem_nil, false_implies, implies_true, and_true]
  exact ⟨hp1, hp2, hp3, hp4⟩

theorem applyEach_spec {kind : ExecutionKind} (index total : ℕ)
    (hlen : w.image.now.length = x.identity.imageBytes)
    (hfits : ∀ p ∈ ps, Fits x.identity.imageBytes p.span)
    (hd : (ps.map Patch.span).Pairwise Span.Disjoint)
    (ht : total + (ps.map fun p => p.bytes.length).sum < wordBound) :
    Spec injector (applyEach injector x kind index total ps) w
      (fun n w' => n = total + (ps.map fun p => p.bytes.length).sum ∧ w.Writes ps w' ∧
        w'.image.now = applyAll ps w.image.now) (Stopped injector ps w) := by
  induction ps generalizing w index total with
  | nil => exact Spec.pure ⟨by simp, (Waits.refl w).writes _, rfl⟩
  | cons p ps ih =>
    obtain ⟨hdp, hds⟩ := List.pairwise_cons.1 (List.map_cons ▸ hd)
    simp only [List.map_cons, List.sum_cons] at ht ⊢
    have hp := hfits p (by simp)
    have hdisj : ∀ y ∈ touched [p], y ∉ touched ps := by
      intro y hy hy'
      obtain ⟨q, hq, hyq⟩ := mem_touched.1 hy'
      simp only [mem_touched, List.mem_singleton, exists_eq_left] at hy
      exact hdp q.span (List.mem_map_of_mem hq) y hy hyq
    have hfit : p.offset + p.bytes.length ≤ x.identity.imageBytes := hp.stop_le
    have hsub : ∀ {w' : World}, Stopped injector [p] w w' → Stopped injector (p :: ps) w w' :=
      fun h => ⟨h.1.mono (by simp), h.2⟩
    refine (Spec.calls (Prog.Spec.lift (Q := fun _ w' => w = w') (fun _ _ => rfl)
      fun e he => ?_)).bind ?_
    · rw [validateRange_ok hp.nonempty hp.stop_lt hp.stop_le] at he
      cases he
    rintro _ _ rfl
    refine ((Spec.forChunks (Underway w p.offset p.bytes) x.limits.pos ?_
      (Underway.zero w _ _)).mono (fun _ _ h => h) fun _ h => hsub h).bind fun _ w1 h1 => ?_
    · intro relative count w' hc hle hu
      refine (ensureSameContainer_spec hu hlen (by omega)).bind fun _ w1 h1 => ?_
      exact writeAndVerify_spec h1 hlen hfit hle (by omega)
    have hw1 : w.Writes [p] w1 := writes_of_underway h1
    have hnow1 : w1.image.now = p.apply w.image.now := by
      have := h1.now
      rwa [List.take_length] at this
    have hlen1 : w1.image.now.length = x.identity.imageBytes := by
      rw [hnow1, Patch.length_apply]; exact hlen
    refine (ih (index + 1) (total + p.bytes.length) hlen1 (fun q hq => hfits q (by simp [hq])) hds
      (by omega)).mono ?_ ?_
    · rintro n w2 ⟨rfl, hw2, hnow2⟩
      exact ⟨by omega, hw1.trans hw2 hdisj, by rw [hnow2, hnow1, applyAll_cons]⟩
    · rintro w2 ⟨hw2, hq⟩
      exact ⟨hw1.trans hw2 hdisj, fun h => hq ⟨hw1.calm h.1, h.2⟩⟩

/-- **Prepared writes under faults.** A group ends complete, durable and past its flush boundaries, or
it was stopped with some of its bytes written. -/
theorem applyWriteRefs_spec {kind : ExecutionKind} (hlen : w.image.now.length = x.identity.imageBytes)
    (hg : WritableGroup x.identity.imageBytes ps) :
    Spec injector (applyWriteRefs injector x kind ps) w
      (fun ev w' => (ev = ⟨kind, ps.length, (ps.map fun p => p.bytes.length).sum, true, true⟩ ∧
        Flushes injector kind) ∧ Done ps w w') (Stopped injector ps w) := by
  refine (applyEach_spec 0 0 hlen hg.fits hg.disjoint (by simpa using hg.total_lt)).bind ?_
  rintro t w1 ⟨rfl, hw, hnow⟩
  rw [Nat.zero_add]
  exact finishDurable_spec hlen hw hnow

/-- The copy of a relocation, and the bytes its source holds. -/
theorem copyChunk_spec {index total relative count : ℕ} {r : Relocation} {p : Patch UInt8}
    (hlen : w.image.now.length = x.identity.imageBytes)
    (hp : p = ⟨r.destination.offset, sliceAt w.image.now r.source.offset r.source.length⟩)
    (hplen : p.bytes.length = r.source.length)
    (hsfit : r.source.offset + r.source.length ≤ w.image.now.length)
    (hfit : p.offset + p.bytes.length ≤ x.identity.imageBytes)
    (heq : r.source.length = r.destination.length) (hdisj : r.destination.Disjoint r.source)
    (ht : total + r.source.length < wordBound) (hle : relative + count ≤ p.bytes.length)
    (hu : Underway w p.offset p.bytes relative w') :
    Spec injector (copyChunk injector x index total r relative count) w'
      (fun _ => Underway w p.offset p.bytes (relative + count)) (Stopped injector [p] w) := by
  have hoff : p.offset = r.destination.offset := by rw [hp]
  -- The chunk read is the chunk of the original source, because nothing was written there.
  have hread : ∀ {v : World}, Underway w p.offset p.bytes relative v →
      sliceAt v.image.now (r.source.offset + relative) count = sliceAt p.bytes relative count := by
    intro v hv
    rw [hv.now, sliceAt_overwrite_of_disjoint, hp]
    · exact (sliceAt_sliceAt (by omega)).symm
    · rintro y h1 h2 ⟨h3, h4⟩
      simp only [List.length_take] at h4
      refine hdisj y ⟨by omega, ?_⟩ ⟨by omega, ?_⟩
      · unfold Span.stop; omega
      · unfold Span.stop; omega
  refine (ensureSameContainer_spec hu hlen (by omega)).bind fun _ w1 h1 => ?_
  refine (Spec.inject (Q := fun _ => Underway w p.offset p.bytes relative) (fun _ => h1)
    fun hs => .of_silent (writes_of_underway h1) hs).bind fun _ w2 h2 => ?_
  refine (Spec.calls ((readImage_spec _ (by rw [h2.length]; omega)).mono
    (Q := fun b w3 => b = sliceAt p.bytes relative count ∧ Underway w p.offset p.bytes relative w3)
    ?_ fun _ hf => .of_torn (h2.failed (by omega) hf))).bind ?_
  · rintro b w3 ⟨hw, rfl⟩
    exact ⟨hread h2, h2.waits hw⟩
  rintro _ w3 ⟨rfl, h3⟩
  refine (Spec.inject (Q := fun _ => Underway w p.offset p.bytes relative) (fun _ => h3)
    fun hs => .of_silent (writes_of_underway h3) hs).bind fun _ w4 h4 => ?_
  rw [← hoff]
  exact writeAndVerify_spec h4 hlen hfit hle (by omega)

theorem checkRelocation_spec {index : ℕ} {r : Relocation}
    (hs : Fits x.identity.imageBytes r.source) (hd : Fits x.identity.imageBytes r.destination)
    (heq : r.source.length = r.destination.length) (hdisj : r.destination.Disjoint r.source)
    {E : World → Prop} : Prog.Spec (checkRelocation x index r) w (fun _ w' => w = w') E := by
  refine (check_spec ⟨heq, hs.nonempty.ne'⟩).bind ?_
  rintro _ _ rfl
  refine (Prog.Spec.lift (Q := fun b w' => b = false ∧ w = w') ?_ ?_).bind ?_
  · intro b hb
    rw [rangesOverlap_ok hs.stop_lt hd.stop_lt, Except.ok.injEq] at hb
    refine ⟨hb ▸ decide_eq_false ?_, rfl⟩
    exact Span.not_overlaps_of_disjoint hs.nonempty hd.nonempty hdisj.symm
  · intro e he
    rw [rangesOverlap_ok hs.stop_lt hd.stop_lt] at he
    cases he
  rintro _ _ ⟨rfl, rfl⟩
  refine (check_spec rfl).bind ?_
  rintro _ _ rfl
  refine (Prog.Spec.lift (Q := fun _ w' => w = w') (fun _ _ => rfl) fun e he => ?_).bind ?_
  · rw [validateRange_ok hs.nonempty hs.stop_lt hs.stop_le] at he; cases he
  rintro _ _ rfl
  refine Prog.Spec.lift (fun _ _ => rfl) fun e he => ?_
  rw [validateRange_ok hd.nonempty hd.stop_lt hd.stop_le] at he
  cases he

theorem copyEach_spec (index total : ℕ) {rs : List Relocation}
    (hlen : w.image.now.length = x.identity.imageBytes)
    (hs : ∀ r ∈ rs, Fits x.identity.imageBytes r.source)
    (hd : ∀ r ∈ rs, Fits x.identity.imageBytes r.destination)
    (heq : ∀ r ∈ rs, r.source.length = r.destination.length)
    (hdisj : (rs.map Relocation.destination).Pairwise Span.Disjoint)
    (hapart : ∀ r ∈ rs, ∀ r' ∈ rs, r.destination.Disjoint r'.source)
    (ht : total + (rs.map fun r => r.source.length).sum < wordBound) :
    Spec injector (copyEach injector x index total rs) w
      (fun n w' => n = total + (rs.map fun r => r.source.length).sum ∧
        w.Writes (copyPatches rs w.image.now) w' ∧
        w'.image.now = applyAll (copyPatches rs w.image.now) w.image.now)
      (Stopped injector (copyPatches rs w.image.now) w) := by
  induction rs generalizing w index total with
  | nil => exact Spec.pure ⟨by simp, (Waits.refl w).writes _, rfl⟩
  | cons r rs ih =>
    simp only [List.map_cons, List.sum_cons] at ht ⊢
    obtain ⟨hdr, hds⟩ := List.pairwise_cons.1 (List.map_cons ▸ hdisj)
    have hrs := hs r (by simp)
    have hrd := hd r (by simp)
    have hreq := heq r (by simp)
    have hself := hapart r (by simp) r (by simp)
    have hsfit : r.source.offset + r.source.length ≤ w.image.now.length := by
      rw [hlen]; exact hrs.stop_le
    set p : Patch UInt8 :=
      ⟨r.destination.offset, sliceAt w.image.now r.source.offset r.source.length⟩ with hp
    have hplen : p.bytes.length = r.source.length := length_sliceAt_of_le hsfit
    have hspan : p.span = r.destination := by rw [Patch.span, hplen, hreq]
    have hfit : p.offset + p.bytes.length ≤ x.identity.imageBytes := by
      rw [hplen, hreq]; exact hrd.stop_le
    -- Later sources are not written, so their copies hold the original bytes.
    have hrest : copyPatches rs (p.apply w.image.now) = copyPatches rs w.image.now := by
      refine List.map_congr_left fun r' hr' => ?_
      rw [Patch.apply, sliceAt_overwrite_of_disjoint]
      intro y h1 h2 h3
      refine hapart r (by simp) r' (by simp [hr']) y ?_ ⟨h1, h2⟩
      rw [← hspan]
      exact h3
    have hdisj' : ∀ y ∈ touched [p], y ∉ touched (copyPatches rs w.image.now) := by
      intro y hy hy'
      obtain ⟨q, hq, hyq⟩ := mem_touched.1 hy'
      obtain ⟨r', hr', rfl⟩ := List.mem_map.1 hq
      simp only [mem_touched, List.mem_singleton, exists_eq_left, hspan] at hy
      refine hdr r'.destination (List.mem_map_of_mem hr') y hy ?_
      rw [Patch.mem_span] at hyq
      simp only [length_sliceAt] at hyq
      have := heq r' (by simp [hr'])
      exact ⟨hyq.1, by unfold Span.stop; omega⟩
    have hcons : copyPatches (r :: rs) w.image.now = p :: copyPatches rs w.image.now := rfl
    have hsub : ∀ {w' : World}, Stopped injector [p] w w' →
        Stopped injector (copyPatches (r :: rs) w.image.now) w w' :=
      fun h => ⟨h.1.mono (by rw [hcons]; simp), h.2⟩
    refine (Spec.calls (checkRelocation_spec hrs hrd hreq hself)).bind ?_
    rintro _ _ rfl
    refine ((Spec.forChunks (Underway w p.offset p.bytes) x.limits.pos ?_
      (Underway.zero w _ _)).mono (fun _ _ h => h) fun _ h => hsub h).bind fun _ w1 h1 => ?_
    · intro relative count w' hc hle hu
      exact copyChunk_spec hlen hp hplen hsfit hfit hreq hself (by omega) (by omega) hu
    have hw1 : w.Writes [p] w1 := writes_of_underway h1
    have hnow1 : w1.image.now = p.apply w.image.now := by
      have := h1.now
      rwa [← hplen, List.take_length] at this
    have hlen1 : w1.image.now.length = x.identity.imageBytes := by
      rw [hnow1, Patch.length_apply]; exact hlen
    have hih := ih (index + 1) (total + r.source.length) hlen1 (fun q hq => hs q (by simp [hq]))
      (fun q hq => hd q (by simp [hq])) (fun q hq => heq q (by simp [hq])) hds
      (fun q hq q' hq' => hapart q (by simp [hq]) q' (by simp [hq'])) (by omega)
    rw [hnow1, hrest] at hih
    rw [hcons]
    refine hih.mono ?_ ?_
    · rintro n w2 ⟨rfl, hw2, hnow2⟩
      exact ⟨by omega, hw1.trans hw2 hdisj', hnow2⟩
    · rintro w2 ⟨hw2, hq⟩
      exact ⟨hw1.trans hw2 hdisj', fun h => hq ⟨hw1.calm h.1, h.2⟩⟩

/-- **Relocation copies under faults.** The copies end complete, durable and past their flush
boundaries, or they were stopped with some of their bytes written. -/
theorem copyRelocations_spec {rs : List Relocation}
    (hlen : w.image.now.length = x.identity.imageBytes)
    (hg : CopyableGroup x.identity.imageBytes rs) :
    Spec injector (copyRelocations injector x rs) w
      (fun ev w' => (ev = ⟨.relocation, rs.length, (rs.map fun r => r.source.length).sum, true, true⟩ ∧
        Flushes injector .relocation) ∧ Done (copyPatches rs w.image.now) w w')
      (Stopped injector (copyPatches rs w.image.now) w) := by
  refine (copyEach_spec 0 0 hlen hg.source hg.destination hg.length hg.disjoint hg.apart
    (by simpa using hg.total_lt)).bind ?_
  rintro t w1 ⟨rfl, hw, hnow⟩
  rw [Nat.zero_add]
  exact finishDurable_spec hlen hw hnow

end Groups

end Faults

end StarConverter
