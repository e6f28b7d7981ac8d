import StarConverter.Conversion.Sealed

/-!
# Rollback authority

`executeRollback` restores only the writes of one of three overlays of the plan. The plan emits a
fourth one, for a durable reservation with relocations to undo, and that one is refused
(`executeRollback_avoids_iff`).
-/

namespace StarConverter

open Base World Geometry Capsule Recovery Conversion

namespace ImageExecutor

variable (H : Hashing) (x : ImageExecutor) (p : PreparedConversion)

/-- The string of the executor's `overlay_digest`. -/
def overlayText (writes : List OverlayWrite) : Bytes :=
  ascii "starconverter-overlay-writes-v1" ++
    ((sortByKey Patch.offset writes).map fun write =>
      toLe 8 write.offset ++ toLe 8 write.bytes.length ++ write.bytes).flatten

def overlayDigest (writes : List OverlayWrite) : Digest := H.sha256 (overlayText writes)

/-- The overlays a rollback may restore. -/
def authorizedRollbacks : List (List OverlayWrite) :=
  [p.stagingRollbackOverlay.writes, p.preactivationRollbackOverlay.writes,
    p.fullRollbackOverlay.writes]

def applyOverlayWrites (kind : ExecutionKind) (writes : List OverlayWrite) :
    Execution ExecutionEvidence :=
  x.applyWriteRefs kind writes

instance (writes : List OverlayWrite) (digest : Digest) :
    Decidable (writes ∈ authorizedRollbacks p ∧ overlayDigest H writes = digest) :=
  inferInstanceAs (Decidable (_ ∧ _))

/-- Restores nothing, or the writes of an authorized overlay. -/
def runRollback : RollbackIntent → Execution (RollbackOutcome × Option Digest)
  | .discardStaging => pure (.stagingDiscarded, none)
  | .restoreSource writes digest => do
    check (writes ∈ authorizedRollbacks p ∧ overlayDigest H writes = digest) .intentNotAuthorized
    let evidence ← x.applyOverlayWrites .rollback writes
    pure (.sourceRestored evidence, some digest)

def executeRollback (intent : RollbackIntent) : Execution ExecutedRollback := do
  check (p.preflight.image = x.identity) .planImageMismatch
  let done ← x.runRollback H p intent
  pure ⟨done.1, p.planDigest, x.identity.imageInstance, done.2⟩

/-! ## Errors of a group of writes -/

section Avoids

variable {x : ImageExecutor} {α : Type}

theorem tick_avoids {e e' : ExecutorError} (h : e ≠ e') :
    Prog.Avoids (tick e) e' := by
  intro w hw
  unfold tick at hw
  split at hw
  · cases hw
  · exact h (Outcome.error.inj hw)
  · cases hw

theorem check_avoids {c : Prop} [Decidable c] {e e' : ExecutorError} (h : e ≠ e') :
    Prog.Avoids (check c e) e' := by
  refine Prog.Avoids.lift fun hc => ?_
  unfold ensure at hc
  split_ifs at hc
  exact h (Except.error.inj hc)

theorem readImage_avoids {e e' : ExecutorError} {offset length : ℕ} (h : e ≠ e') :
    Prog.Avoids (readImage e offset length) e' :=
  (tick_avoids h).bind fun _ => Prog.Avoids.get.bind fun _ =>
    (check_avoids h).bind fun _ => Prog.Avoids.pure _

theorem writeImage_avoids {e e' : ExecutorError} {offset : ℕ} {bytes : Bytes} (h : e ≠ e') :
    Prog.Avoids (writeImage e offset bytes) e' := by
  intro w hw
  unfold writeImage at hw
  split at hw
  · cases hw
  · exact h (Outcome.error.inj hw)
  · cases hw

theorem syncImage_avoids {e e' : ExecutorError} (h : e ≠ e') : Prog.Avoids (syncImage e) e' :=
  (tick_avoids h).bind fun _ => Prog.Avoids.modify _

theorem ensureSameContainer_avoids :
    Prog.Avoids x.ensureSameContainer .intentNotAuthorized := by
  refine (tick_avoids (by simp)).bind fun _ => (tick_avoids (by simp)).bind fun _ =>
    Prog.Avoids.get.bind fun _ => (check_avoids (by simp)).bind fun _ =>
    (tick_avoids (by simp)).bind fun _ => (tick_avoids (by simp)).bind fun _ =>
    (tick_avoids (by simp)).bind fun _ => tick_avoids (by simp)

theorem writeChunk_avoids {total relative count : ℕ} {write : OverlayWrite} :
    Prog.Avoids (x.writeChunk total write relative count) .intentNotAuthorized := by
  refine ensureSameContainer_avoids.bind fun _ => (writeImage_avoids (by simp)).bind fun _ => ?_
  refine Prog.Avoids.bind ?_ fun _ => check_avoids (by simp)
  exact (readImage_avoids (by simp)).bind fun _ => check_avoids (by simp)

theorem applyWrite_avoids {total : ℕ} {write : OverlayWrite} :
    Prog.Avoids (x.applyWrite total write) .intentNotAuthorized := by
  refine Prog.Avoids.bind (Prog.Avoids.lift fun h => ?_) fun _ =>
    Prog.Avoids.forChunks fun _ _ => writeChunk_avoids
  unfold validateRange at h
  cases hstop : checkedAdd write.span.offset write.span.length with
  | none =>
    rw [hstop] at h
    cases h
  | some stop =>
    rw [hstop, orErr_some, ok_bind, ensure] at h
    split_ifs at h
    cases h

theorem applyEach_avoids {total : ℕ} {writes : List OverlayWrite} :
    Prog.Avoids (x.applyEach total writes) .intentNotAuthorized := by
  induction writes generalizing total with
  | nil => exact Prog.Avoids.pure _
  | cons write rest ih => exact applyWrite_avoids.bind fun _ => ih

/-- A group of writes fails for its own reasons only. -/
theorem applyOverlayWrites_avoids {kind : ExecutionKind} {writes : List OverlayWrite} :
    Prog.Avoids (x.applyOverlayWrites kind writes) .intentNotAuthorized :=
  applyEach_avoids.bind fun _ => ensureSameContainer_avoids.bind fun _ =>
    (syncImage_avoids (by simp)).bind fun _ => ensureSameContainer_avoids.bind fun _ =>
    (syncImage_avoids (by simp)).bind fun _ => ensureSameContainer_avoids.bind fun _ =>
    Prog.Avoids.pure _

end Avoids

/-- Unless it is the authority that is missing, a rollback fails for other reasons only. -/
theorem executeRollback_avoids {x : ImageExecutor} {intent : RollbackIntent}
    (h : ∀ writes digest, intent = .restoreSource writes digest →
      writes ∈ authorizedRollbacks p ∧ overlayDigest H writes = digest) :
    Prog.Avoids (x.executeRollback H p intent) .intentNotAuthorized := by
  refine (check_avoids (by simp)).bind fun _ => Prog.Avoids.bind ?_ fun _ => Prog.Avoids.pure _
  cases intent with
  | discardStaging => exact Prog.Avoids.pure _
  | restoreSource writes digest =>
    refine Prog.Avoids.bind (Prog.Avoids.lift ?_) fun _ =>
      applyOverlayWrites_avoids.bind fun _ => Prog.Avoids.pure _
    rw [ensure_of (h writes digest rfl)]
    simp

/-- Writes of no authorized overlay are refused by the executor of the plan's image. -/
theorem executeRollback_refuses {intent : RollbackIntent} {writes : List OverlayWrite}
    {digest : Digest} (hi : intent = .restoreSource writes digest)
    (hw : writes ∉ authorizedRollbacks p) (hx : p.preflight.image = x.identity) (w : World) :
    x.executeRollback H p intent w = (.error .intentNotAuthorized, w) := by
  subst hi
  have h1 : check (p.preflight.image = x.identity) ExecutorError.planImageMismatch w =
      (.ok (), w) := by
    simp only [check, Prog.lift, ensure_of hx]
  have h2 : check (writes ∈ authorizedRollbacks p ∧ overlayDigest H writes = digest)
      ExecutorError.intentNotAuthorized w = (.error .intentNotAuthorized, w) := by
    simp only [check, Prog.lift, ensure, hw, false_and, if_false]
  have hrun : x.runRollback H p (.restoreSource writes digest) w =
      (.error .intentNotAuthorized, w) := Prog.bind_of_error h2
  rw [executeRollback, Prog.bind_of_ok h1]
  exact Prog.bind_of_error hrun

end ImageExecutor

namespace PreparedConversion

open ImageExecutor

variable {H : Hashing} {p : PreparedConversion}

/-- Both digests of a list of writes are the same. -/
theorem overlayDigest_eq (writes : List OverlayWrite) :
    overlayDigest H writes = digestOverlayWrites H writes := by
  have htext : overlayText writes = overlayWritesText writes := by
    simp only [overlayText, overlayWritesText, putBytes, putU64, List.append_assoc]
  rw [overlayDigest, digestOverlayWrites, htext]

/-- What the rollback of a phase needs of a built plan. -/
structure RollsBack (H : Hashing) (p : PreparedConversion) : Prop where
  staging_digest : p.stagingRollbackDigest = digestOverlayWrites H p.stagingRollbackOverlay.writes
  preactivation_digest :
    p.preactivationRollbackDigest = digestOverlayWrites H p.preactivationRollbackOverlay.writes
  full_digest : p.fullRollbackDigest = digestOverlayWrites H p.fullRollbackOverlay.writes
  relocation_length : p.relocationRollbackOverlay.writes.length < p.stagingRollbackOverlay.writes.length
  staging_length : p.stagingRollbackOverlay.writes.length ≤ p.preactivationRollbackOverlay.writes.length
  preactivation_length :
    p.preactivationRollbackOverlay.writes.length ≤ p.fullRollbackOverlay.writes.length

theorem rollsBack_of_build {encode : EnvelopeEncoder} {source projected target : ObjectGraph}
    {draft : ConversionDraft} {before : List OverlayWrite} {limits : ConversionLimits}
    (h : buildWithProjectedTargetGraph H encode source projected target draft before limits =
      .ok p) : RollsBack H p := by
  simp only [buildWithProjectedTargetGraph, bind_ok_iff, refreshDurableEnvelope, pure_eq_ok,
    Except.ok.injEq] at h
  obtain ⟨planned, hplan, prepared, hseal, encoded, -, -, -, rfl⟩ := h
  have hc := consistent_of_plan hplan
  have hne : planned.writes.targetStagingRollback.length ≠ 0 := by
    simp only [plan, bind_ok_iff, pure_eq_ok, Except.ok.injEq, mapError_ok_iff] at hplan
    obtain ⟨-, -, -, -, -, -, -, -, target', -, -, -, -, -, _, hcaps, -, -, -, -, layout, -, -, -, -, -, -, -,
      images, -, candidate, -, relocation, -, staging, -, preactivation, -, full, -, rfl⟩ := hplan
    simp only [validateWriteCaps, bind_ok_iff, checkAll_ok_iff, ensure_ok_iff,
      List.forall_mem_cons] at hcaps
    obtain ⟨-, ⟨-, -, -, hrollback, -⟩, -⟩ := hcaps
    simp only [sortWrites, length_sortByKey]
    exact hrollback
  simp only [sealPlan, bind_ok_iff, pure_eq_ok, Except.ok.injEq, mapError_ok_iff] at hseal
  obtain ⟨payload, -, rfl⟩ := hseal
  refine ⟨rfl, rfl, rfl, ?_, ?_, ?_⟩
  · simp only [hc.before, hc.staging, stagingRollbackWrites, length_sortByKey, List.length_append]
    omega
  · simp only [hc.staging, hc.preactivation, preactivationRollbackWrites, length_sortByKey,
      List.length_append]
    omega
  · simp only [hc.full, hc.preactivation, fullRollbackWrites, length_sortByKey,
      List.length_append]
    omega

/-- The relocation rollback is none of the authorized overlays. -/
theorem RollsBack.not_mem (h : RollsBack H p) :
    p.relocationRollbackOverlay.writes ∉ authorizedRollbacks p := by
  have h1 := h.relocation_length
  have h2 := h.staging_length
  have h3 := h.preactivation_length
  intro hmem
  simp only [authorizedRollbacks, List.mem_cons, List.not_mem_nil, or_false] at hmem
  rcases hmem with heq | heq | heq <;> · rw [heq] at h1; omega

theorem RollsBack.authorized (h : RollsBack H p) {phase : TransactionPhase}
    (hphase : ¬ (phase = .reserved ∧ p.layout.relocations ≠ [])) {writes : List OverlayWrite}
    {digest : Digest} (hi : p.rollbackIntent phase = .ok (.restoreSource writes digest)) :
    writes ∈ authorizedRollbacks p ∧ overlayDigest H writes = digest := by
  have hstaging : p.stagingRollbackOverlay.writes ∈ authorizedRollbacks p ∧
      overlayDigest H p.stagingRollbackOverlay.writes = p.stagingRollbackDigest :=
    ⟨by simp [authorizedRollbacks], (overlayDigest_eq _).trans h.staging_digest.symm⟩
  have hpre : p.preactivationRollbackOverlay.writes ∈ authorizedRollbacks p ∧
      overlayDigest H p.preactivationRollbackOverlay.writes = p.preactivationRollbackDigest :=
    ⟨by simp [authorizedRollbacks], (overlayDigest_eq _).trans h.preactivation_digest.symm⟩
  have hfull : p.fullRollbackOverlay.writes ∈ authorizedRollbacks p ∧
      overlayDigest H p.fullRollbackOverlay.writes = p.fullRollbackDigest :=
    ⟨by simp [authorizedRollbacks], (overlayDigest_eq _).trans h.full_digest.symm⟩
  cases phase with
  | discovered => cases hi
  | reserved =>
    have hnone : p.layout.relocations = [] := by
      by_contra hne
      exact hphase ⟨rfl, hne⟩
    rw [rollbackIntent, if_pos hnone] at hi
    cases hi
  | relocating =>
    cases hi
    exact hstaging
  | targetStaged =>
    cases hi
    exact hpre
  | backupBootWritten =>
    cases hi
    exact hfull
  | activated =>
    cases hi
    exact hfull
  | verified =>
    cases hi
    exact hfull
  | finalized => cases hi
  | rolledBack => cases hi

/-- An executor of the plan's image, with chunks of one byte. -/
def ownExecutor (p : PreparedConversion) : ImageExecutor := ⟨p.preflight.image, ⟨1, one_pos⟩⟩

/-- With relocations the rollback of a durable reservation is refused. -/
theorem RollsBack.refused (h : RollsBack H p) (hne : p.layout.relocations ≠ [])
    {intent : RollbackIntent} (hi : p.rollbackIntent .reserved = .ok intent) (w : World) :
    p.ownExecutor.executeRollback H p intent w = (.error .intentNotAuthorized, w) := by
  rw [rollbackIntent, if_neg hne] at hi
  cases hi
  exact executeRollback_refuses H p.ownExecutor p rfl h.not_mem rfl w

/-- **Rollback authority.** The executor has the authority for a rollback the plan emitted, unless the
phase is a durable reservation and there are relocations to undo. -/
theorem executeRollback_avoids_iff {encode : EnvelopeEncoder} {source projected target : ObjectGraph}
    {draft : ConversionDraft} {before : List OverlayWrite} {limits : ConversionLimits}
    {phase : TransactionPhase} {intent : RollbackIntent}
    (hbuild : buildWithProjectedTargetGraph H encode source projected target draft before limits =
      .ok p) (hi : p.rollbackIntent phase = .ok intent) :
    (∀ x : ImageExecutor, Prog.Avoids (x.executeRollback H p intent) .intentNotAuthorized) ↔
      ¬ (phase = .reserved ∧ p.layout.relocations ≠ []) := by
  have h := rollsBack_of_build hbuild
  constructor
  · rintro hall ⟨rfl, hne⟩
    let w : World := ⟨Medium.clean [], Tape.clean [], fun _ => .proceed⟩
    exact hall p.ownExecutor w (congrArg Prod.fst (h.refused hne hi w))
  · intro hphase x
    refine executeRollback_avoids H p fun writes digest heq => ?_
    exact h.authorized hphase (heq ▸ hi)

theorem executeRollback_avoids_sample :
    Prog.Avoids (samplePrepared.ownExecutor.executeRollback plainHashing samplePrepared
      (.restoreSource samplePrepared.stagingRollbackOverlay.writes
        samplePrepared.stagingRollbackDigest)) .intentNotAuthorized := by
  obtain ⟨source, target, hbuild⟩ := sampleBuild_ok sampleBuild_samplePrepared
  exact (executeRollback_avoids_iff hbuild (show samplePrepared.rollbackIntent .relocating = _ from
    rfl)).2 (by simp) samplePrepared.ownExecutor

/-- The sample moves one file, and the rollback it emits for a durable reservation is refused. -/
theorem executeRollback_refuses_sample : ∃ prepared intent,
    sampleBuild .standard [7] = .ok prepared ∧ prepared.rollbackIntent .reserved = .ok intent ∧
      ∀ w, prepared.ownExecutor.executeRollback .standard prepared intent w =
        (.error .intentNotAuthorized, w) := by
  obtain ⟨prepared, hprepared, halike⟩ := exists_sampleBuild sampleBuild_samplePrepared .standard
  obtain ⟨source, target, hbuild⟩ := sampleBuild_ok hprepared
  have hmoves : samplePrepared.layout.relocations ≠ [] := by decide +kernel
  have hne : prepared.layout.relocations ≠ [] := by
    have hlayout := halike.layout
    simp only [Envelope.EnvelopeState.fromPrepared] at hlayout
    rwa [← hlayout] at hmoves
  have hi : prepared.rollbackIntent .reserved = .ok (.restoreSource
      prepared.relocationRollbackOverlay.writes prepared.relocationRollbackDigest) := by
    rw [rollbackIntent, if_neg hne]
    rfl
  exact ⟨prepared, _, hprepared, hi, (rollsBack_of_build hbuild).refused hne hi⟩

end PreparedConversion

end StarConverter
