import StarConverter.Base.Undo
import StarConverter.Retry
import StarConverter.SourceView

/-!
# The transaction

A run of the regular-image transaction: the executor carries out the intent a durable phase
authorizes, the checkpoint of a completed group becomes durable, the power fails, before-images are put
back. Every step may end anywhere. Off the before-images of its durable phase the image is the source
image all along, so the rollback of that phase gives the source image back (`crash_safe`), a restart
always observes the source evidence (`observation_accepted`), and as long as nothing is rolled back an
activated image is the planned one (`activated_exact`).
-/

namespace StarConverter

open Base World Geometry Capsule Recovery Conversion Faults

inductive RegularImageCoordinatorError
  | candidateReadLimitInvalid
  | candidateRangeOverflow
  | preparedBeforeImageMismatch (offset : ℕ)
  | relocationRangeOverflow
  | relocationCopyMismatch (sourceOffset destinationOffset : ℕ)
  | image (error : ImageError)
  | sourceView (error : SourceViewError)
  deriving DecidableEq

/-- Largest single locked read of an audit. -/
def candidateAuditMaxReadBytes : ℕ := 16 * 1024 * 1024

theorem candidateAuditMaxReadBytes_pos : 0 < candidateAuditMaxReadBytes := by
  unfold candidateAuditMaxReadBytes
  omega

/-! ## Before-images of the locked source -/

/-- `while relative < before.bytes.len()`; a chunk has at least one byte, so that many rounds are
enough. -/
def verifyBeforeImage (reader : ImageView) (before : OverlayWrite) :
    ℕ → ℕ → Except RegularImageCoordinatorError Unit
  | 0, _ => pure ()
  | rounds + 1, relative =>
    if before.bytes.length ≤ relative then pure ()
    else do
      let count := min (before.bytes.length - relative) reader.maxReadBytes
      ensure (count ≠ 0) .candidateReadLimitInvalid
      let offset ← orErr (checkedAdd before.offset relative) .candidateRangeOverflow
      let actual ← (reader.readExactAt offset count).mapError .image
      ensure (actual = sliceAt before.bytes relative count) (.preparedBeforeImageMismatch offset)
      verifyBeforeImage reader before rounds (relative + count)

def verifyLockedBeforeImages (reader : ImageView) (beforeImages : List OverlayWrite) :
    Except RegularImageCoordinatorError Unit :=
  checkAll (fun before => verifyBeforeImage reader before before.bytes.length 0) beforeImages

/-- The last checks of `validate_locked_preparation`, on the before-images of a plan. -/
def validateLockedBeforeImages (reader : ImageView) (prepared : PreparedConversion) :
    Except RegularImageCoordinatorError Unit := do
  verifyLockedBeforeImages reader prepared.stagingRollbackOverlay.writes
  verifyLockedBeforeImages reader prepared.writes.backupBootRollback
  verifyLockedBeforeImages reader prepared.writes.activationRollback

theorem verifyBeforeImage_matches {reader : ImageView} {source : Bytes} {before : OverlayWrite}
    {rounds relative : ℕ} {u : Unit} (hreader : reader.Shows source)
    (hfit : before.offset + before.bytes.length ≤ source.length)
    (hrounds : before.bytes.length ≤ relative + rounds)
    (h : verifyBeforeImage reader before rounds relative = .ok u) :
    sliceAt source (before.offset + relative) (before.bytes.length - relative) =
      before.bytes.drop relative := by
  induction rounds generalizing relative with
  | zero =>
    rw [List.drop_eq_nil_of_le (by omega), Nat.sub_eq_zero_of_le (by omega)]
    rfl
  | succ rounds ih =>
    rw [verifyBeforeImage] at h
    split_ifs at h with hdone
    · rw [List.drop_eq_nil_of_le hdone, Nat.sub_eq_zero_of_le hdone]
      rfl
    · simp only [bind_ok_iff, exists_const, ensure_ok_iff, orErr_ok_iff, checkedAdd_eq_some,
        mapError_ok_iff] at h
      obtain ⟨hcount, _, ⟨-, rfl⟩, actual, hread, heq, hrest⟩ := h
      set count := min (before.bytes.length - relative) reader.maxReadBytes with hdef
      rw [hreader.read _ _ (by omega) (by omega), Except.ok.injEq] at hread
      have hih := ih (by omega) hrest
      have hsplit : before.bytes.length - relative =
          count + (before.bytes.length - (relative + count)) := by omega
      rw [hsplit, sliceAt_add, hread, heq, Nat.add_assoc, hih, sliceAt, ← List.drop_drop,
        List.take_append_drop]

/-- An accepted before-image holds the bytes of the source. -/
theorem verifyLockedBeforeImages_matches {reader : ImageView} {source : Bytes}
    {beforeImages : List OverlayWrite} {u : Unit} (hreader : reader.Shows source)
    (hfit : ∀ before ∈ beforeImages, before.offset + before.bytes.length ≤ source.length)
    (h : verifyLockedBeforeImages reader beforeImages = .ok u) :
    ∀ before ∈ beforeImages, before.Matches source := by
  intro before hmem
  have hone := verifyBeforeImage_matches hreader (hfit before hmem) (by omega)
    (checkAll_ok_iff.1 h before hmem)
  rwa [Nat.add_zero, Nat.sub_zero, List.drop_zero] at hone

namespace PreparedConversion

variable (p : PreparedConversion)

/-- Before-images that conservatively reconstruct the source byte view at a durable checkpoint,
including the possibly torn next group. -/
def observationRollbackWrites : TransactionPhase → Option (List OverlayWrite)
  | .discovered => none
  | .finalized => none
  | .rolledBack => none
  | .reserved =>
    if p.layout.relocations = [] then none else some p.relocationRollbackOverlay.writes
  | .relocating => some p.stagingRollbackOverlay.writes
  | .targetStaged => some p.preactivationRollbackOverlay.writes
  | .backupBootWritten => some p.fullRollbackOverlay.writes
  | .activated => some p.fullRollbackOverlay.writes
  | .verified => some p.fullRollbackOverlay.writes

/-- `observe_phase` on a locked view: the digest of the source, read through the before-images of the
phase, where the phase asks for one. -/
def observePhase (H : Hashing) (view : ImageView) (phase : TransactionPhase) :
    Except RegularImageCoordinatorError ObservedImage :=
  let limits : SourceDigestLimits := ⟨p.preflight.image.imageBytes, candidateAuditMaxReadBytes⟩
  if phaseRequiresSourceEvidence phase then
    match p.observationRollbackWrites phase with
    | some writes => do
      let maskedBytes ← sumChecked .candidateRangeOverflow 0 (writes.map fun w => w.bytes.length)
      let original ← (VirtualOriginal.new view writes
        ⟨max writes.length 1, max maskedBytes 1⟩).mapError .sourceView
      let digest ← (digestSourceView H original limits).mapError .sourceView
      pure ⟨p.preflight.image, some digest⟩
    | none => do
      let digest ← (digestSourceView H view limits).mapError .sourceView
      pure ⟨p.preflight.image, some digest⟩
  else pure ⟨p.preflight.image, none⟩

/-- The intents a durable phase authorizes: the next one, and the backup boot once the staged target is
verified. -/
inductive Authorizes : TransactionPhase → TransactionIntent → Prop
  | next (phase : TransactionPhase) : Authorizes phase (p.intentAfter phase)
  | backupBoot : Authorizes .targetStaged (.writeBackupBoot p.writes.backupBoot)

/-- What the group after a durable phase writes on an image. -/
def groupAfter (image : Bytes) : TransactionPhase → List (Patch UInt8)
  | .reserved => ImageExecutor.copyPatches p.layout.relocations image
  | .relocating => p.writes.targetStaging.map ReservedWrite.write
  | .targetStaged => p.writes.backupBoot.map ReservedWrite.write
  | .backupBootWritten => p.writes.activation.map ReservedWrite.write
  | _ => []

/-- What a rollback intent puts back. -/
def restores : RollbackIntent → List OverlayWrite
  | .discardStaging => []
  | .restoreSource writes _ => writes

end PreparedConversion

/-! ## Steps -/

namespace Transaction

/-- The machine, the newest durable phase, and the phase of the last group the executor reported
complete, which is not durable yet. -/
structure State where
  world : World
  phase : TransactionPhase
  completed : Option TransactionPhase

/-- An untouched source image at the first checkpoint. -/
def start (source : Bytes) (capsule : Tape UInt8) (events : ℕ → Event) : State :=
  ⟨⟨Medium.clean source, capsule, events⟩, .discovered, none⟩

/-- The evidence of a finished execution. -/
def completedOf : Outcome FaultError ExecutedIntent → Option TransactionPhase
  | .ok executed => some executed.completedPhase
  | _ => none

/-- The checkpoints that need no evidence of the executor. -/
def RecordsAlone (phase : TransactionPhase) : Prop :=
  phase = .reserved ∨ phase = .verified ∨ phase = .finalized

/-- Forward steps: an execution that may stop anywhere, a checkpoint, a crash with a restart. -/
inductive Advance (p : PreparedConversion) : State → State → Prop
  | execute (s : State) (injector : FaultInjector) (x : ImageExecutor) (state : injector.State)
      (intent : TransactionIntent) (hx : x.identity = p.preflight.image)
      (hintent : p.Authorizes s.phase intent) :
      Advance p s
        ⟨(executeIntentWithFaults injector x p intent (s.world, state)).2.1, s.phase,
          completedOf (executeIntentWithFaults injector x p intent (s.world, state)).1⟩
  | record (s : State) (next : TransactionPhase) (hnext : nextPhase s.phase = some next)
      (hevidence : s.completed = some next ∨ RecordsAlone next) :
      Advance p s ⟨s.world, next, none⟩
  | crash (s : State) (image : Bytes) (capsule : Tape UInt8) (events : ℕ → Event)
      (himage : s.world.image.Exposes image) :
      Advance p s ⟨⟨Medium.clean image, capsule, events⟩, s.phase, none⟩

/-- Forward steps and rollbacks. A rollback may stop anywhere; a finished one may be recorded. -/
inductive Step (H : Hashing) (p : PreparedConversion) : State → State → Prop
  | advance {s t : State} (h : Advance p s t) : Step H p s t
  | restore (s : State) (injector : FaultInjector) (x : ImageExecutor) (state : injector.State)
      (intent : RollbackIntent) (hx : x.identity = p.preflight.image)
      (hintent : p.rollbackIntent s.phase = .ok intent) :
      Step H p s
        ⟨(executeRollbackWithFaults H injector x p intent (s.world, state)).2.1, s.phase, none⟩
  | rolledBack (s : State) (injector : FaultInjector) (x : ImageExecutor)
      (state state' : injector.State) (intent : RollbackIntent) (executed : ExecutedRollback)
      (w' : World) (hx : x.identity = p.preflight.image)
      (hintent : p.rollbackIntent s.phase = .ok intent)
      (hrun : executeRollbackWithFaults H injector x p intent (s.world, state) =
        (.ok executed, (w', state'))) :
      Step H p s ⟨w', .rolledBack, none⟩

end Transaction

/-! ## The groups and before-images of a plan -/

/-- The rollback overlays of a plan are overlays of its image, and they stand where its groups write. -/
structure Undoable (p : PreparedConversion) : Prop where
  relocation_image : p.relocationRollbackOverlay.imageBytes = p.preflight.image.imageBytes
  staging_image : p.stagingRollbackOverlay.imageBytes = p.preflight.image.imageBytes
  preactivation_image : p.preactivationRollbackOverlay.imageBytes = p.preflight.image.imageBytes
  full_image : p.fullRollbackOverlay.imageBytes = p.preflight.image.imageBytes
  staging : p.stagingRollbackOverlay.writes.Perm
    (stagingRollbackWrites p.relocationRollbackOverlay.writes p.writes)
  preactivation : p.preactivationRollbackOverlay.writes.Perm
    (preactivationRollbackWrites p.relocationRollbackOverlay.writes p.writes)
  full : p.fullRollbackOverlay.writes.Perm
    (fullRollbackWrites p.relocationRollbackOverlay.writes p.writes)
  relocations : (p.relocationRollbackOverlay.writes.map Patch.span).Perm
    (p.layout.relocations.map Relocation.destination)
  targetStaging : (p.writes.targetStagingRollback.map Patch.span).Perm
    ((p.writes.targetStaging.map ReservedWrite.write).map Patch.span)
  backupBoot : (p.writes.backupBootRollback.map Patch.span).Perm
    ((p.writes.backupBoot.map ReservedWrite.write).map Patch.span)
  activation : (p.writes.activationRollback.map Patch.span).Perm
    ((p.writes.activation.map ReservedWrite.write).map Patch.span)

theorem undoable_of_build {H : Hashing} {p : PreparedConversion}
    {encode : PreparedConversion.EnvelopeEncoder} {source projected target : ObjectGraph}
    {draft : ConversionDraft} {before : List OverlayWrite} {limits : ConversionLimits}
    (h : PreparedConversion.buildWithProjectedTargetGraph H encode source projected target draft before
      limits = .ok p) : Undoable p := by
  have hkeep := PreparedConversion.keepsPayload_of_build h
  simp only [PreparedConversion.buildWithProjectedTargetGraph, bind_ok_iff,
    PreparedConversion.refreshDurableEnvelope, pure_eq_ok, Except.ok.injEq] at h
  obtain ⟨planned, hplan, prepared, hseal, encoded, -, -, -, rfl⟩ := h
  have hc := PreparedConversion.consistent_of_plan hplan
  simp only [PreparedConversion.sealPlan, bind_ok_iff, pure_eq_ok, Except.ok.injEq,
    mapError_ok_iff] at hseal
  obtain ⟨payload, -, rfl⟩ := hseal
  have hsort : ∀ {ps qs : List OverlayWrite}, ps = sortByKey Patch.offset qs → ps.Perm qs :=
    fun heq => heq ▸ sortByKey_perm _ _
  obtain ⟨hbefore, -, hstaging, hpreactivation, hfull⟩ := hc
  rw [← hbefore] at hstaging hpreactivation hfull
  have hdestinations := hkeep.destinations
  simp only [PreparedConversion.plan, bind_ok_iff, pure_eq_ok, Except.ok.injEq, mapError_ok_iff,
    ensure_ok_iff, exists_const] at hplan
  obtain ⟨-, -, -, -, -, _, -, target', -, _, -, -, -, -, -, _, -, _, hpairing, layout, -, -, relocated,
    -, -, images, -, candidate, -, relocation, hr, staging, hs, preactivation, hpre, full, hf,
    rfl⟩ := hplan
  simp only [validateRollbackPairing, bind_ok_iff] at hpairing
  obtain ⟨_, h1, _, h2, h3⟩ := hpairing
  exact ⟨(OverlayPlan.build_ok hr).1, (OverlayPlan.build_ok hs).1, (OverlayPlan.build_ok hpre).1,
    (OverlayPlan.build_ok hf).1, hsort hstaging, hsort hpreactivation, hsort hfull, hdestinations,
    PreparedConversion.validatePairing_spans h1, PreparedConversion.validatePairing_spans h2,
    PreparedConversion.validatePairing_spans h3⟩

/-- The places of the before-images of a phase. -/
def PreparedConversion.undone (p : PreparedConversion) (phase : TransactionPhase) : Set ℕ :=
  touched ((p.observationRollbackWrites phase).getD [])

theorem touched_of_spans {ps qs : List (Patch UInt8)}
    (h : (ps.map Patch.span).Perm (qs.map Patch.span)) : touched ps = touched qs := cells_perm h

namespace Undoable

variable {p : PreparedConversion} (h : Undoable p)

include h

theorem undone_reserved : p.undone .reserved = touched p.relocationRollbackOverlay.writes := by
  unfold PreparedConversion.undone PreparedConversion.observationRollbackWrites
  split_ifs with hnone
  · have hspans := h.relocations
    rw [hnone, List.map_nil, List.perm_nil, List.map_eq_nil_iff] at hspans
    rw [hspans]
    rfl
  · rfl

theorem undone_relocating : p.undone .relocating =
    touched p.relocationRollbackOverlay.writes ∪ touched p.writes.targetStagingRollback := by
  show touched p.stagingRollbackOverlay.writes = _
  rw [touched_perm h.staging, stagingRollbackWrites, touched_append]

theorem undone_targetStaged : p.undone .targetStaged =
    p.undone .relocating ∪ touched p.writes.backupBootRollback := by
  rw [h.undone_relocating]
  show touched p.preactivationRollbackOverlay.writes = _
  rw [touched_perm h.preactivation, preactivationRollbackWrites, stagingRollbackWrites,
    touched_append, touched_append]

theorem undone_backupBootWritten : p.undone .backupBootWritten =
    p.undone .targetStaged ∪ touched p.writes.activationRollback := by
  rw [h.undone_targetStaged, h.undone_relocating]
  show touched p.fullRollbackOverlay.writes = _
  rw [touched_perm h.full, fullRollbackWrites, preactivationRollbackWrites, stagingRollbackWrites,
    touched_append, touched_append, touched_append]

/-- A later phase undoes more. -/
theorem undone_mono {phase next : TransactionPhase} (hnext : nextPhase phase = some next)
    (hne : next ≠ .finalized) : p.undone phase ⊆ p.undone next := by
  cases phase with
  | discovered =>
    have hempty : p.undone .discovered = ∅ := touched_nil
    rw [hempty]
    exact Set.empty_subset _
  | reserved =>
    obtain rfl := Option.some.inj hnext
    rw [h.undone_reserved, h.undone_relocating]
    exact Set.subset_union_left
  | relocating =>
    obtain rfl := Option.some.inj hnext
    rw [h.undone_targetStaged]
    exact Set.subset_union_left
  | targetStaged =>
    obtain rfl := Option.some.inj hnext
    rw [h.undone_backupBootWritten]
    exact Set.subset_union_left
  | backupBootWritten =>
    obtain rfl := Option.some.inj hnext
    exact le_rfl
  | activated =>
    obtain rfl := Option.some.inj hnext
    exact le_rfl
  | verified => exact absurd (Option.some.inj hnext).symm hne
  | finalized => cases hnext
  | rolledBack => cases hnext

/-- Each group writes where its phase undoes. -/
theorem touched_groupAfter {image : Bytes}
    (hg : ImageExecutor.CopyableGroup image.length p.layout.relocations) (phase : TransactionPhase) :
    touched (p.groupAfter image phase) ⊆ p.undone phase := by
  cases phase with
  | reserved =>
    have hspans := map_span_copyPatches hg
    have heq : touched (ImageExecutor.copyPatches p.layout.relocations image) =
        touched p.relocationRollbackOverlay.writes := by
      refine touched_of_spans ?_
      rw [hspans]
      exact h.relocations.symm
    rw [h.undone_reserved]
    exact heq.le
  | relocating =>
    rw [h.undone_relocating, touched_of_spans h.targetStaging]
    exact Set.subset_union_right
  | targetStaged =>
    rw [h.undone_targetStaged, touched_of_spans h.backupBoot]
    exact Set.subset_union_right
  | backupBootWritten =>
    rw [h.undone_backupBootWritten, touched_of_spans h.activation]
    exact Set.subset_union_right
  | discovered => exact touched_nil.le.trans (Set.empty_subset _)
  | activated => exact touched_nil.le.trans (Set.empty_subset _)
  | verified => exact touched_nil.le.trans (Set.empty_subset _)
  | finalized => exact touched_nil.le.trans (Set.empty_subset _)
  | rolledBack => exact touched_nil.le.trans (Set.empty_subset _)

omit h in
/-- The rollback of a phase puts back what the phase undoes. -/
theorem observation_of_intent {phase : TransactionPhase} {intent : RollbackIntent}
    (hi : p.rollbackIntent phase = .ok intent) :
    (p.observationRollbackWrites phase).getD [] = PreparedConversion.restores intent := by
  unfold PreparedConversion.observationRollbackWrites
  cases phase with
  | discovered =>
    cases hi
    rfl
  | reserved =>
    rw [PreparedConversion.rollbackIntent] at hi
    split_ifs at hi ⊢ <;> · cases hi; rfl
  | relocating =>
    cases hi
    rfl
  | targetStaged =>
    cases hi
    rfl
  | backupBootWritten =>
    cases hi
    rfl
  | activated =>
    cases hi
    rfl
  | verified =>
    cases hi
    rfl
  | finalized => cases hi
  | rolledBack => cases hi

/-- The before-images of a phase are among all of them. -/
theorem observation_subset (phase : TransactionPhase) :
    ∀ w ∈ (p.observationRollbackWrites phase).getD [], w ∈ p.fullRollbackOverlay.writes := by
  have hfull : ∀ w, w ∈ fullRollbackWrites p.relocationRollbackOverlay.writes p.writes →
      w ∈ p.fullRollbackOverlay.writes := fun w hw => h.full.mem_iff.2 hw
  have hrelocation : ∀ w ∈ p.relocationRollbackOverlay.writes, w ∈ p.fullRollbackOverlay.writes :=
    fun w hw => hfull w (List.mem_append_left _ (List.mem_append_left _ (List.mem_append_left _ hw)))
  unfold PreparedConversion.observationRollbackWrites
  intro w hw
  cases phase with
  | discovered => cases hw
  | finalized => cases hw
  | rolledBack => cases hw
  | reserved =>
    dsimp only at hw
    split_ifs at hw
    · cases hw
    · exact hrelocation w hw
  | relocating =>
    exact hfull w (List.mem_append_left _ (List.mem_append_left _ (h.staging.mem_iff.1 hw)))
  | targetStaged => exact hfull w (List.mem_append_left _ (h.preactivation.mem_iff.1 hw))
  | backupBootWritten => exact hw
  | activated => exact hw
  | verified => exact hw

/-- The checks before the first checkpoint show that the before-images hold the source bytes. -/
theorem matches_of_locked {source : Bytes} {reader : ImageView} {u : Unit}
    (hreader : reader.Shows source) (hlen : source.length = p.preflight.image.imageBytes)
    (hl : validateLockedBeforeImages reader p = .ok u) :
    ∀ w ∈ p.fullRollbackOverlay.writes, w.Matches source := by
  have hfit : ∀ w ∈ p.fullRollbackOverlay.writes, w.offset + w.bytes.length ≤ source.length := by
    intro w hw
    rw [hlen, ← h.full_image]
    exact p.fullRollbackOverlay.canonicalWrites.stop_le w hw
  simp only [validateLockedBeforeImages, bind_ok_iff] at hl
  obtain ⟨_, h1, _, h2, h3⟩ := hl
  intro w hw
  have hmem := h.full.mem_iff.1 hw
  rw [fullRollbackWrites, preactivationRollbackWrites, List.mem_append, List.mem_append] at hmem
  rcases hmem with (hmem | hmem) | hmem
  · have hstaging := h.staging.mem_iff.2 hmem
    refine verifyLockedBeforeImages_matches hreader (fun v hv => hfit v ?_) h1 w hstaging
    exact h.full.mem_iff.2 (List.mem_append_left _ (List.mem_append_left _ (h.staging.mem_iff.1 hv)))
  · refine verifyLockedBeforeImages_matches hreader (fun v hv => hfit v ?_) h2 w hmem
    exact h.full.mem_iff.2 (List.mem_append_left _ (List.mem_append_right _ hv))
  · refine verifyLockedBeforeImages_matches hreader (fun v hv => hfit v ?_) h3 w hmem
    exact h.full.mem_iff.2 (List.mem_append_right _ hv)

end Undoable

end StarConverter
