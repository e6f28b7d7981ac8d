import StarConverter.Conversion.Payload
import StarConverter.Faults

/-!
# Retrying a group

The mutating groups of an accepted plan, carried out by the entry points of the executor with a fault
hook. Attempts may stop anywhere, one after the other, with any chunk size; an attempt that nothing
stops then ends with the image a single one would have made of the first image.
-/

namespace StarConverter

open Base World Geometry Capsule Recovery Conversion

namespace Faults

section Entry

variable (H : Hashing) (injector : FaultInjector) (x : ImageExecutor) (p : PreparedConversion)

/-- The writes of one phase, which have to be those of the plan. -/
def runPhase (kind : ExecutionKind) (expected supplied : List ReservedWrite)
    (completed : TransactionPhase) : Injected injector (ExecutionEvidence × TransactionPhase) := do
  calls injector (check (supplied = expected) .intentNotAuthorized)
  let evidence ← applyReservedWrites injector x kind supplied
  pure (evidence, completed)

def runIntent : TransactionIntent → Injected injector (ExecutionEvidence × TransactionPhase)
  | .relocate relocations => do
    calls injector (check (p.layout.materializations = []) .intentNotAuthorized)
    calls injector (check (relocations = p.layout.relocations) .intentNotAuthorized)
    let evidence ← copyRelocations injector x relocations
    pure (evidence, .relocating)
  | .stageTarget writes =>
    runPhase injector x .targetStaging p.writes.targetStaging writes .targetStaged
  | .writeBackupBoot writes =>
    runPhase injector x .backupBoot p.writes.backupBoot writes .backupBootWritten
  | .activate writes => runPhase injector x .activation p.writes.activation writes .activated
  | .reserve _ => Prog.throw (.executor .nonMutatingIntent)
  | .verifyStaging _ => Prog.throw (.executor .nonMutatingIntent)
  | .verify _ => Prog.throw (.executor .nonMutatingIntent)
  | .finalize => Prog.throw (.executor .nonMutatingIntent)
  | .none => Prog.throw (.executor .nonMutatingIntent)

/-- Executes one mutating intent with deterministic crash injection. -/
def executeIntentWithFaults (intent : TransactionIntent) : Injected injector ExecutedIntent := do
  calls injector (check (p.preflight.image = x.identity) .planImageMismatch)
  let done ← runIntent injector x p intent
  pure ⟨done.1, p.planDigest, x.identity.imageInstance, done.2⟩

def runRollback : RollbackIntent → Injected injector (RollbackOutcome × Option Digest)
  | .discardStaging => pure (.stagingDiscarded, none)
  | .restoreSource writes digest => do
    calls injector (check (writes ∈ ImageExecutor.authorizedRollbacks p ∧
      ImageExecutor.overlayDigest H writes = digest) .intentNotAuthorized)
    let evidence ← applyOverlayWrites injector x .rollback writes
    pure (.sourceRestored evidence, some digest)

/-- Applies rollback with deterministic crash injection. -/
def executeRollbackWithFaults (intent : RollbackIntent) : Injected injector ExecutedRollback := do
  calls injector (check (p.preflight.image = x.identity) .planImageMismatch)
  let done ← runRollback H injector x p intent
  pure ⟨done.1, p.planDigest, x.identity.imageInstance, done.2⟩

end Entry

/-! ## The groups of a plan -/

/-- The mutating groups of a plan. -/
inductive MutatingGroup
  | relocations
  | targetStaging
  | backupBoot
  | activation
  | stagingRollback
  | preactivationRollback
  | fullRollback
  deriving DecidableEq

/-- The evidence of a rollback that restored the source. -/
def rollbackEvidence : RollbackOutcome → Option ExecutionEvidence
  | .stagingDiscarded => none
  | .sourceRestored evidence => some evidence

namespace MutatingGroup

section Execute

variable (H : Hashing) (injector : FaultInjector) (x : ImageExecutor) (p : PreparedConversion)

def forward (intent : TransactionIntent) : Injected injector (Option ExecutionEvidence) := do
  let executed ← executeIntentWithFaults injector x p intent
  pure (some executed.evidence)

def restore (writes : List OverlayWrite) (digest : Digest) :
    Injected injector (Option ExecutionEvidence) := do
  let executed ← executeRollbackWithFaults H injector x p (.restoreSource writes digest)
  pure (rollbackEvidence executed.outcome)

/-- One attempt at the group, through the intent the plan emits for it. -/
def attempt : MutatingGroup → Injected injector (Option ExecutionEvidence)
  | .relocations => forward injector x p (.relocate p.layout.relocations)
  | .targetStaging => forward injector x p (.stageTarget p.writes.targetStaging)
  | .backupBoot => forward injector x p (.writeBackupBoot p.writes.backupBoot)
  | .activation => forward injector x p (.activate p.writes.activation)
  | .stagingRollback =>
    restore H injector x p p.stagingRollbackOverlay.writes p.stagingRollbackDigest
  | .preactivationRollback =>
    restore H injector x p p.preactivationRollbackOverlay.writes p.preactivationRollbackDigest
  | .fullRollback => restore H injector x p p.fullRollbackOverlay.writes p.fullRollbackDigest

end Execute

def kind : MutatingGroup → ExecutionKind
  | .relocations => .relocation
  | .targetStaging => .targetStaging
  | .backupBoot => .backupBoot
  | .activation => .activation
  | .stagingRollback => .rollback
  | .preactivationRollback => .rollback
  | .fullRollback => .rollback

variable (p : PreparedConversion)

/-- What the group writes on an image. -/
def patches (image : Bytes) : MutatingGroup → List (Patch UInt8)
  | .relocations => ImageExecutor.copyPatches p.layout.relocations image
  | .targetStaging => p.writes.targetStaging.map ReservedWrite.write
  | .backupBoot => p.writes.backupBoot.map ReservedWrite.write
  | .activation => p.writes.activation.map ReservedWrite.write
  | .stagingRollback => p.stagingRollbackOverlay.writes
  | .preactivationRollback => p.preactivationRollbackOverlay.writes
  | .fullRollback => p.fullRollbackOverlay.writes

/-- The total length of the group. -/
def totalLength : MutatingGroup → ℕ
  | .relocations => (p.layout.relocations.map fun r => r.source.length).sum
  | .targetStaging => OverlayPlan.byteCount (p.writes.targetStaging.map ReservedWrite.write)
  | .backupBoot => OverlayPlan.byteCount (p.writes.backupBoot.map ReservedWrite.write)
  | .activation => OverlayPlan.byteCount (p.writes.activation.map ReservedWrite.write)
  | .stagingRollback => OverlayPlan.byteCount p.stagingRollbackOverlay.writes
  | .preactivationRollback => OverlayPlan.byteCount p.preactivationRollbackOverlay.writes
  | .fullRollback => OverlayPlan.byteCount p.fullRollbackOverlay.writes

end MutatingGroup

/-! ## What an accepted plan promises its executor -/

/-- The groups of the plan can be carried out. -/
structure Executable (H : Hashing) (p : PreparedConversion) : Prop where
  materializations : p.layout.materializations = []
  copyable : ImageExecutor.CopyableGroup p.preflight.image.imageBytes p.layout.relocations
  targetStaging : ImageExecutor.WritableGroup p.preflight.image.imageBytes
    (p.writes.targetStaging.map ReservedWrite.write)
  backupBoot : ImageExecutor.WritableGroup p.preflight.image.imageBytes
    (p.writes.backupBoot.map ReservedWrite.write)
  activation : ImageExecutor.WritableGroup p.preflight.image.imageBytes
    (p.writes.activation.map ReservedWrite.write)
  rollback : ∀ writes ∈ ImageExecutor.authorizedRollbacks p,
    ImageExecutor.WritableGroup p.preflight.image.imageBytes writes
  rollsBack : PreparedConversion.RollsBack H p

/-- The writes of an overlay can be carried out. -/
theorem writable_overlay (plan : OverlayPlan) :
    ImageExecutor.WritableGroup plan.imageBytes plan.writes :=
  ⟨fun w hw => ⟨(plan.valid w hw).nonempty, (plan.valid w hw).stop_lt, (plan.valid w hw).stop_le⟩,
    plan.disjoint, plan.replacement_lt⟩

theorem writable_perm {imageBytes : ℕ} {ps qs : List OverlayWrite} (hp : ps.Perm qs)
    (h : ImageExecutor.WritableGroup imageBytes ps) : ImageExecutor.WritableGroup imageBytes qs := by
  refine ⟨fun p hmem => h.fits p (hp.mem_iff.2 hmem), ?_, ?_⟩
  · exact (hp.map Patch.span).pairwise h.disjoint fun hd => hd.symm
  · rw [← (hp.map fun p => p.bytes.length).sum_eq]
    exact h.total_lt

theorem writable_sublist {imageBytes : ℕ} {ps qs : List OverlayWrite} (hs : ps.Sublist qs)
    (h : ImageExecutor.WritableGroup imageBytes qs) : ImageExecutor.WritableGroup imageBytes ps :=
  ⟨fun p hmem => h.fits p (hs.subset hmem), h.disjoint.sublist (hs.map Patch.span),
    lt_of_le_of_lt ((hs.map fun p => p.bytes.length).sum_le_sum fun _ _ => Nat.zero_le _) h.total_lt⟩

theorem executable_of_build {H : Hashing} {p : PreparedConversion} {encode : PreparedConversion.EnvelopeEncoder}
    {source projected target : ObjectGraph} {draft : ConversionDraft} {before : List OverlayWrite}
    {limits : ConversionLimits}
    (h : PreparedConversion.buildWithProjectedTargetGraph H encode source projected target draft before
      limits = .ok p) : Executable H p := by
  have hroll := PreparedConversion.rollsBack_of_build h
  have hkeep := PreparedConversion.keepsPayload_of_build h
  simp only [PreparedConversion.buildWithProjectedTargetGraph, bind_ok_iff,
    PreparedConversion.refreshDurableEnvelope, pure_eq_ok, Except.ok.injEq] at h
  obtain ⟨planned, hplan, prepared, hseal, encoded, -, -, -, rfl⟩ := h
  have hc := PreparedConversion.consistent_of_plan hplan
  simp only [PreparedConversion.sealPlan, bind_ok_iff, pure_eq_ok, Except.ok.injEq,
    mapError_ok_iff] at hseal
  obtain ⟨payload, -, rfl⟩ := hseal
  have hlength : (List.replicate draft.preflight.image.imageBytes (0 : UInt8)).length =
      draft.preflight.image.imageBytes := List.length_replicate
  have hcopy := hkeep.copyable hlength
  rw [List.length_replicate] at hcopy
  simp only [PreparedConversion.plan, bind_ok_iff, pure_eq_ok, Except.ok.injEq, mapError_ok_iff,
    ensure_ok_iff, exists_const] at hplan
  obtain ⟨-, -, -, -, -, _, -, target', -, _, -, -, -, -, -, _, -, _, -, layout, -, hmaterial, relocated,
    -, -, images, -, candidate, hcandidate, relocation, -, staging, hstaging, preactivation,
    hpreactivation, full, hfull, rfl⟩ := hplan
  have hoverlay : ∀ {writes : List OverlayWrite} {plan : OverlayPlan},
      OverlayPlan.build draft.preflight.image.imageBytes draft.preflight.sectorBytes writes
        limits.overlay = .ok plan →
      ImageExecutor.WritableGroup draft.preflight.image.imageBytes plan.writes := by
    intro writes plan hbuild
    rw [← (OverlayPlan.build_ok hbuild).1]
    exact writable_overlay plan
  have hfinal : ImageExecutor.WritableGroup draft.preflight.image.imageBytes
      (finalWrites (sortWrites draft.writes.writes)) := by
    refine writable_perm ?_ (hoverlay hcandidate)
    rw [(OverlayPlan.build_ok hcandidate).2.2.1]
    exact sortByKey_perm _ _
  have hparts : finalWrites (sortWrites draft.writes.writes) =
      (sortWrites draft.writes.writes).targetStaging.map ReservedWrite.write ++
        ((sortWrites draft.writes.writes).backupBoot.map ReservedWrite.write ++
          (sortWrites draft.writes.writes).activation.map ReservedWrite.write) := by
    rw [finalWrites, forwardWrites, List.map_append, List.map_append, List.append_assoc]
  rw [hparts] at hfinal
  refine ⟨hmaterial, hcopy, ?_, ?_, ?_, ?_, hroll⟩
  · exact writable_sublist (List.sublist_append_left _ _) hfinal
  · exact writable_sublist ((List.sublist_append_left _ _).trans (List.sublist_append_right _ _)) hfinal
  · exact writable_sublist ((List.sublist_append_right _ _).trans (List.sublist_append_right _ _))
      hfinal
  · intro writes hmem
    simp only [ImageExecutor.authorizedRollbacks, List.mem_cons, List.not_mem_nil, or_false] at hmem
    rcases hmem with rfl | rfl | rfl
    · exact hoverlay hstaging
    · exact hoverlay hpreactivation
    · exact hoverlay hfull

/-! ## One attempt -/

section Attempt

variable {H : Hashing} {injector : FaultInjector} {x : ImageExecutor} {p : PreparedConversion}
  {w : World}

/-- What one attempt at a group of patches ends with. -/
def Ends (injector : FaultInjector) (kind : ExecutionKind) (total : ℕ) (ps : List (Patch UInt8))
    (w : World) (evidence : Option ExecutionEvidence) (w' : World) : Prop :=
  (evidence = some ⟨kind, ps.length, total, true, true⟩ ∧ Flushes injector kind) ∧
    ImageExecutor.Done ps w w'

theorem calls_check {c : Prop} [Decidable c] {e : ExecutorError} {α : Type}
    {f : Unit → Injected injector α} {Q : α → World → Prop} {E : World → Prop} (hc : c)
    (h : Spec injector (f ()) w Q E) : Spec injector (calls injector (check c e) >>= f) w Q E := by
  refine (Spec.calls (check_spec hc)).bind ?_
  rintro _ _ rfl
  exact h

theorem runPhase_spec {kind : ExecutionKind} {writes : List ReservedWrite}
    {completed : TransactionPhase} (hlen : w.image.now.length = x.identity.imageBytes)
    (hg : ImageExecutor.WritableGroup x.identity.imageBytes (writes.map ReservedWrite.write)) :
    Spec injector (runPhase injector x kind writes writes completed) w
      (fun done w' => Ends injector kind (OverlayPlan.byteCount (writes.map ReservedWrite.write))
        (writes.map ReservedWrite.write) w (some done.1) w')
      (Stopped injector (writes.map ReservedWrite.write) w) := by
  refine calls_check rfl ?_
  refine (applyWriteRefs_spec hlen hg).bind fun ev w' h => ?_
  exact Spec.pure ⟨⟨congrArg some h.1.1, h.1.2⟩, h.2⟩

theorem forward_spec {intent : TransactionIntent} {kind : ExecutionKind} {total : ℕ}
    {ps : List (Patch UInt8)} (hx : x.identity = p.preflight.image)
    (h : Spec injector (runIntent injector x p intent) w
      (fun done w' => Ends injector kind total ps w (some done.1) w') (Stopped injector ps w)) :
    Spec injector (MutatingGroup.forward injector x p intent) w (Ends injector kind total ps w)
      (Stopped injector ps w) := by
  unfold MutatingGroup.forward executeIntentWithFaults
  refine Spec.bind (R := fun executed w' => Ends injector kind total ps w (some executed.evidence) w')
    ?_ fun executed w' hend => Spec.pure hend
  refine calls_check hx.symm ?_
  exact h.bind fun done w' hend => Spec.pure hend

theorem restore_spec (hp : Executable H p) (hx : x.identity = p.preflight.image)
    (hlen : w.image.now.length = x.identity.imageBytes) {writes : List OverlayWrite}
    {digest : Digest} (hw : writes ∈ ImageExecutor.authorizedRollbacks p)
    (hd : ImageExecutor.overlayDigest H writes = digest) :
    Spec injector (MutatingGroup.restore H injector x p writes digest) w
      (Ends injector .rollback (OverlayPlan.byteCount writes) writes w)
      (Stopped injector writes w) := by
  have hg := hp.rollback writes hw
  rw [← hx] at hg
  unfold MutatingGroup.restore executeRollbackWithFaults
  refine Spec.bind (R := fun executed w' => Ends injector .rollback (OverlayPlan.byteCount writes)
    writes w (rollbackEvidence executed.outcome) w') ?_ fun executed w' hend => Spec.pure hend
  refine calls_check hx.symm ?_
  refine Spec.bind (R := fun done w' => Ends injector .rollback (OverlayPlan.byteCount writes)
    writes w (rollbackEvidence done.1) w') ?_ fun done w' hend => Spec.pure hend
  refine calls_check ⟨hw, hd⟩ ?_
  refine (applyWriteRefs_spec hlen hg).bind fun ev w' h => ?_
  exact Spec.pure ⟨⟨congrArg some h.1.1, h.1.2⟩, h.2⟩

/-- An attempt at a group finishes it, past both flushes, or it was stopped with some of its bytes
written. -/
theorem attempt_spec (hp : Executable H p) (hx : x.identity = p.preflight.image)
    (hlen : w.image.now.length = p.preflight.image.imageBytes) (group : MutatingGroup) :
    Spec injector (group.attempt H injector x p) w
      (Ends injector group.kind (group.totalLength p) (group.patches p w.image.now) w)
      (Stopped injector (group.patches p w.image.now) w) := by
  rw [← hx] at hlen
  have hroll := hp.rollsBack
  cases group with
  | relocations =>
    have hg := hp.copyable
    rw [← hx] at hg
    refine forward_spec hx (calls_check hp.materializations (calls_check rfl ?_))
    refine (copyRelocations_spec hlen hg).bind fun ev w' h => Spec.pure ⟨⟨?_, h.1.2⟩, h.2⟩
    rw [h.1.1, MutatingGroup.patches, ImageExecutor.copyPatches, List.length_map]
    rfl
  | targetStaging =>
    have hg := hp.targetStaging
    rw [← hx] at hg
    exact forward_spec hx (runPhase_spec hlen hg)
  | backupBoot =>
    have hg := hp.backupBoot
    rw [← hx] at hg
    exact forward_spec hx (runPhase_spec hlen hg)
  | activation =>
    have hg := hp.activation
    rw [← hx] at hg
    exact forward_spec hx (runPhase_spec hlen hg)
  | stagingRollback =>
    exact restore_spec hp hx hlen (by simp [ImageExecutor.authorizedRollbacks])
      ((PreparedConversion.overlayDigest_eq _).trans hroll.staging_digest.symm)
  | preactivationRollback =>
    exact restore_spec hp hx hlen (by simp [ImageExecutor.authorizedRollbacks])
      ((PreparedConversion.overlayDigest_eq _).trans hroll.preactivation_digest.symm)
  | fullRollback =>
    exact restore_spec hp hx hlen (by simp [ImageExecutor.authorizedRollbacks])
      ((PreparedConversion.overlayDigest_eq _).trans hroll.full_digest.symm)

end Attempt

/-! ## A run of attempts -/

section Run

variable {H : Hashing} {p : PreparedConversion} {group : MutatingGroup} {image image' : Bytes}

/-- A finite run of attempts at a group, stopped or not: each with its own chunk size, injector and
environment, from the image the one before left. -/
inductive Attempts (H : Hashing) (p : PreparedConversion) (group : MutatingGroup) (image : Bytes) :
    Bytes → Prop
  | none : Attempts H p group image image
  | next {image' : Bytes} (before : Attempts H p group image image') (injector : FaultInjector)
      (x : ImageExecutor) (w : World) (state : injector.State) (hx : x.identity = p.preflight.image)
      (hw : w.image.now = image') :
      Attempts H p group image (group.attempt H injector x p (w, state)).2.1.image.now

/-- An image on which some of the group's bytes are written asks for the same patches. -/
theorem patches_eq_of_partlyApplied (hp : Executable H p)
    (hlen : image.length = p.preflight.image.imageBytes)
    (h : PartlyApplied (group.patches p image) image image') :
    group.patches p image' = group.patches p image := by
  cases group with
  | relocations =>
    have hg := hp.copyable
    rw [← hlen] at hg
    refine List.map_congr_left fun r hr => ?_
    rw [sliceAt_congr fun y h1 h2 => h.eq_of_not_mem ?_]
    unfold touched MutatingGroup.patches
    rw [map_span_copyPatches hg]
    rintro ⟨d, hd, hy⟩
    obtain ⟨r', hr', rfl⟩ := List.mem_map.1 hd
    exact hg.apart r' hr' r hr y hy ⟨h1, h2⟩
  | targetStaging => rfl
  | backupBoot => rfl
  | activation => rfl
  | stagingRollback => rfl
  | preactivationRollback => rfl
  | fullRollback => rfl

/-- Whatever stopped the attempts, each byte is the first image's or one of the group's. -/
theorem Attempts.partlyApplied (hp : Executable H p)
    (hlen : image.length = p.preflight.image.imageBytes) (h : Attempts H p group image image') :
    PartlyApplied (group.patches p image) image image' := by
  induction h with
  | none => exact PartlyApplied.refl _ _
  | next before injector x w state hx hw ih =>
    subst hw
    have hlen' : w.image.now.length = p.preflight.image.imageBytes := ih.1.trans hlen
    have hspec := @attempt_spec H injector x p w hp hx hlen' group
    rw [patches_eq_of_partlyApplied hp hlen ih] at hspec
    have hwrites : w.Writes (group.patches p image)
        (group.attempt H injector x p (w, state)).2.1 :=
      Prog.Spec.any (E := fun s => w.Writes (group.patches p image) s.1)
        ((hspec state).mono (fun _ _ h => done_writes h.2) fun _ h => h.1)
    refine (ih.trans hwrites.image.now).of_parts fun q hq => ⟨q, ?_, Patch.PartOf.refl q⟩
    simpa using hq

/-- An attempt nothing stops, after any others, makes of the image what the group makes of the
first one. -/
theorem attempt_finishes (hp : Executable H p) (hlen : image.length = p.preflight.image.imageBytes)
    (h : Attempts H p group image image') {x : ImageExecutor} (hx : x.identity = p.preflight.image)
    {w : World} (hw : w.image.now = image') (hq : w.Quiet) :
    ∃ w', group.attempt H .noFault x p (w, ()) =
        (.ok (some ⟨group.kind, (group.patches p image).length, group.totalLength p, true, true⟩),
          (w', ())) ∧
      w'.image.now = applyAll (group.patches p image) image := by
  subst hw
  have hpart := h.partlyApplied hp hlen
  have hspec := @attempt_spec H .noFault x p w hp hx (hpart.1.trans hlen) group
  rw [patches_eq_of_partlyApplied hp hlen hpart] at hspec
  have htotal : Prog.Total (group.attempt H .noFault x p) (w, ()) fun ev s =>
      Ends .noFault group.kind (group.totalLength p) (group.patches p image) w ev s.1 :=
    (hspec ()).mono (fun _ _ h => h) fun _ hs => hs.2 ⟨hq, FaultInjector.silent_noFault⟩
  obtain ⟨ev, ⟨w', u⟩, hrun, ⟨rfl, -⟩, hdone⟩ := htotal.exists
  refine ⟨w', hrun, ?_⟩
  rw [hdone.image]
  exact applyAll_congr hpart.1 fun y hy => hpart.eq_of_not_mem hy

end Run

/-- **Retries converge.** After any attempts at a group of an accepted plan, however they were stopped,
an attempt that nothing stops leaves the image a single one leaves on the first image, whatever the
chunk sizes, with the same evidence; and evidence comes only from an attempt that wrote the whole group
and crossed both flushes. -/
theorem retry_converges {H : Hashing} {p : PreparedConversion}
    {encode : PreparedConversion.EnvelopeEncoder} {source projected target : ObjectGraph}
    {draft : ConversionDraft} {before : List OverlayWrite} {limits : ConversionLimits}
    (hbuild : PreparedConversion.buildWithProjectedTargetGraph H encode source projected target draft
      before limits = .ok p) (group : MutatingGroup) {image image' : Bytes}
    (hlen : image.length = p.preflight.image.imageBytes)
    (hattempts : Attempts H p group image image') :
    (∀ (x x₀ : ImageExecutor) (w w₀ : World), x.identity = p.preflight.image →
      x₀.identity = p.preflight.image → w.image.now = image' → w₀.image.now = image → w.Quiet →
      w₀.Quiet → ∃ evidence w' w₀',
        group.attempt H .noFault x p (w, ()) = (.ok (some evidence), (w', ())) ∧
        group.attempt H .noFault x₀ p (w₀, ()) = (.ok (some evidence), (w₀', ())) ∧
        w'.image.now = w₀'.image.now) ∧
    (∀ (injector : FaultInjector) (x : ImageExecutor) (w w' : World) (state state' : injector.State)
      (result : Option ExecutionEvidence), x.identity = p.preflight.image → w.image.now = image' →
      group.attempt H injector x p (w, state) = (.ok result, (w', state')) →
      (∃ evidence, result = some evidence ∧ evidence.syncDataCompleted = true ∧
        evidence.syncAllCompleted = true ∧ evidence.bytesWritten = group.totalLength p) ∧
      Flushes injector group.kind ∧
      w'.image = Medium.clean (applyAll (group.patches p image) image)) := by
  have hp := executable_of_build hbuild
  have hpart := hattempts.partlyApplied hp hlen
  constructor
  · intro x x₀ w w₀ hx hx₀ hw hw₀ hq hq₀
    obtain ⟨w', hrun, hnow⟩ := attempt_finishes hp hlen hattempts hx hw hq
    obtain ⟨w₀', hrun₀, hnow₀⟩ := attempt_finishes hp hlen .none hx₀ hw₀ hq₀
    exact ⟨_, w', w₀', hrun, hrun₀, hnow.trans hnow₀.symm⟩
  · intro injector x w w' state state' result hx hw hrun
    subst hw
    have hspec := @attempt_spec H injector x p w hp hx (hpart.1.trans hlen) group
    rw [patches_eq_of_partlyApplied hp hlen hpart] at hspec
    obtain ⟨⟨rfl, hflushes⟩, hdone⟩ := (hspec state).ok hrun
    refine ⟨⟨_, rfl, rfl, rfl, rfl⟩, hflushes, ?_⟩
    rw [hdone.image]
    exact congrArg _ (applyAll_congr hpart.1 fun y hy => hpart.eq_of_not_mem hy)

/-- The image of the small volume: its file is the byte at 2. -/
def sampleImage : Bytes := [0, 0, 7, 0, 0, 0]

def sampleWorld : World := ⟨Medium.clean sampleImage, Tape.clean [], fun _ => .proceed⟩

/-- Stops every attempt right after its first write. -/
def stopAfterWrite : FaultInjector := ⟨Unit, fun _ point => (decide (point.boundary = .afterWrite), ())⟩

open PreparedConversion in
/-- The relocation of the small volume, stopped after its write and tried again. -/
theorem retry_converges_sample : ∃ image', Attempts plainHashing samplePrepared .relocations
      sampleImage image' ∧ image' ≠ sampleImage ∧
    ∃ evidence w' w₀',
      MutatingGroup.relocations.attempt plainHashing .noFault samplePrepared.ownExecutor
          samplePrepared (⟨Medium.clean image', Tape.clean [], fun _ => .proceed⟩, ()) =
        (.ok (some evidence), (w', ())) ∧
      MutatingGroup.relocations.attempt plainHashing .noFault samplePrepared.ownExecutor
          samplePrepared (sampleWorld, ()) = (.ok (some evidence), (w₀', ())) ∧
      w'.image.now = w₀'.image.now := by
  obtain ⟨source, target, hbuild⟩ := sampleBuild_ok sampleBuild_samplePrepared
  have hown : samplePrepared.ownExecutor.identity = samplePrepared.preflight.image := by
    rw [ownExecutor]
  obtain ⟨image', hattempts, hne⟩ : ∃ image', Attempts plainHashing samplePrepared .relocations
      sampleImage image' ∧ image' ≠ sampleImage :=
    ⟨_, .next .none stopAfterWrite samplePrepared.ownExecutor sampleWorld () hown rfl,
      by decide +kernel⟩
  refine ⟨image', hattempts, hne, ?_⟩
  exact (retry_converges hbuild .relocations (by decide +kernel) hattempts).1 _ _
    ⟨Medium.clean image', Tape.clean [], fun _ => .proceed⟩ sampleWorld hown hown rfl rfl
    (fun _ => rfl) fun _ => rfl

end Faults

end StarConverter
