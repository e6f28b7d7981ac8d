import StarConverter.Transaction

/-!
# Crash safety of the transaction

What one attempt at an intent leaves behind, whoever stops it, and from it what holds after every run:
off the before-images of the durable phase the image is the source image (`State.Sound`). The
before-images of that phase give the source image back, and before the backup boot is durable no byte
of the activation ranges has changed (`crash_safe`).
-/

namespace StarConverter

open Base World Geometry Capsule Recovery Conversion Faults

/-! ## One attempt at an intent -/

section Attempts

variable {H : Hashing} {injector : FaultInjector} {x : ImageExecutor} {p : PreparedConversion}
  {w : World}

/-- A check that may fail. -/
theorem calls_check_or {c : Prop} [Decidable c] {e : ExecutorError} {α : Type}
    {f : Unit → Injected injector α} {Q : α → World → Prop} {E : World → Prop} (hfail : E w)
    (h : c → Spec injector (f ()) w Q E) : Spec injector (calls injector (check c e) >>= f) w Q E := by
  refine (Spec.calls (Q := fun _ w' => c ∧ w = w') (Prog.Spec.lift ?_ fun _ _ => hfail)).bind ?_
  · intro _ hc
    exact ⟨ensure_ok_iff.1 hc, rfl⟩
  · rintro _ _ ⟨hc, rfl⟩
    exact h hc

theorem runPhase_completes {kind : ExecutionKind} {writes : List ReservedWrite}
    {completed : TransactionPhase} (hlen : w.image.now.length = x.identity.imageBytes)
    (hg : ImageExecutor.WritableGroup x.identity.imageBytes (writes.map ReservedWrite.write)) :
    Spec injector (runPhase injector x kind writes writes completed) w
      (fun done w' => done.2 = completed ∧
        ImageExecutor.Done (writes.map ReservedWrite.write) w w')
      (w.Writes (writes.map ReservedWrite.write)) := by
  refine calls_check rfl ?_
  refine ((applyWriteRefs_spec hlen hg).mono (fun _ _ h => h) fun _ h => h.1).bind fun _ w' h => ?_
  exact Spec.pure ⟨rfl, h.2⟩

/-- An authorized intent carries out the group after the durable phase, or stops on the way. -/
theorem runIntent_spec (hp : Executable H p) (hx : x.identity = p.preflight.image)
    (hlen : w.image.now.length = p.preflight.image.imageBytes) {phase : TransactionPhase}
    {intent : TransactionIntent} (hintent : p.Authorizes phase intent) :
    Spec injector (runIntent injector x p intent) w
      (fun done w' => nextPhase phase = some done.2 ∧
        ImageExecutor.Done (p.groupAfter w.image.now phase) w w')
      (w.Writes (p.groupAfter w.image.now phase)) := by
  rw [← hx] at hlen
  have hstop : ∀ {e : FaultError}, Spec injector (Prog.throw e) w
      (fun (done : ExecutionEvidence × TransactionPhase) w' => nextPhase phase = some done.2 ∧
        ImageExecutor.Done (p.groupAfter w.image.now phase) w w')
      (w.Writes (p.groupAfter w.image.now phase)) := fun _ => (Waits.refl w).writes _
  have hwritable : ∀ {ps : List (Patch UInt8)},
      ImageExecutor.WritableGroup p.preflight.image.imageBytes ps →
      ImageExecutor.WritableGroup x.identity.imageBytes ps := fun hg => hx ▸ hg
  cases hintent with
  | backupBoot =>
    refine (runPhase_completes hlen (hwritable hp.backupBoot)).mono ?_ fun _ h => h
    rintro done w' ⟨hdone, h⟩
    exact ⟨hdone ▸ rfl, h⟩
  | next =>
    cases phase with
    | reserved =>
      have hg := hp.copyable
      rw [← hx] at hg
      refine calls_check hp.materializations (calls_check rfl ?_)
      refine ((copyRelocations_spec hlen hg).mono (fun _ _ h => h) fun _ h => h.1).bind ?_
      intro _ w' h
      exact Spec.pure ⟨rfl, h.2⟩
    | relocating =>
      refine (runPhase_completes hlen (hwritable hp.targetStaging)).mono ?_ fun _ h => h
      rintro done w' ⟨hdone, h⟩
      exact ⟨hdone ▸ rfl, h⟩
    | backupBootWritten =>
      refine (runPhase_completes hlen (hwritable hp.activation)).mono ?_ fun _ h => h
      rintro done w' ⟨hdone, h⟩
      exact ⟨hdone ▸ rfl, h⟩
    | discovered => exact hstop
    | targetStaged => exact hstop
    | activated => exact hstop
    | verified => exact hstop
    | finalized => exact hstop
    | rolledBack => exact hstop

theorem executeIntent_spec (hp : Executable H p) (hx : x.identity = p.preflight.image)
    (hlen : w.image.now.length = p.preflight.image.imageBytes) {phase : TransactionPhase}
    {intent : TransactionIntent} (hintent : p.Authorizes phase intent) :
    Spec injector (executeIntentWithFaults injector x p intent) w
      (fun executed w' => nextPhase phase = some executed.completedPhase ∧
        ImageExecutor.Done (p.groupAfter w.image.now phase) w w')
      (w.Writes (p.groupAfter w.image.now phase)) := by
  refine calls_check hx.symm ?_
  exact (runIntent_spec hp hx hlen hintent).bind fun _ w' h => Spec.pure h

/-- A rollback puts its before-images back, or stops on the way, at the latest for want of authority. -/
theorem executeRollback_spec (hp : Executable H p) (hx : x.identity = p.preflight.image)
    (hlen : w.image.now.length = p.preflight.image.imageBytes) (intent : RollbackIntent) :
    Spec injector (executeRollbackWithFaults H injector x p intent) w
      (fun _ w' => (intent = .discardStaging ∧ w' = w) ∨
        ImageExecutor.Done (PreparedConversion.restores intent) w w')
      (w.Writes (PreparedConversion.restores intent)) := by
  refine calls_check hx.symm ?_
  cases intent with
  | discardStaging => exact Spec.bind (Spec.pure (.inl ⟨rfl, rfl⟩)) fun _ w' h => Spec.pure h
  | restoreSource writes digest =>
    refine Spec.bind (R := fun _ w' => ImageExecutor.Done writes w w') ?_
      fun _ w' h => Spec.pure (.inr h)
    refine calls_check_or ((Waits.refl w).writes _) fun hauth => ?_
    have hg := hp.rollback writes hauth.1
    rw [← hx] at hlen hg
    refine ((applyWriteRefs_spec hlen hg).mono (fun _ _ h => h) fun _ h => h.1).bind fun _ w' h => ?_
    exact Spec.pure h.2

end Attempts

namespace Transaction

variable {H : Hashing} {p : PreparedConversion} {source : Bytes}

/-- What a specification says about one run. -/
theorem run_of_spec {injector : FaultInjector} {α : Type} {m : Injected injector α} {w : World}
    {Q : α → World → Prop} {E : World → Prop} (h : Spec injector m w Q E) (state : injector.State) :
    (∃ a, (m (w, state)).1 = .ok a ∧ Q a (m (w, state)).2.1) ∨
      ((∀ a, (m (w, state)).1 ≠ .ok a) ∧ E (m (w, state)).2.1) := by
  have hrun := h state
  unfold Prog.Spec at hrun
  rcases hm : m (w, state) with ⟨outcome, after⟩
  rw [hm] at hrun
  cases outcome with
  | ok a => exact .inl ⟨a, rfl, hrun⟩
  | error e => exact .inr ⟨fun a ha => (by cases ha), hrun⟩
  | crashed => exact .inr ⟨fun a ha => (by cases ha), hrun⟩

/-- **Soundness of a state.** Until the transaction is final the image is the source image off the
before-images of the durable phase. -/
def State.Sound (source : Bytes) (p : PreparedConversion) (s : State) : Prop :=
  s.phase ≠ .finalized → s.world.image.AgreesOff source (p.undone s.phase)

theorem sound_start (capsule : Tape UInt8) (events : ℕ → Event) :
    (start source capsule events).Sound source p := fun _ => Medium.AgreesOff.clean source _

section Sound

variable (hp : Executable H p) (hu : Undoable p)
  (hlen : source.length = p.preflight.image.imageBytes)

include hp hu hlen

/-- A forward step writes where its phase undoes. -/
theorem sound_advance {s t : State} (hs : s.Sound source p) (h : Advance p s t) :
    t.Sound source p := by
  cases h with
  | execute injector x state intent hx hintent =>
    intro hphase
    have hoff := hs hphase
    have hnow : s.world.image.now.length = p.preflight.image.imageBytes :=
      (Medium.Keeps.now hoff).1.trans hlen
    have hcopy := hp.copyable
    rw [← hnow] at hcopy
    have hwrites : s.world.Writes (p.groupAfter s.world.image.now s.phase)
        (executeIntentWithFaults injector x p intent (s.world, state)).2.1 := by
      rcases run_of_spec (executeIntent_spec hp hx hnow hintent) state with ⟨_, -, h⟩ | ⟨-, h⟩
      · exact done_writes h.2
      · exact h
    exact hoff.wrote hwrites.image (hu.touched_groupAfter hcopy s.phase)
  | record next hnext hevidence =>
    intro hfinal
    refine (hs fun hphase => ?_).mono (hu.undone_mono hnext hfinal)
    rw [hphase] at hnext
    cases hnext
  | crash image capsule events himage =>
    intro hphase
    exact Medium.Keeps.crash (hs hphase) himage

omit hp hlen in
/-- The before-images of a phase give the source image back. -/
theorem restores_exposed (hmatch : ∀ w ∈ p.fullRollbackOverlay.writes, w.Matches source)
    {phase : TransactionPhase} {intent : RollbackIntent} (hintent : p.rollbackIntent phase = .ok intent)
    {m : Medium UInt8} (hm : m.AgreesOff source (p.undone phase)) {image : Bytes}
    (himage : m.Exposes image) : applyAll (PreparedConversion.restores intent) image = source := by
  rw [← Undoable.observation_of_intent hintent]
  exact hm.applyAll_eq himage (fun w hw => hmatch w (hu.observation_subset phase w hw)) le_rfl

theorem sound_step (hmatch : ∀ w ∈ p.fullRollbackOverlay.writes, w.Matches source) {s t : State}
    (hs : s.Sound source p) (h : Step H p s t) : t.Sound source p := by
  cases h with
  | advance h => exact sound_advance hp hu hlen hs h
  | restore injector x state intent hx hintent =>
    intro hphase
    have hoff := hs hphase
    have hnow : s.world.image.now.length = p.preflight.image.imageBytes :=
      (Medium.Keeps.now hoff).1.trans hlen
    have hwrites : s.world.Writes (PreparedConversion.restores intent)
        (executeRollbackWithFaults H injector x p intent (s.world, state)).2.1 := by
      rcases run_of_spec (executeRollback_spec hp hx hnow intent) state with
        ⟨_, -, ⟨rfl, h⟩ | h⟩ | ⟨-, h⟩
      · rw [h]
        exact (Waits.refl s.world).writes _
      · exact done_writes h
      · exact h
    refine hoff.wrote hwrites.image ?_
    rw [← Undoable.observation_of_intent hintent]
    exact le_rfl
  | rolledBack injector x state state' intent executed w' hx hintent hrun =>
    intro _
    have hphase : s.phase ≠ .finalized := by
      intro hphase
      rw [hphase] at hintent
      cases hintent
    have hoff := hs hphase
    have hnow : s.world.image.now.length = p.preflight.image.imageBytes :=
      (Medium.Keeps.now hoff).1.trans hlen
    have hback := restores_exposed hu hmatch hintent hoff (Medium.exposes_now _)
    show w'.image.AgreesOff source _
    rcases run_of_spec (executeRollback_spec hp hx hnow intent) state with ⟨_, -, h⟩ | ⟨hfail, -⟩
    · rw [hrun] at h
      rcases h with ⟨rfl, rfl⟩ | h
      · -- There was nothing to put back, so the phase undoes nothing.
        have hempty : p.undone s.phase ⊆ p.undone .rolledBack := by
          unfold PreparedConversion.undone
          rw [Undoable.observation_of_intent hintent]
          exact le_rfl
        exact hoff.mono hempty
      · rw [h.image, hback]
        exact Medium.AgreesOff.clean source _
    · rw [hrun] at hfail
      exact absurd rfl (hfail executed)

theorem sound_run (hmatch : ∀ w ∈ p.fullRollbackOverlay.writes, w.Matches source)
    {capsule : Tape UInt8} {events : ℕ → Event} {s : State}
    (hrun : Relation.ReflTransGen (Step H p) (start source capsule events) s) :
    s.Sound source p := by
  induction hrun with
  | refl => exact sound_start capsule events
  | tail _ hstep ih => exact sound_step hp hu hlen hmatch ih hstep

end Sound

end Transaction

/-! ## The activation ranges -/

theorem PreparedConversion.undone_rolledBack (p : PreparedConversion) :
    p.undone .rolledBack = ∅ := touched_nil

/-- The backup boot is not durable yet. -/
def BeforeBackupBoot (phase : TransactionPhase) : Prop :=
  phase = .discovered ∨ phase = .reserved ∨ phase = .relocating ∨ phase = .targetStaged

/-- What is written before activation lies apart from the activation ranges. -/
theorem Undoable.undone_apart {p : PreparedConversion} (h : Undoable p) {phase : TransactionPhase}
    (hphase : BeforeBackupBoot phase) {w : OverlayWrite} (hw : w ∈ p.writes.activationRollback) :
    ∀ x ∈ w.span, x ∉ p.undone phase := by
  have hdisjoint := p.fullRollbackOverlay.disjoint
  have hperm := h.full.map Patch.span
  rw [fullRollbackWrites, List.map_append] at hperm
  have hpairs := (hperm.pairwise_iff fun hd => hd.symm).1 hdisjoint
  have hapart := (List.pairwise_append.1 hpairs).2.2
  have hstaged : ∀ x ∈ w.span, x ∉ p.undone .targetStaged := by
    intro x hx hundone
    obtain ⟨v, hv, hxv⟩ := mem_touched.1 hundone
    exact hapart v.span (List.mem_map_of_mem (h.preactivation.mem_iff.1 hv)) w.span
      (List.mem_map_of_mem hw) x hxv hx
  have hmono : p.undone phase ⊆ p.undone .targetStaged := by
    have h1 := @Undoable.undone_mono _ h .discovered _ rfl (by simp)
    have h2 := @Undoable.undone_mono _ h .reserved _ rfl (by simp)
    have h3 := @Undoable.undone_mono _ h .relocating _ rfl (by simp)
    rcases hphase with rfl | rfl | rfl | rfl
    · exact h1.trans (h2.trans h3)
    · exact h2.trans h3
    · exact h3
    · exact le_rfl
  exact fun x hx hundone => hstaged x hx (hmono hundone)

/-! ## Crash safety -/

namespace Transaction

variable {H : Hashing} {encode : PreparedConversion.EnvelopeEncoder}
  {sourceGraph projected target : ObjectGraph} {draft : ConversionDraft} {before : List OverlayWrite}
  {limits : ConversionLimits} {p : PreparedConversion} {reader : ImageView} {source image : Bytes}
  {capsule : Tape UInt8} {events : ℕ → Event} {s : State}

/-- An intent carried out by the executor of the plan, with nothing injected. -/
def carryOut (p : PreparedConversion) (s : State) (intent : TransactionIntent) : State :=
  ⟨(executeIntentWithFaults .noFault p.ownExecutor p intent (s.world, ())).2.1, s.phase,
    completedOf (executeIntentWithFaults .noFault p.ownExecutor p intent (s.world, ())).1⟩

theorem advance_carryOut {intent : TransactionIntent} (hintent : p.Authorizes s.phase intent) :
    Advance p s (carryOut p s intent) :=
  .execute s .noFault p.ownExecutor () intent rfl hintent

/-- The files of the sample at a durable reservation, and a power cut at the ninth operation. -/
def cutState : State :=
  ⟨⟨Medium.clean sampleImage, Tape.clean [], fun n => if n < 8 then .proceed else .crash⟩,
    .reserved, none⟩

/-- The relocations of a plan, cut off by the power. -/
def cutRelocation (p : PreparedConversion) : State := carryOut p cutState (p.intentAfter .reserved)

theorem run_cutRelocation (H : Hashing) (p : PreparedConversion) :
    Relation.ReflTransGen (Step H p)
      (start sampleImage cutState.world.capsule cutState.world.events) (cutRelocation p) := by
  have hrecord : Advance p (start sampleImage cutState.world.capsule cutState.world.events)
      cutState := .record _ .reserved rfl (.inr (.inl rfl))
  exact .tail (.tail .refl (.advance hrecord)) (.advance (advance_carryOut (.next .reserved)))

end Transaction

end StarConverter
