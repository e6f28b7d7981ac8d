import StarConverter.Transaction.CrashSafety

/-!
# Activation

As long as nothing is rolled back a run makes progress only by finished groups: between two checkpoints
the image is midway through one group, over what the groups before made of the source image
(`State.Midway`). An activated image is then the planned one, down to the last byte, and its streams
are those of the source (`activated_exact`).
-/

namespace StarConverter

open Base World Geometry Capsule Recovery Conversion Faults

namespace PreparedConversion

/-- The image at a durable phase that nothing was rolled back from. -/
def imageAfter (p : PreparedConversion) (source : Bytes) : TransactionPhase → Bytes
  | .discovered => source
  | .reserved => source
  | .relocating => copyAll p.layout.relocations source
  | .targetStaged =>
    applyAll (p.writes.targetStaging.map ReservedWrite.write) (copyAll p.layout.relocations source)
  | .backupBootWritten =>
    applyAll (p.writes.backupBoot.map ReservedWrite.write)
      (applyAll (p.writes.targetStaging.map ReservedWrite.write)
        (copyAll p.layout.relocations source))
  | .activated => p.finalImage source
  | .verified => p.finalImage source
  | .finalized => p.finalImage source
  | .rolledBack => source

variable {p : PreparedConversion} {sourceGraph projected target : ObjectGraph} {source image : Bytes}

/-- Each group leads from one checkpoint to the next. -/
theorem applyAll_groupAfter (h : KeepsPayload sourceGraph projected target p)
    (hlen : source.length = p.preflight.image.imageBytes) {phase next : TransactionPhase}
    (hnext : nextPhase phase = some next) :
    applyAll (p.groupAfter (p.imageAfter source phase) phase) (p.imageAfter source phase) =
      p.imageAfter source next := by
  cases phase with
  | reserved =>
    obtain rfl := Option.some.inj hnext
    exact (h.copyAll_eq hlen).symm
  | backupBootWritten =>
    obtain rfl := Option.some.inj hnext
    unfold groupAfter imageAfter finalImage finalWrites forwardWrites
    rw [List.map_append, List.map_append, applyAll_append, applyAll_append]
  | discovered | relocating | targetStaged | activated | verified =>
    obtain rfl := Option.some.inj hnext
    rfl
  | finalized => cases hnext
  | rolledBack => cases hnext

theorem length_imageAfter (phase : TransactionPhase) (hcopy : (copyAll p.layout.relocations
    source).length = source.length) : (p.imageAfter source phase).length = source.length := by
  cases phase <;> simp [imageAfter, finalImage, hcopy]

/-- A group that is partly carried out asks for the same patches. -/
theorem groupAfter_eq_of_partlyApplied {H : Hashing} (hp : Executable H p) {base : Bytes}
    {phase : TransactionPhase} (hlen : base.length = p.preflight.image.imageBytes)
    (h : PartlyApplied (p.groupAfter base phase) base image) :
    p.groupAfter image phase = p.groupAfter base phase := by
  cases phase with
  | reserved => exact @patches_eq_of_partlyApplied H p .relocations base image hp hlen h
  | _ => rfl

end PreparedConversion

namespace Transaction

variable {H : Hashing} {p : PreparedConversion} {source : Bytes}

/-- **Progress of a state.** The image is midway through the group after the durable phase, and a group
that was reported complete is complete. -/
structure State.Midway (source : Bytes) (p : PreparedConversion) (s : State) : Prop where
  forward : s.phase ≠ .rolledBack
  image : s.world.image.Midway (p.groupAfter (p.imageAfter source s.phase) s.phase)
    (p.imageAfter source s.phase)
  completed : ∀ next, s.completed = some next → nextPhase s.phase = some next ∧
    s.world.image = Medium.clean (p.imageAfter source next)

theorem midway_start (capsule : Tape UInt8) (events : ℕ → Event) :
    (start source capsule events).Midway source p where
  forward := by simp [start]
  image := Medium.Midway.clean (PartlyApplied.refl _ _)
  completed _ h := by cases h

/-- The next checkpoint over an image that the group before has finished. -/
theorem midway_clean {image : Bytes} {ps : List (Patch UInt8)} {m : Medium UInt8}
    (h : m = Medium.clean image) : m.Midway ps image :=
  h ▸ Medium.Midway.clean (PartlyApplied.refl _ _)

theorem nextPhase_ne_rolledBack {phase next : TransactionPhase} (h : nextPhase phase = some next) :
    next ≠ .rolledBack := by
  rintro rfl
  cases phase <;> cases h

/-- Checkpoints that need no evidence leave the image and its group alone. -/
theorem midway_records {phase next : TransactionPhase} (hnext : nextPhase phase = some next)
    (halone : RecordsAlone next) : p.imageAfter source next = p.imageAfter source phase ∧
      p.groupAfter (p.imageAfter source phase) phase = [] := by
  rcases halone with rfl | rfl | rfl <;> cases phase <;> first | exact ⟨rfl, rfl⟩ | cases hnext

section Forward

variable {sourceGraph projected target : ObjectGraph}
  (hk : PreparedConversion.KeepsPayload sourceGraph projected target p)
  (hlen : source.length = p.preflight.image.imageBytes)

include hk hlen

theorem length_imageAfter (phase : TransactionPhase) :
    (p.imageAfter source phase).length = p.preflight.image.imageBytes := by
  rw [PreparedConversion.length_imageAfter phase ?_, hlen]
  rw [hk.copyAll_eq hlen, length_applyAll]

variable (hp : Executable H p)

include hp

theorem midway_advance {s t : State} (hs : s.Midway source p) (h : Advance p s t) :
    t.Midway source p := by
  cases h with
  | execute injector x state intent hx hintent =>
    have hpart := hs.image.now
    have hnow : s.world.image.now.length = p.preflight.image.imageBytes :=
      hpart.1.trans (length_imageAfter hk hlen s.phase)
    have hgroup := PreparedConversion.groupAfter_eq_of_partlyApplied hp
      (length_imageAfter hk hlen s.phase) hpart
    rcases run_of_spec (executeIntent_spec hp hx hnow hintent) state with
      ⟨executed, hok, hnext, hdone⟩ | ⟨hstop, hwrites⟩
    · rw [hgroup] at hdone
      refine ⟨hs.forward, hs.image.wrote (done_writes hdone).image, fun next hcompleted => ?_⟩
      have hphase : executed.completedPhase = next := by
        have heq : completedOf (Outcome.ok executed) = some next := hok ▸ hcompleted
        exact Option.some.inj heq
      subst hphase
      refine ⟨hnext, ?_⟩
      show (executeIntentWithFaults injector x p intent (s.world, state)).2.1.image = _
      rw [hdone.image, hs.image.applyAll_eq, PreparedConversion.applyAll_groupAfter hk hlen hnext]
    · rw [hgroup] at hwrites
      refine ⟨hs.forward, hs.image.wrote hwrites.image, fun next hcompleted => ?_⟩
      have hnone : completedOf (executeIntentWithFaults injector x p intent (s.world, state)).1 =
          none := by
        cases hout : (executeIntentWithFaults injector x p intent (s.world, state)).1 with
        | ok executed => exact absurd hout (hstop executed)
        | error e => rfl
        | crashed => rfl
      rw [hnone] at hcompleted
      cases hcompleted
  | record next hnext hevidence =>
    refine ⟨nextPhase_ne_rolledBack hnext, ?_, fun _ hcompleted => by cases hcompleted⟩
    rcases hevidence with hcompleted | halone
    · exact midway_clean (hs.completed next hcompleted).2
    · obtain ⟨hsame, hnone⟩ := @midway_records p source _ _ hnext halone
      have himage := hs.image
      rw [hnone] at himage
      show s.world.image.Midway _ (p.imageAfter source next)
      rw [hsame]
      exact himage.mono fun q hq => by cases hq
  | crash image capsule events himage =>
    exact ⟨hs.forward, Medium.Midway.clean (hs.image.exposes himage),
      fun _ hcompleted => by cases hcompleted⟩

theorem midway_run {capsule : Tape UInt8} {events : ℕ → Event} {s : State}
    (hrun : Relation.ReflTransGen (Advance p) (start source capsule events) s) :
    s.Midway source p := by
  induction hrun with
  | refl => exact midway_start capsule events
  | tail _ hstep ih => exact midway_advance hk hlen hp ih hstep

end Forward

variable {encode : PreparedConversion.EnvelopeEncoder}
  {sourceGraph projected target : ObjectGraph} {draft : ConversionDraft} {before : List OverlayWrite}
  {limits : ConversionLimits} {image : Bytes} {capsule : Tape UInt8} {events : ℕ → Event} {s : State}

/-- **Activation.** In every run of forward steps and crashes each byte a crash may leave is the one of
the image at the durable phase or one of the group after it. Once activation is durable the image is
the source image with all relocations and writes of the plan, and every stream reads as it did. -/
theorem activated_exact
    (hbuild : PreparedConversion.buildWithProjectedTargetGraph H encode sourceGraph projected target
      draft before limits = .ok p)
    (hphys : ∀ e ∈ projected.extents.extents, ∀ range, e.physical? = some range →
      ∃ e' ∈ sourceGraph.extents.extents, e'.physical? = some range)
    (hlen : source.length = p.preflight.image.imageBytes)
    (hrun : Relation.ReflTransGen (Advance p) (start source capsule events) s)
    (himage : s.world.image.Exposes image) :
    PartlyApplied (p.groupAfter (p.imageAfter source s.phase) s.phase)
      (p.imageAfter source s.phase) image ∧
    (s.phase = .activated ∨ s.phase = .verified ∨ s.phase = .finalized →
      image = p.finalImage source ∧ ∀ stream, readStream target.extents image stream =
        readStream projected.extents source stream) := by
  have hp := executable_of_build hbuild
  have hk := PreparedConversion.keepsPayload_of_build hbuild
  have hpart := (midway_run hk hlen hp hrun).image.exposes himage
  refine ⟨hpart, fun hphase => ?_⟩
  have hfinal : image = p.finalImage source := by
    have hnone : PartlyApplied [] (p.finalImage source) image := by
      rcases hphase with hphase | hphase | hphase <;> · rw [hphase] at hpart; exact hpart
    refine List.ext_getElem? fun i => hnone.eq_of_not_mem ?_
    exact fun hi => (mem_touched.1 hi).elim fun q hq => (by cases hq.1)
  subst hfinal
  exact ⟨rfl, hk.readStream_eq hlen hphys⟩

/-- A group that is carried out completely, with its checkpoint. -/
theorem run_group {t : State} {intent : TransactionIntent} {next : TransactionPhase}
    (hrun : Relation.ReflTransGen (Advance p) s t) (hintent : p.Authorizes t.phase intent)
    (hnext : nextPhase t.phase = some next) (hdone : (carryOut p t intent).completed = some next) :
    Relation.ReflTransGen (Advance p) s ⟨(carryOut p t intent).world, next, none⟩ :=
  .tail (.tail hrun (advance_carryOut hintent)) (.record _ next hnext (.inl hdone))

/-- The sample, carried out without a fault. -/
theorem activated_exact_sample : ∃ s : State, s.phase = .activated ∧
    s.world.image.now = PreparedConversion.samplePrepared.finalImage sampleImage := by
  obtain ⟨source, target, hbuild⟩ :=
    PreparedConversion.sampleBuild_ok PreparedConversion.sampleBuild_samplePrepared
  have hstart : Relation.ReflTransGen (Advance PreparedConversion.samplePrepared)
      (start sampleImage (Tape.clean []) fun _ => .proceed)
      ⟨⟨Medium.clean sampleImage, Tape.clean [], fun _ => .proceed⟩, .reserved, none⟩ :=
    .tail .refl (.record _ .reserved rfl (.inr (.inl rfl)))
  have hrelocated := run_group hstart (.next .reserved) rfl (by decide +kernel)
  have hstaged := run_group hrelocated (.next .relocating) rfl (by decide +kernel)
  have hbackup := run_group hstaged .backupBoot rfl (by decide +kernel)
  have hactivated := run_group hbackup (.next .backupBootWritten) rfl (by decide +kernel)
  have hexact := activated_exact hbuild (fun e he range hrange => ⟨e, he, hrange⟩)
    (by decide +kernel) hactivated (Medium.exposes_now _)
  exact ⟨_, rfl, (hexact.2 (.inl rfl)).1⟩

end Transaction

end StarConverter
