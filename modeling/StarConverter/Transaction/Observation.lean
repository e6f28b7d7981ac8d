import StarConverter.Transaction.CrashSafety

/-!
# What a restart observes

A restart digests the image through the before-images of its durable phase and compares the digest with
the evidence of the plan. Whatever the steps before left behind, the comparison goes well
(`observation_accepted`).
-/

namespace StarConverter

open Base World Geometry Capsule Recovery Conversion Faults

/-- An overlay of the plan, as a rollback set of its image. -/
theorem OverlayPlan.canonical_of_image {plan : OverlayPlan} {imageBytes : ℕ}
    (h : plan.imageBytes = imageBytes) : CanonicalWrites imageBytes plan.writes :=
  h ▸ plan.canonicalWrites

/-- The before-images of a phase are a rollback set that a virtual original accepts. -/
theorem Undoable.observation_canonical {p : PreparedConversion} (h : Undoable p)
    {phase : TransactionPhase} {writes : List OverlayWrite}
    (hw : p.observationRollbackWrites phase = some writes) :
    CanonicalWrites p.preflight.image.imageBytes writes ∧ OverlayPlan.byteCount writes < wordBound := by
  unfold PreparedConversion.observationRollbackWrites at hw
  cases phase with
  | discovered => cases hw
  | finalized => cases hw
  | rolledBack => cases hw
  | reserved =>
    dsimp only at hw
    split_ifs at hw
    obtain rfl := Option.some.inj hw
    exact ⟨OverlayPlan.canonical_of_image h.relocation_image,
      p.relocationRollbackOverlay.replacement_lt⟩
  | relocating =>
    obtain rfl := Option.some.inj hw
    exact ⟨OverlayPlan.canonical_of_image h.staging_image, p.stagingRollbackOverlay.replacement_lt⟩
  | targetStaged =>
    obtain rfl := Option.some.inj hw
    exact ⟨OverlayPlan.canonical_of_image h.preactivation_image,
      p.preactivationRollbackOverlay.replacement_lt⟩
  | backupBootWritten =>
    obtain rfl := Option.some.inj hw
    exact ⟨OverlayPlan.canonical_of_image h.full_image, p.fullRollbackOverlay.replacement_lt⟩
  | activated =>
    obtain rfl := Option.some.inj hw
    exact ⟨OverlayPlan.canonical_of_image h.full_image, p.fullRollbackOverlay.replacement_lt⟩
  | verified =>
    obtain rfl := Option.some.inj hw
    exact ⟨OverlayPlan.canonical_of_image h.full_image, p.fullRollbackOverlay.replacement_lt⟩

section Observe

variable {H : Hashing} {p : PreparedConversion} {source image : Bytes} {view : ImageView}
  {phase : TransactionPhase}

/-- Through its before-images a view of the image is a view of the source. -/
theorem observePhase_ok (hu : Undoable p) (hlen : source.length = p.preflight.image.imageBytes)
    (hsize : source.length < wordBound) (hne : p.preflight.image.imageBytes ≠ 0)
    (hview : view.Shows image) (hread : view.maxReadBytes ≠ 0) (himage : image.length = source.length)
    (hback : applyAll ((p.observationRollbackWrites phase).getD []) image = source) :
    p.observePhase H view phase = .ok ⟨p.preflight.image,
      if phaseRequiresSourceEvidence phase then
        some (H.sha256 (sourceViewDomain ++ toLe 8 source.length ++ source)) else none⟩ := by
  have hdigest : ∀ {shown : ImageView}, shown.Shows source → shown.maxReadBytes ≠ 0 →
      digestSourceView H shown ⟨p.preflight.image.imageBytes, candidateAuditMaxReadBytes⟩ =
        .ok (H.sha256 (sourceViewDomain ++ toLe 8 source.length ++ source)) := fun hshown hmax =>
    digestSourceView_ok hshown hsize hmax hne candidateAuditMaxReadBytes_pos.ne' hlen.le
  unfold PreparedConversion.observePhase
  dsimp only
  split_ifs with hphase
  · cases hwrites : p.observationRollbackWrites phase with
    | none =>
      rw [hwrites] at hback
      have hsame : image = source := hback
      subst hsame
      dsimp only
      rw [hdigest hview hread]
      rfl
    | some writes =>
      rw [hwrites, Option.getD_some] at hback
      obtain ⟨hcanonical, hcount⟩ := hu.observation_canonical hwrites
      rw [← hlen, ← himage] at hcanonical
      have hsum : sumChecked RegularImageCoordinatorError.candidateRangeOverflow 0
          (writes.map fun w => w.bytes.length) = .ok (OverlayPlan.byteCount writes) := by
        rw [sumChecked_ok_iff wordBound_pos, Nat.zero_add]
        exact ⟨hcount, rfl⟩
      have hnew : VirtualOriginal.new view writes
          ⟨max writes.length 1, max (OverlayPlan.byteCount writes) 1⟩ =
            .ok (VirtualOriginal.view view writes) := by
        rw [VirtualOriginal.new_ok_iff, hview.len]
        exact ⟨(lt_max_of_lt_right one_pos).ne', (lt_max_of_lt_right one_pos).ne', le_max_left _ _,
          hcanonical, hcount, le_max_left _ _, rfl⟩
      have hshown := VirtualOriginal.view_shows hview (himage ▸ hsize) hcanonical
      rw [hback] at hshown
      dsimp only
      rw [hsum, ok_bind, hnew]
      show ((digestSourceView H (VirtualOriginal.view view writes)
        ⟨p.preflight.image.imageBytes, candidateAuditMaxReadBytes⟩).mapError _ >>= _) = _
      rw [hdigest hshown hread]
      rfl
  · rfl

end Observe

namespace Transaction

variable {H : Hashing} {encode : PreparedConversion.EnvelopeEncoder}
  {sourceGraph projected target : ObjectGraph} {draft : ConversionDraft} {before : List OverlayWrite}
  {limits : ConversionLimits} {p : PreparedConversion} {reader view : ImageView}
  {source image : Bytes} {capsule : Tape UInt8} {events : ℕ → Event} {s : State}

/-- **Observations.** When the source was digested into the plan and its before-images were checked,
every state of every run observes evidence that the plan accepts, whichever image a crash left and in
whatever pieces it is read. -/
theorem observation_accepted
    (hbuild : PreparedConversion.buildWithProjectedTargetGraph H encode sourceGraph projected target
      draft before limits = .ok p)
    (hreader : reader.Shows source) (hlen : source.length = p.preflight.image.imageBytes)
    (hsize : source.length < wordBound)
    (hdigest : digestSourceView H reader ⟨p.preflight.image.imageBytes, candidateAuditMaxReadBytes⟩ =
      .ok p.preflight.sourceEvidenceDigest)
    (hlocked : validateLockedBeforeImages reader p = .ok ())
    (hrun : Relation.ReflTransGen (Step H p) (start source capsule events) s)
    (himage : s.world.image.Exposes image) (hview : view.Shows image)
    (hread : view.maxReadBytes ≠ 0) :
    ∃ observed, p.observePhase H view s.phase = .ok observed ∧
      p.validateObserved observed (phaseRequiresSourceEvidence s.phase) = .ok () := by
  have hu := undoable_of_build hbuild
  have hp := executable_of_build hbuild
  by_cases hphase : phaseRequiresSourceEvidence s.phase
  · have hfinal : s.phase ≠ .finalized := by
      intro hfinal
      rw [hfinal] at hphase
      simp [phaseRequiresSourceEvidence] at hphase
    have hmatch := hu.matches_of_locked hreader hlen hlocked
    have hoff := sound_run hp hu hlen hmatch hrun hfinal
    have himageLength := (Medium.Keeps.exposes hoff himage).1
    have hback : applyAll ((p.observationRollbackWrites s.phase).getD []) image = source :=
      hoff.applyAll_eq himage (fun w hw => hmatch w (hu.observation_subset s.phase w hw)) le_rfl
    have hchecks := hdigest
    simp only [digestSourceView, bind_ok_iff, exists_const, ensure_ok_iff] at hchecks
    obtain ⟨hne, -, -, hmin, -⟩ := hchecks
    have hmax : reader.maxReadBytes ≠ 0 := by omega
    rw [digestSourceView_ok hreader hsize hmax hne candidateAuditMaxReadBytes_pos.ne' hlen.le,
      Except.ok.injEq] at hdigest
    refine ⟨_, observePhase_ok hu hlen hsize hne hview hread himageLength hback, ?_⟩
    rw [PreparedConversion.validateObserved, ensure_of rfl, ok_bind, ensure_ok_iff]
    intro _
    rw [if_pos hphase, hdigest]
  · refine ⟨⟨p.preflight.image, none⟩, ?_, ?_⟩
    · unfold PreparedConversion.observePhase
      dsimp only
      rw [if_neg hphase]
      rfl
    · rw [PreparedConversion.validateObserved, ensure_of rfl, ok_bind, ensure_ok_iff]
      exact fun h => absurd h hphase

/-- After the cut move of the sample, read byte by byte. -/
theorem observation_accepted_sample : ∃ observed,
    PreparedConversion.samplePrepared.observePhase PreparedConversion.plainHashing
      (.ofFile (cutRelocation PreparedConversion.samplePrepared).world.image.now 1 one_pos)
      .reserved = .ok observed ∧
    PreparedConversion.samplePrepared.validateObserved observed
      (phaseRequiresSourceEvidence .reserved) = .ok () := by
  obtain ⟨source, target, hbuild⟩ :=
    PreparedConversion.sampleBuild_ok PreparedConversion.sampleBuild_samplePrepared
  have haccepted := observation_accepted hbuild
    (@ImageView.ofFile_shows sampleImage 1 one_pos (by decide +kernel)) (by decide +kernel)
    (by decide +kernel) (by decide +kernel) (by decide +kernel)
    (run_cutRelocation PreparedConversion.plainHashing _) (Medium.exposes_now _)
    (@ImageView.ofFile_shows (cutRelocation PreparedConversion.samplePrepared).world.image.now 1
      one_pos (by decide +kernel)) one_ne_zero
  exact haccepted

end Transaction

end StarConverter
