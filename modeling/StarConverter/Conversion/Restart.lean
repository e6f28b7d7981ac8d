import StarConverter.Capsule.Policy
import StarConverter.Conversion.Sealed

/-!
# Restart

A plan that was built can be read back from its capsule. The envelope of a built plan decodes to the
plan up to the read cap of its overlays (`decodePreparedEnvelope_of_built`); a capsule begun with the
plan keeps the envelope in its first generation and the plan's checkpoint in its newest
(`Begun.journal`), through any number of checkpoints and torn appends.
-/

namespace StarConverter

open Base Geometry Capsule Recovery Conversion Envelope

namespace PreparedConversion

variable {H : Hashing} {p : PreparedConversion}

/-- The same plan under another read cap. -/
def withReadCap (p : PreparedConversion) (maxReadBytes : ℕ) : PreparedConversion :=
  { p with
    candidateOverlay := p.candidateOverlay.withReadCap maxReadBytes
    relocationRollbackOverlay := p.relocationRollbackOverlay.withReadCap maxReadBytes
    stagingRollbackOverlay := p.stagingRollbackOverlay.withReadCap maxReadBytes
    preactivationRollbackOverlay := p.preactivationRollbackOverlay.withReadCap maxReadBytes
    fullRollbackOverlay := p.fullRollbackOverlay.withReadCap maxReadBytes }

/-! ## The envelope of a built plan -/

/-- What a finished build leaves in the plan: each overlay is the one of its writes, and the envelope
is the encoded plan. -/
structure Built (H : Hashing) (p : PreparedConversion) (limits : OverlayLimits) : Prop where
  candidate : OverlayPlan.build p.preflight.image.imageBytes p.preflight.sectorBytes
    (finalWrites p.writes) limits = .ok p.candidateOverlay
  relocation : OverlayPlan.build p.preflight.image.imageBytes p.preflight.sectorBytes
    p.relocationRollbackOverlay.writes limits = .ok p.relocationRollbackOverlay
  staging : OverlayPlan.build p.preflight.image.imageBytes p.preflight.sectorBytes
    (stagingRollbackWrites p.relocationRollbackOverlay.writes p.writes) limits =
      .ok p.stagingRollbackOverlay
  preactivation : OverlayPlan.build p.preflight.image.imageBytes p.preflight.sectorBytes
    (preactivationRollbackWrites p.relocationRollbackOverlay.writes p.writes) limits =
      .ok p.preactivationRollbackOverlay
  full : OverlayPlan.build p.preflight.image.imageBytes p.preflight.sectorBytes
    (fullRollbackWrites p.relocationRollbackOverlay.writes p.writes) limits =
      .ok p.fullRollbackOverlay
  envelope : encodeState H (EnvelopeState.fromPrepared p) .default = .ok p.preparedEnvelope

theorem built_of_build {source projected target : ObjectGraph} {draft : ConversionDraft}
    {before : List OverlayWrite} {limits : ConversionLimits}
    (h : buildWithProjectedTargetGraph H (durableEncoder H) source projected target draft before
      limits = .ok p) : Built H p limits.overlay := by
  simp only [buildWithProjectedTargetGraph, bind_ok_iff, refreshDurableEnvelope, pure_eq_ok,
    Except.ok.injEq] at h
  obtain ⟨planned, hplan, prepared, hseal, encoded, hencode, -, -, rfl⟩ := h
  simp only [plan, bind_ok_iff, pure_eq_ok, Except.ok.injEq, mapError_ok_iff] at hplan
  obtain ⟨-, -, -, -, -, -, -, -, target', -, -, -, -, -, -, -, -, -, -, -, layout, -, -, -, -, -, -, -,
    images, himages, candidate, hcandidate, relocation, hrelocation, staging, hstaging,
    preactivation, hpreactivation, full, hfull, rfl⟩ := hplan
  simp only [sealPlan, bind_ok_iff, pure_eq_ok, Except.ok.injEq, mapError_ok_iff] at hseal
  obtain ⟨payload, -, rfl⟩ := hseal
  have hwrites : relocation.writes = images := by
    rw [(OverlayPlan.build_ok hrelocation).2.2.1, sorted_of_validateRelocationBeforeImages himages]
  rw [← hwrites] at hrelocation hstaging hpreactivation hfull
  refine ⟨hcandidate, hrelocation, hstaging, hpreactivation, hfull, ?_⟩
  rw [durableEncoder, mapError_ok_iff] at hencode
  exact hencode

/-- Both bounds of the envelope hold for every overlay of its plan. -/
theorem room_of_shaped {state : EnvelopeState} {limits : PreparedEnvelopeLimits}
    (h : Shaped state limits) {writes : List OverlayWrite}
    (hw : writes = finalWrites state.writes ∨
      writes <+: fullRollbackWrites state.relocationDestinationBeforeImages state.writes) :
    writes.length ≤ limits.maxEntries ∧ OverlayPlan.byteCount writes ≤ limits.maxWriteBytes := by
  have hentries := h.entries_le
  have hbytes := h.writeBytes_le
  simp only [entryCounts, writeLengths, List.sum_cons, List.sum_nil, forwardWrites, rollbackWrites,
    List.map_append, List.sum_append] at hentries hbytes
  rcases hw with rfl | ⟨rest, hrest⟩
  · simp only [finalWrites, forwardWrites, List.map_append, List.length_append, List.length_map,
      OverlayPlan.byteCount, List.map_map, Function.comp_def, List.sum_append]
    omega
  · have hl := congrArg List.length hrest
    have hb := congrArg OverlayPlan.byteCount hrest
    simp only [fullRollbackWrites, preactivationRollbackWrites, stagingRollbackWrites,
      List.length_append, OverlayPlan.byteCount_append] at hl hb
    simp only [OverlayPlan.byteCount] at hb ⊢
    omega

/-- **Envelope.** The envelope of a built plan decodes to the plan, under the read cap of the
decoder. -/
theorem decodePreparedEnvelope_of_built {limits : OverlayLimits} (h : Built H p limits)
    (hf : EnvelopeState.Fits (EnvelopeState.fromPrepared p)) :
    decodePreparedEnvelope H p.preparedEnvelope .default =
      .ok (p.withReadCap PreparedEnvelopeLimits.default.maxReadBytes) := by
  obtain ⟨-, -, -, -, hstate, -⟩ := encodeState_ok h.envelope
  have hshape : Shaped (EnvelopeState.fromPrepared p) .default := by
    rw [validateState, bind_unit_ok_iff] at hstate
    exact shaped_of_validateShape hstate.1
  have hv : OverlayPlan.validateLimits
      ⟨PreparedEnvelopeLimits.default.maxEntries, PreparedEnvelopeLimits.default.maxWriteBytes,
        PreparedEnvelopeLimits.default.maxReadBytes⟩ = .ok () := rfl
  have hroom : ∀ writes : List OverlayWrite, writes = finalWrites p.writes ∨
      writes <+: fullRollbackWrites p.relocationRollbackOverlay.writes p.writes →
      writes.length ≤ PreparedEnvelopeLimits.default.maxEntries ∧
        OverlayPlan.byteCount writes ≤ PreparedEnvelopeLimits.default.maxWriteBytes :=
    fun _ hw => room_of_shaped hshape hw
  have hfinal := hroom (finalWrites p.writes) (Or.inl rfl)
  have hstaging := hroom (stagingRollbackWrites p.relocationRollbackOverlay.writes p.writes)
    (Or.inr ⟨p.writes.backupBootRollback ++ p.writes.activationRollback, by
      simp [fullRollbackWrites, preactivationRollbackWrites]⟩)
  have hpre := hroom (preactivationRollbackWrites p.relocationRollbackOverlay.writes p.writes)
    (Or.inr ⟨p.writes.activationRollback, rfl⟩)
  have hfull := hroom (fullRollbackWrites p.relocationRollbackOverlay.writes p.writes)
    (Or.inr (List.prefix_refl _))
  have hrelocation := hroom p.relocationRollbackOverlay.writes
    (Or.inr ⟨p.writes.targetStagingRollback ++ p.writes.backupBootRollback ++
      p.writes.activationRollback, by
      simp [fullRollbackWrites, preactivationRollbackWrites, stagingRollbackWrites]⟩)
  rw [decodePreparedEnvelope, decodeState_encodeState fits_default h.envelope hf, ok_bind,
    intoDecoded, hstate, ok_bind]
  simp only [EnvelopeState.fromPrepared]
  rw [OverlayPlan.build_of_build hv hfinal.1 hfinal.2 h.candidate,
    OverlayPlan.build_of_build hv hstaging.1 hstaging.2 h.staging,
    OverlayPlan.build_of_build hv hpre.1 hpre.2 h.preactivation,
    OverlayPlan.build_of_build hv hfull.1 hfull.2 h.full,
    OverlayPlan.build_of_build hv hrelocation.1 hrelocation.2 h.relocation]
  rfl

/-! ## Capsules of a plan -/

/-- One accepted `record_*` call. -/
inductive Records (H : Hashing) (p : PreparedConversion) (capsule next : Bytes) : Prop
  | phase {observed phase completion staging verification}
    (h : p.recordPhase H capsule observed phase completion staging verification = .ok next)
  | reservation {observed} (h : p.recordReservation H capsule observed = .ok next)
  | execution {observed executed staging}
    (h : p.recordExecution H capsule observed executed staging = .ok next)
  | verification {observed evidence}
    (h : p.recordVerification H capsule observed evidence = .ok next)
  | finalization {observed} (h : p.recordFinalization H capsule observed = .ok next)
  | rollback {observed completion} (h : p.recordRollback H capsule observed completion = .ok next)
  | executedRollback {observed executed}
    (h : p.recordExecutedRollback H capsule observed executed = .ok next)

/-- A capsule begun with the plan and advanced by checkpoints, each of which may have been cut
anywhere behind the records that were there. -/
inductive Begun (H : Hashing) (p : PreparedConversion) : Bytes → Prop
  | start {capsule observed next} (h : p.beginCapsule H capsule observed = .ok next) : Begun H p next
  | record {capsule next} (hb : Begun H p capsule) (hr : Records H p capsule next) : Begun H p next
  | torn {capsule next view n} (hb : Begun H p capsule) (hr : Records H p capsule next)
    (hview : recover H capsule p.capsuleLimits = .ok view) (hn : view.validatedBytes ≤ n)
    (hlt : n < next.length) : Begun H p (next.take n)

/-- What every checkpoint appends, and behind what. -/
def Checkpoints (H : Hashing) (p : PreparedConversion) (capsule next : Bytes) : Prop :=
  ∃ view phase, recover H capsule p.capsuleLimits = .ok view ∧
    p.append H (capsule.take view.validatedBytes) phase p.checkpointPayload = .ok next

theorem checkpoints_of_recordPhase {capsule next : Bytes} {observed : ObservedImage}
    {phase : TransactionPhase} {completion : PhaseCompletion}
    {staging : Option StagingVerificationEvidence} {verification : Option VerificationEvidence}
    (h : p.recordPhase H capsule observed phase completion staging verification = .ok next) :
    Checkpoints H p capsule next := by
  simp only [recordPhase, bind_ok_iff] at h
  obtain ⟨_, -, view, hview, _, -, _, -, _, -, _, -, _, -, happend⟩ := h
  exact ⟨view, phase, hview, happend⟩

theorem checkpoints_of_recordRollback {capsule next : Bytes} {observed : ObservedImage}
    {completion : RollbackCompletion}
    (h : p.recordRollback H capsule observed completion = .ok next) :
    Checkpoints H p capsule next := by
  simp only [recordRollback, bind_ok_iff] at h
  obtain ⟨_, -, _, -, view, hview, _, -, _, -, _, -, happend⟩ := h
  exact ⟨view, .rolledBack, hview, happend⟩

theorem Records.checkpoints {capsule next : Bytes} (h : Records H p capsule next) :
    Checkpoints H p capsule next := by
  cases h with
  | phase h => exact checkpoints_of_recordPhase h
  | reservation h => exact checkpoints_of_recordPhase h
  | execution h =>
    simp only [recordExecution, bind_ok_iff] at h
    obtain ⟨_, -, h⟩ := h
    exact checkpoints_of_recordPhase h
  | verification h => exact checkpoints_of_recordPhase h
  | finalization h => exact checkpoints_of_recordPhase h
  | rollback h => exact checkpoints_of_recordRollback h
  | executedRollback h =>
    simp only [recordExecutedRollback, bind_ok_iff] at h
    obtain ⟨_, -, h⟩ := h
    exact checkpoints_of_recordRollback h

/-- The capsule of a plan: the envelope first, the plan's checkpoint last. -/
structure Journal (H : Hashing) (p : PreparedConversion) (capsule : Bytes)
    (generations : List CapsuleGeneration) (stop : ℕ) : Prop
    extends Holds H p.capsuleLimits capsule generations stop where
  first : ∃ g, generations.head? = some g ∧ g.payload = p.preparedEnvelope ∧ g.identity = p.identity
  newest : ∃ g, generations.getLast? = some g ∧ g.identity = p.identity ∧
    (g.generation ≠ 0 → g.payload = p.checkpointPayload)

section Journal

variable {capsule next : Bytes} {generations : List CapsuleGeneration} {stop : ℕ}

theorem journal_of_begin {observed : ObservedImage}
    (h : p.beginCapsule H capsule observed = .ok next) :
    ∃ generations, Journal H p next generations next.length := by
  simp only [beginCapsule, bind_ok_iff, ensure_ok_iff, exists_const, append, mapError_ok_iff,
    appendGeneration_ok_iff] at h
  obtain ⟨rfl, _, -, view, r, ha⟩ := h
  exact ⟨_, holds_first ha, ⟨_, rfl, rfl, rfl⟩, ⟨_, rfl, rfl, fun hne => absurd rfl hne⟩⟩

/-- An accepted checkpoint appends behind the complete records of the capsule. -/
theorem Journal.appended (h : Journal H p capsule generations stop)
    (hc : Checkpoints H p capsule next) :
    ∃ phase view r,
      Appended H (capsule.take stop) p.identity phase p.checkpointPayload p.capsuleLimits view r
        next := by
  obtain ⟨view, phase, hview, happend⟩ := hc
  rw [recover, mapError_ok_iff] at hview
  rw [append, mapError_ok_iff, h.eq_of_recover hview, appendGeneration_ok_iff] at happend
  obtain ⟨view', r, ha⟩ := happend
  exact ⟨phase, view', r, ha⟩

theorem Journal.record (h : Journal H p capsule generations stop)
    (hc : Checkpoints H p capsule next) :
    ∃ generations', Journal H p next generations' next.length := by
  obtain ⟨phase, view, r, ha⟩ := h.appended hc
  obtain ⟨g, hg, hpayload, hid⟩ := h.first
  refine ⟨_, h.append ha, ⟨g, ?_, hpayload, hid⟩,
    ⟨_, List.getLast?_concat, rfl, fun _ => rfl⟩⟩
  rw [List.head?_append, hg]
  rfl

theorem Journal.torn (h : Journal H p capsule generations stop)
    (hc : Checkpoints H p capsule next) {n : ℕ} (hn : stop ≤ n) (hlt : n < next.length) :
    Journal H p (next.take n) generations stop := by
  obtain ⟨phase, view, r, ha⟩ := h.appended hc
  exact ⟨h.append_take ha hn hlt, h.first, h.newest⟩

/-- **Checkpoints.** Every capsule of a plan is a journal of it. -/
theorem Begun.journal (h : Begun H p capsule) :
    ∃ generations stop, Journal H p capsule generations stop := by
  induction h with
  | start h =>
    obtain ⟨generations, hj⟩ := journal_of_begin h
    exact ⟨generations, _, hj⟩
  | record _ hr ih =>
    obtain ⟨generations, stop, hj⟩ := ih
    obtain ⟨generations', hj'⟩ := hj.record hr.checkpoints
    exact ⟨generations', _, hj'⟩
  | torn _ hr hview hn hlt ih =>
    obtain ⟨generations, stop, hj⟩ := ih
    rw [recover, mapError_ok_iff] at hview
    rw [hj.eq_of_recover hview] at hn
    exact ⟨generations, stop, hj.torn hr.checkpoints hn hlt⟩

/-- A journal that can be recovered names the phase reached. -/
theorem Journal.resume (h : Journal H p capsule generations stop)
    (hrecover : recoverCapsule H capsule p.capsuleLimits = .ok ⟨generations, stop⟩) :
    ∃ resumed, p.resumeWithoutObservation H capsule = .ok resumed := by
  obtain ⟨first, hfirst, hpayload, -⟩ := h.first
  obtain ⟨newest, hnewest, hid, hcheckpoint⟩ := h.newest
  have hview : recover H capsule p.capsuleLimits = .ok ⟨generations, stop⟩ := by
    rw [recover, hrecover]
    rfl
  refine ⟨⟨newest.generation, newest.phase, p.intentAfter newest.phase⟩, ?_⟩
  rw [resumeWithoutObservation, hview, ok_bind]
  simp only [CapsuleView.newest]
  rw [hnewest, orErr_some, ok_bind, ensure_of hid, ok_bind, hfirst, orErr_some, ok_bind,
    ensure_of (Or.inl hpayload), ok_bind, ensure_of hcheckpoint, ok_bind]
  rfl

end Journal

/-- The image a plan was made for, as its preflight found it. -/
def ownObservation (p : PreparedConversion) : ObservedImage :=
  ⟨p.preflight.image, some p.preflight.sourceEvidenceDigest⟩

/-- A built plan can begin its capsule, and its envelope goes into it as it is. -/
theorem beginCapsule_of_built {limits : OverlayLimits} (h : Built H p limits) :
    ∃ capsule, p.beginCapsule H [] p.ownObservation = .ok capsule ∧
      p.preparedEnvelope <:+: capsule := by
  obtain ⟨-, -, -, -, hstate, -, henc, hcap, hgen⟩ := encodeState_ok h.envelope
  have hvalid : p.capsuleLimits.Valid := by
    simp only [validateState, validateShape, bind_unit_ok_iff] at hstate
    obtain ⟨⟨-, -, hlimits, -⟩, -⟩ := hstate
    simp only [validateCapsuleLimits, ensure_ok_iff] at hlimits
    exact hlimits
  simp only [validateEnvelopeGeneration, validateInitialCapsuleGeneration, mapError_ok_iff,
    bind_ok_iff, ensure_ok_iff, exists_const, orErr_ok_iff, checkedAdd_eq_some] at hgen
  obtain ⟨hfit, _, ⟨-, rfl⟩, hroom⟩ := hgen
  have hrecord : 272 + p.preparedEnvelope.length ≤ p.capsuleLimits.maxCapsuleBytes := hroom
  have hsize : p.preparedEnvelope.length ≤ 2 * 1024 * 1024 * 1024 := hcap
  have hscan : scanCapsule H [] p.capsuleLimits = .ok ⟨[], 0⟩ := by
    rw [scanCapsule_ok_iff (Nat.zero_le _)]
    exact ⟨hvalid, Nat.zero_le _, noOverflow_of_lt (by decide), unambiguous_of_lt (by decide),
      Relation.ReflTransGen.refl, List.length_nil.symm⟩
  set header := appendedHeader H 0 none p.identity .discovered p.preparedEnvelope with hheader
  have happended : Appended H [] p.identity .discovered p.preparedEnvelope p.capsuleLimits ⟨[], 0⟩
      (0, none) (encodeRecord H header p.preparedEnvelope) := by
    refine ⟨hvalid, hfit, hscan, rfl, Nat.pos_of_ne_zero hvalid.2.2, ?_, ?_,
      (List.nil_append _).symm⟩
    · rw [length_encodeRecord]
      exact hrecord
    · rw [length_encodeRecord, isizeMax]
      omega
  refine ⟨encodeRecord H header p.preparedEnvelope, ?_,
    ⟨encodeHeader H header, encodeHeader H header, rfl⟩⟩
  have hobserved : p.validateObserved p.ownObservation True = .ok () := by
    simp only [validateObserved, ownObservation, bind_unit_ok_iff, ensure_ok_iff, implies_true,
      and_self]
  have happend : p.append H [] .discovered p.preparedEnvelope =
      .ok (encodeRecord H header p.preparedEnvelope) := by
    rw [append, appendGeneration_ok_iff.2 ⟨_, _, happended⟩]
    rfl
  rw [beginCapsule, ensure_of rfl, ok_bind, hobserved, ok_bind, happend]

/-- The envelope holds every before-image as it is. -/
theorem infix_of_mem_targetStagingRollback {limits : OverlayLimits} (h : Built H p limits)
    {w : OverlayWrite} (hw : w ∈ p.writes.targetStagingRollback) :
    w.bytes <:+: p.preparedEnvelope := by
  obtain ⟨sections, source, target, crc, -, hsections, henc, -⟩ := encodeState_ok h.envelope
  obtain ⟨rfl, -⟩ := encodeSections_ok hsections
  set rollback : EncodedSection := ⟨targetStagingRollbackTag, p.writes.targetStagingRollback.length,
    (p.writes.targetStagingRollback.map encodeRollbackWrite).flatten⟩ with hrollback
  have hwrite : w.bytes <:+: encodeRollbackWrite w :=
    ⟨toLe 8 w.offset ++ toLe 8 w.bytes.length, [], by rw [encodeRollbackWrite, List.append_nil]⟩
  have hentry : encodeRollbackWrite w <:+: rollback.bytes :=
    List.infix_of_mem_flatten (List.mem_map_of_mem hw)
  have hsection : rollback.bytes <:+: encodeSection H rollback := by
    rw [encodeSection]
    exact (List.suffix_append _ rollback.bytes).isInfix
  have hmem : rollback ∈ sectionsOf (EnvelopeState.fromPrepared p) := by
    simp [sectionsOf, EnvelopeState.fromPrepared, hrollback]
  have hpayload : encodeSection H rollback <:+:
      ((sectionsOf (EnvelopeState.fromPrepared p)).map (encodeSection H)).flatten :=
    List.infix_of_mem_flatten (List.mem_map_of_mem hmem)
  rw [henc.eq]
  exact ((hwrite.trans hentry).trans hsection).trans
    (hpayload.trans (List.suffix_append _ _).isInfix)

/-! ## Restart -/

/-- The plan is read back up to its read cap, and every phase has the same next intent and the same
rollback as before. -/
def Restarts (H : Hashing) (p : PreparedConversion) (capsule : Bytes) (policy : CapsuleLimits) :
    Prop :=
  ∃ restarted, fromRestartCapsule H capsule policy = .ok restarted ∧
    (∃ maxReadBytes, restarted = p.withReadCap maxReadBytes) ∧
    ∀ phase, restarted.intentAfter phase = p.intentAfter phase ∧
      restarted.rollbackIntent phase = p.rollbackIntent phase

/-- The read cap has no part in a journal. -/
theorem Journal.withReadCap {capsule : Bytes} {generations : List CapsuleGeneration} {stop : ℕ}
    (h : Journal H p capsule generations stop) (maxReadBytes : ℕ) :
    Journal H (p.withReadCap maxReadBytes) capsule generations stop :=
  ⟨h.toHolds, h.first, h.newest⟩

theorem fromRestartCapsule_of_journal {capsule : Bytes} {policy : CapsuleLimits}
    {generations : List CapsuleGeneration} {stop : ℕ} {limits : OverlayLimits}
    (h : Journal H p capsule generations stop) (hbuilt : Built H p limits)
    (hf : EnvelopeState.Fits (EnvelopeState.fromPrepared p)) (hw : p.capsuleLimits.Within policy)
    (hno : NoOverflow H capsule policy) (hun : Unambiguous H capsule policy) :
    fromRestartCapsule H capsule policy =
      .ok (p.withReadCap PreparedEnvelopeLimits.default.maxReadBytes) := by
  obtain ⟨first, hfirst, hpayload, hid⟩ := h.first
  have hview : recover H capsule policy = .ok ⟨generations, stop⟩ := by
    rw [recover, (h.within hw).recover_iff.2 ⟨hno, hun⟩]
    rfl
  have hj := h.withReadCap PreparedEnvelopeLimits.default.maxReadBytes
  obtain ⟨resumed, hresumed⟩ := hj.resume (h.recover_iff.2 ⟨hno.within hw, hun.within hw⟩)
  have hid' : first.identity =
      (p.withReadCap PreparedEnvelopeLimits.default.maxReadBytes).identity := hid
  rw [fromRestartCapsule, hview, ok_bind, hfirst, orErr_some, ok_bind, hpayload,
    decodePreparedEnvelope_of_built hbuilt hf]
  simp only [Except.mapError]
  rw [ok_bind, ensure_of ⟨hw.maxCapsuleBytes, hw.maxGenerationBytes, hw.maxGenerations⟩, ok_bind,
    ensure_of hid', ok_bind]
  exact (congrArg (· >>= _) hresumed).trans rfl

/-- A capsule a plan was read back from can be recovered. -/
theorem recoverable_of_restart {capsule : Bytes} {policy : CapsuleLimits} {q : PreparedConversion}
    {generations : List CapsuleGeneration} {stop : ℕ}
    (h : Journal H p capsule generations stop) (hw : p.capsuleLimits.Within policy)
    (hr : fromRestartCapsule H capsule policy = .ok q) :
    NoOverflow H capsule policy ∧ Unambiguous H capsule policy := by
  simp only [fromRestartCapsule, bind_ok_iff, recover, mapError_ok_iff] at hr
  obtain ⟨view, hview, -⟩ := hr
  have hheld := h.within hw
  rw [hheld.eq_of_recover hview] at hview
  exact hheld.recover_iff.1 hview

/-- **Restart.** A plan is read back from any capsule begun with it, whatever checkpoint was torn, if
and only if no record end in the capsule overflows and no start in it is claimed by two headers. -/
theorem restarts_iff {source projected target : ObjectGraph} {draft : ConversionDraft}
    {before : List OverlayWrite} {limits : ConversionLimits} {capsule : Bytes}
    {policy : CapsuleLimits}
    (hbuild : buildWithProjectedTargetGraph H (durableEncoder H) source projected target draft before
      limits = .ok p)
    (hf : EnvelopeState.Fits (EnvelopeState.fromPrepared p)) (hb : Begun H p capsule)
    (hw : p.capsuleLimits.Within policy) :
    Restarts H p capsule policy ↔ NoOverflow H capsule policy ∧ Unambiguous H capsule policy := by
  obtain ⟨generations, stop, hj⟩ := hb.journal
  constructor
  · rintro ⟨restarted, hrestart, -⟩
    exact recoverable_of_restart hj hw hrestart
  · rintro ⟨hno, hun⟩
    refine ⟨_, fromRestartCapsule_of_journal hj (built_of_build hbuild) hf hw hno hun, ⟨_, rfl⟩,
      fun phase => ?_⟩
    cases phase <;> exact ⟨rfl, rfl⟩

/-- The first checkpoint of the sample. -/
def sampleBegun : Bytes :=
  okValue (samplePrepared.beginCapsule plainHashing [] samplePrepared.ownObservation)
    (by decide +kernel)

/-- The numbers of a sample are small. -/
theorem fits_sample {q : PreparedConversion}
    (h : q.preflight.image.imageBytes < 2 ^ 64 ∧ q.preflight.sectorBytes < 2 ^ 32 ∧
      q.preflight.allocationAlignment < 2 ^ 64 ∧ q.capsuleLimits.maxCapsuleBytes < 2 ^ 64 ∧
      q.capsuleLimits.maxGenerationBytes < 2 ^ 64 ∧ q.capsuleLimits.maxGenerations < 2 ^ 64 ∧
      (∀ r ∈ q.layout.relocations, r.stream < 2 ^ 64 ∧ r.logicalOffset < 2 ^ 64) ∧
      q.targetFeatures = []) : EnvelopeState.Fits (EnvelopeState.fromPrepared q) := by
  obtain ⟨h1, h2, h3, h4, h5, h6, h7, h8⟩ := h
  refine ⟨h1, h2, h3, h4, h5, h6, h7, fun rule hrule => ?_⟩
  rw [show (EnvelopeState.fromPrepared q).targetFeatures = [] from h8] at hrule
  exact absurd hrule List.not_mem_nil

theorem restarts_sample :
    Restarts plainHashing samplePrepared sampleBegun samplePrepared.capsuleLimits := by
  have hbegun : samplePrepared.beginCapsule plainHashing [] samplePrepared.ownObservation =
      .ok sampleBegun := eq_okValue _
  obtain ⟨source, target, hbuild⟩ := sampleBuild_ok sampleBuild_samplePrepared
  exact (restarts_iff hbuild (fits_sample (by decide +kernel)) (.start hbegun)
    (CapsuleLimits.Within.refl _)).2 ⟨by decide +kernel, by decide +kernel⟩

/-- A file whose content looks like the headers of two capsule records is enough: the plan that has to
move it is built and begun, but cannot be read back. -/
theorem not_restarts_forgery : ∃ prepared capsule,
    sampleBuild .standard (forgery .standard) = .ok prepared ∧
      EnvelopeState.Fits (EnvelopeState.fromPrepared prepared) ∧
      prepared.beginCapsule .standard [] prepared.ownObservation = .ok capsule ∧
      ¬ Restarts .standard prepared capsule prepared.capsuleLimits := by
  obtain ⟨plain, hplain, hfits, hforged, hfit⟩ : ∃ plain,
      sampleBuild plainHashing (forgery .standard) = .ok plain ∧
        EnvelopeState.Fits (EnvelopeState.fromPrepared plain) ∧
        ⟨2, forgery .standard⟩ ∈ plain.writes.targetStagingRollback ∧
        Capsule.headerBytes ≤ plain.capsuleLimits.maxGenerationBytes :=
    ⟨okValue (sampleBuild plainHashing (forgery .standard)) (by decide +kernel), eq_okValue _,
      fits_sample (by decide +kernel), by decide +kernel, by decide +kernel⟩
  obtain ⟨prepared, hprepared, halike⟩ := exists_sampleBuild hplain .standard
  obtain ⟨source, target, hbuild⟩ := sampleBuild_ok hprepared
  have hbuilt := built_of_build hbuild
  obtain ⟨capsule, hbegin, hinfix⟩ := beginCapsule_of_built hbuilt
  refine ⟨prepared, capsule, hprepared, halike.fits hfits, hbegin, ?_⟩
  rintro ⟨restarted, hrestart, -⟩
  obtain ⟨generations, hj⟩ := journal_of_begin hbegin
  obtain ⟨-, hun⟩ := recoverable_of_restart hj (CapsuleLimits.Within.refl _) hrestart
  have hwrites : prepared.writes = plain.writes := halike.writes
  have hlimits : prepared.capsuleLimits = plain.capsuleLimits := halike.capsuleLimits
  rw [← hwrites] at hforged
  rw [← hlimits] at hfit
  exact not_unambiguous_of_forgery
    ((infix_of_mem_targetStagingRollback hbuilt hforged).trans hinfix) hfit hun

end PreparedConversion

end StarConverter
