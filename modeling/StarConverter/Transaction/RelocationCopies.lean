import StarConverter.Transaction.Activation

/-!
# Copies compared before staging

Before it stages the target over a durable relocation, the coordinator compares the copy of every
relocation with its source. Staging is there to reuse the sources: when a staging group was cut off, a
source may already be overwritten. The comparison then fails and the phase can only be rolled back;
this is the only way it fails (`relocationCopies_iff`).
-/

namespace StarConverter

open Base World Geometry Capsule Recovery Conversion Faults

/-- `while relative < relocation.source.length`; a chunk has at least one byte, so that many rounds are
enough. -/
def verifyRelocationCopy (view : ImageView) (relocation : Relocation) :
    ℕ → ℕ → Except RegularImageCoordinatorError Unit
  | 0, _ => pure ()
  | rounds + 1, relative =>
    if relocation.source.length ≤ relative then pure ()
    else do
      let count := min (relocation.source.length - relative) view.maxReadBytes
      ensure (count ≠ 0) .candidateReadLimitInvalid
      let sourceOffset ← orErr (checkedAdd relocation.source.offset relative) .relocationRangeOverflow
      let destinationOffset ← orErr (checkedAdd relocation.destination.offset relative)
        .relocationRangeOverflow
      let source ← (view.readExactAt sourceOffset count).mapError .image
      let destination ← (view.readExactAt destinationOffset count).mapError .image
      ensure (source = destination) (.relocationCopyMismatch sourceOffset destinationOffset)
      let next ← orErr (checkedAdd relative count) .relocationRangeOverflow
      verifyRelocationCopy view relocation rounds next

def verifyRelocationCopies (view : ImageView) (relocations : List Relocation) :
    Except RegularImageCoordinatorError Unit :=
  checkAll (fun relocation => verifyRelocationCopy view relocation relocation.source.length 0)
    relocations

section Verify

variable {view : ImageView} {image : Bytes} {r : Relocation} {rounds relative : ℕ} {u : Unit}

/-- Two slices agree when their first parts and their rests do. -/
theorem sliceAt_eq_split {a b count rest : ℕ} :
    sliceAt image a (count + rest) = sliceAt image b (count + rest) ↔
      sliceAt image a count = sliceAt image b count ∧
        sliceAt image (a + count) rest = sliceAt image (b + count) rest := by
  constructor
  · intro h
    have hget : ∀ i, i < count + rest → image[a + i]? = image[b + i]? := by
      intro i hi
      have hi' := congrArg (fun l => l[i]?) h
      simpa only [getElem?_sliceAt, if_pos hi] using hi'
    refine ⟨List.ext_getElem? fun i => ?_, List.ext_getElem? fun i => ?_⟩
    · rw [getElem?_sliceAt, getElem?_sliceAt]
      split_ifs with hi
      · exact hget i (by omega)
      · rfl
    · rw [getElem?_sliceAt, getElem?_sliceAt]
      split_ifs with hi
      · rw [Nat.add_assoc, Nat.add_assoc]
        exact hget (count + i) (by omega)
      · rfl
  · rintro ⟨h1, h2⟩
    rw [sliceAt_add, sliceAt_add, h1, h2]

/-- The loop compares what is left of the source with what is left of the copy. -/
theorem verifyRelocationCopy_ok_iff (hview : view.Shows image) (himage : image.length < wordBound)
    (hmax : view.maxReadBytes ≠ 0) (hsource : r.source.offset + r.source.length ≤ image.length)
    (hdestination : r.destination.offset + r.source.length ≤ image.length)
    (hrounds : r.source.length ≤ relative + rounds) :
    verifyRelocationCopy view r rounds relative = .ok u ↔
      sliceAt image (r.source.offset + relative) (r.source.length - relative) =
        sliceAt image (r.destination.offset + relative) (r.source.length - relative) := by
  induction rounds generalizing relative with
  | zero =>
    rw [Nat.sub_eq_zero_of_le (by omega)]
    exact ⟨fun _ => rfl, fun _ => rfl⟩
  | succ rounds ih =>
    rw [verifyRelocationCopy]
    split_ifs with hdone
    · rw [Nat.sub_eq_zero_of_le hdone]
      exact ⟨fun _ => rfl, fun _ => rfl⟩
    · dsimp only
      set count := min (r.source.length - relative) view.maxReadBytes with hcount
      have hpos : count ≠ 0 := by omega
      have hsplit : r.source.length - relative =
          count + (r.source.length - (relative + count)) := by omega
      rw [ensure_of hpos, ok_bind, checkedAdd_of_lt (by omega), orErr_some, ok_bind,
        checkedAdd_of_lt (by omega), orErr_some, ok_bind, hview.read _ _ (by omega) (by omega),
        hview.read _ _ (by omega) (by omega), checkedAdd_of_lt (by omega), orErr_some]
      show (ensure (sliceAt image (r.source.offset + relative) count =
        sliceAt image (r.destination.offset + relative) count) _ >>= fun _ =>
          verifyRelocationCopy view r rounds (relative + count)) = .ok u ↔ _
      rw [hsplit, sliceAt_eq_split, Nat.add_assoc, Nat.add_assoc, ← ih (by omega)]
      simp only [bind_ok_iff, ensure_ok_iff, exists_const]

theorem verifyRelocationCopies_ok_iff {relocations : List Relocation} (hview : view.Shows image)
    (himage : image.length < wordBound) (hmax : view.maxReadBytes ≠ 0)
    (hg : ImageExecutor.CopyableGroup image.length relocations) :
    verifyRelocationCopies view relocations = .ok u ↔
      ∀ r ∈ relocations, sliceAt image r.source.offset r.source.length =
        sliceAt image r.destination.offset r.destination.length := by
  rw [verifyRelocationCopies, checkAll_ok_iff]
  refine forall₂_congr fun r hr => ?_
  have hlength := hg.length r hr
  have hdestination := (hg.destination r hr).stop_le
  unfold Span.stop at hdestination
  rw [verifyRelocationCopy_ok_iff hview himage hmax (hg.source r hr).stop_le (by omega) (by omega),
    Nat.add_zero, Nat.add_zero, Nat.sub_zero, ← hlength]

end Verify

namespace Transaction

variable {H : Hashing} {encode : PreparedConversion.EnvelopeEncoder}
  {sourceGraph projected target : ObjectGraph} {draft : ConversionDraft} {before : List OverlayWrite}
  {limits : ConversionLimits} {p : PreparedConversion} {view : ImageView} {source image : Bytes}
  {capsule : Tape UInt8} {events : ℕ → Event} {s : State}

/-- A copy is out of reach of the staging group. -/
theorem sliceAt_copied (hk : PreparedConversion.KeepsPayload sourceGraph projected target p)
    (hlen : source.length = p.preflight.image.imageBytes)
    (hpart : PartlyApplied (p.writes.targetStaging.map ReservedWrite.write)
      (copyAll p.layout.relocations source) image) {r : Relocation}
    (hr : r ∈ p.layout.relocations) :
    sliceAt image r.destination.offset r.destination.length =
      sliceAt source r.source.offset r.source.length := by
  have hg := hk.copyable hlen
  rw [← sliceAt_destination hg hr, ← hk.copyAll_eq hlen]
  refine sliceAt_congr fun i h1 h2 => hpart.eq_of_not_mem fun hi => ?_
  obtain ⟨w, hw, hiw⟩ := mem_touched.1 hi
  refine hk.clear r hr w ?_ i ⟨h1, h2⟩ hiw
  unfold finalWrites forwardWrites
  rw [List.map_append, List.map_append]
  exact List.mem_append_left _ (List.mem_append_left _ hw)

/-- **Copies compared before staging.** At a durable relocation of a run of forward steps and crashes
every copy holds the bytes its source held at the start, and the comparison with the sources goes well
exactly when no source has changed since. -/
theorem relocationCopies_iff
    (hbuild : PreparedConversion.buildWithProjectedTargetGraph H encode sourceGraph projected target
      draft before limits = .ok p)
    (hlen : source.length = p.preflight.image.imageBytes) (hsize : source.length < wordBound)
    (hrun : Relation.ReflTransGen (Advance p) (start source capsule events) s)
    (hphase : s.phase = .relocating) (himage : s.world.image.Exposes image)
    (hview : view.Shows image) (hmax : view.maxReadBytes ≠ 0) :
    (∀ r ∈ p.layout.relocations, sliceAt image r.destination.offset r.destination.length =
      sliceAt source r.source.offset r.source.length) ∧
    (verifyRelocationCopies view p.layout.relocations = .ok () ↔
      ∀ r ∈ p.layout.relocations, sliceAt image r.source.offset r.source.length =
        sliceAt source r.source.offset r.source.length) := by
  have hp := executable_of_build hbuild
  have hk := PreparedConversion.keepsPayload_of_build hbuild
  have hpart := (midway_run hk hlen hp hrun).image.exposes himage
  rw [hphase] at hpart
  have hlength : image.length = source.length := by
    rw [hpart.1, length_imageAfter hk hlen, hlen]
  have hcopied : ∀ r ∈ p.layout.relocations,
      sliceAt image r.destination.offset r.destination.length =
        sliceAt source r.source.offset r.source.length := fun r hr => sliceAt_copied hk hlen hpart hr
  refine ⟨hcopied, ?_⟩
  rw [verifyRelocationCopies_ok_iff hview (hlength ▸ hsize) hmax (hlength ▸ hk.copyable hlen)]
  exact forall₂_congr fun r hr => by rw [hcopied r hr]

/-- The sample at a durable reservation, with nothing going wrong. -/
def quietState : State :=
  ⟨⟨Medium.clean sampleImage, Tape.clean [], fun _ => .proceed⟩, .reserved, none⟩

/-- At the sample's durable relocation, before the target is staged over the old place of its file. -/
theorem relocationCopies_iff_sample :
    verifyRelocationCopies
      (.ofFile (carryOut PreparedConversion.samplePrepared quietState
        (PreparedConversion.samplePrepared.intentAfter .reserved)).world.image.now 1 one_pos)
      PreparedConversion.samplePrepared.layout.relocations = .ok () := by
  obtain ⟨source, target, hbuild⟩ :=
    PreparedConversion.sampleBuild_ok PreparedConversion.sampleBuild_samplePrepared
  have hstart : Relation.ReflTransGen (Advance PreparedConversion.samplePrepared)
      (start sampleImage quietState.world.capsule quietState.world.events) quietState :=
    .tail .refl (.record _ .reserved rfl (.inr (.inl rfl)))
  have hrelocated := run_group hstart (.next .reserved) rfl (by decide +kernel)
  have hiff := relocationCopies_iff hbuild (by decide +kernel) (by decide +kernel) hrelocated rfl
    (Medium.exposes_now _) (@ImageView.ofFile_shows _ 1 one_pos (by decide +kernel)) one_ne_zero
  have hsources : ∀ r ∈ PreparedConversion.samplePrepared.layout.relocations,
      sliceAt (carryOut PreparedConversion.samplePrepared quietState
        (PreparedConversion.samplePrepared.intentAfter .reserved)).world.image.now
        r.source.offset r.source.length = sliceAt sampleImage r.source.offset r.source.length := by
    decide +kernel
  have hback := hiff.2.2
  dsimp only at hback
  exact hback hsources

end Transaction

end StarConverter
