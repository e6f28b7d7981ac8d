import StarConverter.Conversion.Draft
import StarConverter.Preimage

/-!
# Phase writes

Serializer output composed into the write sets of a transaction: every staging write gets the kind of
the one reservation that contains it, the two boot writes have to lie in boot regions, and the bytes
under all of them are captured from the image. A preview holds such sets whether or not the
serializer may be activated.
-/

namespace StarConverter

open Base Geometry Preimage

namespace Phase

inductive PhaseWriteError
  | activationBlocked (filesystem : String) (gaps : List String)
  | emptySet (set : String)
  | rangeOverflow (offset length : ℕ)
  | stagingReservationMissing (offset : ℕ)
  | stagingReservationAmbiguous (offset : ℕ)
  | invalidStagingReservation (offset : ℕ) (kind : ReservationKind)
  | bootReservationMissing (set : String) (offset : ℕ)
  | preimage (error : PreimageError)
  deriving DecidableEq

def validateAggregateLimits (staging : List OverlayWrite) (backupBoot activation : OverlayWrite)
    (limits : PreimageLimits) : Except PhaseWriteError Unit := do
  let count ← orErr (checkedAdd staging.length 2)
    (.preimage (.writeLimitExceeded (wordBound - 1) limits.maxWrites))
  ensure (count ≤ limits.maxWrites) (.preimage (.writeLimitExceeded count limits.maxWrites))
  let bytes ← sumChecked (.preimage (.byteLimitExceeded (wordBound - 1) limits.maxTotalBytes)) 0
    ((staging ++ [backupBoot, activation]).map fun write => write.bytes.length)
  ensure (bytes ≤ limits.maxTotalBytes) (.preimage (.byteLimitExceeded bytes limits.maxTotalBytes))

def rangeEnd (offset length : ℕ) : Except PhaseWriteError ℕ :=
  orErr (checkedAdd offset length) (.rangeOverflow offset length)

/-- The reservation covers `write`, which ends at `writeEnd`. -/
def covers (reservation : DestinationReservation) (write : OverlayWrite) (writeEnd : ℕ) : Bool :=
  decide (reservation.range.offset ≤ write.offset) &&
    (checkedAdd reservation.range.offset reservation.range.length).any fun stop =>
      decide (writeEnd ≤ stop)

/-- The loop over the reservations, with the one found so far. -/
def findContaining (write : OverlayWrite) (writeEnd : ℕ) :
    Option DestinationReservation → List DestinationReservation →
      Except PhaseWriteError (Option DestinationReservation)
  | found, [] => pure found
  | found, reservation :: rest =>
    if covers reservation write writeEnd then do
      ensure (found = none) (.stagingReservationAmbiguous write.offset)
      findContaining write writeEnd (some reservation) rest
    else findContaining write writeEnd found rest

def containingReservations (write : OverlayWrite) (reservations : List DestinationReservation) :
    Except PhaseWriteError (Option DestinationReservation) := do
  let writeEnd ← rangeEnd write.offset write.bytes.length
  findContaining write writeEnd none reservations

def requireBootReservation (set : String) (write : OverlayWrite)
    (reservations : List DestinationReservation) : Except PhaseWriteError Unit := do
  let found ← containingReservations write reservations
  ensure (found.any fun reservation => decide (reservation.kind = .bootRegion))
    (.bootReservationMissing set write.offset)

/-- One staging write with the kind of its reservation. -/
def stageWrite (reservations : List DestinationReservation) (write : OverlayWrite) :
    Except PhaseWriteError ReservedWrite := do
  let found ← containingReservations write reservations
  let reservation ← orErr found (.stagingReservationMissing write.offset)
  ensure (reservation.kind ≠ .bootRegion ∧ reservation.kind ≠ .capsule)
    (.invalidStagingReservation write.offset reservation.kind)
  pure ⟨reservation.kind, write⟩

def stageEach (reservations : List DestinationReservation) :
    List OverlayWrite → Except PhaseWriteError (List ReservedWrite)
  | [] => pure []
  | write :: rest => do
    let staged ← stageWrite reservations write
    let more ← stageEach reservations rest
    pure (staged :: more)

/-- Coordinator-ready writes and exact before-images from pure serializer output. -/
def preparePhaseWrites (image : BoundedImageReader) (reservations : List DestinationReservation)
    (staging : List OverlayWrite) (backupBoot activation : OverlayWrite) (limits : PreimageLimits) :
    Except PhaseWriteError OpaqueWriteSets := do
  ensure (staging ≠ []) (.emptySet "staging")
  ensure (backupBoot.bytes ≠ []) (.emptySet "backup_boot")
  ensure (activation.bytes ≠ []) (.emptySet "activation")
  validateAggregateLimits staging backupBoot activation limits
  let targetStaging ← stageEach reservations staging
  requireBootReservation "backup_boot" backupBoot reservations
  requireBootReservation "activation" activation reservations
  let targetStagingRollback ← (captureBeforeImages image staging limits).mapError .preimage
  let backupBootRollback ← (captureBeforeImages image [backupBoot] limits).mapError .preimage
  let activationRollback ← (captureBeforeImages image [activation] limits).mapError .preimage
  pure
    { targetStaging := targetStaging
      backupBoot := [⟨.bootRegion, backupBoot⟩]
      activation := [⟨.bootRegion, activation⟩]
      targetStagingRollback := targetStagingRollback
      backupBootRollback := backupBootRollback
      activationRollback := activationRollback }

/-! ## The two serializers -/

/-- An exFAT serializer plan: its overlay starts with the two boot regions. -/
structure ExfatSerializationPlan where
  overlay : OverlayPlan
  reservations : List DestinationReservation
  two_le : 2 ≤ overlay.writes.length

namespace ExfatSerializationPlan

/-- What the exFAT serializer leaves open before its output may be activated. -/
def activationGaps : List String :=
  ["per-candidate exFAT driver mount and payload evidence is not yet bound into activation authorization",
    "external Windows chkdsk/mount interoperability has not been proven"]

variable (plan : ExfatSerializationPlan)

/-- Main boot-region replacement. -/
def primaryBootWrite : OverlayWrite :=
  plan.overlay.writes.get ⟨0, by have := plan.two_le; omega⟩

/-- Backup boot-region replacement. -/
def backupBootWrite : OverlayWrite :=
  plan.overlay.writes.get ⟨1, by have := plan.two_le; omega⟩

/-- Destination metadata writes which do not touch either boot region. -/
def stagingWrites : List OverlayWrite := plan.overlay.writes.drop 2

theorem writes_eq :
    plan.overlay.writes = plan.primaryBootWrite :: plan.backupBootWrite :: plan.stagingWrites := by
  have h := plan.two_le
  unfold primaryBootWrite backupBootWrite stagingWrites
  rw [List.get_eq_getElem, List.get_eq_getElem]
  rw [← List.drop_eq_getElem_cons, ← List.drop_eq_getElem_cons, List.drop_zero]

theorem stagingWrites_sorted :
    plan.stagingWrites.Pairwise fun a b => a.offset ≤ b.offset := by
  have h := plan.overlay.sorted
  rw [plan.writes_eq] at h
  exact (List.pairwise_cons.1 (List.pairwise_cons.1 h).2).2

end ExfatSerializationPlan

/-- What phases read of an NTFS serializer plan. -/
structure NtfsDestinationPlan where
  stagingWrites : List OverlayWrite
  backupBootWrite : OverlayWrite
  primaryBootWrite : OverlayWrite
  reservations : List DestinationReservation
  exactObjectMetadata : Bool

namespace NtfsDestinationPlan

/-- What the NTFS serializer leaves open with exact metadata of every object. -/
def exactActivationGaps : List String :=
  ["$LogFile uses the pinned clean LFS 1.1 restart-page profile, not a verified modern Windows-native profile",
    "$Secure uses a pinned NTFS-3G Windows-2003-era profile, not a verified modern Windows-native profile",
    "$Extend uses a pinned NTFS-3G bootstrap profile whose exact bytes are not specified by Microsoft",
    "$Extend case-sensitivity semantics remain a FIXME in the pinned formatter profile",
    "$UsnJrnl is omitted and modern $RmMetadata variants are not modeled",
    "external Windows chkdsk/mount interoperability has not been proven"]

/-- What it leaves open when the object metadata was synthesized. -/
def structuralActivationGaps : List String :=
  "per-object NTFS timestamps and DOS attributes were synthesized by the structural compatibility wrapper" ::
    exactActivationGaps

def activationGaps (plan : NtfsDestinationPlan) : List String :=
  if plan.exactObjectMetadata then exactActivationGaps else structuralActivationGaps

end NtfsDestinationPlan

/-- Exact transaction bytes of a serializer plan that may still be activation-blocked. -/
structure PhaseWritePreview where
  targetFilesystem : FileSystem
  writes : OpaqueWriteSets
  activationGaps : List String
  deriving DecidableEq

/-- Captures and classifies all exFAT forward and rollback bytes. -/
def previewExfatPhaseWrites (image : BoundedImageReader) (plan : ExfatSerializationPlan)
    (limits : PreimageLimits) : Except PhaseWriteError PhaseWritePreview := do
  let writes ← preparePhaseWrites image plan.reservations plan.stagingWrites plan.backupBootWrite
    plan.primaryBootWrite limits
  pure ⟨.exFat, writes, ExfatSerializationPlan.activationGaps⟩

/-- Captures and classifies all NTFS forward and rollback bytes. -/
def previewNtfsPhaseWrites (image : BoundedImageReader) (plan : NtfsDestinationPlan)
    (limits : PreimageLimits) : Except PhaseWriteError PhaseWritePreview := do
  let writes ← preparePhaseWrites image plan.reservations plan.stagingWrites plan.backupBootWrite
    plan.primaryBootWrite limits
  pure ⟨.ntfs, writes, plan.activationGaps⟩

/-! ## What a preview holds -/

theorem stageEach_ok {reservations : List DestinationReservation} {writes : List OverlayWrite}
    {staged : List ReservedWrite} (h : stageEach reservations writes = .ok staged) :
    staged.map ReservedWrite.write = writes := by
  induction writes generalizing staged with
  | nil =>
    obtain rfl := Except.ok.inj h
    rfl
  | cons w rest ih =>
    simp only [stageEach, stageWrite, bind_ok_iff, orErr_ok_iff, ensure_ok_iff, exists_const,
      pure_eq_ok, Except.ok.injEq] at h
    obtain ⟨_, ⟨_, -, _, -, -, rfl⟩, _, hrest, rfl⟩ := h
    rw [List.map_cons, ih hrest]

/-- Prepared sets hold the given writes and, for each phase, what a capture makes of them. -/
structure Captured (image : Bytes) (limits : PreimageLimits) (staging : List OverlayWrite)
    (backupBoot activation : OverlayWrite) (writes : OpaqueWriteSets) : Prop where
  staging_ne : staging ≠ []
  total_lt : OverlayPlan.byteCount (staging ++ [backupBoot, activation]) < wordBound
  targetStaging_eq : writes.targetStaging.map ReservedWrite.write = staging
  backupBoot_eq : writes.backupBoot.map ReservedWrite.write = [backupBoot]
  activation_eq : writes.activation.map ReservedWrite.write = [activation]
  staging_capturable : Capturable image limits staging
  backupBoot_capturable : Capturable image limits [backupBoot]
  activation_capturable : Capturable image limits [activation]
  targetStagingRollback_eq : writes.targetStagingRollback =
    (sortByKey Patch.offset staging).map (beforeImage image)
  backupBootRollback_eq : writes.backupBootRollback = [beforeImage image backupBoot]
  activationRollback_eq : writes.activationRollback = [beforeImage image activation]

theorem preparePhaseWrites_ok {image : Bytes} {maxReadBytes : ℕ} {hpos : 0 < maxReadBytes}
    {reservations : List DestinationReservation} {staging : List OverlayWrite}
    {backupBoot activation : OverlayWrite} {limits : PreimageLimits} {writes : OpaqueWriteSets}
    (h : preparePhaseWrites (imageFile image maxReadBytes hpos) reservations staging backupBoot
      activation limits = .ok writes) :
    Captured image limits staging backupBoot activation writes := by
  simp only [preparePhaseWrites, bind_ok_iff, exists_const, ensure_ok_iff, mapError_ok_iff,
    captureBeforeImages_ok_iff, validateAggregateLimits, orErr_ok_iff, checkedAdd_eq_some,
    sumChecked_ok_iff wordBound_pos, pure_eq_ok, Except.ok.injEq] at h
  obtain ⟨hne, -, -, ⟨_, -, -, _, ⟨htotal, -⟩, -⟩, _, hstage, _, -, _, -, _, ⟨hs, rfl⟩, _, ⟨hb, rfl⟩, _,
    ⟨ha, rfl⟩, rfl⟩ := h
  exact
    { staging_ne := hne
      total_lt := by simpa [OverlayPlan.byteCount] using htotal
      targetStaging_eq := stageEach_ok hstage
      backupBoot_eq := rfl
      activation_eq := rfl
      staging_capturable := hs
      backupBoot_capturable := hb
      activation_capturable := ha
      targetStagingRollback_eq := rfl
      backupBootRollback_eq := rfl
      activationRollback_eq := rfl }

end Phase

end StarConverter
