import StarConverter.Conversion.Envelope

/-!
# Decoding a prepared envelope

Every field of the header and every section is read back where the encoder put it, so whatever the
encoder accepts is decoded to the same state (`decodeState_encodeState`).
-/

namespace StarConverter

open Base Geometry Capsule Recovery Conversion

namespace Envelope

variable {H : Hashing} {state : EnvelopeState} {limits : PreparedEnvelopeLimits} {bytes : Bytes}

/-! ## Reading fields -/

theorem readWord_of_field {n offset v : ℕ} (h : FieldAt bytes offset (toLe n v)) (hv : v < 256 ^ n) :
    readWord n bytes offset = .ok v := by
  rw [readWord, h.readLe? hv, orErr_some]

theorem arrayAt_of_field {n offset : ℕ} {b : FixedBytes n} (h : FieldAt bytes offset b.1) :
    arrayAt n bytes offset = .ok b := by
  have hin : offset + n ≤ bytes.length := by
    have := h.1
    rwa [length_fixedBytes] at this
  rw [arrayAt, dif_pos hin]
  exact congrArg Except.ok (Subtype.ext (h.slice b.2))

theorem allZero_of_field {n offset : ℕ} {s : Bytes} (h : FieldAt bytes offset s)
    (hn : s.length = n) (hs : AllZero s) : AllZero (sliceAt bytes offset n) := by
  rwa [h.slice hn]

theorem decodeFilesystem_byte {filesystem : FileSystem} {value : UInt8} {field : String}
    (h : filesystemByte filesystem = .ok value) : decodeFilesystem value field = .ok filesystem := by
  cases filesystem with
  | exFat => obtain rfl := Except.ok.inj h; rfl
  | ntfs => obtain rfl := Except.ok.inj h; rfl
  | unknown => cases h

theorem decodeHealth_byte (health : HealthState) : decodeHealth (healthByte health) = .ok health := by
  cases health <;> rfl

theorem decodeAccess_byte (access : AccessState) : decodeAccess (accessByte access) = .ok access := by
  cases access <;> rfl

theorem decodeReservationKind_byte (kind : ReservationKind) :
    decodeReservationKind (reservationKindByte kind) = .ok kind := by
  cases kind <;> rfl

theorem decodeSemanticFeature_byte (feature : SemanticFeature) :
    decodeSemanticFeature (semanticFeatureByte feature) = .ok feature := by
  cases feature <;> rfl

theorem flagsByte_reserved (a b : Bool) : flagsByte a b &&& ~~~ 0x03 = 0 := by
  cases a <;> cases b <;> decide

theorem flagsByte_inventory (a b : Bool) : decide (flagsByte a b &&& 1 ≠ 0) = a := by
  cases a <;> cases b <;> decide

theorem flagsByte_allocation (a b : Bool) : decide (flagsByte a b &&& 2 ≠ 0) = b := by
  cases a <;> cases b <;> decide

/-! ## The header -/

/-- The numbers of a state fit the widths of the source's integers. The checks bound the rest. -/
structure EnvelopeState.Fits (state : EnvelopeState) : Prop where
  imageBytes : state.preflight.image.imageBytes < 2 ^ 64
  sectorBytes : state.preflight.sectorBytes < 2 ^ 32
  alignment : state.preflight.allocationAlignment < 2 ^ 64
  maxCapsuleBytes : state.capsuleLimits.maxCapsuleBytes < 2 ^ 64
  maxGenerationBytes : state.capsuleLimits.maxGenerationBytes < 2 ^ 64
  maxGenerations : state.capsuleLimits.maxGenerations < 2 ^ 64
  relocations : ∀ r ∈ state.layout.relocations, r.stream < 2 ^ 64 ∧ r.logicalOffset < 2 ^ 64
  features : ∀ rule ∈ state.targetFeatures, ∀ schemaVersion payloadDigest,
    rule.method = .escrow schemaVersion payloadDigest → schemaVersion < 2 ^ 16

/-- The limits are words. -/
structure PreparedEnvelopeLimits.Fits (limits : PreparedEnvelopeLimits) : Prop where
  maxEnvelopeBytes : limits.maxEnvelopeBytes < 2 ^ 64
  maxEntries : limits.maxEntries < 2 ^ 64
  maxWriteBytes : limits.maxWriteBytes < 2 ^ 64
  maxRecoveryBytes : limits.maxRecoveryBytes < 2 ^ 64
  maxLogicalBytes : limits.maxLogicalBytes < 2 ^ 64

theorem fits_default : PreparedEnvelopeLimits.Fits .default := by
  constructor <;> decide

/-- The lengths of the fields of the header. -/
def fieldLengths : List ℕ :=
  [8, 2, 2, 4, 8, 8, 32, 4, 4, 16, 32, 32, 8, 32, 32, 32, 32, 32, 32, 32, 32, 8, 4, 1, 1, 1, 1, 8, 1,
    7, 8, 8, 8, 8, 8, 4, 8, 32, 32, 12]

theorem headerFields_lengths {total : ℕ} {digest : Digest} {source target : UInt8} {crc : Bytes}
    (hcrc : crc.length = 4) :
    (headerFields state total digest source target crc).map List.length = fieldLengths := by
  simp [headerFields, fieldLengths, magic, ascii, hcrc]

theorem length_header {total : ℕ} {digest : Digest} {source target : UInt8} {crc : Bytes}
    (hcrc : crc.length = 4) :
    (headerFields state total digest source target crc).flatten.length = headerBytes := by
  rw [List.length_flatten, headerFields_lengths hcrc]
  rfl

/-- The checksum does not depend on the checksum field or on what follows the header. -/
theorem headerCrc_header {total : ℕ} {digest : Digest} {source target : UInt8} {crc : Bytes}
    (hcrc : crc.length = 4) (payload : Bytes) :
    headerCrc H ((headerFields state total digest source target crc).flatten ++ payload) =
      headerCrc H (headerFields state total digest source target [0, 0, 0, 0]).flatten := by
  have hsplit : ∀ c : Bytes, headerFields state total digest source target c =
      (headerFields state total digest source target []).take 7 ++
        c :: (headerFields state total digest source target []).drop 8 := fun c => rfl
  set before := ((headerFields state total digest source target []).take 7).flatten with hbefore
  set after := ((headerFields state total digest source target []).drop 8).flatten with hafter
  have hlb : before.length = 64 := by
    rw [hbefore]
    simp [headerFields, magic, ascii]
  have hla : after.length = 508 := by
    rw [hafter]
    simp [headerFields]
  have hread : ∀ (c tail : Bytes), c.length = 4 →
      headerCrc H ((headerFields state total digest source target c).flatten ++ tail) =
        H.crc32 (before ++ [0, 0, 0, 0] ++ after) := by
    intro c tail hc
    have hflat : (headerFields state total digest source target c).flatten ++ tail =
        [] ++ [before, c, after].flatten ++ tail := by
      rw [hsplit c]
      simp [hbefore, hafter]
    have hfield : ∀ {i k : ℕ} {s : Bytes}, [before, c, after][i]? = some s →
        0 + (([64, 4, 508] : List ℕ).take i).sum = k →
        FieldAt ((headerFields state total digest source target c).flatten ++ tail) k s :=
      fun hs hoff => fieldAt_table hflat (by simp [hlb, hla, hc]) hs hoff
    have h0 := (hfield (i := 0) (k := 0) rfl rfl).slice hlb
    have h2 := (hfield (i := 2) (k := 68) rfl rfl).slice hla
    rw [headerCrc, headerCrcOffset, h0]
    exact congrArg (fun x => H.crc32 (before ++ [0, 0, 0, 0] ++ x)) h2
  have hz := hread [0, 0, 0, 0] [] rfl
  rw [List.append_nil] at hz
  rw [hread crc payload hcrc, hz]

/-- What the encoder laid out: the fields of the header around a right checksum, and a payload. -/
structure Encoded (H : Hashing) (state : EnvelopeState) (payload bytes : Bytes) (source target : UInt8)
    (crc : Bytes) : Prop where
  source_eq : filesystemByte state.preflight.sourceFilesystem = .ok source
  target_eq : filesystemByte state.targetFilesystem = .ok target
  crc_length : crc.length = 4
  crc_eq : fromLe crc = (headerCrc H bytes).toNat
  eq : bytes = (headerFields state bytes.length (H.sha256 payload) source target crc).flatten ++
    payload
  length_lt : bytes.length < wordBound

@[simp] theorem length_encodeSection (value : EncodedSection) :
    (encodeSection H value).length = sectionHeaderBytes + value.bytes.length := by
  simp [encodeSection, sectionHeaderBytes]
  omega

theorem length_sections (sections : List EncodedSection) :
    (sections.map (encodeSection H)).flatten.length =
      (sections.flatMap fun value => [sectionHeaderBytes, value.bytes.length]).sum := by
  induction sections with
  | nil => rfl
  | cons value rest ih =>
    rw [List.map_cons, List.flatten_cons, List.length_append, ih, List.flatMap_cons, List.sum_append,
      length_encodeSection, List.sum_pair]

/-- What an accepted state is encoded to. -/
theorem encodeState_ok (h : encodeState H state limits = .ok bytes) :
    ∃ sections source target crc, validateState H state limits = .ok () ∧
      encodeSections state = .ok sections ∧
      Encoded H state (sections.map (encodeSection H)).flatten bytes source target crc ∧
      bytes.length ≤ limits.maxEnvelopeBytes ∧
      validateEnvelopeGeneration bytes.length state.capsuleLimits = .ok () := by
  simp only [encodeState, encodeHeader, ensureEnvelopeCap, bind_ok_iff, ensure_ok_iff, exists_const,
    orErr_ok_iff, checkedAdd_eq_some, sumChecked_ok_iff wordBound_pos, Nat.zero_add, pure_eq_ok,
    Except.ok.injEq] at h
  obtain ⟨_, -, _, hstate, sections, hsections, _, ⟨-, rfl⟩, total, ⟨hlt, htotal⟩, hcap, _, hgen, _,
    ⟨source, hsource, target, htarget, rfl⟩, rfl⟩ := h
  have hpayload := length_sections (H := H) sections
  set payload := (sections.map (encodeSection H)).flatten with hp
  set crc := toLe 4 (headerCrc H (headerFields state total (H.sha256 payload) source target
    [0, 0, 0, 0]).flatten).toNat with hcrc
  have hcrclen : crc.length = 4 := length_toLe _ _
  set bytes := (headerFields state total (H.sha256 payload) source target crc).flatten ++ payload
    with hbytes
  have hlen : bytes.length = total := by
    rw [hbytes, List.length_append, length_header hcrclen, hpayload, htotal]
  refine ⟨sections, source, target, crc, hstate, hsections, ⟨hsource, htarget, hcrclen, ?_, ?_, ?_⟩,
    ?_, ?_⟩
  · rw [hbytes, headerCrc_header hcrclen, hcrc]
    exact fromLe_toLe 4 _ (UInt32.toNat_lt _)
  · rw [hlen]
  · rw [hlen, ← htotal]
    exact hlt
  · rw [hlen]
    exact hcap
  · rw [hlen]
    exact hgen

section Header

variable {payload crc : Bytes} {source target : UInt8}
  (h : Encoded H state payload bytes source target crc)

include h

theorem Encoded.field {i off : ℕ} {s : Bytes}
    (hs : (headerFields state bytes.length (H.sha256 payload) source target crc)[i]? = some s)
    (hoff : (fieldLengths.take i).sum = off) : FieldAt bytes off s := by
  refine fieldAt_table (a := []) (b := payload) h.eq (headerFields_lengths h.crc_length) hs ?_
  rw [List.length_nil, Nat.zero_add, hoff]

theorem Encoded.length_eq : bytes.length = headerBytes + payload.length := by
  conv_lhs => rw [h.eq]
  rw [List.length_append, length_header h.crc_length]

theorem Encoded.drop_eq : bytes.drop headerBytes = payload := by
  conv_lhs => rw [h.eq]
  rw [List.drop_left' (length_header h.crc_length)]

theorem Encoded.validateHeader : validateHeader H bytes = .ok () := by
  have hmagic : sliceAt bytes 0 8 = magic := (h.field (i := 0) rfl rfl).slice rfl
  have hversion : readWord 2 bytes 8 = .ok version :=
    readWord_of_field (h.field (i := 1) rfl rfl) (by decide)
  have hlen : readWord 2 bytes 10 = .ok headerBytes :=
    readWord_of_field (h.field (i := 2) rfl rfl) (by decide)
  have hcrc : readWord 4 bytes headerCrcOffset = .ok (headerCrc H bytes).toNat := by
    have hf := h.field (i := 7) rfl rfl
    rw [← toLe_fromLe crc, h.crc_length] at hf
    rw [← h.crc_eq]
    refine readWord_of_field hf ?_
    have := fromLe_lt crc
    rwa [h.crc_length] at this
  have hz1 : AllZero (sliceAt bytes 12 4) :=
    allZero_of_field (h.field (i := 3) rfl rfl) rfl (by decide)
  have hz2 : AllZero (sliceAt bytes 68 4) :=
    allZero_of_field (h.field (i := 8) rfl rfl) rfl (by decide)
  have hz3 : AllZero (sliceAt bytes 441 7) :=
    allZero_of_field (h.field (i := 29) rfl rfl) rfl (by decide)
  have hz4 : AllZero (sliceAt bytes 564 12) :=
    allZero_of_field (h.field (i := 39) rfl rfl) rfl (by decide)
  have hzero : AllZero (sliceAt bytes 12 4 ++ sliceAt bytes 68 4 ++ sliceAt bytes 441 7 ++
      sliceAt bytes 564 12) := by
    intro b hb
    simp only [List.mem_append] at hb
    rcases hb with ((hb | hb) | hb) | hb
    · exact hz1 b hb
    · exact hz2 b hb
    · exact hz3 b hb
    · exact hz4 b hb
  rw [Envelope.validateHeader, ensure_of hmagic, ok_bind, hversion, ok_bind, ensure_of rfl, ok_bind,
    hlen, ok_bind, ensure_of rfl, ok_bind, ensure_of hzero, ok_bind, hcrc, ok_bind, ensure_of rfl]

/-- The part of the state that stands in the header. -/
def headerOf (state : EnvelopeState) : HeaderState :=
  { identity := state.identity
    preflight := state.preflight
    targetFilesystem := state.targetFilesystem
    sourceGraphDigest := state.sourceGraphDigest
    targetGraphDigest := state.targetGraphDigest
    planDigest := state.planDigest
    candidateOverlayDigest := state.candidateOverlayDigest
    relocationRollbackDigest := state.relocationRollbackDigest
    stagingRollbackDigest := state.stagingRollbackDigest
    preactivationRollbackDigest := state.preactivationRollbackDigest
    fullRollbackDigest := state.fullRollbackDigest
    relocatedBytes := state.layout.relocatedBytes
    largestFreeRange := state.layout.largestFreeRange
    capsuleLimits := state.capsuleLimits }

/-- The numbers of the header that the checks bound. -/
structure Bounded (state : EnvelopeState) : Prop where
  logicalBytes : state.preflight.sourceManifestCommitment.logicalBytesHashed < 2 ^ 64
  objectCount : state.preflight.sourceManifestCommitment.objectCount < 2 ^ 64
  relocatedBytes : state.layout.relocatedBytes < 2 ^ 64
  largestFreeRange : state.layout.largestFreeRange < 2 ^ 64

theorem Encoded.decodeHeader (hf : EnvelopeState.Fits state) (hb : Bounded state) :
    decodeHeader bytes = .ok (headerOf state) := by
  have hflags : bytes.getD 440 0 =
      flagsByte state.preflight.inventoryComplete state.preflight.allocationMapComplete :=
    (h.field (i := 28) rfl rfl).getD
  have hsource : bytes.getD 428 0 = source := (h.field (i := 23) rfl rfl).getD
  have htarget : bytes.getD 429 0 = target := (h.field (i := 24) rfl rfl).getD
  have hhealth : bytes.getD 430 0 = healthByte state.preflight.health :=
    (h.field (i := 25) rfl rfl).getD
  have haccess : bytes.getD 431 0 = accessByte state.preflight.access :=
    (h.field (i := 26) rfl rfl).getD
  have himage : readWord 8 bytes 152 = .ok state.preflight.image.imageBytes :=
    readWord_of_field (h.field (i := 12) rfl rfl) hf.imageBytes
  have hlogical : readWord 8 bytes 416 =
      .ok state.preflight.sourceManifestCommitment.logicalBytesHashed :=
    readWord_of_field (h.field (i := 21) rfl rfl) hb.logicalBytes
  have hsector : readWord 4 bytes 424 = .ok state.preflight.sectorBytes :=
    readWord_of_field (h.field (i := 22) rfl rfl) hf.sectorBytes
  have halign : readWord 8 bytes 432 = .ok state.preflight.allocationAlignment :=
    readWord_of_field (h.field (i := 27) rfl rfl) hf.alignment
  have hrelocated : readWord 8 bytes 448 = .ok state.layout.relocatedBytes :=
    readWord_of_field (h.field (i := 30) rfl rfl) hb.relocatedBytes
  have hlargest : readWord 8 bytes 456 = .ok state.layout.largestFreeRange :=
    readWord_of_field (h.field (i := 31) rfl rfl) hb.largestFreeRange
  have hcapsule : readWord 8 bytes 464 = .ok state.capsuleLimits.maxCapsuleBytes :=
    readWord_of_field (h.field (i := 32) rfl rfl) hf.maxCapsuleBytes
  have hgeneration : readWord 8 bytes 472 = .ok state.capsuleLimits.maxGenerationBytes :=
    readWord_of_field (h.field (i := 33) rfl rfl) hf.maxGenerationBytes
  have hgenerations : readWord 8 bytes 480 = .ok state.capsuleLimits.maxGenerations :=
    readWord_of_field (h.field (i := 34) rfl rfl) hf.maxGenerations
  have hobjects : readWord 8 bytes 492 =
      .ok state.preflight.sourceManifestCommitment.objectCount :=
    readWord_of_field (h.field (i := 36) rfl rfl) hb.objectCount
  have htx : arrayAt 16 bytes 72 = .ok state.identity.transactionId :=
    arrayAt_of_field (h.field (i := 9) rfl rfl)
  have hdigest : arrayAt 32 bytes 88 = .ok state.identity.sourceDigest :=
    arrayAt_of_field (h.field (i := 10) rfl rfl)
  have hinstance : arrayAt 32 bytes 120 = .ok state.preflight.image.imageInstance :=
    arrayAt_of_field (h.field (i := 11) rfl rfl)
  have hevidence : arrayAt 32 bytes 160 = .ok state.preflight.sourceEvidenceDigest :=
    arrayAt_of_field (h.field (i := 13) rfl rfl)
  have hgraph : arrayAt 32 bytes 192 = .ok state.sourceGraphDigest :=
    arrayAt_of_field (h.field (i := 14) rfl rfl)
  have hplan : arrayAt 32 bytes 224 = .ok state.planDigest :=
    arrayAt_of_field (h.field (i := 15) rfl rfl)
  have hcandidate : arrayAt 32 bytes 256 = .ok state.candidateOverlayDigest :=
    arrayAt_of_field (h.field (i := 16) rfl rfl)
  have hstaging : arrayAt 32 bytes 288 = .ok state.stagingRollbackDigest :=
    arrayAt_of_field (h.field (i := 17) rfl rfl)
  have hpreactivation : arrayAt 32 bytes 320 = .ok state.preactivationRollbackDigest :=
    arrayAt_of_field (h.field (i := 18) rfl rfl)
  have hfull : arrayAt 32 bytes 352 = .ok state.fullRollbackDigest :=
    arrayAt_of_field (h.field (i := 19) rfl rfl)
  have hmanifest : arrayAt 32 bytes 384 = .ok state.preflight.sourceManifestCommitment.digest :=
    arrayAt_of_field (h.field (i := 20) rfl rfl)
  have htgraph : arrayAt 32 bytes 500 = .ok state.targetGraphDigest :=
    arrayAt_of_field (h.field (i := 37) rfl rfl)
  have hrelocation : arrayAt 32 bytes 532 = .ok state.relocationRollbackDigest :=
    arrayAt_of_field (h.field (i := 38) rfl rfl)
  simp only [Envelope.decodeHeader, hflags, hsource, htarget, hhealth, haccess, flagsByte_reserved,
    ensure_of, himage, hlogical, hsector, halign, hrelocated, hlargest, hcapsule, hgeneration,
    hgenerations, hobjects, htx, hdigest, hinstance, hevidence, hgraph, hplan, hcandidate, hstaging,
    hpreactivation, hfull, hmanifest, htgraph, hrelocation, ok_bind,
    decodeFilesystem_byte h.source_eq, decodeFilesystem_byte h.target_eq, decodeHealth_byte,
    decodeAccess_byte, flagsByte_inventory, flagsByte_allocation, pure_eq_ok, headerOf]

end Header

/-! ## The sections -/

/-- What the scan counts of a section. -/
def EncodedSection.entries (value : EncodedSection) : ℕ :=
  if value.tag = recoveryPayloadTag then 0 else value.count

/-- The write bytes of a section. -/
def EncodedSection.writeBytes (value : EncodedSection) : ℕ :=
  match writeHeaderBytes value.tag with
  | none => 0
  | some headerBytes => value.bytes.length - value.count * headerBytes

/-- A section the scan accepts when its totals are within the limits. -/
structure EncodedSection.Framed (value : EncodedSection) (limits : PreparedEnvelopeLimits) :
    Prop where
  tag_lt : value.tag < 2 ^ 16
  count_lt : value.count < 2 ^ 32
  recovery : value.tag = recoveryPayloadTag →
    value.count = 1 ∧ value.bytes.length ≤ limits.maxRecoveryBytes
  headers : ∀ n, writeHeaderBytes value.tag = some n → value.count * n ≤ value.bytes.length
  fixed : ∀ n, fixedUnit value.tag = some n → value.bytes.length = value.count * n

/-- The scan's entry of a section. -/
def Locates (bytes : Bytes) (entry : SectionMeta) (value : EncodedSection) : Prop :=
  entry.tag = value.tag ∧ entry.count = value.count ∧ sectionBytes bytes entry = value.bytes

/-- The fields of a section, its contents last. -/
def sectionFields (H : Hashing) (value : EncodedSection) : List Bytes :=
  [toLe 2 value.tag, [0, 0], toLe 4 value.count, toLe 8 value.bytes.length,
    (H.sha256 value.bytes).1, value.bytes]

theorem fieldAt_section {value : EncodedSection} {before after : Bytes}
    (hbytes : bytes = before ++ encodeSection H value ++ after) {i k : ℕ} {s : Bytes}
    (hs : (sectionFields H value)[i]? = some s)
    (hoff : before.length + (([2, 2, 4, 8, 32, value.bytes.length] : List ℕ).take i).sum = k) :
    FieldAt bytes k s := by
  refine fieldAt_table (a := before) (b := after) ?_ (by simp [sectionFields]) hs hoff
  rw [hbytes]
  simp [encodeSection, sectionFields]

section Scan

variable (hl : PreparedEnvelopeLimits.Fits limits) (hlen : bytes.length < wordBound)

include hl

theorem countSection_ok {value : EncodedSection} (hv : value.Framed limits) {entries : ℕ}
    (he : entries + value.entries ≤ limits.maxEntries) :
    countSection limits value.tag value.count value.bytes.length entries =
      .ok (entries + value.entries) := by
  have hmax := hl.maxEntries
  unfold countSection EncodedSection.entries at *
  split_ifs with htag
  · obtain ⟨hone, hle⟩ := hv.recovery htag
    rw [ensure_of hone, ok_bind, ensure_of hle, ok_bind, Nat.add_zero]
    rfl
  · rw [if_neg htag] at he
    rw [checkedAdd_of_lt (by unfold wordBound; omega), orErr_some, ok_bind, ensure_of he, ok_bind]
    rfl

theorem weighSection_ok {value : EncodedSection} (hv : value.Framed limits) {writeBytes : ℕ}
    (hw : writeBytes + value.writeBytes ≤ limits.maxWriteBytes) :
    weighSection limits value.tag value.count value.bytes.length writeBytes =
      .ok (writeBytes + value.writeBytes) := by
  have hmax := hl.maxWriteBytes
  unfold weighSection EncodedSection.writeBytes at *
  cases hheader : writeHeaderBytes value.tag with
  | none => rfl
  | some n =>
    rw [hheader] at hw
    dsimp only at hw ⊢
    rw [checkedSub_of_le (hv.headers n hheader), orErr_some, ok_bind,
      checkedAdd_of_lt (by unfold wordBound; omega), orErr_some, ok_bind, ensure_of hw, ok_bind]
    rfl

omit hl in
theorem validateFixedSectionLen_ok {value : EncodedSection} (hv : value.Framed limits) :
    validateFixedSectionLen value.tag value.count value.bytes.length = .ok () := by
  unfold validateFixedSectionLen
  cases hunit : fixedUnit value.tag with
  | none => rfl
  | some n => exact ensure_of (hv.fixed n hunit)

include hlen

/-- Scanning one section. -/
theorem scanSection_ok {value : EncodedSection} (hv : value.Framed limits) {before after : Bytes}
    {entries writeBytes : ℕ} (hbytes : bytes = before ++ encodeSection H value ++ after)
    (he : entries + value.entries ≤ limits.maxEntries)
    (hw : writeBytes + value.writeBytes ≤ limits.maxWriteBytes) :
    scanSection H bytes limits value.tag ⟨before.length, entries, writeBytes⟩ =
      .ok (⟨value.tag, value.count, before.length + sectionHeaderBytes,
          before.length + sectionHeaderBytes + value.bytes.length⟩,
        ⟨before.length + sectionHeaderBytes + value.bytes.length, entries + value.entries,
          writeBytes + value.writeBytes⟩) := by
  have hlength : bytes.length =
      before.length + (sectionHeaderBytes + value.bytes.length) + after.length := by
    rw [hbytes, List.length_append, List.length_append, length_encodeSection]
  have hfield := fun {i k : ℕ} {s : Bytes} => fieldAt_section (i := i) (k := k) (s := s) hbytes
  have htag : readWord 2 bytes before.length = .ok value.tag :=
    readWord_of_field (hfield (i := 0) rfl rfl) hv.tag_lt
  have hzero : AllZero (sliceAt bytes (before.length + 2) 2) :=
    allZero_of_field (hfield (i := 1) rfl rfl) rfl (by decide)
  have hcount : readWord 4 bytes (before.length + 4) = .ok value.count :=
    readWord_of_field (hfield (i := 2) rfl rfl) hv.count_lt
  have hsize : readWord 8 bytes (before.length + 8) = .ok value.bytes.length :=
    readWord_of_field (hfield (i := 3) rfl rfl) (by unfold wordBound at hlen; omega)
  have hdigest : arrayAt 32 bytes (before.length + 16) = .ok (H.sha256 value.bytes) :=
    arrayAt_of_field (hfield (i := 4) rfl rfl)
  have hdata : sliceAt bytes (before.length + sectionHeaderBytes) value.bytes.length = value.bytes :=
    (hfield (i := 5) rfl rfl).slice rfl
  unfold scanSection
  dsimp only
  rw [checkedAdd_of_lt (by omega), orErr_some, ok_bind, ensure_of (by omega), ok_bind, htag, ok_bind, ensure_of rfl, ok_bind, ensure_of hzero, ok_bind, hcount, ok_bind, hsize, ok_bind,
    countSection_ok hl hv he, ok_bind, checkedAdd_of_lt (by omega), orErr_some, ok_bind,
    ensure_of (by omega), ok_bind, hdigest, ok_bind, hdata, ensure_of rfl, ok_bind,
    weighSection_ok hl hv hw, ok_bind, validateFixedSectionLen_ok hv, ok_bind]
  rfl

/-- Scanning a run of sections finds every one of them. -/
theorem scanFrom_ok {sections : List EncodedSection}
    (hv : ∀ value ∈ sections, value.Framed limits) (before after : Bytes) (entries writeBytes : ℕ)
    (hbytes : bytes = before ++ (sections.map (encodeSection H)).flatten ++ after)
    (he : entries + (sections.map EncodedSection.entries).sum ≤ limits.maxEntries)
    (hw : writeBytes + (sections.map EncodedSection.writeBytes).sum ≤ limits.maxWriteBytes) :
    ∃ metas scan, scanFrom H bytes limits (sections.map EncodedSection.tag)
        ⟨before.length, entries, writeBytes⟩ = .ok (metas, scan) ∧
      scan.cursor = (before ++ (sections.map (encodeSection H)).flatten).length ∧
      List.Forall₂ (Locates bytes) metas sections := by
  induction sections generalizing before entries writeBytes with
  | nil => exact ⟨[], _, rfl, by simp, .nil⟩
  | cons value rest ih =>
    rw [List.map_cons, List.sum_cons] at he hw
    have hhead : bytes = before ++ encodeSection H value ++
        ((rest.map (encodeSection H)).flatten ++ after) := by
      rw [hbytes, List.map_cons, List.flatten_cons]
      simp only [List.append_assoc]
    have htail : bytes = (before ++ encodeSection H value) ++
        (rest.map (encodeSection H)).flatten ++ after := by
      rw [hhead]
      simp only [List.append_assoc]
    obtain ⟨metas, scan, hscan, hcursor, hmetas⟩ :=
      ih (fun w hw => hv w (List.mem_cons_of_mem _ hw)) _ (entries + value.entries)
        (writeBytes + value.writeBytes) htail (by omega) (by omega)
    rw [List.length_append, length_encodeSection, ← Nat.add_assoc] at hscan
    refine ⟨⟨value.tag, value.count, before.length + sectionHeaderBytes,
      before.length + sectionHeaderBytes + value.bytes.length⟩ :: metas, scan, ?_, ?_,
      .cons ⟨rfl, rfl, ?_⟩ hmetas⟩
    · rw [List.map_cons, scanFrom, scanSection_ok hl hlen (hv value List.mem_cons_self) hhead
        (by omega) (by omega), ok_bind]
      dsimp only
      rw [hscan, ok_bind]
      rfl
    · rw [hcursor, List.map_cons, List.flatten_cons, ← List.append_assoc]
    · have hfield : FieldAt bytes (before.length + sectionHeaderBytes) value.bytes :=
        fieldAt_section (i := 5) hhead rfl rfl
      rw [sectionBytes]
      dsimp only
      rw [Nat.add_sub_cancel_left]
      exact hfield.2

end Scan

/-! ## The contents of the sections -/

section Contents

theorem decodeRange_of_fields {chunk : Bytes} {offset : ℕ} {value : ByteRange}
    (ho : FieldAt chunk offset (toLe 8 value.offset))
    (hl : FieldAt chunk (offset + 8) (toLe 8 value.length)) (hv : value.stop < wordBound) :
    decodeRange chunk offset = .ok value := by
  have hw : wordBound = 256 ^ 8 := by norm_num [wordBound]
  unfold Span.stop at hv
  rw [decodeRange, readWord_of_field ho (by omega), ok_bind, readWord_of_field hl (by omega), ok_bind]
  rfl

/-- The fields of one encoded value, read where they stand. -/
theorem fieldAt_value (chunk : Bytes) (segs : List Bytes) (lengths : List ℕ)
    (hchunk : chunk = segs.flatten) (hlengths : segs.map List.length = lengths) {i k : ℕ} {s : Bytes}
    (hs : segs[i]? = some s) (hoff : (lengths.take i).sum = k) : FieldAt chunk k s := by
  refine fieldAt_table (a := []) (b := []) ?_ hlengths hs ?_
  · rw [hchunk, List.nil_append, List.append_nil]
  · rw [List.length_nil, Nat.zero_add, hoff]

theorem decodeRange_encodeRange {value : ByteRange} (hv : value.stop < wordBound) :
    decodeRange (encodeRange value) 0 = .ok value := by
  have hfield := fun {i k : ℕ} {s : Bytes} =>
    fieldAt_value (encodeRange value) [toLe 8 value.offset, toLe 8 value.length]
      [8, 8] (i := i) (k := k) (s := s) (by simp [encodeRange]) (by simp)
  exact decodeRange_of_fields (hfield (i := 0) rfl rfl) (hfield (i := 1) rfl rfl) hv

theorem decodeReservation_encodeReservation {value : DestinationReservation}
    (hv : value.range.stop < wordBound) :
    decodeReservation (encodeReservation value) = .ok value := by
  have hfield := fun {i k : ℕ} {s : Bytes} =>
    fieldAt_value (encodeReservation value)
      [toLe 8 value.range.offset, toLe 8 value.range.length,
        [reservationKindByte value.kind], [0, 0, 0, 0, 0, 0, 0]]
      [8, 8, 1, 7] (i := i) (k := k) (s := s)
      (by simp [encodeReservation, encodeRange]) (by simp)
  have hzero : AllZero (sliceAt (encodeReservation value) 17 7) :=
    allZero_of_field (hfield (i := 3) rfl rfl) rfl (by decide)
  have hkind : (encodeReservation value).getD 16 0 = reservationKindByte value.kind :=
    (hfield (i := 2) rfl rfl).getD
  have hrange : decodeRange (encodeReservation value) 0 = .ok value.range :=
    decodeRange_of_fields (hfield (i := 0) rfl rfl) (hfield (i := 1) rfl rfl) hv
  rw [decodeReservation, ensure_of hzero, ok_bind, hrange, ok_bind, hkind,
    decodeReservationKind_byte, ok_bind]
  rfl

theorem decodeRelocation_encodeRelocation {value : Relocation} (hs : value.stream < 2 ^ 64)
    (ho : value.logicalOffset < 2 ^ 64) (hsource : value.source.stop < wordBound)
    (hdestination : value.destination.stop < wordBound) :
    decodeRelocation (encodeRelocation value) = .ok value := by
  have hfield := fun {i k : ℕ} {s : Bytes} =>
    fieldAt_value (encodeRelocation value)
      [toLe 8 value.stream, toLe 8 value.logicalOffset, toLe 8 value.source.offset,
        toLe 8 value.source.length, toLe 8 value.destination.offset, toLe 8 value.destination.length]
      [8, 8, 8, 8, 8, 8] (i := i) (k := k) (s := s)
      (by simp [encodeRelocation, encodeRange]) (by simp)
  have hstream : readWord 8 (encodeRelocation value) 0 = .ok value.stream :=
    readWord_of_field (hfield (i := 0) rfl rfl) hs
  have hlogical : readWord 8 (encodeRelocation value) 8 = .ok value.logicalOffset :=
    readWord_of_field (hfield (i := 1) rfl rfl) ho
  have hfrom : decodeRange (encodeRelocation value) 16 = .ok value.source :=
    decodeRange_of_fields (hfield (i := 2) rfl rfl) (hfield (i := 3) rfl rfl) hsource
  have hto : decodeRange (encodeRelocation value) 32 = .ok value.destination :=
    decodeRange_of_fields (hfield (i := 4) rfl rfl) (hfield (i := 5) rfl rfl) hdestination
  rw [decodeRelocation, hstream, ok_bind, hlogical, ok_bind, hfrom, ok_bind, hto, ok_bind]
  rfl

/-- The bytes of the method of a feature rule. -/
def methodFields : PreservationMethod → UInt8 × ℕ × Digest
  | .native => (0, 0, ⟨List.replicate 32 0, List.length_replicate⟩)
  | .escrow schemaVersion payloadDigest => (1, schemaVersion, payloadDigest)

theorem decodeTargetFeature_encodeTargetFeature {value : FeatureCompatibility}
    (hv : ∀ schemaVersion payloadDigest, value.method = .escrow schemaVersion payloadDigest →
      schemaVersion ≠ 0 ∧ schemaVersion < 2 ^ 16) :
    decodeTargetFeature (encodeTargetFeature value) = .ok value := by
  obtain ⟨feature, method⟩ := value
  have hfield := fun {i k : ℕ} {s : Bytes} =>
    fieldAt_value (encodeTargetFeature ⟨feature, method⟩)
      [[semanticFeatureByte feature], [(methodFields method).1],
        toLe 2 (methodFields method).2.1, (methodFields method).2.2.1]
      [1, 1, 2, 32] (i := i) (k := k) (s := s)
      (by cases method <;> simp [encodeTargetFeature, methodFields]) (by simp)
  have hfeature : (encodeTargetFeature ⟨feature, method⟩).getD 0 0 = semanticFeatureByte feature :=
    (hfield (i := 0) rfl rfl).getD
  have hmethod : (encodeTargetFeature ⟨feature, method⟩).getD 1 0 = (methodFields method).1 :=
    (hfield (i := 1) rfl rfl).getD
  have hschema : readWord 2 (encodeTargetFeature ⟨feature, method⟩) 2 =
      .ok (methodFields method).2.1 := by
    refine readWord_of_field (hfield (i := 2) rfl rfl) ?_
    cases method with
    | native => decide
    | escrow schemaVersion payloadDigest => exact (hv _ _ rfl).2
  have hdigest : arrayAt 32 (encodeTargetFeature ⟨feature, method⟩) 4 =
      .ok (methodFields method).2.2 := arrayAt_of_field (hfield (i := 3) rfl rfl)
  rw [decodeTargetFeature, hfeature, decodeSemanticFeature_byte, ok_bind, hschema, ok_bind, hdigest,
    ok_bind, hmethod]
  cases method with
  | native => rfl
  | escrow schemaVersion payloadDigest =>
    have hne := (hv _ _ rfl).1
    simp [methodFields, hne]

/-- A write both decoders accept: not empty, inside the words, with its section within the limit. -/
theorem boundedWriteEnd_ok {start section_ payload : ℕ} {write : OverlayWrite}
    (hlen : bytes.length < wordBound) (hin : start + write.bytes.length ≤ bytes.length)
    (hne : write.bytes.length ≠ 0) (hstop : write.offset + write.bytes.length < wordBound)
    (hmax : limits.maxWriteBytes < wordBound)
    (hpayload : payload + write.bytes.length ≤ limits.maxWriteBytes) :
    boundedWriteEnd bytes start write.offset write.bytes.length section_ payload limits =
      .ok (start + write.bytes.length, payload + write.bytes.length) := by
  rw [boundedWriteEnd, ensure_of hne, ok_bind, checkedAdd_of_lt hstop, orErr_some, ok_bind,
    checkedAdd_of_lt (by omega), orErr_some, ok_bind, ensure_of hpayload, ok_bind,
    checkedAdd_of_lt (by omega), orErr_some, ok_bind, ensure_of hin, ok_bind]
  rfl

@[simp] theorem length_encodeReservedWrite (value : ReservedWrite) :
    (encodeReservedWrite value).length = reservedWriteHeaderBytes + value.write.bytes.length := by
  simp [encodeReservedWrite, reservedWriteHeaderBytes]
  omega

@[simp] theorem length_encodeRollbackWrite (value : OverlayWrite) :
    (encodeRollbackWrite value).length = rollbackWriteHeaderBytes + value.bytes.length := by
  simp [encodeRollbackWrite, rollbackWriteHeaderBytes]
  omega

variable (hlen : bytes.length < wordBound) (hl : PreparedEnvelopeLimits.Fits limits)

include hlen hl

theorem readReservedWrite_ok {section_ payload : ℕ} {value : ReservedWrite} {before after : Bytes}
    (hbytes : bytes = before ++ encodeReservedWrite value ++ after)
    (hne : value.write.bytes.length ≠ 0)
    (hstop : value.write.offset + value.write.bytes.length < wordBound)
    (hpayload : payload + value.write.bytes.length ≤ limits.maxWriteBytes) :
    readReservedWrite bytes section_ limits before.length payload =
      .ok (value, before.length + (encodeReservedWrite value).length,
        payload + value.write.bytes.length) := by
  have hw : wordBound = 256 ^ 8 := by norm_num [wordBound]
  have hmax : limits.maxWriteBytes < wordBound := hl.maxWriteBytes
  have hlength : bytes.length = before.length +
      (reservedWriteHeaderBytes + value.write.bytes.length) + after.length := by
    rw [hbytes, List.length_append, List.length_append, length_encodeReservedWrite]
  have hfield : ∀ {i off : ℕ} {s : Bytes},
      [[reservationKindByte value.reservationKind], [0, 0, 0, 0, 0, 0, 0],
        toLe 8 value.write.offset, toLe 8 value.write.bytes.length, value.write.bytes][i]? = some s →
      before.length + (([1, 7, 8, 8, value.write.bytes.length] : List ℕ).take i).sum = off →
      FieldAt bytes off s := by
    intro i off s hs hoff
    refine fieldAt_table (a := before) (b := after) ?_ (by simp) hs hoff
    rw [hbytes]
    simp [encodeReservedWrite]
  have hkind : bytes.getD before.length 0 = reservationKindByte value.reservationKind :=
    (hfield (i := 0) rfl rfl).getD
  have hzero : AllZero (sliceAt bytes (before.length + 1) 7) :=
    allZero_of_field (hfield (i := 1) rfl rfl) rfl (by decide)
  have hoffset : readWord 8 bytes (before.length + 8) = .ok value.write.offset :=
    readWord_of_field (hfield (i := 2) rfl rfl) (by omega)
  have hsize : readWord 8 bytes (before.length + 16) = .ok value.write.bytes.length :=
    readWord_of_field (hfield (i := 3) rfl rfl) (by omega)
  have hdata : sliceAt bytes (before.length + reservedWriteHeaderBytes) value.write.bytes.length =
      value.write.bytes := (hfield (i := 4) rfl rfl).slice rfl
  rw [readReservedWrite, checkedAdd_of_lt (by omega), orErr_some, ok_bind, ensure_of (by omega),
    ok_bind, ensure_of hzero, ok_bind, hoffset, ok_bind, hsize, ok_bind,
    boundedWriteEnd_ok hlen (by omega) hne hstop hmax hpayload, ok_bind]
  dsimp only
  rw [hkind, decodeReservationKind_byte, ok_bind, Nat.add_sub_cancel_left, hdata,
    length_encodeReservedWrite, Nat.add_assoc]
  rfl

theorem readRollbackWrite_ok {section_ payload : ℕ} {value : OverlayWrite} {before after : Bytes}
    (hbytes : bytes = before ++ encodeRollbackWrite value ++ after) (hne : value.bytes.length ≠ 0)
    (hstop : value.offset + value.bytes.length < wordBound)
    (hpayload : payload + value.bytes.length ≤ limits.maxWriteBytes) :
    readRollbackWrite bytes section_ limits before.length payload =
      .ok (value, before.length + (encodeRollbackWrite value).length,
        payload + value.bytes.length) := by
  have hw : wordBound = 256 ^ 8 := by norm_num [wordBound]
  have hmax : limits.maxWriteBytes < wordBound := hl.maxWriteBytes
  have hlength : bytes.length = before.length +
      (rollbackWriteHeaderBytes + value.bytes.length) + after.length := by
    rw [hbytes, List.length_append, List.length_append, length_encodeRollbackWrite]
  have hfield : ∀ {i off : ℕ} {s : Bytes},
      [toLe 8 value.offset, toLe 8 value.bytes.length, value.bytes][i]? = some s →
      before.length + (([8, 8, value.bytes.length] : List ℕ).take i).sum = off →
      FieldAt bytes off s := by
    intro i off s hs hoff
    refine fieldAt_table (a := before) (b := after) ?_ (by simp) hs hoff
    rw [hbytes]
    simp [encodeRollbackWrite]
  have hoffset : readWord 8 bytes before.length = .ok value.offset :=
    readWord_of_field (hfield (i := 0) rfl rfl) (by omega)
  have hsize : readWord 8 bytes (before.length + 8) = .ok value.bytes.length :=
    readWord_of_field (hfield (i := 1) rfl rfl) (by omega)
  have hdata : sliceAt bytes (before.length + rollbackWriteHeaderBytes) value.bytes.length =
      value.bytes := (hfield (i := 2) rfl rfl).slice rfl
  rw [readRollbackWrite, checkedAdd_of_lt (by omega), orErr_some, ok_bind, ensure_of (by omega),
    ok_bind, hoffset, ok_bind, hsize, ok_bind,
    boundedWriteEnd_ok hlen (by omega) hne hstop hmax hpayload, ok_bind]
  dsimp only
  rw [Nat.add_sub_cancel_left, hdata, length_encodeRollbackWrite, Nat.add_assoc]
  rfl

/-- A section of reserved writes read back. -/
theorem decodeReservedWrites_ok {entry : SectionMeta} {values : List ReservedWrite}
    (hbytes : bytes = (values.map encodeReservedWrite).flatten) (hcount : entry.count = values.length)
    (hvalid : ∀ v ∈ values, v.write.bytes.length ≠ 0 ∧
      v.write.offset + v.write.bytes.length < wordBound)
    (htotal : (values.map fun v => v.write.bytes.length).sum ≤ limits.maxWriteBytes)
    (horder : ensureOrder values entry.tag reservedWriteOrderKey = .ok ()) :
    decodeReservedWrites bytes entry limits = .ok values := by
  have hread := readEntries_ok (readReservedWrite bytes entry.tag limits) encodeReservedWrite
    (fun v => v.write.bytes.length) limits.maxWriteBytes
    (fun v (hv : v ∈ values) before after total hb ht =>
      readReservedWrite_ok hlen hl hb (hvalid v hv).1 (hvalid v hv).2 ht)
    [] [] 0 (by simpa using hbytes) (by simpa using htotal)
  rw [List.length_nil, Nat.zero_add, ← hbytes] at hread
  rw [decodeReservedWrites, hcount, hread, ok_bind]
  dsimp only
  rw [ensure_of rfl, ok_bind, horder, ok_bind]
  rfl

/-- A section of before-images read back. -/
theorem decodeRollbackWrites_ok {entry : SectionMeta} {values : List OverlayWrite}
    (hbytes : bytes = (values.map encodeRollbackWrite).flatten) (hcount : entry.count = values.length)
    (hvalid : ∀ v ∈ values, v.bytes.length ≠ 0 ∧ v.offset + v.bytes.length < wordBound)
    (htotal : (values.map fun v => v.bytes.length).sum ≤ limits.maxWriteBytes)
    (horder : ensureOrder values entry.tag Patch.offset = .ok ()) :
    decodeRollbackWrites bytes entry limits = .ok values := by
  have hread := readEntries_ok (readRollbackWrite bytes entry.tag limits) encodeRollbackWrite
    (fun v => v.bytes.length) limits.maxWriteBytes
    (fun v (hv : v ∈ values) before after total hb ht =>
      readRollbackWrite_ok hlen hl hb (hvalid v hv).1 (hvalid v hv).2 ht)
    [] [] 0 (by simpa using hbytes) (by simpa using htotal)
  rw [List.length_nil, Nat.zero_add, ← hbytes] at hread
  rw [decodeRollbackWrites, hcount, hread, ok_bind]
  dsimp only
  rw [ensure_of rfl, ok_bind, horder, ok_bind]
  rfl

omit hlen hl

theorem decodeReservations_ok {values : List DestinationReservation}
    (hvalid : ∀ v ∈ values, v.range.stop < wordBound)
    (horder : ensureOrder values reservationsTag reservationSortKey = .ok ()) :
    decodeReservations (values.map encodeReservation).flatten = .ok values := by
  have heach := decodeEach_chunksExact (n := 24) (by decide) decodeReservation encodeReservation values
   
    (fun v _ => by simp [encodeReservation, encodeRange])
    (fun v hv => decodeReservation_encodeReservation (hvalid v hv))
  rw [decodeReservations, heach, ok_bind, horder, ok_bind]
  rfl

theorem decodeRelocations_ok {values : List Relocation}
    (hvalid : ∀ v ∈ values, (v.stream < 2 ^ 64 ∧ v.logicalOffset < 2 ^ 64) ∧
      v.source.stop < wordBound ∧ v.destination.stop < wordBound)
    (horder : ensureOrder values relocationsTag relocationOrderKey = .ok ()) :
    decodeRelocations (values.map encodeRelocation).flatten = .ok values := by
  have heach := decodeEach_chunksExact (n := 48) (by decide) decodeRelocation encodeRelocation values
   
    (fun v _ => by simp [encodeRelocation, encodeRange])
    (fun v hv => decodeRelocation_encodeRelocation (hvalid v hv).1.1 (hvalid v hv).1.2
      (hvalid v hv).2.1 (hvalid v hv).2.2)
  rw [decodeRelocations, heach, ok_bind, horder, ok_bind]
  rfl

theorem decodeRanges_ok {values : List ByteRange} (hvalid : ∀ v ∈ values, v.stop < wordBound)
    (horder : ensureOrder values freeRangesTag rangeOrderKey = .ok ()) :
    decodeRanges (values.map encodeRange).flatten = .ok values := by
  have heach := decodeEach_chunksExact (n := 16) (by decide) (fun chunk => decodeRange chunk 0) encodeRange values
    (fun v _ => by simp [encodeRange])
    (fun v hv => decodeRange_encodeRange (hvalid v hv))
  rw [decodeRanges, heach, ok_bind, horder, ok_bind]
  rfl

theorem validateTargetFeatures_schema {features : List FeatureCompatibility} {u : Unit}
    (h : validateTargetFeatures features = .ok u) :
    ∀ v ∈ features, ∀ schemaVersion payloadDigest,
      v.method = .escrow schemaVersion payloadDigest → schemaVersion ≠ 0 := by
  simp only [validateTargetFeatures, bind_ok_iff, checkAll_ok_iff] at h
  obtain ⟨_, -, hall⟩ := h
  intro v hv schemaVersion payloadDigest hm
  have hcheck := hall v hv
  rw [hm] at hcheck
  exact ensure_ok_iff.1 hcheck

theorem decodeTargetFeatures_ok {values : List FeatureCompatibility}
    (hvalid : ∀ v ∈ values, ∀ schemaVersion payloadDigest,
      v.method = .escrow schemaVersion payloadDigest → schemaVersion < 2 ^ 16)
    (hcheck : validateTargetFeatures values = .ok ()) :
    decodeTargetFeatures (values.map encodeTargetFeature).flatten = .ok values := by
  have heach := decodeEach_chunksExact (n := 36) (by decide) decodeTargetFeature encodeTargetFeature values
   
    (fun v _ => by obtain ⟨f, m⟩ := v; cases m <;> simp [encodeTargetFeature])
    (fun v hv => decodeTargetFeature_encodeTargetFeature fun n d hm =>
      ⟨validateTargetFeatures_schema hcheck v hv n d hm, hvalid v hv n d hm⟩)
  rw [decodeTargetFeatures, heach, ok_bind, hcheck, ok_bind]
  rfl

end Contents

/-! ## Round trip -/

section RoundTrip

theorem listSection_ok_iff {α : Type} {tag : ℕ} {values : List α} {encode : α → Bytes}
    {value : EncodedSection} :
    listSection tag values encode = .ok value ↔
      values.length < 2 ^ 32 ∧ ⟨tag, values.length, (values.map encode).flatten⟩ = value := by
  simp only [listSection, bind_ok_iff, exists_const, ensure_ok_iff, pure_eq_ok, Except.ok.injEq]

theorem forall₂_getD {α β : Type} {R : α → β → Prop} {l : List α} {l' : List β}
    (h : List.Forall₂ R l l') {i : ℕ} {v : β} {d : α} (hv : l'[i]? = some v) : R (l.getD i d) v := by
  induction h generalizing i with
  | nil => simp at hv
  | cons hab _ ih =>
    cases i with
    | zero =>
      obtain rfl := Option.some.inj hv
      exact hab
    | succ i => exact ih hv

/-- The sections of a state. -/
def sectionsOf (state : EnvelopeState) : List EncodedSection :=
  [⟨reservationsTag, state.reservations.length, (state.reservations.map encodeReservation).flatten⟩,
    ⟨relocationsTag, state.layout.relocations.length,
      (state.layout.relocations.map encodeRelocation).flatten⟩,
    ⟨freeRangesTag, state.layout.freeAfterStaging.length,
      (state.layout.freeAfterStaging.map encodeRange).flatten⟩,
    ⟨targetStagingTag, state.writes.targetStaging.length,
      (state.writes.targetStaging.map encodeReservedWrite).flatten⟩,
    ⟨backupBootTag, state.writes.backupBoot.length,
      (state.writes.backupBoot.map encodeReservedWrite).flatten⟩,
    ⟨activationTag, state.writes.activation.length,
      (state.writes.activation.map encodeReservedWrite).flatten⟩,
    ⟨targetStagingRollbackTag, state.writes.targetStagingRollback.length,
      (state.writes.targetStagingRollback.map encodeRollbackWrite).flatten⟩,
    ⟨backupBootRollbackTag, state.writes.backupBootRollback.length,
      (state.writes.backupBootRollback.map encodeRollbackWrite).flatten⟩,
    ⟨activationRollbackTag, state.writes.activationRollback.length,
      (state.writes.activationRollback.map encodeRollbackWrite).flatten⟩,
    ⟨recoveryPayloadTag, 1, state.recoveryPayload⟩,
    ⟨targetFeaturesTag, state.targetFeatures.length,
      (state.targetFeatures.map encodeTargetFeature).flatten⟩,
    ⟨relocationDestinationRollbackTag, state.relocationDestinationBeforeImages.length,
      (state.relocationDestinationBeforeImages.map encodeRollbackWrite).flatten⟩]

theorem encodeSections_ok {sections : List EncodedSection}
    (h : encodeSections state = .ok sections) :
    sections = sectionsOf state ∧ ∀ value ∈ sections, value.count < 2 ^ 32 := by
  simp only [encodeSections, bind_ok_iff, listSection_ok_iff, pure_eq_ok, Except.ok.injEq] at h
  obtain ⟨_, ⟨h1, rfl⟩, _, ⟨h2, rfl⟩, _, ⟨h3, rfl⟩, _, ⟨h4, rfl⟩, _, ⟨h5, rfl⟩, _, ⟨h6, rfl⟩, _,
    ⟨h7, rfl⟩, _, ⟨h8, rfl⟩, _, ⟨h9, rfl⟩, _, ⟨h11, rfl⟩, _, ⟨h12, rfl⟩, rfl⟩ := h
  refine ⟨rfl, ?_⟩
  simp only [List.forall_mem_cons]
  exact ⟨h1, h2, h3, h4, h5, h6, h7, h8, h9, by norm_num, h11, h12, by simp⟩

theorem length_map_flatten {α : Type} {n : ℕ} {encode : α → Bytes} {size : α → ℕ}
    (h : ∀ v, (encode v).length = n + size v) (values : List α) :
    (values.map encode).flatten.length = values.length * n + (values.map size).sum := by
  induction values with
  | nil => simp
  | cons v rest ih =>
    rw [List.map_cons, List.flatten_cons, List.length_append, ih, h v, List.length_cons,
      List.map_cons, List.sum_cons]
    ring

theorem length_encodeReservedWrites (values : List ReservedWrite) :
    (values.map encodeReservedWrite).flatten.length =
      values.length * reservedWriteHeaderBytes +
        (values.map fun v => v.write.bytes.length).sum :=
  length_map_flatten length_encodeReservedWrite values

theorem length_encodeRollbackWrites (values : List OverlayWrite) :
    (values.map encodeRollbackWrite).flatten.length =
      values.length * rollbackWriteHeaderBytes + (values.map fun v => v.bytes.length).sum :=
  length_map_flatten length_encodeRollbackWrite values

theorem sum_entries_sectionsOf :
    ((sectionsOf state).map EncodedSection.entries).sum = (entryCounts state).sum := by
  simp only [sectionsOf, List.map_cons, List.map_nil, List.sum_cons, List.sum_nil,
    EncodedSection.entries, entryCounts]
  simp [reservationsTag, relocationsTag, freeRangesTag, targetStagingTag, backupBootTag,
    activationTag, targetStagingRollbackTag, backupBootRollbackTag, activationRollbackTag,
    recoveryPayloadTag, targetFeaturesTag, relocationDestinationRollbackTag]
  omega

theorem sum_writeBytes_sectionsOf :
    ((sectionsOf state).map EncodedSection.writeBytes).sum = (writeLengths state).sum := by
  simp only [sectionsOf, List.map_cons, List.map_nil, List.sum_cons, List.sum_nil,
    EncodedSection.writeBytes, writeLengths, forwardWrites, rollbackWrites, List.map_append,
    List.sum_append]
  simp [reservationsTag, relocationsTag, freeRangesTag, targetStagingTag, backupBootTag,
    activationTag, targetStagingRollbackTag, backupBootRollbackTag, activationRollbackTag,
    recoveryPayloadTag, targetFeaturesTag, relocationDestinationRollbackTag, writeHeaderBytes,
    length_encodeReservedWrites, length_encodeRollbackWrites, -List.length_flatten]
  omega

theorem framed_fixed {α : Type} {tag n : ℕ} {values : List α} {encode : α → Bytes}
    (hunit : fixedUnit tag = some n) (hwrites : writeHeaderBytes tag = none)
    (htag : tag ≠ recoveryPayloadTag ∧ tag < 2 ^ 16) (hcount : values.length < 2 ^ 32)
    (hlen : ∀ v, (encode v).length = n) :
    EncodedSection.Framed ⟨tag, values.length, (values.map encode).flatten⟩ limits := by
  refine ⟨htag.2, hcount, fun h => absurd h htag.1, fun m h => ?_, fun m h => ?_⟩
  · rw [hwrites] at h
    cases h
  · obtain rfl : n = m := Option.some.inj (hunit.symm.trans h)
    have := length_map_flatten (n := n) (fun v => (hlen v).trans (Nat.add_zero n).symm) values
    rw [this, List.map_const', List.sum_replicate, smul_zero, Nat.add_zero]

theorem framed_writes {α : Type} {tag n : ℕ} {values : List α} {encode : α → Bytes} {size : α → ℕ}
    (hunit : fixedUnit tag = none) (hwrites : writeHeaderBytes tag = some n)
    (htag : tag ≠ recoveryPayloadTag ∧ tag < 2 ^ 16) (hcount : values.length < 2 ^ 32)
    (hlen : ∀ v, (encode v).length = n + size v) :
    EncodedSection.Framed ⟨tag, values.length, (values.map encode).flatten⟩ limits := by
  refine ⟨htag.2, hcount, fun h => absurd h htag.1, fun m h => ?_, fun m h => ?_⟩
  · obtain rfl : n = m := Option.some.inj (hwrites.symm.trans h)
    rw [length_map_flatten hlen]
    exact Nat.le_add_right _ _
  · rw [hunit] at h
    cases h

theorem framed_sectionsOf (hs : Shaped state limits)
    (hcount : ∀ value ∈ sectionsOf state, value.count < 2 ^ 32) :
    ∀ value ∈ sectionsOf state, value.Framed limits := by
  simp only [sectionsOf, List.forall_mem_cons] at hcount ⊢
  obtain ⟨h1, h2, h3, h4, h5, h6, h7, h8, h9, -, h11, h12, -⟩ := hcount
  refine ⟨framed_fixed (n := 24) rfl rfl (by decide) h1 fun v => by simp [encodeReservation, encodeRange],
    framed_fixed (n := 48) rfl rfl (by decide) h2 fun v => by simp [encodeRelocation, encodeRange],
    framed_fixed (n := 16) rfl rfl (by decide) h3 fun v => by simp [encodeRange],
    framed_writes rfl rfl (by decide) h4 length_encodeReservedWrite,
    framed_writes rfl rfl (by decide) h5 length_encodeReservedWrite,
    framed_writes rfl rfl (by decide) h6 length_encodeReservedWrite,
    framed_writes rfl rfl (by decide) h7 length_encodeRollbackWrite,
    framed_writes rfl rfl (by decide) h8 length_encodeRollbackWrite,
    framed_writes rfl rfl (by decide) h9 length_encodeRollbackWrite, ?_,
    framed_fixed (n := 36) rfl rfl (by decide) h11 fun v => by
      obtain ⟨f, m⟩ := v
      cases m <;> simp [encodeTargetFeature],
    framed_writes rfl rfl (by decide) h12 length_encodeRollbackWrite, by simp⟩
  have hunit : fixedUnit recoveryPayloadTag = none := rfl
  have hwrites : writeHeaderBytes recoveryPayloadTag = none := rfl
  refine ⟨show (10 : ℕ) < 2 ^ 16 by norm_num, show (1 : ℕ) < 2 ^ 32 by norm_num,
    fun _ => ⟨rfl, hs.recovery_le⟩, fun m h => ?_, fun m h => ?_⟩
  · rw [hwrites] at h
    cases h
  · rw [hunit] at h
    cases h

variable {payload crc : Bytes} {source target : UInt8}
  (h : Encoded H state ((sectionsOf state).map (encodeSection H)).flatten bytes source target crc)
  (hs : Shaped state limits) (hl : PreparedEnvelopeLimits.Fits limits)

include h hs hl

theorem scanSections_ok (hcount : ∀ value ∈ sectionsOf state, value.count < 2 ^ 32) :
    ∃ metas, scanSections H bytes limits = .ok metas ∧
      List.Forall₂ (Locates bytes) metas (sectionsOf state) := by
  obtain ⟨metas, scan, hscan, hcursor, hmetas⟩ := scanFrom_ok (H := H) hl h.length_lt
    (framed_sectionsOf hs hcount)
    (headerFields state bytes.length
      (H.sha256 ((sectionsOf state).map (encodeSection H)).flatten) source target crc).flatten
    [] 0 0 (by rw [List.append_nil]; exact h.eq)
    (by rw [sum_entries_sectionsOf, Nat.zero_add]; exact hs.entries_le)
    (by rw [sum_writeBytes_sectionsOf, Nat.zero_add]; exact hs.writeBytes_le)
  rw [length_header h.crc_length] at hscan
  rw [← h.eq] at hcursor
  refine ⟨metas, ?_, hmetas⟩
  have htags : List.range' 1 sectionCount = (sectionsOf state).map EncodedSection.tag := rfl
  rw [scanSections, htags, hscan, ok_bind]
  dsimp only
  rw [ensure_of hcursor, ok_bind]
  rfl

theorem decodeSections_ok (hf : EnvelopeState.Fits state) {metas : List SectionMeta}
    (hm : List.Forall₂ (Locates bytes) metas (sectionsOf state)) :
    decodeSections bytes (headerOf state) metas limits = .ok state := by
  have hlen : ∀ entry, (sectionBytes bytes entry).length < wordBound := by
    intro entry
    have := h.length_lt
    rw [sectionBytes, length_sliceAt]
    omega
  have hat : ∀ {i : ℕ} {value : EncodedSection}, (sectionsOf state)[i]? = some value →
      Locates bytes (metas.getD i ⟨0, 0, 0, 0⟩) value := fun hv => forall₂_getD hm hv
  have htotal := hs.writeBytes_le
  simp only [writeLengths, forwardWrites, rollbackWrites, List.map_append, List.sum_append] at htotal
  have hreserved : ∀ (entry : SectionMeta) (tag : ℕ) (values : List ReservedWrite),
      Locates bytes entry ⟨tag, values.length, (values.map encodeReservedWrite).flatten⟩ →
      (values.map fun v => v.write.bytes.length).sum ≤ limits.maxWriteBytes →
      validateReservedWrites tag values = .ok () →
      decodeReservedWrites (sectionBytes bytes entry) entry limits = .ok values := by
    rintro entry tag values ⟨ht, hc, hb⟩ hle hv
    obtain ⟨horder, hvalid⟩ := validateReservedWrites_ok_iff.1 hv
    exact decodeReservedWrites_ok (hlen entry) hl hb hc hvalid hle (ht ▸ horder)
  have hrollback : ∀ (entry : SectionMeta) (tag : ℕ) (values : List OverlayWrite),
      Locates bytes entry ⟨tag, values.length, (values.map encodeRollbackWrite).flatten⟩ →
      (values.map fun v => v.bytes.length).sum ≤ limits.maxWriteBytes →
      validateRollbackWrites tag values = .ok () →
      decodeRollbackWrites (sectionBytes bytes entry) entry limits = .ok values := by
    rintro entry tag values ⟨ht, hc, hb⟩ hle hv
    obtain ⟨horder, hvalid⟩ := validateRollbackWrites_ok_iff.1 hv
    exact decodeRollbackWrites_ok (hlen entry) hl hb hc hvalid hle (ht ▸ horder)
  have d0 := decodeReservations_ok hs.reservations_lt hs.reservations_order
  have d1 := decodeRelocations_ok
    (fun v hv => ⟨hf.relocations v hv, hs.relocations_lt v hv⟩) hs.relocations_order
  have d2 := decodeRanges_ok hs.free_lt hs.free_order
  have d3 := hreserved _ _ _ (hat (i := 3) rfl) (by omega) hs.targetStaging
  have d4 := hreserved _ _ _ (hat (i := 4) rfl) (by omega) hs.backupBoot
  have d5 := hreserved _ _ _ (hat (i := 5) rfl) (by omega) hs.activation
  have d6 := hrollback _ _ _ (hat (i := 6) rfl) (by omega) hs.targetStagingRollback
  have d7 := hrollback _ _ _ (hat (i := 7) rfl) (by omega) hs.backupBootRollback
  have d8 := hrollback _ _ _ (hat (i := 8) rfl) (by omega) hs.activationRollback
  have d10 := decodeTargetFeatures_ok hf.features hs.features
  have d11 := hrollback _ _ _ (hat (i := 11) rfl) (by omega) hs.beforeImages
  have b0 : sectionBytes bytes (metas.getD 0 ⟨0, 0, 0, 0⟩) =
      (state.reservations.map encodeReservation).flatten := (hat (i := 0) rfl).2.2
  have b1 : sectionBytes bytes (metas.getD 1 ⟨0, 0, 0, 0⟩) =
      (state.layout.relocations.map encodeRelocation).flatten := (hat (i := 1) rfl).2.2
  have b2 : sectionBytes bytes (metas.getD 2 ⟨0, 0, 0, 0⟩) =
      (state.layout.freeAfterStaging.map encodeRange).flatten := (hat (i := 2) rfl).2.2
  have b9 : sectionBytes bytes (metas.getD 9 ⟨0, 0, 0, 0⟩) = state.recoveryPayload :=
    (hat (i := 9) rfl).2.2
  have b10 : sectionBytes bytes (metas.getD 10 ⟨0, 0, 0, 0⟩) =
      (state.targetFeatures.map encodeTargetFeature).flatten := (hat (i := 10) rfl).2.2
  simp only [decodeSections, b0, b1, b2, b9, b10, d0, d1, d2, d3, d4, d5, d6, d7, d8, d10, d11,
    ok_bind, pure_eq_ok, headerOf, Except.ok.injEq]
  rw [← hs.materializations_eq, ← hs.materializedBytes_eq]

omit h hs in
/-- **Envelope round trip.** What the encoder accepts is decoded to the same state. -/
theorem decodeState_encodeState (he : encodeState H state limits = .ok bytes)
    (hf : EnvelopeState.Fits state) : decodeState H bytes limits = .ok state := by
  obtain ⟨sections, source, target, crc, hstate, hsections, h, hcap, hgen⟩ := encodeState_ok he
  obtain ⟨rfl, hcount⟩ := encodeSections_ok hsections
  have hshape : validateShape state limits = .ok () := by
    rw [validateState, bind_unit_ok_iff] at hstate
    exact hstate.1
  have hs := shaped_of_validateShape hshape
  have hlimits : validateLimits limits = .ok () := by
    rw [validateShape, bind_unit_ok_iff] at hshape
    exact hshape.1
  have hb : Bounded state :=
    ⟨hs.logicalBytes_le.trans_lt hl.maxLogicalBytes, hs.objectCount_le.trans_lt hl.maxEntries,
      hs.relocatedBytes_lt, hs.largestFreeRange_lt⟩
  obtain ⟨metas, hscan, hmetas⟩ := scanSections_ok h hs hl hcount
  have hlength := h.length_eq
  have htotal : readWord 8 bytes 16 = .ok bytes.length :=
    readWord_of_field (h.field (i := 4) rfl rfl) h.length_lt
  have hpayload : readWord 8 bytes 24 = .ok (bytes.length - headerBytes) :=
    readWord_of_field (h.field (i := 5) rfl rfl) ((Nat.sub_le _ _).trans_lt h.length_lt)
  have hdigest : arrayAt 32 bytes 32 =
      .ok (H.sha256 ((sectionsOf state).map (encodeSection H)).flatten) :=
    arrayAt_of_field (h.field (i := 6) rfl rfl)
  have hsectionCount : readWord 4 bytes 488 = .ok sectionCount :=
    readWord_of_field (h.field (i := 35) rfl rfl) (by decide)
  rw [decodeState, hlimits, ok_bind, ensureEnvelopeCap, ensure_of hcap, ok_bind,
    ensure_of (by omega), ok_bind, h.validateHeader, ok_bind, htotal, ok_bind, ensure_of rfl, ok_bind,
    hpayload, ok_bind, ensure_of rfl, ok_bind, hdigest, ok_bind, ensure_of (by rw [h.drop_eq]), ok_bind,
    hsectionCount, ok_bind, ensure_of rfl, ok_bind, h.decodeHeader hf hb, ok_bind]
  dsimp only [headerOf]
  rw [hgen, ok_bind, hscan, ok_bind]
  have hdecode := decodeSections_ok h hs hl hf hmetas
  simp only [headerOf] at hdecode
  rw [hdecode, ok_bind, hstate, ok_bind]
  rfl

end RoundTrip

end Envelope

end StarConverter
