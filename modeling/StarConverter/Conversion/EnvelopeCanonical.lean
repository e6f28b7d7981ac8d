import StarConverter.Conversion.Payload
import StarConverter.Conversion.Restart
import StarConverter.RecoveryCodec

/-!
# Canonical envelopes

Every byte of an accepted envelope is read by a field, a section or the check of a reserved byte, and
every reader consumes exactly the encoding of what it returns. So the encoder writes an accepted
envelope again, byte for byte (`encodeState_decode`).
-/

namespace StarConverter

open Base Geometry Capsule Recovery Conversion

namespace Envelope

variable {H : Hashing} {state : EnvelopeState} {limits : PreparedEnvelopeLimits} {bytes : Bytes}

/-! ## What stands where a reader read -/

theorem readWord_ok {n offset v : ℕ} (h : readWord n bytes offset = .ok v) :
    sliceAt bytes offset n = toLe n v ∧ v < 256 ^ n := by
  rw [readWord, orErr_ok_iff] at h
  obtain ⟨hs, hv, -⟩ := readLe?_eq_some h
  exact ⟨hs, hv⟩

theorem arrayAt_ok {n offset : ℕ} {b : FixedBytes n} (h : arrayAt n bytes offset = .ok b) :
    sliceAt bytes offset n = b.1 := by
  unfold arrayAt at h
  split_ifs at h
  obtain rfl := Except.ok.inj h
  rfl

theorem sliceAt_one {offset : ℕ} (h : offset < bytes.length) :
    sliceAt bytes offset 1 = [bytes.getD offset 0] := by
  refine List.ext_getElem? fun i => ?_
  rw [getElem?_sliceAt]
  cases i with
  | zero =>
    rw [if_pos Nat.one_pos, Nat.add_zero, List.getElem?_cons_zero, List.getD_eq_getElem?_getD,
      List.getElem?_eq_getElem h, Option.getD_some]
  | succ i => simp

theorem sliceAt_zeros {offset n : ℕ} (hin : offset + n ≤ bytes.length)
    (h : AllZero (sliceAt bytes offset n)) : sliceAt bytes offset n = List.replicate n 0 :=
  List.eq_replicate_iff.2 ⟨length_sliceAt_of_le hin, h⟩

theorem AllZero.append_iff {s t : Bytes} : AllZero (s ++ t) ↔ AllZero s ∧ AllZero t :=
  List.forall_mem_append

theorem filesystemByte_decode {value : UInt8} {field : String} {filesystem : FileSystem}
    (h : decodeFilesystem value field = .ok filesystem) : filesystemByte filesystem = .ok value := by
  unfold decodeFilesystem at h
  split_ifs at h with h0 h1
  · obtain rfl := Except.ok.inj h
    rw [h0]
    rfl
  · obtain rfl := Except.ok.inj h
    rw [h1]
    rfl

theorem healthByte_decode {value : UInt8} {health : HealthState}
    (h : decodeHealth value = .ok health) : healthByte health = value := by
  unfold decodeHealth at h
  split_ifs at h with h0 h1 h2
  · obtain rfl := Except.ok.inj h
    exact h0.symm
  · obtain rfl := Except.ok.inj h
    exact h1.symm
  · obtain rfl := Except.ok.inj h
    exact h2.symm

theorem accessByte_decode {value : UInt8} {access : AccessState}
    (h : decodeAccess value = .ok access) : accessByte access = value := by
  unfold decodeAccess at h
  split_ifs at h with h0 h1 h2
  · obtain rfl := Except.ok.inj h
    exact h0.symm
  · obtain rfl := Except.ok.inj h
    exact h1.symm
  · obtain rfl := Except.ok.inj h
    exact h2.symm

/-- A key that is the position in a list of all values. -/
theorem ofNat_key {α : Type} {values : List α} {key : α → ℕ} {value : UInt8} {a : α}
    (hkey : ∀ i a, values[i]? = some a → key a = i) (h : values[value.toNat]? = some a) :
    UInt8.ofNat (key a) = value := by
  rw [hkey _ _ h]
  exact UInt8.ofNat_toNat

theorem reservationKindByte_decode {value : UInt8} {kind : ReservationKind}
    (h : decodeReservationKind value = .ok kind) : reservationKindByte kind = value := by
  rw [decodeReservationKind, orErr_ok_iff] at h
  refine ofNat_key (fun i a hi => ?_) h
  match i, hi with
  | 0, hi | 1, hi | 2, hi | 3, hi | 4, hi | 5, hi => obtain rfl := Option.some.inj hi; rfl

theorem semanticFeatureByte_decode {value : UInt8} {feature : SemanticFeature}
    (h : decodeSemanticFeature value = .ok feature) : semanticFeatureByte feature = value := by
  rw [decodeSemanticFeature, orErr_ok_iff] at h
  refine ofNat_key (fun i a hi => ?_) h
  match i, hi with
  | 0, hi | 1, hi | 2, hi | 3, hi | 4, hi | 5, hi | 6, hi | 7, hi =>
    obtain rfl := Option.some.inj hi; rfl

theorem flagsByte_decode {flags : UInt8} (h : flags &&& ~~~ 0x03 = 0) :
    flagsByte (decide (flags &&& 1 ≠ 0)) (decide (flags &&& 2 ≠ 0)) = flags := by
  have key : ∀ i : Fin 256, UInt8.ofNat i.1 &&& ~~~ 0x03 = 0 →
      flagsByte (decide (UInt8.ofNat i.1 &&& 1 ≠ 0)) (decide (UInt8.ofNat i.1 &&& 2 ≠ 0)) =
        UInt8.ofNat i.1 := by decide +kernel
  have := key ⟨flags.toNat, flags.toNat_lt⟩
  rw [show UInt8.ofNat flags.toNat = flags from UInt8.ofNat_toNat] at this
  exact this h

/-! ## The header -/

theorem length_magic : magic.length = 8 := rfl

/-- What the decoder found of the header, apart from its fields. -/
structure Framed (H : Hashing) (bytes : Bytes) : Prop where
  headerBytes_le : headerBytes ≤ bytes.length
  valid : validateHeader H bytes = .ok ()
  total : readWord 8 bytes 16 = .ok bytes.length
  payload : readWord 8 bytes 24 = .ok (bytes.length - headerBytes)
  digest : arrayAt 32 bytes 32 = .ok (H.sha256 (bytes.drop headerBytes))
  count : readWord 4 bytes 488 = .ok sectionCount

/-- The fields of the header stand where they are decoded from. -/
theorem Framed.stand (hframe : Framed H bytes) (h : decodeHeader bytes = .ok (headerOf state)) :
    ∃ source target, filesystemByte state.preflight.sourceFilesystem = .ok source ∧
      filesystemByte state.targetFilesystem = .ok target ∧
      Stand bytes 0 (headerFields state bytes.length (H.sha256 (bytes.drop headerBytes)) source target
        (sliceAt bytes headerCrcOffset 4)) := by
  obtain ⟨hin, hvalid, htotal, hpayload, hdigest, hcount⟩ := hframe
  have hcrc : headerCrcOffset + 4 ≤ bytes.length := Nat.le_trans (by decide) hin
  simp only [validateHeader, bind_ok_iff, exists_const, ensure_ok_iff, AllZero.append_iff] at hvalid
  obtain ⟨hmagic, _, hversion, rfl, _, hheaderLen, rfl, ⟨⟨⟨hz1, hz2⟩, hz3⟩, hz4⟩, -⟩ := hvalid
  simp only [decodeHeader, bind_ok_iff, exists_const, ensure_ok_iff, pure_eq_ok,
    Except.ok.injEq] at h
  obtain ⟨hflags, _, hcapsule, _, hgeneration, _, hgenerations, _, htx, _, hsourceDigest, _,
    hinstance, _, himage, _, hsource, _, hevidence, _, hmanifest, _, hlogical, _, hobjects, _,
    hsector, _, halign, _, hhealth, _, haccess, _, htarget, _, hgraph, _, htgraph, _, hplan, _,
    hcandidate, _, hrelocation, _, hstaging, _, hpreactivation, _, hfull, _, hrelocated, _,
    hlargest, heq⟩ := h
  simp only [headerOf, HeaderState.mk.injEq] at heq
  obtain ⟨e1, e2, e3, e4, e5, e6, e7, e8, e9, e10, e11, e12, e13, e14⟩ := heq
  refine ⟨bytes.getD 428 0, bytes.getD 429 0, ?_, ?_, ?_⟩
  · rw [← e2]
    exact filesystemByte_decode hsource
  · rw [← e3]
    exact filesystemByte_decode htarget
  simp only [headerFields, ← e1, ← e2, ← e4, ← e5, ← e6, ← e7, ← e8, ← e9, ← e10, ← e11,
    ← e12, ← e13, ← e14]
  simp only [Stand, length_toLe, length_fixedBytes, List.length_cons, List.length_nil, Nat.zero_add,
    Nat.reduceAdd, length_magic, length_sliceAt_of_le hcrc]
  have hword := fun {n offset v : ℕ} (h : readWord n bytes offset = .ok v) => (readWord_ok h).1
  have hbyte : ∀ {offset}, offset < 576 → sliceAt bytes offset 1 = [bytes.getD offset 0] :=
    fun h => sliceAt_one (h.trans_le hin)
  have hzero := fun {offset n : ℕ} (hend : offset + n ≤ 576) (h : AllZero (sliceAt bytes offset n)) =>
    sliceAt_zeros (hend.trans hin) h
  exact ⟨hmagic, hword hversion, hword hheaderLen, hzero (by decide) hz1, hword htotal, hword hpayload,
    arrayAt_ok hdigest, rfl, hzero (by decide) hz2, arrayAt_ok htx, arrayAt_ok hsourceDigest,
    arrayAt_ok hinstance, hword himage, arrayAt_ok hevidence, arrayAt_ok hgraph, arrayAt_ok hplan,
    arrayAt_ok hcandidate, arrayAt_ok hstaging, arrayAt_ok hpreactivation, arrayAt_ok hfull,
    arrayAt_ok hmanifest, hword hlogical, hword hsector, hbyte (by decide), hbyte (by decide),
    by rw [hbyte (by decide), healthByte_decode hhealth],
    by rw [hbyte (by decide), accessByte_decode haccess], hword halign,
    by rw [hbyte (by decide), flagsByte_decode hflags], hzero (by decide) hz3, hword hrelocated,
    hword hlargest, hword hcapsule, hword hgeneration, hword hgenerations, hword hcount,
    hword hobjects, arrayAt_ok htgraph, arrayAt_ok hrelocation, hzero (by decide) hz4, trivial⟩

/-- The header is the one the encoder writes in front of the rest. -/
theorem Framed.encoded (hframe : Framed H bytes) (h : decodeHeader bytes = .ok (headerOf state)) :
    ∃ source target crc, Encoded H state (bytes.drop headerBytes) bytes source target crc := by
  obtain ⟨source, target, hsource, htarget, hstand⟩ := hframe.stand h
  have hin : headerCrcOffset + 4 ≤ bytes.length := Nat.le_trans (by decide) hframe.headerBytes_le
  have hlen := length_sliceAt_of_le hin
  have hvalid := hframe.valid
  simp only [validateHeader, bind_ok_iff, exists_const, ensure_ok_iff] at hvalid
  obtain ⟨-, _, -, -, _, -, -, -, _, hcrc, rfl⟩ := hvalid
  refine ⟨source, target, _, hsource, htarget, hlen, ?_, ?_, ?_⟩
  · rw [(readWord_ok hcrc).1]
    exact fromLe_toLe 4 _ (UInt32.toNat_lt _)
  · have hdrop := hstand.drop_eq
    rwa [List.drop_zero, Nat.zero_add, length_header hlen] at hdrop
  · rw [show wordBound = 256 ^ 8 by norm_num [wordBound]]
    exact (readWord_ok hframe.total).2

/-- The encoder accepts a state that passes the checks and writes what is laid out. -/
theorem Encoded.encodeState {sections : List EncodedSection} {source target : UInt8} {crc : Bytes}
    (h : Encoded H state (sections.map (encodeSection H)).flatten bytes source target crc)
    (hstate : validateState H state limits = .ok ()) (hsections : encodeSections state = .ok sections)
    (hcap : bytes.length ≤ limits.maxEnvelopeBytes)
    (hgen : validateEnvelopeGeneration bytes.length state.capsuleLimits = .ok ()) :
    encodeState H state limits = .ok bytes := by
  have hlimits : validateLimits limits = .ok () := by
    rw [validateState, bind_unit_ok_iff, validateShape, bind_unit_ok_iff] at hstate
    exact hstate.1.1
  have hlength := h.length_eq
  have hpayload := length_sections (H := H) sections
  have hlt := h.length_lt
  have hsum : sumChecked PreparedEnvelopeError.arithmeticOverflow 0
      (sections.flatMap fun value => [sectionHeaderBytes, value.bytes.length]) =
        .ok ((sections.map (encodeSection H)).flatten.length) := by
    rw [sumChecked_ok_iff wordBound_pos, Nat.zero_add, ← hpayload]
    exact ⟨by omega, rfl⟩
  have hcrc : toLe 4 (headerCrc H (headerFields state bytes.length
      (H.sha256 (sections.map (encodeSection H)).flatten) source target
        [0, 0, 0, 0]).flatten).toNat = crc := by
    rw [← headerCrc_header h.crc_length (sections.map (encodeSection H)).flatten, ← h.eq, ← h.crc_eq,
      ← h.crc_length, toLe_fromLe]
  rw [Envelope.encodeState, hlimits, ok_bind, hstate, ok_bind, hsections, ok_bind, hsum, ok_bind,
    checkedAdd_of_lt (by omega), orErr_some, ok_bind, ← hlength, ensureEnvelopeCap, ensure_of hcap,
    ok_bind, hgen, ok_bind]
  dsimp only
  rw [encodeHeader, h.source_eq, ok_bind, h.target_eq, ok_bind]
  dsimp only
  rw [hcrc, pure_eq_ok, ok_bind, ← h.eq, pure_eq_ok]

/-! ## The sections -/

/-- The section an entry of the scan names. -/
def located (bytes : Bytes) (entry : SectionMeta) : EncodedSection :=
  ⟨entry.tag, entry.count, sectionBytes bytes entry⟩

/-- What the scan checked of a section. -/
structure Scanned (bytes : Bytes) (expected : ℕ) (entry : SectionMeta) : Prop where
  tag : entry.tag = expected
  count_lt : entry.count < 2 ^ 32
  single : expected = recoveryPayloadTag → entry.count = 1
  unit : ∀ n, fixedUnit expected = some n → (sectionBytes bytes entry).length = entry.count * n

theorem scanSection_drop {expected : ℕ} {scan : SectionScan} {r : SectionMeta × SectionScan}
    (h : scanSection H bytes limits expected scan = .ok r) :
    bytes.drop scan.cursor = encodeSection H (located bytes r.1) ++ bytes.drop r.2.cursor ∧
      Scanned bytes expected r.1 := by
  simp only [scanSection, bind_ok_iff, exists_const, ensure_ok_iff, orErr_ok_iff, checkedAdd_eq_some,
    pure_eq_ok, Except.ok.injEq] at h
  obtain ⟨_, ⟨-, rfl⟩, hin, tag, htag, rfl, hzero, count, hcount, length, hlength, entries, hentries,
    _, ⟨-, rfl⟩, hend, digest, hdigest, rfl, _, -, _, hfixed, rfl⟩ := h
  have hsection : sectionBytes bytes ⟨tag, count, scan.cursor + sectionHeaderBytes,
      scan.cursor + sectionHeaderBytes + length⟩ =
        sliceAt bytes (scan.cursor + sectionHeaderBytes) length := by
    rw [sectionBytes]
    dsimp only
    rw [Nat.add_sub_cancel_left]
  have hsize := length_sliceAt_of_le hend
  refine ⟨?_, rfl, (readWord_ok hcount).2, fun ht => ?_, fun n hn => ?_⟩
  · have hstand : Stand bytes scan.cursor (sectionFields H (located bytes
        ⟨tag, count, scan.cursor + sectionHeaderBytes,
          scan.cursor + sectionHeaderBytes + length⟩)) := by
      simp only [sectionFields, located, hsection, hsize]
      simp only [Stand, hsize, length_toLe, length_fixedBytes,
        List.length_cons, List.length_nil, Nat.zero_add, Nat.reduceAdd, Nat.add_assoc]
      exact ⟨(readWord_ok htag).1, sliceAt_zeros (by unfold sectionHeaderBytes at hin; omega) hzero,
        (readWord_ok hcount).1, (readWord_ok hlength).1, arrayAt_ok hdigest, rfl, trivial⟩
    have hflat : encodeSection H (located bytes ⟨tag, count, scan.cursor + sectionHeaderBytes,
        scan.cursor + sectionHeaderBytes + length⟩) = (sectionFields H (located bytes
          ⟨tag, count, scan.cursor + sectionHeaderBytes,
            scan.cursor + sectionHeaderBytes + length⟩)).flatten := by
      simp [encodeSection, sectionFields]
    rw [hstand.drop_eq, ← hflat, length_encodeSection, located]
    dsimp only
    rw [hsection, hsize, Nat.add_assoc]
  · unfold countSection at hentries
    rw [if_pos ht] at hentries
    simp only [bind_ok_iff, exists_const, ensure_ok_iff] at hentries
    exact hentries.1
  · unfold validateFixedSectionLen at hfixed
    rw [hn] at hfixed
    rw [hsection, hsize]
    exact ensure_ok_iff.1 hfixed

/-- A run of sections, one for each expected tag. -/
theorem scanFrom_drop {expected : List ℕ} {scan : SectionScan} {r : List SectionMeta × SectionScan}
    (h : scanFrom H bytes limits expected scan = .ok r) :
    bytes.drop scan.cursor =
        (r.1.map fun entry => encodeSection H (located bytes entry)).flatten ++
          bytes.drop r.2.cursor ∧
      List.Forall₂ (Scanned bytes) expected r.1 := by
  induction expected generalizing scan r with
  | nil =>
    cases h
    exact ⟨rfl, .nil⟩
  | cons tag rest ih =>
    simp only [scanFrom, bind_ok_iff, pure_eq_ok, Except.ok.injEq] at h
    obtain ⟨first, hfirst, more, hmore, rfl⟩ := h
    obtain ⟨hdrop, hscanned⟩ := scanSection_drop hfirst
    obtain ⟨hdrops, hall⟩ := ih hmore
    refine ⟨?_, .cons hscanned hall⟩
    rw [hdrop, hdrops, List.map_cons, List.flatten_cons, List.append_assoc]

theorem scanSections_drop {metas : List SectionMeta} (h : scanSections H bytes limits = .ok metas) :
    bytes.drop headerBytes = (metas.map fun entry => encodeSection H (located bytes entry)).flatten ∧
      List.Forall₂ (Scanned bytes) (List.range' 1 sectionCount) metas := by
  simp only [scanSections, bind_ok_iff, exists_const, ensure_ok_iff, pure_eq_ok, Except.ok.injEq] at h
  obtain ⟨r, hr, hend, rfl⟩ := h
  obtain ⟨hdrop, hall⟩ := scanFrom_drop hr
  rw [hend, List.drop_length, List.append_nil] at hdrop
  exact ⟨hdrop, hall⟩

/-! ## The contents of the sections -/

/-- A string is its fields when they stand one behind the other to its end. -/
theorem eq_flatten {chunk : Bytes} {segs : List Bytes} (h : Stand chunk 0 segs)
    (hlen : chunk.length = (segs.map List.length).sum) : chunk = segs.flatten := by
  have hdrop := h.drop_eq
  rw [← List.length_flatten] at hlen
  rwa [List.drop_zero, Nat.zero_add, ← hlen, List.drop_length, List.append_nil] at hdrop

theorem encodeRange_decode {chunk : Bytes} {range : ByteRange} (hlen : chunk.length = 16)
    (h : decodeRange chunk 0 = .ok range) : encodeRange range = chunk := by
  simp only [decodeRange, bind_ok_iff, pure_eq_ok, Except.ok.injEq] at h
  obtain ⟨start, hstart, length, hlength, rfl⟩ := h
  have hstand : Stand chunk 0 [toLe 8 start, toLe 8 length] := by
    simp only [Stand, length_toLe, Nat.zero_add]
    exact ⟨(readWord_ok hstart).1, (readWord_ok hlength).1, trivial⟩
  rw [eq_flatten hstand (by simpa using hlen)]
  simp [encodeRange]

theorem encodeReservation_decode {chunk : Bytes} {value : DestinationReservation}
    (hlen : chunk.length = 24) (h : decodeReservation chunk = .ok value) :
    encodeReservation value = chunk := by
  simp only [decodeReservation, decodeRange, bind_ok_iff, exists_const, ensure_ok_iff, pure_eq_ok,
    Except.ok.injEq] at h
  obtain ⟨hzero, _, ⟨start, hstart, length, hlength, rfl⟩, kind, hkind, rfl⟩ := h
  have hstand : Stand chunk 0 [toLe 8 start, toLe 8 length, [reservationKindByte kind],
      [0, 0, 0, 0, 0, 0, 0]] := by
    simp only [Stand, length_toLe, List.length_cons, List.length_nil, Nat.zero_add, Nat.reduceAdd,
      reservationKindByte_decode hkind]
    exact ⟨(readWord_ok hstart).1, (readWord_ok hlength).1, sliceAt_one (by omega),
      sliceAt_zeros (by omega) hzero, trivial⟩
  rw [eq_flatten hstand (by simpa using hlen)]
  simp [encodeReservation, encodeRange]

theorem encodeRelocation_decode {chunk : Bytes} {value : Relocation} (hlen : chunk.length = 48)
    (h : decodeRelocation chunk = .ok value) : encodeRelocation value = chunk := by
  simp only [decodeRelocation, decodeRange, bind_ok_iff, pure_eq_ok, Except.ok.injEq] at h
  obtain ⟨stream, hstream, logical, hlogical, _, ⟨source, hsource, sourceLength, hsourceLength, rfl⟩,
    _, ⟨destination, hdestination, length, hlength, rfl⟩, rfl⟩ := h
  have hstand : Stand chunk 0 [toLe 8 stream, toLe 8 logical, toLe 8 source, toLe 8 sourceLength,
      toLe 8 destination, toLe 8 length] := by
    simp only [Stand, length_toLe, Nat.zero_add, Nat.reduceAdd]
    exact ⟨(readWord_ok hstream).1, (readWord_ok hlogical).1, (readWord_ok hsource).1,
      (readWord_ok hsourceLength).1, (readWord_ok hdestination).1, (readWord_ok hlength).1, trivial⟩
  rw [eq_flatten hstand (by simpa using hlen)]
  simp [encodeRelocation, encodeRange]

theorem encodeTargetFeature_decode {chunk : Bytes} {value : FeatureCompatibility}
    (hlen : chunk.length = 36) (h : decodeTargetFeature chunk = .ok value) :
    encodeTargetFeature value = chunk := by
  simp only [decodeTargetFeature, bind_ok_iff] at h
  obtain ⟨feature, hfeature, schemaVersion, hschema, payloadDigest, hdigest, h⟩ := h
  have hstand : ∀ method, chunk.getD 1 0 = method → Stand chunk 0 [[semanticFeatureByte feature],
      [method], toLe 2 schemaVersion, payloadDigest.1] := by
    rintro _ rfl
    simp only [Stand, length_toLe, length_fixedBytes, List.length_cons, List.length_nil, Nat.zero_add,
      Nat.reduceAdd, semanticFeatureByte_decode hfeature]
    exact ⟨sliceAt_one (by omega), sliceAt_one (by omega), (readWord_ok hschema).1,
      arrayAt_ok hdigest, trivial⟩
  split_ifs at h with h0 h1
  · simp only [bind_ok_iff, exists_const, ensure_ok_iff, pure_eq_ok, Except.ok.injEq] at h
    obtain ⟨⟨rfl, hzero⟩, rfl⟩ := h
    rw [eq_flatten (hstand 0 h0) (by simpa using hlen), hzero]
    simp [encodeTargetFeature]
  · obtain rfl := Except.ok.inj h
    rw [eq_flatten (hstand 1 h1.1) (by simpa using hlen)]
    simp [encodeTargetFeature]

theorem boundedWriteEnd_stop {start offset length section_ payload : ℕ} {r : ℕ × ℕ}
    (h : boundedWriteEnd bytes start offset length section_ payload limits = .ok r) :
    r.1 = start + length ∧ r.1 ≤ bytes.length := by
  simp only [boundedWriteEnd, bind_ok_iff, exists_const, ensure_ok_iff, orErr_ok_iff,
    checkedAdd_eq_some, pure_eq_ok, Except.ok.injEq] at h
  obtain ⟨-, _, -, _, ⟨-, rfl⟩, -, _, ⟨-, rfl⟩, hstop, rfl⟩ := h
  exact ⟨rfl, hstop⟩

theorem readReservedWrite_drop {section_ cursor payload : ℕ} {r : ReservedWrite × ℕ × ℕ}
    (h : readReservedWrite bytes section_ limits cursor payload = .ok r) :
    bytes.drop cursor = encodeReservedWrite r.1 ++ bytes.drop r.2.1 ∧ r.2.1 ≤ bytes.length := by
  simp only [readReservedWrite, bind_ok_iff, exists_const, ensure_ok_iff, orErr_ok_iff,
    checkedAdd_eq_some, pure_eq_ok, Except.ok.injEq] at h
  obtain ⟨_, ⟨-, rfl⟩, hin, hzero, offset, hoffset, length, hlength, ⟨stop, total⟩, hstop, kind, hkind,
    rfl⟩ := h
  obtain ⟨rfl, hend⟩ := boundedWriteEnd_stop hstop
  dsimp only at hend ⊢
  rw [Nat.add_sub_cancel_left]
  have hsize := length_sliceAt_of_le hend
  unfold reservedWriteHeaderBytes at hin hend hsize ⊢
  have hstand : Stand bytes cursor [[reservationKindByte kind], [0, 0, 0, 0, 0, 0, 0], toLe 8 offset,
      toLe 8 length, sliceAt bytes (cursor + 24) length] := by
    simp only [Stand, length_toLe, List.length_cons, List.length_nil, Nat.zero_add, Nat.reduceAdd,
      Nat.add_assoc, hsize, reservationKindByte_decode hkind]
    exact ⟨sliceAt_one (by omega), sliceAt_zeros (by omega) hzero, (readWord_ok hoffset).1,
      (readWord_ok hlength).1, trivial, trivial⟩
  have hflat : encodeReservedWrite ⟨kind, ⟨offset, sliceAt bytes (cursor + 24) length⟩⟩ =
      [[reservationKindByte kind], [0, 0, 0, 0, 0, 0, 0], toLe 8 offset, toLe 8 length,
        sliceAt bytes (cursor + 24) length].flatten := by
    simp [encodeReservedWrite, hsize]
  refine ⟨?_, hend⟩
  rw [hstand.drop_eq, ← hflat, length_encodeReservedWrite]
  dsimp only
  rw [hsize, ← Nat.add_assoc]
  rfl

theorem readRollbackWrite_drop {section_ cursor payload : ℕ} {r : OverlayWrite × ℕ × ℕ}
    (h : readRollbackWrite bytes section_ limits cursor payload = .ok r) :
    bytes.drop cursor = encodeRollbackWrite r.1 ++ bytes.drop r.2.1 ∧ r.2.1 ≤ bytes.length := by
  simp only [readRollbackWrite, bind_ok_iff, exists_const, ensure_ok_iff, orErr_ok_iff,
    checkedAdd_eq_some, pure_eq_ok, Except.ok.injEq] at h
  obtain ⟨_, ⟨-, rfl⟩, hin, offset, hoffset, length, hlength, ⟨stop, total⟩, hstop, rfl⟩ := h
  obtain ⟨rfl, hend⟩ := boundedWriteEnd_stop hstop
  dsimp only at hend ⊢
  rw [Nat.add_sub_cancel_left]
  have hsize := length_sliceAt_of_le hend
  unfold rollbackWriteHeaderBytes at hin hend hsize ⊢
  have hstand : Stand bytes cursor [toLe 8 offset, toLe 8 length, sliceAt bytes (cursor + 16) length] := by
    simp only [Stand, length_toLe, Nat.reduceAdd, Nat.add_assoc, hsize]
    exact ⟨(readWord_ok hoffset).1, (readWord_ok hlength).1, trivial, trivial⟩
  have hflat : encodeRollbackWrite ⟨offset, sliceAt bytes (cursor + 16) length⟩ =
      [toLe 8 offset, toLe 8 length, sliceAt bytes (cursor + 16) length].flatten := by
    simp [encodeRollbackWrite, hsize]
  refine ⟨?_, hend⟩
  rw [hstand.drop_eq, ← hflat, length_encodeRollbackWrite]
  dsimp only
  rw [hsize, ← Nat.add_assoc]
  rfl

/-- A table section holds the encodings of what is decoded from it. -/
theorem decodeEach_section {α : Type} {n tag : ℕ} (hn : 0 < n) {f : Bytes → Enveloped α}
    {encode : α → Bytes} (hf : ∀ {chunk v}, chunk.length = n → f chunk = .ok v → encode v = chunk)
    {entry : SectionMeta} {values : List α} (hentry : Scanned bytes tag entry)
    (hunit : fixedUnit tag = some n)
    (h : decodeEach f (chunksExact n (sectionBytes bytes entry)) = .ok values) :
    located bytes entry = ⟨tag, values.length, (values.map encode).flatten⟩ ∧
      values.length < 2 ^ 32 := by
  have hlen := hentry.unit n hunit
  rw [chunksExact, hlen, Nat.mul_div_cancel _ hn] at h
  obtain ⟨hcount, hflat⟩ := decodeEach_chunks hf hlen h
  exact ⟨by rw [located, hentry.tag, hcount, hflat], hcount ▸ hentry.count_lt⟩

/-- A section of writes holds the encodings of what is read from it. -/
theorem readEntries_section {α : Type} {tag total : ℕ} {section_ : Bytes}
    {read : ℕ → ℕ → Enveloped (α × ℕ × ℕ)} {encode : α → Bytes}
    (hread : ∀ {cursor total v}, read cursor total = .ok v →
      section_.drop cursor = encode v.1 ++ section_.drop v.2.1 ∧ v.2.1 ≤ section_.length)
    {entry : SectionMeta} {r : List α × ℕ × ℕ} (hentry : Scanned bytes tag entry)
    (hsection : sectionBytes bytes entry = section_)
    (h : readEntries read entry.count 0 total = .ok r) (hend : r.2.1 = section_.length) :
    located bytes entry = ⟨tag, r.1.length, (r.1.map encode).flatten⟩ ∧ r.1.length < 2 ^ 32 := by
  obtain ⟨hcount, hdrop, -⟩ := readEntries_drop hread (Nat.zero_le _) h
  rw [hend, List.drop_length, List.append_nil, List.drop_zero] at hdrop
  exact ⟨by rw [located, hentry.tag, hcount, hsection, hdrop], hcount ▸ hentry.count_lt⟩

variable {entry : SectionMeta} {tag : ℕ} (hentry : Scanned bytes tag entry)

include hentry

theorem decodeReservedWrites_section {values : List ReservedWrite}
    (h : decodeReservedWrites (sectionBytes bytes entry) entry limits = .ok values) :
    located bytes entry = ⟨tag, values.length, (values.map encodeReservedWrite).flatten⟩ ∧
      values.length < 2 ^ 32 := by
  simp only [decodeReservedWrites, bind_ok_iff, exists_const, ensure_ok_iff, pure_eq_ok,
    Except.ok.injEq] at h
  obtain ⟨⟨output, cursor, total⟩, hread, hend, _, -, rfl⟩ := h
  exact readEntries_section readReservedWrite_drop hentry rfl hread hend

theorem decodeRollbackWrites_section {values : List OverlayWrite}
    (h : decodeRollbackWrites (sectionBytes bytes entry) entry limits = .ok values) :
    located bytes entry = ⟨tag, values.length, (values.map encodeRollbackWrite).flatten⟩ ∧
      values.length < 2 ^ 32 := by
  simp only [decodeRollbackWrites, bind_ok_iff, exists_const, ensure_ok_iff, pure_eq_ok,
    Except.ok.injEq] at h
  obtain ⟨⟨output, cursor, total⟩, hread, hend, _, -, rfl⟩ := h
  exact readEntries_section readRollbackWrite_drop hentry rfl hread hend

omit hentry

/-- The sections of an accepted envelope are the sections of its state. -/
theorem decodeSections_located {header : HeaderState} {metas : List SectionMeta}
    (hmetas : List.Forall₂ (Scanned bytes) (List.range' 1 sectionCount) metas)
    (h : decodeSections bytes header metas limits = .ok state) :
    headerOf state = header ∧ metas.map (located bytes) = sectionsOf state ∧
      ∀ value ∈ sectionsOf state, value.count < 2 ^ 32 := by
  simp only [sectionCount, List.range', List.forall₂_cons_left_iff, List.forall₂_nil_left_iff] at hmetas
  obtain ⟨m1, _, h1, ⟨m2, _, h2, ⟨m3, _, h3, ⟨m4, _, h4, ⟨m5, _, h5, ⟨m6, _, h6, ⟨m7, _, h7,
    ⟨m8, _, h8, ⟨m9, _, h9, ⟨m10, _, h10, ⟨m11, _, h11, ⟨m12, _, h12, rfl, rfl⟩, rfl⟩, rfl⟩, rfl⟩, rfl⟩,
    rfl⟩, rfl⟩, rfl⟩, rfl⟩, rfl⟩, rfl⟩, rfl⟩ := hmetas
  simp only [decodeSections, decodeReservations, decodeRelocations, decodeRanges,
    decodeTargetFeatures, bind_ok_iff, pure_eq_ok, Except.ok.injEq] at h
  obtain ⟨_, ⟨v1, d1, _, -, rfl⟩, _, ⟨v2, d2, _, -, rfl⟩, _, ⟨v3, d3, _, -, rfl⟩, v4, d4, v5, d5, v6, d6,
    v7, d7, v8, d8, v9, d9, v12, d12, _, ⟨v11, d11, _, -, rfl⟩, rfl⟩ := h
  obtain ⟨l1, c1⟩ := decodeEach_section (by decide) encodeReservation_decode h1 rfl d1
  obtain ⟨l2, c2⟩ := decodeEach_section (by decide) encodeRelocation_decode h2 rfl d2
  obtain ⟨l3, c3⟩ := decodeEach_section (by decide) encodeRange_decode h3 rfl d3
  obtain ⟨l4, c4⟩ := decodeReservedWrites_section h4 d4
  obtain ⟨l5, c5⟩ := decodeReservedWrites_section h5 d5
  obtain ⟨l6, c6⟩ := decodeReservedWrites_section h6 d6
  obtain ⟨l7, c7⟩ := decodeRollbackWrites_section h7 d7
  obtain ⟨l8, c8⟩ := decodeRollbackWrites_section h8 d8
  obtain ⟨l9, c9⟩ := decodeRollbackWrites_section h9 d9
  obtain ⟨l11, c11⟩ := decodeEach_section (by decide) encodeTargetFeature_decode h11 rfl d11
  obtain ⟨l12, c12⟩ := decodeRollbackWrites_section h12 d12
  have l10 : located bytes m10 = ⟨recoveryPayloadTag, 1, sectionBytes bytes m10⟩ := by
    rw [located, h10.tag, h10.single rfl]
    rfl
  refine ⟨rfl, ?_, ?_⟩
  · simp only [List.map_cons, List.map_nil, l1, l2, l3, l4, l5, l6, l7, l8, l9, l10, l11, l12]
    rfl
  · simp only [sectionsOf, List.forall_mem_cons]
    exact ⟨c1, c2, c3, c4, c5, c6, c7, c8, c9, by norm_num, c11, c12, by simp⟩

/-! ## Writing an accepted envelope again -/

/-- The encoder writes what was decoded. -/
theorem encodeState_decode (h : decodeState H bytes limits = .ok state) :
    encodeState H state limits = .ok bytes := by
  simp only [decodeState, ensureEnvelopeCap, bind_ok_iff, exists_const, ensure_ok_iff, pure_eq_ok,
    Except.ok.injEq] at h
  obtain ⟨_, -, hcap, hin, _, hvalid, total, htotal, htotalEq, payload, hpayload, hpayloadEq,
    digest, hdigest, hsum, count, hcount, hcountEq, header, hheader, _, hgen, metas, hmetas, decoded,
    hdecoded, _, hstate, rfl⟩ := h
  rw [htotalEq] at htotal
  rw [hpayloadEq] at hpayload
  rw [hcountEq] at hcount
  obtain ⟨hdrop, hscanned⟩ := scanSections_drop hmetas
  obtain ⟨rfl, hlocated, hcounts⟩ := decodeSections_located hscanned hdecoded
  obtain ⟨source, target, crc, hencoded⟩ :=
    Framed.encoded ⟨hin, hvalid, htotal, hpayload, by rw [hsum, hdigest], hcount⟩ hheader
  have hsections : (metas.map fun entry => encodeSection H (located bytes entry)) =
      (sectionsOf decoded).map (encodeSection H) := by
    rw [← hlocated, List.map_map]
    rfl
  rw [hdrop, hsections] at hencoded
  exact hencoded.encodeState hstate (PreparedConversion.encodeSections_of_count hcounts) hcap hgen

/-- The bytes of an encoding do not depend on the limits. -/
theorem encodeState_unique {limits' : PreparedEnvelopeLimits} {bytes' : Bytes}
    (h : encodeState H state limits = .ok bytes) (h' : encodeState H state limits' = .ok bytes') :
    bytes = bytes' := by
  simp only [encodeState, bind_ok_iff, pure_eq_ok, Except.ok.injEq] at h h'
  obtain ⟨_, -, _, -, sections, hsections, payload, hpayload, total, htotal, _, -, _, -, header,
    hheader, rfl⟩ := h
  obtain ⟨_, -, _, -, sections', hsections', payload', hpayload', total', htotal', _, -, _, -, header',
    hheader', rfl⟩ := h'
  obtain rfl := Except.ok.inj (hsections.symm.trans hsections')
  obtain rfl := Except.ok.inj (hpayload.symm.trans hpayload')
  obtain rfl := Except.ok.inj (htotal.symm.trans htotal')
  obtain rfl := Except.ok.inj (hheader.symm.trans hheader')
  rfl

/-- The state of a decoded plan is the decoded state. -/
theorem fromPrepared_decode {p : PreparedConversion}
    (h : decodePreparedEnvelope H bytes limits = .ok p) :
    decodeState H bytes limits = .ok (EnvelopeState.fromPrepared p) := by
  simp only [decodePreparedEnvelope, intoDecoded, bind_ok_iff, mapError_ok_iff, pure_eq_ok,
    Except.ok.injEq] at h
  obtain ⟨state, hstate, _, ⟨_, hvalid, candidate, -, staging, -, preactivation, -, full, -, relocation,
    hrelocation, rfl⟩, rfl⟩ := h
  have hshape : Shaped state limits := by
    rw [validateState, bind_unit_ok_iff] at hvalid
    exact shaped_of_validateShape hvalid.1
  have hsorted : sortByKey Patch.offset state.relocationDestinationBeforeImages =
      state.relocationDestinationBeforeImages := by
    obtain ⟨horder, -⟩ := validateRollbackWrites_ok_iff.1 hshape.beforeImages
    rw [ensureOrder, checkPairs_ok_iff] at horder
    have hchain := List.isChain_iff_pairwise.1 (horder.imp fun _ _ => ensure_ok_iff.1)
    exact sortByKey_eq_self (hchain.imp fun h => h.le)
  rw [hstate, EnvelopeState.fromPrepared, (OverlayPlan.build_ok hrelocation).2.2.1, hsorted]

/-! ## What an accepted envelope says of its plan -/

theorem sumRelocations_ok {sum total : ℕ} {relocations : List Relocation}
    (h : sumRelocations sum relocations = .ok total) :
    (∀ r ∈ relocations, r.source.length = r.destination.length) ∧
      total = sum + (relocations.map fun r => r.source.length).sum := by
  induction relocations generalizing sum with
  | nil =>
    obtain rfl := Except.ok.inj h
    simp
  | cons value rest ih =>
    simp only [sumRelocations, bind_ok_iff, ensure_ok_iff, exists_const, orErr_ok_iff,
      checkedAdd_eq_some] at h
    obtain ⟨hlen, _, ⟨-, rfl⟩, h⟩ := h
    obtain ⟨hrest, rfl⟩ := ih h
    exact ⟨List.forall_mem_cons.2 ⟨hlen, hrest⟩, by rw [List.map_cons, List.sum_cons, Nat.add_assoc]⟩

/-- A write lies inside a reservation of the kind it declares. -/
def Reserved (reservations : List DestinationReservation) (value : ReservedWrite) : Prop :=
  ∃ r ∈ reservations, r.kind = value.reservationKind ∧ value.write.span.Inside r.range

theorem reserved_of_validate {writes : OpaqueWriteSets} {reservations : List DestinationReservation}
    {u : Unit} (h : validateWritesAgainstReservations writes reservations = .ok u) :
    ∀ v ∈ forwardWrites writes, Reserved reservations v := by
  have hwrite : ∀ {set : String} {allowed : ReservationKind → Prop} [DecidablePred allowed]
      {values : List ReservedWrite} {u : Unit},
      checkAll (validateReservedWrite reservations set allowed) values = .ok u →
      ∀ v ∈ values, Reserved reservations v := by
    intro set allowed _ values u hall v hv
    have hone := checkAll_ok_iff.1 hall v hv
    simp only [validateReservedWrite, bind_ok_iff, ensure_ok_iff, orErr_ok_iff,
      checkedAdd_eq_some] at hone
    obtain ⟨_, -, _, ⟨-, rfl⟩, r, hr, hkind, hle, -, hstop⟩ := hone
    exact ⟨r, hr, hkind, hle, hstop⟩
  simp only [validateWritesAgainstReservations, bind_ok_iff] at h
  obtain ⟨_, h1, _, h2, h3⟩ := h
  intro v hv
  rw [forwardWrites, List.mem_append, List.mem_append] at hv
  rcases hv with (hv | hv) | hv
  · exact hwrite h1 v hv
  · exact hwrite h2 v hv
  · exact hwrite h3 v hv

/-- A group of before-images covers the same ranges as the group of writes it undoes. -/
def Paired (forward : List ReservedWrite) (rollback : List OverlayWrite) : Prop :=
  (rollback.map Patch.span).Perm ((forward.map ReservedWrite.write).map Patch.span)

/-- The invariants of a plan. -/
structure PlanInvariants (p : PreparedConversion) : Prop where
  reserved : ∀ v ∈ forwardWrites p.writes, Reserved p.reservations v
  targetStaging : Paired p.writes.targetStaging p.writes.targetStagingRollback
  backupBoot : Paired p.writes.backupBoot p.writes.backupBootRollback
  activation : Paired p.writes.activation p.writes.activationRollback
  destinations : (p.relocationRollbackOverlay.writes.map Patch.span).Perm
    (p.layout.relocations.map Relocation.destination)
  disjoint : (p.relocationRollbackOverlay.writes ++ p.writes.targetStagingRollback ++
    p.writes.backupBootRollback ++ p.writes.activationRollback).Pairwise fun w w' =>
      w.span.Disjoint w'.span
  relocated : (∀ r ∈ p.layout.relocations, r.source.length = r.destination.length) ∧
    p.layout.relocatedBytes = (p.layout.relocations.map fun r => r.source.length).sum
  materialized : p.layout.materializations = [] ∧ p.layout.materializedBytes = 0
  largestFree : p.layout.largestFreeRange = (p.layout.freeAfterStaging.map Span.length).foldl max 0

theorem planInvariants_of_validate {p : PreparedConversion} {u : Unit}
    (h : validateState H (EnvelopeState.fromPrepared p) limits = .ok u) : PlanInvariants p := by
  rw [validateState, bind_unit_ok_iff, bind_unit_ok_iff] at h
  obtain ⟨hshape, hrecovery, -⟩ := h
  simp only [validateShape, validateRanges, prepared, bind_ok_iff, exists_const, ensure_ok_iff,
    mapError_ok_iff] at hshape
  obtain ⟨_, -, _, -, _, -, _, -, _, ⟨_, -, _, -, _, -, _, -, relocated, hrelocated, hmaterialized,
    ⟨rfl, hlargest⟩, -⟩, _, -, _, -, _, hreserved, _, hpairing, _, hbefore, -⟩ := hshape
  simp only [validateRecovery, bind_ok_iff, mapError_ok_iff, ensure_ok_iff] at hrecovery
  obtain ⟨bundle, hbundle, rfl⟩ := hrecovery
  obtain ⟨-, -, hvalid, -⟩ := decodeRecoveryBundle_ok hbundle
  have hdisjoint := validateBundle_disjoint hvalid
  simp only [validateRollbackPairing, bind_ok_iff] at hpairing
  obtain ⟨_, h1, _, h2, h3⟩ := hpairing
  obtain ⟨hlengths, hsum⟩ := sumRelocations_ok hrelocated
  rw [Nat.zero_add] at hsum
  refine ⟨reserved_of_validate hreserved, PreparedConversion.validatePairing_spans h1,
    PreparedConversion.validatePairing_spans h2, PreparedConversion.validatePairing_spans h3,
    PreparedConversion.beforeImages_spans hbefore, ?_, ⟨hlengths, hsum⟩, hmaterialized,
    hlargest.symm⟩
  simpa [RecoveryBundle.writes, RecoveryBundle.groups, bundleOf, EnvelopeState.fromPrepared]
    using hdisjoint

/-- **Canonical envelopes.** Under any limits, an accepted envelope is what the encoder writes for the
plan decoded from it, and the plan satisfies the invariants. So two accepted envelopes with one state
are the same, even when they were accepted under different limits. -/
theorem envelope_canonical (H : Hashing) (limits limits' : PreparedEnvelopeLimits) (bytes : Bytes)
    (p : PreparedConversion) (h : decodePreparedEnvelope H bytes limits = .ok p) :
    encodePreparedEnvelope H p limits = .ok bytes ∧ PlanInvariants p ∧
      ∀ bytes' p', decodePreparedEnvelope H bytes' limits' = .ok p' →
        EnvelopeState.fromPrepared p' = EnvelopeState.fromPrepared p → bytes' = bytes := by
  have hencode := encodeState_decode (fromPrepared_decode h)
  refine ⟨hencode, ?_, fun bytes' p' h' hstate => ?_⟩
  · obtain ⟨-, -, -, -, hvalid, -⟩ := encodeState_ok hencode
    exact planInvariants_of_validate hvalid
  · have hencode' := encodeState_decode (fromPrepared_decode h')
    rw [hstate] at hencode'
    exact encodeState_unique hencode' hencode

theorem envelope_canonical_sample :
    encodePreparedEnvelope PreparedConversion.plainHashing (PreparedConversion.samplePrepared.withReadCap
      PreparedEnvelopeLimits.default.maxReadBytes) .default =
        .ok PreparedConversion.samplePrepared.preparedEnvelope := by
  obtain ⟨source, target, hbuild⟩ :=
    PreparedConversion.sampleBuild_ok PreparedConversion.sampleBuild_samplePrepared
  have hfits : EnvelopeState.Fits (EnvelopeState.fromPrepared PreparedConversion.samplePrepared) :=
    PreparedConversion.fits_sample (by decide +kernel)
  have hdecode := PreparedConversion.decodePreparedEnvelope_of_built
    (PreparedConversion.built_of_build hbuild) hfits
  have hcanonical := envelope_canonical PreparedConversion.plainHashing .default .default
    PreparedConversion.samplePrepared.preparedEnvelope (PreparedConversion.samplePrepared.withReadCap
      PreparedEnvelopeLimits.default.maxReadBytes) hdecode
  exact hcanonical.1

end Envelope

end StarConverter
