import StarConverter.Capsule.Walk

/-!
# What an append adds

An accepted append lays one record behind the buffer, and the walk over the longer buffer reads the
old generations and then the new one (`reaches_append`). Claims and records of a buffer survive any
extension (`Claims.append`, `Reaches.append`), so what can go wrong is only a new claim on an old
start.
-/

namespace StarConverter

open Base

namespace Capsule

variable {H : Hashing} {bytes suffix : Bytes} {limits : CapsuleLimits}

/-! ## Extending a buffer -/

theorem headerAt_append {position : ℕ} {h : Header} (hin : position + headerBytes ≤ bytes.length) :
    HeaderAt H (bytes ++ suffix) position h ↔ HeaderAt H bytes position h := by
  rw [HeaderAt, HeaderAt, sliceAt_append_left hin, List.length_append]
  constructor
  · exact fun ha => ⟨hin, ha.2⟩
  · exact fun ha => ⟨by omega, ha.2⟩

theorem Claims.append {start : ℕ} {h : Header} (hc : Claims H bytes limits start h)
    (suffix : Bytes) : Claims H (bytes ++ suffix) limits start h := by
  have hin := hc.inside
  have hstart : start + headerBytes ≤ bytes.length := by unfold trailingOf at hin; omega
  refine ⟨hc.fits, by rw [List.length_append]; omega, ?_, ?_, ?_⟩
  · exact hc.copy.imp (headerAt_append hstart).2 (headerAt_append hin).2
  · exact fun other ho => hc.primary other ((headerAt_append hstart).1 ho)
  · exact fun other ho => hc.trailing other ((headerAt_append hin).1 ho)

theorem generationOf_append {start : ℕ} {h : Header} (hin : recordEnd start h ≤ bytes.length) :
    generationOf H (bytes ++ suffix) start h = generationOf H bytes start h := by
  unfold recordEnd trailingOf at hin
  have hstart : start + headerBytes ≤ bytes.length := by omega
  simp only [generationOf, headerAt_append hstart,
    headerAt_append (show trailingOf start h + headerBytes ≤ bytes.length from hin),
    sliceAt_append_left (show start + headerBytes + h.payloadLen.toNat ≤ bytes.length by omega)]

theorem Follows.append {a b : WalkState} (hf : Follows H bytes limits a b) (suffix : Bytes) :
    Follows H (bytes ++ suffix) limits a b := by
  obtain ⟨h, hmax, hc, hsha, hchain, rfl⟩ := hf
  have hin := hc.inside
  refine ⟨h, hmax, hc.append suffix, ?_, hchain, ?_⟩
  · rwa [sliceAt_append_left (by unfold trailingOf at hin; omega)]
  · rw [generationOf_append (show recordEnd a.2 h ≤ bytes.length from hin)]

theorem Reaches.append {a b : WalkState} (hr : Reaches H bytes limits a b) (suffix : Bytes) :
    Reaches H (bytes ++ suffix) limits a b :=
  Relation.ReflTransGen.mono (fun _ _ hf => Follows.append hf suffix) a b hr

/-- Every generation of a walk starts inside the buffer, at most one record before its end. -/
theorem Reaches.offset_lt {a b : WalkState} (hr : Reaches H bytes limits a b)
    (ha : ∀ g ∈ a.1, g.offset.toNat < bytes.length) (hlen : bytes.length ≤ isizeMax) :
    ∀ g ∈ b.1, g.offset.toNat < bytes.length := by
  induction hr with
  | refl => exact ha
  | tail _ hf ih =>
    have hle := hf.le_length
    have hlt := hf.lt
    obtain ⟨h, -, -, -, -, rfl⟩ := hf
    intro g hg
    rcases List.mem_append.1 hg with hg | hg
    · exact ih g hg
    · obtain rfl := List.mem_singleton.1 hg
      simp only [generationOf]
      unfold isizeMax at hlen
      rw [UInt64.toNat_ofNat_of_lt' (by unfold UInt64.size; omega)]
      omega

/-! ## The appended record -/

@[simp] theorem length_encodeRecord (h : Header) (payload : Bytes) :
    (encodeRecord H h payload).length = 272 + payload.length := by
  simp only [encodeRecord, List.length_append, encodeHeader_length, headerBytes]
  omega

section Record

variable {h : Header} {payload : Bytes} (hp : h.previousOffset ≠ some noPrevious)
  (hl : h.payloadLen.toNat = payload.length)

theorem sliceAt_record_leading :
    sliceAt (bytes ++ encodeRecord H h payload) bytes.length headerBytes = encodeHeader H h := by
  rw [sliceAt_append_right le_rfl, Nat.sub_self, encodeRecord, List.append_assoc,
    sliceAt_append_left (by simp)]
  simpa using sliceAt_zero_length (encodeHeader H h)

theorem sliceAt_record_payload :
    sliceAt (bytes ++ encodeRecord H h payload) (bytes.length + headerBytes) payload.length =
      payload := by
  rw [sliceAt_append_right (by omega), Nat.add_sub_cancel_left, encodeRecord,
    sliceAt_append_left (by simp), sliceAt_append_right (by simp)]
  simpa using sliceAt_zero_length payload

include hl in
theorem sliceAt_record_trailing :
    sliceAt (bytes ++ encodeRecord H h payload) (trailingOf bytes.length h) headerBytes =
      encodeHeader H h := by
  rw [trailingOf, hl, sliceAt_append_right (by omega), encodeRecord,
    sliceAt_append_right (by simp; omega)]
  have hz : bytes.length + headerBytes + payload.length - bytes.length -
      (encodeHeader H h ++ payload).length = 0 := by simp; omega
  rw [hz]
  simpa using sliceAt_zero_length (encodeHeader H h)

include hp hl

variable (H bytes) in
/-- Both copies of an appended record decode to its header. -/
theorem headerAt_record :
    HeaderAt H (bytes ++ encodeRecord H h payload) bytes.length h ∧
      HeaderAt H (bytes ++ encodeRecord H h payload) (trailingOf bytes.length h) h := by
  have hd := header?_eq_some.2 (decodeHeader_encodeHeader H hp)
  refine ⟨⟨?_, by rw [sliceAt_record_leading, hd]⟩, ⟨?_, by rw [sliceAt_record_trailing hl, hd]⟩⟩
  · simp [headerBytes]; omega
  · simp [trailingOf, hl, headerBytes]; omega

/-- An appended record claims its own start. -/
theorem claims_record (hfit : payload.length ≤ limits.maxGenerationBytes) :
    Claims H (bytes ++ encodeRecord H h payload) limits bytes.length h := by
  obtain ⟨h1, h2⟩ := headerAt_record H bytes hp hl
  exact ⟨hl ▸ hfit, h2.1, Or.inl h1, fun _ ho => ho.unique h1, fun _ ho => ho.unique h2⟩

variable (H bytes) in
/-- The generation an appended record is read as. -/
theorem generationOf_record :
    generationOf H (bytes ++ encodeRecord H h payload) bytes.length h =
      { offset := UInt64.ofNat bytes.length
        generation := h.generation
        phase := h.phase
        previousOffset := h.previousOffset
        identity := h.identity
        payloadDigest := h.payloadDigest
        payload := payload
        primaryHeaderValid := true
        trailingHeaderValid := true } := by
  obtain ⟨h1, h2⟩ := headerAt_record H bytes hp hl
  simp only [generationOf, h1, h2, hl, sliceAt_record_payload, decide_true]

omit hp in
theorem recordEnd_record :
    recordEnd bytes.length h = (bytes ++ encodeRecord H h payload).length := by
  simp [recordEnd_eq, hl]
  omega

end Record

/-! ## An accepted append -/

/-- The header of the record appended behind `bytes` when `newest` was its newest generation. -/
def appendedHeader (H : Hashing) (generation : UInt64) (previousOffset : Option UInt64)
    (identity : CapsuleIdentity) (phase : TransactionPhase) (payload : Bytes) : Header :=
  { generation := generation
    phase := phase
    payloadLen := UInt64.ofNat payload.length
    previousOffset := previousOffset
    identity := identity
    payloadDigest := H.sha256 payload }

theorem chainOk_of_successorOf {generations : List CapsuleGeneration} {identity : CapsuleIdentity}
    {phase : TransactionPhase} {payload : Bytes} {r : UInt64 × Option UInt64}
    (h : successorOf generations.getLast? identity phase = .ok r) :
    ChainOk generations (appendedHeader H r.1 r.2 identity phase payload) := by
  unfold ChainOk validateChain
  cases hlast : generations.getLast? with
  | none =>
    rw [hlast] at h
    simp only [successorOf, bind_ok_iff, exists_const, ensure_ok_iff, pure_eq_ok,
      Except.ok.injEq] at h
    obtain ⟨rfl, rfl⟩ := h
    exact ensure_of ⟨rfl, rfl, rfl⟩
  | some previous =>
    rw [hlast] at h
    simp only [successorOf, bind_ok_iff, exists_const, ensure_ok_iff, orErr_ok_iff, pure_eq_ok,
      Except.ok.injEq] at h
    obtain ⟨hid, hphase, g, hg, rfl⟩ := h
    simp only [bind_ok_iff, exists_const, ensure_ok_iff, orErr_ok_iff]
    exact ⟨g, hg, rfl, rfl, hid.symm, hphase⟩

/-- What an accepted append checked and returned. -/
structure Appended (H : Hashing) (capsule : Bytes) (identity : CapsuleIdentity)
    (phase : TransactionPhase) (payload : Bytes) (limits : CapsuleLimits) (view : CapsuleView)
    (r : UInt64 × Option UInt64) (next : Bytes) : Prop where
  limits_valid : limits.Valid
  fits : payload.length ≤ limits.maxGenerationBytes
  scanned : scanCapsule H capsule limits = .ok view
  successor : successorOf view.newest identity phase = .ok r
  room : view.generations.length < limits.maxGenerations
  length_le : next.length ≤ limits.maxCapsuleBytes
  length_le_isize : next.length ≤ isizeMax
  eq : next = capsule ++ encodeRecord H (appendedHeader H r.1 r.2 identity phase payload) payload

theorem appendGeneration_ok_iff {capsule next : Bytes} {identity : CapsuleIdentity}
    {phase : TransactionPhase} {payload : Bytes} :
    appendGeneration H capsule identity phase payload limits = .ok next ↔
      ∃ view r, Appended H capsule identity phase payload limits view r next := by
  have h272 : headerBytes * 2 = 272 := rfl
  rw [appendGeneration]
  simp only [bind_ok_iff, exists_const, ensure_ok_iff, validateLimits_ok_iff, orErr_ok_iff,
    checkedAdd_eq_some, pure_eq_ok, Except.ok.injEq, h272]
  constructor
  · rintro ⟨hv, hfit, view, hscan, ⟨g, p⟩, hsucc, hroom, _, ⟨-, rfl⟩, _, ⟨-, rfl⟩, hmax, hsize, rfl⟩
    have hlen : ∀ h : Header, (capsule ++ encodeRecord H h payload).length =
        capsule.length + (272 + payload.length) := fun h => by simp
    exact ⟨view, (g, p), hv, hfit, hscan, hsucc, hroom, (hlen _).trans_le hmax,
      (hlen _).trans_le hsize, rfl⟩
  · rintro ⟨view, r, hv, hfit, hscan, hsucc, hroom, hmax, hsize, rfl⟩
    simp only [List.length_append, length_encodeRecord] at hmax hsize
    have hw : capsule.length + (272 + payload.length) < wordBound := by
      unfold isizeMax at hsize; unfold wordBound; omega
    exact ⟨hv, hfit, view, hscan, r, hsucc, hroom, _, ⟨by omega, rfl⟩, _, ⟨hw, rfl⟩, hmax, hsize,
      rfl⟩

section Appended

variable {capsule next : Bytes} {identity : CapsuleIdentity} {phase : TransactionPhase}
  {payload : Bytes} {view : CapsuleView} {r : UInt64 × Option UInt64}
  (ha : Appended H capsule identity phase payload limits view r next)

include ha

theorem Appended.length_eq : next.length = capsule.length + 272 + payload.length := by
  rw [ha.eq, List.length_append, length_encodeRecord]
  omega

theorem Appended.capsule_le : capsule.length ≤ isizeMax := by
  have := ha.length_eq; have := ha.length_le_isize; omega

theorem Appended.payloadLen :
    (appendedHeader H r.1 r.2 identity phase payload).payloadLen.toNat = payload.length := by
  have := ha.length_eq
  have hsize := ha.length_le_isize
  unfold isizeMax at hsize
  exact UInt64.toNat_ofNat_of_lt' (by unfold UInt64.size; omega)

theorem Appended.previous_ne :
    (appendedHeader H r.1 r.2 identity phase payload).previousOffset ≠ some noPrevious := by
  have hle := ha.capsule_le
  have hsucc := ha.successor
  obtain ⟨-, -, -, -, hreach, -⟩ := (scanCapsule_ok_iff hle).1 ha.scanned
  have hoff := hreach.offset_lt (by simp) hle
  unfold CapsuleView.newest at hsucc
  simp only [appendedHeader]
  cases hlast : view.generations.getLast? with
  | none =>
    rw [hlast] at hsucc
    simp only [successorOf, bind_ok_iff, exists_const, ensure_ok_iff, pure_eq_ok,
      Except.ok.injEq] at hsucc
    obtain ⟨-, rfl⟩ := hsucc
    simp
  | some previous =>
    rw [hlast] at hsucc
    simp only [successorOf, bind_ok_iff, exists_const, ensure_ok_iff, orErr_ok_iff, pure_eq_ok,
      Except.ok.injEq] at hsucc
    obtain ⟨-, -, g, -, rfl⟩ := hsucc
    have hlt := hoff previous (List.mem_of_getLast? hlast)
    intro heq
    rw [Option.some.inj heq, show noPrevious.toNat = 2 ^ 64 - 1 from rfl] at hlt
    unfold isizeMax at hle
    omega

/-- **Appending.** The walk over the longer buffer reads the old generations and then the new one,
with both copies of its header valid. -/
theorem Appended.reaches :
    Reaches H next limits ([], 0)
      (view.generations ++
        [{ offset := UInt64.ofNat capsule.length
           generation := r.1
           phase := phase
           previousOffset := r.2
           identity := identity
           payloadDigest := H.sha256 payload
           payload := payload
           primaryHeaderValid := true
           trailingHeaderValid := true }], next.length) := by
  obtain ⟨-, -, -, -, hreach, -⟩ := (scanCapsule_ok_iff ha.capsule_le).1 ha.scanned
  have hp := ha.previous_ne
  have hl := ha.payloadLen
  have hnew : Follows H next limits (view.generations, capsule.length)
      (view.generations ++
        [generationOf H next capsule.length (appendedHeader H r.1 r.2 identity phase payload)],
        next.length) := by
    refine ⟨_, ha.room, ha.eq ▸ claims_record hp hl ha.fits, ?_,
      chainOk_of_successorOf ha.successor, ?_⟩
    · rw [ha.eq, hl, sliceAt_record_payload]
      rfl
    · rw [recordEnd_record hl (H := H), ← ha.eq]
  have hgen := generationOf_record H capsule hp hl
  rw [← ha.eq] at hgen
  rw [hgen] at hnew
  exact (ha.eq ▸ hreach.append _ : Reaches H next limits _ _).tail hnew

end Appended

end Capsule

end StarConverter
