import StarConverter.Base.Codec
import StarConverter.Capsule.TornTail

/-!
# Torn appends and larger limits

A capsule whose newest append is cut anywhere ends in a torn tail, whatever else the buffer holds
(`stopsTorn_record`). Limits can be raised without losing a record: the walk stays the same, and only
new claims can turn up.
-/

namespace StarConverter

open Base

namespace Capsule

variable {H : Hashing} {bytes : Bytes} {limits policy : CapsuleLimits}

/-! ## Larger limits -/

/-- `limits` allow no more than `policy`. -/
structure CapsuleLimits.Within (limits policy : CapsuleLimits) : Prop where
  maxCapsuleBytes : limits.maxCapsuleBytes ≤ policy.maxCapsuleBytes
  maxGenerationBytes : limits.maxGenerationBytes ≤ policy.maxGenerationBytes
  maxGenerations : limits.maxGenerations ≤ policy.maxGenerations

theorem CapsuleLimits.Within.refl (limits : CapsuleLimits) : limits.Within limits :=
  ⟨le_rfl, le_rfl, le_rfl⟩

section Within

variable (hw : limits.Within policy)

include hw

theorem CapsuleLimits.Within.valid (hv : limits.Valid) : policy.Valid := by
  obtain ⟨h1, h2, h3⟩ := hv
  exact ⟨Nat.ne_of_gt (Nat.pos_of_ne_zero h1 |>.trans_le hw.maxCapsuleBytes),
    Nat.ne_of_gt (Nat.pos_of_ne_zero h2 |>.trans_le hw.maxGenerationBytes),
    Nat.ne_of_gt (Nat.pos_of_ne_zero h3 |>.trans_le hw.maxGenerations)⟩

theorem Claims.within {start : ℕ} {h : Header} (hc : Claims H bytes limits start h) :
    Claims H bytes policy start h :=
  ⟨hc.fits.trans hw.maxGenerationBytes, hc.inside, hc.copy, hc.primary, hc.trailing⟩

theorem Unambiguous.within (hun : Unambiguous H bytes policy) : Unambiguous H bytes limits :=
  fun start _ _ hc hc' => hun start _ _ (hc.within hw) (hc'.within hw)

theorem NoOverflow.within (hno : NoOverflow H bytes policy) : NoOverflow H bytes limits :=
  fun position h hat hfits => hno position h hat (hfits.trans hw.maxGenerationBytes)

theorem Reaches.within {a b : WalkState} (hr : Reaches H bytes limits a b) :
    Reaches H bytes policy a b := by
  induction hr with
  | refl => exact .refl
  | tail _ hf ih =>
    obtain ⟨header, hroom, hc, hsha, hchain, rfl⟩ := hf
    exact ih.tail ⟨header, hroom.trans_le hw.maxGenerations, hc.within hw, hsha, hchain, rfl⟩

end Within

/-! ## A torn append -/

/-- `tail` is a proper part of a record that was being appended behind `bytes`. -/
structure TornRecord (H : Hashing) (limits : CapsuleLimits) (bytes : Bytes)
    (generations : List CapsuleGeneration) (tail : Bytes) (header : Header) (payload : Bytes) :
    Prop where
  room : generations.length < limits.maxGenerations
  previous_ne : header.previousOffset ≠ some noPrevious
  payloadLen : header.payloadLen.toNat = payload.length
  fits : payload.length ≤ limits.maxGenerationBytes
  chain : ChainOk generations header
  isPrefix : tail <+: encodeRecord H header payload
  nonempty : tail ≠ []
  length_lt : tail.length < (encodeRecord H header payload).length
  length_le : (bytes ++ encodeRecord H header payload).length ≤ isizeMax

namespace TornRecord

variable {generations : List CapsuleGeneration} {tail payload : Bytes} {header : Header}
  (h : TornRecord H limits bytes generations tail header payload)

include h

theorem within (hw : limits.Within policy) :
    TornRecord H policy bytes generations tail header payload :=
  ⟨h.room.trans_le hw.maxGenerations, h.previous_ne, h.payloadLen,
    h.fits.trans hw.maxGenerationBytes, h.chain, h.isPrefix, h.nonempty, h.length_lt, h.length_le⟩

/-- A recovery scan stops in front of a cut record, whatever stands before it. -/
theorem stopsTorn : StopsTorn H (bytes ++ tail) limits (generations, bytes.length) := by
  obtain ⟨suffix, hsuffix⟩ := h.isPrefix
  have hlen := h.length_le
  have hcut := h.length_lt
  have hpos : 0 < tail.length := List.length_pos_iff.2 h.nonempty
  have hfull : bytes ++ encodeRecord H header payload = (bytes ++ tail) ++ suffix := by
    rw [← hsuffix, List.append_assoc]
  have hc : Claims H (bytes ++ encodeRecord H header payload) limits bytes.length header :=
    claims_record h.previous_ne h.payloadLen h.fits
  have hat := (headerAt_record H bytes h.previous_ne h.payloadLen).1
  have hend : recordEnd bytes.length header = (bytes ++ encodeRecord H header payload).length :=
    recordEnd_record h.payloadLen
  rw [List.length_append] at hend
  rw [hfull] at hlen hc hat
  have hin : bytes.length < (bytes ++ tail).length := by
    rw [List.length_append]
    omega
  have hinside : (bytes ++ tail).length < recordEnd bytes.length header := by
    rw [List.length_append, hend]
    omega
  refine ⟨hin, h.room, fun other hother => ?_, ?_⟩
  · -- The leading header, as far as it is there, is the one of the cut record.
    have hother' := hother.append suffix
    obtain rfl : header = other := hother'.primary header hat
    exact absurd hother.inside (not_le.2 hinside)
  · exact (isRecoverableTornTail_iff hlen hc h.chain hin hinside).2 fun _ => hat

end TornRecord

/-- The generation an appended record is read back as. -/
def appendedGeneration (H : Hashing) (start : ℕ) (r : UInt64 × Option UInt64)
    (identity : CapsuleIdentity) (phase : TransactionPhase) (payload : Bytes) : CapsuleGeneration :=
  { offset := UInt64.ofNat start
    generation := r.1
    phase := phase
    previousOffset := r.2
    identity := identity
    payloadDigest := H.sha256 payload
    payload := payload
    primaryHeaderValid := true
    trailingHeaderValid := true }

/-- A capsule that holds `generations` up to `stop` and perhaps part of one more record. -/
structure Holds (H : Hashing) (limits : CapsuleLimits) (capsule : Bytes)
    (generations : List CapsuleGeneration) (stop : ℕ) : Prop where
  valid : limits.Valid
  nonempty : generations ≠ []
  length_le : capsule.length ≤ isizeMax
  size_le : capsule.length ≤ limits.maxCapsuleBytes
  reaches : Reaches H capsule limits ([], 0) (generations, stop)
  ends : stop = capsule.length ∨ ∃ header payload,
    TornRecord H limits (capsule.take stop) generations (capsule.drop stop) header payload

namespace Holds

variable {capsule : Bytes} {generations : List CapsuleGeneration} {stop : ℕ}
  (h : Holds H limits capsule generations stop)

include h

theorem stop_le : stop ≤ capsule.length := h.reaches.le_length (Nat.zero_le _)

theorem within (hw : limits.Within policy) : Holds H policy capsule generations stop :=
  ⟨hw.valid h.valid, h.nonempty, h.length_le, h.size_le.trans hw.maxCapsuleBytes,
    h.reaches.within hw, h.ends.imp_right fun ⟨header, payload, ht⟩ => ⟨header, payload, ht.within hw⟩⟩

theorem magic_le : 8 ≤ capsule.length := by
  rcases Relation.ReflTransGen.cases_head h.reaches with heq | ⟨c, hf, hr⟩
  · rw [Prod.mk.injEq] at heq
    exact absurd heq.1.symm h.nonempty
  · have h1 := hf.lt
    have h2 := hf.le_length
    omega

/-- **Recovery.** Recovering a capsule with a torn newest append returns exactly what it holds, if
and only if no record end overflows and no start is claimed by two headers. -/
theorem recover_iff :
    recoverCapsule H capsule limits = .ok ⟨generations, stop⟩ ↔
      NoOverflow H capsule limits ∧ Unambiguous H capsule limits := by
  have hends : stop = capsule.length ∨ true = true ∧ StopsTorn H capsule limits (generations, stop) := by
    refine h.ends.imp_right fun ⟨header, payload, ht⟩ => ⟨rfl, ?_⟩
    have hstop := ht.stopsTorn
    have hle := h.stop_le
    rwa [List.take_append_drop, List.length_take, Nat.min_eq_left hle] at hstop
  rw [recoverCapsule, scanCapsuleImpl_ok_iff h.length_le (Or.inr h.magic_le)]
  constructor
  · rintro ⟨-, -, hno, hun, -⟩
    exact ⟨hno, hun⟩
  · rintro ⟨hno, hun⟩
    exact ⟨h.valid, h.size_le, hno, hun, h.reaches, hends⟩

/-- Whatever a recovery scan returns is what the capsule holds. -/
theorem eq_of_recover {view : CapsuleView} (hr : recoverCapsule H capsule limits = .ok view) :
    view = ⟨generations, stop⟩ := by
  have hr' := hr
  rw [recoverCapsule, scanCapsuleImpl_ok_iff h.length_le (Or.inr h.magic_le)] at hr'
  obtain ⟨-, -, hno, hun, -⟩ := hr'
  have hown := h.recover_iff.2 ⟨hno, hun⟩
  rw [hr] at hown
  exact Except.ok.inj hown

/-- The complete records alone. -/
theorem take : Holds H limits (capsule.take stop) generations stop := by
  have hle := h.stop_le
  have hlen : (capsule.take stop).length = stop := by rw [List.length_take, Nat.min_eq_left hle]
  have hreach := h.reaches
  rw [← List.take_append_drop stop capsule] at hreach
  have hsize := h.size_le
  have hisize := h.length_le
  exact ⟨h.valid, h.nonempty, by omega, by omega,
    (reaches_front (Nat.zero_le _)).2 ⟨hreach, hlen.ge⟩, Or.inl hlen.symm⟩

/-- A complete scan of the complete records finds nothing else. -/
theorem eq_of_scan_take {view : CapsuleView}
    (hs : scanCapsule H (capsule.take stop) limits = .ok view) : view = ⟨generations, stop⟩ := by
  have ht := h.take
  have hlen : (capsule.take stop).length = stop := by
    rw [List.length_take, Nat.min_eq_left h.stop_le]
  obtain ⟨hv, hmax, hno, hun, -, -⟩ := (scanCapsule_ok_iff ht.length_le).1 hs
  have hown : scanCapsule H (capsule.take stop) limits = .ok ⟨generations, stop⟩ :=
    (scanCapsule_ok_iff ht.length_le).2
      ⟨hv, hmax, hno, hun, by rw [hlen]; exact ht.reaches, hlen.symm⟩
  rw [hs] at hown
  exact Except.ok.inj hown

section Append

variable {identity : CapsuleIdentity} {phase : TransactionPhase} {payload next : Bytes}
  {view : CapsuleView} {r : UInt64 × Option UInt64}
  (ha : Appended H (capsule.take stop) identity phase payload limits view r next)

include ha

/-- An append behind the complete records adds one generation. -/
theorem append : Holds H limits next (generations ++ [appendedGeneration H stop r identity phase payload])
    next.length := by
  have hreach := ha.reaches
  rw [h.eq_of_scan_take ha.scanned, List.length_take, Nat.min_eq_left h.stop_le] at hreach
  exact ⟨ha.limits_valid, by simp, ha.length_le_isize, ha.length_le, hreach, Or.inl rfl⟩

/-- An append that is cut behind the complete records adds none. -/
theorem append_take {n : ℕ} (hn : stop ≤ n) (hlt : n < next.length) :
    Holds H limits (next.take n) generations stop := by
  obtain rfl := h.eq_of_scan_take ha.scanned
  have hle := h.stop_le
  have hlen : (capsule.take stop).length = stop := by rw [List.length_take, Nat.min_eq_left hle]
  have hnext := ha.length_eq
  have hmax := ha.length_le
  have hisize := ha.length_le_isize
  have hcut : next.take n = capsule.take stop ++ (encodeRecord H
      (appendedHeader H r.1 r.2 identity phase payload) payload).take (n - stop) := by
    rw [ha.eq, List.take_append, hlen, List.take_of_length_le (by omega)]
  have htake : (next.take n).take stop = capsule.take stop := by
    rw [hcut, List.take_append, hlen, Nat.sub_self, List.take_zero, List.append_nil,
      List.take_of_length_le (by omega)]
  have hdrop : (next.take n).drop stop = (encodeRecord H
      (appendedHeader H r.1 r.2 identity phase payload) payload).take (n - stop) := by
    rw [hcut, List.drop_append, hlen, Nat.sub_self, List.drop_zero,
      List.drop_of_length_le (by omega), List.nil_append]
  have hn' : (next.take n).length = n := by rw [List.length_take, Nat.min_eq_left hlt.le]
  refine ⟨h.valid, h.nonempty, by omega, by omega, ?_, ?_⟩
  · rw [hcut]
    exact h.take.reaches.append _
  · rcases hn.eq_or_lt with rfl | hpos
    · exact Or.inl hn'.symm
    · refine Or.inr ⟨appendedHeader H r.1 r.2 identity phase payload, payload, ha.room,
        ha.previous_ne, ha.payloadLen, ha.fits, chainOk_of_successorOf ha.successor, ?_, ?_, ?_, ?_⟩
      · rw [hdrop]
        exact List.take_prefix _ _
      · rw [← List.length_pos_iff, List.length_drop]
        omega
      · rw [hdrop, List.length_take, length_encodeRecord]
        omega
      · rw [htake, ← ha.eq]
        exact hisize

end Append

end Holds

/-- An append to an empty capsule is its first generation. -/
theorem holds_first {identity : CapsuleIdentity} {phase : TransactionPhase} {payload next : Bytes}
    {view : CapsuleView} {r : UInt64 × Option UInt64}
    (ha : Appended H [] identity phase payload limits view r next) :
    Holds H limits next [appendedGeneration H 0 (0, none) identity phase payload] next.length := by
  obtain ⟨-, -, -, -, hreach, -⟩ := (scanCapsule_ok_iff (Nat.zero_le _)).1 ha.scanned
  have hnil : view.generations = [] := by
    rcases Relation.ReflTransGen.cases_head hreach with heq | ⟨c, hf, -⟩
    · exact (Prod.mk.inj heq).1.symm
    · have h1 := hf.lt
      have h2 := hf.le_length
      rw [List.length_nil] at h2
      omega
  have hsucc := ha.successor
  rw [CapsuleView.newest, hnil] at hsucc
  simp only [List.getLast?_nil, successorOf, bind_ok_iff, exists_const, ensure_ok_iff, pure_eq_ok,
    Except.ok.injEq] at hsucc
  obtain ⟨-, rfl⟩ := hsucc
  have hnew := ha.reaches
  rw [hnil] at hnew
  exact ⟨ha.limits_valid, by simp, ha.length_le_isize, ha.length_le, hnew, Or.inl rfl⟩

/-! ## Forged records -/

/-- A header of a record with `payloadLen` bytes that was never written. -/
def forgedHeader (payloadLen : UInt64) : Header :=
  { generation := 0
    phase := .discovered
    payloadLen := payloadLen
    previousOffset := none
    identity := ⟨⟨List.replicate 16 0, rfl⟩, ⟨List.replicate 32 0, rfl⟩⟩
    payloadDigest := ⟨List.replicate 32 0, rfl⟩ }

/-- Two trailing headers for the same start, at which no header stands. -/
def forgery (H : Hashing) : Bytes :=
  [List.replicate headerBytes 0, encodeHeader H (forgedHeader 0),
    encodeHeader H (forgedHeader 136)].flatten

@[simp] theorem length_forgery : (forgery H).length = 408 := by
  simp [forgery, headerBytes]

/-- Bytes that look like two trailing headers spoil every capsule they are part of. -/
theorem not_unambiguous_of_forgery (h : forgery H <:+: bytes)
    (hl : headerBytes ≤ limits.maxGenerationBytes) : ¬ Unambiguous H bytes limits := by
  obtain ⟨before, after, hbytes⟩ := h
  have hfield : ∀ {i off : ℕ} {s : Bytes}, [List.replicate headerBytes 0,
      encodeHeader H (forgedHeader 0), encodeHeader H (forgedHeader 136)][i]? = some s →
      before.length + (([136, 136, 136] : List ℕ).take i).sum = off → FieldAt bytes off s :=
    fun hs hoff => fieldAt_table hbytes.symm (by simp [headerBytes]) hs hoff
  have hzero : FieldAt bytes before.length (List.replicate headerBytes 0) := hfield (i := 0) rfl rfl
  have h0 : FieldAt bytes (before.length + 136) (encodeHeader H (forgedHeader 0)) :=
    hfield (i := 1) rfl rfl
  have h1 : FieldAt bytes (before.length + 272) (encodeHeader H (forgedHeader 136)) :=
    hfield (i := 2) rfl rfl
  have hat : ∀ {position : ℕ} {header : Header}, header.previousOffset = none →
      FieldAt bytes position (encodeHeader H header) → HeaderAt H bytes position header := by
    intro position header hp hf
    obtain ⟨hin, hslice⟩ := hf
    rw [encodeHeader_length] at hin hslice
    exact ⟨hin, hslice ▸ header?_eq_some.2 (decodeHeader_encodeHeader H (by simp [hp]))⟩
  have hnone : ∀ other, ¬ HeaderAt H bytes before.length other := by
    intro other hother
    have hslice := congrArg (fun l => sliceAt l 0 8) hzero.2
    simp only [List.length_replicate] at hslice
    rw [sliceAt_sliceAt (by decide), Nat.add_zero, hother.magic_at] at hslice
    exact absurd hslice (by decide)
  have hclaims : ∀ n : UInt64, n.toNat ≤ headerBytes →
      HeaderAt H bytes (trailingOf before.length (forgedHeader n)) (forgedHeader n) →
      Claims H bytes limits before.length (forgedHeader n) := fun _ hle hh =>
    ⟨hle.trans hl, hh.1, Or.inr hh, fun other ho => absurd ho (hnone other),
      fun other ho => ho.unique hh⟩
  intro hun
  have heq := hun before.length _ _ (hclaims 0 (by decide) (hat rfl h0))
    (hclaims 136 (by decide) (hat rfl h1))
  exact absurd heq (by decide)

end Capsule

end StarConverter
