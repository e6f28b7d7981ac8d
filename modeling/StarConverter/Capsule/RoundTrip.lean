import StarConverter.Capsule.Append
import StarConverter.Capsule.Decide

/-!
# Append and scan

A sequence of accepted appends lays one record per call behind the previous ones. The next append
scans the buffer first, so only the buffer of the last call can fail to scan: it scans back to
exactly the calls if and only if its records are `NoOverflow` and `Unambiguous`
(`appendAll_roundTrips_iff`). Three zero payloads of 0, 1 and 274 bytes are accepted and then
cannot be scanned (`not_roundTrips_0_1_274`): the leading headers of the second and the third record
claim one start as trailing copies.
-/

namespace StarConverter

open Base

namespace Capsule

/-- The arguments of one append call. -/
structure AppendCall where
  identity : CapsuleIdentity
  phase : TransactionPhase
  payload : Bytes
  deriving DecidableEq

section Defs

variable (H : Hashing) (limits : CapsuleLimits)

/-- The calls in order, each on the buffer the previous one returned. -/
def appendAll : Bytes → List AppendCall → Except CapsuleError Bytes
  | capsule, [] => pure capsule
  | capsule, call :: rest => do
    let next ← appendGeneration H capsule call.identity call.phase call.payload limits
    appendAll next rest

/-- The records of the calls so far, their number and the start of the last one. -/
structure Layout where
  bytes : Bytes
  count : ℕ
  last : Option ℕ

/-- Lays one record behind the others. -/
def Layout.push (laid : Layout) (call : AppendCall) : Layout :=
  { bytes := laid.bytes ++ encodeRecord H (appendedHeader H (UInt64.ofNat laid.count)
      (laid.last.map UInt64.ofNat) call.identity call.phase call.payload) call.payload
    count := laid.count + 1
    last := some laid.bytes.length }

/-- The records of the calls, one behind the other. -/
def layout (calls : List AppendCall) : Layout := calls.foldl (Layout.push H) ⟨[], 0, none⟩

/-- A scan of `bytes` reports exactly the calls, in order, with both copies of every header valid,
and covers the whole buffer. -/
def RoundTrips (calls : List AppendCall) (bytes : Bytes) : Prop :=
  ∃ view, scanCapsule H bytes limits = .ok view ∧ view.validatedBytes = bytes.length ∧
    view.generations.map (fun g =>
        (g.phase, g.identity, g.payload, g.primaryHeaderValid, g.trailingHeaderValid)) =
      calls.map fun call => (call.phase, call.identity, call.payload, true, true)

/-- Every call returns an extension of the buffer it was given. -/
def OnlyExtends (calls : List AppendCall) : Prop :=
  ∀ i < calls.length, ∃ before after, appendAll H limits [] (calls.take i) = .ok before ∧
    appendAll H limits [] (calls.take (i + 1)) = .ok after ∧ before <+: after

end Defs

variable {H : Hashing} {limits : CapsuleLimits}

theorem appendAll_append {capsule bytes : Bytes} {calls more : List AppendCall} :
    appendAll H limits capsule (calls ++ more) = .ok bytes ↔
      ∃ middle, appendAll H limits capsule calls = .ok middle ∧
        appendAll H limits middle more = .ok bytes := by
  induction calls generalizing capsule with
  | nil => simp [appendAll]
  | cons call rest ih =>
    simp only [List.cons_append, appendAll, bind_ok_iff, ih]
    constructor
    · rintro ⟨next, hn, middle, hm, hb⟩
      exact ⟨middle, ⟨next, hn, hm⟩, hb⟩
    · rintro ⟨middle, ⟨next, hn, hm⟩, hb⟩
      exact ⟨next, hn, middle, hm, hb⟩

theorem appendAll_snoc {capsule bytes : Bytes} {calls : List AppendCall} {call : AppendCall} :
    appendAll H limits capsule (calls ++ [call]) = .ok bytes ↔
      ∃ middle, appendAll H limits capsule calls = .ok middle ∧
        appendGeneration H middle call.identity call.phase call.payload limits = .ok bytes := by
  simp [appendAll_append, appendAll]

@[simp] theorem layout_snoc (calls : List AppendCall) (call : AppendCall) :
    layout H (calls ++ [call]) = (layout H calls).push H call := by
  simp [layout]

/-! ## Every accepted sequence is laid out and walked -/

/-- The generations of a walk describe the layout they were read from. -/
structure Laid (H : Hashing) (limits : CapsuleLimits) (calls : List AppendCall) (bytes : Bytes)
    (generations : List CapsuleGeneration) : Prop where
  bytes_eq : bytes = (layout H calls).bytes
  length_le : bytes.length ≤ isizeMax
  reaches : Reaches H bytes limits ([], 0) (generations, bytes.length)
  reported : generations.map (fun g =>
      (g.phase, g.identity, g.payload, g.primaryHeaderValid, g.trailingHeaderValid)) =
    calls.map fun call => (call.phase, call.identity, call.payload, true, true)
  count : (layout H calls).count = calls.length
  small : 272 * calls.length ≤ bytes.length
  last : generations.getLast?.map (fun g => (g.generation.toNat + 1, g.offset)) =
    (layout H calls).last.map fun start => (calls.length, UInt64.ofNat start)

/-- The number and previous offset of the next record of a layout. -/
theorem successorOf_of_laid {calls : List AppendCall} {bytes : Bytes}
    {generations : List CapsuleGeneration} (h : Laid H limits calls bytes generations)
    {identity : CapsuleIdentity} {phase : TransactionPhase} {r : UInt64 × Option UInt64}
    (hr : successorOf generations.getLast? identity phase = .ok r) :
    r = (UInt64.ofNat (layout H calls).count, (layout H calls).last.map UInt64.ofNat) := by
  have hlast := h.last
  have hlen : generations.length = calls.length := by
    simpa using congrArg List.length h.reported
  rw [h.count]
  cases hg : generations.getLast? with
  | none =>
    rw [hg] at hr hlast
    simp only [successorOf, bind_ok_iff, exists_const, ensure_ok_iff, pure_eq_ok,
      Except.ok.injEq] at hr
    obtain ⟨-, rfl⟩ := hr
    have hnil : generations = [] := List.getLast?_eq_none_iff.1 hg
    have hz : calls.length = 0 := by rw [← hlen, hnil]; rfl
    have hnone : (layout H calls).last = none := by simpa using hlast.symm
    rw [hz, hnone]
    rfl
  | some g =>
    rw [hg] at hr hlast
    simp only [successorOf, bind_ok_iff, exists_const, ensure_ok_iff, orErr_ok_iff, pure_eq_ok,
      Except.ok.injEq] at hr
    obtain ⟨-, -, n, hn, rfl⟩ := hr
    cases hl : (layout H calls).last with
    | none => rw [hl] at hlast; simp at hlast
    | some start =>
      rw [hl] at hlast
      simp only [Option.map_some, Option.some.injEq, Prod.mk.injEq] at hlast
      obtain ⟨hgen, hoff⟩ := hlast
      simp only [nextGeneration, Option.map_eq_some_iff, checkedAdd_eq_some] at hn
      obtain ⟨_, ⟨-, rfl⟩, rfl⟩ := hn
      simp [hgen, hoff]

/-- The buffer of accepted appends is the layout of their records, and the walk over it reads
every call back. -/
theorem exists_laid {calls : List AppendCall} {bytes : Bytes}
    (h : appendAll H limits [] calls = .ok bytes) : ∃ gs, Laid H limits calls bytes gs := by
  induction calls using List.reverseRecOn generalizing bytes with
  | nil =>
    obtain rfl := Except.ok.inj h
    exact ⟨[], rfl, by simp, .refl, rfl, rfl, by simp, rfl⟩
  | append_singleton calls call ih =>
    obtain ⟨middle, hm, happ⟩ := appendAll_snoc.1 h
    obtain ⟨view, r, ha⟩ := appendGeneration_ok_iff.1 happ
    obtain ⟨gs, hlaid⟩ := ih hm
    -- The append scanned the shorter buffer, so its generations are the ones laid out.
    obtain ⟨hv, hmax, hno, hun, -, -⟩ := (scanCapsule_ok_iff ha.capsule_le).1 ha.scanned
    have hview : view = ⟨gs, middle.length⟩ := by
      have hscan : scanCapsule H middle limits = .ok ⟨gs, middle.length⟩ :=
        (scanCapsule_ok_iff ha.capsule_le).2 ⟨hv, hmax, hno, hun, hlaid.reaches, rfl⟩
      rw [ha.scanned] at hscan
      exact Except.ok.inj hscan
    subst hview
    have hr := successorOf_of_laid hlaid ha.successor
    have hlen := ha.length_eq
    have hsize := ha.length_le_isize
    have hsmall := hlaid.small
    have hcount := hlaid.count
    unfold isizeMax at hsize
    refine ⟨_, ?_, ha.length_le_isize, ha.reaches, ?_, ?_, ?_, ?_⟩
    · rw [ha.eq, hr, layout_snoc, Layout.push, ← hlaid.bytes_eq]
    · simp [hlaid.reported]
    · simp [Layout.push, hcount]
    · simp only [List.length_append, List.length_singleton]; omega
    · simp only [List.getLast?_append, List.getLast?_singleton, Option.some_or, Option.map_some,
        layout_snoc, Layout.push, List.length_append, List.length_singleton, hr, hcount,
        ← hlaid.bytes_eq]
      rw [UInt64.toNat_ofNat_of_lt' (by unfold UInt64.size; omega)]

theorem onlyExtends_of_appendAll {calls : List AppendCall} {bytes : Bytes}
    (h : appendAll H limits [] calls = .ok bytes) : OnlyExtends H limits calls := by
  intro i hi
  have hsplit : calls = calls.take (i + 1) ++ calls.drop (i + 1) := (List.take_append_drop _ _).symm
  rw [hsplit, appendAll_append] at h
  obtain ⟨after, hafter, -⟩ := h
  have htake : calls.take (i + 1) = calls.take i ++ [calls[i]] := by simp
  have hafter' := hafter
  rw [htake, appendAll_snoc] at hafter'
  obtain ⟨before, hbefore, happ⟩ := hafter'
  obtain ⟨view, r, ha⟩ := appendGeneration_ok_iff.1 happ
  exact ⟨before, after, hbefore, hafter, ha.eq ▸ List.prefix_append _ _⟩

theorem maxCapsuleBytes_of_appendAll {calls : List AppendCall} {bytes : Bytes}
    (h : appendAll H limits [] calls = .ok bytes) : bytes.length ≤ limits.maxCapsuleBytes := by
  cases calls using List.reverseRecOn with
  | nil => obtain rfl := Except.ok.inj h; simp
  | append_singleton calls call =>
    obtain ⟨middle, -, happ⟩ := appendAll_snoc.1 h
    obtain ⟨view, r, ha⟩ := appendGeneration_ok_iff.1 happ
    exact ha.length_le

theorem valid_of_appendAll {calls : List AppendCall} {bytes : Bytes}
    (h : appendAll H limits [] calls = .ok bytes) (hne : calls ≠ []) : limits.Valid := by
  cases calls with
  | nil => exact absurd rfl hne
  | cons call rest =>
    simp only [appendAll, bind_ok_iff] at h
    obtain ⟨next, happ, -⟩ := h
    obtain ⟨view, r, ha⟩ := appendGeneration_ok_iff.1 happ
    exact ha.limits_valid

/-- The scan of accepted appends, when nothing overflows and nothing is ambiguous. -/
theorem scan_of_laid {calls : List AppendCall} {bytes : Bytes} {gs : List CapsuleGeneration}
    (h : appendAll H limits [] calls = .ok bytes) (hlaid : Laid H limits calls bytes gs)
    (hv : limits.Valid) (hno : NoOverflow H bytes limits) (hun : Unambiguous H bytes limits) :
    scanCapsule H bytes limits = .ok ⟨gs, bytes.length⟩ :=
  (scanCapsule_ok_iff hlaid.length_le).2
    ⟨hv, maxCapsuleBytes_of_appendAll h, hno, hun, hlaid.reaches, rfl⟩

/-- **Round trip.** Accepted appends only extend the buffer, and a scan of the last buffer reports
exactly the calls if and only if, in the records laid out for the calls, no record end overflows and
no start is claimed by two different headers. (Without any call nothing checked the limits.) -/
theorem appendAll_roundTrips_iff {calls : List AppendCall} {bytes : Bytes}
    (h : appendAll H limits [] calls = .ok bytes) :
    (RoundTrips H limits calls bytes ∧ OnlyExtends H limits calls) ↔
      (calls = [] → limits.Valid) ∧ NoOverflow H (layout H calls).bytes limits ∧
        Unambiguous H (layout H calls).bytes limits := by
  obtain ⟨gs, hlaid⟩ := exists_laid h
  rw [← hlaid.bytes_eq]
  constructor
  · rintro ⟨⟨view, hscan, -, -⟩, -⟩
    obtain ⟨hv, -, hno, hun, -, -⟩ := (scanCapsule_ok_iff hlaid.length_le).1 hscan
    exact ⟨fun _ => hv, hno, hun⟩
  · rintro ⟨hv, hno, hun⟩
    have hvalid : limits.Valid := by
      by_cases hne : calls = []
      · exact hv hne
      · exact valid_of_appendAll h hne
    exact ⟨⟨⟨gs, bytes.length⟩, scan_of_laid h hlaid hvalid hno hun, rfl, hlaid.reported⟩,
      onlyExtends_of_appendAll h⟩

/-! ## A sequence that is accepted and cannot be scanned -/

/-- `call` may follow `previous`. -/
def MayAppend (previous : Option AppendCall) (call : AppendCall) : Prop :=
  match previous with
  | none => call.phase = .discovered
  | some p => p.identity = call.identity ∧ call.phase.mayFollow p.phase = true

instance (previous : Option AppendCall) (call : AppendCall) : Decidable (MayAppend previous call) :=
  match previous with
  | none => inferInstanceAs (Decidable (_ = _))
  | some _ => inferInstanceAs (Decidable (_ ∧ _))

theorem exists_successorOf {calls : List AppendCall} {bytes : Bytes} {gs : List CapsuleGeneration}
    (hlaid : Laid H limits calls bytes gs) {call : AppendCall}
    (hmay : MayAppend calls.getLast? call) :
    ∃ r, successorOf gs.getLast? call.identity call.phase = .ok r := by
  have hrep := congrArg List.getLast? hlaid.reported
  rw [List.getLast?_map, List.getLast?_map] at hrep
  cases hc : calls.getLast? with
  | none =>
    rw [hc] at hmay hrep
    have hg : gs.getLast? = none := by simpa using hrep
    exact ⟨(0, none), by
      rw [hg, successorOf, ensure_of (show call.phase = .discovered from hmay)]; rfl⟩
  | some p =>
    rw [hc] at hmay hrep
    obtain ⟨g, hg, hpg⟩ := Option.map_eq_some_iff.1 hrep
    simp only [Prod.mk.injEq] at hpg
    obtain ⟨hid, hphase⟩ := hmay
    rw [← hpg.1] at hphase
    rw [← hpg.2.1] at hid
    have hlast := hlaid.last
    rw [hg] at hlast
    cases hl : (layout H calls).last with
    | none => rw [hl] at hlast; simp at hlast
    | some start =>
      rw [hl] at hlast
      simp only [Option.map_some, Option.some.injEq, Prod.mk.injEq] at hlast
      have hlt : g.generation.toNat + 1 < wordBound := by
        have h1 := hlaid.small
        have h2 := hlaid.length_le
        unfold isizeMax at h2
        unfold wordBound
        omega
      refine ⟨(UInt64.ofNat (g.generation.toNat + 1), some g.offset), ?_⟩
      rw [hg, successorOf, ensure_of hid, ok_bind, ensure_of hphase, ok_bind, nextGeneration,
        checkedAdd_of_lt hlt]
      rfl

/-- One more call is accepted when the shorter buffer scans and the record fits the limits. -/
theorem appendAll_snoc_of (calls : List AppendCall) {call : AppendCall}
    (h : appendAll H limits [] calls = .ok (layout H calls).bytes) (hv : limits.Valid)
    (hno : NoOverflow H (layout H calls).bytes limits)
    (hun : Unambiguous H (layout H calls).bytes limits) (hmay : MayAppend calls.getLast? call)
    (hfit : call.payload.length ≤ limits.maxGenerationBytes)
    (hroom : calls.length < limits.maxGenerations)
    (hmax : (layout H (calls ++ [call])).bytes.length ≤ min limits.maxCapsuleBytes isizeMax) :
    appendAll H limits [] (calls ++ [call]) = .ok (layout H (calls ++ [call])).bytes := by
  obtain ⟨gs, hlaid⟩ := exists_laid h
  obtain ⟨r, hr⟩ := exists_successorOf hlaid hmay
  have hlen : gs.length = calls.length := by simpa using congrArg List.length hlaid.reported
  refine appendAll_snoc.2 ⟨_, h, appendGeneration_ok_iff.2
    ⟨⟨gs, (layout H calls).bytes.length⟩, r, ?_⟩⟩
  exact ⟨hv, hfit, scan_of_laid h hlaid hv hno hun, hr, by rw [hlen]; exact hroom,
    hmax.trans (min_le_left _ _), hmax.trans (min_le_right _ _), by
      rw [layout_snoc, Layout.push, successorOf_of_laid hlaid hr]⟩

/-- The identity, limits and zero payloads of the runs below. -/
def sampleIdentity : CapsuleIdentity :=
  ⟨⟨List.replicate 16 0xa5, rfl⟩, ⟨List.replicate 32 0x42, rfl⟩⟩

def sampleLimits : CapsuleLimits := ⟨65536, 4096, 64⟩

def zeroCall (phase : TransactionPhase) (length : ℕ) : AppendCall :=
  ⟨sampleIdentity, phase, List.replicate length 0⟩

theorem appendAll_0 : appendAll .standard sampleLimits [] [zeroCall .discovered 0] =
    .ok (layout .standard [zeroCall .discovered 0]).bytes :=
  appendAll_snoc_of [] rfl (by decide) (by decide +kernel) (by decide +kernel)
    (by decide) (by decide) (by decide) (by decide +kernel)

theorem appendAll_0_1 :
    appendAll .standard sampleLimits [] [zeroCall .discovered 0, zeroCall .reserved 1] =
      .ok (layout .standard [zeroCall .discovered 0, zeroCall .reserved 1]).bytes :=
  appendAll_snoc_of [zeroCall .discovered 0] appendAll_0 (by decide)
    (by decide +kernel) (by decide +kernel) (by decide) (by decide) (by decide) (by decide +kernel)

/-- The round trip at two calls. -/
theorem roundTrips_0_1 :
    RoundTrips .standard sampleLimits [zeroCall .discovered 0, zeroCall .reserved 1]
      (layout .standard [zeroCall .discovered 0, zeroCall .reserved 1]).bytes :=
  ((appendAll_roundTrips_iff appendAll_0_1).2
    ⟨by simp, by decide +kernel, by decide +kernel⟩).1

/-- Three accepted calls whose buffer does not scan: with lengths 0, 1 and 274 the leading headers of
the second and the third record both claim the start 135 as trailing copies. -/
theorem not_roundTrips_0_1_274 :
    ∃ bytes, appendAll .standard sampleLimits []
        [zeroCall .discovered 0, zeroCall .reserved 1, zeroCall .relocating 274] = .ok bytes ∧
      ¬ RoundTrips .standard sampleLimits
        [zeroCall .discovered 0, zeroCall .reserved 1, zeroCall .relocating 274] bytes := by
  have h : appendAll .standard sampleLimits [] ([zeroCall .discovered 0, zeroCall .reserved 1] ++
      [zeroCall .relocating 274]) = .ok (layout .standard ([zeroCall .discovered 0,
        zeroCall .reserved 1] ++ [zeroCall .relocating 274])).bytes :=
    appendAll_snoc_of _ appendAll_0_1 (by decide) (by decide +kernel) (by decide +kernel)
      (by decide) (by decide +kernel) (by decide) (by decide +kernel)
  refine ⟨_, h, ?_⟩
  rintro ⟨view, hscan, -, -⟩
  obtain ⟨gs, hlaid⟩ := exists_laid h
  obtain ⟨-, -, -, hun, -, -⟩ := (scanCapsule_ok_iff hlaid.length_le).1 hscan
  exact absurd hun (by decide +kernel)

end Capsule

end StarConverter
