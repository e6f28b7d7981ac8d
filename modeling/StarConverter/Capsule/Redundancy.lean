import StarConverter.Capsule.RoundTrip

/-!
# Header redundancy

Every generation carries its header twice, and the scanner is meant to recover with either copy
broken. Breaking at most one copy of each generation leaves a buffer the walk still reads record by
record (`Damaged.reaches`), so the scan succeeds exactly when the broken buffer is `NoOverflow` and
`Unambiguous` (`scanCapsule_damaged_iff`). It need not be: with payloads of 0 and 136 bytes, a broken
first header leaves the header of the second generation claiming the start of the first
(`not_scanCapsule_damaged_0_136`).
-/

namespace StarConverter

open Base

namespace Capsule

/-- The two copies of a header. -/
inductive HeaderCopy
  | leading
  | trailing
  deriving DecidableEq

namespace CapsuleGeneration

def start (g : CapsuleGeneration) : ℕ := g.offset.toNat

def stop (g : CapsuleGeneration) : ℕ := g.start + headerBytes + g.payload.length + headerBytes

/-- Where a copy of the header lies. -/
def copyAt (g : CapsuleGeneration) : HeaderCopy → ℕ
  | .leading => g.start
  | .trailing => g.start + headerBytes + g.payload.length

/-- Both copies of the header decode. -/
def BothValid (g : CapsuleGeneration) : Prop :=
  g.primaryHeaderValid = true ∧ g.trailingHeaderValid = true

/-- The generation with the flag of a broken copy cleared. -/
def withBroken (g : CapsuleGeneration) (broken : Option HeaderCopy) : CapsuleGeneration :=
  { g with
    primaryHeaderValid := decide (broken ≠ some .leading)
    trailingHeaderValid := decide (broken ≠ some .trailing) }

end CapsuleGeneration

/-- The view with the flags of the broken copies cleared and nothing else changed. -/
def CapsuleView.withBroken (view : CapsuleView) (broken : ℕ → Option HeaderCopy) : CapsuleView :=
  { view with generations := view.generations.mapIdx fun i g => g.withBroken (broken i) }

/-- `damaged` is `bytes` with the chosen copies, at most one per generation, replaced by bytes that do
not decode as a header. -/
structure Damaged (H : Hashing) (bytes damaged : Bytes) (generations : List CapsuleGeneration)
    (broken : ℕ → Option HeaderCopy) : Prop where
  length_eq : damaged.length = bytes.length
  untouched : ∀ p, (∀ (i : ℕ) g c, generations[i]? = some g → broken i = some c →
    ¬ (g.copyAt c ≤ p ∧ p < g.copyAt c + headerBytes)) → damaged[p]? = bytes[p]?
  undecodable : ∀ (i : ℕ) g c, generations[i]? = some g → broken i = some c →
    header? H (sliceAt damaged (g.copyAt c) headerBytes) = none

variable {H : Hashing} {bytes damaged : Bytes} {limits : CapsuleLimits}
  {generations : List CapsuleGeneration} {broken : ℕ → Option HeaderCopy}

/-! ## The generation read at a claimed start -/

section Claimed

variable {start : ℕ} {header : Header} (hlen : bytes.length ≤ isizeMax)
  (hc : Claims H bytes limits start header)

include hlen hc

theorem generationOf_start : (generationOf H bytes start header).start = start := by
  have hin := hc.inside
  unfold trailingOf at hin
  unfold isizeMax at hlen
  exact UInt64.toNat_ofNat_of_lt' (by unfold UInt64.size; omega)

omit hlen in
theorem generationOf_payload_length :
    (generationOf H bytes start header).payload.length = header.payloadLen.toNat := by
  have hin := hc.inside
  unfold trailingOf at hin
  exact length_sliceAt_of_le (by omega)

theorem generationOf_stop : (generationOf H bytes start header).stop = recordEnd start header := by
  rw [CapsuleGeneration.stop, generationOf_start hlen hc, generationOf_payload_length hc, recordEnd,
    trailingOf]

theorem generationOf_trailing :
    (generationOf H bytes start header).copyAt .trailing = trailingOf start header := by
  rw [CapsuleGeneration.copyAt, generationOf_start hlen hc, generationOf_payload_length hc,
    trailingOf]

end Claimed

/-! ## Records do not overlap -/

/-- The records of a walk lie one behind the other. -/
theorem Reaches.ordered {b : WalkState} (hlen : bytes.length ≤ isizeMax)
    (h : Reaches H bytes limits ([], 0) b) :
    b.1.Pairwise (fun g g' => g.stop ≤ g'.start) ∧ ∀ g ∈ b.1, g.stop ≤ b.2 := by
  induction h with
  | refl => simp
  | tail _ hf ih =>
    obtain ⟨ihp, ihb⟩ := ih
    have hlt := hf.lt
    have hle := hf.le_length
    obtain ⟨h, -, hc, -, -, rfl⟩ := hf
    rename_i a _
    have hoff := generationOf_start hlen hc
    have hstop := generationOf_stop hlen hc
    simp only at hlt
    refine ⟨?_, ?_⟩
    · simp only [List.pairwise_append, List.pairwise_singleton, List.mem_singleton, forall_eq,
        true_and]
      exact ⟨ihp, fun g hg => (ihb g hg).trans hoff.ge⟩
    · intro g hg
      rcases List.mem_append.1 hg with hg | hg
      · exact (ihb g hg).trans (by omega)
      · obtain rfl := List.mem_singleton.1 hg
        exact hstop.le

/-- A part of a record outside its own broken copy is unchanged. -/
theorem Damaged.sliceAt_eq (hd : Damaged H bytes damaged generations broken)
    (hord : generations.Pairwise fun g g' => g.stop ≤ g'.start) {i : ℕ} {g : CapsuleGeneration}
    (hg : generations[i]? = some g) {off len : ℕ} (hlo : g.start ≤ off) (hhi : off + len ≤ g.stop)
    (hown : ∀ c, broken i = some c → off + len ≤ g.copyAt c ∨ g.copyAt c + headerBytes ≤ off) :
    sliceAt damaged off len = sliceAt bytes off len := by
  refine sliceAt_congr fun p hp hp' => hd.untouched p ?_
  rintro j g' c hg' hc ⟨h1, h2⟩
  have hcopy : g'.start ≤ g'.copyAt c ∧ g'.copyAt c + headerBytes ≤ g'.stop := by
    cases c
    · exact ⟨le_rfl, by simp only [CapsuleGeneration.copyAt, CapsuleGeneration.stop]; omega⟩
    · exact ⟨by simp only [CapsuleGeneration.copyAt]; omega, le_rfl⟩
  rw [List.pairwise_iff_getElem] at hord
  obtain ⟨hi, rfl⟩ := List.getElem?_eq_some_iff.1 hg
  obtain ⟨hj, rfl⟩ := List.getElem?_eq_some_iff.1 hg'
  rcases lt_trichotomy i j with hij | rfl | hij
  · have := hord i j hi hj hij; omega
  · rcases hown c hc with h | h <;> omega
  · have := hord j i hj hi hij; omega

/-! ## The walk over a damaged buffer -/

theorem chainOk_withBroken {gs : List CapsuleGeneration} {h : Header} :
    ChainOk (gs.mapIdx fun i g => g.withBroken (broken i)) h ↔ ChainOk gs h := by
  unfold ChainOk validateChain
  rw [List.getLast?_eq_getElem?, List.getElem?_mapIdx, List.length_mapIdx,
    ← List.getLast?_eq_getElem?]
  cases gs.getLast? with
  | none => rfl
  | some g => rfl

/-- The walk reads every record of a damaged buffer, with the flags of the broken copies cleared. -/
theorem Damaged.reaches (hlen : bytes.length ≤ isizeMax)
    (hd : Damaged H bytes damaged generations broken)
    (hord : generations.Pairwise fun g g' => g.stop ≤ g'.start)
    (hvalid : ∀ g ∈ generations, g.BothValid) {b : WalkState}
    (hpre : b.1 <+: generations) (h : Reaches H bytes limits ([], 0) b) :
    Reaches H damaged limits ([], 0)
      (b.1.mapIdx fun i g => g.withBroken (broken i), b.2) := by
  induction h with
  | refl => exact .refl
  | tail hr hf ih =>
    rename_i a b
    have hf' := hf
    obtain ⟨h, hmax, hc, hsha, hchain, rfl⟩ := hf'
    set g := generationOf H bytes a.2 h with hgdef
    have hprea : a.1 <+: generations := (List.prefix_append _ _).trans hpre
    have hg : generations[a.1.length]? = some g := by
      obtain ⟨rest, rfl⟩ := hpre
      simp
    refine (ih hprea).tail ?_
    -- The record read here is the generation with index `a.1.length`.
    have hin := hc.inside
    have hle := hf.le_length
    have hstart : g.start = a.2 := generationOf_start hlen hc
    have htrail : g.copyAt .trailing = trailingOf a.2 h := generationOf_trailing hlen hc
    have hstop : g.stop = trailingOf a.2 h + headerBytes := generationOf_stop hlen hc
    have htr : trailingOf a.2 h = a.2 + headerBytes + h.payloadLen.toNat := rfl
    obtain ⟨hv1, hv2⟩ := hvalid g (List.mem_of_getElem? hg)
    replace hv1 : HeaderAt H bytes a.2 h := of_decide_eq_true hv1
    replace hv2 : HeaderAt H bytes (trailingOf a.2 h) h := of_decide_eq_true hv2
    have hpayload : sliceAt damaged (a.2 + headerBytes) h.payloadLen.toNat =
        sliceAt bytes (a.2 + headerBytes) h.payloadLen.toNat := by
      refine hd.sliceAt_eq hord hg (by omega) (by omega) ?_
      rintro (_ | _) -
      · exact Or.inr (by simp only [CapsuleGeneration.copyAt]; omega)
      · exact Or.inl (by omega)
    have hlead : ∀ other, HeaderAt H damaged a.2 other ↔
        broken a.1.length ≠ some .leading ∧ other = h := by
      intro other
      by_cases hb : broken a.1.length = some .leading
      · have hu := hd.undecodable _ g .leading hg hb
        rw [CapsuleGeneration.copyAt, hstart] at hu
        simp [HeaderAt, hu, hb]
      · have hs : sliceAt damaged a.2 headerBytes = sliceAt bytes a.2 headerBytes := by
          refine hd.sliceAt_eq hord hg (by omega) (by omega) ?_
          rintro (_ | _) hcb
          · exact absurd hcb hb
          · exact Or.inl (by omega)
        rw [HeaderAt, hs, hd.length_eq]
        exact ⟨fun ho => ⟨hb, HeaderAt.unique ho hv1⟩, fun ho => ho.2 ▸ hv1⟩
    have htrl : ∀ other, HeaderAt H damaged (trailingOf a.2 h) other ↔
        broken a.1.length ≠ some .trailing ∧ other = h := by
      intro other
      by_cases hb : broken a.1.length = some .trailing
      · have hu := hd.undecodable _ g .trailing hg hb
        rw [htrail] at hu
        simp [HeaderAt, hu, hb]
      · have hs : sliceAt damaged (trailingOf a.2 h) headerBytes =
            sliceAt bytes (trailingOf a.2 h) headerBytes := by
          refine hd.sliceAt_eq hord hg (by omega) (by omega) ?_
          rintro (_ | _) hcb
          · exact Or.inr (by simp only [CapsuleGeneration.copyAt]; omega)
          · exact absurd hcb hb
        rw [HeaderAt, hs, hd.length_eq]
        exact ⟨fun ho => ⟨hb, HeaderAt.unique ho hv2⟩, fun ho => ho.2 ▸ hv2⟩
    refine ⟨h, by simpa using hmax, ⟨hc.fits, by rw [hd.length_eq]; exact hin, ?_, ?_, ?_⟩, ?_, ?_, ?_⟩
    · rw [hlead, htrl]
      cases hb : broken a.1.length with
      | none => simp
      | some c => cases c <;> simp
    · exact fun other ho => ((hlead other).1 ho).2
    · exact fun other ho => ((htrl other).1 ho).2
    · rw [hpayload]; exact hsha
    · exact chainOk_withBroken.2 hchain
    · have hgen : generationOf H damaged a.2 h = g.withBroken (broken a.1.length) := by
        simp only [hgdef, generationOf, CapsuleGeneration.withBroken, hpayload, hlead, htrl,
          and_true]
      simp only [List.mapIdx_append, List.mapIdx_cons, List.mapIdx_nil, Nat.zero_add, hgen]

/-- A damaged buffer scans when it is unambiguous and nothing in it overflows. -/
theorem Damaged.scan {view : CapsuleView} (hd : Damaged H bytes damaged view.generations broken)
    (hlen : bytes.length ≤ isizeMax) (hscan : scanCapsule H bytes limits = .ok view)
    (hvalid : ∀ g ∈ view.generations, g.BothValid) (hno : NoOverflow H damaged limits)
    (hun : Unambiguous H damaged limits) :
    scanCapsule H damaged limits = .ok (view.withBroken broken) := by
  have hlen' : damaged.length ≤ isizeMax := hd.length_eq ▸ hlen
  obtain ⟨hv, hmax, -, -, hreach, hend⟩ := (scanCapsule_ok_iff hlen).1 hscan
  have hr := hd.reaches hlen (hreach.ordered hlen).1 hvalid (List.prefix_refl _) hreach
  exact (scanCapsule_ok_iff hlen').2
    ⟨hv, hd.length_eq ▸ hmax, hno, hun, hd.length_eq ▸ hr, hd.length_eq ▸ hend⟩

/-- **Header redundancy.** A buffer whose copies are all valid, broken in at most one copy of each
generation, scans to the same generations with only the flags of the broken copies cleared if and only
if in the broken buffer no record end overflows and no start is claimed by two different headers. -/
theorem scanCapsule_damaged_iff {view : CapsuleView} (hlen : bytes.length ≤ isizeMax)
    (hscan : scanCapsule H bytes limits = .ok view) (hvalid : ∀ g ∈ view.generations, g.BothValid)
    (hd : Damaged H bytes damaged view.generations broken) :
    scanCapsule H damaged limits = .ok (view.withBroken broken) ↔
      NoOverflow H damaged limits ∧ Unambiguous H damaged limits := by
  have hlen' : damaged.length ≤ isizeMax := hd.length_eq ▸ hlen
  constructor
  · intro h
    obtain ⟨-, -, hno, hun, -, -⟩ := (scanCapsule_ok_iff hlen').1 h
    exact ⟨hno, hun⟩
  · rintro ⟨hno, hun⟩
    exact hd.scan hlen hscan hvalid hno hun

/-! ## A damaged capsule that does not scan -/

/-- The first record of a walk starts at zero. -/
theorem Reaches.first {b : WalkState} (h : Reaches H bytes limits ([], 0) b) :
    (b.1 = [] ∧ b.2 = 0) ∨ ∃ g, b.1[0]? = some g ∧ g.start = 0 := by
  induction h with
  | refl => exact Or.inl ⟨rfl, rfl⟩
  | tail _ hf ih =>
    obtain ⟨h, -, -, -, -, rfl⟩ := hf
    rename_i a _
    rcases ih with ⟨h1, h2⟩ | ⟨g, hg, hs⟩
    · exact Or.inr ⟨generationOf H bytes a.2 h, by simp [h1], by
        simp [CapsuleGeneration.start, generationOf, h2]⟩
    · refine Or.inr ⟨g, ?_, hs⟩
      obtain ⟨hlt, -⟩ := List.getElem?_eq_some_iff.1 hg
      simp only [List.getElem?_append_left hlt, hg]

/-- The header copy at `offset`, overwritten with zeros. -/
def zeroHeaderAt (bytes : Bytes) (offset : ℕ) : Bytes :=
  bytes.take offset ++ (List.replicate headerBytes 0 ++ bytes.drop (offset + headerBytes))

/-- The first header copy of a capsule, overwritten with zeros. -/
def zeroFirstHeader (bytes : Bytes) : Bytes := List.replicate headerBytes 0 ++ bytes.drop headerBytes

theorem zeroFirstHeader_eq (bytes : Bytes) : zeroFirstHeader bytes = zeroHeaderAt bytes 0 := by
  simp [zeroFirstHeader, zeroHeaderAt]

/-- Zeroing the leading header of one generation breaks that copy and nothing else. -/
theorem damaged_zeroHeaderAt {i : ℕ} {g : CapsuleGeneration} (hg : generations[i]? = some g)
    (hlen : g.start + headerBytes ≤ bytes.length) :
    Damaged H bytes (zeroHeaderAt bytes g.start) generations
      (fun j => if j = i then some .leading else none) := by
  have htake : (bytes.take g.start).length = g.start := by rw [List.length_take]; omega
  refine ⟨by simp [zeroHeaderAt]; omega, ?_, ?_⟩
  · intro p hp
    have hout := hp i g .leading hg (if_pos rfl)
    rw [CapsuleGeneration.copyAt] at hout
    by_cases hlt : p < g.start
    · rw [zeroHeaderAt, List.getElem?_append_left (by omega), List.getElem?_take_of_lt hlt]
    · rw [zeroHeaderAt, List.getElem?_append_right (by omega), htake,
        List.getElem?_append_right (by simp; omega), List.getElem?_drop, List.length_replicate,
        show g.start + headerBytes + (p - g.start - headerBytes) = p by omega]
  · intro j g' c hg' hc
    split_ifs at hc with hj
    obtain rfl := Option.some.inj hc
    subst hj
    obtain rfl : g = g' := Option.some.inj (hg.symm.trans hg')
    -- Zeros do not start with the magic.
    rw [CapsuleGeneration.copyAt, Option.eq_none_iff_forall_ne_some]
    intro h hh
    have hm := (length_magic_of_decode (header?_eq_some.1 hh)).2
    rw [sliceAt_sliceAt (by decide), zeroHeaderAt, sliceAt_append_right (by omega), htake,
      Nat.add_zero, Nat.sub_self, sliceAt_append_left (by simp [headerBytes]), sliceAt,
      List.drop_zero, List.take_replicate] at hm
    exact absurd hm (by decide)

/-- What the runs below share: an unambiguous layout scans with all copies valid, and zeroing its
first header is a damage. -/
theorem exists_scan_zeroFirstHeader {calls : List AppendCall} (hne : calls ≠ [])
    (h : appendAll H limits [] calls = .ok (layout H calls).bytes)
    (hno : NoOverflow H (layout H calls).bytes limits)
    (hun : Unambiguous H (layout H calls).bytes limits) :
    ∃ view, scanCapsule H (layout H calls).bytes limits = .ok view ∧
      (∀ g ∈ view.generations, g.BothValid) ∧
      Damaged H (layout H calls).bytes (zeroFirstHeader (layout H calls).bytes) view.generations
        (fun i => if i = 0 then some .leading else none) := by
  obtain ⟨gs, hlaid⟩ := exists_laid h
  have hlen : gs.length = calls.length := by simpa using congrArg List.length hlaid.reported
  have hpos : 0 < calls.length := List.length_pos_iff.2 hne
  refine ⟨_, scan_of_laid h hlaid (valid_of_appendAll h hne) hno hun, ?_, ?_⟩
  · intro g hg
    have hmem := List.mem_map_of_mem (f := fun g : CapsuleGeneration =>
      (g.phase, g.identity, g.payload, g.primaryHeaderValid, g.trailingHeaderValid)) hg
    rw [hlaid.reported] at hmem
    obtain ⟨call, -, hcall⟩ := List.mem_map.1 hmem
    simp only [Prod.mk.injEq] at hcall
    exact ⟨hcall.2.2.2.1.symm, hcall.2.2.2.2.symm⟩
  · rcases hlaid.reaches.first with ⟨hnil, -⟩ | ⟨g, hg, hs⟩
    · simp only at hnil
      rw [hnil, List.length_nil] at hlen
      omega
    · have hsmall := hlaid.small
      have hd := damaged_zeroHeaderAt (H := H) hg
        (show g.start + headerBytes ≤ (layout H calls).bytes.length by unfold headerBytes; omega)
      rwa [hs, ← zeroFirstHeader_eq] at hd

/-- Redundancy at two generations: the first header of payloads of 0 and 1 bytes is zeroed. -/
theorem scanCapsule_damaged_0_1 :
    ∃ view, scanCapsule .standard
        (layout .standard [zeroCall .discovered 0, zeroCall .reserved 1]).bytes sampleLimits =
          .ok view ∧
      scanCapsule .standard (zeroFirstHeader
        (layout .standard [zeroCall .discovered 0, zeroCall .reserved 1]).bytes) sampleLimits =
          .ok (view.withBroken fun i => if i = 0 then some .leading else none) := by
  obtain ⟨view, hscan, hvalid, hd⟩ := exists_scan_zeroFirstHeader (by simp) appendAll_0_1
    (by decide +kernel) (by decide +kernel)
  exact ⟨view, hscan, (scanCapsule_damaged_iff (by decide +kernel) hscan hvalid hd).2
    ⟨by decide +kernel, by decide +kernel⟩⟩

theorem appendAll_0_136 :
    appendAll .standard sampleLimits [] [zeroCall .discovered 0, zeroCall .reserved 136] =
      .ok (layout .standard [zeroCall .discovered 0, zeroCall .reserved 136]).bytes :=
  appendAll_snoc_of [zeroCall .discovered 0] appendAll_0 (by decide)
    (by decide +kernel) (by decide +kernel) (by decide) (by decide +kernel) (by decide)
    (by decide +kernel)

/-- Payloads of 0 and 136 bytes scan with all copies valid; with the first header zeroed, the
leading header of the second generation and the trailing header of the first both claim the start
zero, and the scan fails. -/
theorem not_scanCapsule_damaged_0_136 :
    ∃ view, scanCapsule .standard
        (layout .standard [zeroCall .discovered 0, zeroCall .reserved 136]).bytes sampleLimits =
          .ok view ∧
      (∀ g ∈ view.generations, g.BothValid) ∧
      Damaged .standard (layout .standard [zeroCall .discovered 0, zeroCall .reserved 136]).bytes
        (zeroFirstHeader (layout .standard [zeroCall .discovered 0, zeroCall .reserved 136]).bytes)
        view.generations (fun i => if i = 0 then some .leading else none) ∧
      ∀ view', scanCapsule .standard (zeroFirstHeader
        (layout .standard [zeroCall .discovered 0, zeroCall .reserved 136]).bytes) sampleLimits ≠
          .ok view' := by
  obtain ⟨view, hscan, hvalid, hd⟩ := exists_scan_zeroFirstHeader (by simp) appendAll_0_136
    (by decide +kernel) (by decide +kernel)
  refine ⟨view, hscan, hvalid, hd, fun view' hscan' => ?_⟩
  obtain ⟨-, -, -, hun, -, -⟩ := (scanCapsule_ok_iff (by decide +kernel)).1 hscan'
  exact absurd hun (by decide +kernel)

end Capsule

end StarConverter
