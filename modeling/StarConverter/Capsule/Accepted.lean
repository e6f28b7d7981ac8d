import StarConverter.Capsule.Redundancy

/-!
# What an accepted capsule is

`AcceptedCapsule` says what a capsule is, without reference to the search for headers: records laid end to
end from offset zero, numbered from zero, linked to one another, with one identity and one run of
phases. Every record of the walk keeps it (`Follows.accepted`), so whatever either scan returns has it
(`accepted_of_scan`).
-/

namespace StarConverter

open Base

namespace Capsule

namespace TransactionPhase

/-- The phase that follows in an undisturbed transaction. -/
def successor : TransactionPhase → Option TransactionPhase
  | discovered => some reserved
  | reserved => some relocating
  | relocating => some targetStaged
  | targetStaged => some backupBootWritten
  | backupBootWritten => some activated
  | activated => some verified
  | verified => some finalized
  | finalized => none
  | rolledBack => none

/-- The phases of an undisturbed transaction, in order. -/
def lifecycle : List TransactionPhase :=
  [discovered, reserved, relocating, targetStaged, backupBootWritten, activated, verified, finalized]

theorem mayFollow_iff {p q : TransactionPhase} :
    p.mayFollow q = true ↔ ¬ q.Terminal ∧ (q.successor = some p ∨ p = rolledBack) := by
  cases p <;> cases q <;> decide

/-- A run of phases: the beginning of the lifecycle, possibly cut short by a rollback. -/
def IsRun (phases : List TransactionPhase) : Prop :=
  ∃ n ≤ 8, phases = lifecycle.take n ∨ phases = lifecycle.take n ++ [rolledBack]

theorem isRun_nil : IsRun [] := ⟨0, by omega, Or.inl rfl⟩

/-- The lifecycle follows the successors. -/
theorem successor_lifecycle {m : ℕ} {q : TransactionPhase} (h : lifecycle[m]? = some q) :
    q.successor = lifecycle[m + 1]? := by
  obtain ⟨hm, rfl⟩ := List.getElem?_eq_some_iff.1 h
  rw [show lifecycle.length = 8 from rfl] at hm
  interval_cases m <;> rfl

/-- One more phase keeps a run. -/
theorem IsRun.snoc {phases : List TransactionPhase} {p : TransactionPhase} (h : IsRun phases)
    (hfirst : phases = [] → p = discovered)
    (hnext : ∀ q, phases.getLast? = some q → p.mayFollow q = true) : IsRun (phases ++ [p]) := by
  have hlen : lifecycle.length = 8 := rfl
  obtain ⟨n, hn, rfl | rfl⟩ := h
  · cases n with
    | zero => exact ⟨1, by omega, Or.inl (by rw [hfirst rfl]; rfl)⟩
    | succ m =>
      have hlast : (lifecycle.take (m + 1)).getLast? = lifecycle[m]? := by
        rw [List.getLast?_eq_getElem?, List.length_take, List.getElem?_take, hlen,
          Nat.min_eq_left hn, if_pos (by omega), Nat.add_sub_cancel]
      obtain ⟨q, hq⟩ : ∃ q, lifecycle[m]? = some q :=
        ⟨_, List.getElem?_eq_getElem (by omega : m < lifecycle.length)⟩
      obtain ⟨-, hsucc | rfl⟩ := mayFollow_iff.1 (hnext q (hlast.trans hq))
      · rw [successor_lifecycle hq] at hsucc
        obtain ⟨hm, -⟩ := List.getElem?_eq_some_iff.1 hsucc
        refine ⟨m + 2, by omega, Or.inl ?_⟩
        rw [List.take_add_one (i := m + 1), hsucc]
        rfl
      · exact ⟨m + 1, hn, Or.inr rfl⟩
  · have := hnext rolledBack (by simp)
    simp [mayFollow] at this

theorem IsRun.length_le {phases : List TransactionPhase} (h : IsRun phases) :
    phases.length ≤ 9 := by
  obtain ⟨n, hn, rfl | rfl⟩ := h
  · rw [List.length_take]; omega
  · rw [List.length_append, List.length_take, List.length_singleton]; omega

/-- A run that ends finalized is the whole lifecycle. -/
theorem IsRun.eq_lifecycle {phases : List TransactionPhase} (h : IsRun phases)
    (hlast : phases.getLast? = some finalized) : phases = lifecycle := by
  obtain ⟨n, hn, rfl | rfl⟩ := h
  · interval_cases n <;> first | rfl | exact absurd hlast (by decide)
  · simp at hlast

end TransactionPhase

/-! ## Accepted capsules -/

/-- The generations tile `[offset, stop)`: each record starts where the one before it ended. -/
def TilesFrom : ℕ → List CapsuleGeneration → ℕ → Prop
  | offset, [], stop => offset = stop
  | offset, g :: rest, stop => g.start = offset ∧ TilesFrom g.stop rest stop

/-- `bytes` hold the record of `g`: its payload, which hashes to its digest, and a copy of a header
with its fields. -/
structure Recorded (H : Hashing) (bytes : Bytes) (g : CapsuleGeneration) : Prop where
  payload_eq : g.payload = sliceAt bytes (g.start + headerBytes) g.payload.length
  digest_eq : H.sha256 g.payload = g.payloadDigest
  copy : ∃ header copy, HeaderAt H bytes (g.copyAt copy) header ∧
    header = ⟨g.generation, g.phase, UInt64.ofNat g.payload.length, g.previousOffset, g.identity,
      g.payloadDigest⟩

/-- `next` continues `previous`. -/
structure Linked (previous next : CapsuleGeneration) : Prop where
  offset_eq : next.previousOffset = some previous.offset
  open_phase : ¬ previous.phase.Terminal
  phase_eq : previous.phase.successor = some next.phase ∨ next.phase = .rolledBack

structure AcceptedCapsule (H : Hashing) (bytes : Bytes) (generations : List CapsuleGeneration)
    (validated : ℕ) : Prop where
  inside : validated ≤ bytes.length
  tiles : TilesFrom 0 generations validated
  recorded : ∀ g ∈ generations, Recorded H bytes g
  numbered : generations.map (fun g => g.generation.toNat) = List.range generations.length
  one_identity : ∀ g ∈ generations, ∀ g' ∈ generations, g.identity = g'.identity
  first : ∀ g, generations.head? = some g → g.phase = .discovered ∧ g.previousOffset = none
  linked : generations.IsChain Linked

variable {H : Hashing} {bytes : Bytes} {limits : CapsuleLimits}

theorem tilesFrom_snoc {offset stop : ℕ} {gs : List CapsuleGeneration} {g : CapsuleGeneration}
    (h : TilesFrom offset gs stop) (hg : g.start = stop) : TilesFrom offset (gs ++ [g]) g.stop := by
  induction gs generalizing offset with
  | nil =>
    obtain rfl : offset = stop := h
    exact ⟨hg, rfl⟩
  | cons x rest ih => exact ⟨h.1, ih h.2⟩

theorem isChain_snoc {α : Type*} {R : α → α → Prop} {l : List α} {a : α} (h : l.IsChain R)
    (hlast : ∀ x, l.getLast? = some x → R x a) : (l ++ [a]).IsChain R := by
  rw [List.isChain_append]
  refine ⟨h, List.isChain_singleton a, ?_⟩
  intro x hx y hy
  obtain rfl : a = y := by simpa using hy
  exact hlast x hx

/-! ## The generation read at a claimed start -/

section Claimed

variable {start : ℕ} {header : Header} (hlen : bytes.length ≤ isizeMax)
  (hc : Claims H bytes limits start header)

include hlen hc

theorem recorded_generationOf
    (hsha : H.sha256 (sliceAt bytes (start + headerBytes) header.payloadLen.toNat) =
      header.payloadDigest) : Recorded H bytes (generationOf H bytes start header) := by
  have hstart := generationOf_start hlen hc
  have hpay := generationOf_payload_length hc
  refine ⟨by rw [hstart, hpay]; rfl, hsha, header, ?_⟩
  have hfields : header = ⟨header.generation, header.phase,
      UInt64.ofNat (generationOf H bytes start header).payload.length, header.previousOffset,
      header.identity, header.payloadDigest⟩ := by
    rw [hpay, UInt64.ofNat_toNat]
  rcases hc.copy with hat | hat
  · exact ⟨.leading, by rw [CapsuleGeneration.copyAt, hstart]; exact hat, hfields⟩
  · exact ⟨.trailing, by rw [generationOf_trailing hlen hc]; exact hat, hfields⟩

end Claimed

/-- What `validate_chain` accepts behind `generations`. -/
theorem chainOk_iff {generations : List CapsuleGeneration} {header : Header} :
    ChainOk generations header ↔
      (generations = [] → header.generation = 0 ∧ header.phase = .discovered ∧
        header.previousOffset = none) ∧
      ∀ previous, generations.getLast? = some previous →
        nextGeneration previous.generation = some header.generation ∧
          header.previousOffset = some previous.offset ∧ header.identity = previous.identity ∧
          header.phase.mayFollow previous.phase = true := by
  unfold ChainOk validateChain
  cases hlast : generations.getLast? with
  | none =>
    rw [List.getLast?_eq_none_iff] at hlast
    simp [hlast]
  | some previous =>
    have hne : generations ≠ [] := by
      rintro rfl
      cases hlast
    simp only [bind_ok_iff, exists_const, ensure_ok_iff, orErr_ok_iff, hne, false_imp_iff,
      true_and, Option.some.injEq, forall_eq']
    constructor
    · rintro ⟨_, hn, rfl, hp, hi, hf⟩
      exact ⟨hn, hp, hi, hf⟩
    · rintro ⟨hn, hp, hi, hf⟩
      exact ⟨_, hn, rfl, hp, hi, hf⟩

theorem acceptedCapsule_nil : AcceptedCapsule H bytes [] 0 :=
  ⟨Nat.zero_le _, rfl, by simp, rfl, by simp, by simp, List.isChain_nil⟩

/-- The number of the generation read next. -/
theorem numbered_snoc {generations : List CapsuleGeneration} {g : CapsuleGeneration}
    (h : generations.map (fun g => g.generation.toNat) = List.range generations.length)
    (hfirst : generations = [] → g.generation = 0)
    (hnext : ∀ p, generations.getLast? = some p → nextGeneration p.generation = some g.generation) :
    (generations ++ [g]).map (fun g => g.generation.toNat) =
      List.range (generations ++ [g]).length := by
  rw [List.map_append, h, List.length_append, List.length_singleton, List.range_succ]
  congr 1
  simp only [List.map_cons, List.map_nil, List.cons.injEq, and_true]
  cases generations using List.reverseRecOn with
  | nil => rw [hfirst rfl]; rfl
  | append_singleton gs p =>
    have hp : p.generation.toNat = gs.length := by
      rw [List.map_append, List.length_append, List.length_singleton, List.range_succ] at h
      have := List.append_inj_right h (by simp)
      simpa using this
    have hn := hnext p (by simp)
    simp only [nextGeneration, Option.map_eq_some_iff, checkedAdd_eq_some] at hn
    obtain ⟨_, ⟨hlt, rfl⟩, hg⟩ := hn
    unfold wordBound at hlt
    rw [← hg, UInt64.toNat_ofNat_of_lt' (by unfold UInt64.size; omega), hp, List.length_append,
      List.length_singleton]

/-- One record of the walk keeps an accepted capsule. -/
theorem Follows.accepted (hlen : bytes.length ≤ isizeMax) {a b : WalkState}
    (hf : Follows H bytes limits a b) (ha : AcceptedCapsule H bytes a.1 a.2) :
    AcceptedCapsule H bytes b.1 b.2 := by
  have hle := hf.le_length
  obtain ⟨header, -, hc, hsha, hchain, rfl⟩ := hf
  obtain ⟨hfirst, hnext⟩ := chainOk_iff.1 hchain
  set g := generationOf H bytes a.2 header with hg
  have htiles : TilesFrom 0 (a.1 ++ [g]) (recordEnd a.2 header) := by
    rw [← generationOf_stop hlen hc]
    exact tilesFrom_snoc ha.tiles (generationOf_start hlen hc)
  have hidentity : ∀ x ∈ a.1, x.identity = g.identity := by
    intro x hx
    obtain ⟨p, hp⟩ := Option.isSome_iff_exists.1
      (List.getLast?_isSome.2 (List.ne_nil_of_mem hx))
    exact (ha.one_identity x hx p (List.mem_of_getLast? hp)).trans (hnext p hp).2.2.1.symm
  refine ⟨hle, htiles, ?_, ?_, ?_, ?_, ?_⟩
  · intro x hx
    rcases List.mem_append.1 hx with hx | hx
    · exact ha.recorded x hx
    · obtain rfl := List.mem_singleton.1 hx
      exact recorded_generationOf hlen hc hsha
  · exact numbered_snoc ha.numbered (fun hnil => (hfirst hnil).1) fun p hp => (hnext p hp).1
  · intro x hx y hy
    rcases List.mem_append.1 hx with hx | hx <;> rcases List.mem_append.1 hy with hy | hy
    · exact ha.one_identity x hx y hy
    · obtain rfl := List.mem_singleton.1 hy
      exact hidentity x hx
    · obtain rfl := List.mem_singleton.1 hx
      exact (hidentity y hy).symm
    · rw [List.mem_singleton.1 hx, List.mem_singleton.1 hy]
  · intro x hx
    by_cases hnil : a.1 = []
    · obtain rfl : g = x := by simpa [hnil] using hx
      exact (hfirst hnil).2
    · refine ha.first x ?_
      rwa [List.head?_append_of_ne_nil _ hnil] at hx
  · refine isChain_snoc ha.linked fun p hp => ?_
    obtain ⟨-, hoff, -, hphase⟩ := hnext p hp
    obtain ⟨hopen, hsucc⟩ := TransactionPhase.mayFollow_iff.1 hphase
    exact ⟨hoff, hopen, hsucc⟩

theorem Reaches.accepted (hlen : bytes.length ≤ isizeMax) {a b : WalkState}
    (hr : Reaches H bytes limits a b) (ha : AcceptedCapsule H bytes a.1 a.2) :
    AcceptedCapsule H bytes b.1 b.2 := by
  induction hr with
  | refl => exact ha
  | tail _ hf ih => exact hf.accepted hlen ih

/-- The phases of an accepted capsule are a run. -/
theorem AcceptedCapsule.isRun {generations : List CapsuleGeneration} {validated : ℕ}
    (h : AcceptedCapsule H bytes generations validated) :
    TransactionPhase.IsRun (generations.map fun g => g.phase) := by
  have hfirst := h.first
  have hlinked := h.linked
  clear h
  induction generations using List.reverseRecOn with
  | nil => exact TransactionPhase.isRun_nil
  | append_singleton gs g ih =>
    obtain ⟨hgs, -, hlast⟩ := List.isChain_append.1 hlinked
    have hhead : ∀ x, gs.head? = some x → x.phase = .discovered ∧ x.previousOffset = none := by
      intro x hx
      exact hfirst x (by rw [List.head?_append, hx]; rfl)
    rw [List.map_append]
    refine (ih hhead hgs).snoc ?_ ?_
    · intro hnil
      rw [List.map_eq_nil_iff] at hnil
      exact (hfirst g (by simp [hnil])).1
    · intro q hq
      rw [List.getLast?_map, Option.map_eq_some_iff] at hq
      obtain ⟨p, hp, rfl⟩ := hq
      have hlink := hlast p hp g (by simp)
      exact TransactionPhase.mayFollow_iff.2 ⟨hlink.open_phase, hlink.phase_eq⟩

/-- What the walk of either scan returns is an accepted capsule. -/
theorem accepted_of_scanImpl {torn : Bool} {view : CapsuleView} (hlen : bytes.length ≤ isizeMax)
    (h : scanCapsuleImpl H bytes limits torn = .ok view) :
    AcceptedCapsule H bytes view.generations view.validatedBytes := by
  obtain ⟨-, -, -, -, hr, -⟩ := (scanCapsuleImpl_ok_iff hlen (nil_or_magic_le_of_scan h)).1 h
  exact hr.accepted hlen acceptedCapsule_nil

theorem AcceptedCapsule.length_le {generations : List CapsuleGeneration} {validated : ℕ}
    (h : AcceptedCapsule H bytes generations validated) : generations.length ≤ 9 := by
  simpa using h.isRun.length_le

/-- **Accepted capsules.** Whatever either scan returns is an accepted capsule; it has at most nine
generations, and its newest generation is finalized only behind the whole lifecycle. -/
theorem accepted_of_scan {view : CapsuleView} (hlen : bytes.length ≤ isizeMax)
    (h : scanCapsule H bytes limits = .ok view ∨ recoverCapsule H bytes limits = .ok view) :
    AcceptedCapsule H bytes view.generations view.validatedBytes ∧ view.generations.length ≤ 9 ∧
      ∀ g, view.newest = some g → g.phase = .finalized →
        view.generations.map (fun g => g.phase) = TransactionPhase.lifecycle := by
  have hacc : AcceptedCapsule H bytes view.generations view.validatedBytes := by
    rcases h with h | h
    · exact accepted_of_scanImpl hlen h
    · exact accepted_of_scanImpl hlen h
  refine ⟨hacc, hacc.length_le, ?_⟩
  intro g hg hphase
  refine hacc.isRun.eq_lifecycle ?_
  rw [List.getLast?_map, show view.generations.getLast? = some g from hg, Option.map_some, hphase]

/-- Two records of 0 and 1 bytes. -/
theorem accepted_0_1 :
    ∃ view, scanCapsule .standard
        (layout .standard [zeroCall .discovered 0, zeroCall .reserved 1]).bytes sampleLimits =
          .ok view ∧
      AcceptedCapsule .standard
        (layout .standard [zeroCall .discovered 0, zeroCall .reserved 1]).bytes view.generations
        view.validatedBytes := by
  obtain ⟨gs, hlaid⟩ := exists_laid appendAll_0_1
  have hscan := scan_of_laid appendAll_0_1 hlaid (by decide) (by decide +kernel) (by decide +kernel)
  exact ⟨_, hscan, (accepted_of_scan hlaid.length_le (Or.inl hscan)).1⟩

end Capsule

end StarConverter
