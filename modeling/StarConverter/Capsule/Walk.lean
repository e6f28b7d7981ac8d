import StarConverter.Capsule.Claims

/-!
# The walk over records

`Follows` is one record of the walk as a relation, and `Reaches` is its closure. A complete scan
succeeds exactly when the buffer is `NoOverflow` and `Unambiguous` and the walk reaches its end
(`scanCapsule_ok_iff`); a recovery scan may also stop at a torn tail (`recoverCapsule_ok`).
-/

namespace StarConverter

open Base

namespace Capsule

/-- The limits pass `validate_limits`. -/
def CapsuleLimits.Valid (limits : CapsuleLimits) : Prop :=
  limits.maxCapsuleBytes ≠ 0 ∧ limits.maxGenerationBytes ≠ 0 ∧ limits.maxGenerations ≠ 0

instance (limits : CapsuleLimits) : Decidable limits.Valid := inferInstanceAs (Decidable (_ ∧ _))

theorem validateLimits_ok_iff {limits : CapsuleLimits} {u : Unit} :
    validateLimits limits = .ok u ↔ limits.Valid := by
  simp [validateLimits, checkAll_ok_iff, CapsuleLimits.Valid]

section Defs

variable (H : Hashing)

/-- The end of the record that starts at `start`. -/
def recordEnd (start : ℕ) (header : Header) : ℕ := trailingOf start header + headerBytes

/-- The generation a claimed record is read as. -/
def generationOf (bytes : Bytes) (start : ℕ) (header : Header) : CapsuleGeneration :=
  { offset := UInt64.ofNat start
    generation := header.generation
    phase := header.phase
    previousOffset := header.previousOffset
    identity := header.identity
    payloadDigest := header.payloadDigest
    payload := sliceAt bytes (start + headerBytes) header.payloadLen.toNat
    primaryHeaderValid := decide (HeaderAt H bytes start header)
    trailingHeaderValid := decide (HeaderAt H bytes (trailingOf start header) header) }

/-- What `validate_chain` asks of a header, independent of the record's position. -/
def ChainOk (generations : List CapsuleGeneration) (header : Header) : Prop :=
  validateChain generations ⟨0, header, true, true⟩ = .ok ()

/-- The generations read so far and the offset behind them. -/
abbrev WalkState := List CapsuleGeneration × ℕ

/-- One record of the walk. -/
def Follows (bytes : Bytes) (limits : CapsuleLimits) (a b : WalkState) : Prop :=
  ∃ header, a.1.length < limits.maxGenerations ∧ Claims H bytes limits a.2 header ∧
    H.sha256 (sliceAt bytes (a.2 + headerBytes) header.payloadLen.toNat) = header.payloadDigest ∧
    ChainOk a.1 header ∧ b = (a.1 ++ [generationOf H bytes a.2 header], recordEnd a.2 header)

/-- Any number of records of the walk. -/
def Reaches (bytes : Bytes) (limits : CapsuleLimits) : WalkState → WalkState → Prop :=
  Relation.ReflTransGen (Follows H bytes limits)

end Defs

variable {H : Hashing} {bytes : Bytes} {limits : CapsuleLimits}

theorem validateChain_ok_iff {generations : List CapsuleGeneration} {c : Candidate} {u : Unit} :
    validateChain generations c = .ok u ↔ ChainOk generations c.header := Iff.rfl

theorem recordEnd_eq (start : ℕ) (header : Header) :
    recordEnd start header = start + 272 + header.payloadLen.toNat := by
  unfold recordEnd trailingOf headerBytes
  omega

theorem Follows.lt {a b : WalkState} (h : Follows H bytes limits a b) : a.2 + 272 ≤ b.2 := by
  obtain ⟨header, -, -, -, -, rfl⟩ := h
  rw [recordEnd_eq]
  omega

theorem Follows.le_length {a b : WalkState} (h : Follows H bytes limits a b) :
    b.2 ≤ bytes.length := by
  obtain ⟨header, -, hc, -, -, rfl⟩ := h
  exact hc.inside

theorem Follows.length {a b : WalkState} (h : Follows H bytes limits a b) :
    b.1.length = a.1.length + 1 := by
  obtain ⟨header, -, -, -, -, rfl⟩ := h
  simp

theorem Reaches.le {a b : WalkState} (h : Reaches H bytes limits a b) : a.2 ≤ b.2 := by
  induction h with
  | refl => exact le_rfl
  | tail _ h ih => have := h.lt; omega

theorem Reaches.le_length {a b : WalkState} (h : Reaches H bytes limits a b)
    (ha : a.2 ≤ bytes.length) : b.2 ≤ bytes.length := by
  induction h with
  | refl => exact ha
  | tail _ h _ => exact h.le_length

/-- Reading a record whose end lies inside the buffer. -/
theorem readGeneration_ok_iff (hlen : bytes.length ≤ isizeMax) {start : ℕ} {c : Candidate}
    (hin : recordEnd start c.header ≤ bytes.length) {generations : List CapsuleGeneration}
    {r : CapsuleGeneration × ℕ} :
    readGeneration H bytes generations start c = .ok r ↔
      H.sha256 (sliceAt bytes (start + headerBytes) c.header.payloadLen.toNat) =
          c.header.payloadDigest ∧
        ChainOk generations c.header ∧
        r = ({ generationOf H bytes start c.header with
          primaryHeaderValid := c.primaryValid, trailingHeaderValid := c.trailingValid },
          recordEnd start c.header) := by
  have h3 : start + headerBytes + c.header.payloadLen.toNat + headerBytes < wordBound := by
    unfold recordEnd trailingOf at hin; unfold isizeMax at hlen; unfold wordBound; omega
  have h2 : start + headerBytes + c.header.payloadLen.toNat < wordBound := by omega
  have h1 : start + headerBytes < wordBound := by omega
  simp only [readGeneration, checkedAdd_of_lt h1, checkedAdd_of_lt h2,
    checkedAdd_of_lt h3, orErr_some, ok_bind, bind_ok_iff, exists_const, ensure_ok_iff,
    validateChain_ok_iff, pure_eq_ok, Except.ok.injEq]
  constructor
  · rintro ⟨-, hsha, hchain, rfl⟩
    exact ⟨hsha, hchain, rfl⟩
  · rintro ⟨hsha, hchain, rfl⟩
    exact ⟨hin, hsha, hchain, rfl⟩

/-- Reading a claimed record. -/
theorem readGeneration_claimant (hlen : bytes.length ≤ isizeMax) {start : ℕ} {header : Header}
    (hc : Claims H bytes limits start header) {generations : List CapsuleGeneration}
    {r : CapsuleGeneration × ℕ} :
    readGeneration H bytes generations start (claimant H bytes start header) = .ok r ↔
      H.sha256 (sliceAt bytes (start + headerBytes) header.payloadLen.toNat) =
          header.payloadDigest ∧
        ChainOk generations header ∧
        r = (generationOf H bytes start header, recordEnd start header) :=
  readGeneration_ok_iff hlen (c := claimant H bytes start header) hc.inside

/-- Where a recovery scan stops: no header claims the offset and the bytes there are a torn
append. -/
def StopsTorn (H : Hashing) (bytes : Bytes) (limits : CapsuleLimits) (a : WalkState) : Prop :=
  a.2 < bytes.length ∧ a.1.length < limits.maxGenerations ∧
    (∀ header, ¬ Claims H bytes limits a.2 header) ∧
    isRecoverableTornTail H bytes a.2 a.1 limits = .ok true

section Map

variable {byStart : CandidateMap} {torn : Bool} (hlen : bytes.length ≤ isizeMax)
  (hmap : ∀ s c, byStart s = some c ↔
    ∃ h, Claims H bytes limits s h ∧ c = claimant H bytes s h)

include hlen hmap

/-- The walk takes every record that follows. -/
theorem walk_of_follows {a b : WalkState} (h : Follows H bytes limits a b) (rounds : ℕ) :
    walk H bytes limits byStart torn (rounds + 1) a.1 a.2 =
      walk H bytes limits byStart torn rounds b.1 b.2 := by
  obtain ⟨header, hmax, hc, hsha, hchain, rfl⟩ := h
  have hin : a.2 < bytes.length := by
    have := hc.inside; unfold trailingOf headerBytes at this; omega
  have hread : readGeneration H bytes a.1 a.2 (claimant H bytes a.2 header) =
      .ok (generationOf H bytes a.2 header, recordEnd a.2 header) :=
    (readGeneration_claimant hlen hc).2 ⟨hsha, hchain, rfl⟩
  rw [walk, if_pos hin, ensure_of hmax, ok_bind, (hmap _ _).2 ⟨header, hc, rfl⟩]
  dsimp only
  rw [hread, ok_bind]

/-- A walk with enough rounds follows records to the end of the buffer or to a torn tail. -/
theorem walk_ok {rounds : ℕ} {a : WalkState} {view : CapsuleView}
    (hr : bytes.length ≤ a.2 + rounds)
    (h : walk H bytes limits byStart torn rounds a.1 a.2 = .ok view) :
    Reaches H bytes limits a (view.generations, view.validatedBytes) ∧
      (bytes.length ≤ view.validatedBytes ∨
        torn = true ∧ StopsTorn H bytes limits (view.generations, view.validatedBytes)) := by
  induction rounds generalizing a with
  | zero =>
    obtain rfl := Except.ok.inj h
    exact ⟨.refl, Or.inl (by simpa using hr)⟩
  | succ rounds ih =>
    by_cases hin : a.2 < bytes.length
    · cases hcand : byStart a.2 with
      | some c =>
        obtain ⟨header, hc, rfl⟩ := (hmap _ _).1 hcand
        rw [walk, if_pos hin, hcand] at h
        simp only [bind_ok_iff, exists_const, ensure_ok_iff] at h
        obtain ⟨hmax, r, hread, h⟩ := h
        obtain ⟨hsha, hchain, rfl⟩ := (readGeneration_claimant hlen hc).1 hread
        have hf : Follows H bytes limits a
            (a.1 ++ [generationOf H bytes a.2 header], recordEnd a.2 header) :=
          ⟨header, hmax, hc, hsha, hchain, rfl⟩
        have hle := hf.lt
        obtain ⟨hreach, hend⟩ := ih (a := (_, _)) (by simp only at hle ⊢; omega) h
        exact ⟨hreach.head hf, hend⟩
      | none =>
        rw [walk, if_pos hin, hcand] at h
        simp only [bind_ok_iff, exists_const, ensure_ok_iff] at h
        obtain ⟨hmax, h⟩ := h
        have hno : ∀ header, ¬ Claims H bytes limits a.2 header := fun header hc => by
          rw [(hmap _ _).2 ⟨header, hc, rfl⟩] at hcand
          cases hcand
        split_ifs at h with ht
        simp only [bind_ok_iff] at h
        obtain ⟨b, htorn, h⟩ := h
        split_ifs at h with hb
        obtain rfl := Except.ok.inj h
        subst hb
        exact ⟨.refl, Or.inr ⟨ht, hin, hmax, hno, htorn⟩⟩
    · rw [walk, if_neg hin] at h
      obtain rfl := Except.ok.inj h
      exact ⟨.refl, Or.inl (by simpa using hin)⟩

/-- The walk returns the state it reaches when that state is at the end of the buffer or, for a
recovery scan, at a torn tail. -/
theorem walk_of_reaches {a b : WalkState} (h : Reaches H bytes limits a b)
    (hb : bytes.length ≤ b.2 ∨ torn = true ∧ StopsTorn H bytes limits b) {rounds : ℕ}
    (hr : bytes.length ≤ a.2 + rounds) :
    walk H bytes limits byStart torn rounds a.1 a.2 = .ok ⟨b.1, b.2⟩ := by
  induction h using Relation.ReflTransGen.head_induction_on generalizing rounds with
  | refl =>
    rcases hb with hb | ⟨ht, hin, hmax, hno, htorn⟩
    · cases rounds with
      | zero => rfl
      | succ rounds => rw [walk, if_neg (by omega)]; rfl
    · cases rounds with
      | zero => rfl
      | succ rounds =>
        have hnone : byStart b.2 = none := by
          cases hcand : byStart b.2 with
          | none => rfl
          | some c =>
            obtain ⟨header, hc, -⟩ := (hmap _ _).1 hcand
            exact absurd hc (hno header)
        rw [walk, if_pos hin, ensure_of hmax, ok_bind, hnone]
        dsimp only
        rw [if_pos ht, htorn, ok_bind, if_pos rfl]
        rfl
  | head hf hrest ih =>
    have hlt := hf.lt
    have hle := hf.le_length
    obtain ⟨rounds, rfl⟩ : ∃ n, rounds = n + 1 := ⟨rounds - 1, by omega⟩
    rw [walk_of_follows hlen hmap hf]
    exact ih (by omega)

end Map

/-- The search reads the magic at offset zero, so a shorter buffer is not accepted unless empty. -/
theorem nil_or_magic_le_of_scan {torn : Bool} {view : CapsuleView}
    (h : scanCapsuleImpl H bytes limits torn = .ok view) : bytes = [] ∨ 8 ≤ bytes.length := by
  by_cases hnil : bytes = []
  · exact Or.inl hnil
  · rw [scanCapsuleImpl] at h
    simp only [bind_ok_iff, exists_const, ensure_ok_iff, validateLimits_ok_iff, if_neg hnil] at h
    obtain ⟨-, -, cs, hcs, -⟩ := h
    have hmem : 0 ∈ List.range (bytes.length - magic.length + 1) := by simp
    obtain ⟨r, hr⟩ := collectCandidates_ok_iff.1 ⟨cs, hcs⟩ 0 hmem
    simp only [candidatesAt, bind_ok_iff, orErr_ok_iff, slice?_eq_some] at hr
    obtain ⟨_, ⟨⟨-, hle⟩, -⟩, -⟩ := hr
    rw [show magic.length = 8 from rfl] at hle
    exact Or.inr (by omega)

variable (hlen : bytes.length ≤ isizeMax)

theorem noOverflow_of_lt (h : bytes.length < headerBytes) : NoOverflow H bytes limits :=
  fun _ _ hat _ => by have := hat.1; omega

theorem unambiguous_of_lt (h : bytes.length < headerBytes) : Unambiguous H bytes limits :=
  fun _ _ _ hc _ => by have := hc.inside; omega

include hlen

/-- Both scans: the search and merge must succeed, and the walk must reach the end of the buffer or,
for a recovery scan, a torn tail. -/
theorem scanCapsuleImpl_ok_iff {torn : Bool} (h8 : bytes = [] ∨ 8 ≤ bytes.length)
    {view : CapsuleView} :
    scanCapsuleImpl H bytes limits torn = .ok view ↔
      limits.Valid ∧ bytes.length ≤ limits.maxCapsuleBytes ∧ NoOverflow H bytes limits ∧
        Unambiguous H bytes limits ∧
        Reaches H bytes limits ([], 0) (view.generations, view.validatedBytes) ∧
        (view.validatedBytes = bytes.length ∨
          torn = true ∧ StopsTorn H bytes limits (view.generations, view.validatedBytes)) := by
  rw [scanCapsuleImpl]
  simp only [bind_ok_iff, exists_const, ensure_ok_iff, validateLimits_ok_iff]
  refine and_congr_right fun _ => and_congr_right fun _ => ?_
  by_cases hnil : bytes = []
  · subst hnil
    simp only [if_true, pure_eq_ok, Except.ok.injEq]
    constructor
    · rintro rfl
      exact ⟨noOverflow_of_lt (by decide), unambiguous_of_lt (by decide), .refl, Or.inl rfl⟩
    · rintro ⟨-, -, hreach, -⟩
      have hle := hreach.le_length (by simp)
      rcases Relation.ReflTransGen.cases_head hreach with heq | ⟨c, hf, -⟩
      · simp only [Prod.mk.injEq] at heq
        cases view
        simp only [CapsuleView.mk.injEq]
        exact heq
      · have h1 := hf.lt
        have h2 := hf.le_length
        simp at h2 h1
        omega
  · have h8 : 8 ≤ bytes.length := h8.resolve_left hnil
    rw [if_neg hnil]
    simp only [bind_ok_iff, exists_const, ensure_ok_iff, pure_eq_ok, Except.ok.injEq]
    constructor
    · rintro ⟨cs, hcs, m, hm, v, hwalk, hend, rfl⟩
      have hcm : candidateMap H bytes limits = .ok m := by
        rw [candidateMap, bind_ok_iff]; exact ⟨cs, hcs, hm⟩
      obtain ⟨hno, hun, hmap⟩ := (candidateMap_ok_iff hlen h8).1 hcm
      obtain ⟨hreach, hstop⟩ := walk_ok (a := ([], 0)) hlen hmap (by simp) hwalk
      have hle := hreach.le_length (Nat.zero_le _)
      exact ⟨hno, hun, hreach, hstop.imp_left fun h => le_antisymm hle h⟩
    · rintro ⟨hno, hun, hreach, hend⟩
      obtain ⟨m, hcm⟩ := exists_candidateMap hlen h8 hno hun
      obtain ⟨-, -, hmap⟩ := (candidateMap_ok_iff hlen h8).1 hcm
      rw [candidateMap, bind_ok_iff] at hcm
      obtain ⟨cs, hcs, hm⟩ := hcm
      refine ⟨cs, hcs, m, hm, view, ?_, ?_, rfl⟩
      · exact walk_of_reaches (a := ([], 0)) hlen hmap hreach (hend.imp_left fun h => h.ge)
          (by simp)
      · exact hend.symm.imp_left fun h => h.1

/-- **Complete scan.** -/
theorem scanCapsule_ok_iff {view : CapsuleView} :
    scanCapsule H bytes limits = .ok view ↔
      limits.Valid ∧ bytes.length ≤ limits.maxCapsuleBytes ∧ NoOverflow H bytes limits ∧
        Unambiguous H bytes limits ∧
        Reaches H bytes limits ([], 0) (view.generations, bytes.length) ∧
        view.validatedBytes = bytes.length := by
  by_cases h8 : bytes = [] ∨ 8 ≤ bytes.length
  · rw [scanCapsule, scanCapsuleImpl_ok_iff hlen h8]
    simp only [Bool.false_eq_true, false_and, or_false]
    constructor
    · rintro ⟨hv, hm, hno, hun, hr, he⟩
      exact ⟨hv, hm, hno, hun, he ▸ hr, he⟩
    · rintro ⟨hv, hm, hno, hun, hr, he⟩
      exact ⟨hv, hm, hno, hun, he.symm ▸ hr, he⟩
  · constructor
    · exact fun h => absurd (nil_or_magic_le_of_scan h) h8
    · rw [not_or, not_le] at h8
      obtain ⟨hnil, hlt⟩ := h8
      have hpos : 0 < bytes.length := List.length_pos_iff.2 hnil
      rintro ⟨-, -, -, -, hr, -⟩
      rcases Relation.ReflTransGen.cases_head hr with heq | ⟨c, hf, -⟩
      · simp only [Prod.mk.injEq] at heq
        omega
      · have h1 := hf.lt
        have h2 := hf.le_length
        omega

/-- The scanned generations end where the walk ends, so a scan is determined by its generations. -/
theorem view_eq_of_scan {view : CapsuleView} (h : scanCapsule H bytes limits = .ok view) :
    view = ⟨view.generations, bytes.length⟩ := by
  obtain ⟨-, -, -, -, -, he⟩ := (scanCapsule_ok_iff hlen).1 h
  rw [← he]

end Capsule

end StarConverter
