import StarConverter.Capsule.Claims

/-!
# Deciding ambiguity

The decodable headers of a buffer and the claims they make are finite lists, so `NoOverflow` and
`Unambiguous` can be evaluated.
-/

namespace StarConverter

open Base

namespace Capsule

section Defs

variable (H : Hashing)

/-- The decodable headers of `bytes` with their positions, counted from `position`. -/
def headersFrom (position : ℕ) : Bytes → List (ℕ × Header)
  | [] => []
  | b :: rest =>
    let here := if (b :: rest).take 8 = magic then header? H ((b :: rest).take headerBytes) else none
    (here.toList.map fun h => (position, h)) ++ headersFrom (position + 1) rest

def headersOf (bytes : Bytes) : List (ℕ × Header) := headersFrom H 0 bytes

/-- The starts a header at `position` can claim. -/
def startsFrom (position : ℕ) (h : Header) : List ℕ :=
  if headerBytes + h.payloadLen.toNat ≤ position then
    [position, position - (headerBytes + h.payloadLen.toNat)] else [position]

/-- The claims of a buffer. -/
def claimsOf (bytes : Bytes) (limits : CapsuleLimits) : List (ℕ × Header) :=
  (headersOf H bytes).flatMap fun x =>
    ((startsFrom x.1 x.2).filter fun start =>
      x.2.payloadLen.toNat ≤ limits.maxGenerationBytes ∧
        trailingOf start x.2 + headerBytes ≤ bytes.length ∧
        ∀ y ∈ headersOf H bytes, y.1 = start ∨ y.1 = trailingOf start x.2 → y.2 = x.2).map
      fun start => (start, x.2)

end Defs

variable {H : Hashing} {bytes : Bytes} {limits : CapsuleLimits}

theorem headerAt_zero {h : Header} :
    HeaderAt H bytes 0 h ↔ bytes.take 8 = magic ∧ header? H (bytes.take headerBytes) = some h := by
  have hs : sliceAt bytes 0 headerBytes = bytes.take headerBytes := by simp [sliceAt]
  constructor
  · intro ha
    have hm := ha.magic_at
    exact ⟨by simpa [sliceAt] using hm, hs ▸ ha.2⟩
  · rintro ⟨-, hh⟩
    have hl := (length_magic_of_decode (header?_eq_some.1 hh)).1
    rw [List.length_take] at hl
    exact ⟨by omega, hs ▸ hh⟩

theorem headerAt_succ {b : UInt8} {rest : Bytes} {k : ℕ} {h : Header} :
    HeaderAt H (b :: rest) (k + 1) h ↔ HeaderAt H rest k h := by
  simp only [HeaderAt, sliceAt, List.drop_succ_cons, List.length_cons]
  constructor
  · exact fun ha => ⟨by omega, ha.2⟩
  · exact fun ha => ⟨by omega, ha.2⟩

theorem mem_headersFrom {position q : ℕ} {h : Header} :
    (q, h) ∈ headersFrom H position bytes ↔ ∃ k, q = position + k ∧ HeaderAt H bytes k h := by
  induction bytes generalizing position with
  | nil =>
    simp only [headersFrom, List.not_mem_nil, false_iff]
    rintro ⟨k, -, hin, -⟩
    simp [headerBytes] at hin
  | cons b rest ih =>
    have hhere : ∀ x : Header, (if (b :: rest).take 8 = magic then
        header? H ((b :: rest).take headerBytes) else none) = some x ↔
          HeaderAt H (b :: rest) 0 x := by
      intro x
      rw [headerAt_zero]
      split_ifs with hm
      · exact ⟨fun h => ⟨hm, h⟩, fun h => h.2⟩
      · simp only [false_iff]
        exact fun h => hm h.1
    simp only [headersFrom, List.mem_append, List.mem_map, Option.mem_toList, hhere, ih,
      Prod.mk.injEq]
    constructor
    · rintro (⟨x, hx, rfl, rfl⟩ | ⟨k, rfl, hk⟩)
      · exact ⟨0, rfl, hx⟩
      · exact ⟨k + 1, by omega, headerAt_succ.2 hk⟩
    · rintro ⟨k, rfl, hk⟩
      cases k with
      | zero => exact Or.inl ⟨h, hk, rfl, rfl⟩
      | succ k => exact Or.inr ⟨k, by omega, headerAt_succ.1 hk⟩

theorem mem_headersOf {position : ℕ} {h : Header} :
    (position, h) ∈ headersOf H bytes ↔ HeaderAt H bytes position h := by
  simp [headersOf, mem_headersFrom]

theorem mem_startsFrom {position start : ℕ} {h : Header} :
    start ∈ startsFrom position h ↔ position = start ∨ position = trailingOf start h := by
  unfold startsFrom trailingOf
  split_ifs with hle
  · simp only [List.mem_cons, List.not_mem_nil, or_false]
    omega
  · simp only [List.mem_singleton]
    omega

theorem mem_claimsOf {start : ℕ} {h : Header} :
    (start, h) ∈ claimsOf H bytes limits ↔ Claims H bytes limits start h := by
  simp only [claimsOf, List.mem_flatMap, List.mem_map, List.mem_filter, decide_eq_true_eq,
    mem_startsFrom, Prod.exists, Prod.forall, mem_headersOf, Prod.mk.injEq]
  constructor
  · rintro ⟨p, x, hat, s, ⟨hp, hfit, hin, hslots⟩, rfl, rfl⟩
    refine ⟨hfit, hin, ?_, fun other ho => hslots _ _ ho (Or.inl rfl),
      fun other ho => hslots _ _ ho (Or.inr rfl)⟩
    rcases hp with rfl | rfl
    · exact Or.inl hat
    · exact Or.inr hat
  · intro hc
    have hslots : ∀ q other, HeaderAt H bytes q other → q = start ∨ q = trailingOf start h →
        other = h := by
      rintro q other ho (rfl | rfl)
      · exact hc.primary other ho
      · exact hc.trailing other ho
    rcases hc.copy with hat | hat
    · exact ⟨start, h, hat, start, ⟨Or.inl rfl, hc.fits, hc.inside, hslots⟩, rfl, rfl⟩
    · exact ⟨_, h, hat, start, ⟨Or.inr rfl, hc.fits, hc.inside, hslots⟩, rfl, rfl⟩

instance : Decidable (Unambiguous H bytes limits) :=
  decidable_of_iff
    (∀ x ∈ claimsOf H bytes limits, ∀ y ∈ claimsOf H bytes limits, x.1 = y.1 → x.2 = y.2)
    ⟨fun hall s h h' hc hc' => hall (s, h) (mem_claimsOf.2 hc) (s, h') (mem_claimsOf.2 hc') rfl,
      fun hun x hx y hy hs => hun x.1 x.2 y.2 (mem_claimsOf.1 hx) (mem_claimsOf.1 (hs ▸ hy))⟩

instance : Decidable (NoOverflow H bytes limits) :=
  decidable_of_iff
    (∀ x ∈ headersOf H bytes, x.2.payloadLen.toNat ≤ limits.maxGenerationBytes →
      trailingOf x.1 x.2 < wordBound)
    ⟨fun hall p h hat => hall (p, h) (mem_headersOf.2 hat),
      fun hno x hx => hno x.1 x.2 (mem_headersOf.1 hx)⟩

end Capsule

end StarConverter
