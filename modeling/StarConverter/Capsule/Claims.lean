import StarConverter.Capsule.Scan

/-!
# What the scanner finds

`Claims` says which header claims which start, without reference to the order of the search. The
candidate search succeeds exactly when no claim overflows (`NoOverflow`), its candidates are exactly
the claims (`mem_findCandidates_iff`), and merging them succeeds exactly when no start is claimed by
two different headers (`Unambiguous`). `candidateMap_ok_iff` puts the three together.
-/

namespace StarConverter

open Base

namespace Capsule

section Defs

variable (H : Hashing)

/-- A header decodes from the 136 bytes at `position`. -/
def HeaderAt (bytes : Bytes) (position : ℕ) (header : Header) : Prop :=
  position + headerBytes ≤ bytes.length ∧
    header? H (sliceAt bytes position headerBytes) = some header

instance (bytes : Bytes) (position : ℕ) (header : Header) :
    Decidable (HeaderAt H bytes position header) := inferInstanceAs (Decidable (_ ∧ _))

/-- Where the trailing copy of a record starting at `start` lies. -/
def trailingOf (start : ℕ) (header : Header) : ℕ := start + headerBytes + header.payloadLen.toNat

/-- `header` claims `start`: one of the two copies of the record decodes to it, both copies lie
inside the buffer, and the other copy decodes to nothing else. -/
structure Claims (bytes : Bytes) (limits : CapsuleLimits) (start : ℕ) (header : Header) : Prop where
  fits : header.payloadLen.toNat ≤ limits.maxGenerationBytes
  inside : trailingOf start header + headerBytes ≤ bytes.length
  copy : HeaderAt H bytes start header ∨ HeaderAt H bytes (trailingOf start header) header
  primary : ∀ other, HeaderAt H bytes start other → other = header
  trailing : ∀ other, HeaderAt H bytes (trailingOf start header) other → other = header

/-- No start is claimed by two different headers. -/
def Unambiguous (bytes : Bytes) (limits : CapsuleLimits) : Prop :=
  ∀ start h h', Claims H bytes limits start h → Claims H bytes limits start h' → h = h'

/-- The record end of no decodable header within the generation limit overflows a word. -/
def NoOverflow (bytes : Bytes) (limits : CapsuleLimits) : Prop :=
  ∀ position h, HeaderAt H bytes position h → h.payloadLen.toNat ≤ limits.maxGenerationBytes →
    trailingOf position h < wordBound

/-- The candidate of a claim: its flags say which copies decode. -/
def claimant (bytes : Bytes) (start : ℕ) (header : Header) : Candidate :=
  ⟨start, header, decide (HeaderAt H bytes start header),
    decide (HeaderAt H bytes (trailingOf start header) header)⟩

end Defs

variable {H : Hashing} {bytes : Bytes} {limits : CapsuleLimits}

theorem HeaderAt.unique {position : ℕ} {h h' : Header} (a : HeaderAt H bytes position h)
    (b : HeaderAt H bytes position h') : h = h' :=
  Option.some.inj (a.2.symm.trans b.2)

theorem HeaderAt.magic_at {position : ℕ} {h : Header} (a : HeaderAt H bytes position h) :
    sliceAt bytes position 8 = magic := by
  have hd := (length_magic_of_decode (header?_eq_some.1 a.2)).2
  rwa [sliceAt_sliceAt (by decide)] at hd

/-- Reading one header-sized slice; the saturating end never saturates inside a buffer. -/
theorem slice?_header (hlen : bytes.length ≤ isizeMax) (position : ℕ) :
    slice? bytes position (saturatingAdd position headerBytes) =
      if position + headerBytes ≤ bytes.length then some (sliceAt bytes position headerBytes)
      else none := by
  unfold slice? saturatingAdd wordBound
  unfold isizeMax at hlen
  have h136 : headerBytes = 136 := rfl
  split_ifs with h1 h2 h2
  · rw [show min (position + headerBytes) (2 ^ 64 - 1) - position = headerBytes by omega]
  · omega
  · omega
  · rfl

theorem header?_eq_none_iff {position : ℕ} (hin : position + headerBytes ≤ bytes.length) :
    header? H (sliceAt bytes position headerBytes) = none ↔ ∀ h, ¬ HeaderAt H bytes position h := by
  constructor
  · intro hn h hat
    rw [hat.2] at hn
    cases hn
  · intro hn
    cases hc : header? H (sliceAt bytes position headerBytes) with
    | none => rfl
    | some h => exact absurd ⟨hin, hc⟩ (hn h)

/-- A copy slot holds no other header: nothing decodes there, or the same header does. -/
theorem slot_ok_iff {position : ℕ} {h : Header} (hin : position + headerBytes ≤ bytes.length) :
    (header? H (sliceAt bytes position headerBytes) = none ∨
        header? H (sliceAt bytes position headerBytes) = some h) ↔
      ∀ other, HeaderAt H bytes position other → other = h := by
  constructor
  · rintro (hn | hs) other hat
    · exact absurd hat ((header?_eq_none_iff hin).1 hn other)
    · exact hat.unique ⟨hin, hs⟩
  · intro hall
    cases hc : header? H (sliceAt bytes position headerBytes) with
    | none => exact Or.inl rfl
    | some other => exact Or.inr (by rw [hall other ⟨hin, hc⟩])

theorem decide_slot {position : ℕ} {h : Header} (hin : position + headerBytes ≤ bytes.length) :
    decide (header? H (sliceAt bytes position headerBytes) = some h) =
      decide (HeaderAt H bytes position h) := by
  simp [HeaderAt, hin]

/-! ## The candidates at one position -/

open scoped Classical in
/-- The leading claim of the header at `start`. -/
theorem candidateAsPrimary_eq (hlen : bytes.length ≤ isizeMax) {start : ℕ} {h : Header}
    (hat : HeaderAt H bytes start h) (hfit : h.payloadLen.toNat ≤ limits.maxGenerationBytes) :
    candidateAsPrimary H bytes start h h.payloadLen.toNat =
      if trailingOf start h < wordBound then
        .ok (if Claims H bytes limits start h then some (claimant H bytes start h) else none)
      else .error .arithmeticOverflow := by
  have hwb : start + headerBytes < wordBound := by
    have := hat.1; unfold isizeMax at hlen; unfold wordBound; omega
  have hclaim : Claims H bytes limits start h ↔ trailingOf start h + headerBytes ≤ bytes.length ∧
      ∀ other, HeaderAt H bytes (trailingOf start h) other → other = h :=
    ⟨fun c => ⟨c.inside, c.trailing⟩, fun c =>
      ⟨hfit, c.1, Or.inl hat, fun _ ho => ho.unique hat, c.2⟩⟩
  rw [candidateAsPrimary, checkedAdd_of_lt hwb, orErr_some, ok_bind]
  by_cases hlt : trailingOf start h < wordBound
  · rw [if_pos hlt, show checkedAdd (start + headerBytes) h.payloadLen.toNat =
      some (trailingOf start h) from checkedAdd_of_lt hlt, orErr_some, ok_bind, slice?_header hlen]
    by_cases hin : trailingOf start h + headerBytes ≤ bytes.length
    · rw [if_pos hin]
      dsimp only
      by_cases hslot : ∀ other, HeaderAt H bytes (trailingOf start h) other → other = h
      · rw [if_pos ((slot_ok_iff hin).2 hslot), if_pos (hclaim.2 ⟨hin, hslot⟩), decide_slot hin]
        simp only [claimant, hat, decide_true, pure_eq_ok]
      · rw [if_neg (fun hc => hslot ((slot_ok_iff hin).1 hc)), if_neg (fun hc => hslot hc.trailing)]
        rfl
    · rw [if_neg hin, if_neg (fun hc => hin hc.inside)]
      rfl
  · have hnone : checkedAdd (start + headerBytes) h.payloadLen.toNat = none := if_neg hlt
    rw [if_neg hlt, hnone]
    rfl

/-- The trailing claim of the header at `trailing`. -/
theorem candidateAsTrailing_eq_some_iff (hlen : bytes.length ≤ isizeMax) {trailing : ℕ} {h : Header}
    (hat : HeaderAt H bytes trailing h) (hfit : h.payloadLen.toNat ≤ limits.maxGenerationBytes)
    {c : Candidate} :
    candidateAsTrailing H bytes trailing h h.payloadLen.toNat = some c ↔
      ∃ start, trailing = trailingOf start h ∧ Claims H bytes limits start h ∧
        c = claimant H bytes start h := by
  have hin := hat.1
  have h136 : headerBytes = 136 := rfl
  have hbound : bytes.length < 2 ^ 63 := by unfold isizeMax at hlen; omega
  have hsat : ∀ start, (saturatingAdd headerBytes h.payloadLen.toNat ≤ trailing ∧
      trailing - saturatingAdd headerBytes h.payloadLen.toNat = start) ↔
      trailing = trailingOf start h := by
    intro start
    unfold saturatingAdd wordBound trailingOf
    omega
  simp only [candidateAsTrailing, Option.bind_eq_bind, Option.bind_eq_some_iff, checkedSub_eq_some,
    hsat]
  refine exists_congr fun start => and_congr_right ?_
  rintro rfl
  have hs : start + headerBytes ≤ bytes.length := by unfold trailingOf at hin; omega
  rw [slice?_header hlen, if_pos hs]
  simp only [Option.some.injEq, exists_eq_left']
  have hclaim : Claims H bytes limits start h ↔
      ∀ other, HeaderAt H bytes start other → other = h :=
    ⟨fun c => c.primary, fun c => ⟨hfit, hin, Or.inr hat, c, fun _ ho => ho.unique hat⟩⟩
  by_cases hslot : ∀ other, HeaderAt H bytes start other → other = h
  · rw [if_pos ((slot_ok_iff hs).2 hslot), Option.some.injEq, decide_slot hs]
    simp only [hclaim.2 hslot, true_and, claimant, hat, decide_true]
    exact eq_comm
  · rw [if_neg (fun hc => hslot ((slot_ok_iff hs).1 hc))]
    simp only [reduceCtorEq, false_iff]
    exact fun hc => hslot hc.1.primary

/-- The claims made by a header found at `position`. -/
def ClaimedFrom (H : Hashing) (bytes : Bytes) (limits : CapsuleLimits) (position : ℕ)
    (c : Candidate) : Prop :=
  ∃ start h, HeaderAt H bytes position h ∧ (position = start ∨ position = trailingOf start h) ∧
    Claims H bytes limits start h ∧ c = claimant H bytes start h

/-- A position where no header within the limits decodes has no candidates. -/
theorem candidatesAt_of_no_header (hlen : bytes.length ≤ isizeMax) {position : ℕ}
    (hpos : position + 8 ≤ bytes.length)
    (hno : ∀ h, HeaderAt H bytes position h → limits.maxGenerationBytes < h.payloadLen.toNat) :
    candidatesAt H bytes limits position = .ok [] := by
  have hslice : slice? bytes position (position + magic.length) = some (sliceAt bytes position 8) := by
    rw [slice?_eq_some, show magic.length = 8 from rfl]
    exact ⟨⟨by omega, hpos⟩, by rw [Nat.add_sub_cancel_left]⟩
  rw [candidatesAt, hslice, orErr_some, ok_bind, slice?_header hlen]
  split_ifs with hmag hin
  · rfl
  · cases hh : header? H (sliceAt bytes position headerBytes) with
    | none => simp [hh]
    | some h => simp [hh, hno h ⟨hin, hh⟩]
  · rfl

/-- A position where a header within the limits decodes has its leading and trailing claims. -/
theorem candidatesAt_of_header (hlen : bytes.length ≤ isizeMax) {position : ℕ} {h : Header}
    (hat : HeaderAt H bytes position h) (hfit : h.payloadLen.toNat ≤ limits.maxGenerationBytes) :
    candidatesAt H bytes limits position = (do
      let primary ← candidateAsPrimary H bytes position h h.payloadLen.toNat
      pure (primary.toList ++
        (candidateAsTrailing H bytes position h h.payloadLen.toNat).toList)) := by
  have hin := hat.1
  have h136 : headerBytes = 136 := rfl
  have hslice : slice? bytes position (position + magic.length) = some (sliceAt bytes position 8) := by
    rw [slice?_eq_some, show magic.length = 8 from rfl]
    exact ⟨⟨by omega, by omega⟩, by rw [Nat.add_sub_cancel_left]⟩
  rw [candidatesAt, hslice, orErr_some, ok_bind, slice?_header hlen, if_pos hin]
  simp only [hat.magic_at, ne_eq, not_true_eq_false, if_false, hat.2]
  rw [if_neg (by omega)]

/-- Searching one position succeeds exactly when its record end fits a word. -/
theorem candidatesAt_ok_iff (hlen : bytes.length ≤ isizeMax) {position : ℕ}
    (hpos : position + 8 ≤ bytes.length) :
    (∃ r, candidatesAt H bytes limits position = .ok r) ↔
      ∀ h, HeaderAt H bytes position h → h.payloadLen.toNat ≤ limits.maxGenerationBytes →
        trailingOf position h < wordBound := by
  by_cases hex : ∃ h, HeaderAt H bytes position h ∧ h.payloadLen.toNat ≤ limits.maxGenerationBytes
  · obtain ⟨h, hat, hfit⟩ := hex
    rw [candidatesAt_of_header hlen hat hfit, candidateAsPrimary_eq hlen hat hfit]
    by_cases hlt : trailingOf position h < wordBound
    · rw [if_pos hlt]
      exact ⟨fun _ h' hat' _ => by rwa [hat'.unique hat], fun _ => ⟨_, rfl⟩⟩
    · rw [if_neg hlt]
      constructor
      · rintro ⟨r, hr⟩
        cases hr
      · exact fun hall => absurd (hall h hat hfit) hlt
  · have hno : ∀ h, HeaderAt H bytes position h →
        limits.maxGenerationBytes < h.payloadLen.toNat := fun h hat => by
      by_contra hle
      exact hex ⟨h, hat, by omega⟩
    rw [candidatesAt_of_no_header hlen hpos hno]
    exact ⟨fun _ h hat hfit => absurd ⟨h, hat, hfit⟩ hex, fun _ => ⟨_, rfl⟩⟩

/-- The candidates at a position are exactly the claims made from it. -/
theorem mem_candidatesAt_iff (hlen : bytes.length ≤ isizeMax) {position : ℕ}
    (hpos : position + 8 ≤ bytes.length) {r : List Candidate}
    (hr : candidatesAt H bytes limits position = .ok r) (c : Candidate) :
    c ∈ r ↔ ClaimedFrom H bytes limits position c := by
  classical
  by_cases hex : ∃ h, HeaderAt H bytes position h ∧ h.payloadLen.toNat ≤ limits.maxGenerationBytes
  · obtain ⟨h, hat, hfit⟩ := hex
    rw [candidatesAt_of_header hlen hat hfit, candidateAsPrimary_eq hlen hat hfit] at hr
    split_ifs at hr with hlt hc
    · obtain rfl := Except.ok.inj hr
      simp only [Option.toList_some, List.mem_append, List.mem_singleton, Option.mem_toList,
        candidateAsTrailing_eq_some_iff hlen hat hfit]
      constructor
      · rintro (rfl | ⟨start, hs, hc', rfl⟩)
        · exact ⟨position, h, hat, Or.inl rfl, hc, rfl⟩
        · exact ⟨start, h, hat, Or.inr hs, hc', rfl⟩
      · rintro ⟨start, h', hat', hs, hc', rfl⟩
        obtain rfl := hat'.unique hat
        rcases hs with rfl | hs
        · exact Or.inl rfl
        · exact Or.inr ⟨start, hs, hc', rfl⟩
    · obtain rfl := Except.ok.inj hr
      simp only [Option.toList_none, List.nil_append, Option.mem_toList,
        candidateAsTrailing_eq_some_iff hlen hat hfit]
      constructor
      · rintro ⟨start, hs, hc', rfl⟩
        exact ⟨start, h, hat, Or.inr hs, hc', rfl⟩
      · rintro ⟨start, h', hat', hs, hc', rfl⟩
        obtain rfl := hat'.unique hat
        rcases hs with rfl | hs
        · exact absurd hc' hc
        · exact ⟨start, hs, hc', rfl⟩
    · cases hr
  · have hno : ∀ h, HeaderAt H bytes position h →
        limits.maxGenerationBytes < h.payloadLen.toNat := fun h hat => by
      by_contra hle
      exact hex ⟨h, hat, by omega⟩
    rw [candidatesAt_of_no_header hlen hpos hno] at hr
    obtain rfl := Except.ok.inj hr
    simp only [List.not_mem_nil, false_iff]
    rintro ⟨_, h, hat, -, hc, -⟩
    exact hex ⟨h, hat, hc.fits⟩

/-! ## The whole search -/

theorem collectCandidates_ok_iff {positions : List ℕ} :
    (∃ r, collectCandidates H bytes limits positions = .ok r) ↔
      ∀ p ∈ positions, ∃ r, candidatesAt H bytes limits p = .ok r := by
  induction positions with
  | nil => simp [collectCandidates]
  | cons p rest ih =>
    simp only [collectCandidates, bind_ok_iff, pure_eq_ok, List.forall_mem_cons, ← ih]
    constructor
    · rintro ⟨_, here, hh, more, hm, -⟩
      exact ⟨⟨here, hh⟩, more, hm⟩
    · rintro ⟨⟨here, hh⟩, more, hm⟩
      exact ⟨_, here, hh, more, hm, rfl⟩

theorem mem_collectCandidates {positions : List ℕ} {r : List Candidate}
    (hr : collectCandidates H bytes limits positions = .ok r) (c : Candidate) :
    c ∈ r ↔ ∃ p ∈ positions, ∃ here, candidatesAt H bytes limits p = .ok here ∧ c ∈ here := by
  induction positions generalizing r with
  | nil =>
    obtain rfl := Except.ok.inj hr
    simp
  | cons p rest ih =>
    simp only [collectCandidates, bind_ok_iff, pure_eq_ok, Except.ok.injEq] at hr
    obtain ⟨here, hh, more, hm, rfl⟩ := hr
    simp [ih hm, hh]

variable (hlen : bytes.length ≤ isizeMax) (h8 : 8 ≤ bytes.length)

include h8 in
theorem position_mem_iff {p : ℕ} :
    p ∈ List.range (bytes.length - magic.length + 1) ↔ p + 8 ≤ bytes.length := by
  rw [List.mem_range, show magic.length = 8 from rfl]
  omega

include hlen h8

/-- The search succeeds exactly when no claimed record end overflows. -/
theorem findCandidates_ok_iff :
    (∃ r, findCandidates H bytes limits = .ok r) ↔ NoOverflow H bytes limits := by
  rw [findCandidates, collectCandidates_ok_iff]
  constructor
  · intro hall position h hat hfit
    have hpos : position + 8 ≤ bytes.length := by
      have := hat.1; rw [show headerBytes = 136 from rfl] at this; omega
    exact (candidatesAt_ok_iff hlen hpos).1 (hall position ((position_mem_iff h8).2 hpos)) h hat hfit
  · intro hno position hp
    exact (candidatesAt_ok_iff hlen ((position_mem_iff h8).1 hp)).2 (hno position)

/-- The candidates found are exactly the claims. -/
theorem mem_findCandidates_iff {r : List Candidate} (hr : findCandidates H bytes limits = .ok r)
    (c : Candidate) :
    c ∈ r ↔ ∃ start h, Claims H bytes limits start h ∧ c = claimant H bytes start h := by
  rw [mem_collectCandidates hr]
  have h136 : headerBytes = 136 := rfl
  constructor
  · rintro ⟨p, hp, here, hhere, hc⟩
    obtain ⟨start, h, -, -, hcl, rfl⟩ :=
      (mem_candidatesAt_iff hlen ((position_mem_iff h8).1 hp) hhere c).1 hc
    exact ⟨start, h, hcl, rfl⟩
  · rintro ⟨start, h, hcl, rfl⟩
    obtain ⟨p, hat, hp⟩ : ∃ p, HeaderAt H bytes p h ∧ (p = start ∨ p = trailingOf start h) := by
      rcases hcl.copy with hat | hat
      · exact ⟨_, hat, Or.inl rfl⟩
      · exact ⟨_, hat, Or.inr rfl⟩
    have hpos : p + 8 ≤ bytes.length := by have := hat.1; omega
    have hmem := (position_mem_iff h8).2 hpos
    obtain ⟨here, hhere⟩ := collectCandidates_ok_iff.1 ⟨r, hr⟩ p hmem
    exact ⟨p, hmem, here, hhere,
      (mem_candidatesAt_iff hlen hpos hhere _).2 ⟨start, h, hat, hp, hcl, rfl⟩⟩

omit hlen h8

/-! ## Merging by start -/

section Merge

variable {mk : ℕ → Header → Candidate}

/-- Every candidate of the map is filed under its start and determined by its header. -/
def Filed (mk : ℕ → Header → Candidate) (m : CandidateMap) : Prop :=
  ∀ s c, m s = some c → c.start = s ∧ c = mk s c.header

theorem filed_update {m : CandidateMap} (hm : Filed mk m) {c : Candidate}
    (hc : c = mk c.start c.header) : Filed mk (Function.update m c.start (some c)) := by
  intro s d hd
  by_cases hs : s = c.start
  · subst hs
    rw [Function.update_self] at hd
    obtain rfl := Option.some.inj hd
    exact ⟨rfl, hc⟩
  · rw [Function.update_of_ne hs] at hd
    exact hm s d hd

/-- Merging a candidate that is already filed changes nothing. -/
theorem mergeCandidates_cons_some {m : CandidateMap} {c : Candidate} {rest : List Candidate}
    (hold : m c.start = some c) : mergeCandidates m (c :: rest) = mergeCandidates m rest := by
  rw [mergeCandidates, hold]
  simp only [if_true, Bool.or_self]
  congr 1
  funext s
  by_cases hs : s = c.start
  · subst hs; rw [Function.update_self, hold]
  · rw [Function.update_of_ne hs]

/-- Merging succeeds exactly when candidates with one start are equal, and then every candidate is
filed under its start. -/
theorem mergeCandidates_ok_iff {m : CandidateMap} (hm : Filed mk m) {cs : List Candidate}
    (hcs : ∀ c ∈ cs, c = mk c.start c.header) {m' : CandidateMap} :
    mergeCandidates m cs = .ok m' ↔
      (∀ c ∈ cs, ∀ d, m c.start = some d → d = c) ∧
        (∀ c ∈ cs, ∀ d ∈ cs, c.start = d.start → c = d) ∧
        ∀ s c, m' s = some c ↔ m s = some c ∨ (c ∈ cs ∧ c.start = s) := by
  induction cs generalizing m with
  | nil =>
    simp only [mergeCandidates, pure_eq_ok, Except.ok.injEq, List.not_mem_nil, false_and, or_false,
      false_imp_iff, implies_true, true_and]
    constructor
    · rintro rfl; intros; rfl
    · intro h
      funext s
      exact (Option.ext fun c => by simpa using (h s c).symm)
  | cons c rest ih =>
    have hc := hcs c (by simp)
    have hrest : ∀ d ∈ rest, d = mk d.start d.header := fun d hd => hcs d (by simp [hd])
    cases hold : m c.start with
    | none =>
      rw [mergeCandidates, hold]
      dsimp only
      rw [ih (filed_update hm hc) hrest]
      have hupd : ∀ s d, Function.update m c.start (some c) s = some d ↔
          m s = some d ∨ (d = c ∧ c.start = s) := by
        intro s d
        by_cases hs : s = c.start
        · subst hs; simp [hold, eq_comm]
        · rw [Function.update_of_ne hs]
          exact ⟨Or.inl, fun h => h.resolve_right fun h' => hs h'.2.symm⟩
      simp only [List.mem_cons, forall_eq_or_imp, hupd, hold]
      constructor
      · rintro ⟨h1, h2, h3⟩
        refine ⟨⟨by simp, fun d hd e he => h1 d hd e (Or.inl he)⟩, ⟨⟨fun _ => trivial, ?_⟩, ?_⟩, ?_⟩
        · intro d hd hs
          exact h1 d hd c (Or.inr ⟨rfl, hs⟩)
        · exact fun d hd => ⟨fun hs => (h1 d hd c (Or.inr ⟨rfl, hs.symm⟩)).symm, h2 d hd⟩
        · intro s d
          rw [h3]
          constructor
          · rintro ((h | ⟨rfl, h⟩) | ⟨h, h'⟩)
            · exact Or.inl h
            · exact Or.inr ⟨Or.inl rfl, h⟩
            · exact Or.inr ⟨Or.inr h, h'⟩
          · rintro (h | ⟨rfl | h, h'⟩)
            · exact Or.inl (Or.inl h)
            · exact Or.inl (Or.inr ⟨rfl, h'⟩)
            · exact Or.inr ⟨h, h'⟩
      · rintro ⟨⟨-, h1⟩, ⟨⟨-, hc1⟩, h2⟩, h3⟩
        refine ⟨?_, fun d hd => (h2 d hd).2, ?_⟩
        · rintro d hd e (he | ⟨rfl, hs⟩)
          · exact h1 d hd e he
          · exact hc1 d hd hs
        · intro s d
          rw [h3]
          constructor
          · rintro (h | ⟨rfl | h, h'⟩)
            · exact Or.inl (Or.inl h)
            · exact Or.inl (Or.inr ⟨rfl, h'⟩)
            · exact Or.inr ⟨h, h'⟩
          · rintro ((h | ⟨rfl, h⟩) | ⟨h, h'⟩)
            · exact Or.inl h
            · exact Or.inr ⟨Or.inl rfl, h⟩
            · exact Or.inr ⟨Or.inr h, h'⟩
    | some e =>
      have he := hm c.start e hold
      by_cases heq : e.header = c.header
      · have hec : e = c := by rw [he.2, hc, heq]; simp [← hc]
        subst hec
        rw [mergeCandidates_cons_some hold, ih hm hrest]
        simp only [List.mem_cons, forall_eq_or_imp, hold, Option.some.injEq]
        constructor
        · rintro ⟨h1, h2, h3⟩
          refine ⟨⟨fun _ h => h.symm, h1⟩, ⟨⟨fun _ => trivial, ?_⟩, ?_⟩, ?_⟩
          · intro d hd hs
            exact h1 d hd e (hs ▸ hold)
          · exact fun d hd => ⟨fun hs => (h1 d hd e (hs.symm ▸ hold)).symm, h2 d hd⟩
          · intro s d
            rw [h3]
            constructor
            · rintro (h | ⟨h, h'⟩)
              · exact Or.inl h
              · exact Or.inr ⟨Or.inr h, h'⟩
            · rintro (h | ⟨rfl | h, h'⟩)
              · exact Or.inl h
              · exact Or.inl (h' ▸ hold)
              · exact Or.inr ⟨h, h'⟩
        · rintro ⟨⟨-, h1⟩, ⟨⟨-, -⟩, h2⟩, h3⟩
          refine ⟨h1, fun d hd => (h2 d hd).2, ?_⟩
          intro s d
          rw [h3]
          constructor
          · rintro (h | ⟨rfl | h, h'⟩)
            · exact Or.inl h
            · exact Or.inl (h' ▸ hold)
            · exact Or.inr ⟨h, h'⟩
          · rintro (h | ⟨h, h'⟩)
            · exact Or.inl h
            · exact Or.inr ⟨Or.inr h, h'⟩
      · rw [mergeCandidates, hold]
        simp only [heq, if_false, reduceCtorEq, false_iff]
        rintro ⟨h1, -⟩
        exact heq (by rw [h1 c (by simp) e hold])

end Merge

/-- The map from starts to the candidates that claim them. -/
def candidateMap (H : Hashing) (bytes : Bytes) (limits : CapsuleLimits) :
    Except CapsuleError CandidateMap := do
  let candidates ← findCandidates H bytes limits
  mergeCandidates (fun _ => none) candidates

theorem claimant_injective {s s' : ℕ} {h h' : Header}
    (e : claimant H bytes s h = claimant H bytes s' h') : s = s' ∧ h = h' := by
  simp only [claimant, Candidate.mk.injEq] at e
  exact ⟨e.1, e.2.1⟩

include hlen h8 in
/-- **What the scanner finds.** The map exists exactly when no claim overflows and no start is
claimed by two different headers; it then files every claim under its start. -/
theorem candidateMap_ok_iff {m : CandidateMap} :
    candidateMap H bytes limits = .ok m ↔
      NoOverflow H bytes limits ∧ Unambiguous H bytes limits ∧
        ∀ s c, m s = some c ↔ ∃ h, Claims H bytes limits s h ∧ c = claimant H bytes s h := by
  rw [candidateMap, bind_ok_iff]
  have hfiled : Filed (claimant H bytes) (fun _ => none) := fun _ _ h => by cases h
  constructor
  · rintro ⟨cs, hcs, hm⟩
    have hmem := mem_findCandidates_iff hlen h8 hcs
    have hmk : ∀ c ∈ cs, c = claimant H bytes c.start c.header := by
      intro c hc
      obtain ⟨s, h, -, rfl⟩ := (hmem c).1 hc
      rfl
    obtain ⟨-, huniq, hmap⟩ := (mergeCandidates_ok_iff hfiled hmk).1 hm
    refine ⟨(findCandidates_ok_iff hlen h8).1 ⟨cs, hcs⟩, ?_, ?_⟩
    · intro s h h' hc hc'
      exact (claimant_injective (huniq _ ((hmem _).2 ⟨s, h, hc, rfl⟩) _
        ((hmem _).2 ⟨s, h', hc', rfl⟩) rfl)).2
    · intro s c
      rw [hmap]
      simp only [reduceCtorEq, false_or, hmem]
      constructor
      · rintro ⟨⟨s', h, hc, rfl⟩, rfl⟩
        exact ⟨h, hc, rfl⟩
      · rintro ⟨h, hc, rfl⟩
        exact ⟨⟨s, h, hc, rfl⟩, rfl⟩
  · rintro ⟨hno, hun, hmap⟩
    obtain ⟨cs, hcs⟩ := (findCandidates_ok_iff hlen h8).2 hno
    have hmem := mem_findCandidates_iff hlen h8 hcs
    have hmk : ∀ c ∈ cs, c = claimant H bytes c.start c.header := by
      intro c hc
      obtain ⟨s, h, -, rfl⟩ := (hmem c).1 hc
      rfl
    refine ⟨cs, hcs, (mergeCandidates_ok_iff hfiled hmk).2 ⟨by simp, ?_, ?_⟩⟩
    · intro c hc d hd hs
      obtain ⟨s, h, hcl, rfl⟩ := (hmem c).1 hc
      obtain ⟨s', h', hcl', rfl⟩ := (hmem d).1 hd
      obtain rfl : s = s' := hs
      rw [hun s h h' hcl hcl']
    · intro s c
      rw [hmap]
      simp only [reduceCtorEq, false_or, hmem]
      constructor
      · rintro ⟨h, hc, rfl⟩
        exact ⟨⟨s, h, hc, rfl⟩, rfl⟩
      · rintro ⟨⟨s', h, hc, rfl⟩, rfl⟩
        exact ⟨h, hc, rfl⟩

include hlen h8 in
/-- An unambiguous buffer has a candidate map. -/
theorem exists_candidateMap (hno : NoOverflow H bytes limits) (hun : Unambiguous H bytes limits) :
    ∃ m, candidateMap H bytes limits = .ok m := by
  classical
  let m : CandidateMap := fun s =>
    if h : ∃ h, Claims H bytes limits s h then some (claimant H bytes s h.choose) else none
  refine ⟨m, (candidateMap_ok_iff hlen h8).2 ⟨hno, hun, fun s c => ?_⟩⟩
  by_cases hex : ∃ h, Claims H bytes limits s h
  · have hm : m s = some (claimant H bytes s hex.choose) := dif_pos hex
    rw [hm, Option.some.injEq]
    constructor
    · rintro rfl
      exact ⟨_, hex.choose_spec, rfl⟩
    · rintro ⟨h, hc, rfl⟩
      rw [hun s _ _ hex.choose_spec hc]
  · have hm : m s = none := dif_neg hex
    simp only [hm, reduceCtorEq, false_iff]
    rintro ⟨h, hc, -⟩
    exact hex ⟨h, hc⟩

end Capsule

end StarConverter
