import StarConverter.Capsule.Accepted

/-!
# Cutting a capsule

A prefix of a buffer claims exactly the starts whose records it holds completely (`claims_prefix`), so
the walk over a prefix reads the records that end inside it and no others (`reaches_front`). A strict
scan of a prefix succeeds exactly at a record boundary. A recovery scan returns the complete records
when the rest is shorter than a header or starts with a decodable one, and fails when the leading
header of the cut record is there and does not decode (`recoverCapsule_take_iff`).
-/

namespace StarConverter

open Base

namespace Capsule

variable {H : Hashing} {bytes suffix : Bytes} {limits : CapsuleLimits}

/-! ## Claims and records of a prefix -/

/-- A prefix claims exactly the records it holds completely. -/
theorem claims_prefix {start : ℕ} {h : Header} :
    Claims H bytes limits start h ↔
      Claims H (bytes ++ suffix) limits start h ∧ recordEnd start h ≤ bytes.length := by
  constructor
  · exact fun hc => ⟨hc.append suffix, hc.inside⟩
  · rintro ⟨hc, hin⟩
    have htrail : trailingOf start h + headerBytes ≤ bytes.length := hin
    have hstart : start + headerBytes ≤ bytes.length := by unfold trailingOf at htrail; omega
    refine ⟨hc.fits, htrail, ?_, ?_, ?_⟩
    · exact hc.copy.imp (headerAt_append hstart).1 (headerAt_append htrail).1
    · exact fun other ho => hc.primary other ((headerAt_append hstart).2 ho)
    · exact fun other ho => hc.trailing other ((headerAt_append htrail).2 ho)

theorem unambiguous_prefix (h : Unambiguous H (bytes ++ suffix) limits) :
    Unambiguous H bytes limits :=
  fun start _ _ hc hc' => h start _ _ (hc.append suffix) (hc'.append suffix)

theorem noOverflow_prefix (h : NoOverflow H (bytes ++ suffix) limits) :
    NoOverflow H bytes limits :=
  fun position header hat => h position header ((headerAt_append hat.1).2 hat)

theorem follows_front {a b : WalkState} :
    Follows H bytes limits a b ↔ Follows H (bytes ++ suffix) limits a b ∧ b.2 ≤ bytes.length := by
  constructor
  · exact fun hf => ⟨hf.append suffix, hf.le_length⟩
  · rintro ⟨⟨header, hmax, hc, hsha, hchain, rfl⟩, hle⟩
    have hend : recordEnd a.2 header ≤ bytes.length := hle
    have hpay : a.2 + headerBytes + header.payloadLen.toNat ≤ bytes.length := by
      unfold recordEnd trailingOf at hend; omega
    refine ⟨header, hmax, claims_prefix.2 ⟨hc, hend⟩, ?_, hchain, ?_⟩
    · rwa [sliceAt_append_left hpay] at hsha
    · rw [generationOf_append hend]

theorem reaches_front {a b : WalkState} (ha : a.2 ≤ bytes.length) :
    Reaches H bytes limits a b ↔ Reaches H (bytes ++ suffix) limits a b ∧ b.2 ≤ bytes.length := by
  constructor
  · exact fun hr => ⟨hr.append suffix, hr.le_length ha⟩
  · rintro ⟨hr, hle⟩
    induction hr with
    | refl => exact .refl
    | tail _ hf ih =>
      have hlt := hf.lt
      exact (ih (by omega)).tail (follows_front.2 ⟨hf, hle⟩)

/-! ## The records that end inside a cut -/

/-- An unambiguous buffer has one walk. -/
theorem Follows.unique (hun : Unambiguous H bytes limits) {a b b' : WalkState}
    (h : Follows H bytes limits a b) (h' : Follows H bytes limits a b') : b = b' := by
  obtain ⟨header, -, hc, -, -, rfl⟩ := h
  obtain ⟨header', -, hc', -, -, rfl⟩ := h'
  rw [hun _ _ _ hc hc']

/-- `b` is the last state before the cut `n` on the walk to `final`. -/
structure CutAt (H : Hashing) (bytes : Bytes) (limits : CapsuleLimits) (final : WalkState) (n : ℕ)
    (b : WalkState) : Prop where
  reaches : Reaches H bytes limits ([], 0) b
  le : b.2 ≤ n
  rest : b = final ∨ ∃ b', Follows H bytes limits b b' ∧ n < b'.2 ∧ Reaches H bytes limits b' final

theorem exists_cutAt {final : WalkState} (n : ℕ) (h : Reaches H bytes limits ([], 0) final) :
    ∃ b, CutAt H bytes limits final n b := by
  suffices key : ∀ a, Reaches H bytes limits a final → Reaches H bytes limits ([], 0) a → a.2 ≤ n →
      ∃ b, CutAt H bytes limits final n b from key _ h .refl (Nat.zero_le _)
  intro a hr
  induction hr using Relation.ReflTransGen.head_induction_on with
  | refl => exact fun ha hle => ⟨final, ha, hle, Or.inl rfl⟩
  | @head a c hf hrest ih =>
    intro ha hle
    by_cases hc : c.2 ≤ n
    · exact ih (ha.tail hf) hc
    · exact ⟨a, ha, hle, Or.inr ⟨c, hf, by omega, hrest⟩⟩

/-- The end of the last generation of a list. -/
def lastEnd (generations : List CapsuleGeneration) : ℕ :=
  generations.getLast?.elim 0 CapsuleGeneration.stop

theorem TilesFrom.lastEnd_eq {gs : List CapsuleGeneration} {v : ℕ} (h : TilesFrom 0 gs v) :
    lastEnd gs = v := by
  suffices key : ∀ offset, TilesFrom offset gs v →
      gs.getLast?.elim offset CapsuleGeneration.stop = v from key 0 h
  clear h
  intro offset h
  induction gs generalizing offset with
  | nil => exact h
  | cons g rest ih =>
    have := ih _ h.2
    rw [List.getLast?_cons]
    cases hr : rest.getLast? with
    | none => rw [hr] at this; exact this
    | some x => rw [hr] at this; exact this

theorem Reaches.prefix_generations {a b : WalkState} (h : Reaches H bytes limits a b) :
    a.1 <+: b.1 := by
  induction h with
  | refl => exact List.prefix_refl _
  | tail _ hf ih =>
    obtain ⟨header, -, -, -, -, rfl⟩ := hf
    exact ih.trans (List.prefix_append _ _)

section Cut

variable {final b : WalkState} {n : ℕ} (hlen : bytes.length ≤ isizeMax)
  (hun : Unambiguous H bytes limits) (hfinal : Reaches H bytes limits ([], 0) final)
  (hcut : CutAt H bytes limits final n b)

include hlen hcut in
theorem CutAt.accepted : AcceptedCapsule H bytes b.1 b.2 :=
  hcut.reaches.accepted hlen acceptedCapsule_nil

include hun hcut in
/-- Any other state before the cut from which no record before the cut follows is `b`. -/
theorem CutAt.eq_of_reaches {a : WalkState} (ha : Reaches H bytes limits ([], 0) a) (hle : a.2 ≤ n)
    (hstop : ∀ c, Follows H bytes limits a c → n < c.2) (hend : final.2 = bytes.length) : a = b := by
  have hright : Relator.RightUnique (Follows H bytes limits) :=
    fun _ _ _ h h' => h.unique hun h'
  rcases Relation.ReflTransGen.total_of_right_unique hright ha hcut.reaches with h | h
  · rcases Relation.ReflTransGen.cases_head h with heq | ⟨c, hf, hr⟩
    · exact heq
    · have h1 := hstop c hf
      have h2 := Reaches.le hr
      have h3 := hcut.le
      omega
  · rcases Relation.ReflTransGen.cases_head h with heq | ⟨c, hf, hr⟩
    · exact heq.symm
    · have h1 := Reaches.le hr
      rcases hcut.rest with rfl | ⟨c', hf', hlt, -⟩
      · have h2 := hf.lt
        have h3 := hf.le_length
        omega
      · rw [hf.unique hun hf'] at h1
        omega

include hlen hfinal hcut in
/-- The generations before the cut are those that end inside it. -/
theorem CutAt.generations_eq : b.1 = final.1.filter fun g => g.stop ≤ n := by
  have hord := (hfinal.ordered hlen).1
  have hbefore : ∀ g ∈ b.1, decide (g.stop ≤ n) = true := fun g hg => by
    have := (hcut.reaches.ordered hlen).2 g hg
    have := hcut.le
    exact decide_eq_true (by omega)
  rcases hcut.rest with rfl | ⟨b', hf, hlt, hr⟩
  · exact (List.filter_eq_self.2 hbefore).symm
  · obtain ⟨rest, hrest⟩ := hr.prefix_generations
    obtain ⟨header, -, hc, -, -, rfl⟩ := hf
    have hstop := generationOf_stop hlen hc
    rw [← hrest] at hord ⊢
    rw [List.append_assoc, List.filter_append, List.filter_eq_self.2 hbefore, List.filter_eq_nil_iff.2,
      List.append_nil]
    rw [List.append_assoc, List.pairwise_append] at hord
    obtain ⟨-, hord, -⟩ := hord
    intro g hg
    have hgt : n < g.stop := by
      rcases List.mem_cons.1 hg with rfl | hg
      · rw [hstop]; exact hlt
      · have h1 := (List.pairwise_cons.1 hord).1 g hg
        rw [hstop] at h1
        have h2 : g.start ≤ g.stop := by unfold CapsuleGeneration.stop; omega
        simp only at hlt
        omega
    simpa using hgt

end Cut

/-! ## The recovery decision -/

/-- The tail behind a cut inside a record is torn when it is shorter than a header, or when the leading
copy of the record's header decodes. -/
theorem isRecoverableTornTail_iff {offset : ℕ} {header : Header}
    {generations : List CapsuleGeneration} (hlen : (bytes ++ suffix).length ≤ isizeMax)
    (hc : Claims H (bytes ++ suffix) limits offset header) (hchain : ChainOk generations header)
    (hin : offset < bytes.length) (hcut : bytes.length < recordEnd offset header) :
    isRecoverableTornTail H bytes offset generations limits = .ok true ↔
      (offset + headerBytes ≤ bytes.length → HeaderAt H (bytes ++ suffix) offset header) := by
  have hrem : checkedSub bytes.length offset = some (bytes.length - offset) := by
    rw [checkedSub_eq_some]; exact ⟨hin.le, rfl⟩
  rw [isRecoverableTornTail, hrem, orErr_some, ok_bind, if_neg (by omega)]
  by_cases hshort : bytes.length - offset < headerBytes
  · rw [if_pos hshort]
    exact ⟨fun _ hle => absurd hle (by omega), fun _ => rfl⟩
  · rw [if_neg hshort]
    have hfit : offset + headerBytes ≤ bytes.length := by omega
    have hinside := hc.inside
    have hw : recordEnd offset header < wordBound := by
      unfold isizeMax at hlen; unfold recordEnd wordBound; omega
    unfold recordEnd trailingOf at hw hcut
    constructor
    · -- Whatever decodes at the leading position is the header of the record.
      intro h _
      simp only [bind_ok_iff] at h
      obtain ⟨other, hd, -⟩ := h
      have hat : HeaderAt H (bytes ++ suffix) offset other :=
        (headerAt_append hfit).2 ⟨hfit, header?_eq_some.2 hd⟩
      exact hc.primary other hat ▸ hat
    · intro h
      have hd : decodeHeader H (sliceAt bytes offset headerBytes) = .ok header :=
        header?_eq_some.1 ((headerAt_append hfit).1 (h hfit)).2
      rw [hd, ok_bind]
      dsimp only
      rw [ensure_of hc.fits, ok_bind, checkedAdd_of_lt (by omega), orErr_some, ok_bind,
        checkedAdd_of_lt (by omega), orErr_some, ok_bind, checkedAdd_of_lt hw, orErr_some, ok_bind,
        if_neg (by omega)]
      have hvalid : validateChain generations ⟨offset, header, true, false⟩ = .ok () := hchain
      rw [hvalid]
      rfl

/-- A cut inside a record ends the walk exactly before that record. -/
theorem stopsTorn_iff (hlen : (bytes ++ suffix).length ≤ isizeMax)
    (hun : Unambiguous H (bytes ++ suffix) limits) {a b : WalkState}
    (hf : Follows H (bytes ++ suffix) limits a b) (hin : a.2 < bytes.length)
    (hcut : bytes.length < b.2) {g : CapsuleGeneration} (hg : b.1 = a.1 ++ [g]) :
    StopsTorn H bytes limits a ↔
      (a.2 + headerBytes ≤ bytes.length → g.primaryHeaderValid = true) := by
  obtain ⟨header, hmax, hc, -, hchain, rfl⟩ := hf
  obtain rfl : generationOf H (bytes ++ suffix) a.2 header = g := by simpa using hg
  have hflag : (generationOf H (bytes ++ suffix) a.2 header).primaryHeaderValid = true ↔
      HeaderAt H (bytes ++ suffix) a.2 header := decide_eq_true_iff
  rw [hflag, ← isRecoverableTornTail_iff hlen hc hchain hin hcut]
  constructor
  · exact fun h => h.2.2.2
  · refine fun h => ⟨hin, hmax, fun other hother => ?_, h⟩
    obtain rfl := hun _ _ _ (hother.append suffix) hc
    exact absurd hother.inside (not_le.2 hcut)

/-! ## Scanning a cut capsule -/

/-- The generations of `view` that end at or before `n`. -/
def CapsuleView.endingBy (view : CapsuleView) (n : ℕ) : List CapsuleGeneration :=
  view.generations.filter fun g => g.stop ≤ n

section Scan

variable {view : CapsuleView} (hlen : (bytes ++ suffix).length ≤ isizeMax)
  (hscan : scanCapsule H (bytes ++ suffix) limits = .ok view)

include hlen hscan

/-- The last state of the walk before the cut, with what it says of the scanned generations. -/
theorem exists_cutAt_of_scan :
    ∃ b, CutAt H (bytes ++ suffix) limits (view.generations, (bytes ++ suffix).length)
        bytes.length b ∧
      b = (view.endingBy bytes.length, lastEnd (view.endingBy bytes.length)) := by
  obtain ⟨-, -, -, -, hreach, -⟩ := (scanCapsule_ok_iff hlen).1 hscan
  obtain ⟨b, hcut⟩ := exists_cutAt bytes.length hreach
  have hgens := hcut.generations_eq hlen hreach
  have hend := (hcut.accepted hlen).tiles.lastEnd_eq
  refine ⟨b, hcut, Prod.ext hgens ?_⟩
  rw [← hend, hgens]
  rfl

/-- A state where the walk over the prefix ends is the last one before the cut. -/
theorem CutAt.eq_of_prefix {a b : WalkState}
    (hcut : CutAt H (bytes ++ suffix) limits (view.generations, (bytes ++ suffix).length)
      bytes.length b) (ha : Reaches H bytes limits ([], 0) a)
    (hend : a.2 = bytes.length ∨ StopsTorn H bytes limits a) : a = b := by
  obtain ⟨-, -, -, hun, -, -⟩ := (scanCapsule_ok_iff hlen).1 hscan
  refine hcut.eq_of_reaches hun (ha.append suffix) (ha.le_length (Nat.zero_le _)) ?_ rfl
  intro c hf
  rcases hend with hend | hend
  · have := hf.lt
    omega
  · by_contra hle
    obtain ⟨header, -, hc, -⟩ := follows_front.2 ⟨hf, not_lt.1 hle⟩
    exact hend.2.2.1 header hc

/-- Scanning a prefix, strictly or for recovery. -/
theorem scanImpl_prefix_iff {torn : Bool} (h8 : 8 ≤ bytes.length) {view' : CapsuleView} :
    scanCapsuleImpl H bytes limits torn = .ok view' ↔
      Reaches H bytes limits ([], 0) (view'.generations, view'.validatedBytes) ∧
        (view'.validatedBytes = bytes.length ∨
          torn = true ∧ StopsTorn H bytes limits (view'.generations, view'.validatedBytes)) := by
  obtain ⟨hv, hmax, hno, hun, -, -⟩ := (scanCapsule_ok_iff hlen).1 hscan
  rw [List.length_append] at hmax hlen
  rw [scanCapsuleImpl_ok_iff (by omega) (Or.inr h8)]
  constructor
  · exact fun h => h.2.2.2.2
  · exact fun h => ⟨hv, by omega, noOverflow_prefix hno, unambiguous_prefix hun, h⟩

/-- A strict scan of a prefix succeeds exactly when the prefix ends with a record. -/
theorem scan_prefix_iff (h8 : 8 ≤ bytes.length) :
    (∃ view', scanCapsule H bytes limits = .ok view') ↔
      lastEnd (view.endingBy bytes.length) = bytes.length := by
  obtain ⟨b, hcut, hb⟩ := exists_cutAt_of_scan hlen hscan
  constructor
  · rintro ⟨view', h⟩
    obtain ⟨hr, hend⟩ := (scanImpl_prefix_iff hlen hscan h8).1 h
    have hend : view'.validatedBytes = bytes.length := by simpa using hend
    have heq := hcut.eq_of_prefix hlen hscan hr (Or.inl hend)
    rw [hb, Prod.mk.injEq] at heq
    rw [← heq.2, hend]
  · intro hend
    have hr := (reaches_front (Nat.zero_le _)).2 ⟨hcut.reaches, hcut.le⟩
    rw [hb, hend] at hr
    exact ⟨⟨_, _⟩, (scanImpl_prefix_iff hlen hscan h8).2 ⟨hr, Or.inl rfl⟩⟩

/-- A recovery scan of a prefix returns the generations that end inside it, if anything. -/
theorem recover_prefix_eq {view' : CapsuleView} (h : recoverCapsule H bytes limits = .ok view')
    (h8 : 8 ≤ bytes.length) :
    view' = ⟨view.endingBy bytes.length, lastEnd (view.endingBy bytes.length)⟩ := by
  obtain ⟨b, hcut, hb⟩ := exists_cutAt_of_scan hlen hscan
  obtain ⟨hr, hend⟩ := (scanImpl_prefix_iff hlen hscan h8).1 h
  have heq := hcut.eq_of_prefix hlen hscan hr (hend.imp_right And.right)
  rw [hb, Prod.mk.injEq] at heq
  cases view'
  exact CapsuleView.mk.injEq .. ▸ heq

/-- A recovery scan of a prefix succeeds exactly when the leading header of the cut record, if the
prefix holds it, decodes. -/
theorem recover_prefix_iff (h8 : 8 ≤ bytes.length) :
    recoverCapsule H bytes limits =
        .ok ⟨view.endingBy bytes.length, lastEnd (view.endingBy bytes.length)⟩ ↔
      ∀ g ∈ view.generations, g.start + headerBytes ≤ bytes.length → bytes.length < g.stop →
        g.primaryHeaderValid = true := by
  obtain ⟨-, -, -, hun, hfinal, -⟩ := (scanCapsule_ok_iff hlen).1 hscan
  obtain ⟨b, hcut, hb⟩ := exists_cutAt_of_scan hlen hscan
  have hr := (reaches_front (Nat.zero_le _)).2 ⟨hcut.reaches, hcut.le⟩
  have hbefore := (hcut.reaches.ordered hlen).2
  rw [recoverCapsule, scanImpl_prefix_iff hlen hscan h8]
  simp only [true_and]
  rw [← hb]
  simp only [hr, true_and]
  have hb2 : lastEnd (view.endingBy bytes.length) = b.2 := by rw [hb]
  rw [hb2]
  rcases hcut.rest with hfin | ⟨b', hf, hlt, hr'⟩
  · -- The cut keeps everything.
    have hle := hcut.le
    rw [List.length_append] at hlen
    refine iff_of_true (Or.inl ?_) ?_
    · rw [hfin] at hle ⊢
      simp only [List.length_append] at hle ⊢
      omega
    · intro g hg _ hgt
      have := hbefore g (by rw [hfin]; exact hg)
      omega
  · obtain ⟨rest, hrest⟩ := hr'.prefix_generations
    have hf' := hf
    obtain ⟨header, -, hc, -, -, hb'⟩ := hf'
    have hb1 : b'.1 = b.1 ++ [generationOf H (bytes ++ suffix) b.2 header] := by rw [hb']
    have hstart := generationOf_start hlen hc
    have hstop := generationOf_stop hlen hc
    rw [show recordEnd b.2 header = b'.2 by rw [hb']] at hstop
    set g := generationOf H (bytes ++ suffix) b.2 header with hgdef
    have hord := (hfinal.ordered hlen).1
    rw [← hrest, hb1, List.append_assoc, List.pairwise_append] at hord
    have hafter := (List.pairwise_cons.1 hord.2.1).1
    have hmem : ∀ x, x ∈ view.generations ↔ x ∈ b.1 ∨ x = g ∨ x ∈ rest := by
      intro x
      rw [show view.generations = b'.1 ++ rest from hrest.symm, hb1]
      simp
    -- Only the cut record itself contains the cut.
    have hiff : (∀ x ∈ view.generations, x.start + headerBytes ≤ bytes.length →
        bytes.length < x.stop → x.primaryHeaderValid = true) ↔
          (b.2 + headerBytes ≤ bytes.length → g.primaryHeaderValid = true) := by
      constructor
      · intro h hle
        exact h g ((hmem g).2 (Or.inr (Or.inl rfl))) (by rw [hstart]; exact hle)
          (by rw [hstop]; exact hlt)
      · intro h x hx hle hgt
        rcases (hmem x).1 hx with hx | rfl | hx
        · have := hbefore x hx
          have := hcut.le
          omega
        · exact h (by rw [← hstart]; exact hle)
        · have := hafter x hx
          omega
    rw [hiff]
    rcases hcut.le.eq_or_lt with heq | hin
    · refine iff_of_true (Or.inl heq) fun hle => ?_
      rw [show headerBytes = 136 from rfl] at hle
      omega
    · rw [← stopsTorn_iff hlen hun hf hin hlt hb1]
      constructor
      · exact fun h => h.resolve_left hin.ne
      · exact Or.inr

end Scan

/-- A recovery scan of the first `n` bytes. -/
theorem recover_take_iff {capsule : Bytes} {view : CapsuleView} {n : ℕ}
    (hlen : capsule.length ≤ isizeMax) (hscan : scanCapsule H capsule limits = .ok view)
    (hn : n ≤ capsule.length) (h8 : 8 ≤ n) :
    recoverCapsule H (capsule.take n) limits =
        .ok ⟨view.endingBy n, lastEnd (view.endingBy n)⟩ ↔
      ∀ g ∈ view.generations, g.start + headerBytes ≤ n → n < g.stop →
        g.primaryHeaderValid = true := by
  have htake : (capsule.take n).length = n := by rw [List.length_take]; omega
  rw [← List.take_append_drop n capsule] at hlen hscan
  have hrecover := recover_prefix_iff hlen hscan (by omega)
  rwa [htake] at hrecover

/-- `suffix` is one record behind the accepted capsule `bytes`, read as the generation `g`. -/
structure NewestRecord (H : Hashing) (limits : CapsuleLimits) (bytes suffix : Bytes)
    (generations : List CapsuleGeneration) (g : CapsuleGeneration) : Prop where
  length_le : (bytes ++ suffix).length ≤ isizeMax
  scanned : scanCapsule H bytes limits = .ok ⟨generations, bytes.length⟩
  extended : scanCapsule H (bytes ++ suffix) limits =
    .ok ⟨generations ++ [g], (bytes ++ suffix).length⟩
  start_eq : g.start = bytes.length
  stop_eq : g.stop = (bytes ++ suffix).length

/-- An accepted capsule with one generation more than an accepted prefix of it. -/
theorem exists_newestRecord {view view' : CapsuleView} (hlen : (bytes ++ suffix).length ≤ isizeMax)
    (hscan : scanCapsule H bytes limits = .ok view)
    (hscan' : scanCapsule H (bytes ++ suffix) limits = .ok view')
    (hcount : view'.generations.length = view.generations.length + 1) :
    ∃ g, NewestRecord H limits bytes suffix view.generations g := by
  have hlen' : bytes.length ≤ isizeMax := by rw [List.length_append] at hlen; omega
  obtain ⟨-, -, -, -, hreach, -⟩ := (scanCapsule_ok_iff hlen').1 hscan
  obtain ⟨-, -, -, hun, hreach', -⟩ := (scanCapsule_ok_iff hlen).1 hscan'
  have hright : Relator.RightUnique (Follows H (bytes ++ suffix) limits) :=
    fun _ _ _ h h' => h.unique hun h'
  have hfollows : Follows H (bytes ++ suffix) limits (view.generations, bytes.length)
      (view'.generations, (bytes ++ suffix).length) := by
    rcases Relation.ReflTransGen.total_of_right_unique hright (hreach.append suffix) hreach'
      with h | h
    · rcases Relation.ReflTransGen.cases_head h with heq | ⟨c, hf, hr⟩
      · rw [Prod.mk.injEq] at heq
        rw [heq.1] at hcount
        omega
      · rcases Relation.ReflTransGen.cases_head hr with rfl | ⟨d, hf', hr'⟩
        · exact hf
        · have h1 := hf.length
          have h2 := hf'.length
          have h3 := (Reaches.prefix_generations hr').length_le
          simp only at h1 h3
          omega
    · have := (Reaches.prefix_generations h).length_le
      simp only at this
      omega
  obtain ⟨header, -, hc, -, -, heq⟩ := hfollows
  rw [Prod.mk.injEq] at heq
  refine ⟨generationOf H (bytes ++ suffix) bytes.length header, hlen, ?_, ?_,
    generationOf_start hlen hc, ?_⟩
  · rw [hscan, view_eq_of_scan hlen' hscan]
  · rw [hscan', view_eq_of_scan hlen hscan', heq.1]
  · rw [generationOf_stop hlen hc, heq.2]

namespace NewestRecord

variable {generations : List CapsuleGeneration} {g : CapsuleGeneration}
  (h : NewestRecord H limits bytes suffix generations g) (hne : bytes ≠ []) {k : ℕ}
  (hk : k < suffix.length)

include h

theorem length_le' : bytes.length ≤ isizeMax := by
  have := h.length_le
  rw [List.length_append] at this
  omega

theorem stop_le {x : CapsuleGeneration} (hx : x ∈ generations) : x.stop ≤ bytes.length := by
  obtain ⟨-, -, -, -, hreach, -⟩ := (scanCapsule_ok_iff h.length_le').1 h.scanned
  exact (hreach.ordered h.length_le').2 x hx

theorem lastEnd_eq : lastEnd generations = bytes.length := by
  obtain ⟨-, -, -, -, hreach, -⟩ := (scanCapsule_ok_iff h.length_le').1 h.scanned
  exact (hreach.accepted h.length_le' acceptedCapsule_nil).tiles.lastEnd_eq

omit h in
theorem split_at (k : ℕ) :
    bytes ++ suffix = (bytes ++ suffix.take k) ++ suffix.drop k := by
  rw [List.append_assoc, List.take_append_drop]

include hk

theorem endingBy_eq :
    (⟨generations ++ [g], (bytes ++ suffix).length⟩ : CapsuleView).endingBy
      (bytes ++ suffix.take k).length = generations := by
  have hstop := h.stop_eq
  rw [List.length_append] at hstop
  have hlen : (bytes ++ suffix.take k).length = bytes.length + k := by
    rw [List.length_append, List.length_take, Nat.min_eq_left hk.le]
  rw [CapsuleView.endingBy, hlen, List.filter_append, List.filter_eq_self.2, List.filter_eq_nil_iff.2,
    List.append_nil]
  · intro x hx
    obtain rfl := List.mem_singleton.1 hx
    simp only [decide_eq_true_eq]
    omega
  · intro x hx
    have := h.stop_le hx
    exact decide_eq_true (by omega)

include hne

omit hk in
theorem magic_le (k : ℕ) : 8 ≤ (bytes ++ suffix.take k).length := by
  have := (nil_or_magic_le_of_scan h.scanned).resolve_left hne
  rw [List.length_append]
  omega

/-- A strict scan of a partial record fails. -/
theorem not_scan (hpos : 0 < k) (view : CapsuleView) :
    scanCapsule H (bytes ++ suffix.take k) limits ≠ .ok view := by
  intro hscan
  have hlen := h.length_le
  have hext := h.extended
  rw [split_at k] at hlen hext
  have hend := (scan_prefix_iff hlen hext (h.magic_le hne k)).1 ⟨view, hscan⟩
  rw [← split_at k, h.endingBy_eq hk, h.lastEnd_eq, List.length_append, List.length_take] at hend
  omega

/-- A recovery scan of a partial record returns what was there before, or fails. -/
theorem recover_eq {view : CapsuleView}
    (hr : recoverCapsule H (bytes ++ suffix.take k) limits = .ok view) :
    view = ⟨generations, bytes.length⟩ := by
  have hlen := h.length_le
  have hext := h.extended
  rw [split_at k] at hlen hext
  have heq := recover_prefix_eq hlen hext hr (h.magic_le hne k)
  rwa [← split_at k, h.endingBy_eq hk, h.lastEnd_eq] at heq

/-- It succeeds exactly when the leading header, if it is there, decodes. -/
theorem recover_iff :
    recoverCapsule H (bytes ++ suffix.take k) limits = .ok ⟨generations, bytes.length⟩ ↔
      (headerBytes ≤ k → g.primaryHeaderValid = true) := by
  have hlen := h.length_le
  have hext := h.extended
  rw [split_at k] at hlen hext
  have hiff := recover_prefix_iff hlen hext (h.magic_le hne k)
  rw [← split_at k, h.endingBy_eq hk, h.lastEnd_eq] at hiff
  rw [hiff]
  have htake : (bytes ++ suffix.take k).length = bytes.length + k := by
    rw [List.length_append, List.length_take, Nat.min_eq_left hk.le]
  have hstop := h.stop_eq
  rw [List.length_append] at hstop
  rw [htake]
  constructor
  · intro hall hle
    refine hall g (by simp) ?_ (by omega)
    rw [h.start_eq]
    omega
  · intro hg x hx hle hlt
    rcases List.mem_append.1 hx with hx | hx
    · have := h.stop_le hx
      omega
    · obtain rfl := List.mem_singleton.1 hx
      rw [h.start_eq] at hle
      exact hg (by omega)

end NewestRecord

/-! ## A cut that is not recovered -/

/-- The records of two calls with payloads of 0 and 1 bytes. -/
def sampleCapsule : Bytes :=
  (layout .standard [zeroCall .discovered 0, zeroCall .reserved 1]).bytes

theorem scan_sampleCapsule :
    ∃ g₀ g₁, scanCapsule .standard sampleCapsule sampleLimits = .ok ⟨[g₀, g₁], 545⟩ ∧
      (g₀.start = 0 ∧ g₀.stop = 272 ∧ g₀.BothValid) ∧
      (g₁.start = 272 ∧ g₁.stop = 545 ∧ g₁.BothValid) := by
  obtain ⟨gs, hlaid⟩ := exists_laid appendAll_0_1
  have hscan := scan_of_laid appendAll_0_1 hlaid (by decide) (by decide +kernel) (by decide +kernel)
  obtain ⟨g₀, g₁, rfl⟩ : ∃ g₀ g₁, gs = [g₀, g₁] :=
    List.length_eq_two.1 (by simpa using congrArg List.length hlaid.reported)
  have hreported := hlaid.reported
  simp only [List.map_cons, List.map_nil, zeroCall, List.cons.injEq, Prod.mk.injEq, and_true]
    at hreported
  obtain ⟨⟨-, -, hp₀, hv₀⟩, -, -, hp₁, hv₁⟩ := hreported
  have htiles := (hlaid.reaches.accepted hlaid.length_le acceptedCapsule_nil).tiles
  obtain ⟨hs₀, hs₁, -⟩ := htiles
  have he₀ : g₀.stop = 272 := by rw [CapsuleGeneration.stop, hs₀, hp₀]; rfl
  rw [he₀] at hs₁
  have he₁ : g₁.stop = 545 := by rw [CapsuleGeneration.stop, hs₁, hp₁]; rfl
  have hlength : (layout .standard [zeroCall .discovered 0, zeroCall .reserved 1]).bytes.length =
      545 := by decide +kernel
  rw [hlength] at hscan
  exact ⟨g₀, g₁, hscan, ⟨hs₀, he₀, hv₀⟩, hs₁, he₁, hv₁⟩

/-- With the leading header of its second record zeroed the same capsule still scans. -/
theorem scan_zeroed_sampleCapsule :
    ∃ g₀ g₁, scanCapsule .standard (zeroHeaderAt sampleCapsule 272) sampleLimits =
        .ok ⟨[g₀, g₁], 545⟩ ∧
      g₀.stop = 272 ∧ (g₁.start = 272 ∧ g₁.stop = 545 ∧ g₁.primaryHeaderValid = false) := by
  obtain ⟨g₀, g₁, hscan, ⟨hs₀, he₀, hv₀⟩, hs₁, he₁, hv₁⟩ := scan_sampleCapsule
  have hroom : g₁.start + headerBytes ≤ sampleCapsule.length := by rw [hs₁]; decide +kernel
  have hg₁ : [g₀, g₁][1]? = some g₁ := rfl
  have hd := damaged_zeroHeaderAt (H := .standard) hg₁ hroom
  rw [hs₁] at hd
  have hvalid : ∀ g ∈ [g₀, g₁], g.BothValid := by simp [hv₀, hv₁]
  have hscan' := hd.scan (by decide +kernel) hscan hvalid (by decide +kernel) (by decide +kernel)
  exact ⟨g₀.withBroken none, g₁.withBroken (some .leading), hscan', he₀, hs₁, he₁, rfl⟩

end Capsule

end StarConverter
