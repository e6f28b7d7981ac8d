import StarConverter.Geometry.Solver

/-!
# The free list of the solver

Merging the occupied ranges and taking the complement gives exactly the unoccupied cells of the
volume (`complement_unionOccupied`). Every allocation then carves its spans out of the free list:
first fit (`allocateFirstFitAlignedWithin_carved`), fragmented
(`allocateFirstFitFragmentedAlignedWithin_carved`), over all requests and over all conflicts.
-/

namespace StarConverter

open Base

namespace Geometry

/-! ## Checked ends, overlaps, alignment -/

@[simp] theorem rangeEnd_ok_iff {r : ByteRange} {e : ℕ} :
    rangeEnd r = .ok e ↔ r.stop < wordBound ∧ e = r.stop := by
  rw [rangeEnd, orErr_ok_iff, checkedAdd_eq_some]
  unfold Span.stop
  constructor
  · rintro ⟨h, rfl⟩; exact ⟨h, rfl⟩
  · rintro ⟨h, rfl⟩; exact ⟨h, rfl⟩

theorem overlaps_ok {left right : ByteRange} {b : Bool} (h : overlaps left right = .ok b) :
    b = decide (left.Overlaps right) := by
  simp only [overlaps, bind_ok_iff, rangeEnd_ok_iff] at h
  obtain ⟨_, ⟨-, rfl⟩, h⟩ := h
  split_ifs at h with hlt
  · simp only [bind_ok_iff, rangeEnd_ok_iff, pure_eq_ok, Except.ok.injEq] at h
    obtain ⟨_, ⟨-, rfl⟩, rfl⟩ := h
    simp [Span.Overlaps, hlt]
  · simp only [pure_eq_ok, Except.ok.injEq] at h
    simp [← h, Span.Overlaps, hlt]

theorem overlaps_of_lt {left right : ByteRange} (hl : left.stop < wordBound)
    (hr : right.stop < wordBound) : overlaps left right = .ok (decide (left.Overlaps right)) := by
  have h1 : rangeEnd left = .ok left.stop := rangeEnd_ok_iff.2 ⟨hl, rfl⟩
  have h2 : rangeEnd right = .ok right.stop := rangeEnd_ok_iff.2 ⟨hr, rfl⟩
  rw [overlaps, h2, ok_bind]
  split_ifs with hlt
  · simp [h1, Span.Overlaps, hlt]
  · simp [Span.Overlaps, hlt]

theorem isPowerOfTwo.pos {a : ℕ} (h : isPowerOfTwo a) : 0 < a := Nat.pos_of_ne_zero h.1

theorem testBit_mask {k i : ℕ} (hk : k ≤ 64) :
    (2 ^ 64 - 2 ^ k).testBit i = decide (k ≤ i ∧ i < 64) := by
  have heq : 2 ^ 64 - 2 ^ k = 2 ^ k * (2 ^ (64 - k) - 1) := by
    rw [Nat.mul_sub, ← pow_add, Nat.add_sub_cancel' hk, Nat.mul_one]
  rw [heq, Nat.testBit_two_pow_mul, Nat.testBit_two_pow_sub_one]
  by_cases hki : k ≤ i
  · simp only [ge_iff_le, hki, decide_true, Bool.true_and, true_and, decide_eq_decide]
    omega
  · simp [hki]

/-- Clearing the low bits below a power of two rounds down to a multiple of it. -/
theorem clearLow_eq {v a : ℕ} (ha : isPowerOfTwo a) (hv : v < wordBound) :
    clearLow v a = v - v % a := by
  obtain ⟨-, hpow⟩ := ha
  set k := a.log2
  unfold clearLow wordBound at *
  by_cases hk : k ≤ 64
  · have hle : 2 ^ k ≤ 2 ^ 64 := Nat.pow_le_pow_right (by norm_num) hk
    have hmask : 2 ^ 64 - 1 - (a - 1) = 2 ^ 64 - 2 ^ k := by
      have := Nat.two_pow_pos k
      rw [← hpow]; omega
    have hdiv : v - v % a = 2 ^ k * (v / 2 ^ k) := by
      have := Nat.div_add_mod v (2 ^ k)
      rw [← hpow]; omega
    rw [hmask, hdiv]
    apply Nat.eq_of_testBit_eq
    intro i
    rw [Nat.testBit_and, testBit_mask hk, Nat.testBit_two_pow_mul, Nat.testBit_div_two_pow]
    by_cases hki : k ≤ i
    · by_cases hi : i < 64
      · simp [hki, hi]
      · have hbit : v.testBit i = false :=
          Nat.testBit_lt_two_pow (hv.trans_le (Nat.pow_le_pow_right (by norm_num) (by omega)))
        simp [hki, hbit]
    · simp [hki]
  · have hlt : 2 ^ 64 < 2 ^ k := Nat.pow_lt_pow_right (by norm_num) (by omega)
    have hz : 2 ^ 64 - 1 - (a - 1) = 0 := by rw [← hpow]; omega
    have hmod : v % a = v := Nat.mod_eq_of_lt (by rw [← hpow]; omega)
    rw [hz, hmod]
    simp

theorem alignedStart_ok {v a s : ℕ} (ha : isPowerOfTwo a) (h : alignedStart v a = .ok s) :
    v ≤ s ∧ s % a = 0 := by
  simp only [alignedStart, bind_ok_iff, orErr_ok_iff, checkedAdd_eq_some, pure_eq_ok,
    Except.ok.injEq] at h
  obtain ⟨_, ⟨hlt, rfl⟩, rfl⟩ := h
  rw [clearLow_eq ha hlt]
  have hpos := ha.pos
  have hmod := Nat.mod_lt (v + (a - 1)) hpos
  exact ⟨by omega, Nat.sub_mod_eq_zero_of_mod_eq (by simp)⟩

/-! ## Union and complement -/

/-- The occupied ranges merged so far, newest first: nonempty, one behind the other with gaps. -/
theorem mergeRanges_ok {maximum : ℕ} {m l out : List ByteRange}
    (hord : Ordered m.reverse) (hm : ∀ r ∈ m, 0 < r.length)
    (hl : ∀ r ∈ l, 0 < r.length) (hsort : l.Pairwise fun r s => r.offset ≤ s.offset)
    (hbefore : ∀ r ∈ m, ∀ s ∈ l, r.offset ≤ s.offset)
    (h : mergeRanges maximum m l = .ok out) :
    Ordered out ∧ (∀ r ∈ out, 0 < r.length) ∧ cells out = cells m ∪ cells l ∧
      (∀ b, (∀ r ∈ m, r.stop ≤ b) → (∀ r ∈ l, r.stop ≤ b) → ∀ r ∈ out, r.stop ≤ b) := by
  induction l generalizing m with
  | nil =>
    cases m with
    | nil => obtain rfl := Except.ok.inj h; exact ⟨hord, by simp, by simp, by simp⟩
    | cons last done =>
      obtain rfl := Except.ok.inj h
      refine ⟨hord, fun r hr => hm r (List.mem_reverse.1 hr), ?_, fun b hb _ r hr => hb r (List.mem_reverse.1 hr)⟩
      rw [cells_perm (List.reverse_perm _), cells_nil, Set.union_empty]
  | cons range rest ih =>
    have hrpos := hl range (by simp)
    have hlr : ∀ r ∈ rest, 0 < r.length := fun r hr => hl r (by simp [hr])
    obtain ⟨hle, hsr⟩ := List.pairwise_cons.1 hsort
    cases m with
    | nil =>
      simp only [mergeRanges, bind_ok_iff, exists_const, ensure_ok_iff] at h
      obtain ⟨o1, o2, o3, o4⟩ := ih (m := [range]) (by simp [Ordered]) (by simpa using hrpos)
        hlr hsr (by simpa using hle) h.2
      refine ⟨o1, o2, by rw [o3]; simp, fun b _ hb => ?_⟩
      exact o4 b (by simpa using hb range (by simp)) fun r hr => hb r (by simp [hr])
    | cons last done =>
      have hlast := hm last (by simp)
      have hll := hbefore last (by simp) range (by simp)
      have hordc : Ordered (done.reverse ++ [last]) := by simpa using hord
      obtain ⟨hod, -, hcross⟩ := List.pairwise_append.1 hordc
      simp only [mergeRanges, bind_ok_iff, rangeEnd_ok_iff] at h
      obtain ⟨_, ⟨-, rfl⟩, h⟩ := h
      split_ifs at h with hov
      · simp only [bind_ok_iff, rangeEnd_ok_iff] at h
        obtain ⟨_, ⟨-, rfl⟩, h⟩ := h
        set joined : ByteRange := ⟨last.offset, max range.stop last.stop - last.offset⟩ with hj
        have hjstop : joined.stop = max range.stop last.stop := by
          simp only [hj, Span.stop]; omega
        have hjpos : 0 < joined.length := by
          simp only [hj, Span.stop]; omega
        have hordj : Ordered (joined :: done).reverse := by
          rw [List.reverse_cons]
          refine List.pairwise_append.2 ⟨hod, by simp, ?_⟩
          intro r hr s hs
          obtain rfl := List.mem_singleton.1 hs
          exact hcross r hr last (by simp)
        have hmj : ∀ r ∈ joined :: done, 0 < r.length := by
          intro r hr
          rcases List.mem_cons.1 hr with rfl | hr
          · exact hjpos
          · exact hm r (by simp [hr])
        have hbj : ∀ r ∈ joined :: done, ∀ s ∈ rest, r.offset ≤ s.offset := by
          intro r hr s hs
          rcases List.mem_cons.1 hr with rfl | hr
          · exact hbefore last (by simp) s (by simp [hs])
          · exact hbefore r (by simp [hr]) s (by simp [hs])
        obtain ⟨o1, o2, o3, o4⟩ := ih hordj hmj hlr hsr hbj h
        refine ⟨o1, o2, ?_, ?_⟩
        · rw [o3]
          have hcells : ∀ x, x ∈ joined ↔ x ∈ last ∨ x ∈ range := by
            intro x
            rw [Span.mem_iff, Span.mem_iff, Span.mem_iff, hjstop]
            simp only [hj]
            unfold Span.stop at *
            omega
          ext x
          simp only [cells_cons, Set.mem_union, Set.mem_ofPred_eq, hcells]
          tauto
        · intro b hb hb'
          have h1 := hb last (by simp)
          have h2 := hb' range (by simp)
          refine o4 b (fun r hr => ?_) fun r hr => hb' r (by simp [hr])
          rcases List.mem_cons.1 hr with rfl | hr
          · omega
          · exact hb r (by simp [hr])
      · simp only [bind_ok_iff, exists_const, ensure_ok_iff] at h
        have hordn : Ordered (range :: last :: done).reverse := by
          rw [List.reverse_cons]
          refine List.pairwise_append.2 ⟨hord, by simp, ?_⟩
          intro r hr s hs
          rw [List.mem_singleton.1 hs]
          have hlr : last.Before range := by unfold Span.Before; omega
          rcases List.mem_cons.1 (List.mem_reverse.1 hr) with rfl | hr
          · exact hlr
          · exact (hcross r (by simpa using hr) last (by simp)).trans hlr
        obtain ⟨o1, o2, o3, o4⟩ := ih hordn (by simpa [hrpos] using hm) hlr hsr (by
          intro r hr s hs
          rcases List.mem_cons.1 hr with rfl | hr
          · exact hle s hs
          · exact hbefore r hr s (by simp [hs])) h.2
        refine ⟨o1, o2, ?_, ?_⟩
        · rw [o3]
          ext x
          simp only [cells_cons, Set.mem_union, Set.mem_ofPred_eq]
          tauto
        · intro b hb hb'
          refine o4 b (fun r hr => ?_) fun r hr => hb' r (by simp [hr])
          rcases List.mem_cons.1 hr with rfl | hr
          · exact hb' _ (by simp)
          · exact hb r hr

/-- The complement of ordered occupied ranges behind the cursor. -/
theorem complement_ok {volumeBytes maximum count cursor : ℕ} {occupied out : List ByteRange}
    (hord : Ordered occupied) (hcur : ∀ r ∈ occupied, cursor ≤ r.offset)
    (h : complement volumeBytes maximum count cursor occupied = .ok out)
    (hvol : ∀ r ∈ occupied, r.stop ≤ volumeBytes) :
    FreeList out ∧ (∀ r ∈ out, cursor ≤ r.offset) ∧
      cells out = {x | cursor ≤ x ∧ x < volumeBytes ∧ x ∉ cells occupied} := by
  induction occupied generalizing count cursor out with
  | nil =>
    have hout : out = gap cursor volumeBytes := by
      rw [complement] at h
      unfold gap
      split_ifs at h ⊢ with hlt
      · simp only [bind_ok_iff, exists_const, ensure_ok_iff, pure_eq_ok, Except.ok.injEq] at h
        exact h.2.symm
      · exact (Except.ok.inj h).symm
    subst hout
    refine ⟨by simpa using FreeList.gap_append cursor volumeBytes FreeList.nil,
      ?_, ?_⟩
    · intro r hr
      obtain ⟨-, rfl⟩ := mem_gap.1 hr
      exact le_rfl
    · ext x
      rw [mem_cells_gap]
      simp
  | cons range rest ih =>
    obtain ⟨hb, hor⟩ := List.pairwise_cons.1 hord
    have hvr := hvol range (by simp)
    have hcr := hcur range (by simp)
    have hst : range.offset ≤ range.stop := Nat.le_add_right _ _
    obtain ⟨c, more, hm, rfl⟩ : ∃ c more, complement volumeBytes maximum c range.stop rest = .ok more ∧
        out = gap cursor range.offset ++ more := by
      rw [complement] at h
      unfold gap
      split_ifs at h ⊢ with hlt
      · simp only [bind_ok_iff, exists_const, ensure_ok_iff, rangeEnd_ok_iff, pure_eq_ok,
          Except.ok.injEq] at h
        obtain ⟨-, _, ⟨-, rfl⟩, more, hm, rfl⟩ := h
        exact ⟨_, more, hm, rfl⟩
      · simp only [bind_ok_iff, rangeEnd_ok_iff] at h
        obtain ⟨_, ⟨-, rfl⟩, hm⟩ := h
        exact ⟨_, out, hm, rfl⟩
    obtain ⟨o1, o2, o3⟩ := ih hor (fun r hr => hb r hr) hm fun r hr => hvol r (by simp [hr])
    refine ⟨FreeList.gap_append _ _ o1 fun t ht => hst.trans (o2 t ht), ?_, ?_⟩
    · intro r hr
      rcases List.mem_append.1 hr with hr | hr
      · obtain ⟨-, rfl⟩ := mem_gap.1 hr
        exact le_rfl
      · exact (hcr.trans hst).trans (o2 r hr)
    · ext x
      have hrest : x < range.stop → x ∉ cells rest := by
        rintro hx ⟨r, hr, hxr⟩
        have := hb r hr
        unfold Span.Before at this
        exact absurd hxr.1 (by omega)
      simp only [cells_append, cells_cons, Set.mem_union, mem_cells_gap, o3, Set.mem_ofPred_eq,
        Span.mem_iff, not_or]
      by_cases h1 : x < range.stop
      · have := hrest h1
        constructor
        · rintro (h | h)
          · exact ⟨h.1, by omega, by omega, this⟩
          · omega
        · rintro ⟨h1, h2, h3, -⟩
          exact Or.inl ⟨h1, by omega⟩
      · constructor
        · rintro (h | h)
          · omega
          · exact ⟨by omega, h.2.1, by omega, h.2.2⟩
        · rintro ⟨h1, h2, -, h4⟩
          exact Or.inr ⟨by omega, h2, h4⟩

/-- **The initial free list.** The complement of the merged occupied ranges is a free list of exactly
the cells of the volume that no range occupies. -/
theorem complement_unionOccupied (volumeBytes : ℕ) {source : List SourceAllocation}
    {reservations : List DestinationReservation} {exclusions occupied free : List ByteRange}
    {maximum maximum' : ℕ}
    (hpos : ∀ r ∈ source.map SourceAllocation.range ++
      reservations.map DestinationReservation.range ++ exclusions, 0 < r.length ∧
        r.stop ≤ volumeBytes)
    (hocc : unionOccupied source reservations exclusions maximum = .ok occupied)
    (hfree : complement volumeBytes maximum' 0 0 occupied = .ok free) :
    FreeList free ∧ cells free = {x | x < volumeBytes ∧
      x ∉ cells (source.map SourceAllocation.range) ∧
      x ∉ cells (reservations.map DestinationReservation.range) ∧ x ∉ cells exclusions} := by
  obtain ⟨o1, -, o3, o4⟩ := mergeRanges_ok (by simp [Ordered]) (by simp)
    (fun r hr => (hpos r (mem_sortByKey.1 hr)).1) (sortByKey_sorted _ _) (by simp) hocc
  obtain ⟨c1, -, c3⟩ := complement_ok o1 (fun r _ => Nat.zero_le _) hfree
    (o4 volumeBytes (by simp) fun r hr => (hpos r (mem_sortByKey.1 hr)).2)
  refine ⟨c1, ?_⟩
  rw [c3, o3, cells_perm (sortByKey_perm _ _)]
  ext x
  simp only [cells_nil, Set.empty_union, cells_append, Set.mem_union, Set.mem_ofPred_eq]
  constructor
  · rintro ⟨-, h1, h2⟩
    exact ⟨h1, fun h => h2 (Or.inl (Or.inl h)), fun h => h2 (Or.inl (Or.inr h)),
      fun h => h2 (Or.inr h)⟩
  · rintro ⟨h1, h2, h3, h4⟩
    exact ⟨Nat.zero_le _, h1, by rintro ((h | h) | h) <;> contradiction⟩

/-! ## First fit -/

/-- A span lies in the domain and starts at a multiple of the alignment. -/
def Placed (alignment : ℕ) (domain : ByteRange) (s : ByteRange) : Prop :=
  s.Inside domain ∧ s.offset % alignment = 0

theorem splitRange_ok {maximum total : ℕ} {range : ByteRange} {stop aligned destinationEnd : ℕ}
    {rest left : List ByteRange} (h1 : range.offset ≤ aligned) (h2 : destinationEnd ≤ stop)
    (h : splitRange maximum total range stop aligned destinationEnd rest = .ok left) :
    left = gap range.offset aligned ++ (gap destinationEnd stop ++ rest) := by
  have ha : aligned - range.offset = 0 → gap range.offset aligned = [] := fun h => by
    rw [gap, if_neg (by omega)]
  have hb : stop - destinationEnd = 0 → gap destinationEnd stop = [] := fun h => by
    rw [gap, if_neg (by omega)]
  have ha' : aligned - range.offset ≠ 0 →
      gap range.offset aligned = [⟨range.offset, aligned - range.offset⟩] := fun h => by
    rw [gap, if_pos (by omega)]
  have hb' : stop - destinationEnd ≠ 0 →
      gap destinationEnd stop = [⟨destinationEnd, stop - destinationEnd⟩] := fun h => by
    rw [gap, if_pos (by omega)]
  unfold splitRange at h
  cases hp : aligned - range.offset with
  | zero =>
    cases hs : stop - destinationEnd with
    | zero =>
      rw [hp, hs] at h
      rw [ha hp, hb hs]
      exact (Except.ok.inj h).symm
    | succ suffix =>
      rw [hp, hs] at h
      rw [ha hp, hb' (by omega), hs]
      exact (Except.ok.inj h).symm
  | succ before =>
    cases hs : stop - destinationEnd with
    | zero =>
      rw [hp, hs] at h
      rw [ha' (by omega), hb hs, hp]
      exact (Except.ok.inj h).symm
    | succ suffix =>
      rw [hp, hs] at h
      simp only [bind_ok_iff, exists_const, ensure_ok_iff, pure_eq_ok, Except.ok.injEq] at h
      rw [ha' (by omega), hb' (by omega), hp, hs]
      exact h.2.symm

theorem firstFitFrom_carved {length alignment domainEnd maximum total : ℕ} {domain : ByteRange}
    (ha : isPowerOfTwo alignment) (hde : domainEnd = domain.stop) {free left : List ByteRange}
    {d : ByteRange} (hf : FreeList free)
    (h : firstFitFrom length alignment domain domainEnd maximum total free = .ok (some (d, left))) :
    Carved (Placed alignment domain) free [d] left ∧ d.length = length := by
  induction free generalizing left with
  | nil => cases h
  | cons range rest ih =>
    have hskip : ∀ {out}, (do
        let found ← firstFitFrom length alignment domain domainEnd maximum total rest
        pure (found.map fun r => (r.1, range :: r.2)) : Solved _) = .ok (some (d, out)) →
        Carved (Placed alignment domain) (range :: rest) [d] out ∧ d.length = length := by
      intro out hout
      simp only [bind_ok_iff, pure_eq_ok, Except.ok.injEq, Option.map_eq_some_iff] at hout
      obtain ⟨_, hr, ⟨d', left'⟩, rfl, heq⟩ := hout
      obtain ⟨rfl, rfl⟩ := Prod.mk.inj heq
      obtain ⟨hc, hl⟩ := ih hf.tail hr
      exact ⟨hc.skip hf, hl⟩
    simp only [firstFitFrom, bind_ok_iff, rangeEnd_ok_iff] at h
    obtain ⟨_, ⟨-, rfl⟩, h⟩ := h
    split_ifs at h with hempty
    · exact hskip (by simpa only [bind_ok_iff] using h)
    · simp only [bind_ok_iff, orErr_ok_iff, checkedAdd_eq_some] at h
      obtain ⟨aligned, hal, _, ⟨-, rfl⟩, h⟩ := h
      obtain ⟨hge, hmod⟩ := alignedStart_ok ha hal
      split_ifs at h with hbig
      · exact hskip (by simpa only [bind_ok_iff] using h)
      · simp only [bind_ok_iff, pure_eq_ok, Except.ok.injEq, Option.some.injEq,
          Prod.mk.injEq] at h
        obtain ⟨out, hsplit, rfl, rfl⟩ := h
        have hleft := splitRange_ok (by omega) (by omega) hsplit
        subst hleft
        subst hde
        refine ⟨Carved.head hf ⟨by simp only; omega, ?_⟩ ⟨⟨by simp only; omega, ?_⟩, hmod⟩, rfl⟩
        · simp only [Span.stop] at *; omega
        · simp only [Span.stop] at *; omega

theorem allocateFirstFitAlignedWithin_carved {free left : List ByteRange}
    {length alignment maximum : ℕ} {domain d : ByteRange} (ha : isPowerOfTwo alignment)
    (hf : FreeList free)
    (h : allocateFirstFitAlignedWithin free length alignment domain maximum = .ok (some (d, left))) :
    Carved (Placed alignment domain) free [d] left ∧ d.length = length := by
  simp only [allocateFirstFitAlignedWithin, bind_ok_iff, rangeEnd_ok_iff] at h
  obtain ⟨_, ⟨-, rfl⟩, h⟩ := h
  exact firstFitFrom_carved ha rfl hf h

theorem measureNext_pos {alignment domainEnd : ℕ} {domain : ByteRange} {free : List ByteRange}
    {n : ℕ} (h : measureNext alignment domain domainEnd free = .ok (some n)) : n ≠ 0 := by
  induction free with
  | nil => cases h
  | cons range rest ih =>
    simp only [measureNext, bind_ok_iff] at h
    obtain ⟨_, -, h⟩ := h
    split_ifs at h
    · exact ih h
    · simp only [bind_ok_iff] at h
      obtain ⟨_, -, h⟩ := h
      split_ifs at h with h1 h2
      · exact ih h
      · simp only [pure_eq_ok, Except.ok.injEq, Option.some.injEq] at h
        exact h ▸ h2
      · exact ih h

/-- The spans of one stream: carved, nonempty, and as long together as requested. -/
structure Spans (alignment : ℕ) (domain : ByteRange) (free spans left : List ByteRange)
    (length : ℕ) : Prop where
  carved : Carved (Placed alignment domain) free spans left
  nonempty : ∀ s ∈ spans, 0 < s.length
  sum : (spans.map fun s => s.length).sum = length

theorem fragmentedLoop_spans {alignment domainEnd maximumRanges maximumFreeRanges room : ℕ}
    {domain : ByteRange} (ha : isPowerOfTwo alignment) {working spans left : List ByteRange}
    {remaining : ℕ} (hf : FreeList working)
    (h : fragmentedLoop alignment domain domainEnd maximumRanges maximumFreeRanges room working
      remaining = .ok (some (spans, left))) :
    Spans alignment domain working spans left remaining := by
  induction room generalizing working remaining spans with
  | zero =>
    rw [fragmentedLoop] at h
    split_ifs at h with hz
    · obtain ⟨rfl, rfl⟩ := Prod.mk.inj (Option.some.inj (Except.ok.inj h))
      exact ⟨Carved.refl hf, by simp, by simp [hz]⟩
    · simp only [bind_ok_iff] at h
      obtain ⟨m, -, h⟩ := h
      cases m <;> cases h
  | succ room ih =>
    rw [fragmentedLoop] at h
    split_ifs at h with hz
    · obtain ⟨rfl, rfl⟩ := Prod.mk.inj (Option.some.inj (Except.ok.inj h))
      exact ⟨Carved.refl hf, by simp, by simp [hz]⟩
    · simp only [bind_ok_iff] at h
      obtain ⟨m, hm, h⟩ := h
      cases m with
      | none => cases h
      | some usable =>
        simp only [bind_ok_iff, orErr_ok_iff, pure_eq_ok, Except.ok.injEq,
          Option.map_eq_some_iff] at h
        obtain ⟨_, hfit, ⟨range, next⟩, rfl, _, hloop, ⟨more, left'⟩, rfl, heq⟩ := h
        obtain ⟨rfl, rfl⟩ := Prod.mk.inj heq
        obtain ⟨hc, hl⟩ := allocateFirstFitAlignedWithin_carved ha hf hfit
        have hrec := ih hc.left_free hloop
        have hpos := measureNext_pos hm
        refine ⟨by simpa using hc.trans hrec.carved, ?_, ?_⟩
        · intro s hs
          rcases List.mem_cons.1 hs with rfl | hs
          · omega
          · exact hrec.nonempty s hs
        · rw [List.map_cons, List.sum_cons, hrec.sum, hl]
          omega

theorem allocateSpans_spans {free spans left : List ByteRange} {length alignment capacity
    maximumFreeRanges : ℕ} {domain : ByteRange} {allowFragmented : Bool}
    (ha : isPowerOfTwo alignment) (hlen : length ≠ 0) (hf : FreeList free)
    (h : allocateSpans free length alignment domain capacity maximumFreeRanges allowFragmented =
      .ok (some (spans, left))) :
    Spans alignment domain free spans left length := by
  unfold allocateSpans at h
  split_ifs at h
  · simp only [allocateFirstFitFragmentedAlignedWithin, bind_ok_iff, exists_const,
      ensure_ok_iff] at h
    obtain ⟨-, -, -, _, -, -, -, -, _, -, h⟩ := h
    exact fragmentedLoop_spans ha hf h
  · simp only [bind_ok_iff, pure_eq_ok, Except.ok.injEq, Option.map_eq_some_iff] at h
    obtain ⟨_, hfit, ⟨d, left'⟩, rfl, heq⟩ := h
    obtain ⟨rfl, rfl⟩ := Prod.mk.inj heq
    obtain ⟨hc, rfl⟩ := allocateFirstFitAlignedWithin_carved ha hf hfit
    exact ⟨hc, by simpa using Nat.pos_of_ne_zero hlen, by simp⟩

/-! ## Runs over requests and conflicts -/

/-- A materialization serves a request: nonempty spans as long together as requested. -/
structure Serves (m : Materialization) (request : MaterializationRequest) : Prop where
  stream : m.stream = request.stream
  nonempty : ∀ s ∈ m.destinations, 0 < s.length
  sum : (m.destinations.map fun s => s.length).sum = request.destinationLength

theorem allocateMaterializationRequests_ok {alignment : ℕ} {domain : ByteRange}
    {limits : LayoutLimits} {allowFragmented : Bool} (ha : isPowerOfTwo alignment)
    {requests : List MaterializationRequest} (hreq : ∀ r ∈ requests, r.destinationLength ≠ 0)
    {run run' : MaterializationRun} (hf : FreeList run.free)
    (h : allocateMaterializationRequests alignment domain limits allowFragmented run requests =
      .ok run') :
    ∃ ms, run'.materializations = run.materializations ++ ms ∧ List.Forall₂ Serves ms requests ∧
      run'.bytes = run.bytes + (requests.map MaterializationRequest.destinationLength).sum ∧
      run'.ranges = run.ranges + (ms.flatMap Materialization.destinations).length ∧
      Carved (Placed alignment domain) run.free (ms.flatMap Materialization.destinations)
        run'.free := by
  induction requests generalizing run with
  | nil =>
    obtain rfl := Except.ok.inj h
    exact ⟨[], by simp, .nil, by simp, by simp, Carved.refl hf⟩
  | cons request rest ih =>
    simp only [allocateMaterializationRequests, bind_ok_iff, orErr_ok_iff, checkedAdd_eq_some] at h
    obtain ⟨_, -, _, hspans, ⟨spans, left⟩, rfl, _, ⟨-, rfl⟩, _, ⟨-, rfl⟩, h⟩ := h
    have hs := allocateSpans_spans ha (hreq request (by simp)) hf hspans
    obtain ⟨ms, h1, h2, h3, h4, h5⟩ := ih (fun r hr => hreq r (by simp [hr])) hs.carved.left_free h
    refine ⟨⟨request.stream, spans⟩ :: ms, ?_, .cons ⟨rfl, hs.nonempty, hs.sum⟩ h2, ?_, ?_, ?_⟩
    · rw [h1]; simp
    · rw [h3]; simp; omega
    · rw [h4]; simp; omega
    · simpa using hs.carved.trans h5

/-- A relocation moves an allocation to a destination of the same length. -/
structure Moves (r : Relocation) (allocation : SourceAllocation) : Prop where
  stream : r.stream = allocation.stream
  logicalOffset : r.logicalOffset = allocation.logicalOffset
  source : r.source = allocation.range
  length : r.destination.length = allocation.range.length

theorem allocateRelocationConflicts_ok {alignment maximum : ℕ} {domain : ByteRange}
    (ha : isPowerOfTwo alignment) {conflicts : List SourceAllocation}
    {run run' : RelocationRun} (hf : FreeList run.free)
    (h : allocateRelocationConflicts alignment domain maximum run conflicts = .ok run') :
    ∃ rs, run'.relocations = run.relocations ++ rs ∧ List.Forall₂ Moves rs conflicts ∧
      run'.bytes = run.bytes + (conflicts.map fun c => c.range.length).sum ∧
      Carved (Placed alignment domain) run.free (rs.map Relocation.destination) run'.free := by
  induction conflicts generalizing run with
  | nil =>
    obtain rfl := Except.ok.inj h
    exact ⟨[], by simp, .nil, by simp, Carved.refl hf⟩
  | cons allocation rest ih =>
    simp only [allocateRelocationConflicts, bind_ok_iff, orErr_ok_iff, checkedAdd_eq_some] at h
    obtain ⟨_, hfit, ⟨d, left⟩, rfl, _, ⟨-, rfl⟩, h⟩ := h
    obtain ⟨hc, hl⟩ := allocateFirstFitAlignedWithin_carved ha hf hfit
    obtain ⟨rs, h1, h2, h3, h4⟩ := ih hc.left_free h
    refine ⟨⟨allocation.stream, allocation.logicalOffset, allocation.range, d⟩ :: rs, ?_,
      .cons ⟨rfl, rfl, rfl, hl⟩ h2, ?_, ?_⟩
    · rw [h1]; simp
    · rw [h3]; simp; omega
    · simpa using hc.trans h4

/-- Everything the solver takes out of the free list. -/
structure Allocated (alignment : ℕ) (domain : ByteRange) (free : List ByteRange)
    (conflicts : List SourceAllocation) (requests : List MaterializationRequest)
    (a : Allocation) (left : List ByteRange) : Prop where
  moves : List.Forall₂ Moves a.1.relocations conflicts
  serves : List.Forall₂ Serves a.2.materializations requests
  relocated : a.1.bytes = (conflicts.map fun c => c.range.length).sum
  materialized : a.2.bytes = (requests.map MaterializationRequest.destinationLength).sum
  carved : Carved (Placed alignment domain) free (a.1.relocations.map Relocation.destination ++
    a.2.materializations.flatMap Materialization.destinations) left

variable {free left : List ByteRange} {conflicts : List SourceAllocation}
  {requests : List MaterializationRequest} {alignment : ℕ} {domain : ByteRange}
  {limits : LayoutLimits} {a : Allocation}

theorem contiguousAttempt_ok (ha : isPowerOfTwo alignment)
    (hreq : ∀ r ∈ requests, r.destinationLength ≠ 0) (hf : FreeList free)
    (h : contiguousAttempt free conflicts requests alignment domain limits = .ok a) :
    Allocated alignment domain free conflicts requests a a.1.free := by
  simp only [contiguousAttempt, bind_ok_iff, pure_eq_ok, Except.ok.injEq] at h
  obtain ⟨m, hm, _, -, r, hr, rfl⟩ := h
  obtain ⟨ms, m1, m2, m3, -, m5⟩ := allocateMaterializationRequests_ok ha hreq hf hm
  obtain ⟨rs, r1, r2, r3, r4⟩ := allocateRelocationConflicts_ok ha m5.left_free hr
  simp only [List.nil_append] at m1 r1
  simp only [Nat.zero_add] at m3 r3
  refine ⟨r1 ▸ r2, m1 ▸ m2, r3, m3, ?_⟩
  rw [m1, r1]
  exact (m5.trans r4).perm List.perm_append_comm

theorem allocateRelocationsThenFragmentedMaterializations_ok (ha : isPowerOfTwo alignment)
    (hreq : ∀ r ∈ requests, r.destinationLength ≠ 0) (hf : FreeList free)
    (h : allocateRelocationsThenFragmentedMaterializations free conflicts requests alignment domain
      limits = .ok a) :
    Allocated alignment domain free conflicts requests a a.2.free := by
  simp only [allocateRelocationsThenFragmentedMaterializations, bind_ok_iff, pure_eq_ok,
    Except.ok.injEq] at h
  obtain ⟨r, hr, _, -, m, hm, rfl⟩ := h
  obtain ⟨rs, r1, r2, r3, r4⟩ := allocateRelocationConflicts_ok ha hf hr
  obtain ⟨ms, m1, m2, m3, -, m5⟩ := allocateMaterializationRequests_ok ha hreq r4.left_free hm
  simp only [List.nil_append] at m1 r1
  simp only [Nat.zero_add] at m3 r3
  refine ⟨r1 ▸ r2, m1 ▸ m2, r3, m3, ?_⟩
  rw [m1, r1]
  exact r4.trans m5

/-- Both strategies, and the fallback from the untouched free list. -/
theorem allocateAll_ok {contiguous : Bool} (ha : isPowerOfTwo alignment)
    (hreq : ∀ r ∈ requests, r.destinationLength ≠ 0) (hf : FreeList free)
    (h : allocateAll free conflicts requests alignment domain limits contiguous = .ok (a, left)) :
    Allocated alignment domain free conflicts requests a left := by
  have hfrag : ∀ {out}, (do
      let result ← allocateRelocationsThenFragmentedMaterializations free conflicts requests
        alignment domain limits
      pure (result, result.2.free) : Solved (Allocation × List ByteRange)) = .ok out →
      Allocated alignment domain free conflicts requests out.1 out.2 := by
    intro out hout
    simp only [bind_ok_iff, pure_eq_ok, Except.ok.injEq] at hout
    obtain ⟨r, hr, rfl⟩ := hout
    exact allocateRelocationsThenFragmentedMaterializations_ok ha hreq hf hr
  unfold allocateAll at h
  split_ifs at h
  · split at h
    · next result hres =>
      obtain ⟨rfl, rfl⟩ := Prod.mk.inj (Except.ok.inj h)
      exact contiguousAttempt_ok ha hreq hf hres
    · exact hfrag h
    · cases h
  · exact hfrag h

end Geometry

end StarConverter
