import StarConverter.Geometry.FreeSpace

/-!
# Exactness of the fragmented allocation

The capacity of a free range is the length of the aligned units it has inside the domain (`usable`). A
round measures the first range with a nonzero capacity (`measureNext_eq`) and takes as much of it as is
still needed; first fit then stops at the same range, since every range before it has no aligned unit
(`allocate_measured`). A round lowers the total capacity by what it takes, and one that takes all of a
range leaves one range less with any, so a stream is served exactly if the total capacity suffices.
-/

namespace StarConverter

open Base

namespace Geometry

/-! ## Capacity -/

/-- The first multiple of the alignment from `value` on. -/
def roundUp (value alignment : ℕ) : ℕ := (value + (alignment - 1)) / alignment * alignment

/-- The aligned units of the domain between two places. -/
def usableBetween (alignment : ℕ) (domain : ByteRange) (lo hi : ℕ) : ℕ :=
  (min hi domain.stop - roundUp (max lo domain.offset) alignment) / alignment * alignment

/-- The alignment-rounded capacity of a free range inside the domain. -/
def usable (alignment : ℕ) (domain range : ByteRange) : ℕ :=
  usableBetween alignment domain range.offset range.stop

def totalUsable (alignment : ℕ) (domain : ByteRange) (free : List ByteRange) : ℕ :=
  (free.map (usable alignment domain)).sum

/-- How many ranges have any capacity. -/
def usefulCount (alignment : ℕ) (domain : ByteRange) (free : List ByteRange) : ℕ :=
  free.countP fun r => usable alignment domain r ≠ 0

theorem le_roundUp {value alignment : ℕ} (ha : 0 < alignment) : value ≤ roundUp value alignment := by
  have h := Nat.div_add_mod (value + (alignment - 1)) alignment
  have hmod := Nat.mod_lt (value + (alignment - 1)) ha
  rw [roundUp, Nat.mul_comm]
  omega

theorem roundUp_mod (value alignment : ℕ) : roundUp value alignment % alignment = 0 :=
  Nat.mul_mod_left _ _

theorem roundUp_mono {value value' : ℕ} (alignment : ℕ) (h : value ≤ value') :
    roundUp value alignment ≤ roundUp value' alignment :=
  Nat.mul_le_mul_right _ (Nat.div_le_div_right (Nat.add_le_add_right h _))

theorem roundUp_of_mod {value alignment : ℕ} (ha : 0 < alignment) (h : value % alignment = 0) :
    roundUp value alignment = value := by
  obtain ⟨k, rfl⟩ := Nat.dvd_of_mod_eq_zero h
  rw [roundUp, Nat.mul_add_div ha, Nat.div_eq_of_lt (by omega), Nat.add_zero, Nat.mul_comm]

theorem alignedStart_eq {value alignment : ℕ} (ha : isPowerOfTwo alignment)
    (h : value + (alignment - 1) < wordBound) :
    alignedStart value alignment = .ok (roundUp value alignment) := by
  have hdiv : value + (alignment - 1) - (value + (alignment - 1)) % alignment =
      roundUp value alignment := by
    rw [roundUp, Nat.mul_comm]
    have := Nat.div_add_mod (value + (alignment - 1)) alignment
    omega
  rw [alignedStart, checkedAdd_of_lt h, orErr_some, ok_bind, clearLow_eq ha h, hdiv]
  rfl

theorem isPowerOfTwo.le_half {a : ℕ} (ha : isPowerOfTwo a) (h : a < wordBound) : a ≤ 2 ^ 63 := by
  obtain ⟨-, hpow⟩ := ha
  rw [← hpow] at h ⊢
  unfold wordBound at h
  exact Nat.pow_le_pow_right (by norm_num)
    (Nat.le_of_lt_succ ((Nat.pow_lt_pow_iff_right (by norm_num)).1 h))

section Usable

variable {alignment : ℕ} {domain : ByteRange} (ha : 0 < alignment)

include ha in
theorem usableBetween_of_le {lo hi : ℕ} (h : hi ≤ lo) : usableBetween alignment domain lo hi = 0 := by
  have := @le_roundUp (max lo domain.offset) alignment ha
  rw [usableBetween, Nat.sub_eq_zero_of_le (by omega), Nat.zero_div, Nat.zero_mul]

/-- A nonzero part of the capacity fits behind the aligned start. -/
theorem add_le_of_le_usable {lo hi next : ℕ} (hpos : 0 < next)
    (h : next ≤ usableBetween alignment domain lo hi) :
    roundUp (max lo domain.offset) alignment + next ≤ min hi domain.stop := by
  have hle : usableBetween alignment domain lo hi ≤
      min hi domain.stop - roundUp (max lo domain.offset) alignment := Nat.div_mul_le_self _ _
  omega

include ha in
/-- A range without capacity has no room for an aligned unit. -/
theorem lt_of_usable_eq_zero {lo hi next : ℕ} (hpos : 0 < next) (hmod : next % alignment = 0)
    (h : usableBetween alignment domain lo hi = 0) :
    min hi domain.stop < roundUp (max lo domain.offset) alignment + next := by
  obtain ⟨k, rfl⟩ := Nat.dvd_of_mod_eq_zero hmod
  have hk : alignment ≤ alignment * k :=
    Nat.le_mul_of_pos_right _ (Nat.pos_of_ne_zero (by rintro rfl; simp at hpos))
  have hdiv : (min hi domain.stop - roundUp (max lo domain.offset) alignment) / alignment = 0 :=
    (Nat.mul_eq_zero.1 h).resolve_right ha.ne'
  have hlt := (Nat.div_eq_zero_iff.1 hdiv).resolve_left ha.ne'
  omega

/-- Nothing usable is left in front of the aligned start. -/
theorem usableBetween_front (lo : ℕ) :
    usableBetween alignment domain lo (roundUp (max lo domain.offset) alignment) = 0 := by
  rw [usableBetween, Nat.sub_eq_zero_of_le (min_le_left _ _), Nat.zero_div, Nat.zero_mul]

include ha in
/-- What a taken part leaves behind it. -/
theorem usableBetween_back {lo hi next : ℕ} (hmod : next % alignment = 0) :
    usableBetween alignment domain (roundUp (max lo domain.offset) alignment + next) hi =
      usableBetween alignment domain lo hi - next := by
  obtain ⟨k, rfl⟩ := Nat.dvd_of_mod_eq_zero hmod
  have hle := @le_roundUp (max lo domain.offset) alignment ha
  have hstart : roundUp (max (roundUp (max lo domain.offset) alignment + alignment * k) domain.offset)
      alignment = roundUp (max lo domain.offset) alignment + alignment * k := by
    rw [max_eq_left (by omega)]
    refine roundUp_of_mod ha ?_
    rw [Nat.add_mul_mod_self_left, roundUp_mod]
  rw [usableBetween, usableBetween, hstart, Nat.sub_add_eq, Nat.sub_mul_div, Nat.sub_mul,
    Nat.mul_comm k]

end Usable

/-! ## One round -/

/-- The ranges end inside a volume of less than `2 ^ 63` bytes, so no sum below overflows. -/
def InVolume (free : List ByteRange) : Prop := ∀ r ∈ free, r.stop < 2 ^ 63

theorem totalUsable_append (alignment : ℕ) (domain : ByteRange) (l l' : List ByteRange) :
    totalUsable alignment domain (l ++ l') =
      totalUsable alignment domain l + totalUsable alignment domain l' := by
  rw [totalUsable, List.map_append, List.sum_append]
  rfl

theorem totalUsable_cons (alignment : ℕ) (domain r : ByteRange) (l : List ByteRange) :
    totalUsable alignment domain (r :: l) =
      usable alignment domain r + totalUsable alignment domain l := by
  rw [totalUsable, List.map_cons, List.sum_cons]
  rfl

theorem usefulCount_append (alignment : ℕ) (domain : ByteRange) (l l' : List ByteRange) :
    usefulCount alignment domain (l ++ l') =
      usefulCount alignment domain l + usefulCount alignment domain l' := List.countP_append

theorem usefulCount_cons (alignment : ℕ) (domain r : ByteRange) (l : List ByteRange) :
    usefulCount alignment domain (r :: l) =
      usefulCount alignment domain l + if usable alignment domain r ≠ 0 then 1 else 0 := by
  rw [usefulCount, List.countP_cons]
  simp only [decide_eq_true_eq]
  rfl

section Gap

variable {alignment : ℕ} {domain : ByteRange} (ha : 0 < alignment)

theorem usable_gap {lo hi : ℕ} (h : lo < hi) :
    usable alignment domain ⟨lo, hi - lo⟩ = usableBetween alignment domain lo hi := by
  rw [usable, Span.stop, Nat.add_sub_cancel' h.le]

include ha in
theorem totalUsable_gap (lo hi : ℕ) :
    totalUsable alignment domain (gap lo hi) = usableBetween alignment domain lo hi := by
  unfold gap
  split_ifs with h
  · rw [totalUsable, List.map_singleton, List.sum_singleton, usable_gap h]
  · rw [usableBetween_of_le ha (by omega)]
    rfl

theorem usefulCount_gap (lo hi : ℕ) :
    usefulCount alignment domain (gap lo hi) ≤
      if usableBetween alignment domain lo hi ≠ 0 then 1 else 0 := by
  unfold gap
  split_ifs with h h' h'
  · rw [usefulCount_cons]
    split_ifs <;> simp [usefulCount]
  · rw [usefulCount_cons, usable_gap h, if_neg h']
    exact le_rfl
  · exact Nat.zero_le _
  · exact le_rfl

theorem length_gap_le (lo hi : ℕ) : (gap lo hi).length ≤ 1 := by
  unfold gap
  split_ifs <;> simp

end Gap

section Round

variable {alignment : ℕ} {domain : ByteRange} (ha : isPowerOfTwo alignment)
  (hword : alignment < wordBound)

theorem rangeEnd_inVolume {r : ByteRange} (h : r.stop < 2 ^ 63) : rangeEnd r = .ok r.stop :=
  rangeEnd_ok_iff.2 ⟨by unfold wordBound; omega, rfl⟩

include ha hword in
theorem alignedStart_inVolume {r : ByteRange} (h : r.stop < 2 ^ 63)
    (hstart : max r.offset domain.offset < min r.stop domain.stop) :
    alignedStart (max r.offset domain.offset) alignment =
      .ok (roundUp (max r.offset domain.offset) alignment) := by
  have hhalf := ha.le_half hword
  refine alignedStart_eq ha ?_
  unfold wordBound
  omega

include ha hword in
/-- The first range that has any capacity is the one measured. -/
theorem measureNext_eq {free : List ByteRange} (hvol : InVolume free) :
    measureNext alignment domain domain.stop free =
      .ok ((free.map (usable alignment domain)).find? fun n => decide (n ≠ 0)) := by
  induction free with
  | nil => rfl
  | cons range rest ih =>
    obtain ⟨hstop, hrest⟩ := List.forall_mem_cons.1 hvol
    have hskip : usable alignment domain range = 0 →
        measureNext alignment domain domain.stop rest =
          .ok (((range :: rest).map (usable alignment domain)).find? fun n => decide (n ≠ 0)) := by
      intro hzero
      rw [ih hrest, List.map_cons, List.find?_cons_of_neg (by simpa using hzero)]
    rw [measureNext, rangeEnd_inVolume hstop, ok_bind]
    split_ifs with hempty
    · have hle := @le_roundUp (max range.offset domain.offset) alignment ha.pos
      refine hskip ?_
      rw [usable, usableBetween, Nat.sub_eq_zero_of_le (by omega), Nat.zero_div, Nat.zero_mul]
    · rw [alignedStart_inVolume ha hword hstop (by omega), ok_bind]
      split_ifs with hnone
      · refine hskip ?_
        rw [usable, usableBetween, Nat.sub_eq_zero_of_le hnone, Nat.zero_div, Nat.zero_mul]
      · have husable : clearLow (min range.stop domain.stop -
            roundUp (max range.offset domain.offset) alignment) alignment =
              usable alignment domain range := by
          set room := min range.stop domain.stop - roundUp (max range.offset domain.offset) alignment
          have hroom : room ≤ range.stop := (Nat.sub_le _ _).trans (min_le_left _ _)
          have hdiv := Nat.div_add_mod' room alignment
          have hclear : room - room % alignment = room / alignment * alignment := by omega
          rw [clearLow_eq ha (by unfold wordBound; omega), hclear]
          rfl
        dsimp only
        rw [husable]
        split_ifs with hne
        · rw [List.map_cons, List.find?_cons_of_pos (by simpa using hne)]
          rfl
        · exact hskip (not_not.1 hne)

/-- What one round leaves of the free list. -/
structure Leaves (alignment : ℕ) (domain : ByteRange) (working left : List ByteRange)
    (measured taken : ℕ) : Prop where
  inVolume : InVolume left
  total : totalUsable alignment domain left + taken = totalUsable alignment domain working
  useful : taken = measured →
    usefulCount alignment domain left < usefulCount alignment domain working
  length : left.length ≤ working.length + 1

include ha in
/-- Taking a part of the first range with any capacity. -/
theorem leaves_split {front rest : List ByteRange} {range : ByteRange} {next : ℕ}
    (hvol : InVolume (front ++ range :: rest)) (hpos : 0 < next)
    (hle : next ≤ usable alignment domain range) (hmod : next % alignment = 0) :
    Leaves alignment domain (front ++ range :: rest)
      (front ++ (gap range.offset (roundUp (max range.offset domain.offset) alignment) ++
        (gap (roundUp (max range.offset domain.offset) alignment + next) range.stop ++ rest)))
      (usable alignment domain range) next := by
  set start := roundUp (max range.offset domain.offset) alignment with hstart
  have hfit := @add_le_of_le_usable alignment domain range.offset range.stop next hpos hle
  have hback := @usableBetween_back alignment domain ha.pos range.offset range.stop next hmod
  have hfront := @usableBetween_front alignment domain range.offset
  rw [← hstart] at hfit hback hfront
  have hge := @le_roundUp (max range.offset domain.offset) alignment ha.pos
  refine ⟨?_, ?_, ?_, ?_⟩
  · intro r hr
    simp only [List.mem_append] at hr
    have hrange := hvol range (by simp)
    rcases hr with hr | hr | hr | hr
    · exact hvol r (by simp [hr])
    · obtain ⟨hlt, rfl⟩ := mem_gap.1 hr
      show range.offset + (start - range.offset) < 2 ^ 63
      omega
    · obtain ⟨hlt, rfl⟩ := mem_gap.1 hr
      show start + next + (range.stop - (start + next)) < 2 ^ 63
      omega
    · exact hvol r (by simp [hr])
  · simp only [totalUsable_append, totalUsable_cons, totalUsable_gap ha.pos, hfront, hback]
    rw [usable] at hle ⊢
    omega
  · intro htaken
    have hcount1 := @usefulCount_gap alignment domain range.offset start
    have hcount2 := @usefulCount_gap alignment domain (start + next) range.stop
    rw [hfront, if_neg (by simp)] at hcount1
    rw [hback, if_neg (by rw [usable] at htaken; omega)] at hcount2
    simp only [usefulCount_append, usefulCount_cons]
    rw [if_pos (by omega)]
    omega
  · have h1 := length_gap_le range.offset start
    have h2 := length_gap_le (start + next) range.stop
    simp only [List.length_append, List.length_cons]
    omega

theorem splitRange_of_lt {maximum total : ℕ} {range : ByteRange} {stop aligned destinationEnd : ℕ}
    {rest : List ByteRange} (h1 : range.offset ≤ aligned) (h2 : destinationEnd ≤ stop) :
    splitRange maximum total range stop aligned destinationEnd rest =
        .ok (gap range.offset aligned ++ (gap destinationEnd stop ++ rest)) ∨
      (maximum ≤ total ∧ splitRange maximum total range stop aligned destinationEnd rest =
        .error (.freeRangeLimitExceeded maximum)) := by
  cases h : splitRange maximum total range stop aligned destinationEnd rest with
  | ok left => exact .inl (by rw [splitRange_ok h1 h2 h])
  | error e =>
    right
    unfold splitRange at h
    split at h <;> try cases h
    by_cases htotal : total < maximum
    · rw [ensure_of htotal] at h
      cases h
    · rw [ensure_of_not htotal] at h
      cases h
      exact ⟨by omega, rfl⟩

include ha hword in
/-- First fit passes over the ranges without capacity and splits the measured one. -/
theorem firstFitFrom_measured {free : List ByteRange} {measured next maximum total : ℕ}
    (hfree : FreeList free) (hvol : InVolume free)
    (hfind : (free.map (usable alignment domain)).find? (fun n => decide (n ≠ 0)) = some measured)
    (hpos : 0 < next) (hle : next ≤ measured) (hmod : next % alignment = 0) :
    ∃ front range rest, free = front ++ range :: rest ∧ usable alignment domain range = measured ∧
      firstFitFrom next alignment domain domain.stop maximum total free = (do
        let left ← splitRange maximum total range range.stop
          (roundUp (max range.offset domain.offset) alignment)
          (roundUp (max range.offset domain.offset) alignment + next) rest
        pure (some (⟨roundUp (max range.offset domain.offset) alignment, next⟩, front ++ left))) := by
  induction free with
  | nil => cases hfind
  | cons range rest ih =>
    obtain ⟨hstop, hrestVol⟩ := List.forall_mem_cons.1 hvol
    rw [firstFitFrom, rangeEnd_inVolume hstop, ok_bind]
    dsimp only
    by_cases hzero : usable alignment domain range = 0
    · rw [List.map_cons, List.find?_cons_of_neg (by simpa using hzero)] at hfind
      obtain ⟨front, found, rest', rfl, hmeasured, heq⟩ := ih hfree.tail hrestVol hfind
      refine ⟨range :: front, found, rest', rfl, hmeasured, ?_⟩
      rw [heq]
      have hskip : (do
          let out ← (do
            let left ← splitRange maximum total found found.stop
              (roundUp (max found.offset domain.offset) alignment)
              (roundUp (max found.offset domain.offset) alignment + next) rest'
            pure (some (⟨roundUp (max found.offset domain.offset) alignment, next⟩,
              front ++ left)) : Solved (Option (ByteRange × List ByteRange)))
          pure (out.map fun r => (r.1, range :: r.2))) = (do
        let left ← splitRange maximum total found found.stop
          (roundUp (max found.offset domain.offset) alignment)
          (roundUp (max found.offset domain.offset) alignment + next) rest'
        pure (some (⟨roundUp (max found.offset domain.offset) alignment, next⟩,
          range :: front ++ left)) : Solved (Option (ByteRange × List ByteRange))) := by
        simp only [bind_assoc, pure_bind, Option.map_some, List.cons_append]
      rw [hskip]
      split_ifs with hempty
      · rfl
      · -- The measured range lies behind this one, so nothing overflows before it is reached.
        have hbefore := hfree.before found (by simp)
        have hoffset : max range.offset domain.offset ≤ max found.offset domain.offset := by
          have : range.offset ≤ range.stop := Nat.le_add_right _ _
          unfold Span.Before at hbefore
          omega
        have hmono := roundUp_mono alignment hoffset
        have hfit := @add_le_of_le_usable alignment domain found.offset found.stop next hpos
          (show next ≤ usableBetween alignment domain found.offset found.stop from
            hle.trans_eq hmeasured.symm)
        have hfound := hrestVol found (by simp)
        rw [alignedStart_inVolume ha hword hstop (by omega), ok_bind,
          checkedAdd_of_lt (by unfold wordBound; omega), orErr_some, ok_bind,
          if_pos (lt_of_usable_eq_zero ha.pos hpos hmod hzero)]
    · rw [List.map_cons, List.find?_cons_of_pos (by simpa using hzero)] at hfind
      obtain rfl := Option.some.inj hfind
      refine ⟨[], range, rest, rfl, rfl, ?_⟩
      have hfit := @add_le_of_le_usable alignment domain range.offset range.stop next hpos
        (show next ≤ usableBetween alignment domain range.offset range.stop from hle)
      have hge := @le_roundUp (max range.offset domain.offset) alignment ha.pos
      rw [if_neg (by omega), alignedStart_inVolume ha hword hstop (by omega), ok_bind,
        checkedAdd_of_lt (by unfold wordBound; omega), orErr_some, ok_bind, if_neg (by omega)]
      rfl

include ha hword in
/-- **One round.** What was measured is found again, unless the split needs more free ranges than
allowed. -/
theorem allocate_measured {working : List ByteRange} {measured next maximum : ℕ}
    (hfree : FreeList working) (hvol : InVolume working)
    (hdomain : domain.stop < wordBound)
    (hfind : (working.map (usable alignment domain)).find? (fun n => decide (n ≠ 0)) = some measured)
    (hpos : 0 < next) (hle : next ≤ measured) (hmod : next % alignment = 0) :
    (∃ span left, allocateFirstFitAlignedWithin working next alignment domain maximum =
        .ok (some (span, left)) ∧ Leaves alignment domain working left measured next) ∨
      (maximum ≤ working.length ∧
        allocateFirstFitAlignedWithin working next alignment domain maximum =
          .error (.freeRangeLimitExceeded maximum)) := by
  obtain ⟨front, range, rest, rfl, rfl, heq⟩ := @firstFitFrom_measured alignment domain ha
    hword working measured next maximum working.length hfree hvol hfind hpos hle hmod
  have hfit := @add_le_of_le_usable alignment domain range.offset range.stop next hpos
    (show next ≤ usableBetween alignment domain range.offset range.stop from hle)
  have hge := @le_roundUp (max range.offset domain.offset) alignment ha.pos
  have hend : rangeEnd domain = .ok domain.stop := rangeEnd_ok_iff.2 ⟨hdomain, rfl⟩
  rw [allocateFirstFitAlignedWithin, hend, ok_bind, heq]
  rcases @splitRange_of_lt maximum (front ++ range :: rest).length range range.stop
    (roundUp (max range.offset domain.offset) alignment)
    (roundUp (max range.offset domain.offset) alignment + next) rest (by omega) (by omega) with h | ⟨htotal, h⟩
  · rw [h]
    exact .inl ⟨_, _, rfl, leaves_split ha hvol hpos hle hmod⟩
  · rw [h]
    exact .inr ⟨htotal, rfl⟩

end Round

/-! ## The loop -/

section Loop

variable {alignment : ℕ} {domain : ByteRange} (ha : isPowerOfTwo alignment)
  (hword : alignment < wordBound) (hdomain : domain.stop < wordBound)

theorem find?_usable_eq_none {free : List ByteRange}
    (h : (free.map (usable alignment domain)).find? (fun n => decide (n ≠ 0)) = none) :
    totalUsable alignment domain free = 0 := by
  rw [List.find?_eq_none] at h
  refine List.sum_eq_zero fun n hn => ?_
  simpa using h n hn

theorem usable_of_find? {free : List ByteRange} {measured : ℕ}
    (h : (free.map (usable alignment domain)).find? (fun n => decide (n ≠ 0)) = some measured) :
    0 < measured ∧ measured % alignment = 0 ∧ measured ≤ totalUsable alignment domain free ∧
      0 < usefulCount alignment domain free := by
  have hne : measured ≠ 0 := by simpa using List.find?_some h
  obtain ⟨r, hr, rfl⟩ := List.mem_map.1 (List.mem_of_find?_eq_some h)
  refine ⟨Nat.pos_of_ne_zero hne, Nat.mul_mod_left _ _,
    List.single_le_sum (by simp) _ (List.mem_map_of_mem hr), ?_⟩
  exact List.countP_pos_iff.2 ⟨r, hr, by simpa using hne⟩

/-- How a round of the loop goes on: nothing has any capacity, the split was refused, or the loop
continues with what the round left. -/
inductive RoundEnd (maximumFreeRanges : ℕ) (working : List ByteRange) (remaining : ℕ) : Prop
  | exhausted (h : measureNext alignment domain domain.stop working = .ok none)
      (total : totalUsable alignment domain working = 0)
  | refused (measured : ℕ)
      (h : measureNext alignment domain domain.stop working = .ok (some measured))
      (full : maximumFreeRanges ≤ working.length)
      (useful : 0 < usefulCount alignment domain working)
      (fit : allocateFirstFitAlignedWithin working (min measured remaining) alignment domain
        maximumFreeRanges = .error (.freeRangeLimitExceeded maximumFreeRanges))
  | continued (measured : ℕ) (span : ByteRange) (left : List ByteRange)
      (h : measureNext alignment domain domain.stop working = .ok (some measured))
      (fit : allocateFirstFitAlignedWithin working (min measured remaining) alignment domain
        maximumFreeRanges = .ok (some (span, left)))
      (leaves : Leaves alignment domain working left measured (min measured remaining))
      (free : FreeList left) (taken : span.length = min measured remaining)
      (aligned : min measured remaining % alignment = 0)
      (useful : 0 < usefulCount alignment domain working)

include ha hword hdomain in
theorem roundEnd {working : List ByteRange} {remaining : ℕ} (maximumFreeRanges : ℕ)
    (hfree : FreeList working) (hvol : InVolume working) (hne : remaining ≠ 0)
    (hmod : remaining % alignment = 0) :
    @RoundEnd alignment domain maximumFreeRanges working remaining := by
  have hmeasure := @measureNext_eq alignment domain ha hword working hvol
  cases hfind : (working.map (usable alignment domain)).find? fun n => decide (n ≠ 0) with
  | none => exact .exhausted (by rw [hmeasure, hfind]) (find?_usable_eq_none hfind)
  | some measured =>
    obtain ⟨hpos, hmod', -, huseful⟩ := usable_of_find? hfind
    rw [hfind] at hmeasure
    have hmin : min measured remaining % alignment = 0 := by
      rcases min_choice measured remaining with h | h <;> rw [h] <;> assumption
    rcases @allocate_measured alignment domain ha hword working measured
      (min measured remaining) maximumFreeRanges hfree hvol hdomain hfind
      (show 0 < min measured remaining by omega) (min_le_left _ _) hmin with
      ⟨span, left, hfit, hleaves⟩ | ⟨hfull, hfit⟩
    · obtain ⟨hcarved, hlen⟩ := allocateFirstFitAlignedWithin_carved ha hfree hfit
      exact .continued measured span left hmeasure hfit hleaves hcarved.left_free hlen hmin huseful
    · exact .refused measured hmeasure hfull huseful hfit

/-- A continued round in front of the rest of the loop. -/
theorem fragmentedLoop_continued {maximumRanges maximumFreeRanges remaining measured : ℕ}
    (room : ℕ) {working left : List ByteRange} {span : ByteRange} (hne : remaining ≠ 0)
    (h : measureNext alignment domain domain.stop working = .ok (some measured))
    (fit : allocateFirstFitAlignedWithin working (min measured remaining) alignment domain
      maximumFreeRanges = .ok (some (span, left))) :
    fragmentedLoop alignment domain domain.stop maximumRanges maximumFreeRanges (room + 1) working
        remaining = (do
      let more ← fragmentedLoop alignment domain domain.stop maximumRanges maximumFreeRanges room left
        (remaining - min measured remaining)
      pure (more.map fun r => (span :: r.1, r.2))) := by
  rw [fragmentedLoop, if_neg hne, h, ok_bind]
  dsimp only
  rw [fit, ok_bind, orErr_some, ok_bind]

include ha hword hdomain in
/-- A stream is served if the capacity suffices and both bounds are wide enough. -/
theorem fragmentedLoop_complete {maximumRanges maximumFreeRanges room remaining : ℕ}
    {working : List ByteRange} (hfree : FreeList working) (hvol : InVolume working)
    (hmod : remaining % alignment = 0) (htotal : remaining ≤ totalUsable alignment domain working)
    (hroom : usefulCount alignment domain working ≤ room)
    (hmax : working.length + usefulCount alignment domain working ≤ maximumFreeRanges) :
    ∃ r, fragmentedLoop alignment domain domain.stop maximumRanges maximumFreeRanges room working
      remaining = .ok (some r) := by
  induction room generalizing working remaining with
  | zero =>
    by_cases hz : remaining = 0
    · exact ⟨_, by rw [fragmentedLoop, if_pos hz, pure_eq_ok]⟩
    · cases roundEnd ha hword hdomain maximumFreeRanges hfree hvol hz hmod with
      | exhausted h total => omega
      | refused measured h full useful fit => omega
      | continued measured span left h fit leaves free taken aligned useful => omega
  | succ room ih =>
    by_cases hz : remaining = 0
    · exact ⟨_, by rw [fragmentedLoop, if_pos hz, pure_eq_ok]⟩
    · cases roundEnd ha hword hdomain maximumFreeRanges hfree hvol hz hmod with
      | exhausted h total => omega
      | refused measured h full useful fit => omega
      | continued measured span left h fit leaves free taken aligned useful =>
        have htot := leaves.total
        have hlen := leaves.length
        have hsub : (remaining - min measured remaining) % alignment = 0 :=
          Nat.sub_mod_eq_zero_of_mod_eq (hmod.trans aligned.symm)
        have hserved : ∃ r, fragmentedLoop alignment domain domain.stop maximumRanges
            maximumFreeRanges room left (remaining - min measured remaining) = .ok (some r) := by
          by_cases hall : min measured remaining = measured
          · have hless := leaves.useful hall
            exact ih free leaves.inVolume hsub (by omega) (by omega) (by omega)
          · have hzero : remaining - min measured remaining = 0 := by omega
            rw [hzero]
            exact ⟨_, by rw [fragmentedLoop, if_pos rfl, pure_eq_ok]⟩
        obtain ⟨r, hr⟩ := hserved
        rw [fragmentedLoop_continued room hz h fit, hr]
        exact ⟨_, rfl⟩

include ha hword hdomain in
/-- Only as much is served as there is capacity; the measured range is never lost. -/
theorem fragmentedLoop_bounded {maximumRanges maximumFreeRanges room remaining : ℕ}
    {working : List ByteRange} (hfree : FreeList working) (hvol : InVolume working)
    (hmod : remaining % alignment = 0) :
    (∀ r, fragmentedLoop alignment domain domain.stop maximumRanges maximumFreeRanges room working
        remaining = .ok (some r) → remaining ≤ totalUsable alignment domain working ∧
          ∀ s ∈ r.1, s.length % alignment = 0) ∧
      fragmentedLoop alignment domain domain.stop maximumRanges maximumFreeRanges room working
        remaining ≠ .error .measuredRangeLost := by
  induction room generalizing working remaining with
  | zero =>
    by_cases hz : remaining = 0
    · rw [fragmentedLoop, if_pos hz]
      refine ⟨fun r h => ?_, by rintro ⟨⟩⟩
      cases h
      exact ⟨by omega, by simp⟩
    · rw [fragmentedLoop, if_neg hz]
      cases roundEnd ha hword hdomain maximumFreeRanges hfree hvol hz hmod with
      | exhausted h total =>
        rw [h, ok_bind]
        exact ⟨by rintro r ⟨⟩, by rintro ⟨⟩⟩
      | refused measured h full useful fit =>
        rw [h, ok_bind]
        exact ⟨by rintro r ⟨⟩, by rintro ⟨⟩⟩
      | continued measured span left h fit leaves free taken aligned useful =>
        rw [h, ok_bind]
        exact ⟨by rintro r ⟨⟩, by rintro ⟨⟩⟩
  | succ room ih =>
    by_cases hz : remaining = 0
    · rw [fragmentedLoop, if_pos hz]
      refine ⟨fun r h => ?_, by rintro ⟨⟩⟩
      cases h
      exact ⟨by omega, by simp⟩
    · cases roundEnd ha hword hdomain maximumFreeRanges hfree hvol hz hmod with
      | exhausted h total =>
        rw [fragmentedLoop, if_neg hz, h, ok_bind]
        exact ⟨by rintro r ⟨⟩, by rintro ⟨⟩⟩
      | refused measured h full useful fit =>
        rw [fragmentedLoop, if_neg hz, h, ok_bind]
        dsimp only
        rw [fit, error_bind]
        exact ⟨by rintro r ⟨⟩, by rintro ⟨⟩⟩
      | continued measured span left h fit leaves free taken aligned useful =>
        have hsub : (remaining - min measured remaining) % alignment = 0 :=
          Nat.sub_mod_eq_zero_of_mod_eq (hmod.trans aligned.symm)
        obtain ⟨hsome, hlost⟩ := ih free leaves.inVolume hsub
        rw [fragmentedLoop_continued room hz h fit]
        cases hloop : fragmentedLoop alignment domain domain.stop maximumRanges maximumFreeRanges
            room left (remaining - min measured remaining) with
        | error e =>
          refine ⟨by rintro r ⟨⟩, ?_⟩
          rw [hloop] at hlost
          exact hlost
        | ok more =>
          refine ⟨?_, by rintro ⟨⟩⟩
          rintro r hr
          cases more with
          | none => cases hr
          | some out =>
            cases hr
            obtain ⟨hle, halign⟩ := hsome out hloop
            have htot := leaves.total
            refine ⟨by omega, List.forall_mem_cons.2 ⟨?_, halign⟩⟩
            rw [taken]
            exact aligned

end Loop

/-! ## The allocation -/

/-- The allocation with the free list its caller holds afterwards: the function works on a copy, which
its last statement stores back. -/
def allocateFragmentedInPlace (free : List ByteRange) (length alignment : ℕ) (domain : ByteRange)
    (maximumRanges maximumFreeRanges : ℕ) : List ByteRange × Solved (Option (List ByteRange)) :=
  match allocateFirstFitFragmentedAlignedWithin free length alignment domain maximumRanges
    maximumFreeRanges with
  | .ok (some (spans, working)) => (working, .ok (some spans))
  | .ok none => (free, .ok none)
  | .error e => (free, .error e)

section Allocation

variable {free : List ByteRange} {length alignment maximumRanges maximumFreeRanges : ℕ}
  {domain : ByteRange}

theorem allocateFragmentedInPlace_some {spans : List ByteRange}
    (h : (allocateFragmentedInPlace free length alignment domain maximumRanges
      maximumFreeRanges).2 = .ok (some spans)) :
    allocateFirstFitFragmentedAlignedWithin free length alignment domain maximumRanges
      maximumFreeRanges = .ok (some (spans, (allocateFragmentedInPlace free length alignment domain
        maximumRanges maximumFreeRanges).1)) := by
  unfold allocateFragmentedInPlace at h ⊢
  split at h
  · next spans' working heq =>
    cases h
    rw [heq]
  · cases h
  · cases h

/-- Past its checks the function is the loop. -/
theorem allocateFirstFitFragmentedAlignedWithin_eq (ha : isPowerOfTwo alignment)
    (hlen : length ≠ 0 ∧ length % alignment = 0) (hdomain : domain.stop < wordBound)
    (haligned : domain.offset % alignment = 0 ∧ domain.length % alignment = 0)
    (hne : domain.length ≠ 0) (hranges : maximumRanges ≠ 0) (hfreeRanges : maximumFreeRanges ≠ 0) :
    allocateFirstFitFragmentedAlignedWithin free length alignment domain maximumRanges
        maximumFreeRanges =
      fragmentedLoop alignment domain domain.stop maximumRanges maximumFreeRanges maximumRanges free
        length := by
  have hend : rangeEnd domain = .ok domain.stop := rangeEnd_ok_iff.2 ⟨hdomain, rfl⟩
  rw [allocateFirstFitFragmentedAlignedWithin, ensure_of ha, ok_bind, ensure_of hlen, ok_bind,
    ensure_of hne, ok_bind, hend, ok_bind, ensure_of haligned, ok_bind, ensure_of hranges, ok_bind,
    ensure_of hfreeRanges, ok_bind, ok_bind]

/-- An empty domain and a bound of zero are refused. -/
theorem allocateFirstFitFragmentedAlignedWithin_refused (ha : isPowerOfTwo alignment)
    (hlen : length ≠ 0 ∧ length % alignment = 0) (hdomain : domain.stop < wordBound)
    (haligned : domain.offset % alignment = 0 ∧ domain.length % alignment = 0)
    (h : domain.length = 0 ∨ maximumRanges = 0 ∨ maximumFreeRanges = 0) :
    ∃ e, e ≠ .measuredRangeLost ∧ allocateFirstFitFragmentedAlignedWithin free length alignment
      domain maximumRanges maximumFreeRanges = .error e := by
  have hend : rangeEnd domain = .ok domain.stop := rangeEnd_ok_iff.2 ⟨hdomain, rfl⟩
  rw [allocateFirstFitFragmentedAlignedWithin, ensure_of ha, ok_bind, ensure_of hlen, ok_bind]
  by_cases hne : domain.length = 0
  · exact ⟨.zeroLengthRange domain.offset, by simp, by
      rw [ensure_of_not (not_not.2 hne), error_bind]⟩
  rw [ensure_of hne, ok_bind, hend, ok_bind, ensure_of haligned, ok_bind]
  by_cases hranges : maximumRanges = 0
  · exact ⟨.relocationLimitExceeded maximumRanges, by simp, by
      rw [ensure_of_not (not_not.2 hranges), error_bind]⟩
  have hfreeRanges : maximumFreeRanges = 0 := by tauto
  rw [ensure_of hranges, ok_bind]
  exact ⟨.invalidLimit "max_free_ranges", by simp, by
    rw [ensure_of_not (not_not.2 hfreeRanges), error_bind]⟩

end Allocation

/-- **The fragmented allocation is exact.** With room for one span and one split for every free range,
a stream is served if and only if the free ranges have the capacity for it. The spans are nonempty,
aligned and pairwise disjoint, lie inside the domain and are as long together as requested; the free
list is then the old one without them, and unchanged if nothing is served. The measured range is
found again under any bounds. -/
theorem fragmented_exact (free : List ByteRange) (length alignment : ℕ) (domain : ByteRange)
    (maximumRanges maximumFreeRanges : ℕ) (hfree : FreeList free) (hvol : InVolume free)
    (ha : isPowerOfTwo alignment) (hword : alignment < wordBound)
    (hlen : length ≠ 0 ∧ length % alignment = 0) (hdomain : domain.stop < wordBound)
    (haligned : domain.offset % alignment = 0 ∧ domain.length % alignment = 0) :
    let r := allocateFragmentedInPlace free length alignment domain maximumRanges maximumFreeRanges
    (free.length ≤ maximumRanges → 2 * free.length ≤ maximumFreeRanges →
      ((∃ spans, r.2 = .ok (some spans)) ↔ length ≤ totalUsable alignment domain free)) ∧
    (∀ spans, r.2 = .ok (some spans) → spans.Pairwise Span.Disjoint ∧
      (∀ s ∈ spans, 0 < s.length ∧ s.Inside domain ∧ s.offset % alignment = 0 ∧
        s.length % alignment = 0) ∧ (spans.map fun s => s.length).sum = length ∧
      cells r.1 = cells free \ cells spans ∧ FreeList r.1) ∧
    ((∀ spans, r.2 ≠ .ok (some spans)) → r.1 = free) ∧ r.2 ≠ .error .measuredRangeLost := by
  intro r
  have hbounded : r.2 ≠ .error .measuredRangeLost ∧ (∀ spans, r.2 = .ok (some spans) →
      length ≤ totalUsable alignment domain free ∧ (∀ s ∈ spans, s.length % alignment = 0) ∧
        Spans alignment domain free spans r.1 length) := by
    by_cases h : domain.length = 0 ∨ maximumRanges = 0 ∨ maximumFreeRanges = 0
    · obtain ⟨e, hne, he⟩ := @allocateFirstFitFragmentedAlignedWithin_refused free length
        alignment maximumRanges maximumFreeRanges domain ha hlen hdomain haligned h
      have hr : r = (free, .error e) := by
        simp only [r, allocateFragmentedInPlace, he]
      rw [hr]
      exact ⟨fun h => hne (Except.error.inj h), nofun⟩
    · simp only [not_or] at h
      have heq := @allocateFirstFitFragmentedAlignedWithin_eq free length alignment maximumRanges
        maximumFreeRanges domain ha hlen hdomain haligned h.1 h.2.1 h.2.2
      obtain ⟨hsome, hlost⟩ := @fragmentedLoop_bounded alignment domain ha hword hdomain
        maximumRanges maximumFreeRanges maximumRanges length free hfree hvol hlen.2
      refine ⟨fun hr => hlost ?_, fun spans hr => ?_⟩
      · rw [← heq]
        simp only [r, allocateFragmentedInPlace] at hr
        split at hr
        · cases hr
        · cases hr
        · next e he =>
          rw [he]
          exact congrArg _ (Except.error.inj hr)
      · have hout := allocateFragmentedInPlace_some hr
        rw [heq] at hout
        obtain ⟨hle, halign⟩ := hsome _ hout
        exact ⟨hle, halign, fragmentedLoop_spans ha hfree hout⟩
  refine ⟨fun hranges hfreeRanges => ⟨fun ⟨spans, h⟩ => (hbounded.2 spans h).1, fun hle => ?_⟩,
    fun spans h => ?_, fun h => ?_, hbounded.1⟩
  · have hne : domain.length ≠ 0 := by
      intro hzero
      have hnone : totalUsable alignment domain free = 0 := List.sum_eq_zero fun n hn => by
        obtain ⟨s, -, rfl⟩ := List.mem_map.1 hn
        have := @le_roundUp (max s.offset domain.offset) alignment ha.pos
        have hstop : domain.stop = domain.offset := by rw [Span.stop, hzero, Nat.add_zero]
        rw [usable, usableBetween, Nat.sub_eq_zero_of_le (by omega), Nat.zero_div, Nat.zero_mul]
      exact hlen.1 (by omega)
    have hcount : usefulCount alignment domain free ≤ free.length := List.countP_le_length
    have hnil : free ≠ [] := by
      rintro rfl
      exact hlen.1 (Nat.le_zero.1 hle)
    have hpos := List.length_pos_of_ne_nil hnil
    obtain ⟨out, hout⟩ := @fragmentedLoop_complete alignment domain ha hword hdomain maximumRanges
      maximumFreeRanges maximumRanges length free hfree hvol hlen.2 hle (by omega) (by omega)
    rw [← allocateFirstFitFragmentedAlignedWithin_eq ha hlen hdomain haligned hne (by omega)
      (by omega)] at hout
    exact ⟨out.1, by simp only [r, allocateFragmentedInPlace, hout]⟩
  · obtain ⟨-, halign, hspans⟩ := hbounded.2 spans h
    exact ⟨hspans.carved.disjoint, fun s hs => ⟨hspans.nonempty s hs, (hspans.carved.ok s hs).1,
      (hspans.carved.ok s hs).2, halign s hs⟩, hspans.sum, hspans.carved.cells_left,
      hspans.carved.left_free⟩
  · simp only [r, allocateFragmentedInPlace] at h ⊢
    split
    · next spans working heq =>
      rw [heq] at h
      exact absurd rfl (h spans)
    · rfl
    · rfl

/-- Three units of 4096 bytes out of two ranges, the first of which starts off the alignment. -/
theorem fragmented_exact_sample : ∃ spans,
    (allocateFragmentedInPlace [⟨4000, 8300⟩, ⟨20480, 4100⟩] 12288 4096 ⟨0, 65536⟩ 2 4).2 =
      .ok (some spans) :=
  ((fragmented_exact [⟨4000, 8300⟩, ⟨20480, 4100⟩] 12288 4096 ⟨0, 65536⟩ 2 4
    ⟨by simp [Ordered, Span.Before, Span.stop], by simp⟩ (by simp [InVolume, Span.stop])
    (by decide) (by decide) (by decide) (by decide) (by decide)).1 (by decide) (by decide)).2
      (by decide)

end Geometry

end StarConverter
