import Mathlib.Algebra.BigOperators.Intervals
import Mathlib.Data.List.Lex
import Mathlib.Tactic

/-!
# Blocks of unequal length and the Gregorian calendar

A count of units can be told as a block and a place in it, where the blocks stand one behind the
other and need not have one length: days are told as a year and a day of it, days of a year as a
month and a day of it. `blocksBefore` counts the units in front of a block, `findBlock` strips whole
blocks off a count, and places compare block first (`place_lt_iff`).

The Gregorian calendar is two such countings. A `CalendarTime` is a reading of calendar and clock to
a hundredth of a second; valid readings stand in the order of what they count from any epoch
(`CalendarTime.centiseconds_lt_iff`).
-/

namespace Base

section Blocks

variable {len : ℕ → ℕ} {first i j r s : ℕ}

/-- The units in the blocks from `first` up to but not including `i`. -/
def blocksBefore (len : ℕ → ℕ) (first i : ℕ) : ℕ := ∑ j ∈ Finset.Ico first i, len j

@[simp] theorem blocksBefore_self (len : ℕ → ℕ) (first : ℕ) : blocksBefore len first first = 0 := by
  simp [blocksBefore]

theorem blocksBefore_succ (h : first ≤ i) :
    blocksBefore len first (i + 1) = blocksBefore len first i + len i :=
  Finset.sum_Ico_succ_top h len

theorem blocksBefore_eq_add (h : i < j) :
    blocksBefore len i j = len i + blocksBefore len (i + 1) j :=
  Finset.sum_eq_sum_Ico_succ_bot h len

theorem blocksBefore_mono (len : ℕ → ℕ) (first : ℕ) (h : i ≤ j) :
    blocksBefore len first i ≤ blocksBefore len first j :=
  Finset.sum_le_sum_of_subset (Finset.Ico_subset_Ico_right h)

theorem blocksBefore_congr {len' : ℕ → ℕ} (h : ∀ k, first ≤ k → k < i → len k = len' k) :
    blocksBefore len first i = blocksBefore len' first i :=
  Finset.sum_congr rfl fun k hk => h k (Finset.mem_Ico.1 hk).1 (Finset.mem_Ico.1 hk).2

/-- A place lies in front of everything in a later block. -/
theorem place_lt_of_block_lt (hi : first ≤ i) (hr : r < len i) (hij : i < j) :
    blocksBefore len first i + r < blocksBefore len first j + s := by
  have h := blocksBefore_mono len first (show i + 1 ≤ j from hij)
  rw [blocksBefore_succ hi] at h
  omega

/-- Places compare by their blocks, and inside one block by their offsets. -/
theorem place_lt_iff (hi : first ≤ i) (hj : first ≤ j) (hr : r < len i) (hs : s < len j) :
    blocksBefore len first i + r < blocksBefore len first j + s ↔ i < j ∨ i = j ∧ r < s := by
  constructor
  · intro h
    rcases lt_trichotomy i j with hij | rfl | hij
    · exact .inl hij
    · exact .inr ⟨rfl, by omega⟩
    · have := place_lt_of_block_lt (s := r) hj hs hij
      omega
  · rintro (hij | ⟨rfl, hrs⟩)
    · exact place_lt_of_block_lt hi hr hij
    · omega

/-- Strips whole blocks off a count, from block `i` on; nothing when the block `last` is passed. -/
def findBlock (len : ℕ → ℕ) (last rest i : ℕ) : Option (ℕ × ℕ) :=
  if rest < len i then some (i, rest)
  else if last < i + 1 then none
  else findBlock len last (rest - len i) (i + 1)
termination_by last + 1 - i

theorem findBlock_eq_some_iff {last rest : ℕ} (hi : i ≤ last) :
    findBlock len last rest i = some (j, r) ↔
      i ≤ j ∧ j ≤ last ∧ r < len j ∧ rest = blocksBefore len i j + r := by
  fun_induction findBlock len last rest i with
  | case1 rest i h =>
    simp only [Option.some.injEq, Prod.mk.injEq]
    constructor
    · rintro ⟨rfl, rfl⟩
      exact ⟨le_rfl, hi, h, by simp⟩
    · rintro ⟨hij, -, hr, hrest⟩
      rcases hij.lt_or_eq with hlt | rfl
      · rw [blocksBefore_eq_add hlt] at hrest
        omega
      · exact ⟨rfl, by simpa using hrest⟩
  | case2 rest i h hlast =>
    simp only [reduceCtorEq, false_iff]
    rintro ⟨hij, hj, hr, hrest⟩
    obtain rfl : i = j := by omega
    simp only [blocksBefore_self, zero_add] at hrest
    omega
  | case3 rest i h hlast ih =>
    rw [ih (by omega)]
    constructor
    · rintro ⟨hij, hj, hr, hrest⟩
      exact ⟨by omega, hj, hr, by rw [blocksBefore_eq_add hij]; omega⟩
    · rintro ⟨hij, hj, hr, hrest⟩
      rcases hij.lt_or_eq with hlt | rfl
      · rw [blocksBefore_eq_add hlt] at hrest
        exact ⟨hlt, hj, hr, by omega⟩
      · simp only [blocksBefore_self, zero_add] at hrest
        omega

/-- A count has a block exactly when it ends before the last block does. -/
theorem findBlock_isSome_iff {last rest : ℕ} (hi : i ≤ last) :
    (findBlock len last rest i).isSome ↔ rest < blocksBefore len i (last + 1) := by
  fun_induction findBlock len last rest i with
  | case1 rest i h =>
    rw [blocksBefore_eq_add (by omega)]
    simp only [Option.isSome_some, true_iff]
    omega
  | case2 rest i h hlast =>
    obtain rfl : i = last := by omega
    rw [blocksBefore_succ le_rfl, blocksBefore_self]
    simp only [Option.isSome_none, Bool.false_eq_true, false_iff]
    omega
  | case3 rest i h hlast ih =>
    rw [ih (by omega), blocksBefore_eq_add (show i < last + 1 by omega)]
    omega

end Blocks

/-! ## The Gregorian calendar -/

namespace Gregorian

/-- Every fourth year is a leap year, but of the full centuries only every fourth. -/
def IsLeap (year : ℕ) : Prop := 4 ∣ year ∧ (¬ 100 ∣ year ∨ 400 ∣ year)

instance (year : ℕ) : Decidable (IsLeap year) := inferInstanceAs (Decidable (_ ∧ _))

def yearLength (year : ℕ) : ℕ := if IsLeap year then 366 else 365

/-- The length of one of the twelve months. -/
def monthLength (year month : ℕ) : ℕ :=
  if month = 2 then if IsLeap year then 29 else 28
  else if month = 4 ∨ month = 6 ∨ month = 9 ∨ month = 11 then 30
  else 31

theorem yearLength_le (year : ℕ) : yearLength year ≤ 366 := by
  unfold yearLength
  split_ifs <;> omega

theorem monthLength_le (year month : ℕ) : monthLength year month ≤ 31 := by
  unfold monthLength
  split_ifs <;> omega

theorem blocksBefore_monthLength (year : ℕ) : blocksBefore (monthLength year) 1 13 = yearLength year := by
  by_cases h : IsLeap year <;>
    simp [blocksBefore, Finset.sum_Ico_succ_top, monthLength, yearLength, h]

/-- The leap years up to and including a year. -/
def leapYearsThrough (year : ℕ) : ℕ := year / 4 - year / 100 + year / 400

theorem leapYearsThrough_succ (year : ℕ) :
    leapYearsThrough (year + 1) = leapYearsThrough year + if IsLeap (year + 1) then 1 else 0 := by
  have hle : year / 100 ≤ year / 4 := Nat.div_le_div_left (by norm_num) (by norm_num)
  unfold leapYearsThrough
  rw [Nat.succ_div, Nat.succ_div, Nat.succ_div]
  by_cases h : IsLeap (year + 1)
  · rw [if_pos h]
    unfold IsLeap at h
    split_ifs <;> omega
  · rw [if_neg h]
    unfold IsLeap at h
    split_ifs <;> omega

/-- The days before a year in closed form. -/
theorem blocksBefore_yearLength {first year : ℕ} (h : first ≤ year) :
    blocksBefore yearLength (first + 1) (year + 1) + leapYearsThrough first =
      (year - first) * 365 + leapYearsThrough year := by
  induction year, h using Nat.le_induction with
  | base => simp
  | succ year h ih =>
    rw [blocksBefore_succ (by omega), leapYearsThrough_succ, yearLength]
    split_ifs <;> omega

end Gregorian

/-! ## Calendar and clock -/

/-- A reading of calendar and clock. -/
structure CalendarTime where
  year : ℕ
  month : ℕ
  day : ℕ
  hour : ℕ
  minute : ℕ
  second : ℕ
  centisecond : ℕ
  deriving DecidableEq

namespace CalendarTime

open Gregorian

/-- The reading names a moment of the Gregorian calendar. -/
structure Valid (t : CalendarTime) : Prop where
  month_pos : 1 ≤ t.month
  month_le : t.month ≤ 12
  day_pos : 1 ≤ t.day
  day_le : t.day ≤ monthLength t.year t.month
  hour_lt : t.hour < 24
  minute_lt : t.minute < 60
  second_lt : t.second < 60
  centisecond_lt : t.centisecond < 100

/-- The days of the year in front of the reading's day. -/
def dayOfYear (t : CalendarTime) : ℕ := blocksBefore (monthLength t.year) 1 t.month + (t.day - 1)

/-- The days from the first day of the year `epoch`. -/
def dayNumber (epoch : ℕ) (t : CalendarTime) : ℕ :=
  blocksBefore yearLength epoch t.year + t.dayOfYear

/-- The hundredths of a second of the day. -/
def clock (t : CalendarTime) : ℕ :=
  ((t.hour * 60 + t.minute) * 60 + t.second) * 100 + t.centisecond

/-- The hundredths of a second from the start of the year `epoch`. -/
def centiseconds (epoch : ℕ) (t : CalendarTime) : ℕ := t.dayNumber epoch * 8640000 + t.clock

/-- Readings compare field by field, years first. -/
instance : LT CalendarTime where
  lt t u :=
    [t.year, t.month, t.day, t.hour, t.minute, t.second, t.centisecond] <
      [u.year, u.month, u.day, u.hour, u.minute, u.second, u.centisecond]

theorem lt_iff {t u : CalendarTime} :
    t < u ↔ t.year < u.year ∨ t.year = u.year ∧ (t.month < u.month ∨ t.month = u.month ∧
      (t.day < u.day ∨ t.day = u.day ∧ (t.hour < u.hour ∨ t.hour = u.hour ∧
        (t.minute < u.minute ∨ t.minute = u.minute ∧ (t.second < u.second ∨ t.second = u.second ∧
          t.centisecond < u.centisecond))))) := by
  show ([_, _, _, _, _, _, _] : List ℕ) < [_, _, _, _, _, _, _] ↔ _
  simp only [List.cons_lt_cons_iff, lt_irrefl, and_false, or_false]

theorem eq_of_not_lt {t u : CalendarTime} (h : ¬ t < u) (h' : ¬ u < t) : t = u := by
  rw [lt_iff] at h h'
  rw [CalendarTime.mk.injEq]
  omega

section Order

variable {epoch : ℕ} {t u : CalendarTime}

theorem Valid.clock_lt (h : t.Valid) : t.clock < 8640000 := by
  have h1 := h.hour_lt
  have h2 := h.minute_lt
  have h3 := h.second_lt
  have h4 := h.centisecond_lt
  unfold clock
  omega

theorem Valid.dayOfYear_lt (h : t.Valid) : t.dayOfYear < yearLength t.year := by
  have hle := blocksBefore_mono (monthLength t.year) 1 (show t.month + 1 ≤ 13 from Nat.succ_le_succ h.month_le)
  rw [blocksBefore_succ h.month_pos, blocksBefore_monthLength] at hle
  have h1 := h.day_pos
  have h2 := h.day_le
  unfold dayOfYear
  omega

theorem clock_lt_iff (ht : t.Valid) (hu : u.Valid) :
    t.clock < u.clock ↔ t.hour < u.hour ∨ t.hour = u.hour ∧ (t.minute < u.minute ∨
      t.minute = u.minute ∧ (t.second < u.second ∨ t.second = u.second ∧
        t.centisecond < u.centisecond)) := by
  have h1 := ht.minute_lt
  have h2 := ht.second_lt
  have h3 := ht.centisecond_lt
  have h4 := hu.minute_lt
  have h5 := hu.second_lt
  have h6 := hu.centisecond_lt
  unfold clock
  omega

theorem dayNumber_lt_iff (ht : t.Valid) (hu : u.Valid) (hte : epoch ≤ t.year)
    (hue : epoch ≤ u.year) :
    t.dayNumber epoch < u.dayNumber epoch ↔ t.year < u.year ∨ t.year = u.year ∧
      (t.month < u.month ∨ t.month = u.month ∧ t.day < u.day) := by
  unfold dayNumber
  rw [place_lt_iff hte hue ht.dayOfYear_lt hu.dayOfYear_lt]
  refine or_congr_right (and_congr_right fun hy => ?_)
  have h1 := ht.day_pos
  have h2 := ht.day_le
  have h3 := hu.day_pos
  have h4 := hu.day_le
  unfold dayOfYear
  rw [hy] at h2 ⊢
  rw [place_lt_iff ht.month_pos hu.month_pos (by omega) (by omega)]
  omega

/-- **Order of readings.** Valid readings stand in the order of the time since the epoch. -/
theorem centiseconds_lt_iff (ht : t.Valid) (hu : u.Valid) (hte : epoch ≤ t.year)
    (hue : epoch ≤ u.year) : t.centiseconds epoch < u.centiseconds epoch ↔ t < u := by
  have h1 := ht.clock_lt
  have h2 := hu.clock_lt
  have hday := dayNumber_lt_iff ht hu hte hue
  have hday' := dayNumber_lt_iff hu ht hue hte
  have hclock := clock_lt_iff ht hu
  rw [lt_iff]
  unfold centiseconds
  constructor
  · intro h
    rcases lt_trichotomy (t.dayNumber epoch) (u.dayNumber epoch) with hlt | heq | hgt
    · have := hday.1 hlt
      omega
    · have h3 : t.clock < u.clock := by omega
      have := hclock.1 h3
      have h4 := hday.not.1 (by omega)
      have h5 := hday'.not.1 (by omega)
      omega
    · omega
  · intro h
    rcases lt_trichotomy (t.dayNumber epoch) (u.dayNumber epoch) with hlt | heq | hgt
    · omega
    · have h4 := hday.not.1 (by omega)
      have h5 := hday'.not.1 (by omega)
      have h3 : t.clock < u.clock := hclock.2 (by omega)
      omega
    · have := hday'.1 hgt
      omega

end Order

end CalendarTime

end Base
