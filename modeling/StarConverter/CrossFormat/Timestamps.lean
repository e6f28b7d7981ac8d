import StarConverter.Exfat.Timestamps

/-!
# Timestamps across the two file systems

NTFS counts ticks of a hundred nanoseconds from the start of 1601, exFAT packs a calendar reading and
its offset from UTC. One direction strips years and months off a count of days, the other counts
days in closed form; both are the counting of the Gregorian calendar, so a FILETIME comes back
rounded down to what exFAT can hold and every exFAT timestamp keeps its moment
(`timestamps_exact`).
-/

namespace StarConverter.CrossFormat

open Base Gregorian Exfat

def ticksPerSecond : ℕ := 10000000

def ticksPer10Milliseconds : ℕ := 100000

def secondsPerDay : ℕ := 86400

def exfatEpochYear : ℕ := 1980

def filetimeEpochYear : ℕ := 1601

/-! ## Calendar arithmetic -/

def isLeapYear (year : ℕ) : Bool := year % 4 = 0 ∧ (year % 100 ≠ 0 ∨ year % 400 = 0)

def daysInMonth (year month : ℕ) : ℕ :=
  if month ∈ [1, 3, 5, 7, 8, 10, 12] then 31
  else if month ∈ [4, 6, 9, 11] then 30
  else if month = 2 then if isLeapYear year = true then 29 else 28
  else 0

def leapYearsThrough (year : ℕ) : ℕ := year / 4 - year / 100 + year / 400

def daysBeforeYear (year : ℕ) : Option ℕ :=
  if year < filetimeEpochYear then none
  else do
    let years := year - filetimeEpochYear
    let prior ← checkedSub year 1
    let leapDays ← checkedSub (leapYearsThrough prior) (leapYearsThrough (filetimeEpochYear - 1))
    let days ← checkedMul years 365
    checkedAdd days leapDays

def daysBeforeMonth (year month : ℕ) : Option ℕ :=
  (List.range' 1 (month - 1)).foldlM (fun days value => checkedAdd days (daysInMonth year value)) 0

/-- The lengths of the years that the conversion strips off a count of days. -/
def yearDays (year : ℕ) : ℕ := if isLeapYear year = true then 366 else 365

/-! ## From FILETIME to exFAT -/

/-- `u8::try_from`. -/
def toByte? (value : ℕ) : Option UInt8 := if value < 256 then some (UInt8.ofNat value) else none

def filetimeToExfatTimestamp (value : ℕ) (withIncrement : Bool) : Option (ℕ × UInt8) := do
  let ticksPerDay ← checkedMul secondsPerDay ticksPerSecond
  let dayTicks := value % ticksPerDay
  let (year, days) ← findBlock yearDays 2107 (value / ticksPerDay) filetimeEpochYear
  guard (exfatEpochYear ≤ year ∧ year ≤ 2107)
  let (month, days) ← findBlock (daysInMonth year) 12 days 1
  let totalSeconds := dayTicks / ticksPerSecond
  let hour := totalSeconds / 3600
  let minute := totalSeconds % 3600 / 60
  let second := totalSeconds % 60
  let fractional := dayTicks % ticksPerSecond / ticksPer10Milliseconds
  let increment ← toByte? (if withIncrement = true then second % 2 * 100 + fractional else 0)
  let day ← checkedAdd32 days 1
  pure ((year - exfatEpochYear) <<< 25 ||| month <<< 21 ||| day <<< 16 ||| hour <<< 11 |||
    minute <<< 5 ||| second / 2, increment)

/-- The creation, modification and access times of an NTFS object as exFAT timestamps in UTC. -/
def mapNtfsTimestamps (creation modification access : ℕ) : Option ExfatTimestamps := do
  let (create, createCentiseconds) ← filetimeToExfatTimestamp creation true
  let (modified, modifiedCentiseconds) ← filetimeToExfatTimestamp modification true
  let (accessed, _) ← filetimeToExfatTimestamp access false
  pure
    { create, modified, accessed, createCentiseconds, modifiedCentiseconds
      createUtcOffset := 0x80
      modifiedUtcOffset := 0x80
      accessedUtcOffset := 0x80 }

/-! ## From exFAT to FILETIME -/

/-- The quarter hours between the local clock and UTC. -/
def quarterHours (utcOffset : UInt8) : ℤ :=
  if utcOffset &&& 0x80 = 0 then 0
  else
    let rawOffset := (utcOffset &&& 0x7F).toNat
    if rawOffset &&& 0x40 = 0 then rawOffset else rawOffset - 128

/-- `u64::try_from`. -/
def toWord? (value : ℤ) : Option ℕ :=
  if 0 ≤ value ∧ value < wordBound then some value.toNat else none

def exfatTimestampToFiletime (raw : ℕ) (increment utcOffset : UInt8) : Option ℕ :=
  if 199 < increment then none
  else
    let year := exfatEpochYear + raw / 2 ^ 25 % 128
    let month := raw / 2 ^ 21 % 16
    let day := raw / 2 ^ 16 % 32
    let hour := raw / 2 ^ 11 % 32
    let minute := raw / 2 ^ 5 % 64
    let doubleSeconds := raw % 32
    if ¬ (1 ≤ month ∧ month ≤ 12) ∨ day = 0 ∨ daysInMonth year month < day ∨ 23 < hour ∨
        59 < minute ∨ 29 < doubleSeconds then none
    else do
      let yearDays ← daysBeforeYear year
      let monthDays ← daysBeforeMonth year month
      let days ← checkedAdd yearDays monthDays
      let days ← checkedAdd days (day - 1)
      let localSeconds ← checkedMul days secondsPerDay
      let localSeconds ← checkedAdd localSeconds (hour * 3600)
      let localSeconds ← checkedAdd localSeconds (minute * 60)
      let localSeconds ← checkedAdd localSeconds (doubleSeconds * 2)
      let seconds ← toWord? (localSeconds - quarterHours utcOffset * 15 * 60)
      let ticks ← checkedMul seconds ticksPerSecond
      checkedAdd ticks (increment.toNat * ticksPer10Milliseconds)

/-- The four times of an NTFS object. -/
structure NtfsObjectTimestamps where
  creationTime : ℕ
  modificationTime : ℕ
  mftChangeTime : ℕ
  accessTime : ℕ
  deriving DecidableEq

/-- exFAT has no time of a change of metadata of its own; the last modification stands for it. -/
def mapExfatTimestamps (value : ExfatTimestamps) : Option NtfsObjectTimestamps := do
  let creationTime ← exfatTimestampToFiletime value.create value.createCentiseconds
    value.createUtcOffset
  let modificationTime ← exfatTimestampToFiletime value.modified value.modifiedCentiseconds
    value.modifiedUtcOffset
  let accessTime ← exfatTimestampToFiletime value.accessed 0 value.accessedUtcOffset
  pure { creationTime, modificationTime, mftChangeTime := modificationTime, accessTime }

/-! ## The calendar of the conversions -/

theorem isLeapYear_iff {year : ℕ} : isLeapYear year = true ↔ IsLeap year := by
  unfold isLeapYear IsLeap
  rw [decide_eq_true_iff]
  omega

theorem yearDays_eq : yearDays = yearLength := by
  funext year
  simp only [yearDays, yearLength, isLeapYear_iff]

theorem daysInMonth_eq (year month : ℕ) :
    daysInMonth year month = if 1 ≤ month ∧ month ≤ 12 then monthLength year month else 0 := by
  unfold daysInMonth monthLength
  simp only [List.mem_cons, List.not_mem_nil, or_false, isLeapYear_iff]
  split_ifs <;> first | rfl | omega

theorem daysInMonth_of_month {year month : ℕ} (hlow : 1 ≤ month) (hhigh : month ≤ 12) :
    daysInMonth year month = monthLength year month := by
  rw [daysInMonth_eq, if_pos ⟨hlow, hhigh⟩]

theorem daysInMonth_le (year month : ℕ) : daysInMonth year month ≤ 31 := by
  rw [daysInMonth_eq]
  split_ifs
  · exact monthLength_le year month
  · exact Nat.zero_le _

theorem blocksBefore_daysInMonth (year : ℕ) {month : ℕ} (h : month ≤ 13) :
    blocksBefore (daysInMonth year) 1 month = blocksBefore (monthLength year) 1 month :=
  blocksBefore_congr fun _ hlow hhigh => daysInMonth_of_month hlow (by omega)

theorem leapYearsThrough_mono {year year' : ℕ} (h : year ≤ year') :
    Gregorian.leapYearsThrough year ≤ Gregorian.leapYearsThrough year' := by
  induction year', h using Nat.le_induction with
  | base => exact le_rfl
  | succ year' h ih =>
    rw [Gregorian.leapYearsThrough_succ]
    exact ih.trans (Nat.le_add_right _ _)

theorem blocksBefore_yearLength_lt {year : ℕ} (hhigh : year ≤ 2107) : blocksBefore yearLength filetimeEpochYear year < 200000 := by
  have hmono := blocksBefore_mono yearLength filetimeEpochYear hhigh
  have h := @blocksBefore_yearLength 1600 2106 (by norm_num)
  simp only [Nat.reduceAdd, Gregorian.leapYearsThrough] at h
  unfold filetimeEpochYear at hmono ⊢
  omega

/-- The closed form counts the days of the years since the epoch. -/
theorem daysBeforeYear_eq {year : ℕ} (hlow : filetimeEpochYear ≤ year) (hhigh : year ≤ 2107) :
    daysBeforeYear year = some (blocksBefore yearLength filetimeEpochYear year) := by
  have hlt := blocksBefore_yearLength_lt hhigh
  unfold filetimeEpochYear at hlow hlt ⊢
  obtain ⟨prior, rfl⟩ : ∃ prior, year = prior + 1 := ⟨year - 1, by omega⟩
  have hprior : 1600 ≤ prior := by omega
  have hclosed : blocksBefore yearLength 1601 (prior + 1) + leapYearsThrough 1600 =
      (prior - 1600) * 365 + leapYearsThrough prior := blocksBefore_yearLength hprior
  have hmono : leapYearsThrough 1600 ≤ leapYearsThrough prior := leapYearsThrough_mono hprior
  unfold daysBeforeYear filetimeEpochYear
  rw [if_neg (by omega)]
  simp only [Option.bind_eq_bind, Nat.add_sub_cancel, checkedSub_of_le (show 1 ≤ prior + 1 by omega),
    Option.bind_some, checkedSub_of_le hmono, Nat.reduceSub, checkedMul, checkedAdd]
  rw [show prior + 1 - 1601 = prior - 1600 by omega, if_pos (by unfold wordBound; omega),
    Option.bind_some, if_pos (by unfold wordBound; omega)]
  exact congrArg some (by omega)

theorem foldlM_checkedAdd {len : ℕ → ℕ} {count first total : ℕ}
    (h : total + blocksBefore len first (first + count) < wordBound) :
    (List.range' first count).foldlM (fun days value => checkedAdd days (len value)) total =
      some (total + blocksBefore len first (first + count)) := by
  induction count generalizing first total with
  | zero => simp
  | succ count ih =>
    rw [blocksBefore_eq_add (by omega)] at h ⊢
    have hnext : first + 1 + count = first + (count + 1) := by omega
    rw [List.range'_succ, List.foldlM_cons, checkedAdd_of_lt (by omega)]
    show (List.range' (first + 1) count).foldlM _ (total + len first) = _
    rw [ih (by rw [hnext]; omega), hnext, Nat.add_assoc]

theorem daysBeforeMonth_eq (year : ℕ) {month : ℕ} (hlow : 1 ≤ month) (hhigh : month ≤ 12) :
    daysBeforeMonth year month = some (blocksBefore (monthLength year) 1 month) := by
  have hmonth : 1 + (month - 1) = month := by omega
  have hmono := blocksBefore_mono (monthLength year) 1 (show month ≤ 13 by omega)
  have hyear := blocksBefore_monthLength year
  have hlen := yearLength_le year
  have h := @foldlM_checkedAdd (daysInMonth year) (month - 1) 1 0
    (by rw [hmonth, blocksBefore_daysInMonth year (by omega)]; unfold wordBound; omega)
  rw [hmonth, blocksBefore_daysInMonth year (by omega), Nat.zero_add] at h
  exact h

/-! ## exFAT timestamps as moments -/

/-- The FILETIME of a moment of the calendar. -/
def filetimeOf (time : CalendarTime) : ℕ :=
  time.centiseconds filetimeEpochYear * ticksPer10Milliseconds

@[simp] theorem toWord?_eq_some {value : ℤ} {n : ℕ} :
    toWord? value = some n ↔ value = n ∧ n < wordBound := by
  unfold toWord?
  split_ifs with h
  · rw [Option.some.injEq]
    omega
  · simp only [false_iff]
    omega

/-- The offset byte holds quarter hours in seven bits of two's complement, if it holds any. -/
theorem quarterHours_eq (utcOffset : UInt8) :
    quarterHours utcOffset =
      if utcOffset < 0x80 then 0 else Int.bmod utcOffset.toNat 128 := by
  have h : ∀ n : Fin 256, quarterHours (UInt8.ofNat n) =
      if UInt8.ofNat n < 0x80 then 0 else Int.bmod (UInt8.ofNat n).toNat 128 := by
    decide +kernel
  have hn := h ⟨utcOffset.toNat, utcOffset.toNat_lt⟩
  rwa [UInt8.ofNat_toNat] at hn

theorem quarterHours_bounds (utcOffset : UInt8) :
    -64 ≤ quarterHours utcOffset ∧ quarterHours utcOffset ≤ 63 := by
  rw [quarterHours_eq]
  split_ifs
  · omega
  · have hlow := @Int.le_bmod utcOffset.toNat 128 (by norm_num)
    have hhigh := @Int.bmod_lt utcOffset.toNat 128 (by norm_num)
    omega

theorem dayNumber_packedTime_pos (raw : ℕ) (increment : UInt8) :
    0 < (packedTime raw increment).dayNumber filetimeEpochYear := by
  have hyear : 1602 ≤ (packedTime raw increment).year :=
    (show 1602 ≤ 1980 by norm_num).trans (Nat.le_add_right _ _)
  have hmono := blocksBefore_mono yearLength filetimeEpochYear hyear
  have hfirst : blocksBefore yearLength filetimeEpochYear 1602 = 365 := by decide
  unfold CalendarTime.dayNumber
  omega

/-- **From exFAT to FILETIME.** The local moment moved by the offset from UTC. -/
theorem exfatTimestampToFiletime_ok {raw : ℕ} {increment : UInt8} (utcOffset : UInt8)
    (ht : validTimestamp raw = true) (hi : increment ≤ 199) :
    ∃ time, exfatTimestampToFiletime raw increment utcOffset = some time ∧
      (time : ℤ) = filetimeOf (packedTime raw increment) -
        quarterHours utcOffset * 15 * 60 * ticksPerSecond := by
  obtain ⟨hs, hm, hh, hmp, hml, hdp, hdl⟩ := validTimestamp_iff.1 ht
  have hinc : increment.toNat ≤ 199 := hi
  have hpos := dayNumber_packedTime_pos raw increment
  obtain ⟨hqlow, hqhigh⟩ := quarterHours_bounds utcOffset
  have hyears := @blocksBefore_yearLength_lt (1980 + raw / 2 ^ 25 % 128) (by omega)
  have hlen := yearLength_le (1980 + raw / 2 ^ 25 % 128)
  have hday : (packedTime raw increment).dayOfYear < _ := (Valid_packedTime ht hi).dayOfYear_lt
  simp only [packedTime, CalendarTime.dayNumber, CalendarTime.dayOfYear] at hpos hday
  have hyear := @daysBeforeYear_eq (1980 + raw / 2 ^ 25 % 128)
    (by unfold filetimeEpochYear; omega) (by omega)
  have hmonth := daysBeforeMonth_eq (1980 + raw / 2 ^ 25 % 128) hmp hml
  unfold exfatTimestampToFiletime exfatEpochYear
  rw [if_neg (show ¬ 199 < increment from UInt8.not_lt.2 hi)]
  dsimp only
  rw [if_neg (by rw [daysInMonth_of_month hmp hml]; omega)]
  simp only [Option.bind_eq_bind, Option.bind_eq_some_iff, checkedAdd_eq_some,
    checkedMul_eq_some, toWord?_eq_some, hyear, hmonth, Option.some.injEq, exists_eq_left']
  simp only [filetimeOf, CalendarTime.centiseconds, CalendarTime.dayNumber, CalendarTime.dayOfYear,
    CalendarTime.clock, packedTime, secondsPerDay, ticksPerSecond, ticksPer10Milliseconds, wordBound]
  generalize blocksBefore yearLength filetimeEpochYear (1980 + raw / 2 ^ 25 % 128) = years at *
  generalize blocksBefore (monthLength (1980 + raw / 2 ^ 25 % 128)) 1 (raw / 2 ^ 21 % 16) = months at *
  obtain ⟨seconds, hseconds⟩ : ∃ seconds : ℕ,
      (((years + months + (raw / 2 ^ 16 % 32 - 1)) * 86400 + raw / 2 ^ 11 % 32 * 3600 +
        raw / 2 ^ 5 % 64 * 60 + raw % 32 * 2 : ℕ) : ℤ) - quarterHours utcOffset * 15 * 60 = seconds :=
    Int.eq_ofNat_of_zero_le (by omega)
  refine ⟨seconds * 10000000 + increment.toNat * 100000, ⟨_, ⟨by omega, rfl⟩, _, ⟨by omega, rfl⟩, _,
    ⟨by omega, rfl⟩, _, ⟨by omega, rfl⟩, _, ⟨by omega, rfl⟩, _, ⟨by omega, rfl⟩, seconds,
    ⟨hseconds, by omega⟩, _, ⟨by omega, rfl⟩, by omega, rfl⟩, ?_⟩
  omega

/-! ## FILETIMEs as exFAT timestamps -/

theorem or_eq_add {k a b : ℕ} (ha : 2 ^ k ∣ a) (hb : b < 2 ^ k) : a ||| b = a + b := by
  obtain ⟨c, rfl⟩ := ha
  exact (Nat.two_pow_add_eq_or_of_lt hb c).symm

/-- The fields of a packed timestamp stand side by side. -/
theorem pack_eq {year month day hour minute seconds : ℕ} (hmonth : month < 16) (hday : day < 32)
    (hhour : hour < 32) (hminute : minute < 64) (hseconds : seconds < 32) :
    year <<< 25 ||| month <<< 21 ||| day <<< 16 ||| hour <<< 11 ||| minute <<< 5 ||| seconds =
      year * 2 ^ 25 + month * 2 ^ 21 + day * 2 ^ 16 + hour * 2 ^ 11 + minute * 2 ^ 5 + seconds := by
  simp only [Nat.shiftLeft_eq]
  rw [@or_eq_add 25 (year * 2 ^ 25) (month * 2 ^ 21) (by omega) (by omega),
    @or_eq_add 21 (year * 2 ^ 25 + month * 2 ^ 21) (day * 2 ^ 16) (by omega) (by omega),
    @or_eq_add 16 _ (hour * 2 ^ 11) (by omega) (by omega),
    @or_eq_add 11 _ (minute * 2 ^ 5) (by omega) (by omega),
    @or_eq_add 5 _ seconds (by omega) (by omega)]

/-- The fields read back from where they were packed. -/
theorem unpack_eq {year month day hour minute seconds packed : ℕ} (hyear : year < 128)
    (hmonth : month < 16) (hday : day < 32) (hhour : hour < 32) (hminute : minute < 64)
    (hseconds : seconds < 32)
    (h : packed = year * 2 ^ 25 + month * 2 ^ 21 + day * 2 ^ 16 + hour * 2 ^ 11 + minute * 2 ^ 5 +
      seconds) :
    packed < 2 ^ 32 ∧ packed / 2 ^ 25 % 128 = year ∧ packed / 2 ^ 21 % 16 = month ∧
      packed / 2 ^ 16 % 32 = day ∧ packed / 2 ^ 11 % 32 = hour ∧ packed / 2 ^ 5 % 64 = minute ∧
      packed % 32 = seconds := by
  refine ⟨?_, ?_, ?_, ?_, ?_, ?_, ?_⟩ <;> omega

@[simp] theorem toByte?_eq_some {value : ℕ} {byte : UInt8} :
    toByte? value = some byte ↔ value = byte.toNat := by
  unfold toByte?
  constructor
  · intro h
    split_ifs at h with hlt
    rw [Option.some.injEq] at h
    rw [← h, UInt8.toNat_ofNat_of_lt' hlt]
  · rintro rfl
    rw [if_pos byte.toNat_lt, UInt8.ofNat_toNat]

/-- What a FILETIME keeps in exFAT: hundredths of a second, or two seconds without an increment. -/
def resolution (withIncrement : Bool) : ℕ :=
  if withIncrement = true then ticksPer10Milliseconds else 2 * ticksPerSecond

theorem clock_fields {clock : ℕ} (h : clock < 864000000000) :
    clock / 10000000 / 3600 ≤ 23 ∧ clock / 10000000 % 3600 / 60 ≤ 59 ∧
      clock / 10000000 % 60 / 2 ≤ 29 := by
  refine ⟨?_, ?_, ?_⟩ <;> omega

/-- The calendar and clock that a conversion reads off a FILETIME. -/
theorem filetimeToExfatTimestamp_fields {value packed : ℕ} {withIncrement : Bool} {increment : UInt8}
    (h : filetimeToExfatTimestamp value withIncrement = some (packed, increment)) :
    ∃ year month rest clock, 1980 ≤ year ∧ year ≤ 2107 ∧ 1 ≤ month ∧ month ≤ 12 ∧
      rest < monthLength year month ∧ clock < 864000000000 ∧
      value = (blocksBefore yearLength filetimeEpochYear year +
        (blocksBefore (monthLength year) 1 month + rest)) * 864000000000 + clock ∧
      increment.toNat = (if withIncrement = true then
        clock / 10000000 % 60 % 2 * 100 + clock % 10000000 / 100000 else 0) ∧
      packed = (year - 1980) * 2 ^ 25 + month * 2 ^ 21 + (rest + 1) * 2 ^ 16 +
        clock / 10000000 / 3600 * 2 ^ 11 + clock / 10000000 % 3600 / 60 * 2 ^ 5 +
        clock / 10000000 % 60 / 2 := by
  simp only [filetimeToExfatTimestamp, Option.bind_eq_bind, Option.bind_eq_some_iff,
    checkedMul_eq_some, checkedAdd32_eq_some, toByte?_eq_some, Option.pure_def,
    Option.some.injEq, Prod.mk.injEq, Option.guard_eq_some'] at h
  obtain ⟨_, ⟨-, rfl⟩, ⟨year, days⟩, hyear, _, ⟨hlow, hhigh⟩, ⟨month, rest⟩, hmonth, _, hinc, _,
    ⟨-, rfl⟩, hpacked, rfl⟩ := h
  simp only [secondsPerDay, ticksPerSecond, ticksPer10Milliseconds, exfatEpochYear,
    Nat.reduceMul] at hyear hlow hhigh hinc hmonth hpacked
  rw [yearDays_eq, findBlock_eq_some_iff (by unfold filetimeEpochYear; norm_num)] at hyear
  obtain ⟨-, -, hdays, hvalue⟩ := hyear
  obtain ⟨hmlow, hmhigh, hrest, rfl⟩ := (findBlock_eq_some_iff (by norm_num)).1 hmonth
  rw [daysInMonth_of_month hmlow hmhigh] at hrest
  rw [blocksBefore_daysInMonth year (by omega)] at hvalue
  have hlen := monthLength_le year month
  have hclock := Nat.mod_lt value (show 0 < 864000000000 by norm_num)
  refine ⟨year, month, rest, value % 864000000000, hlow, hhigh, hmlow, hmhigh, hrest, hclock, ?_,
    hinc.symm, ?_⟩
  · rw [← hvalue]
    omega
  · rw [← hpacked]
    generalize value % 864000000000 = clock at *
    exact pack_eq (by omega) (by omega) (by omega) (by omega) (by omega)

/-- Hours, minutes, pairs of seconds and hundredths put the ticks of a day together again, but for
what they round off. -/
theorem clock_rounds {value days clock increment : ℕ} {withIncrement : Bool}
    (hvalue : value = days * 864000000000 + clock)
    (hinc : increment = (if withIncrement = true then
      clock / 10000000 % 60 % 2 * 100 + clock % 10000000 / 100000 else 0)) :
    (days * 8640000 + (((clock / 10000000 / 3600 * 60 + clock / 10000000 % 3600 / 60) * 60 +
      (clock / 10000000 % 60 / 2 * 2 + increment / 100)) * 100 + increment % 100)) * 100000 =
      value - value % if withIncrement = true then 100000 else 2 * 10000000 := by
  have hsplit : (clock / 10000000 / 3600 * 60 + clock / 10000000 % 3600 / 60) * 60 +
      clock / 10000000 % 60 = clock / 10000000 := by
    generalize clock / 10000000 = seconds
    omega
  generalize clock / 10000000 / 3600 * 60 + clock / 10000000 % 3600 / 60 = minutes at *
  cases withIncrement with
  | false =>
    simp only [Bool.false_eq_true, if_false] at hinc ⊢
    omega
  | true =>
    simp only [if_true] at hinc ⊢
    omega

/-- **From FILETIME to exFAT.** The packed timestamp is valid and names the moment rounded down. -/
theorem filetimeToExfatTimestamp_ok {value packed : ℕ} {withIncrement : Bool} {increment : UInt8}
    (h : filetimeToExfatTimestamp value withIncrement = some (packed, increment)) :
    packed < 2 ^ 32 ∧ validTimestamp packed = true ∧ increment ≤ 199 ∧
      filetimeOf (packedTime packed increment) = value - value % resolution withIncrement := by
  obtain ⟨year, month, rest, clock, hlow, hhigh, hmlow, hmhigh, hrest, hclock, hvalue, hinc,
    hpacked⟩ := filetimeToExfatTimestamp_fields h
  have hlen := monthLength_le year month
  have hincrement : increment.toNat ≤ 199 := by
    rw [hinc]
    split_ifs <;> omega
  obtain ⟨hh, hm, hs⟩ := clock_fields hclock
  obtain ⟨hr, hyear, hmonth, hday, hhour, hminute, hseconds⟩ :=
    unpack_eq (show year - 1980 < 128 by clear hpacked hvalue; omega)
      (Nat.lt_of_le_of_lt hmhigh (by norm_num)) (show rest + 1 < 32 by clear hpacked hvalue; omega)
      (Nat.lt_of_le_of_lt hh (by norm_num)) (Nat.lt_of_le_of_lt hm (by norm_num))
      (Nat.lt_of_le_of_lt hs (by norm_num)) hpacked
  clear hpacked
  have hyear : 1980 + packed / 2 ^ 25 % 128 = year := by
    rw [hyear, Nat.add_sub_cancel' hlow]
  refine ⟨hr, ?_, hincrement, ?_⟩
  · rw [validTimestamp_iff, hyear, hmonth, hday, hhour, hminute, hseconds]
    exact ⟨hs, hm, hh, hmlow, hmhigh, Nat.succ_pos rest, hrest⟩
  · simp only [filetimeOf, CalendarTime.centiseconds, CalendarTime.dayNumber,
      CalendarTime.dayOfYear, CalendarTime.clock, packedTime, hyear, hmonth, hday, hhour, hminute,
      hseconds, resolution, ticksPerSecond, ticksPer10Milliseconds, Nat.add_sub_cancel]
    generalize blocksBefore yearLength filetimeEpochYear year + _ = days at *
    exact clock_rounds hvalue hinc

/-- The first moment of a year. -/
def newYear (year : ℕ) : CalendarTime := ⟨year, 1, 1, 0, 0, 0, 0⟩

theorem filetimeOf_newYear (year : ℕ) :
    filetimeOf (newYear year) = blocksBefore yearLength filetimeEpochYear year * 864000000000 := by
  simp only [filetimeOf, CalendarTime.centiseconds, CalendarTime.dayNumber, CalendarTime.dayOfYear,
    CalendarTime.clock, newYear, blocksBefore_self, ticksPer10Milliseconds]
  omega

theorem ticksPerDay_eq : checkedMul secondsPerDay ticksPerSecond = some 864000000000 := by
  rw [checkedMul_eq_some]
  unfold secondsPerDay ticksPerSecond wordBound
  norm_num

/-- exFAT holds exactly the years 1980 to 2107. -/
theorem filetimeToExfatTimestamp_isSome_iff {value : ℕ} {withIncrement : Bool} :
    (filetimeToExfatTimestamp value withIncrement).isSome ↔
      filetimeOf (newYear 1980) ≤ value ∧ value < filetimeOf (newYear 2108) := by
  rw [filetimeOf_newYear, filetimeOf_newYear]
  constructor
  · intro h
    obtain ⟨⟨packed, increment⟩, h⟩ := Option.isSome_iff_exists.1 h
    obtain ⟨year, month, rest, clock, hlow, hhigh, hmlow, hmhigh, hrest, hclock, hvalue, -⟩ :=
      filetimeToExfatTimestamp_fields h
    have hfirst := blocksBefore_mono yearLength filetimeEpochYear hlow
    have hlast := blocksBefore_mono yearLength filetimeEpochYear (show year + 1 ≤ 2108 by omega)
    have hmonths := blocksBefore_mono (monthLength year) 1 (show month + 1 ≤ 13 by omega)
    rw [blocksBefore_succ (by unfold filetimeEpochYear; omega)] at hlast
    rw [blocksBefore_succ hmlow, blocksBefore_monthLength] at hmonths
    omega
  · rintro ⟨hlow, hhigh⟩
    obtain ⟨⟨year, days⟩, hyear⟩ : ∃ place, findBlock yearDays 2107 (value / 864000000000)
        filetimeEpochYear = some place := by
      refine Option.isSome_iff_exists.1 ((findBlock_isSome_iff ?_).2 ?_)
      · unfold filetimeEpochYear
        norm_num
      · rw [yearDays_eq]
        show value / 864000000000 < blocksBefore yearLength filetimeEpochYear 2108
        rwa [Nat.div_lt_iff_lt_mul (by norm_num)]
    have hyear' := hyear
    rw [yearDays_eq, findBlock_eq_some_iff (by unfold filetimeEpochYear; norm_num)] at hyear'
    obtain ⟨hepoch, hlast, hdays, hvalue⟩ := hyear'
    have hfirst : 1980 ≤ year := by
      by_contra hcon
      have hmono := blocksBefore_mono yearLength filetimeEpochYear (show year + 1 ≤ 1980 by omega)
      rw [blocksBefore_succ hepoch] at hmono
      omega
    obtain ⟨⟨month, rest⟩, hmonth⟩ : ∃ place, findBlock (daysInMonth year) 12 days 1 = some place := by
      refine Option.isSome_iff_exists.1 ((findBlock_isSome_iff (by norm_num)).2 ?_)
      show days < blocksBefore (daysInMonth year) 1 13
      rwa [blocksBefore_daysInMonth year le_rfl, blocksBefore_monthLength]
    obtain ⟨hmlow, hmhigh, hrest, -⟩ := (findBlock_eq_some_iff (by norm_num)).1 hmonth
    have hlen := daysInMonth_le year month
    rw [Option.isSome_iff_exists]
    simp only [filetimeToExfatTimestamp, ticksPerDay_eq, Option.bind_eq_bind,
      Option.bind_eq_some_iff, checkedAdd32_eq_some, Option.pure_def, Option.some.injEq,
      Option.guard_eq_some']
    refine ⟨_, _, rfl, (year, days), hyear, (), ⟨hfirst, hlast⟩, (month, rest), hmonth,
      UInt8.ofNat _, toByte?_eq_some.2 (UInt8.toNat_ofNat_of_lt' ?_).symm, _, ⟨?_, rfl⟩, rfl⟩
    · show _ < 256
      unfold ticksPerSecond ticksPer10Milliseconds
      generalize value % 864000000000 = clock
      split_ifs <;> omega
    · unfold wordBound32
      omega

/-! ## The two directions together -/

/-- The offset that conversions from NTFS write stands for UTC itself. -/
theorem exfatTimestampToFiletime_utc {raw : ℕ} {increment : UInt8} (ht : validTimestamp raw = true)
    (hi : increment ≤ 199) : exfatTimestampToFiletime raw increment 0x80 =
      some (filetimeOf (packedTime raw increment)) := by
  obtain ⟨time, htime, hvalue⟩ := exfatTimestampToFiletime_ok 0x80 ht hi
  rw [show quarterHours 0x80 = 0 by decide] at hvalue
  rw [htime]
  exact congrArg some (by omega)

theorem filetimeToExfatTimestamp_roundTrip {value packed : ℕ} {withIncrement : Bool}
    {increment : UInt8}
    (h : filetimeToExfatTimestamp value withIncrement = some (packed, increment)) :
    exfatTimestampToFiletime packed increment 0x80 =
      some (value - value % resolution withIncrement) := by
  obtain ⟨-, ht, hi, hvalue⟩ := filetimeToExfatTimestamp_ok h
  rw [exfatTimestampToFiletime_utc ht hi, hvalue]

/-- The times of an NTFS object come back from exFAT rounded down, and the writer takes them. -/
theorem mapNtfsTimestamps_ok {creation modification access : ℕ} {timestamps : ExfatTimestamps}
    (h : mapNtfsTimestamps creation modification access = some timestamps) :
    validTimestamps timestamps = true ∧ mapExfatTimestamps timestamps =
      some ⟨creation - creation % resolution true, modification - modification % resolution true,
        modification - modification % resolution true, access - access % resolution false⟩ := by
  simp only [mapNtfsTimestamps, Option.bind_eq_bind, Option.bind_eq_some_iff, Option.pure_def,
    Option.some.injEq] at h
  obtain ⟨⟨create, createInc⟩, hc, ⟨modified, modifiedInc⟩, hm, ⟨accessed, accessInc⟩, ha, rfl⟩ := h
  obtain ⟨-, hct, hci, -⟩ := filetimeToExfatTimestamp_ok hc
  obtain ⟨-, hmt, hmi, -⟩ := filetimeToExfatTimestamp_ok hm
  obtain ⟨-, hat, hai, -⟩ := filetimeToExfatTimestamp_ok ha
  -- The conversion without an increment leaves it zero, which is the one the way back uses.
  obtain rfl : accessInc = 0 := by
    obtain ⟨_, _, _, _, -, -, -, -, -, -, -, hinc, -⟩ := filetimeToExfatTimestamp_fields ha
    rw [if_neg Bool.false_ne_true] at hinc
    exact UInt8.toNat_inj.1 hinc
  constructor
  · have hutc : validUtc 0x80 = true := by decide
    simp only [validTimestamps, hct, hmt, hat, hci, hmi, hutc, and_self, decide_true]
  · simp only [mapExfatTimestamps, Option.bind_eq_bind, Option.bind_eq_some_iff, Option.pure_def,
      Option.some.injEq]
    exact ⟨_, filetimeToExfatTimestamp_roundTrip hc, _, filetimeToExfatTimestamp_roundTrip hm, _,
      filetimeToExfatTimestamp_roundTrip ha, rfl⟩

/-- The moment of an exFAT timestamp as a FILETIME: its local moment less the signed offset of
quarter hours in the low seven bits of the offset byte. -/
def utcInstant (raw : ℕ) (increment utcOffset : UInt8) : ℤ :=
  filetimeOf (packedTime raw increment) -
    Int.bmod utcOffset.toNat 128 * 15 * 60 * ticksPerSecond

theorem quarterHours_of_validUtc {utcOffset : UInt8} (h : validUtc utcOffset = true) :
    quarterHours utcOffset = Int.bmod utcOffset.toNat 128 := by
  have hall : ∀ n : Fin 256, validUtc (UInt8.ofNat n) = true →
      quarterHours (UInt8.ofNat n) = Int.bmod (UInt8.ofNat n).toNat 128 := by
    decide +kernel
  have hn := hall ⟨utcOffset.toNat, utcOffset.toNat_lt⟩
  rw [UInt8.ofNat_toNat] at hn
  exact hn h

theorem exfatTimestampToFiletime_accepted {raw : ℕ} {increment utcOffset : UInt8}
    (h : ParserAccepts raw increment utcOffset) :
    ∃ time, exfatTimestampToFiletime raw increment utcOffset = some time ∧
      (time : ℤ) = utcInstant raw increment utcOffset := by
  obtain ⟨-, ht, hi, hu⟩ := parserAccepts_iff.1 h
  obtain ⟨time, htime, hvalue⟩ := exfatTimestampToFiletime_ok utcOffset ht hi
  refine ⟨time, htime, ?_⟩
  rw [hvalue, quarterHours_of_validUtc hu, utcInstant]

theorem filetimeOf_lt_iff {raw raw' : ℕ} {increment increment' : UInt8}
    (ht : validTimestamp raw = true) (hi : increment ≤ 199) (ht' : validTimestamp raw' = true)
    (hi' : increment' ≤ 199) :
    filetimeOf (packedTime raw increment) < filetimeOf (packedTime raw' increment') ↔
      packedTime raw increment < packedTime raw' increment' := by
  have hepoch (raw : ℕ) (increment : UInt8) :
      filetimeEpochYear ≤ (packedTime raw increment).year :=
    (show filetimeEpochYear ≤ 1980 by decide).trans (Nat.le_add_right _ _)
  rw [← CalendarTime.centiseconds_lt_iff (Valid_packedTime ht hi) (Valid_packedTime ht' hi')
    (hepoch _ _) (hepoch _ _)]
  exact Nat.mul_lt_mul_right (by unfold ticksPer10Milliseconds; norm_num)

/-- **Timestamp conversion is exact.** FILETIMEs of the years exFAT has become timestamps that the
writer and the parser take and come back rounded down; every timestamp the parser takes becomes the
FILETIME of its moment, and moments keep their order. -/
theorem timestamps_exact :
    (∀ value withIncrement, (filetimeToExfatTimestamp value withIncrement).isSome ↔
      filetimeOf (newYear 1980) ≤ value ∧ value < filetimeOf (newYear 2108)) ∧
    (∀ value withIncrement packed increment,
      filetimeToExfatTimestamp value withIncrement = some (packed, increment) →
        (validTimestamp packed = true ∧ increment ≤ 199 ∧ validUtc 0x80 = true) ∧
        ParserAccepts packed increment 0x80 ∧
        exfatTimestampToFiletime packed increment 0x80 =
          some (value - value % resolution withIncrement)) ∧
    (∀ raw increment utcOffset, ParserAccepts raw increment utcOffset →
      ∃ time, exfatTimestampToFiletime raw increment utcOffset = some time ∧
        (time : ℤ) = utcInstant raw increment utcOffset) ∧
    (∀ raw raw' increment increment' utcOffset utcOffset' time time',
      ParserAccepts raw increment utcOffset → ParserAccepts raw' increment' utcOffset' →
      exfatTimestampToFiletime raw increment utcOffset = some time →
      exfatTimestampToFiletime raw' increment' utcOffset' = some time' →
        (time < time' ↔ utcInstant raw increment utcOffset < utcInstant raw' increment' utcOffset') ∧
        (utcOffset = utcOffset' →
          (time < time' ↔ packedTime raw increment < packedTime raw' increment') ∧
          (time = time' ↔ raw = raw' ∧ increment = increment'))) := by
  refine ⟨fun _ _ => filetimeToExfatTimestamp_isSome_iff, ?_,
    fun _ _ _ => exfatTimestampToFiletime_accepted, ?_⟩
  · intro value withIncrement packed increment h
    obtain ⟨hr, ht, hi, -⟩ := filetimeToExfatTimestamp_ok h
    have hutc : validUtc 0x80 = true := by decide
    refine ⟨⟨ht, hi, hutc⟩, parserAccepts_iff.2 ⟨hr, ht, hi, hutc⟩, ?_⟩
    exact filetimeToExfatTimestamp_roundTrip h
  · intro raw raw' increment increment' utcOffset utcOffset' time time' h h' htime htime'
    obtain ⟨t, ht, hvalue⟩ := exfatTimestampToFiletime_accepted h
    obtain ⟨t', ht', hvalue'⟩ := exfatTimestampToFiletime_accepted h'
    obtain rfl : t = time := Option.some.inj (ht.symm.trans htime)
    obtain rfl : t' = time' := Option.some.inj (ht'.symm.trans htime')
    refine ⟨by omega, ?_⟩
    rintro rfl
    obtain ⟨hr, hv, hi, -⟩ := parserAccepts_iff.1 h
    obtain ⟨hr', hv', hi', -⟩ := parserAccepts_iff.1 h'
    have hlt := filetimeOf_lt_iff hv hi hv' hi'
    have hgt := filetimeOf_lt_iff hv' hi' hv hi
    unfold utcInstant at hvalue hvalue'
    refine ⟨by rw [← hlt]; omega, ?_, ?_⟩
    · intro heq
      have hn : ¬ packedTime raw increment < packedTime raw' increment' := by rw [← hlt]; omega
      have hn' : ¬ packedTime raw' increment' < packedTime raw increment := by rw [← hgt]; omega
      exact packedTime_inj hr hr' hi hi' (CalendarTime.eq_of_not_lt hn hn')
    · rintro ⟨rfl, rfl⟩
      omega

/-- The last seconds of February 2000, a leap year of the fourth century. -/
theorem timestamps_exact_leap_day :
    exfatTimestampToFiletime 677232509 156 0x80 =
      some (125963423995678901 - 125963423995678901 % resolution true) :=
  (timestamps_exact.2.1 125963423995678901 true 677232509 156 (by decide +kernel)).2.2

end StarConverter.CrossFormat
