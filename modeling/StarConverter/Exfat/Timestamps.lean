import StarConverter.Base.Calendar
import StarConverter.Exfat.Directory

/-!
# exFAT timestamps

A timestamp is a packed 32-bit calendar reading of two-second steps, an increment of hundredths of a
second and the byte of an offset from UTC. The writer and the directory parser check them on their
own; `parserAccepts_iff` shows that they take the same ones, and `Valid_packedTime` that these name
moments of the calendar.
-/

namespace StarConverter.Exfat

open Base Gregorian

/-- The timestamp fields of a file entry. -/
structure ExfatTimestamps where
  create : ℕ
  modified : ℕ
  accessed : ℕ
  createCentiseconds : UInt8
  modifiedCentiseconds : UInt8
  createUtcOffset : UInt8
  modifiedUtcOffset : UInt8
  accessedUtcOffset : UInt8
  deriving DecidableEq

/-! ## The writer's checks -/

def validUtc (value : UInt8) : Bool := value = 0 ∨ value &&& 0x80 ≠ 0

def validTimestamp (value : ℕ) : Bool :=
  let seconds := value % 32
  let minute := value / 2 ^ 5 % 64
  let hour := value / 2 ^ 11 % 32
  let day := value / 2 ^ 16 % 32
  let month := value / 2 ^ 21 % 16
  let year := 1980 + value / 2 ^ 25 % 128
  seconds ≤ 29 ∧ minute ≤ 59 ∧ hour ≤ 23 ∧ day ≠ 0 ∧ day ≤ maximumDay year month

/-- The timestamp half of `validate_metadata`. -/
def validTimestamps (timestamps : ExfatTimestamps) : Bool :=
  validTimestamp timestamps.create ∧ validTimestamp timestamps.modified ∧
    validTimestamp timestamps.accessed ∧ timestamps.createCentiseconds ≤ 199 ∧
    timestamps.modifiedCentiseconds ≤ 199 ∧ validUtc timestamps.createUtcOffset ∧
    validUtc timestamps.modifiedUtcOffset ∧ validUtc timestamps.accessedUtcOffset

/-! ## The moment a timestamp names -/

/-- The calendar reading of a packed timestamp and its increment. -/
def packedTime (raw : ℕ) (increment : UInt8) : CalendarTime where
  year := 1980 + raw / 2 ^ 25 % 128
  month := raw / 2 ^ 21 % 16
  day := raw / 2 ^ 16 % 32
  hour := raw / 2 ^ 11 % 32
  minute := raw / 2 ^ 5 % 64
  second := raw % 32 * 2 + increment.toNat / 100
  centisecond := increment.toNat % 100

/-- The last day of a month of an exFAT year is the calendar's; other numbers are no months. -/
theorem maximumDay_eq {year month : ℕ} (hlow : 1980 ≤ year) (hhigh : year ≤ 2107) :
    maximumDay year month = if 1 ≤ month ∧ month ≤ 12 then monthLength year month else 0 := by
  have hleap : (year % 4 = 0 ∧ year ≠ 2100) ↔ IsLeap year := by
    unfold IsLeap
    omega
  unfold maximumDay monthLength
  simp only [List.mem_cons, List.not_mem_nil, or_false, hleap]
  split_ifs <;> first | rfl | omega

theorem validTimestamp_iff {raw : ℕ} :
    validTimestamp raw = true ↔ raw % 32 ≤ 29 ∧ raw / 2 ^ 5 % 64 ≤ 59 ∧ raw / 2 ^ 11 % 32 ≤ 23 ∧
      1 ≤ raw / 2 ^ 21 % 16 ∧ raw / 2 ^ 21 % 16 ≤ 12 ∧ 1 ≤ raw / 2 ^ 16 % 32 ∧
      raw / 2 ^ 16 % 32 ≤ monthLength (1980 + raw / 2 ^ 25 % 128) (raw / 2 ^ 21 % 16) := by
  unfold validTimestamp
  dsimp only
  rw [maximumDay_eq (by omega) (by omega), decide_eq_true_iff]
  split_ifs <;> omega

theorem Valid_packedTime {raw : ℕ} {increment : UInt8} (h : validTimestamp raw = true)
    (hi : increment ≤ 199) : (packedTime raw increment).Valid := by
  obtain ⟨hs, hm, hh, hmp, hml, hdp, hdl⟩ := validTimestamp_iff.1 h
  have hi' : increment.toNat ≤ 199 := hi
  exact
    { month_pos := hmp
      month_le := hml
      day_pos := hdp
      day_le := hdl
      hour_lt := Nat.lt_succ_of_le hh
      minute_lt := Nat.lt_succ_of_le hm
      second_lt := by show raw % 32 * 2 + increment.toNat / 100 < 60; omega
      centisecond_lt := Nat.mod_lt _ (by norm_num) }

/-- A packed timestamp and its increment can be told from the moment they name. -/
theorem packedTime_inj {raw raw' : ℕ} {increment increment' : UInt8} (hr : raw < 2 ^ 32)
    (hr' : raw' < 2 ^ 32) (hi : increment ≤ 199) (hi' : increment' ≤ 199)
    (h : packedTime raw increment = packedTime raw' increment') :
    raw = raw' ∧ increment = increment' := by
  simp only [packedTime, CalendarTime.mk.injEq] at h
  obtain ⟨h1, h2, h3, h4, h5, h6, h7⟩ := h
  have hi : increment.toNat ≤ 199 := hi
  have hi' : increment'.toNat ≤ 199 := hi'
  have hinc : increment.toNat = increment'.toNat := by omega
  exact ⟨by omega, UInt8.toNat_inj.1 hinc⟩

/-! ## The parser's checks -/

theorem validateTimestamp_ok_iff {entry : Bytes} {index offset : ℕ} :
    validateTimestamp entry index offset = .ok () ↔ validTimestamp (leAt 4 entry offset) = true := by
  unfold validateTimestamp validTimestamp
  dsimp only
  rw [ensure_ok_iff, decide_eq_true_iff]
  omega

/-- The timestamps, increments and offset bytes of a primary entry; the last access has no
increment. -/
def timestampColumns (primary : Bytes) : List (ℕ × UInt8 × UInt8) :=
  [(leAt 4 primary 8, byteAt primary 20, byteAt primary 22),
    (leAt 4 primary 12, byteAt primary 21, byteAt primary 23),
    (leAt 4 primary 16, 0, byteAt primary 24)]

/-- The directory parser takes a primary entry that holds the timestamp. -/
def ParserAccepts (raw : ℕ) (increment utcOffset : UInt8) : Prop :=
  ∃ primary index, validateFilePrimary primary index = .ok () ∧
    (raw, increment, utcOffset) ∈ timestampColumns primary

/-- A primary entry with one timestamp in all its columns. -/
def stampedPrimary (raw : ℕ) (increment utcOffset : UInt8) : Bytes :=
  [0x85, 0, 0, 0, 0, 0, 0, 0] ++ toLe 4 raw ++ toLe 4 raw ++ toLe 4 raw ++
    [increment, increment, utcOffset, utcOffset, utcOffset] ++ List.replicate 7 0

theorem validUtc_iff {value : UInt8} :
    validUtc value = true ↔ ¬ (value &&& 0x80 = 0 ∧ value ≠ 0) := by
  unfold validUtc
  rw [decide_eq_true_iff]
  tauto

theorem validateFilePrimary_columns {primary : Bytes} {index : ℕ}
    (h : validateFilePrimary primary index = .ok ()) {raw : ℕ} {increment utcOffset : UInt8}
    (hc : (raw, increment, utcOffset) ∈ timestampColumns primary) :
    raw < 2 ^ 32 ∧ validTimestamp raw = true ∧ increment ≤ 199 ∧ validUtc utcOffset = true := by
  simp only [validateFilePrimary, bind_unit_ok_iff, checkAll_ok_iff, validateTimestamp_ok_iff,
    ensure_ok_iff, ← validUtc_iff, List.forall_mem_cons, List.not_mem_nil, false_imp_iff,
    implies_true, and_true] at h
  obtain ⟨-, -, -, ⟨hc8, hc12, hc16⟩, ⟨hi20, hi21⟩, hu22, hu23, hu24⟩ := h
  simp only [timestampColumns, List.mem_cons, Prod.mk.injEq, List.not_mem_nil, or_false] at hc
  obtain ⟨rfl, rfl, rfl⟩ | ⟨rfl, rfl, rfl⟩ | ⟨rfl, rfl, rfl⟩ := hc
  · exact ⟨leAt_lt 4 _ _, hc8, hi20, hu22⟩
  · exact ⟨leAt_lt 4 _ _, hc12, hi21, hu23⟩
  · exact ⟨leAt_lt 4 _ _, hc16, by decide, hu24⟩

theorem leAt_stampedPrimary {raw : ℕ} {increment utcOffset : UInt8} (hr : raw < 2 ^ 32) {offset : ℕ}
    (ho : offset ∈ [8, 12, 16]) : leAt 4 (stampedPrimary raw increment utcOffset) offset = raw := by
  have hslice : sliceAt (stampedPrimary raw increment utcOffset) offset 4 = toLe 4 raw := by
    simp only [List.mem_cons, List.not_mem_nil, or_false] at ho
    obtain rfl | rfl | rfl := ho <;> rfl
  rw [leAt, hslice, fromLe_toLe 4 raw hr]

/-- **One rule for timestamps.** The directory parser takes exactly the timestamps the writer does. -/
theorem parserAccepts_iff {raw : ℕ} {increment utcOffset : UInt8} :
    ParserAccepts raw increment utcOffset ↔
      raw < 2 ^ 32 ∧ validTimestamp raw = true ∧ increment ≤ 199 ∧ validUtc utcOffset = true := by
  constructor
  · rintro ⟨primary, index, h, hc⟩
    exact validateFilePrimary_columns h hc
  · rintro ⟨hr, ht, hi, hu⟩
    have h8 : leAt 4 (stampedPrimary raw increment utcOffset) 8 = raw :=
      leAt_stampedPrimary hr (by decide)
    refine ⟨stampedPrimary raw increment utcOffset, 0, ?_, ?_⟩
    · simp only [validateFilePrimary, bind_unit_ok_iff, checkAll_ok_iff, validateTimestamp_ok_iff,
        ensure_ok_iff, ← validUtc_iff]
      have hflags : leAt 2 (stampedPrimary raw increment utcOffset) 4 = 0 := by
        rw [leAt, show sliceAt (stampedPrimary raw increment utcOffset) 4 2 = [0, 0] from rfl]
        decide
      refine ⟨by rw [hflags]; decide, rfl, rfl, fun offset ho => ?_, fun offset ho => ?_, fun offset ho => ?_⟩
      · rw [leAt_stampedPrimary hr ho]
        exact ht
      · simp only [List.mem_cons, List.not_mem_nil, or_false] at ho
        obtain rfl | rfl := ho <;> exact hi
      · simp only [List.mem_cons, List.not_mem_nil, or_false] at ho
        obtain rfl | rfl | rfl := ho <;> exact hu
    · rw [timestampColumns, h8]
      exact List.mem_cons_self

end StarConverter.Exfat
