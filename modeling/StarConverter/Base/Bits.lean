import StarConverter.Base.Bytes
import Mathlib.Data.Nat.Bitwise
import Mathlib.Data.Finset.Card
import Mathlib.Data.Finset.Interval
import Mathlib.Algebra.BigOperators.Intervals

/-!
# Bit strings

A byte string is a string of bits, the least significant bit of each byte first. `firstIn` is the first
place of a range with a property; a byte-wise scan under masks finds the same place as a scan bit by bit
(`firstIn_byte`), and counting the ones of bytes counts the bits (`sum_popCount`).
-/

namespace Base

/-- Bit `i` of a byte string. -/
def bitAt (bytes : Bytes) (i : ℕ) : Bool := (bytes.getD (i / 8) 0).toNat.testBit (i % 8)

/-! ## The first place with a property -/

/-- The first place in `[lo, hi)` with the property. -/
def firstIn (p : ℕ → Bool) (lo hi : ℕ) : Option ℕ := (List.range' lo (hi - lo)).find? p

section FirstIn

variable {p q : ℕ → Bool} {lo mid hi k : ℕ}

theorem firstIn_eq_none : firstIn p lo hi = none ↔ ∀ i, lo ≤ i → i < hi → p i = false := by
  unfold firstIn
  rw [List.find?_eq_none]
  simp only [List.mem_range'_1, Bool.not_eq_true]
  exact ⟨fun h i h1 h2 => h i ⟨h1, by omega⟩, fun h i hi => h i hi.1 (by omega)⟩

theorem firstIn_cons (h : lo < hi) :
    firstIn p lo hi = if p lo then some lo else firstIn p (lo + 1) hi := by
  unfold firstIn
  obtain ⟨n, hn⟩ : ∃ n, hi - lo = n + 1 := ⟨hi - lo - 1, by omega⟩
  rw [hn, show hi - (lo + 1) = n by omega, List.range'_succ, List.find?_cons]
  cases p lo <;> simp

theorem firstIn_eq_some : firstIn p lo hi = some k ↔
    lo ≤ k ∧ k < hi ∧ p k = true ∧ ∀ i, lo ≤ i → i < k → p i = false := by
  obtain ⟨n, hn⟩ : ∃ n, hi - lo = n := ⟨_, rfl⟩
  induction n generalizing lo with
  | zero =>
    have h : firstIn p lo hi = none := firstIn_eq_none.2 fun i h1 h2 => by omega
    rw [h]
    refine ⟨fun h => (nomatch h), ?_⟩
    rintro ⟨h1, h2, -, -⟩
    omega
  | succ n ih =>
    rw [firstIn_cons (by omega)]
    split_ifs with hp
    · rw [Option.some.injEq]
      constructor
      · rintro rfl
        exact ⟨le_rfl, by omega, hp, fun i h1 h2 => by omega⟩
      · rintro ⟨h1, -, -, hall⟩
        by_contra hne
        have := hall lo le_rfl (by omega)
        rw [this] at hp
        cases hp
    · rw [ih (by omega)]
      constructor
      · rintro ⟨h1, h2, hk, hall⟩
        refine ⟨by omega, h2, hk, fun i hi1 hi2 => ?_⟩
        rcases Nat.eq_or_lt_of_le hi1 with rfl | hlt
        · simpa using hp
        · exact hall i hlt hi2
      · rintro ⟨h1, h2, hk, hall⟩
        have hne : lo ≠ k := by
          rintro rfl
          exact hp hk
        exact ⟨by omega, h2, hk, fun i hi1 hi2 => hall i (by omega) hi2⟩

theorem firstIn_congr (h : ∀ i, lo ≤ i → i < hi → p i = q i) : firstIn p lo hi = firstIn q lo hi := by
  unfold firstIn
  refine List.find?_congr fun i hi => ?_
  rw [List.mem_range'_1] at hi
  exact h i hi.1 (by omega)

theorem firstIn_append (h1 : lo ≤ mid) (h2 : mid ≤ hi) :
    firstIn p lo hi = (firstIn p lo mid).or (firstIn p mid hi) := by
  unfold firstIn
  rw [← List.find?_append, show hi - lo = (mid - lo) + (hi - mid) by omega, ← List.range'_append,
    Nat.one_mul, Nat.add_sub_cancel' h1]

/-- A property shifted by `n`. -/
theorem firstIn_shift (n : ℕ) :
    firstIn p (n + lo) (n + hi) = (firstIn (fun i => p (n + i)) lo hi).map (n + ·) := by
  have hrange : List.range' (n + lo) (n + hi - (n + lo)) =
      (List.range' lo (hi - lo)).map (n + ·) := by
    rw [List.map_add_range', show n + hi - (n + lo) = hi - lo by omega]
  unfold firstIn
  rw [hrange, List.find?_map]
  rfl

end FirstIn

/-! ## Masked bytes -/

/-- `trailing_zeros` of a byte. -/
def trailingZeros (byte : UInt8) : ℕ := (firstIn byte.toNat.testBit 0 8).getD 8

/-- `count_ones` of a byte. -/
def popCount (byte : UInt8) : ℕ := (List.range 8).countP byte.toNat.testBit

/-- The bits `lower` to `lower + width` of a byte. -/
def rangeMask (lower width : ℕ) : UInt8 := UInt8.ofNat ((1 <<< width - 1) <<< lower)

theorem testBit_rangeMask {lower width i : ℕ} (h : lower + width ≤ 8) :
    (rangeMask lower width).toNat.testBit i = decide (lower ≤ i ∧ i < lower + width) := by
  have hlt : (1 <<< width - 1) <<< lower < 2 ^ 8 := by
    rw [Nat.shiftLeft_eq, Nat.shiftLeft_eq, Nat.one_mul]
    calc (2 ^ width - 1) * 2 ^ lower < 2 ^ width * 2 ^ lower :=
          Nat.mul_lt_mul_of_pos_right (Nat.sub_lt (by positivity) one_pos) (by positivity)
      _ = 2 ^ (lower + width) := by rw [Nat.pow_add, Nat.mul_comm]
      _ ≤ 2 ^ 8 := Nat.pow_le_pow_right (by omega) h
  rw [rangeMask, UInt8.toNat_ofNat_of_lt' hlt, Nat.testBit_shiftLeft, Nat.one_shiftLeft,
    Nat.testBit_two_pow_sub_one]
  by_cases h1 : lower ≤ i
  · simp only [h1, decide_true, Bool.true_and, true_and, decide_eq_decide]
    omega
  · simp [h1]

theorem testBit_not (byte : UInt8) {i : ℕ} (hi : i < 8) :
    (~~~byte).toNat.testBit i = !byte.toNat.testBit i := by
  rw [← UInt8.toNat_toBitVec, ← UInt8.toNat_toBitVec, BitVec.testBit_toNat, BitVec.testBit_toNat,
    UInt8.toBitVec_not, BitVec.getLsbD_not]
  simp [hi]

theorem testBit_and (a b : UInt8) (i : ℕ) :
    (a &&& b).toNat.testBit i = (a.toNat.testBit i && b.toNat.testBit i) := by
  rw [UInt8.toNat_and, Nat.testBit_and]

theorem eq_zero_of_testBit {byte : UInt8} (h : ∀ i < 8, byte.toNat.testBit i = false) : byte = 0 := by
  apply UInt8.toNat_inj.1
  apply Nat.eq_of_testBit_eq
  intro i
  rw [show (0 : UInt8).toNat = 0 from rfl, Nat.zero_testBit]
  by_cases hi : i < 8
  · exact h i hi
  · exact Nat.testBit_lt_two_pow (byte.toNat_lt.trans_le (Nat.pow_le_pow_right (by omega) (by omega)))

/-- The lowest bit of a byte that is not zero is its first one. -/
theorem firstIn_testBit {byte : UInt8} :
    firstIn byte.toNat.testBit 0 8 = if byte = 0 then none else some (trailingZeros byte) := by
  unfold trailingZeros
  cases hf : firstIn byte.toNat.testBit 0 8 with
  | none =>
    rw [firstIn_eq_none] at hf
    rw [if_pos (eq_zero_of_testBit fun i hi => hf i (by omega) hi)]
  | some k =>
    rw [firstIn_eq_some] at hf
    have hne : byte ≠ 0 := by
      rintro rfl
      simp at hf
    rw [if_neg hne, Option.getD_some]

/-- A masked byte holds the first place of a part of a byte with the bit set. -/
theorem firstIn_masked {byte : UInt8} {lower upper : ℕ} (h : lower ≤ upper) (hu : upper ≤ 8) :
    (if byte &&& rangeMask lower (upper - lower) = 0 then none
      else some (trailingZeros (byte &&& rangeMask lower (upper - lower)))) =
      firstIn byte.toNat.testBit lower upper := by
  have hbit : ∀ i, (byte &&& rangeMask lower (upper - lower)).toNat.testBit i =
      (byte.toNat.testBit i && decide (lower ≤ i ∧ i < upper)) := fun i => by
    rw [testBit_and, testBit_rangeMask (by omega), Nat.add_sub_cancel' h]
  rw [← firstIn_testBit, firstIn_congr fun i _ _ => hbit i, firstIn_append (Nat.zero_le _) (h.trans hu),
    firstIn_append h hu]
  have hbefore : firstIn (fun i => byte.toNat.testBit i && decide (lower ≤ i ∧ i < upper)) 0 lower =
      none := firstIn_eq_none.2 fun i _ hi => by
    rw [decide_eq_false (by omega), Bool.and_false]
  have hbehind : firstIn (fun i => byte.toNat.testBit i && decide (lower ≤ i ∧ i < upper)) upper 8 =
      none := firstIn_eq_none.2 fun i hi _ => by
    rw [decide_eq_false (by omega), Bool.and_false]
  rw [hbefore, hbehind, Option.none_or, Option.or_none]
  refine firstIn_congr fun i h1 h2 => ?_
  rw [decide_eq_true ⟨h1, h2⟩, Bool.and_true]

/-! ## Counting -/

theorem bitAt_cons_lt {b : UInt8} {bytes : Bytes} {i : ℕ} (hi : i < 8) :
    bitAt (b :: bytes) i = b.toNat.testBit i := by
  rw [bitAt, Nat.div_eq_of_lt hi, Nat.mod_eq_of_lt hi, List.getD_cons_zero]

theorem bitAt_cons_add {b : UInt8} {bytes : Bytes} {i : ℕ} :
    bitAt (b :: bytes) (8 + i) = bitAt bytes i := by
  rw [bitAt, bitAt, show (8 + i) / 8 = i / 8 + 1 by omega, show (8 + i) % 8 = i % 8 by omega,
    List.getD_cons_succ]

/-- The number of ones among the first `n` bits. -/
def countBits (bytes : Bytes) (n : ℕ) : ℕ := (List.range n).countP (bitAt bytes)

theorem countBits_cons (b : UInt8) (bytes : Bytes) (n : ℕ) :
    countBits (b :: bytes) (8 + n) = popCount b + countBits bytes n := by
  unfold countBits popCount
  have hfirst : (List.range 8).countP (bitAt (b :: bytes)) =
      (List.range 8).countP b.toNat.testBit :=
    List.countP_congr fun i hi => by rw [bitAt_cons_lt (List.mem_range.1 hi)]
  have hrest : bitAt (b :: bytes) ∘ (8 + ·) = bitAt bytes := by
    funext i
    exact bitAt_cons_add
  rw [List.range_add, List.countP_append, List.countP_map, hfirst, hrest]

/-- Whole bytes and a masked rest count the bits. -/
theorem sum_popCount {bytes : Bytes} {n : ℕ} (hn : n ≤ 8 * bytes.length) :
    ((bytes.take (n / 8)).map popCount).sum +
      (if n % 8 = 0 then 0
        else popCount (bytes.getD (n / 8) 0 &&& rangeMask 0 (n % 8))) = countBits bytes n := by
  induction bytes generalizing n with
  | nil =>
    obtain rfl : n = 0 := by simpa using hn
    simp [countBits]
  | cons b rest ih =>
    by_cases h8 : n < 8
    · rw [Nat.div_eq_of_lt h8, Nat.mod_eq_of_lt h8, List.take_zero, List.map_nil, List.sum_nil,
        Nat.zero_add, List.getD_cons_zero]
      split_ifs with h0
      · rw [h0, countBits, List.range_zero, List.countP_nil]
      · unfold popCount countBits
        rw [show 8 = n + (8 - n) by omega, List.range_add, List.countP_append, List.countP_map]
        have hbit : ∀ i, (b &&& rangeMask 0 n).toNat.testBit i =
            (b.toNat.testBit i && decide (i < n)) := fun i => by
          rw [testBit_and, testBit_rangeMask (by omega)]
          simp
        have hrest : (List.range (8 - n)).countP
            ((b &&& rangeMask 0 n).toNat.testBit ∘ (n + ·)) = 0 := by
          rw [List.countP_eq_zero]
          intro i _
          rw [Function.comp_apply, hbit]
          simp
        rw [hrest, Nat.add_zero]
        refine List.countP_congr fun i hi => ?_
        have hi := List.mem_range.1 hi
        rw [hbit, bitAt_cons_lt (by omega), decide_eq_true hi, Bool.and_true]
    · obtain ⟨m, rfl⟩ : ∃ m, n = 8 + m := ⟨n - 8, by omega⟩
      rw [List.length_cons] at hn
      rw [countBits_cons, ← ih (by omega), show (8 + m) / 8 = m / 8 + 1 by omega,
        show (8 + m) % 8 = m % 8 by omega, List.take_succ_cons, List.map_cons, List.sum_cons,
        List.getD_cons_succ, Nat.add_assoc]

end Base
