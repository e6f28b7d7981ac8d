import StarConverter.Base.Bytes

/-!
# Machine words

The remaining checked operations on 64-bit and 32-bit words, little-endian words inside a byte string
that is known to hold them, and the rotating sums that serve as checksums.
-/

namespace Base

/-- The number of values of a 32-bit word. -/
def wordBound32 : ℕ := 2 ^ 32

/-- `checked_mul` of two 64-bit words. -/
def checkedMul (a b : ℕ) : Option ℕ := if a * b < wordBound then some (a * b) else none

/-- `checked_add` of two 32-bit words. -/
def checkedAdd32 (a b : ℕ) : Option ℕ := if a + b < wordBound32 then some (a + b) else none

@[simp] theorem checkedMul_eq_some {a b c : ℕ} :
    checkedMul a b = some c ↔ a * b < wordBound ∧ a * b = c := by
  unfold checkedMul; split <;> simp_all

@[simp] theorem checkedAdd32_eq_some {a b c : ℕ} :
    checkedAdd32 a b = some c ↔ a + b < wordBound32 ∧ a + b = c := by
  unfold checkedAdd32; split <;> simp_all

/-- `div_ceil` of two words, the divisor not zero. -/
def divCeil (a b : ℕ) : ℕ := (a + b - 1) / b

theorem le_divCeil_mul {a b : ℕ} (hb : 0 < b) : a ≤ divCeil a b * b := by
  have h := Nat.div_add_mod (a + b - 1) b
  have hm := Nat.mod_lt (a + b - 1) hb
  unfold divCeil
  rw [Nat.mul_comm]
  omega

theorem divCeil_mul {n b : ℕ} (hb : 0 < b) : divCeil (n * b) b = n := by
  rw [divCeil, Nat.add_sub_assoc hb, Nat.mul_comm, Nat.mul_add_div hb,
    Nat.div_eq_of_lt (by omega), Nat.add_zero]

/-- The little-endian word of `n` bytes at `offset`. -/
def leAt (n : ℕ) (bytes : Bytes) (offset : ℕ) : ℕ := fromLe (sliceAt bytes offset n)

theorem leAt_lt (n : ℕ) (bytes : Bytes) (offset : ℕ) : leAt n bytes offset < 256 ^ n := by
  refine (fromLe_lt _).trans_le (Nat.pow_le_pow_right (by norm_num) ?_)
  rw [length_sliceAt]
  exact Nat.min_le_left _ _

/-- `sum.rotate_right(1).wrapping_add(byte)` on words of `bits` bits. -/
def rotateAdd (bits sum : ℕ) (byte : UInt8) : ℕ :=
  (sum / 2 + sum % 2 * 2 ^ (bits - 1) + byte.toNat) % 2 ^ bits

/-- The rotating sum of a byte string. -/
def rotatingSum (bits : ℕ) (bytes : Bytes) : ℕ := bytes.foldl (rotateAdd bits) 0

end Base
