import StarConverter.Base.Checked

/-!
# Byte strings, slices and little-endian words

Slices follow the bounds rules of `get(lo..hi)`. A fixed-width byte array is a list carrying its
length (`FixedBytes`). `toLe` and `fromLe` are inverse to each other on words of the given width.
-/

namespace Base

abbrev Bytes := List UInt8

/-- The bytes of an ASCII string. -/
def ascii (s : String) : Bytes := s.toList.map fun c => UInt8.ofNat c.toNat

/-- A byte array of fixed length. -/
abbrev FixedBytes (n : ℕ) := {b : Bytes // b.length = n}

/-- Zeros. -/
def zeroBytes (n : ℕ) : FixedBytes n := ⟨List.replicate n 0, List.length_replicate⟩

section Slice

variable {α : Type}

/-- The `len` elements starting at `off` (fewer at the end of the list). -/
def sliceAt (l : List α) (off len : ℕ) : List α := (l.drop off).take len

/-- `get(lo..hi)`: the slice, or nothing when the range is not inside the list. -/
def slice? (l : List α) (lo hi : ℕ) : Option (List α) :=
  if lo ≤ hi ∧ hi ≤ l.length then some (sliceAt l lo (hi - lo)) else none

@[simp] theorem slice?_eq_some {l s : List α} {lo hi : ℕ} :
    slice? l lo hi = some s ↔ (lo ≤ hi ∧ hi ≤ l.length) ∧ sliceAt l lo (hi - lo) = s := by
  unfold slice?; split <;> simp_all

theorem length_sliceAt (l : List α) (off len : ℕ) :
    (sliceAt l off len).length = min len (l.length - off) := by
  simp [sliceAt]

theorem length_sliceAt_of_le {l : List α} {off len : ℕ} (h : off + len ≤ l.length) :
    (sliceAt l off len).length = len := by
  rw [length_sliceAt]; omega

theorem getElem?_sliceAt (l : List α) (off len i : ℕ) :
    (sliceAt l off len)[i]? = if i < len then l[off + i]? else none := by
  unfold sliceAt
  rw [List.getElem?_take]
  split <;> simp

theorem sliceAt_append_left {a b : List α} {off len : ℕ} (h : off + len ≤ a.length) :
    sliceAt (a ++ b) off len = sliceAt a off len := by
  apply List.ext_getElem?
  intro i
  rw [getElem?_sliceAt, getElem?_sliceAt]
  split
  · rw [List.getElem?_append_left (by omega)]
  · rfl

theorem sliceAt_append_right {a b : List α} {off len : ℕ} (h : a.length ≤ off) :
    sliceAt (a ++ b) off len = sliceAt b (off - a.length) len := by
  apply List.ext_getElem?
  intro i
  rw [getElem?_sliceAt, getElem?_sliceAt]
  split
  · rw [List.getElem?_append_right (by omega), show off - a.length + i = off + i - a.length by omega]
  · rfl

theorem sliceAt_zero_length (l : List α) : sliceAt l 0 l.length = l := by
  simp [sliceAt]

theorem sliceAt_add (l : List α) (off a b : ℕ) :
    sliceAt l off (a + b) = sliceAt l off a ++ sliceAt l (off + a) b := by
  rw [sliceAt, sliceAt, sliceAt, ← List.drop_drop, List.take_add]

theorem sliceAt_sliceAt {l : List α} {off len off' len' : ℕ} (h : off' + len' ≤ len) :
    sliceAt (sliceAt l off len) off' len' = sliceAt l (off + off') len' := by
  apply List.ext_getElem?
  intro i
  simp only [getElem?_sliceAt]
  by_cases hi : i < len'
  · rw [if_pos hi, if_pos hi, if_pos (by omega), Nat.add_assoc]
  · rw [if_neg hi, if_neg hi]

/-- A segment of a concatenation is the slice at the total length of the segments before it. -/
theorem sliceAt_flatten {segs : List (List α)} {s : List α} {i off len : ℕ} (hs : segs[i]? = some s)
    (hoff : ((segs.take i).map List.length).sum = off) (hlen : s.length = len) :
    sliceAt segs.flatten off len = s := by
  induction segs generalizing i off with
  | nil => simp at hs
  | cons a rest ih =>
    cases i with
    | zero =>
      obtain rfl : a = s := by simpa using hs
      obtain rfl : off = 0 := by simpa using hoff.symm
      rw [List.flatten_cons, sliceAt_append_left (by omega), ← hlen, sliceAt_zero_length]
    | succ i =>
      have hs' : rest[i]? = some s := by simpa using hs
      simp only [List.take_succ_cons, List.map_cons, List.sum_cons] at hoff
      rw [List.flatten_cons, sliceAt_append_right (by omega)]
      exact ih hs' (by omega)

/-- Two lists with the same elements on a range have the same slice there. -/
theorem sliceAt_congr {l l' : List α} {off len : ℕ}
    (h : ∀ i, off ≤ i → i < off + len → l[i]? = l'[i]?) : sliceAt l off len = sliceAt l' off len := by
  apply List.ext_getElem?
  intro i
  rw [getElem?_sliceAt, getElem?_sliceAt]
  split
  · exact h _ (by omega) (by omega)
  · rfl

end Slice

/-! ## Little-endian words -/

/-- The `n` low bytes of `v`, least significant first. -/
def toLe : ℕ → ℕ → Bytes
  | 0, _ => []
  | n + 1, v => UInt8.ofNat v :: toLe n (v / 256)

/-- The number whose bytes are given, least significant first. -/
def fromLe : Bytes → ℕ
  | [] => 0
  | b :: rest => b.toNat + 256 * fromLe rest

@[simp] theorem length_toLe (n v : ℕ) : (toLe n v).length = n := by
  induction n generalizing v with
  | zero => rfl
  | succ n ih => simp [toLe, ih]

theorem fromLe_lt (b : Bytes) : fromLe b < 256 ^ b.length := by
  induction b with
  | nil => simp [fromLe]
  | cons x rest ih =>
    have hx : x.toNat < 256 := x.toNat_lt
    simp only [fromLe, List.length_cons, pow_succ]
    omega

theorem fromLe_toLe (n v : ℕ) (h : v < 256 ^ n) : fromLe (toLe n v) = v := by
  induction n generalizing v with
  | zero => simp [fromLe, toLe] at *; omega
  | succ n ih =>
    have hq : v / 256 < 256 ^ n := by
      rw [pow_succ] at h
      exact Nat.div_lt_of_lt_mul (by omega)
    have hm : (UInt8.ofNat v).toNat = v % 256 := by simp
    rw [toLe, fromLe, ih _ hq, hm]
    omega

theorem toLe_fromLe (b : Bytes) : toLe b.length (fromLe b) = b := by
  induction b with
  | nil => rfl
  | cons x rest ih =>
    have hx : x.toNat < 256 := x.toNat_lt
    have hhead : UInt8.ofNat (x.toNat + 256 * fromLe rest) = x := by
      apply UInt8.toNat.inj
      simp only [UInt8.toNat_ofNat']
      omega
    have htail : (x.toNat + 256 * fromLe rest) / 256 = fromLe rest := by omega
    simp only [List.length_cons, fromLe, toLe, hhead, htail, ih]

end Base
