import StarConverter.Base.Words

/-!
# Shortest little-endian integers

A number is written with as few of its eight bytes as give it back, read as an unsigned or as a
two's-complement number. Read as a signed number of its width, the shortest unsigned encoding gives
the number back exactly when its top bit is clear (`signedValue_unsignedBytes_iff`).
-/

namespace Base

/-- The two's-complement number whose bytes are given, least significant first. -/
def signedValue (bytes : Bytes) : ℤ :=
  if 2 * fromLe bytes < 256 ^ bytes.length then fromLe bytes else fromLe bytes - 256 ^ bytes.length

/-- The width of the shortest unsigned encoding. -/
def unsignedWidth (raw : Bytes) : ℕ :=
  ((List.range' 1 8).find? fun length => (raw.drop length).all (· = 0)).getD 8

/-- The shortest unsigned encoding of a 64-bit word. -/
def unsignedBytes (value : ℕ) : Bytes :=
  let raw := toLe 8 value
  raw.take (unsignedWidth raw)

/-- The width left when bytes that only repeat the sign are dropped from the end. -/
def signedWidth (raw : Bytes) : ℕ → ℕ
  | length + 2 =>
    let top := raw.getD (length + 1) 0
    let next := raw.getD length 0
    if (top = 0 ∧ next < 0x80) ∨ (top = 0xFF ∧ 0x80 ≤ next) then signedWidth raw (length + 1)
    else length + 2
  | length => length

/-- The bytes of a 64-bit two's-complement number. -/
def signedLe (value : ℤ) : Bytes := toLe 8 (value % 2 ^ 64).toNat

/-- The shortest two's-complement encoding of a 64-bit number. -/
def signedBytes (value : ℤ) : Bytes :=
  let raw := signedLe value
  raw.take (signedWidth raw 8)

/-! ## Bytes of a word -/

theorem take_toLe {n m : ℕ} (h : n ≤ m) (v : ℕ) : (toLe m v).take n = toLe n v := by
  induction n generalizing m v with
  | zero => rfl
  | succ n ih =>
    obtain ⟨m, rfl⟩ : ∃ k, m = k + 1 := ⟨m - 1, by omega⟩
    rw [toLe, toLe, List.take_succ_cons, ih (by omega)]

theorem drop_toLe {n m : ℕ} (v : ℕ) : (toLe m v).drop n = toLe (m - n) (v / 256 ^ n) := by
  induction n generalizing m v with
  | zero => simp
  | succ n ih =>
    cases m with
    | zero => simp [toLe]
    | succ m =>
      rw [toLe, List.drop_succ_cons, ih, Nat.succ_sub_succ, pow_succ', Nat.div_div_eq_div_mul]

theorem all_zero_toLe_iff {n v : ℕ} (h : v < 256 ^ n) :
    (toLe n v).all (· = 0) = true ↔ v = 0 := by
  constructor
  · intro hall
    have hv := fromLe_toLe n v h
    have hzero : ∀ bytes : Bytes, bytes.all (· = 0) = true → fromLe bytes = 0 := by
      intro bytes hb
      induction bytes with
      | nil => rfl
      | cons b rest ih =>
        simp only [List.all_cons, Bool.and_eq_true, decide_eq_true_eq] at hb
        rw [fromLe, ih hb.2, hb.1]
        rfl
    rw [← hv, hzero _ hall]
  · rintro rfl
    have hz : ∀ n : ℕ, (toLe n 0).all (· = 0) = true := by
      intro n
      induction n with
      | zero => rfl
      | succ n ih => simpa [toLe] using ih
    exact hz n

/-! ## Unsigned numbers -/

/-- The width is the first that holds the number. -/
theorem unsignedWidth_spec {v : ℕ} (h : v < wordBound) :
    1 ≤ unsignedWidth (toLe 8 v) ∧ unsignedWidth (toLe 8 v) ≤ 8 ∧
      v < 256 ^ unsignedWidth (toLe 8 v) ∧
      ∀ n, 1 ≤ n → n < unsignedWidth (toLe 8 v) → 256 ^ n ≤ v := by
  have hcond : ∀ n, n ≤ 8 → (((toLe 8 v).drop n).all (· = 0) = true ↔ v < 256 ^ n) := by
    intro n hn
    rw [drop_toLe, all_zero_toLe_iff]
    · rw [Nat.div_eq_zero_iff]
      have hpos : 256 ^ n ≠ 0 := pow_ne_zero _ (by norm_num)
      tauto
    · rw [Nat.div_lt_iff_lt_mul (by positivity), ← pow_add, Nat.sub_add_cancel hn]
      exact h
  unfold unsignedWidth
  cases hfind : (List.range' 1 8).find? fun length => ((toLe 8 v).drop length).all (· = 0) with
  | none =>
    have hnone := List.find?_eq_none.1 hfind 8 (by simp)
    rw [hcond 8 le_rfl] at hnone
    exact absurd h hnone
  | some w =>
    have hw := List.find?_some hfind
    obtain ⟨hsat, before, after, hsplit, hbefore⟩ := List.find?_eq_some_iff_append.1 hfind
    have hmem : w ∈ List.range' 1 8 := List.mem_of_find?_eq_some hfind
    have hrange : 1 ≤ w ∧ w ≤ 8 := by
      rw [List.mem_range'_1] at hmem
      omega
    refine ⟨hrange.1, hrange.2, (hcond w hrange.2).1 hw, fun n h1 hn => ?_⟩
    have hn8 : n ≤ 8 := by
      rw [Option.getD_some] at hn
      omega
    rw [Option.getD_some] at hn
    by_contra hlt
    have hnmem : n ∈ before := by
      have hin : n ∈ List.range' 1 8 := by
        rw [List.mem_range'_1]
        omega
      rw [hsplit, List.mem_append, List.mem_cons] at hin
      rcases hin with hin | rfl | hin
      · exact hin
      · omega
      · -- The list is increasing, so what stands behind `w` is larger.
        have hsorted : (List.range' 1 8).Pairwise (· < ·) := List.pairwise_lt_range'
        rw [hsplit, List.pairwise_append, List.pairwise_cons] at hsorted
        have := hsorted.2.1.1 n hin
        omega
    have hfalse := hbefore n hnmem
    rw [Bool.not_eq_true', ← Bool.not_eq_true, hcond n hn8] at hfalse
    exact hfalse (not_le.1 hlt)

theorem unsignedBytes_eq {v : ℕ} (h : v < wordBound) :
    unsignedBytes v = toLe (unsignedWidth (toLe 8 v)) v :=
  take_toLe (unsignedWidth_spec h).2.1 v

theorem length_unsignedBytes {v : ℕ} (h : v < wordBound) :
    1 ≤ (unsignedBytes v).length ∧ (unsignedBytes v).length ≤ 8 := by
  rw [unsignedBytes_eq h, length_toLe]
  exact ⟨(unsignedWidth_spec h).1, (unsignedWidth_spec h).2.1⟩

theorem fromLe_unsignedBytes {v : ℕ} (h : v < wordBound) : fromLe (unsignedBytes v) = v := by
  rw [unsignedBytes_eq h]
  exact fromLe_toLe _ v (unsignedWidth_spec h).2.2.1

/-- The top bit of the shortest unsigned encoding is clear. -/
def TopBitClear (v : ℕ) : Prop := 2 * v < 256 ^ (unsignedBytes v).length

instance (v : ℕ) : Decidable (TopBitClear v) := inferInstanceAs (Decidable (_ < _))

theorem signedValue_unsignedBytes_iff {v : ℕ} (h : v < wordBound) :
    signedValue (unsignedBytes v) = v ↔ TopBitClear v := by
  unfold signedValue TopBitClear
  rw [fromLe_unsignedBytes h]
  constructor
  · intro heq
    by_contra hnot
    rw [if_neg hnot] at heq
    have hpos : (0 : ℤ) < 256 ^ (unsignedBytes v).length := by positivity
    omega
  · intro hlt
    rw [if_pos hlt]

/-! ## Signed numbers -/

theorem fromLe_append (a b : Bytes) : fromLe (a ++ b) = fromLe a + 256 ^ a.length * fromLe b := by
  induction a with
  | nil => simp [fromLe]
  | cons x rest ih =>
    rw [List.cons_append, fromLe, fromLe, ih, List.length_cons, pow_succ]
    ring

/-- A number of eight bytes read as a signed one. -/
theorem signedValue_signedLe {v : ℤ} (hlo : -2 ^ 63 ≤ v) (hhi : v < 2 ^ 63) :
    signedValue (signedLe v) = v := by
  have hmod : 0 ≤ v % 2 ^ 64 ∧ v % 2 ^ 64 < 2 ^ 64 := ⟨Int.emod_nonneg _ (by norm_num),
    Int.emod_lt_of_pos _ (by norm_num)⟩
  have hnat : (v % 2 ^ 64).toNat < 256 ^ 8 := by
    have : (256 : ℕ) ^ 8 = 2 ^ 64 := by norm_num
    omega
  unfold signedValue signedLe
  rw [fromLe_toLe 8 _ hnat, length_toLe, Int.toNat_of_nonneg hmod.1]
  have h256 : (256 : ℤ) ^ 8 = 2 ^ 64 := by norm_num
  split_ifs with hc
  · have hc' : 2 * (v % 2 ^ 64) < 2 ^ 64 := by
      have h256' : (256 : ℕ) ^ 8 = 2 ^ 64 := by norm_num
      omega
    rcases lt_or_ge v 0 with hneg | hpos
    · have hv : v % 2 ^ 64 = v + 2 ^ 64 := by omega
      omega
    · exact Int.emod_eq_of_lt hpos (by omega)
  · have hc' : ¬ 2 * (v % 2 ^ 64) < 2 ^ 64 := by
      have h256' : (256 : ℕ) ^ 8 = 2 ^ 64 := by norm_num
      omega
    rw [h256]
    omega

/-- Dropping a top byte that repeats the sign does not change the number. -/
theorem signedValue_concat {bytes : Bytes} {next top : UInt8}
    (h : (top = 0 ∧ next < 0x80) ∨ (top = 0xFF ∧ 0x80 ≤ next)) :
    signedValue (bytes ++ [next, top]) = signedValue (bytes ++ [next]) := by
  have hn : next.toNat < 256 := next.toNat_lt
  have hb := fromLe_lt bytes
  have hlong : fromLe (bytes ++ [next, top]) =
      fromLe bytes + 256 ^ bytes.length * next.toNat +
        256 ^ bytes.length * 256 * top.toNat := by
    rw [fromLe_append]
    simp only [fromLe]
    ring
  have hshort : fromLe (bytes ++ [next]) = fromLe bytes + 256 ^ bytes.length * next.toNat := by
    rw [fromLe_append]
    simp only [fromLe]
    ring
  unfold signedValue
  rw [hlong, hshort]
  simp only [List.length_append, List.length_cons, List.length_nil]
  set P := 256 ^ bytes.length with hP
  have hP2 : 256 ^ (bytes.length + (0 + 1 + 1)) = P * 65536 := by
    rw [pow_add, hP]
    norm_num
  have hP1 : 256 ^ (bytes.length + (0 + 1)) = P * 256 := by
    rw [pow_add, hP]
    norm_num
  have hPz : (256 : ℤ) ^ (bytes.length + (0 + 1 + 1)) = P * 65536 := by
    rw [pow_add, hP]
    norm_num
  have hPz1 : (256 : ℤ) ^ (bytes.length + (0 + 1)) = P * 256 := by
    rw [pow_add, hP]
    norm_num
  rw [hP2, hP1, hPz, hPz1]
  rcases h with ⟨rfl, hlt⟩ | ⟨rfl, hge⟩
  · have hlt' : next.toNat < 128 := by simpa [UInt8.lt_iff_toNat_lt] using hlt
    have hz : (0 : UInt8).toNat = 0 := rfl
    have hmul : P * next.toNat ≤ P * 127 := Nat.mul_le_mul_left _ (by omega)
    rw [hz, Nat.mul_zero, Nat.add_zero, if_pos (by omega), if_pos (by omega)]
  · have hge' : 128 ≤ next.toNat := by simpa [UInt8.le_iff_toNat_le] using hge
    have hz : (0xFF : UInt8).toNat = 255 := rfl
    have hmul : P * 128 ≤ P * next.toNat := Nat.mul_le_mul_left _ hge'
    rw [hz, if_neg (by omega), if_neg (by omega)]
    push_cast
    ring

theorem signedWidth_spec {raw : Bytes} {n : ℕ} (h1 : 1 ≤ n) (hn : n ≤ raw.length) :
    1 ≤ signedWidth raw n ∧ signedWidth raw n ≤ n ∧
      signedValue (raw.take (signedWidth raw n)) = signedValue (raw.take n) := by
  induction n with
  | zero => omega
  | succ n ih =>
    cases n with
    | zero => exact ⟨le_rfl, le_rfl, rfl⟩
    | succ n =>
      rw [signedWidth]
      split_ifs with hc
      · obtain ⟨hlo, hhi, heq⟩ := ih (by omega) (by omega)
        refine ⟨hlo, by omega, heq.trans ?_⟩
        have hshort : raw.take (n + 1) = raw.take n ++ [raw.getD n 0] := by
          rw [List.take_add_one, List.getD_eq_getElem?_getD, List.getElem?_eq_getElem (by omega)]
          rfl
        have hlong : raw.take (n + 2) = raw.take n ++ [raw.getD n 0, raw.getD (n + 1) 0] := by
          rw [List.take_add_one, hshort, List.append_assoc, List.getD_eq_getElem?_getD,
            List.getD_eq_getElem?_getD, List.getElem?_eq_getElem (by omega),
            List.getElem?_eq_getElem (by omega)]
          rfl
        rw [hshort, hlong]
        exact (signedValue_concat hc).symm
      · exact ⟨by omega, le_rfl, rfl⟩

theorem length_signedLe (v : ℤ) : (signedLe v).length = 8 := length_toLe _ _

theorem length_signedBytes (v : ℤ) : 1 ≤ (signedBytes v).length ∧ (signedBytes v).length ≤ 8 := by
  obtain ⟨hlo, hhi, -⟩ := signedWidth_spec (n := 8) (by norm_num) (length_signedLe v).ge
  unfold signedBytes
  rw [List.length_take, length_signedLe]
  omega

/-- The shortest signed encoding gives the number back. -/
theorem signedValue_signedBytes {v : ℤ} (hlo : -2 ^ 63 ≤ v) (hhi : v < 2 ^ 63) :
    signedValue (signedBytes v) = v := by
  obtain ⟨-, -, heq⟩ := signedWidth_spec (n := 8) (by norm_num) (length_signedLe v).ge
  refine heq.trans ?_
  rw [List.take_of_length_le (length_signedLe v).le]
  exact signedValue_signedLe hlo hhi

end Base
