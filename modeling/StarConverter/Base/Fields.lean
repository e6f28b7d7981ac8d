import StarConverter.Base.Codec
import StarConverter.Base.Patch
import StarConverter.Base.Words

/-!
# Fields written into a buffer

A record is a zeroed buffer into which fields are written one after the other. Fields written in
ascending order do not touch each other, so each of them stands in the record (`fieldAt_applyAll`)
and what lies behind the last one is still zero (`drop_applyAll`).
-/

namespace Base

section Fields

variable {α : Type}

theorem drop_applyAll {ps : List (Patch α)} {l : List α} {n : ℕ}
    (h : ∀ p ∈ ps, p.offset + p.bytes.length ≤ n) : (applyAll ps l).drop n = l.drop n := by
  apply List.ext_getElem?
  intro i
  rw [List.getElem?_drop, List.getElem?_drop, getElem?_applyAll_of_not_mem]
  intro hx
  obtain ⟨p, hp, hxp⟩ := mem_touched.1 hx
  have hle := h p hp
  rw [Patch.mem_span] at hxp
  omega

/-- Patches written in ascending order. -/
def Ascending (ps : List (Patch α)) : Prop :=
  ps.IsChain fun p q => p.offset + p.bytes.length ≤ q.offset

theorem Ascending.pairwise {ps : List (Patch α)} (h : Ascending ps) :
    ps.Pairwise fun p q => p.offset + p.bytes.length ≤ q.offset := by
  have : IsTrans (Patch α) fun p q => p.offset + p.bytes.length ≤ q.offset :=
    ⟨fun p q r hpq hqr => by omega⟩
  exact List.isChain_iff_pairwise.1 h

theorem Ascending.disjoint {ps : List (Patch α)} (h : Ascending ps) :
    (ps.map Patch.span).Pairwise Span.Disjoint := by
  rw [List.pairwise_map]
  exact h.pairwise.imp fun hpq => Span.Before.disjoint hpq

theorem Ascending.append {ps qs : List (Patch α)} (hp : Ascending ps) (hq : Ascending qs) {n : ℕ}
    (hps : ∀ p ∈ ps, p.offset + p.bytes.length ≤ n) (hqs : ∀ q ∈ qs, n ≤ q.offset) :
    Ascending (ps ++ qs) := by
  refine List.isChain_append.2 ⟨hp, hq, fun p hpl q hqh => ?_⟩
  exact (hps p (List.mem_of_getLast? hpl)).trans (hqs q (List.mem_of_head? hqh))

theorem ascending_map_range' {f : ℕ → Patch α}
    (h : ∀ i, (f i).offset + (f i).bytes.length ≤ (f (i + 1)).offset) (start n : ℕ) :
    Ascending ((List.range' start n).map f) := by
  induction n generalizing start with
  | zero => exact List.isChain_nil
  | succ n ih =>
    have htail := ih (start + 1)
    rw [List.range'_succ, List.map_cons]
    cases n with
    | zero => exact List.isChain_singleton _
    | succ n =>
      rw [List.range'_succ, List.map_cons] at htail ⊢
      exact List.isChain_cons_cons.2 ⟨h start, htail⟩

/-- What lies before every patch is unchanged. -/
theorem take_applyAll {ps : List (Patch α)} {l : List α} {n : ℕ} (h : ∀ p ∈ ps, n ≤ p.offset) :
    (applyAll ps l).take n = l.take n := by
  apply List.ext_getElem?
  intro i
  by_cases hi : i < n
  · rw [List.getElem?_take_of_lt hi, List.getElem?_take_of_lt hi, getElem?_applyAll_of_not_mem]
    intro hx
    obtain ⟨p, hp, hxp⟩ := mem_touched.1 hx
    have := h p hp
    rw [Patch.mem_span] at hxp
    omega
  · rw [List.getElem?_take_eq_none (by omega), List.getElem?_take_eq_none (by omega)]

/-- Every patch written in ascending order inside the buffer stands there in the end. -/
theorem fieldAt_applyAll {ps : List (Patch α)} {l : List α} (h : Ascending ps) {p : Patch α}
    (hp : p ∈ ps) (hin : p.offset + p.bytes.length ≤ l.length) :
    FieldAt (applyAll ps l) p.offset p.bytes := by
  refine ⟨by rwa [length_applyAll], ?_⟩
  apply List.ext_getElem?
  intro i
  rw [getElem?_sliceAt]
  split
  · rw [getElem?_applyAll_of_mem h.disjoint hp (Patch.mem_span.2 ⟨by omega, by omega⟩) (by omega),
      Nat.add_sub_cancel_left]
  · rw [List.getElem?_eq_none (by omega)]

/-- A patch stands in the buffer when every other one writes elsewhere. -/
theorem fieldAt_applyAll_of_apart {ps : List (Patch α)} {l : List α} {p : Patch α} (hp : p ∈ ps)
    (hin : p.offset + p.bytes.length ≤ l.length)
    (hps : ∀ q ∈ ps, q = p ∨ q.offset + q.bytes.length ≤ p.offset ∨
      p.offset + p.bytes.length ≤ q.offset) : FieldAt (applyAll ps l) p.offset p.bytes := by
  refine ⟨by rwa [length_applyAll], ?_⟩
  apply List.ext_getElem?
  intro i
  rw [getElem?_sliceAt]
  split_ifs with hi
  · have hx : p.offset + i ∈ p.span := Patch.mem_span.2 ⟨by omega, by omega⟩
    refine getElem?_applyAll (by omega) (fun q hq hxq => ?_) (.inl (mem_touched.2 ⟨p, hp, hx⟩))
    rcases hps q hq with rfl | hapart
    · rw [Nat.add_sub_cancel_left]
    · rw [Patch.mem_span] at hxq
      omega
  · rw [List.getElem?_eq_none (by omega)]

/-- From the last patch on, the buffer holds the patch and what was there behind it. -/
theorem drop_applyAll_last {front : List (Patch α)} {p : Patch α} {l : List α}
    (h : Ascending (front ++ [p])) (hin : p.offset + p.bytes.length ≤ l.length) :
    (applyAll (front ++ [p]) l).drop p.offset = p.bytes ++ l.drop (p.offset + p.bytes.length) := by
  have hlast := fieldAt_applyAll h (List.mem_append_right front (List.mem_singleton_self p)) hin
  have hall : ∀ q ∈ front ++ [p], q.offset + q.bytes.length ≤ p.offset + p.bytes.length := by
    intro q hq
    rcases List.mem_append.1 hq with hq | hq
    · have := (List.pairwise_append.1 h.pairwise).2.2 q hq p (List.mem_singleton_self p)
      omega
    · rw [List.mem_singleton.1 hq]
  rw [← drop_applyAll hall, ← List.drop_drop]
  conv_lhs => rw [← List.take_append_drop p.bytes.length ((applyAll (front ++ [p]) l).drop p.offset)]
  congr 1
  exact hlast.2

/-- A field stays where it is under patches elsewhere. -/
theorem FieldAt.applyAll {ps : List (Patch α)} {l s : List α} {offset : ℕ} (h : FieldAt l offset s)
    (hps : ∀ p ∈ ps, p.offset + p.bytes.length ≤ offset ∨ offset + s.length ≤ p.offset) :
    FieldAt (applyAll ps l) offset s := by
  refine ⟨by rw [length_applyAll]; exact h.1, ?_⟩
  conv_rhs => rw [← h.2]
  refine sliceAt_congr fun x h1 h2 => getElem?_applyAll_of_not_mem fun hx => ?_
  obtain ⟨p, hp, hxp⟩ := mem_touched.1 hx
  rw [Patch.mem_span] at hxp
  have := hps p hp
  omega

theorem FieldAt.overwrite {l s bytes : List α} {offset off : ℕ} (h : FieldAt l offset s)
    (hoff : off + bytes.length ≤ offset ∨ offset + s.length ≤ off) :
    FieldAt (overwrite l off bytes) offset s := by
  have hall : ∀ p ∈ [(⟨off, bytes⟩ : Patch α)],
      p.offset + p.bytes.length ≤ offset ∨ offset + s.length ≤ p.offset := by simpa using hoff
  exact h.applyAll hall

/-- A field of a field. -/
theorem FieldAt.nested {l s t : List α} {offset i : ℕ} (h : FieldAt l offset s)
    (ht : FieldAt s i t) : FieldAt l (offset + i) t := by
  refine ⟨by have := h.1; have := ht.1; omega, ?_⟩
  calc sliceAt l (offset + i) t.length
      = sliceAt (sliceAt l offset s.length) i t.length := (sliceAt_sliceAt ht.1).symm
    _ = sliceAt s i t.length := by rw [h.2]
    _ = t := ht.2

/-- A field inside a window of the buffer. -/
theorem FieldAt.window {l s : List α} {start offset n : ℕ} (h : FieldAt l (start + offset) s)
    (hin : offset + s.length ≤ n) (hle : start + n ≤ l.length) :
    FieldAt (sliceAt l start n) offset s := by
  refine ⟨by rwa [length_sliceAt_of_le hle], ?_⟩
  rw [sliceAt_sliceAt hin]
  exact h.2
/-- A string between two others. -/
theorem fieldAt_append (a s b : List α) : FieldAt (a ++ (s ++ b)) a.length s := by
  refine ⟨by simp, ?_⟩
  rw [sliceAt_append_right le_rfl, Nat.sub_self, sliceAt_append_left (by simp), sliceAt_zero_length]

/-- Two fields apart from each other can be written in either order. -/
theorem overwrite_comm {l a b : List α} {o o' : ℕ}
    (h : o + a.length ≤ o' ∨ o' + b.length ≤ o) :
    overwrite (overwrite l o a) o' b = overwrite (overwrite l o' b) o a := by
  apply List.ext_getElem?
  intro i
  by_cases hi : i < l.length
  · by_cases ha : o ≤ i ∧ i < o + a.length
    · rw [getElem?_overwrite_of_not_mem (show ¬ (o' ≤ i ∧ i < o' + b.length) by omega),
        getElem?_overwrite_of_mem ha.1 ha.2 hi, getElem?_overwrite_of_mem ha.1 ha.2 (by simpa)]
    · rw [getElem?_overwrite_of_not_mem ha (l := overwrite l o' b)]
      by_cases hb : o' ≤ i ∧ i < o' + b.length
      · rw [getElem?_overwrite_of_mem hb.1 hb.2 (by simpa), getElem?_overwrite_of_mem hb.1 hb.2 hi]
      · rw [getElem?_overwrite_of_not_mem hb, getElem?_overwrite_of_not_mem hb,
          getElem?_overwrite_of_not_mem ha]
  · rw [List.getElem?_eq_none (by simpa using hi), List.getElem?_eq_none (by simpa using hi)]

end Fields

/-- `put_u16`, `put_u32`, `put_u64`: a little-endian word of `n` bytes. -/
def put (n offset value : ℕ) : Patch UInt8 := ⟨offset, toLe n value⟩

@[simp] theorem put_offset (n offset value : ℕ) : (put n offset value).offset = offset := rfl

@[simp] theorem length_put (n offset value : ℕ) : (put n offset value).bytes.length = n :=
  length_toLe n value

def zeros (n : ℕ) : Bytes := List.replicate n 0

@[simp] theorem length_zeros (n : ℕ) : (zeros n).length = n := List.length_replicate

theorem allZero_zeros (n : ℕ) : AllZero (zeros n) := fun _ hb => List.eq_of_mem_replicate hb

theorem toLe_zero (n : ℕ) : toLe n 0 = zeros n := by
  induction n with
  | zero => rfl
  | succ n ih =>
    rw [toLe, Nat.zero_div, ih]
    rfl

theorem fieldAt_zeros {n total offset : ℕ} (h : offset + n ≤ total) :
    FieldAt (zeros total) offset (zeros n) := by
  refine ⟨by simpa using h, ?_⟩
  rw [length_zeros, sliceAt, zeros, List.drop_replicate, List.take_replicate,
    min_eq_left (by omega)]
  rfl

theorem drop_zeros (n k : ℕ) : (zeros n).drop k = zeros (n - k) := List.drop_replicate

theorem FieldAt.leAt {n offset v : ℕ} {bytes : Bytes} (h : FieldAt bytes offset (toLe n v))
    (hv : v < 256 ^ n) : leAt n bytes offset = v := by
  rw [Base.leAt, h.slice (length_toLe n v), fromLe_toLe n v hv]

/-- A word written into a zeroed buffer is read back. -/
theorem leAt_put {ps : List (Patch UInt8)} {total n offset value : ℕ} (h : Ascending ps)
    (hmem : put n offset value ∈ ps) (hin : offset + n ≤ total) (hvalue : value < 256 ^ n) :
    leAt n (applyAll ps (zeros total)) offset = value := by
  refine FieldAt.leAt (fieldAt_applyAll h hmem ?_) hvalue
  rwa [put_offset, length_put, length_zeros]

/-- Bytes no field covers are still zero. -/
theorem fieldAt_applyAll_zeros {ps : List (Patch UInt8)} {total offset n : ℕ}
    (hin : offset + n ≤ total)
    (hps : ∀ p ∈ ps, p.offset + p.bytes.length ≤ offset ∨ offset + n ≤ p.offset) :
    FieldAt (applyAll ps (zeros total)) offset (zeros n) := by
  refine (fieldAt_zeros hin).applyAll ?_
  rwa [length_zeros]

/-- A byte no field covers is still zero. -/
theorem getD_applyAll_zeros {ps : List (Patch UInt8)} {total i : ℕ}
    (hps : ∀ p ∈ ps, p.offset + p.bytes.length ≤ i ∨ i < p.offset) :
    (applyAll ps (zeros total)).getD i 0 = 0 := by
  rw [List.getD_eq_getElem?_getD, getElem?_applyAll_of_not_mem]
  · by_cases hi : i < total
    · simp [zeros, hi]
    · rw [List.getElem?_eq_none (by simpa using hi)]
      rfl
  · intro hmem
    obtain ⟨p, hp, hx⟩ := mem_touched.1 hmem
    rw [Patch.mem_span] at hx
    have := hps p hp
    omega

/-- UTF-16 units, each a little-endian word. -/
def utf16Bytes (units : List UInt16) : Bytes := units.flatMap fun u => toLe 2 u.toNat

@[simp] theorem length_utf16Bytes (units : List UInt16) :
    (utf16Bytes units).length = 2 * units.length := by
  simp [utf16Bytes, List.length_flatMap, Nat.mul_comm]

/-- `align_eight`, on words. -/
def alignEight (value : ℕ) : ℕ := saturatingAdd value 7 / 8 * 8

theorem alignEight_mod (value : ℕ) : alignEight value % 8 = 0 := Nat.mul_mod_left _ _

theorem alignEight_le (value : ℕ) : alignEight value ≤ value + 7 :=
  (Nat.div_mul_le_self _ _).trans (saturatingAdd_le _ _)

/-- A small value is not cut off by aligning it. -/
theorem le_alignEight {value : ℕ} (h : alignEight value < wordBound32) : value ≤ alignEight value := by
  unfold alignEight saturatingAdd wordBound wordBound32 at *
  omega

theorem alignEight_eq {value : ℕ} (h : value + 7 < wordBound) :
    alignEight value = (value + 7) / 8 * 8 := by
  unfold alignEight saturatingAdd
  rw [min_eq_left (by omega)]

end Base
