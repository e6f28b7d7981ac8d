import StarConverter.Base.Fields

/-!
# Patches written into a part of a list

A writer that fills a buffer piece by piece writes each piece at a cursor. Patches behind a front leave
the front alone, patches that stay inside a piece leave what follows alone, so the buffer is the pieces
one behind the other.
-/

namespace Base

variable {α : Type}

/-- The patch, `n` places further on. -/
def Patch.shift (n : ℕ) (p : Patch α) : Patch α := ⟨n + p.offset, p.bytes⟩

theorem overwrite_append_right (front l bytes : List α) (offset : ℕ) :
    overwrite (front ++ l) (front.length + offset) bytes = front ++ overwrite l offset bytes := by
  apply List.ext_getElem?
  intro i
  by_cases hi : i < front.length
  · rw [getElem?_overwrite_of_not_mem (by omega), List.getElem?_append_left hi,
      List.getElem?_append_left hi]
  · rw [List.getElem?_append_right (by omega)]
    simp only [overwrite, List.getElem?_mapIdx]
    rw [List.getElem?_append_right (by omega)]
    have hle : front.length + offset ≤ i ↔ offset ≤ i - front.length := by omega
    have hsub : i - (front.length + offset) = i - front.length - offset := by omega
    simp only [hle, hsub]

theorem overwrite_append_left {l rest bytes : List α} {offset : ℕ}
    (h : offset + bytes.length ≤ l.length) :
    overwrite (l ++ rest) offset bytes = overwrite l offset bytes ++ rest := by
  apply List.ext_getElem?
  intro i
  by_cases hi : i < l.length
  · rw [List.getElem?_append_left (by rwa [length_overwrite])]
    simp only [overwrite, List.getElem?_mapIdx]
    rw [List.getElem?_append_left hi]
  · rw [getElem?_overwrite_of_not_mem (by omega), List.getElem?_append_right (by omega),
      List.getElem?_append_right (by rw [length_overwrite]; omega), length_overwrite]

/-- Shifted patches write behind the front as the patches write without it. -/
theorem applyAll_shift (ps : List (Patch α)) (front l : List α) :
    applyAll (ps.map (Patch.shift front.length)) (front ++ l) = front ++ applyAll ps l := by
  induction ps generalizing l with
  | nil => rfl
  | cons p ps ih =>
    rw [List.map_cons, applyAll_cons, applyAll_cons, ← ih]
    exact congrArg _ (overwrite_append_right front l p.bytes p.offset)

/-- Patches inside a piece write nothing behind it. -/
theorem applyAll_append_left {ps : List (Patch α)} {l rest : List α}
    (h : ∀ p ∈ ps, p.offset + p.bytes.length ≤ l.length) :
    applyAll ps (l ++ rest) = applyAll ps l ++ rest := by
  induction ps generalizing l with
  | nil => rfl
  | cons p ps ih =>
    obtain ⟨hp, hps⟩ := List.forall_mem_cons.1 h
    rw [applyAll_cons, applyAll_cons, ← ih (by simpa using hps)]
    exact congrArg _ (overwrite_append_left hp)

theorem zeros_append (m n : ℕ) : zeros m ++ zeros n = zeros (m + n) := List.replicate_append_replicate

/-- A piece written at the cursor of a buffer whose rest is zero. -/
theorem applyAll_piece {ps : List (Patch UInt8)} {front : Bytes} {n rest : ℕ}
    (h : ∀ p ∈ ps, p.offset + p.bytes.length ≤ n) :
    applyAll (ps.map (Patch.shift front.length)) (front ++ zeros (n + rest)) =
      front ++ applyAll ps (zeros n) ++ zeros rest := by
  rw [applyAll_shift, ← zeros_append, applyAll_append_left (by simpa using h), List.append_assoc]

/-- A piece copied over the zeros at the cursor. -/
theorem overwrite_piece {front piece : Bytes} {rest : ℕ} :
    overwrite (front ++ zeros (piece.length + rest)) front.length piece =
      front ++ piece ++ zeros rest := by
  have hself : overwrite (zeros piece.length) 0 piece = piece := by
    have hlen : (overwrite (zeros piece.length) 0 piece).length = piece.length := by simp
    calc overwrite (zeros piece.length) 0 piece
        = sliceAt (overwrite (zeros piece.length) 0 piece) 0 piece.length := by
          rw [sliceAt, List.drop_zero, List.take_of_length_le hlen.le]
      _ = piece := sliceAt_overwrite_self (by simp)
  have hright := overwrite_append_right front (zeros (piece.length + rest)) piece 0
  rw [Nat.add_zero] at hright
  rw [hright, ← zeros_append, overwrite_append_left (by simp), hself, List.append_assoc]

end Base
