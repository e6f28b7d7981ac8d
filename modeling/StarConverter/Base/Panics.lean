import StarConverter.Base.Bytes
import StarConverter.Base.Checked

/-!
# Programs that can panic

`Stop` tells the two abnormal ends of a program apart from the errors it returns: an index or an addition
out of range, and a loop that is not through after the rounds it was given. A program is safe when it is
the embedding (`embed`) of a program without these ends; embedding commutes with the combinators, so
safety is shown operation by operation.
-/

namespace Base

/-- Why a program stops: with an error it returns, by a panic, or by running out of rounds. -/
inductive Stop (ε : Type)
  | error (e : ε)
  | panic
  | outOfRounds
  deriving DecidableEq

section Embedding

variable {ε α β : Type}

/-- A program that only returns. -/
def embed (x : Except ε α) : Except (Stop ε) α := x.mapError .error

@[simp] theorem embed_ok (a : α) : embed (.ok a : Except ε α) = .ok a := rfl

@[simp] theorem embed_pure (a : α) : embed (pure a : Except ε α) = pure a := rfl

@[simp] theorem embed_error (e : ε) : embed (.error e : Except ε α) = .error (.error e) := rfl

@[simp] theorem embed_bind (x : Except ε α) (f : α → Except ε β) :
    embed (x >>= f) = embed x >>= fun a => embed (f a) := by
  cases x <;> rfl

@[simp] theorem embed_ensure (c : Prop) [Decidable c] (e : ε) :
    embed (ensure c e) = ensure c (.error e) := by
  unfold ensure
  split_ifs <;> rfl

@[simp] theorem embed_orErr (o : Option α) (e : ε) : embed (orErr o e) = orErr o (.error e) := by
  cases o <;> rfl

theorem embed_ite (c : Prop) [Decidable c] (x y : Except ε α) :
    embed (if c then x else y) = if c then embed x else embed y := by
  split_ifs <;> rfl

/-- The program returns, with a value or an error. -/
def Returns (x : Except (Stop ε) α) : Prop := x ≠ .error .panic ∧ x ≠ .error .outOfRounds

instance [DecidableEq ε] [DecidableEq α] (x : Except (Stop ε) α) : Decidable (Returns x) :=
  inferInstanceAs (Decidable (_ ∧ _))

theorem returns_embed (x : Except ε α) : Returns (embed x) := by
  cases x <;> constructor <;> rintro ⟨⟩

theorem ensure_and (c d : Prop) [Decidable c] [Decidable d] (e : ε) :
    ensure (c ∧ d) e = ensure c e >>= fun _ => ensure d e := by
  by_cases hc : c
  · by_cases hd : d
    · rw [ensure_of hc, ok_bind, ensure_of hd, ensure_of ⟨hc, hd⟩]
    · rw [ensure_of hc, ok_bind, ensure_of_not hd, ensure_of_not fun h => hd h.2]
  · rw [ensure_of_not hc, error_bind, ensure_of_not fun h => hc h.1]

end Embedding

/-! ## Operations -/

section Operations

variable {ε α : Type}

/-- `a + b` on machine words. -/
def plainAdd (a b : ℕ) : Except (Stop ε) ℕ := orErr (checkedAdd a b) .panic

/-- `l[lo..hi]`. -/
def sliceIndex (l : List α) (lo hi : ℕ) : Except (Stop ε) (List α) := orErr (slice? l lo hi) .panic

/-- `l[i]`. -/
def indexAt (l : List α) (i : ℕ) : Except (Stop ε) α := orErr l[i]? .panic

/-- `copy_from_slice` into an array of `n` bytes. -/
def copyFixed (n : ℕ) (bytes : Bytes) : Except (Stop ε) (FixedBytes n) :=
  if h : bytes.length = n then .ok ⟨bytes, h⟩ else .error .panic

theorem plainAdd_of_lt {a b : ℕ} (h : a + b < wordBound) :
    (plainAdd a b : Except (Stop ε) ℕ) = .ok (a + b) := by
  rw [plainAdd, checkedAdd_of_lt h, orErr_some]

theorem sliceIndex_of_le {l : List α} {lo hi n : ℕ} (hn : hi = lo + n) (h : hi ≤ l.length) :
    (sliceIndex l lo hi : Except (Stop ε) (List α)) = .ok (sliceAt l lo n) := by
  have hsome : slice? l lo hi = some (sliceAt l lo n) := by
    rw [slice?_eq_some]
    exact ⟨⟨by omega, h⟩, by rw [hn, Nat.add_sub_cancel_left]⟩
  rw [sliceIndex, hsome, orErr_some]

theorem indexAt_of_lt {l : List α} {i : ℕ} (d : α) (h : i < l.length) :
    (indexAt l i : Except (Stop ε) α) = .ok (l.getD i d) := by
  rw [indexAt, List.getElem?_eq_getElem h, orErr_some, List.getD, List.getElem?_eq_getElem h,
    Option.getD_some]

theorem copyFixed_of_length {n : ℕ} {bytes : Bytes} (h : bytes.length = n) :
    (copyFixed n bytes : Except (Stop ε) (FixedBytes n)) = .ok ⟨bytes, h⟩ := dif_pos h

/-- The bytes at `offset`, `offset + 1`, …, one index after the other. -/
def readIndices (bytes : Bytes) (offset : ℕ) : ℕ → Except (Stop ε) Bytes
  | 0 => pure []
  | n + 1 => do
    let front ← readIndices bytes offset n
    let place ← plainAdd offset n
    let byte ← indexAt bytes place
    pure (front ++ [byte])

theorem readIndices_of_le {bytes : Bytes} {offset n : ℕ} (hlen : bytes.length < wordBound)
    (h : offset + n ≤ bytes.length) :
    (readIndices bytes offset n : Except (Stop ε) Bytes) = .ok (sliceAt bytes offset n) := by
  induction n with
  | zero => simp [readIndices, sliceAt]
  | succ n ih =>
    have hlt : offset + n < bytes.length := by omega
    rw [readIndices, ih (by omega), ok_bind, plainAdd_of_lt (by omega), ok_bind,
      indexAt_of_lt 0 hlt, ok_bind, pure_eq_ok]
    congr 1
    have hget : (bytes.drop offset)[n]? = some (bytes.getD (offset + n) 0) := by
      rw [List.getElem?_drop, List.getD, List.getElem?_eq_getElem hlt, Option.getD_some]
    rw [sliceAt, sliceAt, List.take_add_one, hget, Option.toList_some]

end Operations

end Base
