import StarConverter.Base.Panics
import StarConverter.Base.Words

/-!
# Programs that decide

A program of a parser decides a description when it returns, never stops abnormally, and the values it
returns are exactly the ones the description allows. Deciding composes (`Decides.bind`): a program that
reads in a part of its input only what an earlier part has shown to be there decides what its parts
decide together.
-/

namespace Base

section Decides

variable {ε α β : Type} {x : Except (Stop ε) α} {P : α → Prop}

/-- The program returns, and returns exactly the values with the property. -/
structure Decides (x : Except (Stop ε) α) (P : α → Prop) : Prop where
  returns : Returns x
  ok_iff : ∀ a, x = .ok a ↔ P a

theorem returns_ok (a : α) : Returns (.ok a : Except (Stop ε) α) := ⟨nofun, nofun⟩

theorem returns_error (e : ε) : Returns (.error (.error e) : Except (Stop ε) α) :=
  ⟨by rintro ⟨⟩, by rintro ⟨⟩⟩

theorem Returns.bind {f : α → Except (Stop ε) β} (hx : Returns x)
    (hf : ∀ a, x = .ok a → Returns (f a)) : Returns (x >>= f) := by
  cases x with
  | error e =>
    rw [error_bind]
    exact ⟨fun h => hx.1 (by cases h; rfl), fun h => hx.2 (by cases h; rfl)⟩
  | ok a => exact hf a rfl

theorem Decides.congr {Q : α → Prop} (h : Decides x P) (hPQ : ∀ a, P a ↔ Q a) : Decides x Q :=
  ⟨h.returns, fun a => (h.ok_iff a).trans (hPQ a)⟩

theorem decides_ok (a : α) : Decides (.ok a : Except (Stop ε) α) (a = ·) :=
  ⟨returns_ok a, fun _ => Except.ok.injEq a _ ▸ Iff.rfl⟩

theorem decides_pure (a : α) : Decides (pure a : Except (Stop ε) α) (a = ·) := decides_ok a

theorem decides_of_eq {a : α} (h : x = .ok a) : Decides x (a = ·) := h ▸ decides_ok a

theorem decides_error (e : ε) : Decides (.error (.error e) : Except (Stop ε) α) fun _ => False :=
  ⟨returns_error e, fun _ => ⟨nofun, False.elim⟩⟩

theorem decides_ensure (c : Prop) [Decidable c] (e : ε) :
    Decides (ensure c (Stop.error e)) fun _ => c := by
  unfold ensure
  split_ifs with h
  · exact (decides_ok ()).congr fun _ => ⟨fun _ => h, fun _ => rfl⟩
  · exact (decides_error e).congr fun _ => ⟨False.elim, h⟩

theorem decides_orErr (o : Option α) (e : ε) :
    Decides (orErr o (Stop.error e)) fun a => o = some a := by
  cases o with
  | none => exact (decides_error e).congr fun _ => ⟨False.elim, nofun⟩
  | some a => exact (decides_ok a).congr fun _ => by rw [Option.some.injEq]

/-- **Composition.** What the first program returns makes the second decide. -/
theorem Decides.bind {f : α → Except (Stop ε) β} {Q : α → β → Prop} (hx : Decides x P)
    (hf : ∀ a, P a → Decides (f a) (Q a)) : Decides (x >>= f) fun b => ∃ a, P a ∧ Q a b := by
  refine ⟨hx.returns.bind fun a ha => (hf a ((hx.ok_iff a).1 ha)).returns, fun b => ?_⟩
  rw [bind_ok_iff]
  refine exists_congr fun a => ?_
  rw [hx.ok_iff]
  exact and_congr_right fun ha => (hf a ha).ok_iff b

/-- A value that is already known. -/
theorem Decides.of_bind_eq {a : α} {f : α → Except (Stop ε) β} {Q : β → Prop} (h : x = .ok a)
    (hf : Decides (f a) Q) : Decides (x >>= f) Q := by
  rw [h, ok_bind]
  exact hf

/-- A check in front of a program. -/
theorem Decides.ensure_bind {c : Prop} [Decidable c] {e : ε} {f : Unit → Except (Stop ε) β}
    {Q : β → Prop} (hf : c → Decides (f ()) Q) :
    Decides (ensure c (Stop.error e) >>= f) fun b => c ∧ Q b :=
  ((decides_ensure c e).bind fun _ h => hf h).congr fun _ =>
    ⟨fun ⟨_, h⟩ => h, fun h => ⟨(), h⟩⟩

/-- A partial value in front of a program. -/
theorem Decides.orErr_bind {o : Option α} {e : ε} {f : α → Except (Stop ε) β} {Q : α → β → Prop}
    (hf : ∀ a, o = some a → Decides (f a) (Q a)) :
    Decides (orErr o (Stop.error e) >>= f) fun b => ∃ a, o = some a ∧ Q a b :=
  (decides_orErr o e).bind hf

theorem Decides.ite {c : Prop} [Decidable c] {y : Except (Stop ε) α} {Q : α → Prop}
    (hx : c → Decides x P) (hy : ¬ c → Decides y Q) :
    Decides (if c then x else y) fun a => c ∧ P a ∨ ¬ c ∧ Q a := by
  split_ifs with h
  · exact (hx h).congr fun a => by tauto
  · exact (hy h).congr fun a => by tauto

end Decides

/-! ## Reading bytes -/

section Reading

variable {ε : Type}

/-- `a - b` on machine words. -/
def plainSub (a b : ℕ) : Except (Stop ε) ℕ := orErr (checkedSub a b) .panic

theorem plainSub_of_le {a b : ℕ} (h : b ≤ a) :
    (plainSub a b : Except (Stop ε) ℕ) = .ok (a - b) := by
  rw [plainSub, checkedSub_of_le h, orErr_some]

/-- The little-endian word of `n` bytes at `offset`, one index after the other. -/
def readWord (n : ℕ) (bytes : Bytes) (offset : ℕ) : Except (Stop ε) ℕ := do
  let word ← readIndices bytes offset n
  pure (fromLe word)

theorem readIndices_of_add_le {bytes : Bytes} {offset n : ℕ} (hadd : offset + n ≤ wordBound)
    (h : offset + n ≤ bytes.length) :
    (readIndices bytes offset n : Except (Stop ε) Bytes) = .ok (sliceAt bytes offset n) := by
  induction n with
  | zero => simp [readIndices, sliceAt]
  | succ n ih =>
    have hlt : offset + n < bytes.length := by omega
    rw [readIndices, ih (by omega) (by omega), ok_bind, plainAdd_of_lt (by omega), ok_bind,
      indexAt_of_lt 0 hlt, ok_bind, pure_eq_ok]
    congr 1
    have hget : (bytes.drop offset)[n]? = some (bytes.getD (offset + n) 0) := by
      rw [List.getElem?_drop, List.getD, List.getElem?_eq_getElem hlt, Option.getD_some]
    rw [sliceAt, sliceAt, List.take_add_one, hget, Option.toList_some]

theorem readWord_of_le {n offset : ℕ} {bytes : Bytes} (hadd : offset + n ≤ wordBound)
    (h : offset + n ≤ bytes.length) :
    (readWord n bytes offset : Except (Stop ε) ℕ) = .ok (leAt n bytes offset) := by
  rw [readWord, readIndices_of_add_le hadd h, ok_bind, pure_eq_ok, leAt]

/-- A number is read where its bytes stand. -/
theorem sliceAt_eq_toLe_iff {n offset v : ℕ} {bytes : Bytes} (hv : v < 256 ^ n)
    (h : offset + n ≤ bytes.length) :
    sliceAt bytes offset n = toLe n v ↔ leAt n bytes offset = v := by
  constructor
  · intro heq
    rw [leAt, heq, fromLe_toLe n v hv]
  · rintro rfl
    have hself := toLe_fromLe (sliceAt bytes offset n)
    rw [length_sliceAt_of_le h] at hself
    exact hself.symm

theorem leAt_sliceAt {n length offset start : ℕ} {bytes : Bytes} (h : offset + n ≤ length) :
    leAt n (sliceAt bytes start length) offset = leAt n bytes (start + offset) := by
  rw [leAt, sliceAt_sliceAt h, leAt]

end Reading

end Base
