import StarConverter.Base.Checked

/-!
# Computations that fail or are cut off

A `Prog` runs on a state and ends with a value, with an error, or in a crash; the state it leaves is
observable in all three cases. `Spec m s Q E` says that `m` started in `s` ends normally with `Q`, or
abnormally in a state with `E`; with `E` empty it is total correctness.
-/

namespace Base

inductive Outcome (ε α : Type) where
  | ok (a : α)
  | error (e : ε)
  | crashed
  deriving DecidableEq

/-- A computation on states `σ` with errors `ε`. -/
def Prog (σ ε α : Type) : Type := σ → Outcome ε α × σ

namespace Prog

variable {σ ε ε' α β : Type}

instance : Monad (Prog σ ε) where
  pure a := fun s => (.ok a, s)
  bind m f := fun s =>
    match m s with
    | (.ok a, s') => f a s'
    | (.error e, s') => (.error e, s')
    | (.crashed, s') => (.crashed, s')

/-- Fails with `e`. -/
def throw (e : ε) : Prog σ ε α := fun s => (.error e, s)

/-- A fallible computation that does not look at the state. -/
def lift (x : Except ε α) : Prog σ ε α := fun s =>
  match x with
  | .ok a => (.ok a, s)
  | .error e => (.error e, s)

/-- The state. -/
def get : Prog σ ε σ := fun s => (.ok s, s)

/-- Changes the state. -/
def modify (f : σ → σ) : Prog σ ε Unit := fun s => (.ok (), f s)

/-- Runs `h` after an error of `m`; a crash is final. -/
def onError (m : Prog σ ε α) (h : ε → Prog σ ε' α) : Prog σ ε' α := fun s =>
  match m s with
  | (.ok a, s') => (.ok a, s')
  | (.error e, s') => h e s'
  | (.crashed, s') => (.crashed, s')

/-- Changes the error. -/
def mapError (f : ε → ε') (m : Prog σ ε α) : Prog σ ε' α := onError m fun e => throw (f e)

/-- Runs a program on a part of the state. -/
def zoom {τ : Type} (part : σ → τ) (put : τ → σ → σ) (m : Prog τ ε α) : Prog σ ε α := fun s =>
  match m (part s) with
  | (o, t) => (o, put t s)

/-- `body relative count` for consecutive pieces of at most `chunk` out of `length`, from `relative`
on; every piece is nonempty, so `length` rounds suffice. -/
def chunkLoop (chunk length : ℕ) (body : ℕ → ℕ → Prog σ ε Unit) : ℕ → ℕ → Prog σ ε Unit
  | 0, _ => pure ()
  | rounds + 1, relative =>
    if relative < length then do
      let count := min (length - relative) chunk
      body relative count
      chunkLoop chunk length body rounds (relative + count)
    else pure ()

/-- `while relative < length`. -/
def forChunks (chunk length : ℕ) (body : ℕ → ℕ → Prog σ ε Unit) : Prog σ ε Unit :=
  chunkLoop chunk length body length 0

/-- Runs a program for every element in order. -/
def forEach (body : α → Prog σ ε Unit) : List α → Prog σ ε Unit
  | [] => pure ()
  | a :: rest => do
    body a
    forEach body rest

theorem bind_apply (m : Prog σ ε α) (f : α → Prog σ ε β) (s : σ) :
    (m >>= f) s = match m s with
      | (.ok a, s') => f a s'
      | (.error e, s') => (.error e, s')
      | (.crashed, s') => (.crashed, s') := rfl

theorem pure_apply (a : α) (s : σ) : (pure a : Prog σ ε α) s = (.ok a, s) := rfl

/-! ## Specifications -/

/-- `m` from `s` ends with a value and `Q`, or abnormally with `E`. -/
def Spec (m : Prog σ ε α) (s : σ) (Q : α → σ → Prop) (E : σ → Prop) : Prop :=
  match m s with
  | (.ok a, s') => Q a s'
  | (_, s') => E s'

/-- `m` from `s` ends with a value and `Q`. -/
def Total (m : Prog σ ε α) (s : σ) (Q : α → σ → Prop) : Prop := Spec m s Q fun _ => False

variable {m : Prog σ ε α} {f : α → Prog σ ε β} {s : σ} {Q Q' : α → σ → Prop} {E E' : σ → Prop}

theorem Spec.mono (h : Spec m s Q' E') (hQ : ∀ a s', Q' a s' → Q a s') (hE : ∀ s', E' s' → E s') :
    Spec m s Q E := by
  unfold Spec at *
  split at h
  · exact hQ _ _ h
  · exact hE _ h

theorem Spec.bind {R : α → σ → Prop} {Q : β → σ → Prop} (h : Spec m s R E)
    (hf : ∀ a s', R a s' → Spec (f a) s' Q E) : Spec (m >>= f) s Q E := by
  unfold Spec at *
  rw [bind_apply]
  rcases hm : m s with ⟨o, s'⟩
  rw [hm] at h
  cases o with
  | ok a => exact hf a s' h
  | error e => exact h
  | crashed => exact h

theorem Spec.pure {a : α} (h : Q a s) : Spec (pure a : Prog σ ε α) s Q E := h

theorem Spec.throw {e : ε} (h : E s) : Spec (throw e : Prog σ ε α) s Q E := h

theorem Spec.lift {x : Except ε α} (hok : ∀ a, x = .ok a → Q a s) (herr : ∀ e, x = .error e → E s) :
    Spec (lift x : Prog σ ε α) s Q E := by
  cases x with
  | ok a => exact hok a rfl
  | error e => exact herr e rfl

theorem Total.lift {x : Except ε α} {a : α} (h : x = .ok a) (hQ : Q a s) :
    Total (lift x : Prog σ ε α) s Q := by
  subst h
  exact hQ

theorem Spec.get {Q : σ → σ → Prop} (h : Q s s) : Spec (get : Prog σ ε σ) s Q E := h

theorem Spec.modify {g : σ → σ} {Q : Unit → σ → Prop} (h : Q () (g s)) :
    Spec (modify g : Prog σ ε Unit) s Q E := h

theorem Spec.get_bind {f : σ → Prog σ ε β} {Q : β → σ → Prop} (h : Spec (f s) s Q E) :
    Spec (Prog.get >>= f) s Q E := h

theorem Spec.modify_bind {g : σ → σ} {f : Unit → Prog σ ε β} {Q : β → σ → Prop}
    (h : Spec (f ()) (g s) Q E) : Spec (Prog.modify g >>= f) s Q E := h

theorem Spec.lift_bind {x : Except ε α} {Q : β → σ → Prop}
    (hok : ∀ a, x = .ok a → Spec (f a) s Q E) (herr : ∀ e, x = .error e → E s) :
    Spec (Prog.lift x >>= f) s Q E := by
  cases x with
  | ok a => exact hok a rfl
  | error e => exact herr e rfl

/-- A pure check that passes. -/
theorem Spec.ensure_bind {c : Prop} {_ : Decidable c} {e : ε} {f : Unit → Prog σ ε β}
    {Q : β → σ → Prop} (hc : c) (h : Spec (f ()) s Q E) :
    Spec (Prog.lift (ensure c e) >>= f) s Q E := by
  rw [ensure_of hc]
  exact h

theorem Spec.onError {h : ε → Prog σ ε' α} {R : σ → Prop} (hm : Spec m s Q R)
    (herr : ∀ e s', R s' → Spec (h e) s' Q E) (hcrash : ∀ s', R s' → E s') :
    Spec (onError m h) s Q E := by
  unfold Spec Prog.onError at *
  rcases hms : m s with ⟨o, s'⟩
  rw [hms] at hm
  cases o with
  | ok a => exact hm
  | error e => exact herr e s' hm
  | crashed => exact hcrash s' hm

theorem Spec.mapError {g : ε → ε'} (hm : Spec m s Q E) : Spec (mapError g m) s Q E :=
  hm.onError (fun _ _ h => Spec.throw h) fun _ h => h

theorem Spec.zoom {τ : Type} {part : σ → τ} {put : τ → σ → σ} {m : Prog τ ε α}
    (h : Spec m (part s) (fun a t => Q a (put t s)) fun t => E (put t s)) :
    Spec (zoom part put m) s Q E := by
  unfold Spec Prog.zoom at *
  rcases hm : m (part s) with ⟨o, t⟩
  rw [hm] at h
  cases o <;> exact h

/-- Running on after a normal end. -/
theorem bind_of_ok {a : α} {s' : σ} (h : m s = (.ok a, s')) : (m >>= f) s = f a s' := by
  rw [bind_apply, h]

theorem bind_of_error {e : ε} {s' : σ} (h : m s = (.error e, s')) :
    (m >>= f) s = (.error e, s') := by
  rw [bind_apply, h]

theorem bind_eq_ok {b : β} {s'' : σ} :
    (m >>= f) s = (.ok b, s'') ↔ ∃ a s', m s = (.ok a, s') ∧ f a s' = (.ok b, s'') := by
  constructor
  · intro h
    rcases hm : m s with ⟨o, s'⟩
    cases o with
    | ok a => exact ⟨a, s', rfl, (bind_of_ok hm).symm.trans h⟩
    | error e =>
      rw [bind_of_error hm] at h
      cases h
    | crashed =>
      rw [bind_apply, hm] at h
      cases h
  · rintro ⟨a, s', hm, hf⟩
    rw [bind_of_ok hm, hf]

/-- A normal end of a specified program. -/
theorem Spec.ok (h : Spec m s Q E) {a : α} {s' : σ} (hm : m s = (.ok a, s')) : Q a s' := by
  unfold Spec at h
  rw [hm] at h
  exact h

/-- An abnormal end of a specified program. -/
theorem Spec.error (h : Spec m s Q E) {e : ε} {s' : σ} (hm : m s = (.error e, s')) : E s' := by
  unfold Spec at h
  rw [hm] at h
  exact h

theorem Spec.any (h : Spec m s (fun _ => E) E) : E (m s).2 := by
  unfold Spec at h
  rcases hm : m s with ⟨o, s'⟩
  rw [hm] at h
  cases o <;> exact h

theorem Total.exists (h : Total m s Q) : ∃ a s', m s = (.ok a, s') ∧ Q a s' := by
  unfold Total Spec at h
  rcases hm : m s with ⟨o, s'⟩
  rw [hm] at h
  cases o with
  | ok a => exact ⟨a, s', rfl, h⟩
  | error e => exact h.elim
  | crashed => exact h.elim

theorem Spec.forEach {γ : Type} {body : γ → Prog σ ε Unit} {E : σ → Prop}
    {inv : List γ → σ → Prop} {l : List γ} (done : List γ)
    (hbody : ∀ d a, d ++ [a] <+: done ++ l → ∀ s, inv d s →
      Spec (body a) s (fun _ => inv (d ++ [a])) E) (h : inv done s) :
    Spec (forEach body l) s (fun _ => inv (done ++ l)) E := by
  induction l generalizing s done with
  | nil =>
    show inv (done ++ []) s
    rwa [List.append_nil]
  | cons a rest ih =>
    have hpre : done ++ [a] <+: done ++ a :: rest := ⟨rest, by simp⟩
    refine (hbody done a hpre s h).bind fun _ s' hs' => ?_
    have := ih (done ++ [a]) (s := s') (fun d b hd => hbody d b (by simpa using hd)) hs'
    simpa using this

theorem Spec.forChunks {chunk length : ℕ} {body : ℕ → ℕ → Prog σ ε Unit} {E : σ → Prop}
    (inv : ℕ → σ → Prop) (hchunk : 0 < chunk)
    (hbody : ∀ relative count s, 0 < count → relative + count ≤ length → inv relative s →
      Spec (body relative count) s (fun _ => inv (relative + count)) E) (h : inv 0 s) :
    Spec (forChunks chunk length body) s (fun _ => inv length) E := by
  have hloop : ∀ rounds relative s, relative ≤ length → length - relative ≤ rounds → inv relative s →
      Spec (chunkLoop chunk length body rounds relative) s (fun _ => inv length) E := by
    intro rounds
    induction rounds with
    | zero =>
      intro relative s hle hr hi
      obtain rfl : relative = length := by omega
      exact Spec.pure hi
    | succ rounds ih =>
      intro relative s hle hr hi
      rw [chunkLoop]
      split_ifs with hlt
      · refine (hbody relative _ s (by omega) (by omega) hi).bind fun _ s' hs' => ?_
        exact ih _ s' (by omega) (by omega) hs'
      · obtain rfl : relative = length := by omega
        exact Spec.pure hi
  exact hloop length 0 s (by omega) (by omega) h

/-! ## Errors that do not occur -/

/-- `m` never ends with the error `e`. -/
def Avoids (m : Prog σ ε α) (e : ε) : Prop := ∀ s, (m s).1 ≠ .error e

namespace Avoids

variable {e : ε}

theorem pure (a : α) : Avoids (Pure.pure a : Prog σ ε α) e := fun _ h => by cases h

theorem get : Avoids (Prog.get : Prog σ ε σ) e := fun _ h => by cases h

theorem modify (g : σ → σ) : Avoids (Prog.modify g : Prog σ ε Unit) e := fun _ h => by cases h

theorem lift {x : Except ε α} (h : x ≠ .error e) : Avoids (Prog.lift x : Prog σ ε α) e := by
  intro s hs
  cases x with
  | ok a => cases hs
  | error e' =>
    obtain rfl := Outcome.error.inj hs
    exact h rfl

theorem bind (hm : Avoids m e) (hf : ∀ a, Avoids (f a) e) : Avoids (m >>= f) e := by
  intro s hs
  rw [bind_apply] at hs
  rcases h : m s with ⟨o, s'⟩
  rw [h] at hs
  cases o with
  | ok a => exact hf a s' hs
  | error e' =>
    obtain rfl := Outcome.error.inj hs
    exact hm s (by rw [h])
  | crashed => cases hs

theorem forChunks {chunk length : ℕ} {body : ℕ → ℕ → Prog σ ε Unit}
    (h : ∀ relative count, Avoids (body relative count) e) :
    Avoids (Prog.forChunks chunk length body) e := by
  suffices key : ∀ rounds relative, Avoids (chunkLoop chunk length body rounds relative) e from
    key length 0
  intro rounds
  induction rounds with
  | zero => exact fun _ => pure ()
  | succ rounds ih =>
    intro relative
    unfold chunkLoop
    split_ifs
    · exact (h _ _).bind fun _ => ih _
    · exact pure ()

end Avoids

end Prog

end Base
