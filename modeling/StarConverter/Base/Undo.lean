import StarConverter.Base.Medium

/-!
# Undoing writes

A medium is written place by place and may crash at any time, so what can be said of it is said of the
single elements of all its versions (`Medium.Keeps`). Two such properties matter. A medium is the
original off some places as long as it is written in these places only (`AgreesOff`), and then patches
that hold the original there give it back (`AgreesOff.applyAll_eq`). A medium is midway through some
patches when each element is old or new (`Midway`), and then applying them all finishes the job
(`Midway.applyAll_eq`).
-/

namespace Base

variable {α : Type}

namespace Medium

/-- Every version has `n` elements, each with the property of its place. -/
def Keeps (n : ℕ) (P : ℕ → Option α → Prop) (m : Medium α) : Prop :=
  ∀ v ∈ m.versions, v.length = n ∧ ∀ x, P x v[x]?

variable {n : ℕ} {P Q : ℕ → Option α → Prop} {m m' : Medium α} {ps : List (Patch α)} {l : List α}

theorem Keeps.mono (h : m.Keeps n P) (hPQ : ∀ x o, P x o → Q x o) : m.Keeps n Q :=
  fun v hv => ⟨(h v hv).1, fun x => hPQ x _ ((h v hv).2 x)⟩

theorem Keeps.now (h : m.Keeps n P) : m.now.length = n ∧ ∀ x, P x m.now[x]? :=
  h m.now List.mem_cons_self

theorem keeps_clean (hlen : l.length = n) (h : ∀ x, P x l[x]?) : (clean l).Keeps n P := by
  intro v hv
  obtain rfl := List.mem_singleton.1 hv
  exact ⟨hlen, h⟩

/-- Writing elements that have the property. -/
theorem Keeps.wrote (h : m.Keeps n P) (hw : Wrote ps m m')
    (hp : ∀ p ∈ ps, ∀ x ∈ p.span, P x p.bytes[x - p.offset]?) : m'.Keeps n P := by
  have hnow : m'.now.length = n ∧ ∀ x, P x m'.now[x]? := by
    refine ⟨hw.now.1.trans h.now.1, fun x => ?_⟩
    rcases hw.now.2 x with he | ⟨p, hmem, hx, he⟩
    · rw [he]
      exact h.now.2 x
    · rw [he]
      exact hp p hmem x hx
  intro v hv
  rcases List.mem_cons.1 hv with rfl | hv
  · exact hnow
  · rcases hw.earlier v hv with hv | hv
    · exact h v (List.mem_cons_of_mem _ hv)
    · refine ⟨hv.1.trans h.now.1, fun x => ?_⟩
      rcases hv.2 x with he | he
      · rw [he]
        exact h.now.2 x
      · rw [he]
        exact hnow.2 x

/-- What a crash leaves has the property too. -/
theorem Keeps.exposes (h : m.Keeps n P) (he : m.Exposes l) : l.length = n ∧ ∀ x, P x l[x]? :=
  ⟨he.1.trans h.now.1, he.forall fun v hv => (h v hv).2⟩

theorem Keeps.crash (h : m.Keeps n P) (he : m.Exposes l) : (clean l).Keeps n P :=
  keeps_clean (h.exposes he).1 (h.exposes he).2

/-! ## The original off some places -/

/-- Every version is `l` off the places. -/
def AgreesOff (l : List α) (places : Set ℕ) : Medium α → Prop :=
  Keeps l.length fun x o => x ∉ places → o = l[x]?

namespace AgreesOff

variable {places places' : Set ℕ} {v : List α}

theorem clean (l : List α) (places : Set ℕ) : (Medium.clean l).AgreesOff l places :=
  keeps_clean rfl fun _ _ => rfl

theorem mono (h : m.AgreesOff l places) (hsub : places ⊆ places') : m.AgreesOff l places' :=
  Keeps.mono h fun _ _ ho hx => ho fun hx' => hx (hsub hx')

theorem wrote (h : m.AgreesOff l places) (hw : Wrote ps m m') (hsub : touched ps ⊆ places) :
    m'.AgreesOff l places :=
  Keeps.wrote h hw fun p hp _ hx hnot => absurd (hsub (mem_touched.2 ⟨p, hp, hx⟩)) hnot

/-- Before-images give the original back. -/
theorem applyAll_eq (h : m.AgreesOff l places) (he : m.Exposes v) (hps : ∀ p ∈ ps, p.Matches l)
    (hsub : places ⊆ touched ps) : applyAll ps v = l := by
  obtain ⟨hlen, hoff⟩ := Keeps.exposes h he
  exact applyAll_eq_of_matches hlen hps fun x hx => hoff x fun hx' => hx (hsub hx')

end AgreesOff

/-! ## Midway through some patches -/

/-- In every version each element is that of `l` or that of a patch. -/
def Midway (ps : List (Patch α)) (l : List α) : Medium α → Prop :=
  Keeps l.length fun x o => o = l[x]? ∨ ∃ p ∈ ps, x ∈ p.span ∧ o = p.bytes[x - p.offset]?

namespace Midway

variable {v : List α}

theorem clean (h : PartlyApplied ps l v) : (Medium.clean v).Midway ps l :=
  keeps_clean h.1 h.2

theorem exposes (h : m.Midway ps l) (he : m.Exposes v) : PartlyApplied ps l v :=
  Keeps.exposes h he

theorem now (h : m.Midway ps l) : PartlyApplied ps l m.now := Keeps.now h

theorem mono {qs : List (Patch α)} (h : m.Midway ps l) (hsub : ∀ p ∈ ps, p ∈ qs) : m.Midway qs l :=
  Keeps.mono h fun _ _ ho => ho.imp_right fun ⟨p, hp, hx⟩ => ⟨p, hsub p hp, hx⟩

theorem wrote (h : m.Midway ps l) (hw : Wrote ps m m') : m'.Midway ps l :=
  Keeps.wrote h hw fun p hp _ hx => .inr ⟨p, hp, hx, rfl⟩

/-- Applying all patches finishes what was begun. -/
theorem applyAll_eq (h : m.Midway ps l) : applyAll ps m.now = applyAll ps l :=
  applyAll_congr h.now.1 fun _ hx => h.now.eq_of_not_mem hx

theorem agreesOff (h : m.Midway ps l) : m.AgreesOff l (touched ps) :=
  Keeps.mono h fun _ _ ho hx => ho.resolve_right fun ⟨p, hp, hxp, _⟩ =>
    hx (mem_touched.2 ⟨p, hp, hxp⟩)

end Midway

end Medium

end Base
