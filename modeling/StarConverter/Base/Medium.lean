import StarConverter.Base.Patch

/-!
# Storage that loses writes in a crash

A `Medium` is a file of fixed length behind a write cache: reads see `now`, and until the next flush
every earlier version is kept, because a crash leaves each element as it was in some version since the
last flush (`Exposes`). `Wrote ps m m'` describes any unfinished attempt to write the patches `ps`. A
`Tape` is a file that only grows at its end or is cut; a crash leaves a prefix of some version.
-/

namespace Base

variable {α : Type}

/-- Each element is that of `a` or that of `b`. -/
def Between (a b v : List α) : Prop := v.length = a.length ∧ ∀ x : ℕ, v[x]? = a[x]? ∨ v[x]? = b[x]?

theorem Between.left (a b : List α) : Between a b a := ⟨rfl, fun _ => Or.inl rfl⟩

theorem Between.right {a b : List α} (h : b.length = a.length) : Between a b b :=
  ⟨h, fun _ => Or.inr rfl⟩

/-- `p` is a piece of `q`. -/
def Patch.PartOf (p q : Patch α) : Prop :=
  ∀ x ∈ p.span, x ∈ q.span ∧ p.bytes[x - p.offset]? = q.bytes[x - q.offset]?

theorem Patch.PartOf.refl (p : Patch α) : p.PartOf p := fun _ hx => ⟨hx, rfl⟩

theorem Patch.partOf_slice (off : ℕ) (bytes : List α) (relative count : ℕ) :
    (⟨off + relative, sliceAt bytes relative count⟩ : Patch α).PartOf ⟨off, bytes⟩ := by
  intro x hx
  rw [Patch.mem_span] at hx
  simp only [length_sliceAt] at hx
  refine ⟨Patch.mem_span.2 ⟨by simp only; omega, by simp only; omega⟩, ?_⟩
  rw [getElem?_sliceAt, if_pos (by simp only; omega)]
  simp only
  congr 1
  omega

theorem Patch.partOf_take (off : ℕ) (bytes : List α) (k : ℕ) :
    (⟨off, bytes.take k⟩ : Patch α).PartOf ⟨off, bytes⟩ := by
  simpa [sliceAt] using Patch.partOf_slice off bytes 0 k

/-- Each element is the old one or that of a patch. -/
def PartlyApplied (ps : List (Patch α)) (l v : List α) : Prop :=
  v.length = l.length ∧ ∀ x : ℕ, v[x]? = l[x]? ∨ ∃ p ∈ ps, x ∈ p.span ∧ v[x]? = p.bytes[x - p.offset]?

namespace PartlyApplied

variable {ps qs : List (Patch α)} {l v w : List α}

theorem refl (ps : List (Patch α)) (l : List α) : PartlyApplied ps l l :=
  ⟨rfl, fun _ => Or.inl rfl⟩

theorem of_parts (h : PartlyApplied ps l v) (hpart : ∀ p ∈ ps, ∃ q ∈ qs, p.PartOf q) :
    PartlyApplied qs l v := by
  refine ⟨h.1, fun x => (h.2 x).imp_right ?_⟩
  rintro ⟨p, hp, hx, he⟩
  obtain ⟨q, hq, hpq⟩ := hpart p hp
  exact ⟨q, hq, (hpq x hx).1, he.trans (hpq x hx).2⟩

theorem eq_of_not_mem (h : PartlyApplied ps l v) {x : ℕ} (hx : x ∉ touched ps) : v[x]? = l[x]? :=
  (h.2 x).resolve_right fun ⟨p, hp, hxp, _⟩ => hx (mem_touched.2 ⟨p, hp, hxp⟩)

theorem trans (h : PartlyApplied ps l v) (h' : PartlyApplied qs v w) :
    PartlyApplied (ps ++ qs) l w := by
  refine ⟨h'.1.trans h.1, fun x => ?_⟩
  rcases h'.2 x with he | ⟨q, hq, hx, he⟩
  · rcases h.2 x with he' | ⟨p, hp, hx, he'⟩
    · exact Or.inl (he.trans he')
    · exact Or.inr ⟨p, by simp [hp], hx, he.trans he'⟩
  · exact Or.inr ⟨q, by simp [hq], hx, he⟩

theorem applyAll (ps : List (Patch α)) (l : List α) : PartlyApplied ps l (applyAll ps l) := by
  induction ps generalizing l with
  | nil => exact refl [] l
  | cons p ps ih =>
    have hp : PartlyApplied [p] l (p.apply l) := by
      refine ⟨by simp, fun x => ?_⟩
      by_cases hx : x ∈ p.span
      · by_cases hl : x < l.length
        · exact Or.inr ⟨p, by simp, hx, Patch.getElem?_apply_of_mem hx hl⟩
        · left
          rw [List.getElem?_eq_none (by simpa using hl), List.getElem?_eq_none (by simpa using hl)]
      · exact Or.inl (Patch.getElem?_apply_of_not_mem hx)
    exact hp.trans (ih (p.apply l))

end PartlyApplied

/-- A file and its versions since the last flush. -/
structure Medium (α : Type) where
  now : List α
  earlier : List (List α)

namespace Medium

/-- A flushed file. -/
def clean (l : List α) : Medium α := ⟨l, []⟩

/-- The versions a crash may mix. -/
def versions (m : Medium α) : List (List α) := m.now :: m.earlier

def write (m : Medium α) (p : Patch α) : Medium α := ⟨p.apply m.now, m.now :: m.earlier⟩

def flush (m : Medium α) : Medium α := ⟨m.now, []⟩

/-- A crash may leave `l`. -/
def Exposes (m : Medium α) (l : List α) : Prop :=
  l.length = m.now.length ∧ ∀ x : ℕ, ∃ v ∈ m.versions, l[x]? = v[x]?

/-- An attempt to write the patches, finished or not. -/
structure Wrote (ps : List (Patch α)) (m m' : Medium α) : Prop where
  now : PartlyApplied ps m.now m'.now
  earlier : ∀ v ∈ m'.earlier, v ∈ m.earlier ∨ Between m.now m'.now v

namespace Wrote

variable {ps qs : List (Patch α)} {m m' m'' : Medium α}

theorem refl (ps : List (Patch α)) (m : Medium α) : Wrote ps m m :=
  ⟨PartlyApplied.refl ps m.now, fun _ hv => Or.inl hv⟩

theorem of_parts (h : Wrote ps m m') (hpart : ∀ p ∈ ps, ∃ q ∈ qs, p.PartOf q) :
    Wrote qs m m' :=
  ⟨h.now.of_parts hpart, h.earlier⟩

theorem mono (h : Wrote ps m m') (hsub : ∀ p ∈ ps, p ∈ qs) : Wrote qs m m' :=
  h.of_parts fun p hp => ⟨p, hsub p hp, Patch.PartOf.refl p⟩

theorem write (m : Medium α) (p : Patch α) : Wrote [p] m (m.write p) := by
  refine ⟨PartlyApplied.applyAll [p] m.now, fun v hv => ?_⟩
  rcases List.mem_cons.1 hv with rfl | hv
  · exact Or.inr (Between.left _ _)
  · exact Or.inl hv

theorem flush (m : Medium α) : Wrote ps m m.flush :=
  ⟨PartlyApplied.refl ps m.now, by simp [Medium.flush]⟩

/-- Writing in one place after another. -/
theorem trans (h : Wrote ps m m') (h' : Wrote qs m' m'') (hd : ∀ x ∈ touched ps, x ∉ touched qs) :
    Wrote (ps ++ qs) m m'' := by
  -- An element of `m'` is that of `m`, or it is never written again.
  have hkeep : ∀ x : ℕ, m'.now[x]? = m.now[x]? ∨ m''.now[x]? = m'.now[x]? := by
    intro x
    by_cases hx : x ∈ touched ps
    · exact Or.inr (h'.now.eq_of_not_mem (hd x hx))
    · exact Or.inl (h.now.eq_of_not_mem hx)
  have hlift : ∀ (v : List α) (x : ℕ), v[x]? = m'.now[x]? → v[x]? = m.now[x]? ∨ v[x]? = m''.now[x]? := by
    intro v x hv
    rcases hkeep x with hk | hk
    · exact Or.inl (hv.trans hk)
    · exact Or.inr (hv.trans hk.symm)
  refine ⟨h.now.trans h'.now, fun v hv => ?_⟩
  rcases h'.earlier v hv with hv | hv
  · rcases h.earlier v hv with hv | hv
    · exact Or.inl hv
    · exact Or.inr ⟨hv.1, fun x => (hv.2 x).elim Or.inl (hlift v x)⟩
  · exact Or.inr ⟨hv.1.trans h.now.1, fun x => (hv.2 x).elim (hlift v x) Or.inr⟩

end Wrote

/-- A property of single elements that all versions have is a property of what a crash leaves. -/
theorem Exposes.forall {m : Medium α} {l : List α} (h : m.Exposes l) {P : ℕ → Option α → Prop}
    (hP : ∀ v ∈ m.versions, ∀ x, P x v[x]?) (x : ℕ) : P x l[x]? := by
  obtain ⟨v, hv, he⟩ := h.2 x
  rw [he]
  exact hP v hv x

theorem exposes_now (m : Medium α) : m.Exposes m.now := ⟨rfl, fun _ => ⟨m.now, by simp [versions], rfl⟩⟩

theorem exposes_clean {l l' : List α} : (clean l).Exposes l' ↔ l' = l := by
  constructor
  · rintro ⟨-, h⟩
    refine List.ext_getElem? fun x => ?_
    obtain ⟨v, hv, he⟩ := h x
    rw [he, List.mem_singleton.1 hv, clean]
  · rintro rfl
    exact exposes_now _

end Medium

/-- A file that grows at its end, and its versions since the last flush. -/
structure Tape (α : Type) where
  now : List α
  earlier : List (List α)

namespace Tape

/-- A flushed file. -/
def clean (l : List α) : Tape α := ⟨l, []⟩

def versions (t : Tape α) : List (List α) := t.now :: t.earlier

/-- A new version of the contents. -/
def put (t : Tape α) (l : List α) : Tape α := ⟨l, t.now :: t.earlier⟩

def flush (t : Tape α) : Tape α := ⟨t.now, []⟩

/-- A crash may leave `l`: a prefix of a version, at least as long as the shortest one. -/
def Exposes (t : Tape α) (l : List α) : Prop :=
  ∃ v ∈ t.versions, ∃ w ∈ t.versions, ∃ k, w.length ≤ k ∧ l = v.take k

theorem exposes_now (t : Tape α) : t.Exposes t.now :=
  ⟨t.now, by simp [versions], t.now, by simp [versions], t.now.length, le_rfl, by simp⟩

end Tape

end Base
