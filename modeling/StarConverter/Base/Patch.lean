import StarConverter.Base.Bytes
import StarConverter.Base.Spans

/-!
# Patches

A patch replaces the elements of a list from an offset on. Patches are compared with lists element by
element: `getElem?_overwrite` reads one patch, `getElem?_applyAll` the result of several. Restoring
(`applyAll_eq_of_matches`) needs only that the patches hold the wanted elements and cover every place
where the list differs from the wanted one.
-/

namespace Base

variable {α : Type}

/-- Replaces the elements from `off` on by `bytes`, as far as the list reaches. -/
def overwrite (l : List α) (off : ℕ) (bytes : List α) : List α :=
  l.mapIdx fun i b => if off ≤ i then bytes[i - off]?.getD b else b

@[simp] theorem length_overwrite (l : List α) (off : ℕ) (bytes : List α) :
    (overwrite l off bytes).length = l.length := by simp [overwrite]

theorem getElem?_overwrite_of_mem {l : List α} {off : ℕ} {bytes : List α} {i : ℕ}
    (h1 : off ≤ i) (h2 : i < off + bytes.length) (hi : i < l.length) :
    (overwrite l off bytes)[i]? = bytes[i - off]? := by
  have hb : i - off < bytes.length := by omega
  simp [overwrite, List.getElem?_eq_getElem hi, h1, List.getElem?_eq_getElem hb]

theorem getElem?_overwrite_of_not_mem {l : List α} {off : ℕ} {bytes : List α} {i : ℕ}
    (h : ¬ (off ≤ i ∧ i < off + bytes.length)) : (overwrite l off bytes)[i]? = l[i]? := by
  simp only [overwrite, List.getElem?_mapIdx]
  by_cases h1 : off ≤ i
  · have hb : bytes[i - off]? = none := List.getElem?_eq_none (by omega)
    simp [h1, hb]
  · simp [h1]

@[simp] theorem overwrite_nil (l : List α) (off : ℕ) : overwrite l off [] = l := by
  apply List.ext_getElem?
  intro i
  exact getElem?_overwrite_of_not_mem (by simp)

/-- Writing a block in two pieces. -/
theorem overwrite_append (l : List α) (off : ℕ) (a b : List α) :
    overwrite (overwrite l off a) (off + a.length) b = overwrite l off (a ++ b) := by
  apply List.ext_getElem?
  intro i
  by_cases hi : i < l.length
  · by_cases hb : off + a.length ≤ i ∧ i < off + a.length + b.length
    · rw [getElem?_overwrite_of_mem hb.1 hb.2 (by simpa using hi),
        getElem?_overwrite_of_mem (by omega) (by simp; omega) hi,
        List.getElem?_append_right (by omega), show i - off - a.length = i - (off + a.length) by omega]
    · rw [getElem?_overwrite_of_not_mem hb]
      by_cases ha : off ≤ i ∧ i < off + a.length
      · rw [getElem?_overwrite_of_mem ha.1 ha.2 hi,
          getElem?_overwrite_of_mem ha.1 (by simp; omega) hi, List.getElem?_append_left (by omega)]
      · rw [getElem?_overwrite_of_not_mem ha, getElem?_overwrite_of_not_mem (by simp; omega)]
  · rw [List.getElem?_eq_none (by simpa using hi), List.getElem?_eq_none (by simpa using hi)]

theorem sliceAt_overwrite_self {l : List α} {off : ℕ} {bytes : List α}
    (h : off + bytes.length ≤ l.length) :
    sliceAt (overwrite l off bytes) off bytes.length = bytes := by
  apply List.ext_getElem?
  intro i
  rw [getElem?_sliceAt]
  split
  · rw [getElem?_overwrite_of_mem (by omega) (by omega) (by omega), Nat.add_sub_cancel_left]
  · rw [List.getElem?_eq_none (by omega)]

theorem sliceAt_overwrite_of_disjoint {l : List α} {off : ℕ} {bytes : List α} {o n : ℕ}
    (h : ∀ x, o ≤ x → x < o + n → ¬ (off ≤ x ∧ x < off + bytes.length)) :
    sliceAt (overwrite l off bytes) o n = sliceAt l o n :=
  sliceAt_congr fun i h1 h2 => getElem?_overwrite_of_not_mem (h i h1 h2)

/-- A block of elements and its place. -/
structure Patch (α : Type) where
  offset : ℕ
  bytes : List α
  deriving DecidableEq

namespace Patch

/-- The places a patch writes. -/
def span (p : Patch α) : Span := ⟨p.offset, p.bytes.length⟩

/-- Writes the patch. -/
def apply (p : Patch α) (l : List α) : List α := overwrite l p.offset p.bytes

/-- The list holds the elements of the patch. -/
def Matches (p : Patch α) (l : List α) : Prop := sliceAt l p.offset p.bytes.length = p.bytes

instance [DecidableEq α] (p : Patch α) (l : List α) : Decidable (p.Matches l) :=
  inferInstanceAs (Decidable (_ = _))

theorem mem_span {p : Patch α} {x : ℕ} :
    x ∈ p.span ↔ p.offset ≤ x ∧ x < p.offset + p.bytes.length := Iff.rfl

@[simp] theorem length_apply (p : Patch α) (l : List α) : (p.apply l).length = l.length :=
  length_overwrite _ _ _

theorem getElem?_apply_of_mem {p : Patch α} {l : List α} {x : ℕ} (h : x ∈ p.span)
    (hx : x < l.length) : (p.apply l)[x]? = p.bytes[x - p.offset]? :=
  getElem?_overwrite_of_mem h.1 h.2 hx

theorem getElem?_apply_of_not_mem {p : Patch α} {l : List α} {x : ℕ} (h : x ∉ p.span) :
    (p.apply l)[x]? = l[x]? :=
  getElem?_overwrite_of_not_mem h

theorem matches_iff {p : Patch α} {l : List α} :
    p.Matches l ↔ ∀ x ∈ p.span, l[x]? = p.bytes[x - p.offset]? := by
  unfold Matches
  constructor
  · intro h x hx
    rw [mem_span] at hx
    conv_rhs => rw [← h]
    rw [getElem?_sliceAt, if_pos (by omega), Nat.add_sub_cancel' hx.1]
  · intro h
    apply List.ext_getElem?
    intro i
    rw [getElem?_sliceAt]
    split
    · next hi =>
      rw [h (p.offset + i) (mem_span.2 ⟨by omega, by omega⟩), Nat.add_sub_cancel_left]
    · rw [List.getElem?_eq_none (by omega)]

theorem Matches.stop_le {p : Patch α} {l : List α} (h : p.Matches l) (hp : p.bytes ≠ []) :
    p.span.stop ≤ l.length := by
  have hlen := congrArg List.length h
  have := List.length_pos_iff.2 hp
  rw [length_sliceAt] at hlen
  simp only [span, Span.stop]
  omega

end Patch

/-- The places a list of patches writes. -/
def touched (ps : List (Patch α)) : Set ℕ := cells (ps.map Patch.span)

theorem mem_touched {ps : List (Patch α)} {x : ℕ} : x ∈ touched ps ↔ ∃ p ∈ ps, x ∈ p.span := by
  simp [touched]

@[simp] theorem touched_nil : touched ([] : List (Patch α)) = ∅ := by simp [touched]

@[simp] theorem touched_append (ps qs : List (Patch α)) :
    touched (ps ++ qs) = touched ps ∪ touched qs := by simp [touched]

theorem touched_perm {ps qs : List (Patch α)} (h : ps.Perm qs) : touched ps = touched qs :=
  cells_perm (h.map _)

/-- Writes the patches in order. -/
def applyAll (ps : List (Patch α)) (l : List α) : List α := ps.foldl (fun l p => p.apply l) l

@[simp] theorem applyAll_nil (l : List α) : applyAll [] l = l := rfl

@[simp] theorem applyAll_cons (p : Patch α) (ps : List (Patch α)) (l : List α) :
    applyAll (p :: ps) l = applyAll ps (p.apply l) := rfl

theorem applyAll_append (ps qs : List (Patch α)) (l : List α) :
    applyAll (ps ++ qs) l = applyAll qs (applyAll ps l) := by simp [applyAll]

@[simp] theorem length_applyAll (ps : List (Patch α)) (l : List α) :
    (applyAll ps l).length = l.length := by
  induction ps generalizing l with
  | nil => rfl
  | cons p ps ih => rw [applyAll_cons, ih, Patch.length_apply]

theorem getElem?_applyAll_of_not_mem {ps : List (Patch α)} {l : List α} {x : ℕ}
    (h : x ∉ touched ps) : (applyAll ps l)[x]? = l[x]? := by
  induction ps generalizing l with
  | nil => rfl
  | cons p ps ih =>
    have hp : x ∉ p.span := fun hx => h (mem_touched.2 ⟨p, by simp, hx⟩)
    have hps : x ∉ touched ps := fun hx => by
      obtain ⟨q, hq, hxq⟩ := mem_touched.1 hx
      exact h (mem_touched.2 ⟨q, by simp [hq], hxq⟩)
    rw [applyAll_cons, ih hps, Patch.getElem?_apply_of_not_mem hp]

/-- An element after all patches that write to its place agree on it. -/
theorem getElem?_applyAll {ps : List (Patch α)} {l : List α} {x : ℕ} {v : Option α}
    (hx : x < l.length) (hv : ∀ p ∈ ps, x ∈ p.span → p.bytes[x - p.offset]? = v)
    (h : x ∈ touched ps ∨ l[x]? = v) : (applyAll ps l)[x]? = v := by
  induction ps generalizing l with
  | nil => exact h.resolve_left (by simp)
  | cons p ps ih =>
    refine ih (l := p.apply l) (by simpa using hx) (fun q hq => hv q (by simp [hq])) ?_
    by_cases hp : x ∈ p.span
    · exact Or.inr ((Patch.getElem?_apply_of_mem hp hx).trans (hv p (by simp) hp))
    · rw [Patch.getElem?_apply_of_not_mem hp]
      rcases h with h | h
      · obtain ⟨q, hq, hxq⟩ := mem_touched.1 h
        rcases List.mem_cons.1 hq with rfl | hq
        · exact absurd hxq hp
        · exact Or.inl (mem_touched.2 ⟨q, hq, hxq⟩)
      · exact Or.inr h

/-- Patches in disjoint places all end up in the list. -/
theorem getElem?_applyAll_of_mem {ps : List (Patch α)} {l : List α} {x : ℕ} {p : Patch α}
    (hd : (ps.map Patch.span).Pairwise Span.Disjoint) (hp : p ∈ ps) (hxp : x ∈ p.span)
    (hx : x < l.length) : (applyAll ps l)[x]? = p.bytes[x - p.offset]? := by
  induction ps generalizing l with
  | nil => simp at hp
  | cons q qs ih =>
    obtain ⟨hq, hqs⟩ := List.pairwise_cons.1 (List.map_cons ▸ hd)
    rw [applyAll_cons]
    rcases List.mem_cons.1 hp with rfl | hp
    · rw [getElem?_applyAll_of_not_mem, Patch.getElem?_apply_of_mem hxp hx]
      rintro ⟨s, hs, hxs⟩
      exact hq s hs x hxp hxs
    · exact ih hqs hp (by simpa using hx)

/-- Patches that hold the elements of `src` and cover every place where the list differs from `src`
restore `src`. -/
theorem applyAll_eq_of_matches {ps : List (Patch α)} {l src : List α}
    (hlen : l.length = src.length) (hps : ∀ p ∈ ps, p.Matches src)
    (hagree : ∀ x, x ∉ touched ps → l[x]? = src[x]?) : applyAll ps l = src := by
  apply List.ext_getElem?
  intro x
  by_cases hx : x < l.length
  · refine getElem?_applyAll hx (fun p hp hxp => ((Patch.matches_iff.1 (hps p hp)) x hxp).symm) ?_
    by_cases hm : x ∈ touched ps
    · exact Or.inl hm
    · exact Or.inr (hagree x hm)
  · rw [List.getElem?_eq_none (by simpa using hx), List.getElem?_eq_none (by omega)]

/-- Writing the patches again, over any list that differs only where they write, gives the same. -/
theorem applyAll_congr {ps : List (Patch α)} {l l' : List α} (hlen : l.length = l'.length)
    (hagree : ∀ x, x ∉ touched ps → l[x]? = l'[x]?) : applyAll ps l = applyAll ps l' := by
  induction ps generalizing l l' with
  | nil => exact List.ext_getElem? fun x => hagree x (by simp)
  | cons p ps ih =>
    refine ih (by simpa using hlen) fun x hx => ?_
    by_cases hp : x ∈ p.span
    · by_cases hxl : x < l.length
      · rw [Patch.getElem?_apply_of_mem hp hxl, Patch.getElem?_apply_of_mem hp (by omega)]
      · rw [List.getElem?_eq_none (by simpa using hxl), List.getElem?_eq_none (by simp; omega)]
    · rw [Patch.getElem?_apply_of_not_mem hp, Patch.getElem?_apply_of_not_mem hp]
      refine hagree x fun h => ?_
      obtain ⟨q, hq, hxq⟩ := mem_touched.1 h
      rcases List.mem_cons.1 hq with rfl | hq
      · exact hp hxq
      · exact hx (mem_touched.2 ⟨q, hq, hxq⟩)

/-! ## Windows of a patched list -/

namespace Patch

/-- Copies into a window of a list, the one between `start` and `stop`, what a patch writes there. -/
def applyWithin (p : Patch α) (start stop : ℕ) (window : List α) : List α :=
  let lo := max start p.offset
  let hi := min stop (p.offset + p.bytes.length)
  if hi ≤ lo then window
  else overwrite window (lo - start) (sliceAt p.bytes (lo - p.offset) (hi - lo))

@[simp] theorem length_applyWithin (p : Patch α) (start stop : ℕ) (window : List α) :
    (p.applyWithin start stop window).length = window.length := by
  unfold applyWithin
  dsimp only
  split_ifs
  · rfl
  · exact length_overwrite _ _ _

theorem sliceAt_apply (p : Patch α) {l : List α} {start stop : ℕ} (hstop : stop ≤ l.length) :
    sliceAt (p.apply l) start (stop - start) =
      p.applyWithin start stop (sliceAt l start (stop - start)) := by
  unfold applyWithin
  dsimp only
  split_ifs with h
  · refine sliceAt_congr fun x h1 h2 => getElem?_apply_of_not_mem fun hx => ?_
    rw [mem_span] at hx
    omega
  · apply List.ext_getElem?
    intro i
    rw [getElem?_sliceAt]
    by_cases hi : i < stop - start
    · rw [if_pos hi]
      have hlen : i < (sliceAt l start (stop - start)).length := by
        rw [length_sliceAt_of_le (by omega)]
        exact hi
      have hbytes : (sliceAt p.bytes (max start p.offset - p.offset)
          (min stop (p.offset + p.bytes.length) - max start p.offset)).length =
          min stop (p.offset + p.bytes.length) - max start p.offset :=
        length_sliceAt_of_le (by omega)
      by_cases hx : start + i ∈ p.span
      · rw [mem_span] at hx
        rw [getElem?_apply_of_mem hx (by omega),
          getElem?_overwrite_of_mem (by omega) (by rw [hbytes]; omega) hlen, getElem?_sliceAt,
          if_pos (by omega)]
        congr 1
        omega
      · rw [getElem?_apply_of_not_mem hx, getElem?_overwrite_of_not_mem, getElem?_sliceAt, if_pos hi]
        rw [hbytes]
        rw [mem_span] at hx
        omega
    · rw [if_neg hi, List.getElem?_eq_none]
      rw [length_overwrite, length_sliceAt]
      omega

theorem applyWithin_of_stop_le {p : Patch α} {start stop : ℕ} {window : List α}
    (h : stop ≤ p.offset) : p.applyWithin start stop window = window := by
  unfold applyWithin
  dsimp only
  rw [if_pos (by omega)]

end Patch

/-- A window of a patched list is the window of the list with the patches copied into it. -/
theorem sliceAt_applyAll {ps : List (Patch α)} {l : List α} {start stop : ℕ}
    (hstop : stop ≤ l.length) :
    sliceAt (applyAll ps l) start (stop - start) =
      ps.foldl (fun window p => p.applyWithin start stop window)
        (sliceAt l start (stop - start)) := by
  induction ps generalizing l with
  | nil => rfl
  | cons p ps ih =>
    rw [applyAll_cons, List.foldl_cons, ← p.sliceAt_apply hstop]
    exact ih (l := p.apply l) (by simpa using hstop)

/-- Patches in disjoint places may be written in any order. -/
theorem applyAll_perm {ps qs : List (Patch α)} {l : List α} (hperm : ps.Perm qs)
    (hd : (ps.map Patch.span).Pairwise Span.Disjoint) : applyAll ps l = applyAll qs l := by
  have hd' : (qs.map Patch.span).Pairwise Span.Disjoint :=
    (hperm.map _).pairwise hd fun h => h.symm
  apply List.ext_getElem?
  intro x
  by_cases hx : x < l.length
  · by_cases hm : x ∈ touched ps
    · obtain ⟨p, hp, hxp⟩ := mem_touched.1 hm
      rw [getElem?_applyAll_of_mem hd hp hxp hx,
        getElem?_applyAll_of_mem hd' (hperm.mem_iff.1 hp) hxp hx]
    · rw [getElem?_applyAll_of_not_mem hm,
        getElem?_applyAll_of_not_mem (touched_perm hperm ▸ hm)]
  · rw [List.getElem?_eq_none (by simpa using hx), List.getElem?_eq_none (by simpa using hx)]

end Base
