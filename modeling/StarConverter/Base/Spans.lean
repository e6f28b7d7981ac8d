import Mathlib.Data.List.Sort
import Mathlib.Data.Set.Basic
import Mathlib.Tactic

/-!
# Spans of cells

A span is a half-open interval of natural numbers. Lists of spans are read as the set of their cells;
a free list is an ordered list of nonempty spans, and `Carved` says that spans were taken out of one
free list, leaving another.
-/

namespace Base

structure Span where
  offset : ℕ
  length : ℕ
  deriving DecidableEq

namespace Span

/-- The first cell behind the span. -/
def stop (s : Span) : ℕ := s.offset + s.length

instance : Membership ℕ Span := ⟨fun s x => s.offset ≤ x ∧ x < s.stop⟩

theorem mem_iff {s : Span} {x : ℕ} : x ∈ s ↔ s.offset ≤ x ∧ x < s.stop := Iff.rfl

instance (s : Span) (x : ℕ) : Decidable (x ∈ s) := inferInstanceAs (Decidable (_ ∧ _))

/-- The spans have no cell in common. -/
def Disjoint (s t : Span) : Prop := ∀ x, x ∈ s → x ∉ t

/-- Every cell of `s` is a cell of `t`. -/
def Inside (s t : Span) : Prop := t.offset ≤ s.offset ∧ s.stop ≤ t.stop

/-- `s` ends before `t` starts. -/
def Before (s t : Span) : Prop := s.stop ≤ t.offset

/-- The test for a common cell that does not look at the cells. -/
def Overlaps (s t : Span) : Prop := s.offset < t.stop ∧ t.offset < s.stop

instance (s t : Span) : Decidable (s.Overlaps t) := inferInstanceAs (Decidable (_ ∧ _))

theorem Before.trans {s t u : Span} (h : s.Before t) (h' : t.Before u) : s.Before u := by
  unfold Before stop at *
  omega

instance : IsTrans Span Before := ⟨fun _ _ _ => Before.trans⟩

theorem Disjoint.symm {s t : Span} (h : s.Disjoint t) : t.Disjoint s := fun x hx hx' => h x hx' hx

theorem Before.disjoint {s t : Span} (h : s.Before t) : s.Disjoint t := by
  intro x hx hx'
  rw [mem_iff] at hx hx'
  unfold Before at h
  omega

theorem Inside.mem {s t : Span} (h : s.Inside t) {x : ℕ} (hx : x ∈ s) : x ∈ t :=
  ⟨h.1.trans hx.1, hx.2.trans_le h.2⟩

theorem Disjoint.mono {s t s' t' : Span} (h : s.Disjoint t) (hs : s'.Inside s) (ht : t'.Inside t) :
    s'.Disjoint t' := fun x hx hx' => h x (hs.mem hx) (ht.mem hx')

theorem disjoint_of_not_overlaps {s t : Span} (h : ¬ s.Overlaps t) : s.Disjoint t := by
  intro x hx hx'
  rw [mem_iff] at hx hx'
  exact h ⟨by omega, by omega⟩

theorem not_overlaps_of_disjoint {s t : Span} (hs : 0 < s.length) (ht : 0 < t.length)
    (h : s.Disjoint t) : ¬ s.Overlaps t := by
  rintro ⟨h1, h2⟩
  unfold stop at h1 h2
  refine h (max s.offset t.offset) ⟨by omega, ?_⟩ ⟨by omega, ?_⟩
  · unfold stop; omega
  · unfold stop; omega

theorem before_or_before {s t : Span} (hs : 0 < s.length) (ht : 0 < t.length) (h : s.Disjoint t) :
    s.Before t ∨ t.Before s := by
  have hn := not_overlaps_of_disjoint hs ht h
  unfold Overlaps at hn
  unfold Before
  omega

end Span

/-! ## The cells of a list of spans -/

/-- The cells of the spans. -/
def cells (l : List Span) : Set ℕ := {x | ∃ s ∈ l, x ∈ s}

@[simp] theorem mem_cells {l : List Span} {x : ℕ} : x ∈ cells l ↔ ∃ s ∈ l, x ∈ s := Iff.rfl

@[simp] theorem cells_nil : cells [] = ∅ := by ext; simp

@[simp] theorem cells_cons (s : Span) (l : List Span) : cells (s :: l) = {x | x ∈ s} ∪ cells l := by
  ext; simp

@[simp] theorem cells_append (l l' : List Span) : cells (l ++ l') = cells l ∪ cells l' := by
  ext; simp [or_and_right, exists_or]

theorem cells_perm {l l' : List Span} (h : l.Perm l') : cells l = cells l' := by
  ext x; simp [h.mem_iff]

/-- The spans lie one behind the other. -/
def Ordered (l : List Span) : Prop := l.Pairwise Span.Before

theorem Ordered.disjoint {l : List Span} (h : Ordered l) : l.Pairwise Span.Disjoint :=
  h.imp fun h => h.disjoint

/-- Ordered nonempty spans. -/
structure FreeList (l : List Span) : Prop where
  ordered : Ordered l
  nonempty : ∀ s ∈ l, 0 < s.length

theorem FreeList.nil : FreeList [] := ⟨List.Pairwise.nil, by simp⟩

theorem FreeList.tail {s : Span} {l : List Span} (h : FreeList (s :: l)) : FreeList l :=
  ⟨(List.pairwise_cons.1 h.ordered).2, fun t ht => h.nonempty t (by simp [ht])⟩

theorem FreeList.cons {s : Span} {l : List Span} (hs : 0 < s.length) (hb : ∀ t ∈ l, s.Before t)
    (h : FreeList l) : FreeList (s :: l) :=
  ⟨List.pairwise_cons.2 ⟨hb, h.ordered⟩, by simpa [hs] using h.nonempty⟩

theorem FreeList.before {s : Span} {l : List Span} (h : FreeList (s :: l)) :
    ∀ t ∈ l, s.Before t := (List.pairwise_cons.1 h.ordered).1

/-- The span from `lo` to `hi`, if it is not empty. -/
def gap (lo hi : ℕ) : List Span := if lo < hi then [⟨lo, hi - lo⟩] else []

@[simp] theorem mem_cells_gap {lo hi x : ℕ} : x ∈ cells (gap lo hi) ↔ lo ≤ x ∧ x < hi := by
  unfold gap
  split_ifs with h
  · simp only [mem_cells, List.mem_singleton, exists_eq_left, Span.mem_iff, Span.stop]
    omega
  · simp only [mem_cells, List.not_mem_nil, false_and, exists_false, false_iff]
    omega

theorem mem_gap {lo hi : ℕ} {s : Span} : s ∈ gap lo hi ↔ lo < hi ∧ s = ⟨lo, hi - lo⟩ := by
  unfold gap
  split_ifs with h <;> simp [h]

theorem FreeList.gap_append (lo hi : ℕ) {l : List Span} (h : FreeList l)
    (hb : ∀ t ∈ l, hi ≤ t.offset) : FreeList (gap lo hi ++ l) := by
  unfold gap
  split_ifs with hlt
  · refine FreeList.cons (by simp only; omega) (fun t ht => ?_) h
    have := hb t ht
    unfold Span.Before Span.stop
    simp only
    omega
  · exact h

/-! ## Taking spans out of a free list -/

/-- The spans `taken`, all satisfying `ok`, were taken out of `free`, and `left` remains. -/
structure Carved (ok : Span → Prop) (free taken left : List Span) : Prop where
  disjoint : taken.Pairwise Span.Disjoint
  ok : ∀ t ∈ taken, ok t
  subset : cells taken ⊆ cells free
  cells_left : cells left = cells free \ cells taken
  left_free : FreeList left

namespace Carved

variable {ok : Span → Prop} {free left left' taken taken' : List Span}

theorem refl (h : FreeList free) : Carved ok free [] free :=
  ⟨List.Pairwise.nil, by simp, by simp, by simp, h⟩

theorem trans (h : Carved ok free taken left) (h' : Carved ok left taken' left') :
    Carved ok free (taken ++ taken') left' := by
  refine ⟨List.pairwise_append.2 ⟨h.disjoint, h'.disjoint, ?_⟩, ?_, ?_, ?_, h'.left_free⟩
  · intro s hs t ht x hx hx'
    have hleft := h'.subset (mem_cells.2 ⟨t, ht, hx'⟩)
    rw [h.cells_left] at hleft
    exact hleft.2 ⟨s, hs, hx⟩
  · intro t ht
    rcases List.mem_append.1 ht with ht | ht
    · exact h.ok t ht
    · exact h'.ok t ht
  · rw [cells_append]
    refine Set.union_subset h.subset fun x hx => ?_
    have := h'.subset hx
    rw [h.cells_left] at this
    exact this.1
  · rw [h'.cells_left, h.cells_left, cells_append, Set.sdiff_sdiff]

theorem mono {ok' : Span → Prop} (h : Carved ok free taken left) (himp : ∀ t ∈ taken, ok' t) :
    Carved ok' free taken left :=
  ⟨h.disjoint, himp, h.subset, h.cells_left, h.left_free⟩

theorem perm (h : Carved ok free taken left) (hp : taken.Perm taken') :
    Carved ok free taken' left :=
  ⟨hp.pairwise h.disjoint fun h => h.symm, fun t ht => h.ok t (hp.mem_iff.2 ht),
    cells_perm hp ▸ h.subset, cells_perm hp ▸ h.cells_left, h.left_free⟩

end Carved

/-- Carving the middle out of the first span of a free list. -/
theorem Carved.head {ok : Span → Prop} {s t : Span} {rest : List Span}
    (h : FreeList (s :: rest)) (ht : t.Inside s) (hok : ok t) :
    Carved ok (s :: rest) [t] (gap s.offset t.offset ++ (gap t.stop s.stop ++ rest)) := by
  obtain ⟨h1, h2⟩ := ht
  have hb := h.before
  have hst : t.offset ≤ t.stop := Nat.le_add_right _ _
  refine ⟨by simp, by simpa using hok, ?_, ?_, ?_⟩
  · intro x hx
    obtain ⟨u, hu, hxu⟩ := hx
    obtain rfl := List.mem_singleton.1 hu
    exact ⟨s, by simp, Span.Inside.mem ⟨h1, h2⟩ hxu⟩
  · ext x
    have hrest : x ∈ cells rest → ¬ x ∈ t := by
      rintro ⟨u, hu, hxu⟩ hxt
      exact (hb u hu).disjoint x (Span.Inside.mem ⟨h1, h2⟩ hxt) hxu
    have hsplit : ((s.offset ≤ x ∧ x < t.offset) ∨ t.stop ≤ x ∧ x < s.stop) ↔ x ∈ s ∧ ¬ x ∈ t := by
      simp only [Span.mem_iff]
      omega
    simp only [cells_append, cells_cons, cells_nil, Set.union_empty, Set.mem_union, Set.mem_sdiff,
      Set.mem_ofPred_eq, mem_cells_gap]
    tauto
  · refine FreeList.gap_append _ _ (FreeList.gap_append _ _ h.tail fun u hu => hb u hu) fun u hu => ?_
    rcases List.mem_append.1 hu with hu | hu
    · obtain ⟨-, rfl⟩ := mem_gap.1 hu
      exact hst
    · have := hb u hu
      unfold Span.Before at this
      omega

theorem Carved.skip {ok : Span → Prop} {s : Span} {rest taken left : List Span}
    (h : FreeList (s :: rest)) (hc : Carved ok rest taken left) :
    Carved ok (s :: rest) taken (s :: left) := by
  have hb := h.before
  have hdisj : ∀ x, x ∈ s → x ∉ cells rest := by
    rintro x hx ⟨u, hu, hxu⟩
    exact (hb u hu).disjoint x hx hxu
  refine ⟨hc.disjoint, hc.ok, ?_, ?_, ?_⟩
  · exact hc.subset.trans (by simp)
  · ext x
    simp only [cells_cons, Set.mem_union, Set.mem_sdiff, Set.mem_ofPred_eq, hc.cells_left]
    have := hdisj x
    have hsub := @hc.subset x
    tauto
  · refine FreeList.cons (h.nonempty s (by simp)) (fun t ht => ?_) hc.left_free
    -- A remaining span is not empty, so it starts inside a span of `rest`.
    have hpos := hc.left_free.nonempty t ht
    have hmem : t.offset ∈ cells left := ⟨t, ht, le_rfl, by unfold Span.stop; omega⟩
    rw [hc.cells_left] at hmem
    obtain ⟨⟨u, hu, hxu⟩, -⟩ := hmem
    exact le_trans (hb u hu) hxu.1

end Base
