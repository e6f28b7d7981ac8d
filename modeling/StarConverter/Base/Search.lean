import StarConverter.Base.Checked
import StarConverter.Base.Spans
import Mathlib.Data.List.TakeWhile

/-!
# Searching ordered spans

`slice::partition_point` counts the elements in front that satisfy a predicate, and one step back from
it stands the last element that starts at or before a place. In a list of ordered spans the span around
a place is found that way (`lastStarting_of_mem`).
-/

namespace Base

variable {α : Type}

/-- The number of elements in front that satisfy the predicate. -/
def partitionPoint (p : α → Bool) (l : List α) : ℕ := (l.takeWhile p).length

/-- The element in front of the first one that starts behind `x`. -/
def lastStarting (start : α → ℕ) (x : ℕ) (l : List α) : Option α :=
  (checkedSub (partitionPoint (fun a => decide (start a ≤ x)) l) 1).bind fun index => l[index]?

theorem partitionPoint_append {p : α → Bool} {front back : List α} (hfront : ∀ a ∈ front, p a = true)
    (hback : ∀ a ∈ back.head?, p a = false) : partitionPoint p (front ++ back) = front.length := by
  unfold partitionPoint
  rw [List.takeWhile_append_of_pos hfront]
  cases back with
  | nil => simp
  | cons b rest => rw [List.takeWhile_cons_of_neg (by simp [hback b rfl]), List.append_nil]

/-- What is found stands in the list and starts at or before the place. -/
theorem lastStarting_some {start : α → ℕ} {x : ℕ} {l : List α} {a : α}
    (h : lastStarting start x l = some a) : a ∈ l ∧ start a ≤ x := by
  unfold lastStarting at h
  obtain ⟨index, hindex, hget⟩ := Option.bind_eq_some_iff.1 h
  rw [checkedSub_eq_some] at hindex
  obtain ⟨hpos, rfl⟩ := hindex
  refine ⟨List.mem_of_getElem? hget, ?_⟩
  obtain ⟨rest, hrest⟩ : (l.takeWhile fun a => decide (start a ≤ x)) <+: l := List.takeWhile_prefix _
  set taken := l.takeWhile fun a => decide (start a ≤ x) with htaken
  have hpos' : 1 ≤ taken.length := hpos
  have hlast : taken[taken.length - 1]? = some a := by
    have hsplit : (taken ++ rest)[taken.length - 1]? = some a := by
      rw [hrest]
      exact hget
    rwa [List.getElem?_append_left (by omega)] at hsplit
  have hmem : a ∈ l.takeWhile fun a => decide (start a ≤ x) := List.mem_of_getElem? hlast
  have hle := List.mem_takeWhile_imp hmem
  exact of_decide_eq_true hle

section Ordered

variable {span : α → Span} {l : List α}

/-- In ordered spans, the span around a place is found. -/
theorem lastStarting_of_mem (ho : Ordered (l.map span)) {a : α} (ha : a ∈ l) {x : ℕ}
    (hx : x ∈ span a) : lastStarting (fun b => (span b).offset) x l = some a := by
  obtain ⟨front, back, rfl⟩ := List.append_of_mem ha
  rw [Ordered, List.map_append, List.map_cons, List.pairwise_append] at ho
  obtain ⟨-, hback, hfront⟩ := ho
  have hpoint : partitionPoint (fun b => decide ((span b).offset ≤ x)) (front ++ a :: back) =
      (front ++ [a]).length := by
    rw [List.append_cons]
    refine partitionPoint_append (fun b hb => ?_) fun b hb => ?_
    · rcases List.mem_append.1 hb with hb | hb
      · have hbefore := hfront _ (List.mem_map_of_mem hb) (span a) (by simp)
        have := hx.1
        simp only [Span.Before, Span.stop] at hbefore
        exact decide_eq_true (by omega)
      · rw [List.mem_singleton] at hb
        exact hb ▸ decide_eq_true hx.1
    · have hmem : b ∈ back := List.mem_of_mem_head? hb
      have hbefore := (List.pairwise_cons.1 hback).1 _ (List.mem_map_of_mem hmem)
      have := hx.2
      simp only [Span.Before] at hbefore
      exact decide_eq_false (by omega)
  rw [lastStarting, hpoint, List.length_append, List.length_singleton, checkedSub_of_le (by omega),
    Option.bind_some, Nat.add_sub_cancel, List.getElem?_append_right le_rfl, Nat.sub_self]
  rfl

end Ordered

end Base
