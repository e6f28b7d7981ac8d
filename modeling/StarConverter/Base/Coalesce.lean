import Mathlib.Algebra.GroupWithZero.Nat
import Mathlib.Data.List.Chain
import Mathlib.Data.List.Induction

/-!
# Merging neighbours

`merge a b` is the one value that stands for `a` followed by `b`, if there is one. A list grown with
`pushMerge` merges each new value into the last one where it can. Under `LawfulMerge` it makes no
difference whether values are merged before they are pushed, so pieces merged on their own can be
concatenated and merged again (`coalesce_flatMap`), and no two neighbours are left to merge.
-/

namespace Base

variable {α β : Type} (merge : α → α → Option α)

/-- Appends a value, merged into the last one where that is possible. -/
def pushMerge (l : List α) (x : α) : List α :=
  match l.getLast?.bind (merge · x) with
  | some merged => l.dropLast ++ [merged]
  | none => l ++ [x]

/-- The list with neighbours merged, from the left. -/
def coalesce (l : List α) : List α := l.foldl (pushMerge merge) []

/-- Merging two values on the right of a third one is merging one after the other. -/
structure LawfulMerge : Prop where
  none_left : ∀ {a b c bc}, merge b c = some bc → merge a b = none → merge a bc = none
  assoc : ∀ {a b c ab bc}, merge b c = some bc → merge a b = some ab →
    ∃ abc, merge ab c = some abc ∧ merge a bc = some abc

variable {merge}

@[simp] theorem pushMerge_nil (x : α) : pushMerge merge [] x = [x] := rfl

theorem pushMerge_of_none {l : List α} {last x : α} (h : merge last x = none) :
    pushMerge merge (l ++ [last]) x = l ++ [last] ++ [x] := by
  unfold pushMerge
  rw [List.getLast?_concat, Option.bind_some, h]

theorem pushMerge_of_some {l : List α} {last x merged : α} (h : merge last x = some merged) :
    pushMerge merge (l ++ [last]) x = l ++ [merged] := by
  unfold pushMerge
  rw [List.getLast?_concat, Option.bind_some, h, List.dropLast_concat]

@[simp] theorem coalesce_nil : coalesce merge [] = [] := rfl

theorem coalesce_concat (l : List α) (x : α) :
    coalesce merge (l ++ [x]) = pushMerge merge (coalesce merge l) x := by
  rw [coalesce, List.foldl_append]
  rfl

namespace LawfulMerge

variable (h : LawfulMerge merge)

include h

/-- Two values that merge can be pushed one after the other. -/
theorem pushMerge_pushMerge {b c bc : α} (hbc : merge b c = some bc) (l : List α) :
    pushMerge merge (pushMerge merge l b) c = pushMerge merge l bc := by
  induction l using List.reverseRecOn with
  | nil => exact pushMerge_of_some (l := []) hbc
  | append_singleton l a _ =>
    cases hab : merge a b with
    | none =>
      rw [pushMerge_of_none hab, pushMerge_of_some hbc, pushMerge_of_none (h.none_left hbc hab)]
    | some ab =>
      obtain ⟨abc, habc, habc'⟩ := h.assoc hbc hab
      rw [pushMerge_of_some hab, pushMerge_of_some habc, pushMerge_of_some habc']

/-- Pushing a list grown by one value is pushing the list and then the value. -/
theorem foldl_pushMerge (l new : List α) (x : α) :
    (pushMerge merge new x).foldl (pushMerge merge) l =
      pushMerge merge (new.foldl (pushMerge merge) l) x := by
  induction new using List.reverseRecOn with
  | nil => rfl
  | append_singleton new b _ =>
    cases hbx : merge b x with
    | none => rw [pushMerge_of_none hbx, List.foldl_concat]
    | some bx =>
      rw [pushMerge_of_some hbx, List.foldl_concat, List.foldl_concat, h.pushMerge_pushMerge hbx]

/-- Values merged beforehand are pushed with the same result. -/
theorem foldl_coalesce (l new : List α) :
    (coalesce merge new).foldl (pushMerge merge) l = new.foldl (pushMerge merge) l := by
  induction new using List.reverseRecOn with
  | nil => rfl
  | append_singleton new x ih => rw [coalesce_concat, h.foldl_pushMerge, ih, List.foldl_concat]

/-- **Pieces.** Pieces merged on their own, concatenated and merged again, are the whole merged. -/
theorem coalesce_flatMap (pieces : List β) (piece : β → List α) :
    coalesce merge (pieces.flatMap fun b => coalesce merge (piece b)) =
      coalesce merge (pieces.flatMap piece) := by
  suffices hl : ∀ l, (pieces.flatMap fun b => coalesce merge (piece b)).foldl (pushMerge merge) l =
      (pieces.flatMap piece).foldl (pushMerge merge) l from hl []
  induction pieces with
  | nil => exact fun _ => rfl
  | cons b rest ih =>
    intro l
    rw [List.flatMap_cons, List.flatMap_cons, List.foldl_append, List.foldl_append,
      h.foldl_coalesce, ih]

theorem isChain_pushMerge {l : List α} (hl : l.IsChain fun a b => merge a b = none) (x : α) :
    (pushMerge merge l x).IsChain fun a b => merge a b = none := by
  induction l using List.reverseRecOn with
  | nil => exact List.isChain_singleton _
  | append_singleton l a _ =>
    cases hax : merge a x with
    | none =>
      rw [pushMerge_of_none hax]
      refine List.isChain_append.2 ⟨hl, List.isChain_singleton _, fun y hy z hz => ?_⟩
      rw [List.getLast?_concat, Option.mem_some] at hy
      rw [List.head?_cons, Option.mem_some] at hz
      rw [← hy, ← hz]
      exact hax
    | some ax =>
      rw [pushMerge_of_some hax]
      obtain ⟨hl', -, hlast⟩ := List.isChain_append.1 hl
      refine List.isChain_append.2 ⟨hl', List.isChain_singleton _, fun y hy z hz => ?_⟩
      rw [List.head?_cons, Option.mem_some] at hz
      rw [← hz]
      exact h.none_left hax (hlast y hy a rfl)

/-- No two neighbours are left to merge. -/
theorem isChain_coalesce (l : List α) : (coalesce merge l).IsChain fun a b => merge a b = none := by
  induction l using List.reverseRecOn with
  | nil => exact List.isChain_nil
  | append_singleton l x ih =>
    rw [coalesce_concat]
    exact h.isChain_pushMerge ih x

end LawfulMerge

/-- A property of values that merging keeps holds of every value of the merged list. -/
theorem forall_mem_pushMerge {P : α → Prop}
    (hmerge : ∀ a b ab, merge a b = some ab → P a → P b → P ab) {l : List α} (hl : ∀ a ∈ l, P a)
    {x : α} (hx : P x) : ∀ a ∈ pushMerge merge l x, P a := by
  induction l using List.reverseRecOn with
  | nil => simpa using hx
  | append_singleton l last _ =>
    intro a ha
    cases hm : merge last x with
    | none =>
      rw [pushMerge_of_none hm, List.mem_append, List.mem_singleton] at ha
      rcases ha with ha | rfl
      · exact hl a ha
      · exact hx
    | some merged =>
      rw [pushMerge_of_some hm, List.mem_append, List.mem_singleton] at ha
      rcases ha with ha | rfl
      · exact hl a (List.mem_append_left _ ha)
      · exact hmerge last x a hm (hl last (by simp)) hx

/-- A sum over values that merging adds up is the sum over the merged list. -/
theorem sum_map_pushMerge {f : α → ℕ} (hmerge : ∀ a b ab, merge a b = some ab → f ab = f a + f b)
    (l : List α) (x : α) : ((pushMerge merge l x).map f).sum = (l.map f).sum + f x := by
  induction l using List.reverseRecOn with
  | nil => simp
  | append_singleton l last _ =>
    cases hm : merge last x with
    | none => simp [pushMerge_of_none hm, Nat.add_assoc]
    | some merged => simp [pushMerge_of_some hm, hmerge last x merged hm, Nat.add_assoc]

/-- A search that finds in a merged value what it finds in its parts finds the same in the list. -/
theorem findSome?_coalesce {f : α → Option β}
    (hmerge : ∀ a b ab, merge a b = some ab → f ab = (f a).or (f b)) (l : List α) :
    (coalesce merge l).findSome? f = l.findSome? f := by
  induction l using List.reverseRecOn with
  | nil => rfl
  | append_singleton l x ih =>
    rw [coalesce_concat, List.findSome?_append, ← ih]
    generalize coalesce merge l = merged
    induction merged using List.reverseRecOn with
    | nil => simp
    | append_singleton merged last _ =>
      cases hm : merge last x with
      | none => rw [pushMerge_of_none hm, List.findSome?_append]
      | some both =>
        simp [pushMerge_of_some hm, List.findSome?_append, hmerge last x both hm, Option.or_assoc]

end Base
