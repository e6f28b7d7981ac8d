import Mathlib.Data.Finset.Card
import Mathlib.Data.List.Flatten
import Mathlib.Logic.Relation

/-!
# The breadth-first order of a tree

A walk that keeps one list and a cursor appends the children of the node at the cursor and moves the
cursor on. In a tree, where no node is a child twice, the list has every node once: it is the root and
then the children of its own nodes, in order (`breadthFirst_spec`). Each move passes another node, so as
many moves as there are nodes are enough.
-/

namespace Base

open Relation

variable {α : Type}

/-- The list after at most `fuel` moves of the cursor. -/
def breadthFirst (children : α → List α) : ℕ → List α → ℕ → List α
  | 0, order, _ => order
  | fuel + 1, order, cursor =>
    match order[cursor]? with
    | none => order
    | some node => breadthFirst children fuel (order ++ children node) (cursor + 1)

/-- No node is a child twice, and the root is no child. -/
structure Tree (children : α → List α) (root : α) : Prop where
  nodup : ∀ a, (children a).Nodup
  apart : ∀ a b, a ≠ b → (children a).Disjoint (children b)
  root_notMem : ∀ a, root ∉ children a

/-- The list is the root and the children of the nodes that the cursor has passed. -/
structure Passed (children : α → List α) (root : α) (order : List α) (cursor : ℕ) : Prop where
  order_eq : order = root :: (order.take cursor).flatMap children
  cursor_le : cursor ≤ order.length

section Tree

variable {children : α → List α} {root : α} {order : List α} {cursor fuel : ℕ}

theorem Passed.start : Passed children root [root] 0 := ⟨rfl, Nat.zero_le _⟩

theorem Passed.step (h : Passed children root order cursor) {node : α}
    (hnode : order[cursor]? = some node) :
    Passed children root (order ++ children node) (cursor + 1) := by
  obtain ⟨hlt, hget⟩ := List.getElem?_eq_some_iff.1 hnode
  refine ⟨?_, by rw [List.length_append]; omega⟩
  rw [List.take_append_of_le_length hlt, List.take_add_one, hnode, List.flatMap_append]
  conv_lhs => rw [h.order_eq]
  simp

/-- The nodes of the list are different. -/
theorem Passed.nodup (htree : Tree children root) (hfirst : (order.take cursor).Nodup)
    (h : Passed children root order cursor) : order.Nodup := by
  rw [h.order_eq, List.nodup_cons, List.nodup_flatMap]
  refine ⟨fun hmem => ?_, fun a _ => htree.nodup a, hfirst.imp fun hne => htree.apart _ _ hne⟩
  obtain ⟨a, -, ha⟩ := List.mem_flatMap.1 hmem
  exact htree.root_notMem a ha

/-- **Breadth-first order.** Each node once, and with a node its children. -/
theorem breadthFirst_spec [DecidableEq α] {nodes : Finset α} (htree : Tree children root)
    (hclosed : ∀ a ∈ nodes, ∀ b ∈ children a, b ∈ nodes)
    (hpassed : Passed children root order cursor) (hnodup : order.Nodup)
    (hnodes : ∀ a ∈ order, a ∈ nodes) (hfuel : nodes.card ≤ fuel + cursor) :
    (breadthFirst children fuel order cursor).Nodup ∧
      (∀ a ∈ breadthFirst children fuel order cursor, a ∈ nodes) ∧
      breadthFirst children fuel order cursor =
        root :: (breadthFirst children fuel order cursor).flatMap children := by
  induction fuel generalizing order cursor with
  | zero =>
    have hlength : order.length ≤ nodes.card := by
      rw [← List.toFinset_card_of_nodup hnodup]
      exact Finset.card_le_card fun a ha => hnodes a (List.mem_toFinset.1 ha)
    have hall : order.take cursor = order := List.take_of_length_le (by omega)
    refine ⟨hnodup, hnodes, ?_⟩
    conv_lhs => rw [breadthFirst, hpassed.order_eq, hall]
    rfl
  | succ fuel ih =>
    rw [breadthFirst]
    cases hnode : order[cursor]? with
    | none =>
      have hall : order.take cursor = order := by
        rw [List.getElem?_eq_none_iff] at hnode
        exact List.take_of_length_le hnode
      refine ⟨hnodup, hnodes, ?_⟩
      conv_lhs => rw [hpassed.order_eq, hall]
    | some node =>
      have hstep := hpassed.step hnode
      have hmem : node ∈ order := List.mem_of_getElem? hnode
      have hlt : cursor < order.length := (List.getElem?_eq_some_iff.1 hnode).1
      refine ih hstep (hstep.nodup htree ?_) (fun a ha => ?_) (by omega)
      · rw [List.take_append_of_le_length hlt]
        exact hnodup.sublist (List.take_sublist _ _)
      · rcases List.mem_append.1 ha with ha | ha
        · exact hnodes a ha
        · exact hclosed node (hnodes node hmem) a ha

/-- What can be reached from the root is in a list that is closed under children. -/
theorem mem_of_reach (hclosed : order = root :: order.flatMap children) {a : α}
    (h : ReflTransGen (fun a b => b ∈ children a) root a) : a ∈ order := by
  induction h with
  | refl =>
    rw [hclosed]
    exact List.mem_cons_self
  | tail _ hedge ih =>
    rw [hclosed]
    exact List.mem_cons_of_mem _ (List.mem_flatMap.2 ⟨_, ih, hedge⟩)

end Tree

end Base
