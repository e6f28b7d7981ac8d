import Mathlib.Tactic
import Mathlib.Logic.Relation
import Mathlib.Logic.Function.Basic
import Mathlib.Algebra.BigOperators.Group.Finset.Basic

/-!
# Depth-first search with an explicit stack

A stack item is a node to enter or, behind it, the same node to leave; a node is open (state 1) between
the two and done (state 2) afterwards. A node may be pushed many times. The open nodes on the stack form
a path (`Nested`), so entering one of them again closes a cycle; a node is left only after its children
(`Pending`), so the nodes in the order they were left have no cycle (`Topological`). Together: `search`
fails exactly when a cycle can be reached, and otherwise returns exactly the reachable nodes
(`search_spec`).
-/

namespace Base

open Relation

namespace DepthFirst

variable {α : Type} (children : α → List α)

/-- The search; it returns the nodes in the order they were entered, or an open node met again. -/
def search [DecidableEq α] : ℕ → List (α × Bool) → (α → ℕ) → List α → Except α (List α)
  | 0, _, _, visited => .ok visited
  | _, [], _, visited => .ok visited
  | rounds + 1, (node, exiting) :: stack, state, visited =>
    if exiting = true then search rounds stack (Function.update state node 2) visited
    else if state node = 1 then .error node
    else if state node = 2 then search rounds stack state visited
    else search rounds ((children node).map (fun child => (child, false)) ++ (node, true) :: stack)
      (Function.update state node 1) (visited ++ [node])

/-- `b` is a child of `a`. -/
def Edge (a b : α) : Prop := b ∈ children a

/-! ## The invariant -/

/-- The open node next to the top of the stack. -/
def enclosing : List (α × Bool) → Option α
  | [] => none
  | (node, exiting) :: rest => if exiting = true then some node else enclosing rest

/-- Every item lies in the stack above a parent of it, if above any open node. -/
def Nested : List (α × Bool) → Prop
  | [] => True
  | item :: rest => (∀ p ∈ enclosing rest, Edge children p item.1) ∧ Nested rest

/-- The children of an open node are done, or above it on the stack; `above` lies on top of the
stack. -/
def Pending (state : α → ℕ) : List α → List (α × Bool) → Prop
  | _, [] => True
  | above, item :: rest =>
    (item.2 = true → ∀ c ∈ children item.1, state c = 2 ∨ c ∈ above) ∧
      Pending state (item.1 :: above) rest

/-- No node twice, and the children of each node behind it. -/
def Topological : List α → Prop
  | [] => True
  | node :: rest => node ∉ rest ∧ (∀ c ∈ children node, c ∈ rest) ∧ Topological rest

structure Invariant (root : α) (nodes : Finset α) (stack : List (α × Bool)) (state : α → ℕ)
    (visited done : List α) : Prop where
  nested : Nested children stack
  pending : Pending children state [] stack
  topological : Topological children done
  open_iff : ∀ node, state node = 1 ↔ (node, true) ∈ stack
  open_once : (stack.filter fun item => item.2).Nodup
  done_iff : ∀ node, state node = 2 ↔ node ∈ done
  state_le : ∀ node, state node ≤ 2
  visited_iff : ∀ node, node ∈ visited ↔ state node ≠ 0
  root_seen : root ∈ visited ∨ ∃ exiting, (root, exiting) ∈ stack
  stack_nodes : ∀ item ∈ stack, item.1 ∈ nodes
  stack_reached : ∀ item ∈ stack, ReflTransGen (Edge children) root item.1
  visited_reached : ∀ node ∈ visited, ReflTransGen (Edge children) root node

variable {children}

theorem enclosing_isSome {node : α} {stack : List (α × Bool)} (h : (node, true) ∈ stack) :
    ∃ p, enclosing stack = some p := by
  induction stack with
  | nil => cases h
  | cons item rest ih =>
    obtain ⟨x, exiting⟩ := item
    rw [enclosing]
    split_ifs with hx
    · exact ⟨x, rfl⟩
    · rcases List.mem_cons.1 h with heq | h
      · simp only [Prod.mk.injEq] at heq
        exact absurd heq.2.symm hx
      · exact ih h

/-- From every open node a path leads to the topmost one. -/
theorem Nested.path {node p : α} {stack : List (α × Bool)} (h : Nested children stack)
    (hnode : (node, true) ∈ stack) (hp : enclosing stack = some p) :
    ReflTransGen (Edge children) node p := by
  induction stack generalizing p with
  | nil => cases hnode
  | cons item rest ih =>
    obtain ⟨x, exiting⟩ := item
    obtain ⟨hedge, hrest⟩ := h
    rw [enclosing] at hp
    rcases List.mem_cons.1 hnode with heq | hmem
    · simp only [Prod.mk.injEq] at heq
      obtain ⟨rfl, rfl⟩ := heq
      rw [if_pos rfl, Option.some.injEq] at hp
      rw [hp]
    · obtain ⟨q, hq⟩ := enclosing_isSome hmem
      have hpath := ih hrest hmem hq
      split_ifs at hp with hx
      · rw [Option.some.injEq] at hp
        exact hp ▸ hpath.tail (hedge q hq)
      · rw [hq, Option.some.injEq] at hp
        exact hp ▸ hpath

theorem Pending.mono {state state' : α → ℕ} {above above' : List α} {stack : List (α × Bool)}
    (h : Pending children state above stack) (hstate : ∀ c, state c = 2 → state' c = 2)
    (habove : ∀ c ∈ above, state' c = 2 ∨ c ∈ above') : Pending children state' above' stack := by
  induction stack generalizing above above' with
  | nil => trivial
  | cons item rest ih =>
    refine ⟨fun hx c hc => ?_, ih h.2 fun c hc => ?_⟩
    · rcases h.1 hx c hc with hdone | hmem
      · exact Or.inl (hstate c hdone)
      · exact habove c hmem
    · rcases List.mem_cons.1 hc with rfl | hc
      · exact Or.inr (by simp)
      · exact (habove c hc).imp_right fun h => List.mem_cons_of_mem _ h

theorem pending_enter {state : α → ℕ} {above l : List α} {stack : List (α × Bool)}
    (h : Pending children state (l.reverse ++ above) stack) :
    Pending children state above (l.map (fun child => (child, false)) ++ stack) := by
  induction l generalizing above with
  | nil => exact h
  | cons x rest ih =>
    refine ⟨fun hx => (nomatch hx), ih ?_⟩
    rwa [List.reverse_cons, List.append_assoc, List.singleton_append] at h

theorem nested_enter {l : List α} {stack : List (α × Bool)} (h : Nested children stack)
    (hl : ∀ p ∈ enclosing stack, ∀ child ∈ l, Edge children p child) :
    Nested children (l.map (fun child => (child, false)) ++ stack) ∧
      enclosing (l.map (fun child => (child, false)) ++ stack) = enclosing stack := by
  induction l with
  | nil => exact ⟨h, rfl⟩
  | cons x rest ih =>
    obtain ⟨hnested, henclosing⟩ := ih fun p hp child hc => hl p hp child (by simp [hc])
    refine ⟨⟨fun p hp => ?_, hnested⟩, ?_⟩
    · exact hl p (henclosing ▸ hp) x (by simp)
    · rw [List.map_cons, List.cons_append, enclosing, if_neg (by simp), henclosing]

theorem Topological.closed {l : List α} (h : Topological children l) {a b : α} (ha : a ∈ l)
    (hab : ReflTransGen (Edge children) a b) : b ∈ l := by
  induction hab with
  | refl => exact ha
  | tail _ hedge ih =>
    clear ha
    induction l with
    | nil => cases ih
    | cons x rest ihl =>
      rcases List.mem_cons.1 ih with rfl | hmem
      · exact List.mem_cons_of_mem _ (h.2.1 _ hedge)
      · exact List.mem_cons_of_mem _ (ihl h.2.2 hmem)

/-- Nodes in topological order lie on no cycle. -/
theorem Topological.acyclic {l : List α} (h : Topological children l) {a : α} (ha : a ∈ l) :
    ¬ TransGen (Edge children) a a := by
  induction l with
  | nil => cases ha
  | cons x rest ih =>
    rcases List.mem_cons.1 ha with rfl | hmem
    · intro hcycle
      obtain ⟨c, hedge, hpath⟩ := (TransGen.head'_iff).1 hcycle
      exact h.1 (h.2.2.closed (h.2.1 c hedge) hpath)
    · exact ih h.2.2 hmem

/-! ## The steps -/

/-- What the rounds are counted by: an item for each stack entry, and for each node not entered yet one
for itself and one for each child. -/
def measure (children : α → List α) (nodes : Finset α) (stack : List (α × Bool)) (state : α → ℕ) : ℕ :=
  stack.length + ∑ node ∈ nodes.filter (fun node => state node = 0), (1 + (children node).length)

section Steps

variable {root node : α} {nodes : Finset α} {stack : List (α × Bool)} {state : α → ℕ}
  {visited done : List α}

/-- Leaving a node: its children are done. -/
theorem Invariant.leave [DecidableEq α]
    (h : Invariant children root nodes ((node, true) :: stack) state visited done) :
    Invariant children root nodes stack (Function.update state node 2) visited (node :: done) ∧
      measure children nodes stack (Function.update state node 2) + 1 =
        measure children nodes ((node, true) :: stack) state := by
  have hopen : state node = 1 := (h.open_iff node).2 (by simp)
  have honce := h.open_once
  rw [List.filter_cons_of_pos rfl, List.nodup_cons, List.mem_filter] at honce
  have hnot : (node, true) ∉ stack := fun hmem => honce.1 ⟨hmem, rfl⟩
  have hne : ∀ {x}, x ≠ node → Function.update state node 2 x = state x :=
    fun hx => Function.update_of_ne hx _ _
  have hself : Function.update state node 2 node = 2 := Function.update_self _ _ _
  have hzero : ∀ x, Function.update state node 2 x = 0 ↔ state x = 0 := by
    intro x
    by_cases hx : x = node
    · rw [hx, hself, hopen]
      simp
    · rw [hne hx]
  refine ⟨⟨h.nested.2, ?_, ⟨?_, ?_, h.topological⟩, ?_, honce.2, ?_, ?_, ?_, ?_, ?_, ?_,
    h.visited_reached⟩, ?_⟩
  · refine h.pending.2.mono (fun c hc => ?_) fun c hc => ?_
    · by_cases hcn : c = node
      · rw [hcn, hself]
      · rw [hne hcn, hc]
    · obtain rfl : c = node := by simpa using hc
      exact Or.inl hself
  · intro hmem
    have := (h.done_iff node).2 hmem
    omega
  · intro c hc
    rcases h.pending.1 rfl c hc with hdone | hmem
    · exact (h.done_iff c).1 hdone
    · cases hmem
  · intro x
    by_cases hx : x = node
    · rw [hx, hself]
      simp [hnot]
    · rw [hne hx, h.open_iff x]
      simp [hx]
  · intro x
    by_cases hx : x = node
    · rw [hx, hself]
      simp
    · rw [hne hx, h.done_iff x]
      simp [hx]
  · intro x
    by_cases hx : x = node
    · rw [hx, hself]
    · rw [hne hx]
      exact h.state_le x
  · intro x
    rw [h.visited_iff, not_iff_not, hzero]
  · rcases h.root_seen with hroot | ⟨exiting, hroot⟩
    · exact Or.inl hroot
    · rcases List.mem_cons.1 hroot with heq | hroot
      · simp only [Prod.mk.injEq] at heq
        left
        rw [h.visited_iff, heq.1, hopen]
        omega
      · exact Or.inr ⟨exiting, hroot⟩
  · exact fun item hitem => h.stack_nodes item (by simp [hitem])
  · exact fun item hitem => h.stack_reached item (by simp [hitem])
  · unfold measure
    simp only [hzero, List.length_cons]
    omega

/-- Meeting a node that is done. -/
theorem Invariant.skip (h : Invariant children root nodes ((node, false) :: stack) state visited done)
    (hdone : state node = 2) : Invariant children root nodes stack state visited done where
  nested := h.nested.2
  pending := h.pending.2.mono (fun _ hc => hc) fun c hc => by
    obtain rfl : c = node := by simpa using hc
    exact Or.inl hdone
  topological := h.topological
  open_iff x := by
    rw [h.open_iff x]
    simp
  open_once := h.open_once
  done_iff := h.done_iff
  state_le := h.state_le
  visited_iff := h.visited_iff
  root_seen := by
    rcases h.root_seen with hroot | ⟨exiting, hroot⟩
    · exact Or.inl hroot
    · rcases List.mem_cons.1 hroot with heq | hroot
      · simp only [Prod.mk.injEq] at heq
        left
        rw [h.visited_iff, heq.1, hdone]
        omega
      · exact Or.inr ⟨exiting, hroot⟩
  stack_nodes item hitem := h.stack_nodes item (by simp [hitem])
  stack_reached item hitem := h.stack_reached item (by simp [hitem])
  visited_reached := h.visited_reached

/-- Meeting an open node closes a cycle. -/
theorem Invariant.cycle (h : Invariant children root nodes ((node, false) :: stack) state visited done)
    (hopen : state node = 1) :
    ReflTransGen (Edge children) root node ∧ TransGen (Edge children) node node := by
  have hmem : (node, true) ∈ stack := by simpa using (h.open_iff node).1 hopen
  obtain ⟨p, hp⟩ := enclosing_isSome hmem
  exact ⟨h.stack_reached (node, false) (by simp),
    TransGen.tail' (h.nested.2.path hmem hp) (h.nested.1 p hp)⟩

/-- Entering a node. -/
theorem Invariant.enter [DecidableEq α]
    (h : Invariant children root nodes ((node, false) :: stack) state visited done)
    (hnew : state node = 0) (hclosed : ∀ a ∈ nodes, ∀ c ∈ children a, c ∈ nodes) :
    Invariant children root nodes
      ((children node).map (fun child => (child, false)) ++ (node, true) :: stack)
      (Function.update state node 1) (visited ++ [node]) done ∧
    measure children nodes
        ((children node).map (fun child => (child, false)) ++ (node, true) :: stack)
        (Function.update state node 1) + 1 =
      measure children nodes ((node, false) :: stack) state := by
  have hne : ∀ {x}, x ≠ node → Function.update state node 1 x = state x :=
    fun hx => Function.update_of_ne hx _ _
  have hself : Function.update state node 1 node = 1 := Function.update_self _ _ _
  have hnode := h.stack_nodes (node, false) (by simp)
  have hreached := h.stack_reached (node, false) (by simp)
  have hnot : (node, true) ∉ stack := fun hmem => by
    have := (h.open_iff node).2 (by simp [hmem])
    omega
  have htop : enclosing ((node, true) :: stack) = some node := by
    rw [enclosing, if_pos rfl]
  have hdone : ∀ c, state c = 2 → Function.update state node 1 c = 2 := by
    intro c hc
    rw [hne (fun heq => by rw [heq] at hc; omega), hc]
  have hnested : Nested children ((node, true) :: stack) := ⟨h.nested.1, h.nested.2⟩
  refine ⟨⟨?_, ?_, h.topological, ?_, ?_, ?_, ?_, ?_, ?_, ?_, ?_, ?_⟩, ?_⟩
  · refine (nested_enter hnested fun p hp child hc => ?_).1
    rw [htop, Option.mem_def, Option.some.injEq] at hp
    exact hp ▸ hc
  · refine pending_enter ⟨fun _ c hc => Or.inr (by simp [hc]), ?_⟩
    refine h.pending.2.mono hdone fun c hc => Or.inr ?_
    obtain rfl : c = node := by simpa using hc
    simp
  · intro x
    by_cases hx : x = node
    · rw [hx, hself]
      simp
    · rw [hne hx, h.open_iff x]
      simp [hx]
  · have hfilter : ((children node).map (fun child => (child, false))).filter
        (fun item : α × Bool => item.2) = [] := by
      rw [List.filter_map]
      simp
    have honce := h.open_once
    rw [List.filter_cons_of_neg (by simp)] at honce
    rw [List.filter_append, hfilter, List.nil_append, List.filter_cons_of_pos rfl, List.nodup_cons]
    exact ⟨fun hmem => hnot (List.mem_filter.1 hmem).1, honce⟩
  · intro x
    by_cases hx : x = node
    · rw [hx, hself, ← h.done_iff, hnew]
      simp
    · rw [hne hx, h.done_iff]
  · intro x
    by_cases hx : x = node
    · rw [hx, hself]
      omega
    · rw [hne hx]
      exact h.state_le x
  · intro x
    rw [List.mem_append, List.mem_singleton, h.visited_iff]
    by_cases hx : x = node
    · rw [hx, hself]
      simp
    · rw [hne hx]
      simp [hx]
  · rcases h.root_seen with hroot | ⟨exiting, hroot⟩
    · exact Or.inl (by simp [hroot])
    · rcases List.mem_cons.1 hroot with heq | hroot
      · simp only [Prod.mk.injEq] at heq
        exact Or.inl (by simp [heq.1])
      · exact Or.inr ⟨exiting, by simp [hroot]⟩
  · intro item hitem
    rcases List.mem_append.1 hitem with hitem | hitem
    · obtain ⟨c, hc, rfl⟩ := List.mem_map.1 hitem
      exact hclosed node hnode c hc
    · rcases List.mem_cons.1 hitem with rfl | hitem
      · exact hnode
      · exact h.stack_nodes item (by simp [hitem])
  · intro item hitem
    rcases List.mem_append.1 hitem with hitem | hitem
    · obtain ⟨c, hc, rfl⟩ := List.mem_map.1 hitem
      exact hreached.tail hc
    · rcases List.mem_cons.1 hitem with rfl | hitem
      · exact hreached
      · exact h.stack_reached item (by simp [hitem])
  · intro x hx
    rcases List.mem_append.1 hx with hx | hx
    · exact h.visited_reached x hx
    · obtain rfl : x = node := by simpa using hx
      exact hreached
  · have hfilter : nodes.filter (fun x => Function.update state node 1 x = 0) =
        (nodes.filter fun x => state x = 0).erase node := by
      ext x
      rw [Finset.mem_filter, Finset.mem_erase, Finset.mem_filter]
      by_cases hx : x = node
      · rw [hx, hself]
        simp
      · rw [hne hx]
        simp [hx]
    have hmem : node ∈ nodes.filter fun x => state x = 0 := Finset.mem_filter.2 ⟨hnode, hnew⟩
    have hsum := Finset.add_sum_erase _ (fun x => 1 + (children x).length) hmem
    unfold measure
    rw [hfilter, ← hsum]
    simp only [List.length_append, List.length_map, List.length_cons]
    omega

end Steps

/-! ## The search -/

section Search

variable {root : α} {nodes : Finset α} {state : α → ℕ} {visited done : List α}

/-- When the stack is empty, every node that was entered is done. -/
theorem Invariant.finished (h : Invariant children root nodes [] state visited done) :
    root ∈ visited ∧ (∀ node ∈ visited, ReflTransGen (Edge children) root node) ∧
      ∃ done, Topological children done ∧ ∀ node, node ∈ visited ↔ node ∈ done := by
  refine ⟨by simpa using h.root_seen, h.visited_reached, done, h.topological, fun node => ?_⟩
  have hopen : state node ≠ 1 := fun hone => by simpa using (h.open_iff node).1 hone
  have hle := h.state_le node
  rw [h.visited_iff, ← h.done_iff]
  omega

/-- A search from a state with the invariant. -/
theorem Invariant.search [DecidableEq α] {rounds : ℕ} {stack : List (α × Bool)}
    (h : Invariant children root nodes stack state visited done)
    (hclosed : ∀ a ∈ nodes, ∀ c ∈ children a, c ∈ nodes)
    (hrounds : measure children nodes stack state ≤ rounds) :
    (∀ node, DepthFirst.search children rounds stack state visited = .error node →
      ReflTransGen (Edge children) root node ∧ TransGen (Edge children) node node) ∧
    (∀ out, DepthFirst.search children rounds stack state visited = .ok out →
      root ∈ out ∧ (∀ node ∈ out, ReflTransGen (Edge children) root node) ∧
        ∃ done, Topological children done ∧ ∀ node, node ∈ out ↔ node ∈ done) := by
  induction rounds generalizing stack state visited done with
  | zero =>
    obtain rfl : stack = [] := by
      rw [← List.length_eq_zero_iff]
      unfold measure at hrounds
      omega
    exact ⟨fun _ h => (nomatch h), fun out hout => Except.ok.inj hout ▸ h.finished⟩
  | succ rounds ih =>
    cases stack with
    | nil => exact ⟨fun _ h => (nomatch h), fun out hout => Except.ok.inj hout ▸ h.finished⟩
    | cons item stack =>
      obtain ⟨node, exiting⟩ := item
      rw [DepthFirst.search]
      split_ifs with hexit hopen hdone
      · subst hexit
        obtain ⟨hleave, hmeasure⟩ := h.leave
        exact ih hleave (by omega)
      · have hfalse : exiting = false := by simpa using hexit
        subst hfalse
        exact ⟨fun _ herror => Except.error.inj herror ▸ h.cycle hopen, fun _ hok => (nomatch hok)⟩
      · have hfalse : exiting = false := by simpa using hexit
        subst hfalse
        refine ih (h.skip hdone) ?_
        unfold measure at hrounds ⊢
        rw [List.length_cons] at hrounds
        omega
      · have hfalse : exiting = false := by simpa using hexit
        subst hfalse
        have hle := h.state_le node
        obtain ⟨henter, hmeasure⟩ := h.enter (by omega) hclosed
        exact ih henter (by omega)

theorem Invariant.start (hroot : root ∈ nodes) :
    Invariant children root nodes [(root, false)] (fun _ => 0) [] [] where
  nested := ⟨fun p hp => by simp [enclosing] at hp, trivial⟩
  pending := ⟨fun h => (nomatch h), trivial⟩
  topological := trivial
  open_iff node := by simp
  open_once := by simp
  done_iff node := by simp
  state_le node := by simp
  visited_iff node := by simp
  root_seen := Or.inr ⟨false, by simp⟩
  stack_nodes item hitem := by
    obtain rfl : item = (root, false) := by simpa using hitem
    exact hroot
  stack_reached item hitem := by
    obtain rfl : item = (root, false) := by simpa using hitem
    exact ReflTransGen.refl
  visited_reached node hnode := by cases hnode

/-- **Depth-first search.** With rounds for all nodes and edges, it fails at a node on a cycle that can
be reached, or returns the nodes that can be reached, none of which lies on a cycle. -/
theorem search_spec [DecidableEq α] {rounds : ℕ} (hroot : root ∈ nodes)
    (hclosed : ∀ a ∈ nodes, ∀ c ∈ children a, c ∈ nodes)
    (hrounds : 1 + ∑ node ∈ nodes, (1 + (children node).length) ≤ rounds) :
    (∀ node, search children rounds [(root, false)] (fun _ => 0) [] = .error node →
      ReflTransGen (Edge children) root node ∧ TransGen (Edge children) node node) ∧
    (∀ out, search children rounds [(root, false)] (fun _ => 0) [] = .ok out →
      ∀ node, (node ∈ out ↔ ReflTransGen (Edge children) root node) ∧
        (node ∈ out → ¬ TransGen (Edge children) node node)) := by
  have hmeasure : measure children nodes [(root, false)] (fun _ => 0) ≤ rounds := by
    unfold measure
    simpa using hrounds
  obtain ⟨herror, hok⟩ := (@Invariant.start α children root nodes hroot).search hclosed hmeasure
  refine ⟨herror, fun out hout node => ?_⟩
  obtain ⟨hmem, hreached, done, htopological, hdone⟩ := hok out hout
  refine ⟨⟨hreached node, fun hpath => ?_⟩, fun hnode => ?_⟩
  · exact (hdone node).2 (htopological.closed ((hdone root).1 hmem) hpath)
  · exact htopological.acyclic ((hdone node).1 hnode)

end Search

end DepthFirst

end Base
