import Mathlib.Data.List.Forall2
import Mathlib.Tactic

/-!
# Search trees in numbered blocks

A multiway search tree whose subtrees live in numbered blocks. A node is read entry by entry: an
entry has a key and, above the leaves, the block of the subtree before that key; the terminal entry
has no key. `keys` is the in-order walk and `find` descends by comparison: in a tree whose keys
ascend it finds every key (`find_of_mem`). `Stored` says that a tree stands in given blocks.
`ofChildren` joins subtrees under one node; joining neighbouring subtrees level by level keeps the
in-order walk (`interleave_append`).
-/

namespace Base

variable {K : Type}

/-- A node, as the chain of its entries. -/
inductive BlockTree (K : Type)
  | leafStop
  | leafKey (k : K) (rest : BlockTree K)
  | stop (block : ℕ) (child : BlockTree K)
  | key (block : ℕ) (child : BlockTree K) (k : K) (rest : BlockTree K)

/-- One entry of a node: its key and the block of the subtree before it. -/
abbrev NodeEntry (K : Type) := Option K × Option ℕ

namespace BlockTree

/-- The keys in order. -/
def keys : BlockTree K → List K
  | leafStop => []
  | leafKey k rest => k :: rest.keys
  | stop _ child => child.keys
  | key _ child k rest => child.keys ++ k :: rest.keys

/-- The blocks in the order in which the walk enters them. -/
def blocks : BlockTree K → List ℕ
  | leafStop => []
  | leafKey _ rest => rest.blocks
  | stop block child => block :: child.blocks
  | key block child _ rest => block :: (child.blocks ++ rest.blocks)

/-- Descends to the key that compares equal. -/
def find (compare : K → Ordering) : BlockTree K → Option K
  | leafStop => none
  | leafKey k rest =>
    match compare k with
    | .lt => none
    | .eq => some k
    | .gt => rest.find compare
  | stop _ child => child.find compare
  | key _ child k rest =>
    match compare k with
    | .lt => child.find compare
    | .eq => some k
    | .gt => rest.find compare

/-- A comparison that respects an order: what it finds too small is before what it finds equal, and
that before what it finds too large. -/
structure Respects (R : K → K → Prop) (compare : K → Ordering) : Prop where
  up : ∀ {x y}, R x y → compare x ≠ .gt → compare y = .lt
  down : ∀ {x y}, R x y → compare y ≠ .lt → compare x = .gt

/-- Descending finds every key of a tree whose keys ascend. -/
theorem find_of_mem {R : K → K → Prop} {compare : K → Ordering} (hR : Respects R compare)
    {tree : BlockTree K} (hsorted : tree.keys.Pairwise R) {k : K} (hk : k ∈ tree.keys)
    (heq : compare k = .eq) : tree.find compare = some k := by
  induction tree with
  | leafStop => simp [keys] at hk
  | leafKey k' rest ih =>
    rw [keys, List.pairwise_cons] at hsorted
    rcases List.mem_cons.1 hk with rfl | hk
    · rw [find, heq]
    · rw [find, hR.down (hsorted.1 k hk) (by rw [heq]; decide)]
      exact ih hsorted.2 hk
  | stop _ child ih => exact ih hsorted hk
  | key _ child k' rest ihc ihr =>
    rw [keys, List.pairwise_append, List.pairwise_cons] at hsorted
    obtain ⟨hchild, ⟨hafter, hrest⟩, hbefore⟩ := hsorted
    rw [keys, List.mem_append, List.mem_cons] at hk
    rcases hk with hk | rfl | hk
    · rw [find, hR.up (hbefore k hk k' List.mem_cons_self) (by rw [heq]; decide)]
      exact ihc hchild hk
    · rw [find, heq]
    · rw [find, hR.down (hafter k hk) (by rw [heq]; decide)]
      exact ihr hrest hk

/-! ## Trees that stand in blocks -/

/-- The tree whose first node has the given entries stands in the blocks. -/
def Stored (node : ℕ → Option (List (NodeEntry K))) : BlockTree K → List (NodeEntry K) → Prop
  | leafStop, entries => entries = [(none, none)]
  | leafKey k rest, entries => ∃ more, entries = (some k, none) :: more ∧ rest.Stored node more
  | stop block child, entries =>
    entries = [(none, some block)] ∧ ∃ inner, node block = some inner ∧ child.Stored node inner
  | key block child k rest, entries =>
    ∃ more, entries = (some k, some block) :: more ∧
      (∃ inner, node block = some inner ∧ child.Stored node inner) ∧ rest.Stored node more

theorem Stored.mono {node node' : ℕ → Option (List (NodeEntry K))}
    (h : ∀ block entries, node block = some entries → node' block = some entries)
    {tree : BlockTree K} {entries : List (NodeEntry K)} (ht : tree.Stored node entries) :
    tree.Stored node' entries := by
  induction tree generalizing entries with
  | leafStop => exact ht
  | leafKey k rest ih =>
    obtain ⟨more, rfl, hrest⟩ := ht
    exact ⟨more, rfl, ih hrest⟩
  | stop block child ih =>
    obtain ⟨rfl, inner, hinner, hchild⟩ := ht
    exact ⟨rfl, inner, h _ _ hinner, ih hchild⟩
  | key block child k rest ihc ihr =>
    obtain ⟨more, rfl, ⟨inner, hinner, hchild⟩, hrest⟩ := ht
    exact ⟨more, rfl, ⟨inner, h _ _ hinner, ihc hchild⟩, ihr hrest⟩

/-- A node without children. -/
def ofKeys : List K → BlockTree K
  | [] => leafStop
  | k :: ks => leafKey k (ofKeys ks)

@[simp] theorem keys_ofKeys (ks : List K) : (ofKeys ks).keys = ks := by
  induction ks with
  | nil => rfl
  | cons k ks ih => rw [ofKeys, keys, ih]

@[simp] theorem blocks_ofKeys (ks : List K) : (ofKeys ks).blocks = [] := by
  induction ks with
  | nil => rfl
  | cons k ks ih => rw [ofKeys, blocks, ih]

/-- The entries of a node without children. -/
def leafEntries (ks : List K) : List (NodeEntry K) := ks.map (fun k => (some k, none)) ++ [(none, none)]

theorem stored_ofKeys (node : ℕ → Option (List (NodeEntry K))) (ks : List K) :
    (ofKeys ks).Stored node (leafEntries ks) := by
  induction ks with
  | nil => rfl
  | cons k ks ih => exact ⟨_, rfl, ih⟩

/-- A node over subtrees with a key between any two of them. -/
def ofChildren : List (ℕ × BlockTree K) → List K → BlockTree K
  | (block, child) :: cs, k :: ks => key block child k (ofChildren cs ks)
  | (block, child) :: _, [] => stop block child
  | [], _ => leafStop

/-- The entries of a node over the subtrees in the given blocks. -/
def innerEntries : List ℕ → List K → List (NodeEntry K)
  | block :: blocks, k :: ks => (some k, some block) :: innerEntries blocks ks
  | block :: _, [] => [(none, some block)]
  | [], _ => []

/-- Runs of keys with a key between any two of them. -/
def interleave : List (List K) → List K → List K
  | run :: runs, k :: ks => run ++ k :: interleave runs ks
  | run :: _, [] => run
  | [], _ => []

theorem interleave_append {runs more : List (List K)} {ks after : List K} {k : K}
    (h : runs.length = ks.length + 1) :
    interleave (runs ++ more) (ks ++ k :: after) = interleave runs ks ++ k :: interleave more after := by
  induction ks generalizing runs with
  | nil =>
    obtain ⟨run, rfl⟩ := List.length_eq_one_iff.1 h
    rfl
  | cons k' ks ih =>
    obtain ⟨run, runs, rfl⟩ := List.exists_cons_of_length_eq_add_one h
    simp only [List.cons_append, interleave, List.append_assoc]
    rw [ih (by simpa using h)]

theorem keys_ofChildren {cs : List (ℕ × BlockTree K)} {ks : List K} (h : cs.length = ks.length + 1) :
    (ofChildren cs ks).keys = interleave (cs.map fun c => c.2.keys) ks := by
  induction ks generalizing cs with
  | nil =>
    obtain ⟨c, rfl⟩ := List.length_eq_one_iff.1 h
    rfl
  | cons k ks ih =>
    obtain ⟨c, cs, rfl⟩ := List.exists_cons_of_length_eq_add_one h
    rw [ofChildren, keys, ih (by simpa using h)]
    rfl

theorem blocks_ofChildren {cs : List (ℕ × BlockTree K)} {ks : List K}
    (h : cs.length = ks.length + 1) :
    (ofChildren cs ks).blocks = cs.flatMap fun c => c.1 :: c.2.blocks := by
  induction ks generalizing cs with
  | nil =>
    obtain ⟨c, rfl⟩ := List.length_eq_one_iff.1 h
    simp [ofChildren, blocks]
  | cons k ks ih =>
    obtain ⟨c, cs, rfl⟩ := List.exists_cons_of_length_eq_add_one h
    rw [ofChildren, blocks, ih (by simpa using h), List.flatMap_cons, List.cons_append]

/-- The block holds the tree. -/
def HeldIn (node : ℕ → Option (List (NodeEntry K))) (block : ℕ) (tree : BlockTree K) : Prop :=
  ∃ entries, node block = some entries ∧ tree.Stored node entries

theorem HeldIn.mono {node node' : ℕ → Option (List (NodeEntry K))}
    (h : ∀ block entries, node block = some entries → node' block = some entries) {block : ℕ}
    {tree : BlockTree K} (ht : HeldIn node block tree) : HeldIn node' block tree := by
  obtain ⟨entries, hblock, hstored⟩ := ht
  exact ⟨entries, h _ _ hblock, hstored.mono h⟩

theorem stored_ofChildren {node : ℕ → Option (List (NodeEntry K))} {cs : List (ℕ × BlockTree K)}
    {ks : List K} (h : cs.length = ks.length + 1) (hcs : ∀ c ∈ cs, HeldIn node c.1 c.2) :
    (ofChildren cs ks).Stored node (innerEntries (cs.map Prod.fst) ks) := by
  induction ks generalizing cs with
  | nil =>
    obtain ⟨c, rfl⟩ := List.length_eq_one_iff.1 h
    exact ⟨rfl, hcs c List.mem_cons_self⟩
  | cons k ks ih =>
    obtain ⟨c, cs, rfl⟩ := List.exists_cons_of_length_eq_add_one h
    exact ⟨_, rfl, hcs c List.mem_cons_self,
      ih (by simpa using h) fun d hd => hcs d (List.mem_cons_of_mem _ hd)⟩

theorem length_innerEntries {blocks : List ℕ} {ks : List K} (h : blocks.length = ks.length + 1) :
    (innerEntries blocks ks).length = ks.length + 1 := by
  induction ks generalizing blocks with
  | nil =>
    obtain ⟨b, rfl⟩ := List.length_eq_one_iff.1 h
    rfl
  | cons k ks ih =>
    obtain ⟨b, blocks, rfl⟩ := List.exists_cons_of_length_eq_add_one h
    rw [innerEntries, List.length_cons, ih (by simpa using h), List.length_cons]

end BlockTree

end Base
