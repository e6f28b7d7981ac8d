import Mathlib.Data.List.Lex
import StarConverter.Image
import StarConverter.Object

/-!
# Paths of a namespace

The breadth-first enumeration of all paths from the root. Every round either drops an item that was
seen before or uses up one of the `maximum` places for a new one, so the walk ends
(`walkPaths_isSome`); when it does not run into the limit, every object gets each of its root paths
exactly once (`enumeratePaths_ok`).
-/

namespace StarConverter

open Base

namespace Verify

/-- One root-relative path as exact UTF-16 components. -/
abbrev Utf16Path := List (List UInt16)

inductive VerificationError
  | invalidLimit (field : String)
  | objectLimitExceeded (actual maximum : ℕ)
  | pathLimitExceeded (maximum : ℕ)
  | streamLimitExceeded (maximum : ℕ)
  | logicalByteLimitExceeded (requested maximum : ℕ)
  | missingObjectPath (id : ObjectId)
  | missingStreamExtents (id : StreamId)
  | extentStreamRequiresDecoding (stream : StreamId) (compressed encrypted : Bool)
  | extentCoverageGap (stream : StreamId) (expected actual : ℕ)
  | arithmeticOverflow (calculation : String)
  | image (error : ImageError)
  deriving DecidableEq

abbrev Verified (α : Type) := Except VerificationError α

/-- The paths found so far; an object that was not reached has none. -/
abbrev Paths := ObjectId → List Utf16Path

def childKey (child : ObjectId × List UInt16) : ℕ ×ₗ List ℕ :=
  toLex (child.1, child.2.map UInt16.toNat)

/-- The sorted targets and names listed in a directory. -/
def childrenOf (entries : List NamespaceEntry) (parent : ObjectId) :
    List (ObjectId × List UInt16) :=
  sortByKey childKey ((entries.filter fun entry => entry.parent = parent).map
    fun entry => (entry.target, entry.name))

/-- `while let Some((object, path)) = queue.pop_front()`, for so many rounds. -/
def walkPaths (entries : List NamespaceEntry) (maximum : ℕ) :
    ℕ → List (ObjectId × Utf16Path) → Paths → List (ObjectId × Utf16Path) → Option (Verified Paths)
  | 0, _, _, _ => none
  | _ + 1, _, paths, [] => some (.ok paths)
  | rounds + 1, seen, paths, (object, path) :: queue =>
    if (object, path) ∈ seen then walkPaths entries maximum rounds seen paths queue
    else if maximum < seen.length + 1 then some (.error (.pathLimitExceeded maximum))
    else walkPaths entries maximum rounds ((object, path) :: seen)
      (Function.update paths object (paths object ++ [path]))
      (queue ++ (childrenOf entries object).map fun child => (child.1, path ++ [child.2]))

theorem length_childrenOf_le (entries : List NamespaceEntry) (parent : ObjectId) :
    (childrenOf entries parent).length ≤ entries.length := by
  rw [childrenOf, length_sortByKey, List.length_map]
  exact List.length_filter_le _ _

theorem mem_childrenOf {entries : List NamespaceEntry} {parent : ObjectId}
    {child : ObjectId × List UInt16} :
    child ∈ childrenOf entries parent ↔ ⟨parent, child.1, child.2⟩ ∈ entries := by
  rw [childrenOf, mem_sortByKey, List.mem_map]
  constructor
  · rintro ⟨entry, hentry, rfl⟩
    obtain ⟨hmem, hparent⟩ := List.mem_filter.1 hentry
    obtain rfl := of_decide_eq_true hparent
    exact hmem
  · intro h
    exact ⟨_, List.mem_filter.2 ⟨h, decide_eq_true rfl⟩, rfl⟩

/-- The walk ends: the measure is what waits in the queue and what the free places may still add. -/
theorem walkPaths_isSome {entries : List NamespaceEntry} {maximum rounds : ℕ}
    {seen queue : List (ObjectId × Utf16Path)} {paths : Paths}
    (h : queue.length + (maximum - seen.length) * entries.length < rounds) :
    (walkPaths entries maximum rounds seen paths queue).isSome = true := by
  induction rounds generalizing seen queue paths with
  | zero => omega
  | succ rounds ih =>
    cases queue with
    | nil => rfl
    | cons item queue =>
      obtain ⟨object, path⟩ := item
      rw [List.length_cons] at h
      rw [walkPaths]
      split_ifs with hseen hfull
      · exact ih (by omega)
      · rfl
      · refine ih ?_
        have hchildren := length_childrenOf_le entries object
        obtain ⟨free, hfree⟩ : ∃ free, maximum - seen.length = free + 1 :=
          ⟨maximum - seen.length - 1, by omega⟩
        rw [hfree, Nat.succ_mul] at h
        rw [List.length_append, List.length_map, List.length_cons,
          show maximum - (seen.length + 1) = free by omega]
        omega

/-- Enough rounds for any namespace. -/
def pathRounds (graph : ObjectGraph) (maximum : ℕ) : ℕ := maximum * graph.entries.length + 2

theorem enumeratePaths_isSome (graph : ObjectGraph) (maximum : ℕ) :
    (walkPaths graph.entries maximum (pathRounds graph maximum) [] (fun _ => [])
      [(graph.root, [])]).isSome = true :=
  walkPaths_isSome (by
    simp only [List.length_cons, List.length_nil, Nat.sub_zero, pathRounds]
    omega)

/-- All paths from the root, by object. -/
def enumeratePaths (graph : ObjectGraph) (maximum : ℕ) : Verified Paths :=
  (walkPaths graph.entries maximum (pathRounds graph maximum) [] (fun _ => [])
    [(graph.root, [])]).get (enumeratePaths_isSome graph maximum)

/-! ## What the walk finds -/

/-- `path` leads from the root to `object`, one entry for each component. -/
inductive RootPath (root : ObjectId) (entries : List NamespaceEntry) : ObjectId → Utf16Path → Prop
  | root : RootPath root entries root []
  | entry {parent path target name} : RootPath root entries parent path →
      ⟨parent, target, name⟩ ∈ entries → RootPath root entries target (path ++ [name])

/-- What holds before every round. -/
structure Walked (root : ObjectId) (entries : List NamespaceEntry)
    (seen : List (ObjectId × Utf16Path)) (paths : Paths) (queue : List (ObjectId × Utf16Path)) :
    Prop where
  paths_iff : ∀ object path, path ∈ paths object ↔ (object, path) ∈ seen
  nodup : ∀ object, (paths object).Nodup
  sound : ∀ item ∈ seen ++ queue, RootPath root entries item.1 item.2
  closed : ∀ item ∈ seen, ∀ child ∈ childrenOf entries item.1,
    (child.1, item.2 ++ [child.2]) ∈ seen ++ queue
  start : (root, []) ∈ seen ++ queue

namespace Walked

variable {root : ObjectId} {entries : List NamespaceEntry} {seen queue : List (ObjectId × Utf16Path)}
  {paths : Paths} {item : ObjectId × Utf16Path}

theorem init : Walked root entries [] (fun _ => []) [(root, [])] where
  paths_iff := by simp
  nodup := fun _ => List.nodup_nil
  sound := by
    intro item hitem
    rw [List.nil_append, List.mem_singleton] at hitem
    rw [hitem]
    exact .root
  closed := by simp
  start := by simp

/-- An item that was seen before is dropped. -/
theorem skip (h : Walked root entries seen paths (item :: queue)) (hseen : item ∈ seen) :
    Walked root entries seen paths queue := by
  have hmem : ∀ x, x ∈ seen ++ item :: queue → x ∈ seen ++ queue := by
    intro x hx
    rw [List.mem_append, List.mem_cons] at hx
    rw [List.mem_append]
    rcases hx with hx | rfl | hx
    · exact Or.inl hx
    · exact Or.inl hseen
    · exact Or.inr hx
  refine ⟨h.paths_iff, h.nodup, fun x hx => h.sound x ?_, fun x hx child hchild =>
    hmem _ (h.closed x hx child hchild), hmem _ h.start⟩
  rw [List.mem_append] at hx
  rw [List.mem_append, List.mem_cons]
  exact hx.imp_right Or.inr

/-- A new item is kept, and what it lists is queued. -/
theorem visit (h : Walked root entries seen paths (item :: queue)) (hnew : item ∉ seen) :
    Walked root entries (item :: seen)
      (Function.update paths item.1 (paths item.1 ++ [item.2]))
      (queue ++ (childrenOf entries item.1).map fun child => (child.1, item.2 ++ [child.2])) := by
  have hitem : RootPath root entries item.1 item.2 :=
    h.sound item (List.mem_append_right _ List.mem_cons_self)
  have hmem : ∀ x, x ∈ seen ++ item :: queue → x ∈ (item :: seen) ++ (queue ++
      (childrenOf entries item.1).map fun child => (child.1, item.2 ++ [child.2])) := by
    intro x hx
    simp only [List.mem_append, List.mem_cons] at hx ⊢
    tauto
  constructor
  · intro object path
    by_cases ho : object = item.1
    · subst ho
      rw [Function.update_self, List.mem_append, List.mem_singleton, h.paths_iff, List.mem_cons,
        Or.comm]
      exact or_congr_left ⟨fun hp => by rw [hp], fun hp => congrArg Prod.snd hp⟩
    · rw [Function.update_of_ne ho, h.paths_iff, List.mem_cons]
      exact ⟨Or.inr, fun hx => hx.resolve_left fun heq => ho (congrArg Prod.fst heq)⟩
  · intro object
    by_cases ho : object = item.1
    · subst ho
      rw [Function.update_self]
      refine List.nodup_append.2 ⟨h.nodup _, List.nodup_singleton _, ?_⟩
      rintro path hpath _ hsingle rfl
      rw [List.mem_singleton] at hsingle
      rw [h.paths_iff, hsingle] at hpath
      exact hnew hpath
    · rw [Function.update_of_ne ho]
      exact h.nodup object
  · intro x hx
    simp only [List.mem_append, List.mem_cons, List.mem_map] at hx
    rcases hx with (rfl | hx) | hx | ⟨child, hchild, rfl⟩
    · exact hitem
    · exact h.sound x (List.mem_append_left _ hx)
    · exact h.sound x (List.mem_append_right _ (List.mem_cons_of_mem _ hx))
    · exact .entry hitem (mem_childrenOf.1 hchild)
  · intro x hx child hchild
    rcases List.mem_cons.1 hx with rfl | hx
    · exact List.mem_append_right _ (List.mem_append_right _
        (List.mem_map.2 ⟨child, hchild, rfl⟩))
    · exact hmem _ (h.closed x hx child hchild)
  · exact hmem _ h.start

/-- Once the queue is empty, everything was found. -/
theorem complete (h : Walked root entries seen paths []) {object : ObjectId} {path : Utf16Path} :
    path ∈ paths object ↔ RootPath root entries object path := by
  rw [h.paths_iff]
  constructor
  · exact fun hmem => h.sound _ (List.mem_append_left _ hmem)
  · intro hroot
    induction hroot with
    | root => simpa using h.start
    | @entry parent path target name _ hentry ih =>
      simpa using h.closed _ ih (target, name) (mem_childrenOf.2 hentry)

end Walked

theorem walkPaths_ok {root : ObjectId} {entries : List NamespaceEntry} {maximum rounds : ℕ}
    {seen queue : List (ObjectId × Utf16Path)} {paths found : Paths}
    (hwalked : Walked root entries seen paths queue)
    (h : walkPaths entries maximum rounds seen paths queue = some (.ok found)) :
    ∃ seen, Walked root entries seen found [] := by
  induction rounds generalizing seen queue paths with
  | zero => cases h
  | succ rounds ih =>
    cases queue with
    | nil =>
      obtain rfl := Except.ok.inj (Option.some.inj h)
      exact ⟨seen, hwalked⟩
    | cons item queue =>
      rw [walkPaths] at h
      split_ifs at h with hseen hfull
      · exact ih (hwalked.skip hseen) h
      · cases Option.some.inj h
      · exact ih (hwalked.visit hseen) h

/-- **Paths.** Every object has each of its root paths exactly once. -/
theorem enumeratePaths_ok {graph : ObjectGraph} {maximum : ℕ} {paths : Paths}
    (h : enumeratePaths graph maximum = .ok paths) (object : ObjectId) :
    (paths object).Nodup ∧
      ∀ path, path ∈ paths object ↔ RootPath graph.root graph.entries object path := by
  have hsome : walkPaths graph.entries maximum (pathRounds graph maximum) [] (fun _ => [])
      [(graph.root, [])] = some (.ok paths) := by
    rw [← h]
    exact (Option.some_get _).symm
  obtain ⟨seen, hwalked⟩ := walkPaths_ok Walked.init hsome
  exact ⟨hwalked.nodup object, fun _ => hwalked.complete⟩

end Verify

end StarConverter
