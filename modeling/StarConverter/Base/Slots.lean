import StarConverter.Base.Patch

/-!
# A table of slots

An allocator keeps one mark for each slot. `Owns` ties the marks to the list of the slots handed out so
far, none of them twice; an operation that takes free slots extends the list (`Owns.set`, `Owns.fill`),
so what a run of operations hands out never overlaps. A first-fit search counts the free slots in a row
(`firstRun`): it finds a run exactly when there is one, and the run it finds ends first
(`firstRun_eq_some`, `firstRun_eq_none`).
-/

namespace Base

/-! ## Marks -/

/-- The table marks exactly these slots. -/
def Marked (table : List Bool) (slots : List ℕ) : Prop := ∀ i, table[i]? = some true ↔ i ∈ slots

/-- The table marks the slots handed out, and none was handed out twice. -/
structure Owns (table : List Bool) (taken : List ℕ) : Prop where
  nodup : taken.Nodup
  marked : Marked table taken

/-- `fill(true)` on a range. -/
def fillSlots (table : List Bool) (start count : ℕ) : List Bool :=
  overwrite table start (List.replicate count true)

@[simp] theorem length_fillSlots (table : List Bool) (start count : ℕ) :
    (fillSlots table start count).length = table.length := length_overwrite _ _ _

section Marks

variable {table : List Bool} {slots taken : List ℕ} {i start count : ℕ}

theorem Marked.lt (h : Marked table slots) (hi : i ∈ slots) : i < table.length :=
  (List.getElem?_eq_some_iff.1 ((h i).2 hi)).1

/-- A slot of the table is free or handed out. -/
theorem Marked.free (h : Marked table slots) (hi : i < table.length) :
    table[i]? = some false ↔ i ∉ slots := by
  rw [← h i, List.getElem?_eq_getElem hi, Option.some.injEq, Option.some.injEq, Bool.not_eq_true]

theorem marked_replicate (n : ℕ) : Marked (List.replicate n false) [] := by
  intro i
  rw [List.getElem?_replicate]
  split_ifs <;> simp

theorem owns_replicate (n : ℕ) : Owns (List.replicate n false) [] := ⟨List.nodup_nil, marked_replicate n⟩

theorem Marked.set (h : Marked table slots) (hi : i < table.length) :
    Marked (table.set i true) (slots ++ [i]) := by
  intro j
  rw [List.getElem?_set, List.mem_append, List.mem_singleton, ← h j]
  by_cases hj : i = j
  · rw [if_pos hj, if_pos hi]
    exact iff_of_true rfl (.inr hj.symm)
  · rw [if_neg hj, or_iff_left (Ne.symm hj)]

theorem Marked.fill (h : Marked table slots) (hend : start + count ≤ table.length) :
    Marked (fillSlots table start count) (slots ++ List.range' start count) := by
  intro j
  rw [List.mem_append, List.mem_range'_1, ← h j, fillSlots]
  by_cases hj : start ≤ j ∧ j < start + count
  · rw [getElem?_overwrite_of_mem hj.1 (by simpa using hj.2) (by omega), List.getElem?_replicate,
      if_pos (by omega)]
    exact iff_of_true rfl (.inr hj)
  · rw [getElem?_overwrite_of_not_mem (by simpa using hj), or_iff_left hj]

theorem Owns.set (h : Owns table taken) (hi : table[i]? = some false) :
    Owns (table.set i true) (taken ++ [i]) := by
  have hlt : i < table.length := (List.getElem?_eq_some_iff.1 hi).1
  refine ⟨List.nodup_append'.2 ⟨h.nodup, List.nodup_singleton i, ?_⟩, h.marked.set hlt⟩
  rw [List.disjoint_singleton]
  exact (h.marked.free hlt).1 hi

theorem Owns.fill (h : Owns table taken) (hend : start + count ≤ table.length)
    (hfree : ∀ i, start ≤ i → i < start + count → table[i]? = some false) :
    Owns (fillSlots table start count) (taken ++ List.range' start count) := by
  refine ⟨List.nodup_append'.2 ⟨h.nodup, List.nodup_range', fun i hi hrange => ?_⟩,
    h.marked.fill hend⟩
  obtain ⟨hlow, hhigh⟩ := List.mem_range'_1.1 hrange
  exact (h.marked.free (by omega)).1 (hfree i hlow hhigh) hi

end Marks

/-! ## The first run of free slots -/

/-- Scans the slots from `index` on with `run` free slots in front of them, up to the slot that makes
the run long enough. -/
def firstRun (count : ℕ) : List Bool → ℕ → ℕ → Option ℕ
  | [], _, _ => none
  | used :: rest, index, run =>
    let run := if used then 0 else run + 1
    if run = count then some index else firstRun count rest (index + 1) run

/-- All slots of the run that ends at `last` are free. -/
def FreeRun (table : List Bool) (count last : ℕ) : Prop :=
  count ≤ last + 1 ∧ ∀ i, last + 1 - count ≤ i → i ≤ last → table[i]? = some false

section Runs

variable {front rest : List Bool} {count run last : ℕ}

/-- The free slots directly in front of a place, `run` of them and no more than that. -/
structure RunBefore (front : List Bool) (run : ℕ) : Prop where
  le : run ≤ front.length
  free : ∀ i, front.length - run ≤ i → i < front.length → front[i]? = some false
  maximal : run < front.length → front[front.length - run - 1]? = some true

theorem RunBefore.nil : RunBefore [] 0 := ⟨le_rfl, fun i _ hi => absurd hi (Nat.not_lt_zero i),
  fun h => absurd h (Nat.not_lt_zero _)⟩

theorem RunBefore.snoc (h : RunBefore front run) (used : Bool) :
    RunBefore (front ++ [used]) (if used then 0 else run + 1) := by
  obtain ⟨hle, hfree, hmax⟩ := h
  cases used with
  | true =>
    refine ⟨Nat.zero_le _, fun i hlow hhigh => ?_, fun _ => ?_⟩
    · rw [if_pos rfl] at hlow
      omega
    · simp
  | false =>
    simp only [Bool.false_eq_true, if_false]
    refine ⟨by simp; omega, fun i hlow hhigh => ?_, fun hlt => ?_⟩
    · simp only [List.length_append, List.length_singleton] at hlow hhigh
      rcases Nat.lt_or_ge i front.length with hi | hi
      · rw [List.getElem?_append_left hi]
        exact hfree i (by omega) hi
      · rw [show i = front.length by omega]
        simp
    · simp only [List.length_append, List.length_singleton] at hlt ⊢
      rw [List.getElem?_append_left (by omega), show front.length + 1 - (run + 1) - 1 =
        front.length - run - 1 by omega]
      exact hmax (by omega)

/-- A run of free slots that ends with the front is no longer than the run in front. -/
theorem RunBefore.le_of_free (h : RunBefore front run) {n : ℕ} (hn : n ≤ front.length)
    (hfree : ∀ i, front.length - n ≤ i → i < front.length → front[i]? = some false) : n ≤ run := by
  by_contra hlt
  have hmax := h.maximal (by omega)
  rw [hfree _ (by omega) (by omega)] at hmax
  cases hmax

theorem firstRun_ok (hrun : RunBefore front run) (hlt : run < count)
    (h : firstRun count rest front.length run = some last) :
    last < (front ++ rest).length ∧ FreeRun (front ++ rest) count last ∧
      ∀ other, front.length ≤ other → other < last → ¬ FreeRun (front ++ rest) count other := by
  induction rest generalizing front run with
  | nil => cases h
  | cons used rest ih =>
    rw [firstRun] at h
    have hnext := hrun.snoc used
    set next := if used then 0 else run + 1 with hnextEq
    have hsplit : front ++ used :: rest = front ++ [used] ++ rest := by simp
    have hat : ∀ i < front.length + 1, (front ++ used :: rest)[i]? = (front ++ [used])[i]? := by
      intro i hi
      rw [hsplit, List.getElem?_append_left (by simpa using hi)]
    split_ifs at h with hfound
    · rw [Option.some.injEq] at h
      subst h
      refine ⟨by simp, ⟨?_, fun i hlow hhigh => ?_⟩, fun other hge hlt' => absurd hge (by omega)⟩
      · have := hnext.le
        simp only [List.length_append, List.length_singleton] at this
        omega
      · rw [hat i (by omega)]
        refine hnext.free i ?_ ?_ <;>
        · simp only [List.length_append, List.length_singleton]
          omega
    · have hle : next ≤ run + 1 := by
        rw [hnextEq]
        split_ifs <;> omega
      have hlength : (front ++ [used]).length = front.length + 1 := by simp
      rw [← hlength] at h
      obtain ⟨hlast, hfree, hfirst⟩ := ih hnext (by omega) h
      rw [hsplit]
      refine ⟨hlast, hfree, fun other hge hother => ?_⟩
      rcases Nat.eq_or_lt_of_le hge with rfl | hgt
      · rintro ⟨hcount, hall⟩
        have := hnext.le_of_free (n := count) (by omega) fun i hlow hhigh => by
          rw [hlength] at hlow hhigh
          rw [← hat i hhigh, hsplit]
          exact hall i (by omega) (by omega)
        omega
      · exact hfirst other (by omega) hother

theorem firstRun_none (hrun : RunBefore front run) (hlt : run < count)
    (h : firstRun count rest front.length run = none) :
    ∀ other, front.length ≤ other → ¬ FreeRun (front ++ rest) count other := by
  induction rest generalizing front run with
  | nil =>
    rintro other hge ⟨hcount, hfree⟩
    have hnone := hfree other (by omega) le_rfl
    rw [List.append_nil, List.getElem?_eq_none hge] at hnone
    cases hnone
  | cons used rest ih =>
    rw [firstRun] at h
    have hnext := hrun.snoc used
    set next := if used then 0 else run + 1 with hnextEq
    have hsplit : front ++ used :: rest = front ++ [used] ++ rest := by simp
    split_ifs at h with hfound
    have hle : next ≤ run + 1 := by
      rw [hnextEq]
      split_ifs <;> omega
    have hlength : (front ++ [used]).length = front.length + 1 := by simp
    rw [← hlength] at h
    have hrest := ih hnext (by omega) h
    rw [hsplit]
    intro other hge
    rcases Nat.eq_or_lt_of_le hge with rfl | hgt
    · rintro ⟨hcount, hall⟩
      have := hnext.le_of_free (n := count) (by omega) fun i hlow hhigh => by
        rw [hlength] at hlow hhigh
        have hi := hall i (by omega) (by omega)
        rwa [List.getElem?_append_left (by omega)] at hi
      omega
    · exact hrest other (by omega)

end Runs

section Search

variable {table : List Bool} {count last : ℕ}

/-- The run that is found is free, and no run of that length ends before it. -/
theorem firstRun_eq_some (hcount : 0 < count) (h : firstRun count table 0 0 = some last) :
    last < table.length ∧ FreeRun table count last ∧ ∀ other < last, ¬ FreeRun table count other := by
  obtain ⟨hlast, hfree, hfirst⟩ := firstRun_ok RunBefore.nil hcount h
  exact ⟨hlast, hfree, fun other hother => hfirst other (Nat.zero_le _) hother⟩

/-- Where no run is found there is none. -/
theorem firstRun_eq_none (hcount : 0 < count) (h : firstRun count table 0 0 = none) (other : ℕ) :
    ¬ FreeRun table count other := firstRun_none RunBefore.nil hcount h other (Nat.zero_le _)

end Search

end Base
