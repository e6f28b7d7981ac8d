import Mathlib.Tactic
import Mathlib.Data.List.Sort

/-!
# Checked machine arithmetic and fallible checks

Unsigned 64-bit words are natural numbers whose sums are checked against `wordBound`. Fallible code
is `Except`; the lemmas here invert a successful `do` block into the facts its checks established,
one per check (`bind_ok_iff`, `ensure_ok_iff`, `orErr_ok_iff`), and turn loops of checks into
statements about every element (`checkAll_ok_iff`) or every adjacent pair (`checkPairs_ok_iff`).
-/

namespace Base

/-- The number of values of a 64-bit word. -/
def wordBound : ℕ := 2 ^ 64

theorem wordBound_pos : 0 < wordBound := by unfold wordBound; positivity

/-- `checked_add` of two 64-bit words. -/
def checkedAdd (a b : ℕ) : Option ℕ := if a + b < wordBound then some (a + b) else none

/-- `checked_sub` of two words. -/
def checkedSub (a b : ℕ) : Option ℕ := if b ≤ a then some (a - b) else none

/-- `saturating_add` of two 64-bit words. -/
def saturatingAdd (a b : ℕ) : ℕ := min (a + b) (wordBound - 1)

@[simp] theorem checkedAdd_eq_some {a b c : ℕ} :
    checkedAdd a b = some c ↔ a + b < wordBound ∧ a + b = c := by
  unfold checkedAdd; split <;> simp_all

@[simp] theorem checkedSub_eq_some {a b c : ℕ} :
    checkedSub a b = some c ↔ b ≤ a ∧ a - b = c := by
  unfold checkedSub; split <;> simp_all

theorem checkedAdd_of_lt {a b : ℕ} (h : a + b < wordBound) : checkedAdd a b = some (a + b) :=
  checkedAdd_eq_some.2 ⟨h, rfl⟩

theorem checkedSub_of_le {a b : ℕ} (h : b ≤ a) : checkedSub a b = some (a - b) :=
  checkedSub_eq_some.2 ⟨h, rfl⟩

theorem saturatingAdd_le (a b : ℕ) : saturatingAdd a b ≤ a + b := min_le_left _ _

section Except

variable {ε α β : Type}

/-- `ok_or`: a missing value is the given error. -/
def orErr (o : Option α) (e : ε) : Except ε α :=
  match o with
  | some a => .ok a
  | none => .error e

/-- An early return of the error `e` unless `c` holds. -/
def ensure (c : Prop) [Decidable c] (e : ε) : Except ε Unit := if c then .ok () else .error e

@[simp] theorem pure_eq_ok (a : α) : (pure a : Except ε α) = .ok a := rfl

@[simp] theorem bind_ok_iff {x : Except ε α} {f : α → Except ε β} {b : β} :
    (x >>= f) = .ok b ↔ ∃ a, x = .ok a ∧ f a = .ok b := by
  cases x with
  | error e => simp [bind, Except.bind]
  | ok a => simp [bind, Except.bind]

@[simp high] theorem bind_unit_ok_iff {x : Except ε Unit} {f : Unit → Except ε β} {b : β} :
    (x >>= f) = .ok b ↔ x = .ok () ∧ f () = .ok b := by
  cases x with
  | error e => simp [bind, Except.bind]
  | ok a => simp [bind, Except.bind]

@[simp] theorem map_ok_iff {x : Except ε α} {f : α → β} {b : β} :
    (f <$> x) = .ok b ↔ ∃ a, x = .ok a ∧ f a = b := by
  cases x with
  | error e => simp [Functor.map, Except.map]
  | ok a => simp [Functor.map, Except.map]

@[simp] theorem ok_bind (a : α) (f : α → Except ε β) : ((.ok a : Except ε α) >>= f) = f a := rfl

@[simp] theorem error_bind (e : ε) (f : α → Except ε β) :
    ((.error e : Except ε α) >>= f) = .error e := rfl

@[simp] theorem orErr_ok_iff {o : Option α} {e : ε} {a : α} : orErr o e = .ok a ↔ o = some a := by
  cases o <;> simp [orErr]

@[simp] theorem orErr_some {a : α} {e : ε} : orErr (some a) e = .ok a := rfl

@[simp] theorem mapError_ok_iff {ε' : Type} {x : Except ε α} {f : ε → ε'} {a : α} :
    x.mapError f = .ok a ↔ x = .ok a := by
  cases x <;> simp [Except.mapError]

@[simp] theorem ensure_ok_iff {c : Prop} {_ : Decidable c} {e : ε} {u : Unit} :
    ensure c e = .ok u ↔ c := by
  unfold ensure; split <;> simp_all

/-- Computations that return the same values agree up to their errors. -/
theorem toOption_eq_of_ok_iff {x y : Except ε α} (h : ∀ a, x = .ok a ↔ y = .ok a) :
    x.toOption = y.toOption := by
  cases x with
  | ok a => rw [(h a).1 rfl]
  | error e =>
    cases y with
    | ok a => cases (h a).2 rfl
    | error e' => rfl

theorem ensure_of {c : Prop} {_ : Decidable c} {e : ε} (h : c) : ensure c e = .ok () :=
  ensure_ok_iff.2 h

theorem ensure_of_not {c : Prop} {_ : Decidable c} {e : ε} (h : ¬ c) : ensure c e = .error e := by
  unfold ensure; rw [if_neg h]

/-- The value of a computation that succeeds. -/
def okValue (x : Except ε α) (h : x.toOption.isSome = true) : α := x.toOption.get h

theorem eq_okValue {x : Except ε α} (h : x.toOption.isSome = true) : x = .ok (okValue x h) := by
  cases x with
  | error e => simp [Except.toOption] at h
  | ok a => rfl

/-- Runs a check over every element in order, stopping at the first failure. -/
def checkAll (f : α → Except ε Unit) : List α → Except ε Unit
  | [] => .ok ()
  | a :: rest => do
    f a
    checkAll f rest

theorem checkAll_ok_iff {f : α → Except ε Unit} {l : List α} {u : Unit} :
    checkAll f l = .ok u ↔ ∀ a ∈ l, f a = .ok () := by
  induction l with
  | nil => simp [checkAll]
  | cons a rest ih => simp [checkAll, ih]

/-- Runs a check over every window of two adjacent elements in order. -/
def checkPairs (f : α → α → Except ε Unit) : List α → Except ε Unit
  | a :: b :: rest => do
    f a b
    checkPairs f (b :: rest)
  | _ => .ok ()

theorem checkPairs_ok_iff {f : α → α → Except ε Unit} {l : List α} {u : Unit} :
    checkPairs f l = .ok u ↔ List.IsChain (fun a b => f a b = .ok ()) l := by
  induction l with
  | nil => simp [checkPairs]
  | cons a rest ih =>
    cases rest with
    | nil => simp [checkPairs]
    | cons b rest => simp [checkPairs, ih]

/-- Adds words one after another, failing with `e` at the first overflow. -/
def sumChecked (e : ε) : ℕ → List ℕ → Except ε ℕ
  | total, [] => .ok total
  | total, n :: rest => do
    let next ← orErr (checkedAdd total n) e
    sumChecked e next rest

theorem sumChecked_ok_iff {e : ε} {total r : ℕ} {l : List ℕ} (ht : total < wordBound) :
    sumChecked e total l = .ok r ↔ total + l.sum < wordBound ∧ r = total + l.sum := by
  induction l generalizing total with
  | nil => simp [sumChecked, ht, eq_comm]
  | cons n rest ih =>
    simp only [sumChecked, bind_ok_iff, orErr_ok_iff, checkedAdd_eq_some, List.sum_cons]
    constructor
    · rintro ⟨a, ⟨h, rfl⟩, hr⟩
      rw [ih h] at hr
      rw [← Nat.add_assoc]
      exact hr
    · rintro ⟨h, hr⟩
      have hn : total + n < wordBound := by omega
      refine ⟨total + n, ⟨hn, rfl⟩, (ih hn).2 ⟨by omega, by omega⟩⟩

end Except

section Sorting

variable {α κ : Type*} [LinearOrder κ]

/-- Sorting by a key, as `sort_unstable_by_key` does when no two keys are equal. -/
def sortByKey (key : α → κ) (l : List α) : List α := l.insertionSort (fun a b => key a ≤ key b)

theorem sortByKey_perm (key : α → κ) (l : List α) : (sortByKey key l).Perm l :=
  List.perm_insertionSort _ l

@[simp] theorem mem_sortByKey {key : α → κ} {l : List α} {a : α} :
    a ∈ sortByKey key l ↔ a ∈ l := (sortByKey_perm key l).mem_iff

@[simp] theorem length_sortByKey (key : α → κ) (l : List α) :
    (sortByKey key l).length = l.length := (sortByKey_perm key l).length_eq

theorem sortByKey_sorted (key : α → κ) (l : List α) :
    (sortByKey key l).Pairwise (fun a b => key a ≤ key b) := by
  have : Std.Total (fun a b : α => key a ≤ key b) := ⟨fun a b => le_total _ _⟩
  have : IsTrans α (fun a b : α => key a ≤ key b) := ⟨fun _ _ _ => le_trans⟩
  exact List.pairwise_insertionSort _ l

/-- What a sort by `key` may leave of `l`, in whatever order equal keys come. -/
structure SortedBy (key : α → κ) (l s : List α) : Prop where
  perm : s.Perm l
  sorted : s.Pairwise fun a b => key a ≤ key b

theorem sortedBy_sortByKey (key : α → κ) (l : List α) : SortedBy key l (sortByKey key l) :=
  ⟨sortByKey_perm key l, sortByKey_sorted key l⟩

/-- Sorts of permuted lists agree when no two elements share a key. -/
theorem SortedBy.eq {key : α → κ} {l l' s s' : List α} (h : SortedBy key l s)
    (h' : SortedBy key l' s') (hperm : l'.Perm l)
    (hinj : ∀ a ∈ l, ∀ b ∈ l, key a = key b → a = b) : s' = s := by
  have hss : s'.Perm s := (h'.perm.trans hperm).trans h.perm.symm
  refine List.Perm.eq_of_pairwise (fun a b ha hb hab hba => ?_) h'.sorted h.sorted hss
  exact hinj a ((hss.trans h.perm).mem_iff.1 ha) b (h.perm.mem_iff.1 hb) (le_antisymm hab hba)

/-- A check of adjacent elements of a sorted list decides a symmetric property of all pairs, when the
check is transitive along the order and says the same as the property there. -/
theorem SortedBy.isChain_iff {key : α → κ} {S R : α → α → Prop} {l s : List α}
    (h : SortedBy key l s) (hsymm : ∀ a b, R a b → R b a)
    (hS : ∀ a ∈ l, ∀ b ∈ l, key a ≤ key b → (S a b ↔ R a b))
    (htrans : ∀ a ∈ l, ∀ b ∈ l, ∀ c ∈ l, key a ≤ key b → key b ≤ key c → S a b → S b c → S a c) :
    List.IsChain S s ↔ l.Pairwise R := by
  have hpair : ∀ s : List α, (∀ a ∈ s, a ∈ l) → s.Pairwise (fun a b => key a ≤ key b) →
      List.IsChain S s → s.Pairwise S := by
    intro s
    induction s with
    | nil => exact fun _ _ _ => List.Pairwise.nil
    | cons a s ih =>
      intro hmem hsort hchain
      have hs := ih (fun b hb => hmem b (by simp [hb])) (List.pairwise_cons.1 hsort).2 hchain.tail
      refine List.pairwise_cons.2 ⟨fun c hc => ?_, hs⟩
      cases s with
      | nil => simp at hc
      | cons b s =>
        have hab : S a b := List.IsChain.rel hchain
        rcases List.mem_cons.1 hc with rfl | hcs
        · exact hab
        · exact htrans a (hmem a (by simp)) b (hmem b (by simp)) c (hmem c (by simp [hcs]))
            ((List.pairwise_cons.1 hsort).1 b (by simp))
            ((List.pairwise_cons.1 (List.pairwise_cons.1 hsort).2).1 c hcs)
            hab ((List.pairwise_cons.1 hs).1 c hcs)
  have hmem : ∀ a ∈ s, a ∈ l := fun a ha => h.perm.mem_iff.1 ha
  rw [← h.perm.pairwise_iff fun h => hsymm _ _ h]
  constructor
  · intro hchain
    refine ((hpair _ hmem h.sorted hchain).and h.sorted).imp_of_mem fun ha hb h => ?_
    exact (hS _ (hmem _ ha) _ (hmem _ hb) h.2).1 h.1
  · intro hR
    refine List.Pairwise.isChain ((hR.and h.sorted).imp_of_mem fun ha hb h => ?_)
    exact (hS _ (hmem _ ha) _ (hmem _ hb) h.2).2 h.1
theorem isChain_sortByKey_iff {key : α → κ} {S R : α → α → Prop} {l : List α}
    (hsymm : ∀ a b, R a b → R b a)
    (hS : ∀ a ∈ l, ∀ b ∈ l, key a ≤ key b → (S a b ↔ R a b))
    (htrans : ∀ a ∈ l, ∀ b ∈ l, ∀ c ∈ l, key a ≤ key b → key b ≤ key c → S a b → S b c → S a c) :
    List.IsChain S (sortByKey key l) ↔ l.Pairwise R :=
  (sortedBy_sortByKey key l).isChain_iff hsymm hS htrans

/-- Comparing neighbours of the sorted list finds every duplicate. -/
theorem checkPairs_ne_ok_iff {ε : Type} {κ : Type} [LinearOrder κ] {e : κ → κ → ε} {l : List κ}
    {u : Unit} :
    checkPairs (fun first second => ensure (first ≠ second) (e first second)) (sortByKey id l) =
      .ok u ↔ l.Nodup := by
  rw [checkPairs_ok_iff]
  simp only [ensure_ok_iff]
  refine isChain_sortByKey_iff (R := fun a b => a ≠ b) (fun _ _ h => h.symm)
    (fun _ _ _ _ _ => Iff.rfl) ?_
  intro a _ b _ c _ hab hbc h1 _ hac
  subst hac
  exact h1 (le_antisymm hab hbc)

theorem sortByKey_eq_self {key : α → κ} {l : List α} (h : l.Pairwise (fun a b => key a ≤ key b)) :
    sortByKey key l = l :=
  List.Pairwise.insertionSort_eq h

end Sorting

end Base
