import Mathlib.Data.Finset.Card
import Mathlib.Logic.Relation
import Mathlib.Tactic

/-!
# Bounded walks along a successor

Each place of a chain says where to go on, that the chain stops, or that something is wrong. A walk
that gives up after as many places as there are cannot be told from one that remembers what it has
seen: a chain that goes on for longer visits a place twice and never stops (`nth_isSome_of_card`).
So the bounded walk returns the whole chain, each place once, or ends in an error, and it does the
latter exactly when the chain goes wrong or runs into a cycle (`walk_spec`).
-/

namespace Base

open Relation

/-- What a place of a chain says. -/
inductive Hop (ε α : Type)
  | stop
  | fail (error : ε)
  | next (place : α)

namespace Walk

variable {ε α : Type} (hop : α → Hop ε α)

/-- A walk of at most the given number of places. -/
def walk (tooLong : ε) : ℕ → α → List (Except ε α)
  | 0, _ => [.error tooLong]
  | rounds + 1, a =>
    match hop a with
    | .stop => [.ok a]
    | .fail e => [.error e]
    | .next b => .ok a :: walk tooLong rounds b

/-- The place after a number of hops, while the chain goes on. -/
def nth : ℕ → α → Option α
  | 0, a => some a
  | n + 1, a =>
    match hop a with
    | .next b => nth n b
    | _ => none

/-- The places from one on to the end, by links and by a last place. -/
inductive Path (Next : α → α → Prop) (Last : α → Prop) : α → List α → Prop
  | last {a : α} (h : Last a) : Path Next Last a [a]
  | cons {a b : α} {places : List α} (h : Next a b) (rest : Path Next Last b places) :
    Path Next Last a (a :: places)

/-- The successor of a place. -/
def Next (a b : α) : Prop := hop a = .next b

/-- The last place of a chain. -/
def Last (a : α) : Prop := hop a = .stop

variable {hop} {a b c : α} {m n i j : ℕ} {places : List α}

/-! ## Places along the chain -/

theorem nth_succ_of_next (h : Next hop a b) : nth hop (n + 1) a = nth hop n b := by
  rw [nth, show hop a = .next b from h]

theorem nth_add (h : nth hop m a = some b) : nth hop (m + n) a = nth hop n b := by
  induction m generalizing a with
  | zero =>
    rw [nth, Option.some.injEq] at h
    rw [Nat.zero_add, h]
  | succ m ih =>
    rw [Nat.add_right_comm, nth]
    rw [nth] at h
    split at h
    · rename_i heq
      rw [ih h]
    · cases h

theorem nth_none_mono (h : nth hop m a = none) (hmn : m ≤ n) : nth hop n a = none := by
  induction m generalizing a n with
  | zero => cases h
  | succ m ih =>
    obtain ⟨n, rfl⟩ : ∃ k, n = k + 1 := ⟨n - 1, by omega⟩
    rw [nth] at h ⊢
    split at h
    · exact ih h (by omega)
    · rfl

theorem exists_nth_of_reach (h : ReflTransGen (Next hop) a b) : ∃ n, nth hop n a = some b := by
  induction h using ReflTransGen.head_induction_on with
  | refl => exact ⟨0, rfl⟩
  | head h _ ih =>
    obtain ⟨n, hn⟩ := ih
    exact ⟨n + 1, by rw [nth_succ_of_next h, hn]⟩

theorem reach_of_nth (h : nth hop n a = some b) : ReflTransGen (Next hop) a b := by
  induction n generalizing a with
  | zero =>
    rw [nth, Option.some.injEq] at h
    exact h ▸ .refl
  | succ n ih =>
    rw [nth] at h
    split at h
    · rename_i heq
      exact .head heq (ih h)
    · cases h

theorem exists_nth_of_cycle (h : TransGen (Next hop) a a) : ∃ n, nth hop (n + 1) a = some a := by
  obtain ⟨b, hab, hba⟩ := TransGen.head'_iff.1 h
  obtain ⟨n, hn⟩ := exists_nth_of_reach hba
  exact ⟨n, by rw [nth_succ_of_next hab, hn]⟩

theorem cycle_of_nth (h : nth hop (n + 1) a = some a) : TransGen (Next hop) a a := by
  rw [nth] at h
  split at h
  · rename_i heq
    exact .head' heq (reach_of_nth h)
  · cases h

/-! ## Repetition -/

/-- A chain that comes to one place twice never stops. -/
theorem nth_isSome_of_repeat (hij : i < j) (hi : nth hop i a = some b) (hj : nth hop j a = some b)
    (m : ℕ) : (nth hop m a).isSome := by
  induction m using Nat.strong_induction_on with
  | _ m ih =>
    rcases Nat.lt_or_ge m j with hlt | hge
    · rw [← Option.ne_none_iff_isSome]
      intro hnone
      rw [nth_none_mono hnone hlt.le] at hj
      cases hj
    · -- What stands `m - j` hops behind the second visit stands as far behind the first.
      have hback : nth hop m a = nth hop (i + (m - j)) a := by
        rw [nth_add hi, ← nth_add hj, Nat.add_sub_cancel' hge]
      rw [hback]
      exact ih _ (by omega)

theorem nth_isSome_of_cycle (hab : ReflTransGen (Next hop) a b) (hb : TransGen (Next hop) b b)
    (m : ℕ) : (nth hop m a).isSome := by
  obtain ⟨i, hi⟩ := exists_nth_of_reach hab
  obtain ⟨n, hn⟩ := exists_nth_of_cycle hb
  exact nth_isSome_of_repeat (show i < i + (n + 1) by omega) hi (by rw [nth_add hi, hn]) m

section Finite

variable {s : Finset α}

theorem nth_mem (hs : ∀ b ∈ s, ∀ c, Next hop b c → c ∈ s) (ha : a ∈ s) (h : nth hop n a = some b) :
    b ∈ s := by
  induction n generalizing a with
  | zero =>
    rw [nth, Option.some.injEq] at h
    exact h ▸ ha
  | succ n ih =>
    rw [nth] at h
    split at h
    · rename_i heq
      exact ih (hs _ ha _ heq) h
    · cases h

/-- A chain with more hops than there are places runs into a cycle. -/
theorem cycle_of_card (hs : ∀ b ∈ s, ∀ c, Next hop b c → c ∈ s) (ha : a ∈ s)
    (hn : (nth hop s.card a).isSome) :
    ∃ b, ReflTransGen (Next hop) a b ∧ TransGen (Next hop) b b := by
  have hsome (k : ℕ) (hk : k ≤ s.card) : (nth hop k a).isSome := by
    rw [← Option.ne_none_iff_isSome]
    intro hnone
    rw [nth_none_mono hnone hk] at hn
    cases hn
  have hvisit (k : ℕ) (hk : k ∈ Finset.range (s.card + 1)) : (nth hop k a).getD a ∈ s := by
    obtain ⟨b, hb⟩ := Option.isSome_iff_exists.1
      (hsome k (Nat.lt_succ_iff.1 (Finset.mem_range.1 hk)))
    rw [hb, Option.getD_some]
    exact nth_mem hs ha hb
  obtain ⟨i, hi, j, hj, hne, heq⟩ := Finset.exists_ne_map_eq_of_card_lt_of_maps_to
    (by rw [Finset.card_range]; exact Nat.lt_succ_self _) hvisit
  wlog hij : i < j generalizing i j
  · exact this j hj i hi hne.symm heq.symm (by omega)
  obtain ⟨b, hb⟩ := Option.isSome_iff_exists.1
    (hsome i (Nat.lt_succ_iff.1 (Finset.mem_range.1 hi)))
  obtain ⟨c, hc⟩ := Option.isSome_iff_exists.1
    (hsome j (Nat.lt_succ_iff.1 (Finset.mem_range.1 hj)))
  obtain rfl : b = c := by simpa only [hb, hc, Option.getD_some] using heq
  refine ⟨b, reach_of_nth hb, cycle_of_nth (n := j - i - 1) ?_⟩
  rw [← nth_add hb, ← hc]
  exact congrArg (nth hop · a) (by omega)

end Finite

/-! ## Paths -/

theorem Path.nth_none (h : Path (Next hop) (Last hop) a places) :
    nth hop places.length a = none := by
  induction h with
  | last h => rw [List.length_singleton, nth, show hop _ = .stop from h]
  | cons h _ ih => rw [List.length_cons, nth_succ_of_next h, ih]

theorem Path.getElem? (h : Path (Next hop) (Last hop) a places) (k : ℕ) :
    places[k]? = nth hop k a := by
  induction h generalizing k with
  | last h =>
    cases k with
    | zero => rfl
    | succ k => rw [nth, show hop _ = .stop from h]; rfl
  | cons h _ ih =>
    cases k with
    | zero => rfl
    | succ k => rw [List.getElem?_cons_succ, ih, nth_succ_of_next h]

/-- The walk returns a path that is short enough. -/
theorem walk_of_path (h : Path (Next hop) (Last hop) a places) {tooLong : ε} {rounds : ℕ}
    (hrounds : places.length ≤ rounds) : walk hop tooLong rounds a = places.map .ok := by
  induction h generalizing rounds with
  | last h =>
    obtain ⟨rounds, rfl⟩ := Nat.exists_eq_add_of_le' hrounds
    rw [show rounds + [_].length = rounds + 1 from rfl, walk, show hop _ = .stop from h]
    rfl
  | cons h _ ih =>
    rw [List.length_cons] at hrounds
    obtain ⟨rounds, rfl⟩ : ∃ n, rounds = n + 1 := ⟨rounds - 1, by omega⟩
    rw [walk, show hop _ = .next _ from h, List.map_cons]
    dsimp only
    rw [ih (by omega)]

/-- A chain that stops visits no place twice. -/
theorem Path.nodup (h : Path (Next hop) (Last hop) a places) : places.Nodup := by
  rw [List.nodup_iff_getElem?_ne_getElem?]
  intro i j hij hj heq
  obtain ⟨b, hb⟩ : ∃ b, nth hop j a = some b := by
    rw [← h.getElem? j]
    exact ⟨_, List.getElem?_eq_getElem hj⟩
  rw [h.getElem?, h.getElem?, hb] at heq
  have hsome := nth_isSome_of_repeat hij heq hb places.length
  rw [h.nth_none] at hsome
  cases hsome

theorem Path.reach (h : Path (Next hop) (Last hop) a places) (hb : b ∈ places) :
    ReflTransGen (Next hop) a b := by
  obtain ⟨k, hk⟩ := List.getElem?_of_mem hb
  rw [h.getElem?] at hk
  exact reach_of_nth hk

theorem Path.mem_of_reach (h : Path (Next hop) (Last hop) a places)
    (hb : ReflTransGen (Next hop) a b) : b ∈ places := by
  obtain ⟨n, hn⟩ := exists_nth_of_reach hb
  rw [← h.getElem?] at hn
  exact List.mem_of_getElem? hn

/-- No place of a chain that stops is faulty. -/
theorem Path.hop_ne_fail (h : Path (Next hop) (Last hop) a places) {e : ε} (hb : b ∈ places) :
    hop b ≠ .fail e := by
  induction h with
  | last h =>
    obtain rfl := List.mem_singleton.1 hb
    rw [show hop _ = .stop from h]
    exact nofun
  | cons h _ ih =>
    rcases List.mem_cons.1 hb with rfl | hb
    · rw [show hop _ = .next _ from h]
      exact nofun
    · exact ih hb

/-! ## The bounded walk -/

theorem length_walk_le (tooLong : ε) (rounds : ℕ) (a : α) :
    (walk hop tooLong rounds a).length ≤ rounds + 1 := by
  induction rounds generalizing a with
  | zero => exact le_rfl
  | succ rounds ih =>
    rw [walk]
    split
    · exact Nat.succ_le_succ (Nat.zero_le _)
    · exact Nat.succ_le_succ (Nat.zero_le _)
    · exact Nat.succ_le_succ (ih _)

/-- A walk follows the chain to its end, meets a fault, or is given up while the chain goes on. -/
theorem walk_cases (tooLong : ε) (rounds : ℕ) (a : α) :
    (∃ places : List α, walk hop tooLong rounds a = places.map .ok ∧ Path (Next hop) (Last hop) a places) ∨
      ∃ (places : List α) (e : ε), walk hop tooLong rounds a = places.map .ok ++ [.error e] ∧
        ((∃ b, ReflTransGen (Next hop) a b ∧ hop b = .fail e) ∨ (nth hop rounds a).isSome) := by
  induction rounds generalizing a with
  | zero => exact .inr ⟨[], tooLong, rfl, .inr rfl⟩
  | succ rounds ih =>
    rw [walk]
    split
    · rename_i heq
      exact .inl ⟨[a], rfl, .last heq⟩
    · rename_i e heq
      exact .inr ⟨[], e, rfl, .inl ⟨a, .refl, heq⟩⟩
    · rename_i b heq
      rcases ih b with ⟨places, hw, hp⟩ | ⟨places, e, hw, hcause⟩
      · exact .inl ⟨a :: places, by rw [hw, List.map_cons], .cons heq hp⟩
      · refine .inr ⟨a :: places, e, by rw [hw, List.map_cons, List.cons_append], ?_⟩
        rcases hcause with ⟨c, hbc, hc⟩ | hsome
        · exact .inl ⟨c, .head heq hbc, hc⟩
        · exact .inr (by rwa [nth_succ_of_next heq])

/-- **The bounded walk.** Given as many rounds as there are places, a walk returns the whole chain,
or places and one error behind them; the error comes exactly when the chain meets a fault or a cycle. -/
theorem walk_spec {s : Finset α} (hs : ∀ b ∈ s, ∀ c, Next hop b c → c ∈ s) (ha : a ∈ s)
    (tooLong : ε) :
    (∃ places : List α, walk hop tooLong s.card a = places.map .ok ∧ Path (Next hop) (Last hop) a places ∧
        (¬ ∃ b e, ReflTransGen (Next hop) a b ∧ hop b = .fail e) ∧
        ¬ ∃ b, ReflTransGen (Next hop) a b ∧ TransGen (Next hop) b b) ∨
      ∃ (places : List α) (e : ε), walk hop tooLong s.card a = places.map .ok ++ [.error e] ∧
        ((∃ b e, ReflTransGen (Next hop) a b ∧ hop b = .fail e) ∨
          ∃ b, ReflTransGen (Next hop) a b ∧ TransGen (Next hop) b b) := by
  rcases walk_cases tooLong s.card a with ⟨places, hw, hp⟩ | ⟨places, e, hw, hcause⟩
  · refine .inl ⟨places, hw, hp, ?_, ?_⟩
    · rintro ⟨b, e, hab, hb⟩
      exact hp.hop_ne_fail (hp.mem_of_reach hab) hb
    · rintro ⟨b, hab, hb⟩
      have hsome := nth_isSome_of_cycle hab hb places.length
      rw [hp.nth_none] at hsome
      cases hsome
  · refine .inr ⟨places, e, hw, ?_⟩
    rcases hcause with ⟨b, hab, hb⟩ | hsome
    · exact .inl ⟨b, e, hab, hb⟩
    · exact .inr (cycle_of_card hs ha hsome)

end Walk

end Base
