import Mathlib.Data.List.GetD
import Mathlib.Tactic

/-!
# Literals and back-references

A text as a sequence of literals and of copies from the text produced so far; a copy may overlap what
it produces. `copyFrom` copies inside a buffer element by element, as decoders do; on a buffer that
starts with the text produced so far it performs the copy (`copyFrom_append`). What stands in front of
the text does not matter (`expand_append`).
-/

namespace Base

variable {α : Type}

/-- An element of the text, or a copy of the `length` elements from `offset` places back on. -/
inductive Token (α : Type)
  | literal (a : α)
  | copy (offset length : ℕ)
  deriving DecidableEq

namespace Token

def isCopy : Token α → Bool
  | literal _ => false
  | copy _ _ => true

/-- How many elements a token produces. -/
def size : Token α → ℕ
  | literal _ => 1
  | copy _ length => length

end Token

/-- How many elements a sequence of tokens produces. -/
def tokensSize (tokens : List (Token α)) : ℕ := (tokens.map Token.size).sum

/-- Every token satisfies `P` at the length it is expanded at. -/
def Along (P : ℕ → Token α → Prop) : ℕ → List (Token α) → Prop
  | _, [] => True
  | n, token :: tokens => P n token ∧ Along P (n + token.size) tokens

instance decidableAlong (P : ℕ → Token α → Prop) [∀ n t, Decidable (P n t)] :
    ∀ n tokens, Decidable (Along P n tokens)
  | _, [] => .isTrue trivial
  | n, token :: tokens =>
    have := decidableAlong P (n + token.size) tokens
    inferInstanceAs (Decidable (P n token ∧ Along P (n + token.size) tokens))

@[simp] theorem tokensSize_nil : tokensSize ([] : List (Token α)) = 0 := rfl

@[simp] theorem tokensSize_cons (token : Token α) (tokens : List (Token α)) :
    tokensSize (token :: tokens) = token.size + tokensSize tokens := rfl

theorem tokensSize_append (tokens more : List (Token α)) :
    tokensSize (tokens ++ more) = tokensSize tokens + tokensSize more := by
  rw [tokensSize, List.map_append, List.sum_append]
  rfl

theorem along_append {P : ℕ → Token α → Prop} {n : ℕ} {tokens more : List (Token α)} :
    Along P n (tokens ++ more) ↔ Along P n tokens ∧ Along P (n + tokensSize tokens) more := by
  induction tokens generalizing n with
  | nil => simp [Along]
  | cons token tokens ih =>
    rw [List.cons_append, Along, Along, ih, tokensSize_cons, ← Nat.add_assoc, and_assoc]

/-- Writing the element after a text. -/
theorem set_append_length {out rest : List α} {a : α} (h : rest ≠ []) :
    (out ++ rest).set out.length a = (out ++ [a]) ++ rest.tail := by
  obtain ⟨b, rest, rfl⟩ := List.exists_cons_of_ne_nil h
  rw [List.set_append_right _ _ le_rfl, Nat.sub_self, List.set_cons_zero, List.tail_cons,
    List.append_assoc]
  rfl

section Expansion

variable [Inhabited α]

/-- Repeats `length` times the element that stands `offset` places before the end. -/
def copyBack (offset : ℕ) : ℕ → List α → List α
  | 0, out => out
  | length + 1, out => copyBack offset length (out ++ [out.getD (out.length - offset) default])

def expandToken (out : List α) : Token α → List α
  | .literal a => out ++ [a]
  | .copy offset length => copyBack offset length out

/-- The text a sequence of tokens produces behind `out`. -/
def expand (out : List α) (tokens : List (Token α)) : List α := tokens.foldl expandToken out

@[simp] theorem expand_nil (out : List α) : expand out [] = out := rfl

@[simp] theorem expand_cons (out : List α) (token : Token α) (tokens : List (Token α)) :
    expand out (token :: tokens) = expand (expandToken out token) tokens := rfl

theorem expand_expand (out : List α) (tokens more : List (Token α)) :
    expand (expand out tokens) more = expand out (tokens ++ more) := by
  rw [expand, expand, expand, List.foldl_append]

@[simp] theorem length_copyBack (offset length : ℕ) (out : List α) :
    (copyBack offset length out).length = out.length + length := by
  induction length generalizing out with
  | zero => rfl
  | succ length ih =>
    rw [copyBack, ih, List.length_append, List.length_singleton]
    omega

@[simp] theorem length_expandToken (out : List α) (token : Token α) :
    (expandToken out token).length = out.length + token.size := by
  cases token with
  | literal a => simp [expandToken, Token.size]
  | copy offset length => exact length_copyBack offset length out

theorem prefix_copyBack (offset length : ℕ) (out : List α) : out <+: copyBack offset length out := by
  induction length generalizing out with
  | zero => exact List.prefix_rfl
  | succ length ih => exact (List.prefix_append _ _).trans (ih _)

theorem prefix_expandToken (out : List α) (token : Token α) : out <+: expandToken out token := by
  cases token with
  | literal a => exact List.prefix_append _ _
  | copy offset length => exact prefix_copyBack offset length out

theorem prefix_expand (out : List α) (tokens : List (Token α)) : out <+: expand out tokens := by
  induction tokens generalizing out with
  | nil => exact List.prefix_rfl
  | cons token tokens ih => exact (prefix_expandToken out token).trans (ih _)

theorem length_expand (out : List α) (tokens : List (Token α)) :
    (expand out tokens).length = out.length + tokensSize tokens := by
  induction tokens generalizing out with
  | nil => rfl
  | cons token tokens ih =>
    simp only [expand_cons, ih, length_expandToken, tokensSize, List.map_cons, List.sum_cons,
      Nat.add_assoc]

/-- A copy that starts inside the text does not see what stands in front of it. -/
theorem copyBack_append {front out : List α} {offset length : ℕ} (h : offset ≤ out.length) :
    copyBack offset length (front ++ out) = front ++ copyBack offset length out := by
  induction length generalizing out with
  | zero => rfl
  | succ length ih =>
    have hget : (front ++ out).getD ((front ++ out).length - offset) default =
        out.getD (out.length - offset) default := by
      rw [List.length_append, List.getD_append_right _ _ _ _ (by omega)]
      congr 1
      omega
    rw [copyBack, copyBack, hget, List.append_assoc, ih]
    rw [List.length_append]
    omega

/-! ## Copying inside a buffer -/

/-- Copies `n` elements, one after the other, from `source` to `destination`. -/
def copyFrom (buffer : List α) : ℕ → ℕ → ℕ → List α
  | _, _, 0 => buffer
  | destination, source, n + 1 =>
    copyFrom (buffer.set destination (buffer.getD source default)) (destination + 1) (source + 1) n

@[simp] theorem length_copyFrom (buffer : List α) (destination source n : ℕ) :
    (copyFrom buffer destination source n).length = buffer.length := by
  induction n generalizing buffer destination source with
  | zero => rfl
  | succ n ih => rw [copyFrom, ih, List.length_set]

theorem copyFrom_append {out rest : List α} {offset n : ℕ} (h1 : 1 ≤ offset)
    (h : offset ≤ out.length) (hn : n ≤ rest.length) :
    copyFrom (out ++ rest) out.length (out.length - offset) n =
      copyBack offset n out ++ rest.drop n := by
  induction n generalizing out rest with
  | zero => rfl
  | succ n ih =>
    have hne : rest ≠ [] := by
      rintro rfl
      simp at hn
    have hget : (out ++ rest).getD (out.length - offset) default =
        out.getD (out.length - offset) default := List.getD_append _ _ _ _ (by omega)
    rw [copyFrom, hget, set_append_length hne, copyBack]
    have hlen : (out ++ [out.getD (out.length - offset) default]).length = out.length + 1 := by
      rw [List.length_append, List.length_singleton]
    have h := @ih (out ++ [out.getD (out.length - offset) default]) rest.tail
      (by omega) (by rw [List.length_tail]; omega)
    rw [hlen, show out.length + 1 - offset = out.length - offset + 1 by omega] at h
    rw [h, List.drop_tail]

end Expansion

end Base
