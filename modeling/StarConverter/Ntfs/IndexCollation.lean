import StarConverter.Ntfs.IndexSerialize

/-!
# Filename collation

Names are ordered by their up-cased units, then by their length, then by the units themselves. This is
the lexicographic order of the up-cased names refined by that of the names (`collateNames_eq`), so it
is a strict total order (`collateNames_strict`). Entries with distinct names sort to the same list in
whatever order they come (`sortEntries_eq_of_perm`).
-/

namespace StarConverter

open Base

namespace Ntfs

section Collation

variable (upcase : List UInt16)

theorem then_length_raw (left right : List UInt16) :
    (compare left.length right.length).then (collateRaw left right) =
      (compare left.length right.length).then (compare left right) := by
  induction left generalizing right with
  | nil => cases right <;> rfl
  | cons l left ih =>
    cases right with
    | nil => rfl
    | cons r right =>
      have hlength : compare (l :: left).length (r :: right).length =
          compare left.length right.length := by
        simp only [List.length_cons, Nat.compare_eq_ite_lt, Nat.succ_lt_succ_iff]
      rw [hlength, collateRaw, List.compare_cons_cons]
      have h := ih right
      generalize compare left.length right.length = c at h ⊢
      cases c with
      | eq => rw [show collateRaw left right = compare left right from h]
      | lt => rfl
      | gt => rfl

/-- Collation is the lexicographic order of the up-cased names, then of the names. -/
theorem collateNames_eq (left right : List UInt16) :
    collateNames left right upcase =
      compareLex (compareOn (List.map (upcaseUnit upcase))) compare left right := by
  have hupcased : (collateUpcased upcase left right).then (compare left.length right.length) =
      compare (left.map (upcaseUnit upcase)) (right.map (upcaseUnit upcase)) := by
    induction left generalizing right with
    | nil => cases right <;> rfl
    | cons l left ih =>
      cases right with
      | nil => rfl
      | cons r right =>
        have hlength : compare (l :: left).length (r :: right).length =
            compare left.length right.length := by
          simp only [List.length_cons, Nat.compare_eq_ite_lt, Nat.succ_lt_succ_iff]
        rw [List.map_cons, List.map_cons, List.compare_cons_cons, ← ih, hlength, collateUpcased,
          Ordering.then_assoc]
  rw [collateNames, then_length_raw, ← Ordering.then_assoc, hupcased]
  rfl

instance : Std.TransCmp fun left right => collateNames left right upcase := by
  have h : (fun left right => collateNames left right upcase) =
      compareLex (compareOn (List.map (upcaseUnit upcase))) compare :=
    funext₂ (collateNames_eq upcase)
  rw [h]
  infer_instance

theorem eq_of_collateNames {left right : List UInt16} (h : collateNames left right upcase = .eq) :
    left = right := by
  rw [collateNames_eq, compareLex_eq_eq] at h
  exact Std.LawfulEqOrd.eq_of_compare h.2

theorem collateNames_self (name : List UInt16) : collateNames name name upcase = .eq :=
  @Std.ReflCmp.compare_self _ (fun left right => collateNames left right upcase) _ name

theorem collateNames_swap (left right : List UInt16) :
    collateNames left right upcase = (collateNames right left upcase).swap :=
  @Std.OrientedCmp.eq_swap _ (fun left right => collateNames left right upcase) _ left right

theorem collateNames_trans {a b c : List UInt16} (hab : collateNames a b upcase = .lt)
    (hbc : collateNames b c upcase = .lt) : collateNames a c upcase = .lt :=
  @Std.TransCmp.lt_trans _ (fun left right => collateNames left right upcase) _ a b c hab hbc

/-- Collation is a strict total order on names. -/
theorem collateNames_strict :
    IsStrictTotalOrder (List UInt16) fun left right => collateNames left right upcase = .lt where
  trichotomous a b hab hba := by
    refine eq_of_collateNames upcase ?_
    cases hcase : collateNames a b upcase with
    | eq => rfl
    | lt => exact absurd hcase hab
    | gt =>
      refine absurd ?_ hba
      rw [collateNames_swap, hcase, Ordering.swap_gt]
  irrefl a h := by
    rw [collateNames_self] at h
    cases h
  trans _ _ _ := collateNames_trans upcase

/-! ## Sorting -/

/-- Entries in strictly ascending collation order. -/
def Collated (entries : List NtfsDirectoryIndexEntry) : Prop :=
  entries.Pairwise fun first second => collateNames first.name second.name upcase = .lt

variable {upcase}

theorem Collated.eq {l l' : List NtfsDirectoryIndexEntry} (h : Collated upcase l)
    (h' : Collated upcase l') (hperm : l.Perm l') : l = l' := by
  refine hperm.eq_of_pairwise (fun a b _ _ hab hba => ?_) h h'
  have haa := collateNames_trans upcase hab hba
  rw [collateNames_self] at haa
  cases haa

theorem Collated.nodup {l : List NtfsDirectoryIndexEntry} (h : Collated upcase l) : l.Nodup := by
  refine h.imp fun {a b} hab heq => ?_
  rw [heq, collateNames_self] at hab
  cases hab

theorem map_snd_enumerate (entries : List NtfsDirectoryIndexEntry) :
    (enumerate entries).map Prod.snd = entries := by
  rw [enumerate, List.map_map]
  exact List.zipIdx_map_fst 0 entries

theorem sortEntries_perm (entries : List NtfsDirectoryIndexEntry) :
    ((sortEntries entries upcase).map Prod.snd).Perm entries := by
  conv_rhs => rw [← map_snd_enumerate entries]
  exact (List.perm_insertionSort _ _).map _

theorem sortEntries_sorted (entries : List NtfsDirectoryIndexEntry) :
    (sortEntries entries upcase).Pairwise fun left right =>
      collateNames left.2.name right.2.name upcase ≠ .gt := by
  have htotal : Std.Total fun left right : ℕ × NtfsDirectoryIndexEntry =>
      collateNames left.2.name right.2.name upcase ≠ .gt := by
    refine ⟨fun a b => ?_⟩
    rw [collateNames_swap upcase b.2.name]
    cases collateNames a.2.name b.2.name upcase <;> decide
  have htrans : IsTrans (ℕ × NtfsDirectoryIndexEntry) fun left right =>
      collateNames left.2.name right.2.name upcase ≠ .gt := by
    refine ⟨fun a b c hab hbc => ?_⟩
    have hac := @Std.TransCmp.isLE_trans _ (fun l r => collateNames l r upcase) _ _ _ _
      (Ordering.ne_gt_iff_isLE.1 hab) (Ordering.ne_gt_iff_isLE.1 hbc)
    exact Ordering.ne_gt_iff_isLE.2 hac
  exact List.pairwise_insertionSort _ _

/-- Comparing neighbours of the sorted entries finds every pair of names that collate equal. -/
theorem checkPairs_collation_iff {sorted : List (ℕ × NtfsDirectoryIndexEntry)} {u : Unit}
    (hsorted : sorted.Pairwise fun left right =>
      collateNames left.2.name right.2.name upcase ≠ .gt) :
    checkPairs (fun first second =>
      ensure (collateNames first.2.name second.2.name upcase ≠ .eq)
        (NtfsDirectoryIndexError.collationCollision first.1 second.1)) sorted = .ok u ↔
      Collated upcase (sorted.map Prod.snd) := by
  rw [checkPairs_ok_iff, Collated, List.pairwise_map]
  simp only [ensure_ok_iff]
  have hlt : ∀ a b : ℕ × NtfsDirectoryIndexEntry, collateNames a.2.name b.2.name upcase ≠ .gt →
      collateNames a.2.name b.2.name upcase ≠ .eq →
      collateNames a.2.name b.2.name upcase = .lt := by
    intro a b
    cases collateNames a.2.name b.2.name upcase <;> simp
  constructor
  · intro hchain
    have htrans : IsTrans (ℕ × NtfsDirectoryIndexEntry) fun a b =>
        collateNames a.2.name b.2.name upcase = .lt := ⟨fun _ _ _ => collateNames_trans upcase⟩
    refine List.isChain_iff_pairwise.1 ?_
    induction sorted with
    | nil => exact List.isChain_nil
    | cons a rest ih =>
      cases rest with
      | nil => exact List.isChain_singleton _
      | cons b rest =>
        rw [List.isChain_cons_cons] at hchain ⊢
        rw [List.pairwise_cons] at hsorted
        exact ⟨hlt a b (hsorted.1 b List.mem_cons_self) hchain.1, ih hsorted.2 hchain.2⟩
  · intro h
    exact (h.imp fun {a b} hab => by rw [hab]; decide).isChain

/-- Distinct names in two orders sort to the same entries. -/
theorem sortEntries_eq_of_perm {entries entries' : List NtfsDirectoryIndexEntry}
    (hperm : entries'.Perm entries)
    (h : Collated upcase ((sortEntries entries upcase).map Prod.snd)) :
    (sortEntries entries' upcase).map Prod.snd = (sortEntries entries upcase).map Prod.snd := by
  have hperm' : ((sortEntries entries' upcase).map Prod.snd).Perm
      ((sortEntries entries upcase).map Prod.snd) :=
    (sortEntries_perm entries').trans (hperm.trans (sortEntries_perm entries).symm)
  have hne : ((sortEntries entries' upcase).map Prod.snd).Pairwise fun a b =>
      collateNames a.name b.name upcase ≠ .eq := by
    refine (hperm'.pairwise_iff fun {a b} hab => ?_).2 (h.imp fun hab => by rw [hab]; decide)
    rw [collateNames_swap]
    cases hcase : collateNames a.name b.name upcase with
    | eq => exact absurd hcase hab
    | lt => decide
    | gt => decide
  refine Collated.eq ?_ h hperm'
  refine (checkPairs_collation_iff (u := ()) (sortEntries_sorted entries')).1 ?_
  rw [checkPairs_ok_iff]
  simp only [ensure_ok_iff]
  exact (List.pairwise_map.1 hne).isChain

end Collation

end Ntfs

end StarConverter
