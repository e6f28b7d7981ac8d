import StarConverter.Extent
import StarConverter.Ntfs.Bitmap

/-!
# Reconciling claims with the bitmap

The comparison of sorted claims, neighbour by neighbour and gap by gap, says of the volume as a whole
that the claims lie apart, own only allocated clusters, and leave the clusters of `unexplained` without an
owner.
-/

namespace StarConverter

open Base

namespace Ntfs

namespace NtfsAllocationClaim

/-- The claim owns the cluster. -/
def Covers (claim : NtfsAllocationClaim) (lcn : ℕ) : Prop :=
  claim.startLcn ≤ lcn ∧ lcn < claim.startLcn + claim.clusterCount

instance (claim : NtfsAllocationClaim) (lcn : ℕ) : Decidable (claim.Covers lcn) :=
  inferInstanceAs (Decidable (_ ∧ _))

/-- No cluster has both owners. -/
def Apart (a b : NtfsAllocationClaim) : Prop := ∀ lcn, a.Covers lcn → ¬ b.Covers lcn

theorem Apart.symm {a b : NtfsAllocationClaim} (h : a.Apart b) : b.Apart a :=
  fun lcn hb ha => h lcn ha hb

end NtfsAllocationClaim

/-- Claims of allocated clusters of the volume, none of them empty and none claimed twice. -/
structure Sound (bitmap : NtfsBitmap) (claims : List NtfsAllocationClaim) : Prop where
  nonempty : ∀ claim ∈ claims, 0 < claim.clusterCount
  in_range : ∀ claim ∈ claims, claim.startLcn + claim.clusterCount ≤ bitmap.clusterCount
  apart : claims.Pairwise NtfsAllocationClaim.Apart
  allocated : ∀ claim ∈ claims, ∀ lcn, claim.Covers lcn → bitAt bitmap.bytes lcn = true

/-- The number of clusters of a list of claims. -/
def claimedTotal (claims : List NtfsAllocationClaim) : ℕ :=
  (claims.map NtfsAllocationClaim.clusterCount).sum

/-- The allocated clusters of the volume without an owner. -/
def unexplained (bitmap : NtfsBitmap) (claims : List NtfsAllocationClaim) : Finset ℕ :=
  (Finset.range bitmap.clusterCount).filter fun lcn =>
    bitAt bitmap.bytes lcn = true ∧ ∀ claim ∈ claims, ¬ claim.Covers lcn

section

variable {bitmap : NtfsBitmap} {claims : List NtfsAllocationClaim}

theorem mem_unexplained {lcn : ℕ} : lcn ∈ unexplained bitmap claims ↔
    lcn < bitmap.clusterCount ∧ bitAt bitmap.bytes lcn = true ∧
      ∀ claim ∈ claims, ¬ claim.Covers lcn := by
  rw [unexplained, Finset.mem_filter, Finset.mem_range]

/-! ## Counting -/

theorem countBits_eq_card (bytes : Bytes) (n : ℕ) :
    countBits bytes n = ((Finset.range n).filter fun i => bitAt bytes i = true).card := by
  unfold countBits
  induction n with
  | zero => rfl
  | succ n ih =>
    rw [List.range_succ, List.countP_append, ih, Finset.range_add_one, Finset.filter_insert]
    by_cases hn : bitAt bytes n = true
    · rw [if_pos hn, Finset.card_insert_of_notMem (by simp), List.countP_singleton, if_pos hn]
    · rw [if_neg hn, List.countP_singleton, if_neg hn, Nat.add_zero]

/-- Claims that lie apart own as many clusters as they count. -/
theorem card_covered {n : ℕ}
    (hin : ∀ claim ∈ claims, claim.startLcn + claim.clusterCount ≤ n)
    (hapart : claims.Pairwise NtfsAllocationClaim.Apart) :
    ((Finset.range n).filter fun lcn => ∃ claim ∈ claims, claim.Covers lcn).card =
      claimedTotal claims := by
  induction claims with
  | nil => simp [claimedTotal]
  | cons claim rest ih =>
    obtain ⟨hfirst, hrest⟩ := List.pairwise_cons.1 hapart
    have hle := hin claim (by simp)
    have hsplit : ((Finset.range n).filter fun lcn => ∃ c ∈ claim :: rest, c.Covers lcn) =
        Finset.Ico claim.startLcn (claim.startLcn + claim.clusterCount) ∪
          (Finset.range n).filter fun lcn => ∃ c ∈ rest, c.Covers lcn := by
      ext lcn
      simp only [Finset.mem_filter, Finset.mem_range, List.exists_mem_cons_iff, Finset.mem_union,
        Finset.mem_Ico]
      constructor
      · rintro ⟨hlt, hc | hc⟩
        · exact Or.inl hc
        · exact Or.inr ⟨hlt, hc⟩
      · rintro (hc | ⟨hlt, hc⟩)
        · exact ⟨by omega, Or.inl hc⟩
        · exact ⟨hlt, Or.inr hc⟩
    have hdisjoint : Disjoint (Finset.Ico claim.startLcn (claim.startLcn + claim.clusterCount))
        ((Finset.range n).filter fun lcn => ∃ c ∈ rest, c.Covers lcn) := by
      rw [Finset.disjoint_left]
      intro lcn hlcn hmem
      obtain ⟨-, c, hc, hcovers⟩ := Finset.mem_filter.1 hmem
      exact hfirst c hc lcn (Finset.mem_Ico.1 hlcn) hcovers
    rw [hsplit, Finset.card_union_of_disjoint hdisjoint, Nat.card_Ico, Nat.add_sub_cancel_left,
      ih (fun c hc => hin c (by simp [hc])) hrest]
    rfl

/-- Every allocated cluster is claimed or unexplained. -/
theorem Sound.claimedTotal_add_card (h : Sound bitmap claims) :
    claimedTotal claims + (unexplained bitmap claims).card = bitmap.allocatedClusters := by
  have hsplit : ((Finset.range bitmap.clusterCount).filter fun i => bitAt bitmap.bytes i = true) =
      ((Finset.range bitmap.clusterCount).filter fun lcn => ∃ c ∈ claims, c.Covers lcn) ∪
        unexplained bitmap claims := by
    ext lcn
    simp only [Finset.mem_filter, Finset.mem_range, Finset.mem_union, mem_unexplained]
    constructor
    · rintro ⟨hlt, hbit⟩
      by_cases hc : ∃ c ∈ claims, c.Covers lcn
      · exact Or.inl ⟨hlt, hc⟩
      · exact Or.inr ⟨hlt, hbit, fun c hmem hcovers => hc ⟨c, hmem, hcovers⟩⟩
    · rintro (⟨hlt, c, hc, hcovers⟩ | ⟨hlt, hbit, -⟩)
      · exact ⟨hlt, h.allocated c hc lcn hcovers⟩
      · exact ⟨hlt, hbit⟩
  have hdisjoint : Disjoint
      ((Finset.range bitmap.clusterCount).filter fun lcn => ∃ c ∈ claims, c.Covers lcn)
      (unexplained bitmap claims) := by
    rw [Finset.disjoint_left]
    intro lcn hcovered hmem
    obtain ⟨-, c, hc, hcovers⟩ := Finset.mem_filter.1 hcovered
    exact (mem_unexplained.1 hmem).2.2 c hc hcovers
  rw [bitmap.allocated_eq, countBits_eq_card, hsplit, Finset.card_union_of_disjoint hdisjoint,
    card_covered h.in_range h.apart]

/-! ## Ordered claims -/

/-- A claim with its place in the list. -/
def place (p : NtfsAllocationClaim × ℕ) : OrderedClaim :=
  ⟨p.2, p.1.startLcn, p.1.startLcn + p.1.clusterCount⟩

theorem orderClaims_ok_iff {claimIndex : ℕ} {ordered : List OrderedClaim} :
    orderClaims bitmap claimIndex claims = .ok ordered ↔
      (∀ claim ∈ claims, 0 < claim.clusterCount ∧
        claim.startLcn + claim.clusterCount ≤ bitmap.clusterCount) ∧
      ordered = (claims.zipIdx claimIndex).map place := by
  have hcount := bitmap.count_le
  induction claims generalizing claimIndex ordered with
  | nil => simp [orderClaims, eq_comm]
  | cons claim rest ih =>
    simp only [orderClaims, bind_ok_iff, exists_const, ensure_ok_iff, orErr_ok_iff,
      checkedAdd_eq_some, ih, pure_eq_ok, Except.ok.injEq, List.forall_mem_cons, List.zipIdx_cons,
      List.map_cons]
    constructor
    · rintro ⟨hne, _, ⟨-, rfl⟩, hle, _, ⟨hrest, rfl⟩, rfl⟩
      exact ⟨⟨⟨Nat.pos_of_ne_zero hne, hle⟩, hrest⟩, rfl⟩
    · rintro ⟨⟨⟨hpos, hle⟩, hrest⟩, rfl⟩
      refine ⟨hpos.ne', _, ⟨?_, rfl⟩, hle, _, ⟨hrest, rfl⟩, rfl⟩
      unfold maxSupportedClusterCount at hcount
      unfold wordBound
      omega

/-- The ordered claim owns the cluster. -/
def OrderedClaim.Covers (claim : OrderedClaim) (lcn : ℕ) : Prop :=
  claim.startLcn ≤ lcn ∧ lcn < claim.endLcn

instance (claim : OrderedClaim) (lcn : ℕ) : Decidable (claim.Covers lcn) :=
  inferInstanceAs (Decidable (_ ∧ _))

theorem checkPrior_ok_iff {claim : OrderedClaim} {previous : Option OrderedClaim} {u : Unit} :
    checkPrior claim previous = .ok u ↔
      ∀ prior ∈ previous, prior.endLcn ≤ claim.startLcn := by
  cases previous <;> simp [checkPrior]

theorem checkAllocated_ok_iff {claim : OrderedClaim} {u : Unit} :
    checkAllocated bitmap claim = .ok u ↔
      ∀ lcn, claim.Covers lcn → bitAt bitmap.bytes lcn = true := by
  have hnone : firstClusterWithState bitmap claim.startLcn claim.endLcn .free = none ↔
      ∀ lcn, claim.Covers lcn → bitAt bitmap.bytes lcn = true := by
    rw [firstClusterWithState_eq, firstIn_eq_none]
    simp [OrderedClaim.Covers, ClusterAllocation.bit]
  rw [← hnone, checkAllocated]
  cases firstClusterWithState bitmap claim.startLcn claim.endLcn .free <;> simp

theorem checkClaims_ok_iff {previous : Option OrderedClaim} {total r : ℕ}
    {ordered : List OrderedClaim} (ht : total < wordBound) :
    checkClaims bitmap previous total ordered = .ok r ↔
      List.IsChain (fun a b : OrderedClaim => a.endLcn ≤ b.startLcn)
        (previous.toList ++ ordered) ∧
      (∀ claim ∈ ordered, ∀ lcn, claim.Covers lcn → bitAt bitmap.bytes lcn = true) ∧
      total + (ordered.map fun claim => claim.endLcn - claim.startLcn).sum < wordBound ∧
      r = total + (ordered.map fun claim => claim.endLcn - claim.startLcn).sum := by
  induction ordered generalizing previous total with
  | nil =>
    have hnil : List.IsChain (fun a b : OrderedClaim => a.endLcn ≤ b.startLcn)
        (previous.toList ++ []) := by
      cases previous <;> simp
    simp only [hnil, checkClaims, pure_eq_ok, Except.ok.injEq, List.map_nil, List.sum_nil,
      Nat.add_zero, List.not_mem_nil, false_implies, implies_true, ht, true_and]
    exact eq_comm
  | cons claim rest ih =>
    have hchain : List.IsChain (fun a b : OrderedClaim => a.endLcn ≤ b.startLcn)
        (previous.toList ++ claim :: rest) ↔
          (∀ prior ∈ previous, prior.endLcn ≤ claim.startLcn) ∧
          List.IsChain (fun a b : OrderedClaim => a.endLcn ≤ b.startLcn) (claim :: rest) := by
      cases previous <;> simp
    rw [hchain, List.forall_mem_cons, List.map_cons, List.sum_cons, ← Nat.add_assoc]
    simp only [checkClaims, bind_ok_iff, exists_const, orErr_ok_iff, checkedAdd_eq_some,
      checkPrior_ok_iff, checkAllocated_ok_iff]
    constructor
    · rintro ⟨hprior, halloc, _, ⟨hlt, rfl⟩, hrest⟩
      obtain ⟨h1, h2, h3⟩ := (ih hlt).1 hrest
      exact ⟨⟨hprior, h1⟩, ⟨halloc, h2⟩, h3⟩
    · rintro ⟨⟨hprior, h1⟩, ⟨halloc, h2⟩, h3⟩
      have hlt : total + (claim.endLcn - claim.startLcn) < wordBound := by omega
      exact ⟨hprior, halloc, _, ⟨hlt, rfl⟩, (ih hlt).2 ⟨h1, h2, h3⟩⟩

/-- The scan of the gaps finds the first allocated cluster without an owner. -/
theorem firstUnclaimedAllocatedCluster_eq {cursor : ℕ} {ordered : List OrderedClaim}
    (hbefore : ordered.Pairwise fun a b => a.endLcn ≤ b.startLcn)
    (hplaced : ∀ claim ∈ ordered, claim.startLcn ≤ claim.endLcn ∧
      claim.endLcn ≤ bitmap.clusterCount)
    (hcursor : ∀ claim ∈ ordered, cursor ≤ claim.startLcn) :
    firstUnclaimedAllocatedCluster bitmap cursor ordered =
      firstIn (fun lcn => decide (bitAt bitmap.bytes lcn = true ∧
        ∀ claim ∈ ordered, ¬ claim.Covers lcn)) cursor bitmap.clusterCount := by
  induction ordered generalizing cursor with
  | nil =>
    rw [firstUnclaimedAllocatedCluster, firstClusterWithState_eq]
    refine firstIn_congr fun lcn _ _ => ?_
    simp [ClusterAllocation.bit]
  | cons claim rest ih =>
    obtain ⟨hfirst, hrest⟩ := List.pairwise_cons.1 hbefore
    obtain ⟨hle, hend⟩ := hplaced claim (by simp)
    have hstart := hcursor claim (by simp)
    have hgap : firstIn (fun lcn => decide (bitAt bitmap.bytes lcn = true ∧
        ∀ c ∈ claim :: rest, ¬ c.Covers lcn)) cursor claim.startLcn =
        firstClusterWithState bitmap cursor claim.startLcn .allocated := by
      rw [firstClusterWithState_eq]
      refine firstIn_congr fun lcn _ hlt => ?_
      have hfree : ∀ c ∈ claim :: rest, ¬ c.Covers lcn := by
        intro c hc hcovers
        have hcovers := hcovers.1
        rcases List.mem_cons.1 hc with rfl | hc
        · omega
        · have := hfirst c hc
          omega
      simp only [and_iff_left hfree, ClusterAllocation.bit]
      cases bitAt bitmap.bytes lcn <;> rfl
    have howned : firstIn (fun lcn => decide (bitAt bitmap.bytes lcn = true ∧
        ∀ c ∈ claim :: rest, ¬ c.Covers lcn)) claim.startLcn claim.endLcn = none := by
      rw [firstIn_eq_none]
      intro lcn h1 h2
      rw [decide_eq_false_iff_not]
      exact fun h => h.2 claim (by simp) ⟨h1, h2⟩
    have hbehind : firstIn (fun lcn => decide (bitAt bitmap.bytes lcn = true ∧
        ∀ c ∈ claim :: rest, ¬ c.Covers lcn)) claim.endLcn bitmap.clusterCount =
        firstUnclaimedAllocatedCluster bitmap claim.endLcn rest := by
      rw [ih hrest (fun c hc => hplaced c (by simp [hc])) hfirst]
      refine firstIn_congr fun lcn hge _ => ?_
      have hnot : ¬ claim.Covers lcn := fun h => by
        have := h.2
        omega
      simp [hnot]
    rw [firstIn_append hstart (hle.trans hend), firstIn_append hle hend, hgap, howned, hbehind,
      Option.none_or, firstUnclaimedAllocatedCluster]
    cases firstClusterWithState bitmap cursor claim.startLcn .allocated <;> rfl

/-! ## The comparison as a whole -/

/-- The sorted claims as the code compares them. -/
def sortedClaims (claims : List NtfsAllocationClaim) : List OrderedClaim :=
  sortByKey orderedSortKey ((claims.zipIdx 0).map place)

theorem forall_mem_placed {P : ℕ → ℕ → Prop} :
    (∀ c ∈ (claims.zipIdx 0).map place, P c.startLcn c.endLcn) ↔
      ∀ claim ∈ claims, P claim.startLcn (claim.startLcn + claim.clusterCount) := by
  have hfst := List.zipIdx_map_fst 0 claims
  rw [List.forall_mem_map]
  conv_rhs => rw [← hfst, List.forall_mem_map]
  rfl

theorem forall_mem_sortedClaims {P : ℕ → ℕ → Prop} :
    (∀ c ∈ sortedClaims claims, P c.startLcn c.endLcn) ↔
      ∀ claim ∈ claims, P claim.startLcn (claim.startLcn + claim.clusterCount) := by
  unfold sortedClaims
  simp only [mem_sortByKey]
  exact forall_mem_placed

theorem pairwise_placed :
    ((claims.zipIdx 0).map place).Pairwise (fun a b => ∀ lcn, a.Covers lcn → ¬ b.Covers lcn) ↔
      claims.Pairwise NtfsAllocationClaim.Apart := by
  have hfst := List.zipIdx_map_fst 0 claims
  conv_rhs => rw [← hfst, List.pairwise_map]
  rw [List.pairwise_map]
  rfl

/-- Neighbours decide whether any two claims share a cluster. -/
theorem isChain_sortedClaims_iff (hpos : ∀ claim ∈ claims, 0 < claim.clusterCount) :
    List.IsChain (fun a b : OrderedClaim => a.endLcn ≤ b.startLcn) (sortedClaims claims) ↔
      claims.Pairwise NtfsAllocationClaim.Apart := by
  have hplaced : ∀ c ∈ (claims.zipIdx 0).map place, c.startLcn < c.endLcn := by
    refine (forall_mem_placed (P := fun lo hi => lo < hi)).2 fun claim hclaim => ?_
    have := hpos claim hclaim
    omega
  rw [← pairwise_placed]
  refine isChain_sortByKey_iff (fun a b h lcn hb ha => h lcn ha hb) ?_ ?_
  · intro a ha b hb hkey
    have hstart : a.startLcn ≤ b.startLcn := by
      simp only [orderedSortKey, Prod.Lex.toLex_le_toLex] at hkey
      omega
    have hb := hplaced b hb
    constructor
    · intro hle lcn hca hcb
      have := hca.2
      have := hcb.1
      omega
    · intro h
      by_contra hlt
      exact h b.startLcn ⟨hstart, by omega⟩ ⟨le_rfl, hb⟩
  · intro a _ b hb c _ _ _ hab hbc
    have := hplaced b hb
    omega

theorem sum_sortedClaims :
    ((sortedClaims claims).map fun c => c.endLcn - c.startLcn).sum = claimedTotal claims := by
  have hperm : (sortedClaims claims).Perm ((claims.zipIdx 0).map place) := sortByKey_perm _ _
  have hlength : (fun c : OrderedClaim => c.endLcn - c.startLcn) ∘ place =
      NtfsAllocationClaim.clusterCount ∘ Prod.fst := by
    funext p
    exact Nat.add_sub_cancel_left p.1.startLcn p.1.clusterCount
  rw [(hperm.map _).sum_eq, List.map_map, hlength, ← List.map_map, List.zipIdx_map_fst]
  rfl

theorem claimedTotal_lt (hin : ∀ claim ∈ claims,
      claim.startLcn + claim.clusterCount ≤ bitmap.clusterCount)
    (hapart : claims.Pairwise NtfsAllocationClaim.Apart) : claimedTotal claims < wordBound := by
  have hcard := Finset.card_filter_le (Finset.range bitmap.clusterCount)
    fun lcn => ∃ claim ∈ claims, claim.Covers lcn
  have hcount := bitmap.count_le
  rw [card_covered hin hapart, Finset.card_range] at hcard
  unfold maxSupportedClusterCount at hcount
  unfold wordBound
  omega

/-- The checks of the claims, in whatever order they come. -/
theorem checkClaims_sortedClaims_iff {total : ℕ} (hvalid : ∀ claim ∈ claims,
      0 < claim.clusterCount ∧ claim.startLcn + claim.clusterCount ≤ bitmap.clusterCount) :
    checkClaims bitmap none 0 (sortedClaims claims) = .ok total ↔
      Sound bitmap claims ∧ total = claimedTotal claims := by
  have hpos := fun claim hclaim => (hvalid claim hclaim).1
  have hin := fun claim hclaim => (hvalid claim hclaim).2
  have halloc : (∀ c ∈ sortedClaims claims, ∀ lcn, c.Covers lcn →
      bitAt bitmap.bytes lcn = true) ↔
      ∀ claim ∈ claims, ∀ lcn, claim.Covers lcn → bitAt bitmap.bytes lcn = true :=
    forall_mem_sortedClaims (P := fun lo hi => ∀ lcn, lo ≤ lcn ∧ lcn < hi →
      bitAt bitmap.bytes lcn = true)
  rw [checkClaims_ok_iff wordBound_pos, Option.toList_none, List.nil_append,
    isChain_sortedClaims_iff hpos, halloc, sum_sortedClaims, Nat.zero_add]
  constructor
  · rintro ⟨hapart, hbits, -, rfl⟩
    exact ⟨⟨hpos, hin, hapart, hbits⟩, rfl⟩
  · rintro ⟨h, rfl⟩
    exact ⟨h.apart, h.allocated, claimedTotal_lt hin h.apart, rfl⟩

/-- The first allocated cluster without an owner. -/
def firstUnexplained (bitmap : NtfsBitmap) (claims : List NtfsAllocationClaim) : Option ℕ :=
  firstIn (fun lcn => decide (lcn ∈ unexplained bitmap claims)) 0 bitmap.clusterCount

theorem firstUnexplained_eq_some {lcn : ℕ} :
    firstUnexplained bitmap claims = some lcn ↔ IsLeast ↑(unexplained bitmap claims) lcn := by
  unfold firstUnexplained
  rw [firstIn_eq_some]
  simp only [decide_eq_true_iff, decide_eq_false_iff_not]
  constructor
  · rintro ⟨-, -, hmem, hall⟩
    refine ⟨hmem, fun k hk => ?_⟩
    by_contra hlt
    exact hall k (Nat.zero_le _) (by omega) hk
  · rintro ⟨hmem, hleast⟩
    refine ⟨Nat.zero_le _, (mem_unexplained.1 hmem).1, hmem, fun k _ hlt hk => ?_⟩
    have := hleast hk
    omega

theorem firstUnexplained_eq_none :
    firstUnexplained bitmap claims = none ↔ unexplained bitmap claims = ∅ := by
  unfold firstUnexplained
  rw [firstIn_eq_none, Finset.eq_empty_iff_forall_notMem]
  simp only [decide_eq_false_iff_not]
  constructor
  · intro h lcn hmem
    exact h lcn (Nat.zero_le _) (mem_unexplained.1 hmem).1 hmem
  · exact fun h lcn _ _ => h lcn

theorem Sound.firstUnclaimed_eq (h : Sound bitmap claims) :
    firstUnclaimedAllocatedCluster bitmap 0 (sortedClaims claims) =
      firstUnexplained bitmap claims := by
  have hplaced : ∀ c ∈ sortedClaims claims, c.startLcn ≤ c.endLcn ∧
      c.endLcn ≤ bitmap.clusterCount :=
    (forall_mem_sortedClaims (P := fun lo hi => lo ≤ hi ∧ hi ≤ bitmap.clusterCount)).2
      fun claim hclaim => ⟨by omega, h.in_range claim hclaim⟩
  have hlt : ∀ c ∈ sortedClaims claims, c.startLcn < c.endLcn := by
    refine (forall_mem_sortedClaims (P := fun lo hi => lo < hi)).2 fun claim hclaim => ?_
    have := h.nonempty claim hclaim
    omega
  have hbefore : (sortedClaims claims).Pairwise fun a b => a.endLcn ≤ b.startLcn := by
    have hchain := (isChain_sortedClaims_iff h.nonempty).2 h.apart
    have hpair : (sortedClaims claims).Pairwise fun a b =>
        a.startLcn < a.endLcn ∧ a.endLcn ≤ b.startLcn := by
      have htrans : IsTrans OrderedClaim fun a b =>
          a.startLcn < a.endLcn ∧ a.endLcn ≤ b.startLcn :=
        ⟨fun a b c hab hbc => ⟨hab.1, by omega⟩⟩
      refine (hchain.imp_of_mem_imp fun a b ha _ hab => ?_).pairwise
      exact ⟨hlt a ha, hab⟩
    exact hpair.imp fun h => h.2
  rw [firstUnclaimedAllocatedCluster_eq hbefore hplaced fun _ _ => Nat.zero_le _]
  refine firstIn_congr fun lcn _ hlcn => decide_eq_decide.2 ?_
  have hnot : (∀ c ∈ sortedClaims claims, ¬ c.Covers lcn) ↔
      ∀ claim ∈ claims, ¬ claim.Covers lcn :=
    forall_mem_sortedClaims (P := fun lo hi => ¬ (lo ≤ lcn ∧ lcn < hi))
  rw [mem_unexplained, hnot]
  exact (and_iff_right hlcn).symm

/-- What reconciliation reports of sound claims. -/
def report (bitmap : NtfsBitmap) (claims : List NtfsAllocationClaim) : NtfsAllocationReconciliation :=
  ⟨claims.length, claimedTotal claims, (unexplained bitmap claims).card,
    firstUnexplained bitmap claims⟩

theorem reconcileAllocationClaims_ok_iff {ownershipComplete : Bool}
    {limits : NtfsReconciliationLimits} {evidence : NtfsAllocationReconciliationEvidence}
    (hlimits : limits.maxClaims ≠ 0) (hcount : claims.length ≤ limits.maxClaims) :
    reconcileAllocationClaims bitmap claims ownershipComplete limits = .ok evidence ↔
      Sound bitmap claims ∧ (ownershipComplete = true → unexplained bitmap claims = ∅) ∧
        evidence = if ownershipComplete then .complete (report bitmap claims)
          else .incompleteInventory (report bitmap claims) := by
  rw [reconcileAllocationClaims, ensure_of hlimits, ok_bind, ensure_of hcount, ok_bind]
  simp only [bind_ok_iff, orderClaims_ok_iff]
  have hsorted : sortByKey orderedSortKey ((claims.zipIdx 0).map place) = sortedClaims claims := rfl
  have htail : ∀ h : Sound bitmap claims,
      (if bitmap.allocatedClusters - claimedTotal claims = 0 then none
        else firstUnclaimedAllocatedCluster bitmap 0 (sortedClaims claims)) =
        firstUnexplained bitmap claims := by
    intro h
    have hadd := h.claimedTotal_add_card
    split_ifs with h0
    · exact (firstUnexplained_eq_none.2 (Finset.card_eq_zero.1 (by omega))).symm
    · exact h.firstUnclaimed_eq
  have hcard : ∀ h : Sound bitmap claims,
      bitmap.allocatedClusters - claimedTotal claims = (unexplained bitmap claims).card := by
    intro h
    have hadd := h.claimedTotal_add_card
    omega
  constructor
  · rintro ⟨_, ⟨hvalid, rfl⟩, total, htotal, hrest⟩
    rw [hsorted, checkClaims_sortedClaims_iff hvalid] at htotal
    obtain ⟨h, rfl⟩ := htotal
    rw [hsorted, htail h, hcard h] at hrest
    refine ⟨h, ?_⟩
    cases ownershipComplete with
    | false => exact ⟨fun h => absurd h (by decide), (Except.ok.inj hrest).symm⟩
    | true =>
      rw [if_pos rfl] at hrest ⊢
      cases hfirst : firstUnexplained bitmap claims with
      | some lcn =>
        rw [hfirst] at hrest
        cases hrest
      | none =>
        rw [hfirst] at hrest
        refine ⟨fun _ => firstUnexplained_eq_none.1 hfirst, ?_⟩
        rw [report, hfirst]
        exact (Except.ok.inj hrest).symm
  · rintro ⟨h, hempty, rfl⟩
    have hvalid : ∀ claim ∈ claims, 0 < claim.clusterCount ∧
        claim.startLcn + claim.clusterCount ≤ bitmap.clusterCount :=
      fun claim hclaim => ⟨h.nonempty claim hclaim, h.in_range claim hclaim⟩
    refine ⟨_, ⟨hvalid, rfl⟩, claimedTotal claims, ?_, ?_⟩
    · rw [hsorted, checkClaims_sortedClaims_iff hvalid]
      exact ⟨h, rfl⟩
    · rw [hsorted, htail h, hcard h]
      cases ownershipComplete with
      | false => rfl
      | true =>
        have hnone := firstUnexplained_eq_none.2 (hempty rfl)
        rw [if_pos rfl, if_pos rfl, hnone, report, hnone]
        rfl

theorem Sound.perm {other : List NtfsAllocationClaim} (h : Sound bitmap claims)
    (hperm : other.Perm claims) : Sound bitmap other where
  nonempty claim hclaim := h.nonempty claim (hperm.mem_iff.1 hclaim)
  in_range claim hclaim := h.in_range claim (hperm.mem_iff.1 hclaim)
  apart := hperm.symm.pairwise h.apart fun h => h.symm
  allocated claim hclaim := h.allocated claim (hperm.mem_iff.1 hclaim)

theorem report_perm {other : List NtfsAllocationClaim} (hperm : other.Perm claims) :
    unexplained bitmap other = unexplained bitmap claims ∧
      report bitmap other = report bitmap claims := by
  have hmem : unexplained bitmap other = unexplained bitmap claims := by
    ext lcn
    simp only [mem_unexplained, hperm.mem_iff]
  have htotal : claimedTotal other = claimedTotal claims := (hperm.map _).sum_eq
  refine ⟨hmem, ?_⟩
  rw [report, report, firstUnexplained, firstUnexplained, hmem, htotal, hperm.length_eq]

/-- Complete ownership: the claims are apart and own exactly the allocated clusters. -/
theorem sound_and_empty_iff : Sound bitmap claims ∧ unexplained bitmap claims = ∅ ↔
    (∀ claim ∈ claims, 0 < claim.clusterCount ∧
      claim.startLcn + claim.clusterCount ≤ bitmap.clusterCount) ∧
    claims.Pairwise NtfsAllocationClaim.Apart ∧
    ∀ lcn < bitmap.clusterCount,
      (bitAt bitmap.bytes lcn = true ↔ ∃ claim ∈ claims, claim.Covers lcn) := by
  rw [Finset.eq_empty_iff_forall_notMem]
  simp only [mem_unexplained]
  constructor
  · rintro ⟨h, hempty⟩
    refine ⟨fun claim hclaim => ⟨h.nonempty claim hclaim, h.in_range claim hclaim⟩, h.apart,
      fun lcn hlt => ⟨fun hbit => ?_, ?_⟩⟩
    · by_contra hnone
      exact hempty lcn ⟨hlt, hbit, fun claim hclaim hcovers => hnone ⟨claim, hclaim, hcovers⟩⟩
    · rintro ⟨claim, hclaim, hcovers⟩
      exact h.allocated claim hclaim lcn hcovers
  · rintro ⟨hvalid, hapart, hbits⟩
    refine ⟨⟨fun claim hclaim => (hvalid claim hclaim).1, fun claim hclaim => (hvalid claim hclaim).2,
      hapart, fun claim hclaim lcn hcovers => ?_⟩, ?_⟩
    · have := (hvalid claim hclaim).2
      have := hcovers.2
      exact (hbits lcn (by omega)).2 ⟨claim, hclaim, hcovers⟩
    · rintro lcn ⟨hlt, hbit, hnone⟩
      obtain ⟨claim, hclaim, hcovers⟩ := (hbits lcn hlt).1 hbit
      exact hnone claim hclaim hcovers

end

end Ntfs

end StarConverter
