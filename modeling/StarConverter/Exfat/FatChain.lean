import StarConverter.Base.Walk
import StarConverter.Exfat.Allocation

/-!
# FAT chains

The FAT gives every cluster of a stream the next one. `FatChain` iterates over such a chain; it keeps
no record of what it has visited but counts, and gives up behind as many clusters as the heap has.
Its items are those of a bounded walk (`FatChain.yields_walk`), so it returns a whole chain or ends in
one error (`fatChain_exact`).
-/

namespace StarConverter.Exfat

open Base Relation

/-- The meaning of the FAT entry of a cluster. -/
def fatEntry (fat : Bytes) (geometry : ExfatBootSector) (cluster : ℕ) :
    Except ExfatAllocationError FatEntry := do
  validateCluster geometry cluster
  let offset ← orErr (checkedMul cluster 4) (.arithmeticOverflow "FAT entry byte offset")
  let stop ← orErr (checkedAdd offset 4) (.arithmeticOverflow "FAT entry end")
  let bytes ← orErr (slice? fat offset (offset + 4)) (.fatSliceTooShort stop fat.length)
  let value := fromLe bytes
  if value = 0 then pure .free
  else if value = badCluster then pure .bad
  else if value = endOfChain then pure .endOfChain
  else if (validateCluster geometry value).toOption.isSome then pure (.next value)
  else .error (.invalidFatValue cluster value)

/-- An iterator over the clusters of a chain. -/
structure FatChain where
  fat : Bytes
  geometry : ExfatBootSector
  next : Option ℕ
  traversed : ℕ
  startCluster : ℕ

def fatChain (fat : Bytes) (geometry : ExfatBootSector) (startCluster : ℕ) :
    Except ExfatAllocationError FatChain := do
  validateCluster geometry startCluster
  pure { fat, geometry, next := some startCluster, traversed := 0, startCluster }

namespace FatChain

/-- `Iterator::next`: the item, if there is one, and the iterator behind it. -/
def step (chain : FatChain) : Option (Except ExfatAllocationError ℕ) × FatChain :=
  match chain.next with
  | none => (none, chain)
  | some cluster =>
    if chain.geometry.clusterCount ≤ chain.traversed then
      (some (.error (.chainCycleOrTooLong chain.startCluster)), { chain with next := none })
    else
      let chain := { chain with traversed := chain.traversed + 1 }
      match fatEntry chain.fat chain.geometry cluster with
      | .ok (.next next) => (some (.ok cluster), { chain with next := some next })
      | .ok .endOfChain => (some (.ok cluster), { chain with next := none })
      | .ok .free => (some (.error (.freeClusterInChain cluster)), { chain with next := none })
      | .ok .bad => (some (.error (.badClusterInChain cluster)), { chain with next := none })
      | .error e => (some (.error e), { chain with next := none })

/-- What the first calls of `next` return. -/
def calls : ℕ → FatChain → List (Option (Except ExfatAllocationError ℕ))
  | 0, _ => []
  | n + 1, chain => chain.step.1 :: calls n chain.step.2

/-- The iterator yields these items and then nothing, however often it is called. -/
def Yields (chain : FatChain) (items : List (Except ExfatAllocationError ℕ)) : Prop :=
  ∀ n, chain.calls n = (List.range n).map fun k => items[k]?

end FatChain

/-! ## The chain in the FAT -/

/-- The cluster lies in the cluster heap, whose clusters can be counted in 32 bits. -/
def HeapCluster (geometry : ExfatBootSector) (cluster : ℕ) : Prop :=
  2 + geometry.clusterCount < wordBound32 ∧ 2 ≤ cluster ∧ cluster < 2 + geometry.clusterCount

/-- The value of a cluster's FAT entry. -/
def fatValue (fat : Bytes) (cluster : ℕ) : ℕ := leAt 4 fat (4 * cluster)

/-- The FAT has an entry for the cluster. -/
def InFat (fat : Bytes) (cluster : ℕ) : Prop := 4 * cluster + 4 ≤ fat.length

/-- The FAT entry of one heap cluster leads to another. -/
def FatLink (fat : Bytes) (geometry : ExfatBootSector) (cluster next : ℕ) : Prop :=
  HeapCluster geometry cluster ∧ InFat fat cluster ∧ fatValue fat cluster = next ∧
    next ≠ 0 ∧ next ≠ badCluster ∧ next ≠ endOfChain ∧ HeapCluster geometry next

/-- The FAT entry of a heap cluster ends a chain. -/
def FatEnd (fat : Bytes) (geometry : ExfatBootSector) (cluster : ℕ) : Prop :=
  HeapCluster geometry cluster ∧ InFat fat cluster ∧ fatValue fat cluster = endOfChain

/-- A FAT entry at which a chain goes wrong: outside the slice, free, bad, or no heap cluster. -/
def FatFault (fat : Bytes) (geometry : ExfatBootSector) (cluster : ℕ) : Prop :=
  ¬ InFat fat cluster ∨ fatValue fat cluster = 0 ∨ fatValue fat cluster = badCluster ∨
    fatValue fat cluster ≠ endOfChain ∧ ¬ HeapCluster geometry (fatValue fat cluster)

theorem validateCluster_isSome_iff {geometry : ExfatBootSector} {cluster : ℕ} :
    (validateCluster geometry cluster).toOption.isSome = true ↔ HeapCluster geometry cluster := by
  unfold HeapCluster
  rw [← @validateCluster_ok_iff geometry cluster ()]
  cases validateCluster geometry cluster <;> simp [Except.toOption]

/-- What the FAT entry of a heap cluster says. -/
theorem fatEntry_eq {fat : Bytes} {geometry : ExfatBootSector} {cluster : ℕ}
    (h : HeapCluster geometry cluster) (hin : InFat fat cluster) :
    fatEntry fat geometry cluster =
      if fatValue fat cluster = 0 then .ok .free
      else if fatValue fat cluster = badCluster then .ok .bad
      else if fatValue fat cluster = endOfChain then .ok .endOfChain
      else if (validateCluster geometry (fatValue fat cluster)).toOption.isSome then
        .ok (.next (fatValue fat cluster))
      else .error (.invalidFatValue cluster (fatValue fat cluster)) := by
  have hvalid : validateCluster geometry cluster = .ok () := validateCluster_ok_iff.2 h
  have hbound : cluster < 2 ^ 32 := h.2.2.trans h.1
  have hmul : checkedMul cluster 4 = some (cluster * 4) :=
    checkedMul_eq_some.2 ⟨by unfold wordBound; omega, rfl⟩
  have hadd : checkedAdd (cluster * 4) 4 = some (cluster * 4 + 4) :=
    checkedAdd_of_lt (by unfold wordBound; omega)
  have hslice : slice? fat (cluster * 4) (cluster * 4 + 4) = some (sliceAt fat (4 * cluster) 4) := by
    unfold InFat at hin
    rw [slice?, if_pos (by omega), Nat.add_sub_cancel_left, Nat.mul_comm]
  unfold fatEntry
  rw [hvalid, ok_bind, hmul, orErr_some, ok_bind, hadd, orErr_some, ok_bind, hslice, orErr_some,
    ok_bind]
  rfl

theorem fatEntry_error {fat : Bytes} {geometry : ExfatBootSector} {cluster : ℕ}
    (h : ¬ HeapCluster geometry cluster ∨ ¬ InFat fat cluster) :
    ∃ e, fatEntry fat geometry cluster = .error e := by
  cases hentry : fatEntry fat geometry cluster with
  | error e => exact ⟨e, rfl⟩
  | ok entry =>
    simp only [fatEntry, bind_ok_iff, validateCluster_ok_iff, orErr_ok_iff,
      checkedMul_eq_some, checkedAdd_eq_some, slice?, Option.ite_none_right_eq_some] at hentry
    obtain ⟨_, hvalid, _, ⟨-, rfl⟩, _, -, _, ⟨⟨-, hlen⟩, -⟩, -⟩ := hentry
    rcases h with h | h
    · exact absurd hvalid h
    · unfold InFat at h
      omega

/-! ## The walk of the iterator -/

/-- Where the iterator goes from a cluster. -/
def fatHop (fat : Bytes) (geometry : ExfatBootSector) (cluster : ℕ) : Hop ExfatAllocationError ℕ :=
  match fatEntry fat geometry cluster with
  | .ok (.next next) => .next next
  | .ok .endOfChain => .stop
  | .ok .free => .fail (.freeClusterInChain cluster)
  | .ok .bad => .fail (.badClusterInChain cluster)
  | .error e => .fail e

section Hops

variable {fat : Bytes} {geometry : ExfatBootSector} {cluster next : ℕ}

theorem fatHop_cases (fat : Bytes) (geometry : ExfatBootSector) (cluster : ℕ) :
    (∃ next, fatHop fat geometry cluster = .next next ∧ FatLink fat geometry cluster next) ∨
      (fatHop fat geometry cluster = .stop ∧ FatEnd fat geometry cluster) ∨
      ((∃ e, fatHop fat geometry cluster = .fail e) ∧
        (HeapCluster geometry cluster → FatFault fat geometry cluster)) := by
  by_cases hheap : HeapCluster geometry cluster
  swap
  · obtain ⟨e, he⟩ := @fatEntry_error fat geometry cluster (.inl hheap)
    exact .inr (.inr ⟨⟨e, by rw [fatHop, he]⟩, fun h => absurd h hheap⟩)
  by_cases hin : InFat fat cluster
  swap
  · obtain ⟨e, he⟩ := @fatEntry_error fat geometry cluster (.inr hin)
    exact .inr (.inr ⟨⟨e, by rw [fatHop, he]⟩, fun _ => .inl hin⟩)
  have hentry := fatEntry_eq hheap hin
  unfold fatHop
  rw [hentry]
  split_ifs with hfree hbad hend hnext
  · exact .inr (.inr ⟨⟨_, rfl⟩, fun _ => .inr (.inl hfree)⟩)
  · exact .inr (.inr ⟨⟨_, rfl⟩, fun _ => .inr (.inr (.inl hbad))⟩)
  · exact .inr (.inl ⟨rfl, hheap, hin, hend⟩)
  · exact .inl ⟨_, rfl, hheap, hin, rfl, hfree, hbad, hend, validateCluster_isSome_iff.1 hnext⟩
  · exact .inr (.inr ⟨⟨_, rfl⟩, fun _ =>
      .inr (.inr (.inr ⟨hend, fun h => hnext (validateCluster_isSome_iff.2 h)⟩))⟩)

theorem next_fatHop : Walk.Next (fatHop fat geometry) = FatLink fat geometry := by
  funext cluster next
  refine propext ⟨fun h => ?_, fun h => ?_⟩
  · obtain ⟨n, hn, hlink⟩ | ⟨hstop, -⟩ | ⟨⟨e, he⟩, -⟩ := fatHop_cases fat geometry cluster
    · obtain rfl : n = next := Hop.next.inj (hn.symm.trans h)
      exact hlink
    · cases hstop.symm.trans h
    · cases he.symm.trans h
  · obtain ⟨hheap, hin, rfl, hfree, hbad, hend, hnext⟩ := h
    obtain ⟨n, hn, -, -, rfl, -⟩ | ⟨-, -, -, hval⟩ | ⟨-, hfault⟩ := fatHop_cases fat geometry cluster
    · exact hn
    · exact absurd hval hend
    · obtain h | h | h | ⟨-, h⟩ := hfault hheap
      · exact absurd hin h
      · exact absurd h hfree
      · exact absurd h hbad
      · exact absurd hnext h

theorem last_fatHop : Walk.Last (fatHop fat geometry) = FatEnd fat geometry := by
  funext cluster
  refine propext ⟨fun h => ?_, fun h => ?_⟩
  · obtain ⟨n, hn, -⟩ | ⟨-, hend⟩ | ⟨⟨e, he⟩, -⟩ := fatHop_cases fat geometry cluster
    · cases hn.symm.trans h
    · exact hend
    · cases he.symm.trans h
  · obtain ⟨hheap, hin, hval⟩ := h
    obtain ⟨n, -, -, -, hn, -, -, hend, -⟩ | ⟨hstop, -⟩ | ⟨-, hfault⟩ :=
      fatHop_cases fat geometry cluster
    · exact absurd (hn.symm.trans hval) hend
    · exact hstop
    · rcases hfault hheap with h | h | h | ⟨h, -⟩
      · exact absurd hin h
      · exact absurd (h.symm.trans hval) (by decide)
      · exact absurd (h.symm.trans hval) (by decide)
      · exact absurd hval h

/-- A heap cluster is faulty exactly when the iterator fails there. -/
theorem fatFault_iff (hheap : HeapCluster geometry cluster) :
    FatFault fat geometry cluster ↔ ∃ e, fatHop fat geometry cluster = .fail e := by
  constructor
  · intro h
    obtain ⟨n, -, -, hin, rfl, hfree, hbad, -, hnext⟩ | ⟨-, -, hin, hend⟩ | ⟨hfail, -⟩ :=
      fatHop_cases fat geometry cluster
    · rcases h with h | h | h | ⟨-, h⟩
      · exact absurd hin h
      · exact absurd h hfree
      · exact absurd h hbad
      · exact absurd hnext h
    · rcases h with h | h | h | ⟨h, -⟩
      · exact absurd hin h
      · exact absurd (h.symm.trans hend) (by decide)
      · exact absurd (h.symm.trans hend) (by decide)
      · exact absurd hend h
    · exact hfail
  · rintro ⟨e, he⟩
    obtain ⟨n, hn, -⟩ | ⟨hstop, -⟩ | ⟨-, hfault⟩ := fatHop_cases fat geometry cluster
    · cases hn.symm.trans he
    · cases hstop.symm.trans he
    · exact hfault hheap

end Hops

namespace FatChain

variable {chain : FatChain} {item : Except ExfatAllocationError ℕ}
  {items : List (Except ExfatAllocationError ℕ)}

/-- One call while the count allows it. -/
theorem step_of_lt {cluster : ℕ} (h : chain.next = some cluster)
    (hlt : chain.traversed < chain.geometry.clusterCount) :
    chain.step = match fatHop chain.fat chain.geometry cluster with
      | .stop => (some (.ok cluster), { chain with next := none, traversed := chain.traversed + 1 })
      | .fail e =>
        (some (.error e), { chain with next := none, traversed := chain.traversed + 1 })
      | .next next =>
        (some (.ok cluster), { chain with next := some next, traversed := chain.traversed + 1 }) := by
  rw [step, h]
  dsimp only
  rw [if_neg hlt.not_ge, fatHop]
  cases fatEntry chain.fat chain.geometry cluster with
  | error e => rfl
  | ok entry => cases entry <;> rfl

theorem yields_nil (h : chain.next = none) : chain.Yields [] := by
  intro n
  induction n with
  | zero => rfl
  | succ n ih =>
    have hstep : chain.step = (none, chain) := by rw [step, h]
    rw [calls, hstep, ih, List.range_succ_eq_map, List.map_cons, List.map_map]
    rfl

theorem yields_cons {rest : FatChain} (hstep : chain.step = (some item, rest))
    (h : rest.Yields items) : chain.Yields (item :: items) := by
  intro n
  cases n with
  | zero => rfl
  | succ n =>
    rw [calls, hstep, h n, List.range_succ_eq_map, List.map_cons, List.map_map]
    rfl

/-- The items of the iterator are those of a bounded walk. -/
theorem yields_walk {cluster : ℕ} (h : chain.next = some cluster) :
    chain.Yields (Walk.walk (fatHop chain.fat chain.geometry)
      (.chainCycleOrTooLong chain.startCluster)
      (chain.geometry.clusterCount - chain.traversed) cluster) := by
  generalize hrounds : chain.geometry.clusterCount - chain.traversed = rounds
  induction rounds generalizing chain cluster with
  | zero =>
    refine @yields_cons chain _ _ { chain with next := none } ?_ (yields_nil rfl)
    rw [step, h]
    dsimp only
    rw [if_pos (by omega)]
  | succ rounds ih =>
    have hstep := step_of_lt h (by omega)
    rw [Walk.walk]
    cases hhop : fatHop chain.fat chain.geometry cluster with
    | stop =>
      rw [hhop] at hstep
      exact yields_cons hstep (yields_nil rfl)
    | fail e =>
      rw [hhop] at hstep
      exact yields_cons hstep (yields_nil rfl)
    | next b =>
      rw [hhop] at hstep
      refine yields_cons hstep (ih rfl ?_)
      show chain.geometry.clusterCount - (chain.traversed + 1) = rounds
      omega

end FatChain

/-- The clusters of the heap. -/
theorem mem_heap_iff {geometry : ExfatBootSector} {cluster : ℕ}
    (h : 2 + geometry.clusterCount < wordBound32) :
    cluster ∈ Finset.Ico 2 (2 + geometry.clusterCount) ↔ HeapCluster geometry cluster := by
  rw [Finset.mem_Ico]
  exact ⟨fun hc => ⟨h, hc⟩, fun hc => hc.2⟩

/-- **FAT chains.** The iterator yields at most one item more than the heap has clusters. Either the
items are the clusters of a whole chain in the FAT, each once, or clusters and one error behind them;
and there is an error exactly when the chain comes to a faulty entry or into a cycle. -/
theorem fatChain_exact {fat : Bytes} {geometry : ExfatBootSector} {start : ℕ} {chain : FatChain}
    (h : fatChain fat geometry start = .ok chain) :
    ∃ items, chain.Yields items ∧ items.length ≤ geometry.clusterCount + 1 ∧
      ((∃ clusters : List ℕ, items = clusters.map .ok ∧
          Walk.Path (FatLink fat geometry) (FatEnd fat geometry) start clusters ∧
          (∀ cluster ∈ clusters, HeapCluster geometry cluster) ∧ clusters.Nodup) ∨
        ∃ (clusters : List ℕ) (e : ExfatAllocationError), items = clusters.map .ok ++ [.error e]) ∧
      ((∃ e, .error e ∈ items) ↔
        (∃ cluster, ReflTransGen (FatLink fat geometry) start cluster ∧
          FatFault fat geometry cluster) ∨
        ∃ cluster, ReflTransGen (FatLink fat geometry) start cluster ∧
          TransGen (FatLink fat geometry) cluster cluster) := by
  simp only [fatChain, bind_ok_iff, validateCluster_ok_iff, pure_eq_ok, Except.ok.injEq] at h
  obtain ⟨_, hstart, rfl⟩ := h
  have hheap := @mem_heap_iff geometry
  have hcard : (Finset.Ico 2 (2 + geometry.clusterCount)).card = geometry.clusterCount := by
    rw [Nat.card_Ico, Nat.add_sub_cancel_left]
  have hclosed : ∀ b ∈ Finset.Ico 2 (2 + geometry.clusterCount), ∀ c,
      Walk.Next (fatHop fat geometry) b c → c ∈ Finset.Ico 2 (2 + geometry.clusterCount) := by
    intro b hb c hc
    rw [next_fatHop] at hc
    obtain ⟨-, -, -, -, -, -, hc⟩ := hc
    exact (hheap hstart.1).2 hc
  have hmem : start ∈ Finset.Ico 2 (2 + geometry.clusterCount) := (hheap hstart.1).2 hstart
  have hreach {cluster : ℕ} (hc : ReflTransGen (FatLink fat geometry) start cluster) :
      HeapCluster geometry cluster := by
    induction hc with
    | refl => exact hstart
    | tail _ hlink _ => exact hlink.2.2.2.2.2.2
  -- The faults of the walk are the faulty entries of the FAT.
  have hfaults : (∃ b e, ReflTransGen (FatLink fat geometry) start b ∧
      fatHop fat geometry b = .fail e) ↔
      ∃ cluster, ReflTransGen (FatLink fat geometry) start cluster ∧
        FatFault fat geometry cluster := by
    constructor
    · rintro ⟨b, e, hb, he⟩
      exact ⟨b, hb, (fatFault_iff (hreach hb)).2 ⟨e, he⟩⟩
    · rintro ⟨b, hb, hfault⟩
      obtain ⟨e, he⟩ := (fatFault_iff (hreach hb)).1 hfault
      exact ⟨b, e, hb, he⟩
  have hspec := Walk.walk_spec hclosed hmem (.chainCycleOrTooLong start)
  rw [hcard, next_fatHop, last_fatHop, hfaults] at hspec
  refine ⟨_, FatChain.yields_walk rfl, Walk.length_walk_le _ _ _, ?_⟩
  show _ ∧ ((∃ e, .error e ∈ Walk.walk (fatHop fat geometry) (.chainCycleOrTooLong start)
    geometry.clusterCount start) ↔ _)
  rcases hspec with ⟨clusters, hw, hpath, hnofault, hnocycle⟩ | ⟨clusters, e, hw, hcause⟩
  · have hwalk : Walk.Path (Walk.Next (fatHop fat geometry)) (Walk.Last (fatHop fat geometry))
        start clusters := by
      rwa [next_fatHop, last_fatHop]
    refine ⟨.inl ⟨clusters, hw, hpath, fun cluster hc => hreach ?_, hwalk.nodup⟩, ?_⟩
    · rw [← next_fatHop]
      exact hwalk.reach hc
    · rw [hw]
      refine ⟨?_, fun h => ?_⟩
      · rintro ⟨e, he⟩
        obtain ⟨_, -, hc⟩ := List.mem_map.1 he
        cases hc
      · exact absurd h (not_or.2 ⟨hnofault, hnocycle⟩)
  · refine ⟨.inr ⟨clusters, e, hw⟩, ?_⟩
    rw [hw]
    exact ⟨fun _ => hcause, fun _ => ⟨e, by simp⟩⟩

/-- A heap of three clusters whose FAT leads from cluster 2 over 4 to 3. -/
def threeClusters : FatChain where
  fat := [0xF8, 0xFF, 0xFF, 0xFF, 0xFF, 0xFF, 0xFF, 0xFF, 4, 0, 0, 0, 0xFF, 0xFF, 0xFF, 0xFF, 3, 0, 0, 0]
  geometry := ⟨2048, 24, 8, 32, 3, 2, 0, 0, 1, none, 512, 4096⟩
  next := some 2
  traversed := 0
  startCluster := 2

example : threeClusters.calls 5 = [some (.ok 2), some (.ok 4), some (.ok 3), none, none] := by
  decide +kernel

theorem fatChain_exact_three : ∃ items, threeClusters.Yields items ∧ items.length ≤ 4 := by
  obtain ⟨items, hyields, hlength, -⟩ :=
    @fatChain_exact threeClusters.fat threeClusters.geometry 2 threeClusters rfl
  exact ⟨items, hyields, hlength⟩

end StarConverter.Exfat
