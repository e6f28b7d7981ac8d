import Mathlib.Data.Prod.Lex
import StarConverter.Base.Checked
import StarConverter.Base.Spans

/-!
# Extents

Physical and logical placement of stream bytes. An `ExtentGraph` carries what `build` proves of its
extents: every extent lies inside the volume, no two physical ranges overlap, and no two logical
ranges of one stream overlap.
-/

namespace StarConverter

open Base

abbrev ByteRange := Base.Span

/-- Parser-assigned identity of one data stream or metadata object. -/
abbrev StreamId := ℕ

inductive ExtentKind
  | fileData
  | directoryData
  | fileSystemMetadata
  | reserved
  | badCluster
  deriving DecidableEq

inductive Placement
  | physical (byteOffset : ℕ)
  | sparse
  deriving DecidableEq

def Placement.isPhysical : Placement → Bool
  | .physical _ => true
  | .sparse => false

structure Extent where
  stream : StreamId
  logicalOffset : ℕ
  length : ℕ
  placement : Placement
  kind : ExtentKind
  deriving DecidableEq

namespace Extent

/-- The logical range of an extent within its stream. -/
def logical (e : Extent) : ByteRange := ⟨e.logicalOffset, e.length⟩

/-- The physical range of an extent, if it has one. -/
def physical? (e : Extent) : Option ByteRange :=
  match e.placement with
  | .physical byteOffset => some ⟨byteOffset, e.length⟩
  | .sparse => none

end Extent

inductive ExtentGraphError
  | tooManyExtents (actual maximum : ℕ)
  | zeroLength (stream : StreamId) (logicalOffset : ℕ)
  | logicalRangeOverflow (stream : StreamId) (logicalOffset length : ℕ)
  | physicalRangeOverflow (byteOffset length : ℕ)
  | physicalRangeOutsideVolume (byteOffset length volumeBytes : ℕ)
  | sparseMetadata (stream : StreamId) (kind : ExtentKind)
  | logicalOverlap (stream : StreamId) (firstOffset secondOffset : ℕ)
  | physicalOverlap (firstOffset secondOffset : ℕ)
  | accountingOverflow
  deriving DecidableEq

/-! ## Validation -/

def validateExtent (extent : Extent) (volumeBytes : ℕ) : Except ExtentGraphError Unit := do
  ensure (extent.length ≠ 0) (.zeroLength extent.stream extent.logicalOffset)
  let _ ← orErr (checkedAdd extent.logicalOffset extent.length)
    (.logicalRangeOverflow extent.stream extent.logicalOffset extent.length)
  match extent.placement with
  | .physical byteOffset =>
    let stop ← orErr (checkedAdd byteOffset extent.length)
      (.physicalRangeOverflow byteOffset extent.length)
    ensure (stop ≤ volumeBytes) (.physicalRangeOutsideVolume byteOffset extent.length volumeBytes)
  | .sparse => ensure (extent.kind = .fileData) (.sparseMetadata extent.stream extent.kind)

def validateLogicalRanges (extents : List Extent) : Except ExtentGraphError Unit :=
  checkPairs (fun first second =>
    ensure (¬ (first.stream = second.stream ∧
        second.logicalOffset < first.logicalOffset + first.length))
      (.logicalOverlap first.stream first.logicalOffset second.logicalOffset))
    (sortByKey (fun e => toLex (e.stream, e.logicalOffset)) extents)

def validatePhysicalRanges (extents : List Extent) : Except ExtentGraphError Unit :=
  checkPairs (fun first second =>
    ensure (first.offset + first.length ≤ second.offset)
      (.physicalOverlap first.offset second.offset))
    (sortByKey (fun r : ByteRange => r.offset) (extents.filterMap Extent.physical?))

def placementSortKey : Placement → ℕ ×ₗ ℕ
  | .physical byteOffset => toLex (0, byteOffset)
  | .sparse => toLex (1, 0)

def extentSortKey (e : Extent) : ℕ ×ₗ ℕ ×ₗ ℕ ×ₗ ℕ :=
  toLex (e.stream, toLex (e.logicalOffset, placementSortKey e.placement))

/-- Bytes of physical and of sparse extents, in order, each total checked. -/
def accountExtents : ℕ × ℕ → List Extent → Except ExtentGraphError (ℕ × ℕ)
  | totals, [] => pure totals
  | (physical, sparse), e :: rest =>
    match e.placement with
    | .physical _ => do
      let physical ← orErr (checkedAdd physical e.length) .accountingOverflow
      accountExtents (physical, sparse) rest
    | .sparse => do
      let sparse ← orErr (checkedAdd sparse e.length) .accountingOverflow
      accountExtents (physical, sparse) rest

/-- The checks of `build` and the values it stores: ordered extents and byte totals. -/
def checkExtents (extents : List Extent) (volumeBytes maxExtents : ℕ) :
    Except ExtentGraphError (List Extent × ℕ × ℕ) := do
  ensure (extents.length ≤ maxExtents) (.tooManyExtents extents.length maxExtents)
  checkAll (fun e => validateExtent e volumeBytes) extents
  validateLogicalRanges extents
  validatePhysicalRanges extents
  let ordered := sortByKey extentSortKey extents
  let totals ← accountExtents (0, 0) ordered
  pure (ordered, totals)

/-! ## What the checks say -/

/-- An extent is nonempty, its ranges fit a word, a physical range lies inside the volume, and only
file data is sparse. -/
structure Extent.Valid (volumeBytes : ℕ) (e : Extent) : Prop where
  nonempty : 0 < e.length
  logical_lt : e.logicalOffset + e.length < wordBound
  physical : ∀ r, e.physical? = some r → r.stop < wordBound ∧ r.stop ≤ volumeBytes
  sparse : e.physical? = none → e.kind = .fileData

theorem validateExtent_ok_iff {e : Extent} {volumeBytes : ℕ} {u : Unit} :
    validateExtent e volumeBytes = .ok u ↔ e.Valid volumeBytes := by
  unfold validateExtent
  simp only [bind_ok_iff, exists_const, ensure_ok_iff, orErr_ok_iff, checkedAdd_eq_some]
  cases hp : e.placement with
  | physical byteOffset =>
    simp only [bind_ok_iff, ensure_ok_iff, orErr_ok_iff, checkedAdd_eq_some]
    constructor
    · rintro ⟨hn, _, ⟨hl, rfl⟩, _, ⟨hw, rfl⟩, hv⟩
      refine ⟨by omega, hl, ?_, ?_⟩
      · simp only [Extent.physical?, hp, Option.some.injEq]
        rintro r rfl
        exact ⟨hw, hv⟩
      · simp [Extent.physical?, hp]
    · intro h
      have hphys := h.physical ⟨byteOffset, e.length⟩ (by simp [Extent.physical?, hp])
      have := h.nonempty
      exact ⟨by omega, _, ⟨h.logical_lt, rfl⟩, _, ⟨hphys.1, rfl⟩, hphys.2⟩
  | sparse =>
    simp only [ensure_ok_iff]
    constructor
    · rintro ⟨hn, _, ⟨hl, rfl⟩, hk⟩
      exact ⟨by omega, hl, by simp [Extent.physical?, hp], fun _ => hk⟩
    · intro h
      have := h.nonempty
      exact ⟨by omega, _, ⟨h.logical_lt, rfl⟩, h.sparse (by simp [Extent.physical?, hp])⟩

/-- Extents of one stream have disjoint logical ranges. -/
def LogicallyDisjoint (a b : Extent) : Prop := a.stream = b.stream → a.logical.Disjoint b.logical

/-- Physical ranges are disjoint. -/
def PhysicallyDisjoint (a b : Extent) : Prop :=
  ∀ r ∈ a.physical?, ∀ s ∈ b.physical?, r.Disjoint s

theorem before_iff_disjoint {r s : ByteRange} (hr : 0 < r.length) (hs : 0 < s.length)
    (hle : r.offset ≤ s.offset) : r.offset + r.length ≤ s.offset ↔ r.Disjoint s := by
  constructor
  · exact fun h => Span.Before.disjoint h
  · intro h
    rcases Span.before_or_before hr hs h with h' | h'
    · exact h'
    · unfold Span.Before Span.stop at h'; omega

/-- Neighbours in an order by stream and logical offset decide the logical ranges. -/
theorem isChain_logical_iff {extents ordered : List Extent} (hpos : ∀ e ∈ extents, 0 < e.length)
    (h : SortedBy (fun e : Extent => toLex (e.stream, e.logicalOffset)) extents ordered) :
    List.IsChain (fun first second : Extent => ¬ (first.stream = second.stream ∧
      second.logicalOffset < first.logicalOffset + first.length)) ordered ↔
      extents.Pairwise LogicallyDisjoint := by
  refine h.isChain_iff (fun a b h hs => (h hs.symm).symm) ?_ ?_
  · intro a ha b hb hkey
    rw [Prod.Lex.toLex_le_toLex] at hkey
    unfold LogicallyDisjoint
    by_cases hs : a.stream = b.stream
    · have hle : a.logicalOffset ≤ b.logicalOffset := by
        rcases hkey with h | h
        · exact absurd hs h.ne
        · exact h.2
      rw [← before_iff_disjoint (r := a.logical) (s := b.logical) (hpos a ha) (hpos b hb) hle]
      simp [hs, Extent.logical]
    · simp [hs]
  · intro a ha b hb c hc hab hbc h1 h2
    simp only [Prod.Lex.toLex_le_toLex] at hab hbc
    have hbpos := hpos b hb
    rintro ⟨hs, hlt⟩
    have hsab : a.stream = b.stream := by
      rcases hab with h | h
      · have hle : b.stream ≤ c.stream := hbc.elim (fun h' => h'.le) (fun h' => h'.1.le)
        exact absurd hs (h.trans_le hle).ne
      · exact h.1
    have hsbc : b.stream = c.stream := hsab.symm.trans hs
    have h1' : a.logicalOffset + a.length ≤ b.logicalOffset := by
      by_contra hn; exact h1 ⟨hsab, by omega⟩
    have h2' : b.logicalOffset + b.length ≤ c.logicalOffset := by
      by_contra hn; exact h2 ⟨hsbc, by omega⟩
    omega

theorem validateLogicalRanges_ok_iff {extents : List Extent} (hpos : ∀ e ∈ extents, 0 < e.length)
    {u : Unit} :
    validateLogicalRanges extents = .ok u ↔ extents.Pairwise LogicallyDisjoint := by
  unfold validateLogicalRanges
  rw [checkPairs_ok_iff]
  simp only [ensure_ok_iff]
  exact isChain_logical_iff hpos (sortedBy_sortByKey _ _)

/-- Ordering ranges by offset and comparing neighbours decides disjointness. -/
theorem isChain_before_iff {ranges ordered : List ByteRange} (hpos : ∀ r ∈ ranges, 0 < r.length)
    (h : SortedBy (fun r : ByteRange => r.offset) ranges ordered) :
    List.IsChain (fun r s : ByteRange => r.offset + r.length ≤ s.offset) ordered ↔
      ranges.Pairwise Span.Disjoint := by
  refine h.isChain_iff (fun a b h => h.symm) ?_ ?_
  · intro a ha b hb hkey
    exact before_iff_disjoint (hpos a ha) (hpos b hb) hkey
  · intro a ha b hb c hc hab hbc h1 h2
    omega

theorem isChain_offset_iff {ranges : List ByteRange} (hpos : ∀ r ∈ ranges, 0 < r.length) :
    List.IsChain (fun r s : ByteRange => r.offset + r.length ≤ s.offset)
      (sortByKey (fun r : ByteRange => r.offset) ranges) ↔ ranges.Pairwise Span.Disjoint :=
  isChain_before_iff hpos (sortedBy_sortByKey _ _)

theorem pairwise_filterMap_physical {extents : List Extent} :
    (extents.filterMap Extent.physical?).Pairwise Span.Disjoint ↔
      extents.Pairwise PhysicallyDisjoint := by
  rw [List.pairwise_filterMap]
  exact ⟨fun h => h.imp fun h r hr s hs => h r hr s hs, fun h => h.imp fun h r hr s hs => h r hr s hs⟩

theorem physical_length {e : Extent} {r : ByteRange} (h : e.physical? = some r) :
    r.length = e.length := by
  unfold Extent.physical? at h
  split at h
  · obtain rfl := Option.some.inj h; rfl
  · cases h

theorem physical_pos {extents : List Extent} (hpos : ∀ e ∈ extents, 0 < e.length) :
    ∀ r ∈ extents.filterMap Extent.physical?, 0 < r.length := by
  intro r hr
  obtain ⟨e, he, hr⟩ := List.mem_filterMap.1 hr
  rw [physical_length hr]
  exact hpos e he

theorem validatePhysicalRanges_ok_iff {extents : List Extent} (hpos : ∀ e ∈ extents, 0 < e.length)
    {u : Unit} :
    validatePhysicalRanges extents = .ok u ↔ extents.Pairwise PhysicallyDisjoint := by
  unfold validatePhysicalRanges
  rw [checkPairs_ok_iff, ← pairwise_filterMap_physical]
  simp only [ensure_ok_iff]
  exact isChain_offset_iff (physical_pos hpos)

/-- Physical bytes and sparse bytes of a list of extents. -/
def physicalBytes (extents : List Extent) : ℕ :=
  ((extents.filter fun e => e.placement.isPhysical).map Extent.length).sum

def sparseBytes (extents : List Extent) : ℕ :=
  ((extents.filter fun e => !e.placement.isPhysical).map Extent.length).sum

theorem accountExtents_ok_iff {extents : List Extent} {p s : ℕ} (hp : p < wordBound)
    (hs : s < wordBound) {r : ℕ × ℕ} :
    accountExtents (p, s) extents = .ok r ↔
      p + physicalBytes extents < wordBound ∧ s + sparseBytes extents < wordBound ∧
        r = (p + physicalBytes extents, s + sparseBytes extents) := by
  induction extents generalizing p s with
  | nil => simp [accountExtents, physicalBytes, sparseBytes, hp, hs, eq_comm]
  | cons e rest ih =>
    cases hpl : e.placement with
    | physical byteOffset =>
      have h1 : physicalBytes (e :: rest) = e.length + physicalBytes rest := by
        simp [physicalBytes, hpl, Placement.isPhysical]
      have h2 : sparseBytes (e :: rest) = sparseBytes rest := by
        simp [sparseBytes, hpl, Placement.isPhysical]
      simp only [accountExtents, hpl, bind_ok_iff, orErr_ok_iff, checkedAdd_eq_some, h1, h2]
      constructor
      · rintro ⟨_, ⟨hlt, rfl⟩, hr⟩
        rw [ih hlt hs] at hr
        rwa [← Nat.add_assoc]
      · rintro ⟨ha, hb, hr⟩
        refine ⟨_, ⟨by omega, rfl⟩, (ih (by omega) hs).2 ?_⟩
        rw [Nat.add_assoc]
        exact ⟨ha, hb, hr⟩
    | sparse =>
      have h1 : physicalBytes (e :: rest) = physicalBytes rest := by
        simp [physicalBytes, hpl, Placement.isPhysical]
      have h2 : sparseBytes (e :: rest) = e.length + sparseBytes rest := by
        simp [sparseBytes, hpl, Placement.isPhysical]
      simp only [accountExtents, hpl, bind_ok_iff, orErr_ok_iff, checkedAdd_eq_some, h1, h2]
      constructor
      · rintro ⟨_, ⟨hlt, rfl⟩, hr⟩
        rw [ih hp hlt] at hr
        rwa [← Nat.add_assoc]
      · rintro ⟨ha, hb, hr⟩
        refine ⟨_, ⟨by omega, rfl⟩, (ih hp (by omega)).2 ?_⟩
        rw [Nat.add_assoc]
        exact ⟨ha, hb, hr⟩

/-! ## The graph -/

/-- Validated, deterministically ordered extents of a bounded volume. -/
structure ExtentGraph where
  volumeBytes : ℕ
  extents : List Extent
  physicallyAllocatedBytes : ℕ
  sparseBytes : ℕ
  valid : ∀ e ∈ extents, e.Valid volumeBytes
  logical : extents.Pairwise LogicallyDisjoint
  physical : extents.Pairwise PhysicallyDisjoint
  sorted : extents.Pairwise fun a b => extentSortKey a ≤ extentSortKey b
  physical_eq : physicallyAllocatedBytes = physicalBytes extents
  sparse_eq : sparseBytes = StarConverter.sparseBytes extents
  physical_lt : physicalBytes extents < wordBound
  sparse_lt : StarConverter.sparseBytes extents < wordBound
  deriving DecidableEq

/-- What the checks of `build` amount to. -/
structure Buildable (extents : List Extent) (volumeBytes maxExtents : ℕ) : Prop where
  count : extents.length ≤ maxExtents
  valid : ∀ e ∈ extents, e.Valid volumeBytes
  logical : extents.Pairwise LogicallyDisjoint
  physical : extents.Pairwise PhysicallyDisjoint
  physical_lt : physicalBytes extents < wordBound
  sparse_lt : sparseBytes extents < wordBound

theorem physicalBytes_perm {l l' : List Extent} (h : l.Perm l') :
    physicalBytes l = physicalBytes l' := ((h.filter _).map _).sum_eq

theorem sparseBytes_perm {l l' : List Extent} (h : l.Perm l') :
    sparseBytes l = sparseBytes l' := ((h.filter _).map _).sum_eq

/-- The checks of `build` with the orders its three sorts left. -/
def checkExtentsIn (extents logical : List Extent) (physical : List ByteRange)
    (ordered : List Extent) (volumeBytes maxExtents : ℕ) :
    Except ExtentGraphError (List Extent × ℕ × ℕ) := do
  ensure (extents.length ≤ maxExtents) (.tooManyExtents extents.length maxExtents)
  checkAll (fun e => validateExtent e volumeBytes) extents
  checkPairs (fun first second =>
    ensure (¬ (first.stream = second.stream ∧
        second.logicalOffset < first.logicalOffset + first.length))
      (.logicalOverlap first.stream first.logicalOffset second.logicalOffset)) logical
  checkPairs (fun first second =>
    ensure (first.offset + first.length ≤ second.offset)
      (.physicalOverlap first.offset second.offset)) physical
  let totals ← accountExtents (0, 0) ordered
  pure (ordered, totals)

theorem checkExtents_eq (extents : List Extent) (volumeBytes maxExtents : ℕ) :
    checkExtents extents volumeBytes maxExtents =
      checkExtentsIn extents (sortByKey (fun e => toLex (e.stream, e.logicalOffset)) extents)
        (sortByKey (fun r : ByteRange => r.offset) (extents.filterMap Extent.physical?))
        (sortByKey extentSortKey extents) volumeBytes maxExtents := rfl

/-- **The checks of `build`.** However the sorts break ties, they say the same. -/
theorem checkExtentsIn_ok_iff {extents logical ordered : List Extent} {physical : List ByteRange}
    {volumeBytes maxExtents : ℕ} {r : List Extent × ℕ × ℕ}
    (hlogical : SortedBy (fun e : Extent => toLex (e.stream, e.logicalOffset)) extents logical)
    (hphysical : SortedBy (fun r : ByteRange => r.offset) (extents.filterMap Extent.physical?)
      physical)
    (hordered : ordered.Perm extents) :
    checkExtentsIn extents logical physical ordered volumeBytes maxExtents = .ok r ↔
      Buildable extents volumeBytes maxExtents ∧
        r = (ordered, physicalBytes extents, sparseBytes extents) := by
  have hacc : ∀ t, accountExtents (0, 0) ordered = .ok t ↔
      physicalBytes extents < wordBound ∧ sparseBytes extents < wordBound ∧
        t = (physicalBytes extents, sparseBytes extents) := by
    intro t
    rw [accountExtents_ok_iff wordBound_pos wordBound_pos, physicalBytes_perm hordered,
      sparseBytes_perm hordered, Nat.zero_add, Nat.zero_add]
  unfold checkExtentsIn
  simp only [bind_ok_iff, exists_const, ensure_ok_iff, checkAll_ok_iff, checkPairs_ok_iff,
    validateExtent_ok_iff, hacc, pure_eq_ok, Except.ok.injEq]
  constructor
  · rintro ⟨hc, hv, hl, hp, t, ⟨h1, h2, rfl⟩, rfl⟩
    have hpos : ∀ e ∈ extents, 0 < e.length := fun e he => (hv e he).nonempty
    have hp := (isChain_before_iff (physical_pos hpos) hphysical).1 hp
    exact ⟨⟨hc, hv, (isChain_logical_iff hpos hlogical).1 hl, pairwise_filterMap_physical.1 hp,
      h1, h2⟩, rfl⟩
  · rintro ⟨h, rfl⟩
    have hpos : ∀ e ∈ extents, 0 < e.length := fun e he => (h.valid e he).nonempty
    have hp := (isChain_before_iff (physical_pos hpos) hphysical).2
      (pairwise_filterMap_physical.2 h.physical)
    exact ⟨h.count, h.valid, (isChain_logical_iff hpos hlogical).2 h.logical, hp, _,
      ⟨h.physical_lt, h.sparse_lt, rfl⟩, rfl⟩

theorem checkExtents_ok_iff {extents : List Extent} {volumeBytes maxExtents : ℕ}
    {r : List Extent × ℕ × ℕ} :
    checkExtents extents volumeBytes maxExtents = .ok r ↔
      Buildable extents volumeBytes maxExtents ∧
        r = (sortByKey extentSortKey extents, physicalBytes extents, sparseBytes extents) := by
  rw [checkExtents_eq]
  exact checkExtentsIn_ok_iff (sortedBy_sortByKey _ _) (sortedBy_sortByKey _ _) (sortByKey_perm _ _)

/-- Validates and orders a bounded collection of extents. -/
def ExtentGraph.build (extents : List Extent) (volumeBytes maxExtents : ℕ) :
    Except ExtentGraphError ExtentGraph :=
  match h : checkExtents extents volumeBytes maxExtents with
  | .error e => .error e
  | .ok (ordered, physicallyAllocatedBytes, sparseBytes) => .ok
    { volumeBytes := volumeBytes
      extents := ordered
      physicallyAllocatedBytes := physicallyAllocatedBytes
      sparseBytes := sparseBytes
      valid := by
        obtain ⟨hb, heq⟩ := checkExtents_ok_iff.1 h
        simp only [Prod.mk.injEq] at heq
        obtain ⟨rfl, -, -⟩ := heq
        exact fun e he => hb.valid e (mem_sortByKey.1 he)
      logical := by
        obtain ⟨hb, heq⟩ := checkExtents_ok_iff.1 h
        simp only [Prod.mk.injEq] at heq
        obtain ⟨rfl, -, -⟩ := heq
        exact (sortByKey_perm _ _).symm.pairwise hb.logical fun h hs => (h hs.symm).symm
      physical := by
        obtain ⟨hb, heq⟩ := checkExtents_ok_iff.1 h
        simp only [Prod.mk.injEq] at heq
        obtain ⟨rfl, -, -⟩ := heq
        exact (sortByKey_perm _ _).symm.pairwise hb.physical
          fun h r hr s hs => (h s hs r hr).symm
      sorted := by
        obtain ⟨-, heq⟩ := checkExtents_ok_iff.1 h
        simp only [Prod.mk.injEq] at heq
        obtain ⟨rfl, -, -⟩ := heq
        exact sortByKey_sorted _ _
      physical_eq := by
        obtain ⟨-, heq⟩ := checkExtents_ok_iff.1 h
        simp only [Prod.mk.injEq] at heq
        obtain ⟨rfl, rfl, -⟩ := heq
        exact (physicalBytes_perm (sortByKey_perm _ _)).symm
      sparse_eq := by
        obtain ⟨-, heq⟩ := checkExtents_ok_iff.1 h
        simp only [Prod.mk.injEq] at heq
        obtain ⟨rfl, -, rfl⟩ := heq
        exact (sparseBytes_perm (sortByKey_perm _ _)).symm
      physical_lt := by
        obtain ⟨hb, heq⟩ := checkExtents_ok_iff.1 h
        simp only [Prod.mk.injEq] at heq
        obtain ⟨rfl, -, -⟩ := heq
        rw [physicalBytes_perm (sortByKey_perm _ _)]
        exact hb.physical_lt
      sparse_lt := by
        obtain ⟨hb, heq⟩ := checkExtents_ok_iff.1 h
        simp only [Prod.mk.injEq] at heq
        obtain ⟨rfl, -, -⟩ := heq
        rw [sparseBytes_perm (sortByKey_perm _ _)]
        exact hb.sparse_lt }

/-- **Building an extent graph.** -/
theorem ExtentGraph.build_ok_iff {extents : List Extent} {volumeBytes maxExtents : ℕ}
    {g : ExtentGraph} :
    ExtentGraph.build extents volumeBytes maxExtents = .ok g ↔
      Buildable extents volumeBytes maxExtents ∧ g.volumeBytes = volumeBytes ∧
        g.extents = sortByKey extentSortKey extents := by
  unfold ExtentGraph.build
  split
  · next e h =>
    simp only [reduceCtorEq, false_iff]
    rintro ⟨hb, -⟩
    rw [checkExtents_ok_iff.2 ⟨hb, rfl⟩] at h
    cases h
  · next ordered p s h =>
    obtain ⟨hb, heq⟩ := checkExtents_ok_iff.1 h
    simp only [Prod.mk.injEq] at heq
    obtain ⟨rfl, rfl, rfl⟩ := heq
    constructor
    · intro hg
      obtain rfl := Except.ok.inj hg
      exact ⟨hb, rfl, rfl⟩
    · rintro ⟨-, hv, he⟩
      have hperm := sortByKey_perm extentSortKey extents
      have h1 := g.physical_eq
      have h2 := g.sparse_eq
      rw [he, physicalBytes_perm hperm] at h1
      rw [he, sparseBytes_perm hperm] at h2
      cases g
      simp only at hv he h1 h2
      subst hv he h1 h2
      rfl

theorem ExtentGraph.exists_build {extents : List Extent} {volumeBytes maxExtents : ℕ}
    (h : Buildable extents volumeBytes maxExtents) :
    ∃ g, ExtentGraph.build extents volumeBytes maxExtents = .ok g := by
  unfold ExtentGraph.build
  split
  · next e he =>
    rw [checkExtents_ok_iff.2 ⟨h, rfl⟩] at he
    cases he
  · exact ⟨_, rfl⟩

/-! ## The order of the extents -/

/-- An extent of a list is determined by its place in the order of a graph. -/
theorem eq_of_sortKey {l : List Extent} (hpos : ∀ e ∈ l, 0 < e.length)
    (hlog : l.Pairwise LogicallyDisjoint) {a b : Extent} (ha : a ∈ l) (hb : b ∈ l)
    (hle : extentSortKey a ≤ extentSortKey b) (hle' : extentSortKey b ≤ extentSortKey a) : a = b := by
  have hkey := le_antisymm hle hle'
  simp only [extentSortKey, toLex_inj, Prod.mk.injEq] at hkey
  by_contra hne
  have hsymm : Std.Symm LogicallyDisjoint := ⟨fun x y h hs => (h hs.symm).symm⟩
  have hd := hlog.forall ha hb hne
  have h1 := hpos a ha
  have h2 := hpos b hb
  refine hd hkey.1 a.logicalOffset ⟨le_rfl, ?_⟩ ⟨hkey.2.1.ge, ?_⟩
  · simp only [Span.stop, Extent.logical]; omega
  · have := hkey.2.1
    simp only [Span.stop, Extent.logical]
    omega

theorem Buildable.perm {extents other : List Extent} {volumeBytes maxExtents : ℕ}
    (h : Buildable extents volumeBytes maxExtents) (hperm : other.Perm extents) :
    Buildable other volumeBytes maxExtents where
  count := hperm.length_eq ▸ h.count
  valid := fun e he => h.valid e (hperm.mem_iff.1 he)
  logical := hperm.symm.pairwise h.logical fun h hs => (h hs.symm).symm
  physical := hperm.symm.pairwise h.physical fun h r hr s hs => (h s hs r hr).symm
  physical_lt := by rw [physicalBytes_perm hperm]; exact h.physical_lt
  sparse_lt := by rw [sparseBytes_perm hperm]; exact h.sparse_lt

/-- Accepted extents have one order by their sort key. -/
theorem Buildable.ordered_eq {extents other s s' : List Extent} {volumeBytes maxExtents : ℕ}
    (h : Buildable extents volumeBytes maxExtents) (hs : SortedBy extentSortKey extents s)
    (hs' : SortedBy extentSortKey other s') (hperm : other.Perm extents) : s' = s := by
  refine hs.eq hs' hperm fun a ha b hb hkey => ?_
  exact eq_of_sortKey (fun e he => (h.valid e he).nonempty) h.logical ha hb hkey.le hkey.ge

/-- **Building an extent graph does not depend on the order of the extents.** It succeeds exactly for
the lists that fit the cap and the volume, do not overlap and have byte totals of one word; permuted
lists give one graph or both fail; and the checks give one result whatever the three sorts make of
extents their keys do not tell apart. -/
theorem ExtentGraph.build_exact (extents : List Extent) (volumeBytes maxExtents : ℕ) :
    ((∃ graph, ExtentGraph.build extents volumeBytes maxExtents = .ok graph) ↔
      Buildable extents volumeBytes maxExtents) ∧
    (∀ other : List Extent, other.Perm extents →
      (ExtentGraph.build other volumeBytes maxExtents).toOption =
        (ExtentGraph.build extents volumeBytes maxExtents).toOption) ∧
    (∀ logical physical ordered,
      SortedBy (fun e : Extent => toLex (e.stream, e.logicalOffset)) extents logical →
      SortedBy (fun r : ByteRange => r.offset) (extents.filterMap Extent.physical?) physical →
      SortedBy extentSortKey extents ordered →
      (checkExtentsIn extents logical physical ordered volumeBytes maxExtents).toOption =
        (checkExtents extents volumeBytes maxExtents).toOption) := by
  refine ⟨⟨fun ⟨g, hg⟩ => (ExtentGraph.build_ok_iff.1 hg).1, ExtentGraph.exists_build⟩, ?_, ?_⟩
  · intro other hperm
    refine toOption_eq_of_ok_iff fun g => ?_
    rw [ExtentGraph.build_ok_iff, ExtentGraph.build_ok_iff]
    constructor
    · rintro ⟨h, hv, he⟩
      have hb := h.perm hperm.symm
      refine ⟨hb, hv, he.trans ?_⟩
      exact hb.ordered_eq (sortedBy_sortByKey _ _) (sortedBy_sortByKey _ _) hperm
    · rintro ⟨h, hv, he⟩
      refine ⟨h.perm hperm, hv, he.trans (Eq.symm ?_)⟩
      exact h.ordered_eq (sortedBy_sortByKey _ _) (sortedBy_sortByKey _ _) hperm
  · intro logical physical ordered hl hp ho
    refine toOption_eq_of_ok_iff fun r => ?_
    rw [checkExtentsIn_ok_iff hl hp ho.perm, checkExtents_ok_iff]
    refine and_congr_right fun h => ?_
    rw [h.ordered_eq (sortedBy_sortByKey _ _) ho (List.Perm.refl _)]

end StarConverter
