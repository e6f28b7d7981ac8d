import StarConverter.Geometry.FreeSpace

/-!
# Soundness of the layout solver

The two-pointer passes over sorted ranges find exactly the overlaps (`collectConflicts_ok`,
`walkExclusions_ok`), and every solved layout is a `SoundLayout`: fresh, placed, pairwise disjoint
targets, exactly the required relocations and materializations, and an exact free list
(`solveLayout_sound`).
-/

namespace StarConverter

open Base

namespace Geometry

/-! ## Validated input -/

/-- A range that passed `validate_range`. -/
structure ValidRange (volumeBytes alignment : ℕ) (r : ByteRange) : Prop where
  nonempty : 0 < r.length
  stop_lt : r.stop < wordBound
  stop_le : r.stop ≤ volumeBytes
  offset_aligned : r.offset % alignment = 0
  length_aligned : r.length % alignment = 0

theorem validateRange_ok_iff {volumeBytes alignment : ℕ} {r : ByteRange} {u : Unit} :
    validateRange volumeBytes alignment r = .ok u ↔ ValidRange volumeBytes alignment r := by
  simp only [validateRange, bind_ok_iff, exists_const, ensure_ok_iff, rangeEnd_ok_iff]
  constructor
  · rintro ⟨hn, _, ⟨hw, rfl⟩, hv, ho, hl⟩
    exact ⟨Nat.pos_of_ne_zero hn, hw, hv, ho, hl⟩
  · intro h
    exact ⟨h.nonempty.ne', _, ⟨h.stop_lt, rfl⟩, h.stop_le, h.offset_aligned, h.length_aligned⟩

theorem validateNonoverlap_ok_iff {overlap : ℕ → ℕ → LayoutError} {l : List ByteRange} {u : Unit}
    (hw : ∀ r ∈ l, r.stop < wordBound) :
    validateNonoverlap overlap l = .ok u ↔ Ordered l := by
  unfold validateNonoverlap Ordered
  rw [checkPairs_ok_iff, ← List.isChain_iff_pairwise]
  constructor
  · intro h
    refine h.imp fun r s hrs => ?_
    simp only [bind_ok_iff, rangeEnd_ok_iff, ensure_ok_iff] at hrs
    obtain ⟨_, ⟨-, rfl⟩, hle⟩ := hrs
    exact hle
  · intro h
    refine h.imp_of_mem_imp fun r s hr _ hrs => ?_
    simp only [bind_ok_iff, rangeEnd_ok_iff, ensure_ok_iff]
    exact ⟨_, ⟨hw r hr, rfl⟩, hrs⟩

/-- What the checks on unsorted input say. -/
structure ValidInput (i : LayoutInput) : Prop where
  alignments : ∀ a ∈ [i.sourceAlignment, i.destinationAlignment, i.ioAlignment], isPowerOfTwo a
  source : ∀ a ∈ i.source, ValidRange i.volumeBytes i.sourceAlignment a.range
  reservations : ∀ r ∈ i.reservations, ValidRange i.volumeBytes i.ioAlignment r.range
  exclusions : ∀ e ∈ i.stagingExclusions, ValidRange i.volumeBytes i.ioAlignment e
  domain_stop : i.destinationDomain.stop < wordBound ∧ i.destinationDomain.stop ≤ i.volumeBytes
  source_length : ∀ a ∈ i.source, a.range.length % i.destinationAlignment = 0
  requests : ∀ r ∈ i.materializationRequests, r.destinationLength ≠ 0 ∧
    r.destinationLength % i.destinationAlignment = 0 ∧ ∀ a ∈ i.source, a.stream ≠ r.stream
  distinct : (i.materializationRequests.map MaterializationRequest.stream).Nodup

theorem validInput_of_ok {i : LayoutInput} {u : Unit} (h : validateInput i = .ok u) :
    ValidInput i := by
  simp only [validateInput, validateAlignments, validateRanges, validateDestinationLengths,
    validateMaterializationRequests, bind_ok_iff, exists_const, ensure_ok_iff, checkAll_ok_iff,
    validateRange_ok_iff, orErr_ok_iff] at h
  obtain ⟨_, -, ha, _, -, -, -, ⟨hs, hr⟩, _, hd, hl, ⟨-, _, hdup, hreq⟩, he⟩ := h
  have hdom : i.destinationDomain.stop < wordBound ∧ i.destinationDomain.stop ≤ i.volumeBytes := by
    unfold validateDomain at hd
    split_ifs at hd
    · have := validateRange_ok_iff.1 hd; exact ⟨this.stop_lt, this.stop_le⟩
    · have := validateRange_ok_iff.1 hd; exact ⟨this.stop_lt, this.stop_le⟩
  exact ⟨ha, hs, hr, he, hdom, hl, fun r hr => ⟨(hreq r hr).1.1, (hreq r hr).1.2, (hreq r hr).2⟩,
    checkPairs_ne_ok_iff.1 hdup⟩

/-! ## Two-pointer passes -/

theorem skipEnded_ok {offset : ℕ} {l l' : List ByteRange} (h : skipEnded offset l = .ok l') :
    ∃ dropped, l = dropped ++ l' ∧ (∀ r ∈ dropped, r.stop ≤ offset) ∧
      ∀ r ∈ l'.head?, offset < r.stop := by
  induction l with
  | nil => obtain rfl := Except.ok.inj h; exact ⟨[], by simp⟩
  | cons range rest ih =>
    simp only [skipEnded, bind_ok_iff, rangeEnd_ok_iff] at h
    obtain ⟨_, ⟨-, rfl⟩, h⟩ := h
    split_ifs at h with hle
    · obtain ⟨dropped, rfl, h1, h2⟩ := ih h
      exact ⟨range :: dropped, rfl, by simpa [hle] using h1, h2⟩
    · obtain rfl := Except.ok.inj h
      exact ⟨[], rfl, by simp, by simp; omega⟩

/-- The exclusion pass accepts only exclusions disjoint from every source range. -/
theorem walkExclusions_ok {source exclusions : List ByteRange} (hs : Ordered source)
    (he : Ordered exclusions) {u : Unit} (h : walkExclusions source exclusions = .ok u) :
    ∀ s ∈ source, ∀ e ∈ exclusions, s.Disjoint e := by
  induction exclusions generalizing source with
  | nil => simp
  | cons exclusion rest ih =>
    obtain ⟨hbefore, her⟩ := List.pairwise_cons.1 he
    simp only [walkExclusions, bind_ok_iff] at h
    obtain ⟨left, hskip, h⟩ := h
    obtain ⟨dropped, rfl, hd, hhead⟩ := skipEnded_ok hskip
    have hleft : Ordered left := (List.pairwise_append.1 hs).2.1
    -- Dropped ranges end before this exclusion, and so before every later one.
    have hdrop : ∀ s ∈ dropped, ∀ e ∈ exclusion :: rest, s.Disjoint e := by
      intro s hs' e he'
      have hle : s.Before exclusion := hd s hs'
      rcases List.mem_cons.1 he' with rfl | he'
      · exact hle.disjoint
      · exact (hle.trans (hbefore e he')).disjoint
    have hrest : walkExclusions left rest = .ok () ∧ ∀ s ∈ left, s.Disjoint exclusion := by
      cases left with
      | nil => exact ⟨h, by simp⟩
      | cons first more =>
        simp only [bind_ok_iff, exists_const, ensure_ok_iff] at h
        obtain ⟨hit, hov, rfl, h⟩ := h
        have hno : ¬ first.Overlaps exclusion := by
          have := overlaps_ok hov
          simpa using this.symm
        have hstop := hhead first (by simp)
        have hex : exclusion.Before first := by
          unfold Span.Overlaps at hno
          unfold Span.Before
          omega
        refine ⟨h, fun s hs' => ?_⟩
        rcases List.mem_cons.1 hs' with rfl | hs'
        · exact hex.disjoint.symm
        · exact (hex.trans ((List.pairwise_cons.1 hleft).1 s hs')).disjoint.symm
    intro s hs' e he'
    rcases List.mem_append.1 hs' with hs' | hs'
    · exact hdrop s hs' e he'
    · rcases List.mem_cons.1 he' with rfl | he'
      · exact hrest.2 s hs'
      · exact ih hleft her hrest.1 s hs' e he'

/-- A range must leave its place: it is misplaced or overlaps a reservation. -/
def MustMove (domain : ByteRange) (alignment : ℕ) (reservations : List ByteRange)
    (range : ByteRange) : Prop :=
  Misplaced domain alignment range ∨ ∃ r ∈ reservations, range.Overlaps r

instance (domain : ByteRange) (alignment : ℕ) (reservations : List ByteRange) (range : ByteRange) :
    Decidable (MustMove domain alignment reservations range) :=
  inferInstanceAs (Decidable (_ ∨ _))

theorem scanReservations_ok {allocation : SourceAllocation} {found b : Bool}
    {reservations : List ByteRange} (hr : Ordered reservations)
    (h : scanReservations allocation allocation.range.stop found reservations = .ok b) :
    (b = true ↔ found = true ∨ ∃ r ∈ reservations, allocation.range.Overlaps r) ∧
      ((∃ r ∈ reservations, allocation.range.Overlaps r) → allocation.movable = true) := by
  induction reservations generalizing found with
  | nil => obtain rfl := Except.ok.inj h; simp
  | cons reservation rest ih =>
    obtain ⟨hbefore, hor⟩ := List.pairwise_cons.1 hr
    rw [scanReservations] at h
    split_ifs at h with hlt
    · simp only [bind_ok_iff] at h
      obtain ⟨hit, hov, h⟩ := h
      have hhit := overlaps_ok hov
      split_ifs at h with ht
      · simp only [bind_ok_iff, exists_const, ensure_ok_iff] at h
        obtain ⟨hmov, h⟩ := h
        obtain ⟨h1, -⟩ := ih hor h
        have hover : allocation.range.Overlaps reservation := by
          rw [ht] at hhit; simpa using hhit.symm
        refine ⟨?_, fun _ => hmov⟩
        rw [h1]
        simp [hover]
      · have hno : ¬ allocation.range.Overlaps reservation := by
          intro hover
          rw [decide_eq_true hover] at hhit
          exact ht hhit
        obtain ⟨h1, h2⟩ := ih hor h
        simp only [List.mem_cons, exists_eq_or_imp, hno, false_or]
        exact ⟨h1, h2⟩
    · obtain rfl := Except.ok.inj h
      have hnone : ¬ ∃ r ∈ reservation :: rest, allocation.range.Overlaps r := by
        rintro ⟨r, hmem, hover⟩
        unfold Span.Overlaps at hover
        rcases List.mem_cons.1 hmem with rfl | hmem
        · omega
        · have := hbefore r hmem
          unfold Span.Before Span.stop at *
          omega
      exact ⟨⟨Or.inl, fun h => h.resolve_right hnone⟩, fun h => absurd h hnone⟩

/-- The conflict pass collects exactly the allocations that must move, and all of them can. -/
theorem collectConflicts_ok {domain : ByteRange} {alignment maximum count : ℕ}
    {reservations : List ByteRange} {source out : List SourceAllocation}
    (hr : Ordered reservations) (hs : Ordered (source.map SourceAllocation.range))
    (h : collectConflicts domain alignment maximum count reservations source = .ok out) :
    out = source.filter (fun a => MustMove domain alignment reservations a.range) ∧
      ∀ a ∈ out, a.movable = true := by
  induction source generalizing count reservations out with
  | nil => obtain rfl := Except.ok.inj h; simp
  | cons allocation rest ih =>
    obtain ⟨hbefore, hos⟩ := List.pairwise_cons.1 (List.map_cons ▸ hs)
    simp only [collectConflicts, bind_ok_iff, exists_const, ensure_ok_iff, rangeEnd_ok_iff] at h
    obtain ⟨left, hskip, _, ⟨-, rfl⟩, _, -, hdom, found, hscan, h⟩ := h
    obtain ⟨dropped, rfl, hd, -⟩ := skipEnded_ok hskip
    have hol : Ordered left := (List.pairwise_append.1 hr).2.1
    obtain ⟨hfound, hmov⟩ := scanReservations_ok hol hscan
    -- A dropped reservation overlaps neither this allocation nor a later one.
    have hnot : ∀ a ∈ allocation :: rest, ∀ r ∈ dropped, ¬ a.range.Overlaps r := by
      rintro a ha r hr' ⟨h1, -⟩
      have hle := hd r hr'
      rcases List.mem_cons.1 ha with rfl | ha
      · omega
      · have := hbefore a.range (List.mem_map_of_mem ha)
        unfold Span.Before Span.stop at *
        omega
    have hmust : ∀ a ∈ allocation :: rest, (MustMove domain alignment (dropped ++ left) a.range ↔
        MustMove domain alignment left a.range) := by
      intro a ha
      unfold MustMove
      refine or_congr_right ⟨?_, ?_⟩
      · rintro ⟨r, hmem, hover⟩
        rcases List.mem_append.1 hmem with hmem | hmem
        · exact absurd hover (hnot a ha r hmem)
        · exact ⟨r, hmem, hover⟩
      · rintro ⟨r, hmem, hover⟩
        exact ⟨r, by simp [hmem], hover⟩
    have htail : rest.filter (fun a => MustMove domain alignment (dropped ++ left) a.range) =
        rest.filter (fun a => MustMove domain alignment left a.range) :=
      List.filter_congr fun a ha => by simp [hmust a (by simp [ha])]
    have hhead : found = true ↔ MustMove domain alignment (dropped ++ left) allocation.range := by
      rw [hmust allocation (by simp), hfound, MustMove, decide_eq_true_eq]
    split_ifs at h with ht
    · simp only [bind_ok_iff, exists_const, ensure_ok_iff, pure_eq_ok, Except.ok.injEq] at h
      obtain ⟨-, more, hm, rfl⟩ := h
      obtain ⟨rfl, h2⟩ := ih hol hos hm
      refine ⟨?_, ?_⟩
      · rw [List.filter_cons_of_pos (by simpa using hhead.1 ht), htail]
      · intro a ha
        rcases List.mem_cons.1 ha with rfl | ha
        · rcases hfound.1 ht with hmis | hover
          · rw [decide_eq_true_eq] at hmis
            by_contra hn
            exact hdom ⟨hmis, by simpa using hn⟩
          · exact hmov hover
        · exact h2 a ha
    · obtain ⟨rfl, h2⟩ := ih hol hos h
      refine ⟨?_, h2⟩
      rw [List.filter_cons_of_neg (by simpa using fun hm => ht (hhead.2 hm)), htail]

/-! ## The solved layout -/

/-- Every range the plan writes payload to. -/
def LayoutPlan.targets (plan : LayoutPlan) : List ByteRange :=
  plan.relocations.map Relocation.destination ++
    plan.materializations.flatMap Materialization.destinations

/-- The reserved ranges of the input. -/
def LayoutInput.reserved (i : LayoutInput) : List ByteRange :=
  i.reservations.map DestinationReservation.range

/-- What a layout promises about its input. -/
structure SoundLayout (i : LayoutInput) (plan : LayoutPlan) : Prop where
  targets_disjoint : plan.targets.Pairwise Span.Disjoint
  targets_placed : ∀ s ∈ plan.targets, Placed i.destinationAlignment i.destinationDomain s
  targets_fresh : ∀ s ∈ plan.targets, (∀ a ∈ i.source, s.Disjoint a.range) ∧
    (∀ r ∈ i.reservations, s.Disjoint r.range) ∧ ∀ e ∈ i.stagingExclusions, s.Disjoint e
  relocated : (plan.relocations.map fun r => (r.stream, r.logicalOffset, r.source)).Perm
    ((i.source.filter fun a => a.movable = true ∧ MustMove i.destinationDomain
      i.destinationAlignment i.reserved a.range).map fun a => (a.stream, a.logicalOffset, a.range))
  relocated_length : ∀ r ∈ plan.relocations, r.destination.length = r.source.length
  kept_clear : ∀ a ∈ i.source, ¬ (a.movable = true ∧ MustMove i.destinationDomain
    i.destinationAlignment i.reserved a.range) → ∀ r ∈ i.reservations, a.range.Disjoint r.range
  materialized : List.Forall₂ Serves plan.materializations i.materializationRequests
  free_exact : cells plan.freeAfterStaging = {x | x < i.volumeBytes ∧
    x ∉ cells (i.source.map SourceAllocation.range) ∧ x ∉ cells i.reserved ∧
    x ∉ cells i.stagingExclusions ∧ x ∉ cells plan.targets}
  relocated_bytes : plan.relocatedBytes = (plan.relocations.map fun r => r.source.length).sum
  materialized_bytes : plan.materializedBytes = ((plan.materializations.flatMap
    Materialization.destinations).map fun s => s.length).sum
  largest : (∀ f ∈ plan.freeAfterStaging, f.length ≤ plan.largestFreeRange) ∧
    (plan.largestFreeRange = 0 ∨ ∃ f ∈ plan.freeAfterStaging, f.length = plan.largestFreeRange)

theorem largestFree_spec (free : List ByteRange) :
    (∀ f ∈ free, f.length ≤ largestFree free) ∧
      (largestFree free = 0 ∨ ∃ f ∈ free, f.length = largestFree free) := by
  unfold largestFree
  induction free using List.reverseRecOn with
  | nil => simp
  | append_singleton l f ih =>
    obtain ⟨ih1, ih2⟩ := ih
    simp only [List.map_append, List.map_cons, List.map_nil, List.foldl_append, List.foldl_cons,
      List.foldl_nil]
    refine ⟨?_, ?_⟩
    · intro g hg
      rcases List.mem_append.1 hg with hg | hg
      · exact (ih1 g hg).trans (le_max_left _ _)
      · obtain rfl := List.mem_singleton.1 hg
        exact le_max_right _ _
    · rcases max_choice ((l.map fun r : ByteRange => r.length).foldl max 0) f.length with h | h
      · rw [h]
        rcases ih2 with h0 | ⟨g, hg, heq⟩
        · exact Or.inl h0
        · exact Or.inr ⟨g, by simp [hg], heq⟩
      · rw [h]
        exact Or.inr ⟨f, by simp, rfl⟩

theorem sum_forall₂_serves {ms : List Materialization} {requests : List MaterializationRequest}
    (h : List.Forall₂ Serves ms requests) :
    ((ms.flatMap Materialization.destinations).map fun s => s.length).sum =
      (requests.map MaterializationRequest.destinationLength).sum := by
  induction h with
  | nil => rfl
  | cons hs _ ih => simp [ih, hs.sum]

theorem forall₂_moves {rs : List Relocation} {conflicts : List SourceAllocation}
    (h : List.Forall₂ Moves rs conflicts) :
    rs.map (fun r => (r.stream, r.logicalOffset, r.source)) =
        conflicts.map (fun a => (a.stream, a.logicalOffset, a.range)) ∧
      (∀ r ∈ rs, r.destination.length = r.source.length) ∧
      (rs.map fun r => r.source.length).sum = (conflicts.map fun c => c.range.length).sum := by
  induction h with
  | nil => simp
  | cons hm _ ih =>
    obtain ⟨h1, h2, h3⟩ := ih
    refine ⟨?_, ?_, ?_⟩
    · rw [List.map_cons, List.map_cons, h1, hm.stream, hm.logicalOffset, hm.source]
    · intro r hr
      rcases List.mem_cons.1 hr with rfl | hr
      · rw [hm.length, hm.source]
      · exact h2 r hr
    · rw [List.map_cons, List.map_cons, List.sum_cons, List.sum_cons, h3, hm.source]

/-- The intermediate results of a successful solve. -/
structure SolveTrace (i : LayoutInput) (plan : LayoutPlan) where
  conflicts : List SourceAllocation
  free : List ByteRange
  allocation : Allocation
  valid : ValidInput i
  source_ordered : Ordered ((sortedSource i).map SourceAllocation.range)
  reservations_ordered : Ordered ((sortedReservations i).map DestinationReservation.range)
  exclusions_ordered : Ordered (sortedExclusions i)
  exclusions_disjoint : ∀ a ∈ i.source, ∀ e ∈ i.stagingExclusions, a.range.Disjoint e
  conflicts_eq : conflicts = (sortedSource i).filter fun a => MustMove i.destinationDomain
    i.destinationAlignment ((sortedReservations i).map DestinationReservation.range) a.range
  conflicts_movable : ∀ a ∈ conflicts, a.movable = true
  free_list : FreeList free
  free_cells : cells free = {x | x < i.volumeBytes ∧
    x ∉ cells (i.source.map SourceAllocation.range) ∧ x ∉ cells i.reserved ∧
    x ∉ cells i.stagingExclusions}
  allocated : Allocated i.destinationAlignment i.destinationDomain free conflicts
    i.materializationRequests allocation plan.freeAfterStaging
  plan_eq : plan =
    { relocations := allocation.1.relocations
      materializations := allocation.2.materializations
      freeAfterStaging := plan.freeAfterStaging
      relocatedBytes := allocation.1.bytes
      materializedBytes := allocation.2.bytes
      largestFreeRange := largestFree plan.freeAfterStaging }

theorem cells_map_sort {α : Type} (key : α → ℕ) (f : α → ByteRange) (l : List α) :
    cells ((sortByKey key l).map f) = cells (l.map f) :=
  cells_perm ((sortByKey_perm key l).map f)

theorem exists_solveTrace {i : LayoutInput} {plan : LayoutPlan}
    (h : solveLayoutWithDomainAndAlignmentsInner i = .ok plan) : Nonempty (SolveTrace i plan) := by
  simp only [solveLayoutWithDomainAndAlignmentsInner, bind_ok_iff, pure_eq_ok, Except.ok.injEq,
    validateStagingExclusions] at h
  obtain ⟨_, hin, _, hsrc, _, hres, _, ⟨_, hexo, hexw⟩, conflicts, hcon, occupied, hocc, free, hfree,
    contiguous, -, ⟨⟨a1, a2⟩, left⟩, hall, rfl⟩ := h
  have hv := validInput_of_ok hin
  have hso : Ordered ((sortedSource i).map SourceAllocation.range) := by
    refine (validateNonoverlap_ok_iff ?_).1 hsrc
    intro r hr
    obtain ⟨a, ha, rfl⟩ := List.mem_map.1 hr
    exact (hv.source a (mem_sortByKey.1 ha)).stop_lt
  have hro : Ordered ((sortedReservations i).map DestinationReservation.range) := by
    refine (validateNonoverlap_ok_iff ?_).1 hres
    intro r hr
    obtain ⟨a, ha, rfl⟩ := List.mem_map.1 hr
    exact (hv.reservations a (mem_sortByKey.1 ha)).stop_lt
  have heo : Ordered (sortedExclusions i) :=
    (validateNonoverlap_ok_iff fun r hr => (hv.exclusions r (mem_sortByKey.1 hr)).stop_lt).1 hexo
  have hed := walkExclusions_ok hso heo hexw
  obtain ⟨hceq, hcmov⟩ := collectConflicts_ok hro hso hcon
  obtain ⟨hfl, hfc⟩ := complement_unionOccupied i.volumeBytes (fun r hr => by
    rcases List.mem_append.1 hr with hr | hr
    · rcases List.mem_append.1 hr with hr | hr
      · obtain ⟨a, ha, rfl⟩ := List.mem_map.1 hr
        have := hv.source a (mem_sortByKey.1 ha)
        exact ⟨this.nonempty, this.stop_le⟩
      · obtain ⟨a, ha, rfl⟩ := List.mem_map.1 hr
        have := hv.reservations a (mem_sortByKey.1 ha)
        exact ⟨this.nonempty, this.stop_le⟩
    · have := hv.exclusions r (mem_sortByKey.1 hr)
      exact ⟨this.nonempty, this.stop_le⟩) hocc hfree
  have halloc := allocateAll_ok (hv.alignments _ (by simp)) (fun r hr => (hv.requests r hr).1) hfl hall
  refine ⟨⟨conflicts, free, (a1, a2), hv, hso, hro, heo, ?_, hceq, hcmov, hfl, ?_, halloc, rfl⟩⟩
  · intro a ha e he
    exact hed a.range (List.mem_map_of_mem (mem_sortByKey.2 ha)) e (mem_sortByKey.2 he)
  · rw [hfc, sortedSource, sortedReservations, cells_map_sort, cells_map_sort, sortedExclusions,
      cells_perm (sortByKey_perm _ _), LayoutInput.reserved]

theorem mustMove_perm {domain : ByteRange} {alignment : ℕ} {l l' : List ByteRange}
    (hp : l.Perm l') {r : ByteRange} : MustMove domain alignment l r ↔ MustMove domain alignment l' r := by
  unfold MustMove
  simp only [hp.mem_iff]

/-- The intermediate results account for every part of the layout. -/
theorem SolveTrace.sound {i : LayoutInput} {plan : LayoutPlan} (t : SolveTrace i plan) :
    SoundLayout i plan := by
  have hc := t.allocated.carved
  obtain ⟨hm1, hm2, hm3⟩ := forall₂_moves t.allocated.moves
  have hplan := t.plan_eq
  have hrel : plan.relocations = t.allocation.1.relocations := congrArg LayoutPlan.relocations hplan
  have hmat : plan.materializations = t.allocation.2.materializations :=
    congrArg LayoutPlan.materializations hplan
  have htargets : plan.targets = t.allocation.1.relocations.map Relocation.destination ++
      t.allocation.2.materializations.flatMap Materialization.destinations := by
    rw [LayoutPlan.targets, hrel, hmat]
  have hresp : ((sortedReservations i).map DestinationReservation.range).Perm i.reserved :=
    (sortByKey_perm _ _).map _
  -- Every conflict is movable, so filtering by movability as well changes nothing.
  have hfilter : (i.source.filter fun a => a.movable = true ∧ MustMove i.destinationDomain
      i.destinationAlignment i.reserved a.range).Perm t.conflicts := by
    rw [t.conflicts_eq]
    have hp : (sortedSource i).Perm i.source := sortByKey_perm _ _
    refine (hp.symm.filter _).trans (List.Perm.of_eq ?_)
    refine List.filter_congr fun a ha => ?_
    have hmov : MustMove i.destinationDomain i.destinationAlignment i.reserved a.range →
        a.movable = true := by
      intro hmust
      refine t.conflicts_movable a ?_
      rw [t.conflicts_eq, List.mem_filter]
      exact ⟨ha, by simpa using (mustMove_perm hresp).2 hmust⟩
    rw [decide_eq_decide, mustMove_perm hresp]
    exact ⟨fun h => h.2, fun h => ⟨hmov h, h⟩⟩
  have hfresh : ∀ s ∈ plan.targets, ∀ x ∈ s, x ∈ cells t.free := by
    intro s hs x hx
    rw [htargets] at hs
    exact hc.subset ⟨s, hs, hx⟩
  refine ⟨htargets ▸ hc.disjoint, htargets ▸ hc.ok, ?_, ?_, ?_, ?_, ?_, ?_, ?_, ?_, ?_⟩
  · intro s hs
    have hx : ∀ x ∈ s, _ := hfresh s hs
    rw [t.free_cells] at hx
    refine ⟨fun a ha x hxs hxa => ?_, fun r hr x hxs hxr => ?_, fun e he x hxs hxe => ?_⟩
    · exact (hx x hxs).2.1 ⟨a.range, List.mem_map_of_mem ha, hxa⟩
    · exact (hx x hxs).2.2.1 ⟨r.range, List.mem_map_of_mem hr, hxr⟩
    · exact (hx x hxs).2.2.2 ⟨e, he, hxe⟩
  · rw [hrel, hm1]
    exact (hfilter.map _).symm
  · rw [hrel]; exact hm2
  · intro a ha hnot r hr
    refine Span.disjoint_of_not_overlaps fun hover => hnot ?_
    have hmust : MustMove i.destinationDomain i.destinationAlignment i.reserved a.range :=
      Or.inr ⟨r.range, List.mem_map_of_mem hr, hover⟩
    refine ⟨t.conflicts_movable a ?_, hmust⟩
    rw [t.conflicts_eq, List.mem_filter]
    exact ⟨mem_sortByKey.2 ha, by simpa using (mustMove_perm hresp).2 hmust⟩
  · rw [hmat]; exact t.allocated.serves
  · rw [hc.cells_left, ← htargets, t.free_cells]
    ext x
    simp only [Set.mem_sdiff, Set.mem_ofPred_eq, and_assoc]
  · rw [congrArg LayoutPlan.relocatedBytes hplan, hrel, hm3]
    exact t.allocated.relocated
  · rw [congrArg LayoutPlan.materializedBytes hplan, hmat, sum_forall₂_serves t.allocated.serves]
    exact t.allocated.materialized
  · rw [congrArg LayoutPlan.largestFreeRange hplan]
    exact largestFree_spec _

/-- **Solver soundness.** Every layout the solver returns is sound for its input. -/
theorem solveLayout_sound {i : LayoutInput} {plan : LayoutPlan}
    (h : solveLayoutWithDomainAndAlignmentsInner i = .ok plan) : SoundLayout i plan := by
  obtain ⟨t⟩ := exists_solveTrace h
  exact t.sound

/-- An input with a source outside the domain, a source on a reservation and a stream that fits no
single free range, and its layout. -/
def sampleInput : LayoutInput :=
  { volumeBytes := 64
    sourceAlignment := 4
    destinationAlignment := 4
    ioAlignment := 4
    destinationDomain := ⟨16, 48⟩
    requireAlignedDomain := true
    source := [⟨3, 0, ⟨32, 4⟩, true⟩, ⟨1, 0, ⟨0, 4⟩, true⟩, ⟨2, 0, ⟨20, 4⟩, false⟩]
    reservations := [⟨⟨32, 8⟩, .journal⟩]
    stagingExclusions := [⟨44, 4⟩, ⟨52, 4⟩]
    materializationRequests := [⟨9, 16⟩]
    limits := ⟨16, 16, 16, 16⟩ }

def samplePlan : LayoutPlan :=
  { relocations := [⟨1, 0, ⟨0, 4⟩, ⟨16, 4⟩⟩, ⟨3, 0, ⟨32, 4⟩, ⟨24, 4⟩⟩]
    materializations := [⟨9, [⟨28, 4⟩, ⟨40, 4⟩, ⟨48, 4⟩, ⟨56, 4⟩]⟩]
    freeAfterStaging := [⟨4, 12⟩, ⟨60, 4⟩]
    relocatedBytes := 8
    materializedBytes := 16
    largestFreeRange := 12 }

theorem soundLayout_sample : solveLayoutWithDomainAndAlignmentsInner sampleInput = .ok samplePlan ∧
    SoundLayout sampleInput samplePlan :=
  ⟨by decide +kernel, solveLayout_sound (by decide +kernel)⟩

end Geometry

end StarConverter
