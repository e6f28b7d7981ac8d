import Mathlib.Data.Nat.Size
import StarConverter.Ntfs.Runs

/-!
# The bad-cluster stream

The stream spans the volume: known-bad clusters are physical runs at their own place, everything
between them is a hole. Its encoder writes run lengths as signed numbers, so it agrees with
`encodeRuns` exactly where no length has its top bit set (`encodeRuns_signed_iff`).
-/

namespace StarConverter

open Base

namespace Ntfs

structure BadClusLimits where
  maxVolumeClusters : ℕ
  maxMappingPairsBytes : ℕ
  deriving DecidableEq

inductive BadClusError
  | invalidLimit (field : String)
  | zeroClusterCount
  | clusterCountOutsideNtfsLimit (actual maximum : ℕ)
  | clusterCountTooLarge (actual maximum : ℕ)
  | invalidClusterBytes (clusterBytes : ℕ)
  | logicalSizeOverflow
  | logicalSizeOutsideNtfsSignedRange (logicalSize : ℕ)
  | duplicateBadLcn (lcn : ℕ)
  | badLcnOutOfRange (lcn volumeClusters : ℕ)
  | mappingPairsLimitExceeded (actual maximum : ℕ)
  deriving DecidableEq

/-- Metadata of the stream, as the serializer writes it. -/
structure BadClusPlan where
  attributeType : ℕ
  name : List UInt16
  attributeFlags : ℕ
  compressionUnit : ℕ
  lowestVcn : ℕ
  highestVcn : ℕ
  allocatedSize : ℕ
  dataSize : ℕ
  initializedSize : ℕ
  mappingPairs : Bytes
  deriving DecidableEq

def ntfsMaxVolumeClusters : ℕ := 2 ^ 32 - 1

def isPowerOfTwo (n : ℕ) : Bool := n ≠ 0 ∧ n &&& (n - 1) = 0

def validateBadClusGeometry (volumeClusters clusterBytes : ℕ) (limits : BadClusLimits) :
    Except BadClusError ℕ := do
  ensure (limits.maxVolumeClusters ≠ 0) (.invalidLimit "max_volume_clusters")
  ensure (limits.maxMappingPairsBytes ≠ 0) (.invalidLimit "max_mapping_pairs_bytes")
  ensure (volumeClusters ≠ 0) .zeroClusterCount
  ensure (volumeClusters ≤ ntfsMaxVolumeClusters)
    (.clusterCountOutsideNtfsLimit volumeClusters ntfsMaxVolumeClusters)
  ensure (volumeClusters ≤ limits.maxVolumeClusters)
    (.clusterCountTooLarge volumeClusters limits.maxVolumeClusters)
  ensure ((512 ≤ clusterBytes ∧ clusterBytes ≤ 2 * 1024 * 1024) ∧ isPowerOfTwo clusterBytes = true)
    (.invalidClusterBytes clusterBytes)
  let logicalSize ← orErr (checkedMul volumeClusters clusterBytes) .logicalSizeOverflow
  ensure (logicalSize < 2 ^ 63) (.logicalSizeOutsideNtfsSignedRange logicalSize)
  pure logicalSize

/-- The bytes a positive number needs as a signed one. -/
def positiveSignedWidth (value : ℕ) : ℕ := divCeil (Nat.size value + 1) 8

/-! ## The runs of the stream -/

def normalizeBadLcns (badLcns : List ℕ) (volumeClusters : ℕ) : Except BadClusError (List ℕ) := do
  let lcns := sortByKey id badLcns
  checkPairs (fun first second => ensure (first ≠ second) (.duplicateBadLcn first)) lcns
  checkAll (fun lcn => ensure (lcn < volumeClusters) (.badLcnOutOfRange lcn volumeClusters)) lcns
  pure lcns

/-- How far the bad clusters go on from `cursor`, and those behind. -/
def badRun : ℕ → List ℕ → ℕ × List ℕ
  | cursor, [] => (cursor, [])
  | cursor, lcn :: rest => if lcn = cursor then badRun (cursor + 1) rest else (cursor, lcn :: rest)

/-- The runs from `cursor` on. Every run has a cluster, so the volume's clusters bound their number. -/
def badClusRunsLoop (volumeClusters : ℕ) : ℕ → ℕ → List ℕ → List Run
  | 0, _, _ => []
  | fuel + 1, cursor, lcns =>
    if cursor < volumeClusters then
      if lcns.head? = some cursor then
        let (stop, rest) := badRun cursor lcns
        (some cursor, stop - cursor) :: badClusRunsLoop volumeClusters fuel stop rest
      else
        let stop := lcns.head?.getD volumeClusters
        (none, stop - cursor) :: badClusRunsLoop volumeClusters fuel stop lcns
    else []

def badClusRuns (volumeClusters : ℕ) (badLcns : List ℕ) : Except BadClusError (List Run) := do
  let lcns ← normalizeBadLcns badLcns volumeClusters
  if lcns = [] then pure [(none, volumeClusters)]
  else pure (badClusRunsLoop volumeClusters volumeClusters 0 lcns)

/-! ## Its encoder -/

/-- The bytes of a run, and the first cluster the next distance is taken from. -/
def encodeBadClusRun (previous : ℤ) : Run → Except BadClusError (Bytes × ℤ)
  | (none, length) =>
    let width := positiveSignedWidth length
    pure (UInt8.ofNat width :: (toLe 8 length).take width, previous)
  | (some lcn, length) => do
    let lengthWidth := positiveSignedWidth length
    let lcn ← orErr (toI64 lcn) .logicalSizeOverflow
    let delta := lcn - previous
    let deltaWidth := signedWidth (signedLe delta) 8
    pure (UInt8.ofNat (deltaWidth * 16 + lengthWidth) :: (toLe 8 length).take lengthWidth ++
      (signedLe delta).take deltaWidth, lcn)

def encodeBadClusRuns : ℤ → List Run → Except BadClusError Bytes
  | _, [] => pure [0]
  | previous, run :: rest => do
    let (bytes, previous) ← encodeBadClusRun previous run
    let more ← encodeBadClusRuns previous rest
    pure (bytes ++ more)

def encodeBadClusMappingPairs (volumeClusters : ℕ) (badLcns : List ℕ) (limits : BadClusLimits) :
    Except BadClusError Bytes := do
  let runs ← badClusRuns volumeClusters badLcns
  let mappingPairs ← encodeBadClusRuns 0 runs
  ensure (mappingPairs.length ≤ limits.maxMappingPairsBytes)
    (.mappingPairsLimitExceeded mappingPairs.length limits.maxMappingPairsBytes)
  pure mappingPairs

/-- `$Bad`. -/
def badClusStreamName : List UInt16 := [0x24, 0x42, 0x61, 0x64]

/-- Plans the stream: a hole over the volume with a run at every bad cluster. -/
def planBadClus (volumeClusters clusterBytes : ℕ) (limits : BadClusLimits) (badLcns : List ℕ) :
    Except BadClusError BadClusPlan := do
  let logicalSize ← validateBadClusGeometry volumeClusters clusterBytes limits
  let mappingPairs ← encodeBadClusMappingPairs volumeClusters badLcns limits
  pure
    { attributeType := 0x80
      name := badClusStreamName
      attributeFlags := 0
      compressionUnit := 0
      lowestVcn := 0
      highestVcn := volumeClusters - 1
      allocatedSize := logicalSize
      dataSize := logicalSize
      initializedSize := 0
      mappingPairs }

/-! ## The runs cover the volume -/

/-- Ordered clusters from `cursor` on. -/
def BadFrom (cursor volumeClusters : ℕ) (lcns : List ℕ) : Prop :=
  lcns.Pairwise (· < ·) ∧ ∀ lcn ∈ lcns, cursor ≤ lcn ∧ lcn < volumeClusters

theorem badRun_spec {cursor volumeClusters : ℕ} {lcns : List ℕ}
    (h : BadFrom cursor volumeClusters lcns) (hc : cursor ≤ volumeClusters) :
    cursor ≤ (badRun cursor lcns).1 ∧ (badRun cursor lcns).1 ≤ volumeClusters ∧
      (lcns.head? = some cursor → cursor < (badRun cursor lcns).1) ∧
      BadFrom (badRun cursor lcns).1 volumeClusters (badRun cursor lcns).2 := by
  induction lcns generalizing cursor with
  | nil => exact ⟨le_rfl, hc, by simp, h⟩
  | cons lcn rest ih =>
    obtain ⟨hsorted, hrange⟩ := h
    obtain ⟨hlt, hrest⟩ := List.pairwise_cons.1 hsorted
    have hlcn := hrange lcn List.mem_cons_self
    rw [badRun]
    split_ifs with heq
    · subst heq
      have hnext : BadFrom (lcn + 1) volumeClusters rest :=
        ⟨hrest, fun l hl => ⟨hlt l hl, (hrange l (List.mem_cons_of_mem _ hl)).2⟩⟩
      obtain ⟨h1, h2, -, h4⟩ := ih hnext hlcn.2
      exact ⟨by omega, h2, fun _ => by omega, h4⟩
    · refine ⟨le_rfl, hc, fun hhead => ?_, hsorted, hrange⟩
      rw [List.head?_cons, Option.some.injEq] at hhead
      exact absurd hhead heq

/-- The runs are not empty and lie in the volume, and together they are as long as the rest of it. -/
theorem badClusRunsLoop_spec {volumeClusters fuel cursor : ℕ} {lcns : List ℕ}
    (h : BadFrom cursor volumeClusters lcns) (hc : cursor ≤ volumeClusters)
    (hfuel : volumeClusters - cursor ≤ fuel) :
    (∀ run ∈ badClusRunsLoop volumeClusters fuel cursor lcns,
      1 ≤ run.2 ∧ ∀ lcn, run.1 = some lcn → lcn < volumeClusters) ∧
      ((badClusRunsLoop volumeClusters fuel cursor lcns).map Prod.snd).sum =
        volumeClusters - cursor := by
  induction fuel generalizing cursor lcns with
  | zero => exact ⟨by simp [badClusRunsLoop], by simp [badClusRunsLoop]; omega⟩
  | succ fuel ih =>
    rw [badClusRunsLoop]
    split_ifs with hlt hhead
    · obtain ⟨h1, h2, h3, h4⟩ := badRun_spec h hc
      have h3' := h3 hhead
      obtain ⟨hruns, hsum⟩ := ih h4 h2 (by omega)
      dsimp only
      refine ⟨?_, ?_⟩
      · intro run hrun
        rcases List.mem_cons.1 hrun with rfl | hmem
        · refine ⟨by dsimp only; omega, fun lcn hlcn => ?_⟩
          rw [Option.some.injEq] at hlcn
          exact hlcn ▸ hlt
        · exact hruns run hmem
      · rw [List.map_cons, List.sum_cons, hsum]
        dsimp only
        omega
    · dsimp only
      -- The hole ends at the next bad cluster, which is not the one at the cursor.
      have hstop : cursor < lcns.head?.getD volumeClusters ∧
          lcns.head?.getD volumeClusters ≤ volumeClusters ∧
          BadFrom (lcns.head?.getD volumeClusters) volumeClusters lcns := by
        cases lcns with
        | nil => exact ⟨hlt, le_rfl, h.1, by simp⟩
        | cons lcn rest =>
          obtain ⟨hsorted, hrange⟩ := h
          have hlcn := hrange lcn List.mem_cons_self
          have hne : lcn ≠ cursor := fun heq => hhead (by rw [heq, List.head?_cons])
          refine ⟨by simp; omega, by simp; omega, hsorted, fun l hl => ?_⟩
          rw [List.head?_cons, Option.getD_some]
          refine ⟨?_, (hrange l hl).2⟩
          rcases List.mem_cons.1 hl with rfl | hmem
          · exact le_rfl
          · exact ((List.pairwise_cons.1 hsorted).1 l hmem).le
      obtain ⟨h1, h2, h3⟩ := hstop
      obtain ⟨hruns, hsum⟩ := ih h3 h2 (by omega)
      refine ⟨?_, ?_⟩
      · intro run hrun
        rcases List.mem_cons.1 hrun with rfl | hmem
        · exact ⟨by dsimp only; omega, by simp⟩
        · exact hruns run hmem
      · rw [List.map_cons, List.sum_cons, hsum]
        dsimp only
        omega
    · exact ⟨by simp, by simp; omega⟩

theorem badFrom_of_normalize {badLcns lcns : List ℕ} {volumeClusters : ℕ}
    (h : normalizeBadLcns badLcns volumeClusters = .ok lcns) : BadFrom 0 volumeClusters lcns := by
  simp only [normalizeBadLcns, bind_ok_iff, pure_eq_ok, Except.ok.injEq] at h
  obtain ⟨_, hpairs, _, hrange, rfl⟩ := h
  rw [checkAll_ok_iff] at hrange
  have hnodup := checkPairs_ne_ok_iff.1 hpairs
  have hsorted := sortByKey_sorted id badLcns
  refine ⟨?_, fun lcn hlcn => ⟨Nat.zero_le _, by simpa using hrange lcn hlcn⟩⟩
  have hne : (sortByKey id badLcns).Nodup := ((sortByKey_perm id badLcns).nodup_iff).2 hnodup
  exact (hsorted.and hne).imp fun hab => lt_of_le_of_ne hab.1 hab.2

theorem badClusRuns_spec {volumeClusters : ℕ} {badLcns : List ℕ} {runs : List Run}
    (hpos : 0 < volumeClusters) (h : badClusRuns volumeClusters badLcns = .ok runs) :
    (∀ run ∈ runs, 1 ≤ run.2 ∧ ∀ lcn, run.1 = some lcn → lcn < volumeClusters) ∧
      (runs.map Prod.snd).sum = volumeClusters := by
  simp only [badClusRuns, bind_ok_iff] at h
  obtain ⟨lcns, hlcns, h⟩ := h
  split_ifs at h
  · simp only [pure_eq_ok, Except.ok.injEq] at h
    subst h
    exact ⟨fun run hrun => by simp at hrun; subst hrun; exact ⟨hpos, by simp⟩, by simp⟩
  · simp only [pure_eq_ok, Except.ok.injEq] at h
    subst h
    have hspec := badClusRunsLoop_spec (badFrom_of_normalize hlcns) (Nat.zero_le _) (le_refl _)
    rwa [Nat.sub_zero] at hspec

/-! ## The two encoders -/

/-- The signed width of a positive number is its unsigned width, or one byte more. -/
theorem positiveSignedWidth_eq_iff {v : ℕ} (h1 : 1 ≤ v) (h : v < 2 ^ 63) :
    positiveSignedWidth v = unsignedWidth (toLe 8 v) ↔ TopBitClear v := by
  have hword : v < wordBound := by unfold wordBound; omega
  obtain ⟨hw1, hw8, hlt, hmin⟩ := unsignedWidth_spec hword
  unfold TopBitClear
  rw [unsignedBytes_eq hword, length_toLe]
  set w := unsignedWidth (toLe 8 v) with hw
  have hpow : (256 : ℕ) ^ w = 2 ^ (8 * w) := by
    rw [show (256 : ℕ) = 2 ^ 8 by norm_num, ← pow_mul]
  have hsize : Nat.size v ≤ 8 * w := Nat.size_le.2 (hpow ▸ hlt)
  have hlow : 8 * (w - 1) < Nat.size v := by
    rw [Nat.lt_size]
    rcases Nat.eq_or_lt_of_le hw1 with heq | hgt
    · rw [← heq]
      simpa using h1
    · have := hmin (w - 1) (by omega) (by omega)
      rwa [show (256 : ℕ) = 2 ^ 8 by norm_num, ← pow_mul] at this
  have hclear : 2 * v < 256 ^ w ↔ Nat.size v ≤ 8 * w - 1 := by
    rw [Nat.size_le, hpow, show 8 * w = 8 * w - 1 + 1 by omega, pow_succ]
    simp only [Nat.add_sub_cancel]
    omega
  rw [hclear, positiveSignedWidth, divCeil]
  omega

theorem positiveSignedWidth_le {v : ℕ} (h : v < 2 ^ 63) : positiveSignedWidth v ≤ 8 := by
  have hsize : Nat.size v ≤ 63 := Nat.size_le.2 h
  unfold positiveSignedWidth divCeil
  omega

/-- The fields of a run as the stream's own encoder writes them. -/
def badClusFields (previous : ℤ) : Run → Bytes × Bytes
  | (none, length) => ((toLe 8 length).take (positiveSignedWidth length), [])
  | (some lcn, length) =>
    ((toLe 8 length).take (positiveSignedWidth length), signedBytes (lcn - previous))

theorem length_badClusLength {v : ℕ} (h : v < 2 ^ 63) :
    ((toLe 8 v).take (positiveSignedWidth v)).length = positiveSignedWidth v := by
  have hle := positiveSignedWidth_le h
  rw [List.length_take, length_toLe]
  omega

theorem encodeBadClusRun_small {previous : ℤ} {run : Run} (hlen : run.2 < 2 ^ 63)
    (hlcn : ∀ lcn, run.1 = some lcn → lcn < 2 ^ 63) :
    encodeBadClusRun previous run =
      .ok (pairBytes (badClusFields previous run), nextPrevious previous run) := by
  obtain ⟨lcn, length⟩ := run
  have hwidth := length_badClusLength hlen
  cases lcn with
  | none =>
    simp only [encodeBadClusRun, pairBytes, badClusFields, nextPrevious, List.length_nil,
      Nat.zero_mul, Nat.zero_add, List.append_nil, pure_eq_ok]
    rw [hwidth]
  | some lcn =>
    have h := hlcn lcn rfl
    have hi64 : toI64 (lcn : ℤ) = some (lcn : ℤ) := toI64_eq_some.2 ⟨⟨by omega, by omega⟩, rfl⟩
    have hdelta : (signedBytes ((lcn : ℤ) - previous)).length =
        signedWidth (signedLe ((lcn : ℤ) - previous)) 8 := by
      obtain ⟨-, hle, -⟩ := signedWidth_spec (n := 8) (by norm_num)
        (length_signedLe ((lcn : ℤ) - previous)).ge
      unfold signedBytes
      rw [List.length_take, length_signedLe]
      omega
    simp only [encodeBadClusRun, hi64, orErr_some, ok_bind, pairBytes, badClusFields, nextPrevious,
      pure_eq_ok]
    rw [hwidth, hdelta]
    rfl

/-- Equal widths in the headers make the fields behind them equally long. -/
theorem pairBytes_append_inj {a b : Bytes × Bytes} {s t : Bytes} (ha : FieldWidths a)
    (hb : FieldWidths b) (h : pairBytes a ++ s = pairBytes b ++ t) :
    a.1.length = b.1.length ∧ a = b ∧ s = t := by
  simp only [pairBytes, List.cons_append, List.append_assoc, List.cons.injEq] at h
  obtain ⟨hheader, hrest⟩ := h
  have heq := congrArg UInt8.toNat hheader
  rw [ha.header, hb.header] at heq
  have ha1 := ha.length_le
  have hb1 := hb.length_le
  have h1 : a.1.length = b.1.length := by omega
  have h2 : a.2.length = b.2.length := by omega
  obtain ⟨e1, hrest⟩ := List.append_inj hrest h1
  obtain ⟨e2, hrest⟩ := List.append_inj hrest h2
  exact ⟨h1, Prod.ext e1 e2, hrest⟩

theorem fieldWidths_badClusFields (previous : ℤ) {run : Run} (hlen : run.2 < 2 ^ 63) :
    FieldWidths (badClusFields previous run) := by
  have hle := positiveSignedWidth_le hlen
  have hpos : 1 ≤ positiveSignedWidth run.2 := by
    unfold positiveSignedWidth divCeil
    omega
  have hwidth := length_badClusLength hlen
  obtain ⟨lcn, length⟩ := run
  dsimp only at hwidth hpos hle
  cases lcn with
  | none =>
    constructor
    · rw [badClusFields, hwidth]; exact hpos
    · rw [badClusFields, hwidth]; exact hle
    · exact Nat.zero_le _
  | some lcn =>
    constructor
    · rw [badClusFields, hwidth]; exact hpos
    · rw [badClusFields, hwidth]; exact hle
    · exact (length_signedBytes _).2

theorem fields_eq_iff (previous : ℤ) {run : Run} (h1 : 1 ≤ run.2) (hlen : run.2 < 2 ^ 63) :
    runFields previous run = badClusFields previous run ↔ TopBitClear run.2 := by
  have hword : run.2 < wordBound := by unfold wordBound; omega
  have hfield : unsignedBytes run.2 = (toLe 8 run.2).take (positiveSignedWidth run.2) ↔
      TopBitClear run.2 := by
    rw [← positiveSignedWidth_eq_iff h1 hlen]
    constructor
    · intro heq
      have := congrArg List.length heq
      rw [unsignedBytes_eq hword, length_toLe, length_badClusLength hlen] at this
      exact this.symm
    · intro heq
      rw [heq]
      rfl
  rw [← hfield]
  obtain ⟨lcn, length⟩ := run
  cases lcn with
  | none => simp only [runFields, badClusFields, Prod.mk.injEq, and_true]
  | some lcn => simp only [runFields, badClusFields, Prod.mk.injEq, and_true]

/-- Over small runs the two encoders agree exactly where no length has its top bit set. -/
theorem encodeRunsFrom_eq_iff {previous : ℤ} (hp : SmallLcn previous) {runs : List Run}
    (h : SmallRuns runs) {bytes : Bytes} (hbytes : encodeBadClusRuns previous runs = .ok bytes) :
    encodeRunsFrom previous runs = some bytes ↔ ∀ run ∈ runs, TopBitClear run.2 := by
  induction runs generalizing previous bytes with
  | nil =>
    simp only [encodeBadClusRuns, pure_eq_ok, Except.ok.injEq] at hbytes
    simp [encodeRunsFrom, hbytes]
  | cons run rest ih =>
    obtain ⟨hlen, hlt, hlcn⟩ := h run List.mem_cons_self
    have hrest : SmallRuns rest := fun r hr => h r (List.mem_cons_of_mem _ hr)
    simp only [encodeBadClusRuns, encodeBadClusRun_small hlt hlcn, ok_bind, bind_ok_iff, pure_eq_ok,
      Except.ok.injEq] at hbytes
    obtain ⟨more, hmore, rfl⟩ := hbytes
    obtain ⟨more', -, hmore', -, -⟩ := encodeRunsFrom_small (hp.next hlcn) hrest
    have htail := ih (hp.next hlcn) hrest hmore
    rw [hmore', Option.some.injEq] at htail
    simp only [encodeRunsFrom, encodeRun_small hp hlen hlcn, hmore', Option.bind_eq_bind,
      Option.bind_some, Option.some.injEq, List.forall_mem_cons]
    rw [← htail, ← fields_eq_iff previous hlen hlt]
    have hword : run.2 < wordBound := by unfold wordBound; omega
    constructor
    · intro heq
      obtain ⟨-, h1, h2⟩ := pairBytes_append_inj (fieldWidths_runFields previous hword)
        (fieldWidths_badClusFields previous hlt) heq
      exact ⟨h1, h2⟩
    · rintro ⟨h1, h2⟩
      rw [h1, h2]

theorem encodeRuns_badClus_iff {volumeClusters clusterBytes : ℕ} {limits : BadClusLimits}
    {badLcns : List ℕ} {plan : BadClusPlan} {runs : List Run}
    (hplan : planBadClus volumeClusters clusterBytes limits badLcns = .ok plan)
    (hruns : badClusRuns volumeClusters badLcns = .ok runs) :
    encodeRuns runs = some plan.mappingPairs ↔ ∀ run ∈ runs, TopBitClear run.2 := by
  simp only [planBadClus, validateBadClusGeometry, bind_ok_iff, ensure_ok_iff, exists_const,
    pure_eq_ok, Except.ok.injEq, encodeBadClusMappingPairs, hruns] at hplan
  obtain ⟨_, ⟨-, -, hne, hmax, -⟩, pairs, ⟨_, rfl, _, hpairs, -, rfl⟩, rfl⟩ := hplan
  obtain ⟨hspec, hsum⟩ := badClusRuns_spec (Nat.pos_of_ne_zero hne) hruns
  have hmax' : volumeClusters < 2 ^ 32 := by
    unfold ntfsMaxVolumeClusters at hmax
    omega
  refine encodeRunsFrom_eq_iff ⟨le_rfl, by norm_num⟩ (fun run hrun => ?_) hpairs
  have hle : run.2 ≤ volumeClusters := by
    rw [← hsum]
    exact List.single_le_sum (fun _ _ => Nat.zero_le _) _ (List.mem_map_of_mem hrun)
  obtain ⟨h1, h2⟩ := hspec run hrun
  exact ⟨h1, by omega, fun lcn hlcn => by have := h2 lcn hlcn; omega⟩

/-- **The run-list format.** Runs whose numbers fit a signed word are written with signed fields, and
the runs of the bad-cluster stream as its own encoder writes them, exactly when no run length has the
top bit of its shortest unsigned encoding set. -/
theorem encodeRuns_signed_iff (runs : List Run) :
    (SmallRuns runs → (WrittenSigned runs ↔ ∀ run ∈ runs, TopBitClear run.2)) ∧
    ∀ volumeClusters clusterBytes limits badLcns plan,
      planBadClus volumeClusters clusterBytes limits badLcns = .ok plan →
      badClusRuns volumeClusters badLcns = .ok runs →
      (encodeRuns runs = some plan.mappingPairs ↔ ∀ run ∈ runs, TopBitClear run.2) :=
  ⟨fun h => encodeRuns_signed h, fun _ _ _ _ _ hplan hruns => encodeRuns_badClus_iff hplan hruns⟩

def sampleBadClusLimits : BadClusLimits := ⟨2 ^ 32 - 1, 32⟩

/-- A run of 127 clusters is written signed, and a volume of 127 clusters alike by both encoders. -/
theorem encodeRuns_signed_short : WrittenSigned [(some 4, 127)] ∧
    ∃ plan, planBadClus 127 4096 sampleBadClusLimits [] = .ok plan ∧
      encodeRuns [(none, 127)] = some plan.mappingPairs := by
  refine ⟨((encodeRuns_signed_iff [(some 4, 127)]).1 (by simp [SmallRuns])).2 (by decide), ?_⟩
  have hplan : planBadClus 127 4096 sampleBadClusLimits [] =
      .ok (okValue (planBadClus 127 4096 sampleBadClusLimits []) (by decide)) := eq_okValue _
  exact ⟨_, hplan, ((encodeRuns_signed_iff [(none, 127)]).2 127 4096 sampleBadClusLimits [] _ hplan
    (by decide)).2 (by decide)⟩

/-- A run of 128 clusters is not, and a volume of 128 clusters is written in two ways. -/
theorem not_encodeRuns_signed : ¬ ((∀ runs, SmallRuns runs → WrittenSigned runs) ∧
    ∀ volumeClusters clusterBytes limits badLcns plan runs,
      planBadClus volumeClusters clusterBytes limits badLcns = .ok plan →
      badClusRuns volumeClusters badLcns = .ok runs → encodeRuns runs = some plan.mappingPairs) := by
  rintro ⟨hsigned, -⟩
  have h := hsigned [(some 4, 128)] (by simp [SmallRuns])
  rw [encodeRuns_signed (by simp [SmallRuns])] at h
  exact absurd h (by decide)

end Ntfs

end StarConverter
