import StarConverter.Ntfs.Attribute
import StarConverter.Ntfs.Runlist

/-!
# Splitting a stream over attributes

A stream whose mapping pairs do not fit into one FILE record is split into fragments, each as long as
it still fits. A fragment starts its distances afresh and carries its range of virtual clusters; the
fragments tile the stream (`splitFrom_ok`), and what the parser makes of them, put together and
merged, is the run list merged (`mappingPairs_roundTrip`).
-/

namespace StarConverter

open Base

namespace Ntfs

def encodeDataFragment (stream : ObjectStream) (pairs : Bytes) (lowestVcn fragmentClusters id : ℕ) :
    Except NtfsSerializeError Bytes :=
  match stream.name with
  | none =>
    nonresidentAttributeFromPairs data pairs lowestVcn fragmentClusters stream.logicalBytes
      stream.initializedBytes stream.allocatedBytes id stream.flags.sparse
  | some name =>
    nonresidentNamedAttributeFromPairs data name pairs lowestVcn fragmentClusters
      stream.logicalBytes stream.initializedBytes stream.allocatedBytes id stream.flags.sparse

/-- The runs a fragment takes, their encoding and their clusters. -/
structure Fragment where
  count : ℕ
  bytes : Bytes
  clusters : ℕ

/-- A record that overflows is reported as mapping pairs that are too large. -/
def asMappingPairsTooLarge (stream : ObjectStream) : NtfsSerializeError → NtfsSerializeError
  | .recordOverflow _ => .mappingPairsTooLarge stream.id
  | other => other

/-- The longest fragment that fits, tried run by run behind the `taken` ones. -/
def chooseFragment (stream : ObjectStream) (lowestVcn id : ℕ) :
    List Run → List Run → ℕ → Option Fragment → Except NtfsSerializeError (Option Fragment)
  | _, [], _, chosen => pure chosen
  | taken, run :: rest, fragmentClusters, chosen => do
    let fragmentClusters ← orErr (checkedAdd fragmentClusters run.2) .arithmeticOverflow
    let taken := taken ++ [run]
    let pairs ← orErr (encodeRuns taken) (.mappingPairsTooLarge stream.id)
    let bytes ← (encodeDataFragment stream pairs lowestVcn fragmentClusters id).mapError
      (asMappingPairsTooLarge stream)
    let fits ← recordLengthsFit [bytes.length]
    if fits then
      chooseFragment stream lowestVcn id taken rest fragmentClusters
        (some ⟨taken.length, bytes, fragmentClusters⟩)
    else pure chosen

/-- The instance of the next attribute, if there is one. -/
def nextId (rest : List Run) (id : ℕ) : Except NtfsSerializeError ℕ :=
  if rest = [] then .ok id else orErr (checkedAdd16 id 1) .arithmeticOverflow

/-- The fragments of the runs from a virtual cluster on. Every fragment takes a run, so as much fuel
as there are runs is enough. -/
def splitFrom (stream : ObjectStream) :
    ℕ → List Run → ℕ → ℕ → Except NtfsSerializeError (List Bytes)
  | _, [], _, _ => pure []
  | 0, _ :: _, _, _ => .error (.mappingPairsTooLarge stream.id)
  | fuel + 1, run :: runs, lowestVcn, id => do
    let chosen ← chooseFragment stream lowestVcn id [] (run :: runs) 0 none
    let fragment ← orErr chosen (.mappingPairsTooLarge stream.id)
    let rest := (run :: runs).drop fragment.count
    let lowestVcn ← orErr (checkedAdd lowestVcn fragment.clusters) .arithmeticOverflow
    let id ← nextId rest id
    let more ← splitFrom stream fuel rest lowestVcn id
    pure (fragment.bytes :: more)

def splitNonresidentDataAttributes (stream : ObjectStream) (runs : List Run) (firstId : ℕ) :
    Except NtfsSerializeError (List Bytes) :=
  splitFrom stream runs.length runs 0 firstId

/-! ## Fragments -/

/-- The attribute holds the runs from a virtual cluster on and fits into a record. -/
structure HoldsRuns (lowestVcn : ℕ) (runs : List Run) (bytes : Bytes) : Prop where
  nonempty : runs ≠ []
  fits : recordLengthsFit [bytes.length] = .ok true
  stores : ∃ pairs, encodeRuns runs = some pairs ∧
    StoresPairs bytes pairs lowestVcn (totalClusters runs)

theorem encodeRuns_pos {runs : List Run} {pairs : Bytes} (h : encodeRuns runs = some pairs)
    (hne : runs ≠ []) : totalClusters runs ≠ 0 := by
  cases runs with
  | nil => exact absurd rfl hne
  | cons run rest =>
    rw [totalClusters_cons]
    intro hzero
    obtain ⟨_ | lcn, length⟩ := run <;>
      · dsimp only at hzero
        simp [encodeRuns, encodeRunsFrom, encodeRun, show length = 0 by omega] at h

theorem encodeDataFragment_stores {stream : ObjectStream} {pairs : Bytes}
    {lowestVcn fragmentClusters id : ℕ} {bytes : Bytes} (hclusters : fragmentClusters ≠ 0)
    (h : encodeDataFragment stream pairs lowestVcn fragmentClusters id = .ok bytes) :
    StoresPairs bytes pairs lowestVcn fragmentClusters := by
  unfold encodeDataFragment at h
  split at h
  · exact nonresidentAttributeFromPairs_stores hclusters h
  · exact nonresidentNamedAttributeFromPairs_stores h

/-- A chosen fragment holds the first runs of those it was chosen from. -/
structure IsPrefix (lowestVcn : ℕ) (runs : List Run) (fragment : Fragment) : Prop where
  holds : HoldsRuns lowestVcn (runs.take fragment.count) fragment.bytes
  clusters : fragment.clusters = totalClusters (runs.take fragment.count)

theorem chooseFragment_ok {stream : ObjectStream} {lowestVcn id : ℕ} {taken rest : List Run}
    {chosen result : Option Fragment}
    (h : chooseFragment stream lowestVcn id taken rest (totalClusters taken) chosen = .ok result)
    (hchosen : ∀ fragment ∈ chosen, IsPrefix lowestVcn (taken ++ rest) fragment) :
    ∀ fragment ∈ result, IsPrefix lowestVcn (taken ++ rest) fragment := by
  induction rest generalizing taken chosen with
  | nil =>
    rw [chooseFragment, pure_eq_ok, Except.ok.injEq] at h
    exact h ▸ hchosen
  | cons run rest ih =>
    have hsplit : taken ++ run :: rest = taken ++ [run] ++ rest := by simp
    have htotal : totalClusters (taken ++ [run]) = totalClusters taken + run.2 := by simp
    simp only [chooseFragment, bind_ok_iff, orErr_ok_iff, checkedAdd_eq_some, mapError_ok_iff] at h
    obtain ⟨fragmentClusters, ⟨-, rfl⟩, pairs, hpairs, bytes, hbytes, fits, hfits, h⟩ := h
    rw [← htotal] at hbytes h
    split_ifs at h with hc
    · rw [hsplit] at hchosen ⊢
      refine ih h ?_
      intro fragment hfragment
      rw [Option.mem_some] at hfragment
      subst hfragment
      have hne : taken ++ [run] ≠ [] := by simp
      have htake : (taken ++ [run] ++ rest).take (taken ++ [run]).length = taken ++ [run] :=
        List.take_left
      refine ⟨⟨?_, ?_, pairs, ?_, ?_⟩, ?_⟩
      · rwa [htake]
      · rw [hfits, hc]
      · rwa [htake]
      · rw [htake]
        exact encodeDataFragment_stores (encodeRuns_pos hpairs hne) hbytes
      · rw [htake]
    · rw [pure_eq_ok, Except.ok.injEq] at h
      exact h ▸ hchosen

/-- The fragment chosen from runs holds some of them. -/
theorem chooseFragment_front {stream : ObjectStream} {lowestVcn id : ℕ} {runs : List Run}
    {fragment : Fragment}
    (h : chooseFragment stream lowestVcn id [] runs 0 none = .ok (some fragment)) :
    IsPrefix lowestVcn runs fragment :=
  chooseFragment_ok h (by simp) fragment rfl

/-- Pieces of a run list, each held by its attribute from where the one before it ends. -/
def HoldsPieces : ℕ → List (List Run) → List Bytes → Prop
  | _, [], [] => True
  | lowestVcn, piece :: pieces, bytes :: rest =>
    HoldsRuns lowestVcn piece bytes ∧ HoldsPieces (lowestVcn + totalClusters piece) pieces rest
  | _, _, _ => False

theorem splitFrom_ok {stream : ObjectStream} {fuel lowestVcn id : ℕ} {runs : List Run}
    {fragments : List Bytes} (h : splitFrom stream fuel runs lowestVcn id = .ok fragments) :
    ∃ pieces, pieces.flatten = runs ∧ HoldsPieces lowestVcn pieces fragments := by
  induction fuel generalizing runs lowestVcn id fragments with
  | zero =>
    cases runs with
    | nil =>
      rw [splitFrom, pure_eq_ok, Except.ok.injEq] at h
      exact ⟨[], rfl, h ▸ trivial⟩
    | cons run runs => cases h
  | succ fuel ih =>
    cases runs with
    | nil =>
      rw [splitFrom, pure_eq_ok, Except.ok.injEq] at h
      exact ⟨[], rfl, h ▸ trivial⟩
    | cons run runs =>
      simp only [splitFrom, bind_ok_iff, orErr_ok_iff, checkedAdd_eq_some, pure_eq_ok,
        Except.ok.injEq] at h
      obtain ⟨chosen, hchosen, fragment, rfl, nextVcn, ⟨-, rfl⟩, nextId, -, more, hmore, rfl⟩ := h
      obtain ⟨hholds, hclusters⟩ := chooseFragment_front hchosen
      obtain ⟨pieces, hpieces, hrest⟩ := ih hmore
      refine ⟨(run :: runs).take fragment.count :: pieces, ?_, hholds, ?_⟩
      · rw [List.flatten_cons, hpieces, List.take_append_drop]
      · rw [← hclusters]
        exact hrest

/-- As much fuel as there are runs is enough. -/
theorem splitFrom_fuel {stream : ObjectStream} {fuel lowestVcn id : ℕ} {runs : List Run}
    (h : runs.length ≤ fuel) :
    splitFrom stream fuel runs lowestVcn id = splitFrom stream runs.length runs lowestVcn id := by
  induction hn : runs.length using Nat.strong_induction_on generalizing runs fuel lowestVcn id with
  | _ n ih =>
    cases runs with
    | nil =>
      subst hn
      cases fuel <;> rfl
    | cons run runs =>
      obtain ⟨fuel, rfl⟩ : ∃ k, fuel = k + 1 := ⟨fuel - 1, by simp at h; omega⟩
      subst hn
      rw [List.length_cons] at h ⊢
      simp only [splitFrom]
      cases hchosen : chooseFragment stream lowestVcn id [] (run :: runs) 0 none with
      | error e => rfl
      | ok chosen =>
        cases chosen with
        | none => rfl
        | some fragment =>
          -- The fragment took at least one run, so the rest is shorter.
          have hcount : 1 ≤ fragment.count := by
            rw [Nat.one_le_iff_ne_zero]
            intro hzero
            refine (chooseFragment_front hchosen).holds.nonempty ?_
            rw [hzero, List.take_zero]
          have hrest : ((run :: runs).drop fragment.count).length ≤ runs.length := by
            rw [List.length_drop, List.length_cons]
            omega
          simp only [ok_bind, orErr_some]
          have heq : ∀ lowestVcn id,
              splitFrom stream fuel ((run :: runs).drop fragment.count) lowestVcn id =
                splitFrom stream runs.length ((run :: runs).drop fragment.count) lowestVcn id := by
            intro lowestVcn id
            rw [ih _ (by rw [List.length_cons]; omega) (by omega) rfl,
              ih _ (by rw [List.length_cons]; omega) hrest rfl]
          simp only [heq]

/-! ## Reading the fragments -/

/-- The limits a reader parses the mapping pairs of an attribute under. -/
def fragmentLimits (volumeClusterCount maxRuns maxDecodedClusters : ℕ) (bytes : Bytes) :
    MappingPairsLimits where
  startingVcn := leAt 8 bytes 16
  expectedNextVcn := some (leAt 8 bytes 24 + 1)
  volumeClusterCount := volumeClusterCount
  maxRuns := maxRuns
  maxDecodedClusters := maxDecodedClusters

/-- What a reader makes of the mapping pairs of an attribute. -/
def readFragment (volumeClusterCount maxRuns maxDecodedClusters : ℕ) (bytes : Bytes) :
    Except MappingPairsError NtfsRunlist :=
  parseAttributeMappingPairs (bytes.drop (leAt 2 bytes 32))
    (fragmentLimits volumeClusterCount maxRuns maxDecodedClusters bytes)

/-- The ranges of virtual clusters in the headers follow each other and fill a range. -/
def TilesVcns : ℕ → List Bytes → ℕ → Prop
  | vcn, [], stop => vcn = stop
  | vcn, bytes :: rest, stop => leAt 8 bytes 16 = vcn ∧ vcn ≤ leAt 8 bytes 24 ∧
    TilesVcns (leAt 8 bytes 24 + 1) rest stop

theorem HoldsRuns.fits_word {lowestVcn : ℕ} {runs : List Run} {bytes : Bytes}
    (h : HoldsRuns lowestVcn runs bytes) : bytes.length < wordBound := by
  have hfits := h.fits
  simp only [recordLengthsFit, recordLengthsFitFrom, bind_ok_iff, orErr_ok_iff,
    checkedAdd_eq_some] at hfits
  obtain ⟨stop, ⟨hlt, -⟩, -⟩ := hfits
  omega

section Read

variable {n maxRuns maxClusters : ℕ} (hn : n ≤ 2 ^ 63)

include hn

theorem HoldsRuns.read {lowestVcn : ℕ} {runs : List Run} {bytes : Bytes}
    (h : HoldsRuns lowestVcn runs bytes) (hruns : RunsInVolume n runs)
    (hmax : runs.length ≤ maxRuns) (hclusters : totalClusters runs ≤ maxClusters) :
    ∃ list, readFragment n maxRuns maxClusters bytes = .ok list ∧
      list.extents = coalesce mergeExtents (runExtents lowestVcn runs) := by
  obtain ⟨pairs, hpairs, hlowest, hhighest, hrange, tail, htail, hdrop⟩ := h.stores
  have hlength : (pairs ++ tail).length < wordBound := by
    rw [← hdrop, List.length_drop]
    exact (Nat.sub_le _ _).trans_lt h.fits_word
  have hroom : Room (fragmentLimits n maxRuns maxClusters bytes)
      (.start (fragmentLimits n maxRuns maxClusters bytes)) runs := by
    refine Room.start hmax hclusters ?_ ?_ <;> simp only [fragmentLimits, hlowest]
    · exact hrange
    · intro expected hexpected
      rw [← Option.mem_some.1 hexpected]
      exact hhighest.symm
  obtain ⟨list, hlist, hextents, -⟩ :=
    parseMappingPairsWithPadding_encodeRuns hpairs htail hlength hn hruns hroom true
  refine ⟨list, ?_, ?_⟩
  · rw [readFragment, hdrop]
    exact hlist
  · rw [hextents, ← hlowest]
    rfl

/-- The extents of pieces of a run list, each from where the one before it ends. -/
def pieceExtents : ℕ → List (List Run) → List (List NtfsExtent)
  | _, [] => []
  | vcn, piece :: pieces => runExtents vcn piece :: pieceExtents (vcn + totalClusters piece) pieces

omit hn in
theorem flatten_pieceExtents (vcn : ℕ) (pieces : List (List Run)) :
    (pieceExtents vcn pieces).flatten = runExtents vcn pieces.flatten := by
  induction pieces generalizing vcn with
  | nil => rfl
  | cons piece pieces ih =>
    rw [pieceExtents, List.flatten_cons, List.flatten_cons, ih, runExtents_append]

theorem HoldsPieces.read {pieces : List (List Run)} {fragments : List Bytes} {lowestVcn : ℕ}
    (h : HoldsPieces lowestVcn pieces fragments) (hruns : RunsInVolume n pieces.flatten)
    (hmax : pieces.flatten.length ≤ maxRuns) (hclusters : totalClusters pieces.flatten ≤ maxClusters) :
    ∃ lists : List NtfsRunlist,
      List.Forall₂ (fun bytes list => readFragment n maxRuns maxClusters bytes = .ok list)
        fragments lists ∧
      lists.map (·.extents) = (pieceExtents lowestVcn pieces).map (coalesce mergeExtents) := by
  induction pieces generalizing lowestVcn fragments with
  | nil =>
    cases fragments with
    | nil => exact ⟨[], .nil, rfl⟩
    | cons bytes rest => exact h.elim
  | cons piece pieces ih =>
    cases fragments with
    | nil => exact h.elim
    | cons bytes rest =>
      obtain ⟨hpiece, hpieces⟩ := h
      rw [List.flatten_cons] at hruns hmax hclusters
      rw [List.length_append] at hmax
      rw [totalClusters_append] at hclusters
      obtain ⟨list, hlist, hextents⟩ := hpiece.read hn
        (fun run hrun => hruns run (List.mem_append_left _ hrun)) (show piece.length ≤ maxRuns by omega)
        (show totalClusters piece ≤ maxClusters by omega)
      obtain ⟨lists, hlists, hmap⟩ := ih hpieces
        (fun run hrun => hruns run (List.mem_append_right _ hrun)) (by omega) (by omega)
      refine ⟨list :: lists, .cons hlist hlists, ?_⟩
      rw [List.map_cons, pieceExtents, List.map_cons, hmap, hextents]

end Read

theorem HoldsPieces.fits {pieces : List (List Run)} {fragments : List Bytes} {lowestVcn : ℕ}
    (h : HoldsPieces lowestVcn pieces fragments) :
    ∀ bytes ∈ fragments, recordLengthsFit [bytes.length] = .ok true := by
  induction pieces generalizing lowestVcn fragments with
  | nil =>
    cases fragments with
    | nil => simp
    | cons bytes rest => exact h.elim
  | cons piece pieces ih =>
    cases fragments with
    | nil => exact h.elim
    | cons bytes rest => exact List.forall_mem_cons.2 ⟨h.1.fits, ih h.2⟩

theorem HoldsPieces.tiles {pieces : List (List Run)} {fragments : List Bytes} {lowestVcn : ℕ}
    (h : HoldsPieces lowestVcn pieces fragments) :
    TilesVcns lowestVcn fragments (lowestVcn + totalClusters pieces.flatten) := by
  induction pieces generalizing lowestVcn fragments with
  | nil =>
    cases fragments with
    | nil => rfl
    | cons bytes rest => exact h.elim
  | cons piece pieces ih =>
    cases fragments with
    | nil => exact h.elim
    | cons bytes rest =>
      obtain ⟨hpiece, hpieces⟩ := h
      obtain ⟨pairs, hpairs, hstores⟩ := hpiece.stores
      have hpos := encodeRuns_pos hpairs hpiece.nonempty
      have hhighest := hstores.highest
      have hrest := ih hpieces
      rw [List.flatten_cons, totalClusters_append, ← Nat.add_assoc]
      refine ⟨hstores.lowest, by omega, ?_⟩
      rwa [hhighest]

/-- What is claimed of the fragments of a run list. -/
structure FragmentsSurvive (n maxRuns maxClusters : ℕ) (runs : List Run) (fragments : List Bytes) :
    Prop where
  fits : ∀ bytes ∈ fragments, recordLengthsFit [bytes.length] = .ok true
  tiles : TilesVcns 0 fragments (totalClusters runs)
  read : ∃ lists : List NtfsRunlist,
    List.Forall₂ (fun bytes list => readFragment n maxRuns maxClusters bytes = .ok list)
      fragments lists ∧
    coalesce mergeExtents (lists.flatMap (·.extents)) = coalesce mergeExtents (runExtents 0 runs) ∧
    ∀ vcn, locateVcn (lists.flatMap (·.extents)) vcn = locateVcn (runExtents 0 runs) vcn

/-- **Round trip.** In a volume of at most 2^63 clusters, the fragments of a run list fit into records,
tile the stream and are read back as the run list, up to merged neighbours. What the parser accepts is
a tiling of its range by merged extents inside the volume. -/
theorem mappingPairs_roundTrip :
    (∀ (stream : ObjectStream) (runs : List Run) (firstId n maxRuns maxClusters : ℕ)
      (fragments : List Bytes), n ≤ 2 ^ 63 → RunsInVolume n runs → runs.length ≤ maxRuns →
      totalClusters runs ≤ maxClusters →
      splitNonresidentDataAttributes stream runs firstId = .ok fragments →
      FragmentsSurvive n maxRuns maxClusters runs fragments) ∧
    ∀ (bytes : Bytes) (limits : MappingPairsLimits) (list : NtfsRunlist),
      parseMappingPairs bytes limits = .ok list → list.Mapped limits := by
  refine ⟨?_, fun bytes limits list => parseMappingPairs_mapped⟩
  intro stream runs firstId n maxRuns maxClusters fragments hn hruns hmax hclusters hsplit
  obtain ⟨pieces, rfl, hpieces⟩ := splitFrom_ok hsplit
  obtain ⟨lists, hlists, hmap⟩ := hpieces.read hn hruns hmax hclusters
  have hmerged : coalesce mergeExtents (lists.flatMap (·.extents)) =
      coalesce mergeExtents (runExtents 0 pieces.flatten) := by
    rw [List.flatMap_def, hmap, ← flatten_pieceExtents, ← List.flatMap_def, ← List.flatMap_id]
    exact lawfulMerge_mergeExtents.coalesce_flatMap (pieceExtents 0 pieces) id
  have htiles := hpieces.tiles
  rw [Nat.zero_add] at htiles
  refine ⟨hpieces.fits, htiles, lists, hlists, hmerged, fun vcn => ?_⟩
  rw [← locateVcn_coalesce, hmerged, locateVcn_coalesce]

/-- A stream with no name and no flags. -/
def plainStream : ObjectStream where
  id := 7
  name := none
  logicalBytes := 8192
  initializedBytes := 8192
  mappedBytes := 8192
  allocatedBytes := 8192
  flags := ⟨false, false, false, 0⟩
  storage := .extents

/-- Two runs with a hole between them, the second before the first on disk. -/
def scatteredRuns : List Run := [(some 900, 3), (none, 2), (some 17, 5)]

theorem mappingPairs_roundTrip_scattered :
    (∀ fragments, splitNonresidentDataAttributes plainStream scatteredRuns 3 = .ok fragments →
      FragmentsSurvive 1000 8 1000 scatteredRuns fragments) ∧
    (splitNonresidentDataAttributes plainStream scatteredRuns 3).toOption.isSome = true ∧
    ∀ list, parseMappingPairs [0x11, 2, 5, 0] ⟨0, none, 1000, 8, 1000⟩ = .ok list →
      list.Mapped ⟨0, none, 1000, 8, 1000⟩ :=
  ⟨fun _ h => mappingPairs_roundTrip.1 plainStream scatteredRuns 3 1000 8 1000 _ (by norm_num)
      (by decide) (by decide) (by decide) h,
    by decide +kernel, fun _ h => mappingPairs_roundTrip.2 _ _ _ h⟩

/-- Two runs on both sides of the largest cluster number a signed word holds. -/
def hugeRuns : List Run := [(some (2 ^ 63 - 1), 1), (some (2 ^ 63), 1)]

/-- The one fragment the writer makes of `hugeRuns`. -/
def hugeFragment : Bytes :=
  ((splitNonresidentDataAttributes plainStream hugeRuns 0).toOption.getD []).headD []

/-- The writer takes the distance between the runs, the parser cannot hold where it leads. -/
theorem not_mappingPairs_roundTrip :
    ¬ ∀ (stream : ObjectStream) (runs : List Run) (firstId n maxRuns maxClusters : ℕ)
      (fragments : List Bytes), n < wordBound → RunsInVolume n runs → runs.length ≤ maxRuns →
      totalClusters runs ≤ maxClusters →
      splitNonresidentDataAttributes stream runs firstId = .ok fragments →
      FragmentsSurvive n maxRuns maxClusters runs fragments := by
  intro claim
  have hsplit : splitNonresidentDataAttributes plainStream hugeRuns 0 = .ok [hugeFragment] := by
    decide +kernel
  have hfail : readFragment (2 ^ 63 + 1) 8 8 hugeFragment =
      .error (.lcnOverflow 1 (2 ^ 63 - 1) 1) := by
    decide +kernel
  obtain ⟨lists, hlists, -⟩ := (claim plainStream hugeRuns 0 (2 ^ 63 + 1) 8 8 _
    (by norm_num [wordBound]) (by decide) (by decide) (by decide) hsplit).read
  cases hlists with
  | cons hread _ =>
    rw [hfail] at hread
    cases hread

end Ntfs

end StarConverter
