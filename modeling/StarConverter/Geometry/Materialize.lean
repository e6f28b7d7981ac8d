import StarConverter.Geometry.Relocate
import StarConverter.Geometry.Soundness

/-!
# Materialized streams

A stream that cannot stay where it is, because its bytes are compressed, resident or misaligned, is
written anew to the destinations the solver gives it. Below are the length of the request, the graph
the materializations lead to (`applyEach_ok_iff`), and `relocateObjectGraph_ok_iff`, which comes down
to a layout that fits the graph and the checks of the rebuilt graph.
-/

namespace StarConverter

open Base

namespace Geometry

/-! ## Materialization requests -/

/-- The first object with the stream: its kind and the stream. -/
def findStream (objects : List ObjectRecord) (stream : StreamId) :
    Option (ObjectKind × ObjectStream) :=
  objects.findSome? fun object =>
    (object.streams.find? fun candidate => candidate.id = stream).map fun found =>
      (object.kind, found)

/-- The destination length of a stream that has to be written anew, for a destination with the given
allocation unit. -/
def materializationLengthForStream (graph : ObjectGraph) (stream : StreamId) (alignment : ℕ) :
    Option ℕ :=
  if ¬ isPowerOfTwo alignment then none
  else
    match findStream graph.objects stream with
    | none => none
    | some (kind, record) =>
      if kind ≠ .file then none
      else if record.logicalBytes = 0 then none
      else
        match alignUp record.logicalBytes alignment with
        | none => none
        | some destLength =>
          if record.flags.compressionBlockBytes ≠ 0 then some destLength
          else if record.initializedBytes < destLength then some destLength
          else
            match record.storage with
            | .resident bytes => if bytes ≠ [] then some destLength else none
            | .extents =>
              let extents := graph.extents.extents.filter fun extent =>
                extent.stream = record.id ∧ extent.kind = .fileData
              if extents ≠ [] ∧ ∀ extent ∈ extents, extent.length % alignment = 0 ∧
                  extent.placement.isPhysical = true then none
              else some destLength

theorem le_alignUp {v a n : ℕ} (ha : isPowerOfTwo a) (h : alignUp v a = some n) : v ≤ n := by
  unfold alignUp at h
  split_ifs at h with h0
  · omega
  · simp only [Option.map_eq_some_iff, checkedAdd_eq_some] at h
    obtain ⟨_, ⟨hlt, rfl⟩, rfl⟩ := h
    rw [clearLow_eq ha hlt]
    have := Nat.mod_lt (v + (a - 1)) ha.pos
    omega

/-- A stream with a request belongs to a file, has bytes, and the request covers them. -/
theorem materializationLength_some {g : ObjectGraph} {stream : StreamId} {a n : ℕ}
    (h : materializationLengthForStream g stream a = some n) :
    ∃ record, findStream g.objects stream = some (.file, record) ∧ record.logicalBytes ≠ 0 ∧
      record.logicalBytes ≤ n := by
  unfold materializationLengthForStream at h
  split at h
  · cases h
  next ha =>
  split at h
  · cases h
  next kind record hf =>
  split at h
  · cases h
  next hk =>
  split at h
  · cases h
  next h0 =>
  split at h
  · cases h
  next destLength hal =>
  have hn : destLength = n := by
    split at h
    · exact Option.some.inj h
    split at h
    · exact Option.some.inj h
    split at h
    · split at h
      · exact Option.some.inj h
      · cases h
    · dsimp only at h
      split at h
      · cases h
      · exact Option.some.inj h
  exact ⟨record, by rw [hf, not_not.1 hk], h0, hn ▸ le_alignUp (not_not.1 ha) hal⟩

theorem findFileStream_of_findStream {objects : List ObjectRecord} {stream : StreamId}
    {record : ObjectStream} (h : findStream objects stream = some (.file, record)) :
    findFileStream stream objects = .ok record := by
  unfold findStream at h
  induction objects with
  | nil => simp at h
  | cons object rest ih =>
    rw [List.findSome?_cons] at h
    rw [findFileStream]
    cases hf : object.streams.find? fun candidate => candidate.id = stream with
    | some found =>
      rw [hf] at h
      simp only [Option.map_some, Option.some.injEq, Prod.mk.injEq] at h
      obtain ⟨hk, rfl⟩ := h
      rw [if_neg (by simpa using hk)]
      rfl
    | none =>
      rw [hf] at h
      split_ifs with hk
      · rw [ensure_of (by simpa using List.find?_eq_none.1 hf)]
        exact ih h
      · exact ih h

theorem findFileStream_ok {objects : List ObjectRecord} {stream : StreamId} {found : ObjectStream}
    (h : findFileStream stream objects = .ok found) :
    found ∈ ObjectGraph.allStreams objects ∧ found.id = stream := by
  induction objects with
  | nil => cases h
  | cons object rest ih =>
    rw [findFileStream] at h
    have hall : ObjectGraph.allStreams (object :: rest) =
        object.streams ++ ObjectGraph.allStreams rest := rfl
    rw [hall, List.mem_append]
    split_ifs at h with hk
    · simp only [bind_ok_iff, exists_const, ensure_ok_iff] at h
      exact ⟨Or.inr (ih h.2).1, (ih h.2).2⟩
    · split at h
      · next f hf =>
        obtain rfl := Except.ok.inj h
        exact ⟨Or.inl (List.mem_of_find?_eq_some hf), by simpa using List.find?_some hf⟩
      · exact ⟨Or.inr (ih h).1, (ih h).2⟩

/-! ## The materialized graph -/

/-- The bytes of a list of spans. -/
def spanTotal (spans : List ByteRange) : ℕ := (spans.map fun s => s.length).sum

/-- The extents of a materialized stream from a logical offset on. -/
def placeFrom (stream : StreamId) : ℕ → List ByteRange → List Extent
  | _, [] => []
  | logicalOffset, destination :: rest =>
    ⟨stream, logicalOffset, destination.length, .physical destination.offset, .fileData⟩ ::
      placeFrom stream (logicalOffset + destination.length) rest

theorem allocationBytes_ok_iff {stream : StreamId} {total n : ℕ} {spans : List ByteRange}
    (ht : total < wordBound) :
    allocationBytes stream total spans = .ok n ↔
      (∀ s ∈ spans, 0 < s.length ∧ s.stop < wordBound) ∧ total + spanTotal spans < wordBound ∧
        n = total + spanTotal spans := by
  induction spans generalizing total with
  | nil => simp [allocationBytes, spanTotal, ht, eq_comm]
  | cons s rest ih =>
    have hcons : spanTotal (s :: rest) = s.length + spanTotal rest := by simp [spanTotal]
    simp only [allocationBytes, bind_ok_iff, exists_const, ensure_ok_iff, mapError_ok_iff,
      rangeEnd_ok_iff, orErr_ok_iff, checkedAdd_eq_some, List.forall_mem_cons, hcons,
      ← Nat.add_assoc]
    constructor
    · rintro ⟨h0, _, ⟨hw, -⟩, _, ⟨hlt, rfl⟩, h⟩
      rw [ih hlt] at h
      exact ⟨⟨⟨Nat.pos_of_ne_zero h0, hw⟩, h.1⟩, h.2⟩
    · rintro ⟨⟨⟨h0, hw⟩, hrest⟩, hlt, hn⟩
      refine ⟨h0.ne', _, ⟨hw, rfl⟩, _, ⟨by omega, rfl⟩, ?_⟩
      exact (ih (by omega)).2 ⟨hrest, hlt, hn⟩

theorem placeDestinations_ok_iff {stream : StreamId} {o : ℕ} {spans : List ByteRange}
    {out : List Extent} (ho : o < wordBound) :
    placeDestinations stream o spans = .ok out ↔
      o + spanTotal spans < wordBound ∧ out = placeFrom stream o spans := by
  induction spans generalizing o out with
  | nil => simp [placeDestinations, placeFrom, spanTotal, ho, eq_comm]
  | cons s rest ih =>
    have hcons : spanTotal (s :: rest) = s.length + spanTotal rest := by simp [spanTotal]
    simp only [placeDestinations, bind_ok_iff, orErr_ok_iff, checkedAdd_eq_some, pure_eq_ok,
      Except.ok.injEq, hcons, placeFrom, ← Nat.add_assoc]
    constructor
    · rintro ⟨_, ⟨hlt, rfl⟩, more, hm, rfl⟩
      rw [ih hlt] at hm
      exact ⟨hm.1, by rw [hm.2]⟩
    · rintro ⟨hlt, rfl⟩
      have h' : o + s.length < wordBound := by omega
      exact ⟨_, ⟨h', rfl⟩, _, (ih h').2 ⟨hlt, rfl⟩, rfl⟩

/-- A materialization the objects can take. -/
structure Materializable (objects : List ObjectRecord) (m : Materialization) : Prop where
  nonempty : m.destinations ≠ []
  spans : ∀ s ∈ m.destinations, 0 < s.length ∧ s.stop < wordBound
  total_lt : spanTotal m.destinations < wordBound
  found : ∃ found, findFileStream m.stream objects = .ok found ∧ found.logicalBytes ≠ 0 ∧
    found.logicalBytes ≤ spanTotal m.destinations

/-- A stream after the materializations. -/
def materialized (ms : List Materialization) (s : ObjectStream) : ObjectStream :=
  match ms.find? fun m => m.stream = s.id with
  | some m => materializeStream (spanTotal m.destinations) s
  | none => s

def materializedObjects (ms : List Materialization) (objects : List ObjectRecord) :
    List ObjectRecord :=
  objects.map fun o => { o with streams := o.streams.map (materialized ms) }

/-- The extents the materializations leave in place. -/
def keptExtents (ms : List Materialization) (extents : List Extent) : List Extent :=
  extents.filter fun e => ¬ (e.stream ∈ ms.map Materialization.stream ∧ e.kind = .fileData)

def placedExtents (ms : List Materialization) : List Extent :=
  ms.flatMap fun m => placeFrom m.stream 0 m.destinations

@[simp] theorem materialized_id (ms : List Materialization) (s : ObjectStream) :
    (materialized ms s).id = s.id := by
  unfold materialized; split <;> rfl

theorem materialized_cons {m : Materialization} {ms : List Materialization}
    (hm : m.stream ∉ ms.map Materialization.stream) (s : ObjectStream) :
    materialized ms (if s.id = m.stream then materializeStream (spanTotal m.destinations) s else s) =
      materialized (m :: ms) s := by
  unfold materialized
  rw [List.find?_cons]
  by_cases hs : s.id = m.stream
  · have hnone : ms.find? (fun m' => m'.stream = s.id) = none := by
      refine List.find?_eq_none.2 fun m' hm' => ?_
      rw [hs]
      simpa using fun he : m'.stream = m.stream => hm (he ▸ List.mem_map_of_mem hm')
    have hid : (materializeStream (spanTotal m.destinations) s).id = s.id := rfl
    simp only [hs, if_true, decide_true]
    rw [hid, hnone]
  · simp only [hs, if_false, show ¬ m.stream = s.id from fun h => hs h.symm, decide_false]

theorem materializedObjects_updateStream {m : Materialization} {ms : List Materialization}
    (hm : m.stream ∉ ms.map Materialization.stream) (objects : List ObjectRecord) :
    materializedObjects ms (updateStream m.stream (materializeStream (spanTotal m.destinations))
      objects) = materializedObjects (m :: ms) objects := by
  unfold materializedObjects updateStream
  rw [List.map_map]
  refine List.map_congr_left fun o _ => ?_
  simp only [Function.comp_apply, List.map_map]
  congr 1
  exact List.map_congr_left fun s _ => materialized_cons hm s

theorem placeFrom_stream {stream : StreamId} {o : ℕ} {spans : List ByteRange} {e : Extent}
    (he : e ∈ placeFrom stream o spans) : e.stream = stream := by
  induction spans generalizing o with
  | nil => simp [placeFrom] at he
  | cons s rest ih =>
    rcases List.mem_cons.1 he with rfl | he
    · rfl
    · exact ih he

theorem keptExtents_step {m : Materialization} {ms : List Materialization}
    (hm : m.stream ∉ ms.map Materialization.stream) (extents : List Extent) :
    keptExtents ms (extents.filter (fun e => ¬ (e.stream = m.stream ∧ e.kind = .fileData)) ++
      placeFrom m.stream 0 m.destinations) ++ placedExtents ms =
      keptExtents (m :: ms) extents ++ placedExtents (m :: ms) := by
  have hplaced : keptExtents ms (placeFrom m.stream 0 m.destinations) =
      placeFrom m.stream 0 m.destinations := by
    refine List.filter_eq_self.2 fun e he => ?_
    rw [placeFrom_stream he]
    simp [hm]
  have hkept : keptExtents ms (extents.filter fun e => ¬ (e.stream = m.stream ∧ e.kind = .fileData)) =
      keptExtents (m :: ms) extents := by
    unfold keptExtents
    rw [List.filter_filter]
    refine List.filter_congr fun e _ => ?_
    simp only [List.map_cons, List.mem_cons, ← Bool.decide_and, decide_eq_decide]
    tauto
  rw [keptExtents, List.filter_append, ← keptExtents, ← keptExtents, hplaced, hkept,
    List.append_assoc]
  rfl

theorem findFileStream_updateStream {s t : StreamId} (hne : s ≠ t) {f : ObjectStream → ObjectStream}
    (hf : ∀ r, (f r).id = r.id) (objects : List ObjectRecord) :
    findFileStream s (updateStream t f objects) = findFileStream s objects := by
  unfold updateStream
  induction objects with
  | nil => rfl
  | cons object rest ih =>
    have hid : ∀ r : ObjectStream, (if r.id = t then f r else r).id = r.id := by
      intro r; split_ifs <;> simp [hf]
    have hcond : (∀ c ∈ object.streams.map (fun r => if r.id = t then f r else r), c.id ≠ s) ↔
        ∀ c ∈ object.streams, c.id ≠ s := by
      simp only [List.forall_mem_map, hid]
    have hfind : (object.streams.map fun r => if r.id = t then f r else r).find?
        (fun c => c.id = s) = object.streams.find? fun c => c.id = s := by
      rw [List.find?_map]
      have : (fun c : ObjectStream => decide (c.id = s)) ∘ (fun r => if r.id = t then f r else r) =
          fun c => decide (c.id = s) := by
        funext r; simp only [Function.comp_apply, hid]
      rw [this]
      cases hc : object.streams.find? fun c => c.id = s with
      | none => rfl
      | some c =>
        have : c.id = s := by simpa using List.find?_some hc
        simp [this, hne]
    rw [List.map_cons, findFileStream, findFileStream, ih]
    simp only [hfind]
    split_ifs
    · congr 1
      unfold ensure
      simp only [hcond]
    · rfl

theorem applyEach_ok_iff {layout : LayoutPlan} {state out : Materialized}
    {ms : List Materialization} (hnd : (ms.map Materialization.stream).Nodup)
    (ha : state.actualBytes < wordBound) :
    applyEach layout state ms = .ok out ↔
      (∀ m ∈ ms, Materializable state.objects m) ∧
        state.actualBytes + (ms.map fun m => spanTotal m.destinations).sum < wordBound ∧
        out = ⟨state.actualBytes + (ms.map fun m => spanTotal m.destinations).sum,
          materializedObjects ms state.objects, keptExtents ms state.extents ++ placedExtents ms⟩ := by
  induction ms generalizing state with
  | nil =>
    have hobj : materializedObjects [] state.objects = state.objects := by
      refine (List.map_congr_left fun o _ => ?_).trans (List.map_id _)
      rw [show materialized [] = id from rfl, List.map_id]
      rfl
    have hext : keptExtents [] state.extents ++ placedExtents [] = state.extents := by
      simp [keptExtents, placedExtents]
    simp [applyEach, ha, hobj, hext, eq_comm]
  | cons m ms ih =>
    obtain ⟨hm, hnd'⟩ := List.nodup_cons.1 (List.map_cons ▸ hnd)
    have hmat : ∀ (m' : Materialization), m' ∈ ms →
        (Materializable (updateStream m.stream (materializeStream (spanTotal m.destinations))
          state.objects) m' ↔ Materializable state.objects m') := by
      intro m' hm'
      have hne : m'.stream ≠ m.stream := fun he => hm (he ▸ List.mem_map_of_mem hm')
      have hfind := findFileStream_updateStream hne
        (f := materializeStream (spanTotal m.destinations)) (fun _ => rfl) state.objects
      constructor
      · exact fun h => ⟨h.nonempty, h.spans, h.total_lt, hfind ▸ h.found⟩
      · exact fun h => ⟨h.nonempty, h.spans, h.total_lt, hfind.symm ▸ h.found⟩
    simp only [applyEach, applyMaterialization, bind_ok_iff, exists_const, ensure_ok_iff,
      allocationBytes_ok_iff wordBound_pos, placeDestinations_ok_iff wordBound_pos, orErr_ok_iff,
      checkedAdd_eq_some, pure_eq_ok, Except.ok.injEq, Nat.zero_add, List.forall_mem_cons,
      List.map_cons, List.sum_cons, ← Nat.add_assoc, not_or, not_lt]
    constructor
    · rintro ⟨_, ⟨hne, _, ⟨hsp, hlt, rfl⟩, _, ⟨hact, rfl⟩, found, hf, ⟨h0, hle⟩, _, ⟨-, rfl⟩, rfl⟩,
        hrest⟩
      rw [ih hnd' hact] at hrest
      obtain ⟨hall, hsum, rfl⟩ := hrest
      refine ⟨⟨⟨hne, hsp, hlt, found, hf, h0, hle⟩, fun m' hm' => (hmat m' hm').1 (hall m' hm')⟩,
        hsum, ?_⟩
      simp only [materializedObjects_updateStream hm, keptExtents_step hm]
    · rintro ⟨⟨h, hall⟩, hsum, rfl⟩
      obtain ⟨found, hf, h0, hle⟩ := h.found
      refine ⟨_, ⟨h.nonempty, _, ⟨h.spans, h.total_lt, rfl⟩, _, ⟨by omega, rfl⟩, found, hf,
        ⟨h0, hle⟩, _, ⟨h.total_lt, rfl⟩, rfl⟩, ?_⟩
      rw [ih hnd' (by simp only; omega)]
      refine ⟨fun m' hm' => (hmat m' hm').2 (hall m' hm'), hsum, ?_⟩
      simp only [materializedObjects_updateStream hm, keptExtents_step hm]

/-- A layout whose records fit the graph, before anything is rebuilt. -/
structure Applicable (g : ObjectGraph) (layout : LayoutPlan) : Prop where
  distinct : (layout.relocations.map relocationKey).Nodup
  relocates : ∀ r ∈ layout.relocations, Relocates layout g.extents.extents r
  relocated_lt : (layout.relocations.map fun r => r.source.length).sum < wordBound
  relocated_eq : (layout.relocations.map fun r => r.source.length).sum = layout.relocatedBytes
  streams : (layout.materializations.map Materialization.stream).Nodup
  materializable : ∀ m ∈ layout.materializations, Materializable g.objects m
  materialized_lt : (layout.materializations.map fun m => spanTotal m.destinations).sum < wordBound
  materialized_eq : (layout.materializations.map fun m => spanTotal m.destinations).sum =
    layout.materializedBytes

/-- The extents of the relocated graph, before they are sorted. -/
def relocatedExtents (g : ObjectGraph) (layout : LayoutPlan) : List Extent :=
  keptExtents layout.materializations (g.extents.extents.map (moveExtent layout.relocations)) ++
    placedExtents layout.materializations

theorem relocateObjectGraph_ok_iff {g target : ObjectGraph} {layout : LayoutPlan} :
    relocateObjectGraph g layout = .ok target ↔ Applicable g layout ∧
      rebuildRelocatedGraphWithObjects g (materializedObjects layout.materializations g.objects)
        (relocatedExtents g layout) = .ok target := by
  have hpos : ∀ e ∈ g.extents.extents, 0 < e.length := fun e he => (g.extents.valid e he).nonempty
  simp only [relocateObjectGraph, checkDistinctRelocations, applyMaterializations, bind_ok_iff,
    exists_const, ensure_ok_iff, pure_eq_ok, Except.ok.injEq, checkPairs_ne_ok_iff]
  constructor
  · rintro ⟨hd, _, hremap, hrel, _, ⟨hs, _, hmat, hmeq, rfl⟩, hb⟩
    obtain ⟨h1, h2, rfl⟩ := (remapExtents_source_ok_iff hpos g.extents.physical hd).1 hremap
    obtain ⟨h3, h4, rfl⟩ := (applyEach_ok_iff hs wordBound_pos).1 hmat
    rw [Nat.zero_add] at h4
    simp only [Nat.zero_add] at hmeq
    exact ⟨⟨hd, h1, h2, hrel, hs, h3, h4, hmeq⟩, hb⟩
  · rintro ⟨h, hb⟩
    refine ⟨h.distinct, _, (remapExtents_source_ok_iff hpos g.extents.physical h.distinct).2
      ⟨h.relocates, h.relocated_lt, rfl⟩, h.relocated_eq, _, ⟨h.streams, _,
      (applyEach_ok_iff h.streams wordBound_pos).2 ⟨h.materializable, ?_, rfl⟩, ?_, rfl⟩, hb⟩
    · rw [Nat.zero_add]; exact h.materialized_lt
    · simp only [Nat.zero_add]; exact h.materialized_eq

/-! ## Lists of extents -/

theorem sum_length_le_of_ordered {l : List ByteRange} (lo : ℕ) {b : ℕ} (ho : Ordered l)
    (hlo : ∀ s ∈ l, lo ≤ s.offset) (hb : ∀ s ∈ l, s.stop ≤ b) (hle : lo ≤ b) :
    lo + (l.map fun s => s.length).sum ≤ b := by
  induction l generalizing lo with
  | nil => simpa using hle
  | cons s rest ih =>
    obtain ⟨hbefore, ho'⟩ := List.pairwise_cons.1 ho
    have h1 := hlo s (by simp)
    have h2 := hb s (by simp)
    have := ih s.stop ho' hbefore (fun t ht => hb t (by simp [ht])) h2
    simp only [List.map_cons, List.sum_cons]
    unfold Span.stop at this
    omega

/-- Disjoint ranges below a bound have at most that many bytes. -/
theorem sum_length_le {l : List ByteRange} {b : ℕ} (hpos : ∀ s ∈ l, 0 < s.length)
    (hd : l.Pairwise Span.Disjoint) (hb : ∀ s ∈ l, s.stop ≤ b) :
    (l.map fun s => s.length).sum ≤ b := by
  have hperm := sortByKey_perm (fun r : ByteRange => r.offset) l
  have hchain := (isChain_offset_iff hpos).2 hd
  have ho : Ordered (sortByKey (fun r : ByteRange => r.offset) l) :=
    List.isChain_iff_pairwise.1 hchain
  have := sum_length_le_of_ordered 0 (b := b) ho (fun _ _ => Nat.zero_le _)
    (fun s hs => hb s (hperm.mem_iff.1 hs)) (Nat.zero_le _)
  rw [← (hperm.map fun s => s.length).sum_eq]
  omega

theorem physicalBytes_eq (l : List Extent) :
    physicalBytes l = ((l.filterMap Extent.physical?).map fun s => s.length).sum := by
  induction l with
  | nil => rfl
  | cons e rest ih =>
    cases hp : e.placement with
    | physical off =>
      have h1 : e.physical? = some ⟨off, e.length⟩ := by simp [Extent.physical?, hp]
      rw [List.filterMap_cons_some h1]
      simp only [physicalBytes, List.filter_cons, hp, Placement.isPhysical, if_true, List.map_cons,
        List.sum_cons] at ih ⊢
      rw [ih]
    | sparse =>
      have h1 : e.physical? = none := by simp [Extent.physical?, hp]
      rw [List.filterMap_cons_none h1]
      simpa [physicalBytes, List.filter_cons, hp, Placement.isPhysical] using ih

theorem physicalBytes_lt {l : List Extent} (hpos : ∀ e ∈ l, 0 < e.length)
    (hlt : ∀ e ∈ l, ∀ r, e.physical? = some r → r.stop < wordBound)
    (hd : l.Pairwise PhysicallyDisjoint) : physicalBytes l < wordBound := by
  have hle : physicalBytes l ≤ wordBound - 1 := by
    rw [physicalBytes_eq]
    refine sum_length_le ?_ (pairwise_filterMap_physical.2 hd) ?_
    · intro r hr
      obtain ⟨e, he, hr⟩ := List.mem_filterMap.1 hr
      rw [physical_length hr]
      exact hpos e he
    · intro r hr
      obtain ⟨e, he, hr⟩ := List.mem_filterMap.1 hr
      have := hlt e he r hr
      omega
  have := wordBound_pos
  omega

/-- The extents of one stream in a built graph, if they are known in order. -/
theorem streamExtents_eq {extents l : List Extent} {graph : ExtentGraph} {stream : StreamId}
    (hext : graph.extents = sortByKey extentSortKey extents)
    (hl : extents.filter (fun e => e.stream = stream) = l)
    (hs : l.Pairwise fun a b => extentSortKey a ≤ extentSortKey b) :
    ObjectGraph.streamExtents graph stream = l := by
  have hperm : (ObjectGraph.streamExtents graph stream).Perm l := by
    rw [← hl]
    unfold ObjectGraph.streamExtents
    rw [hext]
    exact (sortByKey_perm _ _).filter _
  have hpos : ∀ e ∈ graph.extents, 0 < e.length := fun e he => (graph.valid e he).nonempty
  have hmem : ∀ e ∈ ObjectGraph.streamExtents graph stream, e ∈ graph.extents :=
    fun e he => List.mem_of_mem_filter he
  have hanti : ∀ a b, a ∈ ObjectGraph.streamExtents graph stream → b ∈ l →
      extentSortKey a ≤ extentSortKey b → extentSortKey b ≤ extentSortKey a → a = b :=
    fun a b ha hb => eq_of_sortKey hpos graph.logical (hmem a ha) (hmem b (hperm.mem_iff.2 hb))
  exact List.Perm.eq_of_pairwise hanti (graph.sorted.filter _) hs hperm

/-! ## Placed extents -/

theorem placeFrom_length_sum (stream : StreamId) (o : ℕ) (spans : List ByteRange) :
    ((placeFrom stream o spans).map Extent.length).sum = spanTotal spans := by
  induction spans generalizing o with
  | nil => rfl
  | cons s rest ih => simp [placeFrom, spanTotal, ih]

theorem length_placeFrom (stream : StreamId) (o : ℕ) (spans : List ByteRange) :
    (placeFrom stream o spans).length = spans.length := by
  induction spans generalizing o with
  | nil => rfl
  | cons s rest ih => simp [placeFrom, ih]

theorem placeFrom_physical (stream : StreamId) (o : ℕ) (spans : List ByteRange) :
    (placeFrom stream o spans).filterMap Extent.physical? = spans := by
  induction spans generalizing o with
  | nil => rfl
  | cons s rest ih =>
    have hs : Extent.physical? ⟨stream, o, s.length, .physical s.offset, .fileData⟩ = some s := rfl
    rw [placeFrom, List.filterMap_cons_some hs, ih]

/-- A placed extent lies behind the offset, within the bytes placed. -/
theorem mem_placeFrom {stream : StreamId} {o : ℕ} {spans : List ByteRange} {e : Extent}
    (he : e ∈ placeFrom stream o spans) :
    o ≤ e.logicalOffset ∧ e.logicalOffset + e.length ≤ o + spanTotal spans ∧ e.kind = .fileData ∧
      ∃ s ∈ spans, e.length = s.length ∧ e.physical? = some s := by
  induction spans generalizing o with
  | nil => simp [placeFrom] at he
  | cons s rest ih =>
    have hcons : spanTotal (s :: rest) = s.length + spanTotal rest := by simp [spanTotal]
    rcases List.mem_cons.1 he with rfl | he
    · exact ⟨le_rfl, by simp only [hcons]; omega, rfl, s, by simp, rfl, rfl⟩
    · obtain ⟨h1, h2, h3, t, ht, h4, h5⟩ := ih he
      exact ⟨by omega, by rw [hcons]; omega, h3, t, by simp [ht], h4, h5⟩

theorem placeFrom_ordered (stream : StreamId) (o : ℕ) (spans : List ByteRange) :
    (placeFrom stream o spans).Pairwise fun a b =>
      a.logicalOffset + a.length ≤ b.logicalOffset := by
  induction spans generalizing o with
  | nil => exact List.Pairwise.nil
  | cons s rest ih =>
    refine List.pairwise_cons.2 ⟨fun e he => ?_, ih _⟩
    exact (mem_placeFrom he).1

theorem walk_placeFrom (stream : StreamId) {o p : ℕ} {f : Bool} {l : List ByteRange}
    (ho : o + spanTotal l < wordBound) (hp : p + spanTotal l < wordBound) :
    ObjectGraph.walkStreamExtents stream (o, p, f) (placeFrom stream o l) =
      .ok (o + spanTotal l, p + spanTotal l, f || decide (l ≠ [])) := by
  induction l generalizing o p f with
  | nil => simp [placeFrom, ObjectGraph.walkStreamExtents, spanTotal]
  | cons s rest ih =>
    have hcons : spanTotal (s :: rest) = s.length + spanTotal rest := by simp [spanTotal]
    rw [hcons] at ho hp ⊢
    rw [placeFrom, ObjectGraph.walkStreamExtents, ensure_of rfl]
    simp only [ok_bind, checkedAdd_of_lt (show o + s.length < wordBound by omega), orErr_some,
      Placement.isPhysical, if_true, checkedAdd_of_lt (show p + s.length < wordBound by omega)]
    rw [ih (by omega) (by omega)]
    simp [Nat.add_assoc]

end Geometry

end StarConverter
