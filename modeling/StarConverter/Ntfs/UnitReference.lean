import StarConverter.Ntfs.CompressedStream

/-!
# Compressed streams place by place

What a compressed stream reads as depends only on where its bytes are stored: the text of a unit comes
from the stored places of the unit, in the order of the stream (`storedText`). The loop over the clipped
extents gives exactly these texts, whatever extents the places are cut into and whatever extents of
other streams stand between them.
-/

namespace StarConverter.Lznt1

open Base

/-! ## The places of a stream -/

/-- The file data of a stream. -/
def fileData (extents : List Extent) (stream : StreamId) : List Extent :=
  extents.filter fun e => e.stream = stream ∧ e.kind = .fileData

/-- The extents follow each other from `start` to `n`. -/
def Tiles : ℕ → List Extent → ℕ → Prop
  | start, [], n => start = n
  | start, e :: rest, n => e.logicalOffset = start ∧ Tiles (start + e.length) rest n

/-- The place in the image where a byte of the stream is stored; none in a sparse range. -/
def placeAt : List Extent → ℕ → Option ℕ
  | [], _ => none
  | e :: rest, i =>
    if e.logicalOffset ≤ i ∧ i < e.logicalOffset + e.length then
      match e.placement with
      | .physical byteOffset => some (byteOffset + (i - e.logicalOffset))
      | .sparse => none
    else placeAt rest i

/-- The stored places of `n` bytes of a stream. -/
def placesOf (place : ℕ → Option ℕ) (start n : ℕ) : List ℕ := (List.range' start n).filterMap place

/-- The text of a unit with these stored places: zeros without any, the stored bytes when nothing is
sparse, and what the decoder makes of them in a unit of zeros otherwise. -/
def storedText (image : Bytes) (block : ℕ) (places : List ℕ) : Option Bytes :=
  if places = [] then some (List.replicate block 0)
  else if places.length = block then some (places.map (image.getD · 0))
  else (decompressUnit (places.map (image.getD · 0)) (List.replicate block 0)).toOption.map Prod.fst

/-- The texts of the units of a stream. -/
def storedTexts (image : Bytes) (place : ℕ → Option ℕ) (block k : ℕ) : Option Bytes :=
  storedText image block (placesOf place (k * block) block)

/-- A reader of the image: it returns the bytes of a range in full exactly when each can be read. -/
structure Reads {ε : Type} (readPhysical : ℕ → ℕ → Except ε Bytes) (image : Bytes)
    (Readable : ℕ → Prop) : Prop where
  ok_iff : ∀ offset length bytes, 0 < length →
    ((readPhysical offset length = .ok bytes ∧ bytes.length = length) ↔
      (∀ i < length, Readable (offset + i)) ∧ bytes = sliceAt image offset length)
  inside : ∀ i, Readable i → i < image.length ∧ i < wordBound

theorem Tiles.le {start n : ℕ} {extents : List Extent} (h : Tiles start extents n) : start ≤ n := by
  induction extents generalizing start with
  | nil => exact Nat.le_of_eq h
  | cons e rest ih => exact (Nat.le_add_right _ _).trans (ih h.2)

theorem placesOf_add (place : ℕ → Option ℕ) (start m n : ℕ) :
    placesOf place start (m + n) = placesOf place start m ++ placesOf place (start + m) n := by
  rw [placesOf, placesOf, placesOf, ← List.filterMap_append, List.range'_append_1]

theorem length_placesOf_le (place : ℕ → Option ℕ) (start n : ℕ) : (placesOf place start n).length ≤ n :=
  (List.length_filterMap_le _ _).trans (List.length_range' ..).le

theorem placesOf_congr {place place' : ℕ → Option ℕ} {start n : ℕ}
    (h : ∀ i, start ≤ i → i < start + n → place i = place' i) :
    placesOf place start n = placesOf place' start n := by
  refine List.filterMap_congr fun i hi => ?_
  rw [List.mem_range'_1] at hi
  exact h i hi.1 hi.2

theorem placesOf_none {place : ℕ → Option ℕ} {start n : ℕ}
    (h : ∀ i, start ≤ i → i < start + n → place i = none) : placesOf place start n = [] := by
  rw [placesOf_congr h, placesOf, List.filterMap_eq_nil_iff]
  exact fun _ _ => rfl

theorem placesOf_range {place : ℕ → Option ℕ} {start n p : ℕ}
    (h : ∀ i, start ≤ i → i < start + n → place i = some (p + (i - start))) :
    placesOf place start n = List.range' p n := by
  rw [placesOf_congr h, placesOf, List.range'_eq_map_range, List.range'_eq_map_range,
    List.filterMap_map, ← List.filterMap_eq_map]
  refine List.filterMap_congr fun i _ => ?_
  rw [Function.comp_apply, Function.comp_apply, Nat.add_sub_cancel_left]

theorem map_range'_getD {image : Bytes} {p n : ℕ} (h : p + n ≤ image.length) :
    (List.range' p n).map (image.getD · 0) = sliceAt image p n := by
  refine List.ext_getElem? fun i => ?_
  rw [getElem?_sliceAt, List.getElem?_map]
  split_ifs with hi
  · rw [List.getElem?_range' hi, Option.map_some, Nat.one_mul, List.getD_eq_getElem?_getD,
      List.getElem?_eq_getElem (by omega), Option.getD_some]
  · rw [List.getElem?_eq_none (by rw [List.length_range']; omega), Option.map_none]

/-! ## What is collected of a unit -/

/-- A payload behind which these places were read, out of `n` bytes of the stream. -/
def CuPayload.extend (payload : CuPayload) (image : Bytes) (places : List ℕ) (n : ℕ) : CuPayload :=
  ⟨payload.physical ++ places.map (image.getD · 0), payload.physicalBytes + places.length,
    payload.sparseBytes + (n - places.length)⟩

theorem CuPayload.extend_extend (payload : CuPayload) (image : Bytes) {places more : List ℕ} {m n : ℕ}
    (hm : places.length ≤ m) (hn : more.length ≤ n) :
    (payload.extend image places m).extend image more n =
      payload.extend image (places ++ more) (m + n) := by
  unfold CuPayload.extend
  rw [List.map_append, List.length_append, List.append_assoc, Nat.add_assoc, Nat.add_assoc]
  congr 2
  omega

/-- An extent that does not reach into the window has no place there. -/
theorem placesOf_skip {e : Extent} {rest : List Extent} {lo hi n : ℕ} (hlt : lo < hi)
    (h : min (e.logicalOffset + e.length) hi ≤ max e.logicalOffset lo) :
    min n hi - max e.logicalOffset lo = min n hi - max (e.logicalOffset + e.length) lo ∧
      placesOf (placeAt (e :: rest)) (max e.logicalOffset lo) (min n hi - max e.logicalOffset lo) =
        placesOf (placeAt rest) (max (e.logicalOffset + e.length) lo)
          (min n hi - max (e.logicalOffset + e.length) lo) := by
  by_cases hbehind : hi ≤ e.logicalOffset
  · rw [show min n hi - max e.logicalOffset lo = 0 by omega,
      show min n hi - max (e.logicalOffset + e.length) lo = 0 by omega]
    exact ⟨rfl, rfl⟩
  · have hstart : max e.logicalOffset lo = max (e.logicalOffset + e.length) lo := by omega
    rw [hstart]
    refine ⟨rfl, placesOf_congr fun i hi' _ => ?_⟩
    rw [placeAt, if_neg (by omega)]

/-- The places of an extent in the window come before those of the extents behind it. -/
theorem placesOf_head {e : Extent} {rest : List Extent} {lo hi n : ℕ}
    (hlo : lo < e.logicalOffset + e.length) (hhi : max e.logicalOffset lo < hi)
    (hn : e.logicalOffset + e.length ≤ n) :
    min n hi - max e.logicalOffset lo =
        (min (e.logicalOffset + e.length) hi - max e.logicalOffset lo) +
          (min n hi - max (e.logicalOffset + e.length) lo) ∧
      placesOf (placeAt (e :: rest)) (max e.logicalOffset lo) (min n hi - max e.logicalOffset lo) =
        placesOf (placeAt (e :: rest)) (max e.logicalOffset lo)
            (min (e.logicalOffset + e.length) hi - max e.logicalOffset lo) ++
          placesOf (placeAt rest) (max (e.logicalOffset + e.length) lo)
            (min n hi - max (e.logicalOffset + e.length) lo) := by
  have hsum : min n hi - max e.logicalOffset lo =
      (min (e.logicalOffset + e.length) hi - max e.logicalOffset lo) +
        (min n hi - max (e.logicalOffset + e.length) lo) := by omega
  refine ⟨hsum, ?_⟩
  rw [hsum, placesOf_add]
  congr 1
  by_cases hmore : e.logicalOffset + e.length < hi
  · rw [show max e.logicalOffset lo + (min (e.logicalOffset + e.length) hi - max e.logicalOffset lo) =
      max (e.logicalOffset + e.length) lo by omega]
    refine placesOf_congr fun i hi' _ => ?_
    rw [placeAt, if_neg (by omega)]
  · rw [show min n hi - max (e.logicalOffset + e.length) lo = 0 by omega]
    rfl

theorem storedText_eq_cuText (image : Bytes) (block : ℕ) (places : List ℕ) :
    storedText image block places = cuText block (CuPayload.extend ⟨[], 0, 0⟩ image places block) := by
  rw [storedText, cuText, CuPayload.extend, List.nil_append, Nat.zero_add, Nat.zero_add]
  refine if_congr List.length_eq_zero_iff.symm rfl (if_congr ?_ rfl rfl)
  dsimp only
  omega

theorem length_extend (image : Bytes) (places : List ℕ) (block : ℕ) :
    (CuPayload.extend ⟨[], 0, 0⟩ image places block).physical.length =
      (CuPayload.extend ⟨[], 0, 0⟩ image places block).physicalBytes := by
  show ([] ++ List.map _ _).length = 0 + _
  rw [List.nil_append, List.length_map, Nat.zero_add]

section Collect

variable {ε : Type} {ofLznt1 : Lznt1Error → ε} {readPhysical : ℕ → ℕ → Except ε Bytes}
  {image : Bytes} {Readable : ℕ → Prop} (hreads : Reads readPhysical image Readable)

include hreads in
theorem addOverlap_places {payload out : CuPayload} {e : Extent} {rest : List Extent} {start n : ℕ}
    (hstart : e.logicalOffset ≤ start) (hn : 0 < n) (hstop : start + n ≤ e.logicalOffset + e.length)
    (hp : payload.physicalBytes + n < wordBound) (hs : payload.sparseBytes + n < wordBound) :
    addOverlap ofLznt1 readPhysical payload e.placement (start - e.logicalOffset) n = .ok out ↔
      (∀ p ∈ placesOf (placeAt (e :: rest)) start n, Readable p) ∧
        out = payload.extend image (placesOf (placeAt (e :: rest)) start n) n := by
  have hin (i : ℕ) (hi : start ≤ i) (hi' : i < start + n) :
      e.logicalOffset ≤ i ∧ i < e.logicalOffset + e.length := by omega
  cases hpl : e.placement with
  | sparse =>
    have hplaces : placesOf (placeAt (e :: rest)) start n = [] := placesOf_none fun i hi hi' => by
      rw [placeAt, if_pos (hin i hi hi'), hpl]
    rw [hplaces, addOverlap, checkedAdd_of_lt hs, orErr_some, ok_bind, pure_eq_ok, Except.ok.injEq,
      CuPayload.extend, List.map_nil, List.append_nil, List.length_nil, Nat.add_zero, Nat.sub_zero]
    exact ⟨fun h => ⟨List.forall_mem_nil _, h.symm⟩, fun h => h.2.symm⟩
  | physical byteOffset =>
    have hplaces : placesOf (placeAt (e :: rest)) start n =
        List.range' (byteOffset + (start - e.logicalOffset)) n := placesOf_range fun i hi hi' => by
      rw [placeAt, if_pos (hin i hi hi'), hpl]
      exact congrArg some (by omega)
    have hreadable : (∀ p ∈ List.range' (byteOffset + (start - e.logicalOffset)) n, Readable p) ↔
        ∀ i < n, Readable (byteOffset + (start - e.logicalOffset) + i) := by
      refine ⟨fun h i hi => h _ (List.mem_range'_1.2 (by omega)), fun h p hp => ?_⟩
      rw [List.mem_range'_1] at hp
      have := h (p - (byteOffset + (start - e.logicalOffset))) (by omega)
      rwa [Nat.add_sub_cancel' hp.1] at this
    rw [hplaces, hreadable, CuPayload.extend, List.length_range', Nat.sub_self, Nat.add_zero]
    have hok := hreads.ok_iff (byteOffset + (start - e.logicalOffset)) n
    have himage (h : ∀ i < n, Readable (byteOffset + (start - e.logicalOffset) + i)) :
        byteOffset + (start - e.logicalOffset) + n ≤ image.length ∧
          byteOffset + (start - e.logicalOffset) < wordBound := by
      have h0 := hreads.inside _ (h 0 hn)
      have h1 := hreads.inside _ (h (n - 1) (by omega))
      omega
    simp only [addOverlap, bind_ok_iff, orErr_ok_iff, checkedAdd_eq_some, exists_const, ensure_ok_iff,
      pure_eq_ok, Except.ok.injEq]
    constructor
    · rintro ⟨_, ⟨-, rfl⟩, bytes, hread, hlen, _, ⟨-, rfl⟩, rfl⟩
      obtain ⟨hall, rfl⟩ := (hok bytes hn).1 ⟨hread, hlen⟩
      rw [map_range'_getD (himage hall).1]
      exact ⟨hall, rfl⟩
    · rintro ⟨hall, rfl⟩
      obtain ⟨hread, hlen⟩ := (hok _ hn).2 ⟨hall, rfl⟩
      rw [map_range'_getD (himage hall).1]
      exact ⟨_, ⟨(himage hall).2, rfl⟩, _, hread, hlen, _, ⟨hp, rfl⟩, rfl⟩

include hreads in
theorem collectExtents_places {extents : List Extent} {stream : StreamId} {payload out : CuPayload}
    {start n lo hi : ℕ} (htiles : Tiles start extents n) (hn : n < wordBound) (hlt : lo < hi)
    (hfile : ∀ e ∈ extents, e.stream = stream ∧ e.kind = .fileData)
    (hp : payload.physicalBytes + (min n hi - max start lo) < wordBound)
    (hs : payload.sparseBytes + (min n hi - max start lo) < wordBound) :
    collectExtents ofLznt1 readPhysical lo hi payload (extents.filter (inWindow stream lo hi)) =
        .ok out ↔
      (∀ p ∈ placesOf (placeAt extents) (max start lo) (min n hi - max start lo), Readable p) ∧
        out = payload.extend image (placesOf (placeAt extents) (max start lo)
          (min n hi - max start lo)) (min n hi - max start lo) := by
  induction extents generalizing start payload with
  | nil =>
    obtain rfl : start = n := htiles
    rw [show min start hi - max start lo = 0 by omega, List.filter_nil, collectExtents, pure_eq_ok,
      Except.ok.injEq]
    show payload = out ↔ (∀ p ∈ [], Readable p) ∧ out = ⟨payload.physical ++ [], _, _⟩
    rw [List.append_nil]
    exact ⟨fun h => ⟨List.forall_mem_nil _, h.symm⟩, fun h => h.2.symm⟩
  | cons e rest ih =>
    obtain ⟨rfl, htiles⟩ := htiles
    obtain ⟨⟨hstream, hkind⟩, hfile⟩ := List.forall_mem_cons.1 hfile
    have hle := htiles.le
    have hadd : checkedAdd e.logicalOffset e.length = some (e.logicalOffset + e.length) :=
      checkedAdd_of_lt (by omega)
    have hwindow : inWindow stream lo hi e = true ↔
        e.logicalOffset < hi ∧ lo < e.logicalOffset + e.length := by
      simp [inWindow, hadd, hstream, hkind]
    by_cases hskip : min (e.logicalOffset + e.length) hi ≤ max e.logicalOffset lo
    · obtain ⟨hlen, hplaces⟩ := @placesOf_skip e rest lo hi n hlt hskip
      have hrest : collectExtents ofLznt1 readPhysical lo hi payload
          ((e :: rest).filter (inWindow stream lo hi)) =
          collectExtents ofLznt1 readPhysical lo hi payload (rest.filter (inWindow stream lo hi)) := by
        by_cases hin : inWindow stream lo hi e = true
        · rw [List.filter_cons_of_pos hin, collectExtents, hadd, orErr_some, ok_bind]
          exact if_pos hskip
        · rw [List.filter_cons_of_neg hin]
      rw [hrest, hplaces, hlen]
      exact ih htiles hfile (by omega) (by omega)
    · obtain ⟨hlen, hplaces⟩ := @placesOf_head e rest lo hi n (by omega) (by omega) hle
      have hin : inWindow stream lo hi e = true := hwindow.2 (by omega)
      rw [List.filter_cons_of_pos hin, collectExtents, hadd, orErr_some, ok_bind]
      dsimp only
      rw [if_neg hskip, hplaces, hlen, List.forall_mem_append, bind_ok_iff,
        ← CuPayload.extend_extend payload image (length_placesOf_le _ _ _) (length_placesOf_le _ _ _)]
      have hhead (mid : CuPayload) := @addOverlap_places ε ofLznt1 readPhysical image Readable hreads
        payload mid e rest (max e.logicalOffset lo)
        (min (e.logicalOffset + e.length) hi - max e.logicalOffset lo) (by omega) (by omega) (by omega)
        (by omega) (by omega)
      have hcount := length_placesOf_le (placeAt (e :: rest)) (max e.logicalOffset lo)
        (min (e.logicalOffset + e.length) hi - max e.logicalOffset lo)
      have htail := @ih (payload.extend image (placesOf (placeAt (e :: rest)) (max e.logicalOffset lo)
        (min (e.logicalOffset + e.length) hi - max e.logicalOffset lo)) _) _ htiles hfile
        (show payload.physicalBytes + _ + _ < wordBound by omega)
        (show payload.sparseBytes + (min (e.logicalOffset + e.length) hi - max e.logicalOffset lo - _) + _
          < wordBound by omega)
      constructor
      · rintro ⟨mid, hmid, hrest⟩
        obtain ⟨hall, rfl⟩ := (hhead mid).1 hmid
        obtain ⟨hall', rfl⟩ := htail.1 hrest
        exact ⟨⟨hall, hall'⟩, rfl⟩
      · rintro ⟨⟨hall, hall'⟩, rfl⟩
        exact ⟨_, (hhead _).2 ⟨hall, rfl⟩, htail.2 ⟨hall', rfl⟩⟩

include hreads in
/-- A unit in a tiling contributes the text of its stored places. -/
theorem tiles_collects {extents : List Extent} {stream : StreamId} {n block k : ℕ}
    (htiles : Tiles 0 (fileData extents stream) n) (hn : n < wordBound) (hblock : 0 < block)
    (hk : k * block + block ≤ n) :
    Collects ofLznt1 readPhysical extents stream block
      (fun k => ∀ p ∈ placesOf (placeAt (fileData extents stream)) (k * block) block, Readable p)
      (storedTexts image (placeAt (fileData extents stream)) block) k
      (CuPayload.extend ⟨[], 0, 0⟩ image
        (placesOf (placeAt (fileData extents stream)) (k * block) block) block) where
  ok_iff out := by
    have hfilter : extents.filter (inWindow stream (k * block) (k * block + block)) =
        (fileData extents stream).filter (inWindow stream (k * block) (k * block + block)) := by
      rw [fileData, List.filter_filter]
      refine List.filter_congr fun e _ => ?_
      unfold inWindow
      by_cases h : e.stream = stream ∧ e.kind = .fileData
      · simp [h]
      · simp only [not_and] at h
        by_cases hs : e.stream = stream
        · simp [h hs]
        · simp [hs]
    have hfile : ∀ e ∈ fileData extents stream, e.stream = stream ∧ e.kind = .fileData :=
      fun e he => of_decide_eq_true (List.mem_filter.1 he).2
    have hlo : max 0 (k * block) = k * block := Nat.zero_max _
    have hlen : min n (k * block + block) - k * block = block := by omega
    have h := @collectExtents_places ε ofLznt1 readPhysical image Readable hreads
      (fileData extents stream) stream ⟨[], 0, 0⟩ out 0 n (k * block) (k * block + block) htiles hn
      (by omega) hfile (show 0 + _ < wordBound by omega) (show 0 + _ < wordBound by omega)
    rw [hlo, hlen] at h
    rw [collectCuPayload, hfilter]
    exact h
  length_eq _ := length_extend _ _ _
  text_eq := storedText_eq_cuText image _ _

include hreads in
theorem materialize_places_iff {extents : List Extent} {stream : StreamId}
    {n block initializedBytes destLen : ℕ} {out : Bytes}
    (htiles : Tiles 0 (fileData extents stream) n) (hn : n < wordBound) (hdvd : block ∣ n)
    (hcover : min initializedBytes destLen ≤ n) :
    materializeNtfsCompressedStream ofLznt1 readPhysical extents stream block initializedBytes destLen =
        .ok out ↔
      (block ≠ 0 ∧ block ≤ maxCompressionBlock) ∧
        (∀ k, 0 ≤ k → k * block < min initializedBytes destLen → k * block + block < wordBound ∧
          (∀ p ∈ placesOf (placeAt (fileData extents stream)) (k * block) block, Readable p) ∧
            (storedTexts image (placeAt (fileData extents stream)) block k).isSome = true) ∧
        out = rebuiltFrom (storedTexts image (placeAt (fileData extents stream)) block) block destLen
          (min initializedBytes destLen) := by
  have hstart : List.replicate destLen (0 : UInt8) =
      rebuiltFrom (storedTexts image (placeAt (fileData extents stream)) block) block destLen
        (min (0 * block) (min initializedBytes destLen)) := by
    rw [Nat.zero_mul, Nat.zero_min, rebuiltFrom]
    simp only [Nat.not_lt_zero, if_false, List.map_const', List.length_range]
  simp only [materializeNtfsCompressedStream, bind_ok_iff, ensure_ok_iff, exists_const, and_assoc]
  refine and_congr_right fun hne => and_congr_right fun _ => ?_
  have hblock : 0 < block := Nat.pos_of_ne_zero hne
  have hunit (k : ℕ) (hk : k * block < min initializedBytes destLen) : k * block + block ≤ n := by
    obtain ⟨m, rfl⟩ := hdvd
    have hkm : k < m := by
      rw [Nat.mul_comm] at hk
      exact Nat.lt_of_mul_lt_mul_left (hk.trans_le hcover)
    rw [← Nat.succ_mul, Nat.mul_comm]
    exact Nat.mul_le_mul_left block hkm
  have hrun : materializeUnits ofLznt1 readPhysical extents stream block (min initializedBytes destLen)
      (min initializedBytes destLen) (0 * block) (rebuiltFrom _ block destLen
        (min (0 * block) (min initializedBytes destLen))) = .ok out ↔ _ :=
    materializeUnits_run _ hblock (fun j hj => tiles_collects hreads htiles hn hblock (hunit j hj))
      (Nat.min_le_right _ _) (by omega)
  rw [← hstart, Nat.zero_mul] at hrun
  exact hrun

end Collect

/-! ## The stream -/

/-- Rounds beyond the end of the stream change nothing: the loop is through before. -/
theorem materializeUnits_rounds {ε : Type} {ofLznt1 : Lznt1Error → ε}
    {readPhysical : ℕ → ℕ → Except ε Bytes} {extents : List Extent} {stream : StreamId}
    {block logicalEnd rounds rounds' cuStart : ℕ} {destination : Bytes} (hblock : 0 < block)
    (h : logicalEnd ≤ cuStart + rounds) (h' : logicalEnd ≤ cuStart + rounds') :
    materializeUnits ofLznt1 readPhysical extents stream block logicalEnd rounds cuStart destination =
      materializeUnits ofLznt1 readPhysical extents stream block logicalEnd rounds' cuStart
        destination := by
  have hdone (rounds cuStart : ℕ) (destination : Bytes) (h : logicalEnd ≤ cuStart) :
      materializeUnits ofLznt1 readPhysical extents stream block logicalEnd rounds cuStart
        destination = pure destination := by
    cases rounds with
    | zero => rfl
    | succ rounds => rw [materializeUnits, if_pos h]
  induction rounds generalizing rounds' cuStart destination with
  | zero => rw [hdone _ _ _ (by omega), hdone _ _ _ (by omega)]
  | succ rounds ih =>
    cases rounds' with
    | zero => rw [hdone _ _ _ (by omega), hdone _ _ _ (by omega)]
    | succ rounds' =>
      rw [materializeUnits, materializeUnits]
      by_cases hle : logicalEnd ≤ cuStart
      · rw [if_pos hle, if_pos hle]
      rw [if_neg hle, if_neg hle]
      cases hadd : checkedAdd cuStart block with
      | none => rfl
      | some windowEnd =>
        obtain ⟨-, rfl⟩ := checkedAdd_eq_some.1 hadd
        have hnext (destination : Bytes) :=
          @ih rounds' (cuStart + block) destination (by omega) (by omega)
        rw [orErr_some, ok_bind, ok_bind]
        simp only [hnext]

theorem placeAt_of_ge {start n i : ℕ} {extents : List Extent} (h : Tiles start extents n)
    (hi : n ≤ i) : placeAt extents i = none := by
  induction extents generalizing start with
  | nil => rfl
  | cons e rest ih =>
    obtain ⟨rfl, h⟩ := h
    have hle := h.le
    rw [placeAt, if_neg (by omega), ih h]

/-- A reader that returns what is inside the image. -/
theorem reads_image (image : Bytes) (h : image.length ≤ wordBound) :
    Reads (fun offset length => if offset + length ≤ image.length
      then .ok (sliceAt image offset length) else .error ()) image (· < image.length) where
  ok_iff offset length bytes hpos := by
    split_ifs with hin
    · rw [Except.ok.injEq]
      constructor
      · rintro ⟨rfl, -⟩
        exact ⟨fun i hi => by omega, rfl⟩
      · rintro ⟨-, rfl⟩
        exact ⟨rfl, length_sliceAt_of_le hin⟩
    · refine ⟨nofun, fun hall => absurd (hall.1 (length - 1) (by omega)) (by omega)⟩
  inside i hi := ⟨hi, by omega⟩

end StarConverter.Lznt1
