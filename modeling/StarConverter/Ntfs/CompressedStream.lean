import StarConverter.Extent
import StarConverter.Ntfs.Lznt1
import Mathlib.Data.List.GetD

/-!
# Compressed streams

A compressed stream is stored in units of a fixed number of bytes: a unit without clusters reads as
zeros, a unit with all its clusters as they are, any other through the decoder. The extents of the
stream do not respect the units, so the code cuts them at the ends of each unit. `windowText` is the
text of a unit read off its clipped extents, and rebuilding a stream gives the texts of its units one
behind the other, with zeros from the initialized size on (`materializeNtfsCompressedStream_ok_iff`).
-/

namespace StarConverter

open Base

namespace Lznt1

/-! ## Rebuilding a stream -/

/-- What was collected of a unit: the bytes read, and the sizes of its physical and sparse parts. -/
structure CuPayload where
  physical : Bytes
  physicalBytes : ℕ
  sparseBytes : ℕ
  deriving DecidableEq

section Code

variable {ε : Type} (ofLznt1 : Lznt1Error → ε) (readPhysical : ℕ → ℕ → Except ε Bytes)

/-- `CompressionBlockTooLarge` beyond this size. -/
def maxCompressionBlock : ℕ := 16 * 1024 * 1024

/-- The part of an extent inside a unit. -/
def addOverlap (payload : CuPayload) (placement : Placement) (skip overlap : ℕ) :
    Except ε CuPayload :=
  match placement with
  | .sparse => do
    let sparseBytes ← orErr (checkedAdd payload.sparseBytes overlap) (ofLznt1 .arithmeticOverflow)
    pure { payload with sparseBytes := sparseBytes }
  | .physical byteOffset => do
    let readAt ← orErr (checkedAdd byteOffset skip) (ofLznt1 .arithmeticOverflow)
    let bytes ← readPhysical readAt overlap
    ensure (bytes.length = overlap) (ofLznt1 .truncatedChunk)
    let physicalBytes ← orErr (checkedAdd payload.physicalBytes overlap)
      (ofLznt1 .arithmeticOverflow)
    pure ⟨payload.physical ++ bytes, physicalBytes, payload.sparseBytes⟩

def collectExtents (cuStart windowEnd : ℕ) : CuPayload → List Extent → Except ε CuPayload
  | payload, [] => pure payload
  | payload, extent :: rest => do
    let overlapStart := max extent.logicalOffset cuStart
    let stop ← orErr (checkedAdd extent.logicalOffset extent.length) (ofLznt1 .arithmeticOverflow)
    let overlapEnd := min stop windowEnd
    if overlapEnd ≤ overlapStart then collectExtents cuStart windowEnd payload rest
    else do
      let payload ← addOverlap ofLznt1 readPhysical payload extent.placement
        (overlapStart - extent.logicalOffset) (overlapEnd - overlapStart)
      collectExtents cuStart windowEnd payload rest

/-- The file data of the stream that reaches into the unit. -/
def inWindow (stream : StreamId) (cuStart windowEnd : ℕ) (extent : Extent) : Bool :=
  decide (extent.stream = stream ∧ extent.kind = .fileData ∧ extent.logicalOffset < windowEnd) &&
    (checkedAdd extent.logicalOffset extent.length).any fun stop => decide (cuStart < stop)

def collectCuPayload (extents : List Extent) (stream : StreamId) (cuStart windowEnd : ℕ) :
    Except ε CuPayload :=
  collectExtents ofLznt1 readPhysical cuStart windowEnd ⟨[], 0, 0⟩
    (extents.filter (inWindow stream cuStart windowEnd))

/-- `while cu_start < logical_end`; a unit has at least one byte, so `logicalEnd` rounds are enough. -/
def materializeUnits (extents : List Extent) (stream : StreamId) (block logicalEnd : ℕ) :
    ℕ → ℕ → Bytes → Except ε Bytes
  | 0, _, destination => pure destination
  | rounds + 1, cuStart, destination =>
    if logicalEnd ≤ cuStart then pure destination
    else do
      let windowEnd ← orErr (checkedAdd cuStart block) (ofLznt1 .arithmeticOverflow)
      let payload ← collectCuPayload ofLznt1 readPhysical extents stream cuStart windowEnd
      if destination.length ≤ cuStart then pure destination
      else
        let copy := min (logicalEnd - cuStart) (destination.length - cuStart)
        if payload.physicalBytes = 0 then
          materializeUnits extents stream block logicalEnd rounds windowEnd destination
        else if payload.sparseBytes = 0 ∧ payload.physicalBytes = windowEnd - cuStart then
          let take := min copy payload.physical.length
          materializeUnits extents stream block logicalEnd rounds windowEnd
            (overwrite destination cuStart (payload.physical.take take))
        else do
          let unit ← (decompressUnit payload.physical (List.replicate block 0)).mapError ofLznt1
          let take := min copy unit.1.length
          materializeUnits extents stream block logicalEnd rounds windowEnd
            (overwrite destination cuStart (unit.1.take take))

/-- Rebuilds the plaintext of a compressed stream from its extents. -/
def materializeNtfsCompressedStream (extents : List Extent) (stream : StreamId)
    (compressionBlockBytes initializedBytes destLen : ℕ) : Except ε Bytes := do
  ensure (compressionBlockBytes ≠ 0) (ofLznt1 .compressionBlockTooLarge)
  ensure (compressionBlockBytes ≤ maxCompressionBlock) (ofLznt1 .compressionBlockTooLarge)
  let logicalEnd := min initializedBytes destLen
  materializeUnits ofLznt1 readPhysical extents stream compressionBlockBytes logicalEnd logicalEnd 0
    (List.replicate destLen 0)

end Code

/-! ## The text of a unit -/

/-- The part of an extent between two logical offsets. -/
def clip (lo hi : ℕ) (e : Extent) : Extent where
  stream := e.stream
  logicalOffset := max e.logicalOffset lo
  length := min (e.logicalOffset + e.length) hi - max e.logicalOffset lo
  placement := match e.placement with
    | .physical byteOffset => .physical (byteOffset + (max e.logicalOffset lo - e.logicalOffset))
    | .sparse => .sparse
  kind := e.kind

/-- The file data of a stream between two logical offsets. -/
def windowExtents (extents : List Extent) (stream : StreamId) (lo hi : ℕ) : List Extent :=
  (extents.filter fun e => e.stream = stream ∧ e.kind = .fileData ∧ e.logicalOffset < hi ∧
    lo < e.logicalOffset + e.length).map (clip lo hi)

/-- The bytes of the physical extents, one behind the other. -/
def pieceBytes (image : Bytes) (extents : List Extent) : Bytes :=
  extents.flatMap fun e => match e.physical? with
    | some r => sliceAt image r.offset r.length
    | none => []

/-- The text of a unit that is stored in these extents; none where the decoder refuses it. -/
def windowText (image : Bytes) (block : ℕ) (extents : List Extent) : Option Bytes :=
  if physicalBytes extents = 0 then some (List.replicate block 0)
  else if sparseBytes extents = 0 ∧ physicalBytes extents = block then
    some (pieceBytes image extents)
  else (decompressUnit (pieceBytes image extents) (List.replicate block 0)).toOption.map Prod.fst

/-- The text of a unit of which this was collected; none where the decoder refuses it. -/
def cuText (block : ℕ) (payload : CuPayload) : Option Bytes :=
  if payload.physicalBytes = 0 then some (List.replicate block 0)
  else if payload.sparseBytes = 0 ∧ payload.physicalBytes = block then some payload.physical
  else (decompressUnit payload.physical (List.replicate block 0)).toOption.map Prod.fst

/-- The text of the unit with the given number. -/
def unitTextAt (image : Bytes) (extents : List Extent) (stream : StreamId) (block k : ℕ) :
    Option Bytes :=
  windowText image block (windowExtents extents stream (k * block) (k * block + block))

/-- The byte at a place of a compressed stream, as far as its unit has a text. -/
def unitByte (image : Bytes) (extents : List Extent) (stream : StreamId) (block i : ℕ) : UInt8 :=
  ((unitTextAt image extents stream block (i / block)).getD []).getD (i % block) 0

/-! ## The decoder keeps the size of its buffer -/

theorem takeItem_length {chunk : Bytes} {chunkStart bit : ℕ} {flags : UInt8} {s s' : ChunkState}
    (h : takeItem chunk chunkStart flags bit s = .ok s') : s'.dst.length = s.dst.length := by
  unfold takeItem at h
  split_ifs at h
  · simp only [takeBackReference, bind_ok_iff, exists_const, ensure_ok_iff, pure_eq_ok,
      Except.ok.injEq] at h
    obtain ⟨_, -, -, -, -, rfl⟩ := h
    exact length_copyFrom _ _ _ _
  · obtain rfl := Except.ok.inj h
    exact List.length_set

theorem decodeBits_length {chunk : Bytes} {chunkStart : ℕ} {flags : UInt8} {bits : List ℕ}
    {s s' : ChunkState} (h : decodeBits chunk chunkStart flags bits s = .ok s') :
    s'.dst.length = s.dst.length := by
  induction bits generalizing s with
  | nil =>
    obtain rfl := Except.ok.inj h
    rfl
  | cons bit bits ih =>
    rw [decodeBits] at h
    split_ifs at h
    · obtain rfl := Except.ok.inj h
      rfl
    · rw [bind_ok_iff] at h
      obtain ⟨mid, hmid, h⟩ := h
      rw [ih h, takeItem_length hmid]

theorem decodeGroups_length {chunk : Bytes} {chunkStart n : ℕ} {s s' : ChunkState}
    (h : decodeGroups chunk chunkStart n s = .ok s') : s'.dst.length = s.dst.length := by
  induction n generalizing s with
  | zero =>
    obtain rfl := Except.ok.inj h
    rfl
  | succ n ih =>
    rw [decodeGroups] at h
    split_ifs at h
    · rw [bind_ok_iff] at h
      obtain ⟨mid, hmid, h⟩ := h
      rw [ih h, decodeBits_length hmid]
    · obtain rfl := Except.ok.inj h
      rfl

theorem decompressChunks_length {src dst : Bytes} {n srcCursor dstCursor : ℕ} {out : Bytes × ℕ}
    (h : decompressChunks src n srcCursor dst dstCursor = .ok out) : out.1.length = dst.length := by
  induction n generalizing srcCursor dst dstCursor with
  | zero =>
    obtain rfl := Except.ok.inj h
    rfl
  | succ n ih =>
    rw [decompressChunks] at h
    dsimp only at h
    split_ifs at h
    · obtain rfl := Except.ok.inj h
      rfl
    · simp only [bind_ok_iff, exists_const, ensure_ok_iff] at h
      obtain ⟨_, -, -, s, hs, h⟩ := h
      rw [ih h]
      unfold decodeChunk at hs
      split_ifs at hs
      · exact decodeGroups_length hs
      · obtain rfl := Except.ok.inj hs
        exact length_overwrite _ _ _
    · obtain rfl := Except.ok.inj h
      rfl

theorem toOption_eq_some {ε α : Type} {x : Except ε α} {a : α} : x.toOption = some a ↔ x = .ok a := by
  cases x <;> simp [Except.toOption]

theorem cuText_length {text : Bytes} {block : ℕ} {payload : CuPayload}
    (hphysical : payload.physical.length = payload.physicalBytes)
    (h : cuText block payload = some text) : text.length = block := by
  unfold cuText at h
  split_ifs at h with h0 hfull
  · obtain rfl := Option.some.inj h
    exact List.length_replicate
  · obtain rfl := Option.some.inj h
    rw [hphysical, hfull.2]
  · rw [Option.map_eq_some_iff] at h
    obtain ⟨out, hout, rfl⟩ := h
    rw [decompressChunks_length (toOption_eq_some.1 hout), List.length_replicate]

/-! ## The loop over the units -/

section Run

variable {ε : Type} {ofLznt1 : Lznt1Error → ε} {readPhysical : ℕ → ℕ → Except ε Bytes}

/-- A stream of `destLen` bytes whose first `n` bytes are those of the texts. -/
def rebuiltFrom (texts : ℕ → Option Bytes) (block destLen n : ℕ) : Bytes :=
  (List.range destLen).map fun i =>
    if i < n then ((texts (i / block)).getD []).getD (i % block) 0 else 0

variable {texts : ℕ → Option Bytes} {block destLen n k logicalEnd : ℕ}

@[simp] theorem length_rebuiltFrom (texts : ℕ → Option Bytes) (block destLen n : ℕ) :
    (rebuiltFrom texts block destLen n).length = destLen := by
  rw [rebuiltFrom, List.length_map, List.length_range]

theorem getElem?_rebuiltFrom (texts : ℕ → Option Bytes) {i : ℕ} (hi : i < destLen) :
    (rebuiltFrom texts block destLen n)[i]? =
      some (if i < n then ((texts (i / block)).getD []).getD (i % block) 0 else 0) := by
  rw [rebuiltFrom, List.getElem?_map, List.getElem?_range hi, Option.map_some]

/-- Writing the text of a unit behind what is rebuilt. -/
theorem overwrite_rebuiltFrom {copy : ℕ} {text : Bytes} (htext : texts k = some text)
    (hlen : text.length = block) (hcopy : copy = min (logicalEnd - k * block) (destLen - k * block))
    (hend : logicalEnd ≤ destLen) (hk : k * block < logicalEnd) :
    overwrite (rebuiltFrom texts block destLen (k * block)) (k * block)
        (text.take (min copy text.length)) =
      rebuiltFrom texts block destLen (min (k * block + block) logicalEnd) := by
  have htake : (text.take (min copy text.length)).length = min (logicalEnd - k * block) block := by
    rw [List.length_take]
    omega
  refine List.ext_getElem? fun i => ?_
  by_cases hi : i < destLen
  swap
  · rw [List.getElem?_eq_none (by rw [length_overwrite, length_rebuiltFrom]; omega),
      List.getElem?_eq_none (by rw [length_rebuiltFrom]; omega)]
  rw [getElem?_rebuiltFrom _ hi]
  by_cases hin : k * block ≤ i ∧ i < k * block + (text.take (min copy text.length)).length
  · rw [getElem?_overwrite_of_mem hin.1 hin.2 (by rw [length_rebuiltFrom]; omega)]
    rw [htake] at hin
    have hdiv : i / block = k := Nat.div_eq_of_lt_le (by omega) (by rw [Nat.succ_mul]; omega)
    have hmod : i % block = i - k * block := by
      have := Nat.div_add_mod i block
      rw [hdiv, Nat.mul_comm] at this
      omega
    have hget : i - k * block < text.length := by omega
    rw [if_pos (by omega), hdiv, htext, hmod, Option.getD_some,
      List.getElem?_take_of_lt (by omega), List.getElem?_eq_getElem hget,
      List.getD_eq_getElem?_getD, List.getElem?_eq_getElem hget, Option.getD_some]
  · rw [getElem?_overwrite_of_not_mem hin, getElem?_rebuiltFrom _ hi]
    rw [htake] at hin
    refine congrArg some ?_
    split_ifs <;> first | rfl | omega

/-- A unit of zeros leaves a stream that starts with zeros as it is. -/
theorem rebuiltFrom_skip (htext : texts k = some (List.replicate block 0)) (hn : k * block ≤ n) :
    rebuiltFrom texts block destLen (k * block) =
      rebuiltFrom texts block destLen (min (k * block + block) n) := by
  refine List.map_congr_left fun i hi => ?_
  by_cases hin : k * block ≤ i ∧ i < k * block + block
  · have hdiv : i / block = k := Nat.div_eq_of_lt_le hin.1 (by rw [Nat.succ_mul]; exact hin.2)
    have hzero : ((texts (i / block)).getD []).getD (i % block) 0 = 0 := by
      rw [hdiv, htext, Option.getD_some, List.getD_eq_getElem?_getD, List.getElem?_replicate]
      split_ifs <;> rfl
    rw [hzero, ite_self, ite_self]
  · split_ifs <;> first | rfl | omega

/-- What a unit contributes: under its condition its payload is collected, and has the text. -/
structure Collects (ofLznt1 : Lznt1Error → ε) (readPhysical : ℕ → ℕ → Except ε Bytes)
    (extents : List Extent) (stream : StreamId) (block : ℕ) (Fits : ℕ → Prop)
    (texts : ℕ → Option Bytes) (k : ℕ) (payload : CuPayload) : Prop where
  ok_iff : ∀ out, collectCuPayload ofLznt1 readPhysical extents stream (k * block)
    (k * block + block) = .ok out ↔ Fits k ∧ out = payload
  length_eq : Fits k → payload.physical.length = payload.physicalBytes
  text_eq : texts k = cuText block payload

/-- One round: the next unit can be read and has a text, and the rounds behind it go on. -/
theorem materializeUnits_round {extents : List Extent} {stream : StreamId} {Fits : ℕ → Prop}
    {payload : CuPayload} {out : Bytes} {rounds : ℕ}
    (hunit : Collects ofLznt1 readPhysical extents stream block Fits texts k payload)
    (hend : logicalEnd ≤ destLen) (hk : k * block < logicalEnd) :
    materializeUnits ofLznt1 readPhysical extents stream block logicalEnd (rounds + 1)
        (k * block) (rebuiltFrom texts block destLen (k * block)) = .ok out ↔
      (k * block + block < wordBound ∧ Fits k ∧ (texts k).isSome = true) ∧
        materializeUnits ofLznt1 readPhysical extents stream block logicalEnd rounds
          (k * block + block) (rebuiltFrom texts block destLen
            (min (k * block + block) logicalEnd)) = .ok out := by
  have hdest : ¬ (rebuiltFrom texts block destLen (k * block)).length ≤ k * block := by
    rw [length_rebuiltFrom]
    omega
  have hwindow : k * block + block - k * block = block := by omega
  have htext := hunit.text_eq
  rw [materializeUnits, if_neg (by omega)]
  simp only [bind_ok_iff, orErr_ok_iff, checkedAdd_eq_some]
  constructor
  · rintro ⟨_, ⟨hlt, rfl⟩, collected, hcollected, h⟩
    obtain ⟨hfit, rfl⟩ := (hunit.ok_iff collected).1 hcollected
    rw [if_neg hdest, hwindow, length_rebuiltFrom] at h
    have hlen := hunit.length_eq hfit
    unfold cuText at htext
    split_ifs at h htext with h0 hfull
    · refine ⟨⟨hlt, hfit, by rw [htext]; rfl⟩, ?_⟩
      rwa [rebuiltFrom_skip htext hk.le] at h
    · refine ⟨⟨hlt, hfit, by rw [htext]; rfl⟩, ?_⟩
      rwa [overwrite_rebuiltFrom htext (by omega) rfl hend hk] at h
    · rw [bind_ok_iff] at h
      obtain ⟨unit, hunit, h⟩ := h
      rw [mapError_ok_iff] at hunit
      rw [hunit] at htext
      have htext' : texts k = some unit.1 := htext
      refine ⟨⟨hlt, hfit, by rw [htext']; rfl⟩, ?_⟩
      have hsize : unit.1.length = block := by
        rw [decompressChunks_length hunit, List.length_replicate]
      rwa [overwrite_rebuiltFrom htext' hsize rfl hend hk] at h
  · rintro ⟨⟨hlt, hfit, hsome⟩, h⟩
    obtain ⟨text, hwhole⟩ := Option.isSome_iff_exists.1 hsome
    refine ⟨_, ⟨hlt, rfl⟩, _, (hunit.ok_iff _).2 ⟨hfit, rfl⟩, ?_⟩
    have hlen := hunit.length_eq hfit
    rw [if_neg hdest, hwindow, length_rebuiltFrom]
    have hsize : text.length = block := cuText_length hlen (htext ▸ hwhole)
    have htext' := htext
    unfold cuText at htext'
    split_ifs at htext' ⊢ with h0 hfull
    · rwa [rebuiltFrom_skip htext' hk.le]
    · rwa [overwrite_rebuiltFrom htext' (by omega) rfl hend hk]
    · have hmap := htext'.symm.trans hwhole
      rw [Option.map_eq_some_iff] at hmap
      obtain ⟨unit, hunit, rfl⟩ := hmap
      rw [toOption_eq_some] at hunit
      rw [bind_ok_iff]
      refine ⟨unit, mapError_ok_iff.2 hunit, ?_⟩
      rwa [overwrite_rebuiltFrom hwhole hsize rfl hend hk]

/-- The loop gives the texts of the units one behind the other; it is through when the rounds reach to
the end. -/
theorem materializeUnits_run {extents : List Extent} {stream : StreamId} {Fits : ℕ → Prop}
    {out : Bytes} {rounds : ℕ} (payloads : ℕ → CuPayload) (hblock : 0 < block)
    (hunit : ∀ j, j * block < logicalEnd →
      Collects ofLznt1 readPhysical extents stream block Fits texts j (payloads j))
    (hend : logicalEnd ≤ destLen) (hrounds : logicalEnd ≤ k * block + rounds) :
    materializeUnits ofLznt1 readPhysical extents stream block logicalEnd rounds (k * block)
        (rebuiltFrom texts block destLen (min (k * block) logicalEnd)) = .ok out ↔
      (∀ j, k ≤ j → j * block < logicalEnd →
        j * block + block < wordBound ∧ Fits j ∧ (texts j).isSome = true) ∧
        out = rebuiltFrom texts block destLen logicalEnd := by
  have hdone {k : ℕ} (hle : logicalEnd ≤ k * block) :
      (.ok (rebuiltFrom texts block destLen logicalEnd) : Except ε Bytes) = .ok out ↔
        (∀ j, k ≤ j → j * block < logicalEnd →
          j * block + block < wordBound ∧ Fits j ∧ (texts j).isSome = true) ∧
        out = rebuiltFrom texts block destLen logicalEnd := by
    rw [Except.ok.injEq, eq_comm]
    exact ⟨fun h => ⟨fun j hj hlt => absurd (Nat.mul_le_mul_right block hj) (by omega), h⟩, And.right⟩
  induction rounds generalizing k with
  | zero =>
    have hle : logicalEnd ≤ k * block := by omega
    rw [materializeUnits, pure_eq_ok, Nat.min_eq_right hle]
    exact hdone hle
  | succ rounds ih =>
    by_cases hk : k * block < logicalEnd
    · have hnext := @ih (k + 1) (by rw [Nat.succ_mul]; omega)
      rw [Nat.succ_mul] at hnext
      rw [Nat.min_eq_left hk.le, materializeUnits_round (hunit k hk) hend hk]
      refine (and_congr_right fun _ => hnext).trans ?_
      rw [← and_assoc]
      refine and_congr_left fun _ => ⟨?_, fun h => ⟨h k le_rfl hk, fun j hj => h j (by omega)⟩⟩
      rintro ⟨hfirst, hrest⟩ j hj hlt
      rcases hj.eq_or_lt with rfl | hj
      · exact hfirst
      · exact hrest j hj hlt
    · have hle : logicalEnd ≤ k * block := by omega
      rw [materializeUnits, if_pos hle, pure_eq_ok, Nat.min_eq_right hle]
      exact hdone hle

end Run

/-! ## What is collected of a unit -/

theorem physical?_clip {lo hi byteOffset : ℕ} {e : Extent} (h : e.placement = .physical byteOffset) :
    (clip lo hi e).physical? = some ⟨byteOffset + (max e.logicalOffset lo - e.logicalOffset),
      min (e.logicalOffset + e.length) hi - max e.logicalOffset lo⟩ := by
  simp only [Extent.physical?, clip, h]

theorem physical?_clip_sparse {lo hi : ℕ} {e : Extent} (h : e.placement = .sparse) :
    (clip lo hi e).physical? = none := by
  simp only [Extent.physical?, clip, h]

theorem isPhysical_clip (lo hi : ℕ) (e : Extent) :
    (clip lo hi e).placement.isPhysical = e.placement.isPhysical := by
  cases h : e.placement <;> simp only [clip, h, Placement.isPhysical]

theorem length_clip_le (lo hi : ℕ) (e : Extent) : (clip lo hi e).length ≤ e.length := by
  simp only [clip]
  omega

theorem physicalBytes_clip_le (q : Extent → Bool) (lo hi : ℕ) (l : List Extent) :
    physicalBytes ((l.filter q).map (clip lo hi)) ≤ physicalBytes l := by
  induction l with
  | nil => exact le_rfl
  | cons e rest ih =>
    have hlen := length_clip_le lo hi e
    have hkind := isPhysical_clip lo hi e
    unfold physicalBytes at ih ⊢
    by_cases hq : q e = true <;> by_cases hp : e.placement.isPhysical = true <;>
      simp only [List.filter_cons, hq, hp, hkind, if_true, Bool.false_eq_true, if_false, List.map_cons,
        List.sum_cons] <;> omega

theorem sparseBytes_clip_le (q : Extent → Bool) (lo hi : ℕ) (l : List Extent) :
    sparseBytes ((l.filter q).map (clip lo hi)) ≤ sparseBytes l := by
  induction l with
  | nil => exact le_rfl
  | cons e rest ih =>
    have hlen := length_clip_le lo hi e
    have hkind := isPhysical_clip lo hi e
    unfold sparseBytes at ih ⊢
    by_cases hq : q e = true <;> by_cases hp : e.placement.isPhysical = true <;>
      simp only [List.filter_cons, hq, hp, hkind, if_true, Bool.false_eq_true, if_false, List.map_cons,
        List.sum_cons, Bool.not_true, Bool.not_false] <;> omega

theorem physicalBytes_one (e : Extent) :
    physicalBytes [e] = if e.placement.isPhysical = true then e.length else 0 := by
  unfold physicalBytes
  by_cases hp : e.placement.isPhysical = true <;> simp [hp]

theorem sparseBytes_one (e : Extent) :
    sparseBytes [e] = if e.placement.isPhysical = true then 0 else e.length := by
  unfold sparseBytes
  by_cases hp : e.placement.isPhysical = true <;> simp [hp]

section Reads

variable {ε : Type} {ofLznt1 : Lznt1Error → ε} {readPhysical : ℕ → ℕ → Except ε Bytes}
  {image : Bytes} {Fits : ℕ → ℕ → Prop}
  (hread : ∀ {offset length bytes}, readPhysical offset length = .ok bytes ↔
    Fits offset length ∧ bytes = sliceAt image offset length)
  (hfits : ∀ {offset length}, Fits offset length → offset + length ≤ image.length)

include hread hfits in
theorem addOverlap_ok_iff {payload out : CuPayload} {e : Extent} {lo hi volumeBytes : ℕ}
    (hvalid : e.Valid volumeBytes) (hlo : lo < e.logicalOffset + e.length)
    (hp : payload.physicalBytes + physicalBytes [clip lo hi e] < wordBound)
    (hs : payload.sparseBytes + sparseBytes [clip lo hi e] < wordBound) :
    addOverlap ofLznt1 readPhysical payload e.placement (max e.logicalOffset lo - e.logicalOffset)
        (min (e.logicalOffset + e.length) hi - max e.logicalOffset lo) = .ok out ↔
      (∀ r ∈ (clip lo hi e).physical?, Fits r.offset r.length) ∧
        out = ⟨payload.physical ++ pieceBytes image [clip lo hi e],
          payload.physicalBytes + physicalBytes [clip lo hi e],
          payload.sparseBytes + sparseBytes [clip lo hi e]⟩ := by
  have hlen : (clip lo hi e).length = min (e.logicalOffset + e.length) hi - max e.logicalOffset lo :=
    rfl
  rw [physicalBytes_one, isPhysical_clip, hlen] at hp ⊢
  rw [sparseBytes_one, isPhysical_clip, hlen] at hs ⊢
  unfold addOverlap
  cases hpl : e.placement with
  | sparse =>
    have hnone : (clip lo hi e).physical? = none := physical?_clip_sparse hpl
    simp only [hpl, Placement.isPhysical, Bool.false_eq_true, if_false, Nat.add_zero] at hs ⊢
    have hbytes : pieceBytes image [clip lo hi e] = [] := by
      simp only [pieceBytes, List.flatMap_cons, hnone, List.flatMap_nil, List.append_nil]
    rw [checkedAdd_of_lt hs, orErr_some, ok_bind, hbytes, List.append_nil, hnone, pure_eq_ok,
      Except.ok.injEq]
    constructor
    · rintro rfl
      exact ⟨fun r hr => by simp at hr, rfl⟩
    · exact fun h => h.2.symm
  | physical byteOffset =>
    have hsome : (clip lo hi e).physical? = some _ := physical?_clip hpl
    have hphys := hvalid.physical ⟨byteOffset, e.length⟩ (by simp only [Extent.physical?, hpl])
    have hstop : byteOffset + e.length < wordBound := hphys.1
    simp only [hpl, Placement.isPhysical, if_true, Nat.add_zero] at hp ⊢
    have hbytes : pieceBytes image [clip lo hi e] = sliceAt image
        (byteOffset + (max e.logicalOffset lo - e.logicalOffset))
        (min (e.logicalOffset + e.length) hi - max e.logicalOffset lo) := by
      simp only [pieceBytes, List.flatMap_cons, hsome, List.flatMap_nil, List.append_nil]
    rw [checkedAdd_of_lt (by omega), orErr_some, ok_bind, checkedAdd_of_lt hp, orErr_some, hbytes,
      hsome]
    simp only [bind_ok_iff, hread, exists_const, ensure_ok_iff, ok_bind, pure_eq_ok, Except.ok.injEq,
      Option.mem_def, Option.some.injEq, forall_eq']
    constructor
    · rintro ⟨_, ⟨hfit, rfl⟩, -, rfl⟩
      exact ⟨hfit, rfl⟩
    · rintro ⟨hfit, rfl⟩
      exact ⟨_, ⟨hfit, rfl⟩, length_sliceAt_of_le (hfits hfit), rfl⟩

theorem pieceBytes_cons (image : Bytes) (e : Extent) (rest : List Extent) :
    pieceBytes image (e :: rest) = pieceBytes image [e] ++ pieceBytes image rest := by
  simp only [pieceBytes, List.flatMap_cons, List.flatMap_nil, List.append_nil]

theorem physicalBytes_cons (e : Extent) (rest : List Extent) :
    physicalBytes (e :: rest) = physicalBytes [e] + physicalBytes rest := by
  unfold physicalBytes
  by_cases hp : e.placement.isPhysical = true <;> simp [hp]

theorem sparseBytes_cons (e : Extent) (rest : List Extent) :
    sparseBytes (e :: rest) = sparseBytes [e] + sparseBytes rest := by
  unfold sparseBytes
  by_cases hp : e.placement.isPhysical = true <;> simp [hp]

include hread hfits in
theorem collectExtents_ok_iff {payload out : CuPayload} {lo hi volumeBytes : ℕ} {l : List Extent}
    (hvalid : ∀ e ∈ l, e.Valid volumeBytes)
    (hin : ∀ e ∈ l, e.logicalOffset < hi ∧ lo < e.logicalOffset + e.length) (hlt : lo < hi)
    (hp : payload.physicalBytes + physicalBytes (l.map (clip lo hi)) < wordBound)
    (hs : payload.sparseBytes + sparseBytes (l.map (clip lo hi)) < wordBound) :
    collectExtents ofLznt1 readPhysical lo hi payload l = .ok out ↔
      (∀ e ∈ l.map (clip lo hi), ∀ r ∈ e.physical?, Fits r.offset r.length) ∧
        out = ⟨payload.physical ++ pieceBytes image (l.map (clip lo hi)),
          payload.physicalBytes + physicalBytes (l.map (clip lo hi)),
          payload.sparseBytes + sparseBytes (l.map (clip lo hi))⟩ := by
  induction l generalizing payload with
  | nil =>
    obtain ⟨physical, p, s⟩ := payload
    simp [collectExtents, pieceBytes, physicalBytes, sparseBytes, eq_comm]
  | cons e rest ih =>
    obtain ⟨hve, hvrest⟩ := List.forall_mem_cons.1 hvalid
    obtain ⟨⟨hhi, hlo⟩, hinrest⟩ := List.forall_mem_cons.1 hin
    rw [List.map_cons, physicalBytes_cons] at hp
    rw [List.map_cons, sparseBytes_cons] at hs
    have hpos := hve.nonempty
    rw [collectExtents, checkedAdd_of_lt hve.logical_lt, orErr_some, ok_bind]
    dsimp only
    rw [if_neg (by omega), List.map_cons, List.forall_mem_cons, pieceBytes_cons, physicalBytes_cons,
      sparseBytes_cons]
    have hadd : ∀ mid, addOverlap ofLznt1 readPhysical payload e.placement
        (max e.logicalOffset lo - e.logicalOffset)
        (min (e.logicalOffset + e.length) hi - max e.logicalOffset lo) = .ok mid ↔ _ :=
      fun mid => addOverlap_ok_iff hread hfits hve hlo (by omega) (by omega)
    simp only [bind_ok_iff, hadd]
    constructor
    · rintro ⟨_, ⟨hfit, rfl⟩, hrest⟩
      obtain ⟨hfits', rfl⟩ := (ih hvrest hinrest (by dsimp only; omega) (by dsimp only; omega)).1 hrest
      refine ⟨⟨hfit, hfits'⟩, ?_⟩
      simp only [List.append_assoc, Nat.add_assoc]
    · rintro ⟨⟨hfit, hfits'⟩, rfl⟩
      refine ⟨_, ⟨hfit, rfl⟩, (ih hvrest hinrest (by dsimp only; omega) (by dsimp only; omega)).2
        ⟨hfits', ?_⟩⟩
      simp only [List.append_assoc, Nat.add_assoc]

include hread hfits in
/-- A unit is collected when each of its clipped extents can be read. -/
theorem collectCuPayload_ok_iff {graph : ExtentGraph} {stream : StreamId} {out : CuPayload}
    {lo hi : ℕ} (hlt : lo < hi) :
    collectCuPayload ofLznt1 readPhysical graph.extents stream lo hi = .ok out ↔
      (∀ e ∈ windowExtents graph.extents stream lo hi, ∀ r ∈ e.physical?, Fits r.offset r.length) ∧
        out = ⟨pieceBytes image (windowExtents graph.extents stream lo hi),
          physicalBytes (windowExtents graph.extents stream lo hi),
          sparseBytes (windowExtents graph.extents stream lo hi)⟩ := by
  have hfilter : graph.extents.filter (inWindow stream lo hi) = graph.extents.filter fun e =>
      e.stream = stream ∧ e.kind = .fileData ∧ e.logicalOffset < hi ∧
        lo < e.logicalOffset + e.length := by
    refine List.filter_congr fun e he => ?_
    rw [inWindow, checkedAdd_of_lt (graph.valid e he).logical_lt, Option.any_some,
      ← Bool.decide_and, decide_eq_decide]
    tauto
  have hphys := graph.physical_lt
  have hsparse := graph.sparse_lt
  have hple := physicalBytes_clip_le (inWindow stream lo hi) lo hi graph.extents
  have hsle := sparseBytes_clip_le (inWindow stream lo hi) lo hi graph.extents
  rw [hfilter] at hple hsle
  unfold collectCuPayload windowExtents
  rw [hfilter, collectExtents_ok_iff hread hfits
    (fun e he => graph.valid e (List.mem_of_mem_filter he)) (fun e he => ?_) hlt
    (by dsimp only; omega) (by dsimp only; omega)]
  · simp only [List.nil_append, Nat.zero_add]
  · have := of_decide_eq_true (List.mem_filter.1 he).2
    exact this.2.2

/-! ## The rebuilt stream -/

/-- A unit that can be read and has a text. -/
structure UnitFits (Fits : ℕ → ℕ → Prop) (image : Bytes) (extents : List Extent) (stream : StreamId)
    (block k : ℕ) : Prop where
  stop_lt : k * block + block < wordBound
  pieces : ∀ e ∈ windowExtents extents stream (k * block) (k * block + block), ∀ r ∈ e.physical?,
    Fits r.offset r.length
  text : (unitTextAt image extents stream block k).isSome = true

theorem length_pieceBytes {extents : List Extent}
    (h : ∀ e ∈ extents, ∀ r ∈ e.physical?, r.offset + r.length ≤ image.length) :
    (pieceBytes image extents).length = physicalBytes extents := by
  induction extents with
  | nil => rfl
  | cons e rest ih =>
    obtain ⟨he, hrest⟩ := List.forall_mem_cons.1 h
    rw [pieceBytes_cons, List.length_append, ih hrest, physicalBytes_cons, physicalBytes_one]
    congr 1
    cases hpl : e.placement with
    | sparse =>
      have hnone : e.physical? = none := by simp only [Extent.physical?, hpl]
      simp [pieceBytes, hnone, Placement.isPhysical]
    | physical byteOffset =>
      have hsome : e.physical? = some ⟨byteOffset, e.length⟩ := by simp only [Extent.physical?, hpl]
      have hle := he _ hsome
      have hlen : (sliceAt image byteOffset e.length).length = e.length := length_sliceAt_of_le hle
      simp [pieceBytes, hsome, Placement.isPhysical, hlen]

/-- A stream of `destLen` bytes whose first `n` bytes are rebuilt. -/
def rebuilt (image : Bytes) (extents : List Extent) (stream : StreamId) (block destLen n : ℕ) :
    Bytes :=
  (List.range destLen).map fun i => if i < n then unitByte image extents stream block i else 0

@[simp] theorem length_rebuilt (image : Bytes) (extents : List Extent) (stream : StreamId)
    (block destLen n : ℕ) : (rebuilt image extents stream block destLen n).length = destLen := by
  rw [rebuilt, List.length_map, List.length_range]

theorem getElem?_rebuilt (image : Bytes) (extents : List Extent) (stream : StreamId)
    {block destLen n i : ℕ} (hi : i < destLen) :
    (rebuilt image extents stream block destLen n)[i]? =
      some (if i < n then unitByte image extents stream block i else 0) := by
  rw [rebuilt, List.getElem?_map, List.getElem?_range hi, Option.map_some]

include hread hfits in
/-- Every unit of a graph contributes the text of its clipped extents. -/
theorem graph_collects {graph : ExtentGraph} {stream : StreamId} {block : ℕ} (hblock : 0 < block)
    (k : ℕ) :
    Collects ofLznt1 readPhysical graph.extents stream block
      (fun k => ∀ e ∈ windowExtents graph.extents stream (k * block) (k * block + block),
        ∀ r ∈ e.physical?, Fits r.offset r.length)
      (unitTextAt image graph.extents stream block) k
      ⟨pieceBytes image (windowExtents graph.extents stream (k * block) (k * block + block)),
        physicalBytes (windowExtents graph.extents stream (k * block) (k * block + block)),
        sparseBytes (windowExtents graph.extents stream (k * block) (k * block + block))⟩ where
  ok_iff _ := collectCuPayload_ok_iff hread hfits (by omega)
  length_eq h := length_pieceBytes fun e he r hr => hfits (h e he r hr)
  text_eq := rfl

include hread hfits in
/-- **Rebuilding a compressed stream.** It succeeds when every unit up to the initialized size can be
read and has a text, and gives the texts of the units. -/
theorem materializeNtfsCompressedStream_ok_iff {graph : ExtentGraph} {stream : StreamId} {out : Bytes}
    {block initializedBytes destLen : ℕ} (hle : initializedBytes ≤ destLen) :
    materializeNtfsCompressedStream ofLznt1 readPhysical graph.extents stream block initializedBytes
        destLen = .ok out ↔
      (block ≠ 0 ∧ block ≤ maxCompressionBlock) ∧
        (∀ k, k * block < initializedBytes → UnitFits Fits image graph.extents stream block k) ∧
        out = rebuilt image graph.extents stream block destLen initializedBytes := by
  have hstart : List.replicate destLen (0 : UInt8) = rebuiltFrom
      (unitTextAt image graph.extents stream block) block destLen (min (0 * block) initializedBytes) := by
    rw [Nat.zero_mul, Nat.zero_min, rebuiltFrom]
    simp only [Nat.not_lt_zero, if_false, List.map_const', List.length_range]
  simp only [materializeNtfsCompressedStream, bind_ok_iff, ensure_ok_iff, exists_const,
    Nat.min_eq_left hle, and_assoc]
  refine and_congr_right fun hne => and_congr_right fun _ => ?_
  have hblock : 0 < block := Nat.pos_of_ne_zero hne
  have hrun : materializeUnits ofLznt1 readPhysical graph.extents stream block initializedBytes
      initializedBytes (0 * block) (rebuiltFrom (unitTextAt image graph.extents stream block) block
        destLen (min (0 * block) initializedBytes)) = .ok out ↔ _ :=
    materializeUnits_run _ hblock (fun j _ => graph_collects hread hfits hblock j) hle (by omega)
  rw [← hstart, Nat.zero_mul] at hrun
  rw [hrun]
  refine and_congr ⟨fun h k hk => ?_, fun h k _ hk => ?_⟩ Iff.rfl
  · obtain ⟨hstop, hpieces, htext⟩ := h k (Nat.zero_le k) hk
    exact ⟨hstop, hpieces, htext⟩
  · exact ⟨(h k hk).stop_lt, (h k hk).pieces, (h k hk).text⟩

end Reads

/-! ## The same units in two images -/

/-- A window looks at the extents of its stream only. -/
theorem windowExtents_eq (extents : List Extent) (stream : StreamId) (lo hi : ℕ) :
    windowExtents extents stream lo hi = ((extents.filter fun e => e.stream = stream).filter fun e =>
      e.kind = .fileData ∧ e.logicalOffset < hi ∧ lo < e.logicalOffset + e.length).map (clip lo hi) := by
  rw [windowExtents, List.filter_filter]
  congr 1
  refine List.filter_congr fun e _ => ?_
  simp only [← Bool.decide_and, decide_eq_decide]
  exact and_comm

/-- The bytes of one physical extent. -/
def piece (image : Bytes) (e : Extent) : Bytes :=
  match e.physical? with
  | some r => sliceAt image r.offset r.length
  | none => []

/-- Pieces of the same size and with the same bytes give the same text. -/
theorem windowText_map_congr {image image' : Bytes} (block : ℕ) {extents : List Extent}
    {f f' : Extent → Extent} (hlength : ∀ e ∈ extents, (f e).length = (f' e).length)
    (hphysical : ∀ e ∈ extents, (f e).placement.isPhysical = (f' e).placement.isPhysical)
    (hpiece : ∀ e ∈ extents, piece image (f e) = piece image' (f' e)) :
    windowText image block (extents.map f) = windowText image' block (extents.map f') := by
  have hsum : ∀ p : Bool → Bool,
      (((extents.map f).filter fun e => p e.placement.isPhysical).map Extent.length).sum =
        (((extents.map f').filter fun e => p e.placement.isPhysical).map Extent.length).sum := by
    intro p
    rw [List.filter_map, List.filter_map, List.map_map, List.map_map]
    have hfilter : extents.filter ((fun e => p e.placement.isPhysical) ∘ f) =
        extents.filter ((fun e => p e.placement.isPhysical) ∘ f') :=
      List.filter_congr fun e he => congrArg p (hphysical e he)
    rw [hfilter]
    exact congrArg List.sum (List.map_congr_left fun e he => hlength e (List.mem_of_mem_filter he))
  have hbytes : pieceBytes image (extents.map f) = pieceBytes image' (extents.map f') := by
    rw [pieceBytes, pieceBytes, List.flatMap_map, List.flatMap_map]
    exact List.flatMap_congr hpiece
  have hp : physicalBytes (extents.map f) = physicalBytes (extents.map f') := hsum id
  have hs : sparseBytes (extents.map f) = sparseBytes (extents.map f') := hsum not
  rw [windowText, windowText, hp, hs, hbytes]

end Lznt1

end StarConverter
