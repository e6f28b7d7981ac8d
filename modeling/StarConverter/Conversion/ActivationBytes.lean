import Mathlib.Data.List.GetD
import StarConverter.Base.Medium
import StarConverter.Conversion.Draft
import StarConverter.SourceView

/-!
# Where a group of writes stands

After a restart the image tells how far a prepared group got. Each range is read in chunks and compared
with its bytes before and after; the verdict over all chunks is the one over all bytes
(`observeGroup_ok`), so it depends on the image alone.
-/

namespace StarConverter

open Base

structure ActivationByteLimits where
  writeCount : ℕ
  writeBytes : ℕ
  readBytes : ℕ
  deriving DecidableEq

/-- Exact relationship between the observed ranges and their prepared before/after bytes. -/
inductive ActivationByteState
  | exactBefore
  | exactAfter
  | mixedBeforeAfter
  | thirdState
  deriving DecidableEq

inductive ByteImageSide
  | before
  | after
  deriving DecidableEq

inductive ActivationByteError
  | invalidLimit (field : String)
  | emptyGroup
  | writeCountMismatch (before after : ℕ)
  | writeLimitExceeded (actual maximum : ℕ)
  | emptyWrite (side : ByteImageSide) (index offset : ℕ)
  | rangesNotOrdered (side : ByteImageSide) (previousOffset nextOffset : ℕ)
  | overlappingRanges (side : ByteImageSide) (firstOffset secondOffset : ℕ)
  | rangeOutsideImage (side : ByteImageSide) (index offset length imageBytes : ℕ)
  | rangeMismatch (index beforeOffset beforeLength afterOffset afterLength : ℕ)
  | writeByteLimitExceeded (actual maximum : ℕ)
  | shortRead (offset expected actual : ℕ)
  | arithmeticOverflow
  | image (error : ImageError)
  deriving DecidableEq

namespace ActivationBytes

abbrev Classified := Except ActivationByteError

def validateLimits (limits : ActivationByteLimits) : Classified Unit :=
  checkAll (fun field => ensure (field.2 ≠ 0) (.invalidLimit field.1))
    [("max_writes", limits.writeCount), ("max_write_bytes", limits.writeBytes),
      ("max_read_bytes", limits.readBytes)]

def checkPrevious (side : ByteImageSide) (write : OverlayWrite) :
    Option OverlayWrite → Classified Unit
  | none => pure ()
  | some first => do
    ensure (first.offset < write.offset) (.rangesNotOrdered side first.offset write.offset)
    let firstEnd ← orErr (checkedAdd first.offset first.bytes.length) .arithmeticOverflow
    ensure (firstEnd ≤ write.offset) (.overlappingRanges side first.offset write.offset)

def validateRanges (side : ByteImageSide) (imageBytes : ℕ) :
    Option OverlayWrite → ℕ → List OverlayWrite → Classified Unit
  | _, _, [] => pure ()
  | previous, index, write :: rest => do
    ensure (write.bytes ≠ []) (.emptyWrite side index write.offset)
    let stop ← orErr (checkedAdd write.offset write.bytes.length) .arithmeticOverflow
    ensure (stop ≤ imageBytes)
      (.rangeOutsideImage side index write.offset write.bytes.length imageBytes)
    checkPrevious side write previous
    validateRanges side imageBytes (some write) (index + 1) rest

/-- Every before range is the range of its after-image; the result is the number of bytes. -/
def validatePairs : ℕ → ℕ → List (OverlayWrite × OverlayWrite) → Classified ℕ
  | _, total, [] => pure total
  | index, total, pair :: rest => do
    ensure (pair.1.offset = pair.2.offset ∧ pair.1.bytes.length = pair.2.bytes.length)
      (.rangeMismatch index pair.1.offset pair.1.bytes.length pair.2.offset pair.2.bytes.length)
    let total ← orErr (checkedAdd total pair.1.bytes.length) .arithmeticOverflow
    validatePairs (index + 1) total rest

/-- What the bytes observed so far allow. -/
structure Observation where
  exactBefore : Bool
  exactAfter : Bool
  onlyBeforeOrAfter : Bool
  deriving DecidableEq

def Observation.add (o : Observation) (observed beforeChunk afterChunk : Bytes) : Observation where
  exactBefore := o.exactBefore && decide (observed = beforeChunk)
  exactAfter := o.exactAfter && decide (observed = afterChunk)
  onlyBeforeOrAfter := o.onlyBeforeOrAfter &&
    ((observed.zip beforeChunk).zip afterChunk).all fun byte =>
      byte.1.1 == byte.1.2 || byte.1.1 == byte.2

/-- `while relative < write_bytes`; a chunk has at least one byte, so `write_bytes` rounds are
enough. -/
def observeRange (reader : ImageView) (chunkBytes : ℕ) (pair : OverlayWrite × OverlayWrite) :
    ℕ → ℕ → Observation → Classified Observation
  | 0, _, o => pure o
  | rounds + 1, relative, o =>
    if pair.1.bytes.length ≤ relative then pure o
    else do
      let count := min (pair.1.bytes.length - relative) chunkBytes
      let offset ← orErr (checkedAdd pair.1.offset relative) .arithmeticOverflow
      let observed ← (reader.readExactAt offset count).mapError .image
      ensure (observed.length = count) (.shortRead offset count observed.length)
      let stop ← orErr (checkedAdd relative count) .arithmeticOverflow
      observeRange reader chunkBytes pair rounds stop
        (o.add observed (sliceAt pair.1.bytes relative count) (sliceAt pair.2.bytes relative count))

def observeGroup (reader : ImageView) (chunkBytes : ℕ) :
    List (OverlayWrite × OverlayWrite) → Observation → Classified Observation
  | [], o => pure o
  | pair :: rest, o => do
    let o ← observeRange reader chunkBytes pair pair.1.bytes.length 0 o
    observeGroup reader chunkBytes rest o

def Observation.state (o : Observation) : ActivationByteState :=
  if o.exactBefore then .exactBefore
  else if o.exactAfter then .exactAfter
  else if o.onlyBeforeOrAfter then .mixedBeforeAfter
  else .thirdState

/-- The checks before anything is read. -/
def validateGroup (reader : ImageView) (before after : List OverlayWrite)
    (limits : ActivationByteLimits) : Classified Unit := do
  validateLimits limits
  ensure (before ≠ [] ∧ after ≠ []) .emptyGroup
  ensure (before.length = after.length) (.writeCountMismatch before.length after.length)
  ensure (before.length ≤ limits.writeCount) (.writeLimitExceeded before.length limits.writeCount)
  validateRanges .before reader.len none 0 before
  validateRanges .after reader.len none 0 after
  let totalBytes ← validatePairs 0 0 (before.zip after)
  ensure (totalBytes ≤ limits.writeBytes) (.writeByteLimitExceeded totalBytes limits.writeBytes)
  ensure (min limits.readBytes reader.maxReadBytes ≠ 0) (.invalidLimit "reader max_read_bytes")

def classifyWriteGroup (reader : ImageView) (before after : List OverlayWrite)
    (limits : ActivationByteLimits) : Classified ActivationByteState := do
  validateGroup reader before after limits
  let o ← observeGroup reader (min limits.readBytes reader.maxReadBytes) (before.zip after)
    ⟨true, true, true⟩
  pure o.state

/-- Classifies a prepared group whose after-images retain their reservation proof. -/
def classifyReservedWriteGroup (reader : ImageView) (before : List OverlayWrite)
    (after : List ReservedWrite) (limits : ActivationByteLimits) : Classified ActivationByteState :=
  classifyWriteGroup reader before (after.map ReservedWrite.write) limits

/-! ## The verdict on an image -/

/-- Every byte of the image in the ranges of a group stands in the relation `P` to its before and its
after byte. -/
def EveryByte (P : UInt8 → UInt8 → UInt8 → Prop) (content : Bytes)
    (group : List (OverlayWrite × OverlayWrite)) : Prop :=
  ∀ pair ∈ group, ∀ i < pair.1.bytes.length,
    P (content.getD (pair.1.offset + i) 0) (pair.1.bytes.getD i 0) (pair.2.bytes.getD i 0)

instance {P : UInt8 → UInt8 → UInt8 → Prop} [∀ a b c, Decidable (P a b c)] {content : Bytes}
    {group : List (OverlayWrite × OverlayWrite)} : Decidable (EveryByte P content group) :=
  inferInstanceAs (Decidable (∀ pair ∈ group, ∀ i < pair.1.bytes.length, P _ _ _))

abbrev AllBefore : Bytes → List (OverlayWrite × OverlayWrite) → Prop :=
  EveryByte fun observed before _ => observed = before

abbrev AllAfter : Bytes → List (OverlayWrite × OverlayWrite) → Prop :=
  EveryByte fun observed _ after => observed = after

abbrev AllEither : Bytes → List (OverlayWrite × OverlayWrite) → Prop :=
  EveryByte fun observed before after => observed = before ∨ observed = after

/-- The first of the three that holds of all bytes. -/
def verdict (content : Bytes) (group : List (OverlayWrite × OverlayWrite)) : ActivationByteState :=
  if AllBefore content group then .exactBefore
  else if AllAfter content group then .exactAfter
  else if AllEither content group then .mixedBeforeAfter
  else .thirdState

/-! ## What is accepted -/

/-- What acceptance says of a group. -/
structure Accepted (imageBytes maxReadBytes : ℕ) (before after : List OverlayWrite)
    (limits : ActivationByteLimits) : Prop where
  limits_pos : limits.writeCount ≠ 0 ∧ limits.writeBytes ≠ 0 ∧ limits.readBytes ≠ 0
  read_pos : maxReadBytes ≠ 0
  nonempty : before ≠ []
  length_eq : before.length = after.length
  count_le : before.length ≤ limits.writeCount
  before_canonical : CanonicalWrites imageBytes before
  after_canonical : CanonicalWrites imageBytes after
  paired : ∀ pair ∈ before.zip after,
    pair.1.offset = pair.2.offset ∧ pair.1.bytes.length = pair.2.bytes.length
  bytes_lt : OverlayPlan.byteCount before < wordBound
  bytes_le : OverlayPlan.byteCount before ≤ limits.writeBytes

theorem checkPrevious_ok_iff {side : ByteImageSide} {write : OverlayWrite}
    {previous : Option OverlayWrite} {u : Unit}
    (h : ∀ first ∈ previous, first.bytes ≠ [] ∧ first.span.stop < wordBound) :
    checkPrevious side write previous = .ok u ↔
      ∀ first ∈ previous, first.span.Before write.span := by
  cases previous with
  | none => simp [checkPrevious]
  | some first =>
    obtain ⟨hne, hlt⟩ := h first rfl
    have hpos := List.length_pos_iff.2 hne
    have hlt : first.offset + first.bytes.length < wordBound := hlt
    have hbefore : first.span.Before write.span ↔
        first.offset + first.bytes.length ≤ write.offset := Iff.rfl
    simp only [checkPrevious, bind_ok_iff, exists_const, ensure_ok_iff, orErr_ok_iff,
      checkedAdd_eq_some, Option.mem_def, Option.some.injEq, forall_eq', hbefore]
    constructor
    · rintro ⟨-, _, ⟨-, rfl⟩, hle⟩
      exact hle
    · exact fun hle => ⟨by omega, _, ⟨hlt, rfl⟩, hle⟩

theorem validateRanges_ok_iff {side : ByteImageSide} {imageBytes index : ℕ}
    {previous : Option OverlayWrite} {writes : List OverlayWrite} {u : Unit}
    (h : ∀ first ∈ previous, first.bytes ≠ [] ∧ first.span.stop < wordBound) :
    validateRanges side imageBytes previous index writes = .ok u ↔
      (∀ w ∈ writes, w.bytes ≠ [] ∧ w.span.stop < wordBound ∧ w.span.stop ≤ imageBytes) ∧
        List.IsChain (fun a b : OverlayWrite => a.span.Before b.span)
          (previous.toList ++ writes) := by
  induction writes generalizing previous index with
  | nil => cases previous <;> simp [validateRanges]
  | cons w rest ih =>
    have hchain : List.IsChain (fun a b : OverlayWrite => a.span.Before b.span)
        (previous.toList ++ w :: rest) ↔ (∀ first ∈ previous, first.span.Before w.span) ∧
          List.IsChain (fun a b : OverlayWrite => a.span.Before b.span) (w :: rest) := by
      cases previous <;> simp
    have hw : w.span.stop = w.offset + w.bytes.length := rfl
    rw [hchain, List.forall_mem_cons]
    simp only [validateRanges, bind_ok_iff, exists_const, ensure_ok_iff, orErr_ok_iff,
      checkedAdd_eq_some, checkPrevious_ok_iff h]
    constructor
    · rintro ⟨hne, _, ⟨hlt, rfl⟩, hle, hbefore, hrest⟩
      have hsome : ∀ first ∈ some w, first.bytes ≠ [] ∧ first.span.stop < wordBound := by
        rintro first ⟨rfl⟩
        exact ⟨hne, hlt⟩
      obtain ⟨hvalid, hrest⟩ := (ih hsome).1 hrest
      exact ⟨⟨⟨hne, hlt, hle⟩, hvalid⟩, hbefore, hrest⟩
    · rintro ⟨⟨⟨hne, hlt, hle⟩, hvalid⟩, hbefore, hrest⟩
      have hsome : ∀ first ∈ some w, first.bytes ≠ [] ∧ first.span.stop < wordBound := by
        rintro first ⟨rfl⟩
        exact ⟨hne, hlt⟩
      exact ⟨hne, _, ⟨hlt, rfl⟩, hle, hbefore, (ih hsome).2 ⟨hvalid, hrest⟩⟩

theorem validateRanges_none_ok_iff {side : ByteImageSide} {imageBytes : ℕ}
    {writes : List OverlayWrite} {u : Unit} :
    validateRanges side imageBytes none 0 writes = .ok u ↔ CanonicalWrites imageBytes writes := by
  have hordered : Ordered (writes.map Patch.span) ↔
      List.IsChain (fun a b : OverlayWrite => a.span.Before b.span) writes := by
    rw [Ordered, List.pairwise_map, ← List.isChain_iff_pairwise]
  rw [validateRanges_ok_iff (by simp), Option.toList_none, List.nil_append]
  constructor
  · rintro ⟨hvalid, hchain⟩
    exact ⟨fun w hw => (hvalid w hw).1, fun w hw => (hvalid w hw).2.1,
      fun w hw => (hvalid w hw).2.2, hordered.2 hchain⟩
  · intro h
    exact ⟨fun w hw => ⟨h.nonempty w hw, h.stop_lt w hw, h.stop_le w hw⟩, hordered.1 h.ordered⟩

theorem validatePairs_ok_iff {index total n : ℕ} {pairs : List (OverlayWrite × OverlayWrite)}
    (ht : total < wordBound) :
    validatePairs index total pairs = .ok n ↔
      (∀ pair ∈ pairs,
        pair.1.offset = pair.2.offset ∧ pair.1.bytes.length = pair.2.bytes.length) ∧
      total + OverlayPlan.byteCount (pairs.map Prod.fst) < wordBound ∧
      n = total + OverlayPlan.byteCount (pairs.map Prod.fst) := by
  induction pairs generalizing index total with
  | nil => simp [validatePairs, OverlayPlan.byteCount, ht, eq_comm]
  | cons pair rest ih =>
    have hcons : OverlayPlan.byteCount ((pair :: rest).map Prod.fst) =
        pair.1.bytes.length + OverlayPlan.byteCount (rest.map Prod.fst) := rfl
    simp only [validatePairs, bind_ok_iff, exists_const, ensure_ok_iff, orErr_ok_iff,
      checkedAdd_eq_some, List.forall_mem_cons, hcons, ← Nat.add_assoc]
    constructor
    · rintro ⟨hpair, _, ⟨hlt, rfl⟩, hrest⟩
      rw [ih hlt] at hrest
      exact ⟨⟨hpair, hrest.1⟩, hrest.2⟩
    · rintro ⟨⟨hpair, hrest⟩, hlt, hn⟩
      exact ⟨hpair, _, ⟨by omega, rfl⟩, (ih (by omega)).2 ⟨hrest, hlt, hn⟩⟩

theorem validateGroup_ok_iff {reader : ImageView} {before after : List OverlayWrite}
    {limits : ActivationByteLimits} {u : Unit} :
    validateGroup reader before after limits = .ok u ↔
      Accepted reader.len reader.maxReadBytes before after limits := by
  simp only [validateGroup, validateLimits, bind_ok_iff, exists_const, ensure_ok_iff,
    checkAll_ok_iff, List.forall_mem_cons, List.not_mem_nil, false_implies, implies_true, and_true,
    validateRanges_none_ok_iff, validatePairs_ok_iff wordBound_pos, Nat.zero_add]
  constructor
  · rintro ⟨hlimits, ⟨hb, -⟩, hlen, hcount, hbefore, hafter, _, ⟨hpaired, hlt, rfl⟩, hle, hmin⟩
    rw [List.map_fst_zip hlen.le] at hlt hle
    exact ⟨hlimits, by omega, hb, hlen, hcount, hbefore, hafter, hpaired, hlt, hle⟩
  · intro h
    have hfst := List.map_fst_zip h.length_eq.le
    have hafter : after ≠ [] := by
      rintro rfl
      exact h.nonempty (List.length_eq_zero_iff.1 h.length_eq)
    have hread := h.limits_pos.2.2
    have hmax := h.read_pos
    refine ⟨h.limits_pos, ⟨h.nonempty, hafter⟩, h.length_eq, h.count_le, h.before_canonical,
      h.after_canonical, _, ⟨h.paired, ?_, rfl⟩, ?_, by omega⟩
    · rw [hfst]
      exact h.bytes_lt
    · rw [hfst]
      exact h.bytes_le

/-! ## The chunks together -/

/-- The observation tells of each relation whether it has held so far. -/
structure Observation.Means (o : Observation) (held : (UInt8 → UInt8 → UInt8 → Prop) → Prop) :
    Prop where
  before : o.exactBefore = true ↔ held fun observed before _ => observed = before
  after : o.exactAfter = true ↔ held fun observed _ after => observed = after
  either : o.onlyBeforeOrAfter = true ↔
    held fun observed before after => observed = before ∨ observed = after

theorem Observation.Means.congr {o : Observation}
    {held held' : (UInt8 → UInt8 → UInt8 → Prop) → Prop} (h : o.Means held)
    (heq : ∀ P, held P ↔ held' P) : o.Means held' :=
  ⟨h.before.trans (heq _), h.after.trans (heq _), h.either.trans (heq _)⟩

/-- Lists of one length, compared element by element. -/
theorem eq_iff_getD {a b : Bytes} (h : a.length = b.length) :
    a = b ↔ ∀ i < a.length, a.getD i 0 = b.getD i 0 := by
  constructor
  · rintro rfl i _
    rfl
  · intro hi
    refine List.ext_getElem h fun i h1 h2 => ?_
    have := hi i h1
    rwa [List.getD_eq_getElem _ _ h1, List.getD_eq_getElem _ _ h2] at this

theorem all_zip_iff {a b c : Bytes} (hb : a.length = b.length) (hc : a.length = c.length) :
    (((a.zip b).zip c).all fun byte => byte.1.1 == byte.1.2 || byte.1.1 == byte.2) = true ↔
      ∀ i < a.length, a.getD i 0 = b.getD i 0 ∨ a.getD i 0 = c.getD i 0 := by
  have hlen : ((a.zip b).zip c).length = a.length := by simp [← hb, ← hc]
  rw [List.all_eq_true]
  constructor
  · intro h i hi
    have hmem := h _ (List.getElem_mem (hlen ▸ hi : i < ((a.zip b).zip c).length))
    rw [List.getD_eq_getElem _ _ hi, List.getD_eq_getElem _ _ (hb ▸ hi),
      List.getD_eq_getElem _ _ (hc ▸ hi)]
    simpa using hmem
  · intro h byte hmem
    obtain ⟨i, hi, rfl⟩ := List.getElem_of_mem hmem
    rw [hlen] at hi
    have := h i hi
    rw [List.getD_eq_getElem _ _ hi, List.getD_eq_getElem _ _ (hb ▸ hi),
      List.getD_eq_getElem _ _ (hc ▸ hi)] at this
    simpa using this

theorem Observation.Means.add {o : Observation} {held : (UInt8 → UInt8 → UInt8 → Prop) → Prop}
    (h : o.Means held) {observed beforeChunk afterChunk : Bytes}
    (hb : observed.length = beforeChunk.length) (ha : observed.length = afterChunk.length) :
    (o.add observed beforeChunk afterChunk).Means fun P => held P ∧ ∀ i < observed.length,
      P (observed.getD i 0) (beforeChunk.getD i 0) (afterChunk.getD i 0) where
  before := by
    rw [Observation.add, Bool.and_eq_true, h.before, decide_eq_true_iff, eq_iff_getD hb]
  after := by
    rw [Observation.add, Bool.and_eq_true, h.after, decide_eq_true_iff, eq_iff_getD ha]
  either := by
    rw [Observation.add, Bool.and_eq_true, h.either, all_zip_iff hb ha]

theorem getD_sliceAt {l : Bytes} {off len i : ℕ} (hi : i < len) :
    (sliceAt l off len).getD i 0 = l.getD (off + i) 0 := by
  rw [List.getD_eq_getElem?_getD, List.getD_eq_getElem?_getD, getElem?_sliceAt, if_pos hi]

section Shown

variable {reader : ImageView} {content : Bytes} {chunkBytes : ℕ} (hshows : reader.Shows content)
  (hcontent : content.length < wordBound) (hchunk : 0 < chunkBytes)
  (hmax : chunkBytes ≤ reader.maxReadBytes)

include hshows hcontent hchunk hmax

/-- Reading the rest of a range adds all its bytes to the observation. -/
theorem observeRange_ok {pair : OverlayWrite × OverlayWrite} {rounds relative : ℕ}
    {o : Observation} {held : (UInt8 → UInt8 → UInt8 → Prop) → Prop} (h : o.Means held)
    (hle : pair.1.offset + pair.1.bytes.length ≤ content.length)
    (heq : pair.1.bytes.length = pair.2.bytes.length)
    (hrounds : pair.1.bytes.length ≤ relative + rounds) :
    ∃ o', observeRange reader chunkBytes pair rounds relative o = .ok o' ∧
      o'.Means fun P => held P ∧ ∀ i, relative ≤ i → i < pair.1.bytes.length →
        P (content.getD (pair.1.offset + i) 0) (pair.1.bytes.getD i 0) (pair.2.bytes.getD i 0) := by
  induction rounds generalizing relative o held with
  | zero => exact ⟨o, rfl, h.congr fun P => ⟨fun hP => ⟨hP, by omega⟩, And.left⟩⟩
  | succ rounds ih =>
    rw [observeRange]
    split_ifs with hend
    · exact ⟨o, rfl, h.congr fun P => ⟨fun hP => ⟨hP, by omega⟩, And.left⟩⟩
    · obtain ⟨count, hcount⟩ : ∃ count, count = min (pair.1.bytes.length - relative) chunkBytes :=
        ⟨_, rfl⟩
      have hread := hshows.read (pair.1.offset + relative) count (by omega) (by omega)
      have hlen : (sliceAt content (pair.1.offset + relative) count).length = count :=
        length_sliceAt_of_le (by omega)
      have hbefore : (sliceAt pair.1.bytes relative count).length = count :=
        length_sliceAt_of_le (by omega)
      have hafter : (sliceAt pair.2.bytes relative count).length = count :=
        length_sliceAt_of_le (by omega)
      have hadd := h.add (hlen.trans hbefore.symm) (hlen.trans hafter.symm)
      obtain ⟨o', ho', hmeans⟩ := @ih (relative + count) _ _ hadd (by omega)
      refine ⟨o', ?_, hmeans.congr fun P => ?_⟩
      · dsimp only
        rw [← hcount, checkedAdd_of_lt (by omega), orErr_some, ok_bind, hread]
        show (do
          ensure ((sliceAt content (pair.1.offset + relative) count).length = count) _
          _) = _
        rw [ensure_of hlen, ok_bind, checkedAdd_of_lt (by omega), orErr_some, ok_bind]
        exact ho'
      · rw [hlen, and_assoc]
        refine and_congr_right fun _ => ⟨?_, ?_⟩
        · rintro ⟨hfirst, hrest⟩ i h1 h2
          by_cases hi : i < relative + count
          · have := hfirst (i - relative) (by omega)
            rw [getD_sliceAt (by omega), getD_sliceAt (by omega), getD_sliceAt (by omega),
              Nat.add_assoc, Nat.add_sub_cancel' h1] at this
            exact this
          · exact hrest i (by omega) h2
        · intro hall
          refine ⟨fun i hi => ?_, fun i h1 h2 => hall i (by omega) h2⟩
          rw [getD_sliceAt hi, getD_sliceAt hi, getD_sliceAt hi, Nat.add_assoc]
          exact hall (relative + i) (by omega) (by omega)

theorem observeGroup_ok {group : List (OverlayWrite × OverlayWrite)} {o : Observation}
    {held : (UInt8 → UInt8 → UInt8 → Prop) → Prop} (h : o.Means held)
    (hle : ∀ pair ∈ group, pair.1.offset + pair.1.bytes.length ≤ content.length)
    (heq : ∀ pair ∈ group, pair.1.bytes.length = pair.2.bytes.length) :
    ∃ o', observeGroup reader chunkBytes group o = .ok o' ∧
      o'.Means fun P => held P ∧ EveryByte P content group := by
  induction group generalizing o held with
  | nil => exact ⟨o, rfl, h.congr fun P => by simp [EveryByte]⟩
  | cons pair rest ih =>
    obtain ⟨o₁, h₁, hmeans₁⟩ := observeRange_ok hshows hcontent hchunk hmax h (hle pair (by simp))
      (heq pair (by simp)) (show pair.1.bytes.length ≤ 0 + pair.1.bytes.length by omega)
    obtain ⟨o₂, h₂, hmeans₂⟩ := ih hmeans₁ (fun p hp => hle p (by simp [hp]))
      fun p hp => heq p (by simp [hp])
    refine ⟨o₂, ?_, hmeans₂.congr fun P => ?_⟩
    · rw [observeGroup, h₁, ok_bind, h₂]
    · simp only [EveryByte, List.forall_mem_cons, Nat.zero_le, true_implies, and_assoc]

end Shown

theorem Observation.Means.state_eq {o : Observation} {content : Bytes}
    {group : List (OverlayWrite × OverlayWrite)}
    (h : o.Means fun P => True ∧ EveryByte P content group) : o.state = verdict content group := by
  have h1 := h.before
  have h2 := h.after
  have h3 := h.either
  simp only [true_and] at h1 h2 h3
  simp only [Observation.state, verdict, h1, h2, h3]

/-- **Classifying a group.** It succeeds exactly for accepted groups, with the verdict on all bytes. -/
theorem classifyWriteGroup_ok_iff {reader : ImageView} {content : Bytes}
    {before after : List OverlayWrite} {limits : ActivationByteLimits} {state : ActivationByteState}
    (hshows : reader.Shows content) (hcontent : content.length < wordBound) :
    classifyWriteGroup reader before after limits = .ok state ↔
      Accepted content.length reader.maxReadBytes before after limits ∧
        state = verdict content (before.zip after) := by
  have hgroup : ∀ u, validateGroup reader before after limits = .ok u ↔
      Accepted content.length reader.maxReadBytes before after limits := fun u => by
    rw [validateGroup_ok_iff, hshows.len]
  simp only [classifyWriteGroup, bind_ok_iff, hgroup, exists_const, pure_eq_ok, Except.ok.injEq]
  refine and_congr_right fun h => ?_
  have hread := h.limits_pos.2.2
  have hmax := h.read_pos
  have hmem : ∀ pair ∈ before.zip after, pair.1 ∈ before :=
    fun pair hp => (List.of_mem_zip hp).1
  obtain ⟨o, ho, hmeans⟩ := @observeGroup_ok reader content
    (min limits.readBytes reader.maxReadBytes) hshows hcontent (by omega) (by omega)
    (before.zip after) ⟨true, true, true⟩ (fun _ => True) ⟨by simp, by simp, by simp⟩
    (fun pair hp => h.before_canonical.stop_le _ (hmem pair hp)) fun pair hp => (h.paired pair hp).2
  rw [ho]
  simp only [Except.ok.injEq, exists_eq_left', hmeans.state_eq]
  exact eq_comm

/-! ## Torn groups -/

section Torn

variable {imageBytes maxReadBytes : ℕ} {before after : List OverlayWrite}
  {limits : ActivationByteLimits} {original torn : Bytes}

theorem Accepted.of_reads {readBytes maxReadBytes' : ℕ}
    (h : Accepted imageBytes maxReadBytes before after limits) (hread : readBytes ≠ 0)
    (hmax : maxReadBytes' ≠ 0) :
    Accepted imageBytes maxReadBytes' before after { limits with readBytes := readBytes } :=
  { h with
    limits_pos := ⟨h.limits_pos.1, h.limits_pos.2.1, hread⟩
    read_pos := hmax }

theorem getElem?_eq_some_getD {l : Bytes} {i : ℕ} (hi : i < l.length) : l[i]? = some (l.getD i 0) := by
  rw [List.getElem?_eq_getElem hi, List.getD_eq_getElem _ _ hi]

theorem Accepted.stop_le (h : Accepted imageBytes maxReadBytes before after limits)
    {pair : OverlayWrite × OverlayWrite} (hp : pair ∈ before.zip after) :
    pair.1.offset + pair.1.bytes.length ≤ imageBytes :=
  h.before_canonical.stop_le _ (List.of_mem_zip hp).1

/-- Bytes of an image with the before-images, partly overwritten by the after-images, are all before or
after bytes. -/
theorem allEither_of_partlyApplied (h : Accepted original.length maxReadBytes before after limits)
    (hmatches : ∀ w ∈ before, w.Matches original) (htorn : PartlyApplied after original torn) :
    AllEither torn (before.zip after) := by
  intro pair hp i hi
  obtain ⟨hb, ha⟩ := List.of_mem_zip hp
  obtain ⟨hoffset, hlength⟩ := h.paired pair hp
  have hle := h.stop_le hp
  have hx : pair.1.offset + i < torn.length := by
    rw [htorn.1]
    omega
  rcases htorn.2 (pair.1.offset + i) with he | ⟨p, hpa, hxp, he⟩
  · have hmatch := Patch.matches_iff.1 (hmatches _ hb) (pair.1.offset + i)
      (Patch.mem_span.2 ⟨by omega, by omega⟩)
    left
    have := he.trans hmatch
    rw [Nat.add_sub_cancel_left, getElem?_eq_some_getD hx, getElem?_eq_some_getD hi] at this
    exact Option.some.inj this
  · right
    obtain rfl : p = pair.2 := by
      by_contra hne
      have hsymm : Std.Symm fun a b : OverlayWrite => a.span.Disjoint b.span :=
        ⟨fun _ _ h => h.symm⟩
      have hd := (List.pairwise_map.1 h.after_canonical.ordered.disjoint).forall hpa ha hne
      exact hd _ hxp (Patch.mem_span.2 ⟨by omega, by omega⟩)
    rw [← hoffset, Nat.add_sub_cancel_left, getElem?_eq_some_getD hx,
      getElem?_eq_some_getD (by omega)] at he
    exact Option.some.inj he

theorem allAfter_applyAll (h : Accepted torn.length maxReadBytes before after limits) :
    AllAfter (applyAll after torn) (before.zip after) := by
  intro pair hp i hi
  obtain ⟨-, ha⟩ := List.of_mem_zip hp
  obtain ⟨hoffset, hlength⟩ := h.paired pair hp
  have hle := h.stop_le hp
  have he := @getElem?_applyAll_of_mem UInt8 after torn (pair.1.offset + i) pair.2
    h.after_canonical.ordered.disjoint ha (Patch.mem_span.2 ⟨by omega, by omega⟩) (by omega)
  rw [← hoffset, Nat.add_sub_cancel_left,
    getElem?_eq_some_getD (show _ < (applyAll after torn).length by rw [length_applyAll]; omega),
    getElem?_eq_some_getD (by omega)] at he
  exact Option.some.inj he

/-- An image with all before and all after bytes leaves no difference between the two. -/
theorem Accepted.eq_of_all (h : Accepted imageBytes maxReadBytes before after limits)
    {content : Bytes} (hbefore : AllBefore content (before.zip after))
    (hafter : AllAfter content (before.zip after)) : before = after := by
  refine List.ext_getElem h.length_eq fun n h1 h2 => ?_
  have hn : n < (before.zip after).length := by
    rw [List.length_zip]
    omega
  have hp : (before[n], after[n]) ∈ before.zip after := by
    rw [← @List.getElem_zip _ _ before after n hn]
    exact List.getElem_mem _
  obtain ⟨hoffset, hlength⟩ := h.paired _ hp
  have hbytes : before[n].bytes = after[n].bytes :=
    (eq_iff_getD hlength).2 fun i hi => (hbefore _ hp i hi).symm.trans (hafter _ hp i hi)
  exact congrArg₂ Patch.mk hoffset hbytes

theorem verdict_applyAll (h : Accepted torn.length maxReadBytes before after limits) :
    verdict (applyAll after torn) (before.zip after) =
      if before = after then .exactBefore else .exactAfter := by
  have hafter := allAfter_applyAll h
  have hiff : AllBefore (applyAll after torn) (before.zip after) ↔ before = after := by
    refine ⟨fun hbefore => h.eq_of_all hbefore hafter, ?_⟩
    rintro rfl pair hp i hi
    have hsame : pair.1 = pair.2 := by
      obtain ⟨n, hn, rfl⟩ := List.getElem_of_mem hp
      rw [List.getElem_zip]
    rw [hafter pair hp i hi, hsame]
  unfold verdict
  simp only [hiff, hafter, if_true]

end Torn

/-- **Restart classification is exact.** The state is the verdict on the bytes of the image, whatever
the chunks. Any part of the after-images written over an image with the before-images is never a third
state, and the whole group written over that is the exact after state, or the exact before state when
both images are one. -/
theorem classification_exact {reader : ImageView} {content : Bytes} {before : List OverlayWrite}
    {after : List ReservedWrite} {limits : ActivationByteLimits} {state : ActivationByteState}
    (hshows : reader.Shows content) (hcontent : content.length < wordBound)
    (h : classifyReservedWriteGroup reader before after limits = .ok state) :
    state = verdict content (before.zip (after.map ReservedWrite.write)) ∧
    ∀ original torn : Bytes, original.length = content.length →
      (∀ w ∈ before, w.Matches original) →
      PartlyApplied (after.map ReservedWrite.write) original torn →
      ∀ readBytes ≠ 0,
      (∀ other : ImageView, other.Shows torn → other.maxReadBytes ≠ 0 →
        ∃ torn, classifyReservedWriteGroup other before after
          { limits with readBytes := readBytes } = .ok torn ∧ torn ≠ .thirdState) ∧
      (∀ other : ImageView, other.Shows (applyAll (after.map ReservedWrite.write) torn) →
        other.maxReadBytes ≠ 0 →
        classifyReservedWriteGroup other before after { limits with readBytes := readBytes } =
          .ok (if before = after.map ReservedWrite.write then .exactBefore else .exactAfter)) := by
  obtain ⟨haccepted, rfl⟩ := (classifyWriteGroup_ok_iff hshows hcontent).1 h
  refine ⟨rfl, fun original torn hlength hmatches htorn readBytes hread => ⟨?_, ?_⟩⟩
  · intro other hother hmax
    have hlen : torn.length = content.length := htorn.1.trans hlength
    refine ⟨_, (classifyWriteGroup_ok_iff hother (hlen ▸ hcontent)).2
      ⟨hlen ▸ haccepted.of_reads hread hmax, rfl⟩, ?_⟩
    have heither := allEither_of_partlyApplied (hlength ▸ haccepted) hmatches htorn
    unfold verdict
    split_ifs <;> simp
  · intro other hother hmax
    have hlen : torn.length = content.length := htorn.1.trans hlength
    have hlen' : (applyAll (after.map ReservedWrite.write) torn).length = content.length := by
      rw [length_applyAll, hlen]
    refine (classifyWriteGroup_ok_iff hother (hlen' ▸ hcontent)).2
      ⟨hlen' ▸ haccepted.of_reads hread hmax, ?_⟩
    exact (verdict_applyAll (hlen ▸ haccepted)).symm

/-- One byte of two ranges is written. -/
theorem classification_torn : ∃ state,
    classifyReservedWriteGroup (ImageView.ofFile [9, 2, 3, 4] 1 (by decide))
      [⟨0, [1, 2]⟩, ⟨3, [4]⟩] [⟨.bootRegion, ⟨0, [9, 8]⟩⟩, ⟨.bootRegion, ⟨3, [7]⟩⟩] ⟨2, 3, 2⟩ =
        .ok state ∧ state ≠ .thirdState := by
  have hshows : (ImageView.ofFile [1, 2, 3, 4] 1 (by decide)).Shows [1, 2, 3, 4] :=
    ImageView.ofFile_shows (by decide)
  have hbefore : classifyReservedWriteGroup (ImageView.ofFile [1, 2, 3, 4] 1 (by decide))
      [⟨0, [1, 2]⟩, ⟨3, [4]⟩] [⟨.bootRegion, ⟨0, [9, 8]⟩⟩, ⟨.bootRegion, ⟨3, [7]⟩⟩] ⟨2, 3, 2⟩ =
        .ok .exactBefore := by decide +kernel
  have htorn : PartlyApplied [⟨0, [9, 8]⟩, ⟨3, [7]⟩] [1, 2, 3, 4] ([9, 2, 3, 4] : Bytes) := by
    refine ⟨rfl, fun x => ?_⟩
    match x with
    | 0 => exact Or.inr ⟨⟨0, [9, 8]⟩, by simp, by decide, rfl⟩
    | n + 1 => exact Or.inl rfl
  exact ((classification_exact hshows (by decide) hbefore).2 [1, 2, 3, 4] [9, 2, 3, 4] rfl
    (by decide) htorn 2 (by decide)).1 _ (ImageView.ofFile_shows (by decide)) (by decide)

end ActivationBytes

end StarConverter
