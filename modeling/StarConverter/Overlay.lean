import StarConverter.Base.Patch
import StarConverter.Geometry.Solver

/-!
# Overlays

A validated set of replacements for a bounded image. An `OverlayPlan` carries what `build` proves:
the writes are nonempty, aligned and inside the image, and they come in order without overlap.
-/

namespace StarConverter

open Base

/-- One replacement range of a candidate image. -/
abbrev OverlayWrite := Patch UInt8

structure OverlayLimits where
  maxWrites : ℕ
  maxReplacementBytes : ℕ
  maxReadBytes : ℕ
  deriving DecidableEq

inductive OverlayError
  | invalidLimit (field : String)
  | invalidSectorSize (sectorBytes : ℕ)
  | writeLimitExceeded (actual maximum : ℕ)
  | replacementLimitExceeded (actual maximum : ℕ)
  | emptyWrite (offset : ℕ)
  | unalignedWrite (offset length sectorBytes : ℕ)
  | writeOutsideImage (offset length imageBytes : ℕ)
  | overlappingWrites (firstOffset secondOffset : ℕ)
  | arithmeticOverflow
  deriving DecidableEq

namespace OverlayPlan

def validateLimits (limits : OverlayLimits) : Except OverlayError Unit :=
  checkAll (fun field => ensure (field.2 ≠ 0) (.invalidLimit field.1))
    [("max_writes", limits.maxWrites), ("max_replacement_bytes", limits.maxReplacementBytes),
      ("max_read_bytes", limits.maxReadBytes)]

def validateWrite (imageBytes sectorBytes : ℕ) (write : OverlayWrite) : Except OverlayError Unit := do
  ensure (write.bytes ≠ []) (.emptyWrite write.offset)
  let length := write.bytes.length
  ensure (write.offset % sectorBytes = 0 ∧ length % sectorBytes = 0)
    (.unalignedWrite write.offset length sectorBytes)
  let stop ← orErr (checkedAdd write.offset length) .arithmeticOverflow
  ensure (stop ≤ imageBytes) (.writeOutsideImage write.offset length imageBytes)

/-- The writes in order, with the bytes replaced so far. -/
def validateWrites (imageBytes sectorBytes : ℕ) : ℕ → List OverlayWrite → Except OverlayError ℕ
  | total, [] => pure total
  | total, write :: rest => do
    validateWrite imageBytes sectorBytes write
    let total ← orErr (checkedAdd total write.bytes.length) .arithmeticOverflow
    validateWrites imageBytes sectorBytes total rest

def checkOverlaps (writes : List OverlayWrite) : Except OverlayError Unit :=
  checkPairs (fun first second => do
    let firstEnd ← orErr (checkedAdd first.offset first.bytes.length) .arithmeticOverflow
    ensure (firstEnd ≤ second.offset) (.overlappingWrites first.offset second.offset)) writes

/-- The checks of `build` and the number of replaced bytes. -/
def checkWrites (imageBytes sectorBytes : ℕ) (writes : List OverlayWrite) (limits : OverlayLimits) :
    Except OverlayError ℕ := do
  validateLimits limits
  ensure (Geometry.isPowerOfTwo sectorBytes) (.invalidSectorSize sectorBytes)
  ensure (writes.length ≤ limits.maxWrites) (.writeLimitExceeded writes.length limits.maxWrites)
  let replacementBytes ← validateWrites imageBytes sectorBytes 0 writes
  ensure (replacementBytes ≤ limits.maxReplacementBytes)
    (.replacementLimitExceeded replacementBytes limits.maxReplacementBytes)
  checkOverlaps (sortByKey Patch.offset writes)
  pure replacementBytes

/-! ## What the checks say -/

/-- A nonempty, aligned write inside the image. -/
structure ValidWrite (imageBytes sectorBytes : ℕ) (write : OverlayWrite) : Prop where
  nonempty : 0 < write.bytes.length
  offset_aligned : write.offset % sectorBytes = 0
  length_aligned : write.bytes.length % sectorBytes = 0
  stop_lt : write.span.stop < wordBound
  stop_le : write.span.stop ≤ imageBytes

theorem validateWrite_ok_iff {imageBytes sectorBytes : ℕ} {write : OverlayWrite} {u : Unit} :
    validateWrite imageBytes sectorBytes write = .ok u ↔
      ValidWrite imageBytes sectorBytes write := by
  simp only [validateWrite, bind_ok_iff, exists_const, ensure_ok_iff, orErr_ok_iff,
    checkedAdd_eq_some]
  constructor
  · rintro ⟨hne, ⟨ho, hl⟩, _, ⟨hlt, rfl⟩, hle⟩
    exact ⟨List.length_pos_iff.2 hne, ho, hl, hlt, hle⟩
  · intro h
    exact ⟨List.length_pos_iff.1 h.nonempty, ⟨h.offset_aligned, h.length_aligned⟩, _,
      ⟨h.stop_lt, rfl⟩, h.stop_le⟩

/-- The number of bytes of a list of writes. -/
def byteCount (writes : List OverlayWrite) : ℕ := (writes.map fun w => w.bytes.length).sum

theorem validateWrites_ok_iff {imageBytes sectorBytes total n : ℕ} {writes : List OverlayWrite}
    (ht : total < wordBound) :
    validateWrites imageBytes sectorBytes total writes = .ok n ↔
      (∀ w ∈ writes, ValidWrite imageBytes sectorBytes w) ∧
        total + byteCount writes < wordBound ∧ n = total + byteCount writes := by
  induction writes generalizing total with
  | nil => simp [validateWrites, byteCount, ht, eq_comm]
  | cons w rest ih =>
    have hcons : byteCount (w :: rest) = w.bytes.length + byteCount rest := rfl
    simp only [validateWrites, bind_ok_iff, validateWrite_ok_iff, exists_const, orErr_ok_iff,
      checkedAdd_eq_some, List.forall_mem_cons, hcons, ← Nat.add_assoc]
    constructor
    · rintro ⟨hw, _, ⟨hlt, rfl⟩, h⟩
      rw [ih hlt] at h
      exact ⟨⟨hw, h.1⟩, h.2⟩
    · rintro ⟨⟨hw, hrest⟩, hlt, hn⟩
      exact ⟨hw, _, ⟨by omega, rfl⟩, (ih (by omega)).2 ⟨hrest, hlt, hn⟩⟩

theorem checkOverlaps_ok_iff {writes : List OverlayWrite} {u : Unit}
    (hw : ∀ w ∈ writes, w.span.stop < wordBound) :
    checkOverlaps writes = .ok u ↔ Ordered (writes.map Patch.span) := by
  unfold checkOverlaps Ordered
  rw [checkPairs_ok_iff, List.pairwise_map, ← List.isChain_iff_pairwise]
  constructor
  · intro h
    refine h.imp fun a b hab => ?_
    simp only [bind_ok_iff, orErr_ok_iff, checkedAdd_eq_some, ensure_ok_iff] at hab
    obtain ⟨_, ⟨-, rfl⟩, hle⟩ := hab
    exact hle
  · intro h
    refine h.imp_of_mem_imp fun a b ha _ hab => ?_
    simp only [bind_ok_iff, orErr_ok_iff, checkedAdd_eq_some, ensure_ok_iff]
    exact ⟨_, ⟨hw a ha, rfl⟩, hab⟩

end OverlayPlan

/-- Validated, ordered replacements. -/
structure OverlayPlan where
  imageBytes : ℕ
  sectorBytes : ℕ
  writes : List OverlayWrite
  replacementBytes : ℕ
  maxReadBytes : ℕ
  valid : ∀ w ∈ writes, OverlayPlan.ValidWrite imageBytes sectorBytes w
  ordered : Ordered (writes.map Patch.span)
  replacement_eq : replacementBytes = OverlayPlan.byteCount writes
  replacement_lt : OverlayPlan.byteCount writes < wordBound

namespace OverlayPlan

/-- What acceptance says of the writes as given. -/
structure Buildable (imageBytes sectorBytes : ℕ) (writes : List OverlayWrite) : Prop where
  valid : ∀ w ∈ writes, ValidWrite imageBytes sectorBytes w
  ordered : Ordered ((sortByKey Patch.offset writes).map Patch.span)
  total_lt : byteCount writes < wordBound

theorem checkWrites_ok {imageBytes sectorBytes n : ℕ} {writes : List OverlayWrite}
    {limits : OverlayLimits} (h : checkWrites imageBytes sectorBytes writes limits = .ok n) :
    Buildable imageBytes sectorBytes writes ∧ n = byteCount writes := by
  simp only [checkWrites, bind_ok_iff, exists_const, ensure_ok_iff, pure_eq_ok, Except.ok.injEq,
    validateWrites_ok_iff wordBound_pos, Nat.zero_add] at h
  obtain ⟨_, -, -, -, _, ⟨hv, hlt, rfl⟩, -, _, ho, rfl⟩ := h
  exact ⟨⟨hv, (checkOverlaps_ok_iff fun w hw => (hv w (mem_sortByKey.1 hw)).stop_lt).1 ho, hlt⟩, rfl⟩

@[simp] theorem byteCount_append (l l' : List OverlayWrite) :
    byteCount (l ++ l') = byteCount l + byteCount l' := by
  simp [byteCount]

theorem byteCount_perm {l l' : List OverlayWrite} (h : l.Perm l') : byteCount l = byteCount l' :=
  (h.map _).sum_eq

/-- Validates and orders a complete set of writes. -/
def build (imageBytes sectorBytes : ℕ) (writes : List OverlayWrite) (limits : OverlayLimits) :
    Except OverlayError OverlayPlan :=
  match h : checkWrites imageBytes sectorBytes writes limits with
  | .error e => .error e
  | .ok replacementBytes => .ok
    { imageBytes := imageBytes
      sectorBytes := sectorBytes
      writes := sortByKey Patch.offset writes
      replacementBytes := replacementBytes
      maxReadBytes := limits.maxReadBytes
      valid := fun w hw => (checkWrites_ok h).1.valid w (mem_sortByKey.1 hw)
      ordered := (checkWrites_ok h).1.ordered
      replacement_eq := (checkWrites_ok h).2.trans (byteCount_perm (sortByKey_perm _ _)).symm
      replacement_lt := by
        rw [byteCount_perm (sortByKey_perm _ _)]
        exact (checkWrites_ok h).1.total_lt }

theorem build_ok {imageBytes sectorBytes : ℕ} {writes : List OverlayWrite} {limits : OverlayLimits}
    {plan : OverlayPlan} (h : build imageBytes sectorBytes writes limits = .ok plan) :
    plan.imageBytes = imageBytes ∧ plan.sectorBytes = sectorBytes ∧
      plan.writes = sortByKey Patch.offset writes ∧ plan.maxReadBytes = limits.maxReadBytes := by
  unfold build at h
  split at h
  · cases h
  · obtain rfl := Except.ok.inj h
    exact ⟨rfl, rfl, rfl, rfl⟩

/-- The same replacements under another read cap. -/
def withReadCap (plan : OverlayPlan) (maxReadBytes : ℕ) : OverlayPlan :=
  { plan with maxReadBytes := maxReadBytes }

section Limits

variable {imageBytes sectorBytes : ℕ} {writes : List OverlayWrite} {limits limits' : OverlayLimits}
  (hv : validateLimits limits' = .ok ()) (hcount : writes.length ≤ limits'.maxWrites)
  (hbytes : byteCount writes ≤ limits'.maxReplacementBytes)

include hv hcount hbytes

theorem checkWrites_of_checkWrites {n : ℕ}
    (h : checkWrites imageBytes sectorBytes writes limits = .ok n) :
    checkWrites imageBytes sectorBytes writes limits' = .ok n := by
  have hn := (checkWrites_ok h).2
  simp only [checkWrites, bind_ok_iff, exists_const, ensure_ok_iff, pure_eq_ok,
    Except.ok.injEq] at h
  obtain ⟨_, -, hsector, -, _, hw, -, _, ho, rfl⟩ := h
  rw [checkWrites, hv, ok_bind, ensure_of hsector, ok_bind, ensure_of hcount, ok_bind, hw, ok_bind,
    ensure_of (hn.trans_le hbytes), ok_bind, ho, ok_bind]
  rfl

/-- Writes that were accepted once are accepted under any limits with room for them. -/
theorem build_of_build {plan : OverlayPlan}
    (h : build imageBytes sectorBytes writes limits = .ok plan) :
    build imageBytes sectorBytes writes limits' = .ok (plan.withReadCap limits'.maxReadBytes) := by
  unfold build at h ⊢
  split at h
  · cases h
  · rename_i n hn
    obtain rfl := Except.ok.inj h
    have hn' := checkWrites_of_checkWrites hv hcount hbytes hn
    split
    · rename_i e he
      rw [hn'] at he
      cases he
    · rename_i k hk
      obtain rfl : k = n := Except.ok.inj (hk.symm.trans hn')
      rfl

end Limits

theorem disjoint (plan : OverlayPlan) : (plan.writes.map Patch.span).Pairwise Span.Disjoint :=
  plan.ordered.disjoint

/-- Ordered writes are sorted by offset. -/
theorem sorted (plan : OverlayPlan) : plan.writes.Pairwise fun a b => a.offset ≤ b.offset := by
  refine (List.pairwise_map.1 plan.ordered).imp fun {a b} h => ?_
  unfold Span.Before Span.stop Patch.span at h
  simp only at h
  omega

end OverlayPlan

end StarConverter
