import StarConverter.Image
import StarConverter.Overlay

/-!
# Reading through an overlay

A candidate image is never written before it is checked: its readers take the bytes of the base image
and copy in the replacements that reach into the read. `ImageView.Shows` says what a view is for; the
readers of an overlay plan show the base image with the writes applied (`overlayReader_shows`).
-/

namespace StarConverter

open Base

/-- A fixed-size image view. A read that succeeds returns as many bytes as were asked for. -/
structure ImageView where
  len : ℕ
  maxReadBytes : ℕ
  readExactAt : ℕ → ℕ → Except ImageError Bytes
  length_eq {offset length : ℕ} {bytes : Bytes} :
    readExactAt offset length = .ok bytes → bytes.length = length

namespace ImageView

/-- The view has the length of `content`, and its reads within the cap return the bytes of
`content`. -/
structure Shows (view : ImageView) (content : Bytes) : Prop where
  len : view.len = content.length
  read : ∀ offset length, length ≤ view.maxReadBytes → offset + length ≤ content.length →
    view.readExactAt offset length = .ok (sliceAt content offset length)

/-- An image file that holds the given bytes. -/
def ofFile (image : Bytes) (maxReadBytes : ℕ) (hpos : 0 < maxReadBytes) : ImageView where
  len := image.length
  maxReadBytes := maxReadBytes
  readExactAt := imageFileRead image maxReadBytes
  length_eq := (imageFile image maxReadBytes hpos).length_eq

theorem ofFile_shows {image : Bytes} {maxReadBytes : ℕ} {hpos : 0 < maxReadBytes}
    (himage : image.length < wordBound) : (ofFile image maxReadBytes hpos).Shows image where
  len := rfl
  read offset length hmax hle := by
    have hmax : length ≤ maxReadBytes := hmax
    show imageFileRead image maxReadBytes offset length = _
    rw [imageFileRead, checkedAdd_of_lt (by omega), orErr_some, ok_bind, ensure_of hmax, ok_bind,
      ensure_of hle, ok_bind]
    rfl

/-- Reads consecutive pieces of the given lengths and puts them together. -/
def readPieces (view : ImageView) : ℕ → List ℕ → Except ImageError Bytes
  | _, [] => pure []
  | offset, length :: rest => do
    let piece ← view.readExactAt offset length
    let others ← readPieces view (offset + length) rest
    pure (piece ++ others)

/-- However a stretch of a view is cut into pieces, their reads are its bytes. -/
theorem Shows.readPieces {view : ImageView} {content : Bytes} (h : view.Shows content)
    {offset : ℕ} {lengths : List ℕ} (hcap : ∀ length ∈ lengths, length ≤ view.maxReadBytes)
    (hle : offset + lengths.sum ≤ content.length) :
    view.readPieces offset lengths = .ok (sliceAt content offset lengths.sum) := by
  induction lengths generalizing offset with
  | nil => simp [ImageView.readPieces, sliceAt]
  | cons length rest ih =>
    rw [List.sum_cons] at hle
    rw [ImageView.readPieces, h.read offset length (hcap _ (by simp)) (by omega), ok_bind,
      ih (fun n hn => hcap n (by simp [hn])) (by omega), ok_bind, List.sum_cons, pure_eq_ok,
      sliceAt_add]

end ImageView

/-- Writes that are nonempty, inside the image, in order and apart. -/
structure CanonicalWrites (imageBytes : ℕ) (writes : List OverlayWrite) : Prop where
  nonempty : ∀ w ∈ writes, w.bytes ≠ []
  stop_lt : ∀ w ∈ writes, w.span.stop < wordBound
  stop_le : ∀ w ∈ writes, w.span.stop ≤ imageBytes
  ordered : Ordered (writes.map Patch.span)

theorem CanonicalWrites.sorted {imageBytes : ℕ} {writes : List OverlayWrite}
    (h : CanonicalWrites imageBytes writes) : writes.Pairwise fun a b => a.offset ≤ b.offset := by
  refine (List.pairwise_map.1 h.ordered).imp fun {a b} hab => ?_
  have hab : a.offset + a.bytes.length ≤ b.offset := hab
  omega

namespace OverlayPlan

/-- What reading through an overlay refuses. -/
inductive ReadError
  | imageLengthChanged (expected actual : ℕ)
  | readLimitExceeded (actual maximum : ℕ)
  | readOutsideImage (offset length imageBytes : ℕ)
  | arithmeticOverflow
  | image (error : ImageError)
  deriving DecidableEq

/-- Copies into the output, which holds the bytes between `offset` and `stop`, the replacements that
reach into it. -/
def applyIntersections (offset stop : ℕ) : List OverlayWrite → Bytes → Except ReadError Bytes
  | [], output => pure output
  | write :: rest, output => do
    let writeEnd ← orErr (checkedAdd write.offset write.bytes.length) .arithmeticOverflow
    let intersectionStart := max offset write.offset
    let intersectionEnd := min stop writeEnd
    if intersectionEnd ≤ intersectionStart then applyIntersections offset stop rest output
    else
      applyIntersections offset stop rest
        (overwrite output (intersectionStart - offset)
          (sliceAt write.bytes (intersectionStart - write.offset)
            (intersectionEnd - intersectionStart)))

variable (plan : OverlayPlan)

/-- Reads candidate bytes by copying the base image, then applying intersecting replacements. -/
def readExactAt (image : ImageView) (offset length : ℕ) : Except ReadError Bytes := do
  ensure (image.len = plan.imageBytes) (.imageLengthChanged plan.imageBytes image.len)
  ensure (length ≤ plan.maxReadBytes) (.readLimitExceeded length plan.maxReadBytes)
  let stop ← orErr (checkedAdd offset length) .arithmeticOverflow
  ensure (stop ≤ plan.imageBytes) (.readOutsideImage offset length plan.imageBytes)
  let output ← (image.readExactAt offset length).mapError .image
  applyIntersections offset stop plan.writes output

theorem applyIntersections_ok {offset stop : ℕ} {writes : List OverlayWrite} {output : Bytes}
    (hw : ∀ w ∈ writes, w.span.stop < wordBound) :
    applyIntersections offset stop writes output =
      .ok (writes.foldl (fun window w => w.applyWithin offset stop window) output) := by
  induction writes generalizing output with
  | nil => rfl
  | cons w rest ih =>
    have hstop : w.offset + w.bytes.length < wordBound := hw w (by simp)
    have ih := fun out => @ih out fun v hv => hw v (by simp [hv])
    rw [applyIntersections, checkedAdd_of_lt hstop, orErr_some, ok_bind, List.foldl_cons,
      Patch.applyWithin]
    dsimp only
    split_ifs
    · exact ih _
    · exact ih _

/-- The errors of a reader that stands for an image. -/
def readerError (offset length : ℕ) : ReadError → ImageError
  | .arithmeticOverflow => .rangeOverflow offset length
  | _ => .sourceChanged

def readerRead (base : ImageView) (offset length : ℕ) : Except ImageError Bytes := do
  ensure (base.len = plan.imageBytes) .sourceChanged
  ensure (length ≤ min base.maxReadBytes plan.maxReadBytes)
    (.readTooLarge length (min base.maxReadBytes plan.maxReadBytes))
  let stop ← orErr (checkedAdd offset length) (.rangeOverflow offset length)
  ensure (stop ≤ plan.imageBytes) (.outOfRange offset length plan.imageBytes)
  let output ← base.readExactAt offset length
  (applyIntersections offset stop plan.writes output).mapError (readerError offset length)

theorem length_foldl_applyWithin {offset stop : ℕ} {writes : List OverlayWrite} {output : Bytes} :
    (writes.foldl (fun window w => w.applyWithin offset stop window) output).length =
      output.length := by
  induction writes generalizing output with
  | nil => rfl
  | cons w rest ih => rw [List.foldl_cons, ih, Patch.length_applyWithin]

theorem writes_stop_lt {w : OverlayWrite} (hw : w ∈ plan.writes) : w.span.stop < wordBound :=
  (plan.valid w hw).stop_lt

theorem readerRead_length {base : ImageView} {offset length : ℕ} {bytes : Bytes}
    (h : plan.readerRead base offset length = .ok bytes) : bytes.length = length := by
  simp only [readerRead, bind_ok_iff, exists_const, ensure_ok_iff, orErr_ok_iff,
    checkedAdd_eq_some, mapError_ok_iff, applyIntersections_ok fun w hw => plan.writes_stop_lt hw,
    Except.ok.injEq] at h
  obtain ⟨-, -, _, ⟨-, rfl⟩, -, output, hout, rfl⟩ := h
  rw [length_foldl_applyWithin]
  exact base.length_eq hout

/-- The candidate image, as `OverlayReader` reads it. -/
def overlayReader (base : ImageView) : ImageView where
  len := plan.imageBytes
  maxReadBytes := min base.maxReadBytes plan.maxReadBytes
  readExactAt := plan.readerRead base
  length_eq := plan.readerRead_length

/-- Creates a bounded candidate reader after binding this plan to an equal-length base image. -/
def reader (base : ImageView) : Except ReadError ImageView := do
  ensure (base.len = plan.imageBytes) (.imageLengthChanged plan.imageBytes base.len)
  pure (plan.overlayReader base)

section Shown

variable {plan} {base : ImageView} {image : Bytes} (hbase : base.Shows image)
  (hlen : plan.imageBytes = image.length) (himage : image.length < wordBound)

include hbase hlen himage

theorem readExactAt_ok {offset length : ℕ} (hcap : length ≤ base.maxReadBytes)
    (hmax : length ≤ plan.maxReadBytes) (hle : offset + length ≤ image.length) :
    plan.readExactAt base offset length = .ok (sliceAt (applyAll plan.writes image) offset length) := by
  have hstop : offset + length - offset = length := Nat.add_sub_cancel_left offset length
  have hwindow := @sliceAt_applyAll UInt8 plan.writes image offset _ hle
  rw [hstop] at hwindow
  rw [readExactAt, ensure_of (hbase.len.trans hlen.symm), ok_bind, ensure_of hmax, ok_bind,
    checkedAdd_of_lt (by omega), orErr_some, ok_bind, ensure_of (by omega), ok_bind,
    hbase.read offset length hcap hle, hwindow]
  exact applyIntersections_ok fun w hw => plan.writes_stop_lt hw

/-- The overlay reader shows the image with the writes applied. -/
theorem overlayReader_shows : (plan.overlayReader base).Shows (applyAll plan.writes image) where
  len := by rw [length_applyAll]; exact hlen
  read offset length hmax hle := by
    rw [length_applyAll] at hle
    have hmax : length ≤ min base.maxReadBytes plan.maxReadBytes := hmax
    have hstop : offset + length - offset = length := Nat.add_sub_cancel_left offset length
    have hwindow := @sliceAt_applyAll UInt8 plan.writes image offset _ hle
    rw [hstop] at hwindow
    show plan.readerRead base offset length = _
    rw [readerRead, ensure_of (hbase.len.trans hlen.symm), ok_bind, ensure_of hmax, ok_bind,
      checkedAdd_of_lt (by omega), orErr_some, ok_bind, ensure_of (by omega), ok_bind,
      hbase.read offset length (by omega) hle, hwindow, ok_bind,
      applyIntersections_ok fun w hw => plan.writes_stop_lt hw]
    rfl

end Shown

/-! ## The order of the writes -/

theorem canonicalWrites : CanonicalWrites plan.imageBytes plan.writes where
  nonempty w hw := List.length_pos_iff.1 (plan.valid w hw).nonempty
  stop_lt w hw := (plan.valid w hw).stop_lt
  stop_le w hw := (plan.valid w hw).stop_le
  ordered := plan.ordered

/-- Accepted writes start at different places. -/
theorem Buildable.eq_of_offset {imageBytes sectorBytes : ℕ} {writes : List OverlayWrite}
    (h : Buildable imageBytes sectorBytes writes) {a b : OverlayWrite} (ha : a ∈ writes)
    (hb : b ∈ writes) (hab : a.offset = b.offset) : a = b := by
  by_contra hne
  have hsymm : Std.Symm fun a b : OverlayWrite => a.span.Disjoint b.span := ⟨fun _ _ h => h.symm⟩
  have hpair := List.pairwise_map.1 h.ordered.disjoint
  have hd := hpair.forall (mem_sortByKey.2 ha) (mem_sortByKey.2 hb) hne
  have h1 := (h.valid a ha).nonempty
  have h2 := (h.valid b hb).nonempty
  exact hd a.offset (Patch.mem_span.2 ⟨le_rfl, by omega⟩) (Patch.mem_span.2 ⟨hab.ge, by omega⟩)

/-- A plan does not depend on the order its writes were given in. -/
theorem build_perm {imageBytes sectorBytes : ℕ} {writes other : List OverlayWrite}
    {limits : OverlayLimits} {plan : OverlayPlan} (hperm : other.Perm writes)
    (h : build imageBytes sectorBytes writes limits = .ok plan) :
    build imageBytes sectorBytes other limits = .ok plan := by
  unfold build at h ⊢
  split at h
  · cases h
  · rename_i n hn
    obtain rfl := Except.ok.inj h
    obtain ⟨hbuild, hbytes⟩ := checkWrites_ok hn
    have hsort : sortByKey Patch.offset other = sortByKey Patch.offset writes :=
      (sortedBy_sortByKey _ _).eq (sortedBy_sortByKey _ _) hperm
        fun a ha b hb hab => hbuild.eq_of_offset ha hb hab
    have hn' : checkWrites imageBytes sectorBytes other limits = .ok n := by
      simp only [checkWrites, bind_ok_iff, exists_const, ensure_ok_iff, pure_eq_ok,
        Except.ok.injEq, validateWrites_ok_iff wordBound_pos, Nat.zero_add] at hn ⊢
      obtain ⟨_, hlimits, hsector, hcount, total, ⟨hvalid, hlt, rfl⟩, hmax, _, ho, rfl⟩ := hn
      rw [hperm.length_eq, hsort, byteCount_perm hperm]
      exact ⟨_, hlimits, hsector, hcount, _, ⟨fun w hw => hvalid w (hperm.mem_iff.1 hw), hlt, rfl⟩,
        hmax, _, ho, rfl⟩
    split
    · rename_i e he
      rw [hn'] at he
      cases he
    · rename_i k hk
      obtain rfl : k = n := Except.ok.inj (hk.symm.trans hn')
      rw [Except.ok.injEq, OverlayPlan.mk.injEq]
      exact ⟨rfl, rfl, hsort, rfl, rfl⟩

end OverlayPlan

end StarConverter
