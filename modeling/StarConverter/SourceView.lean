import StarConverter.Hashing
import StarConverter.OverlayView

/-!
# Source views

While a conversion is under way its image already holds planned bytes. `VirtualOriginal` reads it with
the before-images put back, and `digestSourceView` hashes what a view shows, chunk by chunk. Both come
down to the content the view shows (`VirtualOriginal.view_shows`, `digestSourceView_ok`).
-/

namespace StarConverter

open Base

structure SourceDigestLimits where
  maxImageBytes : ℕ
  chunkBytes : ℕ
  deriving DecidableEq

structure VirtualOriginalLimits where
  maxWrites : ℕ
  maxMaskedBytes : ℕ
  deriving DecidableEq

inductive SourceViewError
  | invalidLimit (field : String)
  | imageByteLimitExceeded (actual maximum : ℕ)
  | maskWriteLimitExceeded (actual maximum : ℕ)
  | maskedByteLimitExceeded (actual maximum : ℕ)
  | emptyMask (offset : ℕ)
  | maskOutsideImage (offset length imageBytes : ℕ)
  | overlappingMasks (firstOffset secondOffset : ℕ)
  | masksNotOrdered (previousOffset nextOffset : ℕ)
  | shortRead (offset expected actual : ℕ)
  | arithmeticOverflow
  | image (error : ImageError)
  deriving DecidableEq

namespace VirtualOriginal

def validateMaskRange (imageBytes : ℕ) (write : OverlayWrite) : Except SourceViewError Unit := do
  ensure (write.bytes ≠ []) (.emptyMask write.offset)
  let stop ← orErr (checkedAdd write.offset write.bytes.length) .arithmeticOverflow
  ensure (stop ≤ imageBytes) (.maskOutsideImage write.offset write.bytes.length imageBytes)

def validateNonoverlap (writes : List OverlayWrite) : Except SourceViewError Unit :=
  checkPairs (fun first write => do
    ensure (first.offset < write.offset) (.masksNotOrdered first.offset write.offset)
    let firstEnd ← orErr (checkedAdd first.offset first.bytes.length) .arithmeticOverflow
    ensure (firstEnd ≤ write.offset) (.overlappingMasks first.offset write.offset)) writes

def validateRollbackRanges (imageBytes : ℕ) (writes : List OverlayWrite) :
    Except SourceViewError Unit := do
  checkAll (validateMaskRange imageBytes) writes
  validateNonoverlap writes

/-- The checks of `new`. -/
def validate (base : ImageView) (beforeImages : List OverlayWrite) (limits : VirtualOriginalLimits) :
    Except SourceViewError Unit := do
  ensure (limits.maxWrites ≠ 0) (.invalidLimit "max_writes")
  ensure (limits.maxMaskedBytes ≠ 0) (.invalidLimit "max_masked_bytes")
  ensure (beforeImages.length ≤ limits.maxWrites)
    (.maskWriteLimitExceeded beforeImages.length limits.maxWrites)
  validateRollbackRanges base.len beforeImages
  let maskedBytes ← sumChecked .arithmeticOverflow 0 (beforeImages.map fun w => w.bytes.length)
  ensure (maskedBytes ≤ limits.maxMaskedBytes)
    (.maskedByteLimitExceeded maskedBytes limits.maxMaskedBytes)

/-- Copies the masks into the output, up to the first one that starts behind it. -/
def applyMasks (offset stop : ℕ) : List OverlayWrite → Bytes → Except ImageError Bytes
  | [], output => pure output
  | write :: rest, output =>
    if stop ≤ write.offset then pure output
    else do
      let writeEnd ← orErr (checkedAdd write.offset write.bytes.length)
        (.rangeOverflow write.offset write.bytes.length)
      let intersectionStart := max offset write.offset
      let intersectionEnd := min stop writeEnd
      if intersectionEnd ≤ intersectionStart then applyMasks offset stop rest output
      else
        applyMasks offset stop rest
          (overwrite output (intersectionStart - offset)
            (sliceAt write.bytes (intersectionStart - write.offset)
              (intersectionEnd - intersectionStart)))

def readExactAt (base : ImageView) (beforeImages : List OverlayWrite) (offset length : ℕ) :
    Except ImageError Bytes := do
  let stop ← orErr (checkedAdd offset length) (.rangeOverflow offset length)
  let output ← base.readExactAt offset length
  ensure (output.length = length) (.truncated offset length)
  applyMasks offset stop beforeImages output

theorem length_applyMasks {offset stop : ℕ} {writes : List OverlayWrite} {output bytes : Bytes}
    (h : applyMasks offset stop writes output = .ok bytes) : bytes.length = output.length := by
  induction writes generalizing output with
  | nil =>
    obtain rfl : output = bytes := Except.ok.inj h
    rfl
  | cons w rest ih =>
    rw [applyMasks] at h
    split_ifs at h with hstop
    · obtain rfl : output = bytes := Except.ok.inj h
      rfl
    · simp only [bind_ok_iff, orErr_ok_iff, checkedAdd_eq_some] at h
      obtain ⟨_, ⟨-, rfl⟩, h⟩ := h
      split_ifs at h
      · exact ih h
      · rw [ih h, length_overwrite]

/-- A current staged image read through exact, coordinator-selected rollback before-images. -/
def view (base : ImageView) (beforeImages : List OverlayWrite) : ImageView where
  len := base.len
  maxReadBytes := base.maxReadBytes
  readExactAt := readExactAt base beforeImages
  length_eq := by
    intro offset length bytes h
    simp only [readExactAt, bind_ok_iff, exists_const, ensure_ok_iff, orErr_ok_iff] at h
    obtain ⟨_, -, output, -, hlen, h⟩ := h
    rw [length_applyMasks h, hlen]

/-- Checks a prepared rollback set and reads through it. -/
def new (base : ImageView) (beforeImages : List OverlayWrite) (limits : VirtualOriginalLimits) :
    Except SourceViewError ImageView := do
  validate base beforeImages limits
  pure (view base beforeImages)

/-! ## What the view shows -/

theorem validateMaskRange_ok_iff {imageBytes : ℕ} {write : OverlayWrite} {u : Unit} :
    validateMaskRange imageBytes write = .ok u ↔
      write.bytes ≠ [] ∧ write.span.stop < wordBound ∧ write.span.stop ≤ imageBytes := by
  simp only [validateMaskRange, bind_ok_iff, exists_const, ensure_ok_iff, orErr_ok_iff,
    checkedAdd_eq_some]
  constructor
  · rintro ⟨hne, _, ⟨hlt, rfl⟩, hle⟩
    exact ⟨hne, hlt, hle⟩
  · rintro ⟨hne, hlt, hle⟩
    exact ⟨hne, _, ⟨hlt, rfl⟩, hle⟩

theorem validateNonoverlap_ok_iff {writes : List OverlayWrite} {u : Unit}
    (hne : ∀ w ∈ writes, w.bytes ≠ []) (hlt : ∀ w ∈ writes, w.span.stop < wordBound) :
    validateNonoverlap writes = .ok u ↔ Ordered (writes.map Patch.span) := by
  unfold validateNonoverlap Ordered
  rw [checkPairs_ok_iff, List.pairwise_map, ← List.isChain_iff_pairwise]
  constructor
  · intro h
    refine h.imp fun a b hab => ?_
    simp only [bind_ok_iff, exists_const, orErr_ok_iff, checkedAdd_eq_some, ensure_ok_iff] at hab
    obtain ⟨-, _, ⟨-, rfl⟩, hle⟩ := hab
    exact hle
  · intro h
    refine h.imp_of_mem_imp fun a b ha _ hab => ?_
    have hpos := List.length_pos_iff.2 (hne a ha)
    have hle : a.offset + a.bytes.length ≤ b.offset := hab
    simp only [bind_ok_iff, exists_const, orErr_ok_iff, checkedAdd_eq_some, ensure_ok_iff]
    exact ⟨by omega, _, ⟨hlt a ha, rfl⟩, hle⟩

theorem validateRollbackRanges_ok_iff {imageBytes : ℕ} {writes : List OverlayWrite} {u : Unit} :
    validateRollbackRanges imageBytes writes = .ok u ↔ CanonicalWrites imageBytes writes := by
  simp only [validateRollbackRanges, bind_unit_ok_iff, checkAll_ok_iff, validateMaskRange_ok_iff]
  constructor
  · rintro ⟨hv, ho⟩
    have hne := fun w hw => (hv w hw).1
    have hlt := fun w hw => (hv w hw).2.1
    exact ⟨hne, hlt, fun w hw => (hv w hw).2.2, (validateNonoverlap_ok_iff hne hlt).1 ho⟩
  · intro h
    exact ⟨fun w hw => ⟨h.nonempty w hw, h.stop_lt w hw, h.stop_le w hw⟩,
      (validateNonoverlap_ok_iff h.nonempty h.stop_lt).2 h.ordered⟩

/-- What `new` asks of a rollback set. -/
theorem new_ok_iff {base shown : ImageView} {beforeImages : List OverlayWrite}
    {limits : VirtualOriginalLimits} :
    new base beforeImages limits = .ok shown ↔
      limits.maxWrites ≠ 0 ∧ limits.maxMaskedBytes ≠ 0 ∧ beforeImages.length ≤ limits.maxWrites ∧
        CanonicalWrites base.len beforeImages ∧ OverlayPlan.byteCount beforeImages < wordBound ∧
        OverlayPlan.byteCount beforeImages ≤ limits.maxMaskedBytes ∧ shown = view base beforeImages := by
  have hsum : ((beforeImages.map fun w => w.bytes.length).sum) =
      OverlayPlan.byteCount beforeImages := rfl
  simp only [new, validate, bind_ok_iff, exists_const, ensure_ok_iff, pure_eq_ok, Except.ok.injEq,
    sumChecked_ok_iff wordBound_pos, validateRollbackRanges_ok_iff, Nat.zero_add, hsum]
  constructor
  · rintro ⟨⟨h1, h2, h3, h4, _, ⟨h5, rfl⟩, h6⟩, rfl⟩
    exact ⟨h1, h2, h3, h4, h5, h6, rfl⟩
  · rintro ⟨h1, h2, h3, h4, h5, h6, hshown⟩
    exact ⟨⟨h1, h2, h3, h4, _, ⟨h5, rfl⟩, h6⟩, hshown.symm⟩

theorem foldl_applyWithin_of_stop_le {offset stop : ℕ} {writes : List OverlayWrite} {output : Bytes}
    (h : ∀ w ∈ writes, stop ≤ w.offset) :
    writes.foldl (fun window w => w.applyWithin offset stop window) output = output := by
  induction writes with
  | nil => rfl
  | cons w rest ih =>
    rw [List.foldl_cons, Patch.applyWithin_of_stop_le (h w (by simp))]
    exact ih fun v hv => h v (by simp [hv])

/-- Masks in order that start behind a read leave it alone, so the loop may stop at the first. -/
theorem applyMasks_ok {offset stop : ℕ} {writes : List OverlayWrite} {output : Bytes}
    (hlt : ∀ w ∈ writes, w.span.stop < wordBound)
    (hsorted : writes.Pairwise fun a b => a.offset ≤ b.offset) :
    applyMasks offset stop writes output =
      .ok (writes.foldl (fun window w => w.applyWithin offset stop window) output) := by
  induction writes generalizing output with
  | nil => rfl
  | cons w rest ih =>
    obtain ⟨hw, hrest⟩ := List.pairwise_cons.1 hsorted
    have hstop : w.offset + w.bytes.length < wordBound := hlt w (by simp)
    have ih := fun out => @ih out (fun v hv => hlt v (by simp [hv])) hrest
    rw [applyMasks]
    split_ifs with hb
    · rw [foldl_applyWithin_of_stop_le fun v hv => ?_]
      · rfl
      · rcases List.mem_cons.1 hv with rfl | hv
        · exact hb
        · exact hb.trans (hw v hv)
    · rw [checkedAdd_of_lt hstop, orErr_some, ok_bind, List.foldl_cons, Patch.applyWithin]
      dsimp only
      split_ifs
      · exact ih _
      · exact ih _

/-- The view shows the base with the masks applied. -/
theorem view_shows {base : ImageView} {image : Bytes} {beforeImages : List OverlayWrite}
    (hbase : base.Shows image) (himage : image.length < wordBound)
    (h : CanonicalWrites image.length beforeImages) :
    (view base beforeImages).Shows (applyAll beforeImages image) where
  len := by rw [length_applyAll]; exact hbase.len
  read offset length hmax hle := by
    rw [length_applyAll] at hle
    have hstop : offset + length - offset = length := Nat.add_sub_cancel_left offset length
    have hwindow := @sliceAt_applyAll UInt8 beforeImages image offset _ hle
    rw [hstop] at hwindow
    show readExactAt base beforeImages offset length = _
    rw [readExactAt, checkedAdd_of_lt (by omega), orErr_some, ok_bind, hbase.read offset length hmax hle,
      ok_bind, ensure_of (length_sliceAt_of_le hle), ok_bind, hwindow]
    exact applyMasks_ok h.stop_lt h.sorted

end VirtualOriginal

/-! ## The digest of a view -/

def sourceViewDomain : Bytes := ascii "starconverter/source-image-view/v1" ++ [0]

/-- `while offset < image_bytes`; a chunk has at least one byte, so `image_bytes` rounds are enough. The
hasher is the string of the bytes it was given. -/
def hashView (source : ImageView) (chunk : ℕ) : ℕ → Bytes → ℕ → Except SourceViewError Bytes
  | 0, hasher, _ => pure hasher
  | rounds + 1, hasher, offset =>
    if source.len ≤ offset then pure hasher
    else do
      let count := min (source.len - offset) chunk
      let bytes ← (source.readExactAt offset count).mapError .image
      ensure (bytes.length = count) (.shortRead offset count bytes.length)
      let next ← orErr (checkedAdd offset count) .arithmeticOverflow
      hashView source chunk rounds (hasher ++ bytes) next

/-- Hashes every byte of one fixed-size source view using a stable domain and length prefix. -/
def digestSourceView (H : Hashing) (source : ImageView) (limits : SourceDigestLimits) :
    Except SourceViewError Digest := do
  ensure (limits.maxImageBytes ≠ 0) (.invalidLimit "max_image_bytes")
  ensure (limits.chunkBytes ≠ 0) (.invalidLimit "chunk_bytes")
  ensure (source.len ≤ limits.maxImageBytes) (.imageByteLimitExceeded source.len limits.maxImageBytes)
  ensure (min limits.chunkBytes source.maxReadBytes ≠ 0) (.invalidLimit "reader max_read_bytes")
  let hasher ← hashView source (min limits.chunkBytes source.maxReadBytes) source.len
    (sourceViewDomain ++ toLe 8 source.len) 0
  pure (H.sha256 hasher)

theorem hashView_ok {source : ImageView} {content hasher : Bytes} {chunk rounds offset : ℕ}
    (h : source.Shows content) (hcontent : content.length < wordBound) (hchunk : 0 < chunk)
    (hmax : chunk ≤ source.maxReadBytes) (hrounds : content.length ≤ offset + rounds) :
    hashView source chunk rounds hasher offset = .ok (hasher ++ content.drop offset) := by
  induction rounds generalizing hasher offset with
  | zero => rw [hashView, List.drop_eq_nil_of_le (by omega), List.append_nil, pure_eq_ok]
  | succ rounds ih =>
    rw [hashView, h.len]
    split_ifs with hle
    · rw [List.drop_eq_nil_of_le hle, List.append_nil, pure_eq_ok]
    · have hcount : offset + min (content.length - offset) chunk ≤ content.length := by omega
      dsimp only
      rw [h.read offset _ (by omega) hcount]
      show (do
        ensure ((sliceAt content offset (min (content.length - offset) chunk)).length = _) _
        _) = _
      rw [ensure_of (length_sliceAt_of_le hcount), ok_bind, checkedAdd_of_lt (by omega), orErr_some,
        ok_bind, ih (by omega), List.append_assoc, sliceAt, ← List.drop_drop, List.take_append_drop]

/-- **The digest of a view** is one of its content, whatever the chunks. -/
theorem digestSourceView_ok {H : Hashing} {source : ImageView} {content : Bytes}
    {limits : SourceDigestLimits} (h : source.Shows content) (hcontent : content.length < wordBound)
    (hread : source.maxReadBytes ≠ 0) (hmax : limits.maxImageBytes ≠ 0)
    (hchunk : limits.chunkBytes ≠ 0) (hle : content.length ≤ limits.maxImageBytes) :
    digestSourceView H source limits =
      .ok (H.sha256 (sourceViewDomain ++ toLe 8 content.length ++ content)) := by
  have hmin : min limits.chunkBytes source.maxReadBytes ≠ 0 := by omega
  rw [digestSourceView, ensure_of hmax, ok_bind, ensure_of hchunk, ok_bind, h.len, ensure_of hle,
    ok_bind, ensure_of hmin, ok_bind, hashView_ok h hcontent (by omega) (by omega) (by omega), ok_bind,
    List.drop_zero]
  rfl

/-! ## The readers agree -/

/-- **Reads of a candidate are reads of the patched image.** The plan of accepted writes is the same in
whatever order they come; its own reads, its reader, and the virtual original over its ordered writes
return the bytes of the base image with all writes applied; and a view of these bytes gives them back
over any cut into pieces, so that its digest does not depend on the chunks. -/
theorem OverlayPlan.reads_patched {image : Bytes} {sectorBytes : ℕ} {writes : List OverlayWrite}
    {limits : OverlayLimits} {plan : OverlayPlan} (himage : image.length < wordBound)
    (hplan : OverlayPlan.build image.length sectorBytes writes limits = .ok plan) :
    (∀ other : List OverlayWrite, other.Perm writes →
      OverlayPlan.build image.length sectorBytes other limits = .ok plan) ∧
    (∀ base : ImageView, base.Shows image →
      (∀ offset length, length ≤ base.maxReadBytes → length ≤ limits.maxReadBytes →
        offset + length ≤ image.length →
        plan.readExactAt base offset length =
          .ok (sliceAt (applyAll writes image) offset length)) ∧
      (∃ view, plan.reader base = .ok view ∧
        view.maxReadBytes = min base.maxReadBytes limits.maxReadBytes ∧
        view.Shows (applyAll writes image)) ∧
      (∀ masks : VirtualOriginalLimits, masks.maxWrites ≠ 0 → masks.maxMaskedBytes ≠ 0 →
        plan.writes.length ≤ masks.maxWrites → byteCount plan.writes ≤ masks.maxMaskedBytes →
        ∃ view, VirtualOriginal.new base plan.writes masks = .ok view ∧
          view.maxReadBytes = base.maxReadBytes ∧ view.Shows (applyAll writes image))) ∧
    (∀ view : ImageView, view.Shows (applyAll writes image) →
      (∀ lengths : List ℕ, (∀ length ∈ lengths, length ≤ view.maxReadBytes) →
        lengths.sum = image.length → view.readPieces 0 lengths = .ok (applyAll writes image)) ∧
      (∀ (H : Hashing) (digest : SourceDigestLimits), view.maxReadBytes ≠ 0 →
        digest.maxImageBytes ≠ 0 → digest.chunkBytes ≠ 0 → image.length ≤ digest.maxImageBytes →
        digestSourceView H view digest =
          .ok (H.sha256 (sourceViewDomain ++ toLe 8 image.length ++ applyAll writes image)))) := by
  obtain ⟨hlen, -, hwrites, hmax⟩ := build_ok hplan
  have hpatched : applyAll plan.writes image = applyAll writes image :=
    applyAll_perm (hwrites ▸ sortByKey_perm _ _) plan.disjoint
  refine ⟨fun other hperm => build_perm hperm hplan, fun base hbase => ⟨?_, ?_, ?_⟩,
    fun view hview => ⟨?_, ?_⟩⟩
  · intro offset length hcap hlimit hle
    rw [← hpatched]
    exact readExactAt_ok hbase hlen himage hcap (hlimit.trans_eq hmax.symm) hle
  · refine ⟨plan.overlayReader base, ?_, ?_, ?_⟩
    · rw [reader, ensure_of (hbase.len.trans hlen.symm), ok_bind]
      rfl
    · rw [← hmax]
      rfl
    · rw [← hpatched]
      exact overlayReader_shows hbase hlen himage
  · intro masks h1 h2 h3 h4
    have hcanonical : CanonicalWrites image.length plan.writes := hlen ▸ plan.canonicalWrites
    refine ⟨VirtualOriginal.view base plan.writes, ?_, rfl, ?_⟩
    · refine VirtualOriginal.new_ok_iff.2 ⟨h1, h2, h3, ?_, plan.replacement_lt, h4, rfl⟩
      rw [hbase.len]
      exact hcanonical
    · rw [← hpatched]
      exact VirtualOriginal.view_shows hbase himage hcanonical
  · intro lengths hcap hsum
    have hlength : (applyAll writes image).length = image.length := length_applyAll _ _
    rw [hview.readPieces hcap (by omega), hsum, ← hlength, sliceAt_zero_length]
  · intro H digest hread h1 h2 hle
    have hlength : (applyAll writes image).length = image.length := length_applyAll _ _
    rw [← hlength] at hle himage ⊢
    exact digestSourceView_ok hview himage hread h1 h2 hle

/-- A read that takes the end of one replacement and an untouched byte. -/
theorem reads_patched_middle : ∃ plan,
    OverlayPlan.build 4 1 [⟨2, [9]⟩, ⟨0, [7, 8]⟩] ⟨4, 8, 2⟩ = .ok plan ∧
      plan.readExactAt (ImageView.ofFile [1, 2, 3, 4] 2 (by decide)) 1 2 = .ok [8, 9] := by
  obtain ⟨plan, hplan⟩ : ∃ plan,
      OverlayPlan.build 4 1 [⟨2, [9]⟩, ⟨0, [7, 8]⟩] ⟨4, 8, 2⟩ = .ok plan :=
    ⟨_, eq_okValue (by decide +kernel)⟩
  have hshows : (ImageView.ofFile [1, 2, 3, 4] 2 (by decide)).Shows [1, 2, 3, 4] :=
    ImageView.ofFile_shows (by decide)
  have hread := ((@OverlayPlan.reads_patched [1, 2, 3, 4] 1 _ _ plan (by decide) hplan).2.1 _
    hshows).1 1 2 (by decide) (by decide) (by decide)
  exact ⟨plan, hplan, hread⟩

end StarConverter
