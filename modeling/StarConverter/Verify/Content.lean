import StarConverter.Base.Codec
import StarConverter.Hashing
import StarConverter.Preimage
import StarConverter.Verify.Paths

/-!
# The digest of a stream

A stream is hashed extent by extent and chunk by chunk, with zeros from three sources: sparse extents,
what lies beyond the initialized size, and the bytes themselves. Whatever the cuts, the digest of an
extent stream is the digest of its logical content (`streamDigest_ok`), and another cut through the
same image gives the same digest (`streamDigest_file`). Resident bytes are hashed as they are.
-/

namespace StarConverter

open Base

namespace Verify

/-! ## Hashing a stream -/

/-- `ZEROES.len()`. -/
def zeroesLength : ℕ := 64 * 1024

/-- `while length != 0`; a chunk has at least one byte, so `length` rounds are enough. The hasher is
the string of the bytes it was given. -/
def hashZeroesFrom : ℕ → Bytes → ℕ → Bytes
  | 0, hasher, _ => hasher
  | rounds + 1, hasher, length =>
    if length = 0 then hasher
    else
      let take := min length zeroesLength
      hashZeroesFrom rounds (hasher ++ List.replicate take 0) (length - take)

def hashZeroes (hasher : Bytes) (length : ℕ) : Bytes := hashZeroesFrom length hasher length

section Reader

variable (image : BoundedImageReader)

/-- `while length != 0`, as above. -/
def hashPhysicalFrom (chunkBytes : ℕ) : ℕ → Bytes → ℕ → ℕ → Verified Bytes
  | 0, hasher, _, _ => pure hasher
  | rounds + 1, hasher, offset, length =>
    if length = 0 then pure hasher
    else do
      let take := min (min length chunkBytes) image.maxReadBytes
      let chunk ← (image.readExactAt offset take).mapError .image
      let next ← orErr (checkedAdd offset take) (.arithmeticOverflow "verification image offset")
      hashPhysicalFrom chunkBytes rounds (hasher ++ chunk) next (length - take)

def hashPhysical (hasher : Bytes) (offset length chunkBytes : ℕ) : Verified Bytes := do
  ensure (image.maxReadBytes ≠ 0) (.invalidLimit "reader.max_read_bytes")
  hashPhysicalFrom image chunkBytes length hasher offset length

/-- The initialized bytes of an extent. -/
def hashPlacement (hasher : Bytes) (placement : Placement) (initialized chunkBytes : ℕ) :
    Verified Bytes :=
  match placement with
  | .physical byteOffset => hashPhysical image hasher byteOffset initialized chunkBytes
  | .sparse => pure (hashZeroes hasher initialized)

/-- The extents of a stream, one behind the other. -/
def hashExtents (stream : StreamId) (logicalBytes initializedBytes chunkBytes : ℕ) :
    Bytes → ℕ → List Extent → Verified (Bytes × ℕ)
  | hasher, position, [] => pure (hasher, position)
  | hasher, position, extent :: rest =>
    if logicalBytes ≤ position then pure (hasher, position)
    else do
      ensure (extent.logicalOffset = position)
        (.extentCoverageGap stream position extent.logicalOffset)
      let meaningful := min extent.length (logicalBytes - position)
      let initialized := min meaningful (initializedBytes - position)
      let hasher ← hashPlacement image hasher extent.placement initialized chunkBytes
      let next ← orErr (checkedAdd position meaningful) (.arithmeticOverflow "stream hash position")
      hashExtents stream logicalBytes initializedBytes chunkBytes
        (hashZeroes hasher (meaningful - initialized)) next rest

variable (H : Hashing)

def hashExtentStream (stream : StreamId) (logicalBytes initializedBytes : ℕ) (extents : List Extent)
    (chunkBytes : ℕ) : Verified Digest := do
  ensure (¬ (logicalBytes ≠ 0 ∧ extents = [])) (.missingStreamExtents stream)
  let (hasher, position) ← hashExtents image stream logicalBytes initializedBytes chunkBytes [] 0 extents
  ensure (position = logicalBytes) (.extentCoverageGap stream logicalBytes position)
  pure (H.sha256 hasher)

def streamDigest (extents : ExtentGraph) (stream : ObjectStream) (chunkBytes : ℕ) : Verified Digest :=
  match stream.storage with
  | .resident bytes => pure (H.sha256 bytes)
  | .extents => hashExtentStream image H stream.id stream.logicalBytes stream.initializedBytes
      (ObjectGraph.streamExtents extents stream.id) chunkBytes

end Reader

/-! ## Logical content -/

/-- The byte of an image at a place of an extent. -/
def placedByte (content : Bytes) (extent : Extent) (i : ℕ) : UInt8 :=
  match extent.placement with
  | .physical byteOffset => content.getD (byteOffset + (i - extent.logicalOffset)) 0
  | .sparse => 0

/-- The byte stored for a place of a stream: its own resident byte, or the one of the extent that
covers the place. -/
def storedByte (content : Bytes) (extents : ExtentGraph) (stream : ObjectStream) (i : ℕ) : UInt8 :=
  match stream.storage with
  | .resident bytes => bytes.getD i 0
  | .extents =>
    match (ObjectGraph.streamExtents extents stream.id).find? fun extent =>
      extent.logicalOffset ≤ i ∧ i < extent.logicalOffset + extent.length with
    | some extent => placedByte content extent i
    | none => 0

/-- The logical content of a stream: what is stored up to the initialized size, zeros up to the logical
size. -/
def streamContent (content : Bytes) (extents : ExtentGraph) (stream : ObjectStream) : Bytes :=
  (List.range stream.logicalBytes).map fun i =>
    if i < stream.initializedBytes then storedByte content extents stream i else 0

/-- The string whose digest a manifest holds. -/
def hashedContent (content : Bytes) (extents : ExtentGraph) (stream : ObjectStream) : Bytes :=
  match stream.storage with
  | .resident bytes => bytes
  | .extents => streamContent content extents stream

/-- The reader is a view of these bytes. -/
def Shows (image : BoundedImageReader) (content : Bytes) : Prop :=
  ∀ {offset length bytes}, image.readExactAt offset length = .ok bytes →
    sliceAt content offset length = bytes

theorem shows_imageFile {content : Bytes} {maxReadBytes : ℕ} (hpos : 0 < maxReadBytes) :
    Shows (imageFile content maxReadBytes hpos) content := by
  intro offset length bytes h
  exact (Preimage.imageFileRead_ok_iff.1 h).2.2.2.symm

@[simp] theorem length_streamContent (content : Bytes) (extents : ExtentGraph)
    (stream : ObjectStream) : (streamContent content extents stream).length = stream.logicalBytes := by
  rw [streamContent, List.length_map, List.length_range]

/-! ## What is hashed -/

theorem hashZeroesFrom_eq {rounds length : ℕ} (hasher : Bytes) (h : length ≤ rounds) :
    hashZeroesFrom rounds hasher length = hasher ++ List.replicate length 0 := by
  induction rounds generalizing hasher length with
  | zero =>
    obtain rfl : length = 0 := by omega
    simp [hashZeroesFrom]
  | succ rounds ih =>
    rw [hashZeroesFrom]
    split_ifs with h0
    · simp [h0]
    · have htake : 0 < min length zeroesLength := by
        unfold zeroesLength
        omega
      dsimp only
      rw [ih _ (by omega), List.append_assoc, ← List.replicate_add]
      congr 2
      omega

theorem hashZeroes_eq (hasher : Bytes) (length : ℕ) :
    hashZeroes hasher length = hasher ++ List.replicate length 0 := hashZeroesFrom_eq hasher le_rfl

/-- A range of the image that can be read. -/
def Readable (content : Bytes) (offset length : ℕ) : Prop :=
  length = 0 ∨ offset + length < wordBound ∧ offset + length ≤ content.length

theorem sliceAt_split {α : Type} (l : List α) (offset : ℕ) {n length : ℕ} (h : n ≤ length) :
    sliceAt l offset length = sliceAt l offset n ++ sliceAt l (offset + n) (length - n) := by
  obtain ⟨k, rfl⟩ := Nat.exists_eq_add_of_le h
  rw [Nat.add_sub_cancel_left, sliceAt, sliceAt, sliceAt, ← List.drop_drop, List.take_add]

section Cuts

variable {image : BoundedImageReader} {content hasher out : Bytes} {chunkBytes : ℕ}
  (hshow : Shows image content) (hchunk : chunkBytes ≠ 0)

include hshow hchunk

theorem hashPhysicalFrom_ok {rounds offset length : ℕ} (hr : length ≤ rounds)
    (h : hashPhysicalFrom image chunkBytes rounds hasher offset length = .ok out) :
    out = hasher ++ sliceAt content offset length ∧ Readable content offset length := by
  induction rounds generalizing hasher offset length with
  | zero =>
    obtain rfl : length = 0 := by omega
    obtain rfl := Except.ok.inj h
    exact ⟨by simp [sliceAt], Or.inl rfl⟩
  | succ rounds ih =>
    rw [hashPhysicalFrom] at h
    split_ifs at h with h0
    · obtain rfl := Except.ok.inj h
      exact ⟨by simp [h0, sliceAt], Or.inl h0⟩
    · simp only [bind_ok_iff, mapError_ok_iff, orErr_ok_iff, checkedAdd_eq_some] at h
      obtain ⟨chunk, hread, _, ⟨hlt, rfl⟩, h⟩ := h
      have hpos := image.maxReadBytes_pos
      set take := min (min length chunkBytes) image.maxReadBytes with htake
      have hlen := image.length_eq hread
      have hslice := hshow hread
      obtain ⟨rfl, hrest⟩ := ih (by omega) h
      have hin : offset + take ≤ content.length := by
        have hsize := congrArg List.length hslice
        rw [length_sliceAt] at hsize
        omega
      refine ⟨?_, Or.inr ?_⟩
      · rw [← hslice, List.append_assoc, ← sliceAt_split content offset (by omega)]
      · rcases hrest with hzero | ⟨hlt', hle⟩
        · rw [show length = take by omega]
          exact ⟨hlt, hin⟩
        · rw [show offset + length = offset + take + (length - take) by omega]
          exact ⟨hlt', hle⟩

omit hshow

/-- An image file of the same bytes can be read with any cuts. -/
theorem hashPhysicalFrom_file {maxReadBytes : ℕ} (hpos : 0 < maxReadBytes) {rounds offset length : ℕ}
    (hr : length ≤ rounds) (h : Readable content offset length) :
    hashPhysicalFrom (imageFile content maxReadBytes hpos) chunkBytes rounds hasher offset length =
      .ok (hasher ++ sliceAt content offset length) := by
  induction rounds generalizing hasher offset length with
  | zero =>
    obtain rfl : length = 0 := by omega
    simp [hashPhysicalFrom, sliceAt]
  | succ rounds ih =>
    rw [hashPhysicalFrom]
    split_ifs with h0
    · simp [h0, sliceAt]
    · obtain ⟨hlt, hle⟩ := h.resolve_left h0
      have hmax : (imageFile content maxReadBytes hpos).maxReadBytes = maxReadBytes := rfl
      dsimp only
      rw [hmax]
      set take := min (min length chunkBytes) maxReadBytes with htake
      have hread : (imageFile content maxReadBytes hpos).readExactAt offset take =
          .ok (sliceAt content offset take) :=
        Preimage.imageFileRead_ok_iff.2 ⟨by omega, by omega, by omega, rfl⟩
      rw [hread, show (Except.ok (sliceAt content offset take)).mapError VerificationError.image =
        .ok (sliceAt content offset take) from rfl, ok_bind, checkedAdd_of_lt (by omega), orErr_some,
        ok_bind, ih (by omega) (Or.inr ⟨by omega, by omega⟩), List.append_assoc,
        ← sliceAt_split content offset (by omega)]

include hshow

theorem hashPhysical_ok {offset length : ℕ}
    (h : hashPhysical image hasher offset length chunkBytes = .ok out) :
    out = hasher ++ sliceAt content offset length ∧ Readable content offset length := by
  simp only [hashPhysical, bind_ok_iff, ensure_ok_iff, exists_const] at h
  exact hashPhysicalFrom_ok hshow hchunk le_rfl h.2

theorem hashPhysical_file {maxReadBytes chunkBytes' : ℕ} (hpos : 0 < maxReadBytes)
    (hchunk' : chunkBytes' ≠ 0) {offset length : ℕ}
    (h : hashPhysical image hasher offset length chunkBytes = .ok out) :
    hashPhysical (imageFile content maxReadBytes hpos) hasher offset length chunkBytes' = .ok out := by
  obtain ⟨rfl, hreadable⟩ := hashPhysical_ok hshow hchunk h
  rw [hashPhysical, ensure_of (show (imageFile content maxReadBytes hpos).maxReadBytes ≠ 0 from hpos.ne'),
    ok_bind]
  exact hashPhysicalFrom_file hchunk' hpos le_rfl hreadable

theorem hashPlacement_ok {extent : Extent} {initialized : ℕ}
    (h : hashPlacement image hasher extent.placement initialized chunkBytes = .ok out) :
    out = hasher ++ (List.range initialized).map fun j =>
      placedByte content extent (extent.logicalOffset + j) := by
  unfold hashPlacement at h
  cases hp : extent.placement with
  | physical byteOffset =>
    rw [hp] at h
    obtain ⟨rfl, hreadable⟩ := hashPhysical_ok hshow hchunk h
    refine congrArg (hasher ++ ·) (List.ext_getElem? fun j => ?_)
    simp only [getElem?_sliceAt, List.getElem?_map, placedByte, hp, Nat.add_sub_cancel_left]
    split_ifs with hj
    · have hin : byteOffset + j < content.length := by
        rcases hreadable with h0 | ⟨-, hle⟩ <;> omega
      rw [List.getElem?_range hj, Option.map_some, List.getElem?_eq_getElem hin,
        List.getD_eq_getElem?_getD, List.getElem?_eq_getElem hin, Option.getD_some]
    · rw [List.getElem?_eq_none (by rw [List.length_range]; omega), Option.map_none]
  | sparse =>
    rw [hp] at h
    obtain rfl := Except.ok.inj h
    simp only [hashZeroes_eq, placedByte, hp, List.map_const', List.length_range]

theorem hashPlacement_file {maxReadBytes chunkBytes' : ℕ} (hpos : 0 < maxReadBytes)
    (hchunk' : chunkBytes' ≠ 0) {placement : Placement} {initialized : ℕ}
    (h : hashPlacement image hasher placement initialized chunkBytes = .ok out) :
    hashPlacement (imageFile content maxReadBytes hpos) hasher placement initialized chunkBytes' =
      .ok out := by
  cases placement with
  | physical byteOffset => exact hashPhysical_file hshow hchunk hpos hchunk' h
  | sparse => exact h

theorem hashExtents_file {maxReadBytes chunkBytes' : ℕ} (hpos : 0 < maxReadBytes)
    (hchunk' : chunkBytes' ≠ 0) {stream : StreamId} {logicalBytes initializedBytes position : ℕ}
    {extents : List Extent} {r : Bytes × ℕ}
    (h : hashExtents image stream logicalBytes initializedBytes chunkBytes hasher position extents =
      .ok r) :
    hashExtents (imageFile content maxReadBytes hpos) stream logicalBytes initializedBytes chunkBytes'
      hasher position extents = .ok r := by
  induction extents generalizing hasher position with
  | nil => exact h
  | cons extent rest ih =>
    rw [hashExtents] at h ⊢
    split_ifs at h ⊢ with hdone
    · exact h
    · simp only [bind_ok_iff, exists_const, ensure_ok_iff] at h ⊢
      obtain ⟨hgap, placed, hplaced, next, hnext, h⟩ := h
      exact ⟨hgap, placed, hashPlacement_file hshow hchunk hpos hchunk' hplaced, next, hnext, ih h⟩

/-- The bytes up to `position`, then those of the extents behind it. -/
theorem hashExtents_ok {stream : ObjectStream} {extents : ExtentGraph} {position : ℕ}
    {before rest : List Extent} {r : Bytes × ℕ} (hstorage : stream.storage = .extents)
    (hextents : ObjectGraph.streamExtents extents stream.id = before ++ rest)
    (hbefore : position < stream.logicalBytes →
      ∀ e ∈ before, e.logicalOffset + e.length ≤ position)
    (hhasher : hasher = (List.range position).map fun i =>
      if i < stream.initializedBytes then storedByte content extents stream i else 0)
    (h : hashExtents image stream.id stream.logicalBytes stream.initializedBytes chunkBytes hasher
      position rest = .ok r) :
    r.1 = (List.range r.2).map fun i =>
      if i < stream.initializedBytes then storedByte content extents stream i else 0 := by
  induction rest generalizing hasher position before with
  | nil =>
    obtain rfl := Except.ok.inj h
    exact hhasher
  | cons extent rest ih =>
    rw [hashExtents] at h
    split_ifs at h with hdone
    · obtain rfl := Except.ok.inj h
      exact hhasher
    · simp only [bind_ok_iff, exists_const, ensure_ok_iff, orErr_ok_iff, checkedAdd_eq_some] at h
      obtain ⟨rfl, placed, hplaced, _, ⟨-, rfl⟩, h⟩ := h
      set meaningful := min extent.length (stream.logicalBytes - extent.logicalOffset) with hmeaningful
      set initialized := min meaningful (stream.initializedBytes - extent.logicalOffset)
        with hinitialized
      have hstored : ∀ j, j < meaningful → storedByte content extents stream
          (extent.logicalOffset + j) = placedByte content extent (extent.logicalOffset + j) := by
        intro j hj
        have hnone : before.find? (fun e => decide (e.logicalOffset ≤ extent.logicalOffset + j ∧
            extent.logicalOffset + j < e.logicalOffset + e.length)) = none := by
          rw [List.find?_eq_none]
          intro e he hcover
          have := hbefore (by omega) e he
          have := of_decide_eq_true hcover
          omega
        have hcover : decide (extent.logicalOffset ≤ extent.logicalOffset + j ∧
            extent.logicalOffset + j < extent.logicalOffset + extent.length) = true :=
          decide_eq_true ⟨by omega, by omega⟩
        rw [storedByte, hstorage]
        dsimp only
        rw [hextents, List.find?_append, hnone, Option.none_or, List.find?_cons, hcover]
      refine ih (by rw [hextents, List.append_cons]) (fun hlt e he => ?_) ?_ h
      · rcases List.mem_append.1 he with he | he
        · have := hbefore (by omega) e he
          omega
        · rw [List.mem_singleton] at he
          subst he
          omega
      · obtain rfl := hashPlacement_ok hshow hchunk hplaced
        rw [hashZeroes_eq, hhasher, List.range_add, List.map_append, List.append_assoc]
        refine congrArg (_ ++ ·) ?_
        conv_rhs => rw [show meaningful = initialized + (meaningful - initialized) by omega]
        rw [List.range_add, List.map_append, List.map_append, List.map_map, List.map_map,
          List.map_map]
        refine congrArg₂ (· ++ ·) ?_ ?_
        · refine List.map_congr_left fun j hj => ?_
          rw [List.mem_range] at hj
          rw [Function.comp_apply, if_pos (by omega), hstored j (by omega)]
        · refine (List.eq_replicate_iff.2 ⟨by simp, fun b hb => ?_⟩).symm
          obtain ⟨j, hj, rfl⟩ := List.mem_map.1 hb
          rw [List.mem_range] at hj
          rw [Function.comp_apply, Function.comp_apply, if_neg (by omega)]

variable {H : Hashing} {extents : ExtentGraph} {stream : ObjectStream} {digest : Digest}

/-- **Digest.** The digest of a stream is that of the resident bytes or of the logical content. -/
theorem streamDigest_ok (h : streamDigest image H extents stream chunkBytes = .ok digest) :
    digest = H.sha256 (hashedContent content extents stream) := by
  unfold streamDigest at h
  unfold hashedContent
  cases hstorage : stream.storage with
  | resident bytes =>
    rw [hstorage] at h
    exact (Except.ok.inj h).symm
  | extents =>
    rw [hstorage] at h
    simp only [hashExtentStream, bind_ok_iff, exists_const, ensure_ok_iff, pure_eq_ok,
      Except.ok.injEq] at h
    obtain ⟨-, ⟨hasher, position⟩, hhash, rfl, rfl⟩ := h
    have hempty : ([] : Bytes) = (List.range 0).map fun i =>
        if i < stream.initializedBytes then storedByte content extents stream i else 0 := rfl
    have hcontent := hashExtents_ok hshow hchunk hstorage (List.nil_append _).symm (by simp) hempty
      hhash
    exact congrArg H.sha256 hcontent

/-- Another cut through the same bytes gives the same digest. -/
theorem streamDigest_file {maxReadBytes chunkBytes' : ℕ} (hpos : 0 < maxReadBytes)
    (hchunk' : chunkBytes' ≠ 0) (h : streamDigest image H extents stream chunkBytes = .ok digest) :
    streamDigest (imageFile content maxReadBytes hpos) H extents stream chunkBytes' = .ok digest := by
  unfold streamDigest at h ⊢
  cases hstorage : stream.storage with
  | resident bytes =>
    rw [hstorage] at h
    exact h
  | extents =>
    rw [hstorage] at h
    simp only [hashExtentStream, bind_ok_iff, exists_const, ensure_ok_iff] at h ⊢
    obtain ⟨hsome, r, hhash, hend⟩ := h
    exact ⟨hsome, r, hashExtents_file hshow hchunk hpos hchunk' hhash, hend⟩

end Cuts

/-! ## Resident bytes behind the initialized size -/

/-- A resident stream holds zeros behind its initialized size. -/
def ZeroTail (stream : ObjectStream) : Prop :=
  match stream.storage with
  | .resident bytes => AllZero (bytes.drop stream.initializedBytes)
  | .extents => True

instance : DecidablePred ZeroTail := fun stream => by
  unfold ZeroTail
  cases stream.storage <;> infer_instance

/-- What is hashed is the logical content exactly for streams with a zero tail. -/
theorem hashedContent_eq_iff {content : Bytes} {extents : ExtentGraph} {stream : ObjectStream}
    (hlen : ∀ bytes, stream.storage = .resident bytes → bytes.length = stream.logicalBytes) :
    hashedContent content extents stream = streamContent content extents stream ↔
      ZeroTail stream := by
  unfold hashedContent ZeroTail
  cases hstorage : stream.storage with
  | extents => exact iff_of_true rfl trivial
  | resident bytes =>
    have hsize := hlen bytes hstorage
    have hget : ∀ i, i < bytes.length → (streamContent content extents stream)[i]? =
        some (if i < stream.initializedBytes then bytes.getD i 0 else 0) := by
      intro i hi
      rw [streamContent, List.getElem?_map, List.getElem?_range (by omega), Option.map_some,
        storedByte, hstorage]
    dsimp only
    constructor
    · intro h b hb
      obtain ⟨i, hi, rfl⟩ := List.getElem_of_mem hb
      rw [List.length_drop] at hi
      have hsame := hget (stream.initializedBytes + i) (by omega)
      rw [← h, List.getElem?_eq_getElem (by omega), if_neg (by omega)] at hsame
      rw [List.getElem_drop]
      exact Option.some.inj hsame
    · intro h
      refine List.ext_getElem? fun i => ?_
      rcases Nat.lt_or_ge i bytes.length with hi | hi
      · rw [hget i hi, List.getD_eq_getElem?_getD, List.getElem?_eq_getElem hi, Option.getD_some]
        split_ifs with hin
        · rfl
        · refine congrArg some (h _ ?_)
          rw [List.mem_drop_iff_getElem]
          exact ⟨i - stream.initializedBytes, by omega, by congr 1; omega⟩
      · rw [List.getElem?_eq_none hi, List.getElem?_eq_none (by rw [length_streamContent]; omega)]

end Verify

end StarConverter
