import StarConverter.Base.Canonical
import StarConverter.Verify.Content

/-!
# Manifests

The evidence for a graph: one record for each object, in an order that forgets identities and the order
of the graph. What is hashed of the records determines them (`metadataBytes_injective`), and every
record says of its object the kind, the semantics, all root paths and the digest of every stream
(`buildManifest_ok`).
-/

namespace StarConverter

open Base

namespace Verify

/-- Resource bounds of one manifest. -/
structure VerificationLimits where
  maxObjects : ℕ
  maxPaths : ℕ
  maxStreams : ℕ
  maxTotalLogicalBytes : ℕ
  readChunkBytes : ℕ

/-- Content evidence for one unnamed or named stream. -/
structure StreamManifest where
  name : Option (List UInt16)
  logicalBytes : ℕ
  initializedBytes : ℕ
  mappedBytes : ℕ
  allocatedBytes : ℕ
  flags : StreamFlags
  sha256 : Digest
  deriving DecidableEq

/-- Evidence for one object and every path to it. -/
structure ObjectManifest where
  kind : ObjectKind
  semantics : ObjectSemantics
  paths : List Utf16Path
  streams : List StreamManifest
  deriving DecidableEq

structure VerificationManifest where
  objects : List ObjectManifest
  metadataSha256 : Digest
  logicalBytesHashed : ℕ
  deriving DecidableEq

/-- Exact equality of metadata and logical content. -/
def VerificationManifest.equivalentTo (manifest other : VerificationManifest) : Prop :=
  manifest.metadataSha256 = other.metadataSha256 ∧ manifest.objects = other.objects

instance (manifest other : VerificationManifest) : Decidable (manifest.equivalentTo other) :=
  inferInstanceAs (Decidable (_ ∧ _))

/-! ## The orders -/

def unitsKey (units : List UInt16) : List ℕ := units.map UInt16.toNat

def pathKey (path : Utf16Path) : List (List ℕ) := path.map unitsKey

abbrev FlagsKey := Bool ×ₗ Bool ×ₗ Bool ×ₗ ℕ

def flagsKey (flags : StreamFlags) : FlagsKey :=
  toLex (flags.sparse, toLex (flags.compressed, toLex (flags.encrypted, flags.compressionBlockBytes)))

abbrev StreamKey := WithBot (List ℕ) ×ₗ ℕ ×ₗ ℕ ×ₗ ℕ ×ₗ ℕ ×ₗ FlagsKey ×ₗ List ℕ

/-- The derived order of `StreamManifest`: its fields one after the other, no name before all names. -/
def streamKey (stream : StreamManifest) : StreamKey :=
  toLex (stream.name.map unitsKey, toLex (stream.logicalBytes, toLex (stream.initializedBytes,
    toLex (stream.mappedBytes, toLex (stream.allocatedBytes, toLex (flagsKey stream.flags,
      stream.sha256.1.map UInt8.toNat))))))

def kindKey : ObjectKind → ℕ
  | .file => 0
  | .directory => 1

abbrev ObjectKey := ℕ ×ₗ (Bool ×ₗ Bool) ×ₗ List (List (List ℕ)) ×ₗ List StreamKey

/-- The derived order of `ObjectManifest`. -/
def objectKey (object : ObjectManifest) : ObjectKey :=
  toLex (kindKey object.kind, toLex (toLex (object.semantics.hasSecurityDescriptor,
    object.semantics.isReparsePoint), toLex (object.paths.map pathKey, object.streams.map streamKey)))

/-! ## The hashed metadata -/

def boolByte (value : Bool) : UInt8 := if value = true then 1 else 0

/-- UTF-16 units behind their number. -/
def encodeUnits : List UInt16 → Bytes := encodeList fun unit => toLe 2 unit.toNat

def encodeName : Option (List UInt16) → Bytes
  | none => [0]
  | some name => [1] ++ encodeUnits name

def encodeStream (stream : StreamManifest) : Bytes :=
  encodeName stream.name ++ toLe 8 stream.logicalBytes ++ toLe 8 stream.initializedBytes ++
    toLe 8 stream.mappedBytes ++ toLe 8 stream.allocatedBytes ++
    [boolByte stream.flags.sparse, boolByte stream.flags.compressed, boolByte stream.flags.encrypted] ++
    toLe 8 stream.flags.compressionBlockBytes ++ stream.sha256.1

def encodeObject (object : ObjectManifest) : Bytes :=
  [UInt8.ofNat (kindKey object.kind)] ++ [boolByte object.semantics.hasSecurityDescriptor,
    boolByte object.semantics.isReparsePoint] ++ encodeList (encodeList encodeUnits) object.paths ++
    encodeList encodeStream object.streams

/-- The bytes `hash_metadata` gives to the hasher. -/
def metadataBytes (objects : List ObjectManifest) : Bytes := encodeList encodeObject objects

section Build

variable (H : Hashing)

def hashMetadata (objects : List ObjectManifest) : Digest := H.sha256 (metadataBytes objects)

/-! ## Building a manifest -/

def validateLimits (limits : VerificationLimits) : Verified Unit :=
  checkAll (fun field => ensure (field.2 ≠ 0) (.invalidLimit field.1))
    [("max_objects", limits.maxObjects), ("max_paths", limits.maxPaths),
      ("max_streams", limits.maxStreams), ("read_chunk_bytes", limits.readChunkBytes),
      ("max_total_logical_bytes", limits.maxTotalLogicalBytes)]

/-- Encoded extents are not the logical bytes of their stream. -/
def validateExtentStreamEncodings (graph : ObjectGraph) : Verified Unit :=
  checkAll (fun stream => ensure (¬ (stream.storage = .extents ∧ (stream.flags.compressed = true ∨
      stream.flags.encrypted = true ∨ stream.flags.compressionBlockBytes ≠ 0)))
    (.extentStreamRequiresDecoding stream.id
      (stream.flags.compressed || decide (stream.flags.compressionBlockBytes ≠ 0))
      stream.flags.encrypted)) (ObjectGraph.allStreams graph.objects)

variable (image : BoundedImageReader) (extents : ExtentGraph) (limits : VerificationLimits)

/-- The streams of one object; the totals are the numbers of streams and of logical bytes so far. -/
def manifestStreams : ℕ × ℕ → List ObjectStream → Verified (List StreamManifest × ℕ × ℕ)
  | totals, [] => pure ([], totals)
  | (streamCount, logicalBytesHashed), stream :: rest => do
    let streamCount ← orErr (checkedAdd streamCount 1) (.arithmeticOverflow "stream count")
    ensure (streamCount ≤ limits.maxStreams) (.streamLimitExceeded limits.maxStreams)
    let logicalBytesHashed ← orErr (checkedAdd logicalBytesHashed stream.logicalBytes)
      (.arithmeticOverflow "logical byte total")
    ensure (logicalBytesHashed ≤ limits.maxTotalLogicalBytes)
      (.logicalByteLimitExceeded logicalBytesHashed limits.maxTotalLogicalBytes)
    let digest ← streamDigest image H extents stream limits.readChunkBytes
    let (streams, totals) ← manifestStreams (streamCount, logicalBytesHashed) rest
    pure (⟨stream.name, stream.logicalBytes, stream.initializedBytes, stream.mappedBytes,
      stream.allocatedBytes, stream.flags, digest⟩ :: streams, totals)

def manifestObjects (paths : Paths) :
    ℕ × ℕ → List ObjectRecord → Verified (List ObjectManifest × ℕ × ℕ)
  | totals, [] => pure ([], totals)
  | totals, object :: rest => do
    ensure (paths object.id ≠ []) (.missingObjectPath object.id)
    let (streams, totals) ← manifestStreams H image extents limits totals object.streams
    let (objects, totals) ← manifestObjects paths totals rest
    pure (⟨object.kind, object.semantics, sortByKey pathKey (paths object.id),
      sortByKey streamKey streams⟩ :: objects, totals)

/-- `build_manifest_with_reader`. -/
def buildManifest (graph : ObjectGraph) : Verified VerificationManifest := do
  validateLimits limits
  ensure (graph.objects.length ≤ limits.maxObjects)
    (.objectLimitExceeded graph.objects.length limits.maxObjects)
  validateExtentStreamEncodings graph
  let paths ← enumeratePaths graph limits.maxPaths
  let (objects, totals) ← manifestObjects H image graph.extents limits paths (0, 0) graph.objects
  let objects := sortByKey objectKey objects
  pure ⟨objects, hashMetadata H objects, totals.2⟩

end Build

/-! ## The keys and the encoding determine a record -/

theorem unitsKey_injective : Function.Injective unitsKey :=
  List.map_injective_iff.2 fun _ _ h => UInt16.toNat.inj h

theorem pathKey_injective : Function.Injective pathKey := List.map_injective_iff.2 unitsKey_injective

theorem flagsKey_injective : Function.Injective flagsKey := by
  rintro ⟨sparse, compressed, encrypted, block⟩ ⟨sparse', compressed', encrypted', block'⟩ h
  simp only [flagsKey, toLex_inj, Prod.mk.injEq] at h
  simp only [StreamFlags.mk.injEq]
  exact h

theorem digestKey_injective : Function.Injective fun digest : Digest => digest.1.map UInt8.toNat :=
  fun _ _ h => Subtype.ext (List.map_injective_iff.2 (fun _ _ h => UInt8.toNat.inj h) h)

theorem streamKey_injective : Function.Injective streamKey := by
  rintro ⟨name, logical, initialized, mapped, allocated, flags, digest⟩
    ⟨name', logical', initialized', mapped', allocated', flags', digest'⟩ h
  obtain ⟨hname, h⟩ := Prod.mk.inj (toLex.injective h)
  obtain ⟨rfl, h⟩ := Prod.mk.inj (toLex.injective h)
  obtain ⟨rfl, h⟩ := Prod.mk.inj (toLex.injective h)
  obtain ⟨rfl, h⟩ := Prod.mk.inj (toLex.injective h)
  obtain ⟨rfl, h⟩ := Prod.mk.inj (toLex.injective h)
  obtain ⟨hflags, hdigest⟩ := Prod.mk.inj (toLex.injective h)
  obtain rfl : name = name' := Option.map_injective unitsKey_injective hname
  obtain rfl := flagsKey_injective hflags
  obtain rfl := digestKey_injective hdigest
  rfl

theorem kindKey_injective : Function.Injective kindKey := by
  intro k k' h
  cases k <;> cases k' <;> first | rfl | cases h

theorem objectKey_injective : Function.Injective objectKey := by
  rintro ⟨kind, ⟨secured, reparse⟩, paths, streams⟩ ⟨kind', ⟨secured', reparse'⟩, paths', streams'⟩ h
  simp only [objectKey, toLex_inj, Prod.mk.injEq] at h
  obtain ⟨hkind, ⟨rfl, rfl⟩, hpaths, hstreams⟩ := h
  obtain rfl := kindKey_injective hkind
  obtain rfl := List.map_injective_iff.2 pathKey_injective hpaths
  obtain rfl := List.map_injective_iff.2 streamKey_injective hstreams
  rfl

/-- A record whose numbers fit the widths of the source's integers. -/
structure StreamManifest.Fits (stream : StreamManifest) : Prop where
  name : ∀ units ∈ stream.name, units.length < 2 ^ 64
  logicalBytes : stream.logicalBytes < 2 ^ 64
  initializedBytes : stream.initializedBytes < 2 ^ 64
  mappedBytes : stream.mappedBytes < 2 ^ 64
  allocatedBytes : stream.allocatedBytes < 2 ^ 64
  compressionBlockBytes : stream.flags.compressionBlockBytes < 2 ^ 64

structure ObjectManifest.Fits (object : ObjectManifest) : Prop where
  paths : object.paths.length < 2 ^ 64 ∧ ∀ path ∈ object.paths, path.length < 2 ^ 64 ∧
    ∀ units ∈ path, units.length < 2 ^ 64
  streams : object.streams.length < 2 ^ 64 ∧ ∀ stream ∈ object.streams, stream.Fits

theorem boolByte_injective : Function.Injective boolByte := by
  intro a b h
  cases a <;> cases b <;> first | rfl | exact absurd h (by decide)

theorem prefixFree_unit : PrefixFree (fun unit : UInt16 => toLe 2 unit.toNat) fun _ => True := by
  intro v v' rest rest' _ _ heq
  exact UInt16.toNat.inj (prefixFree_toLe 2 v.toNat_lt v'.toNat_lt heq)

theorem prefixFree_units : PrefixFree encodeUnits fun units => units.length < 2 ^ 64 := by
  intro v v' rest rest' hv hv' heq
  exact PrefixFree.list prefixFree_unit ⟨hv, fun _ _ => trivial⟩ ⟨hv', fun _ _ => trivial⟩ heq

theorem prefixFree_name :
    PrefixFree encodeName fun name => ∀ units ∈ name, units.length < 2 ^ 64 := by
  intro v v' rest rest' hv hv' heq
  cases v with
  | none =>
    cases v' with
    | none => rfl
    | some name' => simp [encodeName] at heq
  | some name =>
    cases v' with
    | none => simp [encodeName] at heq
    | some name' =>
      simp only [encodeName, List.cons_append, List.nil_append, List.cons.injEq, true_and] at heq
      exact congrArg some (prefixFree_units (hv name rfl) (hv' name' rfl) heq)

theorem prefixFree_stream : PrefixFree encodeStream StreamManifest.Fits := by
  rintro ⟨name, logical, initialized, mapped, allocated, ⟨sparse, compressed, encrypted, block⟩, digest⟩
    ⟨name', logical', initialized', mapped', allocated', ⟨sparse', compressed', encrypted', block'⟩,
      digest'⟩ rest rest' hv hv' heq
  simp only [encodeStream, List.append_assoc] at heq
  obtain ⟨hname, h1⟩ := PrefixFree.cancel prefixFree_name hv.name hv'.name heq
  obtain ⟨hlogical, h2⟩ := PrefixFree.cancel (prefixFree_toLe 8) hv.logicalBytes hv'.logicalBytes h1
  obtain ⟨hinitialized, h3⟩ :=
    PrefixFree.cancel (prefixFree_toLe 8) hv.initializedBytes hv'.initializedBytes h2
  obtain ⟨hmapped, h4⟩ := PrefixFree.cancel (prefixFree_toLe 8) hv.mappedBytes hv'.mappedBytes h3
  obtain ⟨hallocated, h5⟩ :=
    PrefixFree.cancel (prefixFree_toLe 8) hv.allocatedBytes hv'.allocatedBytes h4
  simp only [List.cons_append, List.nil_append, List.cons.injEq] at h5
  obtain ⟨hsparse, hcompressed, hencrypted, h6⟩ := h5
  obtain ⟨hblock, h7⟩ := PrefixFree.cancel (prefixFree_toLe 8) hv.compressionBlockBytes
    hv'.compressionBlockBytes h6
  have hdigest : digest = digest' :=
    Subtype.ext (List.append_inj_left h7 (by rw [digest.2, digest'.2]))
  dsimp only at hname hlogical hinitialized hmapped hallocated hblock
  subst hname hlogical hinitialized hmapped hallocated hblock hdigest
  obtain rfl := boolByte_injective hsparse
  obtain rfl := boolByte_injective hcompressed
  obtain rfl := boolByte_injective hencrypted
  rfl

theorem prefixFree_object : PrefixFree encodeObject ObjectManifest.Fits := by
  rintro ⟨kind, ⟨secured, reparse⟩, paths, streams⟩ ⟨kind', ⟨secured', reparse'⟩, paths', streams'⟩
    rest rest' hv hv' heq
  simp only [encodeObject, List.append_assoc, List.cons_append, List.nil_append,
    List.cons.injEq] at heq
  obtain ⟨hkind, hsecured, hreparse, heq⟩ := heq
  obtain ⟨hpaths, htail⟩ := PrefixFree.cancel (PrefixFree.list (PrefixFree.list prefixFree_units))
    hv.paths hv'.paths heq
  have hstreams := PrefixFree.list prefixFree_stream hv.streams hv'.streams htail
  dsimp only at hpaths hstreams
  subst hpaths hstreams
  obtain rfl := boolByte_injective hsecured
  obtain rfl := boolByte_injective hreparse
  cases kind <;> cases kind' <;> first | rfl | exact absurd hkind (by decide)

/-- **Metadata.** What is hashed determines the records. -/
theorem metadataBytes_injective {objects objects' : List ObjectManifest}
    (hlen : objects.length < 2 ^ 64) (hlen' : objects'.length < 2 ^ 64)
    (hfits : ∀ object ∈ objects, object.Fits) (hfits' : ∀ object ∈ objects', object.Fits)
    (h : metadataBytes objects = metadataBytes objects') : objects = objects' := by
  rw [metadataBytes, metadataBytes, ← List.append_nil (encodeList encodeObject objects),
    ← List.append_nil (encodeList encodeObject objects')] at h
  exact PrefixFree.list prefixFree_object ⟨hlen, hfits⟩ ⟨hlen', hfits'⟩ h

/-! ## What a manifest says -/

/-- The evidence for a stream of an image with these bytes. -/
def streamManifest (H : Hashing) (content : Bytes) (extents : ExtentGraph) (stream : ObjectStream) :
    StreamManifest :=
  ⟨stream.name, stream.logicalBytes, stream.initializedBytes, stream.mappedBytes,
    stream.allocatedBytes, stream.flags, H.sha256 (hashedContent content extents stream)⟩

/-- The evidence for an object of a graph. -/
structure Evidence (H : Hashing) (content : Bytes) (graph : ObjectGraph) (object : ObjectRecord)
    (found : ObjectManifest) : Prop where
  member : object ∈ graph.objects
  kind : found.kind = object.kind
  semantics : found.semantics = object.semantics
  nodup : found.paths.Nodup
  sorted : found.paths.Pairwise fun a b => pathKey a ≤ pathKey b
  mem_paths : ∀ path, path ∈ found.paths ↔ RootPath graph.root graph.entries object.id path
  streams : found.streams =
    sortByKey streamKey (object.streams.map (streamManifest H content graph.extents))

/-- The logical bytes of all streams. -/
def logicalTotal (objects : List ObjectRecord) : ℕ :=
  ((ObjectGraph.allStreams objects).map ObjectStream.logicalBytes).sum

section Runs

variable {H : Hashing} {image : BoundedImageReader} {content : Bytes} {extents : ExtentGraph}
  {graph : ObjectGraph} {limits : VerificationLimits} {manifest : VerificationManifest}
  (hshow : Shows image content)

theorem readChunkBytes_ne_zero {u : Unit} (h : validateLimits limits = .ok u) :
    limits.readChunkBytes ≠ 0 := by
  rw [validateLimits, checkAll_ok_iff] at h
  have := h ("read_chunk_bytes", limits.readChunkBytes) (by simp)
  exact ensure_ok_iff.1 this

include hshow

theorem manifestStreams_ok (hchunk : limits.readChunkBytes ≠ 0) {totals : ℕ × ℕ}
    {streams : List ObjectStream} {r : List StreamManifest × ℕ × ℕ}
    (h : manifestStreams H image extents limits totals streams = .ok r) :
    r.1 = streams.map (streamManifest H content extents) ∧
      r.2.2 = totals.2 + (streams.map ObjectStream.logicalBytes).sum ∧
      ∀ stream ∈ streams, ∃ digest,
        streamDigest image H extents stream limits.readChunkBytes = .ok digest := by
  induction streams generalizing totals r with
  | nil =>
    obtain rfl := Except.ok.inj h
    simp
  | cons stream rest ih =>
    simp only [manifestStreams, bind_ok_iff, exists_const, ensure_ok_iff, orErr_ok_iff,
      checkedAdd_eq_some, pure_eq_ok, Except.ok.injEq] at h
    obtain ⟨_, ⟨-, rfl⟩, -, _, ⟨-, rfl⟩, -, digest, hdigest, more, hmore, rfl⟩ := h
    obtain ⟨hstreams, htotal, hall⟩ := ih hmore
    obtain rfl := streamDigest_ok hshow hchunk hdigest
    refine ⟨?_, ?_, List.forall_mem_cons.2 ⟨⟨_, hdigest⟩, hall⟩⟩
    · rw [hstreams]
      rfl
    · rw [htotal, List.map_cons, List.sum_cons, Nat.add_assoc]

theorem manifestStreams_file {maxReadBytes chunkBytes : ℕ} (hpos : 0 < maxReadBytes)
    (hchunk : limits.readChunkBytes ≠ 0) (hchunk' : chunkBytes ≠ 0) {totals : ℕ × ℕ}
    {streams : List ObjectStream} {r : List StreamManifest × ℕ × ℕ}
    (h : manifestStreams H image extents limits totals streams = .ok r) :
    manifestStreams H (imageFile content maxReadBytes hpos) extents
      { limits with readChunkBytes := chunkBytes } totals streams = .ok r := by
  induction streams generalizing totals r with
  | nil => exact h
  | cons stream rest ih =>
    simp only [manifestStreams, bind_ok_iff, exists_const, ensure_ok_iff] at h ⊢
    obtain ⟨count, hcount, hstreams, total, htotal, hbytes, digest, hdigest, more, hmore, h⟩ := h
    exact ⟨count, hcount, hstreams, total, htotal, hbytes, digest,
      streamDigest_file hshow hchunk hpos hchunk' hdigest, more, ih hmore, h⟩

theorem manifestObjects_ok (hchunk : limits.readChunkBytes ≠ 0) {paths : Paths}
    (hpaths : enumeratePaths graph limits.maxPaths = .ok paths) {totals : ℕ × ℕ}
    {objects : List ObjectRecord} (hobjects : ∀ object ∈ objects, object ∈ graph.objects)
    {r : List ObjectManifest × ℕ × ℕ}
    (h : manifestObjects H image graph.extents limits paths totals objects = .ok r) :
    List.Forall₂ (Evidence H content graph) objects r.1 ∧
      r.2.2 = totals.2 + logicalTotal objects ∧
      ∀ object ∈ objects, ∀ stream ∈ object.streams, ∃ digest,
        streamDigest image H graph.extents stream limits.readChunkBytes = .ok digest := by
  induction objects generalizing totals r with
  | nil =>
    obtain rfl := Except.ok.inj h
    exact ⟨.nil, rfl, by simp⟩
  | cons object rest ih =>
    simp only [manifestObjects, bind_ok_iff, exists_const, ensure_ok_iff, pure_eq_ok,
      Except.ok.injEq] at h
    obtain ⟨-, streams, hstreams, more, hmore, rfl⟩ := h
    obtain ⟨hmap, htotal, hdigests⟩ := manifestStreams_ok hshow hchunk hstreams
    obtain ⟨hfound, htotals, hall⟩ := ih (fun o ho => hobjects o (List.mem_cons_of_mem _ ho)) hmore
    obtain ⟨hnodup, hmem⟩ := enumeratePaths_ok hpaths object.id
    refine ⟨.cons ⟨hobjects object List.mem_cons_self, rfl, rfl,
      (sortByKey_perm pathKey _).nodup_iff.2 hnodup, sortByKey_sorted pathKey _,
      fun path => mem_sortByKey.trans (hmem path), by rw [hmap]⟩ hfound, ?_,
      List.forall_mem_cons.2 ⟨hdigests, hall⟩⟩
    rw [htotals, htotal, Nat.add_assoc]
    simp [logicalTotal, ObjectGraph.allStreams]

theorem manifestObjects_file {maxReadBytes chunkBytes : ℕ} (hpos : 0 < maxReadBytes)
    (hchunk : limits.readChunkBytes ≠ 0) (hchunk' : chunkBytes ≠ 0) {paths : Paths} {totals : ℕ × ℕ}
    {objects : List ObjectRecord} {r : List ObjectManifest × ℕ × ℕ}
    (h : manifestObjects H image extents limits paths totals objects = .ok r) :
    manifestObjects H (imageFile content maxReadBytes hpos) extents
      { limits with readChunkBytes := chunkBytes } paths totals objects = .ok r := by
  induction objects generalizing totals r with
  | nil => exact h
  | cons object rest ih =>
    simp only [manifestObjects, bind_ok_iff, exists_const, ensure_ok_iff] at h ⊢
    obtain ⟨hpath, streams, hstreams, more, hmore, h⟩ := h
    exact ⟨hpath, streams, manifestStreams_file hshow hpos hchunk hchunk' hstreams, more, ih hmore, h⟩

/-- **Manifest.** A manifest holds the evidence for every object, in the order of the keys. -/
theorem buildManifest_ok (h : buildManifest H image limits graph = .ok manifest) :
    limits.readChunkBytes ≠ 0 ∧
      (∀ object ∈ graph.objects, ∀ stream ∈ object.streams, ∃ digest,
        streamDigest image H graph.extents stream limits.readChunkBytes = .ok digest) ∧
      ∃ found, List.Forall₂ (Evidence H content graph) graph.objects found ∧
        manifest = ⟨sortByKey objectKey found, hashMetadata H (sortByKey objectKey found),
          logicalTotal graph.objects⟩ := by
  simp only [buildManifest, bind_ok_iff, exists_const, ensure_ok_iff, pure_eq_ok,
    Except.ok.injEq] at h
  obtain ⟨_, hlimits, -, _, -, paths, hpaths, r, hr, rfl⟩ := h
  have hchunk := readChunkBytes_ne_zero hlimits
  obtain ⟨hfound, htotal, hdigests⟩ := manifestObjects_ok hshow hchunk hpaths (fun _ h => h) hr
  refine ⟨hchunk, hdigests, r.1, hfound, ?_⟩
  rw [htotal, Nat.zero_add]

/-- Any image file of the same bytes has the same manifest, however it is read. -/
theorem buildManifest_file {maxReadBytes chunkBytes : ℕ} (hpos : 0 < maxReadBytes)
    (hchunk' : chunkBytes ≠ 0) (h : buildManifest H image limits graph = .ok manifest) :
    buildManifest H (imageFile content maxReadBytes hpos) { limits with readChunkBytes := chunkBytes }
      graph = .ok manifest := by
  simp only [buildManifest, bind_ok_iff, exists_const, ensure_ok_iff] at h ⊢
  obtain ⟨u, hlimits, hcount, v, hencodings, paths, hpaths, r, hr, h⟩ := h
  have hchunk := readChunkBytes_ne_zero hlimits
  refine ⟨(), ?_, hcount, v, hencodings, paths, hpaths, r,
    manifestObjects_file hshow hpos hchunk hchunk' hr, h⟩
  simp only [validateLimits, checkAll_ok_iff, ensure_ok_iff, List.forall_mem_cons] at hlimits ⊢
  tauto

end Runs

end Verify

end StarConverter
