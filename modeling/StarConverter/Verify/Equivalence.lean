import StarConverter.Verify.Manifest

/-!
# What a manifest decides

Two manifests are equivalent exactly when the objects of the two graphs can be matched so that kind,
semantics, root paths and the streams with their logical content agree (`equivalentTo_iff`). The manifest
takes resident bytes as they are, so this is about logical content as long as resident streams hold
zeros behind their initialized size (`manifest_decides_iff`).
-/

namespace StarConverter

open Base

namespace Verify

/-! ## Logical equality -/

/-- What a reader of a stream can see. -/
structure StreamFacts where
  name : Option (List UInt16)
  logicalBytes : ℕ
  initializedBytes : ℕ
  mappedBytes : ℕ
  allocatedBytes : ℕ
  flags : StreamFlags
  content : Bytes
  deriving DecidableEq

def streamFacts (content : Bytes) (extents : ExtentGraph) (stream : ObjectStream) : StreamFacts :=
  ⟨stream.name, stream.logicalBytes, stream.initializedBytes, stream.mappedBytes,
    stream.allocatedBytes, stream.flags, streamContent content extents stream⟩

/-- Two objects, each in its graph over an image, with the same kind, semantics, root paths and
streams. -/
structure SameObject (content content' : Bytes) (graph graph' : ObjectGraph)
    (object object' : ObjectRecord) : Prop where
  kind : object.kind = object'.kind
  semantics : object.semantics = object'.semantics
  paths : ∀ path, RootPath graph.root graph.entries object.id path ↔
    RootPath graph'.root graph'.entries object'.id path
  streams : (object.streams.map (streamFacts content graph.extents)).Perm
    (object'.streams.map (streamFacts content' graph'.extents))

/-- The objects of the second graph can be arranged so that each is the same as the one of the first
graph at its place. -/
def SameGraph (content content' : Bytes) (graph graph' : ObjectGraph) : Prop :=
  ∃ matched, List.Forall₂ (SameObject content content' graph graph') graph.objects matched ∧
    matched.Perm graph'.objects

/-- The strings a manifest of the graph is about. -/
def contents (content : Bytes) (graph : ObjectGraph) : Set Bytes :=
  {s | ∃ object ∈ graph.objects, ∃ stream ∈ object.streams,
    s = hashedContent content graph.extents stream ∨ s = streamContent content graph.extents stream}

/-- Every resident stream holds zeros behind its initialized size. -/
def ZeroTails (graph : ObjectGraph) : Prop :=
  ∀ object ∈ graph.objects, ∀ stream ∈ object.streams, ZeroTail stream

instance (graph : ObjectGraph) : Decidable (ZeroTails graph) := by
  unfold ZeroTails
  infer_instance

theorem hashedContent_eq {content : Bytes} {graph : ObjectGraph} {object : ObjectRecord}
    {stream : ObjectStream} (ho : object ∈ graph.objects) (hs : stream ∈ object.streams) :
    hashedContent content graph.extents stream = streamContent content graph.extents stream ↔
      ZeroTail stream := by
  obtain ⟨limits, haccepted⟩ := graph.accepted
  have hstream : stream ∈ ObjectGraph.allStreams graph.objects := List.mem_flatMap.2 ⟨object, ho, hs⟩
  have hvalid := ((ObjectGraph.streams_of_accepted haccepted).1.valid stream hstream).storage
  refine hashedContent_eq_iff fun bytes hbytes => ?_
  rw [ObjectGraph.validateStorage, hbytes] at hvalid
  simp only [bind_ok_iff, exists_const, ensure_ok_iff] at hvalid
  exact hvalid.1

/-! ## Evidence decides equality -/

section Pair

variable {H : Hashing} {content content' : Bytes} {graph graph' : ObjectGraph}
  (hinj : Set.InjOn H.sha256 (contents content graph ∪ contents content' graph'))
  (hzero : ZeroTails graph) (hzero' : ZeroTails graph')

/-- The evidence for what is seen of a stream. -/
def StreamFacts.manifest (H : Hashing) (facts : StreamFacts) : StreamManifest :=
  ⟨facts.name, facts.logicalBytes, facts.initializedBytes, facts.mappedBytes, facts.allocatedBytes,
    facts.flags, H.sha256 facts.content⟩

theorem map_streamManifest (hzero : ZeroTails graph) {object : ObjectRecord}
    (ho : object ∈ graph.objects) :
    object.streams.map (streamManifest H content graph.extents) =
      (object.streams.map (streamFacts content graph.extents)).map (StreamFacts.manifest H) := by
  rw [List.map_map]
  refine List.map_congr_left fun stream hs => ?_
  rw [streamManifest, (hashedContent_eq ho hs).2 (hzero object ho stream hs)]
  rfl

include hinj hzero hzero'

theorem evidence_eq_iff {object object' : ObjectRecord} {found found' : ObjectManifest}
    (he : Evidence H content graph object found) (he' : Evidence H content' graph' object' found') :
    found = found' ↔ SameObject content content' graph graph' object object' := by
  have hpaths : found.paths = found'.paths ↔ ∀ path,
      RootPath graph.root graph.entries object.id path ↔
        RootPath graph'.root graph'.entries object'.id path := by
    constructor
    · intro h path
      rw [← he.mem_paths, ← he'.mem_paths, h]
    · intro h
      have hperm : found.paths.Perm found'.paths :=
        (List.perm_ext_iff_of_nodup he.nodup he'.nodup).2 fun path => by
          rw [he.mem_paths, he'.mem_paths, h]
      exact hperm.eq_of_pairwise (fun a b _ _ hab hba => pathKey_injective (le_antisymm hab hba))
        he.sorted he'.sorted
  have hstreams : found.streams = found'.streams ↔
      (object.streams.map (streamFacts content graph.extents)).Perm
        (object'.streams.map (streamFacts content' graph'.extents)) := by
    rw [he.streams, he'.streams, sortByKey_eq_iff_perm streamKey_injective,
      map_streamManifest hzero he.member, map_streamManifest hzero' he'.member]
    refine perm_map_iff_of_injOn fun a ha b hb hab => ?_
    have hmem : ∀ facts, (facts ∈ object.streams.map (streamFacts content graph.extents) ∨
        facts ∈ object'.streams.map (streamFacts content' graph'.extents)) →
        facts.content ∈ contents content graph ∪ contents content' graph' := by
      rintro facts (hfacts | hfacts)
      · obtain ⟨stream, hstream, rfl⟩ := List.mem_map.1 hfacts
        exact Or.inl ⟨object, he.member, stream, hstream, Or.inr rfl⟩
      · obtain ⟨stream, hstream, rfl⟩ := List.mem_map.1 hfacts
        exact Or.inr ⟨object', he'.member, stream, hstream, Or.inr rfl⟩
    have hcontent := hmem a ha
    have hcontent' := hmem b hb
    cases a
    cases b
    simp only [StreamFacts.manifest, StreamManifest.mk.injEq] at hab
    obtain ⟨rfl, rfl, rfl, rfl, rfl, rfl, hdigest⟩ := hab
    obtain rfl := hinj hcontent hcontent' hdigest
    rfl
  constructor
  · rintro rfl
    exact ⟨he.kind.symm.trans he'.kind, he.semantics.symm.trans he'.semantics, hpaths.1 rfl,
      hstreams.1 rfl⟩
  · intro h
    have hkind := he.kind.trans (h.kind.trans he'.kind.symm)
    have hsemantics := he.semantics.trans (h.semantics.trans he'.semantics.symm)
    have hp := hpaths.2 h.paths
    have hs := hstreams.2 h.streams
    cases found
    cases found'
    dsimp only at hkind hsemantics hp hs
    rw [hkind, hsemantics, hp, hs]

end Pair

/-! ## Accepted runs -/

/-- A manifest that was built, with the image it was built from. -/
structure Run (H : Hashing) where
  image : BoundedImageReader
  content : Bytes
  view : Shows image content
  limits : VerificationLimits
  graph : ObjectGraph
  manifest : VerificationManifest
  built : buildManifest H image limits graph = .ok manifest

namespace Run

variable {H : Hashing} (run other : Run H)

def contents : Set Bytes := Verify.contents run.content run.graph

/-- The logical content of every stream is what the digest of the stream is taken of. -/
def DigestsContent : Prop :=
  ∀ object ∈ run.graph.objects, ∀ stream ∈ object.streams,
    streamDigest run.image H run.graph.extents stream run.limits.readChunkBytes =
      .ok (H.sha256 (streamContent run.content run.graph.extents stream))

/-- Two runs over logically equal graphs. -/
def Same : Prop := SameGraph run.content other.content run.graph other.graph

theorem equivalentTo_iff (hinj : Set.InjOn H.sha256 (run.contents ∪ other.contents))
    (hzero : ZeroTails run.graph) (hzero' : ZeroTails other.graph) :
    run.manifest.equivalentTo other.manifest ↔ run.Same other := by
  obtain ⟨-, -, found, hfound, hm⟩ := buildManifest_ok run.view run.built
  obtain ⟨-, -, found', hfound', hm'⟩ := buildManifest_ok other.view other.built
  have hdecide : ∀ object object' f f', Evidence H run.content run.graph object f →
      Evidence H other.content other.graph object' f' →
      (f = f' ↔ SameObject run.content other.content run.graph other.graph object object') :=
    fun _ _ _ _ he he' => evidence_eq_iff hinj hzero hzero' he he'
  have hmatch := perm_iff_matched hdecide hfound hfound'
  rw [Same, SameGraph, ← hmatch, ← sortByKey_eq_iff_perm objectKey_injective,
    VerificationManifest.equivalentTo, hm, hm']
  exact ⟨fun h => h.2, fun h => ⟨congrArg (hashMetadata H) h, h⟩⟩

theorem logicalTotal_eq (h : run.Same other) :
    logicalTotal run.graph.objects = logicalTotal other.graph.objects := by
  obtain ⟨matched, hmatched, hperm⟩ := h
  have htotal : ∀ objects : List ObjectRecord, logicalTotal objects =
      (objects.map fun object => (object.streams.map ObjectStream.logicalBytes).sum).sum := by
    intro objects
    rw [logicalTotal, ObjectGraph.allStreams, List.map_flatMap, List.flatMap_def, List.sum_flatten,
      List.map_map]
    rfl
  rw [htotal, htotal, ← (hperm.map _).sum_eq]
  congr 1
  refine List.forall₂_eq_eq_eq ▸ (List.forall₂_map_left_iff.2 (List.forall₂_map_right_iff.2
    (hmatched.imp fun object object' hsame => ?_)))
  have := (hsame.streams.map StreamFacts.logicalBytes).sum_eq
  rwa [List.map_map, List.map_map] at this

/-- The manifest of a run depends on nothing but what `Same` compares. -/
theorem manifest_eq (hinj : Set.InjOn H.sha256 (run.contents ∪ other.contents))
    (hzero : ZeroTails run.graph) (hzero' : ZeroTails other.graph) (h : run.Same other) :
    run.manifest = other.manifest := by
  obtain ⟨hdigest, hobjects⟩ := (run.equivalentTo_iff other hinj hzero hzero').2 h
  obtain ⟨-, -, found, -, hm⟩ := buildManifest_ok run.view run.built
  obtain ⟨-, -, found', -, hm'⟩ := buildManifest_ok other.view other.built
  have htotal := run.logicalTotal_eq other h
  rw [hm, hm'] at hdigest hobjects ⊢
  dsimp only at hdigest hobjects
  rw [hdigest, hobjects, htotal]

theorem digestsContent_iff (hinj : Set.InjOn H.sha256 run.contents) :
    run.DigestsContent ↔ ZeroTails run.graph := by
  obtain ⟨hchunk, hdigests, -⟩ := buildManifest_ok run.view run.built
  constructor
  · intro h object ho stream hs
    have heq := streamDigest_ok run.view hchunk (h object ho stream hs)
    exact (hashedContent_eq ho hs).1 (hinj ⟨object, ho, stream, hs, Or.inl rfl⟩
      ⟨object, ho, stream, hs, Or.inr rfl⟩ heq.symm)
  · intro h object ho stream hs
    obtain ⟨digest, hdigest⟩ := hdigests object ho stream hs
    rw [hdigest, streamDigest_ok run.view hchunk hdigest,
      (hashedContent_eq ho hs).2 (h object ho stream hs)]

/-- Every object has a record, and its paths are the root paths of the object, each once. -/
def ListsPaths : Prop :=
  ∃ found, found.Perm run.manifest.objects ∧
    List.Forall₂ (fun object record => record.kind = object.kind ∧
      record.semantics = object.semantics ∧ record.paths.Nodup ∧
      ∀ path, path ∈ record.paths ↔ RootPath run.graph.root run.graph.entries object.id path)
      run.graph.objects found

theorem listsPaths : run.ListsPaths := by
  obtain ⟨-, -, found, hfound, hm⟩ := buildManifest_ok run.view run.built
  refine ⟨found, ?_, hfound.imp fun _ _ he => ⟨he.kind, he.semantics, he.nodup, he.mem_paths⟩⟩
  rw [hm]
  exact (sortByKey_perm objectKey found).symm

/-- What the manifest of a run is to be: the digests are those of the logical content, the paths are
complete, the hashed metadata determines the records, no cut of the reads matters, and any other run
over a graph with zero tails has an equivalent manifest exactly when the graphs are logically equal, and
then the same one. -/
structure Decides : Prop where
  digests : run.DigestsContent
  paths : run.ListsPaths
  metadata : ∀ objects : List ObjectManifest, objects.length < 2 ^ 64 →
    run.manifest.objects.length < 2 ^ 64 → (∀ object ∈ objects, object.Fits) →
    (∀ object ∈ run.manifest.objects, object.Fits) →
    metadataBytes objects = metadataBytes run.manifest.objects → objects = run.manifest.objects
  reads : ∀ maxReadBytes chunkBytes (hpos : 0 < maxReadBytes), chunkBytes ≠ 0 →
    buildManifest H (imageFile run.content maxReadBytes hpos)
      { run.limits with readChunkBytes := chunkBytes } run.graph = .ok run.manifest
  equivalent : ∀ other : Run H, ZeroTails other.graph →
    Set.InjOn H.sha256 (run.contents ∪ other.contents) →
    (run.manifest.equivalentTo other.manifest ↔ run.Same other) ∧
      (run.Same other → run.manifest = other.manifest)

/-- **Manifests decide logical equality** exactly for graphs whose resident streams hold zeros behind
their initialized size. The hash is taken to be injective on the strings at hand. -/
theorem manifest_decides_iff (hinj : Set.InjOn H.sha256 run.contents) :
    run.Decides ↔ ZeroTails run.graph := by
  constructor
  · exact fun h => (run.digestsContent_iff hinj).1 h.digests
  · intro hzero
    refine ⟨(run.digestsContent_iff hinj).2 hzero, run.listsPaths, fun objects hlen hlen' hfits hfits' =>
      metadataBytes_injective hlen hlen' hfits hfits', fun maxReadBytes chunkBytes hpos hchunk =>
      buildManifest_file run.view hpos hchunk run.built, fun other hzero' hboth => ?_⟩
    exact ⟨run.equivalentTo_iff other hboth hzero hzero', run.manifest_eq other hboth hzero hzero'⟩

end Run

/-! ## A sample -/

/-- A directory with one resident file of one byte, of which so many are initialized. -/
def sampleResident (byte : UInt8) (initialized : ℕ) : Option ObjectGraph := do
  let extents ← (ExtentGraph.build [] 1 1).toOption
  (ObjectGraph.build 1
    [⟨1, .directory, 0, ⟨false, false⟩, []⟩,
      ⟨2, .file, 1, ⟨false, false⟩,
        [⟨10, none, 1, initialized, 1, 0, ⟨false, false, false, 0⟩, .resident [byte]⟩]⟩]
    [⟨1, 2, [97]⟩] extents ⟨4, 4, 4, 4⟩).toOption

def sampleLimits : VerificationLimits := ⟨4, 4, 4, 4, 4⟩

/-- The run over a sample. -/
def sampleRun (byte : UInt8) (initialized : ℕ) (hgraph : (sampleResident byte initialized).isSome = true)
    (hbuilt : (buildManifest .standard (imageFile [] 1 Nat.one_pos) sampleLimits
      ((sampleResident byte initialized).get hgraph)).toOption.isSome = true) : Run .standard where
  image := imageFile [] 1 Nat.one_pos
  content := []
  view := shows_imageFile Nat.one_pos
  limits := sampleLimits
  graph := (sampleResident byte initialized).get hgraph
  manifest := okValue _ hbuilt
  built := eq_okValue hbuilt

/-- An initialized byte. -/
def initializedRun : Run .standard := sampleRun 7 1 (by decide +kernel) (by decide +kernel)

theorem initializedRun_decides : initializedRun.Decides := by
  have hsingle : ∀ object ∈ initializedRun.graph.objects, ∀ stream ∈ object.streams,
      hashedContent initializedRun.content initializedRun.graph.extents stream = [7] ∧
        streamContent initializedRun.content initializedRun.graph.extents stream = [7] := by
    decide +kernel
  have hcontents : ∀ s ∈ initializedRun.contents, s = [7] := by
    rintro s ⟨object, ho, stream, hs, rfl | rfl⟩
    · exact (hsingle object ho stream hs).1
    · exact (hsingle object ho stream hs).2
  have hinj : Set.InjOn (Hashing.sha256 .standard) initializedRun.contents :=
    fun a ha b hb _ => (hcontents a ha).trans (hcontents b hb).symm
  exact (initializedRun.manifest_decides_iff hinj).2 (by decide +kernel)

/-- A byte behind the initialized size, which an extent stream would show as zero. -/
def uninitializedRun : Run .standard := sampleRun 1 0 (by decide +kernel) (by decide +kernel)

/-- The manifest of that byte takes its digest, although the digests of the byte and of the logical
content differ. -/
theorem not_decides_uninitialized :
    Set.InjOn (Hashing.sha256 .standard) uninitializedRun.contents ∧ ¬ uninitializedRun.Decides := by
  have hsingle : ∀ object ∈ uninitializedRun.graph.objects, ∀ stream ∈ object.streams,
      hashedContent uninitializedRun.content uninitializedRun.graph.extents stream = [1] ∧
        streamContent uninitializedRun.content uninitializedRun.graph.extents stream = [0] := by
    decide +kernel
  have hcontents : ∀ s ∈ uninitializedRun.contents, s = [1] ∨ s = [0] := by
    rintro s ⟨object, ho, stream, hs, rfl | rfl⟩
    · exact Or.inl (hsingle object ho stream hs).1
    · exact Or.inr (hsingle object ho stream hs).2
  have hne : Hashing.sha256 .standard [1] ≠ Hashing.sha256 .standard [0] := by decide +kernel
  have hinj : Set.InjOn (Hashing.sha256 .standard) uninitializedRun.contents := by
    intro a ha b hb hab
    rcases hcontents a ha with rfl | rfl <;> rcases hcontents b hb with rfl | rfl
    · rfl
    · exact absurd hab hne
    · exact absurd hab.symm hne
    · rfl
  refine ⟨hinj, fun h => ?_⟩
  have hzero := (uninitializedRun.digestsContent_iff hinj).1 h.digests
  have hnot : ¬ ZeroTails uninitializedRun.graph := by decide +kernel
  exact hnot hzero

end Verify

end StarConverter
