import StarConverter.Base.Bytes
import StarConverter.Extent

/-!
# Object graphs

Objects, their streams and the namespace that links them. An `ObjectGraph` carries the fact that
`build` accepted it. The acceptance comes apart into one `StreamsValid` for all streams
(`validateAllStreams_ok_iff`), whose storage checks see only the shape of the extents
(`walkStreamExtents_map`), and checks of the namespace that see only identities, kinds and link counts.
-/

namespace StarConverter

open Base

abbrev ObjectId := ℕ

inductive ObjectKind
  | file
  | directory
  deriving DecidableEq

structure ObjectSemantics where
  hasSecurityDescriptor : Bool
  isReparsePoint : Bool
  deriving DecidableEq

structure StreamFlags where
  sparse : Bool
  compressed : Bool
  encrypted : Bool
  compressionBlockBytes : ℕ
  deriving DecidableEq

inductive StreamStorage
  | resident (bytes : Bytes)
  | extents
  deriving DecidableEq

structure ObjectStream where
  id : StreamId
  name : Option (List UInt16)
  logicalBytes : ℕ
  initializedBytes : ℕ
  mappedBytes : ℕ
  allocatedBytes : ℕ
  flags : StreamFlags
  storage : StreamStorage
  deriving DecidableEq

structure ObjectRecord where
  id : ObjectId
  kind : ObjectKind
  linkCount : ℕ
  semantics : ObjectSemantics
  streams : List ObjectStream
  deriving DecidableEq

structure NamespaceEntry where
  parent : ObjectId
  target : ObjectId
  name : List UInt16
  deriving DecidableEq

structure ObjectGraphLimits where
  maxObjects : ℕ
  maxEntries : ℕ
  maxStreams : ℕ
  maxNameCodeUnits : ℕ
  deriving DecidableEq

inductive SemanticFeature
  | accessControl
  | alternateDataStreams
  | compression
  | encryptedFiles
  | hardLinks
  | reparsePoints
  | sparseFiles
  | caseCollisions
  deriving DecidableEq

inductive ObjectGraphError
  | invalidLimit (field : String)
  | objectLimitExceeded (actual maximum : ℕ)
  | entryLimitExceeded (actual maximum : ℕ)
  | streamLimitExceeded (actual maximum : ℕ)
  | duplicateObject (id : ObjectId)
  | missingRoot (id : ObjectId)
  | rootNotDirectory (id : ObjectId)
  | duplicateStream (id : StreamId)
  | duplicateUnnamedStream (id : ObjectId)
  | invalidStreamSizes (stream : StreamId)
  | residentLengthMismatch (stream : StreamId) (declared actual : ℕ)
  | residentAllocation (stream : StreamId) (allocated : ℕ)
  | missingStreamExtent (id : StreamId)
  | unknownExtentStream (id : StreamId)
  | extentGap (stream : StreamId) (expected actual : ℕ)
  | extentLengthMismatch (stream : StreamId) (expected actual : ℕ)
  | allocationMismatch (stream : StreamId) (expected actual : ℕ)
  | missingParent (id : ObjectId)
  | parentNotDirectory (id : ObjectId)
  | missingTarget (id : ObjectId)
  | rootHasNamespaceEntry
  | emptyName (target : ObjectId)
  | nameTooLong (target : ObjectId) (actual maximum : ℕ)
  | duplicateName (parent : ObjectId) (name : List UInt16)
  | linkCountMismatch (object : ObjectId) (expected actual : ℕ)
  | unreachableObject (id : ObjectId)
  | directoryCycle (id : ObjectId)
  | arithmeticOverflow
  deriving DecidableEq

abbrev Checked (α : Type) := Except ObjectGraphError α

/-! ## Objects and streams -/

namespace ObjectGraph

def validateLimits (limits : ObjectGraphLimits) : Checked Unit :=
  checkAll (fun field => ensure (field.2 ≠ 0) (.invalidLimit field.1))
    [("max_objects", limits.maxObjects), ("max_entries", limits.maxEntries),
      ("max_streams", limits.maxStreams), ("max_name_code_units", limits.maxNameCodeUnits)]

/-- The kinds of the objects by identity. -/
def kindOf (objects : List ObjectRecord) (id : ObjectId) : Option ObjectKind :=
  (objects.find? fun object => object.id = id).map ObjectRecord.kind

/-- Rejects the first object whose identity was seen before. -/
def checkDistinctObjects : List ObjectId → List ObjectRecord → Checked Unit
  | _, [] => pure ()
  | seen, object :: rest => do
    ensure (object.id ∉ seen) (.duplicateObject object.id)
    checkDistinctObjects (object.id :: seen) rest

def indexObjects (objects : List ObjectRecord) (root : ObjectId) (limits : ObjectGraphLimits) :
    Checked Unit := do
  checkDistinctObjects [] objects
  let rootKind ← orErr (kindOf objects root) (.missingRoot root)
  ensure (rootKind = .directory) (.rootNotDirectory root)
  ensure (objects.length ≤ limits.maxObjects)
    (.objectLimitExceeded objects.length limits.maxObjects)

/-- The walk over the extents of one stream: covered bytes, physical bytes and whether any extent
was found. -/
def walkStreamExtents (stream : StreamId) :
    ℕ × ℕ × Bool → List Extent → Checked (ℕ × ℕ × Bool)
  | totals, [] => pure totals
  | (expectedOffset, physical, _), extent :: rest => do
    ensure (extent.logicalOffset = expectedOffset)
      (.extentGap stream expectedOffset extent.logicalOffset)
    let expectedOffset ← orErr (checkedAdd expectedOffset extent.length) .arithmeticOverflow
    let physical ←
      if extent.placement.isPhysical = true then
        orErr (checkedAdd physical extent.length) .arithmeticOverflow
      else pure physical
    walkStreamExtents stream (expectedOffset, physical, true) rest

def streamExtents (graph : ExtentGraph) (stream : StreamId) : List Extent :=
  graph.extents.filter fun extent => extent.stream = stream

def validateStreamExtents (stream : ObjectStream) (graph : ExtentGraph) : Checked Unit := do
  let (expectedOffset, physical, found) ←
    walkStreamExtents stream.id (0, 0, false) (streamExtents graph stream.id)
  ensure (stream.mappedBytes = 0 ∨ found = true) (.missingStreamExtent stream.id)
  ensure (expectedOffset = stream.mappedBytes)
    (.extentLengthMismatch stream.id stream.mappedBytes expectedOffset)
  ensure (physical = stream.allocatedBytes)
    (.allocationMismatch stream.id stream.allocatedBytes physical)

/-- The checks of one stream's storage. -/
def validateStorage (stream : ObjectStream) (extents : ExtentGraph) : Checked Unit :=
  match stream.storage with
  | .resident bytes => do
    ensure (bytes.length = stream.logicalBytes)
      (.residentLengthMismatch stream.id stream.logicalBytes bytes.length)
    ensure (stream.allocatedBytes = 0) (.residentAllocation stream.id stream.allocatedBytes)
    ensure (stream.mappedBytes = stream.logicalBytes) (.invalidStreamSizes stream.id)
  | .extents => validateStreamExtents stream extents

/-- The streams of one object; `seen` holds the identities of all streams before them. -/
def validateObjectStreams (object : ObjectId) (extents : ExtentGraph) :
    Bool → List (StreamId × Bool) → List ObjectStream → Checked (List (StreamId × Bool))
  | _, seen, [] => pure seen
  | unnamed, seen, stream :: rest => do
    ensure (¬ (stream.name = none ∧ unnamed = true)) (.duplicateUnnamedStream object)
    ensure (stream.initializedBytes ≤ stream.logicalBytes ∧
      stream.logicalBytes ≤ stream.mappedBytes) (.invalidStreamSizes stream.id)
    ensure (stream.id ∉ seen.map Prod.fst) (.duplicateStream stream.id)
    validateStorage stream extents
    validateObjectStreams object extents (unnamed || stream.name.isNone)
      ((stream.id, decide (stream.storage = .extents)) :: seen) rest

def validateAllStreams (extents : ExtentGraph) :
    List (StreamId × Bool) → List ObjectRecord → Checked (List (StreamId × Bool))
  | seen, [] => pure seen
  | seen, object :: rest => do
    let seen ← validateObjectStreams object.id extents false seen object.streams
    validateAllStreams extents seen rest

def streamCount (objects : List ObjectRecord) : ℕ :=
  (objects.map fun object => object.streams.length).sum

def validateStreams (objects : List ObjectRecord) (extents : ExtentGraph)
    (limits : ObjectGraphLimits) : Checked (List (StreamId × Bool)) := do
  let total ← sumChecked ObjectGraphError.arithmeticOverflow 0
    (objects.map fun object => object.streams.length)
  ensure (total ≤ limits.maxStreams) (.streamLimitExceeded total limits.maxStreams)
  validateAllStreams extents [] objects

def validateExtentReferences (graph : ExtentGraph) (streams : List (StreamId × Bool)) :
    Checked Unit :=
  checkAll (fun extent => ensure ((extent.stream, true) ∈ streams)
    (.unknownExtentStream extent.stream)) graph.extents

/-! ## The namespace -/

/-- The entries in order: names seen so far and the number of links to each target. -/
def walkEntries (kindOf : ObjectId → Option ObjectKind) (root : ObjectId) (maxName : ℕ) :
    List (ObjectId × List UInt16) → (ObjectId → ℕ) → List NamespaceEntry →
      Checked (ObjectId → ℕ)
  | _, links, [] => pure links
  | names, links, entry :: rest => do
    let parent ← orErr (kindOf entry.parent) (.missingParent entry.parent)
    ensure (parent = .directory) (.parentNotDirectory entry.parent)
    ensure ((kindOf entry.target).isSome = true) (.missingTarget entry.target)
    ensure (entry.target ≠ root) .rootHasNamespaceEntry
    ensure (entry.name ≠ []) (.emptyName entry.target)
    ensure (entry.name.length ≤ maxName) (.nameTooLong entry.target entry.name.length maxName)
    ensure ((entry.parent, entry.name) ∉ names) (.duplicateName entry.parent entry.name)
    ensure (links entry.target + 1 < 2 ^ 32) .arithmeticOverflow
    walkEntries kindOf root maxName ((entry.parent, entry.name) :: names)
      (Function.update links entry.target (links entry.target + 1)) rest

/-- Identities and link counts, in the order of the objects. -/
def linkCounts (objects : List ObjectRecord) : List (ObjectId × ℕ) :=
  objects.map fun object => (object.id, object.linkCount)

def validateEntries (kindOf : ObjectId → Option ObjectKind) (counts : List (ObjectId × ℕ))
    (entries : List NamespaceEntry) (root : ObjectId) (maxName : ℕ) : Checked Unit := do
  let links ← walkEntries kindOf root maxName [] (fun _ => 0) entries
  checkAll (fun object =>
    let expected := if object.1 = root then 0 else object.2
    ensure (links object.1 = expected) (.linkCountMismatch object.1 expected (links object.1)))
    counts

/-- The directories listed in a directory. -/
def directoryChildren (kindOf : ObjectId → Option ObjectKind) (entries : List NamespaceEntry)
    (directory : ObjectId) : List ObjectId :=
  (entries.filter fun entry =>
    entry.parent = directory ∧ kindOf entry.target = some .directory).map NamespaceEntry.target

/-- The depth-first walk. A stack item is a directory to enter or to leave; the states are 1 while a
directory is open and 2 once it is left. Every entry is pushed at most once and every directory is
left once, which bounds the rounds. -/
def visitDirectories (kindOf : ObjectId → Option ObjectKind) (entries : List NamespaceEntry) :
    ℕ → List (ObjectId × Bool) → (ObjectId → ℕ) → List ObjectId → Checked (List ObjectId)
  | 0, _, _, reachable => pure reachable
  | _, [], _, reachable => pure reachable
  | rounds + 1, (directory, exiting) :: stack, state, reachable =>
    if exiting = true then
      visitDirectories kindOf entries rounds stack (Function.update state directory 2) reachable
    else if state directory = 1 then .error (.directoryCycle directory)
    else if state directory = 2 then
      visitDirectories kindOf entries rounds stack state reachable
    else
      let targets := (entries.filter fun entry => entry.parent = directory).map
        NamespaceEntry.target
      visitDirectories kindOf entries rounds
        ((directoryChildren kindOf entries directory).map (fun child => (child, false)) ++
          (directory, true) :: stack)
        (Function.update state directory 1) (reachable ++ directory :: targets)

def validateReachability (kindOf : ObjectId → Option ObjectKind) (ids : List ObjectId)
    (entries : List NamespaceEntry) (root : ObjectId) : Checked Unit := do
  let capacity ← orErr (checkedAdd ids.length entries.length) .arithmeticOverflow
  let _ ← orErr (checkedAdd capacity 1) .arithmeticOverflow
  let reachable ← visitDirectories kindOf entries (2 * entries.length + 3) [(root, false)]
    (fun _ => 0) []
  checkAll (fun id => ensure (id ∈ reachable) (.unreachableObject id)) ids

/-! ## Features -/

/-- Whether an object has the feature with the given code. -/
def hasFeature (object : ObjectRecord) : SemanticFeature → Bool
  | .accessControl => object.semantics.hasSecurityDescriptor
  | .alternateDataStreams => object.streams.any fun stream => stream.name.isSome
  | .compression => object.streams.any fun stream => stream.flags.compressed
  | .encryptedFiles => object.streams.any fun stream => stream.flags.encrypted
  | .hardLinks => decide (1 < object.linkCount)
  | .reparsePoints => object.semantics.isReparsePoint
  | .sparseFiles => object.streams.any fun stream => stream.flags.sparse
  | .caseCollisions => false

/-- The features found in any object, in the order of their codes. -/
def collectFeatures (objects : List ObjectRecord) : List SemanticFeature :=
  [.accessControl, .alternateDataStreams, .compression, .encryptedFiles, .hardLinks,
    .reparsePoints, .sparseFiles].filter fun feature => objects.any fun object =>
      hasFeature object feature

/-- The checks of `build`, in order. -/
def validateGraph (root : ObjectId) (objects : List ObjectRecord) (entries : List NamespaceEntry)
    (extents : ExtentGraph) (limits : ObjectGraphLimits) : Checked Unit := do
  validateLimits limits
  ensure (objects.length ≤ limits.maxObjects)
    (.objectLimitExceeded objects.length limits.maxObjects)
  ensure (entries.length ≤ limits.maxEntries)
    (.entryLimitExceeded entries.length limits.maxEntries)
  indexObjects objects root limits
  let streams ← validateStreams objects extents limits
  validateEntries (kindOf objects) (linkCounts objects) entries root limits.maxNameCodeUnits
  validateExtentReferences extents streams
  validateReachability (kindOf objects) (objects.map ObjectRecord.id) entries root

end ObjectGraph

/-- Proven namespace and stream evidence. -/
structure ObjectGraph where
  root : ObjectId
  objects : List ObjectRecord
  entries : List NamespaceEntry
  extents : ExtentGraph
  features : List SemanticFeature
  accepted : ∃ limits, ObjectGraph.validateGraph root objects entries extents limits = .ok ()
  features_eq : features = ObjectGraph.collectFeatures objects

namespace ObjectGraph

/-- Validates a complete normalized graph. -/
def build (root : ObjectId) (objects : List ObjectRecord) (entries : List NamespaceEntry)
    (extents : ExtentGraph) (limits : ObjectGraphLimits) : Checked ObjectGraph :=
  match h : validateGraph root objects entries extents limits with
  | .error e => .error e
  | .ok () => .ok
    { root := root
      objects := objects
      entries := entries
      extents := extents
      features := collectFeatures objects
      accepted := ⟨limits, h⟩
      features_eq := rfl }

theorem build_ok_iff {root : ObjectId} {objects : List ObjectRecord}
    {entries : List NamespaceEntry} {extents : ExtentGraph} {limits : ObjectGraphLimits}
    {g : ObjectGraph} :
    build root objects entries extents limits = .ok g ↔
      validateGraph root objects entries extents limits = .ok () ∧ g.root = root ∧
        g.objects = objects ∧ g.entries = entries ∧ g.extents = extents := by
  unfold build
  split
  · next e h => simp [h]
  · next h =>
    constructor
    · intro hg
      obtain rfl := Except.ok.inj hg
      exact ⟨h, rfl, rfl, rfl, rfl⟩
    · rintro ⟨-, h1, h2, h3, h4⟩
      have hf := g.features_eq
      cases g
      simp only at h1 h2 h3 h4 hf
      subst h1 h2 h3 h4 hf
      rfl

theorem exists_build {root : ObjectId} {objects : List ObjectRecord}
    {entries : List NamespaceEntry} {extents : ExtentGraph} {limits : ObjectGraphLimits}
    (h : validateGraph root objects entries extents limits = .ok ()) :
    ∃ g, build root objects entries extents limits = .ok g := by
  unfold build
  split
  · next e he =>
    rw [h] at he
    cases he
  · exact ⟨_, rfl⟩

@[ext] theorem ext_fields {g g' : ObjectGraph} (h1 : g.root = g'.root)
    (h2 : g.objects = g'.objects) (h3 : g.entries = g'.entries) (h4 : g.extents = g'.extents) :
    g = g' := by
  have hf := g.features_eq
  have hf' := g'.features_eq
  cases g
  cases g'
  simp only at h1 h2 h3 h4 hf hf'
  subst h1 h2 h3 h4 hf hf'
  rfl

/-! ## What the checks say -/

/-- The shape of an extent that the walk over a stream sees. -/
def SameShape (f : Extent → Extent) : Prop :=
  ∀ e, (f e).logicalOffset = e.logicalOffset ∧ (f e).length = e.length ∧
    (f e).placement.isPhysical = e.placement.isPhysical

theorem walkStreamExtents_map {stream : StreamId} {f : Extent → Extent} (hf : SameShape f)
    (totals : ℕ × ℕ × Bool) (l : List Extent) :
    walkStreamExtents stream totals (l.map f) = walkStreamExtents stream totals l := by
  induction l generalizing totals with
  | nil => rfl
  | cons e rest ih =>
    obtain ⟨h1, h2, h3⟩ := hf e
    obtain ⟨a, b, c⟩ := totals
    simp only [List.map_cons, walkStreamExtents, h1, h2, h3, ih]

/-- The walk covers the total length of the extents. -/
theorem walkStreamExtents_ok {stream : StreamId} {o p o' p' : ℕ} {f f' : Bool} {l : List Extent}
    (h : walkStreamExtents stream (o, p, f) l = .ok (o', p', f')) :
    o' = o + (l.map Extent.length).sum := by
  induction l generalizing o p f with
  | nil =>
    simp only [walkStreamExtents, pure_eq_ok, Except.ok.injEq, Prod.mk.injEq] at h
    simp [← h.1]
  | cons e rest ih =>
    simp only [walkStreamExtents, bind_ok_iff, exists_const, ensure_ok_iff, orErr_ok_iff,
      checkedAdd_eq_some] at h
    obtain ⟨-, _, ⟨-, rfl⟩, h⟩ := h
    rw [List.map_cons, List.sum_cons, ← Nat.add_assoc]
    split_ifs at h
    · simp only [bind_ok_iff, orErr_ok_iff] at h
      obtain ⟨_, -, h⟩ := h
      exact ih h
    · exact ih h

/-- No second unnamed stream. -/
def UnnamedOnce : Bool → List (Option (List UInt16)) → Prop
  | _, [] => True
  | unnamed, name :: rest =>
    ¬ (name = none ∧ unnamed = true) ∧ UnnamedOnce (unnamed || name.isNone) rest

/-- The checks of one stream by itself. -/
structure StreamValid (extents : ExtentGraph) (stream : ObjectStream) : Prop where
  sizes : stream.initializedBytes ≤ stream.logicalBytes ∧ stream.logicalBytes ≤ stream.mappedBytes
  storage : validateStorage stream extents = .ok ()

/-- Identity and storage of a stream, as recorded for the references from extents. -/
def streamTag (stream : ObjectStream) : StreamId × Bool :=
  (stream.id, decide (stream.storage = .extents))

theorem validateObjectStreams_ok_iff {object : ObjectId} {extents : ExtentGraph} {unnamed : Bool}
    {seen out : List (StreamId × Bool)} {streams : List ObjectStream} :
    validateObjectStreams object extents unnamed seen streams = .ok out ↔
      UnnamedOnce unnamed (streams.map ObjectStream.name) ∧
        (∀ stream ∈ streams, StreamValid extents stream) ∧
        (streams.map ObjectStream.id).Nodup ∧
        (∀ stream ∈ streams, stream.id ∉ seen.map Prod.fst) ∧
        out = (streams.map streamTag).reverse ++ seen := by
  induction streams generalizing unnamed seen with
  | nil => simp [validateObjectStreams, UnnamedOnce, eq_comm]
  | cons stream rest ih =>
    simp only [validateObjectStreams, bind_ok_iff, exists_const, ensure_ok_iff, ih, List.map_cons,
      UnnamedOnce, List.forall_mem_cons, List.nodup_cons, List.reverse_cons, List.append_assoc,
      List.singleton_append, streamTag]
    simp only [List.mem_cons (b := stream.id), not_or]
    constructor
    · rintro ⟨hn, hs, hid, _, hst, hu, hv, hnd, hseen, rfl⟩
      refine ⟨⟨hn, hu⟩, ⟨⟨hs, hst⟩, hv⟩, ⟨?_, hnd⟩, ⟨hid, fun t ht => (hseen t ht).2⟩, rfl⟩
      intro hmem
      obtain ⟨t, ht, he⟩ := List.mem_map.1 hmem
      exact (hseen t ht).1 he
    · rintro ⟨⟨hn, hu⟩, ⟨hv, hvs⟩, ⟨hid, hnd⟩, ⟨hseen, hs⟩, rfl⟩
      refine ⟨hn, hv.sizes, hseen, (), hv.storage, hu, hvs, hnd, fun t ht => ⟨?_, hs t ht⟩, rfl⟩
      rintro he
      exact hid (he ▸ List.mem_map_of_mem ht)

/-- All streams of a graph, in order. -/
def allStreams (objects : List ObjectRecord) : List ObjectStream :=
  objects.flatMap ObjectRecord.streams

/-- The checks of all streams. -/
structure StreamsValid (objects : List ObjectRecord) (extents : ExtentGraph) : Prop where
  unnamed : ∀ object ∈ objects, UnnamedOnce false (object.streams.map ObjectStream.name)
  valid : ∀ stream ∈ allStreams objects, StreamValid extents stream
  distinct : ((allStreams objects).map ObjectStream.id).Nodup

theorem validateAllStreams_ok_iff {extents : ExtentGraph} {seen out : List (StreamId × Bool)}
    {objects : List ObjectRecord} :
    validateAllStreams extents seen objects = .ok out ↔
      StreamsValid objects extents ∧
        (∀ stream ∈ allStreams objects, stream.id ∉ seen.map Prod.fst) ∧
        out = ((allStreams objects).map streamTag).reverse ++ seen := by
  induction objects generalizing seen with
  | nil =>
    have : StreamsValid [] extents := ⟨by simp, by simp [allStreams], by simp [allStreams]⟩
    simp [validateAllStreams, allStreams, this, eq_comm]
  | cons object rest ih =>
    have hall : allStreams (object :: rest) = object.streams ++ allStreams rest := rfl
    have htag : ∀ l : List ObjectStream, (l.map streamTag).map Prod.fst = l.map ObjectStream.id := by
      intro l; rw [List.map_map]; rfl
    simp only [validateAllStreams, bind_ok_iff, validateObjectStreams_ok_iff, ih]
    constructor
    · rintro ⟨_, ⟨hu, hv, hnd, hseen, rfl⟩, hrest, hs, rfl⟩
      have hs' : ∀ t ∈ allStreams rest, t.id ∉ object.streams.map ObjectStream.id ∧
          t.id ∉ seen.map Prod.fst := by
        intro t ht
        have := hs t ht
        rw [List.map_append, List.map_reverse, htag, List.mem_append, List.mem_reverse,
          not_or] at this
        exact this
      refine ⟨⟨?_, ?_, ?_⟩, ?_, ?_⟩
      · simpa using ⟨hu, hrest.unnamed⟩
      · intro t ht
        rcases List.mem_append.1 (hall ▸ ht) with ht | ht
        · exact hv t ht
        · exact hrest.valid t ht
      · rw [hall, List.map_append]
        refine List.nodup_append.2 ⟨hnd, hrest.distinct, ?_⟩
        intro a ha b hb hab
        obtain ⟨t, ht, rfl⟩ := List.mem_map.1 hb
        exact (hs' t ht).1 (hab ▸ ha)
      · intro t ht
        rcases List.mem_append.1 (hall ▸ ht) with ht | ht
        · exact hseen t ht
        · exact (hs' t ht).2
      · rw [hall, List.map_append, List.reverse_append, List.append_assoc]
    · rintro ⟨h, hs, rfl⟩
      have hd := h.distinct
      rw [hall, List.map_append, List.nodup_append] at hd
      refine ⟨_, ⟨h.unnamed object (by simp), fun t ht => h.valid t (hall ▸ by simp [ht]), hd.1,
        fun t ht => hs t (hall ▸ by simp [ht]), rfl⟩, ⟨fun o ho => h.unnamed o (by simp [ho]),
        fun t ht => h.valid t (hall ▸ by simp [ht]), hd.2.1⟩, ?_, ?_⟩
      · intro t ht
        rw [List.map_append, List.map_reverse, htag, List.mem_append, List.mem_reverse, not_or]
        refine ⟨fun hmem => ?_, hs t (hall ▸ by simp [ht])⟩
        exact hd.2.2 _ hmem _ (List.mem_map_of_mem ht) rfl
      · rw [hall, List.map_append, List.reverse_append, List.append_assoc]

/-- A walk over the entries does not mind a larger limit on names. -/
theorem walkEntries_mono {kindOf : ObjectId → Option ObjectKind} {root : ObjectId} {n n' : ℕ}
    {names : List (ObjectId × List UInt16)} {links out : ObjectId → ℕ}
    {entries : List NamespaceEntry} (hn : ∀ entry ∈ entries, entry.name.length ≤ n')
    (h : walkEntries kindOf root n names links entries = .ok out) :
    walkEntries kindOf root n' names links entries = .ok out := by
  induction entries generalizing names links with
  | nil => exact h
  | cons entry rest ih =>
    simp only [walkEntries, bind_ok_iff, exists_const, ensure_ok_iff] at h ⊢
    obtain ⟨k, h1, h2, h3, h4, h5, -, h7, h8, h9⟩ := h
    exact ⟨k, h1, h2, h3, h4, h5, hn entry (by simp), h7, h8,
      ih (fun e he => hn e (by simp [he])) h9⟩

/-- What a graph must have so that a graph with other extents, and streams changed by `f`, is accepted
under limits that fit it. -/
theorem validateGraph_transfer {g : ObjectGraph} {f : ObjectStream → ObjectStream}
    {objects : List ObjectRecord}
    (hobjects : objects = g.objects.map fun o => { o with streams := o.streams.map f })
    {extents : ExtentGraph} {limits : ObjectGraphLimits}
    (hl : 0 < limits.maxObjects ∧ 0 < limits.maxEntries ∧ 0 < limits.maxStreams ∧
      0 < limits.maxNameCodeUnits)
    (ho : g.objects.length ≤ limits.maxObjects) (he : g.entries.length ≤ limits.maxEntries)
    (hs : streamCount g.objects ≤ limits.maxStreams)
    (hn : ∀ entry ∈ g.entries, entry.name.length ≤ limits.maxNameCodeUnits)
    (hvalid : StreamsValid objects extents)
    (href : ∀ extent ∈ extents.extents, ∃ stream ∈ allStreams objects,
      stream.id = extent.stream ∧ stream.storage = .extents) :
    validateGraph g.root objects g.entries extents limits = .ok () := by
  obtain ⟨limits₀, hacc⟩ := g.accepted
  simp only [validateGraph, indexObjects, validateStreams, validateEntries, bind_ok_iff,
    exists_const, ensure_ok_iff] at hacc
  obtain ⟨_, -, -, -, ⟨_, hdist, rootKind, hroot, hdir, -⟩, _, ⟨total, htotal, -, -⟩, _,
    ⟨links, hwalk, hcounts⟩, _, -, hreach⟩ := hacc
  have hkind : kindOf objects = kindOf g.objects := by
    funext id
    unfold kindOf
    rw [hobjects, List.find?_map, Option.map_map]
    rfl
  have hids : objects.map ObjectRecord.id = g.objects.map ObjectRecord.id := by
    rw [hobjects, List.map_map]; rfl
  have hlinks : linkCounts objects = linkCounts g.objects := by
    unfold linkCounts
    rw [hobjects, List.map_map]; rfl
  have hlens : objects.map (fun o => o.streams.length) =
      g.objects.map (fun o => o.streams.length) := by
    rw [hobjects, List.map_map]
    exact List.map_congr_left fun o _ => by simp
  have hdist' : ∀ seen, checkDistinctObjects seen objects =
      checkDistinctObjects seen g.objects := by
    rw [hobjects]
    generalize g.objects = l
    induction l with
    | nil => intro seen; rfl
    | cons o l ih => intro seen; simp only [List.map_cons, checkDistinctObjects, ih]
  have hlen : objects.length = g.objects.length := by rw [hobjects, List.length_map]
  rw [sumChecked_ok_iff wordBound_pos] at htotal
  simp only [validateGraph, indexObjects, validateStreams, validateEntries, bind_ok_iff,
    exists_const, ensure_ok_iff]
  refine ⟨(), ?_, hlen ▸ ho, he, ⟨(), by rw [hdist']; exact hdist, rootKind, hkind ▸ hroot,
    hdir, hlen ▸ ho⟩, _, ⟨total, ?_, ?_, validateAllStreams_ok_iff.2 ⟨hvalid, by simp, rfl⟩⟩, (),
    ⟨links, ?_, hlinks ▸ hcounts⟩, (), ?_, ?_⟩
  · rw [validateLimits, checkAll_ok_iff]
    simp only [List.mem_cons, List.not_mem_nil, or_false, ensure_ok_iff, forall_eq_or_imp, forall_eq]
    omega
  · rw [sumChecked_ok_iff wordBound_pos, hlens]; exact htotal
  · rw [htotal.2]
    simpa [streamCount] using hs
  · rw [hkind]; exact walkEntries_mono hn hwalk
  · rw [validateExtentReferences, checkAll_ok_iff]
    intro extent hextent
    rw [ensure_ok_iff]
    obtain ⟨stream, hstream, h1, h2⟩ := href extent hextent
    simp only [List.append_nil, List.mem_reverse, List.mem_map]
    exact ⟨stream, hstream, by simp [streamTag, h1, h2]⟩
  · rw [hkind, hids]; exact hreach

/-- What acceptance says about the streams. -/
theorem streams_of_accepted {root : ObjectId} {objects : List ObjectRecord}
    {entries : List NamespaceEntry} {extents : ExtentGraph} {limits : ObjectGraphLimits} {u : Unit}
    (h : validateGraph root objects entries extents limits = .ok u) :
    StreamsValid objects extents ∧ ∀ extent ∈ extents.extents, ∃ stream ∈ allStreams objects,
      stream.id = extent.stream ∧ stream.storage = .extents := by
  simp only [validateGraph, validateStreams, bind_ok_iff, exists_const, ensure_ok_iff,
    validateAllStreams_ok_iff] at h
  obtain ⟨_, -, -, -, _, -, _, ⟨_, -, -, hvalid, -, rfl⟩, _, -, _, href, -⟩ := h
  refine ⟨hvalid, fun extent hextent => ?_⟩
  rw [validateExtentReferences, checkAll_ok_iff] at href
  have := href extent hextent
  rw [ensure_ok_iff, List.append_nil, List.mem_reverse, List.mem_map] at this
  obtain ⟨stream, hstream, he⟩ := this
  simp only [streamTag, Prod.mk.injEq, decide_eq_true_eq] at he
  exact ⟨stream, hstream, he⟩

end ObjectGraph

end StarConverter
