import StarConverter.Base.DepthFirst
import StarConverter.Object

/-!
# The namespace of an object graph

What `build` proves of a namespace: identities and names are unique, link counts are the numbers of
entries, and the directories form no cycle and reach every object. The walk over the directories is the
depth-first search of `Base.DepthFirst` (`visitDirectories_eq`); with rounds for every entry it finds
exactly the reachable objects (`validateReachability_ok_iff`), on whatever shape the namespace has.
-/

namespace StarConverter

open Base Relation

namespace ObjectGraph

/-! ## Entries -/

/-- The checks of one entry by itself. -/
structure EntryValid (kindOf : ObjectId → Option ObjectKind) (root : ObjectId) (maxName : ℕ)
    (entry : NamespaceEntry) : Prop where
  parent : kindOf entry.parent = some .directory
  target : (kindOf entry.target).isSome = true
  not_root : entry.target ≠ root
  name_nonempty : entry.name ≠ []
  name_length : entry.name.length ≤ maxName

/-- Parent and name, which no two entries share. -/
def entryKey (entry : NamespaceEntry) : ObjectId × List UInt16 := (entry.parent, entry.name)

/-- The number of entries that name an object. -/
def entryCount (entries : List NamespaceEntry) (id : ObjectId) : ℕ :=
  entries.countP fun entry => entry.target = id

theorem entryCount_cons (entry : NamespaceEntry) (rest : List NamespaceEntry) (id : ObjectId) :
    entryCount (entry :: rest) id = (if entry.target = id then 1 else 0) + entryCount rest id := by
  unfold entryCount
  rw [List.countP_cons, Nat.add_comm]
  simp

section Entries

variable {kindOf : ObjectId → Option ObjectKind} {root : ObjectId} {maxName : ℕ}

theorem walkEntries_ok_iff {names : List (ObjectId × List UInt16)} {links out : ObjectId → ℕ}
    {entries : List NamespaceEntry} :
    walkEntries kindOf root maxName names links entries = .ok out ↔
      (∀ entry ∈ entries, EntryValid kindOf root maxName entry) ∧
      (entries.map entryKey).Nodup ∧ (∀ entry ∈ entries, entryKey entry ∉ names) ∧
      (∀ entry ∈ entries, links entry.target + entryCount entries entry.target < 2 ^ 32) ∧
      out = fun id => links id + entryCount entries id := by
  induction entries generalizing names links with
  | nil => simp [walkEntries, entryCount, eq_comm]
  | cons entry rest ih =>
    have hupdate : ∀ id, Function.update links entry.target (links entry.target + 1) id =
        links id + if entry.target = id then 1 else 0 := by
      intro id
      by_cases hid : id = entry.target
      · subst hid
        rw [Function.update_self, if_pos rfl]
      · rw [Function.update_of_ne hid, if_neg (Ne.symm hid), Nat.add_zero]
    simp only [walkEntries, bind_ok_iff, exists_const, orErr_ok_iff, ensure_ok_iff, ih]
    simp only [hupdate, entryCount_cons, List.map_cons, List.nodup_cons, List.forall_mem_cons,
      Nat.add_assoc]
    constructor
    · rintro ⟨_, hparent, rfl, htarget, hroot, hne, hlen, hname, hlink, hvalid, hnodup, hnames,
        hcounts, rfl⟩
      refine ⟨⟨⟨hparent, htarget, hroot, hne, hlen⟩, hvalid⟩, ⟨?_, hnodup⟩, ⟨hname, ?_⟩,
        ⟨?_, hcounts⟩, rfl⟩
      · intro hmem
        obtain ⟨other, hother, hkey⟩ := List.mem_map.1 hmem
        exact hnames other hother (List.mem_cons.2 (Or.inl hkey))
      · exact fun other hother hmem => hnames other hother (List.mem_cons_of_mem _ hmem)
      · rw [if_pos trivial]
        by_cases hcount : entryCount rest entry.target = 0
        · omega
        · obtain ⟨other, hother, htarget'⟩ := List.countP_pos_iff.1 (Nat.pos_of_ne_zero hcount)
          have htarget' : other.target = entry.target := by simpa using htarget'
          have := hcounts other hother
          rwa [htarget', if_pos rfl] at this
    · rintro ⟨⟨hentry, hvalid⟩, ⟨hfresh, hnodup⟩, ⟨hname, hnames⟩, ⟨hlink, hcounts⟩, rfl⟩
      rw [if_pos trivial] at hlink
      refine ⟨_, hentry.parent, rfl, hentry.target, hentry.not_root, hentry.name_nonempty,
        hentry.name_length, hname, by omega, hvalid, hnodup, fun other hother hmem => ?_, hcounts,
        rfl⟩
      rcases List.mem_cons.1 hmem with heq | hmem
      · exact hfresh (List.mem_map.2 ⟨other, hother, heq⟩)
      · exact hnames other hother hmem

end Entries

/-! ## Reachability -/

/-- `b` is listed in `a`. -/
def Link (entries : List NamespaceEntry) (a b : ObjectId) : Prop :=
  ∃ entry ∈ entries, entry.parent = a ∧ entry.target = b

/-- The directory `b` is listed in `a`. -/
def DirectoryEdge (kindOf : ObjectId → Option ObjectKind) (entries : List NamespaceEntry)
    (a b : ObjectId) : Prop :=
  ∃ entry ∈ entries, entry.parent = a ∧ entry.target = b ∧ kindOf b = some .directory

section Reachability

variable {kindOf : ObjectId → Option ObjectKind} {entries : List NamespaceEntry} {root : ObjectId}

theorem mem_directoryChildren {a b : ObjectId} :
    b ∈ directoryChildren kindOf entries a ↔ DirectoryEdge kindOf entries a b := by
  unfold directoryChildren DirectoryEdge
  simp only [List.mem_map, List.mem_filter, decide_eq_true_iff]
  constructor
  · rintro ⟨entry, ⟨hmem, hparent, hkind⟩, rfl⟩
    exact ⟨entry, hmem, hparent, rfl, hkind⟩
  · rintro ⟨entry, hmem, hparent, rfl, hkind⟩
    exact ⟨entry, ⟨hmem, hparent, hkind⟩, rfl⟩

/-- A directory and what is listed in it. -/
def listing (entries : List NamespaceEntry) (directory : ObjectId) : List ObjectId :=
  directory :: (entries.filter fun entry => entry.parent = directory).map NamespaceEntry.target

theorem visitDirectories_eq {rounds : ℕ} {stack : List (ObjectId × Bool)} {state : ObjectId → ℕ}
    {visited : List ObjectId} :
    visitDirectories kindOf entries rounds stack state (visited.flatMap (listing entries)) =
      match DepthFirst.search (directoryChildren kindOf entries) rounds stack state visited with
      | .error directory => .error (.directoryCycle directory)
      | .ok out => .ok (out.flatMap (listing entries)) := by
  induction rounds generalizing stack state visited with
  | zero => rw [visitDirectories, DepthFirst.search]; rfl
  | succ rounds ih =>
    cases stack with
    | nil => rfl
    | cons item stack =>
      obtain ⟨directory, exiting⟩ := item
      rw [visitDirectories, DepthFirst.search]
      split_ifs with hexit hopen hdone
      · exact ih
      · rfl
      · exact ih
      · have hlist : (visited ++ [directory]).flatMap (listing entries) =
            visited.flatMap (listing entries) ++ listing entries directory := by simp
        rw [← ih, hlist]
        rfl

/-- The nodes of the walk. -/
def walkNodes (entries : List NamespaceEntry) (root : ObjectId) : Finset ObjectId :=
  insert root (entries.map NamespaceEntry.target).toFinset

theorem sum_entries_le (nodes : Finset ObjectId) :
    ∑ directory ∈ nodes, (directoryChildren kindOf entries directory).length ≤ entries.length := by
  have hle : ∀ directory, (directoryChildren kindOf entries directory).length ≤
      entries.countP fun entry => entry.parent = directory := by
    intro directory
    unfold directoryChildren
    rw [List.length_map, ← List.countP_eq_length_filter]
    refine List.countP_mono_left fun entry _ h => ?_
    simp only [decide_eq_true_iff] at h ⊢
    exact h.1
  refine (Finset.sum_le_sum fun directory _ => hle directory).trans ?_
  induction entries with
  | nil => simp
  | cons entry rest ih =>
    have hcons : ∀ directory, (entry :: rest).countP (fun e => e.parent = directory) =
        rest.countP (fun e => e.parent = directory) + if entry.parent = directory then 1 else 0 := by
      intro directory
      rw [List.countP_cons]
      simp
    simp only [hcons, Finset.sum_add_distrib, Finset.sum_ite_eq, List.length_cons]
    have ih := ih fun directory => by
      unfold directoryChildren
      rw [List.length_map, ← List.countP_eq_length_filter]
      refine List.countP_mono_left fun entry _ h => ?_
      simp only [decide_eq_true_iff] at h ⊢
      exact h.1
    split_ifs <;> omega

/-- The rounds are enough for every entry and every directory. -/
theorem walk_rounds_le : 1 + ∑ directory ∈ walkNodes entries root,
    (1 + (directoryChildren kindOf entries directory).length) ≤ 2 * entries.length + 3 := by
  have hcard : (walkNodes entries root).card ≤ entries.length + 1 := by
    unfold walkNodes
    have h1 := Finset.card_insert_le root (entries.map NamespaceEntry.target).toFinset
    have h2 := List.toFinset_card_le (entries.map NamespaceEntry.target)
    rw [List.length_map] at h2
    omega
  have hsum := @sum_entries_le kindOf entries (walkNodes entries root)
  rw [Finset.sum_add_distrib, Finset.sum_const, smul_eq_mul, Nat.mul_one]
  omega

theorem edge_iff {a b : ObjectId} :
    DepthFirst.Edge (directoryChildren kindOf entries) a b ↔ DirectoryEdge kindOf entries a b :=
  mem_directoryChildren

/-- A path of listings goes through directories. -/
theorem directoryPath_of_linkPath
    (hparents : ∀ entry ∈ entries, kindOf entry.parent = some .directory) {id : ObjectId}
    (h : ReflTransGen (Link entries) root id) :
    (kindOf id = some .directory → ReflTransGen (DirectoryEdge kindOf entries) root id) ∧
      ∃ directory, ReflTransGen (DirectoryEdge kindOf entries) root directory ∧
        id ∈ listing entries directory := by
  induction h with
  | refl => exact ⟨fun _ => .refl, root, .refl, by simp [listing]⟩
  | tail _ hlink ih =>
    obtain ⟨entry, hmem, rfl, rfl⟩ := hlink
    have hpath := ih.1 (hparents entry hmem)
    refine ⟨fun hkind => hpath.tail ⟨entry, hmem, rfl, rfl, hkind⟩, entry.parent, hpath, ?_⟩
    refine List.mem_cons_of_mem _ (List.mem_map.2 ⟨entry, ?_, rfl⟩)
    simp [hmem]

theorem linkPath_of_listing {directory id : ObjectId}
    (h : ReflTransGen (DirectoryEdge kindOf entries) root directory)
    (hid : id ∈ listing entries directory) : ReflTransGen (Link entries) root id := by
  have hle : DirectoryEdge kindOf entries ≤ Link entries :=
    fun _ _ ⟨entry, hmem, hparent, htarget, _⟩ => ⟨entry, hmem, hparent, htarget⟩
  have hpath : ReflTransGen (Link entries) root directory := ReflTransGen.mono hle _ _ h
  rcases List.mem_cons.1 hid with rfl | hid
  · exact hpath
  · obtain ⟨entry, hentry, rfl⟩ := List.mem_map.1 hid
    obtain ⟨hmem, hparent⟩ := List.mem_filter.1 hentry
    exact hpath.tail ⟨entry, hmem, by simpa using hparent, rfl⟩

/-- A listing is reached through directories exactly when it is reached at all. -/
theorem mem_listings_iff (hparents : ∀ entry ∈ entries, kindOf entry.parent = some .directory)
    {id : ObjectId} : (∃ directory, ReflTransGen (DirectoryEdge kindOf entries) root directory ∧
      id ∈ listing entries directory) ↔ ReflTransGen (Link entries) root id :=
  ⟨fun ⟨_, h, hid⟩ => linkPath_of_listing h hid, fun h => (directoryPath_of_linkPath hparents h).2⟩

/-- The walk over the directories, as the search it is. -/
theorem visitDirectories_spec (hparents : ∀ entry ∈ entries, kindOf entry.parent = some .directory) :
    (∀ error, visitDirectories kindOf entries (2 * entries.length + 3) [(root, false)] (fun _ => 0) []
        = .error error → ∃ directory, error = .directoryCycle directory ∧
          ReflTransGen (Link entries) root directory ∧
          TransGen (DirectoryEdge kindOf entries) directory directory) ∧
    (∀ reachable, visitDirectories kindOf entries (2 * entries.length + 3) [(root, false)]
        (fun _ => 0) [] = .ok reachable →
      (∀ id, id ∈ reachable ↔ ReflTransGen (Link entries) root id) ∧
      ∀ directory, ReflTransGen (DirectoryEdge kindOf entries) root directory →
        ¬ TransGen (DirectoryEdge kindOf entries) directory directory) := by
  have hedge : DepthFirst.Edge (directoryChildren kindOf entries) = DirectoryEdge kindOf entries := by
    funext a b
    exact propext edge_iff
  have hclosed : ∀ a ∈ walkNodes entries root, ∀ c ∈ directoryChildren kindOf entries a,
      c ∈ walkNodes entries root := by
    intro a _ c hc
    obtain ⟨entry, hmem, -, rfl, -⟩ := mem_directoryChildren.1 hc
    refine Finset.mem_insert_of_mem (List.mem_toFinset.2 (List.mem_map.2 ⟨entry, hmem, rfl⟩))
  obtain ⟨herror, hok⟩ := DepthFirst.search_spec (Finset.mem_insert_self root _) hclosed
    (@walk_rounds_le kindOf entries root)
  rw [hedge] at herror hok
  have hwalk := @visitDirectories_eq kindOf entries (2 * entries.length + 3) [(root, false)]
    (fun _ => 0) []
  rw [List.flatMap_nil] at hwalk
  rw [hwalk]
  cases hsearch : DepthFirst.search (directoryChildren kindOf entries) (2 * entries.length + 3)
      [(root, false)] (fun _ => 0) [] with
  | error directory =>
    obtain ⟨hpath, hcycle⟩ := herror directory hsearch
    refine ⟨fun error h => ⟨directory, (Except.error.inj h).symm, ?_, hcycle⟩, fun _ h => (nomatch h)⟩
    exact linkPath_of_listing hpath (by simp [listing])
  | ok out =>
    refine ⟨fun _ h => (nomatch h), fun reachable h => ?_⟩
    obtain rfl := Except.ok.inj h
    have hout := hok out hsearch
    refine ⟨fun id => ?_, fun directory hpath => (hout directory).2 ((hout directory).1.2 hpath)⟩
    rw [List.mem_flatMap, ← mem_listings_iff hparents]
    simp only [(hout _).1]

theorem validateReachability_ok_iff {ids : List ObjectId}
    (hparents : ∀ entry ∈ entries, kindOf entry.parent = some .directory)
    (htargets : ∀ entry ∈ entries, entry.target ∈ ids) {u : Unit} :
    validateReachability kindOf ids entries root = .ok u ↔
      ids.length + entries.length + 1 < wordBound ∧
      (∀ id ∈ ids, ReflTransGen (Link entries) root id) ∧
      ∀ directory, ¬ TransGen (DirectoryEdge kindOf entries) directory directory := by
  obtain ⟨herror, hok⟩ := @visitDirectories_spec kindOf entries root hparents
  simp only [validateReachability, bind_ok_iff, orErr_ok_iff, checkedAdd_eq_some, checkAll_ok_iff,
    ensure_ok_iff]
  constructor
  · rintro ⟨_, ⟨-, rfl⟩, _, ⟨hlt, rfl⟩, reachable, hwalk, hids⟩
    obtain ⟨hreach, hacyclic⟩ := hok reachable hwalk
    have hall : ∀ id ∈ ids, ReflTransGen (Link entries) root id :=
      fun id hid => (hreach id).1 (hids id hid)
    refine ⟨hlt, hall, fun directory hcycle => ?_⟩
    obtain ⟨entry, hmem, -, htarget, hkind⟩ := (TransGen.tail'_iff.1 hcycle).choose_spec.2
    have hpath := hall directory (htarget ▸ htargets entry hmem)
    exact hacyclic directory ((directoryPath_of_linkPath hparents hpath).1 hkind) hcycle
  · rintro ⟨hlt, hall, hacyclic⟩
    refine ⟨_, ⟨by omega, rfl⟩, _, ⟨hlt, rfl⟩, ?_⟩
    cases hwalk : visitDirectories kindOf entries (2 * entries.length + 3) [(root, false)]
        (fun _ => 0) [] with
    | error error =>
      obtain ⟨directory, -, -, hcycle⟩ := herror error hwalk
      exact absurd hcycle (hacyclic directory)
    | ok reachable =>
      exact ⟨reachable, rfl, fun id hid => ((hok reachable hwalk).1 id).2 (hall id hid)⟩

end Reachability

/-! ## The namespace as a whole -/

/-- What `build` proves of a namespace. -/
structure NamespaceValid (root : ObjectId) (objects : List ObjectRecord)
    (entries : List NamespaceEntry) (maxName : ℕ) : Prop where
  objects_distinct : (objects.map ObjectRecord.id).Nodup
  root_directory : kindOf objects root = some .directory
  entries_valid : ∀ entry ∈ entries, EntryValid (kindOf objects) root maxName entry
  names_distinct : (entries.map entryKey).Nodup
  link_counts : ∀ object ∈ objects, object.id ≠ root →
    object.linkCount < 2 ^ 32 ∧ object.linkCount = entryCount entries object.id
  reachable : ∀ object ∈ objects, ReflTransGen (Link entries) root object.id
  acyclic : ∀ directory, ¬ TransGen (DirectoryEdge (kindOf objects) entries) directory directory

/-- What `build` proves of streams and extents. -/
structure AccountingValid (objects : List ObjectRecord) (extents : ExtentGraph) : Prop where
  streams : StreamsValid objects extents
  references : ∀ extent ∈ extents.extents, ∃ stream ∈ allStreams objects,
    stream.id = extent.stream ∧ stream.storage = .extents

/-- The graph is within the limits. -/
structure WithinLimits (objects : List ObjectRecord) (entries : List NamespaceEntry)
    (limits : ObjectGraphLimits) : Prop where
  limits_pos : limits.maxObjects ≠ 0 ∧ limits.maxEntries ≠ 0 ∧ limits.maxStreams ≠ 0 ∧
    limits.maxNameCodeUnits ≠ 0
  objects_le : objects.length ≤ limits.maxObjects
  entries_le : entries.length ≤ limits.maxEntries
  streams_lt : streamCount objects < wordBound
  streams_le : streamCount objects ≤ limits.maxStreams
  capacity_lt : objects.length + entries.length + 1 < wordBound

section Graph

variable {root : ObjectId} {objects : List ObjectRecord} {entries : List NamespaceEntry}
  {extents : ExtentGraph} {limits : ObjectGraphLimits}

theorem checkDistinctObjects_ok_iff {seen : List ObjectId} {u : Unit} :
    checkDistinctObjects seen objects = .ok u ↔
      (objects.map ObjectRecord.id).Nodup ∧ ∀ object ∈ objects, object.id ∉ seen := by
  induction objects generalizing seen with
  | nil => simp [checkDistinctObjects]
  | cons object rest ih =>
    simp only [checkDistinctObjects, bind_ok_iff, exists_const, ensure_ok_iff, ih, List.map_cons,
      List.nodup_cons, List.forall_mem_cons]
    constructor
    · rintro ⟨hnew, hnodup, hrest⟩
      refine ⟨⟨fun hmem => ?_, hnodup⟩, hnew, fun other hother h => ?_⟩
      · obtain ⟨other, hother, heq⟩ := List.mem_map.1 hmem
        exact hrest other hother (List.mem_cons.2 (Or.inl heq))
      · exact hrest other hother (List.mem_cons_of_mem _ h)
    · rintro ⟨⟨hfresh, hnodup⟩, hnew, hrest⟩
      refine ⟨hnew, hnodup, fun other hother h => ?_⟩
      rcases List.mem_cons.1 h with heq | h
      · exact hfresh (List.mem_map.2 ⟨other, hother, heq⟩)
      · exact hrest other hother h

theorem mem_ids_of_kindOf {id : ObjectId} (h : (kindOf objects id).isSome = true) :
    id ∈ objects.map ObjectRecord.id := by
  unfold kindOf at h
  rw [Option.isSome_map, List.find?_isSome] at h
  obtain ⟨object, hobject, hid⟩ := h
  exact List.mem_map.2 ⟨object, hobject, by simpa using hid⟩

theorem validateEntries_ok_iff {maxName : ℕ} {u : Unit} :
    validateEntries (kindOf objects) (linkCounts objects) entries root maxName = .ok u ↔
      (∀ entry ∈ entries, EntryValid (kindOf objects) root maxName entry) ∧
      (entries.map entryKey).Nodup ∧
      ∀ object ∈ objects, object.id ≠ root →
        object.linkCount < 2 ^ 32 ∧ object.linkCount = entryCount entries object.id := by
  simp only [validateEntries, bind_ok_iff, walkEntries_ok_iff, checkAll_ok_iff, ensure_ok_iff,
    linkCounts, List.forall_mem_map, Nat.zero_add, List.not_mem_nil, not_false_eq_true,
    implies_true, true_and]
  constructor
  · rintro ⟨_, ⟨hvalid, hnodup, hlt, rfl⟩, hcounts⟩
    refine ⟨hvalid, hnodup, fun object hobject hroot => ?_⟩
    have hcount := hcounts object hobject
    rw [if_neg hroot] at hcount
    have hcount : entryCount entries object.id = object.linkCount := hcount
    refine ⟨?_, hcount.symm⟩
    by_cases hzero : entryCount entries object.id = 0
    · omega
    · obtain ⟨entry, hentry, htarget⟩ := List.countP_pos_iff.1 (Nat.pos_of_ne_zero hzero)
      have htarget : entry.target = object.id := by simpa using htarget
      rw [← hcount, ← htarget]
      exact hlt entry hentry
  · rintro ⟨hvalid, hnodup, hcounts⟩
    refine ⟨_, ⟨hvalid, hnodup, fun entry hentry => ?_, rfl⟩, fun object hobject => ?_⟩
    · obtain ⟨object, hobject, hid⟩ := List.mem_map.1 (mem_ids_of_kindOf (hvalid entry hentry).target)
      obtain ⟨hlt, heq⟩ := hcounts object hobject (hid ▸ (hvalid entry hentry).not_root)
      rw [← hid, ← heq]
      exact hlt
    · split_ifs with hroot
      · rw [hroot, entryCount, List.countP_eq_zero]
        exact fun entry hentry => by simpa using (hvalid entry hentry).not_root
      · exact (hcounts object hobject hroot).2.symm

/-- **Acceptance of a graph.** -/
theorem validateGraph_ok_iff {u : Unit} :
    validateGraph root objects entries extents limits = .ok u ↔
      WithinLimits objects entries limits ∧
        NamespaceValid root objects entries limits.maxNameCodeUnits ∧
        AccountingValid objects extents := by
  have hlimits : ∀ v, validateLimits limits = .ok v ↔ limits.maxObjects ≠ 0 ∧
      limits.maxEntries ≠ 0 ∧ limits.maxStreams ≠ 0 ∧ limits.maxNameCodeUnits ≠ 0 := by
    intro v
    simp only [validateLimits, checkAll_ok_iff, ensure_ok_iff, List.forall_mem_cons,
      List.not_mem_nil, false_implies, implies_true, and_true]
  have hreferences : ∀ v, validateExtentReferences extents
      ((allStreams objects).map streamTag).reverse = .ok v ↔
      ∀ extent ∈ extents.extents, ∃ stream ∈ allStreams objects,
        stream.id = extent.stream ∧ stream.storage = .extents := by
    intro v
    simp only [validateExtentReferences, checkAll_ok_iff, ensure_ok_iff, List.mem_reverse,
      List.mem_map, streamTag, Prod.mk.injEq, decide_eq_true_iff]
  have hids : (objects.map ObjectRecord.id).length = objects.length := List.length_map _
  have hcount : (objects.map fun object => object.streams.length).sum = streamCount objects := rfl
  simp only [validateGraph, indexObjects, validateStreams, bind_ok_iff, exists_const, hlimits,
    ensure_ok_iff, orErr_ok_iff, checkDistinctObjects_ok_iff, sumChecked_ok_iff wordBound_pos,
    validateAllStreams_ok_iff, validateEntries_ok_iff, Nat.zero_add, hcount, List.map_nil,
    List.not_mem_nil, not_false_eq_true, implies_true, and_true, true_and, List.append_nil]
  constructor
  · rintro ⟨hpos, hobjects, hentries, ⟨hdistinct, _, hkind, rfl, -⟩, _,
      ⟨_, ⟨hlt, rfl⟩, hle, hstreams, rfl⟩, ⟨hvalid, hnames, hlinks⟩, _, hrefs, hreach⟩
    rw [validateReachability_ok_iff (fun entry hentry => (hvalid entry hentry).parent)
      (fun entry hentry => mem_ids_of_kindOf (hvalid entry hentry).target), hids] at hreach
    exact ⟨⟨hpos, hobjects, hentries, hlt, hle, hreach.1⟩,
      ⟨hdistinct, hkind, hvalid, hnames, hlinks, List.forall_mem_map.1 hreach.2.1, hreach.2.2⟩,
      hstreams, (hreferences _).1 hrefs⟩
  · rintro ⟨hwithin, hspace, haccounting⟩
    refine ⟨hwithin.limits_pos, hwithin.objects_le, hwithin.entries_le,
      ⟨hspace.objects_distinct, _, hspace.root_directory, rfl, hwithin.objects_le⟩, _,
      ⟨_, ⟨hwithin.streams_lt, rfl⟩, hwithin.streams_le, haccounting.streams, rfl⟩,
      ⟨hspace.entries_valid, hspace.names_distinct, hspace.link_counts⟩, (),
      (hreferences _).2 haccounting.references, ?_⟩
    rw [validateReachability_ok_iff (fun entry hentry => (hspace.entries_valid entry hentry).parent)
      (fun entry hentry => mem_ids_of_kindOf (hspace.entries_valid entry hentry).target), hids]
    exact ⟨hwithin.capacity_lt, List.forall_mem_map.2 hspace.reachable, hspace.acyclic⟩

end Graph

/-! ## What the errors say -/

theorem bind_error_iff {ε α β : Type} {x : Except ε α} {f : α → Except ε β} {e : ε} :
    (x >>= f) = .error e ↔ x = .error e ∨ ∃ a, x = .ok a ∧ f a = .error e := by
  cases x with
  | error e' => simp [bind, Except.bind]
  | ok a => simp [bind, Except.bind]

theorem ensure_error_iff {ε : Type} {c : Prop} {_ : Decidable c} {e e' : ε} :
    ensure c e = .error e' ↔ ¬ c ∧ e = e' := by
  unfold ensure
  split_ifs with h <;> simp [h]

theorem orErr_error_iff {ε α : Type} {o : Option α} {e e' : ε} :
    orErr o e = .error e' ↔ o = none ∧ e = e' := by
  cases o <;> simp [orErr]

theorem checkAll_error {ε α : Type} {f : α → Except ε Unit} {l : List α} {e : ε}
    (h : checkAll f l = .error e) : ∃ a ∈ l, f a = .error e := by
  induction l with
  | nil => cases h
  | cons a rest ih =>
    rw [checkAll, bind_error_iff] at h
    rcases h with h | ⟨_, -, h⟩
    · exact ⟨a, by simp, h⟩
    · obtain ⟨b, hb, hf⟩ := ih h
      exact ⟨b, by simp [hb], hf⟩

theorem sumChecked_error {ε : Type} {e e' : ε} {total : ℕ} {l : List ℕ}
    (h : sumChecked e total l = .error e') : e' = e := by
  induction l generalizing total with
  | nil => cases h
  | cons n rest ih =>
    simp only [sumChecked, bind_error_iff, orErr_error_iff] at h
    rcases h with ⟨-, rfl⟩ | ⟨_, -, h⟩
    · rfl
    · exact ih h

section Errors

variable {root : ObjectId} {objects : List ObjectRecord} {entries : List NamespaceEntry}
  {extents : ExtentGraph} {limits : ObjectGraphLimits}

/-- The errors of a walk that went wrong. -/
def WalkError (error : ObjectGraphError) : Prop :=
  (∃ id, error = .directoryCycle id) ∨ ∃ id, error = .unreachableObject id

/-- With a valid namespace and valid streams only a limit can be exceeded. -/
theorem not_walkError (hspace : NamespaceValid root objects entries limits.maxNameCodeUnits)
    (haccounting : AccountingValid objects extents) {error : ObjectGraphError}
    (h : validateGraph root objects entries extents limits = .error error) : ¬ WalkError error := by
  rw [validateGraph, bind_error_iff] at h
  rcases h with h | ⟨_, -, h⟩
  · obtain ⟨field, -, hfield⟩ := checkAll_error h
    obtain ⟨-, rfl⟩ := ensure_error_iff.1 hfield
    simp [WalkError]
  rw [bind_error_iff, ensure_error_iff] at h
  rcases h with ⟨-, rfl⟩ | ⟨_, -, h⟩
  · simp [WalkError]
  rw [bind_error_iff, ensure_error_iff] at h
  rcases h with ⟨-, rfl⟩ | ⟨_, -, h⟩
  · simp [WalkError]
  rw [bind_error_iff] at h
  rcases h with h | ⟨_, -, h⟩
  · have hdistinct := (@checkDistinctObjects_ok_iff objects [] ()).2
      ⟨hspace.objects_distinct, by simp⟩
    rw [indexObjects, hdistinct, ok_bind, hspace.root_directory, orErr_some, ok_bind, ensure_of rfl, ok_bind, ensure_error_iff] at h
    obtain ⟨-, rfl⟩ := h
    simp [WalkError]
  rw [bind_error_iff] at h
  rcases h with h | ⟨streams, hstreams, h⟩
  · rw [validateStreams, bind_error_iff] at h
    rcases h with h | ⟨total, -, h⟩
    · rw [sumChecked_error h]
      simp [WalkError]
    rw [bind_error_iff, ensure_error_iff] at h
    rcases h with ⟨-, rfl⟩ | ⟨_, -, h⟩
    · simp [WalkError]
    · rw [validateAllStreams_ok_iff.2 ⟨haccounting.streams, by simp, rfl⟩] at h
      cases h
  have hentries := (@validateEntries_ok_iff root objects entries limits.maxNameCodeUnits ()).2
    ⟨hspace.entries_valid, hspace.names_distinct, hspace.link_counts⟩
  rw [hentries, ok_bind, bind_error_iff] at h
  rcases h with h | ⟨_, -, h⟩
  · simp only [validateStreams, bind_ok_iff, exists_const, ensure_ok_iff,
      validateAllStreams_ok_iff] at hstreams
    obtain ⟨_, -, -, -, -, rfl⟩ := hstreams
    obtain ⟨extent, hextent, hensure⟩ := checkAll_error h
    obtain ⟨hnot, -⟩ := ensure_error_iff.1 hensure
    obtain ⟨stream, hstream, hid, hstorage⟩ := haccounting.references extent hextent
    refine absurd ?_ hnot
    rw [List.append_nil, List.mem_reverse, List.mem_map]
    exact ⟨stream, hstream, by simp [streamTag, hid, hstorage]⟩
  · have hreach := @validateReachability_ok_iff (kindOf objects) entries root
      (objects.map ObjectRecord.id) (fun entry hentry => (hspace.entries_valid entry hentry).parent)
      (fun entry hentry => mem_ids_of_kindOf (hspace.entries_valid entry hentry).target) ()
    rw [validateReachability, bind_error_iff, orErr_error_iff] at h
    rcases h with ⟨-, rfl⟩ | ⟨capacity, hcapacity, h⟩
    · simp [WalkError]
    rw [bind_error_iff, orErr_error_iff] at h
    rcases h with ⟨-, rfl⟩ | ⟨total, htotal, h⟩
    · simp [WalkError]
    have hlt : (objects.map ObjectRecord.id).length + entries.length + 1 < wordBound := by
      rw [orErr_ok_iff, checkedAdd_eq_some] at hcapacity htotal
      omega
    have hok := hreach.2 ⟨hlt, List.forall_mem_map.2 hspace.reachable, hspace.acyclic⟩
    rw [validateReachability, hcapacity, ok_bind, htotal, ok_bind] at hok
    rw [hok] at h
    cases h

end Errors

/-- **Validation is exact for the namespace.** A graph is built exactly when it is within the limits and
its namespace and its streams are valid; and a valid namespace is never taken for one with a cycle or an
unreachable object, along however many paths its directories are reached. -/
theorem namespace_exact (root : ObjectId) (objects : List ObjectRecord)
    (entries : List NamespaceEntry) (extents : ExtentGraph) (limits : ObjectGraphLimits) :
    ((∃ graph, build root objects entries extents limits = .ok graph) ↔
      WithinLimits objects entries limits ∧
        NamespaceValid root objects entries limits.maxNameCodeUnits ∧
        AccountingValid objects extents) ∧
    (NamespaceValid root objects entries limits.maxNameCodeUnits → AccountingValid objects extents →
      (∀ id, build root objects entries extents limits ≠ .error (.directoryCycle id)) ∧
      ∀ id, build root objects entries extents limits ≠ .error (.unreachableObject id)) := by
  have herror : ∀ error, build root objects entries extents limits = .error error →
      validateGraph root objects entries extents limits = .error error := by
    intro error h
    unfold build at h
    split at h
    · rename_i e he
      rw [he, Except.error.inj h]
    · cases h
  refine ⟨⟨?_, ?_⟩, fun hspace haccounting => ⟨fun id h => ?_, fun id h => ?_⟩⟩
  · rintro ⟨graph, h⟩
    exact validateGraph_ok_iff.1 (build_ok_iff.1 h).1
  · exact fun h => exists_build (validateGraph_ok_iff.2 h)
  · exact not_walkError hspace haccounting (herror _ h) (Or.inl ⟨id, rfl⟩)
  · exact not_walkError hspace haccounting (herror _ h) (Or.inr ⟨id, rfl⟩)

end ObjectGraph

end StarConverter
