import StarConverter.Base.BreadthFirst
import StarConverter.Exfat.PayloadMap

/-!
# Placing the directories

The new directories are placed breadth first from the root, each in clusters of its own that hold its
entries and an end marker. `directoryOrder_ok` says that the order has every directory of the graph
once, `placeDirectories_ok` that each of them gets clusters that nothing else has.
-/

namespace StarConverter

open Base

namespace Exfat

namespace Serialize

/-! ## The formatter -/

/-- The children that are directories. -/
def subdirectories (layouts : Layouts) : List ObjectId → Formatted (List ObjectId)
  | [] => pure []
  | child :: rest => do
    let layout ← layouts.index child
    let more ← subdirectories layouts rest
    pure (if layout.kind = .directory then child :: more else more)

/-- Moves the cursor at most `fuel` times; a tree has a move for each of its nodes. -/
def directoryOrderLoop (layouts : Layouts) : ℕ → List ObjectId → ℕ → Formatted (List ObjectId)
  | 0, order, _ => pure order
  | fuel + 1, order, cursor =>
    match order[cursor]? with
    | none => pure order
    | some current => do
      let layout ← layouts.index current
      let more ← subdirectories layouts layout.children
      directoryOrderLoop layouts fuel (order ++ more) (cursor + 1)

def directoryOrder (graph : ObjectGraph) (layouts : Layouts) : Formatted (List ObjectId) :=
  directoryOrderLoop layouts layouts.length [graph.root] 0

/-- Where the new directories lie. -/
structure DirectoryState where
  occupied : List Bool
  layouts : Layouts
  deriving DecidableEq

def placeDirectory (root : ObjectId) (hasVolumeLabel : Bool) (clusterBytes maxDirectoryBytes : ℕ)
    (pinned : Option Allocation) (state : DirectoryState) (object : ObjectId) :
    Formatted DirectoryState := do
  let bytes ← directoryLength object root state.layouts hasVolumeLabel
  ensure (bytes ≤ maxDirectoryBytes) (.limitExceeded "directory bytes" bytes maxDirectoryBytes)
  let clusters ← clustersFor bytes clusterBytes
  let (occupied, allocation) ← placeAllocation pinned state.occupied clusters
  let _ ← orErr (state.layouts.get? object) (.unsupportedObject object "missing internal layout")
  let expanded ← expandAllocation allocation
  pure ⟨occupied, state.layouts.modify object fun layout =>
    { layout with directoryClusters := expanded, directoryBytes := bytes }⟩

/-- Places the directories in order; `directory_index` counts them. -/
def placeDirectories (root : ObjectId) (hasVolumeLabel : Bool) (clusterBytes maxDirectoryBytes : ℕ)
    (pinned : Option PinnedExfatLayout) :
    ℕ → DirectoryState → List ObjectId → Formatted DirectoryState
  | _, state, [] => pure state
  | directoryIndex, state, object :: rest => do
    let state ← placeDirectory root hasVolumeLabel clusterBytes maxDirectoryBytes
      (pinned.bind fun layout => layout.directories[directoryIndex]?.map Prod.snd) state object
    placeDirectories root hasVolumeLabel clusterBytes maxDirectoryBytes pinned (directoryIndex + 1)
      state rest

/-! ## Layouts that differ in the place of their data -/

/-- The layouts tell the same in a directory, apart from where their data lies. -/
structure SameEntry (layout layout' : ObjectLayout) : Prop where
  kind : layout.kind = layout'.kind
  metadata : layout.metadata = layout'.metadata
  name : layout.name = layout'.name
  children : layout.children = layout'.children

theorem SameEntry.trans {layout layout' layout'' : ObjectLayout} (h : SameEntry layout layout')
    (h' : SameEntry layout' layout'') : SameEntry layout layout'' :=
  ⟨h.kind.trans h'.kind, h.metadata.trans h'.metadata, h.name.trans h'.name,
    h.children.trans h'.children⟩

section Same

variable {graph : ObjectGraph} {metadata : List ExfatObjectMetadata} {layouts : Layouts}
  {f : ObjectId → ObjectLayout → ObjectLayout} (hf : ∀ object layout, SameEntry (f object layout) layout)

include hf

theorem LayoutsFor.map (h : LayoutsFor graph metadata layouts) :
    LayoutsFor graph metadata (layouts.map fun item => (item.1, f item.1 item.2)) where
  keys := by
    rw [Layouts.keys_map]
    exact h.keys
  names := h.names
  described object hobject layout hlayout := by
    obtain ⟨item, hitem, heq⟩ := List.mem_map.1 hlayout
    obtain ⟨hid, rfl⟩ := Prod.mk.inj heq
    have hsame := hf item.1 item.2
    obtain ⟨hkind, hroot, hmetadata, hname, hchildren⟩ := h.described object hobject item.2
      (by rw [← hid]; exact hitem)
    exact ⟨hsame.kind.trans hkind, fun hr => hsame.metadata.trans (hroot hr),
      fun hr => by rw [hsame.metadata]; exact hmetadata hr,
      fun hr => by rw [hsame.name]; exact hname hr, by rwa [hsame.children]⟩

theorem bind_name_map (child : ObjectId) :
    ((Layouts.get? (layouts.map fun item => (item.1, f item.1 item.2)) child).bind
      ObjectLayout.name) = (layouts.get? child).bind ObjectLayout.name := by
  rw [Layouts.get?_map f]
  cases layouts.get? child with
  | none => rfl
  | some layout => exact (hf child layout).name

theorem Folded.map {upcase : UpcaseTable} (h : Folded layouts upcase) :
    Folded (layouts.map fun item => (item.1, f item.1 item.2)) upcase := by
  intro entry hentry
  obtain ⟨item, hitem, rfl⟩ := List.mem_map.1 hentry
  obtain ⟨names, hnames, hnodup⟩ := h item hitem
  refine ⟨names, ?_, hnodup⟩
  rw [← hnames, (hf item.1 item.2).children]
  exact List.map_congr_left fun child _ => bind_name_map hf child

theorem childEntryCount_map (sum : ℕ) (children : List ObjectId) :
    childEntryCount (layouts.map fun item => (item.1, f item.1 item.2)) sum children =
      childEntryCount layouts sum children := by
  induction children generalizing sum with
  | nil => rfl
  | cons child rest ih =>
    rw [childEntryCount, childEntryCount, Layouts.index, Layouts.index, Layouts.get?_map f]
    cases layouts.get? child with
    | none => rfl
    | some layout =>
      simp only [Option.map_some, orErr_some, ok_bind, (hf child layout).name, ih]

theorem directoryLength_map (object root : ObjectId) (hasVolumeLabel : Bool) :
    directoryLength object root (layouts.map fun item => (item.1, f item.1 item.2)) hasVolumeLabel =
      directoryLength object root layouts hasVolumeLabel := by
  rw [directoryLength, directoryLength, Layouts.index, Layouts.index, Layouts.get?_map f]
  cases layouts.get? object with
  | none => rfl
  | some layout =>
    simp only [Option.map_some, orErr_some, ok_bind, (hf object layout).children,
      childEntryCount_map hf]

end Same

/-! ## The order of the directories -/

/-- The directories among the children of a directory. -/
def childDirectories (layouts : Layouts) (object : ObjectId) : List ObjectId :=
  ((layouts.get? object).map ObjectLayout.children).getD [] |>.filter fun child =>
    ((layouts.get? child).map ObjectLayout.kind) = some .directory

theorem subdirectories_ok {layouts : Layouts} {children out : List ObjectId}
    (h : subdirectories layouts children = .ok out) :
    out = children.filter fun child =>
      ((layouts.get? child).map ObjectLayout.kind) = some .directory := by
  induction children generalizing out with
  | nil =>
    rw [subdirectories, pure_eq_ok, Except.ok.injEq] at h
    exact h.symm
  | cons child rest ih =>
    simp only [subdirectories, bind_ok_iff, Layouts.index, orErr_ok_iff, pure_eq_ok,
      Except.ok.injEq] at h
    obtain ⟨layout, hlayout, more, hmore, rfl⟩ := h
    rw [List.filter_cons, hlayout, Option.map_some, ih hmore]
    simp only [Option.some.injEq, decide_eq_true_eq]

theorem directoryOrderLoop_ok {layouts : Layouts} {fuel cursor : ℕ} {order out : List ObjectId}
    (h : directoryOrderLoop layouts fuel order cursor = .ok out) :
    out = breadthFirst (childDirectories layouts) fuel order cursor := by
  induction fuel generalizing order cursor with
  | zero =>
    rw [directoryOrderLoop, pure_eq_ok, Except.ok.injEq] at h
    exact h.symm
  | succ fuel ih =>
    rw [directoryOrderLoop] at h
    rw [breadthFirst]
    cases hcurrent : order[cursor]? with
    | none =>
      rw [hcurrent] at h
      exact (Except.ok.inj h).symm
    | some current =>
      rw [hcurrent] at h
      simp only [bind_ok_iff, Layouts.index, orErr_ok_iff] at h
      obtain ⟨layout, hlayout, more, hmore, h⟩ := h
      have hchildren : childDirectories layouts current = more := by
        rw [subdirectories_ok hmore, childDirectories, hlayout]
        rfl
      rw [ih h]
      dsimp only
      rw [hchildren]

section Order

variable {graph : ObjectGraph} {metadata : List ExfatObjectMetadata} {layouts : Layouts}

/-- No object but the root is linked twice, and the root not at all. -/
theorem nodup_targets (hlinks : ∀ object ∈ graph.objects, object.id ≠ graph.root →
      object.linkCount = 1) : (graph.entries.map NamespaceEntry.target).Nodup := by
  obtain ⟨maxName, hspace⟩ := namespaceValid graph
  rw [List.nodup_iff_count_le_one]
  intro id
  by_cases hmem : id ∈ graph.entries.map NamespaceEntry.target
  · obtain ⟨entry, hentry, rfl⟩ := List.mem_map.1 hmem
    have hvalid := hspace.entries_valid entry hentry
    obtain ⟨object, hobject, hid⟩ := List.mem_map.1 (ObjectGraph.mem_ids_of_kindOf hvalid.target)
    have hroot : object.id ≠ graph.root := hid ▸ hvalid.not_root
    have hcount := (hspace.link_counts object hobject hroot).2
    rw [hlinks object hobject hroot, hid] at hcount
    rw [List.count_eq_countP, List.countP_map, hcount]
    exact le_of_eq (List.countP_congr fun other _ => by simp)
  · rw [List.count_eq_zero_of_not_mem hmem]
    exact Nat.zero_le _

variable (hlayouts : LayoutsFor graph metadata layouts)

include hlayouts

theorem LayoutsFor.nodup : (layouts.map Prod.fst).Nodup := by
  obtain ⟨maxName, hspace⟩ := namespaceValid graph
  exact hlayouts.keys.nodup_iff.2 hspace.objects_distinct

/-- The layout of an object describes the object. -/
theorem LayoutsFor.get?_object {object : ObjectRecord} (hobject : object ∈ graph.objects) :
    ∃ layout, layouts.get? object.id = some layout ∧ Described graph metadata object layout := by
  have hmem : object.id ∈ layouts.map Prod.fst :=
    hlayouts.keys.mem_iff.2 (List.mem_map_of_mem hobject)
  obtain ⟨item, hitem, hid⟩ := List.mem_map.1 hmem
  have hlayout : (object.id, item.2) ∈ layouts := hid ▸ hitem
  exact ⟨item.2, (Layouts.get?_eq_some hlayouts.nodup).2 hlayout,
    hlayouts.described object hobject item.2 hlayout⟩

theorem LayoutsFor.object_of_get? {id : ObjectId} {layout : ObjectLayout}
    (h : layouts.get? id = some layout) :
    ∃ object ∈ graph.objects, object.id = id ∧ Described graph metadata object layout := by
  have hmem := (Layouts.get?_eq_some hlayouts.nodup).1 h
  obtain ⟨object, hobject, rfl⟩ := List.mem_map.1
    (hlayouts.keys.mem_iff.1 (List.mem_map_of_mem (f := Prod.fst) hmem))
  exact ⟨object, hobject, rfl, hlayouts.described object hobject layout hmem⟩

theorem LayoutsFor.kind_get? (id : ObjectId) :
    (layouts.get? id).map ObjectLayout.kind = ObjectGraph.kindOf graph.objects id := by
  obtain ⟨maxName, hspace⟩ := namespaceValid graph
  cases hlayout : layouts.get? id with
  | some layout =>
    obtain ⟨object, hobject, rfl, hdescribed⟩ := hlayouts.object_of_get? hlayout
    rw [Option.map_some, hdescribed.kind, ObjectGraph.kindOf]
    cases hfind : graph.objects.find? fun other => other.id = object.id with
    | none =>
      have hne := List.find?_eq_none.1 hfind object hobject
      simp at hne
    | some other =>
      have hid : other.id = object.id := by simpa using List.find?_some hfind
      have hsame := List.inj_on_of_nodup_map hspace.objects_distinct (List.mem_of_find?_eq_some hfind)
        hobject hid
      rw [hsame]
      rfl
  | none =>
    by_contra hne
    have hsome : (ObjectGraph.kindOf graph.objects id).isSome = true := by
      rw [Option.isSome_iff_ne_none]
      exact fun hnone => hne hnone.symm
    obtain ⟨object, hobject, rfl⟩ := List.mem_map.1 (ObjectGraph.mem_ids_of_kindOf hsome)
    obtain ⟨layout, hget, -⟩ := hlayouts.get?_object hobject
    rw [hlayout] at hget
    cases hget

theorem LayoutsFor.mem_childDirectories {a b : ObjectId} : b ∈ childDirectories layouts a ↔
    ObjectGraph.DirectoryEdge (ObjectGraph.kindOf graph.objects) graph.entries a b := by
  obtain ⟨maxName, hspace⟩ := namespaceValid graph
  unfold childDirectories
  rw [List.mem_filter, decide_eq_true_iff, hlayouts.kind_get?]
  constructor
  · rintro ⟨hchild, hkind⟩
    cases hlayout : layouts.get? a with
    | none =>
      rw [hlayout] at hchild
      cases hchild
    | some layout =>
      obtain ⟨object, -, rfl, hdescribed⟩ := hlayouts.object_of_get? hlayout
      rw [hlayout, Option.map_some, Option.getD_some] at hchild
      obtain ⟨entry, hentry, rfl⟩ := List.mem_map.1 (hdescribed.children.mem_iff.1 hchild)
      obtain ⟨hmem, hparent⟩ := List.mem_filter.1 hentry
      exact ⟨entry, hmem, by simpa using hparent, rfl, hkind⟩
  · rintro ⟨entry, hentry, rfl, rfl, hkind⟩
    refine ⟨?_, hkind⟩
    obtain ⟨object, hobject, hid⟩ := List.mem_map.1 (ObjectGraph.mem_ids_of_kindOf (by
      rw [(hspace.entries_valid entry hentry).parent]
      rfl : (ObjectGraph.kindOf graph.objects entry.parent).isSome = true))
    obtain ⟨layout, hlayout, hdescribed⟩ := hlayouts.get?_object hobject
    rw [← hid, hlayout, Option.map_some, Option.getD_some]
    refine hdescribed.children.mem_iff.2 (List.mem_map.2 ⟨entry, ?_, rfl⟩)
    rw [List.mem_filter, hid]
    exact ⟨hentry, by simp⟩

/-- The directories of the graph are a tree. -/
theorem LayoutsFor.tree (htargets : (graph.entries.map NamespaceEntry.target).Nodup) :
    Tree (childDirectories layouts) graph.root where
  nodup a := by
    unfold childDirectories
    refine List.Nodup.filter _ ?_
    cases hlayout : layouts.get? a with
    | none => exact List.nodup_nil
    | some layout =>
      obtain ⟨object, -, rfl, hdescribed⟩ := hlayouts.object_of_get? hlayout
      rw [Option.map_some, Option.getD_some, hdescribed.children.nodup_iff]
      exact htargets.sublist (List.filter_sublist.map _)
  apart a b hne id ha hb := by
    obtain ⟨entry, hentry, rfl, rfl, -⟩ := hlayouts.mem_childDirectories.1 ha
    obtain ⟨other, hother, rfl, htarget, -⟩ := hlayouts.mem_childDirectories.1 hb
    exact hne (congrArg NamespaceEntry.parent
      (List.inj_on_of_nodup_map htargets hentry hother htarget.symm))
  root_notMem a ha := by
    obtain ⟨maxName, hspace⟩ := namespaceValid graph
    obtain ⟨entry, hentry, -, htarget, -⟩ := hlayouts.mem_childDirectories.1 ha
    exact (hspace.entries_valid entry hentry).not_root htarget

/-- **The order of the directories** has every directory of the graph once. -/
theorem directoryOrder_ok (htargets : (graph.entries.map NamespaceEntry.target).Nodup)
    {order : List ObjectId} (h : directoryOrder graph layouts = .ok order) :
    order.Nodup ∧ ∀ id, id ∈ order ↔ ObjectGraph.kindOf graph.objects id = some .directory := by
  obtain ⟨maxName, hspace⟩ := namespaceValid graph
  obtain rfl := directoryOrderLoop_ok h
  set nodes : Finset ObjectId := ((layouts.map Prod.fst).filter fun id =>
    ObjectGraph.kindOf graph.objects id = some .directory).toFinset with hnodesEq
  have hmem : ∀ id, id ∈ nodes ↔ ObjectGraph.kindOf graph.objects id = some .directory := by
    intro id
    rw [hnodesEq, List.mem_toFinset, List.mem_filter, decide_eq_true_iff, and_iff_right_iff_imp]
    intro hkind
    refine hlayouts.keys.mem_iff.2 (ObjectGraph.mem_ids_of_kindOf ?_)
    rw [hkind]
    rfl
  have hcard : nodes.card ≤ layouts.length + 0 := by
    refine (List.toFinset_card_le _).trans ((List.length_filter_le _ _).trans ?_)
    rw [List.length_map]
    exact le_rfl
  obtain ⟨hnodup, hall, hclosed⟩ := breadthFirst_spec (hlayouts.tree htargets)
    (fun a _ b hb => (hmem b).2 (by
      obtain ⟨_, -, -, -, hkind⟩ := hlayouts.mem_childDirectories.1 hb
      exact hkind)) Passed.start (List.nodup_singleton _) (fun a ha => by
      rw [List.mem_singleton.1 ha]
      exact (hmem _).2 hspace.root_directory) hcard
  refine ⟨hnodup, fun id => ⟨fun hid => (hmem id).1 (hall id hid), fun hkind => ?_⟩⟩
  obtain ⟨object, hobject, rfl⟩ := List.mem_map.1 (ObjectGraph.mem_ids_of_kindOf (by
    rw [hkind]
    rfl : (ObjectGraph.kindOf graph.objects id).isSome = true))
  have hpath := (ObjectGraph.directoryPath_of_linkPath
    (fun entry hentry => (hspace.entries_valid entry hentry).parent)
    (hspace.reachable object hobject)).1 hkind
  have hle : ObjectGraph.DirectoryEdge (ObjectGraph.kindOf graph.objects) graph.entries ≤
      fun a b => b ∈ childDirectories layouts a :=
    fun a b hedge => hlayouts.mem_childDirectories.2 hedge
  exact mem_of_reach hclosed (Relation.ReflTransGen.mono hle _ _ hpath)

end Order

/-! ## The clusters of the directories -/

/-- Where a directory lies: the clusters have room for its entries and an end marker. -/
structure PlacedAt (layouts : Layouts) (root : ObjectId) (hasVolumeLabel : Bool)
    (clusterBytes : ℕ) (f : ObjectId → ObjectLayout → ObjectLayout) (object : ObjectId)
    (allocation : Allocation) : Prop where
  present : (layouts.get? object).isSome = true
  clusters : ∀ layout, (f object layout).directoryClusters = allocation.clusters
  length : ∃ bytes, directoryLength object root layouts hasVolumeLabel = .ok bytes ∧
    clustersFor bytes clusterBytes = .ok allocation.clusterCount
  low : 2 ≤ allocation.firstCluster

/-- Places are given without a change to what the directories tell. -/
structure Places (layouts out : Layouts) (f : ObjectId → ObjectLayout → ObjectLayout)
    (order : List ObjectId) : Prop where
  layouts_eq : out = layouts.map fun item => (item.1, f item.1 item.2)
  same : ∀ object layout, SameEntry (f object layout) layout
  stream : ∀ object layout, (f object layout).stream = layout.stream
  others : ∀ object ∉ order, ∀ layout, f object layout = layout

/-- The directory with its clusters. -/
def withDirectory (allocation : Allocation) (bytes : ℕ) (layout : ObjectLayout) : ObjectLayout :=
  { layout with directoryClusters := allocation.clusters, directoryBytes := bytes }

section Place

variable {root : ObjectId} {hasVolumeLabel : Bool} {clusterBytes maxDirectoryBytes : ℕ}
  {pinned : Option PinnedExfatLayout} {clusters : List ℕ}

theorem placeDirectory_ok {pinnedAt : Option Allocation} {state out : DirectoryState}
    {object : ObjectId} (howned : Owned state.occupied clusters)
    (hpinned : ∀ allocation ∈ pinnedAt, 2 ≤ allocation.firstCluster)
    (h : placeDirectory root hasVolumeLabel clusterBytes maxDirectoryBytes pinnedAt state object =
      .ok out) :
    ∃ allocation bytes, Owned out.occupied (clusters ++ allocation.clusters) ∧
      out.occupied.length = state.occupied.length ∧
      out.layouts = state.layouts.modify object (withDirectory allocation bytes) ∧
      (state.layouts.get? object).isSome = true ∧
      directoryLength object root state.layouts hasVolumeLabel = .ok bytes ∧
      clustersFor bytes clusterBytes = .ok allocation.clusterCount ∧ 2 ≤ allocation.firstCluster := by
  simp only [placeDirectory, bind_ok_iff, ensure_ok_iff, orErr_ok_iff, expandAllocation, pure_eq_ok,
    Except.ok.injEq] at h
  obtain ⟨bytes, hbytes, _, -, count, hcount, ⟨occupied, allocation⟩, hplace, layout, hlayout, _,
    ⟨_, -, rfl⟩, rfl⟩ := h
  obtain ⟨hresult, hlen, rfl, hlow⟩ := placeAllocation_ok howned hpinned hplace
  exact ⟨allocation, bytes, hresult, hlen, rfl, by rw [hlayout]; rfl, hbytes, hcount, hlow⟩

/-- **The clusters of the directories.** Each directory of the order gets clusters that nothing else
has. -/
theorem placeDirectories_ok {order : List ObjectId} {index : ℕ} {state out : DirectoryState}
    (howned : Owned state.occupied clusters) (hnodup : order.Nodup)
    (hpinned : ∀ layout ∈ pinned, ∀ item ∈ layout.directories, 2 ≤ item.2.firstCluster)
    (h : placeDirectories root hasVolumeLabel clusterBytes maxDirectoryBytes pinned index state order =
      .ok out) :
    ∃ f allocations, Places state.layouts out.layouts f order ∧
      List.Forall₂ (PlacedAt state.layouts root hasVolumeLabel clusterBytes f) order allocations ∧
      Owned out.occupied (clusters ++ allocations.flatMap Allocation.clusters) ∧
      out.occupied.length = state.occupied.length := by
  induction order generalizing state clusters index with
  | nil =>
    rw [placeDirectories, pure_eq_ok, Except.ok.injEq] at h
    subst h
    refine ⟨fun _ layout => layout, [], ⟨by simp, fun _ _ => ⟨rfl, rfl, rfl, rfl⟩, fun _ _ => rfl,
      fun _ _ _ => rfl⟩, .nil, by simpa using howned, rfl⟩
  | cons object rest ih =>
    obtain ⟨hfresh, hrest⟩ := List.nodup_cons.1 hnodup
    simp only [placeDirectories, bind_ok_iff] at h
    obtain ⟨next, hnext, h⟩ := h
    obtain ⟨allocation, bytes, hsingle, hlen, hlayouts, hpresent, hlength, hcount, hlow⟩ :=
      placeDirectory_ok howned (fun other hother => by
        obtain ⟨layout, hlayout, hother⟩ := Option.bind_eq_some_iff.1 hother
        obtain ⟨item, hitem, rfl⟩ := Option.map_eq_some_iff.1 hother
        exact hpinned layout hlayout item (List.mem_of_getElem? hitem)) hnext
    obtain ⟨f, allocations, hplaces, hplaced, hresult, hlen'⟩ := ih hsingle hrest h
    set first : ObjectId → ObjectLayout → ObjectLayout := fun id layout =>
      if id = object then withDirectory allocation bytes layout else layout with hfirst
    have hmodify : next.layouts = state.layouts.map fun item => (item.1, first item.1 item.2) := by
      rw [hlayouts, Layouts.modify_eq_map]
    have hsame : ∀ id layout, SameEntry (first id layout) layout := by
      intro id layout
      rw [hfirst]
      dsimp only
      split_ifs <;> exact ⟨rfl, rfl, rfl, rfl⟩
    refine ⟨fun id layout => f id (first id layout), allocation :: allocations, ⟨?_, fun id layout =>
      (hplaces.same id _).trans (hsame id layout), fun id layout => ?_, fun id hid layout => ?_⟩,
      .cons ⟨hpresent, fun layout => ?_, ⟨bytes, hlength, hcount⟩, hlow⟩ ?_, ?_, hlen'.trans hlen⟩
    · rw [hplaces.layouts_eq, hmodify, List.map_map]
      rfl
    · rw [hplaces.stream, hfirst]
      dsimp only
      split_ifs <;> rfl
    · rw [List.mem_cons, not_or] at hid
      rw [hplaces.others id hid.2, hfirst]
      exact if_neg hid.1
    · rw [hplaces.others object hfresh, hfirst]
      dsimp only
      rw [if_pos rfl]
      rfl
    · refine hplaced.imp fun id other hother => ⟨?_, fun layout => hother.clusters _, ?_, hother.low⟩
      · have hsome := hother.present
        rwa [hmodify, Layouts.get?_map first, Option.isSome_map] at hsome
      · obtain ⟨length, hlength, hcount⟩ := hother.length
        rw [hmodify, directoryLength_map hsame] at hlength
        exact ⟨length, hlength, hcount⟩
    · rwa [List.flatMap_cons, ← List.append_assoc]

end Place

end Serialize

end Exfat

end StarConverter
