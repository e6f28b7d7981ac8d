import StarConverter.Exfat.Directory
import StarConverter.Exfat.Upcase
import StarConverter.Object
import Mathlib.Data.List.Lex

/-!
# Names that collide when case is ignored

Siblings whose names fold to the same up-cased name cannot stand in one exFAT directory. The lowest
object of such a group keeps its name, every other gets a suffix `~n` that no name of the directory
folds to, neither an old nor a new one. The groups are taken in the order of their keys and the members
in the order of their objects, so the result is the same renaming in whatever order the entries come
(`caseCollisions_exact`).
-/

namespace StarConverter.CrossFormat

open Base Exfat

/-- The failures of the renaming: those of the recommended table, and running out of suffixes. -/
inductive NtfsToExfatError (ρ : Type)
  | nameDisambiguationFailed (parent : ObjectId)
  | upcase (failure : ρ)
  deriving DecidableEq

/-- The folded names of the directories. -/
abbrev UsedNames := Finset (ObjectId × List UInt16)

def isLegalExfatName (name : List UInt16) : Bool :=
  name ≠ [] ∧ name.length ≤ 255 ∧ name ≠ [0x2E] ∧ name ≠ [0x2E, 0x2E] ∧
    name.any isForbiddenUnit = false ∧ decodesUtf16 name = true

/-- The last index with the property. -/
def rposition {α : Type} (p : α → Bool) (l : List α) : Option ℕ :=
  (l.reverse.findIdx? p).map fun i => l.length - 1 - i

/-- A name in front of its last dot and from it on. -/
def splitExfatStemExt (name : List UInt16) : List UInt16 × List UInt16 :=
  match (rposition (· = 0x2E) name).filter (0 < ·) with
  | none => (name, [])
  | some position => (name.take position, name.drop position)

/-- The stem cut so far that the suffix and the extension fit behind it. -/
def exfatDisambiguatedName (stem ext : List UInt16) (n : ℕ) : Option (List UInt16) :=
  let suffix : List UInt16 := 0x7E :: (Nat.toDigits 10 n).map fun digit => UInt16.ofNat digit.toNat
  (checkedAdd suffix.length ext.length).bind fun needed =>
    if maxFileNameCodeUnits ≤ needed ∨ stem = [] then none
    else
      let maxStem := maxFileNameCodeUnits - needed
      let stem := stem.take (min stem.length maxStem)
      if stem = [] then none else some (stem ++ suffix ++ ext)

section Renaming

variable {ρ : Type} (table : UpcaseTable)

/-- The first legal candidate that folds to no used name. -/
def siblingLoop (parent : ObjectId) (used : UsedNames) (stem ext : List UInt16) :
    ℕ → ℕ → Except (NtfsToExfatError ρ) (List UInt16 × UsedNames)
  | 0, _ => .error (.nameDisambiguationFailed parent)
  | rounds + 1, n =>
    match exfatDisambiguatedName stem ext n with
    | none => siblingLoop parent used stem ext rounds (n + 1)
    | some candidate =>
      if isLegalExfatName candidate = false then siblingLoop parent used stem ext rounds (n + 1)
      else if (parent, table.upcase candidate) ∈ used then
        siblingLoop parent used stem ext rounds (n + 1)
      else .ok (candidate, insert (parent, table.upcase candidate) used)

/-- The suffixes go from `~2` to `~1000000`. -/
def uniqueExfatSiblingName (original : List UInt16) (parent : ObjectId) (used : UsedNames) :
    Except (NtfsToExfatError ρ) (List UInt16 × UsedNames) :=
  let (stem, ext) := splitExfatStemExt original
  siblingLoop table parent used stem ext 999999 2

/-- The directory of an entry and its folded name. -/
def foldedKey (entry : NamespaceEntry) : ObjectId × List UInt16 :=
  (entry.parent, table.upcase entry.name)

/-- The order of the groups. -/
def groupOrder (key : ObjectId × List UInt16) : ℕ ×ₗ List ℕ := toLex (key.1, key.2.map UInt16.toNat)

/-- The order inside a group. -/
def memberOrder (entry : NamespaceEntry) : ℕ ×ₗ List ℕ :=
  toLex (entry.target, entry.name.map UInt16.toNat)

/-- The entry at an index. -/
def entryOf (entries : List NamespaceEntry) (index : ℕ) : NamespaceEntry :=
  entries.getD index ⟨0, 0, []⟩

/-- The groups in the order of their keys, each with the indices of its entries. -/
def groupsOf (entries : List NamespaceEntry) : List ((ObjectId × List UInt16) × List ℕ) :=
  (sortByKey groupOrder (entries.map (foldedKey table)).dedup).map fun key =>
    (key, (List.range entries.length).filter fun i => foldedKey table (entryOf entries i) = key)

/-- Renames the members at the indices one after the other. -/
def renameMembers (parent : ObjectId) : List ℕ → List NamespaceEntry × UsedNames →
    Except (NtfsToExfatError ρ) (List NamespaceEntry × UsedNames)
  | [], state => pure state
  | index :: rest, (entries, used) => do
    let (replacement, used) ← uniqueExfatSiblingName table (entryOf entries index).name parent used
    renameMembers parent rest
      (entries.modify index fun entry => { entry with name := replacement }, used)

/-- In each group the lowest object keeps its name. -/
def renameGroups : List ((ObjectId × List UInt16) × List ℕ) → List NamespaceEntry × UsedNames →
    Except (NtfsToExfatError ρ) (List NamespaceEntry × UsedNames)
  | [], state => pure state
  | ((parent, _), members) :: rest, state =>
    if members.length < 2 then renameGroups rest state
    else do
      let members := sortByKey (fun i => memberOrder (entryOf state.1 i)) members
      let state ← renameMembers table parent (members.drop 1) state
      renameGroups rest state

end Renaming

/-- `recommended` is the generated table, or how its generation failed. -/
def disambiguateExfatCaseCollisions {ρ : Type} (recommended : Except ρ UpcaseTable)
    (entries : List NamespaceEntry) : Except (NtfsToExfatError ρ) (List NamespaceEntry) :=
  if entries.length < 2 then pure entries
  else do
    let table ← recommended.mapError .upcase
    let used := (entries.map (foldedKey table)).toFinset
    let state ← renameGroups table (groupsOf table entries) (entries, used)
    pure state.1

/-! ## The names in order -/

section Run

variable {ρ : Type} (table : UpcaseTable)

/-- New names for the entries, one after the other. -/
def nameRun : List NamespaceEntry → UsedNames →
    Except (NtfsToExfatError ρ) (List (List UInt16) × UsedNames)
  | [], used => pure ([], used)
  | entry :: rest, used => do
    let (name, used) ← uniqueExfatSiblingName table entry.name entry.parent used
    let (names, used) ← nameRun rest used
    pure (name :: names, used)

/-- Gives the entries at the listed indices their names. -/
def applyNames (assoc : List (ℕ × List UInt16)) (entries : List NamespaceEntry) :
    List NamespaceEntry :=
  entries.mapIdx fun i entry => { entry with name := (assoc.lookup i).getD entry.name }

theorem getElem?_applyNames (assoc : List (ℕ × List UInt16)) (entries : List NamespaceEntry) (i : ℕ) :
    (applyNames assoc entries)[i]? =
      entries[i]?.map fun entry => { entry with name := (assoc.lookup i).getD entry.name } :=
  List.getElem?_mapIdx

theorem applyNames_nil (entries : List NamespaceEntry) : applyNames [] entries = entries := by
  refine List.ext_getElem? fun i => ?_
  rw [getElem?_applyNames]
  exact Option.map_id'

theorem applyNames_modify {assoc : List (ℕ × List UInt16)} {entries : List NamespaceEntry} {index : ℕ}
    {name : List UInt16} (h : assoc.lookup index = none) :
    applyNames assoc (entries.modify index fun entry => { entry with name := name }) =
      applyNames ((index, name) :: assoc) entries := by
  refine List.ext_getElem? fun i => ?_
  rw [getElem?_applyNames, getElem?_applyNames]
  by_cases hi : i = index
  · subst hi
    rw [List.getElem?_modify_eq, Option.map_eq_map, Option.map_map, List.lookup_cons_self, h]
    rfl
  · rw [List.getElem?_modify_ne _ _ (Ne.symm hi), List.lookup_cons, beq_eq_false_iff_ne.2 hi]

theorem applyNames_append {first second : List (ℕ × List UInt16)} {entries : List NamespaceEntry}
    (h : ∀ i, (first.lookup i).isSome = true → second.lookup i = none) :
    applyNames second (applyNames first entries) = applyNames (first ++ second) entries := by
  refine List.ext_getElem? fun i => ?_
  rw [getElem?_applyNames, getElem?_applyNames, getElem?_applyNames, Option.map_map, List.lookup_append]
  cases hi : first.lookup i with
  | none => rfl
  | some name =>
    rw [h i (by rw [hi]; rfl)]
    rfl

theorem lookup_zip_eq_none {indices : List ℕ} {names : List (List UInt16)} {i : ℕ}
    (h : i ∉ indices) : (indices.zip names).lookup i = none := by
  rw [List.lookup_eq_none_iff]
  intro p hp
  have hne : i ≠ p.1 := fun heq => h (heq ▸ (List.of_mem_zip hp).1)
  exact bne_iff_ne.2 hne

theorem length_nameRun {entries : List NamespaceEntry} {used used' : UsedNames}
    {names : List (List UInt16)}
    (h : (nameRun table entries used : Except (NtfsToExfatError ρ) _) = .ok (names, used')) :
    names.length = entries.length := by
  induction entries generalizing used names with
  | nil =>
    obtain ⟨rfl, -⟩ := Prod.mk.inj (Except.ok.inj h)
    rfl
  | cons entry rest ih =>
    simp only [nameRun, bind_ok_iff, pure_eq_ok, Except.ok.injEq, Prod.mk.injEq] at h
    obtain ⟨_, -, ⟨names', _⟩, hrest, rfl, rfl⟩ := h
    rw [List.length_cons, List.length_cons, ih hrest]

theorem entryOf_applyNames {assoc : List (ℕ × List UInt16)} {entries : List NamespaceEntry} {i : ℕ}
    (h : assoc.lookup i = none) : entryOf (applyNames assoc entries) i = entryOf entries i := by
  rw [entryOf, entryOf, List.getD_eq_getElem?_getD, List.getD_eq_getElem?_getD, getElem?_applyNames, h]
  exact congrArg (Option.getD · _) Option.map_id'

/-- The members get the names that their entries get in order. -/
theorem renameMembers_eq {parent : ObjectId} {indices : List ℕ} {entries : List NamespaceEntry}
    {used : UsedNames} {entryAt : ℕ → NamespaceEntry} (hnodup : indices.Nodup)
    (hentries : ∀ i ∈ indices, entryOf entries i = entryAt i)
    (hparent : ∀ i ∈ indices, (entryAt i).parent = parent) :
    (renameMembers table parent indices (entries, used) : Except (NtfsToExfatError ρ) _) =
      nameRun table (indices.map entryAt) used >>= fun p =>
        pure (applyNames (indices.zip p.1) entries, p.2) := by
  induction indices generalizing entries used with
  | nil =>
    show Except.ok (entries, used) = Except.ok (applyNames [] entries, used)
    rw [applyNames_nil]
  | cons index rest ih =>
    obtain ⟨hindex, hrest⟩ := List.nodup_cons.1 hnodup
    obtain ⟨hentry, hentries⟩ := List.forall_mem_cons.1 hentries
    obtain ⟨hhead, hparent⟩ := List.forall_mem_cons.1 hparent
    rw [renameMembers, List.map_cons, nameRun, hentry, hhead]
    cases uniqueExfatSiblingName table (entryAt index).name parent used with
    | error e => rfl
    | ok out =>
      obtain ⟨name, used'⟩ := out
      rw [ok_bind, ok_bind]
      dsimp only
      have hkept (i : ℕ) (hi : i ∈ rest) : entryOf (entries.modify index fun entry =>
          { entry with name := name }) i = entryAt i := by
        rw [← hentries i hi, entryOf, entryOf, List.getD_eq_getElem?_getD, List.getD_eq_getElem?_getD,
          List.getElem?_modify_ne _ _ (show index ≠ i from fun h => hindex (h ▸ hi))]
      rw [ih hrest hkept hparent]
      cases nameRun table (rest.map entryAt) used' with
      | error e => rfl
      | ok p =>
        rw [ok_bind, ok_bind, applyNames_modify (lookup_zip_eq_none hindex)]
        rfl

theorem nameRun_append (first second : List NamespaceEntry) (used : UsedNames) :
    (nameRun table (first ++ second) used : Except (NtfsToExfatError ρ) _) =
      nameRun table first used >>= fun p =>
        nameRun table second p.2 >>= fun q => pure (p.1 ++ q.1, q.2) := by
  induction first generalizing used with
  | nil =>
    rw [List.nil_append, nameRun, pure_eq_ok, ok_bind]
    cases nameRun table second used <;> rfl
  | cons entry first ih =>
    rw [List.cons_append, nameRun, nameRun]
    cases uniqueExfatSiblingName table entry.name entry.parent used with
    | error e => rfl
    | ok out =>
      obtain ⟨name, used'⟩ := out
      rw [ok_bind, ok_bind]
      dsimp only
      rw [ih]
      cases nameRun table first used' with
      | error e => rfl
      | ok p =>
        rw [ok_bind, ok_bind]
        show (nameRun table second p.2 >>= fun q => pure (p.1 ++ q.1, q.2)) >>= _ =
          nameRun table second p.2 >>= fun q => pure (name :: p.1 ++ q.1, q.2)
        cases nameRun table second p.2 <;> rfl

/-- The indices of the entries that are renamed, in order. -/
def renamed (entryAt : ℕ → NamespaceEntry) (groups : List ((ObjectId × List UInt16) × List ℕ)) :
    List ℕ :=
  groups.flatMap fun group => (sortByKey (fun i => memberOrder (entryAt i)) group.2).drop 1

theorem mem_renamed_group {entryAt : ℕ → NamespaceEntry} {members : List ℕ} {i : ℕ}
    (h : i ∈ (sortByKey (fun i => memberOrder (entryAt i)) members).drop 1) : i ∈ members :=
  mem_sortByKey.1 (List.mem_of_mem_drop h)

theorem sortByKey_congr {α κ : Type} [LinearOrder κ] {key key' : α → κ} {l : List α}
    (h : ∀ a ∈ l, key a = key' a) : sortByKey key l = sortByKey key' l := by
  have hmap := List.map_insertionSort (r := fun a b => key a ≤ key b)
    (s := fun a b => key' a ≤ key' b) id l fun a ha b hb => by rw [h a ha, h b hb]; rfl
  rwa [List.map_id, List.map_id] at hmap

theorem renameGroups_eq {groups : List ((ObjectId × List UInt16) × List ℕ)}
    {entries : List NamespaceEntry} {used : UsedNames} {entryAt : ℕ → NamespaceEntry}
    (hnodup : (groups.flatMap Prod.snd).Nodup)
    (hentries : ∀ group ∈ groups, ∀ i ∈ group.2, entryOf entries i = entryAt i)
    (hparent : ∀ group ∈ groups, ∀ i ∈ group.2, (entryAt i).parent = group.1.1) :
    (renameGroups table groups (entries, used) : Except (NtfsToExfatError ρ) _) =
      nameRun table ((renamed entryAt groups).map entryAt) used >>= fun p =>
        pure (applyNames ((renamed entryAt groups).zip p.1) entries, p.2) := by
  induction groups generalizing entries used with
  | nil =>
    show Except.ok (entries, used) = Except.ok (applyNames [] entries, used)
    rw [applyNames_nil]
  | cons group groups ih =>
    obtain ⟨⟨parent, folded⟩, members⟩ := group
    obtain ⟨hmembers, hentries⟩ := List.forall_mem_cons.1 hentries
    obtain ⟨hhead, hparent⟩ := List.forall_mem_cons.1 hparent
    rw [List.flatMap_cons, List.nodup_append] at hnodup
    obtain ⟨hnodup, hgroups, hdisjoint⟩ := hnodup
    have hsort : sortByKey (fun i => memberOrder (entryOf entries i)) members =
        sortByKey (fun i => memberOrder (entryAt i)) members :=
      sortByKey_congr fun i hi => congrArg memberOrder (hmembers i hi)
    have hcons : renamed entryAt (((parent, folded), members) :: groups) =
        (sortByKey (fun i => memberOrder (entryAt i)) members).drop 1 ++ renamed entryAt groups :=
      List.flatMap_cons
    rw [hcons, List.map_append, nameRun_append, renameGroups]
    by_cases hshort : members.length < 2
    · have hnone : (sortByKey (fun i => memberOrder (entryAt i)) members).drop 1 = [] := by
        rw [List.drop_eq_nil_iff, length_sortByKey]
        omega
      rw [if_pos hshort, hnone, ih hgroups hentries hparent, List.map_nil]
      show _ = (Except.ok ([], used) >>= fun p => nameRun table _ p.2 >>= fun q =>
        pure (p.1 ++ q.1, q.2)) >>= _
      rw [ok_bind]
      cases nameRun table ((renamed entryAt groups).map entryAt) used <;> rfl
    · rw [if_neg hshort]
      dsimp only
      rw [hsort, renameMembers_eq table (((sortByKey_perm _ _).nodup_iff.2 hnodup).sublist
        (List.drop_sublist _ _)) (fun i hi => hmembers i (mem_renamed_group hi))
        fun i hi => hhead i (mem_renamed_group hi)]
      cases hrun : nameRun table (((sortByKey (fun i => memberOrder (entryAt i)) members).drop 1).map
          entryAt) used with
      | error e => rfl
      | ok p =>
        have hlength := length_nameRun table hrun
        rw [List.length_map] at hlength
        have houtside (i : ℕ) (hi : i ∈ groups.flatMap Prod.snd) :
            (((sortByKey (fun i => memberOrder (entryAt i)) members).drop 1).zip p.1).lookup i = none :=
          lookup_zip_eq_none fun hmem => hdisjoint i (mem_renamed_group hmem) i hi rfl
        rw [ok_bind, ok_bind, pure_eq_ok, ok_bind]
        dsimp only
        rw [ih hgroups (fun group hgroup i hi => by
          rw [entryOf_applyNames (houtside i (List.mem_flatMap.2 ⟨group, hgroup, hi⟩)),
            hentries group hgroup i hi]) hparent]
        cases nameRun table ((renamed entryAt groups).map entryAt) p.2 with
        | error e => rfl
        | ok q =>
          rw [ok_bind, ok_bind]
          show Except.ok (applyNames _ (applyNames _ entries), q.2) =
            Except.ok (applyNames (List.zip (_ ++ _) (p.1 ++ q.1)) entries, q.2)
          rw [List.zip_append hlength.symm, applyNames_append]
          intro i hi
          by_contra hsecond
          have hin : i ∈ groups.flatMap Prod.snd := by
            by_contra hout
            refine hsecond (lookup_zip_eq_none fun hmem => hout ?_)
            obtain ⟨group, hgroup, hmem⟩ := List.mem_flatMap.1 hmem
            exact List.mem_flatMap.2 ⟨group, hgroup, mem_renamed_group hmem⟩
          rw [houtside i hin] at hi
          cases hi

/-! ## The entries in order -/

/-- The entries that are renamed, in order. -/
def renamedEntries (entries : List NamespaceEntry) : List NamespaceEntry :=
  (sortByKey groupOrder (entries.map (foldedKey table)).dedup).flatMap fun key =>
    (sortByKey memberOrder (entries.filter fun entry => foldedKey table entry = key)).drop 1

theorem map_entryOf_range (entries : List NamespaceEntry) :
    (List.range entries.length).map (entryOf entries) = entries := by
  refine List.ext_getElem? fun i => ?_
  rw [List.getElem?_map]
  rcases Nat.lt_or_ge i entries.length with hi | hi
  · rw [List.getElem?_range hi, Option.map_some, entryOf, List.getD_eq_getElem?_getD,
      List.getElem?_eq_getElem hi, Option.getD_some]
  · rw [List.getElem?_eq_none (by rw [List.length_range]; exact hi), List.getElem?_eq_none hi,
      Option.map_none]

theorem map_renamed (entries : List NamespaceEntry) :
    (renamed (entryOf entries) (groupsOf table entries)).map (entryOf entries) =
      renamedEntries table entries := by
  rw [renamed, groupsOf, List.flatMap_map, List.map_flatMap, renamedEntries]
  refine List.flatMap_congr fun key _ => ?_
  rw [List.map_drop]
  congr 1
  have hmap := List.map_insertionSort
    (r := fun a b => memberOrder (entryOf entries a) ≤ memberOrder (entryOf entries b))
    (s := fun a b => memberOrder a ≤ memberOrder b) (entryOf entries)
    ((List.range entries.length).filter fun i => foldedKey table (entryOf entries i) = key)
    fun _ _ _ _ => Iff.rfl
  have hfilter := List.filter_map (f := entryOf entries) (l := List.range entries.length)
    (p := fun entry => decide (foldedKey table entry = key))
  rw [map_entryOf_range] at hfilter
  rw [hfilter]
  exact hmap

theorem groupOrder_injective : Function.Injective groupOrder := by
  rintro ⟨parent, folded⟩ ⟨parent', folded'⟩ h
  obtain ⟨rfl, hmap⟩ := Prod.mk.inj (toLex.injective h)
  have hfolded : folded = folded' := List.map_injective_iff.2 (fun _ _ => UInt16.toNat_inj.1) hmap
  rw [hfolded]

theorem renamedEntries_perm {entries entries' : List NamespaceEntry} (h : entries'.Perm entries)
    (htargets : (entries.map (·.target)).Nodup) :
    renamedEntries table entries' = renamedEntries table entries := by
  have hkeys : sortByKey groupOrder (entries'.map (foldedKey table)).dedup =
      sortByKey groupOrder (entries.map (foldedKey table)).dedup :=
    (sortedBy_sortByKey _ _).eq (sortedBy_sortByKey _ _) (h.map _).dedup
      fun _ _ _ _ hkey => groupOrder_injective hkey
  rw [renamedEntries, renamedEntries, hkeys]
  refine List.flatMap_congr fun key _ => congrArg (List.drop 1) ?_
  refine (sortedBy_sortByKey _ _).eq (sortedBy_sortByKey _ _) (h.filter _) fun a ha b hb hab => ?_
  exact List.inj_on_of_nodup_map htargets (List.mem_of_mem_filter ha) (List.mem_of_mem_filter hb)
    (Prod.mk.inj (toLex.injective hab)).1

/-- The name of an entry after the run over the listed entries. -/
def newName (listed : List NamespaceEntry) (names : List (List UInt16)) (entry : NamespaceEntry) :
    List UInt16 :=
  ((listed.zip names).lookup entry).getD entry.name

theorem lookup_zip_map {α β γ : Type} [BEq α] [LawfulBEq α] [BEq β] [LawfulBEq β] {f : α → β}
    {l : List α} {names : List γ} {a : α} (h : ∀ b ∈ l, f a = f b → a = b) :
    ((l.map f).zip names).lookup (f a) = (l.zip names).lookup a := by
  induction l generalizing names with
  | nil => rfl
  | cons b l ih =>
    obtain ⟨hb, hl⟩ := List.forall_mem_cons.1 h
    cases names with
    | nil => rfl
    | cons name names =>
      rw [List.map_cons, List.zip_cons_cons, List.zip_cons_cons, List.lookup_cons, List.lookup_cons]
      by_cases hab : a = b
      · subst hab
        rw [beq_self_eq_true, beq_self_eq_true]
      · rw [beq_eq_false_iff_ne.2 hab, beq_eq_false_iff_ne.2 fun heq => hab (hb heq)]
        exact ih hl

theorem disambiguate_eq {recommended : Except ρ UpcaseTable} {entries : List NamespaceEntry}
    (htable : recommended = .ok table) (hlength : 2 ≤ entries.length)
    (htargets : (entries.map (·.target)).Nodup) :
    disambiguateExfatCaseCollisions recommended entries =
      nameRun table (renamedEntries table entries) (entries.map (foldedKey table)).toFinset >>= fun p =>
        pure (entries.map fun entry =>
          { entry with name := newName (renamedEntries table entries) p.1 entry }) := by
  have hentries : entries.Nodup := htargets.of_map
  have hgroup (group) (h : group ∈ groupsOf table entries) (i) (hi : i ∈ group.2) :
      i < entries.length ∧ foldedKey table (entryOf entries i) = group.1 := by
    obtain ⟨key, -, rfl⟩ := List.mem_map.1 h
    obtain ⟨hi, hkey⟩ := List.mem_filter.1 hi
    exact ⟨List.mem_range.1 hi, of_decide_eq_true hkey⟩
  have hnodup : ((groupsOf table entries).flatMap Prod.snd).Nodup := by
    rw [List.nodup_flatMap]
    refine ⟨fun group h => ?_, ?_⟩
    · obtain ⟨key, -, rfl⟩ := List.mem_map.1 h
      exact List.nodup_range.filter _
    · rw [groupsOf, List.pairwise_map]
      have hkeys : (sortByKey groupOrder (entries.map (foldedKey table)).dedup).Nodup :=
        (sortByKey_perm _ _).nodup_iff.2 (List.nodup_dedup _)
      refine hkeys.imp fun hne i hi hi' => hne ?_
      rw [← of_decide_eq_true (List.mem_filter.1 hi).2, of_decide_eq_true (List.mem_filter.1 hi').2]
  rw [disambiguateExfatCaseCollisions, if_neg (by omega), htable]
  show (renameGroups table (groupsOf table entries) (entries, (entries.map (foldedKey table)).toFinset)
    >>= fun state => pure state.1) = _
  rw [renameGroups_eq table hnodup (fun _ _ _ _ => rfl)
    fun group h i hi => congrArg Prod.fst (hgroup group h i hi).2, map_renamed]
  cases nameRun table (renamedEntries table entries) (entries.map (foldedKey table)).toFinset with
  | error e => rfl
  | ok p =>
    show (Except.ok (applyNames _ entries) : Except (NtfsToExfatError ρ) _) = .ok _
    refine congrArg _ (List.ext_getElem? fun i => ?_)
    rw [getElem?_applyNames, List.getElem?_map]
    rcases Nat.lt_or_ge i entries.length with hi | hi
    · have hentry : entries[i]? = some (entryOf entries i) := by
        rw [entryOf, List.getD_eq_getElem?_getD, List.getElem?_eq_getElem hi, Option.getD_some]
      rw [hentry, Option.map_some, Option.map_some, newName, ← map_renamed, lookup_zip_map]
      intro j hj heq
      obtain ⟨group, hmem, hj⟩ := List.mem_flatMap.1 hj
      have hjlt := (hgroup group hmem j (mem_renamed_group hj)).1
      rw [entryOf, entryOf, List.getD_eq_getElem?_getD, List.getD_eq_getElem?_getD,
        List.getElem?_eq_getElem hi, List.getElem?_eq_getElem hjlt, Option.getD_some,
        Option.getD_some] at heq
      exact (hentries.getElem_inj_iff).1 heq
    · rw [List.getElem?_eq_none hi, Option.map_none, Option.map_none]

/-! ## What the names satisfy -/

theorem siblingLoop_ok {parent : ObjectId} {used used' : UsedNames} {stem ext name : List UInt16}
    {rounds n : ℕ} (h : (siblingLoop table parent used stem ext rounds n :
      Except (NtfsToExfatError ρ) _) = .ok (name, used')) :
    isLegalExfatName name = true ∧ (parent, table.upcase name) ∉ used ∧
      used' = insert (parent, table.upcase name) used := by
  induction rounds generalizing n with
  | zero => cases h
  | succ rounds ih =>
    rw [siblingLoop] at h
    split at h
    · exact ih h
    · split_ifs at h with hlegal hused
      · exact ih h
      · exact ih h
      · obtain ⟨rfl, rfl⟩ := Prod.mk.inj (Except.ok.inj h)
        exact ⟨Bool.not_eq_false _ ▸ hlegal, hused, rfl⟩

/-- The new names are legal, fold to no used name and to different names of their directories. -/
theorem nameRun_ok {entries : List NamespaceEntry} {used used' : UsedNames}
    {names : List (List UInt16)} (hnodup : entries.Nodup)
    (h : (nameRun table entries used : Except (NtfsToExfatError ρ) _) = .ok (names, used')) :
    (∀ entry ∈ entries, isLegalExfatName (newName entries names entry) = true ∧
      (entry.parent, table.upcase (newName entries names entry)) ∉ used) ∧
      ∀ entry ∈ entries, ∀ entry' ∈ entries,
        (entry.parent, table.upcase (newName entries names entry)) =
          (entry'.parent, table.upcase (newName entries names entry')) → entry = entry' := by
  induction entries generalizing used names with
  | nil => exact ⟨nofun, nofun⟩
  | cons head rest ih =>
    obtain ⟨hhead, hrest⟩ := List.nodup_cons.1 hnodup
    simp only [nameRun, bind_ok_iff, pure_eq_ok, Except.ok.injEq, Prod.mk.injEq] at h
    obtain ⟨⟨name, used1⟩, hname, ⟨names', used2⟩, hrun, rfl, rfl⟩ := h
    obtain ⟨hlegal, hfresh, rfl⟩ := siblingLoop_ok table hname
    obtain ⟨hnew, hinj⟩ := ih hrest hrun
    have hfirst : newName (head :: rest) (name :: names') head = name := by
      rw [newName, List.zip_cons_cons, List.lookup_cons_self, Option.getD_some]
    have hother (entry) (hentry : entry ∈ rest) :
        newName (head :: rest) (name :: names') entry = newName rest names' entry := by
      have hne : entry ≠ head := fun heq => hhead (heq ▸ hentry)
      rw [newName, newName, List.zip_cons_cons, List.lookup_cons, beq_eq_false_iff_ne.2 hne]
    have hapart (entry) (hentry : entry ∈ rest) :
        (entry.parent, table.upcase (newName rest names' entry)) ≠
          (head.parent, table.upcase name) := fun heq =>
      (hnew entry hentry).2 (heq ▸ Finset.mem_insert_self _ _)
    constructor
    · rintro entry (_ | ⟨_, hentry⟩)
      · rw [hfirst]
        exact ⟨hlegal, hfresh⟩
      · rw [hother entry hentry]
        exact ⟨(hnew entry hentry).1, fun hmem =>
          (hnew entry hentry).2 (Finset.mem_insert_of_mem hmem)⟩
    · rintro entry (_ | ⟨_, hentry⟩) entry' (_ | ⟨_, hentry'⟩) heq
      · rfl
      · rw [hfirst, hother entry' hentry'] at heq
        exact absurd heq.symm (hapart entry' hentry')
      · rw [hfirst, hother entry hentry] at heq
        exact absurd heq (hapart entry hentry)
      · rw [hother entry hentry, hother entry' hentry'] at heq
        exact hinj entry hentry entry' hentry' heq

/-! ## Which entries keep their names -/

theorem mem_renamedEntries {entries : List NamespaceEntry} {entry : NamespaceEntry} :
    entry ∈ renamedEntries table entries ↔
      entry ∈ (sortByKey memberOrder (entries.filter fun other =>
        foldedKey table other = foldedKey table entry)).drop 1 := by
  rw [renamedEntries, List.mem_flatMap]
  constructor
  · rintro ⟨key, -, hentry⟩
    have hkey := of_decide_eq_true (List.mem_filter.1 (mem_sortByKey.1 (List.mem_of_mem_drop hentry))).2
    rwa [hkey]
  · intro hentry
    have hmem := (List.mem_filter.1 (mem_sortByKey.1 (List.mem_of_mem_drop hentry))).1
    exact ⟨_, mem_sortByKey.2 (List.mem_dedup.2 (List.mem_map_of_mem hmem)), hentry⟩

/-- An entry keeps its name exactly when it stands first in its group. -/
theorem not_mem_renamedEntries {entries : List NamespaceEntry} {entry : NamespaceEntry}
    (htargets : (entries.map (·.target)).Nodup) (hentry : entry ∈ entries) :
    entry ∉ renamedEntries table entries ↔ ∀ other ∈ entries,
      foldedKey table other = foldedKey table entry → entry.target ≤ other.target := by
  rw [mem_renamedEntries]
  have hsorted := sortByKey_sorted memberOrder (entries.filter fun other =>
    foldedKey table other = foldedKey table entry)
  have hmem (other : NamespaceEntry) : other ∈ sortByKey memberOrder (entries.filter fun other =>
      foldedKey table other = foldedKey table entry) ↔
      other ∈ entries ∧ foldedKey table other = foldedKey table entry := by
    rw [mem_sortByKey, List.mem_filter, decide_eq_true_iff]
  have hnodup : (sortByKey memberOrder (entries.filter fun other =>
      foldedKey table other = foldedKey table entry)).Nodup :=
    (sortByKey_perm _ _).nodup_iff.2 (htargets.of_map.filter _)
  generalize sortByKey memberOrder (entries.filter fun other =>
    foldedKey table other = foldedKey table entry) = group at hsorted hmem hnodup
  cases group with
  | nil => exact absurd ((hmem entry).2 ⟨hentry, rfl⟩) List.not_mem_nil
  | cons head rest =>
    rw [List.drop_one, List.tail_cons]
    obtain ⟨hhead, hsorted⟩ := List.pairwise_cons.1 hsorted
    have hle (other : NamespaceEntry) (hother : other ∈ rest) : head.target ≤ other.target := by
      rcases (Prod.Lex.le_iff.1 (hhead other hother)) with hlt | ⟨heq, -⟩
      · exact hlt.le
      · exact heq.le
    constructor
    · intro hnot other hother hkey
      obtain rfl : entry = head := by
        rcases List.mem_cons.1 ((hmem entry).2 ⟨hentry, rfl⟩) with h | h
        · exact h
        · exact absurd h hnot
      rcases List.mem_cons.1 ((hmem other).2 ⟨hother, hkey⟩) with rfl | h
      · exact le_rfl
      · exact hle other h
    · intro hleast hrest
      obtain ⟨hin, hkey⟩ := (hmem head).1 List.mem_cons_self
      have heq := List.inj_on_of_nodup_map htargets hentry hin
        (le_antisymm (hleast head hin hkey) (hle entry hrest))
      exact (List.nodup_cons.1 hnodup).1 (heq ▸ hrest)

theorem mem_of_mem_renamedEntries {entries : List NamespaceEntry} {entry : NamespaceEntry}
    (h : entry ∈ renamedEntries table entries) : entry ∈ entries :=
  List.mem_of_mem_filter (mem_sortByKey.1 (List.mem_of_mem_drop ((mem_renamedEntries table).1 h)))

theorem nodup_renamedEntries {entries : List NamespaceEntry}
    (htargets : (entries.map (·.target)).Nodup) : (renamedEntries table entries).Nodup := by
  rw [renamedEntries, List.nodup_flatMap]
  refine ⟨fun key _ => (((sortByKey_perm _ _).nodup_iff.2 (htargets.of_map.filter _)).sublist
    (List.drop_sublist _ _)), ?_⟩
  have hkeys : (sortByKey groupOrder (entries.map (foldedKey table)).dedup).Nodup :=
    (sortByKey_perm _ _).nodup_iff.2 (List.nodup_dedup _)
  refine hkeys.imp fun hne entry h h' => hne ?_
  have hkey := of_decide_eq_true (List.mem_filter.1 (mem_sortByKey.1 (List.mem_of_mem_drop h))).2
  have hkey' := of_decide_eq_true (List.mem_filter.1 (mem_sortByKey.1 (List.mem_of_mem_drop h'))).2
  exact hkey.symm.trans hkey'

theorem newName_of_not_mem {listed : List NamespaceEntry} {names : List (List UInt16)}
    {entry : NamespaceEntry} (h : entry ∉ listed) : newName listed names entry = entry.name := by
  have hnone : (listed.zip names).lookup entry = none := by
    rw [List.lookup_eq_none_iff]
    intro p hp
    exact bne_iff_ne.2 fun heq => h (heq ▸ (List.of_mem_zip hp).1)
  rw [newName, hnone, Option.getD_none]

end Run

theorem length_le_of_isLegalExfatName {name : List UInt16} (h : isLegalExfatName name = true) :
    name.length ≤ 255 := (of_decide_eq_true h).2.1

/-- **Case collisions.** The result gives every entry the name that one renaming chooses for it, in
whatever order the entries come. Parents and targets stay, the names are legal, siblings fold to
different names, and the lowest object of a group keeps its name. -/
theorem caseCollisions_exact {ρ : Type} {recommended : Except ρ UpcaseTable}
    {entries out : List NamespaceEntry} (htargets : (entries.map (·.target)).Nodup)
    (hlegal : ∀ entry ∈ entries, isLegalExfatName entry.name = true)
    (h : disambiguateExfatCaseCollisions recommended entries = .ok out) :
    (∀ table, recommended = .ok table → (out.map (foldedKey table)).Nodup) ∧
      (∀ entry ∈ out, isLegalExfatName entry.name = true ∧ entry.name.length ≤ 255) ∧
      ∃ rename : NamespaceEntry → List UInt16,
        out = entries.map (fun entry => { entry with name := rename entry }) ∧
        (∀ table, recommended = .ok table → ∀ entry ∈ entries,
          (∀ other ∈ entries, foldedKey table other = foldedKey table entry →
            entry.target ≤ other.target) → rename entry = entry.name) ∧
        ∀ entries', entries'.Perm entries →
          disambiguateExfatCaseCollisions recommended entries' =
            .ok (entries'.map fun entry => { entry with name := rename entry }) := by
  by_cases hshort : entries.length < 2
  · have hself (entries : List NamespaceEntry) (h : entries.length < 2) :
        disambiguateExfatCaseCollisions recommended entries = .ok entries := by
      rw [disambiguateExfatCaseCollisions, if_pos h, pure_eq_ok]
    obtain rfl := Except.ok.inj ((hself entries hshort).symm.trans h)
    refine ⟨fun table _ => ?_, fun entry hentry => ⟨hlegal entry hentry,
      length_le_of_isLegalExfatName (hlegal entry hentry)⟩, fun entry => entry.name,
      (List.map_id _).symm, fun _ _ _ _ _ => rfl, fun entries' hperm => ?_⟩
    · match entries, hshort with
      | [], _ => exact List.nodup_nil
      | [entry], _ => exact List.nodup_singleton _
    · rw [hself entries' (hperm.length_eq ▸ hshort)]
      exact congrArg _ (List.map_id _).symm
  cases htable : recommended with
  | error e =>
    rw [disambiguateExfatCaseCollisions, if_neg hshort, htable] at h
    cases h
  | ok table =>
    rw [← htable]
    have hrun := h
    rw [disambiguate_eq table htable (by omega) htargets, bind_ok_iff] at hrun
    obtain ⟨⟨names, used⟩, hrun, hout⟩ := hrun
    obtain rfl := Except.ok.inj hout
    obtain ⟨hnew, hinj⟩ := nameRun_ok table (nodup_renamedEntries table htargets) hrun
    have hkept (entry : NamespaceEntry) (hentry : entry ∉ renamedEntries table entries) :
        newName (renamedEntries table entries) names entry = entry.name := newName_of_not_mem hentry
    have hused (entry : NamespaceEntry) (hentry : entry ∈ entries) :
        foldedKey table entry ∈ (entries.map (foldedKey table)).toFinset :=
      List.mem_toFinset.2 (List.mem_map_of_mem hentry)
    have hlegal' (entry : NamespaceEntry) (hentry : entry ∈ entries) :
        isLegalExfatName (newName (renamedEntries table entries) names entry) = true := by
      by_cases hmem : entry ∈ renamedEntries table entries
      · exact (hnew entry hmem).1
      · rw [hkept entry hmem]
        exact hlegal entry hentry
    refine ⟨fun table' htable' => ?_, fun entry hentry => ?_,
      newName (renamedEntries table entries) names, rfl, fun table' htable' entry hentry hleast => ?_,
      fun entries' hperm => ?_⟩
    · obtain rfl := Except.ok.inj (htable.symm.trans htable')
      rw [List.map_map]
      refine List.Nodup.map_on (fun entry hentry entry' hentry' hkey => ?_) htargets.of_map
      have hkey' : (entry.parent, table.upcase (newName (renamedEntries table entries) names entry)) =
        (entry'.parent, table.upcase (newName (renamedEntries table entries) names entry')) := hkey
      by_cases hmem : entry ∈ renamedEntries table entries <;>
        by_cases hmem' : entry' ∈ renamedEntries table entries
      · exact hinj entry hmem entry' hmem' hkey'
      · rw [hkept entry' hmem'] at hkey'
        exact absurd (hkey' ▸ hused entry' hentry') (hnew entry hmem).2
      · rw [hkept entry hmem] at hkey'
        exact absurd (hkey' ▸ hused entry hentry) (hnew entry' hmem').2
      · rw [hkept entry hmem, hkept entry' hmem'] at hkey'
        have hle := (not_mem_renamedEntries table htargets hentry).1 hmem entry' hentry' hkey'.symm
        have hle' := (not_mem_renamedEntries table htargets hentry').1 hmem' entry hentry hkey'
        exact List.inj_on_of_nodup_map htargets hentry hentry' (le_antisymm hle hle')
    · obtain ⟨entry, hmem, rfl⟩ := List.mem_map.1 hentry
      exact ⟨hlegal' entry hmem, length_le_of_isLegalExfatName (hlegal' entry hmem)⟩
    · obtain rfl := Except.ok.inj (htable.symm.trans htable')
      exact hkept entry ((not_mem_renamedEntries table htargets hentry).2 hleast)
    · have htargets' : (entries'.map (·.target)).Nodup := (hperm.map _).nodup_iff.2 htargets
      have hused' : (entries'.map (foldedKey table)).toFinset =
          (entries.map (foldedKey table)).toFinset := List.toFinset_eq_of_perm _ _ (hperm.map _)
      have hlength := hperm.length_eq
      rw [disambiguate_eq table htable (by omega) htargets', renamedEntries_perm table hperm htargets,
        hused', hrun, ok_bind, pure_eq_ok]

/-- A table that maps `a` to `A` and every other unit below 128 to itself. -/
def smallTable : UpcaseTable :=
  ⟨(List.range 128).map fun unit => if unit = 0x61 then 0x41 else UInt16.ofNat unit⟩

/-- Two siblings that differ in case only. -/
theorem caseCollisions_exact_pair :
    (([⟨5, 9, [0x61, 0x7E, 0x32]⟩, ⟨5, 7, [0x41]⟩] : List NamespaceEntry).map
      (foldedKey smallTable)).Nodup :=
  (@caseCollisions_exact Unit (.ok smallTable) [⟨5, 9, [0x61]⟩, ⟨5, 7, [0x41]⟩] _ (by decide)
    (by decide) (by decide +kernel)).1 smallTable rfl

end StarConverter.CrossFormat
