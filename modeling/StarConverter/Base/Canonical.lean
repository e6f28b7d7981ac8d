import StarConverter.Base.Codec

/-!
# Canonical encodings

A reader is canonical when what it consumed is the encoding of what it returned: the input from its
start is that encoding, followed by the input from its end. This passes from one record to a run of
them (`readEntries_drop`). An encoding is prefix-free when two encodings with anything behind them agree
only on equal values; then so are runs of equally many (`PrefixFree.flatten`).
-/

namespace Base

section Slices

variable {α : Type}

theorem drop_eq_sliceAt_append (l : List α) (offset n : ℕ) :
    l.drop offset = sliceAt l offset n ++ l.drop (offset + n) := by
  rw [sliceAt, ← List.drop_drop, List.take_append_drop]

theorem readLe?_eq_some {n offset v : ℕ} {bytes : Bytes} (h : readLe? n bytes offset = some v) :
    sliceAt bytes offset n = toLe n v ∧ v < 256 ^ n ∧ offset + n ≤ bytes.length := by
  rw [readLe?, Option.map_eq_some_iff] at h
  obtain ⟨s, hs, rfl⟩ := h
  rw [slice?_eq_some, Nat.add_sub_cancel_left] at hs
  obtain ⟨⟨-, hle⟩, rfl⟩ := hs
  have hlen := length_sliceAt_of_le hle
  refine ⟨?_, ?_, hle⟩
  · have h := toLe_fromLe (sliceAt bytes offset n)
    rw [hlen] at h
    exact h.symm
  · have h := fromLe_lt (sliceAt bytes offset n)
    rw [hlen] at h
    exact h

theorem toLe_injective {n v v' : ℕ} (hv : v < 256 ^ n) (hv' : v' < 256 ^ n)
    (h : toLe n v = toLe n v') : v = v' := by
  have := congrArg fromLe h
  rwa [fromLe_toLe n v hv, fromLe_toLe n v' hv'] at this

end Slices

section Stand

variable {α : Type}

/-- The strings of a table stand one behind the other from `offset` on. -/
def Stand (l : List α) : ℕ → List (List α) → Prop
  | _, [] => True
  | offset, s :: rest => sliceAt l offset s.length = s ∧ Stand l (offset + s.length) rest

theorem Stand.drop_eq {l : List α} {segs : List (List α)} {offset : ℕ} (h : Stand l offset segs) :
    l.drop offset = segs.flatten ++ l.drop (offset + segs.flatten.length) := by
  induction segs generalizing offset with
  | nil => rfl
  | cons s rest ih =>
    obtain ⟨hs, hrest⟩ := h
    rw [drop_eq_sliceAt_append l offset s.length, hs, ih hrest, List.flatten_cons,
      List.append_assoc, List.length_append, Nat.add_assoc]

end Stand

section Chunks

variable {β ε : Type} {f : Bytes → Except ε β} {encode : β → Bytes} {n : ℕ}

/-- A table of equally long encodings, each read by a canonical reader. -/
theorem decodeEach_chunks (hf : ∀ {chunk v}, chunk.length = n → f chunk = .ok v → encode v = chunk)
    {count : ℕ} {bytes : Bytes} {values : List β} (hlen : bytes.length = count * n)
    (h : decodeEach f (chunks n count bytes) = .ok values) :
    values.length = count ∧ (values.map encode).flatten = bytes := by
  induction count generalizing bytes values with
  | zero =>
    cases h
    rw [Nat.zero_mul] at hlen
    exact ⟨rfl, (List.eq_nil_of_length_eq_zero hlen).symm⟩
  | succ count ih =>
    rw [Nat.succ_mul] at hlen
    simp only [chunks, decodeEach, bind_ok_iff, pure_eq_ok, Except.ok.injEq] at h
    obtain ⟨v, hv, more, hmore, rfl⟩ := h
    obtain ⟨hcount, hbytes⟩ := ih (by rw [List.length_drop]; omega) hmore
    refine ⟨by rw [List.length_cons, hcount], ?_⟩
    rw [List.map_cons, List.flatten_cons, hbytes, hf (by rw [List.length_take]; omega) hv,
      List.take_append_drop]

end Chunks

section Entries

variable {β ε : Type} {read : ℕ → ℕ → Except ε (β × ℕ × ℕ)} {encode : β → Bytes} {bytes : Bytes}

/-- A run of records read by a canonical reader. -/
theorem readEntries_drop
    (hread : ∀ {cursor total v}, read cursor total = .ok v →
      bytes.drop cursor = encode v.1 ++ bytes.drop v.2.1 ∧ v.2.1 ≤ bytes.length)
    {count cursor total : ℕ} {r : List β × ℕ × ℕ} (hcursor : cursor ≤ bytes.length)
    (h : readEntries read count cursor total = .ok r) :
    r.1.length = count ∧ bytes.drop cursor = (r.1.map encode).flatten ++ bytes.drop r.2.1 ∧
      r.2.1 ≤ bytes.length := by
  induction count generalizing cursor total r with
  | zero =>
    cases h
    exact ⟨rfl, rfl, hcursor⟩
  | succ count ih =>
    simp only [readEntries, bind_ok_iff, pure_eq_ok, Except.ok.injEq] at h
    obtain ⟨v, hv, rest, hrest, rfl⟩ := h
    obtain ⟨hdrop, hle⟩ := hread hv
    obtain ⟨hlen, hdrops, hles⟩ := ih hle hrest
    refine ⟨by rw [List.length_cons, hlen], ?_, hles⟩
    rw [hdrop, hdrops, List.map_cons, List.flatten_cons, List.append_assoc]

end Entries

section PrefixFree

variable {α β : Type}

/-- The encoding of a value cannot be continued to the encoding of another one. -/
def PrefixFree (encode : β → List α) (P : β → Prop) : Prop :=
  ∀ {v v' rest rest'}, P v → P v' → encode v ++ rest = encode v' ++ rest' → v = v'

theorem PrefixFree.flatten {encode : β → List α} {P : β → Prop} (h : PrefixFree encode P)
    {vs vs' : List β} {rest rest' : List α} (hlen : vs.length = vs'.length)
    (hP : ∀ v ∈ vs, P v) (hP' : ∀ v ∈ vs', P v)
    (heq : (vs.map encode).flatten ++ rest = (vs'.map encode).flatten ++ rest') :
    vs = vs' ∧ rest = rest' := by
  induction vs generalizing vs' with
  | nil =>
    obtain rfl := List.eq_nil_of_length_eq_zero hlen.symm
    exact ⟨rfl, heq⟩
  | cons v vs ih =>
    obtain ⟨v', vs', rfl⟩ := List.exists_cons_of_length_eq_add_one hlen.symm
    obtain ⟨hv, hvs⟩ := List.forall_mem_cons.1 hP
    obtain ⟨hv', hvs'⟩ := List.forall_mem_cons.1 hP'
    simp only [List.map_cons, List.flatten_cons, List.append_assoc] at heq
    obtain rfl := h hv hv' heq
    obtain ⟨rfl, hrest⟩ := ih (by simpa using hlen) hvs hvs' (List.append_cancel_left heq)
    exact ⟨rfl, hrest⟩

/-- A prefix-free encoding with something behind it is read off in one way. -/
theorem PrefixFree.cancel {encode : β → List α} {P : β → Prop} (h : PrefixFree encode P) {v v' : β}
    {rest rest' : List α} (hv : P v) (hv' : P v') (heq : encode v ++ rest = encode v' ++ rest') :
    v = v' ∧ rest = rest' := by
  obtain rfl := h hv hv' heq
  exact ⟨rfl, List.append_cancel_left heq⟩

theorem prefixFree_toLe (n : ℕ) : PrefixFree (toLe n) (· < 256 ^ n) := by
  intro v v' rest rest' hv hv' heq
  exact toLe_injective hv hv' (List.append_inj_left heq (by simp))

/-- The number of the values and then their encodings. -/
def encodeList (encode : β → Bytes) (values : List β) : Bytes :=
  toLe 8 values.length ++ (values.map encode).flatten

theorem PrefixFree.list {encode : β → Bytes} {P : β → Prop} (h : PrefixFree encode P) :
    PrefixFree (encodeList encode) fun values => values.length < 256 ^ 8 ∧ ∀ v ∈ values, P v := by
  rintro values values' rest rest' ⟨hlen, hP⟩ ⟨hlen', hP'⟩ heq
  simp only [encodeList, List.append_assoc] at heq
  obtain ⟨hcount, heq⟩ := PrefixFree.cancel (prefixFree_toLe 8) hlen hlen' heq
  exact (h.flatten hcount hP hP' heq).1

end PrefixFree

section Sorted

variable {α κ : Type*} [LinearOrder κ] {key : α → κ}

/-- Sorting by an injective key depends only on what is sorted. -/
theorem sortByKey_eq_of_perm (hkey : Function.Injective key) {l l' : List α} (h : l.Perm l') :
    sortByKey key l = sortByKey key l' := by
  have hperm := ((sortByKey_perm key l).trans h).trans (sortByKey_perm key l').symm
  exact hperm.eq_of_pairwise (fun a b _ _ hab hba => hkey (le_antisymm hab hba))
    (sortByKey_sorted key l) (sortByKey_sorted key l')

theorem sortByKey_eq_iff_perm (hkey : Function.Injective key) {l l' : List α} :
    sortByKey key l = sortByKey key l' ↔ l.Perm l' := by
  refine ⟨fun h => ?_, sortByKey_eq_of_perm hkey⟩
  exact ((sortByKey_perm key l).symm.trans (List.Perm.of_eq h)).trans (sortByKey_perm key l')

end Sorted

section Perm

variable {α β : Type*}

/-- A map that is injective on two lists does not hide that one is not a reordering of the other. -/
theorem perm_map_iff_of_injOn {f : α → β} {l l' : List α}
    (hf : Set.InjOn f {a | a ∈ l ∨ a ∈ l'}) : (l.map f).Perm (l'.map f) ↔ l.Perm l' := by
  refine ⟨fun h => ?_, fun h => h.map f⟩
  cases l with
  | nil =>
    rw [List.map_nil, List.nil_perm, List.map_eq_nil_iff] at h
    rw [h]
  | cons a rest =>
    have : Nonempty α := ⟨a⟩
    have hinv := hf.leftInvOn_invFunOn
    have hmap : ∀ s : List α, (∀ x ∈ s, x ∈ a :: rest ∨ x ∈ l') →
        (s.map f).map (Function.invFunOn f {x | x ∈ a :: rest ∨ x ∈ l'}) = s := by
      intro s hs
      rw [List.map_map]
      calc s.map (Function.invFunOn f {x | x ∈ a :: rest ∨ x ∈ l'} ∘ f) = s.map id :=
            List.map_congr_left fun x hx => hinv (hs x hx)
        _ = s := List.map_id s
    have hback := h.map (Function.invFunOn f {x | x ∈ a :: rest ∨ x ∈ l'})
    rwa [hmap _ fun _ => Or.inl, hmap _ fun _ => Or.inr] at hback

variable {γ : Type*} {R : α → γ → Prop} {R' : β → γ → Prop} {S : α → β → Prop} {l : List α}
  {l' : List β} {m m' : List γ}

theorem forall₂_match (hS : ∀ a b c, R a c → R' b c → S a b) (h : List.Forall₂ R l m)
    (h' : List.Forall₂ R' l' m) : List.Forall₂ S l l' := by
  induction h generalizing l' with
  | nil =>
    cases h'
    exact .nil
  | cons hab _ ih =>
    cases h' with
    | cons hb hrest => exact .cons (hS _ _ _ hab hb) (ih hrest)

theorem forall₂_unique (hS : ∀ a b c d, R a c → R' b d → S a b → c = d) (h : List.Forall₂ R l m)
    (h' : List.Forall₂ R' l' m') (hs : List.Forall₂ S l l') : m = m' := by
  induction hs generalizing m m' with
  | nil =>
    cases h
    cases h'
    rfl
  | cons hab _ ih =>
    cases h with
    | cons ha hrest =>
      cases h' with
      | cons hb hrest' => rw [hS _ _ _ _ ha hb hab, ih hrest hrest']

/-- Records that determine what they stand for up to `S` are the same up to order exactly when what
they stand for can be matched by `S`. -/
theorem perm_iff_matched (hS : ∀ a b c d, R a c → R' b d → (c = d ↔ S a b))
    (h : List.Forall₂ R l m) (h' : List.Forall₂ R' l' m') :
    m.Perm m' ↔ ∃ matched, List.Forall₂ S l matched ∧ matched.Perm l' := by
  constructor
  · intro hperm
    obtain ⟨matched, hmatched, hl'⟩ := List.perm_comp_forall₂ hperm h'.flip
    exact ⟨matched, forall₂_match (fun a b c ha hb => (hS a b c c ha hb).1 rfl) h hmatched.flip, hl'⟩
  · rintro ⟨matched, hmatched, hl'⟩
    obtain ⟨records, hrecords, hm'⟩ := List.perm_comp_forall₂ hl' h'
    rw [forall₂_unique (fun a b c d ha hb => (hS a b c d ha hb).2) h hrecords hmatched]
    exact hm'

end Perm

end Base
