import StarConverter.Base.Bytes

/-!
# Reading tables and records back

A table is the concatenation of fields of known lengths: a field is the slice at the total length of
the fields before it. A run of records is the concatenation of their encodings: a reader that returns
each record and moves behind it returns all of them. Chunks of a fixed size are the case where every
encoding has the same length.
-/

namespace Base

section Table

variable {α : Type}

@[simp] theorem length_fixedBytes {n : ℕ} (b : FixedBytes n) : b.1.length = n := b.2

/-- The string `s` stands at `offset`. -/
def FieldAt (l : List α) (offset : ℕ) (s : List α) : Prop :=
  offset + s.length ≤ l.length ∧ sliceAt l offset s.length = s

/-- A field of a table between two other strings stands behind the fields before it. -/
theorem fieldAt_table {l a b : List α} {segs : List (List α)} {lengths : List ℕ}
    (hl : l = a ++ segs.flatten ++ b) (hlengths : segs.map List.length = lengths)
    {i k : ℕ} {s : List α} (hs : segs[i]? = some s)
    (hk : a.length + (lengths.take i).sum = k) : FieldAt l k s := by
  subst hl hlengths hk
  obtain ⟨hi, hget⟩ := List.getElem?_eq_some_iff.1 hs
  have hsplit : segs.flatten = (segs.take i).flatten ++ s ++ (segs.drop (i + 1)).flatten := by
    conv_lhs => rw [← List.take_append_drop i segs, List.drop_eq_getElem_cons hi, hget]
    simp
  have hpos : ((segs.map List.length).take i).sum = (segs.take i).flatten.length := by
    rw [List.length_flatten, List.map_take]
  constructor
  · rw [hpos, hsplit]
    simp only [List.length_append]
    omega
  · have heq : a ++ segs.flatten ++ b =
        (a ++ (segs.take i).flatten) ++ (s ++ ((segs.drop (i + 1)).flatten ++ b)) := by
      rw [hsplit]
      simp only [List.append_assoc]
    rw [heq, hpos, ← List.length_append, sliceAt_append_right le_rfl, Nat.sub_self,
      sliceAt_append_left (by omega), sliceAt_zero_length]

namespace FieldAt

variable {l s : List α} {offset : ℕ}

theorem slice (h : FieldAt l offset s) {n : ℕ} (hn : s.length = n) : sliceAt l offset n = s :=
  hn ▸ h.2

theorem getD {a d : α} (h : FieldAt l offset [a]) : l.getD offset d = a := by
  have h0 := congrArg (fun s => s[0]?) h.2
  simp only [List.length_singleton, getElem?_sliceAt] at h0
  rw [List.getD_eq_getElem?_getD]
  simpa using congrArg (fun o => o.getD d) h0

end FieldAt

end Table

section Words

/-- Reserved bytes that are all zero. -/
def AllZero (bytes : Bytes) : Prop := ∀ b ∈ bytes, b = 0

instance (bytes : Bytes) : Decidable (AllZero bytes) :=
  List.decidableBAll (· = 0) bytes

/-- The little-endian word of `n` bytes at `offset`, if it is inside the string. -/
def readLe? (n : ℕ) (bytes : Bytes) (offset : ℕ) : Option ℕ :=
  (slice? bytes offset (offset + n)).map fromLe

theorem FieldAt.readLe? {n offset v : ℕ} {bytes : Bytes} (h : FieldAt bytes offset (toLe n v))
    (hv : v < 256 ^ n) : readLe? n bytes offset = some v := by
  obtain ⟨hin, hslice⟩ := h
  rw [length_toLe] at hin hslice
  have hsome : slice? bytes offset (offset + n) = some (toLe n v) := by
    rw [slice?_eq_some, Nat.add_sub_cancel_left]
    exact ⟨⟨Nat.le_add_right _ _, hin⟩, hslice⟩
  rw [Base.readLe?, hsome, Option.map_some, fromLe_toLe n v hv]

end Words

section Chunks

variable {α β ε : Type}

/-- The first `count` pieces of `n` elements. -/
def chunks (n : ℕ) : ℕ → List α → List (List α)
  | 0, _ => []
  | count + 1, l => l.take n :: chunks n count (l.drop n)

/-- `chunks_exact(n)`: the complete pieces of `n` elements. -/
def chunksExact (n : ℕ) (l : List α) : List (List α) := chunks n (l.length / n) l

theorem length_flatten_of_forall {n : ℕ} {segs : List (List α)} (h : ∀ s ∈ segs, s.length = n) :
    segs.flatten.length = segs.length * n := by
  rw [List.length_flatten, List.map_congr_left h, List.map_const', List.sum_replicate, smul_eq_mul]

theorem chunks_flatten {n : ℕ} {segs : List (List α)} (h : ∀ s ∈ segs, s.length = n) :
    chunks n segs.length segs.flatten = segs := by
  induction segs with
  | nil => rfl
  | cons s rest ih =>
    have hs : s.length = n := h s List.mem_cons_self
    rw [List.flatten_cons, List.length_cons, chunks, List.take_left' hs, List.drop_left' hs,
      ih fun t ht => h t (List.mem_cons_of_mem _ ht)]

theorem chunksExact_flatten {n : ℕ} (hn : 0 < n) {segs : List (List α)}
    (h : ∀ s ∈ segs, s.length = n) : chunksExact n segs.flatten = segs := by
  rw [chunksExact, length_flatten_of_forall h, Nat.mul_div_cancel _ hn, chunks_flatten h]

/-- Decodes every element in order, stopping at the first failure. -/
def decodeEach (f : α → Except ε β) : List α → Except ε (List β)
  | [] => pure []
  | a :: rest => do
    let b ← f a
    let more ← decodeEach f rest
    pure (b :: more)

theorem decodeEach_map {f : α → Except ε β} {encode : β → α} {values : List β}
    (h : ∀ v ∈ values, f (encode v) = .ok v) : decodeEach f (values.map encode) = .ok values := by
  induction values with
  | nil => rfl
  | cons v rest ih =>
    rw [List.map_cons, decodeEach, h v List.mem_cons_self, ok_bind,
      ih fun w hw => h w (List.mem_cons_of_mem _ hw), ok_bind, pure_eq_ok]

/-- Reading fixed-size encodings chunk by chunk returns the values. -/
theorem decodeEach_chunksExact {n : ℕ} (hn : 0 < n) (f : Bytes → Except ε β) (encode : β → Bytes)
    (values : List β) (hlen : ∀ v ∈ values, (encode v).length = n)
    (h : ∀ v ∈ values, f (encode v) = .ok v) :
    decodeEach f (chunksExact n (values.map encode).flatten) = .ok values := by
  have hsegs : ∀ s ∈ values.map encode, s.length = n := by
    intro s hs
    obtain ⟨v, hv, rfl⟩ := List.mem_map.1 hs
    exact hlen v hv
  rw [chunksExact_flatten hn hsegs, decodeEach_map h]

end Chunks

section Entries

variable {β ε : Type}

/-- Reads `count` records one behind the other. A reader gets the position and a running total, and
returns the record with both advanced. -/
def readEntries (read : ℕ → ℕ → Except ε (β × ℕ × ℕ)) :
    ℕ → ℕ → ℕ → Except ε (List β × ℕ × ℕ)
  | 0, cursor, total => pure ([], cursor, total)
  | count + 1, cursor, total => do
    let (value, cursor, total) ← read cursor total
    let (rest, cursor, total) ← readEntries read count cursor total
    pure (value :: rest, cursor, total)

/-- A reader that reads back every single encoding reads back a run of them. -/
theorem readEntries_ok (read : ℕ → ℕ → Except ε (β × ℕ × ℕ)) (encode : β → Bytes) (weight : β → ℕ)
    (bound : ℕ) {bytes : Bytes} {values : List β}
    (hread : ∀ v ∈ values, ∀ before after total, bytes = before ++ encode v ++ after →
      total + weight v ≤ bound →
        read before.length total = .ok (v, before.length + (encode v).length, total + weight v))
    (before after : Bytes) (total : ℕ)
    (hbytes : bytes = before ++ (values.map encode).flatten ++ after)
    (htotal : total + (values.map weight).sum ≤ bound) :
    readEntries read values.length before.length total =
      .ok (values, before.length + (values.map encode).flatten.length,
        total + (values.map weight).sum) := by
  induction values generalizing before total with
  | nil => rfl
  | cons v rest ih =>
    rw [List.map_cons, List.sum_cons] at htotal
    have hhead : bytes = before ++ encode v ++ ((rest.map encode).flatten ++ after) := by
      rw [hbytes, List.map_cons, List.flatten_cons]
      simp only [List.append_assoc]
    have htail : bytes = (before ++ encode v) ++ (rest.map encode).flatten ++ after := by
      rw [hhead]
      simp only [List.append_assoc]
    have hrest := ih (fun w hw => hread w (List.mem_cons_of_mem _ hw)) _ (total + weight v) htail
      (by omega)
    rw [List.length_append] at hrest
    rw [List.length_cons, readEntries, hread v List.mem_cons_self _ _ _ hhead (by omega), ok_bind]
    dsimp only
    rw [hrest, ok_bind]
    simp only [List.map_cons, List.flatten_cons, List.sum_cons, List.length_append, Nat.add_assoc,
      pure_eq_ok]

end Entries

end Base
