import StarConverter.Ntfs.SdsStream

/-!
# The layout of the security descriptor stream

The accepted streams are described without a scan: entries stand back to back at 16-byte alignment in
the first blocks of the pairs (`WellPlaced`), and every byte of the stream is a byte of an entry, a zero,
or the repetition of a byte of the first block (`relayout`). The parser accepts exactly the streams of
this form and returns their entries.
-/

namespace StarConverter.Ntfs.Sds

open Base

variable {sds : Bytes} {n : ℕ}

/-- The entries stand back to back in first blocks of a stream of `n` bytes: each where the one in front
leaves off, or at the start of a later pair. -/
def Placed (n : ℕ) : ℕ → List NtfsSdsEntry → Prop
  | _, [] => True
  | cursor, entry :: entries =>
    (entry.offset = cursor ∨ cursor ≤ entry.offset ∧ entry.offset % 2 ^ 19 = 0) ∧
      entry.offset % 2 ^ 19 + (20 + entry.descriptor.length) ≤ 2 ^ 18 ∧ entry.stop ≤ n ∧
        Placed n (aligned entry.stop) entries

/-- Entries that a stream of `n` bytes can hold. -/
structure WellPlaced (entries : List NtfsSdsEntry) (n : ℕ) : Prop where
  sound : ∀ entry ∈ entries, Sound entry
  ascending : entries.IsChain fun entry next => entry.securityId < next.securityId
  placed : Placed n 0 entries

/-- The byte at a place of a first block: of the entry there, or zero. -/
def primaryByte (entries : List NtfsSdsEntry) (place : ℕ) : UInt8 :=
  match entries.find? fun entry => entry.offset ≤ place ∧ place < entry.stop with
  | some entry => (encodeEntry entry).getD (place - entry.offset) 0
  | none => 0

/-- The stream of `n` bytes with the entries at their offsets and the mirrors behind the first blocks. -/
def relayout (entries : List NtfsSdsEntry) (n : ℕ) : Bytes :=
  (List.range n).map fun place => primaryByte entries (place / 2 ^ 19 * 2 ^ 19 + place % 2 ^ 18)

/-- From a place on the first blocks hold the entries and zeros. -/
structure Filled (sds : Bytes) (start : ℕ) (entries : List NtfsSdsEntry) : Prop where
  bytes : ∀ entry ∈ entries,
    sliceAt sds entry.offset (20 + entry.descriptor.length) = encodeEntry entry
  zero : ∀ i, start ≤ i → i < sds.length → i % 2 ^ 19 < 2 ^ 18 →
    (∀ entry ∈ entries, ¬ (entry.offset ≤ i ∧ i < entry.stop)) → sds.getD i 0 = 0

/-- From a place on the second blocks repeat the first. -/
def Repeats (sds : Bytes) (start : ℕ) : Prop :=
  ∀ i, start ≤ i → i < sds.length → 2 ^ 18 ≤ i % 2 ^ 19 → sds.getD i 0 = sds.getD (i - 2 ^ 18) 0

theorem Placed.le_offset {cursor : ℕ} {entries : List NtfsSdsEntry} (h : Placed n cursor entries) :
    ∀ entry ∈ entries, cursor ≤ entry.offset := by
  induction entries generalizing cursor with
  | nil => nofun
  | cons entry entries ih =>
    obtain ⟨hplace, -, -, hrest⟩ := h
    have hhead : cursor ≤ entry.offset := hplace.elim (fun h => h.ge) And.left
    have hstop := offset_lt_aligned_stop entry
    rintro e (_ | ⟨_, he⟩)
    · exact hhead
    · have := ih hrest e he
      omega

theorem Placed.mono {cursor cursor' : ℕ} {entries : List NtfsSdsEntry} (h : Placed n cursor' entries)
    (hle : cursor ≤ cursor') (hmod : cursor' % 2 ^ 19 = 0) : Placed n cursor entries := by
  cases entries with
  | nil => trivial
  | cons entry entries =>
    obtain ⟨hplace, hrest⟩ := h
    refine ⟨.inr ?_, hrest⟩
    rcases hplace with rfl | ⟨hge, hoffset⟩
    · exact ⟨hle, hmod⟩
    · exact ⟨hle.trans hge, hoffset⟩

theorem Placed.inside {cursor : ℕ} {entries : List NtfsSdsEntry} (h : Placed n cursor entries) :
    ∀ entry ∈ entries,
      entry.offset % 2 ^ 19 + (20 + entry.descriptor.length) ≤ 2 ^ 18 ∧ entry.stop ≤ n := by
  induction entries generalizing cursor with
  | nil => nofun
  | cons entry entries ih =>
    rintro e (_ | ⟨_, he⟩)
    · exact ⟨h.2.1, h.2.2.1⟩
    · exact ih h.2.2.2 e he

theorem aligned_le {stop bound : ℕ} (h : stop ≤ bound) (hbound : bound % 16 = 0) :
    aligned stop ≤ bound := by
  unfold aligned
  omega

/-! ## From the scan to the layout -/

theorem BlockEntries.layout {start cursor used stop : ℕ} {entries more : List NtfsSdsEntry}
    (h : BlockEntries sds (min (start + 2 ^ 18) sds.length) cursor used entries stop)
    (hstart : start % 2 ^ 19 = 0) (hcursor : start ≤ cursor) (hcursor' : cursor ≤ start + 2 ^ 18)
    (hused : used ≤ cursor) (hzero : Zero sds stop (min (start + 2 ^ 18) sds.length))
    (hmore : Placed sds.length (start + 2 ^ 19) more) (hfill : Filled sds (start + 2 ^ 19) more) :
    Placed sds.length cursor (entries ++ more) ∧ Filled sds cursor (entries ++ more) := by
  have hnext : (start + 2 ^ 19) % 2 ^ 19 = 0 := by omega
  -- behind the block there is the mirror, and behind it the further pairs
  have hbehind (i : ℕ) (hi : min (start + 2 ^ 18) sds.length ≤ i) (hin : i < sds.length)
      (hfirst : i % 2 ^ 19 < 2 ^ 18) : start + 2 ^ 19 ≤ i := by omega
  induction h with
  | @stop cursor used hhead =>
    refine ⟨hmore.mono (by omega) hnext, hfill.bytes, fun i hi hin hfirst hcover => ?_⟩
    rcases Nat.lt_or_ge i (min (start + 2 ^ 18) sds.length) with hlt | hge
    · exact hzero i (by omega) hlt
    · exact hfill.zero i (hbehind i hge hin hfirst) hin hfirst hcover
  | @last entry used hat hfull =>
    have hstop := hat.stop_le
    have hoff : entry.stop = entry.offset + (20 + entry.descriptor.length) := rfl
    have hcut : aligned entry.stop ≤ start + 2 ^ 18 := aligned_le (by omega) (by omega)
    refine ⟨⟨.inl rfl, by omega, by omega, hmore.mono (by omega) hnext⟩,
      List.forall_mem_cons.2 ⟨hat.bytes, hfill.bytes⟩, fun i hi hin hfirst hcover => ?_⟩
    obtain ⟨hhead, hcover⟩ := List.forall_mem_cons.1 hcover
    rcases Nat.lt_or_ge i (min (start + 2 ^ 18) sds.length) with hlt | hge
    · exact hzero i (by omega) hlt
    · exact hfill.zero i (hbehind i hge hin hfirst) hin hfirst hcover
  | @cons entry used stop entries hat hfits hpad hrest ih =>
    have hstop := hat.stop_le
    have hoff : entry.stop = entry.offset + (20 + entry.descriptor.length) := rfl
    have hle := le_aligned entry.stop
    obtain ⟨hplaced, hfilled⟩ := ih (by omega) (by omega) (by omega) hzero
    refine ⟨⟨.inl rfl, by omega, by omega, hplaced⟩,
      List.forall_mem_cons.2 ⟨hat.bytes, hfilled.bytes⟩, fun i hi hin hfirst hcover => ?_⟩
    obtain ⟨hhead, hcover⟩ := List.forall_mem_cons.1 hcover
    rcases Nat.lt_or_ge i (aligned entry.stop) with hlt | hge
    · exact hpad i (by omega) hlt
    · exact hfilled.zero i hge hin hfirst hcover

theorem BlockEntries.sound {primaryEnd cursor used stop : ℕ} {entries : List NtfsSdsEntry}
    (h : BlockEntries sds primaryEnd cursor used entries stop) : ∀ entry ∈ entries, Sound entry := by
  induction h with
  | stop => nofun
  | last hat => exact List.forall_mem_singleton.2 hat.sound
  | cons hat _ _ _ ih => exact List.forall_mem_cons.2 ⟨hat.sound, ih⟩

theorem Pairs.layout {start : ℕ} {entries : List NtfsSdsEntry} (h : Pairs sds start entries)
    (hstart : start % 2 ^ 19 = 0) :
    (∀ entry ∈ entries, Sound entry) ∧ Placed sds.length start entries ∧ Filled sds start entries ∧
      Repeats sds start := by
  induction h with
  | done h =>
    exact ⟨nofun, trivial, ⟨nofun, fun i hi hin => by omega⟩, fun i hi hin => by omega⟩
  | @pair start used entries more h hblock hzero hmirror hrest ih =>
    obtain ⟨hsound, hplaced, hfilled, hrepeats⟩ := ih (by omega)
    obtain ⟨hplaced, hfilled⟩ := hblock.layout hstart le_rfl (by omega) le_rfl hzero hplaced hfilled
    refine ⟨List.forall_mem_append.2 ⟨hblock.sound, hsound⟩, hplaced, hfilled, fun i hi hin hodd => ?_⟩
    rcases Nat.lt_or_ge i (start + 2 ^ 19) with hlt | hge
    · exact hmirror i (by omega) hlt hin
    · exact hrepeats i hge hin hodd

/-! ## From the layout to the scan -/

theorem Filled.tail {cursor cursor' : ℕ} {entry : NtfsSdsEntry} {entries : List NtfsSdsEntry}
    (h : Filled sds cursor (entry :: entries)) (hle : cursor ≤ cursor') (hstop : entry.stop ≤ cursor') :
    Filled sds cursor' entries :=
  ⟨(List.forall_mem_cons.1 h.bytes).2, fun i hi hin hfirst hcover =>
    h.zero i (by omega) hin hfirst (List.forall_mem_cons.2 ⟨by omega, hcover⟩)⟩

/-- An entry behind a place of a first block stands there, when it belongs to the block, and ends in it. -/
theorem place_in_block {start cursor offset size : ℕ}
    (hplace : offset = cursor ∨ cursor ≤ offset ∧ offset % 2 ^ 19 = 0)
    (hblock : offset % 2 ^ 19 + (20 + size) ≤ 2 ^ 18) (hstart : start % 2 ^ 19 = 0)
    (hcursor : start ≤ cursor) (hlt : offset < start + 2 ^ 19) :
    offset = cursor ∧ offset + (20 + size) ≤ start + 2 ^ 18 := by
  omega

theorem place_behind_block {start cursor offset : ℕ}
    (hplace : offset = cursor ∨ cursor ≤ offset ∧ offset % 2 ^ 19 = 0)
    (hcursor' : cursor ≤ start + 2 ^ 18) (hge : start + 2 ^ 19 ≤ offset) :
    start + 2 ^ 19 ≤ offset ∧ offset % 2 ^ 19 = 0 := by
  omega

/-- The places of a block are places of a first block. -/
theorem first_of_lt {start i : ℕ} (hstart : start % 2 ^ 19 = 0) (hi : start ≤ i)
    (hlt : i < start + 2 ^ 18) : i % 2 ^ 19 < 2 ^ 18 := by
  omega

/-- Where no entry stands a block is zero. -/
theorem Filled.zero_block {start cursor used : ℕ} {entries : List NtfsSdsEntry}
    (h : Filled sds cursor entries) (hstart : start % 2 ^ 19 = 0) (hcursor : start ≤ cursor)
    (hbetween : Zero sds used (min cursor sds.length))
    (hcover : ∀ i < start + 2 ^ 18, ∀ e ∈ entries, ¬ (e.offset ≤ i ∧ i < e.stop)) :
    Zero sds used (min (start + 2 ^ 18) sds.length) := by
  intro i hi hi'
  rcases Nat.lt_or_ge i cursor with hlt | hge
  · exact hbetween i hi (by omega)
  · exact h.zero i hge (by omega) (first_of_lt hstart (by omega) (by omega)) (hcover i (by omega))

/-- The entries of a block are those in front of the next pair. -/
theorem Placed.block {start cursor used : ℕ} {entries : List NtfsSdsEntry}
    (h : Placed sds.length cursor entries) (hfill : Filled sds cursor entries)
    (hsound : ∀ entry ∈ entries, Sound entry) (hstart : start % 2 ^ 19 = 0) (hcursor : start ≤ cursor)
    (hcursor' : cursor ≤ start + 2 ^ 18) (hused : used ≤ cursor)
    (hbetween : Zero sds used (min cursor sds.length)) :
    ∃ front more stop, entries = front ++ more ∧
      BlockEntries sds (min (start + 2 ^ 18) sds.length) cursor used front stop ∧
        Zero sds stop (min (start + 2 ^ 18) sds.length) ∧ Placed sds.length (start + 2 ^ 19) more ∧
          Filled sds (start + 2 ^ 19) more := by
  induction entries generalizing cursor used with
  | nil =>
    have hzero := hfill.zero_block hstart hcursor hbetween nofun
    exact ⟨[], [], used, rfl, .stop fun _ i hi hi' => hzero i (by omega) (by omega), hzero, trivial,
      nofun, fun i hi => hfill.zero i (by omega)⟩
  | cons entry entries ih =>
    obtain ⟨hplace, hblock, hstop, hrest⟩ := h
    obtain ⟨hsound, hsounds⟩ := List.forall_mem_cons.1 hsound
    have hoff : entry.stop = entry.offset + (20 + entry.descriptor.length) := rfl
    rcases Nat.lt_or_ge entry.offset (start + 2 ^ 19) with hlt | hge
    · -- an entry of this block stands at the cursor
      obtain ⟨rfl, hin⟩ := place_in_block hplace hblock hstart hcursor hlt
      clear hplace hblock hlt
      have hle := le_aligned entry.stop
      have hcut : aligned entry.stop ≤ start + 2 ^ 18 := aligned_le hin (by omega)
      have hat : EntryAt sds (min (start + 2 ^ 18) sds.length) entry :=
        ⟨hsound, le_min hin hstop, hfill.bytes entry List.mem_cons_self⟩
      have hpad : Zero sds entry.stop (min (aligned entry.stop) sds.length) := by
        intro i hi hi'
        refine hfill.zero i (by omega) (by omega) (first_of_lt hstart (by omega) (by omega))
          (List.forall_mem_cons.2 ⟨by omega, fun e he => ?_⟩)
        have := hrest.le_offset e he
        omega
      obtain ⟨front, more, stop, rfl, hfront, hzero, hmore⟩ :=
        ih hrest (hfill.tail (by omega) hle.1) hsounds (by omega) hcut hle.1 hpad
      rcases Nat.lt_or_ge (min (start + 2 ^ 18) sds.length) (aligned entry.stop) with hfull | hfits
      · generalize hc : aligned entry.stop = cursor at hfront
        cases hfront with
        | stop => exact ⟨[entry], more, entry.stop, rfl, .last hat hfull, hzero, hmore⟩
        | last hat' => exact absurd hat'.stop_le (by unfold NtfsSdsEntry.stop; omega)
        | cons hat' => exact absurd hat'.stop_le (by unfold NtfsSdsEntry.stop; omega)
      · rw [Nat.min_eq_left (by omega)] at hpad
        exact ⟨entry :: front, more, stop, rfl, .cons hat hfits hpad hfront, hzero, hmore⟩
    · -- the block holds no further entry
      have hplaced : Placed sds.length (start + 2 ^ 19) (entry :: entries) :=
        ⟨.inr (place_behind_block hplace hcursor' hge), hblock, hstop, hrest⟩
      clear hplace hblock
      have hzero := hfill.zero_block hstart hcursor hbetween fun i hi e he => by
        have := hplaced.le_offset e he
        omega
      exact ⟨[], entry :: entries, used, rfl, .stop fun _ i hi hi' => hzero i (by omega) (by omega),
        hzero, hplaced, hfill.bytes, fun i hi => hfill.zero i (by omega)⟩

theorem pairs_of_layout (rounds : ℕ) {start : ℕ} {entries : List NtfsSdsEntry}
    (hrounds : sds.length < start + rounds) (hplaced : Placed sds.length start entries)
    (hfill : Filled sds start entries) (hsound : ∀ entry ∈ entries, Sound entry)
    (hrepeats : Repeats sds start) (hstart : start % 2 ^ 19 = 0) : Pairs sds start entries := by
  induction rounds generalizing start entries with
  | zero =>
    cases entries with
    | nil => exact .done (by omega)
    | cons entry entries =>
      have hle := hplaced.le_offset entry List.mem_cons_self
      have hstop : entry.offset + _ ≤ _ := hplaced.2.2.1
      omega
  | succ rounds ih =>
    rcases Nat.lt_or_ge start sds.length with hlt | hge
    · obtain ⟨front, more, stop, rfl, hblock, hzero, hmore, hmorefill⟩ :=
        hplaced.block hfill hsound hstart le_rfl (by omega) le_rfl fun i _ _ => by omega
      refine .pair hlt hblock hzero (fun i hi hi' hin => hrepeats i (by omega) hin (by omega)) ?_
      exact ih (by omega) hmore hmorefill (List.forall_mem_append.1 hsound).2
        (fun i hi => hrepeats i (by omega)) (by omega)
    · cases entries with
      | nil => exact .done hge
      | cons entry entries =>
        have hle := hplaced.le_offset entry List.mem_cons_self
        have hstop : entry.offset + _ ≤ _ := hplaced.2.2.1
        omega

/-! ## The stream is laid out anew -/

theorem Placed.primaryByte_of_mem {cursor i : ℕ} {entries : List NtfsSdsEntry}
    (h : Placed n cursor entries) {entry : NtfsSdsEntry} (he : entry ∈ entries)
    (hi : entry.offset ≤ i) (hi' : i < entry.stop) :
    primaryByte entries i = (encodeEntry entry).getD (i - entry.offset) 0 := by
  have hfind : entries.find? (fun e => e.offset ≤ i ∧ i < e.stop) = some entry := by
    induction entries generalizing cursor with
    | nil => cases he
    | cons head entries ih =>
      obtain ⟨-, -, -, hrest⟩ := h
      rcases List.mem_cons.1 he with rfl | he
      · exact List.find?_cons_of_pos (decide_eq_true ⟨hi, hi'⟩)
      · have hle := hrest.le_offset entry he
        have hstop := (le_aligned head.stop).1
        rw [List.find?_cons_of_neg (by rw [decide_eq_true_iff]; omega)]
        exact ih hrest he
  rw [primaryByte, hfind]

theorem primaryByte_of_uncovered {entries : List NtfsSdsEntry} {i : ℕ}
    (h : ∀ entry ∈ entries, ¬ (entry.offset ≤ i ∧ i < entry.stop)) : primaryByte entries i = 0 := by
  have hfind : entries.find? (fun e => e.offset ≤ i ∧ i < e.stop) = none :=
    List.find?_eq_none.2 fun e he => by rw [decide_eq_true_iff]; exact h e he
  rw [primaryByte, hfind]

theorem length_encodeEntry (entry : NtfsSdsEntry) :
    (encodeEntry entry).length = 20 + entry.descriptor.length := by
  rw [encodeEntry, List.length_append, List.length_append, List.length_append, List.length_append,
    length_toLe, length_toLe, length_toLe, length_toLe]

/-- An entry stands in the stream when its bytes do. -/
theorem sliceAt_eq_encodeEntry_iff_getD {entry : NtfsSdsEntry} (h : entry.stop ≤ sds.length) :
    sliceAt sds entry.offset (20 + entry.descriptor.length) = encodeEntry entry ↔
      ∀ i, entry.offset ≤ i → i < entry.stop →
        sds.getD i 0 = (encodeEntry entry).getD (i - entry.offset) 0 := by
  have hstop : entry.stop = entry.offset + (20 + entry.descriptor.length) := rfl
  have hlen : (sliceAt sds entry.offset (20 + entry.descriptor.length)).length =
      20 + entry.descriptor.length := length_sliceAt_of_le (by omega)
  have hget (i : ℕ) (hi : entry.offset ≤ i) (hi' : i < entry.stop) :
      (sliceAt sds entry.offset (20 + entry.descriptor.length)).getD (i - entry.offset) 0 =
        sds.getD i 0 := by
    rw [List.getD, List.getD, sliceAt, List.getElem?_take, if_pos (by omega), List.getElem?_drop,
      Nat.add_sub_cancel' hi]
  constructor
  · intro heq i hi hi'
    rw [← hget i hi hi', heq]
  · intro hall
    refine List.ext_getElem (by rw [hlen, length_encodeEntry]) fun k hk hk' => ?_
    have hk'' := hall (entry.offset + k) (by omega) (by omega)
    rw [← hget _ (by omega) (by omega), Nat.add_sub_cancel_left] at hk''
    rwa [List.getD, List.getD, List.getElem?_eq_getElem hk, List.getElem?_eq_getElem hk',
      Option.getD_some, Option.getD_some] at hk''

/-- The place in a first block that a place of the stream shows. -/
theorem primary_place (i : ℕ) :
    (i % 2 ^ 19 < 2 ^ 18 → i / 2 ^ 19 * 2 ^ 19 + i % 2 ^ 18 = i) ∧
      (2 ^ 18 ≤ i % 2 ^ 19 → i / 2 ^ 19 * 2 ^ 19 + i % 2 ^ 18 = i - 2 ^ 18) := by
  omega

theorem relayout_iff {entries : List NtfsSdsEntry} (hplaced : Placed sds.length 0 entries) :
    sds = relayout entries sds.length ↔ Filled sds 0 entries ∧ Repeats sds 0 := by
  have hget (i : ℕ) (hi : i < sds.length) : (relayout entries sds.length)[i]? =
      some (primaryByte entries (i / 2 ^ 19 * 2 ^ 19 + i % 2 ^ 18)) := by
    rw [relayout, List.getElem?_map, List.getElem?_range hi, Option.map_some]
  have hsds (i : ℕ) (hi : i < sds.length) : sds[i]? = some (sds.getD i 0) := by
    rw [List.getD, List.getElem?_eq_getElem hi, Option.getD_some]
  have hpoint : sds = relayout entries sds.length ↔ ∀ i < sds.length,
      sds.getD i 0 = primaryByte entries (i / 2 ^ 19 * 2 ^ 19 + i % 2 ^ 18) := by
    constructor
    · intro heq i hi
      have hi' := hsds i hi
      rw [heq, hget i hi, Option.some.injEq, ← heq] at hi'
      exact hi'.symm
    · intro hall
      apply List.ext_getElem?
      intro i
      rcases Nat.lt_or_ge i sds.length with hi | hi
      · rw [hget i hi, hsds i hi, hall i hi]
      · rw [List.getElem?_eq_none hi, List.getElem?_eq_none (by
          rw [relayout, List.length_map, List.length_range]; exact hi)]
  rw [hpoint]
  constructor
  · intro hall
    have hfirst (i : ℕ) (hi : i < sds.length) (hmod : i % 2 ^ 19 < 2 ^ 18) :
        sds.getD i 0 = primaryByte entries i := by
      rw [hall i hi, (primary_place i).1 hmod]
    refine ⟨⟨fun entry he => ?_, fun i _ hin hmod hcover => ?_⟩, fun i _ hin hmod => ?_⟩
    · obtain ⟨hblock, hstop⟩ := hplaced.inside entry he
      refine (sliceAt_eq_encodeEntry_iff_getD hstop).2 fun i hi hi' => ?_
      have hin : i < entry.offset + (20 + entry.descriptor.length) := hi'
      rw [hfirst i (by omega) (by omega), hplaced.primaryByte_of_mem he hi hi']
    · rw [hfirst i hin hmod, primaryByte_of_uncovered hcover]
    · rw [hall i hin, (primary_place i).2 hmod, hfirst _ (by omega) (by omega)]
  · rintro ⟨hfill, hrepeats⟩ i hi
    have hfirst (i : ℕ) (hi : i < sds.length) (hmod : i % 2 ^ 19 < 2 ^ 18) :
        sds.getD i 0 = primaryByte entries i := by
      by_cases hcover : ∃ entry ∈ entries, entry.offset ≤ i ∧ i < entry.stop
      · obtain ⟨entry, he, hle, hlt⟩ := hcover
        rw [hplaced.primaryByte_of_mem he hle hlt,
          (sliceAt_eq_encodeEntry_iff_getD (hplaced.inside entry he).2).1 (hfill.bytes entry he) i hle hlt]
      · rw [primaryByte_of_uncovered fun e he h => hcover ⟨e, he, h⟩]
        exact hfill.zero i (Nat.zero_le _) hi hmod fun e he h => hcover ⟨e, he, h⟩
    rcases Nat.lt_or_ge (i % 2 ^ 19) (2 ^ 18) with hmod | hmod
    · rw [(primary_place i).1 hmod, hfirst i hi hmod]
    · rw [(primary_place i).2 hmod, hrepeats i (Nat.zero_le _) hi hmod, hfirst _ (by omega) (by omega)]

end StarConverter.Ntfs.Sds
