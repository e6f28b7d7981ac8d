import StarConverter.Base.Decides

/-!
# The parser of the security descriptor stream

`$Secure:$SDS` is a sequence of pairs of 256 KiB blocks: descriptors with their headers stand in the
first block of a pair, the second is its mirror. The parser walks the entries of each first block,
checks that the rest of it is zero and compares the mirror. Its indices can panic and its loops can
run out of rounds here; what it does with a block is described by `BlockEntries`
(`decides_entryLoop`) and with the stream by `Pairs` (`decides_pairLoop`).
-/

namespace StarConverter.Ntfs

open Base

structure NtfsSecureLimits where
  maxSdsBytes : ℕ
  maxDescriptors : ℕ
  maxDescriptorBytes : ℕ

inductive NtfsSecureError
  | limitExceeded (what : String) (actual limit : ℕ)
  | hashInputNotWordAligned (length : ℕ)
  | malformed (component : String) (offset : ℕ) (reason : String)
  deriving DecidableEq

/-- One descriptor of the stream. -/
structure NtfsSdsEntry where
  securityId : ℕ
  hash : ℕ
  offset : ℕ
  descriptor : Bytes
  deriving DecidableEq

namespace Sds

/-- A program of the parser: its errors, a panic, or a loop that is not through. -/
abbrev Scanned (α : Type) := Except (Stop NtfsSecureError) α

def sdsHeaderBytes : ℕ := 20

def sdsAlignment : ℕ := 16

def sdsCopyDistance : ℕ := 0x40000

def requireLimit (what : String) (actual limit : ℕ) : Scanned Unit :=
  ensure (actual ≤ limit) (.error (.limitExceeded what actual limit))

def malformed (offset : ℕ) (reason : String) : Stop NtfsSecureError :=
  .error (.malformed "$SDS" offset reason)

def readU32 (header : Bytes) (offset base : ℕ) : Scanned ℕ := do
  let value ← orErr (slice? header offset (offset + 4))
    (malformed (base + offset) "truncated little-endian u32")
  pure (fromLe value)

def readU64 (header : Bytes) (offset base : ℕ) : Scanned ℕ := do
  let value ← orErr (slice? header offset (offset + 8))
    (malformed (base + offset) "truncated little-endian u64")
  pure (fromLe value)

def alignUp (value alignment : ℕ) : Option ℕ :=
  (checkedSub alignment 1).bind fun slack =>
    (checkedAdd value slack).map fun sum => sum / alignment * alignment

/-- The little-endian words of a byte string of whole words. -/
def words : Bytes → List ℕ
  | a :: b :: c :: d :: rest => fromLe [a, b, c, d] :: words rest
  | _ => []

/-- `value.wrapping_add(hash.rotate_left(3))`. -/
def hashWord (hash value : ℕ) : ℕ := (value + (hash * 2 ^ 3 % 2 ^ 32 + hash / 2 ^ 29)) % 2 ^ 32

def ntfsSecurityDescriptorHash (descriptor : Bytes) : Except NtfsSecureError ℕ :=
  if descriptor.length % 4 ≠ 0 then .error (.hashInputNotWordAligned descriptor.length)
  else .ok ((words descriptor).foldl hashWord 0)

/-- The entry whose header starts at `cursor`, and its end. -/
def parseLiveSdsEntry (sds : Bytes) (cursor primaryEnd : ℕ) (previousId : Option ℕ)
    (limits : NtfsSecureLimits) : Scanned (NtfsSdsEntry × ℕ) := do
  let headerEnd ← plainAdd cursor sdsHeaderBytes
  let header ← sliceIndex sds cursor headerEnd
  let hash ← readU32 header 0 cursor
  let securityId ← readU32 header 4 cursor
  let offset ← readU64 header 8 cursor
  let length ← readU32 header 16 cursor
  ensure (sdsHeaderBytes ≤ length) (malformed (cursor + 16) "entry shorter than its header")
  requireLimit "security descriptor bytes" (length - sdsHeaderBytes) limits.maxDescriptorBytes
  let entryEnd ← orErr (checkedAdd cursor length) (malformed (cursor + 16) "entry end overflows")
  ensure (entryEnd ≤ primaryEnd) (malformed (cursor + 16) "entry crosses its 256 KiB block")
  ensure (offset = cursor) (malformed (cursor + 8) "header offset is not the entry offset")
  ensure (securityId ≠ 0) (malformed (cursor + 4) "security identifier zero is reserved")
  ensure (∀ previous ∈ previousId, previous < securityId)
    (malformed (cursor + 4) "security identifiers are not strictly ascending")
  let descriptorStart ← plainAdd cursor sdsHeaderBytes
  let descriptor ← sliceIndex sds descriptorStart entryEnd
  let computed ← embed (ntfsSecurityDescriptorHash descriptor)
  ensure (computed = hash) (malformed cursor "descriptor hash mismatch")
  pure (⟨securityId, hash, offset, descriptor⟩, entryEnd)

/-- The entries of a block behind the given ones, and the end of the last. -/
def entryLoop (sds : Bytes) (primaryEnd : ℕ) (limits : NtfsSecureLimits) :
    ℕ → ℕ → ℕ → List NtfsSdsEntry → Scanned (List NtfsSdsEntry × ℕ)
  | 0, _, _, _ => .error .outOfRounds
  | rounds + 1, cursor, usedEnd, entries => do
    let headerEnd ← plainAdd cursor sdsHeaderBytes
    if primaryEnd < headerEnd then pure (entries, usedEnd)
    else do
      let header ← sliceIndex sds cursor headerEnd
      if header.all (· = 0) = true then pure (entries, usedEnd)
      else do
        ensure (entries.length ≠ limits.maxDescriptors)
          (.error (.limitExceeded "security descriptors" (entries.length + 1) limits.maxDescriptors))
        let (entry, entryEnd) ← parseLiveSdsEntry sds cursor primaryEnd
          (entries.getLast?.map (·.securityId)) limits
        let next ← orErr (alignUp entryEnd sdsAlignment)
          (malformed (cursor + 16) "next entry overflows")
        if primaryEnd < next then pure (entries ++ [entry], entryEnd)
        else do
          let padding ← sliceIndex sds entryEnd next
          ensure (padding.all (· = 0) = true) (malformed entryEnd "non-zero alignment padding")
          entryLoop sds primaryEnd limits rounds next entryEnd (entries ++ [entry])

/-- The comparison of the mirror behind a first block. -/
def compareMirror (sds : Bytes) (pairStart mirrorStart : ℕ) : Scanned Unit :=
  if mirrorStart < sds.length then do
    let pairEnd ← orErr (checkedAdd pairStart (2 * sdsCopyDistance))
      (malformed mirrorStart "mirror offset overflows")
    let mirrorEnd := min pairEnd sds.length
    let mirrored ← plainSub mirrorEnd mirrorStart
    let stop ← plainAdd pairStart mirrored
    let primary ← sliceIndex sds pairStart stop
    let mirror ← sliceIndex sds mirrorStart mirrorEnd
    ensure (primary = mirror) (malformed mirrorStart "mirror block differs from primary")
  else pure ()

/-- The entries of the stream from a pair on, behind the given ones. -/
def pairLoop (sds : Bytes) (limits : NtfsSecureLimits) :
    ℕ → ℕ → List NtfsSdsEntry → Scanned (List NtfsSdsEntry)
  | 0, _, _ => .error .outOfRounds
  | rounds + 1, pairStart, entries =>
    if sds.length ≤ pairStart then pure entries
    else do
      let blockEnd ← orErr (checkedAdd pairStart sdsCopyDistance)
        (malformed pairStart "block offset overflows")
      let primaryEnd := min blockEnd sds.length
      let (entries, usedEnd) ← entryLoop sds primaryEnd limits (sds.length + 1) pairStart pairStart
        entries
      let rest ← sliceIndex sds usedEnd primaryEnd
      ensure (rest.all (· = 0) = true) (malformed usedEnd "non-zero bytes after the last entry")
      compareMirror sds pairStart primaryEnd
      let next ← orErr (checkedAdd pairStart (2 * sdsCopyDistance))
        (malformed pairStart "next pair offset overflows")
      pairLoop sds limits rounds next entries

def parseNtfsSdsStream (sds : Bytes) (limits : NtfsSecureLimits) : Scanned (List NtfsSdsEntry) := do
  requireLimit "SDS bytes" sds.length limits.maxSdsBytes
  pairLoop sds limits (sds.length + 1) 0 []

/-! ## What stands in the stream -/

/-- The bytes of an entry: its header and its descriptor. -/
def encodeEntry (entry : NtfsSdsEntry) : Bytes :=
  toLe 4 entry.hash ++ toLe 4 entry.securityId ++ toLe 8 entry.offset ++
    toLe 4 (20 + entry.descriptor.length) ++ entry.descriptor

end Sds

/-- The place behind the entry. -/
def NtfsSdsEntry.stop (entry : NtfsSdsEntry) : ℕ := entry.offset + (20 + entry.descriptor.length)

namespace Sds

/-- An entry as the stream may hold it: a security id, whole words and their hash. -/
structure Sound (entry : NtfsSdsEntry) : Prop where
  id_ne : entry.securityId ≠ 0
  id_lt : entry.securityId < 2 ^ 32
  aligned : entry.descriptor.length % 4 = 0
  hash_eq : entry.hash = (words entry.descriptor).foldl hashWord 0

/-- The next multiple of the alignment. -/
def aligned (n : ℕ) : ℕ := (n + 15) / 16 * 16

/-- The bytes of a range are zero. -/
def Zero (sds : Bytes) (start stop : ℕ) : Prop := ∀ i, start ≤ i → i < stop → sds.getD i 0 = 0

/-- A sound entry stands at its offset. -/
structure EntryAt (sds : Bytes) (primaryEnd : ℕ) (entry : NtfsSdsEntry) : Prop where
  sound : Sound entry
  stop_le : entry.stop ≤ primaryEnd
  bytes : sliceAt sds entry.offset (20 + entry.descriptor.length) = encodeEntry entry

/-- The entries of a block from `cursor` on, where `usedEnd` is the end of the one in front. -/
inductive BlockEntries (sds : Bytes) (primaryEnd : ℕ) : ℕ → ℕ → List NtfsSdsEntry → ℕ → Prop
  | stop {cursor usedEnd : ℕ} (h : cursor + 20 ≤ primaryEnd → Zero sds cursor (cursor + 20)) :
    BlockEntries sds primaryEnd cursor usedEnd [] usedEnd
  | last {entry : NtfsSdsEntry} {usedEnd : ℕ} (head : EntryAt sds primaryEnd entry)
      (full : primaryEnd < aligned entry.stop) :
    BlockEntries sds primaryEnd entry.offset usedEnd [entry] entry.stop
  | cons {entry : NtfsSdsEntry} {usedEnd stop : ℕ} {entries : List NtfsSdsEntry}
      (head : EntryAt sds primaryEnd entry) (fits : aligned entry.stop ≤ primaryEnd)
      (padding : Zero sds entry.stop (aligned entry.stop))
      (rest : BlockEntries sds primaryEnd (aligned entry.stop) entry.stop entries stop) :
    BlockEntries sds primaryEnd entry.offset usedEnd (entry :: entries) stop

/-- The second block of a pair repeats the first as far as the stream goes. -/
def Mirrored (sds : Bytes) (start : ℕ) : Prop :=
  ∀ i, start + 2 ^ 18 ≤ i → i < start + 2 ^ 19 → i < sds.length →
    sds.getD i 0 = sds.getD (i - 2 ^ 18) 0

/-- The entries of the stream from a pair on. -/
inductive Pairs (sds : Bytes) : ℕ → List NtfsSdsEntry → Prop
  | done {start : ℕ} (h : sds.length ≤ start) : Pairs sds start []
  | pair {start usedEnd : ℕ} {entries more : List NtfsSdsEntry} (h : start < sds.length)
      (block : BlockEntries sds (min (start + 2 ^ 18) sds.length) start start entries usedEnd)
      (zero : Zero sds usedEnd (min (start + 2 ^ 18) sds.length))
      (mirror : Mirrored sds start)
      (rest : Pairs sds (start + 2 ^ 19) more) :
    Pairs sds start (entries ++ more)

/-! ## What the parser decides -/

variable {sds : Bytes}

theorem decides_requireLimit (what : String) (actual limit : ℕ) :
    Decides (requireLimit what actual limit) fun _ => actual ≤ limit :=
  decides_ensure _ _

theorem readU32_eq {header : Bytes} {offset : ℕ} (base : ℕ) (h : offset + 4 ≤ header.length) :
    readU32 header offset base = .ok (leAt 4 header offset) := by
  rw [readU32, slice?, if_pos ⟨by omega, h⟩, orErr_some, ok_bind, Nat.add_sub_cancel_left]
  rfl

theorem readU64_eq {header : Bytes} {offset : ℕ} (base : ℕ) (h : offset + 8 ≤ header.length) :
    readU64 header offset base = .ok (leAt 8 header offset) := by
  rw [readU64, slice?, if_pos ⟨by omega, h⟩, orErr_some, ok_bind, Nat.add_sub_cancel_left]
  rfl

theorem alignUp_eq {n : ℕ} (h : n + 15 < wordBound) : alignUp n sdsAlignment = some (aligned n) := by
  rw [alignUp, sdsAlignment, checkedSub_of_le (by norm_num), Option.bind_some,
    checkedAdd_of_lt h]
  rfl

theorem le_aligned (n : ℕ) : n ≤ aligned n ∧ aligned n < n + 16 ∧ aligned n % 16 = 0 := by
  unfold aligned
  omega

/-- The bytes of an entry stand at its offset exactly when its fields can be read there. -/
theorem sliceAt_eq_encodeEntry_iff {entry : NtfsSdsEntry} (hhash : entry.hash < 2 ^ 32)
    (hid : entry.securityId < 2 ^ 32) (hoffset : entry.offset < 2 ^ 64)
    (hlength : 20 + entry.descriptor.length < 2 ^ 32) (h : entry.stop ≤ sds.length) :
    sliceAt sds entry.offset (20 + entry.descriptor.length) = encodeEntry entry ↔
      leAt 4 sds entry.offset = entry.hash ∧ leAt 4 sds (entry.offset + 4) = entry.securityId ∧
        leAt 8 sds (entry.offset + 8) = entry.offset ∧
        leAt 4 sds (entry.offset + 16) = 20 + entry.descriptor.length ∧
        sliceAt sds (entry.offset + 20) entry.descriptor.length = entry.descriptor := by
  have hstop : entry.offset + (20 + entry.descriptor.length) ≤ sds.length := h
  have hsplit : sliceAt sds entry.offset (20 + entry.descriptor.length) =
      sliceAt sds entry.offset 4 ++ sliceAt sds (entry.offset + 4) 4 ++
        sliceAt sds (entry.offset + 8) 8 ++ sliceAt sds (entry.offset + 16) 4 ++
        sliceAt sds (entry.offset + 20) entry.descriptor.length := by
    rw [show 20 + entry.descriptor.length = 4 + 4 + 8 + 4 + entry.descriptor.length by omega]
    rw [sliceAt_add, sliceAt_add, sliceAt_add, sliceAt_add]
  rw [hsplit, encodeEntry, ← sliceAt_eq_toLe_iff hhash (by omega),
    ← sliceAt_eq_toLe_iff hid (by omega), ← sliceAt_eq_toLe_iff hoffset (by omega),
    ← sliceAt_eq_toLe_iff hlength (by omega)]
  constructor
  · intro heq
    obtain ⟨heq, h5⟩ := List.append_inj' heq (by rw [length_sliceAt_of_le (by omega)])
    obtain ⟨heq, h4⟩ := List.append_inj' heq (by rw [length_sliceAt_of_le (by omega), length_toLe])
    obtain ⟨heq, h3⟩ := List.append_inj' heq (by rw [length_sliceAt_of_le (by omega), length_toLe])
    obtain ⟨h1, h2⟩ := List.append_inj' heq (by rw [length_sliceAt_of_le (by omega), length_toLe])
    exact ⟨h1, h2, h3, h4, h5⟩
  · rintro ⟨h1, h2, h3, h4, h5⟩
    rw [h1, h2, h3, h4, h5]

theorem foldl_hashWord_lt (descriptor : Bytes) :
    (words descriptor).foldl hashWord 0 < 2 ^ 32 := by
  have hall (l : List ℕ) (start : ℕ) (h : start < 2 ^ 32) : l.foldl hashWord start < 2 ^ 32 := by
    induction l generalizing start with
    | nil => exact h
    | cons v l ih => exact ih _ (Nat.mod_lt _ (by norm_num))
  exact hall _ 0 (by norm_num)

theorem decides_hash (descriptor : Bytes) :
    Decides (embed (ntfsSecurityDescriptorHash descriptor)) fun hash =>
      descriptor.length % 4 = 0 ∧ (words descriptor).foldl hashWord 0 = hash := by
  unfold ntfsSecurityDescriptorHash
  split_ifs with h
  · exact (decides_error _).congr fun _ => ⟨False.elim, fun h' => h h'.1⟩
  · exact (decides_ok _).congr fun _ => ⟨fun h' => ⟨not_not.1 h, h'⟩, fun h' => h'.2⟩

theorem decides_parseLiveSdsEntry {cursor primaryEnd : ℕ} (previousId : Option ℕ)
    (limits : NtfsSecureLimits) (hfits : cursor + 20 ≤ primaryEnd) (hend : primaryEnd ≤ sds.length)
    (hblock : primaryEnd ≤ cursor + 2 ^ 18) (hlen : sds.length < 2 ^ 63) :
    Decides (parseLiveSdsEntry sds cursor primaryEnd previousId limits) fun p =>
      p.1.offset = cursor ∧ EntryAt sds primaryEnd p.1 ∧
        (∀ previous ∈ previousId, previous < p.1.securityId) ∧
        p.1.descriptor.length ≤ limits.maxDescriptorBytes ∧ p.2 = p.1.stop := by
  have hbound : wordBound = 2 ^ 64 := rfl
  have hheader : (sliceAt sds cursor 20).length = 20 := length_sliceAt_of_le (by omega)
  have hword : leAt 4 sds (cursor + 16) < 2 ^ 32 := leAt_lt 4 sds _
  unfold parseLiveSdsEntry sdsHeaderBytes
  refine Decides.congr (Decides.of_bind_eq (plainAdd_of_lt (by omega)) <|
    Decides.of_bind_eq (sliceIndex_of_le rfl (by omega)) <|
    Decides.of_bind_eq (readU32_eq cursor (by omega)) <|
    Decides.of_bind_eq (readU32_eq cursor (by omega)) <|
    Decides.of_bind_eq (readU64_eq cursor (by omega)) <|
    Decides.of_bind_eq (readU32_eq cursor (by omega)) <|
    Decides.ensure_bind fun hge => (decides_requireLimit _ _ _).bind fun _ hlimit =>
    Decides.of_bind_eq
      (by rw [checkedAdd_of_lt (by rw [leAt_sliceAt (by omega)]; omega), orErr_some]) <|
    Decides.ensure_bind fun hstop => Decides.ensure_bind fun hoffset =>
    Decides.ensure_bind fun hid => Decides.ensure_bind fun hprevious =>
    Decides.of_bind_eq (plainAdd_of_lt (by omega)) <|
    Decides.of_bind_eq (sliceIndex_of_le (n := leAt 4 (sliceAt sds cursor 20) 16 - 20)
      (by omega) (by omega)) <|
    (decides_hash _).bind fun computed _ => Decides.ensure_bind fun hhash => decides_pure _) fun p => ?_
  simp only [leAt_sliceAt (show 0 + 4 ≤ 20 by norm_num), leAt_sliceAt (show 4 + 4 ≤ 20 by norm_num),
    leAt_sliceAt (show 8 + 8 ≤ 20 by norm_num), leAt_sliceAt (show 16 + 4 ≤ 20 by norm_num), Nat.add_zero]
  constructor
  · rintro ⟨hge, _, hlimit, hstop, hoffset, hid, hprevious, computed, ⟨haligned, hcomputed⟩, rfl, rfl⟩
    have hdlen : (sliceAt sds (cursor + 20) (leAt 4 sds (cursor + 16) - 20)).length =
        leAt 4 sds (cursor + 16) - 20 := length_sliceAt_of_le (by omega)
    have htotal : 20 + (sliceAt sds (cursor + 20) (leAt 4 sds (cursor + 16) - 20)).length =
        leAt 4 sds (cursor + 16) := by omega
    have hend' : cursor + leAt 4 sds (cursor + 16) ≤ sds.length := hstop.trans hend
    refine ⟨hoffset, ⟨⟨hid, leAt_lt 4 sds _, haligned, hcomputed.symm⟩, ?_, ?_⟩, hprevious, ?_, ?_⟩
    · show leAt 8 sds (cursor + 8) + (20 + _) ≤ primaryEnd
      rw [htotal, hoffset]
      exact hstop
    · refine (sliceAt_eq_encodeEntry_iff ?_ (leAt_lt 4 sds _) (leAt_lt 8 sds _) ?_ ?_).2 ?_
      · exact hcomputed ▸ foldl_hashWord_lt _
      · show 20 + _ < 2 ^ 32
        rw [htotal]
        exact hword
      · show leAt 8 sds (cursor + 8) + (20 + _) ≤ sds.length
        rw [htotal, hoffset]
        exact hend'
      · dsimp only
        rw [hoffset, htotal, hdlen]
        exact ⟨rfl, rfl, hoffset, rfl, rfl⟩
    · show (sliceAt sds (cursor + 20) _).length ≤ _
      rw [hdlen]
      exact hlimit
    · show cursor + _ = leAt 8 sds (cursor + 8) + (20 + _)
      rw [htotal, hoffset]
  · obtain ⟨entry, stop⟩ := p
    dsimp only
    rintro ⟨rfl, hat, hprevious, hlimit, rfl⟩
    have hstop : entry.offset + (20 + entry.descriptor.length) ≤ primaryEnd := hat.stop_le
    have hsound := hat.sound
    have hhash : entry.hash < 2 ^ 32 := hsound.hash_eq ▸ foldl_hashWord_lt _
    obtain ⟨h1, h2, h3, h4, h5⟩ := (sliceAt_eq_encodeEntry_iff hhash hsound.id_lt (by omega)
      (by omega) (hat.stop_le.trans hend)).1 hat.bytes
    have hd : 20 + entry.descriptor.length - 20 = entry.descriptor.length := Nat.add_sub_cancel_left ..
    rw [h1, h2, h3, h4, hd, h5]
    exact ⟨Nat.le_add_right _ _, (), hlimit, hstop, rfl, hsound.id_ne, hprevious, _,
      ⟨hsound.aligned, rfl⟩, hsound.hash_eq.symm, rfl⟩

theorem all_zero_iff {start n : ℕ} (h : start + n ≤ sds.length) :
    (sliceAt sds start n).all (· = 0) = true ↔ Zero sds start (start + n) := by
  have hget (k : ℕ) (hk : k < n) : (sliceAt sds start n)[k]? = some (sds.getD (start + k) 0) := by
    rw [sliceAt, List.getElem?_take, if_pos hk, List.getElem?_drop,
      List.getElem?_eq_getElem (by omega), List.getD, List.getElem?_eq_getElem (by omega),
      Option.getD_some]
  rw [List.all_eq_true]
  constructor
  · intro hall i hi hi'
    have hmem := hall _ (List.mem_of_getElem? (hget (i - start) (by omega)))
    rw [decide_eq_true_iff] at hmem
    rwa [Nat.add_sub_cancel' hi] at hmem
  · intro hzero b hb
    obtain ⟨k, hk⟩ := List.getElem?_of_mem hb
    have hkn : k < n := by
      have := (List.getElem?_eq_some_iff.1 hk).1
      rwa [length_sliceAt_of_le h] at this
    rw [hget k hkn, Option.some.injEq] at hk
    rw [← hk, hzero _ (Nat.le_add_right _ _) (by omega)]
    exact decide_eq_true rfl

theorem offset_lt_aligned_stop (entry : NtfsSdsEntry) : entry.offset + 20 ≤ aligned entry.stop := by
  have hle := (le_aligned entry.stop).1
  have hstop : entry.stop = entry.offset + (20 + entry.descriptor.length) := rfl
  omega

theorem leAt_of_zero {n offset : ℕ} (h : offset + n ≤ sds.length)
    (hzero : Zero sds offset (offset + n)) : leAt n sds offset = 0 := by
  have hall := (all_zero_iff h).2 hzero
  rw [leAt]
  generalize sliceAt sds offset n = bytes at hall
  induction bytes with
  | nil => rfl
  | cons b bytes ih =>
    rw [List.all_cons, Bool.and_eq_true, decide_eq_true_iff] at hall
    rw [fromLe, hall.1, ih hall.2]
    rfl

/-- An entry has a header that is not zero. -/
theorem EntryAt.not_zero {primaryEnd : ℕ} {entry : NtfsSdsEntry} (h : EntryAt sds primaryEnd entry)
    (hend : primaryEnd ≤ sds.length) (hlen : sds.length < 2 ^ 63)
    (hblock : primaryEnd ≤ entry.offset + 2 ^ 18) :
    ¬ Zero sds entry.offset (entry.offset + 20) := by
  intro hzero
  have hstop : entry.offset + (20 + entry.descriptor.length) ≤ primaryEnd := h.stop_le
  have hhash : entry.hash < 2 ^ 32 := h.sound.hash_eq ▸ foldl_hashWord_lt _
  obtain ⟨-, hid, -⟩ := (sliceAt_eq_encodeEntry_iff hhash h.sound.id_lt (by omega) (by omega)
    (h.stop_le.trans hend)).1 h.bytes
  rw [leAt_of_zero (by omega) fun i hi hi' => hzero i (by omega) (by omega)] at hid
  exact h.sound.id_ne hid.symm

/-- Security ids grow from the last of the entries in front on. -/
def Ascending (front entries : List NtfsSdsEntry) : Prop :=
  (front.getLast?.toList ++ entries).IsChain fun e e' => e.securityId < e'.securityId

theorem ascending_nil (front : List NtfsSdsEntry) : Ascending front [] := by
  unfold Ascending
  cases front.getLast? with
  | none => exact .nil
  | some last => exact .singleton last

theorem ascending_cons {front entries : List NtfsSdsEntry} {entry : NtfsSdsEntry} :
    Ascending front (entry :: entries) ↔
      (∀ previous ∈ front.getLast?.map (·.securityId), previous < entry.securityId) ∧
        Ascending (front ++ [entry]) entries := by
  unfold Ascending
  rw [List.getLast?_append, List.getLast?_singleton, Option.some_or]
  cases front.getLast? with
  | none => simp
  | some last => simp

theorem decides_entryLoop {primaryEnd : ℕ} (limits : NtfsSecureLimits)
    (hend : primaryEnd ≤ sds.length) (hlen : sds.length < 2 ^ 63) (rounds : ℕ) {cursor usedEnd : ℕ}
    {front : List NtfsSdsEntry} (hrounds : primaryEnd < cursor + rounds)
    (hcursor : cursor ≤ primaryEnd) (hblock : primaryEnd ≤ cursor + 2 ^ 18)
    (hmax : front.length ≤ limits.maxDescriptors) :
    Decides (entryLoop sds primaryEnd limits rounds cursor usedEnd front) fun p =>
      ∃ entries, p.1 = front ++ entries ∧ BlockEntries sds primaryEnd cursor usedEnd entries p.2 ∧
        Ascending front entries ∧ p.1.length ≤ limits.maxDescriptors ∧
        ∀ entry ∈ entries, entry.descriptor.length ≤ limits.maxDescriptorBytes := by
  have hbound : wordBound = 2 ^ 64 := rfl
  induction rounds generalizing cursor usedEnd front with
  | zero => omega
  | succ rounds ih =>
    rw [entryLoop, sdsHeaderBytes]
    refine Decides.congr (Decides.of_bind_eq (plainAdd_of_lt (by omega)) <|
      Decides.ite (fun _ => decides_pure _) fun hfits =>
      Decides.of_bind_eq (sliceIndex_of_le rfl (by omega)) <|
      Decides.ite (fun _ => decides_pure _) fun _ => Decides.ensure_bind fun hne =>
      (decides_parseLiveSdsEntry _ limits (by omega) hend hblock hlen).bind
        fun q ⟨hoff, hat, _, _, hq⟩ =>
      Decides.of_bind_eq (a := aligned q.1.stop) (by
        have hstop := hat.stop_le
        rw [hq, alignUp_eq (by omega), orErr_some]) <|
      Decides.ite (fun _ => decides_pure _) fun hmore =>
      Decides.of_bind_eq (sliceIndex_of_le (n := aligned q.1.stop - q.1.stop)
        (by rw [hq]; have := le_aligned q.1.stop; omega) (by omega)) <|
      Decides.ensure_bind fun _ => ih (by have := offset_lt_aligned_stop q.1; omega) (by omega)
        (by have := offset_lt_aligned_stop q.1; omega) ?_) fun p => ?_
    · rw [List.length_append, List.length_singleton]
      omega
    constructor
    · rintro (⟨hshort, rfl⟩ | ⟨hfits, ⟨hz, rfl⟩ | ⟨-, hne, q, hq, hrest⟩⟩)
      · exact ⟨[], (List.append_nil _).symm, .stop fun h => absurd h (by omega),
          ascending_nil front, hmax, nofun⟩
      · exact ⟨[], (List.append_nil _).symm, .stop fun _ => (all_zero_iff (by omega)).1 hz,
          ascending_nil front, hmax, nofun⟩
      · obtain ⟨entry, stop⟩ := q
        dsimp only at hq hrest
        obtain ⟨rfl, hat, hprevious, hdescriptor, rfl⟩ := hq
        rcases hrest with ⟨hfull, rfl⟩ | ⟨hmore, hpad, entries, hout, hblk, hasc, hcount, hdescs⟩
        · refine ⟨[entry], rfl, .last hat hfull, ascending_cons.2 ⟨hprevious, ascending_nil _⟩, ?_,
            List.forall_mem_singleton.2 hdescriptor⟩
          rw [List.length_append, List.length_singleton]
          omega
        · have hstop := hat.stop_le
          rw [all_zero_iff (by omega), Nat.add_sub_cancel' (le_aligned _).1] at hpad
          refine ⟨entry :: entries, ?_, .cons hat (by omega) hpad hblk,
            ascending_cons.2 ⟨hprevious, hasc⟩, hcount, List.forall_mem_cons.2 ⟨hdescriptor, hdescs⟩⟩
          rw [hout, List.append_assoc, List.singleton_append]
    · obtain ⟨out, stop⟩ := p
      dsimp only
      rintro ⟨entries, rfl, hblk, hasc, hcount, hdescs⟩
      cases hblk with
      | stop h =>
        rw [List.append_nil]
        by_cases hfits : primaryEnd < cursor + 20
        · exact .inl ⟨hfits, rfl⟩
        · exact .inr ⟨hfits, .inl ⟨(all_zero_iff (by omega)).2 (h (by omega)), rfl⟩⟩
      | @last entry _ hat hfull =>
        have hstop : entry.offset + (20 + entry.descriptor.length) ≤ primaryEnd := hat.stop_le
        have hnot := hat.not_zero hend hlen hblock
        rw [List.length_append, List.length_singleton] at hcount
        refine .inr ⟨by omega, .inr ⟨?_, by omega, (entry, entry.stop), ⟨rfl, hat,
          (ascending_cons.1 hasc).1, hdescs entry List.mem_cons_self, rfl⟩, .inl ⟨hfull, rfl⟩⟩⟩
        rwa [all_zero_iff (by omega)]
      | @cons entry _ _ entries hat hfits hpad hrest =>
        have hstop : entry.offset + (20 + entry.descriptor.length) ≤ primaryEnd := hat.stop_le
        have hnot := hat.not_zero hend hlen hblock
        obtain ⟨hdescriptor, hdescs⟩ := List.forall_mem_cons.1 hdescs
        obtain ⟨hprevious, hasc⟩ := ascending_cons.1 hasc
        rw [List.length_append, List.length_cons] at hcount
        refine .inr ⟨by omega, .inr ⟨?_, by omega, (entry, entry.stop), ⟨rfl, hat, hprevious,
          hdescriptor, rfl⟩, .inr ⟨hfits.not_gt, ?_, entries, ?_, hrest, hasc, ?_, hdescs⟩⟩⟩
        · rwa [all_zero_iff (by omega)]
        · dsimp only
          rw [all_zero_iff (by have := hat.stop_le; omega), Nat.add_sub_cancel' (le_aligned _).1]
          exact hpad
        · rw [List.append_assoc, List.singleton_append]
        · rw [List.length_append, List.length_cons]
          omega

theorem BlockEntries.stop_le {primaryEnd cursor usedEnd stop : ℕ} {entries : List NtfsSdsEntry}
    (h : BlockEntries sds primaryEnd cursor usedEnd entries stop) (hused : usedEnd ≤ primaryEnd) :
    stop ≤ primaryEnd := by
  induction h with
  | stop => exact hused
  | last hat => exact hat.stop_le
  | cons hat _ _ _ ih => exact ih hat.stop_le

theorem sliceAt_eq_iff {a b n : ℕ} (ha : a + n ≤ sds.length) (hb : b + n ≤ sds.length) :
    sliceAt sds a n = sliceAt sds b n ↔ ∀ k < n, sds.getD (a + k) 0 = sds.getD (b + k) 0 := by
  have hget {c : ℕ} (hc : c + n ≤ sds.length) {k : ℕ} (hk : k < n) :
      (sliceAt sds c n)[k]? = some (sds.getD (c + k) 0) := by
    rw [sliceAt, List.getElem?_take, if_pos hk, List.getElem?_drop,
      List.getElem?_eq_getElem (by omega), List.getD, List.getElem?_eq_getElem (by omega),
      Option.getD_some]
  constructor
  · intro heq k hk
    have hk' := hget ha hk
    rw [heq, hget hb hk, Option.some.injEq] at hk'
    exact hk'.symm
  · intro hall
    apply List.ext_getElem?
    intro k
    rcases Nat.lt_or_ge k n with hk | hk
    · rw [hget ha hk, hget hb hk, hall k hk]
    · rw [List.getElem?_eq_none (by rw [length_sliceAt_of_le ha]; exact hk),
        List.getElem?_eq_none (by rw [length_sliceAt_of_le hb]; exact hk)]

theorem decides_compareMirror {start : ℕ} (hstart : start < sds.length) (hlen : sds.length < 2 ^ 63) :
    Decides (compareMirror sds start (min (start + 2 ^ 18) sds.length)) fun _ =>
      Mirrored sds start := by
  have hbound : wordBound = 2 ^ 64 := rfl
  unfold compareMirror
  split_ifs with h
  · have hm : min (start + 2 ^ 18) sds.length = start + 2 ^ 18 := by omega
    have hn : min (start + 2 * sdsCopyDistance) sds.length = min (start + 2 ^ 19) sds.length := rfl
    rw [hm]
    have hcopy : start + 2 * sdsCopyDistance < wordBound := by unfold sdsCopyDistance; omega
    refine Decides.of_bind_eq (by rw [checkedAdd_of_lt hcopy, orErr_some]) ?_
    dsimp only
    rw [hn]
    refine Decides.of_bind_eq (plainSub_of_le (by omega)) <|
      Decides.of_bind_eq (plainAdd_of_lt (by omega)) <|
      Decides.of_bind_eq (sliceIndex_of_le rfl (by omega)) <|
      Decides.of_bind_eq (sliceIndex_of_le
        (n := min (start + 2 ^ 19) sds.length - (start + 2 ^ 18)) (by omega) (by omega)) <|
      (decides_ensure _ _).congr fun _ => ?_
    rw [sliceAt_eq_iff (by omega) (by omega)]
    constructor
    · intro hall i hi hi' hin
      have hk := hall (i - (start + 2 ^ 18)) (by omega)
      rw [Nat.add_sub_cancel' hi] at hk
      rw [← hk]
      exact congrArg (sds.getD · 0) (by omega)
    · intro hall k hk
      have hi := hall (start + 2 ^ 18 + k) (by omega) (by omega) (by omega)
      rw [hi]
      exact congrArg (sds.getD · 0) (by omega)
  · refine (decides_pure ()).congr fun _ => ⟨fun _ i hi _ hin => ?_, fun _ => rfl⟩
    omega

theorem ascending_append {front entries more : List NtfsSdsEntry} :
    Ascending front (entries ++ more) ↔
      Ascending front entries ∧ Ascending (front ++ entries) more := by
  induction entries generalizing front with
  | nil =>
    rw [List.nil_append, List.append_nil]
    exact ⟨fun h => ⟨ascending_nil front, h⟩, And.right⟩
  | cons entry entries ih =>
    rw [List.cons_append, ascending_cons, ih, ascending_cons, List.append_assoc,
      List.singleton_append, and_assoc]

theorem decides_pairLoop (limits : NtfsSecureLimits) (hlen : sds.length < 2 ^ 63) (rounds : ℕ)
    {start : ℕ} {front : List NtfsSdsEntry} (hpos : 0 < rounds)
    (hrounds : sds.length < start + rounds) (hmax : front.length ≤ limits.maxDescriptors) :
    Decides (pairLoop sds limits rounds start front) fun out =>
      ∃ entries, out = front ++ entries ∧ Pairs sds start entries ∧ Ascending front entries ∧
        out.length ≤ limits.maxDescriptors ∧
        ∀ entry ∈ entries, entry.descriptor.length ≤ limits.maxDescriptorBytes := by
  have hbound : wordBound = 2 ^ 64 := rfl
  induction rounds generalizing start front with
  | zero => omega
  | succ rounds ih =>
    rw [pairLoop]
    split_ifs with hstart
    · refine (decides_pure front).congr fun out => ⟨?_, ?_⟩
      · rintro rfl
        exact ⟨[], (List.append_nil _).symm, .done hstart, ascending_nil front, hmax, nofun⟩
      · rintro ⟨entries, rfl, hpairs, -⟩
        cases hpairs with
        | done => exact (List.append_nil _).symm
        | pair h => omega
    have hnext : start + 2 * sdsCopyDistance < wordBound := by unfold sdsCopyDistance; omega
    refine Decides.congr (Decides.of_bind_eq (a := start + 2 ^ 18)
        (by rw [checkedAdd_of_lt (by unfold sdsCopyDistance; omega), orErr_some]; rfl) <|
      (decides_entryLoop limits (Nat.min_le_right _ _) hlen (sds.length + 1) (by omega) (by omega)
        (by omega) hmax).bind fun q ⟨entries, _, hblock, _, hcount, _⟩ =>
      Decides.of_bind_eq (sliceIndex_of_le
          (n := min (start + 2 ^ 18) sds.length - q.2)
          (Nat.add_sub_cancel' (hblock.stop_le (by omega))).symm
          (by have := hblock.stop_le (by omega); omega)) <|
      Decides.ensure_bind fun _ =>
      (decides_compareMirror (by omega) hlen).bind fun _ _ =>
      Decides.of_bind_eq (by rw [checkedAdd_of_lt hnext, orErr_some]) <|
      ih (by omega) (by unfold sdsCopyDistance; omega) hcount) fun out => ?_
    constructor
    · rintro ⟨⟨front', used⟩, ⟨entries, hfront, hblock, hasc, hcount, hdescs⟩, hzero, -, hmirror,
        more, hout, hpairs, hasc', hcount', hdescs'⟩
      dsimp only at hfront hblock hzero hout hasc'
      have hused := hblock.stop_le (by omega)
      rw [all_zero_iff (by omega), Nat.add_sub_cancel' hused] at hzero
      refine ⟨entries ++ more, ?_, .pair (by omega) hblock hzero hmirror hpairs,
        ascending_append.2 ⟨hasc, hfront ▸ hasc'⟩, hcount', List.forall_mem_append.2 ⟨hdescs, hdescs'⟩⟩
      rw [hout, hfront, List.append_assoc]
    · rintro ⟨all, rfl, hpairs, hasc, hcount, hdescs⟩
      cases hpairs with
      | done h => omega
      | @pair _ used entries more h hblock hzero hmirror hrest =>
        have hused := hblock.stop_le (by omega)
        obtain ⟨hdescs, hdescs'⟩ := List.forall_mem_append.1 hdescs
        obtain ⟨hasc, hasc'⟩ := ascending_append.1 hasc
        refine ⟨(front ++ entries, used), ⟨entries, rfl, hblock, hasc, ?_, hdescs⟩, ?_, (), hmirror,
          more, ?_, hrest, hasc', hcount, hdescs'⟩
        · rw [List.length_append, List.length_append] at hcount
          rw [List.length_append]
          omega
        · dsimp only
          rw [all_zero_iff (by omega), Nat.add_sub_cancel' hused]
          exact hzero
        · exact (List.append_assoc ..).symm

end Sds

end StarConverter.Ntfs
