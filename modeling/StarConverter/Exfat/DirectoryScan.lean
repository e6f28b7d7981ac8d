import StarConverter.Exfat.Directory

/-!
# The scan of a directory

The parser calls its visitor in the second scan only, which repeats the first, and the records it
delivers stand in consecutive runs of entries up to the first end marker. One kind of entry breaks the
parser: a file entry that counts no secondary entry. Its set consists of the primary entry alone, and
when the checksum and the fields of that entry are valid, the parser looks for the stream extension
behind the end of the set (`scanEntry_eq_indexOutOfBounds`).
-/

namespace StarConverter.Exfat

open Base

/-! ## The parser with its visitor -/

section Visitor

variable (directory : Bytes) (context : DirectoryContext)

/-- A scan with the records it delivers until it ends or fails. A record is delivered before the index
moves behind its entries; the entries are inside the directory, so the index cannot overflow there. -/
def scanLoopVisits : ℕ → ScanState → List DirectoryRecord × Parsed ScanState
  | 0, state => (state.records, .ok state)
  | fuel + 1, state =>
    if state.index < directory.length / entryBytes then
      match entryAt directory state.index with
      | .error e => (state.records, .error e)
      | .ok entry =>
        if byteAt entry 0 = 0 then (state.records, scanEndMarker directory state)
        else
          match scanEntry directory context state entry (byteAt entry 0) with
          | .error e => (state.records, .error e)
          | .ok next => scanLoopVisits fuel next
    else (state.records, .ok state)

/-- `parse_directory` with what it does to the state of its visitor. -/
def parseDirectoryVisiting {σ : Type} (visitor : σ → DirectoryRecord → σ) (s : σ) :
    σ × Parsed DirectorySummary :=
  match validateContext directory context with
  | .error e => (s, .error e)
  | .ok _ =>
    match scanDirectory directory context with
    | .error e => (s, .error e)
    | .ok _ =>
      let visits := scanLoopVisits directory context (directory.length / entryBytes) ScanState.initial
      (visits.1.foldl visitor s, do
        let state ← visits.2
        validateRootCounts context state.summary
        pure state.summary)

end Visitor

/-! ## Records and runs -/

/-- The bytes of the entry at an index. -/
def entryBytesAt (directory : Bytes) (index : ℕ) : Bytes :=
  sliceAt directory (index * entryBytes) entryBytes

/-- The number of entries that a record takes. -/
def DirectoryRecord.entryCount : DirectoryRecord → ℕ
  | .file entry => entry.rawSet.length / entryBytes
  | .benignPrimary _ secondaryCount _ => secondaryCount + 1
  | _ => 1

/-- The record is that of the entries at the index. -/
def StandsAt (directory : Bytes) (context : DirectoryContext) (index : ℕ) : DirectoryRecord → Prop
  | .unused entryType raw =>
    entryType = byteAt (entryBytesAt directory index) 0 ∧ raw = entryBytesAt directory index
  | .allocationBitmap entry => parseBitmap (entryBytesAt directory index) index context = .ok entry
  | .upcaseTable entry => parseUpcase (entryBytesAt directory index) index context = .ok entry
  | .volumeLabel entry => parseVolumeLabel (entryBytesAt directory index) index = .ok entry
  | .file file =>
    parseFileSet directory index context = .ok (file, file.rawSet.length / entryBytes) ∧
      file.rawSet = sliceAt directory (index * entryBytes)
        (file.rawSet.length / entryBytes * entryBytes)
  | .benignPrimary entryType secondaryCount raw =>
    entryType = byteAt (entryBytesAt directory index) 0 ∧
      secondaryCount = (byteAt (entryBytesAt directory index) 1).toNat ∧
        raw = sliceAt directory (index * entryBytes) ((secondaryCount + 1) * entryBytes)

/-- The records stand one behind the other in the entries from `start` to `stop`. -/
def Runs (directory : Bytes) (context : DirectoryContext) : ℕ → List DirectoryRecord → ℕ → Prop
  | start, [], stop => start = stop
  | start, record :: rest, stop =>
    0 < record.entryCount ∧ StandsAt directory context start record ∧
      Runs directory context (start + record.entryCount) rest stop

/-- The first end marker stands at the index, or the directory ends there. -/
structure FirstEndMarker (directory : Bytes) (index : ℕ) : Prop where
  le : index ≤ directory.length / entryBytes
  before : ∀ i < index, byteAt (entryBytesAt directory i) 0 ≠ 0
  behind : ∀ i, index ≤ i → i < directory.length / entryBytes →
    byteAt (entryBytesAt directory i) 0 = 0

/-! ## Where the parser breaks -/

/-- A file entry that counts no secondary entry, with a valid checksum and valid fields. -/
structure BareFile (directory : Bytes) (index : ℕ) : Prop where
  index_lt : index < directory.length / entryBytes
  type_eq : byteAt (entryBytesAt directory index) 0 = 0x85
  count_eq : byteAt (entryBytesAt directory index) 1 = 0
  checksum : verifySetChecksum (entryBytesAt directory index) index = .ok ()
  fields : validateFilePrimary (entryBytesAt directory index) index = .ok ()

/-- The states that the scan comes to. -/
inductive Reached (directory : Bytes) (context : DirectoryContext) : ScanState → Prop
  | initial : Reached directory context ScanState.initial
  | step {state next : ScanState} (h : Reached directory context state)
      (hindex : state.index < directory.length / entryBytes)
      (hmarker : byteAt (entryBytesAt directory state.index) 0 ≠ 0)
      (hnext : scanEntry directory context state (entryBytesAt directory state.index)
        (byteAt (entryBytesAt directory state.index) 0) = .ok next) :
      Reached directory context next

/-- A result that is no abort of a slice access. -/
def Safe {α : Type} (x : Parsed α) : Prop := x ≠ .error .indexOutOfBounds

section Safe

variable {α β : Type}

theorem safe_ok (a : α) : Safe (.ok a : Parsed α) := nofun

theorem safe_pure (a : α) : Safe (pure a : Parsed α) := safe_ok a

theorem safe_error {e : DirectoryError} (h : e ≠ .indexOutOfBounds) : Safe (.error e : Parsed α) :=
  fun h' => h (Except.error.inj h')

theorem Safe.bind {x : Parsed α} {f : α → Parsed β} (hx : Safe x) (hf : ∀ a, x = .ok a → Safe (f a)) :
    Safe (x >>= f) := by
  cases x with
  | error e => exact safe_error fun h => hx (congrArg _ h)
  | ok a => exact hf a rfl

theorem safe_ensure {c : Prop} [Decidable c] {e : DirectoryError}
    (h : ¬ c → e ≠ .indexOutOfBounds) : Safe (ensure c e) := by
  unfold ensure
  split_ifs with hc
  · exact safe_ok _
  · exact safe_error (h hc)

theorem safe_orErr {o : Option α} {e : DirectoryError}
    (h : o = none → e ≠ .indexOutOfBounds) : Safe (orErr o e) := by
  cases o with
  | none => exact safe_error (h rfl)
  | some a => exact safe_ok a

theorem safe_checkAll {f : α → Parsed Unit} {l : List α} (h : ∀ a ∈ l, Safe (f a)) :
    Safe (checkAll f l) := by
  induction l with
  | nil => exact safe_ok ()
  | cons a l ih =>
    obtain ⟨ha, hl⟩ := List.forall_mem_cons.1 h
    exact ha.bind fun _ _ => ih hl

end Safe

variable {directory : Bytes} {context : DirectoryContext}

theorem entryAt_of_lt {bytes : Bytes} {index : ℕ} (h : index < bytes.length / entryBytes) :
    entryAt bytes index = .ok (entryBytesAt bytes index) := by
  have hle : (index + 1) * entryBytes ≤ bytes.length := by
    rw [Nat.lt_iff_add_one_le, Nat.le_div_iff_mul_le (by decide)] at h
    exact h
  have hstep : (index + 1) * entryBytes = index * entryBytes + entryBytes := Nat.succ_mul _ _
  rw [entryAt, slice?, if_pos (by omega), hstep, Nat.add_sub_cancel_left, orErr_some]
  rfl

theorem safe_requireZero (entry : Bytes) (start stop index : ℕ) :
    Safe (requireZero entry start stop index) := by
  unfold requireZero
  split
  · exact safe_error (by simp)
  · exact safe_pure ()

theorem safe_validateNameUnits (units : List UInt16) (index : ℕ) (rejectDotNames : Bool) :
    Safe (validateNameUnits units index rejectDotNames) :=
  (safe_checkAll fun _ _ => safe_ensure (by simp)).bind fun _ _ =>
    Safe.bind (safe_ensure (by simp)) fun _ _ => safe_ensure (by simp)

theorem safe_validateAllocation (index cluster length : ℕ) (noFatChain : Bool)
    (context : DirectoryContext) :
    Safe (validateAllocation index cluster length noFatChain context) := by
  refine Safe.bind (safe_orErr (by simp)) fun maximumCluster _ => ?_
  split_ifs
  · exact safe_ensure (by simp)
  · exact Safe.bind (safe_ensure (by simp)) fun _ _ => Safe.bind (safe_orErr (by simp)) fun _ _ =>
      Safe.bind (safe_ensure (by simp)) fun _ _ => Safe.bind (safe_orErr (by simp)) fun _ _ =>
      safe_ensure (by simp)
  · exact Safe.bind (safe_ensure (by simp)) fun _ _ => Safe.bind (safe_orErr (by simp)) fun _ _ =>
      Safe.bind (safe_ensure (by simp)) fun _ _ => safe_pure ()

theorem safe_parseBitmap (entry : Bytes) (index : ℕ) (context : DirectoryContext) :
    Safe (parseBitmap entry index context) :=
  Safe.bind (safe_ensure (by simp)) fun _ _ => (safe_requireZero _ _ _ _).bind fun _ _ =>
    Safe.bind (safe_ensure (by simp)) fun _ _ =>
    (safe_validateAllocation _ _ _ _ _).bind fun _ _ =>
    Safe.bind (safe_ensure (by simp)) fun _ _ => Safe.bind (safe_ensure (by simp)) fun _ _ =>
    safe_pure _

theorem safe_parseUpcase (entry : Bytes) (index : ℕ) (context : DirectoryContext) :
    Safe (parseUpcase entry index context) :=
  (safe_requireZero _ _ _ _).bind fun _ _ => (safe_requireZero _ _ _ _).bind fun _ _ =>
    (safe_validateAllocation _ _ _ _ _).bind fun _ _ =>
    Safe.bind (safe_ensure (by simp)) fun _ _ => safe_pure _

theorem safe_parseVolumeLabel (entry : Bytes) (index : ℕ) : Safe (parseVolumeLabel entry index) :=
  Safe.bind (safe_ensure (by simp)) fun _ _ => (safe_requireZero _ _ _ _).bind fun _ _ =>
    (safe_validateNameUnits _ _ _).bind fun _ _ => safe_pure _

theorem safe_validateFilePrimary (primary : Bytes) (index : ℕ) :
    Safe (validateFilePrimary primary index) :=
  Safe.bind (safe_ensure (by simp)) fun _ _ => (safe_requireZero _ _ _ _).bind fun _ _ =>
    (safe_requireZero _ _ _ _).bind fun _ _ =>
    (safe_checkAll fun _ _ => safe_ensure (by simp)).bind fun _ _ =>
    (safe_checkAll fun _ _ => safe_ensure (by simp)).bind fun _ _ =>
    safe_checkAll fun _ _ => safe_ensure (by simp)

theorem safe_validateStreamEntry (stream : Bytes) (index : ℕ) :
    Safe (validateStreamEntry stream index) :=
  Safe.bind (safe_ensure (by simp)) fun _ _ => Safe.bind (safe_ensure (by simp)) fun _ _ =>
    (safe_requireZero _ _ _ _).bind fun _ _ => (safe_requireZero _ _ _ _).bind fun _ _ =>
    (safe_requireZero _ _ _ _).bind fun _ _ => safe_ensure (by simp)

theorem safe_verifySetChecksum (raw : Bytes) (index : ℕ) : Safe (verifySetChecksum raw index) :=
  safe_ensure (by simp)

/-- The set at an index: all of it is inside the directory. -/
theorem checkedSet_eq {index count : ℕ} {raw : Bytes}
    (h : checkedSet directory index count context = .ok raw) :
    raw = sliceAt directory (index * entryBytes) ((count + 1) * entryBytes) ∧
      raw.length / entryBytes = count + 1 ∧ index + (count + 1) ≤ directory.length / entryBytes := by
  have hle := checkedSet_ok h
  simp only [checkedSet, bind_ok_iff, orErr_ok_iff, checkedAdd_eq_some, ensure_ok_iff,
    slice?_eq_some] at h
  obtain ⟨_, -, _, ⟨-, rfl⟩, _, -, ⟨-, hstop⟩, rfl⟩ := h
  have hlen : (index + (count + 1)) * entryBytes - index * entryBytes = (count + 1) * entryBytes := by
    rw [Nat.add_mul, Nat.add_sub_cancel_left]
  rw [hlen, length_sliceAt_of_le (by rw [← Nat.add_mul]; exact hstop),
    Nat.mul_div_cancel _ (by decide)]
  exact ⟨rfl, rfl, hle⟩

theorem safe_checkedSet (index count : ℕ) : Safe (checkedSet directory index count context) := by
  refine Safe.bind (safe_ensure (by simp)) fun _ _ =>
    Safe.bind (safe_orErr (by simp)) fun endEntry hend =>
    Safe.bind (safe_ensure (by simp)) fun _ hle => safe_orErr fun hnone => ?_
  rw [orErr_ok_iff, checkedAdd_eq_some] at hend
  obtain ⟨-, rfl⟩ := hend
  rw [ensure_ok_iff, Nat.le_div_iff_mul_le (by decide)] at hle
  rw [slice?, if_pos ⟨Nat.mul_le_mul_right _ (Nat.le_add_right _ _), hle⟩] at hnone
  cases hnone

/-! ## One entry -/

theorem safe_nameMembers {rawSet : Bytes} {index : ℕ} {members : List ℕ}
    (h : ∀ m ∈ members, m < rawSet.length / entryBytes) : Safe (nameMembers rawSet index members) := by
  induction members with
  | nil => exact safe_pure _
  | cons m members ih =>
    obtain ⟨hm, hmembers⟩ := List.forall_mem_cons.1 h
    refine Safe.bind ?_ fun _ _ => (ih hmembers).bind fun _ _ => safe_pure _
    refine Safe.bind (by rw [entryAt_of_lt hm]; exact safe_ok _) fun _ _ => ?_
    exact Safe.bind (safe_ensure (by simp)) fun _ _ =>
      Safe.bind (safe_ensure (by simp)) fun _ _ => safe_pure _

theorem safe_validateBenignSecondary {rawSet : Bytes} {index memberIndex : ℕ}
    (h : memberIndex < rawSet.length / entryBytes) :
    Safe (validateBenignSecondary rawSet index memberIndex) := by
  refine Safe.bind (by rw [entryAt_of_lt h]; exact safe_ok _) fun _ _ => safe_ensure fun _ => ?_
  split_ifs
  · simp
  · simp

/-- A file set that counts a secondary entry is never left. -/
theorem safe_parseFileSet {index : ℕ} (hindex : index < directory.length / entryBytes)
    (hcount : byteAt (entryBytesAt directory index) 1 ≠ 0) :
    Safe (parseFileSet directory index context) := by
  have hpos : 0 < (byteAt (entryBytesAt directory index) 1).toNat := by
    rw [Nat.pos_iff_ne_zero]
    exact fun h => hcount (UInt8.toNat_inj.1 h)
  unfold parseFileSet
  rw [entryAt_of_lt hindex, ok_bind]
  refine (safe_checkedSet _ _).bind fun rawSet hset => (safe_verifySetChecksum _ _).bind fun _ _ =>
    (safe_validateFilePrimary _ _).bind fun _ _ => ?_
  obtain ⟨-, hlen, -⟩ := checkedSet_eq hset
  rw [entryAt_of_lt (by omega), ok_bind]
  refine (safe_validateStreamEntry _ _).bind fun _ _ =>
    Safe.bind (safe_ensure (by simp)) fun _ hnames => ?_
  rw [ensure_ok_iff] at hnames
  refine (safe_nameMembers fun m hm => ?_).bind fun units _ =>
    (safe_validateNameUnits _ _ _).bind fun _ _ => (safe_checkAll fun m hm => ?_).bind fun _ _ =>
    (safe_validateAllocation _ _ _ _ _).bind fun _ _ =>
    Safe.bind (safe_ensure (by simp)) fun _ _ =>
    Safe.bind (safe_ensure (by simp)) fun _ _ => Safe.bind (safe_ensure (by simp)) fun _ _ =>
    safe_pure _
  · rw [List.mem_range'_1] at hm
    omega
  · rw [List.mem_range'_1] at hm
    exact safe_validateBenignSecondary (by omega)

/-- A file set is left exactly when its valid primary entry counts no secondary. -/
theorem parseFileSet_eq_indexOutOfBounds {index : ℕ} (hlen : directory.length < wordBound)
    (hindex : index < directory.length / entryBytes) :
    parseFileSet directory index context = .error .indexOutOfBounds ↔
      byteAt (entryBytesAt directory index) 1 = 0 ∧
        verifySetChecksum (entryBytesAt directory index) index = .ok () ∧
          validateFilePrimary (entryBytesAt directory index) index = .ok () := by
  by_cases hcount : byteAt (entryBytesAt directory index) 1 = 0
  · have hle : directory.length / entryBytes ≤ directory.length := Nat.div_le_self _ _
    have hset : checkedSet directory index 0 context = .ok (entryBytesAt directory index) := by
      have hstop : (index + (0 + 1)) * entryBytes ≤ directory.length :=
        (Nat.le_div_iff_mul_le (by decide)).1 hindex
      rw [checkedSet, ensure_of (Nat.zero_le _), ok_bind, checkedAdd_of_lt (by omega), orErr_some,
        ok_bind, ensure_of (by omega), ok_bind, slice?,
        if_pos ⟨Nat.mul_le_mul_right _ (Nat.le_add_right _ _), hstop⟩, orErr_some, Nat.add_mul,
        Nat.add_sub_cancel_left, Nat.zero_add, Nat.one_mul]
      rfl
    have hbehind : entryAt (entryBytesAt directory index) 1 = .error .indexOutOfBounds := by
      have hlength : (entryBytesAt directory index).length ≤ entryBytes := by
        rw [entryBytesAt, length_sliceAt]
        exact Nat.min_le_left _ _
      have hbytes : entryBytes = 32 := rfl
      rw [entryAt, slice?, if_neg (by omega)]
      rfl
    unfold parseFileSet
    rw [entryAt_of_lt hindex, ok_bind]
    dsimp only
    rw [hcount, show (0 : UInt8).toNat = 0 from rfl, hset, ok_bind]
    cases hsum : verifySetChecksum (entryBytesAt directory index) index with
    | error e =>
      have hsafe := safe_verifySetChecksum (entryBytesAt directory index) index
      rw [hsum] at hsafe
      rw [error_bind]
      exact ⟨fun h => absurd (congrArg _ (Except.error.inj h)) hsafe, fun h => by cases h.2.1⟩
    | ok _ =>
      rw [ok_bind]
      cases hfields : validateFilePrimary (entryBytesAt directory index) index with
      | error e =>
        have hsafe := safe_validateFilePrimary (entryBytesAt directory index) index
        rw [hfields] at hsafe
        rw [error_bind]
        exact ⟨fun h => absurd (congrArg _ (Except.error.inj h)) hsafe, fun h => by cases h.2.2⟩
      | ok _ =>
        rw [ok_bind, hbehind, error_bind]
        exact ⟨fun _ => ⟨rfl, rfl, rfl⟩, fun _ => rfl⟩
  · exact ⟨fun h => absurd h (safe_parseFileSet hindex hcount), fun h => absurd h.1 hcount⟩

theorem safe_genericBenignSet (index count : ℕ) :
    Safe (genericBenignSet directory index count context) := by
  refine (safe_checkedSet _ _).bind fun raw hset => (safe_verifySetChecksum _ _).bind fun _ _ =>
    (safe_checkAll fun m hm => ?_).bind fun _ _ => safe_pure _
  obtain ⟨-, hlen, -⟩ := checkedSet_eq hset
  rw [List.mem_range'_1] at hm
  exact Safe.bind (by rw [entryAt_of_lt (by omega)]; exact safe_ok _) fun _ _ =>
    safe_ensure (by simp)

theorem safe_deliver (state : ScanState) (record : DirectoryRecord) (summary : DirectorySummary)
    (consumed : ℕ) : Safe (state.deliver record summary consumed) :=
  Safe.bind (safe_orErr (by simp)) fun _ _ => safe_pure _

/-- The scan of an entry is left exactly at a bare file entry. -/
theorem scanEntry_eq_indexOutOfBounds {state : ScanState} (hlen : directory.length < wordBound)
    (hindex : state.index < directory.length / entryBytes) :
    scanEntry directory context state (entryBytesAt directory state.index)
        (byteAt (entryBytesAt directory state.index) 0) = .error .indexOutOfBounds ↔
      BareFile directory state.index := by
  constructor
  · intro h
    by_contra hbare
    refine absurd h (Safe.bind (safe_ensure (by simp)) fun _ _ => ?_)
    dsimp only
    split_ifs
    · exact safe_pure _
    refine Safe.bind (safe_ensure (by simp)) fun _ _ => ?_
    unfold scanPrimary
    dsimp only
    split_ifs with hbitmap hupcase hlabel hfile hbenign
    · exact Safe.bind (safe_ensure (by simp)) fun _ _ => (safe_parseBitmap _ _ _).bind fun _ _ =>
        Safe.bind (safe_ensure (by simp)) fun _ _ => safe_deliver _ _ _ _
    · exact Safe.bind (safe_ensure (by simp)) fun _ _ => (safe_parseUpcase _ _ _).bind fun _ _ =>
        safe_deliver _ _ _ _
    · exact Safe.bind (safe_ensure (by simp)) fun _ _ =>
      (safe_parseVolumeLabel _ _).bind fun _ _ =>
        safe_deliver _ _ _ _
    · refine Safe.bind (fun hset => hbare ?_) fun _ _ => safe_deliver _ _ _ _
      obtain ⟨hcount, hsum, hfields⟩ := (parseFileSet_eq_indexOutOfBounds hlen hindex).1 hset
      exact ⟨hindex, hfile, hcount, hsum, hfields⟩
    · exact (safe_genericBenignSet _ _).bind fun _ _ => safe_deliver _ _ _ _
    · exact safe_error (by simp)
  · intro hbare
    have hset := (@parseFileSet_eq_indexOutOfBounds directory context _ hlen hindex).2
      ⟨hbare.count_eq, hbare.checksum, hbare.fields⟩
    rw [hbare.type_eq, scanEntry, ensure_of (by decide), ok_bind]
    dsimp only
    rw [if_neg (by decide), ensure_of (by decide), ok_bind, scanPrimary]
    dsimp only
    rw [if_neg (by decide), if_neg (by decide), if_neg (by decide), if_pos rfl, hset, error_bind]

theorem safe_scanEndMarker (state : ScanState) : Safe (scanEndMarker directory state) := by
  refine (safe_checkAll fun later hlater => ?_).bind fun _ _ => safe_pure _
  rw [List.mem_range'_1] at hlater
  exact Safe.bind (by rw [entryAt_of_lt (by omega)]; exact safe_ok _) fun _ _ =>
    safe_ensure (by simp)

/-! ## What an entry delivers -/

theorem byte_ne_zero_of_and {b mask : UInt8} (h : b &&& mask = mask) (hmask : mask ≠ 0) : b ≠ 0 := by
  rintro rfl
  rw [UInt8.zero_and] at h
  exact hmask h.symm

/-- The entries of a set are entries of the directory. -/
theorem entryBytesAt_set {index count k : ℕ} {raw : Bytes}
    (h : raw = sliceAt directory (index * entryBytes) (count * entryBytes)) (hk : k < count) :
    entryBytesAt raw k = entryBytesAt directory (index + k) := by
  rw [entryBytesAt, h, sliceAt_sliceAt, ← Nat.add_mul]
  · rfl
  · rw [← Nat.succ_mul]
    exact Nat.mul_le_mul_right _ hk

theorem nameMembers_ok {rawSet : Bytes} {index : ℕ} {members : List ℕ} {units : List UInt16}
    (h : nameMembers rawSet index members = .ok units)
    (hin : ∀ m ∈ members, m < rawSet.length / entryBytes) :
    ∀ m ∈ members, byteAt (entryBytesAt rawSet m) 0 = 0xC1 := by
  induction members generalizing units with
  | nil => exact fun _ hm => absurd hm List.not_mem_nil
  | cons m members ih =>
    obtain ⟨hm, hmembers⟩ := List.forall_mem_cons.1 hin
    simp only [nameMembers, nameMember, entryAt_of_lt hm, ok_bind, bind_ok_iff, exists_const,
      ensure_ok_iff] at h
    obtain ⟨_, ⟨htype, -⟩, more, hmore, -⟩ := h
    exact List.forall_mem_cons.2 ⟨htype, ih hmore hmembers⟩

/-- The members of an accepted file set: none is an end marker. -/
theorem parseFileSet_members {index count : ℕ} {file : FileEntry}
    (hindex : index < directory.length / entryBytes)
    (h : parseFileSet directory index context = .ok (file, count)) :
    file.rawSet = sliceAt directory (index * entryBytes) (count * entryBytes) ∧
      file.rawSet.length / entryBytes = count ∧ index + count ≤ directory.length / entryBytes ∧
        ∀ k, 1 ≤ k → k < count → byteAt (entryBytesAt directory (index + k)) 0 ≠ 0 := by
  simp only [parseFileSet, entryAt_of_lt hindex, ok_bind, bind_ok_iff, exists_const, ensure_ok_iff,
    pure_eq_ok, Except.ok.injEq, Prod.mk.injEq, checkAll_ok_iff] at h
  obtain ⟨rawSet, hset, _, -, _, -, stream, hstream, _, hvalid, hnames, units, hunits, _, -, hbenign,
    _, -, -, -, -, rfl, rfl⟩ := h
  obtain ⟨hraw, hlen, hle⟩ := checkedSet_eq hset
  refine ⟨hraw, hlen, hle, fun k hk hk' => ?_⟩
  rw [← entryBytesAt_set hraw hk']
  rw [entryAt_of_lt (by omega), Except.ok.injEq] at hstream
  rcases Nat.lt_or_ge k 2 with hk2 | hk2
  · obtain rfl : k = 1 := by omega
    simp only [validateStreamEntry, bind_ok_iff, ensure_ok_iff] at hvalid
    obtain ⟨_, htype, -⟩ := hvalid
    rw [hstream, htype]
    decide
  · rcases Nat.lt_or_ge k (2 + divCeil (byteAt stream 3).toNat 15) with hname | hbehind
    · rw [nameMembers_ok hunits (fun m hm => by rw [List.mem_range'_1] at hm; omega) k
        (List.mem_range'_1.2 ⟨hk2, hname⟩)]
      decide
    · have hmember := hbenign k (List.mem_range'_1.2 (by omega))
      rw [validateBenignSecondary, entryAt_of_lt (by omega), ok_bind, ensure_ok_iff] at hmember
      exact byte_ne_zero_of_and hmember (by decide)

theorem genericBenignSet_members {index count : ℕ} {raw : Bytes}
    (h : genericBenignSet directory index count context = .ok raw) :
    raw = sliceAt directory (index * entryBytes) ((count + 1) * entryBytes) ∧
      index + (count + 1) ≤ directory.length / entryBytes ∧
        ∀ k, 1 ≤ k → k < count + 1 → byteAt (entryBytesAt directory (index + k)) 0 ≠ 0 := by
  simp only [genericBenignSet, bind_ok_iff, exists_const, checkAll_ok_iff, pure_eq_ok,
    Except.ok.injEq] at h
  obtain ⟨_, hset, _, -, hmembers, rfl⟩ := h
  obtain ⟨hraw, hlen, hle⟩ := checkedSet_eq hset
  refine ⟨hraw, hle, fun k hk hk' => ?_⟩
  obtain ⟨member, hget, hmember⟩ := hmembers k (List.mem_range'_1.2 (by omega))
  rw [entryAt_of_lt (by omega), Except.ok.injEq, entryBytesAt_set hraw hk'] at hget
  rw [hget]
  exact byte_ne_zero_of_and (ensure_ok_iff.1 hmember) (by decide)

/-- What one entry that is no end marker leads to: one more record, which stands at the index, and the
index behind its entries, of which none is an end marker. -/
structure Delivers (directory : Bytes) (context : DirectoryContext) (state next : ScanState)
    (record : DirectoryRecord) : Prop where
  records_eq : next.records = state.records ++ [record]
  stands : StandsAt directory context state.index record
  index_eq : next.index = state.index + record.entryCount
  pos : 0 < record.entryCount
  index_le : next.index ≤ directory.length / entryBytes
  types : ∀ i, state.index ≤ i → i < next.index → byteAt (entryBytesAt directory i) 0 ≠ 0

theorem delivers_one {state next : ScanState} {record : DirectoryRecord}
    (hindex : state.index < directory.length / entryBytes)
    (hmarker : byteAt (entryBytesAt directory state.index) 0 ≠ 0)
    (hrecords : next.records = state.records ++ [record]) (hcount : record.entryCount = 1)
    (hnext : next.index = state.index + 1) (hstands : StandsAt directory context state.index record) :
    Delivers directory context state next record where
  records_eq := hrecords
  stands := hstands
  index_eq := by rw [hnext, hcount]
  pos := by omega
  index_le := by omega
  types i hi hi' := by
    obtain rfl : i = state.index := by omega
    exact hmarker

theorem scanEntry_delivers {state next : ScanState}
    (hindex : state.index < directory.length / entryBytes)
    (hmarker : byteAt (entryBytesAt directory state.index) 0 ≠ 0)
    (h : scanEntry directory context state (entryBytesAt directory state.index)
      (byteAt (entryBytesAt directory state.index) 0) = .ok next) :
    ∃ record, Delivers directory context state next record := by
  simp only [scanEntry, bind_ok_iff] at h
  obtain ⟨_, -, h⟩ := h
  split at h
  · simp only [pure_eq_ok, Except.ok.injEq] at h
    subst h
    exact ⟨_, delivers_one hindex hmarker rfl rfl rfl ⟨rfl, rfl⟩⟩
  simp only [bind_ok_iff] at h
  obtain ⟨_, -, h⟩ := h
  unfold scanPrimary at h
  split_ifs at h with hbitmap hupcase hlabel hfile hbenign
  · simp only [bind_ok_iff] at h
    obtain ⟨_, -, parsed, hparsed, _, -, h⟩ := h
    obtain ⟨hi, hr⟩ := deliver_ok h
    exact ⟨_, delivers_one hindex hmarker hr rfl hi hparsed⟩
  · simp only [bind_ok_iff] at h
    obtain ⟨_, -, parsed, hparsed, h⟩ := h
    obtain ⟨hi, hr⟩ := deliver_ok h
    exact ⟨_, delivers_one hindex hmarker hr rfl hi hparsed⟩
  · simp only [bind_ok_iff] at h
    obtain ⟨_, -, parsed, hparsed, h⟩ := h
    obtain ⟨hi, hr⟩ := deliver_ok h
    exact ⟨_, delivers_one hindex hmarker hr rfl hi hparsed⟩
  · simp only [bind_ok_iff] at h
    obtain ⟨⟨parsed, count⟩, hset, h⟩ := h
    obtain ⟨hi, hr⟩ := deliver_ok h
    obtain ⟨hpos, -⟩ := parseFileSet_ok hset
    obtain ⟨hraw, hlen, hle, hmembers⟩ := parseFileSet_members hindex hset
    dsimp only at hi hset hle
    refine ⟨_, hr, ⟨?_, ?_⟩, ?_, ?_, by omega, fun i hi' hi'' => ?_⟩
    · rw [hlen]
      exact hset
    · rw [hlen]
      exact hraw
    · rw [hi]
      exact congrArg _ hlen.symm
    · exact hlen.symm ▸ hpos
    · rcases hi'.eq_or_lt with rfl | hlt
      · exact hmarker
      · have hmember := hmembers (i - state.index) (by omega) (by omega)
        rwa [Nat.add_sub_cancel' hi'] at hmember
  · simp only [bind_ok_iff] at h
    obtain ⟨raw, hset, h⟩ := h
    obtain ⟨hi, hr⟩ := deliver_ok h
    obtain ⟨hraw, hle, hmembers⟩ := genericBenignSet_members hset
    dsimp only at hi hraw hle hmembers
    refine ⟨_, hr, ⟨rfl, rfl, hraw⟩, hi, Nat.succ_pos _, by omega, fun i hi' hi'' => ?_⟩
    rcases hi'.eq_or_lt with rfl | hlt
    · exact hmarker
    · have hmember := hmembers (i - state.index) (by omega) (by omega)
      rwa [Nat.add_sub_cancel' hi'] at hmember

/-! ## The scan -/

/-- The records of an accepted scan stand in the entries up to the first end marker. -/
theorem scanLoop_runs {fuel : ℕ} {state final : ScanState}
    (h : scanLoop directory context fuel state = .ok final)
    (hfuel : directory.length / entryBytes ≤ fuel + state.index)
    (hindex : state.index ≤ directory.length / entryBytes) :
    ∃ records stop, final.records = state.records ++ records ∧
      Runs directory context state.index records stop ∧ stop ≤ directory.length / entryBytes ∧
        (∀ i, state.index ≤ i → i < stop → byteAt (entryBytesAt directory i) 0 ≠ 0) ∧
          ∀ i, stop ≤ i → i < directory.length / entryBytes →
            byteAt (entryBytesAt directory i) 0 = 0 := by
  induction fuel generalizing state with
  | zero =>
    obtain rfl := Except.ok.inj h
    exact ⟨[], state.index, (List.append_nil _).symm, rfl, hindex, fun i _ _ => by omega,
      fun i _ _ => by omega⟩
  | succ fuel ih =>
    rw [scanLoop] at h
    split_ifs at h with hlt
    · rw [entryAt_of_lt hlt, ok_bind] at h
      split_ifs at h with hmarker
      · simp only [scanEndMarker, bind_ok_iff, exists_const, checkAll_ok_iff, pure_eq_ok,
          Except.ok.injEq] at h
        obtain ⟨hbehind, rfl⟩ := h
        refine ⟨[], state.index, (List.append_nil _).symm, rfl, hindex, fun i _ _ => by omega,
          fun i hi hi' => ?_⟩
        rcases hi.eq_or_lt with rfl | hi
        · exact hmarker
        · obtain ⟨later, hlater, hzero⟩ := hbehind i (List.mem_range'_1.2 (by omega))
          rw [entryAt_of_lt hi', Except.ok.injEq] at hlater
          rw [hlater]
          exact ensure_ok_iff.1 hzero
      · rw [bind_ok_iff] at h
        obtain ⟨next, hnext, h⟩ := h
        obtain ⟨record, hd⟩ := scanEntry_delivers hlt hmarker hnext
        have hnextindex := hd.index_eq
        have hpos := hd.pos
        obtain ⟨records, stop, hrecords, hruns, hle, htypes, hbehind⟩ :=
          ih h (by omega) hd.index_le
        refine ⟨record :: records, stop, ?_, ⟨hd.pos, hd.stands, hnextindex ▸ hruns⟩, hle,
          fun i hi hi' => ?_, hbehind⟩
        · rw [hrecords, hd.records_eq, List.append_assoc, List.singleton_append]
        · rcases Nat.lt_or_ge i next.index with hlt' | hge
          · exact hd.types i hi hlt'
          · exact htypes i hge hi'
    · obtain rfl := Except.ok.inj h
      exact ⟨[], state.index, (List.append_nil _).symm, rfl, hindex, fun i _ _ => by omega,
        fun i _ _ => by omega⟩

/-- The visited scan ends as the scan does, and has delivered its records when it is accepted. -/
theorem scanLoopVisits_eq (fuel : ℕ) (state : ScanState) :
    (scanLoopVisits directory context fuel state).2 = scanLoop directory context fuel state ∧
      ∀ final, scanLoop directory context fuel state = .ok final →
        (scanLoopVisits directory context fuel state).1 = final.records := by
  induction fuel generalizing state with
  | zero =>
    refine ⟨rfl, fun final h => ?_⟩
    obtain rfl := Except.ok.inj h
    rfl
  | succ fuel ih =>
    rw [scanLoopVisits, scanLoop]
    by_cases hlt : state.index < directory.length / entryBytes
    · rw [if_pos hlt, if_pos hlt, entryAt_of_lt hlt, ok_bind]
      dsimp only
      by_cases hmarker : byteAt (entryBytesAt directory state.index) 0 = 0
      · rw [if_pos hmarker, if_pos hmarker]
        refine ⟨rfl, fun final h => ?_⟩
        simp only [scanEndMarker, bind_ok_iff, pure_eq_ok, Except.ok.injEq] at h
        obtain ⟨_, -, rfl⟩ := h
        rfl
      · rw [if_neg hmarker, if_neg hmarker]
        cases hnext : scanEntry directory context state (entryBytesAt directory state.index)
            (byteAt (entryBytesAt directory state.index) 0) with
        | error e => exact ⟨rfl, fun _ h => by cases h⟩
        | ok next => exact ih next
    · rw [if_neg hlt, if_neg hlt]
      refine ⟨rfl, fun final h => ?_⟩
      obtain rfl := Except.ok.inj h
      rfl

/-- A scan that is left comes to a bare file entry. -/
theorem scanLoop_left {fuel : ℕ} {state : ScanState} (hlen : directory.length < wordBound)
    (hstate : Reached directory context state)
    (h : scanLoop directory context fuel state = .error .indexOutOfBounds) :
    ∃ state, Reached directory context state ∧ BareFile directory state.index := by
  induction fuel generalizing state with
  | zero => cases h
  | succ fuel ih =>
    rw [scanLoop] at h
    split_ifs at h with hlt
    · rw [entryAt_of_lt hlt, ok_bind] at h
      split_ifs at h with hmarker
      · exact absurd h (safe_scanEndMarker state)
      · cases hnext : scanEntry directory context state (entryBytesAt directory state.index)
            (byteAt (entryBytesAt directory state.index) 0) with
        | error e =>
          rw [hnext, error_bind] at h
          rw [h] at hnext
          exact ⟨state, hstate, (scanEntry_eq_indexOutOfBounds hlen hlt).1 hnext⟩
        | ok next =>
          rw [hnext, ok_bind] at h
          exact ih (hstate.step hlt hmarker hnext) h
    · cases h

/-- The scan goes on from every state it comes to. -/
theorem Reached.scanLoop_eq {state : ScanState} (h : Reached directory context state) :
    ∃ fuel, directory.length / entryBytes ≤ fuel + state.index ∧
      scanLoop directory context (directory.length / entryBytes) ScanState.initial =
        scanLoop directory context fuel state := by
  induction h with
  | initial => exact ⟨_, le_rfl, rfl⟩
  | @step state next _ hindex hmarker hnext ih =>
    obtain ⟨fuel, hfuel, heq⟩ := ih
    obtain ⟨record, hd⟩ := scanEntry_delivers hindex hmarker hnext
    have hnextindex := hd.index_eq
    have hpos := hd.pos
    obtain ⟨fuel, rfl⟩ : ∃ f, fuel = f + 1 := ⟨fuel - 1, by omega⟩
    refine ⟨fuel, by omega, heq.trans ?_⟩
    rw [scanLoop, if_pos hindex, entryAt_of_lt hindex, ok_bind, if_neg hmarker, hnext, ok_bind]

theorem scanDirectory_eq_indexOutOfBounds (hlen : directory.length < wordBound) :
    scanDirectory directory context = .error .indexOutOfBounds ↔
      ∃ state, Reached directory context state ∧ BareFile directory state.index := by
  constructor
  · intro h
    refine @scanLoop_left directory context (directory.length / entryBytes) _ hlen .initial ?_
    by_contra hsafe
    refine absurd h (Safe.bind hsafe fun state _ => Safe.bind ?_ fun _ _ => safe_pure _)
    unfold validateRootCounts
    split_ifs
    · exact Safe.bind (safe_ensure (by simp)) fun _ _ =>
      Safe.bind (safe_ensure (by simp)) fun _ _ => safe_ensure (by simp)
    · exact safe_pure ()
  · rintro ⟨state, hstate, hbare⟩
    obtain ⟨fuel, hfuel, heq⟩ := hstate.scanLoop_eq
    have hindex := hbare.index_lt
    obtain ⟨fuel, rfl⟩ : ∃ f, fuel = f + 1 := ⟨fuel - 1, by omega⟩
    have hmarker : byteAt (entryBytesAt directory state.index) 0 ≠ 0 := by
      rw [hbare.type_eq]
      decide
    rw [scanDirectory, heq, scanLoop, if_pos hindex, entryAt_of_lt hindex, ok_bind, if_neg hmarker,
      (scanEntry_eq_indexOutOfBounds hlen hindex).2 hbare, error_bind, error_bind]

/-! ## The parser -/

/-- What the parser promises for a directory: it returns; it calls its visitor only when the whole
directory is valid; its second scan succeeds when the first does; and the visited records stand one
behind the other in the entries up to the first end marker. -/
structure ParsesSafely (directory : Bytes) (context : DirectoryContext) : Prop where
  returns : ∀ (σ : Type) (visitor : σ → DirectoryRecord → σ) (s : σ),
    (parseDirectoryVisiting directory context visitor s).2 ≠ .error .indexOutOfBounds
  silent : ∀ (σ : Type) (visitor : σ → DirectoryRecord → σ) (s : σ) (e : DirectoryError),
    (parseDirectoryVisiting directory context visitor s).2 = .error e →
      (parseDirectoryVisiting directory context visitor s).1 = s
  rescan : ∀ (σ : Type) (visitor : σ → DirectoryRecord → σ) (s : σ)
    (first : DirectorySummary × List DirectoryRecord), validateContext directory context = .ok () →
      scanDirectory directory context = .ok first →
        (parseDirectoryVisiting directory context visitor s).2 = .ok first.1
  covers : ∀ (σ : Type) (visitor : σ → DirectoryRecord → σ) (s : σ) (summary : DirectorySummary),
    (parseDirectoryVisiting directory context visitor s).2 = .ok summary →
      ∃ records stop, (parseDirectoryVisiting directory context visitor s).1 =
        records.foldl visitor s ∧ Runs directory context 0 records stop ∧
          FirstEndMarker directory stop

theorem parseDirectoryVisiting_eq {σ : Type} {visitor : σ → DirectoryRecord → σ} {s : σ}
    (hcontext : validateContext directory context = .ok ()) :
    (parseDirectoryVisiting directory context visitor s).2 =
        (scanDirectory directory context).map Prod.fst ∧
      (∀ e, scanDirectory directory context = .error e →
        (parseDirectoryVisiting directory context visitor s).1 = s) ∧
      ∀ first, scanDirectory directory context = .ok first →
        (parseDirectoryVisiting directory context visitor s).1 = first.2.foldl visitor s := by
  obtain ⟨hvisits, hrecords⟩ := @scanLoopVisits_eq directory context (directory.length / entryBytes)
    ScanState.initial
  unfold parseDirectoryVisiting
  rw [hcontext]
  dsimp only
  cases hscan : scanDirectory directory context with
  | error e => exact ⟨rfl, fun _ _ => rfl, fun _ h => by cases h⟩
  | ok first =>
    simp only [scanDirectory, bind_ok_iff, pure_eq_ok, Except.ok.injEq] at hscan
    obtain ⟨final, hfinal, _, hcounts, rfl⟩ := hscan
    dsimp only
    rw [hvisits, hfinal, ok_bind, hcounts, ok_bind]
    refine ⟨rfl, fun _ h => (by cases h), fun first hfirst => ?_⟩
    obtain rfl := Except.ok.inj hfirst
    rw [hrecords final hfinal]

/-- A directory of one file entry that counts no secondary entry. -/
def bareDirectory : Bytes :=
  [0x85, 0, 0x41, 0x8D, 0, 0, 0, 0, 0, 0, 0x21, 0, 0, 0, 0x21, 0, 0, 0, 0x21, 0, 0, 0, 0, 0, 0, 0, 0, 0,
    0, 0, 0, 0]

end StarConverter.Exfat
