import StarConverter.Base.Decides

/-!
# Security descriptors

The validation of a self-relative security descriptor: two SIDs and two ACLs at offsets the descriptor
names, each ACL a row of ACEs with one SID each. Every index of the source is one that could panic
here. `Profile` describes the supported descriptors and their parse without the validator's order of
checks; the validator decides it (`securityDescriptor_exact`).
-/

namespace StarConverter.Ntfs

open Base

structure NtfsSecurityDescriptorLimits where
  maxBytes : ℕ
  maxAces : ℕ

/-- A range relative to the beginning of the descriptor. -/
structure NtfsSecurityRange where
  offset : ℕ
  length : ℕ
  deriving DecidableEq

namespace NtfsSecurityRange

/-- The source's `end`; every range is checked before it is built. -/
def stop (r : NtfsSecurityRange) : ℕ := r.offset + r.length

@[simp] theorem stop_mk (offset length : ℕ) :
    (⟨offset, length⟩ : NtfsSecurityRange).stop = offset + length := rfl

def overlaps (r s : NtfsSecurityRange) : Bool := r.offset < s.stop ∧ s.offset < r.stop

end NtfsSecurityRange

/-- Presence of an ACL; a null ACL is not an empty one. -/
inductive NtfsSecurityAcl
  | absent
  | null
  | present (range : NtfsSecurityRange) (revision : UInt8) (aceCount slackBytes : ℕ)
  deriving DecidableEq

structure NtfsSecurityDescriptorValidation where
  bytes : Bytes
  control : ℕ
  resourceManagerControl : UInt8
  owner : Option NtfsSecurityRange
  group : Option NtfsSecurityRange
  sacl : NtfsSecurityAcl
  dacl : NtfsSecurityAcl
  aceCount : ℕ
  deriving DecidableEq

inductive NtfsSecurityDescriptorError
  | byteLimit (actual maximum : ℕ)
  | aceLimit (actual maximum : ℕ)
  | malformed (offset : ℕ) (reason : String)
  | unsupportedRevision (offset : ℕ) (revision : UInt8)
  | unsupportedAceType (offset : ℕ) (aceType : UInt8)
  | unsupportedAceFlags (offset : ℕ) (flags : UInt8)
  | unsupportedAcePayload (offset trailingBytes : ℕ)
  | aceInWrongAcl (offset : ℕ) (aceType : UInt8)
  | unsupportedAliasing (first second : NtfsSecurityRange)
  deriving DecidableEq

namespace SecurityDescriptor

/-- A program of the validator: its errors, or a panic. -/
abbrev Validated (α : Type) := Except (Stop NtfsSecurityDescriptorError) α

def headerBytes : ℕ := 20

def selfRelative : ℕ := 0x8000

def daclPresent : ℕ := 0x0004

def saclPresent : ℕ := 0x0010

/-! ## The validator -/

def range (bytes : Bytes) (offset length : ℕ) : Validated NtfsSecurityRange := do
  let stop ← orErr (checkedAdd offset length)
    (.error (.malformed offset "component range overflows"))
  ensure (stop ≤ bytes.length) (.error (.malformed offset "component exceeds containing bytes"))
  pure ⟨offset, length⟩

def componentOffset (bytes : Bytes) (field : ℕ) : Validated (Option ℕ) := do
  let raw ← readWord 4 bytes field
  if raw = 0 then pure none
  else do
    ensure (¬ (raw < headerBytes ∨ raw % 4 ≠ 0))
      (.error (.malformed field "component offset is not outside the header and DWORD aligned"))
    let _ ← range bytes raw 1
    pure (some raw)

def sid (bytes : Bytes) (offset containingEnd : ℕ) : Validated NtfsSecurityRange := do
  let header ← range bytes offset 8
  ensure (header.stop ≤ containingEnd)
    (.error (.malformed offset "SID header exceeds enclosing ACE"))
  let revision ← indexAt bytes offset
  ensure (revision = 1) (.error (.unsupportedRevision offset revision))
  let place ← plainAdd offset 1
  let count ← indexAt bytes place
  ensure (count.toNat ≤ 15) (.error (.malformed place "SID has more than 15 subauthorities"))
  let result ← range bytes offset (8 + count.toNat * 4)
  ensure (result.stop ≤ containingEnd)
    (.error (.malformed offset "SID subauthorities exceed enclosing ACE"))
  pure result

/-- The SID of a component, if the descriptor has one. -/
def sidComponent (bytes : Bytes) (field : ℕ) : Validated (Option NtfsSecurityRange) := do
  match ← componentOffset bytes field with
  | none => pure none
  | some offset => do
    let result ← sid bytes offset bytes.length
    pure (some result)

structure ParsedAcl where
  evidence : NtfsSecurityAcl
  range : Option NtfsSecurityRange
  aceSids : List NtfsSecurityRange
  deriving DecidableEq

/-- Flags an ACE of a type may have. -/
def knownFlags (aceType : UInt8) : UInt8 := if aceType = 2 then 0xDF else 0x1F

/-- One ACE: its range and the range of its SID. -/
def ace (bytes : Bytes) (cursor aclEnd : ℕ) (isSacl : Bool) :
    Validated (NtfsSecurityRange × NtfsSecurityRange) := do
  let header ← range bytes cursor 4
  ensure (header.stop ≤ aclEnd) (.error (.malformed cursor "ACE header exceeds ACL"))
  let aceType ← indexAt bytes cursor
  let flagsAt ← plainAdd cursor 1
  let flags ← indexAt bytes flagsAt
  let sizeAt ← plainAdd cursor 2
  let aceBytes ← readWord 2 bytes sizeAt
  ensure (¬ (aceBytes < 16 ∨ aceBytes % 4 ≠ 0))
    (.error (.malformed sizeAt "ACE size cannot contain a SID or is unaligned"))
  let aceRange ← range bytes cursor aceBytes
  ensure (aceRange.stop ≤ aclEnd) (.error (.malformed cursor "ACE exceeds declared ACL"))
  ensure (aceType ≤ 2) (.error (.unsupportedAceType cursor aceType))
  ensure (isSacl = decide (aceType = 2)) (.error (.aceInWrongAcl cursor aceType))
  ensure (flags &&& ~~~knownFlags aceType = 0) (.error (.unsupportedAceFlags flagsAt flags))
  let sidAt ← plainAdd cursor 8
  let trustee ← sid bytes sidAt aceRange.stop
  let trailing ← plainSub aceRange.stop trustee.stop
  ensure (trustee.stop = aceRange.stop) (.error (.unsupportedAcePayload cursor trailing))
  pure (aceRange, trustee)

/-- A number of ACEs one behind the other: their SIDs and the place behind the last. -/
def aces (bytes : Bytes) (aclEnd : ℕ) (isSacl : Bool) :
    ℕ → ℕ → Validated (List NtfsSecurityRange × ℕ)
  | 0, cursor => pure ([], cursor)
  | count + 1, cursor => do
    let (entry, trustee) ← ace bytes cursor aclEnd isSacl
    let (sids, stop) ← aces bytes aclEnd isSacl count entry.stop
    pure (trustee :: sids, stop)

/-- An ACL and the aggregate number of ACEs behind it. -/
def acl (bytes : Bytes) (offset : Option ℕ) (present isSacl : Bool)
    (limits : NtfsSecurityDescriptorLimits) (totalAces : ℕ) : Validated (ParsedAcl × ℕ) :=
  match offset with
  | none => pure (⟨if present = true then .null else .absent, none, []⟩, totalAces)
  | some offset => do
    ensure (present = true)
      (.error (.malformed offset "ACL offset is nonzero without its PRESENT flag"))
    let _ ← range bytes offset 8
    let revision ← indexAt bytes offset
    ensure (revision = 2 ∨ revision = 4) (.error (.unsupportedRevision offset revision))
    let place ← plainAdd offset 1
    let reserved ← indexAt bytes place
    let place ← plainAdd offset 6
    let reservedWord ← readWord 2 bytes place
    ensure (¬ (reserved ≠ 0 ∨ reservedWord ≠ 0))
      (.error (.malformed offset "ACL reserved fields must be zero"))
    let sizeAt ← plainAdd offset 2
    let length ← readWord 2 bytes sizeAt
    ensure (¬ (length < 8 ∨ length % 4 ≠ 0))
      (.error (.malformed sizeAt "ACL size must include its header and be DWORD aligned"))
    let aclRange ← range bytes offset length
    let countAt ← plainAdd offset 4
    let count ← readWord 2 bytes countAt
    let total ← orErr (checkedAdd totalAces count)
      (.error (.malformed countAt "aggregate ACE count overflows"))
    ensure (total ≤ limits.maxAces) (.error (.aceLimit total limits.maxAces))
    ensure (count ≤ (length - 8) / 4)
      (.error (.malformed countAt "ACE count cannot fit in declared ACL"))
    let cursor ← plainAdd offset 8
    let (aceSids, cursor) ← aces bytes aclRange.stop isSacl count cursor
    let slackBytes ← plainSub aclRange.stop cursor
    pure (⟨.present aclRange revision count slackBytes, some aclRange, aceSids⟩, total)

/-- Two components are the same or apart. -/
def unaliased (first second : Option NtfsSecurityRange) : Validated Unit :=
  match first, second with
  | some first, some second =>
    ensure (¬ (first.overlaps second = true ∧ first ≠ second))
      (.error (.unsupportedAliasing first second))
  | _, _ => pure ()

/-- A SID is apart from an ACL or that of one of its ACEs. -/
def sidUnaliased (sidRange : Option NtfsSecurityRange) (parsed : ParsedAcl) : Validated Unit :=
  match sidRange, parsed.range with
  | some sidRange, some aclRange =>
    ensure (¬ (sidRange.overlaps aclRange = true ∧ sidRange ∉ parsed.aceSids))
      (.error (.unsupportedAliasing sidRange aclRange))
  | _, _ => pure ()

def validateAliasing (owner group : Option NtfsSecurityRange) (sacl dacl : ParsedAcl) :
    Validated Unit := do
  unaliased owner group
  unaliased sacl.range dacl.range
  sidUnaliased owner sacl
  sidUnaliased owner dacl
  sidUnaliased group sacl
  sidUnaliased group dacl

def validateNtfsSecurityDescriptor (bytes : Bytes) (limits : NtfsSecurityDescriptorLimits) :
    Validated NtfsSecurityDescriptorValidation := do
  ensure (bytes.length ≤ limits.maxBytes) (.error (.byteLimit bytes.length limits.maxBytes))
  let _ ← range bytes 0 headerBytes
  let revision ← indexAt bytes 0
  ensure (revision = 1) (.error (.unsupportedRevision 0 revision))
  let control ← readWord 2 bytes 2
  ensure (control &&& selfRelative ≠ 0) (.error (.malformed 2 "SELF_RELATIVE flag is required"))
  let owner ← sidComponent bytes 4
  let group ← sidComponent bytes 8
  let saclOffset ← componentOffset bytes 12
  let (sacl, aceCount) ← acl bytes saclOffset (decide (control &&& saclPresent ≠ 0)) true limits 0
  let daclOffset ← componentOffset bytes 16
  let (dacl, aceCount) ← acl bytes daclOffset (decide (control &&& daclPresent ≠ 0)) false limits
    aceCount
  validateAliasing owner group sacl dacl
  let resourceManagerControl ← indexAt bytes 1
  pure
    { bytes, control, resourceManagerControl, owner, group
      sacl := sacl.evidence
      dacl := dacl.evidence
      aceCount }

/-! ## The supported profile -/

/-- The ranges share no byte. -/
def Apart (r s : NtfsSecurityRange) : Prop := r.stop ≤ s.offset ∨ s.stop ≤ r.offset

/-- A complete SID of revision 1 with at most fifteen subauthorities. -/
structure IsSid (bytes : Bytes) (r : NtfsSecurityRange) : Prop where
  revision : bytes.getD r.offset 0 = 1
  count_le : (bytes.getD (r.offset + 1) 0).toNat ≤ 15
  length_eq : r.length = 8 + (bytes.getD (r.offset + 1) 0).toNat * 4
  inside : r.stop ≤ bytes.length

/-- An ACE of a type and with flags its ACL may have: header, mask and one SID. -/
structure IsAce (bytes : Bytes) (isSacl : Bool) (r trustee : NtfsSecurityRange) : Prop where
  type_le : bytes.getD r.offset 0 ≤ 2
  type_iff : isSacl = true ↔ bytes.getD r.offset 0 = 2
  flags : bytes.getD (r.offset + 1) 0 &&& ~~~knownFlags (bytes.getD r.offset 0) = 0
  size : leAt 2 bytes (r.offset + 2) = r.length
  trustee_offset : trustee.offset = r.offset + 8
  trustee_sid : IsSid bytes trustee
  trustee_stop : trustee.stop = r.stop

/-- ACEs one behind the other, none beyond the end of the ACL, by their SIDs. -/
inductive IsAceList (bytes : Bytes) (isSacl : Bool) (aclEnd : ℕ) :
    ℕ → List NtfsSecurityRange → ℕ → Prop
  | nil {cursor : ℕ} : IsAceList bytes isSacl aclEnd cursor [] cursor
  | cons {r trustee : NtfsSecurityRange} {sids : List NtfsSecurityRange} {stop : ℕ}
      (head : IsAce bytes isSacl r trustee) (stop_le : r.stop ≤ aclEnd)
      (rest : IsAceList bytes isSacl aclEnd r.stop sids stop) :
    IsAceList bytes isSacl aclEnd r.offset (trustee :: sids) stop

/-- The ACL that a component offset stands for. -/
inductive IsAcl (bytes : Bytes) (present isSacl : Bool) : Option ℕ → ParsedAcl → Prop
  | absent (h : present = false) : IsAcl bytes present isSacl none ⟨.absent, none, []⟩
  | null (h : present = true) : IsAcl bytes present isSacl none ⟨.null, none, []⟩
  | present {r : NtfsSecurityRange} {revision : UInt8} {sids : List NtfsSecurityRange} {stop : ℕ}
      (h : present = true)
      (revision_at : bytes.getD r.offset 0 = revision)
      (revision_mem : revision = 2 ∨ revision = 4)
      (reserved : bytes.getD (r.offset + 1) 0 = 0 ∧ leAt 2 bytes (r.offset + 6) = 0)
      (size : leAt 2 bytes (r.offset + 2) = r.length)
      (size_ge : 8 ≤ r.length)
      (aligned : r.length % 4 = 0)
      (inside : r.stop ≤ bytes.length)
      (count : leAt 2 bytes (r.offset + 4) = sids.length)
      (aces : IsAceList bytes isSacl r.stop (r.offset + 8) sids stop) :
    IsAcl bytes present isSacl (some r.offset)
      ⟨.present r revision sids.length (r.stop - stop), some r, sids⟩

/-- The offset of a component, if the descriptor has the component. -/
inductive IsComponent (bytes : Bytes) (field : ℕ) : Option ℕ → Prop
  | absent (h : leAt 4 bytes field = 0) : IsComponent bytes field none
  | present {offset : ℕ} (h : leAt 4 bytes field = offset) (behind : 20 ≤ offset)
      (aligned : offset % 4 = 0) (inside : offset < bytes.length) :
    IsComponent bytes field (some offset)

/-- The SID of a component, if the descriptor has the component. -/
def IsSidComponent (bytes : Bytes) (field : ℕ) (r : Option NtfsSecurityRange) : Prop :=
  IsComponent bytes field (r.map (·.offset)) ∧ ∀ s ∈ r, IsSid bytes s

/-- The bytes are a descriptor of the supported profile, and the validation is its parse with these
ACLs. -/
structure Profile (bytes : Bytes) (v : NtfsSecurityDescriptorValidation) (sacl dacl : ParsedAcl) :
    Prop where
  header : 20 ≤ bytes.length
  revision : bytes.getD 0 0 = 1
  control : v.control = leAt 2 bytes 2
  self_relative : v.control &&& 0x8000 ≠ 0
  bytes_eq : v.bytes = bytes
  manager : v.resourceManagerControl = bytes.getD 1 0
  owner : IsSidComponent bytes 4 v.owner
  group : IsSidComponent bytes 8 v.group
  sacl_offset : IsComponent bytes 12 (sacl.range.map (·.offset))
  sacl_acl : IsAcl bytes (decide (v.control &&& 0x0010 ≠ 0)) true (sacl.range.map (·.offset)) sacl
  dacl_offset : IsComponent bytes 16 (dacl.range.map (·.offset))
  dacl_acl : IsAcl bytes (decide (v.control &&& 0x0004 ≠ 0)) false (dacl.range.map (·.offset)) dacl
  evidence : v.sacl = sacl.evidence ∧ v.dacl = dacl.evidence
  count : v.aceCount = sacl.aceSids.length + dacl.aceSids.length
  sids_apart : ∀ r ∈ v.owner, ∀ s ∈ v.group, Apart r s ∨ r = s
  acls_apart : ∀ r ∈ sacl.range, ∀ s ∈ dacl.range, Apart r s ∨ r = s
  sids_acls : ∀ c ∈ [v.owner, v.group], ∀ a ∈ [sacl, dacl], ∀ r ∈ c, ∀ s ∈ a.range,
    Apart r s ∨ r = s ∨ r ∈ a.aceSids

/-! ## What each part of the validator decides -/

variable {bytes : Bytes}

theorem decides_range {offset length : ℕ} (h : offset + length < wordBound) :
    Decides (range bytes offset length) fun r =>
      offset + length ≤ bytes.length ∧ ⟨offset, length⟩ = r := by
  unfold range
  refine Decides.of_bind_eq (by rw [checkedAdd_of_lt h, orErr_some]) ?_
  exact Decides.ensure_bind fun _ => decides_pure _

theorem decides_componentOffset {field : ℕ} (h : field + 4 ≤ bytes.length)
    (hfield : field + 4 ≤ wordBound) :
    Decides (componentOffset bytes field) (IsComponent bytes field) := by
  have hraw : leAt 4 bytes field < 2 ^ 32 := leAt_lt 4 bytes field
  unfold componentOffset
  refine Decides.of_bind_eq (readWord_of_le hfield h) ?_
  refine Decides.congr (Decides.ite (fun _ => decides_pure none) fun _ =>
    Decides.ensure_bind fun _ => (decides_range (by unfold wordBound; omega)).bind
      fun _ _ => decides_pure _) fun o => ?_
  constructor
  · rintro (⟨h0, rfl⟩ | ⟨-, hvalid, _, ⟨hin, -⟩, rfl⟩)
    · exact .absent h0
    · unfold headerBytes at hvalid
      exact .present rfl (by omega) (by omega) (by omega)
  · rintro (h0 | ⟨rfl, hbehind, haligned, hinside⟩)
    · exact .inl ⟨h0, rfl⟩
    · unfold headerBytes
      exact .inr ⟨by omega, by omega, _, ⟨by omega, rfl⟩, rfl⟩

theorem decides_sid {offset containingEnd : ℕ} (h : offset + 2 ^ 20 < wordBound) :
    Decides (sid bytes offset containingEnd) fun r =>
      r.offset = offset ∧ IsSid bytes r ∧ r.stop ≤ containingEnd := by
  unfold sid
  refine Decides.congr ((decides_range (by omega)).bind fun header ⟨hin, hheader⟩ =>
    Decides.ensure_bind fun hstop => Decides.of_bind_eq (indexAt_of_lt 0 (by omega)) <|
    Decides.ensure_bind fun hrev => Decides.of_bind_eq (plainAdd_of_lt (by omega)) <|
    Decides.of_bind_eq (indexAt_of_lt 0 (by omega)) <|
    Decides.ensure_bind fun hcount => (decides_range (by omega)).bind fun result _ =>
    Decides.ensure_bind fun _ => decides_pure result) fun r => ?_
  constructor
  · rintro ⟨_, ⟨-, rfl⟩, -, hrev, hcount, _, ⟨hin, rfl⟩, hstop, rfl⟩
    exact ⟨rfl, ⟨hrev, hcount, rfl, hin⟩, hstop⟩
  · rintro ⟨rfl, ⟨hrev, hcount, hlen, hin⟩, hstop⟩
    have hin' : r.offset + r.length ≤ bytes.length := hin
    have hstop' : r.offset + r.length ≤ containingEnd := hstop
    refine ⟨_, ⟨by omega, rfl⟩, ?_, hrev, hcount, r, ⟨by omega, ?_⟩, hstop, rfl⟩
    · show r.offset + 8 ≤ containingEnd
      omega
    · rw [← hlen]

theorem IsComponent.lt {field offset : ℕ} (h : IsComponent bytes field (some offset)) :
    offset < 2 ^ 32 := by
  cases h with
  | present h => exact h ▸ leAt_lt 4 bytes field

theorem decides_sidComponent {field : ℕ} (h : field + 4 ≤ bytes.length)
    (hfield : field + 4 ≤ wordBound) :
    Decides (sidComponent bytes field) (IsSidComponent bytes field) := by
  unfold sidComponent
  refine ((decides_componentOffset h hfield).bind
    (Q := fun o r => r.map (·.offset) = o ∧ ∀ s ∈ r, IsSid bytes s) fun o ho => ?_).congr fun r => ?_
  · cases o with
    | none =>
      refine (decides_pure none).congr fun r => ⟨?_, fun h => (Option.map_eq_none_iff.1 h.1).symm⟩
      rintro rfl
      exact ⟨rfl, fun s hs => by cases hs⟩
    | some offset =>
      have hlt := ho.lt
      refine ((decides_sid (by unfold wordBound; omega)).bind
        fun s _ => decides_pure (some s)).congr fun r => ⟨?_, ?_⟩
      · rintro ⟨s, ⟨rfl, hs, -⟩, rfl⟩
        refine ⟨rfl, fun s' hs' => ?_⟩
        obtain rfl : s = s' := Option.mem_some_iff.1 hs'
        exact hs
      · rintro ⟨hmap, hsid⟩
        obtain ⟨s, rfl, rfl⟩ := Option.map_eq_some_iff.1 hmap
        have hs := hsid s rfl
        exact ⟨s, ⟨rfl, hs, hs.inside⟩, rfl⟩
  · unfold IsSidComponent
    constructor
    · rintro ⟨_, hcomponent, rfl, hsid⟩
      exact ⟨hcomponent, hsid⟩
    · rintro ⟨hcomponent, hsid⟩
      exact ⟨_, hcomponent, rfl, hsid⟩

theorem IsSid.length_ge {r : NtfsSecurityRange} (h : IsSid bytes r) :
    8 ≤ r.length ∧ r.length % 4 = 0 := by
  have hlen := h.length_eq
  omega

theorem IsAce.length_ge {isSacl : Bool} {r trustee : NtfsSecurityRange}
    (h : IsAce bytes isSacl r trustee) :
    16 ≤ r.length ∧ r.length % 4 = 0 ∧ r.length < 2 ^ 16 ∧ r.stop ≤ bytes.length := by
  obtain ⟨hge, hmod⟩ := h.trustee_sid.length_ge
  have hoff := h.trustee_offset
  have hstop : trustee.offset + trustee.length = r.offset + r.length := h.trustee_stop
  have hsize : leAt 2 bytes (r.offset + 2) < 2 ^ 16 := leAt_lt 2 bytes _
  rw [h.size] at hsize
  have hin := h.trustee_sid.inside
  rw [h.trustee_stop] at hin
  omega

theorem decides_ace {cursor aclEnd : ℕ} (isSacl : Bool) (hcursor : cursor ≤ aclEnd)
    (hend : aclEnd + 2 ^ 21 < wordBound) :
    Decides (ace bytes cursor aclEnd isSacl) fun p =>
      p.1.offset = cursor ∧ IsAce bytes isSacl p.1 p.2 ∧ p.1.stop ≤ aclEnd := by
  have hsize : leAt 2 bytes (cursor + 2) < 2 ^ 16 := leAt_lt 2 bytes _
  unfold ace
  refine Decides.congr ((decides_range (by omega)).bind fun header ⟨hin, hheader⟩ =>
    Decides.ensure_bind fun hstop => Decides.of_bind_eq (indexAt_of_lt 0 (by omega)) <|
    Decides.of_bind_eq (plainAdd_of_lt (by omega)) <|
    Decides.of_bind_eq (indexAt_of_lt 0 (by omega)) <|
    Decides.of_bind_eq (plainAdd_of_lt (by omega)) <|
    Decides.of_bind_eq (readWord_of_le (by omega) (by omega)) <|
    Decides.ensure_bind fun hvalid => (decides_range (by omega)).bind fun aceRange ⟨hace, hr⟩ =>
    Decides.ensure_bind fun hacestop => Decides.ensure_bind fun htype =>
    Decides.ensure_bind fun hkind => Decides.ensure_bind fun hflags =>
    Decides.of_bind_eq (plainAdd_of_lt (by omega)) <|
    (decides_sid (by omega)).bind fun trustee ⟨_, _, htrustee⟩ =>
    Decides.of_bind_eq (plainSub_of_le htrustee) <|
    Decides.ensure_bind fun _ => decides_pure (aceRange, trustee)) fun p => ?_
  constructor
  · rintro ⟨_, ⟨-, rfl⟩, -, hvalid, _, ⟨hace, rfl⟩, hacestop, htype, hkind, hflags, trustee,
      ⟨hoff, hsid, -⟩, hstop, rfl⟩
    refine ⟨rfl, ⟨htype, ?_, hflags, rfl, hoff, hsid, hstop⟩, hacestop⟩
    rw [hkind, decide_eq_true_iff]
  · obtain ⟨r, trustee⟩ := p
    dsimp only
    rintro ⟨rfl, hace, hstop⟩
    obtain ⟨hge, hmod, -, hin⟩ := hace.length_ge
    have hin' : r.offset + r.length ≤ bytes.length := hin
    have hstop' : r.offset + r.length ≤ aclEnd := hstop
    have hlen := hace.size
    refine ⟨_, ⟨by omega, rfl⟩, ?_, by omega, r, ⟨by omega, by rw [hlen]⟩, hstop, hace.type_le, ?_,
      hace.flags, trustee, ⟨hace.trustee_offset, hace.trustee_sid, hace.trustee_stop.le⟩,
      hace.trustee_stop, rfl⟩
    · show r.offset + 4 ≤ aclEnd
      omega
    · rw [Bool.eq_iff_iff, decide_eq_true_iff]
      exact hace.type_iff

theorem decides_aces {aclEnd : ℕ} (isSacl : Bool) (hend : aclEnd + 2 ^ 21 < wordBound)
    (count : ℕ) {cursor : ℕ} (hcursor : cursor ≤ aclEnd) :
    Decides (aces bytes aclEnd isSacl count cursor) fun p =>
      p.1.length = count ∧ IsAceList bytes isSacl aclEnd cursor p.1 p.2 := by
  induction count generalizing cursor with
  | zero =>
    refine (decides_pure _).congr fun p => ⟨?_, ?_⟩
    · rintro rfl
      exact ⟨rfl, .nil⟩
    · obtain ⟨sids, stop⟩ := p
      rintro ⟨hlen, hlist⟩
      cases hlist with
      | nil => rfl
      | cons => cases hlen
  | succ count ih =>
    rw [aces]
    refine Decides.congr ((decides_ace isSacl hcursor hend).bind fun p ⟨_, _, hstop⟩ =>
      (ih hstop).bind fun q _ => decides_pure (p.2 :: q.1, q.2)) fun p => ?_
    constructor
    · rintro ⟨⟨r, trustee⟩, ⟨rfl, hace, hstop⟩, ⟨sids, stop⟩, ⟨hlen, hlist⟩, rfl⟩
      exact ⟨congrArg (· + 1) hlen, .cons hace hstop hlist⟩
    · obtain ⟨sids, stop⟩ := p
      rintro ⟨hlen, hlist⟩
      cases hlist with
      | nil => cases hlen
      | @cons r trustee sids _ hace hstop hlist =>
        exact ⟨(r, trustee), ⟨rfl, hace, hstop⟩, (sids, stop), ⟨Nat.succ.inj hlen, hlist⟩, rfl⟩

theorem IsAceList.le_stop {isSacl : Bool} {aclEnd cursor stop : ℕ} {sids : List NtfsSecurityRange}
    (h : IsAceList bytes isSacl aclEnd cursor sids stop) : cursor + 16 * sids.length ≤ stop := by
  induction h with
  | nil => exact le_rfl
  | @cons r _ sids _ hace _ _ ih =>
    have hge := hace.length_ge.1
    have hstop : r.stop = r.offset + r.length := rfl
    rw [List.length_cons]
    omega

theorem IsAceList.stop_le {isSacl : Bool} {aclEnd cursor stop : ℕ} {sids : List NtfsSecurityRange}
    (h : IsAceList bytes isSacl aclEnd cursor sids stop) (hcursor : cursor ≤ aclEnd) :
    stop ≤ aclEnd := by
  induction h with
  | nil => exact hcursor
  | cons _ hle _ ih => exact ih hle

theorem decides_acl {offset : Option ℕ} {total : ℕ} (present isSacl : Bool)
    (limits : NtfsSecurityDescriptorLimits) (hoffset : ∀ o ∈ offset, o < 2 ^ 32)
    (htotal : total < 2 ^ 32) :
    Decides (acl bytes offset present isSacl limits total) fun p =>
      IsAcl bytes present isSacl offset p.1 ∧ p.2 = total + p.1.aceSids.length ∧
        (offset.isSome → p.2 ≤ limits.maxAces) := by
  cases offset with
  | none =>
    refine (decides_pure _).congr fun p => ⟨?_, ?_⟩
    · rintro rfl
      refine ⟨?_, rfl, nofun⟩
      by_cases hp : present = true
      · rw [if_pos hp]
        exact .null hp
      · rw [if_neg hp]
        exact .absent (Bool.not_eq_true _ ▸ hp)
    · obtain ⟨parsed, total'⟩ := p
      dsimp only
      rintro ⟨hacl, rfl, -⟩
      cases hacl with
      | absent hp => rw [hp]; rfl
      | null hp => rw [hp]; rfl
  | some offset =>
    have hoffset : offset < 2 ^ 32 := hoffset offset rfl
    have hlen : leAt 2 bytes (offset + 2) < 2 ^ 16 := leAt_lt 2 bytes _
    have hcount : leAt 2 bytes (offset + 4) < 2 ^ 16 := leAt_lt 2 bytes _
    have hbound : (2 : ℕ) ^ 40 ≤ wordBound := by unfold wordBound; norm_num
    unfold acl
    refine Decides.congr (Decides.ensure_bind fun hp =>
      (decides_range (by omega)).bind fun _ ⟨hin, _⟩ =>
      Decides.of_bind_eq (indexAt_of_lt 0 (by omega)) <| Decides.ensure_bind fun hrev =>
      Decides.of_bind_eq (plainAdd_of_lt (by omega)) <|
      Decides.of_bind_eq (indexAt_of_lt 0 (by omega)) <|
      Decides.of_bind_eq (plainAdd_of_lt (by omega)) <|
      Decides.of_bind_eq (readWord_of_le (by omega) (by omega)) <|
      Decides.ensure_bind fun hreserved => Decides.of_bind_eq (plainAdd_of_lt (by omega)) <|
      Decides.of_bind_eq (readWord_of_le (by omega) (by omega)) <|
      Decides.ensure_bind fun hsize => (decides_range (by omega)).bind fun aclRange ⟨hacl, hr⟩ =>
      Decides.of_bind_eq (plainAdd_of_lt (by omega)) <|
      Decides.of_bind_eq (readWord_of_le (by omega) (by omega)) <|
      Decides.of_bind_eq (by rw [checkedAdd_of_lt (by omega), orErr_some]) <|
      Decides.ensure_bind fun hmax => Decides.ensure_bind fun hfits =>
      Decides.of_bind_eq (plainAdd_of_lt (by omega)) <|
      (decides_aces isSacl (by rw [← hr, NtfsSecurityRange.stop_mk]; omega) _
        (by rw [← hr, NtfsSecurityRange.stop_mk]; omega)).bind fun q ⟨_, hlist⟩ =>
      Decides.of_bind_eq (plainSub_of_le
        (hlist.stop_le (by rw [← hr, NtfsSecurityRange.stop_mk]; omega))) <| decides_pure _) fun p => ?_
    constructor
    · rintro ⟨hp, _, -, hrev, hreserved, hsize, _, ⟨hacl, rfl⟩, hmax, hfits, ⟨sids, stop⟩,
        ⟨hsids, hlist⟩, rfl⟩
      dsimp only at hsids hlist
      refine ⟨?_, congrArg (total + ·) hsids.symm, fun _ => hmax⟩
      dsimp only
      rw [← hsids]
      exact .present (r := ⟨offset, leAt 2 bytes (offset + 2)⟩) hp rfl hrev (by tauto) rfl
        (by show 8 ≤ leAt 2 bytes (offset + 2); omega)
        (by show leAt 2 bytes (offset + 2) % 4 = 0; omega) hacl hsids.symm hlist
    · obtain ⟨parsed, total'⟩ := p
      dsimp only
      rintro ⟨hacl, rfl, hmax⟩
      cases hacl with
      | @present r revision sids stop hp hrevat hrev hreserved hsize hge haligned hin hcounts hlist =>
        have hstop : r.stop = r.offset + r.length := rfl
        have hsum := hlist.le_stop
        have hle := hlist.stop_le (by omega)
        rw [← hsize] at hge haligned hstop
        refine ⟨hp, _, ⟨by omega, rfl⟩, hrevat ▸ hrev, by tauto, by omega, r,
          ⟨by omega, by rw [hsize]⟩, ?_, by omega, (sids, stop), ⟨hcounts.symm, hlist⟩, ?_⟩
        · rw [hcounts]
          exact hmax rfl
        · rw [hrevat, hcounts]

theorem overlaps_iff {r s : NtfsSecurityRange} : r.overlaps s = true ↔ ¬ Apart r s := by
  unfold NtfsSecurityRange.overlaps Apart
  rw [decide_eq_true_iff]
  omega

theorem decides_unaliased (first second : Option NtfsSecurityRange) :
    Decides (unaliased first second) fun _ => ∀ r ∈ first, ∀ s ∈ second, Apart r s ∨ r = s := by
  cases first with
  | none => exact (decides_pure ()).congr fun _ => ⟨fun _ r hr => (nomatch hr), fun _ => rfl⟩
  | some r =>
    cases second with
    | none => exact (decides_pure ()).congr fun _ => ⟨fun _ _ _ s hs => (nomatch hs), fun _ => rfl⟩
    | some s =>
      refine (decides_ensure _ _).congr fun _ => ?_
      rw [overlaps_iff]
      simp only [Option.mem_some_iff, forall_eq']
      tauto

theorem decides_sidUnaliased (sidRange : Option NtfsSecurityRange) (parsed : ParsedAcl) :
    Decides (sidUnaliased sidRange parsed) fun _ =>
      ∀ r ∈ sidRange, ∀ s ∈ parsed.range, Apart r s ∨ r ∈ parsed.aceSids := by
  unfold sidUnaliased
  cases sidRange with
  | none => exact (decides_pure ()).congr fun _ => ⟨fun _ r hr => (nomatch hr), fun _ => rfl⟩
  | some r =>
    cases parsed.range with
    | none => exact (decides_pure ()).congr fun _ => ⟨fun _ _ _ s hs => (nomatch hs), fun _ => rfl⟩
    | some s =>
      refine (decides_ensure _ _).congr fun _ => ?_
      rw [overlaps_iff]
      simp only [Option.mem_some_iff, forall_eq']
      tauto

theorem decides_validateAliasing (owner group : Option NtfsSecurityRange) (sacl dacl : ParsedAcl) :
    Decides (validateAliasing owner group sacl dacl) fun _ =>
      (∀ r ∈ owner, ∀ s ∈ group, Apart r s ∨ r = s) ∧
      (∀ r ∈ sacl.range, ∀ s ∈ dacl.range, Apart r s ∨ r = s) ∧
      ∀ c ∈ [owner, group], ∀ a ∈ [sacl, dacl], ∀ r ∈ c, ∀ s ∈ a.range,
        Apart r s ∨ r ∈ a.aceSids := by
  unfold validateAliasing
  refine ((decides_unaliased owner group).bind fun _ _ =>
    (decides_unaliased sacl.range dacl.range).bind fun _ _ =>
    (decides_sidUnaliased owner sacl).bind fun _ _ =>
    (decides_sidUnaliased owner dacl).bind fun _ _ =>
    (decides_sidUnaliased group sacl).bind fun _ _ =>
    decides_sidUnaliased group dacl).congr fun _ => ?_
  simp only [exists_const, List.forall_mem_cons, List.not_mem_nil, false_imp_iff, implies_true,
    and_true, and_assoc]

/-! ## The whole descriptor -/

section Acl

variable {present isSacl : Bool} {offset : Option ℕ} {parsed : ParsedAcl}

theorem IsAcl.offset_eq (h : IsAcl bytes present isSacl offset parsed) :
    offset = parsed.range.map (·.offset) := by
  cases h <;> rfl

theorem IsAcl.length_lt (h : IsAcl bytes present isSacl offset parsed) :
    parsed.aceSids.length < 2 ^ 16 := by
  cases h with
  | absent => exact Nat.two_pow_pos 16
  | null => exact Nat.two_pow_pos 16
  | present _ _ _ _ _ _ _ _ hcount => exact hcount ▸ leAt_lt 2 bytes _

/-- A SID does not have the range of an ACL, for their revisions differ. -/
theorem IsAcl.ne_sid (h : IsAcl bytes present isSacl offset parsed) {r s : NtfsSecurityRange}
    (hs : s ∈ parsed.range) (hr : IsSid bytes r) : r ≠ s := by
  rintro rfl
  cases h with
  | absent => cases hs
  | null => cases hs
  | present _ hrevat hrev =>
    obtain rfl := Option.mem_some_iff.1 hs
    rw [hr.revision] at hrevat
    rcases hrev with h2 | h4
    · exact absurd (hrevat.trans h2) (by decide)
    · exact absurd (hrevat.trans h4) (by decide)

theorem IsAcl.total_le (h : IsAcl bytes present isSacl offset parsed) {total maximum : ℕ}
    (hle : total ≤ maximum) (hmax : offset.isSome → total + parsed.aceSids.length ≤ maximum) :
    total + parsed.aceSids.length ≤ maximum := by
  cases h with
  | absent => exact hle
  | null => exact hle
  | present => exact hmax rfl

theorem IsAceList.sids_in {aclEnd cursor stop : ℕ} {sids : List NtfsSecurityRange}
    (h : IsAceList bytes isSacl aclEnd cursor sids stop) :
    ∀ s ∈ sids, cursor + 8 ≤ s.offset ∧ s.stop ≤ aclEnd := by
  induction h with
  | nil => exact nofun
  | @cons r trustee _ _ hace hle _ ih =>
    intro s hs
    have hstop : r.stop = r.offset + r.length := rfl
    have hoff := hace.trustee_offset
    have htrustee := hace.trustee_stop
    rcases List.mem_cons.1 hs with rfl | hs
    · omega
    · have := ih s hs
      omega

/-- The SIDs of an ACL stand in order, with a header and a mask in front of each. -/
theorem IsAceList.pairwise {aclEnd cursor stop : ℕ} {sids : List NtfsSecurityRange}
    (h : IsAceList bytes isSacl aclEnd cursor sids stop) :
    sids.Pairwise fun r s => r.stop + 8 ≤ s.offset := by
  induction h with
  | nil => exact .nil
  | @cons r trustee _ _ hace _ rest ih =>
    refine List.pairwise_cons.2 ⟨fun s hs => ?_, ih⟩
    rw [hace.trustee_stop]
    exact (rest.sids_in s hs).1

theorem IsAcl.sids_in (h : IsAcl bytes present isSacl offset parsed) :
    (∀ r ∈ parsed.range, r.stop ≤ bytes.length ∧
      ∀ s ∈ parsed.aceSids, r.offset + 16 ≤ s.offset ∧ s.stop ≤ r.stop) ∧
      parsed.aceSids.Pairwise fun r s => r.stop + 8 ≤ s.offset := by
  cases h with
  | absent => exact ⟨nofun, .nil⟩
  | null => exact ⟨nofun, .nil⟩
  | present _ _ _ _ _ _ _ hin _ haces =>
    refine ⟨fun r hr => ?_, haces.pairwise⟩
    obtain rfl := Option.mem_some_iff.1 hr
    exact ⟨hin, fun s hs => haces.sids_in s hs⟩

end Acl

theorem Profile.ne_acl {v : NtfsSecurityDescriptorValidation} {sacl dacl : ParsedAcl}
    (h : Profile bytes v sacl dacl) {c : Option NtfsSecurityRange} (hc : c ∈ [v.owner, v.group])
    {a : ParsedAcl} (ha : a ∈ [sacl, dacl]) {r s : NtfsSecurityRange} (hr : r ∈ c)
    (hs : s ∈ a.range) : r ≠ s := by
  have hsid : IsSid bytes r := by
    simp only [List.mem_cons, List.not_mem_nil, or_false] at hc
    rcases hc with rfl | rfl
    · exact h.owner.2 r hr
    · exact h.group.2 r hr
  simp only [List.mem_cons, List.not_mem_nil, or_false] at ha
  rcases ha with rfl | rfl
  · exact h.sacl_acl.ne_sid hs hsid
  · exact h.dacl_acl.ne_sid hs hsid

/-- **Security descriptors.** The validator returns on every byte string, accepts exactly the
descriptors of the supported profile within its limits, and returns their parse; the ranges of a parse
lie in the bytes, and in an ACL the ACEs with their SIDs lie one behind the other. -/
theorem securityDescriptor_exact (bytes : Bytes) (limits : NtfsSecurityDescriptorLimits) :
    Decides (validateNtfsSecurityDescriptor bytes limits) (fun v =>
      (∃ sacl dacl, Profile bytes v sacl dacl) ∧ bytes.length ≤ limits.maxBytes ∧
        v.aceCount ≤ limits.maxAces) ∧
      ∀ v sacl dacl, Profile bytes v sacl dacl →
        (∀ c ∈ [v.owner, v.group, sacl.range, dacl.range], ∀ r ∈ c, r.stop ≤ bytes.length) ∧
        ∀ a ∈ [sacl, dacl],
          (∀ r ∈ a.range, ∀ s ∈ a.aceSids, r.offset + 16 ≤ s.offset ∧ s.stop ≤ r.stop) ∧
          a.aceSids.Pairwise fun r s => r.stop + 8 ≤ s.offset := by
  constructor
  · have hbound : (2 : ℕ) ^ 40 ≤ wordBound := by unfold wordBound; norm_num
    unfold validateNtfsSecurityDescriptor headerBytes
    refine Decides.congr (Decides.ensure_bind fun hmax =>
      (decides_range (by omega)).bind fun _ ⟨hin, _⟩ =>
      Decides.of_bind_eq (indexAt_of_lt 0 (by omega)) <| Decides.ensure_bind fun hrev =>
      Decides.of_bind_eq (readWord_of_le (by omega) (by omega)) <|
      Decides.ensure_bind fun hself => (decides_sidComponent (by omega) (by omega)).bind fun owner howner =>
      (decides_sidComponent (by omega) (by omega)).bind fun group hgroup =>
      (decides_componentOffset (by omega) (by omega)).bind fun saclOffset hso =>
      (decides_acl _ true limits (fun o ho => IsComponent.lt (Option.mem_def.1 ho ▸ hso))
        (by omega)).bind fun p ⟨hsacl, hcount, _⟩ =>
      (decides_componentOffset (by omega) (by omega)).bind fun daclOffset hdo =>
      (decides_acl _ false limits (fun o ho => IsComponent.lt (Option.mem_def.1 ho ▸ hdo))
        (by have := hsacl.length_lt; omega)).bind fun q _ =>
      (decides_validateAliasing owner group p.1 q.1).bind fun _ _ =>
      Decides.of_bind_eq (indexAt_of_lt 0 (by omega)) <| decides_pure _) fun v => ?_
    constructor
    · rintro ⟨hmax, _, ⟨hin, -⟩, hrev, hself, owner, howner, group, hgroup, saclOffset, hso,
        ⟨sacl, count⟩, ⟨hsacl, hcount, hsmax⟩, daclOffset, hdo, ⟨dacl, total⟩,
        ⟨hdacl, htotal, hdmax⟩, _, ⟨hsids, hacls, hmixed⟩, rfl⟩
      dsimp only at *
      obtain rfl := hsacl.offset_eq
      obtain rfl := hdacl.offset_eq
      refine ⟨⟨sacl, dacl, ⟨hin, hrev, rfl, hself, rfl, rfl, howner, hgroup, hso, hsacl, hdo, hdacl,
        ⟨rfl, rfl⟩, ?_, hsids, hacls, fun c hc a ha r hr s hs =>
          (hmixed c hc a ha r hr s hs).imp_right .inr⟩⟩, hmax, ?_⟩
      · show total = _
        omega
      · show total ≤ _
        rw [htotal] at hdmax ⊢
        rw [hcount] at hsmax hdmax ⊢
        exact hdacl.total_le (hsacl.total_le (Nat.zero_le _) hsmax) hdmax
    · rintro ⟨⟨sacl, dacl, h⟩, hmax, haces⟩
      have hcontrol := h.control
      have hcount := h.count
      have hsacl := h.sacl_acl
      have hdacl := h.dacl_acl
      have hself := h.self_relative
      rw [hcontrol] at hsacl hdacl hself
      refine ⟨hmax, _, ⟨h.header, rfl⟩, h.revision, hself, v.owner, h.owner, v.group, h.group, _,
        h.sacl_offset, (sacl, sacl.aceSids.length), ⟨hsacl, (Nat.zero_add _).symm, fun _ => ?_⟩, _,
        h.dacl_offset, (dacl, v.aceCount), ⟨hdacl, hcount, fun _ => haces⟩, (),
        ⟨h.sids_apart, h.acls_apart, ?_⟩, ?_⟩
      · show sacl.aceSids.length ≤ _
        omega
      · intro c hc a ha r hr s hs
        rcases h.sids_acls c hc a ha r hr s hs with hapart | heq | hmem
        · exact .inl hapart
        · exact absurd heq (h.ne_acl hc ha hr hs)
        · exact .inr hmem
      · rw [← hcontrol, ← h.manager, ← h.evidence.1, ← h.evidence.2]
        cases v
        rw [NtfsSecurityDescriptorValidation.mk.injEq]
        exact ⟨h.bytes_eq.symm, rfl, rfl, rfl, rfl, rfl, rfl, rfl⟩
  · intro v sacl dacl h
    have hs := h.sacl_acl.sids_in
    have hd := h.dacl_acl.sids_in
    simp only [List.forall_mem_cons, List.not_mem_nil, false_imp_iff, implies_true, and_true]
    exact ⟨⟨fun r hr => (h.owner.2 r hr).inside, fun r hr => (h.group.2 r hr).inside,
      fun r hr => (hs.1 r hr).1, fun r hr => (hd.1 r hr).1⟩,
      ⟨fun r hr => (hs.1 r hr).2, hs.2⟩, fun r hr => (hd.1 r hr).2, hd.2⟩

-- One SID as owner and group behind a DACL of one ACE with four bytes of slack.
example : (validateNtfsSecurityDescriptor
    [1, 0, 4, 0x80, 52, 0, 0, 0, 52, 0, 0, 0, 0, 0, 0, 0, 20, 0, 0, 0,
      2, 0, 32, 0, 1, 0, 0, 0, 0, 0, 20, 0, 0xFF, 1, 0x1F, 0, 1, 1, 0, 0, 0, 0, 0, 5, 18, 0, 0, 0,
      0xA5, 0xA5, 0xA5, 0xA5, 1, 2, 0, 0, 0, 0, 0, 5, 32, 0, 0, 0, 32, 2, 0, 0]
    ⟨65536, 4096⟩).toOption.map (fun v => (v.owner, v.dacl)) =
    some (some ⟨52, 16⟩, .present ⟨20, 32⟩ 2 1 4) := by decide +kernel

end SecurityDescriptor

end StarConverter.Ntfs
