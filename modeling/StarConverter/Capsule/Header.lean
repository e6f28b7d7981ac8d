import Mathlib.Data.FinEnum
import StarConverter.Hashing

/-!
# Capsule headers

A generation is framed by two identical 136-byte headers. `encodeHeader` lays the fields out at the
offsets of the format, with a CRC over all bytes but the checksum itself; `decodeHeader` accepts
exactly the strings with the right magic, version, length, reserved bytes, checksum and phase.
-/

namespace StarConverter

open Base

namespace Capsule

/-- Durable transaction state recorded by one capsule generation. -/
inductive TransactionPhase where
  | discovered
  | reserved
  | relocating
  | targetStaged
  | backupBootWritten
  | activated
  | verified
  | finalized
  | rolledBack
  deriving DecidableEq, Repr

namespace TransactionPhase

def toByte : TransactionPhase → UInt8
  | discovered => 0
  | reserved => 1
  | relocating => 2
  | targetStaged => 3
  | backupBootWritten => 4
  | activated => 5
  | verified => 6
  | finalized => 7
  | rolledBack => 8

def fromByte (value : UInt8) : Option TransactionPhase :=
  if value = 0 then some discovered
  else if value = 1 then some reserved
  else if value = 2 then some relocating
  else if value = 3 then some targetStaged
  else if value = 4 then some backupBootWritten
  else if value = 5 then some activated
  else if value = 6 then some verified
  else if value = 7 then some finalized
  else if value = 8 then some rolledBack
  else none

/-- `self` may follow `previous`: the next phase, or a rollback of an open transaction. -/
def mayFollow (self previous : TransactionPhase) : Bool :=
  match previous with
  | finalized | rolledBack => false
  | _ => self.toByte.toNat == previous.toByte.toNat + 1 || self == rolledBack

@[simp] theorem fromByte_toByte (p : TransactionPhase) : fromByte p.toByte = some p := by
  cases p <;> decide

theorem toByte_injective : Function.Injective toByte := by
  intro p q h
  have := congrArg fromByte h
  simpa using this

/-- The two phases that end a transaction. -/
def Terminal (p : TransactionPhase) : Prop := p = finalized ∨ p = rolledBack

instance : DecidablePred Terminal := fun _ => inferInstanceAs (Decidable (_ ∨ _))

theorem not_terminal_of_mayFollow {p q : TransactionPhase} (h : p.mayFollow q = true) :
    ¬ q.Terminal := by
  rintro (rfl | rfl) <;> simp [mayFollow] at h

end TransactionPhase

/-- Fixed transaction identity and immutable source evidence. -/
structure CapsuleIdentity where
  transactionId : FixedBytes 16
  sourceDigest : Digest
  deriving DecidableEq

structure Header where
  generation : UInt64
  phase : TransactionPhase
  payloadLen : UInt64
  previousOffset : Option UInt64
  identity : CapsuleIdentity
  payloadDigest : Digest
  deriving DecidableEq

/-- Capsule failures. `indexOutOfBounds` is the panic of a slice index outside its slice. -/
inductive CapsuleError where
  | invalidLimit (field : String)
  | capsuleTooLarge (actual maximum : ℕ)
  | generationTooLarge (actual maximum : ℕ)
  | tooManyGenerations (maximum : ℕ)
  | allocationFailed
  | arithmeticOverflow
  | noRecoverableHeader (offset : ℕ)
  | ambiguousGeneration (offset : ℕ)
  | unframedBytes (offset : ℕ)
  | unsupportedVersion (version : ℕ)
  | invalidHeaderLength (actual : ℕ)
  | invalidPhase (value : UInt8)
  | nonZeroReserved
  | payloadDigestMismatch (offset : ℕ)
  | firstGenerationInvalid
  | generationSequence (expected actual : UInt64)
  | previousOffsetMismatch (expected actual : Option UInt64)
  | identityChanged
  | invalidPhaseTransition (previous next : TransactionPhase)
  | generationOverflow
  | indexOutOfBounds
  deriving DecidableEq

def capsuleVersion : ℕ := 1
def headerBytes : ℕ := 136
def magic : Bytes := [0x53, 0x54, 0x41, 0x52, 0x43, 0x41, 0x50, 0x00]
def noPrevious : UInt64 := UInt64.ofNat (2 ^ 64 - 1)
def crcOffset : ℕ := 128

def readU16 (bytes : Bytes) (offset : ℕ) : ℕ := fromLe (sliceAt bytes offset 2)
def readU32 (bytes : Bytes) (offset : ℕ) : ℕ := fromLe (sliceAt bytes offset 4)
def readU64 (bytes : Bytes) (offset : ℕ) : UInt64 := UInt64.ofNat (fromLe (sliceAt bytes offset 8))

/-- The checksum of a header, taken with the checksum field read as zero. -/
def headerCrc (H : Hashing) (bytes : Bytes) : UInt32 :=
  H.crc32 (sliceAt bytes 0 crcOffset ++ [0, 0, 0, 0] ++ sliceAt bytes (crcOffset + 4) 4)

/-- The fields before the checksum, in order of their offsets; zeros are the reserved bytes. -/
def headerFields (header : Header) : List Bytes :=
  [magic, toLe 2 capsuleVersion, toLe 2 headerBytes, [0, 0, 0, 0],
    toLe 8 header.generation.toNat, [header.phase.toByte], [0, 0, 0, 0, 0, 0, 0],
    toLe 8 header.payloadLen.toNat, toLe 8 (header.previousOffset.getD noPrevious).toNat,
    header.identity.transactionId.1, header.identity.sourceDigest.1, header.payloadDigest.1]

def encodeHeader (H : Hashing) (header : Header) : Bytes :=
  let fields := headerFields header
  let checksum := headerCrc H (fields ++ [[0, 0, 0, 0], [0, 0, 0, 0]]).flatten
  (fields ++ [toLe 4 checksum.toNat, [0, 0, 0, 0]]).flatten

/-- The `n`-byte field at `offset`. -/
def fixedAt (bytes : Bytes) (offset n : ℕ) (h : offset + n ≤ bytes.length) : FixedBytes n :=
  ⟨sliceAt bytes offset n, length_sliceAt_of_le h⟩

/-- The fields of a 136-byte string whose framing checks have passed. -/
def decodeFields (bytes : Bytes) (hlen : bytes.length = headerBytes) (phase : TransactionPhase) :
    Header :=
  let previous := readU64 bytes 40
  { generation := readU64 bytes 16
    phase := phase
    payloadLen := readU64 bytes 32
    previousOffset := if previous = noPrevious then none else some previous
    identity :=
      { transactionId := fixedAt bytes 48 16 (by rw [hlen, headerBytes]; omega)
        sourceDigest := fixedAt bytes 64 32 (by rw [hlen, headerBytes]; omega) }
    payloadDigest := fixedAt bytes 96 32 (by rw [hlen, headerBytes]; omega) }

def decodeHeader (H : Hashing) (bytes : Bytes) : Except CapsuleError Header :=
  if h : bytes.length = headerBytes ∧ sliceAt bytes 0 8 = magic then do
    let version := readU16 bytes 8
    ensure (version = capsuleVersion) (.unsupportedVersion version)
    let headerLen := readU16 bytes 10
    ensure (headerLen = headerBytes) (.invalidHeaderLength headerLen)
    ensure ((∀ b ∈ sliceAt bytes 12 4, b = 0) ∧ (∀ b ∈ sliceAt bytes 25 7, b = 0) ∧
      (∀ b ∈ sliceAt bytes 132 4, b = 0)) .nonZeroReserved
    ensure (readU32 bytes crcOffset = (headerCrc H bytes).toNat) (.noRecoverableHeader 0)
    let phaseValue := bytes.getD 24 0
    let phase ← orErr (TransactionPhase.fromByte phaseValue) (.invalidPhase phaseValue)
    pure (decodeFields bytes h.1 phase)
  else .error (.noRecoverableHeader 0)

/-! ## Round trip -/

/-- The header of `bytes`, if they decode. -/
def header? (H : Hashing) (bytes : Bytes) : Option Header := (decodeHeader H bytes).toOption

theorem header?_eq_some {H : Hashing} {bytes : Bytes} {h : Header} :
    header? H bytes = some h ↔ decodeHeader H bytes = .ok h := by
  unfold header?; cases decodeHeader H bytes <;> simp [Except.toOption]

/-- Only a 136-byte string that starts with the magic decodes. -/
theorem length_magic_of_decode {H : Hashing} {bytes : Bytes} {h : Header}
    (hd : decodeHeader H bytes = .ok h) :
    bytes.length = headerBytes ∧ sliceAt bytes 0 8 = magic := by
  by_contra hn
  rw [decodeHeader, dif_neg hn] at hd
  cases hd

theorem headerFields_length (header : Header) :
    (headerFields header).flatten.length = crcOffset := by
  simp [headerFields, magic, crcOffset, header.identity.transactionId.2,
    header.identity.sourceDigest.2, header.payloadDigest.2]

/-- The whole layout of an encoded header around a checksum `c`. -/
def headerLayout (header : Header) (c : Bytes) : Bytes :=
  (headerFields header ++ [c, [0, 0, 0, 0]]).flatten

theorem headerLayout_length (header : Header) {c : Bytes} (hc : c.length = 4) :
    (headerLayout header c).length = headerBytes := by
  have := headerFields_length header
  simp only [headerLayout, List.flatten_append, List.length_append, this]
  simp [hc, crcOffset, headerBytes]

/-- The checksum does not depend on the bytes stored in the checksum field. -/
theorem headerCrc_layout (H : Hashing) (header : Header) {c c' : Bytes} (hc : c.length = 4)
    (hc' : c'.length = 4) :
    headerCrc H (headerLayout header c) = headerCrc H (headerLayout header c') := by
  have key : ∀ d : Bytes, d.length = 4 →
      sliceAt (headerLayout header d) 0 crcOffset = (headerFields header).flatten ∧
        sliceAt (headerLayout header d) (crcOffset + 4) 4 = [0, 0, 0, 0] := by
    intro d hd
    have hl := headerFields_length header
    rw [headerLayout, List.flatten_append]
    constructor
    · rw [sliceAt_append_left (by omega), ← hl, sliceAt_zero_length]
    · rw [sliceAt_append_right (by omega), hl]
      exact sliceAt_flatten (i := 1) rfl (by simp [hd]) rfl
  unfold headerCrc
  rw [(key c hc).1, (key c hc).2, (key c' hc').1, (key c' hc').2]

theorem encodeHeader_eq (H : Hashing) (header : Header) :
    encodeHeader H header = headerLayout header
      (toLe 4 (headerCrc H (headerLayout header [0, 0, 0, 0])).toNat) := rfl

@[simp] theorem encodeHeader_length (H : Hashing) (header : Header) :
    (encodeHeader H header).length = headerBytes := by
  rw [encodeHeader_eq]; exact headerLayout_length header (length_toLe _ _)

section Layout

variable (header : Header) {c : Bytes} (hc : c.length = 4)

/-- A field of the layout, found at the total length of the fields before it. -/
theorem sliceAt_layout {i off len : ℕ} {s : Bytes}
    (hs : (headerFields header ++ [c, [0, 0, 0, 0]])[i]? = some s)
    (hoff : (((headerFields header ++ [c, [0, 0, 0, 0]]).take i).map List.length).sum = off)
    (hlen : s.length = len) : sliceAt (headerLayout header c) off len = s :=
  sliceAt_flatten hs hoff hlen

theorem readU64_of_slice {bytes : Bytes} {offset : ℕ} {v : UInt64}
    (h : sliceAt bytes offset 8 = toLe 8 v.toNat) : readU64 bytes offset = v := by
  have hv : v.toNat < 256 ^ 8 := v.toNat_lt
  rw [readU64, h, fromLe_toLe 8 _ hv]
  simp

include hc in
/-- Decoding reads back the fields of a layout with a right checksum. -/
theorem decodeHeader_layout (H : Hashing) (hp : header.previousOffset ≠ some noPrevious)
    (hcrc : fromLe c = (headerCrc H (headerLayout header c)).toNat) :
    decodeHeader H (headerLayout header c) = .ok header := by
  have hlen := headerLayout_length header hc
  have ht := header.identity.transactionId.2
  have hs := header.identity.sourceDigest.2
  have hmagic : sliceAt (headerLayout header c) 0 8 = magic :=
    sliceAt_layout header (i := 0) rfl rfl rfl
  have hversion : readU16 (headerLayout header c) 8 = capsuleVersion := by
    have h : sliceAt (headerLayout header c) 8 2 = toLe 2 capsuleVersion :=
      sliceAt_layout header (i := 1) rfl rfl (length_toLe _ _)
    rw [readU16, h]
    exact fromLe_toLe 2 _ (by decide)
  have hheader : readU16 (headerLayout header c) 10 = headerBytes := by
    have h : sliceAt (headerLayout header c) 10 2 = toLe 2 headerBytes :=
      sliceAt_layout header (i := 2) rfl rfl (length_toLe _ _)
    rw [readU16, h]
    exact fromLe_toLe 2 _ (by decide)
  have hz1 : sliceAt (headerLayout header c) 12 4 = [0, 0, 0, 0] :=
    sliceAt_layout header (i := 3) rfl rfl rfl
  have hgen : readU64 (headerLayout header c) 16 = header.generation :=
    readU64_of_slice (sliceAt_layout header (i := 4) rfl rfl (length_toLe _ _))
  have hphase : sliceAt (headerLayout header c) 24 1 = [header.phase.toByte] :=
    sliceAt_layout header (i := 5) rfl (by simp [headerFields, magic]) rfl
  have hz2 : sliceAt (headerLayout header c) 25 7 = [0, 0, 0, 0, 0, 0, 0] :=
    sliceAt_layout header (i := 6) rfl (by simp [headerFields, magic]) rfl
  have hpay : readU64 (headerLayout header c) 32 = header.payloadLen :=
    readU64_of_slice (sliceAt_layout header (i := 7) rfl (by simp [headerFields, magic])
      (length_toLe _ _))
  have hprev : readU64 (headerLayout header c) 40 = header.previousOffset.getD noPrevious :=
    readU64_of_slice (sliceAt_layout header (i := 8) rfl (by simp [headerFields, magic])
      (length_toLe _ _))
  have htx : sliceAt (headerLayout header c) 48 16 = header.identity.transactionId.1 :=
    sliceAt_layout header (i := 9) rfl (by simp [headerFields, magic]) ht
  have hsrc : sliceAt (headerLayout header c) 64 32 = header.identity.sourceDigest.1 :=
    sliceAt_layout header (i := 10) rfl (by simp [headerFields, magic, ht]) hs
  have hdig : sliceAt (headerLayout header c) 96 32 = header.payloadDigest.1 :=
    sliceAt_layout header (i := 11) rfl (by simp [headerFields, magic, ht, hs])
      header.payloadDigest.2
  have hsum : sliceAt (headerLayout header c) 128 4 = c :=
    sliceAt_layout header (i := 12) rfl
      (by simp [headerFields, magic, ht, hs, header.payloadDigest.2]) hc
  have hz3 : sliceAt (headerLayout header c) 132 4 = [0, 0, 0, 0] :=
    sliceAt_layout header (i := 13) rfl
      (by simp [headerFields, magic, ht, hs, header.payloadDigest.2, hc]) rfl
  have hbyte : (headerLayout header c).getD 24 0 = header.phase.toByte := by
    have h0 := congrArg (fun l => l[0]?) hphase
    simp only [getElem?_sliceAt] at h0
    rw [List.getD_eq_getElem?_getD]
    simpa using congrArg (fun o => o.getD 0) h0
  have hprevious : (if header.previousOffset.getD noPrevious = noPrevious then none
      else some (header.previousOffset.getD noPrevious)) = header.previousOffset := by
    cases hpo : header.previousOffset with
    | none => simp
    | some v =>
      have : v ≠ noPrevious := fun h => hp (by rw [hpo, h])
      simp [this]
  rw [decodeHeader, dif_pos ⟨hlen, hmagic⟩]
  simp only [bind_ok_iff, exists_const, ensure_ok_iff, orErr_ok_iff, pure_eq_ok,
    Except.ok.injEq]
  refine ⟨hversion, hheader, ⟨?_, ?_, ?_⟩, ?_, header.phase, ?_, ?_⟩
  · rw [hz1]; simp
  · rw [hz2]; simp
  · rw [hz3]; simp
  · rw [readU32, crcOffset, hsum, hcrc]
  · rw [hbyte, TransactionPhase.fromByte_toByte]
  · simp only [decodeFields, fixedAt, hgen, hpay, hprev, htx, hsrc, hdig, hprevious]

end Layout

/-- **Header round trip.** -/
theorem decodeHeader_encodeHeader (H : Hashing) {header : Header}
    (hp : header.previousOffset ≠ some noPrevious) :
    decodeHeader H (encodeHeader H header) = .ok header := by
  rw [encodeHeader_eq]
  refine decodeHeader_layout header (length_toLe _ _) H hp ?_
  rw [fromLe_toLe 4 _ (UInt32.toNat_lt _)]
  exact congrArg UInt32.toNat (headerCrc_layout H header rfl (length_toLe _ _))

end Capsule

end StarConverter
