import StarConverter.Base.Lz77
import StarConverter.Base.Fields
import StarConverter.Base.Words

/-!
# LZNT1 compression units

The decoder of NTFS compression units, and the format its module cites: chunks of literals and
back-references, where the split of a 16-bit back-reference depends on how many bytes its chunk has
produced. The decoder widens the offset field one byte too early, after 16, 32, …, 2048 bytes
(`bitAllocatorU_eq_displacementBits`).
-/

namespace StarConverter

open Base

namespace Lznt1

/-- Framing or back-reference failure while decoding. -/
inductive Lznt1Error
  | truncatedChunk
  | backReferenceBeforeChunk
  | compressionBlockTooLarge
  | arithmeticOverflow
  deriving DecidableEq

/-! ## The decoder -/

def bitAllocatorLoop (emitted : ℕ) : ℕ → ℕ → ℕ → ℕ
  | 0, offsetBits, _ => offsetBits
  | n + 1, offsetBits, threshold =>
    if threshold ≤ emitted ∧ offsetBits < 12 then
      bitAllocatorLoop emitted n (offsetBits + 1) (2 * threshold)
    else offsetBits

/-- The width of the offset field. Eight turns of the loop lead from 4 to its bound. -/
def bitAllocatorU (emitted : ℕ) : ℕ := bitAllocatorLoop emitted 8 4 (2 ^ 4)

/-- How far the current chunk is read and the destination is written. -/
structure ChunkState where
  chunkIn : ℕ
  dst : Bytes
  dstCursor : ℕ
  deriving DecidableEq

section Decoder

variable (chunk : Bytes) (chunkStart : ℕ)

def takeLiteral (s : ChunkState) : ChunkState :=
  ⟨s.chunkIn + 1, s.dst.set s.dstCursor (chunk.getD s.chunkIn 0), s.dstCursor + 1⟩

def takeBackReference (s : ChunkState) : Except Lznt1Error ChunkState := do
  let needed ← orErr (checkedAdd s.chunkIn 2) .truncatedChunk
  ensure (needed ≤ chunk.length) .truncatedChunk
  let token := leAt 2 chunk s.chunkIn
  let emitted := s.dstCursor - chunkStart
  ensure (emitted < wordBound32) .arithmeticOverflow
  let lengthBits := 16 - bitAllocatorU emitted
  let length := token % 2 ^ lengthBits + 3
  let offset := token / 2 ^ lengthBits + 1
  ensure (offset ≤ emitted) .backReferenceBeforeChunk
  let take := min length (s.dst.length - s.dstCursor)
  pure ⟨s.chunkIn + 2, copyFrom s.dst s.dstCursor (s.dstCursor - offset) take, s.dstCursor + take⟩

def takeItem (flags : UInt8) (bit : ℕ) (s : ChunkState) : Except Lznt1Error ChunkState :=
  if flags.toNat.testBit bit then takeBackReference chunk chunkStart s
  else .ok (takeLiteral chunk s)

/-- The items behind one flag byte. -/
def decodeBits (flags : UInt8) : List ℕ → ChunkState → Except Lznt1Error ChunkState
  | [], s => .ok s
  | bit :: bits, s =>
    if chunk.length ≤ s.chunkIn ∨ s.dst.length ≤ s.dstCursor then .ok s
    else do
      let s ← takeItem chunk chunkStart flags bit s
      decodeBits flags bits s

/-- The groups of a compressed chunk; each takes at least its flag byte. -/
def decodeGroups : ℕ → ChunkState → Except Lznt1Error ChunkState
  | 0, s => .ok s
  | n + 1, s =>
    if s.chunkIn < chunk.length ∧ s.dstCursor < s.dst.length then do
      let s ← decodeBits chunk chunkStart (chunk.getD s.chunkIn 0) (List.range 8)
        ⟨s.chunkIn + 1, s.dst, s.dstCursor⟩
      decodeGroups n s
    else .ok s

end Decoder

def decodeChunk (compressed : Bool) (chunk dst : Bytes) (dstCursor : ℕ) :
    Except Lznt1Error ChunkState :=
  if compressed then decodeGroups chunk dstCursor chunk.length ⟨0, dst, dstCursor⟩
  else
    let take := min chunk.length (dst.length - dstCursor)
    .ok ⟨take, overwrite dst dstCursor (chunk.take take), dstCursor + take⟩

/-- The chunks of a unit; each takes at least its header. -/
def decompressChunks (src : Bytes) : ℕ → ℕ → Bytes → ℕ → Except Lznt1Error (Bytes × ℕ)
  | 0, _, dst, dstCursor => .ok (dst, dstCursor)
  | n + 1, srcCursor, dst, dstCursor =>
    if saturatingAdd srcCursor 2 ≤ src.length ∧ dstCursor < dst.length then
      let header := leAt 2 src srcCursor
      if header = 0 then .ok (dst, dstCursor)
      else do
        let chunkLen := header % 0x1000 + 1
        let stop ← orErr (checkedAdd (srcCursor + 2) chunkLen) .arithmeticOverflow
        ensure (stop ≤ src.length) .truncatedChunk
        let chunk := sliceAt src (srcCursor + 2) chunkLen
        let s ← decodeChunk (header.testBit 15) chunk dst dstCursor
        decompressChunks src n stop s.dst s.dstCursor
    else .ok (dst, dstCursor)

/-- Decodes one compression unit into `dst`: the buffer after it, and how much of it was written. -/
def decompressUnit (src dst : Bytes) : Except Lznt1Error (Bytes × ℕ) :=
  decompressChunks src src.length 0 dst 0

/-! ## The format -/

/-- The width of the displacement field of a back-reference behind `emitted` bytes of its chunk:
the largest `m` up to 12 with `2 ^ (m - 1) < emitted`, and at least 4. -/
def displacementBits (emitted : ℕ) : ℕ :=
  max 4 (Nat.findGreatest (fun m => 2 ^ (m - 1) < emitted) 12)

def encodeToken (emitted : ℕ) : Token UInt8 → Bytes
  | .literal byte => [byte]
  | .copy offset length =>
    toLe 2 ((offset - 1) * 2 ^ (16 - displacementBits emitted) + (length - 3))

def encodeTokens : ℕ → List (Token UInt8) → Bytes
  | _, [] => []
  | emitted, token :: tokens =>
    encodeToken emitted token ++ encodeTokens (emitted + token.size) tokens

/-- A flag for each token of a group, the first one lowest. -/
def flagBits : List (Token UInt8) → ℕ
  | [] => 0
  | token :: tokens => token.isCopy.toNat + 2 * flagBits tokens

/-- A flag byte in front of every eight tokens. -/
def encodeGroups : ℕ → ℕ → List (Token UInt8) → Bytes
  | 0, _, _ => []
  | n + 1, emitted, tokens =>
    if tokens = [] then []
    else UInt8.ofNat (flagBits (tokens.take 8)) :: encodeTokens emitted (tokens.take 8) ++
      encodeGroups n (emitted + tokensSize (tokens.take 8)) (tokens.drop 8)

inductive Chunk
  | compressed (tokens : List (Token UInt8))
  | plain (bytes : Bytes)
  deriving DecidableEq

/-- A back-reference stays inside its chunk, and its length fits into the rest of its word. -/
def TokenFits (emitted : ℕ) : Token UInt8 → Prop
  | .literal _ => True
  | .copy offset length =>
    1 ≤ offset ∧ offset ≤ emitted ∧ 3 ≤ length ∧ length - 3 < 2 ^ (16 - displacementBits emitted)

instance : ∀ (emitted : ℕ) (token : Token UInt8), Decidable (TokenFits emitted token)
  | _, .literal _ => .isTrue trivial
  | _, .copy _ _ => inferInstanceAs (Decidable (_ ∧ _))

namespace Chunk

/-- What follows the header of the chunk. -/
def payload : Chunk → Bytes
  | compressed tokens => encodeGroups tokens.length 0 tokens
  | plain bytes => bytes

def header : Chunk → ℕ
  | compressed tokens => 0xb000 + ((compressed tokens).payload.length - 1)
  | plain bytes => 0x3000 + (bytes.length - 1)

def encode (c : Chunk) : Bytes := toLe 2 c.header ++ c.payload

/-- The bytes the chunk stands for. -/
def text : Chunk → Bytes
  | compressed tokens => expand [] tokens
  | plain bytes => bytes

/-- The chunks that can be written: they stand for 1 to 4096 bytes, and the length of their payload
fits into the header. -/
def Valid : Chunk → Prop
  | compressed tokens => tokens ≠ [] ∧ tokensSize tokens ≤ 4096 ∧ Along TokenFits 0 tokens ∧
      (compressed tokens).payload.length ≤ 4096
  | plain bytes => bytes ≠ [] ∧ bytes.length ≤ 4096

instance : ∀ c : Chunk, Decidable c.Valid
  | compressed _ => inferInstanceAs (Decidable (_ ∧ _))
  | plain _ => inferInstanceAs (Decidable (_ ∧ _))

end Chunk

/-- The chunks, and a zero header behind them. -/
def encodeUnit (chunks : List Chunk) : Bytes := chunks.flatMap Chunk.encode ++ [0, 0]

def unitText (chunks : List Chunk) : Bytes := chunks.flatMap Chunk.text

/-! ## The two widths -/

/-- The lengths at which the decoder's field is wider than the written one: 16, 32, …, 2048. -/
def WidthBoundary (emitted : ℕ) : Prop := ∃ k ∈ List.range' 4 8, emitted = 2 ^ k

instance (emitted : ℕ) : Decidable (WidthBoundary emitted) := List.decidableBEx _ _

theorem bitAllocatorLoop_spec {u n b : ℕ} (hn : b + n = 12) :
    let m := bitAllocatorLoop u n b (2 ^ b)
    (b ≤ m ∧ m ≤ 12) ∧ (m < 12 → u < 2 ^ m) ∧ (b < m → 2 ^ (m - 1) ≤ u) := by
  induction n generalizing b with
  | zero =>
    refine ⟨⟨le_rfl, by rw [bitAllocatorLoop]; omega⟩, fun h => ?_, fun h => ?_⟩
    · rw [bitAllocatorLoop] at h
      omega
    · rw [bitAllocatorLoop] at h
      omega
  | succ n ih =>
    rw [bitAllocatorLoop]
    split_ifs with h
    · have h2 : 2 * 2 ^ b = 2 ^ (b + 1) := by rw [pow_succ, Nat.mul_comm]
      rw [h2]
      obtain ⟨hb, hlt, hle⟩ := ih (b := b + 1) (by omega)
      refine ⟨⟨by omega, hb.2⟩, hlt, fun _ => ?_⟩
      by_cases hm : b + 1 < bitAllocatorLoop u n (b + 1) (2 ^ (b + 1))
      · exact hle hm
      · have hm : bitAllocatorLoop u n (b + 1) (2 ^ (b + 1)) = b + 1 := by omega
        rw [hm]
        exact h.1
    · have h : ¬ 2 ^ b ≤ u := fun hu => h ⟨hu, by omega⟩
      exact ⟨⟨le_rfl, by omega⟩, fun _ => by omega, fun h => absurd h (lt_irrefl _)⟩

theorem bitAllocatorU_spec (u : ℕ) : (4 ≤ bitAllocatorU u ∧ bitAllocatorU u ≤ 12) ∧
    (bitAllocatorU u < 12 → u < 2 ^ bitAllocatorU u) ∧
    (4 < bitAllocatorU u → 2 ^ (bitAllocatorU u - 1) ≤ u) :=
  bitAllocatorLoop_spec rfl

theorem displacementBits_spec (u : ℕ) : (4 ≤ displacementBits u ∧ displacementBits u ≤ 12) ∧
    (displacementBits u < 12 → u ≤ 2 ^ displacementBits u) ∧
    (4 < displacementBits u → 2 ^ (displacementBits u - 1) < u) := by
  have hle : displacementBits u ≤ 12 := max_le (by omega) (Nat.findGreatest_le 12)
  refine ⟨⟨le_max_left _ _, hle⟩, fun h => ?_, fun h => ?_⟩
  · have hlt : Nat.findGreatest (fun m => 2 ^ (m - 1) < u) 12 < displacementBits u + 1 :=
      Nat.lt_succ_of_le (le_max_right _ _)
    have hnot := Nat.findGreatest_is_greatest hlt h
    simpa using hnot
  · have heq : displacementBits u = Nat.findGreatest (fun m => 2 ^ (m - 1) < u) 12 :=
      (max_eq_right_iff.2 (by unfold displacementBits at h; omega))
    have hspec := Nat.findGreatest_of_ne_zero heq.symm (by omega)
    exact hspec

/-- **Where the widths differ.** The decoder's offset field has the width of the format, but for one
bit more after 16, 32, …, 2048 bytes. -/
theorem bitAllocatorU_eq_displacementBits (u : ℕ) :
    bitAllocatorU u = displacementBits u + if WidthBoundary u then 1 else 0 := by
  obtain ⟨⟨hr4, hr12⟩, hrlt, hrle⟩ := bitAllocatorU_spec u
  obtain ⟨⟨hm4, hm12⟩, hmle, hmlt⟩ := displacementBits_spec u
  have hpow {a b : ℕ} (h : 2 ^ a < 2 ^ b) : a < b := (Nat.pow_lt_pow_iff_right (by norm_num)).1 h
  have hpow' {a b : ℕ} (h : 2 ^ a ≤ 2 ^ b) : a ≤ b := (Nat.pow_le_pow_iff_right (by norm_num)).1 h
  split_ifs with hb
  · obtain ⟨k, hk, rfl⟩ := hb
    rw [List.mem_range'_1] at hk
    have hmk : displacementBits (2 ^ k) = k := by
      refine le_antisymm ?_ ?_
      · by_contra hlt
        have := hpow (hmlt (by omega))
        omega
      · by_contra hlt
        have := hpow' (hmle (by omega))
        omega
    have hkr : k < bitAllocatorU (2 ^ k) := by
      by_contra hle
      have := hpow (hrlt (by omega))
      omega
    have := hpow' (hrle (by omega))
    omega
  · rw [Nat.add_zero]
    rcases lt_trichotomy (bitAllocatorU u) (displacementBits u) with h | h | h
    · have h1 := hpow (lt_trans (hmlt (by omega)) (hrlt (by omega)))
      omega
    · exact h
    · have h1 := hmle (by omega)
      have h2 := hrle (by omega)
      have h3 := hpow' (le_trans h2 h1)
      have h4 : bitAllocatorU u - 1 = displacementBits u := by omega
      rw [h4] at h2
      exact absurd ⟨displacementBits u, by rw [List.mem_range'_1]; omega, le_antisymm h1 h2⟩ hb

end Lznt1

end StarConverter
