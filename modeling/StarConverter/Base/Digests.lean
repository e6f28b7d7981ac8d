import StarConverter.Base.Bytes

/-!
# CRC-32 and SHA-256

Executable definitions of the two checksums, over natural-number words so that they evaluate in the
kernel.
-/

namespace Base

/-! ## CRC-32 -/

/-- One bit of the reflected division by the IEEE polynomial. -/
def crcBit (c : ℕ) : ℕ := if c % 2 = 1 then Nat.xor (c / 2) 0xEDB88320 else c / 2

def crcByte (c : ℕ) (b : UInt8) : ℕ :=
  crcBit (crcBit (crcBit (crcBit (crcBit (crcBit (crcBit (crcBit (Nat.xor c b.toNat))))))))

/-- The IEEE CRC-32 of a byte string. -/
def crc32 (b : Bytes) : UInt32 := UInt32.ofNat (Nat.xor (b.foldl crcByte 0xFFFFFFFF) 0xFFFFFFFF)

/-! ## SHA-256 -/

namespace Sha256

def wordSize : ℕ := 2 ^ 32

def rotr (n x : ℕ) : ℕ := Nat.lor (x / 2 ^ n) (x * 2 ^ (32 - n) % wordSize)

def roundConstants : List ℕ :=
  [0x428a2f98, 0x71374491, 0xb5c0fbcf, 0xe9b5dba5, 0x3956c25b, 0x59f111f1, 0x923f82a4, 0xab1c5ed5,
    0xd807aa98, 0x12835b01, 0x243185be, 0x550c7dc3, 0x72be5d74, 0x80deb1fe, 0x9bdc06a7, 0xc19bf174,
    0xe49b69c1, 0xefbe4786, 0x0fc19dc6, 0x240ca1cc, 0x2de92c6f, 0x4a7484aa, 0x5cb0a9dc, 0x76f988da,
    0x983e5152, 0xa831c66d, 0xb00327c8, 0xbf597fc7, 0xc6e00bf3, 0xd5a79147, 0x06ca6351, 0x14292967,
    0x27b70a85, 0x2e1b2138, 0x4d2c6dfc, 0x53380d13, 0x650a7354, 0x766a0abb, 0x81c2c92e, 0x92722c85,
    0xa2bfe8a1, 0xa81a664b, 0xc24b8b70, 0xc76c51a3, 0xd192e819, 0xd6990624, 0xf40e3585, 0x106aa070,
    0x19a4c116, 0x1e376c08, 0x2748774c, 0x34b0bcb5, 0x391c0cb3, 0x4ed8aa4a, 0x5b9cca4f, 0x682e6ff3,
    0x748f82ee, 0x78a5636f, 0x84c87814, 0x8cc70208, 0x90befffa, 0xa4506ceb, 0xbef9a3f7, 0xc67178f2]

/-- The eight working variables. -/
structure Words where
  a : ℕ
  b : ℕ
  c : ℕ
  d : ℕ
  e : ℕ
  f : ℕ
  g : ℕ
  h : ℕ

def initial : Words :=
  ⟨0x6a09e667, 0xbb67ae85, 0x3c6ef372, 0xa54ff53a, 0x510e527f, 0x9b05688c, 0x1f83d9ab, 0x5be0cd19⟩

def Words.add (x y : Words) : Words :=
  ⟨(x.a + y.a) % wordSize, (x.b + y.b) % wordSize, (x.c + y.c) % wordSize, (x.d + y.d) % wordSize,
    (x.e + y.e) % wordSize, (x.f + y.f) % wordSize, (x.g + y.g) % wordSize, (x.h + y.h) % wordSize⟩

def round (s : Words) (k w : ℕ) : Words :=
  let s1 := Nat.xor (Nat.xor (rotr 6 s.e) (rotr 11 s.e)) (rotr 25 s.e)
  let ch := Nat.xor (Nat.land s.e s.f) (Nat.land (wordSize - 1 - s.e) s.g)
  let t1 := s.h + s1 + ch + k + w
  let s0 := Nat.xor (Nat.xor (rotr 2 s.a) (rotr 13 s.a)) (rotr 22 s.a)
  let maj := Nat.xor (Nat.xor (Nat.land s.a s.b) (Nat.land s.a s.c)) (Nat.land s.b s.c)
  ⟨(t1 + s0 + maj) % wordSize, s.a, s.b, s.c, (s.d + t1) % wordSize, s.e, s.f, s.g⟩

/-- The next word of the message schedule; the window holds the last sixteen, oldest first. -/
def scheduled (window : List ℕ) : ℕ :=
  let w1 := window.getD 1 0
  let w14 := window.getD 14 0
  let s0 := Nat.xor (Nat.xor (rotr 7 w1) (rotr 18 w1)) (w1 / 2 ^ 3)
  let s1 := Nat.xor (Nat.xor (rotr 17 w14) (rotr 19 w14)) (w14 / 2 ^ 10)
  (window.getD 0 0 + s0 + window.getD 9 0 + s1) % wordSize

def rounds : Words → List ℕ → List ℕ → Words
  | s, _, [] => s
  | s, window, k :: ks =>
    rounds (round s k (window.getD 0 0)) (window.drop 1 ++ [scheduled window]) ks

/-- Big-endian words of a block. -/
def wordsOf : ℕ → Bytes → List ℕ
  | 0, _ => []
  | n + 1, b => fromLe (b.take 4).reverse :: wordsOf n (b.drop 4)

def blocks : ℕ → Words → Bytes → Words
  | 0, s, _ => s
  | n + 1, s, b => blocks n (s.add (rounds s (wordsOf 16 (b.take 64)) roundConstants)) (b.drop 64)

/-- The message, a one bit, zeros to 56 modulo 64 bytes, and the bit length. -/
def padded (b : Bytes) : Bytes :=
  b ++ [0x80] ++ List.replicate ((119 - b.length % 64) % 64) 0 ++ (toLe 8 (8 * b.length)).reverse

def toBe (w : ℕ) : Bytes := (toLe 4 w).reverse

def Words.toBytes (s : Words) : Bytes :=
  toBe s.a ++ toBe s.b ++ toBe s.c ++ toBe s.d ++ toBe s.e ++ toBe s.f ++ toBe s.g ++ toBe s.h

end Sha256

/-- The SHA-256 digest of a byte string. -/
def sha256 (b : Bytes) : FixedBytes 32 :=
  let message := Sha256.padded b
  ⟨(Sha256.blocks (message.length / 64) Sha256.initial message).toBytes, by
    simp [Sha256.Words.toBytes, Sha256.toBe]⟩

end Base
