import StarConverter.Base.Digests

/-!
# Hash functions

SHA-256 and CRC-32 come from external crates. Results hold for every pair of functions with the
right output widths, unless a theorem says otherwise; concrete runs use the standard pair.
-/

namespace StarConverter

open Base

abbrev Digest := FixedBytes 32

/-- The external hash functions. -/
structure Hashing where
  crc32 : Bytes → UInt32
  sha256 : Bytes → Digest

/-- The functions the crates compute. -/
def Hashing.standard : Hashing := ⟨Base.crc32, Base.sha256⟩

/-- `x` is the only string with its digest. An injective hash has this property at every string. -/
def Hashing.Unique (H : Hashing) (x : Bytes) : Prop := ∀ y, H.sha256 y = H.sha256 x → y = x

end StarConverter
