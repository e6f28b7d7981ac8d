import StarConverter.Base.Words
import StarConverter.Executor

/-!
# Image readers

Bounded positional reads from a view of fixed size. A reader carries its contract: a read that
succeeds returns as many bytes as were asked for, and some bytes can be asked for.
-/

namespace StarConverter

open Base

/-- Bounded positional reads from a fixed-size image view. -/
structure BoundedImageReader where
  maxReadBytes : ℕ
  readExactAt : ℕ → ℕ → Except ImageError Bytes
  maxReadBytes_pos : 0 < maxReadBytes
  length_eq {offset length : ℕ} {bytes : Bytes} :
    readExactAt offset length = .ok bytes → bytes.length = length

/-- The reads of an image file that holds the given bytes. -/
def imageFileRead (image : Bytes) (maxReadBytes offset length : ℕ) : Except ImageError Bytes := do
  let stop ← orErr (checkedAdd offset length) (.rangeOverflow offset length)
  ensure (length ≤ maxReadBytes) (.readTooLarge length maxReadBytes)
  ensure (stop ≤ image.length) (.outOfRange offset length image.length)
  pure (sliceAt image offset length)

/-- An image file that holds the given bytes. -/
def imageFile (image : Bytes) (maxReadBytes : ℕ) (hpos : 0 < maxReadBytes) : BoundedImageReader where
  maxReadBytes := maxReadBytes
  readExactAt := imageFileRead image maxReadBytes
  maxReadBytes_pos := hpos
  length_eq := by
    intro offset length bytes h
    simp only [imageFileRead, bind_ok_iff, orErr_ok_iff, checkedAdd_eq_some, ensure_ok_iff,
      exists_const, pure_eq_ok, Except.ok.injEq] at h
    obtain ⟨_, ⟨-, rfl⟩, -, hle, rfl⟩ := h
    exact length_sliceAt_of_le hle

end StarConverter
