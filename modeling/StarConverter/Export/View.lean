import StarConverter.Base.Search
import StarConverter.Export.Rebuild

/-!
# The relocated view of a source

What a converted image will hold at its payload is read from the source alone: a read inside the
destination of a materialization rebuilds the stream and cuts the piece out, one inside the destination
of a relocation goes back to where the bytes come from, and any other goes to the same place. Both lists
are sorted by destination and searched for the last one that starts at or before the read.
-/

namespace StarConverter

open Base Geometry

namespace Export

/-- One destination of a materialized stream, and the place of the stream it holds. -/
structure MaterializationSpan where
  stream : StreamId
  logicalOffset : ℕ
  destination : ByteRange
  streamDestinationLength : ℕ
  deriving DecidableEq

/-- The span that holds a whole read. -/
def coveringMaterialization (materializations : List MaterializationSpan) (offset stop : ℕ) :
    Option MaterializationSpan :=
  (lastStarting (fun item => item.destination.offset) offset materializations).filter fun item =>
    (checkedAdd item.destination.offset item.destination.length).any fun destinationEnd =>
      decide (stop ≤ destinationEnd)

def readMaterializedLogical (source : SourceImage) (graph : ObjectGraph)
    (materialization : MaterializationSpan) (offset length : ℕ) :
    Except CandidateExportError Bytes := do
  let spanOffset ← orErr (checkedSub offset materialization.destination.offset)
    (.relocationShape "materialization read is before its destination")
  let logicalOffset ← orErr (checkedAdd materialization.logicalOffset spanOffset)
    (.arithmeticOverflow "materialization read logical offset")
  let payload ← reconstructStreamDestination source graph materialization.stream
    materialization.streamDestinationLength
  let stop ← orErr (checkedAdd logicalOffset length) (.arithmeticOverflow "materialization read end")
  ensure (stop ≤ payload.length) (.relocationShape "materialization read exceeds destination")
  pure (sliceAt payload logicalOffset length)

/-- A source with the movements of a plan; relocations and spans are sorted by destination. -/
structure RelocatedSourceView where
  source : SourceImage
  relocations : List Relocation
  materializations : List MaterializationSpan
  sourceGraph : Option ObjectGraph

namespace RelocatedSourceView

variable (view : RelocatedSourceView)

/-- A read that no materialization covers. -/
def readRelocated (offset length stop : ℕ) : Except ImageError Bytes :=
  match lastStarting (fun relocation => relocation.destination.offset) offset view.relocations with
  | some relocation => do
    let destinationEnd ← orErr
      (checkedAdd relocation.destination.offset relocation.destination.length)
      (.rangeOverflow relocation.destination.offset relocation.destination.length)
    if stop ≤ destinationEnd then do
      let sourceOffset ← orErr
        (checkedAdd relocation.source.offset (offset - relocation.destination.offset))
        (.rangeOverflow relocation.source.offset (offset - relocation.destination.offset))
      view.source.reader.readExactAt sourceOffset length
    else view.source.reader.readExactAt offset length
  | none => view.source.reader.readExactAt offset length

def readExactAt (offset length : ℕ) : Except ImageError Bytes := do
  let stop ← orErr (checkedAdd offset length) (.rangeOverflow offset length)
  match view.sourceGraph, coveringMaterialization view.materializations offset stop with
  | some graph, some materialization =>
    (readMaterializedLogical view.source graph materialization offset length).mapError fun _ =>
      .rangeOverflow offset length
  | _, _ => view.readRelocated offset length stop

theorem readRelocated_length {offset length stop : ℕ} {bytes : Bytes}
    (h : view.readRelocated offset length stop = .ok bytes) : bytes.length = length := by
  unfold readRelocated at h
  split at h
  · rw [bind_ok_iff] at h
    obtain ⟨_, -, h⟩ := h
    split_ifs at h
    · rw [bind_ok_iff] at h
      obtain ⟨_, -, h⟩ := h
      exact view.source.reader.length_eq h
    · exact view.source.reader.length_eq h
  · exact view.source.reader.length_eq h

theorem readExactAt_of_covered {offset length : ℕ} {graph : ObjectGraph} {s : MaterializationSpan}
    (hstop : offset + length < wordBound) (hgraph : view.sourceGraph = some graph)
    (h : coveringMaterialization view.materializations offset (offset + length) = some s) :
    view.readExactAt offset length =
      (readMaterializedLogical view.source graph s offset length).mapError fun _ =>
        .rangeOverflow offset length := by
  rw [readExactAt, checkedAdd_of_lt hstop, orErr_some, ok_bind, hgraph, h]

theorem readExactAt_of_uncovered {offset length : ℕ} (hstop : offset + length < wordBound)
    (h : coveringMaterialization view.materializations offset (offset + length) = none) :
    view.readExactAt offset length = view.readRelocated offset length (offset + length) := by
  rw [readExactAt, checkedAdd_of_lt hstop, orErr_some, ok_bind, h]
  cases view.sourceGraph with
  | none => rfl
  | some graph => rfl

theorem readExactAt_length {offset length : ℕ} {bytes : Bytes}
    (h : view.readExactAt offset length = .ok bytes) : bytes.length = length := by
  rw [readExactAt, bind_ok_iff] at h
  obtain ⟨stop, -, h⟩ := h
  split at h
  · simp only [mapError_ok_iff, readMaterializedLogical, bind_ok_iff, exists_const, ensure_ok_iff,
      orErr_ok_iff, checkedAdd_eq_some, pure_eq_ok, Except.ok.injEq] at h
    obtain ⟨_, -, logicalOffset, -, payload, -, _, ⟨-, rfl⟩, hle, rfl⟩ := h
    exact length_sliceAt_of_le hle
  · exact view.readRelocated_length h

/-- The view reads like an image. -/
def reader : BoundedImageReader where
  maxReadBytes := view.source.maxReadBytes
  readExactAt := view.readExactAt
  maxReadBytes_pos := view.source.maxReadBytes_pos
  length_eq := view.readExactAt_length

end RelocatedSourceView

end Export

end StarConverter
