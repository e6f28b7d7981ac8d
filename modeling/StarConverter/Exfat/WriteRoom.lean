import StarConverter.Exfat.VolumeWrites

/-!
# Writes with room

The writers of the formatter refuse what does not fit. Where there is room for every field, entry and
bit, none of them fails, and none changes the length of what it writes to. Writes whose spans are in
order and inside the image make an overlay plan (`OverlayPlan.build_of_spans`).
-/

namespace StarConverter

open Base

namespace OverlayPlan

/-- Writes whose spans are nonempty, aligned, in order and inside the image make a plan. -/
theorem build_of_spans {imageBytes sectorBytes : ℕ} {writes : List OverlayWrite}
    {limits : OverlayLimits} {spans : List Span} (hspans : writes.map Patch.span = spans)
    (hv : validateLimits limits = .ok ())
    (hsector : Geometry.isPowerOfTwo sectorBytes) (himage : imageBytes < wordBound)
    (hcount : spans.length ≤ limits.maxWrites)
    (hvalid : ∀ s ∈ spans, 0 < s.length ∧ s.offset % sectorBytes = 0 ∧ s.length % sectorBytes = 0 ∧
      s.stop ≤ imageBytes)
    (hbytes : (spans.map Span.length).sum ≤ limits.maxReplacementBytes)
    (hmax : limits.maxReplacementBytes < wordBound) (ho : Ordered spans) :
    ∃ plan, build imageBytes sectorBytes writes limits = .ok plan := by
  have hmem : ∀ w ∈ writes, w.span ∈ spans := fun w hw => hspans ▸ List.mem_map_of_mem hw
  have htotal : byteCount writes = (spans.map Span.length).sum := by
    rw [← hspans, List.map_map]
    rfl
  have hvalid' : ∀ w ∈ writes, ValidWrite imageBytes sectorBytes w := by
    intro w hw
    obtain ⟨hpos, hoffset, hlength, hstop⟩ := hvalid w.span (hmem w hw)
    exact ⟨hpos, hoffset, hlength, hstop.trans_lt himage, hstop⟩
  have hsorted : sortByKey Patch.offset writes = writes := by
    refine sortByKey_eq_self ?_
    rw [← hspans, Ordered, List.pairwise_map] at ho
    exact ho.imp fun {a b} h => (Nat.le_add_right a.offset a.bytes.length).trans h
  have hchecked : checkWrites imageBytes sectorBytes writes limits = .ok (byteCount writes) := by
    have hlength : writes.length = spans.length := by rw [← hspans, List.length_map]
    rw [checkWrites, hv, ok_bind, ensure_of hsector, ok_bind, ensure_of (hlength.trans_le hcount),
      ok_bind, (validateWrites_ok_iff wordBound_pos).2 ⟨hvalid', by omega, rfl⟩, ok_bind,
      ensure_of (by omega), ok_bind, hsorted,
      (checkOverlaps_ok_iff (u := ()) fun w hw => (hvalid' w hw).stop_lt).2 (hspans ▸ ho), ok_bind,
      Nat.zero_add]
    rfl
  unfold build
  split
  · rename_i e he
    rw [hchecked] at he
    cases he
  · exact ⟨_, rfl⟩

end OverlayPlan

namespace Exfat

namespace Serialize

/-- A computation goes on from the value of its first step. -/
theorem exists_ok_bind {ε α β : Type} {x : Except ε α} {f : α → Except ε β} {p : β → Prop}
    (h : x.toOption.isSome = true) (hf : ∃ b, f (okValue x h) = .ok b ∧ p b) :
    ∃ b, (x >>= f) = .ok b ∧ p b := by
  rw [eq_okValue h]
  exact hf

/-! ## Directories -/

theorem writeFields_of {bytes : Bytes} {cursor : ℕ} {fields : List (Patch UInt8)}
    (h : ∀ p ∈ fields, cursor + p.offset + p.bytes.length ≤ bytes.length) :
    ∃ result, writeFields bytes cursor fields = .ok result ∧ result.length = bytes.length := by
  rw [writeFields, ensure_of h, ok_bind]
  exact ⟨_, rfl, by rw [length_applyAll]⟩

theorem writeSystemEntries_of {object : ObjectId} {bitmap upcaseAllocation : Allocation}
    {bitmapLength upcaseChecksum : ℕ} {label : List UInt16} {upcaseBytes bytes : Bytes}
    (hlabel : label.length ≤ 11) (hroom : 3 * entryBytes ≤ bytes.length) :
    ∃ result, writeSystemEntries object object bitmap upcaseAllocation bitmapLength (some label)
      upcaseBytes upcaseChecksum bytes = .ok (result, 3 * entryBytes) ∧
        result.length = bytes.length := by
  obtain ⟨first, hfirst, hlen1⟩ := @writeFields_of bytes 0 (labelFields label) fun p hp => by
    have := labelFields_le hlabel hp
    omega
  obtain ⟨second, hsecond, hlen2⟩ := @writeFields_of first entryBytes
    (bitmapFields bitmap.firstCluster bitmapLength) fun p hp => by
      have := bitmapFields_le hp
      omega
  obtain ⟨third, hthird, hlen3⟩ := @writeFields_of second (entryBytes + entryBytes)
    (upcaseFields upcaseChecksum upcaseAllocation.firstCluster upcaseBytes.length) fun p hp => by
      have := upcaseFields_le hp
      omega
  refine ⟨third, ?_, by rw [hlen3, hlen2, hlen1]⟩
  rw [writeSystemEntries, if_pos rfl, writeLabel]
  dsimp only
  rw [ensure_of (by omega), ok_bind, hfirst]
  dsimp only [ok_bind, pure_eq_ok]
  rw [hsecond, ok_bind, hthird]
  rfl

theorem writeChild_of {layouts : Layouts} {upcase : UpcaseTable} {clusterBytes cursor : ℕ}
    {bytes : Bytes} {child : ObjectId} {layout : ObjectLayout} {name : List UInt16}
    {metadata : ExfatObjectMetadata} {data : ℕ × ℕ × ℕ × Bool} {hash : ℕ}
    (hlayout : layouts.get? child = some layout) (hname : layout.name = some name)
    (hmetadata : layout.metadata = some metadata) (hdata : childData layout clusterBytes = .ok data)
    (hhash : upcase.nameHash name maxFileNameCodeUnits = .ok hash) (hcount : name.length < 256)
    (hroom : cursor + (2 + divCeil name.length 15) * entryBytes ≤ bytes.length)
    (hlt : bytes.length < wordBound) :
    ∃ written, writeChild layouts upcase clusterBytes bytes cursor child = .ok written ∧
      written.1.length = bytes.length := by
  have hset := (@slice?_eq_some _ bytes _ cursor _).2
    ⟨⟨Nat.le_add_right cursor ((2 + divCeil name.length 15) * entryBytes), hroom⟩, rfl⟩
  have hsecondary : 2 + divCeil name.length 15 - 1 < 256 := by
    unfold divCeil
    omega
  rw [writeChild, Layouts.index, hlayout, orErr_some, ok_bind, hname, orErr_some, ok_bind, hdata,
    ok_bind]
  dsimp only
  rw [checkedAdd_of_lt (by omega), orErr_some, ok_bind, hset, orErr_some, ok_bind,
    ensure_of hsecondary, ok_bind, hmetadata, orErr_some, ok_bind, ensure_of hcount, ok_bind, hhash]
  exact ⟨_, rfl, length_overwrite ..⟩

/-! ## The FAT -/

section Fat

variable {fat : Bytes} (hlt : fat.length < wordBound)

include hlt

theorem writeFatEntry_of {cluster value : ℕ} (h : cluster * 4 + 4 ≤ fat.length) :
    ∃ result, writeFatEntry fat cluster value = .ok result ∧ result.length = fat.length := by
  refine ⟨(put 4 (cluster * 4) value).apply fat, ?_, length_overwrite ..⟩
  rw [writeFatEntry, checkedMul_of_lt (by omega), orErr_some, ok_bind, ensure_of h, ok_bind]
  rfl

theorem writeChain_of {chain : List ℕ} (h : ∀ cluster ∈ chain, cluster * 4 + 4 ≤ fat.length) :
    ∃ result, writeChain fat chain = .ok result ∧ result.length = fat.length := by
  induction chain generalizing fat with
  | nil => exact ⟨fat, rfl, rfl⟩
  | cons cluster rest ih =>
    obtain ⟨hroom, hrest⟩ := List.forall_mem_cons.1 h
    rw [writeChain, checkedMul_of_lt (by omega), orErr_some, ok_bind, ensure_of hroom, ok_bind]
    have hlength : ((put 4 (cluster * 4) (rest.head?.getD endOfChain)).apply fat).length =
        fat.length := length_overwrite ..
    obtain ⟨result, hresult, hsame⟩ := ih (hlength ▸ hlt) (hlength ▸ hrest)
    exact ⟨result, hresult, hsame.trans hlength⟩

theorem writeBadEntries_of {bad : List ℕ} (h : ∀ cluster ∈ bad, cluster * 4 + 4 ≤ fat.length) :
    ∃ result, writeBadEntries fat bad = .ok result ∧ result.length = fat.length := by
  induction bad generalizing fat with
  | nil => exact ⟨fat, rfl, rfl⟩
  | cons cluster rest ih =>
    obtain ⟨hroom, hrest⟩ := List.forall_mem_cons.1 h
    obtain ⟨next, hnext, hlength⟩ := @writeFatEntry_of fat hlt cluster badCluster hroom
    obtain ⟨result, hresult, hsame⟩ := ih (hlength ▸ hlt) (hlength ▸ hrest)
    exact ⟨result, by rw [writeBadEntries, hnext, ok_bind, hresult], hsame.trans hlength⟩

theorem writeChains_of {chains : List (List ℕ)}
    (h : ∀ cluster ∈ chains.flatten, cluster * 4 + 4 ≤ fat.length) :
    ∃ result, writeChains fat chains = .ok result ∧ result.length = fat.length := by
  induction chains generalizing fat with
  | nil => exact ⟨fat, rfl, rfl⟩
  | cons chain rest ih =>
    rw [List.flatten_cons, List.forall_mem_append] at h
    obtain ⟨next, hnext, hlength⟩ := writeChain_of hlt h.1
    obtain ⟨result, hresult, hsame⟩ := ih (hlength ▸ hlt) (hlength ▸ h.2)
    exact ⟨result, by rw [writeChains, hnext, ok_bind, hresult], hsame.trans hlength⟩

end Fat

theorem buildFat_of {geometry : ExfatDestinationGeometry} {bitmap upcase : Allocation} {bad : List ℕ}
    {chains : List (List ℕ)} {bitmapChain upcaseChain : List ℕ}
    (hbitmap : expandAllocation bitmap = .ok bitmapChain)
    (hupcase : expandAllocation upcase = .ok upcaseChain) (hstart : 8 ≤ fatByteLength geometry)
    (hlt : fatByteLength geometry < wordBound)
    (hroom : ∀ cluster ∈ bitmapChain ++ upcaseChain ++ bad ++ chains.flatten,
      cluster * 4 + 4 ≤ fatByteLength geometry) :
    ∃ fat, buildFat geometry bitmap upcase bad chains = .ok fat ∧
      fat.length = fatByteLength geometry := by
  simp only [List.forall_mem_append] at hroom
  obtain ⟨⟨⟨hbitmapRoom, hupcaseRoom⟩, hbadRoom⟩, hchainsRoom⟩ := hroom
  have hfields : ∀ p ∈ [put 4 0 fatMediaEntry, put 4 4 endOfChain],
      0 + p.offset + p.bytes.length ≤ (zeros (fatByteLength geometry)).length := by
    intro p hp
    simp only [List.mem_cons, List.not_mem_nil, or_false] at hp
    rcases hp with rfl | rfl <;> rw [put_offset, length_put, length_zeros] <;> omega
  obtain ⟨start, hstarted, hlength⟩ := writeFields_of hfields
  rw [length_zeros] at hlength
  obtain ⟨first, hfirst, hlength1⟩ := writeChain_of (hlength ▸ hlt) (hlength ▸ hbitmapRoom)
  rw [hlength] at hlength1
  obtain ⟨second, hsecond, hlength2⟩ := writeChain_of (hlength1 ▸ hlt) (hlength1 ▸ hupcaseRoom)
  rw [hlength1] at hlength2
  obtain ⟨third, hthird, hlength3⟩ := writeBadEntries_of (hlength2 ▸ hlt) (hlength2 ▸ hbadRoom)
  rw [hlength2] at hlength3
  obtain ⟨fat, hfat, hlength4⟩ := writeChains_of (hlength3 ▸ hlt) (hlength3 ▸ hchainsRoom)
  refine ⟨fat, ?_, hlength4.trans hlength3⟩
  rw [buildFat, hstarted, ok_bind, hbitmap, ok_bind, hfirst, ok_bind, hupcase, ok_bind, hsecond,
    ok_bind, hthird, ok_bind, hfat]

/-! ## The bitmap and the parts -/

theorem allocationWrite_of {geometry : ExfatDestinationGeometry} {allocation : Allocation} {offset : ℕ}
    (h : clusterOffset geometry allocation.firstCluster = .ok offset) (bytes : Bytes) :
    allocationWrite geometry allocation bytes = .ok ⟨offset, bytes⟩ := by
  rw [allocationWrite, h, ok_bind]
  rfl

theorem setBit_of {bytes : Bytes} {index : ℕ} (h : index / 8 < bytes.length) :
    ∃ result, setBit bytes index = .ok result ∧ result.length = bytes.length := by
  rw [setBit, List.getElem?_eq_getElem h, orErr_some, ok_bind]
  exact ⟨_, rfl, List.length_set⟩

theorem writeBits_of {bytes : Bytes} {index : ℕ} {bits : List Bool}
    (h : index + bits.length ≤ bytes.length * 8) :
    ∃ result, writeBits bytes index bits = .ok result ∧ result.length = bytes.length := by
  induction bits generalizing bytes index with
  | nil => exact ⟨bytes, rfl, rfl⟩
  | cons allocated rest ih =>
    rw [List.length_cons] at h
    rw [writeBits]
    split_ifs
    · obtain ⟨next, hnext, hlen⟩ := @setBit_of bytes index (by omega)
      obtain ⟨result, hresult, hlen'⟩ := @ih next (index + 1) (by omega)
      exact ⟨result, by rw [hnext, ok_bind, hresult], hlen'.trans hlen⟩
    · exact ih (by omega)

end Serialize

end Exfat

end StarConverter
