import StarConverter.Base.Canonical
import StarConverter.Extent
import StarConverter.Recovery

/-!
# The recovery bundle codec

Every reader of the decoder consumes exactly the encoding of what it returns, so an accepted string is
the encoding of its bundle (`decodeRecoveryBundle_ok`), and the encoder accepts that bundle under the
same limits (`encodeRecoveryBundle_decode`). The encoding of a write is prefix-free and the header
counts the writes, so no accepted string continues another one (`not_decode_append`). The check of
neighbouring ranges makes all writes disjoint (`validateBundle_disjoint`).
-/

namespace StarConverter

open Base

namespace Recovery

variable {bundle : RecoveryBundle} {bytes : Bytes} {limits limits' : RecoveryLimits}

/-! ## What the readers consume -/

theorem readEntry_drop {cursor total : ℕ} {r : OverlayWrite × ℕ × ℕ}
    (h : readEntry bytes limits cursor total = .ok r) :
    bytes.drop cursor = encodeWrite r.1 ++ bytes.drop r.2.1 ∧ r.2.1 ≤ bytes.length := by
  simp only [readEntry, bind_ok_iff, exists_const, ensure_ok_iff, orErr_ok_iff, checkedAdd_eq_some,
    pure_eq_ok, Except.ok.injEq, entryBytes] at h
  obtain ⟨_, ⟨-, rfl⟩, hin, offset, hoffset, length, hlength, -, _, -, _, ⟨-, rfl⟩, hdata, _, -, -,
    rfl⟩ := h
  obtain ⟨hoffset, -, -⟩ := readLe?_eq_some hoffset
  obtain ⟨hlength, -, -⟩ := readLe?_eq_some hlength
  refine ⟨?_, hdata⟩
  rw [drop_eq_sliceAt_append bytes cursor 8, drop_eq_sliceAt_append bytes (cursor + 8) 8,
    drop_eq_sliceAt_append bytes (cursor + 8 + 8) length, hoffset, hlength, encodeWrite,
    length_sliceAt_of_le hdata]
  simp only [List.append_assoc]

/-- The four groups, and the counts they were read by. -/
theorem decodeGroups_drop {digest : Digest} {counts : ℕ × ℕ × ℕ × ℕ}
    (hin : headerBytes ≤ bytes.length)
    (h : decodeGroups bytes limits digest counts = .ok bundle) :
    bytes.drop headerBytes = (bundle.writes.map encodeWrite).flatten ∧ bundle.planDigest = digest ∧
      (bundle.relocationDestinations.length, bundle.targetStaging.length, bundle.backupBoot.length,
        bundle.activation.length) = counts ∧ validateBundle bundle limits = .ok () := by
  simp only [decodeGroups, bind_ok_iff, exists_const, ensure_ok_iff, pure_eq_ok,
    Except.ok.injEq] at h
  obtain ⟨_, -, -, r1, h1, r2, h2, r3, h3, r4, h4, hend, _, hvalid, rfl⟩ := h
  obtain ⟨hlen1, hdrop1, hle1⟩ := readEntries_drop readEntry_drop hin h1
  obtain ⟨hlen2, hdrop2, hle2⟩ := readEntries_drop readEntry_drop hle1 h2
  obtain ⟨hlen3, hdrop3, hle3⟩ := readEntries_drop readEntry_drop hle2 h3
  obtain ⟨hlen4, hdrop4, -⟩ := readEntries_drop readEntry_drop hle3 h4
  refine ⟨?_, rfl, ?_, hvalid⟩
  · rw [hdrop1, hdrop2, hdrop3, hdrop4, hend, List.drop_length]
    simp [RecoveryBundle.writes, RecoveryBundle.groups]
  · rw [hlen1, hlen2, hlen3, hlen4]

/-- **What is accepted.** An accepted string is the encoding of its bundle, which satisfies the
encoder's checks. -/
theorem decodeRecoveryBundle_ok (h : decodeRecoveryBundle bytes limits = .ok bundle) :
    bytes = (headerFields bundle).flatten ++ (bundle.writes.map encodeWrite).flatten ∧
      validateLimits limits = .ok () ∧ validateBundle bundle limits = .ok () ∧
      ∀ group ∈ bundle.groups, group.length < 2 ^ 32 := by
  rw [decodeRecoveryBundle, bind_ok_iff] at h
  obtain ⟨_, hlimits, h⟩ := h
  split_ifs at h with hin
  simp only [bind_ok_iff, exists_const, ensure_ok_iff, orErr_ok_iff] at h
  obtain ⟨hmagic, v, hversion, rfl, hzero, c1, h1, c2, h2, c3, h3, c4, h4, hgroups⟩ := h
  obtain ⟨hversion, -, -⟩ := readLe?_eq_some hversion
  obtain ⟨h1, hlt1, -⟩ := readLe?_eq_some h1
  obtain ⟨h2, hlt2, -⟩ := readLe?_eq_some h2
  obtain ⟨h3, hlt3, -⟩ := readLe?_eq_some h3
  obtain ⟨h4, hlt4, -⟩ := readLe?_eq_some h4
  obtain ⟨hdrop, hdigest, hcounts, hvalid⟩ := decodeGroups_drop hin hgroups
  simp only [Prod.mk.injEq] at hcounts
  obtain ⟨rfl, rfl, rfl, rfl⟩ := hcounts
  have hreserved : sliceAt bytes 10 6 = [0, 0, 0, 0, 0, 0] :=
    List.eq_replicate_iff.2 ⟨length_sliceAt_of_le (by unfold headerBytes at hin; omega), hzero⟩
  have hdigest : bundle.planDigest.1 = sliceAt bytes 16 32 := by rw [hdigest]
  refine ⟨?_, hlimits, hvalid, ?_⟩
  · have hfields : bytes = sliceAt bytes 0 8 ++ (sliceAt bytes 8 2 ++ (sliceAt bytes 10 6 ++
        (sliceAt bytes 16 32 ++ (sliceAt bytes 48 4 ++ (sliceAt bytes 52 4 ++
          (sliceAt bytes 56 4 ++ (sliceAt bytes 60 4 ++ bytes.drop headerBytes))))))) := by
      rw [headerBytes, ← drop_eq_sliceAt_append bytes 60 4, ← drop_eq_sliceAt_append bytes 56 4,
        ← drop_eq_sliceAt_append bytes 52 4, ← drop_eq_sliceAt_append bytes 48 4,
        ← drop_eq_sliceAt_append bytes 16 32, ← drop_eq_sliceAt_append bytes 10 6,
        ← drop_eq_sliceAt_append bytes 8 2, ← drop_eq_sliceAt_append bytes 0 8, List.drop_zero]
    rw [hdrop, hmagic, hversion, hreserved, ← hdigest, h1, h2, h3, h4] at hfields
    simpa only [headerFields, List.flatten_cons, List.flatten_nil, List.append_nil,
      List.append_assoc] using hfields
  · simp only [RecoveryBundle.groups, List.forall_mem_cons]
    exact ⟨hlt1, hlt2, hlt3, hlt4, by simp⟩

/-- The encoder accepts a decoded bundle under the same limits and writes the same string. -/
theorem encodeRecoveryBundle_decode (hlen : bytes.length < wordBound)
    (h : decodeRecoveryBundle bytes limits = .ok bundle) :
    encodeRecoveryBundle bundle limits = .ok bytes := by
  obtain ⟨hbytes, hlimits, hvalid, hgroups⟩ := decodeRecoveryBundle_ok h
  rw [hbytes, List.length_append, length_headerFields, length_encodedWrites] at hlen
  simp only [encodeRecoveryBundle, totalPayloadBytes, totalWriteCount, bind_ok_iff, exists_const,
    orErr_ok_iff, checkedAdd_eq_some, checkAll_ok_iff, ensure_ok_iff, pure_eq_ok, Except.ok.injEq,
    sumChecked_ok_iff wordBound_pos, Nat.zero_add]
  unfold entryBytes at hlen ⊢
  refine ⟨(), hlimits, (), hvalid, _, ⟨by omega, rfl⟩, _, ⟨by omega, rfl⟩, _, ⟨by omega, rfl⟩, _,
    ⟨by omega, rfl⟩, hgroups, ?_⟩
  rw [hbytes]
  simp [headerFields, RecoveryBundle.groups]

/-! ## No accepted string continues another -/

/-- The writes the encoding has room for. -/
def Encodable (write : OverlayWrite) : Prop := write.offset + write.bytes.length < wordBound

theorem prefixFree_encodeWrite : PrefixFree encodeWrite Encodable := by
  intro w w' rest rest' hw hw' h
  have hbound : wordBound = 256 ^ 8 := by norm_num [wordBound]
  unfold Encodable at hw hw'
  simp only [encodeWrite, List.append_assoc] at h
  obtain ⟨hoffset, h⟩ := List.append_inj h (by simp)
  obtain ⟨hlength, h⟩ := List.append_inj h (by simp)
  have hoffset := toLe_injective (by omega) (by omega) hoffset
  have hlength := toLe_injective (by omega) (by omega) hlength
  have hbytes := (List.append_inj h hlength).1
  cases w
  cases w'
  simp_all

/-- An accepted string with anything behind it is refused, under whatever limits. -/
theorem not_decode_append {bundle' : RecoveryBundle} {more : Bytes}
    (h : decodeRecoveryBundle bytes limits = .ok bundle)
    (h' : decodeRecoveryBundle (bytes ++ more) limits' = .ok bundle') : more = [] := by
  obtain ⟨hbytes, -, hvalid, hgroups⟩ := decodeRecoveryBundle_ok h
  obtain ⟨hbytes', -, hvalid', hgroups'⟩ := decodeRecoveryBundle_ok h'
  rw [hbytes, List.append_assoc] at hbytes'
  obtain ⟨hheader, hwrites⟩ := List.append_inj hbytes'
    (by rw [length_headerFields, length_headerFields])
  have hfields := List.eq_iff_flatten_eq.2 ⟨hheader, by
    rw [headerFields_lengths, headerFields_lengths]⟩
  simp only [headerFields, List.cons.injEq, true_and, and_true] at hfields
  obtain ⟨-, h1, h2, h3, h4⟩ := hfields
  simp only [RecoveryBundle.groups, List.forall_mem_cons] at hgroups hgroups'
  obtain ⟨hlt1, hlt2, hlt3, hlt4, -⟩ := hgroups
  obtain ⟨hlt1', hlt2', hlt3', hlt4', -⟩ := hgroups'
  have hcount : bundle.writes.length = bundle'.writes.length := by
    simp only [RecoveryBundle.writes, RecoveryBundle.groups, List.length_flatten, List.map_cons,
      List.map_nil]
    rw [toLe_injective hlt1 hlt1' h1, toLe_injective hlt2 hlt2' h2, toLe_injective hlt3 hlt3' h3,
      toLe_injective hlt4 hlt4' h4]
  rw [← List.append_nil (bundle'.writes.map encodeWrite).flatten] at hwrites
  exact (prefixFree_encodeWrite.flatten hcount (fun w hw => ((validateBundle_ok hvalid).2.2.2 w hw).2)
    (fun w hw => ((validateBundle_ok hvalid').2.2.2 w hw).2) hwrites).2

/-! ## Disjoint writes -/

theorem writeRanges_eq {writes : List OverlayWrite} {ranges : List (ℕ × ℕ)}
    (h : writeRanges writes = .ok ranges) :
    ranges = writes.map fun w => (w.offset, w.offset + w.bytes.length) := by
  induction writes generalizing ranges with
  | nil =>
    cases h
    rfl
  | cons w rest ih =>
    simp only [writeRanges, bind_ok_iff, exists_const, ensure_ok_iff, orErr_ok_iff,
      checkedAdd_eq_some, pure_eq_ok, Except.ok.injEq] at h
    obtain ⟨-, _, ⟨-, rfl⟩, more, hmore, rfl⟩ := h
    rw [List.map_cons, ih hmore]

/-- The writes of an accepted bundle are pairwise disjoint, across all groups. -/
theorem validateBundle_disjoint {u : Unit} (h : validateBundle bundle limits = .ok u) :
    bundle.writes.Pairwise fun w w' => w.span.Disjoint w'.span := by
  have hne := (validateBundle_ok h).2.2.2
  simp only [validateBundle, bind_ok_iff] at h
  obtain ⟨_, -, _, -, _, -, _, -, ranges, hranges, hpairs⟩ := h
  obtain rfl := writeRanges_eq hranges
  rw [checkPairs_ok_iff] at hpairs
  simp only [ensure_ok_iff] at hpairs
  have hpos : ∀ r ∈ bundle.writes.map fun w => (w.offset, w.offset + w.bytes.length), r.1 < r.2 := by
    intro r hr
    obtain ⟨w, hw, rfl⟩ := List.mem_map.1 hr
    have := List.length_pos_of_ne_nil (hne w hw).1
    dsimp only
    omega
  have hdisjoint : (bundle.writes.map fun w => (w.offset, w.offset + w.bytes.length)).Pairwise
      fun r s => r.2 ≤ s.1 ∨ s.2 ≤ r.1 := (isChain_sortByKey_iff (fun _ _ h => h.symm)
    (fun a ha b hb hab => ⟨.inl, fun h => h.resolve_right fun hba => by
      have h1 := hpos a ha
      have h2 := hpos b hb
      rcases Prod.Lex.toLex_le_toLex.1 hab with hlt | ⟨heq, -⟩ <;> omega⟩)
    (fun a ha b hb c hc _ _ h1 h2 => by
      have := hpos b hb
      omega)).1 hpairs
  rw [List.pairwise_map] at hdisjoint
  refine hdisjoint.imp fun h x hx hx' => ?_
  rw [Patch.mem_span] at hx hx'
  omega

/-- **The codec of recovery bundles.** Under any limits, what is encoded is decoded to the same bundle;
what is decoded is encoded to the same string, and its writes are nonempty and pairwise disjoint; no
accepted string is a strict prefix of another. -/
theorem recovery_codec (limits : RecoveryLimits) (hmax : limits.maxBytes < wordBound) :
    (∀ bundle bytes, encodeRecoveryBundle bundle limits = .ok bytes →
      decodeRecoveryBundle bytes limits = .ok bundle) ∧
    (∀ bytes bundle, bytes.length < wordBound → decodeRecoveryBundle bytes limits = .ok bundle →
      encodeRecoveryBundle bundle limits = .ok bytes ∧ (∀ w ∈ bundle.writes, w.bytes ≠ []) ∧
        bundle.writes.Pairwise fun w w' => w.span.Disjoint w'.span) ∧
    (∀ bytes more bundle bundle', more ≠ [] → decodeRecoveryBundle bytes limits = .ok bundle →
      decodeRecoveryBundle (bytes ++ more) limits ≠ .ok bundle') := by
  refine ⟨fun bundle bytes h => ?_, fun bytes bundle hlen h => ?_,
    fun bytes more bundle bundle' hne h h' => hne (not_decode_append h h')⟩
  · have hchecks : validateLimits limits = .ok () ∧ validateBundle bundle limits = .ok () := by
      simp only [encodeRecoveryBundle, bind_ok_iff] at h
      obtain ⟨_, hlimits, _, hvalid, -⟩ := h
      exact ⟨hlimits, hvalid⟩
    exact decodeRecoveryBundle_encode h hmax hchecks.1 hchecks.2
  · obtain ⟨-, -, hvalid, -⟩ := decodeRecoveryBundle_ok h
    exact ⟨encodeRecoveryBundle_decode hlen h, fun w hw => ((validateBundle_ok hvalid).2.2.2 w hw).1,
      validateBundle_disjoint hvalid⟩

/-- One write in each group, out of order. -/
def sampleBundle : RecoveryBundle :=
  ⟨⟨List.replicate 32 7, by decide⟩, [⟨12, [4, 4]⟩], [⟨8, [1, 1, 1]⟩], [⟨4, [2, 2]⟩], [⟨0, [3]⟩]⟩

theorem sampleBundle_decoded :
    decodeRecoveryBundle ((headerFields sampleBundle).flatten ++
      (sampleBundle.writes.map encodeWrite).flatten) ⟨8, 4096⟩ = .ok sampleBundle :=
  (recovery_codec ⟨8, 4096⟩ (by decide)).1 sampleBundle _ (by decide +kernel)

end Recovery

end StarConverter
