import StarConverter.Capsule.Store

/-!
# Interrupted appends

Once the checks of an append have passed, an error leaves a poisoned store and a prefix of the new
record in the file (`writeSuffix_spec`). Reconciling then ends with the old capsule when the prefix is
proper and with the updated one when it is complete (`restore_spec`), with one exception: a proper
prefix that holds the whole leading header is cut off only if that header decodes
(`append_reconciled`).
-/

namespace StarConverter

open Base World Capsule

namespace CapsuleStore

/-- What the store knows is an accepted nonempty capsule. -/
structure Valid (H : Hashing) (store : CapsuleStore) : Prop where
  nonempty : store.bytes ≠ []
  scanned : ∃ view, scanCapsule H store.bytes store.limits = .ok view ∧
    view.generations.length = store.generationCount

/-- All checks of an append, up to the first write; they return the new count and length. -/
def appendChecked (H : Hashing) (updated : Bytes) : StoreProg (ℕ × ℕ) := do
  let expected ← appendChecks H updated
  let s ← Prog.get
  let total ← persistChecks (updated.drop s.store.bytes.length)
  pure (expected, total)

/-- The state an interrupted write of `suffix` leaves. -/
structure Interrupted (suffix : Bytes) (count : ℕ) (s s' : StoreState) : Prop where
  poisoned : s'.store.poisoned = true
  limits : s'.store.limits = s.store.limits
  appending : s.world.Appending suffix s'.world
  known : s'.store.bytes = s.store.bytes ∧ s'.store.generationCount = s.store.generationCount ∨
    s'.store.bytes = s.store.bytes ++ suffix ∧ s'.store.generationCount = count ∧
      s'.world.capsule.now = s.world.capsule.now ++ suffix

variable {H : Hashing} {s : StoreState} {updated : Bytes}

/-! ## The checks -/

theorem acceptUpdate_ok_iff {store : CapsuleStore} {count : ℕ} :
    store.acceptUpdate H updated = .ok count ↔
      store.poisoned = false ∧ store.bytes.length < updated.length ∧ store.bytes <+: updated ∧
        count = store.generationCount + 1 ∧ count < wordBound ∧
        ∃ view, scanCapsule H updated store.limits = .ok view ∧
          view.generations.length = count ∧ view.validatedBytes = updated.length := by
  simp only [acceptUpdate, bind_ok_iff, exists_const, ensure_ok_iff, orErr_ok_iff,
    checkedAdd_eq_some, pure_eq_ok, Except.ok.injEq, mapError_ok_iff]
  constructor
  · rintro ⟨hp, ⟨hlt, hpre⟩, view, hscan, _, ⟨hw, rfl⟩, ⟨hc, hv⟩, rfl⟩
    exact ⟨hp, hlt, hpre, rfl, hw, view, hscan, hc, hv⟩
  · rintro ⟨hp, hlt, hpre, rfl, hw, view, hscan, hc, hv⟩
    exact ⟨hp, ⟨hlt, hpre⟩, view, hscan, _, ⟨hw, rfl⟩, ⟨hc, hv⟩, rfl⟩

/-- A poisoned store refuses every append without looking at the file. -/
theorem append_of_poisoned (h : s.store.poisoned = true) :
    append H updated s = (.error .poisoned, s) := by
  have hacc : s.store.acceptUpdate H updated = .error .poisoned := by
    rw [acceptUpdate, ensure_of_not (by simp [h])]
    rfl
  have hchecks : appendChecks H updated s = (.error .poisoned, s) := by
    show (Prog.lift (s.store.acceptUpdate H updated) >>= _ : StoreProg ℕ) s = _
    exact Prog.bind_of_error (by rw [hacc]; rfl)
  exact Prog.bind_of_error hchecks

/-- The checks change neither the store nor the file. -/
structure Checked (H : Hashing) (updated : Bytes) (count : ℕ) (s s' : StoreState) : Prop where
  store : s'.store = s.store
  waits : s.world.Waits s'.world
  accepted : s.store.acceptUpdate H updated = .ok count

theorem appendChecks_spec (hfile : s.world.capsule.now = s.store.bytes) :
    Prog.Spec (appendChecks H updated) s (fun count => Checked H updated count s)
      (fun _ => True) := by
  refine Prog.Spec.get_bind (Prog.Spec.lift_bind (fun count hacc => ?_) fun _ _ => trivial)
  refine (io_spec (Q := fun _ => Checked H updated count s) ?_).bind fun _ _ h => Prog.Spec.pure h
  exact (ensureUnchanged_spec (by rw [hfile])).mono (fun _ _ h => ⟨rfl, h, hacc⟩) fun _ _ => trivial

theorem persistChecks_spec {suffix : Bytes} (hfile : s.world.capsule.now = s.store.bytes) :
    Prog.Spec (persistChecks suffix) s (fun _ s' => s'.store = s.store ∧ s.world.Waits s'.world)
      (fun _ => True) := by
  have hidle : ∀ s₁ : StoreState, s₁.store = s.store ∧ s.world.Waits s₁.world →
      Prog.Spec (io (tick .allocationFailed)) s₁
        (fun _ s' => s'.store = s.store ∧ s.world.Waits s'.world) (fun _ => True) := fun s₁ h₁ =>
    io_spec ((tick_spec _ s₁.world).mono (fun _ _ h => ⟨h₁.1, h₁.2.trans h⟩) fun _ _ => trivial)
  refine Prog.Spec.get_bind ?_
  refine (io_spec (Q := fun _ s' => s'.store = s.store ∧ s.world.Waits s'.world)
    ((ensureUnchanged_spec (by rw [hfile])).mono (fun _ _ h => ⟨rfl, h⟩) fun _ _ => trivial)).bind ?_
  intro _ s₁ h₁
  refine Prog.Spec.lift_bind (fun total _ => ?_) fun _ _ => trivial
  refine Prog.Spec.lift_bind (fun _ _ => ?_) fun _ _ => trivial
  refine (hidle s₁ h₁).bind fun _ s₂ h₂ => ?_
  exact (hidle s₂ h₂).bind fun _ s₃ h₃ => Prog.Spec.pure h₃

theorem appendChecked_spec (hfile : s.world.capsule.now = s.store.bytes) :
    Prog.Spec (appendChecked H updated) s (fun r => Checked H updated r.1 s) (fun _ => True) := by
  refine (appendChecks_spec hfile).bind fun count s₁ h₁ => Prog.Spec.get_bind ?_
  refine (persistChecks_spec (by rw [h₁.waits.capsule, hfile, h₁.store])).bind fun total s₂ h₂ => ?_
  exact Prog.Spec.pure ⟨h₂.1.trans h₁.store, h₁.waits.trans h₂.2, h₁.accepted⟩

/-- An append is its checks and then the write. -/
theorem append_of_checked {r : ℕ × ℕ} {s₂ : StoreState}
    (h : appendChecked H updated s = (.ok r, s₂)) (hfile : s.world.capsule.now = s.store.bytes) :
    append H updated s = writeSuffix (updated.drop s.store.bytes.length) r.1 r.2 .notRequired s₂ := by
  obtain ⟨count, s₁, hchecks, h⟩ := Prog.bind_eq_ok.1 h
  have hstore := ((appendChecks_spec hfile).ok hchecks).store
  obtain ⟨_, _, hget, h⟩ := Prog.bind_eq_ok.1 h
  obtain ⟨rfl, rfl⟩ : s₁ = _ ∧ s₁ = _ := by
    simpa [Prog.get] using hget
  obtain ⟨total, _, hpersist, h⟩ := Prog.bind_eq_ok.1 h
  obtain ⟨rfl, rfl⟩ : (count, total) = r ∧ _ = s₂ := by
    simpa [pure] using h
  rw [append, Prog.bind_of_ok hchecks]
  show persistSuffix (updated.drop s₁.store.bytes.length) count .notRequired s₁ = _
  rw [persistSuffix, Prog.bind_of_ok hpersist, hstore]

/-! ## The write -/

/-- **Interrupted write.** A finished write is adopted; any other leaves a poisoned store and a
prefix of the suffix in the file. -/
theorem writeSuffix_spec {suffix : Bytes} {count total : ℕ} {durability : NamespaceDurability}
    (hfile : s.world.capsule.now = s.store.bytes) :
    Prog.Spec (writeSuffix suffix count total durability) s
      (fun _ s' => s'.store = ⟨s.store.bytes ++ suffix, count, s.store.limits, false⟩ ∧
        s'.world.capsule.now = s.store.bytes ++ suffix ∧ s'.world.capsule.earlier = [] ∧
        s.world.Appending suffix s'.world)
      (fun s' => Interrupted suffix count s s' ∧ ¬ s.world.Quiet) := by
  refine Prog.Spec.get_bind (Prog.Spec.modify_bind ?_)
  refine (io_spec (Q := fun _ s' => s'.store = { s.store with poisoned := true } ∧
      s.world.Appending suffix s'.world ∧ s'.world.capsule.now = s.world.capsule.now ++ suffix ∧
      s'.world.capsule.earlier = []) ?_).bind ?_
  · refine (persistBytes_spec (by rw [hfile])).mono (fun _ _ h => ⟨rfl, h⟩) ?_
    rintro w' ⟨h, hq⟩
    exact ⟨⟨rfl, rfl, h, Or.inl ⟨rfl, rfl⟩⟩, hq⟩
  rintro _ s₁ ⟨hstore, happ, hnow, hclean⟩
  refine (io_spec (Q := fun _ s' => s'.store = { s.store with poisoned := true } ∧
      s.world.Appending suffix s'.world ∧ s'.world.capsule.now = s.world.capsule.now ++ suffix ∧
      s'.world.capsule.earlier = []) ?_).bind ?_
  · refine (tick_spec _ s₁.world).mono (fun _ _ h => ?_) ?_
    · exact ⟨hstore, happ.waits h, by rw [h.capsule, hnow], by rw [h.capsule, hclean]⟩
    · rintro w' ⟨h, hq⟩
      exact ⟨⟨by rw [hstore], by rw [hstore], happ.waits h, Or.inl (by rw [hstore]; exact ⟨rfl, rfl⟩)⟩,
        fun hq' => hq (happ.calm hq')⟩
  clear hstore happ hnow hclean s₁
  rintro _ s₂ ⟨hstore, happ, hnow, hclean⟩
  refine Prog.Spec.modify_bind (Prog.Spec.get_bind ?_)
  rw [hstore]
  refine (io_spec (Q := fun _ s' => s'.store =
      ⟨s.store.bytes ++ suffix, count, s.store.limits, true⟩ ∧ s₂.world.Waits s'.world) ?_).bind ?_
  · refine (ensureUnchanged_spec (by rw [hnow, hfile])).mono (fun _ _ h => ⟨rfl, h⟩) ?_
    rintro w' ⟨h, hq⟩
    exact ⟨⟨rfl, rfl, happ.waits h, Or.inr ⟨rfl, rfl, by rw [h.capsule, hnow]⟩⟩,
      fun hq' => hq (happ.calm hq')⟩
  rintro _ s₃ ⟨hstore, hw⟩
  refine Prog.Spec.modify_bind ?_
  rw [hstore]
  exact Prog.Spec.pure ⟨rfl, by rw [hw.capsule, hnow, hfile], by rw [hw.capsule, hclean],
    happ.waits hw⟩

/-! ## Reconciling -/

/-- Adopting complete generations. -/
theorem adoptComplete_spec {actual : Bytes} {view : CapsuleView}
    (hnow : s.world.capsule.now = actual) (hlt : s.store.generationCount + 1 < wordBound)
    (hvalidated : view.validatedBytes = actual.length)
    (hcount : view.generations.length = s.store.generationCount ∨
      view.generations.length = s.store.generationCount + 1) :
    Prog.Spec (adoptComplete actual view) s
      (fun _ s' => s'.store = ⟨actual, view.generations.length, s.store.limits, false⟩ ∧
        s'.world.capsule = Tape.clean actual)
      (fun s' => s'.world.capsule.now = actual ∧ ¬ s.world.Quiet) := by
  refine Prog.Spec.get_bind ?_
  rw [checkedAdd_of_lt hlt]
  refine Prog.Spec.lift_bind ?_ fun _ he => by cases he
  rintro next hnext
  obtain rfl := Except.ok.inj hnext
  refine Prog.Spec.ensure_bind ⟨hvalidated, hcount⟩ ?_
  have hflush : ∀ {op : String} (w : World) (store : CapsuleStore), w.capsule.now = actual →
      s.world.Calm w → Prog.Spec (io (syncCapsule (.io op))) ⟨w, store⟩
        (fun _ s' => s'.store = store ∧ s'.world.capsule = Tape.clean actual ∧
          s.world.Calm s'.world)
        (fun s' => s'.world.capsule.now = actual ∧ ¬ s.world.Quiet) := by
    intro op w store hw hcalm
    refine io_spec ((syncCapsule_spec _ w).mono (fun _ w' h => ?_) fun w' h => ?_)
    · obtain ⟨-, hc, h⟩ := h
      exact ⟨rfl, by rw [hc, ← hw]; rfl, hcalm.trans h⟩
    · exact ⟨by rw [h.1.capsule, hw], fun hq => h.2 (hcalm hq)⟩
  have hfail : ∀ {w : World}, w.capsule = Tape.clean actual → s.world.Calm w → ∀ w', w.Failed w' →
      w'.capsule.now = actual ∧ ¬ s.world.Quiet := fun hc hcalm w' h =>
    ⟨by rw [h.1.capsule, hc]; rfl, fun hq => h.2 (hcalm hq)⟩
  refine (hflush s.world s.store hnow (Calm.refl _)).bind ?_
  rintro _ ⟨w1, _⟩ ⟨rfl, hc1, hcalm1⟩
  refine (hflush w1 s.store (by rw [hc1]; rfl) hcalm1).bind ?_
  rintro _ ⟨w2, _⟩ ⟨rfl, hc2, hcalm2⟩
  refine (io_spec (Q := fun _ s' => s'.store = s.store ∧ w2.Waits s'.world)
    ((tick_spec _ w2).mono (fun _ _ h => ⟨rfl, h⟩) (hfail hc2 hcalm2))).bind ?_
  rintro _ ⟨w3, _⟩ ⟨rfl, h3⟩
  have hc3 : w3.capsule = Tape.clean actual := h3.capsule.trans hc2
  have hcalm3 := hcalm2.trans h3.calm
  refine (io_spec (Q := fun durable s' => s'.store = s.store ∧ w3.Waits s'.world ∧
    durable = actual) ?_).bind ?_
  · have hread := readCapsule_all (CapsuleStoreError.io "verify reconciled capsule") w3
    rw [show w3.capsule.now = actual by rw [hc3]; rfl] at hread
    exact hread.mono (fun _ _ h => ⟨rfl, h⟩) (hfail hc3 hcalm3)
  rintro durable ⟨w4, _⟩ ⟨rfl, h4, rfl⟩
  have hc4 : w4.capsule = Tape.clean durable := h4.capsule.trans hc3
  have hcalm4 := hcalm3.trans h4.calm
  refine Prog.Spec.ensure_bind rfl ?_
  refine Prog.Spec.modify_bind (Prog.Spec.get_bind ?_)
  refine (io_spec (Q := fun _ s' => s'.store =
      ⟨durable, view.generations.length, s.store.limits, s.store.poisoned⟩ ∧ w4.Waits s'.world)
    ((ensureUnchanged_spec (by rw [hc4]; rfl)).mono (fun _ _ h => ⟨rfl, h⟩)
      (hfail hc4 hcalm4))).bind ?_
  rintro _ ⟨w5, _⟩ ⟨rfl, h5⟩
  exact Prog.Spec.modify ⟨rfl, h5.capsule.trans hc4⟩

/-- Cutting the file back to a recovered prefix that scans. -/
theorem repairTornSuffix_spec {w : World} {bytes : Bytes} {limits : CapsuleLimits}
    (strictError : CapsuleError) {generations : List CapsuleGeneration} {retained : ℕ}
    (hnow : w.capsule.now = bytes)
    (hrecover : recoverCapsule H bytes limits = .ok ⟨generations, retained⟩)
    (hgens : generations ≠ []) (hpos : retained ≠ 0) (hlt : retained < bytes.length)
    (hscan : scanCapsule H (bytes.take retained) limits = .ok ⟨generations, retained⟩) :
    Prog.Spec (repairTornSuffix H bytes limits strictError) w
      (fun r w' => r = (bytes.take retained, generations.length) ∧
        w'.capsule = Tape.clean (bytes.take retained) ∧ w'.image = w.image ∧ w.Calm w')
      (fun w' => w.Cutting (bytes.take retained) w' ∧ ¬ w.Quiet) := by
  have htake : (bytes.take retained).length = retained := by rw [List.length_take]; omega
  have hfail : ∀ w1, w.Cutting (bytes.take retained) w1 → ∀ w', w1.Failed w' →
      w.Cutting (bytes.take retained) w' ∧ ¬ w.Quiet :=
    fun w1 h1 w' h' => ⟨h1.waits h'.1, fun hq => h'.2 (h1.calm hq)⟩
  rw [repairTornSuffix, hrecover]
  refine Prog.Spec.lift_bind ?_ fun _ he => by cases he
  intro recovered hr
  obtain rfl := Except.ok.inj hr
  refine Prog.Spec.ensure_bind ⟨hgens, hpos, hlt⟩ ?_
  have hset := setCapsuleLength_spec (w := w)
    (CapsuleStoreError.io "discard proven torn capsule suffix") (n := retained)
    (by rw [hnow]; omega)
  rw [hnow] at hset
  refine hset.bind ?_
  rintro _ w1 ⟨h1, hnow1⟩
  refine ((syncCapsule_spec _ w1).mono (fun _ _ h => h) (hfail w1 h1)).bind ?_
  rintro _ w2 ⟨hi, hc, hcalm⟩
  have h2 := h1.flush hi hc hcalm
  have hc2 : w2.capsule = Tape.clean (bytes.take retained) := by rw [hc, ← hnow1]; rfl
  have hread := readCapsule_all (CapsuleStoreError.io "reread recovered capsule") w2
  rw [show w2.capsule.now = bytes.take retained by rw [hc2]; rfl, htake] at hread
  refine (hread.mono (fun _ _ h => h) (hfail w2 h2)).bind ?_
  rintro reread w3 ⟨hw3, rfl⟩
  have h3 := h2.waits hw3
  refine Prog.Spec.ensure_bind rfl ?_
  rw [hscan]
  refine Prog.Spec.lift_bind ?_ fun _ he => by cases he
  intro strict hs
  obtain rfl := Except.ok.inj hs
  refine Prog.Spec.ensure_bind ⟨rfl, htake.symm⟩ ?_
  refine ((syncCapsule_spec _ w3).mono (fun _ _ h => h) (hfail w3 h3)).bind ?_
  rintro _ w4 ⟨hi4, hc4, hcalm4⟩
  refine Prog.Spec.pure ⟨rfl, ?_, (h3.flush hi4 hc4 hcalm4).image, h3.calm.trans hcalm4⟩
  rw [hc4, hw3.capsule, hc2]
  rfl

/-- A poisoned store and a file that holds the first `k` bytes of a new record behind the accepted
capsule `old`. -/
structure Ambiguous (H : Hashing) (old suffix : Bytes) (generations : List CapsuleGeneration)
    (g : CapsuleGeneration) (k : ℕ) (s : StoreState) : Prop where
  record : NewestRecord H s.store.limits old suffix generations g
  nonempty : old ≠ []
  poisoned : s.store.poisoned = true
  le : k ≤ suffix.length
  file : s.world.capsule.now = old ++ suffix.take k
  known : s.store.bytes = old ∧ s.store.generationCount = generations.length ∨
    s.store.bytes = old ++ suffix ∧ s.store.generationCount = generations.length + 1 ∧
      k = suffix.length

/-- The leading header of a record cut behind it decodes. -/
def LeadingIntact (suffix : Bytes) (g : CapsuleGeneration) (k : ℕ) : Prop :=
  k < suffix.length → headerBytes ≤ k → g.primaryHeaderValid = true

/-- The old capsule for a proper prefix of the record, the updated one for the whole record. -/
def reconciled (old suffix : Bytes) (k : ℕ) : Bytes :=
  if k < suffix.length then old else old ++ suffix

def reconciledCount (suffix : Bytes) (generations : List CapsuleGeneration) (k : ℕ) : ℕ :=
  if k < suffix.length then generations.length else generations.length + 1

section Restore

variable {old suffix : Bytes} {generations : List CapsuleGeneration} {g : CapsuleGeneration} {k : ℕ}
  (ha : Ambiguous H old suffix generations g k s)

include ha

theorem Ambiguous.generations_ne : generations ≠ [] := by
  rintro rfl
  have h := ha.record.lastEnd_eq
  rw [lastEnd, List.getLast?_nil] at h
  exact ha.nonempty (List.length_eq_zero_iff.1 h.symm)

theorem Ambiguous.count_le : generations.length ≤ 9 :=
  (accepted_of_scanImpl ha.record.length_le' ha.record.scanned).length_le

theorem Ambiguous.suffix_pos : 0 < suffix.length := by
  have h1 := ha.record.start_eq
  have h2 := ha.record.stop_eq
  rw [List.length_append] at h2
  unfold CapsuleGeneration.stop headerBytes at h2
  omega

theorem Ambiguous.bytes_prefix : s.store.bytes <+: s.world.capsule.now := by
  rw [ha.file]
  rcases ha.known with ⟨hb, -⟩ | ⟨hb, -, rfl⟩
  · rw [hb]
    exact List.prefix_append _ _
  · rw [hb, List.take_length]

theorem Ambiguous.length_le : s.world.capsule.now.length ≤ s.store.limits.maxCapsuleBytes := by
  obtain ⟨-, hmax, -⟩ := (scanCapsule_ok_iff ha.record.length_le).1 ha.record.extended
  have := ha.le
  rw [ha.file, List.length_append, List.length_take]
  rw [List.length_append] at hmax
  omega

/-- Reconciling a proper nonempty prefix of the record. -/
theorem discardTorn_spec (hpos : 0 < k) (hlt : k < suffix.length) (strictError : CapsuleError) :
    Prog.Spec (discardTorn H (old ++ suffix.take k) strictError) s
      (fun _ s' => LeadingIntact suffix g k ∧
        s'.store = ⟨old, generations.length, s.store.limits, false⟩ ∧
        s'.world.capsule = Tape.clean old)
      (fun s' => (LeadingIntact suffix g k ∧ s.world.Cutting old s'.world ∧ ¬ s.world.Quiet) ∨
        ¬ LeadingIntact suffix g k ∧ s' = s) := by
  have hbytes : s.store.bytes = old ∧ s.store.generationCount = generations.length :=
    ha.known.resolve_right fun h => by omega
  have htake : (old ++ suffix.take k).take old.length = old := List.take_left
  have hlength : old.length < (old ++ suffix.take k).length := by
    rw [List.length_append, List.length_take]
    omega
  have hintact : LeadingIntact suffix g k ↔ (headerBytes ≤ k → g.primaryHeaderValid = true) :=
    ⟨fun h => h hlt, fun h _ => h⟩
  have hiff := ha.record.recover_iff ha.nonempty hlt
  rw [← hintact] at hiff
  refine Prog.Spec.get_bind ?_
  by_cases hok : LeadingIntact suffix g k
  · have hrecover := hiff.2 hok
    rw [hrecover]
    refine Prog.Spec.lift_bind ?_ fun _ he => by cases he
    intro recovered hr
    obtain rfl := Except.ok.inj hr
    refine Prog.Spec.ensure_bind
      ⟨by rw [hbytes.1], hbytes.2.symm, hlength, by rw [htake, hbytes.1]⟩ ?_
    refine (io_spec (Q := fun r s' => r = (old, generations.length) ∧ s'.store = s.store ∧
      s'.world.capsule = Tape.clean old ∧ s.world.Cutting old s'.world) ?_).bind ?_
    · have hrepair := repairTornSuffix_spec strictError ha.file hrecover
        ha.generations_ne (fun h => ha.nonempty (List.length_eq_zero_iff.1 h)) hlength
        (by rw [htake]; exact ha.record.scanned)
      rw [htake] at hrepair
      refine hrepair.mono ?_ fun w' h => Or.inl ⟨hok, h.1, h.2⟩
      rintro r w' ⟨rfl, hc, hi, hcalm⟩
      exact ⟨rfl, rfl, hc, hi, Or.inr (by rw [hc]; rfl), by rw [hc]; simp [Tape.clean], hcalm⟩
    rintro _ ⟨w1, _⟩ ⟨rfl, rfl, hc1, hcut1⟩
    refine Prog.Spec.ensure_bind ⟨hbytes.2.symm, hbytes.1.symm⟩ ?_
    refine (io_spec (Q := fun _ s' => s'.store = s.store ∧ w1.Waits s'.world) ?_).bind ?_
    · refine (ensureUnchanged_spec (by rw [hc1, hbytes.1]; rfl)).mono (fun _ _ h => ⟨rfl, h⟩) ?_
      rintro w' ⟨h, hq⟩
      exact Or.inl ⟨hok, hcut1.waits h, fun hq' => hq (hcut1.calm hq')⟩
    rintro _ ⟨w2, _⟩ ⟨rfl, h2⟩
    refine Prog.Spec.modify ⟨hok, ?_, h2.capsule.trans hc1⟩
    rw [← hbytes.1, ← hbytes.2]
  · refine Prog.Spec.lift_bind ?_ fun _ _ => Or.inr ⟨hok, rfl⟩
    intro view hview
    rw [mapError_ok_iff] at hview
    have heq := ha.record.recover_eq ha.nonempty hlt hview
    rw [heq] at hview
    exact absurd (hiff.1 hview) hok

/-- **Reconciling.** Whatever prefix of the record is in the file, a normal end leaves the old capsule
for a proper prefix and the updated one for the whole record, in the file and in the store. If the
leading header of the cut record is there and does not decode, nothing changes. -/
theorem restore_spec :
    Prog.Spec (restoreVerifiedPrefix H) s
      (fun _ s' => LeadingIntact suffix g k ∧
        s'.store = ⟨reconciled old suffix k, reconciledCount suffix generations k, s.store.limits,
          false⟩ ∧
        s'.world.capsule = Tape.clean (reconciled old suffix k))
      (fun s' => (LeadingIntact suffix g k ∧ ¬ s.world.Quiet ∧
          (s'.world.capsule.now = s.world.capsule.now ∨ s'.world.capsule.now = old)) ∨
        ¬ LeadingIntact suffix g k ∧ s'.store = s.store ∧ s'.world.capsule = s.world.capsule) := by
  have hfail : ∀ {w1 w'}, s.world.Waits w1 → w1.Failed w' →
      (LeadingIntact suffix g k ∧ ¬ s.world.Quiet ∧
          (w'.capsule.now = s.world.capsule.now ∨ w'.capsule.now = old)) ∨
        ¬ LeadingIntact suffix g k ∧ s.store = s.store ∧ w'.capsule = s.world.capsule := by
    intro w1 w' h1 h'
    have hw := h1.failed h'
    by_cases hok : LeadingIntact suffix g k
    · exact Or.inl ⟨hok, hw.2, Or.inl (by rw [hw.1.capsule])⟩
    · exact Or.inr ⟨hok, rfl, hw.1.capsule⟩
  refine Prog.Spec.get_bind ?_
  rw [if_neg (by simp [ha.poisoned])]
  refine (io_spec (Q := fun _ s' => s'.store = s.store ∧ s.world.Waits s'.world)
    ((ensureIdentityWithMinimumLength_spec ha.bytes_prefix.length_le).mono (fun _ _ h => ⟨rfl, h⟩)
      fun _ h => hfail (Waits.refl _) h)).bind ?_
  rintro _ ⟨w1, _⟩ ⟨rfl, h1⟩
  refine (io_spec (Q := fun n s' => s'.store = s.store ∧ s.world.Waits s'.world ∧
      n = s.world.capsule.now.length) ((capsuleLength_spec _ w1).mono ?_
        fun _ h => hfail h1 h)).bind ?_
  · rintro n w' ⟨h, rfl⟩
    exact ⟨rfl, h1.trans h, by rw [h1.capsule]⟩
  rintro _ ⟨w2, _⟩ ⟨rfl, h2, rfl⟩
  refine Prog.Spec.ensure_bind ha.length_le ?_
  refine (io_spec (Q := fun _ s' => s'.store = s.store ∧ s.world.Waits s'.world)
    ((tick_spec _ w2).mono (fun _ _ h => ⟨rfl, h2.trans h⟩) fun _ h => hfail h2 h)).bind ?_
  rintro _ ⟨w3, _⟩ ⟨rfl, h3⟩
  refine (io_spec (Q := fun actual s' => s'.store = s.store ∧ s.world.Waits s'.world ∧
      actual = old ++ suffix.take k) ?_).bind ?_
  · have hread := readCapsule_all (CapsuleStoreError.io "reread ambiguous capsule") w3
    rw [h3.capsule] at hread
    refine hread.mono ?_ fun _ h => hfail h3 h
    rintro actual w' ⟨h, rfl⟩
    exact ⟨rfl, h3.trans h, ha.file⟩
  rintro _ ⟨w4, _⟩ ⟨rfl, h4, rfl⟩
  refine Prog.Spec.ensure_bind (by rw [← ha.file]; exact ha.bytes_prefix) ?_
  -- The three branches: nothing of the record, a proper part of it, all of it.
  have ha4 : Ambiguous H old suffix generations g k ⟨w4, s.store⟩ :=
    ⟨ha.record, ha.nonempty, ha.poisoned, ha.le, by rw [h4.capsule]; exact ha.file, ha.known⟩
  have hcount := ha.count_le
  have hlt : s.store.generationCount + 1 < wordBound := by
    unfold wordBound
    rcases ha.known with ⟨-, h⟩ | ⟨-, h, -⟩ <;> omega
  have hadopt : ∀ view : CapsuleView, LeadingIntact suffix g k →
      old ++ suffix.take k = reconciled old suffix k →
      view.generations.length = reconciledCount suffix generations k →
      view.validatedBytes = (old ++ suffix.take k).length →
      (view.generations.length = s.store.generationCount ∨
        view.generations.length = s.store.generationCount + 1) →
      Prog.Spec (adoptComplete (old ++ suffix.take k) view) ⟨w4, s.store⟩
        (fun _ s' => LeadingIntact suffix g k ∧
          s'.store = ⟨reconciled old suffix k, reconciledCount suffix generations k,
            s.store.limits, false⟩ ∧ s'.world.capsule = Tape.clean (reconciled old suffix k))
        (fun s' => (LeadingIntact suffix g k ∧ ¬ s.world.Quiet ∧
            (s'.world.capsule.now = s.world.capsule.now ∨ s'.world.capsule.now = old)) ∨
          ¬ LeadingIntact suffix g k ∧ s'.store = s.store ∧
            s'.world.capsule = s.world.capsule) := by
    intro view hok hbytes hgens hvalidated hnext
    refine (adoptComplete_spec ha4.file hlt hvalidated hnext).mono ?_ ?_
    · rintro _ s' ⟨hstore, hclean⟩
      rw [hbytes] at hclean hstore
      exact ⟨hok, by rw [hstore, hgens], hclean⟩
    · rintro s' ⟨hnow, hq⟩
      exact Or.inl ⟨hok, fun hq' => hq (h4.calm hq'), Or.inl (by rw [hnow, ha.file])⟩
  rcases Nat.eq_zero_or_pos k with rfl | hpos
  · have hsuffix := ha.suffix_pos
    have hnil : old ++ suffix.take 0 = old := by simp
    have hscan : scanCapsule H (old ++ suffix.take 0) s.store.limits =
        .ok ⟨generations, old.length⟩ := by rw [hnil]; exact ha.record.scanned
    rw [hscan]
    refine hadopt _ (fun _ hle => absurd hle (by decide)) ?_ ?_ ?_ ?_
    · rw [reconciled, if_pos hsuffix, hnil]
    · rw [reconciledCount, if_pos hsuffix]
    · rw [hnil]
    · exact Or.inl (ha.known.resolve_right fun h => by omega).2.symm
  rcases ha.le.eq_or_lt with rfl | hproper
  · have hall : old ++ suffix.take suffix.length = old ++ suffix := by rw [List.take_length]
    have hscan : scanCapsule H (old ++ suffix.take suffix.length) s.store.limits =
        .ok ⟨generations ++ [g], (old ++ suffix).length⟩ := by rw [hall]; exact ha.record.extended
    rw [hscan]
    refine hadopt _ (fun hlt => absurd hlt (by omega)) ?_ ?_ ?_ ?_
    · rw [reconciled, if_neg (lt_irrefl _), hall]
    · rw [reconciledCount, if_neg (lt_irrefl _), List.length_append, List.length_singleton]
    · rw [hall]
    · rw [List.length_append, List.length_singleton]
      rcases ha.known with ⟨-, h⟩ | ⟨-, h, -⟩ <;> omega
  · cases hscan : scanCapsule H (old ++ suffix.take k) s.store.limits with
    | ok view => exact absurd hscan (ha.record.not_scan ha.nonempty hproper hpos view)
    | error strictError =>
      refine (discardTorn_spec ha4 hpos hproper strictError).mono ?_ ?_
      · rintro _ s' ⟨hok, hstore, hclean⟩
        rw [reconciled, reconciledCount, if_pos hproper, if_pos hproper]
        exact ⟨hok, hstore, hclean⟩
      · rintro s' (⟨hok, hcut, hq⟩ | ⟨hok, rfl⟩)
        · refine Or.inl ⟨hok, fun hq' => hq (h4.calm hq'), ?_⟩
          rw [← h4.capsule]
          exact hcut.now
        · exact Or.inr ⟨hok, rfl, h4.capsule⟩

/-- Reconciling succeeds only if the leading header of a cut record decodes. -/
theorem Ambiguous.leadingIntact {s' : StoreState}
    (h : restoreVerifiedPrefix H s = (.ok (), s')) : LeadingIntact suffix g k :=
  ((restore_spec ha).ok h).1

end Restore

/-! ## Interrupted and reconciled -/

/-- A cut of the updated capsule at `n` can be reconciled: if the leading header of its newest
generation lies before the cut, it decodes. -/
def Reconcilable (H : Hashing) (limits : CapsuleLimits) (updated : Bytes) (n : ℕ) : Prop :=
  ∀ view g, scanCapsule H updated limits = .ok view → view.newest = some g →
    g.start + headerBytes ≤ n → n < updated.length → g.primaryHeaderValid = true

/-- What a successful reconciliation leaves in the file and in the store: the old capsule when the cut
is before the end of the updated one, and the updated one otherwise. -/
structure Reconciled (old : CapsuleStore) (updated : Bytes) (n : ℕ) (s : StoreState) : Prop where
  file : s.world.capsule.now = s.store.bytes
  poisoned : s.store.poisoned = false
  limits : s.store.limits = old.limits
  cut : n < updated.length →
    s.store.bytes = old.bytes ∧ s.store.generationCount = old.generationCount
  complete : n = updated.length →
    s.store.bytes = updated ∧ s.store.generationCount = old.generationCount + 1

/-- The record an accepted update adds to a valid store. -/
theorem exists_record {count : ℕ} (hvalid : s.store.Valid H) (hlen : updated.length ≤ isizeMax)
    (hacc : s.store.acceptUpdate H updated = .ok count) :
    ∃ suffix generations g, updated = s.store.bytes ++ suffix ∧
      s.store.generationCount = generations.length ∧ count = generations.length + 1 ∧
      NewestRecord H s.store.limits s.store.bytes suffix generations g := by
  obtain ⟨-, -, ⟨suffix, rfl⟩, rfl, -, view', hscan', hcount', -⟩ := acceptUpdate_ok_iff.1 hacc
  obtain ⟨view, hscan, hcount⟩ := hvalid.scanned
  obtain ⟨g, hrecord⟩ := exists_newestRecord hlen hscan hscan' (by rw [hcount', hcount])
  exact ⟨suffix, view.generations, g, rfl, hcount.symm, by rw [hcount], hrecord⟩

/-- Being reconcilable, in terms of the record. -/
theorem reconcilable_iff {limits : CapsuleLimits} {old suffix : Bytes}
    {generations : List CapsuleGeneration} {g : CapsuleGeneration} {k : ℕ}
    (h : NewestRecord H limits old suffix generations g) :
    Reconcilable H limits (old ++ suffix) (old.length + k) ↔ LeadingIntact suffix g k := by
  have hnewest : (⟨generations ++ [g], (old ++ suffix).length⟩ : CapsuleView).newest = some g :=
    List.getLast?_concat
  have hstart := h.start_eq
  constructor
  · intro hr hlt hle
    refine hr _ g h.extended hnewest (by omega) ?_
    rw [List.length_append]
    omega
  · intro hi view x hscan hx hle hlt
    rw [h.extended] at hscan
    obtain rfl := Except.ok.inj hscan
    obtain rfl := Option.some.inj (hnewest.symm.trans hx)
    rw [List.length_append] at hlt
    exact hi (by omega) (by omega)

/-- **Interrupted appends.** From a valid store that knows its file, once the checks of an append have
passed, an error leaves the store poisoned and the file with a prefix of the updated capsule that
contains the old one. The poisoned store refuses appends. Reconciling it with that file leaves nothing
but the old capsule for a proper prefix and the updated one for the whole; it succeeds unless the
environment interferes or the prefix ends behind an undecodable leading header of the new generation,
and in that case it changes nothing. -/
theorem append_reconciled {plan : ℕ × ℕ} {s₂ s' : StoreState} {e : CapsuleStoreError}
    (hvalid : s.store.Valid H) (hfile : s.world.capsule.now = s.store.bytes)
    (hlen : updated.length ≤ isizeMax) (hchecks : appendChecked H updated s = (.ok plan, s₂))
    (hrun : append H updated s = (.error e, s')) :
    s'.store.poisoned = true ∧
      (∀ w other, append H other ⟨w, s'.store⟩ = (.error .poisoned, ⟨w, s'.store⟩)) ∧
      ∃ n, s.store.bytes.length ≤ n ∧ n ≤ updated.length ∧
        s'.world.capsule.now = updated.take n ∧
        ∀ w : World, w.capsule.now = updated.take n →
          (Reconcilable H s.store.limits updated n → w.Quiet →
            ∃ s'', restoreVerifiedPrefix H ⟨w, s'.store⟩ = (.ok (), s'')) ∧
          (∀ s'', restoreVerifiedPrefix H ⟨w, s'.store⟩ = (.ok (), s'') →
            Reconciled s.store updated n s'') ∧
          (¬ Reconcilable H s.store.limits updated n →
            ∀ o s'', restoreVerifiedPrefix H ⟨w, s'.store⟩ = (o, s'') →
              (∀ u, o ≠ .ok u) ∧ s''.store = s'.store ∧ s''.world.capsule = w.capsule) := by
  have hchecked := (appendChecked_spec hfile).ok hchecks
  obtain ⟨suffix, generations, g, rfl, hcount, hnext, hrecord⟩ :=
    exists_record hvalid hlen hchecked.accepted
  rw [append_of_checked hchecks hfile, List.drop_left] at hrun
  obtain ⟨hint, -⟩ := (writeSuffix_spec (by rw [hchecked.waits.capsule, hfile,
    hchecked.store])).error hrun
  obtain ⟨k, hk, hnow⟩ := hint.appending.now
  rw [hchecked.waits.capsule, hfile] at hnow
  have htake : (s.store.bytes ++ suffix).take (s.store.bytes.length + k) =
      s.store.bytes ++ suffix.take k := List.take_length_add_append k
  refine ⟨hint.poisoned, fun w other => append_of_poisoned hint.poisoned,
    s.store.bytes.length + k, by omega, by rw [List.length_append]; omega, by rw [htake, hnow], ?_⟩
  intro w hw
  rw [htake] at hw
  have hlimits : s'.store.limits = s.store.limits := by rw [hint.limits, hchecked.store]
  have hknown : s'.store.bytes = s.store.bytes ∧
      s'.store.generationCount = generations.length ∨
      s'.store.bytes = s.store.bytes ++ suffix ∧
        s'.store.generationCount = generations.length + 1 ∧ k = suffix.length := by
    rcases hint.known with ⟨hb, hc⟩ | ⟨hb, hc, hall⟩
    · rw [hchecked.store] at hb hc
      exact Or.inl ⟨hb, hc.trans hcount⟩
    · rw [hchecked.store] at hb
      rw [hchecked.waits.capsule, hfile, hnow] at hall
      have hsuffix := congrArg List.length (List.append_cancel_left hall)
      rw [List.length_take] at hsuffix
      exact Or.inr ⟨hb, hc.trans hnext, by omega⟩
  have ha : Ambiguous H s.store.bytes suffix generations g k ⟨w, s'.store⟩ :=
    ⟨by rw [hlimits]; exact hrecord, hvalid.nonempty, hint.poisoned, hk, hw, hknown⟩
  have hspec := restore_spec ha
  rw [reconcilable_iff hrecord]
  refine ⟨fun hok hq => ?_, fun s'' hs'' => ?_, fun hok o s'' hs'' => ?_⟩
  · obtain ⟨u, s'', hrestore, -⟩ := Prog.Total.exists (hspec.mono (fun _ _ h => h) fun t ht => by
      rcases ht with ⟨-, hq', -⟩ | ⟨hok', -⟩
      · exact hq' hq
      · exact hok' hok)
    exact ⟨s'', hrestore⟩
  · obtain ⟨-, hstore, hclean⟩ := hspec.ok hs''
    have hlength : (s.store.bytes ++ suffix).length = s.store.bytes.length + suffix.length :=
      List.length_append
    refine ⟨by rw [hclean, hstore]; rfl, by rw [hstore], by rw [hstore]; exact hlimits, ?_, ?_⟩
    · intro hlt
      rw [hstore, reconciled, reconciledCount, if_pos (by omega), if_pos (by omega)]
      exact ⟨rfl, hcount.symm⟩
    · intro heq
      rw [hstore, reconciled, reconciledCount, if_neg (by omega), if_neg (by omega)]
      exact ⟨rfl, by rw [hcount]⟩
  · unfold Prog.Spec at hspec
    rw [hs''] at hspec
    have hsame : (LeadingIntact suffix g k ∧ ¬ w.Quiet ∧
        (s''.world.capsule.now = w.capsule.now ∨ s''.world.capsule.now = s.store.bytes)) ∨
        ¬ LeadingIntact suffix g k ∧ s''.store = s'.store ∧ s''.world.capsule = w.capsule →
        s''.store = s'.store ∧ s''.world.capsule = w.capsule := by
      rintro (⟨h, -⟩ | ⟨-, h⟩)
      · exact absurd h hok
      · exact h
    cases o with
    | ok u => exact absurd hspec.1 hok
    | error e' => exact ⟨by simp, hsame hspec⟩
    | crashed => exact ⟨by simp, hsame hspec⟩

/-! ## Every cut can happen -/

/-- The write that follows the sixteen operations of the checks and one more fails after `k` bytes. -/
def tearing (w : World) (k : ℕ) : World :=
  { w with events := fun n => if n = 17 then .fail k else .proceed }

section Tearing

variable {w : World} {store : CapsuleStore} {count : ℕ} {suffix : Bytes} (k : ℕ)
  (hlen : (store.bytes ++ suffix).length ≤ isizeMax)
  (hacc : store.acceptUpdate H (store.bytes ++ suffix) = .ok count)
  (hfile : w.capsule.now = store.bytes)

include hlen hacc

theorem room_of_accept :
    store.bytes.length + suffix.length ≤ store.limits.maxCapsuleBytes ∧
      store.bytes.length + suffix.length < wordBound := by
  obtain ⟨-, -, -, -, -, view, hscan, -⟩ := acceptUpdate_ok_iff.1 hacc
  obtain ⟨-, hmax, -⟩ := (scanCapsule_ok_iff hlen).1 hscan
  rw [List.length_append] at hlen hmax
  unfold isizeMax at hlen
  unfold wordBound
  exact ⟨hmax, by omega⟩

include hfile

theorem appendChecked_tearing :
    ∃ s₂, appendChecked H (store.bytes ++ suffix) ⟨tearing w k, store⟩ =
      (.ok (count, store.bytes.length + suffix.length), s₂) := by
  obtain ⟨hmax, hword⟩ := room_of_accept hlen hacc
  simp [appendChecked, appendChecks, persistChecks, io, ensureUnchanged, ensureSame,
    validateSameFile, Prog.bind_apply, Prog.pure_apply, Prog.get, Prog.lift, Prog.zoom, tick,
    World.check, hacc, tearing, World.shift, hfile, ensure_of, checkedAdd_of_lt hword, hmax]

/-- An interruption that leaves exactly `k` bytes of the suffix. -/
theorem append_tearing :
    append H (store.bytes ++ suffix) ⟨tearing w k, store⟩ =
      (.error (.io "append capsule bytes"),
        ⟨{ image := w.image
           capsule := w.capsule.put (store.bytes ++ suffix.take k)
           events := fun n => (tearing w k).events (n + 18) },
          { store with poisoned := true }⟩) := by
  obtain ⟨hmax, hword⟩ := room_of_accept hlen hacc
  simp [append, appendChecks, persistSuffix, persistChecks, writeSuffix, persistBytes, io,
    ensureUnchanged, ensureSame, validateSameFile, Prog.bind_apply, Prog.pure_apply, Prog.get,
    Prog.lift, Prog.zoom, tick, World.check, hacc, tearing, World.shift, hfile, ensure_of,
    checkedAdd_of_lt hword, hmax, update, Prog.modify, injectCapsuleFault, writeCapsule]

end Tearing

/-- A store of one record with an empty payload. -/
def sampleStore : CapsuleStore :=
  ⟨(layout .standard [zeroCall .discovered 0]).bytes, 1, sampleLimits, false⟩

def sampleWorld : World := ⟨Medium.clean [], Tape.clean sampleStore.bytes, fun _ => .proceed⟩

theorem valid_sampleStore : sampleStore.Valid .standard := by
  obtain ⟨gs, hlaid⟩ := exists_laid appendAll_0
  have hscan := scan_of_laid appendAll_0 hlaid (by decide) (by decide +kernel) (by decide +kernel)
  have hcount : gs.length = 1 := by simpa using congrArg List.length hlaid.reported
  exact ⟨by decide +kernel, _, hscan, hcount⟩

/-- A capsule of two generations behind the record of the store. -/
theorem accept_sampleStore {updated : Bytes} {view : CapsuleView}
    (hscan : scanCapsule .standard updated sampleLimits = .ok view)
    (hcount : view.generations.length = 2) (hlen : updated.length = 545)
    (hpre : updated.take 272 = sampleStore.bytes) :
    ∃ suffix, updated = sampleStore.bytes ++ suffix ∧
      sampleStore.acceptUpdate .standard updated = .ok 2 := by
  have hlen' : updated.length ≤ isizeMax := by rw [hlen]; decide
  refine ⟨updated.drop 272, by rw [← hpre, List.take_append_drop],
    acceptUpdate_ok_iff.2 ⟨rfl, ?_, ?_, rfl, by decide, view, hscan, hcount, ?_⟩⟩
  · rw [← hpre, List.length_take, hlen]
    decide
  · rw [← hpre]
    exact List.take_prefix _ _
  · rw [view_eq_of_scan hlen' hscan]

/-- The new record is torn behind its leading header, and the store goes back to one generation. -/
theorem reconciled_sampleCapsule :
    ∃ e s' s'', append .standard sampleCapsule ⟨tearing sampleWorld 148, sampleStore⟩ =
        (.error e, s') ∧
      restoreVerifiedPrefix .standard ⟨{ s'.world with events := fun _ => .proceed }, s'.store⟩ =
        (.ok (), s'') ∧
      Reconciled sampleStore sampleCapsule 420 s'' := by
  obtain ⟨g₀, g₁, hscan, -, hs₁, he₁, hv₁⟩ := scan_sampleCapsule
  have hlen : sampleCapsule.length = 545 := by decide +kernel
  obtain ⟨suffix, heq, hacc⟩ := accept_sampleStore hscan rfl hlen (by decide +kernel)
  have hlen' : sampleCapsule.length ≤ isizeMax := by rw [hlen]; decide
  rw [heq] at hacc hlen'
  obtain ⟨s₂, hchecks⟩ := appendChecked_tearing (w := sampleWorld) 148 hlen' hacc rfl
  have hrun := append_tearing (w := sampleWorld) 148 hlen' hacc rfl
  rw [← heq] at hchecks hrun hlen'
  obtain ⟨-, -, n, hlo, hhi, hnow, hrestore⟩ :=
    append_reconciled valid_sampleStore rfl hlen' hchecks hrun
  have h272 : sampleStore.bytes.length = 272 := by decide +kernel
  have hsuffix : suffix.length = 273 := by
    rw [heq, List.length_append, h272] at hlen
    omega
  obtain rfl : n = 420 := by
    have := congrArg List.length hnow
    simp only [Tape.put, List.length_append, List.length_take, h272, hsuffix, hlen] at this
    omega
  have hcut : Reconcilable .standard sampleStore.limits sampleCapsule 420 := by
    intro view g hview hg _ _
    rw [show sampleStore.limits = sampleLimits from rfl, hscan] at hview
    obtain rfl := Except.ok.inj hview
    obtain rfl : g₁ = g := by simpa [CapsuleView.newest] using hg
    exact hv₁.1
  obtain ⟨hok, hthird, -⟩ :=
    hrestore { image := Medium.clean [], capsule := sampleWorld.capsule.put _,
               events := fun _ => .proceed } hnow
  obtain ⟨s'', hs''⟩ := hok hcut fun _ => rfl
  exact ⟨_, _, s'', hrun, hs'', hthird s'' hs''⟩

/-- With its leading header zeroed the new record passes the checks of an append, but the same
interruption leaves a store that cannot be reconciled with its file. -/
theorem not_reconciled_zeroed_sampleCapsule :
    ∃ s plan s₂ e s', s.store.Valid .standard ∧ s.store.poisoned = false ∧
      s.world.capsule.now = s.store.bytes ∧
      appendChecked .standard (zeroHeaderAt sampleCapsule 272) s = (.ok plan, s₂) ∧
      append .standard (zeroHeaderAt sampleCapsule 272) s = (.error e, s') ∧
      ∀ s'', restoreVerifiedPrefix .standard
        ⟨{ s'.world with events := fun _ => .proceed }, s'.store⟩ ≠ (.ok (), s'') := by
  obtain ⟨g₀, g₁, hscan, hbroken⟩ := scan_zeroed_sampleCapsule
  have hlen : (zeroHeaderAt sampleCapsule 272).length = 545 := by decide +kernel
  obtain ⟨suffix, heq, hacc⟩ := accept_sampleStore hscan rfl hlen (by decide +kernel)
  have hlen' : (zeroHeaderAt sampleCapsule 272).length ≤ isizeMax := by rw [hlen]; decide
  obtain ⟨suffix', generations, g, heq', hcount, -, hrecord⟩ :=
    exists_record (s := ⟨sampleWorld, sampleStore⟩) valid_sampleStore hlen' hacc
  obtain rfl : suffix = suffix' := List.append_cancel_left (heq.symm.trans heq')
  rw [heq] at hacc hlen'
  obtain ⟨s₂, hchecks⟩ := appendChecked_tearing (w := sampleWorld) 148 hlen' hacc rfl
  have hrun := append_tearing (w := sampleWorld) 148 hlen' hacc rfl
  have hsuffix : suffix.length = 273 := by
    have h272 : sampleStore.bytes.length = 272 := by decide +kernel
    rw [heq, List.length_append, h272] at hlen
    omega
  have hg : g.primaryHeaderValid = false := by
    have hext := hrecord.extended
    rw [← heq, show sampleStore.limits = sampleLimits from rfl, hscan] at hext
    have hlast := congrArg (fun v => v.newest.map CapsuleGeneration.primaryHeaderValid)
      (Except.ok.inj hext)
    simp only [CapsuleView.newest, List.getLast?_concat, Option.map_some] at hlast
    simpa [hbroken] using hlast.symm
  rw [← heq] at hchecks hrun
  refine ⟨_, _, s₂, _, _, valid_sampleStore, rfl, rfl, hchecks, hrun, ?_⟩
  intro s'' hs''
  have ha : Ambiguous .standard sampleStore.bytes suffix generations g 148
      ⟨{ image := sampleWorld.image
         capsule := sampleWorld.capsule.put (sampleStore.bytes ++ suffix.take 148)
         events := fun _ => .proceed }, { sampleStore with poisoned := true }⟩ :=
    ⟨hrecord, valid_sampleStore.nonempty, rfl, by omega, rfl, Or.inl ⟨rfl, hcount⟩⟩
  have hintact := ha.leadingIntact hs'' (by omega) (show 136 ≤ 148 by omega)
  rw [hg] at hintact
  cases hintact

end CapsuleStore

end StarConverter
