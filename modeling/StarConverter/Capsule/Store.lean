import StarConverter.Capsule.TornTail
import StarConverter.World

/-!
# The capsule store

An exclusively locked capsule file and what the process knows of it. An append writes one generation
behind the known bytes, flushes it, reads it back and only then adopts it; from the first write on the
store is poisoned until that is done. `restoreVerifiedPrefix` reconciles a poisoned store with the
file: it adopts a complete next generation, and cuts off a provably torn one.
-/

namespace StarConverter

open Base World Capsule

/-- Capsule store failures. The device-like path check is the only `imagePath` failure. -/
inductive CapsuleStoreError
  | capsule (error : CapsuleError)
  | imagePath
  | emptyCapsule
  | generationCount (expected actual : ℕ)
  | notAppendOnly
  | poisoned
  | identityChanged
  | unexpectedLength (expected actual : ℕ)
  | tooLarge (actual maximum : ℕ)
  | allocationFailed
  | arithmeticOverflow
  | verificationMismatch
  | io (operation : String)
  deriving DecidableEq

inductive NamespaceDurability
  | parentDirectorySynchronized
  | fileSynchronizedOnly
  | notRequired
  deriving DecidableEq

/-- Evidence of a completed write, flush, read-back and identity verification. -/
structure CapsuleSyncEvidence where
  previousBytes : ℕ
  bytesAppended : ℕ
  totalBytes : ℕ
  generationCount : ℕ
  syncDataCompleted : Bool
  syncAllCompleted : Bool
  namespaceDurability : NamespaceDurability
  deriving DecidableEq

/-- What the process knows of the locked file. -/
structure CapsuleStore where
  bytes : Bytes
  generationCount : ℕ
  limits : CapsuleLimits
  poisoned : Bool

/-- The machine and the open store. -/
structure StoreState where
  world : World
  store : CapsuleStore

abbrev StoreProg (α : Type) := Prog StoreState CapsuleStoreError α

namespace CapsuleStore

/-- An operation on the file alone. -/
def io {α : Type} (m : Prog World CapsuleStoreError α) : StoreProg α :=
  Prog.zoom StoreState.world (fun w s => { s with world := w }) m

/-- Changes what the process knows. -/
def update (f : CapsuleStore → CapsuleStore) : StoreProg Unit :=
  Prog.modify fun s => { s with store := f s.store }

/-! ## Identity -/

def validateSameFile (expectedLength : ℕ) : Prog World CapsuleStoreError Unit := do
  tick .identityChanged
  let w ← Prog.get
  check (w.capsule.now.length = expectedLength)
    (.unexpectedLength expectedLength w.capsule.now.length)

def validateSameFileMinimum (minimumLength : ℕ) : Prog World CapsuleStoreError Unit := do
  tick .identityChanged
  let w ← Prog.get
  check (minimumLength ≤ w.capsule.now.length)
    (.unexpectedLength minimumLength w.capsule.now.length)

/-- The handle and then the path are checked in the same way. -/
def ensureSame (validate : Prog World CapsuleStoreError Unit) : Prog World CapsuleStoreError Unit := do
  tick (.io "reinspect capsule handle")
  validate
  tick (.io "recanonicalize capsule path")
  tick .imagePath
  tick .identityChanged
  tick (.io "reinspect capsule path")
  validate

def ensureUnchanged (store : CapsuleStore) : Prog World CapsuleStoreError Unit :=
  ensureSame (validateSameFile store.bytes.length)

def ensureIdentityWithMinimumLength (store : CapsuleStore) : Prog World CapsuleStoreError Unit :=
  ensureSame (validateSameFileMinimum store.bytes.length)

/-! ## Appending -/

/-- `inject_capsule_fault`. -/
def injectCapsuleFault : Prog World CapsuleStoreError Unit :=
  tick (.io "injected capsule persistence fault")

/-- The checks on the updated capsule; they return the new generation count. -/
def acceptUpdate (H : Hashing) (store : CapsuleStore) (updated : Bytes) :
    Except CapsuleStoreError ℕ := do
  ensure (store.poisoned = false) .poisoned
  ensure (store.bytes.length < updated.length ∧ store.bytes <+: updated) .notAppendOnly
  let view ← (scanCapsule H updated store.limits).mapError .capsule
  let expected ← orErr (checkedAdd store.generationCount 1) .arithmeticOverflow
  ensure (view.generations.length = expected ∧ view.validatedBytes = updated.length)
    (.generationCount expected view.generations.length)
  pure expected

/-- The checks of an append: the updated capsule, then the file. -/
def appendChecks (H : Hashing) (updated : Bytes) : StoreProg ℕ := do
  let s ← Prog.get
  let expected ← Prog.lift (s.store.acceptUpdate H updated)
  io s.store.ensureUnchanged
  pure expected

/-- The checks and reservations before the first write; they return the new length. -/
def persistChecks (suffix : Bytes) : StoreProg ℕ := do
  let s ← Prog.get
  io s.store.ensureUnchanged
  let total ← Prog.lift (orErr (checkedAdd s.store.bytes.length suffix.length) .arithmeticOverflow)
  Prog.lift (ensure (total ≤ s.store.limits.maxCapsuleBytes)
    (.tooLarge total s.store.limits.maxCapsuleBytes))
  io (tick .allocationFailed)
  io (tick .allocationFailed)
  pure total

/-- Write, flush, read back and flush again. -/
def persistBytes (offset : ℕ) (suffix : Bytes) : Prog World CapsuleStoreError Unit := do
  injectCapsuleFault
  writeCapsule (.io "append capsule bytes") offset suffix
  injectCapsuleFault
  syncCapsule (.io "flush capsule data")
  injectCapsuleFault
  let actual ← readCapsule (.io "verify appended capsule bytes") offset suffix.length
  check (actual = suffix) .verificationMismatch
  injectCapsuleFault
  syncCapsule (.io "flush capsule data and metadata")
  injectCapsuleFault

/-- From the first write on: the store is poisoned until the generation is adopted. -/
def writeSuffix (suffix : Bytes) (generationCount total : ℕ)
    (namespaceDurability : NamespaceDurability) : StoreProg CapsuleSyncEvidence := do
  let s ← Prog.get
  let previous := s.store.bytes.length
  update fun store => { store with poisoned := true }
  io (persistBytes previous suffix)
  io injectCapsuleFault
  update fun store => { store with bytes := store.bytes ++ suffix, generationCount := generationCount }
  let s ← Prog.get
  io s.store.ensureUnchanged
  update fun store => { store with poisoned := false }
  pure
    { previousBytes := previous
      bytesAppended := suffix.length
      totalBytes := total
      generationCount := generationCount
      syncDataCompleted := true
      syncAllCompleted := true
      namespaceDurability := namespaceDurability }

def persistSuffix (suffix : Bytes) (generationCount : ℕ)
    (namespaceDurability : NamespaceDurability) : StoreProg CapsuleSyncEvidence := do
  let total ← persistChecks suffix
  writeSuffix suffix generationCount total namespaceDurability

/-- Appends exactly one encoded generation. -/
def append (H : Hashing) (updated : Bytes) : StoreProg CapsuleSyncEvidence := do
  let expected ← appendChecks H updated
  let s ← Prog.get
  persistSuffix (updated.drop s.store.bytes.length) expected .notRequired

/-! ## Reconciling -/

/-- Cuts the file back to the recovered prefix of `bytes` and returns the prefix with its number of
generations. -/
def repairTornSuffix (H : Hashing) (bytes : Bytes) (limits : CapsuleLimits)
    (strictError : CapsuleError) : Prog World CapsuleStoreError (Bytes × ℕ) := do
  let recovered ← Prog.lift ((recoverCapsule H bytes limits).mapError .capsule)
  let retained := recovered.validatedBytes
  check (recovered.generations ≠ [] ∧ retained ≠ 0 ∧ retained < bytes.length) (.capsule strictError)
  let generations := recovered.generations.length
  setCapsuleLength (.io "discard proven torn capsule suffix") retained
  syncCapsule (.io "flush recovered capsule data")
  let kept := bytes.take retained
  let reread ← readCapsule (.io "reread recovered capsule") 0 retained
  check (reread = kept) .verificationMismatch
  let strict ← Prog.lift ((scanCapsule H reread limits).mapError .capsule)
  check (strict.generations.length = generations ∧ strict.validatedBytes = reread.length)
    .verificationMismatch
  syncCapsule (.io "flush recovered capsule data and metadata")
  pure (kept, generations)

/-- The file holds complete generations: they are flushed, reread and adopted. -/
def adoptComplete (actual : Bytes) (view : CapsuleView) : StoreProg Unit := do
  let s ← Prog.get
  let actualGenerations := view.generations.length
  let expectedNext ← Prog.lift (orErr (checkedAdd s.store.generationCount 1) .arithmeticOverflow)
  Prog.lift (ensure (view.validatedBytes = actual.length ∧
      (actualGenerations = s.store.generationCount ∨ actualGenerations = expectedNext))
    (.generationCount expectedNext actualGenerations))
  io (syncCapsule (.io "flush reconciled capsule data"))
  io (syncCapsule (.io "flush reconciled capsule data and metadata"))
  io (tick .allocationFailed)
  let durable ← io (readCapsule (.io "verify reconciled capsule") 0 actual.length)
  Prog.lift (ensure (durable = actual) .verificationMismatch)
  update fun store => { store with bytes := actual, generationCount := actualGenerations }
  let s ← Prog.get
  io s.store.ensureUnchanged
  update fun store => { store with poisoned := false }

/-- The file does not scan: it is cut back if the known bytes are followed by a torn append. -/
def discardTorn (H : Hashing) (actual : Bytes) (strictError : CapsuleError) : StoreProg Unit := do
  let s ← Prog.get
  let recovered ← Prog.lift ((recoverCapsule H actual s.store.limits).mapError .capsule)
  let retained := recovered.validatedBytes
  Prog.lift (ensure (retained = s.store.bytes.length ∧
      recovered.generations.length = s.store.generationCount ∧ retained < actual.length ∧
      actual.take retained = s.store.bytes) (.capsule strictError))
  let repaired ← io (repairTornSuffix H actual s.store.limits strictError)
  Prog.lift (ensure (repaired.2 = s.store.generationCount ∧ repaired.1 = s.store.bytes)
    .verificationMismatch)
  io s.store.ensureUnchanged
  update fun store => { store with poisoned := false }

/-- Reconciles a poisoned store with the file. -/
def restoreVerifiedPrefix (H : Hashing) : StoreProg Unit := do
  let s ← Prog.get
  if s.store.poisoned = false then pure ()
  else do
    io s.store.ensureIdentityWithMinimumLength
    let length ← io (capsuleLength (.io "inspect ambiguous capsule"))
    Prog.lift (ensure (length ≤ s.store.limits.maxCapsuleBytes)
      (.tooLarge length s.store.limits.maxCapsuleBytes))
    io (tick .allocationFailed)
    let actual ← io (readCapsule (.io "reread ambiguous capsule") 0 length)
    Prog.lift (ensure (s.store.bytes <+: actual) .verificationMismatch)
    match scanCapsule H actual s.store.limits with
    | .ok view => adoptComplete actual view
    | .error strictError => discardTorn H actual strictError

/-! ## Specifications -/

variable {H : Hashing} {w : World} {s : StoreState}

theorem io_spec {α : Type} {m : Prog World CapsuleStoreError α} {Q : α → StoreState → Prop}
    {E : StoreState → Prop}
    (h : Prog.Spec m s.world (fun a w => Q a ⟨w, s.store⟩) fun w => E ⟨w, s.store⟩) :
    Prog.Spec (io m) s Q E := Prog.Spec.zoom h

theorem ensureSame_spec {validate : Prog World CapsuleStoreError Unit}
    (hv : ∀ w', w.Waits w' → Prog.Spec validate w' (fun _ => w'.Waits) w'.Failed) :
    Prog.Spec (ensureSame validate) w (fun _ => w.Waits) w.Failed := by
  refine tick_bind (fun w1 h1 => ?_) fun _ h => h
  refine ((hv w1 h1).mono (fun _ _ h => h1.trans h) fun _ h => h1.failed h).bind fun _ w2 h2 => ?_
  refine tick_bind (fun w3 h => ?_) fun _ h => h2.failed h
  have h3 := h2.trans h
  refine tick_bind (fun w4 h => ?_) fun _ h => h3.failed h
  have h4 := h3.trans h
  refine tick_bind (fun w5 h => ?_) fun _ h => h4.failed h
  have h5 := h4.trans h
  refine tick_bind (fun w6 h => ?_) fun _ h => h5.failed h
  have h6 := h5.trans h
  exact (hv w6 h6).mono (fun _ _ h => h6.trans h) fun _ h => h6.failed h

theorem ensureUnchanged_spec {store : CapsuleStore}
    (h : w.capsule.now.length = store.bytes.length) :
    Prog.Spec store.ensureUnchanged w (fun _ => w.Waits) w.Failed := by
  refine ensureSame_spec fun w' hw => ?_
  refine tick_bind (fun w1 h1 => ?_) fun _ h => h
  refine (Prog.Spec.get (Q := fun a s => a = w1 ∧ s = w1) ⟨rfl, rfl⟩).bind ?_
  rintro _ _ ⟨rfl, rfl⟩
  refine (check_spec ?_).mono (fun _ _ h => h ▸ h1) fun _ h => h
  rw [h1.capsule, hw.capsule, h]

theorem ensureIdentityWithMinimumLength_spec {store : CapsuleStore}
    (h : store.bytes.length ≤ w.capsule.now.length) :
    Prog.Spec store.ensureIdentityWithMinimumLength w (fun _ => w.Waits) w.Failed := by
  refine ensureSame_spec fun w' hw => ?_
  refine tick_bind (fun w1 h1 => ?_) fun _ h => h
  refine (Prog.Spec.get (Q := fun a s => a = w1 ∧ s = w1) ⟨rfl, rfl⟩).bind ?_
  rintro _ _ ⟨rfl, rfl⟩
  refine (check_spec ?_).mono (fun _ _ h => h ▸ h1) fun _ h => h
  rw [h1.capsule, hw.capsule]
  exact h

/-- Writing, flushing and reading back the suffix: whatever happens, a prefix of it is there. -/
theorem persistBytes_spec {offset : ℕ} {suffix : Bytes} (hoff : offset = w.capsule.now.length) :
    Prog.Spec (persistBytes offset suffix) w
      (fun _ w' => w.Appending suffix w' ∧ w'.capsule.now = w.capsule.now ++ suffix ∧
        w'.capsule.earlier = [])
      (fun w' => w.Appending suffix w' ∧ ¬ w.Quiet) := by
  have hfail : ∀ w1, w.Appending suffix w1 → ∀ w', w1.Failed w' →
      w.Appending suffix w' ∧ ¬ w.Quiet :=
    fun w1 h1 w' h' => ⟨h1.waits h'.1, fun hq => h'.2 (h1.calm hq)⟩
  refine tick_bind (fun w1 h1 => ?_) (hfail w ((Waits.refl w).appending suffix))
  refine ((writeCapsule_spec _ suffix (by rw [h1.capsule]; exact hoff)).mono
    (fun _ _ h => h) ?_).bind ?_
  · rintro w' ⟨h', hq⟩
    refine ⟨⟨h'.image.trans h1.image, h1.capsule ▸ h'.now, h1.capsule ▸ h'.earlier,
      h1.calm.trans h'.calm⟩, fun hq' => hq (h1.calm hq')⟩
  rintro _ w2 ⟨h2, hnow⟩
  replace h2 : w.Appending suffix w2 := ⟨h2.image.trans h1.image, h1.capsule ▸ h2.now,
    h1.capsule ▸ h2.earlier, h1.calm.trans h2.calm⟩
  rw [h1.capsule] at hnow
  refine tick_bind (fun w3 h => ?_) (hfail w2 h2)
  have h3 := h2.waits h
  rw [← h.capsule] at hnow
  refine ((syncCapsule_spec _ w3).mono (fun _ _ h => h) (hfail w3 h3)).bind ?_
  rintro _ w4 ⟨hi, hc, hcalm⟩
  have h4 := h3.flush hi hc hcalm
  rw [show w3.capsule.now = w4.capsule.now by rw [hc]; rfl] at hnow
  refine tick_bind (fun w5 h => ?_) (hfail w4 h4)
  have h5 := h4.waits h
  rw [← h.capsule] at hnow
  refine ((readCapsule_spec (w := w5) _ (by rw [hnow, List.length_append]; omega)).mono
    (fun _ _ h => h) (hfail w5 h5)).bind ?_
  rintro actual w6 ⟨hw, ha⟩
  have h6 := h5.waits hw
  rw [← hw.capsule] at hnow
  have hsuffix : actual = suffix := by
    rw [ha, ← hw.capsule, hnow, hoff, sliceAt_append_right le_rfl, Nat.sub_self, sliceAt_zero_length]
  refine Prog.Spec.ensure_bind hsuffix ?_
  refine tick_bind (fun w7 h => ?_) (hfail w6 h6)
  have h7 := h6.waits h
  rw [← h.capsule] at hnow
  refine ((syncCapsule_spec _ w7).mono (fun _ _ h => h) (hfail w7 h7)).bind ?_
  rintro _ w8 ⟨hi, hc, hcalm⟩
  have h8 := h7.flush hi hc hcalm
  have hclean : w8.capsule.earlier = [] := by rw [hc]; rfl
  rw [show w7.capsule.now = w8.capsule.now by rw [hc]; rfl] at hnow
  refine (tick_spec _ w8).mono (fun _ w9 h => ⟨h8.waits h, ?_, ?_⟩) (hfail w8 h8)
  · rw [h.capsule, hnow]
  · rw [h.capsule, hclean]

end CapsuleStore

end StarConverter
