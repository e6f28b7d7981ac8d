import StarConverter.Base.Medium
import StarConverter.Base.Prog

/-!
# The machine

The image file, the capsule file, and what the environment does at each operation: let it proceed,
let it fail, or cut the power. A failing write may have written a prefix.
-/

namespace StarConverter

open Base

/-- What happens to one operation. -/
inductive Event
  | proceed
  | fail (written : ℕ)
  | crash
  deriving DecidableEq

/-- The files and the events to come. -/
structure World where
  image : Medium UInt8
  capsule : Tape UInt8
  events : ℕ → Event

namespace World

/-- The world after one event. -/
def shift (w : World) : World := { w with events := fun n => w.events (n + 1) }

/-- Nothing will go wrong. -/
def Quiet (w : World) : Prop := ∀ n, w.events n = .proceed

/-- `w'` comes after `w`, and nothing goes wrong after it that did not go wrong before. -/
def Calm (w w' : World) : Prop := w.Quiet → w'.Quiet

theorem Calm.refl (w : World) : w.Calm w := id

theorem Calm.trans {w w' w'' : World} (h : w.Calm w') (h' : w'.Calm w'') : w.Calm w'' := h' ∘ h

theorem calm_shift (w : World) : w.Calm w.shift := fun h n => h (n + 1)

/-- Only time has passed. -/
structure Waits (w w' : World) : Prop where
  image : w'.image = w.image
  capsule : w'.capsule = w.capsule
  calm : w.Calm w'

theorem Waits.refl (w : World) : w.Waits w := ⟨rfl, rfl, Calm.refl w⟩

theorem Waits.trans {w w' w'' : World} (h : w.Waits w') (h' : w'.Waits w'') : w.Waits w'' :=
  ⟨h'.image.trans h.image, h'.capsule.trans h.capsule, h.calm.trans h'.calm⟩

theorem waits_shift (w : World) : w.Waits w.shift := ⟨rfl, rfl, calm_shift w⟩

variable {ε α : Type}

/-- An operation without effect that fails with `e`. -/
def tick (e : ε) : Prog World ε Unit := fun w =>
  match w.events 0 with
  | .proceed => (.ok (), w.shift)
  | .fail _ => (.error e, w.shift)
  | .crash => (.crashed, w.shift)

/-- A pure check. -/
def check (c : Prop) [Decidable c] (e : ε) : Prog World ε Unit := Prog.lift (ensure c e)

/-- `read_exact_at` on the image. -/
def readImage (e : ε) (offset length : ℕ) : Prog World ε Bytes := do
  tick e
  let w ← Prog.get
  check (offset + length ≤ w.image.now.length) e
  pure (sliceAt w.image.now offset length)

/-- `write_all_at` on the image. -/
def writeImage (e : ε) (offset : ℕ) (bytes : Bytes) : Prog World ε Unit := fun w =>
  match w.events 0 with
  | .proceed => (.ok (), { w.shift with image := w.image.write ⟨offset, bytes⟩ })
  | .fail written => (.error e, { w.shift with image := w.image.write ⟨offset, bytes.take written⟩ })
  | .crash => (.crashed, { w.shift with image := w.image.write ⟨offset, bytes⟩ })

/-- `sync_data` or `sync_all` on the image. -/
def syncImage (e : ε) : Prog World ε Unit := do
  tick e
  Prog.modify fun w => { w with image := w.image.flush }

/-- The length of the capsule file. -/
def capsuleLength (e : ε) : Prog World ε ℕ := do
  tick e
  let w ← Prog.get
  pure w.capsule.now.length

/-- `read_exact_at` on the capsule file. -/
def readCapsule (e : ε) (offset length : ℕ) : Prog World ε Bytes := do
  tick e
  let w ← Prog.get
  check (offset + length ≤ w.capsule.now.length) e
  pure (sliceAt w.capsule.now offset length)

/-- A file after a write at `offset`; a gap before it reads as zeros. -/
def splice (l : Bytes) (offset : ℕ) (bytes : Bytes) : Bytes :=
  l.takeD offset 0 ++ bytes ++ l.drop (offset + bytes.length)

/-- `write_all_at` on the capsule file. -/
def writeCapsule (e : ε) (offset : ℕ) (bytes : Bytes) : Prog World ε Unit := fun w =>
  match w.events 0 with
  | .proceed => (.ok (), { w.shift with capsule := w.capsule.put (splice w.capsule.now offset bytes) })
  | .fail written => (.error e, { w.shift with
      capsule := w.capsule.put (splice w.capsule.now offset (bytes.take written)) })
  | .crash => (.crashed, { w.shift with capsule := w.capsule.put (splice w.capsule.now offset bytes) })

/-- `set_len` on the capsule file; a failure may come before or after the change. -/
def setCapsuleLength (e : ε) (length : ℕ) : Prog World ε Unit := fun w =>
  let resized := { w.shift with capsule := w.capsule.put (w.capsule.now.takeD length 0) }
  match w.events 0 with
  | .proceed => (.ok (), resized)
  | .fail written => (.error e, if written = 0 then w.shift else resized)
  | .crash => (.crashed, resized)

/-- `sync_data` or `sync_all` on the capsule file. -/
def syncCapsule (e : ε) : Prog World ε Unit := do
  tick e
  Prog.modify fun w => { w with capsule := w.capsule.flush }

/-! ## Specifications -/

variable {w : World} {Q : α → World → Prop} {E : World → Prop}

/-- Abnormal end of a program without effect. -/
def Failed (w w' : World) : Prop := w.Waits w' ∧ ¬ w.Quiet

theorem Waits.failed {w w' w'' : World} (h : w.Waits w') (h' : w'.Failed w'') : w.Failed w'' :=
  ⟨h.trans h'.1, fun hq => h'.2 (h.calm hq)⟩

theorem tick_spec (e : ε) (w : World) :
    Prog.Spec (tick e) w (fun _ => w.Waits) w.Failed := by
  unfold Prog.Spec tick
  cases he : w.events 0 with
  | proceed => exact waits_shift w
  | fail k => exact ⟨waits_shift w, fun hq => by rw [hq 0] at he; cases he⟩
  | crash => exact ⟨waits_shift w, fun hq => by rw [hq 0] at he; cases he⟩

theorem check_spec {c : Prop} [Decidable c] {e : ε} (hc : c) :
    Prog.Spec (check c e) w (fun _ w' => w = w') E :=
  Prog.Spec.lift (fun _ _ => rfl) fun e' he => by
    rw [ensure_of hc] at he
    cases he

/-- A program without effect that can fail for no reason but the environment, then another. -/
theorem waits_bind {β : Type} {m : Prog World ε α} {f : α → Prog World ε β} {Q : β → World → Prop}
    {R : α → World → Prop} (hm : Prog.Spec m w (fun a w' => w.Waits w' ∧ R a w') w.Failed)
    (hf : ∀ a w', w.Waits w' → R a w' → Prog.Spec (f a) w' Q E)
    (hE : ∀ w', w.Failed w' → E w') : Prog.Spec (m >>= f) w Q E :=
  (hm.mono (fun _ _ h => h) hE).bind fun a w' h => hf a w' h.1 h.2

theorem tick_bind {β : Type} {e : ε} {f : Unit → Prog World ε β} {Q : β → World → Prop}
    (hf : ∀ w', w.Waits w' → Prog.Spec (f ()) w' Q E) (hE : ∀ w', w.Failed w' → E w') :
    Prog.Spec (tick e >>= f) w Q E :=
  ((tick_spec e w).mono (fun _ _ h => h) hE).bind fun _ w' h => hf w' h

theorem readImage_spec (e : ε) {offset length : ℕ} (h : offset + length ≤ w.image.now.length) :
    Prog.Spec (readImage e offset length) w
      (fun b w' => w.Waits w' ∧ b = sliceAt w.image.now offset length) w.Failed := by
  refine tick_bind (fun w' hw => ?_) fun _ h => h
  refine (Prog.Spec.get (Q := fun a s => a = w' ∧ s = w') ⟨rfl, rfl⟩).bind ?_
  rintro _ _ ⟨rfl, rfl⟩
  refine (check_spec (by rw [hw.image]; exact h)).bind ?_
  rintro _ _ rfl
  exact Prog.Spec.pure ⟨hw, by rw [hw.image]⟩

/-- An attempt to write the patches on the image. -/
structure Writes (ps : List (Patch UInt8)) (w w' : World) : Prop where
  image : w.image.Wrote ps w'.image
  capsule : w'.capsule = w.capsule
  calm : w.Calm w'

/-- Abnormal end of an attempt to write. -/
def Torn (ps : List (Patch UInt8)) (w w' : World) : Prop := w.Writes ps w' ∧ ¬ w.Quiet

theorem Waits.writes {w w' : World} (h : w.Waits w') (ps : List (Patch UInt8)) : w.Writes ps w' :=
  ⟨h.image ▸ Medium.Wrote.refl ps _, h.capsule, h.calm⟩

theorem Failed.torn {w w' : World} (h : w.Failed w') (ps : List (Patch UInt8)) : w.Torn ps w' :=
  ⟨h.1.writes ps, h.2⟩

theorem Writes.trans {ps qs : List (Patch UInt8)} {w w' w'' : World} (h : w.Writes ps w')
    (h' : w'.Writes qs w'') (hd : ∀ x ∈ touched ps, x ∉ touched qs) : w.Writes (ps ++ qs) w'' :=
  ⟨h.image.trans h'.image hd, h'.capsule.trans h.capsule, h.calm.trans h'.calm⟩

theorem Writes.of_parts {ps qs : List (Patch UInt8)} {w w' : World} (h : w.Writes ps w')
    (hpart : ∀ p ∈ ps, ∃ q ∈ qs, p.PartOf q) : w.Writes qs w' :=
  ⟨h.image.of_parts hpart, h.capsule, h.calm⟩

theorem Writes.mono {ps qs : List (Patch UInt8)} {w w' : World} (h : w.Writes ps w')
    (hsub : ∀ p ∈ ps, p ∈ qs) : w.Writes qs w' := ⟨h.image.mono hsub, h.capsule, h.calm⟩

theorem writeImage_spec (e : ε) (offset : ℕ) (bytes : Bytes) (w : World) :
    Prog.Spec (writeImage e offset bytes) w
      (fun _ w' => w.Writes [⟨offset, bytes⟩] w' ∧ w'.image = w.image.write ⟨offset, bytes⟩)
      (w.Torn [⟨offset, bytes⟩]) := by
  unfold Prog.Spec writeImage
  cases he : w.events 0 with
  | proceed => exact ⟨⟨Medium.Wrote.write _ _, rfl, calm_shift w⟩, rfl⟩
  | fail k =>
    refine ⟨⟨?_, rfl, calm_shift w⟩, fun hq => by rw [hq 0] at he; cases he⟩
    exact (Medium.Wrote.write _ _).of_parts (by simpa using Patch.partOf_take offset bytes k)
  | crash =>
    exact ⟨⟨Medium.Wrote.write _ _, rfl, calm_shift w⟩, fun hq => by rw [hq 0] at he; cases he⟩

theorem syncImage_spec (e : ε) (w : World) :
    Prog.Spec (syncImage e) w
      (fun _ w' => w'.image = w.image.flush ∧ w'.capsule = w.capsule ∧ w.Calm w') w.Failed := by
  refine tick_bind (fun w' hw => ?_) fun _ h => h
  exact Prog.Spec.modify ⟨by rw [hw.image], hw.capsule, hw.calm⟩

/-! ## The capsule file -/

theorem capsuleLength_spec (e : ε) (w : World) :
    Prog.Spec (capsuleLength e) w
      (fun n w' => w.Waits w' ∧ n = w.capsule.now.length) w.Failed := by
  refine tick_bind (fun w' hw => ?_) fun _ h => h
  exact ⟨hw, by rw [hw.capsule]⟩

theorem readCapsule_spec (e : ε) {offset length : ℕ} (h : offset + length ≤ w.capsule.now.length) :
    Prog.Spec (readCapsule e offset length) w
      (fun b w' => w.Waits w' ∧ b = sliceAt w.capsule.now offset length) w.Failed := by
  refine tick_bind (fun w' hw => ?_) fun _ h => h
  refine (Prog.Spec.get (Q := fun a s => a = w' ∧ s = w') ⟨rfl, rfl⟩).bind ?_
  rintro _ _ ⟨rfl, rfl⟩
  refine (check_spec (by rw [hw.capsule]; exact h)).bind ?_
  rintro _ _ rfl
  exact Prog.Spec.pure ⟨hw, by rw [hw.capsule]⟩

/-- Reading the whole file. -/
theorem readCapsule_all (e : ε) (w : World) :
    Prog.Spec (readCapsule e 0 w.capsule.now.length) w
      (fun b w' => w.Waits w' ∧ b = w.capsule.now) w.Failed :=
  (readCapsule_spec e (by omega)).mono
    (fun _ _ h => ⟨h.1, h.2.trans (sliceAt_zero_length _)⟩) fun _ h => h

@[simp] theorem splice_end (l bytes : Bytes) : splice l l.length bytes = l ++ bytes := by
  rw [splice, List.takeD_eq_take _ le_rfl, List.take_length, List.drop_eq_nil_of_le (by omega),
    List.append_nil]

/-- An attempt to append `suffix` to the capsule file: some prefix of it is there. -/
structure Appending (suffix : Bytes) (w w' : World) : Prop where
  image : w'.image = w.image
  now : ∃ k ≤ suffix.length, w'.capsule.now = w.capsule.now ++ suffix.take k
  earlier : ∀ v ∈ w'.capsule.earlier, v ∈ w.capsule.versions
  calm : w.Calm w'

theorem Waits.appending {w w' : World} (h : w.Waits w') (suffix : Bytes) : w.Appending suffix w' :=
  ⟨h.image, ⟨0, Nat.zero_le _, by rw [h.capsule]; simp⟩,
    fun v hv => by rw [h.capsule] at hv; exact List.mem_cons_of_mem _ hv, h.calm⟩

theorem Appending.waits {suffix : Bytes} {w w' w'' : World} (h : w.Appending suffix w')
    (h' : w'.Waits w'') : w.Appending suffix w'' :=
  ⟨h'.image.trans h.image, h'.capsule ▸ h.now, h'.capsule ▸ h.earlier, h.calm.trans h'.calm⟩

theorem appending_put {suffix : Bytes} (w : World) {k : ℕ} (hk : k ≤ suffix.length) :
    w.Appending suffix
      { w.shift with capsule := w.capsule.put (w.capsule.now ++ suffix.take k) } :=
  ⟨rfl, ⟨k, hk, rfl⟩, fun _ hv => hv, calm_shift w⟩

/-- Writing behind the end of the capsule file. -/
theorem writeCapsule_spec (e : ε) {offset : ℕ} (bytes : Bytes)
    (h : offset = w.capsule.now.length) :
    Prog.Spec (writeCapsule e offset bytes) w
      (fun _ w' => w.Appending bytes w' ∧ w'.capsule.now = w.capsule.now ++ bytes)
      (fun w' => w.Appending bytes w' ∧ ¬ w.Quiet) := by
  subst h
  have hall : w.Appending bytes { w.shift with capsule := w.capsule.put (w.capsule.now ++ bytes) } := by
    have := appending_put w (le_refl bytes.length)
    rwa [List.take_length] at this
  unfold Prog.Spec writeCapsule
  cases he : w.events 0 with
  | proceed =>
    simp only [splice_end]
    exact ⟨hall, rfl⟩
  | fail k =>
    simp only [splice_end]
    refine ⟨?_, fun hq => by rw [hq 0] at he; cases he⟩
    rw [List.take_eq_take_min]
    exact appending_put w (min_le_right k bytes.length)
  | crash =>
    simp only [splice_end]
    exact ⟨hall, fun hq => by rw [hq 0] at he; cases he⟩

/-- An attempt to cut the capsule file to `kept`: it is as before, or cut. -/
structure Cutting (kept : Bytes) (w w' : World) : Prop where
  image : w'.image = w.image
  now : w'.capsule.now = w.capsule.now ∨ w'.capsule.now = kept
  earlier : ∀ v ∈ w'.capsule.earlier, v ∈ w.capsule.versions
  calm : w.Calm w'

theorem Waits.cutting {w w' : World} (h : w.Waits w') (kept : Bytes) : w.Cutting kept w' :=
  ⟨h.image, Or.inl (by rw [h.capsule]),
    fun v hv => by rw [h.capsule] at hv; exact List.mem_cons_of_mem _ hv, h.calm⟩

theorem Cutting.waits {kept : Bytes} {w w' w'' : World} (h : w.Cutting kept w')
    (h' : w'.Waits w'') : w.Cutting kept w'' :=
  ⟨h'.image.trans h.image, h'.capsule ▸ h.now, h'.capsule ▸ h.earlier, h.calm.trans h'.calm⟩

theorem Cutting.flush {kept : Bytes} {w w' w'' : World} (h : w.Cutting kept w')
    (himage : w''.image = w'.image) (hcapsule : w''.capsule = w'.capsule.flush)
    (hcalm : w'.Calm w'') : w.Cutting kept w'' := by
  refine ⟨himage.trans h.image, ?_, ?_, h.calm.trans hcalm⟩
  · rw [hcapsule]
    exact h.now
  · rw [hcapsule]
    simp [Tape.flush]

theorem setCapsuleLength_spec (e : ε) {n : ℕ} (h : n ≤ w.capsule.now.length) :
    Prog.Spec (setCapsuleLength e n) w
      (fun _ w' => w.Cutting (w.capsule.now.take n) w' ∧ w'.capsule.now = w.capsule.now.take n)
      (fun w' => w.Cutting (w.capsule.now.take n) w' ∧ ¬ w.Quiet) := by
  have hcut : w.Cutting (w.capsule.now.take n)
      { w.shift with capsule := w.capsule.put (w.capsule.now.take n) } :=
    ⟨rfl, Or.inr rfl, fun _ hv => hv, calm_shift w⟩
  unfold Prog.Spec setCapsuleLength
  rw [List.takeD_eq_take _ h]
  cases he : w.events 0 with
  | proceed => exact ⟨hcut, rfl⟩
  | fail k =>
    refine ⟨?_, fun hq => by rw [hq 0] at he; cases he⟩
    dsimp only
    split_ifs
    · exact (waits_shift w).cutting _
    · exact hcut
  | crash => exact ⟨hcut, fun hq => by rw [hq 0] at he; cases he⟩

theorem syncCapsule_spec (e : ε) (w : World) :
    Prog.Spec (syncCapsule e) w
      (fun _ w' => w'.image = w.image ∧ w'.capsule = w.capsule.flush ∧ w.Calm w') w.Failed := by
  refine tick_bind (fun w' hw => ?_) fun _ h => h
  exact Prog.Spec.modify ⟨hw.image, by rw [hw.capsule], hw.calm⟩

theorem Appending.flush {suffix : Bytes} {w w' w'' : World} (h : w.Appending suffix w')
    (himage : w''.image = w'.image) (hcapsule : w''.capsule = w'.capsule.flush)
    (hcalm : w'.Calm w'') : w.Appending suffix w'' := by
  refine ⟨himage.trans h.image, ?_, ?_, h.calm.trans hcalm⟩
  · rw [hcapsule]
    exact h.now
  · rw [hcapsule]
    simp [Tape.flush]

end World

end StarConverter
