import StarConverter.Base.Signed

/-!
# Mapping pairs

A run of clusters is written as a header byte with two widths, the run length and the distance of its
first cluster from that of the physical run before. The encoder writes lengths as unsigned and
distances as signed numbers, each as short as possible; `encodeRuns_signed` says when the lengths can
be read as signed numbers too.
-/

namespace StarConverter

open Base

namespace Ntfs

/-- A run: its first cluster, if it has clusters, and its length. -/
abbrev Run := Option ℕ × ℕ

/-- `i64::try_from`. -/
def toI64 (v : ℤ) : Option ℤ := if -2 ^ 63 ≤ v ∧ v < 2 ^ 63 then some v else none

@[simp] theorem toI64_eq_some {v w : ℤ} : toI64 v = some w ↔ (-2 ^ 63 ≤ v ∧ v < 2 ^ 63) ∧ v = w := by
  unfold toI64
  split <;> simp_all

/-- The bytes of a run, and the first cluster the next distance is taken from. -/
def encodeRun (previous : ℤ) : Run → Option (Bytes × ℤ)
  | (none, length) =>
    if length = 0 then none
    else
      let lengthBytes := unsignedBytes length
      some (UInt8.ofNat lengthBytes.length :: lengthBytes, previous)
  | (some lcn, length) =>
    if length = 0 then none
    else do
      let lengthBytes := unsignedBytes length
      let delta ← toI64 (lcn - previous)
      let deltaBytes := signedBytes delta
      some (UInt8.ofNat (deltaBytes.length * 16 + lengthBytes.length) :: lengthBytes ++ deltaBytes,
        lcn)

/-- The bytes of runs that follow a run with the given first cluster. -/
def encodeRunsFrom : ℤ → List Run → Option Bytes
  | _, [] => some [0]
  | previous, run :: rest => do
    let (bytes, previous) ← encodeRun previous run
    let more ← encodeRunsFrom previous rest
    some (bytes ++ more)

def encodeRuns (runs : List Run) : Option Bytes := encodeRunsFrom 0 runs

/-! ## The fields of an encoding -/

/-- The length field and the distance field of every pair, up to the terminator. -/
def mappingFields : ℕ → Bytes → Option (List (Bytes × Bytes))
  | 0, _ => none
  | _ + 1, [] => none
  | fuel + 1, header :: rest =>
    if header = 0 then some []
    else do
      let lengthWidth := header.toNat % 16
      let deltaWidth := header.toNat / 16
      let more ← mappingFields fuel (rest.drop (lengthWidth + deltaWidth))
      some ((rest.take lengthWidth, (rest.drop lengthWidth).take deltaWidth) :: more)

/-- What the fields of a run list have to say: lengths, and distances for physical runs. -/
def runValues : ℤ → List Run → List (ℤ × Option ℤ)
  | _, [] => []
  | previous, (none, length) :: rest => ((length : ℤ), none) :: runValues previous rest
  | previous, (some lcn, length) :: rest =>
    ((length : ℤ), some ((lcn : ℤ) - previous)) :: runValues lcn rest

/-- The numbers of the fields of a pair, each read as a signed number of its width. -/
def signedFields (fields : Bytes × Bytes) : ℤ × Option ℤ :=
  (signedValue fields.1, if fields.2 = [] then none else some (signedValue fields.2))

/-- The runs are encoded, and every field read as a signed number is the one of its run. -/
def WrittenSigned (runs : List Run) : Prop :=
  ∃ bytes fields, encodeRuns runs = some bytes ∧ mappingFields bytes.length bytes = some fields ∧
    fields.map signedFields = runValues 0 runs

/-- Runs whose length and first cluster are in the range of a signed 64-bit number. -/
def SmallRuns (runs : List Run) : Prop :=
  ∀ run ∈ runs, 1 ≤ run.2 ∧ run.2 < 2 ^ 63 ∧ ∀ lcn, run.1 = some lcn → lcn < 2 ^ 63

/-- The fields of a run. -/
def runFields (previous : ℤ) : Run → Bytes × Bytes
  | (none, length) => (unsignedBytes length, [])
  | (some lcn, length) => (unsignedBytes length, signedBytes (lcn - previous))

/-- The first cluster the distance of the next run is taken from. -/
def nextPrevious (previous : ℤ) : Run → ℤ
  | (none, _) => previous
  | (some lcn, _) => lcn

/-- The bytes of two fields behind their header. -/
def pairBytes (fields : Bytes × Bytes) : Bytes :=
  UInt8.ofNat (fields.2.length * 16 + fields.1.length) :: fields.1 ++ fields.2

/-- A first cluster the encoder can take distances from. -/
def SmallLcn (previous : ℤ) : Prop := 0 ≤ previous ∧ previous < 2 ^ 63

theorem SmallLcn.next {previous : ℤ} (hp : SmallLcn previous) {run : Run}
    (hlcn : ∀ lcn, run.1 = some lcn → lcn < 2 ^ 63) : SmallLcn (nextPrevious previous run) := by
  obtain ⟨lcn, length⟩ := run
  cases lcn with
  | none => exact hp
  | some lcn =>
    have h := hlcn lcn rfl
    exact ⟨by simp [nextPrevious], by simp only [nextPrevious]; omega⟩

theorem encodeRun_small {previous : ℤ} (hp : SmallLcn previous) {run : Run} (hlen : 1 ≤ run.2)
    (hlcn : ∀ lcn, run.1 = some lcn → lcn < 2 ^ 63) :
    encodeRun previous run = some (pairBytes (runFields previous run), nextPrevious previous run) := by
  obtain ⟨lcn, length⟩ := run
  have hne : length ≠ 0 := by
    dsimp only at hlen
    omega
  cases lcn with
  | none =>
    simp only [encodeRun, if_neg hne, pairBytes, runFields, nextPrevious, List.length_nil,
      Nat.zero_mul, Nat.zero_add, List.append_nil]
  | some lcn =>
    have h := hlcn lcn rfl
    obtain ⟨h0, h1⟩ := hp
    have hdelta : toI64 ((lcn : ℤ) - previous) = some ((lcn : ℤ) - previous) :=
      toI64_eq_some.2 ⟨⟨by omega, by omega⟩, rfl⟩
    simp only [encodeRun, if_neg hne, hdelta, pairBytes, runFields, nextPrevious, Option.bind_eq_bind,
      Option.bind_some]

/-- Widths of fields, as a header holds them. -/
structure FieldWidths (fields : Bytes × Bytes) : Prop where
  length_pos : 1 ≤ fields.1.length
  length_le : fields.1.length ≤ 8
  delta_le : fields.2.length ≤ 8

theorem fieldWidths_runFields (previous : ℤ) {run : Run} (h : run.2 < wordBound) :
    FieldWidths (runFields previous run) := by
  obtain ⟨lcn, length⟩ := run
  have hl := length_unsignedBytes h
  cases lcn with
  | none => exact ⟨hl.1, hl.2, Nat.zero_le _⟩
  | some lcn => exact ⟨hl.1, hl.2, (length_signedBytes _).2⟩

theorem FieldWidths.header {fields : Bytes × Bytes} (h : FieldWidths fields) :
    (UInt8.ofNat (fields.2.length * 16 + fields.1.length)).toNat =
      fields.2.length * 16 + fields.1.length := by
  have h1 := h.length_le
  have h2 := h.delta_le
  rw [UInt8.toNat_ofNat']
  omega

/-- Reading one pair. -/
theorem mappingFields_pair {fields : Bytes × Bytes} (h : FieldWidths fields) (fuel : ℕ)
    (rest : Bytes) : mappingFields (fuel + 1) (pairBytes fields ++ rest) =
      (mappingFields fuel rest).map fun more => fields :: more := by
  have hheader := h.header
  have hpos := h.length_pos
  have hle := h.length_le
  have hne : UInt8.ofNat (fields.2.length * 16 + fields.1.length) ≠ 0 := by
    intro hzero
    rw [hzero] at hheader
    have hz : (0 : UInt8).toNat = 0 := rfl
    omega
  simp only [pairBytes, List.cons_append, List.append_assoc, mappingFields, if_neg hne, hheader]
  have hmod : (fields.2.length * 16 + fields.1.length) % 16 = fields.1.length := by omega
  have hdiv : (fields.2.length * 16 + fields.1.length) / 16 = fields.2.length := by omega
  rw [hmod, hdiv, List.take_left, List.drop_left, List.take_left, ← List.drop_drop, List.drop_left,
    List.drop_left]
  cases mappingFields fuel rest <;> rfl

theorem encodeRunsFrom_small {previous : ℤ} (hp : SmallLcn previous) {runs : List Run}
    (h : SmallRuns runs) : ∃ bytes fields, encodeRunsFrom previous runs = some bytes ∧
      (∀ fuel, bytes.length ≤ fuel → mappingFields fuel bytes = some fields) ∧
      (fields.map signedFields = runValues previous runs ↔ ∀ run ∈ runs, TopBitClear run.2) := by
  induction runs generalizing previous with
  | nil =>
    refine ⟨[0], [], rfl, fun fuel hfuel => ?_, by simp [runValues]⟩
    obtain ⟨fuel, rfl⟩ : ∃ k, fuel = k + 1 := ⟨fuel - 1, by simp at hfuel; omega⟩
    rfl
  | cons run rest ih =>
    obtain ⟨hlen, hlt, hlcn⟩ := h run List.mem_cons_self
    obtain ⟨more, fields, hmore, hfields, hvalues⟩ :=
      ih (hp.next hlcn) fun r hr => h r (List.mem_cons_of_mem _ hr)
    have hword : run.2 < wordBound := by unfold wordBound; omega
    have hwidths := fieldWidths_runFields previous hword
    refine ⟨pairBytes (runFields previous run) ++ more, runFields previous run :: fields, ?_, ?_, ?_⟩
    · simp only [encodeRunsFrom, encodeRun_small hp hlen hlcn, hmore, Option.bind_eq_bind,
        Option.bind_some]
    · intro fuel hfuel
      obtain ⟨fuel, rfl⟩ : ∃ k, fuel = k + 1 := ⟨fuel - 1, by simp [pairBytes] at hfuel; omega⟩
      rw [mappingFields_pair hwidths, hfields fuel (by simp [pairBytes] at hfuel; omega)]
      rfl
    · -- The distance is always read back; the length is where its top bit is clear.
      have hsplit : signedFields (runFields previous run) :: fields.map signedFields =
          runValues previous (run :: rest) ↔
          signedValue (unsignedBytes run.2) = run.2 ∧
            fields.map signedFields = runValues (nextPrevious previous run) rest := by
        obtain ⟨lcn, length⟩ := run
        cases lcn with
        | none =>
          simp only [runFields, signedFields, runValues, nextPrevious, List.cons.injEq, Prod.mk.injEq,
            if_true, and_true]
        | some lcn =>
          have hlcn' := hlcn lcn rfl
          obtain ⟨h0, h1⟩ := hp
          have hdelta : signedValue (signedBytes ((lcn : ℤ) - previous)) = (lcn : ℤ) - previous :=
            signedValue_signedBytes (by omega) (by omega)
          have hne : signedBytes ((lcn : ℤ) - previous) ≠ [] := by
            intro hnil
            have := (length_signedBytes ((lcn : ℤ) - previous)).1
            rw [hnil] at this
            simp at this
          simp only [runFields, signedFields, runValues, nextPrevious, List.cons.injEq, Prod.mk.injEq,
            if_neg hne, hdelta, and_true]
      rw [List.map_cons, hsplit, hvalues, signedValue_unsignedBytes_iff hword, List.forall_mem_cons]

/-- Small runs are written as signed numbers exactly when no length has its top bit set. -/
theorem encodeRuns_signed {runs : List Run} (h : SmallRuns runs) :
    WrittenSigned runs ↔ ∀ run ∈ runs, TopBitClear run.2 := by
  have hzero : SmallLcn 0 := ⟨le_rfl, by norm_num⟩
  obtain ⟨bytes, fields, hbytes, hfields, hvalues⟩ := encodeRunsFrom_small hzero h
  rw [← hvalues]
  constructor
  · rintro ⟨bytes', fields', hbytes', hfields', heq⟩
    rw [encodeRuns, hbytes, Option.some.injEq] at hbytes'
    subst hbytes'
    rw [hfields _ le_rfl, Option.some.injEq] at hfields'
    rw [hfields', heq]
  · intro heq
    exact ⟨bytes, fields, hbytes, hfields _ le_rfl, heq⟩

end Ntfs

end StarConverter
