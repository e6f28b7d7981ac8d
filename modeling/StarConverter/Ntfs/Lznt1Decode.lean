import StarConverter.Ntfs.Lznt1

/-!
# Decoding what the format encodes

A back-reference that stands where the decoder's offset field is wider is read with another offset
(`readOffset`); everything else is read as it was written. `readTokens` is the chunk the decoder makes
of a sequence of tokens; the loops are followed group by group (`decodeGroups_encodeGroups`) and chunk
by chunk (`decompressChunks_encodeUnit`). The sizes of the tokens do not change, so the text is
restored exactly when every back-reference copies the same bytes (`readUnit_eq_unitText_iff`).
-/

namespace StarConverter

open Base

namespace Lznt1

/-- The offset the decoder reads in a back-reference: twice the written one less one, where its
field is a bit too wide. -/
def readOffset (emitted offset : ℕ) : ℕ := if WidthBoundary emitted then 2 * offset - 1 else offset

/-- Where the decoder's field is wider, the length does not use the bit between the fields. -/
def LengthShort (emitted : ℕ) : Token UInt8 → Prop
  | .literal _ => True
  | .copy _ length => WidthBoundary emitted → length - 3 < 2 ^ (15 - displacementBits emitted)

instance : ∀ (emitted : ℕ) (token : Token UInt8), Decidable (LengthShort emitted token)
  | _, .literal _ => .isTrue trivial
  | _, .copy _ _ => inferInstanceAs (Decidable (_ → _))

/-- What the decoder makes of a token. -/
def readToken (out : Bytes) : Token UInt8 → Option Bytes
  | .literal byte => some (out ++ [byte])
  | .copy offset length =>
    if readOffset out.length offset ≤ out.length then
      some (copyBack (readOffset out.length offset) length out)
    else none

def readTokens (out : Bytes) (tokens : List (Token UInt8)) : Option Bytes :=
  tokens.foldlM readToken out

theorem readTokens_cons (out : Bytes) (token : Token UInt8) (tokens : List (Token UInt8)) :
    readTokens out (token :: tokens) = readToken out token >>= fun out => readTokens out tokens :=
  rfl

theorem readTokens_append (out : Bytes) (tokens more : List (Token UInt8)) :
    readTokens out (tokens ++ more) = readTokens out tokens >>= fun out => readTokens out more :=
  List.foldlM_append

theorem length_readToken {out out' : Bytes} {token : Token UInt8}
    (h : readToken out token = some out') : out'.length = out.length + token.size := by
  cases token with
  | literal byte =>
    cases h
    simp [Token.size]
  | copy offset length =>
    simp only [readToken, Option.ite_none_right_eq_some, Option.some.injEq] at h
    rw [← h.2, length_copyBack, Token.size]

theorem length_readTokens {out out' : Bytes} {tokens : List (Token UInt8)}
    (h : readTokens out tokens = some out') : out'.length = out.length + tokensSize tokens := by
  induction tokens generalizing out with
  | nil =>
    cases h
    rfl
  | cons token tokens ih =>
    rw [readTokens_cons, Option.bind_eq_bind, Option.bind_eq_some_iff] at h
    obtain ⟨mid, hmid, hrest⟩ := h
    rw [ih hrest, length_readToken hmid, tokensSize_cons, Nat.add_assoc]

/-! ## One token -/

theorem length_encodeToken_pos (emitted : ℕ) (token : Token UInt8) :
    0 < (encodeToken emitted token).length := by
  cases token with
  | literal byte => exact Nat.one_pos
  | copy offset length =>
    rw [encodeToken, length_toLe]
    exact Nat.two_pos

theorem size_pos {emitted : ℕ} {token : Token UInt8} (h : TokenFits emitted token) :
    0 < token.size := by
  cases token with
  | literal byte => exact Nat.one_pos
  | copy offset length =>
    obtain ⟨-, -, h3, -⟩ := h
    rw [Token.size]
    omega

section Word

variable {emitted offset length : ℕ}

/-- The word of a back-reference has its two bytes. -/
theorem word_lt (hfit : TokenFits emitted (.copy offset length)) (he : emitted ≤ 4096) :
    (offset - 1) * 2 ^ (16 - displacementBits emitted) + (length - 3) < 256 ^ 2 := by
  obtain ⟨h1, ho, -, hl⟩ := hfit
  obtain ⟨⟨hm4, hm12⟩, hmle, -⟩ := displacementBits_spec emitted
  have hem : emitted ≤ 2 ^ displacementBits emitted := by
    by_cases hm : displacementBits emitted < 12
    · exact hmle hm
    · rw [show displacementBits emitted = 12 by omega]
      omega
  have hpow : 2 ^ displacementBits emitted * 2 ^ (16 - displacementBits emitted) = 256 ^ 2 := by
    rw [← pow_add, show displacementBits emitted + (16 - displacementBits emitted) = 16 by omega]
    norm_num
  calc (offset - 1) * 2 ^ (16 - displacementBits emitted) + (length - 3)
      < (offset - 1) * 2 ^ (16 - displacementBits emitted) +
          2 ^ (16 - displacementBits emitted) := by omega
    _ = offset * 2 ^ (16 - displacementBits emitted) := by
      rw [← Nat.succ_mul, Nat.succ_eq_add_one, Nat.sub_add_cancel h1]
    _ ≤ 2 ^ displacementBits emitted * 2 ^ (16 - displacementBits emitted) :=
      Nat.mul_le_mul_right _ (ho.trans hem)
    _ = 256 ^ 2 := hpow

/-- The two fields as the decoder splits them. -/
theorem split_word (hfit : TokenFits emitted (.copy offset length))
    (hshort : LengthShort emitted (.copy offset length)) :
    let word := (offset - 1) * 2 ^ (16 - displacementBits emitted) + (length - 3)
    word % 2 ^ (16 - bitAllocatorU emitted) + 3 = length ∧
      word / 2 ^ (16 - bitAllocatorU emitted) + 1 = readOffset emitted offset := by
  obtain ⟨h1, -, h3, hl⟩ := hfit
  obtain ⟨⟨-, hr12⟩, -, -⟩ := bitAllocatorU_spec emitted
  have hwidth := bitAllocatorU_eq_displacementBits emitted
  -- The word written with the decoder's length field.
  have key {o n : ℕ} (hn : length - 3 < 2 ^ n)
      (hw : (offset - 1) * 2 ^ (16 - displacementBits emitted) = (o - 1) * 2 ^ n) (ho : 1 ≤ o) :
      ((offset - 1) * 2 ^ (16 - displacementBits emitted) + (length - 3)) % 2 ^ n + 3 = length ∧
        ((offset - 1) * 2 ^ (16 - displacementBits emitted) + (length - 3)) / 2 ^ n + 1 = o := by
    rw [hw, Nat.mul_comm, Nat.mul_add_mod, Nat.mod_eq_of_lt hn,
      Nat.mul_add_div (Nat.two_pow_pos n), Nat.div_eq_of_lt hn]
    omega
  unfold readOffset
  split_ifs at hwidth ⊢ with hb
  · have hn : 16 - bitAllocatorU emitted = 15 - displacementBits emitted := by omega
    rw [hn]
    refine key (hshort hb) ?_ (by omega)
    have hpow : 16 - displacementBits emitted = 15 - displacementBits emitted + 1 := by omega
    rw [hpow, pow_succ, show 2 * offset - 1 - 1 = (offset - 1) * 2 by omega, Nat.mul_assoc,
      Nat.mul_comm 2]
  · have hn : 16 - bitAllocatorU emitted = 16 - displacementBits emitted := by omega
    rw [hn]
    exact key hl rfl h1

end Word

/-- The decoder behind `out` in its chunk: `base` was written before the chunk, `rest` is left. -/
def stateAt (base out rest : Bytes) (chunkIn : ℕ) : ChunkState :=
  ⟨chunkIn, base ++ out ++ rest, base.length + out.length⟩

theorem leAt_append {n v : ℕ} (pre more : Bytes) (h : v < 256 ^ n) :
    leAt n (pre ++ toLe n v ++ more) pre.length = v := by
  have hfield := fieldAt_append pre (toLe n v) more
  rw [← List.append_assoc] at hfield
  exact hfield.leAt h

theorem takeLiteral_stateAt (base out pre more : Bytes) {rest : Bytes} (byte : UInt8)
    (hrest : rest ≠ []) :
    takeLiteral (pre ++ [byte] ++ more) (stateAt base out rest pre.length) =
      stateAt base (out ++ [byte]) rest.tail (pre.length + 1) := by
  have hget : (pre ++ [byte] ++ more).getD pre.length 0 = byte := by
    rw [List.append_assoc, List.getD_append_right _ _ _ _ le_rfl, Nat.sub_self]
    rfl
  have hset : (base ++ out ++ rest).set (base.length + out.length) byte =
      base ++ (out ++ [byte]) ++ rest.tail := by
    rw [← List.length_append, set_append_length hrest]
    simp only [List.append_assoc]
  simp only [takeLiteral, stateAt, hget, hset, List.length_append, List.length_singleton,
    Nat.add_assoc]

theorem takeBackReference_stateAt {base out rest pre more : Bytes} {offset length : ℕ}
    (hfit : TokenFits out.length (.copy offset length))
    (hshort : LengthShort out.length (.copy offset length)) (hout : out.length ≤ 4096)
    (hchunk : pre.length < 4096) (hrest : length ≤ rest.length) :
    takeBackReference (pre ++ encodeToken out.length (.copy offset length) ++ more) base.length
        (stateAt base out rest pre.length) =
      (fun out' => stateAt base out' (rest.drop length) (pre.length + 2)) <$>
        orErr (readToken out (.copy offset length)) .backReferenceBeforeChunk := by
  obtain ⟨hlength, hoffset⟩ := split_word hfit hshort
  have hlt := word_lt hfit hout
  rw [encodeToken]
  generalize (offset - 1) * 2 ^ (16 - displacementBits out.length) + (length - 3) = word at *
  have hword := leAt_append pre more hlt
  have hadd : checkedAdd pre.length 2 = some (pre.length + 2) :=
    checkedAdd_of_lt (by unfold wordBound; omega)
  have hneeded : pre.length + 2 ≤ (pre ++ toLe 2 word ++ more).length := by
    simp only [List.length_append, length_toLe]
    omega
  have hemitted : base.length + out.length - base.length = out.length := by omega
  have hlt32 : out.length < wordBound32 := by
    unfold wordBound32
    omega
  have htake : min length ((base ++ out ++ rest).length - (base.length + out.length)) = length := by
    simp only [List.length_append]
    omega
  simp only [takeBackReference, stateAt, hadd, orErr_some, ok_bind, ensure_of hneeded, hword,
    hemitted, ensure_of hlt32, hlength, hoffset, htake]
  rw [readToken]
  split_ifs with hle
  · have hone : 1 ≤ readOffset out.length offset := hoffset ▸ Nat.le_add_left _ _
    have hcopy := @copyFrom_append UInt8 _ (base ++ out) rest _ length hone
      (by rw [List.length_append]; omega) hrest
    rw [List.length_append, copyBack_append hle] at hcopy
    rw [ensure_of hle, ok_bind, hcopy]
    simp only [orErr_some, pure_eq_ok, Functor.map, Except.map, length_copyBack, Nat.add_assoc]
  · rw [ensure_of_not hle]
    rfl

/-- What one flag and one item do, for a token as it was written. -/
theorem takeItem_stateAt {base out rest pre more : Bytes} {token : Token UInt8} {flags : UInt8}
    {bit : ℕ} (hflag : flags.toNat.testBit bit = token.isCopy)
    (hfit : TokenFits out.length token) (hshort : LengthShort out.length token)
    (hout : out.length ≤ 4096) (hchunk : pre.length < 4096) (hrest : token.size ≤ rest.length) :
    takeItem (pre ++ encodeToken out.length token ++ more) base.length flags bit
        (stateAt base out rest pre.length) =
      (fun out' => stateAt base out' (rest.drop token.size)
        (pre.length + (encodeToken out.length token).length)) <$>
        orErr (readToken out token) .backReferenceBeforeChunk := by
  rw [takeItem, hflag]
  cases token with
  | literal byte =>
    have hne : rest ≠ [] := List.ne_nil_of_length_pos (Nat.lt_of_lt_of_le Nat.one_pos hrest)
    show Except.ok _ = _
    rw [encodeToken, takeLiteral_stateAt base out pre more byte hne, Token.size, List.drop_one]
    rfl
  | copy offset length =>
    have h := @takeBackReference_stateAt base out rest pre more offset length hfit hshort hout
      hchunk hrest
    rw [show (encodeToken out.length (.copy offset length)).length = 2 from length_toLe _ _]
    exact h

/-! ## Groups of tokens -/

theorem flagBits_lt (tokens : List (Token UInt8)) : flagBits tokens < 2 ^ tokens.length := by
  induction tokens with
  | nil => exact Nat.one_pos
  | cons token tokens ih =>
    have hbit : token.isCopy.toNat ≤ 1 := Bool.toNat_le _
    rw [flagBits, List.length_cons, pow_succ]
    omega

/-- The items of one flag byte. The flags not used yet are those of `tokens`; when they are fewer
than the bits left, the chunk ends behind them. -/
theorem decodeBits_encodeTokens {base out rest pre more : Bytes} {tokens : List (Token UInt8)}
    {flags : UInt8} {i : ℕ} (hflags : flags.toNat / 2 ^ i = flagBits tokens)
    (hlen : tokens.length + i ≤ 8) (hmore : tokens.length + i < 8 → more = [])
    (hfit : Along TokenFits out.length tokens) (hshort : Along LengthShort out.length tokens)
    (hout : out.length + tokensSize tokens ≤ 4096)
    (hchunk : (pre ++ encodeTokens out.length tokens ++ more).length ≤ 4096)
    (hrest : tokensSize tokens ≤ rest.length) :
    decodeBits (pre ++ encodeTokens out.length tokens ++ more) base.length flags
        (List.range' i (8 - i)) (stateAt base out rest pre.length) =
      (fun out' => stateAt base out' (rest.drop (tokensSize tokens))
        (pre.length + (encodeTokens out.length tokens).length)) <$>
        orErr (readTokens out tokens) .backReferenceBeforeChunk := by
  induction tokens generalizing out rest pre i with
  | nil =>
    show _ = Except.ok (stateAt base out rest pre.length)
    obtain rfl | hi : i = 8 ∨ i < 8 := by
      simp only [List.length_nil] at hlen
      omega
    · rfl
    · rw [hmore (by simpa using hi), show 8 - i = 7 - i + 1 by omega, List.range'_succ, decodeBits,
        if_pos]
      exact .inl (by simp [encodeTokens, stateAt])
  | cons token tokens ih =>
    obtain ⟨hfit, hfits⟩ := hfit
    obtain ⟨hshort, hshorts⟩ := hshort
    rw [List.length_cons] at hlen hmore
    rw [tokensSize_cons] at hout hrest
    have hsize := size_pos hfit
    have hpos := length_encodeToken_pos out.length token
    rw [encodeTokens] at hchunk ⊢
    have hbit : flags.toNat.testBit i = token.isCopy := by
      rw [Nat.testBit_eq_decide_div_mod_eq, hflags, flagBits, Nat.add_mul_mod_self_left]
      cases token.isCopy <;> rfl
    have hnext : flags.toNat / 2 ^ (i + 1) = flagBits tokens := by
      have hle : token.isCopy.toNat ≤ 1 := Bool.toNat_le _
      rw [pow_succ, ← Nat.div_div_eq_div_mul, hflags, flagBits]
      omega
    have hgo : ¬ ((pre ++ (encodeToken out.length token ++
          encodeTokens (out.length + token.size) tokens) ++ more).length ≤
          (stateAt base out rest pre.length).chunkIn ∨
        (stateAt base out rest pre.length).dst.length ≤
          (stateAt base out rest pre.length).dstCursor) := by
      simp only [stateAt, List.length_append]
      omega
    have hlt : pre.length < 4096 := by
      simp only [List.length_append] at hchunk
      omega
    have hitem := @takeItem_stateAt base out rest pre
      (encodeTokens (out.length + token.size) tokens ++ more) token flags i hbit hfit hshort
      (by omega) hlt (by omega)
    have hassoc : pre ++ (encodeToken out.length token ++
        encodeTokens (out.length + token.size) tokens) ++ more =
        pre ++ encodeToken out.length token ++
          (encodeTokens (out.length + token.size) tokens ++ more) := by
      simp only [List.append_assoc]
    rw [show 8 - i = 8 - (i + 1) + 1 by omega, List.range'_succ, decodeBits]
    rw [if_neg hgo, hassoc, hitem, readTokens_cons]
    cases hread : readToken out token with
    | none => rfl
    | some out' =>
      have hlen' := length_readToken hread
      have h := @ih out' (rest.drop token.size) (pre ++ encodeToken out.length token) (i + 1)
        hnext (by omega) (fun h => hmore (by omega))
        (hlen' ▸ hfits) (hlen' ▸ hshorts) (by omega)
        (by rw [hlen', List.append_assoc, ← hassoc]; exact hchunk)
        (by rw [List.length_drop]; omega)
      rw [hlen', List.length_append, List.append_assoc] at h
      simp only [orErr_some, Functor.map, Except.map, ok_bind, List.length_append, tokensSize_cons,
        Option.bind_eq_bind, Option.bind_some]
      rw [h]
      simp only [Functor.map, List.drop_drop, Nat.add_assoc]
      rfl

theorem encodeGroups_nil (n emitted : ℕ) : encodeGroups n emitted [] = [] := by
  cases n with
  | zero => rfl
  | succ n => rw [encodeGroups, if_pos rfl]

theorem decodeGroups_end (base out rest pre : Bytes) (fuel : ℕ) :
    decodeGroups (pre ++ []) base.length fuel (stateAt base out rest pre.length) =
      .ok (stateAt base out rest pre.length) := by
  cases fuel with
  | zero => rfl
  | succ fuel =>
    rw [decodeGroups, if_neg]
    intro h
    have h1 : pre.length < (pre ++ []).length := h.1
    rw [List.append_nil] at h1
    exact lt_irrefl _ h1

/-- The groups of a chunk, which ends behind them. -/
theorem decodeGroups_encodeGroups {base out rest pre : Bytes} {tokens : List (Token UInt8)}
    {n fuel : ℕ} (hn : tokens.length ≤ n)
    (hfuel : (encodeGroups n out.length tokens).length ≤ fuel)
    (hfit : Along TokenFits out.length tokens) (hshort : Along LengthShort out.length tokens)
    (hout : out.length + tokensSize tokens ≤ 4096)
    (hchunk : (pre ++ encodeGroups n out.length tokens).length ≤ 4096)
    (hrest : tokensSize tokens ≤ rest.length) :
    decodeGroups (pre ++ encodeGroups n out.length tokens) base.length fuel
        (stateAt base out rest pre.length) =
      (fun out' => stateAt base out' (rest.drop (tokensSize tokens))
        (pre.length + (encodeGroups n out.length tokens).length)) <$>
        orErr (readTokens out tokens) .backReferenceBeforeChunk := by
  induction n generalizing out rest pre tokens fuel with
  | zero =>
    obtain rfl := List.eq_nil_of_length_eq_zero (Nat.le_zero.1 hn)
    exact decodeGroups_end base out rest pre fuel
  | succ n ih =>
    obtain rfl | hne := eq_or_ne tokens []
    · rw [encodeGroups_nil]
      exact decodeGroups_end base out rest pre fuel
    -- One group is read by the lemma about its flag byte, the others by induction.
    have hsplit := List.take_append_drop 8 tokens
    have hsize := congrArg tokensSize hsplit
    rw [tokensSize_append] at hsize
    rw [← hsplit, along_append] at hfit hshort
    rw [encodeGroups, if_neg hne] at hfuel hchunk ⊢
    set group := tokens.take 8 with hgroup
    set others := tokens.drop 8 with hothers
    have hlen : group.length ≤ 8 := List.length_take_le _ _
    have hpos : 0 < tokensSize tokens := by
      obtain ⟨token, tail, rfl⟩ := List.exists_cons_of_ne_nil hne
      have := size_pos hfit.1.1
      rw [tokensSize_cons]
      omega
    obtain ⟨fuel, rfl⟩ : ∃ k, fuel = k + 1 := ⟨fuel - 1, by
      simp only [List.length_append, List.length_cons] at hfuel
      omega⟩
    set flags := UInt8.ofNat (flagBits group) with hflags
    have hflagNat : flags.toNat / 2 ^ 0 = flagBits group := by
      have hlt : flagBits group < 2 ^ 8 :=
        (flagBits_lt group).trans_le (Nat.pow_le_pow_right (by omega) hlen)
      rw [hflags, UInt8.toNat_ofNat_of_lt' (by simpa using hlt), pow_zero, Nat.div_one]
    have hgo : (stateAt base out rest pre.length).chunkIn <
          (pre ++ (flags :: encodeTokens out.length group ++
            encodeGroups n (out.length + tokensSize group) others)).length ∧
        (stateAt base out rest pre.length).dstCursor <
          (stateAt base out rest pre.length).dst.length := by
      simp only [stateAt, List.length_append, List.length_cons]
      omega
    have hget : (pre ++ (flags :: encodeTokens out.length group ++
        encodeGroups n (out.length + tokensSize group) others)).getD
          (stateAt base out rest pre.length).chunkIn 0 = flags := by
      rw [stateAt, List.getD_append_right _ _ _ _ le_rfl, Nat.sub_self]
      rfl
    have hassoc : pre ++ (flags :: encodeTokens out.length group ++
          encodeGroups n (out.length + tokensSize group) others) =
        pre ++ [flags] ++ encodeTokens out.length group ++
          encodeGroups n (out.length + tokensSize group) others := by
      simp only [List.append_assoc, List.cons_append, List.nil_append]
    have hbits := @decodeBits_encodeTokens base out rest (pre ++ [flags])
      (encodeGroups n (out.length + tokensSize group) others) group flags 0 hflagNat (by omega)
      (fun h => by
        have h8 : others = [] := List.drop_of_length_le (by
          rw [hgroup, List.length_take] at h
          omega)
        rw [h8, encodeGroups_nil])
      hfit.1 hshort.1 (by omega) (by rw [← hassoc]; exact hchunk) (by omega)
    rw [decodeGroups, if_pos hgo, hget, hassoc]
    rw [List.length_append, List.length_singleton] at hbits
    have hstart : List.range 8 = List.range' 0 (8 - 0) := List.range_eq_range'
    rw [hstart]
    show (decodeBits _ _ _ _ (stateAt base out rest (pre.length + 1)) >>= _) = _
    rw [hbits, ← hsplit, readTokens_append]
    cases hread : readTokens out group with
    | none => rfl
    | some out' =>
      have hlen' := length_readTokens hread
      have h := @ih out' (rest.drop (tokensSize group))
        (pre ++ [flags] ++ encodeTokens out.length group) others fuel
        (by rw [hothers, List.length_drop]; omega)
        (by
          rw [hlen']
          simp only [List.length_append, List.length_cons] at hfuel
          omega)
        (hlen' ▸ hfit.2) (hlen' ▸ hshort.2) (by omega) (by rw [hlen', ← hassoc]; exact hchunk)
        (by rw [List.length_drop]; omega)
      simp only [hlen', List.length_append, List.length_singleton, stateAt, List.drop_drop] at h
      simp only [orErr_some, Functor.map, Except.map, ok_bind, stateAt, Option.bind_eq_bind,
        Option.bind_some, tokensSize_append, hlen', h]
      cases readTokens out' others with
      | none => rfl
      | some text =>
        simp only [orErr_some, List.length_append, List.length_cons, Except.ok.injEq,
          ChunkState.mk.injEq, and_true]
        omega

/-! ## Chunks -/

theorem overwrite_append_front {base rest bytes : Bytes} (h : bytes.length ≤ rest.length) :
    overwrite (base ++ rest) base.length bytes = base ++ bytes ++ rest.drop bytes.length := by
  apply List.ext_getElem?
  intro i
  by_cases hi : base.length ≤ i ∧ i < base.length + bytes.length
  · rw [getElem?_overwrite_of_mem hi.1 hi.2 (by rw [List.length_append]; omega), List.append_assoc,
      List.getElem?_append_right hi.1, List.getElem?_append_left (by omega)]
  · rw [getElem?_overwrite_of_not_mem hi, List.append_assoc]
    by_cases hb : i < base.length
    · rw [List.getElem?_append_left hb, List.getElem?_append_left hb]
    · rw [List.getElem?_append_right (by omega), List.getElem?_append_right (by omega),
        List.getElem?_append_right (by omega), List.getElem?_drop]
      congr 1
      omega

namespace Chunk

def isCompressed : Chunk → Bool
  | compressed _ => true
  | plain _ => false

def LengthsShort : Chunk → Prop
  | compressed tokens => Along LengthShort 0 tokens
  | plain _ => True

instance : ∀ c : Chunk, Decidable c.LengthsShort
  | compressed tokens => inferInstanceAs (Decidable (Along LengthShort 0 tokens))
  | plain _ => .isTrue trivial

/-- What the decoder makes of a chunk. -/
def read : Chunk → Option Bytes
  | compressed tokens => readTokens [] tokens
  | plain bytes => some bytes

variable {c : Chunk} (hv : c.Valid)

include hv

theorem Valid.length_text : 1 ≤ c.text.length ∧ c.text.length ≤ 4096 := by
  cases c with
  | compressed tokens =>
    obtain ⟨hne, hsize, hfit, -⟩ := hv
    obtain ⟨token, tail, rfl⟩ := List.exists_cons_of_ne_nil hne
    have hpos := size_pos hfit.1
    rw [tokensSize_cons] at hsize
    rw [text, length_expand, tokensSize_cons, List.length_nil]
    omega
  | plain bytes => exact ⟨List.length_pos_of_ne_nil hv.1, hv.2⟩

theorem Valid.length_payload : 1 ≤ c.payload.length ∧ c.payload.length ≤ 4096 := by
  cases c with
  | compressed tokens =>
    obtain ⟨hne, -, -, hlen⟩ := hv
    refine ⟨?_, hlen⟩
    rw [payload]
    cases h : tokens.length with
    | zero => exact absurd (List.eq_nil_of_length_eq_zero h) hne
    | succ n =>
      rw [encodeGroups, if_neg hne, List.cons_append, List.length_cons]
      omega
  | plain bytes => exact ⟨List.length_pos_of_ne_nil hv.1, hv.2⟩

theorem Valid.header_fields : c.header ≠ 0 ∧ c.header < 256 ^ 2 ∧
    c.header % 0x1000 + 1 = c.payload.length ∧ c.header.testBit 15 = c.isCompressed := by
  have hlen := hv.length_payload
  rw [Nat.testBit_eq_decide_div_mod_eq]
  cases c with
  | compressed tokens =>
    rw [header, isCompressed]
    refine ⟨by omega, by omega, by omega, decide_eq_true ?_⟩
    omega
  | plain bytes =>
    rw [payload] at hlen ⊢
    rw [header, isCompressed]
    refine ⟨by omega, by omega, by omega, decide_eq_false ?_⟩
    omega

theorem Valid.length_read {out : Bytes} (h : c.read = some out) : out.length = c.text.length := by
  cases c with
  | compressed tokens =>
    rw [length_readTokens h, text, length_expand]
  | plain bytes =>
    cases h
    rfl

/-- A chunk as the decoder leaves it behind `base`. -/
theorem decodeChunk_payload (hs : c.LengthsShort) (base : Bytes) {rest : Bytes}
    (hrest : c.text.length ≤ rest.length) :
    decodeChunk c.isCompressed c.payload (base ++ rest) base.length =
      (fun out => ⟨c.payload.length, base ++ out ++ rest.drop c.text.length,
        base.length + out.length⟩) <$> orErr c.read .backReferenceBeforeChunk := by
  have hlen := hv.length_payload
  cases c with
  | compressed tokens =>
    obtain ⟨-, hsize, hfit, -⟩ := hv
    rw [text, length_expand, List.length_nil, Nat.zero_add] at hrest ⊢
    have h := @decodeGroups_encodeGroups base [] rest [] tokens _
      (compressed tokens).payload.length le_rfl le_rfl hfit hs (by simpa using hsize)
      hlen.2 hrest
    simp only [stateAt, List.append_nil, List.nil_append, List.length_nil, Nat.zero_add,
      Nat.add_zero] at h
    exact h
  | plain bytes =>
    rw [payload] at hlen ⊢
    rw [text] at hrest ⊢
    have htake : min bytes.length ((base ++ rest).length - base.length) = bytes.length := by
      rw [List.length_append]
      omega
    simp only [decodeChunk, isCompressed, Bool.false_eq_true, if_false, htake, List.take_length,
      overwrite_append_front hrest]
    rfl

end Chunk

/-- What the decoder makes of a unit. -/
def readUnit : List Chunk → Option Bytes
  | [] => some []
  | c :: chunks => do
    let out ← c.read
    let more ← readUnit chunks
    pure (out ++ more)

theorem encodeUnit_cons (c : Chunk) (chunks : List Chunk) :
    encodeUnit (c :: chunks) = c.encode ++ encodeUnit chunks := by
  rw [encodeUnit, encodeUnit, List.flatMap_cons, List.append_assoc]

theorem unitText_cons (c : Chunk) (chunks : List Chunk) :
    unitText (c :: chunks) = c.text ++ unitText chunks := List.flatMap_cons

theorem decompressChunks_encodeUnit {chunks : List Chunk} (hv : ∀ c ∈ chunks, c.Valid)
    (hs : ∀ c ∈ chunks, c.LengthsShort) {pre base rest : Bytes} {fuel : ℕ}
    (hfuel : chunks.length ≤ fuel) (hsrc : (pre ++ encodeUnit chunks).length < wordBound)
    (hrest : (unitText chunks).length ≤ rest.length) :
    decompressChunks (pre ++ encodeUnit chunks) fuel pre.length (base ++ rest) base.length =
      (fun out => (base ++ out ++ rest.drop (unitText chunks).length, base.length + out.length)) <$>
        orErr (readUnit chunks) .backReferenceBeforeChunk := by
  induction chunks generalizing pre base rest fuel with
  | nil =>
    have hstop : decompressChunks (pre ++ encodeUnit []) fuel pre.length (base ++ rest) base.length =
        .ok (base ++ rest, base.length) := by
      have hheader : leAt 2 (pre ++ encodeUnit []) pre.length = 0 := by
        have h := leAt_append pre [] (n := 2) (v := 0) (by norm_num)
        rw [List.append_nil] at h
        exact h
      cases fuel with
      | zero => rfl
      | succ fuel => simp [decompressChunks, hheader]
    rw [hstop]
    simp [readUnit, unitText, Functor.map, Except.map]
  | cons c chunks ih =>
    obtain ⟨hc, hvs⟩ := List.forall_mem_cons.1 hv
    obtain ⟨hsc, hss⟩ := List.forall_mem_cons.1 hs
    obtain ⟨fuel, rfl⟩ : ∃ k, fuel = k + 1 := ⟨fuel - 1, by
      rw [List.length_cons] at hfuel
      omega⟩
    have hlen := hc.length_text
    obtain ⟨hne, hlt, hchunk, hbit⟩ := hc.header_fields
    rw [unitText_cons, List.length_append] at hrest
    rw [encodeUnit_cons, Chunk.encode] at hsrc ⊢
    simp only [List.length_append, length_toLe] at hsrc
    have hassoc : pre ++ (toLe 2 c.header ++ c.payload ++ encodeUnit chunks) =
        pre ++ toLe 2 c.header ++ (c.payload ++ encodeUnit chunks) := by
      simp only [List.append_assoc]
    have hassoc' : pre ++ (toLe 2 c.header ++ c.payload ++ encodeUnit chunks) =
        pre ++ toLe 2 c.header ++ c.payload ++ encodeUnit chunks := by
      simp only [List.append_assoc]
    have hheader : leAt 2 (pre ++ (toLe 2 c.header ++ c.payload ++ encodeUnit chunks)) pre.length =
        c.header := by
      rw [hassoc]
      exact leAt_append pre _ hlt
    have hpayload : sliceAt (pre ++ (toLe 2 c.header ++ c.payload ++ encodeUnit chunks))
        (pre.length + 2) c.payload.length = c.payload := by
      have h := fieldAt_append (pre ++ toLe 2 c.header) c.payload (encodeUnit chunks)
      rw [← hassoc, List.length_append, length_toLe] at h
      exact h.slice rfl
    have htotal : (pre ++ (toLe 2 c.header ++ c.payload ++ encodeUnit chunks)).length =
        pre.length + 2 + c.payload.length + (encodeUnit chunks).length := by
      simp only [List.length_append, length_toLe]
      omega
    have hgo : saturatingAdd pre.length 2 ≤
        (pre ++ (toLe 2 c.header ++ c.payload ++ encodeUnit chunks)).length ∧
          base.length < (base ++ rest).length := by
      have hsat := saturatingAdd_le pre.length 2
      rw [htotal, List.length_append]
      omega
    have hstop : checkedAdd (pre.length + 2) c.payload.length =
        some (pre.length + 2 + c.payload.length) := checkedAdd_of_lt (by omega)
    have hstopLe : pre.length + 2 + c.payload.length ≤
        (pre ++ (toLe 2 c.header ++ c.payload ++ encodeUnit chunks)).length := by omega
    rw [decompressChunks, if_pos hgo]
    simp only [hheader, if_neg hne, hchunk, hstop, orErr_some, ok_bind, ensure_of hstopLe, hpayload,
      hbit]
    rw [Chunk.decodeChunk_payload hc hsc base (by omega), readUnit]
    cases hread : c.read with
    | none => rfl
    | some out =>
      have hout := Chunk.Valid.length_read hc hread
      have h := @ih hvs hss (pre ++ toLe 2 c.header ++ c.payload) (base ++ out)
        (rest.drop c.text.length) fuel (by simpa using hfuel)
        (by simp only [List.length_append, length_toLe]; omega)
        (by rw [List.length_drop]; omega)
      simp only [List.length_append, length_toLe] at h
      simp only [orErr_some, Functor.map, Except.map, ok_bind, hassoc', h]
      cases readUnit chunks with
      | none => rfl
      | some more =>
        simp [unitText_cons, List.drop_drop, Nat.add_assoc]

/-! ## When the decoder restores the text -/

/-- A back-reference that is read with another offset copies the same bytes. -/
def SameCopy (out : Bytes) : Token UInt8 → Prop
  | .literal _ => True
  | .copy offset length => WidthBoundary out.length →
      2 * offset - 1 ≤ out.length ∧ copyBack (2 * offset - 1) length out = copyBack offset length out

def SameCopies : Bytes → List (Token UInt8) → Prop
  | _, [] => True
  | out, token :: tokens => SameCopy out token ∧ SameCopies (expandToken out token) tokens

def Chunk.ReadAlike : Chunk → Prop
  | .compressed tokens => SameCopies [] tokens
  | .plain _ => True

instance : ∀ (out : Bytes) (token : Token UInt8), Decidable (SameCopy out token)
  | _, .literal _ => .isTrue trivial
  | _, .copy _ _ => inferInstanceAs (Decidable (_ → _))

instance decidableSameCopies : ∀ (out : Bytes) (tokens : List (Token UInt8)),
    Decidable (SameCopies out tokens)
  | _, [] => .isTrue trivial
  | out, token :: tokens =>
    have := decidableSameCopies (expandToken out token) tokens
    inferInstanceAs (Decidable (SameCopy out token ∧ SameCopies (expandToken out token) tokens))

instance : ∀ c : Chunk, Decidable c.ReadAlike
  | .compressed tokens => inferInstanceAs (Decidable (SameCopies [] tokens))
  | .plain _ => .isTrue trivial

theorem prefix_readTokens {out text : Bytes} {tokens : List (Token UInt8)}
    (h : readTokens out tokens = some text) : out <+: text := by
  induction tokens generalizing out with
  | nil =>
    cases h
    exact List.prefix_rfl
  | cons token tokens ih =>
    rw [readTokens_cons, Option.bind_eq_bind, Option.bind_eq_some_iff] at h
    obtain ⟨mid, hmid, hrest⟩ := h
    refine List.IsPrefix.trans ?_ (ih hrest)
    cases token with
    | literal byte =>
      cases hmid
      exact List.prefix_append _ _
    | copy offset length =>
      simp only [readToken, Option.ite_none_right_eq_some, Option.some.injEq] at hmid
      exact hmid.2 ▸ prefix_copyBack _ _ _

theorem readToken_eq_expandToken_iff {out : Bytes} {token : Token UInt8}
    (hfit : TokenFits out.length token) :
    readToken out token = some (expandToken out token) ↔ SameCopy out token := by
  cases token with
  | literal byte => exact ⟨fun _ => trivial, fun _ => rfl⟩
  | copy offset length =>
    obtain ⟨-, ho, -, -⟩ := hfit
    rw [readToken, readOffset, expandToken, SameCopy]
    split_ifs with hb hle
    · simp [hb, hle]
    · simp [hb, hle]
    · simp [hb]

/-- Sizes agree token by token, so the texts agree only if every token copies the same bytes. -/
theorem readTokens_eq_expand_iff {out : Bytes} {tokens : List (Token UInt8)}
    (hfit : Along TokenFits out.length tokens) :
    readTokens out tokens = some (expand out tokens) ↔ SameCopies out tokens := by
  induction tokens generalizing out with
  | nil => exact ⟨fun _ => trivial, fun _ => rfl⟩
  | cons token tokens ih =>
    obtain ⟨hfit, hfits⟩ := hfit
    rw [← length_expandToken] at hfits
    rw [readTokens_cons, expand_cons, SameCopies, ← ih hfits, ← readToken_eq_expandToken_iff hfit]
    constructor
    · intro h
      rw [Option.bind_eq_bind, Option.bind_eq_some_iff] at h
      obtain ⟨mid, hmid, hrest⟩ := h
      have hlen : mid.length = (expandToken out token).length := by
        rw [length_readToken hmid, length_expandToken]
      have hsame : mid = expandToken out token := by
        have h1 := List.prefix_iff_eq_take.1 (prefix_readTokens hrest)
        have h2 := List.prefix_iff_eq_take.1 (prefix_expand (expandToken out token) tokens)
        exact h1.trans (hlen ▸ h2.symm)
      subst hsame
      exact ⟨hmid, hrest⟩
    · rintro ⟨hmid, hrest⟩
      rw [hmid, Option.bind_eq_bind, Option.bind_some, hrest]

theorem Chunk.Valid.read_eq_text_iff {c : Chunk} (hv : c.Valid) :
    c.read = some c.text ↔ c.ReadAlike := by
  cases c with
  | compressed tokens => exact readTokens_eq_expand_iff hv.2.2.1
  | plain bytes => exact ⟨fun _ => trivial, fun _ => rfl⟩

theorem readUnit_eq_unitText_iff {chunks : List Chunk} (hv : ∀ c ∈ chunks, c.Valid) :
    readUnit chunks = some (unitText chunks) ↔ ∀ c ∈ chunks, c.ReadAlike := by
  induction chunks with
  | nil => simp [readUnit, unitText]
  | cons c chunks ih =>
    obtain ⟨hc, hvs⟩ := List.forall_mem_cons.1 hv
    rw [List.forall_mem_cons, ← ih hvs, ← hc.read_eq_text_iff, readUnit, unitText_cons]
    cases hread : c.read with
    | none => simp
    | some out =>
      cases hrest : readUnit chunks with
      | none => simp
      | some more =>
        have hlen := hc.length_read hread
        simp only [Option.pure_def, Option.bind_eq_bind, Option.bind_some, Option.some.injEq]
        exact ⟨fun h => List.append_inj h hlen, fun h => by rw [h.1, h.2]⟩

section Unit

variable {chunks : List Chunk} {dst : Bytes} (hv : ∀ c ∈ chunks, c.Valid)
  (hsrc : (encodeUnit chunks).length < wordBound) (hdst : (unitText chunks).length ≤ dst.length)

include hv in
theorem length_le_encodeUnit : chunks.length ≤ (encodeUnit chunks).length := by
  induction chunks with
  | nil => exact Nat.zero_le _
  | cons c chunks ih =>
    obtain ⟨-, hvs⟩ := List.forall_mem_cons.1 hv
    have := ih hvs
    rw [encodeUnit_cons, List.length_append, Chunk.encode, List.length_append, length_toLe,
      List.length_cons]
    omega

include hv hsrc hdst in
/-- **Decoding an encoding.** The decoder writes what it makes of the chunks in front of the rest of
its buffer, and refuses a unit in which an offset is read beyond the start of its chunk. -/
theorem decompressUnit_encodeUnit (hs : ∀ c ∈ chunks, c.LengthsShort) :
    decompressUnit (encodeUnit chunks) dst =
      (fun out => (out ++ dst.drop (unitText chunks).length, out.length)) <$>
        orErr (readUnit chunks) .backReferenceBeforeChunk := by
  have h := @decompressChunks_encodeUnit chunks hv hs [] [] dst _ (length_le_encodeUnit hv) hsrc hdst
  simp only [List.nil_append, List.length_nil, Nat.zero_add] at h
  exact h

end Unit

/-- Decoding the encoding of the chunks writes exactly their text and returns its length. -/
def Restores (chunks : List Chunk) (dst : Bytes) : Prop :=
  decompressUnit (encodeUnit chunks) dst =
    .ok (unitText chunks ++ dst.drop (unitText chunks).length, (unitText chunks).length)

/-- **When a unit is restored.** Where no back-reference behind 16, 32, …, 2048 bytes of its chunk
uses the bit between the fields in its length, the text is restored exactly if each of them copies
the same bytes from the offset that is read. -/
theorem decompressUnit_restores_iff (chunks : List Chunk) (dst : Bytes)
    (hv : ∀ c ∈ chunks, c.Valid) (hsrc : (encodeUnit chunks).length < wordBound)
    (hdst : (unitText chunks).length ≤ dst.length) :
    ((∀ c ∈ chunks, c.LengthsShort ∧ c.ReadAlike) → Restores chunks dst) ∧
      ((∀ c ∈ chunks, c.LengthsShort) → Restores chunks dst → ∀ c ∈ chunks, c.ReadAlike) := by
  refine ⟨fun h => ?_, fun hs h => ?_⟩
  · have hread := (readUnit_eq_unitText_iff hv).2 fun c hc => (h c hc).2
    rw [Restores, decompressUnit_encodeUnit hv hsrc hdst fun c hc => (h c hc).1, hread]
    rfl
  · rw [← readUnit_eq_unitText_iff hv]
    rw [Restores, decompressUnit_encodeUnit hv hsrc hdst hs] at h
    cases hread : readUnit chunks with
    | none => simp [hread, orErr, Functor.map, Except.map] at h
    | some out =>
      simp only [hread, orErr_some, Functor.map, Except.map, Except.ok.injEq, Prod.mk.injEq] at h
      rw [(List.append_inj h.1 h.2).1]

/-- Six bytes from a back-reference of three, and two bytes as they are. -/
def sampleChunks : List Chunk :=
  [.compressed [.literal 65, .literal 66, .literal 67, .copy 3 3], .plain [1, 2]]

theorem sampleChunks_restored : Restores sampleChunks (List.replicate 10 0) :=
  (decompressUnit_restores_iff sampleChunks (List.replicate 10 0) (by decide +kernel)
    (by decide +kernel) (by decide +kernel)).1 (by decide +kernel)

/-- Sixteen literals and a copy of the last two bytes, which is read as a copy of the last three. -/
def boundaryChunk : Chunk :=
  .compressed ((List.range 16).map (fun i => .literal (UInt8.ofNat (65 + i))) ++ [.copy 2 3])

theorem boundaryChunk_misread : ¬ ∀ (chunks : List Chunk) (dst : Bytes), (∀ c ∈ chunks, c.Valid) →
    (encodeUnit chunks).length < wordBound → (unitText chunks).length ≤ dst.length →
      Restores chunks dst := by
  intro h
  have hread := h [boundaryChunk] (List.replicate 19 0) (by decide +kernel) (by decide +kernel)
    (by decide +kernel)
  revert hread
  unfold Restores
  decide +kernel

end Lznt1
end StarConverter
