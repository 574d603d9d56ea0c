import Waveplay.RaopPlay.AesCipher

/-! # The key schedule of `aes.c`

`aes_set_key` expands the key in turns of four, six or eight words, and makes the keys for decryption
from the result. Here the words are compared with the key schedule of the standard, which is defined
word by word.

* `aesEncrypt_eq_stdCipher`: with the round keys of `aes_set_key`, `aes_encrypt` is the cipher of the
  standard;
* `aesDecrypt_aesEncrypt`: `aes_decrypt` takes it back. -/

namespace Waveplay.RaopPlay.Aes

open Waveplay.Lib Waveplay.RaopPlay.RaopClient

attribute [local instance] four_rows

/-! ### The standard -/

/-- The bytes of a word. -/
def column (x : Word) : Column := fun r => byte r x

/-- Round constant `i`, from one on. -/
def stdRcon (i : ℕ) : Column := ![(BinaryField.xtime poly)^[i - 1] 1, 0, 0, 0]

/-- What is added to the word `nk` places before word `i`, from the word before it. -/
noncomputable def stdTemp (nk i : ℕ) (temp : Column) : Column :=
  if i % nk = 0 then fun r => sbox (temp (r + 1)) ^^^ stdRcon (i / nk) r
  else if 6 < nk ∧ i % nk = 4 then fun r => sbox (temp r)
  else temp

/-- Word `i` of the key schedule, for a key of `nk` words. -/
noncomputable def stdKeyWord (nk : ℕ) (key : List UInt8) (i : ℕ) : Column :=
  if i < nk ∨ nk = 0 then fun r => (key.getD (4 * i + r.val) 0).toBitVec
  else fun r => stdKeyWord nk key (i - nk) r ^^^ stdTemp nk i (stdKeyWord nk key (i - 1)) r
termination_by i
decreasing_by all_goals omega

/-- Round key `k`. -/
noncomputable def stdRoundKey (nk : ℕ) (key : List UInt8) (k : ℕ) : State := fun c =>
  stdKeyWord nk key (4 * k + c.val)

/-- **The cipher of the standard**, for a key of `nk` words. -/
noncomputable def stdCipher (nk : ℕ) (key : List UInt8) (b : Block) : Block :=
  stateBlock (RoundCipher.cipher addRoundKey subShift mixColumns (stdRoundKey nk key 0)
    ((List.range (nk + 5)).map fun i => stdRoundKey nk key (i + 1)) (stdRoundKey nk key (nk + 6))
    (blockState b))

/-! ### Words -/

theorem column_xor (x y : Word) : column (x ^^^ y) = fun r => column x r ^^^ column y r :=
  funext fun r => byte_xor r x y

theorem column_rotSub (x : Word) : column (rotSub x) = fun r => sbox (column x (r + 1)) := by
  have hword : rotSub x = word ![sbox (byte 1 x), sbox (byte 2 x), sbox (byte 3 x), sbox (byte 0 x)] := by
    rw [rotSub, word_vec, fsb_eq, fsb_eq, fsb_eq, fsb_eq]
    rfl
  funext r
  rw [column, hword, byte_word]
  fin_cases r <;> rfl

theorem column_look_fsb (x : Word) : column ((Four.shifted fsb).look x x x x) = fun r => sbox (column x r) := by
  funext r
  rw [column, look_shifted fsb_eq, byte_word]
  fin_cases r <;> rfl

theorem rconLoop_getD (n : ℕ) (x : Byte) {i : ℕ} (h : i < n) :
    (rconLoop n x).getD i 0 = ((BinaryField.xtime poly)^[i] x).setWidth 32 <<< 24 := by
  induction n generalizing x i with
  | zero => omega
  | succ n ih =>
    cases i with
    | zero => rfl
    | succ i => rw [rconLoop, List.getD_cons_succ, ih _ (by omega), xtime_eq, Function.iterate_succ_apply]

theorem column_rcon {i : ℕ} (h : i < 10) : column (rcon.getD i 0) = stdRcon (i + 1) := by
  funext r
  rw [rcon, rconLoop_getD 10 1 h, column, (byte_setWidth r _).1, stdRcon, Nat.add_sub_cancel]
  fin_cases r <;> rfl

/-! ### Expansion -/

/-- `erk` has the first `n` words of the schedule. -/
structure Schedule (nk : ℕ) (key : List UInt8) (erk : List Word) (n : ℕ) : Prop where
  length : erk.length = n
  word : ∀ i < n, column (erk.getD i 0) = stdKeyWord nk key i

section

variable {nk n : ℕ} {key : List UInt8} {erk : List Word} {a b w : Word}

theorem Schedule.snoc (h : Schedule nk key erk n) (hw : column w = stdKeyWord nk key n) :
    Schedule nk key (erk ++ [w]) (n + 1) where
  length := by rw [List.length_append, h.length]; rfl
  word i hi := by
    rcases Nat.lt_succ_iff_lt_or_eq.mp hi with hlt | rfl
    · rw [List.getD_append _ _ _ _ (by rw [h.length]; exact hlt), h.word i hlt]
    · rw [List.getD_append_right _ _ _ _ (by rw [h.length]), h.length, Nat.sub_self]
      exact hw

theorem stdKeyWord_of_le (hnk : 0 < nk) (h : nk ≤ n) : stdKeyWord nk key n =
    fun r => stdKeyWord nk key (n - nk) r ^^^ stdTemp nk n (stdKeyWord nk key (n - 1)) r := by
  rw [stdKeyWord, if_neg (by omega)]

variable {i j : ℕ} (h : Schedule nk key erk (nk * (i + 1)))

include h

theorem Schedule.column_RK (hj : j < nk) :
    column (erk.getD (nk * i + j) 0) = stdKeyWord nk key (nk * (i + 1) + j - nk) := by
  have hsucc : nk * (i + 1) = nk * i + nk := Nat.mul_succ nk i
  rw [h.word _ (by omega)]
  congr 1
  omega

theorem Schedule.first (hnk : 0 < nk) (hi : i < 10) :
    column (erk.getD (nk * i + 0) 0 ^^^ rcon.getD i 0 ^^^ rotSub (erk.getD (nk * i + (nk - 1)) 0)) =
      stdKeyWord nk key (nk * (i + 1)) := by
  have hsucc : nk * (i + 1) = nk * i + nk := Nat.mul_succ nk i
  have hlast : nk * (i + 1) + (nk - 1) - nk = nk * (i + 1) - 1 := by omega
  have hmod : nk * (i + 1) % nk = 0 := Nat.mul_mod_right _ _
  have hdiv : nk * (i + 1) / nk = i + 1 := Nat.mul_div_cancel_left _ hnk
  rw [column_xor, column_xor, column_rotSub, column_rcon hi, h.column_RK hnk, h.column_RK (by omega), hlast,
    stdKeyWord_of_le (n := nk * (i + 1)) hnk (by omega), stdTemp, if_pos hmod, hdiv]
  funext r
  rw [BitVec.xor_assoc, BitVec.xor_comm (stdRcon (i + 1) r)]
  rfl

theorem Schedule.sum (hj : j + 1 < nk) (hmid : ¬ (6 < nk ∧ j + 1 = 4))
    (hb : column b = stdKeyWord nk key (nk * (i + 1) + j)) :
    column (erk.getD (nk * i + (j + 1)) 0 ^^^ b) = stdKeyWord nk key (nk * (i + 1) + (j + 1)) := by
  have hsucc : nk * (i + 1) = nk * i + nk := Nat.mul_succ nk i
  have hmod : (nk * (i + 1) + (j + 1)) % nk = j + 1 := by rw [Nat.mul_add_mod, Nat.mod_eq_of_lt hj]
  rw [column_xor, h.column_RK hj, hb,
    stdKeyWord_of_le (n := nk * (i + 1) + (j + 1)) (by omega) (by omega), stdTemp, hmod,
    if_neg (by omega), if_neg hmid]
  rfl

omit h in
/-- The word in the middle of a turn for 256 bits. -/
theorem Schedule.middle (h : Schedule 8 key erk (8 * (i + 1)))
    (hb : column b = stdKeyWord 8 key (8 * (i + 1) + 3)) :
    column (erk.getD (8 * i + 4) 0 ^^^ (Four.shifted fsb).look b b b b) =
      stdKeyWord 8 key (8 * (i + 1) + 4) := by
  rw [column_xor, column_look_fsb, h.column_RK (by decide), hb,
    stdKeyWord_of_le (n := 8 * (i + 1) + 4) (by decide) (by omega), stdTemp, if_neg (by omega),
    if_pos ⟨by decide, by omega⟩]
  rfl

end

theorem schedule_keyWords (nk : ℕ) (key : List UInt8) : Schedule nk key (keyWords key nk) nk where
  length := by simp [keyWords]
  word i hi := by
    rw [stdKeyWord, if_pos (Or.inl hi), keyWords, List.getD_eq_getElem _ _ (by simpa using hi),
      List.getElem_map, List.getElem_range]
    funext r
    rw [column, byte_getUint32]
    fin_cases r <;> rfl

theorem Schedule.expand128 {key : List UInt8} {erk : List Word} {i : ℕ} (hi : i < 10)
    (h : Schedule 4 key erk (4 * (i + 1))) : Schedule 4 key (expand128 erk i) (4 * (i + 1 + 1)) := by
  have h₀ := h.first (by decide) hi
  have h₁ := h.sum (j := 0) (by decide) (by decide) h₀
  have h₂ := h.sum (by decide) (by decide) h₁
  have h₃ := h.sum (by decide) (by decide) h₂
  have hall := (((h.snoc h₀).snoc h₁).snoc h₂).snoc h₃
  simp only [List.append_assoc, List.cons_append, List.nil_append] at hall
  exact hall

theorem Schedule.expand192 {key : List UInt8} {erk : List Word} {i : ℕ} (hi : i < 10)
    (h : Schedule 6 key erk (6 * (i + 1))) : Schedule 6 key (expand192 erk i) (6 * (i + 1 + 1)) := by
  have h₀ := h.first (by decide) hi
  have h₁ := h.sum (j := 0) (by decide) (by decide) h₀
  have h₂ := h.sum (by decide) (by decide) h₁
  have h₃ := h.sum (by decide) (by decide) h₂
  have h₄ := h.sum (by decide) (by decide) h₃
  have h₅ := h.sum (by decide) (by decide) h₄
  have hall := (((((h.snoc h₀).snoc h₁).snoc h₂).snoc h₃).snoc h₄).snoc h₅
  simp only [List.append_assoc, List.cons_append, List.nil_append] at hall
  exact hall

theorem Schedule.expand256 {key : List UInt8} {erk : List Word} {i : ℕ} (hi : i < 10)
    (h : Schedule 8 key erk (8 * (i + 1))) : Schedule 8 key (expand256 erk i) (8 * (i + 1 + 1)) := by
  have h₀ := h.first (by decide) hi
  have h₁ := h.sum (j := 0) (by decide) (by decide) h₀
  have h₂ := h.sum (by decide) (by decide) h₁
  have h₃ := h.sum (by decide) (by decide) h₂
  have h₄ := h.middle h₃
  have h₅ := h.sum (by decide) (by decide) h₄
  have h₆ := h.sum (by decide) (by decide) h₅
  have h₇ := h.sum (by decide) (by decide) h₆
  have hall := (((((((h.snoc h₀).snoc h₁).snoc h₂).snoc h₃).snoc h₄).snoc h₅).snoc h₆).snoc h₇
  simp only [List.append_assoc, List.cons_append, List.nil_append] at hall
  exact hall

theorem Schedule.turns {nk : ℕ} {key : List UInt8} {expand : List Word → ℕ → List Word}
    (hexpand : ∀ erk i, i < 10 → Schedule nk key erk (nk * (i + 1)) →
      Schedule nk key (expand erk i) (nk * (i + 1 + 1))) {n : ℕ} (hn : n ≤ 10) :
    Schedule nk key ((List.range n).foldl expand (keyWords key nk)) (nk * (n + 1)) := by
  induction n with
  | zero => simpa using schedule_keyWords nk key
  | succ n ih =>
    rw [List.range_succ, List.foldl_append]
    exact hexpand _ n (by omega) (ih (by omega))

/-! ### Round keys -/

theorem Schedule.roundKey {nk n k : ℕ} {key : List UInt8} {erk : List Word} (h : Schedule nk key erk n)
    (hk : 4 * k + 3 < n) : (roundKey erk (4 * k)).toState = stdRoundKey nk key k := by
  funext c
  have hword := h.word (4 * k + c.val) (by omega)
  rw [stdRoundKey, ← hword]
  fin_cases c <;> rfl

/-- The words of a round key, in their order. -/
def Cols.words (x : Cols) : List Word := [x.x₀, x.x₁, x.x₂, x.x₃]

def Cols.map (f : Word → Word) (x : Cols) : Cols := ⟨f x.x₀, f x.x₁, f x.x₂, f x.x₃⟩

theorem roundKey_flatMap {l : List Cols} {k : ℕ} {x : Cols} (h : l[k]? = some x) :
    Aes.roundKey (l.flatMap Cols.words) (4 * k) = x := by
  induction l generalizing k with
  | nil => simp at h
  | cons y l ih =>
    cases k with
    | zero =>
      rw [List.getElem?_cons_zero, Option.some.injEq] at h
      exact h
    | succ k => exact ih h

theorem map_roundKey (first last : Cols) (mids : List Cols) :
    (List.range mids.length).map (fun i => Aes.roundKey ((first :: (mids ++ [last])).flatMap Cols.words)
      (4 * (i + 1))) = mids := by
  refine List.ext_getElem (by simp) fun i h₁ h₂ => ?_
  rw [List.getElem_map, List.getElem_range]
  refine roundKey_flatMap ?_
  rw [List.getElem?_cons_succ, List.getElem?_append_left h₂, List.getElem?_eq_getElem h₂]

/-- The loop over the middle of `drk` goes through the round keys backwards. -/
theorem drkLoop_eq (erk : List Word) (m n : ℕ) : drkLoop erk n (4 * (m + n + 1)) =
    (((List.range n).reverse.map fun i => (Aes.roundKey erk (4 * (m + i))).map invWord).flatMap Cols.words,
      4 * (m + 1)) := by
  induction n with
  | zero => rfl
  | succ n ih =>
    have hRK : 4 * (m + (n + 1) + 1) - 8 = 4 * (m + n) := by omega
    have hnext : 4 * (m + n) + 4 = 4 * (m + n + 1) := by omega
    rw [drkLoop, hRK, hnext, ih, List.range_succ, List.reverse_append, List.reverse_singleton,
      List.singleton_append, List.map_cons, List.flatMap_cons]
    rfl

theorem decryptionKeys_eq (erk : List Word) (n : ℕ) : decryptionKeys erk (n + 1) (4 * (n + 1)) =
    (Aes.roundKey erk (4 * (n + 1)) ::
      ((List.range n).reverse.map (fun i => (Aes.roundKey erk (4 * (1 + i))).map invWord) ++
        [Aes.roundKey erk 0])).flatMap Cols.words := by
  have hRK : 4 * (n + 1) + 4 = 4 * (1 + n + 1) := by omega
  rw [decryptionKeys, Nat.add_sub_cancel, hRK, drkLoop_eq, List.flatMap_cons, List.flatMap_append,
    List.append_assoc]
  rfl

theorem toState_map_invWord (x : Cols) : (x.map invWord).toState = invMixColumns x.toState := by
  have hmixes : Mixes (fun i => rt0 ((fsb i).setWidth 8)) ![14, 11, 13, 9] id := fun r i => by
    rw [mixes_rt0 r, fsb_byte, invSbox_sbox, id_eq]
  have hword : ∀ w, (fun r => byte r (invWord w)) = circulant ![14, 11, 13, 9] (fun r => byte r w) := by
    intro w
    refine (hmixes.look w w w w).trans (congrArg _ ?_)
    funext r
    fin_cases r <;> rfl
  funext c
  fin_cases c <;> exact hword _

/-! ### Both directions -/

/-- The context has the round keys of a key of `nk` words, within the 64 words of its arrays. -/
structure Keyed (ctx : Context) (nk : ℕ) (key : List UInt8) : Prop where
  size : nk ≤ 8 ∧ ctx.erk.length ≤ 64
  inner : innerRounds ctx.nr = nk + 5
  erk : ∀ k ≤ nk + 6, (roundKey ctx.erk (4 * k)).toState = stdRoundKey nk key k
  drk : ctx.drk = decryptionKeys ctx.erk (nk + 6) (4 * (nk + 6))

theorem keyed_of_aesSetKey {key : List UInt8} {nbits : ℤ} {ctx : Context}
    (h : aesSetKey key nbits = some ctx) : ∃ nk : ℕ, nbits = 32 * nk ∧ Keyed ctx nk key := by
  unfold aesSetKey at h
  split at h
  · rename_i hbits
    obtain rfl := Option.some.inj h
    have h : Schedule 4 key _ (4 * (10 + 1)) := Schedule.turns (fun _ _ => Schedule.expand128) (le_refl 10)
    exact ⟨4, by omega, ⟨by decide, h.length.trans_le (by decide)⟩, rfl, fun k hk => h.roundKey (by omega), rfl⟩
  · split at h
    · obtain rfl := Option.some.inj h
      have h : Schedule 6 key _ (6 * (8 + 1)) := Schedule.turns (fun _ _ => Schedule.expand192) (by decide)
      exact ⟨6, by omega, ⟨by decide, h.length.trans_le (by decide)⟩, rfl, fun k hk => h.roundKey (by omega), rfl⟩
    · split at h
      · obtain rfl := Option.some.inj h
        have h : Schedule 8 key _ (8 * (7 + 1)) := Schedule.turns (fun _ _ => Schedule.expand256) (by decide)
        exact ⟨8, by omega, ⟨by decide, h.length.trans_le (by decide)⟩, rfl, fun k hk => h.roundKey (by omega),
          rfl⟩
      · exact absurd h (by simp)

/-- `aes_set_key` stays within `erk` and `drk`. -/
theorem Keyed.length_le {ctx : Context} {nk : ℕ} {key : List UInt8} (h : Keyed ctx nk key) :
    ctx.erk.length ≤ 64 ∧ ctx.drk.length ≤ 64 := by
  have hwords : ∀ l : List Cols, (l.flatMap Cols.words).length = 4 * l.length := fun l => by
    induction l with
    | nil => rfl
    | cons x l ih => rw [List.flatMap_cons, List.length_append, ih, List.length_cons, Cols.words]; simp; omega
  refine ⟨h.size.2, ?_⟩
  rw [h.drk, decryptionKeys_eq ctx.erk (nk + 5), hwords]
  have := h.size.1
  simp
  omega

theorem Keyed.encrypt {ctx : Context} {nk : ℕ} {key : List UInt8} (h : Keyed ctx nk key) (b : Block) :
    aesEncrypt ctx b = stdCipher nk key b := by
  have hmids : ((List.range (nk + 5)).map fun i => (Aes.roundKey ctx.erk (4 * (i + 1))).toState) =
      (List.range (nk + 5)).map fun i => stdRoundKey nk key (i + 1) :=
    List.map_congr_left fun i hi => h.erk (i + 1) (by have := List.mem_range.mp hi; omega)
  rw [aesEncrypt_eq, h.inner, hmids, h.erk (nk + 5 + 1) (le_refl _), h.erk 0 (by omega), stdCipher]

theorem Keyed.decrypt {ctx : Context} {nk : ℕ} {key : List UInt8} (h : Keyed ctx nk key) (b : Block) :
    aesDecrypt ctx b = stateBlock (RoundCipher.cipher addRoundKey invSubShift invMixColumns
      (stdRoundKey nk key (nk + 6))
      (((List.range (nk + 5)).map fun i => stdRoundKey nk key (i + 1)).reverse.map invMixColumns)
      (stdRoundKey nk key 0) (blockState b)) := by
  let first := Aes.roundKey ctx.erk (4 * (nk + 6))
  let mids := (List.range (nk + 5)).reverse.map fun i => (Aes.roundKey ctx.erk (4 * (1 + i))).map invWord
  let keys := (first :: (mids ++ [Aes.roundKey ctx.erk 0])).flatMap Cols.words
  have hdrk : ctx.drk = keys := h.drk.trans (decryptionKeys_eq ctx.erk (nk + 5))
  have hlen : mids.length = nk + 5 := by simp [mids]
  have hfirst : Aes.roundKey keys 0 = first := roundKey_flatMap (k := 0) rfl
  have hlast : Aes.roundKey keys (4 * (nk + 5 + 1)) = Aes.roundKey ctx.erk 0 := by
    refine roundKey_flatMap ?_
    rw [List.getElem?_cons_succ, List.getElem?_append_right (by omega), hlen, Nat.sub_self]
    rfl
  have hstates : mids.map Cols.toState =
      ((List.range (nk + 5)).map fun i => stdRoundKey nk key (i + 1)).reverse.map invMixColumns := by
    rw [← List.map_reverse, List.map_map, List.map_map]
    refine List.map_congr_left fun i hi => ?_
    have hi' : i < nk + 5 := List.mem_range.mp (List.mem_reverse.mp hi)
    simp only [Function.comp_apply]
    rw [toState_map_invWord, h.erk (1 + i) (by omega), Nat.add_comm 1 i]
  have hmids : ((List.range (nk + 5)).map fun i => (Aes.roundKey keys (4 * (i + 1))).toState) =
      mids.map Cols.toState := by
    conv_rhs => rw [← map_roundKey first (Aes.roundKey ctx.erk 0) mids, List.map_map, hlen]
    rfl
  rw [aesDecrypt_eq, h.inner, hdrk, hfirst, hlast, hmids, hstates, h.erk (nk + 6) (le_refl _),
    h.erk 0 (by omega)]

/-- **`aes_decrypt` takes `aes_encrypt` back.** -/
theorem Keyed.decrypt_encrypt {ctx : Context} {nk : ℕ} {key : List UInt8} (h : Keyed ctx nk key) (b : Block) :
    aesDecrypt ctx (aesEncrypt ctx b) = b := by
  rw [h.decrypt, h.encrypt, stdCipher, blockState_stateBlock, RoundCipher.cipher_cipher inverts,
    stateBlock_blockState]

/-- **`aes_encrypt` is the cipher of the standard**, for every key that `aes_set_key` takes. -/
theorem aesEncrypt_eq_stdCipher {key : List UInt8} {nbits : ℤ} {ctx : Context}
    (h : aesSetKey key nbits = some ctx) (b : Block) :
    aesEncrypt ctx b = stdCipher (nbits / 32).toNat key b := by
  obtain ⟨nk, rfl, hkeyed⟩ := keyed_of_aesSetKey h
  rw [hkeyed.encrypt, show ((32 * nk : ℤ) / 32).toNat = nk by omega]

theorem aesEncrypt_eq_stdCipher_zeros : ∃ ctx, aesSetKey (List.replicate 32 0) 256 = some ctx ∧
    ∀ b, aesEncrypt ctx b = stdCipher 8 (List.replicate 32 0) b := by
  obtain ⟨ctx, h⟩ : ∃ ctx, aesSetKey (List.replicate 32 0) 256 = some ctx := ⟨_, rfl⟩
  exact ⟨ctx, h, fun b => aesEncrypt_eq_stdCipher h b⟩

/-- **`aes_decrypt` takes `aes_encrypt` back**, for every key that `aes_set_key` takes. -/
theorem aesDecrypt_aesEncrypt {key : List UInt8} {nbits : ℤ} {ctx : Context}
    (h : aesSetKey key nbits = some ctx) (b : Block) : aesDecrypt ctx (aesEncrypt ctx b) = b := by
  obtain ⟨nk, -, hkeyed⟩ := keyed_of_aesSetKey h
  exact hkeyed.decrypt_encrypt b

theorem aesDecrypt_aesEncrypt_zeros : ∃ ctx, aesSetKey (List.replicate 16 0) 128 = some ctx ∧
    ∀ b, aesDecrypt ctx (aesEncrypt ctx b) = b := by
  obtain ⟨ctx, h⟩ : ∃ ctx, aesSetKey (List.replicate 16 0) 128 = some ctx := ⟨_, rfl⟩
  exact ⟨ctx, h, fun b => aesDecrypt_aesEncrypt h b⟩

end Waveplay.RaopPlay.Aes
