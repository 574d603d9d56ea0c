import Waveplay.Lib.RoundCipher
import Waveplay.RaopPlay.AesTables
import Mathlib.Tactic.FinCases

/-! # The rounds of `aes.c`

`aes_encrypt` and `aes_decrypt` look up tables of words. Here they are compared with the rounds of the
standard, which substitute bytes, shift rows, mix columns and add round keys.

* `aesEncrypt_eq`, `aesDecrypt_eq`: both are ciphers made of such rounds, with the round keys of the
  context;
* `inverts`: the rounds of `aes_decrypt` take those of `aes_encrypt` back. -/

namespace Waveplay.RaopPlay.Aes

open Waveplay.Lib Waveplay.RaopPlay.RaopClient

/-! ### Words and bytes -/

theorem four_rows : NeZero 4 := ⟨by decide⟩

attribute [local instance] four_rows

/-- The bytes of a word, the most significant first. -/
def byte (r : Fin 4) (x : Word) : Byte := (x >>> (24 - 8 * r.val)).setWidth 8

@[simp] theorem byte_xor (r : Fin 4) (x y : Word) : byte r (x ^^^ y) = byte r x ^^^ byte r y := by
  rw [byte, BitVec.ushiftRight_xor_distrib, BitVec.setWidth_xor]
  rfl

@[simp] theorem byte_or (r : Fin 4) (x y : Word) : byte r (x ||| y) = byte r x ||| byte r y := by
  rw [byte, BitVec.ushiftRight_or_distrib, BitVec.setWidth_or]
  rfl

theorem getLsbD_byte (r : Fin 4) (x : Word) {i : ℕ} (h : i < 8) :
    (byte r x).getLsbD i = x.getLsbD (24 - 8 * r.val + i) := by
  simp [byte, h]

theorem and_mask (x : Word) : x &&& 0xFFFFFFFF = x := BitVec.and_allOnes

theorem byte_rotr8 (r : Fin 4) (x : Word) : byte r (rotr8 x) = byte (r - 1) x := by
  refine BitVec.eq_of_getLsbD_eq fun i hi => ?_
  rw [getLsbD_byte _ _ hi, getLsbD_byte _ _ hi, rotr8, and_mask, and_mask, BitVec.getLsbD_or,
    BitVec.getLsbD_shiftLeft, BitVec.getLsbD_ushiftRight]
  by_cases hr : r = 0
  · have hout : x.getLsbD (8 + (24 + i)) = false := BitVec.getLsbD_of_ge _ _ (by omega)
    subst hr
    simpa [hout] using fun _ => by omega
  · have hlt : 24 - 8 * r.val + i < 24 := by omega
    have hidx : 8 + (24 - 8 * r.val + i) = 24 - 8 * (r - 1).val + i := by omega
    simp [hlt, hidx]

theorem byte_setWidth_shiftLeft (r j : Fin 4) (x : Byte) :
    byte r (x.setWidth 32 <<< (24 - 8 * j.val)) = if r = j then x else 0 := by
  refine BitVec.eq_of_getLsbD_eq fun i hi => ?_
  rw [getLsbD_byte _ _ hi, BitVec.getLsbD_shiftLeft, BitVec.getLsbD_setWidth]
  rcases lt_trichotomy r j with h | h | h
  · have hout : x.getLsbD (24 - 8 * r.val + i - (24 - 8 * j.val)) = false :=
      BitVec.getLsbD_of_ge _ _ (by omega)
    simp [hout, h.ne]
  · subst h
    have h32 : 24 - 8 * r.val + i < 32 := by omega
    have h32' : i < 32 := by omega
    simp [h32, h32']
  · have hlt : 24 - 8 * r.val + i < 24 - 8 * j.val := by omega
    simp [hlt, h.ne']

theorem byte_setWidth (r : Fin 4) (x : Byte) :
    byte r (x.setWidth 32 <<< 24) = (if r = 0 then x else 0) ∧
      byte r (x.setWidth 32 <<< 16) = (if r = 1 then x else 0) ∧
      byte r (x.setWidth 32 <<< 8) = (if r = 2 then x else 0) ∧
      byte r (x.setWidth 32) = if r = 3 then x else 0 :=
  ⟨byte_setWidth_shiftLeft r 0 x, byte_setWidth_shiftLeft r 1 x, byte_setWidth_shiftLeft r 2 x,
    by simpa using byte_setWidth_shiftLeft r 3 x⟩

/-- A word by its bytes. -/
def word (a : Fin 4 → Byte) : Word :=
  ((a 0).setWidth 32 <<< 24) ^^^ ((a 1).setWidth 32 <<< 16) ^^^ ((a 2).setWidth 32 <<< 8) ^^^ (a 3).setWidth 32

theorem word_vec (a b c d : Byte) : word ![a, b, c, d] =
    (a.setWidth 32 <<< 24) ^^^ (b.setWidth 32 <<< 16) ^^^ (c.setWidth 32 <<< 8) ^^^ d.setWidth 32 := rfl

theorem word_vec_rev (a b c d : Byte) : word ![a, b, c, d] =
    d.setWidth 32 ^^^ (c.setWidth 32 <<< 8) ^^^ (b.setWidth 32 <<< 16) ^^^ (a.setWidth 32 <<< 24) := by
  have hrev : ∀ x y z u : Word, x ^^^ y ^^^ z ^^^ u = u ^^^ z ^^^ y ^^^ x := fun x y z u => by ac_rfl
  rw [word_vec, hrev]

@[simp] theorem byte_word (r : Fin 4) (a : Fin 4 → Byte) : byte r (word a) = a r := by
  simp only [word, byte_xor, byte_setWidth]
  fin_cases r <;> simp

theorem byte_getUint32 (r : Fin 4) (b₀ b₁ b₂ b₃ : UInt8) :
    byte r (getUint32 b₀ b₁ b₂ b₃) = (![b₀, b₁, b₂, b₃] r).toBitVec := by
  simp only [getUint32, byte_or, byte_setWidth]
  fin_cases r <;> simp

/-! ### The rounds of the standard -/

/-- Four bytes: a column of the state, a word of the key schedule. -/
abbrev Column := Fin 4 → Byte

/-- The state, by columns. -/
abbrev State := Fin 4 → Column

/-- The product with a circulant matrix, which has `coef (j - r)` in row `r` and column `j`. -/
def circulant (coef a : Column) : Column := fun r =>
  BinaryField.mul poly (coef (0 - r)) (a 0) ^^^ BinaryField.mul poly (coef (1 - r)) (a 1) ^^^
    BinaryField.mul poly (coef (2 - r)) (a 2) ^^^ BinaryField.mul poly (coef (3 - r)) (a 3)

def subBytes (f : Byte → Byte) (s : State) : State := fun c r => f (s c r)

def shiftRows (s : State) : State := fun c r => s (c + r) r

def invShiftRows (s : State) : State := fun c r => s (c - r) r

/-- The substitution of a round: `SubBytes`, then `ShiftRows`. -/
noncomputable def subShift (s : State) : State := shiftRows (subBytes sbox s)

def mixColumns (s : State) : State := fun c => circulant ![2, 3, 1, 1] (s c)

def invMixColumns (s : State) : State := fun c => circulant ![14, 11, 13, 9] (s c)

def addRoundKey (s k : State) : State := fun c r => s c r ^^^ k c r

/-! ### Tables of words -/

/-- The words of the state. -/
def Cols.get (x : Cols) : Fin 4 → Word := ![x.x₀, x.x₁, x.x₂, x.x₃]

/-- The state held in four words. -/
def Cols.toState (x : Cols) : State := fun c r => byte r (x.get c)

theorem fround_get (t : Four) (y k : Cols) (c : Fin 4) :
    (fround t y k).get c = k.get c ^^^ t.look (y.get c) (y.get (c + 1)) (y.get (c + 2)) (y.get (c + 3)) := by
  fin_cases c <;> rfl

theorem rround_get (t : Four) (y k : Cols) (c : Fin 4) :
    (rround t y k).get c = k.get c ^^^ t.look (y.get c) (y.get (c - 1)) (y.get (c - 2)) (y.get (c - 3)) := by
  fin_cases c <;> rfl

theorem look_eq (t : Four) (a b c d : Word) :
    t.look a b c d = t.t0 (byte 0 a) ^^^ t.t1 (byte 1 b) ^^^ t.t2 (byte 2 c) ^^^ t.t3 (byte 3 d) := rfl

/-- The entries of `t` are the first columns of a circulant matrix, times a byte. -/
def Mixes (t : Byte → Word) (coef : Column) (f : Byte → Byte) : Prop :=
  ∀ r i, byte r (t i) = BinaryField.mul poly (coef (0 - r)) (f i)

theorem Mixes.look {t : Byte → Word} {coef : Column} {f : Byte → Byte} (h : Mixes t coef f) (a b c d : Word) :
    (fun r => byte r ((Four.rotated t).look a b c d)) =
      circulant coef ![f (byte 0 a), f (byte 1 b), f (byte 2 c), f (byte 3 d)] := by
  funext r
  have hshift : ∀ r j : Fin 4, 0 - (r - j) = j - r := by decide
  have hsub : ∀ r : Fin 4, r - 1 - 1 = r - 2 ∧ r - 2 - 1 = r - 3 := by decide
  simp only [look_eq, Four.rotated, byte_xor, byte_rotr8, hsub, h _, hshift]
  rfl

theorem look_shifted {t : Byte → Word} {f : Byte → Byte} (h : ∀ i, t i = (f i).setWidth 32) (a b c d : Word) :
    (Four.shifted t).look a b c d = word ![f (byte 0 a), f (byte 1 b), f (byte 2 c), f (byte 3 d)] := by
  simp only [look_eq, Four.shifted, h]
  rfl

theorem fsb_byte (x : Byte) : (fsb x).setWidth 8 = sbox x := by
  rw [fsb_eq, BitVec.setWidth_setWidth_of_le _ (by decide), BitVec.setWidth_eq]

/-- The inverse S-box. -/
def invSbox (x : Byte) : Byte := (rsb x).setWidth 8

/-- The substitution of a round backwards. -/
def invSubShift (s : State) : State := invShiftRows (subBytes invSbox s)

theorem invSbox_sbox (x : Byte) : invSbox (sbox x) = x := by
  rw [invSbox, rsb_sbox, BitVec.setWidth_setWidth_of_le _ (by decide), BitVec.setWidth_eq]

theorem rsb_eq (x : Byte) : rsb x = (invSbox x).setWidth 32 := by
  obtain ⟨y, rfl⟩ := sbox_surjective x
  rw [invSbox_sbox, rsb_sbox]

theorem mul_two (x : Byte) : BinaryField.mul poly 2 x = xtime x := by
  have h2 : (2 : Byte) = BinaryField.xtime poly 1 := by decide
  rw [xtime_eq, h2, BinaryField.xtime_mul, BinaryField.one_mul]

theorem mul_three (x : Byte) : BinaryField.mul poly 3 x = x ^^^ xtime x := by
  have h3 : (3 : Byte) = 1 ^^^ 2 := by decide
  rw [h3, BinaryField.xor_mul, BinaryField.one_mul, mul_two]

theorem mixes_ft0 : Mixes ft0 ![2, 3, 1, 1] sbox := by
  intro r i
  have hword : ft0 i = word ![xtime (sbox i), sbox i, sbox i, sbox i ^^^ xtime (sbox i)] := by
    rw [word_vec_rev, ← fsb_byte, ft0, and_mask]
  rw [hword, byte_word]
  generalize sbox i = x
  fin_cases r
  · exact (mul_two x).symm
  · exact (BinaryField.one_mul x).symm
  · exact (BinaryField.one_mul x).symm
  · exact (mul_three x).symm

theorem mixes_rt0 : Mixes rt0 ![14, 11, 13, 9] invSbox := by
  intro r i
  have hword : rt0 i = word ![mul 14 (invSbox i), mul 9 (invSbox i), mul 13 (invSbox i),
      mul 11 (invSbox i)] := by
    rw [word_vec_rev, invSbox, rt0, and_mask]
  rw [hword, byte_word]
  generalize invSbox i = x
  fin_cases r
  · exact mul_eq 14 x
  · exact mul_eq 9 x
  · exact mul_eq 13 x
  · exact mul_eq 11 x

/-! ### Rounds on states -/

/-- What a family of tables does to a column, given the bytes looked up. -/
def Looks (t : Four) (f : Byte → Byte) (G : Column → Column) : Prop :=
  ∀ a b c d, (fun r => byte r (t.look a b c d)) = G ![f (byte 0 a), f (byte 1 b), f (byte 2 c), f (byte 3 d)]

theorem looks_ft : Looks ft sbox (circulant ![2, 3, 1, 1]) := mixes_ft0.look

theorem looks_rt : Looks rt invSbox (circulant ![14, 11, 13, 9]) := mixes_rt0.look

theorem looks_shifted {t : Byte → Word} {f : Byte → Byte} (h : ∀ i, t i = (f i).setWidth 32) :
    Looks (.shifted t) f id := fun a b c d => by
  rw [look_shifted h]
  funext r
  exact byte_word r _

theorem toState_fround {t : Four} {f : Byte → Byte} {G : Column → Column} (h : Looks t f G) (y k : Cols) :
    (fround t y k).toState = addRoundKey (fun c => G (shiftRows (subBytes f y.toState) c)) k.toState := by
  funext c r
  have hcol : shiftRows (subBytes f y.toState) c =
      ![f (byte 0 (y.get c)), f (byte 1 (y.get (c + 1))), f (byte 2 (y.get (c + 2))),
        f (byte 3 (y.get (c + 3)))] := by
    funext j
    fin_cases j
    · simp [shiftRows, subBytes, Cols.toState]
    all_goals rfl
  rw [Cols.toState, fround_get, byte_xor, BitVec.xor_comm, addRoundKey, hcol]
  exact congrArg (· ^^^ _) (congrFun (h _ _ _ _) r)

theorem toState_rround {t : Four} {f : Byte → Byte} {G : Column → Column} (h : Looks t f G) (y k : Cols) :
    (rround t y k).toState = addRoundKey (fun c => G (invShiftRows (subBytes f y.toState) c)) k.toState := by
  funext c r
  have hcol : invShiftRows (subBytes f y.toState) c =
      ![f (byte 0 (y.get c)), f (byte 1 (y.get (c - 1))), f (byte 2 (y.get (c - 2))),
        f (byte 3 (y.get (c - 3)))] := by
    funext j
    fin_cases j
    · have hzero : ∀ c : Fin 4, c - 0 = c := by decide
      exact congrArg (fun c => f (byte 0 (y.get c))) (hzero c)
    all_goals rfl
  rw [Cols.toState, rround_get, byte_xor, BitVec.xor_comm, addRoundKey, hcol]
  exact congrArg (· ^^^ _) (congrFun (h _ _ _ _) r)

/-! ### Inverse rounds -/

theorem circulant_xor (coef x y : Column) :
    circulant coef (fun r => x r ^^^ y r) = fun r => circulant coef x r ^^^ circulant coef y r := by
  have h : ∀ a b c d a' b' c' d' : Byte, a ^^^ a' ^^^ (b ^^^ b') ^^^ (c ^^^ c') ^^^ (d ^^^ d') =
      a ^^^ b ^^^ c ^^^ d ^^^ (a' ^^^ b' ^^^ c' ^^^ d') := fun a b c d a' b' c' d' => by ac_rfl
  funext r
  simp only [circulant, BinaryField.mul_xor, h]

theorem circulant_circulant (a b x : Column) :
    circulant a (circulant b x) = circulant (fun m => BinaryField.mul poly (a 0) (b m) ^^^
      BinaryField.mul poly (a 1) (b (m - 1)) ^^^ BinaryField.mul poly (a 2) (b (m - 2)) ^^^
      BinaryField.mul poly (a 3) (b (m - 3))) x := by
  funext r
  simp only [circulant, BinaryField.mul_xor, BinaryField.xor_mul, BinaryField.mul_assoc]
  -- sixteen products on each side, whatever a product is
  generalize BinaryField.mul poly = m
  fin_cases r <;> simp only [Fin.zero_eta, Fin.mk_one, Fin.reduceFinMk, Fin.isValue, Fin.reduceSub] <;> ac_rfl

theorem circulant_one (x : Column) : circulant ![1, 0, 0, 0] x = x := by
  have hone : ∀ x, BinaryField.mul poly 1#8 x = x := BinaryField.one_mul
  have hzero : ∀ x, BinaryField.mul poly 0#8 x = 0#8 := BinaryField.zero_mul
  funext r
  fin_cases r <;> simp [circulant, hone, hzero]

theorem invMixColumns_mixColumns (s : State) : invMixColumns (mixColumns s) = s := by
  have hcoef : (fun m : Fin 4 => BinaryField.mul poly 14 (![2, 3, 1, 1] m) ^^^
      BinaryField.mul poly 11 (![2, 3, 1, 1] (m - 1)) ^^^ BinaryField.mul poly 13 (![2, 3, 1, 1] (m - 2)) ^^^
      BinaryField.mul poly 9 (![2, 3, 1, 1] (m - 3))) = ![1, 0, 0, 0] := by
    funext m
    revert m
    decide +kernel
  funext c
  exact (circulant_circulant _ _ _).trans ((congrArg (circulant · (s c)) hcoef).trans (circulant_one _))

/-- **The rounds backwards.** -/
theorem inverts : RoundCipher.Inverts addRoundKey subShift mixColumns invSubShift invMixColumns where
  add_add a k := by
    funext c r
    simp only [addRoundKey, BitVec.xor_assoc, BitVec.xor_self, BitVec.xor_zero]
  sub_sub a := by
    have hshift : ∀ c r : Fin 4, c - r + r = c := by decide
    funext c r
    simp only [invSubShift, invShiftRows, subShift, subBytes, shiftRows, hshift, invSbox_sbox]
  mix_mix := invMixColumns_mixColumns
  mix_add a b := by
    funext c
    exact circulant_xor _ _ _

/-! ### Blocks -/

/-- The block as a state, column by column. -/
def blockState (b : Block) : State := fun c r => (b ⟨4 * c.val + r.val, by omega⟩).toBitVec

/-- The state as a block. -/
def stateBlock (s : State) : Block := fun i => .ofBitVec (s ⟨i.val / 4, by omega⟩ ⟨i.val % 4, by omega⟩)

theorem blockState_stateBlock (s : State) : blockState (stateBlock s) = s := by
  funext c r
  have hc : (4 * c.val + r.val) / 4 = c.val := by omega
  have hr : (4 * c.val + r.val) % 4 = r.val := by omega
  simp only [blockState, stateBlock, hc, hr]

theorem stateBlock_blockState (b : Block) : stateBlock (blockState b) = b := by
  funext i
  have hi : 4 * (i.val / 4) + i.val % 4 = i.val := by omega
  simp only [blockState, stateBlock, hi]

theorem toState_firstCols (k : Cols) (input : Block) :
    (firstCols k input).toState = addRoundKey (blockState input) k.toState := by
  funext c r
  fin_cases c <;>
    exact (byte_xor r _ _).trans (congrArg (· ^^^ _) ((byte_getUint32 r _ _ _ _).trans (by fin_cases r <;> rfl)))

theorem put_eq (x : Cols) : x.put = stateBlock x.toState := by
  funext i
  fin_cases i <;> rfl

theorem rounds_eq {round last : Cols → Cols → Cols} {sub mix : State → State}
    (hround : ∀ y k, (round y k).toState = addRoundKey (mix (sub y.toState)) k.toState)
    (hlast : ∀ y k, (last y k).toState = addRoundKey (sub y.toState) k.toState)
    (keys : List Word) (nr : ℕ) (input : Block) :
    rounds round last keys nr input = stateBlock (RoundCipher.cipher addRoundKey sub mix
      (roundKey keys 0).toState
      ((List.range (innerRounds nr)).map fun i => (roundKey keys (4 * (i + 1))).toState)
      (roundKey keys (4 * (innerRounds nr + 1))).toState (blockState input)) := by
  have hfold : ∀ (l : List ℕ) (x : Cols),
      (l.foldl (fun y i => round y (roundKey keys (4 * (i + 1)))) x).toState =
        (l.map fun i => (roundKey keys (4 * (i + 1))).toState).foldl
          (RoundCipher.round addRoundKey sub mix) x.toState := by
    intro l x
    rw [List.foldl_map]
    exact (List.foldl_hom Cols.toState fun y i => (hround y _).symm).symm
  rw [rounds, put_eq, hlast, hfold, toState_firstCols, RoundCipher.cipher]

theorem aesEncrypt_eq (ctx : Context) (b : Block) :
    aesEncrypt ctx b = stateBlock (RoundCipher.cipher addRoundKey subShift mixColumns
      (roundKey ctx.erk 0).toState
      ((List.range (innerRounds ctx.nr)).map fun i => (roundKey ctx.erk (4 * (i + 1))).toState)
      (roundKey ctx.erk (4 * (innerRounds ctx.nr + 1))).toState (blockState b)) := by
  have hround : ∀ y k : Cols, (fround ft y k).toState = addRoundKey (mixColumns (subShift y.toState)) k.toState :=
    toState_fround looks_ft
  have hlast : ∀ y k : Cols, (fround (.shifted fsb) y k).toState = addRoundKey (subShift y.toState) k.toState :=
    toState_fround (looks_shifted fsb_eq)
  exact rounds_eq hround hlast ctx.erk ctx.nr b

theorem aesDecrypt_eq (ctx : Context) (b : Block) :
    aesDecrypt ctx b = stateBlock (RoundCipher.cipher addRoundKey invSubShift invMixColumns
      (roundKey ctx.drk 0).toState
      ((List.range (innerRounds ctx.nr)).map fun i => (roundKey ctx.drk (4 * (i + 1))).toState)
      (roundKey ctx.drk (4 * (innerRounds ctx.nr + 1))).toState (blockState b)) := by
  have hround : ∀ y k : Cols,
      (rround rt y k).toState = addRoundKey (invMixColumns (invSubShift y.toState)) k.toState :=
    toState_rround looks_rt
  have hlast : ∀ y k : Cols,
      (rround (.shifted rsb) y k).toState = addRoundKey (invSubShift y.toState) k.toState :=
    toState_rround (looks_shifted rsb_eq)
  exact rounds_eq hround hlast ctx.drk ctx.nr b

end Waveplay.RaopPlay.Aes
