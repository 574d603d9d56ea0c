import Waveplay.RaopPlay.RaopClient
import Mathlib.Data.Fin.VecNotation
import Mathlib.Logic.Function.Basic

/-! # `aes.c`: the block cipher of the audio connection

`aes_gen_tables` computes the S-boxes and the tables of the rounds, `aes_set_key` expands a key of 128,
192 or 256 bits into round keys for both directions, and `aes_encrypt` and `aes_decrypt` take a block
through the rounds by looking up tables. The source is compiled without `FIXED_TABLES`, and its `uint32`,
an `unsigned long int`, has 32 bits. An array of 256 entries is a function of a byte: every index of the
source is one. -/

namespace Waveplay.RaopPlay.Aes

open Waveplay.RaopPlay.RaopClient

abbrev Byte := BitVec 8

/-- `uint32`. -/
abbrev Word := BitVec 32

/-! ### `aes_gen_tables` -/

/-- `ROTR8`. -/
def rotr8 (x : Word) : Word := ((x <<< 24) &&& (0xFFFFFFFF : Word)) ||| ((x &&& (0xFFFFFFFF : Word)) >>> 8)

/-- `XTIME`, as it is stored in a byte. -/
def xtime (x : Byte) : Byte := (x <<< 1) ^^^ if x &&& 0x80 ≠ 0 then 0x1B else 0x00

/-- `aes_gen_tables_pow` and `aes_gen_tables_log`, and `x` of the loop that fills them. -/
structure Logs where
  pow : Byte → Byte
  log : Byte → Byte
  x : Byte

/-- The body of the first loop, with its step from `x` to the next. -/
def Logs.step (t : Logs) (i : ℕ) : Logs :=
  { pow := Function.update t.pow (.ofNat 8 i) t.x
    log := Function.update t.log t.x (.ofNat 8 i)
    x := t.x ^^^ xtime t.x }

/-- The tables after the first `n` turns. What they hold before is not read later. -/
def logsAfter (n : ℕ) : Logs := (List.range n).foldl Logs.step ⟨fun _ => 0, fun _ => 0, 1⟩

def logs : Logs := logsAfter 256

/-- `MUL`. -/
def mul (x y : Byte) : Byte :=
  if x ≠ 0 ∧ y ≠ 0 then logs.pow (.ofNat 8 (((logs.log x).toNat + (logs.log y).toNat) % 255)) else 0

/-- The round constants from `x` on. -/
def rconLoop : ℕ → Byte → List Word
  | 0, _ => []
  | n + 1, x => (x.setWidth 32 <<< 24) :: rconLoop n (xtime x)

/-- `RCON`. -/
def rcon : List Word := rconLoop 10 1

/-- `( y << 1 ) | ( y >> 7 )`. -/
def rotl1 (y : Byte) : Byte := (y <<< 1) ||| (y >>> 7)

/-- What the loop over the S-boxes does to `x`. -/
def affine (x : Byte) : Byte :=
  let y := rotl1 x
  let x := x ^^^ y
  let y := rotl1 y
  let x := x ^^^ y
  let y := rotl1 y
  let x := x ^^^ y
  let y := rotl1 y
  x ^^^ (y ^^^ 0x63)

/-- `FSb` and `RSb`. -/
structure Boxes where
  fsb : Byte → Word
  rsb : Byte → Word

/-- The body of the loop over the S-boxes. -/
def Boxes.step (s : Boxes) (i : ℕ) : Boxes :=
  let x := affine (logs.pow (.ofNat 8 (255 - (logs.log (.ofNat 8 i)).toNat)))
  { fsb := Function.update s.fsb (.ofNat 8 i) (x.setWidth 32)
    rsb := Function.update s.rsb x (.ofNat 32 i) }

/-- The S-boxes after `n` turns of their loop, which starts at one. -/
def boxesAfter (n : ℕ) : Boxes :=
  (List.range' 1 n).foldl Boxes.step
    ⟨Function.update (fun _ => 0) 0x00 0x63, Function.update (fun _ => 0) 0x63 0x00⟩

def boxes : Boxes := boxesAfter 255

def fsb : Byte → Word := boxes.fsb

def rsb : Byte → Word := boxes.rsb

/-- Four tables of one family. -/
structure Four where
  t0 : Byte → Word
  t1 : Byte → Word
  t2 : Byte → Word
  t3 : Byte → Word

/-- A table, and its entries rotated once, twice and three times. -/
def Four.rotated (t : Byte → Word) : Four :=
  { t0 := t
    t1 := fun i => rotr8 (t i)
    t2 := fun i => rotr8 (rotr8 (t i))
    t3 := fun i => rotr8 (rotr8 (rotr8 (t i))) }

/-- A table, shifted to each of the four bytes. -/
def Four.shifted (t : Byte → Word) : Four :=
  { t0 := fun i => t i <<< 24
    t1 := fun i => t i <<< 16
    t2 := fun i => t i <<< 8
    t3 := t }

/-- An entry of `FT0`. -/
def ft0 (i : Byte) : Word :=
  let x : Byte := (fsb i).setWidth 8
  let y := xtime x
  ((x ^^^ y).setWidth 32 ^^^ (x.setWidth 32 <<< 8) ^^^ (x.setWidth 32 <<< 16) ^^^ (y.setWidth 32 <<< 24))
    &&& (0xFFFFFFFF : Word)

/-- An entry of `RT0`. -/
def rt0 (i : Byte) : Word :=
  let y : Byte := (rsb i).setWidth 8
  ((mul 0x0B y).setWidth 32 ^^^ ((mul 0x0D y).setWidth 32 <<< 8) ^^^ ((mul 0x09 y).setWidth 32 <<< 16) ^^^
    ((mul 0x0E y).setWidth 32 <<< 24)) &&& (0xFFFFFFFF : Word)

/-- `FT0` to `FT3`. -/
def ft : Four := .rotated ft0

/-- `RT0` to `RT3`. -/
def rt : Four := .rotated rt0

/-- `KT0` to `KT3`. -/
def kt : Four :=
  { t0 := fun i => rt.t0 ((fsb i).setWidth 8)
    t1 := fun i => rt.t1 ((fsb i).setWidth 8)
    t2 := fun i => rt.t2 ((fsb i).setWidth 8)
    t3 := fun i => rt.t3 ((fsb i).setWidth 8) }

/-! ### `aes_set_key` -/

/-- `GET_UINT32`. -/
def getUint32 (b₀ b₁ b₂ b₃ : UInt8) : Word :=
  (b₀.toBitVec.setWidth 32 <<< 24) ||| (b₁.toBitVec.setWidth 32 <<< 16) |||
    (b₂.toBitVec.setWidth 32 <<< 8) ||| b₃.toBitVec.setWidth 32

/-- One entry of each table, by the bytes of `a`, `b`, `c` and `d`. -/
def Four.look (t : Four) (a b c d : Word) : Word :=
  t.t0 ((a >>> 24).setWidth 8) ^^^ t.t1 ((b >>> 16).setWidth 8) ^^^ t.t2 ((c >>> 8).setWidth 8) ^^^
    t.t3 (d.setWidth 8)

/-- `aes_context`. -/
structure Context where
  erk : List Word
  drk : List Word
  nr : ℕ

/-- The four terms with `FSb` of the first word of a turn. -/
def rotSub (x : Word) : Word :=
  (fsb ((x >>> 16).setWidth 8) <<< 24) ^^^ (fsb ((x >>> 8).setWidth 8) <<< 16) ^^^
    (fsb (x.setWidth 8) <<< 8) ^^^ fsb ((x >>> 24).setWidth 8)

/-- A turn of the loop for 128 bits: `RK` is at `4 * i`. -/
def expand128 (erk : List Word) (i : ℕ) : List Word :=
  let RK := fun j => erk.getD (4 * i + j) 0
  let w₄ := RK 0 ^^^ rcon.getD i 0 ^^^ rotSub (RK 3)
  let w₅ := RK 1 ^^^ w₄
  let w₆ := RK 2 ^^^ w₅
  let w₇ := RK 3 ^^^ w₆
  erk ++ [w₄, w₅, w₆, w₇]

/-- A turn of the loop for 192 bits: `RK` is at `6 * i`. -/
def expand192 (erk : List Word) (i : ℕ) : List Word :=
  let RK := fun j => erk.getD (6 * i + j) 0
  let w₆ := RK 0 ^^^ rcon.getD i 0 ^^^ rotSub (RK 5)
  let w₇ := RK 1 ^^^ w₆
  let w₈ := RK 2 ^^^ w₇
  let w₉ := RK 3 ^^^ w₈
  let w₁₀ := RK 4 ^^^ w₉
  let w₁₁ := RK 5 ^^^ w₁₀
  erk ++ [w₆, w₇, w₈, w₉, w₁₀, w₁₁]

/-- A turn of the loop for 256 bits: `RK` is at `8 * i`. -/
def expand256 (erk : List Word) (i : ℕ) : List Word :=
  let RK := fun j => erk.getD (8 * i + j) 0
  let w₈ := RK 0 ^^^ rcon.getD i 0 ^^^ rotSub (RK 7)
  let w₉ := RK 1 ^^^ w₈
  let w₁₀ := RK 2 ^^^ w₉
  let w₁₁ := RK 3 ^^^ w₁₀
  let w₁₂ := RK 4 ^^^ (Four.shifted fsb).look w₁₁ w₁₁ w₁₁ w₁₁
  let w₁₃ := RK 5 ^^^ w₁₂
  let w₁₄ := RK 6 ^^^ w₁₃
  let w₁₅ := RK 7 ^^^ w₁₄
  erk ++ [w₈, w₉, w₁₀, w₁₁, w₁₂, w₁₃, w₁₄, w₁₅]

/-- The first `n` words of `erk`, read from the key. -/
def keyWords (key : List UInt8) (n : ℕ) : List Word :=
  (List.range n).map fun i =>
    getUint32 (key.getD (4 * i) 0) (key.getD (4 * i + 1) 0) (key.getD (4 * i + 2) 0) (key.getD (4 * i + 3) 0)

/-- Four words from `RK` on. -/
def fourWords (erk : List Word) (RK : ℕ) : List Word :=
  [erk.getD RK 0, erk.getD (RK + 1) 0, erk.getD (RK + 2) 0, erk.getD (RK + 3) 0]

/-- A word of `drk` between the first and the last four. -/
def invWord (x : Word) : Word := kt.look x x x x

/-- The loop over the middle of `drk`, `n` turns from `RK` on: also where `RK` is after it. -/
def drkLoop (erk : List Word) : ℕ → ℕ → List Word × ℕ
  | 0, RK => ([], RK)
  | n + 1, RK =>
    let out := drkLoop erk n (RK - 8 + 4)
    ((fourWords erk (RK - 8)).map invWord ++ out.1, out.2)

/-- The round keys for decryption, from those for encryption with `RK` where the expansion left it. -/
def decryptionKeys (erk : List Word) (nr RK : ℕ) : List Word :=
  let out := drkLoop erk (nr - 1) (RK + 4)
  fourWords erk RK ++ out.1 ++ fourWords erk (out.2 - 8)

/-- **`aes_set_key`**; `none` is a return of `1`. -/
def aesSetKey (key : List UInt8) (nbits : ℤ) : Option Context :=
  if nbits = 128 then
    let erk := (List.range 10).foldl expand128 (keyWords key 4)
    some { erk, drk := decryptionKeys erk 10 40, nr := 10 }
  else if nbits = 192 then
    let erk := (List.range 8).foldl expand192 (keyWords key 6)
    some { erk, drk := decryptionKeys erk 12 48, nr := 12 }
  else if nbits = 256 then
    let erk := (List.range 7).foldl expand256 (keyWords key 8)
    some { erk, drk := decryptionKeys erk 14 56, nr := 14 }
  else none

/-! ### `aes_encrypt` and `aes_decrypt` -/

/-- `X0` to `X3`, or `Y0` to `Y3`. -/
@[ext]
structure Cols where
  x₀ : Word
  x₁ : Word
  x₂ : Word
  x₃ : Word
  deriving DecidableEq, Repr

/-- `RK[0]` to `RK[3]`. -/
def roundKey (keys : List Word) (RK : ℕ) : Cols :=
  ⟨keys.getD RK 0, keys.getD (RK + 1) 0, keys.getD (RK + 2) 0, keys.getD (RK + 3) 0⟩

/-- `AES_FROUND`, and the last round of `aes_encrypt` with its shifts. -/
def fround (t : Four) (y k : Cols) : Cols :=
  { x₀ := k.x₀ ^^^ t.look y.x₀ y.x₁ y.x₂ y.x₃
    x₁ := k.x₁ ^^^ t.look y.x₁ y.x₂ y.x₃ y.x₀
    x₂ := k.x₂ ^^^ t.look y.x₂ y.x₃ y.x₀ y.x₁
    x₃ := k.x₃ ^^^ t.look y.x₃ y.x₀ y.x₁ y.x₂ }

/-- `AES_RROUND`, and the last round of `aes_decrypt` with its shifts. -/
def rround (t : Four) (y k : Cols) : Cols :=
  { x₀ := k.x₀ ^^^ t.look y.x₀ y.x₃ y.x₂ y.x₁
    x₁ := k.x₁ ^^^ t.look y.x₁ y.x₀ y.x₃ y.x₂
    x₂ := k.x₂ ^^^ t.look y.x₂ y.x₁ y.x₀ y.x₃
    x₃ := k.x₃ ^^^ t.look y.x₃ y.x₂ y.x₁ y.x₀ }

/-- How many rounds come before the last: nine, and two for each of the tests of `nr`. -/
def innerRounds (nr : ℕ) : ℕ := 9 + (if nr > 10 then 2 else 0) + if nr > 12 then 2 else 0

/-- The block read into words, with the first round key. -/
def firstCols (k : Cols) (input : Block) : Cols :=
  { x₀ := getUint32 (input 0) (input 1) (input 2) (input 3) ^^^ k.x₀
    x₁ := getUint32 (input 4) (input 5) (input 6) (input 7) ^^^ k.x₁
    x₂ := getUint32 (input 8) (input 9) (input 10) (input 11) ^^^ k.x₂
    x₃ := getUint32 (input 12) (input 13) (input 14) (input 15) ^^^ k.x₃ }

/-- A byte as `PUT_UINT32` stores it. -/
def putByte (x : Word) (n : ℕ) : UInt8 := .ofBitVec ((x >>> n).setWidth 8)

/-- The words written to the output. -/
def Cols.put (x : Cols) : Block :=
  ![putByte x.x₀ 24, putByte x.x₀ 16, putByte x.x₀ 8, putByte x.x₀ 0,
    putByte x.x₁ 24, putByte x.x₁ 16, putByte x.x₁ 8, putByte x.x₁ 0,
    putByte x.x₂ 24, putByte x.x₂ 16, putByte x.x₂ 8, putByte x.x₂ 0,
    putByte x.x₃ 24, putByte x.x₃ 16, putByte x.x₃ 8, putByte x.x₃ 0]

/-- The body the two directions share, for the rounds and the last round. -/
def rounds (round last : Cols → Cols → Cols) (keys : List Word) (nr : ℕ) (input : Block) : Block :=
  let n := innerRounds nr
  let x := (List.range n).foldl (fun y i => round y (roundKey keys (4 * (i + 1))))
    (firstCols (roundKey keys 0) input)
  (last x (roundKey keys (4 * (n + 1)))).put

/-- **`aes_encrypt`.** -/
def aesEncrypt (ctx : Context) (input : Block) : Block :=
  rounds (fround ft) (fround (.shifted fsb)) ctx.erk ctx.nr input

/-- **`aes_decrypt`.** -/
def aesDecrypt (ctx : Context) (input : Block) : Block :=
  rounds (rround rt) (rround (.shifted rsb)) ctx.drk ctx.nr input

end Waveplay.RaopPlay.Aes
