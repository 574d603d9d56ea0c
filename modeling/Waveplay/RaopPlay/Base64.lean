import Waveplay.Lib.Bits
import Waveplay.Lib.Sextets
import Waveplay.RaopPlay.AexclLib

/-! # `base64.c`, and `remove_char_from_string`

`base64_encode` works on groups of three bytes with an index that runs past the end of the data, and puts
the signs that fill the last group over digits it has written. `base64_decode` takes tokens of four
characters. Memory with a string in it is a list of bytes with a zero behind the string.

* `base64Encode_eq`: the text, in the digits of the bytes.
* `base64Decode_spellPadded`: the bytes back from the text.
* `removeCharFromString_eq`: what the deletion leaves in memory. -/

namespace Waveplay.RaopPlay.Base64

open Waveplay.Lib.Bits (mask_shiftRight)
open Waveplay.Lib.Sextets Waveplay.RaopPlay.AexclLib

def base64Chars : Bytes := ascii "ABCDEFGHIJKLMNOPQRSTUVWXYZabcdefghijklmnopqrstuvwxyz0123456789+/"

def EQUALS : UInt8 := 61

/-! ### Encoding -/

/-- `base64_chars[n]` -/
def charOf (n : ℕ) : UInt8 := base64Chars.getD n 0

/-- The loop from `i` on. -/
def encodeFrom (q : Bytes) (i : ℕ) : Bytes :=
  if i < q.length then
    let c := (q.getD i 0).toNat * 256
    let c := (if i + 1 < q.length then c + (q.getD (i + 1) 0).toNat else c) * 256
    let c := if i + 2 < q.length then c + (q.getD (i + 2) 0).toNat else c
    let p3 := if q.length < i + 3 then EQUALS else charOf ((c &&& 0x0000003f) >>> 0)
    let p2 := if q.length + 1 < i + 3 then EQUALS else charOf ((c &&& 0x00000fc0) >>> 6)
    charOf ((c &&& 0x00fc0000) >>> 18) :: charOf ((c &&& 0x0003f000) >>> 12) :: p2 :: p3 ::
      encodeFrom q (i + 3)
  else []
termination_by q.length - i

/-- **`base64_encode`**. -/
def base64Encode (data : Bytes) : Bytes := encodeFrom data 0

/-! ### Decoding -/

def pos (c : UInt8) : ℤ :=
  match base64Chars.idxOf? c with
  | some i => i
  | none => -1

def DECODE_ERROR : ℕ := 0xffffffff

/-- The loop of `token_decode`; `none` is a return with `DECODE_ERROR`. -/
def tokenLoop : Bytes → ℕ → ℕ → Option (ℕ × ℕ)
  | [], val, marker => some (val, marker)
  | c :: token, val, marker =>
    if c = EQUALS then tokenLoop token (val * 64 % 2 ^ 32) (marker + 1)
    else if 0 < marker then none
    else tokenLoop token ((val * 64 + (pos c % 2 ^ 32).toNat) % 2 ^ 32) marker

def tokenDecode (token : Bytes) : ℕ :=
  if token.length < 4 then DECODE_ERROR
  else
    match tokenLoop (token.take 4) 0 0 with
    | none => DECODE_ERROR
    | some (val, marker) => if 2 < marker then DECODE_ERROR else marker <<< 24 ||| val

/-- **`base64_decode`**; `none` is a return of `-1`. -/
def base64Decode (str : Bytes) : Option Bytes :=
  match str with
  | [] => some []
  | c :: cs =>
    if c = EQUALS ∨ base64Chars.contains c then
      let val := tokenDecode (c :: cs)
      let marker := (val >>> 24) &&& 0xff
      if val = DECODE_ERROR then none
      else
        (base64Decode (cs.drop 3)).map fun out =>
          UInt8.ofNat ((val >>> 16) &&& 0xff) ::
            ((if marker < 2 then [UInt8.ofNat ((val >>> 8) &&& 0xff)] else []) ++
              (if marker < 1 then [UInt8.ofNat (val &&& 0xff)] else []) ++ out)
    else some []
termination_by str.length
decreasing_by
  rw [List.length_drop, List.length_cons]
  omega

/-! ### Deleting a character -/

/-- The string in memory. -/
def string (mem : Bytes) : Bytes := mem.takeWhile (· ≠ 0)

/-- The loop that moves the rest of the string down. -/
def shiftDown (str : Bytes) (j len : ℕ) : Bytes :=
  if j < len then shiftDown (str.set j (str.getD (j + 1) 0)) (j + 1) len else str
termination_by len - j

/-- The outer loop. -/
def removeLoop (rc : UInt8) (str : Bytes) (i len num : ℕ) : ℕ × Bytes :=
  if i < len then
    if str.getD i 0 = rc then removeLoop rc (shiftDown str i len) i (len - 1) (num + 1)
    else removeLoop rc str (i + 1) len num
  else (num, str)
termination_by len - i

/-- **`remove_char_from_string`**: the return value, and memory then. -/
def removeCharFromString (str : Bytes) (rc : UInt8) : ℕ × Bytes :=
  removeLoop rc str 0 (string str).length 0

/-! ### What the deletion leaves -/

theorem shiftDown_eq (z : UInt8) (junk : Bytes) : ∀ (l done : Bytes) (x : UInt8),
    shiftDown (done ++ x :: (l ++ z :: junk)) done.length (done.length + (l.length + 1)) =
      done ++ (l ++ z :: z :: junk)
  | [], done, x => by
    have hnext : (done ++ x :: z :: junk).getD (done.length + 1) 0 = z := by
      rw [List.getD_append_right _ _ _ _ (by omega), Nat.add_sub_cancel_left]
      rfl
    rw [shiftDown, if_pos (by omega), List.nil_append, hnext, List.set_append_right _ _ (by omega),
      Nat.sub_self, List.set_cons_zero, shiftDown, if_neg (by simp)]
    rfl
  | y :: l, done, x => by
    have hnext : (done ++ x :: (y :: l ++ z :: junk)).getD (done.length + 1) 0 = y := by
      rw [List.getD_append_right _ _ _ _ (by omega), Nat.add_sub_cancel_left]
      rfl
    have hmoved : done ++ y :: (y :: l ++ z :: junk) = done ++ [y] ++ y :: (l ++ z :: junk) := by simp
    have hlength : (done ++ [y]).length = done.length + 1 := List.length_append
    have ih := shiftDown_eq z junk l (done ++ [y]) y
    rw [hlength] at ih
    have hlen : done.length + ((y :: l).length + 1) = done.length + 1 + (l.length + 1) := by
      rw [List.length_cons]
      omega
    rw [shiftDown, if_pos (by omega), hnext, List.set_append_right _ _ (by omega), Nat.sub_self,
      List.set_cons_zero, hmoved, hlen, ih]
    simp

theorem removeLoop_eq (rc : UInt8) : ∀ (l done junk : Bytes) (num : ℕ),
    removeLoop rc (done ++ (l ++ 0 :: junk)) done.length (done.length + l.length) num =
      (num + l.count rc, done ++ (l.filter (· ≠ rc) ++ 0 :: (List.replicate (l.count rc) 0 ++ junk)))
  | [], done, junk, num => by
    rw [removeLoop, if_neg (by simp)]
    simp
  | c :: l, done, junk, num => by
    have hhere : (done ++ (c :: l ++ 0 :: junk)).getD done.length 0 = c := by
      rw [List.getD_append_right _ _ _ _ (by omega), Nat.sub_self]
      rfl
    rw [removeLoop, if_pos (by simp), hhere]
    split_ifs with hc
    · subst hc
      have hlen : done.length + (c :: l).length - 1 = done.length + l.length := by
        rw [List.length_cons]
        omega
      have ih := removeLoop_eq c l done (0 :: junk) (num + 1)
      rw [hlen, List.length_cons, List.cons_append, shiftDown_eq, ih, List.count_cons_self,
        List.filter_cons_of_neg (by simp), List.replicate_succ', List.append_assoc, Nat.add_right_comm]
      rfl
    · have hmem : done ++ (c :: l ++ 0 :: junk) = done ++ [c] ++ (l ++ 0 :: junk) := by simp
      have hlen : done.length + (c :: l).length = (done ++ [c]).length + l.length := by
        rw [List.length_append, List.length_singleton, List.length_cons]
        omega
      have ih := removeLoop_eq rc l (done ++ [c]) junk num
      rw [List.length_append, List.length_singleton] at ih hlen
      rw [hmem, hlen, ih, List.count_cons_of_ne hc, List.filter_cons_of_pos (by simpa using hc)]
      simp

theorem string_append {s : Bytes} (hs : 0 ∉ s) (junk : Bytes) : string (s ++ 0 :: junk) = s := by
  have hpos : ∀ c ∈ s, decide (c ≠ 0) = true := by
    intro c hc
    exact decide_eq_true fun hzero => hs (hzero ▸ hc)
  rw [string, List.takeWhile_append_of_pos hpos, List.takeWhile_cons_of_neg (by decide), List.append_nil]

/-- **`remove_char_from_string`** deletes every such character and returns how many there were. -/
theorem removeCharFromString_eq {s : Bytes} (hs : 0 ∉ s) (junk : Bytes) (rc : UInt8) :
    removeCharFromString (s ++ 0 :: junk) rc =
      (s.count rc, s.filter (· ≠ rc) ++ 0 :: (List.replicate (s.count rc) 0 ++ junk)) := by
  have hloop := removeLoop_eq rc s [] junk 0
  rw [List.length_nil, Nat.zero_add, Nat.zero_add] at hloop
  rw [removeCharFromString, string_append hs]
  exact hloop

/-! ### The text -/

/-- The alphabet: different characters, neither `=` nor zero. -/
theorem base64Chars_ok :
    base64Chars.length = 64 ∧ base64Chars.Nodup ∧ EQUALS ∉ base64Chars ∧ 0 ∉ base64Chars := by
  decide +kernel

theorem charOf_eq {d : ℕ} (hd : d < base64Chars.length) : charOf d = base64Chars[d] :=
  List.getD_eq_getElem base64Chars 0 hd

theorem charOf_mem {d : ℕ} (hd : d < 64) : charOf d ∈ base64Chars := by
  have hlt : d < base64Chars.length := Nat.lt_of_lt_of_eq hd base64Chars_ok.1.symm
  rw [charOf_eq hlt]
  exact List.getElem_mem hlt

theorem charOf_ne {d : ℕ} (hd : d < 64) : charOf d ≠ EQUALS ∧ charOf d ≠ 0 := by
  obtain ⟨-, -, hequals, hzero⟩ := base64Chars_ok
  exact ⟨ne_of_mem_of_not_mem (charOf_mem hd) hequals, ne_of_mem_of_not_mem (charOf_mem hd) hzero⟩

theorem pos_charOf {d : ℕ} (hd : d < 64) : pos (charOf d) = d := by
  have hlt : d < base64Chars.length := Nat.lt_of_lt_of_eq hd base64Chars_ok.1.symm
  have hidx : base64Chars.idxOf? (charOf d) = some d := by
    rw [charOf_eq hlt, List.idxOf?_eq_some_iff]
    refine ⟨hlt, rfl, fun j hj heq => ?_⟩
    exact Nat.ne_of_lt hj (base64Chars_ok.2.1.getElem_inj_iff.mp heq)
  unfold pos
  rw [hidx]

theorem masks_eq (c : ℕ) : (c &&& 0x00fc0000) >>> 18 = c / 2 ^ 18 % 64 ∧
    (c &&& 0x0003f000) >>> 12 = c / 2 ^ 12 % 64 ∧ (c &&& 0x00000fc0) >>> 6 = c / 2 ^ 6 % 64 ∧
    (c &&& 0x0000003f) >>> 0 = c % 64 := by
  have h0 : (c &&& 0x0000003f) >>> 0 = c / 2 ^ 0 % 2 ^ 6 := mask_shiftRight c 0 6
  rw [Nat.pow_zero, Nat.div_one] at h0
  exact ⟨mask_shiftRight c 18 6, mask_shiftRight c 12 6, mask_shiftRight c 6 6, h0⟩

theorem add_getD (q : Bytes) (n j : ℕ) :
    (if j < q.length then n + (q.getD j 0).toNat else n) = n + (q.getD j 0).toNat := by
  split_ifs with hj
  · rfl
  · rw [List.getD_eq_default _ _ (by omega)]
    rfl

theorem encodeFrom_drop {q rest : Bytes} {i : ℕ} {x : UInt8} (h : q.drop i = x :: rest) :
    encodeFrom q i =
      let c := (x.toNat * 256 + (rest.getD 0 0).toNat) * 256 + (rest.getD 1 0).toNat
      charOf (c / 2 ^ 18 % 64) :: charOf (c / 2 ^ 12 % 64) ::
        (if rest.length < 1 then EQUALS else charOf (c / 2 ^ 6 % 64)) ::
        (if rest.length < 2 then EQUALS else charOf (c % 64)) :: encodeFrom q (i + 3) := by
  have hlength := length_of_drop h
  have hx : q.getD i 0 = x := getD_of_drop h 0 0
  have hy : q.getD (i + 1) 0 = rest.getD 0 0 := getD_of_drop h 1 0
  have hz : q.getD (i + 2) 0 = rest.getD 1 0 := getD_of_drop h 2 0
  have h2 : q.length + 1 < i + 3 ↔ rest.length < 1 := by omega
  have h3 : q.length < i + 3 ↔ rest.length < 2 := by omega
  rw [encodeFrom, if_pos (by omega)]
  dsimp only
  rw [add_getD, add_getD, hx, hy, hz]
  obtain ⟨hd0, hd1, hd2, hd3⟩ :=
    masks_eq ((x.toNat * 256 + (rest.getD 0 0).toNat) * 256 + (rest.getD 1 0).toNat)
  rw [hd0, hd1, hd2, hd3, if_congr h2 rfl rfl, if_congr h3 rfl rfl]

/-- **`base64_encode`** writes the digits of the bytes, and fills the last group. -/
theorem encodeFrom_eq (q : Bytes) (i : ℕ) : encodeFrom q i = spellPadded charOf EQUALS (q.drop i) := by
  rcases hrest : q.drop i with _ | ⟨x, rest⟩
  · have hle := List.drop_eq_nil_iff.mp hrest
    rw [encodeFrom, if_neg (by omega)]
    rfl
  · have hlength := length_of_drop hrest
    have hnext : encodeFrom q (i + 3) = spellPadded charOf EQUALS (rest.drop 2) := by
      rw [encodeFrom_eq q (i + 3), ← List.drop_drop, hrest]
      rfl
    have hx := x.toNat_lt
    rw [encodeFrom_drop hrest, hnext]
    rcases rest with _ | ⟨y, _ | ⟨z, l⟩⟩
    · have h0 : ((x.toNat * 256 + 0) * 256 + 0) / 2 ^ 18 % 64 = x.toNat / 4 := by omega
      have h1 : ((x.toNat * 256 + 0) * 256 + 0) / 2 ^ 12 % 64 = x.toNat % 4 * 16 := by omega
      rw [spellPadded_one, ← h0, ← h1]
      rfl
    · have hy := y.toNat_lt
      have h0 : ((x.toNat * 256 + y.toNat) * 256 + 0) / 2 ^ 18 % 64 = x.toNat / 4 := by omega
      have h1 : ((x.toNat * 256 + y.toNat) * 256 + 0) / 2 ^ 12 % 64 = x.toNat % 4 * 16 + y.toNat / 16 := by
        omega
      have h2 : ((x.toNat * 256 + y.toNat) * 256 + 0) / 2 ^ 6 % 64 = y.toNat % 16 * 4 := by omega
      have hzero : ([y].getD 1 0).toNat = 0 := rfl
      have hnil : spellPadded charOf EQUALS ([y].drop 2) = [] := spellPadded_nil charOf EQUALS
      rw [spellPadded_two, ← h0, ← h1, ← h2, hzero, hnil]
      rfl
    · have hy := y.toNat_lt
      have hz := z.toNat_lt
      have h0 : ((x.toNat * 256 + y.toNat) * 256 + z.toNat) / 2 ^ 18 % 64 = x.toNat / 4 := by omega
      have h1 : ((x.toNat * 256 + y.toNat) * 256 + z.toNat) / 2 ^ 12 % 64 =
          x.toNat % 4 * 16 + y.toNat / 16 := by omega
      have h2 : ((x.toNat * 256 + y.toNat) * 256 + z.toNat) / 2 ^ 6 % 64 =
          y.toNat % 16 * 4 + z.toNat / 64 := by omega
      have h3 : ((x.toNat * 256 + y.toNat) * 256 + z.toNat) % 64 = z.toNat % 64 := by omega
      rw [spellPadded_three, ← h0, ← h1, ← h2, ← h3]
      rfl
termination_by q.length - i

theorem base64Encode_eq (data : Bytes) : base64Encode data = spellPadded charOf EQUALS data :=
  encodeFrom_eq data 0

/-! ### The bytes back -/

/-- The value of a token of digits with `marker` signs behind them. -/
theorem tokenDecode_eq {token : Bytes} {rest : Bytes} {val marker : ℕ} (hlength : token.length = 4)
    (hloop : tokenLoop token 0 0 = some (val, marker)) (hmarker : marker ≤ 2) (hval : val < 2 ^ 24) :
    tokenDecode (token ++ rest) = marker * 2 ^ 24 + val := by
  rw [tokenDecode, if_neg (by rw [List.length_append]; omega), List.take_left' hlength, hloop]
  dsimp only
  rw [if_neg (by omega), ← Nat.shiftLeft_add_eq_or_of_lt hval, Nat.shiftLeft_eq]

theorem tokenLoop_digit {d : ℕ} (hd : d < 64) (token : Bytes) {val : ℕ} (hval : val < 2 ^ 24) :
    tokenLoop (charOf d :: token) val 0 = tokenLoop token (val * 64 + d) 0 := by
  rw [tokenLoop, if_neg (charOf_ne hd).1, if_neg (by decide), pos_charOf hd]
  congr 1
  omega

theorem tokenLoop_equals (token : Bytes) {val : ℕ} (hval : val < 2 ^ 24) (marker : ℕ) :
    tokenLoop (EQUALS :: token) val marker = tokenLoop token (val * 64) (marker + 1) := by
  rw [tokenLoop, if_pos rfl]
  congr 1
  omega

theorem contains_charOf {d : ℕ} (hd : d < 64) : base64Chars.contains (charOf d) = true :=
  List.contains_iff_mem.mpr (charOf_mem hd)

theorem byte_eq (n k : ℕ) : (n >>> k) &&& 0xff = n / 2 ^ k % 256 := by
  have hmask : (n >>> k) &&& (2 ^ 8 - 1) = (n >>> k) % 2 ^ 8 := Nat.and_two_pow_sub_one_eq_mod (n >>> k) 8
  rw [Nat.shiftRight_eq_div_pow] at hmask ⊢
  exact hmask

theorem ofNat_eq {n : ℕ} {b : UInt8} (h : n = b.toNat) : UInt8.ofNat n = b := by
  rw [h, UInt8.ofNat_toNat]

theorem base64Decode_token {d : ℕ} (hd : d < 64) {b c e : UInt8} {val marker : ℕ}
    (hloop : tokenLoop [charOf d, b, c, e] 0 0 = some (val, marker)) (hmarker : marker ≤ 2)
    (hval : val < 2 ^ 24) (rest : Bytes) :
    base64Decode (charOf d :: b :: c :: e :: rest) = (base64Decode rest).map fun out =>
      UInt8.ofNat (val / 2 ^ 16) ::
        ((if marker < 2 then [UInt8.ofNat (val / 2 ^ 8 % 256)] else []) ++
          (if marker < 1 then [UInt8.ofNat (val % 256)] else []) ++ out) := by
  have htoken : tokenDecode (charOf d :: b :: c :: e :: rest) = marker * 2 ^ 24 + val :=
    tokenDecode_eq rfl hloop hmarker hval
  have herror : marker * 2 ^ 24 + val ≠ DECODE_ERROR := by
    unfold DECODE_ERROR
    omega
  have h24 : ((marker * 2 ^ 24 + val) >>> 24) &&& 0xff = marker := by
    rw [byte_eq]
    omega
  have h16 : ((marker * 2 ^ 24 + val) >>> 16) &&& 0xff = val / 2 ^ 16 := by
    rw [byte_eq]
    omega
  have h8 : ((marker * 2 ^ 24 + val) >>> 8) &&& 0xff = val / 2 ^ 8 % 256 := by
    rw [byte_eq]
    omega
  have h0 : (marker * 2 ^ 24 + val) &&& 0xff = val % 256 := by
    have hbyte := byte_eq (marker * 2 ^ 24 + val) 0
    rw [Nat.shiftRight_zero] at hbyte
    omega
  rw [base64Decode, if_pos (.inr (contains_charOf hd))]
  dsimp only
  rw [htoken, if_neg herror, h24, h16, h8, h0]
  rfl

/-- **Round trip**: `base64_decode` gives back the bytes of a text. -/
theorem base64Decode_spellPadded (l : Bytes) : base64Decode (spellPadded charOf EQUALS l) = some l := by
  induction l using sextets.induct with
  | case1 => rw [spellPadded_nil, base64Decode]
  | case2 a =>
    have ha := a.toNat_lt
    have hloop : tokenLoop [charOf (a.toNat / 4), charOf (a.toNat % 4 * 16), EQUALS, EQUALS] 0 0 =
        some (a.toNat * 2 ^ 16, 2) := by
      rw [tokenLoop_digit (by omega) _ (by decide), tokenLoop_digit (by omega) _ (by omega),
        tokenLoop_equals _ (by omega), tokenLoop_equals _ (by omega), tokenLoop]
      congr 2
      omega
    rw [spellPadded_one, base64Decode_token (by omega) hloop (by decide) (by omega), base64Decode,
      Option.map_some, ofNat_eq (b := a) (by omega)]
    rfl
  | case3 a b =>
    have ha := a.toNat_lt
    have hb := b.toNat_lt
    have hloop : tokenLoop [charOf (a.toNat / 4), charOf (a.toNat % 4 * 16 + b.toNat / 16),
        charOf (b.toNat % 16 * 4), EQUALS] 0 0 = some (a.toNat * 2 ^ 16 + b.toNat * 2 ^ 8, 1) := by
      rw [tokenLoop_digit (by omega) _ (by decide), tokenLoop_digit (by omega) _ (by omega),
        tokenLoop_digit (by omega) _ (by omega), tokenLoop_equals _ (by omega), tokenLoop]
      congr 2
      omega
    rw [spellPadded_two, base64Decode_token (by omega) hloop (by decide) (by omega), base64Decode,
      Option.map_some, ofNat_eq (b := a) (by omega), ofNat_eq (b := b) (by omega)]
    rfl
  | case4 a b c l ih =>
    have ha := a.toNat_lt
    have hb := b.toNat_lt
    have hc := c.toNat_lt
    have hloop : tokenLoop [charOf (a.toNat / 4), charOf (a.toNat % 4 * 16 + b.toNat / 16),
        charOf (b.toNat % 16 * 4 + c.toNat / 64), charOf (c.toNat % 64)] 0 0 =
        some (a.toNat * 2 ^ 16 + b.toNat * 2 ^ 8 + c.toNat, 0) := by
      rw [tokenLoop_digit (by omega) _ (by decide), tokenLoop_digit (by omega) _ (by omega),
        tokenLoop_digit (by omega) _ (by omega), tokenLoop_digit (by omega) _ (by omega), tokenLoop]
      congr 2
      omega
    rw [spellPadded_three, base64Decode_token (by omega) hloop (by decide) (by omega), ih,
      Option.map_some, ofNat_eq (b := a) (by omega), ofNat_eq (b := b) (by omega),
      ofNat_eq (b := c) (by omega)]
    rfl

/-! ### The text without signs -/

theorem mem_spell {l : Bytes} {c : UInt8} (hc : c ∈ spell charOf l) : c ≠ EQUALS ∧ c ≠ 0 := by
  obtain ⟨d, hd, rfl⟩ := List.mem_map.mp hc
  exact charOf_ne (sextets_lt d hd)

theorem count_spell (l : Bytes) : (spell charOf l).count EQUALS = 0 :=
  List.count_eq_zero.mpr fun h => (mem_spell h).1 rfl

theorem filter_spellPadded (l : Bytes) :
    (spellPadded charOf EQUALS l).filter (· ≠ EQUALS) = spell charOf l := by
  have hkeep : (spell charOf l).filter (· ≠ EQUALS) = spell charOf l :=
    List.filter_eq_self.mpr fun c hc => by simpa using (mem_spell hc).1
  rw [spellPadded, List.filter_append, hkeep, List.filter_replicate, if_neg (by decide), List.append_nil]

theorem count_spellPadded (l : Bytes) : (spellPadded charOf EQUALS l).count EQUALS = missing l.length := by
  rw [spellPadded, List.count_append, count_spell, List.count_replicate_self, Nat.zero_add]

theorem zero_not_mem_spell (l : Bytes) : 0 ∉ spell charOf l := fun h => (mem_spell h).2 rfl

theorem zero_not_mem_spellPadded (l : Bytes) : 0 ∉ spellPadded charOf EQUALS l := by
  intro h
  rcases List.mem_append.mp h with h | h
  · exact zero_not_mem_spell l h
  · exact absurd (List.eq_of_mem_replicate h) (by decide)

/-- The text filled up to a multiple of four. -/
def fillUp (s : Bytes) : Bytes := s ++ List.replicate ((4 - s.length % 4) % 4) EQUALS

theorem fillUp_spell (l : Bytes) : fillUp (spell charOf l) = spellPadded charOf EQUALS l := by
  rw [fillUp, missing_eq, spellPadded]

end Waveplay.RaopPlay.Base64
