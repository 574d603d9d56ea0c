import Waveplay.Lib.Trim
import Waveplay.Lib.Wrap
import Waveplay.RaopPlay.Base64

/-! # `AirtunesSpeaker.base64encode`

The encoder of the Java side counts the characters it has written against the length that the text without
filling has, appends signs or spaces for those beyond it, and trims the spaces off.

* `base64encode_eq`: its texts, in the digits of the bytes.
* `encoders_agree`: the same texts as those of `base64.c`. -/

namespace Waveplay.Airtunes.Base64

open Waveplay.Lib.Sextets Waveplay.Lib.Trim Waveplay.Lib.Wrap
open Waveplay.RaopPlay.AexclLib (Bytes)
open Waveplay.RaopPlay.Base64

abbrev Text := List Char

def alphabet : Text := "ABCDEFGHIJKLMNOPQRSTUVWXYZabcdefghijklmnopqrstuvwxyz0123456789+/".toList

/-- `chars.charAt(n)` -/
def charAt (n : ℕ) : Char := alphabet.getD n ' '

/-- The sign for a character beyond `olen`. -/
def filling (addequals : Bool) : Char := if addequals then '=' else ' '

/-- The loop from `i` on, with the text `sb` so far. -/
def encodeLoop (bytes : Bytes) (olen : ℤ) (addequals : Bool) (i : ℕ) (sb : Text) : Text :=
  if i < bytes.length then
    let i0 := (bytes.getD i 0).toNat
    let i1 := if i + 1 < bytes.length then (bytes.getD (i + 1) 0).toNat else 0
    let j := if i + 1 < bytes.length then i + 2 else i + 1
    let i2 := if j < bytes.length then (bytes.getD j 0).toNat else 0
    let k := if j < bytes.length then j + 1 else j
    let o0 := i0 >>> 2
    let o1 := (i0 &&& 3) <<< 4 ||| i1 >>> 4
    let o2 := (i1 &&& 0xf) <<< 2 ||| i2 >>> 6
    let o3 := i2 &&& 0x3f
    let sb := sb ++ [charAt o0] ++ [charAt o1]
    let sb := sb ++ [if sb.length < olen then charAt o2 else filling addequals]
    let sb := sb ++ [if sb.length < olen then charAt o3 else filling addequals]
    encodeLoop bytes olen addequals k sb
  else sb
termination_by bytes.length - i
decreasing_by
  split_ifs <;> omega

/-- **`base64encode`**. -/
def base64encode (bytes : Bytes) (addequals : Bool) : Text :=
  let olen := (toInt (toInt (bytes.length * 4) + 2)).tdiv 3
  trim (· ≤ ' ') (encodeLoop bytes olen addequals 0 [])

/-! ### The loop -/

theorem digits_eq (a : ℕ) {b c : ℕ} (hb : b < 256) (hc : c < 256) :
    a >>> 2 = a / 4 ∧ (a &&& 3) <<< 4 ||| b >>> 4 = a % 4 * 16 + b / 16 ∧
      (b &&& 0xf) <<< 2 ||| c >>> 6 = b % 16 * 4 + c / 64 ∧ c &&& 0x3f = c % 64 := by
  have h3 : a &&& 3 = a % 4 := Nat.and_two_pow_sub_one_eq_mod a 2
  have hf : b &&& 0xf = b % 16 := Nat.and_two_pow_sub_one_eq_mod b 4
  have h3f : c &&& 0x3f = c % 64 := Nat.and_two_pow_sub_one_eq_mod c 6
  have hb4 : b >>> 4 = b / 16 := Nat.shiftRight_eq_div_pow b 4
  have hc6 : c >>> 6 = c / 64 := Nat.shiftRight_eq_div_pow c 6
  refine ⟨Nat.shiftRight_eq_div_pow a 2, ?_, ?_, h3f⟩
  · rw [h3, hb4, ← Nat.shiftLeft_add_eq_or_of_lt (by omega), Nat.shiftLeft_eq]
  · rw [hf, hc6, ← Nat.shiftLeft_add_eq_or_of_lt (by omega), Nat.shiftLeft_eq]

/-- The characters for a group of three bytes behind a text of length `n`. -/
def group (olen : ℤ) (addequals : Bool) (n : ℕ) (x y z : UInt8) : Text :=
  [charAt (x.toNat / 4), charAt (x.toNat % 4 * 16 + y.toNat / 16),
    if (n + 2 : ℕ) < olen then charAt (y.toNat % 16 * 4 + z.toNat / 64) else filling addequals,
    if (n + 3 : ℕ) < olen then charAt (z.toNat % 64) else filling addequals]

theorem encodeLoop_group {bytes rest : Bytes} {i : ℕ} {x : UInt8} (h : bytes.drop i = x :: rest) (olen : ℤ)
    (addequals : Bool) (sb : Text) : encodeLoop bytes olen addequals i sb =
      encodeLoop bytes olen addequals (min (i + 3) bytes.length)
        (sb ++ group olen addequals sb.length x (rest.getD 0 0) (rest.getD 1 0)) := by
  have hlength := length_of_drop h
  have hx : bytes.getD i 0 = x := getD_of_drop h 0 0
  have hy : (if i + 1 < bytes.length then (bytes.getD (i + 1) 0).toNat else 0) = (rest.getD 0 0).toNat := by
    have hadd := add_getD bytes 0 (i + 1)
    rw [Nat.zero_add] at hadd
    exact hadd.trans (congrArg UInt8.toNat (getD_of_drop h 1 0))
  have hz : (if (if i + 1 < bytes.length then i + 2 else i + 1) < bytes.length then
      (bytes.getD (if i + 1 < bytes.length then i + 2 else i + 1) 0).toNat else 0) = (rest.getD 1 0).toNat := by
    by_cases hlt : i + 1 < bytes.length
    · have hadd := add_getD bytes 0 (i + 2)
      rw [Nat.zero_add] at hadd
      rw [if_pos hlt]
      exact hadd.trans (congrArg UInt8.toNat (getD_of_drop h 2 0))
    · rw [if_neg hlt, if_neg hlt, List.getD_eq_default _ _ (by omega)]
      rfl
  have hk : (if (if i + 1 < bytes.length then i + 2 else i + 1) < bytes.length then
      (if i + 1 < bytes.length then i + 2 else i + 1) + 1
      else if i + 1 < bytes.length then i + 2 else i + 1) = min (i + 3) bytes.length := by
    split_ifs <;> omega
  obtain ⟨h0, h1, h2, h3⟩ := digits_eq x.toNat (rest.getD 0 0).toNat_lt (rest.getD 1 0).toNat_lt
  rw [encodeLoop, if_pos (by omega)]
  dsimp only
  rw [hx, hy, hz, hk, h0, h1, h2, h3]
  simp only [group, List.append_assoc, List.length_append, List.length_cons, List.length_nil, Nat.zero_add,
    Nat.reduceAdd, List.cons_append, List.nil_append]

theorem encodeLoop_end {bytes : Bytes} {i : ℕ} (h : bytes.length ≤ i) (olen : ℤ) (addequals : Bool)
    (sb : Text) : encodeLoop bytes olen addequals i sb = sb := by
  rw [encodeLoop, if_neg (by omega)]

/-- **The loop**, at the start of a group, for the length that the text without filling has. -/
theorem encodeLoop_eq (bytes : Bytes) {olen : ℤ} (holen : olen = ((4 * bytes.length + 2) / 3 : ℕ))
    (addequals : Bool) (m : ℕ) (sb : Text) (hsb : sb.length = 4 * m) :
    encodeLoop bytes olen addequals (3 * m) sb =
      sb ++ spellPadded charAt (filling addequals) (bytes.drop (3 * m)) := by
  rcases hrest : bytes.drop (3 * m) with _ | ⟨x, rest⟩
  · have hle := List.drop_eq_nil_iff.mp hrest
    rw [encodeLoop_end hle, spellPadded_nil, List.append_nil]
  · have hlength := length_of_drop hrest
    rw [encodeLoop_group hrest]
    rcases rest with _ | ⟨y, _ | ⟨z, l⟩⟩
    · rw [List.length_nil] at hlength
      have hgroup : group olen addequals sb.length x 0 0 = spellPadded charAt (filling addequals) [x] := by
        rw [group, if_neg (by omega), if_neg (by omega), spellPadded_one, UInt8.toNat_zero, Nat.zero_div,
          Nat.add_zero]
      have hend : bytes.length ≤ min (3 * m + 3) bytes.length := by omega
      rw [encodeLoop_end hend, List.getD_nil, List.getD_nil, hgroup]
    · rw [List.length_singleton] at hlength
      have hgroup : group olen addequals sb.length x y 0 = spellPadded charAt (filling addequals) [x, y] := by
        rw [group, if_pos (by omega), if_neg (by omega), spellPadded_two, UInt8.toNat_zero, Nat.zero_div,
          Nat.add_zero]
      have hend : bytes.length ≤ min (3 * m + 3) bytes.length := by omega
      rw [encodeLoop_end hend, List.getD_cons_zero, List.getD_cons_succ, List.getD_nil, hgroup]
    · rw [List.length_cons, List.length_cons] at hlength
      have hgroup : sb ++ group olen addequals sb.length x y z ++ spellPadded charAt (filling addequals) l =
          sb ++ spellPadded charAt (filling addequals) (x :: y :: z :: l) := by
        rw [group, if_pos (by omega), if_pos (by omega), spellPadded_three]
        simp
      have hmin : min (3 * m + 3) bytes.length = 3 * (m + 1) := by omega
      have hdrop : bytes.drop (3 * (m + 1)) = l := by
        rw [Nat.mul_succ, ← List.drop_drop, hrest]
        rfl
      have hnext : (sb ++ group olen addequals sb.length x y z).length = 4 * (m + 1) := by
        rw [List.length_append, hsb]
        rfl
      rw [hmin, List.getD_cons_zero, List.getD_cons_succ, List.getD_cons_zero,
        encodeLoop_eq bytes holen addequals (m + 1) _ hnext, hdrop, hgroup]
termination_by bytes.length - 3 * m

/-! ### The texts -/

theorem charAt_visible {d : ℕ} (hd : d < 64) : ¬ charAt d ≤ ' ' := by
  have hall : ∀ d : Fin 64, ¬ charAt d ≤ ' ' := by decide +kernel
  exact hall ⟨d, hd⟩

theorem visible_spell {bytes : Bytes} : ∀ c ∈ spell charAt bytes, ¬ c ≤ ' ' := by
  intro c hc
  obtain ⟨d, hd, rfl⟩ := List.mem_map.mp hc
  exact charAt_visible (sextets_lt d hd)

theorem visible_spellPadded (bytes : Bytes) : ∀ c ∈ spellPadded charAt '=' bytes, ¬ c ≤ ' ' := by
  intro c hc
  rcases List.mem_append.mp hc with hc | hc
  · exact visible_spell c hc
  · rw [List.eq_of_mem_replicate hc]
    decide

theorem trim_visible {t : Text} (ht : ∀ c ∈ t, ¬ c ≤ ' ') {k : ℕ} (hk : t = [] → k = 0) :
    trim (· ≤ ' ') (t ++ List.replicate k ' ') = t := by
  by_cases hnil : t = []
  · rw [hnil, hk hnil]
    rfl
  · exact trim_replicate rfl hnil (fun c hc => decide_eq_false (ht c (List.mem_of_mem_head? hc)))
      (fun c hc => decide_eq_false (ht c (List.mem_of_getLast? hc))) 0 k

theorem missing_of_spell_nil {bytes : Bytes} (h : spell charAt bytes = []) : missing bytes.length = 0 := by
  have hlength := congrArg List.length h
  rw [spell, List.length_map, length_sextets, List.length_nil] at hlength
  unfold missing
  omega

/-- **`base64encode`** writes the digits of the bytes, with the signs that fill the last group or without. -/
theorem base64encode_eq {bytes : Bytes} (hlen : 4 * bytes.length + 2 < 2 ^ 31) :
    base64encode bytes true = spellPadded charAt '=' bytes ∧ base64encode bytes false = spell charAt bytes := by
  have holen : (toInt (toInt (bytes.length * 4) + 2)).tdiv 3 = ((4 * bytes.length + 2) / 3 : ℕ) := by
    have hfour : toInt (bytes.length * 4) = bytes.length * 4 := toInt_of_bounds (by omega) (by omega)
    rw [hfour, toInt_of_bounds (by omega) (by omega), Int.tdiv_eq_ediv_of_nonneg (by omega)]
    omega
  have hloop (addequals : Bool) : encodeLoop bytes _ addequals 0 [] =
      spellPadded charAt (filling addequals) bytes := encodeLoop_eq bytes holen addequals 0 [] rfl
  have hencode (addequals : Bool) : base64encode bytes addequals =
      trim (· ≤ ' ') (spellPadded charAt (filling addequals) bytes) :=
    congrArg (trim (· ≤ ' ')) (hloop addequals)
  constructor
  · have htrim := trim_visible (visible_spellPadded bytes) (k := 0) (fun _ => rfl)
    rw [List.replicate_zero, List.append_nil] at htrim
    exact (hencode true).trans htrim
  · exact (hencode false).trans (trim_visible visible_spell missing_of_spell_nil)

/-! ### Both sides -/

/-- The characters of a text in bytes. -/
def chars (s : Bytes) : Text := s.map fun c => Char.ofNat c.toNat

theorem chars_spell (bytes : Bytes) : chars (spell charOf bytes) = spell charAt bytes := by
  have hall : ∀ d : Fin 64, Char.ofNat (charOf d).toNat = charAt d := by decide +kernel
  rw [chars, spell, List.map_map]
  exact List.map_congr_left fun d hd => hall ⟨d, sextets_lt d hd⟩

theorem chars_spellPadded (bytes : Bytes) :
    chars (spellPadded charOf EQUALS bytes) = spellPadded charAt '=' bytes := by
  have hsign : Char.ofNat EQUALS.toNat = '=' := by decide
  have happend : chars (spellPadded charOf EQUALS bytes) = chars (spell charOf bytes) ++
      chars (List.replicate (missing bytes.length) EQUALS) := List.map_append
  have hfill : chars (List.replicate (missing bytes.length) EQUALS) =
      List.replicate (missing bytes.length) '=' := by
    rw [chars, List.map_replicate, hsign]
  rw [happend, chars_spell, hfill, spellPadded]

/-- **The encoders agree and can be reversed**: the text of `base64_encode`, with `junk` behind it in memory,
and what `remove_char_from_string` leaves of it. -/
theorem encoders_agree (bytes junk : Bytes) (hlen : 4 * bytes.length + 2 < 2 ^ 31) :
    let text := base64Encode bytes
    let out := removeCharFromString (text ++ 0 :: junk) EQUALS
    base64encode bytes false = chars (string out.2) ∧
      base64encode bytes true = chars text ∧
      (out.1 = text.count EQUALS ∧ out.1 + (string out.2).length = text.length) ∧
      base64Decode (fillUp (string out.2)) = some bytes := by
  obtain ⟨htrue, hfalse⟩ := base64encode_eq hlen
  have htext := base64Encode_eq bytes
  have hout := removeCharFromString_eq (zero_not_mem_spellPadded bytes) junk EQUALS
  rw [filter_spellPadded] at hout
  have hstring := string_append (zero_not_mem_spell bytes)
    (List.replicate ((spellPadded charOf EQUALS bytes).count EQUALS) 0 ++ junk)
  dsimp only
  rw [htext, hout, hstring, htrue, hfalse, chars_spell, chars_spellPadded, fillUp_spell]
  refine ⟨rfl, rfl, ⟨rfl, ?_⟩, base64Decode_spellPadded bytes⟩
  rw [count_spellPadded, spellPadded, List.length_append, List.length_replicate, Nat.add_comm]

/-- Four bytes: two signs are deleted. -/
theorem encoders_agree_four : base64encode [1, 2, 3, 255] true = chars (base64Encode [1, 2, 3, 255]) ∧
    base64Decode (fillUp (string (removeCharFromString (base64Encode [1, 2, 3, 255] ++ [0]) EQUALS).2)) =
      some [1, 2, 3, 255] := by
  have h := encoders_agree [1, 2, 3, 255] [] (by decide)
  exact ⟨h.2.1, h.2.2.2⟩

end Waveplay.Airtunes.Base64
