import Waveplay.Lib.Codec
import Mathlib.Algebra.GroupWithZero.Nat
import Mathlib.Data.Int.Notation
import Mathlib.Data.List.GetD
import Mathlib.Logic.Function.Basic
import Mathlib.Order.Basic

/-! # The streams of `DNSOutgoing` and `DNSIncoming`

`MessageOutputStream` writes texts in a form of UTF-8 and compresses domain names: where the rest of a
name was written before, it writes the offset of that place. `MessageInputStream` keeps the names by
their offsets and puts them in where it finds one.

* `readUTF_writeUTF`: every text of 16-bit characters is read back;
* `readName_total`: `readName` comes to an end on all bytes;
* `reads_name`: a name is read back, compressed or not, if reader and writer agree on the names before
  it, and they agree after it. -/

namespace Waveplay.Jmdns.Stream

open Waveplay.Lib.Codec

/-- A Java string. -/
abbrev Text := List UInt16

/-- `'.'`. -/
def dot : UInt16 := 46

/-! ### `MessageOutputStream` -/

/-- `writeByte`. -/
def writeByte (value : ℤ) : UInt8 := UInt8.ofNat (value % 256).toNat

/-- `writeShort`. -/
def writeShort (value : ℤ) : List UInt8 := [writeByte (value >>> (8 : ℕ)), writeByte value]

/-- `writeInt`. -/
def writeInt (value : ℤ) : List UInt8 := writeShort (value >>> (16 : ℕ)) ++ writeShort value

/-- The bytes that one character adds to `utflen`. -/
def utfCharLength (ch : ℕ) : ℕ := if 0x0001 ≤ ch ∧ ch ≤ 0x007F then 1 else if ch > 0x07FF then 3 else 2

/-- The bytes of one character. -/
def utfChar (ch : ℕ) : List UInt8 :=
  if 0x0001 ≤ ch ∧ ch ≤ 0x007F then [UInt8.ofNat ch]
  else if ch > 0x07FF then
    [UInt8.ofNat (0xE0 ||| ((ch >>> 12) &&& 0x0F)), UInt8.ofNat (0x80 ||| ((ch >>> 6) &&& 0x3F)),
      UInt8.ofNat (0x80 ||| ((ch >>> 0) &&& 0x3F))]
  else [UInt8.ofNat (0xC0 ||| ((ch >>> 6) &&& 0x1F)), UInt8.ofNat (0x80 ||| ((ch >>> 0) &&& 0x3F))]

/-- `utflen`. -/
def utfLength (str : Text) : ℕ := (str.map fun ch => utfCharLength ch.toNat).sum

/-- `writeUTF` of a whole string. -/
def writeUTF (str : Text) : List UInt8 :=
  UInt8.ofNat (utfLength str) :: str.flatMap fun ch => utfChar ch.toNat

/-- `_names` of a `DNSOutgoing`. -/
abbrev Names := Text → Option ℕ

/-- **`writeName`**, at the position `pos = size() + _offset`. -/
def writeName (aName : Text) : Emitter UInt8 Names := fun names pos =>
  let n := aName.findIdx (· == dot)
  if _h : n = 0 then ([0], names)
  else
    match names aName with
    | some val => ([UInt8.ofNat ((val >>> 8) ||| 0xC0), UInt8.ofNat (val &&& 0xFF)], names)
    | none =>
      let label := writeUTF (aName.take n)
      let rest := aName.drop n
      let out := writeName (if rest.head? = some dot then rest.drop 1 else rest)
        (Function.update names aName (some pos)) (pos + label.length)
      (label ++ out.1, out.2)
termination_by aName.length
decreasing_by
  have hn : n ≠ 0 := by assumption
  have hpos : 0 < aName.length := by
    rw [List.length_pos_iff]
    rintro rfl
    exact hn rfl
  split <;> simp only [List.length_drop] <;> omega

/-! ### `MessageInputStream` -/

/-- The buffer, the position in it, and `_names`. -/
structure In where
  buf : List UInt8
  pos : ℕ
  names : ℤ → Option Text

/-- What is still to be read. -/
def In.rest (s : In) : List UInt8 := s.buf.drop s.pos

/-- The stream `n` bytes further on. -/
def In.skip (s : In) (n : ℕ) : In := { s with pos := s.pos + n }

/-- `available`. -/
def In.available (s : In) : ℕ := s.rest.length

/-- `read`: `-1` at the end. -/
def In.read (s : In) : ℤ × In :=
  match s.buf[s.pos]? with
  | some b => (b.toNat, { s with pos := s.pos + 1 })
  | none => (-1, s)

/-- `( high << 8 ) | low` of two values of `read`. -/
def join (high low : ℤ) : ℤ := if low = -1 then -1 else high * 256 + low

/-- `readUnsignedShort`. -/
def In.readUnsignedShort (s : In) : ℤ × In :=
  let (high, s) := s.read
  let (low, s) := s.read
  (join high low, s)

/-- `readInt`. -/
def In.readInt (s : In) : ℤ × In :=
  let (high, s) := s.readUnsignedShort
  let (low, s) := s.readUnsignedShort
  (if low = -1 then -1 else (high * 65536 + low).bmod (2 ^ 32), s)

/-- `readBytes`: what the stream does not have is zero, and there is no array of a negative length. -/
def In.readBytes (s : In) (len : ℤ) : Option (List UInt8 × In) :=
  if len < 0 then none
  else
    let bytes := s.rest.take len.toNat
    some (bytes ++ List.replicate (len.toNat - bytes.length) 0, s.skip bytes.length)

/-- `skip` of `ByteArrayInputStream`. -/
def In.skipBytes (s : In) (len : ℤ) : In := s.skip (min len.toNat s.available)

/-- A character from a value that is not negative. -/
def toChar (ch : ℤ) : UInt16 := UInt16.ofNat ch.toNat

/-- **`readUTF`**: `len` counts bytes, and the last character may go beyond. -/
def In.readUTF (s : In) : ℕ → Text × In
  | 0 => ([], s)
  | len + 1 =>
    let (ch, s) := s.read
    if 0 ≤ ch / 16 ∧ ch / 16 ≤ 7 then
      let (str, s) := s.readUTF len
      (toChar ch :: str, s)
    else if ch / 16 = 12 ∨ ch / 16 = 13 then
      let (b, s) := s.read
      let (str, s) := s.readUTF (len - 1)
      (toChar (ch % 32 * 64 + b % 64) :: str, s)
    else if ch / 16 = 14 then
      let (b, s) := s.read
      let (c, s) := s.read
      let (str, s) := s.readUTF (len - 2)
      (toChar (ch % 16 * 4096 + b % 64 * 64 + c % 64) :: str, s)
    else
      let (b, s) := s.read
      let (str, s) := s.readUTF (len - 1)
      (toChar (ch % 64 * 16 + b % 16) :: str, s)
termination_by len => len

/-- `DNSLabel`. -/
inductive DNSLabel
  | Unknown
  | Standard
  | Compressed
  | Extended
  deriving DecidableEq, Repr

/-- `labelForByte`: by the two bits of `LABEL_MASK`, all of them set in `-1`. -/
def DNSLabel.labelForByte (index : ℤ) : DNSLabel :=
  if index / 64 % 4 = 0 then .Standard
  else if index / 64 % 4 = 3 then .Compressed
  else if index / 64 % 4 = 1 then .Extended
  else .Unknown

/-- Append a label to all that were read before it. -/
def appendAll (names : List (ℕ × Text)) (label : Text) : List (ℕ × Text) :=
  names.map fun entry => (entry.1, entry.2 ++ label)

/-- The loop of `readName`, for at most `fuel` turns; it also gives the local `names`. -/
def In.readLabels : ℕ → In → List (ℕ × Text) → Text → Option (Text × List (ℕ × Text) × In)
  | 0, _, _, _ => none
  | fuel + 1, s, names, buffer =>
    let (len, s) := s.read
    if len = 0 then some (buffer, names, s)
    else
      match DNSLabel.labelForByte len with
      | .Standard =>
        let offset := s.pos - 1
        let (str, s) := s.readUTF len.toNat
        let label := str ++ [dot]
        readLabels fuel s (appendAll names label ++ [(offset, label)]) (buffer ++ label)
      | .Compressed =>
        let (low, s) := s.read
        let index := join (len % 64) low
        let compressedLabel := (s.names index).getD []
        some (buffer ++ compressedLabel, appendAll names compressedLabel, s)
      | .Extended => readLabels fuel s names buffer
      | .Unknown => readLabels fuel s names buffer

/-- Put entries into `_names`. -/
def putAll (names : ℤ → Option Text) (entries : List (ℕ × Text)) : ℤ → Option Text :=
  entries.foldl (fun names entry => Function.update names entry.1 (some entry.2)) names

/-- **`readName`.** A turn of its loop that is not the last takes a byte, so that the length of the
buffer is fuel enough. -/
def In.readName (s : In) : Option (Text × In) :=
  (s.readLabels (s.buf.length + 1) [] []).map fun (buffer, names, s) =>
    (buffer, { s with names := putAll s.names names })

/-! ### Reading comes to an end -/

/-- A reading step keeps the buffer and the names, and does not go back. -/
structure Moves (s s' : In) : Prop where
  buf : s'.buf = s.buf
  names : s'.names = s.names
  pos : s.pos ≤ s'.pos

theorem Moves.refl (s : In) : Moves s s := ⟨rfl, rfl, Nat.le_refl _⟩

theorem Moves.trans {s t u : In} (h : Moves s t) (h' : Moves t u) : Moves s u :=
  ⟨h'.buf.trans h.buf, h'.names.trans h.names, Nat.le_trans h.pos h'.pos⟩

theorem moves_read (s : In) : Moves s s.read.2 := by
  unfold In.read
  split
  · exact ⟨rfl, rfl, Nat.le_succ _⟩
  · exact Moves.refl s

theorem read_cases (s : In) : (s.pos < s.buf.length ∧ s.read.2.pos = s.pos + 1 ∧ 0 ≤ s.read.1) ∨
    s.read = (-1, s) := by
  unfold In.read
  split
  · rename_i b hb
    obtain ⟨hlt, -⟩ := List.getElem?_eq_some_iff.mp hb
    exact Or.inl ⟨hlt, rfl, Int.natCast_nonneg _⟩
  · exact Or.inr rfl

theorem moves_readUTF (len : ℕ) (s : In) : Moves s (s.readUTF len).2 := by
  induction len using Nat.strongRecOn generalizing s with
  | ind len ih =>
    cases len with
    | zero => rw [In.readUTF]; exact Moves.refl s
    | succ len =>
      have h₁ := moves_read s
      have h₂ := h₁.trans (moves_read s.read.2)
      have h₃ := h₂.trans (moves_read s.read.2.read.2)
      rw [In.readUTF]
      dsimp only
      split
      · exact h₁.trans (ih len (by omega) _)
      · split
        · exact h₂.trans (ih (len - 1) (by omega) _)
        · split
          · exact h₃.trans (ih (len - 2) (by omega) _)
          · exact h₂.trans (ih (len - 1) (by omega) _)

/-- The loop ends with fuel for the bytes that are left. -/
theorem readLabels_total (fuel : ℕ) (s : In) (names : List (ℕ × Text)) (buffer : Text)
    (h : s.buf.length - s.pos < fuel) : ∃ out, s.readLabels fuel names buffer = some out := by
  induction fuel generalizing s names buffer with
  | zero => omega
  | succ fuel ih =>
    have hmoves := moves_read s
    rw [In.readLabels]
    dsimp only
    split
    · exact ⟨_, rfl⟩
    · rcases read_cases s with ⟨hlt, hpos, -⟩ | hend
      · -- the next turn has one byte less
        have hleft : ∀ {t : In}, Moves s.read.2 t → t.buf.length - t.pos < fuel := fun {t} ht => by
          have := ht.pos
          rw [ht.buf, hmoves.buf]
          omega
        split
        · exact ih _ _ _ (hleft (moves_readUTF _ _))
        · exact ⟨_, rfl⟩
        · exact ih _ _ _ (hleft (Moves.refl _))
        · exact ih _ _ _ (hleft (Moves.refl _))
      · rw [hend]
        exact ⟨_, rfl⟩

/-- **`readName` comes to an end** on all bytes. -/
theorem readName_total (s : In) : ∃ name s', s.readName = some (name, s') := by
  obtain ⟨⟨buffer, names, s'⟩, h⟩ := readLabels_total (s.buf.length + 1) s [] [] (by omega)
  exact ⟨_, _, by rw [In.readName, h]; rfl⟩

/-! ### Texts -/

theorem skip_skip (s : In) (m n : ℕ) : (s.skip m).skip n = s.skip (m + n) := by
  rw [In.skip, In.skip, In.skip, Nat.add_assoc]

theorem rest_skip {s : In} {bs bs' : List UInt8} (h : s.rest = bs ++ bs') : (s.skip bs.length).rest = bs' := by
  rw [In.rest, In.skip]
  dsimp only
  rw [← List.drop_drop, ← In.rest, h, List.drop_left]

theorem read_of_rest {s : In} {b : UInt8} {bs : List UInt8} (h : s.rest = b :: bs) :
    s.read = ((b.toNat : ℤ), s.skip 1) ∧ (s.skip 1).rest = bs := by
  have hb : s.buf[s.pos]? = some b := by
    rw [← List.head?_drop, ← In.rest, h, List.head?_cons]
  have hskip : (s.skip [b].length).rest = bs := rest_skip h
  refine ⟨?_, hskip⟩
  rw [In.read, hb]
  rfl

theorem lead_two (ch : ℕ) : (UInt8.ofNat (0xC0 ||| ((ch >>> 6) &&& 0x1F))).toNat = 192 + ch / 64 % 32 := by
  have hor : ∀ x < 32, 0xC0 ||| x = 192 + x := by decide
  have hmask : (ch >>> 6) &&& 0x1F = ch / 64 % 32 := by
    rw [Nat.shiftRight_eq_div_pow]
    exact Nat.and_two_pow_sub_one_eq_mod _ 5
  rw [hmask, hor _ (Nat.mod_lt _ (by decide)), UInt8.toNat_ofNat']
  omega

theorem lead_three (ch : ℕ) :
    (UInt8.ofNat (0xE0 ||| ((ch >>> 12) &&& 0x0F))).toNat = 224 + ch / 4096 % 16 := by
  have hor : ∀ x < 16, 0xE0 ||| x = 224 + x := by decide
  have hmask : (ch >>> 12) &&& 0x0F = ch / 4096 % 16 := by
    rw [Nat.shiftRight_eq_div_pow]
    exact Nat.and_two_pow_sub_one_eq_mod _ 4
  rw [hmask, hor _ (Nat.mod_lt _ (by decide)), UInt8.toNat_ofNat']
  omega

theorem trail (ch k : ℕ) : (UInt8.ofNat (0x80 ||| ((ch >>> k) &&& 0x3F))).toNat = 128 + ch / 2 ^ k % 64 := by
  have hor : ∀ x < 64, 0x80 ||| x = 128 + x := by decide
  have hmask : (ch >>> k) &&& 0x3F = ch / 2 ^ k % 64 := by
    rw [Nat.shiftRight_eq_div_pow]
    exact Nat.and_two_pow_sub_one_eq_mod _ 6
  rw [hmask, hor _ (Nat.mod_lt _ (by decide)), UInt8.toNat_ofNat']
  omega

theorem toChar_toNat {c : UInt16} {n : ℤ} (h : n = c.toNat) : toChar n = c := by
  rw [h, toChar, Int.toNat_natCast, UInt16.ofNat_toNat]

theorem readUTF_char {s : In} {c : UInt16} {bs : List UInt8} (h : s.rest = utfChar c.toNat ++ bs) (n : ℕ) :
    s.readUTF (utfCharLength c.toNat + n) =
      (c :: ((s.skip (utfCharLength c.toNat)).readUTF n).1, ((s.skip (utfCharLength c.toNat)).readUTF n).2) := by
  have hc : c.toNat < 65536 := c.toNat_lt
  unfold utfChar at h
  unfold utfCharLength
  split at h
  · rename_i h1
    rw [if_pos h1]
    obtain ⟨hread, -⟩ := read_of_rest h
    have hb : (UInt8.ofNat c.toNat).toNat = c.toNat := by rw [UInt8.toNat_ofNat']; omega
    rw [hb] at hread
    rw [Nat.add_comm 1 n, In.readUTF, hread]
    dsimp only
    rw [if_pos (by omega), toChar_toNat rfl]
  · rename_i h1
    split at h
    · rename_i h3
      obtain ⟨hread, hrest⟩ := read_of_rest h
      obtain ⟨hread', hrest'⟩ := read_of_rest hrest
      obtain ⟨hread'', -⟩ := read_of_rest hrest'
      rw [lead_three] at hread
      rw [trail] at hread' hread''
      rw [if_neg h1, if_pos h3, show 3 + n = (n + 2) + 1 by omega, In.readUTF, hread]
      dsimp only
      rw [if_neg (by omega), if_neg (by omega), if_pos (by omega), hread', hread'', Nat.add_sub_cancel,
        skip_skip, skip_skip]
      have hval : ((224 + c.toNat / 4096 % 16 : ℕ) : ℤ) % 16 * 4096 +
          ((128 + c.toNat / 2 ^ 6 % 64 : ℕ) : ℤ) % 64 * 64 + ((128 + c.toNat / 2 ^ 0 % 64 : ℕ) : ℤ) % 64 =
          c.toNat := by omega
      rw [toChar_toNat hval]
    · rename_i h3
      obtain ⟨hread, hrest⟩ := read_of_rest h
      obtain ⟨hread', -⟩ := read_of_rest hrest
      rw [lead_two] at hread
      rw [trail] at hread'
      rw [if_neg h1, if_neg h3, show 2 + n = (n + 1) + 1 by omega, In.readUTF, hread]
      dsimp only
      rw [if_neg (by omega), if_pos (by omega), hread', Nat.add_sub_cancel, skip_skip]
      have hval : ((192 + c.toNat / 64 % 32 : ℕ) : ℤ) % 32 * 64 +
          ((128 + c.toNat / 2 ^ 0 % 64 : ℕ) : ℤ) % 64 = c.toNat := by omega
      rw [toChar_toNat hval]

theorem length_utfChar (ch : ℕ) : (utfChar ch).length = utfCharLength ch := by
  unfold utfChar utfCharLength
  split_ifs <;> rfl

theorem length_flatMap_utfChar (str : Text) : (str.flatMap fun ch => utfChar ch.toNat).length = utfLength str := by
  rw [List.length_flatMap, utfLength]
  simp only [length_utfChar]

/-- **Texts are read back.** -/
theorem readUTF_writeUTF {s : In} {str : Text} {bs : List UInt8}
    (h : s.rest = (str.flatMap fun ch => utfChar ch.toNat) ++ bs) :
    s.readUTF (utfLength str) = (str, s.skip (utfLength str)) := by
  induction str generalizing s with
  | nil => rw [utfLength, List.map_nil, List.sum_nil, In.readUTF]; rfl
  | cons c str ih =>
    rw [List.flatMap_cons, List.append_assoc] at h
    have hrest := rest_skip h
    rw [length_utfChar] at hrest
    rw [utfLength, List.map_cons, List.sum_cons, ← utfLength, readUTF_char h, ih hrest, skip_skip]

/-! ### Names -/

/-- A label that can be written: not empty, without dots, and at most 63 bytes long. -/
structure Label where
  text : Text
  ne : text ≠ []
  nodot : dot ∉ text
  short : utfLength text ≤ 63

/-- A domain name, by its labels. -/
abbrev Domain := List Label

/-- The name with a dot after each label. -/
def Domain.text (d : Domain) : Text := d.flatMap fun l => l.text ++ [dot]

theorem text_cons (l : Label) (d : Domain) : Domain.text (l :: d) = l.text ++ [dot] ++ Domain.text d := rfl

theorem writeName_nil (names : Names) (pos : ℕ) : writeName [] names pos = ([0], names) := by
  rw [writeName]
  rfl

theorem writeName_cons (l : Label) (d : Domain) (names : Names) (pos : ℕ) :
    writeName (Domain.text (l :: d)) names pos =
      match names (Domain.text (l :: d)) with
      | some val => ([UInt8.ofNat ((val >>> 8) ||| 0xC0), UInt8.ofNat (val &&& 0xFF)], names)
      | none =>
        let out := writeName d.text (Function.update names (Domain.text (l :: d)) (some pos))
          (pos + (writeUTF l.text).length)
        (writeUTF l.text ++ out.1, out.2) := by
  have hidx : (Domain.text (l :: d)).findIdx (· == dot) = l.text.length := by
    have hno : l.text.findIdx (· == dot) = l.text.length :=
      List.findIdx_eq_length.mpr fun x hx => by
        rw [beq_eq_false_iff_ne]
        exact fun h => l.nodot (h ▸ hx)
    rw [text_cons, List.append_assoc, List.findIdx_append, hno, if_neg (Nat.lt_irrefl _)]
    simp [List.findIdx_cons]
  have htake : (Domain.text (l :: d)).take l.text.length = l.text := by
    rw [text_cons, List.append_assoc, List.take_left]
  have hdrop : (Domain.text (l :: d)).drop l.text.length = dot :: d.text := by
    rw [text_cons, List.append_assoc, List.drop_left]
    rfl
  have hlen : l.text.length ≠ 0 := fun h => l.ne (List.length_eq_zero_iff.mp h)
  conv_lhs => rw [writeName]
  simp only [hidx, htake, hdrop, dif_neg hlen, List.head?_cons, if_true, List.drop_succ_cons, List.drop_zero]

/-- The reader is where the writer is, and has its names. -/
structure Agree (names : Names) (pos : ℕ) (s : In) : Prop where
  position : s.pos = pos
  small : s.buf.length ≤ 0x4000
  known : ∀ t o, names t = some o → o < pos ∧ s.names o = some t

theorem pointer_bytes {val : ℕ} (h : val < 0x4000) :
    (UInt8.ofNat ((val >>> 8) ||| 0xC0)).toNat = 192 + val / 256 ∧
      (UInt8.ofNat (val &&& 0xFF)).toNat = val % 256 := by
  have hor : ∀ x < 64, x ||| 0xC0 = 192 + x := by decide
  have hmask : val &&& 0xFF = val % 256 := Nat.and_two_pow_sub_one_eq_mod _ 8
  have hshift : val >>> 8 = val / 256 := Nat.shiftRight_eq_div_pow val 8
  rw [hmask, hshift, hor _ (by omega), UInt8.toNat_ofNat', UInt8.toNat_ofNat']
  omega

theorem utfLength_pos {str : Text} (h : str ≠ []) : 0 < utfLength str := by
  cases str with
  | nil => exact absurd rfl h
  | cons c str =>
    have hc : 0 < utfCharLength c.toNat := by
      unfold utfCharLength
      split_ifs <;> decide
    rw [utfLength, List.map_cons, List.sum_cons]
    omega

/-- What the loop of `readName` gives for a name that was written at its position. -/
structure ReadBack (d : Domain) (names : Names) (s : In) (locals new : List (ℕ × Text)) (buffer : Text)
    (fuel : ℕ) : Prop where
  read : s.readLabels fuel locals buffer =
    some (buffer ++ d.text, appendAll locals d.text ++ new, s.skip (writeName d.text names s.pos).1.length)
  new_lt : ∀ e ∈ new, s.pos ≤ e.1 ∧ e.1 < s.pos + (writeName d.text names s.pos).1.length
  sorted : new.Pairwise fun a b => a.1 < b.1
  known : ∀ t o, (writeName d.text names s.pos).2 t = some o → names t = some o ∨ (o, t) ∈ new

theorem readBack_nil {names : Names} {s : In} {rest : List UInt8} {fuel : ℕ}
    (hrest : s.rest = (writeName (Domain.text []) names s.pos).1 ++ rest) (locals : List (ℕ × Text))
    (buffer : Text) : ReadBack [] names s locals [] buffer (fuel + 1) := by
  have hwrite := writeName_nil names s.pos
  have htext : Domain.text [] = [] := rfl
  rw [htext, hwrite] at hrest
  obtain ⟨hread, -⟩ := read_of_rest hrest
  refine ⟨?_, by simp, List.Pairwise.nil, ?_⟩
  · rw [In.readLabels, hread, htext, hwrite]
    simp [appendAll]
  · rw [htext, hwrite]
    exact fun t o h => Or.inl h

theorem readBack_pointer {l : Label} {d : Domain} {names : Names} {s : In} {rest : List UInt8} {fuel val : ℕ}
    (hval : names (Domain.text (l :: d)) = some val) (hsmall : val < 0x4000)
    (hname : s.names val = some (Domain.text (l :: d)))
    (hrest : s.rest = (writeName (Domain.text (l :: d)) names s.pos).1 ++ rest) (locals : List (ℕ × Text))
    (buffer : Text) : ReadBack (l :: d) names s locals [] buffer (fuel + 1) := by
  have hwrite := writeName_cons l d names s.pos
  simp only [hval] at hwrite
  rw [hwrite] at hrest
  obtain ⟨hread, hrest'⟩ := read_of_rest hrest
  obtain ⟨hread', -⟩ := read_of_rest hrest'
  obtain ⟨hhigh, hlow⟩ := pointer_bytes hsmall
  rw [hhigh] at hread
  rw [hlow] at hread'
  have hlabel : DNSLabel.labelForByte ((192 + val / 256 : ℕ) : ℤ) = .Compressed := by
    rw [DNSLabel.labelForByte, if_neg (by omega), if_pos (by omega)]
  have hindex : join (((192 + val / 256 : ℕ) : ℤ) % 64) ((val % 256 : ℕ) : ℤ) = val := by
    rw [join, if_neg (by omega)]
    omega
  refine ⟨?_, by simp, List.Pairwise.nil, ?_⟩
  · rw [In.readLabels, hread, hwrite]
    dsimp only
    rw [if_neg (by omega), hlabel]
    dsimp only
    rw [hread', skip_skip]
    dsimp only
    have hskip : (s.skip (1 + 1)).names = s.names := rfl
    rw [hindex, hskip, hname, List.append_nil]
    rfl
  · rw [hwrite]
    exact fun t o h => Or.inl h

theorem length_writeUTF (str : Text) : (writeUTF str).length = utfLength str + 1 := by
  rw [writeUTF, List.length_cons, length_flatMap_utfChar]

theorem readBack_label {l : Label} {d : Domain} {names : Names} {s : In} {rest : List UInt8} {fuel : ℕ}
    (hnone : names (Domain.text (l :: d)) = none)
    (hrest : s.rest = (writeName (Domain.text (l :: d)) names s.pos).1 ++ rest) (locals : List (ℕ × Text))
    (buffer : Text) {new : List (ℕ × Text)}
    (ih : ReadBack d (Function.update names (Domain.text (l :: d)) (some s.pos))
      (s.skip (writeUTF l.text).length)
      (appendAll locals (l.text ++ [dot]) ++ [(s.pos, l.text ++ [dot])]) new (buffer ++ (l.text ++ [dot])) fuel) :
    ReadBack (l :: d) names s locals ((s.pos, Domain.text (l :: d)) :: new) buffer (fuel + 1) := by
  have hwrite := writeName_cons l d names s.pos
  simp only [hnone] at hwrite
  rw [hwrite, writeUTF, List.cons_append, List.cons_append, List.append_assoc] at hrest
  obtain ⟨hread, hrest'⟩ := read_of_rest hrest
  have hpos := utfLength_pos l.ne
  have hshort := l.short
  have hlen : (UInt8.ofNat (utfLength l.text)).toNat = utfLength l.text := by
    rw [UInt8.toNat_ofNat']
    omega
  rw [hlen] at hread
  have hlabel : DNSLabel.labelForByte (utfLength l.text : ℤ) = .Standard := by
    rw [DNSLabel.labelForByte, if_pos (by omega)]
  have hlength := length_writeUTF l.text
  obtain ⟨hih, hlt, hsorted, hknown⟩ := ih
  have hskip : (s.skip (writeUTF l.text).length).pos = s.pos + (writeUTF l.text).length := rfl
  rw [hskip] at hih hlt hknown
  refine ⟨?_, ?_, ?_, ?_⟩
  · rw [In.readLabels, hread]
    dsimp only
    rw [if_neg (by omega), hlabel]
    dsimp only
    rw [Int.toNat_natCast, readUTF_writeUTF hrest', skip_skip]
    dsimp only
    have hnext : s.skip (1 + utfLength l.text) = s.skip (writeUTF l.text).length := by
      rw [hlength, Nat.add_comm]
    have hoffset : (s.skip 1).pos - 1 = s.pos := rfl
    rw [hnext, hoffset, hih, hwrite]
    simp only [skip_skip, List.length_append, text_cons, appendAll, List.map_append, List.map_map, List.map_cons,
      List.map_nil, List.append_assoc, List.cons_append, List.nil_append, Function.comp_def]
  · rw [hwrite]
    simp only [List.length_append]
    intro e he
    rcases List.mem_cons.mp he with rfl | he
    · constructor <;> dsimp only <;> omega
    · have := hlt e he
      omega
  · refine List.pairwise_cons.mpr ⟨fun e he => ?_, hsorted⟩
    have := hlt e he
    dsimp only
    omega
  · rw [hwrite]
    intro t o h
    rcases hknown t o h with h | h
    · by_cases ht : t = Domain.text (l :: d)
      · subst ht
        rw [Function.update_self, Option.some.injEq] at h
        exact Or.inr (h ▸ List.mem_cons_self)
      · rw [Function.update_of_ne ht] at h
        exact Or.inl h
    · exact Or.inr (List.mem_cons_of_mem _ h)

/-- **The loop of `readName` takes back the loop of `writeName`.** The names that were there before and are
no longer than the rest are known to the reader; those that were put in meanwhile are longer. -/
theorem readBack {names : Names} {s : In} {d : Domain} {rest : List UInt8} {fuel : ℕ}
    (hknown : ∀ t o, names t = some o → t.length ≤ d.text.length → o < 0x4000 ∧ s.names o = some t)
    (hrest : s.rest = (writeName d.text names s.pos).1 ++ rest)
    (hfuel : (writeName d.text names s.pos).1.length ≤ fuel) (locals : List (ℕ × Text)) (buffer : Text) :
    ∃ new, ReadBack d names s locals new buffer fuel := by
  induction d generalizing names s locals buffer fuel with
  | nil =>
    obtain ⟨fuel, rfl⟩ : ∃ k, fuel = k + 1 := by
      rw [show Domain.text [] = [] from rfl, writeName_nil] at hfuel
      exact ⟨fuel - 1, by simp at hfuel; omega⟩
    exact ⟨[], readBack_nil hrest locals buffer⟩
  | cons l d ih =>
    have hwrite := writeName_cons l d names s.pos
    cases hval : names (Domain.text (l :: d)) with
    | some val =>
      obtain ⟨hsmall, hname⟩ := hknown _ val hval (Nat.le_refl _)
      obtain ⟨fuel, rfl⟩ : ∃ k, fuel = k + 1 := by
        simp only [hval] at hwrite
        rw [hwrite] at hfuel
        exact ⟨fuel - 1, by simp at hfuel; omega⟩
      exact ⟨[], readBack_pointer hval hsmall hname hrest locals buffer⟩
    | none =>
      simp only [hval] at hwrite
      rw [hwrite, List.length_append, length_writeUTF] at hfuel
      obtain ⟨fuel, rfl⟩ : ∃ k, fuel = k + 1 := ⟨fuel - 1, by omega⟩
      have hnext := hrest
      rw [hwrite, List.append_assoc] at hnext
      have hlonger : (Domain.text d).length < (Domain.text (l :: d)).length := by
        rw [text_cons, List.length_append, List.length_append, List.length_singleton]
        omega
      have hknown' : ∀ t o, Function.update names (Domain.text (l :: d)) (some s.pos) t = some o →
          t.length ≤ (Domain.text d).length →
          o < 0x4000 ∧ (s.skip (writeUTF l.text).length).names o = some t := fun t o h ht => by
        rw [Function.update_of_ne (fun he => by rw [he] at ht; omega)] at h
        exact hknown t o h (by omega)
      have hskip : (s.skip (writeUTF l.text).length).pos = s.pos + (writeUTF l.text).length := rfl
      obtain ⟨new, hnew⟩ := ih hknown' (rest_skip hnext)
        (by rw [hskip, length_writeUTF]; omega : _ ≤ fuel)
        (appendAll locals (l.text ++ [dot]) ++ [(s.pos, l.text ++ [dot])]) (buffer ++ (l.text ++ [dot]))
      exact ⟨_, readBack_label hval hrest locals buffer hnew⟩

theorem putAll_of_notMem (entries : List (ℕ × Text)) {names : ℤ → Option Text} {k : ℕ}
    (h : ∀ e ∈ entries, e.1 ≠ k) : putAll names entries k = names k := by
  induction entries generalizing names with
  | nil => rfl
  | cons e entries ih =>
    have hne : (k : ℤ) ≠ e.1 := fun he => h e List.mem_cons_self (by omega)
    rw [putAll, List.foldl_cons, ← putAll, ih fun e' he' => h e' (List.mem_cons_of_mem e he'),
      Function.update_of_ne hne]

theorem putAll_of_mem {entries : List (ℕ × Text)} (hsorted : entries.Pairwise fun a b => a.1 < b.1)
    {names : ℤ → Option Text} {e : ℕ × Text} (h : e ∈ entries) : putAll names entries e.1 = some e.2 := by
  induction entries generalizing names with
  | nil => simp at h
  | cons e' entries ih =>
    obtain ⟨hlt, hsorted'⟩ := List.pairwise_cons.mp hsorted
    rw [putAll, List.foldl_cons, ← putAll]
    rcases List.mem_cons.mp h with rfl | h
    · rw [putAll_of_notMem entries fun e'' he'' => by have := hlt e'' he''; omega, Function.update_self]
    · exact ih hsorted' h

theorem writeName_ne_nil (d : Domain) (names : Names) (pos : ℕ) : (writeName d.text names pos).1 ≠ [] := by
  cases d with
  | nil =>
    rw [show Domain.text [] = [] from rfl, writeName_nil]
    simp
  | cons l d =>
    rw [writeName_cons]
    split
    · simp
    · simp [writeUTF]

/-- **Names are read back**, compressed or not. -/
theorem reads_name (d : Domain) : Reads Agree In.rest (writeName d.text) In.readName d.text := by
  intro names pos s rest hagree hrest
  obtain rfl := hagree.position
  have hbytes : (writeName d.text names s.pos).1.length ≤ s.buf.length - s.pos := by
    have := congrArg List.length hrest
    rw [In.rest, List.length_drop, List.length_append] at this
    omega
  have hpos : 0 < (writeName d.text names s.pos).1.length :=
    List.length_pos_iff.mpr (writeName_ne_nil d names s.pos)
  have hsmall := hagree.small
  obtain ⟨new, hread, hlt, hsorted, hknown⟩ := readBack
    (fun t o h _ => ⟨by have := (hagree.known t o h).1; omega, (hagree.known t o h).2⟩) hrest
    (by omega : _ ≤ s.buf.length + 1) [] []
  refine ⟨{ s.skip (writeName d.text names s.pos).1.length with names := putAll s.names new }, ?_,
    rest_skip hrest, rfl, hsmall, fun t o h => ?_⟩
  · rw [In.readName, hread]
    rfl
  · rcases hknown t o h with h | h
    · obtain ⟨hbefore, hname⟩ := hagree.known t o h
      refine ⟨by omega, ?_⟩
      rw [← hname]
      exact putAll_of_notMem new fun e he => by have := hlt e he; omega
    · exact ⟨(hlt _ h).2, putAll_of_mem hsorted h⟩

/-! ### Numbers and bytes -/

theorem Agree.skip {names : Names} {pos : ℕ} {s : In} (h : Agree names pos s) (n : ℕ) :
    Agree names (pos + n) (s.skip n) where
  position := by rw [← h.position]; rfl
  small := h.small
  known t o ho := ⟨by have := (h.known t o ho).1; omega, (h.known t o ho).2⟩

theorem reads_const {α : Type*} {bs : List UInt8} {p : In → Option (α × In)} {x : α}
    (h : ∀ s rest, s.rest = bs ++ rest → p s = some (x, s.skip bs.length)) :
    Reads Agree In.rest (.const bs) p x := fun _ _ s rest hagree hrest =>
  ⟨s.skip bs.length, h s rest hrest, rest_skip hrest, hagree.skip bs.length⟩

theorem toNat_writeByte (value : ℤ) : ((writeByte value).toNat : ℤ) = value % 256 := by
  rw [writeByte, UInt8.toNat_ofNat']
  omega

theorem readUnsignedShort_of_rest {s : In} {value : ℤ} {rest : List UInt8}
    (h : s.rest = writeShort value ++ rest) : s.readUnsignedShort = (value % 65536, s.skip 2) := by
  obtain ⟨hread, hrest⟩ := read_of_rest h
  obtain ⟨hread', -⟩ := read_of_rest hrest
  have hshift : value >>> (8 : ℕ) = value / 256 := Int.shiftRight_eq_div_pow value 8
  simp only [In.readUnsignedShort, hread, hread', skip_skip, toNat_writeByte, hshift, join]
  rw [if_neg (by omega)]
  refine Prod.ext ?_ rfl
  simp only
  omega

theorem readInt_of_rest {s : In} {value : ℤ} {rest : List UInt8} (h : s.rest = writeInt value ++ rest) :
    s.readInt = (value.bmod (2 ^ 32), s.skip 4) := by
  rw [writeInt, List.append_assoc] at h
  have hrest : (s.skip 2).rest = writeShort value ++ rest := rest_skip h
  have hshift : value >>> (16 : ℕ) = value / 65536 := Int.shiftRight_eq_div_pow value 16
  rw [In.readInt, readUnsignedShort_of_rest h]
  simp only
  rw [readUnsignedShort_of_rest hrest, skip_skip, hshift, if_neg (by omega)]
  refine Prod.ext ?_ rfl
  rw [Int.bmod_eq_iff (by decide)]
  have hbmod := Int.bmod_eq_iff (a := value) (b := 2 ^ 32) (c := value.bmod (2 ^ 32)) (by decide)
  obtain ⟨hlow, hhigh, hdvd⟩ := hbmod.mp rfl
  refine ⟨hlow, hhigh, ?_⟩
  have hpow : ((2 ^ 32 : ℕ) : ℤ) = 4294967296 := rfl
  rw [hpow] at hdvd ⊢
  omega

theorem reads_short (value : ℤ) :
    Reads Agree In.rest (.const (writeShort value)) (fun s => some s.readUnsignedShort) (value % 65536) :=
  reads_const fun _ _ h => congrArg some (readUnsignedShort_of_rest h)

theorem reads_int (value : ℤ) :
    Reads Agree In.rest (.const (writeInt value)) (fun s => some s.readInt) (value.bmod (2 ^ 32)) :=
  reads_const fun _ _ h => congrArg some (readInt_of_rest h)

theorem reads_bytes (bs : List UInt8) :
    Reads Agree In.rest (.const bs) (fun s => s.readBytes bs.length) bs := by
  refine reads_const fun s rest h => ?_
  rw [In.readBytes, if_neg (by omega), h, Int.toNat_natCast, List.take_left]
  simp only [Nat.sub_self, List.replicate_zero, List.append_nil]

end Waveplay.Jmdns.Stream
