import Waveplay.Lib.LinkedMap
import Waveplay.Jmdns.Stream

/-! # The properties of a service

`textFromProperties` writes the properties of a service into the bytes of its text record, and
`getProperties` reads them. Names and values have a form of UTF-8. `readUTF` compares the position in the
bytes of all properties with the length of one name, and does not take a character of three bytes at the end
of a value; `getProperties` does not go past a name that has no value.

* `getPropertyString_textFromProperties`: values are read back, if the names are ASCII, and their last
  character does not have three bytes;
* `getPropertyString_flag`: a name without a value makes all properties disappear. -/

namespace Waveplay.Jmdns.TextRecord

open Waveplay.Lib Waveplay.Lib.Codec Waveplay.Jmdns.Stream

/-! ### `textFromProperties` -/

/-- `'='`. -/
def equalsSign : UInt8 := 61

/-- The values of the map that `textFromProperties` is given; there is an exception for `other` ones. -/
inductive Property
  | null
  | string (value : Text)
  | bytes (value : List UInt8)
  | other

/-- `writeUTF` of `ServiceInfoImpl`. -/
def writeUTF (str : Text) : List UInt8 := str.flatMap fun c => utfChar c.toNat

/-- What is written for one property. -/
def propertyData (key : Text) : Property → Option (List UInt8)
  | .null => some (writeUTF key)
  | .string value => some (writeUTF key ++ equalsSign :: writeUTF value)
  | .bytes value => some (writeUTF key ++ if value.length > 0 then equalsSign :: value else [])
  | .other => none

/-- One turn of the loop of `textFromProperties`. -/
def writeProperty (p : Text × Property) : Option (List UInt8) := do
  let data ← propertyData p.1 p.2
  if data.length > 255 then none else some (UInt8.ofNat data.length :: data)

/-- `EMPTY_TXT`. -/
def emptyTxt : List UInt8 := [0]

/-- `textFromProperties` of a map that is not `null`, by its entries. -/
def textFromProperties (props : List (Text × Property)) : Option (List UInt8) :=
  (props.mapM writeProperty).map fun out => if out.flatten.length > 0 then out.flatten else emptyTxt

/-! ### `getProperties` -/

/-- The character at an offset, and how many bytes it has after the first: the inner `none` is `null`, the
outer one an exception. -/
def readChar (data : List UInt8) (len offset : ℕ) : Option (Option (ℕ × ℕ)) := do
  let ch := (← data[offset]?).toNat
  let offset := offset + 1
  if ch < 128 then some (some (ch, 0))
  else if 192 ≤ ch ∧ ch < 224 then
    if offset ≥ len then some none
    else
      let b := (← data[offset]?).toNat
      some (some (ch % 32 * 64 + b % 64, 1))
  else if 224 ≤ ch ∧ ch < 240 then
    if offset + 2 ≥ len then some none
    else
      let b := (← data[offset]?).toNat
      let c := (← data[offset + 1]?).toNat
      some (some (ch % 16 * 4096 + b % 64 * 64 + c % 64, 2))
  else
    if offset + 1 ≥ len then some none
    else
      let b := (← data[offset]?).toNat
      some (some (ch % 64 * 16 + b % 16, 1))

/-- The loop of `readUTF`. -/
def readUTFLoop (data : List UInt8) (len stop offset : ℕ) : Option (Option Text) :=
  if offset < stop then
    (readChar data len offset).bind fun
      | none => some none
      | some (ch, more) =>
        (readUTFLoop data len stop (offset + 1 + more)).map (Option.map (UInt16.ofNat ch :: ·))
  else some (some [])
termination_by stop - offset

/-- `readUTF` of `ServiceInfoImpl`. -/
def readUTF (data : List UInt8) (off len : ℕ) : Option (Option Text) := readUTFLoop data len (off + len) off

/-- The values of the properties; `NO_VALUE` is told from the empty array. -/
inductive Value
  | noValue
  | bytes (value : List UInt8)

/-- The loop of `getProperties`. After an exception the properties are those that were put. -/
def propertiesLoop (text : List UInt8) (off : ℕ) (properties : LinkedMap Text Value) : LinkedMap Text Value :=
  if h : off < text.length then
    let len := text[off].toNat
    if len = 0 ∨ off + 1 + len > text.length then LinkedMap.empty
    else
      let i := ((text.drop (off + 1)).take len).findIdx (· == equalsSign)
      match readUTF text (off + 1) i with
      | none => properties
      | some none => LinkedMap.empty
      | some (some name) =>
        if i = len then propertiesLoop text (off + 1) (properties.put name .noValue)
        else
          propertiesLoop text (off + 1 + len)
            (properties.put name (.bytes ((text.drop (off + 1 + (i + 1))).take (len - (i + 1)))))
  else properties
termination_by text.length - off

/-- `getTextBytes`. -/
def getTextBytes (text : List UInt8) : List UInt8 := if text.length > 0 then text else emptyTxt

/-- `getProperties`. -/
def getProperties (text : List UInt8) : LinkedMap Text Value :=
  propertiesLoop (getTextBytes text) 0 LinkedMap.empty

/-- `"true"`. -/
def trueText : Text := [116, 114, 117, 101]

/-- `getPropertyString`: the inner `none` is `null`. -/
def getPropertyString (text : List UInt8) (name : Text) : Option (Option Text) :=
  match (getProperties text).get name with
  | none => some none
  | some .noValue => some (some trueText)
  | some (.bytes data) => readUTF data 0 data.length

/-! ### Characters -/

theorem getElem_of_drop {data l : List UInt8} {p : ℕ} {b : UInt8} (h : data.drop p = b :: l) :
    data[p]? = some b := by
  rw [← List.head?_drop, h, List.head?_cons]

theorem drop_succ {data l : List UInt8} {p : ℕ} {b : UInt8} (h : data.drop p = b :: l) : data.drop (p + 1) = l := by
  rw [← List.drop_drop, h, List.drop_one, List.tail_cons]

/-- A character of `writeUTF` is read, unless it has three bytes and ends where the text ends or later. -/
theorem readChar_utfChar {data l : List UInt8} {len p : ℕ} {c : UInt16} (h : data.drop p = utfChar c.toNat ++ l)
    (hlen : utfCharLength c.toNat = 1 ∨ p + utfCharLength c.toNat ≤ len) :
    readChar data len p = some (if utfCharLength c.toNat = 3 ∧ p + 3 = len then none
      else some (c.toNat, utfCharLength c.toNat - 1)) := by
  have hc : c.toNat < 65536 := c.toNat_lt
  unfold utfChar at h
  unfold utfCharLength at hlen ⊢
  split at h
  · next h1 =>
    have hb : (UInt8.ofNat c.toNat).toNat = c.toNat := by rw [UInt8.toNat_ofNat']; omega
    simp only [readChar, getElem_of_drop h, Option.bind_eq_bind, Option.bind_some, hb, if_pos h1]
    rw [if_pos (by omega), if_neg (by omega)]
  · next h1 =>
    rw [if_neg h1] at hlen ⊢
    split at h
    · next h3 =>
      rw [if_pos h3] at hlen ⊢
      have hd := drop_succ h
      have hd' := drop_succ hd
      simp only [readChar, getElem_of_drop h, getElem_of_drop hd, getElem_of_drop hd', Option.bind_eq_bind,
        Option.bind_some, lead_three, trail]
      rw [if_neg (by omega), if_neg (by omega), if_pos (by omega)]
      by_cases hend : p + 3 = len
      · rw [if_pos (by omega), if_pos ⟨trivial, hend⟩]
      · rw [if_neg (by omega), if_neg fun h => hend h.2]
        congr 3
        omega
    · next h3 =>
      rw [if_neg h3] at hlen ⊢
      have hd := drop_succ h
      simp only [readChar, getElem_of_drop h, getElem_of_drop hd, Option.bind_eq_bind, Option.bind_some, lead_two,
        trail]
      rw [if_neg (by omega), if_pos (by omega), if_neg (by omega), if_neg (by omega)]
      congr 3
      omega

theorem drop_add_of_append {data l₁ l₂ : List UInt8} {p : ℕ} (h : data.drop p = l₁ ++ l₂) :
    data.drop (p + l₁.length) = l₂ := by
  rw [← List.drop_drop, h, List.drop_left]

theorem utfCharLength_pos (ch : ℕ) : 0 < utfCharLength ch := by
  unfold utfCharLength
  split_ifs <;> omega

/-- What `getPropertyString` gives for a value: `null` if its last character has three bytes. -/
def readBack (value : Text) : Option Text :=
  if value.getLast?.any fun c => decide (0x07FF < c.toNat) then none else some value

theorem readBack_cons (c : UInt16) {value : Text} (h : value ≠ []) :
    readBack (c :: value) = (readBack value).map (c :: ·) := by
  rw [readBack, readBack, List.getLast?_cons_of_ne_nil h]
  split_ifs <;> rfl

theorem utfCharLength_eq_three (ch : ℕ) : utfCharLength ch = 3 ↔ 0x07FF < ch := by
  unfold utfCharLength
  split_ifs <;> omega

theorem length_writeUTF_pos {value : Text} (h : value ≠ []) : 0 < (writeUTF value).length := by
  obtain ⟨c, value, rfl⟩ := List.exists_cons_of_ne_nil h
  have hpos := utfCharLength_pos c.toNat
  rw [writeUTF, List.flatMap_cons, List.length_append, length_utfChar]
  omega

theorem readBack_singleton (c : UInt16) :
    readBack [c] = if utfCharLength c.toNat = 3 then none else some [c] := by
  rw [readBack]
  simp [utfCharLength_eq_three]

theorem readUTFLoop_value {data : List UInt8} {value : Text} {p : ℕ} (h : data.drop p = writeUTF value)
    (hp : p ≤ data.length) : readUTFLoop data data.length data.length p = some (readBack value) := by
  induction value generalizing p with
  | nil =>
    have hlen : data.length ≤ p := List.drop_eq_nil_iff.mp h
    rw [readUTFLoop, if_neg (by omega)]
    rfl
  | cons c value ih =>
    have h' : data.drop p = utfChar c.toNat ++ writeUTF value := h
    have hpos := utfCharLength_pos c.toNat
    have hlength : data.length = p + utfCharLength c.toNat + (writeUTF value).length := by
      have := congrArg List.length h'
      rw [List.length_drop, List.length_append, length_utfChar] at this
      omega
    have hrest : data.drop (p + utfCharLength c.toNat) = writeUTF value := by
      rw [← length_utfChar]
      exact drop_add_of_append h'
    rw [readUTFLoop, if_pos (by omega), readChar_utfChar h' (.inr (by omega)), Option.bind_some]
    have hnext : p + 1 + (utfCharLength c.toNat - 1) = p + utfCharLength c.toNat := by omega
    by_cases hvalue : value = []
    · subst hvalue
      have hnil : (writeUTF []).length = 0 := rfl
      rw [readBack_singleton]
      by_cases hthree : utfCharLength c.toNat = 3
      · rw [if_pos ⟨hthree, by omega⟩, if_pos hthree]
      · rw [if_neg fun h => hthree h.1, if_neg hthree]
        simp only [hnext]
        rw [ih hrest (by omega), UInt16.ofNat_toNat]
        rfl
    · have hpos' := length_writeUTF_pos hvalue
      rw [if_neg (by omega), readBack_cons c hvalue]
      simp only [hnext]
      rw [ih hrest (by omega), UInt16.ofNat_toNat]
      rfl

/-! ### Names -/

/-- A name of ASCII characters, without the sign between a name and its value. -/
def Ascii (name : Text) : Prop := ∀ c ∈ name, 1 ≤ c.toNat ∧ c.toNat ≤ 127 ∧ c.toNat ≠ 61

instance (name : Text) : Decidable (Ascii name) := List.decidableBAll _ name

theorem writeUTF_cons {c : UInt16} {name : Text} (hc : 1 ≤ c.toNat ∧ c.toNat ≤ 127) :
    writeUTF (c :: name) = UInt8.ofNat c.toNat :: writeUTF name := by
  rw [writeUTF, List.flatMap_cons, utfChar, if_pos hc]
  rfl

theorem toNat_ofNat_ascii {c : UInt16} (hc : c.toNat ≤ 127) : (UInt8.ofNat c.toNat).toNat = c.toNat := by
  rw [UInt8.toNat_ofNat']
  omega

theorem length_writeUTF {name : Text} (h : Ascii name) : (writeUTF name).length = name.length := by
  induction name with
  | nil => rfl
  | cons c name ih =>
    obtain ⟨hlow, hhigh, -⟩ := h c List.mem_cons_self
    rw [writeUTF_cons ⟨hlow, hhigh⟩, List.length_cons, List.length_cons,
      ih fun d hd => h d (List.mem_cons_of_mem c hd)]

theorem equalsSign_notMem {name : Text} (h : Ascii name) : equalsSign ∉ writeUTF name := by
  intro hmem
  obtain ⟨c, hc, hb⟩ := List.mem_flatMap.mp hmem
  obtain ⟨hlow, hhigh, hne⟩ := h c hc
  rw [utfChar, if_pos ⟨hlow, hhigh⟩, List.mem_singleton] at hb
  have hnat := congrArg UInt8.toNat hb
  rw [toNat_ofNat_ascii hhigh] at hnat
  exact hne hnat.symm

theorem readUTFLoop_name {data l : List UInt8} {len p : ℕ} {name : Text} (hname : Ascii name)
    (h : data.drop p = writeUTF name ++ l) : readUTFLoop data len (p + name.length) p = some (some name) := by
  induction name generalizing p with
  | nil =>
    rw [readUTFLoop, if_neg (by simp)]
  | cons c name ih =>
    obtain ⟨hlow, hhigh, -⟩ := hname c List.mem_cons_self
    have hlength : utfCharLength c.toNat = 1 := if_pos ⟨hlow, hhigh⟩
    have h' : data.drop p = utfChar c.toNat ++ (writeUTF name ++ l) := by
      rw [h, writeUTF, List.flatMap_cons, List.append_assoc]
      rfl
    have hrest : data.drop (p + 1) = writeUTF name ++ l := by
      rw [← hlength, ← length_utfChar]
      exact drop_add_of_append h'
    have hih := ih (fun d hd => hname d (List.mem_cons_of_mem c hd)) hrest
    rw [readUTFLoop, if_pos (by simp), readChar_utfChar h' (.inl hlength), hlength, if_neg (by simp),
      Option.bind_some]
    simp only [Nat.sub_self, Nat.add_zero]
    rw [List.length_cons, show p + (name.length + 1) = p + 1 + name.length by omega, hih, UInt16.ofNat_toNat]
    rfl

/-! ### Properties -/

variable {text l data : List UInt8} {off : ℕ} {properties : LinkedMap Text Value} {key : Text}

theorem property_at (hdata : data.length ≤ 255) (h : text.drop off = (UInt8.ofNat data.length :: data) ++ l) :
    ∃ hoff : off < text.length, text[off].toNat = data.length ∧ off + 1 + data.length ≤ text.length ∧
      (text.drop (off + 1)).take data.length = data ∧ text.drop (off + 1) = data ++ l := by
  have hlength := congrArg List.length h
  rw [List.length_drop, List.length_append, List.length_cons] at hlength
  have hoff : off < text.length := by omega
  have hdrop : text.drop (off + 1) = data ++ l := drop_succ h
  have hget := getElem_of_drop h
  rw [List.getElem?_eq_getElem hoff] at hget
  refine ⟨hoff, ?_, by omega, by rw [hdrop, List.take_left], hdrop⟩
  rw [Option.some.inj hget, UInt8.toNat_ofNat']
  omega

theorem findIdx_name (hkey : Ascii key) (b : List UInt8) :
    (writeUTF key ++ equalsSign :: b).findIdx (· == equalsSign) = key.length := by
  have hnot : ∀ x ∈ writeUTF key, (x == equalsSign) = false := fun x hx =>
    beq_eq_false_iff_ne.mpr fun heq => equalsSign_notMem hkey (heq ▸ hx)
  rw [List.findIdx_append, List.findIdx_eq_length_of_false hnot, if_neg (Nat.lt_irrefl _), length_writeUTF hkey,
    List.findIdx_cons]
  simp

theorem propertiesLoop_value (hkey : Ascii key) {b : List UInt8} (hdata : data = writeUTF key ++ equalsSign :: b)
    (hshort : data.length ≤ 255) (h : text.drop off = (UInt8.ofNat data.length :: data) ++ l) :
    propertiesLoop text off properties =
      propertiesLoop text (off + 1 + data.length) (properties.put key (.bytes b)) := by
  obtain ⟨hoff, hlen, hend, htake, hdrop⟩ := property_at hshort h
  have hlength : data.length = key.length + 1 + b.length := by
    rw [hdata, List.length_append, List.length_cons, length_writeUTF hkey]
    omega
  have hname : readUTF text (off + 1) key.length = some (some key) := by
    refine readUTFLoop_name (l := equalsSign :: b ++ l) hkey ?_
    rw [hdrop, hdata, List.append_assoc]
  have hvalue : (text.drop (off + 1 + (key.length + 1))).take (data.length - (key.length + 1)) = b := by
    rw [← List.drop_drop, hdrop, hlength, hdata, List.append_assoc, ← List.drop_drop, ← length_writeUTF hkey,
      List.drop_left, List.cons_append, List.drop_one, List.tail_cons, Nat.add_sub_cancel_left, List.take_left]
  rw [propertiesLoop, dif_pos hoff]
  simp only [hlen]
  rw [if_neg (by omega), htake, hdata, findIdx_name hkey, hname, ← hdata]
  simp only
  rw [if_neg (by omega), hvalue]

/-- A name without a value is put, and read again as if it was a property. -/
theorem propertiesLoop_flag (hkey : Ascii key) (hne : key ≠ []) (hdata : (writeUTF key).length ≤ 255)
    (h : text.drop off = (UInt8.ofNat (writeUTF key).length :: writeUTF key) ++ l) :
    propertiesLoop text off properties = propertiesLoop text (off + 1) (properties.put key .noValue) := by
  obtain ⟨hoff, hlen, hend, htake, hdrop⟩ := property_at hdata h
  have hpos := length_writeUTF_pos hne
  have hname : readUTF text (off + 1) key.length = some (some key) := readUTFLoop_name hkey hdrop
  have hidx : (writeUTF key).findIdx (· == equalsSign) = key.length := by
    rw [List.findIdx_eq_length_of_false, length_writeUTF hkey]
    exact fun x hx => beq_eq_false_iff_ne.mpr fun heq => equalsSign_notMem hkey (heq ▸ hx)
  rw [propertiesLoop, dif_pos hoff]
  simp only [hlen]
  rw [if_neg (by omega), htake, hidx, hname]
  simp only
  rw [if_pos (length_writeUTF hkey).symm]

/-- A length that goes past the end of the text makes all properties disappear. -/
theorem propertiesLoop_past {b : UInt8} (h : text.drop off = b :: l) (hb : l.length < b.toNat) :
    propertiesLoop text off properties = LinkedMap.empty := by
  have hlength := congrArg List.length h
  rw [List.length_drop, List.length_cons] at hlength
  have hoff : off < text.length := by omega
  have hget := getElem_of_drop h
  rw [List.getElem?_eq_getElem hoff] at hget
  rw [propertiesLoop, dif_pos hoff, Option.some.inj hget]
  simp only
  rw [if_pos (.inr (by omega))]

/-- The properties of a map of texts. -/
def strings (props : List (Text × Text)) : List (Text × Property) := props.map fun p => (p.1, .string p.2)

/-- What `getProperties` puts for them. -/
def putStrings (properties : LinkedMap Text Value) (props : List (Text × Text)) : LinkedMap Text Value :=
  props.foldl (fun m p => m.put p.1 (.bytes (writeUTF p.2))) properties

theorem writeProperty_string {value : Text} {bytes : List UInt8}
    (h : writeProperty (key, .string value) = some bytes) :
    ∃ data, data = writeUTF key ++ equalsSign :: writeUTF value ∧ data.length ≤ 255 ∧
      bytes = UInt8.ofNat data.length :: data := by
  simp only [writeProperty, propertyData, Option.bind_eq_bind, Option.bind_some] at h
  split at h
  · cases h
  · next hshort => exact ⟨_, rfl, Nat.le_of_not_lt hshort, (Option.some.inj h).symm⟩

theorem writeProperty_null {bytes : List UInt8} (h : writeProperty (key, .null) = some bytes) :
    (writeUTF key).length ≤ 255 ∧ bytes = UInt8.ofNat (writeUTF key).length :: writeUTF key := by
  simp only [writeProperty, propertyData, Option.bind_eq_bind, Option.bind_some] at h
  split at h
  · cases h
  · next hshort => exact ⟨Nat.le_of_not_lt hshort, (Option.some.inj h).symm⟩

theorem propertiesLoop_strings {props : List (Text × Text)} (hascii : ∀ p ∈ props, Ascii p.1)
    {out : List (List UInt8)} (hout : (strings props).mapM writeProperty = some out)
    (h : text.drop off = out.flatten ++ l) : propertiesLoop text off properties =
      propertiesLoop text (off + out.flatten.length) (putStrings properties props) := by
  induction props generalizing off properties out with
  | nil =>
    obtain rfl : [] = out := Option.some.inj hout
    rfl
  | cons p props ih =>
    obtain ⟨bytes, rest, hbytes, hrest, rfl⟩ := mapM_cons_eq_some hout
    obtain ⟨data, hdata, hshort, rfl⟩ := writeProperty_string hbytes
    rw [List.flatten_cons, List.append_assoc] at h
    have hdrop : text.drop (off + 1 + data.length) = rest.flatten ++ l := by
      rw [← drop_add_of_append h, List.length_cons, Nat.add_assoc, Nat.add_comm 1]
    have hlength : off + (List.flatten ((UInt8.ofNat data.length :: data) :: rest)).length =
        off + 1 + data.length + rest.flatten.length := by
      rw [List.flatten_cons, List.length_append, List.length_cons]
      omega
    rw [propertiesLoop_value (hascii p List.mem_cons_self) hdata hshort h,
      ih (fun p hp => hascii p (List.mem_cons_of_mem _ hp)) hrest hdrop, hlength]
    rfl

theorem get_putStrings (props : List (Text × Text)) (hnodup : (props.map Prod.fst).Nodup) (name : Text) :
    (putStrings properties props).get name =
      ((props.lookup name).map fun value => .bytes (writeUTF value)).or (properties.get name) := by
  induction props generalizing properties with
  | nil => rfl
  | cons p props ih =>
    obtain ⟨hp, hnodup⟩ := List.nodup_cons.mp hnodup
    rw [putStrings, List.foldl_cons, ← putStrings, ih hnodup, LinkedMap.get_put, List.lookup_cons]
    by_cases hname : p.1 = name
    · subst hname
      have hnone : props.lookup p.1 = none := by
        rw [List.lookup_eq_none_iff]
        intro q hq
        rw [bne_iff_ne]
        intro heq
        rw [heq] at hp
        exact hp (List.mem_map_of_mem hq)
      simp [hnone]
    · rw [if_neg hname, beq_eq_false_iff_ne.mpr fun h => hname h.symm]

/-- **Properties are read back.** If the names of a map of texts are ASCII, then the value that a service has
for a name is the one of the map. It is `null` if the map has none, and if the last character of the value
has three bytes. -/
theorem getPropertyString_textFromProperties (props : List (Text × Text)) (hnodup : (props.map Prod.fst).Nodup)
    (hascii : ∀ p ∈ props, Ascii p.1) (text : List UInt8) (htext : textFromProperties (strings props) = some text)
    (name : Text) : getPropertyString text name = some ((props.lookup name).bind readBack) := by
  obtain ⟨out, hout, rfl⟩ := Option.map_eq_some_iff.mp htext
  have hproperties : getProperties (if out.flatten.length > 0 then out.flatten else emptyTxt) =
      putStrings LinkedMap.empty props := by
    cases props with
    | nil =>
      obtain rfl : [] = out := Option.some.inj hout
      rw [getProperties, propertiesLoop]
      rfl
    | cons p props =>
      obtain ⟨bytes, rest, hbytes, -, rfl⟩ := mapM_cons_eq_some hout
      obtain ⟨data, -, -, rfl⟩ := writeProperty_string hbytes
      have hpos : (List.flatten ((UInt8.ofNat data.length :: data) :: rest)).length > 0 := by
        rw [List.flatten_cons, List.length_append, List.length_cons]
        omega
      rw [getProperties, if_pos hpos, getTextBytes, if_pos hpos,
        propertiesLoop_strings (l := []) hascii hout (List.append_nil _).symm, propertiesLoop,
        dif_neg (by rw [Nat.zero_add]; exact Nat.lt_irrefl _)]
  rw [getPropertyString, hproperties, get_putStrings props hnodup]
  cases props.lookup name with
  | none => rfl
  | some value =>
    show readUTF (writeUTF value) 0 (writeUTF value).length = some (readBack value)
    rw [readUTF, Nat.zero_add]
    exact readUTFLoop_value rfl (Nat.zero_le _)

/-- Two properties of a loudspeaker, one of them with a value that is not ASCII. -/
def speakerProperties : List (Text × Text) :=
  [([99, 104], [50]), ([110, 97, 109, 101], [75, 252, 99, 104, 101]), ([118, 115], [26085])]

theorem getPropertyString_speakerProperties :
    ∃ text, textFromProperties (strings speakerProperties) = some text ∧
      getPropertyString text [110, 97, 109, 101] = some (some [75, 252, 99, 104, 101]) ∧
      getPropertyString text [118, 115] = some none := by
  refine ⟨_, rfl, ?_, ?_⟩
  · exact getPropertyString_textFromProperties speakerProperties (by decide) (by decide) _ rfl _
  · exact getPropertyString_textFromProperties speakerProperties (by decide) (by decide) _ rfl _

/-- The name without a value is read as a property that goes past the end of the text. -/
theorem getProperties_flag {props : List (Text × Text)} (hascii : ∀ p ∈ props, Ascii p.1) {out : List (List UInt8)}
    (hout : (strings props).mapM writeProperty = some out) {c : UInt16} {flag : Text} (hflag : Ascii (c :: flag))
    (hshort : (writeUTF (c :: flag)).length ≤ 255) (hc : flag.length + l.length < c.toNat)
    (htext : text = out.flatten ++ ((UInt8.ofNat (writeUTF (c :: flag)).length :: writeUTF (c :: flag)) ++ l)) :
    getProperties text = LinkedMap.empty := by
  obtain ⟨hlow, hhigh, -⟩ := hflag c List.mem_cons_self
  have hlength : (writeUTF flag).length = flag.length :=
    length_writeUTF fun d hd => hflag d (List.mem_cons_of_mem c hd)
  have hpos : text.length > 0 := by
    rw [htext, List.length_append, List.length_append, List.length_cons]
    omega
  have hdrop₀ : text.drop 0 =
      out.flatten ++ ((UInt8.ofNat (writeUTF (c :: flag)).length :: writeUTF (c :: flag)) ++ l) := htext
  have hdrop := drop_add_of_append hdrop₀
  have hname : text.drop (0 + out.flatten.length + 1) = UInt8.ofNat c.toNat :: (writeUTF flag ++ l) := by
    rw [drop_succ hdrop, writeUTF_cons ⟨hlow, hhigh⟩]
    rfl
  rw [getProperties, getTextBytes, if_pos hpos, propertiesLoop_strings hascii hout hdrop₀,
    propertiesLoop_flag hflag (List.cons_ne_nil c flag) hshort hdrop]
  refine propertiesLoop_past hname ?_
  rw [toNat_ofNat_ascii hhigh, List.length_append, hlength]
  exact hc

/-- **Names without a value.** If a name without a value follows properties with ASCII names, and its first
character is greater than the number of the bytes that are left, then the service has no properties. -/
theorem getPropertyString_flag (props : List (Text × Text)) (hascii : ∀ p ∈ props, Ascii p.1) (c : UInt16)
    (flag : Text) (hflag : Ascii (c :: flag)) (others : List (Text × Property)) (out : List (List UInt8))
    (hothers : others.mapM writeProperty = some out) (hc : flag.length + out.flatten.length < c.toNat)
    (text : List UInt8) (htext : textFromProperties (strings props ++ (c :: flag, .null) :: others) = some text)
    (name : Text) : getPropertyString text name = some none := by
  obtain ⟨all, hall, rfl⟩ := Option.map_eq_some_iff.mp htext
  obtain ⟨out₁, hout₁, hall⟩ := Option.bind_eq_some_iff.mp ((List.mapM_append ..).symm.trans hall)
  obtain ⟨out₂, hout₂, hall⟩ := Option.bind_eq_some_iff.mp hall
  obtain rfl : out₁ ++ out₂ = all := Option.some.inj hall
  obtain ⟨bytes, rest, hbytes, hrest, rfl⟩ := mapM_cons_eq_some hout₂
  obtain rfl : out = rest := Option.some.inj (hothers.symm.trans hrest)
  obtain ⟨hshort, rfl⟩ := writeProperty_null hbytes
  rw [List.flatten_append, List.flatten_cons, if_pos, getPropertyString,
    getProperties_flag hascii hout₁ hflag hshort hc rfl]
  · rfl
  · rw [List.length_append, List.length_append, List.length_cons]
    omega

/-- A loudspeaker that says that it has a password. -/
theorem getPropertyString_flag_password :
    ∃ text, textFromProperties (strings speakerProperties ++ [([112, 119], .null)]) = some text ∧
      getPropertyString text [99, 104] = some none :=
  ⟨_, rfl, getPropertyString_flag speakerProperties (by decide) 112 [119] (by decide) [] [] rfl (by decide) _ rfl _⟩

end Waveplay.Jmdns.TextRecord
