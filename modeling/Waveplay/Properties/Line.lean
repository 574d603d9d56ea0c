import Mathlib.Data.List.Basic
import Mathlib.Data.Int.Notation
import Mathlib.Tactic.Common

/-! # Lines of a property file: `Prop` of `PropertyManager`

A property is read from a line and written back. A Java string is the list of its UTF-16 units; what the
platform says about characters is given by a `Characters`.

* `ofText`: the constructor `Prop(String)`.
* `toText`: `toString`.
* `readQuotedString_quote`: a text that can be written is read back. -/

namespace Waveplay.Properties.Line

abbrev Text := List UInt16

/-- The unit of a character of the basic plane. -/
def unit (c : Char) : UInt16 := UInt16.ofNat c.toNat

def TAB : UInt16 := 9
def LF : UInt16 := 10
def CR : UInt16 := 13
def SPACE : UInt16 := 32
def QUOTE : UInt16 := 34
def HASH : UInt16 := 35
def APOSTROPHE : UInt16 := 39
def COLON : UInt16 := 58
def EQUALS : UInt16 := 61
def BACKSLASH : UInt16 := 92

/-- A digit of base 16, in lower case. -/
def hexDigit (n : ℕ) : UInt16 := UInt16.ofNat (if n < 10 then 48 + n else 87 + n)

/-- What the platform says about characters: `Character.isUnicodeIdentifierPart`, and
`Character.digit` for base 16. -/
structure Characters where
  isUnicodeIdentifierPart : UInt16 → Bool
  digit : UInt16 → Option ℕ
  space : isUnicodeIdentifierPart SPACE = false
  digit_hexDigit : ∀ n < 16, digit (hexDigit n) = some n

/-- A line, without its number. -/
structure Property where
  key : Option Text := none
  value : Option Text := none
  comment : Text := []
  readonly : Bool := false
  deriving DecidableEq

/-! ### Reading -/

def readSpaces (s : Text) : Text := s.dropWhile fun c => c = SPACE || c = TAB

/-- The characters besides those of an identifier. -/
def marks : Text :=
  ['[', ']', '!', '@', '£', '$', '%', '^', '&', '*', '(', ')', '-', '+', '<', '>', ',', '.', '/', '?', '~',
    '€', '|', '"', '\\', '\''].map unit

section

variable (ch : Characters)

def isIdentifierPart (c : UInt16) : Bool := ch.isUnicodeIdentifierPart c || marks.contains c

/-- The digits of a number. -/
def digits (s : Text) : Option ℕ := s.foldlM (fun n c => (ch.digit c).map (16 * n + ·)) 0

/-- `Integer.parseInt` for base 16. -/
def parseInt : Text → Option ℤ
  | [] => none
  | c :: s =>
    if c = unit '+' then if s = [] then none else (digits ch s).map fun n => (n : ℤ)
    else if c = unit '-' then if s = [] then none else (digits ch s).map fun n => -(n : ℤ)
    else (digits ch (c :: s)).map fun n => (n : ℤ)

/-- The cast to `char`. -/
def toChar (n : ℤ) : UInt16 := UInt16.ofNat (n % 65536).toNat

/-- A character before what was read. -/
def push (c : UInt16) (r : Option (Text × Text)) : Option (Text × Text) :=
  r.map fun (out, rest) => (c :: out, rest)

/-- `readQuotedString`: what is read and the rest, `none` for an exception. -/
def readQuotedString : Option UInt16 → Text → Option (Text × Text)
  | quote, [] => if quote.isNone then some ([], []) else none
  | quote, c :: s =>
    if isIdentifierPart ch c || quote.isSome then
      if c = BACKSLASH then
        match s with
        | [] => none
        | d :: s =>
          if d = unit 'n' then push LF (readQuotedString quote s)
          else if d = unit 'r' then push CR (readQuotedString quote s)
          else if d = unit 't' then push TAB (readQuotedString quote s)
          else if d = unit 'u' then
            match s with
            | u₁ :: u₂ :: u₃ :: u₄ :: rest =>
              match parseInt ch [u₁, u₂, u₃, u₄] with
              | some n => push (toChar n) (readQuotedString quote rest)
              | none => push d (readQuotedString quote (u₁ :: u₂ :: u₃ :: u₄ :: rest))
            | s => push d (readQuotedString quote s)
          else push d (readQuotedString quote s)
      else if (c = APOSTROPHE ∨ c = QUOTE) ∧ (quote = none ∨ quote = some c) then
        readQuotedString (if quote.isNone then some c else none) s
      else push c (readQuotedString quote s)
    else some ([], c :: s)

/-- What stands between key and value: whether it is `:=`, and the rest. -/
def readSeparator : Text → Option (Bool × Text)
  | [] => none
  | c :: s =>
    if c = EQUALS then some (false, s)
    else if c = COLON ∧ 2 < s.length ∧ s.head? = some EQUALS then some (true, s.tail)
    else none

/-- **`Prop(String)`**, `none` for an exception. -/
def ofText (s : Text) : Option Property := do
  let (key, s₁) ← readQuotedString ch none (readSpaces s)
  if key = [] then some { comment := s }
  else
    let (readonly, s₂) ← readSeparator (readSpaces s₁)
    let (value, s₃) ← readQuotedString ch none (readSpaces s₂)
    if readSpaces s₃ = [] ∨ (readSpaces s₃).head? = some HASH then
      some { key, value, comment := s₃, readonly }
    else none

/-! ### Writing -/

/-- A character as it is written; `u` is followed by the last four digits of `000` and the number. -/
def escaped (c : UInt16) : Text :=
  if c = LF then [BACKSLASH, unit 'n']
  else if c = CR then [BACKSLASH, unit 'r']
  else if c = QUOTE then [BACKSLASH, QUOTE]
  else if c < 0x20 ∨ 0x80 ≤ c then
    [BACKSLASH, unit 'u', hexDigit (c.toNat / 4096), hexDigit (c.toNat / 256 % 16),
      hexDigit (c.toNat / 16 % 16), hexDigit (c.toNat % 16)]
  else [c]

def needsquote (s : Text) : Bool := s.any fun c => !isIdentifierPart ch c

def quote (s : Text) : Text :=
  if needsquote ch s then QUOTE :: (s.flatMap escaped ++ [QUOTE]) else s.flatMap escaped

def separator (readonly : Bool) : Text :=
  if readonly then [SPACE, COLON, EQUALS, SPACE] else [SPACE, EQUALS, SPACE]

/-- **`toString`**, `none` for an exception. -/
def toText (p : Property) : Option Text :=
  match p.key with
  | none => some p.comment
  | some key => p.value.map fun value =>
      quote ch key ++ separator p.readonly ++ quote ch value ++ p.comment

end

/-! ### One character -/

section

variable {ch : Characters} {q : Option UInt16} {c : UInt16} {s : Text}

/-- What a backslash stands for together with the text after it, and the rest. -/
def escape (ch : Characters) : Text → Option (UInt16 × Text)
  | [] => none
  | d :: s =>
    if d = unit 'n' then some (LF, s)
    else if d = unit 'r' then some (CR, s)
    else if d = unit 't' then some (TAB, s)
    else if d = unit 'u' then
      match s with
      | u₁ :: u₂ :: u₃ :: u₄ :: rest =>
        match parseInt ch [u₁, u₂, u₃, u₄] with
        | some n => some (toChar n, rest)
        | none => some (d, u₁ :: u₂ :: u₃ :: u₄ :: rest)
      | s => some (d, s)
    else some (d, s)

theorem isIdentifierPart_mark (hc : c ∈ marks) : isIdentifierPart ch c = true := by
  simp [isIdentifierPart, hc]

theorem isIdentifierPart_space (ch : Characters) : isIdentifierPart ch SPACE = false := by
  rw [isIdentifierPart, ch.space]
  decide

theorem readQuotedString_escape (q : Option UInt16) (s : Text) :
    readQuotedString ch q (BACKSLASH :: s) =
      (escape ch s).bind fun (o, rest) => push o (readQuotedString ch q rest) := by
  have hpart : isIdentifierPart ch BACKSLASH = true := isIdentifierPart_mark (by decide)
  rw [readQuotedString.eq_def]
  simp only [hpart, Bool.true_or, if_true]
  cases s with
  | nil => rfl
  | cons d s =>
    simp only [escape]
    split_ifs
    · rfl
    · rfl
    · rfl
    · match s with
      | [] | [_] | [_, _] | [_, _, _] => rfl
      | u₁ :: u₂ :: u₃ :: u₄ :: rest =>
        simp only
        cases parseInt ch [u₁, u₂, u₃, u₄] with
        | none => rfl
        | some n => rfl
    · rfl

theorem readQuotedString_toggle (hc : c = APOSTROPHE ∨ c = QUOTE) (hq : q = none ∨ q = some c) :
    readQuotedString ch q (c :: s) = readQuotedString ch (if q.isNone then some c else none) s := by
  have hpart : isIdentifierPart ch c = true := by
    rcases hc with rfl | rfl <;> exact isIdentifierPart_mark (by decide)
  have hback : c ≠ BACKSLASH := by rcases hc with rfl | rfl <;> decide
  rw [readQuotedString.eq_def]
  simp only [hpart, Bool.true_or, if_true, if_neg hback, if_pos (And.intro hc hq)]

theorem readQuotedString_plain (hpart : isIdentifierPart ch c = true ∨ q.isSome = true)
    (hback : c ≠ BACKSLASH) (hquote : ¬ ((c = APOSTROPHE ∨ c = QUOTE) ∧ (q = none ∨ q = some c))) :
    readQuotedString ch q (c :: s) = push c (readQuotedString ch q s) := by
  have hpart : (isIdentifierPart ch c || q.isSome) = true := Bool.or_eq_true_iff.mpr hpart
  rw [readQuotedString.eq_def]
  simp only [hpart, if_true, if_neg hback, if_neg hquote]

theorem readQuotedString_stop (hpart : isIdentifierPart ch c = false) :
    readQuotedString ch none (c :: s) = some ([], c :: s) := by
  rw [readQuotedString.eq_def]
  simp [hpart]

/-! ### Reading what was written -/

theorem hexDigit_ne : ∀ n < 16, hexDigit n ≠ unit '+' ∧ hexDigit n ≠ unit '-' := by decide

theorem parseInt_hexDigit (ch : Characters) (c : UInt16) :
    parseInt ch [hexDigit (c.toNat / 4096), hexDigit (c.toNat / 256 % 16),
      hexDigit (c.toNat / 16 % 16), hexDigit (c.toNat % 16)] = some (c.toNat : ℤ) := by
  have hlt : c.toNat < 65536 := c.toNat_lt
  have h₁ := ch.digit_hexDigit (c.toNat / 4096) (by omega)
  have h₂ := ch.digit_hexDigit (c.toNat / 256 % 16) (by omega)
  have h₃ := ch.digit_hexDigit (c.toNat / 16 % 16) (by omega)
  have h₄ := ch.digit_hexDigit (c.toNat % 16) (by omega)
  have hsum : 16 * (16 * (16 * (16 * 0 + c.toNat / 4096) + c.toNat / 256 % 16) +
      c.toNat / 16 % 16) + c.toNat % 16 = c.toNat := by omega
  obtain ⟨hplus, hminus⟩ := hexDigit_ne (c.toNat / 4096) (by omega)
  rw [parseInt, if_neg hplus, if_neg hminus, digits]
  simp only [List.foldlM_cons, List.foldlM_nil, h₁, h₂, h₃, h₄, Option.map_some, Option.bind_eq_bind,
    Option.bind_some, Option.pure_def, hsum]

theorem toChar_toNat (c : UInt16) : toChar (c.toNat : ℤ) = c := by
  have hlt : c.toNat < 65536 := c.toNat_lt
  rw [toChar, Int.emod_eq_of_lt (by omega) (by omega), Int.toNat_natCast, UInt16.ofNat_toNat]

theorem escape_unicode {u₁ u₂ u₃ u₄ : UInt16} {n : ℤ} (h : parseInt ch [u₁, u₂, u₃, u₄] = some n)
    (rest : Text) : escape ch (unit 'u' :: u₁ :: u₂ :: u₃ :: u₄ :: rest) = some (toChar n, rest) := by
  rw [escape.eq_def]
  simp only [h]
  rfl

/-- **One character** is read as it was written, if it is no backslash, and in quotes or no
apostrophe. -/
theorem readQuotedString_escaped (hback : c ≠ BACKSLASH)
    (hq : q = some QUOTE ∨ q = none ∧ isIdentifierPart ch c = true ∧ c ≠ APOSTROPHE) (s : Text) :
    readQuotedString ch q (escaped c ++ s) = push c (readQuotedString ch q s) := by
  unfold escaped
  split_ifs with hlf hcr hquote hcontrol
  · rw [hlf]
    exact readQuotedString_escape q (unit 'n' :: s)
  · rw [hcr]
    exact readQuotedString_escape q (unit 'r' :: s)
  · rw [hquote]
    exact readQuotedString_escape q (QUOTE :: s)
  · have hescape : escape ch ([unit 'u', hexDigit (c.toNat / 4096), hexDigit (c.toNat / 256 % 16),
        hexDigit (c.toNat / 16 % 16), hexDigit (c.toNat % 16)] ++ s) = some (c, s) := by
      have hescape := escape_unicode (parseInt_hexDigit ch c) s
      rwa [toChar_toNat] at hescape
    rw [List.cons_append, readQuotedString_escape, hescape]
    rfl
  · refine readQuotedString_plain ?_ hback ?_
    · rcases hq with rfl | ⟨-, hpart, -⟩
      · exact .inr rfl
      · exact .inl hpart
    · rintro ⟨hc | hc, hq'⟩
      · rcases hq with rfl | ⟨-, -, hne⟩
        · subst hc
          revert hq'
          decide
        · exact hne hc
      · exact hquote hc

/-- A text that can be written: it has no backslash, and an apostrophe only in quotes. -/
structure Writable (ch : Characters) (s : Text) : Prop where
  backslash : BACKSLASH ∉ s
  apostrophe : APOSTROPHE ∈ s → needsquote ch s = true

/-- What is read in front of the rest. -/
def pushAll (w : Text) (r : Option (Text × Text)) : Option (Text × Text) :=
  r.map fun (out, rest) => (w ++ out, rest)

theorem readQuotedString_flatMap : ∀ {w : Text},
    (∀ c ∈ w, c ≠ BACKSLASH ∧ (q = some QUOTE ∨ q = none ∧ isIdentifierPart ch c = true ∧ c ≠ APOSTROPHE)) →
    ∀ s, readQuotedString ch q (w.flatMap escaped ++ s) = pushAll w (readQuotedString ch q s)
  | [], _, s => by
    rw [List.flatMap_nil, List.nil_append]
    exact (Option.map_id' (x := readQuotedString ch q s)).symm
  | c :: w, h, s => by
    obtain ⟨hback, hq⟩ := h c List.mem_cons_self
    have ih := readQuotedString_flatMap (fun d hd => h d (List.mem_cons_of_mem c hd)) s
    rw [List.flatMap_cons, List.append_assoc, readQuotedString_escaped hback hq, ih]
    cases readQuotedString ch q s <;> rfl

/-- **A text that can be written** is read back, up to a character that ends it. -/
theorem readQuotedString_quote (h : Writable ch s) {rest : Text}
    (hrest : ∀ d, rest.head? = some d → isIdentifierPart ch d = false) :
    readQuotedString ch none (quote ch s ++ rest) = some (s, rest) := by
  have hend : readQuotedString ch none rest = some ([], rest) := by
    cases rest with
    | nil => rfl
    | cons d rest => exact readQuotedString_stop (hrest d rfl)
  cases hneeds : needsquote ch s with
  | true =>
    have hall : ∀ c ∈ s, c ≠ BACKSLASH ∧ (some QUOTE = some QUOTE ∨
        some QUOTE = none ∧ isIdentifierPart ch c = true ∧ c ≠ APOSTROPHE) :=
      fun c hc => ⟨fun hb => h.backslash (hb ▸ hc), .inl rfl⟩
    rw [quote, if_pos hneeds, List.cons_append, readQuotedString_toggle (.inr rfl) (.inl rfl),
      List.append_assoc]
    refine (readQuotedString_flatMap hall _).trans ?_
    rw [List.singleton_append, readQuotedString_toggle (.inr rfl) (.inr rfl)]
    show pushAll s (readQuotedString ch none rest) = _
    simp [hend, pushAll]
  | false =>
    have hpart : ∀ c ∈ s, isIdentifierPart ch c = true := by simpa [needsquote] using hneeds
    have hall : ∀ c ∈ s, c ≠ BACKSLASH ∧ (none = some QUOTE ∨
        (none : Option UInt16) = none ∧ isIdentifierPart ch c = true ∧ c ≠ APOSTROPHE) := by
      intro c hc
      refine ⟨fun hb => h.backslash (hb ▸ hc), .inr ⟨rfl, hpart c hc, fun ha => ?_⟩⟩
      have hneeds' := h.apostrophe (ha ▸ hc)
      rw [hneeds] at hneeds'
      exact Bool.false_ne_true hneeds'
    rw [quote, if_neg (by rw [hneeds]; exact Bool.false_ne_true)]
    refine (readQuotedString_flatMap hall _).trans ?_
    simp [hend, pushAll]

end

end Waveplay.Properties.Line
