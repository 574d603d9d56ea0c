import Mathlib.Data.List.Basic

/-! # Messages of header lines

A message has a first line, fields of a name and a value, one a line, an empty line, and a body that is
whatever comes after it. A line ends with two characters, `cr` and `lf`; a name ends at its first
`colon`, and a `space` stands between the colon and the value.

* `parse` reads a message, and `Message.text` is the text of one;
* **`parse_text`**: a message is read back from its text if no line has the character `cr` in it, and no
  name a colon. -/

namespace Waveplay.Lib.HeaderLines

variable {α : Type*}

/-- The characters that lines and fields are made with. -/
structure Marks (α : Type*) where
  cr : α
  lf : α
  colon : α
  space : α

/-- A message: its first line, its fields, and its body. -/
structure Message (α : Type*) where
  first : List α
  fields : List (List α × List α)
  body : List α
  deriving DecidableEq

variable {k : Marks α}

/-! ### Text -/

/-- The end of a line. -/
def Marks.eol (k : Marks α) : List α := [k.cr, k.lf]

/-- The line of a field. -/
def Marks.line (k : Marks α) (f : List α × List α) : List α := f.1 ++ k.colon :: k.space :: f.2

/-- The lines of fields. -/
def Marks.lines (k : Marks α) (fs : List (List α × List α)) : List α :=
  fs.flatMap fun f => k.line f ++ k.eol

def Message.text (k : Marks α) (m : Message α) : List α :=
  m.first ++ (k.eol ++ (k.lines m.fields ++ (k.eol ++ m.body)))

/-- A name and a value that stay on their line. -/
structure FieldOk (k : Marks α) (f : List α × List α) : Prop where
  name : k.cr ∉ f.1
  value : k.cr ∉ f.2
  colon : k.colon ∉ f.1

theorem FieldOk.line {f : List α × List α} (h : FieldOk k f) (hcolon : k.cr ≠ k.colon)
    (hspace : k.cr ≠ k.space) : k.cr ∉ k.line f := by
  rw [Marks.line, List.mem_append, List.mem_cons, List.mem_cons]
  rintro (hm | hm | hm | hm)
  · exact h.name hm
  · exact hcolon hm
  · exact hspace hm
  · exact h.value hm

theorem lines_cons (f : List α × List α) (fs : List (List α × List α)) :
    k.lines (f :: fs) = k.line f ++ (k.eol ++ k.lines fs) := by
  rw [Marks.lines, List.flatMap_cons, List.append_assoc]
  rfl

theorem length_le_lines (fs : List (List α × List α)) : fs.length ≤ (k.lines fs).length := by
  induction fs with
  | nil => exact Nat.zero_le _
  | cons f fs ih =>
    have heol : k.eol.length = 2 := rfl
    rw [lines_cons, List.length_append, List.length_append, List.length_cons]
    omega

/-! ### Parsing -/

variable [DecidableEq α]

/-- The first line of a text, and what comes after its end. -/
def cutLine (k : Marks α) : List α → Option (List α × List α)
  | a :: b :: t =>
    if a = k.cr ∧ b = k.lf then some ([], t) else (cutLine k (b :: t)).map fun r => (a :: r.1, r.2)
  | _ => none

/-- The name and the value on the line of a field. -/
def cutField (k : Marks α) (line : List α) : Option (List α × List α) :=
  match line.dropWhile (· ≠ k.colon) with
  | _ :: s :: value => if s = k.space then some (line.takeWhile (· ≠ k.colon), value) else none
  | _ => none

/-- The fields up to an empty line, and what comes after it. -/
def parseFields (k : Marks α) : ℕ → List α → Option (List (List α × List α) × List α)
  | 0, _ => none
  | fuel + 1, t =>
    (cutLine k t).bind fun l =>
      if l.1 = [] then some ([], l.2)
      else (cutField k l.1).bind fun f => (parseFields k fuel l.2).map fun r => (f :: r.1, r.2)

/-- Read a message. Every field takes a character. -/
def parse (k : Marks α) (t : List α) : Option (Message α) :=
  (cutLine k t).bind fun l =>
    (parseFields k (l.2.length + 1) l.2).map fun r => ⟨l.1, r.1, r.2⟩

theorem cutLine_eol : ∀ {line : List α}, k.cr ∉ line → ∀ rest : List α,
    cutLine k (line ++ (k.eol ++ rest)) = some (line, rest)
  | [], _, rest => by simp [Marks.eol, cutLine]
  | a :: line, h, rest => by
    obtain ⟨ha, hline⟩ := not_or.mp (mt List.mem_cons.mpr h)
    obtain ⟨b, t, hbt⟩ : ∃ b t, line ++ (k.eol ++ rest) = b :: t := by
      cases line with
      | nil => exact ⟨k.cr, k.lf :: rest, rfl⟩
      | cons b t => exact ⟨b, t ++ (k.eol ++ rest), rfl⟩
    have ih := cutLine_eol hline rest
    rw [hbt] at ih
    rw [List.cons_append, hbt, cutLine, if_neg (fun hc => ha hc.1.symm), ih]
    rfl

theorem cutField_line {f : List α × List α} (h : k.colon ∉ f.1) : cutField k (k.line f) = some f := by
  have hall : ∀ a ∈ f.1, decide (a ≠ k.colon) = true := by
    intro a ha
    rw [decide_eq_true_eq]
    exact fun heq => h (heq ▸ ha)
  rw [cutField, Marks.line, List.dropWhile_append_of_pos hall, List.takeWhile_append_of_pos hall]
  simp

theorem parseFields_lines (hcolon : k.cr ≠ k.colon) (hspace : k.cr ≠ k.space) (body : List α) :
    ∀ {fs : List (List α × List α)} {fuel : ℕ}, (∀ f ∈ fs, FieldOk k f) → fs.length < fuel →
      parseFields k fuel (k.lines fs ++ (k.eol ++ body)) = some (fs, body)
  | [], fuel, _, hfuel => by
    obtain ⟨fuel, rfl⟩ : ∃ n, fuel = n + 1 := ⟨fuel - 1, by omega⟩
    have hcut : cutLine k (k.eol ++ body) = some ([], body) := cutLine_eol List.not_mem_nil body
    rw [Marks.lines, List.flatMap_nil, List.nil_append, parseFields, hcut]
    rfl
  | f :: fs, fuel, hfs, hfuel => by
    rw [List.length_cons] at hfuel
    obtain ⟨fuel, rfl⟩ : ∃ n, fuel = n + 1 := ⟨fuel - 1, by omega⟩
    obtain ⟨hf, hfs⟩ := List.forall_mem_cons.mp hfs
    have hcut := cutLine_eol (hf.line hcolon hspace) (k.lines fs ++ (k.eol ++ body))
    have hne : k.line f ≠ [] := by simp [Marks.line]
    have ih := parseFields_lines hcolon hspace body hfs (show fs.length < fuel by omega)
    rw [lines_cons, List.append_assoc, List.append_assoc, parseFields, hcut, Option.bind_some,
      if_neg hne, cutField_line hf.colon, Option.bind_some, ih]
    rfl

/-- **A message is read back from its text.** -/
theorem parse_text (hcolon : k.cr ≠ k.colon) (hspace : k.cr ≠ k.space) {m : Message α}
    (hfirst : k.cr ∉ m.first) (hfields : ∀ f ∈ m.fields, FieldOk k f) :
    parse k (m.text k) = some m := by
  have hfuel : m.fields.length < (k.lines m.fields ++ (k.eol ++ m.body)).length + 1 := by
    have hle := length_le_lines (k := k) m.fields
    rw [List.length_append]
    omega
  rw [parse, Message.text, cutLine_eol hfirst, Option.bind_some,
    parseFields_lines hcolon hspace m.body hfields hfuel]
  rfl

end Waveplay.Lib.HeaderLines
