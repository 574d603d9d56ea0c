import Mathlib.Algebra.BigOperators.Group.List.Basic
import Mathlib.Data.Int.Notation
import Mathlib.Data.List.Basic
import Mathlib.Tactic.Common

/-! # `aexcl_lib`: memory, lines and key-data tables

Strings are lists of bytes without the terminating zero. A pointer to a string is `none` for `NULL`,
and a table is the list of the entries in its block of memory, with the terminator and what follows
it. -/

namespace Waveplay.RaopPlay.AexclLib

abbrev Bytes := List UInt8

/-- The bytes of a text. -/
def ascii (s : String) : Bytes := s.toList.map fun c => UInt8.ofNat c.toNat

def CR : UInt8 := 13
def LF : UInt8 := 10

/-! ### Memory -/

/-- The loop of `realloc_memory`: the first of the powers of two from `n` on that is large enough,
`newsize` itself if `k` of them are too small. -/
def roundUp : ℕ → ℕ → ℕ → ℕ
  | 0, _, newsize => newsize
  | k + 1, n, newsize => if newsize ≤ n then n else roundUp k (n <<< 1) newsize

/-- The size of the block from `realloc_memory`. It clears `*p` first, so that the contents of the block
are new and unspecified. -/
def reallocSize (newsize : ℕ) : ℕ := roundUp 8 16 newsize

theorem le_roundUp (newsize : ℕ) : ∀ k n, newsize ≤ roundUp k n newsize
  | 0, _ => Nat.le_refl _
  | k + 1, n => by
    rw [roundUp]
    split_ifs with h
    · exact h
    · exact le_roundUp newsize k (n <<< 1)

/-! ### Lines -/

/-- What `read` does when nothing is left: there is nothing to wait for, the other side has closed, or
it fails, with `EAGAIN` or otherwise. -/
inductive End
  | idle
  | eof
  | eagain
  | error
  deriving DecidableEq, Repr

/-- A socket: the bytes that will come, each with the milliseconds one has to wait for it. -/
structure Socket where
  arriving : List (ℕ × UInt8)
  ends : End := .idle
  deriving DecidableEq, Repr

/-- One turn of the loop of `read_line`, up to the test of the byte: the function returns, or there is
a byte. -/
inductive Turn
  | ret (rval : ℤ) (s : Socket)
  | byte (ch : UInt8) (s : Socket)

/-- `poll`, then `read`. Time that was spent waiting in vain counts for the next call. -/
def Socket.turn (s : Socket) (timeout : ℕ) : Turn :=
  match s.arriving with
  | (w, ch) :: rest =>
    if w ≤ timeout then .byte ch { s with arriving := rest }
    else .ret 0 { s with arriving := (w - timeout, ch) :: rest }
  | [] =>
    match s.ends with
    | .idle => .ret 0 s
    | .eof => .ret (-1) s
    | .eagain => .ret 0 s
    | .error => .ret (-1) s

/-- What `read_line` returns, and what it leaves in the buffer. -/
structure Line where
  rval : ℤ
  line : Bytes
  sock : Socket
  deriving DecidableEq, Repr

/-- The loop of `read_line`, with the turns left and the number of characters stored. -/
def readLineLoop (maxlen timeout : ℕ) : ℕ → ℕ → Socket → Line
  | 0, count, s => ⟨count, [], s⟩
  | n + 1, count, s =>
    match s.turn timeout with
    | .ret rval s => ⟨rval, [], s⟩
    | .byte ch s =>
      if ch = LF then ⟨count, [], s⟩
      else if ch = CR then readLineLoop maxlen timeout n count s
      else if maxlen - 1 ≤ count + 1 then ⟨count + 1, [ch], s⟩
      else
        let out := readLineLoop maxlen timeout n (count + 1) s
        { out with line := ch :: out.line }

/-- The string in a buffer ends at the first zero. -/
def cstr (bs : Bytes) : Bytes := bs.takeWhile (· ≠ 0)

/-- **`read_line`**, with `no_poll` zero. -/
def readLine (s : Socket) (maxlen timeout : ℕ) : Line :=
  let out := readLineLoop maxlen timeout maxlen 0 s
  { out with line := cstr out.line }

/-- Bytes that come within the time. -/
def Prompt (timeout : ℕ) (arr : List (ℕ × UInt8)) (bs : Bytes) : Prop :=
  arr.map Prod.snd = bs ∧ ∀ a ∈ arr, a.1 ≤ timeout

instance (timeout : ℕ) (arr : List (ℕ × UInt8)) (bs : Bytes) : Decidable (Prompt timeout arr bs) :=
  inferInstanceAs (Decidable (_ ∧ _))

theorem Prompt.mono {timeout timeout' : ℕ} (hle : timeout ≤ timeout') {arr : List (ℕ × UInt8)}
    {bs : Bytes} (h : Prompt timeout arr bs) : Prompt timeout' arr bs :=
  ⟨h.1, fun a ha => Nat.le_trans (h.2 a ha) hle⟩

/-- The characters of a text line; a zero would end the string. -/
def Plain (l : Bytes) : Prop := ∀ ch ∈ l, ch ≠ CR ∧ ch ≠ LF ∧ ch ≠ 0

instance (l : Bytes) : Decidable (Plain l) := inferInstanceAs (Decidable (∀ ch ∈ l, _))

/-- What is stored of a line. -/
def stored (l : Bytes) : Bytes := l.filter (· ≠ CR)

theorem Plain.cstr {l : Bytes} (hl : Plain l) : cstr l = l := by
  have hall : ∀ ch ∈ l, decide (ch ≠ 0) = true := fun ch hch => decide_eq_true (hl ch hch).2.2
  rw [AexclLib.cstr, ← List.append_nil l, List.takeWhile_append_of_pos hall]
  rfl

theorem Plain.stored {l : Bytes} (hl : Plain l) : stored l = l := by
  simpa [AexclLib.stored] using fun ch hch => (hl ch hch).1

theorem Plain.notMem {l : Bytes} (hl : Plain l) : LF ∉ l := fun h => (hl LF h).2.1 rfl

theorem length_stored_le (l : Bytes) : (stored l).length ≤ l.length := List.length_filter_le ..

theorem prompt_cons {timeout : ℕ} {arr : List (ℕ × UInt8)} {ch : UInt8} {bs : Bytes}
    (h : Prompt timeout arr (ch :: bs)) :
    ∃ w arr', arr = (w, ch) :: arr' ∧ w ≤ timeout ∧ Prompt timeout arr' bs := by
  obtain ⟨hmap, hw⟩ := h
  obtain ⟨⟨w, c⟩, arr', rfl, rfl, hmap'⟩ := List.map_eq_cons_iff.mp hmap
  exact ⟨w, arr', rfl, hw _ List.mem_cons_self, hmap', fun a ha => hw a (List.mem_cons_of_mem _ ha)⟩

theorem prompt_append {timeout : ℕ} {arr : List (ℕ × UInt8)} {bs bs' : Bytes}
    (h : Prompt timeout arr (bs ++ bs')) :
    ∃ a a', arr = a ++ a' ∧ Prompt timeout a bs ∧ Prompt timeout a' bs' := by
  obtain ⟨hmap, hw⟩ := h
  obtain ⟨a, a', rfl, ha, ha'⟩ := List.map_eq_append_iff.mp hmap
  exact ⟨a, a', rfl, ⟨ha, fun x hx => hw x (List.mem_append_left _ hx)⟩, ha',
    fun x hx => hw x (List.mem_append_right _ hx)⟩

theorem length_le_flatMap {α : Type*} {f : α → Bytes} {lines : List α}
    (h : ∀ l ∈ lines, 1 ≤ (f l).length) : lines.length ≤ (lines.flatMap f).length := by
  have hsum := List.length_le_sum_of_one_le (lines.map fun l => (f l).length) (by simpa using h)
  rwa [List.length_map, ← List.length_flatMap] at hsum

section

variable {maxlen timeout : ℕ}

theorem readLineLoop_char {n count w : ℕ} {ch : UInt8} {rest : List (ℕ × UInt8)} {e : End}
    (hw : w ≤ timeout) (hcr : ch ≠ CR) (hlf : ch ≠ LF) (hc : count + 1 < maxlen - 1) :
    readLineLoop maxlen timeout (n + 1) count ⟨(w, ch) :: rest, e⟩ =
      { readLineLoop maxlen timeout n (count + 1) ⟨rest, e⟩ with
        line := ch :: (readLineLoop maxlen timeout n (count + 1) ⟨rest, e⟩).line } := by
  simp only [readLineLoop, Socket.turn, if_pos hw, if_neg hcr, if_neg hlf,
    if_neg (show ¬ maxlen - 1 ≤ count + 1 by omega)]

theorem readLineLoop_cr {n count w : ℕ} {rest : List (ℕ × UInt8)} {e : End} (hw : w ≤ timeout) :
    readLineLoop maxlen timeout (n + 1) count ⟨(w, CR) :: rest, e⟩ =
      readLineLoop maxlen timeout n count ⟨rest, e⟩ := by
  have hlf : ¬ CR = LF := by decide
  simp only [readLineLoop, Socket.turn, if_pos hw, if_neg hlf, if_true]

theorem readLineLoop_append (rest : List (ℕ × UInt8)) (e : End) (n : ℕ) :
    ∀ {l : Bytes} {count : ℕ} {arr : List (ℕ × UInt8)}, LF ∉ l → Prompt timeout arr l →
    count + (stored l).length + 1 < maxlen →
    readLineLoop maxlen timeout (n + l.length) count ⟨arr ++ rest, e⟩ =
      { readLineLoop maxlen timeout n (count + (stored l).length) ⟨rest, e⟩ with
        line := stored l ++
          (readLineLoop maxlen timeout n (count + (stored l).length) ⟨rest, e⟩).line }
  | [], count, arr, _, h, _ => by
    obtain rfl : arr = [] := by simpa using h.1
    rfl
  | ch :: l, count, arr, hl, h, hmax => by
    obtain ⟨w, arr, rfl, hw, h'⟩ := prompt_cons h
    obtain ⟨hlf, hl'⟩ := not_or.mp (mt List.mem_cons.mpr hl)
    rw [List.length_cons, ← Nat.add_assoc, List.cons_append]
    by_cases hcr : ch = CR
    · obtain rfl := hcr
      have hst : stored (CR :: l) = stored l := by simp [stored]
      rw [hst] at hmax ⊢
      rw [readLineLoop_cr hw, readLineLoop_append rest e n hl' h' hmax]
    · have hst : stored (ch :: l) = ch :: stored l := by simp [stored, hcr]
      rw [hst, List.length_cons] at hmax ⊢
      rw [readLineLoop_char hw hcr (Ne.symm hlf) (by omega),
        readLineLoop_append rest e n hl' h' (by omega), Nat.add_right_comm count 1, Nat.add_assoc count]
      rfl

end

section

variable {maxlen timeout : ℕ} {l : Bytes} {arr : List (ℕ × UInt8)}

/-- **A line of the socket**, of any bytes. -/
theorem readLine_lf (hl : LF ∉ l) (h : Prompt timeout arr (l ++ [LF])) (hlen : l.length < maxlen)
    (hst : (stored l).length + 1 < maxlen) (rest : List (ℕ × UInt8)) (e : End) :
    readLine ⟨arr ++ rest, e⟩ maxlen timeout = ⟨(stored l).length, cstr (stored l), ⟨rest, e⟩⟩ := by
  obtain ⟨a, a', rfl, ha, ha'⟩ := prompt_append h
  obtain ⟨w, a', rfl, hw, ha'⟩ := prompt_cons ha'
  obtain rfl : a' = [] := by simpa using ha'.1
  obtain ⟨n, rfl⟩ : ∃ n, maxlen = n + 1 + l.length := ⟨maxlen - 1 - l.length, by omega⟩
  rw [readLine, List.append_assoc, readLineLoop_append _ _ _ hl ha (by omega)]
  simp [readLineLoop, Socket.turn, hw]

theorem readLine_line (hl : Plain l) (h : Prompt timeout arr (l ++ [CR, LF]))
    (hlen : l.length + 2 ≤ maxlen) (rest : List (ℕ × UInt8)) (e : End) :
    readLine ⟨arr ++ rest, e⟩ maxlen timeout = ⟨l.length, l, ⟨rest, e⟩⟩ := by
  have hst : stored (l ++ [CR]) = l := by
    rw [stored, List.filter_append, ← stored, hl.stored]
    simp
  have hlf : LF ∉ l ++ [CR] := by simpa [CR, LF] using hl.notMem
  rw [List.append_cons] at h
  rw [readLine_lf hlf h (by simp; omega) (by rw [hst]; omega), hst, hl.cstr]

/-- A text line with one character less than the buffer: the end of the line is left for the next
call. -/
theorem readLine_full (hl : Plain l) (h : Prompt timeout arr l) (hlen : l.length + 1 = maxlen)
    (hmax : 2 ≤ maxlen) (rest : List (ℕ × UInt8)) (e : End) :
    readLine ⟨arr ++ rest, e⟩ maxlen timeout = ⟨l.length, l, ⟨rest, e⟩⟩ := by
  obtain ⟨init, ch, rfl⟩ : ∃ init ch, l = init ++ [ch] :=
    ⟨_, _, (List.dropLast_append_getLast (List.length_pos_iff.mp (by omega))).symm⟩
  have hinit : Plain init := fun c hc => hl c (List.mem_append_left _ hc)
  obtain ⟨hcr, hlf, -⟩ := hl ch (by simp)
  obtain ⟨a, a', rfl, ha, ha'⟩ := prompt_append h
  obtain ⟨w, a', rfl, hw, ha'⟩ := prompt_cons ha'
  obtain rfl : a' = [] := by simpa using ha'.1
  rw [List.length_append, List.length_singleton] at hlen ⊢
  obtain rfl : maxlen = 1 + 1 + init.length := by omega
  have hloop := readLineLoop_append ([(w, ch)] ++ rest) e (1 + 1) hinit.notMem ha
    (show 0 + _ + 1 < 1 + 1 + init.length by rw [hinit.stored]; omega)
  rw [readLine, List.append_assoc, hloop, hinit.stored]
  have hfull : 1 + 1 + init.length - 1 ≤ init.length + 1 := by omega
  simp only [Nat.zero_add, List.cons_append, List.nil_append, readLineLoop, Socket.turn, if_pos hw,
    if_neg hcr, if_neg hlf, if_pos hfull, hl.cstr]
  rfl

/-- The end of a line alone makes `read_line` return 0, also when it comes too late. -/
theorem readLine_crlf_rval (h : arr.map Prod.snd = [CR, LF]) (rest : List (ℕ × UInt8)) (e : End) :
    (readLine ⟨arr ++ rest, e⟩ (maxlen + 2) timeout).rval = 0 := by
  obtain ⟨⟨w, _⟩, arr₁, rfl, rfl, h₁⟩ := List.map_eq_cons_iff.mp h
  obtain ⟨⟨w', _⟩, arr₂, rfl, rfl, -⟩ := List.map_eq_cons_iff.mp h₁
  by_cases hw : w ≤ timeout
  · by_cases hw' : w' ≤ timeout
    · simp [readLine, readLineLoop, Socket.turn, hw, hw', CR, LF]
    · simp [readLine, readLineLoop, Socket.turn, hw, hw', CR, LF]
  · simp [readLine, readLineLoop, Socket.turn, hw]

theorem readLine_idle (hl : LF ∉ l) (h : Prompt timeout arr l) (hlen : l.length + 1 < maxlen) :
    readLine ⟨arr, .idle⟩ maxlen timeout = ⟨0, cstr (stored l), ⟨[], .idle⟩⟩ := by
  have hst := length_stored_le l
  obtain ⟨n, rfl⟩ : ∃ n, maxlen = n + 1 + l.length := ⟨maxlen - 1 - l.length, by omega⟩
  rw [readLine, ← List.append_nil arr, readLineLoop_append _ _ _ hl h (by omega)]
  simp [readLineLoop, Socket.turn]

end

/-! ### Key-data tables -/

/-- `key_data_t`. -/
structure KeyData where
  key : Option Bytes
  data : Option Bytes
  deriving DecidableEq, Repr

/-- The size of an entry, two pointers on a 32-bit machine. -/
def sizeofKeyData : ℕ := 8

/-- **`kd_lookup`**. -/
def kdLookup : List KeyData → Bytes → Option Bytes
  | [], _ => none
  | e :: kd, key =>
    match e.key with
    | none => none
    | some k => if k = key then e.data else kdLookup kd key

/-- The entries of a list of headers. -/
def entriesOf (hs : List (Bytes × Bytes)) : List KeyData := hs.map fun h => ⟨some h.1, some h.2⟩

/-- A table with a terminator after its entries is looked up like the list of them. -/
theorem kdLookup_entriesOf (d : Option Bytes) (rest : List KeyData) (key : Bytes) :
    ∀ hs : List (Bytes × Bytes), kdLookup (entriesOf hs ++ ⟨none, d⟩ :: rest) key =
      (hs.find? (·.1 = key)).map Prod.snd
  | [] => rfl
  | h :: hs => by
    have ih := kdLookup_entriesOf d rest key hs
    rw [entriesOf, List.map_cons, List.cons_append, kdLookup, ← entriesOf]
    by_cases hk : h.1 = key
    · simp [hk]
    · simp [hk, ih]

end Waveplay.RaopPlay.AexclLib
