import Waveplay.RaopPlay.AexclLib

/-! # Lines in succession

`read_line` has two limits: `maxlen` bytes read, and `maxlen - 1` characters kept. A line that ends before
the second is consumed with its LF. A line with `maxlen - 1` characters is returned too, but then the
function stops in front of its end, and the next call takes that for an empty line.

* **`readsLines_iff`**: calls in succession return the lines, and consume them, if and only if all of them
  have less than `maxlen - 1` characters. -/

namespace Waveplay.RaopPlay.LineReader

open Waveplay.RaopPlay.AexclLib

/-! ### Streams -/

/-- A line of a stream: its characters, and whether there is a CR before the LF. -/
structure TextLine where
  chars : Bytes
  cr : Bool
  plain : Plain chars

/-- The characters with the CR. -/
def TextLine.body (l : TextLine) : Bytes := l.chars ++ if l.cr then [CR] else []

def TextLine.text (l : TextLine) : Bytes := l.body ++ [LF]

/-- The bytes of lines. -/
def streamText (ls : List TextLine) : Bytes := ls.flatMap TextLine.text

/-- Calls in succession: what they return and leave in the buffer, and the socket then. -/
def readLines (maxlen timeout : ℕ) : ℕ → Socket → List (ℤ × Bytes) × Socket
  | 0, s => ([], s)
  | n + 1, s =>
    let r := readLines maxlen timeout n s
    let l := readLine r.2 maxlen timeout
    (r.1 ++ [(l.rval, l.line)], l.sock)

/-- **The lines are read**: so many calls return as many lines, each with its length, and consume these
lines; zero is returned for an empty line only. -/
structure ReadsLines (maxlen timeout : ℕ) (ls : List TextLine) (s : Socket) : Prop where
  returned : ∀ n ≤ ls.length, (readLines maxlen timeout n s).1 =
    (ls.take n).map fun l => ((l.chars.length : ℤ), l.chars)
  consumed : ∀ n ≤ ls.length, (readLines maxlen timeout n s).2 =
    { s with arriving := s.arriving.drop (streamText (ls.take n)).length }
  zero : ∀ n ≤ ls.length, ∀ r ∈ (readLines maxlen timeout n s).1, r.1 = 0 → r.2 = []

/-! ### One line -/

section

variable {maxlen timeout : ℕ}

theorem stored_body (l : TextLine) : stored l.body = l.chars := by
  rw [TextLine.body, stored, List.filter_append, ← stored, l.plain.stored]
  split_ifs
  · simp
  · simp

theorem lf_notMem_body (l : TextLine) : LF ∉ l.body := by
  have hlf : LF ∉ [CR] := by decide
  rw [TextLine.body, List.mem_append, not_or]
  refine ⟨l.plain.notMem, ?_⟩
  split_ifs
  · exact hlf
  · exact List.not_mem_nil

theorem length_body_le (l : TextLine) : l.body.length ≤ l.chars.length + 1 := by
  rw [TextLine.body, List.length_append]
  split_ifs
  · exact Nat.le_refl _
  · exact Nat.le_succ _

theorem readLine_text {l : TextLine} (hshort : l.chars.length < maxlen - 1) {arr : List (ℕ × UInt8)}
    (h : Prompt timeout arr l.text) (rest : List (ℕ × UInt8)) (e : End) :
    readLine ⟨arr ++ rest, e⟩ maxlen timeout = ⟨l.chars.length, l.chars, ⟨rest, e⟩⟩ := by
  have hlen := length_body_le l
  have hst := stored_body l
  have hread := readLine_lf (lf_notMem_body l) h (show _ < maxlen by omega) (by rw [hst]; omega) rest e
  rw [hst, l.plain.cstr] at hread
  exact hread

/-! ### The position in a stream -/

variable {ls : List TextLine} {arr : List (ℕ × UInt8)}

theorem streamText_append (ls ls' : List TextLine) :
    streamText (ls ++ ls') = streamText ls ++ streamText ls' := List.flatMap_append

theorem streamText_singleton (l : TextLine) : streamText [l] = l.text := by
  rw [streamText, List.flatMap_singleton]

theorem exists_line (harr : Prompt timeout arr (streamText ls)) (rest : List (ℕ × UInt8)) {n : ℕ}
    {l : TextLine} (hl : ls[n]? = some l) :
    ∃ b c, Prompt timeout b l.text ∧ (arr ++ rest).drop (streamText (ls.take n)).length = b ++ c ∧
      (arr ++ rest).drop (streamText (ls.take (n + 1))).length = c := by
  obtain ⟨hn, rfl⟩ := List.getElem?_eq_some_iff.mp hl
  have hsucc : ls.take (n + 1) = ls.take n ++ [ls[n]] := by
    rw [List.take_add_one, hl]
    rfl
  have hsplit : ls = ls.take n ++ ([ls[n]] ++ ls.drop (n + 1)) := by
    rw [List.singleton_append, ← List.drop_eq_getElem_cons hn, List.take_append_drop]
  rw [hsplit, streamText_append, streamText_append, streamText_singleton] at harr
  obtain ⟨a, bc, rfl, ha, hbc⟩ := prompt_append harr
  obtain ⟨b, c, rfl, hb, -⟩ := prompt_append hbc
  have hlen : (streamText (ls.take n)).length = a.length := by rw [← ha.1, List.length_map]
  have htext : ls[n].text.length = b.length := by rw [← hb.1, List.length_map]
  have hdrop : (a ++ (b ++ c) ++ rest).drop (streamText (ls.take n)).length = b ++ (c ++ rest) := by
    rw [List.append_assoc, List.append_assoc, hlen, List.drop_left]
  refine ⟨b, c ++ rest, hb, hdrop, ?_⟩
  rw [hsucc, streamText_append, streamText_singleton, List.length_append, ← List.drop_drop, hdrop, htext,
    List.drop_left]

/-- **One call** takes the next line, if it is short. -/
theorem readLines_succ (harr : Prompt timeout arr (streamText ls)) (rest : List (ℕ × UInt8)) (e : End)
    {n : ℕ} {l : TextLine} (hl : ls[n]? = some l) (hshort : l.chars.length < maxlen - 1)
    (hn : readLines maxlen timeout n ⟨arr ++ rest, e⟩ =
      ((ls.take n).map fun l => ((l.chars.length : ℤ), l.chars),
        ⟨(arr ++ rest).drop (streamText (ls.take n)).length, e⟩)) :
    readLines maxlen timeout (n + 1) ⟨arr ++ rest, e⟩ =
      ((ls.take (n + 1)).map fun l => ((l.chars.length : ℤ), l.chars),
        ⟨(arr ++ rest).drop (streamText (ls.take (n + 1))).length, e⟩) := by
  obtain ⟨b, c, hb, hhere, hnext⟩ := exists_line harr rest hl
  rw [readLines, hn]
  dsimp only
  rw [hhere, readLine_text hshort hb, hnext, List.take_add_one, hl, List.map_append]
  rfl

/-- **Calls in succession** take short lines one by one. -/
theorem readLines_eq (harr : Prompt timeout arr (streamText ls))
    (hshort : ∀ l ∈ ls, l.chars.length < maxlen - 1) (rest : List (ℕ × UInt8)) (e : End) :
    ∀ n ≤ ls.length, readLines maxlen timeout n ⟨arr ++ rest, e⟩ =
      ((ls.take n).map fun l => ((l.chars.length : ℤ), l.chars),
        ⟨(arr ++ rest).drop (streamText (ls.take n)).length, e⟩)
  | 0, _ => rfl
  | n + 1, hn => by
    have ih := readLines_eq harr hshort rest e n (by omega)
    have hl : ls[n]? = some ls[n] := List.getElem?_eq_getElem hn
    exact readLines_succ harr rest e hl (hshort _ (List.getElem_mem hn)) ih

theorem readsLines_of_short (harr : Prompt timeout arr (streamText ls))
    (hshort : ∀ l ∈ ls, l.chars.length < maxlen - 1) (rest : List (ℕ × UInt8)) (e : End) :
    ReadsLines maxlen timeout ls ⟨arr ++ rest, e⟩ := by
  have hread := readLines_eq harr hshort rest e
  refine ⟨fun n hn => ?_, fun n hn => ?_, fun n hn r hr hzero => ?_⟩
  · rw [hread n hn]
  · rw [hread n hn]
  · rw [hread n hn] at hr
    obtain ⟨l, -, rfl⟩ := List.mem_map.mp hr
    exact List.eq_nil_of_length_eq_zero (Int.ofNat_eq_zero.mp hzero)

/-- The end of a line that fills the buffer is not consumed. -/
theorem ReadsLines.short (hmax : 2 ≤ maxlen) (hfit : ∀ l ∈ ls, l.chars.length ≤ maxlen - 1)
    (harr : Prompt timeout arr (streamText ls)) {rest : List (ℕ × UInt8)} {e : End}
    (h : ReadsLines maxlen timeout ls ⟨arr ++ rest, e⟩) : ∀ l ∈ ls, l.chars.length < maxlen - 1 := by
  intro l hl
  by_contra hlong
  obtain ⟨n, hn, rfl⟩ := List.getElem_of_mem hl
  have hfull : ls[n].chars.length + 1 = maxlen := by
    have hle := hfit _ hl
    omega
  obtain ⟨b, c, hb, hhere, hnext⟩ := exists_line harr rest (List.getElem?_eq_getElem hn)
  rw [TextLine.text, TextLine.body, List.append_assoc] at hb
  obtain ⟨b₁, b₂, rfl, hb₁, hb₂⟩ := prompt_append hb
  -- the call returns in front of the end of the line, which is not empty
  have hread := readLine_full ls[n].plain hb₁ hfull hmax (b₂ ++ c) e
  have hbefore := h.consumed n (by omega)
  have hafter := h.consumed (n + 1) hn
  dsimp only at hbefore hafter
  rw [readLines, hbefore] at hafter
  dsimp only at hafter
  rw [hhere, hnext, List.append_assoc, hread] at hafter
  have hlen := congrArg (fun s => s.arriving.length) hafter
  have heol := congrArg List.length hb₂.1
  simp only [List.length_append, List.length_map, List.length_singleton] at hlen heol
  omega

/-- **When lines are read**: if and only if all of them have less than `maxlen - 1` characters. -/
theorem readsLines_iff (hmax : 2 ≤ maxlen) (hfit : ∀ l ∈ ls, l.chars.length ≤ maxlen - 1)
    (harr : Prompt timeout arr (streamText ls)) (rest : List (ℕ × UInt8)) (e : End) :
    ReadsLines maxlen timeout ls ⟨arr ++ rest, e⟩ ↔ ∀ l ∈ ls, l.chars.length < maxlen - 1 :=
  ⟨ReadsLines.short hmax hfit harr, fun hshort => readsLines_of_short harr hshort rest e⟩

theorem prompt_now (timeout : ℕ) (bs : Bytes) : Prompt timeout (bs.map fun ch => (0, ch)) bs := by
  refine ⟨?_, ?_⟩
  · rw [List.map_map]
    exact List.map_id bs
  · intro a ha
    obtain ⟨ch, -, rfl⟩ := List.mem_map.mp ha
    exact Nat.zero_le timeout

end

/-- A header line, and the empty one. -/
def twoLines : List TextLine :=
  [⟨ascii "CSeq: 1", true, by decide +kernel⟩, ⟨[], true, by decide +kernel⟩]

theorem readsLines_iff_twoLines :
    ReadsLines 2048 1000 twoLines ⟨(streamText twoLines).map (fun ch => (0, ch)) ++ [], .idle⟩ := by
  have hshort : ∀ l ∈ twoLines, l.chars.length < 2048 - 1 := by
    simp only [twoLines, List.forall_mem_cons, List.not_mem_nil, false_implies, implies_true, and_true]
    decide
  exact (readsLines_iff (by decide) (fun l hl => Nat.le_of_lt (hshort l hl)) (prompt_now 1000 _) [] .idle).mpr
    hshort

/-- A line that fills the buffer of `exec_request`. -/
def fullLine : TextLine where
  chars := List.replicate 2047 65
  cr := true
  plain := by
    intro ch hch
    rw [List.eq_of_mem_replicate hch]
    decide

/-- The end of that line is left in the socket. -/
theorem not_readsLines_full : ¬ ReadsLines 2048 1000 [fullLine]
    ⟨(streamText [fullLine]).map (fun ch => (0, ch)) ++ [], .idle⟩ := by
  intro h
  have hlen : fullLine.chars.length = 2047 := List.length_replicate
  have hfit : ∀ l ∈ [fullLine], l.chars.length ≤ 2048 - 1 := by
    rw [List.forall_mem_singleton]
    omega
  have hlt := h.short (by decide) hfit (prompt_now 1000 _) fullLine (List.mem_singleton_self fullLine)
  omega

end Waveplay.RaopPlay.LineReader
