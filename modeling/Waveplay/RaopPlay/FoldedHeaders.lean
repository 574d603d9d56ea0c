import Mathlib.Data.List.GetD
import Mathlib.Data.List.Induction
import Mathlib.Data.List.TakeWhile
import Waveplay.RaopPlay.HeaderTable

/-! # Folded headers

A line of a response that starts with a space continues the header before it. By then the index of the
header loop is that of the next entry, so `exec_request` appends the line there, and to a new block of
memory, since `realloc_memory` forgets the old one. The next header overwrites that entry; after the last
header it stays in the table, as the data of the terminator.

* `foldlM_folded`: the table after the lines of folded headers, with what memory held.
* `joined_iff`: every header has its value joined to its continuation lines, and nothing of the table
  is what memory held, if and only if the continuation lines are blank and the last header has none
  that is read. -/

namespace Waveplay.RaopPlay.FoldedHeaders

open Waveplay.RaopPlay.AexclLib Waveplay.RaopPlay.RtspClient Waveplay.RaopPlay.HeaderTable

/-- A header and the lines that continue it. -/
structure Folded where
  header : Bytes × Bytes
  more : List Bytes

def Folded.lines (f : Folded) : List Bytes := headerLine f.header :: f.more

/-- A line without its leading spaces. -/
def stripped (l : Bytes) : Bytes := l.dropWhile (· = SP)

/-- The header with its value on one line. -/
def Folded.joined (f : Folded) : Bytes × Bytes := (f.header.1, f.header.2 ++ f.more.flatMap stripped)

/-- A line that continues a header. -/
def Continues (l : Bytes) : Prop := Plain l ∧ l.head? = some SP

instance (l : Bytes) : Decidable (Continues l) := inferInstanceAs (Decidable (_ ∧ _))

/-- A `200` response with folded headers, in lines shorter than the buffer. -/
structure FoldedResponse (status : Bytes) (fs : List Folded) : Prop where
  plain : Plain status
  code : statusCode status = some (ascii "200")
  headers : ∀ f ∈ fs, HeaderOk f.header
  continued : ∀ f ∈ fs, ∀ l ∈ f.more, Continues l
  fits : ∀ l ∈ status :: fs.flatMap Folded.lines, l.length < 2048

instance (status : Bytes) (fs : List Folded) : Decidable (FoldedResponse status fs) :=
  decidable_of_iff (Plain status ∧ statusCode status = some (ascii "200") ∧
      (∀ f ∈ fs, HeaderOk f.header) ∧ (∀ f ∈ fs, ∀ l ∈ f.more, Continues l) ∧
      ∀ l ∈ status :: fs.flatMap Folded.lines, l.length < 2048)
    ⟨fun ⟨h₁, h₂, h₃, h₄, h₅⟩ => ⟨h₁, h₂, h₃, h₄, h₅⟩,
      fun ⟨h₁, h₂, h₃, h₄, h₅⟩ => ⟨h₁, h₂, h₃, h₄, h₅⟩⟩

/-- The response comes within the timeouts: five seconds for a byte up to the end of the first header
line, then a second. -/
def FoldedInTime (arr : List (ℕ × UInt8)) (status : Bytes) (fs : List Folded) : Prop :=
  ∃ a b, arr = a ++ b ∧ Prompt 5000 a (status ++ crlf) ∧ Timely 5000 b (fs.flatMap Folded.lines)

theorem foldedInTime_of_prompt {arr : List (ℕ × UInt8)} {status : Bytes} {fs : List Folded}
    (h : Prompt 1000 arr (status ++ crlf ++ linesText (fs.flatMap Folded.lines))) :
    FoldedInTime arr status fs := by
  obtain ⟨a, b, rfl, ha, hb⟩ := prompt_append h
  exact ⟨a, b, rfl, ha.mono (by omega), timely_of_prompt (by omega) hb⟩

/-- What the calls should leave, whatever memory held: the headers with their joined values, in order,
and the same terminator. -/
def Joined (call : Memory → Executed) (fs : List Folded) : Prop :=
  ∃ d, ∀ m, (call m).outcome = .ret 0 ∧
    ∃ rest, (call m).kd = some (entriesOf (fs.map Folded.joined) ++ ⟨none, d⟩ :: rest)

/-! ### The lines of folded headers -/

/-- The first table with the headers `hs`, and the data `d` after them. -/
def tableWith (m : Memory) (hs : List (Bytes × Bytes)) (d : Option Bytes) : List KeyData :=
  (firstTable m hs).set hs.length ⟨none, d⟩

theorem tableWith_none (m : Memory) {hs : List (Bytes × Bytes)} (hlen : hs.length ≤ 16) :
    tableWith m hs none = firstTable m hs := by
  have hrep : List.replicate (17 - hs.length) cleared =
      cleared :: List.replicate (16 - hs.length) cleared := by
    rw [← List.replicate_succ]
    congr 1
    omega
  rw [tableWith, firstTable_set m hlen, firstTable, hrep, List.append_assoc]
  rfl

theorem tableWith_eq (m : Memory) {hs : List (Bytes × Bytes)} (hlen : hs.length ≤ 16)
    (d : Option Bytes) : ∃ rest, tableWith m hs d = entriesOf hs ++ ⟨none, d⟩ :: rest :=
  ⟨_, firstTable_set m hlen _⟩

theorem tableWith_getD (m : Memory) {hs : List (Bytes × Bytes)} (hlen : hs.length ≤ 16)
    (d : Option Bytes) : (tableWith m hs d).getD hs.length ⟨none, none⟩ = ⟨none, d⟩ := by
  obtain ⟨rest, hrest⟩ := tableWith_eq m hlen d
  have hentries : (entriesOf hs).length = hs.length := List.length_map ..
  rw [hrest, List.getD_append_right _ _ _ _ (by omega), hentries, Nat.sub_self, List.getD_cons_zero]

/-- A header takes the place of what was appended before it. -/
theorem addHeader_tableWith (m : Memory) {hs : List (Bytes × Bytes)} (hpos : 0 < hs.length)
    (hlen : hs.length < 16) (d : Option Bytes) (h : Bytes × Bytes) :
    addHeader m (hs.length, some (tableWith m hs d)) h =
      (hs.length + 1, some (tableWith m (hs ++ [h]) none)) := by
  have hlen' : (hs ++ [h]).length ≤ 16 := by
    rw [List.length_append, List.length_singleton]
    omega
  rw [addHeader, if_neg (show ¬ hs.length % 16 = 0 by omega), Option.map_some, tableWith,
    List.set_set, firstTable_header m (by omega), tableWith_none m hlen']

theorem addHeader_first (m : Memory) (kd : Option (List KeyData)) (h : Bytes × Bytes) :
    addHeader m (0, kd) h = (1, some (tableWith m [h] none)) := by
  have hfirst : [h].foldl (addHeader m) (0, kd) = _ :=
    foldl_addHeader_first m kd (List.cons_ne_nil h []) (by simp)
  rw [tableWith_none m (by simp)]
  exact hfirst

theorem addLine_continues (m : Memory) {hs : List (Bytes × Bytes)} (hpos : 0 < hs.length)
    (hlen : hs.length < 16) (d : Option Bytes) {l : Bytes} (hl : l.head? = some SP) :
    addLine m (hs.length, some (tableWith m hs d)) l =
      some (hs.length, some (tableWith m hs (some (m.string hs.length ++ stripped l)))) := by
  have hnext := tableWith_getD m (Nat.le_of_lt hlen) d
  rw [addLine, Headers.add, if_pos ⟨Nat.ne_of_gt hpos, hl⟩]
  simp only [if_neg (show ¬ hs.length % 16 = 0 by omega), Option.map_some, hnext]
  rw [tableWith, List.set_set]
  rfl

/-- The data that the continuation lines of the `n`-th header leave after it. -/
def leftover (m : Memory) (n : ℕ) (more : List Bytes) : Option Bytes :=
  more.getLast?.map fun l => m.string n ++ stripped l

theorem foldlM_more (m : Memory) {hs : List (Bytes × Bytes)} (hpos : 0 < hs.length)
    (hlen : hs.length < 16) {more : List Bytes} (hmore : ∀ l ∈ more, Continues l) :
    more.foldlM (addLine m) (hs.length, some (tableWith m hs none)) =
      some (hs.length, some (tableWith m hs (leftover m hs.length more))) := by
  induction more using List.reverseRecOn with
  | nil => rfl
  | append_singleton more l ih =>
    have hl : Continues l := hmore l (by simp)
    rw [List.foldlM_append, ih fun x hx => hmore x (List.mem_append_left _ hx)]
    simp only [Option.bind_eq_bind, Option.bind_some, List.foldlM_cons, List.foldlM_nil,
      addLine_continues m hpos hlen _ hl.2, leftover, List.getLast?_concat, Option.map_some,
      Option.pure_def]

/-- What follows the headers in the table. -/
def pending (m : Memory) (fs : List Folded) : Option Bytes :=
  fs.getLast?.bind fun f => leftover m fs.length f.more

/-- **The table** after the lines of up to fifteen folded headers. -/
theorem foldlM_folded (m : Memory) (kd : Option (List KeyData)) {fs : List Folded} (hne : fs ≠ [])
    (hlen : fs.length ≤ 15) (hok : ∀ f ∈ fs, HeaderOk f.header)
    (hmore : ∀ f ∈ fs, ∀ l ∈ f.more, Continues l) :
    (fs.flatMap Folded.lines).foldlM (addLine m) (0, kd) =
      some (fs.length, some (tableWith m (fs.map Folded.header) (pending m fs))) := by
  induction fs using List.reverseRecOn with
  | nil => exact absurd rfl hne
  | append_singleton fs f ih =>
    rw [List.length_append, List.length_singleton] at hlen
    have hf : HeaderOk f.header := hok f (by simp)
    have hheaders : ((fs ++ [f]).map Folded.header).length = fs.length + 1 := by simp
    have hpending : pending m (fs ++ [f]) = leftover m (fs.length + 1) f.more := by
      simp [pending]
    -- the header line, after the headers before it or as the first line
    have hheader : ∃ s, (fs.flatMap Folded.lines).foldlM (addLine m) (0, kd) = some s ∧
        addHeader m s f.header =
          (fs.length + 1, some (tableWith m ((fs ++ [f]).map Folded.header) none)) := by
      by_cases hfs : fs = []
      · subst hfs
        exact ⟨_, rfl, addHeader_first m kd f.header⟩
      · have hpos : 0 < (fs.map Folded.header).length := by
          rw [List.length_map]
          exact List.length_pos_iff.mpr hfs
        have hlt : (fs.map Folded.header).length < 16 := by
          rw [List.length_map]
          omega
        refine ⟨_, ih hfs (by omega) (fun x hx => hok x (List.mem_append_left _ hx))
          (fun x hx => hmore x (List.mem_append_left _ hx)), ?_⟩
        have hstep := addHeader_tableWith m hpos hlt (pending m fs) f.header
        rw [List.length_map] at hstep
        rw [hstep, List.map_append]
        rfl
    obtain ⟨s, hs, hadd⟩ := hheader
    have hrest := foldlM_more m (by omega) (show ((fs ++ [f]).map Folded.header).length < 16 by omega)
      (hmore f (by simp))
    rw [hheaders] at hrest
    rw [List.flatMap_append, List.foldlM_append, hs, List.flatMap_singleton, Folded.lines]
    simp only [Option.bind_eq_bind, Option.bind_some, List.foldlM_cons, addLine_headerLine hf, hadd]
    rw [hrest, hpending, List.length_append, List.length_singleton]

/-! ### The lines that are read -/

/-- The part of a folded header that the loop gets to see. -/
def Folded.seen (f : Folded) : Folded := ⟨f.header, (seenLines f.lines).tail⟩

/-- The folded headers that the loop gets to see. -/
def seenFolded : List Folded → List Folded
  | [] => []
  | f :: fs => f.seen :: if ∀ l ∈ f.lines, l.length < 2047 then seenFolded fs else []

/-- The same after a status line. -/
def seenFoldedAfter (status : Bytes) (fs : List Folded) : List Folded :=
  if status.length < 2047 then seenFolded fs else []

theorem seenLines_subset (ls : List Bytes) : seenLines ls ⊆ ls := by
  induction ls with
  | nil => exact List.Subset.refl _
  | cons l ls ih =>
    rw [seenLines]
    split_ifs
    · exact List.cons_subset_cons l ih
    · simp

theorem seenLines_append (ls ls' : List Bytes) : seenLines (ls ++ ls') =
    seenLines ls ++ if ∀ l ∈ ls, l.length < 2047 then seenLines ls' else [] := by
  induction ls with
  | nil => simp [seenLines]
  | cons l ls ih =>
    rw [List.cons_append, seenLines, seenLines, ih]
    by_cases hshort : l.length < 2047
    · simp [hshort]
    · simp [hshort]

theorem Folded.seen_lines (f : Folded) : f.seen.lines = seenLines f.lines := by
  unfold Folded.seen Folded.lines
  rw [seenLines]
  split_ifs <;> rfl

theorem seenLines_folded (fs : List Folded) :
    seenLines (fs.flatMap Folded.lines) = (seenFolded fs).flatMap Folded.lines := by
  induction fs with
  | nil => rfl
  | cons f fs ih =>
    rw [List.flatMap_cons, seenLines_append, ih, seenFolded, List.flatMap_cons, Folded.seen_lines]
    split_ifs <;> rfl

theorem seenLines_after (status : Bytes) (fs : List Folded) :
    (if status.length < 2047 then seenLines (fs.flatMap Folded.lines) else []) =
      (seenFoldedAfter status fs).flatMap Folded.lines := by
  rw [seenFoldedAfter, seenLines_folded]
  split_ifs <;> rfl

theorem seenFolded_isPrefix (fs : List Folded) : seenFolded fs <+: fs.map Folded.seen := by
  induction fs with
  | nil => exact List.prefix_rfl
  | cons f fs ih =>
    rw [seenFolded, List.map_cons, List.prefix_cons_inj]
    split_ifs
    · exact ih
    · exact List.nil_prefix

theorem seenFolded_eq_iff : ∀ {fs : List Folded}, seenFolded fs = fs.map Folded.seen ↔
    ∀ l ∈ fs.dropLast.flatMap Folded.lines, l.length < 2047
  | [] => by simp [seenFolded]
  | [f] => by simp [seenFolded]
  | f :: f' :: fs => by
    rw [seenFolded, List.map_cons, List.dropLast_cons_cons, List.flatMap_cons,
      List.forall_mem_append, ← seenFolded_eq_iff]
    split_ifs with hshort
    · rw [List.cons.injEq, and_iff_right rfl, and_iff_right hshort]
    · simp [hshort]

theorem seenFoldedAfter_isPrefix (status : Bytes) (fs : List Folded) :
    seenFoldedAfter status fs <+: fs.map Folded.seen := by
  rw [seenFoldedAfter]
  split_ifs
  · exact seenFolded_isPrefix fs
  · exact List.nil_prefix

theorem seenFoldedAfter_eq_iff {status : Bytes} {fs : List Folded} :
    seenFoldedAfter status fs = fs.map Folded.seen ↔
      (fs ≠ [] → ∀ l ∈ status :: fs.dropLast.flatMap Folded.lines, l.length < 2047) := by
  rw [seenFoldedAfter, List.forall_mem_cons, ← seenFolded_eq_iff]
  by_cases hfs : fs = []
  · simp [hfs, seenFolded]
  · by_cases hshort : status.length < 2047
    · simp [hshort, hfs]
    · simp [hshort, hfs, eq_comm]

theorem Folded.seen_more_eq_nil (f : Folded) :
    f.seen.more = [] ↔ f.more = [] ∨ 2047 ≤ (headerLine f.header).length := by
  rw [Folded.seen, Folded.lines, seenLines]
  by_cases hshort : (headerLine f.header).length < 2047
  · have hnil : seenLines f.more = [] ↔ f.more = [] := by
      cases f.more with
      | nil => simp [seenLines]
      | cons l ls =>
        rw [seenLines]
        split_ifs <;> simp
    rw [if_pos hshort, List.tail_cons, hnil, or_iff_left (by omega)]
  · rw [if_neg hshort]
    exact ⟨fun _ => .inr (by omega), fun _ => rfl⟩

theorem mem_seenFoldedAfter {status : Bytes} {fs : List Folded} {g : Folded}
    (hg : g ∈ seenFoldedAfter status fs) :
    ∃ f ∈ fs, g.header = f.header ∧ g.more ⊆ f.more := by
  obtain ⟨f, hf, rfl⟩ := List.mem_map.mp ((seenFoldedAfter_isPrefix status fs).subset hg)
  refine ⟨f, hf, rfl, fun l hl => ?_⟩
  rw [Folded.seen, Folded.lines, seenLines] at hl
  split_ifs at hl
  · exact seenLines_subset _ hl
  · simp at hl

/-! ### The call -/

theorem FoldedResponse.lineOk {status : Bytes} {fs : List Folded} (hr : FoldedResponse status fs) :
    ∀ l ∈ status :: fs.flatMap Folded.lines, LineOk l := by
  intro l hl
  have hfits : l.length ≤ 2047 := Nat.le_of_lt_succ (hr.fits l hl)
  rcases List.mem_cons.mp hl with rfl | hl
  · exact ⟨hr.plain, statusCode_pos hr.code, hfits⟩
  · obtain ⟨f, hf, hl⟩ := List.mem_flatMap.mp hl
    rcases List.mem_cons.mp hl with rfl | hl
    · exact ⟨(hr.headers f hf).plain, headerLine_pos f.header, hfits⟩
    · obtain ⟨hplain, hhead⟩ := hr.continued f hf l hl
      refine ⟨hplain, List.length_pos_iff.mpr fun hnil => ?_, hfits⟩
      rw [hnil] at hhead
      cases hhead

section Call

variable {status : Bytes} {fs : List Folded} {arr : List (ℕ × UInt8)} {q : Request}
  {kd : Option (List KeyData)}

/-- **A response with folded headers**, when there is a table to write to. -/
theorem execRequest_folded (hq : q.getResponse ≠ 0) (hr : FoldedResponse status fs)
    (hp : FoldedInTime arr status fs) (hlen : fs.length ≤ 15) (hne : seenFoldedAfter status fs ≠ [])
    (r : Rtspcl) (kd : Option (List KeyData)) (rest : List (ℕ × UInt8)) (e : End) (m : Memory) :
    let x := execRequest r q kd ⟨arr ++ rest, e⟩ m
    x.outcome = .ret 0 ∧ ∃ rest', x.kd =
      some (entriesOf ((seenFoldedAfter status fs).map Folded.header) ++
        ⟨none, pending m (seenFoldedAfter status fs)⟩ :: rest') := by
  obtain ⟨a, b, rfl, ha, hb⟩ := hp
  set gs := seenFoldedAfter status fs with hgs
  have hlen' : gs.length ≤ 15 := by
    have hle := (seenFoldedAfter_isPrefix status fs).length_le
    rw [List.length_map] at hle
    exact Nat.le_trans hle hlen
  have hok : ∀ g ∈ gs, HeaderOk g.header := by
    intro g hg
    obtain ⟨f, hf, hheader, -⟩ := mem_seenFoldedAfter hg
    rw [hheader]
    exact hr.headers f hf
  have hmore : ∀ g ∈ gs, ∀ l ∈ g.more, Continues l := by
    intro g hg l hl
    obtain ⟨f, hf, -, hsub⟩ := mem_seenFoldedAfter hg
    exact hr.continued f hf l (hsub hl)
  have hfold := foldlM_folded m kd hne hlen' hok hmore
  have hseen := seenLines_after status fs
  rw [← hgs] at hseen
  rw [← hseen] at hfold
  obtain ⟨timeout, sock, -, -, hx⟩ := execRequest_lines hq (hr.lineOk _ List.mem_cons_self) hr.code
    (fun l hl => hr.lineOk l (List.mem_cons_of_mem _ hl)) ha hb r hfold rest e
  have hlen16 : (gs.map Folded.header).length ≤ 16 := by
    rw [List.length_map]
    omega
  have hnext := tableWith_getD m hlen16 (pending m gs)
  obtain ⟨rest', htable⟩ := tableWith_eq m hlen16 (pending m gs)
  rw [List.length_map] at hnext
  refine ⟨by rw [hx]; rfl, rest', ?_⟩
  rw [hx, ← htable]
  simp only [finish, hnext]
  rw [tableWith, List.length_map, List.set_set]

theorem execRequest_unseen (hq : q.getResponse ≠ 0) (hr : FoldedResponse status fs)
    (hp : FoldedInTime arr status fs) (hnil : seenFoldedAfter status fs = []) (r : Rtspcl)
    (kd : Option (List KeyData)) (rest : List (ℕ × UInt8)) (e : End) (m : Memory) :
    ∃ timeout sock, let out := finish r.udp ⟨0, kd, timeout, sock⟩
      let x := execRequest r q kd ⟨arr ++ rest, e⟩ m
      x.outcome = out.1 ∧ x.kd = out.2.1 := by
  obtain ⟨a, b, rfl, ha, hb⟩ := hp
  have hfold : (if status.length < 2047 then seenLines (fs.flatMap Folded.lines) else []).foldlM
      (addLine m) (0, kd) = some (0, kd) := by
    rw [seenLines_after, hnil]
    rfl
  obtain ⟨timeout, sock, -, -, hx⟩ := execRequest_lines hq (hr.lineOk _ List.mem_cons_self) hr.code
    (fun l hl => hr.lineOk l (List.mem_cons_of_mem _ hl)) ha hb r hfold rest e
  refine ⟨timeout, sock, ?_⟩
  rw [hx]
  exact ⟨rfl, rfl⟩

/-- When folded headers are joined: the continuation lines are blank, there is a table to write to, the
lines before the last header do not fill the buffer, and no line is read that continues it. -/
structure JoinCond (status : Bytes) (fs : List Folded) (kd : Option (List KeyData)) : Prop where
  blank : ∀ f ∈ fs, ∀ l ∈ f.more, ∀ ch ∈ l, ch = SP
  table : fs = [] → kd ≠ none
  short : fs ≠ [] → ∀ l ∈ status :: fs.dropLast.flatMap Folded.lines, l.length < 2047
  last : ∀ f ∈ fs.getLast?, f.more = [] ∨ 2047 ≤ (headerLine f.header).length

theorem stripped_eq_nil {l : Bytes} : stripped l = [] ↔ ∀ ch ∈ l, ch = SP := by
  simp [stripped, List.dropWhile_eq_nil_iff]

theorem Folded.joined_eq_header (f : Folded) :
    f.joined = f.header ↔ ∀ l ∈ f.more, ∀ ch ∈ l, ch = SP := by
  rw [Folded.joined, Prod.ext_iff]
  simp only [true_and, List.append_right_eq_self, List.flatMap_eq_nil_iff, stripped_eq_nil]

theorem map_joined_eq {fs : List Folded} : fs.map Folded.joined = fs.map Folded.header ↔
    ∀ f ∈ fs, ∀ l ∈ f.more, ∀ ch ∈ l, ch = SP := by
  simp only [List.map_inj_left, Folded.joined_eq_header]

theorem pending_map_seen (m : Memory) {fs : List Folded} {f : Folded} (hf : f ∈ fs.getLast?) :
    pending m (fs.map Folded.seen) = leftover m fs.length f.seen.more := by
  have hlast : fs.getLast? = some f := hf
  rw [pending, List.getLast?_map, hlast, List.length_map]
  rfl

/-- Memory that happens to hold a space. -/
def markedMemory : Memory := ⟨fun _ _ => cleared, fun _ => [SP]⟩

theorem more_eq_nil_of_leftover {n : ℕ} {more : List Bytes} {d : Option Bytes}
    (h : ∀ m, leftover m n more = d) : more = [] := by
  by_contra hne
  have hlast : more.getLast? = some (more.getLast hne) := List.getLast?_eq_some_getLast hne
  have hclear := h clearMemory
  have hmarked := h markedMemory
  rw [leftover, hlast] at hclear hmarked
  have hsame := Option.some.inj (hclear.trans hmarked.symm)
  have hlen := congrArg List.length hsame
  simp [clearMemory, markedMemory] at hlen

theorem joined_unseen_iff (hq : q.getResponse ≠ 0) (hr : FoldedResponse status fs)
    (hp : FoldedInTime arr status fs) (hkd : kd ≠ some []) (hnil : seenFoldedAfter status fs = [])
    (r : Rtspcl) (rest : List (ℕ × UInt8)) (e : End) :
    Joined (execRequest r q kd ⟨arr ++ rest, e⟩) fs ↔ fs = [] ∧ kd ≠ none := by
  have hcall := execRequest_unseen hq hr hp hnil r kd rest e
  constructor
  · rintro ⟨d, hall⟩
    obtain ⟨timeout, sock, hout, hx⟩ := hcall clearMemory
    obtain ⟨hret, rest', htable⟩ := hall clearMemory
    rw [hout] at hret
    rw [hx] at htable
    have hne : kd ≠ none := by
      rintro rfl
      cases hret
    obtain ⟨c, t, rfl⟩ := exists_cons hkd hne
    have hentries : entriesOf [] ++ ⟨none, c.data⟩ :: t = _ := Option.some.inj htable
    exact ⟨List.map_eq_nil_iff.mp (entriesOf_inj hentries).symm, hne⟩
  · rintro ⟨rfl, hne⟩
    obtain ⟨c, t, rfl⟩ := exists_cons hkd hne
    refine ⟨c.data, fun m => ?_⟩
    obtain ⟨timeout, sock, hout, hx⟩ := hcall m
    exact ⟨hout, t, hx⟩

theorem joined_seen_iff (hq : q.getResponse ≠ 0) (hr : FoldedResponse status fs)
    (hp : FoldedInTime arr status fs) (hlen : fs.length ≤ 15) (hne : seenFoldedAfter status fs ≠ [])
    (r : Rtspcl) (kd : Option (List KeyData)) (rest : List (ℕ × UInt8)) (e : End) :
    Joined (execRequest r q kd ⟨arr ++ rest, e⟩) fs ↔
      (seenFoldedAfter status fs).map Folded.header = fs.map Folded.joined ∧
        ∃ d, ∀ m, pending m (seenFoldedAfter status fs) = d := by
  have hcall := execRequest_folded hq hr hp hlen hne r kd rest e
  constructor
  · rintro ⟨d, hall⟩
    have htable : ∀ m, (seenFoldedAfter status fs).map Folded.header = fs.map Folded.joined ∧
        pending m (seenFoldedAfter status fs) = d := by
      intro m
      obtain ⟨-, rest', hx⟩ := hcall m
      obtain ⟨-, rest'', hkd⟩ := hall m
      have heq := Option.some.inj (hx.symm.trans hkd)
      have hheaders := entriesOf_inj heq
      rw [hheaders] at heq
      have hcons := List.append_cancel_left heq
      injection hcons with hentry
      injection hentry with _ hd
      exact ⟨hheaders, hd⟩
    exact ⟨(htable clearMemory).1, d, fun m => (htable m).2⟩
  · rintro ⟨hheaders, d, hd⟩
    refine ⟨d, fun m => ?_⟩
    obtain ⟨hret, rest', hx⟩ := hcall m
    rw [hheaders, hd m] at hx
    exact ⟨hret, rest', hx⟩

/-- The headers have their joined values if all are seen and the lines that continue them are blank. -/
theorem seen_headers_iff : (seenFoldedAfter status fs).map Folded.header = fs.map Folded.joined ↔
    seenFoldedAfter status fs = fs.map Folded.seen ∧ ∀ f ∈ fs, ∀ l ∈ f.more, ∀ ch ∈ l, ch = SP := by
  have hall : (fs.map Folded.seen).map Folded.header = fs.map Folded.header := List.map_map ..
  constructor
  · intro hheaders
    have hcount := congrArg List.length hheaders
    rw [List.length_map, List.length_map] at hcount
    have hseen : seenFoldedAfter status fs = fs.map Folded.seen :=
      (seenFoldedAfter_isPrefix status fs).eq_of_length (by rw [List.length_map]; exact hcount)
    rw [hseen, hall] at hheaders
    exact ⟨hseen, map_joined_eq.mp hheaders.symm⟩
  · rintro ⟨hseen, hblank⟩
    rw [hseen, hall, map_joined_eq.mpr hblank]

/-- What follows the headers does not depend on memory if nothing was appended after the last one. -/
theorem pending_const_iff : (∃ d, ∀ m, pending m (fs.map Folded.seen) = d) ↔
    ∀ f ∈ fs.getLast?, f.more = [] ∨ 2047 ≤ (headerLine f.header).length := by
  constructor
  · rintro ⟨d, hd⟩ f hf
    rw [← Folded.seen_more_eq_nil]
    refine more_eq_nil_of_leftover (n := fs.length) (d := d) fun m => ?_
    rw [← pending_map_seen m hf]
    exact hd m
  · intro hlast
    refine ⟨none, fun m => ?_⟩
    cases hf : fs.getLast? with
    | none =>
      rw [List.getLast?_eq_none_iff.mp hf]
      rfl
    | some f =>
      have hnil := (Folded.seen_more_eq_nil f).mpr (hlast f hf)
      rw [pending_map_seen m hf, hnil]
      rfl

/-- **Folded headers** of a `200` response with at most fifteen of them, for every contents of memory. -/
theorem joined_iff (hq : q.getResponse ≠ 0) (hr : FoldedResponse status fs)
    (hp : FoldedInTime arr status fs) (hlen : fs.length ≤ 15) (hkd : kd ≠ some []) (r : Rtspcl)
    (rest : List (ℕ × UInt8)) (e : End) :
    Joined (execRequest r q kd ⟨arr ++ rest, e⟩) fs ↔ JoinCond status fs kd := by
  by_cases hfs : fs = []
  · have hnil : seenFoldedAfter status fs = [] := by
      rw [hfs, seenFoldedAfter, seenFolded, ite_self]
    rw [joined_unseen_iff hq hr hp hkd hnil]
    constructor
    · rintro ⟨-, hne⟩
      exact ⟨by simp [hfs], fun _ => hne, fun h => absurd hfs h, by simp [hfs]⟩
    · intro hcond
      exact ⟨hfs, hcond.table hfs⟩
  · by_cases hnil : seenFoldedAfter status fs = []
    · -- a status line that fills the buffer hides all headers
      rw [joined_unseen_iff hq hr hp hkd hnil]
      have hlost : ¬ seenFoldedAfter status fs = fs.map Folded.seen := by
        rw [hnil]
        exact fun h => hfs (List.map_eq_nil_iff.mp h.symm)
      exact ⟨fun h => absurd h.1 hfs, fun h => absurd (seenFoldedAfter_eq_iff.mpr h.short) hlost⟩
    · rw [joined_seen_iff hq hr hp hlen hnil, seen_headers_iff]
      constructor
      · rintro ⟨⟨hseen, hblank⟩, hd⟩
        rw [hseen, pending_const_iff] at hd
        exact ⟨hblank, fun h => absurd h hfs, seenFoldedAfter_eq_iff.mp hseen, hd⟩
      · rintro ⟨hblank, -, hshort, hlast⟩
        have hseen := seenFoldedAfter_eq_iff.mpr hshort
        refine ⟨⟨hseen, hblank⟩, ?_⟩
        rw [hseen, pending_const_iff]
        exact hlast

end Call

/-- A response with folded headers that comes at once. -/
def respondFolded (fs : List Folded) : List (ℕ × UInt8) :=
  (success ++ crlf ++ linesText (fs.flatMap Folded.lines)).map fun ch => (0, ch)

/-- A header that a blank line continues, and another header. -/
def blankLine : List Folded :=
  [⟨(ascii "Session", ascii " 1"), [ascii "  "]⟩, ⟨(ascii "CSeq", ascii " 2"), []⟩]

theorem joined_blankLine :
    Joined (execRequest client options none ⟨respondFolded blankLine ++ [], .idle⟩) blankLine := by
  have hr : FoldedResponse success blankLine := by decide +kernel
  have hp : FoldedInTime (respondFolded blankLine) success blankLine :=
    foldedInTime_of_prompt (by decide +kernel)
  refine (joined_iff (by decide) hr hp (by decide) (by decide) client [] .idle).mpr
    ⟨by decide +kernel, by decide, fun _ => by decide +kernel, ?_⟩
  rintro f ⟨⟩
  exact .inl rfl

/-- A header in two lines. -/
def twoLines : List Folded := [⟨(ascii "Session", ascii " 1"), [ascii " 2"]⟩]

/-- The second line is not in the entry of its header. -/
theorem joined_twoLines :
    FoldedResponse success twoLines ∧ FoldedInTime (respondFolded twoLines) success twoLines ∧
      ¬ Joined (execRequest client options none ⟨respondFolded twoLines, .idle⟩) twoLines := by
  refine ⟨by decide +kernel, foldedInTime_of_prompt (by decide +kernel), ?_⟩
  rintro ⟨d, hall⟩
  obtain ⟨-, rest, hkd⟩ := hall clearMemory
  have hvalue : (execRequest client options none ⟨respondFolded twoLines, .idle⟩ clearMemory).kd.bind
      (kdLookup · (ascii "Session")) = some (ascii " 1") := by decide +kernel
  rw [hkd, Option.bind_some, kdLookup_entriesOf] at hvalue
  revert hvalue
  decide +kernel

end Waveplay.RaopPlay.FoldedHeaders
