import Waveplay.Discovery.FilterLanguage

/-! # Malformed filters

The constructor does not look at its variables when the filter ends, so that a filter can stop in the
middle of a test or with brackets open; and it takes brackets anywhere. What it then keeps is no postfix
expression, and `matches` throws.

* `Rejects`: the constructor throws, or keeps a postfix expression on which `matches` never throws.
* `Shape`: what the tokens of a filter look like, without the tests.
* `rejects_iff`: the one holds exactly if the tokens are refused, or end after a test with all brackets
  closed, and no bracket was closed that holds the last connective still waiting for a test. -/

namespace Waveplay.Discovery.Malformed

open Waveplay.Discovery.Matcher Waveplay.Discovery.Tokens

/-! ### Postfix expressions -/

/-- The number of values on the stack of `matches` after the items, from `n` values on; `none` if the
machine fails. -/
def size : List Item → ℕ → Option ℕ
  | [], n => some n
  | .test _ _ _ :: items, n => size items (n + 1)
  | .bracket :: _, _ => none
  | .and :: items, n => if 2 ≤ n then size items (n - 1) else none
  | .or :: items, n => if 2 ≤ n then size items (n - 1) else none

/-- Either the constructor throws, or it keeps a postfix expression and `matches` returns, if no test
throws. -/
def Rejects (jdk : Jdk) (filter : Text) : Prop :=
  ∀ items, parse jdk filter = .ok items →
    (∀ is, items = some is → size is 0 = some 1) ∧
    ∀ test : Text → Text → Text → Bool, ∃ b,
      matchesAll (fun key op val => .ok (test key op val)) items = .ok b

/-! ### The shape of a filter -/

/-- What the constructor waits for; an operator may still grow. -/
inductive Phase
  | key
  | op
  | val (op : Text)
  | join
  deriving DecidableEq

/-- The tokens so far: the phase, whether there is a connective inside the innermost open bracket and
inside each of the others, whether there was a test, and whether a bracket was closed that held the last
connective waiting for a test. -/
structure Shape where
  phase : Phase := .key
  joined : Bool := false
  outer : List Bool := []
  tested : Bool := false
  loose : Bool := false

/-- The shape after one more token, `none` if it is refused. -/
def Shape.next (s : Shape) (t : Text) : Option Shape :=
  if t = ['('] then some { s with joined := false, outer := s.joined :: s.outer }
  else if t = [')'] then
    match s.outer with
    | [] => none
    | joined :: outer =>
      some { s with
        joined, outer
        loose := s.loose || (s.joined && s.phase ≠ .join && !(joined || outer.contains true)) }
  else
    match s.phase with
    | .key => some { s with phase := .op }
    | .op => some { s with phase := .val t }
    | .val op =>
      if t = ['='] ∨ t = ['~'] then some { s with phase := .val (op ++ t) }
      else if operators.contains op then some { s with phase := .join, tested := true }
      else none
    | .join =>
      if t.map Char.toLower = ['a', 'n', 'd'] ∨ t.map Char.toLower = ['o', 'r'] then
        some { s with phase := .key, joined := true }
      else none

def shape (tokens : List Text) : Option Shape := tokens.foldlM Shape.next {}

/-- There is nothing at all, or the filter ends after a test with its brackets closed properly. -/
def Shape.Complete (s : Shape) : Prop :=
  s.outer = [] ∧ (s.tested = false ∨ s.phase = .join ∧ s.loose = false)

/-- The filter is refused, or it is complete. -/
def WellFormed (jdk : Jdk) (filter : Text) : Prop :=
  ∀ tokens s, lex jdk {} (trim filter) = some tokens → shape tokens = some s → s.Complete

/-! ### Running postfix expressions -/

theorem size_append : ∀ (is js : List Item) (n : ℕ), size (is ++ js) n = (size is n).bind (size js)
  | [], js, n => rfl
  | .test _ _ _ :: is, js, n => size_append is js (n + 1)
  | .bracket :: is, js, n => rfl
  | .and :: is, js, n | .or :: is, js, n => by
    rw [List.cons_append, size, size]
    split_ifs
    · exact size_append is js (n - 1)
    · rfl

/-- Connectives take a value each, and leave one. -/
theorem size_joins : ∀ {js : List Item}, Joins js → ∀ n, size js n =
    if js = [] ∨ js.length < n then some (n - js.length) else none
  | [], _, n => by simp [size]
  | j :: js, h, n => by
    have hsize : size (j :: js) n = if 2 ≤ n then size js (n - 1) else none := by
      rcases h j List.mem_cons_self with rfl | rfl <;> rfl
    have ih := size_joins (fun i hi => h i (List.mem_cons_of_mem j hi)) (n - 1)
    have hlength : (j :: js).length = js.length + 1 := List.length_cons
    rw [hsize, ih, hlength]
    by_cases hn : js.length + 1 < n
    · rw [if_pos (by omega), if_pos (.inr (by omega)), if_pos (.inr hn)]
      congr 1
      omega
    · rw [if_neg (show ¬ (j :: js = [] ∨ js.length + 1 < n) by simpa using hn)]
      split_ifs with h2 hjs
      · rcases hjs with rfl | hjs
        · rw [List.length_nil] at hn
          omega
        · omega
      · rfl
      · rfl

theorem size_bracket : ∀ {is : List Item}, .bracket ∈ is → ∀ n, size is n = none
  | .bracket :: is, _, n => rfl
  | .test _ _ _ :: is, h, n => size_bracket (by simpa using h) (n + 1)
  | .and :: is, h, n | .or :: is, h, n => by
    rw [size]
    split_ifs
    · exact size_bracket (by simpa using h) (n - 1)
    · rfl

/-- **`matches` returns** exactly if the machine does not fail and a value is left. -/
theorem evaluate_ok_iff (test : Text → Text → Text → Bool) : ∀ (items : List Item) (work : List Bool),
    (∃ b, evaluate (fun key op val => .ok (test key op val)) items work = .ok b) ↔
      ∃ n, size items work.length = some (n + 1)
  | [], [] => by simp [evaluate, size]
  | [], b :: work => by simp [evaluate, size]
  | .test key op val :: items, work => evaluate_ok_iff test items (test key op val :: work)
  | .bracket :: items, work => by simp [evaluate, size]
  | .and :: items, [] | .or :: items, [] => by simp [evaluate, size]
  | .and :: items, [a] | .or :: items, [a] => by simp [evaluate, size]
  | .and :: items, a :: b :: work => by
    have ih := evaluate_ok_iff test items ((a && b) :: work)
    rw [evaluate, ih, size, if_pos (by simp)]
    rfl
  | .or :: items, a :: b :: work => by
    have ih := evaluate_ok_iff test items ((a || b) :: work)
    rw [evaluate, ih, size, if_pos (by simp)]
    rfl

/-! ### The stack of the constructor -/

/-- The stack has brackets and connectives. -/
def IsStack (st : List Item) : Prop := ∀ i ∈ st, i = .bracket ∨ i = .and ∨ i = .or

/-- The connectives on the stack. -/
def joins (st : List Item) : ℕ := st.countP (· ≠ .bracket)

/-- Whether there is a connective above the topmost bracket, and in each part below. -/
def levels : List Item → Bool × List Bool
  | [] => (false, [])
  | .bracket :: st => (false, (levels st).1 :: (levels st).2)
  | _ :: st => (true, (levels st).2)

theorem levels_joins (st : List Item) : ∀ {js : List Item}, Joins js →
    levels (js ++ st) = (js ≠ [] || (levels st).1, (levels st).2)
  | [], _ => by simp
  | j :: js, h => by
    have ih := levels_joins st fun i hi => h i (List.mem_cons_of_mem j hi)
    have hlevels : levels (j :: (js ++ st)) = (true, (levels (js ++ st)).2) := by
      rcases h j List.mem_cons_self with rfl | rfl <;> rfl
    rw [List.cons_append, hlevels, ih]
    simp

theorem joins_append (is js : List Item) : joins (is ++ js) = joins is + joins js :=
  List.countP_append

theorem joins_joins {js : List Item} (h : Joins js) : joins js = js.length := by
  rw [joins, List.countP_eq_length]
  intro j hj
  rcases h j hj with rfl | rfl <;> decide

theorem joins_pos_iff : ∀ st : List Item,
    0 < joins st ↔ ((levels st).1 || (levels st).2.contains true) = true
  | [] => by simp [joins, levels]
  | .bracket :: st => by
    have ih := joins_pos_iff st
    have hjoins : joins (.bracket :: st) = joins st := List.countP_cons_of_neg (by simp)
    rw [hjoins, ih, levels]
    simp only [List.contains_cons, Bool.false_or, Bool.true_beq]
  | .and :: st | .or :: st => by simp [joins, levels]
  | .test _ _ _ :: st => by simp [joins, levels]

theorem IsStack.split : ∀ {st : List Item}, IsStack st →
    Joins st ∨ ∃ js rest, Joins js ∧ IsStack rest ∧ st = js ++ .bracket :: rest
  | [], _ => .inl fun j hj => absurd hj List.not_mem_nil
  | i :: st, h => by
    have hst : IsStack st := fun j hj => h j (List.mem_cons_of_mem i hj)
    rcases h i List.mem_cons_self with rfl | hi
    · exact .inr ⟨[], st, fun j hj => absurd hj List.not_mem_nil, hst, rfl⟩
    · rcases hst.split with hjoins | ⟨js, rest, hjs, hrest, rfl⟩
      · exact .inl (List.forall_mem_cons.mpr ⟨hi, hjoins⟩)
      · exact .inr ⟨i :: js, rest, List.forall_mem_cons.mpr ⟨hi, hjs⟩, hrest, rfl⟩

theorem popBracket_error : ∀ {js : List Item} (test : List Item), Joins js →
    popBracket js test = .error .emptyStack
  | [], test, _ => rfl
  | j :: js, test, h => by
    have hj : j ≠ .bracket := by
      rcases h j List.mem_cons_self with rfl | rfl <;> decide
    rw [popBracket, if_neg hj]
    exact popBracket_error _ fun i hi => h i (List.mem_cons_of_mem j hi)

theorem IsStack.pushJoin (isAnd : Bool) : ∀ {st : List Item} (test : List Item), IsStack st →
    ∃ js rest, Joins js ∧ st = js ++ rest ∧
      pushJoin isAnd st test = ((if isAnd then .and else .or) :: rest, test ++ js)
  | [], test, _ => ⟨[], [], fun j hj => absurd hj List.not_mem_nil, rfl, by simp [Matcher.pushJoin]⟩
  | top :: st, test, h => by
    by_cases hstop : top = .bracket ∨ top = .or ∧ isAnd = true
    · refine ⟨[], top :: st, fun j hj => absurd hj List.not_mem_nil, rfl, ?_⟩
      rw [Matcher.pushJoin, if_pos hstop, List.append_nil]
    · obtain ⟨js, rest, hjs, rfl, hpush⟩ :=
        IsStack.pushJoin isAnd (test ++ [top]) fun j hj => h j (List.mem_cons_of_mem top hj)
      have htop : top = .and ∨ top = .or :=
        (h top List.mem_cons_self).resolve_left fun hb => hstop (.inl hb)
      refine ⟨top :: js, rest, List.forall_mem_cons.mpr ⟨htop, hjs⟩, rfl, ?_⟩
      rw [Matcher.pushJoin, if_neg hstop, hpush, List.append_assoc]
      rfl

/-! ### One token -/

/-- The variables of the constructor in a phase. -/
def InPhase (p : Parser) : Phase → Prop
  | .key => p.key = none ∧ p.op = none ∧ p.val = none
  | .op => (∃ key, p.key = some key) ∧ p.op = none ∧ p.val = none
  | .val op => (∃ key, p.key = some key) ∧ p.op = some op ∧ p.val = none
  | .join => (∃ key, p.key = some key) ∧ (∃ op, p.op = some op) ∧ ∃ val, p.val = some val

/-- What is waiting on the stack of `matches` for the connectives of the constructor: a value for each of
them, and one more after a test. -/
def waiting (phase : Phase) (st : List Item) : ℕ := joins st + if phase = .join then 1 else 0

/-- The constructor has read tokens of a shape. -/
structure Follows (p : Parser) (s : Shape) : Prop where
  token : p.token ≠ []
  phase : InPhase p s.phase
  stack : IsStack p.stack
  joined : (levels p.stack).1 = s.joined
  outer : (levels p.stack).2 = s.outer
  size : size p.test 0 = if s.loose then none else some (waiting s.phase p.stack)
  untested : s.tested = false → p.test = [] ∧ joins p.stack = 0
  tested : s.tested = true → p.test ≠ []

/-- The parser and the shape after one token, or both refuse it. -/
def Agree (p : Except Exception Parser) (s : Option Shape) : Prop :=
  (∃ e, p = .error e) ∧ s = none ∨ ∃ q s', p = .ok q ∧ s = some s' ∧ Follows q s'

section

variable {filter : Text} {p : Parser} {s : Shape} {t : Text}

theorem agree_open (h : Follows p s) : Agree (p.take filter ['(']) (s.next ['(']) := by
  refine .inr ⟨_, _, take_open p, rfl, ?_⟩
  have hjoins : joins (.bracket :: p.stack) = joins p.stack := List.countP_cons_of_neg (by simp)
  exact {
    token := h.token
    phase := h.phase
    stack := List.forall_mem_cons.mpr ⟨.inl rfl, h.stack⟩
    joined := rfl
    outer := by rw [levels, h.joined, h.outer]
    size := by rw [waiting, hjoins]; exact h.size
    untested := fun ht => by rw [hjoins]; exact h.untested ht
    tested := h.tested }

/-- The values waiting once the connectives `js` have been taken off the stack. -/
theorem size_taken {js rest : List Item} (hjs : Joins js) (phase : Phase) {n : ℕ}
    (hn : n = waiting phase (js ++ rest)) :
    size js n =
      if js ≠ [] ∧ phase ≠ .join ∧ joins rest = 0 then none else some (waiting phase rest) := by
  have hjoins : joins (js ++ rest) = js.length + joins rest := by rw [joins_append, joins_joins hjs]
  have hlength : js = [] ↔ js.length = 0 := List.length_eq_zero_iff.symm
  rw [size_joins hjs, hn, waiting, waiting, hjoins]
  by_cases hphase : phase = .join
  · rw [if_pos hphase, if_pos (.inr (by omega)), if_neg fun h => h.2.1 hphase]
    congr 1
    omega
  · rw [if_neg hphase]
    by_cases hbad : js ≠ [] ∧ joins rest = 0
    · obtain ⟨hne, hrest⟩ := hbad
      have hnone : ¬ (js = [] ∨ js.length < js.length + joins rest + 0) := by
        rintro (hnil | hlt)
        · exact hne hnil
        · omega
      rw [if_neg hnone, if_pos ⟨hne, hphase, hrest⟩]
    · have hsome : js = [] ∨ js.length < js.length + joins rest + 0 := by
        by_cases hnil : js = []
        · exact .inl hnil
        · have hpos : joins rest ≠ 0 := fun h0 => hbad ⟨hnil, h0⟩
          exact .inr (by omega)
      rw [if_pos hsome, if_neg fun h => hbad ⟨h.1, h.2.2⟩]
      congr 1
      omega

/-- Closing a bracket with connectives inside loses the last of them if it waits for a test that no
connective outside can give. -/
def looseAfter (s : Shape) (rest : List Item) : Bool :=
  s.loose || (s.joined && s.phase ≠ .join && !((levels rest).1 || (levels rest).2.contains true))

/-- The shape once the innermost bracket is closed. -/
def closed (s : Shape) (rest : List Item) : Shape :=
  { s with joined := (levels rest).1, outer := (levels rest).2, loose := looseAfter s rest }

section Close

variable {js rest : List Item}

theorem levels_close (hjs : Joins js) (hstack : p.stack = js ++ .bracket :: rest) :
    levels p.stack = ((js ≠ [] : Bool), (levels rest).1 :: (levels rest).2) := by
  rw [hstack, levels_joins (.bracket :: rest) hjs]
  simp [levels]

theorem joins_close (hstack : p.stack = js ++ .bracket :: rest) : joins p.stack = joins (js ++ rest) := by
  rw [hstack, joins_append, joins_append]
  exact congrArg _ (List.countP_cons_of_neg (by simp))

theorem Follows.size_close (h : Follows p s) (hjs : Joins js) (hstack : p.stack = js ++ .bracket :: rest) :
    Malformed.size (p.test ++ js) 0 = if looseAfter s rest then none else some (waiting s.phase rest) := by
  have hjoined : s.joined = (js ≠ [] : Bool) := by
    rw [← h.joined, levels_close hjs hstack]
  have hcond : (js ≠ [] ∧ s.phase ≠ .join ∧ joins rest = 0) ↔ (s.joined && s.phase ≠ .join &&
      !((levels rest).1 || (levels rest).2.contains true)) = true := by
    have hrest := joins_pos_iff rest
    rw [hjoined, Bool.and_eq_true, Bool.and_eq_true, decide_eq_true_iff, decide_eq_true_iff,
      Bool.not_eq_true', ← Bool.not_eq_true, ← hrest, and_assoc]
    simp
  rw [size_append, h.size, looseAfter]
  cases s.loose with
  | true => rfl
  | false =>
    have hn : waiting s.phase p.stack = waiting s.phase (js ++ rest) := by
      rw [waiting, waiting, joins_close hstack]
    rw [Bool.false_or]
    refine (size_taken hjs s.phase hn).trans ?_
    simp only [hcond]

theorem Follows.close (h : Follows p s) (hjs : Joins js) (hrest : IsStack rest)
    (hstack : p.stack = js ++ .bracket :: rest) :
    Follows { p with stack := rest, test := p.test ++ js } (closed s rest) where
  token := h.token
  phase := h.phase
  stack := hrest
  joined := rfl
  outer := rfl
  size := h.size_close hjs hstack
  untested := by
    intro ht
    obtain ⟨htest, h0⟩ := h.untested ht
    rw [joins_close hstack, joins_append, joins_joins hjs] at h0
    have hnil : js = [] := List.length_eq_zero_iff.mp (by omega)
    exact ⟨by simp [htest, hnil], show joins rest = 0 by omega⟩
  tested := fun ht => by simp [h.tested ht]

end Close

theorem agree_close (h : Follows p s) : Agree (p.take filter [')']) (s.next [')']) := by
  rw [take_close]
  rcases h.stack.split with hjoins | ⟨js, rest, hjs, hrest, hstack⟩
  · refine .inl ⟨⟨.emptyStack, by rw [popBracket_error _ hjoins]; rfl⟩, ?_⟩
    have houter : s.outer = [] := by
      have hlevels := levels_joins [] hjoins
      rw [List.append_nil] at hlevels
      rw [← h.outer, hlevels]
      rfl
    rw [Shape.next, if_neg (by decide), if_pos rfl, houter]
  · have houter : s.outer = (levels rest).1 :: (levels rest).2 := by
      rw [← h.outer, levels_close hjs hstack]
    have hpop := popBracket_joins rest p.test hjs
    rw [← hstack] at hpop
    refine .inr ⟨_, _, by rw [hpop]; rfl, ?_, h.close hjs hrest hstack⟩
    rw [Shape.next, if_neg (by decide), if_pos rfl, houter]
    rfl

theorem Follows.advance (h : Follows p s) (hphase : s.phase ≠ .join) {q : Parser} {phase : Phase}
    (htoken : q.token = p.token) (hstack : q.stack = p.stack) (htest : q.test = p.test)
    (hin : InPhase q phase) (hjoin : phase ≠ .join) : Follows q { s with phase } where
  token := htoken ▸ h.token
  phase := hin
  stack := hstack ▸ h.stack
  joined := hstack ▸ h.joined
  outer := hstack ▸ h.outer
  size := by
    have hwaiting : waiting phase q.stack = waiting s.phase p.stack := by
      rw [waiting, waiting, hstack, if_neg hphase, if_neg hjoin]
    rw [htest, hwaiting]
    exact h.size
  untested := by rw [htest, hstack]; exact h.untested
  tested := by rw [htest]; exact h.tested

theorem Follows.complete (h : Follows p s) (hphase : s.phase ≠ .join) {q : Parser} {key op val : Text}
    (htoken : q.token = p.token) (hstack : q.stack = p.stack) (htest : q.test = p.test ++ [.test key op val])
    (hin : InPhase q .join) : Follows q { s with phase := .join, tested := true } where
  token := htoken ▸ h.token
  phase := hin
  stack := hstack ▸ h.stack
  joined := hstack ▸ h.joined
  outer := hstack ▸ h.outer
  size := by
    rw [htest, size_append, h.size, waiting, waiting, hstack, if_neg hphase, if_pos rfl]
    cases s.loose <;> rfl
  untested := fun ht => absurd ht (by simp)
  tested := fun _ => by simp [htest]

theorem Follows.join (h : Follows p s) (hphase : s.phase = .join) (isAnd : Bool) {q : Parser}
    (htoken : q.token = p.token) (hstack : q.stack = (pushJoin isAnd p.stack p.test).1)
    (htest : q.test = (pushJoin isAnd p.stack p.test).2) (hin : InPhase q .key) :
    Follows q { s with phase := .key, joined := true } := by
  obtain ⟨js, rest, hjs, heq, hpush⟩ := h.stack.pushJoin isAnd p.test
  rw [hpush] at hstack htest
  have hlevels := levels_joins rest hjs
  rw [← heq] at hlevels
  have htop : levels q.stack = (true, (levels rest).2) := by
    rw [hstack]
    cases isAnd <;> rfl
  have hjoins : joins q.stack = joins rest + 1 := by
    rw [hstack]
    cases isAnd <;> exact List.countP_cons_of_pos (by simp)
  have hrest : IsStack rest := fun i hi => h.stack i (by rw [heq]; exact List.mem_append_right js hi)
  have htested : s.tested = true := by
    by_contra hnot
    obtain ⟨htest₀, -⟩ := h.untested (Bool.not_eq_true _ ▸ hnot)
    have hsize := h.size
    rw [htest₀, waiting, if_pos hphase] at hsize
    cases hloose : s.loose with
    | true =>
      rw [hloose] at hsize
      cases hsize
    | false =>
      rw [hloose] at hsize
      have h0 : 0 = joins p.stack + 1 := Option.some.inj hsize
      omega
  exact {
    token := htoken ▸ h.token
    phase := hin
    stack := by
      rw [hstack]
      refine List.forall_mem_cons.mpr ⟨?_, hrest⟩
      cases isAnd <;> simp
    joined := by rw [htop]
    outer := by
      rw [htop, ← h.outer, hlevels]
    size := by
      have hn : waiting s.phase p.stack = waiting s.phase (js ++ rest) := by rw [heq]
      rw [htest, size_append, h.size]
      cases s.loose with
      | true => rfl
      | false =>
        refine (size_taken hjs s.phase hn).trans ?_
        rw [if_neg fun hc => hc.2.1 hphase, waiting, waiting, hjoins, if_pos hphase]
        rfl
    untested := fun ht => absurd (htested.symm.trans ht) (by decide)
    tested := fun ht => by simp [htest, h.tested ht] }

/-- **A token that is no bracket.** -/
theorem agree_proper (h : Follows p s) (hopen : t ≠ ['(']) (hclose : t ≠ [')']) :
    Agree (p.take filter t) (s.next t) := by
  have hp : Proper p t := ⟨h.token, hopen, hclose⟩
  have hin := h.phase
  rw [Shape.next, if_neg hopen, if_neg hclose]
  cases hphase : s.phase with
  | key =>
    rw [hphase] at hin
    refine .inr ⟨_, _, take_key hp hin.1, rfl, ?_⟩
    exact h.advance (by rw [hphase]; simp) rfl rfl rfl ⟨⟨_, rfl⟩, hin.2⟩ (by simp)
  | op =>
    rw [hphase] at hin
    obtain ⟨⟨key, hkey⟩, hop, hval⟩ := hin
    refine .inr ⟨_, _, take_op hp hkey hop, rfl, ?_⟩
    exact h.advance (by rw [hphase]; simp) rfl rfl rfl ⟨⟨key, hkey⟩, rfl, hval⟩ (by simp)
  | val op =>
    rw [hphase] at hin
    obtain ⟨⟨key, hkey⟩, hop, hval⟩ := hin
    have hnot : s.phase ≠ .join := by rw [hphase]; simp
    by_cases hsecond : t = ['='] ∨ t = ['~']
    · refine .inr ⟨_, _, take_second hp hkey hop hval hsecond, if_pos hsecond, ?_⟩
      exact h.advance hnot rfl rfl rfl ⟨⟨key, hkey⟩, rfl, hval⟩ (by simp)
    · have hcontains : operators.contains op = true ↔ op ∈ operators := List.contains_iff_mem
      by_cases hknown : op ∈ operators
      · refine .inr ⟨_, _, (take_val hp hkey hop hval hsecond).trans (if_pos hknown),
          (if_neg hsecond).trans (if_pos (hcontains.mpr hknown)), ?_⟩
        exact h.complete hnot rfl rfl rfl ⟨⟨key, hkey⟩, ⟨op, hop⟩, ⟨_, rfl⟩⟩
      · exact .inl ⟨⟨_, (take_val hp hkey hop hval hsecond).trans (if_neg hknown)⟩,
          (if_neg hsecond).trans (if_neg (mt hcontains.mp hknown))⟩
  | join =>
    rw [hphase] at hin
    obtain ⟨⟨key, hkey⟩, ⟨op, hop⟩, val, hval⟩ := hin
    by_cases hword : t.map Char.toLower = ['a', 'n', 'd'] ∨ t.map Char.toLower = ['o', 'r']
    · refine .inr ⟨_, _, (take_join hp hkey hop hval).trans (if_pos hword), if_pos hword, ?_⟩
      exact h.join hphase _ rfl rfl rfl ⟨rfl, rfl, rfl⟩
    · exact .inl ⟨⟨_, (take_join hp hkey hop hval).trans (if_neg hword)⟩, if_neg hword⟩

/-- **One token.** -/
theorem agree_take (h : Follows p s) (filter t : Text) : Agree (p.take filter t) (s.next t) := by
  by_cases hopen : t = ['(']
  · rw [hopen]
    exact agree_open h
  · by_cases hclose : t = [')']
    · rw [hclose]
      exact agree_close h
    · exact agree_proper h hopen hclose

/-- **The tokens of a filter.** -/
theorem agree_takes (filter : Text) : ∀ (ts : List Text) {p : Parser} {s : Shape}, Follows p s →
    Agree (takes filter p ts) (ts.foldlM Shape.next s)
  | [], p, s, h => .inr ⟨p, s, rfl, rfl, h⟩
  | t :: ts, p, s, h => by
    rw [takes_cons, List.foldlM_cons]
    rcases agree_take h filter t with ⟨⟨e, herror⟩, hnone⟩ | ⟨q, s', hok, hsome, hq⟩
    · rw [herror, hnone]
      exact .inl ⟨⟨e, rfl⟩, rfl⟩
    · rw [hok, hsome]
      exact agree_takes filter ts hq

theorem follows_start : Follows (bare {}) {} where
  token := by simp [bare]
  phase := ⟨rfl, rfl, rfl⟩
  stack := fun i hi => absurd hi List.not_mem_nil
  joined := rfl
  outer := rfl
  size := rfl
  untested := fun _ => ⟨rfl, rfl⟩
  tested := fun ht => absurd ht (by simp)

/-! ### The end of the filter -/

theorem levels_nil_iff : ∀ {st : List Item}, (levels st).2 = [] ↔ .bracket ∉ st
  | [] => by simp [levels]
  | .bracket :: st => by simp [levels]
  | .and :: st | .or :: st => by
    have ih := @levels_nil_iff st
    simpa [levels] using ih
  | .test _ _ _ :: st => by
    have ih := @levels_nil_iff st
    simpa [levels] using ih

theorem Follows.joins_of_closed (h : Follows p s) (houter : s.outer = []) : Joins p.stack := by
  have hnot : .bracket ∉ p.stack := levels_nil_iff.mp (h.outer.trans houter)
  intro i hi
  rcases h.stack i hi with rfl | hi
  · exact absurd ‹_› hnot
  · exact hi

/-- What is kept is empty exactly if there was no test and no bracket is open. -/
theorem Follows.itemsOf_none_iff (h : Follows p s) :
    itemsOf p = none ↔ s.outer = [] ∧ s.tested = false := by
  have hnone : itemsOf p = none ↔ p.test = [] ∧ p.stack = [] := by
    rw [itemsOf, ← List.append_eq_nil_iff]
    simp
  rw [hnone]
  constructor
  · rintro ⟨htest, hstack⟩
    refine ⟨by rw [← h.outer, hstack]; rfl, ?_⟩
    by_contra htested
    exact h.tested (Bool.not_eq_false _ ▸ htested) htest
  · rintro ⟨houter, htested⟩
    obtain ⟨htest, h0⟩ := h.untested htested
    rw [joins_joins (h.joins_of_closed houter)] at h0
    exact ⟨htest, List.length_eq_zero_iff.mp h0⟩

/-- **What is kept** is a postfix expression exactly if the shape is complete. -/
theorem complete_iff (h : Follows p s) (hkept : ¬ (s.outer = [] ∧ s.tested = false)) :
    (s.Complete → size (p.test ++ p.stack) 0 = some 1) ∧
      ∀ n, size (p.test ++ p.stack) 0 = some (n + 1) → s.Complete := by
  have hsize := size_append p.test p.stack 0
  rw [h.size] at hsize
  constructor
  · rintro ⟨houter, htested | ⟨hphase, hloose⟩⟩
    · exact absurd ⟨houter, htested⟩ hkept
    · have hjs := h.joins_of_closed houter
      rw [hsize, hloose, waiting, joins_joins hjs, if_pos hphase]
      show size p.stack (p.stack.length + 1) = some 1
      rw [size_joins hjs, if_pos (.inr (by omega))]
      congr 1
      omega
  · intro n hn
    rw [hsize] at hn
    cases hloose : s.loose with
    | true =>
      rw [hloose] at hn
      cases hn
    | false =>
      rw [hloose] at hn
      replace hn : size p.stack (waiting s.phase p.stack) = some (n + 1) := hn
      have houter : s.outer = [] := by
        rw [← h.outer, levels_nil_iff]
        intro hmem
        rw [size_bracket hmem] at hn
        cases hn
      have hjs := h.joins_of_closed houter
      refine ⟨houter, .inr ⟨?_, hloose⟩⟩
      by_contra hphase
      rw [size_joins hjs, waiting, joins_joins hjs, if_neg hphase] at hn
      split_ifs at hn
      have h0 := Option.some.inj hn
      omega

end

theorem rejects_kept {jdk : Jdk} {filter : Text} {p : Parser} {s : Shape} (h : Follows p s)
    (hparse : (parse jdk filter).toOption = (itemsOf p).map some) :
    Rejects jdk filter ↔ s.Complete := by
  by_cases hkept : s.outer = [] ∧ s.tested = false
  · rw [h.itemsOf_none_iff.mpr hkept] at hparse
    refine ⟨fun _ => ⟨hkept.1, .inl hkept.2⟩, fun _ items hitems => ?_⟩
    rw [toOption_eq_some_iff.mpr hitems] at hparse
    cases hparse
  · obtain ⟨hcomplete, hsize⟩ := complete_iff h hkept
    have hitems : itemsOf p = some (p.test ++ p.stack) := by
      have hne : p.test ++ p.stack ≠ [] := by
        intro hnil
        exact hkept (h.itemsOf_none_iff.mp (if_pos hnil))
      exact if_neg hne
    rw [hitems] at hparse
    have hok : parse jdk filter = .ok (some (p.test ++ p.stack)) := toOption_eq_some_iff.mp hparse
    constructor
    · intro hrejects
      obtain ⟨hwhole, -⟩ := hrejects _ hok
      exact hsize 0 (hwhole _ rfl)
    · intro hc items hitems
      obtain rfl : some (p.test ++ p.stack) = items := Except.ok.inj (hok.symm.trans hitems)
      refine ⟨?_, fun test => ?_⟩
      · rintro is his
        obtain rfl := Option.some.inj his
        exact hcomplete hc
      · exact (evaluate_ok_iff test _ []).mpr ⟨0, hcomplete hc⟩

/-- **Malformed filters are rejected** exactly if they are refused or complete. -/
theorem rejects_iff (jdk : Jdk) (filter : Text) : Rejects jdk filter ↔ WellFormed jdk filter := by
  by_cases hstar : trim filter = ['*']
  · have hparse : parse jdk filter = .ok none := by
      rw [parse]
      exact if_pos hstar
    refine ⟨fun _ tokens s hlex hs => ?_, fun _ items hitems => ?_⟩
    · rw [hstar, lex_star, Option.some.injEq] at hlex
      rw [← hlex] at hs
      obtain rfl := Option.some.inj hs
      exact ⟨rfl, .inl rfl⟩
    · obtain rfl := Except.ok.inj (hparse.symm.trans hitems)
      exact ⟨fun is his => by simp at his, fun test => ⟨true, rfl⟩⟩
  have hparse := parse_toOption jdk hstar
  have hrefused : (parse jdk filter).toOption = none → Rejects jdk filter := by
    intro hnone items hitems
    rw [toOption_eq_some_iff.mpr hitems] at hnone
    cases hnone
  cases hlex : lex jdk {} (trim filter) with
  | none =>
    rw [hlex] at hparse
    refine ⟨fun _ tokens s hs => ?_, fun _ => hrefused hparse⟩
    rw [hlex] at hs
    cases hs
  | some tokens =>
    rw [hlex, Option.bind_some] at hparse
    have hformed : WellFormed jdk filter ↔ ∀ s, shape tokens = some s → s.Complete := by
      refine ⟨fun h s hs => h tokens s hlex hs, fun h ts s hts hs => ?_⟩
      obtain rfl := Option.some.inj (hlex.symm.trans hts)
      exact h s hs
    rw [hformed]
    rcases agree_takes (trim filter) tokens follows_start with ⟨⟨e, herror⟩, hnone⟩ | ⟨q, s, hok, hs, hq⟩
    · rw [herror] at hparse
      refine ⟨fun _ s hs => ?_, fun _ => hrefused hparse⟩
      cases hnone.symm.trans hs
    · rw [hok] at hparse
      rw [rejects_kept hq hparse]
      refine ⟨fun hc s' hs' => ?_, fun hall => hall s hs⟩
      obtain rfl := Option.some.inj (hs.symm.trans hs')
      exact hc

/-- A filter that ends with a connective is taken, and `matches` fails on it. -/
theorem rejects_trailing : ¬ Rejects ascii ['a', '=', 'b', ' ', 'a', 'n', 'd'] := by
  intro h
  have hparse : parse ascii ['a', '=', 'b', ' ', 'a', 'n', 'd'] =
      .ok (some [.test ['a'] ['='] ['b'], .and]) := by decide +kernel
  obtain ⟨b, hb⟩ := (h _ hparse).2 fun _ _ _ => true
  cases hb

end Waveplay.Discovery.Malformed
