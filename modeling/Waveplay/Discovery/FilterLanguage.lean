import Waveplay.Discovery.Tokens

/-! # The language of filters

A filter is a test, or tests joined by `and`, `or` and brackets, where `and` binds tighter. The grammar is
in the types: an `Expr` is a disjunction of `Conj`, a `Conj` is a conjunction of `Atom`, and an `Atom` is a
test or an `Expr` in brackets. The constructor turns the tokens of an expression into postfix order
(`Expr.read`), and `matches` of a filter is the value of the expression, however it is spelled
(`matches_filter`). -/

namespace Waveplay.Discovery.FilterLanguage

open Waveplay.Discovery.Matcher Waveplay.Discovery.Tokens

/-! ### Expressions -/

/-- The value of a test: a word, or a text in quotes without that quote and without a backslash. -/
inductive Value (jdk : Jdk)
  | word (w : Word jdk)
  | quoted (q : Char) (t : Text) (hq : isQuote q = true) (ht : ∀ c ∈ t, c ≠ q ∧ c ≠ '\\')

/-- A test `key op value`. -/
structure Test (jdk : Jdk) where
  key : Word jdk
  op : Text
  known : op ∈ operators
  value : Value jdk

/-- A connective in any letter case. -/
structure Connective (word : Text) where
  text : Text
  spelled : text.map Char.toLower = word

mutual

/-- A test, or an expression in brackets. -/
inductive Atom (jdk : Jdk)
  | test (t : Test jdk)
  | brackets (e : Expr jdk)

/-- Atoms joined by `and`. -/
inductive Conj (jdk : Jdk)
  | one (a : Atom jdk)
  | and (c : Conj jdk) (w : Connective ['a', 'n', 'd']) (a : Atom jdk)

/-- Conjunctions joined by `or`. -/
inductive Expr (jdk : Jdk)
  | one (c : Conj jdk)
  | or (e : Expr jdk) (w : Connective ['o', 'r']) (c : Conj jdk)

end

section

variable {jdk : Jdk}

/-- The value without the quotes. -/
def Value.text : Value jdk → Text
  | .word w => w.text
  | .quoted _ t _ _ => t

def Value.token : Value jdk → Token jdk
  | .word w => .word w
  | .quoted q t hq ht => .quoted q t hq ht

theorem operator_symbols {op : Text} (h : op ∈ operators) :
    ∀ c ∈ op, c ∈ ['(', ')', '!', '=', '<', '>', '~'] := by
  simp only [operators, List.mem_cons, List.not_mem_nil, or_false] at h
  rcases h with rfl | rfl | rfl | rfl | rfl | rfl | rfl | rfl <;> simp

/-- The characters of an operator are tokens of their own, so that there may be spaces between them. -/
def Test.tokens (t : Test jdk) : List (Token jdk) :=
  .word t.key :: (t.op.pmap Token.symbol (operator_symbols t.known) ++ [t.value.token])

theorem isAlpha_of_toLower {c : Char} (h : c.toLower.isAlpha = true) : c.isAlpha = true := by
  by_cases hup : c.isUpper = true
  · exact Bool.or_eq_true_iff.mpr (.inl hup)
  · have heq : c.toLower = c := dif_neg fun hc => hup (decide_eq_true hc)
    rwa [heq] at h

/-- A connective is a word. -/
def Connective.token {word : Text} (w : Connective word) (hne : word ≠ [])
    (hword : ∀ c ∈ word, c.isAlpha = true) : Token jdk :=
  .word {
    text := w.text
    ne_nil := by
      rintro h
      exact hne (by rw [← w.spelled, h]; rfl)
    letters := by
      intro c hc
      have hlower : c.toLower ∈ word := w.spelled ▸ List.mem_map_of_mem hc
      exact (jdk.letter c (isAlpha_of_toLower (hword _ hlower))).1 }

mutual

/-- The tokens of an expression. -/
def Atom.tokens : Atom jdk → List (Token jdk)
  | .test t => t.tokens
  | .brackets e => .symbol '(' (by decide) :: (e.tokens ++ [.symbol ')' (by decide)])

def Conj.tokens : Conj jdk → List (Token jdk)
  | .one a => a.tokens
  | .and c w a => c.tokens ++ w.token (by decide) (by simp) :: a.tokens

def Expr.tokens : Expr jdk → List (Token jdk)
  | .one c => c.tokens
  | .or e w c => e.tokens ++ w.token (by decide) (by simp) :: c.tokens

end

mutual

/-- The value of an expression, with the tests run from left to right. -/
def Atom.value (test : Text → Text → Text → Except Exception Bool) :
    Atom jdk → Except Exception Bool
  | .test t => test t.key.text t.op t.value.text
  | .brackets e => e.value test

def Conj.value (test : Text → Text → Text → Except Exception Bool) :
    Conj jdk → Except Exception Bool
  | .one a => a.value test
  | .and c _ a => do
    let x ← c.value test
    let y ← a.value test
    pure (x && y)

def Expr.value (test : Text → Text → Text → Except Exception Bool) :
    Expr jdk → Except Exception Bool
  | .one c => c.value test
  | .or e _ c => do
    let x ← e.value test
    let y ← c.value test
    pure (x || y)

end

/-! ### Tokens one by one -/

/-- The variables before a key, with a stack and a list of tests. -/
def atKey (stack test : List Item) : Parser := { token := [' '], stack, test }

/-- The tokens are read from before a key to after a value, and the stack and the tests change. -/
def Reads (filter : Text) (tokens : List Text) (before after : List Item × List Item) : Prop :=
  ∃ key op val, takes filter (atKey before.1 before.2) tokens =
    .ok { atKey after.1 after.2 with key := some key, op := some op, val := some val }

variable {filter : Text} {stack test : List Item}

theorem word_ne (hj : Classes jdk) (w : Word jdk) {c : Char} (hc : c ∈ symbols) : w.text ≠ [c] := by
  intro h
  have hletter := w.letters c (by rw [h]; exact List.mem_singleton_self c)
  exact (hj.letter hletter).2 hc

theorem unquote_word (hj : Classes jdk) (w : Word jdk) : unquote w.text = w.text := by
  obtain ⟨c, t, htext⟩ := List.exists_cons_of_ne_nil w.ne_nil
  have hletter := w.letters c (by rw [htext]; exact List.mem_cons_self)
  have hquote : ¬ isQuote c = true := fun h => (hj.letter hletter).2 (isQuote_symbol h).1
  rw [htext, Matcher.unquote, if_neg fun h => hquote h.2.1]

theorem takes_operator {op : Text} (hop : op ∈ operators) (key : Text) :
    takes filter { atKey stack test with key := some key } (op.map fun c => [c]) =
      .ok { atKey stack test with key := some key, op := some op } := by
  simp only [operators, List.mem_cons, List.not_mem_nil, or_false] at hop
  rcases hop with rfl | rfl | rfl | rfl | rfl | rfl | rfl | rfl <;> rfl

theorem Value.token_ne (hj : Classes jdk) (v : Value jdk) {c : Char} (hc : c ∈ symbols) :
    v.token.text ≠ [c] := by
  cases v with
  | word w => exact word_ne hj w hc
  | quoted q t hq ht => simp [Value.token, Token.text]

theorem Value.unquote (hj : Classes jdk) (v : Value jdk) : unquote v.token.text = v.text := by
  cases v with
  | word w => exact unquote_word hj w
  | quoted q t hq ht => exact unquote_quoted hq t

/-- **A test** is read. -/
theorem Test.read (hj : Classes jdk) (t : Test jdk) (filter : Text) (stack test : List Item) :
    Reads filter (t.tokens.map Token.text) (stack, test)
      (stack, test ++ [.test t.key.text t.op t.value.text]) := by
  have hkey : Proper (atKey stack test) t.key.text :=
    ⟨by simp [atKey], word_ne hj t.key (by decide), word_ne hj t.key (by decide)⟩
  have hval : Proper { atKey stack test with key := some t.key.text, op := some t.op }
      t.value.token.text :=
    ⟨by simp [atKey], t.value.token_ne hj (by decide), t.value.token_ne hj (by decide)⟩
  have hsecond : ¬ (t.value.token.text = ['='] ∨ t.value.token.text = ['~']) := by
    rintro (h | h)
    · exact t.value.token_ne hj (by decide) h
    · exact t.value.token_ne hj (by decide) h
  have hop : (t.op.pmap Token.symbol (operator_symbols t.known)).map (@Token.text jdk) =
      t.op.map fun c => [c] := by
    rw [List.map_pmap]
    exact List.pmap_eq_map _
  refine ⟨t.key.text, t.op, t.value.text, ?_⟩
  calc takes filter (atKey stack test) (t.tokens.map Token.text)
      = takes filter { atKey stack test with key := some t.key.text }
          ((t.op.map fun c => [c]) ++ [t.value.token.text]) := by
        rw [Test.tokens, List.map_cons, List.map_append, hop, takes_cons]
        show (atKey stack test).take filter t.key.text >>= _ = _
        rw [take_key hkey rfl, unquote_word hj]
        rfl
    _ = takes filter { atKey stack test with key := some t.key.text, op := some t.op }
          [t.value.token.text] := by
        rw [takes_append, takes_operator t.known]
        rfl
    _ = _ := by
        rw [takes_cons, take_val hval rfl rfl rfl hsecond, if_pos t.known, t.value.unquote hj]
        rfl

/-! ### Expressions in postfix order -/

/-- Items that leave a value on the stack of `matches`. -/
def Denotes (test : Text → Text → Text → Except Exception Bool) (items : List Item)
    (value : Except Exception Bool) : Prop :=
  ∀ rest work, evaluate test (items ++ rest) work = value >>= fun b => evaluate test rest (b :: work)

theorem denotes_test (test : Text → Text → Text → Except Exception Bool) (key op val : Text) :
    Denotes test [.test key op val] (test key op val) := fun _ _ => rfl

theorem Denotes.join {test : Text → Text → Text → Except Exception Bool} {is js : List Item}
    {x y : Except Exception Bool} {j : Item} {f : Bool → Bool → Bool}
    (hj : ∀ a b rest work, evaluate test (j :: rest) (b :: a :: work) =
      evaluate test rest (f a b :: work)) (hx : Denotes test is x) (hy : Denotes test js y) :
    Denotes test (is ++ js ++ [j]) (do let a ← x; let b ← y; pure (f a b)) := by
  intro rest work
  rw [List.append_assoc, List.append_assoc, hx]
  cases x with
  | error e => rfl
  | ok a =>
    refine (hy _ _).trans ?_
    cases y with
    | error e => rfl
    | ok b => exact hj a b rest work

theorem evaluate_and (test : Text → Text → Text → Except Exception Bool) (a b : Bool)
    (rest : List Item) (work : List Bool) :
    evaluate test (.and :: rest) (b :: a :: work) = evaluate test rest ((a && b) :: work) := by
  rw [evaluate, Bool.and_comm]

theorem evaluate_or (test : Text → Text → Text → Except Exception Bool) (a b : Bool)
    (rest : List Item) (work : List Bool) :
    evaluate test (.or :: rest) (b :: a :: work) = evaluate test rest ((a || b) :: work) := by
  rw [evaluate, Bool.or_comm]

theorem Reads.brackets {tokens : List Text} {js out : List Item} (hjs : Joins js)
    (h : Reads filter tokens (.bracket :: stack, test) (js ++ .bracket :: stack, out)) :
    Reads filter (['('] :: (tokens ++ [[')']])) (stack, test) (stack, out ++ js) := by
  obtain ⟨key, op, val, h⟩ := h
  refine ⟨key, op, val, ?_⟩
  rw [takes_cons, take_open]
  show takes filter (atKey (.bracket :: stack) test) (tokens ++ [[')']]) = _
  rw [takes_append, h]
  show takes filter _ [[')']] = _
  rw [takes_cons, take_close]
  simp only [atKey, popBracket_joins stack out hjs]
  rfl

theorem Reads.join (isAnd : Bool) {ts us : List Text} {w : Text} {s₁ s₂ s₃ : List Item × List Item}
    (hw : w.map Char.toLower = if isAnd then ['a', 'n', 'd'] else ['o', 'r'])
    (h : Reads filter ts s₁ s₂) (h' : Reads filter us (pushJoin isAnd s₂.1 s₂.2) s₃) :
    Reads filter (ts ++ w :: us) s₁ s₃ := by
  obtain ⟨key, op, val, h⟩ := h
  obtain ⟨key', op', val', h'⟩ := h'
  refine ⟨key', op', val', ?_⟩
  have hne : ∀ c : Char, w ≠ [c] := by
    rintro c rfl
    cases isAnd <;> simp at hw
  have hp : Proper { atKey s₂.1 s₂.2 with key := some key, op := some op, val := some val } w :=
    ⟨by simp [atKey], hne _, hne _⟩
  have hisAnd : decide (w.map Char.toLower = ['a', 'n', 'd']) = isAnd := by
    rw [hw]
    cases isAnd <;> decide
  rw [takes_append, h]
  show takes filter _ (w :: us) = _
  rw [takes_cons, take_join hp rfl rfl rfl, if_pos (by rw [hw]; cases isAnd <;> decide), hisAnd]
  exact h'

/-- No connective is at the top of the stack. -/
def Base (stack : List Item) : Prop := ∀ top, stack.head? = some top → top = .bracket

/-- `and` is not at the top of the stack. -/
def BaseOr (stack : List Item) : Prop := ∀ top, stack.head? = some top → top = .bracket ∨ top = .or

mutual

/-- **The tokens of an expression** are turned into postfix order: an atom leaves the stack as it is, a
conjunction may leave an `and` there, and an expression any connectives. -/
theorem Atom.read (hj : Classes jdk) (filter : Text) : ∀ (a : Atom jdk) (stack test : List Item),
    ∃ out, out ≠ [] ∧ Reads filter (a.tokens.map Token.text) (stack, test) (stack, test ++ out) ∧
      ∀ f, Denotes f out (a.value f)
  | .test t, stack, test => by
    refine ⟨[.test t.key.text t.op t.value.text], by simp, ?_, fun f => ?_⟩
    · rw [Atom.tokens]
      exact t.read hj filter stack test
    · rw [Atom.value]
      exact denotes_test f _ _ _
  | .brackets e, stack, test => by
    obtain ⟨out, js, hne, hjs, hread, hden⟩ := e.read hj filter (.bracket :: stack) test
      (fun top h => (Option.some.inj h).symm)
    refine ⟨out ++ js, by simp [hne], ?_, fun f => ?_⟩
    · rw [Atom.tokens, List.map_cons, List.map_append, ← List.append_assoc]
      exact hread.brackets hjs
    · rw [Atom.value]
      exact hden f

theorem Conj.read (hj : Classes jdk) (filter : Text) : ∀ (c : Conj jdk) (stack test : List Item),
    BaseOr stack → ∃ out js, out ≠ [] ∧ (∀ j ∈ js, j = .and) ∧
      Reads filter (c.tokens.map Token.text) (stack, test) (js ++ stack, test ++ out) ∧
      ∀ f, Denotes f (out ++ js) (c.value f)
  | .one a, stack, test, _ => by
    obtain ⟨out, hne, hread, hden⟩ := a.read hj filter stack test
    refine ⟨out, [], hne, by simp, ?_, fun f => ?_⟩
    · rw [Conj.tokens]
      exact hread
    · rw [Conj.value, List.append_nil]
      exact hden f
  | .and c w a, stack, test, hstack => by
    obtain ⟨out, js, hne, hjs, hread, hden⟩ := c.read hj filter stack test hstack
    obtain ⟨out', hne', hread', hden'⟩ := a.read hj filter (.and :: stack) (test ++ out ++ js)
    have hpush : pushJoin true (js ++ stack) (test ++ out) = (.and :: stack, test ++ out ++ js) := by
      refine pushJoin_append (fun top h => ?_) _ fun j h => ?_
      · exact (hstack top h).imp_right fun h => ⟨h, rfl⟩
      · rw [hjs j h]
        simp [Stops]
    rw [← hpush] at hread'
    refine ⟨out ++ js ++ out', [.and], by simp [hne], by simp, ?_, fun f => ?_⟩
    · rw [Conj.tokens, List.map_append, List.map_cons]
      have hjoin := Reads.join true w.spelled hread hread'
      rwa [← List.append_assoc, ← List.append_assoc]
    · rw [Conj.value]
      exact (hden f).join (evaluate_and f) (hden' f)

theorem Expr.read (hj : Classes jdk) (filter : Text) : ∀ (e : Expr jdk) (stack test : List Item),
    Base stack → ∃ out js, out ≠ [] ∧ Joins js ∧
      Reads filter (e.tokens.map Token.text) (stack, test) (js ++ stack, test ++ out) ∧
      ∀ f, Denotes f (out ++ js) (e.value f)
  | .one c, stack, test, hstack => by
    obtain ⟨out, js, hne, hjs, hread, hden⟩ := c.read hj filter stack test fun top h => .inl (hstack top h)
    refine ⟨out, js, hne, fun j h => .inl (hjs j h), ?_, fun f => ?_⟩
    · rw [Expr.tokens]
      exact hread
    · rw [Expr.value]
      exact hden f
  | .or e w c, stack, test, hstack => by
    obtain ⟨out, js, hne, hjs, hread, hden⟩ := e.read hj filter stack test hstack
    obtain ⟨out', js', hne', hjs', hread', hden'⟩ := c.read hj filter (.or :: stack) (test ++ out ++ js)
      fun top h => .inr (Option.some.inj h).symm
    have hpush : pushJoin false (js ++ stack) (test ++ out) = (.or :: stack, test ++ out ++ js) := by
      refine pushJoin_append (fun top h => .inl (hstack top h)) _ fun j h => ?_
      rcases hjs j h with rfl | rfl <;> simp [Stops]
    rw [← hpush] at hread'
    refine ⟨out ++ js ++ out', js' ++ [.or], by simp [hne], ?_, ?_, fun f => ?_⟩
    · intro j h
      rcases List.mem_append.mp h with h | h
      · exact .inl (hjs' j h)
      · exact .inr (List.mem_singleton.mp h)
    · rw [Expr.tokens, List.map_append, List.map_cons]
      have hjoin := Reads.join false w.spelled hread hread'
      simp only [List.append_assoc] at hjoin ⊢
      exact hjoin
    · rw [Expr.value]
      have hjoin := (hden f).join (evaluate_or f) (hden' f)
      simp only [List.append_assoc] at hjoin ⊢
      exact hjoin

end

/-! ### Filters -/

theorem Reads.op_isSome {tokens : List Text} {s s' : List Item × List Item}
    (h : Reads filter tokens s s') {p : Parser} (hp : takes filter (atKey s.1 s.2) tokens = .ok p) :
    p.op ≠ none := by
  obtain ⟨key, op, val, h⟩ := h
  rw [h, Except.ok.injEq] at hp
  rw [← hp]
  simp

theorem apart_zero {n : ℕ} {tok : Token jdk} {ts : List (ℕ × Token jdk)} (h : Apart ((n, tok) :: ts)) :
    Apart ((0, tok) :: ts) := by
  cases ts with
  | nil => exact trivial
  | cons t ts => exact h

theorem apart_one : ∀ ts : List (Token jdk), Apart (ts.map fun t => (1, t))
  | [] => trivial
  | [_] => trivial
  | _ :: u :: ts => ⟨fun _ _ => Nat.one_pos, apart_one (u :: ts)⟩

/-- **The filter language.** Every expression, however it is spelled, is accepted, and `matches` is the
value of the expression for every outcome of the tests. -/
theorem matches_filter (hj : Classes jdk) (e : Expr jdk) {ts : List (ℕ × Token jdk)}
    (hts : ts.map Prod.snd = e.tokens) (hapart : Apart ts) (k : ℕ) :
    ∃ items, parse jdk (spell ts ++ List.replicate k ' ') = .ok items ∧
      ∀ test, matchesAll test items = e.value test := by
  set filter : Text := trim (spell ts ++ List.replicate k ' ') with hfilter
  obtain ⟨out, js, hne, -, hread, hden⟩ := e.read hj filter [] [] (fun top h => by simp at h)
  obtain ⟨⟨n, tok⟩, ts, rfl⟩ : ∃ t us, ts = t :: us := by
    refine List.exists_cons_of_ne_nil fun hnil => ?_
    rw [← hts, hnil] at hread
    exact hread.op_isSome rfl rfl
  have htexts : e.tokens.map Token.text = tok.text :: ts.map (·.2.text) := by
    rw [← hts, List.map_map]
    rfl
  have htrim : filter = spell ((0, tok) :: ts) := trim_spell hj n k tok ts
  have hlex : lex jdk {} filter = some (e.tokens.map Token.text) := by
    rw [htrim, htexts]
    exact lex_spell hj (apart_zero hapart)
  have hstar : filter ≠ ['*'] := by
    intro hstar
    rw [hstar, lex_star, Option.some.injEq] at hlex
    rw [← hlex] at hread
    exact hread.op_isSome rfl rfl
  obtain ⟨key, op, val, htakes⟩ := hread
  have hitems : itemsOf { atKey (js ++ []) ([] ++ out) with
      key := some key, op := some op, val := some val } = some (out ++ js) := by
    simp [itemsOf, atKey, hne]
  have hparse : (parse jdk (spell ((n, tok) :: ts) ++ List.replicate k ' ')).toOption =
      some (some (out ++ js)) := by
    rw [parse_toOption jdk hstar, ← hfilter, hlex, Option.bind_some,
      show bare {} = atKey [] [] from rfl, htakes]
    exact congrArg (Option.map some) hitems
  refine ⟨some (out ++ js), toOption_eq_some_iff.mp hparse, fun test => ?_⟩
  have hvalue := hden test [] []
  rw [List.append_nil] at hvalue
  refine hvalue.trans ?_
  cases e.value test with
  | error err => rfl
  | ok b => rfl

end

theorem classes_ascii : Classes ascii where
  visible c hc hle := by
    have hle : c.toNat ≤ 32 := hle
    have hval := (Bool.or_eq_true_iff.mp hc).imp isAlpha_val isDigit_val
    omega
  symbol := by simp [symbols, ascii]
  backslash := rfl

/-- The expression `a=1 or b!='x '`. -/
def sample : Expr ascii :=
  .or (.one (.one (.test ⟨⟨['a'], by simp, by simp [ascii]⟩, ['='], by decide,
      .word ⟨['1'], by simp, by simp [ascii]⟩⟩)))
    ⟨['O', 'r'], by decide⟩
    (.one (.test ⟨⟨['b'], by simp, by simp [ascii]⟩, ['!', '='], by decide,
      .quoted '\'' ['x', ' '] (by decide) (by simp)⟩))

theorem matches_filter_sample : ∃ items,
    parse ascii (spell (sample.tokens.map fun t => (1, t)) ++ List.replicate 2 ' ') = .ok items ∧
      ∀ test, matchesAll test items = sample.value test :=
  matches_filter classes_ascii sample (by rw [List.map_map]; exact List.map_id _) (apart_one _) 2

end Waveplay.Discovery.FilterLanguage
