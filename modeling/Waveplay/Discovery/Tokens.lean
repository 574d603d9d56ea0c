import Waveplay.Discovery.Matcher

/-! # The tokens of a filter

The constructor of `AbstractMatcher` finds a token and acts on it in one loop. Where a token ends does not
depend on what was done with the earlier ones, so that the loop is the composition of a lexer `lex` and of
the loop over its tokens `takes` (`scan_toOption`).

A filter that is spelled from words, symbols and quoted texts, with spaces between them, has these tokens
(`lex_spell`). -/

namespace Waveplay.Discovery.Tokens

open Waveplay.Discovery.Matcher

/-! ### The lexer -/

/-- The token that ends at the present character, if it is not the first. -/
def pending (p : Parser) : List Text := if p.token = [] then [] else [p.text]

/-- The tokens of a filter; only the variables `token`, `lastc` and `quotechar` are used. It fails at a
backslash without a character, and a token whose quotes are not closed is dropped. -/
def lex (jdk : Jdk) : Parser → Text → Option (List Text)
  | p, [] => some (if p.quotechar.isNone then pending p else [])
  | p, c :: rest =>
    if c = '\\' then
      match rest with
      | [] => none
      | d :: rest => lex jdk { p with token := d :: c :: p.token, lastc := unescape d } rest
    else if p.quotechar = some c then
      lex jdk { p with token := c :: p.token, lastc := c, quotechar := none } rest
    else if p.begins jdk c then
      (lex jdk { token := [c], lastc := c, quotechar := if isQuote c then some c else none } rest).map
        (pending p ++ ·)
    else lex jdk { p with token := c :: p.token, lastc := c } rest

/-- The loop over tokens. -/
def takes (filter : Text) (p : Parser) (tokens : List Text) : Except Exception Parser :=
  tokens.foldlM (Parser.take filter) p

/-- The variables that the lexer uses. -/
def lexical (p : Parser) : Parser :=
  { token := p.token, lastc := p.lastc, quotechar := p.quotechar }

/-- The variables that the tokens change; the others have values that play no role. -/
def bare (p : Parser) : Parser := { p with token := [' '], lastc := '\x00', quotechar := none }

theorem toOption_eq_some_iff {α : Type} {x : Except Exception α} {a : α} :
    x.toOption = some a ↔ x = .ok a := by
  cases x with
  | error e => simp [Except.toOption]
  | ok b => simp [Except.toOption]

theorem toOption_map {α β : Type} (x : Except Exception α) (f : α → β) :
    (x.map f).toOption = x.toOption.map f := by
  cases x with
  | error e => rfl
  | ok a => rfl

theorem takes_cons (filter : Text) (p : Parser) (t : Text) (ts : List Text) :
    takes filter p (t :: ts) = p.take filter t >>= fun q => takes filter q ts :=
  List.foldlM_cons

theorem takes_append (filter : Text) (p : Parser) (ts us : List Text) :
    takes filter p (ts ++ us) = takes filter p ts >>= fun q => takes filter q us :=
  List.foldlM_append

/-- A token changes the other variables in the same way whatever the lexer has. -/
theorem take_bare (filter : Text) {p : Parser} {t : Text} (h : p.token ≠ []) :
    (p.take filter t).map bare = (bare p).take filter t := by
  obtain ⟨token, lastc, quotechar, key, op, val, stack, test⟩ := p
  have hfirst : ¬ (t = [] ∧ token = []) := fun hc => h hc.2
  have hbare : ¬ (t = [] ∧ [' '] = []) := fun hc => absurd hc.2 (by simp)
  rw [Parser.take, Parser.take, if_neg hfirst]
  by_cases hopen : t = ['(']
  · subst hopen
    rfl
  by_cases hclose : t = [')']
  · subst hclose
    cases hpop : popBracket stack test with
    | error e => simp [bare, hpop, Except.map]
    | ok r => simp [bare, hpop, Except.map]
  rw [if_neg hopen, if_neg hclose]
  simp only [bare, if_neg hbare, if_neg hopen, if_neg hclose]
  rcases key with _ | key
  · rfl
  rcases op with _ | op
  · rfl
  rcases val with _ | val
  · simp only
    split_ifs <;> rfl
  · simp only
    split_ifs <;> rfl

/-! ### One token -/

section

variable {filter : Text} {p : Parser} {t key op : Text}

theorem take_open (p : Parser) :
    p.take filter ['('] = .ok { p with stack := .bracket :: p.stack } := by
  rw [Parser.take, if_neg (by simp), if_pos rfl]

theorem take_close (p : Parser) : p.take filter [')'] =
    (popBracket p.stack p.test).map fun (stack, test) => { p with stack, test } := by
  rw [Parser.take, if_neg (by simp), if_neg (by decide), if_pos rfl]

/-- A token that is neither a bracket nor the empty one at the start. -/
structure Proper (p : Parser) (t : Text) : Prop where
  token : p.token ≠ []
  opening : t ≠ ['(']
  closing : t ≠ [')']

theorem take_key (h : Proper p t) (hkey : p.key = none) :
    p.take filter t = .ok { p with key := some (unquote t) } := by
  rw [Parser.take, if_neg fun hc => h.token hc.2, if_neg h.opening, if_neg h.closing]
  simp only [hkey]

theorem take_op (h : Proper p t) (hkey : p.key = some key) (hop : p.op = none) :
    p.take filter t = .ok { p with op := some t } := by
  rw [Parser.take, if_neg fun hc => h.token hc.2, if_neg h.opening, if_neg h.closing]
  simp only [hkey, hop]

theorem take_second (h : Proper p t) (hkey : p.key = some key) (hop : p.op = some op)
    (hval : p.val = none) (ht : t = ['='] ∨ t = ['~']) :
    p.take filter t = .ok { p with op := some (op ++ t) } := by
  rw [Parser.take, if_neg fun hc => h.token hc.2, if_neg h.opening, if_neg h.closing]
  simp only [hkey, hop, hval]
  rw [if_pos ht]

theorem take_val (h : Proper p t) (hkey : p.key = some key) (hop : p.op = some op)
    (hval : p.val = none) (ht : ¬ (t = ['='] ∨ t = ['~'])) :
    p.take filter t = if op ∈ operators then
        .ok { p with val := some (unquote t), test := p.test ++ [.test key op (unquote t)] }
      else .error (.illegalArgument ("Unknown operator \"".toList ++ op ++ "\"".toList)) := by
  rw [Parser.take, if_neg fun hc => h.token hc.2, if_neg h.opening, if_neg h.closing]
  simp only [hkey, hop, hval]
  rw [if_neg ht]

theorem take_join {val : Text} (h : Proper p t) (hkey : p.key = some key) (hop : p.op = some op)
    (hval : p.val = some val) :
    p.take filter t =
      if t.map Char.toLower = ['a', 'n', 'd'] ∨ t.map Char.toLower = ['o', 'r'] then
        .ok { p with
          stack := (pushJoin (t.map Char.toLower = ['a', 'n', 'd']) p.stack p.test).1
          test := (pushJoin (t.map Char.toLower = ['a', 'n', 'd']) p.stack p.test).2
          key := none, op := none, val := none }
      else .error (.illegalArgument
        ("Invalid token \"".toList ++ t ++ "\" in \"".toList ++ filter ++ "\"".toList)) := by
  rw [Parser.take, if_neg fun hc => h.token hc.2, if_neg h.opening, if_neg h.closing]
  simp only [hkey, hop, hval]

end

/-! ### The stack -/

/-- Connectives. -/
def Joins (js : List Item) : Prop := ∀ j ∈ js, j = .and ∨ j = .or

/-- A closing bracket moves the connectives above the opening one. -/
theorem popBracket_joins (stack : List Item) : ∀ {js : List Item} (test : List Item), Joins js →
    popBracket (js ++ .bracket :: stack) test = .ok (stack, test ++ js)
  | [], test, _ => by
    rw [List.append_nil]
    rfl
  | j :: js, test, h => by
    have hj : j ≠ .bracket := by
      rcases h j List.mem_cons_self with rfl | rfl <;> decide
    rw [List.cons_append, popBracket, if_neg hj,
      popBracket_joins stack _ fun i hi => h i (List.mem_cons_of_mem j hi), List.append_assoc]
    rfl

/-- Where a connective stops taking others off the stack. -/
def Stops (isAnd : Bool) (top : Item) : Prop := top = .bracket ∨ top = .or ∧ isAnd = true

theorem pushJoin_append {isAnd : Bool} {stack : List Item}
    (hstack : ∀ top, stack.head? = some top → Stops isAnd top) :
    ∀ {js : List Item} (test : List Item), (∀ j ∈ js, ¬ Stops isAnd j) →
    pushJoin isAnd (js ++ stack) test = ((if isAnd then .and else .or) :: stack, test ++ js)
  | [], test, _ => by
    rw [List.nil_append, List.append_nil]
    cases stack with
    | nil => rfl
    | cons top stack => exact if_pos (hstack top rfl)
  | j :: js, test, h => by
    have hj : ¬ (j = .bracket ∨ j = .or ∧ isAnd = true) := h j List.mem_cons_self
    rw [List.cons_append, pushJoin, if_neg hj,
      pushJoin_append hstack _ fun i hi => h i (List.mem_cons_of_mem j hi), List.append_assoc]
    rfl

/-! ### The loop -/

theorem take_text (filter : Text) (p : Parser) :
    (p.take filter p.text).map bare = takes filter (bare p) (pending p) := by
  unfold pending
  by_cases h : p.token = []
  · have htext : p.text = [] := by simp [Parser.text, h]
    rw [if_pos h, Parser.take, if_pos ⟨htext, h⟩]
    rfl
  · rw [if_neg h, take_bare filter h]
    simp [takes]

section

variable {jdk : Jdk} {p : Parser} {c : Char} {rest : Text}

theorem lex_collect (hc : c ≠ '\\') (hq : p.quotechar ≠ some c) (hb : p.begins jdk c = false) :
    lex jdk p (c :: rest) = lex jdk { p with token := c :: p.token, lastc := c } rest := by
  rw [lex.eq_def]
  simp only [if_neg hc, if_neg hq, hb, Bool.false_eq_true, if_false]

theorem lex_close (hc : c ≠ '\\') (hq : p.quotechar = some c) :
    lex jdk p (c :: rest) =
      lex jdk { p with token := c :: p.token, lastc := c, quotechar := none } rest := by
  rw [lex.eq_def]
  simp only [if_neg hc, if_pos hq]

theorem lex_begin (hc : c ≠ '\\') (hq : p.quotechar ≠ some c) (hb : p.begins jdk c = true) :
    lex jdk p (c :: rest) =
      (lex jdk { token := [c], lastc := c, quotechar := if isQuote c then some c else none } rest).map
        (pending p ++ ·) := by
  rw [lex.eq_def]
  simp only [if_neg hc, if_neg hq, hb, if_true]

end

/-- **The loop of the constructor** takes the tokens of the lexer. -/
theorem scan_toOption (jdk : Jdk) (filter : Text) (text : Text) (p : Parser) :
    (scan jdk filter p text).toOption.map bare =
      (lex jdk (lexical p) text).bind fun tokens => (takes filter (bare p) tokens).toOption := by
  cases text with
  | nil =>
    rw [scan.eq_def, lex.eq_def]
    by_cases hq : p.quotechar.isNone
    · have htake := congrArg Except.toOption (take_text filter p)
      simp only [lexical, hq, if_true, Option.bind_some]
      rw [← toOption_map]
      exact htake
    · simp only [lexical, hq, Option.bind_some]
      rfl
  | cons c rest =>
    by_cases hc : c = '\\'
    · subst hc
      cases rest with
      | nil =>
        rw [scan.eq_def, lex.eq_def]
        rfl
      | cons d rest =>
        rw [scan.eq_def, lex.eq_def]
        exact scan_toOption jdk filter rest { p with token := d :: '\\' :: p.token, lastc := unescape d }
    by_cases hq : p.quotechar = some c
    · rw [scan_close hc hq, lex_close (p := lexical p) hc hq]
      exact scan_toOption jdk filter rest { p with token := c :: p.token, lastc := c, quotechar := none }
    cases hb : p.begins jdk c with
    | false =>
      rw [scan_collect hc hq hb, lex_collect (p := lexical p) hc hq hb]
      exact scan_toOption jdk filter rest { p with token := c :: p.token, lastc := c }
    | true =>
      have htake := take_text filter p
      have htakes : ∀ tokens, takes filter (bare p) (pending p ++ tokens) =
          (p.take filter p.text).map bare >>= fun q => takes filter q tokens := by
        intro tokens
        rw [takes_append, htake]
      rw [lex_begin (p := lexical p) hc hq hb, Option.bind_map]
      simp only [Function.comp_def, show pending (lexical p) = pending p from rfl, htakes]
      cases hp : p.take filter p.text with
      | error e =>
        rw [scan.eq_def]
        simp only [if_neg hc, if_neg hq, hb, hp, if_true]
        exact (Option.bind_fun_none _).symm
      | ok p' =>
        rw [scan_begin hc hq hb hp, scan_toOption jdk filter rest]
        rfl
termination_by text.length

theorem lex_star (jdk : Jdk) : lex jdk {} ['*'] = some [['*']] := by
  rw [lex_collect (by decide) (by simp) (by simp [Parser.begins, symbols]), lex]
  rfl

/-- The items of the constructor, if there are some. -/
def itemsOf (p : Parser) : Option (List Item) :=
  if p.test ++ p.stack = [] then none else some (p.test ++ p.stack)

/-- **The constructor** on a filter other than `*`. -/
theorem parse_toOption (jdk : Jdk) {filter : Text} (hstar : trim filter ≠ ['*']) :
    (parse jdk filter).toOption = (lex jdk {} (trim filter)).bind fun tokens =>
      ((takes (trim filter) (bare {}) tokens).toOption.bind itemsOf).map some := by
  have hscan := scan_toOption jdk (trim filter) (trim filter) {}
  have hitems : (parse jdk filter).toOption =
      (((scan jdk (trim filter) {} (trim filter)).toOption.map bare).bind itemsOf).map some := by
    rw [parse]
    simp only [if_neg hstar]
    cases scan jdk (trim filter) {} (trim filter) with
    | error e => rfl
    | ok p =>
      show (ite (p.test ++ p.stack = []) _ _ : Except Exception _).toOption =
        (ite (p.test ++ p.stack = []) _ _ : Option _).map some
      split_ifs <;> rfl
  rw [hitems, hscan, Option.bind_assoc, Option.map_bind]
  rfl

/-! ### Words, symbols and quoted texts -/

/-- What the tables of the platform say of letters and digits: they are visible, and none of the
characters that mean something in a filter is one. -/
structure Classes (jdk : Jdk) : Prop where
  visible : ∀ c, jdk.isLetterOrDigit c = true → ¬ c ≤ ' '
  symbol : ∀ c ∈ symbols, jdk.isLetterOrDigit c = false
  backslash : jdk.isLetterOrDigit '\\' = false

/-- A word is a nonempty text of letters and digits. -/
structure Word (jdk : Jdk) where
  text : Text
  ne_nil : text ≠ []
  letters : ∀ c ∈ text, jdk.isLetterOrDigit c = true

/-- A token: a word, a bracket or a character of an operator, or a text in quotes. -/
inductive Token (jdk : Jdk)
  | word (w : Word jdk)
  | symbol (c : Char) (h : c ∈ ['(', ')', '!', '=', '<', '>', '~'])
  | quoted (q : Char) (t : Text) (hq : isQuote q = true) (ht : ∀ c ∈ t, c ≠ q ∧ c ≠ '\\')

def Token.text {jdk : Jdk} : Token jdk → Text
  | .word w => w.text
  | .symbol c _ => [c]
  | .quoted q t _ _ => q :: (t ++ [q])

def Token.isWord {jdk : Jdk} : Token jdk → Bool
  | .word _ => true
  | _ => false

/-- The text of tokens, each with a number of spaces before it. -/
def spell {jdk : Jdk} (ts : List (ℕ × Token jdk)) : Text :=
  ts.flatMap fun t => List.replicate t.1 ' ' ++ t.2.text

/-- There are spaces where two words would join. -/
def Apart {jdk : Jdk} : List (ℕ × Token jdk) → Prop
  | t :: u :: ts => (t.2.isWord = true → u.2.isWord = true → 0 < u.1) ∧ Apart (u :: ts)
  | _ => True

/-- The lexer outside quotes, with `token` collected. -/
def collected (token : Text) : Parser := { token, lastc := token.headD '\x00' }

section

variable {jdk : Jdk}

theorem Classes.space (hj : Classes jdk) : jdk.isLetterOrDigit ' ' = false := by
  by_contra h
  exact hj.visible ' ' (by simpa using h) (by decide)

theorem Classes.letter (hj : Classes jdk) {c : Char} (hc : jdk.isLetterOrDigit c = true) :
    c ≠ '\\' ∧ c ∉ symbols := by
  constructor
  · rintro rfl
    rw [hj.backslash] at hc
    exact Bool.false_ne_true hc
  · intro hmem
    rw [hj.symbol c hmem] at hc
    exact Bool.false_ne_true hc

theorem isQuote_symbol {q : Char} (hq : isQuote q = true) : q ∈ symbols ∧ q ≠ '\\' ∧ ¬ q ≤ ' ' := by
  have hquote : q = '\'' ∨ q = '"' := by simpa [isQuote] using hq
  rcases hquote with rfl | rfl <;> decide

theorem symbol_visible {c : Char} (h : c ∈ ['(', ')', '!', '=', '<', '>', '~']) :
    c ∈ symbols ∧ c ≠ '\\' ∧ ¬ c ≤ ' ' ∧ isQuote c = false := by
  simp only [List.mem_cons, List.not_mem_nil, or_false] at h
  rcases h with rfl | rfl | rfl | rfl | rfl | rfl | rfl <;> decide

theorem Token.text_ne_nil (tok : Token jdk) : tok.text ≠ [] := by
  cases tok with
  | word w => exact w.ne_nil
  | symbol c h => exact List.cons_ne_nil _ _
  | quoted q t hq ht => exact List.cons_ne_nil _ _

theorem Token.edge (tok : Token jdk) {c : Char}
    (hc : tok.text.head? = some c ∨ tok.text.getLast? = some c) :
    tok.isWord = true ∧ jdk.isLetterOrDigit c = true ∨
      tok.isWord = false ∧ c ∈ symbols ∧ c ≠ '\\' ∧ ¬ c ≤ ' ' := by
  cases tok with
  | word w =>
    refine .inl ⟨rfl, w.letters c ?_⟩
    rcases hc with hc | hc
    · exact List.mem_of_mem_head? hc
    · exact List.mem_of_getLast? hc
  | symbol d h =>
    obtain rfl : d = c := by simpa [Token.text] using hc
    obtain ⟨hsym, hback, hvisible, -⟩ := symbol_visible h
    exact .inr ⟨rfl, hsym, hback, hvisible⟩
  | quoted q t hq ht =>
    obtain rfl : q = c := by simpa [Token.text, List.getLast?_cons] using hc
    exact .inr ⟨rfl, isQuote_symbol hq⟩

theorem Token.edge_visible (hj : Classes jdk) (tok : Token jdk) {c : Char}
    (hc : tok.text.head? = some c ∨ tok.text.getLast? = some c) : c ≠ '\\' ∧ ¬ c ≤ ' ' := by
  rcases tok.edge hc with ⟨-, hletter⟩ | ⟨-, -, h⟩
  · exact ⟨(hj.letter hletter).1, hj.visible c hletter⟩
  · exact h

/-! ### The tokens of a text -/

theorem lex_spaces (hj : Classes jdk) (rest : Text) : ∀ (n : ℕ) (token : Text),
    lex jdk (collected token) (List.replicate n ' ' ++ rest) =
      lex jdk (collected (List.replicate n ' ' ++ token)) rest
  | 0, token => rfl
  | n + 1, token => by
    have hb : (collected token).begins jdk ' ' = false := by
      simp [Parser.begins, hj.space, symbols]
    have hcomm : List.replicate (n + 1) ' ' ++ token = List.replicate n ' ' ++ ' ' :: token := by
      rw [List.replicate_succ', List.append_assoc]
      rfl
    rw [hcomm, List.replicate_succ, List.cons_append,
      lex_collect (by decide) (by simp [collected]) hb]
    exact lex_spaces hj rest n (' ' :: token)

theorem lex_letters (hj : Classes jdk) (rest : Text) : ∀ (w : Text) {c : Char} (token : Text),
    jdk.isLetterOrDigit c = true → (∀ d ∈ w, jdk.isLetterOrDigit d = true) →
    lex jdk (collected (c :: token)) (w ++ rest) = lex jdk (collected (w.reverse ++ c :: token)) rest
  | [], c, token, _, _ => rfl
  | d :: w, c, token, hc, hw => by
    have hd := hw d List.mem_cons_self
    obtain ⟨hback, hsym⟩ := hj.letter hd
    have hb : (collected (c :: token)).begins jdk d = false := by
      simp [Parser.begins, collected, hc, hsym]
    rw [List.cons_append, lex_collect hback (by simp [collected]) hb, List.reverse_cons,
      List.append_assoc]
    exact lex_letters hj rest w (c :: token) hd fun x hx => hw x (List.mem_cons_of_mem d hx)

theorem lex_quoted {q : Char} (hq : q ≠ '\\') (rest : Text) : ∀ (t token : Text),
    (∀ c ∈ t, c ≠ q ∧ c ≠ '\\') →
    lex jdk { collected token with quotechar := some q } (t ++ q :: rest) =
      lex jdk (collected (q :: (t.reverse ++ token))) rest
  | [], token, _ => by
    rw [List.nil_append, lex_close hq rfl]
    rfl
  | c :: t, token, ht => by
    obtain ⟨hne, hc⟩ := ht c List.mem_cons_self
    have hnot : some q ≠ some c := fun h => hne (Option.some.inj h).symm
    rw [List.cons_append, lex_collect hc hnot (by simp [Parser.begins]), List.reverse_cons,
      List.append_assoc]
    exact lex_quoted hq rest t (c :: token) fun d hd => ht d (List.mem_cons_of_mem c hd)

theorem lex_token (hj : Classes jdk) (tok : Token jdk) {c : Char} {t : Text} (htext : tok.text = c :: t)
    (rest : Text) :
    lex jdk { token := [c], lastc := c, quotechar := if isQuote c then some c else none } (t ++ rest) =
      lex jdk (collected tok.text.reverse) rest := by
  rw [htext, List.reverse_cons]
  cases tok with
  | word w =>
    have hw : w.text = c :: t := htext
    have hletters : ∀ d ∈ c :: t, jdk.isLetterOrDigit d = true := hw ▸ w.letters
    have hc := hletters c List.mem_cons_self
    have hquote : ¬ isQuote c = true := fun h => (hj.letter hc).2 (isQuote_symbol h).1
    rw [if_neg hquote]
    exact lex_letters hj rest t [] hc fun d hd => hletters d (List.mem_cons_of_mem c hd)
  | symbol d hd =>
    obtain ⟨rfl, rfl⟩ : d = c ∧ [] = t := by simpa [Token.text] using htext
    rw [(symbol_visible hd).2.2.2]
    rfl
  | quoted q u hq hu =>
    obtain ⟨rfl, rfl⟩ : q = c ∧ u ++ [q] = t := by simpa [Token.text] using htext
    rw [if_pos hq, List.append_assoc, List.reverse_append]
    exact lex_quoted (isQuote_symbol hq).2.1 rest u [q] hu

/-- The last character that was collected is a space, or the last of the token. -/
theorem lastc_collected (tok : Token jdk) (n : ℕ) :
    n = 0 ∧ tok.text.getLast? = some (collected (List.replicate n ' ' ++ tok.text.reverse)).lastc ∨
      0 < n ∧ (collected (List.replicate n ' ' ++ tok.text.reverse)).lastc = ' ' := by
  cases n with
  | zero =>
    refine .inl ⟨rfl, ?_⟩
    have hne : tok.text.reverse ≠ [] := by simpa using tok.text_ne_nil
    obtain ⟨c, t, htext⟩ := List.exists_cons_of_ne_nil hne
    rw [← List.head?_reverse, List.replicate_zero, List.nil_append, htext]
    rfl
  | succ n => exact .inr ⟨Nat.succ_pos n, rfl⟩

theorem begins_token (hj : Classes jdk) (tok next : Token jdk) {n : ℕ} {c : Char}
    (hc : next.text.head? = some c) (hapart : tok.isWord = true → next.isWord = true → 0 < n) :
    (collected (List.replicate n ' ' ++ tok.text.reverse)).begins jdk c = true := by
  have hne : List.replicate n ' ' ++ tok.text.reverse ≠ [] := by simpa using fun _ => tok.text_ne_nil
  rcases next.edge (.inl hc) with ⟨hword, hletter⟩ | ⟨-, hsym, -⟩
  · have hlast : jdk.isLetterOrDigit (collected (List.replicate n ' ' ++ tok.text.reverse)).lastc =
        false := by
      rcases lastc_collected tok n with ⟨h0, hlast⟩ | ⟨-, hlast⟩
      · rcases tok.edge (.inr hlast) with ⟨htok, -⟩ | ⟨-, hsym, -⟩
        · have hpos := hapart htok hword
          omega
        · exact hj.symbol _ hsym
      · rw [hlast]
        exact hj.space
    have htoken : (collected (List.replicate n ' ' ++ tok.text.reverse)).token ≠ [] := hne
    rw [Parser.begins, hletter, hlast, decide_eq_true htoken]
    rfl
  · simp [Parser.begins, hsym, collected]

theorem pending_token (hj : Classes jdk) (tok : Token jdk) (n : ℕ) :
    pending (collected (List.replicate n ' ' ++ tok.text.reverse)) = [tok.text] := by
  have hne : tok.text.reverse ≠ [] := by simpa using tok.text_ne_nil
  obtain ⟨c, t, htext⟩ := List.exists_cons_of_ne_nil hne
  have hlast : tok.text.getLast? = some c := by rw [← List.head?_reverse, htext]; rfl
  have hc : c ≠ ' ' := by
    rintro rfl
    exact (tok.edge_visible hj (.inr hlast)).2 (by decide)
  rw [pending, if_neg (by simp [collected, tok.text_ne_nil])]
  have hspaces : ∀ d ∈ List.replicate n ' ', decide (d = ' ') = true :=
    fun d hd => decide_eq_true (List.eq_of_mem_replicate hd)
  rw [Parser.text, collected, List.dropWhile_append_of_pos hspaces, htext,
    List.dropWhile_cons_of_neg (by simpa using hc), ← htext, List.reverse_reverse]

/-- **The tokens of a text** after the first one. -/
theorem lex_spell_tail (hj : Classes jdk) : ∀ (ts : List (ℕ × Token jdk)) (n : ℕ) (tok : Token jdk),
    Apart ((n, tok) :: ts) →
    lex jdk (collected tok.text.reverse) (spell ts) = some (tok.text :: ts.map (·.2.text))
  | [], n, tok, _ => by
    have hpending := pending_token hj tok 0
    rw [spell, List.flatMap_nil, lex]
    exact congrArg some hpending
  | (k, next) :: ts, n, tok, hapart => by
    obtain ⟨c, t, htext⟩ := List.exists_cons_of_ne_nil next.text_ne_nil
    have hhead : next.text.head? = some c := by rw [htext]; rfl
    have hb := begins_token hj tok next hhead hapart.1
    have hback := (next.edge_visible hj (.inl hhead)).1
    rw [spell, List.flatMap_cons, ← spell, List.append_assoc, lex_spaces hj, htext, List.cons_append,
      lex_begin hback (by simp [collected]) hb, lex_token hj next htext,
      lex_spell_tail hj ts k next hapart.2, pending_token hj]
    rfl

theorem lex_first (hj : Classes jdk) (tok : Token jdk) (rest : Text) :
    lex jdk {} (tok.text ++ rest) = lex jdk (collected tok.text.reverse) rest := by
  obtain ⟨c, t, htext⟩ := List.exists_cons_of_ne_nil tok.text_ne_nil
  have hhead : tok.text.head? = some c := by rw [htext]; rfl
  have hback := (tok.edge_visible hj (.inl hhead)).1
  rw [← lex_token hj tok htext, htext, List.cons_append]
  rcases tok.edge (.inl hhead) with ⟨-, hletter⟩ | ⟨-, hsym, -⟩
  · have hsym := (hj.letter hletter).2
    have hquote : ¬ isQuote c = true := fun h => hsym (isQuote_symbol h).1
    rw [lex_collect hback (by simp) (by simp [Parser.begins, hsym]), if_neg hquote]
  · rw [lex_begin hback (by simp) (by simp [Parser.begins, hsym])]
    exact Option.map_id'

/-- **The tokens of a spelled text.** -/
theorem lex_spell (hj : Classes jdk) {tok : Token jdk} {ts : List (ℕ × Token jdk)}
    (hapart : Apart ((0, tok) :: ts)) :
    lex jdk {} (spell ((0, tok) :: ts)) = some (tok.text :: ts.map (·.2.text)) := by
  rw [spell, List.flatMap_cons, ← spell]
  exact (lex_first hj tok (spell ts)).trans (lex_spell_tail hj ts 0 tok hapart)

theorem spell_getLast (hj : Classes jdk) : ∀ (ts : List (ℕ × Token jdk)) (t : ℕ × Token jdk) (c : Char),
    (spell (t :: ts)).getLast? = some c → ¬ c ≤ ' '
  | [], t, c, hc => by
    have hne := t.2.text_ne_nil
    rw [spell, List.flatMap_singleton, List.getLast?_append_of_ne_nil _ hne] at hc
    exact (t.2.edge_visible hj (.inr hc)).2
  | u :: ts, t, c, hc => by
    have hne : spell (u :: ts) ≠ [] := by simp [spell, u.2.text_ne_nil]
    rw [spell, List.flatMap_cons, ← spell, List.getLast?_append_of_ne_nil _ hne] at hc
    exact spell_getLast hj ts u c hc

theorem trim_spell (hj : Classes jdk) (n k : ℕ) (tok : Token jdk) (ts : List (ℕ × Token jdk)) :
    trim (spell ((n, tok) :: ts) ++ List.replicate k ' ') = spell ((0, tok) :: ts) := by
  have hspell : ∀ m, spell ((m, tok) :: ts) = List.replicate m ' ' ++ spell ((0, tok) :: ts) := by
    intro m
    simp [spell]
  have hne : spell ((0, tok) :: ts) ≠ [] := by simp [spell, tok.text_ne_nil]
  rw [hspell n, List.append_assoc]
  refine trim_spaces hne (fun c hc => ?_) (fun c hc => spell_getLast hj ts (0, tok) c hc) n k
  have hc : tok.text.head? = some c := by
    rw [← hc, spell, List.flatMap_cons]
    exact (List.head?_append_of_ne_nil _ tok.text_ne_nil).symm
  exact (tok.edge_visible hj (.inl hc)).2

end

end Waveplay.Discovery.Tokens
