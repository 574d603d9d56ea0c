import Waveplay.Lib.Trim
import Mathlib.Data.Int.Notation

/-! # `AbstractMatcher` and `ServiceMatcher`

A filter is read character by character into a list of tests and connectives in postfix order, which a
stack machine runs on a service. Both can end with an exception. What the source leaves to the platform
(character classes, numbers, regular expressions, classes) is given by a `Jdk`.

* `parse`: the constructor.
* `matchesAll`: `matches`, the stack machine.
* `parse_name`: a filter `name=` with a quoted text that has neither that quote nor a backslash is one
  test of the name. -/

namespace Waveplay.Discovery.Matcher

open Waveplay.Lib

abbrev Text := List Char

inductive Exception
  | illegalArgument (message : Text)
  | illegalState (message : Text)
  | indexOutOfBounds
  | emptyStack
  | classCast
  | patternSyntax
  | nullPointer
  | unknownHost
  deriving DecidableEq, Repr

/-- The parts of the platform that discovery uses. -/
structure Jdk where
  isLetterOrDigit : Char → Bool
  isDigit : Char → Bool
  /-- the order of two texts as floats, if both are -/
  compareFloat : Text → Text → Option Ordering
  /-- the text of the float that a text is -/
  floatText : Text → Text
  parseInt : Text → Option ℤ
  compareTo : Text → Text → Ordering
  /-- whether a text matches an expression, if it is one -/
  matchesRegex : Text → Text → Option Bool
  className : Text
  /-- whether a speaker is of the class of that name, if there is one -/
  forName : Text → Option Bool
  /-- a number of base 16 -/
  parseLong : Text → Option ℤ
  hashCode : Text → BitVec 32
  /-- whether `getByName` finds an address -/
  resolves : Option Text → Bool
  /-- the order in which the entries of a map or set are visited -/
  order : {α : Type} → List α → List α
  letter : ∀ c, c.isAlpha = true → isLetterOrDigit c = true ∧ isDigit c = false
  order_perm : ∀ {α : Type} (l : List α), (order l).Perm l

/-! ### The constructor -/

/-- An entry of `test` or of the stack. -/
inductive Item
  | test (key op val : Text)
  | bracket
  | and
  | or
  deriving DecidableEq, Repr

/-- The variables of the loop. `token` is the text since `lasti`, backwards; it is empty exactly at the
first character. -/
structure Parser where
  token : Text := []
  lastc : Char := '\x00'
  quotechar : Option Char := none
  key : Option Text := none
  op : Option Text := none
  val : Option Text := none
  stack : List Item := []
  test : List Item := []
  deriving DecidableEq, Repr

/-- `trim`: without the characters up to the space at both ends. -/
def trim (t : Text) : Text := Trim.trim (· ≤ ' ') t

def isQuote (c : Char) : Bool := c = '\'' || c = '"'

/-- The quotes around a token are taken off. -/
def unquote (token : Text) : Text :=
  match token with
  | q :: rest => if rest ≠ [] ∧ isQuote q ∧ rest.getLast? = some q then rest.dropLast else token
  | [] => token

def operators : List Text :=
  [['='], ['!', '='], ['>'], ['>', '='], ['<', '='], ['<'], ['=', '~'], ['!', '~']]

/-- The characters that begin a token. -/
def symbols : Text := ['(', ')', '!', '=', '<', '>', '~', '\'', '"', '\x00']

/-- A closing bracket: the stack is emptied down to the opening one. -/
def popBracket : List Item → List Item → Except Exception (List Item × List Item)
  | [], _ => .error .emptyStack
  | top :: stack, test =>
    if top = .bracket then .ok (stack, test) else popBracket stack (test ++ [top])

/-- A connective: those that bind as tightly are taken off the stack. -/
def pushJoin (isAnd : Bool) : List Item → List Item → List Item × List Item
  | [], test => ([if isAnd then .and else .or], test)
  | top :: stack, test =>
    if top = .bracket ∨ top = .or ∧ isAnd then ((if isAnd then .and else .or) :: top :: stack, test)
    else pushJoin isAnd stack (test ++ [top])

/-- What the loop does with a token. `join` is never set. -/
def Parser.take (filter : Text) (p : Parser) (token : Text) : Except Exception Parser :=
  if token = [] ∧ p.token = [] then .ok p
  else if token = ['('] then .ok { p with stack := .bracket :: p.stack }
  else if token = [')'] then
    (popBracket p.stack p.test).map fun (stack, test) => { p with stack, test }
  else
    match p.key, p.op, p.val with
    | none, _, _ => .ok { p with key := some (unquote token) }
    | some _, none, _ => .ok { p with op := some token }
    | some key, some op, none =>
      if token = ['='] ∨ token = ['~'] then .ok { p with op := some (op ++ token) }
      else if op ∈ operators then
        .ok { p with val := some (unquote token), test := p.test ++ [.test key op (unquote token)] }
      else .error (.illegalArgument ("Unknown operator \"".toList ++ op ++ "\"".toList))
    | some _, some _, some _ =>
      let isAnd := token.map Char.toLower = ['a', 'n', 'd']
      if isAnd ∨ token.map Char.toLower = ['o', 'r'] then
        let (stack, test) := pushJoin isAnd p.stack p.test
        .ok { p with stack, test, key := none, op := none, val := none }
      else .error (.illegalArgument
        ("Invalid token \"".toList ++ token ++ "\" in \"".toList ++ filter ++ "\"".toList))

/-- The token that ends before the present character, without the spaces before it. -/
def Parser.text (p : Parser) : Text := (p.token.dropWhile (· = ' ')).reverse

def unescape (c : Char) : Char :=
  if c = 'n' then '\n' else if c = 'r' then '\r' else if c = 't' then '\t' else c

/-- Whether a token begins at the present character. -/
def Parser.begins (jdk : Jdk) (p : Parser) (c : Char) : Bool :=
  p.quotechar.isNone &&
    ((p.token ≠ [] && jdk.isLetterOrDigit c && !jdk.isLetterOrDigit p.lastc) || symbols.contains c)

/-- The loop of the constructor. At the end of the filter the character is `0`. -/
def scan (jdk : Jdk) (filter : Text) : Parser → Text → Except Exception Parser
  | p, [] => if p.quotechar.isNone then p.take filter p.text else .ok p
  | p, c :: rest =>
    if c = '\\' then
      match rest with
      | [] => .error .indexOutOfBounds
      | d :: rest =>
        scan jdk filter { p with token := d :: c :: p.token, lastc := unescape d } rest
    else if p.quotechar = some c then
      scan jdk filter { p with token := c :: p.token, lastc := c, quotechar := none } rest
    else if p.begins jdk c then do
      let p ← p.take filter p.text
      scan jdk filter
        { p with token := [c], lastc := c, quotechar := if isQuote c then some c else none } rest
    else scan jdk filter { p with token := c :: p.token, lastc := c } rest

/-- The constructor; `none` if the filter matches anything. -/
def parse (jdk : Jdk) (filter : Text) : Except Exception (Option (List Item)) :=
  let filter := trim filter
  if filter = ['*'] then .ok none
  else do
    let p ← scan jdk filter {} filter
    if p.test ++ p.stack = [] then
      .error (.illegalState ("Invalid filter \"".toList ++ filter ++ "\"".toList))
    else .ok (some (p.test ++ p.stack))

/-! ### Matching -/

/-- The stack machine of `matches`. -/
def evaluate (test : Text → Text → Text → Except Exception Bool) :
    List Item → List Bool → Except Exception Bool
  | [], b :: _ => .ok b
  | [], [] => .error .emptyStack
  | .or :: items, a :: b :: work => evaluate test items ((a || b) :: work)
  | .and :: items, a :: b :: work => evaluate test items ((a && b) :: work)
  | .or :: _, _ => .error .emptyStack
  | .and :: _, _ => .error .emptyStack
  | .bracket :: _, _ => .error .classCast
  | .test key op val :: items, work => do
    let b ← test key op val
    evaluate test items (b :: work)

/-- `matches`. -/
def matchesAll (test : Text → Text → Text → Except Exception Bool) :
    Option (List Item) → Except Exception Bool
  | none => .ok true
  | some items => evaluate test items []

/-- What `getProperty` returns. -/
inductive Property
  | null
  | text (t : Text)
  | clazz
  deriving DecidableEq

def Property.toText (jdk : Jdk) : Property → Text
  | .null => []
  | .text t => t
  | .clazz => jdk.className

/-- The order of two values as numbers, if both begin with a digit and are numbers, and the texts of these
numbers. -/
def numbers (jdk : Jdk) (testval propval : Text) : Option (Ordering × Text × Text) :=
  match propval, testval with
  | p :: _, t :: _ =>
    if jdk.isDigit p && jdk.isDigit t then
      if '.' ∈ propval ∨ '.' ∈ testval then
        (jdk.compareFloat testval propval).map fun o => (o, jdk.floatText testval, jdk.floatText propval)
      else do
        let a ← jdk.parseInt testval
        let b ← jdk.parseInt propval
        some (compare a b, (toString a).toList, (toString b).toList)
    else none
  | _, _ => none

/-- `AbstractMatcher.test`. -/
def compareTest (jdk : Jdk) (op testval propval : Text) : Except Exception Bool :=
  let equals := match numbers jdk testval propval with
    | some (o, _) => o = .eq
    | none => testval = propval
  let (order, testvalue, propvalue) :=
    (numbers jdk testval propval).getD (jdk.compareTo testval propval, testval, propval)
  let regex : Except Exception Bool := match jdk.matchesRegex propvalue testvalue with
    | some b => .ok b
    | none => .error .patternSyntax
  if op = ['='] then .ok equals
  else if op = ['!', '='] then .ok (!equals)
  else if op = ['<'] then .ok (order = .gt)
  else if op = ['<', '='] then .ok (order ≠ .lt)
  else if op = ['>', '='] then .ok (order ≠ .gt)
  else if op = ['>'] then .ok (order = .lt)
  else if op = ['=', '~'] then regex
  else regex.map (!·)

/-- `ServiceMatcher.test`. -/
def serviceTest (jdk : Jdk) (property : Text → Property) (key op testval : Text) :
    Except Exception Bool :=
  if key = ['c', 'l', 'a', 's', 's'] ∧ (op = ['='] ∨ op = ['!', '=']) ∧ property key = .clazz then
    match jdk.forName testval with
    | some b => .ok (b = (op = ['=']))
    | none => .ok (op = ['!', '='])
  else compareTest jdk op testval ((property key).toText jdk)

/-! ### Quoted names -/

section

variable {jdk : Jdk} {filter : Text} {p : Parser} {c : Char} {rest : Text}

theorem scan_collect (hc : c ≠ '\\') (hq : p.quotechar ≠ some c) (hb : p.begins jdk c = false) :
    scan jdk filter p (c :: rest) = scan jdk filter { p with token := c :: p.token, lastc := c } rest := by
  rw [scan.eq_def]
  simp only [if_neg hc, if_neg hq, hb, Bool.false_eq_true, if_false]

theorem scan_close (hc : c ≠ '\\') (hq : p.quotechar = some c) :
    scan jdk filter p (c :: rest) =
      scan jdk filter { p with token := c :: p.token, lastc := c, quotechar := none } rest := by
  rw [scan.eq_def]
  simp only [if_neg hc, if_pos hq]

theorem scan_begin (hc : c ≠ '\\') (hq : p.quotechar ≠ some c) (hb : p.begins jdk c = true)
    {p' : Parser} (hp : p.take filter p.text = .ok p') :
    scan jdk filter p (c :: rest) = scan jdk filter
      { p' with token := [c], lastc := c, quotechar := if isQuote c then some c else none } rest := by
  rw [scan.eq_def]
  simp only [if_neg hc, if_neg hq, hb, if_true, hp]
  rfl

theorem scan_end (hq : p.quotechar = none) : scan jdk filter p [] = p.take filter p.text := by
  rw [scan, hq, Option.isNone_none, if_pos rfl]

end

theorem scan_quoted (jdk : Jdk) (filter : Text) {q : Char} : ∀ (t rest : Text) {p : Parser},
    p.quotechar = some q → (∀ c ∈ t, c ≠ q ∧ c ≠ '\\') → ∃ lastc,
      scan jdk filter p (t ++ rest) =
        scan jdk filter { p with token := t.reverse ++ p.token, lastc } rest
  | [], rest, p, _, _ => ⟨p.lastc, rfl⟩
  | c :: t, rest, p, hq, ht => by
    obtain ⟨hcq, hc⟩ := ht c List.mem_cons_self
    have hne : p.quotechar ≠ some c := by
      rw [hq]
      exact fun h => hcq (Option.some.inj h).symm
    have hbegins : p.begins jdk c = false := by simp [Parser.begins, hq]
    obtain ⟨lastc, ih⟩ := scan_quoted jdk filter t rest
      (p := { p with token := c :: p.token, lastc := c }) hq
      fun d hd => ht d (List.mem_cons_of_mem c hd)
    refine ⟨lastc, ?_⟩
    rw [List.cons_append, scan_collect hc hne hbegins, ih]
    simp

theorem unquote_quoted {q : Char} (hq : isQuote q = true) (t : Text) :
    unquote (q :: (t ++ [q])) = t := by
  simp [unquote, hq]

theorem trim_eq {c d : Char} (hc : ¬ c ≤ ' ') (hd : ¬ d ≤ ' ') (t : Text) :
    trim (c :: (t ++ [d])) = c :: (t ++ [d]) := by
  refine Trim.trim_eq_self (fun e he => ?_) (fun e he => ?_)
  · rw [← Option.some.inj he]
    exact decide_eq_false hc
  · rw [← List.cons_append, List.getLast?_concat] at he
    rw [← Option.some.inj he]
    exact decide_eq_false hd

theorem trim_spaces {t : Text} (hne : t ≠ []) (hhead : ∀ c, t.head? = some c → ¬ c ≤ ' ')
    (hlast : ∀ c, t.getLast? = some c → ¬ c ≤ ' ') (n k : ℕ) :
    trim (List.replicate n ' ' ++ (t ++ List.replicate k ' ')) = t :=
  Trim.trim_replicate rfl hne (fun c hc => decide_eq_false (hhead c hc))
    (fun c hc => decide_eq_false (hlast c hc)) n k

theorem scan_key (jdk : Jdk) (filter rest : Text) :
    scan jdk filter {} (['n', 'a', 'm', 'e', '='] ++ rest) =
      scan jdk filter { token := ['='], lastc := '=', key := some ['n', 'a', 'm', 'e'] } rest := by
  have hletter : ∀ c ∈ ['n', 'a', 'm', 'e'], jdk.isLetterOrDigit c = true := by
    have halpha : ∀ c ∈ ['n', 'a', 'm', 'e'], c.isAlpha = true := by simp
    exact fun c hc => (jdk.letter c (halpha c hc)).1
  have hn : jdk.isLetterOrDigit 'n' = true := hletter 'n' (by decide)
  have ha : jdk.isLetterOrDigit 'a' = true := hletter 'a' (by decide)
  have hm : jdk.isLetterOrDigit 'm' = true := hletter 'm' (by decide)
  show scan jdk filter {} ('n' :: 'a' :: 'm' :: 'e' :: '=' :: rest) = _
  rw [scan_collect (by decide) (by decide) (by simp [Parser.begins, symbols]),
    scan_collect (by decide) (by simp) (by simp [Parser.begins, symbols, hn]),
    scan_collect (by decide) (by simp) (by simp [Parser.begins, symbols, ha]),
    scan_collect (by decide) (by simp) (by simp [Parser.begins, symbols, hm]),
    scan_begin (by decide) (by simp) (by simp [Parser.begins, symbols]) rfl]
  rfl

/-- The operator is read at the opening quote. -/
theorem scan_operator (jdk : Jdk) (filter rest : Text) {q : Char} (hq : isQuote q = true) :
    scan jdk filter { token := ['='], lastc := '=', key := some ['n', 'a', 'm', 'e'] } (q :: rest) =
      scan jdk filter { token := [q], lastc := q, quotechar := some q, key := some ['n', 'a', 'm', 'e'],
                        op := some ['='] } rest := by
  have hquote : q = '\'' ∨ q = '"' := by simpa [isQuote] using hq
  have hbegins : q ∈ symbols := by rcases hquote with rfl | rfl <;> decide
  have hback : q ≠ '\\' := by rcases hquote with rfl | rfl <;> decide
  rw [scan_begin hback (by simp) (by simp [Parser.begins, hbegins]) rfl, if_pos hq]
  rfl

theorem take_value (filter : Text) {p : Parser} {q : Char} (hq : isQuote q = true) {t : Text}
    (htoken : p.text = q :: (t ++ [q])) (hkey : p.key = some ['n', 'a', 'm', 'e'])
    (hop : p.op = some ['=']) (hval : p.val = none) :
    p.take filter p.text = .ok { p with
      val := some t, test := p.test ++ [.test ['n', 'a', 'm', 'e'] ['='] t] } := by
  have hquote : q = '\'' ∨ q = '"' := by simpa [isQuote] using hq
  have hone : ∀ c : Char, q :: (t ++ [q]) ≠ [c] := by simp
  rw [htoken, Parser.take, if_neg (by simp), if_neg (hone _), if_neg (hone _)]
  simp only [hkey, hop, hval]
  rw [if_neg (by rintro (h | h) <;> exact hone _ h), if_pos (by decide), unquote_quoted hq]

/-- **A quoted name** is one test. -/
theorem parse_name (jdk : Jdk) {q : Char} (hq : isQuote q = true) {t : Text}
    (ht : ∀ c ∈ t, c ≠ q ∧ c ≠ '\\') :
    parse jdk (['n', 'a', 'm', 'e', '='] ++ q :: (t ++ [q])) =
      .ok (some [.test ['n', 'a', 'm', 'e'] ['='] t]) := by
  have hquote : q = '\'' ∨ q = '"' := by simpa [isQuote] using hq
  have hback : q ≠ '\\' := by rcases hquote with rfl | rfl <;> decide
  have hspace : q ≠ ' ' ∧ ¬ q ≤ ' ' := by rcases hquote with rfl | rfl <;> decide
  set filter : Text := ['n', 'a', 'm', 'e', '='] ++ q :: (t ++ [q]) with hfilter
  have htrim : trim filter = filter := by
    have h := trim_eq (c := 'n') (d := q) (by decide) hspace.2 (['a', 'm', 'e', '='] ++ q :: t)
    simpa [hfilter] using h
  obtain ⟨lastc, hscan⟩ := scan_quoted jdk filter t [q]
    (p := { token := [q], lastc := q, quotechar := some q, key := some ['n', 'a', 'm', 'e'],
            op := some ['='] }) rfl ht
  have hend : scan jdk filter {} filter = .ok
      { token := q :: (t.reverse ++ [q]), lastc := q, key := some ['n', 'a', 'm', 'e'],
        op := some ['='], val := some t,
        test := [.test ['n', 'a', 'm', 'e'] ['='] t] } := by
    nth_rewrite 2 [hfilter]
    rw [scan_key, scan_operator jdk filter _ hq, hscan, scan_close hback rfl, scan_end rfl,
      take_value filter hq (t := t) (by simp [Parser.text, hspace.1]) rfl rfl rfl]
    rfl
  have hstar : filter ≠ ['*'] := by simp [hfilter]
  simp only [parse, htrim, if_neg hstar, hend]
  rfl

/-! ### A platform for sample runs -/

theorem isAlpha_val {c : Char} (h : c.isAlpha = true) :
    65 ≤ c.toNat ∧ c.toNat ≤ 90 ∨ 97 ≤ c.toNat ∧ c.toNat ≤ 122 := by
  rcases Bool.or_eq_true_iff.mp h with h | h
  · exact .inl (of_decide_eq_true (p := c.val ≥ 'A'.val ∧ c.val ≤ 'Z'.val) h)
  · obtain ⟨hlow, hhigh⟩ := Bool.and_eq_true_iff.mp h
    exact .inr ⟨of_decide_eq_true hlow, of_decide_eq_true hhigh⟩

theorem isDigit_val {c : Char} (h : c.isDigit = true) : 48 ≤ c.toNat ∧ c.toNat ≤ 57 := by
  obtain ⟨hlow, hhigh⟩ := Bool.and_eq_true_iff.mp h
  exact ⟨of_decide_eq_true hlow, of_decide_eq_true hhigh⟩

/-- ASCII texts; no regular expressions, no classes, every host is found. -/
def ascii : Jdk where
  isLetterOrDigit := Char.isAlphanum
  isDigit := Char.isDigit
  compareFloat _ _ := none
  floatText t := t
  parseInt t := (String.ofList t).toInt?
  compareTo s t := if s = t then .eq else if s < t then .lt else .gt
  matchesRegex _ _ := none
  className := []
  forName _ := none
  parseLong t :=
    if t = [] ∨ t.any (fun c => !"0123456789abcdefABCDEF".toList.contains c) then none
    else
      some (t.foldl (fun n c => 16 * n + (if c.isDigit then c.toNat - 48 else c.toLower.toNat - 87)) 0)
  hashCode t := t.foldl (fun h c => 31 * h + BitVec.ofNat 32 c.toNat) 0
  resolves _ := true
  order l := l
  letter c hc := by
    refine ⟨Bool.or_eq_true_iff.mpr (.inl hc), Bool.eq_false_iff.mpr fun hdigit => ?_⟩
    have hdigit := isDigit_val hdigit
    have halpha := isAlpha_val hc
    omega
  order_perm l := .refl l

end Waveplay.Discovery.Matcher
