import Mathlib.Algebra.GroupWithZero.Nat
import Waveplay.Properties.Line

/-! # Writing a property and reading it back

`toString` does not escape a backslash, and an apostrophe is read as a quote unless the text is in quotes.
A value after `:=` has to have a character, since the reader looks for three more characters after the
colon.

* `RoundTrips`: the line is read back as it was written.
* `roundTrips_iff`: it is exactly if key and value have no backslash, have an apostrophe only where they are
  put in quotes, and the value is not empty for a property that is read only.

That nothing else can help is shown by weighing texts: what is read never weighs more, when written again,
than what it was read from, and it weighs less if it has a backslash or if an apostrophe was taken for a
quote (`weigh_read`). -/

namespace Waveplay.Properties.RoundTrip

open Waveplay.Properties.Line

/-- The line of a property without a comment gives the property back. -/
def RoundTrips (ch : Characters) (key value : Text) (readonly : Bool) : Prop :=
  ∃ text p, toText ch { key := some key, value := some value, readonly } = some text ∧
    ofText ch text = some p ∧ p.key = some key ∧ p.value = some value ∧ p.readonly = readonly

/-! ### Weights -/

def weight (c : UInt16) : ℕ :=
  if c = BACKSLASH then 1 else if c = unit 'u' ∨ c = unit 't' ∨ c = APOSTROPHE then 3 else 0

/-- The weight of a text that is read. -/
def weigh (s : Text) : ℕ := (s.map weight).sum

/-- The weight of a character once it is written. -/
def cost (c : UInt16) : ℕ := weigh (escaped c)

def costs (s : Text) : ℕ := (s.map cost).sum

/-- The quotes without a backslash before them; `after` says whether there is one before the text. -/
def bares : Bool → Text → ℕ
  | _, [] => 0
  | after, c :: s => (if c = QUOTE ∧ after = false then 1 else 0) + bares (c = BACKSLASH) s

/-- The characters that are written as they are, or are part of an escape. -/
def Printable (s : Text) : Prop := ∀ c ∈ s, ¬ (c < 0x20 ∨ 0x80 ≤ c)

instance (s : Text) : Decidable (Printable s) := List.decidableBAll _ s

@[simp] theorem weigh_nil : weigh [] = 0 := rfl

@[simp] theorem weigh_cons (c : UInt16) (s : Text) : weigh (c :: s) = weight c + weigh s := by
  rw [weigh, List.map_cons, List.sum_cons]
  rfl

@[simp] theorem weigh_append (s t : Text) : weigh (s ++ t) = weigh s + weigh t := by
  rw [weigh, List.map_append, List.sum_append]
  rfl

@[simp] theorem costs_cons (c : UInt16) (s : Text) : costs (c :: s) = cost c + costs s := by
  rw [costs, List.map_cons, List.sum_cons]
  rfl

theorem costs_append (s t : Text) : costs (s ++ t) = costs s + costs t := by
  rw [costs, List.map_append, List.sum_append]
  rfl

theorem weight_hexDigit : ∀ n < 16, weight (hexDigit n) = 0 := by decide

theorem cost_control {c : UInt16} (hlf : c ≠ LF) (hcr : c ≠ CR) (hquote : c ≠ QUOTE)
    (hc : c < 0x20 ∨ 0x80 ≤ c) : cost c = 4 := by
  have hlt : c.toNat < 65536 := c.toNat_lt
  have h₁ := weight_hexDigit (c.toNat / 4096) (by omega)
  have h₂ := weight_hexDigit (c.toNat / 256 % 16) (by omega)
  have h₃ := weight_hexDigit (c.toNat / 16 % 16) (by omega)
  have h₄ := weight_hexDigit (c.toNat % 16) (by omega)
  rw [cost, escaped, if_neg hlf, if_neg hcr, if_neg hquote, if_pos hc]
  simp only [weigh_cons, h₁, h₂, h₃, h₄]
  rfl

theorem cost_le (c : UInt16) : cost c ≤ 4 := by
  by_cases hlf : c = LF
  · subst hlf; decide
  by_cases hcr : c = CR
  · subst hcr; decide
  by_cases hquote : c = QUOTE
  · subst hquote; decide
  by_cases hc : c < 0x20 ∨ 0x80 ≤ c
  · exact Nat.le_of_eq (cost_control hlf hcr hquote hc)
  · rw [cost, escaped, if_neg hlf, if_neg hcr, if_neg hquote, if_neg hc, weigh_cons, weight, weigh_nil]
    split_ifs <;> omega

theorem cost_plain {c : UInt16} (hc : ¬ (c < 0x20 ∨ 0x80 ≤ c)) (hquote : c ≠ QUOTE) :
    cost c = weight c := by
  have hlf : c ≠ LF := by rintro rfl; exact hc (by decide)
  have hcr : c ≠ CR := by rintro rfl; exact hc (by decide)
  rw [cost, escaped, if_neg hlf, if_neg hcr, if_neg hquote, if_neg hc, weigh_cons, weigh_nil, Nat.add_zero]

theorem weigh_flatMap : ∀ s : Text, weigh (s.flatMap escaped) = costs s
  | [] => rfl
  | c :: s => by rw [List.flatMap_cons, weigh_append, weigh_flatMap s, costs_cons, cost]

theorem weigh_quote (ch : Characters) (s : Text) : weigh (quote ch s) = costs s := by
  have hquote : weight QUOTE = 0 := by decide
  rw [quote]
  split_ifs
  · rw [weigh_cons, weigh_append, weigh_cons, weigh_flatMap, hquote, weigh_nil]
    omega
  · exact weigh_flatMap s

/-! ### Quotes -/

theorem bares_le (after : Bool) : ∀ s : Text, bares after s ≤ bares false s
  | [] => Nat.le_refl 0
  | c :: s => by
    rw [bares, bares]
    split_ifs with h₁ h₂ h₂
    · omega
    · exact absurd ⟨h₁.1, rfl⟩ h₂
    · omega
    · omega

theorem bares_append : ∀ {pre : Text} (after : Bool) (rest : Text), pre ≠ [] →
    bares (pre.getLast? = some BACKSLASH) rest ≤ bares after (pre ++ rest)
  | [c], after, rest, _ => by
    rw [List.singleton_append, bares]
    simp
  | c :: d :: pre, after, rest, _ => by
    have ih := @bares_append (d :: pre) (c = BACKSLASH) rest (by simp)
    rw [List.getLast?_cons_cons, List.cons_append, bares]
    omega

theorem bares_suffix {pre : Text} (rest : Text) (hne : pre ≠ [])
    (hlast : pre.getLast? ≠ some BACKSLASH) : bares false rest ≤ bares false (pre ++ rest) := by
  have hle := bares_append false rest hne
  rwa [decide_eq_false hlast] at hle

theorem bares_of_notMem (t : Text) : ∀ {w : Text} (after : Bool), QUOTE ∉ w →
    bares after (w ++ t) ≤ bares false t
  | [], after, _ => bares_le after t
  | c :: w, after, h => by
    have hc : c ≠ QUOTE := fun hc => h (hc ▸ List.mem_cons_self)
    have ih := bares_of_notMem t (decide (c = BACKSLASH)) fun hw => h (List.mem_cons_of_mem c hw)
    rw [List.cons_append, bares, if_neg fun hq => hc hq.1]
    omega

theorem hexDigit_printable : ∀ n < 16, hexDigit n ≠ QUOTE ∧ ¬ (hexDigit n < 0x20 ∨ 0x80 ≤ hexDigit n) := by
  decide

/-- The text of a character is printable, and its quotes have a backslash before them. -/
theorem escaped_spec (c : UInt16) :
    Printable (escaped c) ∧ ∀ after t, bares after (escaped c ++ t) ≤ bares false t := by
  by_cases hlf : c = LF
  · subst hlf
    exact ⟨by decide, fun after t => bares_of_notMem t after (by decide)⟩
  by_cases hcr : c = CR
  · subst hcr
    exact ⟨by decide, fun after t => bares_of_notMem t after (by decide)⟩
  by_cases hquote : c = QUOTE
  · subst hquote
    refine ⟨by decide, fun after t => ?_⟩
    show bares after (BACKSLASH :: QUOTE :: t) ≤ bares false t
    rw [bares, bares]
    simp [BACKSLASH, QUOTE]
  by_cases hc : c < 0x20 ∨ 0x80 ≤ c
  · have hlt : c.toNat < 65536 := c.toNat_lt
    have h₁ := hexDigit_printable (c.toNat / 4096) (by omega)
    have h₂ := hexDigit_printable (c.toNat / 256 % 16) (by omega)
    have h₃ := hexDigit_printable (c.toNat / 16 % 16) (by omega)
    have h₄ := hexDigit_printable (c.toNat % 16) (by omega)
    have hback : BACKSLASH ≠ QUOTE ∧ ¬ (BACKSLASH < 0x20 ∨ 0x80 ≤ BACKSLASH) := by decide
    have hu : unit 'u' ≠ QUOTE ∧ ¬ (unit 'u' < 0x20 ∨ 0x80 ≤ unit 'u') := by decide
    rw [escaped, if_neg hlf, if_neg hcr, if_neg hquote, if_pos hc]
    refine ⟨?_, fun after t => bares_of_notMem t after ?_⟩
    · simp only [Printable, List.forall_mem_cons]
      exact ⟨hback.2, hu.2, h₁.2, h₂.2, h₃.2, h₄.2, by simp⟩
    · simp only [List.mem_cons, List.not_mem_nil, or_false, not_or]
      exact ⟨hback.1.symm, hu.1.symm, h₁.1.symm, h₂.1.symm, h₃.1.symm, h₄.1.symm⟩
  · rw [escaped, if_neg hlf, if_neg hcr, if_neg hquote, if_neg hc]
    refine ⟨?_, fun after t => bares_of_notMem t after ?_⟩
    · simpa [Printable] using hc
    · simpa using Ne.symm hquote

theorem Printable.append {s t : Text} (hs : Printable s) (ht : Printable t) : Printable (s ++ t) :=
  fun c hc => (List.mem_append.mp hc).elim (hs c) (ht c)

theorem flatMap_printable (s : Text) : Printable (s.flatMap escaped) := by
  intro c hc
  obtain ⟨d, -, hd⟩ := List.mem_flatMap.mp hc
  exact (escaped_spec d).1 c hd

theorem bares_flatMap (t : Text) : ∀ (s : Text) (after : Bool),
    bares after (s.flatMap escaped ++ t) ≤ bares false t
  | [], after => bares_le after t
  | c :: s, after => by
    rw [List.flatMap_cons, List.append_assoc]
    exact Nat.le_trans ((escaped_spec c).2 after _) (bares_flatMap t s false)

theorem quote_printable (ch : Characters) (s : Text) : Printable (quote ch s) := by
  have hquote : Printable [QUOTE] := by decide
  rw [quote]
  split_ifs
  · exact hquote.append ((flatMap_printable s).append hquote)
  · exact flatMap_printable s

/-- A text that is written has the two quotes around it at most. -/
theorem bares_quote (ch : Characters) (s t : Text) : bares false (quote ch s ++ t) ≤ 2 + bares false t := by
  have hcons : ∀ u, bares false (QUOTE :: u) = 1 + bares false u := fun u => by
    rw [bares]
    simp [QUOTE, BACKSLASH]
  rw [quote]
  split_ifs
  · have hle := bares_flatMap ([QUOTE] ++ t) s false
    rw [List.singleton_append, hcons] at hle
    rw [List.cons_append, hcons, List.append_assoc, List.singleton_append]
    omega
  · have hle := bares_flatMap t s false
    omega

/-! ### Reading -/

section

variable {ch : Characters}

/-- What a backslash takes with it from a text, and how the weights change. -/
structure Escaped (s : Text) (o : UInt16) (rest : Text) (pre : Text) : Prop where
  split : s = pre ++ rest
  ne_nil : pre ≠ []
  weight : cost o + weigh rest + (if pre.getLast? = some BACKSLASH then 1 else 0) ≤ weigh s + 1
  lighter : o = BACKSLASH → cost o + weigh rest < weigh s + 1

theorem escaped_self {d : UInt16} (hd : ¬ (d < 0x20 ∨ 0x80 ≤ d)) (s : Text) :
    Escaped (d :: s) d s [d] := by
  have hcost : cost d ≤ weight d + 1 := by
    by_cases hquote : d = QUOTE
    · subst hquote; decide
    · rw [cost_plain hd hquote]
      omega
  have hback : d = BACKSLASH → cost d = 1 ∧ weight d = 1 := by
    rintro rfl
    decide
  refine ⟨rfl, by simp, ?_, fun h => ?_⟩
  · rw [weigh_cons, List.getLast?_singleton]
    split_ifs with hlast
    · obtain ⟨h₁, h₂⟩ := hback (Option.some.inj hlast)
      omega
    · omega
  · obtain ⟨h₁, h₂⟩ := hback h
    rw [weigh_cons]
    omega

theorem escaped_unicode (u₁ u₂ u₃ u₄ o : UInt16) (rest : Text) :
    Escaped (unit 'u' :: u₁ :: u₂ :: u₃ :: u₄ :: rest) o rest [unit 'u', u₁, u₂, u₃, u₄] := by
  have hu : weight (unit 'u') = 3 := by decide
  have hcost := cost_le o
  refine ⟨rfl, by simp, ?_, ?_⟩
  · have hlast : [unit 'u', u₁, u₂, u₃, u₄].getLast? = some u₄ := rfl
    simp only [weigh_cons, hu, hlast]
    split_ifs with hb
    · have hweight : weight u₄ = 1 := by
        rw [Option.some.inj hb]
        decide
      omega
    · omega
  · rintro rfl
    have hback : cost BACKSLASH = 1 := by decide
    simp only [weigh_cons, hu, hback]
    omega

theorem escape_weight {s : Text} (hs : Printable s) {o : UInt16} {rest : Text}
    (h : escape ch s = some (o, rest)) : ∃ pre, Escaped s o rest pre := by
  cases s with
  | nil => cases h
  | cons d s =>
    have hself : some (d, s) = some (o, rest) → ∃ pre, Escaped (d :: s) o rest pre := by
      intro heq
      obtain ⟨rfl, rfl⟩ := Prod.mk.inj (Option.some.inj heq)
      exact ⟨[d], escaped_self (hs d List.mem_cons_self) s⟩
    have hsimple : ∀ {c : UInt16}, d ≠ BACKSLASH → c ≠ BACKSLASH → cost c ≤ weight d + 1 →
        some (c, s) = some (o, rest) → ∃ pre, Escaped (d :: s) o rest pre := by
      rintro c hd hc hcost heq
      obtain ⟨rfl, rfl⟩ := Prod.mk.inj (Option.some.inj heq)
      refine ⟨[d], rfl, by simp, ?_, fun hb => absurd hb hc⟩
      rw [weigh_cons, List.getLast?_singleton, if_neg fun hb => hd (Option.some.inj hb)]
      omega
    rw [escape.eq_def] at h
    simp only at h
    split_ifs at h with hn hr ht hu
    · exact hsimple (by subst hn; decide) (by decide) (by subst hn; decide) h
    · exact hsimple (by subst hr; decide) (by decide) (by subst hr; decide) h
    · exact hsimple (by subst ht; decide) (by decide) (by subst ht; decide) h
    · rcases s with _ | ⟨u₁, _ | ⟨u₂, _ | ⟨u₃, _ | ⟨u₄, rest'⟩⟩⟩⟩
      · exact hself h
      · exact hself h
      · exact hself h
      · exact hself h
      simp only at h
      cases hparse : parseInt ch [u₁, u₂, u₃, u₄] with
      | none =>
        rw [hparse] at h
        exact hself h
      | some n =>
        rw [hparse] at h
        obtain ⟨rfl, rfl⟩ := Prod.mk.inj (Option.some.inj h)
        subst hu
        exact ⟨_, escaped_unicode u₁ u₂ u₃ u₄ (toChar n) rest'⟩
    · exact hself h

/-- What reading a text leaves, with the quote that is open at the start: the rest comes from the text,
and what was read does not weigh more than what it was read from. Inside apostrophes it may, by the quotes
that it read, but the closing apostrophe is lost. -/
structure Weighed (quote : Option UInt16) (after : Bool) (s out rest : Text) : Prop where
  split : ∃ pre, s = pre ++ rest
  inside : quote = some APOSTROPHE →
    costs out + weigh rest + 3 ≤ weigh s + (if after then 1 else 0) + bares after s
  outside : quote ≠ some APOSTROPHE → costs out + weigh rest ≤ weigh s
  lighter : quote ≠ some APOSTROPHE → BACKSLASH ∈ out → costs out + weigh rest < weigh s

section

variable {quote : Option UInt16} {after : Bool} {c : UInt16} {s out rest : Text}

theorem bares_cons (hc : c ≠ BACKSLASH) (after : Bool) (s : Text) :
    bares after (c :: s) = (if c = QUOTE ∧ after = false then 1 else 0) + bares false s := by
  rw [bares, decide_eq_false hc]

theorem Weighed.cons_split (h : ∃ pre, s = pre ++ rest) (c : UInt16) : ∃ pre, c :: s = pre ++ rest := by
  obtain ⟨pre, rfl⟩ := h
  exact ⟨c :: pre, rfl⟩

theorem Weighed.escape {o : UInt16} {pre r : Text} (he : Escaped s o r pre)
    (h : Weighed quote (pre.getLast? = some BACKSLASH) r out rest) (after : Bool) :
    Weighed quote after (BACKSLASH :: s) (o :: out) rest := by
  have hback : weight BACKSLASH = 1 := by decide
  have hbares : bares (pre.getLast? = some BACKSLASH) r ≤ bares after (BACKSLASH :: s) := by
    have hle := bares_append (decide (BACKSLASH = BACKSLASH)) r he.ne_nil
    rw [← he.split] at hle
    rw [bares]
    omega
  have hweight := he.weight
  refine ⟨?_, fun hq => ?_, fun hq => ?_, fun hq hmem => ?_⟩
  · obtain ⟨pre', hr⟩ := h.split
    exact ⟨BACKSLASH :: (pre ++ pre'), by rw [he.split, hr]; simp⟩
  · have hin := h.inside hq
    simp only [decide_eq_true_eq] at hin
    rw [costs_cons, weigh_cons, hback]
    omega
  · have hout := h.outside hq
    rw [costs_cons, weigh_cons, hback]
    split_ifs at hweight <;> omega
  · have hout := h.outside hq
    rw [costs_cons, weigh_cons, hback]
    rcases List.mem_cons.mp hmem with ho | hmem
    · have hlighter := he.lighter ho.symm
      omega
    · have hlighter := h.lighter hq hmem
      split_ifs at hweight <;> omega

/-- An apostrophe opens: both it and its closing one are lost, which outweighs the quotes between. -/
theorem Weighed.opens (h : Weighed (some APOSTROPHE) false s out rest) (after : Bool)
    (hbares : bares after (APOSTROPHE :: s) ≤ 4) : costs out + weigh rest + 2 ≤ weigh (APOSTROPHE :: s) ∧
      Weighed none after (APOSTROPHE :: s) out rest := by
  have hin := h.inside rfl
  have hweight : weight APOSTROPHE = 3 := by decide
  rw [bares_cons (by decide)] at hbares
  have hlost : costs out + weigh rest + 2 ≤ weigh (APOSTROPHE :: s) := by
    rw [weigh_cons, hweight]
    simp only [Bool.false_eq_true, if_false] at hin
    omega
  refine ⟨hlost, Weighed.cons_split h.split _, fun hq => ?_, fun _ => ?_, fun _ _ => ?_⟩
  · cases hq
  · omega
  · omega

theorem Weighed.closes (h : Weighed none false s out rest) (after : Bool) :
    Weighed (some APOSTROPHE) after (APOSTROPHE :: s) out rest := by
  have hout := h.outside (by simp)
  have hweight : weight APOSTROPHE = 3 := by decide
  refine ⟨Weighed.cons_split h.split _, fun _ => ?_, fun hq => absurd rfl hq, fun hq => absurd rfl hq⟩
  rw [weigh_cons, hweight]
  omega

theorem Weighed.toggle {quote' : Option UInt16} (h : Weighed quote' false s out rest)
    (hq' : quote' ≠ some APOSTROPHE) (hq : quote ≠ some APOSTROPHE) (after : Bool) :
    Weighed quote after (QUOTE :: s) out rest := by
  have hweight : weigh (QUOTE :: s) = weigh s := by
    rw [weigh_cons]
    exact Nat.zero_add _
  refine ⟨Weighed.cons_split h.split _, fun hc => absurd hc hq, fun _ => ?_, fun _ hmem => ?_⟩
  · rw [hweight]
    exact h.outside hq'
  · rw [hweight]
    exact h.lighter hq' hmem

/-- A character that stands for itself; a quote does so inside apostrophes only. -/
theorem Weighed.plain (h : Weighed quote false s out rest) (hc : ¬ (c < 0x20 ∨ 0x80 ≤ c))
    (hback : c ≠ BACKSLASH) (hquote : c = QUOTE → quote = some APOSTROPHE) (after : Bool) :
    Weighed quote after (c :: s) (c :: out) rest := by
  have hbares := bares_cons hback after s
  refine ⟨Weighed.cons_split h.split _, fun hq => ?_, fun hq => ?_, fun hq hmem => ?_⟩
  · have hin := h.inside hq
    simp only [Bool.false_eq_true, if_false] at hin
    rw [costs_cons, weigh_cons, hbares]
    by_cases hcq : c = QUOTE
    · have hcost : cost c = 1 ∧ weight c = 0 := by
        subst hcq
        decide
      cases after with
      | true =>
        simp only [if_true]
        omega
      | false =>
        simp only [hcq, and_self, if_true]
        rw [hcq] at hcost
        omega
    · rw [cost_plain hc hcq]
      omega
  · have hout := h.outside hq
    rw [costs_cons, weigh_cons, cost_plain hc fun hcq => hq (hquote hcq)]
    omega
  · have hmem : BACKSLASH ∈ out := by
      rcases List.mem_cons.mp hmem with hb | hmem
      · exact absurd hb.symm hback
      · exact hmem
    have hlighter := h.lighter hq hmem
    rw [costs_cons, weigh_cons, cost_plain hc fun hcq => hq (hquote hcq)]
    omega

end

theorem push_eq_some {c : UInt16} {r : Option (Text × Text)} {out rest : Text}
    (h : push c r = some (out, rest)) : ∃ out', r = some (out', rest) ∧ out = c :: out' := by
  obtain ⟨⟨out', rest'⟩, hr, heq⟩ := Option.map_eq_some_iff.mp h
  obtain ⟨rfl, rfl⟩ := Prod.mk.inj heq
  exact ⟨out', hr, rfl⟩

/-- **What is read is not heavier.** -/
theorem weigh_read (s : Text) : ∀ {quote : Option UInt16} {after : Bool} {out rest : Text},
    (quote = none ∨ quote = some APOSTROPHE ∨ quote = some QUOTE) → Printable s → bares after s ≤ 4 →
    readQuotedString ch quote s = some (out, rest) → Weighed quote after s out rest := by
  intro quote after out rest hquote hs hbares h
  match s with
  | [] =>
    rw [readQuotedString] at h
    split_ifs at h with hnone
    obtain ⟨rfl, rfl⟩ := Prod.mk.inj (Option.some.inj h)
    have hne : quote ≠ some APOSTROPHE := by
      rintro rfl
      cases hnone
    exact ⟨⟨[], rfl⟩, fun hq => absurd hq hne, fun _ => Nat.le_refl 0, fun _ hb => by simp at hb⟩
  | c :: s =>
    have hc := hs c List.mem_cons_self
    have hs' : Printable s := fun d hd => hs d (List.mem_cons_of_mem c hd)
    by_cases hback : c = BACKSLASH
    · -- an escape
      subst hback
      rw [readQuotedString_escape, Option.bind_eq_some_iff] at h
      obtain ⟨⟨o, r⟩, hescape, hpush⟩ := h
      obtain ⟨out, hread, rfl⟩ := push_eq_some hpush
      obtain ⟨pre, he⟩ := escape_weight hs' hescape
      have hlength : r.length ≤ s.length := by rw [he.split, List.length_append]; omega
      have hr : Printable r := fun d hd => hs' d (by rw [he.split]; exact List.mem_append_right pre hd)
      have hbares' : bares (pre.getLast? = some BACKSLASH) r ≤ 4 := by
        have hle := bares_append (decide (BACKSLASH = BACKSLASH)) r he.ne_nil
        rw [← he.split] at hle
        rw [bares] at hbares
        omega
      exact (weigh_read r hquote hr hbares' hread).escape he after
    have hbares' : bares false s ≤ 4 := by
      rw [bares_cons hback] at hbares
      omega
    by_cases htoggle : (c = APOSTROPHE ∨ c = QUOTE) ∧ (quote = none ∨ quote = some c)
    · rw [readQuotedString_toggle htoggle.1 htoggle.2] at h
      rcases htoggle with ⟨rfl | rfl, rfl | rfl⟩
      · exact ((weigh_read s (.inr (.inl rfl)) hs' hbares' h).opens after hbares).2
      · exact (weigh_read s (.inl rfl) hs' hbares' h).closes after
      · exact (weigh_read s (.inr (.inr rfl)) hs' hbares' h).toggle (by decide) (by simp) after
      · exact (weigh_read s (.inl rfl) hs' hbares' h).toggle (by simp) (by decide) after
    cases hpart : isIdentifierPart ch c || quote.isSome with
    | true =>
      rw [readQuotedString_plain (Bool.or_eq_true_iff.mp hpart) hback htoggle] at h
      obtain ⟨out, hread, rfl⟩ := push_eq_some h
      refine (weigh_read s hquote hs' hbares' hread).plain hc hback (fun hcq => ?_) after
      rcases hquote with hq | hq | hq
      · exact absurd ⟨.inr hcq, .inl hq⟩ htoggle
      · exact hq
      · exact absurd ⟨.inr hcq, .inr (hcq ▸ hq)⟩ htoggle
    | false =>
      obtain ⟨hpart', hnone⟩ := Bool.or_eq_false_iff.mp hpart
      obtain rfl : quote = none := by simpa using hnone
      rw [readQuotedString_stop hpart'] at h
      obtain ⟨rfl, rfl⟩ := Prod.mk.inj (Option.some.inj h)
      refine ⟨⟨[], rfl⟩, fun hq => ?_, fun _ => Nat.le_of_eq (Nat.zero_add _), fun _ hb => ?_⟩
      · cases hq
      · simp at hb
termination_by s.length

/-- **An apostrophe that is taken for a quote** makes what is read lighter. -/
theorem apostrophe_lost {s t out rest : Text} (hneeds : needsquote ch s = false)
    (hback : BACKSLASH ∉ s) (hmem : APOSTROPHE ∈ s) (hprint : Printable (quote ch s ++ t))
    (hbares : bares false (quote ch s ++ t) ≤ 4)
    (h : readQuotedString ch none (quote ch s ++ t) = some (out, rest)) :
    costs out + weigh rest < weigh (quote ch s ++ t) := by
  have hpart : ∀ c ∈ s, isIdentifierPart ch c = true := by simpa [needsquote] using hneeds
  have hquote : quote ch s = s.flatMap escaped := by rw [quote, hneeds]; rfl
  obtain ⟨w, u, rfl, hw⟩ := List.eq_append_cons_of_mem hmem
  have htext : quote ch (w ++ APOSTROPHE :: u) ++ t =
      w.flatMap escaped ++ APOSTROPHE :: (u.flatMap escaped ++ t) := by
    rw [hquote, List.flatMap_append, List.flatMap_cons, List.append_assoc]
    rfl
  rw [htext] at h hprint hbares ⊢
  have hplain : ∀ c ∈ w, c ≠ BACKSLASH ∧ (none = some QUOTE ∨
      (none : Option UInt16) = none ∧ isIdentifierPart ch c = true ∧ c ≠ APOSTROPHE) := by
    intro c hc
    refine ⟨?_, .inr ⟨rfl, hpart c (List.mem_append_left _ hc), ?_⟩⟩
    · rintro rfl
      exact hback (List.mem_append_left _ hc)
    · rintro rfl
      exact hw hc
  rw [readQuotedString_flatMap hplain, readQuotedString_toggle (.inl rfl) (.inl rfl)] at h
  obtain ⟨⟨out', rest'⟩, hread, heq⟩ := Option.map_eq_some_iff.mp h
  obtain ⟨rfl, rfl⟩ := Prod.mk.inj heq
  have hsplit : w.flatMap escaped ++ APOSTROPHE :: (u.flatMap escaped ++ t) =
      (w.flatMap escaped ++ [APOSTROPHE]) ++ (u.flatMap escaped ++ t) := by simp
  have hbares' : bares false (u.flatMap escaped ++ t) ≤ 4 := by
    rw [hsplit] at hbares
    exact Nat.le_trans (bares_suffix _ (by simp) (by simp [APOSTROPHE, BACKSLASH])) hbares
  have hprint' : Printable (u.flatMap escaped ++ t) := by
    intro c hc
    refine hprint c ?_
    rw [hsplit]
    exact List.mem_append_right _ hc
  have hweighed := weigh_read _ (.inr (.inl rfl)) hprint' hbares' hread
  have hapostrophe : bares false (u.flatMap escaped ++ t) =
      bares false (APOSTROPHE :: (u.flatMap escaped ++ t)) := by
    rw [bares_cons (by decide)]
    exact (Nat.zero_add _).symm
  have hopens := (hweighed.opens false (hapostrophe ▸ hbares')).1
  rw [weigh_append, weigh_flatMap, costs_append]
  omega

/-! ### A line -/

theorem weigh_suffix {s t : Text} (h : s <:+ t) : weigh s ≤ weigh t := by
  obtain ⟨pre, rfl⟩ := h
  rw [weigh_append]
  omega

theorem weigh_read_suffix {line s out rest : Text} (hprint : Printable line) (hbares : bares false line ≤ 4)
    (hs : s <:+ line) (h : readQuotedString ch none s = some (out, rest)) :
    rest <:+ s ∧ costs out + weigh rest ≤ weigh s ∧ (BACKSLASH ∈ out → costs out + weigh rest < weigh s) := by
  obtain ⟨pre, rfl⟩ := hs
  have hprint' : Printable s := fun c hc => hprint c (List.mem_append_right pre hc)
  have hbares' : ∃ after, bares after s ≤ 4 := by
    by_cases hpre : pre = []
    · subst hpre
      exact ⟨false, hbares⟩
    · exact ⟨_, Nat.le_trans (bares_append false s hpre) hbares⟩
  obtain ⟨after, hafter⟩ := hbares'
  have hweighed := weigh_read s (.inl rfl) hprint' hafter h
  refine ⟨?_, hweighed.outside (by simp), hweighed.lighter (by simp)⟩
  obtain ⟨pre', heq⟩ := hweighed.split
  exact ⟨pre', heq.symm⟩

theorem readSpaces_suffix (s : Text) : readSpaces s <:+ s := List.dropWhile_suffix _

theorem readSeparator_suffix {s rest : Text} {readonly : Bool}
    (h : readSeparator s = some (readonly, rest)) : rest <:+ s := by
  cases s with
  | nil => cases h
  | cons c s =>
    rw [readSeparator] at h
    split_ifs at h
    · obtain ⟨-, rfl⟩ := Prod.mk.inj (Option.some.inj h)
      exact List.suffix_cons c s
    · obtain ⟨-, rfl⟩ := Prod.mk.inj (Option.some.inj h)
      exact (List.tail_suffix s).trans (List.suffix_cons c s)

theorem readSpaces_quote {s : Text} (hs : s ≠ []) (t : Text) :
    readSpaces (quote ch s ++ t) = quote ch s ++ t := by
  have hhead : ∀ (c : UInt16) (u : Text), c ≠ SPACE → c ≠ TAB → readSpaces (c :: u) = c :: u := by
    intro c u hspace htab
    rw [readSpaces, List.dropWhile_cons_of_neg]
    simp [hspace, htab]
  rw [quote]
  split_ifs with hneeds
  · exact hhead QUOTE _ (by decide) (by decide)
  · obtain ⟨c, s, rfl⟩ := List.exists_cons_of_ne_nil hs
    have hpart : isIdentifierPart ch c = true := by
      simp only [needsquote, List.any_cons, Bool.not_eq_true, Bool.or_eq_false_iff] at hneeds
      simpa using hneeds.1
    rw [List.flatMap_cons, List.append_assoc, escaped]
    split_ifs with h₁ h₂ h₃ hcontrol
    · exact hhead BACKSLASH _ (by decide) (by decide)
    · exact hhead BACKSLASH _ (by decide) (by decide)
    · exact hhead BACKSLASH _ (by decide) (by decide)
    · exact hhead BACKSLASH _ (by decide) (by decide)
    · refine hhead c _ ?_ ?_
      · rintro rfl
        rw [isIdentifierPart_space] at hpart
        cases hpart
      · rintro rfl
        exact hcontrol (by decide)

theorem quote_eq_nil {s : Text} : quote ch s = [] ↔ s = [] := by
  constructor
  · intro h
    by_contra hs
    have hread := @readSpaces_quote ch s hs [SPACE]
    rw [h] at hread
    revert hread
    decide
  · rintro rfl
    rfl

/-- The line of a property without a comment. -/
def line (ch : Characters) (key value : Text) (readonly : Bool) : Text :=
  quote ch key ++ (separator readonly ++ quote ch value)

theorem line_spec (ch : Characters) (key value : Text) (readonly : Bool) :
    Printable (line ch key value readonly) ∧ bares false (line ch key value readonly) ≤ 4 ∧
      weigh (line ch key value readonly) = costs key + costs value := by
  have hprint : Printable (separator readonly) := by cases readonly <;> decide
  have hmem : QUOTE ∉ separator readonly := by cases readonly <;> decide
  have hweigh : weigh (separator readonly) = 0 := by cases readonly <;> decide
  refine ⟨(quote_printable ch key).append (hprint.append (quote_printable ch value)), ?_, ?_⟩
  · have hkey := bares_quote ch key (separator readonly ++ quote ch value)
    have hseparator := bares_of_notMem (quote ch value) false hmem
    have hvalue := bares_quote ch value []
    rw [List.append_nil] at hvalue
    have hnil : bares false [] = 0 := rfl
    rw [line]
    omega
  · rw [line, weigh_append, weigh_append, weigh_quote, weigh_quote, hweigh]
    omega

theorem toText_line (ch : Characters) (key value : Text) (readonly : Bool) :
    toText ch { key := some key, value := some value, readonly } = some (line ch key value readonly) := by
  simp [toText, line]

theorem ofText_eq_some {s key value : Text} {p : Property} (h : ofText ch s = some p)
    (hkey : p.key = some key) (hvalue : p.value = some value) :
    ∃ s₁ s₂ s₃, readQuotedString ch none (readSpaces s) = some (key, s₁) ∧
      readSeparator (readSpaces s₁) = some (p.readonly, s₂) ∧
      readQuotedString ch none (readSpaces s₂) = some (value, s₃) := by
  rw [ofText, Option.bind_eq_bind, Option.bind_eq_some_iff] at h
  obtain ⟨⟨key', s₁⟩, hread, h⟩ := h
  simp only at h
  split_ifs at h
  · cases h
    cases hkey
  rw [Option.bind_eq_bind, Option.bind_eq_some_iff] at h
  obtain ⟨⟨readonly, s₂⟩, hseparator, h⟩ := h
  rw [Option.bind_eq_some_iff] at h
  obtain ⟨⟨value', s₃⟩, hread', h⟩ := h
  simp only at h
  split_ifs at h
  cases h
  cases hkey
  cases hvalue
  exact ⟨s₁, s₂, s₃, hread, hseparator, hread'⟩

/-- **The key** of a line that is read back can be written: a backslash, or an apostrophe taken for a
quote, would leave too little for the value. -/
theorem writable_key {key value s₁ s₂ s₃ : Text} {readonly r : Bool}
    (hread : readQuotedString ch none (line ch key value readonly) = some (key, s₁))
    (hseparator : readSeparator (readSpaces s₁) = some (r, s₂))
    (hread' : readQuotedString ch none (readSpaces s₂) = some (value, s₃)) : Writable ch key := by
  obtain ⟨hprint, hbares, hweigh⟩ := line_spec ch key value readonly
  obtain ⟨hs₁, hle, hback⟩ := weigh_read_suffix hprint hbares (List.suffix_refl _) hread
  have hs₂ : readSpaces s₂ <:+ s₁ :=
    (readSpaces_suffix s₂).trans ((readSeparator_suffix hseparator).trans (readSpaces_suffix s₁))
  have hle' := (weigh_read_suffix hprint hbares (hs₂.trans hs₁) hread').2.1
  have hmiddle := weigh_suffix hs₂
  have hnotMem : BACKSLASH ∉ key := fun hmem => by
    have hlt := hback hmem
    omega
  refine ⟨hnotMem, fun hmem => ?_⟩
  by_contra hneeds
  have hlt := apostrophe_lost (by simpa using hneeds) hnotMem hmem hprint hbares hread
  rw [← line] at hlt
  omega

theorem writable_value {value s₃ : Text} (h : readQuotedString ch none (quote ch value) = some (value, s₃)) :
    Writable ch value := by
  have hprint := quote_printable ch value
  have hbares : bares false (quote ch value) ≤ 4 := by
    have hle := bares_quote ch value []
    have hnil : bares false [] = 0 := rfl
    rw [List.append_nil] at hle
    omega
  have hweigh := weigh_quote ch value
  have hback := (weigh_read_suffix hprint hbares (List.suffix_refl _) h).2.2
  have hnotMem : BACKSLASH ∉ value := fun hmem => by
    have hlt := hback hmem
    omega
  refine ⟨hnotMem, fun hmem => ?_⟩
  by_contra hneeds
  rw [← List.append_nil (quote ch value)] at hprint hbares h
  have hlt := apostrophe_lost (by simpa using hneeds) hnotMem hmem hprint hbares h
  rw [List.append_nil] at hlt
  omega

/-- After the key, the separator is read; with `:=` it takes a value that is not empty. -/
theorem readSeparator_line (value : Text) (readonly : Bool) :
    readSeparator (readSpaces (separator readonly ++ quote ch value)) =
      if readonly = true ∧ value = [] then none else some (readonly, SPACE :: quote ch value) := by
  cases readonly with
  | false => rfl
  | true =>
    show (if COLON = EQUALS then some (false, EQUALS :: SPACE :: quote ch value)
      else if COLON = COLON ∧ 2 < (EQUALS :: SPACE :: quote ch value).length ∧ some EQUALS = some EQUALS then
        some (true, SPACE :: quote ch value) else none) = _
    rw [if_neg (by decide)]
    by_cases hvalue : value = []
    · rw [if_neg, if_pos ⟨rfl, hvalue⟩]
      rw [quote_eq_nil.mpr hvalue]
      decide
    · have hlength := List.length_pos_of_ne_nil (mt (@quote_eq_nil ch value).mp hvalue)
      rw [if_pos, if_neg fun h => hvalue h.2]
      exact ⟨rfl, by simp only [List.length_cons]; omega, rfl⟩

theorem readSpaces_value (value : Text) : readSpaces (SPACE :: quote ch value) = quote ch value := by
  have hdrop : readSpaces (SPACE :: quote ch value) = readSpaces (quote ch value) := rfl
  by_cases hvalue : value = []
  · subst hvalue
    rfl
  · have hread := @readSpaces_quote ch value hvalue []
    rw [List.append_nil] at hread
    rw [hdrop, hread]

/-- **Round trip**: the line of a property with a key is read back exactly if key and value can be written,
and the value of a property that is read only is not empty. -/
theorem roundTrips_iff (ch : Characters) {key : Text} (hkey : key ≠ []) (value : Text) (readonly : Bool) :
    RoundTrips ch key value readonly ↔
      Writable ch key ∧ Writable ch value ∧ (readonly = true → value ≠ []) := by
  have hspaces : readSpaces (line ch key value readonly) = line ch key value readonly :=
    readSpaces_quote hkey _
  have hspace : ∀ d, (separator readonly ++ quote ch value).head? = some d →
      isIdentifierPart ch d = false := by
    intro d hd
    have hd : some SPACE = some d := by cases readonly <;> exact hd
    rw [← Option.some.inj hd]
    exact isIdentifierPart_space ch
  constructor
  · rintro ⟨text, p, htext, hof, hpkey, hpvalue, hpreadonly⟩
    rw [toText_line, Option.some.injEq] at htext
    subst htext
    obtain ⟨s₁, s₂, s₃, hread, hseparator, hread'⟩ := ofText_eq_some hof hpkey hpvalue
    rw [hspaces] at hread
    have hwritable := writable_key hread hseparator hread'
    -- so the key is read up to the separator
    have hread₁ := readQuotedString_quote hwritable hspace
    rw [← line, hread] at hread₁
    obtain ⟨-, rfl⟩ := Prod.mk.inj (Option.some.inj hread₁)
    rw [readSeparator_line] at hseparator
    split_ifs at hseparator with hempty
    obtain ⟨-, rfl⟩ := Prod.mk.inj (Option.some.inj hseparator)
    rw [readSpaces_value] at hread'
    exact ⟨hwritable, writable_value hread', fun hr hv => hempty ⟨hr, hv⟩⟩
  · rintro ⟨hwkey, hwvalue, hempty⟩
    have hread : readQuotedString ch none (line ch key value readonly) =
        some (key, separator readonly ++ quote ch value) := readQuotedString_quote hwkey hspace
    have hseparator : readSeparator (readSpaces (separator readonly ++ quote ch value)) =
        some (readonly, SPACE :: quote ch value) := by
      rw [readSeparator_line, if_neg fun h => hempty h.1 h.2]
    have hread' : readQuotedString ch none (quote ch value) = some (value, []) := by
      have hread' := @readQuotedString_quote ch value hwvalue [] (by simp)
      rwa [List.append_nil] at hread'
    refine ⟨_, { key := some key, value := some value, comment := [], readonly }, toText_line ch key value
      readonly, ?_, rfl, rfl, rfl⟩
    simp only [ofText, hspaces, hread, hseparator, readSpaces_value, hread', Option.bind_eq_bind,
      Option.bind_some, if_neg hkey]
    rfl

end

/-- The platform on ASCII. -/
def ascii : Characters where
  isUnicodeIdentifierPart c := decide (48 ≤ c ∧ c < 58 ∨ 65 ≤ c ∧ c < 91 ∨ c = 95 ∨ 97 ≤ c ∧ c < 123)
  digit c :=
    if 48 ≤ c ∧ c < 58 then some (c.toNat - 48)
    else if 65 ≤ c ∧ c < 71 then some (c.toNat - 55)
    else if 97 ≤ c ∧ c < 103 then some (c.toNat - 87)
    else none
  space := by decide
  digit_hexDigit := by decide

/-- The key `it's a` is put in quotes, so its apostrophe is read as one. -/
theorem roundTrips_apostrophe :
    RoundTrips ascii (['i', 't', '\'', 's', ' ', 'a'].map unit) (['"', 'b', '"'].map unit) true :=
  (roundTrips_iff ascii (by decide) _ true).mpr
    ⟨⟨by decide, fun _ => by decide⟩, ⟨by decide, by decide⟩, fun _ => by decide⟩

/-- A backslash in a value is taken for an escape when the line is read. -/
theorem roundTrips_backslash : ¬ RoundTrips ascii [unit 'a'] (['b', '\\', 'c'].map unit) false := by
  rintro ⟨text, p, htext, hof, -, hvalue, -⟩
  have hread : ofText ascii (['a', ' ', '=', ' ', 'b', '\\', 'c'].map unit) =
      some { key := some [unit 'a'], value := some (['b', 'c'].map unit) } := by decide
  have hline : some text = some (['a', ' ', '=', ' ', 'b', '\\', 'c'].map unit) := by
    rw [← htext]
    decide
  rw [Option.some.inj hline, hread, Option.some.injEq] at hof
  subst hof
  revert hvalue
  decide

end Waveplay.Properties.RoundTrip
