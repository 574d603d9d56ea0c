import Waveplay.Jmdns.Stream
import Waveplay.Lib.Search
import Waveplay.Lib.Trim

/-! # Qualified names of services

`decodeQualifiedNameMapForType` of `ServiceInfoImpl` takes the name of a DNS entry apart into the
instance, the subtype, the application, the protocol and the domain of a service. `getQualifiedName` and
`getTypeWithSubtype` put such names together. A `StringIndexOutOfBoundsException` is `none`.

* `decode_qualifiedName`: the name of a service is taken apart into what it was made from, and the key of
  its entries is the key of the service;
* `decode_typeWithSubtype`: the same of the type with its subtype, which comes back in lower case. -/

namespace Waveplay.Jmdns.QualifiedName

open Waveplay.Jmdns.Stream Waveplay.Lib Waveplay.Lib.Search

/-- A literal of the source. -/
def text (s : String) : Text := s.toList.map fun c => UInt16.ofNat c.toNat

/-- `'_'`. -/
def underscore : UInt16 := 95

/-- `trim`. -/
def trim (t : Text) : Text := Trim.trim (· ≤ 32) t

/-- `contains`. -/
abbrev Contains (t pat : Text) : Prop := -1 < indexOf pat t

/-- `removeSeparators`. -/
def removeSeparators (name : Text) : Text :=
  let newName := trim name
  let newName := if newName.head? = some dot then newName.drop 1 else newName
  let newName := if newName.head? = some underscore then newName.drop 1 else newName
  if newName.getLast? = some dot then newName.dropLast else newName

/-- The map from `Fields` to their texts. -/
structure Fields where
  /-- `Domain`. -/
  domain : Text
  /-- `Protocol`. -/
  protocol : Text
  /-- `Application`. -/
  application : Text
  /-- `Instance`. -/
  inst : Text
  /-- `Subtype`. -/
  subtype : Text
deriving DecidableEq

/-! ### Taking a name apart -/

section

variable (lower : Text → Text)

/-- The name in front of a type, with what is left of the type in lower case and as it was. -/
def splitInstance (type : Text) : Option (Text × Text × Text) :=
  let aType := lower type
  if ¬ [underscore] <+: aType ∨ text "_services" <+: aType then
    let index := indexOf [dot] aType
    if index > 0 then do
      let name ← substring type 0 index
      if index + 1 < aType.length then
        return (name, ← substring aType (index + 1) aType.length, ← substring type (index + 1) type.length)
      return (name, aType, type)
    else some ([], aType, type)
  else some ([], aType, type)

/-- The protocol of a type. -/
def protocolOf (aType type : Text) : Option Text :=
  let index := lastIndexOf [dot, underscore] aType
  if index > 0 then
    let start := index + 2
    substring type start (indexOfFrom [dot] aType start)
  else some []

/-- The domain and the application of a type with a protocol. -/
def splitDomain (aType type protocol : Text) : Option (Text × Text) := do
  let index := indexOf ([underscore] ++ lower protocol ++ [dot]) aType
  let start := index + protocol.length + 2
  let stop : ℤ := aType.length - (if aType.getLast? = some dot then 1 else 0)
  let domain ← substring type start stop
  let application ← substring type 0 (index - 1)
  return (domain, application)

/-- The subtype in an application, and the rest of it. -/
def splitSubtype (application : Text) : Option (Text × Text) :=
  let index := indexOf (text "._sub") (lower application)
  if index > 0 then do
    let subtype ← substring application 0 index
    return (removeSeparators subtype, ← substring application (index + 5) application.length)
  else some ([], application)

/-- **`decodeQualifiedNameMapForType`**. -/
def decodeQualifiedNameMapForType (type : Text) : Option Fields :=
  let aType := lower type
  if Contains aType (text "in-addr.arpa") ∨ Contains aType (text "ip6.arpa") then do
    let index := if Contains aType (text "in-addr.arpa") then indexOf (text "in-addr.arpa") aType
      else indexOf (text "ip6.arpa") aType
    let name ← substring type 0 index
    let domain ← substring type index type.length
    return ⟨removeSeparators domain, [], removeSeparators [], removeSeparators name, []⟩
  else if ¬ Contains aType [underscore] ∧ Contains aType [dot] then do
    let index := indexOf [dot] aType
    let name ← substring type 0 index
    let domain ← substring type index type.length
    return ⟨removeSeparators (removeSeparators domain), [], removeSeparators [], removeSeparators name, []⟩
  else do
    let (name, aType', type') ← splitInstance lower type
    let protocol ← protocolOf aType' type'
    -- the application of a type without a protocol is all of it, with the name, in lower case
    let (domain, application) ← if protocol.length > 0 then splitDomain lower aType' type' protocol
      else some ([], aType)
    let (subtype, application) ← splitSubtype lower application
    return ⟨removeSeparators domain, protocol, removeSeparators application, name, subtype⟩

end

/-! ### Putting a name together -/

/-- `getType`. -/
def Fields.getType (q : Fields) : Text :=
  (if q.application.length > 0 then [underscore] ++ q.application ++ [dot] else []) ++
    (if q.protocol.length > 0 then [underscore] ++ q.protocol ++ [dot] else []) ++ q.domain ++ [dot]

/-- `getQualifiedName`. -/
def Fields.getQualifiedName (q : Fields) : Text :=
  (if q.inst.length > 0 then q.inst ++ [dot] else []) ++ q.getType

/-- `getTypeWithSubtype`. -/
def Fields.getTypeWithSubtype (lower : Text → Text) (q : Fields) : Text :=
  (if q.subtype.length > 0 then [underscore] ++ lower q.subtype ++ text "._sub." else []) ++ q.getType

/-- `getKey` of a service. -/
def Fields.serviceKey (lower : Text → Text) (q : Fields) : Text := lower q.getQualifiedName

/-- The `_key` that the constructor of `DNSEntry` computes. -/
def Fields.entryKey (lower : Text → Text) (q : Fields) : Text :=
  let inst := lower q.inst
  lower ((if inst.length > 0 then inst ++ [dot] else []) ++ q.getType)

/-! ### Lower case -/

/-- `toLowerCase` of a Latin letter. -/
def asciiLowerChar (c : UInt16) : UInt16 := if 65 ≤ c ∧ c ≤ 90 then c + 32 else c

/-- A text of the characters `S`. -/
def Over (S : UInt16 → Prop) (t : Text) : Prop := ∀ c ∈ t, S c

instance (S : UInt16 → Prop) [DecidablePred S] (t : Text) : Decidable (Over S t) := List.decidableBAll _ t

@[simp] theorem over_nil {S : UInt16 → Prop} : Over S [] := fun _ h => absurd h List.not_mem_nil

@[simp] theorem over_cons {S : UInt16 → Prop} {c : UInt16} {t : Text} : Over S (c :: t) ↔ S c ∧ Over S t :=
  List.forall_mem_cons

@[simp] theorem over_append {S : UInt16 → Prop} {a b : Text} : Over S (a ++ b) ↔ Over S a ∧ Over S b :=
  List.forall_mem_append

/-- A character of ASCII that is no capital. -/
def Uncapital (c : UInt16) : Prop := c < 128 ∧ asciiLowerChar c = c

instance : DecidablePred Uncapital := fun _ => inferInstanceAs (Decidable (_ ∧ _))

/-- The characters `S` become lower case one by one, whatever stands around them, those of ASCII among them,
and no other becomes a separator. `S` leaves out what `toLowerCase` treats in another way: a capital I with a
dot, which becomes two characters, a capital sigma, which depends on its place in the word, and surrogates. -/
structure Folds (S : UInt16 → Prop) (f : UInt16 → UInt16) (lower : Text → Text) : Prop where
  map : ∀ t, Over S t → lower t = t.map f
  mem : ∀ c, S c → S (f c)
  idem : ∀ c, S c → f (f c) = f c
  ascii : ∀ c < 128, S c ∧ f c = asciiLowerChar c
  dot_of : ∀ c, S c → f c = dot → c = dot
  underscore_of : ∀ c, S c → f c = underscore → c = underscore

section

variable {S : UInt16 → Prop} {f : UInt16 → UInt16} {lower : Text → Text} (hf : Folds S f lower)

include hf

theorem Folds.of_dot : S dot ∧ f dot = dot := hf.ascii dot (by decide)

theorem Folds.over_dot : Over S [dot] := over_cons.mpr ⟨hf.of_dot.1, over_nil⟩

theorem Folds.of_underscore : S underscore ∧ f underscore = underscore := hf.ascii underscore (by decide)

theorem Folds.dot_mem {t : Text} (ht : Over S t) : dot ∈ lower t ↔ dot ∈ t := by
  rw [hf.map t ht, List.mem_map]
  constructor
  · rintro ⟨c, hc, h⟩
    rwa [← hf.dot_of c (ht c hc) h]
  · intro h
    exact ⟨_, h, hf.of_dot.2⟩

theorem Folds.underscore_mem {t : Text} (ht : Over S t) :
    underscore ∈ lower t ↔ underscore ∈ t := by
  rw [hf.map t ht, List.mem_map]
  constructor
  · rintro ⟨c, hc, h⟩
    rwa [← hf.underscore_of c (ht c hc) h]
  · intro h
    exact ⟨_, h, hf.of_underscore.2⟩

theorem Folds.append {a b : Text} (ha : Over S a) (hb : Over S b) : lower (a ++ b) = lower a ++ lower b := by
  rw [hf.map _ (over_append.mpr ⟨ha, hb⟩), hf.map a ha, hf.map b hb, List.map_append]

theorem Folds.cons_dot {t : Text} (ht : Over S t) :
    lower (dot :: t) = dot :: lower t := by
  rw [hf.map _ (over_cons.mpr ⟨hf.of_dot.1, ht⟩), hf.map t ht, List.map_cons, hf.of_dot.2]

theorem Folds.cons_underscore {t : Text} (ht : Over S t) :
    lower (underscore :: t) = underscore :: lower t := by
  rw [hf.map _ (over_cons.mpr ⟨hf.of_underscore.1, ht⟩), hf.map t ht, List.map_cons, hf.of_underscore.2]

theorem Folds.nil : lower [] = [] := hf.map [] over_nil

theorem Folds.length {t : Text} (ht : Over S t) : (lower t).length = t.length := by
  rw [hf.map t ht, List.length_map]

theorem Folds.over {t : Text} (ht : Over S t) : Over S (lower t) := by
  rw [hf.map t ht]
  exact List.forall_mem_map.mpr fun c hc => hf.mem c (ht c hc)

theorem Folds.lower_lower {t : Text} (ht : Over S t) : lower (lower t) = lower t := by
  rw [hf.map _ (hf.over ht), hf.map t ht, List.map_map]
  exact List.map_congr_left fun c hc => hf.idem c (ht c hc)

theorem Folds.over_ascii {t : Text} (ht : Over Uncapital t) : Over S t := fun c hc => (hf.ascii c (ht c hc).1).1

theorem Folds.ascii_text {t : Text} (ht : Over Uncapital t) : lower t = t := by
  rw [hf.map t (hf.over_ascii ht)]
  exact (List.map_congr_left fun c hc => (hf.ascii c (ht c hc).1).2.trans (ht c hc).2).trans (List.map_id t)

end

/-! ### Labels -/

/-- Labels with underscores, each with its dot. -/
def labels (ls : List Text) : Text := ls.flatMap fun l => underscore :: l ++ [dot]

/-- A label without separators. -/
structure Plain (l : Text) : Prop where
  dot : dot ∉ l
  underscore : underscore ∉ l

section

variable {S : UInt16 → Prop} {f : UInt16 → UInt16} {lower : Text → Text} (hf : Folds S f lower)

include hf

theorem Plain.folded {l : Text} (hl : Over S l) (h : Plain l) : Plain (lower l) :=
  ⟨fun hm => h.dot ((hf.dot_mem hl).mp hm), fun hm => h.underscore ((hf.underscore_mem hl).mp hm)⟩

theorem over_label {l : Text} (hl : Over S l) : Over S (underscore :: l ++ [dot]) := by
  simp only [List.cons_append, over_cons, over_append, hf.of_underscore.1, hf.of_dot.1, hl, over_nil, and_self]

theorem lower_label {l : Text} (hl : Over S l) :
    lower (underscore :: l ++ [dot]) = underscore :: lower l ++ [dot] := by
  have hdot : Over S [dot] := hf.over_dot
  rw [List.cons_append, hf.cons_underscore (over_append.mpr ⟨hl, hdot⟩), hf.append hl hdot, hf.cons_dot over_nil,
    hf.nil, List.cons_append]

theorem over_labels {ls : List Text} (hls : ∀ l ∈ ls, Over S l) : Over S (labels ls) := by
  intro c hc
  obtain ⟨l, hl, hc⟩ := List.mem_flatMap.mp hc
  exact over_label hf (hls l hl) c hc

theorem lower_labels {ls : List Text} (hls : ∀ l ∈ ls, Over S l) : lower (labels ls) = labels (ls.map lower) := by
  induction ls with
  | nil => exact hf.nil
  | cons l ls ih =>
    obtain ⟨hl, hls⟩ := List.forall_mem_cons.mp hls
    have hcons (l : Text) (ls : List Text) : labels (l :: ls) = underscore :: l ++ [dot] ++ labels ls := rfl
    rw [hcons, hf.append (over_label hf hl) (over_labels hf hls), lower_label hf hl, ih hls, List.map_cons, hcons]

end

theorem not_isPrefix_labels {p l rest : Text} (hp : Plain p) (hl : Plain l) (hne : l ≠ p) {i : ℕ}
    (hi : i < (underscore :: l ++ [dot]).length) :
    ¬ underscore :: p ++ [dot] <+: (underscore :: l ++ [dot] ++ rest).drop i := by
  rintro ⟨rest', h⟩
  cases i with
  | zero =>
    have heq : p ++ dot :: rest' = l ++ dot :: rest := by simpa using h
    have hlen : (p.length : ℤ) = l.length := by
      rw [← indexOf_singleton hp.dot, heq, indexOf_singleton hl.dot]
    exact hne (List.append_inj_left heq (Int.ofNat.inj hlen)).symm
  | succ i =>
    -- the place is inside the label, where there is no underscore
    have hmem : underscore ∈ l ++ [dot] := by
      have hlt : i < (l ++ [dot]).length := by simpa using hi
      have hdrop : (underscore :: l ++ [dot] ++ rest).drop (i + 1) = (l ++ [dot] ++ rest).drop i := rfl
      rw [hdrop, List.cons_append, List.cons_append, List.drop_append_of_le_length (by omega), List.drop_eq_getElem_cons hlt] at h
      obtain ⟨hc, -⟩ := List.cons.inj h
      exact hc ▸ List.getElem_mem hlt
    rcases List.mem_append.mp hmem with h | h
    · exact hl.underscore h
    · exact absurd (List.mem_singleton.mp h) (by decide)

theorem indexOf_label {p rest : Text} (hp : Plain p) (ls : List Text) (hls : ∀ l ∈ ls, Plain l ∧ l ≠ p) :
    indexOf (underscore :: p ++ [dot]) (labels ls ++ (underscore :: p ++ [dot] ++ rest)) =
      (labels ls).length := by
  apply indexOf_append
  induction ls with
  | nil =>
    intro i hi
    exact absurd hi (Nat.not_lt_zero i)
  | cons l ls ih =>
    intro i hi
    obtain ⟨hl, hne⟩ := hls l List.mem_cons_self
    have hsplit : labels (l :: ls) = underscore :: l ++ [dot] ++ labels ls := rfl
    rw [hsplit, List.append_assoc]
    by_cases hin : i < (underscore :: l ++ [dot]).length
    · exact not_isPrefix_labels hp hl hne hin
    · obtain ⟨j, rfl⟩ := Nat.exists_eq_add_of_le (Nat.le_of_not_lt hin)
      rw [List.drop_append, List.drop_eq_nil_of_le (by omega), List.nil_append,
        Nat.add_sub_cancel_left]
      refine ih (fun l' h' => hls l' (List.mem_cons_of_mem l h')) j ?_
      simp only [hsplit, List.length_append] at hi
      omega

/-! ### The parts -/

section

variable {S : UInt16 → Prop} {f : UInt16 → UInt16} {lower : Text → Text} (hf : Folds S f lower)

include hf

theorem splitInstance_append {inst rest : Text} (hinst : Over S inst) (hover : Over S rest) (hne : inst ≠ [])
    (hdot : dot ∉ inst) (hhead : inst.head? ≠ some underscore) (hrest : rest ≠ []) :
    splitInstance lower (inst ++ dot :: rest) = some (inst, lower rest, rest) := by
  have hlow : lower (inst ++ dot :: rest) = lower inst ++ dot :: lower rest := by
    rw [hf.append hinst (over_cons.mpr ⟨hf.of_dot.1, hover⟩), hf.cons_dot hover]
  have hstart : ¬ [underscore] <+: lower inst ++ dot :: lower rest := by
    obtain ⟨c, cs, rfl⟩ := List.exists_cons_of_ne_nil hne
    rw [hf.map _ hinst, List.map_cons, List.cons_append, List.cons_prefix_cons]
    rintro ⟨h, -⟩
    exact hhead (congrArg some (hf.underscore_of c (hinst c List.mem_cons_self) h.symm))
  have hindex : indexOf [dot] (lower inst ++ dot :: lower rest) = inst.length := by
    rw [indexOf_singleton fun h => hdot ((hf.dot_mem hinst).mp h), hf.length hinst]
  have hpos : 0 < inst.length := List.length_pos_iff.mpr hne
  have hpos' : 0 < rest.length := List.length_pos_iff.mpr hrest
  have hname : substring (inst ++ dot :: rest) 0 inst.length = some inst := by
    simpa using substring_append [] inst (dot :: rest)
  have htail : ∀ a b : Text, a.length = inst.length →
      substring (a ++ dot :: b) (inst.length + 1) (a ++ dot :: b).length = some b := by
    intro a b ha
    have := substring_append (a ++ [dot]) b []
    simpa [← ha, Nat.add_assoc, Nat.add_comm 1] using this
  rw [splitInstance]
  simp only [hlow, hindex]
  rw [if_pos (Or.inl hstart), if_pos (by omega), hname, Option.bind_eq_bind, Option.bind_some,
    if_pos (by simp [hf.length hinst, hf.length hover]; omega), htail _ _ (hf.length hinst), htail _ _ rfl]
  rfl

theorem splitInstance_type {rest : Text} (hover : Over S rest) (h : ¬ text "_services" <+: lower (underscore :: rest)) :
    splitInstance lower (underscore :: rest) = some ([], lower (underscore :: rest), underscore :: rest) := by
  have hstart : [underscore] <+: lower (underscore :: rest) := by
    rw [hf.cons_underscore hover]
    exact ⟨lower rest, rfl⟩
  rw [splitInstance]
  simp only
  rw [if_neg (by simp only [hstart, h, not_true, or_self, not_false_eq_true])]

omit hf in
theorem lastIndexOf_underscore {a b : Text} (hb : underscore ∉ b) :
    lastIndexOf [dot, underscore] (a ++ ([dot, underscore] ++ b)) = a.length := by
  refine lastIndexOf_append (List.cons_ne_nil _ _) fun i hi hpre => hb ?_
  obtain ⟨i, rfl⟩ := Nat.exists_eq_add_of_lt hi
  obtain ⟨rest, hrest⟩ := hpre
  have hdrop : ([dot, underscore] ++ b).drop (0 + i + 1 + 1) = underscore :: rest := by
    rw [← List.drop_drop, ← hrest]
    rfl
  rw [Nat.zero_add] at hdrop
  exact List.mem_of_mem_drop (hdrop ▸ List.mem_cons_self : underscore ∈ b.drop i)

variable {ls : List Text} {init p dom : Text} (hols : ∀ l ∈ ls, Over S l) (hop : Over S p) (hodom : Over S dom)

include hols hop hodom

theorem lower_type : lower (labels ls ++ (underscore :: p ++ [dot] ++ (dom ++ [dot]))) =
    labels (ls.map lower) ++ (underscore :: lower p ++ [dot] ++ (lower dom ++ [dot])) := by
  have hdot : Over S [dot] := hf.over_dot
  have hdom : Over S (dom ++ [dot]) := over_append.mpr ⟨hodom, hdot⟩
  rw [hf.append (over_labels hf hols) (over_append.mpr ⟨over_label hf hop, hdom⟩), lower_labels hf hols,
    hf.append (over_label hf hop) hdom, lower_label hf hop, hf.append hodom hdot, hf.cons_dot over_nil, hf.nil]

variable (hinit : labels ls = init ++ [dot])

include hinit

theorem protocolOf_labels (hne : init ≠ []) (hp : Plain p) (hdom : underscore ∉ dom) :
    protocolOf (lower (labels ls ++ (underscore :: p ++ [dot] ++ (dom ++ [dot]))))
      (labels ls ++ (underscore :: p ++ [dot] ++ (dom ++ [dot]))) = some p := by
  obtain ⟨hoinit, hdot⟩ : Over S init ∧ Over S [dot] := over_append.mp (hinit ▸ over_labels hf hols)
  have hlow : lower (labels ls ++ (underscore :: p ++ [dot] ++ (dom ++ [dot]))) =
      lower init ++ ([dot, underscore] ++ (lower p ++ dot :: (lower dom ++ [dot]))) := by
    have hlabels : labels (ls.map lower) = lower init ++ [dot] := by
      rw [← lower_labels hf hols, hinit, hf.append hoinit hdot, hf.cons_dot over_nil, hf.nil]
    rw [lower_type hf hols hop hodom, hlabels]
    simp only [List.append_assoc, List.cons_append, List.nil_append]
  have hmem : underscore ∉ lower p ++ dot :: (lower dom ++ [dot]) := by
    simp only [List.mem_append, List.mem_cons, hf.underscore_mem hop, hf.underscore_mem hodom, hp.underscore, hdom,
      List.not_mem_nil, or_false, false_or, or_self]
    decide
  have hfrom : indexOfFrom [dot] (lower init ++ ([dot, underscore] ++ (lower p ++ dot :: (lower dom ++ [dot]))))
      ((init.length : ℤ) + 2) = init.length + 2 + p.length := by
    have hdrop : (lower init ++ ([dot, underscore] ++ (lower p ++ dot :: (lower dom ++ [dot])))).drop
        ((init.length : ℤ) + 2).toNat = lower p ++ dot :: (lower dom ++ [dot]) := by
      rw [← List.append_assoc]
      exact List.drop_left' (by
        simp only [List.length_append, hf.length hoinit, List.length_cons, List.length_nil]; omega)
    rw [indexOfFrom, hdrop, indexOf_singleton (hp.folded hf hop).dot, hf.length hop, if_neg (by omega)]
  have hpos : 0 < init.length := List.length_pos_iff.mpr hne
  rw [protocolOf]
  simp only
  rw [hlow, lastIndexOf_underscore hmem, hf.length hoinit, if_pos (by omega), hfrom, hinit]
  have := substring_append (init ++ [dot, underscore]) p (dot :: (dom ++ [dot]))
  simpa [Int.add_assoc] using this

theorem splitDomain_labels (hp : Plain p) (hls : ∀ l ∈ ls, Plain l ∧ lower l ≠ lower p) :
    splitDomain lower (lower (labels ls ++ (underscore :: p ++ [dot] ++ (dom ++ [dot]))))
      (labels ls ++ (underscore :: p ++ [dot] ++ (dom ++ [dot]))) p = some (dom, init) := by
  have hlow := lower_type hf hols hop hodom
  have hindex : indexOf ([underscore] ++ lower p ++ [dot])
      (labels (ls.map lower) ++ (underscore :: lower p ++ [dot] ++ (lower dom ++ [dot]))) =
        (labels ls).length := by
    have hlen : (labels ls).length = (labels (ls.map lower)).length := by
      rw [← lower_labels hf hols, hf.length (over_labels hf hols)]
    rw [hlen]
    refine indexOf_label (hp.folded hf hop) (ls.map lower) fun l' hl' => ?_
    obtain ⟨l, hl, rfl⟩ := List.mem_map.mp hl'
    exact ⟨(hls l hl).1.folded hf (hols l hl), (hls l hl).2⟩
  have hlast : (labels (ls.map lower) ++ (underscore :: lower p ++ [dot] ++ (lower dom ++ [dot]))).getLast? =
      some dot := by
    rw [← List.append_assoc, ← List.append_assoc]
    exact List.getLast?_concat
  have hdomain : substring (labels ls ++ (underscore :: p ++ [dot] ++ (dom ++ [dot])))
      ((labels ls).length + p.length + 2) ((labels ls).length + p.length + 2 + dom.length) = some dom := by
    have := substring_append (labels ls ++ (underscore :: p ++ [dot])) dom [dot]
    have hlen : (labels ls ++ (underscore :: p ++ [dot])).length = (labels ls).length + p.length + 2 := by
      simp only [List.length_append, List.length_cons, List.length_nil]
      omega
    rw [hlen, List.append_assoc] at this
    exact_mod_cast this
  have hinit' : substring (labels ls ++ (underscore :: p ++ [dot] ++ (dom ++ [dot]))) 0 (init.length : ℤ) =
      some init := by
    have := substring_append [] init ([dot] ++ (underscore :: p ++ [dot] ++ (dom ++ [dot])))
    rw [hinit, List.append_assoc]
    simpa using this
  have hlen : ((labels ls).length : ℤ) - 1 = init.length := by
    rw [hinit, List.length_append, List.length_singleton]
    omega
  have hstop : ((labels (ls.map lower) ++ (underscore :: lower p ++ [dot] ++ (lower dom ++ [dot]))).length : ℤ) -
      1 = (labels ls).length + p.length + 2 + dom.length := by
    simp only [List.length_append, List.length_cons, List.length_nil, hf.length hop, hf.length hodom,
      ← lower_labels hf hols, hf.length (over_labels hf hols)]
    omega
  rw [splitDomain, hlow, hindex, if_pos hlast, hstop, hdomain, Option.bind_eq_bind, Option.bind_some, hlen, hinit']
  rfl

end

/-- No blank at the end. -/
def Trimmed (t : Text) : Prop := ∀ c ∈ t.getLast?, 32 < c

theorem trimmed_cons {c : UInt16} {t : Text} (hc : 32 < c) (h : Trimmed t) : Trimmed (c :: t) := by
  cases t with
  | nil =>
    intro c' hc'
    rwa [← Option.some.inj hc']
  | cons d t =>
    intro c' hc'
    exact h c' (by rwa [List.getLast?_cons_cons] at hc')

theorem trim_cons {c : UInt16} {t : Text} (hc : 32 < c) (h : Trimmed t) : trim (c :: t) = c :: t := by
  refine Trim.trim_eq_self (fun d hd => ?_) fun d hd => ?_
  · rw [← Option.some.inj hd]
    exact decide_eq_false (UInt16.not_le.mpr hc)
  · exact decide_eq_false (UInt16.not_le.mpr (trimmed_cons hc h d hd))

theorem removeSeparators_underscore {t : Text} (hdot : dot ∉ t) (h : Trimmed t) :
    removeSeparators (underscore :: t) = t := by
  have hlast : t.getLast? ≠ some dot := fun h => hdot (List.mem_of_getLast? h)
  rw [removeSeparators]
  rw [trim_cons (by decide) h, List.head?_cons, if_neg (show some underscore ≠ some dot by decide),
    List.head?_cons, if_pos rfl, List.drop_one, List.tail_cons, if_neg hlast]

theorem removeSeparators_dot {t : Text} (hdot : dot ∉ t) (h : Trimmed (underscore :: t)) :
    removeSeparators (dot :: underscore :: t) = t := by
  have hlast : t.getLast? ≠ some dot := fun h => hdot (List.mem_of_getLast? h)
  rw [removeSeparators]
  rw [trim_cons (by decide) h, List.head?_cons, if_pos rfl, List.drop_one, List.tail_cons, List.head?_cons,
    if_pos rfl, List.drop_one, List.tail_cons, if_neg hlast]

theorem uncapital_sub : Over Uncapital (text "._sub") := by decide

section

variable {S : UInt16 → Prop} {f : UInt16 → UInt16} {lower : Text → Text} (hf : Folds S f lower)

include hf

theorem splitSubtype_of_notMem {t : Text} (hover : Over S t) (h : dot ∉ t) : splitSubtype lower t = some ([], t) := by
  have hneg : indexOf (text "._sub") (lower t) < 0 := by
    rw [indexOf_neg_iff]
    intro hin
    have hmem : dot ∈ text "._sub" := by decide
    exact h ((hf.dot_mem hover).mp (hin.subset hmem))
  rw [splitSubtype]
  rw [if_neg (by omega)]

theorem splitSubtype_append {sub rest : Text} (hosub : Over S sub) (hrest : Over S rest) (hdot : dot ∉ sub)
    (htrim : Trimmed sub) :
    splitSubtype lower (underscore :: sub ++ (text "._sub" ++ rest)) = some (sub, rest) := by
  have hindex : indexOf (text "._sub") (lower (underscore :: sub ++ (text "._sub" ++ rest))) =
      (underscore :: sub).length := by
    have hunder : Over S (underscore :: sub) := over_cons.mpr ⟨hf.of_underscore.1, hosub⟩
    have hover : Over S (text "._sub") := hf.over_ascii uncapital_sub
    rw [hf.append hunder (over_append.mpr ⟨hover, hrest⟩), hf.append hover hrest, hf.ascii_text uncapital_sub,
      ← hf.length hunder]
    refine indexOf_append fun i hi hpre => ?_
    rw [List.drop_append_of_le_length (by omega), List.drop_eq_getElem_cons hi, List.cons_append] at hpre
    have hc : dot = (lower (underscore :: sub)).get ⟨i, hi⟩ := (List.cons_prefix_cons.mp hpre).1
    have hmem : dot ∈ underscore :: sub := (hf.dot_mem hunder).mp (hc ▸ List.getElem_mem hi)
    rcases List.mem_cons.mp hmem with h | h
    · exact absurd h (by decide)
    · exact hdot h
  have htake : substring (underscore :: sub ++ (text "._sub" ++ rest)) 0 (underscore :: sub).length =
      some (underscore :: sub) := by
    simpa using substring_append [] (underscore :: sub) (text "._sub" ++ rest)
  have hdrop : substring (underscore :: sub ++ (text "._sub" ++ rest)) ((underscore :: sub).length + 5)
      (underscore :: sub ++ (text "._sub" ++ rest)).length = some rest := by
    have := substring_append (underscore :: sub ++ text "._sub") rest []
    have hlen : (underscore :: sub ++ text "._sub").length = (underscore :: sub).length + 5 := by
      rw [List.length_append]
      rfl
    rw [hlen, List.append_nil, List.append_assoc] at this
    rw [← List.append_assoc, List.length_append, hlen, List.append_assoc]
    exact_mod_cast this
  rw [splitSubtype]
  rw [hindex, if_pos (by rw [List.length_cons]; omega), htake, Option.bind_eq_bind, Option.bind_some, hdrop,
    removeSeparators_underscore hdot htrim]
  rfl

end

/-! ### Round trips -/

/-- The application, the protocol and the domain of a service, as types are made of them. -/
structure TypeFormed (q : Fields) : Prop where
  application_ne : q.application ≠ []
  application : Plain q.application
  application_trimmed : Trimmed q.application
  protocol_ne : q.protocol ≠ []
  protocol : Plain q.protocol
  domain : underscore ∉ q.domain
  domain_separators : removeSeparators q.domain = q.domain

/-- No part of the name reads like a reverse lookup. -/
structure NotReverse (lower : Text → Text) (t : Text) : Prop where
  inAddr : ¬ text "in-addr.arpa" <:+: lower t
  ip6 : ¬ text "ip6.arpa" <:+: lower t

section

variable {S : UInt16 → Prop} {f : UInt16 → UInt16} {lower : Text → Text} (hf : Folds S f lower) {q : Fields}

theorem TypeFormed.getType (h : TypeFormed q) : q.getType =
    labels [q.application] ++ (underscore :: q.protocol ++ [dot] ++ (q.domain ++ [dot])) := by
  rw [Fields.getType, if_pos (List.length_pos_iff.mpr h.application_ne),
    if_pos (List.length_pos_iff.mpr h.protocol_ne), labels, List.flatMap_cons, List.flatMap_nil,
    List.append_nil, List.append_assoc, List.append_assoc]
  rfl

theorem TypeFormed.over (h : TypeFormed q) (htype : Over S q.getType) :
    Over S q.application ∧ Over S q.protocol ∧ Over S q.domain := by
  rw [h.getType] at htype
  simp only [labels, List.flatMap_cons, List.flatMap_nil, List.append_nil, over_append, over_cons] at htype
  exact ⟨htype.1.1.2, htype.2.1.1.2, htype.2.2.1⟩

include hf

/-- A name with an underscore that is no reverse lookup is taken apart in steps, the protocol first. -/
theorem decode_eq {type name type' protocol : Text} (hrev : NotReverse lower type) (hmem : underscore ∈ type)
    (hover : Over S type) (hsplit : splitInstance lower type = some (name, lower type', type'))
    (hproto : protocolOf (lower type') type' = some protocol) (hne : protocol ≠ []) :
    decodeQualifiedNameMapForType lower type =
      (splitDomain lower (lower type') type' protocol).bind fun (domain, application) =>
        (splitSubtype lower application).map fun (subtype, application) =>
          ⟨removeSeparators domain, protocol, removeSeparators application, name, subtype⟩ := by
  have hin : indexOf (text "in-addr.arpa") (lower type) < 0 := (indexOf_neg_iff _).mpr hrev.inAddr
  have hip : indexOf (text "ip6.arpa") (lower type) < 0 := (indexOf_neg_iff _).mpr hrev.ip6
  have hus : ¬ indexOf [underscore] (lower type) < 0 := by
    rw [indexOf_neg_iff, not_not, List.singleton_infix_iff]
    exact (hf.underscore_mem hover).mpr hmem
  have hpos : protocol.length > 0 := List.length_pos_iff.mpr hne
  rw [decodeQualifiedNameMapForType]
  simp only
  rw [if_neg (by simp only [Contains]; omega), if_neg (by simp only [Contains]; omega)]
  simp only [hsplit, hproto, Option.bind_eq_bind, Option.bind_some, if_pos hpos, Option.map_eq_bind]
  rfl

/-- A type that begins with the label of its protocol has no place for an application. -/
theorem splitDomain_same {a p rest : Text} (hoa : Over S a) (hrest : Over S rest) (ha : Plain a)
    (hsame : lower a = lower p) :
    splitDomain lower (lower (underscore :: a ++ [dot] ++ rest)) (underscore :: a ++ [dot] ++ rest) p = none := by
  have hindex : indexOf ([underscore] ++ lower p ++ [dot]) (lower (underscore :: a ++ [dot] ++ rest)) = 0 := by
    have hlow : lower (underscore :: a ++ [dot] ++ rest) = underscore :: lower p ++ [dot] ++ lower rest := by
      rw [hf.append (over_label hf hoa) hrest, lower_label hf hoa, hsame]
    have hfirst : indexOf (underscore :: lower p ++ [dot])
        (labels [] ++ (underscore :: lower p ++ [dot] ++ lower rest)) = (labels []).length :=
      indexOf_label (hsame ▸ ha.folded hf hoa) [] (by simp)
    rw [hlow]
    exact hfirst
  rw [splitDomain, hindex]
  cases substring (underscore :: a ++ [dot] ++ rest) _ _ <;> rfl

theorem entryKey_qualifiedName (hinst : Over S q.inst) (htype : Over S q.getType) (hne : q.inst ≠ [])
    (subtype : Text) :
    Fields.entryKey lower { q with subtype := subtype } = q.serviceKey lower := by
  have hpos : 0 < (lower q.inst).length := by
    rw [hf.length hinst]
    exact List.length_pos_iff.mpr hne
  have hdot : Over S [dot] := hf.over_dot
  rw [Fields.entryKey, if_pos hpos, Fields.serviceKey, Fields.getQualifiedName,
    if_pos (List.length_pos_iff.mpr hne), List.append_assoc, List.append_assoc,
    hf.append hinst (over_append.mpr ⟨hdot, htype⟩)]
  exact (hf.append (hf.over hinst) (over_append.mpr ⟨hdot, htype⟩)).trans
    (congrArg (· ++ _) (hf.lower_lower hinst))

/-- **The name of a service is taken apart into what it was made from**, and the entries with that name
have the key of the service, unless its application is called like its protocol; then there is an
exception. -/
theorem decode_qualifiedName (hover : Over S q.getQualifiedName) (h : TypeFormed q) (hne : q.inst ≠ [])
    (hdot : dot ∉ q.inst) (hhead : q.inst.head? ≠ some underscore)
    (hrev : NotReverse lower q.getQualifiedName) :
    decodeQualifiedNameMapForType lower q.getQualifiedName =
        (if lower q.application = lower q.protocol then none else some { q with subtype := [] }) ∧
      Fields.entryKey lower { q with subtype := [] } = q.serviceKey lower := by
  have hname : q.getQualifiedName = q.inst ++ dot :: q.getType := by
    rw [Fields.getQualifiedName, if_pos (List.length_pos_iff.mpr hne), List.append_assoc]
    rfl
  obtain ⟨hinst, hdots⟩ := over_append.mp (hname ▸ hover)
  have htype : Over S q.getType := (over_cons.mp hdots).2
  refine ⟨?_, entryKey_qualifiedName hf hinst htype hne []⟩
  obtain ⟨happ, hprot, hdom⟩ := h.over htype
  have hlabels : labels [q.application] = underscore :: q.application ++ [dot] := List.append_nil _
  have hmem : underscore ∈ q.getQualifiedName := by
    rw [hname, h.getType, hlabels]
    simp
  have hsplit : splitInstance lower q.getQualifiedName = some (q.inst, lower q.getType, q.getType) := by
    rw [hname]
    exact splitInstance_append hf hinst htype hne hdot hhead (by rw [h.getType, hlabels]; simp)
  have hproto : protocolOf (lower q.getType) q.getType = some q.protocol := by
    rw [h.getType]
    exact protocolOf_labels hf (by simpa using happ) hprot hdom hlabels (List.cons_ne_nil _ _) h.protocol h.domain
  rw [decode_eq hf hrev hmem hover hsplit hproto h.protocol_ne, h.getType]
  split_ifs with hsame
  · have hrest : Over S (underscore :: q.protocol ++ [dot] ++ (q.domain ++ [dot])) :=
      (over_append.mp (h.getType ▸ htype)).2
    rw [hlabels, splitDomain_same hf happ hrest h.application hsame, Option.bind_none]
  · have hsub : splitSubtype lower (underscore :: q.application) = some ([], underscore :: q.application) := by
      refine splitSubtype_of_notMem hf (over_cons.mpr ⟨hf.of_underscore.1, happ⟩) fun hm => ?_
      rcases List.mem_cons.mp hm with h' | h'
      · exact absurd h' (by decide)
      · exact h.application.dot h'
    rw [splitDomain_labels hf (by simpa using happ) hprot hdom hlabels h.protocol fun l hl => List.mem_singleton.mp hl ▸ ⟨h.application, hsame⟩,
      Option.bind_some]
    simp only [hsub, Option.map_some, h.domain_separators,
      removeSeparators_underscore h.application.dot h.application_trimmed]

end

/-- `toLowerCase` of a text of Latin letters. -/
def asciiLower (t : Text) : Text := t.map asciiLowerChar

theorem folds_asciiLower : Folds (· < 128) asciiLowerChar asciiLower := by
  refine ⟨fun _ _ => rfl, fun c => ?_, fun c => ?_, fun c hc => ⟨hc, rfl⟩, fun c => ?_, fun c => ?_⟩ <;>
    simp only [asciiLowerChar, dot, underscore] <;> grind

/-- A loudspeaker. -/
def speaker : Fields := ⟨text "local", text "tcp", text "RAOP", text "Kitchen 1", text "Audio"⟩

theorem typeFormed_speaker : TypeFormed speaker where
  application_ne := by decide
  application := ⟨by decide, by decide⟩
  application_trimmed := by simp [Trimmed, speaker, text]
  protocol_ne := by decide
  protocol := ⟨by decide, by decide⟩
  domain := by decide
  domain_separators := by decide

theorem decode_qualifiedName_speaker :
    decodeQualifiedNameMapForType asciiLower (text "Kitchen 1._RAOP._tcp.local.") =
      some { speaker with subtype := [] } :=
  (decode_qualifiedName folds_asciiLower (by decide +kernel) typeFormed_speaker (by decide) (by decide) (by decide)
    ⟨by decide +kernel, by decide +kernel⟩).1.trans (by decide +kernel)

section

variable {S : UInt16 → Prop} {f : UInt16 → UInt16} {lower : Text → Text} (hf : Folds S f lower) {q : Fields}

include hf

/-- A subtype as types are made of it. -/
structure SubtypeFormed (lower : Text → Text) (q : Fields) : Prop where
  ne : q.subtype ≠ []
  plain : Plain q.subtype
  trimmed : Trimmed (lower q.subtype)
  notServices : ¬ text "services" <+: lower q.subtype

omit hf in
theorem getTypeWithSubtype_eq (h : TypeFormed q) (hs : q.subtype ≠ []) : q.getTypeWithSubtype lower =
    labels [lower q.subtype, text "sub", q.application] ++
      (underscore :: q.protocol ++ [dot] ++ (q.domain ++ [dot])) := by
  rw [Fields.getTypeWithSubtype, if_pos (List.length_pos_iff.mpr hs), h.getType, ← List.append_assoc]
  refine congrArg (· ++ _) ?_
  have hsub : text "._sub." = dot :: underscore :: text "sub" ++ [dot] := by decide
  simp only [hsub, labels, List.flatMap_cons, List.flatMap_nil, List.append_nil, List.append_assoc,
    List.cons_append, List.nil_append]

omit hf in
theorem labels_subtype (sub app : Text) : labels [sub, text "sub", app] =
    underscore :: sub ++ (text "._sub" ++ dot :: underscore :: app) ++ [dot] := by
  have hcons : text "._sub" = dot :: underscore :: text "sub" := by decide
  simp only [hcons, labels, List.flatMap_cons, List.flatMap_nil, List.append_nil, List.append_assoc,
    List.cons_append, List.nil_append]

theorem over_subtypeLabels {sub app : Text} (hsub : Over S sub) (happ : Over S app) :
    ∀ l ∈ [sub, text "sub", app], Over S l := by
  have hotext : Over S (text "sub") := hf.over_ascii (by decide)
  simp only [List.forall_mem_cons, hsub, hotext, happ, List.not_mem_nil, false_imp_iff, implies_true, and_self]

theorem over_typeWithSubtype (htype : Over S q.getType) (hosub : Over S q.subtype) (h : TypeFormed q)
    (hs : q.subtype ≠ []) : Over S (q.getTypeWithSubtype lower) := by
  rw [getTypeWithSubtype_eq h hs]
  have hols : ∀ l ∈ [lower q.subtype, text "sub", q.application], Over S l :=
    over_subtypeLabels hf (hf.over hosub) (h.over htype).1
  exact over_append.mpr ⟨over_labels hf hols, (over_append.mp (h.getType ▸ htype)).2⟩

-- The subtype stands first, so only a subtype that starts with `services` is read as a browse name.
theorem splitInstance_typeWithSubtype (htype : Over S q.getType) (hosub : Over S q.subtype)
    (h : TypeFormed q) (hs : SubtypeFormed lower q) :
    splitInstance lower (q.getTypeWithSubtype lower) =
      some ([], lower (q.getTypeWithSubtype lower), q.getTypeWithSubtype lower) := by
  have hover : Over S (q.getTypeWithSubtype lower) := over_typeWithSubtype hf htype hosub h hs.ne
  obtain ⟨rest, hrest⟩ : ∃ rest, q.getTypeWithSubtype lower =
      underscore :: (lower q.subtype ++ dot :: rest) := by
    rw [getTypeWithSubtype_eq h hs.ne, labels_subtype]
    exact ⟨_, by simp only [List.append_assoc, List.cons_append]; rfl⟩
  rw [hrest]
  have hrestOver : Over S (lower q.subtype ++ dot :: rest) := (over_cons.mp (hrest ▸ hover)).2
  refine splitInstance_type hf hrestOver fun hpre => hs.notServices ?_
  have hservices : text "_services" = underscore :: text "services" := by decide
  rw [hservices, hf.cons_underscore hrestOver, hf.append (hf.over hosub) (over_append.mp hrestOver).2,
    hf.lower_lower hosub, hf.cons_dot (over_cons.mp (over_append.mp hrestOver).2).2,
    List.cons_prefix_cons] at hpre
  exact isPrefix_of_notMem (by decide) hpre.2

/-- **The type of a service with a subtype is taken apart into what it was made from**, with the subtype
in lower case. The key of its entries is the one of the type without the subtype. -/
theorem decode_typeWithSubtype (htype : Over S q.getType) (hosub : Over S q.subtype) (h : TypeFormed q)
    (hs : SubtypeFormed lower q) (happ : lower q.application ≠ lower q.protocol)
    (hprot : lower q.subtype ≠ lower q.protocol) (hprot' : lower q.protocol ≠ text "sub")
    (hrev : NotReverse lower (q.getTypeWithSubtype lower)) :
    decodeQualifiedNameMapForType lower (q.getTypeWithSubtype lower) =
        some { q with inst := [], subtype := lower q.subtype } ∧
      Fields.entryKey lower { q with inst := [], subtype := lower q.subtype } = lower q.getType := by
  refine ⟨?_, by rw [Fields.entryKey, hf.nil]; rfl⟩
  have hsub : lower (text "sub") = text "sub" := hf.ascii_text (by decide)
  have hplain : Plain (text "sub") := ⟨by decide, by decide⟩
  have hplain' : Plain (lower q.subtype) := hs.plain.folded hf hosub
  obtain ⟨hoapp, hoprot, hodom⟩ := h.over htype
  have holow : Over S (lower q.subtype) := hf.over hosub
  have hols : ∀ l ∈ [lower q.subtype, text "sub", q.application], Over S l := over_subtypeLabels hf holow hoapp
  have hoapp' : Over S (dot :: underscore :: q.application) :=
    over_cons.mpr ⟨hf.of_dot.1, over_cons.mpr ⟨hf.of_underscore.1, hoapp⟩⟩
  have hname : q.getTypeWithSubtype lower = labels [lower q.subtype, text "sub", q.application] ++
      (underscore :: q.protocol ++ [dot] ++ (q.domain ++ [dot])) := getTypeWithSubtype_eq h hs.ne
  have hlabels := labels_subtype (lower q.subtype) q.application
  have hover : Over S (q.getTypeWithSubtype lower) := over_typeWithSubtype hf htype hosub h hs.ne
  have hmem : underscore ∈ q.getTypeWithSubtype lower := by
    rw [hname, hlabels]
    simp
  have hproto : protocolOf (lower (q.getTypeWithSubtype lower)) (q.getTypeWithSubtype lower) =
      some q.protocol := by
    rw [hname]
    exact protocolOf_labels hf hols hoprot hodom hlabels (List.cons_ne_nil _ _) h.protocol h.domain
  rw [decode_eq hf hrev hmem hover (splitInstance_typeWithSubtype hf htype hosub h hs) hproto h.protocol_ne,
    hname, splitDomain_labels hf hols hoprot hodom hlabels h.protocol, Option.bind_some]
  · simp only [splitSubtype_append hf holow hoapp' hplain'.dot hs.trimmed, Option.map_some, h.domain_separators]
    rw [removeSeparators_dot h.application.dot (trimmed_cons (by decide) h.application_trimmed)]
  · intro l hl
    simp only [List.mem_cons, List.not_mem_nil, or_false] at hl
    rcases hl with rfl | rfl | rfl
    · exact ⟨hplain', by rwa [hf.lower_lower hosub]⟩
    · exact ⟨hplain, by rwa [hsub, ne_comm]⟩
    · exact ⟨h.application, happ⟩

end

theorem decode_typeWithSubtype_speaker :
    decodeQualifiedNameMapForType asciiLower (text "_audio._sub._RAOP._tcp.local.") =
      some { speaker with inst := [], subtype := text "audio" } :=
  (decode_typeWithSubtype folds_asciiLower (by decide +kernel) (by decide +kernel) typeFormed_speaker
    ⟨by decide, ⟨by decide, by decide⟩, by simp [Trimmed, speaker, text, asciiLower, asciiLowerChar],
      by decide +kernel⟩
    (by decide) (by decide) (by decide) ⟨by decide +kernel, by decide +kernel⟩).1.trans
      (by decide +kernel)

end Waveplay.Jmdns.QualifiedName
