import Mathlib.Algebra.Group.Nat.Defs
import Mathlib.Data.List.Basic
import Mathlib.Tactic.Common

/-! # Tagged items

An item is a tag of four bytes, the size of its contents in four bytes, the most significant first, and the
contents, which can be items again. `parseAll` reads the items of a byte string, which has to end with the
last of them; it gives back any items that were written (`parseAll_encode`). -/

namespace Waveplay.Lib.Tagged

structure Item where
  tag : List UInt8
  contents : List UInt8
  deriving DecidableEq, Repr

/-! ### Sizes -/

/-- The number that bytes denote, the most significant first. -/
def ofBytes (l : List UInt8) : ℕ := l.foldl (fun n b => 256 * n + b.toNat) 0

/-- A number in four bytes. -/
def fourBytes (n : ℕ) : List UInt8 :=
  [UInt8.ofNat (n / 2 ^ 24), UInt8.ofNat (n / 2 ^ 16), UInt8.ofNat (n / 2 ^ 8), UInt8.ofNat n]

theorem length_fourBytes (n : ℕ) : (fourBytes n).length = 4 := rfl

theorem ofBytes_fourBytes {n : ℕ} (h : n < 2 ^ 32) : ofBytes (fourBytes n) = n := by
  simp only [ofBytes, fourBytes, List.foldl_cons, List.foldl_nil, UInt8.toNat_ofNat']
  omega

/-! ### Items -/

def Item.encode (i : Item) : List UInt8 := i.tag ++ fourBytes i.contents.length ++ i.contents

/-- An item that can be written. -/
structure Item.Valid (i : Item) : Prop where
  tag : i.tag.length = 4
  size : i.contents.length < 2 ^ 32

/-- Take an item off a byte string. -/
def parseItem (l : List UInt8) : Option (Item × List UInt8) :=
  if l.length < 8 then none
  else
    let size := ofBytes ((l.drop 4).take 4)
    let rest := l.drop 8
    if rest.length < size then none else some (⟨l.take 4, rest.take size⟩, rest.drop size)

/-- The items of a byte string, `k` of them at most. -/
def parse : ℕ → List UInt8 → Option (List Item)
  | _, [] => some []
  | 0, _ :: _ => none
  | k + 1, l@(_ :: _) => (parseItem l).bind fun (i, rest) => (parse k rest).map (i :: ·)

/-- The items of a byte string. -/
def parseAll (l : List UInt8) : Option (List Item) := parse l.length l

theorem length_encode {i : Item} (h : i.Valid) : i.encode.length = 8 + i.contents.length := by
  rw [Item.encode, List.length_append, List.length_append, h.tag]
  rfl

theorem parseItem_encode {i : Item} (h : i.Valid) (rest : List UInt8) :
    parseItem (i.encode ++ rest) = some (i, rest) := by
  have hlength : 8 ≤ (i.encode ++ rest).length := by
    rw [List.length_append, length_encode h]
    omega
  have htag : (i.encode ++ rest).take 4 = i.tag := by
    rw [Item.encode, List.append_assoc, List.append_assoc]
    exact List.take_left' h.tag
  have hsize : ((i.encode ++ rest).drop 4).take 4 = fourBytes i.contents.length := by
    rw [Item.encode, List.append_assoc, List.append_assoc, List.drop_left' h.tag]
    exact List.take_left' rfl
  have hrest : (i.encode ++ rest).drop 8 = i.contents ++ rest := by
    rw [Item.encode, List.append_assoc]
    refine List.drop_left' ?_
    rw [List.length_append, h.tag]
    rfl
  rw [parseItem, if_neg (by omega)]
  dsimp only
  rw [htag, hsize, hrest, ofBytes_fourBytes h.size, if_neg (by rw [List.length_append]; omega),
    List.take_left, List.drop_left]

theorem parse_encode : ∀ {items : List Item} {k : ℕ}, (∀ i ∈ items, i.Valid) →
    (items.flatMap Item.encode).length ≤ k → parse k (items.flatMap Item.encode) = some items
  | [], k, _, _ => by
    rw [List.flatMap_nil]
    exact parse.eq_1 k
  | i :: items, k, h, hk => by
    have hi := h i List.mem_cons_self
    have hlength := length_encode hi
    rw [List.flatMap_cons, List.length_append] at hk
    obtain ⟨k, rfl⟩ : ∃ m, k = m + 1 := ⟨k - 1, by omega⟩
    obtain ⟨b, bs, hbs⟩ : ∃ b bs, i.encode ++ items.flatMap Item.encode = b :: bs := by
      refine List.exists_cons_of_length_pos ?_
      rw [List.length_append]
      omega
    have hitems : parse k (items.flatMap Item.encode) = some items :=
      parse_encode (fun j hj => h j (List.mem_cons_of_mem i hj)) (by omega)
    rw [List.flatMap_cons, hbs, parse, ← hbs, parseItem_encode hi, Option.bind_some]
    dsimp only
    rw [hitems, Option.map_some]

/-- **Round trip.** -/
theorem parseAll_encode {items : List Item} (h : ∀ i ∈ items, i.Valid) :
    parseAll (items.flatMap Item.encode) = some items :=
  parse_encode h (Nat.le_refl _)

end Waveplay.Lib.Tagged
