import Waveplay.Lib.Bits
import Waveplay.Lib.Overwrite
import Waveplay.Lib.Tagged
import Waveplay.RaopPlay.AexclLib

/-! # `raopcl_set_content`: the names of a song

The title, the artist and the album of a song are put into a buffer of `512` bytes as tagged items inside an
item `mlit`. Each position is a sum of its own; some of them use the size of a pointer where the others use
the length of a tag, which are the same where pointers have four bytes.

* `raopclSetContent_eq`: the bytes passed on.
* `content_parses`: the items that they are. -/

namespace Waveplay.RaopPlay.Dmap

open Waveplay.Lib.Bits (mask_shiftRight)
open Waveplay.Lib.Overwrite Waveplay.Lib.Tagged Waveplay.RaopPlay.AexclLib

/-! ### The code -/

/-- A string: the bytes before its terminating zero. -/
structure CString where
  bytes : Bytes
  nulFree : 0 ∉ bytes

def CString.strlen (s : CString) : ℕ := s.bytes.length

def commands : Fin 4 → Bytes
  | 0 => ascii "mlit"
  | 1 => ascii "minm"
  | 2 => ascii "asar"
  | 3 => ascii "asal"

/-- `strlen(commands[i])` -/
def strlen (i : Fin 4) : ℕ := (commands i).length

/-- `sizeof(size)` -/
def sizeofSize : ℕ := 4

/-- The bytes of `size`. -/
def sizeBytes (theSize : ℕ) : Bytes :=
  [(theSize &&& 0xFF000000) >>> 24, (theSize &&& 0x00FF0000) >>> 16, (theSize &&& 0x0000FF00) >>> 8,
    theSize &&& 0x000000FF].map UInt8.ofNat

/-- The copies that make an item: the tag, the size and the string. -/
def putItem (a : Bytes) (i : Fin 4) (data : CString) (atTag atSize atData : ℕ) : Option Bytes := do
  let a ← overwrite a atTag (commands i)
  let a ← overwrite a atSize (sizeBytes (data.strlen + 1))
  overwrite a atData data.bytes

/-- **`raopcl_set_content`**, where pointers have `sizeofPtr` bytes: the buffer and the number of its bytes
that are passed to `rtspcl_set_daap`; `none` if it writes behind the buffer. -/
def raopclSetContent (sizeofPtr : ℕ) (itemname songartist songalbum : CString) : Option (Bytes × ℕ) := do
  let totalSize := strlen 1 + sizeofSize + itemname.strlen + 1 + strlen 2 + sizeofSize + songartist.strlen + 1 +
    strlen 3 + sizeofSize + songalbum.strlen + 1
  let a ← overwrite (List.replicate 512 0) 0 (commands 0)
  let a ← overwrite a (strlen 0) (sizeBytes totalSize)
  let a ← putItem a 1 itemname (strlen 0 + sizeofSize) (strlen 0 + sizeofSize + strlen 1)
    (strlen 0 + sizeofSize + strlen 1 + sizeofSize)
  let a ← putItem a 2 songartist (sizeofPtr + sizeofSize + sizeofPtr + sizeofSize + itemname.strlen + 1)
    (strlen 0 + sizeofSize + strlen 1 + sizeofSize + itemname.strlen + 1 + strlen 2)
    (strlen 0 + sizeofSize + strlen 1 + sizeofSize + itemname.strlen + 1 + strlen 2 + sizeofSize)
  let a ← putItem a 3 songalbum
    (strlen 0 + sizeofSize + strlen 1 + sizeofSize + itemname.strlen + 1 + sizeofPtr + sizeofSize +
      songartist.strlen + 1)
    (strlen 0 + sizeofSize + strlen 1 + sizeofSize + itemname.strlen + 1 + strlen 2 + sizeofSize +
      songartist.strlen + 1 + strlen 3)
    (strlen 0 + sizeofSize + strlen 1 + sizeofSize + itemname.strlen + 1 + strlen 2 + sizeofSize +
      songartist.strlen + 1 + strlen 3 + sizeofSize)
  return (a, totalSize + (strlen 0 + sizeofSize))

/-! ### Copies -/

theorem length_commands (i : Fin 4) : (commands i).length = 4 := by
  revert i
  decide +kernel

theorem strlen_eq (i : Fin 4) : strlen i = 4 := length_commands i

theorem ofNat_masked (n k : ℕ) : UInt8.ofNat ((n &&& 0xFF <<< k) >>> k) = UInt8.ofNat (n / 2 ^ k) := by
  have hmask : (n &&& 0xFF <<< k) >>> k = n / 2 ^ k % 2 ^ 8 := mask_shiftRight n k 8
  rw [← UInt8.toNat_inj, UInt8.toNat_ofNat', UInt8.toNat_ofNat', hmask, Nat.mod_mod]

theorem sizeBytes_eq (n : ℕ) : sizeBytes n = fourBytes n := by
  have h24 : UInt8.ofNat ((n &&& 0xFF000000) >>> 24) = UInt8.ofNat (n / 2 ^ 24) := ofNat_masked n 24
  have h16 : UInt8.ofNat ((n &&& 0x00FF0000) >>> 16) = UInt8.ofNat (n / 2 ^ 16) := ofNat_masked n 16
  have h8 : UInt8.ofNat ((n &&& 0x0000FF00) >>> 8) = UInt8.ofNat (n / 2 ^ 8) := ofNat_masked n 8
  have h0 : UInt8.ofNat (n &&& 0x000000FF) = UInt8.ofNat (n / 2 ^ 0) := ofNat_masked n 0
  simp only [sizeBytes, fourBytes, List.map_cons, List.map_nil, h24, h16, h8, h0, Nat.pow_zero, Nat.div_one]

/-- An item up to the zero that ends its string. -/
def itemBytes (i : Fin 4) (data : CString) : Bytes :=
  commands i ++ fourBytes (data.strlen + 1) ++ data.bytes

theorem length_itemBytes (i : Fin 4) (data : CString) : (itemBytes i data).length = 8 + data.strlen := by
  rw [itemBytes, List.length_append, List.length_append, length_commands]
  rfl

/-- The item is put behind a prefix, with a gap of `k`, if its parts go one after the other. -/
theorem putItem_padded {p : Bytes} {i : Fin 4} {data : CString} {k atTag atSize atData : ℕ}
    (htag : atTag = p.length + k) (hsize : atSize = atTag + 4) (hdata : atData = atSize + 4)
    (hroom : atData + data.strlen ≤ 512) :
    putItem (padded 512 0 p) i data atTag atSize atData =
      some (padded 512 0 (p ++ List.replicate k 0 ++ itemBytes i data)) := by
  have hcommand := length_commands i
  have hfour := length_fourBytes (data.strlen + 1)
  have hbytes : data.bytes.length = data.strlen := rfl
  simp only [putItem, sizeBytes_eq]
  rw [overwrite_padded htag (by omega), Option.bind_eq_bind, Option.bind_some,
    overwrite_padded (k := 0) (by simp only [List.length_append, List.length_replicate]; omega) (by omega),
    Option.bind_some,
    overwrite_padded (k := 0) (by simp only [List.length_append, List.length_replicate]; omega) (by omega)]
  simp only [itemBytes, List.replicate_zero, List.append_nil, List.append_assoc]

theorem length_putItem {a a' : Bytes} {i : Fin 4} {data : CString} {atTag atSize atData : ℕ}
    (h : putItem a i data atTag atSize atData = some a') : a'.length = a.length := by
  simp only [putItem, Option.bind_eq_bind, Option.bind_eq_some_iff] at h
  obtain ⟨a₁, h₁, a₂, h₂, h₃⟩ := h
  rw [length_overwrite h₃, length_overwrite h₂, length_overwrite h₁]

theorem length_raopclSetContent {sizeofPtr : ℕ} {itemname songartist songalbum : CString} {a : Bytes}
    {totalSize : ℕ} (h : raopclSetContent sizeofPtr itemname songartist songalbum = some (a, totalSize)) :
    a.length = 512 := by
  simp only [raopclSetContent, Option.bind_eq_bind, Option.bind_eq_some_iff, Option.pure_def,
    Option.some.injEq, Prod.mk.injEq] at h
  obtain ⟨a₁, h₁, a₂, h₂, a₃, h₃, a₄, h₄, a₅, h₅, rfl, -⟩ := h
  rw [length_putItem h₅, length_putItem h₄, length_putItem h₃, length_overwrite h₂,
    length_overwrite h₁, List.length_replicate]

/-! ### The buffer -/

section

variable (itemname songartist songalbum : CString)

/-- The items inside. -/
def items : List Item :=
  [⟨commands 1, itemname.bytes ++ [0]⟩, ⟨commands 2, songartist.bytes ++ [0]⟩,
    ⟨commands 3, songalbum.bytes ++ [0]⟩]

/-- The size of all the items. -/
def innerSize : ℕ := 27 + itemname.strlen + songartist.strlen + songalbum.strlen

theorem encode_item (i : Fin 4) (data : CString) :
    Item.encode ⟨commands i, data.bytes ++ [0]⟩ = itemBytes i data ++ [0] := by
  simp only [Item.encode, itemBytes, List.length_append, List.length_singleton, List.append_assoc]
  rfl

theorem flatMap_items : (items itemname songartist songalbum).flatMap Item.encode =
    itemBytes 1 itemname ++ [0] ++ itemBytes 2 songartist ++ [0] ++ itemBytes 3 songalbum ++ [0] := by
  simp only [items, List.flatMap_cons, List.flatMap_nil, List.append_nil, encode_item, List.append_assoc]

theorem length_flatMap_items : ((items itemname songartist songalbum).flatMap Item.encode).length =
    innerSize itemname songartist songalbum := by
  rw [flatMap_items]
  simp only [List.length_append, length_itemBytes, List.length_singleton, innerSize]
  omega

/-- The item around them. -/
def mlit : Item := ⟨commands 0, (items itemname songartist songalbum).flatMap Item.encode⟩

/-- **What is passed on**, where pointers have four bytes. -/
theorem raopclSetContent_eq (hfits : 35 + itemname.strlen + songartist.strlen + songalbum.strlen ≤ 512) :
    ∃ a totalSize, raopclSetContent 4 itemname songartist songalbum = some (a, totalSize) ∧
      a.length = 512 ∧ totalSize ≤ 512 ∧ a.take totalSize = (mlit itemname songartist songalbum).encode := by
  have hempty : List.replicate 512 0 = padded 512 (0 : UInt8) [] := rfl
  have hinner : 4 + 4 + itemname.strlen + 1 + 4 + 4 + songartist.strlen + 1 + 4 + 4 + songalbum.strlen + 1 =
      innerSize itemname songartist songalbum := by
    unfold innerSize
    omega
  have hcommand := length_commands 0
  have hfour := length_fourBytes (innerSize itemname songartist songalbum)
  have hitem := length_itemBytes 1 itemname
  have hartist := length_itemBytes 2 songartist
  have halbum := length_itemBytes 3 songalbum
  simp only [raopclSetContent, strlen_eq, sizeofSize, sizeBytes_eq]
  rw [hinner, hempty, overwrite_padded (k := 0) (by rfl) (by omega), Option.bind_eq_bind, Option.bind_some,
    overwrite_padded (k := 0) (by simp only [List.length_append, List.length_replicate, List.length_nil]; omega) (by omega),
    Option.bind_some,
    putItem_padded (k := 0) (by simp only [List.length_append, List.length_replicate, List.length_nil]; omega) (by rfl) (by rfl)
      (by omega),
    Option.bind_some,
    putItem_padded (k := 1) (by simp only [List.length_append, List.length_replicate, List.length_nil]; omega) (by rfl) (by rfl)
      (by omega),
    Option.bind_some,
    putItem_padded (k := 1) (by simp only [List.length_append, List.length_replicate, List.length_nil]; omega) (by rfl) (by rfl)
      (by omega),
    Option.bind_some]
  have hsize : innerSize itemname songartist songalbum + (4 + 4) =
      35 + itemname.strlen + songartist.strlen + songalbum.strlen := by
    unfold innerSize
    omega
  simp only [List.nil_append, List.replicate_zero, List.append_nil, List.replicate_one]
  set p := commands 0 ++ fourBytes (innerSize itemname songartist songalbum) ++ itemBytes 1 itemname ++ [0] ++
    itemBytes 2 songartist ++ [0] ++ itemBytes 3 songalbum with hp
  have hlength : p.length + 1 = 35 + itemname.strlen + songartist.strlen + songalbum.strlen := by
    simp only [hp, List.length_append, List.length_singleton]
    omega
  refine ⟨_, _, rfl, length_padded (by omega), by omega, ?_⟩
  rw [hsize, ← hlength, take_padded (by omega), Item.encode, mlit, length_flatMap_items, flatMap_items, hp]
  simp only [List.append_assoc, List.replicate_one]

theorem valid_items (hfits : 35 + itemname.strlen + songartist.strlen + songalbum.strlen ≤ 512) :
    ∀ i ∈ items itemname songartist songalbum, i.Valid := by
  have hvalid (i : Fin 4) (data : CString) (h : data.strlen ≤ 512) :
      Item.Valid ⟨commands i, data.bytes ++ [0]⟩ := by
    refine ⟨length_commands i, ?_⟩
    have hbytes : data.bytes.length = data.strlen := rfl
    rw [List.length_append, List.length_singleton]
    omega
  intro i hi
  simp only [items, List.mem_cons, List.not_mem_nil, or_false] at hi
  rcases hi with rfl | rfl | rfl <;> exact hvalid _ _ (by omega)

/-- **Round trip**: what is passed to `rtspcl_set_daap` is one item `mlit` and nothing after it, its size is
the number of the bytes that follow it, and these are the items of the title, the artist and the album, each
a string with its zero. -/
theorem content_parses (hfits : 35 + itemname.strlen + songartist.strlen + songalbum.strlen ≤ 512) :
    ∃ a totalSize inner, raopclSetContent 4 itemname songartist songalbum = some (a, totalSize) ∧
      totalSize ≤ a.length ∧
      a.take totalSize = ascii "mlit" ++ fourBytes inner.length ++ inner ∧
      parseAll (a.take totalSize) = some [⟨ascii "mlit", inner⟩] ∧
      parseAll inner = some [⟨ascii "minm", itemname.bytes ++ [0]⟩, ⟨ascii "asar", songartist.bytes ++ [0]⟩,
        ⟨ascii "asal", songalbum.bytes ++ [0]⟩] := by
  obtain ⟨a, totalSize, hcontent, hlength, htotal, htake⟩ :=
    raopclSetContent_eq itemname songartist songalbum hfits
  have hmlit : (mlit itemname songartist songalbum).Valid := by
    refine ⟨length_commands 0, ?_⟩
    rw [mlit, length_flatMap_items, innerSize]
    omega
  refine ⟨a, totalSize, _, hcontent, by omega, htake, ?_,
    parseAll_encode (valid_items itemname songartist songalbum hfits)⟩
  have hvalid : ∀ i ∈ [mlit itemname songartist songalbum], i.Valid :=
    fun i hi => List.mem_singleton.mp hi ▸ hmlit
  have hone := parseAll_encode hvalid
  rwa [List.flatMap_singleton, ← htake] at hone

end

/-- A title, no artist, an album. -/
theorem content_parses_short : ∃ a totalSize inner,
    raopclSetContent 4 ⟨ascii "A", by decide⟩ ⟨[], by decide⟩ ⟨ascii "Bc", by decide⟩ = some (a, totalSize) ∧
      parseAll (a.take totalSize) = some [⟨ascii "mlit", inner⟩] := by
  obtain ⟨a, totalSize, inner, hcontent, -, -, hparse, -⟩ :=
    content_parses ⟨ascii "A", by decide⟩ ⟨[], by decide⟩ ⟨ascii "Bc", by decide⟩ (by decide)
  exact ⟨a, totalSize, inner, hcontent, hparse⟩

end Waveplay.RaopPlay.Dmap
