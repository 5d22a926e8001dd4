import Jsregexp.Libregexp.Opcode

/-! Character sets and string lists: the range operations of libunicode.c and the first part of
libregexp.c. -/

namespace Jsregexp

def uint32Max : ℕ := 2 ^ 32 - 1

/-- What the compiler asks of the Unicode tables; a name that is not known has no set. `stringOrder` is the order
in which the strings of a list come out of its hash table and the sort by length. -/
structure Libunicode where
  lreCanonicalize : ℕ → Bool → ℕ
  crRegexpCanonicalize : List ℕ → Bool → List ℕ
  lreIsIdStart : ℕ → Bool
  lreIsIdContinue : ℕ → Bool
  unicodeScript : Bytes → Bool → Option (List ℕ)
  unicodeGeneralCategory : Bytes → Option (List ℕ)
  unicodeProp : Bytes → Option (List ℕ)
  unicodeSequenceProp : Bytes → Option (List (List ℕ))
  stringOrder : List (List ℕ) → List (List ℕ)

inductive CrOp
  | union
  | inter
  | sub
  deriving DecidableEq, Repr

def CrOp.isIn : CrOp → Bool → Bool → Bool
  | .union, a, b => a || b
  | .inter, a, b => a && b
  | .sub, a, b => a && !b

def crCompressFrom : Option (ℕ × ℕ) → List ℕ → List ℕ
  | none, x :: y :: pt => if x = y then crCompressFrom none pt else crCompressFrom (some (x, y)) pt
  | some (x, y), z :: w :: pt =>
    if y = z then crCompressFrom (some (x, w)) pt
    else x :: y :: (if z = w then crCompressFrom none pt else crCompressFrom (some (z, w)) pt)
  | none, _ => []
  | some (x, y), _ => [x, y]

def crCompress (pt : List ℕ) : List ℕ := crCompressFrom none pt

/-- The loop of `cr_op`: the points that are left, whether an odd number of them has been read of each list,
and the points that were added. -/
def crOpLoop (op : CrOp) : ℕ → List ℕ → List ℕ → Bool → Bool → List ℕ → List ℕ
  | 0, _, _, _, _, cr => cr
  | n + 1, aPt, bPt, aIn, bIn, cr =>
    let add (v : ℕ) (aIn bIn : Bool) : List ℕ :=
      if op.isIn aIn bIn = decide (cr.length % 2 = 1) then cr else cr ++ [v]
    match aPt, bPt with
    | a :: aPt', b :: bPt' =>
      if a < b then crOpLoop op n aPt' bPt (!aIn) bIn (add a (!aIn) bIn)
      else if a = b then crOpLoop op n aPt' bPt' (!aIn) (!bIn) (add a (!aIn) (!bIn))
      else crOpLoop op n aPt bPt' aIn (!bIn) (add b aIn (!bIn))
    | a :: aPt', [] => crOpLoop op n aPt' [] (!aIn) bIn (add a (!aIn) bIn)
    | [], b :: bPt' => crOpLoop op n [] bPt' aIn (!bIn) (add b aIn (!bIn))
    | [], [] => cr

def crOp1 (cr bPt : List ℕ) (op : CrOp) : List ℕ :=
  crCompress (crOpLoop op (cr.length + bPt.length) cr bPt false false [])

def crInvert (cr : List ℕ) : List ℕ := crCompress (0 :: cr ++ [uint32Max])

def crUnionInterval (cr : List ℕ) (c1 c2 : ℕ) : List ℕ := crOp1 cr [c1, (c2 + 1) % 2 ^ 32] .union

/-- A set of characters and strings; the hash table is a list without repetitions. -/
structure REStringList where
  cr : List ℕ
  strings : List (List ℕ)
  deriving DecidableEq, Repr

def REStringList.init : REStringList := ⟨[], []⟩

def reStringAdd (s : REStringList) (str : List ℕ) : REStringList :=
  match str with
  | [c] => { s with cr := crUnionInterval s.cr c c }
  | _ => if str ∈ s.strings then s else { s with strings := s.strings ++ [str] }

def reStringListOp (a b : REStringList) (op : CrOp) : REStringList where
  cr := crOp1 a.cr b.cr op
  strings :=
    match op with
    | .union => b.strings.foldl (fun strs str => if str ∈ strs then strs else strs ++ [str]) a.strings
    | .inter => a.strings.filter (· ∈ b.strings)
    | .sub => a.strings.filter (· ∉ b.strings)

def reStringListCanonicalize (U : Libunicode) (s : REStringList) (isUnicode : Bool) : REStringList :=
  s.strings.foldl (fun s str => reStringAdd s (str.map (U.lreCanonicalize · isUnicode)))
    ⟨U.crRegexpCanonicalize s.cr isUnicode, []⟩

def charRangeD : List ℕ := [0x0030, 0x0039 + 1]

def charRangeS : List ℕ :=
  [0x0009, 0x000D + 1, 0x0020, 0x0020 + 1, 0x00A0, 0x00A0 + 1, 0x1680, 0x1680 + 1, 0x2000, 0x200A + 1,
    0x2028, 0x2029 + 1, 0x202F, 0x202F + 1, 0x205F, 0x205F + 1, 0x3000, 0x3000 + 1, 0xFEFF, 0xFEFF + 1]

def charRangeW : List ℕ :=
  [0x0030, 0x0039 + 1, 0x0041, 0x005A + 1, 0x005F, 0x005F + 1, 0x0061, 0x007A + 1]

def classRangeBase : ℕ := 0x40000000

def charRangeEnum (c : ℕ) : Option ℕ :=
  if c = 'd'.toNat then some 0
  else if c = 'D'.toNat then some 1
  else if c = 's'.toNat then some 2
  else if c = 'S'.toNat then some 3
  else if c = 'w'.toNat then some 4
  else if c = 'W'.toNat then some 5
  else none

def crInitCharRange (c : ℕ) : REStringList :=
  let cr := [charRangeD, charRangeS, charRangeW].getD (c / 2) []
  ⟨if c % 2 = 1 then crInvert cr else cr, []⟩

end Jsregexp
