import Jsregexp.Libregexp.Lexer

namespace Jsregexp

open Library.Iteration

/-- What `get_class_atom` returns: the value `c`, the set it has initialised, and the pointer behind it. -/
structure ClassAtom where
  c : ℕ
  cr : Option REStringList
  p : Bytes
  deriving DecidableEq, Repr

def ClassAtom.set (atom : ClassAtom) : Except Failure REStringList :=
  match atom.cr with
  | some cr => .ok cr
  | none => .error .undefined

section Atom

variable (U : Libunicode) (s : REParseState)

/-- The label `normal_char`. The value -1 that stands for malformed bytes is returned as an error in Unicode
mode, with the text that happens to be in the buffer for the message. -/
def normalChar (c : ℕ) (p : Bytes) : Except Failure ClassAtom :=
  if c ≥ 128 then
    match unicodeFromUtf8 p utf8CharLenMax with
    | some (c, p) => if c > 0xffff ∧ ¬ s.isUnicode then reParseError "malformed unicode char" else .ok ⟨c, none, p⟩
    | none => if s.isUnicode then .error (.raised s.u) else reParseError "malformed unicode char"
  else .ok ⟨c, none, p.tail⟩

def invalidEscape : Except Failure ClassAtom :=
  reParseError "invalid escape sequence in regular expression"

def defaultEscape (p : Bytes) : Except Failure ClassAtom :=
  match lreParseEscape p (if s.isUnicode then 2 else 0) with
  | .char c p => .ok ⟨c, none, p⟩
  | .malformed | .unknown => if s.isUnicode then invalidEscape else normalChar s (peek p 0) p

def controlEscape (p : Bytes) (inclass : Bool) : Except Failure ClassAtom :=
  let c := peek p 1
  if isLowerChar c || isUpperChar c || ((isDigitChar c || c = '_'.toNat) && inclass && !s.isUnicode) then
    .ok ⟨c &&& 0x1f, none, p.drop 2⟩
  else if s.isUnicode then invalidEscape
  else .ok ⟨'\\'.toNat, none, p⟩

/-- The escapes that stand for a set of characters. `crArg` is false where the caller passes no set. -/
def classEscape (stringDisjunction : Bytes → Except Failure (REStringList × Bytes)) (crArg : Bool) (p : Bytes)
    (inclass : Bool) : Option (Except Failure ClassAtom) :=
  let c := peek p 0
  if ¬ crArg then none
  else
    match charRangeEnum c with
    | some i => some (.ok ⟨i + classRangeBase, some (crInitCharRange i), p.tail⟩)
    | none =>
      if oneOf "pP" c && s.isUnicode then
        some do
          let (cr, p) ← parseUnicodeProperty U s p.tail (c = 'P'.toNat) s.unicodeSets
          return ⟨classRangeBase, some cr, p⟩
      else if c = 'q'.toNat ∧ s.unicodeSets ∧ inclass then
        some do
          let (cr, p) ← stringDisjunction p.tail
          return ⟨classRangeBase, some cr, p⟩
      else none

def getClassAtomWith (stringDisjunction : Bytes → Except Failure (REStringList × Bytes)) (crArg : Bool) (p : Bytes)
    (inclass : Bool) : Except Failure ClassAtom :=
  let c := peek p 0
  if c = '\\'.toNat then
    let p := p.tail
    let c := peek p 0
    if p = [] then reParseError "unexpected end"
    else
      match classEscape U s stringDisjunction crArg p inclass with
      | some r => r
      | none =>
        if c = 'c'.toNat then controlEscape s p inclass
        else if c = '-'.toNat then if !inclass && s.isUnicode then invalidEscape else .ok ⟨c, none, p.tail⟩
        else if oneOf "^$\\.*+?()[]\x7b\x7d|/" c then .ok ⟨c, none, p.tail⟩
        else defaultEscape s p
  else if p = [] then reParseError "unexpected end"
  else if oneOf "&!#$%*+,.:;<=>?@^`~" c then
    if s.unicodeSets && peek p 1 = c then reParseError "invalid class set operation in regular expression"
    else normalChar s c p
  else if oneOf "()[]\x7b\x7d/-|" c then
    if s.unicodeSets then reParseError "invalid character in class in regular expression" else normalChar s c p
  else normalChar s c p

def getCharAtom (p : Bytes) : Except Failure ClassAtom :=
  getClassAtomWith U s (fun _ => .error .undefined) false p false

structure StringDisjunctionState where
  str : List ℕ
  cr : REStringList
  p : Bytes

def stringDisjunctionStep (st : StringDisjunctionState) :
    StringDisjunctionState ⊕ Except Failure (REStringList × Bytes) :=
  if peek st.p 0 = '}'.toNat then
    let cr := reStringAdd st.cr st.str
    .inr (.ok (if s.ignoreCase then reStringListCanonicalize U cr true else cr, st.p.tail))
  else if peek st.p 0 = '|'.toNat then .inl ⟨[], reStringAdd st.cr st.str, st.p.tail⟩
  else
    match getCharAtom U s st.p with
    | .error e => .inr (.error e)
    | .ok atom => .inl ⟨st.str ++ [atom.c], st.cr, atom.p⟩

def parseClassStringDisjunction (p : Bytes) : Except Failure (REStringList × Bytes) :=
  if peek p 0 ≠ '{'.toNat then reParseError "expecting '\x7b' after \\q"
  else (run (stringDisjunctionStep U s) (p.length + 1) ⟨[], .init, p.tail⟩).getD (.error .undefined)

def getClassAtom (p : Bytes) (inclass : Bool) : Except Failure ClassAtom :=
  getClassAtomWith U s (parseClassStringDisjunction U s) true p inclass

end Atom

section Class

variable (U : Libunicode) (s : REParseState) (nested : Bytes → Except Failure (REStringList × Bytes))

def classChar (c : ℕ) : ℕ := if s.ignoreCase then U.lreCanonicalize c s.isUnicode else c

def reParseClassSetOperand (p : Bytes) : Except Failure (REStringList × Bytes) :=
  if peek p 0 = '['.toNat then nested p
  else do
    let atom ← getClassAtom U s p true
    if atom.c < classRangeBase then
      return (⟨crUnionInterval [] (classChar U s atom.c) (classChar U s atom.c), []⟩, atom.p)
    else return (← atom.set, atom.p)

structure ClassState where
  cr : REStringList
  p : Bytes
  isFirst : Bool

def classSetStep (op : CrOp) (isOp : Bytes → Bool) (st : REStringList × Bytes) :
    (REStringList × Bytes) ⊕ Except Failure (REStringList × Bytes) :=
  if peek st.2 0 = ']'.toNat then .inr (.ok st)
  else if ¬ isOp st.2 then .inr (reParseError "invalid operation in regular expression")
  else
    match reParseClassSetOperand U s nested (st.2.drop 2) with
    | .error e => .inr (.error e)
    | .ok (cr1, p) => .inl (reStringListOp st.1 cr1 op, p)

def isInterOp (p : Bytes) : Bool := peek p 0 = '&'.toNat && peek p 1 = '&'.toNat && peek p 2 ≠ '&'.toNat
def isSubOp (p : Bytes) : Bool := peek p 0 = '-'.toNat && peek p 1 = '-'.toNat

def classSetOps (cr : REStringList) (p : Bytes) : Except Failure (REStringList × Bytes) :=
  let loop (op : CrOp) (isOp : Bytes → Bool) : Except Failure (REStringList × Bytes) :=
    (run (classSetStep U s nested op isOp) (p.length + 1) (cr, p)).getD (.error .undefined)
  if isInterOp p then loop .inter isInterOp
  else if isSubOp p then loop .sub isSubOp
  else .ok (cr, p)

def classAtom (cr : REStringList) (atom : ClassAtom) : Except Failure REStringList :=
  if atom.c ≥ classRangeBase then do return reStringListOp cr (← atom.set) .union
  else .ok { cr with cr := crUnionInterval cr.cr (classChar U s atom.c) (classChar U s atom.c) }

def classRange (cr : REStringList) (c1 c2 : ℕ) : REStringList :=
  if s.ignoreCase then
    { cr with cr := crOp1 cr.cr (U.crRegexpCanonicalize [c1, c2 + 1] s.isUnicode) .union }
  else { cr with cr := crUnionInterval cr.cr c1 c2 }

def classMember (st : ClassState) : Except Failure ClassState :=
  if peek st.p 0 = '['.toNat ∧ s.unicodeSets then do
    let (cr1, p) ← nested st.p
    return ⟨reStringListOp st.cr cr1 .union, p, st.isFirst⟩
  else do
    let atom ← getClassAtom U s st.p true
    let single : Except Failure ClassState := do return ⟨← classAtom U s st.cr atom, atom.p, st.isFirst⟩
    if peek atom.p 0 = '-'.toNat ∧ peek atom.p 1 ≠ ']'.toNat then
      if peek atom.p 1 = '-'.toNat ∧ s.unicodeSets ∧ st.isFirst then single
      else if atom.c ≥ classRangeBase then
        if s.isUnicode then reParseError "invalid class range" else single
      else
        let atom2 ← getClassAtom U s atom.p.tail true
        if atom2.c ≥ classRangeBase then
          if s.isUnicode then reParseError "invalid class range" else single
        else if atom2.c < atom.c then reParseError "invalid class range"
        else return ⟨classRange U s st.cr atom.c atom2.c, atom2.p, false⟩
    else single

def classTurn (st : ClassState) : Except Failure ClassState := do
  let st ← classMember U s nested st
  if s.unicodeSets && st.isFirst then
    let (cr, p) ← classSetOps U s nested st.cr st.p
    return ⟨cr, p, false⟩
  else return { st with isFirst := false }

def classStep (st : ClassState) : ClassState ⊕ Except Failure (REStringList × Bytes) :=
  if peek st.p 0 = ']'.toNat then .inr (.ok (st.cr, st.p.tail))
  else
    match classTurn U s nested st with
    | .error e => .inr (.error e)
    | .ok st => .inl st

def nestedClass (p : Bytes) : Except Failure (REStringList × Bytes) := do
  let p := p.tail
  let invert : Bool := peek p 0 = '^'.toNat
  let p := if invert then p.tail else p
  let (cr, p) ← (run (classStep U s nested) (p.length + 1) ⟨.init, p, true⟩).getD (.error .undefined)
  if invert then
    if cr.strings ≠ [] then
      reParseError "negated character class with strings in regular expression debugger eval code"
    else return ({ cr with cr := crInvert cr.cr }, p)
  else return (cr, p)

end Class

def reParseNestedClass (U : Libunicode) (s : REParseState) : ℕ → Bytes → Except Failure (REStringList × Bytes)
  | 0, _ => .error .undefined
  | n + 1, p => nestedClass U s (reParseNestedClass U s n) p

end Jsregexp
