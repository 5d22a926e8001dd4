import Jsregexp.Library.Iteration
import Jsregexp.Libregexp.CharRange
import Jsregexp.Unicode

/-! The readers of libregexp.c for escapes, group names and character classes. A pointer into the pattern is
what is left of the pattern from there on. -/

namespace Jsregexp

open Library.Iteration

/-- `REParseState`, without the code. `u` is the text in the buffer that a group name and the error message
share. -/
structure REParseState where
  bufPtr : Bytes
  bufStart : Bytes
  isUnicode : Bool
  unicodeSets : Bool
  ignoreCase : Bool
  multiLine : Bool
  dotall : Bool
  groupNameScope : UInt8
  captureCount : ℕ
  totalCaptureCount : Option ℕ
  hasNamedCaptures : Option Bool
  groupNames : Bytes
  u : Bytes
  deriving DecidableEq, Repr

def tmpBufSize : ℕ := 128

def int32Max : ℕ := 2 ^ 31 - 1

def reParseError {α : Type} (msg : String) : Except Failure α := .error (.raised (bytesOf msg))

def oneOf (chars : String) (c : ℕ) : Bool := (bytesOf chars).any fun b => b.toNat = c

lemma oneOf_ne {chars : String} {x : ℕ} (h : oneOf chars x = false) {c : Char} (hc : oneOf chars c.toNat = true) :
    x ≠ c.toNat := by
  rintro rfl
  exact absurd h (by simp [hc])

def isDigitChar (c : ℕ) : Bool := '0'.toNat ≤ c && c ≤ '9'.toNat
def isUpperChar (c : ℕ) : Bool := 'A'.toNat ≤ c && c ≤ 'Z'.toNat
def isLowerChar (c : ℕ) : Bool := 'a'.toNat ≤ c && c ≤ 'z'.toNat
def isOctalChar (c : ℕ) : Bool := '0'.toNat ≤ c && c ≤ '7'.toNat

def parseDigits (allowOverflow : Bool) : ℕ → Bytes → Option (ℕ × Bytes)
  | v, [] => some (v, [])
  | v, b :: p =>
    if isDigitChar b.toNat then
      let v := v * 10 + (b.toNat - '0'.toNat)
      if v ≥ int32Max then if allowOverflow then parseDigits allowOverflow int32Max p else none
      else parseDigits allowOverflow v p
    else some (v, b :: p)

def reParseExpect (p : Bytes) (c : Char) : Except Failure Bytes :=
  if peek p 0 = c.toNat then .ok p.tail
  else .error (.raised (bytesOf "expecting '" ++ [byteOf c] ++ bytesOf "'"))

def fromHex (c : ℕ) : Option ℕ :=
  if isDigitChar c then some (c - '0'.toNat)
  else if 'A'.toNat ≤ c && c ≤ 'F'.toNat then some (c - 'A'.toNat + 10)
  else if 'a'.toNat ≤ c && c ≤ 'f'.toNat then some (c - 'a'.toNat + 10)
  else none

def hexDigits : ℕ → ℕ → Bytes → Option (ℕ × Bytes)
  | 0, c, p => some (c, p)
  | n + 1, c, p => do
    let h ← fromHex (peek p 0)
    hexDigits n ((c <<< 4) ||| h) p.tail

def hexBraces : ℕ → Bytes → Option (ℕ × Bytes)
  | _, [] => none
  | c, b :: p => do
    let h ← fromHex b.toNat
    let c := (c <<< 4) ||| h
    if c > 0x10FFFF then none
    else if peek p 0 = '}'.toNat then some (c, p.tail)
    else hexBraces c p

inductive EscapeResult
  | char (c : ℕ) (p : Bytes)
  | malformed
  | unknown
  deriving DecidableEq, Repr

def escapeLetter (c : ℕ) : Option ℕ :=
  if c = 'b'.toNat then some 8
  else if c = 'f'.toNat then some 12
  else if c = 'n'.toNat then some 10
  else if c = 'r'.toNat then some 13
  else if c = 't'.toNat then some 9
  else if c = 'v'.toNat then some 11
  else none

def hexEscape (p : Bytes) : EscapeResult :=
  match hexDigits 2 0 p with
  | some (c, p) => .char c p
  | none => .malformed

/-- What follows `\u`; two escapes that are the halves of a surrogate pair count as one. -/
def unicodeEscape (p : Bytes) (allowUtf16 : ℕ) : EscapeResult :=
  if peek p 0 = '{'.toNat ∧ allowUtf16 ≠ 0 then
    match hexBraces 0 p.tail with
    | some (c, p) => .char c p
    | none => .malformed
  else
    match hexDigits 4 0 p with
    | none => .malformed
    | some (c, p) =>
      if isHiSurrogate c ∧ allowUtf16 = 2 ∧ peek p 0 = '\\'.toNat ∧ peek p 1 = 'u'.toNat then
        match hexDigits 4 0 (p.drop 2) with
        | some (c1, p1) => if isLoSurrogate c1 then .char (fromSurrogate c c1) p1 else .char c p
        | none => .char c p
      else .char c p

def octalEscape (c : ℕ) (p : Bytes) (allowUtf16 : ℕ) : EscapeResult :=
  if allowUtf16 = 2 then if c ≠ 0 ∨ isDigitChar (peek p 0) then .malformed else .char c p
  else if ¬ isOctalChar (peek p 0) then .char c p
  else
    let c := (c <<< 3) ||| (peek p 0 - '0'.toNat)
    let p := p.tail
    if c ≥ 32 ∨ ¬ isOctalChar (peek p 0) then .char c p
    else .char ((c <<< 3) ||| (peek p 0 - '0'.toNat)) p.tail

def lreParseEscape (p : Bytes) (allowUtf16 : ℕ) : EscapeResult :=
  let c := peek p 0
  match escapeLetter c with
  | some v => .char v p.tail
  | none =>
    if c = 'x'.toNat then hexEscape p.tail
    else if c = 'u'.toNat then unicodeEscape p.tail allowUtf16
    else if isOctalChar c then octalEscape (c - '0'.toNat) p.tail allowUtf16
    else .unknown

section GroupName

variable (U : Libunicode)

def lreJsIsIdentFirst (c : ℕ) : Bool :=
  if c < 128 then isUpperChar c || isLowerChar c || oneOf "_$" c else U.lreIsIdStart c

def lreJsIsIdentNext (c : ℕ) : Bool :=
  if c < 128 then isUpperChar c || isLowerChar c || oneOf "_$" c || isDigitChar c
  else (0x200C ≤ c && c ≤ 0x200D) || U.lreIsIdContinue c

def groupNameChar (p : Bytes) : Option (ℕ × Bytes) :=
  let c := peek p 0
  if c = '\\'.toNat then
    if peek p 1 = 'u'.toNat then
      match lreParseEscape p.tail 2 with
      | .char c p => some (c, p)
      | .malformed | .unknown => none
    else none
  else if c ≥ 128 then do
    let (c, p) ← unicodeFromUtf8 p utf8CharLenMax
    if isHiSurrogate c then
      match unicodeFromUtf8 p utf8CharLenMax with
      | some (d, p1) => if isLoSurrogate d then some (fromSurrogate c d, p1) else some (c, p)
      | none => some (c, p)
    else some (c, p)
  else some (c, p.tail)

structure GroupNameState where
  q : Bytes
  p : Bytes

def groupNameStep (s : GroupNameState) : GroupNameState ⊕ Option (Bytes × Bytes) :=
  if peek s.p 0 = '>'.toNat then .inr (if s.q = [] then none else some (s.q, s.p.tail))
  else
    match groupNameChar s.p with
    | none => .inr none
    | some (c, p) =>
      if c > 0x10FFFF then .inr none
      else if ¬ (if s.q = [] then lreJsIsIdentFirst U c else lreJsIsIdentNext U c) then .inr none
      else if s.q.length + utf8CharLenMax + 1 > tmpBufSize then .inr none
      else .inl ⟨s.q ++ (if c < 128 then [UInt8.ofNat c] else unicodeToUtf8 c), p⟩

def reParseGroupName (p : Bytes) : Option (Bytes × Bytes) :=
  (run (groupNameStep U) (p.length + 1) ⟨[], p⟩).getD none

end GroupName

section Property

variable (U : Libunicode) (s : REParseState)

def isUnicodeChar (c : ℕ) : Bool := isDigitChar c || isUpperChar c || isLowerChar c || c = '_'.toNat

def propertyWord (p : Bytes) : Option (Bytes × Bytes) :=
  let word := p.takeWhile fun b => isUnicodeChar b.toNat
  if word.length > 63 then none else some (word, p.drop word.length)

def knownSet (cr : Option (List ℕ)) (msg : String) : Except Failure REStringList :=
  match cr with
  | some cr => .ok ⟨cr, []⟩
  | none => reParseError msg

def propertySet (name value : Bytes) (isInv allowSequenceProp : Bool) : Except Failure REStringList :=
  if name = bytesOf "Script" ∨ name = bytesOf "sc" then knownSet (U.unicodeScript value false) "unknown unicode script"
  else if name = bytesOf "Script_Extensions" ∨ name = bytesOf "scx" then
    knownSet (U.unicodeScript value true) "unknown unicode script"
  else if name = bytesOf "General_Category" ∨ name = bytesOf "gc" then
    knownSet (U.unicodeGeneralCategory value) "unknown unicode general category"
  else if value = [] then
    match U.unicodeGeneralCategory name <|> U.unicodeProp name with
    | some cr => .ok ⟨cr, []⟩
    | none =>
      match if ¬ isInv ∧ allowSequenceProp then U.unicodeSequenceProp name else none with
      | some seqs => .ok (seqs.foldl reStringAdd .init)
      | none => reParseError "unknown unicode property name"
  else reParseError "unknown unicode property name"

def parseUnicodeProperty (p : Bytes) (isInv allowSequenceProp : Bool) : Except Failure (REStringList × Bytes) :=
  if peek p 0 ≠ '{'.toNat then reParseError "expecting '\x7b' after \\p"
  else
    match propertyWord p.tail with
    | none => reParseError "unknown unicode property name"
    | some (name, p) =>
      match if peek p 0 = '='.toNat then propertyWord p.tail else some ([], p) with
      | none => reParseError "unknown unicode property value"
      | some (value, p) =>
        if peek p 0 ≠ '}'.toNat then reParseError "expecting '\x7d'"
        else do
          let cr ← propertySet U name value isInv allowSequenceProp
          let cr := if s.ignoreCase && s.unicodeSets then reStringListCanonicalize U cr s.isUnicode else cr
          let cr := if isInv then { cr with cr := crInvert cr.cr } else cr
          let cr := if s.ignoreCase && !s.unicodeSets then reStringListCanonicalize U cr s.isUnicode else cr
          return (cr, p.tail)

end Property

end Jsregexp
