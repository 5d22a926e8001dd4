import Jsregexp.Libregexp.CharClass

/-! The code that libregexp.c writes for sets of characters and for quantifiers. Code is written as a list of
operations; an offset is what lies between the end of its operation and its target. -/

namespace Jsregexp

section Set

variable (s : REParseState)

def rangePairs (bound : ℕ) (last : ℕ → ℕ) : List ℕ → List (ℕ × ℕ)
  | a :: b :: pt => (a % bound, last b % bound) :: rangePairs bound last pt
  | _ => []

def reEmitRange (cr : List ℕ) : Except Failure (List Op) :=
  if cr.length / 2 ≥ 65535 then reParseError "too many ranges"
  else if cr.length / 2 = 0 then .ok [.char32 false uint32Max]
  else
    let high := cr.getLastD 0
    let high := if high = uint32Max then cr.getD (cr.length - 2) 0 else high
    if high ≤ 0xffff then
      let last (b : ℕ) : ℕ := if b - 1 = uint32Max - 1 then 0xffff else b - 1
      .ok [.range s.ignoreCase (rangePairs (2 ^ 16) last cr)]
    else .ok [.range32 s.ignoreCase (rangePairs (2 ^ 32) (· - 1) cr)]

def reEmitChar (c : ℕ) : Op :=
  if c ≤ 0xffff then .char s.ignoreCase c else .char32 s.ignoreCase c

/-- The strings of a list, each in front of those behind it; `rest` is the code of the characters and of the
empty string, and `last` says that there is none. -/
def emitStrings (rest : List Op) (last : Bool) : List (List ℕ) → List Op
  | [] => rest
  | str :: strs =>
    let chars := str.map (reEmitChar s)
    if strs = [] ∧ last then chars
    else
      let behind := emitStrings rest last strs
      .split true (codeSize chars + 5) :: chars ++ .goto (codeSize behind) :: behind

def reEmitStringList (U : Libunicode) (sl : REStringList) : Except Failure (List Op) :=
  if sl.strings = [] then reEmitRange s sl.cr
  else do
    let hasEmptyString := sl.strings.any (· = [])
    let tab := U.stringOrder (sl.strings.filter (· ≠ []))
    let rest ← if sl.cr = [] then .ok [] else reEmitRange s sl.cr
    let range := if hasEmptyString && sl.cr ≠ [] then .split true (codeSize rest) :: rest else rest
    return emitStrings s range (!hasEmptyString && sl.cr = []) tab

end Set

section Quantifier

def reNeedCheckAdvAndCaptureInit : List Op → Bool → Bool → Bool × Bool
  | [], checkAdv, captureInit => (checkAdv, captureInit)
  | op :: code, checkAdv, captureInit =>
    match op with
    | .range _ _ | .range32 _ _ | .char _ _ | .char32 _ _ | .dot | .any | .space _ =>
      reNeedCheckAdvAndCaptureInit code false captureInit
    | .lineStart _ | .lineEnd _ | .setI32 _ _ | .setCharPos _ | .wordBoundary _ _ | .prev
    | .saveStart _ | .saveEnd _ | .saveReset _ _ => reNeedCheckAdvAndCaptureInit code checkAdv captureInit
    | .backReference _ _ _ => reNeedCheckAdvAndCaptureInit code checkAdv true
    | .goto _ | .split _ _ | .matched | .lookaheadMatch _ | .loop _ _ | .loopSplit _ _ _ _ _ | .lookahead _ _
    | .checkAdvance _ => (checkAdv, true)

/-- The code of an atom under a quantifier. The captures of the atom are those from `lastCaptureCount` up to
`captureCount`. -/
def quantified (atom : List Op) (lastCaptureCount captureCount quantMin quantMax : ℕ) (greedy : Bool) : List Op :=
  let (addZeroAdvanceCheck, needCaptureInit) := reNeedCheckAdvAndCaptureInit atom true false
  let hasCapture := decide (lastCaptureCount ≠ captureCount)
  let saveReset := Op.saveReset lastCaptureCount (captureCount - 1)
  let atom := if needCaptureInit && hasCapture then saveReset :: atom else atom
  let len : ℤ := codeSize atom
  if quantMin = 0 then
    let reset := if !needCaptureInit && hasCapture then [saveReset] else []
    let charPos := if addZeroAdvanceCheck then [Op.setCharPos 0] else []
    let advance := if addZeroAdvanceCheck then [Op.checkAdvance 0] else []
    let check : ℤ := if addZeroAdvanceCheck then 2 else 0
    if quantMax = 0 then reset
    else if quantMax = 1 then
      reset ++ .split greedy (len + check * 2) :: charPos ++ atom ++ advance
    else if quantMax = int32Max then
      reset ++ .split greedy (len + 5 + check * 2) :: charPos ++ atom ++ advance ++ [.goto (-(5 + check * 2 + len + 5))]
    else
      reset ++ .split greedy (6 + check + len + 10) :: .setI32 0 quantMax :: charPos ++ atom ++
        [.loopSplit addZeroAdvanceCheck (!greedy) 0 quantMax (-(check + len + 10))]
  else if quantMin = 1 ∧ quantMax = int32Max ∧ ¬ addZeroAdvanceCheck then
    atom ++ [.split (!greedy) (-(len + 5))]
  else
    let addZeroAdvanceCheck := addZeroAdvanceCheck && quantMin ≠ quantMax
    let charPos := if addZeroAdvanceCheck then [Op.setCharPos 0] else []
    let check : ℤ := if addZeroAdvanceCheck then 2 else 0
    let loop :=
      if quantMin = quantMax then Op.loop 0 (-(check + len + 6))
      else .loopSplit addZeroAdvanceCheck (!greedy) 0 (quantMax - quantMin) (-(check + len + 10))
    .setI32 0 quantMax :: charPos ++ atom ++ [loop]

structure Quantifier where
  min : ℕ
  max : ℕ
  p : Bytes
  deriving DecidableEq, Repr

def parseQuantifier (isUnicode : Bool) (p : Bytes) : Except Failure (Option Quantifier) :=
  let c := peek p 0
  if c = '*'.toNat then .ok (some ⟨0, int32Max, p.tail⟩)
  else if c = '+'.toNat then .ok (some ⟨1, int32Max, p.tail⟩)
  else if c = '?'.toNat then .ok (some ⟨0, 1, p.tail⟩)
  else if c = '{'.toNat then
    if ¬ isDigitChar (peek p 1) then
      if isUnicode then reParseError "invalid repetition count" else .ok none
    else
      let (quantMin, p1) := (parseDigits true 0 p.tail).getD (0, [])
      let (quantMax, p1) :=
        if peek p1 0 = ','.toNat then
          if isDigitChar (peek p1 1) then (parseDigits true 0 p1.tail).getD (0, []) else (int32Max, p1.tail)
        else (quantMin, p1)
      if quantMax < quantMin then reParseError "invalid repetition count"
      else if peek p1 0 ≠ '}'.toNat ∧ ¬ isUnicode then .ok none
      else do return some ⟨quantMin, quantMax, ← reParseExpect p1 '}'⟩
  else .ok none

end Quantifier

end Jsregexp
