import Jsregexp.Library.Repetition
import Jsregexp.Libregexp.Backtrack
import Jsregexp.Libregexp.SyntaxTree

/-! What a regular expression matches: the list of the outcomes at a position, the preferred ones first. -/

namespace Jsregexp

open Library.Repetition

structure MatchState where
  cptr : ℕ
  capture : ℕ → Option ℕ

namespace MatchState

def save (σ : MatchState) (slot : ℕ) : MatchState :=
  { σ with capture := Function.update σ.capture slot (some σ.cptr) }

def reset (σ : MatchState) (first count : ℕ) : MatchState :=
  { σ with capture := fun k => if 2 * first ≤ k ∧ k < 2 * (first + count) then none else σ.capture k }

@[simp] lemma save_cptr (σ : MatchState) (slot : ℕ) : (σ.save slot).cptr = σ.cptr := rfl
@[simp] lemma reset_cptr (σ : MatchState) (first count : ℕ) : (σ.reset first count).cptr = σ.cptr := rfl

end MatchState

section Results

variable (U : Libunicode) (s : REExecContext)

def MatchState.over (σ : MatchState) (accepts : ℕ → Bool) : Option MatchState :=
  if σ.cptr ≥ s.cbufEnd then none
  else
    let (c, cptr) := getChar s σ.cptr s.cbufEnd
    if accepts c then some { σ with cptr := cptr } else none

def MatchState.onlyIf (σ : MatchState) (test : Bool) : Option MatchState := if test then some σ else none

def MatchState.refer (σ : MatchState) (backward ignoreCase : Bool) (groups : List ℕ) : Option MatchState :=
  match referredSpan s σ.capture groups with
  | none => none
  | some none => some σ
  | some (some (cptr1Start, cptr1End)) =>
    let cptr :=
      if backward then sameCharsBackward s U ignoreCase cptr1Start (cptr1End + 1) cptr1End σ.cptr
      else sameChars s U ignoreCase cptr1End (cptr1End + 1) cptr1Start σ.cptr
    cptr.map fun cptr => { σ with cptr := cptr }

def charTest : Op → ℕ → Bool
  | .char ignoreCase val, c | .char32 ignoreCase val, c => val = execChar s U ignoreCase c
  | .dot, c => !isLineTerminator c
  | .any, _ => true
  | .space isNot, c => lreIsSpace c != isNot
  | .range ignoreCase ranges, c => rangeMatch true ranges (execChar s U ignoreCase c)
  | .range32 ignoreCase ranges, c => rangeMatch false ranges (execChar s U ignoreCase c)
  | _, _ => false

def positionTest : Op → ℕ → Bool
  | .lineStart multiLine, p => p = 0 || (multiLine && isLineTerminator (getPrevChar s p 0).1)
  | .lineEnd multiLine, p => p = s.cbufEnd || (multiLine && isLineTerminator (getChar s p s.cbufEnd).1)
  | .wordBoundary isNot ignoreCase, p =>
    let before := p ≠ 0 && isWordChar ignoreCase (getPrevChar s p 0).1
    let behind := p < s.cbufEnd && isWordChar ignoreCase (getChar s p s.cbufEnd).1
    (before != behind) != isNot
  | _, _ => false

def atomStep (σ : MatchState) (op : Op) : Option MatchState :=
  match op with
  | .char _ _ | .char32 _ _ | .dot | .any | .space _ | .range _ _ | .range32 _ _ => σ.over s (charTest U s op)
  | .lineStart _ | .lineEnd _ | .wordBoundary _ _ => σ.onlyIf (positionTest s op σ.cptr)
  | .backReference backward ignoreCase groups => σ.refer U s backward ignoreCase groups
  | .prev => if σ.cptr = 0 then none else some { σ with cptr := (getPrevChar s σ.cptr 0).2 }
  | _ => none

/-- Which of the precautions around the body of a quantifier its code asks for: that a turn may not stay where it
began, and that a turn begins without the captures of the one before. -/
abbrev Precautions := List Op → Bool × Bool

def neededPrecautions : Precautions := fun code => reNeedCheckAdvAndCaptureInit code true false

def beforeTurn (init : Bool) (first count : ℕ) (σ : MatchState) : MatchState :=
  if init then σ.reset first count else σ

def stays (check : Bool) (σ τ : MatchState) : Bool := check && τ.cptr = σ.cptr

def lookaheadResults (isNeg : Bool) (σ : MatchState) : List MatchState → List MatchState
  | [] => if isNeg then [σ] else []
  | σ' :: _ => if isNeg then [] else [{ σ' with cptr := σ.cptr }]

def RegexpTree.results (need : Precautions) : RegexpTree → ℕ → MatchState → List MatchState
  | atom code _, _, σ => (code.foldlM (atomStep U s) σ).toList
  | append isBackwardDir a b, i, σ =>
    if isBackwardDir then (b.results need (i + a.groups) σ).flatMap (a.results need i)
    else (a.results need i σ).flatMap (b.results need (i + a.groups))
  | alternative a b, i, σ => a.results need i σ ++ b.results need (i + a.groups) σ
  | capture isBackwardDir body, i, σ =>
    (body.results need (i + 1) (σ.save (2 * i + isBackwardDir.toNat))).map (·.save (2 * i + (!isBackwardDir).toNat))
  | lookahead isNeg body, i, σ => lookaheadResults isNeg σ (body.results need i σ)
  | repeated body min max greedy, i, σ =>
    let check := (need (body.code i)).1
    let init := (need (body.code i)).2
    repetitions (fun σ => body.results need i (beforeTurn init i body.groups σ)) (stays check) greedy min max
      (beforeTurn (decide (min = 0) && !init) i body.groups σ)

def searchPositions : ℕ → ℕ → List ℕ
  | 0, p => [p]
  | n + 1, p => p :: if p < s.cbufEnd then searchPositions n (getChar s p s.cbufEnd).2 else []

def RegexpTree.attempt (need : Precautions) (t : RegexpTree) (p : ℕ) : Option MatchState :=
  ((t.results U s need 1 (MatchState.save ⟨p, fun _ => none⟩ 0)).map (·.save 1)).head?

def RegexpTree.firstMatch (need : Precautions) (t : RegexpTree) (isSticky : Bool) (p : ℕ) : Option MatchState :=
  if isSticky then t.attempt U s need p
  else (searchPositions s (s.cbufEnd - p) p).findSome? (t.attempt U s need)

end Results

end Jsregexp
