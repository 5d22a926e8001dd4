import Jsregexp.Exec
import Jsregexp.Library.Iteration
import Jsregexp.Libregexp.Lexer

/-! The interpreter of libregexp.c. Positions in the subject are offsets in code units, and a position in the code is
an offset in bytes. The stack is kept as its saved states, the latest first, each with the undo entries below it;
`realloc` always has memory for it, and `lre_check_timeout` of jsregexp.c never asks to stop. -/

namespace Jsregexp

open Library.Iteration

def opAt : List Op → ℕ → Option Op
  | [], _ => none
  | op :: _, 0 => some op
  | op :: code, n + 1 => if op.size ≤ n + 1 then opAt code (n + 1 - op.size) else none

structure REExecContext where
  code : List Op
  cbuf : List ℕ
  cbufEnd : ℕ
  cbufType : ℕ
  captureCount : ℕ
  isUnicode : Bool

inductive REExecStateEnum
  | split
  | lookahead
  | negativeLookahead
  deriving DecidableEq, Repr

/-- A saved state; `undo` are the entries between the base pointer before it and the state. -/
structure SavedState where
  pc : ℤ
  cptr : ℕ
  type : REExecStateEnum
  undo : List (ℕ × Option ℕ)

/-- The variables of `lre_exec_backtrack`. The slots of `capture` behind the captures hold positions and counters. -/
structure ExecState where
  pc : ℤ
  cptr : ℕ
  capture : ℕ → Option ℕ
  undo : List (ℕ × Option ℕ)
  saved : List SavedState

section Chars

def isLineTerminator (c : ℕ) : Bool := c = 0x0a || c = 0x0d || c = 0x2028 || c = 0x2029

def inRanges (c : ℕ) : List ℕ → Bool
  | a :: b :: pt => (a ≤ c && c < b) || inRanges c pt
  | _ => false

def lreIsSpace (c : ℕ) : Bool := inRanges c charRangeS

def lreIsWordByte (c : ℕ) : Bool := isUnicodeChar c

variable (s : REExecContext)

def getChar (cptr cbufEnd : ℕ) : ℕ × ℕ :=
  let c := s.cbuf.getD cptr 0
  let d := s.cbuf.getD (cptr + 1) 0
  if isHiSurrogate c ∧ s.cbufType = 2 ∧ cptr + 1 < cbufEnd ∧ isLoSurrogate d then (fromSurrogate c d, cptr + 2)
  else (c, cptr + 1)

def getPrevChar (cptr cbufStart : ℕ) : ℕ × ℕ :=
  let c := s.cbuf.getD (cptr - 1) 0
  let d := s.cbuf.getD (cptr - 2) 0
  if isLoSurrogate c ∧ s.cbufType = 2 ∧ cbufStart < cptr - 1 ∧ isHiSurrogate d then (fromSurrogate d c, cptr - 2)
  else (c, cptr - 1)

variable (U : Libunicode)

def execChar (ignoreCase : Bool) (c : ℕ) : ℕ := if ignoreCase then U.lreCanonicalize c s.isUnicode else c

def sameChars (ignoreCase : Bool) (cptr1End : ℕ) : ℕ → ℕ → ℕ → Option ℕ
  | 0, _, cptr => some cptr
  | n + 1, cptr1, cptr =>
    if cptr1 < cptr1End then
      if cptr ≥ s.cbufEnd then none
      else
        let (c1, cptr1) := getChar s cptr1 cptr1End
        let (c2, cptr) := getChar s cptr s.cbufEnd
        if execChar s U ignoreCase c1 ≠ execChar s U ignoreCase c2 then none
        else sameChars ignoreCase cptr1End n cptr1 cptr
    else some cptr

def sameCharsBackward (ignoreCase : Bool) (cptr1Start : ℕ) : ℕ → ℕ → ℕ → Option ℕ
  | 0, _, cptr => some cptr
  | n + 1, cptr1, cptr =>
    if cptr1 > cptr1Start then
      if cptr = 0 then none
      else
        let (c1, cptr1) := getPrevChar s cptr1 cptr1Start
        let (c2, cptr) := getPrevChar s cptr 0
        if execChar s U ignoreCase c1 ≠ execChar s U ignoreCase c2 then none
        else sameCharsBackward ignoreCase cptr1Start n cptr1 cptr
    else some cptr

def rangeSearch (ranges : List (ℕ × ℕ)) (c : ℕ) : ℕ → ℕ → ℕ → Bool
  | 0, _, _ => false
  | n + 1, idxMin, idxMax =>
    if idxMin ≤ idxMax then
      let idx := (idxMin + idxMax) / 2
      let (low, high) := ranges.getD idx (0, 0)
      if c < low then rangeSearch ranges c n idxMin (idx - 1)
      else if c > high then rangeSearch ranges c n (idx + 1) idxMax
      else true
    else false

/-- Whether a character is in the intervals of a `range`; `infinity` says that 0xffff as the last point of all stands
for every larger one. -/
def rangeMatch (infinity : Bool) (ranges : List (ℕ × ℕ)) (c : ℕ) : Bool :=
  let low := (ranges.getD 0 (0, 0)).1
  let high := (ranges.getD (ranges.length - 1) (0, 0)).2
  if c < low then false
  else if infinity ∧ c ≥ 0xffff ∧ high = 0xffff then true
  else if c > high then false
  else rangeSearch ranges c (ranges.length + 1) 0 (ranges.length - 1)

end Chars

section State

def restore (capture : ℕ → Option ℕ) (undo : List (ℕ × Option ℕ)) : ℕ → Option ℕ :=
  undo.foldl (fun capture e => Function.update capture e.1 e.2) capture

def popStates : (ℕ → Option ℕ) → List (ℕ × Option ℕ) → List SavedState → Option ExecState
  | _, _, [] => none
  | capture, undo, t :: saved =>
    let capture := restore capture undo
    if t.type = .lookahead then popStates capture t.undo saved else some ⟨t.pc, t.cptr, capture, t.undo, saved⟩

def popLookahead : List (ℕ × Option ℕ) → List SavedState → Option (SavedState × List (ℕ × Option ℕ) × List SavedState)
  | _, [] => none
  | undo, t :: saved => if t.type = .lookahead then some (t, undo, saved) else popLookahead (undo ++ t.undo) saved

def popNegativeLookahead : (ℕ → Option ℕ) → List (ℕ × Option ℕ) → List SavedState →
    Option ((ℕ → Option ℕ) × List (ℕ × Option ℕ) × List SavedState)
  | _, _, [] => none
  | capture, undo, t :: saved =>
    let capture := restore capture undo
    if t.type = .negativeLookahead then some (capture, t.undo, saved) else popNegativeLookahead capture t.undo saved

namespace ExecState

def jump (st : ExecState) (off : ℤ) : ExecState := { st with pc := st.pc + off }

def saveCapture (st : ExecState) (idx : ℕ) (value : Option ℕ) : ExecState :=
  { st with undo := (idx, st.capture idx) :: st.undo, capture := Function.update st.capture idx value }

def saveCaptureCheck (st : ExecState) (idx : ℕ) (value : Option ℕ) : ExecState :=
  if st.undo.any (·.1 = idx) then { st with capture := Function.update st.capture idx value }
  else st.saveCapture idx value

def pushState (st : ExecState) (pc : ℤ) (type : REExecStateEnum) : ExecState :=
  { st with undo := [], saved := ⟨pc, st.cptr, type, st.undo⟩ :: st.saved }

def pushSplit (st : ExecState) (nextFirst : Bool) (off : ℤ) : ExecState :=
  if nextFirst then st.pushState (st.pc + off) .split else (st.pushState st.pc .split).jump off

def saveReset (st : ExecState) (val val2 : ℕ) : ExecState :=
  (List.range' val (val2 + 1 - val)).foldl
    (fun st val => (st.saveCapture (2 * val) none).saveCapture (2 * val + 1) none) st

def decrement (st : ExecState) (idx : ℕ) : ℕ := ((st.capture idx).getD 0 + (2 ^ 32 - 1)) % 2 ^ 32

end ExecState

end State

section Step

variable (U : Libunicode) (s : REExecContext)

abbrev ExecResult := ExecState ⊕ Except Failure LreResult

def execFail (st : ExecState) : ExecResult :=
  match popStates st.capture st.undo st.saved with
  | none => .inr (.ok .noMatch)
  | some st => .inl st

def execUndefined : ExecResult := .inr (.error .undefined)

def overChar (accepts : ℕ → Bool) (st : ExecState) : ExecResult :=
  if st.cptr ≥ s.cbufEnd then execFail st
  else
    let (c, cptr) := getChar s st.cptr s.cbufEnd
    if accepts c then .inl { st with cptr := cptr } else execFail { st with cptr := cptr }

def onlyIf (test : Bool) (st : ExecState) : ExecResult := if test then .inl st else execFail st

def isWordChar (ignoreCase : Bool) (c : ℕ) : Bool :=
  if c < 256 then lreIsWordByte c else ignoreCase && (c = 0x017f || c = 0x212a)

def referredSpan (capture : ℕ → Option ℕ) : List ℕ → Option (Option (ℕ × ℕ))
  | [] => some none
  | val :: groups =>
    if val ≥ s.captureCount then none
    else
      match capture (2 * val), capture (2 * val + 1) with
      | some cptr1Start, some cptr1End => some (some (cptr1Start, cptr1End))
      | _, _ => referredSpan capture groups

def execBackReference (backward ignoreCase : Bool) (groups : List ℕ) (st : ExecState) : ExecResult :=
  match referredSpan s st.capture groups with
  | none => execFail st
  | some none => .inl st
  | some (some (cptr1Start, cptr1End)) =>
    let cptr :=
      if backward then sameCharsBackward s U ignoreCase cptr1Start (cptr1End + 1) cptr1End st.cptr
      else sameChars s U ignoreCase cptr1End (cptr1End + 1) cptr1Start st.cptr
    match cptr with
    | none => execFail st
    | some cptr => .inl { st with cptr := cptr }

def execLookaheadMatch (isNeg : Bool) (st : ExecState) : ExecResult :=
  if isNeg then
    match popNegativeLookahead st.capture st.undo st.saved with
    | none => execUndefined
    | some (capture, undo, saved) => execFail { st with capture := capture, undo := undo, saved := saved }
  else
    match popLookahead st.undo st.saved with
    | none => execUndefined
    | some (t, undo, saved) =>
      -- without anything below, the undo information is dropped
      let undo := if t.undo = [] ∧ saved.isEmpty then [] else undo ++ t.undo
      .inl { st with pc := t.pc, cptr := t.cptr, undo := undo, saved := saved }

def execLoopSplit (checkAdv nextFirst : Bool) (idx limit : ℕ) (off : ℤ) (st : ExecState) : ExecResult :=
  let val2 := st.decrement idx
  let st := st.saveCaptureCheck idx (some val2)
  if val2 > limit then .inl (st.jump off)
  else if checkAdv ∧ st.capture (idx + 1) = some st.cptr ∧ val2 ≠ limit then execFail st
  else if val2 ≠ 0 then .inl (st.pushSplit nextFirst off)
  else .inl st

def execOp (op : Op) (st : ExecState) : ExecResult :=
  let register (reg : ℕ) : ℕ := 2 * s.captureCount + reg
  match op with
  | .matched => .inr (.ok (.matched ((List.range (2 * s.captureCount)).map st.capture)))
  | .lookaheadMatch isNeg => execLookaheadMatch isNeg st
  | .char ignoreCase val | .char32 ignoreCase val => overChar s (fun c => val = execChar s U ignoreCase c) st
  | .split nextFirst off => .inl (st.pushSplit nextFirst off)
  | .lookahead isNeg off => .inl (st.pushState (st.pc + off) (if isNeg then .negativeLookahead else .lookahead))
  | .goto off => .inl (st.jump off)
  | .lineStart multiLine =>
    onlyIf (st.cptr = 0 || (multiLine && isLineTerminator (getPrevChar s st.cptr 0).1)) st
  | .lineEnd multiLine =>
    onlyIf (st.cptr = s.cbufEnd || (multiLine && isLineTerminator (getChar s st.cptr s.cbufEnd).1)) st
  | .dot => overChar s (fun c => !isLineTerminator c) st
  | .any => overChar s (fun _ => true) st
  | .space isNot => overChar s (fun c => lreIsSpace c != isNot) st
  | .saveStart val =>
    if val < s.captureCount then .inl (st.saveCapture (2 * val) (some st.cptr)) else execUndefined
  | .saveEnd val =>
    if val < s.captureCount then .inl (st.saveCapture (2 * val + 1) (some st.cptr)) else execUndefined
  | .saveReset val val2 => if val2 < s.captureCount then .inl (st.saveReset val val2) else execUndefined
  | .setI32 reg val => .inl (st.saveCaptureCheck (register reg) (some val))
  | .loop reg off =>
    let val2 := st.decrement (register reg)
    let st := st.saveCaptureCheck (register reg) (some val2)
    .inl (if val2 ≠ 0 then st.jump off else st)
  | .loopSplit checkAdv nextFirst reg limit off => execLoopSplit checkAdv nextFirst (register reg) limit off st
  | .setCharPos reg => .inl (st.saveCaptureCheck (register reg) (some st.cptr))
  | .checkAdvance reg => onlyIf (st.capture (register reg) ≠ some st.cptr) st
  | .wordBoundary isNot ignoreCase =>
    let v1 := st.cptr ≠ 0 && isWordChar ignoreCase (getPrevChar s st.cptr 0).1
    let v2 := st.cptr < s.cbufEnd && isWordChar ignoreCase (getChar s st.cptr s.cbufEnd).1
    onlyIf ((v1 != v2) != isNot) st
  | .backReference backward ignoreCase groups => execBackReference U s backward ignoreCase groups st
  | .range ignoreCase ranges => overChar s (fun c => rangeMatch true ranges (execChar s U ignoreCase c)) st
  | .range32 ignoreCase ranges => overChar s (fun c => rangeMatch false ranges (execChar s U ignoreCase c)) st
  | .prev => if st.cptr = 0 then execFail st else .inl { st with cptr := (getPrevChar s st.cptr 0).2 }

def lreExecBacktrack (st : ExecState) : ExecResult :=
  match if st.pc < 0 then none else opAt s.code st.pc.toNat with
  | none => execUndefined
  | some op => execOp U s op { st with pc := st.pc + op.size }

def REExecContext.start (bc : Bytecode) (cbuf : List ℕ) (clen cbufType : ℕ) : REExecContext :=
  let isUnicode := bc.hasFlag (lreFlagUnicode ||| lreFlagUnicodeSets)
  { code := bc.code
    cbuf := cbuf
    cbufEnd := clen
    cbufType := if cbufType = 1 ∧ isUnicode then 2 else cbufType
    captureCount := bc.captureCount
    isUnicode := isUnicode }

/-- The position at which `lre_exec` starts: not between the halves of a surrogate pair that counts as one. -/
def startPosition (s : REExecContext) (cindex : ℕ) : ℕ :=
  if 0 < cindex ∧ cindex < s.cbufEnd ∧ s.cbufType = 2 ∧ isLoSurrogate (s.cbuf.getD cindex 0) ∧
      isHiSurrogate (s.cbuf.getD (cindex - 1) 0) then cindex - 1
  else cindex

/-- A call of `lre_exec`, which computes `clen << cbuf_type` in an `int`. -/
def LreExec (bc : Bytecode) (cbuf : List ℕ) (cindex clen cbufType : ℕ) (r : Except Failure LreResult) : Prop :=
  if clen <<< cbufType ≤ int32Max then
    let s := REExecContext.start bc cbuf clen cbufType
    Returns (lreExecBacktrack U s) ⟨0, startPosition s cindex, fun _ => none, [], []⟩ r
  else r = .error .undefined

end Step

lemma le_shifted {clen cbufType : ℕ} (h : clen <<< cbufType ≤ int32Max) : clen ≤ int32Max := by
  rw [Nat.shiftLeft_eq] at h
  exact (Nat.le_mul_of_pos_right _ (Nat.two_pow_pos _)).trans h

end Jsregexp
