import Jsregexp.Libregexp.Emit

/-! The recursive descent of libregexp.c over terms, alternatives and disjunctions. A function that writes code
returns it beside the state. -/

namespace Jsregexp

open Library.Iteration

section Captures

variable (U : Libunicode)

structure CapturesState where
  p : Bytes
  captureIndex : ℕ
  n : ℕ
  hasNamedCaptures : Bool
  indices : List ℕ

def skipClass : Bytes → Bytes
  | [] => []
  | b :: p =>
    if b = byteOf ']' then b :: p
    else if b = byteOf '\\' then
      match p with
      | [] => []
      | _ :: p => skipClass p
    else skipClass p

def capturesStep (captureName : Option Bytes) (st : CapturesState) : CapturesState ⊕ CapturesState :=
  let count (st : CapturesState) : CapturesState ⊕ CapturesState :=
    if st.captureIndex + 1 ≥ captureCountMax then .inr { st with captureIndex := st.captureIndex + 1 }
    else .inl { st with captureIndex := st.captureIndex + 1, p := st.p.tail }
  if st.p = [] then .inr st
  else
    let c := peek st.p 0
    if c = '('.toNat then
      if peek st.p 1 = '?'.toNat then
        if peek st.p 2 = '<'.toNat ∧ peek st.p 3 ≠ '='.toNat ∧ peek st.p 3 ≠ '!'.toNat then
          let st := { st with hasNamedCaptures := true }
          match captureName with
          | none => count st
          | some captureName =>
            match reParseGroupName U (st.p.drop 3) with
            | some (name, p) =>
              if name = captureName then
                count { st with p := p, n := st.n + 1, indices := st.indices ++ [st.captureIndex] }
              else count { st with p := p }
            | none => count { st with p := st.p.drop 3 }
        else .inl { st with p := st.p.tail }
      else count st
    else if c = '\\'.toNat then .inl { st with p := st.p.drop 2 }
    else if c = '['.toNat then .inl { st with p := (skipClass st.p.tail).tail }
    else .inl { st with p := st.p.tail }

def reParseCaptures (bufStart : Bytes) (captureName : Option Bytes) : CapturesState :=
  (run (capturesStep U captureName) (bufStart.length + 1) ⟨bufStart, 1, 0, false, []⟩).getD ⟨[], 1, 0, false, []⟩

def reCountCaptures (s : REParseState) : ℕ × REParseState :=
  match s.totalCaptureCount with
  | some n => (n, s)
  | none =>
    let st := reParseCaptures U s.bufStart none
    (st.captureIndex, { s with totalCaptureCount := some st.captureIndex,
                               hasNamedCaptures := some st.hasNamedCaptures })

def reHasNamedCaptures (s : REParseState) : Bool × REParseState :=
  match s.hasNamedCaptures with
  | some b => (b, s)
  | none =>
    let s := (reCountCaptures U s).2
    (s.hasNamedCaptures.getD false, s)

def lreGroupNameTrailerLen : ℕ := 2

def groupNameEntries : ℕ → Bytes → List (Bytes × ℕ)
  | 0, _ => []
  | n + 1, p =>
    if p = [] then []
    else
      let name := cString p
      (name, peek p (name.length + 1)) :: groupNameEntries n (p.drop (name.length + lreGroupNameTrailerLen))

def REParseState.groups (s : REParseState) : List (Bytes × ℕ) := groupNameEntries s.groupNames.length s.groupNames

def findGroupName (s : REParseState) (name : Bytes) : List ℕ :=
  (s.groups.zipIdx 1).filterMap fun g => if g.1.1 = name then some g.2 else none

def isDuplicateGroupName (s : REParseState) (name : Bytes) (scope : UInt8) : Bool :=
  s.groups.any fun g => g.1 = name && g.2 = scope.toNat

end Captures

section Modifiers

structure ModifiersState where
  p : Bytes
  mask : ℕ

def modifierFlag (c : ℕ) : Option ℕ :=
  if c = 'i'.toNat then some lreFlagIgnorecase
  else if c = 'm'.toNat then some lreFlagMultiline
  else if c = 's'.toNat then some lreFlagDotall
  else none

def modifiersStep (st : ModifiersState) : ModifiersState ⊕ Except Failure ModifiersState :=
  match modifierFlag (peek st.p 0) with
  | none => .inr (.ok st)
  | some val =>
    if st.mask &&& val ≠ 0 then
      .inr (.error (.raised (bytesOf "duplicate modifier: '" ++ st.p.take 1 ++ bytesOf "'")))
    else .inl ⟨st.p.tail, st.mask ||| val⟩

def reParseModifiers (p : Bytes) : Except Failure ModifiersState :=
  (run modifiersStep (p.length + 1) ⟨p, 0⟩).getD (.error .undefined)

def updateModifier (val : Bool) (addMask removeMask mask : ℕ) : Bool :=
  let val := if addMask &&& mask ≠ 0 then true else val
  if removeMask &&& mask ≠ 0 then false else val

end Modifiers

section Term

/-- A term without its quantifier. `lastAtomStart` is false where the term cannot be repeated. -/
structure TermAtom where
  code : List Op
  lastAtomStart : Bool
  lastCaptureCount : ℕ
  p : Bytes
  s : REParseState

variable (U : Libunicode) (disjunction : Bool → REParseState → Except Failure (List Op × REParseState))
variable (s : REParseState) (isBackwardDir : Bool)

def directed (code : List Op) : List Op := if isBackwardDir then .prev :: code ++ [.prev] else code

def plainAtom (code : List Op) (p : Bytes) (s : REParseState) : TermAtom := ⟨code, true, s.captureCount, p, s⟩

def charAtom (atom : ClassAtom) : Except Failure TermAtom := do
  let code ←
    if atom.c ≥ classRangeBase then do
      let cr ← atom.set
      if atom.c = classRangeBase + 2 then .ok [Op.space false]
      else if atom.c = classRangeBase + 3 then .ok [Op.space true]
      else reEmitStringList s U cr
    else .ok [reEmitChar s (classChar U s atom.c)]
  return plainAtom (directed isBackwardDir code) atom.p s

def classAtomTerm (p : Bytes) : Except Failure TermAtom := do
  charAtom U s isBackwardDir (← getClassAtom U s p false)

def groupBody (p : Bytes) (s : REParseState) (isBackwardDir : Bool) :
    Except Failure (List Op × REParseState × Bytes) := do
  let (code, s) ← disjunction isBackwardDir { s with bufPtr := p }
  let p ← reParseExpect s.bufPtr ')'
  return (code, s, p)

def modifiedGroup (add remove : ModifiersState) : Except Failure TermAtom :=
  if (add.mask = 0 ∧ remove.mask = 0) ∨ add.mask &&& remove.mask ≠ 0 then reParseError "invalid modifiers"
  else do
    let p ← reParseExpect remove.p ':'
    let update (val : Bool) (mask : ℕ) : Bool := updateModifier val add.mask remove.mask mask
    let inner := { s with
      ignoreCase := update s.ignoreCase lreFlagIgnorecase
      multiLine := update s.multiLine lreFlagMultiline
      dotall := update s.dotall lreFlagDotall }
    let (code, t, p) ← groupBody disjunction p inner isBackwardDir
    return ⟨code, true, s.captureCount, p,
      { t with ignoreCase := s.ignoreCase, multiLine := s.multiLine, dotall := s.dotall }⟩

def modifierGroup (p : Bytes) : Except Failure TermAtom := do
  let add ← reParseModifiers p
  let remove ← if peek add.p 0 = '-'.toNat then reParseModifiers add.p.tail else .ok ⟨add.p, 0⟩
  modifiedGroup disjunction s isBackwardDir add remove

def lookahead (p : Bytes) (isNeg isBackwardLookahead : Bool) : Except Failure TermAtom := do
  let (code, t, p) ← groupBody disjunction p s isBackwardLookahead
  return ⟨.lookahead isNeg (codeSize code + 1) :: code ++ [.lookaheadMatch isNeg],
    !s.isUnicode && !isBackwardLookahead, s.captureCount, p, t⟩

def parseCapture (p : Bytes) (s : REParseState) : Except Failure TermAtom :=
  if s.captureCount ≥ captureCountMax then reParseError "too many captures"
  else do
    let captureIndex := s.captureCount
    let (code, t) ← disjunction isBackwardDir { s with captureCount := captureIndex + 1, bufPtr := p }
    let p ← reParseExpect t.bufPtr ')'
    let save (isEnd : Bool) : Op := if isEnd then .saveEnd captureIndex else .saveStart captureIndex
    return ⟨save isBackwardDir :: code ++ [save (!isBackwardDir)], true, captureIndex, p, t⟩

def namedGroup (p : Bytes) : Except Failure TermAtom :=
  match reParseGroupName U p with
  | none => reParseError "invalid group name"
  | some (name, p) =>
    if isDuplicateGroupName s name s.groupNameScope then reParseError "duplicate group name"
    else
      parseCapture disjunction isBackwardDir p { s with
        u := name
        groupNames := s.groupNames ++ name ++ [0, s.groupNameScope]
        hasNamedCaptures := some true }

def parenthesis (p : Bytes) : Except Failure TermAtom :=
  if peek p 1 = '?'.toNat then
    let c := peek p 2
    if c = ':'.toNat then do
      let (code, t, p) ← groupBody disjunction (p.drop 3) s isBackwardDir
      return ⟨code, true, s.captureCount, p, t⟩
    else if oneOf "ims-" c then modifierGroup disjunction s isBackwardDir (p.drop 2)
    else if c = '='.toNat ∨ c = '!'.toNat then lookahead disjunction s (p.drop 3) (c = '!'.toNat) false
    else if c = '<'.toNat ∧ (peek p 3 = '='.toNat ∨ peek p 3 = '!'.toNat) then
      lookahead disjunction s (p.drop 4) (peek p 3 = '!'.toNat) true
    else if c = '<'.toNat then namedGroup U disjunction s isBackwardDir (p.drop 3)
    else reParseError "invalid group"
  else parseCapture disjunction isBackwardDir p.tail { s with groupNames := s.groupNames ++ [0, 0] }

def namedBackReference (p : Bytes) : Except Failure TermAtom :=
  let (hasNamed, s') := reHasNamedCaptures U s
  let fallback (s s' : REParseState) (hasNamed : Bool) (msg : String) : Except Failure TermAtom :=
    if s.isUnicode then reParseError msg
    else if hasNamed then reParseError msg
    else classAtomTerm U s' isBackwardDir p
  if peek p 2 ≠ '<'.toNat then fallback s s' hasNamed "expecting group name"
  else
    match reParseGroupName U (p.drop 3) with
    | none => fallback s s' hasNamed "invalid group name"
    | some (name, p1) =>
      let s := { s with u := name }
      let found := findGroupName s name
      let groups := if found = [] then (reParseCaptures U s.bufStart (some name)).indices else found
      if groups = [] then fallback s { s' with u := name } hasNamed "group name not defined"
      else .ok (plainAtom [.backReference isBackwardDir s.ignoreCase groups] p1 s)

def nulEscape (p : Bytes) : Except Failure TermAtom :=
  if s.isUnicode then
    if isDigitChar (peek p 0) then reParseError "invalid decimal escape in regular expression"
    else charAtom U s isBackwardDir ⟨0, none, p⟩
  else if ¬ isOctalChar (peek p 0) then charAtom U s isBackwardDir ⟨0, none, p⟩
  else
    let c := peek p 0 - '0'.toNat
    if isOctalChar (peek p 1) then charAtom U s isBackwardDir ⟨(c <<< 3) + (peek p 1 - '0'.toNat), none, p.drop 2⟩
    else charAtom U s isBackwardDir ⟨c, none, p.tail⟩

def legacyOctal (q : Bytes) : ClassAtom :=
  if peek q 0 ≤ '7'.toNat then
    let (c, p) := if peek q 0 ≤ '3'.toNat then (peek q 0 - '0'.toNat, q.tail) else (0, q)
    if isOctalChar (peek p 0) then
      let c := (c <<< 3) + (peek p 0 - '0'.toNat)
      if isOctalChar (peek p 1) then ⟨(c <<< 3) + (peek p 1 - '0'.toNat), none, p.drop 2⟩
      else ⟨c, none, p.tail⟩
    else ⟨c, none, p⟩
  else ⟨peek q 0, none, q.tail⟩

def decimalEscape (q : Bytes) : Except Failure TermAtom :=
  let outOfRange (s : REParseState) : Except Failure TermAtom :=
    if s.isUnicode then reParseError "back reference out of range in regular expression"
    else charAtom U s isBackwardDir (legacyOctal q)
  match parseDigits false 0 q with
  | none => outOfRange s
  | some (c, p) =>
    if c < s.captureCount then .ok (plainAtom [.backReference isBackwardDir s.ignoreCase [c]] p s)
    else
      let (total, s) := reCountCaptures U s
      if c ≥ total then outOfRange s
      else .ok (plainAtom [.backReference isBackwardDir s.ignoreCase [c]] p s)

def likeRepetition (p : Bytes) : Bool :=
  isDigitChar (peek p 1) &&
    let p1 := ((parseDigits true 0 p.tail).getD (0, [])).2
    let p1 := if peek p1 0 = ','.toNat then p1.tail else p1
    let p1 := if isDigitChar (peek p1 0) then ((parseDigits true 0 p1).getD (0, [])).2 else p1
    peek p1 0 = '}'.toNat

def escapedAtom (p : Bytes) : Except Failure TermAtom :=
  let c := peek p 1
  if c = 'b'.toNat ∨ c = 'B'.toNat then
    .ok ⟨[.wordBoundary (c ≠ 'b'.toNat) (s.ignoreCase && s.isUnicode)], false, 0, p.drop 2, s⟩
  else if c = 'k'.toNat then namedBackReference U s isBackwardDir p
  else if c = '0'.toNat then nulEscape U s isBackwardDir (p.drop 2)
  else if isDigitChar c then decimalEscape U s isBackwardDir p.tail
  else classAtomTerm U s isBackwardDir p

def bracketAtom (p : Bytes) : Except Failure TermAtom := do
  let (cr, p1) ← reParseNestedClass U s p.length p
  let code ← reEmitStringList s U cr
  return plainAtom (directed isBackwardDir code) p1 s

def termAtom (p : Bytes) : Except Failure TermAtom :=
  let c := peek p 0
  if c = '^'.toNat then .ok ⟨[.lineStart s.multiLine], false, 0, p.tail, s⟩
  else if c = '$'.toNat then .ok ⟨[.lineEnd s.multiLine], false, 0, p.tail, s⟩
  else if c = '.'.toNat then
    .ok (plainAtom (directed isBackwardDir [if s.dotall then .any else .dot]) p.tail s)
  else if c = '{'.toNat then
    if s.isUnicode then reParseError "syntax error"
    else if likeRepetition p then reParseError "nothing to repeat"
    else classAtomTerm U s isBackwardDir p
  else if oneOf "*+?" c then reParseError "nothing to repeat"
  else if c = '('.toNat then parenthesis U disjunction s isBackwardDir p
  else if c = '\\'.toNat then escapedAtom U s isBackwardDir p
  else if c = '['.toNat then bracketAtom U s isBackwardDir p
  else if oneOf "]\x7d" c then
    if s.isUnicode then reParseError "syntax error" else classAtomTerm U s isBackwardDir p
  else classAtomTerm U s isBackwardDir p

def reParseTerm : Except Failure (List Op × REParseState) := do
  let atom ← termAtom U disjunction s isBackwardDir s.bufPtr
  if atom.lastAtomStart then
    match ← parseQuantifier atom.s.isUnicode atom.p with
    | some q =>
      let greedy := decide (peek q.p 0 ≠ '?'.toNat)
      return (quantified atom.code atom.lastCaptureCount atom.s.captureCount q.min q.max greedy,
        { atom.s with bufPtr := if greedy then q.p else q.p.tail })
    | none => return (atom.code, { atom.s with bufPtr := atom.p })
  else return (atom.code, { atom.s with bufPtr := atom.p })

end Term

section Disjunction

variable (term : REParseState → Bool → Except Failure (List Op × REParseState)) (isBackwardDir : Bool)

structure AlternativeState where
  code : List Op
  s : REParseState

def alternativeStep (st : AlternativeState) : AlternativeState ⊕ Except Failure (List Op × REParseState) :=
  if st.s.bufPtr = [] ∨ peek st.s.bufPtr 0 = '|'.toNat ∨ peek st.s.bufPtr 0 = ')'.toNat then .inr (.ok (st.code, st.s))
  else
    match term st.s isBackwardDir with
    | .error e => .inr (.error e)
    | .ok (code, s) => .inl ⟨if isBackwardDir then code ++ st.code else st.code ++ code, s⟩

def reParseAlternative (s : REParseState) : Except Failure (List Op × REParseState) :=
  (run (alternativeStep term isBackwardDir) (s.bufPtr.length + 1) ⟨[], s⟩).getD (.error .undefined)

def disjunctionStep (st : AlternativeState) : AlternativeState ⊕ Except Failure (List Op × REParseState) :=
  if peek st.s.bufPtr 0 ≠ '|'.toNat then .inr (.ok (st.code, st.s))
  else
    match reParseAlternative term isBackwardDir
        { st.s with bufPtr := st.s.bufPtr.tail, groupNameScope := st.s.groupNameScope + 1 } with
    | .error e => .inr (.error e)
    | .ok (code, s) =>
      .inl ⟨.split true (codeSize st.code + 5) :: st.code ++ .goto (codeSize code) :: code, s⟩

def disjunctionWith (s : REParseState) : Except Failure (List Op × REParseState) :=
  match reParseAlternative term isBackwardDir s with
  | .error e => .error e
  | .ok (code, s) =>
    (run (disjunctionStep term isBackwardDir) (s.bufPtr.length + 1) ⟨code, s⟩).getD (.error .undefined)

end Disjunction

def reParseDisjunction (U : Libunicode) : ℕ → Bool → REParseState → Except Failure (List Op × REParseState)
  | 0, _, _ => .error .undefined
  | n + 1, isBackwardDir, s => disjunctionWith (reParseTerm U (reParseDisjunction U n)) isBackwardDir s

end Jsregexp
