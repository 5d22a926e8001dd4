import Jsregexp.JsStringOffsets
import Jsregexp.Libregexp.Opcode

/-! `regexp_exec`: running the engine on a subject and building the match object. The engine is a
parameter; it leaves unit offsets from the start of the buffer in `capture`, `none` where the C code
has `NULL`. -/

namespace Jsregexp

structure RegExp where
  expr : Bytes
  bc : Bytecode
  lastIndex : ℕ
  deriving DecidableEq, Repr

namespace RegExp

def global (r : RegExp) : Bool := r.bc.hasFlag lreFlagGlobal
def sticky (r : RegExp) : Bool := r.bc.hasFlag lreFlagSticky
def hasIndices (r : RegExp) : Bool := r.bc.hasFlag lreFlagIndices

end RegExp

/-- `undefined` is a call outside the precondition of `lre_exec`, or one that leaves the C objects it is given. -/
inductive LreResult
  | undefined
  | memoryError
  | timeout
  | noMatch
  | matched (capture : List (Option ℕ))
  deriving DecidableEq, Repr

/-- `lre_exec` as a function of the bytecode, the buffer, `cindex`, `clen` and `cbuf_type`. -/
abbrev Engine := Bytecode → List ℕ → ℕ → ℕ → ℕ → LreResult

abbrev Table (β : Type) := List (Bytes × β)

def Table.setField {β : Type} (t : Table β) (key : Bytes) (v : β) : Table β :=
  (key, v) :: t.filter fun e => e.1 ≠ key

def Table.getField {β : Type} (t : Table β) (key : Bytes) : Option β :=
  t.lookup key

structure MatchIndices where
  pairs : List (ℕ × ℕ)
  groups : Option (Table (ℕ × ℕ))
  deriving DecidableEq, Repr

structure Match where
  input : Bytes
  captureCount : ℕ
  index : ℕ
  captures : List Bytes
  groups : Option (Table Bytes)
  indices : Option MatchIndices
  deriving DecidableEq, Repr

def slot (capture : List (Option ℕ)) (k : ℕ) : Option ℕ := capture.getD k none

structure Outcome (α : Type) where
  re : RegExp
  result : Except Failure α

def captureAddr (input : JsString) : Option ℕ → ℤ
  | none => 0
  | some u => input.addr + u * (if input.isWideChar then 2 else 1)

def captureOffset (input : JsString) (c : Option ℕ) : ℤ :=
  captureAddr input c - input.addr

def truncUint32 (i : ℤ) : ℕ := (i % 2 ^ 32).toNat

/-- `input->indices[(capture[k] - input->u.str8) / 2]`. -/
def lookupIndex (input : JsString) (c : Option ℕ) : Except Failure ℕ :=
  let i := (captureOffset input c).tdiv 2
  if 0 ≤ i ∧ i.toNat < input.indices.length then .ok (input.indices.getD i.toNat 0)
  else .error .undefined

def JsString.stored (input : JsString) : Bytes := input.bstr ++ [0]

def pushCapture (input : JsString) : Option ℕ → Option ℕ → Except Failure Bytes
  | none, none => .ok []
  | some s, some e => if s ≤ e then slice input.stored s (e - s) else .error .undefined
  | _, _ => .error .undefined

structure GroupReport where
  a : ℕ
  b : ℕ
  str : Bytes
  deriving DecidableEq, Repr

def reportGroup (input : JsString) (c₀ c₁ : Option ℕ) : Except Failure GroupReport :=
  if input.isWideChar then do
    let a ← lookupIndex input c₀
    let b ← lookupIndex input c₁
    let str ← slice input.stored a (truncUint32 (b - a))
    return ⟨a, b, str⟩
  else do
    let str ← pushCapture input c₀ c₁
    return ⟨truncUint32 (captureOffset input c₀), truncUint32 (captureOffset input c₁), str⟩

def GroupReport.pair (g : GroupReport) : ℕ × ℕ := (uint32 (g.a + 1), g.b)

/-- The C string at `p`, which `lua_setfield` reads, and the pointer behind its terminator; a `NUL`
at `p` is the empty string. -/
def readGroupName (p : Bytes) : Except Failure (Bytes × Bytes) :=
  if 0 ∈ p then .ok (cString p, p.drop ((cString p).length + 1)) else .error .undefined

structure CaptureState where
  groupNames : Option Bytes
  captures : List Bytes
  groups : Table Bytes
  pairs : List (ℕ × ℕ)
  indexGroups : Table (ℕ × ℕ)

def nameGroup (i : ℕ) (g : GroupReport) (st : CaptureState) : Except Failure CaptureState :=
  match st.groupNames with
  | some p =>
    if i > 0 then do
      let (key, p) ← readGroupName p
      if key = [] then return { st with groupNames := some p }
      else return { st with
        groupNames := some p
        groups := st.groups.setField key g.str
        indexGroups := st.indexGroups.setField key g.pair }
    else return st
  | none => return st

def captureStep (input : JsString) (capture : List (Option ℕ)) (i : ℕ) (st : CaptureState) :
    Except Failure CaptureState := do
  let g ← reportGroup input (slot capture (2 * i)) (slot capture (2 * i + 1))
  let st ← nameGroup i g st
  return { st with captures := st.captures ++ [g.str], pairs := st.pairs ++ [g.pair] }

def captureLoop (input : JsString) (capture : List (Option ℕ)) : ℕ → ℕ → CaptureState →
    Except Failure CaptureState
  | 0, _, st => .ok st
  | n + 1, i, st => do
    let st ← captureStep input capture i st
    captureLoop input capture n (i + 1) st

def matchIndex (input : JsString) (c : Option ℕ) : Except Failure ℕ :=
  if input.isWideChar then return uint32 (1 + (← lookupIndex input c))
  else return (1 + captureOffset input c).toNat

def buildMatch (bc : Bytecode) (input : JsString) (capture : List (Option ℕ)) : Except Failure Match := do
  let groupNames := bc.lreGetGroupnames
  let index ← matchIndex input (slot capture 0)
  let st ← captureLoop input capture bc.lreGetCaptureCount 0 ⟨groupNames, [], [], [], []⟩
  return {
    input := cString input.bstr
    captureCount := bc.lreGetCaptureCount
    index
    captures := st.captures
    groups := if groupNames.isSome then some st.groups else none
    indices :=
      if bc.hasFlag lreFlagIndices then
        some { pairs := st.pairs, groups := if groupNames.isSome then some st.indexGroups else none }
      else none }

def matchEnd (input : JsString) (c : Option ℕ) : Except Failure ℕ :=
  if input.isWideChar then lookupIndex input c
  else .ok (truncUint32 (captureOffset input c))

def int32 (n : ℕ) : ℤ := if uint32 n < 2 ^ 31 then uint32 n else (uint32 n : ℤ) - 2 ^ 32

def captureSlots : ℕ := captureCountMax * 2

/-- The call of `lre_exec`, whose `cindex` and `clen` are `int`: it asks for `0 <= cindex <= clen` and for
`lre_get_alloc_count` entries of `capture`. -/
def callLreExec (lreExec : Engine) (bc : Bytecode) (input : JsString) (rlastIndex : ℕ) : LreResult :=
  if 0 ≤ int32 rlastIndex ∧ int32 rlastIndex ≤ int32 input.len ∧ bc.lreGetAllocCount ≤ captureSlots then
    lreExec bc input.units rlastIndex input.len (if input.isWideChar then 1 else 0)
  else .undefined

def regexpExec (lreExec : Engine) (r : RegExp) (input : JsString) : Outcome (Option Match) :=
  let moves := r.global || r.sticky
  let rlastIndex := if moves then translateIndex input r.lastIndex else 0
  let r := if moves then r else { r with lastIndex := 0 }
  if moves && decide (rlastIndex > input.len) then ⟨{ r with lastIndex := 0 }, .ok none⟩
  else
    match callLreExec lreExec r.bc input rlastIndex with
    | .undefined => ⟨r, .error .undefined⟩
    | .memoryError | .timeout => ⟨r, .error (.raised (bytesOf "out of memory in regexp execution"))⟩
    | .noMatch => ⟨if moves then { r with lastIndex := 0 } else r, .ok none⟩
    | .matched capture =>
      if moves then
        match matchEnd input (slot capture 1) with
        | .error e => ⟨r, .error e⟩
        | .ok li =>
          ⟨{ r with lastIndex := li }, (buildMatch r.bc input capture).map some⟩
      else ⟨r, (buildMatch r.bc input capture).map some⟩

end Jsregexp
