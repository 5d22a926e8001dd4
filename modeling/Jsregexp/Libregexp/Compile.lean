import Jsregexp.Exec
import Jsregexp.Libregexp.DynBuf
import Jsregexp.Libregexp.Parser

namespace Jsregexp

structure RegisterState where
  stackSize : ℕ
  stackSizeMax : ℕ
  code : List Op
  deriving DecidableEq, Repr

def registerPush (st : RegisterState) (op : ℕ → Op) : Except Failure RegisterState :=
  let stackSize := st.stackSize + 1
  if stackSize > st.stackSizeMax ∧ stackSize > registerCountMax then reParseError "too many imbricated quantifiers"
  else .ok ⟨stackSize, max stackSize st.stackSizeMax, st.code ++ [op st.stackSize]⟩

def registerPop (st : RegisterState) (n : ℕ) (op : ℕ → Op) : Except Failure RegisterState :=
  if st.stackSize < n then .error .undefined
  else .ok ⟨st.stackSize - n, st.stackSizeMax, st.code ++ [op (st.stackSize - n)]⟩

def registerStep (st : RegisterState) : Op → Except Failure RegisterState
  | .setI32 _ val => registerPush st (.setI32 · val)
  | .setCharPos _ => registerPush st .setCharPos
  | .checkAdvance _ => registerPop st 1 .checkAdvance
  | .loop _ off => registerPop st 1 (.loop · off)
  | .loopSplit false nextFirst _ limit off => registerPop st 1 (.loopSplit false nextFirst · limit off)
  | .loopSplit true nextFirst _ limit off => registerPop st 2 (.loopSplit true nextFirst · limit off)
  | op => .ok { st with code := st.code ++ [op] }

def computeRegisterCount (code : List Op) : Except Failure RegisterState :=
  code.foldlM registerStep ⟨0, 0, []⟩

def REParseState.start (buf : Bytes) (reFlags : ℕ) : REParseState :=
  let flag (bit : ℕ) : Bool := reFlags &&& bit ≠ 0
  { bufPtr := buf
    bufStart := buf
    isUnicode := flag (lreFlagUnicode ||| lreFlagUnicodeSets)
    unicodeSets := flag lreFlagUnicodeSets
    ignoreCase := flag lreFlagIgnorecase
    multiLine := flag lreFlagMultiline
    dotall := flag lreFlagDotall
    groupNameScope := 0
    captureCount := 1
    totalCaptureCount := none
    hasNamedCaptures := none
    groupNames := []
    u := [] }

variable (U : Libunicode)

def lreParse (buf : Bytes) (reFlags : ℕ) : Except Failure (List Op × REParseState) := do
  let (code, s) ← reParseDisjunction U (buf.length + 1) false (.start buf reFlags)
  if s.bufPtr ≠ [] then reParseError "extraneous characters at the end" else return (code, s)

def searchLoop (isSticky : Bool) : List Op := if isSticky then [] else [.split false 6, .any, .goto (-11)]

def wholeCode (reFlags : ℕ) (code : List Op) : List Op :=
  searchLoop (decide (reFlags &&& lreFlagSticky ≠ 0)) ++ .saveStart 0 :: code ++ [.saveEnd 0, .matched]

/-- Whether `dbuf_put` appends the names; `lre_compile` does not ask. -/
def namesFit (code : List Op) (names : Bytes) : Bool := !(dbufPut (byteCode code) names.length).error

def compiledBuffer (reFlags : ℕ) (code : List Op) (s : REParseState) (st : RegisterState) : Bytecode :=
  let named := decide (s.groupNames.length > (s.captureCount - 1) * lreGroupNameTrailerLen)
  { flags := if named then reFlags ||| lreFlagNamedGroups else reFlags
    captureCount := s.captureCount
    registerCount := st.stackSizeMax
    code := st.code
    groupNames := if named && namesFit code s.groupNames then s.groupNames else [] }

def lreCompile (buf : Bytes) (reFlags : ℕ) : Except Failure Bytecode := do
  let (code, s) ← lreParse U buf reFlags
  let code := wholeCode reFlags code
  if (byteCode code).error then reParseError "out of memory"
  else return compiledBuffer reFlags code s (← computeRegisterCount code)

def errorMsgSize : ℕ := 64

/-- `luaL_argerror` with the message of the compiler, as much of it as the buffer holds. -/
def compileError : Failure → Failure
  | .raised msg => .raised (msg.take (errorMsgSize - 1))
  | .undefined => .undefined

section Inversion

variable {U} {buf : Bytes} {reFlags : ℕ} {bc : Bytecode}

lemma lreCompile_eq : lreCompile U buf reFlags = (lreParse U buf reFlags >>= fun r =>
    if byteCodeMax < 8 + codeSize (wholeCode reFlags r.1) then reParseError "out of memory"
    else computeRegisterCount (wholeCode reFlags r.1) >>= fun st =>
      .ok (compiledBuffer reFlags (wholeCode reFlags r.1) r.2 st)) := by
  rw [lreCompile]
  congr 1
  funext r
  dsimp only
  by_cases hlarge : byteCodeMax < 8 + codeSize (wholeCode reFlags r.1)
  · rw [if_pos hlarge, if_pos (byteCode_error_iff.mpr hlarge)]
  · rw [if_neg hlarge, if_neg (byteCode_error_iff.not.mpr hlarge)]
    rfl

lemma lreCompile_ok_iff : lreCompile U buf reFlags = .ok bc ↔ ∃ code s st, lreParse U buf reFlags = .ok (code, s) ∧
    8 + codeSize (wholeCode reFlags code) ≤ byteCodeMax ∧ computeRegisterCount (wholeCode reFlags code) = .ok st ∧
      bc = compiledBuffer reFlags (wholeCode reFlags code) s st := by
  rw [lreCompile_eq]
  constructor
  · intro h
    obtain ⟨⟨code, s⟩, hp, h⟩ := except_bind_ok_iff.mp h
    split at h
    · cases h
    · next hfits =>
      obtain ⟨st, hst, h⟩ := except_bind_ok_iff.mp h
      exact ⟨code, s, st, hp, Nat.not_lt.mp hfits, hst, (Except.ok.inj h).symm⟩
  · rintro ⟨code, s, st, hp, hfits, hst, rfl⟩
    refine except_bind_ok_iff.mpr ⟨(code, s), hp, ?_⟩
    rw [if_neg (Nat.not_lt.mpr hfits)]
    exact except_bind_ok_iff.mpr ⟨st, hst, rfl⟩

lemma lreCompile_flags (h : lreCompile U buf reFlags = .ok bc) :
    bc.flags = reFlags ∨ bc.flags = reFlags ||| lreFlagNamedGroups := by
  obtain ⟨code, s, st, -, -, -, rfl⟩ := lreCompile_ok_iff.mp h
  rw [compiledBuffer]
  dsimp only
  split
  · exact .inr rfl
  · exact .inl rfl

end Inversion

def implicitFlags (regexp : Bytes) : ℕ := if utf8ContainsNonBmp regexp then lreFlagUnicode else 0

end Jsregexp
