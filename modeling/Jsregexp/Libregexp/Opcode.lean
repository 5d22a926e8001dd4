import Jsregexp.Memory

/-! The compiled form of a regular expression: libregexp-opcode.h and the bytecode header. Opcodes
that the source reaches by adding a flag to another opcode are one constructor with that flag. -/

namespace Jsregexp

inductive Op
  | char (ignoreCase : Bool) (c : ℕ)
  | char32 (ignoreCase : Bool) (c : ℕ)
  | dot
  | any
  | space (isNot : Bool)
  | lineStart (multiLine : Bool)
  | lineEnd (multiLine : Bool)
  | goto (off : ℤ)
  | split (nextFirst : Bool) (off : ℤ)
  | matched
  | lookaheadMatch (isNeg : Bool)
  | saveStart (n : ℕ)
  | saveEnd (n : ℕ)
  | saveReset (first last : ℕ)
  | loop (reg : ℕ) (off : ℤ)
  | loopSplit (checkAdv nextFirst : Bool) (reg limit : ℕ) (off : ℤ)
  | setI32 (reg val : ℕ)
  | wordBoundary (isNot ignoreCase : Bool)
  | backReference (backward ignoreCase : Bool) (groups : List ℕ)
  | range (ignoreCase : Bool) (ranges : List (ℕ × ℕ))
  | range32 (ignoreCase : Bool) (ranges : List (ℕ × ℕ))
  | lookahead (isNeg : Bool) (off : ℤ)
  | setCharPos (reg : ℕ)
  | checkAdvance (reg : ℕ)
  | prev
  deriving DecidableEq, Repr

def Op.size : Op → ℕ
  | .char _ _ => 3
  | .char32 _ _ => 5
  | .dot | .any | .space _ | .lineStart _ | .lineEnd _ => 1
  | .goto _ | .split _ _ => 5
  | .matched | .lookaheadMatch _ => 1
  | .saveStart _ | .saveEnd _ => 2
  | .saveReset _ _ => 3
  | .loop _ _ => 6
  | .loopSplit _ _ _ _ _ => 10
  | .setI32 _ _ => 6
  | .wordBoundary _ _ => 1
  | .backReference _ _ groups => 2 + groups.length
  | .range _ ranges => 3 + 4 * ranges.length
  | .range32 _ ranges => 3 + 8 * ranges.length
  | .lookahead _ _ => 5
  | .setCharPos _ | .checkAdvance _ => 2
  | .prev => 1

def codeSize (code : List Op) : ℕ := (code.map Op.size).sum

@[simp] lemma codeSize_nil : codeSize [] = 0 := rfl
@[simp] lemma codeSize_cons (op : Op) (code : List Op) : codeSize (op :: code) = op.size + codeSize code := by
  simp [codeSize]
@[simp] lemma codeSize_append (a b : List Op) : codeSize (a ++ b) = codeSize a + codeSize b := by
  simp [codeSize]

lemma Op.size_pos (op : Op) : 0 < op.size := by
  cases op <;> simp [Op.size]

def captureCountMax : ℕ := 255
def registerCountMax : ℕ := 255

def lreFlagGlobal : ℕ := 1 <<< 0
def lreFlagIgnorecase : ℕ := 1 <<< 1
def lreFlagMultiline : ℕ := 1 <<< 2
def lreFlagDotall : ℕ := 1 <<< 3
def lreFlagUnicode : ℕ := 1 <<< 4
def lreFlagSticky : ℕ := 1 <<< 5
def lreFlagIndices : ℕ := 1 <<< 6
def lreFlagNamedGroups : ℕ := 1 <<< 7
def lreFlagUnicodeSets : ℕ := 1 <<< 8

structure Bytecode where
  flags : ℕ
  captureCount : ℕ
  registerCount : ℕ
  code : List Op
  groupNames : Bytes
  deriving DecidableEq, Repr

namespace Bytecode

def hasFlag (bc : Bytecode) (flag : ℕ) : Bool := bc.flags &&& flag != 0

lemma hasFlag_two_pow {bc : Bytecode} {i : ℕ} : bc.hasFlag (1 <<< i) = bc.flags.testBit i := by
  rw [hasFlag, Nat.one_shiftLeft, Nat.and_two_pow]
  cases bc.flags.testBit i <;> simp

def lreGetAllocCount (bc : Bytecode) : ℕ := bc.captureCount * 2 + bc.registerCount
def lreGetCaptureCount (bc : Bytecode) : ℕ := bc.captureCount
def lreGetFlags (bc : Bytecode) : ℕ := bc.flags

def lreGetGroupnames (bc : Bytecode) : Option Bytes :=
  if bc.hasFlag lreFlagNamedGroups then some bc.groupNames else none

end Bytecode

end Jsregexp
