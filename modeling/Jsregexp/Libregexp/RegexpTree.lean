import Jsregexp.Libregexp.Emit
import Jsregexp.Libregexp.Parser
import Jsregexp.Libregexp.Registers

namespace Jsregexp

section Slots

def Op.captures : Op → List ℕ
  | .saveStart n => [2 * n]
  | .saveEnd n => [2 * n + 1]
  | .saveReset first last => (List.range' first (last + 1 - first)).flatMap fun n => [2 * n, 2 * n + 1]
  | _ => []

def Op.SlotFree (op : Op) : Prop := op.usesRegister = false ∧ op.captures = []

def SlotFreeCode (code : List Op) : Prop := ∀ op ∈ code, op.SlotFree

variable {op : Op} {code : List Op}

lemma slotFree_nil : SlotFreeCode [] := fun _ h => by cases h

lemma slotFree_single (h : op.SlotFree) : SlotFreeCode [op] := fun _ hop => List.mem_singleton.mp hop ▸ h

lemma SlotFreeCode.cons (h : op.SlotFree) (h' : SlotFreeCode code) : SlotFreeCode (op :: code) := by
  intro o ho
  rcases List.mem_cons.mp ho with rfl | ho
  · exact h
  · exact h' o ho

lemma SlotFreeCode.append {code' : List Op} (h : SlotFreeCode code) (h' : SlotFreeCode code') :
    SlotFreeCode (code ++ code') := by
  intro o ho
  rcases List.mem_append.mp ho with ho | ho
  · exact h o ho
  · exact h' o ho

lemma SlotFreeCode.directed (h : SlotFreeCode code) (isBackwardDir : Bool) :
    SlotFreeCode (directed isBackwardDir code) := by
  rw [Jsregexp.directed]
  split
  · exact (h.append (slotFree_single ⟨rfl, rfl⟩)).cons ⟨rfl, rfl⟩
  · exact h

end Slots

section Tree

/-- A regular expression as the parser reads it. A part that runs backwards is written behind the parts that follow
it. -/
inductive RegexpTree
  | atom (code : List Op) (h : SlotFreeCode code)
  | append (isBackwardDir : Bool) (a b : RegexpTree)
  | alternative (a b : RegexpTree)
  | capture (isBackwardDir : Bool) (body : RegexpTree)
  | lookahead (isNeg : Bool) (body : RegexpTree)
  | repeated (body : RegexpTree) (min max : ℕ) (greedy : Bool)

namespace RegexpTree

def groups : RegexpTree → ℕ
  | atom _ _ => 0
  | append _ a b | alternative a b => a.groups + b.groups
  | capture _ body => body.groups + 1
  | lookahead _ body | repeated body _ _ _ => body.groups

def code : RegexpTree → ℕ → List Op
  | atom code _, _ => code
  | append isBackwardDir a b, i =>
    if isBackwardDir then b.code (i + a.groups) ++ a.code i else a.code i ++ b.code (i + a.groups)
  | alternative a b, i =>
    .split true (codeSize (a.code i) + 5) :: a.code i ++
      .goto (codeSize (b.code (i + a.groups))) :: b.code (i + a.groups)
  | capture isBackwardDir body, i =>
    (if isBackwardDir then .saveEnd i else .saveStart i) :: body.code (i + 1) ++
      [if isBackwardDir then .saveStart i else .saveEnd i]
  | lookahead isNeg body, i =>
    .lookahead isNeg (codeSize (body.code i) + 1) :: body.code i ++ [.lookaheadMatch isNeg]
  | repeated body min max greedy, i => quantified (body.code i) i (i + body.groups) min max greedy

def mayStay (t : RegexpTree) (i : ℕ) : Bool := (reNeedCheckAdvAndCaptureInit (t.code i) true false).1

/-- The registers of a tree: those of the quantifiers around one place, where there are most of them. A body that is
repeated zero times leaves no code. -/
def loops : RegexpTree → ℕ → ℕ
  | atom _ _, _ => 0
  | append _ a b, i | alternative a b, i => max (a.loops i) (b.loops (i + a.groups))
  | capture _ body, i => body.loops (i + 1)
  | lookahead _ body, i => body.loops i
  | repeated body min max _, i =>
    if min = 0 ∧ max = 0 then 0 else body.loops i + quantifierRegisters (body.mayStay i) min max

end RegexpTree

end Tree

section Direction

def Op.IsChar : Op → Prop
  | .char _ _ | .char32 _ _ | .dot | .any | .space _ | .range _ _ | .range32 _ _ => True
  | _ => False

def Op.IsPosition : Op → Prop
  | .lineStart _ | .lineEnd _ | .wordBoundary _ _ => True
  | _ => False

inductive AtomCode (isBackwardDir : Bool) : List Op → Prop
  | empty : AtomCode isBackwardDir []
  | position {op : Op} (h : op.IsPosition) : AtomCode isBackwardDir [op]
  | reference (ignoreCase : Bool) (groups : List ℕ) :
      AtomCode isBackwardDir [.backReference isBackwardDir ignoreCase groups]
  | char {op : Op} (h : op.IsChar) : AtomCode isBackwardDir (directed isBackwardDir [op])

/-- All parts of a tree are written for one direction, except that each lookahead has its own. -/
inductive RegexpTree.Directed : Bool → RegexpTree → Prop
  | atom {isBackwardDir : Bool} {code : List Op} (h : SlotFreeCode code) (hcode : AtomCode isBackwardDir code) :
      Directed isBackwardDir (.atom code h)
  | append {isBackwardDir : Bool} {a b : RegexpTree} (ha : Directed isBackwardDir a) (hb : Directed isBackwardDir b) :
      Directed isBackwardDir (.append isBackwardDir a b)
  | alternative {isBackwardDir : Bool} {a b : RegexpTree} (ha : Directed isBackwardDir a)
      (hb : Directed isBackwardDir b) : Directed isBackwardDir (.alternative a b)
  | capture {isBackwardDir : Bool} {body : RegexpTree} (h : Directed isBackwardDir body) :
      Directed isBackwardDir (.capture isBackwardDir body)
  | lookahead {isBackwardDir isBackwardLookahead isNeg : Bool} {body : RegexpTree}
      (h : Directed isBackwardLookahead body) : Directed isBackwardDir (.lookahead isNeg body)
  | repeated {isBackwardDir greedy : Bool} {min max : ℕ} {body : RegexpTree} (h : Directed isBackwardDir body)
      (hle : min ≤ max) (hmax : max ≤ int32Max) : Directed isBackwardDir (.repeated body min max greedy)

end Direction

end Jsregexp
