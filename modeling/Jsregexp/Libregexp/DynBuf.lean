import Jsregexp.Libregexp.Lexer
import Jsregexp.Libregexp.Opcode

namespace Jsregexp

section Buffer

/-- A buffer of cutils.c without its bytes. -/
structure DynBuf where
  size : ℕ
  allocatedSize : ℕ
  error : Bool
  deriving DecidableEq, Repr

def DynBuf.empty : DynBuf := ⟨0, 0, false⟩

def lreBytecodeRefuses (size : ℕ) : Bool := size > int32Max / 2

def dbufClaim (s : DynBuf) (len : ℕ) : Bool × DynBuf :=
  let newSize := s.size + len
  if newSize > s.allocatedSize then
    if s.error then (false, s)
    else
      let newSize := max newSize (s.allocatedSize + s.allocatedSize / 2)
      if lreBytecodeRefuses newSize then (false, { s with error := true })
      else (true, { s with allocatedSize := newSize })
  else (true, s)

def dbufPut (s : DynBuf) (len : ℕ) : DynBuf :=
  let (claimed, s) := dbufClaim s len
  if claimed then { s with size := s.size + len } else s

/-- The lengths of the writes that put an operation into the buffer. -/
def Op.writes : Op → List ℕ
  | .char _ _ => [1, 2]
  | .char32 _ _ => [1, 4]
  | .dot | .any | .space _ | .lineStart _ | .lineEnd _ => [1]
  | .goto _ | .split _ _ | .lookahead _ _ => [1, 4]
  | .matched | .lookaheadMatch _ | .wordBoundary _ _ | .prev => [1]
  | .saveStart _ | .saveEnd _ | .setCharPos _ | .checkAdvance _ => [1, 1]
  | .saveReset _ _ => [1, 1, 1]
  | .loop _ _ | .setI32 _ _ => [1, 1, 4]
  | .loopSplit _ _ _ _ _ => [1, 1, 4, 4]
  | .backReference _ _ groups => 1 :: 1 :: groups.map fun _ => 1
  | .range _ ranges => 1 :: 2 :: ranges.flatMap fun _ => [2, 2]
  | .range32 _ ranges => 1 :: 2 :: ranges.flatMap fun _ => [4, 4]

/-- The buffer after its header and the code, put there in the order of the code. -/
def byteCode (code : List Op) : DynBuf := ([2, 1, 1, 4] ++ code.flatMap Op.writes).foldl dbufPut .empty

end Buffer

section Capacity

def capacity : ℕ → ℕ
  | 0 => 8
  | k + 1 => capacity k + capacity k / 2

def growths : ℕ := 46

def byteCodeMax : ℕ := 990492544

lemma capacity_growths : capacity growths = byteCodeMax := by decide

lemma capacity_mono : Monotone capacity := monotone_nat_of_le_succ fun _ => Nat.le_add_right _ _

lemma lreBytecodeRefuses_capacity {k : ℕ} (hk : k ≤ growths + 1) :
    lreBytecodeRefuses (capacity k) = decide (k = growths + 1) := by
  rcases hk.lt_or_eq with hlt | rfl
  · have hle : capacity k ≤ byteCodeMax := (capacity_mono (Nat.lt_succ_iff.mp hlt)).trans capacity_growths.le
    rw [lreBytecodeRefuses, decide_eq_decide]
    have hmax : byteCodeMax ≤ int32Max / 2 := by decide
    exact iff_of_false (by omega) (by omega)
  · decide

def Written (total : ℕ) (s : DynBuf) : Prop :=
  (s.error = false ∧ s.size = total ∧ ∃ k ≤ growths, s.allocatedSize = capacity k ∧ total ≤ capacity k) ∨
    (s.error = true ∧ byteCodeMax < total)

variable {s : DynBuf} {len total : ℕ}

lemma dbufPut_error (h : s.error = true) (len : ℕ) : (dbufPut s len).error = true := by
  rw [dbufPut, dbufClaim]
  split_ifs <;> simp [h]

lemma Written.put (h : Written total s) (hlen : len ≤ 4) : Written (total + len) (dbufPut s len) := by
  rcases h with ⟨herror, hsize, k, hk, halloc, hle⟩ | ⟨herror, hlarge⟩
  · obtain ⟨size, allocatedSize, error⟩ := s
    dsimp only at herror hsize halloc
    subst herror hsize halloc
    have hmin : 8 ≤ capacity k := capacity_mono (Nat.zero_le k)
    by_cases hfit : size + len ≤ capacity k
    · rw [dbufPut, dbufClaim]
      dsimp only
      rw [if_neg (Nat.not_lt.mpr hfit)]
      exact .inl ⟨rfl, rfl, k, hk, rfl, hfit⟩
    -- the allocation grows by half, which is more than four bytes
    · have hgrown : max (size + len) (capacity k + capacity k / 2) = capacity (k + 1) := by
        rw [capacity]
        omega
      have hrefuses : lreBytecodeRefuses (capacity (k + 1)) = decide (k = growths) := by
        rw [lreBytecodeRefuses_capacity (Nat.succ_le_succ hk), decide_eq_decide]
        exact Nat.succ_inj
      rw [dbufPut, dbufClaim]
      dsimp only
      rw [if_pos (Nat.not_le.mp hfit), if_neg Bool.false_ne_true, hgrown, hrefuses]
      by_cases hlast : k = growths
      · rw [if_pos (decide_eq_true hlast)]
        refine .inr ⟨rfl, ?_⟩
        rw [← capacity_growths, ← hlast]
        exact Nat.not_le.mp hfit
      · rw [if_neg fun h => hlast (of_decide_eq_true h)]
        refine .inl ⟨rfl, rfl, k + 1, by omega, rfl, ?_⟩
        rw [← hgrown]
        exact le_max_left _ _
  · exact .inr ⟨dbufPut_error herror len, by omega⟩

lemma Written.puts {ws : List ℕ} (h : Written total s) (hws : ∀ w ∈ ws, w ≤ 4) :
    Written (total + ws.sum) (ws.foldl dbufPut s) := by
  induction ws generalizing total s with
  | nil => exact h
  | cons w ws ih =>
    rw [List.sum_cons, ← Nat.add_assoc]
    exact ih (h.put (hws w List.mem_cons_self)) fun w' hw => hws w' (List.mem_cons_of_mem _ hw)

lemma Written.error_iff (h : Written total s) : s.error = true ↔ byteCodeMax < total := by
  rcases h with ⟨herror, -, k, hk, -, hle⟩ | ⟨herror, hlarge⟩
  · have hmax : capacity k ≤ byteCodeMax := (capacity_mono hk).trans capacity_growths.le
    exact iff_of_false (by rw [herror]; decide) (by omega)
  · exact iff_of_true herror hlarge

end Capacity

section Code

variable {code : List Op}

lemma Op.writes_le (op : Op) : ∀ w ∈ op.writes, w ≤ 4 := by
  cases op with
  | range _ ranges | range32 _ ranges =>
    simp only [Op.writes, List.mem_cons, List.mem_flatMap]
    grind
  | _ => simp [Op.writes]

lemma Op.writes_sum (op : Op) : op.writes.sum = op.size := by
  cases op with
  | range _ ranges | range32 _ ranges =>
    simp only [Op.writes, Op.size]
    induction ranges <;> grind
  | _ => simp [Op.writes, Op.size] <;> omega

lemma byteCode_written (code : List Op) : Written (8 + codeSize code) (byteCode code) := by
  have hsum : (code.flatMap Op.writes).sum = codeSize code := by
    induction code with
    | nil => rfl
    | cons op code ih => rw [List.flatMap_cons, List.sum_append, ih, op.writes_sum, codeSize_cons]
  have hheader : Written 8 ([2, 1, 1, 4].foldl dbufPut .empty) := .inl ⟨rfl, rfl, 0, by decide, rfl, by decide⟩
  rw [byteCode, List.foldl_append, ← hsum]
  apply hheader.puts
  intro w hw
  obtain ⟨op, -, hop⟩ := List.mem_flatMap.mp hw
  exact op.writes_le w hop

theorem byteCode_error_iff : (byteCode code).error = true ↔ byteCodeMax < 8 + codeSize code :=
  (byteCode_written code).error_iff

end Code

end Jsregexp
