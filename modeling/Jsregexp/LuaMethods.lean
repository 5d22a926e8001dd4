import Jsregexp.Substitution

/-! The methods that jsregexp.lua adds to regexp objects. Each loop is a step function on its local
variables; a method with a loop takes the number of turns to run and has no result before it is done. -/

namespace Jsregexp

open Library.Iteration

def setLastIndex (r : RegExp) (value : ℤ) : Except Failure RegExp :=
  if value < -2 ^ 31 ∨ 2 ^ 31 ≤ value then .error .undefined
  else if value ≥ 1 then .ok { r with lastIndex := (value - 1).toNat }
  else .error (.raised (bytesOf "last_index must be positive"))

lemma setLastIndex_ok {r : RegExp} {n : ℕ} (hn : n + 1 < 2 ^ 31) :
    setLastIndex r ((n : ℤ) + 1) = .ok { r with lastIndex := n } := by
  rw [setLastIndex, if_neg (by omega), if_pos (by omega)]
  simp

lemma setLastIndex_undefined {r : RegExp} {n : ℕ} (hn : 2 ^ 31 ≤ n + 1) :
    setLastIndex r ((n : ℤ) + 1) = .error .undefined := by
  rw [setLastIndex, if_pos (by omega)]

def regexpPushflags (r : RegExp) : Bytes :=
  let flag (bit : ℕ) (name : Char) : Bytes := if r.bc.hasFlag bit then [byteOf name] else []
  flag lreFlagIndices 'd' ++ flag lreFlagIgnorecase 'i' ++ flag lreFlagGlobal 'g' ++
    flag lreFlagMultiline 'm' ++ flag lreFlagNamedGroups 'n' ++ flag lreFlagDotall 's' ++
    flag lreFlagUnicode 'u' ++ flag lreFlagUnicodeSets 'v' ++ flag lreFlagSticky 'y'

def flagBit (b : UInt8) : ℕ :=
  if b = byteOf 'd' then lreFlagIndices
  else if b = byteOf 'i' then lreFlagIgnorecase
  else if b = byteOf 'g' then lreFlagGlobal
  else if b = byteOf 'm' then lreFlagMultiline
  else if b = byteOf 'n' then lreFlagNamedGroups
  else if b = byteOf 's' then lreFlagDotall
  else if b = byteOf 'u' then lreFlagUnicode
  else if b = byteOf 'v' then lreFlagUnicodeSets
  else if b = byteOf 'y' then lreFlagSticky
  else 0

def readFlags (reFlags : ℕ) (flags : Bytes) : ℕ := flags.foldl (fun n b => n ||| flagBit b) reFlags

lemma testBit_readFlags (n i : ℕ) (flags : Bytes) :
    (readFlags n flags).testBit i = (n.testBit i || flags.any fun b => (flagBit b).testBit i) := by
  induction flags generalizing n with
  | nil => simp [readFlags]
  | cons b flags ih =>
    have := ih (n ||| flagBit b)
    simp only [readFlags, List.foldl_cons, List.any_cons, Nat.testBit_or] at this ⊢
    rw [this, Bool.or_assoc]

section Flags

def flagLetters : List (ℕ × Char) :=
  [(6, 'd'), (1, 'i'), (0, 'g'), (2, 'm'), (7, 'n'), (3, 's'), (4, 'u'), (8, 'v'), (5, 'y')]

lemma regexpPushflags_eq (r : RegExp) : regexpPushflags r =
    flagLetters.flatMap fun l => if r.bc.flags.testBit l.1 then [byteOf l.2] else [] := by
  have hbit (i : ℕ) : r.bc.hasFlag (1 <<< i) = r.bc.flags.testBit i := Bytecode.hasFlag_two_pow
  simp only [regexpPushflags, lreFlagIndices, lreFlagIgnorecase, lreFlagGlobal, lreFlagMultiline,
    lreFlagNamedGroups, lreFlagDotall, lreFlagUnicode, lreFlagUnicodeSets, lreFlagSticky, hbit]
  simp [flagLetters]

lemma letter_ne_zero : ∀ l ∈ flagLetters, byteOf l.2 ≠ 0 := by decide

lemma zero_notMem_pushflags (r : RegExp) : 0 ∉ regexpPushflags r := by
  rw [regexpPushflags_eq]
  intro h
  obtain ⟨l, hl, hb⟩ := List.mem_flatMap.mp h
  split at hb
  · exact letter_ne_zero l hl (List.mem_singleton.mp hb).symm
  · cases hb

lemma global_mem_pushflags {r : RegExp} (h : r.global = true) : byteOf 'g' ∈ cString (regexpPushflags r) := by
  have hflag : r.bc.hasFlag lreFlagGlobal = true := h
  rw [cString_eq_self (zero_notMem_pushflags r)]
  simp [regexpPushflags, hflag]

lemma sticky_mem_pushflags (r : RegExp) : byteOf 'y' ∈ cString (regexpPushflags r ++ bytesOf "y") := by
  have hz : 0 ∉ regexpPushflags r ++ bytesOf "y" := by
    rw [List.mem_append, not_or]
    exact ⟨zero_notMem_pushflags r, by decide⟩
  rw [cString_eq_self hz]
  simp [bytesOf]

end Flags

abbrev Compiler := Bytes → Bytes → Except Failure RegExp

variable (lreExec : Engine)

section Match

/-- One turn of the loop of `match` and of the iterator of `match_all`: `exec`, then one step past a match
of length zero. -/
def nextMatch (js : JsString) (re : RegExp) : Outcome (Option Match) :=
  match regexpExec lreExec re js with
  | ⟨re, .error e⟩ => ⟨re, .error e⟩
  | ⟨re, .ok none⟩ => ⟨re, .ok none⟩
  | ⟨re, .ok (some m)⟩ =>
    if m.whole.length = 0 then
      match setLastIndex re (re.lastIndexField + 1) with
      | .error e => ⟨re, .error e⟩
      | .ok re => ⟨re, .ok (some m)⟩
    else ⟨re, .ok (some m)⟩

structure CollectState (α : Type) where
  re : RegExp
  found : List α

def collectStep {α : Type} (f : Match → α) (js : JsString) (s : CollectState α) :
    CollectState α ⊕ Outcome (List α) :=
  match nextMatch lreExec js s.re with
  | ⟨re, .error e⟩ => .inr ⟨re, .error e⟩
  | ⟨re, .ok none⟩ => .inr ⟨re, .ok s.found⟩
  | ⟨re, .ok (some m)⟩ => .inl ⟨re, s.found ++ [f m]⟩

inductive MatchResult
  | single (m : Option Match)
  | table (found : Option (List Bytes))

def mtMatch (addr : ℕ) (re : RegExp) (str : Bytes) (turns : ℕ) : Option (Outcome MatchResult) :=
  match jsstringNew addr str with
  | .error e => some ⟨re, .error e⟩
  | .ok jstr =>
    if ¬ re.global then
      let o := regexpExec lreExec re jstr
      some ⟨o.re, o.result.map .single⟩
    else
      (run (collectStep lreExec Match.whole jstr) turns ⟨{ re with lastIndex := 0 }, []⟩).map fun o =>
        ⟨o.re, o.result.map fun found => .table (if found = [] then none else some found)⟩

def mtMatchAll (compile : Compiler) (addr : ℕ) (re : RegExp) (str : Bytes) : Except Failure (RegExp × JsString) :=
  if ¬ re.global then .error (.raised (bytesOf "match_all must be called with a global RegExp"))
  else do
    let re2 ← compile re.expr (regexpPushflags re)
    let jstr ← jsstringNew addr str
    let re2 ← setLastIndex re2 re.lastIndexField
    return (re2, jstr)

def mtMatchAllList (compile : Compiler) (addr : ℕ) (re : RegExp) (str : Bytes) (turns : ℕ) :
    Option (Except Failure (List Match)) :=
  match mtMatchAll compile addr re str with
  | .error e => some (.error e)
  | .ok (re2, jstr) => (run (collectStep lreExec id jstr) turns ⟨re2, []⟩).map Outcome.result

end Match

def mtSearch (addr : ℕ) (re : RegExp) (str : Bytes) : Outcome ℤ :=
  let prevLastIndex := re.lastIndexField
  let re := { re with lastIndex := 0 }
  match jsstringNew addr str with
  | .error e => ⟨re, .error e⟩
  | .ok jstr =>
    match regexpExec lreExec re jstr with
    | ⟨re, .error e⟩ => ⟨re, .error e⟩
    | ⟨re, .ok result⟩ =>
      match setLastIndex re prevLastIndex with
      | .error e => ⟨re, .error e⟩
      | .ok re => ⟨re, .ok (result.elim (-1) fun m => m.index)⟩

section Split

inductive LuaNumber
  | finite (q : ℚ)
  | huge
  | negHuge
  | nan
  deriving DecidableEq

def LuaNumber.above (n : ℕ) : LuaNumber → Bool
  | .finite q => decide ((n : ℚ) < q)
  | .huge => true
  | .negHuge | .nan => false

structure SplitState where
  re2 : RegExp
  count : ℕ
  split : List Bytes
  prevIndex : ℕ

def SplitState.start (re2 : RegExp) : SplitState := ⟨re2, 0, [], 1⟩

def splitStep (js : JsString) (str : Bytes) (limit : LuaNumber) (s : SplitState) :
    SplitState ⊕ Except Failure (List Bytes) :=
  if limit.above s.count then
    let li := s.re2.lastIndexField
    let exitTest (s : SplitState) : SplitState ⊕ Except Failure (List Bytes) :=
      if s.re2.lastIndexField > str.length then
        .inr (.ok (s.split ++ [stringSub str s.prevIndex str.length]))
      else .inl s
    match regexpExec lreExec s.re2 js with
    | ⟨_, .error e⟩ => .inr (.error e)
    | ⟨re2, .ok (some m)⟩ =>
      if str.length = 0 then .inr (.ok s.split)
      else
        let sub := stringSub str s.prevIndex (m.index - 1)
        let split := if sub.length > 0 ∨ m.whole.length > 0 then s.split ++ [sub] else s.split
        let groups := if limit.above s.count then m.captures.tail else []
        exitTest ⟨re2, s.count, split ++ groups, re2.lastIndexField⟩
    | ⟨re2, .ok none⟩ =>
      match setLastIndex re2 (li + 1) with
      | .error e => .inr (.error e)
      | .ok re2 => exitTest ⟨re2, s.count, s.split, s.prevIndex⟩
  else .inr (.ok s.split)

def mtSplit (compile : Compiler) (addr : ℕ) (re : RegExp) (str : Bytes) (limit : Option LuaNumber)
    (turns : ℕ) : Option (Except Failure (List Bytes)) :=
  let limit := limit.getD .huge
  if limit = .finite 0 then some (.ok [])
  else if ¬ (limit = .finite 0 ∨ limit.above 0) then some (.error (.raised (bytesOf "limit must be non-negative")))
  else
    match jsstringNew addr str with
    | .error e => some (.error e)
    | .ok jstr =>
      match compile re.expr (regexpPushflags re ++ bytesOf "y") with
      | .error e => some (.error e)
      | .ok re2 => run (splitStep lreExec jstr str limit) turns (.start re2)

end Split

section Replace

inductive Replacement (σ : Type)
  | template (t : Bytes)
  | function (f : σ → Match → Bytes → σ × Except Bytes Bytes)

def Replacement.apply {σ : Type} (r : Replacement σ) (st : σ) (m : Match) (str : Bytes) :
    σ × Except Failure Bytes :=
  match r with
  | .template t => (st, getSubstitution m str t)
  | .function f => ((f st m str).1, (f st m str).2.mapError .raised)

structure ReplaceState (σ : Type) where
  re : RegExp
  output : List Bytes
  curIndex : ℕ
  fn : σ

variable {σ : Type}

def ReplaceState.start (re : RegExp) (fn : σ) : ReplaceState σ := ⟨{ re with lastIndex := 0 }, [], 1, fn⟩

def replaceStep (js : JsString) (str : Bytes) (replacement : Replacement σ) (s : ReplaceState σ) :
    ReplaceState σ ⊕ Outcome Bytes :=
  let prevIndex := s.re.lastIndexField
  match regexpExec lreExec s.re js with
  | ⟨re, .error e⟩ => .inr ⟨re, .error e⟩
  | ⟨re, .ok none⟩ => .inr ⟨re, .ok (s.output ++ [stringSub str s.curIndex (-1)]).flatten⟩
  | ⟨re, .ok (some m)⟩ =>
    let curIndex := re.lastIndexField
    let output := s.output ++ [stringSub str prevIndex (m.index - 1)]
    match replacement.apply s.fn m str with
    | (_, .error e) => .inr ⟨re, .error e⟩
    | (fn, .ok piece) => .inl ⟨re, output ++ [piece], curIndex, fn⟩

def mtReplaceAll (addr : ℕ) (re : RegExp) (str : Bytes) (replacement : Replacement σ) (fn : σ) (turns : ℕ) :
    Option (Outcome Bytes) :=
  if ¬ re.global then some ⟨re, .error (.raised (bytesOf "replace_all must be called with a global RegExp"))⟩
  else
    match jsstringNew addr str with
    | .error e => some ⟨re, .error e⟩
    | .ok jstr => run (replaceStep lreExec jstr str replacement) turns (.start re fn)

def mtReplace (addr : ℕ) (re : RegExp) (str : Bytes) (replacement : Replacement σ) (fn : σ) (turns : ℕ) :
    Option (Outcome Bytes) :=
  if re.global then mtReplaceAll lreExec addr re str replacement fn turns
  else
    match jsstringNew addr str with
    | .error e => some ⟨re, .error e⟩
    | .ok jstr =>
      match regexpExec lreExec { re with lastIndex := 0 } jstr with
      | ⟨re, .error e⟩ => some ⟨re, .error e⟩
      | ⟨re, .ok none⟩ => some ⟨re, .ok str⟩
      | ⟨re, .ok (some m)⟩ =>
        some ⟨re, (replacement.apply fn m str).2.map fun piece =>
          stringSub str 1 (m.index - 1) ++ piece ++ stringSub str (m.index + m.whole.length) (-1)⟩

end Replace

end Jsregexp
