import Jsregexp.Compile
import Jsregexp.Libregexp.Backtrack
import Jsregexp.Libregexp.RegisterCount

namespace Jsregexp

open Library.Iteration

section Inside

structure ExecState.Inside (n : ℕ) (st : ExecState) : Prop where
  capture : ∀ k, n ≤ k → st.capture k = none
  undo : ∀ e ∈ st.undo, e.1 < n
  saved : ∀ t ∈ st.saved, ∀ e ∈ t.undo, e.1 < n

inductive InsideResult (n : ℕ) : ExecResult → Prop
  | running {st : ExecState} (h : st.Inside n) : InsideResult n (.inl st)
  | stopped (r : Except Failure LreResult) : InsideResult n (.inr r)

variable {n : ℕ} {st : ExecState}

lemma restore_outside {capture : ℕ → Option ℕ} {undo : List (ℕ × Option ℕ)} (h : ∀ k, n ≤ k → capture k = none)
    (hu : ∀ e ∈ undo, e.1 < n) (k : ℕ) (hk : n ≤ k) : restore capture undo k = none := by
  induction undo generalizing capture with
  | nil => exact h k hk
  | cons e undo ih =>
    apply ih _ fun e' he' => hu e' (List.mem_cons_of_mem _ he')
    intro j hj
    have hne : j ≠ e.1 := (hu e List.mem_cons_self).trans_le hj |>.ne'
    exact (Function.update_of_ne hne _ _).trans (h j hj)

lemma popStates_inside {capture : ℕ → Option ℕ} {undo : List (ℕ × Option ℕ)} {saved : List SavedState} {st' : ExecState}
    (h : ∀ k, n ≤ k → capture k = none) (hu : ∀ e ∈ undo, e.1 < n) (hs : ∀ t ∈ saved, ∀ e ∈ t.undo, e.1 < n)
    (hpop : popStates capture undo saved = some st') : st'.Inside n := by
  induction saved generalizing capture undo with
  | nil => cases hpop
  | cons t saved ih =>
    have hcapture := restore_outside h hu
    have ht := hs t List.mem_cons_self
    have hrest : ∀ u ∈ saved, ∀ e ∈ u.undo, e.1 < n := fun u hu => hs u (List.mem_cons_of_mem _ hu)
    rw [popStates] at hpop
    split at hpop
    · exact ih hcapture ht hrest hpop
    · obtain rfl := Option.some.inj hpop
      exact ⟨hcapture, ht, hrest⟩

lemma execFail_inside (h : st.Inside n) : InsideResult n (execFail st) := by
  rw [execFail]
  cases hpop : popStates st.capture st.undo st.saved with
  | none => exact .stopped _
  | some st' => exact .running (popStates_inside h.capture h.undo h.saved hpop)

lemma ExecState.Inside.moved (h : st.Inside n) (pc : ℤ) (cptr : ℕ) : ({ st with pc := pc, cptr := cptr }).Inside n :=
  ⟨h.capture, h.undo, h.saved⟩

lemma overChar_inside (s : REExecContext) (accepts : ℕ → Bool) (h : st.Inside n) :
    InsideResult n (overChar s accepts st) := by
  rw [overChar]
  split
  · exact execFail_inside h
  · dsimp only
    split
    · exact .running (h.moved st.pc _)
    · exact execFail_inside (h.moved st.pc _)

lemma onlyIf_inside (test : Bool) (h : st.Inside n) : InsideResult n (onlyIf test st) := by
  rw [onlyIf]
  split
  · exact .running h
  · exact execFail_inside h

lemma ExecState.Inside.update (h : st.Inside n) {idx : ℕ} (hidx : idx < n) (value : Option ℕ) (k : ℕ) (hk : n ≤ k) :
    Function.update st.capture idx value k = none := by
  have hne : k ≠ idx := (hidx.trans_le hk).ne'
  rw [Function.update_of_ne hne, h.capture k hk]

lemma ExecState.Inside.saveCapture (h : st.Inside n) {idx : ℕ} (hidx : idx < n) (value : Option ℕ) :
    (st.saveCapture idx value).Inside n := by
  refine ⟨h.update hidx value, fun e he => ?_, h.saved⟩
  rcases List.mem_cons.mp he with rfl | he
  · exact hidx
  · exact h.undo e he

lemma ExecState.Inside.saveCaptureCheck (h : st.Inside n) {idx : ℕ} (hidx : idx < n) (value : Option ℕ) :
    (st.saveCaptureCheck idx value).Inside n := by
  rw [ExecState.saveCaptureCheck]
  split
  · exact ⟨h.update hidx value, h.undo, h.saved⟩
  · exact h.saveCapture hidx value

lemma ExecState.Inside.saveReset (h : st.Inside n) {val val2 : ℕ}
    (hslots : ∀ k ∈ (Op.saveReset val val2).captures, k < n) :
    (st.saveReset val val2).Inside n := by
  have hall : ∀ v ∈ List.range' val (val2 + 1 - val), 2 * v < n ∧ 2 * v + 1 < n := by
    intro v hv
    exact ⟨hslots _ (List.mem_flatMap.mpr ⟨v, hv, by simp⟩), hslots _ (List.mem_flatMap.mpr ⟨v, hv, by simp⟩)⟩
  rw [ExecState.saveReset]
  generalize List.range' val (val2 + 1 - val) = vals at hall
  induction vals generalizing st with
  | nil => exact h
  | cons v vals ih =>
    obtain ⟨h₀, h₁⟩ := hall v List.mem_cons_self
    exact ih ((h.saveCapture h₀ none).saveCapture h₁ none) fun w hw => hall w (List.mem_cons_of_mem _ hw)

lemma ExecState.Inside.pushState (h : st.Inside n) (pc : ℤ) (type : REExecStateEnum) :
    (st.pushState pc type).Inside n := by
  refine ⟨h.capture, fun e he => absurd he List.not_mem_nil, fun t ht => ?_⟩
  rcases List.mem_cons.mp ht with rfl | ht
  · exact h.undo
  · exact h.saved t ht

lemma ExecState.Inside.jump (h : st.Inside n) (off : ℤ) : (st.jump off).Inside n := h.moved _ st.cptr

lemma ExecState.Inside.pushSplit (h : st.Inside n) (nextFirst : Bool) (off : ℤ) :
    (st.pushSplit nextFirst off).Inside n := by
  rw [ExecState.pushSplit]
  split
  · exact h.pushState _ _
  · exact (h.pushState _ _).jump _

lemma popLookahead_inside {undo undo' : List (ℕ × Option ℕ)} {saved saved' : List SavedState} {t : SavedState}
    (hu : ∀ e ∈ undo, e.1 < n) (hs : ∀ t ∈ saved, ∀ e ∈ t.undo, e.1 < n)
    (hpop : popLookahead undo saved = some (t, undo', saved')) :
    (∀ e ∈ undo' ++ t.undo, e.1 < n) ∧ ∀ t ∈ saved', ∀ e ∈ t.undo, e.1 < n := by
  induction saved generalizing undo with
  | nil => cases hpop
  | cons u saved ih =>
    have hboth : ∀ e ∈ undo ++ u.undo, e.1 < n := by
      intro e he
      rcases List.mem_append.mp he with he | he
      · exact hu e he
      · exact hs u List.mem_cons_self e he
    have hrest : ∀ t ∈ saved, ∀ e ∈ t.undo, e.1 < n := fun t ht => hs t (List.mem_cons_of_mem _ ht)
    rw [popLookahead] at hpop
    split at hpop
    · obtain ⟨rfl, rfl, rfl⟩ : u = t ∧ undo = undo' ∧ saved = saved' := by simpa using hpop
      exact ⟨hboth, hrest⟩
    · exact ih hboth hrest hpop

lemma popNegativeLookahead_inside {capture capture' : ℕ → Option ℕ} {undo undo' : List (ℕ × Option ℕ)}
    {saved saved' : List SavedState} (h : ∀ k, n ≤ k → capture k = none) (hu : ∀ e ∈ undo, e.1 < n)
    (hs : ∀ t ∈ saved, ∀ e ∈ t.undo, e.1 < n)
    (hpop : popNegativeLookahead capture undo saved = some (capture', undo', saved')) (pc : ℤ) (cptr : ℕ) :
    (ExecState.mk pc cptr capture' undo' saved').Inside n := by
  induction saved generalizing capture undo with
  | nil => cases hpop
  | cons t saved ih =>
    have hcapture := restore_outside h hu
    have ht := hs t List.mem_cons_self
    have hrest : ∀ u ∈ saved, ∀ e ∈ u.undo, e.1 < n := fun u hu => hs u (List.mem_cons_of_mem _ hu)
    rw [popNegativeLookahead] at hpop
    split at hpop
    · obtain ⟨rfl, rfl, rfl⟩ : restore capture undo = capture' ∧ t.undo = undo' ∧ saved = saved' := by simpa using hpop
      exact ⟨hcapture, ht, hrest⟩
    · exact ih hcapture ht hrest hpop

lemma execLookaheadMatch_inside (isNeg : Bool) (h : st.Inside n) : InsideResult n (execLookaheadMatch isNeg st) := by
  rw [execLookaheadMatch]
  split
  · cases hpop : popNegativeLookahead st.capture st.undo st.saved with
    | none => exact .stopped _
    | some r => exact execFail_inside (popNegativeLookahead_inside h.capture h.undo h.saved hpop _ _)
  · cases hpop : popLookahead st.undo st.saved with
    | none => exact .stopped _
    | some r =>
      obtain ⟨hundo, hsaved⟩ := popLookahead_inside h.undo h.saved hpop
      refine .running ⟨h.capture, ?_, hsaved⟩
      dsimp only
      split
      · exact fun e he => absurd he List.not_mem_nil
      · exact hundo

variable (U : Libunicode) (s : REExecContext)

lemma execBackReference_inside (backward ignoreCase : Bool) (groups : List ℕ) (h : st.Inside n) :
    InsideResult n (execBackReference U s backward ignoreCase groups st) := by
  rw [execBackReference]
  cases referredSpan s st.capture groups with
  | none => exact execFail_inside h
  | some span =>
    cases span with
    | none => exact .running h
    | some span =>
      dsimp only
      split
      · exact execFail_inside h
      · exact .running (h.moved st.pc _)

lemma execLoopSplit_inside (checkAdv nextFirst : Bool) {idx : ℕ} (limit : ℕ) (off : ℤ) (hidx : idx < n)
    (h : st.Inside n) :
    InsideResult n (execLoopSplit checkAdv nextFirst idx limit off st) := by
  rw [execLoopSplit]
  generalize st.decrement idx = val2
  have hst := h.saveCaptureCheck hidx (some val2)
  split
  · exact .running (hst.jump off)
  split
  · exact execFail_inside hst
  split
  · exact .running (hst.pushSplit nextFirst off)
  · exact .running hst

lemma execOp_inside {op : Op} (hcaptures : ∀ k ∈ op.captures, k < n)
    (hregisters : ∀ reg ∈ op.registers, 2 * s.captureCount + reg < n) (h : st.Inside n) :
    InsideResult n (execOp U s op st) := by
  cases op with
  | matched => exact .stopped _
  | lookaheadMatch isNeg => exact execLookaheadMatch_inside isNeg h
  | char ignoreCase val =>
    rw [execOp]
    exact overChar_inside s _ h
  | char32 ignoreCase val =>
    rw [execOp]
    exact overChar_inside s _ h
  | dot =>
    rw [execOp]
    exact overChar_inside s _ h
  | any =>
    rw [execOp]
    exact overChar_inside s _ h
  | space isNot =>
    rw [execOp]
    exact overChar_inside s _ h
  | range ignoreCase ranges =>
    rw [execOp]
    exact overChar_inside s _ h
  | range32 ignoreCase ranges =>
    rw [execOp]
    exact overChar_inside s _ h
  | lineStart multiLine =>
    rw [execOp]
    exact onlyIf_inside _ h
  | lineEnd multiLine =>
    rw [execOp]
    exact onlyIf_inside _ h
  | wordBoundary isNot ignoreCase =>
    rw [execOp]
    exact onlyIf_inside _ h
  | checkAdvance reg =>
    rw [execOp]
    exact onlyIf_inside _ h
  | split nextFirst off => exact .running (h.pushSplit nextFirst off)
  | lookahead isNeg off => exact .running (h.pushState _ _)
  | goto off => exact .running (h.jump off)
  | saveStart val =>
    rw [execOp]
    split
    · exact .running (h.saveCapture (hcaptures _ (by simp [Op.captures])) _)
    · exact .stopped _
  | saveEnd val =>
    rw [execOp]
    split
    · exact .running (h.saveCapture (hcaptures _ (by simp [Op.captures])) _)
    · exact .stopped _
  | saveReset val val2 =>
    rw [execOp]
    split
    · exact .running (h.saveReset hcaptures)
    · exact .stopped _
  | setI32 reg val => exact .running (h.saveCaptureCheck (hregisters reg (by simp [Op.registers])) _)
  | setCharPos reg => exact .running (h.saveCaptureCheck (hregisters reg (by simp [Op.registers])) _)
  | loop reg off =>
    have hst := h.saveCaptureCheck (hregisters reg (by simp [Op.registers]))
      (some (st.decrement (2 * s.captureCount + reg)))
    rw [execOp]
    dsimp only
    split
    · exact .running (hst.jump off)
    · exact .running hst
  | loopSplit checkAdv nextFirst reg limit off =>
    have hreg : reg ∈ (Op.loopSplit checkAdv nextFirst reg limit off).registers := by
      rw [Op.registers]
      split <;> simp
    rw [execOp]
    beta_reduce
    exact execLoopSplit_inside checkAdv nextFirst limit off (hregisters reg hreg) h
  | backReference backward ignoreCase groups => exact execBackReference_inside U s backward ignoreCase groups h
  | prev =>
    rw [execOp]
    split
    · exact execFail_inside h
    · exact .running (h.moved st.pc _)

lemma opAt_mem {code : List Op} {k : ℕ} {op : Op} (h : opAt code k = some op) : op ∈ code := by
  induction code generalizing k with
  | nil => cases h
  | cons first code ih =>
    cases k with
    | zero => exact Option.some.inj h ▸ List.mem_cons_self
    | succ k =>
      rw [opAt] at h
      split at h
      · exact List.mem_cons_of_mem _ (ih h)
      · cases h

variable {U s}

lemma lreExecBacktrack_inside {registerCount : ℕ} (hcode : SlotsBelow s.captureCount registerCount s.code)
    (hn : s.captureCount * 2 + registerCount ≤ n) {st' : ExecState} (h : st.Inside n)
    (hstep : lreExecBacktrack U s st = .inl st') : st'.Inside n := by
  rw [lreExecBacktrack] at hstep
  cases hop : (if st.pc < 0 then none else opAt s.code st.pc.toNat) with
  | none =>
    rw [hop] at hstep
    cases hstep
  | some op =>
    rw [hop] at hstep
    have hmem : op ∈ s.code := by
      split at hop
      · cases hop
      · exact opAt_mem hop
    obtain ⟨hcaptures, hregisters⟩ := hcode op hmem
    have hresult : InsideResult n (execOp U s op { st with pc := st.pc + op.size }) := by
      apply execOp_inside U s _ _ (h.moved _ _)
      · intro k hk
        have hlt := hcaptures k hk
        omega
      · intro reg hreg
        have hlt := hregisters reg hreg
        omega
    rw [show execOp U s op { st with pc := st.pc + op.size } = .inl st' from hstep] at hresult
    cases hresult with
    | running h => exact h

end Inside

section Alloc

variable (U : Libunicode)

/-- The header asks for no more slots than the array has, and no run of the engine writes behind them. -/
structure KeepsToArray (bc : Bytecode) : Prop where
  alloc : bc.lreGetAllocCount ≤ captureSlots
  runs : ∀ cbuf cindex clen cbufType st, Visits (lreExecBacktrack U (.start bc cbuf clen cbufType))
    ⟨0, startPosition (.start bc cbuf clen cbufType) cindex, fun _ => none, [], []⟩ st → st.Inside captureSlots

/-- The array has two slots for each group of the pattern and for the whole match, and the others are enough for the
registers of the quantifiers around any place. -/
def FitsArray (buf : Bytes) (reFlags : ℕ) : Prop :=
  ∃ t, Parses U buf reFlags t ∧ 2 * (1 + t.groups) + t.loops 1 ≤ captureSlots

variable {U} {buf : Bytes} {reFlags : ℕ} {bc : Bytecode}

lemma visits_inside {n : ℕ} (hcode : SlotsBelow bc.captureCount bc.registerCount bc.code) (hn : bc.lreGetAllocCount ≤ n)
    {cbuf : List ℕ} {cindex clen cbufType : ℕ} {st : ExecState}
    (hv : Visits (lreExecBacktrack U (.start bc cbuf clen cbufType))
      ⟨0, startPosition (.start bc cbuf clen cbufType) cindex, fun _ => none, [], []⟩ st) : st.Inside n := by
  apply hv.invariant (ExecState.Inside n)
  · exact ⟨fun _ _ => rfl, fun e he => absurd he List.not_mem_nil, fun t ht => absurd ht List.not_mem_nil⟩
  · exact fun t u _ ht hu => lreExecBacktrack_inside hcode hn ht hu

theorem alloc_inside_iff (hc : lreCompile U buf reFlags = .ok bc) : KeepsToArray U bc ↔ FitsArray U buf reFlags := by
  have hcount {t : RegexpTree} (ht : Parses U buf reFlags t) :
      bc.lreGetAllocCount = 2 * (1 + t.groups) + t.loops 1 := by
    have h := lreCompile_counted hc ht
    rw [Bytecode.lreGetAllocCount, h.captures, h.registers, Nat.mul_comm]
  constructor
  · intro h
    obtain ⟨r, hr, -⟩ := except_bind_ok_iff.mp hc
    obtain ⟨t, ht, -⟩ := exists_parses hr
    exact ⟨t, ht, hcount ht ▸ h.alloc⟩
  · rintro ⟨t, ht, hle⟩
    have halloc : bc.lreGetAllocCount ≤ captureSlots := (hcount ht).trans_le hle
    refine ⟨halloc, ?_⟩
    intro cbuf cindex clen cbufType st hv
    exact visits_inside (lreCompile_counted hc ht).slots halloc hv

def twiceBytecode : Bytecode where
  flags := 0
  captureCount := 1
  registerCount := 1
  code := searchLoop false ++ [.saveStart 0, .setI32 0 2, .char false 0x61, .loop 0 (-9), .saveEnd 0, .matched]
  groupNames := []

theorem alloc_inside_twice : lreCompile asciiTables (bytesOf "a\x7b2\x7d") 0 = .ok twiceBytecode ∧
    KeepsToArray asciiTables twiceBytecode := by
  have hc : lreCompile asciiTables (bytesOf "a\x7b2\x7d") 0 = .ok twiceBytecode := by rfl
  refine ⟨hc, (alloc_inside_iff hc).mpr ?_⟩
  let s := REParseState.start (bytesOf "a\x7b2\x7d") 0
  let a : RegexpTree := .atom [.char false 0x61] (slotFree_single ⟨rfl, rfl⟩)
  have hleaf : IsLeaf s.bufPtr := ⟨by decide, by decide⟩
  have hatom : ReadsAtom asciiTables false s a true { s with bufPtr := bytesOf "\x7b2\x7d" } :=
    .leaf hleaf (fun _ => rfl) _
  have hquantifier : QuantifierText (bytesOf "\x7b2\x7d") 2 2 [] :=
    parseQuantifier_some_iff.mp (show parseQuantifier false (bytesOf "\x7b2\x7d") = .ok (some ⟨2, 2, []⟩) by rfl)
  have hterm := ReadsTerm.greedy hatom hquantifier (by decide)
  exact ⟨.append false (.atom [] slotFree_nil) (.repeated a 2 2 true),
    ⟨_, .one (.term (.empty false s) hterm), rfl, by rfl, rfl⟩, by decide⟩

def manyGroups : Bytes := (List.replicate 254 (bytesOf "()")).flatten ++ bytesOf "a\x7b2\x7d"

theorem alloc_outside_groups : ∃ bc, lreCompile asciiTables manyGroups 0 = .ok bc ∧ bc.lreGetAllocCount = 511 ∧
    ¬ KeepsToArray asciiTables bc := by
  have halloc : (lreCompile asciiTables manyGroups 0).toOption.map Bytecode.lreGetAllocCount = some 511 := by
    rw [lreCompile_eq]
    decide +kernel
  cases hc : lreCompile asciiTables manyGroups 0 with
  | error e =>
    rw [hc] at halloc
    cases halloc
  | ok bc =>
    rw [hc] at halloc
    have hcount : bc.lreGetAllocCount = 511 := Option.some.inj halloc
    refine ⟨bc, rfl, hcount, fun h => ?_⟩
    have hle := h.alloc
    rw [hcount] at hle
    exact absurd hle (by decide)

end Alloc

end Jsregexp
