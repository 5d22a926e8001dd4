import Jsregexp.Libregexp.Backtrack
import Jsregexp.Libregexp.LiteralSpec

namespace Jsregexp

open Library.Iteration

section Code

variable {U : Libunicode} {s : REExecContext} {st : ExecState}

lemma opAt_append (pre : List Op) (op : Op) (post : List Op) : opAt (pre ++ op :: post) (codeSize pre) = some op := by
  induction pre with
  | nil => rfl
  | cons first pre ih =>
    obtain ⟨n, hn⟩ : ∃ n, codeSize (first :: pre) = n + 1 :=
      Nat.exists_eq_succ_of_ne_zero (by rw [codeSize_cons]; have := first.size_pos; omega)
    rw [hn, List.cons_append, opAt]
    rw [codeSize_cons] at hn
    rw [if_pos (by omega), show n + 1 - first.size = codeSize pre by omega, ih]

lemma lreExecBacktrack_at (pre : List Op) {post : List Op} {op : Op} (hcode : s.code = pre ++ op :: post)
    (hpc : st.pc = codeSize pre) :
    lreExecBacktrack U s st = execOp U s op { st with pc := (codeSize (pre ++ [op]) : ℕ) } := by
  rw [lreExecBacktrack, if_neg (by omega), hpc, Int.toNat_natCast, hcode, opAt_append]
  simp

end Code

section Occurrence

def firstOccurrence (cs cbuf : List ℕ) (i : ℕ) : Option ℕ :=
  (List.range' i (cbuf.length + 1 - i)).find? fun i => cs.isPrefixOf (cbuf.drop i)

variable {cs cbuf : List ℕ} {i : ℕ}

lemma firstOccurrence_eq (hi : i ≤ cbuf.length) :
    firstOccurrence cs cbuf i = if cs <+: cbuf.drop i then some i else firstOccurrence cs cbuf (i + 1) := by
  rw [firstOccurrence, show cbuf.length + 1 - i = cbuf.length + 1 - (i + 1) + 1 by omega, List.range'_succ,
    List.find?_cons]
  by_cases h : cs <+: cbuf.drop i
  · rw [if_pos h, List.isPrefixOf_iff_prefix.mpr h]
  · have hfalse : cs.isPrefixOf (cbuf.drop i) = false := by
      rw [Bool.eq_false_iff, ne_eq, List.isPrefixOf_iff_prefix]
      exact h
    rw [if_neg h, hfalse]
    rfl

lemma firstOccurrence_beyond (hi : cbuf.length < i) : firstOccurrence cs cbuf i = none := by
  rw [firstOccurrence, Nat.sub_eq_zero_of_le hi]
  rfl

def occurrenceResult (n : ℕ) : Option ℕ → LreResult
  | none => .noMatch
  | some i => .matched [some i, some (i + n)]

end Occurrence

section Char

variable {U : Libunicode} {s : REExecContext} {st : ExecState} {c : ℕ}

lemma getChar_eq_iff (hc : c < 0xd800) (j : ℕ) : c = (getChar s j s.cbufEnd).1 ↔ s.cbuf.getD j 0 = c := by
  by_cases h : isHiSurrogate (s.cbuf.getD j 0) ∧ s.cbufType = 2 ∧ j + 1 < s.cbufEnd ∧
      isLoSurrogate (s.cbuf.getD (j + 1) 0)
  · have hchar : (getChar s j s.cbufEnd).1 = fromSurrogate (s.cbuf.getD j 0) (s.cbuf.getD (j + 1) 0) := by
      simp only [getChar, if_pos h]
    have hlarge : 0x10000 ≤ fromSurrogate (s.cbuf.getD j 0) (s.cbuf.getD (j + 1) 0) :=
      Nat.le_add_right_of_le (Nat.le_add_right _ _)
    have hhi := (isHiSurrogate_iff.mp h.1).1
    rw [hchar]
    generalize fromSurrogate (s.cbuf.getD j 0) (s.cbuf.getD (j + 1) 0) = pair at hlarge
    omega
  · have hchar : (getChar s j s.cbufEnd).1 = s.cbuf.getD j 0 := by simp only [getChar, if_neg h]
    rw [hchar]
    exact eq_comm

lemma getChar_of_lt (h : s.cbuf.getD st.cptr 0 < 0xd800) :
    getChar s st.cptr s.cbufEnd = (s.cbuf.getD st.cptr 0, st.cptr + 1) := by
  rw [getChar, if_neg]
  rintro ⟨hhi, -⟩
  have := isHiSurrogate_iff.mp hhi
  omega

lemma execOp_char (hend : s.cbufEnd = s.cbuf.length) (hc : c < 0xd800) {p : REParseState} (hp : p.ignoreCase = false) :
    execOp U s (reEmitChar p c) st =
      if [c] <+: s.cbuf.drop st.cptr then .inl { st with cptr := st.cptr + 1 } else execFail st := by
  have hop : execOp U s (reEmitChar p c) st = overChar s (fun d => c = execChar s U false d) st := by
    rw [reEmitChar, hp]
    split <;> rfl
  have hfail (k : ℕ) : execFail { st with cptr := k } = execFail st := rfl
  rw [hop, overChar, hend]
  by_cases hlt : st.cptr < s.cbuf.length
  · have hget : s.cbuf.drop st.cptr = s.cbuf.getD st.cptr 0 :: s.cbuf.drop (st.cptr + 1) := by
      rw [List.drop_eq_getElem_cons hlt, List.getD_eq_getElem _ _ hlt]
    rw [if_neg (by omega), ← hend]
    by_cases hcc : s.cbuf.getD st.cptr 0 = c
    · have hpre : [c] <+: s.cbuf.drop st.cptr := by
        rw [hget, hcc]
        exact List.cons_prefix_cons.mpr ⟨rfl, List.nil_prefix⟩
      rw [if_pos hpre, getChar_of_lt (hcc ▸ hc), hcc]
      simp [execChar]
    · have hpre : ¬ [c] <+: s.cbuf.drop st.cptr := by
        rw [hget, List.cons_prefix_cons]
        exact fun h => hcc h.1.symm
      have hne : ¬ c = (getChar s st.cptr s.cbufEnd).1 := (getChar_eq_iff hc _).not.mpr hcc
      rw [if_neg hpre]
      simp only [execChar, Bool.false_eq_true, if_false, decide_eq_true_eq]
      rw [if_neg hne]
      exact hfail _
  · have hpre : ¬ [c] <+: s.cbuf.drop st.cptr := by
      rw [List.drop_eq_nil_of_le (by omega)]
      simp
    rw [if_pos (by omega), if_neg hpre]

end Char

section Search

def attempt (i : ℕ) : ExecState := ⟨0, i, fun _ => none, [], []⟩

def givenUp (i : ℕ) : ExecState := ⟨5, i, fun _ => none, [], []⟩

def comparing (pc : ℤ) (i j : ℕ) : ExecState :=
  ⟨pc, j, Function.update (fun _ => none) 0 (some i), [(0, none)], [⟨5, i, .split, []⟩]⟩

variable {U : Libunicode} {s : REExecContext} {p : REParseState} {cs : List ℕ}

lemma execFail_comparing (pc : ℤ) (i j : ℕ) : execFail (comparing pc i j) = .inl (givenUp i) := by
  have hrestore : restore (Function.update (fun _ => none) 0 (some i)) [(0, none)] = fun _ => none := by
    show Function.update (Function.update (fun _ => none) 0 (some i)) 0 none = _
    rw [Function.update_idem, Function.update_eq_self_iff]
  show execFail ⟨pc, j, _, _, _⟩ = _
  rw [execFail, popStates, hrestore]
  rfl

variable (hp : p.ignoreCase = false) (hend : s.cbufEnd = s.cbuf.length)

section Compare

variable {pre post : List Op} {ds : List ℕ}
include hp hend

lemma comparing_chars (hds : ∀ c ∈ ds, c < 0xd800) (hcode : s.code = pre ++ (ds.map (reEmitChar p) ++ post)) (i j : ℕ) :
    if ds <+: s.cbuf.drop j then
      Visits (lreExecBacktrack U s) (comparing (codeSize pre) i j)
        (comparing (codeSize (pre ++ ds.map (reEmitChar p))) i (j + ds.length))
    else Visits (lreExecBacktrack U s) (comparing (codeSize pre) i j) (givenUp i) := by
  induction ds generalizing pre j with
  | nil =>
    rw [if_pos List.nil_prefix, List.map_nil, List.append_nil]
    exact .start
  | cons c ds ih =>
    have hstep : lreExecBacktrack U s (comparing (codeSize pre) i j) =
        if [c] <+: s.cbuf.drop j then .inl (comparing (codeSize (pre ++ [reEmitChar p c])) i (j + 1))
        else .inl (givenUp i) := by
      rw [lreExecBacktrack_at pre hcode rfl, execOp_char hend (hds c List.mem_cons_self) hp]
      show (if [c] <+: s.cbuf.drop j then _ else execFail (comparing _ i j)) = _
      rw [execFail_comparing]
      rfl
    have hcode' : s.code = (pre ++ [reEmitChar p c]) ++ (ds.map (reEmitChar p) ++ post) := by
      rw [hcode, List.map_cons, List.append_assoc]
      rfl
    have hrest := ih (fun d hd => hds d (List.mem_cons_of_mem _ hd)) hcode' (j + 1)
    have hsplit : c :: ds <+: s.cbuf.drop j ↔ [c] <+: s.cbuf.drop j ∧ ds <+: s.cbuf.drop (j + 1) := by
      rw [← List.tail_drop]
      cases s.cbuf.drop j with
      | nil => simp
      | cons d l => simp [List.cons_prefix_cons]
    by_cases hc : [c] <+: s.cbuf.drop j
    · rw [if_pos hc] at hstep
      by_cases hd : ds <+: s.cbuf.drop (j + 1)
      · rw [if_pos hd] at hrest
        rw [if_pos (hsplit.mpr ⟨hc, hd⟩)]
        have hlast := (Visits.single hstep).trans hrest
        rwa [List.append_assoc, Nat.add_assoc, Nat.add_comm 1] at hlast
      · rw [if_neg hd] at hrest
        rw [if_neg fun h => hd (hsplit.mp h).2]
        exact (Visits.single hstep).trans hrest
    · rw [if_neg hc] at hstep
      rw [if_neg fun h => hc (hsplit.mp h).1]
      exact .single hstep

end Compare

variable (hcount : s.captureCount = 1) (hcs : ∀ c ∈ cs, c < 0xd800)
variable (hcode : s.code = searchLoop false ++ .saveStart 0 :: cs.map (reEmitChar p) ++ [.saveEnd 0, .matched])
include hcode

include hcount in
lemma attempt_starts (i : ℕ) : Visits (lreExecBacktrack U s) (attempt i) (comparing 13 i i) := by
  have hsplit : lreExecBacktrack U s (attempt i) = .inl ⟨11, i, fun _ => none, [], [⟨5, i, .split, []⟩]⟩ := by
    rw [lreExecBacktrack_at [] hcode rfl]
    rfl
  have hsave : lreExecBacktrack U s ⟨11, i, fun _ => none, [], [⟨5, i, .split, []⟩]⟩ = .inl (comparing 13 i i) := by
    have hcode' : s.code = searchLoop false ++ .saveStart 0 :: (cs.map (reEmitChar p) ++ [.saveEnd 0, .matched]) := by
      rw [hcode, List.append_assoc]
      rfl
    rw [lreExecBacktrack_at _ hcode' rfl]
    show (if 0 < s.captureCount then _ else _) = _
    rw [if_pos (by omega)]
    rfl
  exact (Visits.single hsplit).trans (.single hsave)

include hend in
lemma givenUp_next (i : ℕ) : if i < s.cbuf.length then
      Visits (lreExecBacktrack U s) (givenUp i) (attempt (getChar s i s.cbufEnd).2)
    else Returns (lreExecBacktrack U s) (givenUp i) (.ok .noMatch) := by
  have hany : lreExecBacktrack U s (givenUp i) = if s.cbuf.length ≤ i then .inr (.ok .noMatch)
      else .inl ⟨6, (getChar s i s.cbufEnd).2, fun _ => none, [], []⟩ := by
    rw [lreExecBacktrack_at [.split false 6] hcode rfl]
    show overChar s (fun _ => true) _ = _
    rw [overChar, hend]
    rfl
  have hgoto (k : ℕ) : lreExecBacktrack U s ⟨6, k, fun _ => none, [], []⟩ = .inl (attempt k) := by
    rw [lreExecBacktrack_at [.split false 6, .any] hcode rfl]
    rfl
  split
  · next hlt =>
    rw [if_neg (by omega)] at hany
    exact (Visits.single hany).trans (.single (hgoto _))
  · next hge =>
    rw [if_pos (by omega)] at hany
    exact returns_stop hany

include hp hend hcount hcs

lemma attempt_matched {i : ℕ} (hi : cs <+: s.cbuf.drop i) :
    Returns (lreExecBacktrack U s) (attempt i) (.ok (.matched [some i, some (i + cs.length)])) := by
  have hcode' : s.code = (searchLoop false ++ [.saveStart 0]) ++ (cs.map (reEmitChar p) ++ [.saveEnd 0, .matched]) := by
    rw [hcode]
    simp
  have hchars := comparing_chars (U := U) hp hend hcs hcode' i i
  rw [if_pos hi] at hchars
  have hlast : lreExecBacktrack U s (comparing
      (codeSize ((searchLoop false ++ [.saveStart 0]) ++ cs.map (reEmitChar p))) i (i + cs.length)) =
      .inl ((comparing (codeSize (((searchLoop false ++ [.saveStart 0]) ++ cs.map (reEmitChar p)) ++ [.saveEnd 0])) i
        (i + cs.length)).saveCapture 1 (some (i + cs.length))) := by
    rw [lreExecBacktrack_at _ (show s.code = _ ++ Op.saveEnd 0 :: [.matched] by rw [hcode]; simp) rfl]
    show (if 0 < s.captureCount then _ else _) = _
    rw [if_pos (by omega)]
    rfl
  have hmatched : lreExecBacktrack U s ((comparing
      (codeSize (((searchLoop false ++ [.saveStart 0]) ++ cs.map (reEmitChar p)) ++ [.saveEnd 0])) i
        (i + cs.length)).saveCapture 1 (some (i + cs.length))) =
      .inr (.ok (.matched [some i, some (i + cs.length)])) := by
    rw [lreExecBacktrack_at _ (show s.code = _ ++ Op.matched :: [] by rw [hcode]; simp) rfl]
    show Sum.inr (Except.ok (LreResult.matched ((List.range (2 * s.captureCount)).map _))) = _
    rw [hcount]
    rfl
  apply ((attempt_starts hcount hcode i).trans hchars).returns.mpr
  exact (returns_next hlast).mpr (returns_stop hmatched)

theorem attempt_returns (i : ℕ) (hi : i ≤ s.cbuf.length) :
    Returns (lreExecBacktrack U s) (attempt i) (.ok (occurrenceResult cs.length (firstOccurrence cs s.cbuf i))) := by
  induction hn : s.cbuf.length - i using Nat.strong_induction_on generalizing i with
  | _ n ih =>
    rw [firstOccurrence_eq hi]
    by_cases hocc : cs <+: s.cbuf.drop i
    · rw [if_pos hocc]
      exact attempt_matched hp hend hcount hcs hcode hocc
    · rw [if_neg hocc]
      have hcode' : s.code =
          (searchLoop false ++ [.saveStart 0]) ++ (cs.map (reEmitChar p) ++ [.saveEnd 0, .matched]) := by
        rw [hcode]
        simp
      have hchars := comparing_chars (U := U) hp hend hcs hcode' i i
      rw [if_neg hocc] at hchars
      apply ((attempt_starts hcount hcode i).trans hchars).returns.mpr
      have hnext := givenUp_next (U := U) hend hcode i
      split at hnext
      · next hlt =>
        apply hnext.returns.mpr
        by_cases hpair : isHiSurrogate (s.cbuf.getD i 0) ∧ s.cbufType = 2 ∧ i + 1 < s.cbufEnd ∧
            isLoSurrogate (s.cbuf.getD (i + 1) 0)
        · -- the second half of a pair is not tried, and no character of the row stands there
          have htwo : (getChar s i s.cbufEnd).2 = i + 2 := by simp only [getChar, if_pos hpair]
          have hlt' : i + 1 < s.cbuf.length := hend ▸ hpair.2.2.1
          have hno : ¬ cs <+: s.cbuf.drop (i + 1) := by
            cases cs with
            | nil => exact absurd List.nil_prefix hocc
            | cons c cs =>
              intro h
              rw [List.drop_eq_getElem_cons hlt', List.cons_prefix_cons] at h
              have hlo := isLoSurrogate_iff.mp hpair.2.2.2
              rw [List.getD_eq_getElem _ _ hlt', ← h.1] at hlo
              have hc := hcs c List.mem_cons_self
              omega
          rw [htwo, firstOccurrence_eq (by omega), if_neg hno]
          exact ih _ (by omega) (i + 2) (by omega) rfl
        · have hone : (getChar s i s.cbufEnd).2 = i + 1 := by simp only [getChar, if_neg hpair]
          rw [hone]
          exact ih _ (by omega) (i + 1) (by omega) rfl
      · next hge =>
        rw [firstOccurrence_beyond (by omega)]
        exact hnext

end Search

end Jsregexp
