import Jsregexp.Libregexp.Compile
import Jsregexp.Libregexp.RegisterCount
import Jsregexp.Libregexp.TreeSimulation

namespace Jsregexp

open Library.Iteration Library.Backtracking

def matchResult (captureCount : ℕ) : Option MatchState → LreResult
  | none => .noMatch
  | some σ => .matched ((List.range (2 * captureCount)).map σ.capture)

def afterAttempt (s : REExecContext) (st : ExecState) : Option MatchState → ExecResult
  | none => execFail st
  | some σ => .inr (.ok (matchResult s.captureCount (some σ)))

section Attempt

variable {U : Libunicode} {s : REExecContext} {isBackwardDir : Bool} {t : RegexpTree} {st : ExecState} {p : ℕ}
variable (ht : t.Directed isBackwardDir) (hend : s.cbufEnd ≤ int32Max) (hgroups : 1 + t.groups ≤ s.captureCount)
include ht hend hgroups

lemma attempt_leads {n : ℕ} (hcode : CodeAt s n (.saveStart 0 :: fill 0 (t.code 1) ++ [.saveEnd 0, .matched]))
    (hpc : st.pc = n) (hσ : st.Shows s ⟨p, fun _ => none⟩) :
    Leads (lreExecBacktrack U s) (.inl st) (afterAttempt s st (t.attempt U s neededPrecautions p)) := by
  have hwhole := (tree_performs (U := U) ht hend 1 0 hgroups).capture false (show 0 < s.captureCount by omega)
  have hparts : .saveStart 0 :: fill 0 (t.code 1) ++ [.saveEnd 0, .matched] =
      (.saveStart 0 :: fill 0 (t.code 1) ++ [.saveEnd 0]) ++ [Op.matched] := by simp
  rw [hparts] at hcode
  have htries : Tries U s st (n + codeSize (.saveStart 0 :: fill 0 (t.code 1) ++ [.saveEnd 0])) 0 (execFail st)
      (.inl st) ((t.results U s neededPrecautions 1 (MatchState.save ⟨p, fun _ => none⟩ 0)).map (·.save 1)) :=
    hwhole n st ⟨p, fun _ => none⟩ hcode.left hpc hσ
  rw [RegexpTree.attempt]
  generalize (t.results U s neededPrecautions 1 (MatchState.save ⟨p, fun _ => none⟩ 0)).map (·.save 1) = σs at htries
  cases σs with
  | nil => exact htries.nil
  | cons σ σs =>
    obtain ⟨st', hleads, hst'⟩ := htries.cons
    apply hleads.trans
    apply Leads.single
    rw [hcode.right.step U hst'.pc]
    show Sum.inr (Except.ok (LreResult.matched ((List.range (2 * s.captureCount)).map st'.capture))) =
      Sum.inr (Except.ok (LreResult.matched ((List.range (2 * s.captureCount)).map σ.capture)))
    rw [List.map_congr_left fun j hj => hst'.shows.capture j (List.mem_range.mp hj)]

lemma search_leads (hcode : CodeAt s 0 (searchLoop false ++ .saveStart 0 :: fill 0 (t.code 1) ++
      [.saveEnd 0, .matched])) (n : ℕ) (hp : p ≤ s.cbufEnd) (hn : s.cbufEnd - p ≤ n) :
    Leads (lreExecBacktrack U s) (.inl ⟨0, p, fun _ => none, [], []⟩)
      (.inr (.ok (matchResult s.captureCount
        ((searchPositions s n p).findSome? (t.attempt U s neededPrecautions))))) := by
  have hpattern : CodeAt s 11 (.saveStart 0 :: fill 0 (t.code 1) ++ [.saveEnd 0, .matched]) := by
    rw [List.append_assoc] at hcode
    exact hcode.right
  have hattempt (p : ℕ) (hp : p ≤ s.cbufEnd) :
      Leads (lreExecBacktrack U s) (.inl ⟨0, p, fun _ => none, [], []⟩)
        (afterAttempt s (ExecState.branch ⟨5, p, fun _ => none, [], []⟩ 11 5) (t.attempt U s neededPrecautions p)) :=
    (Leads.single (hcode.step U rfl)).trans
      (attempt_leads ht hend hgroups hpattern rfl ⟨rfl, fun _ _ => rfl, hp⟩)
  have hnext (p : ℕ) : Leads (lreExecBacktrack U s) (execFail (ExecState.branch ⟨5, p, fun _ => none, [], []⟩ 11 5))
      (if p < s.cbufEnd then .inl ⟨0, (getChar s p s.cbufEnd).2, fun _ => none, [], []⟩
        else .inr (.ok .noMatch)) := by
    have hany : CodeAt s 5 [.any, .goto (-11)] := by
      rw [List.append_assoc] at hcode
      exact hcode.left.tail
    have hstep : lreExecBacktrack U s ⟨5, p, fun _ => none, [], []⟩ =
        overChar s (fun _ => true) ⟨6, p, fun _ => none, [], []⟩ := hany.step U rfl
    rw [execFail_branch]
    apply Leads.head
    rw [hstep, overChar]
    by_cases hlt : p < s.cbufEnd
    · rw [if_neg (by exact not_le.mpr hlt), if_pos hlt]
      exact .single (hany.tail.step U rfl)
    · rw [if_pos (by exact not_lt.mp hlt), if_neg hlt]
      exact .refl _
  induction n generalizing p with
  | zero =>
    have hlast := hnext p
    rw [if_neg (by omega)] at hlast
    rw [searchPositions, List.findSome?_singleton]
    have hleads := hattempt p hp
    cases ho : t.attempt U s neededPrecautions p with
    | none =>
      rw [ho] at hleads
      exact hleads.trans hlast
    | some σ =>
      rw [ho] at hleads
      exact hleads
  | succ n ih =>
    have hleads := hattempt p hp
    rw [searchPositions, List.findSome?_cons]
    cases ho : t.attempt U s neededPrecautions p with
    | none =>
      rw [ho] at hleads
      apply hleads.trans
      have hbehind := hnext p
      split at hbehind
      · next hlt =>
        have hstep := lt_getChar s p s.cbufEnd
        rw [if_pos hlt]
        exact hbehind.trans (ih (getChar_le s hlt) (by omega))
      · next hge =>
        rw [if_neg hge]
        exact hbehind
    | some σ =>
      rw [ho] at hleads
      exact hleads

end Attempt

section Exec

variable {U : Libunicode} {buf : Bytes} {reFlags : ℕ} {bc : Bytecode} {t : RegexpTree}

lemma lreCompile_code (hc : lreCompile U buf reFlags = .ok bc) (ht : Parses U buf reFlags t) :
    bc.captureCount = 1 + t.groups ∧ bc.code = searchLoop (decide (reFlags &&& lreFlagSticky ≠ 0)) ++
      .saveStart 0 :: fill 0 (t.code 1) ++ [.saveEnd 0, .matched] := by
  have hcount := (lreCompile_counted hc ht).captures
  obtain ⟨s, hs, -⟩ := ht.code
  obtain ⟨code, s', st, hs', -, hst, rfl⟩ := lreCompile_ok_iff.mp hc
  obtain ⟨rfl, rfl⟩ := Prod.mk.inj (Except.ok.inj (hs.symm.trans hs'))
  rw [wholeCode] at hst
  generalize decide (reFlags &&& lreFlagSticky ≠ 0) = isSticky at hst ⊢
  obtain ⟨hcode, -⟩ := registers_fill hst
  have hsearch : fill 0 (searchLoop isSticky) = searchLoop isSticky ∧ depth 0 (searchLoop isSticky) = 0 := by
    cases isSticky <;> exact ⟨rfl, rfl⟩
  refine ⟨hcount, ?_⟩
  show st.code = _
  rw [hcode]
  simp [hsearch.1, hsearch.2, Op.fill, Op.depth, t.depth_code]

theorem lreExec_firstMatch (hc : lreCompile U buf reFlags = .ok bc) (ht : Parses U buf reFlags t)
    (hdir : t.Directed false) {cbuf : List ℕ} {cindex clen cbufType : ℕ} (hcindex : cindex ≤ clen)
    (hshift : clen <<< cbufType ≤ int32Max) :
    LreExec U bc cbuf cindex clen cbufType (.ok (matchResult bc.captureCount
      (t.firstMatch U (.start bc cbuf clen cbufType) neededPrecautions (decide (reFlags &&& lreFlagSticky ≠ 0))
        (startPosition (.start bc cbuf clen cbufType) cindex)))) := by
  obtain ⟨hcount, hcode⟩ := lreCompile_code hc ht
  have hstart : startPosition (.start bc cbuf clen cbufType) cindex ≤ clen := by
    rw [startPosition]
    split <;> omega
  have hat : CodeAt (.start bc cbuf clen cbufType) 0 bc.code := ⟨[], [], (List.append_nil _).symm, rfl⟩
  have hgroups : 1 + t.groups ≤ (REExecContext.start bc cbuf clen cbufType).captureCount := hcount.ge
  rw [hcode] at hat
  have hclen := le_shifted hshift
  rw [LreExec, if_pos hshift]
  apply Leads.returns
  rw [RegexpTree.firstMatch]
  cases hsticky : decide (reFlags &&& lreFlagSticky ≠ 0) with
  | false =>
    rw [hsticky] at hat
    exact search_leads hdir hclen hgroups hat _ hstart le_rfl
  | true =>
    rw [hsticky] at hat
    have hleads := attempt_leads (U := U) hdir hclen hgroups hat
      (show (ExecState.mk 0 (startPosition _ cindex) (fun _ => none) [] []).pc = (0 : ℕ) from rfl)
      ⟨rfl, fun _ _ => rfl, hstart⟩
    rw [if_pos rfl]
    cases ho : t.attempt U (.start bc cbuf clen cbufType) neededPrecautions
        (startPosition (.start bc cbuf clen cbufType) cindex) with
    | none =>
      rw [ho] at hleads
      exact hleads
    | some σ =>
      rw [ho] at hleads
      exact hleads

end Exec

end Jsregexp
