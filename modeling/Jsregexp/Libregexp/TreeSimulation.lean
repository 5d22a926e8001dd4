import Jsregexp.Libregexp.Loops

namespace Jsregexp

open Library.Iteration Library.Backtracking Library.Repetition

section Tree

variable {U : Libunicode} {s : REExecContext} {isBackwardDir : Bool} {t : RegexpTree}

lemma bodyPerforms {body : RegexpTree} {i : ℕ} (hgroups : i + body.groups ≤ s.captureCount) (init : Bool)
    (h : ∀ k, Performs U s k (fill k (body.code i)) (body.results U s neededPrecautions i)) :
    BodyPerforms U s (resetCode init i (i + body.groups) ++ body.code i)
      fun σ => body.results U s neededPrecautions i (beforeTurn init i body.groups σ) := by
  constructor
  · intro k
    rw [fill_append, fill_resetCode, depth_resetCode]
    exact ((performs_reset init hgroups).append (h k)).congr fun σ => List.flatMap_singleton _ _
  · intro k
    rw [depth_append, depth_resetCode, body.depth_code]

lemma performs_behindReset {k : ℕ} (reset : Bool) {first count : ℕ} (hcount : first + count ≤ s.captureCount)
    {code : List Op} {f : MatchState → List MatchState} (h : Performs U s k (fill k code) f) :
    Performs U s k (fill k (resetCode reset first (first + count) ++ code))
      fun σ => f (beforeTurn reset first count σ) := by
  rw [fill_append, fill_resetCode, depth_resetCode]
  exact ((performs_reset reset hcount).append h).congr fun σ => List.flatMap_singleton _ _

lemma performs_form {check init greedy : Bool} {i count min max k : ℕ} {bodyCode code : List Op}
    {f : MatchState → List MatchState}
    (hform : QuantifierForm (resetCode (!init) i (i + count)) bodyCode check greedy min max code)
    (hcount : i + count ≤ s.captureCount) (hend : s.cbufEnd ≤ int32Max) (hle : min ≤ max) (hmax : max ≤ int32Max)
    (hperforms : BodyPerforms U s bodyCode f)
    (hadv : ∀ σ, ∀ τ ∈ (f σ).filter fun τ => !stays check σ τ, Advances s isBackwardDir σ τ) :
    Performs U s k (fill k code) fun σ =>
      repetitions f (stays check) greedy min max (beforeTurn (decide (min = 0) && !init) i count σ) := by
  have hbound : int32Max < 2 ^ 32 := by decide
  have howed {min : ℕ} (hmin : 0 < min) {code : List Op} (hcode : Performs U s k code
      (repetitions f (stays check) greedy min max)) : Performs U s k code fun σ =>
        repetitions f (stays check) greedy min max (beforeTurn (decide (min = 0) && !init) i count σ) := by
    rw [decide_eq_false (by omega)]
    exact hcode
  cases hform with
  | never =>
    have hcode := performs_behindReset (!init) hcount (show Performs U s k (fill k []) _ from performs_nil)
    rw [List.append_nil] at hcode
    exact hcode
  | once =>
    apply performs_behindReset (f := repetitions f (stays check) greedy 0 1) (!init) hcount
    have hturn := (hperforms.performs_turn (k := k) check).once greedy
    rw [codeSize_fill] at hturn
    apply hturn.congr
    intro σ
    rw [repetitions, if_neg (lt_irrefl 0), turn_zero]
    exact congrArg (choice greedy · σ) (List.flatMap_singleton' _).symm
  | star =>
    apply performs_behindReset (f := repetitions f (stays check) greedy 0 int32Max) (!init) hcount
    have hturns := Performs.star hadv (hperforms.performs_turn (k := k) check) hend greedy
    rw [codeSize_fill] at hturns
    simpa [Op.fill, Op.depth] using hturns
  | upTo hne =>
    obtain ⟨m, rfl⟩ := Nat.exists_eq_succ_of_ne_zero hne
    apply performs_behindReset (f := repetitions f (stays check) greedy 0 (m + 1)) (!init) hcount
    have hcounted := (hperforms.counted (k := k) (m := m) greedy
      (loopSplit_fill check (!greedy) (m + 1)) (fun _ => rfl) (by omega)).once greedy
    rw [codeSize_fill] at hcounted
    apply hcounted.congr
    intro σ
    rw [repetitions, if_neg (lt_irrefl 0), Nat.sub_self, show m - (m + 1) = 0 - 1 by omega]
  | plus hcheck =>
    subst hcheck
    have hplus := Performs.plus (fun σ τ hτ => hadv σ τ (by simpa [stays] using hτ)) (hperforms.performs k) hend greedy
    rw [codeSize_fill] at hplus
    rw [fill_append]
    exact hplus
  | fixed hn =>
    obtain ⟨m, rfl⟩ := Nat.exists_eq_succ_of_ne_zero hn.ne'
    apply howed hn
    have hcounted := hperforms.counted (k := k) (m := m) greedy (loop_fill (!greedy)) (fun _ => rfl)
      (by omega)
    apply hcounted.congr
    intro σ
    rw [repetitions_fixed f (stays check) (stays false), repetitions, if_pos m.succ_pos]
    rfl
  | counted hmin =>
    obtain ⟨m, rfl⟩ := Nat.exists_eq_succ_of_ne_zero (show max ≠ 0 by omega)
    apply howed hmin
    have hcounted := hperforms.counted (k := k) (m := m) greedy
      (loopSplit_fill check (!greedy) (m + 1 - min)) (fun _ => rfl) (by omega)
    apply hcounted.congr
    intro σ
    rw [repetitions, if_pos hmin, show m + 1 - (m + 1 - min) = min by omega,
      show m - (m + 1 - min) = min - 1 by omega]

lemma performs_quantified {body : RegexpTree} (hbody : body.Directed isBackwardDir) (hend : s.cbufEnd ≤ int32Max)
    {i min max : ℕ} (hle : min ≤ max) (hmax : max ≤ int32Max) (greedy : Bool) (k : ℕ)
    (hgroups : i + body.groups ≤ s.captureCount)
    (h : ∀ k, Performs U s k (fill k (body.code i)) (body.results U s neededPrecautions i)) :
    Performs U s k (fill k (quantified (body.code i) i (i + body.groups) min max greedy))
      ((RegexpTree.repeated body min max greedy).results U s neededPrecautions i) := by
  apply performs_form (quantified_form (body.code i) i (i + body.groups) min max greedy) hgroups hend hle hmax
    (bodyPerforms hgroups (neededPrecautions (body.code i)).2 h)
  intro σ τ hτ
  obtain ⟨hτ, hstays⟩ := List.mem_filter.mp hτ
  have hstart : Moves s isBackwardDir σ (beforeTurn (neededPrecautions (body.code i)).2 i body.groups σ) :=
    moves_of_cptr (beforeTurn_cptr _ i body.groups σ)
  cases hcheck : (reNeedCheckAdvAndCaptureInit (body.code i) true false).1 with
  | false => exact hstart.trans_advances (hbody.advances U s _ hcheck hτ)
  | true =>
    rw [hcheck, stays] at hstays
    exact (hstart.trans (hbody.moves U s _ i hτ)).advances (by simpa using hstays)

theorem tree_performs (h : t.Directed isBackwardDir) (hend : s.cbufEnd ≤ int32Max) (i k : ℕ)
    (hgroups : i + t.groups ≤ s.captureCount) :
    Performs U s k (fill k (t.code i)) (t.results U s neededPrecautions i) := by
  induction h generalizing i k with
  | atom h hcode =>
    rw [RegexpTree.code, fill_of_plain fun op hop => (h op hop).1]
    exact hcode.performs
  | @append isBackwardDir a b _ _ iha ihb =>
    rw [RegexpTree.groups] at hgroups
    have ha := iha i k (by omega)
    have hb := ihb (i + a.groups) k (by omega)
    cases isBackwardDir with
    | false =>
      rw [RegexpTree.code, if_neg Bool.false_ne_true, fill_append, a.depth_code]
      exact ha.append hb
    | true =>
      rw [RegexpTree.code, if_pos rfl, fill_append, b.depth_code]
      exact hb.append ha
  | @alternative isBackwardDir a b _ _ iha ihb =>
    rw [RegexpTree.groups] at hgroups
    have hab := (iha i k (by omega)).alternative (ihb (i + a.groups) k (by omega))
    have hcode : fill k ((RegexpTree.alternative a b).code i) = .split true (codeSize (fill k (a.code i)) + 5) ::
        fill k (a.code i) ++ .goto (codeSize (fill k (b.code (i + a.groups)))) :: fill k (b.code (i + a.groups)) := by
      simp [RegexpTree.code, Op.fill, Op.depth, a.depth_code]
    rw [hcode]
    exact hab
  | @capture isBackwardDir body _ ih =>
    rw [RegexpTree.groups] at hgroups
    have hbody := (ih (i + 1) k (by omega)).capture isBackwardDir (show i < s.captureCount by omega)
    have hcode : fill k ((RegexpTree.capture isBackwardDir body).code i) =
        (if isBackwardDir then .saveEnd i else .saveStart i) :: fill k (body.code (i + 1)) ++
          [if isBackwardDir then .saveStart i else .saveEnd i] := by
      cases isBackwardDir <;> simp [RegexpTree.code, Op.fill, Op.depth, body.depth_code]
    rw [hcode]
    exact hbody
  | @lookahead _ _ isNeg body _ ih =>
    have hbody := (ih i k hgroups).lookahead isNeg
    have hcode : fill k ((RegexpTree.lookahead isNeg body).code i) =
        .lookahead isNeg (codeSize (fill k (body.code i)) + 1) :: fill k (body.code i) ++ [.lookaheadMatch isNeg] := by
      simp [RegexpTree.code, Op.fill, Op.depth, body.depth_code]
    rw [hcode]
    exact hbody
  | @repeated isBackwardDir greedy min max body hbody hle hmax ih =>
    exact performs_quantified hbody hend hle hmax greedy k hgroups fun k => ih i k hgroups

end Tree

end Jsregexp
