import Jsregexp.Libregexp.Quantifier
import Jsregexp.Libregexp.Semantics
import Jsregexp.JsStringText

namespace Jsregexp

open Library.Repetition

section Moves

variable (s : REExecContext)

def ahead (isBackwardDir : Bool) (p : ℕ) : ℕ := if isBackwardDir then p else s.cbufEnd - p

def Moves (isBackwardDir : Bool) (σ σ' : MatchState) : Prop :=
  σ.cptr ≤ s.cbufEnd → σ'.cptr ≤ s.cbufEnd ∧ ahead s isBackwardDir σ'.cptr ≤ ahead s isBackwardDir σ.cptr

def Advances (isBackwardDir : Bool) (σ σ' : MatchState) : Prop :=
  σ.cptr ≤ s.cbufEnd → σ'.cptr ≤ s.cbufEnd ∧ ahead s isBackwardDir σ'.cptr < ahead s isBackwardDir σ.cptr

variable {s} {isBackwardDir : Bool} {σ τ υ : MatchState}

lemma Moves.refl (σ : MatchState) : Moves s isBackwardDir σ σ := fun h => ⟨h, le_rfl⟩

lemma moves_of_cptr (h : τ.cptr = σ.cptr) : Moves s isBackwardDir σ τ := by
  rw [Moves, h]
  exact fun hσ => ⟨hσ, le_rfl⟩

lemma Moves.trans (h : Moves s isBackwardDir σ τ) (h' : Moves s isBackwardDir τ υ) : Moves s isBackwardDir σ υ := by
  intro hσ
  have hτ := h hσ
  have hυ := h' hτ.1
  exact ⟨hυ.1, hυ.2.trans hτ.2⟩

lemma Advances.moves (h : Advances s isBackwardDir σ τ) : Moves s isBackwardDir σ τ :=
  fun hσ => ⟨(h hσ).1, (h hσ).2.le⟩

lemma Advances.trans_moves (h : Advances s isBackwardDir σ τ) (h' : Moves s isBackwardDir τ υ) :
    Advances s isBackwardDir σ υ := by
  intro hσ
  have hτ := h hσ
  have hυ := h' hτ.1
  exact ⟨hυ.1, hυ.2.trans_lt hτ.2⟩

lemma Moves.trans_advances (h : Moves s isBackwardDir σ τ) (h' : Advances s isBackwardDir τ υ) :
    Advances s isBackwardDir σ υ := by
  intro hσ
  have hτ := h hσ
  have hυ := h' hτ.1
  exact ⟨hυ.1, hυ.2.trans_le hτ.2⟩

lemma Advances.ne (h : Advances s isBackwardDir σ τ) (hσ : σ.cptr ≤ s.cbufEnd) : τ.cptr ≠ σ.cptr := by
  intro heq
  have hlt := (h hσ).2
  rw [heq] at hlt
  exact lt_irrefl _ hlt

lemma Moves.advances (h : Moves s isBackwardDir σ τ) (hne : τ.cptr ≠ σ.cptr) : Advances s isBackwardDir σ τ := by
  intro hσ
  obtain ⟨hτ, hle⟩ := h hσ
  refine ⟨hτ, lt_of_le_of_ne hle ?_⟩
  intro heq
  rw [ahead, ahead] at heq
  split at heq
  · exact hne heq
  · omega

end Moves

section Position

variable (s : REExecContext) {p : ℕ}

lemma lt_getChar (p cbufEnd : ℕ) : p < (getChar s p cbufEnd).2 := by
  rw [getChar]
  split
  · exact Nat.lt_add_of_pos_right Nat.two_pos
  · exact p.lt_succ_self

lemma getChar_le {cbufEnd : ℕ} (h : p < cbufEnd) : (getChar s p cbufEnd).2 ≤ cbufEnd := by
  rw [getChar]
  split
  · next hpair => exact hpair.2.2.1
  · exact h

lemma getPrevChar_lt (h : p ≠ 0) (cbufStart : ℕ) : (getPrevChar s p cbufStart).2 < p := by
  rw [getPrevChar]
  split <;> dsimp only <;> omega

lemma getPrevChar_getChar (h : p ≠ 0) (hend : p ≤ s.cbufEnd) :
    (getPrevChar s (getChar s (getPrevChar s p 0).2 s.cbufEnd).2 0).2 = (getPrevChar s p 0).2 := by
  obtain ⟨p, rfl⟩ := Nat.exists_eq_succ_of_ne_zero h
  by_cases hpair : isLoSurrogate (s.cbuf.getD p 0) ∧ s.cbufType = 2 ∧ 0 < p ∧
      isHiSurrogate (s.cbuf.getD (p - 1) 0)
  · obtain ⟨q, rfl⟩ := Nat.exists_eq_succ_of_ne_zero hpair.2.2.1.ne'
    have hprev : (getPrevChar s (q + 2) 0).2 = q := by
      rw [getPrevChar, if_pos (by simpa using hpair)]
      simp
    have hnext : (getChar s q s.cbufEnd).2 = q + 2 := by
      rw [getChar, if_pos ⟨hpair.2.2.2, hpair.2.1, by omega, hpair.1⟩]
    rw [hprev, hnext, hprev]
  · have hprev : (getPrevChar s (p + 1) 0).2 = p := by
      rw [getPrevChar, if_neg (by simpa using hpair)]
      simp
    rw [hprev, getChar]
    split
    · next hnext =>
      rw [getPrevChar, if_pos (by simpa using ⟨hnext.2.2.2, hnext.2.1, hnext.1⟩)]
      simp
    · exact hprev

lemma sameChars_bounds (U : Libunicode) (ignoreCase : Bool) (cptr1End n cptr1 : ℕ) {cptr cptr' : ℕ}
    (hend : cptr ≤ s.cbufEnd) (h : sameChars s U ignoreCase cptr1End n cptr1 cptr = some cptr') :
    cptr ≤ cptr' ∧ cptr' ≤ s.cbufEnd := by
  induction n generalizing cptr1 cptr with
  | zero => exact Option.some.inj h ▸ ⟨le_rfl, hend⟩
  | succ n ih =>
    rw [sameChars] at h
    split at h
    · split at h
      · cases h
      · next hlt =>
        dsimp only at h
        split at h
        · cases h
        · obtain ⟨hle, hend'⟩ := ih _ (getChar_le s (not_le.mp hlt)) h
          exact ⟨(lt_getChar s _ _).le.trans hle, hend'⟩
    · exact Option.some.inj h ▸ ⟨le_rfl, hend⟩

lemma sameCharsBackward_le (U : Libunicode) (ignoreCase : Bool) (cptr1Start n cptr1 : ℕ) {cptr cptr' : ℕ}
    (h : sameCharsBackward s U ignoreCase cptr1Start n cptr1 cptr = some cptr') : cptr' ≤ cptr := by
  induction n generalizing cptr1 cptr with
  | zero => exact Option.some.inj h ▸ le_rfl
  | succ n ih =>
    rw [sameCharsBackward] at h
    split at h
    · split at h
      · cases h
      · next hne =>
        dsimp only at h
        split at h
        · cases h
        · exact (ih _ h).trans (getPrevChar_lt s hne 0).le
    · exact Option.some.inj h ▸ le_rfl

end Position

section Atom

variable (U : Libunicode) (s : REExecContext) {isBackwardDir : Bool} {σ τ : MatchState} {op : Op} {code : List Op}

lemma atomStep_char (h : op.IsChar) (σ : MatchState) : atomStep U s σ op = σ.over s (charTest U s op) := by
  cases op <;> first | rfl | cases h

lemma atomStep_position (h : op.IsPosition) (σ : MatchState) :
    atomStep U s σ op = σ.onlyIf (positionTest s op σ.cptr) := by
  cases op <;> first | rfl | cases h

lemma over_eq_some {accepts : ℕ → Bool} (h : σ.over s accepts = some τ) :
    σ.cptr < s.cbufEnd ∧ τ = { σ with cptr := (getChar s σ.cptr s.cbufEnd).2 } := by
  rw [MatchState.over] at h
  split at h
  · cases h
  · next hlt =>
    dsimp only at h
    split at h
    · exact ⟨not_le.mp hlt, (Option.some.inj h).symm⟩
    · cases h

lemma over_advances {accepts : ℕ → Bool} (h : σ.over s accepts = some τ) : Advances s false σ τ := by
  obtain ⟨hlt, rfl⟩ := over_eq_some s h
  intro _
  have hle := getChar_le s hlt
  have hnext := lt_getChar s σ.cptr s.cbufEnd
  refine ⟨hle, ?_⟩
  show s.cbufEnd - _ < s.cbufEnd - _
  dsimp only
  omega

lemma prev_eq_some (h : atomStep U s σ .prev = some τ) :
    σ.cptr ≠ 0 ∧ τ = { σ with cptr := (getPrevChar s σ.cptr 0).2 } := by
  rw [atomStep] at h
  split at h
  · cases h
  · next hne => exact ⟨hne, (Option.some.inj h).symm⟩

lemma directed_char_advances (h : op.IsChar)
    (hτ : (directed isBackwardDir [op]).foldlM (atomStep U s) σ = some τ) : Advances s isBackwardDir σ τ := by
  have hop := atomStep_char U s h
  cases isBackwardDir with
  | false =>
    have hone : σ.over s (charTest U s op) = some τ := by simpa [directed, hop] using hτ
    exact over_advances s hone
  | true =>
    obtain ⟨σ₁, h₁, σ₂, h₂, h₃⟩ : ∃ σ₁, atomStep U s σ .prev = some σ₁ ∧ ∃ σ₂,
        σ₁.over s (charTest U s op) = some σ₂ ∧ atomStep U s σ₂ .prev = some τ := by
      simpa [directed, hop, Option.bind_eq_some_iff] using hτ
    obtain ⟨hne, rfl⟩ := prev_eq_some U s h₁
    obtain ⟨-, rfl⟩ := over_eq_some s h₂
    obtain ⟨-, rfl⟩ := prev_eq_some U s h₃
    intro hσ
    have hlt := getPrevChar_lt s hne 0
    show (getPrevChar s _ 0).2 ≤ _ ∧ (getPrevChar s _ 0).2 < σ.cptr
    dsimp only
    rw [getPrevChar_getChar s hne hσ]
    exact ⟨hlt.le.trans hσ, hlt⟩

lemma position_eq_some (h : op.IsPosition) (hτ : atomStep U s σ op = some τ) : τ = σ := by
  rw [atomStep_position U s h, MatchState.onlyIf] at hτ
  split at hτ
  · exact (Option.some.inj hτ).symm
  · cases hτ

lemma refer_moves {ignoreCase : Bool} {groups : List ℕ}
    (h : σ.refer U s isBackwardDir ignoreCase groups = some τ) : Moves s isBackwardDir σ τ := by
  rw [MatchState.refer] at h
  split at h
  · cases h
  · exact Option.some.inj h ▸ .refl σ
  · dsimp only at h
    obtain ⟨cptr, hcptr, rfl⟩ := Option.map_eq_some_iff.mp h
    intro hσ
    cases isBackwardDir with
    | false =>
      obtain ⟨hle, hend⟩ := sameChars_bounds s U _ _ _ _ hσ hcptr
      exact ⟨hend, Nat.sub_le_sub_left hle _⟩
    | true =>
      have hle := sameCharsBackward_le s U _ _ _ _ hcptr
      exact ⟨hle.trans hσ, hle⟩

lemma AtomCode.moves (h : AtomCode isBackwardDir code) (hτ : code.foldlM (atomStep U s) σ = some τ) :
    Moves s isBackwardDir σ τ := by
  cases h with
  | empty => exact Option.some.inj hτ ▸ .refl σ
  | @position op hop =>
    have hone : atomStep U s σ op = some τ := by simpa using hτ
    exact position_eq_some U s hop hone ▸ .refl _
  | reference ignoreCase groups => exact refer_moves U s (by simpa [atomStep] using hτ)
  | char hop => exact (directed_char_advances U s hop hτ).moves

end Atom

section Tree

variable (U : Libunicode) (s : REExecContext) (need : Precautions) {isBackwardDir : Bool} {t : RegexpTree}

@[simp] lemma beforeTurn_cptr (init : Bool) (first count : ℕ) (σ : MatchState) :
    (beforeTurn init first count σ).cptr = σ.cptr := by
  rw [beforeTurn]
  split <;> rfl

lemma lookaheadResults_cptr {isNeg : Bool} {σ τ : MatchState} {σs : List MatchState}
    (h : τ ∈ lookaheadResults isNeg σ σs) : τ.cptr = σ.cptr := by
  cases σs with
  | nil =>
    cases isNeg with
    | false => cases h
    | true => rw [List.mem_singleton.mp h]
  | cons σ' σs =>
    cases isNeg with
    | false => rw [List.mem_singleton.mp h]
    | true => cases h

theorem RegexpTree.Directed.moves (h : t.Directed isBackwardDir) (i : ℕ) {σ τ : MatchState}
    (hτ : τ ∈ t.results U s need i σ) : Moves s isBackwardDir σ τ := by
  induction h generalizing i σ τ with
  | atom h hcode => exact hcode.moves U s (Option.mem_toList.mp hτ)
  | @append isBackwardDir a b _ _ iha ihb =>
    rw [results] at hτ
    split at hτ
    · obtain ⟨υ, hυ, hτ⟩ := List.mem_flatMap.mp hτ
      exact (ihb _ hυ).trans (iha _ hτ)
    · obtain ⟨υ, hυ, hτ⟩ := List.mem_flatMap.mp hτ
      exact (iha _ hυ).trans (ihb _ hτ)
  | alternative _ _ iha ihb =>
    rcases List.mem_append.mp hτ with hτ | hτ
    · exact iha _ hτ
    · exact ihb _ hτ
  | capture _ ih =>
    obtain ⟨υ, hυ, rfl⟩ := List.mem_map.mp hτ
    exact (moves_of_cptr rfl).trans ((ih _ hυ).trans (moves_of_cptr rfl))
  | lookahead _ _ => exact moves_of_cptr (lookaheadResults_cptr hτ)
  | @repeated _ _ _ _ body _ _ _ ih =>
    rw [results] at hτ
    refine .trans (moves_of_cptr (beforeTurn_cptr _ _ _ _)) (rel_of_mem Moves.refl Moves.trans (fun σ τ hτ => ?_) hτ)
    exact (moves_of_cptr (beforeTurn_cptr (need (body.code i)).2 i body.groups σ)).trans (ih i hτ)

lemma scan_char {op : Op} (h : op.IsChar) (code : List Op) (checkAdv captureInit : Bool) :
    reNeedCheckAdvAndCaptureInit (op :: code) checkAdv captureInit =
      reNeedCheckAdvAndCaptureInit code false captureInit := by
  cases op <;> first | rfl | cases h

lemma scan_position {op : Op} (h : op.IsPosition) (code : List Op) (checkAdv captureInit : Bool) :
    reNeedCheckAdvAndCaptureInit (op :: code) checkAdv captureInit =
      reNeedCheckAdvAndCaptureInit code checkAdv captureInit := by
  cases op <;> first | rfl | cases h

lemma scan_quantified (atom rest : List Op) (first last min max : ℕ) (greedy checkAdv init : Bool) :
    (min = 0 ∧ max = 0 ∧
        reNeedCheckAdvAndCaptureInit (quantified atom first last min max greedy ++ rest) checkAdv init =
          reNeedCheckAdvAndCaptureInit rest checkAdv init) ∨
      reNeedCheckAdvAndCaptureInit (quantified atom first last min max greedy ++ rest) checkAdv init =
        (checkAdv, true) ∨
      0 < min ∧ ∃ op rest', (∀ checkAdv init,
          reNeedCheckAdvAndCaptureInit (op :: rest') checkAdv init = (checkAdv, true)) ∧
        reNeedCheckAdvAndCaptureInit (quantified atom first last min max greedy ++ rest) checkAdv init =
          reNeedCheckAdvAndCaptureInit (atom ++ op :: rest') checkAdv init := by
  have hreset (reset : Bool) (code : List Op) : reNeedCheckAdvAndCaptureInit (resetCode reset first last ++ code)
      checkAdv init = reNeedCheckAdvAndCaptureInit code checkAdv init := by
    rw [resetCode]
    split <;> rfl
  have hcounted {check : Bool} {val : ℕ} {loop : ℤ → Op} {body : List Op} : reNeedCheckAdvAndCaptureInit
      (countedCode check val body loop ++ rest) checkAdv init = reNeedCheckAdvAndCaptureInit
        (body ++ loop (-(codeSize (charPos check) + codeSize body + (loop 0).size)) :: rest) checkAdv init := by
    rw [countedCode, charPos]
    split <;> simp [reNeedCheckAdvAndCaptureInit]
  have hform := quantified_form atom first last min max greedy
  generalize quantified atom first last min max greedy = code at hform ⊢
  cases hform with
  | never => exact .inl ⟨rfl, rfl, hreset _ _⟩
  | once | star | upTo =>
    rw [List.append_assoc, hreset]
    exact .inr (.inl rfl)
  | plus hcheck =>
    rw [List.append_assoc, List.append_assoc, hreset]
    exact .inr (.inr ⟨Nat.one_pos, _, _, fun _ _ => rfl, rfl⟩)
  | fixed hn =>
    rw [hcounted, List.append_assoc, hreset]
    exact .inr (.inr ⟨hn, _, _, fun _ _ => rfl, rfl⟩)
  | counted hmin =>
    rw [hcounted, List.append_assoc, hreset]
    exact .inr (.inr ⟨hmin, _, _, fun _ _ => rfl, rfl⟩)

lemma scan_tree (h : t.Directed isBackwardDir) (i : ℕ) (rest : List Op) (init : Bool)
    (hscan : (reNeedCheckAdvAndCaptureInit (t.code i ++ rest) true init).1 = false) :
    (∀ σ, ∀ τ ∈ t.results U s need i σ, Advances s isBackwardDir σ τ) ∨
      ∃ init', (reNeedCheckAdvAndCaptureInit rest true init').1 = false := by
  induction h generalizing i rest init with
  | atom h hcode =>
    cases hcode with
    | empty => exact .inr ⟨_, hscan⟩
    | position hop =>
      rw [RegexpTree.code, List.singleton_append, scan_position hop] at hscan
      exact .inr ⟨_, hscan⟩
    | reference ignoreCase groups => exact .inr ⟨true, hscan⟩
    | char hop => exact .inl fun σ τ hτ => directed_char_advances U s hop (Option.mem_toList.mp hτ)
  | @append isBackwardDir a b ha hb iha ihb =>
    rw [RegexpTree.code] at hscan
    cases isBackwardDir with
    | false =>
      rw [if_neg Bool.false_ne_true, List.append_assoc] at hscan
      rcases iha i _ init hscan with hadv | ⟨init', hscan⟩
      · refine .inl fun σ τ hτ => ?_
        obtain ⟨υ, hυ, hτ⟩ := List.mem_flatMap.mp hτ
        exact (hadv σ υ hυ).trans_moves (hb.moves U s need _ hτ)
      · rcases ihb _ _ init' hscan with hadv | hrest
        · refine .inl fun σ τ hτ => ?_
          obtain ⟨υ, hυ, hτ⟩ := List.mem_flatMap.mp hτ
          exact (ha.moves U s need _ hυ).trans_advances (hadv υ τ hτ)
        · exact .inr hrest
    | true =>
      rw [if_pos rfl, List.append_assoc] at hscan
      rcases ihb _ _ init hscan with hadv | ⟨init', hscan⟩
      · refine .inl fun σ τ hτ => ?_
        obtain ⟨υ, hυ, hτ⟩ := List.mem_flatMap.mp hτ
        exact (hadv σ υ hυ).trans_moves (ha.moves U s need _ hτ)
      · rcases iha _ _ init' hscan with hadv | hrest
        · refine .inl fun σ τ hτ => ?_
          obtain ⟨υ, hυ, hτ⟩ := List.mem_flatMap.mp hτ
          exact (hb.moves U s need _ hυ).trans_advances (hadv υ τ hτ)
        · exact .inr hrest
  | alternative _ _ _ _ => cases hscan
  | @capture isBackwardDir body h ih =>
    have hbody : (reNeedCheckAdvAndCaptureInit (body.code (i + 1) ++
        (if isBackwardDir then .saveStart i else .saveEnd i) :: rest) true init).1 = false := by
      cases isBackwardDir <;> simpa [RegexpTree.code, reNeedCheckAdvAndCaptureInit] using hscan
    rcases ih _ _ init hbody with hadv | ⟨init', hrest⟩
    · refine .inl fun σ τ hτ => ?_
      obtain ⟨υ, hυ, rfl⟩ := List.mem_map.mp hτ
      have hbody := hadv _ υ hυ
      exact hbody
    · refine .inr ⟨init', ?_⟩
      cases isBackwardDir <;> exact hrest
  | lookahead _ _ => cases hscan
  | @repeated isBackwardDir greedy min max body h hle hmax ih =>
    rcases scan_quantified (body.code i) rest i (i + body.groups) min max greedy true init with
      ⟨-, -, hcode⟩ | hcode | ⟨hmin, op, rest', hstop, hcode⟩
    · exact .inr ⟨init, (congrArg Prod.fst hcode).symm.trans hscan⟩
    · cases (congrArg Prod.fst hcode).symm.trans hscan
    · rcases ih i _ init ((congrArg Prod.fst hcode).symm.trans hscan) with hadv | ⟨init', hrest⟩
      · refine .inl fun σ τ hτ => ?_
        rw [RegexpTree.results] at hτ
        have hturn (σ τ : MatchState)
            (hτ : τ ∈ body.results U s need i (beforeTurn (need (body.code i)).2 i body.groups σ)) :
            Advances s isBackwardDir σ τ :=
          (moves_of_cptr (beforeTurn_cptr _ _ _ σ)).trans_advances (hadv _ τ hτ)
        apply (moves_of_cptr (beforeTurn_cptr (decide (min = 0) && !(need (body.code i)).2) i body.groups
          σ)).trans_advances
        exact first_of_mem (R := Moves s isBackwardDir) .refl .trans (fun σ τ hτ => (hturn σ τ hτ).moves)
          Advances.trans_moves (hturn _) hmin hle hτ
      · rw [hstop] at hrest
        cases hrest

theorem RegexpTree.Directed.advances (h : t.Directed isBackwardDir) {i : ℕ} (hstay : t.mayStay i = false)
    {σ τ : MatchState} (hτ : τ ∈ t.results U s need i σ) : Advances s isBackwardDir σ τ := by
  rw [mayStay, ← List.append_nil (t.code i)] at hstay
  rcases scan_tree U s need h i [] false hstay with hadv | ⟨init, hrest⟩
  · exact hadv σ τ hτ
  · cases hrest

end Tree

end Jsregexp
