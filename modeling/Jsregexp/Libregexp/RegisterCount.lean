import Jsregexp.Libregexp.SyntaxTree

/-! The number of registers that `compute_register_count` finds for a tree: the quantifiers around one place of the
pattern have registers of their own, and quantifiers side by side share them. -/

namespace Jsregexp

open Library.Fallible

lemma SlotFreeCode.use {code : List Op} (h : SlotFreeCode code) : RegisterUse 0 0 0 code :=
  registerUse_of_plain fun op hop => (h op hop).1

theorem RegexpTree.registerUse (t : RegexpTree) (i : ℕ) : RegisterUse 0 0 (t.loops i) (t.code i) := by
  induction t generalizing i with
  | atom code h => exact h.use
  | append isBackwardDir a b iha ihb =>
    rw [code, loops]
    split
    · exact max_comm (a.loops i) _ ▸ (ihb _).append (iha i)
    · exact (iha i).append (ihb _)
  | alternative a b iha ihb =>
    exact ((registerUse_plain rfl).front (iha i)).append ((registerUse_plain rfl).front (ihb _))
  | capture isBackwardDir body ih => cases isBackwardDir <;> exact (ih (i + 1)).between rfl rfl
  | lookahead isNeg body ih => exact (ih i).between rfl rfl
  | repeated body min max greedy ih => exact registerUse_quantified (ih i) i _ min max greedy

section Below

def Op.registers : Op → List ℕ
  | .setI32 reg _ | .setCharPos reg | .checkAdvance reg | .loop reg _ => [reg]
  | .loopSplit checkAdv _ reg _ _ => if checkAdv then [reg, reg + 1] else [reg]
  | _ => []

def CapturesBelow (count : ℕ) (code : List Op) : Prop := ∀ op ∈ code, ∀ k ∈ op.captures, k < 2 * count

def SlotsBelow (captureCount registerCount : ℕ) (code : List Op) : Prop :=
  ∀ op ∈ code, (∀ k ∈ op.captures, k < 2 * captureCount) ∧ ∀ reg ∈ op.registers, reg < registerCount

variable {count count' : ℕ} {op : Op} {code code' : List Op}

lemma capturesBelow_nil : CapturesBelow count [] := fun _ h => by cases h

lemma CapturesBelow.append (h : CapturesBelow count code) (h' : CapturesBelow count code') :
    CapturesBelow count (code ++ code') := by
  intro o ho
  rcases List.mem_append.mp ho with ho | ho
  · exact h o ho
  · exact h' o ho

lemma CapturesBelow.cons (hop : ∀ k ∈ op.captures, k < 2 * count) (h : CapturesBelow count code) :
    CapturesBelow count (op :: code) := by
  intro o ho
  rcases List.mem_cons.mp ho with rfl | ho
  · exact hop
  · exact h o ho

lemma capturesBelow_single (hop : ∀ k ∈ op.captures, k < 2 * count) : CapturesBelow count [op] :=
  capturesBelow_nil.cons hop

lemma capturesBelow_free (hop : op.captures = []) : ∀ k ∈ op.captures, k < 2 * count := by
  rw [hop]
  intro k hk
  cases hk

lemma SlotFreeCode.below (h : SlotFreeCode code) : CapturesBelow count code :=
  fun op hop => capturesBelow_free (h op hop).2

lemma CapturesBelow.mono (h : CapturesBelow count code) (hle : count ≤ count') : CapturesBelow count' code :=
  fun op hop k hk => (h op hop k hk).trans_le (Nat.mul_le_mul_left 2 hle)

lemma captures_saveReset {first : ℕ} (hlt : first < count) :
    ∀ k ∈ (Op.saveReset first (count - 1)).captures, k < 2 * count := by
  intro k hk
  obtain ⟨n, hn, hk⟩ := List.mem_flatMap.mp hk
  rw [List.mem_range'_1] at hn
  simp only [List.mem_cons, List.not_mem_nil, or_false] at hk
  omega

lemma capturesBelow_resetCode (reset : Bool) {first : ℕ} (hle : first ≤ count) :
    CapturesBelow count (resetCode reset first count) := by
  rw [resetCode]
  split
  · next hreset =>
    simp only [ne_eq, Bool.and_eq_true, decide_eq_true_eq] at hreset
    exact capturesBelow_single (captures_saveReset (by omega))
  · exact capturesBelow_nil

lemma QuantifierForm.capturesBelow {reset body code : List Op} {check greedy : Bool} {min max : ℕ}
    (hform : QuantifierForm reset body check greedy min max code) (hreset : CapturesBelow count reset)
    (h : CapturesBelow count body) : CapturesBelow count code := by
  have hcharPos : CapturesBelow count (charPos check) := by
    cases check with
    | false => exact capturesBelow_nil
    | true => exact capturesBelow_single (capturesBelow_free rfl)
  have hturn : CapturesBelow count (turnCode check body) := by
    cases check with
    | false => simpa [turnCode, charPos, advanceCheck] using h
    | true => exact (hcharPos.append h).append (capturesBelow_single (capturesBelow_free rfl))
  have hcounted (val limit : ℕ) :
      CapturesBelow count (countedCode check val body (.loopSplit check (!greedy) 0 limit)) :=
    ((hcharPos.append h).append (capturesBelow_single (capturesBelow_free rfl))).cons (capturesBelow_free rfl)
  cases hform with
  | never => exact hreset
  | once => exact hreset.append (hturn.cons (capturesBelow_free rfl))
  | star =>
    exact hreset.append ((hturn.cons (capturesBelow_free rfl)).append (capturesBelow_single (capturesBelow_free rfl)))
  | upTo => exact hreset.append ((hcounted _ _).cons (capturesBelow_free rfl))
  | plus => exact h.append (capturesBelow_single (capturesBelow_free rfl))
  | fixed => exact (h.append (capturesBelow_single (capturesBelow_free rfl))).cons (capturesBelow_free rfl)
  | counted => exact hcounted _ _

lemma capturesBelow_quantified {atom : List Op} (h : CapturesBelow count atom) {first : ℕ} (hle : first ≤ count)
    (min max : ℕ) (greedy : Bool) : CapturesBelow count (quantified atom first count min max greedy) :=
  (quantified_form atom first count min max greedy).capturesBelow (capturesBelow_resetCode _ hle)
    ((capturesBelow_resetCode _ hle).append h)

theorem RegexpTree.capturesBelow (t : RegexpTree) (i : ℕ) : CapturesBelow (i + t.groups) (t.code i) := by
  induction t generalizing i with
  | atom code h => exact h.below
  | append isBackwardDir a b iha ihb =>
    have ha : CapturesBelow (i + (a.groups + b.groups)) (a.code i) := (iha i).mono (by omega)
    have hb : CapturesBelow (i + (a.groups + b.groups)) (b.code (i + a.groups)) := (ihb _).mono (by omega)
    rw [code, groups]
    split
    · exact hb.append ha
    · exact ha.append hb
  | alternative a b iha ihb =>
    have ha : CapturesBelow (i + (a.groups + b.groups)) (a.code i) := (iha i).mono (by omega)
    have hb : CapturesBelow (i + (a.groups + b.groups)) (b.code (i + a.groups)) := (ihb _).mono (by omega)
    exact (ha.cons (capturesBelow_free rfl)).append (hb.cons (capturesBelow_free rfl))
  | capture isBackwardDir body ih =>
    have hbody : CapturesBelow (i + (body.groups + 1)) (body.code (i + 1)) := (ih _).mono (by omega)
    have hsave (o : Op) (ho : o = .saveStart i ∨ o = .saveEnd i) :
        ∀ k ∈ o.captures, k < 2 * (i + (body.groups + 1)) := by
      rcases ho with rfl | rfl <;> simp only [Op.captures, List.mem_singleton] <;> omega
    cases isBackwardDir
    · exact (hbody.cons (hsave _ (.inl rfl))).append (capturesBelow_single (hsave _ (.inr rfl)))
    · exact (hbody.cons (hsave _ (.inr rfl))).append (capturesBelow_single (hsave _ (.inl rfl)))
  | lookahead isNeg body ih =>
    exact ((ih i).cons (capturesBelow_free rfl)).append (capturesBelow_single (capturesBelow_free rfl))
  | repeated body min max greedy ih => exact capturesBelow_quantified (ih i) (Nat.le_add_right _ _) min max greedy

end Below

section Fill

variable {count : ℕ} {st st' : RegisterState}

structure Filled (st : RegisterState) (op : Op) (st' : RegisterState) : Prop where
  code : ∃ op', st'.code = st.code ++ [op'] ∧ op'.captures = op.captures ∧ ∀ reg ∈ op'.registers, reg < st'.stackSizeMax
  max : st.stackSizeMax ≤ st'.stackSizeMax
  size : st'.stackSize ≤ st'.stackSizeMax

lemma registerPush_filled (op : ℕ → Op) {o : Op}
    (hop : ∀ reg, (op reg).captures = o.captures ∧ (op reg).registers = [reg])
    (h : registerPush st op = .ok st') : Filled st o st' := by
  rw [registerPush] at h
  split at h
  · cases h
  obtain rfl := Except.ok.inj h
  refine ⟨⟨_, rfl, (hop _).1, fun reg hreg => ?_⟩, ?_, ?_⟩
  · rw [(hop _).2, List.mem_singleton] at hreg
    dsimp only
    omega
  all_goals
    dsimp only
    omega

lemma registerPop_filled (op : ℕ → Op) {o : Op} {n : ℕ} (hpos : 0 < n)
    (hop : ∀ reg, (op reg).captures = o.captures ∧ ∀ r ∈ (op reg).registers, r < reg + n)
    (hle : st.stackSize ≤ st.stackSizeMax) (h : registerPop st n op = .ok st') : Filled st o st' := by
  rw [registerPop] at h
  split at h
  · cases h
  next hn =>
  obtain rfl := Except.ok.inj h
  refine ⟨⟨_, rfl, (hop _).1, fun reg hreg => ?_⟩, le_rfl, ?_⟩
  · have hlt := (hop _).2 reg hreg
    dsimp only
    omega
  · dsimp only
    omega

lemma registerStep_filled {op : Op} (hle : st.stackSize ≤ st.stackSizeMax) (h : registerStep st op = .ok st') :
    Filled st op st' := by
  by_cases hop : op.usesRegister = true
  · cases op with
    | setI32 reg val => exact registerPush_filled (.setI32 · val) (fun _ => ⟨rfl, rfl⟩) h
    | setCharPos reg => exact registerPush_filled .setCharPos (fun _ => ⟨rfl, rfl⟩) h
    | checkAdvance reg =>
      exact registerPop_filled .checkAdvance Nat.one_pos (fun _ => ⟨rfl, by simp [Op.registers]⟩) hle h
    | loop reg off => exact registerPop_filled (.loop · off) Nat.one_pos (fun _ => ⟨rfl, by simp [Op.registers]⟩) hle h
    | loopSplit checkAdv nextFirst reg limit off =>
      cases checkAdv with
      | false =>
        exact registerPop_filled (.loopSplit false nextFirst · limit off) Nat.one_pos
          (fun _ => ⟨rfl, by simp [Op.registers]⟩) hle h
      | true =>
        exact registerPop_filled (.loopSplit true nextFirst · limit off) Nat.two_pos
          (fun _ => ⟨rfl, by simp [Op.registers]⟩) hle h
    | _ => cases hop
  · have hfree : op.registers = [] := by cases op <;> first | rfl | exact absurd rfl hop
    rw [registerStep_plain (Bool.eq_false_of_not_eq_true hop)] at h
    obtain rfl := Except.ok.inj h
    exact ⟨⟨op, rfl, rfl, by rw [hfree]; simp⟩, le_rfl, hle⟩

lemma registers_below {code : List Op} (hle : st.stackSize ≤ st.stackSizeMax)
    (hst : SlotsBelow count st.stackSizeMax st.code) (hcode : CapturesBelow count code)
    (h : code.foldlM registerStep st = .ok st') : SlotsBelow count st'.stackSizeMax st'.code := by
  induction code generalizing st with
  | nil =>
    obtain rfl := Except.ok.inj h
    exact hst
  | cons op code ih =>
    rw [List.foldlM_cons] at h
    obtain ⟨st₁, h₁, hrest⟩ := except_bind_ok_iff.mp h
    obtain ⟨⟨op', hop', hcaptures, hregisters⟩, hmax, hsize⟩ := registerStep_filled hle h₁
    refine ih hsize ?_ (fun o ho => hcode o (List.mem_cons_of_mem _ ho)) hrest
    intro o ho
    rw [hop', List.mem_append, List.mem_singleton] at ho
    rcases ho with ho | rfl
    · exact ⟨(hst o ho).1, fun reg hreg => ((hst o ho).2 reg hreg).trans_le hmax⟩
    · exact ⟨hcaptures ▸ hcode op List.mem_cons_self, hregisters⟩

end Fill

structure Counted (t : RegexpTree) (bc : Bytecode) : Prop where
  captures : bc.captureCount = 1 + t.groups
  registers : bc.registerCount = t.loops 1
  slots : SlotsBelow bc.captureCount bc.registerCount bc.code

theorem lreCompile_counted {U : Libunicode} {buf : Bytes} {reFlags : ℕ} {t : RegexpTree} {bc : Bytecode}
    (hc : lreCompile U buf reFlags = .ok bc) (ht : Parses U buf reFlags t) : Counted t bc := by
  obtain ⟨s, hs, hcount⟩ := ht.code
  have hplain : SlotFreeCode (searchLoop (decide (reFlags &&& lreFlagSticky ≠ 0))) := by
    rw [searchLoop]
    split
    · exact slotFree_nil
    · exact ((slotFree_single ⟨rfl, rfl⟩).cons ⟨rfl, rfl⟩).cons ⟨rfl, rfl⟩
  have huse : RegisterUse 0 0 (t.loops 1) (searchLoop (decide (reFlags &&& lreFlagSticky ≠ 0)) ++
      .saveStart 0 :: t.code 1 ++ [.saveEnd 0, .matched]) := by
    have hbehind : RegisterUse 0 0 0 [Op.saveEnd 0, .matched] := (registerUse_plain rfl).front (registerUse_plain rfl)
    exact (hplain.use.front ((registerUse_plain rfl).front (t.registerUse 1))).back hbehind
  have hbelow : CapturesBelow (1 + t.groups) (searchLoop (decide (reFlags &&& lreFlagSticky ≠ 0)) ++
      .saveStart 0 :: t.code 1 ++ [.saveEnd 0, .matched]) := by
    have hsave (o : Op) (ho : o = .saveStart 0 ∨ o = .saveEnd 0) : ∀ k ∈ o.captures, k < 2 * (1 + t.groups) := by
      rcases ho with rfl | rfl <;> simp only [Op.captures, List.mem_singleton] <;> omega
    refine (hplain.below.append ((t.capturesBelow 1).cons (hsave _ (.inl rfl)))).append ?_
    exact (capturesBelow_single (capturesBelow_free rfl)).cons (hsave _ (.inr rfl))
  obtain ⟨code, s', st, hs', -, hst, rfl⟩ := lreCompile_ok_iff.mp hc
  obtain ⟨rfl, rfl⟩ := Prod.mk.inj (Except.ok.inj (hs.symm.trans hs'))
  obtain ⟨-, -, hmax⟩ := (huse ⟨0, 0, []⟩ 0 rfl le_rfl).ok hst
  have hslots := registers_below le_rfl (fun _ h => absurd h List.not_mem_nil) hbelow hst
  refine ⟨hcount, ?_, ?_⟩
  · show st.stackSizeMax = t.loops 1
    rw [hmax]
    simp
  · show SlotsBelow s.captureCount _ _
    rw [hcount]
    exact hslots

end Jsregexp
