import Jsregexp.Library.Fallible
import Jsregexp.Libregexp.Compile
import Jsregexp.Libregexp.Quantifier

namespace Jsregexp

open Library.Fallible

def tooManyRegisters : Failure := .raised (bytesOf "too many imbricated quantifiers")

/-- The code finds `a` registers of its own on the stack, has `n` of them there at the most and leaves `b`; only the
limit of the stack stops it. -/
def RegisterUse (a b n : ℕ) (code : List Op) : Prop :=
  ∀ st k, st.stackSize = k + a → st.stackSize ≤ st.stackSizeMax →
    Post (· = tooManyRegisters) (fun st' => st'.stackSize = k + b ∧ st'.stackSize ≤ st'.stackSizeMax ∧
      st'.stackSizeMax = max st.stackSizeMax (k + n)) (code.foldlM registerStep st)

def Balanced (code : List Op) : Prop := ∃ n, RegisterUse 0 0 n code

def Op.usesRegister : Op → Bool
  | .setI32 _ _ | .setCharPos _ | .checkAdvance _ | .loop _ _ | .loopSplit _ _ _ _ _ => true
  | _ => false

lemma registerStep_plain {op : Op} (h : op.usesRegister = false) (st : RegisterState) :
    registerStep st op = .ok { st with code := st.code ++ [op] } := by
  cases op <;> first | rfl | cases h

lemma registerStep_max {st st' : RegisterState} {op : Op} (h : registerStep st op = .ok st')
    (hst : st.stackSizeMax ≤ registerCountMax) : st'.stackSizeMax ≤ registerCountMax := by
  have hpush {op : ℕ → Op} (h : registerPush st op = .ok st') : st'.stackSizeMax ≤ registerCountMax := by
    rw [registerPush] at h
    split at h
    · cases h
    · next hlt =>
      obtain rfl := Except.ok.inj h
      show max (st.stackSize + 1) st.stackSizeMax ≤ registerCountMax
      omega
  have hpop {n : ℕ} {op : ℕ → Op} (h : registerPop st n op = .ok st') : st'.stackSizeMax ≤ registerCountMax := by
    rw [registerPop] at h
    split at h
    · cases h
    · obtain rfl := Except.ok.inj h
      exact hst
  cases hop : op.usesRegister with
  | false =>
    rw [registerStep_plain hop] at h
    obtain rfl := Except.ok.inj h
    exact hst
  | true =>
    cases op with
    | setI32 reg val => exact @hpush (.setI32 · val) h
    | setCharPos => exact @hpush .setCharPos h
    | checkAdvance => exact @hpop 1 .checkAdvance h
    | loop reg off => exact @hpop 1 (.loop · off) h
    | loopSplit checkAdv nextFirst reg limit off =>
      cases checkAdv with
      | false => exact @hpop 1 (.loopSplit false nextFirst · limit off) h
      | true => exact @hpop 2 (.loopSplit true nextFirst · limit off) h
    | _ => cases hop

lemma registerCount_le {code : List Op} {st : RegisterState} (h : computeRegisterCount code = .ok st) :
    st.stackSizeMax ≤ registerCountMax := by
  rw [computeRegisterCount] at h
  generalize hst₀ : RegisterState.mk 0 0 [] = st₀ at h
  have hmax : st₀.stackSizeMax ≤ registerCountMax := hst₀ ▸ Nat.zero_le _
  clear hst₀
  induction code generalizing st₀ with
  | nil =>
    obtain rfl := Except.ok.inj h
    exact hmax
  | cons op code ih =>
    rw [List.foldlM_cons] at h
    obtain ⟨st₁, hop, h⟩ := except_bind_ok_iff.mp h
    exact ih st₁ h (registerStep_max hop hmax)

lemma lreCompile_registerCount {U : Libunicode} {buf : Bytes} {reFlags : ℕ} {bc : Bytecode}
    (h : lreCompile U buf reFlags = .ok bc) : bc.registerCount ≤ registerCountMax := by
  obtain ⟨code, s, st, -, -, hst, rfl⟩ := lreCompile_ok_iff.mp h
  exact registerCount_le hst

section Use

variable {a b c m n : ℕ} {code code' : List Op}

lemma registerUse_nil : RegisterUse a a a [] := fun _ _ h hle => ⟨h, hle, by omega⟩

lemma RegisterUse.append (h : RegisterUse a b m code) (h' : RegisterUse b c n code') :
    RegisterUse a c (max m n) (code ++ code') := by
  intro st k hst hle
  rw [List.foldlM_append]
  apply (h st k hst hle).bind
  intro st₁ ⟨hst₁, hle₁, hmax₁⟩
  apply (h' st₁ k hst₁ hle₁).mono
  intro st₂ ⟨hst₂, hle₂, hmax₂⟩
  exact ⟨hst₂, hle₂, by omega⟩

lemma RegisterUse.frame (h : RegisterUse a b n code) (j : ℕ) : RegisterUse (j + a) (j + b) (j + n) code := by
  intro st k hst hle
  rw [← Nat.add_assoc] at hst
  apply (h st (k + j) hst hle).mono
  intro st' ⟨hst', hle', hmax'⟩
  exact ⟨by omega, hle', by omega⟩

lemma registerUse_single {op : Op} (h : ∀ st k, st.stackSize = k + a → st.stackSize ≤ st.stackSizeMax →
    Post (· = tooManyRegisters) (fun st' => st'.stackSize = k + b ∧ st'.stackSize ≤ st'.stackSizeMax ∧
      st'.stackSizeMax = max st.stackSizeMax (k + n)) (registerStep st op)) : RegisterUse a b n [op] := by
  intro st k hst hle
  rw [List.foldlM_cons]
  exact (h st k hst hle).bind fun _ h => h

lemma RegisterUse.cons {op : Op} (h : RegisterUse a b m [op]) (h' : RegisterUse b c n code) :
    RegisterUse a c (max m n) (op :: code) :=
  h.append h'

lemma registerUse_plain {op : Op} (h : op.usesRegister = false) : RegisterUse 0 0 0 [op] := by
  apply registerUse_single
  intro st k hst hle
  rw [registerStep_plain h]
  exact ⟨hst, hle, by dsimp only; omega⟩

lemma registerUse_of_plain (h : ∀ op ∈ code, op.usesRegister = false) : RegisterUse 0 0 0 code := by
  induction code with
  | nil => exact registerUse_nil
  | cons op code ih =>
    exact (registerUse_plain (h op List.mem_cons_self)).cons (ih fun op hop => h op (List.mem_cons_of_mem _ hop))

lemma RegisterUse.front (h : RegisterUse 0 0 0 code) (h' : RegisterUse 0 b n code') :
    RegisterUse 0 b n (code ++ code') := by
  have hall := h.append h'
  rwa [Nat.max_eq_right (Nat.zero_le _)] at hall

lemma RegisterUse.back (h : RegisterUse a 0 n code) (h' : RegisterUse 0 0 0 code') :
    RegisterUse a 0 n (code ++ code') := by
  have hall := h.append h'
  rwa [Nat.max_eq_left (Nat.zero_le _)] at hall

lemma RegisterUse.between {op op' : Op} (h : RegisterUse 0 0 n code) (hop : op.usesRegister = false)
    (hop' : op'.usesRegister = false) : RegisterUse 0 0 n (op :: code ++ [op']) :=
  ((registerUse_plain hop).front h).back (registerUse_plain hop')

lemma registerPush_use (op : ℕ → Op) (st : RegisterState) (k : ℕ) (hst : st.stackSize = k + 0)
    (hle : st.stackSize ≤ st.stackSizeMax) :
    Post (· = tooManyRegisters) (fun st' => st'.stackSize = k + 1 ∧ st'.stackSize ≤ st'.stackSizeMax ∧
      st'.stackSizeMax = max st.stackSizeMax (k + 1)) (registerPush st op) := by
  rw [registerPush]
  split
  · trivial
  · refine ⟨?_, ?_, ?_⟩ <;> dsimp only <;> omega

lemma registerPop_use (op : ℕ → Op) (n : ℕ) (st : RegisterState) (k : ℕ) (hst : st.stackSize = k + n)
    (hle : st.stackSize ≤ st.stackSizeMax) :
    Post (· = tooManyRegisters) (fun st' => st'.stackSize = k + 0 ∧ st'.stackSize ≤ st'.stackSizeMax ∧
      st'.stackSizeMax = max st.stackSizeMax (k + n)) (registerPop st n op) := by
  rw [registerPop, if_neg (by omega)]
  refine ⟨?_, ?_, ?_⟩ <;> dsimp only <;> omega

lemma registerUse_setI32 (reg val : ℕ) : RegisterUse 0 1 1 [.setI32 reg val] :=
  registerUse_single fun st k => registerPush_use (.setI32 · val) st k

lemma registerUse_setCharPos (reg : ℕ) : RegisterUse 0 1 1 [.setCharPos reg] :=
  registerUse_single fun st k => registerPush_use .setCharPos st k

lemma registerUse_checkAdvance (reg : ℕ) : RegisterUse 1 0 1 [.checkAdvance reg] :=
  registerUse_single fun st k => registerPop_use .checkAdvance 1 st k

lemma registerUse_loop (reg : ℕ) (off : ℤ) : RegisterUse 1 0 1 [.loop reg off] :=
  registerUse_single fun st k => registerPop_use (.loop · off) 1 st k

lemma registerUse_loopSplit (checkAdv nextFirst : Bool) (reg limit : ℕ) (off : ℤ) :
    RegisterUse (if checkAdv then 2 else 1) 0 (if checkAdv then 2 else 1)
      [.loopSplit checkAdv nextFirst reg limit off] := by
  cases checkAdv with
  | false => exact registerUse_single fun st k => registerPop_use (.loopSplit false nextFirst · limit off) 1 st k
  | true => exact registerUse_single fun st k => registerPop_use (.loopSplit true nextFirst · limit off) 2 st k

end Use

section Quantified

variable {n : ℕ} {body atom : List Op}

lemma registerUse_resetCode (reset : Bool) (first last : ℕ) : RegisterUse 0 0 0 (resetCode reset first last) := by
  rw [resetCode]
  split
  · exact registerUse_plain rfl
  · exact registerUse_nil

lemma registerUse_behind {reset code : List Op} (hreset : RegisterUse 0 0 0 reset) (greedy : Bool) (off : ℤ)
    (h : RegisterUse 0 0 n code) : RegisterUse 0 0 n (reset ++ .split greedy off :: code) :=
  hreset.front ((registerUse_plain rfl).front h)

lemma registerUse_turn (h : RegisterUse 0 0 n body) (check : Bool) :
    RegisterUse 0 0 (n + if check then 1 else 0) (turnCode check body) := by
  cases check with
  | false => simpa [turnCode, charPos, advanceCheck] using h
  | true =>
    have hall := ((registerUse_setCharPos 0).append (h.frame 1)).append (registerUse_checkAdvance 0)
    rwa [show max (max 1 (1 + n)) 1 = n + 1 by omega] at hall

lemma registerUse_counted (h : RegisterUse 0 0 n body) (check : Bool) (val : ℕ) {loop : ℤ → Op}
    (hloop : ∀ off, RegisterUse (if check then 2 else 1) 0 (if check then 2 else 1) [loop off]) :
    RegisterUse 0 0 (n + ((if check then 1 else 0) + 1)) (countedCode check val body loop) := by
  rw [countedCode]
  generalize -((codeSize (charPos check) : ℤ) + codeSize body + (loop 0).size) = off
  cases check with
  | false =>
    have hall := (registerUse_setI32 0 val).append ((h.frame 1).append (hloop off))
    rwa [show max 1 (max (1 + n) (if false = true then 2 else 1)) = n + (0 + 1) by simp; omega] at hall
  | true =>
    have hall := (registerUse_setI32 0 val).append
      ((((registerUse_setCharPos 0).append (h.frame 1)).frame 1).append (hloop off))
    rwa [show max 1 (max (1 + max 1 (1 + n)) (if true = true then 2 else 1)) = n + (1 + 1) by simp; omega] at hall

lemma QuantifierForm.registerUse {reset code : List Op} {check greedy : Bool} {min max : ℕ}
    (hform : QuantifierForm reset body check greedy min max code) (hreset : RegisterUse 0 0 0 reset)
    (h : RegisterUse 0 0 n body) :
    RegisterUse 0 0 (if min = 0 ∧ max = 0 then 0 else n + quantifierRegisters check min max) code := by
  cases hform with
  | never => exact hreset
  | once => exact registerUse_behind hreset greedy _ (registerUse_turn h check)
  | star => exact registerUse_behind hreset greedy _ ((registerUse_turn h check).back (registerUse_plain rfl))
  | upTo hmax hone hinf =>
    have hup := registerUse_behind hreset greedy
      (codeSize (countedCode check max body (.loopSplit check (!greedy) 0 max)))
      (registerUse_counted h check max (registerUse_loopSplit check (!greedy) 0 max))
    simpa [quantifierRegisters, hmax, hone, hinf] using hup
  | plus hcheck =>
    subst hcheck
    exact h.back (registerUse_plain rfl)
  | fixed hn =>
    have hne : ¬ (min = 1 ∧ min = int32Max ∧ ¬ check = true) := by
      rintro ⟨rfl, hinf, -⟩
      exact absurd hinf (by decide)
    rw [if_neg (by omega), quantifierRegisters, if_neg hn.ne', if_neg hne, if_pos rfl]
    exact registerUse_counted h false min (registerUse_loop 0)
  | counted hmin hplus hne =>
    have hcounted := registerUse_counted h check max (registerUse_loopSplit check (!greedy) 0 (max - min))
    rw [if_neg (by omega), quantifierRegisters, if_neg hmin.ne', if_neg hplus, if_neg hne]
    exact hcounted

theorem registerUse_quantified (h : RegisterUse 0 0 n atom) (first last min max : ℕ) (greedy : Bool) :
    RegisterUse 0 0 (if min = 0 ∧ max = 0 then 0 else
      n + quantifierRegisters (reNeedCheckAdvAndCaptureInit atom true false).1 min max)
      (quantified atom first last min max greedy) :=
  (quantified_form atom first last min max greedy).registerUse (registerUse_resetCode _ _ _)
    ((registerUse_resetCode _ _ _).front h)

end Quantified

section Balance

variable {code code' : List Op} {op : Op}

lemma RegisterUse.balanced {n : ℕ} (h : RegisterUse 0 0 n code) : Balanced code := ⟨n, h⟩

lemma Balanced.append (h : Balanced code) (h' : Balanced code') : Balanced (code ++ code') := by
  obtain ⟨m, h⟩ := h
  obtain ⟨n, h'⟩ := h'
  exact (h.append h').balanced

lemma Balanced.cons (h : Balanced [op]) (h' : Balanced code) : Balanced (op :: code) := h.append h'

lemma balanced_nil : Balanced [] := registerUse_nil.balanced

lemma balanced_plain (h : op.usesRegister = false) : Balanced [op] := (registerUse_plain h).balanced

lemma balanced_of_plain (h : ∀ op ∈ code, op.usesRegister = false) : Balanced code := (registerUse_of_plain h).balanced

lemma Balanced.quantified (h : Balanced code) (first last min max : ℕ) (greedy : Bool) :
    Balanced (quantified code first last min max greedy) := by
  obtain ⟨n, h⟩ := h
  exact (registerUse_quantified h first last min max greedy).balanced

end Balance

end Jsregexp
