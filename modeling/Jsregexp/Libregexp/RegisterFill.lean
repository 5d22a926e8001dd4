import Jsregexp.Libregexp.SyntaxTree

namespace Jsregexp

def Op.fill (k : ℕ) : Op → Op
  | .setI32 _ val => .setI32 k val
  | .setCharPos _ => .setCharPos k
  | .checkAdvance _ => .checkAdvance (k - 1)
  | .loop _ off => .loop (k - 1) off
  | .loopSplit checkAdv nextFirst _ limit off =>
    .loopSplit checkAdv nextFirst (k - if checkAdv then 2 else 1) limit off
  | op => op

def Op.depth (k : ℕ) : Op → ℕ
  | .setI32 _ _ | .setCharPos _ => k + 1
  | .checkAdvance _ | .loop _ _ => k - 1
  | .loopSplit checkAdv _ _ _ _ => k - if checkAdv then 2 else 1
  | _ => k

def fill : ℕ → List Op → List Op
  | _, [] => []
  | k, op :: code => op.fill k :: fill (op.depth k) code

def depth : ℕ → List Op → ℕ
  | k, [] => k
  | k, op :: code => depth (op.depth k) code

section Fill

variable {k : ℕ} {op : Op} {code code' : List Op}

@[simp] lemma fill_nil : fill k [] = [] := rfl
@[simp] lemma fill_cons : fill k (op :: code) = op.fill k :: fill (op.depth k) code := rfl
@[simp] lemma depth_nil : depth k [] = k := rfl
@[simp] lemma depth_cons : depth k (op :: code) = depth (op.depth k) code := rfl

@[simp] lemma fill_append : fill k (code ++ code') = fill k code ++ fill (depth k code) code' := by
  induction code generalizing k with
  | nil => rfl
  | cons op code ih => simp [ih]

@[simp] lemma depth_append : depth k (code ++ code') = depth (depth k code) code' := by
  induction code generalizing k with
  | nil => rfl
  | cons op code ih => simp [ih]

@[simp] lemma size_fill : (op.fill k).size = op.size := by cases op <;> rfl

@[simp] lemma codeSize_fill : codeSize (fill k code) = codeSize code := by
  induction code generalizing k with
  | nil => rfl
  | cons op code ih => simp [ih]

lemma fill_plain (h : op.usesRegister = false) : op.fill k = op := by
  cases op <;> first | rfl | cases h

lemma depth_plain (h : op.usesRegister = false) : op.depth k = k := by
  cases op <;> first | rfl | cases h

lemma fill_of_plain (h : ∀ op ∈ code, op.usesRegister = false) : fill k code = code := by
  induction code with
  | nil => rfl
  | cons op code ih =>
    have hop := h op List.mem_cons_self
    rw [fill_cons, fill_plain hop, depth_plain hop, ih fun o ho => h o (List.mem_cons_of_mem _ ho)]

lemma depth_of_plain (h : ∀ op ∈ code, op.usesRegister = false) : depth k code = k := by
  induction code with
  | nil => rfl
  | cons op code ih =>
    rw [depth_cons, depth_plain (h op List.mem_cons_self), ih fun o ho => h o (List.mem_cons_of_mem _ ho)]

variable {st st' : RegisterState}

lemma registerPush_fill (op : ℕ → Op) (h : registerPush st op = .ok st') :
    st'.code = st.code ++ [op st.stackSize] ∧ st'.stackSize = st.stackSize + 1 := by
  rw [registerPush] at h
  split at h
  · cases h
  · obtain rfl := Except.ok.inj h
    exact ⟨rfl, rfl⟩

lemma registerPop_fill {n : ℕ} (op : ℕ → Op) (h : registerPop st n op = .ok st') :
    st'.code = st.code ++ [op (st.stackSize - n)] ∧ st'.stackSize = st.stackSize - n := by
  rw [registerPop] at h
  split at h
  · cases h
  · obtain rfl := Except.ok.inj h
    exact ⟨rfl, rfl⟩

lemma registerStep_fill (h : registerStep st op = .ok st') :
    st'.code = st.code ++ [op.fill st.stackSize] ∧ st'.stackSize = op.depth st.stackSize := by
  by_cases hop : op.usesRegister = true
  · cases op with
    | setI32 reg val => exact registerPush_fill (.setI32 · val) h
    | setCharPos reg => exact registerPush_fill .setCharPos h
    | checkAdvance reg => exact registerPop_fill .checkAdvance h
    | loop reg off => exact registerPop_fill (.loop · off) h
    | loopSplit checkAdv nextFirst reg limit off =>
      cases checkAdv with
      | false => exact registerPop_fill (.loopSplit false nextFirst · limit off) h
      | true => exact registerPop_fill (.loopSplit true nextFirst · limit off) h
    | _ => cases hop
  · have hplain := Bool.eq_false_of_not_eq_true hop
    rw [registerStep_plain hplain] at h
    obtain rfl := Except.ok.inj h
    rw [fill_plain hplain, depth_plain hplain]
    exact ⟨rfl, rfl⟩

theorem registers_fill (h : code.foldlM registerStep st = .ok st') :
    st'.code = st.code ++ fill st.stackSize code ∧ st'.stackSize = depth st.stackSize code := by
  induction code generalizing st with
  | nil =>
    obtain rfl := Except.ok.inj h
    exact ⟨(List.append_nil _).symm, rfl⟩
  | cons op code ih =>
    rw [List.foldlM_cons] at h
    obtain ⟨st₁, h₁, hrest⟩ := except_bind_ok_iff.mp h
    obtain ⟨hcode₁, hsize₁⟩ := registerStep_fill h₁
    obtain ⟨hcode, hsize⟩ := ih hrest
    rw [hcode, hsize, hcode₁, hsize₁, List.append_assoc]
    exact ⟨rfl, rfl⟩

end Fill

section Depth

variable {k : ℕ} {body : List Op}

lemma depth_resetCode (reset : Bool) (first last : ℕ) : depth k (resetCode reset first last) = k := by
  rw [resetCode]
  split <;> rfl

lemma fill_resetCode (reset : Bool) (first last : ℕ) :
    fill k (resetCode reset first last) = resetCode reset first last := by
  rw [resetCode]
  split <;> rfl

theorem RegexpTree.depth_code (t : RegexpTree) (i : ℕ) : depth k (t.code i) = k := by
  induction t generalizing i k with
  | atom code h => exact depth_of_plain fun op hop => (h op hop).1
  | append isBackwardDir a b iha ihb =>
    rw [code]
    split
    · rw [depth_append, ihb, iha]
    · rw [depth_append, iha, ihb]
  | alternative a b iha ihb => simp [code, iha, ihb, Op.depth]
  | capture isBackwardDir body ih => cases isBackwardDir <;> simp [code, ih, Op.depth]
  | lookahead isNeg body ih => simp [code, ih, Op.depth]
  | repeated body min max greedy ih =>
    have hform := quantified_form (body.code i) i (i + body.groups) min max greedy
    rw [code]
    generalize quantified (body.code i) i (i + body.groups) min max greedy = code at hform
    generalize (reNeedCheckAdvAndCaptureInit (body.code i) true false).1 = check at hform
    cases hform with
    | never => exact depth_resetCode _ _ _
    | once | star | upTo | counted =>
      cases check <;>
        simp [turnCode, countedCode, charPos, advanceCheck, depth_resetCode, ih, Op.depth]
    | plus hcheck => simp [depth_resetCode, ih, Op.depth]
    | fixed hn => simp [countedCode, charPos, depth_resetCode, ih, Op.depth]

end Depth

end Jsregexp
