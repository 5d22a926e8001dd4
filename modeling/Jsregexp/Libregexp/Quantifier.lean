import Jsregexp.Libregexp.Parser

namespace Jsregexp

def charPos (check : Bool) : List Op := if check then [.setCharPos 0] else []

def advanceCheck (check : Bool) : List Op := if check then [.checkAdvance 0] else []

def turnCode (check : Bool) (body : List Op) : List Op := charPos check ++ body ++ advanceCheck check

def countedCode (check : Bool) (val : ℕ) (body : List Op) (loop : ℤ → Op) : List Op :=
  .setI32 0 val :: (charPos check ++ body ++ [loop (-(codeSize (charPos check) + codeSize body + (loop 0).size))])

def resetCode (reset : Bool) (first last : ℕ) : List Op := if reset && decide (first ≠ last) then
    [.saveReset first (last - 1)] else []

/-- The registers around the body of a quantifier: one for the counter, and one for the position at which a turn began
when `check` says that it may end there. -/
def quantifierRegisters (check : Bool) (min max : ℕ) : ℕ :=
  let position := if check then 1 else 0
  if min = 0 then
    if max = 0 then 0
    else if max = 1 ∨ max = int32Max then position
    else position + 1
  else if min = 1 ∧ max = int32Max ∧ ¬ check then 0
  else if min = max then 1
  else position + 1

inductive QuantifierForm (reset body : List Op) (check greedy : Bool) : ℕ → ℕ → List Op → Prop
  | never : QuantifierForm reset body check greedy 0 0 reset
  | once : QuantifierForm reset body check greedy 0 1
      (reset ++ .split greedy (codeSize (turnCode check body)) :: turnCode check body)
  | star : QuantifierForm reset body check greedy 0 int32Max
      (reset ++ (.split greedy (codeSize (turnCode check body) + 5) :: turnCode check body ++
        [.goto (-(codeSize (turnCode check body) + 10))]))
  | upTo {max : ℕ} (hmax : max ≠ 0) (hone : max ≠ 1) (hinf : max ≠ int32Max) :
      QuantifierForm reset body check greedy 0 max
        (reset ++ .split greedy (codeSize (countedCode check max body (.loopSplit check (!greedy) 0 max))) ::
          countedCode check max body (.loopSplit check (!greedy) 0 max))
  | plus (hcheck : check = false) : QuantifierForm reset body check greedy 1 int32Max
      (body ++ [.split (!greedy) (-(codeSize body + 5))])
  | fixed {n : ℕ} (hn : 0 < n) : QuantifierForm reset body check greedy n n (countedCode false n body (.loop 0))
  | counted {min max : ℕ} (hmin : 0 < min) (hplus : ¬ (min = 1 ∧ max = int32Max ∧ ¬ check)) (hne : min ≠ max) :
      QuantifierForm reset body check greedy min max
        (countedCode check max body (.loopSplit check (!greedy) 0 (max - min)))

theorem quantified_form (atom : List Op) (first last min max : ℕ) (greedy : Bool) :
    QuantifierForm (resetCode (!(reNeedCheckAdvAndCaptureInit atom true false).2) first last)
      (resetCode (reNeedCheckAdvAndCaptureInit atom true false).2 first last ++ atom)
      (reNeedCheckAdvAndCaptureInit atom true false).1 greedy min max (quantified atom first last min max greedy) := by
  rw [quantified]
  obtain ⟨check, init⟩ := reNeedCheckAdvAndCaptureInit atom true false
  dsimp only
  have hbody : (if (init && decide (first ≠ last)) = true then Op.saveReset first (last - 1) :: atom else atom) =
      resetCode init first last ++ atom := by
    rw [resetCode]
    split <;> rfl
  rw [hbody, show (if (!init && decide (first ≠ last)) = true then [Op.saveReset first (last - 1)] else []) =
    resetCode (!init) first last from rfl]
  generalize resetCode init first last ++ atom = body
  generalize resetCode (!init) first last = reset
  split
  · next hmin =>
    subst hmin
    split
    · next hmax =>
      subst hmax
      exact .never
    split
    · next hmax =>
      subst hmax
      convert QuantifierForm.once using 1
      cases check <;> simp [turnCode, charPos, advanceCheck, Op.size]
      omega
    split
    · next hmax =>
      subst hmax
      convert QuantifierForm.star using 1
      cases check <;> simp [turnCode, charPos, advanceCheck, Op.size] <;> omega
    · next hmax hone hinf =>
      convert QuantifierForm.upTo hmax hone hinf using 1
      cases check <;> simp [countedCode, charPos, Op.size] <;> omega
  split
  · next hplus =>
    obtain ⟨rfl, rfl, hcheck⟩ := hplus
    exact .plus (Bool.eq_false_of_not_eq_true hcheck)
  · next hmin hplus =>
    by_cases hmax : min = max
    · subst hmax
      convert QuantifierForm.fixed (Nat.pos_of_ne_zero hmin) using 1
      simp [countedCode, charPos, Op.size]
    · convert QuantifierForm.counted (Nat.pos_of_ne_zero hmin) hplus hmax using 1
      cases check <;> simp [countedCode, charPos, Op.size, hmax]

end Jsregexp
