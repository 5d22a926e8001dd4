import Jsregexp.Library.Iteration

namespace Jsregexp.Library.Fallible

open Library.Iteration

universe v

variable {ε σ ρ : Type*} {α β : Type v} {E : ε → Prop} {Q R : α → Prop} {P : β → Prop}

def Post (E : ε → Prop) (Q : α → Prop) : Except ε α → Prop
  | .ok a => Q a
  | .error e => E e

@[simp] lemma post_ok {a : α} : Post E Q (.ok a) ↔ Q a := Iff.rfl
@[simp] lemma post_error {e : ε} : Post E Q (.error e) ↔ E e := Iff.rfl
@[simp] lemma post_pure {a : α} : Post E Q (pure a) ↔ Q a := Iff.rfl

lemma Post.mono {x : Except ε α} (h : Post E Q x) (hq : ∀ a, Q a → R a) : Post E R x := by
  cases x with
  | error e => exact h
  | ok a => exact hq a h

lemma Post.bind {x : Except ε α} {f : α → Except ε β} (h : Post E Q x) (hf : ∀ a, Q a → Post E P (f a)) :
    Post E P (x >>= f) := by
  cases x with
  | error e => exact h
  | ok a => exact hf a h

lemma Post.ok {x : Except ε α} {a : α} (h : Post E Q x) (hx : x = .ok a) : Q a := by
  subst hx
  exact h

lemma Post.error {x : Except ε α} {e : ε} (h : Post E Q x) (hx : x = .error e) : E e := by
  subst hx
  exact h

theorem run_getD {step : σ → σ ⊕ ρ} {I : σ → Prop} {μ : σ → ℕ} {S : ρ → Prop}
    (hs : ∀ s, I s → Sum.elim (fun t => I t ∧ μ t < μ s) S (step s)) {s : σ} (h : I s) {n : ℕ} (hn : μ s < n)
    (d : ρ) : S ((run step n s).getD d) := by
  induction n generalizing s with
  | zero => omega
  | succ n ih =>
    have hstep := hs s h
    rw [run]
    cases hc : step s with
    | inl t =>
      rw [hc] at hstep
      exact ih hstep.1 (by have := hstep.2; omega)
    | inr r =>
      rw [hc] at hstep
      exact hstep

theorem run_getD_any {step : σ → σ ⊕ ρ} {I : σ → Prop} {S : ρ → Prop} (hs : ∀ s, I s → Sum.elim I S (step s)) {s : σ}
    (h : I s) {d : ρ} (hd : S d) (n : ℕ) : S ((run step n s).getD d) := by
  induction n generalizing s with
  | zero => exact hd
  | succ n ih =>
    have hstep := hs s h
    rw [run]
    cases hc : step s with
    | inl t =>
      rw [hc] at hstep
      exact ih hstep
    | inr r =>
      rw [hc] at hstep
      exact hstep

end Jsregexp.Library.Fallible
