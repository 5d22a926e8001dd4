import Jsregexp.Library.Iteration

/-! Loops that backtrack. Where a step fails, such a loop goes on from a state it has saved, or stops. A part of the
loop then has outcomes, one after the other: to fail behind one of them is to look for the next. -/

namespace Jsregexp.Library.Backtracking

open Iteration

variable {σ ρ α β : Type*}

inductive Leads (step : σ → σ ⊕ ρ) : σ ⊕ ρ → σ ⊕ ρ → Prop
  | refl (x : σ ⊕ ρ) : Leads step x x
  | head {s : σ} {y : σ ⊕ ρ} : Leads step (step s) y → Leads step (.inl s) y

/-- From `x` on the loop comes to the outcomes of a list, in this order, and to `last` when it has failed behind all of
them. `Exit a s` says that `s` is a state in which the outcome `a` is handed on. -/
inductive Yields (step fail : σ → σ ⊕ ρ) (Exit : α → σ → Prop) (last : σ ⊕ ρ) : σ ⊕ ρ → List α → Prop
  | done {x : σ ⊕ ρ} : Leads step x last → Yields step fail Exit last x []
  | next {x : σ ⊕ ρ} {s : σ} {a : α} {as : List α} : Leads step x (.inl s) → Exit a s →
      Yields step fail Exit last (fail s) as → Yields step fail Exit last x (a :: as)

variable {step fail : σ → σ ⊕ ρ}

section Leads

variable {x y z : σ ⊕ ρ} {s t : σ} {r : ρ}

lemma Leads.single (h : step s = x) : Leads step (.inl s) x := .head (h ▸ .refl _)

lemma Leads.trans (h : Leads step x y) (h' : Leads step y z) : Leads step x z := by
  induction h with
  | refl => exact h'
  | head _ ih => exact .head (ih h')

lemma Leads.returns (h : Leads step (.inl s) (.inr r)) : Returns step s r := by
  generalize hx : (.inl s : σ ⊕ ρ) = x at h
  generalize hy : (.inr r : σ ⊕ ρ) = y at h
  induction h generalizing s with
  | refl => cases hx.trans hy.symm
  | @head u y hrest ih =>
    obtain rfl := Sum.inl.inj hx
    cases hs : step s with
    | inl v => exact (returns_next hs).mpr (ih hs.symm hy)
    | inr r' =>
      rw [hs] at hrest
      cases hrest
      obtain rfl := Sum.inr.inj hy
      exact returns_stop hs

end Leads

section Yields

variable {Exit Exit' : α → σ → Prop} {last mid x y : σ ⊕ ρ} {as bs : List α} {s : σ} {a : α}

lemma Yields.lead (h : Leads step x y) (h' : Yields step fail Exit last y as) : Yields step fail Exit last x as := by
  cases h' with
  | done hy => exact .done (h.trans hy)
  | next hy ha hs => exact .next (h.trans hy) ha hs

lemma Yields.head (h : Yields step fail Exit last (step s) as) : Yields step fail Exit last (.inl s) as :=
  .lead (.single rfl) h

lemma Yields.single (ha : Exit a s) (hs : fail s = last) : Yields step fail Exit last (.inl s) [a] :=
  .next (.refl _) ha (.done (hs ▸ .refl _))

lemma Yields.none (h : x = last) : Yields step fail Exit last x [] := .done (h ▸ .refl _)

lemma Yields.append (h : Yields step fail Exit mid x as) (h' : Yields step fail Exit last mid bs) :
    Yields step fail Exit last x (as ++ bs) := by
  induction h with
  | done hx => exact .lead hx h'
  | next hx ha _ ih => exact .next hx ha ih

lemma Yields.mono (h : Yields step fail Exit last x as) (hE : ∀ a s, Exit a s → Exit' a s) :
    Yields step fail Exit' last x as := by
  induction h with
  | done hx => exact .done hx
  | next hx ha _ ih => exact .next hx (hE _ _ ha) ih

lemma Yields.bind {E : β → σ → Prop} {bs : List β} {f : β → List α} (h : Yields step fail E last x bs)
    (hf : ∀ b ∈ bs, ∀ s, E b s → Yields step fail Exit (fail s) (.inl s) (f b)) :
    Yields step fail Exit last x (bs.flatMap f) := by
  induction h with
  | done hx => exact .done hx
  | next hx hb _ ih =>
    apply Yields.lead hx
    exact (hf _ List.mem_cons_self _ hb).append (ih fun b hb => hf b (List.mem_cons_of_mem _ hb))

lemma Yields.nil (h : Yields step fail Exit last x []) : Leads step x last := by
  cases h with
  | done hx => exact hx

lemma Yields.cons (h : Yields step fail Exit last x (a :: as)) : ∃ s, Leads step x (.inl s) ∧ Exit a s := by
  cases h with
  | next hx ha _ => exact ⟨_, hx, ha⟩

end Yields

end Jsregexp.Library.Backtracking
