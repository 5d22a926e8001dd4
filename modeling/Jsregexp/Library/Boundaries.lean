import Mathlib

/-! Sets given by the sorted points at which they begin and end. A point is in the set when an odd number of boundaries
is not behind it. -/

namespace Jsregexp.Library.Boundaries

variable {α : Type*} [LinearOrder α]

def within : List α → α → Bool
  | [], _ => false
  | p :: pt, c => decide (p ≤ c) ^^ within pt c

def inIntervals (c : α) : List α → Bool
  | a :: b :: pt => (decide (a ≤ c) && decide (c < b)) || inIntervals c pt
  | _ => false

variable {p q c : α} {pt pt' : List α}

@[simp] lemma within_nil : within [] c = false := rfl
@[simp] lemma within_cons : within (p :: pt) c = (decide (p ≤ c) ^^ within pt c) := rfl

@[simp] lemma within_append : within (pt ++ pt') c = (within pt c ^^ within pt' c) := by
  induction pt with
  | nil => simp
  | cons p pt ih => simp [ih]

lemma within_of_lt (h : ∀ p ∈ pt, c < p) : within pt c = false := by
  induction pt with
  | nil => rfl
  | cons p pt ih =>
    have hp : ¬ p ≤ c := not_le.mpr (h p List.mem_cons_self)
    simp [hp, ih fun q hq => h q (List.mem_cons_of_mem _ hq)]

lemma within_of_le (h : ∀ p ∈ pt, p ≤ c) : within pt c = !decide (Even pt.length) := by
  induction pt with
  | nil => simp
  | cons p pt ih =>
    have hp := h p List.mem_cons_self
    simp [hp, ih fun q hq => h q (List.mem_cons_of_mem _ hq), Nat.even_add_one, -Nat.not_even_iff_odd]

lemma within_congr {c' : α} (h : ∀ p ∈ pt, p ≤ c ↔ p ≤ c') : within pt c = within pt c' := by
  induction pt with
  | nil => rfl
  | cons p pt ih =>
    rw [within_cons, within_cons, ih fun q hq => h q (List.mem_cons_of_mem _ hq),
      decide_eq_decide.mpr (h p List.mem_cons_self)]

theorem within_eq_inIntervals (hsorted : pt.Pairwise (· ≤ ·)) (heven : Even pt.length) :
    within pt c = inIntervals c pt := by
  induction pt using List.twoStepInduction with
  | nil => rfl
  | singleton => simp at heven
  | cons_cons a b pt ih _ =>
    obtain ⟨ha, hb, hpt⟩ : (a ≤ b ∧ ∀ q ∈ pt, a ≤ q) ∧ (∀ q ∈ pt, b ≤ q) ∧ pt.Pairwise (· ≤ ·) := by
      simpa [List.pairwise_cons] using hsorted
    have hrest := ih hpt (by simpa [Nat.even_add_one] using heven)
    rw [within_cons, within_cons, inIntervals, ← hrest]
    rcases lt_or_ge c b with hlt | hge
    · rw [within_of_lt fun q hq => hlt.trans_le (hb q hq)]
      simp [hlt, not_le.mpr hlt]
    · simp [hge, ha.1.trans hge, not_lt.mpr hge]

end Jsregexp.Library.Boundaries
