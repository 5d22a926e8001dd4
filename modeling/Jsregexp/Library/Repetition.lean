import Mathlib

namespace Jsregexp.Library.Repetition

variable {α : Type*}

def choice (greedy : Bool) (more : List α) (a : α) : List α := if greedy then more ++ [a] else a :: more

/-- One turn of `body` and what `rest` does behind it. A turn that is not owed must not stay. -/
def turn (body : α → List α) (stays : α → α → Bool) (min : ℕ) (rest : α → List α) (a : α) : List α :=
  ((body a).filter fun b => !(decide (min = 0) && stays a b)).flatMap rest

def repetitions (body : α → List α) (stays : α → α → Bool) (greedy : Bool) : ℕ → ℕ → α → List α
  | _, 0, a => [a]
  | min, max + 1, a =>
    let more := turn body stays min (repetitions body stays greedy (min - 1) max) a
    if 0 < min then more else choice greedy more a

variable {body body' : α → List α} {stays stays' : α → α → Bool} {greedy : Bool} {min max : ℕ} {a b : α}
variable {R S : α → α → Prop}

lemma mem_choice {more : List α} : b ∈ choice greedy more a ↔ b ∈ more ∨ b = a := by
  rw [choice]
  split
  · simp
  · simp [or_comm]

lemma mem_turn {rest : α → List α} (h : b ∈ turn body stays min rest a) : ∃ c ∈ body a, b ∈ rest c := by
  obtain ⟨c, hc, hb⟩ := List.mem_flatMap.mp h
  exact ⟨c, List.mem_of_mem_filter hc, hb⟩

lemma flatMap_filter (p : α → Bool) (l : List α) (f : α → List α) :
    (l.filter p).flatMap f = l.flatMap fun a => if p a then f a else [] := by
  induction l with
  | nil => rfl
  | cons a l ih =>
    rw [List.filter_cons, List.flatMap_cons]
    split <;> simp [ih]

lemma turn_eq (hstays : ∀ b ∈ body a, min = 0 → stays a b = false) (rest : α → List α) :
    turn body stays min rest a = (body a).flatMap rest := by
  rw [turn, List.filter_eq_self.mpr]
  intro b hb
  by_cases hmin : min = 0
  · simp [hstays b hb hmin]
  · simp [hmin]

lemma turn_zero (rest : α → List α) :
    turn body stays 0 rest a = ((body a).filter fun b => !stays a b).flatMap rest := by
  simp [turn]

lemma choice_nil (greedy : Bool) (a : α) : choice greedy [] a = [a] := by
  cases greedy <;> rfl

lemma rel_of_mem (hrefl : ∀ a, R a a) (htrans : ∀ {a b c}, R a b → R b c → R a c) (h : ∀ a, ∀ b ∈ body a, R a b)
    (hb : b ∈ repetitions body stays greedy min max a) : R a b := by
  induction max generalizing min a with
  | zero => exact List.mem_singleton.mp hb ▸ hrefl a
  | succ max ih =>
    have hmore (hb : b ∈ turn body stays min (repetitions body stays greedy (min - 1) max) a) : R a b := by
      obtain ⟨c, hc, hb⟩ := mem_turn hb
      exact htrans (h a c hc) (ih hb)
    rw [repetitions] at hb
    split at hb
    · exact hmore hb
    · rcases mem_choice.mp hb with hb | rfl
      · exact hmore hb
      · exact hrefl b

lemma first_of_mem (hrefl : ∀ a, R a a) (htrans : ∀ {a b c}, R a b → R b c → R a c) (hR : ∀ a, ∀ b ∈ body a, R a b)
    (hS : ∀ {a b c}, S a b → R b c → S a c) (h : ∀ b ∈ body a, S a b) (hmin : 0 < min) (hle : min ≤ max)
    (hb : b ∈ repetitions body stays greedy min max a) : S a b := by
  obtain ⟨max, rfl⟩ := Nat.exists_eq_succ_of_ne_zero (show max ≠ 0 by omega)
  rw [repetitions, if_pos hmin] at hb
  obtain ⟨c, hc, hb⟩ := mem_turn hb
  exact hS (h c hc) (rel_of_mem hrefl htrans hR hb)

lemma repetitions_fixed (body : α → List α) (stays stays' : α → α → Bool) (greedy : Bool) (n : ℕ) (a : α) :
    repetitions body stays greedy n n a = repetitions body stays' greedy n n a := by
  induction n generalizing a with
  | zero => rfl
  | succ n ih =>
    have hrest : repetitions body stays greedy n n = repetitions body stays' greedy n n := funext ih
    rw [repetitions, repetitions, if_pos n.succ_pos, if_pos n.succ_pos, turn_eq (by simp), turn_eq (by simp),
      Nat.add_sub_cancel, hrest]

lemma repetitions_congr {I : α → Prop} (hI : ∀ a, I a → ∀ b ∈ body a, I b) (hbody : ∀ a, I a → body a = body' a)
    (hstays : ∀ a, I a → ∀ b ∈ body a, stays a b = stays' a b) (ha : I a) :
    repetitions body stays greedy min max a = repetitions body' stays' greedy min max a := by
  induction max generalizing min a with
  | zero => rfl
  | succ max ih =>
    have hturn : turn body stays min (repetitions body stays greedy (min - 1) max) a =
        turn body' stays' min (repetitions body' stays' greedy (min - 1) max) a := by
      rw [turn, turn, ← hbody a ha, List.filter_congr fun b hb => by rw [hstays a ha b hb]]
      exact List.flatMap_congr fun b hb => ih (hI a ha b (List.mem_of_mem_filter hb))
    rw [repetitions, repetitions, hturn]

end Jsregexp.Library.Repetition
