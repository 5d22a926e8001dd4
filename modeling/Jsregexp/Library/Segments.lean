import Mathlib

/-! A list cut at spans of its positions: the gaps between the spans, and what comes of putting other
lists in the place of the spans. -/

namespace Jsregexp.Library.Segments

variable {α μ : Type*}

def between (xs : List α) (a b : ℕ) : List α := (xs.drop a).take (b - a)

variable (start stop : μ → ℕ)

def gapsBefore (xs : List α) : ℕ → List μ → List (List α)
  | _, [] => []
  | p, m :: ms => between xs p (start m) :: gapsBefore xs (stop m) ms

def lastStop (p : ℕ) (ms : List μ) : ℕ := ms.foldl (fun _ m => stop m) p

def gaps (xs : List α) (p : ℕ) (ms : List μ) : List (List α) :=
  gapsBefore start stop xs p ms ++ [xs.drop (lastStop stop p ms)]

def Ordered (n : ℕ) : ℕ → List μ → Prop
  | p, [] => p ≤ n
  | p, m :: ms => p ≤ start m ∧ start m ≤ stop m ∧ Ordered n (stop m) ms

def weave : List (List α) → List (List α) → List α
  | a :: as, b :: bs => a ++ (b ++ weave as bs)
  | as, [] => as.flatten
  | [], bs => bs.flatten

variable {start stop}

@[simp] lemma lastStop_nil (p : ℕ) : lastStop stop p [] = p := rfl
@[simp] lemma lastStop_cons (p : ℕ) (m : μ) (ms : List μ) :
    lastStop stop p (m :: ms) = lastStop stop (stop m) ms := rfl
@[simp] lemma lastStop_append (p : ℕ) (ms : List μ) (m : μ) : lastStop stop p (ms ++ [m]) = stop m := by
  simp [lastStop]

@[simp] lemma gapsBefore_length (xs : List α) (p : ℕ) (ms : List μ) :
    (gapsBefore start stop xs p ms).length = ms.length := by
  induction ms generalizing p with
  | nil => rfl
  | cons m ms ih => simp [gapsBefore, ih]

@[simp] lemma gaps_length (xs : List α) (p : ℕ) (ms : List μ) : (gaps start stop xs p ms).length = ms.length + 1 := by
  simp [gaps]

lemma gapsBefore_append (xs : List α) (p : ℕ) (ms : List μ) (m : μ) :
    gapsBefore start stop xs p (ms ++ [m]) =
      gapsBefore start stop xs p ms ++ [between xs (lastStop stop p ms) (start m)] := by
  induction ms generalizing p with
  | nil => rfl
  | cons m' ms ih => simp [gapsBefore, ih]

lemma between_drop (xs : List α) {a b : ℕ} (h : a ≤ b) : between xs a b ++ xs.drop b = xs.drop a := by
  have hb : xs.drop b = (xs.drop a).drop (b - a) := by rw [List.drop_drop, Nat.add_sub_cancel' h]
  rw [between, hb, List.take_append_drop]

lemma between_length (xs : List α) (a : ℕ) : between xs a xs.length = xs.drop a := by
  rw [between, List.take_of_length_le (List.length_drop ..).le]

lemma between_eq_nil {xs : List α} {a b : ℕ} (hb : b ≤ xs.length) (h : between xs a b = []) : b ≤ a := by
  rw [between, ← List.length_eq_zero_iff, List.length_take, List.length_drop] at h
  omega

lemma weave_append {as bs : List (List α)} (h : as.length = bs.length) (a b c : List α) :
    weave (as ++ [a, c]) (bs ++ [b]) = weave (as ++ [a]) bs ++ (b ++ c) := by
  induction as generalizing bs with
  | nil =>
    obtain rfl : bs = [] := List.length_eq_zero_iff.mp h.symm
    simp [weave]
  | cons a' as ih =>
    cases bs with
    | nil => cases h
    | cons b' bs => simp [weave, ih (Nat.succ.inj h)]

theorem weave_gaps {xs : List α} {p : ℕ} {ms : List μ} (h : Ordered start stop xs.length p ms) :
    weave (gaps start stop xs p ms) (ms.map fun m => between xs (start m) (stop m)) = xs.drop p := by
  induction ms generalizing p with
  | nil => simp [gaps, gapsBefore, weave]
  | cons m ms ih =>
    obtain ⟨hp, hm, hms⟩ := h
    have hrest := ih hms
    simp only [gaps, gapsBefore, lastStop_cons, List.cons_append, List.map_cons, weave] at hrest ⊢
    rw [hrest, between_drop xs hm, between_drop xs hp]

lemma ordered_snoc {n p : ℕ} {ms : List μ} {m : μ} (h : Ordered start stop n p ms)
    (hp : lastStop stop p ms ≤ start m) (hm : start m ≤ stop m) (hn : stop m ≤ n) :
    Ordered start stop n p (ms ++ [m]) := by
  induction ms generalizing p with
  | nil => exact ⟨hp, hm, hn⟩
  | cons m' ms ih => exact ⟨h.1, h.2.1, ih h.2.2 hp⟩

end Jsregexp.Library.Segments
