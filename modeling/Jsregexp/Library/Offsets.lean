import Mathlib

/-! A sequence of items measured in two units. Each item has a width in `f`-units and a width in
`g`-units; a table indexed by `f`-offsets stores the `g`-offset of every item boundary and zero
inside an item. -/

namespace Jsregexp.Library.Offsets

variable {α : Type*} (f g : α → ℕ)

def total (l : List α) : ℕ := (l.map f).sum

@[simp] lemma total_nil : total f [] = 0 := rfl
@[simp] lemma total_cons (a : α) (l : List α) : total f (a :: l) = f a + total f l := by simp [total]
@[simp] lemma total_append (p s : List α) : total f (p ++ s) = total f p + total f s := by simp [total]

def marks : ℕ → List α → List ℕ
  | _, [] => []
  | b, a :: l => b :: (List.replicate (f a - 1) 0 ++ marks (b + g a) l)

def table (l : List α) : List ℕ := marks f g 0 l ++ [total g l]

def image (l : List α) (i : ℕ) : ℕ := (table f g l).getD i 0

def Boundary (l : List α) (i : ℕ) : Prop := ∃ p s, l = p ++ s ∧ total f p = i

def ceil : List α → ℕ → ℕ
  | [], _ => 0
  | a :: l, i => if i = 0 then 0 else if i ≤ f a then f a else f a + ceil l (i - f a)

variable {f g}

lemma marks_append (b : ℕ) (p s : List α) :
    marks f g b (p ++ s) = marks f g b p ++ marks f g (b + total g p) s := by
  induction p generalizing b with
  | nil => simp [marks]
  | cons a p ih => simp [marks, ih, Nat.add_assoc]

lemma boundary_zero (l : List α) : Boundary f l 0 := ⟨[], l, rfl, rfl⟩
lemma boundary_total (l : List α) : Boundary f l (total f l) := ⟨l, [], by simp, rfl⟩
lemma boundary_append (p s : List α) : Boundary f (p ++ s) (total f p) := ⟨p, s, rfl, rfl⟩

lemma Boundary.le_total {l : List α} {i : ℕ} (h : Boundary f l i) : i ≤ total f l := by
  obtain ⟨p, s, rfl, rfl⟩ := h
  simp

lemma boundary_cons {a : α} {l : List α} {i : ℕ} (h : Boundary f l i) : Boundary f (a :: l) (f a + i) := by
  obtain ⟨p, s, rfl, rfl⟩ := h
  exact ⟨a :: p, s, rfl, by simp⟩

lemma boundary_cons_cases {a : α} {l : List α} {i : ℕ} (h : Boundary f (a :: l) i) :
    i = 0 ∨ ∃ j, i = f a + j ∧ Boundary f l j := by
  obtain ⟨p, s, hp, rfl⟩ := h
  cases p with
  | nil => exact .inl rfl
  | cons a' p =>
    obtain ⟨rfl, rfl⟩ : a = a' ∧ l = p ++ s := by simpa using hp
    exact .inr ⟨total f p, by simp, boundary_append p s⟩

lemma boundary_iff_take {l : List α} {i : ℕ} : Boundary f l i ↔ ∃ k, ((l.map f).take k).sum = i := by
  constructor
  · rintro ⟨p, s, rfl, rfl⟩
    exact ⟨p.length, by simp [total]⟩
  · rintro ⟨k, rfl⟩
    exact ⟨l.take k, l.drop k, (List.take_append_drop k l).symm, by simp [total, List.map_take]⟩

lemma boundary_congr {β : Type*} {f' : β → ℕ} {l : List α} {l' : List β} {i : ℕ} (h : l.map f = l'.map f') :
    Boundary f l i ↔ Boundary f' l' i := by
  rw [boundary_iff_take, boundary_iff_take, h]

section Positive

variable (hf : ∀ a, 1 ≤ f a)
include hf

lemma marks_length (b : ℕ) (l : List α) : (marks f g b l).length = total f l := by
  induction l generalizing b with
  | nil => rfl
  | cons a l ih =>
    have := hf a
    simp only [marks, List.length_cons, List.length_append, List.length_replicate, ih, total_cons]
    omega

lemma table_length (l : List α) : (table f g l).length = total f l + 1 := by
  simp [table, marks_length hf]

lemma image_append (p s : List α) : image f g (p ++ s) (total f p) = total g p := by
  have hl : (marks f g 0 p).length = total f p := marks_length hf 0 p
  unfold image table
  rw [marks_append, List.append_assoc, List.getD_append_right _ _ _ _ hl.le, hl, Nat.sub_self]
  cases s with
  | nil => simp [marks]
  | cons a s => simp [marks]

lemma image_inside (p : List α) (a : α) (s : List α) {k : ℕ} (hk : 0 < k) (hka : k < f a) :
    image f g (p ++ a :: s) (total f p + k) = 0 := by
  have hl : (marks f g 0 p).length = total f p := marks_length hf 0 p
  obtain ⟨k, rfl⟩ : ∃ j, k = j + 1 := ⟨k - 1, by omega⟩
  unfold image table
  rw [marks_append, List.append_assoc, List.getD_append_right _ _ _ _ (by omega), hl]
  simp only [marks, Nat.add_sub_cancel_left, List.cons_append, List.append_assoc]
  rw [List.getD_cons_succ, List.getD_append _ _ _ _ (by simp; omega), List.getD_replicate]
  omega

@[simp] lemma image_zero (l : List α) : image f g l 0 = 0 := image_append hf [] l

@[simp] lemma image_total (l : List α) : image f g l (total f l) = total g l := by
  simpa using image_append (g := g) hf l []

omit hf in
lemma boundary_or_inside (l : List α) {i : ℕ} (hi : i ≤ total f l) :
    Boundary f l i ∨ ∃ p a s k, l = p ++ a :: s ∧ i = total f p + k ∧ 0 < k ∧ k < f a := by
  induction l generalizing i with
  | nil => exact .inl (by simp_all [boundary_zero])
  | cons a l ih =>
    rcases Nat.eq_zero_or_pos i with rfl | hpos
    · exact .inl (boundary_zero _)
    rcases Nat.lt_or_ge i (f a) with hlt | hge
    · exact .inr ⟨[], a, l, i, by simp [hpos, hlt]⟩
    obtain ⟨j, rfl⟩ := Nat.exists_eq_add_of_le hge
    rcases ih (by simpa using hi) with hb | ⟨p, a', s, k, rfl, rfl, hk⟩
    · exact .inl (boundary_cons hb)
    · exact .inr ⟨a :: p, a', s, k, by simp, by simp [Nat.add_assoc], hk⟩

lemma image_of_not_boundary {l : List α} {i : ℕ} (hi : i ≤ total f l) (h : ¬ Boundary f l i) :
    image f g l i = 0 := by
  rcases boundary_or_inside l hi with hb | ⟨p, a, s, k, rfl, rfl, hk, hka⟩
  · exact absurd hb h
  · exact image_inside hf p a s hk hka

lemma image_le_total (l : List α) (i : ℕ) : image f g l i ≤ total g l := by
  rcases Nat.lt_or_ge (total f l) i with h | h
  · have : image f g l i = 0 := List.getD_eq_default _ _ (by rw [table_length hf]; omega)
    omega
  by_cases hb : Boundary f l i
  · obtain ⟨p, s, rfl, rfl⟩ := hb
    simp [image_append hf]
  · simp [image_of_not_boundary hf h hb]

lemma total_lt_of_length_lt {p s p' s' : List α} (h : p ++ s = p' ++ s') (hlt : p.length < p'.length) :
    total f p < total f p' := by
  have hp : p = p'.take p.length := by
    have := congrArg (List.take p.length) h
    simpa [List.take_append_of_le_length hlt.le] using this
  obtain ⟨a, d, hd⟩ : ∃ a d, p'.drop p.length = a :: d := by
    rw [← List.ne_nil_iff_exists_cons]
    simpa using hlt
  have hsplit : p' = p ++ a :: d :=
    calc p' = p'.take p.length ++ p'.drop p.length := (List.take_append_drop _ _).symm
      _ = p ++ a :: d := by rw [← hp, hd]
  have := hf a
  simp only [hsplit, total_append, total_cons]
  omega

variable (hg : ∀ a, 1 ≤ g a)
include hg

theorem image_strictMono {l : List α} {i j : ℕ} (hi : Boundary f l i) (hj : Boundary f l j)
    (hij : i < j) : image f g l i < image f g l j := by
  obtain ⟨p, s, rfl, rfl⟩ := hi
  obtain ⟨p', s', h, rfl⟩ := hj
  rw [image_append hf, h, image_append hf]
  refine total_lt_of_length_lt hg h ?_
  by_contra hle
  rcases Nat.lt_or_eq_of_le (Nat.le_of_not_lt hle) with hlt | heq
  · exact absurd (total_lt_of_length_lt hf h.symm hlt) (by omega)
  · rw [(List.append_inj h heq.symm).1] at hij
    exact lt_irrefl _ hij

lemma image_mono {l : List α} {i j : ℕ} (hi : Boundary f l i) (hj : Boundary f l j) (hij : i ≤ j) :
    image f g l i ≤ image f g l j := by
  rcases Nat.lt_or_eq_of_le hij with hlt | rfl
  · exact (image_strictMono hf hg hi hj hlt).le
  · exact le_rfl

lemma image_pos {l : List α} {i : ℕ} (hi : Boundary f l i) (h : 0 < i) : 0 < image f g l i := by
  simpa [image_zero hf] using image_strictMono hf hg (boundary_zero l) hi h

omit hg in
lemma image_boundary {l : List α} {i : ℕ} (hi : Boundary f l i) : Boundary g l (image f g l i) := by
  obtain ⟨p, s, rfl, rfl⟩ := hi
  rw [image_append hf]
  exact boundary_append p s

theorem image_image {l : List α} {i : ℕ} (hi : Boundary f l i) : image g f l (image f g l i) = i := by
  obtain ⟨p, s, rfl, rfl⟩ := hi
  rw [image_append hf, image_append hg]

omit hg

omit hf in
lemma le_ceil {l : List α} {i : ℕ} (hi : i ≤ total f l) : i ≤ ceil f l i := by
  induction l generalizing i with
  | nil => simp_all
  | cons a l ih =>
    simp only [total_cons] at hi
    unfold ceil
    split
    · omega
    split
    · assumption
    · have := ih (i := i - f a) (by omega)
      omega

omit hf in
lemma ceil_boundary (l : List α) (i : ℕ) : Boundary f l (ceil f l i) := by
  induction l generalizing i with
  | nil => exact boundary_zero _
  | cons a l ih =>
    unfold ceil
    split
    · exact boundary_zero _
    split
    · simpa using boundary_cons (a := a) (boundary_zero l)
    · exact boundary_cons (ih _)

omit hf in
theorem ceil_le {l : List α} {i j : ℕ} (hj : Boundary f l j) (hij : i ≤ j) : ceil f l i ≤ j := by
  induction l generalizing i j with
  | nil => simp [ceil]
  | cons a l ih =>
    unfold ceil
    split
    · omega
    rcases boundary_cons_cases hj with rfl | ⟨k, rfl, hk⟩
    · omega
    split
    · omega
    · have := ih hk (i := i - f a) (by omega)
      omega

omit hf in
lemma ceil_of_boundary {l : List α} {i : ℕ} (hi : Boundary f l i) : ceil f l i = i :=
  le_antisymm (ceil_le hi le_rfl) (le_ceil hi.le_total)

end Positive

end Jsregexp.Library.Offsets
