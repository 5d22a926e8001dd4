import Mathlib

/-! Byte strings as the C and Lua sides of the program see them. -/

namespace Jsregexp

abbrev Bytes := List UInt8

def byteOf (c : Char) : UInt8 := UInt8.ofNat c.toNat

def bytesOf (s : String) : Bytes := s.toList.map byteOf

/-- How a call can fail to return: a C object is used outside its bounds, or a Lua error is raised. -/
inductive Failure
  | undefined
  | raised (msg : Bytes)
  deriving DecidableEq, Repr

lemma except_bind_ok_iff {ε α β : Type} {x : Except ε α} {f : α → Except ε β} {b : β} :
    (x >>= f) = .ok b ↔ ∃ a, x = .ok a ∧ f a = .ok b := by
  cases x <;> simp [bind, Except.bind]

lemma except_bind_error_iff {ε α β : Type} {x : Except ε α} {f : α → Except ε β} {e : ε} :
    (x >>= f) = .error e ↔ x = .error e ∨ ∃ a, x = .ok a ∧ f a = .error e := by
  cases x <;> simp [bind, Except.bind]

/-- `p[k]` for a pointer `p` into a NUL-terminated buffer of which `p` is what is left. -/
def peek (p : Bytes) (k : ℕ) : ℕ :=
  ((p[k]?).getD 0).toNat

@[simp] lemma peek_nil (k : ℕ) : peek [] k = 0 := by simp [peek]
@[simp] lemma peek_cons_zero (b : UInt8) (p : Bytes) : peek (b :: p) 0 = b.toNat := by simp [peek]
@[simp] lemma peek_cons_succ (b : UInt8) (p : Bytes) (k : ℕ) : peek (b :: p) (k + 1) = peek p k := by
  simp [peek]

@[simp] lemma peek_cons_one (b : UInt8) (p : Bytes) : peek (b :: p) 1 = peek p 0 := peek_cons_succ b p 0
@[simp] lemma peek_cons_two (b : UInt8) (p : Bytes) : peek (b :: p) 2 = peek p 1 := peek_cons_succ b p 1
@[simp] lemma peek_cons_three (b : UInt8) (p : Bytes) : peek (b :: p) 3 = peek p 2 := peek_cons_succ b p 2

lemma peek_lt (p : Bytes) (k : ℕ) : peek p k < 256 := UInt8.toNat_lt _

lemma peek_append_left {p q : Bytes} {k : ℕ} (h : k < p.length) : peek (p ++ q) k = peek p k := by
  simp [peek, List.getElem?_append_left h]

lemma peek_append_right (p q : Bytes) (k : ℕ) : peek (p ++ q) (p.length + k) = peek q k := by
  simp [peek, List.getElem?_append_right]

lemma peek_drop (p : Bytes) (n k : ℕ) : peek (p.drop n) k = peek p (n + k) := by
  simp [peek]

lemma peek_tail (p : Bytes) (k : ℕ) : peek p.tail k = peek p (k + 1) := by
  cases p <;> simp

lemma ne_nil_of_peek {p : Bytes} {k : ℕ} (h : peek p k ≠ 0) : k < p.length := by
  by_contra hk
  exact h (by simp [peek, List.getElem?_eq_none (Nat.le_of_not_lt hk)])

def cString (s : Bytes) : Bytes :=
  s.takeWhile (· ≠ 0)

lemma cString_eq_self {s : Bytes} (h : 0 ∉ s) : cString s = s := by
  rw [cString, List.takeWhile_eq_self_iff]
  intro b hb
  simpa using fun hz : b = 0 => h (hz ▸ hb)

lemma zero_notMem_cString (s : Bytes) : 0 ∉ cString s := fun h => by
  simpa using List.mem_takeWhile_imp h

lemma cString_eq_self_iff {s : Bytes} : cString s = s ↔ 0 ∉ s :=
  ⟨fun h => h ▸ zero_notMem_cString s, cString_eq_self⟩

lemma cString_length_le (s : Bytes) : (cString s).length ≤ s.length :=
  (List.takeWhile_prefix _).length_le

lemma cString_append_zero {s : Bytes} (h : 0 ∉ s) (t : Bytes) : cString (s ++ 0 :: t) = s := by
  induction s with
  | nil => simp [cString]
  | cons b s ih =>
    have hb : b ≠ 0 := fun hz => h (by simp [hz])
    have hs : cString (s ++ 0 :: t) = s := ih fun hz => h (List.mem_cons_of_mem _ hz)
    simpa [cString, List.takeWhile_cons, hb] using hs

def slice (s : Bytes) (a n : ℕ) : Except Failure Bytes :=
  if a + n ≤ s.length then .ok ((s.drop a).take n) else .error .undefined

lemma slice_of_le {s : Bytes} {a n : ℕ} (h : a + n ≤ s.length) : slice s a n = .ok ((s.drop a).take n) :=
  if_pos h

lemma slice_ok_iff {s t : Bytes} {a n : ℕ} :
    slice s a n = .ok t ↔ a + n ≤ s.length ∧ (s.drop a).take n = t := by
  unfold slice
  split <;> simp_all

end Jsregexp
