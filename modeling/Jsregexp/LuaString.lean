import Jsregexp.Memory

namespace Jsregexp

def posrelat (pos : ℤ) (len : ℕ) : ℤ :=
  if pos ≥ 0 then pos else if pos + len + 1 ≥ 0 then pos + len + 1 else 0

def stringSub (s : Bytes) (i j : ℤ) : Bytes :=
  let start := max (posrelat i s.length) 1
  let stop := min (posrelat j s.length) s.length
  if start ≤ stop then (s.drop (start - 1).toNat).take (stop - start + 1).toNat else []

def stringFind (s : Bytes) (c : UInt8) (init : ℕ) : Option ℕ :=
  ((s.drop (init - 1)).idxOf? c).map (· + init)

def toNumber (s : Bytes) : ℕ := s.foldl (fun n b => 10 * n + (b.toNat - 48)) 0

lemma stringSub_slice {s : Bytes} {a n : ℕ} (h : a + n ≤ s.length) :
    stringSub s (a + 1) (a + n) = (s.drop a).take n := by
  have hstart : max (posrelat (a + 1) s.length) 1 = a + 1 := by
    rw [posrelat, if_pos (by omega)]
    omega
  have hstop : min (posrelat (a + n) s.length) s.length = a + n := by
    rw [posrelat, if_pos (by omega)]
    omega
  simp only [stringSub, hstart, hstop]
  split
  · congr 1
    · omega
    · congr 1
      omega
  · have hn : n = 0 := by omega
    simp [hn]

lemma stringSub_take {s : Bytes} {a n : ℕ} (h : a ≤ s.length) :
    stringSub s (a + 1) (a + n) = (s.drop a).take n := by
  rcases Nat.le_total (a + n) s.length with hle | hle
  · exact stringSub_slice hle
  · have hstop : min (posrelat (a + n) s.length) s.length = min (posrelat (a + (s.length - a : ℕ)) s.length)
        s.length := by
      rw [posrelat, posrelat, if_pos (by omega), if_pos (by omega)]
      omega
    have hs := stringSub_slice (s := s) (a := a) (n := s.length - a) (by omega)
    simp only [stringSub] at hs ⊢
    rw [hstop, hs, List.take_of_length_le (by simp), List.take_of_length_le (by simp; omega)]

lemma stringSub_drop {s : Bytes} {a : ℕ} (h : a ≤ s.length) : stringSub s (a + 1) (-1) = s.drop a := by
  have hstop : min (posrelat (-1) s.length) s.length = min (posrelat (a + (s.length - a : ℕ)) s.length)
      s.length := by
    simp only [posrelat]
    split_ifs <;> omega
  have hs := stringSub_slice (s := s) (a := a) (n := s.length - a) (by omega)
  simp only [stringSub] at hs ⊢
  rw [hstop, hs, List.take_of_length_le (by simp)]

lemma stringSub_suffix (s : Bytes) (a : ℕ) : stringSub s (a + 1) (-1) = s.drop a := by
  rcases Nat.le_total a s.length with h | h
  · exact stringSub_drop h
  · have hstop : ¬ max (posrelat (a + 1) s.length) 1 ≤ min (posrelat (-1) s.length) s.length ∨
        a = s.length := by
      simp only [posrelat]
      split_ifs <;> omega
    rcases hstop with hn | rfl
    · simp only [stringSub, if_neg hn]
      rw [List.drop_eq_nil_of_le h]
    · exact stringSub_drop le_rfl

end Jsregexp
