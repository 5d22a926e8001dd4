import Jsregexp.Libregexp.CharRangeSpec
import Jsregexp.Libregexp.ClassSets
import Jsregexp.Libregexp.Semantics

namespace Jsregexp

open Library.Boundaries Library.Fallible

structure SortedRanges (ranges : List (ℕ × ℕ)) : Prop where
  nonempty : ∀ r ∈ ranges, r.1 ≤ r.2
  apart : ranges.Pairwise fun r r' => r.2 < r'.1

def InRange (ranges : List (ℕ × ℕ)) (c : ℕ) : Prop := ∃ r ∈ ranges, r.1 ≤ c ∧ c ≤ r.2

section Search

variable {ranges : List (ℕ × ℕ)} {c i j : ℕ}

lemma SortedRanges.low_lt (h : SortedRanges ranges) (hij : i < j) (hj : j < ranges.length) :
    (ranges.getD i (0, 0)).2 < (ranges.getD j (0, 0)).1 := by
  rw [List.getD_eq_getElem _ _ hj, List.getD_eq_getElem _ _ (hij.trans hj)]
  exact List.pairwise_iff_getElem.mp h.apart i j (hij.trans hj) hj hij

lemma SortedRanges.le (h : SortedRanges ranges) (hi : i < ranges.length) :
    (ranges.getD i (0, 0)).1 ≤ (ranges.getD i (0, 0)).2 := by
  rw [List.getD_eq_getElem _ _ hi]
  exact h.nonempty _ (List.getElem_mem hi)

lemma inRange_iff : InRange ranges c ↔
    ∃ i < ranges.length, (ranges.getD i (0, 0)).1 ≤ c ∧ c ≤ (ranges.getD i (0, 0)).2 := by
  constructor
  · rintro ⟨r, hr, hc⟩
    obtain ⟨i, hi, rfl⟩ := List.getElem_of_mem hr
    exact ⟨i, hi, by rwa [List.getD_eq_getElem _ _ hi]⟩
  · rintro ⟨i, hi, hc⟩
    rw [List.getD_eq_getElem _ _ hi] at hc
    exact ⟨_, List.getElem_mem hi, hc⟩

lemma rangeSearch_iff (h : SortedRanges ranges) (hfirst : (ranges.getD 0 (0, 0)).1 ≤ c) {n idxMin idxMax : ℕ}
    (hmax : idxMax < ranges.length) (hn : idxMax + 1 - idxMin < n) : rangeSearch ranges c n idxMin idxMax = true ↔
      ∃ i, idxMin ≤ i ∧ i ≤ idxMax ∧ (ranges.getD i (0, 0)).1 ≤ c ∧ c ≤ (ranges.getD i (0, 0)).2 := by
  induction n generalizing idxMin idxMax with
  | zero => omega
  | succ n ih =>
    rw [rangeSearch]
    split
    · next hle =>
      have hlow : idxMin ≤ (idxMin + idxMax) / 2 := by omega
      have hhigh : (idxMin + idxMax) / 2 ≤ idxMax := by omega
      generalize (idxMin + idxMax) / 2 = idx at hlow hhigh
      dsimp only
      split
      · next hbelow =>
        have hpos : idx ≠ 0 := by
          rintro rfl
          exact absurd hfirst (not_le.mpr hbelow)
        rw [ih (by omega) (by omega)]
        constructor
        · rintro ⟨i, hi, hi', hc⟩
          exact ⟨i, hi, by omega, hc⟩
        · rintro ⟨i, hi, hi', hc⟩
          refine ⟨i, hi, ?_, hc⟩
          by_contra hidx
          rcases Nat.eq_or_lt_of_le (show idx ≤ i by omega) with rfl | hlt
          · omega
          · have happart := h.low_lt hlt (by omega)
            have hidx := h.le (show idx < ranges.length by omega)
            omega
      · next hge =>
        split
        · next habove =>
          rw [ih hmax (by omega)]
          constructor
          · rintro ⟨i, hi, hi', hc⟩
            exact ⟨i, by omega, hi', hc⟩
          · rintro ⟨i, hi, hi', hc⟩
            refine ⟨i, ?_, hi', hc⟩
            by_contra hidx
            rcases Nat.eq_or_lt_of_le (show i ≤ idx by omega) with rfl | hlt
            · omega
            · have happart := h.low_lt hlt (by omega)
              have hidx := h.le (show idx < ranges.length by omega)
              omega
        · next hle' => exact ⟨fun _ => ⟨idx, hlow, hhigh, not_lt.mp hge, not_lt.mp hle'⟩, fun _ => rfl⟩
    · next hgt =>
      constructor
      · intro h
        cases h
      · rintro ⟨i, hi, hi', -⟩
        omega

lemma rangeMatch_iff (h : SortedRanges ranges) (hne : ranges ≠ []) {infinity : Bool}
    (hc : infinity = true → c ≤ 0xffff) : rangeMatch infinity ranges c = true ↔ InRange ranges c := by
  have hlen : 0 < ranges.length := List.length_pos_iff.mpr hne
  have hlast := h.le (show ranges.length - 1 < ranges.length by omega)
  rw [inRange_iff, rangeMatch]
  split
  · next hbelow =>
    constructor
    · intro h
      cases h
    · rintro ⟨i, hi, hi', -⟩
      rcases Nat.eq_zero_or_pos i with rfl | hpos
      · omega
      · have hfront := h.low_lt hpos hi
        have hle := h.le hlen
        omega
  · next hge =>
    split
    · next hinf =>
      obtain ⟨hinf, hffff, hhigh⟩ := hinf
      have hce := hc hinf
      refine ⟨fun _ => ⟨ranges.length - 1, by omega, by omega, by omega⟩, fun _ => rfl⟩
    · split
      · next habove =>
        constructor
        · intro h
          cases h
        · rintro ⟨i, hi, -, hi'⟩
          rcases Nat.eq_or_lt_of_le (show i ≤ ranges.length - 1 by omega) with rfl | hlt
          · omega
          · have hend := h.low_lt hlt (show ranges.length - 1 < ranges.length by omega)
            omega
      · rw [rangeSearch_iff h (not_lt.mp hge) (by omega) (by omega)]
        constructor
        · rintro ⟨i, -, hi, hc⟩
          exact ⟨i, by omega, hc⟩
        · rintro ⟨i, hi, hc⟩
          exact ⟨i, Nat.zero_le _, by omega, hc⟩

lemma rangeMatch_beyond (h : SortedRanges ranges) (hne : ranges ≠ []) (hle : ∀ r ∈ ranges, r.2 ≤ 0xffff)
    (hc : 0xffff ≤ c) : rangeMatch true ranges c = rangeMatch true ranges 0xffff := by
  have hlen : 0 < ranges.length := List.length_pos_iff.mpr hne
  have hlow := h.le hlen
  have hhigh {i : ℕ} (hi : i < ranges.length) : (ranges.getD i (0, 0)).2 ≤ 0xffff := by
    rw [List.getD_eq_getElem _ _ hi]
    exact hle _ (List.getElem_mem hi)
  have hfirst := hhigh hlen
  have hlast := hhigh (show ranges.length - 1 < ranges.length by omega)
  have hvalue {c : ℕ} (hc : 0xffff ≤ c) :
      rangeMatch true ranges c = decide ((ranges.getD (ranges.length - 1) (0, 0)).2 = 0xffff) := by
    rw [rangeMatch, if_neg (show ¬ c < (ranges.getD 0 (0, 0)).1 by omega)]
    split
    · next hinf => exact (decide_eq_true hinf.2.2).symm
    · next hinf =>
      have hne : (ranges.getD (ranges.length - 1) (0, 0)).2 ≠ 0xffff := fun h => hinf ⟨rfl, hc, h⟩
      rw [if_pos (by omega)]
      exact (decide_eq_false hne).symm
  rw [hvalue hc, hvalue le_rfl]

end Search

section Pairs

def intervalPairs (m : ℕ) : List ℕ → List (ℕ × ℕ)
  | a :: b :: pt => (a, if b = uint32Max then m else b - 1) :: intervalPairs m pt
  | _ => []

variable {m c : ℕ} {cr : List ℕ}

def FitsBelow (m : ℕ) (cr : List ℕ) : Prop := ∀ p ∈ cr, p ≠ uint32Max → p ≤ m

lemma rangePairs_eq {bound : ℕ} {last : ℕ → ℕ} (h : IsIntervals cr)
    (hlow : ∀ p ∈ cr, p ≠ uint32Max → p % bound = p)
    (hlast : ∀ p ∈ cr, last p % bound = if p = uint32Max then m else p - 1) :
    rangePairs bound last cr = intervalPairs m cr := by
  induction cr using List.twoStepInduction with
  | nil => rfl
  | singleton => rfl
  | cons_cons a b pt ih _ =>
    have hab : a < b := h.head
    have hb : b ≤ uint32Max := h.le b (by simp)
    have hrest (p : ℕ) (hp : p ∈ pt) : p ∈ a :: b :: pt := by simp [hp]
    rw [rangePairs, intervalPairs, hlow a (by simp) (by omega), hlast b (by simp),
      ih h.tail (fun p hp => hlow p (hrest p hp)) fun p hp => hlast p (hrest p hp)]

lemma intervalPairs_length (m : ℕ) (cr : List ℕ) : (intervalPairs m cr).length = cr.length / 2 := by
  induction cr using List.twoStepInduction with
  | nil => rfl
  | singleton => simp [intervalPairs]
  | cons_cons a b pt ih _ =>
    rw [intervalPairs, List.length_cons, ih, List.length_cons, List.length_cons]
    omega

lemma intervalPairs_low {p : ℕ} (hp : ∀ q ∈ cr, p ≤ q) : ∀ r ∈ intervalPairs m cr, p ≤ r.1 := by
  induction cr using List.twoStepInduction with
  | nil => simp [intervalPairs]
  | singleton => simp [intervalPairs]
  | cons_cons a b pt ih _ =>
    intro r hr
    rcases List.mem_cons.mp hr with rfl | hr
    · exact hp a List.mem_cons_self
    · exact ih (fun q hq => hp q (by simp [hq])) r hr

lemma intervalPairs_high (hm : FitsBelow m cr) : ∀ r ∈ intervalPairs m cr, r.2 ≤ m := by
  induction cr using List.twoStepInduction with
  | nil => simp [intervalPairs]
  | singleton => simp [intervalPairs]
  | cons_cons a b pt ih _ =>
    intro r hr
    rcases List.mem_cons.mp hr with rfl | hr
    · dsimp only
      split
      · exact le_rfl
      · next hmax => exact (Nat.sub_le _ _).trans (hm b (by simp) hmax)
    · exact ih (fun p hp => hm p (by simp [hp])) r hr

lemma intervalPairs_sorted (h : IsIntervals cr) (hm : FitsBelow m cr) :
    SortedRanges (intervalPairs m cr) := by
  induction cr using List.twoStepInduction with
  | nil => exact ⟨by simp [intervalPairs], .nil⟩
  | singleton => exact ⟨by simp [intervalPairs], .nil⟩
  | cons_cons a b pt ih _ =>
    obtain ⟨hb, -⟩ := List.pairwise_cons.mp (List.pairwise_cons.mp h.sorted).2
    have hab := h.head
    have hbmax := h.le b (by simp)
    have ham := hm a (by simp) (by omega)
    have hsorted := ih h.tail fun p hp => hm p (by simp [hp])
    rw [intervalPairs]
    refine ⟨fun r hr => ?_, List.pairwise_cons.mpr ⟨fun r hr => ?_, hsorted.apart⟩⟩
    · rcases List.mem_cons.mp hr with rfl | hr
      · dsimp only
        split <;> omega
      · exact hsorted.nonempty r hr
    · have hlow := intervalPairs_low hb r hr
      dsimp only
      split
      · next htop =>
        -- an interval behind the last point of all would be empty
        match pt, hr with
        | q :: q' :: pt, _ =>
          have hq := hb q List.mem_cons_self
          have hqq' := h.tail.head
          have hqmax := h.le q' (by simp)
          omega
      · omega

lemma intervalPairs_inRange (h : IsIntervals cr) (hc : c ≤ m)
    (hmax : m < uint32Max) : InRange (intervalPairs m cr) c ↔ inIntervals c cr = true := by
  induction cr using List.twoStepInduction with
  | nil => simp [InRange, intervalPairs, inIntervals]
  | singleton => simp [InRange, intervalPairs, inIntervals]
  | cons_cons a b pt ih _ =>
    have hab := h.head
    have hrest := ih h.tail
    have hlast : c ≤ (if b = uint32Max then m else b - 1) ↔ c < b := by
      split <;> omega
    rw [inIntervals, Bool.or_eq_true, Bool.and_eq_true, decide_eq_true_eq, decide_eq_true_eq, ← hrest, ← hlast]
    simp [InRange, intervalPairs]

end Pairs

section Emit

variable {s : REParseState} {cr : List ℕ} {code : List Op}

def highPoint (cr : List ℕ) : ℕ := if cr.getLastD 0 = uint32Max then cr.getD (cr.length - 2) 0 else cr.getLastD 0

lemma le_highPoint (h : cr.Pairwise (· ≤ ·)) {p : ℕ} (hp : p ∈ cr) (hne : p ≠ uint32Max) : p ≤ highPoint cr := by
  obtain ⟨i, hi, rfl⟩ := List.getElem_of_mem hp
  have hmono {j : ℕ} (hij : i ≤ j) (hj : j < cr.length) : cr[i] ≤ cr[j] := by
    rcases Nat.eq_or_lt_of_le hij with rfl | hlt
    · exact le_rfl
    · exact List.pairwise_iff_getElem.mp h i j hi hj hlt
  have hlast : cr.getLastD 0 = cr[cr.length - 1] := by
    rw [List.getLastD_eq_getLast?, List.getLast?_eq_getElem?, List.getElem?_eq_getElem (by omega), Option.getD_some]
  rw [highPoint, hlast]
  split
  · next hmax =>
    have hbefore : i ≤ cr.length - 2 := by
      by_contra hnot
      obtain rfl : i = cr.length - 1 := by omega
      exact hne hmax
    rw [List.getD_eq_getElem _ _ (by omega)]
    exact hmono hbefore (by omega)
  · exact hmono (by omega) (by omega)

theorem reEmitRange_accepts (h : IsIntervals cr) (hemit : reEmitRange s cr = .ok code) : ∃ op, code = [op] ∧
    ∀ U ctx c, c < uint32Max → execChar ctx U s.ignoreCase c < uint32Max →
      (charTest U ctx op c = true ↔ execChar ctx U s.ignoreCase c ∈ charSet cr) := by
  rw [reEmitRange] at hemit
  split at hemit
  · cases hemit
  split at hemit
  · next hlen =>
    obtain rfl : cr = [] := by
      have heven := h.even
      rw [← List.length_eq_zero_iff]
      rw [Nat.even_iff] at heven
      omega
    refine ⟨_, (Except.ok.inj hemit).symm, fun U ctx c hc _ => ?_⟩
    have hne : uint32Max ≠ execChar ctx U false c := hc.ne'
    simp [charTest, hne, charSet, inIntervals]
  · next hlen =>
    have hne (m : ℕ) : intervalPairs m cr ≠ [] := by
      intro hnil
      have hlength := intervalPairs_length m cr
      rw [hnil, List.length_nil] at hlength
      omega
    change (if highPoint cr ≤ 0xffff then
        Except.ok [Op.range s.ignoreCase
          (rangePairs (2 ^ 16) (fun b => if b - 1 = uint32Max - 1 then 0xffff else b - 1) cr)]
      else Except.ok [Op.range32 s.ignoreCase (rangePairs (2 ^ 32) (· - 1) cr)]) = .ok code at hemit
    split at hemit
    · next hhigh =>
      have hfits : FitsBelow 0xffff cr := fun p hp hmax => (le_highPoint h.sorted hp hmax).trans hhigh
      have hpairs : rangePairs (2 ^ 16) (fun b => if b - 1 = uint32Max - 1 then 0xffff else b - 1) cr =
          intervalPairs 0xffff cr := by
        apply rangePairs_eq h
        · intro p hp hmax
          have hp := hfits p hp hmax
          exact Nat.mod_eq_of_lt (by omega)
        · intro p hp
          by_cases hmax : p = uint32Max
          · simp [hmax]
          · have hp := hfits p hp hmax
            have htop : ¬ p - 1 = uint32Max - 1 := by
              unfold uint32Max
              omega
            rw [if_neg htop, if_neg hmax]
            exact Nat.mod_eq_of_lt (by omega)
      have hsorted := intervalPairs_sorted h hfits
      refine ⟨_, (Except.ok.inj hemit).symm, fun U ctx c _ hc => ?_⟩
      rw [charTest, hpairs]
      generalize execChar ctx U s.ignoreCase c = c at hc
      rcases le_total c 0xffff with hle | hge
      · rw [rangeMatch_iff hsorted (hne _) fun _ => hle]
        exact intervalPairs_inRange h hle (by decide)
      · -- no boundary lies between 0xffff and `c`
        have hsame : within cr c = within cr 0xffff := within_congr fun p hp => by
          by_cases hmax : p = uint32Max
          · have htop : (0xffff : ℕ) < uint32Max := by decide
            omega
          · have hp := hfits p hp hmax
            omega
        rw [rangeMatch_beyond hsorted (hne _) (intervalPairs_high hfits) hge,
          rangeMatch_iff hsorted (hne _) fun _ => le_rfl, intervalPairs_inRange h le_rfl (by decide),
          h.mem_iff, hsame, h.within_eq]
    · have hfits : FitsBelow (uint32Max - 1) cr := fun p hp hmax => by
        have hp := h.le p hp
        omega
      have hpairs : rangePairs (2 ^ 32) (· - 1) cr = intervalPairs (uint32Max - 1) cr := by
        apply rangePairs_eq h
        · intro p hp _
          have hp := h.le p hp
          unfold uint32Max at hp
          exact Nat.mod_eq_of_lt (by omega)
        · intro p hp
          have hp := h.le p hp
          have hmod : (p - 1) % 2 ^ 32 = p - 1 := Nat.mod_eq_of_lt (by unfold uint32Max at hp; omega)
          rw [hmod]
          split
          · next hmax => rw [hmax]
          · rfl
      refine ⟨_, (Except.ok.inj hemit).symm, fun U ctx c _ hc => ?_⟩
      rw [charTest, hpairs, rangeMatch_iff (intervalPairs_sorted h hfits) (hne _) fun h => by cases h]
      exact intervalPairs_inRange h (by omega) (by decide)

end Emit

end Jsregexp
