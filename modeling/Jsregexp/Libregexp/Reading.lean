import Jsregexp.Libregexp.Spans

namespace Jsregexp

open Library.Repetition

section Pairs

/-- The position is between the halves of a surrogate pair that counts as one character. -/
def REExecContext.InsidePair (s : REExecContext) (p : ℕ) : Prop :=
  0 < p ∧ p < s.cbufEnd ∧ s.cbufType = 2 ∧ isLoSurrogate (s.cbuf.getD p 0) ∧ isHiSurrogate (s.cbuf.getD (p - 1) 0)

variable (s : REExecContext)

lemma isLoSurrogate_of_hi {c : ℕ} (h : isHiSurrogate c) : ¬ isLoSurrogate c := by
  intro hlo
  have hhi := isHiSurrogate_iff.mp h
  have hlo := isLoSurrogate_iff.mp hlo
  omega

theorem keptByReading_outside : KeptByReading s fun p => ¬ s.InsidePair p where
  next p _ _ := by
    rw [getChar]
    split
    · next hpair =>
      rintro ⟨-, -, -, -, hhi⟩
      exact isLoSurrogate_of_hi hhi hpair.2.2.2
    · next hpair =>
      rintro ⟨-, hend, htype, hlo, hhi⟩
      exact hpair ⟨hhi, htype, hend, hlo⟩
  prev p _ hne := by
    obtain ⟨p, rfl⟩ := Nat.exists_eq_succ_of_ne_zero hne
    rw [getPrevChar]
    split
    · next hpair =>
      rintro ⟨-, -, -, hlo, -⟩
      exact isLoSurrogate_of_hi hpair.2.2.2 hlo
    · next hpair =>
      rintro ⟨hpos, -, htype, hlo, hhi⟩
      exact hpair ⟨hlo, htype, hpos, hhi⟩

lemma keptByReading_inside : KeptByReading s fun p => p ≤ s.cbufEnd where
  next _ _ hlt := getChar_le s hlt
  prev _ hp hne := (getPrevChar_lt s hne 0).le.trans hp

lemma startPosition_outside (cindex : ℕ) : ¬ s.InsidePair (startPosition s cindex) := by
  rw [startPosition]
  split
  · next h =>
    rintro ⟨-, -, -, hlo, -⟩
    exact isLoSurrogate_of_hi h.2.2.2.2 hlo
  · next h =>
    rintro ⟨hpos, hend, htype, hlo, hhi⟩
    exact h ⟨hpos, hend, htype, hlo, hhi⟩

lemma startPosition_le (cindex : ℕ) : startPosition s cindex ≤ cindex := by
  rw [startPosition]
  split <;> omega

lemma startPosition_eq {cindex : ℕ} (h : ¬ s.InsidePair cindex) : startPosition s cindex = cindex := if_neg h

end Pairs

structure SameReading (s s' : REExecContext) : Prop where
  next : ∀ p cbufEnd, getChar s p cbufEnd = getChar s' p cbufEnd
  prev : ∀ p cbufStart, getPrevChar s p cbufStart = getPrevChar s' p cbufStart
  cbufEnd : s.cbufEnd = s'.cbufEnd
  captureCount : s.captureCount = s'.captureCount
  isUnicode : s.isUnicode = s'.isUnicode

section SameReading

variable (U : Libunicode) {s s' : REExecContext} (h : SameReading s s')
include h

lemma SameReading.execChar (ignoreCase : Bool) (c : ℕ) : execChar s U ignoreCase c = execChar s' U ignoreCase c := by
  rw [Jsregexp.execChar, Jsregexp.execChar, h.isUnicode]

lemma SameReading.sameChars (ignoreCase : Bool) (cptr1End n cptr1 cptr : ℕ) :
    sameChars s U ignoreCase cptr1End n cptr1 cptr = sameChars s' U ignoreCase cptr1End n cptr1 cptr := by
  induction n generalizing cptr1 cptr with
  | zero => rfl
  | succ n ih => simp only [Jsregexp.sameChars, h.next, h.cbufEnd, h.execChar, ih]

lemma SameReading.sameCharsBackward (ignoreCase : Bool) (cptr1Start n cptr1 cptr : ℕ) :
    sameCharsBackward s U ignoreCase cptr1Start n cptr1 cptr =
      sameCharsBackward s' U ignoreCase cptr1Start n cptr1 cptr := by
  induction n generalizing cptr1 cptr with
  | zero => rfl
  | succ n ih => simp only [Jsregexp.sameCharsBackward, h.prev, h.execChar, ih]

lemma SameReading.referredSpan (capture : ℕ → Option ℕ) (groups : List ℕ) :
    referredSpan s capture groups = referredSpan s' capture groups := by
  induction groups with
  | nil => rfl
  | cons val groups ih => rw [Jsregexp.referredSpan, Jsregexp.referredSpan, h.captureCount, ih]

lemma SameReading.charTest : charTest U s = charTest U s' := by
  funext op c
  cases op <;> simp only [Jsregexp.charTest, h.execChar]

lemma SameReading.positionTest : positionTest s = positionTest s' := by
  funext op p
  cases op <;> simp only [Jsregexp.positionTest, h.next, h.prev, h.cbufEnd]

lemma SameReading.atomStep : atomStep U s = atomStep U s' := by
  funext σ op
  simp only [Jsregexp.atomStep, MatchState.over, MatchState.refer, h.charTest, h.positionTest, h.next, h.prev,
    h.cbufEnd, h.referredSpan, h.sameChars, h.sameCharsBackward]

lemma SameReading.results (need : Precautions) (t : RegexpTree) (i : ℕ) (σ : MatchState) :
    t.results U s need i σ = t.results U s' need i σ := by
  induction t generalizing i σ with
  | atom code _ => rw [RegexpTree.results, RegexpTree.results, h.atomStep]
  | append _ a b iha ihb =>
    have ha : a.results U s need = a.results U s' need := funext₂ iha
    have hb : b.results U s need = b.results U s' need := funext₂ ihb
    rw [RegexpTree.results, RegexpTree.results, ha, hb]
  | alternative a b iha ihb => rw [RegexpTree.results, RegexpTree.results, iha, ihb]
  | capture _ body ih => rw [RegexpTree.results, RegexpTree.results, ih]
  | lookahead _ body ih => rw [RegexpTree.results, RegexpTree.results, ih]
  | repeated body _ _ _ ih =>
    have hbody : body.results U s need = body.results U s' need := funext₂ ih
    rw [RegexpTree.results, RegexpTree.results, hbody]

lemma SameReading.attempt (need : Precautions) (t : RegexpTree) : t.attempt U s need = t.attempt U s' need := by
  funext p
  rw [RegexpTree.attempt, RegexpTree.attempt, h.results]

lemma SameReading.searchPositions (n p : ℕ) : searchPositions s n p = searchPositions s' n p := by
  induction n generalizing p with
  | zero => rfl
  | succ n ih => rw [Jsregexp.searchPositions, Jsregexp.searchPositions, h.next, h.cbufEnd, ih]

theorem SameReading.firstMatch (need : Precautions) (t : RegexpTree) (isSticky : Bool) (p : ℕ) :
    t.firstMatch U s need isSticky p = t.firstMatch U s' need isSticky p := by
  rw [RegexpTree.firstMatch, RegexpTree.firstMatch, h.attempt, h.searchPositions, h.cbufEnd]

end SameReading

section Width

variable {bc : Bytecode} {cbuf : List ℕ}

lemma getD_lt_of_forall {l : List ℕ} {b : ℕ} (h : ∀ u ∈ l, u < b) (hb : 0 < b) (k : ℕ) : l.getD k 0 < b := by
  by_cases hk : k < l.length
  · rw [List.getD_eq_getElem l 0 hk]
    exact h _ (List.getElem_mem hk)
  · rw [List.getD_eq_default _ _ (not_lt.mp hk)]
    exact hb

lemma not_hi_of_byte {c : ℕ} (h : c < 256) : ¬ isHiSurrogate c := by
  rw [isHiSurrogate_iff]
  omega

lemma not_lo_of_byte {c : ℕ} (h : c < 256) : ¬ isLoSurrogate c := by
  rw [isLoSurrogate_iff]
  omega

theorem sameReading_width (hcbuf : ∀ u ∈ cbuf, u < 256) (bc : Bytecode) (clen cbufType cbufType' : ℕ) :
    SameReading (.start bc cbuf clen cbufType) (.start bc cbuf clen cbufType') where
  next p cbufEnd := by
    have hbyte := not_hi_of_byte (getD_lt_of_forall hcbuf (by decide) p)
    rw [getChar, getChar, if_neg (fun h => hbyte h.1), if_neg (fun h => hbyte h.1)]
    rfl
  prev p cbufStart := by
    have hbyte := not_lo_of_byte (getD_lt_of_forall hcbuf (by decide) (p - 1))
    rw [getPrevChar, getPrevChar, if_neg (fun h => hbyte h.1), if_neg (fun h => hbyte h.1)]
    rfl
  cbufEnd := rfl
  captureCount := rfl
  isUnicode := rfl

lemma outside_of_bytes {s : REExecContext} (hcbuf : ∀ u ∈ s.cbuf, u < 256) (p : ℕ) : ¬ s.InsidePair p :=
  fun h => not_lo_of_byte (getD_lt_of_forall hcbuf (by decide) p) h.2.2.2.1

end Width

end Jsregexp
