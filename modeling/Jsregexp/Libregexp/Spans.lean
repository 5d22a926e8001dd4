import Jsregexp.Libregexp.Precautions

namespace Jsregexp

open Library.Repetition

section Frame

variable (U : Libunicode) (s : REExecContext) (need : Precautions) {t : RegexpTree} {isBackwardDir : Bool}
variable {i k first count : ℕ} {σ τ : MatchState}

lemma lookaheadResults_capture {isNeg : Bool} {σs : List MatchState} (h : τ ∈ lookaheadResults isNeg σ σs) :
    τ.capture = σ.capture ∨ ∃ υ ∈ σs, τ.capture = υ.capture := by
  cases σs with
  | nil =>
    cases isNeg with
    | false => cases h
    | true => exact .inl (congrArg MatchState.capture (List.mem_singleton.mp h))
  | cons υ σs =>
    cases isNeg with
    | false =>
      have hτ : τ = { υ with cptr := σ.cptr } := List.mem_singleton.mp h
      exact .inr ⟨υ, List.mem_cons_self, by rw [hτ]⟩
    | true => cases h

lemma beforeTurn_frame (init : Bool) (hk : ¬ (2 * first ≤ k ∧ k < 2 * (first + count))) :
    (beforeTurn init first count σ).capture k = σ.capture k := by
  cases init with
  | false => rfl
  | true => exact if_neg hk

lemma RegexpTree.Directed.results_frame (h : t.Directed isBackwardDir) (hk : ¬ (2 * i ≤ k ∧ k < 2 * (i + t.groups)))
    (hτ : τ ∈ t.results U s need i σ) : τ.capture k = σ.capture k := by
  induction h generalizing i σ τ with
  | atom h hcode => exact congrFun (hcode.capture U s (Option.mem_toList.mp hτ)) k
  | append _ _ iha ihb =>
    rw [groups] at hk
    rw [results] at hτ
    split at hτ
    · obtain ⟨υ, hυ, hτ⟩ := List.mem_flatMap.mp hτ
      exact (iha (by omega) hτ).trans (ihb (by omega) hυ)
    · obtain ⟨υ, hυ, hτ⟩ := List.mem_flatMap.mp hτ
      exact (ihb (by omega) hτ).trans (iha (by omega) hυ)
  | alternative _ _ iha ihb =>
    rw [groups] at hk
    rcases List.mem_append.mp hτ with hτ | hτ
    · exact iha (by omega) hτ
    · exact ihb (by omega) hτ
  | @capture isBackwardDir body _ ih =>
    rw [groups] at hk
    have hslot (b : Bool) : k ≠ 2 * i + b.toNat := by
      have htoNat := b.toNat_le
      omega
    obtain ⟨υ, hυ, rfl⟩ := List.mem_map.mp hτ
    exact (save_of_ne (hslot _)).trans ((ih (by omega) hυ).trans (save_of_ne (hslot _)))
  | lookahead _ ih =>
    rw [results] at hτ
    rcases lookaheadResults_capture hτ with hσ | ⟨υ, hυ, hτ⟩
    · exact congrFun hσ k
    · exact (congrFun hτ k).trans (ih hk hυ)
  | repeated _ _ _ ih =>
    rw [results] at hτ
    refine .trans (rel_of_mem (R := fun σ τ : MatchState => τ.capture k = σ.capture k) (fun _ => rfl)
      (fun h h' => h'.trans h) (fun σ τ hτ => ?_) hτ) (beforeTurn_frame _ hk)
    exact (ih hk hτ).trans (beforeTurn_frame _ hk)

end Frame

def MatchState.Paired (σ : MatchState) (j : ℕ) : Prop :=
  (σ.capture (2 * j) = none ∧ σ.capture (2 * j + 1) = none) ∨
    ∃ a b, σ.capture (2 * j) = some a ∧ σ.capture (2 * j + 1) = some b ∧ a ≤ b

section Paired

variable (U : Libunicode) {s : REExecContext} (need : Precautions) {t : RegexpTree} {isBackwardDir : Bool}
variable {i j : ℕ} {σ τ : MatchState}

lemma MatchState.Paired.congr (h : σ.Paired j) (h₀ : τ.capture (2 * j) = σ.capture (2 * j))
    (h₁ : τ.capture (2 * j + 1) = σ.capture (2 * j + 1)) : τ.Paired j := by
  rwa [Paired, h₀, h₁]

lemma MatchState.Paired.beforeTurn (h : σ.Paired j) (init : Bool) (first count : ℕ) :
    (beforeTurn init first count σ).Paired j := by
  cases init with
  | false => exact h
  | true =>
    by_cases hj : first ≤ j ∧ j < first + count
    · exact .inl ⟨if_pos (by omega), if_pos (by omega)⟩
    · exact h.congr (if_neg (by omega)) (if_neg (by omega))

theorem RegexpTree.Directed.results_paired (h : t.Directed isBackwardDir) (hend : σ.cptr ≤ s.cbufEnd)
    (hσ : σ.Paired j) (hτ : τ ∈ t.results U s need i σ) : τ.Paired j := by
  induction h generalizing i σ τ with
  | atom h hcode =>
    have hcapture := hcode.capture U s (Option.mem_toList.mp hτ)
    exact hσ.congr (congrFun hcapture _) (congrFun hcapture _)
  | append ha hb iha ihb =>
    rw [results] at hτ
    split at hτ
    · obtain ⟨υ, hυ, hτ⟩ := List.mem_flatMap.mp hτ
      exact iha (hb.moves U s need _ hυ hend).1 (ihb hend hσ hυ) hτ
    · obtain ⟨υ, hυ, hτ⟩ := List.mem_flatMap.mp hτ
      exact ihb (ha.moves U s need _ hυ hend).1 (iha hend hσ hυ) hτ
  | alternative _ _ iha ihb =>
    rcases List.mem_append.mp hτ with hτ | hτ
    · exact iha hend hσ hτ
    · exact ihb hend hσ hτ
  | @capture isBackwardDir body h ih =>
    obtain ⟨υ, hυ, rfl⟩ := List.mem_map.mp hτ
    have hmoves := h.moves U s need _ hυ hend
    by_cases hj : j = i
    · subst hj
      -- the body stays out of the slot in which the position in front of it was saved
      have hfirst : υ.capture (2 * j + isBackwardDir.toNat) = some σ.cptr := by
        have htoNat := isBackwardDir.toNat_le
        rw [h.results_frame U s need (by omega) hυ]
        exact Function.update_self _ _ _
      have hlast : (υ.save (2 * j + (!isBackwardDir).toNat)).capture (2 * j + (!isBackwardDir).toNat) = some υ.cptr :=
        Function.update_self _ _ _
      refine .inr ?_
      cases isBackwardDir with
      | false =>
        refine ⟨σ.cptr, υ.cptr, (save_of_ne (by simp)).trans hfirst, hlast, ?_⟩
        have hahead : s.cbufEnd - υ.cptr ≤ s.cbufEnd - σ.cptr := hmoves.2
        have hle : υ.cptr ≤ s.cbufEnd := hmoves.1
        omega
      | true => exact ⟨υ.cptr, σ.cptr, hlast, (save_of_ne (by simp)).trans hfirst, hmoves.2⟩
    · have hslot (b c : Bool) : 2 * j + b.toNat ≠ 2 * i + c.toNat := by
        have hb := b.toNat_le
        have hc := c.toNat_le
        omega
      have hbody : υ.Paired j := by
        refine ih (show (σ.save _).cptr ≤ s.cbufEnd from hend) (hσ.congr ?_ ?_) hυ
        · exact save_of_ne (hslot false _)
        · exact save_of_ne (hslot true _)
      exact hbody.congr (save_of_ne (hslot false _)) (save_of_ne (hslot true _))
  | lookahead _ ih =>
    rw [results] at hτ
    rcases lookaheadResults_capture hτ with hcapture | ⟨υ, hυ, hcapture⟩
    · exact hσ.congr (congrFun hcapture _) (congrFun hcapture _)
    · exact (ih hend hσ hυ).congr (congrFun hcapture _) (congrFun hcapture _)
  | @repeated isBackwardDir _ _ _ body h _ _ ih =>
    rw [results] at hτ
    have hrun := rel_of_mem (R := fun σ τ : MatchState => σ.cptr ≤ s.cbufEnd ∧ σ.Paired j →
      τ.cptr ≤ s.cbufEnd ∧ τ.Paired j) (fun _ => id) (fun h h' hσ => h' (h hσ)) ?_ hτ
    · exact (hrun ⟨(beforeTurn_cptr _ _ _ _).trans_le hend, hσ.beforeTurn _ _ _⟩).2
    · rintro σ τ hτ ⟨hend, hσ⟩
      have hstart : (beforeTurn (need (body.code i)).2 i body.groups σ).cptr ≤ s.cbufEnd :=
        (beforeTurn_cptr _ _ _ _).trans_le hend
      exact ⟨(h.moves U s need i hτ hstart).1, ih hstart (hσ.beforeTurn _ _ _) hτ⟩

end Paired

structure MatchState.On (P : ℕ → Prop) (σ : MatchState) : Prop where
  cptr : P σ.cptr
  capture : ∀ k p, σ.capture k = some p → P p

section Positions

variable {s : REExecContext} {P : ℕ → Prop} {t : RegexpTree} {isBackwardDir : Bool} {i : ℕ} {σ τ : MatchState}

lemma MatchState.On.save (h : σ.On P) (slot : ℕ) : (σ.save slot).On P := by
  refine ⟨h.cptr, fun k p hp => ?_⟩
  by_cases hk : k = slot
  · subst hk
    have hcptr : some σ.cptr = some p := (Function.update_self k _ _).symm.trans hp
    exact Option.some.inj hcptr ▸ h.cptr
  · exact h.capture k p ((save_of_ne hk).symm.trans hp)

lemma MatchState.On.beforeTurn (h : σ.On P) (init : Bool) (first count : ℕ) : (beforeTurn init first count σ).On P := by
  cases init with
  | false => exact h
  | true =>
    refine ⟨h.cptr, fun k p hp => ?_⟩
    have hif : (if 2 * first ≤ k ∧ k < 2 * (first + count) then none else σ.capture k) = some p := hp
    split at hif
    · cases hif
    · exact h.capture k p hif

structure KeptByReading (s : REExecContext) (P : ℕ → Prop) : Prop where
  next : ∀ p, P p → p < s.cbufEnd → P (getChar s p s.cbufEnd).2
  prev : ∀ p, P p → p ≠ 0 → P (getPrevChar s p 0).2

variable (U : Libunicode) (hP : KeptByReading s P)
include hP

lemma KeptByReading.sameChars {ignoreCase : Bool} {cptr1End n cptr1 cptr cptr' : ℕ} (hcptr : P cptr)
    (h : sameChars s U ignoreCase cptr1End n cptr1 cptr = some cptr') : P cptr' := by
  induction n generalizing cptr1 cptr with
  | zero => exact Option.some.inj h ▸ hcptr
  | succ n ih =>
    rw [Jsregexp.sameChars] at h
    split at h
    · split at h
      · cases h
      · next hlt =>
        dsimp only at h
        split at h
        · cases h
        · exact ih (hP.next _ hcptr (not_le.mp hlt)) h
    · exact Option.some.inj h ▸ hcptr

lemma KeptByReading.sameCharsBackward {ignoreCase : Bool} {cptr1Start n cptr1 cptr cptr' : ℕ} (hcptr : P cptr)
    (h : sameCharsBackward s U ignoreCase cptr1Start n cptr1 cptr = some cptr') : P cptr' := by
  induction n generalizing cptr1 cptr with
  | zero => exact Option.some.inj h ▸ hcptr
  | succ n ih =>
    rw [Jsregexp.sameCharsBackward] at h
    split at h
    · split at h
      · cases h
      · next hne =>
        dsimp only at h
        split at h
        · cases h
        · exact ih (hP.prev _ hcptr hne) h
    · exact Option.some.inj h ▸ hcptr

lemma KeptByReading.plain {op : Op} (hop : op.IsChar ∨ op.IsPosition ∨ op = .prev) (hσ : P σ.cptr)
    (h : atomStep U s σ op = some τ) : P τ.cptr := by
  rcases hop with hop | hop | rfl
  · rw [atomStep_char U s hop] at h
    obtain ⟨hlt, rfl⟩ := over_eq_some s h
    exact hP.next _ hσ hlt
  · exact position_eq_some U s hop h ▸ hσ
  · obtain ⟨hne, rfl⟩ := prev_eq_some U s h
    exact hP.prev _ hσ hne

lemma KeptByReading.atom {code : List Op} (hcode : AtomCode isBackwardDir code) (hσ : P σ.cptr)
    (h : code.foldlM (atomStep U s) σ = some τ) : P τ.cptr := by
  rcases hcode.plain_or_reference with hplain | ⟨ignoreCase, groups, rfl⟩
  · clear hcode
    induction code generalizing σ with
    | nil => exact Option.some.inj h ▸ hσ
    | cons op code ih =>
      obtain ⟨υ, hυ, h⟩ := Option.bind_eq_some_iff.mp h
      exact ih (hP.plain U (hplain op List.mem_cons_self) hσ hυ) h fun op hop => hplain op (List.mem_cons_of_mem _ hop)
  · have href : σ.refer U s isBackwardDir ignoreCase groups = some τ := by simpa [atomStep] using h
    rw [MatchState.refer] at href
    split at href
    · cases href
    · exact Option.some.inj href ▸ hσ
    · obtain ⟨cptr, hcptr, rfl⟩ := Option.map_eq_some_iff.mp href
      split at hcptr
      · exact hP.sameCharsBackward U hσ hcptr
      · exact hP.sameChars U hσ hcptr

theorem RegexpTree.Directed.results_on (need : Precautions) (h : t.Directed isBackwardDir) (hσ : σ.On P)
    (hτ : τ ∈ t.results U s need i σ) : τ.On P := by
  induction h generalizing i σ τ with
  | atom h hcode =>
    have hstep := Option.mem_toList.mp hτ
    have hcapture := hcode.capture U s hstep
    exact ⟨hP.atom U hcode hσ.cptr hstep, fun k p hp => hσ.capture k p ((congrFun hcapture k).symm.trans hp)⟩
  | append _ _ iha ihb =>
    rw [results] at hτ
    split at hτ
    · obtain ⟨υ, hυ, hτ⟩ := List.mem_flatMap.mp hτ
      exact iha (ihb hσ hυ) hτ
    · obtain ⟨υ, hυ, hτ⟩ := List.mem_flatMap.mp hτ
      exact ihb (iha hσ hυ) hτ
  | alternative _ _ iha ihb =>
    rcases List.mem_append.mp hτ with hτ | hτ
    · exact iha hσ hτ
    · exact ihb hσ hτ
  | capture _ ih =>
    obtain ⟨υ, hυ, rfl⟩ := List.mem_map.mp hτ
    exact (ih (hσ.save _) hυ).save _
  | lookahead _ ih =>
    rw [results] at hτ
    have hcptr := lookaheadResults_cptr hτ
    rcases lookaheadResults_capture hτ with hcapture | ⟨υ, hυ, hcapture⟩
    · exact ⟨hcptr ▸ hσ.cptr, fun k p hp => hσ.capture k p ((congrFun hcapture k).symm.trans hp)⟩
    · exact ⟨hcptr ▸ hσ.cptr, fun k p hp => (ih hσ hυ).capture k p ((congrFun hcapture k).symm.trans hp)⟩
  | repeated _ _ _ ih =>
    rw [results] at hτ
    exact rel_of_mem (R := fun σ τ : MatchState => σ.On P → τ.On P) (fun _ => id) (fun h h' hσ => h' (h hσ))
      (fun σ τ hτ hσ => ih (hσ.beforeTurn _ _ _) hτ) hτ (hσ.beforeTurn _ _ _)

end Positions

end Jsregexp
