import Jsregexp.Libregexp.Advance
import Jsregexp.Libregexp.Quantifier

/-! Where libregexp.c leaves out a precaution around the body of a quantifier, nothing depends on it: the outcomes are
those of ECMAScript, where every turn begins without the captures of the one before and none may stay. -/

namespace Jsregexp

open Library.Repetition

def allPrecautions : Precautions := fun _ => (true, true)

/-- At least the precautions that libregexp.c takes are taken. -/
structure Cautious (need : Precautions) : Prop where
  check : ∀ code, (neededPrecautions code).1 = true → (need code).1 = true
  init : ∀ code, (neededPrecautions code).2 = true → (need code).2 = true

lemma neededPrecautions_cautious : Cautious neededPrecautions := ⟨fun _ => id, fun _ => id⟩
lemma allPrecautions_cautious : Cautious allPrecautions := ⟨fun _ _ => rfl, fun _ _ => rfl⟩

namespace RegexpTree

def Sets : RegexpTree → ℕ → ℕ → Prop
  | atom _ _, _, _ => False
  | append _ a b, i, k | alternative a b, i, k => a.Sets i k ∨ b.Sets (i + a.groups) k
  | capture _ body, i, k => k = 2 * i ∨ k = 2 * i + 1 ∨ body.Sets (i + 1) k
  | lookahead _ body, i, k => body.Sets i k
  | repeated body _ max _, i, k => max ≠ 0 ∧ body.Sets i k

def Straight : RegexpTree → Prop
  | atom code _ => ∀ op ∈ code, op.IsChar ∨ op.IsPosition ∨ op = .prev
  | append _ a b => a.Straight ∧ b.Straight
  | capture _ body => body.Straight
  | repeated _ _ max _ => max = 0
  | alternative _ _ | lookahead _ _ => False

end RegexpTree

section Slots

variable {t : RegexpTree} {i k : ℕ}

lemma sets_range (h : t.Sets i k) : 2 * i ≤ k ∧ k < 2 * (i + t.groups) := by
  induction t generalizing i with
  | atom => cases h
  | append _ a b iha ihb | alternative a b iha ihb =>
    rw [RegexpTree.groups]
    rcases h with h | h
    · have hk := iha h
      omega
    · have hk := ihb h
      omega
  | capture _ body ih =>
    rw [RegexpTree.groups]
    rcases h with rfl | rfl | h
    · omega
    · omega
    · have hk := ih h
      omega
  | lookahead _ body ih => exact ih h
  | repeated body _ _ _ ih => exact ih h.2

variable (U : Libunicode) (s : REExecContext) (need : Precautions) {σ τ : MatchState}

lemma plain_atom {code : List Op} (h : ∀ op ∈ code, op.IsChar ∨ op.IsPosition ∨ op = .prev) (q : ℕ) :
    ∃ p : Option ℕ, ∀ c, code.foldlM (atomStep U s) ⟨q, c⟩ = p.map fun q => ⟨q, c⟩ := by
  induction code generalizing q with
  | nil => exact ⟨some q, fun _ => rfl⟩
  | cons op code ih =>
    have hstep : ∃ p : Option ℕ, ∀ c, atomStep U s ⟨q, c⟩ op = p.map fun q => ⟨q, c⟩ := by
      rcases h op List.mem_cons_self with hop | hop | rfl
      · by_cases hend : q ≥ s.cbufEnd
        · exact ⟨none, fun c => by rw [atomStep_char U s hop, MatchState.over, if_pos hend]; rfl⟩
        · refine ⟨if charTest U s op (getChar s q s.cbufEnd).1 then some (getChar s q s.cbufEnd).2 else none,
            fun c => ?_⟩
          rw [atomStep_char U s hop, MatchState.over, if_neg hend]
          dsimp only
          split <;> rfl
      · refine ⟨if positionTest s op q then some q else none, fun c => ?_⟩
        rw [atomStep_position U s hop, MatchState.onlyIf]
        dsimp only
        split <;> rfl
      · refine ⟨if q = 0 then none else some (getPrevChar s q 0).2, fun c => ?_⟩
        rw [atomStep]
        dsimp only
        split <;> rfl
    obtain ⟨p, hp⟩ := hstep
    cases p with
    | none => exact ⟨none, fun c => by rw [List.foldlM_cons, hp]; rfl⟩
    | some q' =>
      obtain ⟨p', hp'⟩ := ih (fun op hop => h op (List.mem_cons_of_mem _ hop)) q'
      exact ⟨p', fun c => by rw [List.foldlM_cons, hp]; exact hp' c⟩

lemma refer_capture {backward ignoreCase : Bool} {groups : List ℕ}
    (h : σ.refer U s backward ignoreCase groups = some τ) : τ.capture = σ.capture := by
  rw [MatchState.refer] at h
  split at h
  · cases h
  · exact (congrArg MatchState.capture (Option.some.inj h)).symm
  · obtain ⟨cptr, -, rfl⟩ := Option.map_eq_some_iff.mp h
    rfl

lemma AtomCode.plain_or_reference {isBackwardDir : Bool} {code : List Op} (h : AtomCode isBackwardDir code) :
    (∀ op ∈ code, op.IsChar ∨ op.IsPosition ∨ op = .prev) ∨
      ∃ ignoreCase groups, code = [.backReference isBackwardDir ignoreCase groups] := by
  cases h with
  | empty => exact .inl fun _ h => by cases h
  | position hop => exact .inl fun op h => List.mem_singleton.mp h ▸ .inr (.inl hop)
  | reference ignoreCase groups => exact .inr ⟨ignoreCase, groups, rfl⟩
  | char hop =>
    refine .inl fun op h => ?_
    cases isBackwardDir with
    | false => exact List.mem_singleton.mp h ▸ .inl hop
    | true =>
      rcases List.mem_cons.mp h with rfl | h
      · exact .inr (.inr rfl)
      rcases List.mem_cons.mp h with rfl | h
      · exact .inl hop
      · exact List.mem_singleton.mp h ▸ .inr (.inr rfl)

lemma AtomCode.capture {isBackwardDir : Bool} {code : List Op} (h : AtomCode isBackwardDir code)
    (hτ : code.foldlM (atomStep U s) σ = some τ) : τ.capture = σ.capture := by
  rcases h.plain_or_reference with hplain | ⟨ignoreCase, groups, rfl⟩
  · obtain ⟨p, hp⟩ := plain_atom U s hplain σ.cptr
    rw [hp σ.capture] at hτ
    obtain ⟨q, -, rfl⟩ := Option.map_eq_some_iff.mp hτ
    rfl
  · exact refer_capture U s (by simpa [atomStep] using hτ)

lemma beforeTurn_none {init : Bool} {first count : ℕ} (h : σ.capture k = none) :
    (beforeTurn init first count σ).capture k = none := by
  rw [beforeTurn]
  split
  · rw [MatchState.reset]
    dsimp only
    split
    · rfl
    · exact h
  · exact h

lemma save_of_ne {slot : ℕ} (h : k ≠ slot) : (σ.save slot).capture k = σ.capture k := Function.update_of_ne h _ _

lemma RegexpTree.Directed.results_none {isBackwardDir : Bool} (h : t.Directed isBackwardDir) (hk : ¬ t.Sets i k)
    (hσ : σ.capture k = none) (hτ : τ ∈ t.results U s need i σ) : τ.capture k = none := by
  induction h generalizing i σ τ with
  | atom h hcode => exact (congrFun (hcode.capture U s (Option.mem_toList.mp hτ)) k).trans hσ
  | @append isBackwardDir a b _ _ iha ihb =>
    have ha : ¬ a.Sets i k := fun h => hk (.inl h)
    have hb : ¬ b.Sets (i + a.groups) k := fun h => hk (.inr h)
    rw [results] at hτ
    split at hτ
    · obtain ⟨υ, hυ, hτ⟩ := List.mem_flatMap.mp hτ
      exact iha ha (ihb hb hσ hυ) hτ
    · obtain ⟨υ, hυ, hτ⟩ := List.mem_flatMap.mp hτ
      exact ihb hb (iha ha hσ hυ) hτ
  | alternative _ _ iha ihb =>
    rcases List.mem_append.mp hτ with hτ | hτ
    · exact iha (fun h => hk (.inl h)) hσ hτ
    · exact ihb (fun h => hk (.inr h)) hσ hτ
  | @capture isBackwardDir body _ ih =>
    have hfirst : k ≠ 2 * i := fun h => hk (.inl h)
    have hsecond : k ≠ 2 * i + 1 := fun h => hk (.inr (.inl h))
    have hslot (b : Bool) : k ≠ 2 * i + b.toNat := by cases b <;> assumption
    obtain ⟨υ, hυ, rfl⟩ := List.mem_map.mp hτ
    rw [save_of_ne (hslot _)]
    apply ih (fun h => hk (.inr (.inr h))) _ hυ
    rw [save_of_ne (hslot _), hσ]
  | @lookahead _ _ isNeg body _ ih =>
    rw [results] at hτ
    generalize hresults : body.results U s need i σ = σs at hτ
    cases σs with
    | nil =>
      cases isNeg with
      | false => cases hτ
      | true => rwa [List.mem_singleton.mp hτ]
    | cons υ σs =>
      cases isNeg with
      | false =>
        have hυ : υ ∈ body.results U s need i σ := hresults ▸ List.mem_cons_self
        obtain rfl := List.mem_singleton.mp hτ
        have hnone : υ.capture k = none := ih hk hσ hυ
        exact hnone
      | true => cases hτ
  | @repeated _ greedy min max body _ _ _ ih =>
    rw [results] at hτ
    cases max with
    | zero =>
      rw [repetitions, List.mem_singleton] at hτ
      exact hτ ▸ beforeTurn_none hσ
    | succ max =>
      have hbody : ¬ body.Sets i k := fun h => hk ⟨max.succ_ne_zero, h⟩
      exact rel_of_mem (R := fun σ τ : MatchState => σ.capture k = none → τ.capture k = none) (fun _ => id)
        (fun h h' hσ => h' (h hσ)) (fun σ τ hτ hσ => ih hbody (beforeTurn_none hσ) hτ) hτ (beforeTurn_none hσ)

end Slots

section Scan

variable {t : RegexpTree} {isBackwardDir : Bool}

lemma scan_init (code : List Op) (checkAdv : Bool) : (reNeedCheckAdvAndCaptureInit code checkAdv true).2 = true := by
  induction code generalizing checkAdv with
  | nil => rfl
  | cons op code ih => cases op <;> first | rfl | exact ih _

lemma scan_plain {code : List Op} (h : ∀ op ∈ code, op.IsChar ∨ op.IsPosition ∨ op = .prev) (rest : List Op)
    (checkAdv : Bool) : ∃ checkAdv', reNeedCheckAdvAndCaptureInit (code ++ rest) checkAdv false =
      reNeedCheckAdvAndCaptureInit rest checkAdv' false := by
  induction code generalizing checkAdv with
  | nil => exact ⟨checkAdv, rfl⟩
  | cons op code ih =>
    have hcode := ih fun op hop => h op (List.mem_cons_of_mem _ hop)
    rw [List.cons_append]
    rcases h op List.mem_cons_self with hop | hop | rfl
    · rw [scan_char hop]
      exact hcode false
    · rw [scan_position hop]
      exact hcode checkAdv
    · exact hcode checkAdv

lemma scan_straight (h : t.Directed isBackwardDir) (i : ℕ) (rest : List Op) (checkAdv : Bool)
    (hscan : (reNeedCheckAdvAndCaptureInit (t.code i ++ rest) checkAdv false).2 = false) :
    t.Straight ∧ ∃ checkAdv', (reNeedCheckAdvAndCaptureInit rest checkAdv' false).2 = false := by
  induction h generalizing i rest checkAdv with
  | atom h hcode =>
    rcases hcode.plain_or_reference with hplain | ⟨ignoreCase, groups, rfl⟩
    · obtain ⟨checkAdv', hrest⟩ := scan_plain hplain rest checkAdv
      refine ⟨hplain, checkAdv', ?_⟩
      rw [← hrest]
      exact hscan
    · have hstop : (reNeedCheckAdvAndCaptureInit rest checkAdv true).2 = false := hscan
      rw [scan_init] at hstop
      cases hstop
  | @append isBackwardDir a b ha hb iha ihb =>
    rw [RegexpTree.code] at hscan
    cases isBackwardDir with
    | false =>
      rw [if_neg Bool.false_ne_true, List.append_assoc] at hscan
      obtain ⟨hstraight, _, hscan⟩ := iha i _ _ hscan
      obtain ⟨hstraight', hrest⟩ := ihb _ _ _ hscan
      exact ⟨⟨hstraight, hstraight'⟩, hrest⟩
    | true =>
      rw [if_pos rfl, List.append_assoc] at hscan
      obtain ⟨hstraight, _, hscan⟩ := ihb _ _ _ hscan
      obtain ⟨hstraight', hrest⟩ := iha i _ _ hscan
      exact ⟨⟨hstraight', hstraight⟩, hrest⟩
  | alternative _ _ _ _ => cases hscan
  | @capture isBackwardDir body h ih =>
    have hbody : (reNeedCheckAdvAndCaptureInit (body.code (i + 1) ++
        (if isBackwardDir then .saveStart i else .saveEnd i) :: rest) checkAdv false).2 = false := by
      cases isBackwardDir <;> simpa [RegexpTree.code, reNeedCheckAdvAndCaptureInit] using hscan
    obtain ⟨hstraight, checkAdv', hrest⟩ := ih _ _ _ hbody
    refine ⟨hstraight, checkAdv', ?_⟩
    cases isBackwardDir <;> exact hrest
  | lookahead _ _ => cases hscan
  | @repeated isBackwardDir greedy min max body h hle hmax ih =>
    -- a quantifier that may take no turn stops the scan, one that must take some stops it behind the body
    rcases scan_quantified (body.code i) rest i (i + body.groups) min max greedy checkAdv false with
      ⟨-, hmax, hcode⟩ | hcode | ⟨-, op, rest', hstop, hcode⟩
    · exact ⟨hmax, _, (congrArg Prod.snd hcode).symm.trans hscan⟩
    · cases (congrArg Prod.snd hcode).symm.trans hscan
    · obtain ⟨-, checkAdv', hrest⟩ := ih i _ _ ((congrArg Prod.snd hcode).symm.trans hscan)
      rw [hstop] at hrest
      cases hrest

end Scan

structure AgreeOff (D : ℕ → Prop) (σ σ' : MatchState) : Prop where
  cptr : σ'.cptr = σ.cptr
  capture : ∀ k, ¬ D k → σ'.capture k = σ.capture k

section Agreement

variable {D D' : ℕ → Prop} {σ σ' : MatchState} {slot first count : ℕ}

lemma AgreeOff.mono (h : AgreeOff D σ σ') (hD : ∀ k, D k → D' k) : AgreeOff D' σ σ' :=
  ⟨h.cptr, fun k hk => h.capture k fun hD' => hk (hD k hD')⟩

lemma AgreeOff.eq (h : AgreeOff D σ σ') (hD : ∀ k, ¬ D k) : σ = σ' := by
  obtain ⟨p, c⟩ := σ
  obtain ⟨p', c'⟩ := σ'
  obtain rfl : p' = p := h.cptr
  obtain rfl : c' = c := funext fun k => h.capture k (hD k)
  rfl

lemma AgreeOff.save (h : AgreeOff D σ σ') : AgreeOff (fun k => D k ∧ k ≠ slot) (σ.save slot) (σ'.save slot) := by
  refine ⟨h.cptr, fun k hk => ?_⟩
  by_cases hslot : k = slot
  · subst hslot
    simp [MatchState.save, h.cptr]
  · rw [save_of_ne hslot, save_of_ne hslot]
    exact h.capture k fun hD => hk ⟨hD, hslot⟩

lemma AgreeOff.beforeTurn (h : AgreeOff D σ σ') (init : Bool) :
    AgreeOff D (beforeTurn init first count σ) (beforeTurn init first count σ') := by
  cases init with
  | false => exact h
  | true =>
    refine ⟨h.cptr, fun k hk => ?_⟩
    simp only [Jsregexp.beforeTurn, if_true, MatchState.reset, h.capture k hk]

variable (U : Libunicode) (s : REExecContext) (need : Precautions) {t : RegexpTree} {isBackwardDir : Bool}

lemma RegexpTree.Straight.agree (h : t.Straight) (i : ℕ) (hσ : AgreeOff D σ σ') :
    List.Forall₂ (AgreeOff fun k => D k ∧ ¬ t.Sets i k) (t.results U s need i σ) (t.results U s need i σ') := by
  induction t generalizing i D σ σ' with
  | atom code _ =>
    obtain ⟨p, c⟩ := σ
    obtain ⟨p', c'⟩ := σ'
    obtain rfl : p' = p := hσ.cptr
    obtain ⟨q, hq⟩ := plain_atom U s h p'
    rw [RegexpTree.results, RegexpTree.results, hq, hq]
    cases q with
    | none => exact .nil
    | some q => exact .cons ⟨rfl, fun k hk => hσ.capture k fun hD => hk ⟨hD, id⟩⟩ .nil
  | append isBackwardDir a b iha ihb =>
    rw [RegexpTree.results, RegexpTree.results]
    split
    · apply List.rel_flatMap (ihb h.2 _ hσ)
      intro υ υ' hυ
      exact (iha h.1 _ hυ).imp fun τ τ' hτ => hτ.mono fun k hk => ⟨hk.1.1, fun hab => hab.elim hk.2 hk.1.2⟩
    · apply List.rel_flatMap (iha h.1 _ hσ)
      intro υ υ' hυ
      exact (ihb h.2 _ hυ).imp fun τ τ' hτ => hτ.mono fun k hk => ⟨hk.1.1, fun hab => hab.elim hk.1.2 hk.2⟩
  | alternative => cases h
  | capture isBackwardDir body ih =>
    rw [RegexpTree.results, RegexpTree.results]
    apply List.rel_map _ (ih h (i + 1) hσ.save)
    intro υ υ' hυ
    refine hυ.save.mono fun k hk => ⟨hk.1.1.1, ?_⟩
    rintro (hfirst | hsecond | hbody)
    · cases isBackwardDir
      · exact hk.1.1.2 hfirst
      · exact hk.2 hfirst
    · cases isBackwardDir
      · exact hk.2 hsecond
      · exact hk.1.1.2 hsecond
    · exact hk.1.2 hbody
  | lookahead => cases h
  | repeated body min max greedy =>
    obtain rfl : max = 0 := h
    rw [RegexpTree.results, RegexpTree.results, repetitions, repetitions]
    exact .cons ((hσ.beforeTurn _).mono fun k hk => ⟨hk, fun hsets => hsets.1 rfl⟩) .nil

end Agreement

def MatchState.Unset (σ : MatchState) (first count : ℕ) : Prop :=
  ∀ k, 2 * first ≤ k → k < 2 * (first + count) → σ.capture k = none

section Unset

variable {σ : MatchState} {first count : ℕ}

lemma MatchState.Unset.part (h : σ.Unset first count) {first' count' : ℕ} (hfirst : first ≤ first')
    (hlast : first' + count' ≤ first + count) : σ.Unset first' count' :=
  fun k hk hlt => h k (by omega) (by omega)

lemma unset_reset (σ : MatchState) (first count : ℕ) : (σ.reset first count).Unset first count :=
  fun _ hk hlt => if_pos ⟨hk, hlt⟩

lemma MatchState.Unset.reset_eq (h : σ.Unset first count) : σ.reset first count = σ := by
  obtain ⟨p, c⟩ := σ
  have hc : (fun k => if 2 * first ≤ k ∧ k < 2 * (first + count) then none else c k) = c := by
    funext k
    split
    · next hk => exact (h k hk.1 hk.2).symm
    · rfl
  exact congrArg (MatchState.mk p) hc

lemma MatchState.Unset.beforeTurn_eq (h : σ.Unset first count) (init : Bool) :
    beforeTurn init first count σ = σ := by
  cases init with
  | false => rfl
  | true => exact h.reset_eq

end Unset

section Precautions

variable (U : Libunicode) {s : REExecContext} {t : RegexpTree} {isBackwardDir : Bool} {i : ℕ} {σ : MatchState}

lemma straight_reset {need : Precautions} (h : t.Straight)
    (hσ : ∀ k, ¬ t.Sets i k → (2 * i ≤ k ∧ k < 2 * (i + t.groups)) → σ.capture k = none) :
    t.results U s need i σ = t.results U s need i (σ.reset i t.groups) := by
  have hreset : AgreeOff (t.Sets i) σ (σ.reset i t.groups) := by
    refine ⟨rfl, fun k hk => ?_⟩
    show (if _ then none else σ.capture k) = _
    split
    · next hrange => exact (hσ k hk hrange).symm
    · rfl
  have hagree := (h.agree U s need i hreset).imp fun τ τ' hτ => hτ.eq fun k hk => hk.2 hk.1
  exact List.forall₂_eq_eq_eq ▸ hagree

theorem results_precautions {need : Precautions} (hneed : Cautious need) (h : t.Directed isBackwardDir)
    (hσ : σ.cptr ≤ s.cbufEnd) (hunset : σ.Unset i t.groups) :
    t.results U s need i σ = t.results U s allPrecautions i σ := by
  induction h generalizing i σ with
  | atom h hcode => rfl
  | @append isBackwardDir a b ha hb iha ihb =>
    rw [RegexpTree.groups] at hunset
    rw [RegexpTree.results, RegexpTree.results]
    split
    · rw [ihb hσ (hunset.part (by omega) (by omega))]
      apply List.flatMap_congr
      intro υ hυ
      apply iha (hb.moves U s _ _ hυ hσ).1
      intro k hk hlt
      refine hb.results_none U s _ (fun hsets => ?_) (hunset k hk (by omega)) hυ
      have hrange := sets_range hsets
      omega
    · rw [iha hσ (hunset.part le_rfl (by omega))]
      apply List.flatMap_congr
      intro υ hυ
      apply ihb (ha.moves U s _ _ hυ hσ).1
      intro k hk hlt
      refine ha.results_none U s _ (fun hsets => ?_) (hunset k (by omega) (by omega)) hυ
      have hrange := sets_range hsets
      omega
  | alternative ha hb iha ihb =>
    rw [RegexpTree.groups] at hunset
    rw [RegexpTree.results, RegexpTree.results, iha hσ (hunset.part le_rfl (by omega)),
      ihb hσ (hunset.part (by omega) (by omega))]
  | @capture isBackwardDir body h ih =>
    rw [RegexpTree.groups] at hunset
    have hinner : (σ.save (2 * i + isBackwardDir.toNat)).Unset (i + 1) body.groups := by
      intro k hk hlt
      have hslot : k ≠ 2 * i + isBackwardDir.toNat := by
        have htoNat := isBackwardDir.toNat_le
        omega
      rw [save_of_ne hslot]
      exact hunset k (by omega) (by omega)
    have hbody := ih (show (σ.save (2 * i + isBackwardDir.toNat)).cptr ≤ s.cbufEnd from hσ) hinner
    rw [RegexpTree.results, RegexpTree.results, hbody]
  | lookahead h ih =>
    rw [RegexpTree.results, RegexpTree.results, ih hσ hunset]
  | @repeated isBackwardDir greedy min max body h hle hmax ih =>
    rw [RegexpTree.results, RegexpTree.results]
    have hstart (init : Bool) : beforeTurn init i body.groups σ = σ := hunset.beforeTurn_eq init
    rw [hstart, hstart]
    -- between the turns, the slots are unset that no turn sets
    apply repetitions_congr (I := fun σ => σ.cptr ≤ s.cbufEnd ∧ ∀ k, ¬ body.Sets i k →
      (2 * i ≤ k ∧ k < 2 * (i + body.groups)) → σ.capture k = none)
    · rintro σ ⟨hend, hnone⟩ τ hτ
      refine ⟨(h.moves U s _ i hτ ((beforeTurn_cptr _ _ _ _).trans_le hend)).1, fun k hk hrange => ?_⟩
      exact h.results_none U s _ hk (beforeTurn_none (hnone k hk hrange)) hτ
    · rintro σ ⟨hend, hnone⟩
      have hreset : body.results U s need i (σ.reset i body.groups) =
          body.results U s allPrecautions i (σ.reset i body.groups) := ih hend (unset_reset σ i body.groups)
      show body.results U s need i (beforeTurn (need (body.code i)).2 i body.groups σ) =
        body.results U s allPrecautions i (σ.reset i body.groups)
      cases hinit : (need (body.code i)).2 with
      | false =>
        have hscan : (reNeedCheckAdvAndCaptureInit (body.code i ++ []) true false).2 = false := by
          rw [List.append_nil]
          exact Bool.eq_false_of_not_eq_true fun hnone => by simp [hneed.init _ hnone] at hinit
        have hstraight := (scan_straight h i [] true hscan).1
        exact (straight_reset U hstraight hnone).trans hreset
      | true => exact hreset
    · rintro σ ⟨hend, -⟩ τ hτ
      show stays (need (body.code i)).1 σ τ = stays true σ τ
      cases hcheck : (need (body.code i)).1 with
      | false =>
        have hstay : body.mayStay i = false :=
          Bool.eq_false_of_not_eq_true fun hstay => by simp [hneed.check _ hstay] at hcheck
        have hleaves := (h.advances U s _ hstay hτ).ne ((beforeTurn_cptr _ _ _ _).trans_le hend)
        have hne : τ.cptr ≠ σ.cptr := fun heq => hleaves (heq.trans (beforeTurn_cptr _ _ _ _).symm)
        simp [stays, hne]
      | true => rfl
    · exact ⟨hσ, fun k _ hrange => hunset k hrange.1 hrange.2⟩

lemma attempt_precautions (h : t.Directed isBackwardDir) {p : ℕ} (hp : p ≤ s.cbufEnd) :
    t.attempt U s neededPrecautions p = t.attempt U s allPrecautions p := by
  have hunset : (MatchState.save ⟨p, fun _ => none⟩ 0).Unset 1 t.groups :=
    fun k hk _ => save_of_ne (show k ≠ 0 by omega)
  rw [RegexpTree.attempt, RegexpTree.attempt, results_precautions U neededPrecautions_cautious h hp hunset]

lemma mem_searchPositions {n p q : ℕ} (hp : p ≤ s.cbufEnd) (hq : q ∈ searchPositions s n p) :
    p ≤ q ∧ q ≤ s.cbufEnd := by
  induction n generalizing p with
  | zero =>
    obtain rfl := List.mem_singleton.mp hq
    exact ⟨le_rfl, hp⟩
  | succ n ih =>
    rcases List.mem_cons.mp hq with rfl | hq
    · exact ⟨le_rfl, hp⟩
    · split at hq
      · next hlt =>
        have hbounds := ih (getChar_le s hlt) hq
        exact ⟨(lt_getChar s p s.cbufEnd).le.trans hbounds.1, hbounds.2⟩
      · cases hq

theorem firstMatch_precautions (h : t.Directed isBackwardDir) {p : ℕ} (hp : p ≤ s.cbufEnd) (isSticky : Bool) :
    t.firstMatch U s neededPrecautions isSticky p = t.firstMatch U s allPrecautions isSticky p := by
  rw [RegexpTree.firstMatch, RegexpTree.firstMatch]
  split
  · exact attempt_precautions U h hp
  · rw [← List.head?_filterMap, ← List.head?_filterMap, List.filterMap_congr]
    intro q hq
    exact attempt_precautions U h (mem_searchPositions hp hq).2

end Precautions

end Jsregexp
