import Jsregexp.LuaMethods

namespace Jsregexp

open Library.Iteration

variable {σ : Type} (lreExec : Engine) (addr : ℕ) (re : RegExp) (str : Bytes) (replacement : Replacement σ) (fn : σ)

/-- A measure of `last_index` and the length of the subject decreases on every turn of the loop, and both
methods return. -/
structure ReplaceReturns : Prop where
  variant : ∃ μ : ℕ → ℕ → ℕ, ∀ js, jsstringNew addr str = .ok js → ∀ t u,
    Visits (replaceStep lreExec js str replacement) (.start re fn) t →
      replaceStep lreExec js str replacement t = .inl u →
        μ u.re.lastIndex str.length < μ t.re.lastIndex str.length
  replaceAll : ∃ turns o, mtReplaceAll lreExec addr re str replacement fn turns = some o ∧
    o.result ≠ .error .undefined
  replace : ∃ turns o, mtReplace lreExec addr re str replacement fn turns = some o ∧
    o.result ≠ .error .undefined

/-- The subject converts, the engine may be called, every match can be reported, and a match that is replaced ends
neither where the search for it started nor inside a surrogate pair. -/
structure ReplaceAdvances : Prop where
  converts : ∃ js, jsstringNew addr str = .ok js
  called : ∀ js, jsstringNew addr str = .ok js → ∀ t,
    Visits (replaceStep lreExec js str replacement) (.start re fn) t → t.re.Starts js →
      t.re.call lreExec js ≠ .undefined
  reports : ∀ js, jsstringNew addr str = .ok js → ∀ t,
    Visits (replaceStep lreExec js str replacement) (.start re fn) t → t.re.Starts js →
      ∀ capture, t.re.call lreExec js = .matched capture → Reportable t.re.bc js capture
  advances : ∀ js, jsstringNew addr str = .ok js → ∀ t,
    Visits (replaceStep lreExec js str replacement) (.start re fn) t →
      (∃ u, replaceStep lreExec js str replacement t = .inl u) →
        ∀ capture e, t.re.call lreExec js = .matched capture → slot capture 1 = some e →
          e ≠ t.re.startIndex js ∧ ¬ js.InsidePair e

variable {lreExec addr re str replacement fn}

lemma Replacement.apply_error {m : Match} (hi : 1 ≤ m.index) {e : Failure}
    (h : (replacement.apply fn m str).2 = .error e) : e ≠ .undefined := by
  cases replacement with
  | template t =>
    obtain ⟨msg, rfl⟩ := getSubstitution_error hi h
    simp
  | function f =>
    simp only [Replacement.apply] at h
    cases hf : (f fn m str).2 with
    | ok piece => simp [hf, Except.mapError] at h
    | error msg =>
      rw [hf] at h
      simp [← Except.error.inj h]

lemma mtReplaceAll_eq {js : JsString} (hg : re.global = true) (hjs : jsstringNew addr str = .ok js) (turns : ℕ) :
    mtReplaceAll lreExec addr re str replacement fn turns =
      run (replaceStep lreExec js str replacement) turns (.start re fn) := by
  simp [mtReplaceAll, hg, hjs]

section Step

variable {js : JsString} {t : ReplaceState σ} (hl : lreExec.Captures t.re.bc) (hf : lreExec.Forward t.re.bc)
variable (hb : js.StartsBetween) (h : js.WellFormed) (ha : 2 ≤ js.addr) (hcc : 0 < t.re.bc.captureCount)
variable (hm : t.re.moves = true)
include hl hf hb h ha hcc hm

lemma replaceStep_next {u : ReplaceState σ} (hu : replaceStep lreExec js str replacement t = .inl u) :
    ∃ capture e, t.re.Starts js ∧ t.re.call lreExec js = .matched capture ∧ slot capture 1 = some e ∧
      t.re.startIndex js ≤ e ∧ e ≤ js.len ∧ u.re = { t.re with lastIndex := js.byteAt e } := by
  have ho := execOutcome hl hf hb h ha hcc hm
  rw [replaceStep] at hu
  generalize regexpExec lreExec t.re js = o at ho hu
  cases ho with
  | none => cases hu
  | fails => cases hu
  | refused => cases hu
  | undefined => cases hu
  | @some capture s e m hs hc h₀ h₁ hstart hse he hr hb =>
    refine ⟨capture, e, hs, hc, h₁, hstart.trans hse, he, ?_⟩
    simp only at hu
    split at hu
    · cases hu
    · rw [← Sum.inl.inj hu]

lemma replaceStep_undefined :
    (∃ o, replaceStep lreExec js str replacement t = .inr o ∧ o.result = .error .undefined) ↔
      t.re.Starts js ∧ (t.re.call lreExec js = .undefined ∨
        ∃ capture, t.re.call lreExec js = .matched capture ∧ ¬ Reportable t.re.bc js capture) := by
  have ho := execOutcome hl hf hb h ha hcc hm
  rw [replaceStep]
  generalize regexpExec lreExec t.re js = o at ho
  cases ho with
  | none hn =>
    simp only [Sum.inr.injEq, exists_eq_left', reduceCtorEq, false_iff]
    rintro ⟨hs, hc | ⟨capture, hc, -⟩⟩ <;> cases (hn hs).symm.trans hc
  | fails _ hn =>
    simp only [Sum.inr.injEq, exists_eq_left', Except.error.injEq, reduceCtorEq, false_iff]
    rintro ⟨-, hc | ⟨capture, hc, -⟩⟩ <;> rcases hn with hn | hn <;> cases hn.symm.trans hc
  | refused hs hc =>
    simp only [Sum.inr.injEq, exists_eq_left', true_iff]
    exact ⟨hs, .inl hc⟩
  | @undefined capture e hs hc h₁ hr =>
    simp only [Sum.inr.injEq, exists_eq_left', true_iff]
    exact ⟨hs, .inr ⟨capture, hc, hr⟩⟩
  | @some capture s e m hs hc h₀ h₁ hstart hse he hr hbuild =>
    constructor
    · rintro ⟨o, hu, ho⟩
      have hi := buildMatch_index h hbuild h₀ (hse.trans he)
      simp only at hu
      split at hu
      · next happ =>
        rw [← Sum.inr.inj hu] at ho
        have := replacement.apply_error (by omega) (congrArg Prod.snd happ)
        exact absurd (Except.error.inj ho) this
      · cases hu
    · rintro ⟨-, hc' | ⟨capture', hc', hr'⟩⟩
      · cases hc.symm.trans hc'
      · obtain rfl : capture = capture' := LreResult.matched.inj (hc.symm.trans hc')
        exact absurd hr hr'

end Step

section Loop

variable {js : JsString} (hl : lreExec.Captures re.bc) (hf : lreExec.Forward re.bc) (hb : js.StartsBetween)
variable (h : js.WellFormed) (ha : 2 ≤ js.addr) (hcc : 0 < re.bc.captureCount) (hg : re.global = true)
include hl hf hb h ha hcc hg

lemma replace_visits {t : ReplaceState σ} (hv : Visits (replaceStep lreExec js str replacement) (.start re fn) t) :
    ∃ u, u ≤ js.len ∧ ¬ js.Interior u ∧ t.re = { re with lastIndex := js.byteAt u } := by
  have hzero : ¬ js.Interior 0 := by simp [JsString.Interior]
  refine hv.invariant (fun t => ∃ u, u ≤ js.len ∧ ¬ js.Interior u ∧ t.re = { re with lastIndex := js.byteAt u })
    ⟨0, Nat.zero_le _, hzero, by rw [h.byteAt_zero]; rfl⟩ ?_
  rintro t t' - ⟨u, -, -, hre⟩ hstep
  have hm : t.re.moves = true := by
    rw [hre]
    simp only [RegExp.moves, RegExp.global] at hg ⊢
    simp [hg]
  have hbc : t.re.bc = re.bc := by rw [hre]
  obtain ⟨capture, e, -, -, -, -, he, hre'⟩ :=
    replaceStep_next (hbc ▸ hl) (hbc ▸ hf) hb h ha (hbc ▸ hcc) hm hstep
  by_cases hi : js.Interior e
  · refine ⟨0, Nat.zero_le _, hzero, ?_⟩
    rw [hre', hre, h.byteAt_zero, JsString.byteAt_interior hi]
  · exact ⟨e, he, hi, by rw [hre', hre]⟩

end Loop

section Returns

variable (hl : lreExec.Captures re.bc) (hf : lreExec.Forward re.bc) (ha : 2 ≤ addr) (hcc : 0 < re.bc.captureCount)
variable (hg : re.global = true) (hv : ValidUtf8 str) (hlen : 0 ∈ str → str.length + 1 < 2 ^ 32)
include hl hf ha hcc hg hv hlen

lemma replaceAll_returns_of_advances (hadv : ReplaceAdvances lreExec addr re str replacement fn) :
    ReplaceReturns lreExec addr re str replacement fn := by
  obtain ⟨js, hjs⟩ := hadv.converts
  have h := jsstringNew_wellFormed hjs hlen
  have hstarts := jsstringNew_startsBetween hjs hv hlen
  obtain ⟨haddr, -, hb⟩ := jsstringNew_addr hjs
  have hvisit {t : ReplaceState σ} (ht : Visits (replaceStep lreExec js str replacement) (.start re fn) t) :=
    replace_visits hl hf hstarts h (haddr ▸ ha) hcc hg ht
  have hmoves {t : ReplaceState σ} (ht : Visits (replaceStep lreExec js str replacement) (.start re fn) t) :
      t.re.bc = re.bc ∧ t.re.moves = true := by
    obtain ⟨u, -, -, hre⟩ := hvisit ht
    simp only [RegExp.moves, RegExp.global] at hg ⊢
    simp [hre, hg]
  have hle {u : ℕ} (hu : u ≤ js.len) : js.byteAt u ≤ str.length := by
    have := h.byteAt_le hu
    rw [hb] at this
    exact this.trans (Nat.mod_le _ _)
  have hdec : ∀ t t', Visits (replaceStep lreExec js str replacement) (.start re fn) t →
      replaceStep lreExec js str replacement t = .inl t' →
        str.length - t'.re.lastIndex < str.length - t.re.lastIndex := by
    intro t t' ht hstep
    obtain ⟨u, hu, hu', hre⟩ := hvisit ht
    obtain ⟨hbc, hm⟩ := hmoves ht
    obtain ⟨capture, e, hs, hc, h₁, hstart, he, hre'⟩ :=
      replaceStep_next (hbc ▸ hl) (hbc ▸ hf) hstarts h (haddr ▸ ha) (hbc ▸ hcc) hm hstep
    obtain ⟨hne, hpair⟩ := hadv.advances js hjs t ht ⟨t', hstep⟩ capture e hc h₁
    have hx : t.re.startIndex js = u := by
      rw [RegExp.startIndex, if_pos hm, hre]
      exact h.translateIndex_byteAt hu hu'
    have hlt := h.byteAt_lt he hu' ((insidePair_iff_interior hjs hv hlen he).not.mp hpair)
      (Nat.lt_of_le_of_ne (hx ▸ hstart) (hx ▸ hne.symm))
    have := hle he
    simp only [hre', hre]
    omega
  obtain ⟨o, n, hn⟩ := halts_of_measure (fun t => str.length - t.re.lastIndex) (ReplaceState.start re fn) hdec
  have ho : o.result ≠ .error .undefined := by
    intro ho
    obtain ⟨t, ht, hstop⟩ := Returns.last ⟨n, hn⟩
    obtain ⟨hbc, hm⟩ := hmoves ht
    obtain ⟨hs, hc | ⟨capture, hc, hr⟩⟩ := (replaceStep_undefined (hbc ▸ hl) (hbc ▸ hf) hstarts h (haddr ▸ ha)
      (hbc ▸ hcc) hm).mp ⟨o, hstop, ho⟩
    · exact hadv.called js hjs t ht hs hc
    · exact hr (hadv.reports js hjs t ht hs capture hc)
  have hall : mtReplaceAll lreExec addr re str replacement fn n = some o := by rw [mtReplaceAll_eq hg hjs, hn]
  refine ⟨⟨fun li n => n - li, fun js' hjs' => ?_⟩, ⟨n, o, hall, ho⟩, ⟨n, o, by rw [mtReplace, if_pos hg, hall], ho⟩⟩
  obtain rfl : js = js' := Except.ok.inj (hjs.symm.trans hjs')
  exact hdec

theorem replaceAll_returns_iff : ReplaceReturns lreExec addr re str replacement fn ↔
    ReplaceAdvances lreExec addr re str replacement fn := by
  refine ⟨fun hr => ?_, replaceAll_returns_of_advances hl hf ha hcc hg hv hlen⟩
  obtain ⟨turns, o, hall, ho⟩ := hr.replaceAll
  obtain ⟨js, hjs⟩ : ∃ js, jsstringNew addr str = .ok js := by
    refine (jsstringNew_text hv).resolve_left fun herr => ho ?_
    simp only [mtReplaceAll, hg, not_true_eq_false, if_false, herr, Option.some.injEq] at hall
    rw [← hall]
  have h := jsstringNew_wellFormed hjs hlen
  have hstarts := jsstringNew_startsBetween hjs hv hlen
  obtain ⟨haddr, -, -⟩ := jsstringNew_addr hjs
  have hvisit {t : ReplaceState σ} (ht : Visits (replaceStep lreExec js str replacement) (.start re fn) t) :=
    replace_visits hl hf hstarts h (haddr ▸ ha) hcc hg ht
  have hmoves {t : ReplaceState σ} (ht : Visits (replaceStep lreExec js str replacement) (.start re fn) t) :
      t.re.bc = re.bc ∧ t.re.moves = true := by
    obtain ⟨u, -, -, hre⟩ := hvisit ht
    simp only [RegExp.moves, RegExp.global] at hg ⊢
    simp [hre, hg]
  rw [mtReplaceAll_eq hg hjs] at hall
  have hdefined {t : ReplaceState σ} (ht : Visits (replaceStep lreExec js str replacement) (.start re fn) t)
      (hs : t.re.Starts js) : ¬ (t.re.call lreExec js = .undefined ∨
        ∃ capture, t.re.call lreExec js = .matched capture ∧ ¬ Reportable t.re.bc js capture) := by
    intro hc
    obtain ⟨hbc, hm⟩ := hmoves ht
    obtain ⟨o', hstop, ho'⟩ := (replaceStep_undefined (hbc ▸ hl) (hbc ▸ hf) hstarts h (haddr ▸ ha) (hbc ▸ hcc)
      hm).mpr ⟨hs, hc⟩
    have hret : Returns (replaceStep lreExec js str replacement) t o := ht.returns.mp ⟨turns, hall⟩
    exact ho (returns_of_stop hstop hret ▸ ho')
  refine ⟨⟨js, hjs⟩, ?_, ?_, ?_⟩
  · intro js' hjs' t ht hs hc
    obtain rfl : js = js' := Except.ok.inj (hjs.symm.trans hjs')
    exact hdefined ht hs (.inl hc)
  · intro js' hjs' t ht hs capture hc
    obtain rfl : js = js' := Except.ok.inj (hjs.symm.trans hjs')
    by_contra hrep
    exact hdefined ht hs (.inr ⟨capture, hc, hrep⟩)
  · rintro js' hjs' t ht ⟨t', hstep⟩ capture e hc h₁
    obtain rfl : js = js' := Except.ok.inj (hjs.symm.trans hjs')
    obtain ⟨μ, hμ⟩ := hr.variant
    obtain ⟨u, hu, hu', hre⟩ := hvisit ht
    obtain ⟨hbc, hm⟩ := hmoves ht
    obtain ⟨capture', e', -, hc', h₁', hstart, he, hre'⟩ :=
      replaceStep_next (hbc ▸ hl) (hbc ▸ hf) hstarts h (haddr ▸ ha) (hbc ▸ hcc) hm hstep
    obtain rfl : capture = capture' := LreResult.matched.inj (hc.symm.trans hc')
    obtain rfl : e = e' := Option.some.inj (h₁.symm.trans h₁')
    have hlt := hμ js hjs t t' ht hstep
    have hfirst : μ t.re.lastIndex str.length ≤ μ 0 str.length :=
      ht.invariant (fun t => μ t.re.lastIndex str.length ≤ μ 0 str.length) le_rfl
        fun a b ha hle hb => (hμ js hjs a b ha hb).le.trans hle
    constructor
    · rintro rfl
      have hx : t.re.startIndex js = u := by
        rw [RegExp.startIndex, if_pos hm, hre]
        exact h.translateIndex_byteAt hu hu'
      rw [hre', hx, hre] at hlt
      exact lt_irrefl _ hlt
    · intro hpair
      rw [hre', JsString.byteAt_interior ((insidePair_iff_interior hjs hv hlen he).mp hpair)] at hlt
      exact absurd hfirst (Nat.not_le.mpr hlt)

end Returns

def emptyExec : Engine := fun bc _ cindex clen _ =>
  if bc.captureCount = 1 ∧ cindex ≤ clen then .matched [some cindex, some cindex] else .noMatch

def emptyRe : RegExp where
  expr := bytesOf "(?:)"
  bc := {
    flags := lreFlagGlobal
    captureCount := 1
    registerCount := 0
    code := [.split false 6, .any, .goto (-11), .saveStart 0, .saveEnd 0, .matched]
    groupNames := [] }
  lastIndex := 0

lemma dotExec_forward (bc : Bytecode) : dotExec.Forward bc := by
  intro cbuf cindex clen cbufType capture _ h s h₀
  rw [dotExec] at h
  split at h
  · obtain rfl := LreResult.matched.inj h
    exact (Option.some.inj h₀).le
  · cases h

lemma dashText {m : Match} (hi : 1 ≤ m.index) :
    getSubstitution m (bytesOf "ab") (bytesOf "-") = .ok (bytesOf "-") := by
  rw [getSubstitution_eq hi]
  simp [pieces, bytesOf, byteOf, expandWith, bind, Except.bind, pure, Except.pure]

lemma dot_visits {t : ReplaceState Unit}
    (h : Visits (replaceStep dotExec abText (bytesOf "ab") (.template (bytesOf "-"))) (.start (dotRe 0) ()) t) :
    t.re = dotRe 0 ∨ t.re = dotRe 1 ∨ t.re = dotRe 2 := by
  refine h.invariant (fun t => t.re = dotRe 0 ∨ t.re = dotRe 1 ∨ t.re = dotRe 2) (.inl rfl) ?_
  rintro ⟨re, output, cur, fn⟩ u - hre hu
  obtain rfl | rfl | rfl : re = dotRe 0 ∨ re = dotRe 1 ∨ re = dotRe 2 := hre
  · have hexec : regexpExec dotExec (dotRe 0) abText =
      ⟨dotRe 1, .ok (some ⟨bytesOf "ab", 1, 1, [bytesOf "a"], none, none⟩)⟩ := by rfl
    simp only [replaceStep, hexec, Replacement.apply, dashText (m := ⟨_, 1, _, _, _, _⟩) le_rfl] at hu
    rw [← Sum.inl.inj hu]
    exact .inr (.inl rfl)
  · have hexec : regexpExec dotExec (dotRe 1) abText = ⟨dotRe 2, .ok (some matchB)⟩ := by rfl
    simp only [replaceStep, hexec, Replacement.apply, dashText (m := matchB) (by decide)] at hu
    rw [← Sum.inl.inj hu]
    exact .inr (.inr rfl)
  · have hexec : regexpExec dotExec (dotRe 2) abText = ⟨dotRe 0, .ok none⟩ := by rfl
    simp only [replaceStep, hexec] at hu
    cases hu

theorem replaceAll_returns_dot :
    ReplaceReturns dotExec 16 (dotRe 0) (bytesOf "ab") (.template (bytesOf "-")) () := by
  refine (replaceAll_returns_iff (dotExec_captures _) (dotExec_forward _) (by decide) (by decide) rfl
    ⟨['a', 'b'], by decide⟩ fun _ => by decide).mpr ⟨⟨abText, abText_eq⟩, ?_, ?_, ?_⟩
  · intro js hjs t ht _ hc
    obtain rfl : abText = js := Except.ok.inj (abText_eq.symm.trans hjs)
    rcases dot_visits ht with h | h | h <;> rw [h] at hc <;> cases hc
  · intro js hjs t ht hs capture hc
    obtain rfl : abText = js := Except.ok.inj (abText_eq.symm.trans hjs)
    have hbc : t.re.bc = (dotRe 0).bc := by
      rcases dot_visits ht with h | h | h <;> rw [h] <;> rfl
    rw [hbc]
    refine ⟨fun p hp => (by cases hp), fun _ _ _ => rfl, fun i hi s e h₀ h₁ => ?_⟩
    obtain ⟨hse, he⟩ := ((dotExec_captures _).call hc).took (hbc ▸ hi) h₀ h₁
    exact ⟨hse, Nat.le_succ_of_le he⟩
  · intro js hjs t ht _ capture e hc h₁
    obtain rfl : abText = js := Except.ok.inj (abText_eq.symm.trans hjs)
    have hpair : ¬ abText.InsidePair e := fun hp => by cases hp.1
    rcases dot_visits ht with h | h | h <;> rw [h] at hc ⊢
    · obtain rfl : [some 0, some 1] = capture := LreResult.matched.inj hc
      exact ⟨by obtain rfl := Option.some.inj h₁; decide, hpair⟩
    · obtain rfl : [some 1, some 2] = capture := LreResult.matched.inj hc
      exact ⟨by obtain rfl := Option.some.inj h₁; decide, hpair⟩
    · cases hc

theorem replaceAll_empty_diverges :
    jsstringNew 16 (bytesOf "ab") = .ok abText ∧
      (∀ turns, mtReplaceAll emptyExec 16 emptyRe (bytesOf "ab") (.template (bytesOf "-")) () turns = none) ∧
      ¬ ReplaceReturns emptyExec 16 emptyRe (bytesOf "ab") (.template (bytesOf "-")) () := by
  have hloop : ¬ Halts (replaceStep emptyExec abText (bytesOf "ab") (.template (bytesOf "-")))
      (.start emptyRe ()) := by
    refine not_halts_of_invariant (fun t => t.re = emptyRe) ?_ rfl
    rintro ⟨_, output, cur, fn⟩ rfl
    have hexec : regexpExec emptyExec emptyRe abText =
      ⟨emptyRe, .ok (some ⟨bytesOf "ab", 1, 1, [[]], none, none⟩)⟩ := by rfl
    simp only [replaceStep, hexec, Replacement.apply, dashText (m := ⟨_, 1, _, _, _, _⟩) le_rfl]
    exact ⟨_, rfl, rfl⟩
  have hnone (turns : ℕ) : mtReplaceAll emptyExec 16 emptyRe (bytesOf "ab") (.template (bytesOf "-")) () turns =
      none := by
    rw [mtReplaceAll_eq rfl abText_eq]
    cases hrun : run (replaceStep emptyExec abText (bytesOf "ab") (.template (bytesOf "-"))) turns
      (.start emptyRe ()) with
    | none => rfl
    | some o => exact absurd ⟨o, turns, hrun⟩ hloop
  refine ⟨abText_eq, hnone, fun hr => ?_⟩
  obtain ⟨turns, o, ho, -⟩ := hr.replaceAll
  rw [hnone] at ho
  cases ho

end Jsregexp
