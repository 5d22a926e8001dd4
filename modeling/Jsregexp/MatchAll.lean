import Jsregexp.Split

namespace Jsregexp

open Library.Iteration

namespace Match

def Before (m m' : Match) : Prop := m.index < m'.index ∧ m.stop ≤ m'.index

end Match

/-- Collecting the matches ends, with at most one match more than the subject has bytes, and at any time
the matches found so far lie one behind the other. -/
structure Collects (lreExec : Engine) (js : JsString) (str : Bytes) (r : RegExp) : Prop where
  ends : ∃ turns o, run (collectStep lreExec id js) turns ⟨r, []⟩ = some o ∧ o.result ≠ .error .undefined
  bounded : ∀ t, Visits (collectStep lreExec id js) ⟨r, []⟩ t → t.found.length ≤ str.length + 1
  ordered : ∀ t, Visits (collectStep lreExec id js) ⟨r, []⟩ t → t.found.Pairwise Match.Before

/-- A turn that may call `lre_exec`, whose match can be reported, does not start inside a surrogate pair unless it is the
first, and when it is empty is followed by a position that `last_index` can be set to. -/
structure CollectAdvances (lreExec : Engine) (js : JsString) (t : CollectState Match) : Prop where
  called : t.re.Starts js → t.re.call lreExec js ≠ .undefined
  reports : t.re.Starts js → ∀ capture, t.re.call lreExec js = .matched capture → Reportable t.re.bc js capture
  unsplit : t.found ≠ [] → t.re.Starts js → ∀ capture s, t.re.call lreExec js = .matched capture →
    slot capture 0 = some s → ¬ js.InsidePair s
  bump : t.re.Starts js → ∀ capture s e, t.re.call lreExec js = .matched capture → slot capture 0 = some s →
    slot capture 1 = some e → js.byteAt s = js.byteAt e → js.byteAt e + 2 < 2 ^ 31

def nextIndex (a b : ℕ) : ℕ := if a = b then uint32 (b + 1) else b

inductive CollectOutcome (lreExec : Engine) (js : JsString) (t : CollectState Match) :
    CollectState Match ⊕ Outcome (List Match) → Prop
  | none {re'} : (t.re.Starts js → t.re.call lreExec js = .noMatch) →
      CollectOutcome lreExec js t (.inr ⟨re', .ok t.found⟩)
  | fails {re' msg} : t.re.call lreExec js = .memoryError ∨ t.re.call lreExec js = .timeout →
      CollectOutcome lreExec js t (.inr ⟨re', .error (.raised msg)⟩)
  | refused {re'} : t.re.Starts js → t.re.call lreExec js = .undefined →
      CollectOutcome lreExec js t (.inr ⟨re', .error .undefined⟩)
  | unreported {capture re'} : t.re.Starts js → t.re.call lreExec js = .matched capture →
      ¬ Reportable t.re.bc js capture → CollectOutcome lreExec js t (.inr ⟨re', .error .undefined⟩)
  | overflow {capture s e re'} : t.re.Starts js → t.re.call lreExec js = .matched capture →
      slot capture 0 = some s → slot capture 1 = some e → js.byteAt s = js.byteAt e →
      2 ^ 31 ≤ uint32 (js.byteAt e + 1) + 1 → CollectOutcome lreExec js t (.inr ⟨re', .error .undefined⟩)
  | next {capture s e m} : t.re.Starts js → t.re.call lreExec js = .matched capture →
      Reportable t.re.bc js capture →
      slot capture 0 = some s → slot capture 1 = some e → t.re.startIndex js ≤ s → s ≤ e → e ≤ js.len →
      js.byteAt s ≤ js.byteAt e → m.index = js.byteAt s + 1 → m.stop = js.byteAt e + 1 →
      (js.byteAt s = js.byteAt e → uint32 (js.byteAt e + 1) + 1 < 2 ^ 31) →
      CollectOutcome lreExec js t
        (.inl ⟨{ t.re with lastIndex := nextIndex (js.byteAt s) (js.byteAt e) }, t.found ++ [m]⟩)

section Turn

variable {lreExec : Engine} {addr : ℕ} {str : Bytes} {js : JsString} {t : CollectState Match}
variable (hl : lreExec.Captures t.re.bc) (hf : lreExec.Forward t.re.bc) (hjs : jsstringNew addr str = .ok js)
variable (hz : 0 ∉ str) (hv : ValidUtf8 str) (ha : 2 ≤ addr) (hcc : 0 < t.re.bc.captureCount)
variable (hm : t.re.moves = true)
include hl hf hjs hz hv ha hcc hm

theorem collectOutcome : CollectOutcome lreExec js t (collectStep lreExec id js t) := by
  have hlen : 0 ∈ str → str.length + 1 < 2 ^ 32 := fun hx => absurd hx hz
  have h := jsstringNew_wellFormed hjs hlen
  have ho := execOutcome hl hf (jsstringNew_startsBetween hjs hv hlen) h ((jsstringNew_addr hjs).1 ▸ ha) hcc hm
  rw [collectStep, nextMatch]
  generalize regexpExec lreExec t.re js = o at ho
  cases ho with
  | none hn => exact .none hn
  | fails hs hn => exact .fails hn
  | refused hs hn => exact .refused hs hn
  | undefined hs hc h₁ hr => exact .unreported hs hc hr
  | @some capture s e m hs hc h₀ h₁ hstart hse he hr hb =>
    obtain ⟨hi, hstop, -⟩ := buildMatch_whole hjs hz hcc hb (hl.call hc) h₀ h₁
    have hle : js.byteAt s ≤ js.byteAt e := (hr.span 0 hcc s e h₀ h₁).1
    have hlen : m.whole.length = js.byteAt e - js.byteAt s := by
      rw [Match.stop] at hstop
      omega
    by_cases heq : js.byteAt s = js.byteAt e
    · have hzero : m.whole.length = 0 := by omega
      simp only [hzero, if_true]
      by_cases hlt : uint32 (js.byteAt e + 1) + 1 < 2 ^ 31
      · have hset := setLastIndex_ok (r := { t.re with lastIndex := js.byteAt e }) hlt
        rw [RegExp.lastIndexField, hset]
        have hn := CollectOutcome.next hs hc hr h₀ h₁ hstart hse he hle hi hstop fun _ => hlt
        rwa [nextIndex, if_pos heq] at hn
      · have hset := setLastIndex_undefined (r := { t.re with lastIndex := js.byteAt e }) (Nat.not_lt.mp hlt)
        rw [RegExp.lastIndexField, hset]
        exact .overflow hs hc h₀ h₁ heq (Nat.not_lt.mp hlt)
    · have hpos : ¬ m.whole.length = 0 := by omega
      simp only [hpos, if_false]
      have hn := CollectOutcome.next hs hc hr h₀ h₁ hstart hse he hle hi hstop
        fun hx => absurd hx heq
      rwa [nextIndex, if_neg heq] at hn

end Turn

lemma collectStep_next_iff {α : Type} {f : Match → α} {lreExec : Engine} {js : JsString} {t u : CollectState α} :
    collectStep lreExec f js t = .inl u ↔
      ∃ re' m, nextMatch lreExec js t.re = ⟨re', .ok (some m)⟩ ∧ u = ⟨re', t.found ++ [f m]⟩ := by
  rw [collectStep]
  rcases nextMatch lreExec js t.re with ⟨re', ⟨e⟩ | ⟨_ | m⟩⟩
  · simp
  · simp
  · simp [eq_comm]

lemma collectStep_undefined {α : Type} {f : Match → α} {lreExec : Engine} {js : JsString} {t : CollectState α}
    (hs : t.re.Starts js) (hc : t.re.call lreExec js = .undefined) : collectStep lreExec f js t =
      .inr ⟨{ t.re with lastIndex := if t.re.moves then t.re.lastIndex else 0 }, .error .undefined⟩ := by
  rw [collectStep, nextMatch, regexpExec_undefined hs hc]

section Loop

variable {lreExec : Engine} {addr : ℕ} {str : Bytes} {js : JsString} {r : RegExp}
variable (hl : lreExec.Captures r.bc) (hf : lreExec.Forward r.bc) (hjs : jsstringNew addr str = .ok js)
variable (hz : 0 ∉ str) (hv : ValidUtf8 str) (ha : 2 ≤ addr) (hcc : 0 < r.bc.captureCount) (hg : r.global = true)
variable (hfresh : r.lastIndex = 0)
include hl hf hjs hz hv ha hcc hg

lemma collect_outcome {t : CollectState Match} (hre : t.re = { r with lastIndex := t.re.lastIndex }) :
    CollectOutcome lreExec js t (collectStep lreExec id js t) := by
  have hm : t.re.moves = true := by
    rw [hre]
    show (r.global || r.sticky) = true
    rw [hg, Bool.true_or]
  have hbc : t.re.bc = r.bc := by rw [hre]
  exact collectOutcome (hbc ▸ hl) (hbc ▸ hf) hjs hz hv ha (hbc ▸ hcc) hm

lemma collect_visits {t : CollectState Match} (ht : Visits (collectStep lreExec id js) ⟨r, []⟩ t) :
    t.re = { r with lastIndex := t.re.lastIndex } ∧ ∀ m ∈ t.found, 1 ≤ m.index := by
  refine ht.invariant (fun t => t.re = { r with lastIndex := t.re.lastIndex } ∧ ∀ m ∈ t.found, 1 ≤ m.index)
    ⟨rfl, by simp⟩ ?_
  rintro t u - ⟨hre, hpos⟩ hu
  have ho := collect_outcome hl hf hjs hz hv ha hcc hg hre
  rw [hu] at ho
  cases ho with
  | next _ _ _ _ _ _ _ _ _ hi _ _ =>
    refine ⟨by rw [hre], fun m hm => ?_⟩
    rcases List.mem_append.mp hm with hm | hm
    · exact hpos m hm
    · rw [List.mem_singleton.mp hm, hi]
      omega

include hfresh

lemma collect_invariant
    (hadv : ∀ t, Visits (collectStep lreExec id js) ⟨r, []⟩ t → CollectAdvances lreExec js t)
    {t : CollectState Match} (ht : Visits (collectStep lreExec id js) ⟨r, []⟩ t) :
    t.found.length ≤ t.re.lastIndex ∧ t.re.lastIndex ≤ js.bstrLen + 1 ∧ (t.found = [] → t.re.lastIndex = 0) ∧
      (∀ m ∈ t.found, m.index ≤ t.re.lastIndex ∧ m.stop ≤ t.re.lastIndex + 1) ∧ t.found.Pairwise Match.Before := by
  have h := jsstringNew_wellFormed hjs fun hx => absurd hx hz
  refine ht.invariant (fun t => t.found.length ≤ t.re.lastIndex ∧ t.re.lastIndex ≤ js.bstrLen + 1 ∧
    (t.found = [] → t.re.lastIndex = 0) ∧ (∀ m ∈ t.found, m.index ≤ t.re.lastIndex ∧ m.stop ≤ t.re.lastIndex + 1) ∧
      t.found.Pairwise Match.Before) ⟨Nat.zero_le _, by simp [hfresh], fun _ => hfresh, by simp, .nil⟩ ?_
  rintro t u ht ⟨hlen, hle, hempty, hfound, hpw⟩ hu
  have hre := (collect_visits hl hf hjs hz hv ha hcc hg ht).1
  have ho := collect_outcome hl hf hjs hz hv ha hcc hg hre
  rw [hu] at ho
  cases ho with
  | @next capture s e m hs hc hr h₀ h₁ hstart hse he hb hi hstop hlt =>
    have hbound := h.byteAt_le he
    have hnext : js.byteAt s + 1 ≤ nextIndex (js.byteAt s) (js.byteAt e) ∧
        js.byteAt e ≤ nextIndex (js.byteAt s) (js.byteAt e) ∧
        nextIndex (js.byteAt s) (js.byteAt e) ≤ js.bstrLen + 1 := by
      rw [nextIndex]
      split
      · next heq =>
        have hbump := (hadv t ht).bump hs capture s e hc h₀ h₁ heq
        rw [uint32, Nat.mod_eq_of_lt (by omega)]
        omega
      · omega
    have hli : t.re.lastIndex ≤ js.byteAt s := by
      by_cases hn : t.found = []
      · simp [hempty hn]
      · have hm : t.re.moves = true := by
          rw [hre]
          show (r.global || r.sticky) = true
          rw [hg, Bool.true_or]
        have hx : t.re.startIndex js = translateIndex js t.re.lastIndex := if_pos hm
        have hin : t.re.lastIndex ≤ js.bstrLen := h.translateIndex_le_iff.mp (hx ▸ hs)
        have hpair := (insidePair_iff_interior hjs hv (fun hx => absurd hx hz) (hse.trans he)).not.mp
          ((hadv t ht).unsplit hn hs capture s hc h₀)
        calc t.re.lastIndex ≤ js.byteAt (translateIndex js t.re.lastIndex) := h.le_byteAt_translateIndex hin
          _ ≤ js.byteAt s := h.byteAt_mono (hse.trans he) (h.translateIndex_not_interior hin) hpair (hx ▸ hstart)
    refine ⟨by simp; omega, hnext.2.2, by simp, fun m' hm' => ?_, ?_⟩
    · rcases List.mem_append.mp hm' with hm' | hm'
      · have := hfound m' hm'
        show m'.index ≤ nextIndex _ _ ∧ m'.stop ≤ nextIndex _ _ + 1
        omega
      · rw [List.mem_singleton.mp hm', hi, hstop]
        show _ ≤ nextIndex _ _ ∧ _ ≤ nextIndex _ _ + 1
        omega
    · refine List.pairwise_append.mpr ⟨hpw, List.pairwise_singleton _ _, fun m' hm' m'' hm'' => ?_⟩
      have := hfound m' hm'
      rw [List.mem_singleton.mp hm'', Match.Before, hi]
      omega

lemma collects_of_advances
    (hadv : ∀ t, Visits (collectStep lreExec id js) ⟨r, []⟩ t → CollectAdvances lreExec js t) :
    Collects lreExec js str r := by
  have hinv {t : CollectState Match} (ht : Visits (collectStep lreExec id js) ⟨r, []⟩ t) :=
    collect_invariant hl hf hjs hz hv ha hcc hg hfresh hadv ht
  have hb : js.bstrLen ≤ str.length := (jsstringNew_addr hjs).2.2 ▸ Nat.mod_le _ _
  have hgrow : ∀ t u, Visits (collectStep lreExec id js) ⟨r, []⟩ t → collectStep lreExec id js t = .inl u →
      str.length + 1 - u.found.length < str.length + 1 - t.found.length := by
    intro t u ht hu
    obtain ⟨hlen, hle, -⟩ := hinv (.next ht hu)
    obtain ⟨re', m, -, rfl⟩ := collectStep_next_iff.mp hu
    have hlast : re'.lastIndex ≤ js.bstrLen + 1 := hle
    have hcount : t.found.length + 1 ≤ re'.lastIndex := by simpa using hlen
    simp only [List.length_append, List.length_singleton]
    omega
  obtain ⟨o, n, hn⟩ := halts_of_measure (fun t => str.length + 1 - t.found.length)
    (⟨r, []⟩ : CollectState Match) hgrow
  refine ⟨⟨n, o, hn, fun ho => ?_⟩, fun t ht => ?_, fun t ht => (hinv ht).2.2.2.2⟩
  · obtain ⟨t, ht, hstop⟩ := Returns.last ⟨n, hn⟩
    have hout := collect_outcome hl hf hjs hz hv ha hcc hg (collect_visits hl hf hjs hz hv ha hcc hg ht).1
    rw [hstop] at hout
    cases hout with
    | none => cases ho
    | fails => cases ho
    | refused hs hc => exact (hadv t ht).called hs hc
    | unreported hs hc hr => exact hr ((hadv t ht).reports hs _ hc)
    | overflow hs hc h₀ h₁ heq hbig =>
      have hbump := (hadv t ht).bump hs _ _ _ hc h₀ h₁ heq
      rw [uint32, Nat.mod_eq_of_lt (by omega)] at hbig
      omega
  · obtain ⟨hlen, hle, -⟩ := hinv ht
    omega

lemma advances_of_collects (hcol : Collects lreExec js str r) {t : CollectState Match}
    (ht : Visits (collectStep lreExec id js) ⟨r, []⟩ t) : CollectAdvances lreExec js t := by
  have h := jsstringNew_wellFormed hjs fun hx => absurd hx hz
  obtain ⟨⟨turns, o, hrun, ho⟩, -, hord⟩ := hcol
  obtain ⟨hre, hpos⟩ := collect_visits hl hf hjs hz hv ha hcc hg ht
  have hundef {re' : RegExp} (hstop : collectStep lreExec id js t = .inr ⟨re', .error .undefined⟩) : False := by
    have hr : Returns (collectStep lreExec id js) t o := ht.returns.mp ⟨turns, hrun⟩
    rw [returns_of_stop hstop hr] at ho
    exact ho rfl
  -- a turn with a match can only go on to the next
  have hnext {capture : List (Option ℕ)} (hs : t.re.Starts js) (hc : t.re.call lreExec js = .matched capture) :
      Reportable t.re.bc js capture ∧ ∃ s e m, slot capture 0 = some s ∧ slot capture 1 = some e ∧ s ≤ e ∧
        e ≤ js.len ∧ m.index = js.byteAt s + 1 ∧
        (js.byteAt s = js.byteAt e → uint32 (js.byteAt e + 1) + 1 < 2 ^ 31) ∧
        collectStep lreExec id js t =
          .inl ⟨{ t.re with lastIndex := nextIndex (js.byteAt s) (js.byteAt e) }, t.found ++ [m]⟩ := by
    have hout := collect_outcome hl hf hjs hz hv ha hcc hg hre
    generalize hstep : collectStep lreExec id js t = o' at hout
    cases hout with
    | none hn => cases (hn hs).symm.trans hc
    | fails hn => rcases hn with hn | hn <;> cases hn.symm.trans hc
    | refused => exact (hundef hstep).elim
    | unreported => exact (hundef hstep).elim
    | overflow => exact (hundef hstep).elim
    | @next capture' s e m _ hc' hr h₀ h₁ _ hse he _ hi _ hlt =>
      obtain rfl := LreResult.matched.inj (hc.symm.trans hc')
      exact ⟨hr, s, e, m, h₀, h₁, hse, he, hi, hlt, rfl⟩
  constructor
  · intro hs hc
    exact hundef (collectStep_undefined hs hc)
  · exact fun hs capture hc => (hnext hs hc).1
  · intro hne hs capture s hc h₀ hpair
    obtain ⟨-, s', e, m, h₀', -, hse, he, hi, -, hstep⟩ := hnext hs hc
    obtain rfl := Option.some.inj (h₀.symm.trans h₀')
    have hzero := JsString.byteAt_interior
      ((insidePair_iff_interior hjs hv (fun hx => absurd hx hz) (hse.trans he)).mp hpair)
    obtain ⟨m', l, hl'⟩ := List.exists_cons_of_ne_nil hne
    have hmem : m' ∈ t.found := by simp [hl']
    have hpw := hord _ (.next ht hstep)
    have hbefore := (List.pairwise_append.mp hpw).2.2 m' hmem m (List.mem_singleton_self m)
    have := hpos m' hmem
    have := hbefore.1
    omega
  · intro hs capture s e hc h₀ h₁ heq
    obtain ⟨-, s', e', m, h₀', h₁', -, he, -, hlt, hstep⟩ := hnext hs hc
    obtain rfl := Option.some.inj (h₀.symm.trans h₀')
    obtain rfl := Option.some.inj (h₁.symm.trans h₁')
    by_contra hbig
    have hwrap : js.byteAt e + 1 = 2 ^ 32 := by
      have := hlt heq
      have := h.byteAt_le he
      have := h.bstrLen_lt
      simp only [uint32] at *
      omega
    -- `last_index` is zero again, so that the first match is found a second time
    rw [nextIndex, if_pos heq, hwrap, uint32, Nat.mod_self] at hstep
    have hstart : ({ t.re with lastIndex := 0 } : RegExp) = r := by
      rw [hre]
      show { r with lastIndex := 0 } = r
      rw [← hfresh]
    rw [hstart] at hstep
    obtain ⟨v, hv₀, hvis⟩ := (Visits.next ht hstep).head.resolve_left (by simp)
    obtain ⟨re', m₀, hm₀, rfl⟩ := collectStep_next_iff.mp hv₀
    have hmem : m₀ ∈ t.found ++ [m] := by
      refine hvis.invariant (fun u => m₀ ∈ u.found) (by simp) fun a b _ ha hb => ?_
      obtain ⟨_, _, -, rfl⟩ := collectStep_next_iff.mp hb
      exact List.mem_append_left _ ha
    have hagain : collectStep lreExec id js ⟨r, t.found ++ [m]⟩ = .inl ⟨re', t.found ++ [m] ++ [m₀]⟩ :=
      collectStep_next_iff.mpr ⟨re', m₀, hm₀, rfl⟩
    have hpw := hord _ (.next (.next ht hstep) hagain)
    exact lt_irrefl _ ((List.pairwise_append.mp hpw).2.2 m₀ hmem m₀ (List.mem_singleton_self m₀)).1

theorem collects_iff : Collects lreExec js str r ↔
    ∀ t, Visits (collectStep lreExec id js) ⟨r, []⟩ t → CollectAdvances lreExec js t :=
  ⟨fun hcol _ ht => advances_of_collects hl hf hjs hz hv ha hcc hg hfresh hcol ht,
    collects_of_advances hl hf hjs hz hv ha hcc hg hfresh⟩

end Loop

section Methods

lemma run_collectStep {α : Type} (f : Match → α) (lreExec : Engine) (js : JsString) (turns : ℕ) (r : RegExp)
    (found : List Match) :
    run (collectStep lreExec f js) turns ⟨r, found.map f⟩ =
      (run (collectStep lreExec id js) turns ⟨r, found⟩).map fun o => ⟨o.re, o.result.map (List.map f)⟩ := by
  induction turns generalizing r found with
  | zero => rfl
  | succ n ih =>
    simp only [run, collectStep]
    rcases nextMatch lreExec js r with ⟨re', ⟨e⟩ | ⟨_ | m⟩⟩
    · rfl
    · rfl
    · have := ih re' (found ++ [m])
      simpa using this

def Iterates (compile : Compiler) (re r : RegExp) : Prop :=
  r = re ∨ compile re.expr (regexpPushflags re) = .ok r

variable (lreExec : Engine) (compile : Compiler) (addr : ℕ) (re : RegExp) (str : Bytes)

structure MatchesEnd : Prop where
  matchEnds : ∃ turns o, mtMatch lreExec addr re str turns = some o ∧ o.result ≠ .error .undefined
  matchAllEnds : ∃ turns o, mtMatchAllList lreExec compile addr re str turns = some o ∧ o ≠ .error .undefined
  bounded : ∀ js, jsstringNew addr str = .ok js → ∀ r, Iterates compile re r →
    ∀ t, Visits (collectStep lreExec id js) ⟨r, []⟩ t → t.found.length ≤ str.length + 1
  ordered : ∀ js, jsstringNew addr str = .ok js → ∀ r, Iterates compile re r →
    ∀ t, Visits (collectStep lreExec id js) ⟨r, []⟩ t → t.found.Pairwise Match.Before

structure MatchesAdvance : Prop where
  converts : ∃ js, jsstringNew addr str = .ok js
  advances : ∀ js, jsstringNew addr str = .ok js → ∀ r, Iterates compile re r →
    ∀ t, Visits (collectStep lreExec id js) ⟨r, []⟩ t → CollectAdvances lreExec js t

variable {lreExec compile addr re str}

section

variable {js : JsString} (hjs : jsstringNew addr str = .ok js) (hg : re.global = true) (hfresh : re.lastIndex = 0)
include hjs hg hfresh

lemma mtMatch_eq (turns : ℕ) : mtMatch lreExec addr re str turns =
    (run (collectStep lreExec id js) turns ⟨re, []⟩).map fun o =>
      ⟨o.re, o.result.map fun found => .table (if found = [] then none else some (found.map Match.whole))⟩ := by
  have hre : { re with lastIndex := 0 } = re := by rw [← hfresh]
  have hrun := run_collectStep Match.whole lreExec js turns re []
  simp only [mtMatch, hjs, hg, not_true_eq_false, if_false, hre]
  rw [List.map_nil] at hrun
  rw [hrun, Option.map_map]
  congr 1
  funext o
  rcases o with ⟨r, e | found⟩
  · rfl
  · simp [Except.map]

lemma mtMatchAllList_eq {re2 : RegExp} (hc : compile re.expr (regexpPushflags re) = .ok re2)
    (hfresh2 : re2.lastIndex = 0) (turns : ℕ) : mtMatchAllList lreExec compile addr re str turns =
      (run (collectStep lreExec id js) turns ⟨re2, []⟩).map Outcome.result := by
  have hfield : re.lastIndexField = 1 := by simp [RegExp.lastIndexField, hfresh, uint32]
  have hset : setLastIndex re2 re.lastIndexField = .ok re2 := by
    have hre2 : { re2 with lastIndex := 0 } = re2 := by rw [← hfresh2]
    rw [hfield, ← hre2]
    exact setLastIndex_ok (n := 0) (by norm_num)
  simp [mtMatchAllList, mtMatchAll, hg, hc, hjs, hset, bind, Except.bind, pure, Except.pure]

end

theorem matches_end_iff (hl : ∀ r, Iterates compile re r → lreExec.Captures r.bc ∧ lreExec.Forward r.bc)
    (ha : 2 ≤ addr) (hcomp : compile.Sound) (hcc : 0 < re.bc.captureCount) (hg : re.global = true)
    (hfresh : re.lastIndex = 0) (hv : ValidUtf8 str)
    (hz : 0 ∉ str) : MatchesEnd lreExec compile addr re str ↔ MatchesAdvance lreExec compile addr re str := by
  have hiter {js : JsString} (hjs : jsstringNew addr str = .ok js) {r : RegExp} (hr : Iterates compile re r) :
      Collects lreExec js str r ↔
        ∀ t, Visits (collectStep lreExec id js) ⟨r, []⟩ t → CollectAdvances lreExec js t := by
    have hlr := hl r hr
    rcases hr with rfl | hc
    · exact collects_iff hlr.1 hlr.2 hjs hz hv ha hcc hg hfresh
    · obtain ⟨hfresh2, hcc2⟩ := hcomp.fresh _ _ _ hc
      have hg2 := hcomp.global _ _ _ hc (global_mem_pushflags hg)
      exact collects_iff hlr.1 hlr.2 hjs hz hv ha hcc2 hg2 hfresh2
  constructor
  · rintro ⟨⟨turns, o, hmatch, ho⟩, ⟨turns', o', hall, ho'⟩, hbound, hord⟩
    obtain ⟨js, hjs⟩ : ∃ js, jsstringNew addr str = .ok js := by
      refine (jsstringNew_text hv).resolve_left fun herr => ho ?_
      simp only [mtMatch, herr, Option.some.injEq] at hmatch
      rw [← hmatch]
    refine ⟨⟨js, hjs⟩, fun js' hjs' r hr => ?_⟩
    obtain rfl : js = js' := Except.ok.inj (hjs.symm.trans hjs')
    refine (hiter hjs hr).mp ⟨?_, hbound js hjs r hr, hord js hjs r hr⟩
    rcases hr with rfl | hc
    · rw [mtMatch_eq hjs hg hfresh] at hmatch
      obtain ⟨p, hp, rfl⟩ := Option.map_eq_some_iff.mp hmatch
      refine ⟨turns, p, hp, fun herr => ho ?_⟩
      simp [herr, Except.map]
    · rw [mtMatchAllList_eq hjs hg hfresh hc (hcomp.fresh _ _ _ hc).1] at hall
      obtain ⟨p, hp, rfl⟩ := Option.map_eq_some_iff.mp hall
      exact ⟨turns', p, hp, ho'⟩
  · rintro ⟨⟨js, hjs⟩, hadv⟩
    have hcol {r : RegExp} (hr : Iterates compile re r) : Collects lreExec js str r :=
      (hiter hjs hr).mpr (hadv js hjs r hr)
    constructor
    · obtain ⟨turns, o, hrun, ho⟩ := (hcol (.inl rfl)).ends
      refine ⟨turns, _, by rw [mtMatch_eq hjs hg hfresh, hrun, Option.map_some], fun herr => ho ?_⟩
      cases hres : o.result with
      | error e => simpa [hres, Except.map] using herr
      | ok found => simp [hres, Except.map] at herr
    · cases hc : compile re.expr (regexpPushflags re) with
      | error e =>
        refine ⟨0, .error e, by simp [mtMatchAllList, mtMatchAll, hg, hc, bind, Except.bind], ?_⟩
        rintro ⟨rfl⟩
        exact hcomp.defined _ _ hc
      | ok re2 =>
        obtain ⟨turns, o, hrun, ho⟩ := (hcol (.inr hc)).ends
        exact ⟨turns, o.result, by
          rw [mtMatchAllList_eq hjs hg hfresh hc (hcomp.fresh _ _ _ hc).1, hrun, Option.map_some], ho⟩
    · intro js' hjs' r hr
      obtain rfl : js = js' := Except.ok.inj (hjs.symm.trans hjs')
      exact (hcol hr).bounded
    · intro js' hjs' r hr
      obtain rfl : js = js' := Except.ok.inj (hjs.symm.trans hjs')
      exact (hcol hr).ordered

theorem matches_end_dot : MatchesEnd dotExec (plainCompile [.dot]) 16 (dotRe 0) (bytesOf "ab") := by
  refine (matches_end_iff (fun _ _ => ⟨dotExec_captures _, dotExec_forward _⟩) (by decide) (plainCompile_sound _)
    (by decide) rfl rfl ⟨['a', 'b'], by decide⟩ (by decide)).mpr ⟨⟨abText, abText_eq⟩, fun js hjs r hr t ht => ?_⟩
  obtain rfl : abText = js := Except.ok.inj (abText_eq.symm.trans hjs)
  obtain rfl : dotRe 0 = r := by
    rcases hr with rfl | hc
    · rfl
    · exact Except.ok.inj hc
  have hvisit := collect_visits (dotExec_captures _) (dotExec_forward _) abText_eq (by decide) ⟨['a', 'b'], by decide⟩
    (by decide) (by decide) rfl ht
  have hbc : t.re.bc = (dotRe 0).bc := by
    rw [hvisit.1]
  constructor
  · intro hs hc
    have hli : t.re.lastIndex ≤ 2 := by
      have hm : t.re.moves = true := by
        rw [hvisit.1]
        show ((dotRe 0).global || (dotRe 0).sticky) = true
        rfl
      exact (starts_iff (jsstringNew_wellFormed abText_eq fun _ => by decide) hm).mp hs
    rw [hvisit.1] at hc
    interval_cases t.re.lastIndex <;> cases hc
  · intro hs capture hc
    rw [hbc]
    refine ⟨fun p hp => (by cases hp), fun _ _ _ => rfl, fun i hi s e h₀ h₁ => ?_⟩
    obtain ⟨hse, he⟩ := ((dotExec_captures _).call hc).took (hbc ▸ hi) h₀ h₁
    exact ⟨hse, Nat.le_succ_of_le he⟩
  · intro _ hs capture s hc h₀ hp
    cases hp.1
  · intro hs capture s e hc h₀ h₁ heq
    obtain ⟨hse, he⟩ := ((dotExec_captures _).call hc).took (i := 0) (by rw [hbc]; decide) h₀ h₁
    have hb : abText.byteAt e = e := rfl
    have hlen : abText.len = 2 := rfl
    omega

def lookExec : Engine := fun bc cbuf cindex clen _ =>
  match (List.range' cindex (clen - cindex)).find? fun k => cbuf.getD k 0 = 0xdd1e with
  | some k => if bc.captureCount = 1 then .matched [some k, some k] else .noMatch
  | none => .noMatch

def lookRe (lastIndex : ℕ) : RegExp where
  expr := bytesOf "(?=\\udd1e)"
  bc := {
    flags := lreFlagGlobal
    captureCount := 1
    registerCount := 0
    code := [.split false 6, .any, .goto (-11), .saveStart 0, .lookahead false 4, .char false 0xdd1e,
      .lookaheadMatch false, .saveEnd 0, .matched]
    groupNames := [] }
  lastIndex := lastIndex

theorem matches_clef_diverges :
    jsstringNew 16 clef = .ok clefString ∧
      (∀ turns, mtMatch lookExec 16 (lookRe 0) clef turns = none) ∧
      ¬ MatchesEnd lookExec (plainCompile [.lookahead false 4, .char false 0xdd1e, .lookaheadMatch false]) 16
        (lookRe 0) clef := by
  have hloop : ¬ Halts (collectStep lookExec id clefString) ⟨lookRe 0, []⟩ := by
    refine not_halts_of_invariant (fun t => t.re = lookRe 0 ∨ t.re = lookRe 1) ?_ (.inl rfl)
    have hnext (k : ℕ) (hk : k = 0 ∨ k = 1) : nextMatch lookExec clefString (lookRe k) =
        ⟨lookRe 1, .ok (some ⟨clef, 1, 1, [[]], none, none⟩)⟩ := by
      rcases hk with rfl | rfl <;> rfl
    rintro ⟨_, found⟩ (rfl | rfl)
    · exact ⟨_, collectStep_next_iff.mpr ⟨_, _, hnext 0 (.inl rfl), rfl⟩, .inr rfl⟩
    · exact ⟨_, collectStep_next_iff.mpr ⟨_, _, hnext 1 (.inr rfl), rfl⟩, .inr rfl⟩
  have hnone (turns : ℕ) : mtMatch lookExec 16 (lookRe 0) clef turns = none := by
    rw [mtMatch_eq clefString_eq rfl rfl]
    cases hrun : run (collectStep lookExec id clefString) turns ⟨lookRe 0, []⟩ with
    | none => rfl
    | some o => exact absurd ⟨o, turns, hrun⟩ hloop
  refine ⟨clefString_eq, hnone, fun h => ?_⟩
  obtain ⟨turns, o, ho, -⟩ := h.matchEnds
  rw [hnone] at ho
  cases ho

end Methods

end Jsregexp
