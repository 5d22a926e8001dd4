import Mathlib

/-! Loops as iterated steps. A step either continues with a new state or stops with a result; a
loop halts when finitely many steps reach a stop. -/

namespace Jsregexp.Library.Iteration

variable {σ ρ κ : Type*}

def run (step : σ → σ ⊕ ρ) : ℕ → σ → Option ρ
  | 0, _ => none
  | n + 1, s =>
    match step s with
    | .inl t => run step n t
    | .inr r => some r

def Returns (step : σ → σ ⊕ ρ) (s : σ) (r : ρ) : Prop :=
  ∃ n, run step n s = some r

def Halts (step : σ → σ ⊕ ρ) (s : σ) : Prop :=
  ∃ r, Returns step s r

inductive Visits (step : σ → σ ⊕ ρ) (s : σ) : σ → Prop
  | start : Visits step s s
  | next {t u} : Visits step s t → step t = .inl u → Visits step s u

variable {step : σ → σ ⊕ ρ}

lemma returns_stop {s : σ} {r : ρ} (h : step s = .inr r) : Returns step s r :=
  ⟨1, by simp [run, h]⟩

lemma returns_next {s t : σ} {r : ρ} (h : step s = .inl t) : Returns step s r ↔ Returns step t r := by
  constructor
  · rintro ⟨n, hn⟩
    cases n with
    | zero => simp [run] at hn
    | succ n => exact ⟨n, by simpa [run, h] using hn⟩
  · rintro ⟨n, hn⟩
    exact ⟨n + 1, by simpa [run, h] using hn⟩

lemma returns_of_stop {s : σ} {r r' : ρ} (h : step s = .inr r) (hr : Returns step s r') : r' = r := by
  obtain ⟨n, hn⟩ := hr
  cases n with
  | zero => simp [run] at hn
  | succ n => simpa [run, h, eq_comm] using hn

lemma returns_unique {s : σ} {r r' : ρ} (h : Returns step s r) (h' : Returns step s r') : r = r' := by
  obtain ⟨n, hn⟩ := h
  induction n generalizing s with
  | zero => simp [run] at hn
  | succ n ih =>
    cases hs : step s with
    | inl t => exact ih ((returns_next hs).mp h') (by simpa [run, hs] using hn)
    | inr q => exact (returns_of_stop hs ⟨n + 1, hn⟩).trans (returns_of_stop hs h').symm

lemma Visits.trans {s t u : σ} (h : Visits step s t) (h' : Visits step t u) : Visits step s u := by
  induction h' with
  | start => exact h
  | next _ hs ih => exact .next ih hs

lemma Visits.single {s t : σ} (h : step s = .inl t) : Visits step s t := .next .start h

lemma Visits.head {s t : σ} (h : Visits step s t) :
    s = t ∨ ∃ u, step s = .inl u ∧ Visits step u t := by
  induction h with
  | start => exact .inl rfl
  | @next t v _ hs ih =>
    rcases ih with rfl | ⟨u, hu, hv⟩
    · exact .inr ⟨v, hs, .start⟩
    · exact .inr ⟨u, hu, .next hv hs⟩

lemma Visits.returns {s t : σ} {r : ρ} (h : Visits step s t) : Returns step s r ↔ Returns step t r := by
  induction h with
  | start => rfl
  | next _ hs ih => exact ih.trans (returns_next hs)

lemma Visits.halts {s t : σ} (h : Visits step s t) : Halts step s ↔ Halts step t :=
  exists_congr fun _ => h.returns

lemma Visits.invariant {s : σ} (I : σ → Prop) (hi : I s)
    (hs : ∀ t u, Visits step s t → I t → step t = .inl u → I u) {t : σ} (h : Visits step s t) : I t := by
  induction h with
  | start => exact hi
  | next hv hu ih => exact hs _ _ hv ih hu

lemma Returns.last {s : σ} {r : ρ} (h : Returns step s r) : ∃ t, Visits step s t ∧ step t = .inr r := by
  obtain ⟨n, hn⟩ := h
  induction n generalizing s with
  | zero => simp [run] at hn
  | succ n ih =>
    cases hs : step s with
    | inl u =>
      obtain ⟨t, hv, ht⟩ := ih (by simpa [run, hs] using hn)
      exact ⟨t, (Visits.single hs).trans hv, ht⟩
    | inr q => exact ⟨s, .start, by simpa [run, hs] using hn⟩

theorem halts_of_measure (μ : σ → ℕ) (s : σ)
    (h : ∀ t u, Visits step s t → step t = .inl u → μ u < μ t) : Halts step s := by
  induction hm : μ s using Nat.strong_induction_on generalizing s with
  | _ m ih =>
    cases hs : step s with
    | inr r => exact ⟨r, returns_stop hs⟩
    | inl t =>
      have hlt : μ t < m := hm ▸ h s t .start hs
      have ht : Halts step t := ih (μ t) hlt t (fun a b ha => h a b ((Visits.single hs).trans ha)) rfl
      exact (Visits.single hs).halts.mpr ht

lemma not_halts_of_invariant (I : σ → Prop) (hI : ∀ t, I t → ∃ u, step t = .inl u ∧ I u) {s : σ}
    (hs : I s) : ¬ Halts step s := by
  rintro ⟨r, hr⟩
  obtain ⟨t, hv, ht⟩ := hr.last
  have hit : I t := hv.invariant I hs fun t u _ hi hu => by
    obtain ⟨u', hu', hiu⟩ := hI t hi
    rw [hu] at hu'
    exact Sum.inl.inj hu' ▸ hiu
  obtain ⟨u, hu, _⟩ := hI t hit
  simp [ht] at hu

def Decided (step : σ → σ ⊕ ρ) (π : σ → κ) : Prop :=
  ∀ t t' u, π t = π t' → step t = .inl u → ∃ u', step t' = .inl u' ∧ π u' = π u

theorem not_halts_of_cycle {π : σ → κ} (hd : Decided step π) {s t u : σ} (hv : Visits step s t)
    (ht : step t = .inl u) (hu : π u = π s) : ¬ Halts step s := by
  refine not_halts_of_invariant (fun w => ∃ v, Visits step s v ∧ Visits step v t ∧ π v = π w) ?_
    ⟨s, .start, hv, rfl⟩
  rintro w ⟨v, hsv, hvt, hπ⟩
  rcases hvt.head with rfl | ⟨v', hv', hvt'⟩
  · obtain ⟨u', hu', hπ'⟩ := hd v w u hπ ht
    exact ⟨u', hu', s, .start, hv, by rw [hπ', hu]⟩
  · obtain ⟨w', hw', hπ'⟩ := hd v w v' hπ hv'
    exact ⟨w', hw', v', .next hsv hv', hvt', hπ'.symm⟩

theorem run_lockstep {τ ρ' : Type*} {step' : τ → τ ⊕ ρ'} {R : σ → τ → Prop} {Q : ρ → ρ' → Prop}
    (h : ∀ s t, R s t → Sum.LiftRel R Q (step s) (step' t)) {s : σ} {t : τ} (hst : R s t) (n : ℕ) :
    Option.Rel Q (run step n s) (run step' n t) := by
  induction n generalizing s t with
  | zero => exact .none
  | succ n ih =>
    have hn := h s t hst
    rw [run, run]
    cases hs : step s with
    | inl s' =>
      cases ht : step' t with
      | inl t' =>
        rw [hs, ht] at hn
        exact ih (Sum.liftRel_inl_inl.mp hn)
      | inr r' =>
        rw [hs, ht] at hn
        cases hn
    | inr r =>
      cases ht : step' t with
      | inl t' =>
        rw [hs, ht] at hn
        cases hn
      | inr r' =>
        rw [hs, ht] at hn
        exact .some (Sum.liftRel_inr_inr.mp hn)

lemma run_eq_of_lockstep {step' : σ → σ ⊕ ρ} {I : σ → Prop} (h : ∀ s, I s → step s = step' s)
    (hI : ∀ s t, I s → step s = .inl t → I t) {s : σ} (hs : I s) (n : ℕ) : run step n s = run step' n s := by
  have hrel : Option.Rel Eq (run step n s) (run step' n s) := by
    apply run_lockstep (R := fun s t => s = t ∧ I s) _ ⟨rfl, hs⟩
    rintro s _ ⟨rfl, hs⟩
    rw [← h s hs]
    cases hstep : step s with
    | inl t => exact .inl ⟨rfl, hI s t hs hstep⟩
    | inr r => exact .inr rfl
  generalize run step n s = a at hrel
  generalize run step' n s = b at hrel
  cases hrel with
  | none => rfl
  | some hq => rw [hq]

end Jsregexp.Library.Iteration
