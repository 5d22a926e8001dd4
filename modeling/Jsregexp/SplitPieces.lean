import Jsregexp.Split

namespace Jsregexp

open Library.Iteration

section Limit

variable {lreExec : Engine} {compile : Compiler} {addr : ℕ} {re : RegExp} {str : Bytes}

/-- With the limit `n`, `split` returns the first `n` elements of the list `l`. -/
def SplitTakes (lreExec : Engine) (compile : Compiler) (addr : ℕ) (re : RegExp) (str : Bytes) (n : ℕ)
    (l : List Bytes) : Prop :=
  ∃ turns, mtSplit lreExec compile addr re str (some (.finite n)) turns = some (.ok (l.take n))

lemma splitStep_count {js : JsString} {limit : LuaNumber} {s u : SplitState}
    (hu : splitStep lreExec js str limit s = .inl u) : u.count = s.count := by
  simp only [splitStep] at hu
  split at hu
  · rcases hexec : regexpExec lreExec s.re2 js with ⟨re', ⟨e⟩ | ⟨_ | m⟩⟩
    · simp [hexec] at hu
    · simp only [hexec] at hu
      cases hset : setLastIndex re' (s.re2.lastIndexField + 1) with
      | error e => simp [hset] at hu
      | ok r =>
        simp only [hset] at hu
        split at hu
        · cases hu
        · rw [← Sum.inl.inj hu]
    · simp only [hexec] at hu
      split at hu
      · cases hu
      · split at hu
        · cases hu
        · rw [← Sum.inl.inj hu]
  · cases hu

lemma splitStep_limit {js : JsString} {limit limit' : LuaNumber} {s : SplitState}
    (hl : limit.above s.count = true) (hl' : limit'.above s.count = true) :
    splitStep lreExec js str limit s = splitStep lreExec js str limit' s := by
  simp only [splitStep, hl, hl']

lemma mtSplit_above {limit : Option LuaNumber} (hpos : (limit.getD .huge).above 0 = true) (turns : ℕ) :
    mtSplit lreExec compile addr re str limit turns =
      match jsstringNew addr str with
      | .error e => some (.error e)
      | .ok jstr =>
        match compile re.expr (regexpPushflags re ++ bytesOf "y") with
        | .error e => some (.error e)
        | .ok re2 => run (splitStep lreExec jstr str (limit.getD .huge)) turns (.start re2) := by
  have hzero : limit.getD .huge ≠ .finite 0 := by
    intro h
    simp [h, LuaNumber.above] at hpos
  cases hjs : jsstringNew addr str with
  | error e => simp only [mtSplit, if_neg hzero, hpos, or_true, not_true_eq_false, if_false, hjs]
  | ok js =>
    cases hc : compile re.expr (regexpPushflags re ++ bytesOf "y") <;>
      simp only [mtSplit, if_neg hzero, hpos, or_true, not_true_eq_false, if_false, hjs, hc]

lemma mtSplit_limit {n : ℕ} (hn : n ≠ 0) (turns : ℕ) :
    mtSplit lreExec compile addr re str (some (.finite n)) turns = mtSplit lreExec compile addr re str none turns := by
  have hpos : (LuaNumber.finite n).above 0 = true := by
    simpa [LuaNumber.above] using Nat.pos_of_ne_zero hn
  have hlim : ((some (LuaNumber.finite n)).getD .huge).above 0 = true := hpos
  rw [mtSplit_above hlim, mtSplit_above rfl]
  cases jsstringNew addr str with
  | error e => rfl
  | ok js =>
    cases hc : compile re.expr (regexpPushflags re ++ bytesOf "y") with
    | error e => rfl
    | ok re2 =>
      refine run_eq_of_lockstep (I := fun s => s.count = 0) (fun s hs => ?_) (fun s t hs ht => ?_) rfl turns
      · exact splitStep_limit (by rw [hs]; exact hpos) (by rw [hs]; rfl)
      · rw [splitStep_count ht, hs]

lemma mtSplit_unique {limit : Option LuaNumber} {turns turns' : ℕ} {o o' : Except Failure (List Bytes)}
    (h : mtSplit lreExec compile addr re str limit turns = some o)
    (h' : mtSplit lreExec compile addr re str limit turns' = some o') : o = o' := by
  by_cases hzero : limit.getD .huge = .finite 0
  · simp only [mtSplit, if_pos hzero] at h h'
    exact Option.some.inj (h.symm.trans h')
  cases hpos : (limit.getD .huge).above 0 with
  | false =>
    simp only [mtSplit, hzero, hpos, Bool.false_eq_true, or_self, not_false_eq_true, if_true, if_false] at h h'
    exact Option.some.inj (h.symm.trans h')
  | true =>
    rw [mtSplit_above hpos] at h h'
    cases hjs : jsstringNew addr str with
    | error e =>
      rw [hjs] at h h'
      exact Option.some.inj (h.symm.trans h')
    | ok js =>
      rw [hjs] at h h'
      cases hc : compile re.expr (regexpPushflags re ++ bytesOf "y") with
      | error e =>
        rw [hc] at h h'
        exact Option.some.inj (h.symm.trans h')
      | ok re2 =>
        rw [hc] at h h'
        exact returns_unique ⟨turns, h⟩ ⟨turns', h'⟩

theorem split_takes_iff {turns : ℕ} {l : List Bytes}
    (h : mtSplit lreExec compile addr re str none turns = some (.ok l)) (n : ℕ) :
    SplitTakes lreExec compile addr re str n l ↔ n = 0 ∨ l.length ≤ n := by
  rcases Nat.eq_zero_or_pos n with rfl | hn
  · refine iff_of_true ⟨0, ?_⟩ (.inl rfl)
    simp [mtSplit]
  · rw [SplitTakes]
    simp only [mtSplit_limit hn.ne', hn.ne', false_or]
    constructor
    · rintro ⟨turns', h'⟩
      have hl : l.take n = l := (Except.ok.inj (mtSplit_unique h h')).symm
      exact List.take_eq_self_iff l |>.mp hl
    · intro hle
      exact ⟨turns, by rw [h, List.take_of_length_le hle]⟩

theorem split_takes_dot : SplitTakes dotExec (plainCompile [.dot]) 16 (dotRe 0) (bytesOf "ab") 3 [[], [], []] := by
  have h : mtSplit dotExec (plainCompile [.dot]) 16 (dotRe 0) (bytesOf "ab") none 2 = some (.ok [[], [], []]) := by rfl
  exact (split_takes_iff h 3).mpr (.inr le_rfl)

theorem split_ignores_limit :
    mtSplit dotExec (plainCompile [.dot]) 16 (dotRe 0) (bytesOf "ab") none 2 = some (.ok [[], [], []]) ∧
      mtSplit dotExec (plainCompile [.dot]) 16 (dotRe 0) (bytesOf "ab") (some (.finite 1)) 2 =
        some (.ok [[], [], []]) ∧
      ¬ SplitTakes dotExec (plainCompile [.dot]) 16 (dotRe 0) (bytesOf "ab") 1 [[], [], []] := by
  have h : mtSplit dotExec (plainCompile [.dot]) 16 (dotRe 0) (bytesOf "ab") none 2 = some (.ok [[], [], []]) := by rfl
  have h₁ : mtSplit dotExec (plainCompile [.dot]) 16 (dotRe 0) (bytesOf "ab") (some (.finite 1)) 2 =
      some (.ok [[], [], []]) := (mtSplit_limit (n := 1) (by decide) 2).trans h
  refine ⟨h, h₁, ?_⟩
  rintro ⟨turns, h'⟩
  cases mtSplit_unique h₁ h'

end Limit

end Jsregexp
