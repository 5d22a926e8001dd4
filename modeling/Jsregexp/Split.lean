import Jsregexp.ReplaceAll

namespace Jsregexp

open Library.Iteration

structure Compiler.Sound (compile : Compiler) : Prop where
  defined : ∀ expr flags, compile expr flags ≠ .error .undefined
  fresh : ∀ expr flags re, compile expr flags = .ok re → re.lastIndex = 0 ∧ 0 < re.bc.captureCount
  global : ∀ expr flags re, compile expr flags = .ok re → byteOf 'g' ∈ cString flags → re.global = true
  sticky : ∀ expr flags re, compile expr flags = .ok re → byteOf 'y' ∈ cString flags → re.sticky = true

variable (lreExec : Engine) (compile : Compiler) (addr : ℕ) (re : RegExp) (str : Bytes)

def SplitReturns (limit : Option LuaNumber) : Prop :=
  ∃ turns o, mtSplit lreExec compile addr re str limit turns = some o ∧ o ≠ .error .undefined

/-- A turn of the loop with the regexp object `re2` that goes on behind `last_index`: `lre_exec` may be called, a match
can be reported, does not end inside a surrogate pair and ends at `last_index` only at the end of the subject; and
`last_index` can be set to the position behind a place without a match. -/
structure SplitAdvances (js : JsString) (re2 : RegExp) : Prop where
  called : re2.Starts js → re2.call lreExec js ≠ .undefined
  reports : re2.Starts js → ∀ capture, re2.call lreExec js = .matched capture → Reportable re2.bc js capture
  unsplit : re2.Starts js → ∀ capture e, re2.call lreExec js = .matched capture → slot capture 1 = some e →
    ¬ js.InsidePair e
  moves : re2.Starts js → ∀ capture e, re2.call lreExec js = .matched capture → slot capture 1 = some e →
    js.byteAt e = re2.lastIndex → str.length < re2.lastIndexField
  fails : (re2.Starts js → re2.call lreExec js = .noMatch) → re2.lastIndex + 2 < 2 ^ 31

variable {lreExec compile addr re str}

section Step

variable {js : JsString} {limit : LuaNumber} {s : SplitState}

lemma splitStep_some (str : Bytes) (limit : LuaNumber) (hl : limit.above s.count = true) {re' : RegExp} {m : Match}
    (h : regexpExec lreExec s.re2 js = ⟨re', .ok (some m)⟩) (hstr : str.length ≠ 0) :
    ∃ split, splitStep lreExec js str limit s =
      if str.length < re'.lastIndexField then
        .inr (.ok (split ++ [stringSub str re'.lastIndexField str.length]))
      else .inl ⟨re', s.count, split, re'.lastIndexField⟩ := by
  simp only [splitStep, hl, if_true, h, hstr, if_false]
  exact ⟨_, rfl⟩

lemma splitStep_empty (hl : limit.above s.count = true) {re' : RegExp} {m : Match}
    (h : regexpExec lreExec s.re2 js = ⟨re', .ok (some m)⟩) (hstr : str.length = 0) :
    splitStep lreExec js str limit s = .inr (.ok s.split) := by
  simp [splitStep, hl, h, hstr]

lemma splitStep_error (hl : limit.above s.count = true) {re' : RegExp} {e : Failure}
    (h : regexpExec lreExec s.re2 js = ⟨re', .error e⟩) :
    splitStep lreExec js str limit s = .inr (.error e) := by
  simp [splitStep, hl, h]

lemma splitStep_none (str : Bytes) (hl : limit.above s.count = true)
    (h : regexpExec lreExec s.re2 js = ⟨{ s.re2 with lastIndex := 0 }, .ok none⟩)
    (hn : s.re2.lastIndexField + 1 < 2 ^ 31) :
    splitStep lreExec js str limit s =
      if str.length < s.re2.lastIndexField + 1 then
        .inr (.ok (s.split ++ [stringSub str s.prevIndex str.length]))
      else .inl ⟨{ s.re2 with lastIndex := s.re2.lastIndexField }, s.count, s.split, s.prevIndex⟩ := by
  have hfield (r : RegExp) : { r with lastIndex := s.re2.lastIndexField }.lastIndexField =
      s.re2.lastIndexField + 1 := by
    show uint32 (s.re2.lastIndexField + 1) = s.re2.lastIndexField + 1
    rw [uint32, Nat.mod_eq_of_lt (by omega)]
  simp only [splitStep, hl, if_true, h, setLastIndex_ok hn, gt_iff_lt]
  rw [hfield]

lemma splitStep_none_undefined (hl : limit.above s.count = true)
    (h : regexpExec lreExec s.re2 js = ⟨{ s.re2 with lastIndex := 0 }, .ok none⟩)
    (hn : 2 ^ 31 ≤ s.re2.lastIndexField + 1) :
    splitStep lreExec js str limit s = .inr (.error .undefined) := by
  simp [splitStep, hl, h, setLastIndex_undefined hn]

lemma splitStep_decided : Decided (splitStep lreExec js str limit) fun s => (s.re2, s.count) := by
  rintro ⟨re2, count, split, prev⟩ ⟨re2', count', split', prev'⟩ u hπ hu
  obtain ⟨rfl, rfl⟩ : re2 = re2' ∧ count = count' := by simpa using hπ
  have hl : limit.above count = true := by
    by_contra hn
    simp [splitStep, hn] at hu
  simp only [splitStep, hl, if_true] at hu ⊢
  rcases hexec : regexpExec lreExec re2 js with ⟨re', ⟨e⟩ | ⟨_ | m⟩⟩
  · simp [hexec] at hu
  · simp only [hexec] at hu ⊢
    cases hset : setLastIndex re' (re2.lastIndexField + 1) with
    | error e => simp [hset] at hu
    | ok r =>
      simp only [hset] at hu ⊢
      split at hu
      · cases hu
      · next hx =>
        obtain rfl := Sum.inl.inj hu
        exact ⟨_, if_neg hx, rfl⟩
  · simp only [hexec] at hu ⊢
    split at hu
    · cases hu
    · next hstr =>
      rw [if_neg hstr]
      split at hu
      · cases hu
      · next hx =>
        obtain rfl := Sum.inl.inj hu
        exact ⟨_, if_neg hx, rfl⟩

end Step

section Turn

variable {js : JsString} {limit : LuaNumber} {t : SplitState}
variable (hl : lreExec.Captures t.re2.bc) (hf : lreExec.Forward t.re2.bc) (hstarts : js.StartsBetween)
variable (h : js.WellFormed) (ha : 2 ≤ js.addr) (hcc : 0 < t.re2.bc.captureCount) (hm : t.re2.moves = true)
include hl hf hstarts h ha hcc hm

lemma splitStep_next {u : SplitState} (hu : splitStep lreExec js str limit t = .inl u) :
    u.count = t.count ∧ u.re2.lastIndexField ≤ str.length ∧
      ((∃ capture e, t.re2.Starts js ∧ t.re2.call lreExec js = .matched capture ∧ slot capture 1 = some e ∧
          t.re2.startIndex js ≤ e ∧ e ≤ js.len ∧ u.re2 = { t.re2 with lastIndex := js.byteAt e }) ∨
        (t.re2.Starts js → t.re2.call lreExec js = .noMatch) ∧ t.re2.lastIndexField + 1 < 2 ^ 31 ∧
          u.re2 = { t.re2 with lastIndex := t.re2.lastIndexField }) := by
  have hab : limit.above t.count = true := by
    by_contra hn
    simp [splitStep, hn] at hu
  have ho := execOutcome hl hf hstarts h ha hcc hm
  generalize hexec : regexpExec lreExec t.re2 js = o at ho
  cases ho with
  | none hn =>
    by_cases hlt : t.re2.lastIndexField + 1 < 2 ^ 31
    · rw [splitStep_none str hab hexec hlt] at hu
      split at hu
      · cases hu
      · next hx =>
        obtain rfl := Sum.inl.inj hu
        refine ⟨rfl, ?_, .inr ⟨hn, hlt, rfl⟩⟩
        show uint32 (t.re2.lastIndexField + 1) ≤ str.length
        rw [uint32, Nat.mod_eq_of_lt (by omega)]
        omega
    · rw [splitStep_none_undefined hab hexec (by omega)] at hu
      cases hu
  | fails => cases (splitStep_error hab hexec).symm.trans hu
  | refused => cases (splitStep_error hab hexec).symm.trans hu
  | undefined => cases (splitStep_error hab hexec).symm.trans hu
  | @some capture s e m hs hc h₀ h₁ hstart hse he hr hb =>
    by_cases hstr : str.length = 0
    · cases (splitStep_empty hab hexec hstr).symm.trans hu
    · obtain ⟨split, hstep⟩ := splitStep_some str limit hab hexec hstr
      rw [hstep] at hu
      split at hu
      · cases hu
      · next hx =>
        obtain rfl := Sum.inl.inj hu
        exact ⟨rfl, Nat.not_lt.mp hx, .inl ⟨capture, e, hs, hc, h₁, hstart.trans hse, he, rfl⟩⟩

lemma splitStep_undefined (hu : splitStep lreExec js str limit t = .inr (.error .undefined)) :
    t.re2.Starts js ∧ t.re2.call lreExec js = .undefined ∨
      (∃ capture, t.re2.Starts js ∧ t.re2.call lreExec js = .matched capture ∧
        ¬ Reportable t.re2.bc js capture) ∨
      (t.re2.Starts js → t.re2.call lreExec js = .noMatch) ∧ 2 ^ 31 ≤ t.re2.lastIndexField + 1 := by
  have hab : limit.above t.count = true := by
    by_contra hn
    simp [splitStep, hn] at hu
  have ho := execOutcome hl hf hstarts h ha hcc hm
  generalize hexec : regexpExec lreExec t.re2 js = o at ho
  cases ho with
  | none hn =>
    by_cases hlt : t.re2.lastIndexField + 1 < 2 ^ 31
    · rw [splitStep_none str hab hexec hlt] at hu
      split at hu <;> simp at hu
    · exact .inr (.inr ⟨hn, by omega⟩)
  | fails => simp [splitStep_error hab hexec] at hu
  | refused hs hc => exact .inl ⟨hs, hc⟩
  | @undefined capture e hs hc h₁ hr => exact .inr (.inl ⟨capture, hs, hc, hr⟩)
  | @some capture s e m hs hc h₀ h₁ hstart hse he hr hb =>
    by_cases hstr : str.length = 0
    · simp [splitStep_empty hab hexec hstr] at hu
    · obtain ⟨split, hstep⟩ := splitStep_some str limit hab hexec hstr
      rw [hstep] at hu
      split at hu <;> simp at hu

end Turn

section Loop

variable {js : JsString} {limit : LuaNumber} {re2 : RegExp}
variable (hl : lreExec.Captures re2.bc) (hf : lreExec.Forward re2.bc) (hstarts : js.StartsBetween)
variable (h : js.WellFormed) (ha : 2 ≤ js.addr) (hcc : 0 < re2.bc.captureCount) (hm : re2.moves = true)
variable (hfresh : re2.lastIndex = 0) (hb : js.bstrLen ≤ str.length)
include hl hf hstarts h ha hcc hm hfresh hb

lemma split_visits {t : SplitState} (hv : Visits (splitStep lreExec js str limit) (.start re2) t) :
    t.count = 0 ∧ t.re2.lastIndex < 2 ^ 32 ∧ (t.re2.lastIndex ≤ 2 ^ 31 ∨ t.re2.lastIndex ≤ str.length) ∧
      t.re2 = { re2 with lastIndex := t.re2.lastIndex } := by
  refine hv.invariant (fun t => t.count = 0 ∧ t.re2.lastIndex < 2 ^ 32 ∧
    (t.re2.lastIndex ≤ 2 ^ 31 ∨ t.re2.lastIndex ≤ str.length) ∧
      t.re2 = { re2 with lastIndex := t.re2.lastIndex }) ⟨rfl, ?_, .inl ?_, rfl⟩ ?_
  · show re2.lastIndex < 2 ^ 32
    omega
  · show re2.lastIndex ≤ 2 ^ 31
    omega
  rintro t u - ⟨hcount, hlt, -, hre⟩ hstep
  have hbc : t.re2.bc = re2.bc := by rw [hre]
  obtain ⟨hc', -, ⟨capture, e, -, -, -, -, he, hre'⟩ | ⟨-, hn, hre'⟩⟩ :=
    splitStep_next (hbc ▸ hl) (hbc ▸ hf) hstarts h ha (hbc ▸ hcc) (by rw [hre]; exact hm) hstep
  · have hle := h.byteAt_le he
    have := h.bstrLen_lt
    refine ⟨hc'.trans hcount, ?_, .inr ?_, by rw [hre', hre]⟩
    · rw [hre']
      exact hle.trans_lt this
    · rw [hre']
      exact hle.trans hb
  · refine ⟨hc'.trans hcount, ?_, .inl ?_, by rw [hre', hre]⟩
    · rw [hre']
      show t.re2.lastIndexField < 2 ^ 32
      omega
    · rw [hre']
      show t.re2.lastIndexField ≤ 2 ^ 31
      omega

lemma split_halts {addr : ℕ} (hjs : jsstringNew addr str = .ok js) (hv : ValidUtf8 str)
    (hlen : 0 ∈ str → str.length + 1 < 2 ^ 32)
    (hadv : ∀ t, Visits (splitStep lreExec js str limit) (.start re2) t → SplitAdvances lreExec str js t.re2) :
    ∃ turns o, run (splitStep lreExec js str limit) turns (.start re2) = some o ∧ o ≠ .error .undefined := by
  have hvisit {t : SplitState} (ht : Visits (splitStep lreExec js str limit) (.start re2) t) :=
    split_visits hl hf hstarts h ha hcc hm hfresh hb ht
  have hmoves {t : SplitState} (ht : Visits (splitStep lreExec js str limit) (.start re2) t) :
      t.re2.bc = re2.bc ∧ t.re2.moves = true := by
    obtain ⟨-, -, -, hre⟩ := hvisit ht
    exact ⟨by rw [hre], by rw [hre]; exact hm⟩
  have hdec : ∀ t u, Visits (splitStep lreExec js str limit) (.start re2) t →
      splitStep lreExec js str limit t = .inl u → 2 ^ 32 - u.re2.lastIndex < 2 ^ 32 - t.re2.lastIndex := by
    intro t u ht hstep
    obtain ⟨hbc, hm'⟩ := hmoves ht
    have hu := (hvisit (.next ht hstep)).2.1
    suffices hlt : t.re2.lastIndex < u.re2.lastIndex by omega
    obtain ⟨-, hexit, ⟨capture, e, hs, hc, h₁, hstart, he, hre'⟩ | ⟨hno, hn, hre'⟩⟩ :=
      splitStep_next (hbc ▸ hl) (hbc ▸ hf) hstarts h ha (hbc ▸ hcc) hm' hstep
    · have hx : t.re2.startIndex js = translateIndex js t.re2.lastIndex := if_pos hm'
      have hli : t.re2.lastIndex ≤ js.bstrLen := h.translateIndex_le_iff.mp (hx ▸ hs)
      have hpair := (insidePair_iff_interior hjs hv hlen he).not.mp ((hadv t ht).unsplit hs capture e hc h₁)
      have hle : t.re2.lastIndex ≤ js.byteAt e :=
        calc t.re2.lastIndex ≤ js.byteAt (translateIndex js t.re2.lastIndex) := h.le_byteAt_translateIndex hli
          _ ≤ js.byteAt e := h.byteAt_mono he (h.translateIndex_not_interior hli) hpair (hx ▸ hstart)
      rw [hre']
      refine Nat.lt_of_le_of_ne hle fun heq => ?_
      have hend := (hadv t ht).moves hs capture e hc h₁ heq.symm
      have hfield : u.re2.lastIndexField = t.re2.lastIndexField := by
        rw [hre', RegExp.lastIndexField, RegExp.lastIndexField, heq]
      omega
    · have hlt := (hadv t ht).fails hno
      rw [hre']
      show t.re2.lastIndex < uint32 (t.re2.lastIndex + 1)
      rw [uint32, Nat.mod_eq_of_lt (by omega)]
      exact Nat.lt_succ_self _
  obtain ⟨o, n, hn⟩ := halts_of_measure (fun t => 2 ^ 32 - t.re2.lastIndex) (SplitState.start re2) hdec
  refine ⟨n, o, hn, ?_⟩
  rintro rfl
  obtain ⟨t, ht, hstop⟩ := Returns.last ⟨n, hn⟩
  obtain ⟨hbc, hm'⟩ := hmoves ht
  rcases splitStep_undefined (hbc ▸ hl) (hbc ▸ hf) hstarts h ha (hbc ▸ hcc) hm' hstop with
    ⟨hs, hc⟩ | ⟨capture, hs, hc, hr⟩ | ⟨hno, hbig⟩
  · exact (hadv t ht).called hs hc
  · exact hr ((hadv t ht).reports hs capture hc)
  · have hlt := (hadv t ht).fails hno
    rw [RegExp.lastIndexField, uint32, Nat.mod_eq_of_lt (by omega)] at hbig
    omega

lemma split_advances {addr turns : ℕ} {o : Except Failure (List Bytes)} (hjs : jsstringNew addr str = .ok js)
    (hv : ValidUtf8 str) (hlen : 0 ∈ str → str.length + 1 < 2 ^ 32) (hpos : limit.above 0 = true)
    (hrun : run (splitStep lreExec js str limit) turns (.start re2) = some o) (ho : o ≠ .error .undefined)
    {t : SplitState} (ht : Visits (splitStep lreExec js str limit) (.start re2) t) :
    SplitAdvances lreExec str js t.re2 := by
  obtain ⟨hcount, hlt, hsmall, hre⟩ := split_visits hl hf hstarts h ha hcc hm hfresh hb ht
  have hbc : t.re2.bc = re2.bc := by rw [hre]
  have hm' : t.re2.moves = true := by rw [hre]; exact hm
  have hab : limit.above t.count = true := by rwa [hcount]
  have hhalts : Halts (splitStep lreExec js str limit) (SplitState.start re2) := ⟨o, turns, hrun⟩
  have hstart {r : RegExp} (hr : r = { t.re2 with lastIndex := 0 }) : r = (SplitState.start re2).re2 := by
    rw [hr, hre]
    show { re2 with lastIndex := 0 } = re2
    rw [← hfresh]
  have hundef (hstop : splitStep lreExec js str limit t = .inr (.error .undefined)) : False :=
    ho (returns_of_stop hstop (ht.returns.mp ⟨turns, hrun⟩))
  have hrep : t.re2.Starts js → ∀ capture, t.re2.call lreExec js = .matched capture →
      Reportable t.re2.bc js capture := by
    intro hs capture hc
    by_contra hr
    obtain ⟨re', hexec⟩ := regexpExec_unreported (hbc ▸ hl) (hbc ▸ hf) hstarts h ha (hbc ▸ hcc) hm' hs hc hr
    exact hundef (splitStep_error hab hexec)
  have hstep {capture : List (Option ℕ)} {e : ℕ} (hs : t.re2.Starts js)
      (hc : t.re2.call lreExec js = .matched capture) (h₁ : slot capture 1 = some e) (hstr : str.length ≠ 0)
      (hexit : ¬ str.length < uint32 (js.byteAt e + 1)) :
      ∃ u, splitStep lreExec js str limit t = .inl u ∧ u.re2 = { t.re2 with lastIndex := js.byteAt e } ∧
        u.count = t.count := by
    obtain ⟨e', m, h₁', -, hexec⟩ :=
      regexpExec_reported (hbc ▸ hl) (hbc ▸ hf) hstarts h ha (hbc ▸ hcc) hm' hs hc (hrep hs capture hc)
    obtain rfl : e = e' := Option.some.inj (h₁.symm.trans h₁')
    obtain ⟨split, hstep⟩ := splitStep_some str limit hab hexec hstr
    exact ⟨_, hstep.trans (if_neg hexit), rfl, rfl⟩
  constructor
  · intro hs hc
    exact hundef (splitStep_error hab (regexpExec_undefined hs hc))
  · exact hrep
  · intro hs capture e hc h₁ hpair
    have hlen' : 0 < str.length := by
      have := h.len_le
      have := hpair.2.2.1
      omega
    have hzero := JsString.byteAt_interior ((insidePair_iff_interior hjs hv hlen hpair.2.2.1.le).mp hpair)
    obtain ⟨u, hu, hre', hcount'⟩ := hstep hs hc h₁ hlen'.ne' (by rw [hzero, uint32]; omega)
    refine not_halts_of_cycle splitStep_decided ht hu ?_ hhalts
    rw [hcount', hcount, hstart (hre'.trans (by rw [hzero]))]
    rfl
  · intro hs capture e hc h₁ heq
    by_contra hexit
    have hlen' : str.length ≠ 0 := by
      intro hz
      rw [RegExp.lastIndexField, uint32] at hexit
      omega
    obtain ⟨u, hu, hre', hcount'⟩ := hstep hs hc h₁ hlen' (by rwa [heq])
    refine not_halts_of_cycle splitStep_decided .start hu ?_ (ht.halts.mp hhalts)
    rw [hre', hcount', heq]
  · intro hno
    by_contra hbig
    have hexec := regexpExec_none hm' hno
    by_cases hwrap : t.re2.lastIndex + 1 = 2 ^ 32
    · have hfield : t.re2.lastIndexField = 0 := by rw [RegExp.lastIndexField, hwrap, uint32, Nat.mod_self]
      have hstep := splitStep_none str hab hexec (by rw [hfield]; norm_num)
      rw [if_neg (by omega)] at hstep
      refine not_halts_of_cycle splitStep_decided ht hstep ?_ hhalts
      show (({ t.re2 with lastIndex := t.re2.lastIndexField } : RegExp), t.count) = _
      rw [hfield, hcount, hstart rfl]
      rfl
    · refine hundef (splitStep_none_undefined hab hexec ?_)
      rw [RegExp.lastIndexField, uint32, Nat.mod_eq_of_lt (by omega)]
      omega

end Loop

structure SplitEnds (lreExec : Engine) (compile : Compiler) (addr : ℕ) (re : RegExp) (str : Bytes)
    (limit : LuaNumber) : Prop where
  converts : ∃ js, jsstringNew addr str = .ok js
  advances : ∀ js re2, jsstringNew addr str = .ok js →
    compile re.expr (regexpPushflags re ++ bytesOf "y") = .ok re2 →
      ∀ t, Visits (splitStep lreExec js str limit) (.start re2) t → SplitAdvances lreExec str js t.re2

theorem split_returns_iff (hl : ∀ re2, compile re.expr (regexpPushflags re ++ bytesOf "y") = .ok re2 →
      lreExec.Captures re2.bc ∧ lreExec.Forward re2.bc) (ha : 2 ≤ addr) (hcomp : compile.Sound) (hv : ValidUtf8 str)
    (hlen : 0 ∈ str → str.length + 1 < 2 ^ 32) (limit : Option LuaNumber) :
    SplitReturns lreExec compile addr re str limit ↔
      ((limit.getD .huge).above 0 = true → SplitEnds lreExec compile addr re str (limit.getD .huge)) := by
  rw [SplitReturns]
  generalize hlim : limit.getD .huge = l
  cases hpos : l.above 0 with
  | false =>
    simp only [Bool.false_eq_true, false_imp_iff, iff_true]
    by_cases hzero : l = .finite 0
    · exact ⟨0, .ok [], by simp [mtSplit, hlim, hzero], by simp⟩
    · exact ⟨0, .error (.raised (bytesOf "limit must be non-negative")), by simp [mtSplit, hlim, hzero, hpos], by simp⟩
  | true =>
    have hzero : l ≠ .finite 0 := by
      rintro rfl
      simp [LuaNumber.above] at hpos
    have hsub {js : JsString} (hjs : jsstringNew addr str = .ok js) : 2 ≤ js.addr ∧ js.bstrLen ≤ str.length := by
      obtain ⟨haddr, -, hb⟩ := jsstringNew_addr hjs
      exact ⟨haddr ▸ ha, hb ▸ Nat.mod_le _ _⟩
    have hre2 {re2 : RegExp} (hc : compile re.expr (regexpPushflags re ++ bytesOf "y") = .ok re2) :
        0 < re2.bc.captureCount ∧ re2.moves = true ∧ re2.lastIndex = 0 := by
      obtain ⟨hfresh, hcc⟩ := hcomp.fresh _ _ _ hc
      have hst := hcomp.sticky _ _ _ hc (sticky_mem_pushflags re)
      exact ⟨hcc, by simp [RegExp.moves, hst], hfresh⟩
    simp only [forall_const]
    constructor
    · rintro ⟨turns, o, hsplit, ho⟩
      obtain ⟨js, hjs⟩ : ∃ js, jsstringNew addr str = .ok js := by
        refine (jsstringNew_text hv).resolve_left fun herr => ho ?_
        simp [mtSplit, hlim, hzero, hpos, herr] at hsplit
        exact hsplit.symm
      refine ⟨⟨js, hjs⟩, fun js' re2 hjs' hc t ht => ?_⟩
      obtain rfl : js = js' := Except.ok.inj (hjs.symm.trans hjs')
      obtain ⟨hcc, hm, hfresh⟩ := hre2 hc
      have hrun : run (splitStep lreExec js str l) turns (.start re2) = some o := by
        simpa [mtSplit, hlim, hzero, hpos, hjs, hc] using hsplit
      exact split_advances (hl re2 hc).1 (hl re2 hc).2 (jsstringNew_startsBetween hjs hv hlen)
        (jsstringNew_wellFormed hjs hlen) (hsub hjs).1 hcc hm hfresh (hsub hjs).2 hjs hv hlen hpos hrun ho ht
    · rintro ⟨⟨js, hjs⟩, hadv⟩
      cases hc : compile re.expr (regexpPushflags re ++ bytesOf "y") with
      | error e =>
        refine ⟨0, .error e, by simp [mtSplit, hlim, hzero, hpos, hjs, hc], ?_⟩
        rintro ⟨rfl⟩
        exact hcomp.defined _ _ hc
      | ok re2 =>
        obtain ⟨hcc, hm, hfresh⟩ := hre2 hc
        obtain ⟨turns, o, hrun, ho⟩ := split_halts (hl re2 hc).1 (hl re2 hc).2
          (jsstringNew_startsBetween hjs hv hlen) (jsstringNew_wellFormed hjs hlen) (hsub hjs).1 hcc hm hfresh
          (hsub hjs).2 hjs hv hlen fun t ht => hadv js re2 hjs hc t ht
        exact ⟨turns, o, by simpa [mtSplit, hlim, hzero, hpos, hjs, hc] using hrun, ho⟩

def plainCompile (body : List Op) : Compiler := fun expr flags =>
  let start : List Op := if byteOf 'y' ∈ flags then [] else [.split false 6, .any, .goto (-11)]
  .ok {
    expr := expr
    bc := {
      flags := readFlags 0 flags
      captureCount := 1
      registerCount := 0
      code := start ++ [.saveStart 0] ++ body ++ [.saveEnd 0, .matched]
      groupNames := [] }
    lastIndex := 0 }

lemma plainCompile_sound (body : List Op) : (plainCompile body).Sound := by
  have hbit {flags : Bytes} {b : UInt8} {i : ℕ} (hb : b ∈ cString flags) (hi : (flagBit b).testBit i = true) :
      (readFlags 0 flags).testBit i = true := by
    rw [testBit_readFlags, Nat.zero_testBit, Bool.false_or, List.any_eq_true]
    exact ⟨b, List.takeWhile_subset _ hb, hi⟩
  constructor
  · intro expr flags
    simp [plainCompile]
  · rintro expr flags re ⟨rfl⟩
    exact ⟨rfl, Nat.one_pos⟩
  · rintro expr flags re ⟨rfl⟩ hg
    rw [RegExp.global, lreFlagGlobal, Bytecode.hasFlag_two_pow]
    exact hbit hg (by decide)
  · rintro expr flags re ⟨rfl⟩ hy
    rw [RegExp.sticky, lreFlagSticky, Bytecode.hasFlag_two_pow]
    exact hbit hy (by decide)

def dotSticky (lastIndex : ℕ) : RegExp where
  expr := [0x2e]
  bc := ⟨lreFlagSticky, 1, 0, [.saveStart 0, .dot, .saveEnd 0, .matched], []⟩
  lastIndex := lastIndex

theorem split_returns_dot :
    SplitReturns dotExec (plainCompile [.dot]) 16 ⟨[0x2e], ⟨0, 1, 0, [], []⟩, 0⟩ (bytesOf "ab") none := by
  refine (split_returns_iff (fun _ _ => ⟨dotExec_captures _, dotExec_forward _⟩) (by decide) (plainCompile_sound _)
    ⟨['a', 'b'], by decide⟩ (fun _ => by decide) none).mpr fun _ => ⟨⟨abText, abText_eq⟩, ?_⟩
  intro js re2 hjs hc t ht
  obtain rfl : abText = js := Except.ok.inj (abText_eq.symm.trans hjs)
  obtain rfl : dotSticky 0 = re2 := Except.ok.inj hc
  have hre : t.re2 = dotSticky 0 ∨ t.re2 = dotSticky 1 := by
    refine ht.invariant (fun t => t.re2 = dotSticky 0 ∨ t.re2 = dotSticky 1) (.inl rfl) ?_
    rintro ⟨re, count, split, prev⟩ u - hre hu
    obtain rfl | rfl : re = dotSticky 0 ∨ re = dotSticky 1 := hre
    · have hexec : regexpExec dotExec (dotSticky 0) abText =
        ⟨dotSticky 1, .ok (some ⟨bytesOf "ab", 1, 1, [bytesOf "a"], none, none⟩)⟩ := by rfl
      obtain ⟨split', hs⟩ := splitStep_some (s := ⟨dotSticky 0, count, split, prev⟩) (bytesOf "ab") .huge rfl hexec
        (by decide)
      rw [if_neg (by decide)] at hs
      obtain rfl := Sum.inl.inj (hs.symm.trans hu)
      exact .inr rfl
    · have hexec : regexpExec dotExec (dotSticky 1) abText = ⟨dotSticky 2, .ok (some matchB)⟩ := by rfl
      obtain ⟨split', hs⟩ := splitStep_some (s := ⟨dotSticky 1, count, split, prev⟩) (bytesOf "ab") .huge rfl hexec
        (by decide)
      rw [if_pos (by decide)] at hs
      cases hs.symm.trans hu
  have hbc : t.re2.bc = (dotSticky 0).bc := by
    rcases hre with h | h <;> rw [h]; rfl
  constructor
  · intro hs hc
    rcases hre with h | h <;> rw [h] at hc <;> cases hc
  · intro hs capture hc
    rw [hbc]
    refine ⟨fun p hp => (by cases hp), fun _ _ _ => rfl, fun i hi s e h₀ h₁ => ?_⟩
    obtain ⟨hse, he⟩ := ((dotExec_captures _).call hc).took (hbc ▸ hi) h₀ h₁
    exact ⟨hse, Nat.le_succ_of_le he⟩
  · intro hs capture e hc h₁ hp
    cases hp.1
  · intro hs capture e hc h₁ heq
    rcases hre with h | h <;> rw [h] at hc heq
    · obtain rfl : [some 0, some 1] = capture := LreResult.matched.inj hc
      obtain rfl := Option.some.inj h₁
      cases heq
    · obtain rfl : [some 1, some 2] = capture := LreResult.matched.inj hc
      obtain rfl := Option.some.inj h₁
      cases heq
  · intro hno
    rcases hre with h | h <;> rw [h] <;> decide

def emptySticky : RegExp where
  expr := bytesOf "(?:)"
  bc := ⟨lreFlagSticky, 1, 0, [.saveStart 0, .saveEnd 0, .matched], []⟩
  lastIndex := 0

theorem split_empty_diverges :
    jsstringNew 16 (bytesOf "ab") = .ok abText ∧
      (∀ turns, mtSplit emptyExec (plainCompile []) 16 ⟨bytesOf "(?:)", ⟨0, 1, 0, [], []⟩, 0⟩ (bytesOf "ab") none
        turns = none) ∧
      ¬ SplitReturns emptyExec (plainCompile []) 16 ⟨bytesOf "(?:)", ⟨0, 1, 0, [], []⟩, 0⟩ (bytesOf "ab") none := by
  have hloop : ¬ Halts (splitStep emptyExec abText (bytesOf "ab") .huge) (.start emptySticky) := by
    refine not_halts_of_invariant (fun t => t.re2 = emptySticky) ?_ rfl
    rintro ⟨_, count, split, prev⟩ rfl
    have hexec : regexpExec emptyExec emptySticky abText =
      ⟨emptySticky, .ok (some ⟨bytesOf "ab", 1, 1, [[]], none, none⟩)⟩ := by rfl
    obtain ⟨split', hs⟩ := splitStep_some (s := ⟨emptySticky, count, split, prev⟩) (bytesOf "ab") .huge rfl hexec
      (by decide)
    exact ⟨_, hs.trans (if_neg (by decide)), rfl⟩
  have hnone (turns : ℕ) : mtSplit emptyExec (plainCompile []) 16 ⟨bytesOf "(?:)", ⟨0, 1, 0, [], []⟩, 0⟩
      (bytesOf "ab") none turns = none := by
    have hc : mtSplit emptyExec (plainCompile []) 16 ⟨bytesOf "(?:)", ⟨0, 1, 0, [], []⟩, 0⟩ (bytesOf "ab") none
      turns = run (splitStep emptyExec abText (bytesOf "ab") .huge) turns (.start emptySticky) := by rfl
    rw [hc]
    cases hrun : run (splitStep emptyExec abText (bytesOf "ab") .huge) turns (.start emptySticky) with
    | none => rfl
    | some o => exact absurd ⟨o, turns, hrun⟩ hloop
  refine ⟨abText_eq, hnone, ?_⟩
  rintro ⟨turns, o, ho, -⟩
  rw [hnone] at ho
  cases ho

end Jsregexp
