import Jsregexp.ExecStart
import Jsregexp.ReplaceMatches
import Jsregexp.SplitPieces

namespace Jsregexp

open Library.Iteration Library.Segments

section Separators

variable (lreExec : Engine) (js : JsString) (re2 : RegExp) (str : Bytes)

def matchAt (q : ℕ) : Except Failure (Option Match) := (regexpExec lreExec { re2 with lastIndex := q } js).result

def NoMatchBetween (p q : ℕ) : Prop := ∀ i, p ≤ i → i < q → CharStart str i → matchAt lreExec js re2 i = .ok none

def NextSeparator (p : ℕ) (m : Match) : Prop :=
  ∃ q, p ≤ q ∧ q < str.length ∧ CharStart str q ∧ matchAt lreExec js re2 q = .ok (some m) ∧
    NoMatchBetween lreExec js re2 str p q

/-- All separators from `p` on; none is looked for at the end of the subject. -/
inductive SeparatorsFrom : ℕ → List Match → Prop
  | none {p} : NoMatchBetween lreExec js re2 str p str.length → SeparatorsFrom p []
  | next {p m ms} : NextSeparator lreExec js re2 str p m → SeparatorsFrom m.last ms → SeparatorsFrom p (m :: ms)

def SplitsBetween (l : List Bytes) : Prop :=
  ∃ ms, SeparatorsFrom lreExec js re2 str 0 ms ∧ l.length = ms.length + 1 ∧
    weave l (ms.map Match.whole) = str ∧ l = gaps Match.first Match.last str 0 ms

/-- The loop does not end with a match at the end of the subject that is no separator: the last character
is one byte long, a separator reaches the end, or there is no match at the end. -/
def EndsBetween : Prop :=
  CharStart str (str.length - 1) ∨
    (∃ ms, SeparatorsFrom lreExec js re2 str 0 ms ∧ lastStop Match.last 0 ms = str.length) ∨
    ∀ m, matchAt lreExec js re2 str.length ≠ .ok (some m)

/-- What `lre_exec` finds with the code of a sticky regexp starts where it is asked to look, unless it is asked to
look between the halves of a surrogate pair. -/
def Engine.Sticky (lreExec : Engine) (bc : Bytecode) : Prop :=
  ∀ cbuf cindex clen cbufType capture, ¬ BetweenHalves cbuf cindex clen cbufType →
    lreExec bc cbuf cindex clen cbufType = .matched capture → slot capture 0 = some cindex

end Separators

lemma CharStart.le {str : Bytes} {q : ℕ} (h : CharStart str q) : q ≤ str.length := by
  obtain ⟨p, s, rfl, rfl⟩ := h
  rw [utf8_append, List.length_append]
  exact Nat.le_add_right _ _

section Unique

variable {lreExec : Engine} {js : JsString} {re2 : RegExp} {str : Bytes} {p : ℕ} {m m' : Match} {ms ms' : List Match}

lemma NextSeparator.unique (h : NextSeparator lreExec js re2 str p m) (h' : NextSeparator lreExec js re2 str p m') :
    m = m' := by
  obtain ⟨q, hp, -, hq, hm, hnone⟩ := h
  obtain ⟨q', hp', -, hq', hm', hnone'⟩ := h'
  rcases Nat.lt_trichotomy q q' with hlt | rfl | hlt
  · cases (hnone' q hp hlt hq).symm.trans hm
  · simpa using hm.symm.trans hm'
  · cases (hnone q' hp' hlt hq').symm.trans hm'

lemma NextSeparator.not_none (h : NextSeparator lreExec js re2 str p m)
    (hnone : NoMatchBetween lreExec js re2 str p str.length) : False := by
  obtain ⟨q, hp, hlt, hq, hm, -⟩ := h
  cases (hnone q hp hlt hq).symm.trans hm

lemma SeparatorsFrom.unique (h : SeparatorsFrom lreExec js re2 str p ms)
    (h' : SeparatorsFrom lreExec js re2 str p ms') : ms = ms' := by
  induction h generalizing ms' with
  | none hnone =>
    cases h' with
    | none => rfl
    | next hm => exact (hm.not_none hnone).elim
  | next hm _ ih =>
    cases h' with
    | none hnone => exact (hm.not_none hnone).elim
    | next hm' hms' =>
      obtain rfl := hm.unique hm'
      rw [ih hms']

end Unique

section Step

variable {lreExec : Engine} {js : JsString} {str : Bytes} {s : SplitState}

lemma splitStep_matched {re' : RegExp} {m : Match} (h : regexpExec lreExec s.re2 js = ⟨re', .ok (some m)⟩)
    (hstr : str.length ≠ 0) (hcap : m.captures.tail = [])
    (hpiece : stringSub str s.prevIndex (m.index - 1) ≠ [] ∨ m.whole ≠ []) :
    splitStep lreExec js str .huge s =
      if str.length < re'.lastIndexField then
        .inr (.ok (s.split ++ [stringSub str s.prevIndex (m.index - 1)] ++
          [stringSub str re'.lastIndexField str.length]))
      else .inl ⟨re', s.count, s.split ++ [stringSub str s.prevIndex (m.index - 1)], re'.lastIndexField⟩ := by
  have hpos : (stringSub str s.prevIndex (m.index - 1)).length > 0 ∨ m.whole.length > 0 := by
    simpa only [gt_iff_lt, List.length_pos_iff] using hpiece
  simp only [splitStep, LuaNumber.above, if_true, h, if_neg hstr, if_pos hpos, hcap, List.append_nil, gt_iff_lt]

lemma splitStep_ok_length {l : List Bytes} (hstr : str.length ≠ 0)
    (h : splitStep lreExec js str .huge s = .inr (.ok l)) : str.length + 1 < 2 ^ 32 := by
  have hexit {r : RegExp} (hr : r.lastIndexField > str.length) : str.length + 1 < 2 ^ 32 := by
    have hlt : r.lastIndexField < 2 ^ 32 := Nat.mod_lt _ (by norm_num)
    omega
  simp only [splitStep, LuaNumber.above, if_true] at h
  rcases hexec : regexpExec lreExec s.re2 js with ⟨re', ⟨e⟩ | ⟨_ | m⟩⟩
  · simp [hexec] at h
  · simp only [hexec] at h
    cases hset : setLastIndex re' (s.re2.lastIndexField + 1) with
    | error e => simp [hset] at h
    | ok r =>
      simp only [hset] at h
      split at h
      · next hr => exact hexit hr
      · cases h
  · simp only [hexec, if_neg hstr] at h
    split at h
    · next hr => exact hexit hr
    · cases h

end Step

section Run

variable {lreExec : Engine} {js : JsString} {re2 : RegExp} {str : Bytes} {addr : ℕ} {ms : List Match} {t : SplitState}

structure SplitAt (lreExec : Engine) (js : JsString) (re2 : RegExp) (str : Bytes) (ms : List Match)
    (t : SplitState) : Prop where
  object : t.re2 = { re2 with lastIndex := t.re2.lastIndex }
  split : t.split = gapsBefore Match.first Match.last str 0 ms
  prevIndex : t.prevIndex = lastStop Match.last 0 ms + 1
  behind : lastStop Match.last 0 ms ≤ t.re2.lastIndex
  searched : NoMatchBetween lreExec js re2 str (lastStop Match.last 0 ms) t.re2.lastIndex
  apart : Apart str ms
  found : ∀ rest, SeparatorsFrom lreExec js re2 str (lastStop Match.last 0 ms) rest →
    SeparatorsFrom lreExec js re2 str 0 (ms ++ rest)

structure FoundAt (lreExec : Engine) (js : JsString) (re2 : RegExp) (str : Bytes) (q c : ℕ) (m : Match) : Prop where
  start : CharStart str c
  least : q ≤ c ∧ ∀ i, q ≤ i → CharStart str i → c ≤ i
  here : matchAt lreExec js re2 c = .ok (some m)
  first : m.index = c + 1 ∧ m.first = c
  last : c ≤ m.last ∧ m.last ≤ str.length
  whole : m.whole = between str c m.last
  single : m.captures.tail = []

section Found

variable {q c : ℕ} {m : Match}

lemma SplitAt.next (h : SplitAt lreExec js re2 str ms t) (hfound : FoundAt lreExec js re2 str t.re2.lastIndex c m)
    (hc : c < str.length) : NextSeparator lreExec js re2 str (lastStop Match.last 0 ms) m := by
  refine ⟨c, h.behind.trans hfound.least.1, hc, hfound.start, hfound.here, fun i hi hic hchar => ?_⟩
  rcases Nat.lt_or_ge i t.re2.lastIndex with hlt | hge
  · exact h.searched i hi hlt hchar
  · exact absurd (hfound.least.2 i hge hchar) (Nat.not_le.mpr hic)

lemma SplitAt.extend {count : ℕ} (h : SplitAt lreExec js re2 str ms t)
    (hfound : FoundAt lreExec js re2 str t.re2.lastIndex c m) (hc : c < str.length) :
    SplitAt lreExec js re2 str (ms ++ [m]) ⟨{ re2 with lastIndex := m.last }, count,
      t.split ++ [between str (lastStop Match.last 0 ms) c], m.last + 1⟩ where
  object := rfl
  split := by rw [gapsBefore_append, h.split, hfound.first.2]
  prevIndex := by rw [lastStop_append]
  behind := by rw [lastStop_append]
  searched := by
    rw [lastStop_append]
    intro i hi hlt
    exact absurd hi (Nat.not_le.mpr hlt)
  apart := by
    apply h.apart.append
    · rw [hfound.first.2]
      exact ⟨h.behind.trans hfound.least.1, hfound.last.1, hfound.last.2⟩
    · rw [hfound.whole, hfound.first.2]
  found := by
    intro rest hrest
    rw [lastStop_append] at hrest
    rw [List.append_assoc, List.singleton_append]
    exact h.found _ (.next (h.next hfound hc) hrest)

lemma SplitAt.splits (h : SplitAt lreExec js re2 str ms t) (hend : t.re2.lastIndex = str.length) :
    SeparatorsFrom lreExec js re2 str 0 ms ∧
      SplitsBetween lreExec js re2 str (t.split ++ [str.drop (lastStop Match.last 0 ms)]) := by
  have hsep : SeparatorsFrom lreExec js re2 str 0 ms := by
    rw [← List.append_nil ms]
    exact h.found [] (.none (hend ▸ h.searched))
  have hgaps : t.split ++ [str.drop (lastStop Match.last 0 ms)] = gaps Match.first Match.last str 0 ms := by
    rw [gaps, h.split]
  rw [hgaps]
  exact ⟨hsep, ms, hsep, gaps_length _ _ _, h.apart.weave_whole, rfl⟩

end Found

variable (hjs : jsstringNew addr str = .ok js) (hz : 0 ∉ str) (hlen : str.length + 1 < 2 ^ 32)

section Next

variable (hv : ValidUtf8 str) (hm : re2.moves = true)
include hjs hz hlen hv hm

lemma next_char (lreExec : Engine) {q : ℕ} (hq : q ≤ str.length) :
    ∃ c, js.byteAt (translateIndex js q) = c ∧ CharStart str c ∧
    (q ≤ c ∧ ∀ i, q ≤ i → CharStart str i → c ≤ i) ∧ matchAt lreExec js re2 c = matchAt lreExec js re2 q := by
  have h := jsstringNew_wellFormed hjs fun hx => absurd hx hz
  have hblen : js.bstrLen = str.length := by
    rw [(jsstringNew_addr hjs).2.2, uint32, Nat.mod_eq_of_lt (by omega)]
  have hstart (x : ℕ) : ({ re2 with lastIndex := x } : RegExp).startIndex js = translateIndex js x := if_pos hm
  have hle := h.translateIndex_le (hblen ▸ hq)
  have hint := h.translateIndex_not_interior (hblen ▸ hq)
  refine ⟨_, rfl, (charStart_iff hjs hz (by omega) hv).mpr ⟨_, hle, hint, rfl⟩,
    ⟨h.le_byteAt_translateIndex (hblen ▸ hq), fun i hi hic => ?_⟩, ?_⟩
  · obtain ⟨u, hu, hu', rfl⟩ := (charStart_iff hjs hz (by omega) hv).mp hic
    exact h.byteAt_translateIndex_le hu hu' hi
  · rw [matchAt, matchAt]
    refine regexpExec_result_congr rfl ?_ ?_
    · rw [RegExp.Starts, hstart, h.translateIndex_byteAt hle hint]
      exact hle
    · rw [hstart, hstart, h.translateIndex_byteAt hle hint]

end Next

section Match

variable (hl : lreExec.Captures re2.bc) (hf : lreExec.Forward re2.bc) (hcc : re2.bc.captureCount = 1)
variable (hv : ValidUtf8 str)
include hjs hz hlen hl hf hcc hv

lemma SplitAdvances.last_ne {q : ℕ} (hq : q < str.length) {re' : RegExp} {m : Match}
    (hadv : SplitAdvances lreExec str js { re2 with lastIndex := q })
    (hexec : regexpExec lreExec { re2 with lastIndex := q } js = ⟨re', .ok (some m)⟩) : m.last ≠ q := by
  have hcc' : 0 < ({ re2 with lastIndex := q } : RegExp).bc.captureCount := by
    show 0 < re2.bc.captureCount
    omega
  obtain ⟨capture, s, e, hs, hc, -, h₁, -, -, -, -, -, -, -, hlast, -⟩ :=
    exec_some hjs hz (show lreExec.Captures ({ re2 with lastIndex := q } : RegExp).bc from hl) hf
    (jsstringNew_startsBetween hjs hv fun hx => absurd hx hz) hcc' hexec
  rw [hlast]
  intro heq
  have hend : str.length < uint32 (q + 1) := hadv.moves hs capture e hc h₁ heq
  rw [uint32, Nat.mod_eq_of_lt (by omega)] at hend
  omega

variable (hm : re2.moves = true) (hat : lreExec.Sticky re2.bc)
include hm hat

lemma foundAt_of_exec {q : ℕ} (hq : q ≤ str.length) {re' : RegExp} {m : Match}
    (hexec : regexpExec lreExec { re2 with lastIndex := q } js = ⟨re', .ok (some m)⟩) :
    re' = { re2 with lastIndex := m.last } ∧ ∃ c, FoundAt lreExec js re2 str q c m := by
  obtain ⟨c, rfl, hchar, hleast, hsame⟩ := next_char hjs hz hlen hv hm lreExec hq
  have hcc' : 0 < ({ re2 with lastIndex := q } : RegExp).bc.captureCount := by
    show 0 < re2.bc.captureCount
    omega
  have hstarts := jsstringNew_startsBetween hjs hv fun hx => absurd hx hz
  obtain ⟨capture, s, e, hs, hc, h₀, h₁, -, hse, he, hle, hle', hre, hfirst, hlast, hindex, hwhole⟩ :=
    exec_some hjs hz (show lreExec.Captures ({ re2 with lastIndex := q } : RegExp).bc from hl) hf hstarts hcc' hexec
  have hmoves : ({ re2 with lastIndex := q } : RegExp).moves = true := hm
  obtain rfl : translateIndex js q = s := by
    have hstart : ({ re2 with lastIndex := q } : RegExp).startIndex js = translateIndex js q := if_pos hmoves
    rw [← hstart]
    exact Option.some.inj ((hat _ _ _ _ _ (not_betweenHalves hstarts hs) (lreExec_of_call hc)).symm.trans h₀)
  have hres : (regexpExec lreExec { re2 with lastIndex := q } js).result = .ok (some m) := by rw [hexec]
  refine ⟨by rw [hre, if_pos hmoves, hlast], _, hchar, hleast, hsame.trans hres, ⟨?_, hfirst⟩, ⟨?_, ?_⟩, ?_, ?_⟩
  · rw [Match.first] at hfirst
    omega
  · rwa [hlast]
  · rwa [hlast]
  · rw [hwhole, hlast]
  · obtain ⟨-, capture', hc'⟩ := call_of_some hres
    have hcl := buildMatch_length (buildMatch_of_some hres hc')
    rw [← List.length_eq_zero_iff, List.length_tail, hcl]
    show re2.bc.captureCount - 1 = 0
    rw [hcc]

end Match

section Turn

variable (hl : lreExec.Captures re2.bc) (hf : lreExec.Forward re2.bc) (hcc : re2.bc.captureCount = 1)
variable (hv : ValidUtf8 str) (hm : re2.moves = true) (hat : lreExec.Sticky re2.bc)
include hjs hz hlen hl hf hcc hv hm hat

lemma split_match (h : SplitAt lreExec js re2 str ms t) (hin : t.re2.lastIndex < str.length)
    (hadv : SplitAdvances lreExec str js t.re2) {re' : RegExp} {m : Match}
    (hexec : regexpExec lreExec t.re2 js = ⟨re', .ok (some m)⟩) :
    (∃ u, SplitAt lreExec js re2 str (ms ++ [m]) u ∧ u.re2.lastIndex = m.last ∧
      splitStep lreExec js str .huge t = if str.length ≤ u.re2.lastIndex then
        .inr (.ok (u.split ++ [str.drop (lastStop Match.last 0 (ms ++ [m]))])) else .inl u) ∨
    FoundAt lreExec js re2 str t.re2.lastIndex str.length m ∧
      splitStep lreExec js str .huge t =
        .inr (.ok (t.split ++ [str.drop (lastStop Match.last 0 ms)] ++ [[]])) := by
  have hne : m.last ≠ t.re2.lastIndex := by
    rw [h.object] at hexec hadv
    exact hadv.last_ne hjs hz hlen hl hf hcc hv hin hexec
  obtain ⟨rfl, c, hfound⟩ := foundAt_of_exec hjs hz hlen hl hf hcc hv hm hat hin.le (h.object ▸ hexec)
  have hpc : lastStop Match.last 0 ms ≤ c := h.behind.trans hfound.least.1
  have hcn : c ≤ str.length := hfound.last.1.trans hfound.last.2
  have hsub : stringSub str t.prevIndex (m.index - 1) = between str (lastStop Match.last 0 ms) c := by
    rw [h.prevIndex, hfound.first.1, Nat.cast_add, Nat.cast_add, Nat.cast_one, add_sub_cancel_right]
    exact stringSub_between hpc hcn
  have hpiece : stringSub str t.prevIndex (m.index - 1) ≠ [] ∨ m.whole ≠ [] := by
    by_contra hempty
    push Not at hempty
    rw [hsub, hfound.whole] at hempty
    have hgap := between_eq_nil hcn hempty.1
    have hmatch := between_eq_nil hfound.last.2 hempty.2
    have := h.behind
    have := hfound.least.1
    have := hfound.last.1
    omega
  have hfield : ({ re2 with lastIndex := m.last } : RegExp).lastIndexField = m.last + 1 := by
    have := hfound.last.2
    show uint32 (m.last + 1) = m.last + 1
    rw [uint32, Nat.mod_eq_of_lt (by omega)]
  have hrest : stringSub str (m.last + 1 : ℕ) str.length = str.drop m.last := by
    rw [Nat.cast_add, Nat.cast_one, stringSub_between hfound.last.2 le_rfl, between_length]
  have hstep := splitStep_matched hexec (by omega) hfound.single hpiece
  rw [hfield, hsub, hrest] at hstep
  rcases Nat.lt_or_eq_of_le hcn with hlt | rfl
  · left
    refine ⟨⟨_, t.count, _, _⟩, h.extend hfound hlt, rfl, ?_⟩
    rw [hstep, lastStop_append]
    simp only [Nat.lt_succ_iff]
  · right
    have hlast : m.last = str.length := le_antisymm hfound.last.2 hfound.last.1
    rw [hlast, if_pos (Nat.lt_succ_self _), between_length, List.drop_length] at hstep
    exact ⟨hfound, hstep⟩

variable (ha : 2 ≤ addr)
include ha

omit hat in
lemma split_noMatch (h : SplitAt lreExec js re2 str ms t) (hin : t.re2.lastIndex < str.length)
    (hadv : SplitAdvances lreExec str js t.re2) (hnone : (regexpExec lreExec t.re2 js).result = .ok none) :
    ∃ u, SplitAt lreExec js re2 str ms u ∧ u.re2.lastIndex = t.re2.lastIndex + 1 ∧
      splitStep lreExec js str .huge t = if str.length ≤ u.re2.lastIndex then
        .inr (.ok (u.split ++ [str.drop (lastStop Match.last 0 ms)])) else .inl u := by
  have hwf := jsstringNew_wellFormed hjs fun hx => absurd hx hz
  have haddr : 2 ≤ js.addr := (jsstringNew_addr hjs).1 ▸ ha
  have hstarts := jsstringNew_startsBetween hjs hv fun hx => absurd hx hz
  have hbc : t.re2.bc = re2.bc := by rw [h.object]
  have hcc' : 0 < t.re2.bc.captureCount := by
    rw [hbc]
    omega
  have hm' : t.re2.moves = true := by rw [h.object]; exact hm
  have hfield : t.re2.lastIndexField = t.re2.lastIndex + 1 := by
    rw [RegExp.lastIndexField, uint32, Nat.mod_eq_of_lt (by omega)]
  have ho := execOutcome (hbc ▸ hl) (hbc ▸ hf) hstarts hwf haddr hcc' hm'
  generalize hexec : regexpExec lreExec t.re2 js = o at ho hnone
  cases ho with
  | fails => cases hnone
  | refused => cases hnone
  | undefined => cases hnone
  | some => cases hnone
  | none hn =>
    have hfit : t.re2.lastIndexField + 1 < 2 ^ 31 := by
      rw [hfield]
      exact hadv.fails hn
    have hstep := splitStep_none str (show LuaNumber.huge.above t.count = true from rfl) hexec hfit
    have hbehind := h.behind
    have hrest : stringSub str t.prevIndex str.length = str.drop (lastStop Match.last 0 ms) := by
      rw [h.prevIndex, Nat.cast_add, Nat.cast_one, stringSub_between (by omega) le_rfl, between_length]
    refine ⟨⟨{ t.re2 with lastIndex := t.re2.lastIndexField }, t.count, t.split, t.prevIndex⟩, ?_, hfield, ?_⟩
    · refine ⟨by rw [h.object], h.split, h.prevIndex, ?_, ?_, h.apart, h.found⟩
      · show _ ≤ t.re2.lastIndexField
        omega
      · intro i hi hlt hchar
        have hle : i < t.re2.lastIndex + 1 := by rwa [← hfield]
        rcases Nat.lt_succ_iff_lt_or_eq.mp hle with hlt' | rfl
        · exact h.searched i hi hlt' hchar
        · rw [matchAt, ← h.object, hexec]
    · rw [hstep, hrest]
      simp only [Nat.lt_succ_iff]

lemma split_turn (h : SplitAt lreExec js re2 str ms t) (hin : t.re2.lastIndex < str.length)
    (hadv : SplitAdvances lreExec str js t.re2) :
    (∃ e, splitStep lreExec js str .huge t = .inr (.error e)) ∨
    (∃ ms' u, SplitAt lreExec js re2 str ms' u ∧ u.re2.lastIndex ≤ str.length ∧
      (u.re2.lastIndex = str.length → EndsBetween lreExec js re2 str) ∧
      splitStep lreExec js str .huge t = if str.length ≤ u.re2.lastIndex then
        .inr (.ok (u.split ++ [str.drop (lastStop Match.last 0 ms')])) else .inl u) ∨
    ∃ m, FoundAt lreExec js re2 str t.re2.lastIndex str.length m ∧
      splitStep lreExec js str .huge t =
        .inr (.ok (t.split ++ [str.drop (lastStop Match.last 0 ms)] ++ [[]])) := by
  rcases hexec : regexpExec lreExec t.re2 js with ⟨re', e | _ | m⟩
  · exact .inl ⟨e, splitStep_error rfl hexec⟩
  · have hnone : (regexpExec lreExec t.re2 js).result = .ok none := by rw [hexec]
    obtain ⟨u, hu, hq, hstep⟩ := split_noMatch hjs hz hlen hl hf hcc hv hm ha h hin hadv hnone
    refine .inr (.inl ⟨ms, u, hu, by omega, fun hend => ?_, hstep⟩)
    obtain ⟨c, -, hchar, ⟨hqc, -⟩, hsame⟩ := next_char hjs hz hlen hv hm lreExec hin.le
    have hle := hchar.le
    rcases Nat.lt_or_eq_of_le hqc with hlt | heq
    · obtain rfl : c = str.length := by omega
      refine .inr (.inr fun m hmatch => ?_)
      rw [hsame, matchAt, ← h.object, hnone] at hmatch
      cases hmatch
    · refine .inl ?_
      rwa [← hend, hq, Nat.add_sub_cancel, heq]
  · rcases split_match hjs hz hlen hl hf hcc hv hm hat h hin hadv hexec with ⟨u, hu, hlast, hstep⟩ | hend
    · have hle : u.re2.lastIndex ≤ str.length := by
        rw [hlast]
        exact (foundAt_of_exec hjs hz hlen hl hf hcc hv hm hat hin.le (h.object ▸ hexec)).2.choose_spec.last.2
      refine .inr (.inl ⟨_, u, hu, hle, fun hend => ?_, hstep⟩)
      exact .inr (.inl ⟨_, (hu.splits hend).1, by rw [lastStop_append, ← hlast, hend]⟩)
    · exact .inr (.inr ⟨m, hend⟩)

lemma split_visits_at (hfresh : re2.lastIndex = 0) (hpos : str ≠ [])
    (hadv : ∀ t, Visits (splitStep lreExec js str .huge) (.start re2) t → SplitAdvances lreExec str js t.re2)
    (ht : Visits (splitStep lreExec js str .huge) (.start re2) t) :
    ∃ ms, SplitAt lreExec js re2 str ms t ∧ t.re2.lastIndex < str.length := by
  refine ht.invariant (fun t => ∃ ms, SplitAt lreExec js re2 str ms t ∧ t.re2.lastIndex < str.length) ⟨[], ?_, ?_⟩ ?_
  · exact {
      object := rfl
      split := rfl
      prevIndex := rfl
      behind := Nat.zero_le _
      searched := fun i _ hlt => absurd hlt (by rw [SplitState.start, hfresh]; exact Nat.not_lt_zero i)
      apart := ⟨Nat.zero_le _, by simp⟩
      found := fun rest hrest => hrest }
  · rw [SplitState.start, hfresh]
    exact List.length_pos_iff.mpr hpos
  · rintro t u hvis ⟨ms, h, hin⟩ hu
    rcases split_turn hjs hz hlen hl hf hcc hv hm hat ha h hin (hadv t hvis) with
      ⟨e, hstep⟩ | ⟨ms', u', hu', -, -, hstep⟩ | ⟨m, -, hstep⟩
    · cases hstep.symm.trans hu
    · rw [hstep] at hu
      split at hu
      · cases hu
      · next hlt =>
        obtain rfl := Sum.inl.inj hu
        exact ⟨ms', hu', Nat.not_le.mp hlt⟩
    · cases hstep.symm.trans hu

lemma split_returned (h : SplitAt lreExec js re2 str ms t) (hin : t.re2.lastIndex < str.length)
    (hadv : SplitAdvances lreExec str js t.re2) {l : List Bytes}
    (hstop : splitStep lreExec js str .huge t = .inr (.ok l)) :
    SplitsBetween lreExec js re2 str l ∧ EndsBetween lreExec js re2 str ∨
      ¬ SplitsBetween lreExec js re2 str l ∧ ¬ EndsBetween lreExec js re2 str := by
  rcases split_turn hjs hz hlen hl hf hcc hv hm hat ha h hin hadv with ⟨e, hstep⟩ | ⟨ms', u, hu, hle, hends, hstep⟩ |
    ⟨m, hfound, hstep⟩
  · cases hstep.symm.trans hstop
  · rw [hstep] at hstop
    split at hstop
    · next hge =>
      obtain rfl := Except.ok.inj (Sum.inr.inj hstop)
      have hend := le_antisymm hle hge
      exact .inl ⟨(hu.splits hend).2, hends hend⟩
    · cases hstop
  · right
    obtain rfl := Except.ok.inj (Sum.inr.inj (hstep.symm.trans hstop))
    have hnone : NoMatchBetween lreExec js re2 str (lastStop Match.last 0 ms) str.length := by
      intro i hi hlt hchar
      rcases Nat.lt_or_ge i t.re2.lastIndex with hlt' | hge
      · exact h.searched i hi hlt' hchar
      · exact absurd (hfound.least.2 i hge hchar) (Nat.not_le.mpr hlt)
    have hsep : SeparatorsFrom lreExec js re2 str 0 ms := by
      rw [← List.append_nil ms]
      exact h.found [] (.none hnone)
    constructor
    · rintro ⟨ms', hms', hcount, -⟩
      obtain rfl := hsep.unique hms'
      rw [List.length_append, List.length_append, h.split, gapsBefore_length] at hcount
      simp at hcount
    · rintro (hchar | ⟨ms', hms', hlast⟩ | hno)
      · have := hfound.least.2 _ (by omega) hchar
        omega
      · obtain rfl := hsep.unique hms'
        have := h.behind
        omega
      · exact hno m hfound.here

end Turn

end Run

section

variable {lreExec : Engine} {compile : Compiler} {addr : ℕ} {re : RegExp} {str : Bytes}

theorem split_between_iff (ha : 2 ≤ addr) (hcomp : compile.Sound) (hv : ValidUtf8 str) (hz : 0 ∉ str) (hpos : str ≠ [])
    {js : JsString} {re2 : RegExp} (hjs : jsstringNew addr str = .ok js)
    (hc : compile re.expr (regexpPushflags re ++ bytesOf "y") = .ok re2) (hl : lreExec.Captures re2.bc)
    (hf : lreExec.Forward re2.bc) (hat : lreExec.Sticky re2.bc) (hcc : re2.bc.captureCount = 1) {turns : ℕ}
    {l : List Bytes}
    (h : mtSplit lreExec compile addr re str none turns = some (.ok l)) :
    SplitsBetween lreExec js re2 str l ↔ EndsBetween lreExec js re2 str := by
  have hsticky : re2.sticky = true := hcomp.sticky _ _ _ hc (sticky_mem_pushflags re)
  have hm : re2.moves = true := by simp [RegExp.moves, hsticky]
  have hfresh := (hcomp.fresh _ _ _ hc).1
  obtain ⟨haddr, -, hb⟩ := jsstringNew_addr hjs
  have hrun : run (splitStep lreExec js str .huge) turns (.start re2) = some (.ok l) := by
    rw [mtSplit_above rfl, hjs, hc] at h
    exact h
  have hwf := jsstringNew_wellFormed hjs fun hx => absurd hx hz
  have hadv : ∀ t, Visits (splitStep lreExec js str .huge) (.start re2) t → SplitAdvances lreExec str js t.re2 := by
    intro t ht
    have hstarts := jsstringNew_startsBetween hjs hv fun hx => absurd hx hz
    exact split_advances hl hf hstarts hwf (haddr ▸ ha) (hcc ▸ Nat.one_pos) hm hfresh (hb ▸ Nat.mod_le _ _) hjs hv
      (fun hx => absurd hx hz) rfl hrun (by simp) ht
  obtain ⟨t, ht, hstop⟩ := Returns.last ⟨turns, hrun⟩
  have hlen := splitStep_ok_length (by simpa using hpos) hstop
  obtain ⟨ms, hms, hin⟩ := split_visits_at hjs hz hlen hl hf hcc hv hm hat ha hfresh hpos hadv ht
  rcases split_returned hjs hz hlen hl hf hcc hv hm hat ha hms hin (hadv t ht) hstop with ⟨hs, he⟩ | ⟨hs, he⟩
  · exact iff_of_true hs he
  · exact iff_of_false hs he

theorem split_between_dot :
    mtSplit dotExec (plainCompile [.dot]) 16 ⟨[0x2e], ⟨0, 1, 0, [], []⟩, 0⟩ (bytesOf "ab") none 2 =
        some (.ok [[], [], []]) ∧
      SplitsBetween dotExec abText (dotSticky 0) (bytesOf "ab") [[], [], []] := by
  have h : mtSplit dotExec (plainCompile [.dot]) 16 ⟨[0x2e], ⟨0, 1, 0, [], []⟩, 0⟩ (bytesOf "ab") none 2 =
      some (.ok [[], [], []]) := by rfl
  have hst : dotExec.Sticky (dotSticky 0).bc := by
    intro cbuf cindex clen cbufType capture _ hmatch
    rw [dotExec] at hmatch
    split at hmatch
    · obtain rfl := LreResult.matched.inj hmatch
      rfl
    · cases hmatch
  refine ⟨h, (split_between_iff (by decide) (plainCompile_sound _) ⟨['a', 'b'], by decide⟩ (by decide) (by decide)
    abText_eq ?_ (dotExec_captures _) (dotExec_forward _) hst rfl h).mpr (.inl ⟨['a'], ['b'], by decide, by decide⟩)⟩
  rfl

end

def endExec : Engine := fun bc _ cindex clen _ =>
  if bc.captureCount = 1 ∧ cindex = clen then .matched [some cindex, some cindex] else .noMatch

def eAcuteString : JsString := ⟨true, 1, eAcute, 2, [0, 2, 0], [0, 0, 1], [0xe9], 16⟩

lemma eAcuteString_eq : jsstringNew 16 eAcute = .ok eAcuteString := by rfl

def endSticky : RegExp :=
  ⟨bytesOf "$", ⟨lreFlagSticky, 1, 0, [.saveStart 0, .lineEnd false, .saveEnd 0, .matched], []⟩, 0⟩

theorem split_end_piece :
    jsstringNew 16 eAcute = .ok eAcuteString ∧
      mtSplit endExec (plainCompile [.lineEnd false]) 16 ⟨bytesOf "$", ⟨0, 1, 0, [], []⟩, 0⟩ eAcute none 3 =
        some (.ok [eAcute, []]) ∧
      ¬ SplitsBetween endExec eAcuteString endSticky eAcute [eAcute, []] := by
  refine ⟨eAcuteString_eq, by rfl, ?_⟩
  rintro ⟨ms, hms, hcount, -⟩
  cases hms with
  | none => cases hcount
  | next hm _ =>
    obtain ⟨q, -, hlt, hq, hmatch, -⟩ := hm
    obtain ⟨u, hu, -, rfl⟩ := (charStart_iff eAcuteString_eq (by decide) (by decide) ⟨['é'], by decide⟩).mp hq
    obtain rfl | rfl : u = 0 ∨ u = 1 := Nat.le_one_iff_eq_zero_or_eq_one.mp hu
    · have hnone : matchAt endExec eAcuteString endSticky 0 = .ok none := by rfl
      cases hnone.symm.trans hmatch
    · exact absurd hlt (by decide)

end Jsregexp
