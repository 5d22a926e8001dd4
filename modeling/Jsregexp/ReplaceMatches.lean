import Jsregexp.ReplaceAll

namespace Jsregexp

open Library.Iteration Library.Segments

variable {σ : Type}

inductive Successive (lreExec : Engine) (js : JsString) (re : RegExp) : List Match → RegExp → Prop
  | start : Successive lreExec js re [] re
  | next {ms re' re'' m} : Successive lreExec js re ms re' →
      regexpExec lreExec re' js = ⟨re'', .ok (some m)⟩ → Successive lreExec js re (ms ++ [m]) re''

def replies (f : σ → Match → Bytes → σ × Bytes) (str : Bytes) : σ → List Match → List Bytes
  | _, [] => []
  | fn, m :: ms => (f fn m str).2 :: replies f str (f fn m str).1 ms

def replyState (f : σ → Match → Bytes → σ × Bytes) (str : Bytes) (fn : σ) (ms : List Match) : σ :=
  ms.foldl (fun fn m => (f fn m str).1) fn

def stringFunction (f : σ → Match → Bytes → σ × Bytes) : Replacement σ :=
  .function fun fn m str => ((f fn m str).1, .ok (f fn m str).2)

/-- `out` is the subject with `f m` in the place of each match `m` that `exec` gives from the front on, of
the first one only if the regexp is not global. -/
structure ReplacesMatches (lreExec : Engine) (js : JsString) (re : RegExp) (str : Bytes)
    (f : σ → Match → Bytes → σ × Bytes) (fn : σ) (ms : List Match) (out : Bytes) : Prop where
  successive : ∃ re', Successive lreExec js { re with lastIndex := 0 } ms re' ∧
    (re.global = true ∨ ms = [] → (regexpExec lreExec re' js).result = .ok none)
  single : re.global = false → ms.length ≤ 1
  woven : out = weave (gaps Match.first Match.last str 0 ms) (replies f str fn ms)
  unchanged : ms = [] → out = str
  identity : (∀ fn m, (f fn m str).2 = m.whole) → out = str

def MatchesBetweenChars (lreExec : Engine) (js : JsString) (re : RegExp) : Prop :=
  ∀ i capture s e, { re with lastIndex := i }.call lreExec js = .matched capture → slot capture 0 = some s →
    slot capture 1 = some e → ¬ js.InsidePair s ∧ ¬ js.InsidePair e

lemma replies_append (f : σ → Match → Bytes → σ × Bytes) (str : Bytes) (fn : σ) (ms : List Match) (m : Match) :
    replies f str fn (ms ++ [m]) = replies f str fn ms ++ [(f (replyState f str fn ms) m str).2] := by
  induction ms generalizing fn with
  | nil => rfl
  | cons m' ms ih => simp [replies, ih, replyState]

@[simp] lemma replies_length (f : σ → Match → Bytes → σ × Bytes) (str : Bytes) (fn : σ) (ms : List Match) :
    (replies f str fn ms).length = ms.length := by
  induction ms generalizing fn with
  | nil => rfl
  | cons m ms ih => simp [replies, ih]

lemma replies_identity {f : σ → Match → Bytes → σ × Bytes} {str : Bytes} (hf : ∀ fn m, (f fn m str).2 = m.whole)
    (fn : σ) (ms : List Match) : replies f str fn ms = ms.map Match.whole := by
  induction ms generalizing fn with
  | nil => rfl
  | cons m ms ih => simp [replies, ih, hf]

structure Apart (str : Bytes) (ms : List Match) : Prop where
  ordered : Ordered Match.first Match.last str.length 0 ms
  whole : ∀ m ∈ ms, m.whole = between str m.first m.last

lemma Apart.weave_whole {str : Bytes} {ms : List Match} (h : Apart str ms) :
    weave (gaps Match.first Match.last str 0 ms) (ms.map Match.whole) = str := by
  have hw : ms.map Match.whole = ms.map fun m => between str m.first m.last :=
    List.map_congr_left fun m hm => h.whole m hm
  rw [hw, weave_gaps h.ordered, List.drop_zero]

lemma Apart.append {str : Bytes} {ms : List Match} {m : Match} (h : Apart str ms)
    (hm : lastStop Match.last 0 ms ≤ m.first ∧ m.first ≤ m.last ∧ m.last ≤ str.length)
    (hw : m.whole = between str m.first m.last) : Apart str (ms ++ [m]) := by
  refine ⟨ordered_snoc h.ordered hm.1 hm.2.1 hm.2.2, fun m' hm' => ?_⟩
  rcases List.mem_append.mp hm' with hm' | hm'
  · exact h.whole m' hm'
  · rwa [List.mem_singleton.mp hm']

section Loop

variable {lreExec : Engine} {js : JsString} {re : RegExp} {str : Bytes} {f : σ → Match → Bytes → σ × Bytes} {fn : σ}

structure Replaced (lreExec : Engine) (js : JsString) (re : RegExp) (str : Bytes)
    (f : σ → Match → Bytes → σ × Bytes) (fn : σ) (ms : List Match) (t : ReplaceState σ) : Prop where
  successive : Successive lreExec js { re with lastIndex := 0 } ms t.re
  object : t.re = { re with lastIndex := t.re.lastIndex }
  apart : Apart str ms
  place : ∃ u ≤ js.len, ¬ js.Interior u ∧ t.re.lastIndex = js.byteAt u
  lastIndex : t.re.lastIndex = lastStop Match.last 0 ms ∧ t.re.lastIndex + 1 < 2 ^ 32
  curIndex : t.curIndex = t.re.lastIndex + 1
  output : ∀ tail, t.output.flatten ++ tail =
    weave (gapsBefore Match.first Match.last str 0 ms ++ [tail]) (replies f str fn ms)
  fn : t.fn = replyState f str fn ms

lemma replaceStep_stringFunction {t u : ReplaceState σ} :
    replaceStep lreExec js str (stringFunction f) t = .inl u ↔
      ∃ re' m, regexpExec lreExec t.re js = ⟨re', .ok (some m)⟩ ∧
        u = ⟨re', t.output ++ [stringSub str t.re.lastIndexField (m.index - 1)] ++ [(f t.fn m str).2],
          re'.lastIndexField, (f t.fn m str).1⟩ := by
  rw [replaceStep]
  rcases regexpExec lreExec t.re js with ⟨re', ⟨e⟩ | ⟨_ | m⟩⟩
  · simp
  · simp
  · simp [stringFunction, Replacement.apply, Except.mapError, eq_comm]

lemma replaceStep_done {t : ReplaceState σ} {re' : RegExp} {out : Bytes}
    (h : replaceStep lreExec js str (stringFunction f) t = .inr ⟨re', .ok out⟩) :
    (regexpExec lreExec t.re js).result = .ok none ∧
      out = (t.output ++ [stringSub str t.curIndex (-1)]).flatten := by
  rw [replaceStep] at h
  generalize regexpExec lreExec t.re js = o at h ⊢
  rcases o with ⟨re', ⟨e⟩ | ⟨_ | m⟩⟩
  · simp at h
  · simp only [Sum.inr.injEq, Outcome.mk.injEq, Except.ok.injEq] at h
    exact ⟨rfl, h.2.symm⟩
  · simp [stringFunction, Replacement.apply, Except.mapError] at h

variable {addr : ℕ} (hl : lreExec.Captures re.bc) (hf : lreExec.Forward re.bc)
variable (hjs : jsstringNew addr str = .ok js) (hz : 0 ∉ str) (hv : ValidUtf8 str) (hcc : 0 < re.bc.captureCount)
variable (hg : re.global = true) (hchars : MatchesBetweenChars lreExec js re)
include hl hf hjs hz hv hcc hg hchars

lemma replaced_next {ms : List Match} {t u : ReplaceState σ} (h : Replaced lreExec js re str f fn ms t)
    (hu : replaceStep lreExec js str (stringFunction f) t = .inl u) :
    ∃ m, Replaced lreExec js re str f fn (ms ++ [m]) u := by
  have hlen₀ : 0 ∈ str → str.length + 1 < 2 ^ 32 := fun hx => absurd hx hz
  have hwf := jsstringNew_wellFormed hjs hlen₀
  obtain ⟨re', m, hexec, rfl⟩ := replaceStep_stringFunction.mp hu
  have hbc : t.re.bc = re.bc := by rw [h.object]
  have hm : t.re.moves = true := by
    rw [h.object]
    show (re.global || re.sticky) = true
    rw [hg, Bool.true_or]
  obtain ⟨capture, s, e, hs, hc, h₀, h₁, hstart, hse, he, hle, hlen, hre, hfirst, hlast, hindex, hwhole⟩ :=
    exec_some hjs hz (hbc ▸ hl) (hbc ▸ hf) (jsstringNew_startsBetween hjs hv hlen₀) (hbc ▸ hcc) hexec
  rw [if_pos hm] at hre
  have hpair := hchars t.re.lastIndex capture s e (by rw [← h.object]; exact hc) h₀ h₁
  have hi : ¬ js.Interior s ∧ ¬ js.Interior e :=
    ⟨(insidePair_iff_interior hjs hv hlen₀ (hse.trans he)).not.mp hpair.1,
      (insidePair_iff_interior hjs hv hlen₀ he).not.mp hpair.2⟩
  obtain ⟨v, hvlen, hvi, hv⟩ := h.place
  have hsv : js.byteAt v ≤ js.byteAt s := by
    refine hwf.byteAt_mono (hse.trans he) hvi hi.1 ?_
    rwa [RegExp.startIndex, if_pos hm, hv, hwf.translateIndex_byteAt hvlen hvi] at hstart
  have hbound : js.byteAt e + 1 < 2 ^ 32 := by
    cases hw : js.isWideChar with
    | true => exact (Nat.succ_le_succ (hwf.byteAt_le he)).trans_lt (hwf.fits hw).1
    | false =>
      have hcall : t.re.call lreExec js ≠ .undefined := by simp [hc]
      have := (admitted_of_call hs hwf.len_lt hcall).1
      rw [JsString.byteAt, hw]
      simp
      omega
  obtain ⟨hli, hlt⟩ := h.lastIndex
  have hgap : stringSub str t.re.lastIndexField (m.index - 1) = between str (lastStop Match.last 0 ms) m.first := by
    have hcast : ((m.index : ℤ) - 1) = (m.first : ℕ) := by
      rw [Match.first]
      omega
    rw [hcast, RegExp.lastIndexField, uint32, Nat.mod_eq_of_lt hlt, ← hli, Nat.cast_add, Nat.cast_one]
    refine stringSub_between ?_ ?_
    · rw [hfirst, hv]
      exact hsv
    · rw [hfirst]
      exact hle.trans hlen
  refine ⟨m, {
    successive := h.successive.next hexec
    object := by rw [hre]; rw [h.object]
    apart := h.apart.append ⟨by rw [← hli, hv, hfirst]; exact hsv, by rw [hfirst, hlast]; exact hle,
      by rw [hlast]; exact hlen⟩ (by rw [hwhole, hfirst, hlast])
    place := ⟨e, he, hi.2, by rw [hre]⟩
    lastIndex := ⟨by rw [hre, lastStop_append, hlast], by rw [hre]; exact hbound⟩
    curIndex := by
      show re'.lastIndexField = re'.lastIndex + 1
      rw [RegExp.lastIndexField, uint32, hre, Nat.mod_eq_of_lt hbound]
    output := fun tail => ?_
    fn := by rw [replyState, List.foldl_append, List.foldl_cons, List.foldl_nil, h.fn]; rfl }⟩
  have hout := h.output (between str (lastStop Match.last 0 ms) m.first)
  have hlen : (gapsBefore Match.first Match.last str 0 ms).length = (replies f str fn ms).length := by simp
  have hw := weave_append hlen (between str (lastStop Match.last 0 ms) m.first) (f t.fn m str).2 tail
  have happ : gapsBefore Match.first Match.last str 0 (ms ++ [m]) ++ [tail] =
      gapsBefore Match.first Match.last str 0 ms ++ [between str (lastStop Match.last 0 ms) m.first, tail] := by
    rw [gapsBefore_append, List.append_assoc, List.singleton_append]
  rw [happ, replies_append, ← h.fn, hw, ← hout, hgap]
  simp

lemma replaced_visits {t : ReplaceState σ}
    (ht : Visits (replaceStep lreExec js str (stringFunction f)) (.start re fn) t) :
    ∃ ms, Replaced lreExec js re str f fn ms t := by
  have hwf := jsstringNew_wellFormed hjs fun hx => absurd hx hz
  refine ht.invariant (fun t => ∃ ms, Replaced lreExec js re str f fn ms t) ⟨[], ?_⟩ ?_
  · exact {
      successive := .start
      object := rfl
      apart := ⟨Nat.zero_le _, by simp⟩
      place := ⟨0, Nat.zero_le _, by simp [JsString.Interior], hwf.byteAt_zero.symm⟩
      lastIndex := ⟨rfl, by show 0 + 1 < 2 ^ 32; norm_num⟩
      curIndex := rfl
      output := fun tail => by simp [ReplaceState.start, gapsBefore, replies, weave]
      fn := rfl }
  · rintro t u - ⟨ms, hms⟩ hu
    obtain ⟨m, hm⟩ := replaced_next hl hf hjs hz hv hcc hg hchars hms hu
    exact ⟨_, hm⟩

lemma replaceAll_matches {turns : ℕ} {re' : RegExp} {out : Bytes}
    (h : mtReplaceAll lreExec addr re str (stringFunction f) fn turns = some ⟨re', .ok out⟩) :
    ∃ ms, ReplacesMatches lreExec js re str f fn ms out := by
  rw [mtReplaceAll_eq hg hjs] at h
  obtain ⟨t, ht, hstop⟩ := Returns.last ⟨turns, h⟩
  obtain ⟨ms, hms⟩ := replaced_visits hl hf hjs hz hv hcc hg hchars ht
  obtain ⟨hnone, hout⟩ := replaceStep_done hstop
  have hweave : out = weave (gaps Match.first Match.last str 0 ms) (replies f str fn ms) := by
    rw [hout, hms.curIndex, Nat.cast_add, Nat.cast_one, stringSub_suffix, List.flatten_append, gaps,
      ← hms.lastIndex.1, ← hms.output]
    simp
  refine ⟨ms, ⟨t.re, hms.successive, fun _ => hnone⟩, fun hn => ?_, hweave, ?_, fun hid => ?_⟩
  · rw [hg] at hn
    cases hn
  · rintro rfl
    rw [hweave]
    simp [gaps, gapsBefore, replies, weave]
  · rw [hweave, replies_identity hid, hms.apart.weave_whole]

end Loop

section Single

variable {lreExec : Engine} {js : JsString} {re : RegExp} {str : Bytes} {f : σ → Match → Bytes → σ × Bytes} {fn : σ}
variable {addr : ℕ} (hl : lreExec.Captures re.bc) (hf : lreExec.Forward re.bc) (hv : ValidUtf8 str)
variable (hjs : jsstringNew addr str = .ok js) (hz : 0 ∉ str) (hcc : 0 < re.bc.captureCount)
variable (hg : re.global = false)
include hl hf hv hjs hz hcc hg

lemma replace_first_match {turns : ℕ} {re' : RegExp} {out : Bytes}
    (h : mtReplace lreExec addr re str (stringFunction f) fn turns = some ⟨re', .ok out⟩) :
    ∃ ms, ReplacesMatches lreExec js re str f fn ms out := by
  simp only [mtReplace, hg, Bool.false_eq_true, if_false, hjs] at h
  generalize hexec : regexpExec lreExec { re with lastIndex := 0 } js = o at h
  rcases o with ⟨re'', ⟨e⟩ | ⟨_ | m⟩⟩
  · simp at h
  · obtain rfl : str = out := by simpa using congrArg Outcome.result (Option.some.inj h)
    refine ⟨[], ⟨_, .start, fun _ => by rw [hexec]⟩, by simp, ?_, fun _ => rfl, fun _ => rfl⟩
    simp [gaps, gapsBefore, replies, weave]
  · have hl' : lreExec.Captures ({ re with lastIndex := 0 } : RegExp).bc := hl
    obtain ⟨capture, s, e, -, -, -, -, -, -, -, hle, hlen, -, hfirst, hlast, hindex, hwhole⟩ :=
      exec_some hjs hz hl' hf (jsstringNew_startsBetween hjs hv fun hx => absurd hx hz) hcc hexec
    have hempty : Apart str [] := ⟨Nat.zero_le _, by simp⟩
    have hapart : Apart str [m] := by
      refine hempty.append ⟨Nat.zero_le _, ?_, ?_⟩ ?_
      · rwa [hfirst, hlast]
      · rwa [hlast]
      · rw [hfirst, hlast, hwhole]
    have hgap : stringSub str 1 (m.index - 1) = between str 0 m.first := by
      rw [show ((m.index : ℤ) - 1) = (m.first : ℕ) by rw [Match.first]; omega]
      refine stringSub_between (a := 0) (Nat.zero_le _) ?_
      rw [hfirst]
      exact hle.trans hlen
    have hend : m.index + m.whole.length = m.last + 1 := by
      rw [hwhole, between, List.length_take, List.length_drop, hlast]
      rw [Match.first] at hfirst
      omega
    have hout : out = weave (gaps Match.first Match.last str 0 [m]) (replies f str fn [m]) := by
      have h := congrArg Outcome.result (Option.some.inj h)
      obtain rfl : stringSub str 1 (m.index - 1) ++ (f fn m str).2 ++
          stringSub str (m.index + m.whole.length) (-1) = out := by
        simpa [stringFunction, Replacement.apply, Except.mapError, Except.map] using h
      have hcast : (m.index : ℤ) + m.whole.length = (m.last : ℕ) + 1 := by exact_mod_cast hend
      rw [hgap, hcast, stringSub_suffix]
      simp [gaps, gapsBefore, replies, weave]
    refine ⟨[m], ⟨re'', .next .start hexec, ?_⟩, by simp, hout, by simp, fun hid => ?_⟩
    · rintro (hg' | hn)
      · rw [hg] at hg'
        cases hg'
      · cases hn
    · rw [hout, replies_identity hid, hapart.weave_whole]

end Single

theorem replace_matches {lreExec : Engine} {re : RegExp} {str : Bytes} {f : σ → Match → Bytes → σ × Bytes} {fn : σ}
    {addr turns : ℕ} {re' : RegExp} {out : Bytes} (hl : lreExec.Captures re.bc) (hf : lreExec.Forward re.bc)
    (hcc : 0 < re.bc.captureCount) (hv : ValidUtf8 str) (hz : 0 ∉ str)
    (hchars : ∀ js, jsstringNew addr str = .ok js → MatchesBetweenChars lreExec js re)
    (h : mtReplace lreExec addr re str (stringFunction f) fn turns = some ⟨re', .ok out⟩) :
    ∃ js ms, jsstringNew addr str = .ok js ∧ ReplacesMatches lreExec js re str f fn ms out := by
  cases hjs : jsstringNew addr str with
  | error e =>
    simp only [mtReplace, mtReplaceAll, hjs] at h
    split_ifs at h <;> cases h
  | ok js =>
    cases hg : re.global with
    | true =>
      rw [mtReplace, if_pos hg] at h
      obtain ⟨ms, hms⟩ := replaceAll_matches hl hf hjs hz hv hcc hg (hchars js hjs) h
      exact ⟨js, ms, rfl, hms⟩
    | false =>
      obtain ⟨ms, hms⟩ := replace_first_match hl hf hv hjs hz hcc hg h
      exact ⟨js, ms, rfl, hms⟩

theorem replace_matches_dot :
    mtReplace dotExec 16 (dotRe 0) (bytesOf "ab")
      (stringFunction fun (n : ℕ) m _ => (n + 1, m.whole ++ bytesOf "-")) 0 3 = some ⟨dotRe 0, .ok (bytesOf "a-b-")⟩ ∧
    ∃ js ms, jsstringNew 16 (bytesOf "ab") = .ok js ∧ ReplacesMatches dotExec js (dotRe 0) (bytesOf "ab")
      (fun (n : ℕ) m _ => (n + 1, m.whole ++ bytesOf "-")) 0 ms (bytesOf "a-b-") := by
  have hrun : mtReplace dotExec 16 (dotRe 0) (bytesOf "ab")
      (stringFunction fun (n : ℕ) m _ => (n + 1, m.whole ++ bytesOf "-")) 0 3 =
      some ⟨dotRe 0, .ok (bytesOf "a-b-")⟩ := by rfl
  refine ⟨hrun, replace_matches (dotExec_captures _) (dotExec_forward _) (by decide) ⟨['a', 'b'], by decide⟩
    (by decide) ?_ hrun⟩
  intro js hjs i capture s e _ _ _
  obtain rfl : abText = js := Except.ok.inj (abText_eq.symm.trans hjs)
  exact ⟨fun hp => (by cases hp.1), fun hp => (by cases hp.1)⟩

def doubleDollars (t : Bytes) : Bytes := t.flatMap fun b => if b = byteOf '$' then [b, b] else [b]

lemma expandWith_pieces_doubleDollars (m : Match) (str t : Bytes) :
    expandWith (codeOf m str) (pieces m (doubleDollars t)) = .ok t := by
  induction t with
  | nil =>
    rw [doubleDollars, List.flatMap_nil, pieces, expandWith]
  | cons b t ih =>
    rw [doubleDollars, List.flatMap_cons, ← doubleDollars]
    by_cases hb : b = byteOf '$'
    · rw [if_pos hb, hb, List.cons_append, List.singleton_append, pieces_dollar, nextSequence, if_pos rfl, expandWith,
        ih]
      rfl
    · rw [if_neg hb, pieces_text m (by simpa using Ne.symm hb) (doubleDollars t), expandWith_text, ih]
      rfl

lemma getSubstitution_doubleDollars {m : Match} (hi : 1 ≤ m.index) (str t : Bytes) :
    getSubstitution m str (doubleDollars t) = .ok t := by
  rw [getSubstitution_eq hi]
  exact expandWith_pieces_doubleDollars m str t

section Text

variable {lreExec : Engine} {re : RegExp} {str : Bytes} {addr : ℕ} {js : JsString}

def textFunction (t : Bytes) : Replacement σ := stringFunction fun fn _ _ => (fn, t)

variable (hl : lreExec.Captures re.bc) (hjs : jsstringNew addr str = .ok js)
include hl hjs

lemma exec_index_pos {re' : RegExp} {m : Match} (hexec : regexpExec lreExec re js = ⟨re', .ok (some m)⟩) :
    1 ≤ m.index := by
  have hm : (regexpExec lreExec re js).result = .ok (some m) := by rw [hexec]
  obtain ⟨-, capture, hc⟩ := call_of_some hm
  obtain ⟨s, e, h₀, -⟩ := (hl.call hc).whole
  exact buildMatch_index_pos (jsstringNew_indices hjs) (buildMatch_of_some hm hc) h₀

lemma apply_doubleDollars {re' : RegExp} {m : Match} (hexec : regexpExec lreExec re js = ⟨re', .ok (some m)⟩)
    (fn : σ) (t : Bytes) :
    (Replacement.template (doubleDollars t)).apply fn m str = (textFunction t).apply fn m str := by
  rw [Replacement.apply, getSubstitution_doubleDollars (exec_index_pos hl hjs hexec)]
  rfl

lemma replaceStep_doubleDollars (t : Bytes) (s : ReplaceState σ) (hbc : s.re.bc = re.bc) :
    replaceStep lreExec js str (.template (doubleDollars t)) s = replaceStep lreExec js str (textFunction t) s := by
  rw [replaceStep, replaceStep]
  rcases hexec : regexpExec lreExec s.re js with ⟨re', e | _ | m⟩
  · rfl
  · rfl
  · simp only [apply_doubleDollars (hbc ▸ hl) hjs hexec]

omit hjs in
lemma replaceAll_doubleDollars (str t : Bytes) (fn : σ) (turns : ℕ) :
    mtReplaceAll lreExec addr re str (.template (doubleDollars t)) fn turns =
      mtReplaceAll lreExec addr re str (textFunction t) fn turns := by
  rw [mtReplaceAll, mtReplaceAll]
  split
  · rfl
  · cases hjs : jsstringNew addr str with
    | error e => rfl
    | ok js =>
      have hstep : ∀ s : ReplaceState σ, s.re.bc = re.bc → replaceStep lreExec js str (.template (doubleDollars t)) s =
          replaceStep lreExec js str (textFunction t) s :=
        fun s hs => replaceStep_doubleDollars hl hjs t s hs
      refine run_eq_of_lockstep hstep (fun s u hs hu => ?_) rfl turns
      obtain ⟨n, hre⟩ : ∃ n, (regexpExec lreExec s.re js).re = { s.re with lastIndex := n } :=
        regexpExec_left.imp fun _ h => h.1
      rw [replaceStep] at hu
      generalize regexpExec lreExec s.re js = o at hre hu
      rcases o with ⟨re', e | _ | m⟩
      · cases hu
      · cases hu
      · obtain rfl : re' = _ := hre
        simp only at hu
        split at hu
        · cases hu
        · rw [← Sum.inl.inj hu, hs]

omit hjs in
theorem replace_doubleDollars (str t : Bytes) (fn : σ) :
    (∀ turns, mtReplace lreExec addr re str (.template (doubleDollars t)) fn turns =
      mtReplace lreExec addr re str (textFunction t) fn turns) ∧
    (∀ turns, mtReplaceAll lreExec addr re str (.template (doubleDollars t)) fn turns =
      mtReplaceAll lreExec addr re str (textFunction t) fn turns) ∧
    ∀ m : Match, 1 ≤ m.index → getSubstitution m str (doubleDollars t) = .ok t := by
  refine ⟨fun turns => ?_, replaceAll_doubleDollars hl str t fn, fun m hi => getSubstitution_doubleDollars hi str t⟩
  rw [mtReplace, mtReplace, replaceAll_doubleDollars hl str t fn turns]
  split
  · rfl
  · cases hjs : jsstringNew addr str with
    | error e => rfl
    | ok js =>
      rcases hexec : regexpExec lreExec { re with lastIndex := 0 } js with ⟨re', e | _ | m⟩
      · simp only [hexec]
      · simp only [hexec]
      · have hl' : lreExec.Captures ({ re with lastIndex := 0 } : RegExp).bc := hl
        simp only [hexec, apply_doubleDollars hl' hjs hexec]

omit hl hjs in
theorem replace_doubleDollars_price :
    doubleDollars (bytesOf "$$1$") = bytesOf "$$$$1$$" ∧
      mtReplace dotExec 16 (dotRe 0) (bytesOf "ab") (.template (doubleDollars (bytesOf "$$1$"))) () 3 =
        some ⟨dotRe 0, .ok (bytesOf "$$1$$$1$")⟩ := by
  refine ⟨by decide, ?_⟩
  rw [(replace_doubleDollars (dotExec_captures _) (bytesOf "ab") (bytesOf "$$1$") ()).1 3]
  rfl

end Text

end Jsregexp
