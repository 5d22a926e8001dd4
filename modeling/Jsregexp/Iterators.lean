import Jsregexp.MatchAll

namespace Jsregexp

open Library.Iteration

section Left

variable {lreExec : Engine} {js : JsString} {re : RegExp}

lemma nextMatch_left : ∃ n, (nextMatch lreExec js re).re = { re with lastIndex := n } ∧
    ((nextMatch lreExec js re).result = .ok none → n = 0) := by
  obtain ⟨n, hre, hn⟩ := @regexpExec_left lreExec re js
  rw [nextMatch]
  generalize regexpExec lreExec re js = o at hre hn
  rcases o with ⟨_, e | _ | m⟩
  · exact ⟨n, hre, fun h => by cases h⟩
  · exact ⟨n, hre, hn⟩
  · obtain rfl : _ = _ := hre
    dsimp only
    split
    · rw [setLastIndex]
      split_ifs
      · exact ⟨n, rfl, fun h => by cases h⟩
      · exact ⟨_, rfl, fun h => by cases h⟩
      · exact ⟨n, rfl, fun h => by cases h⟩
    · exact ⟨n, rfl, fun h => by cases h⟩

lemma collectStep_left {α : Type} {f : Match → α} {t u : CollectState α} (hu : collectStep lreExec f js t = .inl u) :
    u.re = { t.re with lastIndex := u.re.lastIndex } := by
  obtain ⟨re', m, hnext, rfl⟩ := collectStep_next_iff.mp hu
  obtain ⟨n, hre, -⟩ := @nextMatch_left lreExec js t.re
  rw [hnext] at hre
  obtain rfl : re' = _ := hre
  rfl

lemma collect_left {α : Type} {f : Match → α} {turns : ℕ} {o : Outcome (List α)} {found : List α}
    (h : run (collectStep lreExec f js) turns ⟨re, []⟩ = some o) (ho : o.result = .ok found) :
    o.re = { re with lastIndex := 0 } := by
  obtain ⟨t, ht, hstop⟩ := Returns.last ⟨turns, h⟩
  have hkeep : t.re = { re with lastIndex := t.re.lastIndex } := by
    apply ht.invariant (fun t => t.re = { re with lastIndex := t.re.lastIndex }) rfl
    rintro t u - ht hu
    rw [collectStep_left hu, ht]
  obtain ⟨n, hre, hn⟩ := @nextMatch_left lreExec js t.re
  rw [collectStep] at hstop
  generalize nextMatch lreExec js t.re = o' at hre hn hstop
  rcases o' with ⟨_, e | _ | m⟩
  · cases hstop
    cases ho
  · cases hstop
    obtain rfl := hn rfl
    rw [hre, hkeep]
  · cases hstop

end Left

section Address

def JsString.movedTo (js : JsString) (a : ℕ) : JsString := { js with addr := a }

lemma jsstringNew_movedTo (a b : ℕ) (str : Bytes) :
    jsstringNew b str = (jsstringNew a str).map fun js => js.movedTo b := by
  simp only [jsstringNew]
  split
  · rcases utf8ToUtf16 str (uint32 str.length) with e | _ | t <;> rfl
  · rfl

inductive SameMatch : Except Failure Match → Except Failure Match → Prop
  | error {e} : SameMatch (.error e) (.error e)
  | ok {m m'} : m'.whole = m.whole → SameMatch (.ok m) (.ok m')

inductive SameReport : Outcome (Option Match) → Outcome (Option Match) → Prop
  | error {re e} : SameReport ⟨re, .error e⟩ ⟨re, .error e⟩
  | none {re} : SameReport ⟨re, .ok none⟩ ⟨re, .ok none⟩
  | some {re m m'} : m'.whole = m.whole → SameReport ⟨re, .ok (some m)⟩ ⟨re, .ok (some m')⟩

variable {js : JsString} {b : ℕ} (ha : 2 ≤ js.addr) (hb : 2 ≤ b)
include ha hb

lemma lookupIndex_movedTo (c : Option ℕ) : lookupIndex (js.movedTo b) c = lookupIndex js c := by
  cases c with
  | none => rw [lookupIndex_none ha, lookupIndex_none (show 2 ≤ (js.movedTo b).addr from hb)]
  | some u => simp only [lookupIndex, captureOffset_some, JsString.movedTo]

lemma reportGroup_movedTo (c₀ c₁ : Option ℕ) :
    (reportGroup (js.movedTo b) c₀ c₁).map GroupReport.str = (reportGroup js c₀ c₁).map GroupReport.str := by
  cases hw : js.isWideChar with
  | true =>
    have hw' : (js.movedTo b).isWideChar = true := hw
    simp only [reportGroup, hw, hw', if_true, lookupIndex_movedTo ha hb]
    rfl
  | false =>
    have hw' : (js.movedTo b).isWideChar = false := hw
    have hp : pushCapture (js.movedTo b) c₀ c₁ = pushCapture js c₀ c₁ := by
      rcases c₀ with _ | s <;> rcases c₁ with _ | e <;> rfl
    simp only [reportGroup, hw, hw', Bool.false_eq_true, if_false, hp]
    cases pushCapture js c₀ c₁ <;> rfl

lemma turns_movedTo {capture : List (Option ℕ)} {i : ℕ} {p r : Option Bytes} {ts : List (Bytes × GroupReport)}
    (h : Turns js capture i p ts r) : ∃ ts', Turns (js.movedTo b) capture i p ts' r ∧
      ts'.map (fun e => e.2.str) = ts.map fun e => e.2.str := by
  induction h with
  | nil => exact ⟨[], .nil, rfl⟩
  | @cons i p key q g ts r hg hn ht ih =>
    obtain ⟨ts', ht', hstr⟩ := ih
    have hmap := reportGroup_movedTo ha hb (slot capture (2 * i)) (slot capture (2 * i + 1))
    rw [hg] at hmap
    cases hg' : reportGroup (js.movedTo b) (slot capture (2 * i)) (slot capture (2 * i + 1)) with
    | error e =>
      rw [hg'] at hmap
      cases hmap
    | ok g' =>
      rw [hg'] at hmap
      exact ⟨(key, g') :: ts', .cons hg' hn ht', by rw [List.map_cons, List.map_cons, hstr, Except.ok.inj hmap]⟩

lemma matchIndex_movedTo (c : Option ℕ) : matchIndex (js.movedTo b) c = matchIndex js c := by
  cases hw : js.isWideChar with
  | true =>
    have hw' : (js.movedTo b).isWideChar = true := hw
    simp only [matchIndex, hw, hw', if_true, lookupIndex_movedTo ha hb]
  | false =>
    have hw' : (js.movedTo b).isWideChar = false := hw
    have ho : (1 + captureOffset (js.movedTo b) c).toNat = (1 + captureOffset js c).toNat := by
      cases c with
      | none =>
        have haddr : (js.movedTo b).addr = b := rfl
        rw [captureOffset_none, captureOffset_none, haddr]
        omega
      | some u => rw [captureOffset_some, captureOffset_some, hw, hw']
    simp only [matchIndex, hw, hw', Bool.false_eq_true, if_false, ho]

lemma buildMatch_movedTo_ok {bc : Bytecode} {capture : List (Option ℕ)} {m : Match}
    (h : buildMatch bc js capture = .ok m) :
    ∃ m', buildMatch bc (js.movedTo b) capture = .ok m' ∧ m'.whole = m.whole := by
  obtain ⟨index, ts, r, hi, hlen, ht, rfl⟩ := buildMatch_ok_iff.mp h
  obtain ⟨ts', ht', hstr⟩ := turns_movedTo ha hb ht
  have hlen' : ts'.length = bc.captureCount := by
    rw [← hlen, ← List.length_map (fun e : Bytes × GroupReport => e.2.str), hstr, List.length_map]
  refine ⟨_, buildMatch_ok_iff.mpr ⟨index, ts', r, ?_, hlen', ht', rfl⟩, ?_⟩
  · rwa [matchIndex_movedTo ha hb]
  · show (ts'.map fun e => e.2.str).getD 0 [] = (ts.map fun e => e.2.str).getD 0 []
    rw [hstr]

lemma buildMatch_movedTo (bc : Bytecode) (capture : List (Option ℕ)) :
    SameMatch (buildMatch bc js capture) (buildMatch bc (js.movedTo b) capture) := by
  cases h : buildMatch bc js capture with
  | ok m =>
    obtain ⟨m', h', hw⟩ := buildMatch_movedTo_ok ha hb h
    rw [h']
    exact .ok hw
  | error e =>
    obtain rfl := buildMatch_error h
    cases h' : buildMatch bc (js.movedTo b) capture with
    | error e =>
      rw [buildMatch_error h']
      exact .error
    | ok m' =>
      obtain ⟨m, hm, -⟩ := buildMatch_movedTo_ok (b := js.addr) (show 2 ≤ (js.movedTo b).addr from hb) ha h'
      cases h.symm.trans hm

variable {lreExec : Engine}

lemma regexpExec_movedTo {re : RegExp} (hl : lreExec.Captures re.bc) :
    SameReport (regexpExec lreExec re js) (regexpExec lreExec re (js.movedTo b)) := by
  by_cases hs : re.Starts js
  · have hs' : re.Starts (js.movedTo b) := hs
    cases hc : re.call lreExec js with
    | undefined =>
      rw [regexpExec_undefined hs hc, regexpExec_undefined hs' hc]
      exact .error
    | memoryError =>
      rw [regexpExec_fails hs (.inl hc), regexpExec_fails hs' (.inl hc)]
      exact .error
    | timeout =>
      rw [regexpExec_fails hs (.inr hc), regexpExec_fails hs' (.inr hc)]
      exact .error
    | noMatch =>
      rw [regexpExec_noMatch hs hc, regexpExec_noMatch hs' hc]
      exact .none
    | matched capture =>
      have hc' : re.call lreExec (js.movedTo b) = .matched capture := hc
      obtain ⟨s, e, h₀, h₁⟩ := (hl.call hc).whole
      have hend : matchEnd (js.movedTo b) (slot capture 1) = matchEnd js (slot capture 1) := by
        rw [h₁, matchEnd, matchEnd, lookupIndex_movedTo ha hb, captureOffset_some, captureOffset_some]
        rfl
      have hbuild := buildMatch_movedTo ha hb re.bc capture
      rw [regexpExec_captured hs hc, regexpExec_captured hs' hc', hend]
      cases (if re.moves then matchEnd js (slot capture 1) else .ok 0) with
      | error e => exact .error
      | ok li =>
        generalize buildMatch re.bc js capture = x at hbuild
        generalize buildMatch re.bc (js.movedTo b) capture = x' at hbuild
        cases hbuild with
        | error => exact .error
        | ok hw => exact .some hw
  · have hm : re.moves = true := by
      by_contra hm
      exact hs (RegExp.starts_of_not_moves (Bool.eq_false_iff.mpr hm))
    have hs' : ¬ re.Starts (js.movedTo b) := hs
    rw [regexpExec_beyond hm hs, regexpExec_beyond hm hs']
    exact .none

lemma nextMatch_movedTo {re : RegExp} (hl : lreExec.Captures re.bc) :
    SameReport (nextMatch lreExec js re) (nextMatch lreExec (js.movedTo b) re) := by
  have h := regexpExec_movedTo ha hb hl
  rw [nextMatch, nextMatch]
  generalize regexpExec lreExec re js = o at h
  generalize regexpExec lreExec re (js.movedTo b) = o' at h
  cases h with
  | error => exact .error
  | none => exact .none
  | @some re' m m' hw =>
    simp only [hw]
    by_cases hz : m.whole.length = 0
    · simp only [hz, if_true]
      cases setLastIndex re' (re'.lastIndexField + 1) with
      | error e => exact .error
      | ok re'' => exact .some hw
    · simp only [hz, if_false]
      exact .some hw

lemma collectStep_movedTo {t : CollectState Bytes} (hl : lreExec.Captures t.re.bc) :
    collectStep lreExec Match.whole js t = collectStep lreExec Match.whole (js.movedTo b) t := by
  have h := nextMatch_movedTo ha hb hl
  rw [collectStep, collectStep]
  generalize nextMatch lreExec js t.re = o at h
  generalize nextMatch lreExec (js.movedTo b) t.re = o' at h
  cases h with
  | error => rfl
  | none => rfl
  | some hw => simp only [hw]

theorem run_collectStep_movedTo {t : CollectState Bytes} (hl : lreExec.Captures t.re.bc) (turns : ℕ) :
    run (collectStep lreExec Match.whole js) turns t =
      run (collectStep lreExec Match.whole (js.movedTo b)) turns t := by
  refine run_eq_of_lockstep (I := fun s => s.re.bc = t.re.bc)
    (fun s hs => collectStep_movedTo ha hb (hs ▸ hl)) (fun s u hs hu => ?_) rfl turns
  rw [collectStep_left hu, hs]

end Address

lemma mtMatch_left {lreExec : Engine} {re : RegExp} {addr turns : ℕ} {str : Bytes} {o : Outcome MatchResult}
    {result : MatchResult} (hg : re.global = true) (h : mtMatch lreExec addr re str turns = some o)
    (ho : o.result = .ok result) : o.re = { re with lastIndex := 0 } := by
  rw [mtMatch] at h
  cases hjs : jsstringNew addr str with
  | error e =>
    rw [hjs] at h
    obtain rfl := Option.some.inj h
    cases ho
  | ok js =>
    simp only [hjs, hg, not_true_eq_false, if_false] at h
    obtain ⟨⟨re', e | found⟩, hrun, rfl⟩ := Option.map_eq_some_iff.mp h
    · cases ho
    · exact collect_left hrun rfl

section Heap

/-- The regexp objects in the order they were made; a Lua variable holds the position of its object. -/
abbrev Heap := List RegExp

structure MatchIterator where
  re2 : ℕ
  jstr : JsString

namespace Heap

variable (lreExec : Engine) (compile : Compiler) (addr : ℕ)

def mtMatch (heap : Heap) (re : ℕ) (str : Bytes) (turns : ℕ) : Option (Heap × Except Failure MatchResult) :=
  match heap[re]? with
  | none => some (heap, .error .undefined)
  | some r => (Jsregexp.mtMatch lreExec addr r str turns).map fun o => (heap.set re o.re, o.result)

def mtMatchAll (heap : Heap) (re : ℕ) (str : Bytes) : Heap × Except Failure MatchIterator :=
  match heap[re]? with
  | none => (heap, .error .undefined)
  | some r =>
    if ¬ r.global then (heap, .error (.raised (bytesOf "match_all must be called with a global RegExp")))
    else
      match compile r.expr (regexpPushflags r) with
      | .error e => (heap, .error e)
      | .ok re2 =>
        match jsstringNew addr str with
        | .error e => (heap ++ [re2], .error e)
        | .ok jstr =>
          match setLastIndex re2 r.lastIndexField with
          | .error e => (heap ++ [re2], .error e)
          | .ok re2 => (heap ++ [re2], .ok ⟨heap.length, jstr⟩)

def iterator (it : MatchIterator) (heap : Heap) : Heap × Except Failure (Option Match) :=
  match heap[it.re2]? with
  | none => (heap, .error .undefined)
  | some r =>
    let o := nextMatch lreExec it.jstr r
    (heap.set it.re2 o.re, o.result)

def listStep (it : MatchIterator) (s : Heap × List Match) : Heap × List Match ⊕ Heap × Except Failure (List Match) :=
  match iterator lreExec it s.1 with
  | (heap, .error e) => .inr (heap, .error e)
  | (heap, .ok none) => .inr (heap, .ok s.2)
  | (heap, .ok (some m)) => .inl (heap, s.2 ++ [m])

def mtMatchAllList (heap : Heap) (re : ℕ) (str : Bytes) (turns : ℕ) : Option (Heap × Except Failure (List Match)) :=
  match mtMatchAll compile addr heap re str with
  | (heap, .error e) => some (heap, .error e)
  | (heap, .ok it) => run (listStep lreExec it) turns (heap, [])

variable {lreExec compile addr} {heap : Heap} {re : ℕ} {str : Bytes} {it : MatchIterator}

lemma mtMatchAll_frame (hre : re < heap.length) (i : ℕ) : (mtMatchAll compile addr heap i str).1[re]? = heap[re]? := by
  have happ (r : RegExp) : (heap ++ [r])[re]? = heap[re]? := List.getElem?_append_left hre
  rw [mtMatchAll]
  repeat' split
  all_goals first | rfl | exact happ _

lemma mtMatchAll_fresh {i : ℕ} (h : (mtMatchAll compile addr heap i str).2 = .ok it) : it.re2 = heap.length := by
  rw [mtMatchAll] at h
  repeat' split at h
  all_goals cases h
  rfl

lemma iterator_frame {i : ℕ} (hi : i ≠ it.re2) : (iterator lreExec it heap).1[i]? = heap[i]? := by
  rw [iterator]
  split
  · rfl
  · exact List.getElem?_set_ne hi.symm

lemma iterator_iterate_frame {i : ℕ} (hi : i ≠ it.re2) (calls : ℕ) :
    ((fun h => (iterator lreExec it h).1)^[calls] heap)[i]? = heap[i]? := by
  induction calls generalizing heap with
  | zero => rfl
  | succ n ih => rw [Function.iterate_succ_apply, ih, iterator_frame hi]

lemma run_listStep (found : List Match) {r : RegExp} (hr : heap[it.re2]? = some r) (turns : ℕ) :
    run (listStep lreExec it) turns (heap, found) =
      (run (collectStep lreExec id it.jstr) turns ⟨r, found⟩).map fun o => (heap.set it.re2 o.re, o.result) := by
  induction turns generalizing heap found r with
  | zero => rfl
  | succ n ih =>
    have hlt : it.re2 < heap.length := (List.getElem?_eq_some_iff.mp hr).1
    simp only [run, listStep, collectStep, iterator, hr]
    rcases nextMatch lreExec it.jstr r with ⟨r', e | _ | m⟩
    · rfl
    · rfl
    · have hset : (heap.set it.re2 r')[it.re2]? = some r' := List.getElem?_set_self hlt
      have := ih (found ++ [m]) hset
      simpa using this

lemma mtMatchAllList_eq {r : RegExp} (hr : heap[re]? = some r) (turns : ℕ) :
    (mtMatchAllList lreExec compile addr heap re str turns).map Prod.snd =
      Jsregexp.mtMatchAllList lreExec compile addr r str turns := by
  rw [mtMatchAllList, mtMatchAll, hr, Jsregexp.mtMatchAllList, Jsregexp.mtMatchAll]
  by_cases hg : r.global
  · simp only [hg, not_true_eq_false, if_false]
    cases compile r.expr (regexpPushflags r) with
    | error e => rfl
    | ok re2 =>
      cases jsstringNew addr str with
      | error e => rfl
      | ok jstr =>
        cases hset : setLastIndex re2 r.lastIndexField with
        | error e => simp only [hset, bind, Except.bind, Option.map_some]
        | ok re2' =>
          have hlast : (heap ++ [re2'])[heap.length]? = some re2' := by simp
          simp only [hset, bind, Except.bind, pure, Except.pure]
          have hrun : run (listStep lreExec ⟨heap.length, jstr⟩) turns (heap ++ [re2'], []) =
              (run (collectStep lreExec id jstr) turns ⟨re2', []⟩).map fun o =>
                ((heap ++ [re2']).set heap.length o.re, o.result) := run_listStep [] hlast turns
          rw [hrun, Option.map_map]
          rfl
  · simp only [hg, Bool.false_eq_true, not_false_eq_true, if_true, Option.map_some]

lemma listStep_frame (lreExec : Engine) {i : ℕ} (hi : i ≠ it.re2) (s : Heap × List Match) :
    (Sum.elim Prod.fst Prod.fst (listStep lreExec it s))[i]? = s.1[i]? := by
  have hframe : (iterator lreExec it s.1).1[i]? = s.1[i]? := iterator_frame hi
  rw [listStep]
  generalize iterator lreExec it s.1 = p at hframe
  rcases p with ⟨heap', e | _ | m⟩ <;> exact hframe

lemma mtMatchAllList_frame {turns : ℕ} {p : Heap × Except Failure (List Match)} (hre : re < heap.length) {i : ℕ}
    (h : mtMatchAllList lreExec compile addr heap i str turns = some p) : p.1[re]? = heap[re]? := by
  have hframe : (mtMatchAll compile addr heap i str).1[re]? = heap[re]? := mtMatchAll_frame hre i
  have hfresh (it : MatchIterator) : (mtMatchAll compile addr heap i str).2 = .ok it → it.re2 = heap.length :=
    mtMatchAll_fresh
  rw [mtMatchAllList] at h
  generalize mtMatchAll compile addr heap i str = q at hframe hfresh h
  rcases q with ⟨heap', e | it⟩
  · rw [← Option.some.inj h]
    exact hframe
  · have hne : re ≠ it.re2 := by
      rw [hfresh it rfl]
      exact hre.ne
    obtain ⟨s, hs, hstop⟩ := Returns.last ⟨turns, h⟩
    have hkeep : s.1[re]? = heap'[re]? := by
      apply hs.invariant (fun s => s.1[re]? = heap'[re]?) rfl
      rintro t u - ht hu
      have hturn := listStep_frame lreExec hne t
      rw [hu] at hturn
      exact hturn.trans ht
    have hturn := listStep_frame lreExec hne s
    rw [hstop] at hturn
    exact hturn.trans (hkeep.trans hframe)

end Heap

end Heap

end Jsregexp
