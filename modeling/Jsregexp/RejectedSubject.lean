import Jsregexp.Split

namespace Jsregexp

open Library.Iteration

variable (lreExec : Engine) (compile : Compiler) (addr : ℕ) (re : RegExp) (str : Bytes)

def mtExec : Outcome (Option Match) :=
  match jsstringNew addr str with
  | .error e => ⟨re, .error e⟩
  | .ok input => regexpExec lreExec re input

def mtTest : Outcome Bool :=
  let o := mtExec lreExec addr re str
  ⟨o.re, o.result.map Option.isSome⟩

inductive Method (σ : Type)
  | mtExec
  | mtTest
  | mtMatch
  | mtMatchAll
  | mtMatchAllList
  | mtSearch
  | mtSplit (limit : Option LuaNumber)
  | mtReplace (replacement : Replacement σ) (fn : σ)
  | mtReplaceAll (replacement : Replacement σ) (fn : σ)

def Outcome.forget {α : Type} (o : Outcome α) : Outcome Unit := ⟨o.re, o.result.map fun _ => ()⟩

/-- What is left of the regexp object after a call, and the error it raises. `match_all`,
`match_all_list` and `split` work on a copy of the object. -/
def Method.call {σ : Type} (turns : ℕ) : Method σ → Option (Outcome Unit)
  | .mtExec => some (Jsregexp.mtExec lreExec addr re str).forget
  | .mtTest => some (Jsregexp.mtTest lreExec addr re str).forget
  | .mtMatch => (Jsregexp.mtMatch lreExec addr re str turns).map Outcome.forget
  | .mtMatchAll => some ⟨re, (Jsregexp.mtMatchAll compile addr re str).map fun _ => ()⟩
  | .mtMatchAllList => (Jsregexp.mtMatchAllList lreExec compile addr re str turns).map fun r =>
    ⟨re, r.map fun _ => ()⟩
  | .mtSearch => some (Jsregexp.mtSearch lreExec addr re str).forget
  | .mtSplit limit => (Jsregexp.mtSplit lreExec compile addr re str limit turns).map fun r =>
    ⟨re, r.map fun _ => ()⟩
  | .mtReplace replacement fn => (Jsregexp.mtReplace lreExec addr re str replacement fn turns).map Outcome.forget
  | .mtReplaceAll replacement fn =>
    (Jsregexp.mtReplaceAll lreExec addr re str replacement fn turns).map Outcome.forget

def Method.Converts {σ : Type} : Method σ → Prop
  | .mtSplit limit => limit ≠ some (.finite 0)
  | _ => True

/-- A rejected subject makes every call raise, with `last_index` as it was; and `search` leaves
`last_index` as it was however it ends. -/
structure KeepsLastIndex : Prop where
  rejected : ∀ {σ : Type} (method : Method σ) turns, method.Converts →
    jsstringNew addr str = .error (.raised (bytesOf "malformed unicode")) →
      ∃ re' msg, method.call lreExec compile addr re str turns = some ⟨re', .error (.raised msg)⟩ ∧
        re'.lastIndex = re.lastIndex
  search : (mtSearch lreExec addr re str).result ≠ .error .undefined ∧
    (mtSearch lreExec addr re str).re.lastIndex = re.lastIndex

/-- `search` on a converted subject can put `last_index` back: the engine may be called and does not fail unless there
is nothing to put back, and the setter takes the old value. -/
inductive SearchRestores (js : JsString) : Prop
  | fails : { re with lastIndex := 0 }.call lreExec js = .memoryError ∨
      { re with lastIndex := 0 }.call lreExec js = .timeout → re.lastIndex = 0 → SearchRestores js
  | noMatch : { re with lastIndex := 0 }.call lreExec js = .noMatch → re.lastIndex + 1 < 2 ^ 31 →
      SearchRestores js
  | matched {capture m li} : { re with lastIndex := 0 }.call lreExec js = .matched capture →
      buildMatch re.bc js capture = .ok m →
      (if re.moves then matchEnd js (slot capture 1) else .ok 0) = .ok li →
      re.lastIndex + 1 < 2 ^ 31 ∨ re.lastIndex + 1 = 2 ^ 32 ∧ li = re.lastIndex → SearchRestores js

variable {lreExec compile addr re str}

lemma Method.call_rejected {σ : Type} {method : Method σ} {turns : ℕ} (hm : method.Converts)
    (hs : method ≠ .mtSearch) (hc : compile re.expr (regexpPushflags re) ≠ .error .undefined)
    (hjs : jsstringNew addr str = .error (.raised (bytesOf "malformed unicode"))) :
    ∃ msg, method.call lreExec compile addr re str turns = some ⟨re, .error (.raised msg)⟩ := by
  have hall : ∃ msg, Jsregexp.mtMatchAll compile addr re str = .error (.raised msg) := by
    rw [Jsregexp.mtMatchAll]
    split
    · exact ⟨_, rfl⟩
    · cases hcomp : compile re.expr (regexpPushflags re) with
      | ok re2 => exact ⟨_, by rw [hjs]; rfl⟩
      | error e =>
        cases e with
        | undefined => exact absurd hcomp hc
        | raised msg => exact ⟨msg, rfl⟩
  cases method with
  | mtExec => exact ⟨_, by rw [call, Jsregexp.mtExec, hjs]; rfl⟩
  | mtTest => exact ⟨_, by rw [call, Jsregexp.mtTest, Jsregexp.mtExec, hjs]; rfl⟩
  | mtMatch => exact ⟨_, by rw [call, Jsregexp.mtMatch, hjs]; rfl⟩
  | mtMatchAll =>
    obtain ⟨msg, hmsg⟩ := hall
    exact ⟨msg, by rw [call, hmsg]; rfl⟩
  | mtMatchAllList =>
    obtain ⟨msg, hmsg⟩ := hall
    exact ⟨msg, by rw [call, Jsregexp.mtMatchAllList, hmsg]; rfl⟩
  | mtSearch => exact absurd rfl hs
  | mtSplit limit =>
    have hzero : limit.getD .huge ≠ .finite 0 := by
      cases limit with
      | none => simp
      | some l => exact fun h => hm (congrArg some h)
    rw [call, Jsregexp.mtSplit, if_neg hzero]
    split
    · exact ⟨_, rfl⟩
    · exact ⟨_, by rw [hjs]; rfl⟩
  | mtReplace replacement fn =>
    cases hg : re.global with
    | true => exact ⟨_, by rw [call, Jsregexp.mtReplace, Jsregexp.mtReplaceAll, hg, hjs]; rfl⟩
    | false => exact ⟨_, by rw [call, Jsregexp.mtReplace, hg, hjs]; rfl⟩
  | mtReplaceAll replacement fn =>
    cases hg : re.global with
    | true => exact ⟨_, by rw [call, Jsregexp.mtReplaceAll, hg, hjs]; rfl⟩
    | false => exact ⟨_, by rw [call, Jsregexp.mtReplaceAll, hg]; rfl⟩

lemma starts_front {js : JsString} : ({ re with lastIndex := 0 } : RegExp).Starts js := by
  rw [RegExp.Starts, RegExp.startIndex]
  split <;> simp [translateIndex]

lemma setLastIndex_field (r : RegExp) (hlast : re.lastIndex < 2 ^ 32) :
    setLastIndex r re.lastIndexField =
      if re.lastIndex + 1 < 2 ^ 31 then .ok { r with lastIndex := re.lastIndex }
      else if re.lastIndex + 1 = 2 ^ 32 then .error (.raised (bytesOf "last_index must be positive"))
      else .error .undefined := by
  rw [RegExp.lastIndexField, uint32]
  by_cases hlt : re.lastIndex + 1 < 2 ^ 31
  · rw [if_pos hlt, Nat.mod_eq_of_lt (by omega), Nat.cast_add, Nat.cast_one, setLastIndex_ok hlt]
  rw [if_neg hlt]
  by_cases hwrap : re.lastIndex + 1 = 2 ^ 32
  · rw [if_pos hwrap, hwrap, Nat.mod_self, setLastIndex, if_neg (by norm_num), if_neg (by norm_num)]
  · rw [if_neg hwrap, Nat.mod_eq_of_lt (by omega), Nat.cast_add, Nat.cast_one, setLastIndex_undefined (by omega)]

section Search

variable {js : JsString} (hjs : jsstringNew addr str = .ok js)
include hjs

lemma mtSearch_error {re' : RegExp} {e : Failure}
    (hexec : regexpExec lreExec { re with lastIndex := 0 } js = ⟨re', .error e⟩) :
    mtSearch lreExec addr re str = ⟨re', .error e⟩ := by
  simp only [mtSearch, hjs, hexec]

lemma search_ok_iff (hlast : re.lastIndex < 2 ^ 32) {re' : RegExp} {result : Option Match}
    (hexec : regexpExec lreExec { re with lastIndex := 0 } js = ⟨re', .ok result⟩) :
    ((mtSearch lreExec addr re str).result ≠ .error .undefined ∧
      (mtSearch lreExec addr re str).re.lastIndex = re.lastIndex) ↔
      re.lastIndex + 1 < 2 ^ 31 ∨ re.lastIndex + 1 = 2 ^ 32 ∧ re'.lastIndex = re.lastIndex := by
  have hset := setLastIndex_field re' hlast
  by_cases hlt : re.lastIndex + 1 < 2 ^ 31
  · rw [if_pos hlt] at hset
    simp only [mtSearch, hjs, hexec, hset]
    exact iff_of_true ⟨by simp, trivial⟩ (.inl hlt)
  by_cases hwrap : re.lastIndex + 1 = 2 ^ 32
  · rw [if_neg hlt, if_pos hwrap] at hset
    simp only [mtSearch, hjs, hexec, hset]
    exact ⟨fun h => .inr ⟨hwrap, h.2⟩, fun h => ⟨by simp, (h.resolve_left hlt).2⟩⟩
  · rw [if_neg hlt, if_neg hwrap] at hset
    simp only [mtSearch, hjs, hexec, hset]
    exact iff_of_false (fun h => h.1 rfl) fun h => hwrap (h.resolve_left hlt).1

lemma search_converted_iff (hlast : re.lastIndex < 2 ^ 32) :
    ((mtSearch lreExec addr re str).result ≠ .error .undefined ∧
      (mtSearch lreExec addr re str).re.lastIndex = re.lastIndex) ↔ SearchRestores lreExec re js := by
  have hs : ({ re with lastIndex := 0 } : RegExp).Starts js := starts_front
  have hfails (hc : ({ re with lastIndex := 0 } : RegExp).call lreExec js = .memoryError ∨
      ({ re with lastIndex := 0 } : RegExp).call lreExec js = .timeout) :
      ((mtSearch lreExec addr re str).result ≠ .error .undefined ∧
        (mtSearch lreExec addr re str).re.lastIndex = re.lastIndex) ↔ SearchRestores lreExec re js := by
    rw [mtSearch_error hjs (regexpExec_fails hs hc)]
    constructor
    · rintro ⟨-, hli⟩
      exact .fails hc (by simpa using hli.symm)
    · intro hr
      cases hr with
      | fails _ hz => exact ⟨by simp, by simp [hz]⟩
      | noMatch hn => rcases hc with hc | hc <;> cases hc.symm.trans hn
      | matched hn => rcases hc with hc | hc <;> cases hc.symm.trans hn
  cases hc : ({ re with lastIndex := 0 } : RegExp).call lreExec js with
  | undefined =>
    refine iff_of_false (fun h => h.1 ?_) fun hr => ?_
    · rw [mtSearch_error hjs (regexpExec_undefined hs hc)]
    · cases hr with
      | fails hn => rcases hn with hn | hn <;> cases hc.symm.trans hn
      | noMatch hn => cases hc.symm.trans hn
      | matched hn => cases hc.symm.trans hn
  | memoryError => exact hfails (.inl hc)
  | timeout => exact hfails (.inr hc)
  | noMatch =>
    rw [search_ok_iff hjs hlast (regexpExec_noMatch hs hc)]
    constructor
    · rintro (hlt | ⟨hwrap, hz⟩)
      · exact .noMatch hc hlt
      · have hz' : 0 = re.lastIndex := hz
        omega
    · intro hr
      cases hr with
      | fails hn => rcases hn with hn | hn <;> cases hc.symm.trans hn
      | noMatch _ hlt => exact .inl hlt
      | matched hn => cases hc.symm.trans hn
  | matched capture =>
    have hexec := regexpExec_captured hs hc
    have hundef {re' : RegExp} (he : regexpExec lreExec { re with lastIndex := 0 } js = ⟨re', .error .undefined⟩)
        (h : (mtSearch lreExec addr re str).result ≠ .error .undefined) : False :=
      h (by rw [mtSearch_error hjs he])
    have hmoves : ({ re with lastIndex := 0 } : RegExp).moves = re.moves := rfl
    rw [hmoves] at hexec
    constructor
    · rintro ⟨hdef, hli⟩
      cases hend : (if re.moves then matchEnd js (slot capture 1) else .ok 0 : Except Failure ℕ) with
      | error e =>
        have he : e = .undefined := by
          split at hend
          · exact matchEnd_error hend
          · cases hend
        rw [hend, he] at hexec
        exact (hundef hexec hdef).elim
      | ok li =>
        rw [hend] at hexec
        cases hb : buildMatch re.bc js capture with
        | error e =>
          rw [hb, buildMatch_error hb] at hexec
          exact (hundef hexec hdef).elim
        | ok m =>
          rw [hb] at hexec
          exact .matched hc hb hend ((search_ok_iff hjs hlast hexec).mp ⟨hdef, hli⟩)
    · intro hr
      cases hr with
      | fails hn => rcases hn with hn | hn <;> cases hc.symm.trans hn
      | noMatch hn => cases hc.symm.trans hn
      | @matched capture' m li hc' hb hend hli =>
        obtain rfl := LreResult.matched.inj (hc.symm.trans hc')
        rw [hend, hb] at hexec
        exact (search_ok_iff hjs hlast hexec).mpr hli

end Search

def SearchKeeps (lreExec : Engine) (addr : ℕ) (re : RegExp) (str : Bytes) : Prop :=
  jsstringNew addr str = .error (.raised (bytesOf "malformed unicode")) ∧ re.lastIndex = 0 ∨
    ∃ js, jsstringNew addr str = .ok js ∧ SearchRestores lreExec re js

lemma mtSearch_rejected {e : Failure} (hjs : jsstringNew addr str = .error e) :
    mtSearch lreExec addr re str = ⟨{ re with lastIndex := 0 }, .error e⟩ := by
  simp only [mtSearch, hjs]

theorem keeps_last_index_iff (hlast : re.lastIndex < 2 ^ 32)
    (hc : compile re.expr (regexpPushflags re) ≠ .error .undefined) :
    KeepsLastIndex lreExec compile addr re str ↔ SearchKeeps lreExec addr re str := by
  constructor
  · rintro ⟨-, hdef, hli⟩
    cases hjs : jsstringNew addr str with
    | ok js => exact .inr ⟨js, hjs, (search_converted_iff hjs hlast).mp ⟨hdef, hli⟩⟩
    | error e =>
      rw [mtSearch_rejected hjs] at hdef hli
      rcases jsstringNew_error hjs with rfl | rfl
      · exact absurd rfl hdef
      · exact .inl ⟨hjs, hli.symm⟩
  · intro hk
    constructor
    · intro σ method turns hm hjs
      by_cases hs : method = .mtSearch
      · obtain ⟨-, hz⟩ : jsstringNew addr str = _ ∧ re.lastIndex = 0 := hk.resolve_right fun ⟨js, hok, _⟩ => by
          cases hjs.symm.trans hok
        subst hs
        refine ⟨_, _, by rw [Method.call, mtSearch_rejected hjs]; rfl, hz.symm⟩
      · obtain ⟨msg, hcall⟩ := Method.call_rejected hm hs hc hjs
        exact ⟨re, msg, hcall, rfl⟩
    · rcases hk with ⟨hjs, hz⟩ | ⟨js, hjs, hr⟩
      · rw [mtSearch_rejected hjs]
        exact ⟨by simp, hz.symm⟩
      · exact (search_converted_iff hjs hlast).mpr hr

theorem keeps_last_index_dot :
    KeepsLastIndex dotExec (plainCompile [.dot]) 16 (dotRe 1) (bytesOf "ab") := by
  refine (keeps_last_index_iff (by decide) ((plainCompile_sound _).defined _ _)).mpr (.inr ⟨abText, abText_eq, ?_⟩)
  have hc : { dotRe 1 with lastIndex := 0 }.call dotExec abText = .matched [some 0, some 1] := by rfl
  have hb : buildMatch (dotRe 1).bc abText [some 0, some 1] =
    .ok ⟨bytesOf "ab", 1, 1, [bytesOf "a"], none, none⟩ := by rfl
  have hli : (if (dotRe 1).moves then matchEnd abText (slot [some 0, some 1] 1) else .ok 0) = .ok 1 := by rfl
  exact .matched hc hb hli (.inl (by decide))

theorem search_malformed_resets :
    jsstringNew 16 [0xff] = .error (.raised (bytesOf "malformed unicode")) ∧
      (mtSearch dotExec 16 (dotRe 1) [0xff]).re.lastIndex = 0 ∧
      ¬ KeepsLastIndex dotExec (plainCompile [.dot]) 16 (dotRe 1) [0xff] := by
  have hjs : jsstringNew 16 [0xff] = .error (.raised (bytesOf "malformed unicode")) := by rfl
  refine ⟨hjs, by rfl, fun h => ?_⟩
  obtain ⟨re', msg, hcall, hli⟩ := h.rejected (.mtSearch : Method Unit) 0 trivial hjs
  have hzero : (Method.call dotExec (plainCompile [.dot]) 16 (dotRe 1) [0xff] 0 (.mtSearch : Method Unit)) =
    some ⟨dotRe 0, .error (.raised (bytesOf "malformed unicode"))⟩ := by rfl
  rw [hzero] at hcall
  obtain rfl : dotRe 0 = re' := congrArg Outcome.re (Option.some.inj hcall)
  cases hli

end Jsregexp
