import Jsregexp.EngineMatches
import Jsregexp.ExecUnset
import Jsregexp.JsStringRepresents

namespace Jsregexp

namespace RegExp

def context (re : RegExp) (js : JsString) : REExecContext :=
  .start re.bc js.units js.len (if js.isWideChar then 1 else 0)

def found (U : Libunicode) (t : RegexpTree) (re : RegExp) (js : JsString) : Option MatchState :=
  if re.Starts js then t.firstMatch U (re.context js) allPrecautions re.sticky (re.startIndex js) else none

end RegExp

structure ReportsMatch (U : Libunicode) (re : RegExp) (str : Bytes) (js : JsString) (σ : MatchState) (m : Match) :
    Prop where
  whole : ∃ a b, σ.capture 0 = some a ∧ σ.capture 1 = some b ∧ m.index = js.byteAt a + 1 ∧
    m.whole = stringSub str (js.byteAt a + 1) (js.byteAt b) ∧
    (regexpExec U.lreExec re js).re = { re with lastIndex := if re.moves then js.byteAt b else 0 }
  group : ∀ i < re.bc.captureCount, ∀ a b, σ.capture (2 * i) = some a → σ.capture (2 * i + 1) = some b →
    m.captures[i]? = some (stringSub str (js.byteAt a + 1) (js.byteAt b))
  unset : ∀ i < re.bc.captureCount, σ.capture (2 * i) = none → m.captures[i]? = some []

section Exec

variable {U : Libunicode} {buf : Bytes} {reFlags addr : ℕ} {str : Bytes} {js : JsString} {re : RegExp}

lemma context_insidePair {p : ℕ} (h : (re.context js).InsidePair p) : js.InsidePair p := by
  obtain ⟨hpos, hlt, htype, hlo, hhi⟩ := h
  refine ⟨?_, hpos, hlt, hhi, hlo⟩
  by_contra hnarrow
  simp [RegExp.context, REExecContext.start, hnarrow] at htype

variable (hjs : jsstringNew addr str = .ok js) (hz : 0 ∉ str) (hvalid : ValidUtf8 str)
variable (hlen : js.len <<< (if js.isWideChar then 1 else 0) ≤ int32Max)
variable (hroom : re.bc.lreGetAllocCount ≤ captureSlots) (hv : reFlags &&& lreFlagUnicodeSets = 0)
variable (hc : lreCompile U buf reFlags = .ok re.bc)
include hjs hz hvalid hlen hroom hv hc

omit hv in
lemma call_eq {t : RegexpTree} (ht : Parses U buf reFlags t) (hdir : t.Directed false) (hs : re.Starts js) :
    re.call U.lreExec js = matchResult re.bc.captureCount (re.found U t js) := by
  have hint : js.len < 2 ^ 31 := by
    have h := le_shifted hlen
    rw [int32Max] at h
    omega
  have hbetween : ¬ (re.context js).InsidePair (re.startIndex js) := fun h =>
    jsstringNew_startsBetween hjs hvalid (fun hx => absurd hx hz) re hs (context_insidePair h)
  have hflag : re.sticky = decide (reFlags &&& lreFlagSticky ≠ 0) := by
    rw [RegExp.sticky, Bytecode.hasFlag, lreCompile_flag_bits hc (by decide)]
    by_cases h : reFlags &&& lreFlagSticky = 0 <;> simp [h]
  rw [call_admitted hs ⟨hint, hroom⟩, lreExec_eq hc ht hdir hs hlen, ← RegExp.context, startPosition_eq _ hbetween,
    RegExp.found, if_pos hs, hflag]

omit hvalid hlen hroom in
lemma reportsMatch (ha : 2 ≤ addr) {σ : MatchState} {m : Match}
    (hcall : re.call U.lreExec js = matchResult re.bc.captureCount (some σ))
    (hm : (regexpExec U.lreExec re js).result = .ok (some m)) : ReportsMatch U re str js σ m := by
  have hwf := jsstringNew_wellFormed hjs fun hx => absurd hx hz
  have haddr : 2 ≤ js.addr := (jsstringNew_addr hjs).1.symm ▸ ha
  have hs := (call_of_some hm).1
  have hmatched := lreExec_matched hv hc (lreExec_of_call hcall)
  have hbuild := buildMatch_of_some hm hcall
  have hcap := hmatched.captured
  have hreport := (buildMatch_iff hwf (fun _ => haddr) hmatched.count_pos hcap).mp ⟨m, hbuild⟩
  have hslot {k : ℕ} (hk : k < 2 * re.bc.captureCount) :
      slot ((List.range (2 * re.bc.captureCount)).map σ.capture) k = σ.capture k := slot_matched.trans (if_pos hk)
  have hpos := hmatched.count_pos
  refine ⟨?_, fun i hi a b h₀ h₁ => ?_, fun i hi h₀ => ?_⟩
  · obtain ⟨a, b, h₀, h₁, -, hb⟩ := hcap.span hpos
    obtain ⟨hindex, -, hwhole⟩ := buildMatch_whole hjs hz hpos hbuild hcap h₀ h₁
    refine ⟨a, b, (hslot (by omega)).symm.trans h₀, (hslot (by omega)).symm.trans h₁, hindex, hwhole, ?_⟩
    rw [regexpExec_matched hwf hs hcall h₁ hb]
  · exact (buildMatch_stringSub hjs hz hbuild hcap hi ((hslot (by omega)).trans h₀) ((hslot (by omega)).trans h₁)).2.2
  · have h₀ := (hslot (show 2 * i < 2 * re.bc.captureCount by omega)).trans h₀
    have h₁ : slot ((List.range (2 * re.bc.captureCount)).map σ.capture) (2 * i + 1) = none := by
      rcases hcap.group i hi with ⟨-, h₁⟩ | ⟨a, b, ha, -⟩
      · exact h₁
      · cases h₀.symm.trans ha
    exact buildMatch_unset (hreport.unset i hi h₀) hbuild hi h₀ h₁

end Exec

def starRe : RegExp := ⟨bytesOf "(a)*b", starBytecode, 0⟩

def caabString : JsString := ⟨false, 4, bytesOf "caab", 4, [], [], [0x63, 0x61, 0x61, 0x62], 16⟩

def caabMatch : Match := ⟨bytesOf "caab", 2, 2, [bytesOf "aab", bytesOf "a"], none, none⟩

lemma exec_caab : regexpExec asciiTables.lreExec starRe caabString = ⟨starRe, .ok (some caabMatch)⟩ := by
  have hs : starRe.Starts caabString := RegExp.starts_of_not_moves (by decide)
  have hrun : LreExec asciiTables starBytecode [0x63, 0x61, 0x61, 0x62] 0 4 0
      (.ok (.matched [some 1, some 4, some 2, some 3])) := ⟨30, by rfl⟩
  have hcall : starRe.call asciiTables.lreExec caabString = .matched [some 1, some 4, some 2, some 3] := by
    rw [call_admitted hs ⟨by decide, by decide⟩]
    exact lreExec_of_run (by decide) starBytecode_compiled (by decide) (by decide) hrun
  rw [regexpExec_captured hs hcall]
  rfl

end Jsregexp
