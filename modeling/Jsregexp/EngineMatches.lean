import Jsregexp.Compile
import Jsregexp.ExecWidth
import Jsregexp.SplitSeparators
import Jsregexp.Libregexp.FirstMatch
import Jsregexp.Libregexp.Reading

namespace Jsregexp

open Library.Iteration

structure MatchState.Spans (σ : MatchState) (s : REExecContext) (p : ℕ) : Prop where
  start : σ.capture 0 = some p
  paired : ∀ j, σ.Paired j
  inside : ∀ k q, σ.capture k = some q → q ≤ s.cbufEnd
  outside : ∀ k q, σ.capture k = some q → ¬ s.InsidePair q

section Spans

variable {U : Libunicode} {s : REExecContext} {need : Precautions} {t : RegexpTree} {isBackwardDir : Bool} {p q : ℕ}
variable {σ : MatchState}

lemma attempt_spans (ht : t.Directed false) (hp : p ≤ s.cbufEnd) (hout : ¬ s.InsidePair p)
    (h : t.attempt U s need p = some σ) : σ.Spans s p := by
  have hmem : σ ∈ (RegexpTree.capture false t).results U s need 0 ⟨p, fun _ => none⟩ := List.mem_of_mem_head? h
  have hdir : (RegexpTree.capture false t).Directed false := .capture ht
  have hinside := hdir.results_on U (keptByReading_inside s) need ⟨hp, fun _ _ h => by cases h⟩ hmem
  have houtside := hdir.results_on U (keptByReading_outside s) need ⟨hout, fun _ _ h => by cases h⟩ hmem
  refine ⟨?_, fun j => hdir.results_paired U need hp (.inl ⟨rfl, rfl⟩) hmem, hinside.capture, houtside.capture⟩
  obtain ⟨υ, hυ, rfl⟩ := List.mem_map.mp hmem
  have hframe : υ.capture 0 = some p := ht.results_frame U s need (by omega) hυ
  exact (save_of_ne (by decide)).trans hframe

lemma searchPositions_kept {P : ℕ → Prop} (hP : KeptByReading s P) {n : ℕ} (hp : P p)
    (hq : q ∈ searchPositions s n p) : P q := by
  induction n generalizing p with
  | zero => exact List.mem_singleton.mp hq ▸ hp
  | succ n ih =>
    rcases List.mem_cons.mp hq with rfl | hq
    · exact hp
    · split at hq
      · next hlt => exact ih (hP.next p hp hlt) hq
      · cases hq

lemma firstMatch_spans (ht : t.Directed false) (hp : p ≤ s.cbufEnd) (hout : ¬ s.InsidePair p) {isSticky : Bool}
    (h : t.firstMatch U s need isSticky p = some σ) : ∃ q, p ≤ q ∧ (isSticky = true → q = p) ∧ σ.Spans s q := by
  rw [RegexpTree.firstMatch] at h
  split at h
  · exact ⟨p, le_rfl, fun _ => rfl, attempt_spans ht hp hout h⟩
  · next hsticky =>
    obtain ⟨q, hq, h⟩ := List.exists_of_findSome?_eq_some h
    have hbounds := mem_searchPositions hp hq
    exact ⟨q, hbounds.1, fun h => absurd h hsticky,
      attempt_spans ht hbounds.2 (searchPositions_kept (keptByReading_outside s) hout hq) h⟩

end Spans

section Compiled

variable {U : Libunicode} {buf : Bytes} {reFlags : ℕ} {bc : Bytecode}

lemma lreExec_found {t : RegexpTree} (hc : lreCompile U buf reFlags = .ok bc) (ht : Parses U buf reFlags t)
    (hdir : t.Directed false) {cbuf : List ℕ} {cindex clen cbufType : ℕ} (hcindex : cindex ≤ clen)
    (hclen : clen <<< cbufType ≤ int32Max) (r : Except Failure LreResult) :
    LreExec U bc cbuf cindex clen cbufType r ↔ r = .ok (matchResult bc.captureCount
      (t.firstMatch U (.start bc cbuf clen cbufType) allPrecautions (decide (reFlags &&& lreFlagSticky ≠ 0))
        (startPosition (.start bc cbuf clen cbufType) cindex))) := by
  have hfirst : LreExec U bc cbuf cindex clen cbufType (.ok _) := lreExec_firstMatch hc ht hdir hcindex hclen
  have hstart : startPosition (.start bc cbuf clen cbufType) cindex ≤ clen := (startPosition_le _ cindex).trans hcindex
  rw [firstMatch_precautions U hdir hstart] at hfirst
  constructor
  · intro h
    rw [LreExec, if_pos hclen] at h hfirst
    exact returns_unique h hfirst
  · rintro rfl
    exact hfirst

lemma exists_parsed (hv : reFlags &&& lreFlagUnicodeSets = 0) (hc : lreCompile U buf reFlags = .ok bc) :
    ∃ t, Parses U buf reFlags t ∧ t.Directed false := by
  obtain ⟨r, hr, -⟩ := except_bind_ok_iff.mp hc
  obtain ⟨t, ht, hdir⟩ := exists_parses hr
  exact ⟨t, ht, hdir hv⟩

def starBytecode : Bytecode where
  flags := 0
  captureCount := 2
  registerCount := 0
  code := searchLoop false ++ [.saveStart 0, .saveReset 1 1, .split true 12, .saveStart 1, .char false 0x61, .saveEnd 1,
    .goto (-17), .char false 0x62, .saveEnd 0, .matched]
  groupNames := []

lemma starBytecode_compiled : lreCompile asciiTables (bytesOf "(a)*b") 0 = .ok starBytecode := by decide +kernel

def starBody : RegexpTree := .capture false (.atom [.char false 0x61] (slotFree_single ⟨rfl, rfl⟩))

lemma starBody_directed : starBody.Directed false := .capture (.atom (slotFree_single ⟨rfl, rfl⟩) (.char trivial))

def starContext : REExecContext := .start starBytecode [0x61, 0x61, 0x62] 3 0

variable {s : REExecContext} {t : RegexpTree} {isBackwardDir : Bool} {i : ℕ} {σ τ : MatchState}

theorem results_cautious {need need' : Precautions} (hneed : Cautious need) (hneed' : Cautious need')
    (h : t.Directed isBackwardDir) (hσ : σ.cptr ≤ s.cbufEnd) (hunset : σ.Unset i t.groups) :
    t.results U s need i σ = t.results U s need' i σ := by
  rw [results_precautions U hneed h hσ hunset, results_precautions U hneed' h hσ hunset]

theorem results_cautious_star :
    (RegexpTree.repeated starBody 0 int32Max true).results asciiTables starContext neededPrecautions 1
        ⟨0, fun _ => none⟩ =
      (RegexpTree.repeated starBody 0 int32Max true).results asciiTables starContext allPrecautions 1
        ⟨0, fun _ => none⟩ :=
  results_cautious neededPrecautions_cautious allPrecautions_cautious
    (.repeated starBody_directed (Nat.zero_le _) le_rfl) (Nat.zero_le _) fun _ _ _ => rfl

theorem unchecked_leaves {need : Precautions} (h : t.Directed isBackwardDir) (hstay : t.mayStay i = false)
    (hσ : σ.cptr ≤ s.cbufEnd) (hτ : τ ∈ t.results U s need i σ) : τ.cptr ≠ σ.cptr :=
  (h.advances U s need hstay hτ).ne hσ

theorem unchecked_leaves_star : ∃ τ ∈ starBody.results asciiTables starContext neededPrecautions 1 ⟨1, fun _ => none⟩,
    τ.cptr ≠ 1 := by
  obtain ⟨τ, hτ⟩ : ∃ τ, τ ∈ starBody.results asciiTables starContext neededPrecautions 1 ⟨1, fun _ => none⟩ :=
    ⟨_, List.mem_cons_self⟩
  exact ⟨τ, hτ, unchecked_leaves starBody_directed (by decide) (by decide) hτ⟩

lemma lreCompile_flag_bits (hc : lreCompile U buf reFlags = .ok bc) {flag : ℕ}
    (hflag : flag &&& lreFlagNamedGroups = 0) :
    bc.flags &&& flag = reFlags &&& flag := by
  rcases lreCompile_flags hc with hf | hf
  · rw [hf]
  · rw [hf, Nat.and_or_distrib_right, Nat.and_comm lreFlagNamedGroups, hflag, Nat.or_zero]

structure MatchedFrom (bc : Bytecode) (cbuf : List ℕ) (cindex clen cbufType : ℕ) (capture : List (Option ℕ)) :
    Prop where
  captured : Captured clen bc.captureCount capture
  length : capture.length = 2 * bc.captureCount
  forward : ∀ p, slot capture 0 = some p → startPosition (.start bc cbuf clen cbufType) cindex ≤ p
  sticky : bc.hasFlag lreFlagSticky = true → slot capture 0 = some (startPosition (.start bc cbuf clen cbufType) cindex)
  between : ∀ k p, slot capture k = some p → ¬ (REExecContext.start bc cbuf clen cbufType).InsidePair p

lemma slot_matched {n k : ℕ} {capture : ℕ → Option ℕ} :
    slot ((List.range n).map capture) k = if k < n then capture k else none := by
  rw [slot]
  split
  · next hk =>
    rw [List.getD_eq_getElem _ _ (by simpa using hk)]
    simp
  · next hk => exact List.getD_eq_default _ _ (by simpa using hk)

lemma MatchState.Spans.matched {σ : MatchState} {cbuf : List ℕ} {cindex clen cbufType p : ℕ} {bc : Bytecode}
    (h : σ.Spans (.start bc cbuf clen cbufType) p) (hcount : 0 < bc.captureCount)
    (hp : startPosition (.start bc cbuf clen cbufType) cindex ≤ p)
    (hsticky : bc.hasFlag lreFlagSticky = true → p = startPosition (.start bc cbuf clen cbufType) cindex) :
    MatchedFrom bc cbuf cindex clen cbufType ((List.range (2 * bc.captureCount)).map σ.capture) := by
  have hslot {k q : ℕ} (hk : slot ((List.range (2 * bc.captureCount)).map σ.capture) k = some q) :
      σ.capture k = some q := by
    rw [slot_matched] at hk
    split at hk
    · exact hk
    · cases hk
  have hlt {k : ℕ} (hk : k < 2 * bc.captureCount) :
      slot ((List.range (2 * bc.captureCount)).map σ.capture) k = σ.capture k := slot_matched.trans (if_pos hk)
  have hstart : slot ((List.range (2 * bc.captureCount)).map σ.capture) 0 = some p := (hlt (by omega)).trans h.start
  refine ⟨⟨?_, fun i hi => ?_⟩, by simp, fun q hq => ?_, fun h => ?_, fun k q hq => h.outside k q (hslot hq)⟩
  · rcases h.paired 0 with ⟨hnone, -⟩ | ⟨a, b, h₀, h₁, -⟩
    · cases hnone.symm.trans h.start
    · exact ⟨a, b, (hlt (by omega)).trans h₀, (hlt (by omega)).trans h₁⟩
  · rcases h.paired i with ⟨h₀, h₁⟩ | ⟨a, b, h₀, h₁, hle⟩
    · exact .inl ⟨(hlt (by omega)).trans h₀, (hlt (by omega)).trans h₁⟩
    · exact .inr ⟨a, b, (hlt (by omega)).trans h₀, (hlt (by omega)).trans h₁, hle, h.inside _ _ h₁⟩
  · obtain rfl := Option.some.inj (hstart.symm.trans hq)
    exact hp
  · rw [hstart, hsticky h]

lemma lreExec_matchedFrom (hv : reFlags &&& lreFlagUnicodeSets = 0) (hc : lreCompile U buf reFlags = .ok bc)
    {cbuf : List ℕ} {cindex clen cbufType : ℕ} (hcindex : cindex ≤ clen) (hclen : clen <<< cbufType ≤ int32Max) :
    ∃ r, LreExec U bc cbuf cindex clen cbufType (.ok r) ∧
      (r = .noMatch ∨ ∃ capture, r = .matched capture ∧ MatchedFrom bc cbuf cindex clen cbufType capture) := by
  obtain ⟨t, ht, hdir⟩ := exists_parsed hv hc
  refine ⟨_, (lreExec_found hc ht hdir hcindex hclen _).mpr rfl, ?_⟩
  cases ho : t.firstMatch U (.start bc cbuf clen cbufType) allPrecautions (decide (reFlags &&& lreFlagSticky ≠ 0))
      (startPosition (.start bc cbuf clen cbufType) cindex) with
  | none => exact .inl rfl
  | some σ =>
    have hcount : bc.captureCount = 1 + t.groups := (lreCompile_counted hc ht).captures
    obtain ⟨q, hq, hsticky, hspans⟩ := firstMatch_spans hdir ((startPosition_le _ cindex).trans hcindex)
      (startPosition_outside _ cindex) ho
    refine .inr ⟨_, rfl, hspans.matched (by omega) hq fun hflag => hsticky ?_⟩
    rw [Bytecode.hasFlag, lreCompile_flag_bits hc (by decide)] at hflag
    simpa using hflag

end Compiled

section Engine

open Classical in
/-- `lre_exec` as a function of its arguments, undefined where `cindex <= clen` fails and where the interpreter returns
nothing. -/
noncomputable def Libunicode.lreExec (U : Libunicode) : Engine := fun bc cbuf cindex clen cbufType =>
  if h : cindex ≤ clen ∧ ∃ r, LreExec U bc cbuf cindex clen cbufType (.ok r) then h.2.choose else .undefined

variable {U : Libunicode} {buf : Bytes} {reFlags : ℕ} {bc : Bytecode}
variable {cbuf : List ℕ} {cindex clen cbufType : ℕ} {capture : List (Option ℕ)}

lemma lreExec_long (hlong : ¬ clen <<< cbufType ≤ int32Max) : U.lreExec bc cbuf cindex clen cbufType = .undefined := by
  rw [Libunicode.lreExec, dif_neg]
  rintro ⟨-, r, hr⟩
  rw [LreExec, if_neg hlong] at hr
  cases hr

lemma lreExec_eq {t : RegexpTree} (hc : lreCompile U buf reFlags = .ok bc) (ht : Parses U buf reFlags t)
    (hdir : t.Directed false) (hcindex : cindex ≤ clen) (hclen : clen <<< cbufType ≤ int32Max) :
    U.lreExec bc cbuf cindex clen cbufType = matchResult bc.captureCount
      (t.firstMatch U (.start bc cbuf clen cbufType) allPrecautions (decide (reFlags &&& lreFlagSticky ≠ 0))
        (startPosition (.start bc cbuf clen cbufType) cindex)) := by
  have hex : ∃ r, LreExec U bc cbuf cindex clen cbufType (.ok r) :=
    ⟨_, (lreExec_found hc ht hdir hcindex hclen _).mpr rfl⟩
  rw [Libunicode.lreExec, dif_pos ⟨hcindex, hex⟩]
  exact Except.ok.inj ((lreExec_found hc ht hdir hcindex hclen _).mp hex.choose_spec)

lemma lreExec_of_run (hv : reFlags &&& lreFlagUnicodeSets = 0) (hc : lreCompile U buf reFlags = .ok bc)
    (hcindex : cindex ≤ clen) (hclen : clen <<< cbufType ≤ int32Max) {r : LreResult}
    (h : LreExec U bc cbuf cindex clen cbufType (.ok r)) : U.lreExec bc cbuf cindex clen cbufType = r := by
  obtain ⟨t, ht, hdir⟩ := exists_parsed hv hc
  rw [lreExec_eq hc ht hdir hcindex hclen]
  exact (Except.ok.inj ((lreExec_found hc ht hdir hcindex hclen _).mp h)).symm

lemma fits_of_matched (h : U.lreExec bc cbuf cindex clen cbufType = .matched capture) :
    cindex ≤ clen ∧ clen <<< cbufType ≤ int32Max := by
  constructor
  · by_contra hlt
    rw [Libunicode.lreExec, dif_neg fun h => hlt h.1] at h
    cases h
  · by_contra hlong
    cases (lreExec_long hlong).symm.trans h

variable (hv : reFlags &&& lreFlagUnicodeSets = 0) (hc : lreCompile U buf reFlags = .ok bc)
include hv hc

lemma lreExec_matched (h : U.lreExec bc cbuf cindex clen cbufType = .matched capture) :
    MatchedFrom bc cbuf cindex clen cbufType capture := by
  obtain ⟨hcindex, hclen⟩ := fits_of_matched h
  obtain ⟨t, ht, hdir⟩ := exists_parsed hv hc
  obtain ⟨r, hr, hfound⟩ : ∃ r, LreExec U bc cbuf cindex clen cbufType (.ok r) ∧ _ :=
    lreExec_matchedFrom hv hc hcindex hclen
  obtain rfl := Except.ok.inj ((lreExec_found hc ht hdir hcindex hclen _).mp hr)
  rw [← lreExec_eq hc ht hdir hcindex hclen, h] at hfound
  rcases hfound with hnone | ⟨capture', hsome, hmatched⟩
  · cases hnone
  · rwa [LreResult.matched.inj hsome]

omit hv hc in
lemma MatchedFrom.count_pos (h : MatchedFrom bc cbuf cindex clen cbufType capture) : 0 < bc.captureCount := by
  obtain ⟨p, -, hp, -⟩ := h.captured.whole
  by_contra hcount
  have hnil : capture = [] := List.length_eq_zero_iff.mp (h.length.trans (by omega))
  rw [hnil] at hp
  cases hp

lemma lreExec_widthFree : U.lreExec.WidthFree bc where
  same cbuf cindex clen hcbuf hlen := by
    by_cases hcindex : cindex ≤ clen
    · obtain ⟨t, ht, hdir⟩ := exists_parsed hv hc
      have hstart (cbufType : ℕ) : startPosition (.start bc cbuf clen cbufType) cindex = cindex :=
        startPosition_eq _ (outside_of_bytes hcbuf cindex)
      have hfits : clen <<< 0 ≤ int32Max ∧ clen <<< 1 ≤ int32Max := by
        rw [Nat.shiftLeft_eq, Nat.shiftLeft_eq, int32Max]
        omega
      rw [lreExec_eq hc ht hdir hcindex hfits.1, lreExec_eq hc ht hdir hcindex hfits.2, hstart, hstart,
        (sameReading_width hcbuf bc clen 0 1).firstMatch]
    · rw [Libunicode.lreExec, Libunicode.lreExec, dif_neg fun h => hcindex h.1, dif_neg fun h => hcindex h.1]
  long cbuf cindex clen hlen := by
    apply lreExec_long
    rw [Nat.shiftLeft_eq, int32Max]
    omega

omit hv hc in
lemma between_of_not_betweenHalves (h : ¬ BetweenHalves cbuf cindex clen cbufType) :
    ¬ (REExecContext.start bc cbuf clen cbufType).InsidePair cindex := by
  rintro ⟨hpos, hlt, htype, hlo, hhi⟩
  refine h ⟨?_, hpos, hlt, hhi, hlo⟩
  rintro rfl
  simp [REExecContext.start] at htype

/-- On the code of a pattern without `v` the interpreter does what is assumed of the engine: `regexp_exec` is given real
spans, from where it asks for a match on, and the same for each width of the code units; it always returns. -/
theorem lreExec_contract : U.lreExec.Captures bc ∧ U.lreExec.Forward bc ∧ U.lreExec.WidthFree bc ∧
    (bc.hasFlag lreFlagSticky = true → U.lreExec.Sticky bc) ∧
    ∀ cbuf cindex clen cbufType, cindex ≤ clen → clen <<< cbufType ≤ int32Max →
      LreExec U bc cbuf cindex clen cbufType (.ok (U.lreExec bc cbuf cindex clen cbufType)) := by
  refine ⟨?_, ?_, lreExec_widthFree hv hc, fun hsticky => ?_, ?_⟩
  · intro cbuf cindex clen cbufType capture h
    exact (lreExec_matched hv hc h).captured
  · intro cbuf cindex clen cbufType capture hbetween h p hp
    have hforward := (lreExec_matched hv hc h).forward p hp
    rwa [startPosition_eq _ (between_of_not_betweenHalves hbetween)] at hforward
  · intro cbuf cindex clen cbufType capture hbetween h
    rw [(lreExec_matched hv hc h).sticky hsticky, startPosition_eq _ (between_of_not_betweenHalves hbetween)]
  · intro cbuf cindex clen cbufType hcindex hclen
    obtain ⟨t, ht, hdir⟩ := exists_parsed hv hc
    rw [lreExec_eq hc ht hdir hcindex hclen]
    exact (lreExec_found hc ht hdir hcindex hclen _).mpr rfl

omit hv hc in
theorem lreExec_contract_star : asciiTables.lreExec.Captures starBytecode ∧ asciiTables.lreExec.Forward starBytecode ∧
    asciiTables.lreExec.WidthFree starBytecode ∧
    asciiTables.lreExec starBytecode [0x63, 0x61, 0x61, 0x62] 0 4 0 = .matched [some 1, some 4, some 2, some 3] := by
  obtain ⟨hcaptures, hforward, hwidth, -, -⟩ := lreExec_contract (by decide) starBytecode_compiled
  have hrun : LreExec asciiTables starBytecode [0x63, 0x61, 0x61, 0x62] 0 4 0
      (.ok (.matched [some 1, some 4, some 2, some 3])) := ⟨30, by rfl⟩
  exact ⟨hcaptures, hforward, hwidth,
    lreExec_of_run (by decide) starBytecode_compiled (by decide) (by decide) hrun⟩

theorem unicode_matchesBetweenChars {re : RegExp} (hre : re.bc = bc)
    (hu : bc.hasFlag (lreFlagUnicode ||| lreFlagUnicodeSets) = true) (js : JsString) :
    MatchesBetweenChars U.lreExec js re := by
  subst hre
  have hbetween {i k q : ℕ} {capture : List (Option ℕ)}
      (h : { re with lastIndex := i }.call U.lreExec js = .matched capture) (hq : slot capture k = some q) :
      ¬ js.InsidePair q := by
    rintro ⟨hwide, hpos, hlt, hhi, hlo⟩
    have hcall := lreExec_of_call h
    apply (lreExec_matched hv hc hcall).between k q hq
    refine ⟨hpos, hlt, ?_, hlo, hhi⟩
    simp [REExecContext.start, hwide, hu]
  intro i capture s e h hs he
  exact ⟨hbetween h hs, hbetween h he⟩

omit hv hc in
theorem unicode_matchesBetweenChars_star :
    lreCompile asciiTables (bytesOf "(a)*b") lreFlagUnicode = .ok { starBytecode with flags := lreFlagUnicode } ∧
      MatchesBetweenChars asciiTables.lreExec clefString
        ⟨bytesOf "(a)*b", { starBytecode with flags := lreFlagUnicode }, 0⟩ := by
  have hc : lreCompile asciiTables (bytesOf "(a)*b") lreFlagUnicode =
    .ok { starBytecode with flags := lreFlagUnicode } := by decide +kernel
  exact ⟨hc, unicode_matchesBetweenChars (by decide) hc rfl (by decide) clefString⟩

end Engine

end Jsregexp
