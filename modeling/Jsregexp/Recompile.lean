import Jsregexp.Iterators
import Jsregexp.PatternGuard

namespace Jsregexp

open Library.Iteration

section Flags

lemma flagBit_letter : ∀ l ∈ flagLetters, flagBit (byteOf l.2) = 2 ^ l.1 := by decide

lemma exists_letter : ∀ i < 9, ∃ l ∈ flagLetters, l.1 = i := by decide

lemma readFlags_lt {n : ℕ} (hn : n < 2 ^ 9) (flags : Bytes) : readFlags n flags < 2 ^ 9 := by
  induction flags generalizing n with
  | nil => exact hn
  | cons b flags ih =>
    apply ih
    apply Nat.or_lt_two_pow hn
    rw [flagBit]
    split_ifs <;> decide

lemma readFlags_pushflags {r : RegExp} {n : ℕ} (hn : ∀ i, n.testBit i = true → r.bc.flags.testBit i = true)
    (hlt : r.bc.flags < 2 ^ 9) : readFlags n (regexpPushflags r) = r.bc.flags := by
  apply Nat.eq_of_testBit_eq
  intro i
  rw [testBit_readFlags, Bool.eq_iff_iff, Bool.or_eq_true, List.any_eq_true, regexpPushflags_eq]
  constructor
  · rintro (hi | ⟨b, hb, hi⟩)
    · exact hn i hi
    · obtain ⟨l, hl, hb⟩ := List.mem_flatMap.mp hb
      split at hb
      · next hset =>
        rw [List.mem_singleton.mp hb, flagBit_letter l hl, Nat.testBit_two_pow, decide_eq_true_eq] at hi
        exact hi ▸ hset
      · cases hb
  · intro hi
    have hlt9 : i < 9 := by
      by_contra hge
      rw [Nat.testBit_lt_two_pow (hlt.trans_le (Nat.pow_le_pow_right (by decide) (Nat.le_of_not_lt hge)))] at hi
      cases hi
    obtain ⟨l, hl, rfl⟩ := exists_letter i hlt9
    refine .inr ⟨byteOf l.2, List.mem_flatMap.mpr ⟨l, hl, ?_⟩, ?_⟩
    · rw [if_pos hi]
      exact List.mem_singleton_self _
    · rw [flagBit_letter l hl, Nat.testBit_two_pow_self]

end Flags

section Header

variable {U : Libunicode} {buf : Bytes} {reFlags : ℕ} {bc : Bytecode}

lemma start_named (buf : Bytes) (reFlags : ℕ) :
    REParseState.start buf (reFlags ||| lreFlagNamedGroups) = REParseState.start buf reFlags := by
  have hbit (flag : ℕ) (h : lreFlagNamedGroups &&& flag = 0) :
      (reFlags ||| lreFlagNamedGroups) &&& flag = reFlags &&& flag := by
    rw [Nat.and_or_distrib_right, h, Nat.or_zero]
  simp only [REParseState.start,
    hbit _ (show lreFlagNamedGroups &&& (lreFlagUnicode ||| lreFlagUnicodeSets) = 0 by decide),
    hbit _ (show lreFlagNamedGroups &&& lreFlagUnicodeSets = 0 by decide),
    hbit _ (show lreFlagNamedGroups &&& lreFlagIgnorecase = 0 by decide),
    hbit _ (show lreFlagNamedGroups &&& lreFlagMultiline = 0 by decide),
    hbit _ (show lreFlagNamedGroups &&& lreFlagDotall = 0 by decide)]

lemma lreParse_named (buf : Bytes) (reFlags : ℕ) :
    lreParse U buf (reFlags ||| lreFlagNamedGroups) = lreParse U buf reFlags := by
  rw [lreParse, lreParse, start_named]

lemma lreCompile_header (h : lreCompile U buf reFlags = .ok bc) : lreCompile U buf bc.flags = .ok bc := by
  rcases lreCompile_flags h with hf | hf
  · rwa [hf]
  · rw [hf]
    obtain ⟨code, s, st, hp, hfits, hst, hbc⟩ := lreCompile_ok_iff.mp h
    have hsticky : (reFlags ||| lreFlagNamedGroups) &&& lreFlagSticky = reFlags &&& lreFlagSticky := by
      rw [Nat.and_or_distrib_right, show lreFlagNamedGroups &&& lreFlagSticky = 0 by decide, Nat.or_zero]
    have hwhole : wholeCode (reFlags ||| lreFlagNamedGroups) code = wholeCode reFlags code := by
      rw [wholeCode, wholeCode, hsticky]
    refine lreCompile_ok_iff.mpr ⟨code, s, st, by rwa [lreParse_named], by rwa [hwhole], by rwa [hwhole], ?_⟩
    rw [hwhole]
    have hflags := congrArg Bytecode.flags hbc
    rw [hf] at hflags
    rw [hbc]
    simp only [compiledBuffer] at hflags ⊢
    rw [← hflags, Nat.or_assoc, Nat.or_self, ite_self]

end Header

section Source

variable {U : Libunicode} {regexp flags : Bytes} {re : RegExp}

lemma testBit_of_letter (h : jsregexpCompile U regexp flags = .ok re) {b : UInt8} {i : ℕ} (hb : b ∈ cString flags)
    (hi : (flagBit b).testBit i = true) : re.bc.flags.testBit i = true := by
  have hset : (readFlags (implicitFlags (cString regexp)) (cString flags)).testBit i = true := by
    rw [testBit_readFlags, Bool.or_eq_true, List.any_eq_true]
    exact .inr ⟨b, hb, hi⟩
  rcases lreCompile_flags (jsregexpCompile_ok_iff.mp h).2.2.2 with hf | hf
  · rwa [hf]
  · rw [hf, Nat.testBit_or, hset, Bool.true_or]

theorem jsregexpCompile_sound (U : Libunicode) : (jsregexpCompile U).Sound where
  defined expr flags := jsregexpCompile_defined U expr flags
  fresh expr flags re h := by
    obtain ⟨code, s, gs, -, -, hnames⟩ := jsregexpCompile_names U expr flags h
    exact ⟨(jsregexpCompile_ok_iff.mp h).2.2.1, hnames.count ▸ Nat.succ_pos _⟩
  global expr flags re h hg := by
    rw [RegExp.global, lreFlagGlobal, Bytecode.hasFlag_two_pow]
    exact testBit_of_letter h hg (by decide)
  sticky expr flags re h hy := by
    rw [RegExp.sticky, lreFlagSticky, Bytecode.hasFlag_two_pow]
    exact testBit_of_letter h hy (by decide)

lemma implicitFlags_le (regexp : Bytes) : implicitFlags regexp < 2 ^ 9 := by
  rw [implicitFlags]
  split <;> decide

lemma jsregexpCompile_source (h : jsregexpCompile U regexp flags = .ok re) :
    jsregexpCompile U re.expr (regexpPushflags re) = .ok re := by
  obtain ⟨hfd, hexpr, hli, hc⟩ := jsregexpCompile_ok_iff.mp h
  have hstr : cString re.expr = re.expr := by rw [hexpr, cString_eq_self (zero_notMem_cString regexp)]
  have hlt := readFlags_lt (implicitFlags_le (cString regexp)) (cString flags)
  have hread : readFlags (implicitFlags re.expr) (regexpPushflags re) = re.bc.flags := by
    apply readFlags_pushflags
    · intro i hi
      have hset : (readFlags (implicitFlags (cString regexp)) (cString flags)).testBit i = true := by
        rw [testBit_readFlags, ← hexpr, hi, Bool.true_or]
      rcases lreCompile_flags hc with hf | hf
      · rwa [hf]
      · rw [hf, Nat.testBit_or, hset, Bool.true_or]
    · rcases lreCompile_flags hc with hf | hf
      · rwa [hf]
      · rw [hf]
        exact Nat.or_lt_two_pow hlt (by decide)
  rw [jsregexpCompile_ok_iff, hstr, cString_eq_self (zero_notMem_pushflags re), hread, hexpr]
  exact ⟨hfd, rfl, hli, lreCompile_header hc⟩

end Source

section Agree

variable {U : Libunicode} {lreExec : Engine} {regexp flags str : Bytes} {r₀ : RegExp} {addr addr' : ℕ}

lemma table_whole (x : Except Failure (List Match)) :
    (x.map fun found => MatchResult.table (if found = [] then none else some (found.map Match.whole))) =
      (x.map (List.map Match.whole)).map fun l => .table (if l = [] then none else some l) := by
  cases x with
  | error e => rfl
  | ok found => simp [Except.map]

lemma match_agrees (hl : lreExec.Captures r₀.bc) (h : jsregexpCompile U regexp flags = .ok r₀) (hg : r₀.global = true)
    (ha : 2 ≤ addr) (ha' : 2 ≤ addr') (turns : ℕ) :
    (mtMatch lreExec addr r₀ str turns).map Outcome.result =
      (mtMatchAllList lreExec (jsregexpCompile U) addr' r₀ str turns).map
        (Except.map fun found => .table (if found = [] then none else some (found.map Match.whole))) := by
  have hfresh : r₀.lastIndex = 0 := (jsregexpCompile_ok_iff.mp h).2.2.1
  have hc := jsregexpCompile_source h
  have hmove := jsstringNew_movedTo addr addr' str
  cases hjs : jsstringNew addr str with
  | error e =>
    rw [hjs] at hmove
    have hall : mtMatchAll (jsregexpCompile U) addr' r₀ str = .error e := by
      simp [mtMatchAll, hg, hc, hmove, Except.map, bind, Except.bind]
    rw [mtMatch, hjs, mtMatchAllList, hall]
    rfl
  | ok js =>
    rw [hjs] at hmove
    have haddr : 2 ≤ js.addr := (jsstringNew_addr hjs).1 ▸ ha
    have hrun := run_collectStep Match.whole lreExec js turns r₀ []
    have hrun' := run_collectStep Match.whole lreExec (js.movedTo addr') turns r₀ []
    have hcap : lreExec.Captures (⟨r₀, [].map Match.whole⟩ : CollectState Bytes).re.bc := hl
    rw [← run_collectStep_movedTo haddr ha' hcap, hrun] at hrun'
    rw [mtMatch_eq hjs hg hfresh, mtMatchAllList_eq hmove hg hfresh hc hfresh]
    have hres := congrArg
      (Option.map fun o => o.result.map fun l => MatchResult.table (if l = [] then none else some l)) hrun'
    simpa only [Option.map_map, Function.comp_def, table_whole] using hres

theorem match_all_agrees (hl : lreExec.Captures r₀.bc) (h : jsregexpCompile U regexp flags = .ok r₀)
    (hg : r₀.global = true)
    (ha : 2 ≤ addr) (ha' : 2 ≤ addr') {heap : Heap} {re n : ℕ} (hre : heap[re]? = some { r₀ with lastIndex := n }) :
    jsregexpCompile U r₀.expr (regexpPushflags { r₀ with lastIndex := n }) = .ok r₀ ∧
      (n = 0 → ∀ turns, (Heap.mtMatch lreExec addr heap re str turns).map Prod.snd =
        (Heap.mtMatchAllList lreExec (jsregexpCompile U) addr' heap re str turns).map fun p => p.2.map fun found =>
          .table (if found = [] then none else some (found.map Match.whole))) ∧
      (∀ heap' it, Heap.mtMatchAll (jsregexpCompile U) addr' heap re str = (heap', .ok it) → ∀ calls,
        ((fun h => (Heap.iterator lreExec it h).1)^[calls] heap')[re]? = heap[re]?) ∧
      (∀ turns p, Heap.mtMatchAllList lreExec (jsregexpCompile U) addr' heap re str turns = some p →
        p.1[re]? = heap[re]?) ∧
      ∀ turns heap' result, Heap.mtMatch lreExec addr heap re str turns = some (heap', .ok result) →
        heap'[re]? = some { r₀ with lastIndex := 0 } := by
  have hlt : re < heap.length := (List.getElem?_eq_some_iff.mp hre).1
  have hmatch (turns : ℕ) : Heap.mtMatch lreExec addr heap re str turns =
      (mtMatch lreExec addr { r₀ with lastIndex := n } str turns).map fun o => (heap.set re o.re, o.result) := by
    rw [Heap.mtMatch, hre]
  refine ⟨jsregexpCompile_source h, ?_, ?_, ?_, ?_⟩
  · rintro rfl turns
    have hr : { r₀ with lastIndex := 0 } = r₀ := by rw [← (jsregexpCompile_ok_iff.mp h).2.2.1]
    have hlist : (Heap.mtMatchAllList lreExec (jsregexpCompile U) addr' heap re str turns).map Prod.snd =
        mtMatchAllList lreExec (jsregexpCompile U) addr' { r₀ with lastIndex := 0 } str turns :=
      Heap.mtMatchAllList_eq hre turns
    rw [hr] at hlist hmatch
    rw [hmatch, Option.map_map]
    refine (match_agrees hl h hg ha ha' turns).trans ?_
    rw [← hlist, Option.map_map]
    rfl
  · intro heap' it hall calls
    have hframe : (Heap.mtMatchAll (jsregexpCompile U) addr' heap re str).1[re]? = heap[re]? :=
      Heap.mtMatchAll_frame hlt re
    have hfresh : it.re2 = heap.length := Heap.mtMatchAll_fresh (by rw [hall])
    rw [hall] at hframe
    rw [Heap.iterator_iterate_frame (by omega), hframe]
  · intro turns p hp
    exact Heap.mtMatchAllList_frame hlt hp
  · intro turns heap' result hp
    rw [hmatch] at hp
    obtain ⟨o, ho, hpair⟩ := Option.map_eq_some_iff.mp hp
    obtain ⟨rfl, hres⟩ := Prod.mk.inj hpair
    have hleft := mtMatch_left (show ({ r₀ with lastIndex := n } : RegExp).global = true from hg) ho hres
    rw [hleft]
    exact List.getElem?_set_self hlt

end Agree

lemma compile_dot : jsregexpCompile asciiTables (bytesOf ".") (bytesOf "g") = .ok (dotRe 0) := by rfl

theorem match_all_agrees_dot :
    (Heap.mtMatchAllList dotExec (jsregexpCompile asciiTables) 32 [dotRe 0] 0 (bytesOf "ab") 3).map Prod.snd =
        some (.ok [⟨bytesOf "ab", 1, 1, [bytesOf "a"], none, none⟩, matchB]) ∧
      (Heap.mtMatch dotExec 16 [dotRe 0] 0 (bytesOf "ab") 3).map Prod.snd =
        some (.ok (.table (some [bytesOf "a", bytesOf "b"]))) := by
  refine ⟨by rfl, ?_⟩
  have ha : 2 ≤ 16 ∧ 2 ≤ 32 := by decide
  have hre : [dotRe 0][0]? = some { dotRe 0 with lastIndex := 0 } := rfl
  exact ((match_all_agrees (dotExec_captures _) compile_dot rfl ha.1 ha.2 hre).2.1 rfl 3).trans rfl

end Jsregexp
