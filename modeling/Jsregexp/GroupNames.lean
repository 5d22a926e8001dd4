import Jsregexp.Recompile

namespace Jsregexp

section Read

def readNames : ℕ → Bytes → Except Failure Bytes
  | 0, p => .ok p
  | n + 1, p => do
    let (_, q) ← readGroupName p
    readNames n q

lemma readNames_ok_iff {n : ℕ} {p : Bytes} : (∃ q, readNames n p = .ok q) ↔ n ≤ p.count 0 := by
  induction n generalizing p with
  | zero => simp [readNames]
  | succ n ih =>
    simp only [readNames, except_bind_ok_iff]
    constructor
    · rintro ⟨q, ⟨key, p'⟩, hr, hq⟩
      have hcount := readGroupName_count hr
      have hle : n ≤ p'.count 0 := ih.mp ⟨q, hq⟩
      omega
    · intro h
      obtain ⟨key, p', hr, hcount⟩ := readGroupName_ok (p := p) (by omega)
      obtain ⟨q, hq⟩ := ih.mpr (show n ≤ p'.count 0 by omega)
      exact ⟨q, (key, p'), hr, hq⟩

lemma Turns.readNames {js : JsString} {capture : List (Option ℕ)} {i : ℕ} {p : Bytes} {r : Option Bytes}
    {ts : List (Bytes × GroupReport)} (h : Turns js capture (i + 1) (some p) ts r) :
    ∃ q, Jsregexp.readNames ts.length p = .ok q ∧ r = some q := by
  generalize hj : i + 1 = j at h
  generalize ho : some p = o at h
  induction h generalizing i p with
  | nil => exact ⟨p, rfl, ho.symm⟩
  | @cons j o key o' g ts r hg hn ht ih =>
    subst hj ho
    cases hn with
    | @group _ _ _ p' hr =>
      obtain ⟨q, hq, hrq⟩ := ih rfl rfl
      exact ⟨q, except_bind_ok_iff.mpr ⟨(key, p'), hr, hq⟩, hrq⟩

lemma nameTable_count {gs : List (Bytes × UInt8)} : gs.length ≤ (nameTable gs).count 0 := by
  induction gs with
  | nil => rfl
  | cons g gs ih =>
    rw [nameTable_cons, List.count_append, List.count_cons_self, List.count_cons, List.length_cons]
    omega

end Read

section Named

variable (U : Libunicode) (regexp flags : Bytes)

def HasNamedGroup : Prop :=
  ∃ code s, lreParse U (cString regexp) (readFlags (implicitFlags (cString regexp)) (cString flags)) = .ok (code, s) ∧
    ∃ g ∈ s.groups, g.1 ≠ []

def NamesAppended : Prop :=
  ∀ code s, lreParse U (cString regexp) (readFlags (implicitFlags (cString regexp)) (cString flags)) = .ok (code, s) →
    namesFit (wholeCode (readFlags (implicitFlags (cString regexp)) (cString flags)) code) s.groupNames = true

/-- `exec` builds the groups of a match when the pattern has a named group, and reads names inside the buffer. -/
structure NamesReported (re : RegExp) : Prop where
  present : ∀ lreExec : Engine, lreExec.Captures re.bc → ∀ n js re' m,
    regexpExec lreExec { re with lastIndex := n } js = ⟨re', .ok (some m)⟩ →
      (m.groups.isSome = true ↔ HasNamedGroup U regexp flags)
  inside : ∀ p, re.bc.lreGetGroupnames = some p → ∃ q, readNames (re.bc.captureCount - 1) p = .ok q

variable {U regexp flags} {re : RegExp}

lemma hasNamedGroup_iff {code : List Op} {s : REParseState} {gs : List (Bytes × UInt8)}
    (hp : lreParse U (cString regexp) (readFlags (implicitFlags (cString regexp)) (cString flags)) = .ok (code, s))
    (hgs : HasGroups s gs) : HasNamedGroup U regexp flags ↔ ∃ g ∈ gs, g.1 ≠ [] := by
  constructor
  · rintro ⟨code', s', hp', g, hg, hne⟩
    obtain ⟨rfl, rfl⟩ := Prod.mk.inj (Except.ok.inj (hp.symm.trans hp'))
    rw [hgs.groups_eq] at hg
    obtain ⟨g', hg', rfl⟩ := List.mem_map.mp hg
    exact ⟨g', hg', hne⟩
  · rintro ⟨g, hg, hne⟩
    refine ⟨code, s, hp, (g.1, g.2.toNat), ?_, hne⟩
    rw [hgs.groups_eq]
    exact List.mem_map_of_mem hg

lemma testBit_n (b : UInt8) : (flagBit b).testBit 7 = true ↔ b = byteOf 'n' := by
  have hall : ∀ n < 256, ((flagBit (UInt8.ofNat n)).testBit 7 = true ↔ UInt8.ofNat n = byteOf 'n') := by
    decide +kernel
  have hb := hall b.toNat b.toNat_lt
  rwa [UInt8.ofNat_toNat] at hb

lemma named_bit (h : jsregexpCompile U regexp flags = .ok re) :
    re.bc.lreGetGroupnames.isSome = true ↔ byteOf 'n' ∈ cString flags ∨ HasNamedGroup U regexp flags := by
  obtain ⟨code, s, gs, hp, hgs, hnames⟩ := jsregexpCompile_names U regexp flags h
  have hbit : (readFlags (implicitFlags (cString regexp)) (cString flags)).testBit 7 = true ↔
      byteOf 'n' ∈ cString flags := by
    have himplicit : (implicitFlags (cString regexp)).testBit 7 = false := by
      rw [implicitFlags]
      split <;> rfl
    rw [testBit_readFlags, himplicit, Bool.false_or, List.any_eq_true]
    simp only [testBit_n, exists_eq_right]
  have hsome : re.bc.lreGetGroupnames.isSome = re.bc.flags.testBit 7 := by
    rw [Bytecode.lreGetGroupnames, lreFlagNamedGroups, Bytecode.hasFlag_two_pow]
    cases re.bc.flags.testBit 7 <;> rfl
  rw [hsome, hasNamedGroup_iff hp hgs, ← hbit]
  by_cases hn : ∃ g ∈ gs, g.1 ≠ []
  · rw [(hnames.named hn).1, Nat.testBit_or]
    have hset : lreFlagNamedGroups.testBit 7 = true := by decide
    exact iff_of_true (by rw [hset, Bool.or_true]) (.inr hn)
  · rw [(hnames.unnamed hn).1]
    exact ⟨.inl, fun h => h.resolve_right hn⟩

lemma groups_isSome {bc : Bytecode} {js : JsString} {capture : List (Option ℕ)} {m : Match}
    (h : buildMatch bc js capture = .ok m) : m.groups.isSome = bc.lreGetGroupnames.isSome := by
  obtain ⟨index, ts, r, -, -, -, rfl⟩ := buildMatch_ok_iff.mp h
  rw [matchOf]
  cases bc.lreGetGroupnames <;> rfl

lemma emptyExec_captures (bc : Bytecode) : emptyExec.Captures bc := by
  intro cbuf cindex clen cbufType capture h
  rw [emptyExec] at h
  split at h
  · next hc =>
    obtain rfl := LreResult.matched.inj h
    rw [hc.1]
    refine ⟨⟨cindex, cindex, rfl, rfl⟩, fun i hi => ?_⟩
    obtain rfl : i = 0 := by omega
    exact .inr ⟨cindex, cindex, rfl, rfl, le_rfl, hc.2⟩
  · cases h

def emptyString : JsString := ⟨false, 0, [], 0, [], [], [], 16⟩

lemma exec_empty {r : RegExp} (hcount : r.bc.captureCount = 1) (hregs : r.bc.registerCount ≤ registerCountMax)
    (htable : r.bc.lreGetGroupnames = some [])
    (hfresh : r.lastIndex = 0) : ∃ re' m, regexpExec emptyExec r emptyString = ⟨re', .ok (some m)⟩ ∧
      m.groups.isSome = true := by
  have hstart : r.startIndex emptyString = 0 := by
    rw [RegExp.startIndex, hfresh]
    split <;> rfl
  have hs : r.Starts emptyString := by
    rw [RegExp.Starts, hstart]
    exact Nat.zero_le _
  have hc : r.call emptyExec emptyString = .matched [some 0, some 0] := by
    have halloc : r.bc.lreGetAllocCount ≤ captureSlots := by
      rw [Bytecode.lreGetAllocCount, hcount]
      exact (Nat.add_le_add_left hregs _).trans (by decide)
    rw [call_admitted hs ⟨by decide, halloc⟩, hstart, emptyExec, if_pos ⟨hcount, Nat.zero_le _⟩]
  have hb : buildMatch r.bc emptyString [some 0, some 0] = .ok (matchOf r.bc emptyString 1 [([], ⟨0, 0, []⟩)]) := by
    refine buildMatch_ok_iff.mpr ⟨1, [([], ⟨0, 0, []⟩)], some [], rfl, hcount.symm, ?_, rfl⟩
    rw [htable]
    exact .cons rfl .whole .nil
  have hend : (if r.moves then matchEnd emptyString (slot [some 0, some 0] 1) else .ok 0) = .ok 0 := by
    split <;> rfl
  rw [regexpExec_captured hs hc, hend, hb]
  exact ⟨_, _, rfl, by rw [matchOf, htable]; rfl⟩

lemma namesAppended_iff {code : List Op} {s : REParseState}
    (hp : lreParse U (cString regexp) (readFlags (implicitFlags (cString regexp)) (cString flags)) = .ok (code, s)) :
    NamesAppended U regexp flags ↔
      namesFit (wholeCode (readFlags (implicitFlags (cString regexp)) (cString flags)) code) s.groupNames = true := by
  constructor
  · intro h
    exact h code s hp
  · intro h code' s' hp'
    obtain ⟨rfl, rfl⟩ := Prod.mk.inj (Except.ok.inj (hp.symm.trans hp'))
    exact h

lemma named_table (h : jsregexpCompile U regexp flags = .ok re) (hn : HasNamedGroup U regexp flags) {code : List Op}
    {s : REParseState} {gs : List (Bytes × UInt8)}
    (hp : lreParse U (cString regexp) (readFlags (implicitFlags (cString regexp)) (cString flags)) = .ok (code, s))
    (hgs : HasGroups s gs) (hnames : NamesCompiled (readFlags (implicitFlags (cString regexp)) (cString flags)) gs
      (namesFit (wholeCode (readFlags (implicitFlags (cString regexp)) (cString flags)) code) s.groupNames) re.bc) :
    (NamesAppended U regexp flags → re.bc.lreGetGroupnames = some (nameTable gs)) ∧
      (¬ NamesAppended U regexp flags → re.bc.lreGetGroupnames = some []) := by
  have hsome : re.bc.lreGetGroupnames.isSome = true := (named_bit h).mpr (.inr hn)
  rw [namesAppended_iff hp]
  rw [Bytecode.lreGetGroupnames, (hnames.named ((hasNamedGroup_iff hp hgs).mp hn)).2] at hsome ⊢
  split at hsome
  · next hflag =>
    rw [if_pos hflag]
    exact ⟨fun hfit => by rw [if_pos hfit], fun hfit => by rw [if_neg hfit]⟩
  · cases hsome

theorem names_reported_iff (h : jsregexpCompile U regexp flags = .ok re) :
    NamesReported U regexp flags re ↔ (byteOf 'n' ∈ cString flags → HasNamedGroup U regexp flags) ∧
      (HasNamedGroup U regexp flags → NamesAppended U regexp flags) := by
  have hbit := named_bit h
  obtain ⟨code, s, gs, hp, hgs, hnames⟩ := jsregexpCompile_names U regexp flags h
  constructor
  · intro hrep
    refine ⟨fun hflag => ?_, fun hn => ?_⟩
    swap
    · by_contra hnot
      have hle := readNames_ok_iff.mp (hrep.inside [] ((named_table h hn hp hgs hnames).2 hnot))
      obtain ⟨g, hg, -⟩ := (hasNamedGroup_iff hp hgs).mp hn
      have hpos : 0 < gs.length := List.length_pos_of_mem hg
      rw [hnames.count, Nat.add_sub_cancel, List.count_nil] at hle
      omega
    have hsome : re.bc.lreGetGroupnames.isSome = true := hbit.mpr (.inl hflag)
    by_contra hnone
    have hempty : re.bc.groupNames = [] := (hnames.unnamed ((hasNamedGroup_iff hp hgs).not.mp hnone)).2
    have htable : re.bc.lreGetGroupnames = some [] := by
      rw [Bytecode.lreGetGroupnames, hempty] at hsome ⊢
      split at hsome
      · next hflags => rw [if_pos hflags]
      · cases hsome
    -- with groups the first name is read behind the buffer, and without them an empty table is built
    rcases Nat.eq_zero_or_pos gs.length with hzero | hpos
    · have hcount : re.bc.captureCount = 1 := by rw [hnames.count, hzero]
      have hregs := lreCompile_registerCount (jsregexpCompile_ok_iff.mp h).2.2.2
      obtain ⟨re', m, hexec, hm⟩ := exec_empty (r := { re with lastIndex := 0 }) hcount hregs htable rfl
      exact hnone ((hrep.present emptyExec (emptyExec_captures _) 0 emptyString re' m hexec).mp hm)
    · have hle := readNames_ok_iff.mp (hrep.inside [] htable)
      rw [hnames.count, Nat.add_sub_cancel, List.count_nil] at hle
      omega
  · rintro ⟨hcond, happended⟩
    have hnamed : re.bc.lreGetGroupnames.isSome = true ↔ HasNamedGroup U regexp flags :=
      hbit.trans ⟨fun h => h.elim hcond id, .inr⟩
    constructor
    · intro lreExec hl n js re' m hexec
      have hres : (regexpExec lreExec { re with lastIndex := n } js).result = .ok (some m) := by rw [hexec]
      obtain ⟨-, capture, hc⟩ := call_of_some hres
      rw [groups_isSome (buildMatch_of_some hres hc)]
      exact hnamed
    · intro p hp'
      have hn := hnamed.mp (by rw [hp']; rfl)
      have htable : p = nameTable gs :=
        Option.some.inj (hp'.symm.trans ((named_table h hn hp hgs hnames).1 (happended hn)))
      rw [readNames_ok_iff, hnames.count, Nat.add_sub_cancel, htable]
      exact nameTable_count

def namedRe : RegExp where
  expr := bytesOf "(?<a>x)"
  bc := {
    flags := lreFlagNamedGroups
    captureCount := 2
    registerCount := 0
    code := [.split false 6, .any, .goto (-11), .saveStart 0, .saveStart 1, .char false 0x78, .saveEnd 1, .saveEnd 0,
      .matched]
    groupNames := [0x61, 0, 0] }
  lastIndex := 0

theorem names_reported_named : NamesReported asciiTables (bytesOf "(?<a>x)") (bytesOf "n") namedRe :=
  (names_reported_iff (by rfl)).mpr ⟨fun _ => ⟨_, _, rfl, ([0x61], 0), by decide, by decide⟩,
    fun _ => (namesAppended_iff (by rfl)).mpr (by rfl)⟩

def unnamedRe : RegExp where
  expr := bytesOf "(a)"
  bc := {
    flags := lreFlagNamedGroups
    captureCount := 2
    registerCount := 0
    code := [.split false 6, .any, .goto (-11), .saveStart 0, .saveStart 1, .char false 0x61, .saveEnd 1, .saveEnd 0,
      .matched]
    groupNames := [] }
  lastIndex := 0

theorem names_reported_unnamed : jsregexpCompile asciiTables (bytesOf "(a)") (bytesOf "n") = .ok unnamedRe ∧
    ¬ NamesReported asciiTables (bytesOf "(a)") (bytesOf "n") unnamedRe := by
  refine ⟨by rfl, fun h => ?_⟩
  obtain ⟨q, hq⟩ := h.inside [] rfl
  cases hq

end Named

end Jsregexp
