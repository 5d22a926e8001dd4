import Jsregexp.ExecSpec

namespace Jsregexp

def nullPair (js : JsString) : ℕ × ℕ :=
  GroupReport.pair ⟨truncUint32 (captureOffset js none), truncUint32 (captureOffset js none), []⟩

/-- Group `i`, which took no part, is reported as the empty string whatever the form of the subject;
no lookup for it leaves the table, and no pair for it comes from the `NULL` pointers. -/
structure UnsetReported (lreExec : Engine) (re : RegExp) (js : JsString) (i : ℕ) : Prop where
  lookups : js.isWideChar = true →
    0 ≤ (captureOffset js none).tdiv 2 ∧ (captureOffset js none).tdiv 2 ≤ js.len
  report : ∃ g, reportGroup js none none = .ok g ∧ g.str = [] ∧ (re.hasIndices = true → g.pair ≠ nullPair js)
  exec : ∀ m, (regexpExec lreExec re js).result = .ok (some m) → m.captures[i]? = some [] ∧
    ∀ mi, m.indices = some mi → ∃ p, mi.pairs[i]? = some p ∧ p ≠ nullPair js

lemma buildMatch_unset {bc : Bytecode} {js : JsString} {capture : List (Option ℕ)} {m : Match}
    (hn : js.isWideChar = false) (hm : buildMatch bc js capture = .ok m) {i : ℕ} (hi : i < bc.captureCount)
    (h₀ : slot capture (2 * i) = none) (h₁ : slot capture (2 * i + 1) = none) :
    m.captures[i]? = some [] := by
  obtain ⟨index, ts, r, -, hl, ht, rfl⟩ := buildMatch_ok_iff.mp hm
  have hi' : i < ts.length := hl ▸ hi
  have hrep := ht.report hi'
  rw [Nat.zero_add, h₀, h₁, reportGroup_none_narrow hn] at hrep
  have hget : ts[i]? = some (ts.get ⟨i, hi'⟩) := List.getElem?_eq_getElem hi'
  simp only [matchOf, List.getElem?_map, hget, Option.map_some, ← Except.ok.inj hrep]

theorem exec_unset_iff {lreExec : Engine} {re : RegExp} {addr : ℕ} {str : Bytes} {js : JsString}
    (hl : lreExec.Captures re.bc) (hjs : jsstringNew addr str = .ok js) (ha : 2 ≤ addr)
    {capture : List (Option ℕ)} (hc : re.call lreExec js = .matched capture) {i : ℕ}
    (hi : i < re.bc.captureCount) (h₀ : slot capture (2 * i) = none) :
    UnsetReported lreExec re js i ↔ utf8ContainsNonAscii str = false ∧ re.hasIndices = false := by
  have haddr : 2 ≤ js.addr := (jsstringNew_addr hjs).1.symm ▸ ha
  have h₁ : slot capture (2 * i + 1) = none := by
    rcases (hl.call hc).group i hi with ⟨-, h₁⟩ | ⟨s, e, hsome, -⟩
    · exact h₁
    · cases h₀.symm.trans hsome
  rw [← jsstringNew_wide hjs]
  constructor
  · intro h
    obtain ⟨g, hg, -, hp⟩ := h.report
    have hn : js.isWideChar = false := by
      by_contra hw
      rw [reportGroup_none_wide (by simpa using hw) haddr] at hg
      cases hg
    refine ⟨hn, ?_⟩
    by_contra hd
    rw [reportGroup_none_narrow hn] at hg
    obtain rfl := Except.ok.inj hg
    exact hp (by simpa using hd) (by simp [nullPair])
  · rintro ⟨hn, hd⟩
    constructor
    · simp [hn]
    · exact ⟨_, reportGroup_none_narrow hn, rfl, by simp [hd]⟩
    · intro m hr
      have hm := buildMatch_of_some hr hc
      refine ⟨buildMatch_unset hn hm hi h₀ h₁, fun mi hmi => ?_⟩
      have hsome : m.indices.isSome = re.hasIndices := buildMatch_indices hm
      simp [hmi, hd] at hsome

def orExec : Engine := fun bc cbuf cindex clen cbufType =>
  if cbufType = 1 ∧ 2 ^ 30 ≤ clen then .undefined
  else
    match (List.range' cindex (clen - cindex)).find? fun k => cbuf.getD k 0 = 0x61 ∨ cbuf.getD k 0 = 0x62 with
    | some k =>
      if bc.captureCount = 2 then
        if cbuf.getD k 0 = 0x61 then .matched [some k, some (k + 1), some k, some (k + 1)]
        else .matched [some k, some (k + 1), none, none]
      else .noMatch
    | none => .noMatch

lemma orExec_captures (bc : Bytecode) : orExec.Captures bc := by
  intro cbuf cindex clen cbufType capture h
  unfold orExec at h
  split at h
  · cases h
  split at h
  · next k hk =>
    have hmem := List.mem_of_find?_eq_some hk
    have hlt : k + 1 ≤ clen := by
      rw [List.mem_range'_1] at hmem
      omega
    split at h
    · next hcc =>
      rw [hcc]
      split at h
      · obtain rfl := LreResult.matched.inj h
        refine ⟨⟨k, k + 1, rfl, rfl⟩, fun i hi => ?_⟩
        interval_cases i
        · exact .inr ⟨k, k + 1, rfl, rfl, Nat.le_succ k, hlt⟩
        · exact .inr ⟨k, k + 1, rfl, rfl, Nat.le_succ k, hlt⟩
      · obtain rfl := LreResult.matched.inj h
        refine ⟨⟨k, k + 1, rfl, rfl⟩, fun i hi => ?_⟩
        interval_cases i
        · exact .inr ⟨k, k + 1, rfl, rfl, Nat.le_succ k, hlt⟩
        · exact .inl ⟨rfl, rfl⟩
    · cases h
  · cases h

def orRe : RegExp where
  expr := [0x28, 0x61, 0x29, 0x7c, 0x62]
  bc := {
    flags := 0
    captureCount := 2
    registerCount := 0
    code := [.split false 6, .any, .goto (-11), .saveStart 0, .split true 12, .saveStart 1, .char false 0x61,
      .saveEnd 1, .goto 3, .char false 0x62, .saveEnd 0, .matched]
    groupNames := [] }
  lastIndex := 0

def bString : JsString := ⟨false, 1, [0x62], 1, [], [], [0x62], 16⟩

def wideString : JsString := ⟨true, 2, [0xc3, 0xa9, 0x62], 3, [0, 2, 3, 0], [0, 0, 1, 2], [0xe9, 0x62], 16⟩

theorem orRe_unset_ascii :
    jsstringNew 16 [0x62] = .ok bString ∧ UnsetReported orExec orRe bString 1 := by
  have hjs : jsstringNew 16 [0x62] = .ok bString := by rfl
  have hc : orRe.call orExec bString = .matched [some 0, some 1, none, none] := by decide
  exact ⟨hjs, (exec_unset_iff (orExec_captures _) hjs (by decide) hc (by decide) rfl).mpr ⟨rfl, rfl⟩⟩

theorem orRe_unset_wide :
    jsstringNew 16 [0xc3, 0xa9, 0x62] = .ok wideString ∧
      orRe.call orExec wideString = .matched [some 1, some 2, none, none] ∧
      ¬ UnsetReported orExec orRe wideString 1 := by
  have hjs : jsstringNew 16 [0xc3, 0xa9, 0x62] = .ok wideString := by rfl
  refine ⟨hjs, by decide, fun h => ?_⟩
  exact absurd (h.lookups rfl).1 (by decide)

end Jsregexp
