import Jsregexp.ExecSpec
import Jsregexp.LuaString
import Jsregexp.Library.Segments

namespace Jsregexp

open Library.Segments

namespace Match

def whole (m : Match) : Bytes := m.captures.getD 0 []

def stop (m : Match) : ℕ := m.index + m.whole.length

def first (m : Match) : ℕ := m.index - 1
def last (m : Match) : ℕ := m.stop - 1

end Match

structure RealSpans (str : Bytes) (js : JsString) (re' : RegExp) (capture : List (Option ℕ)) (m : Match) :
    Prop where
  index_pos : 1 ≤ m.index
  stop_le : m.stop ≤ str.length + 1
  whole : m.whole = stringSub str m.index (m.stop - 1)
  lastIndex : re'.moves = true → re'.lastIndexField = m.stop
  group : ∀ i < re'.bc.captureCount, ∀ s e,
    slot capture (2 * i) = some s → slot capture (2 * i + 1) = some e →
      m.captures[i]? = some (stringSub str (js.byteAt s + 1) (js.byteAt e))
  pair : re'.hasIndices = true → ∃ mi, m.indices = some mi ∧ ∀ i < re'.bc.captureCount, ∀ s e,
    slot capture (2 * i) = some s → slot capture (2 * i + 1) = some e →
      mi.pairs[i]? = some (js.byteAt s + 1, js.byteAt e)

/-- What `exec` computes from a match of the engine is about real spans: the offsets of every group
that took part are in order, `last_index` and the pairs are those offsets as Lua counts them, and so is
the match object that is returned. -/
structure SpansReal (lreExec : Engine) (re : RegExp) (str : Bytes) (js : JsString)
    (capture : List (Option ℕ)) : Prop where
  ordered : ∀ i < re.bc.captureCount, ∀ s e,
    slot capture (2 * i) = some s → slot capture (2 * i + 1) = some e → js.byteAt s ≤ js.byteAt e
  lastIndex : re.moves = true → ∀ e, slot capture 1 = some e →
    (regexpExec lreExec re js).re.lastIndexField = js.byteAt e + 1
  pair : re.hasIndices = true → ∀ i < re.bc.captureCount, ∀ s e,
    slot capture (2 * i) = some s → slot capture (2 * i + 1) = some e →
      ∀ g, reportGroup js (some s) (some e) = .ok g → g.pair = (js.byteAt s + 1, js.byteAt e)
  reported : ∀ m, (regexpExec lreExec re js).result = .ok (some m) →
    RealSpans str js (regexpExec lreExec re js).re capture m

/-- No group ends inside a surrogate pair, unless it starts at the front of the subject or inside a
pair too, and no byte offset that is stored increased by one fills its 32 bits. -/
structure SpansSafe (re : RegExp) (js : JsString) (capture : List (Option ℕ)) : Prop where
  unsplit : ∀ i < re.bc.captureCount, ∀ s e,
    slot capture (2 * i) = some s → slot capture (2 * i + 1) = some e →
      js.InsidePair e → s = 0 ∨ js.InsidePair s
  stop_lt : re.moves = true → ∀ e, slot capture 1 = some e → js.byteAt e + 1 < 2 ^ 32
  start_lt : re.hasIndices = true → ∀ i < re.bc.captureCount, ∀ s, slot capture (2 * i) = some s →
    js.byteAt s + 1 < 2 ^ 32

lemma stringSub_between {str : Bytes} {a b : ℕ} (hab : a ≤ b) (hb : b ≤ str.length) :
    stringSub str (a + 1) b = between str a b := by
  have hsub := stringSub_slice (s := str) (a := a) (n := b - a) (by omega)
  rwa [show (a : ℤ) + ((b - a : ℕ) : ℤ) = b by omega] at hsub

section

variable {addr : ℕ} {str : Bytes} {js : JsString} (hjs : jsstringNew addr str = .ok js) (hz : 0 ∉ str)
include hjs hz

lemma jsstringNew_bstr : js.bstr = str := by
  rw [(jsstringNew_addr hjs).2.1, cString_eq_self hz]

lemma jsstringNew_byteAt_le {u : ℕ} (hu : u ≤ js.len) : js.byteAt u ≤ str.length := by
  have h := jsstringNew_wellFormed hjs fun hx => absurd hx hz
  have hle := h.byteAt_le hu
  rw [(jsstringNew_addr hjs).2.2] at hle
  exact hle.trans (Nat.mod_le _ _)

lemma span_eq_stringSub {s e : ℕ} (hle : js.byteAt s ≤ js.byteAt e) (he : e ≤ js.len) :
    (js.stored.drop (js.byteAt s)).take (js.byteAt e - js.byteAt s) =
      stringSub str (js.byteAt s + 1) (js.byteAt e) := by
  have hb := jsstringNew_byteAt_le hjs hz he
  have hsub := stringSub_slice (s := str) (a := js.byteAt s) (n := js.byteAt e - js.byteAt s) (by omega)
  have hcast : (js.byteAt s : ℤ) + ((js.byteAt e - js.byteAt s : ℕ) : ℤ) = js.byteAt e := by omega
  rw [hcast] at hsub
  rw [hsub, JsString.stored, jsstringNew_bstr hjs hz, List.drop_append_of_le_length (by omega),
    List.take_append_of_le_length (by simp; omega)]

variable {re : RegExp} {capture : List (Option ℕ)} {m : Match}

lemma buildMatch_stringSub (hm : buildMatch re.bc js capture = .ok m)
    (hc : Captured js.len re.bc.captureCount capture) {i s e : ℕ} (hi : i < re.bc.captureCount)
    (h₀ : slot capture (2 * i) = some s) (h₁ : slot capture (2 * i + 1) = some e) :
    js.byteAt s ≤ js.byteAt e ∧ js.byteAt e ≤ str.length ∧
      m.captures[i]? = some (stringSub str (js.byteAt s + 1) (js.byteAt e)) := by
  have h := jsstringNew_wellFormed hjs fun hx => absurd hx hz
  obtain ⟨hse, he⟩ := hc.took hi h₀ h₁
  obtain ⟨hle, -, hcap, -⟩ := buildMatch_group h hm hi h₀ h₁ hse he
  exact ⟨hle, jsstringNew_byteAt_le hjs hz he, hcap.trans (congrArg some (span_eq_stringSub hjs hz hle he))⟩

lemma buildMatch_whole (hcc : 0 < re.bc.captureCount) (hm : buildMatch re.bc js capture = .ok m)
    (hc : Captured js.len re.bc.captureCount capture) {s e : ℕ} (h₀ : slot capture 0 = some s)
    (h₁ : slot capture 1 = some e) :
    m.index = js.byteAt s + 1 ∧ m.stop = js.byteAt e + 1 ∧
      m.whole = stringSub str (js.byteAt s + 1) (js.byteAt e) := by
  have h := jsstringNew_wellFormed hjs fun hx => absurd hx hz
  obtain ⟨hse, he⟩ := hc.took hcc h₀ h₁
  obtain ⟨hle, hb, hcap⟩ := buildMatch_stringSub hjs hz hm hc hcc h₀ h₁
  have hi := buildMatch_index h hm h₀ (hse.trans he)
  have hw : m.whole = stringSub str (js.byteAt s + 1) (js.byteAt e) := by
    simp [Match.whole, hcap]
  refine ⟨hi, ?_, hw⟩
  rw [← span_eq_stringSub hjs hz hle he] at hw
  have hlen : m.whole.length = js.byteAt e - js.byteAt s := by
    rw [hw, List.length_take, List.length_drop, JsString.stored, List.length_append,
      jsstringNew_bstr hjs hz]
    simp
    omega
  rw [Match.stop, hi, hlen]
  omega

variable {lreExec : Engine} {re' : RegExp}

lemma exec_some (hl : lreExec.Captures re.bc) (hf : lreExec.Forward re.bc) (hstarts : js.StartsBetween)
    (hcc : 0 < re.bc.captureCount) (hexec : regexpExec lreExec re js = ⟨re', .ok (some m)⟩) :
    ∃ capture s e, re.Starts js ∧ re.call lreExec js = .matched capture ∧ slot capture 0 = some s ∧
      slot capture 1 = some e ∧ re.startIndex js ≤ s ∧ s ≤ e ∧ e ≤ js.len ∧
      js.byteAt s ≤ js.byteAt e ∧ js.byteAt e ≤ str.length ∧
      re' = { re with lastIndex := if re.moves then js.byteAt e else 0 } ∧
      m.first = js.byteAt s ∧ m.last = js.byteAt e ∧ 1 ≤ m.index ∧
      m.whole = between str (js.byteAt s) (js.byteAt e) := by
  have h := jsstringNew_wellFormed hjs fun hx => absurd hx hz
  have hres : (regexpExec lreExec re js).result = .ok (some m) := by rw [hexec]
  obtain ⟨hs, capture, hc⟩ := call_of_some hres
  have hb := buildMatch_of_some hres hc
  obtain ⟨s, e, h₀, h₁, hse, he⟩ := (hl.call hc).span hcc
  obtain ⟨hi, hstop, hw⟩ := buildMatch_whole hjs hz hcc hb (hl.call hc) h₀ h₁
  obtain ⟨hle, hle', -⟩ := buildMatch_stringSub hjs hz hb (hl.call hc) hcc h₀ h₁
  have hre := regexpExec_matched h hs hc h₁ he
  rw [hexec] at hre
  refine ⟨capture, s, e, hs, hc, h₀, h₁, hf.call hstarts hs hc h₀, hse, he, hle, hle', congrArg Outcome.re hre, ?_,
    ?_, by omega, ?_⟩
  · rw [Match.first, hi, Nat.add_sub_cancel]
  · rw [Match.last, hstop, Nat.add_sub_cancel]
  · rw [hw, stringSub_between hle hle']

end

section

variable {lreExec : Engine} {addr : ℕ} {str : Bytes} {js : JsString} {re : RegExp} {capture : List (Option ℕ)}
variable (hl : lreExec.Captures re.bc) (hcc : 0 < re.bc.captureCount) (hjs : jsstringNew addr str = .ok js)
variable (hz : 0 ∉ str) (hs : re.Starts js) (hc : re.call lreExec js = .matched capture)
include hl hcc hjs hz hs hc

lemma realSpans_of_safe (hsafe : SpansSafe re js capture) {m : Match}
    (hr : (regexpExec lreExec re js).result = .ok (some m)) :
    RealSpans str js (regexpExec lreExec re js).re capture m := by
  have h := jsstringNew_wellFormed hjs fun hx => absurd hx hz
  have hcap := hl.call hc
  obtain ⟨s, e, h₀, h₁, hse, he⟩ := hcap.span hcc
  have hm := buildMatch_of_some hr hc
  obtain ⟨hi, hstop, hw⟩ := buildMatch_whole hjs hz hcc hm hcap h₀ h₁
  have hb := jsstringNew_byteAt_le hjs hz he
  rw [regexpExec_matched h hs hc h₁ he]
  constructor
  · omega
  · omega
  · rw [hw, hi, hstop]
    simp
  · intro hmoves
    have hmoves' : re.moves = true := hmoves
    rw [hstop, RegExp.lastIndexField, if_pos hmoves', uint32,
      Nat.mod_eq_of_lt (hsafe.stop_lt hmoves e h₁)]
  · intro i hi s e h₀ h₁
    exact (buildMatch_stringSub hjs hz hm hcap hi h₀ h₁).2.2
  · intro hd
    have hsome : m.indices.isSome = true := (buildMatch_indices hm).trans hd
    obtain ⟨mi, hmi⟩ := Option.isSome_iff_exists.mp hsome
    refine ⟨mi, hmi, fun i hi s e h₀ h₁ => ?_⟩
    obtain ⟨hse, he⟩ := hcap.took hi h₀ h₁
    rw [(buildMatch_group h hm hi h₀ h₁ hse he).2.2.2 mi hmi, uint32,
      Nat.mod_eq_of_lt (hsafe.start_lt hd i hi s h₀)]

theorem exec_spansReal_iff (hv : ValidUtf8 str) :
    SpansReal lreExec re str js capture ↔ SpansSafe re js capture := by
  have h := jsstringNew_wellFormed hjs fun hx => absurd hx hz
  have hpair {u : ℕ} (hu : u ≤ js.len) := insidePair_iff_interior hjs hv (fun hx => absurd hx hz) hu
  have hcap := hl.call hc
  obtain ⟨s₀, e₀, h₀₀, h₁₀, hse₀, he₀⟩ := hcap.span hcc
  constructor
  · intro hr
    have hexec := regexpExec_matched h hs hc h₁₀ he₀
    constructor
    · intro i hi s e h₀ h₁ hin
      obtain ⟨hse, he⟩ := hcap.took hi h₀ h₁
      rw [hpair (hse.trans he)]
      exact (h.byteAt_le_iff hse he).mp (hr.ordered i hi s e h₀ h₁) ((hpair he).mp hin)
    · intro hmoves e h₁
      obtain rfl : e₀ = e := Option.some.inj (h₁₀.symm.trans h₁)
      have hlast := hr.lastIndex hmoves e₀ h₁
      rw [hexec, RegExp.lastIndexField, if_pos hmoves, uint32] at hlast
      omega
    · intro hd i hi s h₀
      rcases hcap.group i hi with ⟨hn, -⟩ | ⟨s', e, h₀', h₁, hse, he⟩
      · cases hn.symm.trans h₀
      obtain rfl : s' = s := Option.some.inj (h₀'.symm.trans h₀)
      cases hw : js.isWideChar with
      | true =>
        have := h.byteAt_le (hse.trans he)
        have := (h.fits hw).1
        omega
      | false =>
        have hle := hr.ordered i hi s' e h₀ h₁
        have hb := jsstringNew_byteAt_le hjs hz he
        have hg := reportGroup_some h he hse hle (by rw [jsstringNew_bstr hjs hz]; omega)
        have hpr := hr.pair hd i hi s' e h₀ h₁ _ hg
        simp only [GroupReport.pair, Prod.mk.injEq, and_true, uint32] at hpr
        omega
  · intro hsafe
    have hord : ∀ i < re.bc.captureCount, ∀ s e, slot capture (2 * i) = some s →
        slot capture (2 * i + 1) = some e → js.byteAt s ≤ js.byteAt e := by
      intro i hi s e h₀ h₁
      obtain ⟨hse, he⟩ := hcap.took hi h₀ h₁
      refine (h.byteAt_le_iff hse he).mpr fun hin => ?_
      rw [← hpair (hse.trans he)]
      exact hsafe.unsplit i hi s e h₀ h₁ ((hpair he).mpr hin)
    constructor
    · exact hord
    · intro hmoves e h₁
      obtain rfl : e₀ = e := Option.some.inj (h₁₀.symm.trans h₁)
      rw [regexpExec_matched h hs hc h₁ he₀, RegExp.lastIndexField, if_pos hmoves, uint32,
        Nat.mod_eq_of_lt (hsafe.stop_lt hmoves e₀ h₁)]
    · intro hd i hi s e h₀ h₁ g hg
      obtain ⟨hse, he⟩ := hcap.took hi h₀ h₁
      have hle := hord i hi s e h₀ h₁
      have hb := jsstringNew_byteAt_le hjs hz he
      rw [reportGroup_some h he hse hle (by rw [jsstringNew_bstr hjs hz]; omega)] at hg
      obtain rfl := Except.ok.inj hg
      rw [GroupReport.pair, uint32, Nat.mod_eq_of_lt (hsafe.start_lt hd i hi s h₀)]
    · exact fun m hm => realSpans_of_safe hl hcc hjs hz hs hc hsafe hm

end

def dotExec : Engine := fun bc _ cindex clen _ =>
  if bc.captureCount = 1 ∧ cindex < clen then .matched [some cindex, some (cindex + 1)] else .noMatch

lemma dotExec_captures (bc : Bytecode) : dotExec.Captures bc := by
  intro cbuf cindex clen cbufType capture h
  unfold dotExec at h
  split at h
  · next hc =>
    obtain rfl := LreResult.matched.inj h
    rw [hc.1]
    refine ⟨⟨cindex, cindex + 1, rfl, rfl⟩, fun i hi => ?_⟩
    obtain rfl : i = 0 := by omega
    exact .inr ⟨cindex, cindex + 1, rfl, rfl, Nat.le_succ _, hc.2⟩
  · cases h

def dotRe (lastIndex : ℕ) : RegExp where
  expr := [0x2e]
  bc := {
    flags := lreFlagGlobal
    captureCount := 1
    registerCount := 0
    code := [.split false 6, .any, .goto (-11), .saveStart 0, .dot, .saveEnd 0, .matched]
    groupNames := [] }
  lastIndex := lastIndex

def clef : Bytes := [0x61, 0xf0, 0x9d, 0x84, 0x9e]

def clefString : JsString where
  isWideChar := true
  len := 3
  bstr := clef
  bstrLen := 5
  indices := [0, 1, 0, 5, 0, 0]
  revIndices := [0, 1, 0, 0, 0, 3]
  units := [0x61, 0xd834, 0xdd1e]
  addr := 16

lemma clefString_eq : jsstringNew 16 clef = .ok clefString := by rfl

theorem exec_spansReal_first : SpansReal dotExec (dotRe 0) clef clefString [some 0, some 1] := by
  refine (exec_spansReal_iff (dotExec_captures _) (by decide) clefString_eq (by decide) (by decide) rfl
    ⟨['a', '𝄞'], by decide⟩).mpr ⟨?_, ?_, ?_⟩
  · intro i hi s e h₀ h₁ hin
    obtain rfl : i = 0 := Nat.lt_one_iff.mp hi
    exact .inl (Option.some.inj h₀).symm
  · intro _ e he
    obtain rfl : 1 = e := Option.some.inj he
    decide
  · intro hd
    exact absurd hd (by decide)

theorem exec_splits_pair :
    jsstringNew 16 clef = .ok clefString ∧ (dotRe 1).call dotExec clefString = .matched [some 1, some 2] ∧
      ¬ SpansReal dotExec (dotRe 1) clef clefString [some 1, some 2] := by
  refine ⟨by rfl, by decide, fun h => ?_⟩
  exact absurd (h.ordered 0 (by decide) 1 2 rfl rfl) (by decide)

end Jsregexp
