import Jsregexp.ExecTurns
import Jsregexp.JsStringText

namespace Jsregexp

/-- What the engine leaves in `capture` when it matches: the whole match took part, and every group
either took part, with its start before its end, or is `NULL` on both sides. -/
structure Captured (clen count : ℕ) (capture : List (Option ℕ)) : Prop where
  whole : ∃ s e, slot capture 0 = some s ∧ slot capture 1 = some e
  group : ∀ i < count, (slot capture (2 * i) = none ∧ slot capture (2 * i + 1) = none) ∨
    ∃ s e, slot capture (2 * i) = some s ∧ slot capture (2 * i + 1) = some e ∧
      s ≤ e ∧ e ≤ clen

lemma Captured.span {clen count : ℕ} {capture : List (Option ℕ)} (h : Captured clen count capture)
    (hc : 0 < count) : ∃ s e, slot capture 0 = some s ∧ slot capture 1 = some e ∧ s ≤ e ∧ e ≤ clen := by
  obtain ⟨s, e, h₀, h₁⟩ := h.whole
  rcases h.group 0 hc with ⟨hn, -⟩ | ⟨s', e', h₀', h₁', hse, he⟩
  · cases hn.symm.trans h₀
  · exact ⟨s', e', h₀', h₁', hse, he⟩

lemma Captured.took {clen count : ℕ} {capture : List (Option ℕ)} (h : Captured clen count capture) {i s e : ℕ}
    (hi : i < count) (h₀ : slot capture (2 * i) = some s) (h₁ : slot capture (2 * i + 1) = some e) :
    s ≤ e ∧ e ≤ clen := by
  rcases h.group i hi with ⟨hn, -⟩ | ⟨s', e', h₀', h₁', hse, he⟩
  · cases hn.symm.trans h₀
  · obtain rfl : s' = s := Option.some.inj (h₀'.symm.trans h₀)
    obtain rfl : e' = e := Option.some.inj (h₁'.symm.trans h₁)
    exact ⟨hse, he⟩

/-- What is assumed of `lre_exec` on the code `bc`. With the flag `v`, a class of strings in a lookbehind can break
it: `(?<=([\q{abc}]))b` leaves a group that ends in front of its start. -/
def Engine.Captures (lreExec : Engine) (bc : Bytecode) : Prop :=
  ∀ cbuf cindex clen cbufType capture, lreExec bc cbuf cindex clen cbufType = .matched capture →
    Captured clen bc.captureCount capture

def Bytecode.NamesStored (bc : Bytecode) : Prop :=
  ∀ p, bc.lreGetGroupnames = some p → bc.captureCount ≤ p.count 0 + 1

namespace RegExp

def moves (r : RegExp) : Bool := r.global || r.sticky

def startIndex (r : RegExp) (input : JsString) : ℕ :=
  if r.moves then translateIndex input r.lastIndex else 0

def Starts (r : RegExp) (input : JsString) : Prop := r.startIndex input ≤ input.len

instance (r : RegExp) (input : JsString) : Decidable (r.Starts input) :=
  inferInstanceAs (Decidable (r.startIndex input ≤ input.len))

def call (r : RegExp) (lreExec : Engine) (input : JsString) : LreResult :=
  callLreExec lreExec r.bc input (r.startIndex input)

def Admitted (r : RegExp) (input : JsString) : Prop :=
  input.len < 2 ^ 31 ∧ r.bc.lreGetAllocCount ≤ captureSlots

def lastIndexField (r : RegExp) : ℕ := uint32 (r.lastIndex + 1)

end RegExp

section Call

variable {lreExec : Engine} {r : RegExp} {input : JsString} {capture : List (Option ℕ)}

lemma int32_of_lt {n : ℕ} (h : n < 2 ^ 31) : int32 n = n := by
  rw [int32, uint32, Nat.mod_eq_of_lt (by omega), if_pos h]

lemma int32_nonneg_iff {n : ℕ} (h : n < 2 ^ 32) : 0 ≤ int32 n ↔ n < 2 ^ 31 := by
  rw [int32, uint32, Nat.mod_eq_of_lt h]
  split <;> omega

lemma call_admitted (hs : r.Starts input) (h : r.Admitted input) : r.call lreExec input =
    lreExec r.bc input.units (r.startIndex input) input.len (if input.isWideChar then 1 else 0) := by
  have hs' : r.startIndex input ≤ input.len := hs
  have hlen := h.1
  rw [RegExp.call, callLreExec, int32_of_lt hlen, int32_of_lt (hs'.trans_lt hlen), if_pos]
  exact ⟨by omega, by omega, h.2⟩

lemma call_not_admitted (hs : r.Starts input) (hlen : input.len < 2 ^ 32) (h : ¬ r.Admitted input) :
    r.call lreExec input = .undefined := by
  have hs' : r.startIndex input ≤ input.len := hs
  rw [RegExp.call, callLreExec, if_neg]
  rintro ⟨hpos, hle, halloc⟩
  exact h ⟨(int32_nonneg_iff hlen).mp (hpos.trans hle), halloc⟩

lemma lreExec_of_call (hc : r.call lreExec input = .matched capture) : lreExec r.bc input.units (r.startIndex input)
    input.len (if input.isWideChar then 1 else 0) = .matched capture := by
  rw [RegExp.call, callLreExec] at hc
  split at hc
  · exact hc
  · cases hc

lemma alloc_of_call (hc : r.call lreExec input = .matched capture) : r.bc.lreGetAllocCount ≤ captureSlots := by
  rw [RegExp.call, callLreExec] at hc
  split at hc
  · next h => exact h.2.2
  · cases hc

lemma admitted_of_call (hs : r.Starts input) (hlen : input.len < 2 ^ 32) (hc : r.call lreExec input ≠ .undefined) :
    r.Admitted input := by
  by_contra h
  exact hc (call_not_admitted hs hlen h)

lemma Engine.Captures.call (h : lreExec.Captures r.bc) (hc : r.call lreExec input = .matched capture) :
    Captured input.len r.bc.captureCount capture :=
  h _ _ _ _ _ (lreExec_of_call hc)

end Call

section Reports

variable {js : JsString}

@[simp] lemma captureOffset_none : captureOffset js none = -js.addr := by
  simp [captureOffset, captureAddr]

lemma captureOffset_some (u : ℕ) :
    captureOffset js (some u) = u * (if js.isWideChar then 2 else 1) := by
  simp [captureOffset, captureAddr]

lemma lookupIndex_none (ha : 2 ≤ js.addr) : lookupIndex js none = .error .undefined := by
  have hneg : ((-js.addr : ℤ)).tdiv 2 < 0 := by
    rw [Int.neg_tdiv]
    have : (1 : ℤ) ≤ (js.addr : ℤ).tdiv 2 := by
      rw [Int.tdiv_eq_ediv_of_nonneg (by omega)]
      omega
    omega
  simp only [lookupIndex, captureOffset_none]
  rw [if_neg (by omega)]

lemma truncUint32_natCast {n : ℕ} (h : n < 2 ^ 32) : truncUint32 n = n := by
  unfold truncUint32
  omega

lemma reportGroup_none_narrow (hn : js.isWideChar = false) :
    reportGroup js none none = .ok ⟨truncUint32 (-js.addr), truncUint32 (-js.addr), []⟩ := by
  simp [reportGroup, hn, pushCapture, bind, Except.bind, pure, Except.pure]

lemma reportGroup_none_wide (hw : js.isWideChar = true) (ha : 2 ≤ js.addr) :
    reportGroup js none none = .error .undefined := by
  simp [reportGroup, hw, lookupIndex_none ha, bind, Except.bind]

variable (h : js.WellFormed)
include h

lemma JsString.WellFormed.lookupIndex (hw : js.isWideChar = true) {u : ℕ} (hu : u ≤ js.len) :
    lookupIndex js (some u) = .ok (js.byteAt u) := by
  obtain ⟨l, hl⟩ := h.wide hw
  obtain ⟨k, hk⟩ := hl.indices
  have hlen : u < js.indices.length := by
    rw [hk, List.length_append, Library.Offsets.table_length Span.units_pos, ← hl.len]
    omega
  have hi : (captureOffset js (some u)).tdiv 2 = u := by
    rw [captureOffset_some, if_pos hw]
    exact Int.mul_tdiv_cancel _ (by norm_num)
  simp [Jsregexp.lookupIndex, hi, hlen, JsString.byteAt, hw]

lemma matchEnd_some {u : ℕ} (hu : u ≤ js.len) : matchEnd js (some u) = .ok (js.byteAt u) := by
  cases hw : js.isWideChar with
  | false =>
    have hlt := hu.trans_lt h.len_lt
    simp [matchEnd, hw, captureOffset_some, truncUint32_natCast hlt, JsString.byteAt]
  | true => simp [matchEnd, hw, h.lookupIndex hw hu]

lemma matchIndex_some {u : ℕ} (hu : u ≤ js.len) : matchIndex js (some u) = .ok (js.byteAt u + 1) := by
  cases hw : js.isWideChar with
  | false =>
    simp [matchIndex, hw, captureOffset_some, JsString.byteAt, pure, Except.pure]
    omega
  | true =>
    have hmod : uint32 (1 + js.byteAt u) = js.byteAt u + 1 := by
      have := h.byteAt_le hu
      have := (h.fits hw).1
      unfold uint32
      omega
    simp [matchIndex, hw, h.lookupIndex hw hu, bind, Except.bind, pure, Except.pure, hmod]

lemma reportGroup_some {s e : ℕ} (he : e ≤ js.len) (hse : s ≤ e) (hle : js.byteAt s ≤ js.byteAt e)
    (hb : js.byteAt e ≤ js.bstr.length + 1) :
    reportGroup js (some s) (some e) = .ok
      ⟨js.byteAt s, js.byteAt e, (js.stored.drop (js.byteAt s)).take (js.byteAt e - js.byteAt s)⟩ := by
  have hst : js.stored.length = js.bstr.length + 1 := by simp [JsString.stored]
  cases hw : js.isWideChar with
  | false =>
    have hb' : ∀ u, js.byteAt u = u := fun u => by simp [JsString.byteAt, hw]
    have hlt := he.trans_lt h.len_lt
    simp only [hb'] at hb ⊢
    have hs : slice js.stored s (e - s) = .ok ((js.stored.drop s).take (e - s)) := by
      exact slice_of_le (by omega)
    simp [reportGroup, hw, pushCapture, hse, hs, captureOffset_some, bind, Except.bind, pure, Except.pure,
      truncUint32_natCast hlt, truncUint32_natCast (hse.trans_lt hlt)]
  | true =>
    have hlt : js.byteAt e - js.byteAt s < 2 ^ 32 := by
      have := h.byteAt_le he
      have := h.bstrLen_lt
      omega
    have ht : truncUint32 ((js.byteAt e : ℤ) - js.byteAt s) = js.byteAt e - js.byteAt s := by
      rw [← Nat.cast_sub hle, truncUint32_natCast hlt]
    have hs := slice_of_le (s := js.stored) (a := js.byteAt s) (n := js.byteAt e - js.byteAt s) (by omega)
    simp [reportGroup, hw, h.lookupIndex hw he, h.lookupIndex hw (hse.trans he), ht, hs, bind, Except.bind,
      pure, Except.pure]

lemma reportGroup_some_iff {s e : ℕ} (he : e ≤ js.len) (hse : s ≤ e) :
    (∃ g, reportGroup js (some s) (some e) = .ok g) ↔
      js.byteAt s ≤ js.byteAt e ∧ js.byteAt e ≤ js.bstr.length + 1 := by
  have hst : js.stored.length = js.bstr.length + 1 := by simp [JsString.stored]
  refine ⟨?_, fun ⟨hle, hb⟩ => ⟨_, reportGroup_some h he hse hle hb⟩⟩
  rintro ⟨g, hg⟩
  cases hw : js.isWideChar with
  | false =>
    simp only [reportGroup, hw, Bool.false_eq_true, if_false, except_bind_ok_iff, pushCapture, hse,
      if_true] at hg
    obtain ⟨t, ht, -⟩ := hg
    have := (slice_ok_iff.mp ht).1
    simp only [JsString.byteAt, hw, Bool.false_eq_true, if_false]
    omega
  | true =>
    simp only [reportGroup, hw, if_true, except_bind_ok_iff, h.lookupIndex hw he,
      h.lookupIndex hw (hse.trans he), Except.ok.injEq] at hg
    obtain ⟨a, rfl, b, rfl, t, ht, -⟩ := hg
    have hfit := (slice_ok_iff.mp ht).1
    have := h.byteAt_le he
    have := h.byteAt_le (hse.trans he)
    have := h.fits hw
    unfold truncUint32 at hfit
    omega

end Reports

section Turns

lemma readGroupName_ok {p : Bytes} (h : 0 < p.count 0) :
    ∃ key q, readGroupName p = .ok (key, q) ∧ p.count 0 = q.count 0 + 1 := by
  have hmem : 0 ∈ p := List.count_pos_iff.mp h
  obtain ⟨s, t, rfl, hs⟩ := List.eq_append_cons_of_mem hmem
  refine ⟨s, t, ?_, by simp [List.count_eq_zero.mpr hs]⟩
  rw [readGroupName, if_pos hmem, cString_append_zero hs]
  simp

def Terminated (n i : ℕ) (p : Option Bytes) : Prop :=
  ∀ q, p = some q → n ≤ q.count 0 + (if i = 0 then 1 else 0)

lemma Terminated.next {n i : ℕ} {p : Option Bytes} (h : Terminated (n + 1) i p) :
    ∃ key q, NextName i p key q ∧ Terminated n (i + 1) q := by
  cases p with
  | none => exact ⟨[], none, .absent, by simp [Terminated]⟩
  | some p =>
    have hp := h p rfl
    cases i with
    | zero => exact ⟨[], some p, .whole, by simp_all [Terminated]⟩
    | succ i =>
      simp only [Nat.succ_ne_zero, if_false] at hp
      obtain ⟨key, q, hr, hc⟩ := readGroupName_ok (p := p) (by omega)
      refine ⟨key, some q, .group hr, ?_⟩
      rintro _ ⟨rfl⟩
      simp
      omega

lemma readGroupName_count {p key q : Bytes} (h : readGroupName p = .ok (key, q)) :
    p.count 0 = q.count 0 + 1 := by
  have hmem : 0 ∈ p := by
    by_contra hn
    simp [readGroupName, hn] at h
  obtain ⟨key', q', h', hc⟩ := readGroupName_ok (List.count_pos_iff.mpr hmem)
  rw [h] at h'
  obtain ⟨-, rfl⟩ : key = key' ∧ q = q' := by simpa using h'
  exact hc

lemma Turns.terminated {js : JsString} {capture : List (Option ℕ)} {i : ℕ} {p r : Option Bytes}
    {ts : List (Bytes × GroupReport)} (h : Turns js capture i p ts r) : Terminated ts.length i p := by
  induction h with
  | @nil i p =>
    rintro q -
    simp
  | @cons i p key q g ts r _ hn _ ih =>
    rintro p' rfl
    cases hn with
    | whole => simpa [Terminated] using ih
    | @group i _ _ q hr =>
      have := readGroupName_count hr
      have := ih q rfl
      simp_all

lemma namesStored_iff {bc : Bytecode} : bc.NamesStored ↔ Terminated bc.captureCount 0 bc.lreGetGroupnames := by
  simp [Bytecode.NamesStored, Terminated]

lemma turns_exists {js : JsString} {capture : List (Option ℕ)} {n i : ℕ} {p : Option Bytes}
    (hg : ∀ k < n, ∃ g, reportGroup js (slot capture (2 * (i + k)))
      (slot capture (2 * (i + k) + 1)) = .ok g) (hp : Terminated n i p) :
    ∃ ts r, ts.length = n ∧ Turns js capture i p ts r := by
  induction n generalizing i p with
  | zero => exact ⟨[], p, rfl, .nil⟩
  | succ n ih =>
    obtain ⟨g, hg₀⟩ := hg 0 (Nat.succ_pos n)
    obtain ⟨key, q, hn, hq⟩ := hp.next
    obtain ⟨ts, r, hl, ht⟩ := ih (i := i + 1) (p := q) (fun k hk => by
      have := hg (k + 1) (Nat.succ_lt_succ hk)
      rwa [show i + (k + 1) = i + 1 + k by omega] at this) hq
    exact ⟨(key, g) :: ts, r, by simp [hl], .cons hg₀ hn ht⟩

/-- A match that `exec` can report: its name table can be read, unset groups occur only with an 8-bit
subject, and spans are in order and lie within the stored bytes. -/
structure Reportable (bc : Bytecode) (js : JsString) (capture : List (Option ℕ)) : Prop where
  names : bc.NamesStored
  unset : ∀ i < bc.captureCount, slot capture (2 * i) = none → js.isWideChar = false
  span : ∀ i < bc.captureCount, ∀ s e, slot capture (2 * i) = some s → slot capture (2 * i + 1) = some e →
    js.byteAt s ≤ js.byteAt e ∧ js.byteAt e ≤ js.bstr.length + 1

lemma reportGroup_iff {js : JsString} (h : js.WellFormed) (ha : js.isWideChar = true → 2 ≤ js.addr)
    {count i : ℕ}
    {capture : List (Option ℕ)} (hc : Captured js.len count capture) (hi : i < count) :
    (∃ g, reportGroup js (slot capture (2 * i)) (slot capture (2 * i + 1)) = .ok g) ↔
      (slot capture (2 * i) = none → js.isWideChar = false) ∧
      ∀ s e, slot capture (2 * i) = some s → slot capture (2 * i + 1) = some e →
        js.byteAt s ≤ js.byteAt e ∧ js.byteAt e ≤ js.bstr.length + 1 := by
  rcases hc.group i hi with ⟨h₀, h₁⟩ | ⟨s, e, h₀, h₁, hse, he⟩
  · rw [h₀, h₁]
    cases hw : js.isWideChar with
    | false => simp [reportGroup_none_narrow hw]
    | true => simp [reportGroup_none_wide hw (ha hw)]
  · rw [h₀, h₁, reportGroup_some_iff h he hse]
    simp

theorem buildMatch_iff {js : JsString} (h : js.WellFormed) (ha : js.isWideChar = true → 2 ≤ js.addr)
    {bc : Bytecode} (hcc : 0 < bc.captureCount) {capture : List (Option ℕ)}
    (hc : Captured js.len bc.captureCount capture) :
    (∃ m, buildMatch bc js capture = .ok m) ↔ Reportable bc js capture := by
  simp only [buildMatch_ok_iff]
  constructor
  · rintro ⟨m, index, ts, r, -, hl, ht, rfl⟩
    have hrep {i : ℕ} (hi : i < bc.captureCount) := (reportGroup_iff h ha hc hi).mp ⟨_, by
      have := ht.report (k := i) (by omega)
      rwa [Nat.zero_add] at this⟩
    exact ⟨namesStored_iff.mpr (hl ▸ ht.terminated), fun i hi => (hrep hi).1, fun i hi => (hrep hi).2⟩
  · intro hr
    obtain ⟨s, e, h₀, -, hse, he⟩ := hc.span hcc
    have hrep : ∀ k < bc.captureCount, ∃ g, reportGroup js (slot capture (2 * (0 + k)))
        (slot capture (2 * (0 + k) + 1)) = .ok g := by
      intro k hk
      rw [Nat.zero_add]
      exact (reportGroup_iff h ha hc hk).mpr ⟨hr.unset k hk, hr.span k hk⟩
    obtain ⟨ts, r, hl, ht⟩ := turns_exists hrep (namesStored_iff.mp hr.names)
    exact ⟨_, _, ts, r, by rw [h₀]; exact matchIndex_some h (hse.trans he), hl, ht, rfl⟩

variable {js : JsString} {bc : Bytecode} {capture : List (Option ℕ)} {m : Match}

lemma buildMatch_index (h : js.WellFormed) (hm : buildMatch bc js capture = .ok m) {s : ℕ}
    (h₀ : slot capture 0 = some s) (hs : s ≤ js.len) : m.index = js.byteAt s + 1 := by
  obtain ⟨index, ts, r, hi, -, -, rfl⟩ := buildMatch_ok_iff.mp hm
  rw [h₀, matchIndex_some h hs] at hi
  exact (Except.ok.inj hi).symm

lemma buildMatch_index_pos (hind : ∀ v ∈ js.indices, v + 1 < 2 ^ 32) (hm : buildMatch bc js capture = .ok m)
    {s : ℕ} (h₀ : slot capture 0 = some s) : 1 ≤ m.index := by
  obtain ⟨index, ts, r, hi, -, -, rfl⟩ := buildMatch_ok_iff.mp hm
  rw [h₀, matchIndex] at hi
  show 1 ≤ index
  split at hi
  · obtain ⟨v, hv, hi⟩ := except_bind_ok_iff.mp hi
    have hmem : v ∈ js.indices := by
      simp only [lookupIndex] at hv
      split at hv
      · next hin =>
        rw [← Except.ok.inj hv, List.getD_eq_getElem _ _ hin.2]
        exact List.getElem_mem _
      · cases hv
    have := hind v hmem
    have hi' : uint32 (1 + v) = index := Except.ok.inj hi
    simp only [uint32] at hi'
    omega
  · have hi' : (1 + captureOffset js (some s)).toNat = index := Except.ok.inj hi
    rw [captureOffset_some] at hi'
    split at hi' <;> omega

lemma buildMatch_length (hm : buildMatch bc js capture = .ok m) : m.captures.length = bc.captureCount := by
  obtain ⟨index, ts, r, -, hl, -, rfl⟩ := buildMatch_ok_iff.mp hm
  simpa [matchOf] using hl

theorem buildMatch_group (h : js.WellFormed) (hm : buildMatch bc js capture = .ok m) {i s e : ℕ}
    (hi : i < bc.captureCount) (h₀ : slot capture (2 * i) = some s) (h₁ : slot capture (2 * i + 1) = some e)
    (hse : s ≤ e) (he : e ≤ js.len) :
    js.byteAt s ≤ js.byteAt e ∧ js.byteAt e ≤ js.bstr.length + 1 ∧
      m.captures[i]? = some ((js.stored.drop (js.byteAt s)).take (js.byteAt e - js.byteAt s)) ∧
      ∀ mi, m.indices = some mi → mi.pairs[i]? = some (uint32 (js.byteAt s + 1), js.byteAt e) := by
  obtain ⟨index, ts, r, -, hl, ht, rfl⟩ := buildMatch_ok_iff.mp hm
  have hi' : i < ts.length := hl ▸ hi
  have hrep := ht.report hi'
  rw [Nat.zero_add, h₀, h₁] at hrep
  obtain ⟨hle, hb⟩ := (reportGroup_some_iff h he hse).mp ⟨_, hrep⟩
  have hg : (ts.get ⟨i, hi'⟩).2 = _ := Except.ok.inj (hrep.symm.trans (reportGroup_some h he hse hle hb))
  have hget : ts[i]? = some (ts.get ⟨i, hi'⟩) := List.getElem?_eq_getElem hi'
  refine ⟨hle, hb, ?_, ?_⟩
  · simp only [matchOf, List.getElem?_map, hget, Option.map_some, hg]
  · intro mi hmi
    by_cases hd : bc.hasFlag lreFlagIndices
    · simp only [matchOf, hd, if_true, Option.some.injEq] at hmi
      subst hmi
      simp only [List.getElem?_map, hget, Option.map_some, hg, GroupReport.pair]
    · simp [matchOf, hd] at hmi

lemma buildMatch_indices (hm : buildMatch bc js capture = .ok m) :
    m.indices.isSome = bc.hasFlag lreFlagIndices := by
  obtain ⟨index, ts, r, -, -, -, rfl⟩ := buildMatch_ok_iff.mp hm
  by_cases hd : bc.hasFlag lreFlagIndices <;> simp [matchOf, hd]

end Turns

section Exec

variable {lreExec : Engine} {re : RegExp} {js : JsString}

lemma regexpExec_beyond (hm : re.moves = true) (hs : ¬ re.Starts js) :
    regexpExec lreExec re js = ⟨{ re with lastIndex := 0 }, .ok none⟩ := by
  have hlt : js.len < translateIndex js re.lastIndex := by
    simpa [RegExp.Starts, RegExp.startIndex, hm] using hs
  simp only [RegExp.moves] at hm
  simp [regexpExec, hm, hlt]

lemma starts_iff (h : js.WellFormed) (hm : re.moves = true) : re.Starts js ↔ re.lastIndex ≤ js.bstrLen := by
  rw [RegExp.Starts, RegExp.startIndex, if_pos hm, h.translateIndex_le_iff]

lemma RegExp.starts_of_not_moves (hm : re.moves = false) : re.Starts js := by
  simp [RegExp.Starts, RegExp.startIndex, hm]

lemma regexpExec_noMatch (hs : re.Starts js) (hc : re.call lreExec js = .noMatch) :
    regexpExec lreExec re js = ⟨{ re with lastIndex := 0 }, .ok none⟩ := by
  cases hm : re.moves with
  | true =>
    have hle : ¬ js.len < translateIndex js re.lastIndex := by
      simpa [RegExp.Starts, RegExp.startIndex, hm] using hs
    simp only [RegExp.call, RegExp.startIndex, hm, if_true] at hc
    simp only [RegExp.moves] at hm
    simp [regexpExec, hm, hle, hc]
  | false =>
    simp only [RegExp.call, RegExp.startIndex, hm, Bool.false_eq_true, if_false] at hc
    simp only [RegExp.moves] at hm
    simp [regexpExec, hm, hc]

lemma regexpExec_fails (hs : re.Starts js)
    (hc : re.call lreExec js = .memoryError ∨ re.call lreExec js = .timeout) :
    regexpExec lreExec re js = ⟨{ re with lastIndex := if re.moves then re.lastIndex else 0 },
      .error (.raised (bytesOf "out of memory in regexp execution"))⟩ := by
  cases hm : re.moves with
  | true =>
    have hle : ¬ js.len < translateIndex js re.lastIndex := by
      simpa [RegExp.Starts, RegExp.startIndex, hm] using hs
    simp only [RegExp.call, RegExp.startIndex, hm, if_true] at hc
    simp only [RegExp.moves] at hm
    rcases hc with hc | hc <;> simp [regexpExec, hm, hle, hc]
  | false =>
    simp only [RegExp.call, RegExp.startIndex, hm, Bool.false_eq_true, if_false] at hc
    simp only [RegExp.moves] at hm
    rcases hc with hc | hc <;> simp [regexpExec, hm, hc]

lemma regexpExec_undefined (hs : re.Starts js) (hc : re.call lreExec js = .undefined) :
    regexpExec lreExec re js = ⟨{ re with lastIndex := if re.moves then re.lastIndex else 0 }, .error .undefined⟩ := by
  cases hm : re.moves with
  | true =>
    have hle : ¬ js.len < translateIndex js re.lastIndex := by
      simpa [RegExp.Starts, RegExp.startIndex, hm] using hs
    simp only [RegExp.call, RegExp.startIndex, hm, if_true] at hc
    simp only [RegExp.moves] at hm
    simp [regexpExec, hm, hle, hc]
  | false =>
    simp only [RegExp.call, RegExp.startIndex, hm, Bool.false_eq_true, if_false] at hc
    simp only [RegExp.moves] at hm
    simp [regexpExec, hm, hc]

lemma regexpExec_captured (hs : re.Starts js) {capture : List (Option ℕ)}
    (hc : re.call lreExec js = .matched capture) :
    regexpExec lreExec re js = match (if re.moves then matchEnd js (slot capture 1) else .ok 0) with
      | .error e => ⟨re, .error e⟩
      | .ok li => ⟨{ re with lastIndex := li }, (buildMatch re.bc js capture).map some⟩ := by
  cases hm : re.moves with
  | true =>
    have hle : ¬ js.len < translateIndex js re.lastIndex := by
      simpa [RegExp.Starts, RegExp.startIndex, hm] using hs
    simp only [RegExp.call, RegExp.startIndex, hm, if_true] at hc
    simp only [RegExp.moves] at hm
    cases he : matchEnd js (slot capture 1) <;>
      simp only [regexpExec, hm, if_true, gt_iff_lt, hle, decide_false, Bool.and_false, Bool.false_eq_true,
        if_false, hc, he]
  | false =>
    simp only [RegExp.call, RegExp.startIndex, hm, Bool.false_eq_true, if_false] at hc
    simp only [RegExp.moves] at hm
    simp only [regexpExec, hm, Bool.false_eq_true, if_false, Bool.false_and, hc]

lemma regexpExec_matched (h : js.WellFormed) (hs : re.Starts js) {capture : List (Option ℕ)}
    (hc : re.call lreExec js = .matched capture) {e : ℕ} (h₁ : slot capture 1 = some e) (he : e ≤ js.len) :
    regexpExec lreExec re js = ⟨{ re with lastIndex := if re.moves then js.byteAt e else 0 },
      (buildMatch re.bc js capture).map some⟩ := by
  rw [regexpExec_captured hs hc, h₁, matchEnd_some h he]
  cases re.moves <;> rfl

lemma call_of_some {m : Match} (hr : (regexpExec lreExec re js).result = .ok (some m)) :
    re.Starts js ∧ ∃ capture, re.call lreExec js = .matched capture := by
  by_cases hs : re.Starts js
  · refine ⟨hs, ?_⟩
    cases hc : re.call lreExec js with
    | undefined => simp [regexpExec_undefined hs hc] at hr
    | memoryError => simp [regexpExec_fails hs (.inl hc)] at hr
    | timeout => simp [regexpExec_fails hs (.inr hc)] at hr
    | noMatch => simp [regexpExec_noMatch hs hc] at hr
    | matched capture => exact ⟨capture, rfl⟩
  · cases hm : re.moves with
    | false => exact absurd (RegExp.starts_of_not_moves hm) hs
    | true => simp [regexpExec_beyond hm hs] at hr

lemma buildMatch_of_some {m : Match} (hr : (regexpExec lreExec re js).result = .ok (some m))
    {capture : List (Option ℕ)} (hc : re.call lreExec js = .matched capture) :
    buildMatch re.bc js capture = .ok m := by
  have hb {x : Except Failure Match} (hx : x.map some = .ok (some m)) : x = .ok m := by
    cases x with
    | error e => cases hx
    | ok m' => exact congrArg Except.ok (Option.some.inj (Except.ok.inj hx))
  have hs := (call_of_some hr).1
  cases hm : re.moves with
  | true =>
    have hle : ¬ js.len < translateIndex js re.lastIndex := by
      simpa [RegExp.Starts, RegExp.startIndex, hm] using hs
    simp only [RegExp.call, RegExp.startIndex, hm, if_true] at hc
    simp only [RegExp.moves] at hm
    simp only [regexpExec, hm, if_true, gt_iff_lt, hle, decide_false, Bool.and_false, Bool.false_eq_true,
      if_false, hc] at hr
    split at hr
    · cases hr
    · exact hb hr
  | false =>
    simp only [RegExp.call, RegExp.startIndex, hm, Bool.false_eq_true, if_false] at hc
    simp only [RegExp.moves] at hm
    simp only [regexpExec, hm, Bool.false_eq_true, if_false, Bool.false_and, hc] at hr
    exact hb hr

lemma regexpExec_left : ∃ n, (regexpExec lreExec re js).re = { re with lastIndex := n } ∧
    ((regexpExec lreExec re js).result = .ok none → n = 0) := by
  by_cases hs : re.Starts js
  · cases hc : re.call lreExec js with
    | undefined =>
      rw [regexpExec_undefined hs hc]
      exact ⟨_, rfl, fun h => by cases h⟩
    | memoryError =>
      rw [regexpExec_fails hs (.inl hc)]
      exact ⟨_, rfl, fun h => by cases h⟩
    | timeout =>
      rw [regexpExec_fails hs (.inr hc)]
      exact ⟨_, rfl, fun h => by cases h⟩
    | noMatch =>
      rw [regexpExec_noMatch hs hc]
      exact ⟨0, rfl, fun _ => rfl⟩
    | matched capture =>
      rw [regexpExec_captured hs hc]
      cases if re.moves then matchEnd js (slot capture 1) else .ok 0 with
      | error e => exact ⟨re.lastIndex, rfl, fun h => by cases h⟩
      | ok n =>
        refine ⟨n, rfl, fun h => ?_⟩
        cases hb : buildMatch re.bc js capture <;> simp [hb, Except.map] at h
  · cases hm : re.moves with
    | false => exact absurd (RegExp.starts_of_not_moves hm) hs
    | true =>
      rw [regexpExec_beyond hm hs]
      exact ⟨0, rfl, fun _ => rfl⟩

end Exec

section Outcomes

lemma lookupIndex_error {js : JsString} {c : Option ℕ} {e : Failure} (h : lookupIndex js c = .error e) :
    e = .undefined := by
  simp only [lookupIndex] at h
  split at h
  · cases h
  · exact (Except.error.inj h).symm

lemma matchEnd_error {js : JsString} {c : Option ℕ} {e : Failure} (h : matchEnd js c = .error e) :
    e = .undefined := by
  rw [matchEnd] at h
  split at h
  · exact lookupIndex_error h
  · cases h

lemma reportGroup_error {js : JsString} {c₀ c₁ : Option ℕ} {e : Failure} (h : reportGroup js c₀ c₁ = .error e) :
    e = .undefined := by
  have hslice {t : Bytes} {a n : ℕ} {e : Failure} (h : slice t a n = .error e) : e = .undefined := by
    rw [slice] at h
    split at h
    · cases h
    · exact (Except.error.inj h).symm
  rw [reportGroup] at h
  split at h
  · rcases except_bind_error_iff.mp h with h | ⟨a, -, h⟩
    · exact lookupIndex_error h
    rcases except_bind_error_iff.mp h with h | ⟨b, -, h⟩
    · exact lookupIndex_error h
    rcases except_bind_error_iff.mp h with h | ⟨t, -, h⟩
    · exact hslice h
    · cases h
  · rcases except_bind_error_iff.mp h with h | ⟨t, -, h⟩
    · rw [pushCapture.eq_def] at h
      split at h
      · cases h
      · split at h
        · exact hslice h
        · exact (Except.error.inj h).symm
      · exact (Except.error.inj h).symm
    · cases h

lemma nameGroup_error {i : ℕ} {g : GroupReport} {st : CaptureState} {e : Failure}
    (h : nameGroup i g st = .error e) : e = .undefined := by
  rw [nameGroup] at h
  split at h
  · split at h
    · rcases except_bind_error_iff.mp h with h | ⟨⟨key, p⟩, -, h⟩
      · rw [readGroupName] at h
        split at h
        · cases h
        · exact (Except.error.inj h).symm
      · by_cases hk : key = []
        · simp [hk, pure, Except.pure] at h
        · simp [hk, pure, Except.pure] at h
    · cases h
  · cases h

lemma captureLoop_error {js : JsString} {capture : List (Option ℕ)} {n i : ℕ} {st : CaptureState} {e : Failure}
    (h : captureLoop js capture n i st = .error e) : e = .undefined := by
  induction n generalizing i st with
  | zero => cases h
  | succ n ih =>
    rcases except_bind_error_iff.mp h with h | ⟨st', -, h⟩
    · rcases except_bind_error_iff.mp h with h | ⟨g, -, h⟩
      · exact reportGroup_error h
      rcases except_bind_error_iff.mp h with h | ⟨st', -, h⟩
      · exact nameGroup_error h
      · cases h
    · exact ih h

lemma buildMatch_error {bc : Bytecode} {js : JsString} {capture : List (Option ℕ)} {e : Failure}
    (h : buildMatch bc js capture = .error e) : e = .undefined := by
  rcases except_bind_error_iff.mp h with h | ⟨index, -, h⟩
  · rw [matchIndex] at h
    split at h
    · rcases except_bind_error_iff.mp h with h | ⟨_, -, h⟩
      · exact lookupIndex_error h
      · cases h
    · cases h
  · rcases except_bind_error_iff.mp h with h | ⟨st, -, h⟩
    · exact captureLoop_error h
    · cases h

def BetweenHalves (cbuf : List ℕ) (cindex clen cbufType : ℕ) : Prop :=
  cbufType ≠ 0 ∧ 0 < cindex ∧ cindex < clen ∧ isHiSurrogate (cbuf.getD (cindex - 1) 0) = true ∧
    isLoSurrogate (cbuf.getD cindex 0) = true

/-- What is assumed of `lre_exec` besides: it matches at or after `cindex`, unless it steps back from there to the front
of a surrogate pair. -/
def Engine.Forward (lreExec : Engine) (bc : Bytecode) : Prop :=
  ∀ cbuf cindex clen cbufType capture, ¬ BetweenHalves cbuf cindex clen cbufType →
    lreExec bc cbuf cindex clen cbufType = .matched capture → ∀ s, slot capture 0 = some s → cindex ≤ s

def JsString.StartsBetween (js : JsString) : Prop := ∀ re : RegExp, re.Starts js → ¬ js.InsidePair (re.startIndex js)

lemma jsstringNew_startsBetween {addr : ℕ} {str : Bytes} {js : JsString} (hjs : jsstringNew addr str = .ok js)
    (hv : ValidUtf8 str) (hlen : 0 ∈ str → str.length + 1 < 2 ^ 32) : js.StartsBetween := by
  intro re hs
  have h := jsstringNew_wellFormed hjs hlen
  rw [insidePair_iff_interior hjs hv hlen hs]
  cases hm : re.moves with
  | false => simp [RegExp.startIndex, hm, JsString.Interior]
  | true =>
    rw [RegExp.startIndex, if_pos hm]
    exact h.translateIndex_not_interior ((starts_iff h hm).mp hs)

lemma not_betweenHalves {re : RegExp} {js : JsString} (hb : js.StartsBetween) (hs : re.Starts js) :
    ¬ BetweenHalves js.units (re.startIndex js) js.len (if js.isWideChar then 1 else 0) := by
  rintro ⟨htype, hpos, hlt, hhi, hlo⟩
  refine hb re hs ⟨?_, hpos, hlt, hhi, hlo⟩
  by_contra hn
  simp [hn] at htype

lemma Engine.Forward.call {lreExec : Engine} {re : RegExp} {js : JsString} (hf : lreExec.Forward re.bc)
    (hb : js.StartsBetween) (hs : re.Starts js) {capture : List (Option ℕ)} (hc : re.call lreExec js = .matched capture)
    {s : ℕ} (h₀ : slot capture 0 = some s) : re.startIndex js ≤ s :=
  hf _ _ _ _ _ (not_betweenHalves hb hs) (lreExec_of_call hc) s h₀

inductive ExecOutcome (lreExec : Engine) (re : RegExp) (js : JsString) : Outcome (Option Match) → Prop
  | none : (re.Starts js → re.call lreExec js = .noMatch) →
      ExecOutcome lreExec re js ⟨{ re with lastIndex := 0 }, .ok none⟩
  | fails : re.Starts js → re.call lreExec js = .memoryError ∨ re.call lreExec js = .timeout →
      ExecOutcome lreExec re js ⟨re, .error (.raised (bytesOf "out of memory in regexp execution"))⟩
  | refused : re.Starts js → re.call lreExec js = .undefined → ExecOutcome lreExec re js ⟨re, .error .undefined⟩
  | undefined {capture e} : re.Starts js → re.call lreExec js = .matched capture → slot capture 1 = some e →
      ¬ Reportable re.bc js capture →
      ExecOutcome lreExec re js ⟨{ re with lastIndex := js.byteAt e }, .error .undefined⟩
  | some {capture s e m} : re.Starts js → re.call lreExec js = .matched capture → slot capture 0 = some s →
      slot capture 1 = some e → re.startIndex js ≤ s → s ≤ e → e ≤ js.len → Reportable re.bc js capture →
      buildMatch re.bc js capture = .ok m →
      ExecOutcome lreExec re js ⟨{ re with lastIndex := js.byteAt e }, .ok (some m)⟩

theorem execOutcome {lreExec : Engine} {re : RegExp} {js : JsString} (hl : lreExec.Captures re.bc)
    (hf : lreExec.Forward re.bc) (hb : js.StartsBetween) (h : js.WellFormed) (ha : 2 ≤ js.addr)
    (hcc : 0 < re.bc.captureCount) (hm : re.moves = true) : ExecOutcome lreExec re js (regexpExec lreExec re js) := by
  by_cases hs : re.Starts js
  · cases hc : re.call lreExec js with
    | undefined =>
      rw [regexpExec_undefined hs hc, if_pos hm]
      exact .refused hs hc
    | memoryError =>
      rw [regexpExec_fails hs (.inl hc), if_pos hm]
      exact .fails hs (.inl hc)
    | timeout =>
      rw [regexpExec_fails hs (.inr hc), if_pos hm]
      exact .fails hs (.inr hc)
    | noMatch =>
      rw [regexpExec_noMatch hs hc]
      exact .none fun _ => hc
    | matched capture =>
      have hcap := hl.call hc
      obtain ⟨s, e, h₀, h₁, hse, he⟩ := hcap.span hcc
      have hstart := hf.call hb hs hc h₀
      have hiff := buildMatch_iff h (fun _ => ha) hcc hcap
      rw [regexpExec_matched h hs hc h₁ he, if_pos hm]
      cases hbuild : buildMatch re.bc js capture with
      | ok m => exact .some hs hc h₀ h₁ hstart hse he (hiff.mp ⟨m, hbuild⟩) hbuild
      | error f =>
        obtain rfl : f = .undefined := buildMatch_error hbuild
        refine .undefined hs hc h₁ fun hr => ?_
        obtain ⟨m, hm⟩ := hiff.mpr hr
        cases hbuild.symm.trans hm
  · rw [regexpExec_beyond hm hs]
    exact .none fun hs' => absurd hs' hs

lemma regexpExec_none {lreExec : Engine} {re : RegExp} {js : JsString} (hm : re.moves = true)
    (h : re.Starts js → re.call lreExec js = .noMatch) :
    regexpExec lreExec re js = ⟨{ re with lastIndex := 0 }, .ok none⟩ := by
  by_cases hs : re.Starts js
  · exact regexpExec_noMatch hs (h hs)
  · exact regexpExec_beyond hm hs

section Matched

variable {lreExec : Engine} {re : RegExp} {js : JsString} (hl : lreExec.Captures re.bc) (hf : lreExec.Forward re.bc)
variable (hb : js.StartsBetween) (h : js.WellFormed) (ha : 2 ≤ js.addr) (hcc : 0 < re.bc.captureCount)
variable (hm : re.moves = true)
variable (hs : re.Starts js) {capture : List (Option ℕ)} (hc : re.call lreExec js = .matched capture)
include hl hf hb h ha hcc hm hs hc

lemma regexpExec_reported (hr : Reportable re.bc js capture) : ∃ e m, slot capture 1 = some e ∧ e ≤ js.len ∧
    regexpExec lreExec re js = ⟨{ re with lastIndex := js.byteAt e }, .ok (some m)⟩ := by
  have ho := execOutcome hl hf hb h ha hcc hm
  generalize regexpExec lreExec re js = o at ho
  cases ho with
  | none hn => cases (hn hs).symm.trans hc
  | fails _ hn => rcases hn with hn | hn <;> cases hn.symm.trans hc
  | refused _ hn => cases hn.symm.trans hc
  | undefined _ hc' _ hr' =>
    obtain rfl := LreResult.matched.inj (hc.symm.trans hc')
    exact absurd hr hr'
  | some _ hc' _ h₁ _ _ he _ _ =>
    obtain rfl := LreResult.matched.inj (hc.symm.trans hc')
    exact ⟨_, _, h₁, he, rfl⟩

lemma regexpExec_unreported (hr : ¬ Reportable re.bc js capture) :
    ∃ re', regexpExec lreExec re js = ⟨re', .error .undefined⟩ := by
  have ho := execOutcome hl hf hb h ha hcc hm
  generalize regexpExec lreExec re js = o at ho
  cases ho with
  | none hn => cases (hn hs).symm.trans hc
  | fails _ hn => rcases hn with hn | hn <;> cases hn.symm.trans hc
  | refused _ hn => cases hn.symm.trans hc
  | undefined => exact ⟨_, rfl⟩
  | some _ hc' _ _ _ _ _ hr' _ =>
    obtain rfl := LreResult.matched.inj (hc.symm.trans hc')
    exact absurd hr' hr

end Matched

end Outcomes

end Jsregexp
