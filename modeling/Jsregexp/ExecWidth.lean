import Jsregexp.ExecUnset
import Jsregexp.JsStringRepresents

namespace Jsregexp

open Library.Offsets

section Forms

def narrowForm (addr : ℕ) (input : Bytes) : JsString where
  isWideChar := false
  len := uint32 input.length
  bstrLen := uint32 input.length
  units := (cString input).map UInt8.toNat
  bstr := cString input
  indices := []
  revIndices := []
  addr := addr

/-- The form `utf8_to_utf16` gives a subject, whether or not it needs it. -/
def wideForm (addr : ℕ) (input : Bytes) : Except Failure JsString := do
  match ← utf8ToUtf16 input (uint32 input.length) with
  | none => .error (.raised (bytesOf "malformed unicode"))
  | some t =>
    return { isWideChar := true, len := t.str.length, units := t.str, bstr := cString input,
             bstrLen := uint32 input.length, indices := t.indices, revIndices := t.revIndices, addr }

lemma jsstringNew_forms (addr : ℕ) (input : Bytes) : jsstringNew addr input =
    if utf8ContainsNonAscii input then wideForm addr input else .ok (narrowForm addr input) := rfl

def asciiWide (addr : ℕ) (str : Bytes) : JsString where
  isWideChar := true
  len := str.length
  bstrLen := str.length
  units := str.map UInt8.toNat
  bstr := str
  indices := List.range (str.length + 1)
  revIndices := List.range (str.length + 1)
  addr := addr

variable {str : Bytes} {addr : ℕ}

lemma marks_ones {α : Type*} {f g : α → ℕ} {l : List α} (hf : ∀ a ∈ l, f a = 1) (hg : ∀ a ∈ l, g a = 1) (b : ℕ) :
    marks f g b l = List.range' b l.length := by
  induction l generalizing b with
  | nil => rfl
  | cons a l ih =>
    have hl := ih (fun x hx => hf x (List.mem_cons_of_mem _ hx)) (fun x hx => hg x (List.mem_cons_of_mem _ hx)) (b + 1)
    simp [marks, hf a List.mem_cons_self, hg a List.mem_cons_self, hl, List.range'_succ]

lemma total_ones {α : Type*} {f : α → ℕ} {l : List α} (hf : ∀ a ∈ l, f a = 1) : total f l = l.length := by
  induction l with
  | nil => rfl
  | cons a l ih =>
    rw [total_cons, hf a List.mem_cons_self, ih fun x hx => hf x (List.mem_cons_of_mem _ hx), List.length_cons]
    omega

lemma table_ones {α : Type*} {f g : α → ℕ} {l : List α} (hf : ∀ a ∈ l, f a = 1) (hg : ∀ a ∈ l, g a = 1) :
    table f g l = List.range (l.length + 1) := by
  rw [table, marks_ones hf hg, total_ones hg, List.range_succ, List.range_eq_range']

lemma wideForm_ascii (hz : 0 ∉ str) (ha : ∀ b ∈ str, b.toNat < 0x80) (hlen : str.length + 1 < 2 ^ 32) :
    wideForm addr str = .ok (asciiWide addr str) := by
  have hmod : uint32 str.length = str.length := Nat.mod_eq_of_lt (by omega)
  have hb : textBytes (str.map CodePoint.ofByte) = str := textBytes_ascii str
  have hbytes : ∀ cp ∈ str.map CodePoint.ofByte, cp.byteLen = 1 := by simp [CodePoint.byteLen, CodePoint.ofByte]
  have hunits : ∀ cp ∈ str.map CodePoint.ofByte, cp.unitLen = 1 := by
    intro cp hcp
    obtain ⟨b, hb, rfl⟩ := List.mem_map.mp hcp
    have := ha b hb
    rw [CodePoint.unitLen, CodePoint.units, utf16Units_bmp (by simp only [CodePoint.ofByte]; omega)]
    rfl
  have htable : finalUtf16 str.length (str.map CodePoint.ofByte) =
      ⟨str.map UInt8.toNat, List.range (str.length + 1), List.range (str.length + 1)⟩ := by
    simp only [finalUtf16, textUnits_ascii ha, marks_ones hunits hbytes, marks_ones hbytes hunits, total_ones hunits,
      total_ones hbytes, List.length_map, Nat.sub_self, List.replicate_zero, List.nil_append, List.range_succ,
      List.range_eq_range']
  have hconv : utf8ToUtf16 str str.length = .ok (some (finalUtf16 str.length (str.map CodePoint.ofByte))) := by
    have h := utf8ToUtf16_eq (decodes_ascii ha) (hb.symm ▸ hz) hlen (by rw [hb]) (.inl (peek_nil 0))
    rwa [peek_nil, if_pos rfl] at h
  rw [wideForm, hmod, hconv, htable]
  simp [asciiWide, cString_eq_self hz, bind, Except.bind, pure, Except.pure]

lemma wideForm_length {js : JsString} (hz : 0 ∉ str) (h : wideForm addr str = .ok js) : str.length + 1 < 2 ^ 32 := by
  obtain ⟨t, ht, hjs⟩ := except_bind_ok_iff.mp h
  cases t with
  | none => cases hjs
  | some t =>
    have hfit := utf8ToUtf16Loop_fits ht hz (by simp) (Nat.zero_le _)
    simp only [uint32] at hfit
    omega

lemma asciiWide_wellFormed (addr : ℕ) (hlen : str.length + 1 < 2 ^ 32) : (asciiWide addr str).WellFormed where
  bstrLen_lt := Nat.lt_of_succ_lt hlen
  narrow hn := by cases hn
  fits _ := ⟨hlen, le_rfl⟩
  wide _ := by
    let l : List Span := List.replicate str.length ⟨1, 1, le_rfl, le_rfl⟩
    have hl : l.length = str.length := List.length_replicate
    have hu : ∀ a ∈ l, Span.units a = 1 := fun a h => by rw [List.eq_of_mem_replicate h]
    have hb : ∀ a ∈ l, Span.bytes a = 1 := fun a h => by rw [List.eq_of_mem_replicate h]
    refine ⟨l, ?_, ?_, le_rfl, ⟨0, ?_⟩, ?_⟩
    · rw [total_ones hu, hl]
      rfl
    · rw [total_ones hb, hl]
      rfl
    · rw [table_ones hu hb, hl, List.replicate_zero, List.append_nil]
      rfl
    · rw [table_ones hb hu, hl]
      rfl

lemma asciiWide_byteAt (addr : ℕ) {u : ℕ} (hu : u ≤ str.length) : (asciiWide addr str).byteAt u = u := by
  simp [JsString.byteAt, asciiWide, Nat.lt_succ_of_le hu]

lemma narrowForm_wellFormed : (narrowForm addr str).WellFormed where
  bstrLen_lt := Nat.mod_lt _ (by norm_num)
  narrow _ := rfl
  wide hw := by cases hw
  fits hw := by cases hw

end Forms

section Outcome

/-- What is assumed of `lre_exec` besides: on units that fit a byte its result does not depend on their width, as long
as `clen << cbuf_type` is an `int`. -/
structure Engine.WidthFree (lreExec : Engine) (bc : Bytecode) : Prop where
  same : ∀ cbuf cindex clen, (∀ u ∈ cbuf, u < 256) → clen < 2 ^ 30 →
    lreExec bc cbuf cindex clen 0 = lreExec bc cbuf cindex clen 1
  long : ∀ cbuf cindex clen, 2 ^ 30 ≤ clen → lreExec bc cbuf cindex clen 1 = .undefined

/-- Two outcomes of `exec` that Lua cannot tell apart, but for groups that took no part. -/
structure SameOutcome (took : ℕ → Prop) (o o' : Outcome (Option Match)) : Prop where
  defined : o.result ≠ .error .undefined
  re : o.re = o'.re
  noMatch : o.result = .ok none ↔ o'.result = .ok none
  matched : (∃ m, o.result = .ok (some m)) ↔ ∃ m, o'.result = .ok (some m)
  error : ∀ e, o.result = .error e ↔ o'.result = .error e
  index : ∀ m m', o.result = .ok (some m) → o'.result = .ok (some m') → m.index = m'.index
  group : ∀ m m', o.result = .ok (some m) → o'.result = .ok (some m') → ∀ i, took i →
    m.captures[i]? = m'.captures[i]? ∧
      (m.indices.bind fun mi => mi.pairs[i]?) = m'.indices.bind fun mi => mi.pairs[i]?

def TookPart (lreExec : Engine) (re : RegExp) (js : JsString) (i : ℕ) : Prop :=
  ∃ capture, re.call lreExec js = .matched capture ∧ i < re.bc.captureCount ∧ slot capture (2 * i) ≠ none

def WidthAgrees (lreExec : Engine) (re : RegExp) (addr addr' : ℕ) (str : Bytes) : Prop :=
  ∃ js js', jsstringNew addr str = .ok js ∧ wideForm addr' str = .ok js' ∧
    SameOutcome (TookPart lreExec re js) (regexpExec lreExec re js) (regexpExec lreExec re js')

lemma SameOutcome.refl_of_not_some {took : ℕ → Prop} {o o' : Outcome (Option Match)} (h : o = o')
    (hd : o.result ≠ .error .undefined) (hn : ∀ m, o.result ≠ .ok (some m)) : SameOutcome took o o' := by
  subst h
  constructor
  · exact hd
  · rfl
  · rfl
  · rfl
  · intro e
    rfl
  · intro m m' hm
    exact absurd hm (hn m)
  · intro m m' hm
    exact absurd hm (hn m)

variable {lreExec : Engine} {re : RegExp} {str : Bytes} {addr addr' : ℕ}

lemma narrowForm_ascii (addr : ℕ) (hz : 0 ∉ str) (ha : ∀ b ∈ str, b.toNat < 0x80) :
    jsstringNew addr str = .ok (narrowForm addr str) := by
  rw [jsstringNew_forms, if_neg]
  rintro h
  obtain ⟨b, hb, hge⟩ := (nonAscii_iff hz).mp h
  exact absurd (ha b hb) (Nat.not_lt.mpr hge)

lemma narrowForm_len (addr : ℕ) (hlen : str.length + 1 < 2 ^ 32) : (narrowForm addr str).len = str.length :=
  Nat.mod_eq_of_lt (by omega)

lemma startIndex_forms (re : RegExp) (addr addr' : ℕ) (hlen : str.length + 1 < 2 ^ 32) :
    re.startIndex (narrowForm addr str) = re.startIndex (asciiWide addr' str) := by
  have hw := asciiWide_wellFormed addr' hlen
  have htranslate (i : ℕ) : translateIndex (asciiWide addr' str) i = i := by
    rcases Nat.lt_or_ge str.length i with hi | hi
    · have hbeyond : ¬ i ≤ (asciiWide addr' str).bstrLen := Nat.not_le.mpr hi
      simp [translateIndex, hbeyond]
    · have hin : ¬ (asciiWide addr' str).Interior i := by
        rintro ⟨-, h0, -, hzero⟩
        have hbyte := asciiWide_byteAt addr' hi
        rw [JsString.byteAt, hzero] at hbyte
        have : 0 = i := by simpa [asciiWide] using hbyte
        omega
      have h := hw.translateIndex_byteAt hi hin
      rwa [asciiWide_byteAt _ hi] at h
  have hnarrow (i : ℕ) : translateIndex (narrowForm addr str) i = i := by simp [translateIndex, narrowForm]
  rw [RegExp.startIndex, RegExp.startIndex, htranslate, hnarrow]

lemma call_forms (re : RegExp) (addr addr' : ℕ) (hw : lreExec.WidthFree re.bc) (hz : 0 ∉ str)
    (hlen : str.length < 2 ^ 30) :
    re.call lreExec (narrowForm addr str) = re.call lreExec (asciiWide addr' str) := by
  have hunits : (narrowForm addr str).units = str.map UInt8.toNat := by rw [narrowForm, cString_eq_self hz]
  have hbyte : ∀ u ∈ str.map UInt8.toNat, u < 256 := by
    intro u hu
    obtain ⟨b, -, rfl⟩ := List.mem_map.mp hu
    exact b.toNat_lt
  have hwidth := hw.same (str.map UInt8.toNat) (re.startIndex (asciiWide addr' str)) str.length hbyte hlen
  rw [RegExp.call, RegExp.call, callLreExec, callLreExec, startIndex_forms re addr addr' (by omega),
    narrowForm_len _ (by omega), hunits]
  exact if_congr Iff.rfl hwidth rfl

lemma call_wide_long (re : RegExp) (addr' : ℕ) (hw : lreExec.WidthFree re.bc) (hlen : 2 ^ 30 ≤ str.length) :
    re.call lreExec (asciiWide addr' str) = .undefined := by
  rw [RegExp.call, callLreExec]
  split
  · exact hw.long _ _ _ hlen
  · rfl

/-- The engine may be called, on the 16-bit form as well, and, where it matches, the names that the header of the regexp
announces are stored and all groups took part. -/
structure WidthSafe (lreExec : Engine) (re : RegExp) (js : JsString) : Prop where
  fits : re.Starts js → js.len < 2 ^ 30
  called : re.Starts js → re.call lreExec js ≠ .undefined
  names : re.Starts js → ∀ capture, re.call lreExec js = .matched capture → re.bc.NamesStored
  tookPart : re.Starts js → ∀ capture, re.call lreExec js = .matched capture →
    ∀ i < re.bc.captureCount, slot capture (2 * i) ≠ none

section Matched

variable (hl : lreExec.Captures re.bc) (hw : lreExec.WidthFree re.bc) (hcc : 0 < re.bc.captureCount)
variable {capture : List (Option ℕ)}

lemma reportable_narrow (hlen : str.length + 1 < 2 ^ 32) (hz : 0 ∉ str)
    (hcap : Captured (narrowForm addr str).len re.bc.captureCount capture) :
    Reportable re.bc (narrowForm addr str) capture ↔ re.bc.NamesStored := by
  refine ⟨fun h => h.names, fun h => ⟨h, fun _ _ _ => rfl, fun i hi s e h₀ h₁ => ?_⟩⟩
  obtain ⟨hse, he⟩ := hcap.took hi h₀ h₁
  rw [narrowForm_len _ hlen] at he
  have hb : (narrowForm addr str).bstr = str := cString_eq_self hz
  rw [hb]
  exact ⟨hse, Nat.le_succ_of_le he⟩

lemma reportable_wide (hcap : Captured (asciiWide addr' str).len re.bc.captureCount capture) :
    Reportable re.bc (asciiWide addr' str) capture ↔
      re.bc.NamesStored ∧ ∀ i < re.bc.captureCount, slot capture (2 * i) ≠ none := by
  constructor
  · intro h
    exact ⟨h.names, fun i hi hn => by cases h.unset i hi hn⟩
  · rintro ⟨hn, hall⟩
    refine ⟨hn, fun i hi hnone => absurd hnone (hall i hi), fun i hi s e h₀ h₁ => ?_⟩
    obtain ⟨hse, he⟩ := hcap.took hi h₀ h₁
    rw [asciiWide_byteAt _ (hse.trans he), asciiWide_byteAt _ he]
    exact ⟨hse, Nat.le_succ_of_le he⟩

lemma sameOutcome_built (hlen : str.length + 1 < 2 ^ 32) (hz : 0 ∉ str)
    (hcap : Captured (narrowForm addr str).len re.bc.captureCount capture) (hcc : 0 < re.bc.captureCount) {li : ℕ}
    {m m' : Match} (hm : buildMatch re.bc (narrowForm addr str) capture = .ok m)
    (hm' : buildMatch re.bc (asciiWide addr' str) capture = .ok m')
    (hc : re.call lreExec (narrowForm addr str) = .matched capture) :
    SameOutcome (TookPart lreExec re (narrowForm addr str)) ⟨{ re with lastIndex := li }, .ok (some m)⟩
      ⟨{ re with lastIndex := li }, .ok (some m')⟩ := by
  have hwf := asciiWide_wellFormed addr' hlen
  have hlen' := narrowForm_len addr hlen
  have hstored : (narrowForm addr str).stored = (asciiWide addr' str).stored := by
    rw [JsString.stored, narrowForm, cString_eq_self hz]
    rfl
  have hbyte (u : ℕ) : (narrowForm addr str).byteAt u = u := rfl
  constructor
  · simp
  · rfl
  · constructor <;> intro h <;> cases h
  · exact ⟨fun _ => ⟨m', rfl⟩, fun _ => ⟨m, rfl⟩⟩
  · intro e
    constructor <;> intro h <;> cases h
  · rintro _ _ ⟨⟩ ⟨⟩
    obtain ⟨s, e, h₀, -, hse, he⟩ := hcap.span hcc
    rw [hlen'] at he
    rw [buildMatch_index narrowForm_wellFormed hm h₀ (hlen' ▸ hse.trans he), buildMatch_index hwf hm' h₀ (hse.trans he),
      asciiWide_byteAt _ (hse.trans he), hbyte]
  · rintro _ _ ⟨⟩ ⟨⟩ i ⟨capture', hc', hi, htook⟩
    obtain rfl := LreResult.matched.inj (hc.symm.trans hc')
    rcases hcap.group i hi with ⟨hnone, -⟩ | ⟨s, e, h₀, h₁, hse, he⟩
    · exact absurd hnone htook
    obtain ⟨-, -, hstr, hpair⟩ := buildMatch_group narrowForm_wellFormed hm hi h₀ h₁ hse he
    rw [hlen'] at he
    obtain ⟨-, -, hstr', hpair'⟩ := buildMatch_group hwf hm' hi h₀ h₁ hse he
    rw [asciiWide_byteAt _ (hse.trans he), asciiWide_byteAt _ he, ← hstored] at hstr'
    rw [asciiWide_byteAt _ (hse.trans he), asciiWide_byteAt _ he] at hpair'
    refine ⟨hstr.trans hstr'.symm, ?_⟩
    have hsome : m.indices.isSome = m'.indices.isSome := (buildMatch_indices hm).trans (buildMatch_indices hm').symm
    cases hmi : m.indices with
    | none =>
      cases hmi' : m'.indices with
      | none => rfl
      | some mi' => simp [hmi, hmi'] at hsome
    | some mi =>
      cases hmi' : m'.indices with
      | none => simp [hmi, hmi'] at hsome
      | some mi' => exact (hpair mi hmi).trans (hpair' mi' hmi').symm

variable (hz : 0 ∉ str) (hshort : str.length < 2 ^ 30)
include hl hw hcc hz hshort

lemma regexpExec_forms (addr' : ℕ) (hs : re.Starts (narrowForm addr str))
    (hc : re.call lreExec (narrowForm addr str) = .matched capture) : ∃ li,
      regexpExec lreExec re (narrowForm addr str) =
        ⟨{ re with lastIndex := li }, (buildMatch re.bc (narrowForm addr str) capture).map some⟩ ∧
      regexpExec lreExec re (asciiWide addr' str) =
        ⟨{ re with lastIndex := li }, (buildMatch re.bc (asciiWide addr' str) capture).map some⟩ := by
  have hlen : str.length + 1 < 2 ^ 32 := by omega
  have hcap := hl.call hc
  obtain ⟨s, e, h₀, h₁, hse, he⟩ := hcap.span hcc
  have he' : e ≤ str.length := narrowForm_len addr hlen ▸ he
  have hs' : re.Starts (asciiWide addr' str) := by
    rwa [RegExp.Starts, startIndex_forms re addr addr' hlen, narrowForm_len _ hlen] at hs
  have hc' := call_forms re addr addr' hw hz hshort ▸ hc
  refine ⟨if re.moves then e else 0, ?_, ?_⟩
  · exact regexpExec_matched narrowForm_wellFormed hs hc h₁ he
  · have h := regexpExec_matched (asciiWide_wellFormed _ hlen) hs' hc' h₁ he'
    rwa [asciiWide_byteAt _ he'] at h

lemma sameOutcome_matched (hs : re.Starts (narrowForm addr str))
    (hc : re.call lreExec (narrowForm addr str) = .matched capture) (haddr : 2 ≤ addr') :
    SameOutcome (TookPart lreExec re (narrowForm addr str)) (regexpExec lreExec re (narrowForm addr str))
        (regexpExec lreExec re (asciiWide addr' str)) ↔
      re.bc.NamesStored ∧ ∀ i < re.bc.captureCount, slot capture (2 * i) ≠ none := by
  have hlen : str.length + 1 < 2 ^ 32 := by omega
  obtain ⟨li, hnarrow, hwide⟩ := regexpExec_forms hl hw hcc hz hshort addr' hs hc
  have hcap := hl.call hc
  have hcap' : Captured (asciiWide addr' str).len re.bc.captureCount capture := by
    rwa [narrowForm_len _ hlen] at hcap
  have hwf := asciiWide_wellFormed addr' hlen
  have hbuild := buildMatch_iff narrowForm_wellFormed (by rintro ⟨⟩) hcc hcap
  have hbuild' := buildMatch_iff hwf (fun _ => haddr) hcc hcap'
  rw [reportable_narrow hlen hz hcap] at hbuild
  rw [reportable_wide hcap'] at hbuild'
  rw [hnarrow, hwide]
  constructor
  · intro h
    cases hm : buildMatch re.bc (narrowForm addr str) capture with
    | error e =>
      obtain rfl := buildMatch_error hm
      exact absurd (by rw [hm]; rfl) h.defined
    | ok m =>
      obtain ⟨m', hm'⟩ := h.matched.mp ⟨m, by rw [hm]; rfl⟩
      cases hb : buildMatch re.bc (asciiWide addr' str) capture with
      | error e =>
        rw [hb] at hm'
        cases hm'
      | ok m'' => exact hbuild'.mp ⟨m'', hb⟩
  · rintro ⟨hnames, hall⟩
    obtain ⟨m, hm⟩ := hbuild.mpr hnames
    obtain ⟨m', hm'⟩ := hbuild'.mpr ⟨hnames, hall⟩
    rw [hm, hm']
    exact sameOutcome_built hlen hz hcap hcc hm hm' hc

end Matched

theorem exec_width_iff (hl : lreExec.Captures re.bc) (hw : lreExec.WidthFree re.bc) (hcc : 0 < re.bc.captureCount)
    (hz : 0 ∉ str) (ha : ∀ b ∈ str, b.toNat < 0x80) (haddr : 2 ≤ addr') :
    WidthAgrees lreExec re addr addr' str ↔
      str.length + 1 < 2 ^ 32 ∧ WidthSafe lreExec re (narrowForm addr str) := by
  have hnew := narrowForm_ascii addr hz ha
  constructor
  · rintro ⟨js, js', hjs, hjs', h⟩
    have hlen := wideForm_length hz hjs'
    obtain rfl := Except.ok.inj (hnew.symm.trans hjs)
    obtain rfl := Except.ok.inj ((wideForm_ascii hz ha hlen).symm.trans hjs')
    have hshort (hs : re.Starts (narrowForm addr str)) : str.length < 2 ^ 30 := by
      by_contra hlong
      have hs' : re.Starts (asciiWide addr' str) := by
        rwa [RegExp.Starts, startIndex_forms re addr addr' hlen, narrowForm_len _ hlen] at hs
      refine h.defined ((h.error .undefined).mpr ?_)
      rw [regexpExec_undefined hs' (call_wide_long re addr' hw (Nat.not_lt.mp hlong))]
    have hmatched (hs : re.Starts (narrowForm addr str)) (capture : List (Option ℕ))
        (hc : re.call lreExec (narrowForm addr str) = .matched capture) :=
      (sameOutcome_matched hl hw hcc hz (hshort hs) hs hc haddr).mp h
    refine ⟨hlen, fun hs => ?_, fun hs hc => h.defined ?_, fun hs capture hc => (hmatched hs capture hc).1,
      fun hs capture hc => (hmatched hs capture hc).2⟩
    · rw [narrowForm_len _ hlen]
      exact hshort hs
    · rw [regexpExec_undefined hs hc]
  · rintro ⟨hlen, hsafe⟩
    refine ⟨_, _, hnew, wideForm_ascii hz ha hlen, ?_⟩
    by_cases hs : re.Starts (narrowForm addr str)
    · have hshort := hsafe.fits hs
      rw [narrowForm_len _ hlen] at hshort
      have hcall := call_forms re addr addr' hw hz hshort
      have hs' : re.Starts (asciiWide addr' str) := by
        rwa [RegExp.Starts, startIndex_forms re addr addr' hlen, narrowForm_len _ hlen] at hs
      cases hc : re.call lreExec (narrowForm addr str) with
      | undefined => exact absurd hc (hsafe.called hs)
      | memoryError =>
        rw [regexpExec_fails hs (.inl hc), regexpExec_fails hs' (.inl (hcall ▸ hc))]
        exact .refl_of_not_some rfl (by simp) fun m hm => by cases hm
      | timeout =>
        rw [regexpExec_fails hs (.inr hc), regexpExec_fails hs' (.inr (hcall ▸ hc))]
        exact .refl_of_not_some rfl (by simp) fun m hm => by cases hm
      | noMatch =>
        rw [regexpExec_noMatch hs hc, regexpExec_noMatch hs' (hcall ▸ hc)]
        exact .refl_of_not_some rfl (by simp) fun m hm => by cases hm
      | matched capture =>
        exact (sameOutcome_matched hl hw hcc hz hshort hs hc haddr).mpr
          ⟨hsafe.names hs capture hc, hsafe.tookPart hs capture hc⟩
    · have hs' : ¬ re.Starts (asciiWide addr' str) := by
        rwa [RegExp.Starts, startIndex_forms re addr addr' hlen, narrowForm_len _ hlen] at hs
      have hm : re.moves = true := by
        by_contra hm
        exact hs (RegExp.starts_of_not_moves (Bool.not_eq_true _ ▸ hm))
      rw [regexpExec_beyond hm hs, regexpExec_beyond hm hs']
      exact .refl_of_not_some rfl (by simp) fun m hm => by cases hm

lemma orExec_widthFree (bc : Bytecode) : orExec.WidthFree bc where
  same cbuf cindex clen _ hlen := by
    rw [orExec, orExec, if_neg (by simp), if_neg fun h => Nat.not_le.mpr hlen h.2]
  long cbuf cindex clen hlen := by rw [orExec, if_pos ⟨rfl, hlen⟩]

theorem orRe_width_agrees : WidthAgrees orExec orRe 16 32 [0x61] := by
  have hcall : orRe.call orExec (narrowForm 16 [0x61]) = .matched [some 0, some 1, some 0, some 1] := by decide
  refine (exec_width_iff (orExec_captures _) (orExec_widthFree _) (by decide) (by decide) (by simp) (by decide)).mpr
    ⟨by norm_num, fun _ => by decide, fun _ h => ?_, fun _ _ _ p hp => ?_, fun _ capture hc i hi => ?_⟩
  · cases hcall.symm.trans h
  · cases hp
  · obtain rfl := LreResult.matched.inj (hcall.symm.trans hc)
    have hi' : i < 2 := hi
    interval_cases i <;> decide

theorem orRe_width_differs :
    orExec.Captures orRe.bc ∧ orExec.WidthFree orRe.bc ∧ ¬ WidthAgrees orExec orRe 16 32 [0x62] := by
  refine ⟨orExec_captures _, orExec_widthFree _, ?_⟩
  rintro ⟨js, js', hjs, hjs', h⟩
  obtain rfl : narrowForm 16 [0x62] = js := Except.ok.inj hjs
  obtain rfl : asciiWide 32 [0x62] = js' :=
    Except.ok.inj ((wideForm_ascii (by decide) (by simp) (by norm_num)).symm.trans hjs')
  have hmatched : ∃ m, (regexpExec orExec orRe (narrowForm 16 [0x62])).result = .ok (some m) := ⟨_, rfl⟩
  obtain ⟨m, hm⟩ := h.matched.mp hmatched
  cases hm

end Outcome

end Jsregexp
