import Jsregexp.JsStringWellFormed
import Jsregexp.LuaMethods

namespace Jsregexp

open Library.Offsets

def utf16 (text : List Char) : List ℕ := text.flatMap fun c => (utf16Encode c.toNat).getD []

@[simp] lemma utf8_append (p s : List Char) : utf8 (p ++ s) = utf8 p ++ utf8 s := by simp [utf8]
@[simp] lemma utf16_append (p s : List Char) : utf16 (p ++ s) = utf16 p ++ utf16 s := by simp [utf16]

lemma utf16_eq (text : List Char) : utf16 text = textUnits (text.map CodePoint.ofChar) := by
  rw [utf16, textUnits, List.flatMap_map]
  congr 1
  funext c
  rw [utf16Encode_eq (Nat.lt_succ_iff.mp (char_toNat_lt c)), Option.getD_some]
  rfl

def charSpans (text : List Char) : List Span := text.map fun c => Span.ofCodePoint (.ofChar c)

lemma charSpans_units (text : List Char) : total Span.units (charSpans text) = (utf16 text).length := by
  rw [utf16_eq, textUnits_length, charSpans, total_map, total_map]
  rfl

lemma charSpans_bytes (text : List Char) : total Span.bytes (charSpans text) = (utf8 text).length := by
  rw [← textBytes_text, textBytes_length, charSpans, total_map, total_map]
  rfl

lemma jsstringNew_chars {addr : ℕ} {text : List Char} {js : JsString} (h : jsstringNew addr (utf8 text) = .ok js)
    (hz : 0 ∉ utf8 text) (hw : js.isWideChar = true) : js.units = utf16 text ∧ js.Mapped (charSpans text) := by
  obtain ⟨p, cp, q, hd, hzs, hq, hunits, hm⟩ := jsstringNew_scan h hw (jsstringNew_length h hw hz)
  obtain rfl : q = [] := by
    cases q with
    | nil => rfl
    | cons b q =>
      have hb : b = 0 := by simpa [← UInt8.toNat_inj] using hq
      exact absurd (by simp [hd.eq_append, hb]) hz
  have hcps : p ++ [cp] = text.map CodePoint.ofChar := hd.unique (decodes_text text)
  have hlen : (utf8 text).length = total CodePoint.byteLen (p ++ [cp]) := by
    rw [← textBytes_length, hcps, textBytes_text]
  rw [hlen, finalSpans_exact, hcps, List.map_map] at hm
  exact ⟨by rw [hunits, hcps, utf16_eq], hm⟩

section Boundaries

variable {text : List Char}

lemma bytes_boundary_iff {i : ℕ} : Boundary Span.bytes (charSpans text) i ↔
    ∃ p s, text = p ++ s ∧ (utf8 p).length = i := by
  constructor
  · rintro ⟨p, s, h, rfl⟩
    obtain ⟨p', s', rfl, rfl, rfl⟩ := List.map_eq_append_iff.mp h
    exact ⟨p', s', rfl, (charSpans_bytes p').symm⟩
  · rintro ⟨p, s, rfl, rfl⟩
    exact ⟨charSpans p, charSpans s, List.map_append, charSpans_bytes p⟩

lemma bytes_image (p s : List Char) :
    image Span.bytes Span.units (charSpans (p ++ s)) (utf8 p).length = (utf16 p).length := by
  rw [← charSpans_bytes, ← charSpans_units, charSpans, List.map_append]
  exact image_append Span.bytes_pos _ _

lemma units_image (p s : List Char) :
    image Span.units Span.bytes (charSpans (p ++ s)) (utf16 p).length = (utf8 p).length := by
  rw [← charSpans_bytes, ← charSpans_units, charSpans, List.map_append]
  exact image_append Span.units_pos _ _

end Boundaries

def CallsEngineAt (re : RegExp) (js : JsString) (i : ℕ) : Prop :=
  ∃ answer : LreResult → Outcome (Option Match), answer .noMatch ≠ answer .timeout ∧
    ∀ lreExec : Engine, regexpExec lreExec re js = answer (callLreExec lreExec re.bc js i)

/-- What `exec` makes of a `last_index` that is `x` bytes into a subject of the characters `text`: it starts
at the first character boundary from there on, with arguments as `lre_exec` asks for them, and the tables map boundaries
to boundaries in order. -/
structure TranslatesIndex (re : RegExp) (js : JsString) (text : List Char) (x : ℕ) : Prop where
  units : js.units = utf16 text ∧ js.len = (utf16 text).length ∧ js.bstrLen = (utf8 text).length
  inside : x ≤ js.bstrLen → ∃ p s, text = p ++ s ∧ x ≤ (utf8 p).length ∧
    (∀ p' s', text = p' ++ s' → x ≤ (utf8 p').length → (utf8 p).length ≤ (utf8 p').length) ∧
    CallsEngineAt re js (utf16 p).length ∧ 0 ≤ int32 (utf16 p).length ∧ int32 (utf16 p).length ≤ int32 js.len ∧
    js.indices[(utf16 p).length]? = some (utf8 p).length ∧
    (utf16 p).length ≤ js.len ∧ (s = [] → (utf16 p).length = js.len) ∧ ¬ js.InsidePair (utf16 p).length
  beyond : js.bstrLen < x → ∀ lreExec, regexpExec lreExec re js = ⟨{ re with lastIndex := 0 }, .ok none⟩
  inverse : ∀ p s, text = p ++ s → js.indices[(utf16 p).length]? = some (utf8 p).length ∧
    js.revIndices[(utf8 p).length]? = some (utf16 p).length
  increasing : ∀ p q s, text = p ++ q ++ s → q ≠ [] →
    (utf16 p).length < (utf16 (p ++ q)).length ∧ (utf8 p).length < (utf8 (p ++ q)).length ∧
    js.indices.getD (utf16 p).length 0 < js.indices.getD (utf16 (p ++ q)).length 0 ∧
    js.revIndices.getD (utf8 p).length 0 < js.revIndices.getD (utf8 (p ++ q)).length 0

def RegExp.answer (re : RegExp) (js : JsString) : LreResult → Outcome (Option Match)
  | .undefined => ⟨{ re with lastIndex := if re.moves then re.lastIndex else 0 }, .error .undefined⟩
  | .memoryError | .timeout => ⟨{ re with lastIndex := if re.moves then re.lastIndex else 0 },
      .error (.raised (bytesOf "out of memory in regexp execution"))⟩
  | .noMatch => ⟨{ re with lastIndex := 0 }, .ok none⟩
  | .matched capture =>
    match (if re.moves then matchEnd js (slot capture 1) else .ok 0) with
    | .error e => ⟨re, .error e⟩
    | .ok li => ⟨{ re with lastIndex := li }, (buildMatch re.bc js capture).map some⟩

lemma regexpExec_answer {re : RegExp} {js : JsString} {lreExec : Engine} (hs : re.Starts js) :
    regexpExec lreExec re js = re.answer js (re.call lreExec js) := by
  cases hr : re.call lreExec js with
  | undefined => exact regexpExec_undefined hs hr
  | memoryError => exact regexpExec_fails hs (.inl hr)
  | timeout => exact regexpExec_fails hs (.inr hr)
  | noMatch => exact regexpExec_noMatch hs hr
  | matched capture => exact regexpExec_captured hs hr

lemma regexpExec_result_congr {re re' : RegExp} {js : JsString} {lreExec : Engine} (hbc : re.bc = re'.bc)
    (hs : re.Starts js) (hstart : re.startIndex js = re'.startIndex js) :
    (regexpExec lreExec re js).result = (regexpExec lreExec re' js).result := by
  have hs' : re'.Starts js := by rwa [RegExp.Starts, ← hstart]
  have hc : re.call lreExec js = re'.call lreExec js := by rw [RegExp.call, RegExp.call, hbc, hstart]
  have hm : re.moves = re'.moves := by simp only [RegExp.moves, RegExp.global, RegExp.sticky, hbc]
  rw [regexpExec_answer hs, regexpExec_answer hs', hc]
  generalize re'.call lreExec js = r
  cases r with
  | undefined | memoryError | timeout | noMatch => rfl
  | matched capture =>
    rw [RegExp.answer, RegExp.answer, hm, hbc]
    cases re'.moves with
    | false => rfl
    | true => cases he : matchEnd js (slot capture 1) <;> rfl

lemma callsEngineAt_start {re : RegExp} {js : JsString} (hs : re.Starts js) :
    CallsEngineAt re js (re.startIndex js) :=
  ⟨re.answer js, fun h => (by cases congrArg Outcome.result h), fun _ => regexpExec_answer hs⟩

section Tables

variable {js : JsString} {l : List Span} (hm : js.Mapped l)
include hm

lemma JsString.Mapped.indices_get {u : ℕ} (hu : u ≤ js.len) :
    js.indices[u]? = some (image Span.units Span.bytes l u) := by
  obtain ⟨k, hk⟩ := hm.indices
  have hlt : u < js.indices.length := by
    rw [hk, List.length_append, table_length Span.units_pos, ← hm.len]
    omega
  rw [← hm.getD_indices hu, List.getD_eq_getElem?_getD, List.getElem?_eq_getElem hlt, Option.getD_some]

lemma JsString.Mapped.revIndices_get {i : ℕ} (hi : i ≤ js.bstrLen) :
    js.revIndices[i]? = some (image Span.bytes Span.units l i) := by
  have hlt : i < js.revIndices.length := by
    rw [hm.revIndices, table_length Span.bytes_pos, ← hm.bstrLen]
    omega
  rw [← hm.getD_revIndices, List.getD_eq_getElem?_getD, List.getElem?_eq_getElem hlt, Option.getD_some]

end Tables

lemma length_pos_of_chars {q : List Char} (hq : q ≠ []) : 0 < (utf16 q).length ∧ 0 < (utf8 q).length := by
  obtain ⟨c, q, rfl⟩ := List.exists_cons_of_ne_nil hq
  rw [← charSpans_units, ← charSpans_bytes]
  have hu := (Span.ofCodePoint (.ofChar c)).units_pos
  have hb := (Span.ofCodePoint (.ofChar c)).bytes_pos
  simp only [charSpans, List.map_cons, total_cons]
  omega

section Start

variable {addr : ℕ} {text : List Char} {js : JsString} {re : RegExp}
variable (hjs : jsstringNew addr (utf8 text) = .ok js) (hz : 0 ∉ utf8 text) (hw : js.isWideChar = true)
include hjs hz hw

lemma chars_lengths : js.len = (utf16 text).length ∧ js.bstrLen = (utf8 text).length := by
  obtain ⟨-, hm⟩ := jsstringNew_chars hjs hz hw
  exact ⟨by rw [hm.len, charSpans_units], by rw [hm.bstrLen, charSpans_bytes]⟩

lemma chars_inverse {p s : List Char} (h : text = p ++ s) :
    (utf16 p).length ≤ js.len ∧ (utf8 p).length ≤ js.bstrLen ∧
      js.indices[(utf16 p).length]? = some (utf8 p).length ∧
      js.revIndices[(utf8 p).length]? = some (utf16 p).length := by
  obtain ⟨-, hm⟩ := jsstringNew_chars hjs hz hw
  obtain ⟨hlen, hblen⟩ := chars_lengths hjs hz hw
  have hle : (utf16 p).length ≤ js.len ∧ (utf8 p).length ≤ js.bstrLen := by
    rw [hlen, hblen, h]
    simp
  refine ⟨hle.1, hle.2, ?_, ?_⟩
  · rw [hm.indices_get hle.1, h, units_image]
  · rw [hm.revIndices_get hle.2, h, bytes_image]

lemma chars_start (hmoves : re.moves = true) (hx : re.lastIndex ≤ js.bstrLen) :
    ∃ p s, text = p ++ s ∧ re.lastIndex ≤ (utf8 p).length ∧
      (∀ p' s', text = p' ++ s' → re.lastIndex ≤ (utf8 p').length → (utf8 p).length ≤ (utf8 p').length) ∧
      re.startIndex js = (utf16 p).length := by
  obtain ⟨-, hm⟩ := jsstringNew_chars hjs hz hw
  obtain ⟨p, s, h, hp⟩ := bytes_boundary_iff.mp (ceil_boundary (f := Span.bytes) (charSpans text) re.lastIndex)
  refine ⟨p, s, h, ?_, fun p' s' h' hx' => ?_, ?_⟩
  · rw [hp]
    exact le_ceil (hm.bstrLen ▸ hx)
  · rw [hp]
    exact ceil_le (bytes_boundary_iff.mpr ⟨p', s', h', rfl⟩) hx'
  · rw [RegExp.startIndex, if_pos hmoves, hm.translateIndex_eq hw hx, ← hp, h, bytes_image]

end Start

def CharStart (str : Bytes) (q : ℕ) : Prop := ∃ p s, str = utf8 (p ++ s) ∧ (utf8 p).length = q

lemma utf8_ascii {str : Bytes} (h : ∀ b ∈ str, b.toNat < 0x80) : utf8 (str.map Char.ofUInt8) = str := by
  induction str with
  | nil => rfl
  | cons b str ih =>
    have hb : String.utf8EncodeChar (Char.ofUInt8 b) = [b] := by
      have hv : (Char.ofUInt8 b).val.toNat = b.toNat := by simp [Char.ofUInt8]
      have hle : b.toNat ≤ 0x7f := Nat.lt_succ_iff.mp (h b (by simp))
      simp [String.utf8EncodeChar, hv, hle]
    have hrest := ih fun b' hb' => h b' (by simp [hb'])
    rw [utf8] at hrest ⊢
    rw [List.map_cons, List.flatMap_cons, hb, hrest, List.singleton_append]

section CharStart

variable {addr : ℕ} {str : Bytes} {js : JsString}
variable (hjs : jsstringNew addr str = .ok js) (hz : 0 ∉ str) (hlen : str.length < 2 ^ 32)
include hjs hz hlen

lemma charStart_iff (hv : ValidUtf8 str) {q : ℕ} : CharStart str q ↔
    ∃ u ≤ js.len, ¬ js.Interior u ∧ js.byteAt u = q := by
  have h := jsstringNew_wellFormed hjs fun hx => absurd hx hz
  cases hw : js.isWideChar with
  | true =>
    constructor
    · rintro ⟨p, s, rfl, rfl⟩
      obtain ⟨hu, -, hind, -⟩ := chars_inverse hjs hz hw rfl
      obtain ⟨-, hm⟩ := jsstringNew_chars hjs hz hw
      refine ⟨(utf16 p).length, hu, (hm.boundary_iff hw hu).mp ?_, ?_⟩
      · rw [← charSpans_units, charSpans, charSpans, List.map_append]
        exact ⟨_, _, rfl, rfl⟩
      · rw [JsString.byteAt, if_pos hw, List.getD_eq_getElem?_getD, hind, Option.getD_some]
    · rintro ⟨u, hu, hu', rfl⟩
      obtain ⟨text, rfl⟩ := hv
      obtain ⟨-, hm⟩ := jsstringNew_chars hjs hz hw
      obtain ⟨p, s, rfl, hp⟩ := bytes_boundary_iff.mp
        (image_boundary Span.units_pos ((hm.boundary_iff hw hu).mpr hu'))
      refine ⟨p, s, rfl, ?_⟩
      rw [hp, JsString.byteAt, if_pos hw, hm.getD_indices hu]
  | false =>
    have hn : js.len = str.length := by
      rw [h.narrow hw, (jsstringNew_addr hjs).2.2, uint32, Nat.mod_eq_of_lt hlen]
    have hbyte (u : ℕ) : js.byteAt u = u := by simp [JsString.byteAt, hw]
    constructor
    · rintro ⟨p, s, rfl, rfl⟩
      refine ⟨(utf8 p).length, ?_, by simp [JsString.Interior, hw], hbyte _⟩
      rw [hn]
      simp
    · rintro ⟨u, hu, -, rfl⟩
      have hascii : ∀ b ∈ str, b.toNat < 0x80 := by
        rw [jsstringNew_wide hjs] at hw
        intro b hb
        by_contra hn
        rw [(nonAscii_iff hz).mpr ⟨b, hb, Nat.not_lt.mp hn⟩] at hw
        cases hw
      refine ⟨(str.take u).map Char.ofUInt8, (str.drop u).map Char.ofUInt8, ?_, ?_⟩
      · rw [← List.map_append, List.take_append_drop, utf8_ascii hascii]
      · rw [utf8_ascii fun b hb => hascii b (List.mem_of_mem_take hb), List.length_take, hbyte]
        exact min_eq_left (hn ▸ hu)

end CharStart

theorem exec_start_iff {addr : ℕ} {text : List Char} {js : JsString} {r re : RegExp} {v : ℤ}
    (hjs : jsstringNew addr (utf8 text) = .ok js) (hz : 0 ∉ utf8 text) (hna : ∃ b ∈ utf8 text, 0x80 ≤ b.toNat)
    (hset : setLastIndex r v = .ok re) (hmoves : re.global = true ∨ re.sticky = true) :
    TranslatesIndex re js text (v - 1).toNat ↔ ((v - 1).toNat ≤ js.bstrLen → js.len < 2 ^ 31) := by
  have hw : js.isWideChar = true := by rw [jsstringNew_wide hjs, (nonAscii_iff hz).mpr hna]
  have h := jsstringNew_wellFormed hjs fun hx => absurd hx hz
  obtain ⟨hunits, -⟩ := jsstringNew_chars hjs hz hw
  obtain ⟨hlen, hblen⟩ := chars_lengths hjs hz hw
  have hm : re.moves = true := by simpa [RegExp.moves] using hmoves
  obtain rfl : { r with lastIndex := (v - 1).toNat } = re := by
    rw [setLastIndex] at hset
    split at hset
    · cases hset
    · split at hset
      · exact Except.ok.inj hset
      · cases hset
  constructor
  · intro htranslates hx
    obtain ⟨p, -, -, -, -, -, hpos, hint, -⟩ := htranslates.inside hx
    exact (int32_nonneg_iff h.len_lt).mp (hpos.trans hint)
  intro hadmitted
  refine ⟨⟨hunits, hlen, hblen⟩, fun hx => ?_, fun hx lreExec => ?_, fun p s hp => ?_, fun p q s hp hq => ?_⟩
  · obtain ⟨p, s, hp, hle, hmin, hstart⟩ := chars_start hjs hz hw hm hx
    obtain ⟨hu, -, hind, -⟩ := chars_inverse hjs hz hw hp
    have hpair := insidePair_iff_interior hjs ⟨text, rfl⟩ (fun hx => absurd hx hz) hu
    have hint := int32_of_lt (hadmitted hx)
    have hint' := int32_of_lt (hu.trans_lt (hadmitted hx))
    refine ⟨p, s, hp, hle, hmin, ?_, by omega, by omega, hind, hu, ?_, ?_⟩
    · rw [← hstart]
      exact callsEngineAt_start ((starts_iff h hm).mpr hx)
    · rintro rfl
      rw [hlen, hp, List.append_nil]
    · rw [hpair, ← hstart, RegExp.startIndex, if_pos hm]
      exact h.translateIndex_not_interior hx
  · exact regexpExec_beyond hm fun hs => absurd ((starts_iff h hm).mp hs) (Nat.not_le.mpr hx)
  · obtain ⟨-, -, hind, hrev⟩ := chars_inverse hjs hz hw hp
    exact ⟨hind, hrev⟩
  · obtain ⟨-, -, hind, hrev⟩ := chars_inverse hjs hz hw (p := p) (s := q ++ s) (by simpa using hp)
    obtain ⟨-, -, hind', hrev'⟩ := chars_inverse hjs hz hw hp
    obtain ⟨hu, hb⟩ := length_pos_of_chars hq
    have hu' : (utf16 p).length < (utf16 (p ++ q)).length := by simpa using hu
    have hb' : (utf8 p).length < (utf8 (p ++ q)).length := by simpa using hb
    simp only [List.getD_eq_getElem?_getD, hind, hrev, hind', hrev', Option.getD_some]
    exact ⟨hu', hb', hb', hu'⟩

theorem exec_start_clef : TranslatesIndex (dotRe 2) clefString ['a', '𝄞'] 2 := by
  have htext : utf8 ['a', '𝄞'] = clef := by decide
  have hjs : jsstringNew 16 (utf8 ['a', '𝄞']) = .ok clefString := htext ▸ clefString_eq
  exact (exec_start_iff (r := dotRe 0) (v := 3) hjs (by decide) (by decide) (by rfl) (.inl rfl)).mpr fun _ => by decide

section Long

def longText (n : ℕ) : List Char := 'é' :: List.replicate n 'a'

lemma utf8_longText (n : ℕ) : utf8 (longText n) = 0xc3 :: 0xa9 :: List.replicate n 0x61 := by
  have hchar : String.utf8EncodeChar 'é' = [0xc3, 0xa9] := by decide
  have hrest : utf8 (List.replicate n 'a') = List.replicate n 0x61 := by
    rw [utf8, List.flatMap_replicate, show String.utf8EncodeChar 'a' = [0x61] by decide]
    simp
  rw [longText, utf8, List.flatMap_cons, hchar]
  exact congrArg ([0xc3, 0xa9] ++ ·) hrest

lemma utf16_longText (n : ℕ) : (utf16 (longText n)).length = n + 1 := by
  have hrest : (utf16 (List.replicate n 'a')).length = n := by
    rw [utf16, List.flatMap_replicate, show (utf16Encode 'a'.toNat).getD [] = [0x61] by decide]
    simp
  rw [longText, utf16, List.flatMap_cons, show (utf16Encode 'é'.toNat).getD [] = [0xe9] by decide, List.length_append]
  exact (congrArg (1 + ·) hrest).trans (Nat.add_comm 1 n)

lemma exec_start_negative {n : ℕ} (hn : 2 ^ 31 ≤ n + 1) (hlt : n + 3 < 2 ^ 32) :
    ∃ js, jsstringNew 16 (utf8 (longText n)) = .ok js ∧ ¬ TranslatesIndex (dotRe 0) js (longText n) 0 := by
  have hutf8 := utf8_longText n
  have hz : 0 ∉ utf8 (longText n) := by
    rw [hutf8]
    simp [List.mem_replicate]
  have hlen : (utf8 (longText n)).length + 1 < 2 ^ 32 := by
    rw [hutf8, List.length_cons, List.length_cons, List.length_replicate]
    exact hlt
  have hna : utf8ContainsNonAscii (utf8 (longText n)) = true := by
    rw [nonAscii_iff hz, hutf8]
    exact ⟨0xc3, by simp, by decide⟩
  obtain ⟨js, hjs⟩ : ∃ js, jsstringNew 16 (utf8 (longText n)) = .ok js := by
    rw [jsstringNew, if_pos hna, utf8ToUtf16_text hz hlen]
    exact ⟨_, rfl⟩
  refine ⟨js, hjs, fun h => ?_⟩
  obtain ⟨p, -, -, -, -, -, hpos, hint, -⟩ := h.inside (Nat.zero_le _)
  have hunits : js.len = n + 1 := by rw [h.units.2.1, utf16_longText]
  have hpos' := (int32_nonneg_iff (n := js.len) (by omega)).mp (hpos.trans hint)
  omega

theorem exec_start_long : ∃ js, jsstringNew 16 (utf8 (longText (2 ^ 31 - 1))) = .ok js ∧
    ¬ TranslatesIndex (dotRe 0) js (longText (2 ^ 31 - 1)) 0 :=
  exec_start_negative (by norm_num) (by norm_num)

end Long

end Jsregexp
