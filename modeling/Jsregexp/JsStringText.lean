import Jsregexp.JsStringOffsets

namespace Jsregexp

open Library.Offsets

lemma jsstringNew_cases {addr : ℕ} {input : Bytes} {js : JsString} (h : jsstringNew addr input = .ok js) :
    (utf8ContainsNonAscii input = false ∧
      js = { isWideChar := false, len := uint32 input.length, bstrLen := uint32 input.length,
             units := (cString input).map UInt8.toNat, bstr := cString input,
             indices := [], revIndices := [], addr }) ∨
    (utf8ContainsNonAscii input = true ∧ ∃ t, utf8ToUtf16 input (uint32 input.length) = .ok (some t) ∧
      js = { isWideChar := true, len := t.str.length, units := t.str, bstr := cString input,
             bstrLen := uint32 input.length, indices := t.indices, revIndices := t.revIndices, addr }) := by
  unfold jsstringNew at h
  cases ha : utf8ContainsNonAscii input with
  | false =>
    simp only [ha, Bool.false_eq_true, if_false, pure, Except.pure, Except.ok.injEq] at h
    exact .inl ⟨rfl, h.symm⟩
  | true =>
    simp only [ha, if_true, bind, Except.bind] at h
    cases ht : utf8ToUtf16 input (uint32 input.length) with
    | error e => simp [ht] at h
    | ok r =>
      cases r with
      | none => simp [ht] at h
      | some t =>
        simp only [ht, pure, Except.pure, Except.ok.injEq] at h
        exact .inr ⟨rfl, t, rfl, h.symm⟩

lemma utf8ToUtf16Loop_error {n size fuel off : ℕ} {pos : Bytes} {t : Utf16} {e : Failure}
    (h : utf8ToUtf16Loop n size fuel pos off t = .error e) : e = .undefined := by
  have hstore {l : List ℕ} {i v : ℕ} (hs : store l i v = .error e) : e = .undefined := by
    rw [store] at hs
    split at hs
    · cases hs
    · exact (Except.error.inj hs).symm
  induction fuel generalizing pos off t with
  | zero => exact (Except.error.inj h).symm
  | succ fuel ih =>
    by_cases h0 : peek pos 0 = 0
    · simp only [utf8ToUtf16Loop, h0, if_true, except_bind_error_iff] at h
      rcases h with h | ⟨_, -, h | ⟨_, -, h | ⟨_, -, h⟩⟩⟩
      · exact hstore h
      · exact hstore h
      · exact hstore h
      · cases h
    · simp only [utf8ToUtf16Loop, h0, if_false, except_bind_error_iff] at h
      rcases h with h | ⟨_, -, h | ⟨_, -, h⟩⟩
      · exact hstore h
      · exact hstore h
      · split at h
        · cases h
        · split at h
          · exact ih h
          · exact (Except.error.inj h).symm

lemma jsstringNew_error {addr : ℕ} {input : Bytes} {e : Failure} (h : jsstringNew addr input = .error e) :
    e = .undefined ∨ e = .raised (bytesOf "malformed unicode") := by
  rw [jsstringNew] at h
  split at h
  · rcases except_bind_error_iff.mp h with h | ⟨r, -, h⟩
    · exact .inl (utf8ToUtf16Loop_error h)
    · cases r with
      | none => exact .inr (Except.error.inj h).symm
      | some t => cases h
  · cases h

lemma jsstringNew_addr {addr : ℕ} {input : Bytes} {js : JsString} (h : jsstringNew addr input = .ok js) :
    js.addr = addr ∧ js.bstr = cString input ∧ js.bstrLen = uint32 input.length := by
  rcases jsstringNew_cases h with ⟨-, rfl⟩ | ⟨-, t, -, rfl⟩ <;> exact ⟨rfl, rfl, rfl⟩

lemma jsstringNew_wide {addr : ℕ} {input : Bytes} {js : JsString} (h : jsstringNew addr input = .ok js) :
    js.isWideChar = utf8ContainsNonAscii input := by
  rcases jsstringNew_cases h with ⟨ha, rfl⟩ | ⟨ha, t, -, rfl⟩ <;> exact ha.symm

lemma jsstringNew_length {addr : ℕ} {input : Bytes} {js : JsString} (h : jsstringNew addr input = .ok js)
    (hw : js.isWideChar = true) (hz : 0 ∉ input) : input.length + 1 < 2 ^ 32 := by
  rcases jsstringNew_cases h with ⟨-, rfl⟩ | ⟨-, t, ht, rfl⟩
  · simp at hw
  have hfit := utf8ToUtf16Loop_fits ht hz (by simp) (Nat.zero_le _)
  simp only [uint32] at hfit
  omega

lemma jsstringNew_indices {addr : ℕ} {input : Bytes} {js : JsString} (h : jsstringNew addr input = .ok js) :
    ∀ v ∈ js.indices, v + 1 < 2 ^ 32 := by
  rcases jsstringNew_cases h with ⟨-, rfl⟩ | ⟨-, t, ht, rfl⟩
  · simp
  have hn : uint32 input.length < 2 ^ 32 := Nat.mod_lt _ (by norm_num)
  have hmod : uint32 (uint32 input.length + 1) ≤ uint32 input.length + 1 := Nat.mod_le _ _
  obtain ⟨hsize, hle⟩ := utf8ToUtf16Loop_indices ht (by simpa using hmod) (by simp [List.mem_replicate])
  intro v hv
  have hv' := hle v hv
  by_contra hbig
  have hn' : uint32 input.length + 1 = 2 ^ 32 := by omega
  rw [hn', uint32, Nat.mod_self] at hsize
  exact lt_irrefl 0 hsize

def finalSpans (n : ℕ) (p : List CodePoint) (cp : CodePoint) : List Span :=
  p.map Span.ofCodePoint ++ [Span.padded cp (n - total CodePoint.byteLen (p ++ [cp]))]

section FinalSpans

variable {n : ℕ} {p : List CodePoint} {cp : CodePoint} (hb : total CodePoint.byteLen (p ++ [cp]) ≤ n)

lemma finalSpans_units : total Span.units (finalSpans n p cp) = total CodePoint.unitLen (p ++ [cp]) := by
  simp only [finalSpans, total_append, total_map, total_cons, total_nil]
  rfl

include hb in
lemma finalSpans_bytes : total Span.bytes (finalSpans n p cp) = n := by
  simp only [finalSpans, total_append, total_map, total_cons, total_nil]
  have h : total (Span.bytes ∘ Span.ofCodePoint) p = total CodePoint.byteLen p := rfl
  simp only [total_append, total_cons, total_nil] at hb
  simp only [h, Span.padded]
  omega

lemma finalSpans_indices (hb : total CodePoint.byteLen (p ++ [cp]) ≤ n) :
    (finalUtf16 n (p ++ [cp])).indices = table Span.units Span.bytes (finalSpans n p cp) ++
      List.replicate (n - total CodePoint.unitLen (p ++ [cp])) 0 := by
  have hm : marks Span.units Span.bytes 0 (p.map Span.ofCodePoint) =
      marks CodePoint.unitLen CodePoint.byteLen 0 p := marks_map _ _ _ _ _
  have ht : total Span.bytes (p.map Span.ofCodePoint) = total CodePoint.byteLen p := total_map _ _ _
  rw [finalUtf16, table, finalSpans_bytes hb, finalSpans]
  simp only [marks_append, hm, ht]
  simp [marks, Span.padded]

lemma finalSpans_revIndices (hb : total CodePoint.byteLen (p ++ [cp]) ≤ n) :
    (finalUtf16 n (p ++ [cp])).revIndices = table Span.bytes Span.units (finalSpans n p cp) := by
  have hm : marks Span.bytes Span.units 0 (p.map Span.ofCodePoint) =
      marks CodePoint.byteLen CodePoint.unitLen 0 p := marks_map _ _ _ _ _
  have ht : total Span.units (p.map Span.ofCodePoint) = total CodePoint.unitLen p := total_map _ _ _
  rw [finalUtf16, table, finalSpans_units, finalSpans]
  simp only [marks_append, hm, ht]
  have hpos := cp.byteLen_pos
  have hk : cp.byteLen + (n - total CodePoint.byteLen (p ++ [cp])) - 1 =
      (cp.byteLen - 1) + (n - total CodePoint.byteLen (p ++ [cp])) := by omega
  have hr (a b : ℕ) (v : List ℕ) :
      List.replicate a 0 ++ (List.replicate b 0 ++ v) = List.replicate (a + b) 0 ++ v := by
    rw [← List.append_assoc, List.replicate_append_replicate]
  simp only [marks, Span.padded, hk]
  simp [hr]

end FinalSpans

lemma nonAscii_scan {input q : Bytes} {s : List CodePoint} (h : Decodes s input q)
    (ha : utf8ContainsNonAscii input = true) (hq : peek q 0 = 0) : s ≠ [] := by
  rintro rfl
  have he : input = q := by simpa using h.eq_append
  subst he
  have hc : cString input = [] := by
    cases input with
    | nil => rfl
    | cons b p =>
      have hb : b = 0 := by simpa [← UInt8.toNat_inj] using hq
      simp [cString, hb]
  simp [utf8ContainsNonAscii, hc] at ha

theorem jsstringNew_scan {addr : ℕ} {input : Bytes} {js : JsString} (h : jsstringNew addr input = .ok js)
    (hw : js.isWideChar = true) (hlen : input.length + 1 < 2 ^ 32) :
    ∃ p cp q, Decodes (p ++ [cp]) input q ∧ 0 ∉ textBytes (p ++ [cp]) ∧ peek q 0 = 0 ∧
      js.units = textUnits (p ++ [cp]) ∧ js.Mapped (finalSpans input.length p cp) := by
  rcases jsstringNew_cases h with ⟨-, rfl⟩ | ⟨ha, t, ht, rfl⟩
  · simp at hw
  obtain ⟨s, q, hd, hz, hq⟩ := scan_cases input
  have hmod : uint32 input.length = input.length := Nat.mod_eq_of_lt (by omega)
  have hb' : (textBytes s).length ≤ input.length := by simp [hd.eq_append]
  rw [hmod, utf8ToUtf16_eq hd hz hlen hb' hq] at ht
  have hq0 : peek q 0 = 0 := by
    by_contra hn
    simp [hn] at ht
  obtain rfl : finalUtf16 input.length s = t := by simpa [hq0] using ht
  obtain ⟨p, cp, rfl⟩ : ∃ p cp, s = p ++ [cp] :=
    ⟨_, _, (List.dropLast_append_getLast (nonAscii_scan hd ha hq0)).symm⟩
  have hb : total CodePoint.byteLen (p ++ [cp]) ≤ input.length := by
    rw [hd.eq_append, List.length_append, textBytes_length]
    exact Nat.le_add_right _ _
  refine ⟨p, cp, q, hd, hz, hq0, rfl, ?_⟩
  exact {
    len := by rw [finalSpans_units]; exact textUnits_length _
    bstrLen := by rw [finalSpans_bytes hb]; exact hmod
    le := by
      show (textUnits _).length ≤ uint32 input.length
      rw [hmod, textUnits_length]
      exact hd.total_le.trans hb
    indices := ⟨_, finalSpans_indices hb⟩
    revIndices := finalSpans_revIndices hb }

lemma jsstringNew_wide_length {addr : ℕ} {input : Bytes} {js : JsString}
    (h : jsstringNew addr input = .ok js) (hlen : 0 ∈ input → input.length + 1 < 2 ^ 32)
    (hw : js.isWideChar = true) : input.length + 1 < 2 ^ 32 := by
  by_cases hz : 0 ∈ input
  · exact hlen hz
  · exact jsstringNew_length h hw hz

theorem jsstringNew_wellFormed {addr : ℕ} {input : Bytes} {js : JsString}
    (h : jsstringNew addr input = .ok js) (hlen : 0 ∈ input → input.length + 1 < 2 ^ 32) :
    js.WellFormed where
  bstrLen_lt := by
    rw [(jsstringNew_addr h).2.2]
    exact Nat.mod_lt _ (by norm_num)
  narrow hn := by
    rcases jsstringNew_cases h with ⟨-, rfl⟩ | ⟨-, t, -, rfl⟩
    · rfl
    · simp at hn
  wide hw := by
    obtain ⟨p, cp, -, -, -, -, -, hm⟩ := jsstringNew_scan h hw (jsstringNew_wide_length h hlen hw)
    exact ⟨_, hm⟩
  fits hw := by
    have hlen' := jsstringNew_wide_length h hlen hw
    obtain ⟨-, hb, hl⟩ := jsstringNew_addr h
    rw [hb, hl, uint32, Nat.mod_eq_of_lt (by omega)]
    exact ⟨hlen', cString_length_le input⟩

def utf8 (text : List Char) : Bytes := text.flatMap String.utf8EncodeChar

def ValidUtf8 (s : Bytes) : Prop := ∃ text, s = utf8 text

def JsString.InsidePair (js : JsString) (u : ℕ) : Prop :=
  js.isWideChar = true ∧ 0 < u ∧ u < js.len ∧ isHiSurrogate (js.units.getD (u - 1) 0) = true ∧
    isLoSurrogate (js.units.getD u 0) = true

instance (js : JsString) (u : ℕ) : Decidable (js.InsidePair u) := by
  unfold JsString.InsidePair
  infer_instance

lemma decodes_text (text : List Char) : Decodes (text.map CodePoint.ofChar) (utf8 text) [] := by
  induction text with
  | nil => exact .nil
  | cons c text ih => exact .cons (c := CodePoint.ofChar c) (unicodeFromUtf8_encode c (utf8 text)) ih

lemma utf8ToUtf16Loop_text {n size fuel off : ℕ} {t : Utf16} {s : List CodePoint} {pos : Bytes}
    (h : Decodes s pos []) :
    utf8ToUtf16Loop n size fuel pos off t = .error .undefined ∨
      ∃ t', utf8ToUtf16Loop n size fuel pos off t = .ok (some t') := by
  induction fuel generalizing s pos off t with
  | zero => exact .inl rfl
  | succ fuel ih =>
    have hstore (l : List ℕ) (i v : ℕ) : store l i v = .error .undefined ∨ ∃ l', store l i v = .ok l' := by
      rw [store]
      split
      · exact .inr ⟨_, rfl⟩
      · exact .inl rfl
    by_cases h0 : peek pos 0 = 0
    · simp only [utf8ToUtf16Loop, h0, if_true, bind, Except.bind]
      rcases hstore (List.replicate size 0) t.str.length 0 with h₁ | ⟨l₁, h₁⟩
      · exact .inl (by rw [h₁])
      rcases hstore t.indices t.str.length n with h₂ | ⟨l₂, h₂⟩
      · exact .inl (by rw [h₁]; simp only [h₂])
      rcases hstore t.revIndices n t.str.length with h₃ | ⟨l₃, h₃⟩
      · exact .inl (by rw [h₁]; simp only [h₂, h₃])
      · exact .inr ⟨_, by rw [h₁]; simp only [h₂, h₃]; rfl⟩
    · cases h with
      | nil => simp at h0
      | @cons cp s q _ hd hs =>
        simp only [utf8ToUtf16Loop, h0, if_false, bind, Except.bind, hd]
        rcases hstore t.indices t.str.length off with h₁ | ⟨l₁, h₁⟩
        · exact .inl (by rw [h₁])
        rcases hstore t.revIndices off t.str.length with h₂ | ⟨l₂, h₂⟩
        · exact .inl (by rw [h₁]; simp only [h₂])
        rw [h₁]
        simp only [h₂]
        split
        · exact ih hs
        · exact .inl rfl

lemma jsstringNew_text {addr : ℕ} {str : Bytes} (hv : ValidUtf8 str) :
    jsstringNew addr str = .error .undefined ∨ ∃ js, jsstringNew addr str = .ok js := by
  obtain ⟨text, rfl⟩ := hv
  cases ha : utf8ContainsNonAscii (utf8 text) with
  | false => exact .inr ⟨_, by rw [jsstringNew, ha]; rfl⟩
  | true =>
    simp only [jsstringNew, ha, if_true, utf8ToUtf16, bind, Except.bind]
    rcases utf8ToUtf16Loop_text (decodes_text text) with h | ⟨t, h⟩
    · exact .inl (by rw [h])
    · exact .inr ⟨_, by rw [h]; rfl⟩

lemma Decodes.text {cps : List CodePoint} {text : List Char} {q : Bytes} (h : Decodes cps (utf8 text) q) :
    ∃ k, cps = (text.take k).map CodePoint.ofChar := by
  generalize hp : utf8 text = p at h
  induction h generalizing text with
  | nil => exact ⟨0, rfl⟩
  | @cons cp s q r hd _ ih =>
    cases text with
    | nil => exact absurd (List.append_eq_nil_iff.mp hp.symm).1 cp.nonempty
    | cons c text =>
      have hc := unicodeFromUtf8_encode c (utf8 text)
      have hsplit : String.utf8EncodeChar c ++ utf8 text = cp.bytes ++ q := hp
      rw [hsplit, hd] at hc
      obtain ⟨hcode, rfl⟩ : cp.code = c.toNat ∧ q = utf8 text := by simpa using hc
      have hcp : cp = CodePoint.ofChar c := by
        obtain ⟨code, bytes, hne⟩ := cp
        simp_all [CodePoint.ofChar]
      obtain ⟨k, rfl⟩ := ih rfl
      exact ⟨k + 1, by simp [hcp]⟩

lemma or_of_shift {a b : ℕ} (h : b < 1024) : (a * 1024) ||| b = a * 1024 + b := by
  have := Nat.shiftLeft_add_eq_or_of_lt (i := 10) h a
  rw [Nat.shiftLeft_eq] at this
  exact this.symm

lemma utf16Units_astral {c : ℕ} (hc : 0xffff < c) (hlt : c < 0x110000) :
    utf16Units c = [0xd800 + (c - 0x10000) / 1024, 0xdc00 + (c - 0x10000) % 1024] := by
  have hhi : 0xd800 ||| (c - 0x10000) / 1024 = 0xd800 + (c - 0x10000) / 1024 :=
    or_of_shift (a := 54) (by omega)
  have hlo : 0xdc00 ||| (c - 0x10000) % 1024 = 0xdc00 + (c - 0x10000) % 1024 :=
    or_of_shift (a := 55) (by omega)
  have hand : (c - 0x10000) &&& 0x3ff = (c - 0x10000) % 1024 := Nat.and_two_pow_sub_one_eq_mod _ 10
  simp only [utf16Units, gt_iff_lt, hc, if_true, Nat.shiftRight_eq_div_pow, hand, uint16]
  norm_num only [hhi, hlo]
  rw [Nat.mod_eq_of_lt (by omega), Nat.mod_eq_of_lt (by omega)]

lemma utf16Units_bmp {c : ℕ} (hc : c ≤ 0xffff) : utf16Units c = [c] := by
  have hand : c &&& 0xffff = c % 2 ^ 16 := Nat.and_two_pow_sub_one_eq_mod c 16
  rw [utf16Units, if_neg (by omega), hand, Nat.mod_eq_of_lt (by omega)]

lemma isLoSurrogate_head (c : Char) : isLoSurrogate ((CodePoint.ofChar c).units.getD 0 0) = false := by
  have hlt := char_toNat_lt c
  have hc : c.toNat < 0xd800 ∨ 0xdfff < c.toNat := by
    rcases c.valid with h | ⟨h, -⟩
    · exact .inl h
    · exact .inr h
  rw [Bool.eq_false_iff, Ne, isLoSurrogate_iff]
  rcases Nat.lt_or_ge 0xffff c.toNat with h | h
  · simp only [CodePoint.units, CodePoint.ofChar, utf16Units_astral h hlt, List.getD_cons_zero]
    omega
  · simp only [CodePoint.units, CodePoint.ofChar, utf16Units_bmp h, List.getD_cons_zero]
    omega

lemma units_inside (c : Char) (h : 1 < (CodePoint.ofChar c).unitLen) :
    isHiSurrogate ((CodePoint.ofChar c).units.getD 0 0) = true ∧
      isLoSurrogate ((CodePoint.ofChar c).units.getD 1 0) = true := by
  have hlt := char_toNat_lt c
  rw [isHiSurrogate_iff, isLoSurrogate_iff]
  rcases Nat.lt_or_ge 0xffff c.toNat with hc | hc
  · simp only [CodePoint.units, CodePoint.ofChar, utf16Units_astral hc hlt, List.getD_cons_zero,
      List.getD_cons_succ]
    omega
  · simp [CodePoint.unitLen, CodePoint.units, CodePoint.ofChar, utf16Units_bmp hc] at h

lemma getD_textUnits (p : List CodePoint) (cp : CodePoint) (s : List CodePoint) {k : ℕ} (hk : k < cp.unitLen) :
    (textUnits (p ++ cp :: s)).getD (total CodePoint.unitLen p + k) 0 = cp.units.getD k 0 := by
  have hsplit : textUnits (p ++ cp :: s) = textUnits p ++ (cp.units ++ textUnits s) := by
    simp [textUnits]
  rw [hsplit, List.getD_append_right _ _ _ _ (by rw [textUnits_length]; omega), textUnits_length,
    Nat.add_sub_cancel_left, List.getD_append _ _ _ _ hk]

lemma not_boundary_iff_pair (text : List Char) {u : ℕ}
    (hu : u ≤ total CodePoint.unitLen (text.map CodePoint.ofChar)) :
    ¬ Boundary CodePoint.unitLen (text.map CodePoint.ofChar) u ↔
      0 < u ∧ u < total CodePoint.unitLen (text.map CodePoint.ofChar) ∧
        isHiSurrogate ((textUnits (text.map CodePoint.ofChar)).getD (u - 1) 0) = true ∧
        isLoSurrogate ((textUnits (text.map CodePoint.ofChar)).getD u 0) = true := by
  have hchar {p s : List CodePoint} {cp : CodePoint} (h : text.map CodePoint.ofChar = p ++ cp :: s) :
      ∃ c, cp = CodePoint.ofChar c := by
    have hm : cp ∈ text.map CodePoint.ofChar := by simp [h]
    obtain ⟨c, -, rfl⟩ := List.mem_map.mp hm
    exact ⟨c, rfl⟩
  constructor
  · intro hb
    obtain ⟨p, cp, s, k, hl, rfl, hk, hka⟩ := (boundary_or_inside _ hu).resolve_left hb
    obtain ⟨c, rfl⟩ := hchar hl
    have hle := (CodePoint.ofChar c).unitLen_le_two
    obtain rfl : k = 1 := by omega
    have hin := units_inside c hka
    have hlt : total CodePoint.unitLen p + 1 < total CodePoint.unitLen (p ++ CodePoint.ofChar c :: s) := by
      simp only [total_append, total_cons]
      omega
    rw [hl]
    refine ⟨by omega, hlt, ?_, ?_⟩
    · rw [Nat.add_sub_cancel]
      have h0 := getD_textUnits p (CodePoint.ofChar c) s (k := 0) (CodePoint.ofChar c).unitLen_pos
      rw [Nat.add_zero] at h0
      exact h0 ▸ hin.1
    · exact getD_textUnits p _ s hka ▸ hin.2
  · rintro ⟨h0, hlt, -, hlo⟩ ⟨p, s, hl, rfl⟩
    cases s with
    | nil => simp [hl] at hlt
    | cons cp s =>
      obtain ⟨c, rfl⟩ := hchar hl
      have hg := getD_textUnits p (CodePoint.ofChar c) s (k := 0) (CodePoint.ofChar c).unitLen_pos
      rw [hl, ← Nat.add_zero (total _ _), hg, isLoSurrogate_head] at hlo
      cases hlo

lemma finalSpans_boundary {n : ℕ} {p : List CodePoint} {cp : CodePoint} {u : ℕ} :
    Boundary Span.units (finalSpans n p cp) u ↔ Boundary CodePoint.unitLen (p ++ [cp]) u := by
  refine boundary_congr ?_
  simp [finalSpans, Span.padded, Span.ofCodePoint]

theorem insidePair_iff_interior {addr : ℕ} {str : Bytes} {js : JsString} (h : jsstringNew addr str = .ok js)
    (hv : ValidUtf8 str) (hlen : 0 ∈ str → str.length + 1 < 2 ^ 32) {u : ℕ} (hu : u ≤ js.len) :
    js.InsidePair u ↔ js.Interior u := by
  cases hw : js.isWideChar with
  | false => simp [JsString.InsidePair, JsString.Interior, hw]
  | true =>
    obtain ⟨p, cp, q, hd, -, -, hunits, hm⟩ := jsstringNew_scan h hw (jsstringNew_wide_length h hlen hw)
    obtain ⟨text, rfl⟩ := hv
    obtain ⟨k, hk⟩ := hd.text
    have hl : js.len = total CodePoint.unitLen (p ++ [cp]) := by rw [hm.len, finalSpans_units]
    have hi := hm.boundary_iff hw hu
    rw [finalSpans_boundary, hk] at hi
    rw [hl, hk] at hu
    rw [← not_iff_not, ← hi, ← not_iff_not (b := Boundary _ _ _), not_not, not_boundary_iff_pair _ hu]
    simp [JsString.InsidePair, hw, hunits, hl, hk]

end Jsregexp
