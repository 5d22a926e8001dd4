import Jsregexp.JsStringRepresents

/-! Which strings `utf8_to_utf16` takes for UTF-8. Its decoder knows the forms of up to six bytes, so
it also takes surrogates and values that Unicode does not have. -/

namespace Jsregexp

open Library.Offsets

def LongUtf8 (p : Bytes) : Prop := ∃ cs : List ℕ, (∀ c ∈ cs, c < 2 ^ 31) ∧ p = cs.flatMap utf8Form

structure MalformedAfter (input p : Bytes) : Prop where
  before : LongUtf8 p
  after : ∃ q, input = p ++ q ∧ q ≠ [] ∧ ∀ c r, c < 2 ^ 31 → q ≠ utf8Form c ++ r

/-- The input is well-formed or is malformed where the tables still have room. -/
def Convertible (input : Bytes) : Prop :=
  (ValidUtf8 input ∧ input.length + 1 < 2 ^ 32) ∨
    ∃ p, MalformedAfter input p ∧ p.length < uint32 (uint32 input.length + 1)

/-- `utf8_to_utf16` and `to_jsstring` reject exactly what is not UTF-8 and convert the rest to UTF-16. -/
structure ConvertsUtf8 (input : Bytes) : Prop where
  null : utf8ToUtf16 input (uint32 input.length) = .ok none ↔ ¬ ValidUtf8 input
  raises : ∀ addr, jsstringNew addr input = .error (.raised (bytesOf "malformed unicode")) ↔
    ¬ ValidUtf8 input
  text : ∀ text, input = utf8 text → ∃ t us, utf8ToUtf16 input (uint32 input.length) = .ok (some t) ∧
    text.mapM (fun c => utf16Encode c.toNat) = some us ∧ t.str = us.flatten ∧
    t.str.length ≤ uint32 input.length

namespace Decodes

variable {s : List CodePoint} {p q : Bytes}

lemma stops_iff : Stops q ↔ q = [] ∨ ∀ c r, c < 2 ^ 31 → q ≠ utf8Form c ++ r := by
  by_cases hq : q = []
  · simp [Stops, hq]
  · simp only [Stops, hq, false_or]
    constructor
    · intro hn c r hc he
      have hd := (unicodeFromUtf8_iff hq).mpr ⟨hc, he⟩
      rw [hn] at hd
      cases hd
    · intro h
      cases hd : unicodeFromUtf8 q utf8CharLenMax with
      | none => rfl
      | some r =>
        obtain ⟨hc, he⟩ := (unicodeFromUtf8_iff hq).mp hd
        exact absurd he (h _ _ hc)

lemma long (h : Decodes s p q) : LongUtf8 (textBytes s) := by
  induction h with
  | nil => exact ⟨[], by simp⟩
  | @cons cp s q r hd _ ih =>
    obtain ⟨cs, hcs, hs⟩ := ih
    obtain ⟨hc, he⟩ := (unicodeFromUtf8_iff (by simp [cp.nonempty])).mp hd
    have hcp : cp.bytes = utf8Form cp.code := List.append_cancel_right he
    refine ⟨cp.code :: cs, ?_, by simp [hs, hcp]⟩
    rintro c (_ | ⟨_, hc'⟩)
    · exact hc
    · exact hcs c hc'

lemma of_long (hp : LongUtf8 p) (q : Bytes) : ∃ s, Decodes s (p ++ q) q ∧ textBytes s = p := by
  obtain ⟨cs, hcs, rfl⟩ := hp
  induction cs with
  | nil => exact ⟨[], .nil, rfl⟩
  | cons c cs ih =>
    obtain ⟨s, hs, hb⟩ := ih fun x hx => hcs x (List.mem_cons_of_mem c hx)
    let cp : CodePoint := ⟨c, utf8Form c, utf8Form_ne_nil c⟩
    have hd : unicodeFromUtf8 (cp.bytes ++ (cs.flatMap utf8Form ++ q)) utf8CharLenMax =
        some (cp.code, cs.flatMap utf8Form ++ q) :=
      (unicodeFromUtf8_iff (by simp [cp.nonempty])).mpr ⟨hcs c (by simp), rfl⟩
    refine ⟨cp :: s, ?_, by simp [hb, cp]⟩
    rw [List.flatMap_cons, List.append_assoc]
    exact .cons hd hs

lemma malformedAfter_iff (h : Decodes s p q) (hq : Stops q) {a : Bytes} :
    MalformedAfter p a ↔ q ≠ [] ∧ a = textBytes s := by
  constructor
  · rintro ⟨hlong, q', rfl, hne, hq'⟩
    obtain ⟨s', hs', rfl⟩ := of_long hlong q'
    obtain ⟨rfl, rfl⟩ := h.unique_of_stops hs' hq (stops_iff.mpr (.inr hq'))
    exact ⟨hne, rfl⟩
  · rintro ⟨hne, rfl⟩
    exact ⟨h.long, q, h.eq_append, hne, (stops_iff.mp hq).resolve_left hne⟩

lemma validUtf8_iff (h : Decodes s p q) (hq : Stops q) :
    ValidUtf8 p ↔ q = [] ∧ ∃ text : List Char, s = text.map CodePoint.ofChar := by
  constructor
  · rintro ⟨text, rfl⟩
    obtain ⟨rfl, rfl⟩ := h.unique_of_stops (decodes_text text) hq (.inl rfl)
    exact ⟨rfl, text, rfl⟩
  · rintro ⟨rfl, text, rfl⟩
    refine ⟨text, ?_⟩
    rw [h.eq_append, List.append_nil, textBytes, utf8, List.flatMap_map]
    rfl

end Decodes

lemma scan_stops {input : Bytes} (hz : 0 ∉ input) :
    ∃ s q, Decodes s input q ∧ 0 ∉ textBytes s ∧ Decodes.Stops q ∧ (peek q 0 = 0 ↔ q = []) := by
  obtain ⟨s, q, hd, hzs, hq⟩ := scan_cases input
  have hq0 : peek q 0 = 0 ↔ q = [] := by
    cases q with
    | nil => simp
    | cons b q =>
      have hb : b ≠ 0 := fun he => hz (by simp [hd.eq_append, he])
      simpa [← UInt8.toNat_inj] using hb
  exact ⟨s, q, hd, hzs, by rwa [Decodes.Stops, ← hq0], hq0⟩

lemma utf8ToUtf16Loop_null {n size fuel off : ℕ} {pos q : Bytes} {t : Utf16} {s : List CodePoint}
    (h : Decodes s pos q) (hz : 0 ∉ textBytes s) (hr : t.revIndices.length = size)
    (hnull : utf8ToUtf16Loop n size fuel pos off t = .ok none) :
    q ≠ [] ∧ off + (textBytes s).length < size := by
  induction h generalizing fuel off t with
  | @nil p =>
    cases fuel with
    | zero => simp [utf8ToUtf16Loop] at hnull
    | succ fuel =>
      by_cases h0 : peek p 0 = 0
      · simp only [utf8ToUtf16Loop, h0, if_true, except_bind_ok_iff] at hnull
        obtain ⟨_, -, _, -, _, -, hnull⟩ := hnull
        cases hnull
      · simp only [utf8ToUtf16Loop, h0, if_false, except_bind_ok_iff, store_ok_iff] at hnull
        obtain ⟨_, -, _, ⟨hoff, -⟩, -⟩ := hnull
        refine ⟨?_, by simpa [hr] using hoff⟩
        rintro rfl
        exact h0 (peek_nil 0)
  | @cons cp s q r hd _ ih =>
    have hz' : 0 ∉ cp.bytes ∧ 0 ∉ textBytes s := by simpa using hz
    cases fuel with
    | zero => simp [utf8ToUtf16Loop] at hnull
    | succ fuel =>
      simp only [utf8ToUtf16Loop, Decodes.peek_ne_zero hz'.1, if_false, except_bind_ok_iff,
        store_ok_iff, hd] at hnull
      obtain ⟨_, -, _, ⟨-, rfl⟩, hnull⟩ := hnull
      split at hnull
      · obtain ⟨hne, hlt⟩ := ih hz'.2 (by simpa using hr) hnull
        simp only [List.length_append, Nat.add_sub_cancel] at hlt
        exact ⟨hne, by simp only [textBytes_cons, List.length_append]; omega⟩
      · cases hnull

lemma uint32_lt (n : ℕ) : uint32 n < 2 ^ 32 := Nat.mod_lt _ (by norm_num)

lemma mapM_utf16Encode_text (text : List Char) :
    text.mapM (fun c => utf16Encode c.toNat) = some (text.map fun c => (CodePoint.ofChar c).units) := by
  have hcode : ∀ cp ∈ text.map CodePoint.ofChar, cp.code ≤ 0x10ffff := by
    intro cp hcp
    obtain ⟨c, -, rfl⟩ := List.mem_map.mp hcp
    exact Nat.lt_succ_iff.mp (char_toNat_lt c)
  have h := mapM_utf16Encode hcode
  rwa [List.mapM_map, List.map_map] at h

lemma textBytes_text (text : List Char) : textBytes (text.map CodePoint.ofChar) = utf8 text := by
  rw [textBytes, utf8, List.flatMap_map]
  rfl

lemma utf8ToUtf16_text {text : List Char} (hz : 0 ∉ utf8 text) (hlt : (utf8 text).length + 1 < 2 ^ 32) :
    utf8ToUtf16 (utf8 text) (uint32 (utf8 text).length) =
      .ok (some (finalUtf16 (utf8 text).length (text.map CodePoint.ofChar))) := by
  have hmod : uint32 (utf8 text).length = (utf8 text).length := Nat.mod_eq_of_lt (by omega)
  rw [hmod, utf8ToUtf16_eq (decodes_text text) (by rwa [textBytes_text]) hlt (by rw [textBytes_text])
    (.inl (peek_nil 0)), if_pos (peek_nil 0)]

lemma converts_utf8_of_text {text : List Char} (hz : 0 ∉ utf8 text)
    (hlt : (utf8 text).length + 1 < 2 ^ 32) : ConvertsUtf8 (utf8 text) := by
  have hv : ValidUtf8 (utf8 text) := ⟨text, rfl⟩
  have ht := utf8ToUtf16_text hz hlt
  refine ⟨⟨fun h => ?_, fun h => absurd hv h⟩, fun addr => ⟨fun h => ?_, fun h => absurd hv h⟩, ?_⟩
  · rw [ht] at h
    cases h
  · have hnew : jsstringNew addr (utf8 text) = .error .undefined ∨ ∃ js, jsstringNew addr (utf8 text) = .ok js :=
      jsstringNew_text hv
    obtain hu | ⟨js, hjs⟩ := hnew
    · rw [h] at hu
      cases hu
    · rw [h] at hjs
      cases hjs
  · intro text' htext'
    have hcps : text.map CodePoint.ofChar = text'.map CodePoint.ofChar :=
      (decodes_text text).unique (htext' ▸ decodes_text text')
    refine ⟨_, _, ht, mapM_utf16Encode_text text', ?_, ?_⟩
    · rw [hcps, finalUtf16, textUnits, List.flatMap_map, List.flatMap_def]
    · rw [finalUtf16, textUnits_length, uint32, Nat.mod_eq_of_lt (by omega)]
      refine (decodes_text text).total_le.trans ?_
      rw [← textBytes_length, textBytes_text]

lemma Decodes.nonAscii {s : List CodePoint} {p q : Bytes} (h : Decodes s p q)
    (hq : unicodeFromUtf8 q utf8CharLenMax = none) : ∃ b ∈ p, 0x80 ≤ b.toNat := by
  cases q with
  | nil => simp [unicodeFromUtf8] at hq
  | cons b q =>
    refine ⟨b, by simp [h.eq_append], ?_⟩
    by_contra hb
    simp [unicodeFromUtf8, Nat.not_le.mp hb] at hq

lemma utf8ToUtf16_malformed {s : List CodePoint} {input q : Bytes} (hd : Decodes s input q)
    (hzs : 0 ∉ textBytes s) (h0 : peek q 0 ≠ 0) (hq : unicodeFromUtf8 q utf8CharLenMax = none)
    (hb : (textBytes s).length < uint32 (uint32 input.length + 1)) :
    utf8ToUtf16 input (uint32 input.length) = .ok none := by
  have hn := uint32_lt input.length
  have hn' : uint32 input.length + 1 < 2 ^ 32 := by
    by_contra hbig
    have he : uint32 input.length + 1 = 2 ^ 32 := by omega
    rw [he, uint32, Nat.mod_self] at hb
    omega
  rw [uint32, Nat.mod_eq_of_lt hn'] at hb
  rw [utf8ToUtf16_eq hd hzs hn' (by omega) (.inr hq), if_neg h0]

theorem converts_utf8_iff {input : Bytes} (hz : 0 ∉ input) : ConvertsUtf8 input ↔ Convertible input := by
  obtain ⟨s, q, hd, hzs, hq, hq0⟩ := scan_stops hz
  have hsize : (List.replicate (uint32 (uint32 input.length + 1)) 0).length =
      uint32 (uint32 input.length + 1) := List.length_replicate
  by_cases hend : q = []
  · constructor
    · intro h
      have hv : ValidUtf8 input := by
        by_contra hv
        exact (utf8ToUtf16Loop_null hd hzs hsize (h.null.mpr hv)).1 hend
      obtain ⟨text, htext⟩ := hv
      obtain ⟨t, us, ht, -, -, -⟩ := h.text text htext
      have hfit := utf8ToUtf16Loop_fits ht hz hsize (Nat.zero_le _)
      refine .inl ⟨⟨text, htext⟩, ?_⟩
      simp only [uint32] at hfit
      omega
    · rintro (⟨⟨text, rfl⟩, hlt⟩ | ⟨a, ha, -⟩)
      · exact converts_utf8_of_text hz hlt
      · exact absurd hend ((hd.malformedAfter_iff hq).mp ha).1
  · have hv : ¬ ValidUtf8 input := fun hv => hend ((hd.validUtf8_iff hq).mp hv).1
    constructor
    · intro h
      obtain ⟨-, hb⟩ := utf8ToUtf16Loop_null hd hzs hsize (h.null.mpr hv)
      exact .inr ⟨_, (hd.malformedAfter_iff hq).mpr ⟨hend, rfl⟩, by simpa using hb⟩
    · rintro (⟨hv', -⟩ | ⟨a, ha, hb⟩)
      · exact absurd hv' hv
      · obtain ⟨-, rfl⟩ := (hd.malformedAfter_iff hq).mp ha
        have hnone := hq.resolve_left hend
        have hnull := utf8ToUtf16_malformed hd hzs (mt hq0.mp hend) hnone hb
        have hna := (nonAscii_iff hz).mpr (hd.nonAscii hnone)
        refine ⟨⟨fun _ => hv, fun _ => hnull⟩, fun addr => ⟨fun _ => hv, fun _ => ?_⟩, fun text htext =>
          absurd ⟨text, htext⟩ hv⟩
        simp [jsstringNew, hna, hnull, bind, Except.bind]

def eAcute : Bytes := [0xc3, 0xa9]

theorem converts_eAcute : ConvertsUtf8 eAcute :=
  (converts_utf8_iff (by decide)).mpr (.inl ⟨⟨['é'], by decide⟩, by decide⟩)

theorem converts_surrogate_false : ¬ ConvertsUtf8 [0xed, 0xa0, 0x80] := by
  intro h
  have hv : ¬ ValidUtf8 [0xed, 0xa0, 0x80] := by
    rintro ⟨text, htext⟩
    cases text with
    | nil => cases htext
    | cons c text =>
      have hc := unicodeFromUtf8_encode c (utf8 text)
      have hsplit : String.utf8EncodeChar c ++ utf8 text = [0xed, 0xa0, 0x80] := htext.symm
      have hd : unicodeFromUtf8 [0xed, 0xa0, 0x80] utf8CharLenMax = some (0xd800, []) := by decide
      rw [hsplit, hd] at hc
      obtain ⟨hcode, -⟩ : 0xd800 = c.toNat ∧ [] = utf8 text := by simpa using hc
      rcases c.valid with hlt | ⟨hlt, -⟩
      · exact absurd (hcode ▸ hlt : 0xd800 < 0xd800) (lt_irrefl _)
      · exact absurd (hcode ▸ hlt : 0xdfff < 0xd800) (by norm_num)
  have hnull := h.null.mpr hv
  revert hnull
  decide

end Jsregexp
