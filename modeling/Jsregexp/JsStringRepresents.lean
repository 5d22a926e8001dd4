import Jsregexp.ExecSpec

namespace Jsregexp

open Library.Offsets

def utf16Encode (c : ℕ) : Option (List ℕ) :=
  if c ≤ 0xffff then some [c]
  else if c ≤ 0x10ffff then some [0xd800 + (c - 0x10000) / 0x400, 0xdc00 + (c - 0x10000) % 0x400]
  else none

lemma utf16Encode_eq {c : ℕ} (hc : c ≤ 0x10ffff) : utf16Encode c = some (utf16Units c) := by
  rcases Nat.lt_or_ge 0xffff c with h | h
  · rw [utf16Encode, if_neg (by omega), if_pos hc, utf16Units_astral h (by omega)]
  · rw [utf16Encode, if_pos h, utf16Units_bmp h]

lemma le_of_utf16Encode {c : ℕ} {us : List ℕ} (h : utf16Encode c = some us) : c ≤ 0x10ffff := by
  unfold utf16Encode at h
  split at h
  · omega
  · split at h
    · assumption
    · cases h

/-- `js` stores all of `str`, which is the sequence `cps` of code points. -/
structure JsString.Represents (js : JsString) (str : Bytes) (cps : List CodePoint) : Prop where
  decodes : Decodes cps str []
  units : ∃ us, cps.mapM (fun cp => utf16Encode cp.code) = some us ∧ js.units = us.flatten
  len : js.units.length = js.len
  bstr : js.bstr = str
  bstrLen : js.bstrLen = js.bstr.length
  wide : (∃ b ∈ str, 0x80 ≤ b.toNat) → js.isWideChar = true
  offsets : ∀ p s, cps = p ++ s → js.byteAt (textUnits p).length = (textBytes p).length ∧
    (textBytes p).length ≤ js.bstr.length
  input : ∀ lreExec re m, (regexpExec lreExec re js).result = .ok (some m) → m.input = str

def Encodable (str : Bytes) : Prop := ∃ cps, Decodes cps str [] ∧ ∀ cp ∈ cps, cp.code ≤ 0x10ffff

lemma mapM_utf16Encode {cps : List CodePoint} (h : ∀ cp ∈ cps, cp.code ≤ 0x10ffff) :
    cps.mapM (fun cp => utf16Encode cp.code) = some (cps.map CodePoint.units) := by
  induction cps with
  | nil => rfl
  | cons cp s ih =>
    have hcp := utf16Encode_eq (h cp (by simp))
    have hs := ih fun x hx => h x (by simp [hx])
    simp [List.mapM_cons, hcp, hs, CodePoint.units]

lemma le_of_mapM_utf16Encode {cps : List CodePoint} {us : List (List ℕ)}
    (h : cps.mapM (fun cp => utf16Encode cp.code) = some us) : ∀ cp ∈ cps, cp.code ≤ 0x10ffff := by
  induction cps generalizing us with
  | nil => simp
  | cons cp s ih =>
    simp only [List.mapM_cons, Option.bind_eq_bind, Option.bind_eq_some_iff] at h
    obtain ⟨u, hu, us', hus, -⟩ := h
    rintro x (_ | ⟨_, hx⟩)
    · exact le_of_utf16Encode hu
    · exact ih hus x hx

lemma regexpExec_input {lreExec : Engine} {re : RegExp} {js : JsString} {m : Match}
    (h : (regexpExec lreExec re js).result = .ok (some m)) : m.input = cString js.bstr := by
  obtain ⟨-, capture, hc⟩ := call_of_some h
  obtain ⟨index, ts, r, -, -, -, rfl⟩ := buildMatch_ok_iff.mp (buildMatch_of_some h hc)
  rfl

lemma and_high_bit {n : ℕ} (h : n < 256) : (n &&& 0x80 != 0) = true ↔ 0x80 ≤ n := by
  have hand : n &&& 0x80 = (n.testBit 7).toNat * 2 ^ 7 := Nat.and_two_pow n 7
  rw [hand, Nat.testBit_eq_decide_div_mod_eq]
  rcases Nat.mod_two_eq_zero_or_one (n / 2 ^ 7) with hn | hn
  · simp
    omega
  · simp
    omega

lemma nonAscii_iff {str : Bytes} (hz : 0 ∉ str) :
    utf8ContainsNonAscii str = true ↔ ∃ b ∈ str, 0x80 ≤ b.toNat := by
  rw [utf8ContainsNonAscii, cString_eq_self hz, List.any_eq_true]
  exact exists_congr fun b => and_congr_right fun _ => and_high_bit b.toNat_lt

def CodePoint.ofByte (b : UInt8) : CodePoint := ⟨b.toNat, [b], by simp⟩

lemma decodes_ascii {str : Bytes} (h : ∀ b ∈ str, b.toNat < 0x80) :
    Decodes (str.map CodePoint.ofByte) str [] := by
  induction str with
  | nil => exact .nil
  | cons b str ih =>
    have hb := h b (by simp)
    refine .cons (c := CodePoint.ofByte b) ?_ (ih fun x hx => h x (by simp [hx]))
    simp [unicodeFromUtf8, CodePoint.ofByte, hb]

lemma textUnits_ascii {str : Bytes} (h : ∀ b ∈ str, b.toNat < 0x80) :
    textUnits (str.map CodePoint.ofByte) = str.map UInt8.toNat := by
  induction str with
  | nil => rfl
  | cons b str ih =>
    have hb := h b (by simp)
    have hu : (CodePoint.ofByte b).units = [b.toNat] := utf16Units_bmp (by simp [CodePoint.ofByte]; omega)
    have hs := ih fun x hx => h x (by simp [hx])
    simp only [textUnits] at hs
    simp [textUnits, hu, hs]

lemma textBytes_ascii (str : Bytes) : textBytes (str.map CodePoint.ofByte) = str := by
  induction str with
  | nil => rfl
  | cons b str ih => simpa [CodePoint.ofByte] using ih

lemma finalSpans_exact (p : List CodePoint) (cp : CodePoint) :
    finalSpans (total CodePoint.byteLen (p ++ [cp])) p cp = (p ++ [cp]).map Span.ofCodePoint := by
  simp [finalSpans, Span.padded, Span.ofCodePoint]

lemma JsString.Mapped.byteAt_append {js : JsString} {n : ℕ} {p : List CodePoint} {cp : CodePoint}
    (hm : js.Mapped (finalSpans n p cp)) (hw : js.isWideChar = true)
    (hn : n = total CodePoint.byteLen (p ++ [cp])) {a s : List CodePoint} (h : p ++ [cp] = a ++ s) :
    js.byteAt (total CodePoint.unitLen a) = total CodePoint.byteLen a := by
  subst hn
  rw [finalSpans_exact, h, List.map_append] at hm
  have hu : total Span.units (a.map Span.ofCodePoint) = total CodePoint.unitLen a := total_map _ _ _
  have hb : total Span.bytes (a.map Span.ofCodePoint) = total CodePoint.byteLen a := total_map _ _ _
  have hle : total CodePoint.unitLen a ≤ js.len := by
    rw [hm.len, total_append, hu]
    exact Nat.le_add_right _ _
  rw [JsString.byteAt, if_pos hw, hm.getD_indices hle, ← hu, image_append Span.units_pos, hb]

theorem jsstringNew_represents_iff {addr : ℕ} {str : Bytes} {js : JsString}
    (hjs : jsstringNew addr str = .ok js) :
    (∃ cps, js.Represents str cps) ↔ 0 ∉ str ∧ str.length < 2 ^ 32 ∧ Encodable str := by
  obtain ⟨-, hb, hl⟩ := jsstringNew_addr hjs
  constructor
  · rintro ⟨cps, h⟩
    have hz : 0 ∉ str := cString_eq_self_iff.mp (hb.symm.trans h.bstr)
    refine ⟨hz, ?_, cps, h.decodes, ?_⟩
    · have hlen := h.bstrLen
      rw [h.bstr, hl, uint32] at hlen
      omega
    · obtain ⟨us, hus, -⟩ := h.units
      exact le_of_mapM_utf16Encode hus
  · rintro ⟨hz, hlt, cps, hd, hcode⟩
    have hbstr : js.bstr = str := by rw [hb, cString_eq_self hz]
    have hbl : js.bstrLen = js.bstr.length := by rw [hl, hbstr, uint32, Nat.mod_eq_of_lt hlt]
    have hstr : str = textBytes cps := by simpa using hd.eq_append
    have hlenBytes {p s : List CodePoint} (hps : cps = p ++ s) : (textBytes p).length ≤ js.bstr.length := by
      rw [hbstr, hstr, hps]
      simp
    have hinput : ∀ lreExec re m, (regexpExec lreExec re js).result = .ok (some m) → m.input = str :=
      fun _ _ _ h => by rw [regexpExec_input h, hbstr, cString_eq_self hz]
    have hwide : (∃ b ∈ str, 0x80 ≤ b.toNat) → js.isWideChar = true := fun h => by
      rw [jsstringNew_wide hjs, (nonAscii_iff hz).mpr h]
    have hrep (hunits : js.units = textUnits cps) (hlen : js.units.length = js.len)
        (hoff : ∀ p s, cps = p ++ s → js.byteAt (textUnits p).length = (textBytes p).length) :
        js.Represents str cps := {
      decodes := hd
      units := ⟨_, mapM_utf16Encode hcode, by rw [hunits, textUnits, List.flatMap_def]⟩
      len := hlen
      bstr := hbstr
      bstrLen := hbl
      wide := hwide
      offsets p s hps := ⟨hoff p s hps, hlenBytes hps⟩
      input := hinput }
    refine ⟨cps, ?_⟩
    cases hw : js.isWideChar with
    | false =>
      have hascii : ∀ b ∈ str, b.toNat < 0x80 := fun b hb => by
        by_contra hn
        simp [hwide ⟨b, hb, by omega⟩] at hw
      obtain rfl : cps = str.map CodePoint.ofByte := hd.unique (decodes_ascii hascii)
      rcases jsstringNew_cases hjs with ⟨-, rfl⟩ | ⟨-, t, -, rfl⟩
      · refine hrep ?_ ?_ ?_
        · simp only [cString_eq_self hz, textUnits_ascii hascii]
        · simp only [cString_eq_self hz, List.length_map, uint32, Nat.mod_eq_of_lt hlt]
        · intro p s hps
          obtain ⟨p', s', rfl, rfl, rfl⟩ := List.map_eq_append_iff.mp hps
          have hp : ∀ b ∈ p', b.toNat < 0x80 := fun b hb => hascii b (by simp [hb])
          simp [JsString.byteAt, textUnits_ascii hp, textBytes_ascii]
      · simp at hw
    | true =>
      obtain ⟨p, cp, q, hd', hz', hq, hunits, hm⟩ := jsstringNew_scan hjs hw (jsstringNew_length hjs hw hz)
      have hq' : q = [] := by
        cases q with
        | nil => rfl
        | cons b q =>
          have hb : b = 0 := by simpa [← UInt8.toNat_inj] using hq
          exact absurd (by simp [hd'.eq_append, hb]) hz
      subst hq'
      obtain rfl : cps = p ++ [cp] := hd.unique hd'
      refine hrep hunits ?_ ?_
      · rw [hunits, hm.len, textUnits_length, finalSpans_units]
      · intro a s hps
        have hlen : str.length = total CodePoint.byteLen (p ++ [cp]) := by rw [hstr, textBytes_length]
        rw [textUnits_length, textBytes_length]
        exact hm.byteAt_append hw hlen hps

def abString : JsString where
  isWideChar := false
  len := 2
  bstr := [0x61, 0x62]
  bstrLen := 2
  indices := []
  revIndices := []
  units := [0x61, 0x62]
  addr := 16

theorem jsstringNew_represents_ab :
    jsstringNew 16 [0x61, 0x62] = .ok abString ∧ ∃ cps, abString.Represents [0x61, 0x62] cps := by
  have hd : Encodable [0x61, 0x62] :=
    ⟨[0x61, 0x62].map CodePoint.ofByte, decodes_ascii (by simp), by simp [CodePoint.ofByte]⟩
  have hjs : jsstringNew 16 [0x61, 0x62] = .ok abString := by
    rw [jsstringNew, if_neg (by decide)]
    rfl
  exact ⟨hjs, (jsstringNew_represents_iff hjs).mpr ⟨by decide, by decide, hd⟩⟩

theorem jsstringNew_embedded_nul :
    ∃ js, jsstringNew 16 [0x61, 0] = .ok js ∧ ∀ cps, ¬ js.Represents [0x61, 0] cps := by
  refine ⟨_, rfl, fun cps h => ?_⟩
  have hlen := h.len
  revert hlen
  decide

end Jsregexp
