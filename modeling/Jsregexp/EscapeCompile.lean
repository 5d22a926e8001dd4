import Jsregexp.Escape
import Jsregexp.ExecStart
import Jsregexp.Libregexp.LiteralSearch
import Jsregexp.PatternGuard
import Jsregexp.Recompile

namespace Jsregexp

section Search

variable {U : Libunicode} {reFlags : ℕ} {cs : List ℕ}

theorem lreExec_literal (hcase : reFlags &&& lreFlagIgnorecase = 0) (hsticky : reFlags &&& lreFlagSticky = 0)
    (hcs : ∀ c ∈ cs, c < 0xd800) (cbuf : List ℕ) {cindex : ℕ} (hindex : cindex ≤ cbuf.length) {cbufType : ℕ}
    (hfits : cbuf.length <<< cbufType ≤ int32Max) :
    LreExec U (literalBytecode U reFlags cs) cbuf cindex cbuf.length cbufType
      (.ok (occurrenceResult cs.length (firstOccurrence cs cbuf
        (startPosition (.start (literalBytecode U reFlags cs) cbuf cbuf.length cbufType) cindex)))) := by
  have hignore := start_ignoreCase hcase []
  have hcode : (literalBytecode U reFlags cs).code =
      searchLoop false ++ .saveStart 0 :: cs.map (reEmitChar (.start [] reFlags)) ++ [.saveEnd 0, .matched] := by
    have hchars : literalCode U (.start [] reFlags) cs = cs.map (reEmitChar (.start [] reFlags)) := by
      rw [literalCode]
      apply List.map_congr_left
      intro c hc
      rw [classChar, hignore]
      rfl
    simp only [literalBytecode, wholeCode, hsticky, hchars, ne_eq, not_true_eq_false, decide_false]
  have hstart : startPosition (.start (literalBytecode U reFlags cs) cbuf cbuf.length cbufType) cindex ≤
      cbuf.length := by
    rw [startPosition]
    split <;> omega
  rw [LreExec, if_pos hfits]
  exact attempt_returns (s := .start (literalBytecode U reFlags cs) cbuf cbuf.length cbufType) hignore rfl rfl hcs hcode
    _ hstart

end Search

section Text

lemma utf8EncodeChar_ascii {c : Char} (hc : c.toNat < 0x80) : String.utf8EncodeChar c = [UInt8.ofNat c.toNat] := by
  rw [← utf8Form_char, utf8Form, if_pos hc]

lemma utf8EncodeChar_long {c : Char} (hc : ¬ c.toNat < 0x80) : 2 ≤ (String.utf8EncodeChar c).length := by
  have hform : 1 ≤ utf8FormLen c.toNat := by
    rw [utf8FormLen]
    split_ifs <;> omega
  obtain ⟨n, hn⟩ := Nat.exists_eq_succ_of_ne_zero (Nat.one_le_iff_ne_zero.mp hform)
  rw [← utf8Form_char, utf8Form, if_neg hc, hn, utf8TailBytes]
  simp

lemma utf8_values_iff (text : List Char) :
    (utf8 text).map UInt8.toNat = text.map Char.toNat ↔ ∀ c ∈ text, c.toNat < 0x80 := by
  have hlength (text : List Char) : text.length ≤ (utf8 text).length := by
    induction text with
    | nil => exact le_rfl
    | cons c text ih =>
      have hpos : 1 ≤ (String.utf8EncodeChar c).length := by
        by_cases hc : c.toNat < 0x80
        · rw [utf8EncodeChar_ascii hc]
          exact le_rfl
        · exact le_of_lt (utf8EncodeChar_long hc)
      rw [utf8, List.flatMap_cons, List.length_append, List.length_cons]
      rw [utf8] at ih
      omega
  induction text with
  | nil => simp [utf8]
  | cons c text ih =>
    have hcons : utf8 (c :: text) = String.utf8EncodeChar c ++ utf8 text := List.flatMap_cons
    rw [List.forall_mem_cons, hcons]
    by_cases hc : c.toNat < 0x80
    · have hvalue : (UInt8.ofNat c.toNat).toNat = c.toNat := by
        rw [UInt8.toNat_ofNat', Nat.mod_eq_of_lt (by omega)]
      rw [utf8EncodeChar_ascii hc, List.singleton_append, List.map_cons, List.map_cons, hvalue, List.cons_inj_right]
      exact ih.trans ⟨fun h => ⟨hc, h⟩, fun h => h.2⟩
    · refine iff_of_false (fun h => ?_) fun h => hc h.1
      have hlen := congrArg List.length h
      have hlong := utf8EncodeChar_long hc
      have hrest := hlength text
      simp only [List.length_map, List.length_append, List.length_cons] at hlen
      omega

lemma utf16_ascii {text : List Char} (h : ∀ c ∈ text, c.toNat < 0x80) : utf16 text = text.map Char.toNat := by
  induction text with
  | nil => rfl
  | cons c text ih =>
    have hc := h c List.mem_cons_self
    have hunit : (utf16Encode c.toNat).getD [] = [c.toNat] := by
      rw [utf16Encode, if_pos (by omega)]
      rfl
    have hrest := ih fun d hd => h d (List.mem_cons_of_mem _ hd)
    rw [utf16] at hrest ⊢
    rw [List.flatMap_cons, hunit, hrest]
    rfl

end Text

section Del

variable {U : Libunicode} {s : REParseState}
variable {disjunction : Bool → REParseState → Except Failure (List Op × REParseState)}
variable {q : Bytes}

def invalidEscapeMessage : Failure := .raised (bytesOf "invalid escape sequence in regular expression")

lemma reParseTerm_del (hu : s.isUnicode = true) :
    reParseTerm U disjunction { s with bufPtr := byteOf '\\' :: 0x7f :: q } false = .error invalidEscapeMessage := by
  have hdefault (t : REParseState) (ht : t.isUnicode = true) :
      defaultEscape t (0x7f :: q) = .error invalidEscapeMessage := by
    have hunknown : lreParseEscape (0x7f :: q) (if t.isUnicode then 2 else 0) = .unknown := by
      rw [ht]
      rfl
    rw [defaultEscape, hunknown]
    exact if_pos ht
  rw [reParseTerm]
  dsimp only
  rw [termAtom_escape (by decide), if_neg (by decide), hdefault { s with bufPtr := byteOf '\\' :: 0x7f :: q } hu]
  rfl

lemma escapeFrom_append (i : ℕ) (s t : Bytes) :
    escapeFrom i (s ++ t) = escapeFrom i s ++ escapeFrom (i + s.length) t := by
  rw [escapeFrom, List.zipIdx_append, List.flatMap_append]
  rfl

lemma lreCompile_del {str : Bytes} (hdel : 0x7f ∈ str) {reFlags : ℕ}
    (hu : reFlags &&& (lreFlagUnicode ||| lreFlagUnicodeSets) ≠ 0) :
    lreCompile U (escapeFrom 0 str) reFlags = .error invalidEscapeMessage := by
  obtain ⟨pre, post, rfl, hpre⟩ := List.eq_append_cons_of_mem hdel
  have hunicode : (REParseState.start (escapeFrom 0 (pre ++ 0x7f :: post)) reFlags).isUnicode = true := by
    show decide (reFlags &&& (lreFlagUnicode ||| lreFlagUnicodeSets) ≠ 0) = true
    exact decide_eq_true hu
  have htext : escapeFrom 0 (pre ++ 0x7f :: post) =
      escapeFrom 0 pre ++ byteOf '\\' :: 0x7f :: escapeFrom (pre.length + 1) post := by
    rw [escapeFrom_append, escapeFrom_cons, Nat.zero_add]
    rfl
  have hread : ReadsChars U (.start (escapeFrom 0 (pre ++ 0x7f :: post)) reFlags)
      (escapeFrom 0 (pre ++ 0x7f :: post)) (pre.map UInt8.toNat)
      (byteOf '\\' :: 0x7f :: escapeFrom (pre.length + 1) post) := by
    have hescapable : ∀ c ∈ pre,
        Escapable (.start (escapeFrom 0 (pre ++ 0x7f :: post)) reFlags) c := by
      rintro c hc rfl
      exact absurd hc hpre
    have h := readsChars_escapeFrom (U := U) (q := byteOf '\\' :: 0x7f :: escapeFrom (pre.length + 1) post)
      (by rw [peek_cons_zero]; decide) 0 hescapable
    rwa [← htext] at h
  apply lreCompile_error
  intro n
  apply hread.alternative_error (List.cons_ne_nil _ _)
  · rw [peek_cons_zero]
    decide
  · rw [peek_cons_zero]
    decide
  · exact reParseTerm_del hunicode

end Del

section Compile

variable {U : Libunicode} {str flags : Bytes} {re : RegExp}

lemma escapeByte_ascii (i : ℕ) (c : UInt8) :
    (escapeByte i c).all (fun b => b ≠ 0 && b.toNat < 0x80) = true := by
  have htable : ∀ n < 256, (escapeByte 0 (UInt8.ofNat n)).all (fun b => b ≠ 0 && b.toNat < 0x80) = true ∧
      (escapeByte 1 (UInt8.ofNat n)).all (fun b => b ≠ 0 && b.toNat < 0x80) = true := by decide +kernel
  obtain ⟨hfirst, hlater⟩ := htable _ c.toNat_lt
  rw [UInt8.ofNat_toNat] at hfirst hlater
  cases i with
  | zero => exact hfirst
  | succ i => exact hlater

lemma escapeFrom_ascii : ∀ b ∈ escapeFrom 0 str, b ≠ 0 ∧ b.toNat < 0x80 := by
  intro b hb
  obtain ⟨c, -, hb⟩ := List.mem_flatMap.mp hb
  have hall := List.all_eq_true.mp (escapeByte_ascii c.2 c.1) b hb
  simpa using hall

lemma compile_escape_iff : jsregexpCompile U (escapeFrom 0 str) flags = .ok re ↔
    re.expr = escapeFrom 0 str ∧ re.lastIndex = 0 ∧
      lreCompile U (escapeFrom 0 str) (readFlags 0 (cString flags)) = .ok re.bc := by
  have hself : cString (escapeFrom 0 str) = escapeFrom 0 str :=
    cString_eq_self fun hz => (escapeFrom_ascii 0 hz).1 rfl
  have hfd : 0xfd ∉ escapeFrom 0 str := fun h => absurd (escapeFrom_ascii 0xfd h).2 (by decide)
  have himplicit : implicitFlags (escapeFrom 0 str) = 0 := by
    have hbmp : utf8ContainsNonBmp (escapeFrom 0 str) = false := by
      rw [utf8ContainsNonBmp, hself, List.any_eq_false]
      intro b hb
      rw [nonBmp_byte_iff]
      have hlt := (escapeFrom_ascii b hb).2
      omega
    rw [implicitFlags, hbmp]
    rfl
  rw [jsregexpCompile_ok_iff, hself, himplicit]
  exact ⟨fun h => h.2, fun h => ⟨hfd, h⟩⟩

def escapeFlags : List Bytes := [[], bytesOf "u", bytesOf "v"]

lemma escapeFlags_bits (hf : flags ∈ escapeFlags) :
    readFlags 0 (cString flags) &&& lreFlagIgnorecase = 0 ∧ readFlags 0 (cString flags) &&& lreFlagSticky = 0 ∧
      (readFlags 0 (cString flags) &&& (lreFlagUnicode ||| lreFlagUnicodeSets) ≠ 0 ↔ flags ≠ []) := by
  have hall : ∀ flags ∈ escapeFlags,
      readFlags 0 (cString flags) &&& lreFlagIgnorecase = 0 ∧ readFlags 0 (cString flags) &&& lreFlagSticky = 0 ∧
        (readFlags 0 (cString flags) &&& (lreFlagUnicode ||| lreFlagUnicodeSets) ≠ 0 ↔ flags ≠ []) := by decide +kernel
  exact hall flags hf

/-- The pattern made of a text is the row of its characters, and matches where they stand. -/
structure EscapesTo (U : Libunicode) (text : List Char) (flags pattern : Bytes) (re : RegExp) : Prop where
  escapes : jsregexpEscape (utf8 text) = .ok pattern
  compiles : jsregexpCompile U pattern flags = .ok re
  reads : LiteralPattern U pattern (readFlags 0 (cString flags)) (text.map Char.toNat)
  finds : ∀ cbuf cindex cbufType, cindex ≤ cbuf.length → cbufType ≤ 1 → cbuf.length <<< cbufType ≤ int32Max →
    LreExec U re.bc cbuf cindex cbuf.length cbufType (.ok (occurrenceResult (utf16 text).length
      (firstOccurrence (utf16 text) cbuf (startPosition (.start re.bc cbuf cbuf.length cbufType) cindex))))

theorem escape_compiles_iff (U : Libunicode) (text : List Char) (hf : flags ∈ escapeFlags) :
    (∃ pattern re, EscapesTo U text flags pattern re) ↔ (∀ c ∈ text, c.toNat < 0x80) ∧
      (flags = [] ∨ ∀ c ∈ text, c.toNat ≠ 0x7f) ∧ text.length ≤ literalMax := by
  obtain ⟨hcase, hsticky, hunicode⟩ := escapeFlags_bits hf
  have hmode (buf : Bytes) : (REParseState.start buf (readFlags 0 (cString flags))).isUnicode =
      decide (flags ≠ []) := by
    show decide (_ ≠ 0) = _
    rw [decide_eq_decide]
    exact hunicode
  -- the bytes are read one by one unless DEL is rejected
  have hread (hdel : flags = [] ∨ 0x7f ∉ utf8 text) :
      ReadsChars U (.start (escapeFrom 0 (utf8 text)) (readFlags 0 (cString flags))) (escapeFrom 0 (utf8 text))
        ((utf8 text).map UInt8.toNat) [] := by
    apply readsChars_escape
    rintro c hc rfl
    rw [hmode, decide_eq_false_iff_not, ne_eq, not_not]
    exact hdel.resolve_right fun h => h hc
  have hfits : LiteralFits U (readFlags 0 (cString flags)) ((utf8 text).map UInt8.toNat) ↔
      (utf8 text).length ≤ literalMax := by
    rw [literalFits_iff hcase hsticky fun c hc => ?_, List.length_map]
    obtain ⟨b, -, rfl⟩ := List.mem_map.mp hc
    exact b.toNat_lt.le.trans (by decide)
  constructor
  · rintro ⟨pattern, re, hre⟩
    have hescapes := hre.escapes
    rw [jsregexpEscape] at hescapes
    split at hescapes
    swap
    · cases hescapes
    obtain rfl := Except.ok.inj hescapes
    have hdel : flags = [] ∨ 0x7f ∉ utf8 text := by
      by_contra hnot
      obtain ⟨hne, hin⟩ := not_or.mp hnot
      have herror := lreCompile_del (U := U) (not_not.mp hin) (hunicode.mpr hne)
      cases hre.reads.compiles.symm.trans herror
    have hcompile := (hread hdel).compile.symm.trans hre.reads.compiles
    split at hcompile
    swap
    · cases hcompile
    next hroom =>
    have hcode := congrArg Bytecode.code (Except.ok.inj hcompile)
    have hchars : literalCode U (.start [] (readFlags 0 (cString flags))) ((utf8 text).map UInt8.toNat) =
        literalCode U (.start [] (readFlags 0 (cString flags))) (text.map Char.toNat) := by
      simpa [literalBytecode, wholeCode] using hcode
    have hvalues := literalCode_injective (start_ignoreCase hcase []) hchars
    have hlength : (utf8 text).length = text.length := by simpa using congrArg List.length hvalues
    refine ⟨(utf8_values_iff text).mp hvalues, hdel.imp id fun hno c hc h => hno ?_, hlength ▸ hfits.mp hroom⟩
    have hmem : c.toNat ∈ (utf8 text).map UInt8.toNat := by
      rw [hvalues]
      exact List.mem_map_of_mem hc
    obtain ⟨b, hb, hbc⟩ := List.mem_map.mp hmem
    obtain rfl : b = 0x7f := UInt8.toNat_inj.mp (hbc.trans h)
    exact hb
  · rintro ⟨hascii, hdel, hlen⟩
    have hvalues := (utf8_values_iff text).mpr hascii
    have hlength : (utf8 text).length = text.length := by simpa using congrArg List.length hvalues
    have hno : flags = [] ∨ 0x7f ∉ utf8 text := by
      refine hdel.imp id fun hno hin => ?_
      have hmem : (0x7f : UInt8).toNat ∈ text.map Char.toNat := by
        rw [← hvalues]
        exact List.mem_map_of_mem hin
      obtain ⟨c, hc, hval⟩ := List.mem_map.mp hmem
      exact hno c hc hval
    have hpattern := (hread hno).literal (hfits.mpr (hlength ▸ hlen))
    have hescapes : jsregexpEscape (utf8 text) = .ok (escapeFrom 0 (utf8 text)) :=
      if_pos (hlength ▸ hlen.trans (by decide))
    rw [hvalues] at hpattern
    refine ⟨_, ⟨escapeFrom 0 (utf8 text), literalBytecode U (readFlags 0 (cString flags)) (text.map Char.toNat), 0⟩,
      hescapes, compile_escape_iff.mpr ⟨rfl, rfl, hpattern.compiles⟩, hpattern, fun cbuf cindex cbufType hindex _ hroom => ?_⟩
    rw [utf16_ascii hascii]
    apply lreExec_literal hcase hsticky _ cbuf hindex hroom
    intro c hc
    obtain ⟨d, hd, rfl⟩ := List.mem_map.mp hc
    exact (hascii d hd).trans (by decide)

theorem escape_compiles_dotted : bytesOf "v" ∈ escapeFlags ∧
    ∃ pattern re, EscapesTo asciiTables ['a', '.', 'b', '-', '1'] (bytesOf "v") pattern re :=
  ⟨by decide, (escape_compiles_iff asciiTables ['a', '.', 'b', '-', '1'] (by decide)).mpr
    ⟨by simp, .inr (by simp), by decide⟩⟩

theorem escape_compiles_eAcute : jsregexpEscape (utf8 ['é']) = .ok (bytesOf "\\xc3\\xa9") ∧
    ¬ ∃ pattern re, EscapesTo asciiTables ['é'] [] pattern re := by
  have hescapes : jsregexpEscape (utf8 ['é']) = .ok (bytesOf "\\xc3\\xa9") := by decide
  refine ⟨hescapes, ?_⟩
  rintro ⟨pattern, re, hre⟩
  obtain rfl := Except.ok.inj (hescapes.symm.trans hre.escapes)
  have hcompiled : lreCompile asciiTables (bytesOf "\\xc3\\xa9") (readFlags 0 (cString [])) =
      .ok (literalBytecode asciiTables 0 [0xc3, 0xa9]) := by rfl
  have hcode := congrArg Bytecode.code (Except.ok.inj (hcompiled.symm.trans hre.reads.compiles))
  exact absurd (congrArg List.length hcode) (by decide)

end Compile

end Jsregexp
