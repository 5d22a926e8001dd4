import Jsregexp.Compile
import Jsregexp.JsStringText
import Jsregexp.Libregexp.CompileSpec

namespace Jsregexp

open Library.Fallible

section Bytes

lemma utf8TailBytes_bounds {l c : ℕ} {b : UInt8} (h : b ∈ utf8TailBytes l c) : 0x80 ≤ b.toNat ∧ b.toNat < 0xc0 := by
  induction l with
  | zero => cases h
  | succ l ih =>
    rcases List.mem_cons.mp h with rfl | h
    · rw [toNat_ofNat_byte (by omega)]
      omega
    · exact ih h

lemma utf8Form_lead {c : ℕ} (hc : 0x80 ≤ c) (hlt : c < 2 ^ 31) :
    utf8Form c = UInt8.ofNat (utf8Lead (utf8FormLen c) + c / 64 ^ utf8FormLen c) :: utf8TailBytes (utf8FormLen c) c ∧
      utf8Lead (utf8FormLen c) + c / 64 ^ utf8FormLen c < 256 := by
  obtain ⟨⟨h₁, h₅⟩, -, hq⟩ := (utf8FormLen_iff hc).mp ⟨rfl, hlt⟩
  refine ⟨by rw [utf8Form, if_neg (by omega)], ?_⟩
  generalize c / 64 ^ utf8FormLen c = a at hq
  generalize utf8FormLen c = l at *
  interval_cases l <;> simp [utf8Lead] at hq ⊢ <;> omega

lemma mem_fd_of_large {c : ℕ} (hc : classRangeBase ≤ c) (hlt : c < 2 ^ 31) : 0xfd ∈ utf8Form c := by
  have hbase : 2 ^ 30 ≤ c := hc
  have hlen : utf8FormLen c = 5 := by
    rw [utf8FormLen]
    split_ifs <;> omega
  obtain ⟨hform, -⟩ := utf8Form_lead (by omega) hlt
  have hlead : c / 64 ^ 5 = 1 := by omega
  rw [hform, hlen, hlead]
  exact List.mem_cons_self

lemma utf8EncodeChar_bounds {c : Char} :
    (∀ b ∈ String.utf8EncodeChar c, b.toNat < 0xf8) ∧
      ((∃ b ∈ String.utf8EncodeChar c, 0xf0 ≤ b.toNat) ↔ 0xFFFF < c.toNat) := by
  have hlt := char_toNat_lt c
  rw [← utf8Form_char]
  generalize c.toNat = n at hlt
  rcases Nat.lt_or_ge n 0x80 with hn | hn
  · rw [utf8Form, if_pos hn]
    simp
    omega
  · obtain ⟨hform, hb⟩ := utf8Form_lead hn (by omega)
    have hlead : utf8Lead (utf8FormLen n) + n / 64 ^ utf8FormLen n < 0xf8 ∧
        (0xf0 ≤ utf8Lead (utf8FormLen n) + n / 64 ^ utf8FormLen n ↔ 0xFFFF < n) := by
      rw [utf8FormLen]
      split_ifs <;> simp [utf8Lead] <;> omega
    have htail (b : UInt8) (h : b ∈ utf8TailBytes (utf8FormLen n) n) : b.toNat < 0xc0 := (utf8TailBytes_bounds h).2
    rw [hform]
    constructor
    · intro b h
      rcases List.mem_cons.mp h with rfl | h
      · rw [toNat_ofNat_byte hb]
        exact hlead.1
      · exact (htail b h).trans (by decide)
    · rw [← hlead.2]
      constructor
      · rintro ⟨b, h, hge⟩
        rcases List.mem_cons.mp h with rfl | h
        · rwa [toNat_ofNat_byte hb] at hge
        · have := htail b h
          omega
      · exact fun hge => ⟨_, List.mem_cons_self, by rwa [toNat_ofNat_byte hb]⟩

lemma nonBmp_byte_iff {b : UInt8} : (b.toNat &&& 0xf0 == 0xf0) = true ↔ 0xf0 ≤ b.toNat := by
  have hall : ∀ n < 256, (n &&& 0xf0 == 0xf0) = true ↔ 0xf0 ≤ n := by decide +kernel
  exact hall b.toNat b.toNat_lt

lemma utf8_guard (cs : List Char) :
    0xfd ∉ utf8 cs ∧ ((∃ b ∈ utf8 cs, 0xf0 ≤ b.toNat) ↔ ∃ c ∈ cs, 0xFFFF < c.toNat) := by
  constructor
  · intro h
    obtain ⟨c, -, hb⟩ := List.mem_flatMap.mp h
    exact absurd (utf8EncodeChar_bounds.1 _ hb) (by decide)
  · constructor
    · rintro ⟨b, hb, hge⟩
      obtain ⟨c, hc, hb⟩ := List.mem_flatMap.mp hb
      exact ⟨c, hc, utf8EncodeChar_bounds.2.mp ⟨b, hb, hge⟩⟩
    · rintro ⟨c, hc, hlarge⟩
      obtain ⟨b, hb, hge⟩ := utf8EncodeChar_bounds.2.mpr hlarge
      exact ⟨b, List.mem_flatMap.mpr ⟨c, hc, hb⟩, hge⟩

lemma implicitFlags_iff {regexp : Bytes} (hz : 0 ∉ regexp) {cs : List Char} (ht : regexp = utf8 cs) :
    implicitFlags regexp &&& lreFlagUnicode ≠ 0 ↔ ∃ c ∈ cs, 0xFFFF < c.toNat := by
  rw [← (utf8_guard cs).2, ← ht, implicitFlags, utf8ContainsNonBmp, cString_eq_self hz]
  simp only [List.any_eq_true, nonBmp_byte_iff]
  split
  · next h => exact iff_of_true (by decide) h
  · next h => exact iff_of_false (by decide) h

end Bytes

section Guarded

lemma unicodeFromUtf8_lt {p q : Bytes} {c : ℕ} (hfd : 0xfd ∉ p) (hd : unicodeFromUtf8 p utf8CharLenMax = some (c, q)) :
    c < classRangeBase := by
  by_cases hp : p = []
  · subst hp
    obtain ⟨rfl, -⟩ := Prod.mk.inj (Option.some.inj hd)
    decide
  · obtain ⟨hlt, rfl⟩ := (unicodeFromUtf8_iff hp).mp hd
    by_contra hc
    exact hfd (List.mem_append_left _ (mem_fd_of_large (Nat.not_lt.mp hc) hlt))

lemma notMem_of_unicodeFromUtf8 {b : UInt8} {p q : Bytes} {c : ℕ} (hfd : b ∉ p)
    (hd : unicodeFromUtf8 p utf8CharLenMax = some (c, q)) : b ∉ q := by
  by_cases hp : p = []
  · subst hp
    obtain ⟨-, rfl⟩ := Prod.mk.inj (Option.some.inj hd)
    exact hfd
  · obtain ⟨-, rfl⟩ := (unicodeFromUtf8_iff hp).mp hd
    exact fun h => hfd (List.mem_append_right _ h)

lemma readable_guarded (u : Bool) {E : Failure → Prop} (hE : ∀ msg, .raised msg ∉ malformed → E (.raised msg))
    (hchar : E malformedChar) : Readable u (fun p => 0xfd ∉ p) E where
  ascii _ hp := fun h => hp (List.mem_cons_of_mem _ h)
  char hp hd := ⟨notMem_of_unicodeFromUtf8 hp hd, unicodeFromUtf8_lt hp hd⟩
  normal hs _ := by
    rw [normalChar]
    split
    · split
      · split
        · exact hchar
        · trivial
      · split
        · exact hs.2
        · exact hchar
    · trivial
  raised := hE

lemma readable_defined (u : Bool) : Readable u (fun p => 0xfd ∉ p) (· ≠ .undefined) :=
  readable_guarded u (fun _ _ he => by cases he) fun he => by cases he

def ReadText (u : Bool) (p : Bytes) : Prop := ∃ cs : List Char, p = utf8 cs ∧ (u = false → ∀ c ∈ cs, c.toNat ≤ 0xFFFF)

lemma ReadText.decode {u : Bool} {p q : Bytes} {n : ℕ} (h : ReadText u p) (hp : p ≠ [])
    (hd : unicodeFromUtf8 p utf8CharLenMax = some (n, q)) :
    ReadText u q ∧ n < classRangeBase ∧ (u = false → n ≤ 0xFFFF) := by
  obtain ⟨cs, rfl, hbmp⟩ := h
  cases cs with
  | nil => exact absurd rfl hp
  | cons c cs =>
    have hc : unicodeFromUtf8 (utf8 (c :: cs)) utf8CharLenMax = some (c.toNat, utf8 cs) :=
      unicodeFromUtf8_encode c (utf8 cs)
    obtain ⟨rfl, rfl⟩ := Prod.mk.inj (Option.some.inj (hd.symm.trans hc))
    exact ⟨⟨cs, rfl, fun hu d hd => hbmp hu d (List.mem_cons_of_mem _ hd)⟩, (char_toNat_lt c).trans (by decide),
      fun hu => hbmp hu c List.mem_cons_self⟩

lemma readable_text (u : Bool) : Readable u (ReadText u) (· ∉ malformed) where
  ascii {b p} hb hp := by
    have hd : unicodeFromUtf8 (b :: p) utf8CharLenMax = some (b.toNat, p) := by
      rw [unicodeFromUtf8, peek_cons_zero, if_pos hb, List.tail_cons]
    exact (hp.decode (List.cons_ne_nil _ _) hd).1
  char {p c q} hp hd := by
    by_cases hne : p = []
    · subst hne
      obtain ⟨rfl, rfl⟩ := Prod.mk.inj (Option.some.inj hd)
      exact ⟨hp, by decide⟩
    · obtain ⟨hq, hc, -⟩ := hp.decode hne hd
      exact ⟨hq, hc⟩
  normal {s p} hs hp := by
    rw [normalChar]
    split
    · next hge =>
      have hne : p ≠ [] := by
        rintro rfl
        simp at hge
      obtain ⟨cs, rfl, -⟩ := id hp
      obtain ⟨c, cs, rfl⟩ : ∃ c cs', cs = c :: cs' := List.exists_cons_of_ne_nil (by rintro rfl; exact hne rfl)
      have hd : unicodeFromUtf8 (utf8 (c :: cs)) utf8CharLenMax = some (c.toNat, utf8 cs) :=
        unicodeFromUtf8_encode c (utf8 cs)
      have hbmp := (hp.decode hne hd).2.2
      rw [hd]
      dsimp only
      split
      · next hbad =>
        rw [Bool.not_eq_true, hs.1] at hbad
        exact absurd (hbmp hbad.2) (Nat.not_le.mpr hbad.1)
      · trivial
    · trivial
  raised _ h := h

end Guarded

section Compile

variable (U : Libunicode) (regexp flags : Bytes)

variable {U regexp flags} {re : RegExp} in
lemma jsregexpCompile_ok_iff : jsregexpCompile U regexp flags = .ok re ↔
    0xfd ∉ cString regexp ∧ re.expr = cString regexp ∧ re.lastIndex = 0 ∧
      lreCompile U (cString regexp) (readFlags (implicitFlags (cString regexp)) (cString flags)) = .ok re.bc := by
  rw [jsregexpCompile]
  split
  · next h => simp [h]
  · next h =>
    cases hc : lreCompile U (cString regexp) (readFlags (implicitFlags (cString regexp)) (cString flags)) with
    | error e => simp
    | ok bc =>
      constructor
      · rintro ⟨rfl⟩
        exact ⟨h, rfl, rfl, rfl⟩
      · rintro ⟨-, hexpr, hli, hbc⟩
        obtain rfl := Except.ok.inj hbc
        rw [← hexpr, ← hli]

lemma jsregexpCompile_error {e : Failure} (h : jsregexpCompile U regexp flags = .error e) :
    (0xfd ∈ cString regexp ∧ e = .raised (bytesOf "malformed unicode")) ∨
      (0xfd ∉ cString regexp ∧ ∃ e', e = compileError e' ∧
        lreCompile U (cString regexp) (readFlags (implicitFlags (cString regexp)) (cString flags)) = .error e') := by
  rw [jsregexpCompile] at h
  by_cases hfd : 0xfd ∈ cString regexp
  · rw [if_pos hfd] at h
    exact .inl ⟨hfd, (Except.error.inj h).symm⟩
  · rw [if_neg hfd] at h
    refine .inr ⟨hfd, ?_⟩
    cases hc : lreCompile U (cString regexp) (readFlags (implicitFlags (cString regexp)) (cString flags)) with
    | error e' =>
      rw [hc] at h
      exact ⟨e', (Except.error.inj h).symm, rfl⟩
    | ok bc =>
      rw [hc] at h
      cases h

lemma compileError_eq {e : Failure} {msg : Bytes} (hlen : msg.length < errorMsgSize - 1)
    (h : compileError e = .raised msg) : e = .raised msg := by
  cases e with
  | undefined => cases h
  | raised full =>
    have htake : full.take (errorMsgSize - 1) = msg := Failure.raised.inj h
    have hle : full.length ≤ errorMsgSize - 1 := by
      by_contra hgt
      have hl := congrArg List.length htake
      rw [List.length_take, Nat.min_eq_left (by omega)] at hl
      omega
    rw [← htake, List.take_of_length_le hle]

lemma compileError_malformed {e : Failure} (h : compileError e ∈ malformed) : e ∈ malformed := by
  rw [malformed, List.mem_cons, List.mem_singleton] at h ⊢
  exact h.imp (compileError_eq (by decide)) (compileError_eq (by decide))

theorem jsregexpCompile_defined : jsregexpCompile U regexp flags ≠ .error .undefined := by
  intro h
  rcases jsregexpCompile_error U regexp flags h with ⟨-, he⟩ | ⟨hfd, e, he, hc⟩
  · cases he
  · have hne := (lreCompile_post (readable_defined _) U rfl hfd).error hc
    cases e with
    | undefined => exact hne rfl
    | raised msg => cases he

theorem jsregexpCompile_names {re : RegExp} (h : jsregexpCompile U regexp flags = .ok re) : ∃ code s gs,
    lreParse U (cString regexp) (readFlags (implicitFlags (cString regexp)) (cString flags)) = .ok (code, s) ∧
      HasGroups s gs ∧ NamesCompiled (readFlags (implicitFlags (cString regexp)) (cString flags)) gs
        (namesFit (wholeCode (readFlags (implicitFlags (cString regexp)) (cString flags)) code) s.groupNames) re.bc := by
  obtain ⟨hfd, -, -, hc⟩ := jsregexpCompile_ok_iff.mp h
  exact (lreCompile_post (readable_defined _) U rfl hfd).ok hc

/-- What the guard promises: the characters of a pattern that passes it are no class tags, and well-formed text
passes it, has the unicode flag when it needs it and no malformed character. -/
structure GuardExact : Prop where
  decoded : 0xfd ∉ cString regexp → ∀ p, p <:+ cString regexp → ∀ s atom,
    normalChar s (peek p 0) p = .ok atom → atom.c < classRangeBase
  untagged : 0xfd ∉ cString regexp → ∀ p, p <:+ cString regexp → ∀ s inclass atom,
    getClassAtom U s p inclass = .ok atom → classRangeBase ≤ atom.c → atom.cr ≠ none
  rejects : jsregexpCompile U regexp flags = .error malformedUnicode ↔ 0xfd ∈ cString regexp
  accepts : ValidUtf8 (cString regexp) → jsregexpCompile U regexp flags ≠ .error malformedUnicode
  unicode : ∀ cs, cString regexp = utf8 cs → ∀ re, jsregexpCompile U regexp flags = .ok re →
    (re.bc.hasFlag lreFlagUnicode = true ↔ (∃ c ∈ cs, 0xFFFF < c.toNat) ∨ byteOf 'u' ∈ cString flags)
  wellFormed : ValidUtf8 (cString regexp) → jsregexpCompile U regexp flags ≠ .error malformedChar

end Compile

lemma start_isUnicode (buf flags : Bytes) (h : implicitFlags buf &&& lreFlagUnicode ≠ 0) :
    (REParseState.start buf (readFlags (implicitFlags buf) flags)).isUnicode = true := by
  have hbit : (implicitFlags buf).testBit 4 = true := by
    rw [implicitFlags] at h ⊢
    split at h
    · next hn =>
      rw [if_pos hn]
      rfl
    · exact absurd (Nat.zero_and _) h
  show decide _ = true
  rw [decide_eq_true_eq]
  intro hz
  have htest := congrArg (Nat.testBit · 4) hz
  simp only [Nat.testBit_and, testBit_readFlags, hbit, Bool.true_or, Bool.true_and] at htest
  cases htest

lemma normalChar_lt {p : Bytes} (hfd : 0xfd ∉ p) {s : REParseState} {c : ℕ} {atom : ClassAtom}
    (h : normalChar s c p = .ok atom) (hc : c < 256) : atom.c < classRangeBase := by
  rw [normalChar] at h
  by_cases hge : c ≥ 128
  · rw [if_pos hge] at h
    cases hd : unicodeFromUtf8 p utf8CharLenMax with
    | none =>
      simp only [hd] at h
      split at h <;> cases h
    | some r =>
      simp only [hd] at h
      split at h
      · cases h
      · rw [← Except.ok.inj h]
        exact unicodeFromUtf8_lt hfd hd
  · rw [if_neg hge] at h
    rw [← Except.ok.inj h]
    exact hc.trans (by decide)

lemma compile_not_malformed {U : Libunicode} {regexp flags : Bytes} {e : Failure}
    (h : jsregexpCompile U regexp flags = .error e) (hutf8 : ValidUtf8 (cString regexp)) : e ∉ malformed := by
  obtain ⟨cs, hcs⟩ := hutf8
  rcases jsregexpCompile_error U regexp flags h with ⟨hfd, -⟩ | ⟨hfd, e, rfl, hc⟩
  · rw [hcs] at hfd
    exact absurd hfd (utf8_guard cs).1
  · have hbmp : ReadText (REParseState.start (cString regexp)
        (readFlags (implicitFlags (cString regexp)) (cString flags))).isUnicode (cString regexp) := by
      refine ⟨cs, hcs, fun hu c hc => ?_⟩
      by_contra hlarge
      have hset := (implicitFlags_iff (zero_notMem_cString regexp) hcs).mpr ⟨c, hc, Nat.not_le.mp hlarge⟩
      rw [start_isUnicode _ _ hset] at hu
      cases hu
    have hraised := (lreCompile_post (readable_text _) U rfl hbmp).error hc
    exact fun hm => hraised (compileError_malformed hm)

lemma header_unicode {U : Libunicode} {regexp flags : Bytes} {re : RegExp}
    (h : jsregexpCompile U regexp flags = .ok re) :
    re.bc.hasFlag lreFlagUnicode = true ↔
      implicitFlags (cString regexp) &&& lreFlagUnicode ≠ 0 ∨ byteOf 'u' ∈ cString flags := by
  have hletter (b : UInt8) : (flagBit b).testBit 4 = true ↔ b = byteOf 'u' := by
    have hall : ∀ n < 256, ((flagBit (UInt8.ofNat n)).testBit 4 = true ↔ UInt8.ofNat n = byteOf 'u') := by
      decide +kernel
    have hb := hall b.toNat b.toNat_lt
    rwa [UInt8.ofNat_toNat] at hb
  have himplicit : (implicitFlags (cString regexp)).testBit 4 = true ↔
      implicitFlags (cString regexp) &&& lreFlagUnicode ≠ 0 := by
    rw [implicitFlags]
    split <;> decide
  have hread : re.bc.flags.testBit 4 = (readFlags (implicitFlags (cString regexp)) (cString flags)).testBit 4 := by
    rcases lreCompile_flags (jsregexpCompile_ok_iff.mp h).2.2.2 with hf | hf
    · rw [hf]
    · rw [hf, Nat.testBit_or, show lreFlagNamedGroups.testBit 4 = false by decide, Bool.or_false]
  rw [lreFlagUnicode, Bytecode.hasFlag_two_pow, hread, testBit_readFlags, Bool.or_eq_true, List.any_eq_true,
    ← lreFlagUnicode, ← himplicit]
  simp only [hletter, exists_eq_right]

theorem guard_exact (U : Libunicode) (regexp flags : Bytes) : GuardExact U regexp flags where
  decoded hfd p hp s atom h := normalChar_lt (fun hm => hfd (hp.subset hm)) h (peek_lt p 0)
  untagged hfd p hp s inclass atom h hc := by
    have hguard : 0xfd ∉ p := fun hm => hfd (hp.subset hm)
    have hread : AtomRead (fun p => 0xfd ∉ p) p atom :=
      (getClassAtom_post (readable_defined s.isUnicode) U s ⟨rfl, fun he => by cases he⟩ hguard).ok h
    exact fun hcr => absurd (hread.literal hcr) (Nat.not_lt.mpr hc)
  rejects := by
    constructor
    · intro h
      rcases jsregexpCompile_error U regexp flags h with ⟨hfd, -⟩ | ⟨hfd, e, he, hc⟩
      · exact hfd
      · have hraised (u : Bool) : Readable u (fun p => 0xfd ∉ p) (· ≠ malformedUnicode) := by
          apply readable_guarded
          · intro msg hmsg he
            exact hmsg (by simp [malformed, he])
          · decide
        exact absurd (compileError_eq (by decide) he.symm) ((lreCompile_post (hraised _) U rfl hfd).error hc)
    · intro hfd
      rw [jsregexpCompile, if_pos hfd]
      rfl
  accepts hutf8 h := compile_not_malformed h hutf8 (by decide)
  unicode cs hcs re h := by
    rw [header_unicode h, implicitFlags_iff (zero_notMem_cString regexp) hcs]
  wellFormed hutf8 h := compile_not_malformed h hutf8 (by decide)

theorem guard_exact_clef : (∃ re, jsregexpCompile asciiTables (utf8 ['𝄞']) [] = .ok re ∧
      re.bc.hasFlag lreFlagUnicode = true) ∧
    jsregexpCompile asciiTables [0xfd] [] = .error malformedUnicode := by
  have hclef := guard_exact asciiTables (utf8 ['𝄞']) []
  have hbyte := guard_exact asciiTables [0xfd] []
  refine ⟨?_, hbyte.rejects.mpr (by decide)⟩
  cases hc : jsregexpCompile asciiTables (utf8 ['𝄞']) [] with
  | error e =>
    have hok : (jsregexpCompile asciiTables (utf8 ['𝄞']) []).isOk = true := by decide +kernel
    rw [hc] at hok
    cases hok
  | ok re => exact ⟨re, rfl, (hclef.unicode ['𝄞'] (by decide) re hc).mpr (.inl ⟨'𝄞', by simp, by decide⟩)⟩

end Jsregexp
