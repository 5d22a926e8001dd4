import Jsregexp.Library.Fallible
import Jsregexp.Libregexp.CharClass

namespace Jsregexp

open Library.Iteration Library.Fallible

def malformedChar : Failure := .raised (bytesOf "malformed unicode char")

def malformedUnicode : Failure := .raised (bytesOf "malformed unicode")

def malformed : List Failure := [malformedChar, malformedUnicode]

def IsName (name : Bytes) : Prop := 0 ∉ name ∧ 0x20 ∉ name

lemma isName_nil : IsName [] := ⟨List.not_mem_nil, List.not_mem_nil⟩

lemma IsName.append {a b : Bytes} (ha : IsName a) (hb : IsName b) : IsName (a ++ b) :=
  ⟨fun h => (List.mem_append.mp h).elim ha.1 hb.1, fun h => (List.mem_append.mp h).elim ha.2 hb.2⟩

lemma IsName.not_malformed {name : Bytes} (h : IsName name) : .raised name ∉ malformed := by
  have hblank : ∀ e ∈ malformed, ∃ msg, e = .raised msg ∧ 0x20 ∈ msg := by
    simp [malformed, malformedChar, malformedUnicode, bytesOf, byteOf]
  intro hm
  obtain ⟨msg, he, hmem⟩ := hblank _ hm
  obtain rfl := Failure.raised.inj he
  exact h.2 hmem

def InMode (u : Bool) (E : Failure → Prop) (s : REParseState) : Prop := s.isUnicode = u ∧ E (.raised s.u)

/-- `G` holds of the pointers that can be reached by reading ASCII characters and encoded characters, none of
which is a class tag; `E` allows the error messages. -/
structure Readable (u : Bool) (G : Bytes → Prop) (E : Failure → Prop) : Prop where
  ascii : ∀ {b p}, b.toNat < 0x80 → G (b :: p) → G p
  char : ∀ {p c p'}, G p → unicodeFromUtf8 p utf8CharLenMax = some (c, p') → G p' ∧ c < classRangeBase
  normal : ∀ {s : REParseState} {p}, InMode u E s → G p → Post E (fun _ => True) (normalChar s (peek p 0) p)
  raised : ∀ msg, .raised msg ∉ malformed → E (.raised msg)

section Ascii

def IsAscii (c : ℕ) : Prop := 0 < c ∧ c < 0x80

instance (c : ℕ) : Decidable (IsAscii c) := inferInstanceAs (Decidable (0 < c ∧ c < 0x80))

variable {c : ℕ}

lemma isDigitChar_ascii (h : isDigitChar c = true) : IsAscii c := by
  simp [isDigitChar] at h
  exact ⟨by omega, by omega⟩

lemma isUpperChar_ascii (h : isUpperChar c = true) : IsAscii c := by
  simp [isUpperChar] at h
  exact ⟨by omega, by omega⟩

lemma isLowerChar_ascii (h : isLowerChar c = true) : IsAscii c := by
  simp [isLowerChar] at h
  exact ⟨by omega, by omega⟩

lemma isOctalChar_ascii (h : isOctalChar c = true) : IsAscii c := by
  simp [isOctalChar] at h
  exact ⟨by omega, by omega⟩

lemma oneOf_ascii {chars : String} (h : oneOf chars c = true) (hall : ∀ b ∈ bytesOf chars, IsAscii b.toNat) :
    IsAscii c := by
  obtain ⟨b, hb, hc⟩ := List.any_eq_true.mp h
  rw [decide_eq_true_eq] at hc
  exact hc ▸ hall b hb

lemma isUnicodeChar_ascii (h : isUnicodeChar c = true) : IsAscii c := by
  simp only [isUnicodeChar, Bool.or_eq_true, decide_eq_true_eq] at h
  rcases h with ((h | h) | h) | rfl
  · exact isDigitChar_ascii h
  · exact isUpperChar_ascii h
  · exact isLowerChar_ascii h
  · decide

lemma fromHex_some {v : ℕ} (h : fromHex c = some v) : IsAscii c ∧ v < 16 := by
  simp only [fromHex, isDigitChar, Char.reduceToNat, Bool.and_eq_true, decide_eq_true_eq] at h
  split_ifs at h <;> obtain rfl := Option.some.inj h <;> exact ⟨⟨by omega, by omega⟩, by omega⟩

lemma octalDigit_lt {d : ℕ} (hd : isOctalChar d = true) : d - '0'.toNat < 2 ^ 3 := by
  simp only [isOctalChar, Char.reduceToNat, Bool.and_eq_true, decide_eq_true_eq] at hd
  simp only [Char.reduceToNat]
  omega

lemma octalSum_lt {c d n : ℕ} (hc : c < 2 ^ n) (hd : d < 2 ^ 3) : (c <<< 3) + d < 2 ^ (n + 3) := by
  rw [Nat.shiftLeft_eq, pow_add]
  omega

lemma octal_lt {c d : ℕ} (hd : isOctalChar d = true) {n : ℕ} (hc : c < 2 ^ n) :
    (c <<< 3) ||| (d - '0'.toNat) < 2 ^ (n + 3) := by
  apply Nat.or_lt_two_pow
  · rw [Nat.shiftLeft_eq, pow_add]
    exact Nat.mul_lt_mul_of_pos_right hc (by decide)
  · exact (octalDigit_lt hd).trans_le (Nat.pow_le_pow_right (by decide) (by omega))

lemma fromSurrogate_lt {hi lo : ℕ} (hh : hi < 2 ^ 16) (hl : lo < 2 ^ 16) : fromSurrogate hi lo < classRangeBase := by
  have hle : 0x400 * (hi - 0xD800) ≤ 0x400 * 2 ^ 16 := Nat.mul_le_mul_left _ ((Nat.sub_le _ _).trans hh.le)
  calc fromSurrogate hi lo ≤ 0x10000 + 0x400 * 2 ^ 16 + 2 ^ 16 :=
        Nat.add_le_add (Nat.add_le_add_left hle _) ((Nat.sub_le _ _).trans hl.le)
    _ < classRangeBase := by decide

lemma notMem_unicodeToUtf8 {b : UInt8} (hb : b.toNat.testBit 7 = false) (hc : c ≠ b.toNat) : b ∉ unicodeToUtf8 c := by
  have hset (m : ℕ) (hm : m.testBit 7 = true) (x : ℕ) : b ≠ UInt8.ofNat (x ||| m) := by
    intro hz
    have hbit : (UInt8.ofNat (x ||| m)).toNat.testBit 7 = true := by
      rw [UInt8.toNat_ofNat', Nat.testBit_mod_two_pow, Nat.testBit_or, hm, Bool.or_true]
      rfl
    rw [← hz, hb] at hbit
    cases hbit
  have hascii (hlt : c < 0x80) : UInt8.ofNat c ≠ b := by
    intro hz
    have := toNat_ofNat_byte (show c < 256 by omega)
    rw [hz] at this
    exact hc this.symm
  rw [unicodeToUtf8]
  intro h
  split_ifs at h with h₁ h₂ h₃ h₄ h₅ h₆
  · exact hascii h₁ (List.mem_singleton.mp h).symm
  all_goals
    simp only [List.mem_cons, List.not_mem_nil, hset 0x80 (by decide), hset 0xc0 (by decide), hset 0xe0 (by decide),
      hset 0xf0 (by decide), hset 0xf8 (by decide), hset 0xfc (by decide), or_false] at h

end Ascii

section Reader

variable {u : Bool} {G : Bytes → Prop} {E : Failure → Prop} (h : Readable u G E) {p q : Bytes}
include h

lemma Readable.tail (hp : G p) (hc : IsAscii (peek p 0)) : G p.tail ∧ p.tail.length < p.length := by
  cases p with
  | nil => exact absurd hc (by simp [IsAscii])
  | cons b p =>
    rw [peek_cons_zero] at hc
    exact ⟨h.ascii hc.2 hp, Nat.lt_succ_self _⟩

lemma Readable.tail_eq (hp : G p) {c : Char} (hc : peek p 0 = c.toNat) (ha : IsAscii c.toNat) :
    G p.tail ∧ p.tail.length < p.length :=
  h.tail hp (hc ▸ ha)

lemma Readable.drop (hp : G p) {n : ℕ} (ha : ∀ k < n, IsAscii (peek p k)) :
    G (p.drop n) ∧ (p.drop n).length + n = p.length := by
  induction n with
  | zero => exact ⟨hp, rfl⟩
  | succ n ih =>
    obtain ⟨hg, hlen⟩ := ih fun k hk => ha k (by omega)
    have hpeek : peek (p.drop n) 0 = peek p n := by rw [peek_drop, Nat.add_zero]
    obtain ⟨hg', hlen'⟩ := h.tail hg (hpeek ▸ ha n (Nat.lt_succ_self n))
    rw [← List.tail_drop]
    have htail : (p.drop n).tail.length = (p.drop n).length - 1 := List.length_tail
    exact ⟨hg', by omega⟩

lemma Readable.drop_two (hp : G p) (h₀ : IsAscii (peek p 0)) (h₁ : IsAscii (peek p 1)) :
    G (p.drop 2) ∧ (p.drop 2).length < p.length := by
  obtain ⟨hg, hlen⟩ := h.drop hp (n := 2) fun k hk => by interval_cases k <;> assumption
  exact ⟨hg, by omega⟩

lemma Readable.drop_three (hp : G p) (h₀ : IsAscii (peek p 0)) (h₁ : IsAscii (peek p 1)) (h₂ : IsAscii (peek p 2)) :
    G (p.drop 3) ∧ (p.drop 3).length < p.length := by
  obtain ⟨hg, hlen⟩ := h.drop hp (n := 3) fun k hk => by interval_cases k <;> assumption
  exact ⟨hg, by omega⟩

lemma parseDigits_rest {allow : Bool} {v v' : ℕ} (hp : G p) (hd : parseDigits allow v p = some (v', q)) :
    G q ∧ q.length ≤ p.length := by
  induction p generalizing v with
  | nil =>
    obtain ⟨-, rfl⟩ := Prod.mk.inj (Option.some.inj hd)
    exact ⟨hp, le_rfl⟩
  | cons b p ih =>
    rw [parseDigits] at hd
    split at hd
    · next hb =>
      have hg : G p := h.ascii (isDigitChar_ascii hb).2 hp
      have hrest : G q ∧ q.length ≤ p.length := by
        dsimp only at hd
        split at hd
        · split at hd
          · exact ih hg hd
          · cases hd
        · exact ih hg hd
      exact ⟨hrest.1, hrest.2.trans (Nat.le_succ _)⟩
    · obtain ⟨-, rfl⟩ := Prod.mk.inj (Option.some.inj hd)
      exact ⟨hp, le_rfl⟩

omit h in
lemma parseDigits_allow (v : ℕ) (p : Bytes) : ∃ r, parseDigits true v p = some r := by
  induction p generalizing v with
  | nil => exact ⟨_, rfl⟩
  | cons b p ih =>
    rw [parseDigits]
    split
    · dsimp only
      split
      · exact ih _
      · exact ih _
    · exact ⟨_, rfl⟩

lemma parseDigits_getD {v : ℕ} (hp : G p) (d : ℕ × Bytes) :
    G ((parseDigits true v p).getD d).2 ∧ ((parseDigits true v p).getD d).2.length ≤ p.length := by
  obtain ⟨⟨v', q⟩, hd⟩ := parseDigits_allow v p
  rw [hd]
  exact parseDigits_rest h hp hd

lemma hexDigits_rest {n c c' : ℕ} (hp : G p) (hd : hexDigits n c p = some (c', q)) :
    G q ∧ q.length ≤ p.length ∧ c' < (c + 1) * 16 ^ n := by
  induction n generalizing c p with
  | zero =>
    obtain ⟨rfl, rfl⟩ := Prod.mk.inj (Option.some.inj hd)
    exact ⟨hp, le_rfl, by omega⟩
  | succ n ih =>
    obtain ⟨v, hv, hd⟩ := Option.bind_eq_some_iff.mp hd
    obtain ⟨ha, hlt⟩ := fromHex_some hv
    obtain ⟨hg, hlen⟩ := h.tail hp ha
    obtain ⟨hg', hlen', hc⟩ := ih hg hd
    refine ⟨hg', by omega, hc.trans_le ?_⟩
    have hor : (c <<< 4) ||| v = c * 16 + v := by
      rw [← Nat.shiftLeft_add_eq_or_of_lt (by simpa using hlt), Nat.shiftLeft_eq]
    calc ((c <<< 4 ||| v) + 1) * 16 ^ n ≤ ((c + 1) * 16) * 16 ^ n := Nat.mul_le_mul_right _ (by omega)
      _ = (c + 1) * 16 ^ (n + 1) := by ring

lemma hexBraces_rest {c c' : ℕ} (hp : G p) (hd : hexBraces c p = some (c', q)) :
    G q ∧ q.length < p.length ∧ c' ≤ 0x10FFFF := by
  induction p generalizing c with
  | nil => cases hd
  | cons b p ih =>
    obtain ⟨v, hv, hd⟩ := Option.bind_eq_some_iff.mp hd
    have hg : G p := h.ascii (fromHex_some hv).1.2 hp
    dsimp only at hd
    split at hd
    · cases hd
    · next hle =>
      split at hd
      · next hbrace =>
        obtain ⟨rfl, rfl⟩ := Prod.mk.inj (Option.some.inj hd)
        obtain ⟨hg', hlen⟩ := h.tail_eq hg hbrace (by decide)
        exact ⟨hg', by rw [List.length_cons]; omega, by omega⟩
      · obtain ⟨hg', hlen, hc⟩ := ih hg hd
        exact ⟨hg', by rw [List.length_cons]; omega, hc⟩

lemma unicodeEscape_rest {k c : ℕ} (hp : G p) (he : unicodeEscape p k = .char c q) :
    G q ∧ q.length ≤ p.length ∧ c < classRangeBase := by
  rw [unicodeEscape] at he
  split at he
  · next hbrace =>
    obtain ⟨hg, hlen⟩ := h.tail_eq hp hbrace.1 (by decide)
    cases hd : hexBraces 0 p.tail with
    | none =>
      rw [hd] at he
      cases he
    | some r =>
      rw [hd] at he
      cases he
      obtain ⟨hg', hlen', hc⟩ := hexBraces_rest h hg hd
      exact ⟨hg', by omega, hc.trans_lt (by decide)⟩
  · cases hd : hexDigits 4 0 p with
    | none =>
      rw [hd] at he
      cases he
    | some r =>
      obtain ⟨c', p'⟩ := r
      obtain ⟨hg, hlen, hc⟩ := hexDigits_rest h hp hd
      simp only [hd] at he
      have hsingle (he : EscapeResult.char c' p' = .char c q) :
          G q ∧ q.length ≤ p.length ∧ c < classRangeBase := by
        cases he
        exact ⟨hg, hlen, hc.trans (by decide)⟩
      split at he
      · next hpair =>
        obtain ⟨hg₂, hlen₂⟩ := h.drop_two hg (hpair.2.2.1 ▸ by decide) (hpair.2.2.2 ▸ by decide)
        cases hd₂ : hexDigits 4 0 (p'.drop 2) with
        | none =>
          rw [hd₂] at he
          exact hsingle he
        | some r₂ =>
          obtain ⟨c₁, p₁⟩ := r₂
          obtain ⟨hg₃, hlen₃, hc₃⟩ := hexDigits_rest h hg₂ hd₂
          simp only [hd₂] at he
          split at he
          · obtain ⟨rfl, rfl⟩ := EscapeResult.char.inj he
            exact ⟨hg₃, by omega, fromSurrogate_lt (hc.trans_le (by norm_num)) (hc₃.trans_le (by norm_num))⟩
          · exact hsingle he
      · exact hsingle he

lemma octalEscape_rest {k v c : ℕ} (hv : v < 2 ^ 3) (hp : G p) (he : octalEscape v p k = .char c q) :
    G q ∧ q.length ≤ p.length ∧ c < classRangeBase := by
  have hbase : 2 ^ 9 < classRangeBase := by decide
  rw [octalEscape] at he
  split at he
  · split at he
    · cases he
    · cases he
      exact ⟨hp, le_rfl, by omega⟩
  · split at he
    · cases he
      exact ⟨hp, le_rfl, by omega⟩
    · next hd =>
      rw [not_not] at hd
      obtain ⟨hg, hlen⟩ := h.tail hp (isOctalChar_ascii hd)
      have hlt := octal_lt hd hv
      dsimp only at he
      split at he
      · cases he
        exact ⟨hg, hlen.le, by omega⟩
      · next hd₂ =>
        rw [not_or, not_not] at hd₂
        obtain ⟨hg₂, hlen₂⟩ := h.tail hg (isOctalChar_ascii hd₂.2)
        have hlt₂ := octal_lt hd₂.2 hlt
        cases he
        exact ⟨hg₂, by omega, by omega⟩

lemma lreParseEscape_rest {k c : ℕ} (hp : G p) (he : lreParseEscape p k = .char c q) :
    G q ∧ q.length < p.length ∧ c < classRangeBase := by
  rw [lreParseEscape] at he
  cases hl : escapeLetter (peek p 0) with
  | some v =>
    have hletter : IsAscii (peek p 0) ∧ v < classRangeBase := by
      simp only [escapeLetter] at hl
      split_ifs at hl with h₁ h₂ h₃ h₄ h₅ h₆ <;> obtain rfl := Option.some.inj hl <;>
        refine ⟨?_, by decide⟩ <;> simp only [*] <;> decide
    rw [hl] at he
    cases he
    obtain ⟨hg, hlen⟩ := h.tail hp hletter.1
    exact ⟨hg, hlen, hletter.2⟩
  | none =>
    simp only [hl] at he
    split at he
    · next hx =>
      obtain ⟨hg, hlen⟩ := h.tail_eq hp hx (by decide)
      rw [hexEscape] at he
      cases hd : hexDigits 2 0 p.tail with
      | none =>
        rw [hd] at he
        cases he
      | some r =>
        rw [hd] at he
        cases he
        obtain ⟨hg', hlen', hc⟩ := hexDigits_rest h hg hd
        exact ⟨hg', by omega, hc.trans (by decide)⟩
    split at he
    · next hu =>
      obtain ⟨hg, hlen⟩ := h.tail_eq hp hu (by decide)
      obtain ⟨hg', hlen', hc⟩ := unicodeEscape_rest h hg he
      exact ⟨hg', by omega, hc⟩
    split at he
    · next ho =>
      obtain ⟨hg, hlen⟩ := h.tail hp (isOctalChar_ascii ho)
      obtain ⟨hg', hlen', hc⟩ := octalEscape_rest h (octalDigit_lt ho) hg he
      exact ⟨hg', by omega, hc⟩
    · cases he

lemma Readable.decode {c : ℕ} (hp : G p) (hne : p ≠ []) (hd : unicodeFromUtf8 p utf8CharLenMax = some (c, q)) :
    G q ∧ q.length < p.length ∧ c < classRangeBase := by
  obtain ⟨hg, hc⟩ := h.char hp hd
  obtain ⟨b, v, rfl, -⟩ := unicodeFromUtf8_suffix hne hd
  exact ⟨hg, by simp, hc⟩

lemma groupNameChar_rest {c : ℕ} (hp : G p) (hc : c ≠ 0) (hn : groupNameChar p = some (c, q)) :
    G q ∧ q.length < p.length := by
  rw [groupNameChar] at hn
  dsimp only at hn
  split at hn
  · next hb =>
    obtain ⟨hg, hlen⟩ := h.tail_eq hp hb (by decide)
    split at hn
    · cases he : lreParseEscape p.tail 2 with
      | malformed =>
        rw [he] at hn
        cases hn
      | unknown =>
        rw [he] at hn
        cases hn
      | char c' p' =>
        rw [he] at hn
        cases hn
        obtain ⟨hg', hlen', -⟩ := lreParseEscape_rest h hg he
        exact ⟨hg', hlen'.trans hlen⟩
    · cases hn
  split at hn
  · next hge =>
    have hne : p ≠ [] := by
      rintro rfl
      simp at hge
    obtain ⟨⟨c₁, p₁⟩, hd₁, hn⟩ := Option.bind_eq_some_iff.mp hn
    obtain ⟨hg₁, hlen₁, -⟩ := h.decode hp hne hd₁
    dsimp only at hn
    split at hn
    · cases hd₂ : unicodeFromUtf8 p₁ utf8CharLenMax with
      | none =>
        rw [hd₂] at hn
        cases hn
        exact ⟨hg₁, hlen₁⟩
      | some r =>
        obtain ⟨d, p₂⟩ := r
        simp only [hd₂] at hn
        split at hn
        · next hlo =>
          obtain ⟨rfl, rfl⟩ := Prod.mk.inj (Option.some.inj hn)
          have hne₁ : p₁ ≠ [] := by
            rintro rfl
            obtain ⟨rfl, -⟩ := Prod.mk.inj (Option.some.inj hd₂)
            simp [isLoSurrogate] at hlo
          obtain ⟨hg₂, hlen₂, -⟩ := h.decode hg₁ hne₁ hd₂
          exact ⟨hg₂, hlen₂.trans hlen₁⟩
        · cases hn
          exact ⟨hg₁, hlen₁⟩
    · cases hn
      exact ⟨hg₁, hlen₁⟩
  · next hlt =>
    obtain ⟨rfl, rfl⟩ := Prod.mk.inj (Option.some.inj hn)
    exact h.tail hp ⟨by omega, by omega⟩

lemma reParseGroupName_rest {U : Libunicode} {name : Bytes} (hp : G p) (hn : reParseGroupName U p = some (name, q)) :
    G q ∧ q.length < p.length ∧ name ≠ [] ∧ IsName name := by
  let I (st : GroupNameState) : Prop := G st.p ∧ st.p.length ≤ p.length ∧ IsName st.q
  let S (r : Option (Bytes × Bytes)) : Prop :=
    ∀ name q, r = some (name, q) → G q ∧ q.length < p.length ∧ name ≠ [] ∧ IsName name
  have hnone : S none := fun _ _ hr => by cases hr
  have hstep (st : GroupNameState) (hst : I st) :
      Sum.elim (fun t => I t ∧ t.p.length < st.p.length) S (groupNameStep U st) := by
    obtain ⟨hg, hlen, hz⟩ := hst
    rw [groupNameStep]
    split
    · next hend =>
      intro name q hr
      split at hr
      · cases hr
      · next hne =>
        cases hr
        obtain ⟨hg', hlen'⟩ := h.tail_eq hg hend (by decide)
        exact ⟨hg', by omega, hne, hz⟩
    · cases hc : groupNameChar st.p with
      | none => exact hnone
      | some r =>
        obtain ⟨c, p'⟩ := r
        dsimp only
        by_cases hmax : c > 0x10FFFF
        · rw [if_pos hmax]
          exact hnone
        rw [if_neg hmax]
        by_cases hident : (if st.q = [] then lreJsIsIdentFirst U c else lreJsIsIdentNext U c) = true
        · have hspace : c ≠ 0x20 := by
            rintro rfl
            split at hident <;> cases hident
          have hc0 : c ≠ 0 := by
            rintro rfl
            split at hident <;> cases hident
          obtain ⟨hg', hlt⟩ := groupNameChar_rest h hg hc0 hc
          rw [if_neg (not_not.mpr hident)]
          split
          · exact hnone
          · refine ⟨⟨hg', (hlt.trans_le hlen).le, ?_⟩, hlt⟩
            have hform : (if c < 128 then [UInt8.ofNat c] else unicodeToUtf8 c) = unicodeToUtf8 c := by
              split
              · next hlt => rw [unicodeToUtf8, if_pos hlt]
              · rfl
            rw [hform]
            exact hz.append ⟨notMem_unicodeToUtf8 (by decide) hc0, notMem_unicodeToUtf8 (by decide) hspace⟩
        · rw [if_pos hident]
          exact hnone
  exact run_getD (I := I) (S := S) (μ := fun st => st.p.length) hstep ⟨hp, le_rfl, isName_nil⟩ (Nat.lt_succ_self _) none
    name q hn

lemma reParseExpect_rest {c : Char} (hp : G p) (hc : IsAscii c.toNat) :
    Post E (fun q => G q ∧ q.length < p.length) (reParseExpect p c) := by
  rw [reParseExpect]
  split
  · next hx => exact h.tail_eq hp hx hc
  · apply h.raised
    simp [malformed, malformedChar, malformedUnicode, bytesOf, byteOf]

lemma Readable.message {α : Type} {Q : α → Prop} (msg : String)
    (hmsg : .raised (bytesOf msg) ∉ malformed) : Post E Q (reParseError msg) :=
  h.raised _ hmsg

lemma drop_unicodeChars (hp : G p) : G (p.drop (p.takeWhile fun b => isUnicodeChar b.toNat).length) := by
  induction p with
  | nil => exact hp
  | cons b p ih =>
    by_cases hb : isUnicodeChar b.toNat = true
    · simpa [hb] using ih (h.ascii (isUnicodeChar_ascii hb).2 hp)
    · simpa [hb] using hp

lemma propertyWord_rest {word : Bytes} (hp : G p) (hw : propertyWord p = some (word, q)) :
    G q ∧ q.length ≤ p.length := by
  rw [propertyWord] at hw
  split at hw
  · cases hw
  · obtain ⟨rfl, rfl⟩ := Prod.mk.inj (Option.some.inj hw)
    exact ⟨drop_unicodeChars h hp, by simp⟩

variable (U : Libunicode) (s : REParseState) (hs : InMode u E s)

lemma knownSet_post {cr : Option (List ℕ)} {msg : String} (hmsg : .raised (bytesOf msg) ∉ malformed) :
    Post E (fun _ => True) (knownSet cr msg) := by
  cases cr with
  | none => exact h.message msg hmsg
  | some cr => trivial

lemma propertySet_post {name value : Bytes} {isInv allow : Bool} :
    Post E (fun _ => True) (propertySet U name value isInv allow) := by
  rw [propertySet]
  split
  · exact knownSet_post h (by decide)
  split
  · exact knownSet_post h (by decide)
  split
  · exact knownSet_post h (by decide)
  split
  · split
    · trivial
    · split
      · trivial
      · exact h.message _ (by decide)
  · exact h.message _ (by decide)

lemma parseUnicodeProperty_rest {isInv allow : Bool} (hp : G p) :
    Post E (fun r => G r.2 ∧ r.2.length < p.length) (parseUnicodeProperty U s p isInv allow) := by
  rw [parseUnicodeProperty]
  split
  · exact h.message _ (by decide)
  · next hb =>
    rw [ne_eq, not_not] at hb
    obtain ⟨hg, hlen⟩ := h.tail_eq hp hb (by decide)
    cases hw : propertyWord p.tail with
    | none => exact h.message _ (by decide)
    | some r =>
      obtain ⟨name, p₁⟩ := r
      obtain ⟨hg₁, hlen₁⟩ := propertyWord_rest h hg hw
      dsimp only
      have hvalue (value p₂ : Bytes)
          (hv : (if peek p₁ 0 = '='.toNat then propertyWord p₁.tail else some ([], p₁)) = some (value, p₂)) :
          G p₂ ∧ p₂.length ≤ p₁.length := by
        split at hv
        · next heq =>
          obtain ⟨hg₂, hlen₂⟩ := h.tail_eq hg₁ heq (by decide)
          obtain ⟨hg₃, hlen₃⟩ := propertyWord_rest h hg₂ hv
          exact ⟨hg₃, by omega⟩
        · obtain ⟨rfl, rfl⟩ := Prod.mk.inj (Option.some.inj hv)
          exact ⟨hg₁, le_rfl⟩
      cases hv : (if peek p₁ 0 = '='.toNat then propertyWord p₁.tail else some ([], p₁)) with
      | none => exact h.message _ (by decide)
      | some r =>
        obtain ⟨value, p₂⟩ := r
        obtain ⟨hg₂, hlen₂⟩ := hvalue value p₂ hv
        dsimp only
        split
        · exact h.message _ (by decide)
        · next hend =>
          rw [ne_eq, not_not] at hend
          obtain ⟨hg₃, hlen₃⟩ := h.tail_eq hg₂ hend (by decide)
          apply (propertySet_post h U).bind
          intro cr _
          exact ⟨hg₃, by dsimp only; omega⟩

end Reader

end Jsregexp
