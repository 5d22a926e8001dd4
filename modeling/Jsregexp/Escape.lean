import Jsregexp.Compile
import Jsregexp.Libregexp.LiteralSpec

namespace Jsregexp

section Definition

def hexDigit (n : ℕ) : UInt8 := (bytesOf "0123456789abcdef").getD n 0

def hex2 (c : UInt8) : Bytes := bytesOf "\\x" ++ [hexDigit (c.toNat / 16), hexDigit (c.toNat % 16)]

def escapeByte (i : ℕ) (c : UInt8) : Bytes :=
  if c.toNat < 33 then
    if 9 ≤ c.toNat ∧ c.toNat ≤ 13 then bytesOf "\\" ++ [(bytesOf "tnvfr").getD (c.toNat - 9) 0]
    else hex2 c
  else if c.toNat < 128 then
    if isDigitChar c.toNat || isUpperChar c.toNat || isLowerChar c.toNat then if i = 0 then hex2 c else [c]
    else if oneOf ",-=<>#&!%:;@~'`\"" c.toNat then hex2 c
    else if c.toNat ≠ '_'.toNat then bytesOf "\\" ++ [c]
    else [c]
  else hex2 c

def escapeFrom (i : ℕ) (str : Bytes) : Bytes := (str.zipIdx i).flatMap fun c => escapeByte c.2 c.1

/-- The index of `jsregexp.escape` is an `int`. -/
def jsregexpEscape (str : Bytes) : Except Failure Bytes :=
  if str.length ≤ int32Max then .ok (escapeFrom 0 str) else .error .undefined

end Definition

section Chars

variable {chars chars' : String} {x : ℕ}

lemma oneOf_of_sublist (h : oneOf chars x = false) (hsub : ∀ b ∈ bytesOf chars', b ∈ bytesOf chars) :
    oneOf chars' x = false := by
  rw [oneOf, List.any_eq_false] at h ⊢
  exact fun b hb => h b (hsub b hb)

lemma parseQuantifier_none {q : Bytes} (h : oneOf "*+?\x7b" (peek q 0) = false) (isUnicode : Bool) :
    parseQuantifier isUnicode q = .ok none := by
  rw [parseQuantifier, if_neg (oneOf_ne h (by decide)), if_neg (oneOf_ne h (by decide)),
    if_neg (oneOf_ne h (by decide)), if_neg (oneOf_ne h (by decide))]

end Chars

section Term

def PlainEscape (x : ℕ) : Prop :=
  isDigitChar x = false ∧ charRangeEnum x = none ∧ oneOf "bBkpPqc-" x = false

instance (x : ℕ) : Decidable (PlainEscape x) := inferInstanceAs (Decidable (_ ∧ _ ∧ _))

def syntaxChars : String := "^$\\.*+?()[]\x7b\x7d|/"

variable {U : Libunicode} {s : REParseState} {isBackwardDir : Bool} {x : UInt8} {c : ℕ} {q r : Bytes}
variable {disjunction : Bool → REParseState → Except Failure (List Op × REParseState)}

lemma getClassAtom_escape (hx : PlainEscape x.toNat) : getClassAtom U s (byteOf '\\' :: x :: q) false =
    if oneOf syntaxChars x.toNat then .ok ⟨x.toNat, none, q⟩ else defaultEscape s (x :: q) := by
  have hclass : classEscape U s (parseClassStringDisjunction U s) true (x :: q) false = none := by
    have hproperty : oneOf "pP" x.toNat = false := oneOf_of_sublist hx.2.2 (by decide +kernel)
    rw [classEscape, if_neg (by simp)]
    dsimp only
    rw [peek_cons_zero, hx.2.1]
    simp [hproperty]
  rw [getClassAtom, getClassAtomWith, if_pos (by rfl)]
  dsimp only [List.tail_cons]
  rw [if_neg (List.cons_ne_nil _ _), hclass]
  dsimp only
  rw [peek_cons_zero, if_neg (oneOf_ne hx.2.2 (by decide)), if_neg (oneOf_ne hx.2.2 (by decide))]
  rfl

lemma termAtom_escape (hx : PlainEscape x.toNat) :
    termAtom U disjunction s isBackwardDir (byteOf '\\' :: x :: q) =
      ((if oneOf syntaxChars x.toNat then .ok ⟨x.toNat, none, q⟩ else defaultEscape s (x :: q)) >>=
        charAtom U s isBackwardDir) := by
  have hescape : termAtom U disjunction s isBackwardDir (byteOf '\\' :: x :: q) =
      escapedAtom U s isBackwardDir (byteOf '\\' :: x :: q) := rfl
  have hboundary : ¬ (x.toNat = 'b'.toNat ∨ x.toNat = 'B'.toNat) :=
    not_or.mpr ⟨oneOf_ne hx.2.2 (by decide), oneOf_ne hx.2.2 (by decide)⟩
  have hzero : x.toNat ≠ '0'.toNat := by
    intro h
    exact absurd hx.1 (by rw [h]; decide)
  rw [hescape, escapedAtom, peek_cons_one, peek_cons_zero, if_neg hboundary, if_neg (oneOf_ne hx.2.2 (by decide)),
    if_neg hzero, if_neg (by rw [hx.1]; decide), classAtomTerm, getClassAtom_escape hx]

section Reads

variable (hq : oneOf "*+?\x7b" (peek q 0) = false)
include hq

lemma readsChar_of_escape (hx : PlainEscape x.toNat) (hc : c < classRangeBase) (hle : q.length ≤ r.length)
    (hatom : ∀ p, (if oneOf syntaxChars x.toNat then .ok ⟨x.toNat, none, r⟩
      else defaultEscape { s with bufPtr := p } (x :: r)) = .ok ⟨c, none, q⟩) :
    ReadsChar U s (byteOf '\\' :: x :: r) c q where
  shorter := by
    rw [List.length_cons, List.length_cons]
    omega
  noBar := by
    rw [peek_cons_zero]
    decide
  noClose := by
    rw [peek_cons_zero]
    decide
  atom disjunction isBackwardDir := by
    rw [termAtom_escape hx, hatom]
    rfl
  noSet := hc
  once := parseQuantifier_none hq _

lemma readsChar_syntax (hx : PlainEscape x.toNat) (hs : oneOf syntaxChars x.toNat = true) :
    ReadsChar U s (byteOf '\\' :: x :: q) x.toNat q := by
  apply readsChar_of_escape hq hx (x.toNat_lt.trans (by decide)) le_rfl
  intro p
  rw [if_pos hs]

lemma readsChar_value (hx : PlainEscape x.toNat) (hs : oneOf syntaxChars x.toNat = false) (hc : c < classRangeBase)
    (hle : q.length ≤ r.length) (hvalue : ∀ allowUtf16, lreParseEscape (x :: r) allowUtf16 = .char c q) :
    ReadsChar U s (byteOf '\\' :: x :: r) c q := by
  apply readsChar_of_escape hq hx hc hle
  intro p
  rw [if_neg (by rw [hs]; decide), defaultEscape, hvalue]

lemma readsChar_word (hx : isUnicodeChar x.toNat = true) : ReadsChar U s (x :: q) x.toNat q := by
  have htable : ∀ n < 256, isUnicodeChar n = true →
      n < 128 ∧ oneOf "^$.*+?()[]\x7b\x7d|\\/&!#%,:;<=>@`~-" n = false := by decide +kernel
  obtain ⟨hascii, hplain⟩ := htable _ x.toNat_lt hx
  have hatom (t : REParseState) : getClassAtom U t (x :: q) false = .ok ⟨x.toNat, none, q⟩ := by
    have hop : oneOf "&!#$%*+,.:;<=>?@^`~" x.toNat = false := oneOf_of_sublist hplain (by decide +kernel)
    have hclass : oneOf "()[]\x7b\x7d/-|" x.toNat = false := oneOf_of_sublist hplain (by decide +kernel)
    rw [getClassAtom, getClassAtomWith]
    dsimp only
    rw [peek_cons_zero, if_neg (oneOf_ne hplain (by decide)), if_neg (List.cons_ne_nil _ _),
      if_neg (by rw [hop]; decide), if_neg (by rw [hclass]; decide), normalChar, if_neg (by omega)]
    rfl
  refine ⟨Nat.lt_succ_self _, ?_, ?_, ?_, x.toNat_lt.trans (by decide), parseQuantifier_none hq _⟩
  · exact oneOf_ne hplain (by decide)
  · exact oneOf_ne hplain (by decide)
  · intro disjunction isBackwardDir
    have hrepeat : oneOf "*+?" x.toNat = false := oneOf_of_sublist hplain (by decide +kernel)
    have hbracket : oneOf "]\x7d" x.toNat = false := oneOf_of_sublist hplain (by decide +kernel)
    rw [termAtom, peek_cons_zero, if_neg (oneOf_ne hplain (by decide)), if_neg (oneOf_ne hplain (by decide)),
      if_neg (oneOf_ne hplain (by decide)), if_neg (oneOf_ne hplain (by decide)), if_neg (by rw [hrepeat]; decide),
      if_neg (oneOf_ne hplain (by decide)), if_neg (oneOf_ne hplain (by decide)),
      if_neg (oneOf_ne hplain (by decide)), if_neg (by rw [hbracket]; decide), classAtomTerm, hatom]
    rfl

end Reads

end Term

section Byte

variable {U : Libunicode} {s : REParseState} {q : Bytes}

lemma hexDigits_hex2 (c : UInt8) :
    hexDigits 2 0 (hexDigit (c.toNat / 16) :: hexDigit (c.toNat % 16) :: q) = some (c.toNat, q) := by
  have hdigit : ∀ n < 16, fromHex (hexDigit n).toNat = some n := by decide +kernel
  have hvalue : ∀ n < 256, ((0 <<< 4 ||| n / 16) <<< 4) ||| n % 16 = n := by decide +kernel
  have hc := c.toNat_lt
  rw [hexDigits, peek_cons_zero, hdigit _ (by omega)]
  show hexDigits 1 (0 <<< 4 ||| c.toNat / 16) (hexDigit (c.toNat % 16) :: q) = _
  rw [hexDigits, peek_cons_zero, hdigit _ (by omega)]
  show some (((0 <<< 4 ||| c.toNat / 16) <<< 4) ||| c.toNat % 16, q) = _
  rw [hvalue _ hc]

lemma readsChar_hex2 (hq : oneOf "*+?\x7b" (peek q 0) = false) (c : UInt8) : ReadsChar U s (hex2 c ++ q) c.toNat q := by
  have hlt : c.toNat < classRangeBase := c.toNat_lt.trans (by decide)
  apply readsChar_value hq (x := byteOf 'x') (by decide) (by decide) hlt (Nat.le_add_right _ 2)
  intro allowUtf16
  show hexEscape (hexDigit (c.toNat / 16) :: hexDigit (c.toNat % 16) :: q) = _
  rw [hexEscape, hexDigits_hex2]

def Escapable (s : REParseState) (c : UInt8) : Prop := c = 0x7f → s.isUnicode = false

lemma readsChar_del (hq : oneOf "*+?\x7b" (peek q 0) = false) (hs : s.isUnicode = false) :
    ReadsChar U s (byteOf '\\' :: 0x7f :: q) 0x7f q := by
  apply readsChar_of_escape hq (by decide) (by decide) le_rfl
  intro p
  show defaultEscape { s with bufPtr := p } (0x7f :: q) = _
  rw [defaultEscape]
  show (if s.isUnicode = true then _ else _) = _
  rw [hs]
  rfl

lemma readsChar_escapeByte (i : ℕ) {c : UInt8} (hc : Escapable s c) (hq : oneOf "*+?\x7b" (peek q 0) = false) :
    ReadsChar U s (escapeByte i c ++ q) c.toNat q := by
  rw [escapeByte]
  split
  · split
    · next hcontrol =>
      have htable : ∀ n < 256, 9 ≤ n ∧ n ≤ 13 → PlainEscape ((bytesOf "tnvfr").getD (n - 9) 0).toNat ∧
          oneOf syntaxChars ((bytesOf "tnvfr").getD (n - 9) 0).toNat = false ∧
            escapeLetter ((bytesOf "tnvfr").getD (n - 9) 0).toNat = some n := by decide +kernel
      obtain ⟨hplain, hsyntax, hletter⟩ := htable _ c.toNat_lt hcontrol
      apply readsChar_value hq hplain hsyntax (c.toNat_lt.trans (by decide)) le_rfl
      intro allowUtf16
      rw [lreParseEscape, peek_cons_zero, hletter]
      rfl
    · exact readsChar_hex2 hq c
  split
  · split
    · next halnum =>
      split
      · exact readsChar_hex2 hq c
      · apply readsChar_word hq
        simp [isUnicodeChar, halnum]
    split
    · exact readsChar_hex2 hq c
    split
    · next hlow hhigh hword hhex hunderscore =>
      have htable : ∀ n < 256, (¬ n < 33 ∧ n < 128 ∧ ¬ (isDigitChar n || isUpperChar n || isLowerChar n) = true ∧
          ¬ oneOf ",-=<>#&!%:;@~'`\"" n = true ∧ n ≠ '_'.toNat) →
            n = 0x7f ∨ (PlainEscape n ∧ oneOf syntaxChars n = true) := by decide +kernel
      obtain hdel | ⟨hplain, hsyntax⟩ := htable _ c.toNat_lt ⟨hlow, hhigh, hword, hhex, hunderscore⟩
      · obtain rfl : c = 0x7f := UInt8.toNat_inj.mp hdel
        exact readsChar_del hq (hc rfl)
      · exact readsChar_syntax hq hplain hsyntax
    · next hunderscore =>
      apply readsChar_word hq
      rw [ne_eq, not_not] at hunderscore
      rw [hunderscore]
      decide
  · exact readsChar_hex2 hq c

lemma peek_escapeByte (i : ℕ) (c : UInt8) : oneOf "*+?\x7b" (peek (escapeByte i c ++ q) 0) = false := by
  have hhead : peek (escapeByte i c ++ q) 0 = peek (escapeByte i c) 0 := by
    apply peek_append_left
    simp only [escapeByte, hex2, bytesOf]
    split_ifs <;> simp
  have htable : ∀ n < 256, oneOf "*+?\x7b" (peek (escapeByte 0 (UInt8.ofNat n)) 0) = false ∧
      oneOf "*+?\x7b" (peek (escapeByte 1 (UInt8.ofNat n)) 0) = false := by decide +kernel
  obtain ⟨hfirst, hlater⟩ := htable _ c.toNat_lt
  rw [UInt8.ofNat_toNat] at hfirst hlater
  rw [hhead]
  cases i with
  | zero => exact hfirst
  | succ i => exact hlater

end Byte

section Text

variable {U : Libunicode} {s : REParseState} {q : Bytes}

lemma escapeFrom_cons (i : ℕ) (c : UInt8) (str : Bytes) :
    escapeFrom i (c :: str) = escapeByte i c ++ escapeFrom (i + 1) str := by
  rw [escapeFrom, List.zipIdx_cons, List.flatMap_cons, escapeFrom]

lemma peek_escapeFrom (hq : oneOf "*+?\x7b" (peek q 0) = false) (i : ℕ) (str : Bytes) :
    oneOf "*+?\x7b" (peek (escapeFrom i str ++ q) 0) = false := by
  cases str with
  | nil => exact hq
  | cons c str =>
    rw [escapeFrom_cons, List.append_assoc]
    apply peek_escapeByte

lemma readsChars_escapeFrom (hq : oneOf "*+?\x7b" (peek q 0) = false) (i : ℕ) {str : Bytes}
    (hs : ∀ c ∈ str, Escapable s c) : ReadsChars U s (escapeFrom i str ++ q) (str.map UInt8.toNat) q := by
  induction str generalizing i with
  | nil => exact .nil q
  | cons c str ih =>
    rw [escapeFrom_cons, List.append_assoc, List.map_cons]
    apply ReadsChars.cons
    · exact readsChar_escapeByte i (hs c List.mem_cons_self) (peek_escapeFrom hq (i + 1) str)
    · exact ih (i + 1) fun d hd => hs d (List.mem_cons_of_mem _ hd)

lemma readsChars_escape {str : Bytes} (hs : ∀ c ∈ str, Escapable s c) :
    ReadsChars U s (escapeFrom 0 str) (str.map UInt8.toNat) [] := by
  have h := readsChars_escapeFrom (U := U) (q := []) (by decide) 0 hs
  rwa [List.append_nil] at h

structure LiteralPattern (U : Libunicode) (buf : Bytes) (reFlags : ℕ) (cs : List ℕ) : Prop where
  reads : ReadsChars U (.start buf reFlags) buf cs []
  compiles : lreCompile U buf reFlags = .ok (literalBytecode U reFlags cs)

lemma ReadsChars.literal {buf : Bytes} {reFlags : ℕ} {cs : List ℕ} (h : ReadsChars U (.start buf reFlags) buf cs [])
    (hfits : LiteralFits U reFlags cs) : LiteralPattern U buf reFlags cs :=
  ⟨h, h.compile.trans (if_pos hfits)⟩

lemma literalCode_injective (hs : s.ignoreCase = false) : Function.Injective (literalCode U s) := by
  apply List.map_injective_iff.mpr
  intro c d hcd
  simp only [classChar, hs, Bool.false_eq_true, if_false, reEmitChar] at hcd
  split at hcd <;> split at hcd <;> cases hcd <;> rfl

lemma start_ignoreCase {reFlags : ℕ} (hcase : reFlags &&& lreFlagIgnorecase = 0) (buf : Bytes) :
    (REParseState.start buf reFlags).ignoreCase = false := by
  show decide (reFlags &&& lreFlagIgnorecase ≠ 0) = false
  rw [hcase]
  rfl

/-- The number of characters for which the buffer of the bytecode has room. -/
def literalMax : ℕ := 330164173

lemma literalFits_iff {reFlags : ℕ} {cs : List ℕ} (hcase : reFlags &&& lreFlagIgnorecase = 0)
    (hsticky : reFlags &&& lreFlagSticky = 0) (hcs : ∀ c ∈ cs, c ≤ 0xffff) :
    LiteralFits U reFlags cs ↔ cs.length ≤ literalMax := by
  have hchars : codeSize (literalCode U (.start [] reFlags) cs) = 3 * cs.length := by
    induction cs with
    | nil => rfl
    | cons c cs ih =>
      have hchar : reEmitChar (.start [] reFlags) (classChar U (.start [] reFlags) c) = .char false c := by
        rw [classChar, start_ignoreCase hcase, if_neg Bool.false_ne_true, reEmitChar, start_ignoreCase hcase,
          if_pos (hcs c List.mem_cons_self)]
      rw [literalCode, List.map_cons, codeSize_cons, hchar, ← literalCode,
        ih fun d hd => hcs d (List.mem_cons_of_mem _ hd), List.length_cons, Op.size]
      omega
  have hsize : 8 + codeSize (literalBytecode U reFlags cs).code = 24 + 3 * cs.length := by
    simp only [literalBytecode, wholeCode, hsticky, ne_eq, not_true_eq_false, decide_false, codeSize_append,
      codeSize_cons, hchars]
    simp only [searchLoop, Bool.false_eq_true, if_false, codeSize_cons, codeSize_nil, Op.size]
    omega
  rw [LiteralFits, hsize, byteCodeMax, literalMax]
  omega

lemma escapeFrom_injective : Function.Injective (escapeFrom 0) := by
  intro s t hst
  have hread (str : Bytes) : ReadsChars asciiTables (.start (escapeFrom 0 str) 0) (escapeFrom 0 str)
      (str.map UInt8.toNat) [] :=
    readsChars_escape fun _ _ _ => rfl
  have hcode := (hread s).parse.symm.trans (hst ▸ (hread t).parse)
  have hnat := literalCode_injective (by rfl) (Prod.mk.inj (Except.ok.inj hcode)).1
  exact List.map_injective_iff.mpr (fun _ _ => UInt8.toNat_inj.mp) hnat

lemma readsChars_escaped (U : Libunicode) (s t : Bytes) {reFlags : ℕ}
    (hflags : reFlags &&& (lreFlagUnicode ||| lreFlagUnicodeSets) = 0) :
    ReadsChars U (.start (escapeFrom 0 s ++ escapeFrom 0 t) reFlags) (escapeFrom 0 s ++ escapeFrom 0 t)
      ((s ++ t).map UInt8.toNat) [] := by
  have hmode (buf : Bytes) : (REParseState.start buf reFlags).isUnicode = false := by
    show decide (reFlags &&& (lreFlagUnicode ||| lreFlagUnicodeSets) ≠ 0) = false
    rw [hflags]
    rfl
  rw [List.map_append]
  apply ReadsChars.append
  · apply readsChars_escapeFrom _ 0 fun _ _ _ => hmode _
    have hhead := peek_escapeFrom (q := []) (by decide) 0 t
    rwa [List.append_nil] at hhead
  · exact readsChars_escape fun _ _ _ => hmode _

theorem escape_literal (U : Libunicode) (s t : Bytes) (reFlags : ℕ)
    (hflags : reFlags &&& (lreFlagUnicode ||| lreFlagUnicodeSets) = 0) (hs : s.length ≤ int32Max)
    (ht : t.length ≤ int32Max) : ∃ p q, jsregexpEscape s = .ok p ∧ jsregexpEscape t = .ok q ∧
      ReadsChars U (.start (p ++ q) reFlags) (p ++ q) ((s ++ t).map UInt8.toNat) [] ∧
      lreCompile U (p ++ q) reFlags = (if LiteralFits U reFlags ((s ++ t).map UInt8.toNat) then
        .ok (literalBytecode U reFlags ((s ++ t).map UInt8.toNat)) else .error outOfMemory) ∧
      ∀ s', jsregexpEscape s' = .ok p → s' = s := by
  have hread := readsChars_escaped U s t hflags
  refine ⟨escapeFrom 0 s, escapeFrom 0 t, if_pos hs, if_pos ht, hread, hread.compile, fun s' hs' => ?_⟩
  rw [jsregexpEscape] at hs'
  split at hs'
  · exact escapeFrom_injective (Except.ok.inj hs')
  · cases hs'

theorem escape_literal_syntax : ∃ p q, jsregexpEscape (bytesOf "\\x4") = .ok p ∧
    jsregexpEscape (bytesOf "1(?:a|b)*") = .ok q ∧ lreCompile asciiTables (p ++ q) lreFlagIgnorecase =
      .ok (literalBytecode asciiTables lreFlagIgnorecase ((bytesOf "\\x4" ++ bytesOf "1(?:a|b)*").map UInt8.toNat)) := by
  obtain ⟨p, q, hp, hq, -, hc, -⟩ := escape_literal asciiTables (bytesOf "\\x4") (bytesOf "1(?:a|b)*") lreFlagIgnorecase
    (by decide) (by decide) (by decide)
  exact ⟨p, q, hp, hq, hc.trans (if_pos (by decide))⟩

theorem escape_literal_long : ∃ p, jsregexpEscape (List.replicate 330164174 (byteOf 'a')) = .ok p ∧
    lreCompile asciiTables p 0 = .error outOfMemory := by
  have hlong (n : ℕ) (hn : literalMax < n) : lreCompile asciiTables (escapeFrom 0 (List.replicate n (byteOf 'a'))) 0 =
      .error outOfMemory := by
    have hread : ReadsChars asciiTables (.start (escapeFrom 0 (List.replicate n (byteOf 'a'))) 0)
        (escapeFrom 0 (List.replicate n (byteOf 'a'))) ((List.replicate n (byteOf 'a')).map UInt8.toNat) [] :=
      readsChars_escape fun _ _ _ => rfl
    refine hread.compile.trans (if_neg ?_)
    rw [literalFits_iff (by rfl) (by rfl) fun c hc => ?_, List.length_map, List.length_replicate]
    · omega
    · obtain ⟨b, -, rfl⟩ := List.mem_map.mp hc
      exact b.toNat_lt.le.trans (by decide)
  refine ⟨escapeFrom 0 (List.replicate 330164174 (byteOf 'a')), if_pos ?_, hlong 330164174 (by decide)⟩
  rw [List.length_replicate]
  decide

end Text

end Jsregexp
