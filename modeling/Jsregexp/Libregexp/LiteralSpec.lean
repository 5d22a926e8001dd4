import Jsregexp.Libregexp.CompileSpec

namespace Jsregexp

open Library.Iteration

section Read

variable (U : Libunicode) (s : REParseState)

structure ReadsChar (p : Bytes) (c : ℕ) (q : Bytes) : Prop where
  shorter : q.length < p.length
  noBar : peek p 0 ≠ '|'.toNat
  noClose : peek p 0 ≠ ')'.toNat
  atom : ∀ disjunction isBackwardDir, termAtom U disjunction { s with bufPtr := p } isBackwardDir p =
    charAtom U { s with bufPtr := p } isBackwardDir ⟨c, none, q⟩
  noSet : c < classRangeBase
  once : parseQuantifier s.isUnicode q = .ok none

inductive ReadsChars : Bytes → List ℕ → Bytes → Prop
  | nil (p : Bytes) : ReadsChars p [] p
  | cons {p q r : Bytes} {c : ℕ} {cs : List ℕ} : ReadsChar U s p c q → ReadsChars q cs r → ReadsChars p (c :: cs) r

def literalCode (cs : List ℕ) : List Op := cs.map fun c => reEmitChar s (classChar U s c)

variable {U s} {p q r : Bytes} {c : ℕ} {cs ds : List ℕ}

lemma ReadsChars.append (h : ReadsChars U s p cs q) (h' : ReadsChars U s q ds r) : ReadsChars U s p (cs ++ ds) r := by
  induction h with
  | nil => exact h'
  | cons hc _ ih => exact .cons hc (ih h')

lemma ReadsChars.length_le (h : ReadsChars U s p cs q) : cs.length + q.length ≤ p.length := by
  induction h with
  | nil p => exact (Nat.zero_add _).le
  | cons hc _ ih =>
    have hlt := hc.shorter
    rw [List.length_cons]
    omega

lemma plainCode_literal : PlainCode (literalCode U s cs) := by
  intro op hop
  obtain ⟨c, -, rfl⟩ := List.mem_map.mp hop
  apply plainCode_emitChar

variable {disjunction : Bool → REParseState → Except Failure (List Op × REParseState)}

lemma ReadsChar.term (h : ReadsChar U s p c q) : reParseTerm U disjunction { s with bufPtr := p } false =
    .ok ([reEmitChar s (classChar U s c)], { s with bufPtr := q }) := by
  have hatom : termAtom U disjunction { s with bufPtr := p } false p =
      .ok (plainAtom [reEmitChar s (classChar U s c)] q { s with bufPtr := p }) := by
    rw [h.atom, charAtom]
    dsimp only
    rw [if_neg (Nat.not_le.mpr h.noSet)]
    rfl
  rw [reParseTerm, hatom]
  show (do let x ← parseQuantifier s.isUnicode q; _) = _
  rw [h.once]
  rfl

lemma ReadsChars.run (h : ReadsChars U s p cs q) (n : ℕ) (code : List Op) :
    run (alternativeStep (reParseTerm U disjunction) false) (cs.length + n) ⟨code, { s with bufPtr := p }⟩ =
      run (alternativeStep (reParseTerm U disjunction) false) n
        ⟨code ++ literalCode U s cs, { s with bufPtr := q }⟩ := by
  induction h generalizing code with
  | nil => simp [literalCode]
  | @cons p q r c cs hc _ ih =>
    have hne : p ≠ [] := fun hp => by simpa [hp] using hc.shorter
    have hstep : alternativeStep (reParseTerm U disjunction) false ⟨code, { s with bufPtr := p }⟩ =
        .inl ⟨code ++ [reEmitChar s (classChar U s c)], { s with bufPtr := q }⟩ := by
      rw [alternativeStep, if_neg (not_or.mpr ⟨hne, not_or.mpr ⟨hc.noBar, hc.noClose⟩⟩), hc.term]
      rfl
    rw [List.length_cons, Nat.add_right_comm, Library.Iteration.run, hstep]
    dsimp only
    rw [ih, List.append_assoc]
    rfl

lemma ReadsChars.alternative (h : ReadsChars U s p cs []) :
    reParseAlternative (reParseTerm U disjunction) false { s with bufPtr := p } =
      .ok (literalCode U s cs, { s with bufPtr := [] }) := by
  obtain ⟨n, hn⟩ : ∃ n, p.length + 1 = cs.length + (n + 1) := ⟨p.length - cs.length, by
    have hle := h.length_le
    rw [List.length_nil] at hle
    omega⟩
  rw [reParseAlternative, hn, h.run, Library.Iteration.run, alternativeStep, if_pos (.inl rfl)]
  rfl

lemma ReadsChars.alternative_error (h : ReadsChars U s p cs q) (hne : q ≠ []) (hbar : peek q 0 ≠ '|'.toNat)
    (hclose : peek q 0 ≠ ')'.toNat) {e : Failure}
    (he : reParseTerm U disjunction { s with bufPtr := q } false = .error e) :
    reParseAlternative (reParseTerm U disjunction) false { s with bufPtr := p } = .error e := by
  obtain ⟨n, hn⟩ : ∃ n, p.length + 1 = cs.length + (n + 1) := ⟨p.length - cs.length, by
    have hle := h.length_le
    omega⟩
  rw [reParseAlternative, hn, h.run, Library.Iteration.run, alternativeStep,
    if_neg (not_or.mpr ⟨hne, not_or.mpr ⟨hbar, hclose⟩⟩), he]
  rfl

end Read

section Compile

variable {U : Libunicode} {buf : Bytes} {reFlags : ℕ} {cs : List ℕ}

lemma PlainCode.registers {code : List Op} (h : PlainCode code) (st : RegisterState) :
    code.foldlM registerStep st = .ok { st with code := st.code ++ code } := by
  induction code generalizing st with
  | nil => simp [pure, Except.pure]
  | cons op code ih =>
    rw [List.foldlM_cons, registerStep_plain (h op List.mem_cons_self)]
    show code.foldlM registerStep _ = _
    rw [ih fun op hop => h op (List.mem_cons_of_mem _ hop), List.append_assoc]
    rfl

def literalBytecode (U : Libunicode) (reFlags : ℕ) (cs : List ℕ) : Bytecode where
  flags := reFlags
  captureCount := 1
  registerCount := 0
  code := wholeCode reFlags (literalCode U (.start [] reFlags) cs)
  groupNames := []

def LiteralFits (U : Libunicode) (reFlags : ℕ) (cs : List ℕ) : Prop :=
  8 + codeSize (literalBytecode U reFlags cs).code ≤ byteCodeMax

instance : Decidable (LiteralFits U reFlags cs) := inferInstanceAs (Decidable (_ ≤ _))

def outOfMemory : Failure := .raised (bytesOf "out of memory")

lemma ReadsChars.parse (h : ReadsChars U (.start buf reFlags) buf cs []) :
    lreParse U buf reFlags =
      .ok (literalCode U (.start [] reFlags) cs, { REParseState.start buf reFlags with bufPtr := [] }) := by
  have halt (disjunction : Bool → REParseState → Except Failure (List Op × REParseState)) :
      reParseAlternative (reParseTerm U disjunction) false (.start buf reFlags) = _ := h.alternative
  rw [lreParse, reParseDisjunction, disjunctionWith, halt]
  rfl

theorem ReadsChars.compile (h : ReadsChars U (.start buf reFlags) buf cs []) :
    lreCompile U buf reFlags =
      if LiteralFits U reFlags cs then .ok (literalBytecode U reFlags cs) else .error outOfMemory := by
  have hplain : PlainCode (wholeCode reFlags (literalCode U (.start [] reFlags) cs)) := by
    intro op hop
    simp only [wholeCode, List.mem_append, List.mem_cons, List.not_mem_nil, or_false] at hop
    obtain (hop | rfl | hop) | rfl | rfl := hop
    · rw [searchLoop] at hop
      split at hop <;> simp at hop
      obtain rfl | rfl | rfl := hop <;> rfl
    · rfl
    · exact plainCode_literal op hop
    · rfl
    · rfl
  rw [lreCompile_eq, h.parse]
  show (if byteCodeMax < 8 + codeSize (literalBytecode U reFlags cs).code then _ else _) = _
  by_cases hfits : LiteralFits U reFlags cs
  · rw [if_neg (Nat.not_lt.mpr hfits), if_pos hfits, computeRegisterCount, hplain.registers]
    rfl
  · rw [if_pos (Nat.not_le.mp hfits), if_neg hfits]
    rfl

lemma lreCompile_error {e : Failure} (h : ∀ n, reParseAlternative (reParseTerm U (reParseDisjunction U n)) false
    (.start buf reFlags) = .error e) : lreCompile U buf reFlags = .error e := by
  rw [lreCompile, lreParse, reParseDisjunction, disjunctionWith, h]
  rfl

end Compile

end Jsregexp
