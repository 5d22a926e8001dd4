import Jsregexp.Libregexp.RegexpTree

namespace Jsregexp

section Quantifier

/-- The number that the digits write; `int32Max` stands for no bound and for every number beyond it. -/
def repetitionCount (digits : Bytes) : ℕ :=
  min int32Max (digits.foldl (fun v b => v * 10 + (b.toNat - '0'.toNat)) 0)

def IsNumber (digits : Bytes) : Prop := digits ≠ [] ∧ ∀ b ∈ digits, isDigitChar b.toNat = true

inductive QuantifierText : Bytes → ℕ → ℕ → Bytes → Prop
  | star (q : Bytes) : QuantifierText (byteOf '*' :: q) 0 int32Max q
  | plus (q : Bytes) : QuantifierText (byteOf '+' :: q) 1 int32Max q
  | optional (q : Bytes) : QuantifierText (byteOf '?' :: q) 0 1 q
  | exactly {a : Bytes} (ha : IsNumber a) (q : Bytes) :
      QuantifierText (byteOf '{' :: a ++ byteOf '}' :: q) (repetitionCount a) (repetitionCount a) q
  | atLeast {a : Bytes} (ha : IsNumber a) (q : Bytes) :
      QuantifierText (byteOf '{' :: a ++ byteOf ',' :: byteOf '}' :: q) (repetitionCount a) int32Max q
  | between {a b : Bytes} (ha : IsNumber a) (hb : IsNumber b) (hle : repetitionCount a ≤ repetitionCount b) (q : Bytes) :
      QuantifierText (byteOf '{' :: a ++ byteOf ',' :: b ++ byteOf '}' :: q) (repetitionCount a) (repetitionCount b) q

def Unquantified (p : Bytes) : Prop := ∀ min max q, ¬ QuantifierText p min max q

lemma parseDigits_digits {a q : Bytes} (ha : ∀ b ∈ a, isDigitChar b.toNat = true)
    (hq : isDigitChar (peek q 0) = false) {v : ℕ} (hv : v ≤ int32Max) : parseDigits true v (a ++ q) =
      some (min int32Max (a.foldl (fun v b => v * 10 + (b.toNat - '0'.toNat)) v), q) := by
  induction a generalizing v with
  | nil =>
    rw [List.nil_append, List.foldl_nil, Nat.min_eq_right hv]
    cases q with
    | nil => rfl
    | cons b q =>
      rw [peek_cons_zero] at hq
      rw [parseDigits, hq]
      rfl
  | cons b a ih =>
    have ha' : ∀ b ∈ a, isDigitChar b.toNat = true := fun b hb => ha b (List.mem_cons_of_mem _ hb)
    rw [List.cons_append, parseDigits, if_pos (ha b List.mem_cons_self), List.foldl_cons]
    dsimp only
    split
    · next hge =>
      have hmono (w w' : ℕ) (hw : min int32Max w = min int32Max w') :
          min int32Max (a.foldl (fun v b => v * 10 + (b.toNat - '0'.toNat)) w) =
            min int32Max (a.foldl (fun v b => v * 10 + (b.toNat - '0'.toNat)) w') := by
        clear ih ha ha' hge
        induction a generalizing w w' with
        | nil => exact hw
        | cons c a ih =>
          apply ih
          dsimp only
          omega
      rw [if_pos rfl, ih ha' le_rfl, hmono _ (v * 10 + (b.toNat - '0'.toNat)) (by omega)]
    · next hlt => exact ih ha' (Nat.not_le.mp hlt).le

lemma parseDigits_number {a q : Bytes} (ha : IsNumber a) (hq : isDigitChar (peek q 0) = false) :
    parseDigits true 0 (a ++ q) = some (repetitionCount a, q) :=
  parseDigits_digits ha.2 hq (Nat.zero_le _)

lemma eq_cons_of_peek {p : Bytes} {c : Char} (h : peek p 0 = c.toNat) (hc : 0 < c.toNat ∧ c.toNat < 256) :
    p = byteOf c :: p.tail := by
  cases p with
  | nil =>
    rw [peek_nil] at h
    omega
  | cons b p =>
    rw [peek_cons_zero] at h
    have hb : b = byteOf c := by
      rw [byteOf, ← h, UInt8.ofNat_toNat]
    rw [hb, List.tail_cons]

lemma exists_digits (p : Bytes) :
    ∃ a q, p = a ++ q ∧ (∀ b ∈ a, isDigitChar b.toNat = true) ∧ isDigitChar (peek q 0) = false := by
  induction p with
  | nil => exact ⟨[], [], rfl, by simp, rfl⟩
  | cons b p ih =>
    cases hb : isDigitChar b.toNat with
    | false => exact ⟨[], b :: p, rfl, by simp, by rwa [peek_cons_zero]⟩
    | true =>
      obtain ⟨a, q, rfl, ha, hq⟩ := ih
      exact ⟨b :: a, q, rfl, List.forall_mem_cons.mpr ⟨hb, ha⟩, hq⟩

lemma exists_number {p : Bytes} (h : isDigitChar (peek p 0) = true) :
    ∃ a q, p = a ++ q ∧ IsNumber a ∧ isDigitChar (peek q 0) = false := by
  obtain ⟨a, q, rfl, ha, hq⟩ := exists_digits p
  refine ⟨a, q, rfl, ⟨?_, ha⟩, hq⟩
  rintro rfl
  rw [List.nil_append, hq] at h
  cases h

lemma reParseExpect_ok_iff {p q : Bytes} {c : Char} (hc : 0 < c.toNat ∧ c.toNat < 256) :
    reParseExpect p c = .ok q ↔ p = byteOf c :: q := by
  rw [reParseExpect]
  constructor
  · intro h
    split at h
    · next hp =>
      rw [eq_cons_of_peek hp hc, ← Except.ok.inj h]
    · cases h
  · rintro rfl
    rw [if_pos (by rw [peek_cons_zero, byteOf, toNat_ofNat_byte hc.2])]
    rfl

def braceRest (isUnicode : Bool) (quantMin : ℕ) (p1 : Bytes) : Except Failure (Option Quantifier) :=
  let (quantMax, p1) :=
    if peek p1 0 = ','.toNat then
      if isDigitChar (peek p1 1) then (parseDigits true 0 p1.tail).getD (0, []) else (int32Max, p1.tail)
    else (quantMin, p1)
  if quantMax < quantMin then reParseError "invalid repetition count"
  else if peek p1 0 ≠ '}'.toNat ∧ ¬ isUnicode then .ok none
  else do return some ⟨quantMin, quantMax, ← reParseExpect p1 '}'⟩

lemma parseQuantifier_brace {isUnicode : Bool} {a r : Bytes} (ha : IsNumber a) (hr : isDigitChar (peek r 0) = false) :
    parseQuantifier isUnicode (byteOf '{' :: (a ++ r)) = braceRest isUnicode (repetitionCount a) r := by
  obtain ⟨b, a', rfl⟩ := List.exists_cons_of_ne_nil ha.1
  have hdigit : isDigitChar (peek (byteOf '{' :: (b :: a' ++ r)) 1) = true := ha.2 b List.mem_cons_self
  rw [parseQuantifier]
  dsimp only
  rw [peek_cons_zero, if_neg (by decide), if_neg (by decide), if_neg (by decide), if_pos (by decide),
    if_neg (not_not.mpr hdigit), List.tail_cons, parseDigits_number ha hr]
  rfl

lemma repetitionCount_le (a : Bytes) : repetitionCount a ≤ int32Max := min_le_left _ _

lemma braceEnd_some_iff {isUnicode : Bool} {quantMin quantMax min max : ℕ} {p1 q : Bytes} :
    (if quantMax < quantMin then reParseError "invalid repetition count"
      else if peek p1 0 ≠ '}'.toNat ∧ ¬ isUnicode then .ok none
      else do return some (Quantifier.mk quantMin quantMax (← reParseExpect p1 '}')) :
        Except Failure (Option Quantifier)) = .ok (some ⟨min, max, q⟩) ↔
      p1 = byteOf '}' :: q ∧ quantMin ≤ quantMax ∧ min = quantMin ∧ max = quantMax := by
  constructor
  · intro h
    split at h
    · cases h
    next hle =>
    split at h
    · cases h
    · obtain ⟨q', hq, h⟩ := except_bind_ok_iff.mp h
      cases h
      exact ⟨(reParseExpect_ok_iff (by decide)).mp hq, Nat.not_lt.mp hle, rfl, rfl⟩
  · rintro ⟨rfl, hle, rfl, rfl⟩
    rw [if_neg (Nat.not_lt.mpr hle), if_neg (fun h => h.1 (by rw [peek_cons_zero]; decide))]
    exact except_bind_ok_iff.mpr ⟨q, (reParseExpect_ok_iff (by decide)).mpr rfl, rfl⟩

lemma braceRest_some_iff {isUnicode : Bool} {r q : Bytes} {quantMin min max : ℕ} (hle : quantMin ≤ int32Max) :
    braceRest isUnicode quantMin r = .ok (some ⟨min, max, q⟩) ↔ min = quantMin ∧
      ((r = byteOf '}' :: q ∧ max = quantMin) ∨ (r = byteOf ',' :: byteOf '}' :: q ∧ max = int32Max) ∨
        ∃ b, IsNumber b ∧ r = byteOf ',' :: (b ++ byteOf '}' :: q) ∧ quantMin ≤ repetitionCount b ∧
          max = repetitionCount b) := by
  have hclose : isDigitChar (peek (byteOf '}' :: q) 0) = false := by
    rw [peek_cons_zero]
    decide
  rw [braceRest]
  by_cases hcomma : peek r 0 = ','.toNat
  · rw [if_pos hcomma]
    obtain ⟨r, rfl⟩ : ∃ r', r = byteOf ',' :: r' := ⟨r.tail, eq_cons_of_peek hcomma (by decide)⟩
    have hother : byteOf ',' :: r ≠ byteOf '}' :: q := fun h => absurd (List.cons.inj h).1 (by decide)
    rw [peek_cons_one, List.tail_cons]
    by_cases hdigit : isDigitChar (peek r 0) = true
    · obtain ⟨b, r, rfl, hb, hr⟩ := exists_number hdigit
      rw [if_pos hdigit, parseDigits_number hb hr]
      refine braceEnd_some_iff.trans ⟨?_, ?_⟩
      · rintro ⟨rfl, hle', rfl, rfl⟩
        exact ⟨rfl, .inr (.inr ⟨b, hb, rfl, hle', rfl⟩)⟩
      · rintro ⟨rfl, ⟨hr', -⟩ | ⟨hr', -⟩ | ⟨c, hc, hr', hle', rfl⟩⟩
        · exact absurd hr' hother
        · rw [List.cons.inj hr' |>.2, hclose] at hdigit
          cases hdigit
        · have hsame := parseDigits_number hb hr
          rw [(List.cons.inj hr').2, parseDigits_number hc hclose] at hsame
          obtain ⟨hcount, rfl⟩ := Prod.mk.inj (Option.some.inj hsame)
          exact ⟨rfl, hcount ▸ hle', rfl, hcount⟩
    · rw [if_neg hdigit]
      refine braceEnd_some_iff.trans ⟨?_, ?_⟩
      · rintro ⟨rfl, -, rfl, rfl⟩
        exact ⟨rfl, .inr (.inl ⟨rfl, rfl⟩)⟩
      · rintro ⟨rfl, ⟨hr', -⟩ | ⟨hr', rfl⟩ | ⟨c, hc, hr', -, -⟩⟩
        · exact absurd hr' hother
        · exact ⟨(List.cons.inj hr').2, hle, rfl, rfl⟩
        · obtain ⟨x, c, rfl⟩ := List.exists_cons_of_ne_nil hc.1
          rw [(List.cons.inj hr').2] at hdigit
          exact absurd (hc.2 x List.mem_cons_self) hdigit
  · rw [if_neg hcomma]
    refine braceEnd_some_iff.trans ⟨?_, ?_⟩
    · rintro ⟨rfl, -, rfl, rfl⟩
      exact ⟨rfl, .inl ⟨rfl, rfl⟩⟩
    · rintro ⟨rfl, ⟨hr, rfl⟩ | ⟨hr, -⟩ | ⟨c, -, hr, -, -⟩⟩
      · exact ⟨hr, le_rfl, rfl, rfl⟩
      · exact absurd (by rw [hr, peek_cons_zero]; decide) hcomma
      · exact absurd (by rw [hr, peek_cons_zero]; decide) hcomma

theorem parseQuantifier_some_iff {isUnicode : Bool} {p q : Bytes} {min max : ℕ} :
    parseQuantifier isUnicode p = .ok (some ⟨min, max, q⟩) ↔ QuantifierText p min max q := by
  constructor
  · intro h
    have hsteps := h
    rw [parseQuantifier] at h
    dsimp only at h
    split at h
    · next hc =>
      cases h
      rw [eq_cons_of_peek hc (by decide)]
      exact .star _
    split at h
    · next hc =>
      cases h
      rw [eq_cons_of_peek hc (by decide)]
      exact .plus _
    split at h
    · next hc =>
      cases h
      rw [eq_cons_of_peek hc (by decide)]
      exact .optional _
    split at h
    · next hc =>
      split at h
      · split at h <;> cases h
      next hdigit =>
      rw [not_not, ← peek_tail] at hdigit
      obtain ⟨a, r, hp, ha, hr⟩ := exists_number hdigit
      rw [eq_cons_of_peek hc (by decide), hp] at hsteps ⊢
      rw [parseQuantifier_brace ha hr] at hsteps
      obtain ⟨rfl, ⟨rfl, rfl⟩ | ⟨rfl, rfl⟩ | ⟨b, hb, rfl, hle, rfl⟩⟩ := (braceRest_some_iff (repetitionCount_le a)).mp hsteps
      · exact .exactly ha q
      · exact .atLeast ha q
      · have htext := QuantifierText.between ha hb hle q
        rwa [List.append_assoc] at htext
    · cases h
  · intro h
    cases h with
    | star | plus | optional => rfl
    | exactly ha q =>
      rw [List.cons_append, parseQuantifier_brace ha (by rw [peek_cons_zero]; decide)]
      exact (braceRest_some_iff (repetitionCount_le _)).mpr ⟨rfl, .inl ⟨rfl, rfl⟩⟩
    | atLeast ha q =>
      rw [List.cons_append, parseQuantifier_brace ha (by rw [peek_cons_zero]; decide)]
      exact (braceRest_some_iff (repetitionCount_le _)).mpr ⟨rfl, .inr (.inl ⟨rfl, rfl⟩)⟩
    | @between a b ha hb hle q =>
      rw [List.append_assoc, List.cons_append, List.cons_append,
        parseQuantifier_brace ha (by rw [peek_cons_zero]; decide)]
      exact (braceRest_some_iff (repetitionCount_le _)).mpr ⟨rfl, .inr (.inr ⟨b, hb, rfl, hle, rfl⟩)⟩

lemma QuantifierText.bounds {p q : Bytes} {min max : ℕ} (h : QuantifierText p min max q) :
    min ≤ max ∧ max ≤ int32Max := by
  cases h with
  | star => exact ⟨Nat.zero_le _, le_rfl⟩
  | plus => exact ⟨by decide, le_rfl⟩
  | optional => exact ⟨Nat.zero_le _, by decide⟩
  | exactly => exact ⟨le_rfl, repetitionCount_le _⟩
  | atLeast => exact ⟨repetitionCount_le _, le_rfl⟩
  | between _ _ hle => exact ⟨hle, repetitionCount_le _⟩

lemma unquantified_of_none {isUnicode : Bool} {p : Bytes} (h : parseQuantifier isUnicode p = .ok none) :
    Unquantified p := fun _ _ _ hq => by
  cases h.symm.trans (parseQuantifier_some_iff.mpr hq)

end Quantifier

section Pattern

def IsLeaf (p : Bytes) : Prop :=
  oneOf "^$.(" (peek p 0) = false ∧ ¬ (peek p 0 = '\\'.toNat ∧ oneOf "bB" (peek p 1) = true)

variable (U : Libunicode)

mutual

/-- The text of the state `s` begins with a disjunction that has the tree `t`; the state behind it is `s'`. -/
inductive ReadsDisjunction : Bool → REParseState → RegexpTree → REParseState → Prop
  | one {dir : Bool} {s s' : REParseState} {t : RegexpTree} (h : ReadsAlternative dir s t s') :
      ReadsDisjunction dir s t s'
  | bar {dir : Bool} {s s₁ s' : REParseState} {a b : RegexpTree} {p : Bytes} (ha : ReadsDisjunction dir s a s₁)
      (hp : s₁.bufPtr = byteOf '|' :: p)
      (hb : ReadsAlternative dir { s₁ with bufPtr := p, groupNameScope := s₁.groupNameScope + 1 } b s') :
      ReadsDisjunction dir s (.alternative a b) s'

inductive ReadsAlternative : Bool → REParseState → RegexpTree → REParseState → Prop
  | empty (dir : Bool) (s : REParseState) : ReadsAlternative dir s (.atom [] slotFree_nil) s
  | term {dir : Bool} {s s₁ s' : REParseState} {a b : RegexpTree} (ha : ReadsAlternative dir s a s₁)
      (hb : ReadsTerm dir s₁ b s') : ReadsAlternative dir s (.append dir a b) s'

inductive ReadsTerm : Bool → REParseState → RegexpTree → REParseState → Prop
  | once {dir repeatable : Bool} {s s' : REParseState} {t : RegexpTree} (h : ReadsAtom dir s t repeatable s')
      (hq : repeatable = true → Unquantified s'.bufPtr) : ReadsTerm dir s t s'
  | greedy {dir : Bool} {s s' : REParseState} {t : RegexpTree} {min max : ℕ} {q : Bytes}
      (h : ReadsAtom dir s t true s') (hq : QuantifierText s'.bufPtr min max q) (hne : peek q 0 ≠ '?'.toNat) :
      ReadsTerm dir s (.repeated t min max true) { s' with bufPtr := q }
  | lazy {dir : Bool} {s s' : REParseState} {t : RegexpTree} {min max : ℕ} {q : Bytes}
      (h : ReadsAtom dir s t true s') (hq : QuantifierText s'.bufPtr min max (byteOf '?' :: q)) :
      ReadsTerm dir s (.repeated t min max false) { s' with bufPtr := q }

inductive ReadsAtom : Bool → REParseState → RegexpTree → Bool → REParseState → Prop
  | lineStart {dir : Bool} {s : REParseState} {q : Bytes} (hp : s.bufPtr = byteOf '^' :: q) :
      ReadsAtom dir s (.atom [.lineStart s.multiLine] (slotFree_single ⟨rfl, rfl⟩)) false { s with bufPtr := q }
  | lineEnd {dir : Bool} {s : REParseState} {q : Bytes} (hp : s.bufPtr = byteOf '$' :: q) :
      ReadsAtom dir s (.atom [.lineEnd s.multiLine] (slotFree_single ⟨rfl, rfl⟩)) false { s with bufPtr := q }
  | wordBoundary {dir : Bool} {s : REParseState} {q : Bytes} (isNot : Bool)
      (hp : s.bufPtr = bytesOf (if isNot then "\\B" else "\\b") ++ q) :
      ReadsAtom dir s (.atom [.wordBoundary isNot (s.ignoreCase && s.isUnicode)] (slotFree_single ⟨rfl, rfl⟩)) false
        { s with bufPtr := q }
  | dot {dir : Bool} {s : REParseState} {q : Bytes} (hp : s.bufPtr = byteOf '.' :: q)
      (h : SlotFreeCode (directed dir [if s.dotall then .any else .dot])) :
      ReadsAtom dir s (.atom (directed dir [if s.dotall then .any else .dot]) h) true { s with bufPtr := q }
  | leaf {dir : Bool} {s : REParseState} {atom : TermAtom} (hp : IsLeaf s.bufPtr)
      (h : ∀ disjunction, termAtom U disjunction s dir s.bufPtr = .ok atom) (hcode : SlotFreeCode atom.code) :
      ReadsAtom dir s (.atom atom.code hcode) atom.lastAtomStart { atom.s with bufPtr := atom.p }
  | capture {dir : Bool} {s s' : REParseState} {t : RegexpTree} {p q : Bytes} (hp : s.bufPtr = byteOf '(' :: p)
      (hne : peek p 0 ≠ '?'.toNat) (h : ReadsDisjunction dir { s with
        groupNames := s.groupNames ++ [0, 0], captureCount := s.captureCount + 1, bufPtr := p } t s')
      (hq : s'.bufPtr = byteOf ')' :: q) : ReadsAtom dir s (.capture dir t) true { s' with bufPtr := q }
  | named {dir : Bool} {s s' : REParseState} {t : RegexpTree} {p p' q name : Bytes}
      (hp : s.bufPtr = bytesOf "(?<" ++ p) (hname : reParseGroupName U p = some (name, p'))
      (h : ReadsDisjunction dir { s with
        u := name, groupNames := s.groupNames ++ name ++ [0, s.groupNameScope], hasNamedCaptures := some true,
        captureCount := s.captureCount + 1, bufPtr := p' } t s')
      (hq : s'.bufPtr = byteOf ')' :: q) : ReadsAtom dir s (.capture dir t) true { s' with bufPtr := q }
  | group {dir : Bool} {s s' : REParseState} {t : RegexpTree} {p q : Bytes} (hp : s.bufPtr = bytesOf "(?:" ++ p)
      (h : ReadsDisjunction dir { s with bufPtr := p } t s') (hq : s'.bufPtr = byteOf ')' :: q) :
      ReadsAtom dir s t true { s' with bufPtr := q }
  | modified {dir : Bool} {s s' : REParseState} {t : RegexpTree} {add remove : ModifiersState} {p p' q : Bytes}
      (hp : s.bufPtr = bytesOf "(?" ++ p) (hadd : reParseModifiers p = .ok add)
      (hremove : if peek add.p 0 = '-'.toNat then reParseModifiers add.p.tail = .ok remove else remove = ⟨add.p, 0⟩)
      (hsome : ¬ (add.mask = 0 ∧ remove.mask = 0)) (hdisjoint : add.mask &&& remove.mask = 0)
      (hcolon : remove.p = byteOf ':' :: p') (h : ReadsDisjunction dir { s with
        ignoreCase := updateModifier s.ignoreCase add.mask remove.mask lreFlagIgnorecase
        multiLine := updateModifier s.multiLine add.mask remove.mask lreFlagMultiline
        dotall := updateModifier s.dotall add.mask remove.mask lreFlagDotall
        bufPtr := p' } t s')
      (hq : s'.bufPtr = byteOf ')' :: q) : ReadsAtom dir s t true { s' with
        ignoreCase := s.ignoreCase, multiLine := s.multiLine, dotall := s.dotall, bufPtr := q }
  | lookahead {dir : Bool} {s s' : REParseState} {t : RegexpTree} {p q : Bytes} (isNeg : Bool)
      (hp : s.bufPtr = bytesOf (if isNeg then "(?!" else "(?=") ++ p)
      (h : ReadsDisjunction false { s with bufPtr := p } t s') (hq : s'.bufPtr = byteOf ')' :: q) :
      ReadsAtom dir s (.lookahead isNeg t) (!s.isUnicode) { s' with bufPtr := q }
  | lookbehind {dir : Bool} {s s' : REParseState} {t : RegexpTree} {p q : Bytes} (isNeg : Bool)
      (hp : s.bufPtr = bytesOf (if isNeg then "(?<!" else "(?<=") ++ p)
      (h : ReadsDisjunction true { s with bufPtr := p } t s') (hq : s'.bufPtr = byteOf ')' :: q) :
      ReadsAtom dir s (.lookahead isNeg t) false { s' with bufPtr := q }

end

end Pattern

end Jsregexp
