import Jsregexp.Libregexp.ReaderSpec

namespace Jsregexp

open Library.Iteration Library.Fallible

structure AtomRead (G : Bytes → Prop) (p : Bytes) (atom : ClassAtom) : Prop where
  good : G atom.p
  shorter : atom.p.length < p.length
  literal : atom.cr = none → atom.c < classRangeBase

def SetRead (G : Bytes → Prop) (p : Bytes) (r : REStringList × Bytes) : Prop := G r.2 ∧ r.2.length < p.length

section Atom

variable {u : Bool} {G : Bytes → Prop} {E : Failure → Prop} (h : Readable u G E) {p : Bytes}
variable (U : Libunicode) (s : REParseState) (hs : InMode u E s)
include h hs

lemma normalChar_post (hp : G p) (hne : p ≠ []) : Post E (AtomRead G p) (normalChar s (peek p 0) p) := by
  have herr := h.normal hs hp
  obtain ⟨b, p, rfl⟩ := List.exists_cons_of_ne_nil hne
  rw [normalChar, peek_cons_zero] at herr ⊢
  split
  · next hge =>
    rw [if_pos hge] at herr
    cases hd : unicodeFromUtf8 (b :: p) utf8CharLenMax with
    | none =>
      cases hu : s.isUnicode <;> simp only [hd, hu] at herr ⊢ <;> exact herr
    | some r =>
      obtain ⟨c, p'⟩ := r
      obtain ⟨hg, hlen, hc⟩ := h.decode hp hne hd
      simp only [hd] at herr ⊢
      split
      · next hbad =>
        rw [if_pos hbad] at herr
        exact herr
      · exact ⟨hg, hlen, fun _ => hc⟩
  · next hlt =>
    have hb : b.toNat < 0x80 := by omega
    exact ⟨h.ascii hb hp, Nat.lt_succ_self _, fun _ => hb.trans (by decide)⟩

lemma defaultEscape_post (hp : G p) (hne : p ≠ []) : Post E (AtomRead G p) (defaultEscape s p) := by
  have hother : Post E (AtomRead G p) (if s.isUnicode then invalidEscape else normalChar s (peek p 0) p) := by
    split
    · exact h.message _ (by decide)
    · exact normalChar_post h s hs hp hne
  rw [defaultEscape]
  cases he : lreParseEscape p (if s.isUnicode then 2 else 0) with
  | char c p' =>
    obtain ⟨hg, hlen, hc⟩ := lreParseEscape_rest h hp he
    exact ⟨hg, hlen, fun _ => hc⟩
  | malformed => exact hother
  | unknown => exact hother

omit hs in
lemma controlEscape_post {inclass : Bool} {x : UInt8} (hp : G p) (hc : peek p 0 = 'c'.toNat) :
    Post E (AtomRead G (x :: p)) (controlEscape s p inclass) := by
  have hand (n : ℕ) : n &&& 0x1f < classRangeBase := Nat.and_le_right.trans_lt (by decide)
  rw [controlEscape]
  split
  · next hl =>
    have hascii : IsAscii (peek p 1) := by
      simp only [Bool.or_eq_true, Bool.and_eq_true, decide_eq_true_eq] at hl
      rcases hl with (hl | hl) | ⟨⟨hl | hl, -⟩, -⟩
      · exact isLowerChar_ascii hl
      · exact isUpperChar_ascii hl
      · exact isDigitChar_ascii hl
      · exact hl ▸ by decide
    obtain ⟨hg, hlen⟩ := h.drop_two hp (hc ▸ by decide) hascii
    exact ⟨hg, hlen.trans (Nat.lt_succ_self _), fun _ => hand _⟩
  split
  · exact h.message _ (by decide)
  · exact ⟨hp, Nat.lt_succ_self _, fun _ => show '\\'.toNat < classRangeBase by decide⟩

omit hs in
lemma classEscape_post {sd : Bytes → Except Failure (REStringList × Bytes)} {crArg inclass : Bool} {x : UInt8}
    (hsd : crArg = true → ∀ q, G q → Post E (SetRead G q) (sd q)) (hp : G p) {r : Except Failure ClassAtom}
    (hr : classEscape U s sd crArg p inclass = some r) : Post E (AtomRead G (x :: p)) r := by
  have hset {q : Bytes} (hq : q.length < p.length) {t : REStringList × Bytes} (ht : G t.2 ∧ t.2.length < q.length) :
      AtomRead G (x :: p) ⟨classRangeBase, some t.1, t.2⟩ :=
    ⟨ht.1, (ht.2.trans hq).trans (Nat.lt_succ_self _), fun hn => absurd hn (Option.some_ne_none _)⟩
  rw [classEscape] at hr
  dsimp only at hr
  split at hr
  · cases hr
  next harg =>
  rw [not_not] at harg
  cases hi : charRangeEnum (peek p 0) with
  | some i =>
    rw [hi] at hr
    obtain rfl := Option.some.inj hr
    have hascii : IsAscii (peek p 0) := by
      simp only [charRangeEnum] at hi
      split_ifs at hi <;> simp only [*] <;> decide
    obtain ⟨hg, hlen⟩ := h.tail hp hascii
    exact ⟨hg, hlen.trans (Nat.lt_succ_self _), fun hn => absurd hn (Option.some_ne_none _)⟩
  | none =>
    rw [hi] at hr
    dsimp only at hr
    split at hr
    · next hpr =>
      obtain rfl := Option.some.inj hr
      rw [Bool.and_eq_true] at hpr
      obtain ⟨hg, hlen⟩ := h.tail hp (oneOf_ascii hpr.1 (by decide +kernel))
      apply (parseUnicodeProperty_rest h U s hg).bind
      intro r hrest
      exact hset hlen hrest
    split at hr
    · next hq =>
      obtain rfl := Option.some.inj hr
      obtain ⟨hg, hlen⟩ := h.tail_eq hp hq.1 (by decide)
      apply (hsd harg _ hg).bind
      intro r hrest
      exact hset hlen hrest
    · cases hr

lemma getClassAtomWith_post {sd : Bytes → Except Failure (REStringList × Bytes)} {crArg inclass : Bool}
    (hsd : crArg = true → ∀ q, G q → Post E (SetRead G q) (sd q)) (hp : G p) :
    Post E (AtomRead G p) (getClassAtomWith U s sd crArg p inclass) := by
  have hbelow {c : ℕ} (hc : IsAscii c) : c < classRangeBase := hc.2.trans (by decide)
  rw [getClassAtomWith]
  dsimp only
  split
  · next hb =>
    obtain ⟨hg, -⟩ := h.tail_eq hp hb (by decide)
    obtain ⟨x, p, rfl⟩ : ∃ x p', p = x :: p' := List.exists_cons_of_ne_nil (by rintro rfl; cases hb)
    rw [List.tail_cons] at hg ⊢
    split
    · exact h.message _ (by decide)
    next hne =>
    cases hr : classEscape U s sd crArg p inclass with
    | some r => exact classEscape_post h U s hsd hg hr
    | none =>
      have hplain (hc : IsAscii (peek p 0)) : AtomRead G (x :: p) ⟨peek p 0, none, p.tail⟩ := by
        obtain ⟨hg', hlen⟩ := h.tail hg hc
        exact ⟨hg', hlen.trans (Nat.lt_succ_self _), fun _ => hbelow hc⟩
      dsimp only
      split
      · next hc => exact controlEscape_post h s hg hc
      split
      · next hc =>
        split
        · exact h.message _ (by decide)
        · exact hplain (hc ▸ by decide)
      split
      · next hc => exact hplain (oneOf_ascii hc (by decide +kernel))
      · exact (defaultEscape_post h s hs hg hne).mono fun atom ha =>
          ⟨ha.good, ha.shorter.trans (Nat.lt_succ_self _), ha.literal⟩
  split
  · exact h.message _ (by decide)
  next hne =>
  split
  · split
    · exact h.message _ (by decide)
    · exact normalChar_post h s hs hp hne
  split
  · split
    · exact h.message _ (by decide)
    · exact normalChar_post h s hs hp hne
  · exact normalChar_post h s hs hp hne

lemma getCharAtom_post (hp : G p) :
    Post E (fun atom => AtomRead G p atom) (getCharAtom U s p) :=
  getClassAtomWith_post h U s hs (fun hc => by cases hc) hp

lemma parseClassStringDisjunction_post (hp : G p) : Post E (SetRead G p) (parseClassStringDisjunction U s p) := by
  rw [parseClassStringDisjunction]
  split
  · exact h.message _ (by decide)
  next hb =>
  rw [ne_eq, not_not] at hb
  obtain ⟨hg, hlen⟩ := h.tail_eq hp hb (by decide)
  let I (st : StringDisjunctionState) : Prop := G st.p ∧ st.p.length < p.length
  have hstep (st : StringDisjunctionState) (hst : I st) :
      Sum.elim (fun t => I t ∧ t.p.length < st.p.length) (Post E (SetRead G p)) (stringDisjunctionStep U s st) := by
    obtain ⟨hg, hlen⟩ := hst
    rw [stringDisjunctionStep]
    split
    · next hend =>
      obtain ⟨hg', hlen'⟩ := h.tail_eq hg hend (by decide)
      exact ⟨hg', hlen'.trans hlen⟩
    split
    · next hbar =>
      obtain ⟨hg', hlen'⟩ := h.tail_eq hg hbar (by decide)
      exact ⟨⟨hg', hlen'.trans hlen⟩, hlen'⟩
    · have hatom := getCharAtom_post h U s hs hg
      cases ha : getCharAtom U s st.p with
      | error e =>
        rw [ha] at hatom
        exact hatom
      | ok atom =>
        rw [ha] at hatom
        exact ⟨⟨hatom.good, hatom.shorter.trans hlen⟩, hatom.shorter⟩
  exact run_getD (I := I) (μ := fun st => st.p.length) hstep ⟨hg, hlen⟩ (Nat.lt_succ_of_lt hlen) _

theorem getClassAtom_post {inclass : Bool} (hp : G p) : Post E (AtomRead G p) (getClassAtom U s p inclass) :=
  getClassAtomWith_post h U s hs (fun _ _ hq => parseClassStringDisjunction_post h U s hs hq) hp

end Atom

section Class

variable {u : Bool} {G : Bytes → Prop} {E : Failure → Prop} (h : Readable u G E) {p : Bytes}
variable (U : Libunicode) (s : REParseState) (hs : InMode u E s)
include h

omit h in
lemma AtomRead.set_post {atom : ClassAtom} (ha : AtomRead G p atom) (hc : classRangeBase ≤ atom.c) :
    Post E (fun _ => True) atom.set := by
  cases hcr : atom.cr with
  | none => exact absurd (ha.literal hcr) (Nat.not_lt.mpr hc)
  | some cr => simp [ClassAtom.set, hcr]

omit h in
lemma classAtom_post {atom : ClassAtom} (cr : REStringList) (ha : AtomRead G p atom) :
    Post E (fun _ => True) (classAtom U s cr atom) := by
  rw [classAtom]
  split
  · next hc => exact (ha.set_post hc).bind fun _ _ => trivial
  · trivial

variable {nested : Bytes → Except Failure (REStringList × Bytes)} {n : ℕ}
variable (hn : ∀ q, G q → q.length ≤ n → peek q 0 = '['.toNat → Post E (SetRead G q) (nested q))
include hs hn

lemma reParseClassSetOperand_post (hp : G p) (hlen : p.length ≤ n) :
    Post E (SetRead G p) (reParseClassSetOperand U s nested p) := by
  rw [reParseClassSetOperand]
  split
  · next hb => exact hn p hp hlen hb
  · apply (getClassAtom_post h U s hs hp).bind
    intro atom ha
    split
    · exact ⟨ha.good, ha.shorter⟩
    · next hc => exact (ha.set_post (Nat.not_lt.mp hc)).bind fun _ _ => ⟨ha.good, ha.shorter⟩

lemma classSetOps_post (cr : REStringList) (hp : G p) (hlen : p.length ≤ n) :
    Post E (fun r => G r.2 ∧ r.2.length ≤ p.length) (classSetOps U s nested cr p) := by
  let I (st : REStringList × Bytes) : Prop := G st.2 ∧ st.2.length ≤ p.length
  have hloop (op : CrOp) (isOp : Bytes → Bool)
      (hop : ∀ q, isOp q = true → IsAscii (peek q 0) ∧ IsAscii (peek q 1)) :
      Post E (fun r => G r.2 ∧ r.2.length ≤ p.length)
        ((run (classSetStep U s nested op isOp) (p.length + 1) (cr, p)).getD (.error .undefined)) := by
    have hstep (st : REStringList × Bytes) (hst : I st) :
        Sum.elim (fun t => I t ∧ t.2.length < st.2.length) (Post E I) (classSetStep U s nested op isOp st) := by
      obtain ⟨hg, hle⟩ := hst
      rw [classSetStep]
      split
      · exact ⟨hg, hle⟩
      split
      · show Post E I (reParseError _)
        exact h.message _ (by decide)
      next hisop =>
      rw [not_not] at hisop
      obtain ⟨hg', hlen'⟩ := h.drop_two hg (hop _ hisop).1 (hop _ hisop).2
      have hpost := reParseClassSetOperand_post h U s hs hn hg' (by omega)
      cases hr : reParseClassSetOperand U s nested (st.2.drop 2) with
      | error e =>
        rw [hr] at hpost
        exact hpost
      | ok r =>
        rw [hr] at hpost
        have hlt : r.2.length < st.2.length := hpost.2.trans hlen'
        exact ⟨⟨hpost.1, hlt.le.trans hle⟩, hlt⟩
    exact run_getD (I := I) (μ := fun st => st.2.length) hstep ⟨hp, le_rfl⟩ (Nat.lt_succ_self _) _
  rw [classSetOps]
  dsimp only
  split
  · refine hloop .inter isInterOp fun q hq => ?_
    simp only [isInterOp, Bool.and_eq_true, decide_eq_true_eq] at hq
    exact ⟨hq.1.1 ▸ by decide, hq.1.2 ▸ by decide⟩
  split
  · refine hloop .sub isSubOp fun q hq => ?_
    simp only [isSubOp, Bool.and_eq_true, decide_eq_true_eq] at hq
    exact ⟨hq.1 ▸ by decide, hq.2 ▸ by decide⟩
  · exact ⟨hp, le_rfl⟩

lemma classMember_post (st : ClassState) (hp : G st.p) (hlen : st.p.length ≤ n) :
    Post E (fun t => G t.p ∧ t.p.length < st.p.length) (classMember U s nested st) := by
  rw [classMember]
  split
  · next hb =>
    apply (hn _ hp hlen hb.1).bind
    exact fun r hr => ⟨hr.1, hr.2⟩
  · apply (getClassAtom_post h U s hs hp).bind
    intro atom ha
    have hsingle : Post E (fun t : ClassState => G t.p ∧ t.p.length < st.p.length)
        (do return ⟨← classAtom U s st.cr atom, atom.p, st.isFirst⟩) :=
      (classAtom_post U s st.cr ha).bind fun _ _ => ⟨ha.good, ha.shorter⟩
    split
    · next hdash =>
      split
      · exact hsingle
      split
      · split
        · exact h.message _ (by decide)
        · exact hsingle
      · obtain ⟨hg, hlt⟩ := h.tail_eq ha.good hdash.1 (by decide)
        apply (getClassAtom_post h U s hs hg).bind
        intro atom2 ha2
        have hlt2 : atom2.p.length < st.p.length := (ha2.shorter.trans hlt).trans ha.shorter
        split
        · split
          · exact h.message _ (by decide)
          · exact hsingle
        split
        · exact h.message _ (by decide)
        · exact ⟨ha2.good, hlt2⟩
    · exact hsingle

lemma classTurn_post (st : ClassState) (hp : G st.p) (hlen : st.p.length ≤ n) :
    Post E (fun t => G t.p ∧ t.p.length < st.p.length) (classTurn U s nested st) := by
  apply (classMember_post h U s hs hn st hp hlen).bind
  intro t ht
  split
  · apply (classSetOps_post h U s hs hn t.cr ht.1 (ht.2.le.trans hlen)).bind
    exact fun r hr => ⟨hr.1, hr.2.trans_lt ht.2⟩
  · exact ht

lemma nestedClass_post (hp : G p) (hlen : p.length ≤ n + 1) (hb : peek p 0 = '['.toNat) :
    Post E (SetRead G p) (nestedClass U s nested p) := by
  obtain ⟨hg, hlt⟩ := h.tail_eq hp hb (by decide)
  let I (st : ClassState) : Prop := G st.p ∧ st.p.length < p.length
  have hstep (st : ClassState) (hst : I st) :
      Sum.elim (fun t => I t ∧ t.p.length < st.p.length) (Post E (SetRead G p)) (classStep U s nested st) := by
    obtain ⟨hg, hlt⟩ := hst
    rw [classStep]
    split
    · next hend =>
      obtain ⟨hg', hlt'⟩ := h.tail_eq hg hend (by decide)
      exact ⟨hg', hlt'.trans hlt⟩
    · have hturn := classTurn_post h U s hs hn st hg (by omega)
      cases ht : classTurn U s nested st with
      | error e =>
        rw [ht] at hturn
        exact hturn
      | ok t =>
        rw [ht] at hturn
        exact ⟨⟨hturn.1, hturn.2.trans hlt⟩, hturn.2⟩
  have hloop (q : Bytes) (hq : G q) (hle : q.length < p.length) : Post E (SetRead G p)
      ((run (classStep U s nested) (q.length + 1) ⟨.init, q, true⟩).getD (.error .undefined)) :=
    run_getD (I := I) (μ := fun st => st.p.length) hstep ⟨hq, hle⟩ (Nat.lt_succ_self _) _
  have hcaret : G (if decide (peek p.tail 0 = '^'.toNat) = true then p.tail.tail else p.tail) ∧
      (if decide (peek p.tail 0 = '^'.toNat) = true then p.tail.tail else p.tail).length < p.length := by
    split
    · next hc =>
      obtain ⟨hg', hlt'⟩ := h.tail_eq hg (of_decide_eq_true hc) (by decide)
      exact ⟨hg', hlt'.trans hlt⟩
    · exact ⟨hg, hlt⟩
  rw [nestedClass]
  apply (hloop _ hcaret.1 hcaret.2).bind
  intro r hr
  dsimp only
  split
  · split
    · exact h.message _ (by decide)
    · exact hr
  · exact hr

end Class

lemma reParseNestedClass_post {u : Bool} {G : Bytes → Prop} {E : Failure → Prop} (h : Readable u G E)
    (U : Libunicode) (s : REParseState) (hs : InMode u E s) (n : ℕ) {p : Bytes} (hp : G p) (hlen : p.length ≤ n)
    (hb : peek p 0 = '['.toNat) : Post E (SetRead G p) (reParseNestedClass U s n p) := by
  induction n generalizing p with
  | zero =>
    rw [List.length_eq_zero_iff.mp (Nat.le_zero.mp hlen)] at hb
    cases hb
  | succ n ih => exact nestedClass_post h U s hs (fun q hq hle hb => ih hq hle hb) hp hlen hb

end Jsregexp
