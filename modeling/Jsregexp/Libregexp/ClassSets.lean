import Jsregexp.Library.Fallible
import Jsregexp.Libregexp.CharClass

namespace Jsregexp

open Library.Iteration Library.Fallible

abbrev OnSuccess {α : Type} (Q : α → Prop) (x : Except Failure α) : Prop := Post (fun _ => True) Q x

lemma onSuccess_true {α : Type} (x : Except Failure α) : OnSuccess (fun _ => True) x := by
  cases x <;> trivial

section Sets

variable (U : Libunicode) (s : REParseState)

structure SetClosed (P : REStringList → Prop) : Prop where
  init : P .init
  classes : ∀ i, P (crInitCharRange i)
  property : ∀ name value isInv, OnSuccess P (propertySet U name value isInv s.unicodeSets)
  canonicalize : ∀ a, P a → P (reStringListCanonicalize U a s.isUnicode)
  invert : ∀ a, P a → P { a with cr := crInvert a.cr }
  op : ∀ a b op, P a → P b → P (reStringListOp a b op)
  char : ∀ a c, P a → c < classRangeBase → P { a with cr := crUnionInterval a.cr (classChar U s c) (classChar U s c) }
  range : ∀ a c1 c2, P a → c1 ≤ c2 → c2 < classRangeBase → P (classRange U s a c1 c2)
  strings : s.unicodeSets = true → ∀ p, OnSuccess (fun r => P r.1) (parseClassStringDisjunction U s p)

variable {U s} {P : REStringList → Prop} (h : SetClosed U s P)
include h

lemma parseUnicodeProperty_set (p : Bytes) (isInv : Bool) :
    OnSuccess (fun r => P r.1) (parseUnicodeProperty U s p isInv s.unicodeSets) := by
  have hif (cond : Prop) [Decidable cond] (f : REStringList → REStringList) (hf : ∀ a, P a → P (f a))
      (a : REStringList) (ha : P a) : P (if cond then f a else a) := by
    split
    · exact hf a ha
    · exact ha
  rw [parseUnicodeProperty]
  split
  · trivial
  split
  · trivial
  split
  · trivial
  split
  · trivial
  apply (h.property _ _ isInv).bind
  intro cr hcr
  apply hif _ _ h.canonicalize
  apply hif _ (fun a => { a with cr := crInvert a.cr }) h.invert
  exact hif _ _ h.canonicalize _ hcr

def AtomSet (P : REStringList → Prop) (atom : ClassAtom) : Prop := ∀ cr, atom.cr = some cr → P cr

omit h in
lemma atomSet_none (c : ℕ) (p : Bytes) : AtomSet P ⟨c, none, p⟩ := fun _ hcr => by cases hcr

omit h in
lemma atomSet_some {cr : REStringList} (hcr : P cr) (c : ℕ) (p : Bytes) : AtomSet P ⟨c, some cr, p⟩ :=
  fun _ h => Option.some.inj h ▸ hcr

omit h in
lemma AtomSet.set {atom : ClassAtom} (ha : AtomSet P atom) : OnSuccess P atom.set := by
  cases hcr : atom.cr with
  | none => simp [ClassAtom.set, hcr]
  | some cr => simpa [ClassAtom.set, hcr] using ha cr hcr

omit h in
lemma normalChar_set (c : ℕ) (p : Bytes) : OnSuccess (AtomSet P) (normalChar s c p) := by
  rw [normalChar]
  split
  · split
    · split
      · trivial
      · exact atomSet_none _ _
    · split <;> trivial
  · exact atomSet_none _ _

omit h in
lemma defaultEscape_set (p : Bytes) : OnSuccess (AtomSet P) (defaultEscape s p) := by
  rw [defaultEscape]
  split
  · exact atomSet_none _ _
  all_goals
    split
    · trivial
    · exact normalChar_set _ _

omit h in
lemma controlEscape_set (p : Bytes) (inclass : Bool) : OnSuccess (AtomSet P) (controlEscape s p inclass) := by
  rw [controlEscape]
  split
  · exact atomSet_none _ _
  split
  · trivial
  · exact atomSet_none _ _

lemma classEscape_set {sd : Bytes → Except Failure (REStringList × Bytes)}
    (hsd : s.unicodeSets = true → ∀ p, OnSuccess (fun r => P r.1) (sd p)) {crArg inclass : Bool} {p : Bytes}
    {r : Except Failure ClassAtom} (hr : classEscape U s sd crArg p inclass = some r) : OnSuccess (AtomSet P) r := by
  rw [classEscape] at hr
  split at hr
  · cases hr
  split at hr
  · obtain rfl := Option.some.inj hr
    exact atomSet_some (h.classes _) _ _
  split at hr
  · obtain rfl := Option.some.inj hr
    exact (parseUnicodeProperty_set h _ _).bind fun r hr => atomSet_some hr _ _
  split at hr
  · next hq =>
    obtain rfl := Option.some.inj hr
    exact (hsd hq.2.1 _).bind fun r hr => atomSet_some hr _ _
  · cases hr

theorem getClassAtom_set (p : Bytes) (inclass : Bool) : OnSuccess (AtomSet P) (getClassAtom U s p inclass) := by
  rw [getClassAtom, getClassAtomWith]
  dsimp only
  split
  · split
    · trivial
    cases hr : classEscape U s (parseClassStringDisjunction U s) true p.tail inclass with
    | some r => exact classEscape_set h h.strings hr
    | none =>
      dsimp only
      split
      · exact controlEscape_set _ _
      split
      · split
        · trivial
        · exact atomSet_none _ _
      split
      · exact atomSet_none _ _
      · exact defaultEscape_set _
  split
  · trivial
  split
  · split
    · trivial
    · exact normalChar_set _ _
  split
  · split
    · trivial
    · exact normalChar_set _ _
  · exact normalChar_set _ _

lemma classAtom_set {cr : REStringList} {atom : ClassAtom} (hcr : P cr) (ha : AtomSet P atom) :
    OnSuccess P (classAtom U s cr atom) := by
  rw [classAtom]
  split
  · exact ha.set.bind fun _ h' => h.op _ _ _ hcr h'
  · next hc => exact h.char _ _ hcr (not_le.mp hc)

variable {nested : Bytes → Except Failure (REStringList × Bytes)} (hn : ∀ p, OnSuccess (fun r => P r.1) (nested p))
include hn

lemma reParseClassSetOperand_set (p : Bytes) :
    OnSuccess (fun r => P r.1) (reParseClassSetOperand U s nested p) := by
  rw [reParseClassSetOperand]
  split
  · exact hn p
  · apply (getClassAtom_set h p true).bind
    intro atom ha
    split
    · next hc => exact h.char ⟨[], []⟩ _ h.init hc
    · exact ha.set.bind fun _ hcr => hcr

lemma classSetOps_set {cr : REStringList} (hcr : P cr) (p : Bytes) :
    OnSuccess (fun r => P r.1) (classSetOps U s nested cr p) := by
  have hloop (op : CrOp) (isOp : Bytes → Bool) : OnSuccess (fun r => P r.1)
      ((run (classSetStep U s nested op isOp) (p.length + 1) (cr, p)).getD (.error .undefined)) := by
    apply run_getD_any (I := fun st => P st.1) (fun st hst => ?_) hcr trivial
    rw [classSetStep]
    split
    · exact hst
    split
    · trivial
    · have hpost := reParseClassSetOperand_set h hn (st.2.drop 2)
      cases hr : reParseClassSetOperand U s nested (st.2.drop 2) with
      | error e => trivial
      | ok r =>
        rw [hr] at hpost
        exact h.op _ _ _ hst hpost
  rw [classSetOps]
  dsimp only
  split
  · exact hloop _ _
  split
  · exact hloop _ _
  · exact hcr

lemma classMember_set {st : ClassState} (hst : P st.cr) : OnSuccess (fun t => P t.cr) (classMember U s nested st) := by
  rw [classMember]
  split
  · exact (hn _).bind fun r hr => h.op _ _ _ hst hr
  · apply (getClassAtom_set h st.p true).bind
    intro atom ha
    have hsingle : OnSuccess (fun t : ClassState => P t.cr)
        (do return ⟨← classAtom U s st.cr atom, atom.p, st.isFirst⟩) :=
      (classAtom_set h hst ha).bind fun _ hcr => hcr
    split
    · split
      · exact hsingle
      split
      · split
        · trivial
        · exact hsingle
      · apply (onSuccess_true _).bind
        intro atom2 _
        split
        · split
          · trivial
          · exact hsingle
        · next hc2 =>
          split
          · trivial
          · next hle => exact h.range _ _ _ hst (not_lt.mp hle) (not_le.mp hc2)
    · exact hsingle

lemma classTurn_set {st : ClassState} (hst : P st.cr) : OnSuccess (fun t => P t.cr) (classTurn U s nested st) := by
  apply (classMember_set h hn hst).bind
  intro t ht
  split
  · exact (classSetOps_set h hn ht t.p).bind fun r hr => hr
  · exact ht

lemma nestedClass_set (p : Bytes) : OnSuccess (fun r => P r.1) (nestedClass U s nested p) := by
  have hloop (q : Bytes) : OnSuccess (fun r => P r.1)
      ((run (classStep U s nested) (q.length + 1) ⟨.init, q, true⟩).getD (.error .undefined)) := by
    apply run_getD_any (I := fun st => P st.cr) (fun st hst => ?_) h.init trivial
    rw [classStep]
    split
    · exact hst
    · have hturn := classTurn_set h hn hst
      cases ht : classTurn U s nested st with
      | error e => trivial
      | ok t =>
        rw [ht] at hturn
        exact hturn
  rw [nestedClass]
  apply (hloop _).bind
  intro r hr
  dsimp only
  split
  · split
    · trivial
    · exact h.invert _ hr
  · exact hr

omit hn in
theorem reParseNestedClass_set (n : ℕ) (p : Bytes) : OnSuccess (fun r => P r.1) (reParseNestedClass U s n p) := by
  induction n generalizing p with
  | zero => trivial
  | succ n ih => exact nestedClass_set h ih p

end Sets

end Jsregexp
