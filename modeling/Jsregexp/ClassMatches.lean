import Jsregexp.Compile
import Jsregexp.Libregexp.RangeSearch

namespace Jsregexp

open Library.Fallible Library.Boundaries

section Operations

variable {a b : List ℕ}

theorem charRange_operations (ha : IsPoints a) (hb : IsPoints b) :
    (∀ op, IsCharSet (crOp1 a b op) ∧ charSet (crOp1 a b op) = op.set (charSet a) (charSet b)) ∧
      (IsCharSet (crInvert a) ∧ charSet (crInvert a) = Set.Iio uint32Max \ charSet a) ∧
      ∀ c1 c2, c1 ≤ c2 → c2 < uint32Max → IsCharSet (crUnionInterval a c1 c2) ∧
        charSet (crUnionInterval a c1 c2) = charSet a ∪ Set.Icc c1 c2 :=
  ⟨crOp1_charSet ha hb, crInvert_charSet ha, fun _ _ hle hlt => crUnionInterval_charSet ha hle hlt⟩

lemma isCharSet_of_decide {cr : List ℕ}
    (h : decide (cr.Pairwise (· < ·) ∧ cr.length % 2 = 0 ∧ ∀ p ∈ cr, p ≤ uint32Max) = true) : IsCharSet cr := by
  obtain ⟨hsorted, heven, hle⟩ := of_decide_eq_true h
  exact ⟨hsorted, Nat.even_iff.mpr heven, hle⟩

theorem charRange_operations_digits :
    charSet (crOp1 charRangeW charRangeD .sub) = charSet charRangeW \ charSet charRangeD :=
  ((charRange_operations (isCharSet_of_decide (by decide)).points (isCharSet_of_decide (by decide)).points).1 .sub).2

end Operations

/-- What is assumed of the Unicode tables: their sets are in order, and a canonical form is a character. -/
structure Libunicode.InOrder (U : Libunicode) : Prop where
  canonicalize : ∀ cr isUnicode, IsIntervals cr → IsIntervals (U.crRegexpCanonicalize cr isUnicode)
  canonical : ∀ c isUnicode, c < classRangeBase → U.lreCanonicalize c isUnicode < uint32Max
  script : ∀ name isExt cr, U.unicodeScript name isExt = some cr → IsIntervals cr
  category : ∀ name cr, U.unicodeGeneralCategory name = some cr → IsIntervals cr
  prop : ∀ name cr, U.unicodeProp name = some cr → IsIntervals cr

section Class

variable {U : Libunicode} (hU : U.InOrder) (s : REParseState)

def CharsOnly (s : REParseState) (a : REStringList) : Prop :=
  s.unicodeSets = false → IsIntervals a.cr ∧ a.strings = []

def ReadsSet (U : Libunicode) (s : REParseState) (p : Bytes) (a : REStringList) (q : Bytes) : Prop :=
  (∃ n, reParseNestedClass U s n p = .ok (a, q)) ∨ ∃ c, getClassAtom U s p false = .ok ⟨c, some a, q⟩

lemma crInitCharRange_isCharSet (i : ℕ) : IsCharSet (crInitCharRange i).cr := by
  have hbase (k : ℕ) : IsCharSet ([charRangeD, charRangeS, charRangeW].getD k []) := by
    match k with
    | 0 | 1 | 2 => exact isCharSet_of_decide (by decide)
    | k + 3 =>
      have hnil : [charRangeD, charRangeS, charRangeW].getD (k + 3) [] = [] := rfl
      rw [hnil]
      exact isCharSet_of_decide (by decide)
  rw [crInitCharRange]
  dsimp only
  split
  · exact (crInvert_charSet (hbase _).points).1
  · exact hbase _

include hU

lemma propertySet_chars (name value : Bytes) (isInv : Bool) :
    OnSuccess (CharsOnly s) (propertySet U name value isInv s.unicodeSets) := by
  have hknown (cr : Option (List ℕ)) (msg : String) (hcr : ∀ a, cr = some a → IsIntervals a) :
      OnSuccess (CharsOnly s) (knownSet cr msg) := by
    cases cr with
    | none => trivial
    | some a => exact fun _ => ⟨hcr a rfl, rfl⟩
  rw [propertySet]
  split
  · exact hknown _ _ fun a ha => hU.script _ _ a ha
  split
  · exact hknown _ _ fun a ha => hU.script _ _ a ha
  split
  · exact hknown _ _ fun a ha => hU.category _ a ha
  split
  · split
    · next cr hcr =>
      refine fun _ => ⟨?_, rfl⟩
      cases hcat : U.unicodeGeneralCategory name with
      | none =>
        rw [hcat] at hcr
        exact hU.prop _ _ hcr
      | some cr' =>
        rw [hcat] at hcr
        exact Option.some.inj hcr ▸ hU.category _ _ hcat
    · split
      · next seqs hseqs =>
        intro hs
        simp [hs] at hseqs
      · trivial
  · trivial

lemma charsOnly_closed : SetClosed U s (CharsOnly s) where
  init := fun _ => ⟨(isCharSet_of_decide (by decide)).intervals, rfl⟩
  classes := fun i _ => ⟨(crInitCharRange_isCharSet i).intervals, rfl⟩
  property := propertySet_chars hU s
  canonicalize := fun a ha hs => by
    obtain ⟨hcr, hstrings⟩ := ha hs
    rw [reStringListCanonicalize, hstrings, List.foldl_nil]
    exact ⟨hU.canonicalize _ _ hcr, rfl⟩
  invert := fun a ha hs => ⟨(crInvert_charSet (ha hs).1.toIsPoints).1.intervals, (ha hs).2⟩
  op := fun a b op ha hb hs => by
    obtain ⟨hcr, hstrings⟩ := ha hs
    obtain ⟨hcr', hstrings'⟩ := hb hs
    refine ⟨(crOp1_charSet hcr.toIsPoints hcr'.toIsPoints op).1.intervals, ?_⟩
    cases op <;> simp [reStringListOp, hstrings, hstrings']
  char := fun a c ha hc hs => by
    have hlt : classChar U s c < uint32Max := by
      rw [classChar]
      split
      · exact hU.canonical _ _ hc
      · exact hc.trans (by decide)
    exact ⟨(crUnionInterval_charSet (ha hs).1.toIsPoints le_rfl hlt).1.intervals, (ha hs).2⟩
  range := fun a c1 c2 ha hle hc hs => by
    have hlt : c2 < uint32Max := hc.trans (by decide)
    rw [classRange]
    split
    · have hfolded := hU.canonicalize _ s.isUnicode (interval_isCharSet hle hlt).intervals
      exact ⟨(crOp1_charSet (ha hs).1.toIsPoints hfolded.toIsPoints .union).1.intervals, (ha hs).2⟩
    · exact ⟨(crUnionInterval_charSet (ha hs).1.toIsPoints hle hlt).1.intervals, (ha hs).2⟩
  strings := fun hs p => by
    cases parseClassStringDisjunction U s p with
    | error e => trivial
    | ok r => exact fun h => absurd (hs.symm.trans h) Bool.noConfusion

theorem class_accepts (hs : s.unicodeSets = false) {p q : Bytes} {a : REStringList} {code : List Op}
    (hread : ReadsSet U s p a q) (hemit : reEmitStringList s U a = .ok code) :
    IsIntervals a.cr ∧ ∃ op, code = [op] ∧ ∀ ctx c, c < uint32Max → execChar ctx U s.ignoreCase c < uint32Max →
      (charTest U ctx op c = true ↔ execChar ctx U s.ignoreCase c ∈ charSet a.cr) := by
  have hset : CharsOnly s a := by
    rcases hread with ⟨n, hclass⟩ | ⟨c, hescape⟩
    · exact (reParseNestedClass_set (charsOnly_closed hU s) n p).ok hclass
    · exact (getClassAtom_set (charsOnly_closed hU s) p false).ok hescape a rfl
  obtain ⟨hcr, hstrings⟩ := hset hs
  rw [reEmitStringList, if_pos hstrings] at hemit
  obtain ⟨op, hop, haccepts⟩ := reEmitRange_accepts hcr hemit
  exact ⟨hcr, op, hop, haccepts U⟩

end Class

def separators : List ℕ :=
  [0x20, 0x21, 0xa0, 0xa1, 0x1680, 0x1681, 0x2000, 0x200b, 0x2028, 0x2029, 0x2029, 0x202a, 0x202f, 0x2030,
    0x205f, 0x2060, 0x3000, 0x3001]

def separatorTables : Libunicode :=
  { asciiTables with unicodeGeneralCategory := fun name => if name = bytesOf "Z" then some separators else none }

lemma separatorTables_inOrder : separatorTables.InOrder where
  canonicalize := fun _ _ h => h
  canonical := fun c isUnicode hc => by
    have hbase : classRangeBase + 0x20 < uint32Max := by decide
    show (if 0x41 ≤ c ∧ c ≤ 0x5a then c + 0x20 else c) < uint32Max
    split <;> omega
  script := fun _ _ _ h => by cases h
  category := fun name cr h => by
    change (if name = bytesOf "Z" then some separators else none) = some cr at h
    split at h
    · obtain rfl := Option.some.inj h
      exact ⟨⟨by decide, by decide, by decide⟩, by decide⟩
    · cases h
  prop := fun _ _ h => by cases h

theorem class_accepts_separators : ∃ op, reEmitStringList (.start (bytesOf "\\p{Z}") lreFlagUnicode) separatorTables
    ⟨separators, []⟩ = .ok [op] ∧
      ∀ ctx c, c < uint32Max → (charTest separatorTables ctx op c = true ↔ c ∈ charSet separators) := by
  have hread : ReadsSet separatorTables (.start (bytesOf "\\p{Z}") lreFlagUnicode) (bytesOf "\\p{Z}")
      ⟨separators, []⟩ [] := .inr ⟨classRangeBase, by decide +kernel⟩
  have hemit : reEmitStringList (.start (bytesOf "\\p{Z}") lreFlagUnicode) separatorTables ⟨separators, []⟩ =
      .ok [.range false (intervalPairs 0xffff separators)] := by decide +kernel
  obtain ⟨-, op, hop, haccepts⟩ := class_accepts separatorTables_inOrder _ rfl hread hemit
  obtain rfl := List.singleton_inj.mp hop
  exact ⟨_, hemit, fun ctx c hc => haccepts ctx c hc hc⟩

end Jsregexp
