import Jsregexp.ExecSpans
import Jsregexp.Library.Iteration

/-! `get_substitution` of jsregexp.lua, and the `GetSubstitution` of ECMAScript it is to compute. -/

namespace Jsregexp

open Library.Iteration

def isDigit (s : Bytes) (i : ℕ) : Bool :=
  s[i - 1]?.any fun b => byteOf '0' ≤ b && b ≤ byteOf '9'

def groupDigits (replacement : Bytes) (j0 : ℕ) (c : Bytes) : Bytes × Bool :=
  let j := j0 + 2
  if j ≤ replacement.length ∧ isDigit replacement j = true then (c ++ stringSub replacement j j, true)
  else (c, false)

def substituteGroup (m : Match) (replacement : Bytes) (j0 : ℕ) (k : Bytes × Bool) : Bytes × ℕ :=
  let j := j0 + 2
  let kv1 := toNumber k.1
  let j := if k.2 ∧ kv1 ≥ 1 ∧ m.captures[kv1]?.isSome then j + 1 else j
  let kv := toNumber k.1
  match if kv ≥ 1 then m.captures[kv]? else none with
  | some capture => (capture, j)
  | none => (stringSub replacement j0 j, j)

def substituteName (groups : Table Bytes) (replacement : Bytes) (j0 : ℕ) : Except Failure (Bytes × ℕ) :=
  let j := j0 + 2
  match stringFind replacement (byteOf '>') j with
  | none => .ok (stringSub replacement j0 j, j)
  | some k =>
    let name := stringSub replacement j (k - 1 : ℕ)
    match groups.getField name with
    | none => .error (.raised (bytesOf "invalid capture name: " ++ name))
    | some capture => .ok (capture, k + 1)

def substitute (m : Match) (str replacement : Bytes) (j0 : ℕ) : Except Failure (Bytes × ℕ) :=
  let c := stringSub replacement (j0 + 1) (j0 + 1)
  let j := j0 + 2
  if c = [byteOf '$'] then .ok ([byteOf '$'], j)
  else if c = [byteOf '&'] then .ok (m.whole, j)
  else if c = [0x60] then .ok (stringSub str 1 m.index, j)
  else if c = [0x27] then .ok (stringSub str (m.index + m.whole.length) (-1), j)
  else if isDigit c 1 then .ok (substituteGroup m replacement j0 (groupDigits replacement j0 c))
  else
    match if c = [byteOf '<'] then m.groups else none with
    | some groups => substituteName groups replacement j0
    | none => .ok (stringSub replacement j0 j, j)

structure SubstitutionState where
  i : ℕ
  result : List Bytes

def substitutionStep (m : Match) (str replacement : Bytes) (s : SubstitutionState) :
    SubstitutionState ⊕ Except Failure Bytes :=
  let finish := .inr (.ok (s.result ++ [stringSub replacement s.i (-1)]).flatten)
  match stringFind replacement (byteOf '$') s.i with
  | none => finish
  | some j =>
    if j + 1 > replacement.length then finish
    else
      match substitute m str replacement j with
      | .error e => .inr (.error e)
      | .ok (piece, j') => .inl ⟨j', s.result ++ [stringSub replacement s.i (j - 1), piece]⟩

/-- The loop takes at most one turn for each byte of the template. -/
def getSubstitution (m : Match) (str replacement : Bytes) : Except Failure Bytes :=
  (run (substitutionStep m str replacement) (replacement.length + 1) ⟨1, []⟩).getD (.error .undefined)

section Ecma

def isDigitByte (b : UInt8) : Bool := byteOf '0' ≤ b && b ≤ byteOf '9'

def groupReference (m : Match) (digits : Bytes) : ℕ × Bytes :=
  let index := toNumber digits
  let captureLen := m.captures.length - 1
  (digits.length + 1,
    if 1 ≤ index ∧ index ≤ captureLen then m.captures.getD index [] else byteOf '$' :: digits)

def digitReference (m : Match) (c : UInt8) (rest : Bytes) : ℕ × Bytes :=
  match rest with
  | [] => groupReference m [c]
  | e :: _ =>
    if isDigitByte e ∧ toNumber [c, e] ≤ m.captures.length - 1 then groupReference m [c, e]
    else groupReference m [c]

def nameReference (m : Match) (rest : Bytes) : ℕ × Except Failure Bytes :=
  match m.groups with
  | none => (2, .ok [byteOf '$', byteOf '<'])
  | some groups =>
    if byteOf '>' ∈ rest then
      let groupName := rest.takeWhile (· ≠ byteOf '>')
      (groupName.length + 3,
        match groups.getField groupName with
        | none => .error (.raised (bytesOf "invalid capture name: " ++ groupName))
        | some capture => .ok capture)
    else (2, .ok [byteOf '$', byteOf '<'])

def refReplacement (m : Match) (str : Bytes) (c : UInt8) (rest : Bytes) : ℕ × Except Failure Bytes :=
  let position := m.index - 1
  let tailPos := position + m.whole.length
  if c = byteOf '$' then (2, .ok [byteOf '$'])
  else if c = 0x60 then (2, .ok (str.take position))
  else if c = byteOf '&' then (2, .ok m.whole)
  else if c = 0x27 then (2, .ok (str.drop (min tailPos str.length)))
  else if isDigitByte c then ((digitReference m c rest).1, .ok (digitReference m c rest).2)
  else if c = byteOf '<' then nameReference m rest
  else (1, .ok [byteOf '$'])

/-- `GetSubstitution`, with an error for a name that no group has. -/
def getSubstitutionSpec (m : Match) (str : Bytes) : Bytes → Except Failure Bytes
  | [] => .ok []
  | [b] => .ok [b]
  | b :: c :: rest =>
    if b = byteOf '$' then do
      let ref ← (refReplacement m str c rest).2
      let result ← getSubstitutionSpec m str ((c :: rest).drop ((refReplacement m str c rest).1 - 1))
      return ref ++ result
    else do
      let result ← getSubstitutionSpec m str (c :: rest)
      return b :: result
termination_by t => t.length
decreasing_by
  · simp
  · simp

end Ecma

section Sequences

/-- What may follow a `$` in a template. `group` holds the text of a group that exists, `digits` two
digits whose number no group has, and `copy` a character that is to stand for itself with the one behind
it. -/
inductive Sequence
  | dollar
  | matched
  | before
  | after
  | group (text : Bytes)
  | digits (d e : UInt8)
  | copy (c : UInt8) (next : Option UInt8)
  | name (key : Bytes)
  deriving DecidableEq, Repr

def groupText (m : Match) (k : ℕ) : Option Bytes := if k ≥ 1 then m.captures[k]? else none

def singleDigit (m : Match) (c : UInt8) (rest : Bytes) : Sequence :=
  (groupText m (c.toNat - 48)).elim (.copy c rest.head?) .group

def nextGroup (m : Match) (c : UInt8) (rest : Bytes) : Sequence × Bytes :=
  match rest with
  | [] => (singleDigit m c rest, rest)
  | e :: rest' =>
    if isDigitByte e then
      match groupText m (10 * (c.toNat - 48) + (e.toNat - 48)) with
      | some text => (.group text, rest')
      | none => (.digits c e, rest)
    else (singleDigit m c rest, rest)

def nextSequence (m : Match) (c : UInt8) (rest : Bytes) : Sequence × Bytes :=
  if c = byteOf '$' then (.dollar, rest)
  else if c = byteOf '&' then (.matched, rest)
  else if c = 0x60 then (.before, rest)
  else if c = 0x27 then (.after, rest)
  else if isDigitByte c then nextGroup m c rest
  else if c = byteOf '<' ∧ m.groups.isSome = true ∧ byteOf '>' ∈ rest then
    (.name (rest.takeWhile (· ≠ byteOf '>')), rest.drop ((rest.takeWhile (· ≠ byteOf '>')).length + 1))
  else (.copy c rest.head?, rest)

lemma nextGroup_suffix (m : Match) (c : UInt8) (rest : Bytes) : (nextGroup m c rest).2 <:+ rest := by
  cases rest with
  | nil => exact List.suffix_refl _
  | cons e rest =>
    simp only [nextGroup]
    split_ifs
    · split
      · exact List.suffix_cons e rest
      · exact List.suffix_refl _
    · exact List.suffix_refl _

lemma nextSequence_suffix (m : Match) (c : UInt8) (rest : Bytes) : (nextSequence m c rest).2 <:+ rest := by
  rw [nextSequence]
  split_ifs
  all_goals try exact List.suffix_refl rest
  · exact nextGroup_suffix m c rest
  · exact List.drop_suffix _ rest

lemma nextSequence_digit (m : Match) {c : UInt8} (rest : Bytes) (hc : isDigitByte c = true) :
    nextSequence m c rest = nextGroup m c rest := by
  have hne : ∀ b, isDigitByte b = false → c ≠ b := by
    rintro b hb rfl
    simp [hb] at hc
  rw [nextSequence, if_neg (hne _ (by decide)), if_neg (hne _ (by decide)), if_neg (hne _ (by decide)),
    if_neg (hne _ (by decide)), if_pos hc]

def pieces (m : Match) : Bytes → List (UInt8 ⊕ Sequence)
  | [] => []
  | [b] => [.inl b]
  | b :: c :: rest =>
    if b = byteOf '$' then .inr (nextSequence m c rest).1 :: pieces m (nextSequence m c rest).2
    else .inl b :: pieces m (c :: rest)
termination_by t => t.length
decreasing_by
  · have := (nextSequence_suffix m c rest).length_le
    simp
    omega
  · simp

def expandWith (f : Sequence → Except Failure Bytes) : List (UInt8 ⊕ Sequence) → Except Failure Bytes
  | [] => .ok []
  | .inl b :: ps => do
    let result ← expandWith f ps
    return b :: result
  | .inr q :: ps => do
    let piece ← f q
    let result ← expandWith f ps
    return piece ++ result

def nameText (m : Match) (key : Bytes) : Except Failure Bytes :=
  match m.groups.bind fun groups => groups.getField key with
  | some capture => .ok capture
  | none => .error (.raised (bytesOf "invalid capture name: " ++ key))

def codeOf (m : Match) (str : Bytes) : Sequence → Except Failure Bytes
  | .dollar => .ok [byteOf '$']
  | .matched => .ok m.whole
  | .before => .ok (str.take m.index)
  | .after => .ok (str.drop (m.index - 1 + m.whole.length))
  | .group text => .ok text
  | .digits d e => .ok [byteOf '$', d, e]
  | .copy c next => .ok (byteOf '$' :: c :: next.toList)
  | .name key => nameText m key

def specOf (m : Match) (str : Bytes) : Sequence → Except Failure Bytes
  | .dollar => .ok [byteOf '$']
  | .matched => .ok m.whole
  | .before => .ok (str.take (m.index - 1))
  | .after => .ok (str.drop (m.index - 1 + m.whole.length))
  | .group text => .ok text
  | .digits d _ => .ok ((groupText m (d.toNat - 48)).getD [byteOf '$', d])
  | .copy c _ => .ok [byteOf '$', c]
  | .name key => nameText m key

lemma pieces_text (m : Match) {u : Bytes} (hu : byteOf '$' ∉ u) (t : Bytes) :
    pieces m (u ++ t) = u.map .inl ++ pieces m t := by
  induction u with
  | nil => rfl
  | cons b u ih =>
    have hb : b ≠ byteOf '$' := fun h => hu (by simp [h])
    have hrest := ih fun h => hu (by simp [h])
    cases hut : u ++ t with
    | nil =>
      obtain ⟨rfl, rfl⟩ := List.append_eq_nil_iff.mp hut
      simp [pieces]
    | cons x r => rw [List.cons_append, hut, pieces, if_neg hb, ← hut, hrest, List.map_cons, List.cons_append]

lemma expandWith_text (f : Sequence → Except Failure Bytes) (u : Bytes) (ps : List (UInt8 ⊕ Sequence)) :
    expandWith f (u.map .inl ++ ps) = (expandWith f ps).map (u ++ ·) := by
  induction u with
  | nil => cases h : expandWith f ps <;> simp [h, Except.map]
  | cons b u ih =>
    rw [List.map_cons, List.cons_append, expandWith, ih]
    cases expandWith f ps <;> rfl

lemma expandWith_congr {f g : Sequence → Except Failure Bytes} {ps : List (UInt8 ⊕ Sequence)}
    (h : ∀ q, .inr q ∈ ps → f q = g q) : expandWith f ps = expandWith g ps := by
  induction ps with
  | nil => rfl
  | cons x ps ih =>
    have hps := ih fun q hq => h q (by simp [hq])
    cases x with
    | inl b => rw [expandWith, expandWith, hps]
    | inr q => rw [expandWith, expandWith, hps, h q (by simp)]

end Sequences

section Loop

variable {s p q : Bytes} (hs : s = p ++ q)
include hs

lemma stringSub_append {i j : ℤ} {n : ℕ} (hi : i = p.length + 1) (hj : j = p.length + n) :
    stringSub s i j = q.take n := by
  rw [hs, hi, hj, stringSub_take (by simp)]
  simp

lemma stringFind_append {i : ℕ} (b : UInt8) (hi : i = p.length + 1) :
    stringFind s b i = (q.idxOf? b).map (· + i) := by
  simp [stringFind, hs, hi]

lemma isDigit_append {i : ℕ} (hi : i = p.length + 1) : isDigit s i = q.head?.any isDigitByte := by
  rw [hs, hi, isDigit, Nat.add_sub_cancel, List.getElem?_append_right le_rfl, Nat.sub_self,
    List.head?_eq_getElem?]
  rfl

omit hs in
lemma takeWhile_idxOf {b : UInt8} {k : ℕ} (h : q.idxOf? b = some k) :
    q.takeWhile (· ≠ b) = q.take k ∧ k < q.length := by
  induction q generalizing k with
  | nil => simp at h
  | cons x q ih =>
    rw [List.idxOf?_cons] at h
    by_cases hx : x = b
    · obtain rfl : 0 = k := by simpa [hx] using h
      simp [hx]
    · obtain ⟨j, hj, rfl⟩ : ∃ j, q.idxOf? b = some j ∧ j + 1 = k := by simpa [hx] using h
      obtain ⟨ht, hlt⟩ := ih hj
      simpa [hx, hlt] using ht

end Loop

section Loop

variable {m : Match} {str : Bytes}

lemma toNumber_one (c : UInt8) : toNumber [c] = c.toNat - 48 := by simp [toNumber]
lemma toNumber_two (c e : UInt8) : toNumber [c, e] = 10 * (c.toNat - 48) + (e.toNat - 48) := by
  simp [toNumber]

section

variable {p rest s : Bytes} {c : UInt8} {j0 : ℕ} (hs : s = p ++ byteOf '$' :: c :: rest) (hj : j0 = p.length + 1)
include hs hj

lemma stringSub_copy : stringSub s j0 (j0 + 2 : ℕ) = byteOf '$' :: c :: rest.head?.toList := by
  rw [stringSub_append hs (n := 3) (by omega) (by omega)]
  cases rest <;> simp

lemma groupDigits_eq :
    groupDigits s j0 [c] =
      match rest with
      | [] => ([c], false)
      | e :: _ => if isDigitByte e then ([c, e], true) else ([c], false) := by
  have hs₂ : s = (p ++ [byteOf '$', c]) ++ rest := by simp [hs]
  have hdig : isDigit s (j0 + 2) = rest.head?.any isDigitByte := isDigit_append hs₂ (by simp; omega)
  have hnext : stringSub s (j0 + 2 : ℕ) (j0 + 2 : ℕ) = rest.take 1 :=
    stringSub_append hs₂ (by simp; omega) (by simp; omega)
  rw [groupDigits, hdig, hnext]
  cases rest with
  | nil => simp
  | cons e rest =>
    have hlen : j0 + 2 ≤ s.length := by
      rw [hs₂]
      simp
      omega
    simp [hlen]

lemma substituteGroup_eq (hc : isDigitByte c = true) :
    (.ok (substituteGroup m s j0 (groupDigits s j0 [c])) : Except Failure (Bytes × ℕ)) =
      (codeOf m str (nextSequence m c rest).1).map fun piece =>
        (piece, j0 + 2 + (rest.length - (nextSequence m c rest).2.length)) := by
  have hcopy := stringSub_copy hs hj
  rw [nextSequence_digit m rest hc, groupDigits_eq hs hj]
  -- without a second digit the number is the digit `c` alone
  have hone : (.ok (substituteGroup m s j0 ([c], false)) : Except Failure (Bytes × ℕ)) =
      (codeOf m str (singleDigit m c rest)).map fun piece => (piece, j0 + 2) := by
    simp only [substituteGroup, Bool.false_eq_true, false_and, if_false]
    rw [toNumber_one, hcopy, singleDigit, groupText]
    cases (if c.toNat - 48 ≥ 1 then m.captures[c.toNat - 48]? else none) <;> rfl
  cases rest with
  | nil => simpa [nextGroup] using hone
  | cons e rest =>
    by_cases he : isDigitByte e = true
    · simp only [he, if_true, substituteGroup, toNumber_two, nextGroup, groupText]
      generalize 10 * (c.toNat - 48) + (e.toNat - 48) = n
      by_cases hn : n ≥ 1
      · cases ht : m.captures[n]? with
        | none =>
          simp only [hn, Option.isSome_none, Bool.false_eq_true, and_false, if_false, if_true]
          rw [hcopy]
          simp [codeOf, Except.map]
        | some text => simp [hn, codeOf, Except.map]
      · simp only [hn, false_and, and_false, if_false]
        rw [hcopy]
        simp [codeOf, Except.map]
    · simpa [nextGroup, he] using hone

lemma substituteName_eq {groups : Table Bytes} (hg : m.groups = some groups) (hc : c = byteOf '<') :
    substituteName groups s j0 = (codeOf m str (nextSequence m c rest).1).map fun piece =>
      (piece, j0 + 2 + (rest.length - (nextSequence m c rest).2.length)) := by
  have hs₂ : s = (p ++ [byteOf '$', c]) ++ rest := by simp [hs]
  have hcopy := stringSub_copy hs hj
  have hfind := stringFind_append hs₂ (i := j0 + 2) (byteOf '>') (by simp; omega)
  subst hc
  rw [nextSequence, if_neg (by decide), if_neg (by decide), if_neg (by decide), if_neg (by decide),
    if_neg (by decide)]
  cases hk : rest.idxOf? (byteOf '>') with
  | none =>
    have hmem : byteOf '>' ∉ rest := by simpa using hk
    rw [if_neg (by simp [hmem])]
    simp only [substituteName, hfind, hk, Option.map_none, hcopy, codeOf, Except.map, Nat.sub_self,
      Nat.add_zero]
  | some k =>
    have hmem : byteOf '>' ∈ rest := by
      by_contra hn
      simp [List.idxOf?_eq_none_iff.mpr hn] at hk
    obtain ⟨htake, hlt⟩ := takeWhile_idxOf hk
    have hname : stringSub s (j0 + 2 : ℕ) (k + (j0 + 2) - 1 : ℕ) = rest.take k :=
      stringSub_append hs₂ (by simp; omega) (by simp; omega)
    rw [if_pos ⟨rfl, by simp [hg], hmem⟩]
    simp only [substituteName, hfind, hk, Option.map_some, hname, codeOf, nameText, hg, Option.bind_some,
      htake]
    have hlen : k + (j0 + 2) + 1 = j0 + 2 + (rest.length - (rest.drop ((rest.take k).length + 1)).length) := by
      simp only [List.length_drop, List.length_take]
      omega
    cases groups.getField (rest.take k) with
    | none => rfl
    | some capture => simp only [Except.map, hlen]

lemma substitute_eq (str : Bytes) (hi : 1 ≤ m.index) :
    substitute m str s j0 = (codeOf m str (nextSequence m c rest).1).map fun piece =>
      (piece, j0 + 2 + (rest.length - (nextSequence m c rest).2.length)) := by
  have hs₁ : s = (p ++ [byteOf '$']) ++ c :: rest := by simp [hs]
  have hc : stringSub s (j0 + 1) (j0 + 1) = [c] :=
    stringSub_append hs₁ (n := 1) (by simp; omega) (by simp; omega)
  have hone : ∀ b : UInt8, [c] = [b] ↔ c = b := by simp
  have hdig : isDigit [c] 1 = isDigitByte c := by simp [isDigit, isDigitByte]
  simp only [substitute, hc, hone, hdig]
  by_cases h₁ : c = byteOf '$'
  · simp [nextSequence, h₁, codeOf, Except.map]
  by_cases h₂ : c = byteOf '&'
  · subst h₂
    rw [if_neg h₁, if_pos rfl, nextSequence, if_neg h₁, if_pos rfl]
    simp [codeOf, Except.map]
  by_cases h₃ : c = 0x60
  · subst h₃
    have hsub : stringSub str 1 m.index = str.take m.index :=
      stringSub_append (p := []) rfl (by simp) (by simp)
    rw [if_neg h₁, if_neg h₂, if_pos rfl, nextSequence, if_neg h₁, if_neg h₂, if_pos rfl, hsub]
    simp [codeOf, Except.map]
  by_cases h₄ : c = 0x27
  · subst h₄
    have hsub : stringSub str (m.index + m.whole.length) (-1) = str.drop (m.index - 1 + m.whole.length) := by
      rw [← stringSub_suffix]
      congr 1
      omega
    rw [if_neg h₁, if_neg h₂, if_neg h₃, if_pos rfl, nextSequence, if_neg h₁, if_neg h₂, if_neg h₃,
      if_pos rfl, hsub]
    simp [codeOf, Except.map]
  by_cases h₅ : isDigitByte c = true
  · rw [if_neg h₁, if_neg h₂, if_neg h₃, if_neg h₄, if_pos h₅]
    exact substituteGroup_eq hs hj h₅
  rw [if_neg h₁, if_neg h₂, if_neg h₃, if_neg h₄, if_neg h₅]
  have hcopied (hn : ¬ (c = byteOf '<' ∧ m.groups.isSome = true ∧ byteOf '>' ∈ rest)) :
      .ok (stringSub s j0 (j0 + 2 : ℕ), j0 + 2) = (codeOf m str (nextSequence m c rest).1).map fun piece =>
        (piece, j0 + 2 + (rest.length - (nextSequence m c rest).2.length)) := by
    rw [nextSequence, if_neg h₁, if_neg h₂, if_neg h₃, if_neg h₄, if_neg h₅, if_neg hn, stringSub_copy hs hj]
    simp [codeOf, Except.map]
  by_cases h₆ : c = byteOf '<'
  · rw [if_pos h₆]
    cases hg : m.groups with
    | none => exact hcopied (by simp [hg])
    | some groups => exact substituteName_eq hs hj hg h₆
  · rw [if_neg h₆]
    exact hcopied (by simp [h₆])

end

lemma pieces_dollar (c : UInt8) (rest : Bytes) :
    pieces m (byteOf '$' :: c :: rest) =
      .inr (nextSequence m c rest).1 :: pieces m (nextSequence m c rest).2 := by
  rw [pieces, if_pos rfl]

lemma append_of_idxOf {b : UInt8} {t : Bytes} {k : ℕ} (h : t.idxOf? b = some k) :
    ∃ u v, t = u ++ b :: v ∧ b ∉ u ∧ u.length = k := by
  induction t generalizing k with
  | nil => simp at h
  | cons x t ih =>
    rw [List.idxOf?_cons] at h
    by_cases hx : x = b
    · obtain rfl : 0 = k := by simpa [hx] using h
      exact ⟨[], t, by simp [hx], by simp, rfl⟩
    · obtain ⟨j, hj, rfl⟩ : ∃ j, t.idxOf? b = some j ∧ j + 1 = k := by simpa [hx] using h
      obtain ⟨u, v, rfl, hu, rfl⟩ := ih hj
      exact ⟨x :: u, v, rfl, by simp [hu, Ne.symm hx], rfl⟩

lemma run_substitutionStep (str : Bytes) (hi : 1 ≤ m.index) {s p t : Bytes} (hs : s = p ++ t) {n : ℕ}
    (hn : t.length < n) (result : List Bytes) :
    run (substitutionStep m str s) n ⟨p.length + 1, result⟩ =
      some ((expandWith (codeOf m str) (pieces m t)).map (result.flatten ++ ·)) := by
  induction n generalizing p t result with
  | zero => omega
  | succ n ih =>
    have hfind := stringFind_append hs (i := p.length + 1) (byteOf '$') rfl
    have hrest : stringSub s (p.length + 1 : ℕ) (-1) = t := by
      have := stringSub_suffix s p.length
      push_cast
      rw [this, hs, List.drop_left]
    have hfinish (u : Bytes) (hu : t = u) (hp : pieces m t = u.map .inl) :
        some (Except.ok (result ++ [stringSub s (p.length + 1 : ℕ) (-1)]).flatten) =
          some ((expandWith (codeOf m str) (pieces m t)).map (result.flatten ++ ·)) := by
      have htext := expandWith_text (codeOf m str) u []
      rw [List.append_nil] at htext
      rw [hp, htext, hrest, hu]
      simp [expandWith, Except.map]
    cases hk : t.idxOf? (byteOf '$') with
    | none =>
      have hmem : byteOf '$' ∉ t := by simpa using hk
      have hp := pieces_text m hmem []
      rw [List.append_nil, pieces, List.append_nil] at hp
      simp only [run, substitutionStep, hfind, hk, Option.map_none]
      exact hfinish t rfl hp
    | some k =>
      obtain ⟨u, v, rfl, hu, rfl⟩ := append_of_idxOf hk
      have hpos : u.length + (p.length + 1) = (p ++ u).length + 1 := by
        simp
        omega
      cases v with
      | nil =>
        have hlong : u.length + (p.length + 1) + 1 > s.length := by
          simp [hs]
          omega
        have hp := pieces_text m hu [byteOf '$']
        simp only [run, substitutionStep, hfind, hk, Option.map_some, if_pos hlong]
        refine hfinish (u ++ [byteOf '$']) rfl ?_
        rw [hp]
        simp [pieces]
      | cons c rest =>
        have hshort : ¬ u.length + (p.length + 1) + 1 > s.length := by
          simp [hs]
          omega
        have hs' : s = (p ++ u) ++ byteOf '$' :: c :: rest := by simp [hs]
        have hsub := substitute_eq hs' hpos str hi
        have htext : stringSub s (p.length + 1 : ℕ) ((u.length + (p.length + 1) : ℕ) - 1) = u := by
          rw [stringSub_append hs (n := u.length) (by simp) (by push_cast; ring)]
          simp
        obtain ⟨w, hw⟩ := nextSequence_suffix m c rest
        simp only [run, substitutionStep, hfind, hk, Option.map_some, if_neg hshort, hsub]
        rw [pieces_text m hu, pieces_dollar, expandWith_text, expandWith]
        cases hq : codeOf m str (nextSequence m c rest).1 with
        | error e => rfl
        | ok piece =>
          generalize (nextSequence m c rest).2 = r at hw
          have hj : u.length + (p.length + 1) + 2 + (rest.length - r.length) =
              (p ++ u ++ byteOf '$' :: c :: w).length + 1 := by
            simp [← hw]
            omega
          have hlen : r.length < n := by
            simp [← hw] at hn
            omega
          have hrun := ih (p := p ++ u ++ byteOf '$' :: c :: w) (t := r) (by simp [hs, hw]) hlen
            (result ++ [u, piece])
          simp only [Except.map, htext, hj]
          rw [hrun]
          cases expandWith (codeOf m str) (pieces m r) with
          | error e => rfl
          | ok x => simp [Except.map, bind, Except.bind, pure, Except.pure]

theorem getSubstitution_eq (hi : 1 ≤ m.index) (replacement : Bytes) :
    getSubstitution m str replacement = expandWith (codeOf m str) (pieces m replacement) := by
  have h := run_substitutionStep (m := m) str hi (s := replacement) (p := []) rfl
    (Nat.lt_succ_self _) []
  rw [getSubstitution]
  simp only [List.length_nil, Nat.zero_add] at h
  rw [h]
  cases expandWith (codeOf m str) (pieces m replacement) with
  | error e => rfl
  | ok x => simp [Except.map]

lemma expandWith_error {f : Sequence → Except Failure Bytes} {ps : List (UInt8 ⊕ Sequence)} {e : Failure}
    (h : expandWith f ps = .error e) : ∃ q, f q = .error e := by
  induction ps with
  | nil => cases h
  | cons p ps ih =>
    cases p with
    | inl b =>
      rcases except_bind_error_iff.mp h with h | ⟨_, -, h⟩
      · exact ih h
      · cases h
    | inr q =>
      rcases except_bind_error_iff.mp h with h | ⟨_, -, h⟩
      · exact ⟨q, h⟩
      rcases except_bind_error_iff.mp h with h | ⟨_, -, h⟩
      · exact ih h
      · cases h

lemma getSubstitution_error (hi : 1 ≤ m.index) {replacement : Bytes} {e : Failure}
    (h : getSubstitution m str replacement = .error e) : ∃ msg, e = .raised msg := by
  rw [getSubstitution_eq hi] at h
  obtain ⟨q, hq⟩ := expandWith_error h
  cases q with
  | name key =>
    rw [codeOf, nameText] at hq
    split at hq
    · cases hq
    · exact ⟨_, (Except.error.inj hq).symm⟩
  | _ => cases hq

end Loop

section Spec

variable {m : Match} {str : Bytes}

lemma getSubstitutionSpec_text {b : UInt8} (hb : b ≠ byteOf '$') (t : Bytes) :
    getSubstitutionSpec m str (b :: t) = (getSubstitutionSpec m str t).map (b :: ·) := by
  cases t with
  | nil => simp [getSubstitutionSpec, Except.map]
  | cons c rest =>
    rw [getSubstitutionSpec, if_neg hb]
    cases getSubstitutionSpec m str (c :: rest) <;> rfl

lemma groupText_eq (hc : 0 < m.captures.length) (k : ℕ) :
    groupText m k = if 1 ≤ k ∧ k ≤ m.captures.length - 1 then some (m.captures.getD k []) else none := by
  rw [groupText]
  by_cases hk : k ≥ 1
  · by_cases hlt : k < m.captures.length
    · rw [if_pos hk, if_pos ⟨hk, by omega⟩, List.getElem?_eq_getElem hlt, List.getD_eq_getElem _ _ hlt]
    · rw [if_pos hk, if_neg (by omega), List.getElem?_eq_none (by omega)]
  · rw [if_neg hk, if_neg (by omega)]

lemma groupReference_eq (hc : 0 < m.captures.length) (digits : Bytes) :
    groupReference m digits =
      (digits.length + 1, (groupText m (toNumber digits)).getD (byteOf '$' :: digits)) := by
  rw [groupReference, groupText_eq hc]
  split_ifs <;> rfl

lemma getSubstitutionSpec_digit (hc : 0 < m.captures.length) (c : UInt8) (rest : Bytes) :
    (do let result ← getSubstitutionSpec m str ((c :: rest).drop ((digitReference m c rest).1 - 1))
        return (digitReference m c rest).2 ++ result) = do
      let ref ← specOf m str (nextGroup m c rest).1
      let result ← getSubstitutionSpec m str (nextGroup m c rest).2
      return ref ++ result := by
  have hone : groupReference m [c] = (2, (groupText m (c.toNat - 48)).getD [byteOf '$', c]) := by
    rw [groupReference_eq hc, toNumber_one]
    rfl
  have hsingle : specOf m str (singleDigit m c rest) =
      .ok ((groupText m (c.toNat - 48)).getD [byteOf '$', c]) := by
    rw [singleDigit]
    cases groupText m (c.toNat - 48) <;> rfl
  cases rest with
  | nil =>
    simp only [digitReference, hone, nextGroup, hsingle]
    rfl
  | cons e rest =>
    by_cases he : isDigitByte e = true
    · have hne : e ≠ byteOf '$' := by
        rintro rfl
        exact absurd he (by decide)
      simp only [digitReference, nextGroup, he, if_true, true_and, hone, groupReference_eq hc, toNumber_two]
      generalize hn : 10 * (c.toNat - 48) + (e.toNat - 48) = n
      by_cases hle : n ≤ m.captures.length - 1
      · rw [if_pos hle]
        by_cases hpos : 1 ≤ n
        · have ht : groupText m n = some (m.captures.getD n []) := by
            rw [groupText_eq hc, if_pos ⟨hpos, hle⟩]
          simp only [ht, specOf]
          rfl
        · have ht : groupText m n = none := by rw [groupText, if_neg hpos]
          have hc0 : groupText m (c.toNat - 48) = none := by rw [groupText, if_neg (by omega)]
          simp only [ht, specOf, hc0, getSubstitutionSpec_text hne]
          cases h : getSubstitutionSpec m str rest <;>
            simp [h, bind, Except.bind, pure, Except.pure, Except.map]
      · have ht : groupText m n = none := by rw [groupText_eq hc, if_neg (by omega)]
        rw [if_neg hle]
        simp only [ht, specOf]
        rfl
    · simp only [digitReference, nextGroup, he, Bool.false_eq_true, false_and, if_false, hone, hsingle]
      rfl

lemma getSubstitutionSpec_dollar (hc : 0 < m.captures.length) (c : UInt8) (rest : Bytes) :
    getSubstitutionSpec m str (byteOf '$' :: c :: rest) = do
      let ref ← specOf m str (nextSequence m c rest).1
      let result ← getSubstitutionSpec m str (nextSequence m c rest).2
      return ref ++ result := by
  rw [getSubstitutionSpec, if_pos rfl]
  by_cases h₁ : c = byteOf '$'
  · rw [refReplacement, if_pos h₁, nextSequence, if_pos h₁]
    rfl
  by_cases h₂ : c = byteOf '&'
  · rw [refReplacement, if_neg h₁, if_neg (by simp [h₂, byteOf]), if_pos h₂, nextSequence, if_neg h₁, if_pos h₂]
    rfl
  by_cases h₃ : c = 0x60
  · rw [refReplacement, if_neg h₁, if_pos h₃, nextSequence, if_neg h₁, if_neg h₂, if_pos h₃]
    rfl
  by_cases h₄ : c = 0x27
  · rw [refReplacement, if_neg h₁, if_neg h₃, if_neg h₂, if_pos h₄, nextSequence, if_neg h₁, if_neg h₂,
      if_neg h₃, if_pos h₄]
    have hdrop : str.drop (min (m.index - 1 + m.whole.length) str.length) =
        str.drop (m.index - 1 + m.whole.length) := by
      rcases Nat.le_total (m.index - 1 + m.whole.length) str.length with h | h
      · rw [Nat.min_eq_left h]
      · rw [Nat.min_eq_right h, List.drop_length, List.drop_eq_nil_of_le h]
    simp only [hdrop]
    rfl
  by_cases h₅ : isDigitByte c = true
  · rw [refReplacement, if_neg h₁, if_neg h₃, if_neg h₂, if_neg h₄, if_pos h₅, nextSequence_digit m rest h₅]
    exact getSubstitutionSpec_digit hc c rest
  by_cases h₆ : c = byteOf '<'
  · rw [refReplacement, if_neg h₁, if_neg h₃, if_neg h₂, if_neg h₄, if_neg h₅, if_pos h₆, nextSequence,
      if_neg h₁, if_neg h₂, if_neg h₃, if_neg h₄, if_neg h₅, nameReference]
    cases hg : m.groups with
    | none =>
      rw [if_neg (by simp)]
      simp only [specOf, h₆]
      rfl
    | some groups =>
      by_cases hmem : byteOf '>' ∈ rest
      · rw [if_pos ⟨h₆, rfl, hmem⟩]
        simp only [hmem, if_true, specOf, nameText, hg, Option.bind_some]
        cases groups.getField (rest.takeWhile (· ≠ byteOf '>')) <;> rfl
      · rw [if_neg (by simp [hmem])]
        simp only [hmem, if_false, specOf, h₆]
        rfl
  · rw [refReplacement, if_neg h₁, if_neg h₃, if_neg h₂, if_neg h₄, if_neg h₅, if_neg h₆, nextSequence,
      if_neg h₁, if_neg h₂, if_neg h₃, if_neg h₄, if_neg h₅, if_neg (by simp [h₆])]
    simp only [Nat.sub_self, List.drop_zero, getSubstitutionSpec_text h₁, specOf]
    cases getSubstitutionSpec m str rest <;> rfl

theorem getSubstitutionSpec_eq (hc : 0 < m.captures.length) (t : Bytes) :
    getSubstitutionSpec m str t = expandWith (specOf m str) (pieces m t) := by
  induction hn : t.length using Nat.strong_induction_on generalizing t with
  | _ n ih =>
    match t with
    | [] => rw [getSubstitutionSpec, pieces, expandWith]
    | [b] => rw [getSubstitutionSpec, pieces, expandWith, expandWith]; rfl
    | b :: c :: rest =>
      by_cases hb : b = byteOf '$'
      · subst hb
        have hlen := (nextSequence_suffix m c rest).length_le
        have hr := ih (nextSequence m c rest).2.length (by simp at hn; omega) _ rfl
        rw [getSubstitutionSpec_dollar hc, pieces_dollar, expandWith, hr]
      · have hr := ih (c :: rest).length (by simp at hn; simp; omega) _ rfl
        rw [getSubstitutionSpec_text hb, pieces, if_neg hb, expandWith, hr]
        cases expandWith (specOf m str) (pieces m (c :: rest)) <;> rfl

end Spec

section Correctness

structure Substitutes (m : Match) (str replacement : Bytes) : Prop where
  result : getSubstitution m str replacement = getSubstitutionSpec m str replacement
  sequences : ∀ q, .inr q ∈ pieces m replacement → codeOf m str q = specOf m str q

/-- A sequence that the loop expands as it should: the part before the match is asked for only at the end
of the subject, two digits that are no group only where the group of the first was `$` and the two, and
a character stands for itself only at the end of the template. -/
def Sequence.Clean (m : Match) (str : Bytes) : Sequence → Prop
  | .before => str.length < m.index
  | .digits d e => groupText m (d.toNat - 48) = some [byteOf '$', d, e]
  | .copy _ next => next = none
  | _ => True

variable {m : Match} {str : Bytes}

lemma codeOf_eq_iff (hi : 1 ≤ m.index) (q : Sequence) : codeOf m str q = specOf m str q ↔ q.Clean m str := by
  cases q with
  | before =>
    simp only [codeOf, specOf, Sequence.Clean, Except.ok.injEq]
    constructor
    · intro h
      have hlen := congrArg List.length h
      simp only [List.length_take] at hlen
      omega
    · intro h
      rw [List.take_of_length_le (by omega), List.take_of_length_le (by omega)]
  | digits d e =>
    simp only [codeOf, specOf, Sequence.Clean, Except.ok.injEq]
    cases groupText m (d.toNat - 48) with
    | none => simp
    | some text => simp [eq_comm]
  | copy c next =>
    simp only [codeOf, specOf, Sequence.Clean, Except.ok.injEq]
    cases next <;> simp
  | _ => simp [codeOf, specOf, Sequence.Clean]

lemma substitutes_iff (hi : 1 ≤ m.index) (hc : 0 < m.captures.length) (replacement : Bytes) :
    Substitutes m str replacement ↔ ∀ q, .inr q ∈ pieces m replacement → q.Clean m str := by
  constructor
  · intro h q hq
    exact (codeOf_eq_iff hi q).mp (h.sequences q hq)
  · intro h
    have hseq : ∀ q, .inr q ∈ pieces m replacement → codeOf m str q = specOf m str q :=
      fun q hq => (codeOf_eq_iff hi q).mpr (h q hq)
    exact ⟨by rw [getSubstitution_eq hi, getSubstitutionSpec_eq hc, expandWith_congr hseq], hseq⟩

variable {lreExec : Engine} {re : RegExp} {addr : ℕ} {js : JsString}

theorem getSubstitution_correct_iff (hl : lreExec.Captures re.bc) (hcc : 0 < re.bc.captureCount)
    (hjs : jsstringNew addr str = .ok js) (hm : (regexpExec lreExec re js).result = .ok (some m))
    (replacement : Bytes) :
    Substitutes m str replacement ↔ ∀ q, .inr q ∈ pieces m replacement → q.Clean m str := by
  obtain ⟨-, capture, hc⟩ := call_of_some hm
  have hb := buildMatch_of_some hm hc
  obtain ⟨s, e, h₀, -⟩ := (hl.call hc).whole
  have hcl := buildMatch_length hb
  exact substitutes_iff (buildMatch_index_pos (jsstringNew_indices hjs) hb h₀) (by omega) replacement

def abText : JsString := ⟨false, 2, bytesOf "ab", 2, [], [], [0x61, 0x62], 16⟩

lemma abText_eq : jsstringNew 16 (bytesOf "ab") = .ok abText := by rfl

def matchB : Match := ⟨bytesOf "ab", 1, 2, [bytesOf "b"], none, none⟩

lemma matchB_eq : (regexpExec dotExec (dotRe 1) abText).result = .ok (some matchB) := by rfl

theorem getSubstitution_amp : Substitutes matchB (bytesOf "ab") (bytesOf "[$&]") := by
  refine (getSubstitution_correct_iff (dotExec_captures _) (by decide) abText_eq matchB_eq _).mpr ?_
  intro q hq
  have hp : pieces matchB (bytesOf "[$&]") = [.inl 0x5b, .inr .matched, .inl 0x5d] := by
    simp [pieces, bytesOf, nextSequence, byteOf]
  rw [hp] at hq
  simp at hq
  subst hq
  trivial

theorem getSubstitution_before_wrong :
    (regexpExec dotExec (dotRe 1) abText).result = .ok (some matchB) ∧
      getSubstitution matchB (bytesOf "ab") (bytesOf "[$`]") = .ok (bytesOf "[ab]") ∧
      getSubstitutionSpec matchB (bytesOf "ab") (bytesOf "[$`]") = .ok (bytesOf "[a]") ∧
      ¬ Substitutes matchB (bytesOf "ab") (bytesOf "[$`]") := by
  have hcode : getSubstitution matchB (bytesOf "ab") (bytesOf "[$`]") = .ok (bytesOf "[ab]") := by rfl
  have hspec : getSubstitutionSpec matchB (bytesOf "ab") (bytesOf "[$`]") = .ok (bytesOf "[a]") := by
    simp [getSubstitutionSpec, bytesOf, refReplacement, byteOf, matchB, bind, Except.bind, pure, Except.pure]
  refine ⟨matchB_eq, hcode, hspec, fun h => ?_⟩
  have := h.result
  rw [hcode, hspec] at this
  exact absurd (Except.ok.inj this) (by decide)

example : getSubstitution matchB (bytesOf "ab") (bytesOf "$x!") = .ok (bytesOf "$x!!") := by rfl

end Correctness

end Jsregexp
