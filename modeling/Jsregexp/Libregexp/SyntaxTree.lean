import Jsregexp.Libregexp.ClassSets
import Jsregexp.Libregexp.CompileSpec
import Jsregexp.Libregexp.Grammar

/-! The syntax tree behind the code of a pattern. The parser writes no tree down; its code is that of one, and the
groups it has counted are those of the tree. -/

namespace Jsregexp

open Library.Iteration Library.Fallible

section Emit

variable (s : REParseState)

lemma slotFree_emitChar (c : ℕ) : (reEmitChar s c).SlotFree := by
  rw [reEmitChar]
  split <;> exact ⟨rfl, rfl⟩

lemma slotFree_emitStrings {rest : List Op} {last : Bool} (hrest : SlotFreeCode rest) (strs : List (List ℕ)) :
    SlotFreeCode (emitStrings s rest last strs) := by
  have hchars (str : List ℕ) : SlotFreeCode (str.map (reEmitChar s)) := by
    intro op hop
    obtain ⟨c, -, rfl⟩ := List.mem_map.mp hop
    exact slotFree_emitChar s c
  induction strs with
  | nil => exact hrest
  | cons str strs ih =>
    rw [emitStrings]
    split
    · exact hchars str
    · exact ((hchars str).append (ih.cons ⟨rfl, rfl⟩)).cons ⟨rfl, rfl⟩

def OneChar (code : List Op) : Prop := ∃ op : Op, code = [op] ∧ op.SlotFree ∧ op.IsChar

lemma OneChar.slotFree {code : List Op} (h : OneChar code) : SlotFreeCode code := by
  obtain ⟨op, rfl, hfree, -⟩ := h
  exact slotFree_single hfree

lemma oneChar_emitChar (c : ℕ) : OneChar [reEmitChar s c] := by
  refine ⟨_, rfl, slotFree_emitChar s c, ?_⟩
  rw [reEmitChar]
  split <;> trivial

lemma reEmitRange_oneChar (cr : List ℕ) : OnSuccess OneChar (reEmitRange s cr) := by
  rw [reEmitRange]
  split
  · trivial
  split
  · exact ⟨_, rfl, ⟨rfl, rfl⟩, trivial⟩
  · dsimp only
    split <;> split <;> exact ⟨_, rfl, ⟨rfl, rfl⟩, trivial⟩

lemma reEmitStringList_slotFree (U : Libunicode) (sl : REStringList) :
    OnSuccess (fun code => SlotFreeCode code ∧ (sl.strings = [] → OneChar code)) (reEmitStringList s U sl) := by
  have hrange (rest : List Op) (hrest : SlotFreeCode rest) (empty : Bool) :
      SlotFreeCode (if empty = true then Op.split true (codeSize rest) :: rest else rest) := by
    split
    · exact hrest.cons ⟨rfl, rfl⟩
    · exact hrest
  rw [reEmitStringList]
  split
  · exact (reEmitRange_oneChar s _).mono fun code hcode => ⟨hcode.slotFree, fun _ => hcode⟩
  · next hstrings =>
    dsimp only
    split
    · exact ⟨slotFree_emitStrings s (hrange [] slotFree_nil _) _, fun h => absurd h hstrings⟩
    · apply (reEmitRange_oneChar s _).bind
      exact fun rest hrest => ⟨slotFree_emitStrings s (hrange rest hrest.slotFree _) _, fun h => absurd h hstrings⟩

end Emit

section Sets

variable (U : Libunicode) (s : REParseState)

lemma propertySet_strings (name value : Bytes) (isInv : Bool) :
    OnSuccess (fun a => s.unicodeSets = false → a.strings = []) (propertySet U name value isInv s.unicodeSets) := by
  have hknown (cr : Option (List ℕ)) (msg : String) :
      OnSuccess (fun a => s.unicodeSets = false → a.strings = []) (knownSet cr msg) := by
    cases cr with
    | none => trivial
    | some cr => exact fun _ => rfl
  rw [propertySet]
  split
  · exact hknown _ _
  split
  · exact hknown _ _
  split
  · exact hknown _ _
  split
  · split
    · exact fun _ => rfl
    · next cr _ =>
      cases hsets : s.unicodeSets with
      | false =>
        rw [if_neg (by simp)]
        trivial
      | true => split <;> first | exact fun h => absurd h Bool.noConfusion | trivial
  · trivial

lemma noStrings_closed : SetClosed U s fun a => s.unicodeSets = false → a.strings = [] where
  init := fun _ => rfl
  classes := fun _ _ => rfl
  property := propertySet_strings U s
  canonicalize := fun a ha hs => by rw [reStringListCanonicalize, ha hs, List.foldl_nil]
  invert := fun _ ha => ha
  op := fun a b op ha hb hs => by
    cases op <;> simp [reStringListOp, ha hs, hb hs]
  char := fun _ _ ha _ => ha
  range := fun a c1 c2 ha _ _ hs => by
    rw [classRange]
    split <;> exact ha hs
  strings := fun hs p => by
    cases parseClassStringDisjunction U s p with
    | error e => trivial
    | ok r => exact fun h => absurd (hs.symm.trans h) Bool.noConfusion

end Sets

structure TreeOf (isBackwardDir : Bool) (s t : REParseState) (code : List Op) (tree : RegexpTree) : Prop where
  code : code = tree.code s.captureCount
  count : t.captureCount = s.captureCount + tree.groups
  sets : t.unicodeSets = s.unicodeSets
  directed : s.unicodeSets = false → tree.Directed isBackwardDir

structure SameGroups (s t : REParseState) : Prop where
  count : t.captureCount = s.captureCount
  sets : t.unicodeSets = s.unicodeSets

structure AtomTree (isBackwardDir : Bool) (s : REParseState) (atom : TermAtom) : Prop where
  slotFree : SlotFreeCode atom.code
  directed : s.unicodeSets = false → AtomCode isBackwardDir atom.code
  same : SameGroups s atom.s
  last : atom.lastAtomStart = true → atom.lastCaptureCount = s.captureCount

section Term

variable (U : Libunicode) (s : REParseState) {isBackwardDir : Bool}

lemma AtomTree.of_same {s t : REParseState} {atom : TermAtom} (h : SameGroups s t)
    (ha : AtomTree isBackwardDir t atom) : AtomTree isBackwardDir s atom :=
  ⟨ha.slotFree, fun hs => ha.directed (h.sets.trans hs), ⟨ha.same.count.trans h.count, ha.same.sets.trans h.sets⟩,
    fun hlast => (ha.last hlast).trans h.count⟩

lemma plainAtom_tree {code : List Op} (hcode : SlotFreeCode code)
    (hdir : s.unicodeSets = false → AtomCode isBackwardDir code) (p : Bytes) :
    AtomTree isBackwardDir s (plainAtom code p s) :=
  ⟨hcode, hdir, ⟨rfl, rfl⟩, fun _ => rfl⟩

lemma oneChar_tree {code : List Op} (hcode : SlotFreeCode code) (hone : s.unicodeSets = false → OneChar code)
    (p : Bytes) : AtomTree isBackwardDir s (plainAtom (directed isBackwardDir code) p s) := by
  apply plainAtom_tree s (hcode.directed isBackwardDir)
  intro hs
  obtain ⟨op, rfl, -, hchar⟩ := hone hs
  exact .char hchar

lemma OneChar.tree {code : List Op} (hone : OneChar code) (p : Bytes) :
    AtomTree isBackwardDir s (plainAtom (directed isBackwardDir code) p s) :=
  oneChar_tree s hone.slotFree (fun _ => hone) p

lemma reference_tree (ignoreCase : Bool) (groups : List ℕ) (p : Bytes) :
    AtomTree isBackwardDir s (plainAtom [.backReference isBackwardDir ignoreCase groups] p s) :=
  plainAtom_tree s (slotFree_single ⟨rfl, rfl⟩) (fun _ => .reference ignoreCase groups) p

lemma charAtom_tree {atom : ClassAtom} (hset : AtomSet (fun a => s.unicodeSets = false → a.strings = []) atom) :
    OnSuccess (AtomTree isBackwardDir s) (charAtom U s isBackwardDir atom) := by
  have hspace (isNot : Bool) : OneChar [.space isNot] := ⟨_, rfl, ⟨rfl, rfl⟩, trivial⟩
  rw [charAtom]
  split
  · apply hset.set.bind
    intro cr hcr
    split
    · exact OneChar.tree s (hspace _) _
    split
    · exact OneChar.tree s (hspace _) _
    · apply (reEmitStringList_slotFree s U cr).bind
      exact fun code hcode => oneChar_tree s hcode.1 (fun hs => hcode.2 (hcr hs)) _
  · exact (oneChar_emitChar s _).tree s _

lemma classAtomTerm_tree (p : Bytes) : OnSuccess (AtomTree isBackwardDir s) (classAtomTerm U s isBackwardDir p) :=
  (getClassAtom_set (noStrings_closed U s) p false).bind fun _ ha => charAtom_tree U s ha

lemma reCountCaptures_same : SameGroups s (reCountCaptures U s).2 := by
  rw [reCountCaptures]
  split <;> exact ⟨rfl, rfl⟩

lemma reHasNamedCaptures_same : SameGroups s (reHasNamedCaptures U s).2 := by
  rw [reHasNamedCaptures]
  split
  · exact ⟨rfl, rfl⟩
  · exact reCountCaptures_same U s

lemma nulEscape_tree (p : Bytes) : OnSuccess (AtomTree isBackwardDir s) (nulEscape U s isBackwardDir p) := by
  rw [nulEscape]
  split
  · split
    · trivial
    · exact charAtom_tree U s (atomSet_none _ _)
  split
  · exact charAtom_tree U s (atomSet_none _ _)
  · dsimp only
    split <;> exact charAtom_tree U s (atomSet_none _ _)

lemma legacyOctal_set {P : REStringList → Prop} (q : Bytes) : AtomSet P (legacyOctal q) := by
  rw [legacyOctal]
  split
  · dsimp only
    split <;> split <;> first | exact atomSet_none _ _ | (split <;> exact atomSet_none _ _)
  · exact atomSet_none _ _

lemma decimalEscape_tree (q : Bytes) : OnSuccess (AtomTree isBackwardDir s) (decimalEscape U s isBackwardDir q) := by
  have hrange (t : REParseState) (ht : SameGroups s t) : OnSuccess (AtomTree isBackwardDir s)
      (if t.isUnicode then reParseError "back reference out of range in regular expression"
        else charAtom U t isBackwardDir (legacyOctal q)) := by
    split
    · trivial
    · exact (charAtom_tree U t (legacyOctal_set q)).mono fun _ => .of_same ht
  have ht := reCountCaptures_same U s
  rw [decimalEscape]
  cases parseDigits false 0 q with
  | none => exact hrange s ⟨rfl, rfl⟩
  | some r =>
    dsimp only
    split
    · exact reference_tree s _ _ _
    split
    · exact hrange _ ht
    · exact .of_same ht (reference_tree _ _ _ _)

lemma namedBackReference_tree (p : Bytes) :
    OnSuccess (AtomTree isBackwardDir s) (namedBackReference U s isBackwardDir p) := by
  have ht := reHasNamedCaptures_same U s
  have hfallback (t t' : REParseState) (ht' : SameGroups s t') (hasNamed : Bool) (msg : String) :
      OnSuccess (AtomTree isBackwardDir s) (if t.isUnicode then reParseError msg
        else if hasNamed then reParseError msg
        else classAtomTerm U t' isBackwardDir p) := by
    split
    · trivial
    split
    · trivial
    · exact (classAtomTerm_tree U t' p).mono fun _ => .of_same ht'
  rw [namedBackReference]
  generalize reHasNamedCaptures U s = r at ht
  obtain ⟨hasNamed, s'⟩ := r
  dsimp only at ht ⊢
  split
  · exact hfallback s s' ht hasNamed _
  · cases reParseGroupName U (p.drop 3) with
    | none => exact hfallback s s' ht hasNamed _
    | some r =>
      have hend (groups : List ℕ) : OnSuccess (AtomTree isBackwardDir s)
          (if groups = [] then
            if s.isUnicode then reParseError "group name not defined"
            else if hasNamed then reParseError "group name not defined"
            else classAtomTerm U { s' with u := r.1 } isBackwardDir p
          else .ok (plainAtom [.backReference isBackwardDir s.ignoreCase groups] r.2 { s with u := r.1 })) := by
        split
        · exact hfallback s { s' with u := r.1 } ⟨ht.count, ht.sets⟩ hasNamed "group name not defined"
        · exact .of_same (t := { s with u := r.1 }) ⟨rfl, rfl⟩ (reference_tree _ s.ignoreCase groups r.2)
      exact hend _

lemma assertion_tree {op : Op} (hop : op.IsPosition) (p : Bytes) :
    AtomTree isBackwardDir s ⟨[op], false, 0, p, s⟩ := by
  have hfree : op.SlotFree := by cases op <;> first | exact ⟨rfl, rfl⟩ | cases hop
  exact ⟨slotFree_single hfree, fun _ => .position hop, ⟨rfl, rfl⟩, fun h => by cases h⟩

lemma escapedAtom_tree (p : Bytes) : OnSuccess (AtomTree isBackwardDir s) (escapedAtom U s isBackwardDir p) := by
  rw [escapedAtom]
  split
  · refine assertion_tree s ?_ _
    trivial
  split
  · apply namedBackReference_tree
  split
  · apply nulEscape_tree
  split
  · apply decimalEscape_tree
  · apply classAtomTerm_tree

lemma bracketAtom_tree (p : Bytes) : OnSuccess (AtomTree isBackwardDir s) (bracketAtom U s isBackwardDir p) := by
  apply (reParseNestedClass_set (noStrings_closed U s) _ p).bind
  intro r hr
  apply (reEmitStringList_slotFree s U r.1).bind
  intro code hcode
  exact oneChar_tree s hcode.1 (fun hs => hcode.2 (hr hs)) r.2

end Term

section Group

variable (U : Libunicode)

def CodeTree (reads : REParseState → RegexpTree → REParseState → Prop) (isBackwardDir : Bool) (s : REParseState)
    (r : List Op × REParseState) : Prop :=
  ∃ tree, TreeOf isBackwardDir s r.2 r.1 tree ∧ reads s tree r.2

structure GroupTree (isBackwardDir : Bool) (s : REParseState) (atom : TermAtom) : Prop where
  tree : ∃ tree, TreeOf isBackwardDir s atom.s atom.code tree ∧
    ReadsAtom U isBackwardDir s tree atom.lastAtomStart { atom.s with bufPtr := atom.p }
  last : atom.lastAtomStart = true → atom.lastCaptureCount = s.captureCount

variable {U} {s : REParseState} {p : Bytes} {isBackwardDir : Bool}
variable {disjunction : Bool → REParseState → Except Failure (List Op × REParseState)}

lemma AtomTree.group {atom : TermAtom} (h : AtomTree isBackwardDir s atom)
    (hreads : ReadsAtom U isBackwardDir s (.atom atom.code h.slotFree) atom.lastAtomStart
      { atom.s with bufPtr := atom.p }) : GroupTree U isBackwardDir s atom :=
  ⟨⟨.atom atom.code h.slotFree, ⟨rfl, h.same.count, h.same.sets, fun hs => .atom h.slotFree (h.directed hs)⟩, hreads⟩,
    h.last⟩

lemma reParseExpect_text {c : Char} (hc : 0 < c.toNat ∧ c.toNat < 256) :
    OnSuccess (fun q => p = byteOf c :: q) (reParseExpect p c) := by
  cases h : reParseExpect p c with
  | error e => trivial
  | ok q => exact (reParseExpect_ok_iff hc).mp h

variable (hd : ∀ dir t, OnSuccess (CodeTree (ReadsDisjunction U dir) dir t) (disjunction dir t))
include hd

lemma groupBody_tree (dir : Bool) (t : REParseState) :
    OnSuccess (fun r => ∃ tree, TreeOf dir t r.2.1 r.1 tree ∧ ReadsDisjunction U dir { t with bufPtr := p } tree r.2.1 ∧
      r.2.1.bufPtr = byteOf ')' :: r.2.2) (groupBody disjunction p t dir) := by
  rw [groupBody]
  apply (hd dir { t with bufPtr := p }).bind
  rintro r ⟨tree, ⟨hcode, hcount, hsets, hdir⟩, hreads⟩
  apply (reParseExpect_text (by decide)).bind
  intro q hq
  exact ⟨tree, ⟨hcode, hcount, hsets, hdir⟩, hreads, hq⟩

lemma parseCapture_tree {t : REParseState} (ht : SameGroups s t)
    (hreads : ∀ tree s' q, ReadsDisjunction U isBackwardDir { t with captureCount := t.captureCount + 1, bufPtr := p }
      tree s' → s'.bufPtr = byteOf ')' :: q → ReadsAtom U isBackwardDir s (.capture isBackwardDir tree) true
        { s' with bufPtr := q }) :
    OnSuccess (GroupTree U isBackwardDir s) (parseCapture disjunction isBackwardDir p t) := by
  rw [parseCapture]
  split
  · trivial
  apply (hd isBackwardDir { t with captureCount := t.captureCount + 1, bufPtr := p }).bind
  rintro ⟨code, t'⟩ ⟨tree, ⟨hcode, hcount, hsets, hdir⟩, htree⟩
  dsimp only at hcode hcount hsets hdir htree
  subst hcode
  apply (reParseExpect_text (by decide)).bind
  intro q hq
  refine ⟨⟨.capture isBackwardDir tree, ⟨?_, ?_, hsets.trans ht.sets, fun hs => .capture (hdir (ht.sets.trans hs))⟩,
    hreads tree t' q htree hq⟩, fun _ => ht.count⟩
  · rw [← ht.count]
    cases isBackwardDir <;> rfl
  · rw [hcount, ht.count, RegexpTree.groups]
    omega

lemma namedGroup_tree (hp : s.bufPtr = bytesOf "(?<" ++ p) :
    OnSuccess (GroupTree U isBackwardDir s) (namedGroup U disjunction s isBackwardDir p) := by
  rw [namedGroup]
  cases hname : reParseGroupName U p with
  | none => trivial
  | some r =>
    dsimp only
    split
    · trivial
    · refine parseCapture_tree hd ?_ fun tree s' q htree hq => .named hp hname htree hq
      exact ⟨rfl, rfl⟩

lemma modifierGroup_tree (hp : s.bufPtr = bytesOf "(?" ++ p) :
    OnSuccess (GroupTree U isBackwardDir s) (modifierGroup disjunction s isBackwardDir p) := by
  have hgroup (add remove : ModifiersState) (hadd : reParseModifiers p = .ok add) (hremove :
      if peek add.p 0 = '-'.toNat then reParseModifiers add.p.tail = .ok remove else remove = ⟨add.p, 0⟩) :
      OnSuccess (GroupTree U isBackwardDir s) (modifiedGroup disjunction s isBackwardDir add remove) := by
    rw [modifiedGroup]
    split
    · trivial
    next hmask =>
    obtain ⟨hsome, hdisjoint⟩ := not_or.mp hmask
    apply (reParseExpect_text (by decide)).bind
    intro q hcolon
    apply (groupBody_tree hd isBackwardDir _).bind
    rintro ⟨code, t, q'⟩ ⟨tree, ⟨hcode, hcount, hsets, hdir⟩, htree, hq⟩
    have hreads : ReadsAtom U isBackwardDir s tree true { t with
        ignoreCase := s.ignoreCase, multiLine := s.multiLine, dotall := s.dotall, bufPtr := q' } :=
      .modified hp hadd hremove hsome (not_not.mp hdisjoint) hcolon htree hq
    exact ⟨⟨tree, ⟨hcode, hcount, hsets, hdir⟩, hreads⟩, fun _ => rfl⟩
  rw [modifierGroup]
  cases hadd : reParseModifiers p with
  | error e => trivial
  | ok add =>
    show OnSuccess _ (if peek add.p 0 = '-'.toNat then _ else _)
    split
    · next hminus =>
      cases hremove : reParseModifiers add.p.tail with
      | error e => trivial
      | ok remove => exact hgroup add remove hadd (by rwa [if_pos hminus])
    · next hminus => exact hgroup add ⟨add.p, 0⟩ hadd (by rw [if_neg hminus])

lemma lookahead_tree (isNeg isBackwardLookahead : Bool) (hp : s.bufPtr = bytesOf (if isBackwardLookahead then
    (if isNeg then "(?<!" else "(?<=") else if isNeg then "(?!" else "(?=") ++ p) :
    OnSuccess (GroupTree U isBackwardDir s) (lookahead disjunction s p isNeg isBackwardLookahead) := by
  rw [lookahead]
  apply (groupBody_tree hd isBackwardLookahead s).bind
  rintro ⟨code, t, q⟩ ⟨tree, ⟨hcode, hcount, hsets, hdir⟩, htree, hq⟩
  dsimp only at hcode
  subst hcode
  refine ⟨⟨.lookahead isNeg tree, ⟨rfl, hcount, hsets, fun hs => .lookahead (hdir hs)⟩, ?_⟩, fun _ => rfl⟩
  cases isBackwardLookahead with
  | false =>
    rw [if_neg Bool.false_ne_true] at hp
    have hreads : ReadsAtom U isBackwardDir s _ _ _ := .lookahead isNeg hp htree hq
    simpa using hreads
  | true =>
    rw [if_pos rfl] at hp
    have hreads : ReadsAtom U isBackwardDir s _ _ _ := .lookbehind isNeg hp htree hq
    simpa using hreads

lemma parenthesis_tree (hp : s.bufPtr = byteOf '(' :: p) :
    OnSuccess (GroupTree U isBackwardDir s) (parenthesis U disjunction s isBackwardDir (byteOf '(' :: p)) := by
  rw [parenthesis, peek_cons_one, peek_cons_two, peek_cons_three]
  split
  · next hquestion =>
    obtain ⟨p, rfl⟩ : ∃ p', p = byteOf '?' :: p' := ⟨p.tail, eq_cons_of_peek hquestion (by decide)⟩
    rw [peek_cons_one, peek_cons_two]
    dsimp only
    split
    · next hcolon =>
      obtain ⟨p, rfl⟩ : ∃ p', p = byteOf ':' :: p' := ⟨p.tail, eq_cons_of_peek hcolon (by decide)⟩
      apply (groupBody_tree hd isBackwardDir s).bind
      rintro ⟨code, t, q⟩ ⟨tree, htree, hreads, hq⟩
      exact ⟨⟨tree, htree, .group hp hreads hq⟩, fun _ => rfl⟩
    split
    · exact modifierGroup_tree hd hp
    split
    · next hahead =>
      rcases hahead with hc | hc
      · obtain ⟨p, rfl⟩ : ∃ p', p = byteOf '=' :: p' := ⟨p.tail, eq_cons_of_peek hc (by decide)⟩
        exact lookahead_tree hd false false hp
      · obtain ⟨p, rfl⟩ : ∃ p', p = byteOf '!' :: p' := ⟨p.tail, eq_cons_of_peek hc (by decide)⟩
        exact lookahead_tree hd true false hp
    split
    · next hbehind =>
      obtain ⟨p, rfl⟩ : ∃ p', p = byteOf '<' :: p' := ⟨p.tail, eq_cons_of_peek hbehind.1 (by decide)⟩
      rw [peek_cons_one] at hbehind ⊢
      rcases hbehind.2 with hc | hc
      · obtain ⟨p, rfl⟩ : ∃ p', p = byteOf '=' :: p' := ⟨p.tail, eq_cons_of_peek hc (by decide)⟩
        exact lookahead_tree hd false true hp
      · obtain ⟨p, rfl⟩ : ∃ p', p = byteOf '!' :: p' := ⟨p.tail, eq_cons_of_peek hc (by decide)⟩
        exact lookahead_tree hd true true hp
    split
    · next hname =>
      obtain ⟨p, rfl⟩ : ∃ p', p = byteOf '<' :: p' := ⟨p.tail, eq_cons_of_peek hname (by decide)⟩
      exact namedGroup_tree hd hp
    · trivial
  · next hne =>
    refine parseCapture_tree hd ?_ fun tree s' q htree hq => .capture hp hne htree hq
    exact ⟨rfl, rfl⟩

omit hd in
lemma exists_cons_of_oneOf {chars : String} (h : oneOf chars (peek p 0) = true) (hchars : oneOf chars 0 = false) :
    ∃ b q, p = b :: q ∧ b ∈ bytesOf chars := by
  cases p with
  | nil =>
    rw [peek_nil, hchars] at h
    cases h
  | cons b q =>
    rw [peek_cons_zero] at h
    obtain ⟨x, hx, hb⟩ := List.any_eq_true.mp h
    obtain rfl : x = b := UInt8.toNat_inj.mp (of_decide_eq_true hb)
    exact ⟨x, q, rfl, hx⟩

omit hd in
lemma leaf_or (p : Bytes) : IsLeaf p ∨ (∃ q, p = byteOf '^' :: q) ∨ (∃ q, p = byteOf '$' :: q) ∨
    (∃ q, p = byteOf '.' :: q) ∨ (∃ q, p = byteOf '(' :: q) ∨
      ∃ (isNot : Bool) (q : Bytes), p = bytesOf (if isNot then "\\B" else "\\b") ++ q := by
  by_cases hfirst : oneOf "^$.(" (peek p 0) = true
  · obtain ⟨b, q, rfl, hb⟩ := exists_cons_of_oneOf hfirst (by decide)
    have hcases : b = byteOf '^' ∨ b = byteOf '$' ∨ b = byteOf '.' ∨ b = byteOf '(' := by simpa [bytesOf] using hb
    obtain rfl | rfl | rfl | rfl := hcases
    · exact .inr (.inl ⟨q, rfl⟩)
    · exact .inr (.inr (.inl ⟨q, rfl⟩))
    · exact .inr (.inr (.inr (.inl ⟨q, rfl⟩)))
    · exact .inr (.inr (.inr (.inr (.inl ⟨q, rfl⟩))))
  by_cases hboundary : peek p 0 = '\\'.toNat ∧ oneOf "bB" (peek p 1) = true
  · obtain ⟨hback, hletter⟩ := hboundary
    rw [← peek_tail] at hletter
    rw [eq_cons_of_peek hback (by decide)]
    obtain ⟨b, q, hq, hb⟩ := exists_cons_of_oneOf hletter (by decide)
    have hcases : b = byteOf 'b' ∨ b = byteOf 'B' := by simpa [bytesOf] using hb
    rw [hq]
    obtain rfl | rfl := hcases
    · exact .inr (.inr (.inr (.inr (.inr ⟨false, q, rfl⟩))))
    · exact .inr (.inr (.inr (.inr (.inr ⟨true, q, rfl⟩))))
  · exact .inl ⟨Bool.not_eq_true _ ▸ hfirst, hboundary⟩

omit hd in
lemma termAtom_leaf (hp : IsLeaf p) (disjunction' : Bool → REParseState → Except Failure (List Op × REParseState)) :
    termAtom U disjunction' s isBackwardDir p = termAtom U disjunction s isBackwardDir p := by
  have hparen : peek p 0 ≠ '('.toNat := oneOf_ne hp.1 (by decide)
  simp only [termAtom, if_neg hparen]

omit hd in
lemma termAtom_atomTree (hp : IsLeaf p) :
    OnSuccess (AtomTree isBackwardDir s) (termAtom U disjunction s isBackwardDir p) := by
  rw [termAtom, if_neg (oneOf_ne hp.1 (by decide)), if_neg (oneOf_ne hp.1 (by decide)),
    if_neg (oneOf_ne hp.1 (by decide))]
  split
  · split
    · trivial
    split
    · trivial
    · apply classAtomTerm_tree
  split
  · trivial
  rw [if_neg (oneOf_ne hp.1 (by decide))]
  split
  · apply escapedAtom_tree
  split
  · apply bracketAtom_tree
  split
  · split
    · trivial
    · apply classAtomTerm_tree
  · apply classAtomTerm_tree

lemma termAtom_tree : OnSuccess (GroupTree U isBackwardDir s) (termAtom U disjunction s isBackwardDir s.bufPtr) := by
  obtain hleaf | ⟨q, hp⟩ | ⟨q, hp⟩ | ⟨q, hp⟩ | ⟨q, hp⟩ | ⟨isNot, q, hp⟩ := leaf_or s.bufPtr
  · have htree : OnSuccess (AtomTree isBackwardDir s) (termAtom U disjunction s isBackwardDir s.bufPtr) :=
      termAtom_atomTree hleaf
    cases hatom : termAtom U disjunction s isBackwardDir s.bufPtr with
    | error e => trivial
    | ok atom =>
      have htree := htree.ok hatom
      exact htree.group (.leaf hleaf (fun _ => (termAtom_leaf hleaf _).trans hatom) htree.slotFree)
  · have hatom : termAtom U disjunction s isBackwardDir (byteOf '^' :: q) =
        .ok ⟨[.lineStart s.multiLine], false, 0, q, s⟩ := rfl
    rw [hp, hatom]
    exact (assertion_tree s (by trivial) q).group (.lineStart hp)
  · have hatom : termAtom U disjunction s isBackwardDir (byteOf '$' :: q) =
        .ok ⟨[.lineEnd s.multiLine], false, 0, q, s⟩ := rfl
    rw [hp, hatom]
    exact (assertion_tree s (by trivial) q).group (.lineEnd hp)
  · have hatom : termAtom U disjunction s isBackwardDir (byteOf '.' :: q) =
        .ok (plainAtom (directed isBackwardDir [if s.dotall then .any else .dot]) q s) := rfl
    have hone : OneChar [if s.dotall then .any else .dot] := by
      split <;> exact ⟨_, rfl, ⟨rfl, rfl⟩, trivial⟩
    rw [hp, hatom]
    exact (OneChar.tree s hone q).group (.dot hp _)
  · have hatom : termAtom U disjunction s isBackwardDir (byteOf '(' :: q) =
        parenthesis U disjunction s isBackwardDir (byteOf '(' :: q) := rfl
    rw [hp, hatom]
    exact parenthesis_tree hd hp
  · have hatom : termAtom U disjunction s isBackwardDir (bytesOf (if isNot then "\\B" else "\\b") ++ q) =
        .ok ⟨[.wordBoundary isNot (s.ignoreCase && s.isUnicode)], false, 0, q, s⟩ := by
      cases isNot <;> rfl
    rw [hp, hatom]
    exact (assertion_tree s (by trivial) q).group (.wordBoundary isNot hp)

lemma reParseTerm_tree :
    OnSuccess (CodeTree (ReadsTerm U isBackwardDir) isBackwardDir s) (reParseTerm U disjunction s isBackwardDir) := by
  rw [reParseTerm]
  apply (termAtom_tree hd).bind
  rintro ⟨code, lastAtomStart, lastCaptureCount, q, t⟩ ⟨⟨tree, ⟨hcode, hcount, hsets, hdir⟩, hreads⟩, hlast⟩
  dsimp only at hcode hcount hsets hreads hlast ⊢
  subst hcode
  split
  · next hstart =>
    subst hstart
    cases hq : parseQuantifier t.isUnicode q with
    | error e => trivial
    | ok r =>
      cases r with
      | none => exact ⟨tree, ⟨rfl, hcount, hsets, hdir⟩, .once hreads fun _ => unquantified_of_none hq⟩
      | some quant =>
        obtain ⟨min, max, r⟩ := quant
        have htext := parseQuantifier_some_iff.mp hq
        obtain ⟨hle, hmax⟩ := htext.bounds
        refine ⟨.repeated tree min max (decide (peek r 0 ≠ '?'.toNat)), ⟨?_, hcount, hsets,
          fun hs => .repeated (hdir hs) hle hmax⟩, ?_⟩
        · rw [RegexpTree.code, ← hcount, hlast rfl]
        · by_cases hlazy : peek r 0 = '?'.toNat
          · obtain ⟨r, rfl⟩ : ∃ r', r = byteOf '?' :: r' := ⟨r.tail, eq_cons_of_peek hlazy (by decide)⟩
            have hterm := ReadsTerm.lazy hreads htext
            exact hterm
          · simp only [ne_eq, hlazy, not_false_eq_true, decide_true, if_true]
            have hterm := ReadsTerm.greedy hreads htext hlazy
            exact hterm
  · next hstart => exact ⟨tree, ⟨rfl, hcount, hsets, hdir⟩, .once hreads fun h => absurd h hstart⟩

end Group

section Disjunction

variable {U : Libunicode} {term : REParseState → Bool → Except Failure (List Op × REParseState)} {isBackwardDir : Bool}
variable (ht : ∀ s, OnSuccess (CodeTree (ReadsTerm U isBackwardDir) isBackwardDir s) (term s isBackwardDir))
variable (s : REParseState)
include ht

lemma reParseAlternative_tree :
    OnSuccess (CodeTree (ReadsAlternative U isBackwardDir) isBackwardDir s) (reParseAlternative term isBackwardDir s) := by
  let I (st : AlternativeState) : Prop := CodeTree (ReadsAlternative U isBackwardDir) isBackwardDir s (st.code, st.s)
  have hstep (st : AlternativeState) (hst : I st) :
      Sum.elim I (OnSuccess (CodeTree (ReadsAlternative U isBackwardDir) isBackwardDir s))
        (alternativeStep term isBackwardDir st) := by
    rw [alternativeStep]
    split
    · exact hst
    · have hterm := ht st.s
      cases hr : term st.s isBackwardDir with
      | error e => trivial
      | ok r =>
        rw [hr] at hterm
        obtain ⟨a, ⟨ha, hc, hsets, hdir⟩, hreads⟩ := hst
        obtain ⟨b, ⟨hb, hc', hsets', hdir'⟩, hreads'⟩ := hterm
        dsimp only at ha hc hsets
        refine ⟨.append isBackwardDir a b, ⟨?_, ?_, hsets'.trans hsets,
          fun hs => .append (hdir hs) (hdir' (hsets.trans hs))⟩, .term hreads hreads'⟩
        · dsimp only
          rw [RegexpTree.code, ha, hb, hc]
        · rw [hc', hc, RegexpTree.groups, Nat.add_assoc]
  have hstart : I ⟨[], s⟩ :=
    ⟨.atom [] slotFree_nil, ⟨rfl, rfl, rfl, fun _ => .atom _ .empty⟩, .empty isBackwardDir s⟩
  exact run_getD_any (I := I) (d := .error .undefined) hstep hstart trivial _

lemma disjunctionWith_tree :
    OnSuccess (CodeTree (ReadsDisjunction U isBackwardDir) isBackwardDir s) (disjunctionWith term isBackwardDir s) := by
  let I (st : AlternativeState) : Prop := CodeTree (ReadsDisjunction U isBackwardDir) isBackwardDir s (st.code, st.s)
  have hstep (st : AlternativeState) (hst : I st) :
      Sum.elim I (OnSuccess (CodeTree (ReadsDisjunction U isBackwardDir) isBackwardDir s))
        (disjunctionStep term isBackwardDir st) := by
    rw [disjunctionStep]
    split
    · exact hst
    · next hbar =>
      have halt := reParseAlternative_tree ht { st.s with
        bufPtr := st.s.bufPtr.tail, groupNameScope := st.s.groupNameScope + 1 }
      cases hr : reParseAlternative term isBackwardDir { st.s with
          bufPtr := st.s.bufPtr.tail, groupNameScope := st.s.groupNameScope + 1 } with
      | error e => trivial
      | ok r =>
        rw [hr] at halt
        obtain ⟨a, ⟨ha, hc, hsets, hdir⟩, hreads⟩ := hst
        obtain ⟨b, ⟨hb, hc', hsets', hdir'⟩, hreads'⟩ := halt
        dsimp only at ha hb hc hc' hsets hsets'
        have htext := eq_cons_of_peek (not_not.mp hbar) (by decide)
        refine ⟨.alternative a b, ⟨?_, ?_, hsets'.trans hsets,
          fun hs => .alternative (hdir hs) (hdir' (hsets.trans hs))⟩, .bar hreads htext hreads'⟩
        · dsimp only
          rw [RegexpTree.code, ha, hb, hc]
        · rw [hc', hc, RegexpTree.groups, Nat.add_assoc]
  have halt := reParseAlternative_tree ht s
  rw [disjunctionWith]
  cases hr : reParseAlternative term isBackwardDir s with
  | error e => trivial
  | ok r =>
    rw [hr] at halt
    obtain ⟨tree, htree, hreads⟩ := halt
    have hstart : I ⟨r.1, r.2⟩ := ⟨tree, htree, .one hreads⟩
    exact run_getD_any (d := .error .undefined) hstep hstart trivial _

end Disjunction

theorem reParseDisjunction_tree (U : Libunicode) (n : ℕ) (isBackwardDir : Bool) (s : REParseState) :
    OnSuccess (CodeTree (ReadsDisjunction U isBackwardDir) isBackwardDir s) (reParseDisjunction U n isBackwardDir s) := by
  induction n generalizing isBackwardDir s with
  | zero => trivial
  | succ n ih => exact disjunctionWith_tree (fun _ => reParseTerm_tree ih) s

/-- The pattern is a disjunction of the grammar that has the tree; its code is that of the tree, and its groups have
been counted. -/
structure Parses (U : Libunicode) (buf : Bytes) (reFlags : ℕ) (t : RegexpTree) : Prop where
  reads : ∃ s, ReadsDisjunction U false (.start buf reFlags) t s ∧ s.bufPtr = [] ∧
    lreParse U buf reFlags = .ok (t.code 1, s) ∧ s.captureCount = 1 + t.groups

lemma Parses.code {U : Libunicode} {buf : Bytes} {reFlags : ℕ} {t : RegexpTree} (h : Parses U buf reFlags t) :
    ∃ s, lreParse U buf reFlags = .ok (t.code 1, s) ∧ s.captureCount = 1 + t.groups := by
  obtain ⟨s, -, -, hs, hcount⟩ := h.reads
  exact ⟨s, hs, hcount⟩

theorem exists_parses {U : Libunicode} {buf : Bytes} {reFlags : ℕ} {r : List Op × REParseState}
    (h : lreParse U buf reFlags = .ok r) :
    ∃ t, Parses U buf reFlags t ∧ (reFlags &&& lreFlagUnicodeSets = 0 → t.Directed false) := by
  have hparse := h
  obtain ⟨⟨code, s⟩, hd, hend⟩ := except_bind_ok_iff.mp h
  obtain ⟨t, ⟨hcode, hcount, -, hdir⟩, hreads⟩ :=
    (reParseDisjunction_tree U (buf.length + 1) false (.start buf reFlags)).ok hd
  dsimp only at hcode hcount hreads hend
  subst hcode
  split at hend
  · cases hend
  next hnil =>
  obtain rfl := Except.ok.inj hend
  refine ⟨t, ⟨s, hreads, not_not.mp hnil, hparse, hcount⟩, fun hv => hdir ?_⟩
  simp [REParseState.start, hv]

end Jsregexp
