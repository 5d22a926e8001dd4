import Jsregexp.Libregexp.ClassSpec
import Jsregexp.Libregexp.Registers

namespace Jsregexp

open Library.Iteration Library.Fallible

def nameTable (gs : List (Bytes × UInt8)) : Bytes := gs.flatMap fun g => g.1 ++ [0, g.2]

/-- `gs` are the capture groups behind the whole match; one without a name has an empty name and no scope. -/
structure HasGroups (s : REParseState) (gs : List (Bytes × UInt8)) : Prop where
  table : s.groupNames = nameTable gs
  noNul : ∀ g ∈ gs, 0 ∉ g.1
  unnamed : ∀ g ∈ gs, g.1 = [] → g.2 = 0
  count : s.captureCount = gs.length + 1
  limit : s.captureCount ≤ captureCountMax

structure ParserOk (u : Bool) (s : REParseState) : Prop where
  isUnicode : s.isUnicode = u
  text : IsName s.u
  groups : ∃ gs, HasGroups s gs

structure TermRead (u : Bool) (G : Bytes → Prop) (p : Bytes) (atom : TermAtom) : Prop where
  state : ParserOk u atom.s
  good : G atom.p
  shorter : atom.p.length < p.length
  code : Balanced atom.code

structure CodeRead (u : Bool) (G : Bytes → Prop) (n : ℕ) (r : List Op × REParseState) : Prop where
  state : ParserOk u r.2
  good : G r.2.bufPtr
  shorter : r.2.bufPtr.length ≤ n
  code : Balanced r.1

section Emit

variable {u : Bool} {G : Bytes → Prop} {E : Failure → Prop} (h : Readable u G E) (s : REParseState)

def PlainCode (code : List Op) : Prop := ∀ op ∈ code, op.usesRegister = false

lemma plainCode_single {op : Op} (hop : op.usesRegister = false) : PlainCode [op] := fun _ hm =>
  List.mem_singleton.mp hm ▸ hop

lemma PlainCode.directed {code : List Op} (hcode : PlainCode code) (isBackwardDir : Bool) :
    Balanced (directed isBackwardDir code) := by
  have hprev : Balanced [.prev] := balanced_plain rfl
  rw [Jsregexp.directed]
  split
  · exact hprev.cons ((balanced_of_plain hcode).append hprev)
  · exact balanced_of_plain hcode

lemma plainCode_emitChar (c : ℕ) : (reEmitChar s c).usesRegister = false := by
  rw [reEmitChar]
  split <;> rfl

lemma plainCode_emitStrings {rest : List Op} {last : Bool} (hrest : PlainCode rest) (strs : List (List ℕ)) :
    PlainCode (emitStrings s rest last strs) := by
  have hchars (str : List ℕ) : PlainCode (str.map (reEmitChar s)) := by
    intro op hop
    obtain ⟨c, -, rfl⟩ := List.mem_map.mp hop
    exact plainCode_emitChar s c
  induction strs with
  | nil => exact hrest
  | cons str strs ih =>
    rw [emitStrings]
    split
    · exact hchars str
    · intro op hop
      simp only [List.cons_append, List.mem_cons, List.mem_append] at hop
      rcases hop with rfl | hop | rfl | hop
      · rfl
      · exact hchars str op hop
      · rfl
      · exact ih op hop

include h

lemma reEmitRange_post (cr : List ℕ) : Post E PlainCode (reEmitRange s cr) := by
  have hsingle (op : Op) (hop : op.usesRegister = false) : Post E PlainCode (.ok [op]) :=
    fun _ hm => List.mem_singleton.mp hm ▸ hop
  rw [reEmitRange]
  split
  · exact h.message _ (by decide)
  split
  · apply hsingle
    rfl
  · dsimp only
    split <;> split <;> apply hsingle <;> rfl

lemma reEmitStringList_post (U : Libunicode) (sl : REStringList) : Post E PlainCode (reEmitStringList s U sl) := by
  have hrange (rest : List Op) (hrest : PlainCode rest) (empty : Bool) :
      PlainCode (if empty = true then Op.split true (codeSize rest) :: rest else rest) := by
    split
    · intro op hop
      rcases List.mem_cons.mp hop with rfl | hop
      · rfl
      · exact hrest op hop
    · exact hrest
  rw [reEmitStringList]
  split
  · exact reEmitRange_post h s _
  · dsimp only
    split
    · exact plainCode_emitStrings s (hrange [] (fun op hop => by cases hop) _) _
    · apply (reEmitRange_post h s _).bind
      exact fun rest hrest => plainCode_emitStrings s (hrange rest hrest _) _

end Emit

section State

variable {u : Bool} {s : REParseState}

lemma ParserOk.congr {t : REParseState} (h : ParserOk u s) (hu : t.isUnicode = s.isUnicode) (ht : t.u = s.u)
    (hn : t.groupNames = s.groupNames) (hc : t.captureCount = s.captureCount) : ParserOk u t := by
  obtain ⟨gs, hg⟩ := h.groups
  exact ⟨hu.trans h.isUnicode, ht ▸ h.text, gs, hn.trans hg.table, hg.noNul, hg.unnamed, hc.trans hg.count,
    hc ▸ hg.limit⟩

lemma ParserOk.mode {G : Bytes → Prop} {E : Failure → Prop} (hs : ParserOk u s) (h : Readable u G E) : InMode u E s :=
  ⟨hs.isUnicode, h.raised _ hs.text.not_malformed⟩

lemma ParserOk.name (h : ParserOk u s) {name : Bytes} (hname : IsName name) : ParserOk u { s with u := name } :=
  have ⟨gs, hg⟩ := h.groups
  ⟨h.isUnicode, hname, gs, hg.table, hg.noNul, hg.unnamed, hg.count, hg.limit⟩

lemma reCountCaptures_ok (U : Libunicode) (h : ParserOk u s) : ParserOk u (reCountCaptures U s).2 := by
  rw [reCountCaptures]
  split
  · exact h
  · exact h.congr rfl rfl rfl rfl

lemma reHasNamedCaptures_ok (U : Libunicode) (h : ParserOk u s) : ParserOk u (reHasNamedCaptures U s).2 := by
  rw [reHasNamedCaptures]
  split
  · exact h
  · exact reCountCaptures_ok U h

lemma ParserOk.addGroup (h : ParserOk u s) {name : Bytes} {scope : UInt8} (hz : 0 ∉ name) (hs : name = [] → scope = 0)
    {t : REParseState} (hu : t.isUnicode = s.isUnicode) (ht : IsName t.u)
    (hn : t.groupNames = s.groupNames ++ name ++ [0, scope]) (hc : t.captureCount = s.captureCount + 1)
    (hlt : s.captureCount < captureCountMax) : ParserOk u t := by
  obtain ⟨gs, hg⟩ := h.groups
  refine ⟨hu.trans h.isUnicode, ht, gs ++ [(name, scope)], ?_, ?_, ?_, ?_, by omega⟩
  · rw [hn, hg.table]
    simp [nameTable]
  · intro g hg'
    rcases List.mem_append.mp hg' with hg' | hg'
    · exact hg.noNul g hg'
    · rw [List.mem_singleton.mp hg']
      exact hz
  · intro g hg'
    rcases List.mem_append.mp hg' with hg' | hg'
    · exact hg.unnamed g hg'
    · rw [List.mem_singleton.mp hg']
      exact hs
  · rw [hc, hg.count, List.length_append, List.length_singleton]

end State

section Term

variable {u : Bool} {G : Bytes → Prop} {E : Failure → Prop} (h : Readable u G E) (U : Libunicode)
variable {s : REParseState} (hs : ParserOk u s) {p q : Bytes} {isBackwardDir : Bool}
include h hs

lemma charAtom_post {atom : ClassAtom} (ha : AtomRead G p atom) :
    Post E (TermRead u G p) (charAtom U s isBackwardDir atom) := by
  have hterm {code : List Op} (hcode : PlainCode code) :
      TermRead u G p (plainAtom (directed isBackwardDir code) atom.p s) :=
    ⟨hs, ha.good, ha.shorter, hcode.directed isBackwardDir⟩
  rw [charAtom]
  split
  · next hc =>
    apply (ha.set_post hc).bind
    intro cr _
    split
    · exact hterm (plainCode_single rfl)
    split
    · exact hterm (plainCode_single rfl)
    · exact (reEmitStringList_post h s U cr).bind fun code hcode => hterm hcode
  · exact hterm (plainCode_single (plainCode_emitChar s _))

lemma classAtomTerm_post (hp : G p) : Post E (TermRead u G p) (classAtomTerm U s isBackwardDir p) :=
  (getClassAtom_post h U s (hs.mode h) hp).bind fun _ ha => charAtom_post h U hs ha

omit h hs in
lemma TermRead.longer {atom : TermAtom} (ha : TermRead u G q atom) (hle : q.length ≤ p.length) : TermRead u G p atom :=
  ⟨ha.state, ha.good, ha.shorter.trans_le hle, ha.code⟩

lemma nulEscape_post (hp : G p) (h₀ : IsAscii (peek p 0)) (h₁ : IsAscii (peek p 1)) :
    Post E (TermRead u G p) (nulEscape U s isBackwardDir (p.drop 2)) := by
  obtain ⟨hg, hlen⟩ := h.drop_two hp h₀ h₁
  have hzero : Post E (TermRead u G p) (charAtom U s isBackwardDir ⟨0, none, p.drop 2⟩) :=
    charAtom_post h U hs ⟨hg, hlen, fun _ => show 0 < classRangeBase by decide⟩
  rw [nulEscape]
  split
  · split
    · exact h.message _ (by decide)
    · exact hzero
  split
  · exact hzero
  · next ho =>
    rw [not_not] at ho
    obtain ⟨hg₁, hlen₁⟩ := h.tail hg (isOctalChar_ascii ho)
    have hv := octalDigit_lt ho
    dsimp only
    split
    · next ho₂ =>
      obtain ⟨hg₂, hlen₂⟩ := h.drop_two hg (isOctalChar_ascii ho) (isOctalChar_ascii ho₂)
      have hv₂ := octalDigit_lt ho₂
      have hlt := octalSum_lt hv hv₂
      exact charAtom_post h U hs ⟨hg₂, hlen₂.trans hlen, fun _ => hlt.trans (by decide)⟩
    · exact charAtom_post h U hs ⟨hg₁, hlen₁.trans hlen, fun _ => hv.trans (by decide)⟩

omit hs in
lemma octalTail_read {x : UInt8} {c : ℕ} (hc : c < 2 ^ 3) (hq : G q) (hle : q.length ≤ p.length) :
    AtomRead G (x :: p) (if isOctalChar (peek q 0) then
        if isOctalChar (peek q 1) then
          ⟨(((c <<< 3) + (peek q 0 - '0'.toNat)) <<< 3) + (peek q 1 - '0'.toNat), none, q.drop 2⟩
        else ⟨(c <<< 3) + (peek q 0 - '0'.toNat), none, q.tail⟩
      else ⟨c, none, q⟩) := by
  split
  · next h₀ =>
    obtain ⟨hg₁, hlen₁⟩ := h.tail hq (isOctalChar_ascii h₀)
    have hlt := octalSum_lt hc (octalDigit_lt h₀)
    split
    · next h₁ =>
      obtain ⟨hg₂, hlen₂⟩ := h.drop_two hq (isOctalChar_ascii h₀) (isOctalChar_ascii h₁)
      have hlt₂ := octalSum_lt hlt (octalDigit_lt h₁)
      exact ⟨hg₂, Nat.lt_succ_of_lt (hlen₂.trans_le hle), fun _ => hlt₂.trans (by decide)⟩
    · exact ⟨hg₁, Nat.lt_succ_of_lt (hlen₁.trans_le hle), fun _ => hlt.trans (by decide)⟩
  · exact ⟨hq, Nat.lt_succ_of_le hle, fun _ => hc.trans (by decide)⟩

omit hs in
lemma legacyOctal_read {x : UInt8} (hq : G q) (hd : isDigitChar (peek q 0) = true) :
    AtomRead G (x :: q) (legacyOctal q) := by
  obtain ⟨hg, hlen⟩ := h.tail hq (isDigitChar_ascii hd)
  rw [legacyOctal]
  split
  · next h₇ =>
    by_cases h₃ : peek q 0 ≤ '3'.toNat
    · have hv : peek q 0 - '0'.toNat < 2 ^ 3 := by
        simp only [Char.reduceToNat] at h₃ ⊢
        omega
      simp only [h₃, if_true]
      exact octalTail_read h hv hg hlen.le
    · simp only [h₃, if_false]
      exact octalTail_read h (by decide) hq le_rfl
  · exact ⟨hg, Nat.lt_succ_of_lt hlen, fun _ => (isDigitChar_ascii hd).2.trans (by decide)⟩

lemma decimalEscape_post {x : UInt8} (hq : G q) (hd : isDigitChar (peek q 0) = true) :
    Post E (TermRead u G (x :: q)) (decimalEscape U s isBackwardDir q) := by
  have hback (c : ℕ) (p : Bytes) (t : REParseState) (ht : ParserOk u t) (hp : G p) (hle : p.length ≤ q.length) :
      TermRead u G (x :: q) (plainAtom [.backReference isBackwardDir t.ignoreCase [c]] p t) :=
    ⟨ht, hp, Nat.lt_succ_of_le hle, balanced_plain rfl⟩
  have hrange (t : REParseState) (ht : ParserOk u t) : Post E (TermRead u G (x :: q))
      (if t.isUnicode then reParseError "back reference out of range in regular expression"
        else charAtom U t isBackwardDir (legacyOctal q)) := by
    split
    · exact h.message _ (by decide)
    · exact charAtom_post h U ht (legacyOctal_read h hq hd)
  rw [decimalEscape]
  cases hp : parseDigits false 0 q with
  | none => exact hrange s hs
  | some r =>
    obtain ⟨c, p'⟩ := r
    obtain ⟨hg, hle⟩ := parseDigits_rest h hq hp
    have ht := reCountCaptures_ok U hs
    dsimp only
    split
    · exact hback c p' s hs hg hle
    split
    · exact hrange _ ht
    · exact hback c p' _ ht hg hle

lemma namedBackReference_post (hp : G p) (h₀ : IsAscii (peek p 0)) (h₁ : IsAscii (peek p 1)) :
    Post E (TermRead u G p) (namedBackReference U s isBackwardDir p) := by
  have ht := reHasNamedCaptures_ok U hs
  have hfallback (t t' : REParseState) (ht' : ParserOk u t') (hasNamed : Bool) (msg : String)
      (hmsg : .raised (bytesOf msg) ∉ malformed) : Post E (TermRead u G p)
      (if t.isUnicode then reParseError msg
        else if hasNamed then reParseError msg
        else classAtomTerm U t' isBackwardDir p) := by
    split
    · exact h.message _ hmsg
    split
    · exact h.message _ hmsg
    · exact classAtomTerm_post h U ht' hp
  rw [namedBackReference]
  generalize reHasNamedCaptures U s = r at ht
  obtain ⟨hasNamed, s'⟩ := r
  dsimp only at ht ⊢
  split
  · exact hfallback s s' ht hasNamed _ (by decide)
  next h₂ =>
  rw [ne_eq, not_not] at h₂
  obtain ⟨hg, hlen⟩ := h.drop_three hp h₀ h₁ (h₂ ▸ by decide)
  cases hn : reParseGroupName U (p.drop 3) with
  | none => exact hfallback s s' ht hasNamed _ (by decide)
  | some r =>
    obtain ⟨name, p₁⟩ := r
    obtain ⟨hg₁, hlen₁, -, hname⟩ := reParseGroupName_rest h hg hn
    have hend (groups : List ℕ) : Post E (TermRead u G p)
        (if groups = [] then
          if s.isUnicode then reParseError "group name not defined"
          else if hasNamed then reParseError "group name not defined"
          else classAtomTerm U { s' with u := name } isBackwardDir p
        else .ok (plainAtom [.backReference isBackwardDir s.ignoreCase groups] p₁ { s with u := name })) := by
      split
      · exact hfallback s { s' with u := name } (ht.name hname) hasNamed "group name not defined" (by decide)
      · exact ⟨hs.name hname, hg₁, hlen₁.trans hlen, balanced_plain rfl⟩
    exact hend _

lemma escapedAtom_post (hp : G p) (h₀ : IsAscii (peek p 0)) :
    Post E (TermRead u G p) (escapedAtom U s isBackwardDir p) := by
  rw [escapedAtom]
  split
  · next h₁ =>
    have ha₁ : IsAscii (peek p 1) := by
      rcases h₁ with h₁ | h₁ <;> rw [h₁] <;> decide
    obtain ⟨hg, hlen⟩ := h.drop_two hp h₀ ha₁
    exact ⟨hs, hg, hlen, balanced_plain rfl⟩
  split
  · next h₁ => exact namedBackReference_post h U hs hp h₀ (h₁ ▸ by decide)
  split
  · next h₁ => exact nulEscape_post h U hs hp h₀ (h₁ ▸ by decide)
  split
  · next h₁ =>
    obtain ⟨hg, -⟩ := h.tail hp h₀
    rw [← peek_tail] at h₁
    obtain ⟨x, q, rfl⟩ : ∃ x q, p = x :: q :=
      List.exists_cons_of_ne_nil (by rintro rfl; exact absurd h₀ (by simp [IsAscii]))
    exact decimalEscape_post h U hs hg h₁
  · exact classAtomTerm_post h U hs hp

lemma bracketAtom_post (hp : G p) (h₀ : peek p 0 = '['.toNat) :
    Post E (TermRead u G p) (bracketAtom U s isBackwardDir p) := by
  apply (reParseNestedClass_post h U s (hs.mode h) p.length hp le_rfl h₀).bind
  intro r hr
  apply (reEmitStringList_post h s U r.1).bind
  intro code hcode
  exact ⟨hs, hr.1, hr.2, hcode.directed isBackwardDir⟩

end Term

section Group

variable {u : Bool} {G : Bytes → Prop} {E : Failure → Prop} (h : Readable u G E) (U : Libunicode)
variable {s : REParseState} (hs : ParserOk u s) {p : Bytes} {isBackwardDir : Bool}
include h

lemma reParseModifiers_post (hp : G p) :
    Post E (fun m => G m.p ∧ m.p.length ≤ p.length) (reParseModifiers p) := by
  let I (st : ModifiersState) : Prop := G st.p ∧ st.p.length ≤ p.length
  have hstep (st : ModifiersState) (hst : I st) :
      Sum.elim (fun t => I t ∧ t.p.length < st.p.length) (Post E I) (modifiersStep st) := by
    obtain ⟨hg, hle⟩ := hst
    rw [modifiersStep]
    cases hf : modifierFlag (peek st.p 0) with
    | none => exact ⟨hg, hle⟩
    | some val =>
      have hascii : IsAscii (peek st.p 0) := by
        simp only [modifierFlag] at hf
        split_ifs at hf <;> simp only [*] <;> decide
      obtain ⟨hg', hlt⟩ := h.tail hg hascii
      dsimp only
      split
      · apply h.raised
        simp [malformed, malformedChar, malformedUnicode, bytesOf, byteOf]
      · exact ⟨⟨hg', hlt.le.trans hle⟩, hlt⟩
  exact run_getD (I := I) (μ := fun st => st.p.length) hstep ⟨hp, le_rfl⟩ (Nat.lt_succ_self _) _

variable {disjunction : Bool → REParseState → Except Failure (List Op × REParseState)} {n : ℕ}
variable (hd : ∀ dir t, ParserOk u t → G t.bufPtr → t.bufPtr.length < n →
  Post E (CodeRead u G t.bufPtr.length) (disjunction dir t))
include hd

lemma groupBody_post (hp : G p) (hlt : p.length < n) (dir : Bool) {t : REParseState} (ht : ParserOk u t) :
    Post E (fun r => ParserOk u r.2.1 ∧ G r.2.2 ∧ r.2.2.length < p.length ∧ Balanced r.1)
      (groupBody disjunction p t dir) := by
  rw [groupBody]
  apply (hd dir { t with bufPtr := p } (ht.congr rfl rfl rfl rfl) hp hlt).bind
  intro r hr
  apply (reParseExpect_rest h hr.good (by decide)).bind
  intro q hq
  exact ⟨hr.state, hq.1, hq.2.trans_le hr.shorter, hr.code⟩

lemma parseCapture_post {x : UInt8} {name : Bytes} {scope : UInt8} (hs : ParserOk u s) (hz : 0 ∉ name)
    (hsc : name = [] → scope = 0) {t : REParseState} (hu : t.isUnicode = s.isUnicode) (ht : IsName t.u)
    (hn : t.groupNames = s.groupNames ++ name ++ [0, scope]) (hc : t.captureCount = s.captureCount) (hp : G p)
    (hlt : p.length < n) : Post E (TermRead u G (x :: p)) (parseCapture disjunction isBackwardDir p t) := by
  have hsave (isEnd : Bool) (i : ℕ) : Balanced [if isEnd then Op.saveEnd i else .saveStart i] := by
    cases isEnd <;> exact balanced_plain rfl
  rw [parseCapture]
  split
  · exact h.message _ (by decide)
  next hmax =>
  have ht : ParserOk u { t with captureCount := t.captureCount + 1, bufPtr := p } :=
    hs.addGroup hz hsc hu ht hn (by dsimp only; omega) (by omega)
  apply (hd isBackwardDir _ ht hp hlt).bind
  intro r hr
  apply (reParseExpect_rest h hr.good (by decide)).bind
  intro q hq
  exact ⟨hr.state, hq.1, Nat.lt_succ_of_lt (hq.2.trans_le hr.shorter),
    (hsave isBackwardDir _).cons (hr.code.append (hsave (!isBackwardDir) _))⟩

include hs

lemma namedGroup_post {x : UInt8} (hp : G p) (hlt : p.length < n) :
    Post E (TermRead u G (x :: p)) (namedGroup U disjunction s isBackwardDir p) := by
  rw [namedGroup]
  cases hn : reParseGroupName U p with
  | none => exact h.message _ (by decide)
  | some r =>
    obtain ⟨name, q⟩ := r
    obtain ⟨hg, hle, hne, hname⟩ := reParseGroupName_rest h hp hn
    dsimp only
    split
    · exact h.message _ (by decide)
    · have hpost : Post E (TermRead u G (x :: q)) (parseCapture disjunction isBackwardDir q { s with
          u := name
          groupNames := s.groupNames ++ name ++ [0, s.groupNameScope]
          hasNamedCaptures := some true }) :=
        parseCapture_post h hd hs hname.1 (fun he => absurd he hne) rfl hname rfl rfl hg (hle.trans hlt)
      exact hpost.mono fun atom ha => ha.longer (Nat.succ_le_succ hle.le)

lemma modifiedGroup_post {x : UInt8} (add : ModifiersState) {remove : ModifiersState} (hg : G remove.p)
    (hle : remove.p.length ≤ p.length) (hlt : p.length < n) :
    Post E (TermRead u G (x :: p)) (modifiedGroup disjunction s isBackwardDir add remove) := by
  have hinner (i m d : Bool) : ParserOk u { s with ignoreCase := i, multiLine := m, dotall := d } :=
    hs.congr rfl rfl rfl rfl
  rw [modifiedGroup]
  split
  · exact h.message _ (by decide)
  · apply (reParseExpect_rest h hg (by decide)).bind
    intro q hq
    have hlen : q.length < p.length := hq.2.trans_le hle
    apply (groupBody_post h hd hq.1 (hlen.trans hlt) isBackwardDir (hinner _ _ _)).bind
    intro r hr
    exact ⟨hr.1.congr rfl rfl rfl rfl, hr.2.1, Nat.lt_succ_of_lt (hr.2.2.1.trans hlen), hr.2.2.2⟩

lemma modifierGroup_post {x : UInt8} (hp : G p) (hlt : p.length < n) :
    Post E (TermRead u G (x :: p)) (modifierGroup disjunction s isBackwardDir p) := by
  rw [modifierGroup]
  apply (reParseModifiers_post h hp).bind
  intro add hadd
  dsimp only
  split
  · next hdash =>
    obtain ⟨hg, hlen⟩ := h.tail_eq hadd.1 hdash (by decide)
    apply (reParseModifiers_post h hg).bind
    exact fun remove hremove =>
      modifiedGroup_post h hs hd add hremove.1 (hremove.2.trans (hlen.le.trans hadd.2)) hlt
  · exact modifiedGroup_post h hs hd add hadd.1 hadd.2 hlt

lemma lookahead_post {x : UInt8} (hp : G p) (hlt : p.length < n) (isNeg isBackwardLookahead : Bool) :
    Post E (TermRead u G (x :: p)) (lookahead disjunction s p isNeg isBackwardLookahead) := by
  rw [lookahead]
  apply (groupBody_post h hd hp hlt isBackwardLookahead hs).bind
  intro r hr
  exact ⟨hr.1, hr.2.1, Nat.lt_succ_of_lt hr.2.2.1,
    (balanced_plain rfl).cons (hr.2.2.2.append (balanced_plain rfl))⟩

lemma parenthesis_post (hp : G p) (hlt : p.length ≤ n) (h₀ : peek p 0 = '('.toNat) :
    Post E (TermRead u G p) (parenthesis U disjunction s isBackwardDir p) := by
  have ha : IsAscii (peek p 0) := h₀ ▸ by decide
  obtain ⟨hg₁, hlen₁⟩ := h.tail hp ha
  have hinner {q : Bytes} (hq : q.length < p.length) {atom : Except Failure TermAtom}
      (hpost : Post E (TermRead u G (0 :: q)) atom) : Post E (TermRead u G p) atom :=
    hpost.mono fun _ hr => hr.longer hq
  rw [parenthesis]
  split
  · next h₁ =>
    have ha₁ : IsAscii (peek p 1) := h₁ ▸ by decide
    dsimp only
    split
    · next h₂ =>
      obtain ⟨hg, hlen⟩ := h.drop_three hp ha ha₁ (h₂ ▸ by decide)
      apply (groupBody_post h hd hg (hlen.trans_le hlt) isBackwardDir hs).bind
      intro r hr
      exact ⟨hr.1, hr.2.1, hr.2.2.1.trans hlen, hr.2.2.2⟩
    split
    · obtain ⟨hg, hlen⟩ := h.drop_two hp ha ha₁
      exact hinner hlen (modifierGroup_post h hs hd hg (hlen.trans_le hlt))
    split
    · next h₂ =>
      have ha₂ : IsAscii (peek p 2) := by
        rcases h₂ with h₂ | h₂ <;> rw [h₂] <;> decide
      obtain ⟨hg, hlen⟩ := h.drop_three hp ha ha₁ ha₂
      exact hinner hlen (lookahead_post h hs hd hg (hlen.trans_le hlt) _ _)
    split
    · next h₂ =>
      have ha₂ : IsAscii (peek p 2) := h₂.1 ▸ by decide
      have ha₃ : IsAscii (peek p 3) := by
        rcases h₂.2 with h₃ | h₃ <;> rw [h₃] <;> decide
      obtain ⟨hg, hlen⟩ := h.drop hp (n := 4) fun k hk => by interval_cases k <;> assumption
      have hlt₄ : (p.drop 4).length < p.length := by omega
      exact hinner hlt₄ (lookahead_post h hs hd hg (hlt₄.trans_le hlt) _ _)
    split
    · next h₂ =>
      obtain ⟨hg, hlen⟩ := h.drop_three hp ha ha₁ (h₂ ▸ by decide)
      exact hinner hlen (namedGroup_post h U hs hd hg (hlen.trans_le hlt))
    · exact h.message _ (by decide)
  · have hz : (0 : UInt8) ∉ ([] : Bytes) := by simp
    exact hinner hlen₁ (parseCapture_post h hd hs hz (fun _ => rfl) rfl hs.text (by simp) rfl hg₁ (hlen₁.trans_le hlt))

lemma termAtom_post (hp : G p) (hlt : p.length ≤ n) :
    Post E (TermRead u G p) (termAtom U disjunction s isBackwardDir p) := by
  rw [termAtom]
  split
  · next h₀ =>
    obtain ⟨hg, hlen⟩ := h.tail_eq hp h₀ (by decide)
    exact ⟨hs, hg, hlen, balanced_plain rfl⟩
  split
  · next h₀ =>
    obtain ⟨hg, hlen⟩ := h.tail_eq hp h₀ (by decide)
    exact ⟨hs, hg, hlen, balanced_plain rfl⟩
  split
  · next h₀ =>
    obtain ⟨hg, hlen⟩ := h.tail_eq hp h₀ (by decide)
    refine ⟨hs, hg, hlen, PlainCode.directed (plainCode_single ?_) isBackwardDir⟩
    split <;> rfl
  split
  · split
    · exact h.message _ (by decide)
    split
    · exact h.message _ (by decide)
    · exact classAtomTerm_post h U hs hp
  split
  · exact h.message _ (by decide)
  split
  · next h₀ => exact parenthesis_post h U hs hd hp hlt h₀
  split
  · next h₀ => exact escapedAtom_post h U hs hp (h₀ ▸ by decide)
  split
  · next h₀ => exact bracketAtom_post h U hs hp h₀
  split
  · split
    · exact h.message _ (by decide)
    · exact classAtomTerm_post h U hs hp
  · exact classAtomTerm_post h U hs hp

omit hs hd in
lemma parseQuantifier_post (isUnicode : Bool) (hp : G p) :
    Post E (fun r => ∀ q, r = some q → G q.p ∧ q.p.length < p.length) (parseQuantifier isUnicode p) := by
  have hnone : Post E (fun r : Option Quantifier => ∀ q, r = some q → G q.p ∧ q.p.length < p.length) (.ok none) :=
    fun q hq => by cases hq
  have hsingle (c : Char) (hc : peek p 0 = c.toNat) (ha : IsAscii c.toNat) (min max : ℕ) :
      Post E (fun r : Option Quantifier => ∀ q, r = some q → G q.p ∧ q.p.length < p.length)
        (.ok (some ⟨min, max, p.tail⟩)) := fun q hq => Option.some.inj hq ▸ h.tail_eq hp hc ha
  rw [parseQuantifier]
  split
  · next h₀ => exact hsingle _ h₀ (by decide) _ _
  split
  · next h₀ => exact hsingle _ h₀ (by decide) _ _
  split
  · next h₀ => exact hsingle _ h₀ (by decide) _ _
  split
  · next h₀ =>
    obtain ⟨hg, hlt⟩ := h.tail_eq hp h₀ (by decide)
    split
    · split
      · exact h.message _ (by decide)
      · exact hnone
    · obtain ⟨hg₁, hle₁⟩ := parseDigits_getD h (v := 0) hg (0, [])
      generalize (parseDigits true 0 p.tail).getD (0, []) = r at hg₁ hle₁
      obtain ⟨quantMin, p₁⟩ := r
      dsimp only at hg₁ hle₁ ⊢
      have hmax : ∃ quantMax p₂, G p₂ ∧ p₂.length ≤ p₁.length ∧ (quantMax, p₂) =
          (if peek p₁ 0 = ','.toNat then
            if isDigitChar (peek p₁ 1) then (parseDigits true 0 p₁.tail).getD (0, []) else (int32Max, p₁.tail)
          else (quantMin, p₁)) := by
        split
        · next hcomma =>
          obtain ⟨hg₂, hlt₂⟩ := h.tail_eq hg₁ hcomma (by decide)
          split
          · obtain ⟨hg₃, hle₃⟩ := parseDigits_getD h (v := 0) hg₂ (0, [])
            exact ⟨_, _, hg₃, hle₃.trans hlt₂.le, rfl⟩
          · exact ⟨_, _, hg₂, hlt₂.le, rfl⟩
        · exact ⟨_, _, hg₁, le_rfl, rfl⟩
      obtain ⟨quantMax, p₂, hg₂, hle₂, heq⟩ := hmax
      rw [← heq]
      dsimp only
      split
      · exact h.message _ (by decide)
      split
      · exact hnone
      · apply (reParseExpect_rest h hg₂ (by decide)).bind
        intro q hq r hr
        rw [← Option.some.inj hr]
        exact ⟨hq.1, by dsimp only; omega⟩
  · exact hnone

lemma reParseTerm_post (hp : G s.bufPtr) (hlt : s.bufPtr.length ≤ n) :
    Post E (fun r => CodeRead u G s.bufPtr.length r ∧ r.2.bufPtr.length < s.bufPtr.length)
      (reParseTerm U disjunction s isBackwardDir) := by
  rw [reParseTerm]
  apply (termAtom_post h U hs hd hp hlt).bind
  intro atom ha
  have hplain : CodeRead u G s.bufPtr.length (atom.code, { atom.s with bufPtr := atom.p }) :=
    ⟨ha.state.congr rfl rfl rfl rfl, ha.good, ha.shorter.le, ha.code⟩
  split
  · apply (parseQuantifier_post h atom.s.isUnicode ha.good).bind
    intro r hr
    cases r with
    | none => exact ⟨hplain, ha.shorter⟩
    | some q =>
      obtain ⟨hg, hlen⟩ := hr q rfl
      have hlazy : G (if decide (peek q.p 0 ≠ '?'.toNat) = true then q.p else q.p.tail) ∧
          (if decide (peek q.p 0 ≠ '?'.toNat) = true then q.p else q.p.tail).length < s.bufPtr.length := by
        have hlt := hlen.trans ha.shorter
        split
        · exact ⟨hg, hlt⟩
        · next hq =>
          rw [decide_eq_true_eq, ne_eq, not_not] at hq
          obtain ⟨hg', hlen'⟩ := h.tail_eq hg hq (by decide)
          exact ⟨hg', hlen'.trans hlt⟩
      exact ⟨⟨ha.state.congr rfl rfl rfl rfl, hlazy.1, hlazy.2.le, ha.code.quantified _ _ _ _ _⟩, hlazy.2⟩
  · exact ⟨hplain, ha.shorter⟩

end Group

section Disjunction

variable {u : Bool} {G : Bytes → Prop} {E : Failure → Prop} (h : Readable u G E)
variable {term : REParseState → Bool → Except Failure (List Op × REParseState)} {isBackwardDir : Bool} {n : ℕ}
variable (ht : ∀ s, ParserOk u s → G s.bufPtr → s.bufPtr.length ≤ n →
  Post E (fun r => CodeRead u G s.bufPtr.length r ∧ r.2.bufPtr.length < s.bufPtr.length) (term s isBackwardDir))
include h ht

omit h in
lemma reParseAlternative_post {s : REParseState} (hs : ParserOk u s) (hp : G s.bufPtr) (hlt : s.bufPtr.length ≤ n) :
    Post E (CodeRead u G s.bufPtr.length) (reParseAlternative term isBackwardDir s) := by
  let I (st : AlternativeState) : Prop := CodeRead u G s.bufPtr.length (st.code, st.s)
  have hstep (st : AlternativeState) (hst : I st) :
      Sum.elim (fun t => I t ∧ t.s.bufPtr.length < st.s.bufPtr.length) (Post E (CodeRead u G s.bufPtr.length))
        (alternativeStep term isBackwardDir st) := by
    rw [alternativeStep]
    split
    · exact hst
    · have hterm := ht st.s hst.state hst.good (hst.shorter.trans hlt)
      cases hr : term st.s isBackwardDir with
      | error e =>
        rw [hr] at hterm
        exact hterm
      | ok r =>
        obtain ⟨code, t⟩ := r
        rw [hr] at hterm
        obtain ⟨hread, hless⟩ := hterm
        have hcode : Balanced (if isBackwardDir = true then code ++ st.code else st.code ++ code) := by
          split
          · exact hread.code.append hst.code
          · exact hst.code.append hread.code
        exact ⟨⟨hread.state, hread.good, hless.le.trans hst.shorter, hcode⟩, hless⟩
  exact run_getD (I := I) (μ := fun st => st.s.bufPtr.length) hstep ⟨hs, hp, le_rfl, balanced_nil⟩
    (Nat.lt_succ_self _) _

lemma disjunctionWith_post {s : REParseState} (hs : ParserOk u s) (hp : G s.bufPtr) (hlt : s.bufPtr.length ≤ n) :
    Post E (CodeRead u G s.bufPtr.length) (disjunctionWith term isBackwardDir s) := by
  let I (st : AlternativeState) : Prop := CodeRead u G s.bufPtr.length (st.code, st.s)
  have hstep (st : AlternativeState) (hst : I st) :
      Sum.elim (fun t => I t ∧ t.s.bufPtr.length < st.s.bufPtr.length) (Post E (CodeRead u G s.bufPtr.length))
        (disjunctionStep term isBackwardDir st) := by
    rw [disjunctionStep]
    split
    · exact hst
    · next hbar =>
      rw [ne_eq, not_not] at hbar
      obtain ⟨hg, hlen⟩ := h.tail_eq hst.good hbar (by decide)
      have halt := reParseAlternative_post ht (s := { st.s with
          bufPtr := st.s.bufPtr.tail, groupNameScope := st.s.groupNameScope + 1 }) (hst.state.congr rfl rfl rfl rfl) hg
        (hlen.le.trans (hst.shorter.trans hlt))
      cases hr : reParseAlternative term isBackwardDir { st.s with
          bufPtr := st.s.bufPtr.tail, groupNameScope := st.s.groupNameScope + 1 } with
      | error e =>
        rw [hr] at halt
        exact halt
      | ok r =>
        obtain ⟨code, t⟩ := r
        rw [hr] at halt
        have hless : t.bufPtr.length < st.s.bufPtr.length := halt.shorter.trans_lt hlen
        have hcode : Balanced (.split true (codeSize st.code + 5) :: st.code ++ .goto (codeSize code) :: code) :=
          (Balanced.cons (balanced_plain rfl) hst.code).append ((balanced_plain rfl).cons halt.code)
        exact ⟨⟨halt.state, halt.good, hless.le.trans hst.shorter, hcode⟩, hless⟩
  have halt := reParseAlternative_post ht hs hp hlt
  rw [disjunctionWith]
  cases hr : reParseAlternative term isBackwardDir s with
  | error e =>
    rw [hr] at halt
    exact halt
  | ok r =>
    obtain ⟨code, t⟩ := r
    rw [hr] at halt
    have hstart : I ⟨code, t⟩ := halt
    exact run_getD (I := I) (μ := fun st => st.s.bufPtr.length) hstep hstart (Nat.lt_succ_self _) _

end Disjunction

theorem reParseDisjunction_post {u : Bool} {G : Bytes → Prop} {E : Failure → Prop} (h : Readable u G E)
    (U : Libunicode) (n : ℕ) (isBackwardDir : Bool) (s : REParseState) (hs : ParserOk u s) (hp : G s.bufPtr)
    (hlt : s.bufPtr.length < n) :
    Post E (CodeRead u G s.bufPtr.length) (reParseDisjunction U n isBackwardDir s) := by
  induction n generalizing isBackwardDir s with
  | zero => omega
  | succ n ih =>
    exact disjunctionWith_post h (fun t ht hg hle => reParseTerm_post h U ht ih hg hle) hs hp (Nat.le_of_lt_succ hlt)

end Jsregexp
