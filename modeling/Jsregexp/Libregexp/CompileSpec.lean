import Jsregexp.Libregexp.ParserSpec

namespace Jsregexp

open Library.Fallible

section Table

variable {gs : List (Bytes × UInt8)}

@[simp] lemma nameTable_nil : nameTable [] = [] := rfl

@[simp] lemma nameTable_cons (g : Bytes × UInt8) : nameTable (g :: gs) = g.1 ++ 0 :: g.2 :: nameTable gs := by
  simp [nameTable]

lemma nameTable_length : (nameTable gs).length =
    (gs.map fun g => g.1.length).sum + gs.length * lreGroupNameTrailerLen := by
  induction gs with
  | nil => rfl
  | cons g gs ih =>
    simp only [nameTable_cons, List.length_append, List.length_cons, ih, List.map_cons, List.sum_cons,
      lreGroupNameTrailerLen]
    ring

lemma nameTable_length_lt_iff : gs.length * lreGroupNameTrailerLen < (nameTable gs).length ↔ ∃ g ∈ gs, g.1 ≠ [] := by
  rw [nameTable_length, Nat.lt_add_left_iff_pos, Nat.pos_iff_ne_zero, ne_eq, List.sum_eq_zero_iff]
  simp

lemma groupNameEntries_nameTable (hz : ∀ g ∈ gs, 0 ∉ g.1) {n : ℕ} (hn : (nameTable gs).length ≤ n) :
    groupNameEntries n (nameTable gs) = gs.map fun g => (g.1, g.2.toNat) := by
  induction gs generalizing n with
  | nil => cases n <;> simp [groupNameEntries]
  | cons g gs ih =>
    obtain ⟨name, scope⟩ := g
    rw [nameTable_cons] at hn ⊢
    rw [List.length_append, List.length_cons, List.length_cons] at hn
    obtain ⟨n, rfl⟩ : ∃ m, n = m + 1 := ⟨n - 1, by omega⟩
    have hz₀ : 0 ∉ name := hz _ List.mem_cons_self
    have hscope : peek (name ++ 0 :: scope :: nameTable gs) (name.length + 1) = scope.toNat := by
      rw [peek_append_right]
      simp
    have hdrop : (name ++ 0 :: scope :: nameTable gs).drop (name.length + lreGroupNameTrailerLen) = nameTable gs := by
      simp [lreGroupNameTrailerLen, List.drop_append]
    rw [groupNameEntries, if_neg (by simp)]
    dsimp only
    rw [cString_append_zero hz₀, hscope, hdrop, ih (fun g hg => hz g (List.mem_cons_of_mem _ hg)) (by omega)]
    rfl

lemma HasGroups.groups_eq {s : REParseState} (h : HasGroups s gs) : s.groups = gs.map fun g => (g.1, g.2.toNat) := by
  rw [REParseState.groups, h.table]
  exact groupNameEntries_nameTable h.noNul le_rfl

end Table

section Parse

variable {u : Bool} {G : Bytes → Prop} {E : Failure → Prop} (h : Readable u G E) (U : Libunicode)
variable {buf : Bytes} {reFlags : ℕ} (hu : (REParseState.start buf reFlags).isUnicode = u) (hp : G buf)
include h hu hp

lemma lreParse_post :
    Post E (fun r => (∃ gs, HasGroups r.2 gs) ∧ Balanced r.1) (lreParse U buf reFlags) := by
  have hstart : ParserOk u (REParseState.start buf reFlags) :=
    ⟨hu, isName_nil, [], rfl, by simp, by simp, rfl, show 1 ≤ captureCountMax by decide⟩
  rw [lreParse]
  apply (reParseDisjunction_post h U (buf.length + 1) false _ hstart hp (Nat.lt_succ_self _)).bind
  intro r hr
  dsimp only
  split
  · exact h.message _ (by decide)
  · exact ⟨hr.state.groups, hr.code⟩

structure NamesCompiled (reFlags : ℕ) (gs : List (Bytes × UInt8)) (fits : Bool) (bc : Bytecode) : Prop where
  count : bc.captureCount = gs.length + 1
  limit : bc.captureCount ≤ captureCountMax
  named : (∃ g ∈ gs, g.1 ≠ []) → bc.flags = reFlags ||| lreFlagNamedGroups ∧
    bc.groupNames = if fits then nameTable gs else []
  unnamed : (¬ ∃ g ∈ gs, g.1 ≠ []) → bc.flags = reFlags ∧ bc.groupNames = []

theorem lreCompile_post : Post E (fun bc => ∃ code s gs, lreParse U buf reFlags = .ok (code, s) ∧ HasGroups s gs ∧
    NamesCompiled reFlags gs (namesFit (wholeCode reFlags code) s.groupNames) bc) (lreCompile U buf reFlags) := by
  have hparse := lreParse_post h U hu hp
  rw [lreCompile]
  cases hr : lreParse U buf reFlags with
  | error e =>
    rw [hr] at hparse
    exact hparse
  | ok r =>
    obtain ⟨code, s⟩ := r
    rw [hr] at hparse
    obtain ⟨⟨gs, hgs⟩, hcode⟩ := hparse
    have hsearch : Balanced (searchLoop (decide (reFlags &&& lreFlagSticky ≠ 0))) := by
      apply balanced_of_plain
      rw [searchLoop]
      split <;> simp [Op.usesRegister]
    have hall : Balanced (wholeCode reFlags code) :=
      (hsearch.append ((balanced_plain rfl).cons hcode)).append (balanced_of_plain (by simp [Op.usesRegister]))
    obtain ⟨_, huse⟩ := hall
    have hcount := huse ⟨0, 0, []⟩ 0 rfl le_rfl
    rw [← computeRegisterCount] at hcount
    show Post E _ (if (byteCode (wholeCode reFlags code)).error = true then _ else _)
    split
    · exact h.message _ (by decide)
    cases hst : computeRegisterCount (wholeCode reFlags code) with
    | error e =>
      rw [hst] at hcount
      obtain rfl : e = tooManyRegisters := hcount
      exact h.message _ (by decide)
    | ok st =>
      have hnamed : s.groupNames.length > (s.captureCount - 1) * lreGroupNameTrailerLen ↔ ∃ g ∈ gs, g.1 ≠ [] := by
        rw [hgs.table, hgs.count, Nat.add_sub_cancel, gt_iff_lt, nameTable_length_lt_iff]
      refine ⟨code, s, gs, rfl, hgs, hgs.count, hgs.limit, fun hn => ?_, fun hn => ?_⟩
      · simp only [compiledBuffer, hnamed.mpr hn, decide_true, if_true, Bool.true_and]
        rw [hgs.table]
        exact ⟨trivial, rfl⟩
      · simp only [compiledBuffer, hnamed.not.mpr hn, decide_false, Bool.false_eq_true, if_false, Bool.false_and,
          and_self]

end Parse

end Jsregexp
