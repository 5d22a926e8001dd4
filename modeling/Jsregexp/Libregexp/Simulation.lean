import Jsregexp.Library.Backtracking
import Jsregexp.Libregexp.Advance
import Jsregexp.Libregexp.LiteralSearch
import Jsregexp.Libregexp.RegisterFill

namespace Jsregexp

open Library.Iteration Library.Backtracking Library.Repetition

section Undo

variable {capture : ℕ → Option ℕ} {undo undo' : List (ℕ × Option ℕ)}

lemma restore_append : restore capture (undo ++ undo') = restore (restore capture undo) undo' :=
  List.foldl_append

lemma restore_update_of_mem {idx : ℕ} (h : ∃ e ∈ undo, e.1 = idx) (value : Option ℕ) :
    restore (Function.update capture idx value) undo = restore capture undo := by
  induction undo generalizing capture with
  | nil =>
    obtain ⟨e, he, -⟩ := h
    cases he
  | cons e undo ih =>
    show restore (Function.update (Function.update capture idx value) e.1 e.2) undo =
      restore (Function.update capture e.1 e.2) undo
    by_cases he : e.1 = idx
    · rw [he, Function.update_idem]
    · obtain ⟨e', he', rfl⟩ := h
      rw [Function.update_comm (Ne.symm he), ih ⟨e', (List.mem_cons.mp he').resolve_left fun h => he (h ▸ rfl), rfl⟩]

structure Undoes (base st : ExecState) : Prop where
  saved : st.saved = base.saved
  restore : base.saved = [] ∨ restore st.capture st.undo = restore base.capture base.undo

def Above (base st : ExecState) : Prop :=
  ∃ news, st.saved = news ++ base.saved ∧ (∀ t ∈ news, t.type = .split) ∧
    (base.saved = [] ∨ restore st.capture (st.undo ++ news.flatMap (·.undo)) = restore base.capture base.undo)

variable {base st st' : ExecState}

lemma Undoes.execFail (h : Undoes base st) : execFail st = execFail base := by
  rw [Jsregexp.execFail, Jsregexp.execFail, h.saved]
  rcases h.restore with hnil | hrestore
  · rw [hnil]
    rfl
  · cases base.saved with
    | nil => rfl
    | cons t saved => rw [popStates, popStates, hrestore]

lemma Undoes.above (h : Undoes base st) : Above base st := by
  refine ⟨[], h.saved, fun t ht => absurd ht List.not_mem_nil, ?_⟩
  rw [List.flatMap_nil, List.append_nil]
  exact h.restore

lemma Above.trans (h : Above base st) (h' : Above st st') : Above base st' := by
  obtain ⟨news, hsaved, hsplit, hrestore⟩ := h
  obtain ⟨news', hsaved', hsplit', hrestore'⟩ := h'
  refine ⟨news' ++ news, ?_, ?_, ?_⟩
  · rw [hsaved', hsaved, List.append_assoc]
  · intro t ht
    rcases List.mem_append.mp ht with ht | ht
    · exact hsplit' t ht
    · exact hsplit t ht
  · rcases hrestore' with hnil | hrestore'
    · exact .inl (List.append_eq_nil_iff.mp (hsaved.symm.trans hnil)).2
    · refine hrestore.imp_right fun hrestore => ?_
      rw [List.flatMap_append, ← List.append_assoc, restore_append, hrestore', ← restore_append]
      exact hrestore

lemma undoes_saveCapture (st : ExecState) (idx : ℕ) (value : Option ℕ) : Undoes st (st.saveCapture idx value) := by
  refine ⟨rfl, .inr ?_⟩
  show restore (Function.update (Function.update st.capture idx value) idx (st.capture idx)) st.undo = _
  rw [Function.update_idem, Function.update_eq_self]

lemma undoes_saveCaptureCheck (st : ExecState) (idx : ℕ) (value : Option ℕ) :
    Undoes st (st.saveCaptureCheck idx value) := by
  rw [ExecState.saveCaptureCheck]
  split
  · next hmem =>
    obtain ⟨e, he, heq⟩ := List.any_eq_true.mp hmem
    exact ⟨rfl, .inr (restore_update_of_mem ⟨e, he, of_decide_eq_true heq⟩ value)⟩
  · exact undoes_saveCapture st idx value

lemma saveCaptureCheck_capture (st : ExecState) (idx : ℕ) (value : Option ℕ) :
    (st.saveCaptureCheck idx value).capture = Function.update st.capture idx value := by
  rw [ExecState.saveCaptureCheck]
  split <;> rfl

lemma saveCaptureCheck_pc (st : ExecState) (idx : ℕ) (value : Option ℕ) :
    (st.saveCaptureCheck idx value).pc = st.pc := by
  rw [ExecState.saveCaptureCheck]
  split <;> rfl

lemma saveCaptureCheck_cptr (st : ExecState) (idx : ℕ) (value : Option ℕ) :
    (st.saveCaptureCheck idx value).cptr = st.cptr := by
  rw [ExecState.saveCaptureCheck]
  split <;> rfl

end Undo

section Outcome

variable (s : REExecContext)

structure ExecState.Shows (st : ExecState) (σ : MatchState) : Prop where
  cptr : st.cptr = σ.cptr
  capture : ∀ j < 2 * s.captureCount, st.capture j = σ.capture j
  inside : σ.cptr ≤ s.cbufEnd

structure Within (k : ℕ) (base st : ExecState) : Prop where
  above : Above base st
  registers : ∀ j < k, st.capture (2 * s.captureCount + j) = base.capture (2 * s.captureCount + j)

structure HandsOn (base : ExecState) (pc k : ℕ) (σ : MatchState) (st : ExecState) : Prop where
  pc : st.pc = pc
  shows : st.Shows s σ
  within : Within s k base st

variable {s} {base st st' : ExecState} {k k' pc : ℕ} {σ : MatchState}

lemma Undoes.within (h : Undoes base st)
    (hregisters : ∀ j < k, st.capture (2 * s.captureCount + j) = base.capture (2 * s.captureCount + j)) :
    Within s k base st :=
  ⟨h.above, hregisters⟩

lemma within_pc (st : ExecState) (pc : ℤ) : Within s k st { st with pc := pc } :=
  Undoes.within ⟨rfl, .inr rfl⟩ fun _ _ => rfl

lemma Within.trans (h : Within s k base st) (h' : Within s k' st st') (hle : k ≤ k') : Within s k base st' :=
  ⟨h.above.trans h'.above, fun j hj => (h'.registers j (hj.trans_le hle)).trans (h.registers j hj)⟩

lemma Within.mono (h : Within s k' base st) (hle : k ≤ k') : Within s k base st :=
  ⟨h.above, fun j hj => h.registers j (hj.trans_le hle)⟩

lemma Within.handsOn (h : Within s k base st) (h' : HandsOn s st pc k' σ st') (hle : k ≤ k') :
    HandsOn s base pc k σ st' :=
  ⟨h'.pc, h'.shows, h.trans h'.within hle⟩

lemma ExecState.Shows.at (h : st.Shows s σ) (pc : ℤ) : ({ st with pc := pc } : ExecState).Shows s σ :=
  ⟨h.cptr, h.capture, h.inside⟩

end Outcome

section Code

variable (U : Libunicode) (s : REExecContext)

def CodeAt (n : ℕ) (code : List Op) : Prop := ∃ pre post, s.code = pre ++ (code ++ post) ∧ codeSize pre = n

variable {s} {n : ℕ} {op : Op} {code code' : List Op}

lemma CodeAt.left (h : CodeAt s n (code ++ code')) : CodeAt s n code := by
  obtain ⟨pre, post, hcode, hn⟩ := h
  exact ⟨pre, code' ++ post, hcode.trans (by rw [List.append_assoc]), hn⟩

lemma CodeAt.right (h : CodeAt s n (code ++ code')) : CodeAt s (n + codeSize code) code' := by
  obtain ⟨pre, post, hcode, rfl⟩ := h
  exact ⟨pre ++ code, post, hcode.trans (by simp), codeSize_append _ _⟩

lemma CodeAt.head (h : CodeAt s n (op :: code)) : CodeAt s n [op] :=
  CodeAt.left (show CodeAt s n ([op] ++ code) from h)

lemma CodeAt.tail (h : CodeAt s n (op :: code)) : CodeAt s (n + op.size) code := by
  have hright := CodeAt.right (show CodeAt s n ([op] ++ code) from h)
  simpa using hright

lemma CodeAt.step (h : CodeAt s n (op :: code)) {st : ExecState} (hpc : st.pc = n) :
    lreExecBacktrack U s st = execOp U s op { st with pc := (n + op.size : ℕ) } := by
  obtain ⟨pre, post, hcode, rfl⟩ := h
  rw [lreExecBacktrack_at pre hcode hpc, codeSize_append, codeSize_cons, codeSize_nil]
  rfl

variable (s)

abbrev Tries (base : ExecState) (pc k : ℕ) (last x : ExecResult) (σs : List MatchState) : Prop :=
  Yields (lreExecBacktrack U s) execFail (HandsOn s base pc k) last x σs

/-- From the beginning of the code the interpreter comes to the outcomes of `f` at its end, and falls back when it has
failed behind all of them; `k` registers are in use around the code. -/
def Performs (k : ℕ) (code : List Op) (f : MatchState → List MatchState) : Prop :=
  ∀ (n : ℕ) (st : ExecState) (σ : MatchState), CodeAt s n code → st.pc = n → st.Shows s σ →
    Tries U s st (n + codeSize code) k (execFail st) (.inl st) (f σ)

variable {U s} {k : ℕ} {f g : MatchState → List MatchState}

lemma Tries.within {base base' : ExecState} {pc k' : ℕ} {last x : ExecResult} {σs : List MatchState}
    (h : Tries U s base' pc k' last x σs) (hw : Within s k base base') (hle : k ≤ k') : Tries U s base pc k last x σs :=
  h.mono fun _ _ hout => hw.handsOn hout hle

lemma performs_nil : Performs U s k [] fun σ => [σ] := by
  intro n st σ _ hpc hσ
  exact .single ⟨by simpa using hpc, hσ, within_pc st st.pc⟩ rfl

lemma Performs.append (h : Performs U s k code f) (h' : Performs U s k code' g) :
    Performs U s k (code ++ code') fun σ => (f σ).flatMap g := by
  intro n st σ hcode hpc hσ
  apply (h n st σ hcode.left hpc hσ).bind
  intro τ _ st' hst'
  have htries := h' _ st' τ hcode.right hst'.pc hst'.shows
  rw [codeSize_append, ← Nat.add_assoc]
  exact Tries.within htries hst'.within le_rfl

lemma Performs.cons (h : Performs U s k [op] f) (h' : Performs U s k code g) :
    Performs U s k (op :: code) fun σ => (f σ).flatMap g :=
  h.append h'

lemma Performs.congr (h : Performs U s k code f) (hfg : ∀ σ, f σ = g σ) : Performs U s k code g :=
  (funext hfg : f = g) ▸ h

inductive OpResult (s : REExecContext) (k : ℕ) (st : ExecState) : Option MatchState → ExecResult → Prop
  | fails : OpResult s k st none (execFail st)
  | goesOn {σ : MatchState} {st' : ExecState} (hpc : st'.pc = st.pc) (hshows : st'.Shows s σ)
      (hundoes : Undoes st st')
      (hregisters : ∀ j < k, st'.capture (2 * s.captureCount + j) = st.capture (2 * s.captureCount + j)) :
      OpResult s k st (some σ) (.inl st')

lemma performs_op {f : MatchState → Option MatchState}
    (h : ∀ st σ, st.Shows s σ → OpResult s k st (f σ) (execOp U s op st)) :
    Performs U s k [op] fun σ => (f σ).toList := by
  intro n st σ hcode hpc hσ
  apply Yields.head
  rw [hcode.step U hpc]
  have hop := h { st with pc := (n + op.size : ℕ) } σ (hσ.at _)
  generalize execOp U s op { st with pc := (n + op.size : ℕ) } = r at hop
  show Tries U s st (n + codeSize [op]) k (execFail st) r (f σ).toList
  generalize f σ = o at hop ⊢
  cases hop with
  | fails => exact .none rfl
  | goesOn hpc' hshows hundoes hregisters =>
    refine .single ⟨?_, hshows, (within_pc st _).trans (hundoes.within hregisters) le_rfl⟩ hundoes.execFail
    rw [hpc', codeSize_cons, codeSize_nil, Nat.add_zero]

end Code

section Atom

variable {U : Libunicode} {s : REExecContext} {k : ℕ} {op : Op} {code : List Op} {st : ExecState} {σ : MatchState}

lemma execOp_isChar (h : op.IsChar) (st : ExecState) : execOp U s op st = overChar s (charTest U s op) st := by
  cases op with
  | char _ _ | char32 _ _ | dot | any | space _ | range _ _ | range32 _ _ => rfl
  | _ => cases h

lemma execOp_isPosition (h : op.IsPosition) (st : ExecState) :
    execOp U s op st = onlyIf (positionTest s op st.cptr) st := by
  cases op with
  | lineStart _ | lineEnd _ | wordBoundary _ _ => rfl
  | _ => cases h

lemma OpResult.moved {cptr : ℕ} (hσ : st.Shows s σ) (hend : cptr ≤ s.cbufEnd) :
    OpResult s k st (some { σ with cptr := cptr }) (.inl { st with cptr := cptr }) :=
  .goesOn rfl ⟨rfl, hσ.capture, hend⟩ ⟨rfl, .inr rfl⟩ fun _ _ => rfl

lemma OpResult.stays (hσ : st.Shows s σ) : OpResult s k st (some σ) (.inl st) :=
  .goesOn rfl hσ ⟨rfl, .inr rfl⟩ fun _ _ => rfl

lemma overChar_result (accepts : ℕ → Bool) (hσ : st.Shows s σ) :
    OpResult s k st (σ.over s accepts) (overChar s accepts st) := by
  rw [overChar, MatchState.over, hσ.cptr]
  split
  · exact .fails
  · next hlt =>
    dsimp only
    split
    · exact .moved hσ (getChar_le s (not_le.mp hlt))
    · exact .fails

lemma onlyIf_result (test : Bool) (hσ : st.Shows s σ) : OpResult s k st (σ.onlyIf test) (onlyIf test st) := by
  rw [onlyIf, MatchState.onlyIf]
  split
  · exact .stays hσ
  · exact .fails

lemma referredSpan_congr {capture capture' : ℕ → Option ℕ} (h : ∀ j < 2 * s.captureCount, capture j = capture' j)
    (groups : List ℕ) : referredSpan s capture groups = referredSpan s capture' groups := by
  induction groups with
  | nil => rfl
  | cons val groups ih =>
    rw [referredSpan, referredSpan]
    split
    · rfl
    · rw [h (2 * val) (by omega), h (2 * val + 1) (by omega), ih]

lemma execBackReference_result (backward ignoreCase : Bool) (groups : List ℕ) (hσ : st.Shows s σ) :
    OpResult s k st (σ.refer U s backward ignoreCase groups) (execBackReference U s backward ignoreCase groups st) := by
  have hmoves {τ : MatchState} (h : σ.refer U s backward ignoreCase groups = some τ) : τ.cptr ≤ s.cbufEnd :=
    (refer_moves U s h hσ.inside).1
  rw [MatchState.refer] at hmoves
  rw [execBackReference, MatchState.refer, referredSpan_congr hσ.capture, hσ.cptr]
  cases hspan : referredSpan s σ.capture groups with
  | none => exact .fails
  | some span =>
    cases span with
    | none => exact .stays hσ
    | some span =>
      rw [hspan] at hmoves
      dsimp only at hmoves ⊢
      cases hcptr : (if backward then sameCharsBackward s U ignoreCase span.1 (span.2 + 1) span.2 σ.cptr
          else sameChars s U ignoreCase span.2 (span.2 + 1) span.1 σ.cptr) with
      | none => exact .fails
      | some cptr =>
        rw [hcptr] at hmoves
        exact .moved hσ (hmoves rfl)

lemma prev_result (hσ : st.Shows s σ) : OpResult s k st (atomStep U s σ .prev) (execOp U s .prev st) := by
  rw [atomStep, execOp, hσ.cptr]
  split
  · exact .fails
  · next hne => exact .moved hσ ((getPrevChar_lt s hne 0).le.trans hσ.inside)

lemma performs_char (h : op.IsChar) : Performs U s k [op] fun σ => (atomStep U s σ op).toList := by
  apply performs_op
  intro st σ hσ
  rw [atomStep_char U s h, execOp_isChar h]
  exact overChar_result _ hσ

lemma performs_row (h : ∀ op ∈ code, Performs U s k [op] fun σ => (atomStep U s σ op).toList) :
    Performs U s k code fun σ => (code.foldlM (atomStep U s) σ).toList := by
  induction code with
  | nil => exact performs_nil
  | cons op code ih =>
    apply ((h op List.mem_cons_self).cons (ih fun op hop => h op (List.mem_cons_of_mem _ hop))).congr
    intro σ
    rw [List.foldlM_cons]
    cases atomStep U s σ op <;> simp

theorem AtomCode.performs {isBackwardDir : Bool} (h : AtomCode isBackwardDir code) :
    Performs U s k code fun σ => (code.foldlM (atomStep U s) σ).toList := by
  have hprev : Performs U s k [.prev] fun σ => (atomStep U s σ .prev).toList :=
    performs_op fun st σ hσ => prev_result hσ
  apply performs_row
  cases h with
  | empty => exact fun op hop => absurd hop List.not_mem_nil
  | position hop =>
    intro op hmem
    obtain rfl := List.mem_singleton.mp hmem
    apply performs_op
    intro st σ hσ
    rw [atomStep_position U s hop, execOp_isPosition hop, hσ.cptr]
    exact onlyIf_result _ hσ
  | reference ignoreCase groups =>
    intro op hmem
    obtain rfl := List.mem_singleton.mp hmem
    exact performs_op fun st σ hσ => execBackReference_result _ _ _ hσ
  | char hop =>
    intro op hmem
    cases isBackwardDir with
    | false =>
      obtain rfl := List.mem_singleton.mp hmem
      exact performs_char hop
    | true =>
      rcases List.mem_cons.mp hmem with rfl | hmem
      · exact hprev
      · rcases List.mem_cons.mp hmem with rfl | hmem
        · exact performs_char hop
        · obtain rfl := List.mem_singleton.mp hmem
          exact hprev

end Atom

section Captures

variable {U : Libunicode} {s : REExecContext} {k : ℕ} {st : ExecState} {σ : MatchState}

lemma update_register {capture : ℕ → Option ℕ} {idx : ℕ} (hidx : idx < 2 * s.captureCount) (value : Option ℕ) :
    ∀ j < k, Function.update capture idx value (2 * s.captureCount + j) = capture (2 * s.captureCount + j) :=
  fun _ _ => Function.update_of_ne (by omega) _ _

lemma saveCapture_result {slot : ℕ} (hslot : slot < 2 * s.captureCount) (hσ : st.Shows s σ) :
    OpResult s k st (some (σ.save slot)) (.inl (st.saveCapture slot (some st.cptr))) := by
  refine .goesOn rfl ⟨hσ.cptr, fun j hj => ?_, hσ.inside⟩ (undoes_saveCapture _ _ _) (update_register hslot _)
  show Function.update st.capture slot (some st.cptr) j = Function.update σ.capture slot (some σ.cptr) j
  rw [hσ.cptr, Function.update_apply, Function.update_apply, hσ.capture j hj]

lemma performs_save {val : ℕ} (hval : val < s.captureCount) (isEnd : Bool) :
    Performs U s k [if isEnd then .saveEnd val else .saveStart val] fun σ => [σ.save (2 * val + isEnd.toNat)] := by
  apply performs_op (f := fun σ => some (σ.save (2 * val + isEnd.toNat)))
  intro st σ hσ
  have hslot : 2 * val + isEnd.toNat < 2 * s.captureCount := by
    cases isEnd <;> simp <;> omega
  cases isEnd with
  | false =>
    show OpResult s k st _ (if val < s.captureCount then .inl (st.saveCapture (2 * val) (some st.cptr)) else _)
    rw [if_pos hval]
    exact saveCapture_result hslot hσ
  | true =>
    show OpResult s k st _ (if val < s.captureCount then .inl (st.saveCapture (2 * val + 1) (some st.cptr)) else _)
    rw [if_pos hval]
    exact saveCapture_result hslot hσ

lemma Undoes.trans {base st st' : ExecState} (h : Undoes base st) (h' : Undoes st st') : Undoes base st' := by
  refine ⟨h'.saved.trans h.saved, ?_⟩
  rcases h.restore with hnil | hrestore
  · exact .inl hnil
  · exact h'.restore.imp (fun hnil => h.saved ▸ hnil) fun hrestore' => hrestore'.trans hrestore

lemma saveReset_fold (n val : ℕ) (st : ExecState) :
    ∃ st', (List.range' val n).foldl
        (fun st val => (st.saveCapture (2 * val) none).saveCapture (2 * val + 1) none) st = st' ∧
      st'.pc = st.pc ∧ st'.cptr = st.cptr ∧ Undoes st st' ∧
      ∀ j, st'.capture j = if 2 * val ≤ j ∧ j < 2 * (val + n) then none else st.capture j := by
  induction n generalizing val st with
  | zero => exact ⟨st, rfl, rfl, rfl, ⟨rfl, .inr rfl⟩, fun j => by rw [if_neg (by omega)]⟩
  | succ n ih =>
    obtain ⟨st', hst', hpc, hcptr, hundoes, hcapture⟩ :=
      ih (val + 1) ((st.saveCapture (2 * val) none).saveCapture (2 * val + 1) none)
    refine ⟨st', hst', hpc, hcptr, ?_, fun j => ?_⟩
    · exact ((undoes_saveCapture _ _ _).trans (undoes_saveCapture _ _ _)).trans hundoes
    · rw [hcapture]
      show (if _ then none else
        Function.update (Function.update st.capture (2 * val) none) (2 * val + 1) none j) = _
      simp only [Function.update_apply]
      grind

lemma performs_reset (reset : Bool) {first count : ℕ} (hcount : first + count ≤ s.captureCount) :
    Performs U s k (resetCode reset first (first + count)) fun σ => [beforeTurn reset first count σ] := by
  by_cases hreset : (reset && decide (first ≠ first + count)) = true
  · rw [resetCode, if_pos hreset]
    simp only [Bool.and_eq_true, decide_eq_true_eq] at hreset
    obtain ⟨rfl, hne⟩ := hreset
    apply performs_op (f := fun σ => some (σ.reset first count))
    intro st σ hσ
    obtain ⟨st', hst', hpc, hcptr, hundoes, hcapture⟩ := saveReset_fold count first st
    have hop : execOp U s (.saveReset first (first + count - 1)) st = .inl st' := by
      show (if first + count - 1 < s.captureCount then Sum.inl (st.saveReset first (first + count - 1)) else _) = _
      rw [if_pos (by omega), ExecState.saveReset, show first + count - 1 + 1 - first = count by omega, hst']
    rw [hop]
    refine .goesOn hpc ⟨hcptr.trans hσ.cptr, fun j hj => ?_, hσ.inside⟩ hundoes fun j hj => ?_
    · rw [hcapture, hσ.capture j hj]
      rfl
    · rw [hcapture, if_neg (by omega)]
  · have hnone (σ : MatchState) : [σ] = [beforeTurn reset first count σ] := by
      cases reset with
      | false => rfl
      | true =>
        have hzero : count = 0 := by simpa using hreset
        have hcapture : (σ.reset first count).capture = σ.capture := by
          funext j
          exact if_neg (by omega)
        rw [beforeTurn, if_pos rfl]
        congr 1
        exact congrArg (MatchState.mk σ.cptr) hcapture.symm
    rw [resetCode, if_neg hreset]
    exact performs_nil.congr hnone

end Captures

section Branch

variable {U : Libunicode} {s : REExecContext} {base st : ExecState} {σ : MatchState} {k : ℕ}
variable {code code' : List Op} {f g : MatchState → List MatchState}

def ExecState.branch (st : ExecState) (a b : ℤ) : ExecState :=
  { st with pc := a, undo := [], saved := ⟨b, st.cptr, .split, st.undo⟩ :: st.saved }

lemma execFail_branch (st : ExecState) (a b : ℤ) : execFail (st.branch a b) = .inl { st with pc := b } := rfl

lemma ExecState.Shows.branch (h : st.Shows s σ) (a b : ℤ) : (st.branch a b).Shows s σ := ⟨h.cptr, h.capture, h.inside⟩

lemma within_branch (st : ExecState) (a b : ℤ) : Within s k st (st.branch a b) := by
  refine ⟨⟨[⟨b, st.cptr, .split, st.undo⟩], rfl, fun t ht => ?_, .inr ?_⟩, fun _ _ => rfl⟩
  · rw [List.mem_singleton.mp ht]
  · show restore st.capture ([] ++ (st.undo ++ [])) = _
    rw [List.append_nil, List.nil_append]

lemma tries_branch {a b : ℤ} {pc : ℕ} {last : ExecResult} {σs τs : List MatchState}
    (h : Tries U s (st.branch a b) pc k (execFail (st.branch a b)) (.inl (st.branch a b)) σs)
    (h' : Tries U s { st with pc := b } pc k last (.inl { st with pc := b }) τs) :
    Tries U s st pc k last (.inl (st.branch a b)) (σs ++ τs) := by
  have hfirst := h.within (within_branch st a b) le_rfl
  rw [execFail_branch] at hfirst
  exact hfirst.append (h'.within (within_pc st b) le_rfl)

lemma Tries.goto {pc pc' : ℕ} {off : ℤ} {last x : ExecResult} {σs : List MatchState}
    (h : Tries U s base pc k last x σs) (hcode : CodeAt s pc [.goto off]) (hpc : (pc' : ℤ) = pc + 5 + off) :
    Tries U s base pc' k last x σs := by
  have hgoto : Tries U s base pc' k last x (σs.flatMap fun σ => [σ]) := by
    apply Yields.bind h
    intro σ _ st hst
    apply Yields.head
    rw [hcode.step U hst.pc]
    refine .single ⟨?_, hst.shows.at _, hst.within.trans (within_pc st _) le_rfl⟩ rfl
    show ((pc + 5 : ℕ) : ℤ) + off = pc'
    omega
  rwa [List.flatMap_singleton'] at hgoto

theorem Performs.alternative (h : Performs U s k code f) (h' : Performs U s k code' g) :
    Performs U s k (.split true (codeSize code + 5) :: code ++ .goto (codeSize code') :: code')
      fun σ => f σ ++ g σ := by
  intro n st σ hcode hpc hσ
  have hleft : CodeAt s (n + 5) code := (CodeAt.tail hcode).left
  have hright : CodeAt s (n + 5 + codeSize code) (.goto (codeSize code') :: code') := (CodeAt.tail hcode).right
  have hstep : lreExecBacktrack U s st =
      .inl (st.branch (n + 5 : ℕ) (n + 5 + codeSize code + 5 : ℕ)) := by
    rw [CodeAt.step U hcode hpc]
    show Sum.inl (ExecState.branch st (n + 5 : ℕ) ((n + 5 : ℕ) + (codeSize code + 5))) = _
    congr 2
  have hsize : n + codeSize (.split true (codeSize code + 5) :: code ++ .goto (codeSize code') :: code') =
      n + 5 + codeSize code + 5 + codeSize code' := by
    simp only [List.cons_append, codeSize_cons, codeSize_append, Op.size]
    omega
  rw [hsize]
  apply Yields.head
  rw [hstep]
  apply tries_branch
  · apply Tries.goto (h _ _ σ hleft rfl (hσ.branch _ _)) hright.head
    push_cast
    ring
  · exact h' _ _ σ hright.tail rfl (hσ.at _)

theorem Performs.capture {body : List Op} (h : Performs U s k body f) {val : ℕ} (isBackwardDir : Bool)
    (hval : val < s.captureCount) :
    Performs U s k ((if isBackwardDir then .saveEnd val else .saveStart val) :: body ++
        [if isBackwardDir then .saveStart val else .saveEnd val])
      fun σ => (f (σ.save (2 * val + isBackwardDir.toNat))).map (·.save (2 * val + (!isBackwardDir).toNat)) := by
  have hall := ((performs_save hval isBackwardDir).cons h).append (performs_save hval (!isBackwardDir))
  have hcode : (if (!isBackwardDir) = true then Op.saveEnd val else .saveStart val) =
      if isBackwardDir = true then .saveStart val else .saveEnd val := by
    cases isBackwardDir <;> rfl
  rw [hcode] at hall
  apply hall.congr
  intro σ
  rw [List.flatMap_singleton]
  exact List.map_eq_flatMap.symm

end Branch

section Lookahead

variable {U : Libunicode} {s : REExecContext} {k : ℕ} {body : List Op} {f : MatchState → List MatchState}

lemma popLookahead_above {t : SavedState} (ht : t.type = .lookahead) (saved : List SavedState) {news : List SavedState}
    (hnews : ∀ t ∈ news, t.type = .split) (undo : List (ℕ × Option ℕ)) :
    popLookahead undo (news ++ t :: saved) = some (t, undo ++ news.flatMap (·.undo), saved) := by
  induction news generalizing undo with
  | nil =>
    rw [List.nil_append, popLookahead, if_pos ht, List.flatMap_nil, List.append_nil]
  | cons u news ih =>
    have hu : u.type ≠ .lookahead := by
      rw [hnews u List.mem_cons_self]
      decide
    rw [List.cons_append, popLookahead, if_neg hu, ih fun t ht => hnews t (List.mem_cons_of_mem _ ht),
      List.flatMap_cons, List.append_assoc]

lemma popNegativeLookahead_above {t : SavedState} (ht : t.type = .negativeLookahead) (saved : List SavedState)
    {news : List SavedState} (hnews : ∀ t ∈ news, t.type = .split) (capture : ℕ → Option ℕ)
    (undo : List (ℕ × Option ℕ)) :
    popNegativeLookahead capture undo (news ++ t :: saved) =
      some (restore capture (undo ++ news.flatMap (·.undo)), t.undo, saved) := by
  induction news generalizing capture undo with
  | nil =>
    rw [List.nil_append, popNegativeLookahead, if_pos ht, List.flatMap_nil, List.append_nil]
  | cons u news ih =>
    have hu : u.type ≠ .negativeLookahead := by
      rw [hnews u List.mem_cons_self]
      decide
    rw [List.cons_append, popNegativeLookahead, if_neg hu, ih fun t ht => hnews t (List.mem_cons_of_mem _ ht),
      List.flatMap_cons, ← List.append_assoc, restore_append, restore_append, restore_append]

def ExecState.lookInto (st : ExecState) (isNeg : Bool) (pc pc' : ℤ) : ExecState :=
  { st.pushState pc' (if isNeg then .negativeLookahead else .lookahead) with pc := pc }

variable {st st' : ExecState} {σ τ : MatchState} {pc pc' pcBody : ℕ}

lemma positive_matched (hσ : st.Shows s σ) (hst : HandsOn s (st.lookInto false pc pc') pcBody k τ st') (p : ℤ) :
    ∃ st₃, execLookaheadMatch false { st' with pc := p } = .inl st₃ ∧
      HandsOn s st pc' k { τ with cptr := σ.cptr } st₃ ∧ execFail st₃ = execFail st := by
  obtain ⟨news, hsaved, hsplit, hrestore⟩ := hst.within.above
  have hrestore : restore st'.capture (st'.undo ++ news.flatMap (·.undo)) = st.capture :=
    hrestore.resolve_left (List.cons_ne_nil _ _)
  have hpop := popLookahead_above (t := ⟨pc', st.cptr, .lookahead, st.undo⟩) rfl st.saved hsplit st'.undo
  rw [← show st'.saved = news ++ ⟨pc', st.cptr, .lookahead, st.undo⟩ :: st.saved from hsaved] at hpop
  have hundoes (undo : List (ℕ × Option ℕ))
      (h : st.saved = [] ∨ undo = st'.undo ++ news.flatMap (·.undo) ++ st.undo) :
      Undoes st ⟨pc', st.cptr, st'.capture, undo, st.saved⟩ := by
    refine ⟨rfl, h.imp_right fun hundo => ?_⟩
    show restore st'.capture undo = _
    rw [hundo, restore_append, hrestore]
  refine ⟨⟨pc', st.cptr, st'.capture, if st.undo = [] ∧ st.saved.isEmpty then []
    else st'.undo ++ news.flatMap (·.undo) ++ st.undo, st.saved⟩, ?_,
    ⟨rfl, ⟨hσ.cptr, hst.shows.capture, hσ.inside⟩, ?_⟩, ?_⟩
  · rw [execLookaheadMatch, if_neg Bool.false_ne_true, hpop]
  all_goals
    have hall := hundoes (if st.undo = [] ∧ st.saved.isEmpty then []
      else st'.undo ++ news.flatMap (·.undo) ++ st.undo) (by
        split
        · next hnone => exact .inl (List.isEmpty_iff.mp hnone.2)
        · exact .inr rfl)
  · exact hall.within hst.within.registers
  · exact hall.execFail

lemma negative_matched (hst : HandsOn s (st.lookInto true pc pc') pcBody k τ st') (p : ℤ) :
    execLookaheadMatch true { st' with pc := p } = execFail st := by
  obtain ⟨news, hsaved, hsplit, hrestore⟩ := hst.within.above
  have hrestore : restore st'.capture (st'.undo ++ news.flatMap (·.undo)) = st.capture :=
    hrestore.resolve_left (List.cons_ne_nil _ _)
  have hpop := popNegativeLookahead_above (t := ⟨pc', st.cptr, .negativeLookahead, st.undo⟩) rfl st.saved hsplit
    st'.capture st'.undo
  rw [← show st'.saved = news ++ ⟨pc', st.cptr, .negativeLookahead, st.undo⟩ :: st.saved from hsaved,
    hrestore] at hpop
  rw [execLookaheadMatch, if_pos rfl, hpop]
  rfl

theorem Performs.lookahead (h : Performs U s k body f) (isNeg : Bool) :
    Performs U s k (.lookahead isNeg (codeSize body + 1) :: body ++ [.lookaheadMatch isNeg])
      fun σ => lookaheadResults isNeg σ (f σ) := by
  intro n st σ hcode hpc hσ
  have hbody : CodeAt s (n + 5) body := (CodeAt.tail hcode).left
  have hend : CodeAt s (n + 5 + codeSize body) [.lookaheadMatch isNeg] := (CodeAt.tail hcode).right
  have hstep : lreExecBacktrack U s st = .inl (st.lookInto isNeg (n + 5 : ℕ) (n + 5 + codeSize body + 1 : ℕ)) := by
    rw [CodeAt.step U hcode hpc]
    show Sum.inl (ExecState.lookInto st isNeg (n + 5 : ℕ) ((n + 5 : ℕ) + (codeSize body + 1))) = _
    congr 2
  have hsize : n + codeSize (.lookahead isNeg (codeSize body + 1) :: body ++ [.lookaheadMatch isNeg]) =
      n + 5 + codeSize body + 1 := by
    simp only [List.cons_append, codeSize_cons, codeSize_append, Op.size, codeSize_nil]
    omega
  have hinner := h _ (st.lookInto isNeg (n + 5 : ℕ) (n + 5 + codeSize body + 1 : ℕ)) σ hbody rfl
    ⟨hσ.cptr, hσ.capture, hσ.inside⟩
  rw [hsize]
  apply Yields.head
  rw [hstep]
  show Tries U s st _ k (execFail st) _ (lookaheadResults isNeg σ (f σ))
  cases hf : f σ with
  | nil =>
    rw [hf] at hinner
    apply Yields.lead hinner.nil
    cases isNeg with
    | false => exact .none rfl
    | true => exact .single ⟨rfl, hσ.at _, within_pc st _⟩ rfl
  | cons τ τs =>
    rw [hf] at hinner
    obtain ⟨st', hleads, hst'⟩ := hinner.cons
    apply Yields.lead hleads
    apply Yields.head
    rw [hend.step U hst'.pc]
    cases isNeg with
    | false =>
      obtain ⟨st₃, hmatch, hout, hfail⟩ := positive_matched hσ hst'
        (n + 5 + codeSize body + (Op.lookaheadMatch false).size : ℕ)
      rw [execOp, hmatch]
      exact .single hout hfail
    | true => exact .none (negative_matched hst' _)

end Lookahead

end Jsregexp
