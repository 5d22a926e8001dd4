import Jsregexp.Libregexp.Simulation

namespace Jsregexp

open Library.Iteration Library.Backtracking Library.Repetition

section Register

variable {s : REExecContext} {k : ℕ} {st : ExecState} {σ : MatchState}

structure SetsRegister (s : REExecContext) (k : ℕ) (value : Option ℕ) (st st' : ExecState) : Prop where
  pc : st'.pc = st.pc
  cptr : st'.cptr = st.cptr
  capture : st'.capture = Function.update st.capture (2 * s.captureCount + k) value
  undoes : Undoes st st'

lemma setsRegister (s : REExecContext) (k : ℕ) (value : Option ℕ) (st : ExecState) :
    SetsRegister s k value st (st.saveCaptureCheck (2 * s.captureCount + k) value) :=
  ⟨saveCaptureCheck_pc _ _ _, saveCaptureCheck_cptr _ _ _, saveCaptureCheck_capture _ _ _,
    undoes_saveCaptureCheck _ _ _⟩

variable {value : Option ℕ} {st' : ExecState}

lemma SetsRegister.shows (h : SetsRegister s k value st st') (hσ : st.Shows s σ) : st'.Shows s σ := by
  refine ⟨h.cptr.trans hσ.cptr, fun j hj => ?_, hσ.inside⟩
  rw [h.capture, Function.update_of_ne (by omega), hσ.capture j hj]

lemma SetsRegister.within (h : SetsRegister s k value st st') : Within s k st st' := by
  apply h.undoes.within
  intro j hj
  rw [h.capture, Function.update_of_ne (by omega)]

lemma SetsRegister.self (h : SetsRegister s k value st st') : st'.capture (2 * s.captureCount + k) = value := by
  rw [h.capture, Function.update_self]

lemma SetsRegister.other (h : SetsRegister s k value st st') {j : ℕ} (hj : j ≠ k) :
    st'.capture (2 * s.captureCount + j) = st.capture (2 * s.captureCount + j) := by
  rw [h.capture, Function.update_of_ne (by omega)]

end Register

section Turn

variable {U : Libunicode} {s : REExecContext} {k : ℕ} {body : List Op} {f : MatchState → List MatchState}

structure BodyPerforms (U : Libunicode) (s : REExecContext) (body : List Op) (f : MatchState → List MatchState) :
    Prop where
  performs : ∀ k, Performs U s k (fill k body) f
  depth : ∀ k, depth k body = k

lemma fill_turnCode (hdepth : ∀ k, depth k body = k) : fill k (turnCode true body) =
    .setCharPos k :: (fill (k + 1) body ++ [.checkAdvance k]) := by
  simp [turnCode, charPos, advanceCheck, Op.fill, Op.depth, hdepth]

theorem BodyPerforms.performs_turn (h : BodyPerforms U s body f) (check : Bool) :
    Performs U s k (fill k (turnCode check body)) fun σ => (f σ).filter fun τ => !stays check σ τ := by
  cases check with
  | false =>
    have hcode : turnCode false body = body := by simp [turnCode, charPos, advanceCheck]
    rw [hcode]
    apply (h.performs k).congr
    intro σ
    simp [stays]
  | true =>
    rw [fill_turnCode h.depth]
    intro n st σ hcode hpc hσ
    have hbody : CodeAt s (n + 2) (fill (k + 1) body) := (CodeAt.tail hcode).left
    have hcheck : CodeAt s (n + 2 + codeSize (fill (k + 1) body)) [.checkAdvance k] := (CodeAt.tail hcode).right
    have hset := setsRegister s k (some st.cptr) { st with pc := (n + 2 : ℕ) }
    have hstep : lreExecBacktrack U s st = .inl (ExecState.saveCaptureCheck { st with pc := (n + 2 : ℕ) }
        (2 * s.captureCount + k) (some st.cptr)) := hcode.step U hpc
    have hsize : n + codeSize (.setCharPos k :: (fill (k + 1) body ++ [.checkAdvance k])) =
        n + 2 + codeSize (fill (k + 1) body) + 2 := by
      simp only [codeSize_cons, codeSize_append, Op.size, codeSize_nil]
      omega
    generalize ExecState.saveCaptureCheck { st with pc := (n + 2 : ℕ) } (2 * s.captureCount + k) (some st.cptr) = st₁
      at hset hstep
    have hwithin : Within s k st st₁ := (within_pc st _).trans hset.within le_rfl
    rw [hsize]
    apply Yields.head
    rw [hstep]
    have htries := h.performs (k + 1) _ st₁ σ hbody hset.pc (hset.shows (hσ.at _))
    rw [hset.undoes.execFail] at htries
    show Tries U s st _ k (execFail st) (.inl st₁) ((f σ).filter fun τ => !stays true σ τ)
    have hfilter := flatMap_filter (fun τ => !stays true σ τ) (f σ) fun τ => [τ]
    rw [List.flatMap_singleton'] at hfilter
    rw [hfilter]
    apply Yields.bind htries
    intro τ _ st₂ hst₂
    apply Yields.head
    rw [hcheck.step U hst₂.pc]
    have hreg : st₂.capture (2 * s.captureCount + k) = some σ.cptr := by
      rw [hst₂.within.registers k k.lt_succ_self, hset.self, hσ.cptr]
    have htest : decide (st₂.capture (2 * s.captureCount + k) ≠ some st₂.cptr) = !stays true σ τ := by
      rw [hreg, hst₂.shows.cptr, stays]
      simp [eq_comm]
    show Tries U s st _ k (execFail st₂) (onlyIf (decide (st₂.capture (2 * s.captureCount + k) ≠ some st₂.cptr)) _) _
    rw [htest, onlyIf]
    split
    · exact .single ⟨rfl, hst₂.shows.at _, (hwithin.trans hst₂.within (Nat.le_succ k)).trans (within_pc _ _) le_rfl⟩ rfl
    · exact .none rfl

end Turn

section Split

variable {U : Libunicode} {s : REExecContext} {k : ℕ} {st : ExecState} {σ : MatchState} {greedy : Bool}

lemma pushSplit_branch (st : ExecState) (nextFirst : Bool) (off : ℤ) : st.pushSplit nextFirst off =
    if nextFirst then st.branch st.pc (st.pc + off) else st.branch (st.pc + off) st.pc := by
  cases nextFirst <;> rfl

lemma tries_choice {a : ℤ} {pc : ℕ} {more : List MatchState} (hσ : st.Shows s σ)
    (hmore : ∀ st' : ExecState, st'.pc = a → st'.Shows s σ → st'.capture = st.capture →
      Tries U s st' pc k (execFail st') (.inl st') more) :
    Tries U s st pc k (execFail st) (.inl (if greedy then st.branch a pc else st.branch pc a))
      (choice greedy more σ) := by
  have hleave (st' : ExecState) (hpc : st'.pc = pc) (hσ' : st'.Shows s σ) :
      Tries U s st' pc k (execFail st') (.inl st') [σ] :=
    .single ⟨hpc, hσ', within_pc st' st'.pc⟩ rfl
  cases greedy with
  | true =>
    apply tries_branch
    · exact hmore _ rfl (hσ.branch _ _) rfl
    · exact hleave _ rfl (hσ.at _)
  | false =>
    show Tries U s st pc k (execFail st) (.inl (st.branch pc a)) ([σ] ++ more)
    apply tries_branch
    · exact hleave _ rfl (hσ.branch _ _)
    · exact hmore _ rfl (hσ.at _) rfl

variable {turn body : List Op} {f g : MatchState → List MatchState} {check isBackwardDir : Bool}

lemma split_step {n : ℕ} {off : ℤ} {code : List Op} {nextFirst : Bool}
    (hcode : CodeAt s n (.split nextFirst off :: code)) (hpc : st.pc = n) :
    lreExecBacktrack U s st = .inl (if nextFirst then st.branch (n + 5 : ℕ) ((n + 5 : ℕ) + off)
      else st.branch ((n + 5 : ℕ) + off) (n + 5 : ℕ)) := by
  rw [hcode.step U hpc]
  show Sum.inl (ExecState.pushSplit { st with pc := (n + 5 : ℕ) } nextFirst off) = _
  rw [pushSplit_branch]
  rfl

theorem Performs.once (h : Performs U s k turn g) (greedy : Bool) :
    Performs U s k (.split greedy (codeSize turn) :: turn) fun σ => choice greedy (g σ) σ := by
  intro n st σ hcode hpc hσ
  have hsize : n + codeSize (.split greedy (codeSize turn) :: turn) = n + 5 + codeSize turn := by
    simp only [codeSize_cons, Op.size]
    omega
  have hstep : lreExecBacktrack U s st =
      .inl (if greedy then st.branch (n + 5 : ℕ) (n + 5 + codeSize turn : ℕ)
        else st.branch (n + 5 + codeSize turn : ℕ) (n + 5 : ℕ)) := split_step hcode hpc
  rw [hsize]
  apply Yields.head
  rw [hstep]
  exact tries_choice hσ fun st' hpc' hσ' _ => h _ st' σ hcode.tail hpc' hσ'

variable (hadv : ∀ σ, ∀ τ ∈ (f σ).filter fun τ => !stays check σ τ, Advances s isBackwardDir σ τ)
include hadv

lemma star_tries (h : Performs U s k turn fun σ => (f σ).filter fun τ => !stays check σ τ) {n : ℕ}
    (hcode : CodeAt s n (.split greedy (codeSize turn + 5) :: turn ++ [.goto (-(codeSize turn + 10))])) (m : ℕ)
    (st : ExecState) (σ : MatchState) (hpc : st.pc = n) (hσ : st.Shows s σ) (hm : ahead s isBackwardDir σ.cptr ≤ m) :
    Tries U s st (n + 5 + codeSize turn + 5) k (execFail st) (.inl st)
      (repetitions f (stays check) greedy 0 m σ) := by
  have hturn : CodeAt s (n + 5) turn := (CodeAt.tail hcode).left
  have hgoto : CodeAt s (n + 5 + codeSize turn) [.goto (-(codeSize turn + 10))] := (CodeAt.tail hcode).right
  have hstep (st : ExecState) (hpc : st.pc = n) : lreExecBacktrack U s st =
      .inl (if greedy then st.branch (n + 5 : ℕ) (n + 5 + codeSize turn + 5 : ℕ)
        else st.branch (n + 5 + codeSize turn + 5 : ℕ) (n + 5 : ℕ)) :=
    split_step hcode hpc
  induction m generalizing st σ with
  | zero =>
    have hnone : ((f σ).filter fun τ => !stays check σ τ) = [] := by
      rw [List.eq_nil_iff_forall_not_mem]
      intro τ hτ
      have hlt := (hadv σ τ hτ hσ.inside).2
      omega
    rw [repetitions, ← choice_nil greedy σ]
    apply Yields.head
    rw [hstep st hpc]
    apply tries_choice hσ
    intro st' hpc' hσ' _
    have hmore : Tries U s st' (n + 5 + codeSize turn) k (execFail st') (.inl st')
        ((f σ).filter fun τ => !stays check σ τ) := h _ st' σ hturn hpc' hσ'
    rw [hnone] at hmore
    exact .done hmore.nil
  | succ m ih =>
    rw [repetitions, if_neg (lt_irrefl 0), turn_zero]
    apply Yields.head
    rw [hstep st hpc]
    apply tries_choice hσ
    intro st' hpc' hσ' _
    apply Yields.bind (h _ st' σ hturn hpc' hσ')
    intro τ hτ st₂ hst₂
    have hlt := (hadv σ τ hτ hσ.inside).2
    apply Yields.head
    rw [hgoto.step U hst₂.pc]
    have hback : ((n + 5 + codeSize turn + 5 : ℕ) : ℤ) + -(codeSize turn + 10) = n := by
      push_cast
      ring
    show Tries U s st' _ k (execFail st₂) (.inl { st₂ with pc := ((n + 5 + codeSize turn + 5 : ℕ) : ℤ) + _ }) _
    rw [hback]
    have hrest := ih { st₂ with pc := (n : ℤ) } τ rfl (hst₂.shows.at _) (by omega)
    exact hrest.within (hst₂.within.trans (within_pc st₂ _) le_rfl) le_rfl

theorem Performs.star (h : Performs U s k turn fun σ => (f σ).filter fun τ => !stays check σ τ)
    (hend : s.cbufEnd ≤ int32Max) (greedy : Bool) :
    Performs U s k (.split greedy (codeSize turn + 5) :: turn ++ [.goto (-(codeSize turn + 10))])
      (repetitions f (stays check) greedy 0 int32Max) := by
  intro n st σ hcode hpc hσ
  have hsize : n + codeSize (.split greedy (codeSize turn + 5) :: turn ++ [.goto (-(codeSize turn + 10))]) =
      n + 5 + codeSize turn + 5 := by
    simp only [List.cons_append, codeSize_cons, codeSize_append, Op.size, codeSize_nil]
    omega
  have hahead : ahead s isBackwardDir σ.cptr ≤ int32Max := by
    have hinside := hσ.inside
    rw [ahead]
    split <;> omega
  rw [hsize]
  exact star_tries hadv h hcode int32Max st σ hpc hσ hahead

omit hadv

lemma plus_tries (hadv : ∀ σ, ∀ τ ∈ f σ, Advances s isBackwardDir σ τ) (h : Performs U s k body f) {n : ℕ}
    (hcode : CodeAt s n (body ++ [.split (!greedy) (-(codeSize body + 5))])) (m : ℕ) (st : ExecState)
    (σ : MatchState) (hpc : st.pc = n) (hσ : st.Shows s σ) (hm : ∀ τ ∈ f σ, ahead s isBackwardDir τ.cptr ≤ m) :
    Tries U s st (n + codeSize body + 5) k (execFail st) (.inl st)
      ((f σ).flatMap (repetitions f (stays false) greedy 0 m)) := by
  have hsplit : CodeAt s (n + codeSize body) [.split (!greedy) (-(codeSize body + 5))] := hcode.right
  have hstep (st : ExecState) (hpc : st.pc = (n + codeSize body : ℕ)) : lreExecBacktrack U s st =
      .inl (if greedy then st.branch n (n + codeSize body + 5 : ℕ)
        else st.branch (n + codeSize body + 5 : ℕ) n) := by
    have hback : ((n + codeSize body + 5 : ℕ) : ℤ) + -(codeSize body + 5) = n := by
      push_cast
      ring
    rw [split_step hsplit hpc, hback]
    cases greedy <;> rfl
  induction m generalizing st σ with
  | zero =>
    apply Yields.bind (h _ st σ hcode.left hpc hσ)
    intro τ hτ st₂ hst₂
    have hnone : f τ = [] := by
      rw [List.eq_nil_iff_forall_not_mem]
      intro υ hυ
      have hlt := (hadv τ υ hυ hst₂.shows.inside).2
      have hzero := hm τ hτ
      omega
    apply Yields.head
    rw [hstep st₂ hst₂.pc, repetitions, ← choice_nil greedy τ]
    apply Tries.within _ hst₂.within le_rfl
    apply tries_choice hst₂.shows
    intro st' hpc' hσ' _
    have hmore := h _ st' τ hcode.left hpc' hσ'
    rw [hnone] at hmore
    exact .done hmore.nil
  | succ m ih =>
    apply Yields.bind (h _ st σ hcode.left hpc hσ)
    intro τ hτ st₂ hst₂
    apply Yields.head
    rw [hstep st₂ hst₂.pc, repetitions, if_neg (lt_irrefl 0), turn_eq fun _ _ _ => rfl]
    apply Tries.within _ hst₂.within le_rfl
    apply tries_choice hst₂.shows
    intro st' hpc' hσ' _
    apply ih st' τ hpc' hσ'
    intro υ hυ
    have hlt := (hadv τ υ hυ hst₂.shows.inside).2
    have hle := hm τ hτ
    omega

theorem Performs.plus (hadv : ∀ σ, ∀ τ ∈ f σ, Advances s isBackwardDir σ τ) (h : Performs U s k body f)
    (hend : s.cbufEnd ≤ int32Max) (greedy : Bool) :
    Performs U s k (body ++ [.split (!greedy) (-(codeSize body + 5))])
      (repetitions f (stays false) greedy 1 int32Max) := by
  intro n st σ hcode hpc hσ
  have hsize : n + codeSize (body ++ [.split (!greedy) (-(codeSize body + 5))]) = n + codeSize body + 5 := by
    simp only [codeSize_append, codeSize_cons, Op.size, codeSize_nil]
    omega
  obtain ⟨m, hm⟩ : ∃ m, int32Max = m + 1 := ⟨int32Max - 1, rfl⟩
  rw [hsize, hm, repetitions, if_pos Nat.one_pos, turn_eq fun _ _ _ => rfl]
  apply plus_tries hadv h hcode m st σ hpc hσ
  intro τ hτ
  have hlt := (hadv σ τ hτ hσ.inside).2
  have hinside := hσ.inside
  have hahead : ahead s isBackwardDir σ.cptr ≤ s.cbufEnd := by
    rw [ahead]
    split <;> omega
  omega

end Split

section Counted

variable {U : Libunicode} {s : REExecContext} {k : ℕ} {st : ExecState} {σ : MatchState} {check greedy : Bool}
variable {body : List Op} {f : MatchState → List MatchState}

lemma decrement_succ {idx m : ℕ} (h : st.capture idx = some (m + 1)) (hm : m + 1 < 2 ^ 32) :
    st.decrement idx = m := by
  rw [ExecState.decrement, h, Option.getD_some]
  omega

lemma execLoopSplit_eq {idx m limit : ℕ} {off : ℤ} {nextFirst : Bool} {st' : ExecState}
    (hst' : st.saveCaptureCheck idx (some m) = st') (h : st.capture idx = some (m + 1)) (hm : m + 1 < 2 ^ 32) :
    execLoopSplit check nextFirst idx limit off st =
      if m > limit then .inl (st'.jump off)
      else if check ∧ st'.capture (idx + 1) = some st'.cptr ∧ m ≠ limit then execFail st'
      else if m ≠ 0 then .inl (st'.pushSplit nextFirst off)
      else .inl st' := by
  rw [execLoopSplit, decrement_succ h hm, hst']

lemma charPos_leads {n : ℕ} (hcode : CodeAt s n (fill k (charPos check))) (hpc : st.pc = n) (hσ : st.Shows s σ) :
    ∃ st₁, Leads (lreExecBacktrack U s) (.inl st) (.inl st₁) ∧ st₁.pc = (n + codeSize (charPos check) : ℕ) ∧
      st₁.Shows s σ ∧ Within s k st st₁ ∧ execFail st₁ = execFail st ∧
      (check = true → st₁.capture (2 * s.captureCount + k) = some σ.cptr) := by
  cases check with
  | false => exact ⟨st, .refl _, hpc, hσ, within_pc st st.pc, rfl, fun h => by cases h⟩
  | true =>
    have hset := setsRegister s k (some st.cptr) { st with pc := (n + 2 : ℕ) }
    refine ⟨_, .single (hcode.step U hpc), hset.pc, hset.shows (hσ.at _), ?_, hset.undoes.execFail, fun _ => ?_⟩
    · exact (within_pc st _).trans hset.within le_rfl
    · exact hset.self.trans (congrArg some hσ.cptr)

section Loop

variable {loop : Op} {limit n m : ℕ} {off : ℤ}
variable (hoff : off = -(codeSize (charPos check) + codeSize body + loop.size))
variable (hloop : ∀ st, execOp U s loop st = execLoopSplit check (!greedy) (2 * s.captureCount + k) limit off st)
include hoff hloop

lemma counted_end (hend : CodeAt s (n + codeSize (charPos check) + codeSize body) [loop]) (hm : m + 1 < 2 ^ 32)
    (hmore : ∀ m', m = m' + 1 → ∀ (st : ExecState) (τ : MatchState), st.pc = n → st.Shows s τ →
      st.capture (2 * s.captureCount + k) = some m →
      Tries U s st (n + codeSize (charPos check) + codeSize body + loop.size) k (execFail st) (.inl st)
        (turn f (stays check) (m - limit) (repetitions f (stays check) greedy (m' - limit) m') τ))
    {τ : MatchState} (hpc : st.pc = (n + codeSize (charPos check) + codeSize body : ℕ)) (hτ : st.Shows s τ)
    (hcounter : st.capture (2 * s.captureCount + k) = some (m + 1))
    (hstart : check = true → st.capture (2 * s.captureCount + (k + 1)) = some σ.cptr) :
    Tries U s st (n + codeSize (charPos check) + codeSize body + loop.size) k (execFail st) (.inl st)
      (if !(decide (m + 1 - limit = 0) && stays check σ τ) then repetitions f (stays check) greedy (m - limit) m τ
        else []) := by
  have hset := setsRegister s k (some m)
    { st with pc := (n + codeSize (charPos check) + codeSize body + loop.size : ℕ) }
  have hback : ((n + codeSize (charPos check) + codeSize body + loop.size : ℕ) : ℤ) + off = n := by
    rw [hoff]
    push_cast
    ring
  generalize hst₃ : ExecState.saveCaptureCheck _ (2 * s.captureCount + k) (some m) = st₃ at hset
  have hstep := hend.step U hpc
  rw [hloop, execLoopSplit_eq hst₃ hcounter hm] at hstep
  have hτ₃ : st₃.Shows s τ := hset.shows (hτ.at _)
  have hfail : execFail st₃ = execFail st := hset.undoes.execFail
  have hwithin : Within s k st st₃ := (within_pc st _).trans hset.within le_rfl
  have hother : st₃.capture (2 * s.captureCount + k + 1) = st.capture (2 * s.captureCount + (k + 1)) :=
    hset.other k.succ_ne_self
  apply Yields.head
  rw [hstep]
  split
  · -- turns are owed
    next howed =>
    obtain ⟨m', rfl⟩ := Nat.exists_eq_succ_of_ne_zero (show m ≠ 0 by omega)
    have hno : decide (m' + 1 + 1 - limit = 0) = false := decide_eq_false (by omega)
    rw [Nat.succ_eq_add_one, hno, if_pos (by simp), repetitions, if_pos (by omega),
      show m' + 1 - limit - 1 = m' - limit by omega]
    have hrest := hmore m' rfl (st₃.jump off) τ (by
      show st₃.pc + off = n
      rw [hset.pc, hback]) ⟨hτ₃.cptr, hτ₃.capture, hτ₃.inside⟩ hset.self
    rw [show execFail (st₃.jump off) = execFail st from hfail] at hrest
    exact hrest.within (hwithin.trans (within_pc st₃ _) le_rfl) le_rfl
  split
  · -- the turn has stayed
    next hstays =>
    obtain ⟨hcheck, hsame, hne⟩ := hstays
    have hdrop : (decide (m + 1 - limit = 0) && stays check σ τ) = true := by
      rw [hother, hstart hcheck, hτ₃.cptr] at hsame
      rw [stays, hcheck, Option.some.inj hsame]
      simp
      omega
    rw [hdrop, if_neg (by simp)]
    exact .none hfail
  next hstays =>
  have hkeep : (decide (m + 1 - limit = 0) && stays check σ τ) = false := by
    rw [Bool.eq_false_iff]
    intro hdrop
    simp only [stays, Bool.and_eq_true, decide_eq_true_eq] at hdrop
    obtain ⟨hzero, hcheck, hsame⟩ := hdrop
    refine hstays ⟨hcheck, ?_, by omega⟩
    rw [hother, hstart hcheck, hτ₃.cptr, hsame]
  rw [hkeep, Bool.not_false, if_pos rfl]
  split
  · -- another turn may follow
    next hne =>
    obtain ⟨m', rfl⟩ := Nat.exists_eq_succ_of_ne_zero hne
    have hbranch : st₃.pushSplit (!greedy) off =
        if greedy then st₃.branch n (n + codeSize (charPos check) + codeSize body + loop.size : ℕ)
        else st₃.branch (n + codeSize (charPos check) + codeSize body + loop.size : ℕ) n := by
      rw [pushSplit_branch, hset.pc, hback]
      cases greedy <;> rfl
    have hzero : m' + 1 - limit = 0 := by omega
    rw [hbranch, Nat.succ_eq_add_one, hzero, repetitions, if_neg (lt_irrefl 0)]
    apply Tries.within _ hwithin le_rfl
    rw [← hfail]
    apply tries_choice hτ₃
    intro st' hpc' hτ' hcapture
    have hrest := hmore m' rfl st' τ hpc' hτ' (by rw [hcapture, hset.self])
    rwa [show m'.succ - limit = 0 from hzero, show m' - limit = 0 - 1 by omega] at hrest
  · next hzero =>
    obtain rfl : m = 0 := not_not.mp hzero
    exact .single ⟨hset.pc, hτ₃, hwithin⟩ hfail

lemma counted_tries (h : BodyPerforms U s body f)
    (hcode : CodeAt s n (fill (k + 1) (charPos check) ++ (fill (k + 1 + check.toNat) body ++ [loop])))
    (hm : m + 1 < 2 ^ 32) (st : ExecState) (σ : MatchState) (hpc : st.pc = n) (hσ : st.Shows s σ)
    (hcounter : st.capture (2 * s.captureCount + k) = some (m + 1)) :
    Tries U s st (n + codeSize (charPos check) + codeSize body + loop.size) k (execFail st) (.inl st)
      (turn f (stays check) (m + 1 - limit) (repetitions f (stays check) greedy (m - limit) m) σ) := by
  have hbody : CodeAt s (n + codeSize (charPos check)) (fill (k + 1 + check.toNat) body) := by
    simpa using hcode.right.left
  have hend : CodeAt s (n + codeSize (charPos check) + codeSize body) [loop] := by
    simpa using hcode.right.right
  have hturns (m : ℕ) (hm : m + 1 < 2 ^ 32)
      (hmore : ∀ m', m = m' + 1 → ∀ (st : ExecState) (τ : MatchState), st.pc = n → st.Shows s τ →
        st.capture (2 * s.captureCount + k) = some m →
        Tries U s st (n + codeSize (charPos check) + codeSize body + loop.size) k (execFail st) (.inl st)
          (turn f (stays check) (m - limit) (repetitions f (stays check) greedy (m' - limit) m') τ))
      (st : ExecState) (σ : MatchState) (hpc : st.pc = n) (hσ : st.Shows s σ)
      (hcounter : st.capture (2 * s.captureCount + k) = some (m + 1)) :
      Tries U s st (n + codeSize (charPos check) + codeSize body + loop.size) k (execFail st) (.inl st)
        (turn f (stays check) (m + 1 - limit) (repetitions f (stays check) greedy (m - limit) m) σ) := by
    obtain ⟨st₁, hleads, hpc₁, hσ₁, hwithin, hfail, hstart⟩ := charPos_leads hcode.left hpc hσ
    apply Yields.lead hleads
    rw [turn, flatMap_filter]
    have hbody := h.performs (k + 1 + check.toNat) _ st₁ σ hbody hpc₁ hσ₁
    rw [hfail] at hbody
    apply Yields.bind hbody
    intro τ _ st₂ hst₂
    have hpc₂ : st₂.pc = (n + codeSize (charPos check) + codeSize body : ℕ) := by
      rw [hst₂.pc, codeSize_fill]
    have hcounter₂ : st₂.capture (2 * s.captureCount + k) = some (m + 1) := by
      rw [hst₂.within.registers k (by omega), hwithin.registers k k.lt_succ_self, hcounter]
    have hstart₂ (hcheck : check = true) : st₂.capture (2 * s.captureCount + (k + 1)) = some σ.cptr := by
      rw [hst₂.within.registers (k + 1) (by rw [hcheck]; exact Nat.lt_succ_self _), ← hstart hcheck]
    have hrest := counted_end (f := f) hoff hloop hend hm hmore hpc₂ hst₂.shows hcounter₂ hstart₂
    exact hrest.within ((hwithin.trans hst₂.within (by omega)).mono (Nat.le_succ k)) le_rfl
  induction m generalizing st σ with
  | zero =>
    exact hturns 0 hm (fun m' h => by cases h) st σ hpc hσ hcounter
  | succ m ih =>
    apply hturns (m + 1) hm _ st σ hpc hσ hcounter
    rintro m' h st τ hpc hτ hcounter
    obtain rfl := Nat.succ.inj h
    exact ih (by omega) st τ hpc hτ hcounter

end Loop

lemma depth_charPos (check : Bool) : depth k (charPos check) = k + check.toNat := by
  cases check <;> rfl

theorem BodyPerforms.counted (h : BodyPerforms U s body f) {loop : ℤ → Op} {limit m : ℕ} (greedy : Bool)
    (hloop : ∀ off st, execOp U s ((loop off).fill (k + 1 + check.toNat)) st =
      execLoopSplit check (!greedy) (2 * s.captureCount + k) limit off st)
    (hsize : ∀ off, (loop off).size = (loop 0).size) (hm : m + 1 < 2 ^ 32) :
    Performs U s k (fill k (countedCode check (m + 1) body loop))
      (turn f (stays check) (m + 1 - limit) (repetitions f (stays check) greedy (m - limit) m)) := by
  intro n st σ hcode hpc hσ
  have hset := setsRegister s k (some (m + 1)) { st with pc := (n + 6 : ℕ) }
  rw [countedCode, fill_cons] at hcode
  have hstep := hcode.step U hpc
  have hcode := hcode.tail
  simp only [Op.depth, fill_append, depth_charPos, h.depth, fill_cons, fill_nil, List.append_assoc] at hcode
  have hoff := hsize (-(codeSize (charPos check) + codeSize body + (loop 0).size))
  have htries := counted_tries (n := n + 6) (by rw [size_fill, hoff]) (hloop _) h hcode hm _ σ
    hset.pc (hset.shows (hσ.at _)) hset.self
  have hend : n + 6 + codeSize (charPos check) + codeSize body +
      ((loop (-(codeSize (charPos check) + codeSize body + (loop 0).size))).fill (k + 1 + check.toNat)).size =
      n + codeSize (fill k (countedCode check (m + 1) body loop)) := by
    rw [codeSize_fill, size_fill, countedCode]
    simp only [codeSize_cons, codeSize_append, Op.size, codeSize_nil]
    omega
  rw [hend, hset.undoes.execFail] at htries
  apply Yields.head
  rw [hstep]
  exact htries.within ((within_pc st _).trans hset.within le_rfl) le_rfl

lemma loopSplit_fill (check nextFirst : Bool) (limit : ℕ) (off : ℤ) (st : ExecState) :
    execOp U s ((Op.loopSplit check nextFirst 0 limit off).fill (k + 1 + check.toNat)) st =
      execLoopSplit check nextFirst (2 * s.captureCount + k) limit off st := by
  have hreg : k + 1 + check.toNat - (if check = true then 2 else 1) = k := by
    cases check <;> rfl
  rw [Op.fill, hreg, execOp]

lemma loop_fill (nextFirst : Bool) (off : ℤ) (st : ExecState) :
    execOp U s ((Op.loop 0 off).fill (k + 1 + false.toNat)) st =
      execLoopSplit false nextFirst (2 * s.captureCount + k) 0 off st := by
  rw [Op.fill, execOp, execLoopSplit]
  dsimp only
  rw [Bool.toNat_false, Nat.add_zero, Nat.add_sub_cancel]
  generalize ExecState.decrement st (2 * s.captureCount + k) = val2
  by_cases hval : val2 = 0
  · subst hval
    simp
  · rw [if_pos hval, if_pos (Nat.pos_of_ne_zero hval)]

end Counted

end Jsregexp
