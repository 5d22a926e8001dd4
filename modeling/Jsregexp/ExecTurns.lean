import Jsregexp.Exec

namespace Jsregexp

/-- The key under which turn `i` files its group, and the pointer it leaves behind; a group without a
name has the empty key. -/
inductive NextName : ℕ → Option Bytes → Bytes → Option Bytes → Prop
  | absent {i} : NextName i none [] none
  | whole {p} : NextName 0 (some p) [] (some p)
  | group {i p key q} : readGroupName p = .ok (key, q) → NextName (i + 1) (some p) key (some q)

inductive Turns (input : JsString) (capture : List (Option ℕ)) :
    ℕ → Option Bytes → List (Bytes × GroupReport) → Option Bytes → Prop
  | nil {i p} : Turns input capture i p [] p
  | cons {i p key q g ts r} :
      reportGroup input (slot capture (2 * i)) (slot capture (2 * i + 1)) = .ok g →
      NextName i p key q → Turns input capture (i + 1) q ts r →
      Turns input capture i p ((key, g) :: ts) r

def Table.setNamed {β : Type} (t : Table β) (key : Bytes) (v : β) : Table β :=
  if key = [] then t else t.setField key v

def fileGroups {β : Type} (f : GroupReport → β) (t : Table β) (ts : List (Bytes × GroupReport)) : Table β :=
  ts.foldl (fun t e => t.setNamed e.1 (f e.2)) t

def matchOf (bc : Bytecode) (input : JsString) (index : ℕ) (ts : List (Bytes × GroupReport)) : Match where
  input := cString input.bstr
  captureCount := bc.lreGetCaptureCount
  index := index
  captures := ts.map fun e => e.2.str
  groups := if bc.lreGetGroupnames.isSome then some (fileGroups GroupReport.str [] ts) else none
  indices :=
    if bc.hasFlag lreFlagIndices then
      some {
        pairs := ts.map fun e => e.2.pair
        groups :=
          if bc.lreGetGroupnames.isSome then some (fileGroups GroupReport.pair [] ts) else none }
    else none

variable {input : JsString} {capture : List (Option ℕ)}

lemma nameGroup_ok_iff {i : ℕ} {g : GroupReport} {st st' : CaptureState} :
    nameGroup i g st = .ok st' ↔ ∃ key q, NextName i st.groupNames key q ∧
      st' = { st with
        groupNames := q
        groups := st.groups.setNamed key g.str
        indexGroups := st.indexGroups.setNamed key g.pair } := by
  obtain ⟨names, captures, groups, pairs, indexGroups⟩ := st
  cases names with
  | none =>
    constructor
    · intro h
      obtain rfl : _ = st' := by simpa [nameGroup, pure, Except.pure] using h
      exact ⟨[], none, .absent, by simp [Table.setNamed]⟩
    · rintro ⟨key, q, hn, rfl⟩
      cases hn
      simp [nameGroup, Table.setNamed, pure, Except.pure]
  | some p =>
    cases i with
    | zero =>
      constructor
      · intro h
        obtain rfl : _ = st' := by simpa [nameGroup, pure, Except.pure] using h
        exact ⟨[], some p, .whole, by simp [Table.setNamed]⟩
      · rintro ⟨key, q, hn, rfl⟩
        cases hn
        simp [nameGroup, Table.setNamed, pure, Except.pure]
    | succ i =>
      simp only [nameGroup, Nat.succ_pos, gt_iff_lt, if_true, except_bind_ok_iff, Prod.exists]
      constructor
      · rintro ⟨key, q, hr, h⟩
        refine ⟨key, some q, .group hr, ?_⟩
        by_cases hk : key = [] <;> simp_all [Table.setNamed, pure, Except.pure]
      · rintro ⟨key, q, hn, rfl⟩
        cases hn with
        | @group _ _ _ q hr =>
          refine ⟨key, q, hr, ?_⟩
          by_cases hk : key = [] <;> simp [hk, Table.setNamed, pure, Except.pure]

lemma captureStep_ok_iff {i : ℕ} {st st' : CaptureState} :
    captureStep input capture i st = .ok st' ↔ ∃ key g q,
      reportGroup input (slot capture (2 * i)) (slot capture (2 * i + 1)) = .ok g ∧
      NextName i st.groupNames key q ∧
      st' = {
        groupNames := q
        captures := st.captures ++ [g.str]
        groups := st.groups.setNamed key g.str
        pairs := st.pairs ++ [g.pair]
        indexGroups := st.indexGroups.setNamed key g.pair } := by
  simp only [captureStep, except_bind_ok_iff, nameGroup_ok_iff]
  constructor
  · rintro ⟨g, hg, _, ⟨key, q, hn, rfl⟩, h⟩
    exact ⟨key, g, q, hg, hn, by simpa [pure, Except.pure, eq_comm] using h⟩
  · rintro ⟨key, g, q, hg, hn, rfl⟩
    exact ⟨g, hg, _, ⟨key, q, hn, rfl⟩, rfl⟩

theorem captureLoop_ok_iff {n i : ℕ} {st st' : CaptureState} :
    captureLoop input capture n i st = .ok st' ↔ ∃ ts r, ts.length = n ∧
      Turns input capture i st.groupNames ts r ∧
      st' = {
        groupNames := r
        captures := st.captures ++ ts.map fun e => e.2.str
        groups := fileGroups GroupReport.str st.groups ts
        pairs := st.pairs ++ ts.map fun e => e.2.pair
        indexGroups := fileGroups GroupReport.pair st.indexGroups ts } := by
  induction n generalizing i st with
  | zero =>
    constructor
    · intro h
      obtain rfl : st = st' := by simpa [captureLoop] using h
      exact ⟨[], _, rfl, .nil, by simp [fileGroups]⟩
    · rintro ⟨ts, r, hl, ht, rfl⟩
      obtain rfl : ts = [] := List.length_eq_zero_iff.mp hl
      cases ht
      simp [captureLoop, fileGroups]
  | succ n ih =>
    simp only [captureLoop, except_bind_ok_iff, captureStep_ok_iff]
    constructor
    · rintro ⟨_, ⟨key, g, q, hg, hn, rfl⟩, h⟩
      obtain ⟨ts, r, hl, ht, rfl⟩ := ih.mp h
      exact ⟨(key, g) :: ts, r, by simp [hl], .cons hg hn ht, by simp [fileGroups]⟩
    · rintro ⟨ts, r, hl, ht, rfl⟩
      cases ht with
      | nil => simp at hl
      | @cons _ _ key q g ts _ hg hn ht =>
        exact ⟨_, ⟨key, g, q, hg, hn, rfl⟩, ih.mpr ⟨ts, r, by simpa using hl, ht, by simp [fileGroups]⟩⟩

theorem buildMatch_ok_iff {bc : Bytecode} {m : Match} :
    buildMatch bc input capture = .ok m ↔ ∃ index ts r,
      matchIndex input (slot capture 0) = .ok index ∧ ts.length = bc.captureCount ∧
      Turns input capture 0 bc.lreGetGroupnames ts r ∧ m = matchOf bc input index ts := by
  simp only [buildMatch, except_bind_ok_iff, captureLoop_ok_iff]
  constructor
  · rintro ⟨index, hi, _, ⟨ts, r, hl, ht, rfl⟩, h⟩
    exact ⟨index, ts, r, hi, hl, ht, (Except.ok.inj h).symm⟩
  · rintro ⟨index, ts, r, hi, hl, ht, rfl⟩
    exact ⟨index, hi, _, ⟨ts, r, hl, ht, rfl⟩, rfl⟩

lemma Turns.report {i : ℕ} {p r : Option Bytes} {ts : List (Bytes × GroupReport)}
    (h : Turns input capture i p ts r) {k : ℕ} (hk : k < ts.length) :
    reportGroup input (slot capture (2 * (i + k))) (slot capture (2 * (i + k) + 1)) =
      .ok (ts.get ⟨k, hk⟩).2 := by
  induction h generalizing k with
  | nil => simp at hk
  | @cons i p key q g ts r hg hn ht ih =>
    cases k with
    | zero => simpa using hg
    | succ k =>
      have := ih (k := k) (by simpa using hk)
      simpa [Nat.add_assoc, Nat.add_comm 1 k] using this

end Jsregexp
