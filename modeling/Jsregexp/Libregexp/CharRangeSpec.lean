import Jsregexp.Library.Boundaries
import Jsregexp.Libregexp.CharRange

namespace Jsregexp

open Library.Boundaries

def intervals : List ℕ → List (ℕ × ℕ)
  | a :: b :: pt => (a, b) :: intervals pt
  | _ => []

structure IsPoints (cr : List ℕ) : Prop where
  sorted : cr.Pairwise (· ≤ ·)
  even : Even cr.length
  le : ∀ p ∈ cr, p ≤ uint32Max

/-- The points of a set of characters as the tables have them: an interval may begin where the one before it ends. -/
structure IsIntervals (cr : List ℕ) : Prop extends IsPoints cr where
  nonempty : ∀ r ∈ intervals cr, r.1 < r.2

structure IsCharSet (cr : List ℕ) : Prop where
  sorted : cr.Pairwise (· < ·)
  even : Even cr.length
  le : ∀ p ∈ cr, p ≤ uint32Max

lemma IsCharSet.points {cr : List ℕ} (h : IsCharSet cr) : IsPoints cr :=
  ⟨h.sorted.imp le_of_lt, h.even, h.le⟩

lemma intervals_nonempty {cr : List ℕ} (h : cr.Pairwise (· < ·)) : ∀ r ∈ intervals cr, r.1 < r.2 := by
  induction cr using List.twoStepInduction with
  | nil => simp [intervals]
  | singleton => simp [intervals]
  | cons_cons a b pt ih _ =>
    intro r hr
    rcases List.mem_cons.mp hr with rfl | hr
    · exact (List.pairwise_cons.mp h).1 b List.mem_cons_self
    · exact ih h.tail.tail r hr

lemma IsCharSet.intervals {cr : List ℕ} (h : IsCharSet cr) : IsIntervals cr :=
  ⟨h.points, intervals_nonempty h.sorted⟩

lemma IsIntervals.head {a b : ℕ} {pt : List ℕ} (h : IsIntervals (a :: b :: pt)) : a < b :=
  h.nonempty (a, b) List.mem_cons_self

lemma IsIntervals.tail {a b : ℕ} {pt : List ℕ} (h : IsIntervals (a :: b :: pt)) : IsIntervals pt where
  sorted := h.sorted.tail.tail
  even := by simpa [Nat.even_add_one] using h.even
  le := fun p hp => h.le p (by simp [hp])
  nonempty := fun r hr => h.nonempty r (List.mem_cons_of_mem _ hr)

def charSet (cr : List ℕ) : Set ℕ := {c | inIntervals c cr = true}

def CrOp.set : CrOp → Set ℕ → Set ℕ → Set ℕ
  | .union, a, b => a ∪ b
  | .inter, a, b => a ∩ b
  | .sub, a, b => a \ b

section Compress

def pending : Option (ℕ × ℕ) → List ℕ
  | none => []
  | some (x, y) => [x, y]

variable {c : ℕ} {pt : List ℕ}

lemma crCompressFrom_within (last : Option (ℕ × ℕ)) (heven : Even pt.length) :
    within (crCompressFrom last pt) c = within (pending last ++ pt) c := by
  induction pt using List.twoStepInduction generalizing last with
  | nil => rcases last with _ | ⟨x, y⟩ <;> simp [crCompressFrom, pending]
  | singleton => simp at heven
  | cons_cons z w pt ih _ =>
    have heven' : Even pt.length := by simpa [Nat.even_add_one] using heven
    rcases last with _ | ⟨x, y⟩
    · rw [crCompressFrom]
      split
      · next heq => simp [ih none heven', pending, heq]
      · simp [ih _ heven', pending]
    · rw [crCompressFrom]
      split
      · next heq => simp [ih _ heven', pending, heq]
      · split
        · next heq => simp [ih none heven', pending, heq]
        · simp [ih _ heven', pending]

lemma crCompressFrom_sorted (last : Option (ℕ × ℕ)) (heven : Even pt.length) (hlast : ∀ x y, last = some (x, y) → x < y)
    (hsorted : (pending last ++ pt).Pairwise (· ≤ ·)) : (crCompressFrom last pt).Pairwise (· < ·) ∧
      Even (crCompressFrom last pt).length ∧ ∀ p ∈ crCompressFrom last pt, p ∈ pending last ++ pt := by
  induction pt using List.twoStepInduction generalizing last with
  | nil =>
    rcases last with _ | ⟨x, y⟩
    · simp [crCompressFrom]
    · have hxy := hlast x y rfl
      simp [crCompressFrom, pending, hxy]
  | singleton => simp at heven
  | cons_cons z w pt ih _ =>
    have heven' : Even pt.length := by simpa [Nat.even_add_one] using heven
    have hnone (hpt : pt.Pairwise (· ≤ ·)) := ih none heven' (fun _ _ h => by cases h) hpt
    have hsome {x y : ℕ} (hxy : x < y) (hpt : (x :: y :: pt).Pairwise (· ≤ ·)) :=
      ih (some (x, y)) heven' (fun _ _ h => by cases h; exact hxy) hpt
    have hpair (hzw : (z :: w :: pt).Pairwise (· ≤ ·)) :
        (crCompressFrom none (z :: w :: pt)).Pairwise (· < ·) ∧ Even (crCompressFrom none (z :: w :: pt)).length ∧
          ∀ p ∈ crCompressFrom none (z :: w :: pt), p ∈ z :: w :: pt := by
      have hzw' : z ≤ w := (List.pairwise_cons.mp hzw).1 w List.mem_cons_self
      rw [crCompressFrom]
      split
      · obtain ⟨hpairwise, heven, hmem⟩ := hnone hzw.tail.tail
        exact ⟨hpairwise, heven, fun p hp => List.mem_cons_of_mem _ (List.mem_cons_of_mem _ (hmem p hp))⟩
      · next hne => exact hsome (lt_of_le_of_ne hzw' hne) hzw
    rcases last with _ | ⟨x, y⟩
    · exact hpair hsorted
    · have hxy := hlast x y rfl
      obtain ⟨hx, hy, hzw⟩ : (∀ p ∈ y :: z :: w :: pt, x ≤ p) ∧ (∀ p ∈ z :: w :: pt, y ≤ p) ∧
          (z :: w :: pt).Pairwise (· ≤ ·) := by
        obtain ⟨hx, hrest⟩ := List.pairwise_cons.mp hsorted
        obtain ⟨hy, hzw⟩ := List.pairwise_cons.mp hrest
        exact ⟨hx, hy, hzw⟩
      rw [crCompressFrom]
      split
      · next heq =>
        subst heq
        have hw : y ≤ w := hy w (by simp)
        obtain ⟨hpairwise, heven, hmem⟩ := hsome (hxy.trans_le hw) (List.pairwise_cons.mpr
          ⟨fun p hp => hx p (by simp at hp ⊢; tauto), hzw.tail⟩)
        refine ⟨hpairwise, heven, fun p hp => ?_⟩
        have hp := hmem p hp
        simp [pending] at hp ⊢
        tauto
      · next hne =>
        have hyz : y < z := lt_of_le_of_ne (hy z List.mem_cons_self) hne
        obtain ⟨hpairwise, heven, hmem⟩ := hpair hzw
        have hrest : (if z = w then crCompressFrom none pt else crCompressFrom (some (z, w)) pt) =
          crCompressFrom none (z :: w :: pt) := by rw [crCompressFrom]
        have hlt : ∀ p ∈ crCompressFrom none (z :: w :: pt), y < p := by
          intro p hp
          rcases List.mem_cons.mp (hmem p hp) with rfl | hp
          · exact hyz
          · exact hyz.trans_le ((List.pairwise_cons.mp hzw).1 p hp)
        rw [hrest]
        refine ⟨?_, ?_, ?_⟩
        · rw [List.pairwise_cons, List.pairwise_cons]
          refine ⟨fun p hp => ?_, hlt, hpairwise⟩
          rcases List.mem_cons.mp hp with rfl | hp
          · exact hxy
          · exact hxy.trans (hlt p hp)
        · simpa [Nat.even_add_one] using heven
        · intro p hp
          rcases List.mem_cons.mp hp with rfl | hp
          · simp [pending]
          rcases List.mem_cons.mp hp with rfl | hp
          · simp [pending]
          · have hp := hmem p hp
            simp [pending] at hp ⊢
            tauto

lemma crCompress_isCharSet (heven : Even pt.length) (hsorted : pt.Pairwise (· ≤ ·)) (hle : ∀ p ∈ pt, p ≤ uint32Max) :
    IsCharSet (crCompress pt) := by
  obtain ⟨hpairwise, heven', hmem⟩ := crCompressFrom_sorted none heven (fun _ _ h => by cases h) hsorted
  exact ⟨hpairwise, heven', fun p hp => hle p (hmem p hp)⟩

lemma crCompress_within (heven : Even pt.length) : within (crCompress pt) c = within pt c :=
  crCompressFrom_within none heven

end Compress

section Op

variable (op : CrOp)

structure OpRest (aPt bPt : List ℕ) (aIn bIn : Bool) (rest : List ℕ) : Prop where
  sorted : rest.Pairwise (· ≤ ·)
  mem : ∀ p ∈ rest, p ∈ aPt ∨ p ∈ bPt
  inside : ∀ c, within rest c = (op.isIn aIn bIn ^^ op.isIn (aIn ^^ within aPt c) (bIn ^^ within bPt c))

variable {op} {aPt bPt rest : List ℕ} {aIn bIn : Bool} {v : ℕ}

lemma OpRest.step (aRead bRead : Bool) (hread : (aRead || bRead) = true) (ha : ∀ p ∈ aPt, v ≤ p) (hb : ∀ p ∈ bPt, v ≤ p)
    (h : OpRest op aPt bPt (aIn ^^ aRead) (bIn ^^ bRead) rest) :
    OpRest op (if aRead then v :: aPt else aPt) (if bRead then v :: bPt else bPt) aIn bIn
      (if op.isIn (aIn ^^ aRead) (bIn ^^ bRead) = op.isIn aIn bIn then rest else v :: rest) := by
  have hle : ∀ p ∈ rest, v ≤ p := by
    intro p hp
    rcases h.mem p hp with hp | hp
    · exact ha p hp
    · exact hb p hp
  refine ⟨?_, ?_, fun c => ?_⟩
  · split
    · exact h.sorted
    · exact List.pairwise_cons.mpr ⟨hle, h.sorted⟩
  · have hrest (p : ℕ) (hp : p ∈ rest) :
        p ∈ (if aRead then v :: aPt else aPt) ∨ p ∈ (if bRead then v :: bPt else bPt) := by
      rcases h.mem p hp with hp | hp
      · left
        split <;> simp [hp]
      · right
        split <;> simp [hp]
    intro p hp
    split at hp
    · exact hrest p hp
    · rcases List.mem_cons.mp hp with rfl | hp
      · cases aRead <;> cases bRead <;> simp at hread ⊢
      · exact hrest p hp
  · have hw := h.inside c
    rcases lt_or_ge c v with hcv | hvc
    · have hrest := within_of_lt fun p hp => hcv.trans_le (hle p hp)
      have ha := within_of_lt fun p hp => hcv.trans_le (ha p hp)
      have hb := within_of_lt fun p hp => hcv.trans_le (hb p hp)
      have hv : ¬ v ≤ c := not_le.mpr hcv
      have hif : within (if op.isIn (aIn ^^ aRead) (bIn ^^ bRead) = op.isIn aIn bIn then rest else v :: rest) c =
          false := by split <;> simp [hrest, hv]
      have ha : within (if aRead then v :: aPt else aPt) c = false := by cases aRead <;> simp [ha, hv]
      have hb : within (if bRead then v :: bPt else bPt) c = false := by cases bRead <;> simp [hb, hv]
      simp [hif, ha, hb]
    · have hif : within (if op.isIn (aIn ^^ aRead) (bIn ^^ bRead) = op.isIn aIn bIn then rest else v :: rest) c =
          (op.isIn (aIn ^^ aRead) (bIn ^^ bRead) ^^ op.isIn aIn bIn ^^ within rest c) := by
        split
        · next heq => simp [heq]
        · next hne =>
          have hxor : (op.isIn (aIn ^^ aRead) (bIn ^^ bRead) ^^ op.isIn aIn bIn) = true := by
            simpa [bne_iff_ne] using hne
          simp [hvc, hxor]
      have ha : within (if aRead then v :: aPt else aPt) c = (aRead ^^ within aPt c) := by cases aRead <;> simp [hvc]
      have hb : within (if bRead then v :: bPt else bPt) c = (bRead ^^ within bPt c) := by cases bRead <;> simp [hvc]
      rw [hif, ha, hb, hw, ← Bool.xor_assoc aIn, ← Bool.xor_assoc bIn]
      generalize op.isIn (aIn ^^ aRead ^^ within aPt c) (bIn ^^ bRead ^^ within bPt c) = x
      generalize op.isIn (aIn ^^ aRead) (bIn ^^ bRead) = y
      generalize op.isIn aIn bIn = z
      cases x <;> cases y <;> cases z <;> rfl

lemma crOpLoop_rest {n : ℕ} {cr : List ℕ} (hn : aPt.length + bPt.length ≤ n) (ha : aPt.Pairwise (· ≤ ·))
    (hb : bPt.Pairwise (· ≤ ·)) (hcr : decide (cr.length % 2 = 1) = op.isIn aIn bIn) :
    ∃ rest, crOpLoop op n aPt bPt aIn bIn cr = cr ++ rest ∧ OpRest op aPt bPt aIn bIn rest := by
  induction n generalizing aPt bPt aIn bIn cr with
  | zero =>
    obtain ⟨rfl, rfl⟩ : aPt = [] ∧ bPt = [] := by simpa [List.length_eq_zero_iff] using hn
    exact ⟨[], by simp [crOpLoop], .nil, by simp, by simp⟩
  | succ n ih =>
    -- one turn, which reads `v` and leaves `aPt'` and `bPt'`
    have hturn (aPt' bPt' : List ℕ) (v : ℕ) (aRead bRead : Bool) (hread : (aRead || bRead) = true)
        (ha' : aPt'.Pairwise (· ≤ ·)) (hb' : bPt'.Pairwise (· ≤ ·)) (hva : ∀ p ∈ aPt', v ≤ p) (hvb : ∀ p ∈ bPt', v ≤ p)
        (hn' : aPt'.length + bPt'.length ≤ n) :
        ∃ rest, crOpLoop op n aPt' bPt' (aIn ^^ aRead) (bIn ^^ bRead)
            (if op.isIn (aIn ^^ aRead) (bIn ^^ bRead) = decide (cr.length % 2 = 1) then cr else cr ++ [v]) =
              cr ++ rest ∧
          OpRest op (if aRead then v :: aPt' else aPt') (if bRead then v :: bPt' else bPt') aIn bIn rest := by
      rw [hcr]
      by_cases heq : op.isIn (aIn ^^ aRead) (bIn ^^ bRead) = op.isIn aIn bIn
      · obtain ⟨rest, hloop, hrest⟩ := ih hn' ha' hb' (hcr.trans heq.symm)
        have hstep := hrest.step aRead bRead hread hva hvb
        rw [if_pos heq] at hstep ⊢
        exact ⟨rest, hloop, hstep⟩
      · have hodd : decide ((cr ++ [v]).length % 2 = 1) = op.isIn (aIn ^^ aRead) (bIn ^^ bRead) := by
          have hnot : decide ((cr ++ [v]).length % 2 = 1) = !decide (cr.length % 2 = 1) := by
            rw [List.length_append, List.length_singleton, ← decide_not, decide_eq_decide]
            omega
          rw [hnot, hcr]
          revert heq
          cases op.isIn (aIn ^^ aRead) (bIn ^^ bRead) <;> cases op.isIn aIn bIn <;> simp
        obtain ⟨rest, hloop, hrest⟩ := ih hn' ha' hb' hodd
        have hstep := hrest.step aRead bRead hread hva hvb
        rw [if_neg heq] at hstep ⊢
        exact ⟨v :: rest, by rw [hloop]; simp, hstep⟩
    rcases aPt with _ | ⟨a, aPt⟩ <;> rcases bPt with _ | ⟨b, bPt⟩
    · exact ⟨[], by simp [crOpLoop], .nil, by simp, by simp⟩
    · obtain ⟨hvb, hb'⟩ := List.pairwise_cons.mp hb
      have h := hturn [] bPt b false true rfl ha hb' (by simp) hvb (by simpa using hn)
      simpa [crOpLoop] using h
    · obtain ⟨hva, ha'⟩ := List.pairwise_cons.mp ha
      have h := hturn aPt [] a true false rfl ha' hb hva (by simp) (by simpa using hn)
      simpa [crOpLoop] using h
    · obtain ⟨hva, ha'⟩ := List.pairwise_cons.mp ha
      obtain ⟨hvb, hb'⟩ := List.pairwise_cons.mp hb
      have hlen : aPt.length + bPt.length + 2 ≤ n + 1 := by
        simpa [Nat.add_assoc, Nat.add_comm, Nat.add_left_comm] using hn
      rcases lt_trichotomy a b with hlt | rfl | hgt
      · have hab : ∀ p ∈ b :: bPt, a ≤ p := by
          intro p hp
          rcases List.mem_cons.mp hp with rfl | hp
          · exact hlt.le
          · exact hlt.le.trans (hvb p hp)
        have h := hturn aPt (b :: bPt) a true false rfl ha' hb hva hab (by simp; omega)
        simpa [crOpLoop, hlt] using h
      · have h := hturn aPt bPt a true true rfl ha' hb' hva hvb (by omega)
        simpa [crOpLoop] using h
      · have hba : ∀ p ∈ a :: aPt, b ≤ p := by
          intro p hp
          rcases List.mem_cons.mp hp with rfl | hp
          · exact hgt.le
          · exact hgt.le.trans (hva p hp)
        have h := hturn (a :: aPt) bPt b false true rfl ha hb' hba hvb (by simp; omega)
        simpa [crOpLoop, hgt.not_gt, hgt.ne'] using h

end Op

section Sets

variable {c : ℕ} {cr : List ℕ}

lemma IsPoints.within_beyond (h : IsPoints cr) (hc : uint32Max ≤ c) : within cr c = false := by
  rw [within_of_le fun p hp => (h.le p hp).trans hc]
  simpa using h.even

lemma IsPoints.within_eq (h : IsPoints cr) : within cr c = inIntervals c cr :=
  within_eq_inIntervals h.sorted h.even

lemma IsPoints.mem_iff (h : IsPoints cr) : c ∈ charSet cr ↔ within cr c = true := by
  rw [h.within_eq]
  rfl

lemma crOp1_within {a b : List ℕ} (ha : IsPoints a) (hb : IsPoints b) (op : CrOp) :
    IsCharSet (crOp1 a b op) ∧ ∀ c, within (crOp1 a b op) c = op.isIn (within a c) (within b c) := by
  have hnone : op.isIn false false = false := by cases op <;> rfl
  have hstart : decide (([] : List ℕ).length % 2 = 1) = op.isIn false false := by simp [hnone]
  obtain ⟨rest, hloop, hrest⟩ := crOpLoop_rest le_rfl ha.sorted hb.sorted hstart
  have hle : ∀ p ∈ rest, p ≤ uint32Max := by
    intro p hp
    rcases hrest.mem p hp with hp | hp
    · exact ha.le p hp
    · exact hb.le p hp
  have heven : Even rest.length := by
    have hlast := hrest.inside uint32Max
    rw [within_of_le hle, ha.within_beyond le_rfl, hb.within_beyond le_rfl] at hlast
    simpa [hnone] using hlast
  rw [crOp1, hloop, List.nil_append]
  refine ⟨crCompress_isCharSet heven hrest.sorted hle, fun c => ?_⟩
  rw [crCompress_within heven, hrest.inside]
  simp [hnone]

lemma crOp1_charSet {a b : List ℕ} (ha : IsPoints a) (hb : IsPoints b) (op : CrOp) :
    IsCharSet (crOp1 a b op) ∧ charSet (crOp1 a b op) = op.set (charSet a) (charSet b) := by
  obtain ⟨hset, hwithin⟩ := crOp1_within ha hb op
  refine ⟨hset, Set.ext fun c => ?_⟩
  rw [hset.points.mem_iff, hwithin]
  cases op <;> simp [CrOp.isIn, CrOp.set, ha.mem_iff, hb.mem_iff]

lemma crInvert_charSet (h : IsPoints cr) :
    IsCharSet (crInvert cr) ∧ charSet (crInvert cr) = Set.Iio uint32Max \ charSet cr := by
  have heven : Even (0 :: cr ++ [uint32Max]).length := by simpa [Nat.even_add_one] using h.even
  have hsorted : (0 :: cr ++ [uint32Max]).Pairwise (· ≤ ·) := by
    rw [List.cons_append, List.pairwise_cons, List.pairwise_append]
    refine ⟨fun p _ => Nat.zero_le p, h.sorted, List.pairwise_singleton _ _, fun p hp q hq => ?_⟩
    exact List.mem_singleton.mp hq ▸ h.le p hp
  have hle : ∀ p ∈ 0 :: cr ++ [uint32Max], p ≤ uint32Max := by
    intro p hp
    rcases List.mem_append.mp hp with hp | hp
    · rcases List.mem_cons.mp hp with rfl | hp
      · exact Nat.zero_le _
      · exact h.le p hp
    · exact (List.mem_singleton.mp hp).le
  have hset : IsCharSet (crInvert cr) := crCompress_isCharSet heven hsorted hle
  refine ⟨hset, Set.ext fun c => ?_⟩
  rw [hset.points.mem_iff, crInvert, crCompress_within heven, Set.mem_sdiff, Set.mem_Iio, h.mem_iff]
  rcases lt_or_ge c uint32Max with hlt | hge
  · simp [hlt, not_le.mpr hlt]
  · simp [hge, not_lt.mpr hge, h.within_beyond hge]

lemma interval_isCharSet {c1 c2 : ℕ} (hle : c1 ≤ c2) (hlt : c2 < uint32Max) : IsCharSet [c1, c2 + 1] :=
  ⟨by simp; omega, by simp, by simp; omega⟩

lemma crUnionInterval_charSet (h : IsPoints cr) {c1 c2 : ℕ} (hle : c1 ≤ c2) (hlt : c2 < uint32Max) :
    IsCharSet (crUnionInterval cr c1 c2) ∧ charSet (crUnionInterval cr c1 c2) = charSet cr ∪ Set.Icc c1 c2 := by
  have hmod : (c2 + 1) % 2 ^ 32 = c2 + 1 := Nat.mod_eq_of_lt (by unfold uint32Max at hlt; omega)
  have hinterval : charSet [c1, c2 + 1] = Set.Icc c1 c2 := by
    ext c
    simp [charSet, inIntervals]
  rw [crUnionInterval, hmod, ← hinterval]
  exact crOp1_charSet h (interval_isCharSet hle hlt).points .union

end Sets

end Jsregexp
