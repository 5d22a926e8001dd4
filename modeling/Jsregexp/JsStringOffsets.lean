import Jsregexp.JsStringTables

namespace Jsregexp

open Library.Offsets

structure Span where
  units : ℕ
  bytes : ℕ
  units_pos : 1 ≤ units
  bytes_pos : 1 ≤ bytes

namespace Span

def ofCodePoint (cp : CodePoint) : Span := ⟨cp.unitLen, cp.byteLen, cp.unitLen_pos, cp.byteLen_pos⟩

def padded (cp : CodePoint) (k : ℕ) : Span :=
  ⟨cp.unitLen, cp.byteLen + k, cp.unitLen_pos, Nat.le_add_right_of_le cp.byteLen_pos⟩

end Span

lemma marks_map {α β : Type*} (h : α → β) (f g : β → ℕ) (b : ℕ) (l : List α) :
    marks f g b (l.map h) = marks (f ∘ h) (g ∘ h) b l := by
  induction l generalizing b with
  | nil => rfl
  | cons a l ih => simp [marks, ih]

lemma total_map {α β : Type*} (h : α → β) (f : β → ℕ) (l : List α) : total f (l.map h) = total (f ∘ h) l := by
  simp [total]

namespace JsString

structure Mapped (js : JsString) (l : List Span) : Prop where
  len : js.len = total Span.units l
  bstrLen : js.bstrLen = total Span.bytes l
  le : js.len ≤ js.bstrLen
  indices : ∃ k, js.indices = table Span.units Span.bytes l ++ List.replicate k 0
  revIndices : js.revIndices = table Span.bytes Span.units l

structure WellFormed (js : JsString) : Prop where
  bstrLen_lt : js.bstrLen < 2 ^ 32
  narrow : js.isWideChar = false → js.len = js.bstrLen
  wide : js.isWideChar = true → ∃ l, js.Mapped l
  fits : js.isWideChar = true → js.bstrLen + 1 < 2 ^ 32 ∧ js.bstr.length ≤ js.bstrLen

def byteAt (js : JsString) (u : ℕ) : ℕ :=
  if js.isWideChar then js.indices.getD u 0 else u

def Interior (js : JsString) (u : ℕ) : Prop :=
  js.isWideChar = true ∧ 0 < u ∧ u ≤ js.len ∧ js.indices.getD u 0 = 0

instance (js : JsString) (u : ℕ) : Decidable (js.Interior u) := by
  unfold Interior
  infer_instance

end JsString

/-- `while (rlast_index < bstr_len && !rev_indices[rlast_index]) rlast_index++`, for at most `n` turns. -/
def moveToNextIndex (rev : List ℕ) : ℕ → ℕ → ℕ
  | 0, i => i
  | n + 1, i => if rev.getD i 0 = 0 then moveToNextIndex rev n (i + 1) else i

def translateIndex (input : JsString) (rlastIndex : ℕ) : ℕ :=
  if input.isWideChar && decide (0 < rlastIndex) && decide (rlastIndex ≤ input.bstrLen) then
    input.revIndices.getD (moveToNextIndex input.revIndices (input.bstrLen - rlastIndex) rlastIndex) 0
  else rlastIndex

namespace JsString

variable {js : JsString} {l : List Span}

lemma Mapped.getD_indices (h : js.Mapped l) {u : ℕ} (hu : u ≤ js.len) :
    js.indices.getD u 0 = image Span.units Span.bytes l u := by
  obtain ⟨k, hk⟩ := h.indices
  rw [hk, List.getD_append]
  · rfl
  · rw [table_length Span.units_pos, ← h.len]
    omega

lemma Mapped.getD_revIndices (h : js.Mapped l) (i : ℕ) :
    js.revIndices.getD i 0 = image Span.bytes Span.units l i := by
  rw [h.revIndices]
  rfl

lemma Mapped.boundary_iff (h : js.Mapped l) (hw : js.isWideChar = true) {u : ℕ} (hu : u ≤ js.len) :
    Boundary Span.units l u ↔ ¬ js.Interior u := by
  constructor
  · rintro hb ⟨-, h0, -, hz⟩
    rw [h.getD_indices hu] at hz
    exact absurd hz (image_pos Span.units_pos Span.bytes_pos hb h0).ne'
  · intro hi
    by_contra hb
    have hz := image_of_not_boundary (g := Span.bytes) Span.units_pos (h.len ▸ hu) hb
    refine hi ⟨hw, Nat.pos_of_ne_zero ?_, hu, by rw [h.getD_indices hu, hz]⟩
    rintro rfl
    exact hb (boundary_zero l)

lemma moveToNextIndex_eq (h : js.Mapped l) {n i : ℕ} (h0 : 0 < i) (hn : i + n = js.bstrLen) :
    moveToNextIndex js.revIndices n i = ceil Span.bytes l i := by
  induction n generalizing i with
  | zero =>
    have hb : Boundary Span.bytes l i := by
      rw [Nat.add_zero] at hn
      rw [hn, h.bstrLen]
      exact boundary_total l
    exact (ceil_of_boundary hb).symm
  | succ n ih =>
    rw [moveToNextIndex, h.getD_revIndices]
    have hi : i ≤ total Span.bytes l := by
      rw [← h.bstrLen]
      omega
    split
    · next hz =>
      have hnb : ¬ Boundary Span.bytes l i := fun hb =>
        absurd hz (image_pos Span.bytes_pos Span.units_pos hb h0).ne'
      have hlt : i + 1 ≤ ceil Span.bytes l i := by
        rcases Nat.lt_or_eq_of_le (le_ceil hi) with hlt | heq
        · exact hlt
        · exact absurd (heq ▸ ceil_boundary l i) hnb
      rw [ih (by omega) (by omega)]
      refine le_antisymm (ceil_le (ceil_boundary l i) hlt) (ceil_le (ceil_boundary l (i + 1)) ?_)
      have hi' : i + 1 ≤ total Span.bytes l := by
        rw [← h.bstrLen]
        omega
      exact (Nat.le_succ i).trans (le_ceil hi')
    · next hz =>
      have hb : Boundary Span.bytes l i := by
        by_contra hb
        exact hz (image_of_not_boundary Span.bytes_pos hi hb)
      exact (ceil_of_boundary hb).symm

lemma Mapped.translateIndex_eq (h : js.Mapped l) (hw : js.isWideChar = true) {i : ℕ}
    (hi : i ≤ js.bstrLen) :
    translateIndex js i = image Span.bytes Span.units l (ceil Span.bytes l i) := by
  unfold translateIndex
  rcases Nat.eq_zero_or_pos i with rfl | h0
  · simp [ceil_of_boundary (boundary_zero l), image_zero Span.bytes_pos]
  · simp only [hw, h0, hi, decide_true, Bool.and_self, if_true]
    rw [moveToNextIndex_eq h h0 (by omega), h.getD_revIndices]

lemma byteAt_interior {u : ℕ} (hu : js.Interior u) : js.byteAt u = 0 := by
  rw [byteAt, if_pos hu.1, hu.2.2.2]

namespace WellFormed

variable (h : js.WellFormed)
include h

lemma len_le : js.len ≤ js.bstrLen := by
  cases hw : js.isWideChar with
  | false => exact (h.narrow hw).le
  | true =>
    obtain ⟨l, hl⟩ := h.wide hw
    exact hl.le

lemma len_lt : js.len < 2 ^ 32 := h.len_le.trans_lt h.bstrLen_lt

lemma translateIndex_gt {i : ℕ} (hi : js.bstrLen < i) : js.len < translateIndex js i := by
  have ht : translateIndex js i = i := by simp [translateIndex, Nat.not_le.mpr hi]
  rw [ht]
  cases hw : js.isWideChar with
  | false => rwa [h.narrow hw]
  | true =>
    obtain ⟨l, hl⟩ := h.wide hw
    exact hl.le.trans_lt hi

lemma translateIndex_le {i : ℕ} (hi : i ≤ js.bstrLen) : translateIndex js i ≤ js.len := by
  cases hw : js.isWideChar with
  | false => simpa [translateIndex, hw, h.narrow hw] using hi
  | true =>
    obtain ⟨l, hl⟩ := h.wide hw
    rw [hl.translateIndex_eq hw hi, hl.len]
    exact image_le_total Span.bytes_pos _ _

lemma translateIndex_le_iff {i : ℕ} : translateIndex js i ≤ js.len ↔ i ≤ js.bstrLen :=
  ⟨fun hi => by
    by_contra hn
    exact absurd hi (Nat.not_le.mpr (h.translateIndex_gt (Nat.not_le.mp hn))), h.translateIndex_le⟩

lemma translateIndex_not_interior {i : ℕ} (hi : i ≤ js.bstrLen) : ¬ js.Interior (translateIndex js i) := by
  cases hw : js.isWideChar with
  | false => simp [Interior, hw]
  | true =>
    obtain ⟨l, hl⟩ := h.wide hw
    refine (hl.boundary_iff hw (h.translateIndex_le hi)).mp ?_
    rw [hl.translateIndex_eq hw hi]
    exact image_boundary Span.bytes_pos (ceil_boundary l i)

@[simp] lemma byteAt_zero : js.byteAt 0 = 0 := by
  cases hw : js.isWideChar with
  | false => simp [byteAt, hw]
  | true =>
    obtain ⟨l, hl⟩ := h.wide hw
    rw [byteAt, if_pos hw, hl.getD_indices (Nat.zero_le _), image_zero Span.units_pos]

lemma byteAt_le {u : ℕ} (hu : u ≤ js.len) : js.byteAt u ≤ js.bstrLen := by
  cases hw : js.isWideChar with
  | false => simpa [byteAt, hw, ← h.narrow hw] using hu
  | true =>
    obtain ⟨l, hl⟩ := h.wide hw
    rw [byteAt, if_pos hw, hl.getD_indices hu, hl.bstrLen]
    exact image_le_total Span.units_pos _ _

lemma byteAt_lt {u v : ℕ} (hv : v ≤ js.len) (hu' : ¬ js.Interior u) (hv' : ¬ js.Interior v)
    (huv : u < v) : js.byteAt u < js.byteAt v := by
  cases hw : js.isWideChar with
  | false => simpa [byteAt, hw] using huv
  | true =>
    obtain ⟨l, hl⟩ := h.wide hw
    have hu : u ≤ js.len := huv.le.trans hv
    rw [byteAt, byteAt, if_pos hw, if_pos hw, hl.getD_indices hu, hl.getD_indices hv]
    exact image_strictMono Span.units_pos Span.bytes_pos ((hl.boundary_iff hw hu).mpr hu')
      ((hl.boundary_iff hw hv).mpr hv') huv

lemma byteAt_mono {u v : ℕ} (hv : v ≤ js.len) (hu' : ¬ js.Interior u) (hv' : ¬ js.Interior v)
    (huv : u ≤ v) : js.byteAt u ≤ js.byteAt v := by
  rcases Nat.lt_or_eq_of_le huv with hlt | rfl
  · exact (h.byteAt_lt hv hu' hv' hlt).le
  · exact le_rfl

lemma byteAt_pos {u : ℕ} (hu : u ≤ js.len) (hu' : ¬ js.Interior u) (h0 : 0 < u) : 0 < js.byteAt u := by
  have h0' : ¬ js.Interior 0 := by simp [Interior]
  simpa [h.byteAt_zero] using h.byteAt_lt hu h0' hu' h0

lemma byteAt_le_iff {s e : ℕ} (hse : s ≤ e) (he : e ≤ js.len) :
    js.byteAt s ≤ js.byteAt e ↔ (js.Interior e → s = 0 ∨ js.Interior s) := by
  constructor
  · intro hle hi
    by_contra hn
    push Not at hn
    have hpos := h.byteAt_pos (hse.trans he) hn.2 (Nat.pos_of_ne_zero hn.1)
    rw [byteAt_interior hi] at hle
    omega
  · intro himp
    by_cases hs : js.Interior s
    · simp [byteAt_interior hs]
    by_cases hi : js.Interior e
    · simp [(himp hi).resolve_right hs, h.byteAt_zero]
    · exact h.byteAt_mono he hs hi hse

lemma le_byteAt_translateIndex {i : ℕ} (hi : i ≤ js.bstrLen) : i ≤ js.byteAt (translateIndex js i) := by
  cases hw : js.isWideChar with
  | false => simp [byteAt, translateIndex, hw]
  | true =>
    obtain ⟨l, hl⟩ := h.wide hw
    rw [byteAt, if_pos hw, hl.getD_indices (h.translateIndex_le hi), hl.translateIndex_eq hw hi,
      image_image Span.bytes_pos Span.units_pos (ceil_boundary l i)]
    exact le_ceil (hl.bstrLen ▸ hi)

lemma translateIndex_byteAt {u : ℕ} (hu : u ≤ js.len) (hu' : ¬ js.Interior u) :
    translateIndex js (js.byteAt u) = u := by
  cases hw : js.isWideChar with
  | false => simp [byteAt, translateIndex, hw]
  | true =>
    obtain ⟨l, hl⟩ := h.wide hw
    have hb := (hl.boundary_iff hw hu).mpr hu'
    rw [hl.translateIndex_eq hw (h.byteAt_le hu), byteAt, if_pos hw, hl.getD_indices hu,
      ceil_of_boundary (image_boundary Span.units_pos hb), image_image Span.units_pos Span.bytes_pos hb]

lemma byteAt_translateIndex_le {i u : ℕ} (hu : u ≤ js.len) (hu' : ¬ js.Interior u) (hi : i ≤ js.byteAt u) :
    js.byteAt (translateIndex js i) ≤ js.byteAt u := by
  have hlen : i ≤ js.bstrLen := hi.trans (h.byteAt_le hu)
  refine h.byteAt_mono hu (h.translateIndex_not_interior hlen) hu' ?_
  cases hw : js.isWideChar with
  | false => simpa [byteAt, translateIndex, hw] using hi
  | true =>
    obtain ⟨l, hl⟩ := h.wide hw
    have hb := (hl.boundary_iff hw hu).mpr hu'
    have hbyte : js.byteAt u = image Span.units Span.bytes l u := by rw [byteAt, if_pos hw, hl.getD_indices hu]
    have hub := image_boundary (g := Span.bytes) Span.units_pos hb
    rw [hbyte] at hi
    rw [hl.translateIndex_eq hw hlen]
    calc image Span.bytes Span.units l (ceil Span.bytes l i)
      _ ≤ image Span.bytes Span.units l (image Span.units Span.bytes l u) :=
        image_mono Span.bytes_pos Span.units_pos (ceil_boundary l i) hub (ceil_le hub hi)
      _ = u := image_image Span.units_pos Span.bytes_pos hb

end WellFormed

end JsString

end Jsregexp
