import Jsregexp.JsString
import Jsregexp.Library.Offsets

/-! What the conversion loop of `utf8_to_utf16` builds: the code points of the subject in UTF-16 and
two offset tables over their boundaries. -/

namespace Jsregexp

open Library.Offsets

structure CodePoint where
  code : ℕ
  bytes : Bytes
  nonempty : bytes ≠ []

namespace CodePoint

def units (cp : CodePoint) : List ℕ := utf16Units cp.code
def byteLen (cp : CodePoint) : ℕ := cp.bytes.length
def unitLen (cp : CodePoint) : ℕ := cp.units.length

def ofChar (c : Char) : CodePoint where
  code := c.toNat
  bytes := String.utf8EncodeChar c
  nonempty := by
    intro h
    have := congrArg List.length h
    have hp := String.length_utf8EncodeChar c
    have := c.utf8Size_pos
    simp_all

lemma byteLen_pos (cp : CodePoint) : 1 ≤ cp.byteLen :=
  List.length_pos_iff.mpr cp.nonempty

lemma unitLen_pos (cp : CodePoint) : 1 ≤ cp.unitLen := by
  unfold unitLen units utf16Units
  split <;> simp

lemma unitLen_le_two (cp : CodePoint) : cp.unitLen ≤ 2 := by
  unfold unitLen units utf16Units
  split <;> simp

end CodePoint

def textBytes (cps : List CodePoint) : Bytes := cps.flatMap CodePoint.bytes
def textUnits (cps : List CodePoint) : List ℕ := cps.flatMap CodePoint.units

@[simp] lemma textBytes_nil : textBytes [] = [] := rfl
@[simp] lemma textBytes_cons (cp : CodePoint) (s : List CodePoint) :
    textBytes (cp :: s) = cp.bytes ++ textBytes s := rfl
@[simp] lemma textBytes_append (p s : List CodePoint) : textBytes (p ++ s) = textBytes p ++ textBytes s := by
  simp [textBytes]
@[simp] lemma textUnits_append (p s : List CodePoint) : textUnits (p ++ s) = textUnits p ++ textUnits s := by
  simp [textUnits]
@[simp] lemma textUnits_singleton (cp : CodePoint) : textUnits [cp] = cp.units := by simp [textUnits]

lemma textBytes_length (s : List CodePoint) : (textBytes s).length = total CodePoint.byteLen s := by
  induction s with
  | nil => rfl
  | cons cp s ih => simp [ih, CodePoint.byteLen]

lemma textUnits_length (s : List CodePoint) : (textUnits s).length = total CodePoint.unitLen s := by
  simp only [textUnits, total, List.length_flatMap]
  rfl

inductive Decodes : List CodePoint → Bytes → Bytes → Prop
  | nil {p} : Decodes [] p p
  | cons {c s q r} : unicodeFromUtf8 (c.bytes ++ q) utf8CharLenMax = some (c.code, q) →
      Decodes s q r → Decodes (c :: s) (c.bytes ++ q) r

namespace Decodes

variable {s : List CodePoint} {p q : Bytes}

lemma eq_append (h : Decodes s p q) : p = textBytes s ++ q := by
  induction h with
  | nil => rfl
  | cons _ _ ih => simp [← ih]

lemma unitLen_le {cp : CodePoint} (h : unicodeFromUtf8 (cp.bytes ++ q) utf8CharLenMax = some (cp.code, q)) :
    cp.unitLen ≤ cp.byteLen := by
  obtain ⟨b, u, he, -, hone, -, -⟩ := unicodeFromUtf8_suffix (by simp [cp.nonempty]) h
  have hb : cp.bytes = b :: u := List.append_cancel_right he
  cases u with
  | nil =>
    obtain ⟨hc, hlt⟩ := hone rfl
    have : cp.unitLen = 1 := by
      have hn : ¬ cp.code > 0xffff := by omega
      simp [CodePoint.unitLen, CodePoint.units, utf16Units, hn]
    rw [this]
    exact cp.byteLen_pos
  | cons x u =>
    refine cp.unitLen_le_two.trans ?_
    simp [CodePoint.byteLen, hb]

lemma total_le (h : Decodes s p q) : total CodePoint.unitLen s ≤ total CodePoint.byteLen s := by
  induction h with
  | nil => simp
  | cons hd _ ih =>
    have := unitLen_le hd
    simp only [total_cons]
    omega

def Stops (q : Bytes) : Prop := q = [] ∨ unicodeFromUtf8 q utf8CharLenMax = none

lemma not_stops {cp : CodePoint} (h : unicodeFromUtf8 (cp.bytes ++ q) utf8CharLenMax = some (cp.code, q)) :
    ¬ Stops (cp.bytes ++ q) := by
  rintro (he | hn)
  · exact cp.nonempty (List.append_eq_nil_iff.mp he).1
  · rw [h] at hn
    cases hn

lemma unique_of_stops {s' : List CodePoint} {q' : Bytes} (h : Decodes s p q) (h' : Decodes s' p q')
    (hq : Stops q) (hq' : Stops q') : s = s' ∧ q = q' := by
  induction h generalizing s' with
  | nil =>
    cases h' with
    | nil => exact ⟨rfl, rfl⟩
    | cons hd' _ => exact absurd hq (not_stops hd')
  | @cons cp s q r hd _ ih =>
    generalize hp : cp.bytes ++ q = p at h'
    cases h' with
    | nil =>
      rw [← hp] at hq'
      exact absurd hq' (not_stops hd)
    | @cons cp' s' q' _ hd' hs' =>
      rw [hp, hd'] at hd
      obtain ⟨hcode, rfl⟩ : cp'.code = cp.code ∧ q' = q := by simpa using hd
      have hbytes : cp.bytes = cp'.bytes := List.append_cancel_right hp
      have hcp : cp = cp' := by
        obtain ⟨code, bytes, hne⟩ := cp
        obtain ⟨code', bytes', hne'⟩ := cp'
        simp_all
      obtain ⟨rfl, rfl⟩ := ih hs' hq
      exact ⟨by rw [hcp], rfl⟩

lemma unique {s' : List CodePoint} (h : Decodes s p []) (h' : Decodes s' p []) : s = s' :=
  (unique_of_stops h h' (.inl rfl) (.inl rfl)).1

lemma peek_ne_zero {cp : CodePoint} (h : 0 ∉ cp.bytes) : peek (cp.bytes ++ q) 0 ≠ 0 := by
  obtain ⟨b, u, hb⟩ := List.exists_cons_of_ne_nil cp.nonempty
  rw [hb] at h ⊢
  have hb0 : b ≠ 0 := fun he => h (by simp [he])
  simpa [← UInt8.toNat_inj] using hb0

end Decodes

lemma scan_cases (p : Bytes) : ∃ s q, Decodes s p q ∧ 0 ∉ textBytes s ∧
    (peek q 0 = 0 ∨ unicodeFromUtf8 q utf8CharLenMax = none) := by
  induction hn : p.length using Nat.strong_induction_on generalizing p with
  | _ n ih =>
    by_cases h0 : peek p 0 = 0
    · exact ⟨[], p, .nil, by simp, .inl h0⟩
    cases hd : unicodeFromUtf8 p utf8CharLenMax with
    | none => exact ⟨[], p, .nil, by simp, .inr hd⟩
    | some r =>
      obtain ⟨c, q⟩ := r
      have hp : p ≠ [] := List.ne_nil_of_length_pos (ne_nil_of_peek h0)
      obtain ⟨b, u, rfl, -, -, -, hu⟩ := unicodeFromUtf8_suffix hp hd
      obtain ⟨s, r, hs, hz, hr⟩ := ih q.length (by simp at hn; omega) q rfl
      let cp : CodePoint := ⟨c, b :: u, by simp⟩
      have hb : 0 ≠ b := by rintro rfl; simp at h0
      have hz' : (0 : UInt8) ∉ u := fun hx => absurd (hu 0 hx) (by decide)
      exact ⟨cp :: s, r, .cons (c := cp) hd hs, by simp [cp, hb, hz', hz], hr⟩

section Loop

def partialUtf16 (size : ℕ) (p : List CodePoint) : Utf16 where
  str := textUnits p
  indices := marks CodePoint.unitLen CodePoint.byteLen 0 p ++
    List.replicate (size - total CodePoint.unitLen p) 0
  revIndices := marks CodePoint.byteLen CodePoint.unitLen 0 p ++
    List.replicate (size - total CodePoint.byteLen p) 0

def finalUtf16 (n : ℕ) (p : List CodePoint) : Utf16 where
  str := textUnits p
  indices := marks CodePoint.unitLen CodePoint.byteLen 0 p ++
    n :: List.replicate (n - total CodePoint.unitLen p) 0
  revIndices := marks CodePoint.byteLen CodePoint.unitLen 0 p ++
    (List.replicate (n - total CodePoint.byteLen p) 0 ++ [total CodePoint.unitLen p])

lemma store_marks {f g : CodePoint → ℕ} (hf : ∀ cp, 1 ≤ f cp) (p : List CodePoint) {k : ℕ} (v : ℕ)
    (h : total f p < k) :
    store (marks f g 0 p ++ List.replicate (k - total f p) 0) (total f p) v =
      .ok (marks f g 0 p ++ v :: List.replicate (k - total f p - 1) 0) := by
  obtain ⟨j, hj⟩ : ∃ j, k - total f p = j + 1 := ⟨k - total f p - 1, by omega⟩
  rw [hj, List.replicate_succ, Nat.add_sub_cancel]
  conv_lhs => rw [← marks_length (g := g) hf 0 p]
  exact store_append 0 v

lemma marks_snoc {f g : CodePoint → ℕ} (p : List CodePoint) (cp : CodePoint) {size : ℕ} (hf : 1 ≤ f cp)
    (h : total f p + f cp ≤ size) :
    marks f g 0 p ++ total g p :: List.replicate (size - total f p - 1) 0 =
      marks f g 0 (p ++ [cp]) ++ List.replicate (size - total f (p ++ [cp])) 0 := by
  have he : size - total f p - 1 = (f cp - 1) + (size - total f (p ++ [cp])) := by
    simp only [total_append, total_cons, total_nil]
    omega
  rw [he, ← List.replicate_append_replicate, marks_append]
  simp [marks]

lemma utf8ToUtf16Loop_stop {n fuel : ℕ} {pos : Bytes} {p : List CodePoint} (h0 : peek pos 0 = 0)
    (hu : total CodePoint.unitLen p ≤ n) (hb : total CodePoint.byteLen p ≤ n) :
    utf8ToUtf16Loop n (n + 1) (fuel + 1) pos (total CodePoint.byteLen p) (partialUtf16 (n + 1) p) =
      .ok (some (finalUtf16 n p)) := by
  have hstr : store (List.replicate (n + 1) 0) (total CodePoint.unitLen p) 0 =
      .ok (List.replicate (n + 1) 0) := by
    rw [store, if_pos (by rw [List.length_replicate]; omega)]
    simp [List.set_replicate_self]
  have hrev : store (partialUtf16 (n + 1) p).revIndices n (total CodePoint.unitLen p) =
      .ok (finalUtf16 n p).revIndices := by
    have hr : List.replicate (n + 1 - total CodePoint.byteLen p) 0 =
        List.replicate (n - total CodePoint.byteLen p) 0 ++ [0] := by
      rw [show n + 1 - total CodePoint.byteLen p = n - total CodePoint.byteLen p + 1 by omega,
        List.replicate_succ']
    have hl : (marks CodePoint.byteLen CodePoint.unitLen 0 p ++
        List.replicate (n - total CodePoint.byteLen p) 0).length = n := by
      simp [marks_length CodePoint.byteLen_pos]
      omega
    have hs := store_append (p := marks CodePoint.byteLen CodePoint.unitLen 0 p ++
      List.replicate (n - total CodePoint.byteLen p) 0) (q := []) 0 (total CodePoint.unitLen p)
    rw [hl] at hs
    simpa only [partialUtf16, finalUtf16, hr, List.append_assoc] using hs
  have hind := store_marks (g := CodePoint.byteLen) CodePoint.unitLen_pos p n
    (k := n + 1) (Nat.lt_succ_of_le hu)
  have hsub : n + 1 - total CodePoint.unitLen p - 1 = n - total CodePoint.unitLen p := by omega
  rw [hsub] at hind
  simp only [utf8ToUtf16Loop, h0, if_true, bind, Except.bind, pure, Except.pure, partialUtf16,
    textUnits_length] at hrev ⊢
  rw [hstr]
  simp only [hind, hrev]
  rfl

lemma utf8ToUtf16Loop_malformed {n fuel : ℕ} {pos : Bytes} {p : List CodePoint} (h0 : peek pos 0 ≠ 0)
    (hd : unicodeFromUtf8 pos utf8CharLenMax = none) (hu : total CodePoint.unitLen p ≤ n)
    (hb : total CodePoint.byteLen p ≤ n) :
    utf8ToUtf16Loop n (n + 1) (fuel + 1) pos (total CodePoint.byteLen p) (partialUtf16 (n + 1) p) =
      .ok none := by
  have hind := store_marks (g := CodePoint.byteLen) CodePoint.unitLen_pos p (k := n + 1)
    (total CodePoint.byteLen p) (by omega)
  have hrev := store_marks (g := CodePoint.unitLen) CodePoint.byteLen_pos p (k := n + 1)
    (total CodePoint.unitLen p) (by omega)
  simp only [utf8ToUtf16Loop, h0, if_false, bind, Except.bind, partialUtf16, hd, textUnits_length]
  rw [hind]
  simp only [hrev]
  rfl

lemma utf8ToUtf16Loop_next {n fuel : ℕ} {p : List CodePoint} {cp : CodePoint} {q : Bytes}
    (hz : 0 ∉ cp.bytes) (hd : unicodeFromUtf8 (cp.bytes ++ q) utf8CharLenMax = some (cp.code, q))
    (hu : total CodePoint.unitLen (p ++ [cp]) ≤ n) (hb : total CodePoint.byteLen (p ++ [cp]) ≤ n) :
    utf8ToUtf16Loop n (n + 1) (fuel + 1) (cp.bytes ++ q) (total CodePoint.byteLen p)
        (partialUtf16 (n + 1) p) =
      utf8ToUtf16Loop n (n + 1) fuel q (total CodePoint.byteLen (p ++ [cp]))
        (partialUtf16 (n + 1) (p ++ [cp])) := by
  simp only [total_append, total_cons, total_nil, Nat.add_zero] at hu hb
  have hind := store_marks (g := CodePoint.byteLen) CodePoint.unitLen_pos p (k := n + 1)
    (total CodePoint.byteLen p) (by have := cp.unitLen_pos; omega)
  have hrev := store_marks (g := CodePoint.unitLen) CodePoint.byteLen_pos p (k := n + 1)
    (total CodePoint.unitLen p) (by have := cp.byteLen_pos; omega)
  rw [marks_snoc p cp cp.unitLen_pos (by omega)] at hind
  rw [marks_snoc p cp cp.byteLen_pos (by omega)] at hrev
  have hroom : total CodePoint.unitLen p + (utf16Units cp.code).length ≤ n + 1 := Nat.le_succ_of_le hu
  have hoff : total CodePoint.byteLen p + ((cp.bytes ++ q).length - q.length) =
      total CodePoint.byteLen (p ++ [cp]) := by
    simp [CodePoint.byteLen]
  simp only [utf8ToUtf16Loop, Decodes.peek_ne_zero hz, if_false, bind, Except.bind, partialUtf16, hd,
    textUnits_length]
  rw [hind]
  simp only [hrev]
  rw [if_pos hroom, hoff]
  simp [CodePoint.units]

lemma utf8ToUtf16Loop_decodes {n d : ℕ} {s p : List CodePoint} {pos q : Bytes} (h : Decodes s pos q)
    (hz : 0 ∉ textBytes s) (hu : total CodePoint.unitLen (p ++ s) ≤ n)
    (hb : total CodePoint.byteLen (p ++ s) ≤ n) :
    utf8ToUtf16Loop n (n + 1) (s.length + d) pos (total CodePoint.byteLen p)
        (partialUtf16 (n + 1) p) =
      utf8ToUtf16Loop n (n + 1) d q (total CodePoint.byteLen (p ++ s))
        (partialUtf16 (n + 1) (p ++ s)) := by
  induction h generalizing p with
  | nil => simp
  | @cons cp s q r hd _ ih =>
    have hz' : 0 ∉ cp.bytes ∧ 0 ∉ textBytes s := by simpa using hz
    have hsplit : p ++ cp :: s = p ++ [cp] ++ s := by simp
    rw [hsplit] at hu hb ⊢
    have hu' : total CodePoint.unitLen (p ++ [cp]) ≤ n := le_trans (by simp) hu
    have hb' : total CodePoint.byteLen (p ++ [cp]) ≤ n := le_trans (by simp) hb
    rw [List.length_cons, Nat.add_right_comm, utf8ToUtf16Loop_next hz'.1 hd hu' hb']
    exact ih hz'.2 hu hb

theorem utf8ToUtf16_eq {n : ℕ} {input q : Bytes} {s : List CodePoint} (h : Decodes s input q)
    (hz : 0 ∉ textBytes s) (hn : n + 1 < 2 ^ 32) (hb : (textBytes s).length ≤ n)
    (hq : peek q 0 = 0 ∨ unicodeFromUtf8 q utf8CharLenMax = none) :
    utf8ToUtf16 input n = .ok (if peek q 0 = 0 then some (finalUtf16 n s) else none) := by
  have hlen : input.length = (textBytes s).length + q.length := by rw [h.eq_append, List.length_append]
  rw [textBytes_length] at hb hlen
  have hcount : s.length ≤ total CodePoint.byteLen s := by
    clear h hz hb hlen
    induction s with
    | nil => simp
    | cons cp s ih =>
      have := cp.byteLen_pos
      simp only [List.length_cons, total_cons]
      omega
  obtain ⟨fuel, hf⟩ : ∃ fuel, input.length + 1 = s.length + (fuel + 1) :=
    ⟨input.length - s.length, by omega⟩
  have hloop := utf8ToUtf16Loop_decodes (n := n) (d := fuel + 1) (p := []) h hz (h.total_le.trans hb) hb
  simp only [total_nil, List.nil_append, partialUtf16, textUnits, List.flatMap_nil, marks,
    Nat.sub_zero] at hloop
  rw [← hf] at hloop
  rw [utf8ToUtf16, uint32, Nat.mod_eq_of_lt hn, hloop]
  split
  · next h0 => exact utf8ToUtf16Loop_stop h0 (h.total_le.trans hb) hb
  · next h0 =>
    exact utf8ToUtf16Loop_malformed h0 (hq.resolve_left h0) (h.total_le.trans hb) hb

lemma store_ok_iff {t t' : List ℕ} {i v : ℕ} : store t i v = .ok t' ↔ i < t.length ∧ t.set i v = t' := by
  unfold store
  split <;> simp_all

lemma utf8ToUtf16Loop_fits {n size fuel off : ℕ} {pos : Bytes} {t t' : Utf16}
    (h : utf8ToUtf16Loop n size fuel pos off t = .ok (some t')) (hz : 0 ∉ pos)
    (hr : t.revIndices.length = size) (ho : off ≤ size + 5) : off + pos.length ≤ size + 5 := by
  induction fuel generalizing pos off t with
  | zero => simp [utf8ToUtf16Loop] at h
  | succ fuel ih =>
    rcases List.eq_nil_or_concat' pos with rfl | ⟨_, _, hp⟩
    · simpa using ho
    have hne : pos ≠ [] := by simp [hp]
    clear hp
    have h0 : peek pos 0 ≠ 0 := by
      obtain ⟨b, u, rfl⟩ := List.exists_cons_of_ne_nil hne
      have hb : b ≠ 0 := fun he => hz (by simp [he])
      simpa [← UInt8.toNat_inj] using hb
    simp only [utf8ToUtf16Loop, h0, if_false, bind, Except.bind] at h
    split at h
    · cases h
    split at h
    · cases h
    next indices _ revIndices hs =>
    obtain ⟨hoff, rfl⟩ := store_ok_iff.mp hs
    split at h
    · cases h
    next c pos' hd =>
    obtain ⟨b, u, rfl, hu, -, -, -⟩ := unicodeFromUtf8_suffix hne hd
    split at h
    · have hz' : 0 ∉ pos' := fun hx => hz (by simp [hx])
      have hlen : (b :: u ++ pos').length - pos'.length = u.length + 1 := by simp; omega
      rw [hlen] at h
      have := ih h hz' (by simpa using hr) (by omega)
      simp only [List.cons_append, List.length_cons, List.length_append]
      omega
    · cases h

lemma utf8ToUtf16Loop_indices {n size fuel off : ℕ} {pos : Bytes} {t t' : Utf16}
    (h : utf8ToUtf16Loop n size fuel pos off t = .ok (some t')) (hr : t.revIndices.length ≤ n + 1)
    (ht : ∀ v ∈ t.indices, v ≤ n) : 0 < size ∧ ∀ v ∈ t'.indices, v ≤ n := by
  induction fuel generalizing pos off t with
  | zero => simp [utf8ToUtf16Loop] at h
  | succ fuel ih =>
    have hset {i v : ℕ} (hv : v ≤ n) : ∀ w ∈ t.indices.set i v, w ≤ n := fun w hw =>
      (List.mem_or_eq_of_mem_set hw).elim (ht w) fun he => he ▸ hv
    by_cases h0 : peek pos 0 = 0
    · simp only [utf8ToUtf16Loop, h0, if_true, except_bind_ok_iff, store_ok_iff] at h
      obtain ⟨_, ⟨hsize, -⟩, _, ⟨-, rfl⟩, _, -, ht'⟩ := h
      obtain rfl := Option.some.inj (Except.ok.inj ht')
      exact ⟨by simp at hsize; omega, hset le_rfl⟩
    · simp only [utf8ToUtf16Loop, h0, if_false, except_bind_ok_iff, store_ok_iff] at h
      obtain ⟨_, ⟨-, rfl⟩, _, ⟨hoff, rfl⟩, h⟩ := h
      split at h
      · cases h
      · split at h
        · exact ih h (by simpa using hr) (hset (by omega))
        · cases h

end Loop

end Jsregexp
