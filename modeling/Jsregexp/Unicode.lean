import Jsregexp.Memory

namespace Jsregexp

def utf8CharLenMax : ℕ := 6

def utf8MinCode (l : ℕ) : ℕ :=
  [0x80, 0x800, 0x10000, 0x00200000, 0x04000000].getD (l - 1) 0

def utf8FirstCodeMask (l : ℕ) : ℕ :=
  [0x1f, 0xf, 0x7, 0x3, 0x1].getD (l - 1) 0

/-- The `switch` of `unicode_from_utf8`: how many continuation bytes the first byte announces. -/
def utf8TailLen (c : ℕ) : Option ℕ :=
  if 0xc0 ≤ c ∧ c ≤ 0xdf then some 1
  else if 0xe0 ≤ c ∧ c ≤ 0xef then some 2
  else if 0xf0 ≤ c ∧ c ≤ 0xf7 then some 3
  else if 0xf8 ≤ c ∧ c ≤ 0xfb then some 4
  else if 0xfc ≤ c ∧ c ≤ 0xfd then some 5
  else none

def utf8Tail : ℕ → ℕ → Bytes → Option (ℕ × Bytes)
  | 0, c, p => some (c, p)
  | l + 1, c, p =>
    let b := peek p 0
    if b < 0x80 ∨ b ≥ 0xc0 then none
    else utf8Tail l ((c <<< 6) ||| (b &&& 0x3f)) p.tail

def unicodeFromUtf8 (p : Bytes) (maxLen : ℕ) : Option (ℕ × Bytes) :=
  let c := peek p 0
  if c < 0x80 then some (c, p.tail)
  else do
    let l ← utf8TailLen c
    if l > maxLen - 1 then none
    else
      let (c, q) ← utf8Tail l (c &&& utf8FirstCodeMask l) p.tail
      if c < utf8MinCode l then none else some (c, q)

def unicodeToUtf8 (c : ℕ) : Bytes :=
  let tail (n : ℕ) : UInt8 := UInt8.ofNat (((c >>> n) &&& 0x3f) ||| 0x80)
  if c < 0x80 then [UInt8.ofNat c]
  else if c < 0x800 then [UInt8.ofNat ((c >>> 6) ||| 0xc0), tail 0]
  else if c < 0x10000 then [UInt8.ofNat ((c >>> 12) ||| 0xe0), tail 6, tail 0]
  else if c < 0x00200000 then [UInt8.ofNat ((c >>> 18) ||| 0xf0), tail 12, tail 6, tail 0]
  else if c < 0x04000000 then [UInt8.ofNat ((c >>> 24) ||| 0xf8), tail 18, tail 12, tail 6, tail 0]
  else if c < 0x80000000 then [UInt8.ofNat ((c >>> 30) ||| 0xfc), tail 24, tail 18, tail 12, tail 6, tail 0]
  else []

def utf8ContainsNonBmp (s : Bytes) : Bool :=
  (cString s).any fun q => q.toNat &&& 0xf0 == 0xf0

def utf8ContainsNonAscii (s : Bytes) : Bool :=
  (cString s).any fun q => q.toNat &&& 0x80 != 0

def isHiSurrogate (c : ℕ) : Bool := c >>> 10 == 0xD800 >>> 10
def isLoSurrogate (c : ℕ) : Bool := c >>> 10 == 0xDC00 >>> 10
def fromSurrogate (hi lo : ℕ) : ℕ := 0x10000 + 0x400 * (hi - 0xD800) + (lo - 0xDC00)

lemma isHiSurrogate_iff {c : ℕ} : isHiSurrogate c = true ↔ 0xd800 ≤ c ∧ c < 0xdc00 := by
  have h : (0xD800 >>> 10 : ℕ) = 54 := rfl
  rw [isHiSurrogate, beq_iff_eq, h, Nat.shiftRight_eq_div_pow]
  omega

lemma isLoSurrogate_iff {c : ℕ} : isLoSurrogate c = true ↔ 0xdc00 ≤ c ∧ c < 0xe000 := by
  have h : (0xDC00 >>> 10 : ℕ) = 55 := rfl
  rw [isLoSurrogate, beq_iff_eq, h, Nat.shiftRight_eq_div_pow]
  omega

lemma shift_or_six (a b : ℕ) : (a <<< 6) ||| (b &&& 0x3f) = a * 64 + b % 64 := by
  have hb : b &&& 0x3f = b % 64 := Nat.and_two_pow_sub_one_eq_mod b 6
  have hlt : b % 64 < 2 ^ 6 := Nat.mod_lt _ (by norm_num)
  rw [hb, ← Nat.shiftLeft_add_eq_or_of_lt hlt, Nat.shiftLeft_eq]

lemma utf8Tail_cons {l c : ℕ} {b : UInt8} {p : Bytes} (hl : 0x80 ≤ b.toNat) (hu : b.toNat < 0xc0) :
    utf8Tail (l + 1) c (b :: p) = utf8Tail l (c * 64 + b.toNat % 64) p := by
  have h : ¬ (b.toNat < 0x80 ∨ b.toNat ≥ 0xc0) := by omega
  simp [utf8Tail, h, shift_or_six]

lemma utf8Tail_suffix {l c c' : ℕ} {p q : Bytes} (h : utf8Tail l c p = some (c', q)) :
    ∃ u : Bytes, p = u ++ q ∧ u.length = l ∧ ∀ b ∈ u, 0x80 ≤ b.toNat := by
  induction l generalizing c p with
  | zero => exact ⟨[], by simp_all [utf8Tail]⟩
  | succ l ih =>
    cases p with
    | nil => simp [utf8Tail] at h
    | cons b p =>
      by_cases hb : b.toNat < 0x80 ∨ b.toNat ≥ 0xc0
      · simp [utf8Tail, hb] at h
      · simp only [utf8Tail, peek_cons_zero, hb, if_false, List.tail_cons] at h
        obtain ⟨u, rfl, hu, hall⟩ := ih h
        refine ⟨b :: u, rfl, by simp [hu], ?_⟩
        rintro x (_ | ⟨_, hx⟩)
        · omega
        · exact hall x hx

lemma utf8TailLen_bounds {c l : ℕ} (h : utf8TailLen c = some l) : 1 ≤ l ∧ l ≤ 5 := by
  unfold utf8TailLen at h
  split_ifs at h <;> simp_all <;> omega

lemma unicodeFromUtf8_suffix {p q : Bytes} {c : ℕ} (hp : p ≠ [])
    (h : unicodeFromUtf8 p utf8CharLenMax = some (c, q)) :
    ∃ b u, p = b :: u ++ q ∧ u.length ≤ 5 ∧ (u = [] → c = b.toNat ∧ b.toNat < 0x80) ∧
      (u ≠ [] → 0x80 ≤ b.toNat ∧ 0x80 ≤ c) ∧ ∀ x ∈ u, 0x80 ≤ x.toNat := by
  cases p with
  | nil => exact absurd rfl hp
  | cons b p =>
    simp only [unicodeFromUtf8, peek_cons_zero, List.tail_cons] at h
    split at h
    · next hb =>
      obtain ⟨rfl, rfl⟩ : b.toNat = c ∧ p = q := by simpa using h
      exact ⟨b, [], rfl, by simp, fun _ => ⟨rfl, hb⟩, fun hn => absurd rfl hn, by simp⟩
    · next hb =>
      simp only [Option.bind_eq_bind, Option.bind_eq_some_iff] at h
      obtain ⟨l, hl, h⟩ := h
      split at h
      · simp at h
      · simp only [Option.bind_eq_some_iff] at h
        obtain ⟨⟨c', q'⟩, ht, h⟩ := h
        split at h
        · simp at h
        · next hmin =>
          obtain ⟨rfl, rfl⟩ : c' = c ∧ q' = q := by simpa using h
          obtain ⟨u, rfl, hu, hall⟩ := utf8Tail_suffix ht
          have hlen := utf8TailLen_bounds hl
          have hcode : 0x80 ≤ utf8MinCode l := by
            obtain ⟨h₁, h₂⟩ := hlen
            interval_cases l <;> simp [utf8MinCode]
          have hne : u ≠ [] := by rintro rfl; simp at hu; omega
          exact ⟨b, u, rfl, by omega, fun he => absurd he hne, fun _ => ⟨by omega, by omega⟩, hall⟩

lemma toNat_ofNat_byte {v : ℕ} (h : v < 256) : (UInt8.ofNat v).toNat = v := by
  simpa using h

lemma char_toNat_lt (c : Char) : c.toNat < 0x110000 := by
  rcases c.valid with h | ⟨-, h⟩
  · exact h.trans (by norm_num)
  · exact h

def utf8TailBytes : ℕ → ℕ → Bytes
  | 0, _ => []
  | l + 1, c => UInt8.ofNat (0x80 + c / 64 ^ l % 64) :: utf8TailBytes l c

def utf8Lead (l : ℕ) : ℕ :=
  [0xc0, 0xe0, 0xf0, 0xf8, 0xfc].getD (l - 1) 0

def utf8FormLen (c : ℕ) : ℕ :=
  if c < 0x800 then 1 else if c < 0x10000 then 2 else if c < 0x200000 then 3
  else if c < 0x4000000 then 4 else 5

def utf8Form (c : ℕ) : Bytes :=
  if c < 0x80 then [UInt8.ofNat c]
  else UInt8.ofNat (utf8Lead (utf8FormLen c) + c / 64 ^ utf8FormLen c) :: utf8TailBytes (utf8FormLen c) c

lemma utf8Tail_iff {l a c : ℕ} {p q : Bytes} :
    utf8Tail l a p = some (c, q) ↔ p = utf8TailBytes l c ++ q ∧ c / 64 ^ l = a := by
  induction l generalizing a p with
  | zero => simp [utf8Tail, utf8TailBytes, and_comm, eq_comm]
  | succ l ih =>
    have hdiv : c / 64 ^ (l + 1) = c / 64 ^ l / 64 := by rw [pow_succ, Nat.div_div_eq_div_mul]
    have hbyte : (UInt8.ofNat (0x80 + c / 64 ^ l % 64)).toNat = 0x80 + c / 64 ^ l % 64 :=
      toNat_ofNat_byte (by omega)
    constructor
    · intro h
      cases p with
      | nil => simp [utf8Tail] at h
      | cons b p =>
        by_cases hb : b.toNat < 0x80 ∨ b.toNat ≥ 0xc0
        · simp [utf8Tail, hb] at h
        · rw [utf8Tail_cons (by omega) (by omega), ih] at h
          obtain ⟨rfl, hc⟩ := h
          have hbe : b = UInt8.ofNat (0x80 + c / 64 ^ l % 64) := by
            rw [← UInt8.toNat_inj, hbyte]
            omega
          exact ⟨by rw [utf8TailBytes, ← hbe]; rfl, by omega⟩
    · rintro ⟨rfl, ha⟩
      rw [utf8TailBytes, List.cons_append, utf8Tail_cons (by omega) (by omega), ih, hbyte]
      exact ⟨rfl, by omega⟩

lemma utf8FormLen_iff {c l : ℕ} (hc : 0x80 ≤ c) :
    utf8FormLen c = l ∧ c < 2 ^ 31 ↔ (1 ≤ l ∧ l ≤ 5) ∧ utf8MinCode l ≤ c ∧ c / 64 ^ l < 2 ^ (6 - l) := by
  constructor
  · rintro ⟨rfl, hlt⟩
    rw [utf8FormLen]
    split_ifs <;> simp [utf8MinCode] <;> omega
  · rintro ⟨⟨h₁, h₅⟩, hmin, hlt⟩
    rw [utf8FormLen]
    interval_cases l <;> simp [utf8MinCode] at hmin hlt ⊢ <;> (split_ifs <;> omega)

lemma utf8FirstCodeMask_eq {l : ℕ} (c : ℕ) (h₁ : 1 ≤ l) (h₅ : l ≤ 5) :
    c &&& utf8FirstCodeMask l = c % 2 ^ (6 - l) := by
  interval_cases l
  · exact Nat.and_two_pow_sub_one_eq_mod c 5
  · exact Nat.and_two_pow_sub_one_eq_mod c 4
  · exact Nat.and_two_pow_sub_one_eq_mod c 3
  · exact Nat.and_two_pow_sub_one_eq_mod c 2
  · exact Nat.and_two_pow_sub_one_eq_mod c 1

lemma utf8TailLen_iff {b l : ℕ} :
    utf8TailLen b = some l ↔ (1 ≤ l ∧ l ≤ 5) ∧ b = utf8Lead l + b % 2 ^ (6 - l) := by
  constructor
  · intro h
    rw [utf8TailLen] at h
    split_ifs at h <;> obtain rfl := Option.some.inj h <;> simp [utf8Lead] <;> omega
  · rintro ⟨⟨h₁, h₅⟩, hb⟩
    rw [utf8TailLen]
    interval_cases l <;> simp [utf8Lead] at hb ⊢ <;> (split_ifs <;> first | rfl | omega)

theorem unicodeFromUtf8_iff {p q : Bytes} {c : ℕ} (hp : p ≠ []) :
    unicodeFromUtf8 p utf8CharLenMax = some (c, q) ↔ c < 2 ^ 31 ∧ p = utf8Form c ++ q := by
  obtain ⟨b, p, rfl⟩ := List.exists_cons_of_ne_nil hp
  have hb256 := b.toNat_lt
  rcases Nat.lt_or_ge b.toNat 0x80 with hb | hb
  · have hval : unicodeFromUtf8 (b :: p) utf8CharLenMax = some (b.toNat, p) := by simp [unicodeFromUtf8, hb]
    rw [hval]
    constructor
    · intro h
      obtain ⟨rfl, rfl⟩ : b.toNat = c ∧ p = q := by simpa using h
      exact ⟨by omega, by simp [utf8Form, hb]⟩
    · rintro ⟨hc, h⟩
      rcases Nat.lt_or_ge c 0x80 with hc' | hc'
      · rw [utf8Form, if_pos hc'] at h
        obtain ⟨rfl, rfl⟩ := List.cons.inj h
        rw [toNat_ofNat_byte (by omega)]
      · exfalso
        obtain ⟨⟨h₁, h₅⟩, -, hlt⟩ := (utf8FormLen_iff hc').mp ⟨rfl, hc⟩
        rw [utf8Form, if_neg (by omega)] at h
        have hlead : 0xc0 ≤ utf8Lead (utf8FormLen c) ∧
            utf8Lead (utf8FormLen c) + 2 ^ (6 - utf8FormLen c) ≤ 256 := by
          generalize utf8FormLen c = l at h₁ h₅
          interval_cases l <;> simp [utf8Lead]
        have hh := congrArg UInt8.toNat (List.cons.inj h).1
        generalize c / 64 ^ utf8FormLen c = a at hlt hh
        rw [toNat_ofNat_byte (by omega)] at hh
        omega
  · have hstep : unicodeFromUtf8 (b :: p) utf8CharLenMax = some (c, q) ↔
        ∃ l, utf8TailLen b.toNat = some l ∧ utf8Tail l (b.toNat &&& utf8FirstCodeMask l) p = some (c, q) ∧
          utf8MinCode l ≤ c := by
      simp only [unicodeFromUtf8, peek_cons_zero, List.tail_cons, if_neg (Nat.not_lt.mpr hb),
        Option.bind_eq_bind, Option.bind_eq_some_iff]
      refine exists_congr fun l => and_congr_right fun hl => ?_
      have hle : ¬ l > utf8CharLenMax - 1 := by
        have := (utf8TailLen_bounds hl).2
        simp [utf8CharLenMax]
        omega
      rw [if_neg hle]
      constructor
      · rw [Option.bind_eq_some_iff]
        rintro ⟨⟨c', q'⟩, ht, h⟩
        split at h
        · cases h
        · next hmin =>
          obtain ⟨rfl, rfl⟩ : c' = c ∧ q' = q := by simpa using h
          exact ⟨ht, by omega⟩
      · rintro ⟨ht, hmin⟩
        rw [ht]
        simp [Nat.not_lt.mpr hmin]
    rw [hstep]
    constructor
    · rintro ⟨l, hl, ht, hmin⟩
      obtain ⟨⟨h₁, h₅⟩, hlead⟩ := utf8TailLen_iff.mp hl
      rw [utf8FirstCodeMask_eq _ h₁ h₅, utf8Tail_iff] at ht
      obtain ⟨rfl, hq⟩ := ht
      have hc : 0x80 ≤ c := by
        refine le_trans ?_ hmin
        interval_cases l <;> simp [utf8MinCode]
      obtain ⟨rfl, hc31⟩ := (utf8FormLen_iff hc).mpr
        ⟨⟨h₁, h₅⟩, hmin, hq ▸ Nat.mod_lt _ (by positivity)⟩
      refine ⟨hc31, ?_⟩
      rw [utf8Form, if_neg (by omega), hq, ← hlead]
      simp
    · rintro ⟨hc31, h⟩
      have hc : 0x80 ≤ c := by
        by_contra hn
        rw [utf8Form, if_pos (by omega)] at h
        have hh := congrArg UInt8.toNat (List.cons.inj h).1
        rw [toNat_ofNat_byte (by omega)] at hh
        omega
      obtain ⟨⟨h₁, h₅⟩, hmin, hlt⟩ := (utf8FormLen_iff hc).mp ⟨rfl, hc31⟩
      rw [utf8Form, if_neg (by omega)] at h
      generalize utf8FormLen c = l at *
      obtain ⟨rfl, rfl⟩ := List.cons.inj h
      have hlead : (UInt8.ofNat (utf8Lead l + c / 64 ^ l)).toNat = utf8Lead l + c / 64 ^ l ∧
          (utf8Lead l + c / 64 ^ l) % 2 ^ (6 - l) = c / 64 ^ l := by
        generalize c / 64 ^ l = a at hlt
        interval_cases l <;> simp [utf8Lead] at hlt ⊢ <;> omega
      refine ⟨l, utf8TailLen_iff.mpr ⟨⟨h₁, h₅⟩, by rw [hlead.1, hlead.2]⟩, ?_, hmin⟩
      rw [utf8FirstCodeMask_eq _ h₁ h₅, hlead.1, hlead.2, utf8Tail_iff]
      exact ⟨rfl, rfl⟩

lemma utf8Form_ne_nil (c : ℕ) : utf8Form c ≠ [] := by
  rw [utf8Form]
  split <;> simp

lemma utf8Form_char (c : Char) : utf8Form c.toNat = String.utf8EncodeChar c := by
  have hc : c.toNat < 0x110000 := char_toNat_lt c
  have hv : c.val.toNat = c.toNat := rfl
  rw [String.utf8EncodeChar, hv]
  generalize c.toNat = v at hc
  rcases Nat.lt_or_ge v 0x80 with h₁ | h₁
  · rw [utf8Form, if_pos h₁, if_pos (by omega)]
  rw [utf8Form, if_neg (Nat.not_lt.mpr h₁), if_neg (by omega)]
  rcases Nat.lt_or_ge v 0x800 with h₂ | h₂
  · rw [utf8FormLen, if_pos h₂, if_pos (by omega)]
    simp [utf8TailBytes, utf8Lead, Nat.add_comm]
    rw [Nat.mod_eq_of_lt (by omega)]
  rw [if_neg (by omega)]
  rcases Nat.lt_or_ge v 0x10000 with h₃ | h₃
  · rw [utf8FormLen, if_neg (Nat.not_lt.mpr h₂), if_pos h₃, if_pos (by omega)]
    simp [utf8TailBytes, utf8Lead, Nat.add_comm]
    rw [Nat.mod_eq_of_lt (by omega)]
  rw [utf8FormLen, if_neg (Nat.not_lt.mpr h₂), if_neg (Nat.not_lt.mpr h₃), if_pos (by omega),
    if_neg (by omega)]
  simp [utf8TailBytes, utf8Lead, Nat.add_comm]
  rw [Nat.mod_eq_of_lt (by omega)]

theorem unicodeFromUtf8_encode (c : Char) (rest : Bytes) :
    unicodeFromUtf8 (String.utf8EncodeChar c ++ rest) utf8CharLenMax = some (c.toNat, rest) := by
  have hlt := char_toNat_lt c
  rw [← utf8Form_char]
  exact (unicodeFromUtf8_iff (by simp [utf8Form_ne_nil])).mpr ⟨by omega, rfl⟩

end Jsregexp
