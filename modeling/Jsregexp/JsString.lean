import Jsregexp.Unicode

namespace Jsregexp

def uint16 (n : ℕ) : ℕ := n % 2 ^ 16
def uint32 (n : ℕ) : ℕ := n % 2 ^ 32

/-- `addr` is the address `malloc` gave to `u.str8`/`u.str16`; `bstr` is without its terminator.
The two tables are empty where the C code stores `NULL`. -/
structure JsString where
  isWideChar : Bool
  len : ℕ
  bstr : Bytes
  bstrLen : ℕ
  indices : List ℕ
  revIndices : List ℕ
  units : List ℕ
  addr : ℕ
  deriving DecidableEq, Repr

def store (t : List ℕ) (i v : ℕ) : Except Failure (List ℕ) :=
  if i < t.length then .ok (t.set i v) else .error .undefined

lemma store_append {p q : List ℕ} (a v : ℕ) : store (p ++ a :: q) p.length v = .ok (p ++ v :: q) := by
  simp [store]

/-- The units written for one code point; both halves of a pair are truncated to 16 bits. -/
def utf16Units (c : ℕ) : List ℕ :=
  if c > 0xffff then
    let c := c - 0x10000
    [uint16 (0xd800 ||| (c >>> 10)), uint16 (0xdc00 ||| (c &&& 0x3ff))]
  else [c &&& 0xffff]

structure Utf16 where
  str : List ℕ
  indices : List ℕ
  revIndices : List ℕ
  deriving DecidableEq, Repr

/-- The conversion loop: `off` is `pos - input`, `size` the number of allocated units. -/
def utf8ToUtf16Loop (n size : ℕ) : ℕ → Bytes → ℕ → Utf16 → Except Failure (Option Utf16)
  | 0, _, _, _ => .error .undefined
  | fuel + 1, pos, off, t =>
    if peek pos 0 = 0 then do
      let _ ← store (List.replicate size 0) t.str.length 0
      let indices ← store t.indices t.str.length n
      let revIndices ← store t.revIndices n t.str.length
      return some ⟨t.str, indices, revIndices⟩
    else do
      let indices ← store t.indices t.str.length off
      let revIndices ← store t.revIndices off t.str.length
      match unicodeFromUtf8 pos utf8CharLenMax with
      | none => return none
      | some (c, pos') =>
        if t.str.length + (utf16Units c).length ≤ size then
          utf8ToUtf16Loop n size fuel pos' (off + (pos.length - pos'.length))
            ⟨t.str ++ utf16Units c, indices, revIndices⟩
        else .error .undefined

def utf8ToUtf16 (input : Bytes) (n : ℕ) : Except Failure (Option Utf16) :=
  let size := uint32 (n + 1)
  utf8ToUtf16Loop n size (input.length + 1) input 0 ⟨[], List.replicate size 0, List.replicate size 0⟩

def jsstringNew (addr : ℕ) (input : Bytes) : Except Failure JsString := do
  let inputLen := input.length
  if utf8ContainsNonAscii input then
    match ← utf8ToUtf16 input (uint32 inputLen) with
    | none => .error (.raised (bytesOf "malformed unicode"))
    | some t =>
      return { isWideChar := true, len := t.str.length, units := t.str, bstr := cString input,
               bstrLen := uint32 inputLen, indices := t.indices, revIndices := t.revIndices, addr }
  else
    return { isWideChar := false, len := uint32 inputLen, bstrLen := uint32 inputLen,
             units := (cString input).map UInt8.toNat, bstr := cString input,
             indices := [], revIndices := [], addr }

end Jsregexp
