import Jsregexp.Libregexp.Compile
import Jsregexp.LuaMethods

namespace Jsregexp

def jsregexpCompile (U : Libunicode) : Compiler := fun regexp flags =>
  let regexp := cString regexp
  if 0xfd ∈ regexp then .error (.raised (bytesOf "malformed unicode"))
  else
    match lreCompile U regexp (readFlags (implicitFlags regexp) (cString flags)) with
    | .error e => .error (compileError e)
    | .ok bc => .ok ⟨regexp, bc, 0⟩

def asciiTables : Libunicode where
  lreCanonicalize c _ := if 0x41 ≤ c ∧ c ≤ 0x5a then c + 0x20 else c
  crRegexpCanonicalize cr _ := cr
  lreIsIdStart c := (0x41 ≤ c && c ≤ 0x5a) || (0x61 ≤ c && c ≤ 0x7a)
  lreIsIdContinue c := (0x30 ≤ c && c ≤ 0x39) || (0x41 ≤ c && c ≤ 0x5a) || c == 0x5f || (0x61 ≤ c && c ≤ 0x7a)
  unicodeScript _ _ := none
  unicodeGeneralCategory _ := none
  unicodeProp _ := none
  unicodeSequenceProp _ := none
  stringOrder l := l

end Jsregexp
