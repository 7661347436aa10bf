import StackIr.Text.Cut

/-! # Lower camel case

    The identifier that a declared name has in generated code: `my-param` becomes
    `myParam` and `VPCId` becomes `vpcid`.  Only ASCII letters and digits are kept. -/

namespace StackIr.Text

/-- Where the walk over a name stands: whether the next letter starts a word, and whether
    the letter before was a capital. -/
structure CamelState where
  capNext : Bool
  afterCapital : Bool

/-- The characters that end a word without being part of it. -/
def isWordBreak (c : Char) : Bool :=
  c = '_' || c = ' ' || c = '-' || c = '.'

/-- A letter as it is written: a word starts with a capital, and a run of capitals goes on
    in lower case. -/
def camelLetter (state : CamelState) (c : Char) : Char :=
  if state.capNext then c.toUpper
  else if state.afterCapital && c.isUpper then c.toLower
  else c

/-- The rest of an identifier. -/
def camelRest (state : CamelState) : List Char → List Char
  | [] => []
  | c :: rest =>
    if c.isAlpha then
      camelLetter state c :: camelRest ⟨false, c.isUpper⟩ rest
    else if c.isDigit then
      c :: camelRest ⟨true, false⟩ rest
    else
      camelRest ⟨isWordBreak c, false⟩ rest

/-- A name in lower camel case.  The first letter is lowered like one that follows a
    capital. -/
def lowerCamel (s : String) : String :=
  String.ofList (camelRest ⟨false, true⟩ (trimChars s.toList))

end StackIr.Text
