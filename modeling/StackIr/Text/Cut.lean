/-! # Cutting texts

    A text without the blanks at its ends, prefixes, and a text cut in two at the first
    occurrence of a separator. -/

namespace StackIr.Text

/-! ## Blanks -/

/-- White space in the sense of Unicode. -/
def isBlank (c : Char) : Bool :=
  let n := c.toNat
  (9 ≤ n && n ≤ 13) || n == 0x20 || n == 0x85 || n == 0xA0 || n == 0x1680 ||
    (0x2000 ≤ n && n ≤ 0x200A) || n == 0x2028 || n == 0x2029 || n == 0x202F ||
    n == 0x205F || n == 0x3000

/-- A list of characters without the blanks at its two ends. -/
def trimChars (cs : List Char) : List Char :=
  ((cs.dropWhile isBlank).reverse.dropWhile isBlank).reverse

/-- A text without the blanks at its two ends. -/
def trim (s : String) : String :=
  String.ofList (trimChars s.toList)

/-! ## Separators -/

/-- The two sides of the first occurrence of `sep`. -/
def cutChars (sep : List Char) : List Char → Option (List Char × List Char)
  | [] => if sep.isEmpty then some ([], []) else none
  | c :: rest =>
    if sep.isPrefixOf (c :: rest) then
      some ([], (c :: rest).drop sep.length)
    else
      (cutChars sep rest).map fun (before, after) => (c :: before, after)

/-- The two sides of the first occurrence of `sep` in a text. -/
def cut? (sep : String) (s : String) : Option (String × String) :=
  (cutChars sep.toList s.toList).map fun (before, after) =>
    (String.ofList before, String.ofList after)

/-- The two sides of the first occurrence of `sep`, or the whole text and nothing. -/
def cut (sep : String) (s : String) : String × String :=
  (cut? sep s).getD (s, "")

/-- Whether a text starts with another. -/
def startsWith (s start : String) : Bool :=
  start.toList.isPrefixOf s.toList

/-- Whether a text ends with another. -/
def endsWith (s ending : String) : Bool :=
  ending.toList.isSuffixOf s.toList

/-- A text without the given ending, if it has it. -/
def dropEnding (s ending : String) : String :=
  if endsWith s ending then
    String.ofList (s.toList.take (s.toList.length - ending.toList.length))
  else
    s

/-- The parts of a list between the places where `p` holds; there is always one. -/
def splitChars (p : Char → Bool) : List Char → List (List Char)
  | [] => [[]]
  | c :: rest =>
    if p c then [] :: splitChars p rest
    else
      match splitChars p rest with
      | [] => [[c]]
      | part :: parts => (c :: part) :: parts

/-- The parts of a text between the occurrences of a character. -/
def splitOn (sep : Char) (s : String) : List String :=
  (splitChars (· == sep) s.toList).map String.ofList

/-- `n` copies of a character. -/
def replicate (n : Nat) (c : Char) : String :=
  String.ofList (List.replicate n c)

/-- A text with spaces added at its end until it has `width` bytes. -/
def padRight (width : Int) (s : String) : String :=
  s ++ replicate (width - s.utf8ByteSize).toNat ' '

/-- A text with spaces added at its start until it has `width` characters. -/
def padLeft (width : Nat) (s : String) : String :=
  replicate (width - s.length) ' ' ++ s

end StackIr.Text
