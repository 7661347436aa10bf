import StackIr.Yaml.Cursor
import StackIr.Yaml.Encoding

/-! # Gaps between words

    A scalar may run over several lines.  Within a line the blanks between two words stand
    for themselves.  A single line break stands for a space, and each further one for
    itself. -/

namespace StackIr.Yaml

/-- What stands between two words of a scalar. -/
structure Gap where
  blanks : List Char := []
  /-- Whether a line ended. -/
  broken : Bool := false
  firstBreak : List Char := []
  laterBreaks : List Char := []

namespace Gap

/-- The characters that a gap stands for. -/
def fold (g : Gap) : List Char :=
  if !g.broken then g.blanks
  else if g.firstBreak = ['\n'] then
    if g.laterBreaks.isEmpty then [' '] else g.laterBreaks
  else g.firstBreak ++ g.laterBreaks

/-- Reads blanks and breaks.  `least` is the column before which a new line may not have a
    tab, if there is one. -/
def read (start : Nat) (least : Option Nat) :
    (fuel : Nat) → Gap → Cursor → Except Fault (Gap × Cursor)
  | 0, g, c => .ok (g, c)
  | fuel + 1, g, c =>
    match c.rest with
    | [] => .ok (g, c)
    | x :: _ =>
      if isBlank x then
        if g.broken then
          if x == '\t' && (least.any (c.column < ·)) then
            .error (.lexical start c.line "found a tab character that violates indentation")
          else read start least fuel g (c.skip 1)
        else read start least fuel { g with blanks := g.blanks ++ [x] } (c.skip 1)
      else if isBreak x then
        let (text, c) := c.takeBreak
        if g.broken then
          read start least fuel { g with laterBreaks := g.laterBreaks ++ text } c
        else
          read start least fuel { g with blanks := [], broken := true, firstBreak := text } c
      else .ok (g, c)

end Gap

end StackIr.Yaml
