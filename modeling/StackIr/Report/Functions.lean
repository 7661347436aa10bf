import StackIr.Template.Value
import StackIr.Text.Cut
import StackIr.Text.CamelCase
import StackIr.Text.LowerCase
import StackIr.Text.Path

/-! # Functions for reports

    Small functions on texts and values that reports are written with. -/

namespace StackIr.Report

/-- A value as compact JSON, markup characters as they are. -/
def jsonText (v : Value) : Except Json.Refusal String :=
  v.toJson.compactText .bare

/-- A value as indented JSON, markup characters as they are. -/
def prettyJsonText (v : Value) : Except Json.Refusal String :=
  v.toJson.indentedText .bare

/-- What a function of a text template takes. -/
inductive Datum where
  | text (s : String)
  | number (i : Int)
  deriving DecidableEq, Repr

/-- A function of a text template. -/
abbrev TextFunction := List Datum → Option String

/-- A function of one text. -/
def ofText (f : String → String) : TextFunction
  | [.text s] => some (f s)
  | _ => none

/-- The functions that every text template has. -/
def functions : List (String × TextFunction) :=
  [ ("fileBase", ofText Text.Path.base),
    ("fileTrimExt", ofText Text.Path.stem),
    ("lowerCamel", ofText Text.lowerCamel),
    ("lower", ofText Text.lower),
    ("padRight", fun
      | [.number width, .text s] => some (Text.padRight width s)
      | _ => none) ]

end StackIr.Report
