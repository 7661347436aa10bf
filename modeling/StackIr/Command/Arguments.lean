import StackIr.Command.Basic
import StackIr.Text.LowerCase
import StackIr.Text.Utf8

/-! # Arguments

    Which command a list of arguments names, and what it says about the flags of that
    command.  Flags and other arguments may be mixed; two dashes end the flags. -/

namespace StackIr.Command

def findFlag? (flags : List Flag) (name : String) : Option Flag :=
  flags.find? (·.name = name)

def findLetter? (flags : List Flag) (c : Char) : Option Flag :=
  flags.find? (·.letter = some c)

/-! ## The command -/

/-- Whether an argument, seen without knowledge of the command, is a flag whose value is
    the next argument. -/
def takesNext (flags : List Flag) (arg : String) : Bool :=
  match arg.toList with
  | '-' :: '-' :: name =>
    ¬ name.contains '=' &&
      ¬ ((findFlag? flags (String.ofList name)).map Flag.isSwitch).getD false
  | ['-', c] =>
    c.toNat < 0x80 && c ≠ '=' && ¬ ((findLetter? flags c).map Flag.isSwitch).getD false
  | _ => false

/-- The arguments that are neither flags nor their values.  A flag that takes the last
    argument, or nothing, ends them. -/
def wordsOf (flags : List Flag) : List String → List String
  | [] => []
  | arg :: rest =>
    if arg = "--" then []
    else if takesNext flags arg then
      match rest with
      | _ :: next :: rest => wordsOf flags (next :: rest)
      | _ => []
    else if arg ≠ "" && ¬ Text.startsWith arg "-" then arg :: wordsOf flags rest
    else wordsOf flags rest

/-- The arguments without the first one that is a word and not the value of a flag. -/
def withoutWord (flags : List Flag) (word : String) : List String → List String
  | [] => []
  | arg :: rest =>
    if arg = "--" then arg :: rest
    else if takesNext flags arg then
      match rest with
      | [] => [arg]
      | value :: rest => arg :: value :: withoutWord flags word rest
    else if arg = word then rest
    else arg :: withoutWord flags word rest

/-! ### Words that are close

    How many bytes have to be added, removed or replaced to make one text of another.  The
    distances from one text to all beginnings of another make a row; each further byte of
    the first text turns a row into the next. -/

/-- The rest of a row after a byte was added to the first text, from the previous row.
    `corner` is the entry above the last one, which is `left`. -/
def nextEntries (b : UInt8) (corner left : Nat) : List UInt8 → List Nat → List Nat
  | c :: cs, above :: row =>
    let entry := if b = c then corner else min (min above left) corner + 1
    entry :: nextEntries b above entry cs row
  | _, _ => []

/-- The row after a byte was added to the first text. -/
def nextRow (t : List UInt8) (row : List Nat) (b : UInt8) : List Nat :=
  match row with
  | [] => []
  | corner :: rest => (corner + 1) :: nextEntries b corner (corner + 1) t rest

/-- The edit distance of two byte texts. -/
def distance (s t : List UInt8) : Nat :=
  (s.foldl (nextRow t) (List.range (t.length + 1))).getLastD 0

/-- The edit distance of two texts in any case. -/
def caselessDistance (s t : String) : Nat :=
  distance (Text.Utf8.encode (Text.lower s)) (Text.Utf8.encode (Text.lower t))

/-- The commands that an unknown word may stand for: those at most two edits away, and
    those that it starts. -/
def suggestions (commands : List Command) (word : String) : List String :=
  let close (c : Command) : Bool :=
    caselessDistance word c.name ≤ 2 || Text.startsWith c.name (Text.lower word)
  (commands.filter fun c => c.action ≠ some .help && close c).map (·.name)

/-- The command that arguments name, and the arguments that are left for it. -/
def select (commands : List Command) (args : List String) : Except Fault (Command × List String) :=
  match wordsOf globalFlags args with
  | [] => .ok (root, args)
  | word :: _ =>
    match commands.find? (·.name = word) with
    | some c => .ok (c, withoutWord globalFlags word args)
    | none => .error (.unknownCommand word (suggestions commands word))

/-! ## The flags -/

/-- What a group of letters says: the values that it gives, and the flag at its end that
    waits for a value. -/
structure Letters where
  values : Values := []
  waiting : Option (Flag × Char × String) := none

/-- The first byte of a character, as a character. -/
def leadingByte (c : Char) : Char :=
  match Text.Utf8.encode (String.singleton c) with
  | b :: _ => Char.ofNat b.toNat
  | [] => c

/-- Reads the letters of a group.  Groups that start with `test.` are passed over. -/
def readLetters (flags : List Flag) : List Char → Except Fault Letters
  | [] => .ok {}
  | c :: rest =>
    let group := String.ofList (c :: rest)
    if Text.startsWith group "test." then .ok {}
    else
      match findLetter? flags c with
      | none => .error (.unknownLetter (leadingByte c) group)
      | some f =>
        match rest with
        | '=' :: d :: value => do
          return { values := [← f.take (String.ofList (d :: value))] }
        | _ =>
          if f.isSwitch then do
            let value ← f.take "true"
            let more ← readLetters flags rest
            return { more with values := value :: more.values }
          else
            match rest with
            | [] => .ok { waiting := some (f, c, group) }
            | _ => do
              return { values := [← f.take (String.ofList rest)] }

/-- What the arguments of a command say. -/
structure Parsed where
  values : Values := []
  args : List String := []

def Parsed.withValues (values : Values) (p : Parsed) : Parsed :=
  { p with values := values ++ p.values }

/-- Reads the arguments of a command. -/
def parse (flags : List Flag) : List String → Except Fault Parsed
  | [] => .ok {}
  | arg :: rest =>
    match arg.toList with
    | ['-', '-'] => .ok { args := rest }
    | '-' :: '-' :: name =>
      if name.head? = some '-' || name.head? = some '=' then .error (.badFlag arg)
      else
        let (key, value?) :=
          match Text.cut? "=" (String.ofList name) with
          | some (key, value) => (key, some value)
          | none => (String.ofList name, none)
        match findFlag? flags key with
        | none => .error (.unknownFlag key)
        | some f =>
          match value? with
          | some value => do
            let value ← f.take value
            return (← parse flags rest).withValues [value]
          | none =>
            if f.isSwitch then do
              let value ← f.take "true"
              return (← parse flags rest).withValues [value]
            else
              match rest with
              | [] => .error (.flagNeedsValue arg)
              | value :: rest => do
                let value ← f.take value
                return (← parse flags rest).withValues [value]
    | '-' :: c :: letters => do
      let found ← readLetters flags (c :: letters)
      match found.waiting with
      | none => return (← parse flags rest).withValues found.values
      | some (f, letter, group) =>
        match rest with
        | [] => .error (.letterNeedsValue letter group)
        | value :: rest => do
          let value ← f.take value
          return (← parse flags rest).withValues (found.values ++ [value])
    | _ => do
      let p ← parse flags rest
      return { p with args := arg :: p.args }

end StackIr.Command
