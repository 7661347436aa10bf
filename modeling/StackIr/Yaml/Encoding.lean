import StackIr.Text.Utf8

/-! # Bytes of a document

    What can be wrong with a document and where, and the characters of its bytes.  A document
    is UTF-8, or UTF-16 if it starts with the mark of that encoding.  It holds tabs, line
    breaks and printable characters, and no other control characters.

    Bytes are read in pieces.  A piece with a fault in it is refused as a whole, and only
    when it is needed. -/

namespace StackIr.Yaml

/-! ## Faults -/

/-- A fault of a document: the line it is reported at, if it has one, and what is wrong. -/
structure Fault where
  line : Option Nat
  problem : String
  deriving DecidableEq, Repr

namespace Fault

/-- A fault found while reading characters into tokens.  `start` and `here` are the lines,
    counted from zero, where the token starts and where reading stopped. -/
def lexical (start here : Nat) (problem : String) : Fault :=
  ⟨if start ≠ 0 then some (start + 1) else if here ≠ 0 then some (here + 1) else none, problem⟩

/-- A fault found while putting tokens together.  `start` and `here` are the lines, counted
    from zero, where the collection starts and where the unexpected token stands. -/
def structural (start here : Nat) (problem : String) : Fault :=
  ⟨if start ≠ 0 then some start else if here ≠ 0 then some here else none, problem⟩

/-- A fault that has no place. -/
def general (problem : String) : Fault :=
  ⟨none, problem⟩

def message (f : Fault) : String :=
  match f.line with
  | some n => "yaml: line " ++ toString n ++ ": " ++ f.problem
  | none => "yaml: " ++ f.problem

end Fault

/-! ## Characters -/

/-- The characters that a document may hold. -/
def isAllowed (c : Char) : Bool :=
  let n := c.toNat
  n == 0x09 || n == 0x0A || n == 0x0D || (0x20 ≤ n && n ≤ 0x7E) || n == 0x85 ||
    (0xA0 ≤ n && n ≤ 0xD7FF) || (0xE000 ≤ n && n ≤ 0xFFFD) || 0x10000 ≤ n

/-- The order of the two bytes of a unit. -/
inductive ByteOrder where
  | littleEndian
  | bigEndian
  deriving DecidableEq, Repr

/-- The value of two bytes. -/
def ByteOrder.unit (order : ByteOrder) (a b : UInt8) : Nat :=
  match order with
  | .littleEndian => b.toNat * 256 + a.toNat
  | .bigEndian => a.toNat * 256 + b.toNat

inductive Encoding where
  | utf8
  | utf16 (order : ByteOrder)
  deriving DecidableEq, Repr

/-- The encoding that the first bytes of a document mark, and the length of the mark. -/
def Encoding.ofBytes : List UInt8 → Encoding × Nat
  | 0xFF :: 0xFE :: _ => (.utf16 .littleEndian, 2)
  | 0xFE :: 0xFF :: _ => (.utf16 .bigEndian, 2)
  | 0xEF :: 0xBB :: 0xBF :: _ => (.utf8, 3)
  | _ => (.utf8, 0)

/-- The number of bytes of the character that some bytes start with, as far as the bytes
    tell. -/
def Encoding.width : Encoding → List UInt8 → Nat
  | .utf8, a :: _ =>
    if a < 0xC0 then 1
    else if a < 0xE0 then 2
    else if a < 0xF0 then 3
    else if a < 0xF8 then 4
    else 1
  | .utf16 order, a :: b :: _ => if order.unit a b / 1024 = 0x36 then 4 else 2
  | .utf16 _, _ => 2
  | .utf8, [] => 1

/-- The character that some bytes start with. -/
def Encoding.first? : Encoding → List UInt8 → Option Char
  | .utf8, bytes => (Text.Utf8.first? bytes).map (·.1)
  | .utf16 order, a :: b :: rest =>
    let high := order.unit a b
    if high / 1024 = 0x37 then none
    else if high / 1024 = 0x36 then
      match rest with
      | c :: d :: _ =>
        let low := order.unit c d
        if low / 1024 = 0x37 then
          some (Char.ofNat (0x10000 + high % 1024 * 1024 + low % 1024))
        else none
      | _ => none
    else some (Char.ofNat high)
  | .utf16 _, _ => none

/-- The characters of a piece, last first and before those in `sofar`, and the bytes at its
    end that are only a part of one.  Gives nothing if there is a fault. -/
def Encoding.decodePiece? (e : Encoding) :
    (fuel : Nat) → (sofar : List Char) → List UInt8 → Option (List Char × List UInt8)
  | 0, sofar, bytes => some (sofar, bytes)
  | _, sofar, [] => some (sofar, [])
  | fuel + 1, sofar, bytes =>
    let width := e.width bytes
    if (bytes.drop (width - 1)).isEmpty then some (sofar, bytes)
    else
      match e.first? bytes with
      | some c =>
        if isAllowed c then e.decodePiece? fuel (c :: sofar) (bytes.drop width) else none
      | none => none

/-- The text of a document as it can be read. -/
structure Input where
  characters : List Char
  /-- What is wrong with the bytes after them, if anything. -/
  fault : Option Fault := none
  /-- The number of characters of the first piece. -/
  firstPiece : Nat
  deriving Repr

/-- The number of bytes of a piece. -/
def pieceSize : Nat := 512

def damaged : Fault :=
  .general "control characters and damaged encodings are not allowed"

/-- Reads pieces to the end of the bytes or to a fault.  `left` is the part of a character at
    the end of the piece before. -/
def Encoding.decodePieces (e : Encoding) :
    (fuel : Nat) → (sofar : List Char) → (left bytes : List UInt8) → List Char × Option Fault
  | 0, sofar, _, _ => (sofar, none)
  | _, sofar, left, [] => (sofar, if left.isEmpty then none else some damaged)
  | fuel + 1, sofar, left, bytes =>
    let n := pieceSize - left.length
    match e.decodePiece? pieceSize sofar (left ++ bytes.take n) with
    | some (sofar, left) => e.decodePieces fuel sofar left (bytes.drop n)
    | none => (sofar, some damaged)

/-- The text of a document. -/
def Input.ofBytes (bytes : List UInt8) : Input :=
  let (e, mark) := Encoding.ofBytes bytes
  match e.decodePiece? pieceSize [] ((bytes.take pieceSize).drop mark) with
  | none => { characters := [], fault := some damaged, firstPiece := 0 }
  | some (first, left) =>
    let (sofar, fault) := e.decodePieces bytes.length first left (bytes.drop pieceSize)
    { characters := sofar.reverse, fault := fault, firstPiece := first.length }

end StackIr.Yaml
