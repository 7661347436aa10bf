/-! # Bytes as text

    A byte text need not be well-formed UTF-8.  `Piece.decode` reads it as a sequence of
    pieces: a character for every well-formed sequence, and a stray byte for every byte
    that begins none.  A text is well formed when no piece is stray. -/

namespace StackIr.Text

/-- A piece of a byte text: a character, or a byte that begins no well-formed sequence. -/
inductive Piece where
  | char (c : Char)
  | stray (b : UInt8)
  deriving DecidableEq, Repr

namespace Utf8

/-- Continuation bytes carry six bits each. -/
def isContinuation (b : UInt8) : Bool :=
  0x80 ≤ b && b < 0xC0

/-- The six bits of a continuation byte. -/
def tailBits (b : UInt8) : Nat :=
  b.toNat % 64

/-- The character of `n` when `n` is a scalar value not below `least`: sequences that are
    longer than they need to be and surrogates are not well formed. -/
def scalar? (least n : Nat) : Option Char :=
  if h : n.isValidChar then
    if least ≤ n then some (Char.ofNatAux n h) else none
  else
    none

/-- The character at the start of a byte text and the number of its bytes. -/
def first? : List UInt8 → Option (Char × Nat)
  | [] => none
  | a :: rest =>
    if a < 0x80 then
      some (Char.ofNat a.toNat, 1)
    else if a < 0xC0 then
      none
    else if a < 0xE0 then
      match rest with
      | b :: _ =>
        if isContinuation b then
          (scalar? 0x80 (a.toNat % 32 * 64 + tailBits b)).map (·, 2)
        else none
      | _ => none
    else if a < 0xF0 then
      match rest with
      | b :: c :: _ =>
        if isContinuation b && isContinuation c then
          (scalar? 0x800 ((a.toNat % 16 * 64 + tailBits b) * 64 + tailBits c)).map (·, 3)
        else none
      | _ => none
    else if a < 0xF8 then
      match rest with
      | b :: c :: d :: _ =>
        if isContinuation b && isContinuation c && isContinuation d then
          (scalar? 0x10000
            (((a.toNat % 8 * 64 + tailBits b) * 64 + tailBits c) * 64 + tailBits d)).map (·, 4)
        else none
      | _ => none
    else
      none

end Utf8

/-- Decodes after passing over `skip` bytes that belong to the previous piece. -/
def Piece.decodeFrom : Nat → List UInt8 → List Piece
  | _, [] => []
  | skip + 1, _ :: rest => decodeFrom skip rest
  | 0, b :: rest =>
    match Utf8.first? (b :: rest) with
    | some (c, width) => .char c :: decodeFrom (width - 1) rest
    | none => .stray b :: decodeFrom 0 rest

/-- The pieces of a byte text. -/
def Piece.decode (bytes : List UInt8) : List Piece :=
  decodeFrom 0 bytes

/-- A piece as a character; a stray byte becomes the replacement character. -/
def Piece.toChar : Piece → Char
  | .char c => c
  | .stray _ => '�'

namespace Utf8

/-- The characters of any byte text, with the replacement character for stray bytes. -/
def decodeLossy (bytes : List UInt8) : String :=
  String.ofList ((Piece.decode bytes).map Piece.toChar)

/-- The bytes of a text. -/
def encode (s : String) : List UInt8 :=
  s.toUTF8.toList

end Utf8

end StackIr.Text
