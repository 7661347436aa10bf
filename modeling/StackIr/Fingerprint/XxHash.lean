/-! # A 64-bit hash of bytes

    The hash takes 32 bytes at a time into four lanes, merges the lanes, and then takes the
    remaining bytes by eights, fours and ones.  All arithmetic is on 64-bit words. -/

namespace StackIr.Fingerprint

def prime1 : UInt64 := 0x9E3779B185EBCA87
def prime2 : UInt64 := 0xC2B2AE3D27D4EB4F
def prime3 : UInt64 := 0x165667B19E3779F9
def prime4 : UInt64 := 0x85EBCA77C2B2AE63
def prime5 : UInt64 := 0x27D4EB2F165667C5

/-- Rotation to the left. -/
def rotate (x : UInt64) (n : UInt64) : UInt64 :=
  (x <<< n) ||| (x >>> (64 - n))

/-- The word of some bytes, the least significant first. -/
def word (bytes : List UInt8) : UInt64 :=
  bytes.foldr (fun b w => w * 256 + b.toUInt64) 0

/-- Takes a word into a lane. -/
def round (lane w : UInt64) : UInt64 :=
  rotate (lane + w * prime2) 31 * prime1

/-- Merges a lane into the hash. -/
def merge (h lane : UInt64) : UInt64 :=
  (h ^^^ round 0 lane) * prime1 + prime4

/-- The four lanes. -/
structure Lanes where
  a : UInt64
  b : UInt64
  c : UInt64
  d : UInt64

/-- The lanes before any bytes. -/
def Lanes.start : Lanes :=
  ⟨prime1 + prime2, prime2, 0, 0 - prime1⟩

/-- Takes the first 32 bytes into the lanes. -/
def Lanes.take (l : Lanes) (bytes : List UInt8) : Lanes :=
  ⟨round l.a (word (bytes.take 8)), round l.b (word ((bytes.drop 8).take 8)),
    round l.c (word ((bytes.drop 16).take 8)), round l.d (word ((bytes.drop 24).take 8))⟩

/-- The hash of the lanes. -/
def Lanes.hash (l : Lanes) : UInt64 :=
  let h := rotate l.a 1 + rotate l.b 7 + rotate l.c 12 + rotate l.d 18
  merge (merge (merge (merge h l.a) l.b) l.c) l.d

/-- Takes `n` blocks of 32 bytes into the lanes. -/
def blocks : (n : Nat) → Lanes → List UInt8 → Lanes × List UInt8
  | 0, l, bytes => (l, bytes)
  | n + 1, l, bytes => blocks n (l.take bytes) (bytes.drop 32)

/-- Takes words of eight bytes into the hash. -/
def eights : (n : Nat) → UInt64 → List UInt8 → UInt64 × List UInt8
  | 0, h, bytes => (h, bytes)
  | n + 1, h, bytes =>
    eights n (rotate (h ^^^ round 0 (word (bytes.take 8))) 27 * prime1 + prime4) (bytes.drop 8)

/-- Takes a word of four bytes into the hash, if there is one. -/
def four (h : UInt64) (bytes : List UInt8) : UInt64 × List UInt8 :=
  if bytes.length < 4 then (h, bytes)
  else (rotate (h ^^^ (word (bytes.take 4) * prime1)) 23 * prime2 + prime3, bytes.drop 4)

/-- Takes single bytes into the hash. -/
def ones (h : UInt64) (bytes : List UInt8) : UInt64 :=
  bytes.foldl (fun h b => rotate (h ^^^ (b.toUInt64 * prime5)) 11 * prime1) h

/-- Spreads every bit over the whole hash. -/
def avalanche (h : UInt64) : UInt64 :=
  let h := (h ^^^ (h >>> 33)) * prime2
  let h := (h ^^^ (h >>> 29)) * prime3
  h ^^^ (h >>> 32)

/-- The hash of some bytes. -/
def hash (bytes : List UInt8) : UInt64 :=
  let n := bytes.length
  let (h, rest) :=
    if n < 32 then (prime5, bytes)
    else
      let (l, rest) := blocks (n / 32) .start bytes
      (l.hash, rest)
  let h := h + n.toUInt64
  let (h, rest) := eights (rest.length / 8) h rest
  let (h, rest) := four h rest
  avalanche (ones h rest)

/-- A hash as sixteen hexadecimal digits. -/
def hex (h : UInt64) : String :=
  let digits := Nat.toDigits 16 h.toNat
  String.ofList (List.replicate (16 - digits.length) '0' ++ digits)

end StackIr.Fingerprint
