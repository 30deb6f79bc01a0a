import ContractInterface.Text.Surrogate
import ContractInterface.Text.Utf8

/-!
# Encodings of data files

A data file is UTF-8, UTF-16 or UTF-32.  A byte order mark tells which; without one, the places of
the zero bytes among the first four do, since the first two characters of such a file are ASCII.
Lone surrogates are let through.  A file that cannot be read is blamed at the offset of the first bad
sequence; behind the mark of a UTF-8 file the offset counts anew.
-/

namespace ContractInterface.Text

inductive Encoding where
  | utf8
  /-- UTF-8 behind a mark of three bytes -/
  | utf8Marked
  | utf16 (bigEndian marked : Bool)
  | utf32 (bigEndian marked : Bool)
deriving DecidableEq, Repr

namespace Encoding

/-- The encoding of a file without a mark, by its zero bytes. -/
def ofZeros : List UInt8 → Encoding
  | a :: b :: c :: d :: _ =>
    if a = 0 then (if b = 0 then utf32 true false else utf16 true false)
    else if b = 0 then (if c = 0 && d = 0 then utf32 false false else utf16 false false)
    else utf8
  | [a, b] => if a = 0 then utf16 true false else if b = 0 then utf16 false false else utf8
  | _ => utf8

def detect (bytes : List UInt8) : Encoding :=
  match bytes with
  | 0x00 :: 0x00 :: 0xFE :: 0xFF :: _ => utf32 true true
  | 0xFF :: 0xFE :: 0x00 :: 0x00 :: _ => utf32 false true
  | 0xFE :: 0xFF :: _ => utf16 true true
  | 0xFF :: 0xFE :: _ => utf16 false true
  | 0xEF :: 0xBB :: 0xBF :: _ => utf8Marked
  | _ => ofZeros bytes

def unit16 (bigEndian : Bool) (a b : UInt8) : Nat :=
  if bigEndian then a.toNat * 256 + b.toNat else b.toNat * 256 + a.toNat

/-- The code points of 16-bit units. -/
def ofUnits : List Nat → List Nat
  | [] => []
  | [u] => [u]
  | u :: v :: r =>
    if isHigh u && isLow v then joined u v :: ofUnits r else u :: ofUnits (v :: r)

/-- The 16-bit units of the bytes from `offset` on. -/
def units16 (bigEndian : Bool) (offset : Nat) : List UInt8 → Except Nat (List Nat)
  | [] => .ok []
  | [_] => .error offset
  | a :: b :: r => (units16 bigEndian (offset + 2) r).map (unit16 bigEndian a b :: ·)

/-- The code points of 32-bit units, from `offset` on. -/
def decode32 (bigEndian : Bool) (offset : Nat) : List UInt8 → Except Nat (List Nat)
  | [] => .ok []
  | a :: b :: c :: d :: r =>
    let n := if bigEndian then unit16 true a b * 65536 + unit16 true c d
      else unit16 false c d * 65536 + unit16 false a b
    if n < 0x110000 then (decode32 bigEndian (offset + 4) r).map (n :: ·)
    else .error offset
  | _ => .error offset

def codePoints (bytes : List UInt8) : Encoding → Except Nat (List Nat)
  | utf8 => Utf8.decodeFrom true 0 bytes
  | utf8Marked => Utf8.decodeFrom true 0 (bytes.drop 3)
  | utf16 bigEndian marked =>
    let n := if marked then 2 else 0
    (units16 bigEndian n (bytes.drop n)).map ofUnits
  | utf32 bigEndian marked =>
    let n := if marked then 4 else 0
    decode32 bigEndian n (bytes.drop n)

/-- The text of a file, or the offset at which it stops being one; `lone` gives the characters that
lone surrogates are kept as. -/
def decode (lone : Nat → Char) (bytes : List UInt8) : Except Nat (List Char) :=
  (codePoints bytes (detect bytes)).map (·.map (charOf lone))

end Encoding

end ContractInterface.Text
