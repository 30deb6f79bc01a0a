/-!
# UTF-8

`decode` reads strict UTF-8.  If the bytes are not UTF-8 it answers with the offset of the first
byte that starts no valid sequence, which is the length of the longest valid beginning.  Lone
surrogates, which some writers encode as if they were characters, can be let through (`decodeFrom`).
-/

namespace ContractInterface.Text

namespace Utf8

/-- A byte that continues a sequence. -/
def isTail (b : UInt8) : Bool := 0x80 ≤ b && b ≤ 0xBF

/-- The six bits of a continuing byte. -/
def tail (b : UInt8) : Nat := b.toNat - 0x80

def code2 (a b : UInt8) : Nat := (a.toNat - 0xC0) * 64 + tail b

def code3 (a b c : UInt8) : Nat := (a.toNat - 0xE0) * 4096 + tail b * 64 + tail c

def code4 (a b c d : UInt8) : Nat :=
  (a.toNat - 0xF0) * 262144 + tail b * 4096 + tail c * 64 + tail d

/-- A sequence of three bytes. -/
def isValid3 (surrogates : Bool) (a b c : UInt8) : Bool :=
  0xE0 ≤ a && a ≤ 0xEF && isTail b && isTail c && decide (0x800 ≤ code3 a b c) &&
    (surrogates || code3 a b c < 0xD800 || 0xE000 ≤ code3 a b c)

/-- A sequence of four bytes. -/
def isValid4 (a b c d : UInt8) : Bool :=
  0xF0 ≤ a && a ≤ 0xF4 && isTail b && isTail c && isTail d &&
    decide (0x10000 ≤ code4 a b c d) && decide (code4 a b c d < 0x110000)

/-- The code points of the bytes from `offset` on, or the offset of the first byte that starts no
valid sequence. -/
def decodeFrom (surrogates : Bool) (offset : Nat) : List UInt8 → Except Nat (List Nat)
  | [] => .ok []
  | a :: r =>
    if a < 0x80 then (decodeFrom surrogates (offset + 1) r).map (a.toNat :: ·)
    else match r with
      | [] => .error offset
      | b :: r =>
        if 0xC2 ≤ a && a ≤ 0xDF && isTail b then
          (decodeFrom surrogates (offset + 2) r).map (code2 a b :: ·)
        else match r with
          | [] => .error offset
          | c :: r =>
            if isValid3 surrogates a b c then
              (decodeFrom surrogates (offset + 3) r).map (code3 a b c :: ·)
            else match r with
              | [] => .error offset
              | d :: r =>
                if isValid4 a b c d then
                  (decodeFrom surrogates (offset + 4) r).map (code4 a b c d :: ·)
                else .error offset

def decode (bytes : List UInt8) : Except Nat (List Char) :=
  (decodeFrom false 0 bytes).map (·.map Char.ofNat)

def encode (s : List Char) : List UInt8 := s.flatMap String.utf8EncodeChar

end Utf8

end ContractInterface.Text
