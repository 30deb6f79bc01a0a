import ContractInterface.Decimal.Digits
import ContractInterface.Text.Blank
import ContractInterface.Text.Numeral

/-!
# Integers written by people

An integer may stand between blanks and have a sign; single underscores may separate its digits, and
decimal digits of any script count.  `integer?` reads decimals, `integerWithBase?` also reads `0x`,
`0o` and `0b` and refuses a decimal with a leading zero unless it is zero.  Decimals of more than
`maxDecimalDigits` digits are refused.
-/

namespace ContractInterface.Text

def maxDecimalDigits : Nat := 4300

/-- The value of a digit or letter in bases up to 36. -/
def alphanumericValue? (c : Char) : Option Nat :=
  match decimalValue? c with
  | some n => some n
  | none =>
    if 'a' ≤ c && c ≤ 'z' then some (c.toNat - 87)
    else if 'A' ≤ c && c ≤ 'Z' then some (c.toNat - 55)
    else none

/-- The digits in the given base with single underscores between them; `after` tells that a digit
stands in front. -/
def separatedDigits? (base : Nat) (after : Bool) : List Char → Option (List Nat)
  | [] => if after then some [] else none
  | c :: r =>
    if c = '_' then if after then separatedDigits? base false r else none
    else
      match alphanumericValue? c with
      | none => none
      | some d =>
        if d < base then (separatedDigits? base true r).map (d :: ·) else none

def ofDigits (base : Nat) (ds : List Nat) : Nat := ds.foldl (fun n d => base * n + d) 0

/-- The number written by the digits, of which there must not be too many if the base is ten. -/
def digitsValue? (base : Nat) (s : List Char) : Option Nat :=
  match separatedDigits? base false s with
  | none => none
  | some ds => if base = 10 && maxDecimalDigits < ds.length then none else some (ofDigits base ds)

/-- A blank that may surround a number; the information separators do not. -/
def isNumberBlank (c : Char) : Bool :=
  if c.toNat < 128 then isAsciiBlank c else isBlank c

/-- Apply a sign to what the rest reads as. -/
def signed? (read : List Char → Option Nat) (s : List Char) : Option Int :=
  match s with
  | '-' :: r => (read r).map fun n => -(n : Int)
  | '+' :: r => (read r).map fun n => (n : Int)
  | r => (read r).map fun n => (n : Int)

/-- A decimal integer. -/
def integer? (s : List Char) : Option Int := signed? (digitsValue? 10) (trimWith isNumberBlank s)

/-- The digits behind a base mark, from which one underscore may separate them. -/
def markedValue? (base : Nat) (s : List Char) : Option Nat :=
  match s with
  | '_' :: r => digitsValue? base r
  | r => digitsValue? base r

/-- A natural number whose base may be marked. -/
def baseValue? (s : List Char) : Option Nat :=
  match s with
  | c :: m :: r =>
    if decimalValue? c = some 0 then
      if m = 'x' || m = 'X' then markedValue? 16 r
      else if m = 'o' || m = 'O' then markedValue? 8 r
      else if m = 'b' || m = 'B' then markedValue? 2 r
      else
        -- a leading zero is for zero only
        match digitsValue? 10 s with
        | some 0 => some 0
        | _ => none
    else digitsValue? 10 s
  | s => digitsValue? 10 s

/-- An integer whose base may be marked. -/
def integerWithBase? (s : List Char) : Option Int := signed? baseValue? (trimWith isNumberBlank s)

end ContractInterface.Text
