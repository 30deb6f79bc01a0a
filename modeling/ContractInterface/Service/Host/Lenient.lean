import ContractInterface.Json.Value
import ContractInterface.Text.IntegerText
import ContractInterface.Text.Surrogate

/-!
# Lenient fields

The host reads the fields of a request leniently: an integer may also be written as a flag, as a double
without a fraction or as text, and a flag as zero, one or a word.  What is refused is refused for the
kind of value, for its size or for its wording.
-/

namespace ContractInterface.Service.Host

open Json (Value)
open Text (StandIns)

/-- Why a part of a request is refused. -/
inductive FieldFault where
  | missing | notJson | notAnObject
  | notAText | notAMapping
  /-- a text with lone surrogates where another kind of value is to be read from it -/
  | notUnicode
  | notAnInteger | integerText | integerSize | fraction | notFinite
  | notAFlag | flagText
deriving DecidableEq, Repr

/-- The word by which clients know a fault. -/
def FieldFault.label : FieldFault → String
  | missing => "missing"
  | notJson => "json_invalid"
  | notAnObject => "model_attributes_type"
  | notAText => "string_type"
  | notAMapping => "dict_type"
  | notUnicode => "string_unicode"
  | notAnInteger => "int_type"
  | integerText => "int_parsing"
  | integerSize => "int_parsing_size"
  | fraction => "int_from_float"
  | notFinite => "finite_number"
  | notAFlag => "bool_type"
  | flagText => "bool_parsing"

/-- What clients are told about a fault. -/
def FieldFault.message : FieldFault → String
  | missing => "Field required"
  | notJson => "JSON decode error"
  | notAnObject => "Input should be a valid dictionary or object to extract fields from"
  | notAText => "Input should be a valid string"
  | notAMapping => "Input should be a valid dictionary"
  | notUnicode => "Input should be a valid string, unable to parse raw data as a unicode string"
  | notAnInteger => "Input should be a valid integer"
  | integerText => "Input should be a valid integer, unable to parse string as an integer"
  | integerSize => "Unable to parse input string as an integer, exceeded maximum size"
  | fraction => "Input should be a valid integer, got a number with a fractional part"
  | notFinite => "Input should be a finite number"
  | notAFlag => "Input should be a valid boolean"
  | flagText => "Input should be a valid boolean, unable to interpret input"

/-! ## Integers -/

/-- The characters that an integer text may have. -/
def maxIntegerSize : Nat := 4300

/-- The part of a text behind a minus sign. -/
def unsigned : List Char → List Char
  | '-' :: r => r
  | r => r

/-- An integer without leading zeros, and without a sign other than a minus. -/
def strictInteger (s : List Char) : Except FieldFault Int :=
  let body := unsigned s
  let ds := body.takeWhile Char.isDigit
  if ds.head? = some '0' then
    if body = ['0'] then .ok 0 else .error .integerText
  else if maxIntegerSize < ds.length + (s.length - body.length) then .error .integerSize
  else if ds.isEmpty || ds.length < body.length then .error .integerText
  else
    let n : Int := Decimal.value ds
    .ok (if body.length < s.length then -n else n)

/-- The text behind a zero without further leading zeros, among which underscores and a minus sign may
stand; a zero that is all of the number, or all in front of the point, stays. -/
def dropZeros (before : Char) : List Char → List Char
  | [] => [before]
  | c :: r =>
    if c = '0' || c = '_' then dropZeros c r
    else if c = '.' then before :: c :: r
    else c :: r

/-- The text without a fraction of zeros. -/
def dropFraction (s : List Char) : List Char :=
  let whole := s.takeWhile (· ≠ '.')
  let fraction := s.drop (whole.length + 1)
  if !fraction.isEmpty && fraction.all (· = '0') then whole else s

/-- The text without the single underscores inside it; others stay. -/
def dropSeparators (after : Bool) : List Char → List Char
  | '_' :: c :: r =>
    if after && c ≠ '_' then c :: dropSeparators true r else '_' :: dropSeparators false (c :: r)
  | c :: r => c :: dropSeparators true r
  | [] => []

/-- The plain form of a number that starts with a digit: without leading zeros, underscores between
digits and a fraction of zeros. -/
def plainDigits? : List Char → Option (List Char)
  | '0' :: r => some (dropSeparators false (dropFraction (dropZeros '0' r)))
  | c :: r => if c.isDigit then some (dropSeparators false (dropFraction (c :: r))) else none
  | [] => none

/-- The plain form of a number between blanks and with a sign. -/
def plainForm? (s : List Char) : Option (List Char) :=
  match Text.trimWith Text.isNumberBlank s with
  | '-' :: r => (plainDigits? r).map ('-' :: ·)
  | '+' :: r => plainDigits? r
  | r => plainDigits? r

/-- The integer in a text, which may also be written in another form than the plain one. -/
def integerOfText (s : List Char) : Except FieldFault Int :=
  match strictInteger s with
  | .error .integerText =>
    match (plainForm? s).map strictInteger with
    | some (.ok n) => .ok n
    | _ => .error .integerText
  | r => r

/-- The bound of the integers of 64 bits, `2 ^ 63`. -/
def bound64 : Int := 9223372036854775808

/-- The integer that a double is, if it is within 64 bits. -/
def integerOfDouble : Double → Except FieldFault Int
  | .nan | .infinite _ => .error .notFinite
  | d =>
    match d.toInt? with
    | none => .error .fraction
    | some n => if -bound64 < n ∧ n < bound64 then .ok n else .error .integerSize

/-- Read a text, which must not have lone surrogates. -/
def readUnicode {α : Type} (lone : StandIns) (read : List Char → Except FieldFault α)
    (s : List Char) : Except FieldFault α :=
  if s.any lone.holds then .error .notUnicode else read s

/-- The integer that a value is. -/
def lenientInteger (lone : StandIns) : Value → Except FieldFault Int
  | .int n => .ok n
  | .bool b => .ok (if b then 1 else 0)
  | .double d => integerOfDouble d
  | .text s => readUnicode lone integerOfText s.toList
  | _ => .error .notAnInteger

/-! ## Flags -/

def denials : List String := ["0", "off", "f", "false", "n", "no"]

def affirmations : List String := ["1", "on", "t", "true", "y", "yes"]

/-- The flag that a word stands for, in either case. -/
def flagOfText (s : List Char) : Except FieldFault Bool :=
  let word := String.ofList (s.map Char.toLower)
  if affirmations.contains word then .ok true
  else if denials.contains word then .ok false
  else .error .flagText

/-- Zero and one as flags. -/
def flagOfInteger (n : Int) : Except FieldFault Bool :=
  if n = 0 then .ok false
  else if n = 1 then .ok true
  else if -bound64 ≤ n ∧ n < bound64 then .error .flagText
  else .error .notAFlag

/-- The flag that a value is. -/
def lenientFlag (lone : StandIns) : Value → Except FieldFault Bool
  | .bool b => .ok b
  | .text s => readUnicode lone flagOfText s.toList
  | .int n => flagOfInteger n
  | .double d =>
    match integerOfDouble d with
    | .ok n => flagOfInteger n
    | .error _ => .error .notAFlag
  | _ => .error .notAFlag

end ContractInterface.Service.Host
