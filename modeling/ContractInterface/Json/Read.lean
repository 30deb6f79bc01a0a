import ContractInterface.Json.Value
import ContractInterface.Position
import ContractInterface.Text.Surrogate

/-!
# Reading JSON

Strict JSON with three more words for numbers (`NaN`, `Infinity`, `-Infinity`).  A repeated key of
an object keeps its first place and takes its last value.  Reading stops at the first fault; a fault
is located by the number of characters that remain from it on, `Fault.offset` turns that into an
offset.  Integers of more than `maxDigits` digits are refused.  Texts may be written with lone
surrogates; `lone` gives the characters that these are kept as.
-/

namespace ContractInterface.Json

/-- What reading can complain about. -/
inductive Complaint where
  | value | name | colon | comma | extra
  | unterminated | control | escape | codeEscape
  | byteOrderMark
deriving DecidableEq, Repr

def Complaint.text : Complaint → String
  | value => "Expecting value"
  | name => "Expecting property name enclosed in double quotes"
  | colon => "Expecting ':' delimiter"
  | comma => "Expecting ',' delimiter"
  | extra => "Extra data"
  | unterminated => "Unterminated string starting at"
  | control => "Invalid control character at"
  | escape => "Invalid \\escape"
  | codeEscape => "Invalid \\uXXXX escape"
  | byteOrderMark => "Unexpected UTF-8 BOM (decode using utf-8-sig)"

inductive Fault where
  /-- a complaint about the place from which `remaining` characters are left -/
  | bad (what : Complaint) (remaining : Nat)
  /-- an integer of so many digits -/
  | tooManyDigits (count : Nat)
deriving DecidableEq, Repr

/-- A value read from the front of `s`, and the text behind it. -/
structure Taken (α : Type) (s : List Char) where
  value : α
  rest : List Char
  le : rest.length ≤ s.length

namespace Reading

def isBlank (c : Char) : Bool := c = ' ' || c = '\t' || c = '\n' || c = '\r'

/-- The text behind leading blanks. -/
def skip (s : List Char) : List Char := s.dropWhile isBlank

theorem length_skip_le (s : List Char) : (skip s).length ≤ s.length :=
  (List.dropWhile_suffix _).length_le

/-! ## Strings -/

def hexValue? (c : Char) : Option Nat :=
  if '0' ≤ c && c ≤ '9' then some (c.toNat - 48)
  else if 'a' ≤ c && c ≤ 'f' then some (c.toNat - 87)
  else if 'A' ≤ c && c ≤ 'F' then some (c.toNat - 55)
  else none

/-- The number that the first four characters write in hexadecimal. -/
def hex4? : List Char → Option Nat
  | a :: b :: c :: d :: _ => do
    let a ← hexValue? a
    let b ← hexValue? b
    let c ← hexValue? c
    let d ← hexValue? d
    return ((a * 16 + b) * 16 + c) * 16 + d
  | _ => none

def unescape? : Char → Option Char
  | '"' => some '"'
  | '\\' => some '\\'
  | '/' => some '/'
  | 'b' => some '\x08'
  | 'f' => some '\x0c'
  | 'n' => some '\n'
  | 'r' => some '\r'
  | 't' => some '\t'
  | _ => none

/-- The second half of a pair of surrogates: its code, or the fault that its digits are. -/
def lowSurrogate? (s : List Char) : Except Fault (Option Nat) :=
  match s with
  | '\\' :: 'u' :: r =>
    if 4 < r.length then
      match hex4? r with
      | none => .error (.bad .codeEscape (r.length + 1))
      | some n => .ok (if Text.isLow n then some n else none)
    else .ok none
  | _ => .ok none

/-- The character that a code escape stands for, behind `\u`, and how many characters it takes. -/
def codeEscape (lone : Nat → Char) (s : List Char) : Except Fault (Char × Nat) :=
  if s.length ≤ 4 then .error (.bad .codeEscape (s.length + 1))
  else
    match hex4? s with
    | none => .error (.bad .codeEscape (s.length + 1))
    | some n =>
      if Text.isHigh n then
        match lowSurrogate? (s.drop 4) with
        | .error f => .error f
        | .ok (some low) => .ok (Text.charOf lone (Text.joined n low), 10)
        | .ok none => .ok (Text.charOf lone n, 4)
      else .ok (Text.charOf lone n, 4)

/-- The interior of a string behind its opening quote, from which `opening` characters remained. -/
def stringChars (lone : Nat → Char) (opening : Nat) (s : List Char) :
    Except Fault (Taken (List Char) s) :=
  match s with
  | [] => .error (.bad .unterminated opening)
  | '"' :: r => .ok ⟨[], r, Nat.le_succ _⟩
  | '\\' :: r =>
    match r with
    | [] => .error (.bad .unterminated opening)
    | 'u' :: t =>
      match codeEscape lone t with
      | .error f => .error f
      | .ok (c, n) =>
        match stringChars lone opening (t.drop n) with
        | .error f => .error f
        | .ok ⟨cs, u, h⟩ => .ok ⟨c :: cs, u, by simp at h ⊢; omega⟩
    | e :: t =>
      match unescape? e with
      | none => .error (.bad .escape (t.length + 2))
      | some c =>
        match stringChars lone opening t with
        | .error f => .error f
        | .ok ⟨cs, u, h⟩ => .ok ⟨c :: cs, u, by simp at h ⊢; omega⟩
  | c :: r =>
    if c.toNat < 0x20 then .error (.bad .control (r.length + 1))
    else
      match stringChars lone opening r with
      | .error f => .error f
      | .ok ⟨cs, u, h⟩ => .ok ⟨c :: cs, u, Nat.le_succ_of_le h⟩
termination_by s.length
decreasing_by all_goals simp; try omega

/-- A string behind its opening quote. -/
def string (lone : Nat → Char) (s : List Char) : Except Fault (Taken String s) :=
  match stringChars lone (s.length + 1) s with
  | .error f => .error f
  | .ok ⟨cs, r, h⟩ => .ok ⟨String.ofList cs, r, h⟩

/-! ## Numbers -/

/-- Integers may have so many digits. -/
def maxDigits : Nat := 4300

/-- The parts of a number; the fraction is empty or the exponent missing if it is not written. -/
structure Numeral where
  negative : Bool
  whole : List Char
  fraction : List Char
  exponent : Option Int
  /-- how many characters the number takes -/
  size : Nat
deriving Repr

/-- The digits in front of the point: a lone zero, or a run of digits that does not start with
one. -/
def wholeDigits : List Char → List Char
  | [] => []
  | c :: r => if c = '0' then ['0'] else if c.isDigit then c :: r.takeWhile Char.isDigit else []

/-- The digits behind a point, none if no digit follows it. -/
def fractionDigits : List Char → List Char
  | '.' :: r => r.takeWhile Char.isDigit
  | _ => []

/-- An exponent and how many characters it takes. -/
def exponent? : List Char → Option (Int × Nat)
  | e :: r =>
    if e = 'e' || e = 'E' then
      let (negative, ds, signs) := match r with
        | '-' :: t => (true, t.takeWhile Char.isDigit, 1)
        | '+' :: t => (false, t.takeWhile Char.isDigit, 1)
        | t => (false, t.takeWhile Char.isDigit, 0)
      if ds.isEmpty then none
      else
        let n : Int := Decimal.value ds
        some (if negative then -n else n, 1 + signs + ds.length)
    else none
  | [] => none

def numeral? (s : List Char) : Option Numeral :=
  let negative := s.head? = some '-'
  let signs := if negative then 1 else 0
  let whole := wholeDigits (s.drop signs)
  if whole.isEmpty then none
  else
    let fraction := fractionDigits (s.drop (signs + whole.length))
    let points := if fraction.isEmpty then 0 else 1
    let size := signs + whole.length + points + fraction.length
    match exponent? (s.drop size) with
    | none => some ⟨negative, whole, fraction, none, size⟩
    | some (x, n) => some ⟨negative, whole, fraction, some x, size + n⟩

/-- The value of a number: an integer unless it has a fraction or an exponent. -/
def Numeral.value (n : Numeral) : Except Fault Value :=
  if n.fraction.isEmpty && n.exponent.isNone then
    if maxDigits < n.whole.length then .error (.tooManyDigits n.whole.length)
    else
      let v : Int := Decimal.value n.whole
      .ok (.int (if n.negative then -v else v))
  else
    .ok (.double (.ofDecimal n.negative (Decimal.value (n.whole ++ n.fraction))
      (n.exponent.getD 0 - n.fraction.length)))

/-! ## Values -/

/-- The words that stand for values. -/
def words : List (List Char × Value) :=
  [(['n', 'u', 'l', 'l'], .null), (['t', 'r', 'u', 'e'], .bool true),
   (['f', 'a', 'l', 's', 'e'], .bool false), (['N', 'a', 'N'], .double .nan),
   (['I', 'n', 'f', 'i', 'n', 'i', 't', 'y'], .double (.infinite false)),
   (['-', 'I', 'n', 'f', 'i', 'n', 'i', 't', 'y'], .double (.infinite true))]

/-- A word or number. -/
def scalar (s : List Char) : Except Fault (Taken Value s) :=
  match words.find? fun w => w.1.isPrefixOf s with
  | some (w, v) => .ok ⟨v, s.drop w.length, by simp⟩
  | none =>
    match numeral? s with
    | none => .error (.bad .value s.length)
    | some n =>
      match n.value with
      | .error f => .error f
      | .ok v => .ok ⟨v, s.drop n.size, by simp⟩

/-- A colon between blanks. -/
def colon (s : List Char) : Except Fault (Taken Unit s) :=
  match h : skip s with
  | [] => .error (.bad .colon 0)
  | c :: r =>
    if c = ':' then
      .ok ⟨(), skip r, by
        have := length_skip_le s
        have := length_skip_le r
        simp [h] at *; omega⟩
    else .error (.bad .colon (r.length + 1))

mutual

/-- The value at the front. -/
def value (lone : Nat → Char) (s : List Char) : Except Fault (Taken Value s) :=
  match s with
  | [] => .error (.bad .value 0)
  | c :: r =>
    if c = '"' then
      match string lone r with
      | .error f => .error f
      | .ok ⟨t, u, h⟩ => .ok ⟨.text t, u, Nat.le_succ_of_le h⟩
    else if c = '[' then
      if (skip r).head? = some ']' then
        .ok ⟨.list [], (skip r).tail, by have := length_skip_le r; simp; omega⟩
      else
        match items lone (skip r) with
        | .error f => .error f
        | .ok ⟨vs, u, h⟩ =>
          .ok ⟨.list vs, u, by have := length_skip_le r; simp; omega⟩
    else if c = '\x7b' then
      if (skip r).head? = some '\x7d' then
        .ok ⟨.keyed [], (skip r).tail, by have := length_skip_le r; simp; omega⟩
      else
        match entries lone (skip r) with
        | .error f => .error f
        | .ok ⟨es, u, h⟩ =>
          .ok ⟨.keyed (Entries.ofPairs es), u, by have := length_skip_le r; simp; omega⟩
    else scalar (c :: r)
termination_by (s.length, 0)
decreasing_by
  all_goals
    have := length_skip_le r
    exact Prod.Lex.left _ _ (by simp; omega)

/-- The values of a list up to its closing bracket. -/
def items (lone : Nat → Char) (s : List Char) : Except Fault (Taken (List Value) s) :=
  match value lone s with
  | .error f => .error f
  | .ok ⟨v, r, h⟩ =>
    match hr : skip r with
    | [] => .error (.bad .comma 0)
    | c :: t =>
      if c = ']' then
        .ok ⟨[v], t, by have := length_skip_le r; simp [hr] at this; omega⟩
      else if c = ',' then
        match items lone (skip t) with
        | .error f => .error f
        | .ok ⟨vs, u, h'⟩ =>
          .ok ⟨v :: vs, u, by
            have := length_skip_le r
            have := length_skip_le t
            simp [hr] at *; omega⟩
      else .error (.bad .comma (t.length + 1))
termination_by (s.length, 1)
decreasing_by
  · exact Prod.Lex.right _ (by decide)
  · have := length_skip_le r
    have := length_skip_le t
    exact Prod.Lex.left _ _ (by simp [hr] at *; omega)

/-- The pairs of an object up to its closing brace. -/
def entries (lone : Nat → Char) (s : List Char) : Except Fault (Taken (List (String × Value)) s) :=
  match s with
  | [] => .error (.bad .name 0)
  | q :: s' =>
    if q = '"' then
      match string lone s' with
      | .error f => .error f
      | .ok ⟨k, r, hk⟩ =>
        match colon r with
        | .error f => .error f
        | .ok ⟨_, w, hw⟩ =>
          match value lone w with
          | .error f => .error f
          | .ok ⟨v, x, hx⟩ =>
            match hr : skip x with
            | [] => .error (.bad .comma 0)
            | c :: t =>
              if c = '\x7d' then
                .ok ⟨[(k, v)], t, by
                  have := length_skip_le x
                  simp [hr] at *; omega⟩
              else if c = ',' then
                match entries lone (skip t) with
                | .error f => .error f
                | .ok ⟨es, u, h'⟩ =>
                  .ok ⟨(k, v) :: es, u, by
                    have := length_skip_le x
                    have := length_skip_le t
                    simp [hr] at *; omega⟩
              else .error (.bad .comma (t.length + 1))
    else .error (.bad .name (s'.length + 1))
termination_by (s.length, 1)
decreasing_by
  · exact Prod.Lex.left _ _ (by simp; omega)
  · have := length_skip_le x
    have := length_skip_le t
    exact Prod.Lex.left _ _ (by simp [hr] at *; omega)

end

end Reading

/-- The value that a text writes, whatever it starts with. -/
def Value.readUnmarked (lone : Nat → Char) (s : List Char) : Except Fault Value :=
  match Reading.value lone (Reading.skip s) with
  | .error f => .error f
  | .ok ⟨v, r, _⟩ =>
    if (Reading.skip r).isEmpty then .ok v
    else .error (.bad .extra (Reading.skip r).length)

/-- The value that a text writes; a text does not start with a byte order mark. -/
def Value.readKeeping (lone : Nat → Char) (s : List Char) : Except Fault Value :=
  if s.head? = some '\ufeff' then .error (.bad .byteOrderMark s.length)
  else Value.readUnmarked lone s

/-- The value that a text writes, with lone surrogates replaced. -/
def Value.read (s : List Char) : Except Fault Value := Value.readKeeping Text.replaced s

/-- The offset in `s` of a place from which `remaining` characters are left. -/
def offset (s : List Char) (remaining : Nat) : Nat := s.length - remaining

/-- The position in `s` of a place from which `remaining` characters are left. -/
def positionIn (s : List Char) (remaining : Nat) : Position :=
  Position.start.after (s.take (offset s remaining))

end ContractInterface.Json
