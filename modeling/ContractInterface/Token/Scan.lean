import ContractInterface.Failure
import ContractInterface.Text.Letter
import ContractInterface.Text.Numeral
import ContractInterface.Text.Uppercase

/-!
# Scanning

`piece c r` looks at a source that starts with the character `c` and goes on with `r`.  It finds the
piece of source that starts there: a gap (one blank, a comment) or the lexeme of a token, told by
how many further characters `more` of `r` belong to it.  `scan` goes through a source piece by
piece; `skip` counts the characters that still belong to the piece at hand.

    scan s = tokens of the pieces of s, each at the position of its first character,
             and the token for the end at the position behind s

Comments nest.  A string runs to its closing quote on the same line, where a backslash protects the
character after it; a number starts with a digit; a name starts with a letter or `_` and is a
keyword, a capitalized name or an identifier.
-/

namespace ContractInterface

namespace Token

/-- A piece of source by the number of characters after its first. -/
inductive Piece where
  | gap (more : Nat)
  | lexeme (kind : TokenKind) (value : List Char) (more : Nat)
deriving Repr

def isSpace (c : Char) : Bool := c = ' ' || c = '\t' || c = '\r' || c = '\n'

/-- Letters, numerals, `_` and the apostrophe go on in a name. -/
def isNameChar (c : Char) : Bool :=
  Text.isLetter c || Text.isNumeral c || c = '_' || c = '\''

def startsName (c : Char) : Bool := Text.isLetter c || c = '_'

def isHexDigit (c : Char) : Bool :=
  '0' ≤ c && c ≤ '9' || 'a' ≤ c && c ≤ 'f' || 'A' ≤ c && c ≤ 'F'

def punctuation? : Char → Option TokenKind
  | '(' => some .lparen
  | ')' => some .rparen
  | '[' => some .lbracket
  | ']' => some .rbracket
  | '\x7b' => some .lbrace
  | '\x7d' => some .rbrace
  | ',' => some .comma
  | _ => none

/-- The operators, those of two characters first. -/
def operators : List (List Char × TokenKind) :=
  [(['=', '>'], .arrow), (['=', '='], .operator), (['!', '='], .operator),
   (['=', '<'], .operator), (['>', '='], .operator), (['<', '='], .operator),
   ([':', ':'], .operator), (['+', '+'], .operator), (['&', '&'], .operator),
   (['|', '|'], .operator), (['-', '>'], .operator), (['='], .eq), (['|'], .bar),
   ([':'], .colon), (['+'], .operator), (['-'], .operator), (['*'], .operator),
   (['/'], .operator), (['<'], .operator), (['>'], .operator), (['!'], .operator),
   (['.'], .operator), ([';'], .operator), (['^'], .operator), (['%'], .operator),
   (['@'], .operator)]

def keywords : List (List Char × TokenKind) :=
  [(['c', 'o', 'n', 't', 'r', 'a', 'c', 't'], .kwContract), (['t', 'y', 'p', 'e'], .kwType),
   (['r', 'e', 'c', 'o', 'r', 'd'], .kwRecord),
   (['d', 'a', 't', 'a', 't', 'y', 'p', 'e'], .kwDatatype),
   (['f', 'u', 'n', 'c', 't', 'i', 'o', 'n'], .kwFunction),
   (['p', 'r', 'i', 'v', 'a', 't', 'e'], .kwPrivate), (['p', 'u', 'b', 'l', 'i', 'c'], .kwPublic),
   (['s', 't', 'a', 't', 'e', 'f', 'u', 'l'], .kwStateful)]

def keyword? (word : List Char) : Option TokenKind := keywords.lookup word

/-- How many characters it takes until `depth` open comments are closed. -/
def closeComment : Nat → List Char → Option Nat
  | 0, _ => some 0
  | _ + 1, [] => none
  | depth + 1, '/' :: '*' :: r => (closeComment (depth + 2) r).map (· + 2)
  | depth + 1, '*' :: '/' :: r => (closeComment depth r).map (· + 2)
  | depth + 1, _ :: r => (closeComment (depth + 1) r).map (· + 1)

/-- What an escaped character stands for. -/
def unescape : Char → Char
  | 'n' => '\n'
  | 't' => '\t'
  | c => c

/-- The rest of a string behind its opening quote: the unescaped interior and the number of
characters up to the closing quote, that quote included. -/
def readString : List Char → Option (List Char × Nat)
  | [] => none
  | '"' :: _ => some ([], 1)
  | '\n' :: _ => none
  | '\\' :: c :: r => (readString r).map fun (s, n) => (unescape c :: s, n + 2)
  | c :: r => (readString r).map fun (s, n) => (c :: s, n + 1)

/-- How many characters after the digit `c` belong to a number: hexadecimal digits behind `0x`,
otherwise digits; `_` counts as either. -/
def numberLength (c : Char) (r : List Char) : Nat :=
  match c, r with
  | '0', x :: s =>
    if x = 'x' || x = 'X' then 1 + (s.takeWhile fun d => isHexDigit d || d = '_').length
    else (r.takeWhile fun d => Text.isDigit d || d = '_').length
  | _, _ => (r.takeWhile fun d => Text.isDigit d || d = '_').length

/-- The kind of a token that starts like a name. -/
def nameKind (c : Char) (word : List Char) : TokenKind :=
  if Text.isUppercase c then .con else (keyword? word).getD .identifier

/-- The piece that starts with `c` and goes on in `r`. -/
def piece (c : Char) (r : List Char) : Except Cause Piece :=
  if isSpace c then .ok (.gap 0)
  else if c = '/' && r.head? = some '/' then .ok (.gap (r.takeWhile (· ≠ '\n')).length)
  else if c = '/' && r.head? = some '*' then
    match closeComment 1 r.tail with
    | some n => .ok (.gap (n + 1))
    | none => .error (.unfinished Cause.scanDetail)
  else if c = '"' then
    match readString r with
    | some (s, n) => .ok (.lexeme .string s n)
    | none => .error (.scan Cause.scanDetail)
  else if Text.isDigit c then
    let n := numberLength c r
    .ok (.lexeme .number (c :: r.take n) n)
  else if c = '\'' then
    if r.head?.any startsName then
      let word := r.takeWhile isNameChar
      .ok (.lexeme .tvar (c :: word) word.length)
    else .error (.scan Cause.scanDetail)
  else if startsName c then
    let word := r.takeWhile isNameChar
    .ok (.lexeme (nameKind c (c :: word)) (c :: word) word.length)
  else
    match punctuation? c with
    | some kind => .ok (.lexeme kind [c] 0)
    | none =>
      match operators.find? fun op => op.1.isPrefixOf (c :: r) with
      | some (op, kind) => .ok (.lexeme kind op (op.length - 1))
      | none => .error (.scan Cause.scanDetail)

/-- The tokens of a source that starts at `p` and whose first `skip` characters belong to a piece
that has been dealt with. -/
def scanFrom (p : Position) : Nat → List Char → Except Failure (List Token)
  | _, [] => .ok [⟨.finish, "", p⟩]
  | skip + 1, c :: r => scanFrom (p.step c) skip r
  | 0, c :: r =>
    match piece c r with
    | .error cause => .error ⟨p, cause⟩
    | .ok (.gap more) => scanFrom (p.step c) more r
    | .ok (.lexeme kind value more) =>
      match scanFrom (p.step c) more r with
      | .ok ts => .ok (⟨kind, String.ofList value, p⟩ :: ts)
      | .error f => .error f

/-- The tokens of a source, the last of them its end. -/
def scan (source : String) : Except Failure (List Token) :=
  scanFrom .start 0 source.toList

end Token

end ContractInterface
