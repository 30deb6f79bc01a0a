import ContractInterface.Position
import ContractInterface.Text.Quoted

/-!
# Tokens of the contract language

A token has a kind, a value and the position of its first character.  The value is the lexeme
itself, except for a string, where it is the unescaped interior, and for the end, where it is empty.
-/

namespace ContractInterface

inductive TokenKind where
  | identifier | con | tvar
  | kwContract | kwType | kwRecord | kwDatatype | kwFunction | kwPrivate | kwPublic | kwStateful
  | lparen | rparen | lbracket | rbracket | lbrace | rbrace | comma
  | colon | eq | bar | arrow | operator
  | string | number
  | finish
deriving DecidableEq, Repr

namespace TokenKind

/-- The name of the kind in listings of tokens. -/
def label : TokenKind → String
  | identifier => "IDENTIFIER"
  | con => "CON"
  | tvar => "TVAR"
  | kwContract => "KW_CONTRACT"
  | kwType => "KW_TYPE"
  | kwRecord => "KW_RECORD"
  | kwDatatype => "KW_DATATYPE"
  | kwFunction => "KW_FUNCTION"
  | kwPrivate => "KW_PRIVATE"
  | kwPublic => "KW_PUBLIC"
  | kwStateful => "KW_STATEFUL"
  | lparen => "LPAREN"
  | rparen => "RPAREN"
  | lbracket => "LBRACKET"
  | rbracket => "RBRACKET"
  | lbrace => "LBRACE"
  | rbrace => "RBRACE"
  | comma => "COMMA"
  | colon => "COLON"
  | eq => "EQ"
  | bar => "BAR"
  | arrow => "ARROW"
  | operator => "OPERATOR"
  | string => "STRING"
  | number => "NUMBER"
  | finish => "EOF"

/-- How a message names the kind of token that it misses. -/
def wanted : TokenKind → String
  | lparen => "'('"
  | rparen => "')'"
  | lbrace => "'\x7b'"
  | rbrace => "'\x7d'"
  | comma => "','"
  | colon => "':'"
  | eq => "'='"
  | bar => "'|'"
  | kwContract => "'contract'"
  | kwFunction => "'function'"
  | identifier => "an identifier"
  | con => "a capitalized name"
  | tvar => "a type variable"
  | finish => "end of input"
  | k => k.label

/-- A declaration may start with this kind of token. -/
def startsDecl : TokenKind → Bool
  | kwType | kwRecord | kwDatatype | kwFunction | kwPrivate | kwPublic | kwStateful => true
  | _ => false

def isModifier : TokenKind → Bool
  | kwPrivate | kwPublic | kwStateful => true
  | _ => false

def isOpener : TokenKind → Bool
  | lparen | lbracket | lbrace => true
  | _ => false

def isCloser : TokenKind → Bool
  | rparen | rbracket | rbrace => true
  | _ => false

end TokenKind

structure Token where
  kind : TokenKind
  value : String
  pos : Position
deriving DecidableEq, Repr

namespace Token

/-- How a message names a token that it did not expect. -/
def found (t : Token) : String :=
  if t.kind = .finish then "end of input" else Text.quote t.value

/-- Listing form, `Token(CON, 'Foo', L1:10)`. -/
def display (t : Token) : String :=
  s!"Token({t.kind.label}, {Text.quote t.value}, {t.pos.label})"

end Token

end ContractInterface
