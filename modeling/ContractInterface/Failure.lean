import ContractInterface.Contract

/-!
# Failures of scanning and parsing

A failure has a position and a cause.  `Failure.detail` words the cause, `Failure.message` adds the
position.  `Failure.translate` gives the error that callers of the encoder see: scan failures all
read `scan error`, an ambiguity lists its readings, and a failure of no known kind is refused.
-/

namespace ContractInterface

/-- One reading of an ambiguous source. -/
inductive Reading where
  | definition (d : TypeDef)
  /-- a reading that is described in words -/
  | described (text : String)
deriving Repr

def Reading.display : Reading → String
  | definition d => d.display
  | described text => Text.quote text

/-- What a parser can miss. -/
inductive Wanted where
  | token (kind : TokenKind)
  | declaration
  | type
  | functionBody
deriving DecidableEq, Repr

def Wanted.text : Wanted → String
  | token kind => kind.wanted
  | declaration => "a declaration"
  | type => "a type"
  | functionBody => "a function body"

inductive Cause where
  /-- no token starts here, or a string or type variable is cut short -/
  | scan (detail : String)
  /-- the source ends inside a comment -/
  | unfinished (detail : String)
  /-- another token was expected -/
  | unexpected (found : Token) (wanted : Wanted)
  | functionType
  /-- a bracket in a function body closes nothing -/
  | unbalanced (found : Token)
  /-- the source ends inside a bracket of a function body -/
  | unclosed
  /-- a refusal in other words -/
  | refused (detail : String)
  | ambiguous (readings : List Reading)
  /-- a failure of no known kind -/
  | unclassified (detail : String)
deriving Repr

structure Failure where
  pos : Position
  cause : Cause
deriving Repr

/-- What callers of the encoder learn about a source that cannot be read. -/
structure SourceError where
  line : Int
  column : Int
  detail : String
deriving DecidableEq, Repr

namespace Cause

def detail : Cause → String
  | scan detail | unfinished detail | refused detail | unclassified detail => detail
  | unexpected found wanted => s!"unexpected {found.found}, expected {wanted.text}"
  | functionType => "function types are not supported in contract interfaces"
  | unbalanced found => s!"unbalanced {found.found} in function body"
  | unclosed => "unclosed bracket in function body"
  | ambiguous readings => s!"ambiguous parse ({readings.length} alternatives)"

/-- What the end of the input or a character in it is called when it cannot be scanned. -/
def scanDetail : String := "scan error"

end Cause

namespace Failure

def detail (f : Failure) : String := f.cause.detail

def message (f : Failure) : String :=
  s!"{f.detail} at line {f.pos.line}, col {f.pos.col}"

/-- The error for callers, or the message of a failure of no known kind. -/
def translate (f : Failure) : Except String SourceError :=
  match f.cause with
  | .scan _ | .unfinished _ => .ok ⟨f.pos.line, f.pos.col, Cause.scanDetail⟩
  | .ambiguous readings =>
    .ok ⟨f.pos.line, f.pos.col,
      "Ambiguous [" ++ ", ".intercalate (readings.map Reading.display) ++ "]"⟩
  | .unclassified _ =>
    .error ("unknown parser failure: ParseFailure(" ++ Text.quote f.message ++ ")")
  | cause => .ok ⟨f.pos.line, f.pos.col, cause.detail⟩

end Failure

def SourceError.message (e : SourceError) : String :=
  s!"line {e.line}, column {e.column}: {e.detail}"

end ContractInterface
