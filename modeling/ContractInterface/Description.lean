import ContractInterface.Contract.Parse
import ContractInterface.Contract.Typing
import ContractInterface.Json.Write
import ContractInterface.Text.Utf8

/-!
# Interface descriptions

The description of a contract names its type definitions and the signatures of its functions, each
in source order, with types in their canonical text.  `describe` makes it from a source unit: read,
check, describe the first contract.  Whatever fails on the way fails the whole call.
-/

namespace ContractInterface

structure DescribedArgument where
  name : String
  type : String
deriving DecidableEq, Repr

structure DescribedFunction where
  name : String
  arguments : List DescribedArgument
  result : String
deriving DecidableEq, Repr

structure DescribedType where
  name : String
  vars : List String
  body : String
deriving DecidableEq, Repr

structure Description where
  name : String
  typeDefs : List DescribedType
  functions : List DescribedFunction
deriving DecidableEq, Repr

/-! ## As structured values -/

open Json (Value)

def DescribedArgument.toValue (a : DescribedArgument) : Value :=
  .ordered [("name", .text a.name), ("type", .text a.type)]

def DescribedFunction.toValue (f : DescribedFunction) : Value :=
  .ordered [("name", .text f.name), ("arguments", .list (f.arguments.map DescribedArgument.toValue)),
    ("type", .text f.result)]

def DescribedType.toValue (d : DescribedType) : Value :=
  .ordered [("name", .text d.name),
    ("vars", .list (d.vars.map fun v => .ordered [("name", .text v)])), ("typedef", .text d.body)]

def Description.toValue (d : Description) : Value :=
  .ordered [("contract", .ordered [("name", .text d.name),
    ("type_defs", .list (d.typeDefs.map DescribedType.toValue)),
    ("functions", .list (d.functions.map DescribedFunction.toValue))])]

/-- The interface text. -/
def Description.text (d : Description) (indent : Option Int) : String := d.toValue.write indent

/-! ## Of declarations

A part that should be a type and is none is answered with its display. -/

/-- The text of an annotation; a missing one is no type. -/
def renderAscription (type : Option TypeExpr) : Except String String := (type.getD .absent).render

def Param.describe (p : Param) : Except String DescribedArgument := do
  let name ← p.label.render
  return ⟨name, ← renderAscription p.type⟩

def FunctionDef.describe (d : FunctionDef) : Except String DescribedFunction := do
  let arguments ← d.params.mapM Param.describe
  return ⟨d.name.text, arguments, ← renderAscription d.result⟩

def TypeDef.describe (d : TypeDef) : Except String DescribedType := do
  return ⟨d.name.text, d.vars.map Name.text, ← d.body.render⟩

/-- The functions that a description lists. -/
def Contract.describedFunctions (publicOnly : Bool) (c : Contract) : List FunctionDef :=
  c.orderedFunctions.filter fun d => !(publicOnly && d.isPrivate)

def Contract.describe (publicOnly : Bool) (c : Contract) : Except String Description := do
  let typeDefs ← c.orderedTypeDefs.mapM TypeDef.describe
  let functions ← (c.describedFunctions publicOnly).mapM FunctionDef.describe
  return ⟨c.name.text, typeDefs, functions⟩

/-! ## Of source -/

/-- Why a source has no description. -/
inductive DescribeError where
  | source (e : SourceError)
  | typing (e : CheckError)
  /-- the checker returned no contract -/
  | noContract
  /-- the parser failed in a way that is not known -/
  | unclassified (message : String)
  /-- the text cannot be laid out with the indent -/
  | layout (f : Json.IndentFault)
deriving DecidableEq, Repr

def DescribeError.message : DescribeError → String
  | source e => e.message
  | typing e => e.message
  | noContract => "no contract to describe"
  | unclassified message => message
  | layout f => f.message

/-- Contract source: text, or bytes that should be UTF-8. -/
inductive Source where
  | text (s : String)
  | bytes (b : List UInt8)
deriving DecidableEq, Repr

/-- The byte at which the bytes stop being UTF-8, `offset` bytes from the start; columns count
bytes. -/
def invalidByte (bytes : List UInt8) (offset : Nat) : SourceError :=
  let before := bytes.take offset
  let column := (before.reverse.takeWhile (· != 0x0A)).length + 1
  let byte := (bytes.drop offset).headD 0
  ⟨before.count 0x0A + 1, column,
    String.ofList ("invalid UTF-8 byte 0x".toList ++ Text.hexDigits 2 byte.toNat)⟩

def Source.decode : Source → Except SourceError String
  | text s => .ok s
  | bytes b =>
    match Text.Utf8.decode b with
    | .ok s => .ok (String.ofList s)
    | .error offset => .error (invalidByte b offset)

/-- A request for a description.  Parser and checker may be replaced. -/
structure DescribeRequest where
  source : Source
  publicOnly : Bool
  parser : String → Except Failure (List Contract) := Contract.ofSource
  checker : List Contract → Except CheckError (List Contract) := Contract.infer

/-- The description of the first contract that the checker returns for what the parser reads. -/
def DescribeRequest.run (r : DescribeRequest) : Except DescribeError Description :=
  match r.source.decode with
  | .error e => .error (.source e)
  | .ok s =>
    match r.parser s with
    | .error f =>
      match f.translate with
      | .ok e => .error (.source e)
      | .error m => .error (.unclassified m)
    | .ok unit =>
      match r.checker unit with
      | .error e => .error (.typing e)
      | .ok [] => .error .noContract
      | .ok (c :: _) =>
        match c.describe r.publicOnly with
        | .error shown => .error (.typing (.notAType shown))
        | .ok d => .ok d

/-- The description of the first contract of a source. -/
def describe (publicOnly : Bool) (source : Source) : Except DescribeError Description :=
  DescribeRequest.run ⟨source, publicOnly, Contract.ofSource, Contract.infer⟩

/-- The interface text of a description, unless the indent is no machine integer. -/
def Description.textWithin (d : Description) (indent : Option Int) : Except DescribeError String :=
  match Json.indentFault? indent with
  | some f => .error (.layout f)
  | none => .ok (d.text indent)

/-- The interface text that is asked for. -/
def DescribeRequest.text (r : DescribeRequest) (indent : Option Int) :
    Except DescribeError String :=
  match r.run with
  | .error e => .error e
  | .ok d => d.textWithin indent

/-- The interface text of the first contract of a source. -/
def interfaceText (indent : Option Int) (publicOnly : Bool) (source : Source) :
    Except DescribeError String :=
  DescribeRequest.text ⟨source, publicOnly, Contract.ofSource, Contract.infer⟩ indent

end ContractInterface
