import ContractInterface.Json.Read
import ContractInterface.Text.Encoding
import ContractInterface.Text.Quoted

/-!
# Calling stubs

The stub of an interface description is the text that a calling contract needs: the contract's
name, a line for each function with its argument types and return type and, on request, a line for
each type definition.

    contract Token =
      function balance : (address) => int

`Stub.ofValue` asks of a description what the stub shows and nothing more.  The first part that is
missing or of the wrong kind is blamed, at the path of the object that should hold it.
-/

namespace ContractInterface

open Json (Value)

/-! ## Faults -/

/-- One step from a value to a part of it. -/
inductive PathStep where
  | key (k : String)
  | index (i : Nat)
deriving DecidableEq, Repr

/-- The way from the root of a description to a part of it. -/
abbrev Path := List PathStep

def PathStep.text : PathStep → String
  | key k => "." ++ k
  | index i => s!"[{i}]"

/-- A dollar sign for the root, otherwise the steps, as in `contract.functions[0]`. -/
def Path.text : Path → String
  | [] => "$"
  | .key k :: r => k ++ String.join (r.map PathStep.text)
  | .index i :: r => "$" ++ String.join ((PathStep.index i :: r).map PathStep.text)

inductive Malformation where
  | missing
  | notAnObject
  | notAList
  | notAText
  | invalidJson (what : Json.Complaint) (pos : Position)
  | invalidBytes (offset : Nat)
  /-- the whole description is a value of this kind -/
  | rootKind (kind : String)
  /-- in other words -/
  | described (problem : String)
deriving DecidableEq, Repr

def Malformation.text : Malformation → String
  | missing => "missing"
  | notAnObject => "expected an object"
  | notAList => "expected a list"
  | notAText => "expected a string"
  | invalidJson what pos => s!"invalid JSON ({what.text}, {pos.phrase})"
  | invalidBytes offset => s!"invalid UTF-8 at byte {offset}"
  | rootKind kind => s!"expected an object, got {kind}"
  | described problem => problem

/-- A part of a description that is not as it should be: the value under `key` of the object at
`path`, or that object itself if there is no key. -/
structure Malformed where
  key : String
  path : Path
  problem : Malformation
deriving DecidableEq, Repr

def Malformed.message (m : Malformed) : String :=
  match m.problem with
  | .missing => "missing key " ++ Text.quote m.key ++ " in " ++ m.path.text
  | problem =>
    problem.text ++ " at " ++ m.path.text ++ (if m.key.isEmpty then "" else "." ++ m.key)

/-! ## Stubs -/

structure StubType where
  name : String
  vars : List String
  body : String
deriving DecidableEq, Repr

structure StubFunction where
  name : String
  arguments : List String
  result : String
deriving DecidableEq, Repr

structure Stub where
  name : String
  types : List StubType
  functions : List StubFunction
deriving DecidableEq, Repr

/-- Texts in parentheses. -/
def parenthesised (parts : List String) : String := "(" ++ ", ".intercalate parts ++ ")"

def StubType.line (t : StubType) : String :=
  "  type " ++ t.name ++ (if t.vars.isEmpty then "" else parenthesised t.vars) ++ " = " ++
    t.body ++ "\n"

def StubFunction.line (f : StubFunction) : String :=
  "  function " ++ f.name ++ " : " ++ parenthesised f.arguments ++ " => " ++ f.result ++ "\n"

def Stub.text (s : Stub) : String :=
  "contract " ++ s.name ++ " =\n" ++ String.join (s.types.map StubType.line) ++
    String.join (s.functions.map StubFunction.line)

/-! ## From descriptions -/

namespace Stub

/-- The value under a key of the object at `path`. -/
def require (entry : Value) (key : String) (path : Path) : Except Malformed Value :=
  match entry with
  | .keyed entries =>
    match entries.lookup key with
    | some v => .ok v
    | none => .error ⟨key, path, .missing⟩
  | _ => .error ⟨"", path, .notAnObject⟩

def requireText (entry : Value) (key : String) (path : Path) : Except Malformed String :=
  match require entry key path with
  | .ok (.text s) => .ok s
  | .ok _ => .error ⟨key, path, .notAText⟩
  | .error m => .error m

def requireList (entry : Value) (key : String) (path : Path) : Except Malformed (List Value) :=
  match require entry key path with
  | .ok (.list vs) => .ok vs
  | .ok _ => .error ⟨key, path, .notAList⟩
  | .error m => .error m

/-- Read every item of the list at `path` in turn; the first one is number `i`. -/
def eachAt {α : Type} (read : Value → Path → Except Malformed α) (path : Path) (i : Nat) :
    List Value → Except Malformed (List α)
  | [] => .ok []
  | v :: vs => do
    let a ← read v (path ++ [.index i])
    let as ← eachAt read path (i + 1) vs
    return a :: as

def readFunction (v : Value) (path : Path) : Except Malformed StubFunction := do
  let name ← requireText v "name" path
  let args ← requireList v "arguments" path
  let result ← requireText v "type" path
  let types ← eachAt (fun a p => requireText a "type" p) (path ++ [.key "arguments"]) 0 args
  return ⟨name, types, result⟩

def readType (v : Value) (path : Path) : Except Malformed StubType := do
  let name ← requireText v "name" path
  let vars ← requireList v "vars" path
  let body ← requireText v "typedef" path
  let names ← eachAt (fun a p => requireText a "name" p) (path ++ [.key "vars"]) 0 vars
  return ⟨name, names, body⟩

/-- The stub of the description of a contract. -/
def ofContract (includeTypes : Bool) (contract : Value) : Except Malformed Stub := do
  let path : Path := [.key "contract"]
  let name ← requireText contract "name" path
  let types ← requireList contract "type_defs" path
  let functions ← requireList contract "functions" path
  let types ← if includeTypes then eachAt readType (path ++ [.key "type_defs"]) 0 types else .ok []
  let functions ← eachAt readFunction (path ++ [.key "functions"]) 0 functions
  return ⟨name, types, functions⟩

/-- The stub of an interface description. -/
def ofValue (includeTypes : Bool) (description : Value) : Except Malformed Stub := do
  let contract ← require description "contract" []
  ofContract includeTypes contract

end Stub

/-! ## Interface text -/

/-- Interface text: characters, or the bytes of a data file. -/
inductive InterfaceText where
  | text (s : String)
  | bytes (b : List UInt8)
deriving DecidableEq, Repr

/-- Why interface text cannot be read. -/
inductive LoadError where
  | malformed (m : Malformed)
  /-- an integer has so many digits -/
  | tooManyDigits (count : Nat)
deriving DecidableEq, Repr

def LoadError.message : LoadError → String
  | malformed m => m.message
  | tooManyDigits count =>
    s!"Exceeds the limit ({Json.Reading.maxDigits} digits) for integer string conversion: " ++
      s!"value has {count} digits; use sys.set_int_max_str_digits() to increase the limit"

/-- A problem of a description as a whole. -/
def LoadError.root (problem : Malformation) : LoadError := .malformed ⟨"", [], problem⟩

/-- The mapping that a value read from a text is. -/
def loaded (text : List Char) : Except Json.Fault Value → Except LoadError Value
  | .ok (.keyed entries) => .ok (.keyed entries)
  | .ok v => .error (.root (.rootKind v.kindName))
  | .error (.bad what remaining) =>
    .error (.root (.invalidJson what (Json.positionIn text remaining)))
  | .error (.tooManyDigits count) => .error (.tooManyDigits count)

namespace InterfaceText

/-- The mapping that interface text writes; `lone` gives the characters that lone surrogates are kept
as. -/
def loadKeeping (lone : Nat → Char) : InterfaceText → Except LoadError Value
  | text s => loaded s.toList (Value.readKeeping lone s.toList)
  | bytes b =>
    match Text.Encoding.decode lone b with
    | .error offset => .error (.root (.invalidBytes offset))
    | .ok s => loaded s (Value.readUnmarked lone s)

/-- The mapping that interface text writes. -/
def load (t : InterfaceText) : Except LoadError Value := t.loadKeeping Text.replaced

/-- The stub that interface text describes, with lone surrogates kept as `lone` says. -/
def stubKeeping (lone : Nat → Char) (includeTypes : Bool) (t : InterfaceText) :
    Except LoadError Stub :=
  match t.loadKeeping lone with
  | .error e => .error e
  | .ok v =>
    match Stub.ofValue includeTypes v with
    | .error m => .error (.malformed m)
    | .ok s => .ok s

/-- The stub that interface text describes. -/
def stub (includeTypes : Bool) (t : InterfaceText) : Except LoadError Stub :=
  t.stubKeeping Text.replaced includeTypes

/-- The characters of what interface text writes, with `c` for every lone surrogate. -/
def chars (c : Char) (t : InterfaceText) : List Char :=
  match t.loadKeeping fun _ => c with
  | .ok v => v.chars
  | .error _ => []

/-- The stand-ins for the lone surrogates of interface text. -/
def standIns (t : InterfaceText) : Text.StandIns := .choose fun c => t.chars c

end InterfaceText

end ContractInterface
