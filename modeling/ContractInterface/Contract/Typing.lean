import ContractInterface.Contract

/-!
# Type checking

A unit is well typed if in each of its contracts

* type names are distinct and none is builtin, the variables of a definition are distinct and bind
  every variable of its body, and its fields or constructors have distinct names;
* function names are distinct, argument names are distinct in each function, and every argument and
  every return type is annotated;
* every lower-case name in a type is builtin or declared in the contract and has as many arguments
  as it was declared with, and every capitalized name is that of a contract of the unit.

A `Checker` holds the tables in force and the issues found.  It may be used for one unit after the
other: `infer` starts without issues, and each contract with its own table of types.  Issues are
reported together, sorted by position; those at one position keep the order in which they were
found: names of type definitions, bodies of type definitions, functions.

The first place of a hand-made unit in which there is no type expression, or no name, where there
should be one stops the checker.  It keeps the issues found by then and what its tables held
(`Checker.note`).
-/

namespace ContractInterface

/-- Where a type was used: in the definition of a type or in a function. -/
inductive Place where
  | definition (name : String)
  | function (name : String)
deriving DecidableEq, Repr

def Place.text : Place → String
  | definition name => s!"the definition of {name}"
  | function name => s!"function {name}"

/-- What violates a typing rule. -/
inductive Problem where
  | duplicateType (name contract : String)
  | shadowsBuiltin (name : String)
  | repeatedVar (name definition : String)
  | repeatedField (name : String) (place : Place)
  | repeatedConstructor (name : String) (place : Place)
  | repeatedArgument (name : String) (place : Place)
  | duplicateFunction (name contract : String)
  | unannotatedArgument (name : String) (place : Place)
  | unannotatedResult (place : Place)
  | unboundVar (name : String) (place : Place)
  | unknownContract (name : String) (place : Place)
  | unknownType (name : String) (place : Place)
  | arity (name : String) (expected got : Nat) (place : Place)
deriving DecidableEq, Repr

def Problem.message : Problem → String
  | duplicateType name contract => s!"type {name} is already defined in contract {contract}"
  | shadowsBuiltin name => s!"type {name} shadows a builtin type"
  | repeatedVar name definition =>
    s!"type variable {name} is repeated in the definition of {definition}"
  | repeatedField name place => s!"field {name} is repeated in {place.text}"
  | repeatedConstructor name place => s!"constructor {name} is repeated in {place.text}"
  | repeatedArgument name place => s!"argument {name} is repeated in {place.text}"
  | duplicateFunction name contract =>
    s!"function {name} is already defined in contract {contract}"
  | unannotatedArgument name place => s!"argument {name} of {place.text} has no type annotation"
  | unannotatedResult place => s!"{place.text} has no return type annotation"
  | unboundVar name place => s!"unbound type variable {name} in {place.text}"
  | unknownContract name place => s!"unknown contract type {name} in {place.text}"
  | unknownType name place => s!"unknown type {name} in {place.text}"
  | arity name expected got place =>
    s!"type {name} expects {expected} type argument(s), got {got} in {place.text}"

structure Issue where
  pos : Position
  problem : Problem
deriving DecidableEq, Repr

/-- The line that reports a message at a position. -/
def issueLine (pos : Position) (message : String) : String := s!"{pos.phrase}: {message}"

def Issue.message (i : Issue) : String := i.problem.message

def Issue.line (i : Issue) : String := issueLine i.pos i.message

/-- Why a unit is not accepted. -/
inductive CheckError where
  | illTyped (issues : List Issue)
  /-- what is no type expression stands where a type belongs -/
  | notAType (shown : String)
  /-- something of this kind stands where such a part is asked for, and has none -/
  | lacks (kind part : String)
deriving DecidableEq, Repr

namespace CheckError

def notATypeMessage (shown : String) : String := s!"not a type expression: {shown}"

def message : CheckError → String
  | illTyped issues => "\n".intercalate (issues.map Issue.line)
  | notAType shown => notATypeMessage shown
  | lacks kind part => s!"'{kind}' object has no attribute '{part}'"

end CheckError

/-- What the checker comes upon. -/
inductive Finding where
  | issue (i : Issue)
  /-- there is no type expression, or no name, where there should be one -/
  | obstacle (e : CheckError)
deriving DecidableEq, Repr

/-- The builtin types and how many arguments they take. -/
def builtinTypes : List (String × Nat) :=
  [("int", 0), ("bool", 0), ("string", 0), ("address", 0), ("hash", 0), ("bits", 0), ("bytes", 0),
   ("signature", 0), ("unit", 0), ("char", 0), ("ttl", 0), ("list", 1), ("option", 1), ("map", 2),
   ("oracle", 2), ("oracle_query", 2)]

def isBuiltin (name : String) : Bool := (builtinTypes.lookup name).isSome

structure Checker where
  /-- the contracts of the unit -/
  contractNames : List String
  /-- the types declared in the contract at hand, with the number of their parameters; of two
  entries for one name the first counts -/
  localTypes : List (String × Nat)
  issues : List Issue
deriving Repr

namespace Checker

def fresh : Checker := ⟨[], [], []⟩

/-- An issue about `n`, where it was written. -/
def issueAt (n : Name) (p : Problem) : Issue := ⟨n.pos.getD .unknown, p⟩

/-! ## Names -/

/-- Names that should differ.  What is found are those that occur earlier in the list or in `seen`,
and what is no name. -/
def uniqueFindings (problem : String → Problem) (seen : List String) :
    List TypeExpr → List Finding
  | [] => []
  | t :: ts =>
    match t.name? with
    | none => .obstacle (.lacks t.kind "name") :: uniqueFindings problem seen ts
    | some n =>
      (if seen.contains n.text then [.issue (issueAt n (problem n.text))] else []) ++
        uniqueFindings problem (n.text :: seen) ts

/-- The number of arguments that the type of this name takes. -/
def arity? (c : Checker) (name : String) : Option Nat :=
  (c.localTypes.lookup name).or (builtinTypes.lookup name)

/-! ## Types -/

def arityFindings (c : Checker) (place : Place) (n : Name) (got : Nat) : List Finding :=
  match c.arity? n.text with
  | none => [.issue (issueAt n (.unknownType n.text place))]
  | some expected =>
    if expected = got then [] else [.issue (issueAt n (.arity n.text expected got place))]

mutual

/-- What is found in a type expression.  `bound` are the variables that may occur in it; any may if
there is no such list. -/
def typeFindings (c : Checker) (bound : Option (List String)) (place : Place) :
    TypeExpr → List Finding
  | .var n =>
    if bound.all (·.contains n.text) then []
    else [.issue (issueAt n (.unboundVar n.text place))]
  | .named n => c.arityFindings place n 0
  | .contract n =>
    if c.contractNames.contains n.text then []
    else [.issue (issueAt n (.unknownContract n.text place))]
  | .app head args =>
    (match head.name? with
      | some n => c.arityFindings place n args.length
      | none => [.obstacle (.lacks head.kind "name")]) ++ c.typesFindings bound place args
  | .tuple parts => c.typesFindings bound place parts
  | .record fields => c.typesFindings bound place fields
  | .field _ type _ => c.typeFindings bound place type
  | .variant constructors => c.typesFindings bound place constructors
  | .constr _ args _ => c.typesFindings bound place args
  | .synonym type => c.typeFindings bound place type
  | .foreign _ _ shown => [.obstacle (.notAType shown)]

def typesFindings (c : Checker) (bound : Option (List String)) (place : Place) :
    List TypeExpr → List Finding
  | [] => []
  | t :: ts => c.typeFindings bound place t ++ c.typesFindings bound place ts

end

/-! ## Declarations -/

/-- What is found at the names under which types are declared. -/
def typeNameFindings (contract : String) (seen : List String) : List TypeDef → List Finding
  | [] => []
  | d :: ds =>
    if seen.contains d.name.text then
      .issue (issueAt d.name (.duplicateType d.name.text contract)) ::
        typeNameFindings contract seen ds
    else
      (if isBuiltin d.name.text then [.issue (issueAt d.name (.shadowsBuiltin d.name.text))]
        else []) ++
        typeNameFindings contract (d.name.text :: seen) ds

/-- What a part of a record goes by; an applied type goes by its head. -/
def fieldLabel? : TypeExpr → Option TypeExpr
  | .field label _ _ => some label
  | .app head _ => some head
  | _ => none

/-- What a part of a variant goes by. -/
def constructorTag? : TypeExpr → Option TypeExpr
  | .constr tag _ _ => some tag
  | _ => none

/-- The obstacle that a member is which should go by the given part.  What is foreign may have the
part and be refused later. -/
def unlabelled? (label? : TypeExpr → Option TypeExpr) (part : String) (member : TypeExpr) :
    Option CheckError :=
  match member with
  | .foreign kind parts _ => if parts.contains part then none else some (.lacks kind part)
  | t => if (label? t).isSome then none else some (.lacks t.kind part)

/-- The labels of all members are looked up before they are compared. -/
def labelFindings (label? : TypeExpr → Option TypeExpr) (part : String)
    (problem : String → Problem) (members : List TypeExpr) : List Finding :=
  (members.filterMap (unlabelled? label? part)).map .obstacle ++
    uniqueFindings problem [] (members.filterMap label?)

/-- What is found at the fields of a record or the constructors of a variant. -/
def memberFindings (place : Place) : TypeExpr → List Finding
  | .record fields => labelFindings fieldLabel? "id" (.repeatedField · place) fields
  | .variant constructors =>
    labelFindings constructorTag? "con" (.repeatedConstructor · place) constructors
  | _ => []

def typeDefFindings (c : Checker) (d : TypeDef) : List Finding :=
  uniqueFindings (.repeatedVar · d.name.text) [] (d.vars.map .var) ++
    memberFindings (.definition d.name.text) d.body ++
    c.typeFindings (some (d.vars.map Name.text)) (.definition d.name.text) d.body

/-- What is found at what should be annotated. -/
def ascriptionFindings (c : Checker) (place : Place) (missing : Issue) :
    Option TypeExpr → List Finding
  | none => [.issue missing]
  | some t => c.typeFindings none place t

def paramFindings (c : Checker) (place : Place) (p : Param) : List Finding :=
  c.ascriptionFindings place
    ⟨p.pos.getD .unknown, .unannotatedArgument p.label.text place⟩ p.type

def functionFindings (c : Checker) (d : FunctionDef) : List Finding :=
  let place := Place.function d.name.text
  uniqueFindings (.repeatedArgument · place) [] (d.params.map Param.label) ++
    d.params.flatMap (c.paramFindings place) ++
    c.ascriptionFindings place (issueAt d.name (.unannotatedResult place)) d.result

def functionsFindings (c : Checker) (contract : String) (seen : List String) :
    List FunctionDef → List Finding
  | [] => []
  | d :: ds =>
    (if seen.contains d.name.text then
      [.issue (issueAt d.name (.duplicateFunction d.name.text contract))] else []) ++
      c.functionFindings d ++ c.functionsFindings contract (d.name.text :: seen) ds

/-- What is found in a contract whose types are in the table. -/
def contractFindings (c : Checker) (k : Contract) : List Finding :=
  typeNameFindings k.name.text [] k.typeDefs ++ k.typeDefs.flatMap c.typeDefFindings ++
    c.functionsFindings k.name.text [] k.functions

end Checker

/-- The types that a contract declares, with the number of their parameters. -/
def Contract.arities (k : Contract) : List (String × Nat) :=
  k.typeDefs.map fun d => (d.name.text, d.vars.length)

namespace Checker

/-! ## Units -/

/-- Take down one issue after the other; an obstacle stops the checker at once. -/
def note (c : Checker) : List Finding → Option CheckError × Checker
  | [] => (none, c)
  | .issue i :: fs => note ⟨c.contractNames, c.localTypes, c.issues ++ [i]⟩ fs
  | .obstacle e :: _ => (some e, c)

/-- Take the types of a contract as the ones at hand. -/
def enter (c : Checker) (k : Contract) : Checker := ⟨c.contractNames, k.arities, c.issues⟩

def checkContract (c : Checker) (k : Contract) : Option CheckError × Checker :=
  (c.enter k).note ((c.enter k).contractFindings k)

/-- Check one contract after the other. -/
def run (c : Checker) : List Contract → Option CheckError × Checker
  | [] => (none, c)
  | k :: ks =>
    match c.checkContract k with
    | (some e, c) => (some e, c)
    | (none, c) => run c ks

/-- Turn to another unit.  The types of the contract at hand last stay until `enter`. -/
def start (c : Checker) (unit : List Contract) : Checker :=
  ⟨unit.map fun k => k.name.text, c.localTypes, []⟩

/-- Check a unit.  It comes back unchanged, or with what is wrong with it. -/
def infer (c : Checker) (unit : List Contract) : Except CheckError (List Contract) × Checker :=
  match (c.start unit).run unit with
  | (some e, c) => (.error e, c)
  | (none, c) =>
    if c.issues.isEmpty then (.ok unit, c)
    else (.error (.illTyped (sortByPosition Issue.pos c.issues)), c)

end Checker

/-- Check a unit with a fresh checker. -/
def Contract.infer (unit : List Contract) : Except CheckError (List Contract) :=
  (Checker.fresh.infer unit).1

end ContractInterface
