import ContractInterface.Token
import ContractInterface.TypeExpr

/-!
# Contracts and their declarations

A unit of source is a list of contracts.  A contract declares types and functions, in the order in
which they were written; a function keeps its body as a run of tokens.  A hand-made contract may hold
other entries among its declarations, which declare nothing.

Two declarations are the same (`bare` forms equal) if they agree in everything but positions and
function bodies.  `Contract.orderedTypeDefs` and `Contract.orderedFunctions` list the declarations
of each sort by position; a missing position counts as line 0, column 0.
-/

namespace ContractInterface

structure Param where
  /-- the name of the argument; a hand-made unit may have any type expression in its place -/
  label : TypeExpr
  /-- missing if the argument is not annotated -/
  type : Option TypeExpr
  pos : Option Position
deriving Repr

structure FunctionDef where
  name : Name
  params : List Param
  /-- missing if the return type is not annotated -/
  result : Option TypeExpr
  body : List Token
  isPrivate : Bool
  isStateful : Bool
  pos : Option Position
deriving Repr

structure TypeDef where
  name : Name
  vars : List Name
  body : TypeExpr
  pos : Option Position
deriving Repr

inductive Decl where
  | typeDef (d : TypeDef)
  | function (d : FunctionDef)
  /-- an entry that declares nothing -/
  | other (name : Name) (pos : Option Position)
deriving Repr

structure Contract where
  name : Name
  decls : List Decl
  pos : Option Position
deriving Repr

/-! ## Structural display -/

def TypeDef.display (d : TypeDef) : String :=
  displayNode "TypeDef" [("id", d.name.display "Id"),
    ("vars", displayTuple (d.vars.map (Name.display "TVar"))), ("typedef", d.body.display)]

/-! ## Equality apart from positions and bodies -/

def Name.same (m n : Name) : Bool := m.text == n.text

/-- Two lists of equal length whose elements agree one by one. -/
def allSame {α : Type} (same : α → α → Bool) : List α → List α → Bool
  | [], [] => true
  | a :: as, b :: bs => same a b && allSame same as bs
  | _, _ => false

def sameAscription : Option TypeExpr → Option TypeExpr → Bool
  | none, none => true
  | some t, some u => t.same u
  | _, _ => false

def Param.same (p q : Param) : Bool := p.label.same q.label && sameAscription p.type q.type

def FunctionDef.same (d e : FunctionDef) : Bool :=
  d.name.same e.name && allSame Param.same d.params e.params && sameAscription d.result e.result &&
    d.isPrivate == e.isPrivate && d.isStateful == e.isStateful

def TypeDef.same (d e : TypeDef) : Bool :=
  d.name.same e.name && allSame Name.same d.vars e.vars && d.body.same e.body

def Decl.same : Decl → Decl → Bool
  | typeDef d, typeDef e => d.same e
  | function d, function e => d.same e
  | other m _, other n _ => m.same n
  | _, _ => false

def Contract.same (c d : Contract) : Bool :=
  c.name.same d.name && allSame Decl.same c.decls d.decls

/-! ## Declarations by position -/

def Decl.typeDef? : Decl → Option TypeDef
  | typeDef d => some d
  | _ => none

def Decl.function? : Decl → Option FunctionDef
  | function d => some d
  | _ => none

def Decl.name : Decl → Name
  | typeDef d => d.name
  | function d => d.name
  | other name _ => name

def TypeDef.place (d : TypeDef) : Position := d.pos.getD .unknown

def FunctionDef.place (d : FunctionDef) : Position := d.pos.getD .unknown

def Decl.place : Decl → Position
  | typeDef d => d.place
  | function d => d.place
  | other _ pos => pos.getD .unknown

namespace Contract

/-- The type definitions as they stand in the list of declarations. -/
def typeDefs (c : Contract) : List TypeDef := c.decls.filterMap Decl.typeDef?

/-- The functions as they stand in the list of declarations. -/
def functions (c : Contract) : List FunctionDef := c.decls.filterMap Decl.function?

def orderedDecls (c : Contract) : List Decl := sortByPosition Decl.place c.decls

def orderedTypeDefs (c : Contract) : List TypeDef := sortByPosition TypeDef.place c.typeDefs

def orderedFunctions (c : Contract) : List FunctionDef :=
  sortByPosition FunctionDef.place c.functions

end Contract

end ContractInterface
