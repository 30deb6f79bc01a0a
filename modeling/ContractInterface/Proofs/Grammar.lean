import ContractInterface.Contract.Parse

/-!
# The grammar of contract units

Derivations of the grammar as trees, with a constructor for every alternative and a leaf for every
token.  `tokens` gives the tokens of a tree from left to right, `ast` what the tree stands for.

    unit     ::= contract+
    contract ::= 'contract' CON '=' decl*
    decl     ::= 'type' head type
               | 'record' head '{' field (',' field)* '}'
               | 'datatype' head constr ('|' constr)*
               | modifier* 'function' ID '(' [arg (',' arg)*] ')' [':' type] '=' body
    head     ::= ID ['(' TVAR (',' TVAR)* ')'] '='
    arg      ::= ID [':' type]
    field    ::= ID ':' type
    constr   ::= CON ['(' type (',' type)* ')']
    type     ::= TVAR | ID | ID '(' type (',' type)* ')' | CON
               | '(' ')' | '(' type ')' | '(' type (',' type)+ ')'

A body is a run of tokens that closes the brackets it opens (`IsBody`).  The one side condition that
is not part of the trees is that of aliases for bare capitalized names (`AliasesSettled`).
-/

namespace ContractInterface.Grammar

/-! ## Tokens and repetition -/

/-- A token of the given kind. -/
abbrev Lexeme (k : TokenKind) := { t : Token // t.kind = k }

/-- The token of kind `k` with this value at this position. -/
def lexeme (k : TokenKind) (value : String) (pos : Position) : Lexeme k := ⟨⟨k, value, pos⟩, rfl⟩

/-- One or more items with a token of kind `k` between any two. -/
inductive Separated (k : TokenKind) (α : Type) where
  | one (a : α)
  | more (a : α) (sep : Lexeme k) (rest : Separated k α)

namespace Separated

variable {k : TokenKind} {α β : Type}

def tokens (f : α → List Token) : Separated k α → List Token
  | one a => f a
  | more a sep rest => f a ++ sep.val :: rest.tokens f

/-- What the items stand for, in order. -/
def map (f : α → β) : Separated k α → List β
  | one a => [f a]
  | more a _ rest => f a :: rest.map f

end Separated

/-- Something between two parentheses. -/
structure Parens (α : Type) where
  opening : Lexeme .lparen
  inner : α
  closing : Lexeme .rparen

def Parens.tokens {α : Type} (f : α → List Token) (p : Parens α) : List Token :=
  p.opening.val :: (f p.inner ++ [p.closing.val])

/-- The tokens of something that may be left out. -/
def optional {α : Type} (f : α → List Token) : Option α → List Token
  | none => []
  | some a => f a

/-! ## Types -/

mutual

inductive TypeTree where
  | var (v : Lexeme .tvar)
  | named (n : Lexeme .identifier)
  | app (n : Lexeme .identifier) (opening : Lexeme .lparen) (args : TypesTree)
      (closing : Lexeme .rparen)
  | contract (c : Lexeme .con)
  | unit (opening : Lexeme .lparen) (closing : Lexeme .rparen)
  | group (opening : Lexeme .lparen) (inner : TypeTree) (closing : Lexeme .rparen)
  | tuple (opening : Lexeme .lparen) (first : TypeTree) (comma : Lexeme .comma) (rest : TypesTree)
      (closing : Lexeme .rparen)

/-- `type (',' type)*` -/
inductive TypesTree where
  | one (t : TypeTree)
  | more (t : TypeTree) (comma : Lexeme .comma) (rest : TypesTree)

end

mutual

def TypeTree.tokens : TypeTree → List Token
  | .var v => [v.val]
  | .named n => [n.val]
  | .app n opening args closing => n.val :: opening.val :: (args.tokens ++ [closing.val])
  | .contract c => [c.val]
  | .unit opening closing => [opening.val, closing.val]
  | .group opening inner closing => opening.val :: (inner.tokens ++ [closing.val])
  | .tuple opening first comma rest closing =>
    opening.val :: (first.tokens ++ comma.val :: (rest.tokens ++ [closing.val]))

def TypesTree.tokens : TypesTree → List Token
  | .one t => t.tokens
  | .more t comma rest => t.tokens ++ comma.val :: rest.tokens

end

mutual

/-- The type that is derived; parentheses around a single type leave no trace. -/
def TypeTree.ast : TypeTree → TypeExpr
  | .var v => .var v.val.name
  | .named n => .named n.val.name
  | .app n _ args _ => .app (.named n.val.name) args.asts
  | .contract c => .contract c.val.name
  | .unit _ _ => .tuple []
  | .group _ inner _ => inner.ast
  | .tuple _ first _ rest _ => .tuple (first.ast :: rest.asts)

def TypesTree.asts : TypesTree → List TypeExpr
  | .one t => [t.ast]
  | .more t _ rest => t.ast :: rest.asts

end

/-- `[':' type]` -/
abbrev Ascription := Option (Lexeme .colon × TypeTree)

namespace Ascription

def tokens (a : Ascription) : List Token := optional (fun (colon, t) => colon.val :: t.tokens) a

def ast (a : Ascription) : Option TypeExpr := a.map fun p => p.2.ast

end Ascription

/-! ## Type definitions -/

/-- The parameters of a type definition, if it has any. -/
abbrev TypeParamsTree := Option (Parens (Separated .comma (Lexeme .tvar)))

namespace TypeParamsTree

def tokens (ps : TypeParamsTree) : List Token :=
  optional (Parens.tokens (Separated.tokens fun v => [v.val])) ps

def names : TypeParamsTree → List Name
  | none => []
  | some p => p.inner.map fun v => v.val.name

end TypeParamsTree

structure HeadTree where
  name : Lexeme .identifier
  params : TypeParamsTree
  eq : Lexeme .eq

namespace HeadTree

def tokens (h : HeadTree) : List Token :=
  h.name.val :: (h.params.tokens ++ [h.eq.val])

/-- The name and parameters that are declared. -/
def ast (h : HeadTree) : Name × List Name := (h.name.val.name, h.params.names)

end HeadTree

structure FieldTree where
  label : Lexeme .identifier
  colon : Lexeme .colon
  type : TypeTree

namespace FieldTree

def tokens (f : FieldTree) : List Token := f.label.val :: f.colon.val :: f.type.tokens

def ast (f : FieldTree) : TypeExpr :=
  .field (.named f.label.val.name) f.type.ast (some f.label.val.pos)

end FieldTree

structure ConstrTree where
  tag : Lexeme .con
  args : Option (Parens TypesTree)

namespace ConstrTree

def tokens (c : ConstrTree) : List Token :=
  c.tag.val :: optional (Parens.tokens TypesTree.tokens) c.args

def ast (c : ConstrTree) : TypeExpr :=
  .constr (.contract c.tag.val.name) (match c.args with | none => [] | some p => p.inner.asts)
    (some c.tag.val.pos)

end ConstrTree

/-! ## Functions -/

/-- Brackets that a run of tokens opens, less those that it closes; the three kinds count alike. -/
def depth (w : List Token) : Int :=
  (w.countP fun t => t.kind.isOpener : Nat) - (w.countP fun t => t.kind.isCloser : Nat)

/-- A function body: it closes no bracket that it has not opened and leaves none open, and no
declaration or contract starts in it outside of brackets. -/
structure IsBody (w : List Token) : Prop where
  ne_nil : w ≠ []
  depth_nonneg : ∀ u, u <+: w → 0 ≤ depth u
  depth_eq_zero : depth w = 0
  no_start : ∀ u t, u ++ [t] <+: w → depth u = 0 → t.kind.startsDecl = false ∧ t.kind ≠ .kwContract
  /-- the end mark is no part of a body -/
  no_finish : ∀ t ∈ w, t.kind ≠ .finish

structure ArgTree where
  name : Lexeme .identifier
  type : Ascription

namespace ArgTree

def tokens (a : ArgTree) : List Token := a.name.val :: a.type.tokens

def ast (a : ArgTree) : Param := ⟨.named a.name.val.name, a.type.ast, some a.name.val.pos⟩

end ArgTree

/-- The arguments of a function between their parentheses. -/
abbrev ArgsTree := Parens (Option (Separated .comma ArgTree))

namespace ArgsTree

def tokens (as : ArgsTree) : List Token :=
  Parens.tokens (optional (Separated.tokens ArgTree.tokens)) as

def params (as : ArgsTree) : List Param :=
  match as.inner with
  | none => []
  | some args => args.map ArgTree.ast

end ArgsTree

structure FunctionTree where
  modifiers : List { t : Token // t.kind.isModifier = true }
  keyword : Lexeme .kwFunction
  name : Lexeme .identifier
  args : ArgsTree
  result : Ascription
  eq : Lexeme .eq
  body : { w : List Token // IsBody w }

namespace FunctionTree

/-- The tokens behind the keyword. -/
def restTokens (f : FunctionTree) : List Token :=
  f.name.val :: (f.args.tokens ++ (f.result.tokens ++ f.eq.val :: f.body.val))

def tokens (f : FunctionTree) : List Token :=
  f.modifiers.map Subtype.val ++ f.keyword.val :: f.restTokens

/-- A modifier of this kind is there. -/
def has (f : FunctionTree) (k : TokenKind) : Bool := f.modifiers.any fun m => m.val.kind == k

/-- A function stands where its first modifier does, or its keyword. -/
def pos (f : FunctionTree) : Position :=
  match f.modifiers with
  | [] => f.keyword.val.pos
  | m :: _ => m.val.pos

def ast (f : FunctionTree) : FunctionDef :=
  ⟨f.name.val.name, f.args.params, f.result.ast, f.body.val, f.has .kwPrivate, f.has .kwStateful,
    some f.pos⟩

end FunctionTree

/-! ## Declarations, contracts and units -/

inductive DeclTree where
  | synonym (keyword : Lexeme .kwType) (head : HeadTree) (type : TypeTree)
  | record (keyword : Lexeme .kwRecord) (head : HeadTree) (opening : Lexeme .lbrace)
      (fields : Separated .comma FieldTree) (closing : Lexeme .rbrace)
  | datatype (keyword : Lexeme .kwDatatype) (head : HeadTree)
      (constructors : Separated .bar ConstrTree)
  | function (f : FunctionTree)

namespace DeclTree

def tokens : DeclTree → List Token
  | synonym keyword head type => keyword.val :: (head.tokens ++ type.tokens)
  | record keyword head opening fields closing =>
    keyword.val :: (head.tokens ++ opening.val :: (fields.tokens FieldTree.tokens ++ [closing.val]))
  | datatype keyword head constructors =>
    keyword.val :: (head.tokens ++ constructors.tokens ConstrTree.tokens)
  | function f => f.tokens

def ast : DeclTree → Decl
  | synonym keyword head type =>
    .typeDef ⟨head.ast.1, head.ast.2, .synonym type.ast, some keyword.val.pos⟩
  | record keyword head _ fields _ =>
    .typeDef ⟨head.ast.1, head.ast.2, .record (fields.map FieldTree.ast),
      some keyword.val.pos⟩
  | datatype keyword head constructors =>
    .typeDef ⟨head.ast.1, head.ast.2, .variant (constructors.map ConstrTree.ast),
      some keyword.val.pos⟩
  | function f => .function f.ast

end DeclTree

structure ContractTree where
  keyword : Lexeme .kwContract
  name : Lexeme .con
  eq : Lexeme .eq
  decls : List DeclTree

namespace ContractTree

def tokens (c : ContractTree) : List Token :=
  c.keyword.val :: c.name.val :: c.eq.val :: c.decls.flatMap DeclTree.tokens

def ast (c : ContractTree) : Contract :=
  ⟨c.name.val.name, c.decls.map DeclTree.ast, some c.keyword.val.pos⟩

end ContractTree

/-- One or more contracts. -/
abbrev UnitTree := { cs : List ContractTree // cs ≠ [] }

namespace UnitTree

def tokens (u : UnitTree) : List Token := u.val.flatMap ContractTree.tokens

def ast (u : UnitTree) : List Contract := u.val.map ContractTree.ast

end UnitTree

/-! ## Aliases -/

/-- An alias for a bare capitalized name is for one of the names. -/
def AliasAmong (names : List String) (d : TypeDef) : Prop :=
  ∀ n, d.body = .synonym (.contract n) → n.text ∈ names

/-- Every alias of the unit for a bare capitalized name is for a contract that was completed
earlier. -/
def AliasesSettled (cs : List Contract) : Prop :=
  ∀ before c after, cs = before ++ c :: after → ∀ d ∈ c.typeDefs,
    AliasAmong (before.map fun k => k.name.text) d

end ContractInterface.Grammar
