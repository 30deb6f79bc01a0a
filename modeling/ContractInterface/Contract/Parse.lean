import ContractInterface.Token.Scan

/-!
# From tokens to contracts

A `Reader` takes what it needs from the front of a token list and hands on the rest, which is never
longer.  The grammar, with the end of the list marked by a token of its own:

    unit     ::= contract+
    contract ::= 'contract' CON '=' decl*
    decl     ::= 'type' head type
               | 'record' head '{' field (',' field)* '}'
               | 'datatype' head constr ('|' constr)*
               | modifier* 'function' IDENT '(' [arg (',' arg)*] ')' [':' type] '=' body
    head     ::= IDENT ['(' TVAR (',' TVAR)* ')'] '='
    field    ::= IDENT ':' type
    constr   ::= CON ['(' types ')']
    arg      ::= IDENT [':' type]
    type     ::= TVAR | CON | IDENT ['(' types ')'] | '(' [types] ')'
    types    ::= type (',' type)*

A single type in parentheses is that type itself.  A body is a non-empty run of tokens whose
brackets match in number; it ends at the next declaration or contract outside of brackets.  An alias
whose type is a bare capitalized name could also be a datatype with one constructor; only a contract
of that name completed earlier in the unit settles the reading.

Reading stops at the first problem, at the token that shows it.
-/

namespace ContractInterface

/-- A value read from the front of `ts`, and the tokens behind it. -/
structure Read (α : Type) (ts : List Token) where
  value : α
  rest : List Token
  le : rest.length ≤ ts.length

abbrev Reader (α : Type) := (ts : List Token) → Except Failure (Read α ts)

namespace Reader

variable {α β : Type}

def pure (a : α) : Reader α := fun ts => .ok ⟨a, ts, Nat.le_refl _⟩

/-- Read on behind what has been read. -/
def andThen {ts : List Token} (r : Except Failure (Read α ts)) (f : α → Reader β) :
    Except Failure (Read β ts) :=
  match r with
  | .error e => .error e
  | .ok ⟨a, us, h⟩ =>
    match f a us with
    | .error e => .error e
    | .ok ⟨b, vs, h'⟩ => .ok ⟨b, vs, Nat.le_trans h' h⟩

def bind (p : Reader α) (f : α → Reader β) : Reader β := fun ts => andThen (p ts) f

instance : Monad Reader where
  pure := pure
  bind := bind

/-- The next token; a list without an end mark ends nowhere. -/
def head (ts : List Token) : Token := ts.headD ⟨.finish, "", .unknown⟩

/-- The next token, left in its place. -/
def peek : Reader Token := fun ts => .ok ⟨head ts, ts, Nat.le_refl _⟩

/-- Stop at the next token. -/
def fail (cause : Cause) : Reader α := fun ts => .error ⟨(head ts).pos, cause⟩

/-- Stop because the next token is not the one that is wanted. -/
def unexpected (wanted : Wanted) : Reader α := fun ts => fail (.unexpected (head ts) wanted) ts

/-- Take a token of the given kind. -/
def expect (kind : TokenKind) : Reader Token
  | [] => unexpected (.token kind) []
  | t :: us =>
    if t.kind = kind then .ok ⟨t, us, Nat.le_succ _⟩ else unexpected (.token kind) (t :: us)

/-- Take a token of the given kind if there is one. -/
def accept (kind : TokenKind) : Reader Bool
  | [] => .ok ⟨false, [], Nat.le_refl _⟩
  | t :: us =>
    if t.kind = kind then .ok ⟨true, us, Nat.le_succ _⟩ else .ok ⟨false, t :: us, Nat.le_refl _⟩

/-- Items with a token of the given kind between any two. -/
def sepBy (kind : TokenKind) (item : Reader α) (ts : List Token) :
    Except Failure (Read (List α) ts) :=
  match item ts with
  | .error e => .error e
  | .ok ⟨a, [], h⟩ => .ok ⟨[a], [], h⟩
  | .ok ⟨a, t :: us, h⟩ =>
    if t.kind = kind then
      match sepBy kind item us with
      | .error e => .error e
      | .ok ⟨as, vs, h'⟩ => .ok ⟨a :: as, vs, by simp at h; omega⟩
    else .ok ⟨[a], t :: us, h⟩
termination_by ts.length
decreasing_by simp at h; omega

/-- Go on with `rest` behind the first token. -/
def behind {t : Token} {us : List Token} : Except Failure (Read α us) →
    Except Failure (Read α (t :: us))
  | .error e => .error e
  | .ok ⟨a, vs, h⟩ => .ok ⟨a, vs, Nat.le_succ_of_le h⟩

end Reader

open Reader

/-- The name that a token writes. -/
def Token.name (t : Token) : Name := ⟨t.value, some t.pos⟩

namespace Contract.Parse

/-! ## Types -/

/-- A parenthesised type is no argument of a function type. -/
def closed (type : TypeExpr) : Reader TypeExpr := do
  if (← peek).kind = .arrow then fail .functionType else return type

/-- What stands for the types between two parentheses. -/
def grouped : List TypeExpr → TypeExpr
  | [t] => t
  | ts => .tuple ts

mutual

def typeExpr (ts : List Token) : Except Failure (Read TypeExpr ts) :=
  match ts with
  | [] => unexpected .type []
  | t :: us =>
    match t.kind with
    | .tvar => .ok ⟨.var t.name, us, Nat.le_succ _⟩
    | .con => .ok ⟨.contract t.name, us, Nat.le_succ _⟩
    | .identifier =>
      match us with
      | [] => .ok ⟨.named t.name, [], Nat.zero_le _⟩
      | u :: vs =>
        if u.kind = .lparen then
          behind (behind (andThen (types vs) fun args => do
            let _ ← expect .rparen
            return .app (.named t.name) args))
        else .ok ⟨.named t.name, u :: vs, Nat.le_succ _⟩
    | .lparen =>
      if (head us).kind = .rparen then
        behind (andThen (expect .rparen us) fun _ => closed (.tuple []))
      else
        behind (andThen (types us) fun args => do
          let _ ← expect .rparen
          closed (grouped args))
    | _ => unexpected .type (t :: us)
termination_by (ts.length, 0)

/-- One or more types with commas between them. -/
def types (ts : List Token) : Except Failure (Read (List TypeExpr) ts) :=
  match typeExpr ts with
  | .error e => .error e
  | .ok ⟨a, [], h⟩ => .ok ⟨[a], [], h⟩
  | .ok ⟨a, t :: us, h⟩ =>
    if t.kind = .comma then
      match types us with
      | .error e => .error e
      | .ok ⟨as, vs, h'⟩ => .ok ⟨a :: as, vs, by simp at h; omega⟩
    else .ok ⟨[a], t :: us, h⟩
termination_by (ts.length, 1)
decreasing_by
  · exact Prod.Lex.right _ (by decide)
  · exact Prod.Lex.left _ _ (by simp at h; omega)

end

/-- The types between two parentheses, at least one. -/
def typeArgs : Reader (List TypeExpr) := do
  let _ ← expect .lparen
  let args ← types
  let _ ← expect .rparen
  return args

/-! ## Type definitions -/

def typeParams : Reader (List Name) := do
  if ← accept .lparen then
    let vars ← sepBy .comma (Token.name <$> expect .tvar)
    let _ ← expect .rparen
    return vars
  else return []

/-- The name and parameters in front of the body of a type definition. -/
def typeHead : Reader (Name × List Name) := do
  let name ← expect .identifier
  let vars ← typeParams
  let _ ← expect .eq
  return (name.name, vars)

/-- The two readings of an alias for a bare capitalized name. -/
def aliasReadings (name : Name) (vars : List Name) (con : Name) (pos : Position) : List Reading :=
  [.definition ⟨name, vars, .synonym (.contract con), some pos⟩,
   .definition ⟨name, vars, .variant [.constr (.contract con) [] con.pos], some pos⟩]

/-- The rest of a definition behind the keyword `type` at `pos`. -/
def aliasDef (known : List String) (pos : Position) : Reader TypeDef := do
  let (name, vars) ← typeHead
  let first ← peek
  let type ← typeExpr
  match type with
  | .contract con =>
    if known.contains con.text then return ⟨name, vars, .synonym type, some pos⟩
    else fun _ => .error ⟨first.pos, .ambiguous (aliasReadings name vars con pos)⟩
  | _ => return ⟨name, vars, .synonym type, some pos⟩

def recordField : Reader TypeExpr := do
  let name ← expect .identifier
  let _ ← expect .colon
  let type ← typeExpr
  return .field (.named name.name) type (some name.pos)

/-- The rest of a definition behind the keyword `record` at `pos`. -/
def recordDef (pos : Position) : Reader TypeDef := do
  let (name, vars) ← typeHead
  let _ ← expect .lbrace
  let fields ← sepBy .comma recordField
  let _ ← expect .rbrace
  return ⟨name, vars, .record fields, some pos⟩

def constructor : Reader TypeExpr := do
  let tag ← expect .con
  let args ← if (← peek).kind = .lparen then typeArgs else Pure.pure []
  return .constr (.contract tag.name) args (some tag.pos)

/-- The rest of a definition behind the keyword `datatype` at `pos`. -/
def datatypeDef (pos : Position) : Reader TypeDef := do
  let (name, vars) ← typeHead
  let constructors ← sepBy .bar constructor
  return ⟨name, vars, .variant constructors, some pos⟩

/-! ## Functions -/

def param : Reader Param := do
  let name ← expect .identifier
  let type ← if ← accept .colon then some <$> (typeExpr : Reader TypeExpr) else Pure.pure none
  return ⟨.named name.name, type, some name.pos⟩

def params : Reader (List Param) := do
  let _ ← expect .lparen
  if ← accept .rparen then return []
  let ps ← sepBy .comma param
  let _ ← expect .rparen
  return ps

/-- The number of tokens of a function body inside `depth` open brackets. -/
def bodyLength : Nat → List Token → Except Failure Nat
  | depth, [] => if depth = 0 then .ok 0 else .error ⟨(head []).pos, .unclosed⟩
  | depth, t :: ts =>
    if t.kind = .finish then
      if depth = 0 then .ok 0 else .error ⟨t.pos, .unclosed⟩
    else if depth = 0 && (t.kind.startsDecl || t.kind = .kwContract) then .ok 0
    else if t.kind.isOpener then (bodyLength (depth + 1) ts).map (· + 1)
    else if t.kind.isCloser then
      match depth with
      | 0 => .error ⟨t.pos, .unbalanced t⟩
      | d + 1 => (bodyLength d ts).map (· + 1)
    else (bodyLength depth ts).map (· + 1)

def body : Reader (List Token) := fun ts =>
  match bodyLength 0 ts with
  | .error e => .error e
  | .ok 0 => unexpected .functionBody ts
  | .ok n => .ok ⟨ts.take n, ts.drop n, by simp⟩

/-- The modifiers in front of the keyword `function`. -/
def modifiers : Reader (List TokenKind) := fun ts =>
  let ms := ts.takeWhile fun t => t.kind.isModifier
  .ok ⟨ms.map Token.kind, ts.drop ms.length, by simp⟩

/-- The rest of a function behind the keyword. -/
def functionRest (pos : Position) (ms : List TokenKind) : Reader FunctionDef := do
  let name ← expect .identifier
  let ps ← params
  let result ← if ← accept .colon then some <$> (typeExpr : Reader TypeExpr) else Pure.pure none
  let _ ← expect .eq
  let tokens ← body
  return ⟨name.name, ps, result, tokens, ms.contains .kwPrivate, ms.contains .kwStateful, some pos⟩

/-- The rest of a function behind its first token `t`, a modifier or the keyword. -/
def functionDef (t : Token) : Reader FunctionDef :=
  if t.kind = .kwFunction then functionRest t.pos []
  else do
    let ms ← modifiers
    let _ ← expect .kwFunction
    functionRest t.pos (t.kind :: ms)

/-! ## Declarations and contracts -/

/-- The rest of a declaration behind its first token `t`.  The contracts of the names `known` are
complete. -/
def decl (known : List String) (t : Token) : Reader Decl :=
  match t.kind with
  | .kwType => Decl.typeDef <$> aliasDef known t.pos
  | .kwRecord => Decl.typeDef <$> recordDef t.pos
  | .kwDatatype => Decl.typeDef <$> datatypeDef t.pos
  | _ => Decl.function <$> functionDef t

def decls (known : List String) (ts : List Token) : Except Failure (Read (List Decl) ts) :=
  match ts with
  | [] => .ok ⟨[], [], Nat.le_refl _⟩
  | t :: us =>
    if t.kind.startsDecl then
      match decl known t us with
      | .error e => .error e
      | .ok ⟨d, vs, h⟩ =>
        match decls known vs with
        | .error e => .error e
        | .ok ⟨ds, ws, h'⟩ => .ok ⟨d :: ds, ws, by simp; omega⟩
    else .ok ⟨[], t :: us, Nat.le_refl _⟩
termination_by ts.length
decreasing_by simp; omega

/-- The rest of a contract behind the keyword at `pos`. -/
def contract (known : List String) (pos : Position) : Reader Contract := do
  let name ← expect .con
  let _ ← expect .eq
  let ds ← decls known
  let next ← peek
  if next.kind = .kwContract || next.kind = .finish then
    return ⟨name.name, ds, some pos⟩
  else unexpected .declaration

/-- One contract after the other up to the end. -/
def contracts (known : List String) (ts : List Token) : Except Failure (List Contract) :=
  match ts with
  | [] => .error ⟨(head []).pos, .unexpected (head []) (.token .kwContract)⟩
  | t :: us =>
    if t.kind = .kwContract then
      match contract known t.pos us with
      | .error e => .error e
      | .ok ⟨c, vs, _⟩ =>
        if (head vs).kind = .finish then .ok [c]
        else
          match contracts (c.name.text :: known) vs with
          | .error e => .error e
          | .ok cs => .ok (c :: cs)
    else .error ⟨t.pos, .unexpected t (.token .kwContract)⟩
termination_by ts.length
decreasing_by simp; omega

end Contract.Parse

/-- The contracts that a token list spells; the list ends with its only token of kind `finish`. -/
def Contract.ofTokens (ts : List Token) : Except Failure (List Contract) :=
  Contract.Parse.contracts [] ts

/-- The contracts that a source spells. -/
def Contract.ofSource (source : String) : Except Failure (List Contract) :=
  match Token.scan source with
  | .error f => .error f
  | .ok ts => Contract.ofTokens ts

end ContractInterface
