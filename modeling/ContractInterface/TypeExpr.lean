import ContractInterface.Decimal.Double
import ContractInterface.Position
import ContractInterface.Text.Quoted

/-!
# Type expressions

Everything that may stand where a type is written, including the bodies of type definitions:
records with their fields, variants with their constructors, aliases.  `foreign` holds whatever a
hand-made unit puts in such a place although it is no type expression; only its kind, the names of its
parts and its display are kept (`ofFlag`, `ofInt`, `ofNode` and so on).

`text` is the canonical text used by interface descriptions: `,` joins the parts of tuples, records
and applied types, `, ` the arguments of a constructor, ` | ` the constructors of a variant.
`display` is the structural form used in messages.  Neither looks at positions.
-/

namespace ContractInterface

/-- An identifier, capitalized name or type variable where it was written. -/
structure Name where
  text : String
  pos : Option Position
deriving DecidableEq, Repr

inductive TypeExpr where
  /-- a type variable -/
  | var (name : Name)
  /-- a builtin or declared type without arguments -/
  | named (name : Name)
  /-- the type of a contract -/
  | contract (name : Name)
  /-- a named type with arguments -/
  | app (head : TypeExpr) (args : List TypeExpr)
  /-- a tuple; the empty one is the unit type -/
  | tuple (parts : List TypeExpr)
  | record (fields : List TypeExpr)
  /-- a field of a record -/
  | field (label type : TypeExpr) (pos : Option Position)
  | variant (constructors : List TypeExpr)
  /-- a constructor of a variant -/
  | constr (tag : TypeExpr) (args : List TypeExpr) (pos : Option Position)
  /-- the body of a plain type definition -/
  | synonym (type : TypeExpr)
  /-- no type expression, but something of another kind -/
  | foreign (kind : String) (parts : List String) (shown : String)
deriving Repr

/-- Displays in parentheses; a single one keeps its comma, `(a,)`. -/
def displayTuple : List String → String
  | [a] => "(" ++ a ++ ",)"
  | as => "(" ++ ", ".intercalate as ++ ")"

/-- The structural form of a node, `kind(part=display, part=display)`. -/
def displayNode (kind : String) (parts : List (String × String)) : String :=
  kind ++ "(" ++ ", ".intercalate (parts.map fun p => p.1 ++ "=" ++ p.2) ++ ")"

/-- The structural form of a name, `kind(name='x')`. -/
def Name.display (kind : String) (n : Name) : String :=
  displayNode kind [("name", Text.quote n.text)]

namespace TypeExpr

/-- The name that a variable, a plain type or a contract type consists of. -/
def name? : TypeExpr → Option Name
  | var n | named n | contract n => some n
  | _ => none

mutual

/-- The canonical text; what is no type expression has none. -/
def text : TypeExpr → String
  | var n | named n | contract n => n.text
  | app head args => head.text ++ "(" ++ ",".intercalate (texts args) ++ ")"
  | tuple parts => "(" ++ ",".intercalate (texts parts) ++ ")"
  | record fields => "\x7b" ++ ",".intercalate (texts fields) ++ "\x7d"
  | field label type _ => label.text ++ " : " ++ type.text
  | variant constructors => " | ".intercalate (texts constructors)
  | constr tag args _ => tag.text ++ "(" ++ ", ".intercalate (texts args) ++ ")"
  | synonym type => type.text
  | foreign .. => ""

def texts : List TypeExpr → List String
  | [] => []
  | t :: ts => t.text :: texts ts

end

mutual

/-- The structural form, without positions. -/
def display : TypeExpr → String
  | var n => n.display "TVar"
  | named n => n.display "Id"
  | contract n => n.display "Con"
  | app head args =>
    displayNode "AppT" [("id", head.display), ("fields", displayTuple (displays args))]
  | tuple parts => displayNode "TupleT" [("args", displayTuple (displays parts))]
  | record fields => displayNode "RecordT" [("fields", displayTuple (displays fields))]
  | field label type _ => displayNode "FieldT" [("id", label.display), ("type", type.display)]
  | variant constructors => displayNode "VariantT" [("cons", displayTuple (displays constructors))]
  | constr tag args _ =>
    displayNode "ConstrT" [("con", tag.display), ("args", displayTuple (displays args))]
  | synonym type => displayNode "AliasT" [("type", type.display)]
  | foreign _ _ shown => shown

def displays : List TypeExpr → List String
  | [] => []
  | t :: ts => t.display :: displays ts

end

/-- What kind of node or value it is. -/
def kind : TypeExpr → String
  | var _ => "TVar"
  | named _ => "Id"
  | contract _ => "Con"
  | app .. => "AppT"
  | tuple _ => "TupleT"
  | record _ => "RecordT"
  | field .. => "FieldT"
  | variant _ => "VariantT"
  | constr .. => "ConstrT"
  | synonym _ => "AliasT"
  | foreign kind _ _ => kind

/-! ### What is no type expression -/

/-- Nothing at all. -/
def absent : TypeExpr := foreign "NoneType" [] "None"

def ofFlag (b : Bool) : TypeExpr := foreign "bool" [] (if b then "True" else "False")

def ofInt (n : Int) : TypeExpr := foreign "int" [] (Decimal.intText n)

def ofDouble (d : Double) : TypeExpr := foreign "float" [] d.text

def ofText (s : String) : TypeExpr := foreign "str" [] (Text.quote s)

/-- A bare sequence of nodes. -/
def ofSequence (nodes : List TypeExpr) : TypeExpr :=
  foreign "tuple" [] (displayTuple (displays nodes))

/-- A node of another kind, such as a whole declaration. -/
def ofNode (kind : String) (parts : List (String × TypeExpr)) : TypeExpr :=
  foreign kind (parts.map Prod.fst) (displayNode kind (parts.map fun p => (p.1, p.2.display)))

mutual

/-- The display of the first foreign part from left to right. -/
def firstForeign : TypeExpr → Option String
  | var _ | named _ | contract _ => none
  | app head args => head.firstForeign.or (firstForeignOf args)
  | tuple parts => firstForeignOf parts
  | record fields => firstForeignOf fields
  | field label type _ => label.firstForeign.or type.firstForeign
  | variant constructors => firstForeignOf constructors
  | constr tag args _ => tag.firstForeign.or (firstForeignOf args)
  | synonym type => type.firstForeign
  | foreign _ _ shown => some shown

def firstForeignOf : List TypeExpr → Option String
  | [] => none
  | t :: ts => t.firstForeign.or (firstForeignOf ts)

end

/-- The text of a type expression, or the display of the first part that is none. -/
def render (t : TypeExpr) : Except String String :=
  match t.firstForeign with
  | some shown => .error shown
  | none => .ok t.text

mutual

/-- The same expression with all positions forgotten. -/
def bare : TypeExpr → TypeExpr
  | var n => var ⟨n.text, none⟩
  | named n => named ⟨n.text, none⟩
  | contract n => contract ⟨n.text, none⟩
  | app head args => app head.bare (bares args)
  | tuple parts => tuple (bares parts)
  | record fields => record (bares fields)
  | field label type _ => field label.bare type.bare none
  | variant constructors => variant (bares constructors)
  | constr tag args _ => constr tag.bare (bares args) none
  | synonym type => synonym type.bare
  | foreign kind parts shown => foreign kind parts shown

def bares : List TypeExpr → List TypeExpr
  | [] => []
  | t :: ts => t.bare :: bares ts

end

mutual

/-- The same type expression, wherever the two were written. -/
def same : TypeExpr → TypeExpr → Bool
  | var m, var n | named m, named n | contract m, contract n => m.text == n.text
  | app h as, app k bs => h.same k && sames as bs
  | tuple as, tuple bs | record as, record bs | variant as, variant bs => sames as bs
  | field l t _, field m u _ => l.same m && t.same u
  | constr h as _, constr k bs _ => h.same k && sames as bs
  | synonym t, synonym u => t.same u
  | foreign k ps s, foreign l qs t => k == l && (ps == qs && s == t)
  | _, _ => false

def sames : List TypeExpr → List TypeExpr → Bool
  | [], [] => true
  | a :: as, b :: bs => a.same b && sames as bs
  | _, _ => false

end

mutual

theorem same_iff (a b : TypeExpr) : a.same b = true ↔ a.bare = b.bare := by
  cases a <;> cases b <;>
    simp [same, bare, same_iff, sames_iff]

theorem sames_iff (as bs : List TypeExpr) : sames as bs = true ↔ bares as = bares bs := by
  cases as <;> cases bs <;> simp [sames, bares, same_iff, sames_iff]

end

theorem texts_eq_map (ts : List TypeExpr) : texts ts = ts.map text := by
  induction ts with
  | nil => rfl
  | cons t ts ih => simp [texts, ih]

theorem text_named (n : Name) : (named n).text = n.text := rfl

theorem text_contract (n : Name) : (contract n).text = n.text := rfl

theorem text_app (head : TypeExpr) (args : List TypeExpr) : (app head args).text =
    head.text ++ "(" ++ ",".intercalate (args.map text) ++ ")" := by
  rw [← texts_eq_map]
  rfl

theorem text_tuple (parts : List TypeExpr) : (tuple parts).text =
    "(" ++ ",".intercalate (parts.map text) ++ ")" := by
  rw [← texts_eq_map]
  rfl

theorem text_record (fields : List TypeExpr) : (record fields).text =
    "\x7b" ++ ",".intercalate (fields.map text) ++ "\x7d" := by
  rw [← texts_eq_map]
  rfl

theorem text_field (label type : TypeExpr) (pos : Option Position) :
    (field label type pos).text = label.text ++ " : " ++ type.text := rfl

theorem text_variant (constructors : List TypeExpr) : (variant constructors).text =
    " | ".intercalate (constructors.map text) := by
  rw [← texts_eq_map]
  rfl

theorem text_constr (tag : TypeExpr) (args : List TypeExpr) (pos : Option Position) :
    (constr tag args pos).text = tag.text ++ "(" ++ ", ".intercalate (args.map text) ++ ")" := by
  rw [← texts_eq_map]
  rfl

theorem text_synonym (type : TypeExpr) : (synonym type).text = type.text := rfl

theorem bares_eq_map (ts : List TypeExpr) : bares ts = ts.map bare := by
  induction ts with
  | nil => rfl
  | cons t ts ih => simp [bares, ih]

end TypeExpr

end ContractInterface
