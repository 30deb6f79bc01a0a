import ContractInterface.Json.Value
import ContractInterface.Text.Quoted

/-!
# Writing JSON

Compact text, or one item a line.  Characters beyond ASCII are written as they are; quotes,
backslashes and control characters below the space are escaped.  A repeated key of a sequence of
pairs is written once, in its first place with its last value.

`Value.write` gives a text for every indent.  What is laid out has to be a machine integer
(`indentFault?`), and `Value.writeWithin` keeps to that; memory is taken to suffice.
-/

namespace ContractInterface.Json

/-- How the items of a list or mapping are laid out. -/
inductive Layout where
  | compact
  /-- every item on its own line, each level indented by `width` -/
  | lines (width : Nat)
deriving DecidableEq, Repr

/-- No indent and zero mean compact text; below zero, lines are not indented. -/
def Layout.ofIndent : Option Int → Layout
  | none => compact
  | some n => if n = 0 then compact else lines n.toNat

/-! ## Indents -/

/-- Why no text can be laid out with an indent. -/
inductive IndentFault where
  /-- the indent is no machine integer -/
  | notAnIndex
deriving DecidableEq, Repr

def IndentFault.message : IndentFault → String
  | notAnIndex => "cannot fit 'int' into an index-sized integer"

/-- Machine integers have 64 bits. -/
def isIndex (n : Int) : Bool :=
  decide (-0x8000000000000000 ≤ n) && decide (n < 0x8000000000000000)

/-- What is wrong with an indent, if anything is. -/
def indentFault? : Option Int → Option IndentFault
  | none => none
  | some n => if isIndex n then none else some .notAnIndex

theorem indentFault?_eq_none_iff (n : Int) :
    indentFault? (some n) = none ↔ -0x8000000000000000 ≤ n ∧ n < 0x8000000000000000 := by
  simp [indentFault?, isIndex]

/-! ## Layouts -/

/-- What stands in front of an item at the given level. -/
def Layout.newline (layout : Layout) (level : Nat) : List Char :=
  match layout with
  | compact => []
  | lines width => '\n' :: List.replicate (width * level) ' '

def Layout.colon : Layout → List Char
  | compact => [':']
  | lines _ => [':', ' ']

/-- One character inside a JSON string. -/
def escapeChar (c : Char) : List Char :=
  match c with
  | '"' => ['\\', '"']
  | '\\' => ['\\', '\\']
  | '\n' => ['\\', 'n']
  | '\r' => ['\\', 'r']
  | '\t' => ['\\', 't']
  | '\x08' => ['\\', 'b']
  | '\x0c' => ['\\', 'f']
  | c => if c.toNat < 0x20 then '\\' :: 'u' :: Text.hexDigits 4 c.toNat else [c]

def writeString (s : String) : List Char := '"' :: (s.toList.flatMap escapeChar ++ ['"'])

/-- The items between two brackets at the given level. -/
def bracketed (layout : Layout) (level : Nat) (opening closing : Char) :
    List (List Char) → List Char
  | [] => [opening, closing]
  | item :: items =>
    opening :: (layout.newline (level + 1) ++ item ++
      items.flatMap (fun i => ',' :: (layout.newline (level + 1) ++ i)) ++
      layout.newline level ++ [closing])

/-- A written value with its key. -/
def writeEntry (layout : Layout) (e : String × List Char) : List Char :=
  writeString e.1 ++ layout.colon ++ e.2

namespace Value

mutual

/-- The text of a value at the given level. -/
def writeAt (layout : Layout) (level : Nat) : Value → List Char
  | null => ['n', 'u', 'l', 'l']
  | bool true => ['t', 'r', 'u', 'e']
  | bool false => ['f', 'a', 'l', 's', 'e']
  | int n => (Decimal.intText n).toList
  | double d => (d.textWith "Infinity" "NaN").toList
  | text s => writeString s
  | list items | tuple items =>
    bracketed layout level '[' ']' (writeAll layout (level + 1) items)
  | keyed entries | ordered entries =>
    bracketed layout level '\x7b' '\x7d'
      ((Entries.ofPairs (writePairs layout (level + 1) entries)).map (writeEntry layout))

def writeAll (layout : Layout) (level : Nat) : List Value → List (List Char)
  | [] => []
  | v :: vs => v.writeAt layout level :: writeAll layout level vs

def writePairs (layout : Layout) (level : Nat) :
    List (String × Value) → List (String × List Char)
  | [] => []
  | (k, v) :: r => (k, v.writeAt layout level) :: writePairs layout level r

end

/-- The JSON text of a value. -/
def write (v : Value) (indent : Option Int) : String :=
  String.ofList (v.writeAt (.ofIndent indent) 0)

/-- The JSON text of a value, unless the indent is no machine integer; a plain text is not
indented. -/
def writeWithin (v : Value) (indent : Option Int) : Except IndentFault String :=
  match v, indentFault? indent with
  | text _, _ | _, none => .ok (v.write indent)
  | _, some f => .error f

end Value

end ContractInterface.Json
