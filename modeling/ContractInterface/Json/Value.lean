import ContractInterface.Decimal.Double

/-!
# Structured values

The values that interface descriptions are made of.  `keyed` is a mapping in which every key occurs
once; `ordered` is a mapping written down as a sequence of pairs, in which a key may be repeated.

`Value.plain` turns sequences of pairs into mappings and tuples into lists.  A repeated key keeps
its first place and takes its last value (`Entries.ofPairs`); looking a key up in a sequence of
pairs finds its first value.
-/

namespace ContractInterface.Json

inductive Value where
  | null
  | bool (b : Bool)
  | int (n : Int)
  | double (d : Double)
  | text (s : String)
  | list (items : List Value)
  | tuple (items : List Value)
  | keyed (entries : List (String × Value))
  | ordered (pairs : List (String × Value))
deriving Repr

namespace Entries

variable {α : Type}

/-- Set a key: in its place if it is there, otherwise at the end. -/
def put (k : String) (v : α) : List (String × α) → List (String × α)
  | [] => [(k, v)]
  | e :: r => if e.1 = k then (k, v) :: r else e :: put k v r

/-- The mapping that results from setting one key after the other. -/
def ofPairs (pairs : List (String × α)) : List (String × α) :=
  pairs.foldl (fun m e => put e.1 e.2 m) []

theorem keys_put (k : String) (v : α) (m : List (String × α)) :
    (put k v m).map Prod.fst = if k ∈ m.map Prod.fst then m.map Prod.fst
      else m.map Prod.fst ++ [k] := by
  induction m with
  | nil => simp [put]
  | cons e r ih =>
    unfold put
    split
    · next h => simp [h]
    · next h =>
      simp only [List.map_cons, ih, List.mem_cons, Ne.symm h, false_or]
      split <;> simp

theorem lookup_put (k k' : String) (v : α) (m : List (String × α)) :
    (put k v m).lookup k' = if k' = k then some v else m.lookup k' := by
  have miss {x y : String} (h : ¬x = y) : (x == y) = false := by simpa using h
  induction m with
  | nil =>
    by_cases h : k' = k
    · simp [put, h]
    · simp [put, List.lookup_cons, h, miss h]
  | cons e r ih =>
    obtain ⟨a, b⟩ := e
    by_cases ha : a = k
    · subst ha
      by_cases h : k' = a
      · simp [put, h]
      · simp [put, List.lookup_cons, h, miss h]
    · by_cases h : k' = a
      · subst h
        simp [put, ha]
      · simp [put, List.lookup_cons, ha, miss h, ih]

end Entries

namespace Value

/-- The name of the kind of value in messages. -/
def kindName : Value → String
  | null => "NoneType"
  | bool _ => "bool"
  | int _ => "int"
  | double _ => "float"
  | text _ => "str"
  | list _ => "list"
  | tuple _ => "tuple"
  | keyed _ => "dict"
  | ordered _ => "Ordered"

mutual

/-- Sequences of pairs as mappings, tuples as lists; mappings stay as they are. -/
def plain : Value → Value
  | ordered pairs => keyed (Entries.ofPairs (plainPairs pairs))
  | list items => list (plains items)
  | tuple items => list (plains items)
  | v => v

def plains : List Value → List Value
  | [] => []
  | v :: vs => v.plain :: plains vs

def plainPairs : List (String × Value) → List (String × Value)
  | [] => []
  | (k, v) :: r => (k, v.plain) :: plainPairs r

end

mutual

/-- Every double in the value is a finite number. -/
def isFinite : Value → Bool
  | double (.finite ..) => true
  | double _ => false
  | list items | tuple items => allFinite items
  | keyed entries | ordered entries => entriesFinite entries
  | _ => true

def allFinite : List Value → Bool
  | [] => true
  | v :: vs => v.isFinite && allFinite vs

def entriesFinite : List (String × Value) → Bool
  | [] => true
  | (_, v) :: r => v.isFinite && entriesFinite r

end

mutual

/-- The characters of all texts and keys in the value. -/
def chars : Value → List Char
  | text s => s.toList
  | list items | tuple items => allChars items
  | keyed entries | ordered entries => entriesChars entries
  | _ => []

def allChars : List Value → List Char
  | [] => []
  | v :: vs => v.chars ++ allChars vs

def entriesChars : List (String × Value) → List Char
  | [] => []
  | (k, v) :: r => k.toList ++ (v.chars ++ entriesChars r)

end

/-- The keys of a sequence of pairs, in order, with repetitions. -/
def keys : Value → List String
  | ordered pairs => pairs.map Prod.fst
  | keyed entries => entries.map Prod.fst
  | _ => []

/-- The first value under a key. -/
def get? (v : Value) (k : String) : Option Value :=
  match v with
  | ordered pairs => pairs.lookup k
  | keyed entries => entries.lookup k
  | _ => none

theorem plains_eq_map (vs : List Value) : plains vs = vs.map plain := by
  induction vs with
  | nil => rfl
  | cons v vs ih => simp [plains, ih]

theorem plainPairs_eq_map (ps : List (String × Value)) :
    plainPairs ps = ps.map fun e => (e.1, e.2.plain) := by
  induction ps with
  | nil => rfl
  | cons e r ih => cases e; simp [plainPairs, ih]

end Value

end ContractInterface.Json
