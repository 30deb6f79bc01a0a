import ContractInterface.Text.Numeral
import ContractInterface.Text.Quoted

/-!
# Options and arguments

A command line is classified argument by argument: `--` ends the options, an argument that starts
with `-` is an option unless it is a lone `-`, a negative number or holds a space, everything else is
plain.  An option may be written in full, as an unambiguous beginning of a long name, with its value
behind `=`, or as a short option with its value behind it.  What is attached to a short option that
takes no value is read as further short options, each of which must exist.

`events` goes through the classified arguments from left to right and tells what each is for: an
option with its value, the words for the one positional parameter, or an argument that nothing takes.
A fault is the last event.

Command lines are read as the argument parsers of releases before 3.11.9 and 3.12.3 read them.  Later
ones differ in two points: a mark `--` that is attached to an option is its value (`valueOf`), and
attached letters that are no options are an argument that nothing takes (`expand`).
-/

namespace ContractInterface.CommandLine

/-- The options of all commands. -/
inductive Opt where
  | help | version | verbose
  | indent | publicOnly | output | typeDefs
  | host | port
deriving DecidableEq, Repr

/-- The names of an option, in the order in which messages list them. -/
def Opt.names : Opt → List String
  | help => ["-h", "--help"]
  | version => ["--version"]
  | verbose => ["--verbose", "-v"]
  | indent => ["--indent"]
  | publicOnly => ["--public-only"]
  | output => ["--output", "-o"]
  | typeDefs => ["--type-defs"]
  | host => ["--host"]
  | port => ["--port"]

def Opt.takesValue : Opt → Bool
  | help | version | verbose | publicOnly | typeDefs => false
  | indent | output | host | port => true

/-- How a message names an option. -/
def Opt.title (o : Opt) : String := "/".intercalate o.names

/-- What stands for the positional parameter of a command line. -/
inductive Positional where
  | none
  /-- one argument -/
  | one
  /-- an argument and everything behind it -/
  | rest
deriving DecidableEq, Repr

/-- The form of a command line. -/
structure Form where
  options : List Opt
  positional : Positional
deriving Repr

/-- All names with their options. -/
def Form.names (f : Form) : List (String × Opt) :=
  f.options.flatMap fun o => o.names.map fun n => (n, o)

/-- What an argument looks like. -/
inductive Shape where
  | plain
  /-- the mark that ends the options -/
  | dashes
  /-- an option under one of its names, with the text written to it -/
  | option (o : Opt) (name : String) (attached : Option (List Char))
  /-- an option that the form does not have -/
  | unknown
deriving DecidableEq, Repr

/-- Split at the first `=`. -/
def splitEquals (s : List Char) : Option (List Char × List Char) :=
  let name := s.takeWhile (· ≠ '=')
  match s.drop name.length with
  | [] => none
  | _ :: value => some (name, value)

/-- What an argument may mean: an option under one of its names, with the text written to it. -/
abbrev Meaning := String × Opt × Option (List Char)

/-- The options whose names a long name may be the beginning of. -/
def longMeanings (f : Form) (s : List Char) : List Meaning :=
  match splitEquals s with
  | some (name, value) =>
    (f.names.filter fun (n, _) => name.isPrefixOf n.toList).map fun (n, o) =>
      (n, o, some value)
  | none => (f.names.filter fun (n, _) => s.isPrefixOf n.toList).map fun (n, o) => (n, o, none)

/-- The option that starts a cluster. -/
def shortMeanings (f : Form) (s : List Char) : List Meaning :=
  (f.names.filter fun (n, _) => n.toList = s.take 2).map fun (n, o) =>
    (n, o, some (s.drop 2))

/-- A minus sign in front of digits, or of digits with a fraction; a line feed may follow. -/
def isNegativeNumber : List Char → Bool
  | '-' :: r =>
    let isDecimal := fun c => (Text.decimalValue? c).isSome
    let ends := fun s => s = [] || s = ['\n']
    let whole := r.takeWhile isDecimal
    match r.drop whole.length with
    | '.' :: t =>
      let fraction := t.takeWhile isDecimal
      !fraction.isEmpty && ends (t.drop fraction.length)
    | t => !whole.isEmpty && ends t
  | _ => false

/-- The shape of an argument that starts with `-`, by what it may mean. -/
def shapeOfMeanings (s : List Char) (meanings : List Meaning) : Except String Shape :=
  match meanings with
  | [(n, o, attached)] => .ok (.option o n attached)
  | [] => .ok (if isNegativeNumber s || s.contains ' ' then .plain else .unknown)
  | _ =>
    .error ("ambiguous option: " ++ String.ofList s ++ " could match " ++
      ", ".intercalate (meanings.map Prod.fst))

/-- The option of a name. -/
def Form.find? (f : Form) (name : List Char) : Option (String × Opt) :=
  f.names.find? fun n => n.1.toList = name

/-- The shape of an argument, or why it is ambiguous. -/
def shape (f : Form) (s : List Char) : Except String Shape :=
  match s with
  | '-' :: d :: _ =>
    match f.find? s with
    | some (n, o) => .ok (.option o n none)
    | none =>
      match (splitEquals s).bind fun (name, value) => (f.find? name).map fun n => (n, value) with
      | some ((n, o), value) => .ok (.option o n (some value))
      | none => shapeOfMeanings s (if d = '-' then longMeanings f s else shortMeanings f s)
  | _ => .ok .plain

/-- The arguments with their shapes; behind the mark `--` all are plain. -/
def shapes (f : Form) : List String → Except String (List (String × Shape))
  | [] => .ok []
  | a :: as =>
    if a = "--" then .ok ((a, .dashes) :: as.map fun b => (b, .plain))
    else
      match shape f a.toList with
      | .error e => .error e
      | .ok s =>
        match shapes f as with
        | .error e => .error e
        | .ok r => .ok ((a, s) :: r)

/-! ## Events -/

inductive Event where
  /-- an option that takes a value has none if the mark `--` stands for it -/
  | option (o : Opt) (value : Option String)
  | positional (words : List String)
  /-- an argument that nothing takes -/
  | extra (s : String)
  | fault (message : String)
deriving DecidableEq, Repr

/-- A fault of an option. -/
def optionFault (o : Opt) (message : String) : Event :=
  .fault ("argument " ++ o.title ++ ": " ++ message)

/-- The value that is attached to an option; the mark `--` is none, as in `--output=--` and `-o--`. -/
def valueOf (attached : List Char) : Option String :=
  if attached = ['-', '-'] then none else some (String.ofList attached)

/-- What one argument asks for, and whether it takes the next argument as well.  `attached` stands
behind the option `o`, `long` tells under what kind of name it was written.  What is attached and is no
option is a fault, a line feed as in `"-h\n"` included. -/
def expand (f : Form) (o : Opt) (long : Bool) (next : Option (String × Shape)) :
    Option (List Char) → Except Event (List Event × Bool)
  | none =>
    if o.takesValue then
      match next with
      | some (value, .plain) => .ok ([.option o (some value)], true)
      | _ => .error (optionFault o "expected one argument")
    else .ok ([.option o none], false)
  | some attached =>
    if o.takesValue then .ok ([.option o (valueOf attached)], false)
    else
      let ignored :=
        optionFault o ("ignored explicit argument " ++ Text.quote (String.ofList attached))
      match attached with
      | [] => .error ignored
      | c :: r =>
        match if long then none else f.find? ['-', c] with
        | none => .error ignored
        | some (_, o') =>
          match expand f o' false next (if r.isEmpty then none else some r) with
          | .error e => .error e
          | .ok (es, took) => .ok (.option o none :: es, took)
termination_by attached => (attached.map fun a => a.length + 1).getD 0
decreasing_by split <;> simp

/-- How many of the arguments go to the positional parameter. -/
def positionalCount (p : Positional) (args : List (String × Shape)) : Nat :=
  let leading := (args.takeWhile fun a => a.2 = .dashes).length
  match args.drop leading with
  | (_, .plain) :: r =>
    match p with
    | .none => 0
    | .one => leading + 1 + (r.takeWhile fun a => a.2 = .dashes).length
    | .rest => leading + 1 + r.length
  | _ => 0

def Shape.isOption : Shape → Bool
  | .option .. | .unknown => true
  | _ => false

/-- The events of classified arguments; `pending` is the positional parameter that is still to be
filled. -/
def events (f : Form) (pending : Positional) (args : List (String × Shape)) : List Event :=
  match args with
  | [] => []
  | (a, .unknown) :: r => .extra a :: events f pending r
  | (_, .option o name attached) :: r =>
    match expand f o (name.toList.take 2 = ['-', '-']) r.head? attached with
    | .error e => [e]
    | .ok (es, took) => es ++ events f pending (if took then r.tail else r)
  | a :: r =>
    match positionalCount pending (a :: r) with
    | 0 =>
      let extras := r.takeWhile fun b => !b.2.isOption
      (a :: extras).map (fun b => .extra b.1) ++ events f pending (r.drop extras.length)
    | n + 1 => .positional ((a :: r).take (n + 1) |>.map Prod.fst) :: events f .none (r.drop n)
termination_by args.length
decreasing_by
  all_goals (try split) <;> simp only [List.length_cons, List.length_tail, List.length_drop] <;> omega

/-- The events of a command line. -/
def Form.events (f : Form) (args : List String) : List Event :=
  match shapes f args with
  | .error message => [.fault message]
  | .ok args => CommandLine.events f f.positional args

end ContractInterface.CommandLine
