import ContractInterface.CommandLine.Arguments
import ContractInterface.CommandLine.Help
import ContractInterface.Text.IntegerText
import ContractInterface.Version

/-!
# What a command line asks for

The options of the program come first, then a command with options of its own and, except for
`serve`, a file.  Options take effect in the order in which they are written: help and the version
end the run at once, and so does a value that should be an integer and is none.  Arguments that
nothing takes are reported when everything else is in order.
-/

namespace ContractInterface.CommandLine

inductive Command where
  | encode (file : String) (indent : Option Int) (publicOnly : Bool) (output : Option String)
  | decode (file : String) (typeDefs : Bool) (output : Option String)
  | check (file : String)
  | serve (host : Option String) (port : Option Int)
deriving DecidableEq, Repr

structure Invocation where
  verbose : Bool
  /-- missing if no command is given -/
  command : Option Command
deriving DecidableEq, Repr

/-- Why a command line ends the run. -/
inductive Exit where
  | help (topic : Topic)
  | version
  | misuse (topic : Topic) (message : String)
deriving DecidableEq, Repr

namespace Exit

def code : Exit → Nat
  | help _ | version => 0
  | misuse .. => 2

def stdout : Exit → String
  | help topic => topic.help
  | version => "aci " ++ ContractInterface.version ++ "\n"
  | misuse .. => ""

def stderr : Exit → String
  | help _ | version => ""
  | misuse topic message => topic.usage ++ topic.program ++ ": error: " ++ message ++ "\n"

end Exit

/-- What has been said on a command line. -/
structure Said where
  words : Option (List String)
  verbose : Bool
  indent : Option Int
  publicOnly : Bool
  typeDefs : Bool
  output : Option String
  host : Option String
  port : Option Int
  /-- the arguments that nothing takes -/
  extras : List String
deriving Repr

def Said.nothing : Said := ⟨none, false, none, false, false, none, none, none, []⟩

/-- The options and the positional parameter of each command line. -/
def Topic.form : Topic → Form
  | main => ⟨[.help, .version, .verbose], .rest⟩
  | encode => ⟨[.help, .indent, .publicOnly, .output], .one⟩
  | decode => ⟨[.help, .typeDefs, .output], .one⟩
  | check => ⟨[.help], .one⟩
  | serve => ⟨[.help, .host, .port], .none⟩

/-- An integer for an option; without a value, as in `--indent=--`, it is zero. -/
def integerFor (topic : Topic) (o : Opt) : Option String → Except Exit Int
  | none => .ok 0
  | some value =>
    match Text.integer? value.toList with
    | some n => .ok n
    | none =>
      .error (.misuse topic ("argument " ++ o.title ++ ": invalid int value: " ++ Text.quote value))

/-- Take one event into account. -/
def Said.take (topic : Topic) (said : Said) : Event → Except Exit Said
  | .fault message => .error (.misuse topic message)
  | .extra s => .ok { said with extras := said.extras ++ [s] }
  | .positional words => .ok { said with words := some words }
  | .option .help _ => .error (.help topic)
  | .option .version _ => .error .version
  | .option .verbose _ => .ok { said with verbose := true }
  | .option .publicOnly _ => .ok { said with publicOnly := true }
  | .option .typeDefs _ => .ok { said with typeDefs := true }
  | .option .output value => .ok { said with output := value }
  | .option .host value => .ok { said with host := value }
  | .option .indent value =>
    match integerFor topic .indent value with
    | .error e => .error e
    | .ok n => .ok { said with indent := some n }
  | .option .port value =>
    match integerFor topic .port value with
    | .error e => .error e
    | .ok n => .ok { said with port := some n }

/-- Everything that a command line says. -/
def Topic.listen (topic : Topic) (args : List String) : Except Exit Said :=
  (topic.form.events args).foldlM (Said.take topic) .nothing

/-- The file that a positional parameter names; a mark in front of it or behind it is dropped. -/
def fileOf (words : List String) : String := (words.erase "--").headD ""

/-- The command with what its command line says. -/
def Topic.command (topic : Topic) (said : Said) : Except Exit Command :=
  match topic, said.words with
  | main, _ | serve, _ => .ok (.serve said.host said.port)
  | encode, some words =>
    .ok (.encode (fileOf words) said.indent said.publicOnly said.output)
  | decode, some words => .ok (.decode (fileOf words) said.typeDefs said.output)
  | check, some words => .ok (.check (fileOf words))
  | topic, none => .error (.misuse topic "the following arguments are required: file")

/-- The command that the words behind the options of the program call, and the arguments that
nothing takes. -/
def commandOf : List String → Except Exit (Command × List String)
  | [] => .error (.misuse .main "expected a command")
  | word :: args =>
    match Topic.commands.find? fun t => t.word = word with
    | none =>
      .error (.misuse .main ("argument command: invalid choice: " ++ Text.quote word ++
        " (choose from " ++
        ", ".intercalate (Topic.commands.map fun t => Text.quote t.word) ++ ")"))
    | some topic =>
      match topic.listen args with
      | .error e => .error e
      | .ok said =>
        match topic.command said with
        | .error e => .error e
        | .ok c => .ok (c, said.extras)

/-- The program's options and the call of a command, in the order in which they are written. -/
def Invocation.ofArguments (args : List String) : Except Exit Invocation :=
  match Topic.main.listen args with
  | .error e => .error e
  | .ok said =>
    match said.words with
    | none => finish said none []
    | some words =>
      match commandOf words with
      | .error e => .error e
      | .ok (c, extras) => finish said (some c) extras
where
  /-- Refuse what nothing takes. -/
  finish (said : Said) (command : Option Command) (extras : List String) :
      Except Exit Invocation :=
    match said.extras ++ extras with
    | [] => .ok ⟨said.verbose, command⟩
    | unknown =>
      .error (.misuse .main ("unrecognized arguments: " ++ " ".intercalate unknown))

end ContractInterface.CommandLine
