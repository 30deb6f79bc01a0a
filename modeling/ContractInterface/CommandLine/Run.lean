import ContractInterface.CommandLine.FileSystem
import ContractInterface.CommandLine.Invocation
import ContractInterface.Session
import ContractInterface.Text.Newlines

/-!
# Running a command

`run` is what the program does, as a function of its arguments, environment, files and standard
input: what it prints, the files that it leaves, the level at which it logs, and how it ends.  A
result is complete before any of it is written, so a run that fails leaves files and standard output
alone.  There is one exception: a result with lone surrogates is no text that a file can hold, and is
found out only when the output file is open and empty.
-/

namespace ContractInterface.CommandLine

/-- What a run starts from. -/
structure World where
  environment : Environment
  files : FileSystem
  stdin : List UInt8
deriving Repr

/-- A server that was started. -/
structure Served where
  host : String
  port : Int
  level : LogLevel
deriving DecidableEq, Repr

/-- Why a command fails. -/
inductive CommandError where
  | describe (e : DescribeError)
  | load (e : LoadError)
  | file (f : FileFault) (name : String)
  /-- the file is no UTF-8 from this byte on -/
  | notText (name : String) (offset : Nat)
  /-- the result has lone surrogates; these files are left -/
  | surrogates (run : Text.LoneRun) (left : FileSystem)
deriving DecidableEq, Repr

def CommandError.message : CommandError → String
  | describe e => e.message
  | load e => e.message
  | file .nul _ => FileFault.nul.text
  | file f name => f.message name
  | notText name offset => s!"{name}: not valid UTF-8 (byte {offset})"
  | surrogates run _ => run.message

/-- What the user is told about a failure. -/
def CommandError.report : CommandError → String
  | describe (.typing (.illTyped issues)) =>
    s!"✘ {issues.length} type error(s):\n" ++
      String.join (issues.map fun i => "  " ++ i.line ++ "\n")
  | e => "✘ " ++ e.message ++ "\n"

/-- The failure is not reported to the user: what is no type expression, a parser's failure of no
known kind, an indent that is no machine integer, an integer with too many digits, a file name with
U+0000, a result that cannot be written. -/
def CommandError.escapes : CommandError → Bool
  | describe (.typing (.illTyped _)) => false
  | describe (.typing _) | describe (.unclassified _) | describe (.layout _) => true
  | load (.tooManyDigits _) | file .nul _ | surrogates .. => true
  | _ => false

/-- The files that are left, of those that were there. -/
def CommandError.filesLeft (before : FileSystem) : CommandError → FileSystem
  | surrogates _ left => left
  | _ => before

/-- How a run ends. -/
inductive Ending where
  | code (n : Nat)
  /-- the command line itself ends the run -/
  | exit (n : Nat)
  /-- a failure that is not reported to the user -/
  | crash (e : CommandError)
deriving DecidableEq, Repr

structure Outcome where
  ending : Ending
  stdout : String
  /-- what the user is told; the records of the log, which go there as well, are left out -/
  stderr : String
  files : FileSystem
  /-- the level that logging was set to, if it was -/
  logLevel : Option LogLevel
  served : Option Served
deriving Repr

/-- A command that succeeded: what it prints and the files that it leaves. -/
structure Done where
  stdout : String
  stderr : String
  files : FileSystem
  served : Option Served

/-- The text of the named file, or of standard input for `-`. -/
def readInput (w : World) (name : String) : Except CommandError String :=
  match if name = "-" then .ok w.stdin else w.files.open? name with
  | .error f => .error (.file f name)
  | .ok bytes =>
    match Text.Utf8.decode bytes with
    | .error offset => .error (.notText name offset)
    | .ok s => .ok (String.ofList (Text.uniformNewlines s))

/-- The text with a line feed at its end. -/
def terminated (text : String) : String :=
  if text.toList.getLast? = some '\n' then text else text ++ "\n"

/-- Put a text into the output file if one is named, otherwise print it.  Stand-ins for lone surrogates
cannot be written; by the time that is found out the output file is open and empty. -/
def deliver (w : World) (lone : Text.StandIns) (text : String) (output : Option String) :
    Except CommandError Done :=
  let text := terminated text
  match output.filter fun name => !name.isEmpty, lone.loneRun? text.toList with
  | none, none => .ok ⟨text, "", w.files, none⟩
  | none, some run => .error (.surrogates run w.files)
  | some name, none =>
    match w.files.save name (Text.Utf8.encode text.toList) with
    | .error f => .error (.file f name)
    | .ok files => .ok ⟨"", "✔ Wrote " ++ name ++ "\n", files, none⟩
  | some name, some run =>
    match w.files.save name [] with
    | .error f => .error (.file f name)
    | .ok files => .error (.surrogates run files)

def runEncode (w : World) (settings : Settings) (file : String) (indent : Option Int)
    (publicOnly : Bool) (output : Option String) : Except CommandError Done :=
  match readInput w file with
  | .error e => .error e
  | .ok source =>
    match interfaceText (indent.or settings.indent) publicOnly (.text source) with
    | .error e => .error (.describe e)
    | .ok text => deliver w .absent text output

def runDecode (w : World) (settings : Settings) (file : String) (typeDefs : Bool)
    (output : Option String) : Except CommandError Done :=
  match readInput w file with
  | .error e => .error e
  | .ok text =>
    let lone := (InterfaceText.text text).standIns
    match InterfaceText.stubKeeping lone.char (typeDefs || settings.typeDefs) (.text text) with
    | .error e => .error (.load e)
    | .ok stub => deliver w lone stub.text output

def runCheck (w : World) (file : String) : Except CommandError Done :=
  match readInput w file with
  | .error e => .error e
  | .ok source =>
    match Contract.ofSource source with
    | .error f =>
      match f.translate with
      | .ok e => .error (.describe (.source e))
      | .error m => .error (.describe (.unclassified m))
    | .ok unit =>
      match Contract.infer unit with
      | .error e => .error (.describe (.typing e))
      | .ok unit =>
        .ok ⟨"✔ " ++ file ++ ": " ++ ", ".intercalate (unit.map fun c => c.name.text) ++ " OK\n",
          "", w.files, none⟩

/-- Announce a server; empty hosts and port zero are replaced by the settings. -/
def runServe (w : World) (settings : Settings) (host : Option String) (port : Option Int) : Done :=
  let host := (host.filter fun h => !h.isEmpty).getD settings.host
  let port := (port.filter fun p => p != 0).getD settings.port
  ⟨"\n─── ACI Server ───\n" ++ "  http://" ++ host ++ ":" ++ Decimal.intText port ++ "\n" ++
    "  Press Ctrl+C to stop\n\n", "", w.files, some ⟨host, port, settings.logLevel⟩⟩

def Command.run (w : World) (settings : Settings) : Command → Except CommandError Done
  | encode file indent publicOnly output => runEncode w settings file indent publicOnly output
  | decode file typeDefs output => runDecode w settings file typeDefs output
  | check file => runCheck w file
  | serve host port => .ok (runServe w settings host port)

/-- The run of a command that the command line calls. -/
def runCommand (w : World) (settings : Settings) (level : LogLevel) (c : Command) : Outcome :=
  match c.run w settings with
  | .ok d => ⟨.code 0, d.stdout, d.stderr, d.files, some level, d.served⟩
  | .error e =>
    if e.escapes then ⟨.crash e, "", "", e.filesLeft w.files, some level, none⟩
    else ⟨.code 1, "", e.report, w.files, some level, none⟩

/-- The whole run of the program. -/
def run (w : World) (args : List String) : Outcome :=
  match Invocation.ofArguments args with
  | .error e => ⟨.exit e.code, e.stdout, e.stderr, w.files, none, none⟩
  | .ok i =>
    let settings := Settings.ofEnvironment w.environment
    let level := if i.verbose then .debug else settings.logLevel
    match i.command with
    | none => ⟨.code 1, Topic.main.help, "", w.files, some level, none⟩
    | some c => runCommand w settings level c

end ContractInterface.CommandLine
