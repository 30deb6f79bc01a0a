import ContractInterface.CommandLine.Run

/-!
# The program

`main` looks up what a run starts from (the variables, standard input, the part of the file system
that the named files are in), lets `CommandLine.run` decide what happens, and does it.  A server is
announced; listening is left to the host, which answers requests by `Service.Host.respond`.
-/

namespace ContractInterface.CommandLine

/-- The file that a command reads. -/
def Command.input? : Command → Option String
  | encode file .. | decode file .. | check file => some file
  | serve .. => none

/-- The file that a command writes. -/
def Command.output? : Command → Option String
  | encode _ _ _ output | decode _ _ output => output
  | check _ | serve .. => none

/-- The files that a command line names. -/
def namedFiles (args : List String) : List String :=
  match Invocation.ofArguments args with
  | .error _ => []
  | .ok i =>
    match i.command with
    | none => []
    | some c => c.input?.toList ++ c.output?.toList

/-- The variables that settings come from. -/
def settingNames : List String :=
  ["ACI_LOG_LEVEL", "ACI_JSON_INDENT", "ACI_DECODE_TYPE_DEFS", "ACI_HOST", "ACI_PORT"]

/-- The name of a path for the operating system. -/
def nameOf : List String → String
  | [] => "."
  | "/" :: r => "/" ++ "/".intercalate r
  | path => "/".intercalate path

/-- Note what is at a path.  A directory can be opened, but not read. -/
def look (fs : FileSystem) (path : List String) : IO FileSystem := do
  match ← (IO.FS.Handle.mk (nameOf path) .read).toBaseIO with
  | .error _ => return fs
  | .ok handle =>
    match ← handle.readBinToEnd.toBaseIO with
    | .ok content => return fs.write path content.toList
    | .error _ => return ⟨fs.files, path :: fs.directories⟩

/-- Note what is on the way to a file. -/
def survey (fs : FileSystem) (name : String) : IO FileSystem := do
  let (here, parts) := FileSystem.route name
  let mut fs := fs
  let mut path := here
  for part in parts do
    path := FileSystem.enter path part
    fs ← look fs path
  return fs

/-- All bytes of a stream. -/
partial def readAll (stream : IO.FS.Stream) : IO (List UInt8) := do
  let chunk ← stream.read 65536
  if chunk.isEmpty then return [] else return chunk.toList ++ (← readAll stream)

/-- What a run starts from. -/
def lookUp (args : List String) : IO World := do
  let names := namedFiles args
  let mut environment := []
  for v in settingNames do
    if let some value ← IO.getEnv v then
      environment := environment ++ [(v, value)]
  let mut fs := FileSystem.empty
  for name in names do
    fs ← survey fs name
  let stdin ← if names.head? = some "-" then readAll (← IO.getStdin) else pure []
  return ⟨environment, fs, stdin⟩

/-- Do what a run has decided. -/
def perform (before : FileSystem) (o : Outcome) : IO UInt32 := do
  for (path, content) in o.files.files do
    if before.read? path ≠ some content then
      IO.FS.writeBinFile (nameOf path) (ByteArray.mk content.toArray)
  IO.print o.stdout
  IO.eprint o.stderr
  match o.ending with
  | .code n | .exit n => return n.toUInt32
  | .crash e =>
    IO.eprintln e.message
    return 1

end ContractInterface.CommandLine

open ContractInterface.CommandLine in
def main (args : List String) : IO UInt32 := do
  let world ← lookUp args
  perform world.files (run world args)
