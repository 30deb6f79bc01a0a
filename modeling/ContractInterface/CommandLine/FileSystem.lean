import ContractInterface.Text.Quoted
import ContractInterface.Text.Utf8

/-!
# Files

A file system holds files under the names on their paths.  A directory is there if it is listed or a
file lies below it; the working directory, those above it and the root always are.

Reading and writing fail as the operating system says, with its number and wording.
-/

namespace ContractInterface.CommandLine

/-- Why a file cannot be opened. -/
inductive FileFault where
  | missing | notADirectory | isADirectory | nameTooLong
  /-- no file name holds U+0000 -/
  | nul
deriving DecidableEq, Repr

def FileFault.text : FileFault → String
  | missing => "[Errno 2] No such file or directory"
  | notADirectory => "[Errno 20] Not a directory"
  | isADirectory => "[Errno 21] Is a directory"
  | nameTooLong => "[Errno 36] File name too long"
  | nul => "embedded null byte"

/-- The fault of opening the file of the given name. -/
def FileFault.message (f : FileFault) (name : String) : String :=
  f.text ++ ": " ++ Text.quote name

structure FileSystem where
  /-- the content of each file under the names of the directories on its path and its own -/
  files : List (List String × List UInt8)
  /-- directories that are there even if no file lies below them -/
  directories : List (List String)
deriving DecidableEq, Repr

/-- Where a path leads. -/
inductive Target where
  | file (path : List String) (content : List UInt8)
  | directory
  /-- there is nothing, but a file may be created -/
  | vacant (path : List String)
  /-- the path ends with a slash, so a directory should be there -/
  | noDirectory (fault : FileFault)
deriving DecidableEq, Repr

/-- The parts of a path between its slashes. -/
def splitSlashes (s : List Char) : List (List Char) :=
  match s with
  | [] => [[]]
  | c :: r =>
    match splitSlashes r with
    | [] => [[c]]
    | p :: ps => if c = '/' then [] :: p :: ps else (c :: p) :: ps

/-- The bytes that a name on a path may have. -/
def maxNameBytes : Nat := 255

/-- The bytes that a whole path may have. -/
def maxPathBytes : Nat := 4095

namespace FileSystem

def empty : FileSystem := ⟨[], []⟩

/-- The content of a file. -/
def read? (fs : FileSystem) (path : List String) : Option (List UInt8) := fs.files.lookup path

/-- The root is named `/`; names `..` at the beginning lead above the working directory. -/
def isDirectory (fs : FileSystem) (path : List String) : Bool :=
  path = ["/"] || path.all (· = "..") || fs.directories.contains path ||
    fs.files.any fun f => path.isPrefixOf f.1 && path.length < f.1.length

/-- Put a file in its place. -/
def write (fs : FileSystem) (path : List String) (content : List UInt8) : FileSystem :=
  ⟨fs.files.filter (fun f => f.1 ≠ path) ++ [(path, content)], fs.directories⟩

/-- The directory above. -/
def above (here : List String) : List String :=
  if here = ["/"] then here else if here.all (· = "..") then here ++ [".."] else here.dropLast

/-- One part of a path further on from the directory `here`. -/
def enter (here : List String) (part : String) : List String :=
  if part = "" || part = "." then here
  else if part = ".." then above here
  else here ++ [part]

/-- Walk from the directory `here` along the parts of a path. -/
def walk (fs : FileSystem) (here : List String) : List String → Except FileFault Target
  | [] => .ok .directory
  | part :: parts =>
    if maxNameBytes < part.utf8ByteSize then .error .nameTooLong
    else
      let path := enter here part
      if fs.isDirectory path then fs.walk path parts
      else
        match fs.read? path, parts with
        | some content, [] => .ok (.file path content)
        | none, [] => .ok (.vacant path)
        | found, _ :: _ =>
          let fault := if found.isSome then .notADirectory else .missing
          if parts.all (· = "") then .ok (.noDirectory fault) else .error fault

/-- The directory from which a name is walked, and the parts of the name. -/
def route (name : String) : List String × List String :=
  match name.toList with
  | '/' :: r => (["/"], (splitSlashes r).map String.ofList)
  | s => ([], (splitSlashes s).map String.ofList)

/-- Where a name leads. -/
def find (fs : FileSystem) (name : String) : Except FileFault Target :=
  if name.toList.contains '\x00' then .error .nul
  else if maxPathBytes < name.utf8ByteSize then .error .nameTooLong
  else if name.isEmpty then .error .missing
  else fs.walk (route name).1 (route name).2

/-- The content of the file of the given name. -/
def open? (fs : FileSystem) (name : String) : Except FileFault (List UInt8) :=
  match fs.find name with
  | .error f => .error f
  | .ok (.file _ content) => .ok content
  | .ok .directory => .error .isADirectory
  | .ok (.vacant _) => .error .missing
  | .ok (.noDirectory fault) => .error fault

/-- Write a file, which is created if it is not there. -/
def save (fs : FileSystem) (name : String) (content : List UInt8) : Except FileFault FileSystem :=
  match fs.find name with
  | .error f => .error f
  | .ok (.file path _) | .ok (.vacant path) => .ok (fs.write path content)
  | .ok .directory | .ok (.noDirectory _) => .error .isADirectory

end FileSystem

end ContractInterface.CommandLine
