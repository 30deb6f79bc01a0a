import ContractInterface.Description
import ContractInterface.Settings
import ContractInterface.Stub

/-!
# Sessions

A session has an environment and, once they have been consulted, the settings built from it.  They
are kept until they are dropped, whatever happens to the environment in between.

Encoding consults the settings for the indent if none is given, even if the source is then
rejected; decoding consults them if it is not said whether type definitions are shown, text only
once it has been read as an object.
-/

namespace ContractInterface

structure Session where
  environment : Environment
  /-- the settings in force, if they have been consulted -/
  cached : Option Settings
deriving Repr

/-- A description to decode: a value, or text that writes one. -/
inductive StubInput where
  | value (v : Json.Value)
  | text (t : InterfaceText)

namespace Session

def ofEnvironment (env : Environment) : Session := ⟨env, none⟩

/-- The settings in force; from now on they are kept. -/
def consult (s : Session) : Settings × Session :=
  let settings := s.cached.getD (.ofEnvironment s.environment)
  (settings, ⟨s.environment, some settings⟩)

def assign (s : Session) (name : String) (value : Option String) : Session :=
  ⟨s.environment.assign name value, s.cached⟩

/-- Drop the settings. -/
def clear (s : Session) : Session := ⟨s.environment, none⟩

/-- Interface text for a source. -/
def encode (s : Session) (r : DescribeRequest) (indent : Option Int) :
    Except DescribeError String × Session :=
  match indent with
  | some n => (r.text (some n), s)
  | none =>
    let (settings, s) := s.consult
    (r.text settings.indent, s)

/-- The flag, or what the settings say. -/
def includeTypes (s : Session) (flag : Option Bool) : Bool × Session :=
  match flag with
  | some b => (b, s)
  | none =>
    let (settings, s) := s.consult
    (settings.typeDefs, s)

/-- The stub of a description. -/
def decode (s : Session) (input : StubInput) (flag : Option Bool) :
    Except LoadError String × Session :=
  match input with
  | .value v =>
    let (types, s) := s.includeTypes flag
    (((Stub.ofValue types v).mapError .malformed).map Stub.text, s)
  | .text t =>
    match t.load with
    | .error e => (.error e, s)
    | .ok v =>
      let (types, s) := s.includeTypes flag
      (((Stub.ofValue types v).mapError .malformed).map Stub.text, s)

/-- What may happen in a session. -/
inductive Step where
  | assign (name : String) (value : Option String)
  | clear
  | settings
  | encode (r : DescribeRequest) (indent : Option Int)
  | decode (input : StubInput) (flag : Option Bool)

/-- What a step answers. -/
inductive Answer where
  | nothing
  | settings (s : Settings)
  | encoded (r : Except DescribeError String)
  | decoded (r : Except LoadError String)

def step (s : Session) : Step → Answer × Session
  | .assign name value => (.nothing, s.assign name value)
  | .clear => (.nothing, s.clear)
  | .settings => let (settings, s) := s.consult; (.settings settings, s)
  | .encode r indent => let (a, s) := s.encode r indent; (.encoded a, s)
  | .decode input flag => let (a, s) := s.decode input flag; (.decoded a, s)

/-- The answers of one step after the other. -/
def run (s : Session) : List Step → List Answer
  | [] => []
  | a :: as => (s.step a).1 :: run (s.step a).2 as

end Session

end ContractInterface
