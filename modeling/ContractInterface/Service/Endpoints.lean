import ContractInterface.Description
import ContractInterface.Settings
import ContractInterface.Stub
import ContractInterface.Version

/-!
# The endpoints of the service

A service says what its endpoints do and how their errors are answered (`App`).  Taking requests in
and sending answers out is left to the framework that serves it.

`Service.app` is the service under the given settings.  An endpoint returns a value or raises an
error (`Result`).  Errors in a source and in a description are the client's, and are answered in full;
for no other error is there a handler.
-/

namespace ContractInterface.Service

open Json (Value)
open Text (StandIns)

inductive Endpoint where
  | health | encode | decode
deriving DecidableEq, Repr

namespace Endpoint

def all : List Endpoint := [health, encode, decode]

def path : Endpoint → String
  | health => "/api/health"
  | encode => "/api/encode"
  | decode => "/api/decode"

def method : Endpoint → String
  | health => "GET"
  | encode | decode => "POST"

end Endpoint

/-! ## What they are given -/

structure EncodeRequest where
  source : String
  /-- missing for the indent of the settings -/
  indent : Option Int
  /-- what stands for lone surrogates in the source -/
  lone : StandIns
deriving DecidableEq, Repr

/-- A description as a client sends it. -/
inductive SentInterface where
  | text (s : String)
  | object (entries : List (String × Value))

structure DecodeRequest where
  interface : SentInterface
  /-- missing for what the settings say -/
  includeTypes : Option Bool
  /-- what stands for lone surrogates in the description -/
  lone : StandIns

/-! ## What comes of them -/

/-- A value that an endpoint returns. -/
structure Returned where
  value : Value
  /-- what stands for lone surrogates in the value -/
  lone : StandIns

/-- An error that an endpoint raises. -/
inductive Raised where
  | describe (e : DescribeError)
  | load (e : LoadError)
  /-- a text that the service has written itself is not read back -/
  | reread (f : Json.Fault)

abbrev Result := Except Raised Returned

/-- A status with a JSON value. -/
structure Answer where
  status : Nat
  body : Value

/-- What a service says: its endpoints, and the answers to errors that have a handler. -/
structure App where
  health : Result
  encode : EncodeRequest → Result
  decode : DecodeRequest → Result
  handler? : Raised → Option Answer

/-! ## The service -/

def health : Result :=
  .ok ⟨.keyed [("status", .text "ok"), ("version", .text version)], .absent⟩

/-- The error with its message, which shows the lone surrogates that it quotes. -/
def shown (lone : StandIns) : DescribeError → DescribeError
  | .source e => .source ⟨e.line, e.column, String.ofList (lone.shown e.detail.toList)⟩
  | e => e

/-- The description of a source, as text and as what the text reads as. -/
def encode (settings : Settings) (r : EncodeRequest) : Result :=
  match interfaceText (r.indent.or settings.indent) false (.text r.source) with
  | .error e => .error (.describe (shown r.lone e))
  | .ok text =>
    match Value.read text.toList with
    | .error f => .error (.reread f)
    | .ok interface => .ok ⟨.keyed [("interface", interface), ("text", .text text)], r.lone⟩

def stubValue (s : Stub) : Value := .keyed [("stub", .text s.text)]

/-- The stub of a description.  Where the client sent no lone surrogates, the interface text in it may
still write some. -/
def decode (settings : Settings) (r : DecodeRequest) : Result :=
  let types := r.includeTypes.getD settings.typeDefs
  match r.interface with
  | .object entries =>
    match Stub.ofValue types (.keyed entries) with
    | .error m => .error (.load (.malformed m))
    | .ok s => .ok ⟨stubValue s, r.lone⟩
  | .text t =>
    let lone := if r.lone = .absent then (InterfaceText.text t).standIns else r.lone
    match InterfaceText.stubKeeping lone.char types (.text t) with
    | .error e => .error (.load e)
    | .ok s => .ok ⟨stubValue s, lone⟩

def issueValue (i : Issue) : Value :=
  .keyed [("line", .int i.pos.line), ("column", .int i.pos.col), ("message", .text i.message)]

/-- The answer to an error, if there is a handler for it. -/
def handler? : Raised → Option Answer
  | .describe (.source e) =>
    some ⟨400, .keyed [("error", .text "parse"), ("message", .text e.message),
      ("line", .int e.line), ("column", .int e.column)]⟩
  | .describe (.typing (.illTyped issues)) =>
    some ⟨422, .keyed [("error", .text "type"), ("issues", .list (issues.map issueValue))]⟩
  | .load (.malformed m) =>
    some ⟨400, .keyed [("error", .text "malformed"), ("key", .text m.key),
      ("path", .text m.path.text), ("message", .text m.message)]⟩
  | _ => none

def app (settings : Settings) : App := ⟨health, encode settings, decode settings, handler?⟩

end ContractInterface.Service
