import ContractInterface.Service.Framework
import ContractInterface.Service.Host.Bodies

/-!
# The host

`Host.respond` is the framework that the program runs on.  What holds of the service holds under every
faithful framework, not under this one in particular.  `Host.reply` tells more of an answer than a client
is told: what is refused of a request, and what went wrong.

A value, or what is refused, can only be sent if its numbers are finite and it has no lone surrogates
(`hindrance?`).  Failures of that kind, and errors without a handler, are told to nobody
(`Reply.crash`).
-/

namespace ContractInterface.Service.Host

open Json (Value)
open Text (StandIns)

/-! ## Paths -/

/-- The endpoint at a path; one line feed at the end does not count. -/
def endpoint? (path : List Char) : Option Endpoint :=
  Endpoint.all.find? fun e => path = e.path.toList || path = e.path.toList ++ ['\n']

/-- The paths of the pages on which the service describes itself. -/
def pages : List String := ["/openapi.json", "/docs", "/docs/oauth2-redirect", "/redoc"]

/-- There is a page at a path; one line feed at the end does not count. -/
def isPage (path : List Char) : Bool :=
  pages.any fun p => path = p.toList || path = p.toList ++ ['\n']

/-- The request names an endpoint or page if slashes at the end of its path are left out. -/
def strays (r : Request) : Bool :=
  let path := (r.path.toList.reverse.dropWhile (· = '/')).reverse
  (endpoint? path).isSome || isPage path

/-! ## Replies -/

/-- A failure that is not the client's. -/
inductive Crash where
  | raised (e : Raised)
  /-- the reply has an infinity or what is no number -/
  | notFinite
  | surrogates (run : Text.LoneRun)

def Crash.message : Crash → String
  | raised (.describe e) => e.message
  | raised (.load e) => e.message
  | raised (.reread _) => ""
  | notFinite => "Out of range float values are not JSON compliant"
  | surrogates run => run.message

inductive Reply where
  | returned (v : Value)
  | handled (a : Answer)
  | invalid (rs : List Refusal)
  | unreadable
  /-- a page on which the service describes itself; what it shows is not told here -/
  | page
  /-- the endpoint is at the path without the slashes at its end -/
  | moved
  | notFound
  | methodNotAllowed
  | crash (c : Crash)

/-- What is refused, as the client is told. -/
def refusals (rs : List Refusal) : Value := .keyed [("detail", .list (rs.map Refusal.toValue))]

/-- An answer that only says what is wrong. -/
def detail (s : String) : Value := .keyed [("detail", .text s)]

/-- What the client gets of a reply. -/
def Reply.response : Reply → Response
  | returned v => ⟨200, some v⟩
  | handled a => ⟨a.status, some a.body⟩
  | invalid rs => ⟨422, some (refusals rs)⟩
  | unreadable => ⟨400, some (detail "There was an error parsing the body")⟩
  | page => ⟨200, none⟩
  | moved => ⟨307, none⟩
  | notFound => ⟨404, some (detail "Not Found")⟩
  | methodNotAllowed => ⟨405, some (detail "Method Not Allowed")⟩
  | crash _ => ⟨500, none⟩

/-- Why a value cannot be sent, if it cannot. -/
def hindrance? (lone : StandIns) (v : Value) : Option Crash :=
  if v.isFinite then (lone.loneRun? (v.write none).toList).map .surrogates else some .notFinite

/-- The reply to a request with these refusals; they hold what was found in it. -/
def refuse (lone : StandIns) (rs : List Refusal) : Reply :=
  match hindrance? lone (refusals rs) with
  | none => .invalid rs
  | some c => .crash c

/-- The reply when an endpoint has been called. -/
def conclude (app : App) : Result → Reply
  | .ok r =>
    match hindrance? r.lone r.value with
    | none => .returned r.value
    | some c => .crash c
  | .error e =>
    match app.handler? e with
    | some a => .handled a
    | none => .crash (.raised e)

/-- Call an endpoint with what is read of a body. -/
def call {α : Type} (app : App) (endpoint : α → Result)
    (read : StandIns → List (String × Value) → Checked α) (body : String) : Reply :=
  let lone := standIns body
  match fieldsOf lone body with
  | .error (.refused rs) => refuse lone rs
  | .error .unreadable => .unreadable
  | .ok entries =>
    match read lone entries with
    | .error rs => refuse lone rs
    | .ok a => conclude app (endpoint a)

def callEndpoint (app : App) (body : String) : Endpoint → Reply
  | .health => conclude app app.health
  | .encode => call app app.encode readEncode body
  | .decode => call app app.decode readDecode body

def reply (app : App) (r : Request) : Reply :=
  match endpoint? r.path.toList with
  | some e => if r.method = e.method then callEndpoint app r.body e else .methodNotAllowed
  | none =>
    if isPage r.path.toList then
      if r.method = "GET" || r.method = "HEAD" then .page else .methodNotAllowed
    else if strays r then .moved
    else .notFound

def respond : Framework := fun app r => (reply app r).response

end ContractInterface.Service.Host
