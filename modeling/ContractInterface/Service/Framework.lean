import ContractInterface.Service.Endpoints

/-!
# Frameworks

A framework takes the requests to a service in and answers them.  How it does so is not the service's
doing, so a framework is any function from services and requests to responses.  A service relies on
four facts about it (`Framework.Faithful`), all of them about requests that call an endpoint
(`App.Calls`):

* `returned`: a value that the endpoint returns is sent with status 200;
* `unsent`: a value with lone surrogates cannot be sent, which ends in status 500;
* `handled`: an error with a handler is answered as the handler says;
* `unhandled`: any other error ends in status 500.

A request calls an endpoint if it has its method and path and a JSON body with the fields of the
endpoint, each with a value of its type (`EncodeRequest.WrittenBy`, `DecodeRequest.WrittenBy`).  Of other
requests, and of what a client is told with status 500, nothing is assumed.
-/

namespace ContractInterface

open Json (Value)

/-! ## JSON values -/

namespace Json.Value

mutual

/-- A value as it is sent: without tuples and sequences of pairs, with finite doubles, and with every
key of a mapping once. -/
def IsJson : Value → Prop
  | double (.finite ..) => True
  | double _ | tuple _ | ordered _ => False
  | list items => AllJson items
  | keyed entries => (entries.map Prod.fst).Nodup ∧ EntriesJson entries
  | _ => True

def AllJson : List Value → Prop
  | [] => True
  | v :: vs => v.IsJson ∧ AllJson vs

def EntriesJson : List (String × Value) → Prop
  | [] => True
  | (_, v) :: r => v.IsJson ∧ EntriesJson r

end

end Json.Value

namespace Service

/-! ## Requests -/

/-- A request with a JSON body. -/
structure Request where
  method : String
  path : String
  body : String
deriving DecidableEq, Repr

/-- The request to an endpoint. -/
def Endpoint.request (e : Endpoint) (body : String) : Request := ⟨e.method, e.path, body⟩

/-- A body writes an object with these entries, and no lone surrogates. -/
def Writes (body : String) (entries : List (String × Value)) : Prop :=
  ∀ lone, Value.readKeeping lone body.toList = .ok (.keyed entries)

/-- An optional field is there with its value; for no value it is absent or null. -/
def Offers (field : Option Value) : Option Value → Prop
  | some v => field = some v
  | none => field = none ∨ field = some .null

def EncodeRequest.WrittenBy (r : EncodeRequest) (body : String) : Prop :=
  r.lone = .absent ∧ ∃ entries, Writes body entries ∧
    entries.lookup "source" = some (.text r.source) ∧
    Offers (entries.lookup "indent") (r.indent.map .int)

def SentInterface.toValue : SentInterface → Value
  | text s => .text s
  | object entries => .keyed entries

def DecodeRequest.WrittenBy (r : DecodeRequest) (body : String) : Prop :=
  r.lone = .absent ∧ ∃ entries, Writes body entries ∧
    entries.lookup "interface" = some r.interface.toValue ∧
    Offers (entries.lookup "include_type_defs") (r.includeTypes.map .bool)

/-- A request calls an endpoint, with this result. -/
inductive App.Calls (app : App) : Request → Result → Prop
  | health (body : String) : Calls app (Endpoint.health.request body) app.health
  | encode {body : String} {r : EncodeRequest} (h : r.WrittenBy body) :
      Calls app (Endpoint.encode.request body) (app.encode r)
  | decode {body : String} {r : DecodeRequest} (h : r.WrittenBy body) :
      Calls app (Endpoint.decode.request body) (app.decode r)

/-! ## Responses -/

structure Response where
  status : Nat
  /-- what the body writes, if it is JSON -/
  body : Option Value

abbrev Framework := App → Request → Response

/-- What a service relies on. -/
structure Framework.Faithful (F : Framework) : Prop where
  returned : ∀ {app request r}, app.Calls request (.ok r) → r.value.IsJson →
    r.lone.loneRun? (r.value.write none).toList = none → F app request = ⟨200, some r.value⟩
  unsent : ∀ {app request r run}, app.Calls request (.ok r) →
    r.lone.loneRun? (r.value.write none).toList = some run → (F app request).status = 500
  handled : ∀ {app request e a}, app.Calls request (.error e) → app.handler? e = some a →
    a.body.IsJson → F app request = ⟨a.status, some a.body⟩
  unhandled : ∀ {app request e}, app.Calls request (.error e) → app.handler? e = none →
    (F app request).status = 500

end Service

end ContractInterface
