import ContractInterface.Service.Endpoints
import ContractInterface.Service.Host.Lenient

/-!
# Bodies of requests

The body of a request to an endpoint carries a JSON object.  The host reads all fields before it
refuses a request, so a refusal tells of every field that is not as it should be, each at its place.
-/

namespace ContractInterface.Service.Host

open Json (Value)
open Text (StandIns)

/-! ## Refusals -/

/-- A step to a part of a request. -/
inductive Place where
  | key (k : String)
  /-- a character of the body -/
  | char (offset : Nat)
deriving DecidableEq, Repr

/-- A part of a request that is refused, with what was found there. -/
structure Refusal where
  place : List Place
  fault : FieldFault
  found : Value
deriving Repr

def Place.toValue : Place → Value
  | key k => .text k
  | char n => .int n

/-- Keys that nobody is told of. -/
def isReserved (key : String) : Bool := "_sa".toList.isPrefixOf key.toList

mutual

/-- A value without the entries under reserved keys. -/
def unreserved : Value → Value
  | .list items => .list (eachUnreserved items)
  | .keyed entries => .keyed (entriesUnreserved entries)
  | v => v

def eachUnreserved : List Value → List Value
  | [] => []
  | v :: vs => unreserved v :: eachUnreserved vs

def entriesUnreserved : List (String × Value) → List (String × Value)
  | [] => []
  | (k, v) :: r =>
    if isReserved k then entriesUnreserved r else (k, unreserved v) :: entriesUnreserved r

end

/-- What the client is told of a refusal. -/
def Refusal.toValue (r : Refusal) : Value :=
  .keyed [("type", .text r.fault.label), ("loc", .list (r.place.map Place.toValue)),
    ("msg", .text r.fault.message), ("input", unreserved r.found)]

/-- A refusal of the body as a whole. -/
def Refusal.body (fault : FieldFault) (found : Value) : Refusal := ⟨[.key "body"], fault, found⟩

/-- A refusal of a field, or of a way to read it. -/
def Refusal.field (name : String) (more : List String) (fault : FieldFault) (found : Value) :
    Refusal :=
  ⟨.key "body" :: .key name :: more.map .key, fault, found⟩

/-- What is read of a request, or all that is refused. -/
abbrev Checked (α : Type) := Except (List Refusal) α

/-- Two fields, with the refusals of both. -/
def both {α β γ : Type} (make : α → β → γ) : Checked α → Checked β → Checked γ
  | .ok a, .ok b => .ok (make a b)
  | .ok _, .error rs => .error rs
  | .error rs, .ok _ => .error rs
  | .error rs, .error rs' => .error (rs ++ rs')

/-! ## Bodies -/

inductive BodyFault where
  | refused (rs : List Refusal)
  /-- the body breaks a limit, or is in an encoding that it does not keep to -/
  | unreadable
deriving Repr

/-- What a body writes; `lone` gives the characters that lone surrogates are kept as. -/
def readBody (lone : Nat → Char) (body : String) : Except BodyFault Value :=
  match Text.Encoding.decode lone (Text.Utf8.encode body.toList) with
  | .error _ => .error .unreadable
  | .ok s =>
    match Value.readUnmarked lone s with
    | .error (.tooManyDigits _) => .error .unreadable
    | .error (.bad _ remaining) =>
      .error (.refused [⟨[.key "body", .char (Json.offset s remaining)], .notJson, .keyed []⟩])
    | .ok v => .ok v

/-- The characters of what a body writes, with `c` for every lone surrogate. -/
def bodyChars (c : Char) (body : String) : List Char :=
  match readBody (fun _ => c) body with
  | .ok v => v.chars
  | .error _ => []

/-- The characters of what the interface text in a body writes, with `c` for every lone surrogate. -/
def innerChars (c : Char) (body : String) : List Char :=
  match readBody (fun _ => c) body with
  | .ok (.keyed entries) =>
    match entries.lookup "interface" with
    | some (.text t) => (InterfaceText.text t).chars c
    | _ => []
  | _ => []

/-- The stand-ins for the lone surrogates of a body, which interface text in it does not have
either. -/
def standIns (body : String) : StandIns :=
  if bodyChars '\x00' body = bodyChars '\ufffd' body then .absent
  else .fresh (bodyChars '\ufffd' body ++ innerChars '\ufffd' body)

/-- The fields of the object that a body writes.  A body of nothing is missing. -/
def fieldsOf (lone : StandIns) (body : String) : Except BodyFault (List (String × Value)) :=
  if body.isEmpty then .error (.refused [.body .missing .null])
  else
    match readBody lone.char body with
    | .error fault => .error fault
    | .ok (.keyed entries) => .ok entries
    | .ok v => .error (.refused [.body .notAnObject v])

/-- A field that has to be there. -/
def required {α : Type} (entries : List (String × Value)) (name : String)
    (read : Value → Checked α) : Checked α :=
  match entries.lookup name with
  | none => .error [.field name [] .missing (.keyed entries)]
  | some v => read v

/-- A field that may be absent or null. -/
def optional {α : Type} (entries : List (String × Value)) (name : String)
    (read : Value → Except FieldFault α) : Checked (Option α) :=
  match entries.lookup name with
  | none | some .null => .ok none
  | some v =>
    match read v with
    | .ok a => .ok (some a)
    | .error fault => .error [.field name [] fault v]

/-! ## Requests -/

def readSource : Value → Checked String
  | .text s => .ok s
  | v => .error [.field "source" [] .notAText v]

/-- A value that is neither text nor object is refused as both. -/
def readInterface : Value → Checked SentInterface
  | .text s => .ok (.text s)
  | .keyed entries => .ok (.object entries)
  | v =>
    .error [.field "interface" ["str"] .notAText v,
      .field "interface" ["dict[str,any]"] .notAMapping v]

def readEncode (lone : StandIns) (entries : List (String × Value)) : Checked EncodeRequest :=
  both (fun source indent => ⟨source, indent, lone⟩) (required entries "source" readSource)
    (optional entries "indent" (lenientInteger lone))

def readDecode (lone : StandIns) (entries : List (String × Value)) : Checked DecodeRequest :=
  both (fun interface types => ⟨interface, types, lone⟩)
    (required entries "interface" readInterface)
    (optional entries "include_type_defs" (lenientFlag lone))

end ContractInterface.Service.Host
