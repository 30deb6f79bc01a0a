import ContractInterface.Proofs.Json.Bytes
import ContractInterface.Service.Host

/-!
# The host is faithful

The framework that the program runs on does what a service relies on (`Host.faithful_respond`): a
request that calls an endpoint is read as it is written, whatever is read leniently besides.

    app.Calls request result → reply app request = conclude app result               (reply_of_calls)
-/

namespace ContractInterface

open Json (Value)

namespace Json.Value

mutual

theorem isFinite_of_isJson : ∀ v : Value, v.IsJson → v.isFinite = true
  | null, _ => rfl
  | bool _, _ => rfl
  | int _, _ => rfl
  | double (.finite ..), _ => rfl
  | text _, _ => rfl
  | list items, h => allFinite_of_allJson items h
  | keyed entries, h => entriesFinite_of_entriesJson entries h.2

theorem allFinite_of_allJson : ∀ vs : List Value, AllJson vs → allFinite vs = true
  | [], _ => rfl
  | v :: vs, h => Bool.and_eq_true_iff.2 ⟨isFinite_of_isJson v h.1, allFinite_of_allJson vs h.2⟩

theorem entriesFinite_of_entriesJson :
    ∀ es : List (String × Value), EntriesJson es → entriesFinite es = true
  | [], _ => rfl
  | (_, v) :: r, h =>
    Bool.and_eq_true_iff.2 ⟨isFinite_of_isJson v h.1, entriesFinite_of_entriesJson r h.2⟩

end

end Json.Value

namespace Service

namespace Host

variable {body : String} {entries : List (String × Value)}

/-! ## Bodies -/

theorem readBody_of_writes (h : Writes body entries) (lone : Nat → Char) :
    readBody lone body = .ok (.keyed entries) := by
  rw [readBody, Value.decode_encode_of_readKeeping (h lone)]
  simp only [Value.readUnmarked_of_readKeeping (h lone)]

theorem standIns_of_writes (h : Writes body entries) : standIns body = .absent := by
  have hchars (c : Char) : bodyChars c body = (Value.keyed entries).chars := by
    rw [bodyChars, readBody_of_writes h]
  rw [standIns, hchars, hchars, if_pos rfl]

theorem fieldsOf_of_writes (h : Writes body entries) (lone : Text.StandIns) :
    fieldsOf lone body = .ok entries := by
  obtain ⟨c, d, r, hbody, -⟩ := Value.ascii_of_readKeeping (h lone.char)
  have hempty : ¬body.isEmpty = true := by
    rw [String.isEmpty_iff]
    rintro rfl
    cases hbody
  rw [fieldsOf, if_neg hempty, readBody_of_writes h]

/-! ## Fields -/

/-- An optional field is read as what it offers. -/
theorem optional_of_offers {α : Type} (toValue : α → Value) {read : Value → Except FieldFault α}
    (hread : ∀ a, read (toValue a) = .ok a) (hnull : ∀ a, toValue a ≠ .null) {name : String}
    {a : Option α} (h : Offers (entries.lookup name) (a.map toValue)) :
    optional entries name read = .ok a := by
  unfold optional
  cases a with
  | none => obtain h | h := h <;> rw [h]
  | some a =>
    have h : entries.lookup name = some (toValue a) := h
    rw [h]
    split
    · next hnone => cases hnone
    · next hsome => exact absurd (Option.some.inj hsome) (hnull a)
    · next v _ hsome =>
      cases hsome
      rw [hread]

theorem readEncode_of_writtenBy {r : EncodeRequest} (h : r.WrittenBy body) :
    ∃ entries, fieldsOf (standIns body) body = .ok entries ∧
      readEncode (standIns body) entries = .ok r := by
  obtain ⟨hlone, entries, hwrites, hsource, hindent⟩ := h
  have hoptional : optional entries "indent" (lenientInteger .absent) = .ok r.indent :=
    optional_of_offers .int (fun _ => rfl) (fun _ => nofun) hindent
  refine ⟨entries, fieldsOf_of_writes hwrites _, ?_⟩
  rw [standIns_of_writes hwrites, readEncode, required, hsource, hoptional, ← hlone]
  rfl

theorem readDecode_of_writtenBy {r : DecodeRequest} (h : r.WrittenBy body) :
    ∃ entries, fieldsOf (standIns body) body = .ok entries ∧
      readDecode (standIns body) entries = .ok r := by
  obtain ⟨hlone, entries, hwrites, hinterface, htypes⟩ := h
  have hoptional : optional entries "include_type_defs" (lenientFlag .absent) =
      .ok r.includeTypes := optional_of_offers .bool (fun _ => rfl) (fun _ => nofun) htypes
  have hread : readInterface r.interface.toValue = .ok r.interface := by
    cases r.interface <;> rfl
  refine ⟨entries, fieldsOf_of_writes hwrites _, ?_⟩
  rw [standIns_of_writes hwrites, readDecode, required, hinterface, hoptional, ← hlone]
  simp only [hread]
  rfl

/-! ## Replies -/

variable {app : App} {request : Request} {result : Result}

theorem call_of_read {α : Type} {endpoint : α → Result}
    {read : Text.StandIns → List (String × Value) → Checked α} {a : α}
    (h : ∃ entries, fieldsOf (standIns body) body = .ok entries ∧
      read (standIns body) entries = .ok a) :
    call app endpoint read body = conclude app (endpoint a) := by
  obtain ⟨entries, hfields, hread⟩ := h
  rw [call, hfields]
  simp only [hread]

theorem reply_request (e : Endpoint) (body : String) :
    reply app (e.request body) = callEndpoint app body e := by
  have hfind : endpoint? e.path.toList = some e := by
    cases e <;> decide
  have hpath : endpoint? (e.request body).path.toList = some e := hfind
  rw [reply, hpath]
  exact if_pos rfl

/-- **A request that calls an endpoint** is answered by what comes of it. -/
theorem reply_of_calls (h : app.Calls request result) :
    reply app request = conclude app result := by
  cases h with
  | health body => exact reply_request .health body
  | encode h => exact (reply_request .encode _).trans (call_of_read (readEncode_of_writtenBy h))
  | decode h => exact (reply_request .decode _).trans (call_of_read (readDecode_of_writtenBy h))

theorem faithful_respond : Framework.Faithful respond where
  returned hcalls hjson hlone := by
    rw [respond, reply_of_calls hcalls, conclude, hindrance?,
      if_pos (Value.isFinite_of_isJson _ hjson), hlone]
    rfl
  unsent {app request r run} hcalls hlone := by
    rw [respond, reply_of_calls hcalls, conclude, hindrance?, hlone]
    cases r.value.isFinite <;> rfl
  handled hcalls hhandler _ := by
    rw [respond, reply_of_calls hcalls, conclude, hhandler]
    rfl
  unhandled hcalls hhandler := by
    rw [respond, reply_of_calls hcalls, conclude, hhandler]
    rfl

end Host

/-! ## Requests that can be written -/

theorem writes_write {entries : List (String × Value)} (h : (Value.keyed entries).Writable) :
    Writes ((Value.keyed entries).write none) (Json.Entries.ofPairs (Value.rereadPairs entries)) :=
  fun lone => Value.readKeeping_write lone _ h none

/-- Every source can be asked about, with every indent that is not too long. -/
theorem EncodeRequest.writtenBy_write (source : String) {indent : Option Int}
    (hindent : ∀ n ∈ indent, (Decimal.digits n.natAbs).length ≤ Json.Reading.maxDigits) :
    EncodeRequest.WrittenBy ⟨source, indent, .absent⟩
      ((Value.keyed [("source", .text source), ("indent", indent.elim .null .int)]).write none) := by
  cases indent with
  | none => exact ⟨rfl, _, writes_write ⟨trivial, trivial, trivial⟩, rfl, .inr rfl⟩
  | some n => exact ⟨rfl, _, writes_write ⟨trivial, hindent n rfl, trivial⟩, rfl, rfl⟩

/-- Every interface text can be asked about. -/
theorem DecodeRequest.writtenBy_write (text : String) (types : Option Bool) :
    DecodeRequest.WrittenBy ⟨.text text, types, .absent⟩
      ((Value.keyed [("interface", .text text),
        ("include_type_defs", types.elim .null .bool)]).write none) := by
  cases types with
  | none => exact ⟨rfl, _, writes_write ⟨trivial, trivial, trivial⟩, rfl, .inr rfl⟩
  | some b => exact ⟨rfl, _, writes_write ⟨trivial, trivial, trivial⟩, rfl, rfl⟩

end Service

end ContractInterface
