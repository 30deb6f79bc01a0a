import Mathlib
import ContractInterface.Proofs.CommandLine.Files
import ContractInterface.Proofs.Json.Faults
import ContractInterface.Proofs.Service.Host

/-!
# What comes of interface text

Interface text gives a stub or is malformed, unless it has an integer with too many digits:

    t.stubKeeping lone types = .ok s ∨ .error (.malformed m) ∨ .error (.tooManyDigits n)

where the last needs a run of `n` digits in the text (`InterfaceText.HasLongInteger`).  A command
reports what is malformed and the service answers it, under any framework that is faithful to it.
Neither does so for too many digits, nor for a stub with lone surrogates (`CommandLine.Escapes`,
`decoding_outcome`).  A text that is nothing but a run of too many digits always gets that far
(`InterfaceText.stubKeeping_run`).
-/

namespace ContractInterface

open Json (Value LongInteger)

/-! ## Interface text -/

namespace InterfaceText

/-- The characters that interface text is read from, if it has any. -/
def characters? (lone : Nat → Char) : InterfaceText → Option (List Char)
  | text s => some s.toList
  | bytes b => (Text.Encoding.decode lone b).toOption

/-- A run of `n` digits stands in interface text, too many for an integer. -/
def HasLongInteger (lone : Nat → Char) (n : Nat) (t : InterfaceText) : Prop :=
  ∃ s, t.characters? lone = some s ∧ LongInteger n s

theorem fault_of_loaded {text : List Char} {r : Except Json.Fault Value} {n : Nat}
    (h : loaded text r = .error (.tooManyDigits n)) : r = .error (.tooManyDigits n) := by
  unfold loaded at h
  split at h <;> cases h
  rfl

theorem hasLongInteger_of_load {lone : Nat → Char} {t : InterfaceText} {n : Nat}
    (h : t.loadKeeping lone = .error (.tooManyDigits n)) : t.HasLongInteger lone n := by
  cases t with
  | text s => exact ⟨s.toList, rfl, Json.longInteger_of_readKeeping (fault_of_loaded h)⟩
  | bytes b =>
    simp only [loadKeeping] at h
    split at h
    · cases h
    · next s hs =>
      refine ⟨s, ?_, Json.longInteger_of_readUnmarked (fault_of_loaded h)⟩
      rw [characters?, hs]
      rfl

/-- What may come of interface text. -/
inductive Gives (lone : Nat → Char) (t : InterfaceText) : Except LoadError Stub → Prop where
  | stub (s : Stub) : Gives lone t (.ok s)
  | malformed (m : Malformed) : Gives lone t (.error (.malformed m))
  | tooManyDigits {n : Nat} (h : t.HasLongInteger lone n) : Gives lone t (.error (.tooManyDigits n))

theorem gives_stubKeeping (lone : Nat → Char) (types : Bool) (t : InterfaceText) :
    t.Gives lone (t.stubKeeping lone types) := by
  unfold stubKeeping
  split
  · next e he =>
    cases e with
    | malformed m => exact .malformed m
    | tooManyDigits n => exact .tooManyDigits (hasLongInteger_of_load he)
  · split
    · exact .malformed _
    · exact .stub _

/-- Interface text writes lone surrogates: what it reads as depends on the character that stands
for them. -/
def HasLone (t : InterfaceText) : Prop := t.chars '\x00' ≠ t.chars '\ufffd'

end InterfaceText

/-- A reading without lone surrogates has no stand-ins. -/
theorem Text.StandIns.ne_of_loneRun? {read : Char → List Char} {s : List Char} {run : Text.LoneRun}
    (h : (choose read).loneRun? s = some run) : read '\x00' ≠ read '\ufffd' := by
  intro heq
  rw [choose, if_pos heq, loneRun?_absent] at h
  cases h

/-! ## Commands -/

namespace CommandLine

/-- A failure of decoding that is not reported: an integer with too many digits in the text, a file
name with U+0000, or lone surrogates. -/
inductive Escapes (w : World) (file : String) (output : Option String) : CommandError → Prop where
  | digits {text : String} {n : Nat} (read : readInput w file = .ok text)
      (long : LongInteger n text.toList) : Escapes w file output (.load (.tooManyDigits n))
  | nul {name : String} (named : name = file ∨ output = some name) (holds : '\x00' ∈ name.toList) :
      Escapes w file output (.file .nul name)
  | surrogates {text : String} (run : Text.LoneRun) (left : FileSystem)
      (read : readInput w file = .ok text) (lone : (InterfaceText.text text).HasLone) :
      Escapes w file output (.surrogates run left)

theorem escapes_of_runDecode {w : World} {settings : Settings} {file : String} {types : Bool}
    {output : Option String} {e : CommandError}
    (h : runDecode w settings file types output = .error e) (he : e.escapes = true) :
    Escapes w file output e := by
  unfold runDecode at h
  split at h
  · next e' hread =>
    cases h
    obtain ⟨f, rfl, hnul⟩ | ⟨offset, rfl⟩ := readInput_error hread
    · cases f with
      | nul => exact .nul (.inl rfl) (hnul rfl)
      | _ => cases he
    · cases he
  · next text hread =>
    have hgives := InterfaceText.gives_stubKeeping (InterfaceText.text text).standIns.char
      (types || settings.typeDefs) (.text text)
    simp only at h
    split at h
    · next e' hstub =>
      cases h
      rw [hstub] at hgives
      cases hgives with
      | malformed m => cases he
      | tooManyDigits hlong =>
        obtain ⟨_, ⟨⟩, hlong⟩ := hlong
        exact .digits hread hlong
    · next stub _ =>
      obtain ⟨f, name, rfl, rfl, hnul⟩ | ⟨run, left, rfl, hrun⟩ := deliver_error h
      · cases f with
        | nul => exact .nul (.inr rfl) (hnul rfl)
        | _ => cases he
      · exact .surrogates run left hread (Text.StandIns.ne_of_loneRun? hrun)

/-- How a run that decodes may end. -/
theorem ending_decode (w : World) (settings : Settings) (level : LogLevel) (file : String)
    (types : Bool) (output : Option String) :
    let ending := (runCommand w settings level (.decode file types output)).ending
    (ending = .code 0 ∨ ending = .code 1) ∨ ∃ e, ending = .crash e ∧ Escapes w file output e := by
  intro ending
  unfold ending runCommand
  split
  · exact .inl (.inl rfl)
  · next e he =>
    split
    · next hescapes => exact .inr ⟨e, rfl, escapes_of_runDecode he hescapes⟩
    · exact .inl (.inr rfl)

end CommandLine

/-! ## The service -/

namespace Service

theorem decode_text (settings : Settings) (text : String) (types : Option Bool) :
    decode settings ⟨.text text, types, .absent⟩ =
      match InterfaceText.stubKeeping (InterfaceText.text text).standIns.char
        (types.getD settings.typeDefs) (.text text) with
      | .error e => .error (.load e)
      | .ok s => .ok ⟨stubValue s, (InterfaceText.text text).standIns⟩ := rfl

theorem isJson_stubValue (s : Stub) : (stubValue s).IsJson :=
  ⟨List.nodup_singleton _, trivial, trivial⟩

/-- Malformed text is the client's error. -/
theorem exists_handler_malformed (m : Malformed) :
    ∃ a, handler? (.load (.malformed m)) = some a ∧ a.status = 400 ∧ a.body.IsJson :=
  ⟨_, rfl, rfl, by simp [Value.IsJson, Value.EntriesJson]⟩

/-- What may be answered to interface text. -/
theorem status_decode {F : Framework} (hF : F.Faithful) (settings : Settings) {body text : String}
    {types : Option Bool} (h : DecodeRequest.WrittenBy ⟨.text text, types, .absent⟩ body) :
    let response := F (app settings) (Endpoint.decode.request body)
    (response.status = 200 ∨ response.status = 400) ∨ response.status = 500 ∧
      ((InterfaceText.text text).HasLone ∨ ∃ n, LongInteger n text.toList) := by
  intro response
  have hcalls : (app settings).Calls (Endpoint.decode.request body)
    (decode settings ⟨.text text, types, .absent⟩) := .decode h
  have hgives := InterfaceText.gives_stubKeeping (InterfaceText.text text).standIns.char
    (types.getD settings.typeDefs) (.text text)
  rw [decode_text] at hcalls
  generalize InterfaceText.stubKeeping (InterfaceText.text text).standIns.char
    (types.getD settings.typeDefs) (.text text) = stub at hcalls hgives
  cases hgives with
  | stub s =>
    cases hrun : (InterfaceText.text text).standIns.loneRun? ((stubValue s).write none).toList with
    | none =>
      have hresponse : response = ⟨200, some (stubValue s)⟩ :=
        hF.returned hcalls (isJson_stubValue s) hrun
      exact .inl (.inl (by rw [hresponse]))
    | some run => exact .inr ⟨hF.unsent hcalls hrun, .inl (Text.StandIns.ne_of_loneRun? hrun)⟩
  | malformed m =>
    obtain ⟨a, hhandler, hstatus, hjson⟩ := exists_handler_malformed m
    have hresponse : response = ⟨a.status, some a.body⟩ := hF.handled hcalls hhandler hjson
    exact .inl (.inr (by rw [hresponse, hstatus]))
  | tooManyDigits hlong =>
    obtain ⟨_, ⟨⟩, hlong⟩ := hlong
    exact .inr ⟨hF.unhandled hcalls rfl, .inr ⟨_, hlong⟩⟩

end Service

/-- **Interface text gives a stub or is malformed**, a command that decodes ends with zero or one, and
the service answers 200 or 400 under every framework that is faithful to it.  What is never reported
is an integer with too many digits; nor is what cannot be opened or written, a file name with U+0000
and lone surrogates. -/
theorem decoding_outcome (settings : Settings) :
    (∀ (lone : Nat → Char) (types : Option Bool) (t : InterfaceText),
      let stub := t.stubKeeping lone (types.getD settings.typeDefs)
      ((∃ s, stub = .ok s) ∨ ∃ m, stub = .error (.malformed m)) ∨
        ∃ n, stub = .error (.tooManyDigits n) ∧ t.HasLongInteger lone n) ∧
    (∀ (w : CommandLine.World) (level : LogLevel) (file : String) (types : Bool)
        (output : Option String),
      let ending := (CommandLine.runCommand w settings level (.decode file types output)).ending
      (ending = .code 0 ∨ ending = .code 1) ∨
        ∃ e, ending = .crash e ∧ CommandLine.Escapes w file output e) ∧
    (∀ F : Service.Framework, F.Faithful → ∀ (body text : String) (types : Option Bool),
      Service.DecodeRequest.WrittenBy ⟨.text text, types, .absent⟩ body →
      let response := F (Service.app settings) (Service.Endpoint.decode.request body)
      (response.status = 200 ∨ response.status = 400) ∨ response.status = 500 ∧
        ((InterfaceText.text text).HasLone ∨ ∃ n, LongInteger n text.toList)) := by
  refine ⟨fun lone types t => ?_, fun w => CommandLine.ending_decode w settings,
    fun _ hF _ _ _ => Service.status_decode hF settings⟩
  have hgives := t.gives_stubKeeping lone (types.getD settings.typeDefs)
  generalize t.stubKeeping lone (types.getD settings.typeDefs) = stub at hgives ⊢
  cases hgives with
  | stub s => exact .inl (.inl ⟨s, rfl⟩)
  | malformed m => exact .inl (.inr ⟨m, rfl⟩)
  | tooManyDigits h => exact .inr ⟨_, rfl, h⟩

/-- An object without a contract is the client's error. -/
theorem decoding_outcome_object :
    let body := "\x7b\"interface\":\"\x7b\x7d\",\"include_type_defs\":null\x7d"
    let response := Service.Host.respond (Service.app (.ofEnvironment []))
      (Service.Endpoint.decode.request body)
    Service.Framework.Faithful Service.Host.respond ∧
      Service.DecodeRequest.WrittenBy ⟨.text "\x7b\x7d", none, .absent⟩ body ∧
      response.status = 400 := by
  intro body response
  have hbody : (Value.keyed [("interface", .text "\x7b\x7d"), ("include_type_defs", .null)]).write
      none = body := by cbv
  have hwritten := Service.DecodeRequest.writtenBy_write "\x7b\x7d" none
  rw [Option.elim, hbody] at hwritten
  have hstub : (InterfaceText.text "\x7b\x7d").stubKeeping
      (InterfaceText.text "\x7b\x7d").standIns.char false =
        .error (.malformed ⟨"contract", [], .missing⟩) := by cbv
  have hcalls : (Service.app (.ofEnvironment [])).Calls (Service.Endpoint.decode.request body)
    (Service.decode (.ofEnvironment []) ⟨.text "\x7b\x7d", none, .absent⟩) := .decode hwritten
  have htypes : (none : Option Bool).getD (Settings.ofEnvironment []).typeDefs = false := rfl
  rw [Service.decode_text, htypes, hstub] at hcalls
  obtain ⟨a, hhandler, hstatus, hjson⟩ :=
    Service.exists_handler_malformed ⟨"contract", [], .missing⟩
  have hresponse : response = ⟨a.status, some a.body⟩ :=
    Service.Host.faithful_respond.handled hcalls hhandler hjson
  have hother : response.status ≠ 200 ∧ response.status ≠ 500 := by
    rw [hresponse, hstatus]
    show (400 : Nat) ≠ 200 ∧ (400 : Nat) ≠ 500
    decide
  refine ⟨Service.Host.faithful_respond, hwritten, ?_⟩
  obtain (h | h) | ⟨h, -⟩ := (decoding_outcome (.ofEnvironment [])).2.2 Service.Host.respond
    Service.Host.faithful_respond body _ _ hwritten
  · exact absurd h hother.1
  · exact h
  · exact absurd h hother.2

/-! ## Runs of digits -/

section

variable {c : Char} {r : List Char} (hc : c.isDigit = true) (hzero : c ≠ '0')
  (hr : ∀ d ∈ r, d.isDigit = true) (hlong : Json.Reading.maxDigits < (c :: r).length)
include hc hzero hr hlong

/-- A run of too many digits is no stub and not malformed. -/
theorem InterfaceText.stubKeeping_run (lone : Nat → Char) (types : Bool) :
    (InterfaceText.text (String.ofList (c :: r))).stubKeeping lone types =
      .error (.tooManyDigits (c :: r).length) := by
  have hload : (InterfaceText.text (String.ofList (c :: r))).loadKeeping lone =
      .error (.tooManyDigits (c :: r).length) := by
    rw [loadKeeping, String.toList_ofList, Json.readKeeping_run lone hc hzero hr hlong]
    rfl
  rw [stubKeeping, hload]

/-- A command that decodes a run of too many digits fails without a report. -/
theorem CommandLine.ending_run {w : World} {file : String}
    (h : readInput w file = .ok (String.ofList (c :: r))) (settings : Settings)
    (level : LogLevel) (types : Bool) (output : Option String) :
    (runCommand w settings level (.decode file types output)).ending =
      .crash (.load (.tooManyDigits (c :: r).length)) := by
  have hrun : Command.run w settings (.decode file types output) =
      .error (.load (.tooManyDigits (c :: r).length)) := by
    rw [Command.run, runDecode, h]
    simp only [InterfaceText.stubKeeping_run hc hzero hr hlong]
  rw [runCommand, hrun]
  rfl

/-- The service does not tell what is wrong with a run of too many digits. -/
theorem Service.status_run {F : Framework} (hF : F.Faithful) (settings : Settings) {body : String}
    {types : Option Bool}
    (h : DecodeRequest.WrittenBy ⟨.text (String.ofList (c :: r)), types, .absent⟩ body) :
    (F (app settings) (Endpoint.decode.request body)).status = 500 := by
  have hcalls : (app settings).Calls (Endpoint.decode.request body)
    (decode settings ⟨.text (String.ofList (c :: r)), types, .absent⟩) := .decode h
  rw [decode_text] at hcalls
  simp only [InterfaceText.stubKeeping_run hc hzero hr hlong] at hcalls
  exact hF.unhandled hcalls rfl

end

/-- A text of 4301 ones is no stub and not malformed. -/
theorem not_decoded_ones :
    ¬((∃ s, (InterfaceText.text (String.ofList (List.replicate 4301 '1'))).stub false = .ok s) ∨
      ∃ m, (InterfaceText.text (String.ofList (List.replicate 4301 '1'))).stub false =
        .error (.malformed m)) := by
  have hdigits : ∀ d ∈ List.replicate 4300 '1', d.isDigit = true := by
    intro d hd
    rw [List.eq_of_mem_replicate hd]
    decide
  have hlong : Json.Reading.maxDigits < ('1' :: List.replicate 4300 '1').length := by
    rw [List.length_cons, List.length_replicate]
    decide
  have hstub := InterfaceText.stubKeeping_run (by decide) (by decide) hdigits hlong
    Text.replaced false
  rw [List.replicate_succ, InterfaceText.stub, hstub]
  rintro (⟨s, hs⟩ | ⟨m, hm⟩)
  · cases hs
  · cases hm

end ContractInterface
