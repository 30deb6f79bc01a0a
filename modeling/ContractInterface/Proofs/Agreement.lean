import ContractInterface.Proofs.CommandLine.Calls
import ContractInterface.Proofs.Decode
import ContractInterface.Proofs.Outcome

/-!
# One answer from three sides

A source is described by `interfaceText`, by the commands `encode` and `check` and by the service.
For one environment the four say the same of it (`Agree`): the text, or the same error.

    run w ("encode" :: file :: indentArguments indent)  ∼  interfaceText (indent.or settings.indent) …
    F (app settings) (Endpoint.encode.request body)     ∼  interfaceText (indent.or settings.indent) …

where `F` is any framework that is faithful to the service.  Checking goes only part of the way, so it
also depends on what is left to go: a well-typed unit always has a description, which can be laid out
with every indent that is a machine integer.
-/

namespace ContractInterface

open Json (Value IndentFault)

/-! ## Descriptions -/

/-- The text of a description ends with its brace. -/
theorem Description.getLast?_text (d : Description) (indent : Option Int) :
    (d.text indent).toList.getLast? = some '\x7d' := by
  have hlast (layout : Json.Layout) (level : Nat) (items : List (List Char)) :
      (Json.bracketed layout level '\x7b' '\x7d' items).getLast? = some '\x7d' := by
    cases items with
    | nil => rfl
    | cons item items =>
      rw [Json.bracketed, List.getLast?_cons, List.getLast?_concat]
      rfl
  rw [text, Value.write, String.toList_ofList, toValue, Value.writeAt]
  exact hlast _ _ _

/-! ## Commands -/

namespace CommandLine

theorem terminated_text (d : Description) (indent : Option Int) :
    terminated (d.text indent) = d.text indent ++ "\n" := by
  rw [terminated, d.getLast?_text indent, if_neg (by decide)]

/-- The source can be read under the name of a file, or from standard input. -/
structure World.Holds (w : World) (file source : String) : Prop where
  plain : IsPlain file
  content : (if file = "-" then .ok w.stdin else w.files.open? file) =
    .ok (Text.Utf8.encode source.toList)

theorem readInput_of_holds {w : World} {file source : String} (h : w.Holds file source) :
    readInput w file = .ok (String.ofList (Text.uniformNewlines source.toList)) := by
  rw [readInput, h.content]
  simp only [Text.Utf8.decode_eq_ok_iff.2 rfl]

/-- The run of a command that leaves the files alone and logs as the environment says; `stderr` is
without the log. -/
def World.ends (w : World) (ending : Ending) (stdout stderr : String) : Outcome :=
  ⟨ending, stdout, stderr, w.files, some (Settings.ofEnvironment w.environment).logLevel, none⟩

/-- A run that succeeds and prints a text. -/
def World.prints (w : World) (text : String) : Outcome := w.ends (.code 0) text ""

/-- A run that fails and reports why. -/
def World.reports (w : World) (text : String) : Outcome := w.ends (.code 1) "" text

variable {w : World} {file source : String}

theorem run_eq {args : List String} {command : Command}
    (h : Invocation.ofArguments args = .ok ⟨false, some command⟩) :
    run w args = runCommand w (Settings.ofEnvironment w.environment)
      (Settings.ofEnvironment w.environment).logLevel command := by
  rw [run, h]
  rfl

theorem runEncode_eq (hread : readInput w file = .ok source) (settings : Settings)
    (indent : Option Int) : runEncode w settings file indent false none =
      match interfaceText (indent.or settings.indent) false (.text source) with
      | .error e => .error (.describe e)
      | .ok text => .ok ⟨terminated text, "", w.files, none⟩ := by
  rw [runEncode, hread]
  simp only
  cases interfaceText (indent.or settings.indent) false (.text source) with
  | error e => rfl
  | ok text =>
    show deliver w .absent text none = _
    unfold deliver
    simp only [Option.filter_none, Text.StandIns.loneRun?_absent]

/-- A check goes as far as the unit, which a description only takes apart. -/
theorem runCheck_eq (hread : readInput w file = .ok source) :
    (∀ d, describe false (.text source) = .ok d → ∃ names,
      runCheck w file = .ok ⟨"✔ " ++ file ++ ": " ++ names ++ " OK\n", "", w.files, none⟩) ∧
    (∀ e, describe false (.text source) = .error (.source e) →
      runCheck w file = .error (.describe (.source e))) ∧
    (∀ issues, describe false (.text source) = .error (.typing (.illTyped issues)) →
      runCheck w file = .error (.describe (.typing (.illTyped issues)))) := by
  have hdecode : (Source.text source).decode = .ok source := rfl
  unfold runCheck describe DescribeRequest.run
  rw [hread, hdecode]
  simp only
  cases hunit : Contract.ofSource source with
  | error f =>
    simp only
    cases htranslate : f.translate with
    | error m => refine ⟨fun d h => ?_, fun e h => ?_, fun issues h => ?_⟩ <;> cases h
    | ok e =>
      refine ⟨fun d h => ?_, fun e' h => ?_, fun issues h => ?_⟩ <;> cases h
      rfl
  | ok unit =>
    simp only
    cases hinfer : Contract.infer unit with
    | error e =>
      refine ⟨fun d h => ?_, fun e' h => ?_, fun issues h => ?_⟩ <;> cases h
      rfl
    | ok unit' =>
      cases unit' with
      | nil => refine ⟨fun d h => ?_, fun e h => ?_, fun issues h => ?_⟩ <;> cases h
      | cons c cs =>
        simp only
        cases hdescribe : c.describe false with
        | error shown => refine ⟨fun d h => ?_, fun e h => ?_, fun issues h => ?_⟩ <;> cases h
        | ok d =>
          refine ⟨fun _ _ => ⟨_, rfl⟩, fun e h => ?_, fun issues h => ?_⟩ <;> cases h

end CommandLine

/-! ## The service -/

/-- What the text of a description reads as can be sent. -/
theorem Description.isJson_reread (d : Description) : d.toValue.reread.IsJson := by
  have hlist {α : Type} {f : α → Value} (h : ∀ a, (f a).IsJson) (as : List α) :
      Value.AllJson (as.map f) := by
    induction as with
    | nil => trivial
    | cons a as ih => exact ⟨h a, ih⟩
  have harg (a : DescribedArgument) : a.toValue.reread.IsJson := by
    rw [a.reread_toValue]
    exact ⟨by simp, trivial, trivial, trivial⟩
  have hfunction (f : DescribedFunction) : f.toValue.reread.IsJson := by
    rw [f.reread_toValue]
    exact ⟨by simp, trivial, hlist harg _, trivial, trivial⟩
  have hvar (v : String) : (Value.keyed [("name", .text v)]).IsJson :=
    ⟨List.nodup_singleton _, trivial, trivial⟩
  have htype (t : DescribedType) : t.toValue.reread.IsJson := by
    rw [t.reread_toValue]
    exact ⟨by simp, trivial, hlist hvar _, trivial, trivial⟩
  rw [d.reread_toValue]
  exact ⟨List.nodup_singleton _,
    ⟨by simp, trivial, hlist htype _, hlist hfunction _, trivial⟩, trivial⟩

namespace Service

theorem shown_absent (e : DescribeError) : shown .absent e = e := by
  cases e with
  | source e =>
    show DescribeError.source ⟨e.line, e.column, _⟩ = .source e
    rw [Text.StandIns.shown_absent, String.ofList_toList]
  | _ => rfl

variable {settings : Settings} {source : String} {indent : Option Int}

theorem encode_of_error {e : DescribeError}
    (h : interfaceText (indent.or settings.indent) false (.text source) = .error e) :
    encode settings ⟨source, indent, .absent⟩ = .error (.describe e) := by
  unfold encode
  simp only [h, shown_absent]

theorem encode_of_text {d : Description} {i : Option Int}
    (h : interfaceText (indent.or settings.indent) false (.text source) = .ok (d.text i)) :
    encode settings ⟨source, indent, .absent⟩ =
      .ok ⟨.keyed [("interface", d.toValue.reread), ("text", .text (d.text i))], .absent⟩ := by
  have hread : Value.read (d.text i).toList = .ok d.toValue.reread :=
    Value.readKeeping_write _ _ d.writable_toValue i
  unfold encode
  simp only [h, hread]

/-- The value under which issues are listed can be sent. -/
theorem isJson_issues (issues : List Issue) :
    (Value.keyed [("error", .text "type"), ("issues", .list (issues.map issueValue))]).IsJson := by
  refine ⟨by simp, trivial, ?_, trivial⟩
  show Value.AllJson (issues.map issueValue)
  induction issues with
  | nil => trivial
  | cons i issues ih => exact ⟨⟨by simp, trivial, trivial, trivial, trivial⟩, ih⟩

section

variable {F : Framework} (hF : F.Faithful) {body : String}
  (hbody : EncodeRequest.WrittenBy ⟨source, indent, .absent⟩ body)
include hF hbody

theorem respond_text {d : Description} {i : Option Int}
    (h : interfaceText (indent.or settings.indent) false (.text source) = .ok (d.text i)) :
    F (app settings) (Endpoint.encode.request body) =
      ⟨200, some (.keyed [("interface", d.toValue.reread), ("text", .text (d.text i))])⟩ := by
  have hcalls : (app settings).Calls (Endpoint.encode.request body)
    (encode settings ⟨source, indent, .absent⟩) := .encode hbody
  rw [encode_of_text h] at hcalls
  exact hF.returned hcalls ⟨by simp, d.isJson_reread, trivial, trivial⟩
    (Text.StandIns.loneRun?_absent _)

/-- A description that fails is answered as the handler of its error says, if there is one. -/
theorem respond_error {e : DescribeError} {a : Answer}
    (h : interfaceText (indent.or settings.indent) false (.text source) = .error e)
    (hhandler : handler? (.describe e) = some a) (hjson : a.body.IsJson) :
    F (app settings) (Endpoint.encode.request body) = ⟨a.status, some a.body⟩ := by
  have hcalls : (app settings).Calls (Endpoint.encode.request body)
    (encode settings ⟨source, indent, .absent⟩) := .encode hbody
  rw [encode_of_error h] at hcalls
  exact hF.handled hcalls hhandler hjson

theorem status_unhandled {e : DescribeError}
    (h : interfaceText (indent.or settings.indent) false (.text source) = .error e)
    (hhandler : handler? (.describe e) = none) :
    (F (app settings) (Endpoint.encode.request body)).status = 500 := by
  have hcalls : (app settings).Calls (Endpoint.encode.request body)
    (encode settings ⟨source, indent, .absent⟩) := .encode hbody
  rw [encode_of_error h] at hcalls
  exact hF.unhandled hcalls hhandler

end

end Service

/-! ## Agreement -/

open CommandLine

/-- All issues, in order. -/
def listing (issues : List Issue) : String :=
  s!"✘ {issues.length} type error(s):\n" ++ String.join (issues.map fun i => "  " ++ i.line ++ "\n")

/-- One answer from all sides: what becomes of a source, the runs of `encode` and `check` on the file
that holds it, and the response to a request for it. -/
inductive Agree (w : World) (file : String) (indent : Option Int) :
    Except DescribeError String → Outcome → Outcome → Service.Response → Prop where
  /-- a text, which is printed, and sent with what it reads as -/
  | text {t names : String} {interface : Value}
      (reads : InterfaceText.load (.text t) = .ok interface) :
      Agree w file indent (.ok t) (w.prints (t ++ "\n"))
        (w.prints ("✔ " ++ file ++ ": " ++ names ++ " OK\n"))
        ⟨200, some (.keyed [("interface", interface), ("text", .text t)])⟩
  /-- an error in the source, reported with its message and place -/
  | source (e : SourceError) :
      Agree w file indent (.error (.source e)) (w.reports ("✘ " ++ e.message ++ "\n"))
        (w.reports ("✘ " ++ e.message ++ "\n"))
        ⟨400, some (.keyed [("error", .text "parse"), ("message", .text e.message),
          ("line", .int e.line), ("column", .int e.column)])⟩
  /-- typing issues, all of them in order -/
  | typing (issues : List Issue) :
      Agree w file indent (.error (.typing (.illTyped issues))) (w.reports (listing issues))
        (w.reports (listing issues))
        ⟨422, some (.keyed [("error", .text "type"), ("issues", .list (issues.map fun i =>
          .keyed [("line", .int i.pos.line), ("column", .int i.pos.col),
            ("message", .text i.message)]))])⟩
  /-- an indent that is no machine integer, which nobody is told of -/
  | layout {names : String} {n : Int} {response : Service.Response} (asked : indent = some n)
      (out : ¬(-0x8000000000000000 ≤ n ∧ n < 0x8000000000000000))
      (failed : response.status = 500) :
      Agree w file indent (.error (.layout .notAnIndex))
        (w.ends (.crash (.describe (.layout .notAnIndex))) "" "")
        (w.prints ("✔ " ++ file ++ ": " ++ names ++ " OK\n")) response

/-- The indent of the settings can be laid out. -/
theorem indentFault?_settings (env : Environment) :
    Json.indentFault? (Settings.ofEnvironment env).indent = none := by
  obtain ⟨hindent, -⟩ := Settings.wellFormed_ofEnvironment env
  cases h : (Settings.ofEnvironment env).indent with
  | none => rfl
  | some n =>
    obtain ⟨hlow, hhigh⟩ := hindent n h
    rw [Json.indentFault?_eq_none_iff]
    omega

/-- The front ends agree on a source if what is read of the file and what is sent in the request have
its description. -/
theorem agree_of_describe (w : World) {F : Service.Framework} (hF : F.Faithful)
    {file read sent body : String} {indent : Option Int} {source : Source}
    (hindent : ∀ n ∈ indent, (Decimal.digits n.natAbs).length ≤ Text.maxDecimalDigits)
    (hfile : IsPlain file) (hread : readInput w file = .ok read)
    (hbody : Service.EncodeRequest.WrittenBy ⟨sent, indent, .absent⟩ body)
    (hdescribed : describe false (.text read) = describe false source)
    (hdescribed' : describe false (.text sent) = describe false source) :
    let settings := Settings.ofEnvironment w.environment
    Agree w file indent (interfaceText (indent.or settings.indent) false source)
      (run w ("encode" :: file :: indentArguments indent)) (run w ["check", file])
      (F (Service.app settings) (Service.Endpoint.encode.request body)) := by
  intro settings
  have hdescribe := interfaceText_eq (indent.or settings.indent) false source
  have htext {s : String} (hs : describe false (.text s) = describe false source) :
      interfaceText (indent.or settings.indent) false (.text s) =
        interfaceText (indent.or settings.indent) false source := by
    rw [interfaceText_eq, hs, hdescribe]
  have hsent := htext hdescribed'
  obtain ⟨hchecked, hchecksource, hchecktyping⟩ := runCheck_eq hread
  rw [hdescribed] at hchecked hchecksource hchecktyping
  rw [@run_eq w _ _ (ofArguments_encode hfile hindent), @run_eq w _ _ (ofArguments_check hfile),
    runCommand, runCommand, Command.run, Command.run, runEncode_eq hread settings indent,
    htext hdescribed]
  obtain ⟨⟨d, hd⟩ | ⟨e, he⟩ | ⟨issues, hissues⟩, -⟩ := describe_outcome false source
  · obtain ⟨names, hnames⟩ := hchecked d hd
    rw [hd] at hdescribe
    cases hfault : Json.indentFault? (indent.or settings.indent) with
    | none =>
      simp only [Description.textWithin, hfault] at hdescribe
      rw [hdescribe, hnames, Service.respond_text hF hbody (hsent.trans hdescribe)]
      simp only [terminated_text]
      exact .text (d.loadKeeping_text Text.replaced _)
    | some f =>
      simp only [Description.textWithin, hfault] at hdescribe
      have hstatus := Service.status_unhandled hF hbody (hsent.trans hdescribe) rfl
      cases f
      rw [hdescribe, hnames]
      cases indent with
      | none =>
        rw [Option.none_or, indentFault?_settings] at hfault
        cases hfault
      | some n =>
        refine .layout rfl (fun hin => ?_) hstatus
        rw [Option.some_or, (Json.indentFault?_eq_none_iff n).2 hin] at hfault
        cases hfault
  · rw [he] at hdescribe
    rw [hdescribe, hchecksource e he, Service.respond_error hF hbody (hsent.trans hdescribe) rfl
      ⟨by simp, trivial, trivial, trivial, trivial, trivial⟩]
    exact .source e
  · rw [hissues] at hdescribe
    rw [hdescribe, hchecktyping issues hissues, Service.respond_error hF hbody
      (hsent.trans hdescribe) rfl (Service.isJson_issues issues)]
    exact .typing issues

/-- **The front ends agree.**  For every source without returns, `encode` prints, reports or crashes,
`check` does so up to the text, and the service answers, all as the description of the source says,
under every framework that is faithful to the service. -/
theorem front_ends_agree (w : World) {F : Service.Framework} (hF : F.Faithful)
    {file source body : String} {indent : Option Int}
    (hindent : ∀ n ∈ indent, (Decimal.digits n.natAbs).length ≤ Text.maxDecimalDigits)
    (hfile : w.Holds file source) (hreturn : '\r' ∉ source.toList)
    (hbody : Service.EncodeRequest.WrittenBy ⟨source, indent, .absent⟩ body) :
    let settings := Settings.ofEnvironment w.environment
    Agree w file indent (interfaceText (indent.or settings.indent) false (.text source))
      (run w ("encode" :: file :: indentArguments indent)) (run w ["check", file])
      (F (Service.app settings) (Service.Endpoint.encode.request body)) := by
  have hread : readInput w file = .ok source := by
    rw [readInput_of_holds hfile, Text.uniformNewlines_of_not_mem _ hreturn, String.ofList_toList]
  exact agree_of_describe w hF hindent hfile.plain hread hbody rfl rfl

/-- A source in a file of its own, and nothing else. -/
def worldOf (source : String) : World :=
  ⟨[], ⟨[(["c.aes"], Text.Utf8.encode source.toList)], []⟩, []⟩

theorem holds_worldOf (source : String) : (worldOf source).Holds "c.aes" source :=
  ⟨isPlain_of_head (by decide), rfl⟩

theorem digits_two : ∀ n ∈ some (2 : Int), (Decimal.digits n.natAbs).length ≤ 4300 := by
  rintro n ⟨⟩
  rw [Json.digits_of_lt (by decide)]
  decide

theorem front_ends_agree_empty :
    let source := "contract C =\n"
    let body := (Value.keyed [("source", .text source), ("indent", .int 2)]).write none
    let w := worldOf source
    Service.Framework.Faithful Service.Host.respond ∧ '\r' ∉ source.toList ∧
      Service.EncodeRequest.WrittenBy ⟨source, some 2, .absent⟩ body ∧
      Agree w "c.aes" (some 2) (interfaceText (some 2) false (.text source))
        (run w ["encode", "c.aes", "--indent", Decimal.intText 2]) (run w ["check", "c.aes"])
        (Service.Host.respond (Service.app (Settings.ofEnvironment w.environment))
          (Service.Endpoint.encode.request body)) := by
  intro source body w
  have hreturn : '\r' ∉ source.toList := by decide
  have hwritten := Service.EncodeRequest.writtenBy_write source digits_two
  exact ⟨Service.Host.faithful_respond, hreturn, hwritten,
    front_ends_agree w Service.Host.faithful_respond digits_two (holds_worldOf source) hreturn
      hwritten⟩

/-- Below the machine integers there is an indent with which a source has neither a text nor an error
that anybody reports. -/
theorem not_answered_of_every_indent :
    ¬∀ (w : World) (file source : String) (indent : Option Int),
      w.Holds file source → '\r' ∉ source.toList →
      let settings := Settings.ofEnvironment w.environment
      let text := interfaceText (indent.or settings.indent) false (.text source)
      (∃ t, text = .ok t) ∨ (∃ e, text = .error (.source e)) ∨
        ∃ issues, text = .error (.typing (.illTyped issues)) := by
  intro h
  have hlayout : interfaceText (some (-9223372036854775809)) false (.text "contract C =\n") =
      .error (.layout .notAnIndex) := by cbv
  have hanswer := h (worldOf "contract C =\n") "c.aes" "contract C =\n"
    (some (-9223372036854775809)) (holds_worldOf _) (by decide)
  simp only [Option.some_or, hlayout] at hanswer
  obtain ⟨t, ht⟩ | ⟨e, he⟩ | ⟨issues, hissues⟩ := hanswer
  · cases ht
  · cases he
  · cases hissues

end ContractInterface
