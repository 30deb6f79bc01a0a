import ContractInterface.Main
import ContractInterface.Proofs.Agreement
import ContractInterface.Proofs.Stub

/-!
# All or nothing

A command that describes, decodes or checks and does not end with zero prints nothing and leaves
every file as it was.  If it ends with zero, its result is complete and in one place: the output
file, or standard output (`Delivered`, `all_or_nothing`).

    (run w args).ending ≠ .code 0 → (run w args).stdout = "" ∧ (run w args).files = w.files

Texts that write lone surrogates are not covered: what cannot be encoded is found out when the
output file is open (`Command.Covered`).
-/

namespace ContractInterface

/-! ## The last line of a stub -/

theorem StubType.getLast?_line (t : StubType) : t.line.toList.getLast? = some '\n' := by
  rw [line, String.toList_append, List.getLast?_append]
  rfl

theorem StubFunction.getLast?_line (f : StubFunction) : f.line.toList.getLast? = some '\n' := by
  rw [line, String.toList_append, List.getLast?_append]
  rfl

theorem getLast?_lines {α : Type} {line : α → String}
    (h : ∀ a, (line a).toList.getLast? = some '\n') (as : List α) :
    (String.join (as.map line)).toList.getLast? = if as = [] then none else some '\n' := by
  rw [String.toList_join, List.flatMap_map]
  rcases List.eq_nil_or_concat as with rfl | ⟨bs, b, rfl⟩
  · rfl
  · rw [List.concat_eq_append, List.flatMap_append, List.flatMap_singleton, List.getLast?_append,
      h b, if_neg (List.append_ne_nil_of_right_ne_nil _ (List.cons_ne_nil _ _))]
    rfl

theorem Stub.getLast?_text (s : Stub) : s.text.toList.getLast? = some '\n' := by
  have hheader : ("contract " ++ s.name ++ " =\n").toList.getLast? = some '\n' := by
    rw [String.toList_append, List.getLast?_append]
    rfl
  rw [text, String.toList_append, List.getLast?_append, String.toList_append, List.getLast?_append,
    hheader, getLast?_lines StubFunction.getLast?_line, getLast?_lines StubType.getLast?_line]
  by_cases hfunctions : s.functions = []
  · by_cases htypes : s.types = []
    · rw [if_pos hfunctions, if_pos htypes]
      rfl
    · rw [if_pos hfunctions, if_neg htypes]
      rfl
  · rw [if_neg hfunctions]
    rfl

/-! ## Surrogates in pairs -/

namespace InterfaceText

/-- The surrogates in interface text come in pairs: what is read does not depend on the characters
that lone ones are kept as. -/
def IsPaired (t : InterfaceText) : Prop := ∀ lone, t.loadKeeping lone = t.load

theorem IsPaired.standIns {t : InterfaceText} (h : t.IsPaired) : t.standIns = .absent := by
  have hchars (c : Char) : t.chars c = t.chars '\x00' := by rw [chars, chars, h, h]
  exact if_pos (hchars '\ufffd').symm

theorem IsPaired.stubKeeping {t : InterfaceText} (h : t.IsPaired) (lone : Nat → Char)
    (types : Bool) : t.stubKeeping lone types = t.stub types := by
  rw [stub, InterfaceText.stubKeeping, InterfaceText.stubKeeping, h, h]

end InterfaceText

theorem Description.isPaired_text (d : Description) (indent : Option Int) :
    (InterfaceText.text (d.text indent)).IsPaired := by
  intro lone
  rw [InterfaceText.load, d.loadKeeping_text, d.loadKeeping_text]

namespace CommandLine

/-! ## What a command is to deliver -/

/-- The name of the file for the result; the empty name stands for none. -/
def Command.resultFile? (c : Command) : Option String := c.output?.filter fun name => !name.isEmpty

/-- The text that the command makes of its input: interface text, or the text of a stub. -/
inductive Command.Makes (w : World) : Command → String → Prop where
  | encode {file source text : String} {indent : Option Int} {publicOnly : Bool}
      {output : Option String} (read : readInput w file = .ok source)
      (described : interfaceText (indent.or (Settings.ofEnvironment w.environment).indent)
        publicOnly (.text source) = .ok text) :
      Makes w (.encode file indent publicOnly output) (text ++ "\n")
  | decode {file source : String} {types : Bool} {output : Option String} {stub : Stub}
      (read : readInput w file = .ok source)
      (decoded : (InterfaceText.text source).stub
        (types || (Settings.ofEnvironment w.environment).typeDefs) = .ok stub) :
      Makes w (.decode file types output) stub.text

/-- Where the result of a command is when it has succeeded, a text that ends with a line feed: what
is printed and the files that are left. -/
inductive Command.Delivered (w : World) (c : Command) : String → FileSystem → Prop where
  | printed {text : String} (makes : c.Makes w text) (ends : text.toList.getLast? = some '\n')
      (output : c.resultFile? = none) : Delivered w c text w.files
  | saved {text name : String} {files : FileSystem} (makes : c.Makes w text)
      (ends : text.toList.getLast? = some '\n') (output : c.resultFile? = some name)
      (saved : w.files.Saved name (Text.Utf8.encode text.toList) files) : Delivered w c "" files
  | checked {file : String} (names : String) (check : c = .check file) :
      Delivered w c ("✔ " ++ file ++ ": " ++ names ++ " OK\n") w.files

/-- The text to decode writes no lone surrogates. -/
def Command.Covered (w : World) : Command → Prop
  | decode file _ _ =>
    ∀ source, readInput w file = .ok source → (InterfaceText.text source).IsPaired
  | _ => True

theorem getLast?_of_makes {w : World} {c : Command} {text : String} (h : c.Makes w text) :
    text.toList.getLast? = some '\n' := by
  cases h with
  | encode read described => rw [String.toList_append, List.getLast?_append]; rfl
  | decode read decoded => exact Stub.getLast?_text _

/-! ## How a command ends -/

/-- A command that fails leaves the files alone, one that succeeds delivers its result. -/
inductive Command.Ends (w : World) (c : Command) : Except CommandError Done → Prop where
  | failed {e : CommandError} (left : e.filesLeft w.files = w.files) : Ends w c (.error e)
  | done {d : Done} (delivered : c.Delivered w d.stdout d.files) : Ends w c (.ok d)

variable {w : World} {c : Command} {file text : String} {output : Option String}

theorem filesLeft_of_readInput {e : CommandError} (h : readInput w file = .error e) :
    e.filesLeft w.files = w.files := by
  obtain ⟨f, rfl, _⟩ | ⟨offset, rfl⟩ := readInput_error h
  · rfl
  · rfl

/-- Without lone surrogates nothing but the output file can fail when all has been computed. -/
theorem ends_deliver (hmakes : c.Makes w (terminated text)) (houtput : c.output? = output) :
    c.Ends w (deliver w .absent text output) := by
  subst houtput
  cases hd : deliver w .absent text c.output? with
  | error e =>
    obtain ⟨f, name, rfl, _⟩ | ⟨run, left, rfl, hrun⟩ := deliver_error hd
    · exact .failed rfl
    · rw [Text.StandIns.loneRun?_absent] at hrun
      cases hrun
  | ok d =>
    apply Command.Ends.done
    simp only [deliver, Text.StandIns.loneRun?_absent] at hd
    cases hname : c.output?.filter fun name => !name.isEmpty with
    | none =>
      rw [hname] at hd
      cases hd
      exact .printed hmakes (getLast?_of_makes hmakes) hname
    | some name =>
      rw [hname] at hd
      simp only at hd
      cases hsave : w.files.save name (Text.Utf8.encode (terminated text).toList) with
      | error f =>
        rw [hsave] at hd
        cases hd
      | ok files =>
        rw [hsave] at hd
        cases hd
        exact .saved hmakes (getLast?_of_makes hmakes) hname
          (FileSystem.saved_of_save hsave)

theorem ends_encode (w : World) (file : String) (indent : Option Int) (publicOnly : Bool)
    (output : Option String) : (Command.encode file indent publicOnly output).Ends w
      (runEncode w (.ofEnvironment w.environment) file indent publicOnly output) := by
  unfold runEncode
  cases hread : readInput w file with
  | error e => exact .failed (filesLeft_of_readInput hread)
  | ok source =>
    simp only
    cases htext : interfaceText (indent.or (Settings.ofEnvironment w.environment).indent)
        publicOnly (.text source) with
    | error e => exact .failed rfl
    | ok text =>
      have hmakes : (Command.encode file indent publicOnly output).Makes w (text ++ "\n") :=
        .encode hread htext
      obtain ⟨_, _, _, d, _, _, _, _, rfl⟩ := interfaceText_eq_ok htext
      refine ends_deliver ?_ rfl
      rwa [terminated_text]

/-- Without lone surrogates in the text, a stub is delivered as it is. -/
theorem runDecode_of_paired {source : String} (hread : readInput w file = .ok source)
    (hpaired : (InterfaceText.text source).IsPaired) (settings : Settings) (types : Bool)
    (output : Option String) : runDecode w settings file types output =
      match (InterfaceText.text source).stub (types || settings.typeDefs) with
      | .error e => .error (.load e)
      | .ok stub => deliver w .absent stub.text output := by
  unfold runDecode
  cases hstub : (InterfaceText.text source).stub (types || settings.typeDefs) with
  | error e => simp only [hread, hpaired.standIns, hpaired.stubKeeping, hstub]
  | ok stub => simp only [hread, hpaired.standIns, hpaired.stubKeeping, hstub]

theorem ends_decode (w : World) (file : String) (types : Bool) (output : Option String)
    (hcovered : (Command.decode file types output).Covered w) :
    (Command.decode file types output).Ends w
      (runDecode w (.ofEnvironment w.environment) file types output) := by
  cases hread : readInput w file with
  | error e =>
    unfold runDecode
    rw [hread]
    exact .failed (filesLeft_of_readInput hread)
  | ok source =>
    rw [runDecode_of_paired hread (hcovered source hread)]
    cases hstub : (InterfaceText.text source).stub
        (types || (Settings.ofEnvironment w.environment).typeDefs) with
    | error e => exact .failed rfl
    | ok stub =>
      have hterminated : terminated stub.text = stub.text := if_pos stub.getLast?_text
      refine ends_deliver ?_ rfl
      rw [hterminated]
      exact .decode hread hstub

theorem ends_check (w : World) (file : String) :
    (Command.check file).Ends w (runCheck w file) := by
  unfold runCheck
  cases hread : readInput w file with
  | error e => exact .failed (filesLeft_of_readInput hread)
  | ok source =>
    simp only
    cases hunit : Contract.ofSource source with
    | error f =>
      simp only
      cases f.translate <;> exact .failed rfl
    | ok unit =>
      simp only
      cases Contract.infer unit with
      | error e => exact .failed rfl
      | ok unit => exact .done (.checked _ rfl)

theorem outcome_of_ends {settings : Settings} (h : c.Ends w (c.run w settings))
    (level : LogLevel) :
    let o := runCommand w settings level c
    o.ending = .code 0 ∧ c.Delivered w o.stdout o.files ∨
      (o.ending = .code 1 ∨ ∃ e, o.ending = .crash e) ∧ o.stdout = "" ∧ o.files = w.files := by
  intro o
  unfold o runCommand
  cases hrun : c.run w settings with
  | ok d =>
    rw [hrun] at h
    cases h with
    | done hdelivered => exact .inl ⟨rfl, hdelivered⟩
  | error e =>
    rw [hrun] at h
    cases h with
    | failed hleft =>
      right
      dsimp only
      by_cases hescapes : e.escapes = true
      · rw [if_pos hescapes]
        exact ⟨.inr ⟨e, rfl⟩, rfl, hleft⟩
      · rw [if_neg hescapes]
        exact ⟨.inl rfl, rfl, rfl⟩

/-- **A run is all or nothing**: if it does not end with zero it has printed nothing and has left
the files as they were, otherwise its result has been delivered. -/
theorem all_or_nothing {args : List String} {verbose : Bool}
    (hargs : Invocation.ofArguments args = .ok ⟨verbose, some c⟩)
    (hserve : ∀ host port, c ≠ .serve host port) (hcovered : c.Covered w) :
    (run w args).ending = .code 0 ∧ c.Delivered w (run w args).stdout (run w args).files ∨
      ((run w args).ending = .code 1 ∨ ∃ e, (run w args).ending = .crash e) ∧
        (run w args).stdout = "" ∧ (run w args).files = w.files := by
  rw [run, hargs]
  apply outcome_of_ends
  cases c with
  | encode file indent publicOnly output => exact ends_encode w file indent publicOnly output
  | decode file types output => exact ends_decode w file types output hcovered
  | check file => exact ends_check w file
  | serve host port => exact absurd rfl (hserve host port)

/-- An interface is decoded into its own file, which then holds the stub. -/
theorem all_or_nothing_in_place :
    let w := worldOf (Description.text ⟨"C", [], []⟩ none)
    let args := ["decode", "c.aes", "-o", "c.aes"]
    let c := Command.decode "c.aes" false (some "c.aes")
    Invocation.ofArguments args = .ok ⟨false, some c⟩ ∧ c.Covered w ∧
      (run w args).ending = .code 0 ∧ (run w args).stdout = "" ∧
      (run w args).files.open? "c.aes" = .ok (Text.Utf8.encode "contract C =\n".toList) := by
  intro w args c
  have hargs : Invocation.ofArguments args = .ok ⟨false, some c⟩ := by decide +kernel
  have hreturn : '\r' ∉ (Description.text ⟨"C", [], []⟩ none).toList := by decide +kernel
  have hread : readInput w "c.aes" = .ok (Description.text ⟨"C", [], []⟩ none) := by
    rw [readInput_of_holds (holds_worldOf _), Text.uniformNewlines_of_not_mem _ hreturn,
      String.ofList_toList]
  have hcovered : c.Covered w := by
    intro source h
    rw [← Except.ok.inj (hread.symm.trans h)]
    exact Description.isPaired_text _ _
  have hserve (host : Option String) (port : Option Int) : c ≠ .serve host port := by simp [c]
  have hstub := Description.stub_text ⟨"C", [], []⟩ none false
  have hsaved : (deliver w .absent (Description.stub false ⟨"C", [], []⟩).text (some "c.aes")).isOk =
      true := by
    decide +kernel
  have hending : (run w args).ending = .code 0 := by
    have hsettings : (false || (Settings.ofEnvironment w.environment).typeDefs) = false := rfl
    rw [run_eq hargs, runCommand, Command.run,
      runDecode_of_paired hread (Description.isPaired_text _ _), hsettings, hstub]
    cases hdone : deliver w .absent (Description.stub false ⟨"C", [], []⟩).text (some "c.aes") with
    | ok d => rfl
    | error e =>
      rw [hdone] at hsaved
      cases hsaved
  refine ⟨hargs, hcovered, hending, ?_⟩
  obtain ⟨-, hdelivered⟩ | ⟨hfailed, -⟩ := all_or_nothing hargs hserve hcovered
  · have hdelivered : (Command.decode "c.aes" false (some "c.aes")).Delivered w (run w args).stdout
      (run w args).files := hdelivered
    generalize (run w args).stdout = stdout, (run w args).files = files at hdelivered
    cases hdelivered with
    | printed makes ends output => cases output
    | checked names check => cases check
    | saved makes ends output saved =>
      cases output
      cases makes with
      | decode read decoded =>
        rw [← Except.ok.inj (hread.symm.trans read)] at decoded
        cases hstub.symm.trans decoded
        exact ⟨rfl, saved.opens⟩
  · obtain h | ⟨e, h⟩ := hfailed <;> cases hending.symm.trans h

end CommandLine

end ContractInterface
