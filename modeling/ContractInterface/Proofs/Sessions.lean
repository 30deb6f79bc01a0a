import ContractInterface.Proofs.LastMark
import ContractInterface.Session

/-!
# Settings over a session

The settings that a step sees are those of the environment at the first step that consulted them
since they were last dropped (`Snapshot`), whatever has been changed in between:

    Snapshot env (before ++ [a]) e → (run (before ++ a :: later))[before.length]? =
      some (a.answer (.ofEnvironment e))

Which steps consult them is a property of the step alone (`Step.Consults`); what any other step
answers does not depend on settings (`settings_are_a_snapshot`).
-/

namespace ContractInterface

theorem LogLevel.label_mem (l : LogLevel) :
    l.label ∈ ["CRITICAL", "ERROR", "WARNING", "INFO", "DEBUG"] := by
  cases l <;> decide

namespace Session

variable {s : Session} {a : Step} {σ : Settings} {env e : Environment} {steps : List Step}

/-! ## What a step does -/

/-- The step consults the settings. -/
def Step.Consults : Step → Prop
  | .assign .. => False
  | .clear => False
  | .settings => True
  | .encode _ indent => indent = none
  | .decode (.value _) flag => flag = none
  | .decode (.text t) flag => flag = none ∧ ∃ entries, t.load = .ok (.keyed entries)

/-- What a step answers where the settings `σ` are in force. -/
def Step.answer (σ : Settings) : Step → Answer
  | .assign .. => .nothing
  | .clear => .nothing
  | .settings => .settings σ
  | .encode r indent => .encoded (r.text (indent.or σ.indent))
  | .decode (.value v) flag =>
    .decoded (((Stub.ofValue (flag.getD σ.typeDefs) v).mapError .malformed).map Stub.text)
  | .decode (.text t) flag => .decoded ((t.stub (flag.getD σ.typeDefs)).map Stub.text)

/-- The environment that a step leaves. -/
def Step.environment (env : Environment) : Step → Environment
  | .assign name value => env.assign name value
  | _ => env

/-- What is kept of the settings by a step that does not consult them. -/
def Step.kept (cached : Option Settings) : Step → Option Settings
  | .clear => none
  | _ => cached

theorem loaded_eq_keyed {cs : List Char} {r : Except Json.Fault Json.Value} {v : Json.Value}
    (h : loaded cs r = .ok v) : ∃ entries, v = .keyed entries := by
  unfold loaded at h
  split at h
  · exact ⟨_, (Except.ok.inj h).symm⟩
  all_goals cases h

theorem load_eq_keyed {t : InterfaceText} {v : Json.Value} (h : t.load = .ok v) :
    ∃ entries, v = .keyed entries := by
  unfold InterfaceText.load InterfaceText.loadKeeping at h
  cases t with
  | text cs => exact loaded_eq_keyed h
  | bytes b =>
    cases hd : Text.Encoding.decode Text.replaced b with
    | error offset =>
      simp only [hd] at h
      cases h
    | ok cs =>
      simp only [hd] at h
      exact loaded_eq_keyed h

theorem stub_of_load {t : InterfaceText} {v : Json.Value} (h : t.load = .ok v) (types : Bool) :
    t.stub types = (Stub.ofValue types v).mapError .malformed := by
  unfold InterfaceText.load at h
  unfold InterfaceText.stub InterfaceText.stubKeeping
  rw [h]
  cases hstub : Stub.ofValue types v <;> simp only [hstub] <;> rfl

theorem stub_of_load_error {t : InterfaceText} {f : LoadError} (h : t.load = .error f)
    (types : Bool) : t.stub types = .error f := by
  unfold InterfaceText.load at h
  unfold InterfaceText.stub InterfaceText.stubKeeping
  rw [h]

/-- A step that consults the settings answers by them and keeps them. -/
theorem step_of_consults (s : Session) (h : a.Consults) :
    s.step a =
      (a.answer s.consult.1, ⟨a.environment s.environment, some s.consult.1⟩) := by
  cases a with
  | assign name value => exact h.elim
  | clear => exact h.elim
  | settings => rfl
  | encode r indent =>
    obtain rfl : indent = none := h
    rfl
  | decode input flag =>
    cases input with
    | value v =>
      obtain rfl : flag = none := h
      rfl
    | text t =>
      obtain ⟨rfl, entries, hload⟩ := h
      simp only [step, decode, hload, includeTypes, Step.answer, stub_of_load hload]
      rfl

/-- Any other step answers the same under all settings. -/
theorem step_of_not_consults (s : Session) (σ : Settings) (h : ¬a.Consults) :
    s.step a = (a.answer σ, ⟨a.environment s.environment, a.kept s.cached⟩) := by
  cases a with
  | assign name value => rfl
  | clear => rfl
  | settings => exact absurd trivial h
  | encode r indent =>
    cases indent with
    | none => exact absurd rfl h
    | some n => rfl
  | decode input flag =>
    cases input with
    | value v =>
      cases flag with
      | none => exact absurd rfl h
      | some b => rfl
    | text t =>
      cases hload : t.load with
      | error f =>
        simp only [step, decode, hload, Step.answer, stub_of_load_error hload]
        rfl
      | ok v =>
        cases flag with
        | none =>
          obtain ⟨entries, rfl⟩ := load_eq_keyed hload
          exact absurd ⟨rfl, entries, hload⟩ h
        | some b =>
          simp only [step, decode, hload, includeTypes, Step.answer, stub_of_load hload]
          rfl

theorem environment_step (s : Session) (a : Step) :
    (s.step a).2.environment = a.environment s.environment := by
  by_cases h : a.Consults
  · rw [step_of_consults s h]
  · rw [step_of_not_consults s s.consult.1 h]

/-- Settings in force stay so until they are dropped. -/
theorem cached_step (h : s.cached = some σ) (ha : a ≠ .clear) :
    (s.step a).2.cached = some σ := by
  by_cases hc : a.Consults
  · rw [step_of_consults s hc, consult, h]
    rfl
  · rw [step_of_not_consults s σ hc]
    cases a with
    | clear => exact absurd rfl ha
    | _ => exact h

/-- Where none are in force, it is the consulting steps that put some in force. -/
theorem cached_step_iff (h : s.cached = none) : (s.step a).2.cached.isSome ↔ a.Consults := by
  by_cases hc : a.Consults
  · rw [step_of_consults s hc]
    exact iff_of_true rfl hc
  · rw [step_of_not_consults s s.consult.1 hc, h]
    cases a <;> exact iff_of_false Bool.false_ne_true hc

/-- The settings in force, if there are any, were built from an environment. -/
def IsBuilt (s : Session) : Prop := ∀ σ ∈ s.cached, ∃ e, σ = Settings.ofEnvironment e

theorem IsBuilt.consult (h : s.IsBuilt) : ∃ e, s.consult.1 = Settings.ofEnvironment e := by
  cases hc : s.cached with
  | none => exact ⟨s.environment, by rw [Session.consult, hc]; rfl⟩
  | some σ =>
    obtain ⟨e, he⟩ := h σ hc
    exact ⟨e, by rw [Session.consult, hc]; exact he⟩

theorem IsBuilt.step (h : s.IsBuilt) (a : Step) : (s.step a).2.IsBuilt := by
  by_cases hc : a.Consults
  · obtain ⟨e, he⟩ := h.consult
    rw [step_of_consults s hc, he]
    rintro _ ⟨⟩
    exact ⟨e, rfl⟩
  · rw [step_of_not_consults s s.consult.1 hc]
    cases a with
    | clear => rintro _ ⟨⟩
    | _ => exact h

/-! ## What a run does -/

/-- The session after some steps. -/
def after (s : Session) (steps : List Step) : Session :=
  steps.foldl (fun s a => (s.step a).2) s

/-- The environment after some steps. -/
def environmentAfter (env : Environment) (steps : List Step) : Environment :=
  steps.foldl Step.environment env

theorem after_append (s : Session) (steps steps' : List Step) :
    s.after (steps ++ steps') = (s.after steps).after steps' :=
  List.foldl_append

theorem environment_after (s : Session) (steps : List Step) :
    (s.after steps).environment = environmentAfter s.environment steps := by
  induction steps generalizing s with
  | nil => rfl
  | cons a steps ih =>
    show ((s.step a).2.after steps).environment = _
    rw [ih, environment_step]
    rfl

/-- The answer to a step is the one that it gives after the steps before it. -/
theorem run_at (s : Session) (before : List Step) (a : Step) (later : List Step) :
    (s.run (before ++ a :: later))[before.length]? = some ((s.after before).step a).1 := by
  induction before generalizing s with
  | nil => rfl
  | cons b before ih => exact ih (s.step b).2

theorem cached_after (h : s.cached = some σ) (hs : .clear ∉ steps) :
    (s.after steps).cached = some σ := by
  induction steps generalizing s with
  | nil => exact h
  | cons a steps ih =>
    have hne : a ≠ .clear := fun ha => hs (ha ▸ List.mem_cons_self)
    exact ih (cached_step h hne) fun hmem => hs (List.mem_cons_of_mem _ hmem)

theorem cached_after_eq_none (h : s.cached = none) (hs : ∀ b ∈ steps, ¬b.Consults) :
    (s.after steps).cached = none := by
  induction steps generalizing s with
  | nil => exact h
  | cons a steps ih =>
    have hstep : (s.step a).2.cached = none := by
      rw [← Option.not_isSome_iff_eq_none, cached_step_iff h]
      exact hs a List.mem_cons_self
    exact ih hstep fun b hb => hs b (List.mem_cons_of_mem _ hb)

theorem IsBuilt.after (h : s.IsBuilt) (steps : List Step) : (s.after steps).IsBuilt := by
  induction steps generalizing s with
  | nil => exact h
  | cons a steps ih => exact ih (h.step a)

/-! ## Snapshots -/

/-- `e` is the environment in which the settings were first consulted since they were dropped. -/
def Snapshot (env : Environment) (steps : List Step) (e : Environment) : Prop :=
  ∃ past fresh first since, LastMark .clear steps past (fresh ++ first :: since) ∧
    (∀ b ∈ fresh, ¬b.Consults) ∧ first.Consults ∧ e = environmentAfter env (past ++ fresh)

theorem exists_snapshot (env : Environment) (before : List Step) (h : a.Consults) :
    ∃ e, Snapshot env (before ++ [a]) e := by
  classical
  obtain ⟨past, back, hmark⟩ := exists_lastMark Step.clear before
  have hne : a ≠ .clear := by
    rintro rfl
    exact h
  have hsome : ((back ++ [a]).find? fun b => decide b.Consults).isSome = true :=
    List.find?_isSome.2 ⟨a, List.mem_concat_self, decide_eq_true h⟩
  obtain ⟨first, hfind⟩ := Option.isSome_iff_exists.1 hsome
  obtain ⟨hfirst, fresh, since, hsplit, hfresh⟩ := List.find?_eq_some_iff_append.1 hfind
  refine ⟨_, past, fresh, first, since, hsplit ▸ hmark.snoc hne, ?_, of_decide_eq_true hfirst, rfl⟩
  intro b hb hc
  have := hfresh b hb
  rw [decide_eq_true hc] at this
  cases this

/-- The settings in force are those of the snapshot. -/
theorem cached_of_snapshot (h : Snapshot env steps e) :
    ((ofEnvironment env).after steps).cached = some (.ofEnvironment e) := by
  obtain ⟨past, fresh, first, since, ⟨rfl, hends, hkept⟩, hfresh, hfirst, rfl⟩ := h
  have hpast : ((ofEnvironment env).after past).cached = none := by
    rcases hends with rfl | ⟨r, rfl⟩
    · rfl
    · rw [after_append]
      rfl
  have hnone : ((ofEnvironment env).after (past ++ fresh)).cached = none := by
    rw [after_append]
    exact cached_after_eq_none hpast hfresh
  rw [← List.append_assoc, after_append]
  show (((Session.step _ first).2).after since).cached = _
  apply cached_after
  · rw [step_of_consults _ hfirst, consult, hnone, environment_after]
    rfl
  · intro hmem
    exact hkept (List.mem_append_right _ (List.mem_cons_of_mem _ hmem))

/-- **The settings that a step consults are a snapshot of the environment**, whatever the steps
before it; what other steps answer does not depend on settings, and only consulting puts some in
force.  All settings ever in force make sense. -/
theorem settings_are_a_snapshot (env : Environment) (before : List Step) (a : Step)
    (later : List Step) :
    (a.Consults → (∃ e, Snapshot env (before ++ [a]) e) ∧ ∀ e, Snapshot env (before ++ [a]) e →
      ((ofEnvironment env).run (before ++ a :: later))[before.length]? =
        some (a.answer (.ofEnvironment e)) ∧
      ((ofEnvironment env).after (before ++ [a])).cached = some (.ofEnvironment e)) ∧
    (¬a.Consults → ∀ σ,
      ((ofEnvironment env).run (before ++ a :: later))[before.length]? = some (a.answer σ)) ∧
    (∀ r n, a = .encode r (some n) → ¬a.Consults) ∧
    (∀ input types, a = .decode input (some types) → ¬a.Consults) ∧
    (∀ s : Session, s.cached = none → ((s.step a).2.cached.isSome ↔ a.Consults)) ∧
    ∀ σ ∈ ((ofEnvironment env).after before).cached, σ.WellFormed ∧
      σ.logLevel.label ∈ ["CRITICAL", "ERROR", "WARNING", "INFO", "DEBUG"] := by
  refine ⟨?_, ?_, ?_, ?_, fun s hs => cached_step_iff hs, ?_⟩
  · intro h
    refine ⟨exists_snapshot env before h, fun e he => ?_⟩
    have hcached := cached_of_snapshot he
    refine ⟨?_, hcached⟩
    -- what the step keeps is what it has consulted
    rw [after_append] at hcached
    change (((ofEnvironment env).after before).step a).2.cached = _ at hcached
    rw [step_of_consults _ h] at hcached
    rw [run_at, step_of_consults _ h, Option.some.inj hcached]
  · intro h σ
    rw [run_at, step_of_not_consults _ σ h]
  · rintro r n rfl h
    cases h
  · rintro (v | t) types rfl h
    · cases h
    · cases h.1
  · intro σ hσ
    have hbuilt : (ofEnvironment env).IsBuilt := fun _ h => by cases h
    obtain ⟨e, rfl⟩ := hbuilt.after before σ hσ
    exact ⟨Settings.wellFormed_ofEnvironment e, LogLevel.label_mem _⟩

/-- A source that is rejected fixes the settings all the same. -/
theorem settings_are_a_snapshot_rejected :
    let rejected : DescribeRequest := ⟨.text "contract", false, Contract.ofSource, Contract.infer⟩
    let steps := [.assign "ACI_JSON_INDENT" (some "2"), .encode rejected none,
      .assign "ACI_JSON_INDENT" (some "4")]
    Step.settings.Consults ∧ Snapshot [] (steps ++ [.settings]) [("ACI_JSON_INDENT", "2")] ∧
      ((ofEnvironment []).run (steps ++ [.settings]))[3]? =
        some (.settings (.ofEnvironment [("ACI_JSON_INDENT", "2")])) ∧
      (Settings.ofEnvironment [("ACI_JSON_INDENT", "2")]).indent = some 2 := by
  intro rejected steps
  have hsnapshot : Snapshot [] (steps ++ [.settings]) [("ACI_JSON_INDENT", "2")] := by
    refine ⟨[], [.assign "ACI_JSON_INDENT" (some "2")], .encode rejected none,
      [.assign "ACI_JSON_INDENT" (some "4"), .settings], ⟨rfl, .inl rfl, ?_⟩, ?_, rfl, rfl⟩
    · simp
    · rintro b (_ | ⟨_, ⟨⟩⟩) h
      exact h
  exact ⟨trivial, hsnapshot,
    (((settings_are_a_snapshot [] steps .settings []).1 trivial).2 _ hsnapshot).1, by decide⟩

end Session

end ContractInterface
