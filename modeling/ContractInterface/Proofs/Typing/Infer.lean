import Mathlib
import ContractInterface.Proofs.Grammar.Shape
import ContractInterface.Proofs.Typing.Checker

/-!
# Checking the units of sources

Nothing in the unit of a source stops the checker (`Contract.Built.unhindered`), so it goes through
all contracts and answers with what it found:

    ofSource source = .ok unit →
      (infer unit = .ok unit ↔ WellTyped unit) ∧
      (¬ WellTyped unit → ∃ issues, infer unit = .error (.illTyped issues) ∧
        Reports (Violates unit) issues ∧ Ascending Issue.pos issues)        (infer_of_ofSource)
-/

namespace ContractInterface

variable {P : TokenKind → Name → Prop}

/-! ## Obstacles -/

section

open Checker

variable {place : Place}

theorem Checker.unhindered_uniqueFindings {problem : String → Problem} {seen : List String}
    {ts : List TypeExpr} (h : ∀ t ∈ ts, ∃ n, t.name? = some n) :
    Unhindered (uniqueFindings problem seen ts) := by
  induction ts generalizing seen with
  | nil => exact unhindered_nil
  | cons t ts ih =>
    obtain ⟨n, hn⟩ := h t (by simp)
    simp only [uniqueFindings, hn, unhindered_append]
    exact ⟨unhindered_ite (by simp) (by simp), ih fun u hu => h u (List.mem_cons_of_mem _ hu)⟩

theorem Checker.unhindered_labelFindings {label? : TypeExpr → Option TypeExpr} {part : String}
    {problem : String → Problem} {members : List TypeExpr} (h : ∀ t ∈ members, ∃ label n,
      label? t = some label ∧ unlabelled? label? part t = none ∧ label.name? = some n) :
    Unhindered (labelFindings label? part problem members) := by
  have hnone : members.filterMap (unlabelled? label? part) = [] := by
    rw [List.filterMap_eq_nil_iff]
    intro t ht
    obtain ⟨label, n, -, hlabelled, -⟩ := h t ht
    exact hlabelled
  rw [labelFindings, hnone, List.map_nil, List.nil_append]
  refine unhindered_uniqueFindings fun label hlabel => ?_
  obtain ⟨t, ht, e⟩ := List.mem_filterMap.1 hlabel
  obtain ⟨label', n, e', -, hname⟩ := h t ht
  cases e.symm.trans e'
  exact ⟨n, hname⟩

theorem Checker.unhindered_typeNameFindings {contract : String} {seen : List String}
    {ds : List TypeDef} : Unhindered (typeNameFindings contract seen ds) := by
  induction ds generalizing seen with
  | nil => exact unhindered_nil
  | cons d ds ih =>
    rw [typeNameFindings]
    refine unhindered_ite (unhindered_cons_issue.2 ih) (unhindered_append.2 ⟨?_, ih⟩)
    exact unhindered_ite (by simp) (by simp)

variable (c : Checker)

theorem Checker.unhindered_arityFindings (n : Name) (got : Nat) :
    Unhindered (c.arityFindings place n got) := by
  unfold arityFindings
  split
  · simp
  · exact unhindered_ite (by simp) (by simp)

namespace TypeExpr

theorem Built.unhindered {t : TypeExpr} (h : t.Built P) (bound : Option (List String)) :
    Unhindered (c.typeFindings bound place t) := by
  match t with
  | .var _ => exact unhindered_ite (by simp) (by simp)
  | .named n => exact unhindered_arityFindings c n 0
  | .contract _ => exact unhindered_ite (by simp) (by simp)
  | .app head args =>
    obtain ⟨n, rfl, -, -, hargs⟩ := built_app h
    rw [typeFindings, typesFindings_eq, unhindered_append, unhindered_flatMap]
    exact ⟨unhindered_arityFindings c n args.length, fun u hu => (hargs u hu).unhindered bound⟩
  | .tuple parts =>
    have hparts := builtAll_iff.1 h.2
    rw [typeFindings, typesFindings_eq, unhindered_flatMap]
    exact fun u hu => (hparts u hu).unhindered bound
  | .record _ => exact h.elim
  | .field _ _ _ => exact h.elim
  | .variant _ => exact h.elim
  | .constr _ _ _ => exact h.elim
  | .synonym _ => exact h.elim
  | .foreign _ _ _ => exact h.elim
termination_by sizeOf t
decreasing_by
  all_goals
    have := List.sizeOf_lt_of_mem hu
    simp
    omega

theorem BuiltBody.unhindered_members {t : TypeExpr} (h : t.BuiltBody P) :
    Unhindered (memberFindings place t) := by
  cases t with
  | synonym t => exact unhindered_nil
  | record fields =>
    refine unhindered_labelFindings fun t ht => ?_
    obtain ⟨n, type, rfl, -⟩ := h.2 t ht
    exact ⟨.named n, n, rfl, rfl, rfl⟩
  | variant constructors =>
    refine unhindered_labelFindings fun t ht => ?_
    obtain ⟨n, args, rfl, -⟩ := h.2 t ht
    exact ⟨.contract n, n, rfl, rfl, rfl⟩
  | _ => exact h.elim

theorem BuiltBody.unhindered {t : TypeExpr} (h : t.BuiltBody P) (bound : Option (List String)) :
    Unhindered (c.typeFindings bound place t) := by
  cases t with
  | synonym t => exact Built.unhindered c (t := t) h bound
  | record fields =>
    rw [typeFindings, typesFindings_eq, unhindered_flatMap]
    intro t ht
    obtain ⟨n, type, rfl, -, htype⟩ := h.2 t ht
    exact htype.unhindered c bound
  | variant constructors =>
    rw [typeFindings, typesFindings_eq, unhindered_flatMap]
    intro t ht
    obtain ⟨n, args, rfl, -, hargs⟩ := h.2 t ht
    rw [typeFindings, typesFindings_eq, unhindered_flatMap]
    exact fun u hu => (builtAll_iff.1 hargs u hu).unhindered c bound
  | _ => exact h.elim

end TypeExpr

theorem TypeDef.Built.unhindered {d : TypeDef} (h : d.Built P) :
    Unhindered (c.typeDefFindings d) := by
  have hvars : Unhindered (uniqueFindings (.repeatedVar · d.name.text) [] (d.vars.map .var)) := by
    refine unhindered_uniqueFindings fun t ht => ?_
    obtain ⟨n, -, rfl⟩ := List.mem_map.1 ht
    exact ⟨n, rfl⟩
  rw [typeDefFindings, unhindered_append, unhindered_append]
  exact ⟨⟨hvars, h.body.unhindered_members⟩, h.body.unhindered c _⟩

theorem Checker.unhindered_ascriptionFindings {missing : Issue} {type : Option TypeExpr}
    (h : ∀ t, type = some t → t.Built P) :
    Unhindered (c.ascriptionFindings place missing type) := by
  cases type with
  | none => simp [ascriptionFindings]
  | some t => exact (h t rfl).unhindered c none

theorem FunctionDef.Built.unhindered {d : FunctionDef} (h : d.Built P) :
    Unhindered (c.functionFindings d) := by
  have hlabels : Unhindered (uniqueFindings
      (.repeatedArgument · (.function d.name.text)) [] (d.params.map Param.label)) := by
    refine unhindered_uniqueFindings fun t ht => ?_
    obtain ⟨p, hp, rfl⟩ := List.mem_map.1 ht
    obtain ⟨n, hn, -⟩ := (h.params p hp).label
    exact ⟨n, by rw [hn]; rfl⟩
  rw [functionFindings, unhindered_append, unhindered_append, unhindered_flatMap]
  refine ⟨⟨hlabels, fun p hp => ?_⟩, unhindered_ascriptionFindings c h.result⟩
  exact unhindered_ascriptionFindings c (h.params p hp).type

theorem Checker.unhindered_functionsFindings {contract : String} {seen : List String}
    {ds : List FunctionDef} (h : ∀ d ∈ ds, d.Built P) :
    Unhindered (c.functionsFindings contract seen ds) := by
  induction ds generalizing seen with
  | nil => exact unhindered_nil
  | cons d ds ih =>
    rw [functionsFindings, unhindered_append, unhindered_append]
    refine ⟨⟨unhindered_ite (by simp) (by simp), (h d (by simp)).unhindered c⟩, ih ?_⟩
    exact fun e he => h e (List.mem_cons_of_mem _ he)

/-- Nothing in the contract of a source stops a checker. -/
theorem Contract.Built.unhindered {k : Contract} (h : k.Built P) :
    Unhindered (c.contractFindings k) := by
  rw [contractFindings, unhindered_append, unhindered_append, unhindered_flatMap]
  exact ⟨⟨unhindered_typeNameFindings, fun d hd => (h.typeDef hd).unhindered c⟩,
    unhindered_functionsFindings c fun d hd => h.function hd⟩

end

/-! ## Units -/

/-- Where nothing stops it, the checker goes through all contracts; the issues it had stay. -/
theorem Checker.run_reports (unit : List Contract) (ks : List Contract) (c : Checker)
    (hnames : c.contractNames = unit.map fun k => k.name.text)
    (hks : ∀ k ∈ ks, ∀ c : Checker, Unhindered (c.contractFindings k)) :
    ∃ issues types, c.run ks = (none, ⟨c.contractNames, types, c.issues ++ issues⟩) ∧
      Reports (Reports.At ks fun k => k.Violates unit) issues := by
  induction ks generalizing c with
  | nil =>
    refine ⟨[], c.localTypes, by rw [run, List.append_nil], .nil ?_⟩
    rintro site issue ⟨k, hk, -⟩
    cases hk
  | cons k ks ih =>
    have hsetUp : (c.enter k).SetUp unit k := ⟨hnames, rfl⟩
    have hnote := note_of_unhindered (hks k (by simp) (c.enter k)) (c.enter k)
    obtain ⟨issues, types, hrun, hissues⟩ := ih
      ((c.enter k).withIssues (issuesOf ((c.enter k).contractFindings k)))
      hnames fun k' hk' => hks k' (List.mem_cons_of_mem _ hk')
    refine ⟨issuesOf ((c.enter k).contractFindings k) ++ issues, types, ?_, ?_⟩
    · rw [run, checkContract, hnote]
      refine hrun.trans ?_
      rw [withIssues, List.append_assoc]
      rfl
    · refine (reports_contract hsetUp).cons hissues ?_ ?_
      · intro s issue
        simp [Reports.At]
      · intro i s issue
        simp [Reports.At]

theorem infer_eq {unit : List Contract}
    (h : ∀ k ∈ unit, ∀ c : Checker, Checker.Unhindered (c.contractFindings k)) :
    ∃ issues, Reports (Violates unit) issues ∧ Contract.infer unit =
      if issues = [] then .ok unit else .error (.illTyped (sortByPosition Issue.pos issues)) := by
  obtain ⟨issues, types, hrun, hissues⟩ :=
    Checker.run_reports unit unit (Checker.fresh.start unit) rfl h
  refine ⟨issues, hissues, ?_⟩
  rw [Contract.infer, Checker.infer, hrun]
  cases issues <;> rfl

/-- **The checker is sound and complete for the rules**, and where they do not hold it reports
every violation once. -/
theorem infer_of_ofSource (source : String) (unit : List Contract)
    (h : Contract.ofSource source = .ok unit) :
    (Contract.infer unit = .ok unit ↔ WellTyped unit) ∧
      (¬ WellTyped unit → ∃ issues, Contract.infer unit = .error (.illTyped issues) ∧
        Reports (Violates unit) issues ∧ Ascending Issue.pos issues) := by
  obtain ⟨issues, hissues, hinfer⟩ :=
    infer_eq fun k hk c => (Grammar.built_of_ofSource h k hk).1.unhindered c
  have hempty : issues = [] ↔ WellTyped unit := hissues.eq_nil_iff.trans wellTyped_iff.symm
  rw [hinfer]
  by_cases hnil : issues = []
  · have htyped := hempty.1 hnil
    rw [if_pos hnil]
    exact ⟨iff_of_true rfl htyped, fun hno => absurd htyped hno⟩
  · rw [if_neg hnil]
    refine ⟨iff_of_false (by rintro ⟨⟩) (mt hempty.2 hnil), fun _ => ?_⟩
    exact ⟨_, rfl, hissues.perm (perm_sortByPosition _ _), ascending_sortByPosition _ _⟩

theorem infer_of_ofSource_unknown : ∃ unit,
    Contract.ofSource "contract C =\n  type t = u" = .ok unit ∧
      (Contract.infer unit = .ok unit ↔ WellTyped unit) ∧
      (¬ WellTyped unit → ∃ issues, Contract.infer unit = .error (.illTyped issues) ∧
        Reports (Violates unit) issues ∧ Ascending Issue.pos issues) := by
  have h : Contract.ofSource "contract C =\n  type t = u" =
      .ok [⟨⟨"C", some ⟨1, 10⟩⟩, [.typeDef ⟨⟨"t", some ⟨2, 8⟩⟩, [],
        .synonym (.named ⟨"u", some ⟨2, 12⟩⟩), some ⟨2, 3⟩⟩], some ⟨1, 1⟩⟩] := by
    cbv
  exact ⟨_, h, infer_of_ofSource _ _ h⟩

end ContractInterface
