import ContractInterface.Proofs.Typing.Findings
import ContractInterface.Proofs.Typing.Reports
import ContractInterface.Proofs.Typing.Rules

/-!
# What the checker reports

With its tables set up for a contract, the checker finds one issue for every site of the contract
that violates a rule, and no others:

    c.SetUp unit k → Reports (k.Violates unit) (issuesOf (c.contractFindings k))
                                                                          (reports_contract)
-/

namespace ContractInterface.Checker

open Reports (At)

/-! ## Names -/

/-- One name after the other; `emit` is told whether the name came before. -/
def announce (emit : Name → Bool → List Issue) (seen : List String) : List Name → List Issue
  | [] => []
  | n :: ns => emit n (seen.contains n.text) ++ announce emit (n.text :: seen) ns

section

variable {emit : Name → Bool → List Issue} {seen seen' : List String} {ns : List Name}

/-- The order in which names were seen does not matter, nor how often. -/
theorem announce_congr (h : ∀ name, name ∈ seen ↔ name ∈ seen') :
    announce emit seen ns = announce emit seen' ns := by
  induction ns generalizing seen seen' with
  | nil => rfl
  | cons n ns ih =>
    have hn : seen.contains n.text = seen'.contains n.text := by
      rw [Bool.eq_iff_iff, List.contains_iff_mem, List.contains_iff_mem, h]
    have hcons : ∀ name, name ∈ n.text :: seen ↔ name ∈ n.text :: seen' := by
      intro name
      rw [List.mem_cons, List.mem_cons, h]
    rw [announce, announce, hn, ih hcons]

/-- A name that came before need not be noted once more. -/
theorem announce_cons_of_contains {name : String} (h : seen.contains name = true) :
    announce emit (name :: seen) ns = announce emit seen ns := by
  refine announce_congr fun other => ?_
  rw [List.mem_cons, or_iff_right_iff_imp]
  rintro rfl
  exact List.contains_iff_mem.1 h

theorem reports_announce (hemit : ∀ n again, (emit n again).length ≤ 1) (seen : List String)
    (ns : List Name) : Reports (fun i issue => ∃ n, ns[i]? = some n ∧
      issue ∈ emit n ((seen ++ (ns.take i).map Name.text).contains n.text))
      (announce emit seen ns) := by
  have hsites : Reports (fun (site : Nat × Unit) issue => ∃ n, ns[site.1]? = some n ∧
      issue ∈ emit n ((seen ++ (ns.take site.1).map Name.text).contains n.text))
      (announce emit seen ns) := by
    induction ns generalizing seen with
    | nil =>
      refine .nil ?_
      rintro site issue ⟨n, hn, -⟩
      cases hn
    | cons n ns ih =>
      have hhead : Reports (fun (_ : Unit) issue => issue ∈ emit n (seen.contains n.text))
          (emit n (seen.contains n.text)) := .unit (hemit _ _) fun issue => .rfl
      refine hhead.cons (ih (n.text :: seen)) ?_ ?_
      · simp
      · -- what is seen before a later name is the same, in another order
        intro i _ issue
        have hseen (m : Name) : (seen ++ ((n :: ns).take (i + 1)).map Name.text).contains m.text =
            (n.text :: seen ++ (ns.take i).map Name.text).contains m.text := by
          rw [Bool.eq_iff_iff, List.contains_iff_mem, List.contains_iff_mem]
          simp only [List.take_succ_cons, List.map_cons, List.mem_append, List.mem_cons]
          exact or_left_comm.trans or_assoc.symm
        simp only [List.getElem?_cons_succ, hseen]
  refine (hsites.map Prod.fst (by rintro ⟨i, ⟨⟩⟩ ⟨j, ⟨⟩⟩ ⟨⟩; rfl)).congr ?_
  intro i issue
  constructor
  · rintro ⟨site, rfl, h⟩
    exact h
  · exact fun h => ⟨(i, ()), rfl, h⟩

/-- Every repeated name has its issue. -/
theorem reports_repeated (issue : Name → Issue) (ns : List Name) :
    Reports (fun i is => ∃ n, RepeatedAt ns i n ∧ is = issue n)
      (announce (fun n again => if again then [issue n] else []) [] ns) := by
  refine (reports_announce (fun n again => by cases again <;> simp) [] ns).congr ?_
  intro i is
  refine exists_congr fun n => ?_
  rw [repeatedAt_iff, List.nil_append, and_assoc]
  cases ((ns.take i).map Name.text).contains n.text <;> simp

theorem issuesOf_uniqueFindings (problem : String → Problem) (seen : List String)
    (ts : List TypeExpr) : issuesOf (uniqueFindings problem seen ts) =
      announce (fun n again => if again then [issueAt n (problem n.text)] else []) seen
        (ts.filterMap TypeExpr.name?) := by
  induction ts generalizing seen with
  | nil => rfl
  | cons t ts ih =>
    rw [uniqueFindings]
    cases hname : t.name? with
    | none => rw [List.filterMap_cons_none hname, issuesOf_cons_obstacle, ih]
    | some n =>
      rw [List.filterMap_cons_some hname, announce, issuesOf_append, issuesOf_ite, ih]
      rfl

theorem reports_uniqueFindings (problem : String → Problem) (ts : List TypeExpr) :
    Reports (fun i is => ∃ n, RepeatedAt (ts.filterMap TypeExpr.name?) i n ∧
      is = issueAt n (problem n.text)) (issuesOf (uniqueFindings problem [] ts)) := by
  rw [issuesOf_uniqueFindings]
  exact reports_repeated _ _

end

/-- The issues at the name of a type definition. -/
def typeNameIssue (contract : String) (n : Name) (again : Bool) : List Issue :=
  if again then [issueAt n (.duplicateType n.text contract)]
  else if isBuiltin n.text then [issueAt n (.shadowsBuiltin n.text)] else []

theorem issuesOf_typeNameFindings (contract : String) (seen : List String) (ds : List TypeDef) :
    issuesOf (typeNameFindings contract seen ds) =
      announce (typeNameIssue contract) seen (ds.map TypeDef.name) := by
  induction ds generalizing seen with
  | nil => rfl
  | cons d ds ih =>
    rw [typeNameFindings, List.map_cons, announce]
    split
    · next h =>
      rw [issuesOf_cons_issue, announce_cons_of_contains h, ih, typeNameIssue, if_pos h]
      rfl
    · next h =>
      rw [issuesOf_append, issuesOf_ite, ih, typeNameIssue, if_neg h]
      rfl

theorem isBuiltin_iff {name : String} :
    isBuiltin name = true ↔ ∃ arity, (name, arity) ∈ builtinTypes := by
  simp only [isBuiltin, Option.isSome_iff_exists, mem_builtinTypes_iff]

variable {unit : List Contract} {k : Contract}

variable (unit k) in
theorem reports_typeNames :
    Reports (fun i issue => k.Violates unit (.typeName i) issue)
      (issuesOf (typeNameFindings k.name.text [] k.typeDefs)) := by
  rw [issuesOf_typeNameFindings]
  have hemit : ∀ n again, (typeNameIssue k.name.text n again).length ≤ 1 := by
    intro n again
    unfold typeNameIssue
    cases again <;> cases isBuiltin n.text <;> simp
  refine (reports_announce hemit [] _).congr ?_
  intro i issue
  rw [List.nil_append]
  constructor
  · rintro ⟨n, hn, h⟩
    have hrepeated : RepeatedAt (k.typeDefs.map TypeDef.name) i n ↔ _ := repeatedAt_iff
    unfold typeNameIssue at h
    split at h
    · next hagain =>
      rw [List.mem_singleton.1 h]
      exact .duplicateType (hrepeated.2 ⟨hn, hagain⟩)
    · next hagain =>
      split at h
      · next hbuiltin =>
        obtain ⟨arity, ha⟩ := isBuiltin_iff.1 hbuiltin
        rw [List.mem_singleton.1 h]
        exact .shadowsBuiltin hn (fun hr => hagain (hrepeated.1 hr).2) ha
      · cases h
  · intro h
    cases h with
    | duplicateType h =>
      obtain ⟨hn, hagain⟩ := repeatedAt_iff.1 h
      exact ⟨_, hn, by rw [typeNameIssue, if_pos hagain]; simp⟩
    | shadowsBuiltin hn hfirst ha =>
      have hagain := fun hc => hfirst (repeatedAt_iff.2 ⟨hn, hc⟩)
      exact ⟨_, hn, by rw [typeNameIssue, if_neg hagain, if_pos (isBuiltin_iff.2 ⟨_, ha⟩)]; simp⟩

/-! ## Types -/

/-- The tables are those for the contract `k` of the unit. -/
structure SetUp (c : Checker) (unit : List Contract) (k : Contract) : Prop where
  names : c.contractNames = unit.map fun k => k.name.text
  types : c.localTypes = k.arities

/-- The issues at a mention. -/
def mentionIssues (c : Checker) (bound : Option (List String)) (place : Place) :
    Mention → List Issue
  | .var n => if bound.all (·.contains n.text) then [] else [issueAt n (.unboundVar n.text place)]
  | .type n args => issuesOf (c.arityFindings place n args)
  | .contract n =>
    if c.contractNames.contains n.text then [] else [issueAt n (.unknownContract n.text place)]

theorem typesFindings_eq (c : Checker) (bound : Option (List String)) (place : Place)
    (ts : List TypeExpr) :
    c.typesFindings bound place ts = ts.flatMap (c.typeFindings bound place) := by
  induction ts with
  | nil => rfl
  | cons t ts ih => rw [typesFindings, List.flatMap_cons, ih]

/-- The issues of a type are those of what it mentions itself, and those of its children. -/
theorem issuesOf_typeFindings (c : Checker) (bound : Option (List String)) (place : Place)
    (t : TypeExpr) : issuesOf (c.typeFindings bound place t) =
      t.mention?.toList.flatMap (c.mentionIssues bound place) ++
        t.children.flatMap fun u => issuesOf (c.typeFindings bound place u) := by
  cases t with
  | app head args =>
    rw [typeFindings, typesFindings_eq, issuesOf_append, issuesOf_flatMap, TypeExpr.mention?]
    cases head.name? with
    | none => rfl
    | some n => simp [mentionIssues, TypeExpr.children]
  | foreign kind parts shown => rfl
  | _ =>
    simp [typeFindings, typesFindings_eq, issuesOf_flatMap, TypeExpr.mention?, TypeExpr.children,
      mentionIssues]

theorem lookup_arities (ds : List TypeDef) (name : String) :
    (ds.map fun d => (d.name.text, d.vars.length)).lookup name =
      (ds.find? fun d => d.name.text == name).map fun d => d.vars.length := by
  induction ds with
  | nil => rfl
  | cons d ds ih =>
    rw [List.map_cons, List.lookup_cons, List.find?_cons, ih, BEq.comm]
    cases d.name.text == name <;> rfl

variable {c : Checker} (hc : c.SetUp unit k)

include hc

theorem arity?_eq_some_iff {name : String} {arity : Nat} :
    c.arity? name = some arity ↔ k.Takes name arity := by
  rw [arity?, hc.types, Contract.arities, lookup_arities]
  unfold Contract.Takes
  cases k.typeDefs.find? fun d => d.name.text == name with
  | none => exact mem_builtinTypes_iff.symm
  | some d => simp

variable {bound : Option (List Name)} {place : Place}

theorem reports_mention (m : Mention) : Reports (fun _ : Unit => m.Violates unit k bound place)
    (c.mentionIssues (bound.map (·.map Name.text)) place m) := by
  cases m with
  | var n =>
    rw [mentionIssues]
    refine .check fun issue => ?_
    constructor
    · rintro ⟨rfl, hn⟩
      exact ⟨fun h => hn (List.contains_iff_mem.1 h), rfl⟩
    · rintro ⟨h, rfl⟩
      cases bound with
      | none => exact absurd rfl h
      | some vars => exact .unboundVar rfl fun hn => h (List.contains_iff_mem.2 hn)
  | type n args =>
    rw [mentionIssues, arityFindings]
    cases harity : c.arity? n.text with
    | none =>
      have hnone : ∀ arity, ¬ k.Takes n.text arity := by
        intro arity ha
        rw [(arity?_eq_some_iff hc).2 ha] at harity
        cases harity
      simp only [issuesOf_cons_issue, issuesOf_nil]
      refine .unit (Nat.le_refl 1) fun issue => ?_
      rw [List.mem_singleton]
      constructor
      · rintro rfl
        exact .unknownType hnone
      · intro hv
        cases hv with
        | unknownType => rfl
        | arity ha => exact absurd ha (hnone _)
    | some expected =>
      have htakes := (arity?_eq_some_iff hc).1 harity
      simp only [issuesOf_ite, issuesOf_cons_issue, issuesOf_nil]
      refine .check fun issue => ?_
      constructor
      · intro hv
        cases hv with
        | unknownType hn => exact absurd htakes (hn _)
        | arity ha hne =>
          rw [ha.unique htakes] at hne ⊢
          exact ⟨hne, rfl⟩
      · rintro ⟨hne, rfl⟩
        exact .arity htakes hne
  | contract n =>
    rw [mentionIssues, hc.names]
    refine .check fun issue => ?_
    constructor
    · intro hv
      cases hv with
      | unknownContract hn =>
        refine ⟨fun h => ?_, rfl⟩
        obtain ⟨other, hother, e⟩ := List.mem_map.1 (List.contains_iff_mem.1 h)
        exact hn other hother e
    · rintro ⟨h, rfl⟩
      exact .unknownContract fun other hother e =>
        h (List.contains_iff_mem.2 (List.mem_map.2 ⟨other, hother, e⟩))

variable (bound) in
theorem reports_type (t : TypeExpr) : Reports (t.Violates unit k bound place)
    (issuesOf (c.typeFindings (bound.map (·.map Name.text)) place t)) := by
  have hself : Reports (fun (_ : Unit) issue =>
      ∃ m, t.mention? = some m ∧ m.Violates unit k bound place issue)
      (t.mention?.toList.flatMap (c.mentionIssues (bound.map (·.map Name.text)) place)) := by
    cases t.mention? with
    | none => exact .nil (by simp)
    | some m =>
      rw [Option.toList_some, List.flatMap_singleton]
      refine (reports_mention hc m).congr fun _ issue => ?_
      simp
  have hchildren := Reports.flatMap (V := fun u => u.Violates unit k bound place) t.children
    fun u hu => reports_type u
  rw [issuesOf_typeFindings]
  have h₀ := hself.map (fun _ => ([] : List Nat)) (fun _ _ _ => rfl)
  have h₁ := hchildren.map (fun site => site.1 :: site.2) (by rintro ⟨i, p⟩ ⟨j, q⟩ ⟨⟩; rfl)
  refine (h₀.append h₁ ?_).congr ?_
  · rintro path i j ⟨-, rfl, -⟩ ⟨site, e, -⟩
    cases e
  · rintro (_ | ⟨i, path⟩) issue
    · rw [TypeExpr.violates_nil_iff]
      constructor
      · rintro (⟨-, -, h⟩ | ⟨site, ⟨⟩, -⟩)
        exact h
      · exact fun h => .inl ⟨(), rfl, h⟩
    · rw [TypeExpr.violates_cons_iff]
      constructor
      · rintro (⟨-, ⟨⟩, -⟩ | ⟨site, ⟨⟩, h⟩)
        exact h
      · exact fun h => .inr ⟨(i, path), rfl, h⟩
termination_by sizeOf t
decreasing_by exact TypeExpr.sizeOf_lt_of_mem_children hu

/-! ## Type definitions -/

omit hc in
theorem reports_labels (label? : TypeExpr → Option TypeExpr) (part : String)
    (problem : String → Problem) (members : List TypeExpr) :
    Reports (fun i is => ∃ n, is = issueAt n (problem n.text) ∧
      RepeatedAt (members.filterMap fun t => (label? t).bind TypeExpr.name?) i n)
      (issuesOf (labelFindings label? part problem members)) := by
  have hlabels := reports_uniqueFindings problem (members.filterMap label?)
  rw [List.filterMap_filterMap] at hlabels
  rw [labelFindings, issuesOf_append, issuesOf_map_obstacle, List.nil_append]
  exact hlabels.congr fun i is => exists_congr fun n => and_comm

omit hc in
theorem bind_fieldLabel? :
    (fun t => (fieldLabel? t).bind TypeExpr.name?) = TypeExpr.fieldName? := by
  funext t
  cases t <;> rfl

omit hc in
theorem bind_constructorTag? :
    (fun t => (constructorTag? t).bind TypeExpr.name?) = TypeExpr.constructorName? := by
  funext t
  cases t <;> rfl

omit hc in
variable (unit k) in
theorem reports_members (d : TypeDef) : Reports (fun i issue => d.Violates unit k (.member i) issue)
    (issuesOf (memberFindings (.definition d.name.text) d.body)) := by
  cases hbody : d.body with
  | record fields =>
    have hfields := reports_labels fieldLabel? "id"
      (.repeatedField · (.definition d.name.text)) fields
    rw [bind_fieldLabel?] at hfields
    refine hfields.congr fun i issue => ?_
    constructor
    · rintro ⟨n, rfl, h⟩
      exact .field hbody (by rw [hbody]; exact h)
    · intro h
      cases h with
      | field _ h =>
        rw [hbody] at h
        exact ⟨_, rfl, h⟩
      | constructor h => cases hbody.symm.trans h
  | variant constructors =>
    have htags := reports_labels constructorTag? "con"
      (.repeatedConstructor · (.definition d.name.text)) constructors
    rw [bind_constructorTag?] at htags
    refine htags.congr fun i issue => ?_
    constructor
    · rintro ⟨n, rfl, h⟩
      exact .constructor hbody (by rw [hbody]; exact h)
    · intro h
      cases h with
      | field h => cases hbody.symm.trans h
      | constructor _ h =>
        rw [hbody] at h
        exact ⟨_, rfl, h⟩
  | _ =>
    refine .nil fun i issue h => ?_
    cases h with
    | field h => cases hbody.symm.trans h
    | constructor h => cases hbody.symm.trans h

theorem reports_typeDef (d : TypeDef) :
    Reports (d.Violates unit k) (issuesOf (c.typeDefFindings d)) := by
  have hvars : Reports (fun i issue => d.Violates unit k (.var i) issue)
      (issuesOf (uniqueFindings (.repeatedVar · d.name.text) [] (d.vars.map .var))) := by
    have hnames : (d.vars.map TypeExpr.var).filterMap TypeExpr.name? = d.vars := by
      rw [List.filterMap_map]
      exact List.filterMap_some
    refine (reports_uniqueFindings _ _).congr fun i issue => ?_
    rw [hnames]
    constructor
    · rintro ⟨n, h, rfl⟩
      exact .var h
    · intro h
      cases h with
      | var h => exact ⟨_, h, rfl⟩
  have hbody : Reports (fun path issue => d.Violates unit k (.inBody path) issue)
      (issuesOf (c.typeFindings (some (d.vars.map Name.text)) (.definition d.name.text)
        d.body)) := by
    refine (reports_type hc (some d.vars) d.body).congr fun path issue => ?_
    constructor
    · exact .inBody
    · intro h
      cases h with
      | inBody h => exact h
  have h₁ := hvars.map TypeDefSite.var (by rintro i j ⟨⟩; rfl)
  have h₂ := (reports_members unit k d).map TypeDefSite.member
    (by rintro i j ⟨⟩; rfl)
  have h₃ := hbody.map TypeDefSite.inBody (by rintro p q ⟨⟩; rfl)
  rw [typeDefFindings, issuesOf_append, issuesOf_append]
  refine ((h₁.append h₂ ?_).append h₃ ?_).congr fun site issue => ?_
  · rintro site i j ⟨s, rfl, -⟩ ⟨t, ⟨⟩, -⟩
  · rintro site i j (⟨s, rfl, -⟩ | ⟨s, rfl, -⟩) ⟨t, ⟨⟩, -⟩
  · cases site <;> simp

/-! ## Functions -/

/-- What is wrong with an annotation: it is missing, or something is wrong with its type. -/
def AscriptionViolates (unit : List Contract) (k : Contract) (place : Place) (missing : Issue)
    (type : Option TypeExpr) : Option (List Nat) → Issue → Prop
  | none, issue => type = none ∧ issue = missing
  | some path, issue => ∃ t, type = some t ∧ t.Violates unit k none place path issue

theorem reports_ascription (place : Place) (missing : Issue) (type : Option TypeExpr) :
    Reports (AscriptionViolates unit k place missing type)
      (issuesOf (c.ascriptionFindings place missing type)) := by
  cases type with
  | none =>
    have hmissing : Reports (fun (_ : Unit) issue => issue = missing) [missing] :=
      .unit (Nat.le_refl 1) fun issue => List.mem_singleton
    refine (hmissing.map (fun _ => none) (fun _ _ _ => rfl)).congr ?_
    rintro (_ | path) issue <;> simp [AscriptionViolates]
  | some t =>
    refine ((reports_type hc none t).map some (by rintro p q ⟨⟩; rfl)).congr ?_
    rintro (_ | path) issue <;> simp [AscriptionViolates]

/-- Where a parameter or a result has its sites. -/
def paramSite (site : Nat × Option (List Nat)) : FunctionSite :=
  match site.2 with
  | none => .ascription site.1
  | some path => .inParam site.1 path

@[inherit_doc paramSite]
def resultSite : Option (List Nat) → FunctionSite
  | none => .result
  | some path => .inResult path

omit hc in
variable (unit k) in
theorem reports_paramNames (d : FunctionDef) :
    Reports (fun i issue => d.Violates unit k (.param i) issue)
      (issuesOf (uniqueFindings (.repeatedArgument · (.function d.name.text)) []
        (d.params.map Param.label))) := by
  have hnames : (d.params.map Param.label).filterMap TypeExpr.name? =
      d.params.filterMap fun p => p.label.name? := List.filterMap_map
  refine (reports_uniqueFindings _ _).congr fun i issue => ?_
  rw [hnames]
  constructor
  · rintro ⟨n, h, rfl⟩
    exact .param h
  · intro h
    cases h with
    | param h => exact ⟨_, h, rfl⟩

theorem reports_params (d : FunctionDef) :
    Reports (fun site issue => d.Violates unit k (paramSite site) issue)
      (issuesOf (d.params.flatMap (c.paramFindings (.function d.name.text)))) := by
  have hparams := Reports.flatMap d.params fun p _ =>
    reports_ascription hc (.function d.name.text)
      ⟨p.pos.getD .unknown, .unannotatedArgument p.label.text (.function d.name.text)⟩ p.type
  rw [issuesOf_flatMap]
  refine hparams.congr ?_
  rintro ⟨i, _ | path⟩ issue
  · constructor
    · rintro ⟨p, hp, h, rfl⟩
      exact .ascription hp h
    · intro h
      cases h with
      | ascription hp h => exact ⟨_, hp, h, rfl⟩
  · constructor
    · rintro ⟨p, hp, t, ht, h⟩
      exact .inParam hp ht h
    · intro h
      cases h with
      | inParam hp ht h => exact ⟨_, hp, _, ht, h⟩

theorem reports_result (d : FunctionDef) :
    Reports (fun site issue => d.Violates unit k (resultSite site) issue)
      (issuesOf (c.ascriptionFindings (.function d.name.text)
        (issueAt d.name (.unannotatedResult (.function d.name.text))) d.result)) := by
  refine (reports_ascription hc _ _ d.result).congr ?_
  rintro (_ | path) issue
  · constructor
    · rintro ⟨h, rfl⟩
      exact .result h
    · intro h
      cases h with
      | result h => exact ⟨h, rfl⟩
  · constructor
    · rintro ⟨t, ht, h⟩
      exact .inResult ht h
    · intro h
      cases h with
      | inResult ht h => exact ⟨_, ht, h⟩

theorem reports_function (d : FunctionDef) :
    Reports (d.Violates unit k) (issuesOf (c.functionFindings d)) := by
  have h₁ := (reports_paramNames unit k d).map FunctionSite.param (by rintro i j ⟨⟩; rfl)
  have h₂ := (reports_params hc d).map paramSite (by rintro ⟨i, _ | p⟩ ⟨j, _ | q⟩ ⟨⟩ <;> rfl)
  have h₃ := (reports_result hc d).map resultSite (by rintro (_ | p) (_ | q) ⟨⟩ <;> rfl)
  rw [functionFindings, issuesOf_append, issuesOf_append]
  refine ((h₁.append h₂ ?_).append h₃ ?_).congr fun site issue => ?_
  · rintro site i j ⟨s, rfl, -⟩ ⟨⟨t, _ | path⟩, ⟨⟩, -⟩
  · rintro site i j (⟨s, rfl, -⟩ | ⟨⟨s, _ | p⟩, rfl, -⟩) ⟨_ | q, ⟨⟩, -⟩
  · constructor
    · rintro ((⟨s, rfl, h⟩ | ⟨s, rfl, h⟩) | ⟨s, rfl, h⟩) <;> exact h
    · intro h
      cases site with
      | param i => exact .inl (.inl ⟨i, rfl, h⟩)
      | ascription i => exact .inl (.inr ⟨(i, none), rfl, h⟩)
      | inParam i path => exact .inl (.inr ⟨(i, some path), rfl, h⟩)
      | result => exact .inr ⟨none, rfl, h⟩
      | inResult path => exact .inr ⟨some path, rfl, h⟩

/-! ## Contracts -/

/-- The issues at the name of a function. -/
def functionNameIssue (contract : String) (n : Name) (again : Bool) : List Issue :=
  if again then [issueAt n (.duplicateFunction n.text contract)] else []

omit hc in
/-- The issues at names may be told apart from the others. -/
theorem issuesOf_functionsFindings_perm (contract : String) (seen : List String)
    (ds : List FunctionDef) : (issuesOf (c.functionsFindings contract seen ds)).Perm
      (announce (functionNameIssue contract) seen (ds.map FunctionDef.name) ++
        ds.flatMap fun d => issuesOf (c.functionFindings d)) := by
  induction ds generalizing seen with
  | nil => exact .nil
  | cons d ds ih =>
    rw [functionsFindings, List.map_cons, announce, List.flatMap_cons, issuesOf_append,
      issuesOf_append, issuesOf_ite, List.append_assoc, List.append_assoc]
    refine .append_left _ (((ih _).append_left _).trans ?_)
    rw [← List.append_assoc, ← List.append_assoc]
    exact List.perm_append_comm.append_right _

omit hc in
variable (unit k) in
theorem reports_functionNames :
    Reports (fun i issue => k.Violates unit (.functionName i) issue)
      (announce (functionNameIssue k.name.text) [] (k.functions.map FunctionDef.name)) := by
  refine (reports_repeated (fun n => issueAt n (.duplicateFunction n.text k.name.text))
    (k.functions.map FunctionDef.name)).congr fun i issue => ?_
  constructor
  · rintro ⟨n, h, rfl⟩
    exact .duplicateFunction h
  · intro h
    cases h with
    | duplicateFunction h => exact ⟨_, h, rfl⟩

/-- **The checker finds one issue for every violation in a contract.** -/
theorem reports_contract : Reports (k.Violates unit) (issuesOf (c.contractFindings k)) := by
  have htypeDefs := Reports.flatMap (V := fun d => d.Violates unit k) k.typeDefs
    fun d _ => reports_typeDef hc d
  have hfunctions := Reports.flatMap (V := fun d => d.Violates unit k) k.functions
    fun d _ => reports_function hc d
  have h₁ := (reports_typeNames unit k).map Site.typeName
    (by rintro i j ⟨⟩; rfl)
  have h₂ := htypeDefs.map (fun s => Site.inTypeDef s.1 s.2)
    (by rintro ⟨i, s⟩ ⟨j, t⟩ ⟨⟩; rfl)
  have h₃ := (reports_functionNames unit k).map Site.functionName
    (by rintro i j ⟨⟩; rfl)
  have h₄ := hfunctions.map (fun s => Site.inFunction s.1 s.2)
    (by rintro ⟨i, s⟩ ⟨j, t⟩ ⟨⟩; rfl)
  have hparts := (h₁.append h₂ ?_).append (h₃.append h₄ ?_) ?_
  · rw [contractFindings, issuesOf_append, issuesOf_append, issuesOf_flatMap]
    have hperm := issuesOf_functionsFindings_perm (c := c) k.name.text [] k.functions
    refine (hparts.perm (hperm.append_left _)).congr fun site issue => ?_
    constructor
    · rintro ((⟨s, rfl, h⟩ | ⟨s, rfl, d, hd, h⟩) | (⟨s, rfl, h⟩ | ⟨s, rfl, d, hd, h⟩))
      · exact h
      · exact .inTypeDef hd h
      · exact h
      · exact .inFunction hd h
    · intro h
      cases site with
      | typeName i => exact .inl (.inl ⟨i, rfl, h⟩)
      | inTypeDef i s =>
        cases h with
        | inTypeDef hd h => exact .inl (.inr ⟨(i, s), rfl, _, hd, h⟩)
      | functionName i => exact .inr (.inl ⟨i, rfl, h⟩)
      | inFunction i s =>
        cases h with
        | inFunction hd h => exact .inr (.inr ⟨(i, s), rfl, _, hd, h⟩)
  · rintro site i j ⟨s, rfl, -⟩ ⟨t, ⟨⟩, -⟩
  · rintro site i j ⟨s, rfl, -⟩ ⟨t, ⟨⟩, -⟩
  · rintro site i j (⟨s, rfl, -⟩ | ⟨s, rfl, -⟩) (⟨t, ⟨⟩, -⟩ | ⟨t, ⟨⟩, -⟩)

end ContractInterface.Checker
