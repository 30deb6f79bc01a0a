import ContractInterface.Contract.Typing

/-!
# Typing rules

The rules of typing without a checker: `Contract.WellTyped` says what they ask of a contract, and
`Contract.Violates` names the places of a contract that break them, each with its issue.

    c.WellTyped unit ↔ ∀ site issue, ¬ c.Violates unit site issue         (Contract.wellTyped_iff)

A `Site` is an index into a list of declarations, and from there on an index or the path to a part of
a type.
-/

namespace ContractInterface

open Checker (issueAt)

/-! ## Names in types -/

/-- What a type mentions. -/
inductive Mention where
  | var (n : Name)
  /-- a builtin or declared type with so many arguments -/
  | type (n : Name) (args : Nat)
  | contract (n : Name)

namespace TypeExpr

/-- The types that it is made of. -/
def children : TypeExpr → List TypeExpr
  | app _ ts | tuple ts | record ts | variant ts | constr _ ts _ => ts
  | field _ t _ | synonym t => [t]
  | _ => []

/-- What it mentions itself. -/
def mention? : TypeExpr → Option Mention
  | var n => some (.var n)
  | named n => some (.type n 0)
  | contract n => some (.contract n)
  | app head args => head.name?.map (.type · args.length)
  | _ => none

/-- What is mentioned in a type, and where: the path counts children. -/
inductive Mentions : TypeExpr → List Nat → Mention → Prop
  | here {t : TypeExpr} {m : Mention} (h : t.mention? = some m) : Mentions t [] m
  | inside {t u : TypeExpr} {i : Nat} {path : List Nat} {m : Mention}
      (hu : t.children[i]? = some u) (h : Mentions u path m) : Mentions t (i :: path) m

/-- The name of a field; an applied type in the place of one goes by its head. -/
def fieldName? : TypeExpr → Option Name
  | field label _ _ | app label _ => label.name?
  | _ => none

def constructorName? : TypeExpr → Option Name
  | constr tag _ _ => tag.name?
  | _ => none

/-- The names of the fields of a record or the constructors of a variant. -/
def memberNames : TypeExpr → List Name
  | record fields => fields.filterMap fieldName?
  | variant constructors => constructors.filterMap constructorName?
  | _ => []

end TypeExpr

/-! ## What the rules ask -/

/-- A type of this name and arity is builtin or declared in the contract. -/
def Contract.Knows (c : Contract) (name : String) (arity : Nat) : Prop :=
  (∃ d ∈ c.typeDefs, d.name.text = name ∧ d.vars.length = arity) ∨ (name, arity) ∈ builtinTypes

/-- The mention is of something that is there, with as many arguments as it takes; `bound` are the
variables in scope, if only these may occur. -/
def Mention.Resolves (unit : List Contract) (c : Contract) (bound : Option (List Name)) :
    Mention → Prop
  | .var n => ∀ vars, bound = some vars → n.text ∈ vars.map Name.text
  | .type n args => c.Knows n.text args
  | .contract n => ∃ k ∈ unit, k.name.text = n.text

def TypeExpr.Resolves (unit : List Contract) (c : Contract) (bound : Option (List Name))
    (t : TypeExpr) : Prop :=
  ∀ path m, t.Mentions path m → m.Resolves unit c bound

structure TypeDef.WellTyped (unit : List Contract) (c : Contract) (d : TypeDef) : Prop where
  vars_nodup : (d.vars.map Name.text).Nodup
  members_nodup : (d.body.memberNames.map Name.text).Nodup
  body : d.body.Resolves unit c (some d.vars)

structure FunctionDef.WellTyped (unit : List Contract) (c : Contract) (d : FunctionDef) : Prop where
  params_nodup : ((d.params.filterMap fun p => p.label.name?).map Name.text).Nodup
  params_annotated : ∀ p ∈ d.params, p.type.isSome
  result_annotated : d.result.isSome
  params : ∀ p ∈ d.params, ∀ t, p.type = some t → t.Resolves unit c none
  result : ∀ t, d.result = some t → t.Resolves unit c none

structure Contract.WellTyped (unit : List Contract) (c : Contract) : Prop where
  types_nodup : (c.typeDefs.map fun d => d.name.text).Nodup
  types_not_builtin : ∀ d ∈ c.typeDefs, ∀ arity, (d.name.text, arity) ∉ builtinTypes
  functions_nodup : (c.functions.map fun d => d.name.text).Nodup
  typeDefs : ∀ d ∈ c.typeDefs, d.WellTyped unit c
  functions : ∀ d ∈ c.functions, d.WellTyped unit c

/-- The rules hold in every contract of the unit. -/
def WellTyped (unit : List Contract) : Prop := ∀ c ∈ unit, c.WellTyped unit

/-! ## What breaks them -/

/-- The `i`-th name is `n`, and an earlier one reads the same. -/
def RepeatedAt (ns : List Name) (i : Nat) (n : Name) : Prop :=
  ns[i]? = some n ∧ ∃ m ∈ ns.take i, m.text = n.text

/-- The type of this name takes so many arguments.  A declaration hides a builtin type, and all
later declarations of the name. -/
def Contract.Takes (c : Contract) (name : String) (arity : Nat) : Prop :=
  match c.typeDefs.find? fun d => d.name.text == name with
  | some d => d.vars.length = arity
  | none => (name, arity) ∈ builtinTypes

/-- What is wrong with a mention. -/
inductive Mention.Violates (unit : List Contract) (c : Contract) (bound : Option (List Name))
    (place : Place) : Mention → Issue → Prop
  | unboundVar {n : Name} {vars : List Name} (hbound : bound = some vars)
      (hn : n.text ∉ vars.map Name.text) :
      Violates unit c bound place (.var n) (issueAt n (.unboundVar n.text place))
  | unknownContract {n : Name} (hn : ∀ k ∈ unit, k.name.text ≠ n.text) :
      Violates unit c bound place (.contract n) (issueAt n (.unknownContract n.text place))
  | unknownType {n : Name} {args : Nat} (hn : ∀ arity, ¬ c.Takes n.text arity) :
      Violates unit c bound place (.type n args) (issueAt n (.unknownType n.text place))
  | arity {n : Name} {args arity : Nat} (hn : c.Takes n.text arity) (hne : arity ≠ args) :
      Violates unit c bound place (.type n args) (issueAt n (.arity n.text arity args place))

/-- What is wrong at a path into a type. -/
def TypeExpr.Violates (unit : List Contract) (c : Contract) (bound : Option (List Name))
    (place : Place) (t : TypeExpr) (path : List Nat) (issue : Issue) : Prop :=
  ∃ m, t.Mentions path m ∧ m.Violates unit c bound place issue

inductive TypeDefSite where
  | var (i : Nat)
  | member (i : Nat)
  | inBody (path : List Nat)

inductive TypeDef.Violates (unit : List Contract) (c : Contract) (d : TypeDef) :
    TypeDefSite → Issue → Prop
  | var {i : Nat} {n : Name} (h : RepeatedAt d.vars i n) :
      Violates unit c d (.var i) (issueAt n (.repeatedVar n.text d.name.text))
  | field {fields : List TypeExpr} {i : Nat} {n : Name} (hbody : d.body = .record fields)
      (h : RepeatedAt d.body.memberNames i n) :
      Violates unit c d (.member i)
        (issueAt n (.repeatedField n.text (.definition d.name.text)))
  | constructor {constructors : List TypeExpr} {i : Nat} {n : Name}
      (hbody : d.body = .variant constructors) (h : RepeatedAt d.body.memberNames i n) :
      Violates unit c d (.member i)
        (issueAt n (.repeatedConstructor n.text (.definition d.name.text)))
  | inBody {path : List Nat} {issue : Issue}
      (h : d.body.Violates unit c (some d.vars) (.definition d.name.text) path issue) :
      Violates unit c d (.inBody path) issue

inductive FunctionSite where
  | param (i : Nat)
  | ascription (i : Nat)
  | inParam (i : Nat) (path : List Nat)
  | result
  | inResult (path : List Nat)

inductive FunctionDef.Violates (unit : List Contract) (c : Contract) (d : FunctionDef) :
    FunctionSite → Issue → Prop
  | param {i : Nat} {n : Name} (h : RepeatedAt (d.params.filterMap fun p => p.label.name?) i n) :
      Violates unit c d (.param i)
        (issueAt n (.repeatedArgument n.text (.function d.name.text)))
  | ascription {i : Nat} {p : Param} (hp : d.params[i]? = some p) (h : p.type = none) :
      Violates unit c d (.ascription i)
        ⟨p.pos.getD .unknown, .unannotatedArgument p.label.text (.function d.name.text)⟩
  | inParam {i : Nat} {p : Param} {t : TypeExpr} {path : List Nat} {issue : Issue}
      (hp : d.params[i]? = some p) (ht : p.type = some t)
      (h : t.Violates unit c none (.function d.name.text) path issue) :
      Violates unit c d (.inParam i path) issue
  | result (h : d.result = none) :
      Violates unit c d .result (issueAt d.name (.unannotatedResult (.function d.name.text)))
  | inResult {t : TypeExpr} {path : List Nat} {issue : Issue} (ht : d.result = some t)
      (h : t.Violates unit c none (.function d.name.text) path issue) :
      Violates unit c d (.inResult path) issue

inductive Site where
  | typeName (i : Nat)
  | inTypeDef (i : Nat) (site : TypeDefSite)
  | functionName (i : Nat)
  | inFunction (i : Nat) (site : FunctionSite)

inductive Contract.Violates (unit : List Contract) (c : Contract) : Site → Issue → Prop
  | duplicateType {i : Nat} {n : Name} (h : RepeatedAt (c.typeDefs.map TypeDef.name) i n) :
      Violates unit c (.typeName i) (issueAt n (.duplicateType n.text c.name.text))
  /-- a repeated name is no longer compared with the builtin ones -/
  | shadowsBuiltin {i arity : Nat} {n : Name}
      (hn : (c.typeDefs.map TypeDef.name)[i]? = some n)
      (hfirst : ¬ RepeatedAt (c.typeDefs.map TypeDef.name) i n)
      (h : (n.text, arity) ∈ builtinTypes) :
      Violates unit c (.typeName i) (issueAt n (.shadowsBuiltin n.text))
  | inTypeDef {i : Nat} {d : TypeDef} {site : TypeDefSite} {issue : Issue}
      (hd : c.typeDefs[i]? = some d) (h : d.Violates unit c site issue) :
      Violates unit c (.inTypeDef i site) issue
  | duplicateFunction {i : Nat} {n : Name}
      (h : RepeatedAt (c.functions.map FunctionDef.name) i n) :
      Violates unit c (.functionName i) (issueAt n (.duplicateFunction n.text c.name.text))
  | inFunction {i : Nat} {d : FunctionDef} {site : FunctionSite} {issue : Issue}
      (hd : c.functions[i]? = some d) (h : d.Violates unit c site issue) :
      Violates unit c (.inFunction i site) issue

/-- What is wrong in the `site.1`-th contract of a unit. -/
def Violates (unit : List Contract) (site : Nat × Site) (issue : Issue) : Prop :=
  ∃ c, unit[site.1]? = some c ∧ c.Violates unit site.2 issue

/-! ## Names -/

theorem repeatedAt_iff {ns : List Name} {i : Nat} {n : Name} :
    RepeatedAt ns i n ↔ ns[i]? = some n ∧ ((ns.take i).map Name.text).contains n.text = true := by
  simp only [RepeatedAt, List.contains_iff_mem, List.mem_map]

theorem nodup_iff_not_repeatedAt {ns : List Name} :
    (ns.map Name.text).Nodup ↔ ∀ i n, ¬ RepeatedAt ns i n := by
  rw [List.Nodup, List.pairwise_map, List.pairwise_iff_getElem]
  constructor
  · rintro h i n ⟨hn, m, hm, e⟩
    obtain ⟨j, hj, rfl⟩ := List.mem_take_iff_getElem.1 hm
    obtain ⟨hi, rfl⟩ := List.getElem?_eq_some_iff.1 hn
    exact h j i (by omega) hi (by omega) e
  · intro h i j hi hj hij e
    refine h j ns[j] ⟨List.getElem?_eq_getElem hj, ns[i], ?_, e⟩
    exact List.mem_take_iff_getElem.2 ⟨i, by omega, rfl⟩

theorem mem_builtinTypes_iff {name : String} {arity : Nat} :
    (name, arity) ∈ builtinTypes ↔ builtinTypes.lookup name = some arity := by
  constructor
  · have hall : ∀ e ∈ builtinTypes, builtinTypes.lookup e.1 = some e.2 := by decide
    exact hall (name, arity)
  · intro h
    obtain ⟨us, vs, e, -⟩ := List.lookup_eq_some_iff.1 h
    rw [e]
    simp

theorem find?_eq_some_of_nodup {ds : List TypeDef} (h : (ds.map fun d => d.name.text).Nodup)
    {d : TypeDef} (hd : d ∈ ds) : (ds.find? fun e => e.name.text == d.name.text) = some d := by
  induction ds with
  | nil => cases hd
  | cons e ds ih =>
    obtain ⟨he, hds⟩ := List.nodup_cons.1 h
    rcases List.mem_cons.1 hd with rfl | hd
    · simp
    · have hne : (e.name.text == d.name.text) = false :=
        beq_false_of_ne fun hed => he (List.mem_map.2 ⟨d, hd, hed.symm⟩)
      rw [List.find?_cons, hne]
      exact ih hds hd

/-- Where no declaration hides another or a builtin type, all that is known counts. -/
theorem Contract.takes_iff_knows {c : Contract} (h : (c.typeDefs.map fun d => d.name.text).Nodup)
    (h' : ∀ d ∈ c.typeDefs, ∀ arity, (d.name.text, arity) ∉ builtinTypes) (name : String)
    (arity : Nat) : c.Takes name arity ↔ c.Knows name arity := by
  unfold Contract.Takes Contract.Knows
  cases hfind : c.typeDefs.find? fun d => d.name.text == name with
  | none =>
    have hnone : ∀ d ∈ c.typeDefs, d.name.text ≠ name := by simpa using hfind
    constructor
    · exact .inr
    · rintro (⟨d, hd, e, -⟩ | hb)
      · exact absurd e (hnone d hd)
      · exact hb
  | some d =>
    have hd := List.mem_of_find?_eq_some hfind
    have e : d.name.text = name := by simpa using List.find?_some hfind
    subst e
    constructor
    · exact fun ha => .inl ⟨d, hd, rfl, ha⟩
    · rintro (⟨e, he, hname, ha⟩ | hb)
      · have hsame := find?_eq_some_of_nodup h he
        rw [hname, hfind] at hsame
        cases hsame
        exact ha
      · exact absurd hb (h' d hd arity)

/-- A name takes at most one number of arguments. -/
theorem Contract.Takes.unique {c : Contract} {name : String} {a b : Nat} (ha : c.Takes name a)
    (hb : c.Takes name b) : a = b := by
  unfold Contract.Takes at ha hb
  cases hfind : c.typeDefs.find? fun d => d.name.text == name with
  | some d =>
    rw [hfind] at ha hb
    exact ha.symm.trans hb
  | none =>
    rw [hfind] at ha hb
    have hsame := (mem_builtinTypes_iff.1 ha).symm.trans (mem_builtinTypes_iff.1 hb)
    exact Option.some.inj hsame

/-! ## Paths -/

section

variable {unit : List Contract} {c : Contract} {bound : Option (List Name)} {place : Place}
  {t : TypeExpr} {issue : Issue}

theorem TypeExpr.violates_nil_iff : t.Violates unit c bound place [] issue ↔
    ∃ m, t.mention? = some m ∧ m.Violates unit c bound place issue := by
  constructor
  · rintro ⟨m, ⟨hm⟩, hv⟩
    exact ⟨m, hm, hv⟩
  · rintro ⟨m, hm, hv⟩
    exact ⟨m, .here hm, hv⟩

theorem TypeExpr.violates_cons_iff {i : Nat} {path : List Nat} :
    t.Violates unit c bound place (i :: path) issue ↔
      ∃ u, t.children[i]? = some u ∧ u.Violates unit c bound place path issue := by
  constructor
  · rintro ⟨m, hm, hv⟩
    cases hm with
    | inside hu h => exact ⟨_, hu, m, h, hv⟩
  · rintro ⟨u, hu, m, h, hv⟩
    exact ⟨m, .inside hu h, hv⟩

theorem TypeExpr.sizeOf_lt_of_mem_children {u : TypeExpr} (h : u ∈ t.children) :
    sizeOf u < sizeOf t := by
  cases t with
  | app _ ts | tuple ts | record ts | variant ts | constr _ ts _ =>
    have hlt : sizeOf u < sizeOf ts := List.sizeOf_lt_of_mem h
    simp only [app.sizeOf_spec, tuple.sizeOf_spec, record.sizeOf_spec, variant.sizeOf_spec,
      constr.sizeOf_spec]
    omega
  | field label u pos =>
    rw [List.mem_singleton.1 h]
    simp only [field.sizeOf_spec]
    omega
  | synonym u =>
    rw [List.mem_singleton.1 h]
    simp only [synonym.sizeOf_spec]
    omega
  | _ => cases h

end

/-! ## Rules and violations -/

section

variable {unit : List Contract} {c : Contract} {bound : Option (List Name)} {place : Place}

theorem Mention.resolves_iff (h : ∀ name arity, c.Takes name arity ↔ c.Knows name arity)
    (m : Mention) :
    m.Resolves unit c bound ↔ ∀ issue, ¬ m.Violates unit c bound place issue := by
  cases m with
  | var n =>
    constructor
    · rintro hbound issue ⟨hvars, hn⟩
      exact hn (hbound _ hvars)
    · intro hno vars hvars
      apply Classical.byContradiction
      intro hn
      exact hno _ (.unboundVar hvars hn)
  | type n args =>
    constructor
    · intro hknows issue hv
      have htakes := (h n.text args).2 hknows
      cases hv with
      | unknownType hn => exact hn args htakes
      | arity hn hne => exact hne (hn.unique htakes)
    · intro hno
      by_cases hsome : ∃ arity, c.Takes n.text arity
      · obtain ⟨arity, ha⟩ := hsome
        by_cases hne : arity = args
        · exact (h _ _).1 (hne ▸ ha)
        · exact absurd (.arity ha hne) (hno _)
      · exact absurd (.unknownType fun arity ha => hsome ⟨arity, ha⟩) (hno _)
  | contract n =>
    constructor
    · rintro ⟨k, hk, e⟩ issue hv
      cases hv with
      | unknownContract hn => exact hn k hk e
    · intro hno
      apply Classical.byContradiction
      intro hn
      exact hno _ (.unknownContract fun k hk e => hn ⟨k, hk, e⟩)

theorem TypeExpr.resolves_iff (h : ∀ name arity, c.Takes name arity ↔ c.Knows name arity)
    (t : TypeExpr) :
    t.Resolves unit c bound ↔ ∀ path issue, ¬ t.Violates unit c bound place path issue := by
  constructor
  · rintro hres path issue ⟨m, hm, hv⟩
    exact (m.resolves_iff h).1 (hres path m hm) issue hv
  · intro hno path m hm
    exact (m.resolves_iff h).2 fun issue hv => hno path issue ⟨m, hm, hv⟩

theorem TypeDef.wellTyped_iff (h : ∀ name arity, c.Takes name arity ↔ c.Knows name arity)
    (d : TypeDef) : d.WellTyped unit c ↔ ∀ site issue, ¬ d.Violates unit c site issue := by
  constructor
  · intro hd site issue hv
    cases hv with
    | var h' => exact nodup_iff_not_repeatedAt.1 hd.vars_nodup _ _ h'
    | field _ h' => exact nodup_iff_not_repeatedAt.1 hd.members_nodup _ _ h'
    | constructor _ h' => exact nodup_iff_not_repeatedAt.1 hd.members_nodup _ _ h'
    | inBody h' => exact (TypeExpr.resolves_iff h d.body).1 hd.body _ _ h'
  · intro hno
    refine ⟨?_, ?_, ?_⟩
    · exact nodup_iff_not_repeatedAt.2 fun i n h' => hno _ _ (.var h')
    · refine nodup_iff_not_repeatedAt.2 fun i n h' => ?_
      cases hbody : d.body with
      | record fields => exact hno _ _ (.field hbody h')
      | variant constructors => exact hno _ _ (.constructor hbody h')
      | _ =>
        rw [hbody] at h'
        cases h'.1
    · exact (TypeExpr.resolves_iff h d.body).2 fun path issue h' => hno _ _ (.inBody h')

theorem FunctionDef.wellTyped_iff (h : ∀ name arity, c.Takes name arity ↔ c.Knows name arity)
    (d : FunctionDef) : d.WellTyped unit c ↔ ∀ site issue, ¬ d.Violates unit c site issue := by
  constructor
  · intro hd site issue hv
    cases hv with
    | param h' => exact nodup_iff_not_repeatedAt.1 hd.params_nodup _ _ h'
    | ascription hp h' =>
      have hsome := hd.params_annotated _ (List.mem_of_getElem? hp)
      rw [h'] at hsome
      cases hsome
    | inParam hp ht h' =>
      exact (TypeExpr.resolves_iff h _).1 (hd.params _ (List.mem_of_getElem? hp) _ ht) _ _ h'
    | result h' =>
      have hsome := hd.result_annotated
      rw [h'] at hsome
      cases hsome
    | inResult ht h' => exact (TypeExpr.resolves_iff h _).1 (hd.result _ ht) _ _ h'
  · intro hno
    refine ⟨?_, ?_, ?_, ?_, ?_⟩
    · exact nodup_iff_not_repeatedAt.2 fun i n h' => hno _ _ (.param h')
    · intro p hp
      obtain ⟨i, hi⟩ := List.mem_iff_getElem?.1 hp
      cases htype : p.type with
      | none => exact absurd (.ascription hi htype) (hno _ _)
      | some t => rfl
    · cases hresult : d.result with
      | none => exact absurd (.result hresult) (hno _ _)
      | some t => rfl
    · intro p hp t ht
      obtain ⟨i, hi⟩ := List.mem_iff_getElem?.1 hp
      exact (TypeExpr.resolves_iff h t).2 fun path issue h' => hno _ _ (.inParam hi ht h')
    · intro t ht
      exact (TypeExpr.resolves_iff h t).2 fun path issue h' => hno _ _ (.inResult ht h')

/-- **The rules hold exactly where nothing violates them.** -/
theorem Contract.wellTyped_iff :
    c.WellTyped unit ↔ ∀ site issue, ¬ c.Violates unit site issue := by
  have hmap (ds : List TypeDef) : (ds.map TypeDef.name).map Name.text = ds.map fun d => d.name.text :=
    List.map_map
  constructor
  · intro hc site issue hv
    have htakes := Contract.takes_iff_knows hc.types_nodup hc.types_not_builtin
    cases hv with
    | duplicateType h => exact nodup_iff_not_repeatedAt.1 (hmap _ ▸ hc.types_nodup) _ _ h
    | shadowsBuiltin hn _ h =>
      obtain ⟨d, hd, rfl⟩ := List.mem_map.1 (List.mem_of_getElem? hn)
      exact hc.types_not_builtin d hd _ h
    | inTypeDef hd h =>
      have hmem := List.mem_of_getElem? hd
      exact (TypeDef.wellTyped_iff htakes _).1 (hc.typeDefs _ hmem) _ _ h
    | duplicateFunction h =>
      refine nodup_iff_not_repeatedAt.1 ?_ _ _ h
      rw [List.map_map]
      exact hc.functions_nodup
    | inFunction hd h =>
      have hmem := List.mem_of_getElem? hd
      exact (FunctionDef.wellTyped_iff htakes _).1 (hc.functions _ hmem) _ _ h
  · intro hno
    have hfirst : ∀ i n, ¬ RepeatedAt (c.typeDefs.map TypeDef.name) i n :=
      fun i n h => hno _ _ (.duplicateType h)
    have hnodup : (c.typeDefs.map fun d => d.name.text).Nodup :=
      hmap _ ▸ nodup_iff_not_repeatedAt.2 hfirst
    have hbuiltin : ∀ d ∈ c.typeDefs, ∀ arity, (d.name.text, arity) ∉ builtinTypes := by
      intro d hd arity h
      obtain ⟨i, hi⟩ := List.mem_iff_getElem?.1 (List.mem_map_of_mem hd)
      exact hno _ _ (.shadowsBuiltin hi (hfirst i _) h)
    have htakes := Contract.takes_iff_knows hnodup hbuiltin
    refine ⟨hnodup, hbuiltin, ?_, ?_, ?_⟩
    · have hnames := nodup_iff_not_repeatedAt.2 fun i n h => hno _ _ (.duplicateFunction h)
      rwa [List.map_map] at hnames
    · intro d hd
      obtain ⟨i, hi⟩ := List.mem_iff_getElem?.1 hd
      exact (TypeDef.wellTyped_iff htakes d).2 fun site issue h => hno _ _ (.inTypeDef hi h)
    · intro d hd
      obtain ⟨i, hi⟩ := List.mem_iff_getElem?.1 hd
      exact (FunctionDef.wellTyped_iff htakes d).2 fun site issue h => hno _ _ (.inFunction hi h)

end

theorem wellTyped_iff {unit : List Contract} :
    WellTyped unit ↔ ∀ site issue, ¬ Violates unit site issue := by
  constructor
  · rintro h ⟨i, site⟩ issue ⟨c, hc, hv⟩
    exact Contract.wellTyped_iff.1 (h c (List.mem_of_getElem? hc)) site issue hv
  · intro h c hc
    obtain ⟨i, hi⟩ := List.mem_iff_getElem?.1 hc
    exact Contract.wellTyped_iff.2 fun site issue hv => h (i, site) issue ⟨c, hi, hv⟩

end ContractInterface
