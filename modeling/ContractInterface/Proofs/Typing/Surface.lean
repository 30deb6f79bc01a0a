import ContractInterface.Proofs.Sameness
import ContractInterface.Proofs.Typing.Rules

/-!
# Typing and surfaces

The typing rules look at the surface of a contract, not at positions, bodies or modifiers, and of the
other contracts of the unit only at their names.  More contracts in the unit do no harm: a contract
that is well typed stays so in every unit that has all the names (`WellTyped.of_surface`).

    WellTyped us → WellTyped vs → WellTyped (us ++ vs)                       (WellTyped.append)
-/

namespace ContractInterface

/-! ## Mentions without positions -/

def Mention.bare : Mention → Mention
  | var n => var n.bare
  | type n args => type n.bare args
  | contract n => contract n.bare

namespace TypeExpr

theorem length_bares (ts : List TypeExpr) : (bares ts).length = ts.length := by
  rw [bares_eq_map, List.length_map]

theorem name?_bare (t : TypeExpr) : t.bare.name? = t.name?.map Name.bare := by
  cases t <;> rfl

theorem children_bare (t : TypeExpr) : t.bare.children = t.children.map bare := by
  cases t with
  | app _ ts | tuple ts | record ts | variant ts | constr _ ts _ => exact bares_eq_map ts
  | _ => rfl

theorem mention?_bare (t : TypeExpr) : t.bare.mention? = t.mention?.map Mention.bare := by
  cases t with
  | app head args =>
    rw [bare, mention?, mention?, name?_bare, length_bares, Option.map_map, Option.map_map]
    rfl
  | _ => rfl

theorem fieldName?_bare (t : TypeExpr) : t.bare.fieldName? = t.fieldName?.map Name.bare := by
  cases t with
  | field label _ _ | app label _ => exact name?_bare label
  | _ => rfl

theorem constructorName?_bare (t : TypeExpr) :
    t.bare.constructorName? = t.constructorName?.map Name.bare := by
  cases t with
  | constr tag _ _ => exact name?_bare tag
  | _ => rfl

theorem memberNames_bare (t : TypeExpr) : t.bare.memberNames = t.memberNames.map Name.bare := by
  have hmembers {name? : TypeExpr → Option Name}
      (h : ∀ t, name? t.bare = (name? t).map Name.bare) (ts : List TypeExpr) :
      (bares ts).filterMap name? = (ts.filterMap name?).map Name.bare := by
    rw [bares_eq_map, List.filterMap_map, List.map_filterMap]
    exact congrArg (ts.filterMap ·) (funext h)
  cases t with
  | record fields => exact hmembers fieldName?_bare fields
  | variant constructors => exact hmembers constructorName?_bare constructors
  | _ => rfl

/-- Without positions the same is mentioned at the same paths. -/
theorem mentions_bare_iff {t : TypeExpr} {path : List Nat} {m : Mention} :
    t.bare.Mentions path m ↔ ∃ m', t.Mentions path m' ∧ m'.bare = m := by
  induction path generalizing t with
  | nil =>
    constructor
    · rintro ⟨h⟩
      rw [mention?_bare] at h
      obtain ⟨m', hm', rfl⟩ := Option.map_eq_some_iff.1 h
      exact ⟨m', .here hm', rfl⟩
    · rintro ⟨m', ⟨h⟩, rfl⟩
      refine .here ?_
      rw [mention?_bare, h]
      rfl
  | cons i path ih =>
    constructor
    · intro h
      cases h with
      | inside hu h =>
        rw [children_bare, List.getElem?_map] at hu
        obtain ⟨v, hv, rfl⟩ := Option.map_eq_some_iff.1 hu
        obtain ⟨m', hm', rfl⟩ := ih.1 h
        exact ⟨m', .inside hv hm', rfl⟩
    · rintro ⟨m', h, rfl⟩
      cases h with
      | @inside _ u _ _ _ hu h =>
        refine .inside (u := u.bare) ?_ (ih.2 ⟨m', h, rfl⟩)
        rw [children_bare, List.getElem?_map, hu]
        rfl

end TypeExpr

/-! ## What is in scope -/

section

variable {unit unit' : List Contract} {c d : Contract} {bound bound' : Option (List Name)}

/-- In `unit'`, the contract `d` has all in scope that `c` has in `unit`. -/
structure ScopeLe (unit : List Contract) (c : Contract) (unit' : List Contract) (d : Contract) :
    Prop where
  types : ∀ name arity, c.Knows name arity → d.Knows name arity
  contracts : ∀ k ∈ unit, ∃ k' ∈ unit', k'.name.text = k.name.text

theorem Contract.Knows.of_surface (h : c.surface false = d.surface false) {name : String}
    {arity : Nat} (hc : c.Knows name arity) : d.Knows name arity := by
  rcases hc with ⟨t, ht, hname, harity⟩ | hbuiltin
  · obtain ⟨u, hu, hsurface⟩ := exists_of_map_eq (Contract.typeDefs_eq_of_surface h.symm) t ht
    have hvars : u.vars.map Name.text = t.vars.map Name.text := congrArg TypeSurface.vars hsurface
    have hlength := congrArg List.length hvars
    rw [List.length_map, List.length_map] at hlength
    exact .inl ⟨u, hu, (congrArg TypeSurface.name hsurface).trans hname, hlength.trans harity⟩
  · exact .inr hbuiltin

theorem Mention.Resolves.of_bare (h : ScopeLe unit c unit' d)
    (hbound : bound.map (List.map Name.text) = bound'.map (List.map Name.text)) {m m' : Mention}
    (hbare : m.bare = m'.bare) (hm : m.Resolves unit c bound) : m'.Resolves unit' d bound' := by
  cases m <;> cases m' <;> simp only [bare, var.injEq, type.injEq, contract.injEq, reduceCtorEq,
    Name.bare_eq_iff] at hbare
  case var m n =>
    intro vars' hvars'
    rw [hvars'] at hbound
    obtain ⟨vars, hvars, hsame⟩ := Option.map_eq_some_iff.1 hbound
    have hmem := hm vars hvars
    rwa [hsame, hbare] at hmem
  case type m args n args' =>
    have hknown := h.types _ _ hm
    rwa [hbare.1, hbare.2] at hknown
  case contract m n =>
    obtain ⟨k, hk, hname⟩ := hm
    obtain ⟨k', hk', hname'⟩ := h.contracts k hk
    exact ⟨k', hk', hname'.trans (hname.trans hbare)⟩

theorem TypeExpr.Resolves.of_bare (h : ScopeLe unit c unit' d)
    (hbound : bound.map (List.map Name.text) = bound'.map (List.map Name.text)) {t u : TypeExpr}
    (hbare : t.bare = u.bare) (ht : t.Resolves unit c bound) : u.Resolves unit' d bound' := by
  intro path m hm
  have hmentions : u.bare.Mentions path m.bare := mentions_bare_iff.2 ⟨m, hm, rfl⟩
  rw [← hbare] at hmentions
  obtain ⟨m', hm', hsame⟩ := mentions_bare_iff.1 hmentions
  exact (ht path m' hm').of_bare h hbound hsame

/-! ## Declarations -/

theorem TypeDef.WellTyped.of_surface (h : ScopeLe unit c unit' d) {t u : TypeDef}
    (hsurface : t.surface = u.surface) (ht : t.WellTyped unit c) : u.WellTyped unit' d := by
  have hvars : t.vars.map Name.text = u.vars.map Name.text := congrArg TypeSurface.vars hsurface
  have hbody : t.body.bare = u.body.bare := congrArg TypeSurface.body hsurface
  have hbound : (some t.vars).map (List.map Name.text) = (some u.vars).map (List.map Name.text) :=
    congrArg some hvars
  refine ⟨hvars ▸ ht.vars_nodup, ?_, ht.body.of_bare h hbound hbody⟩
  have htexts (b : TypeExpr) : b.bare.memberNames.map Name.text = b.memberNames.map Name.text := by
    rw [TypeExpr.memberNames_bare, List.map_map]
    rfl
  rw [← htexts, ← hbody, htexts]
  exact ht.members_nodup

/-- The names of arguments are told by their surfaces. -/
theorem paramNames_surface (ps : List Param) : (ps.filterMap fun p => p.label.name?).map Name.text =
    (ps.map Param.surface).filterMap fun p => p.label.name?.map Name.text := by
  rw [List.map_filterMap, List.filterMap_map]
  refine congrArg (ps.filterMap ·) (funext fun p => ?_)
  show p.label.name?.map Name.text = p.label.bare.name?.map Name.text
  rw [TypeExpr.name?_bare, Option.map_map]
  rfl

section Ascriptions

variable {a b : Option TypeExpr} (hbare : a.map TypeExpr.bare = b.map TypeExpr.bare)
include hbare

theorem isSome_of_bare (ha : a.isSome = true) : b.isSome = true := by
  rw [← Option.isSome_map, ← hbare, Option.isSome_map]
  exact ha

theorem resolves_of_bare (h : ScopeLe unit c unit' d)
    (ha : ∀ t, a = some t → t.Resolves unit c none) : ∀ t, b = some t → t.Resolves unit' d none := by
  intro t ht
  rw [ht] at hbare
  obtain ⟨s, hs, hsame⟩ := Option.map_eq_some_iff.1 hbare
  exact (ha s hs).of_bare h rfl hsame

end Ascriptions

theorem FunctionDef.WellTyped.of_surface (h : ScopeLe unit c unit' d) {f g : FunctionDef}
    (hsurface : f.surface = g.surface) (hf : f.WellTyped unit c) : g.WellTyped unit' d := by
  have hparams : f.params.map Param.surface = g.params.map Param.surface :=
    congrArg FunctionSurface.params hsurface
  have hresult : f.result.map TypeExpr.bare = g.result.map TypeExpr.bare :=
    congrArg FunctionSurface.result hsurface
  have hparam : ∀ q ∈ g.params, ∃ p ∈ f.params,
      p.type.map TypeExpr.bare = q.type.map TypeExpr.bare := by
    intro q hq
    obtain ⟨p, hp, hsame⟩ := exists_of_map_eq hparams q hq
    exact ⟨p, hp, congrArg ParamSurface.type hsame⟩
  refine ⟨?_, fun q hq => ?_, isSome_of_bare hresult hf.result_annotated, fun q hq => ?_,
    resolves_of_bare hresult h hf.result⟩
  · rw [paramNames_surface, ← hparams, ← paramNames_surface]
    exact hf.params_nodup
  · obtain ⟨p, hp, hbare⟩ := hparam q hq
    exact isSome_of_bare hbare (hf.params_annotated p hp)
  · obtain ⟨p, hp, hbare⟩ := hparam q hq
    exact resolves_of_bare hbare h (hf.params p hp)

end

/-! ## Contracts and units -/

/-- **Typing looks at surfaces**, and at the names of the other contracts. -/
theorem Contract.WellTyped.of_surface {unit unit' : List Contract} {c d : Contract}
    (hsurface : c.surface false = d.surface false)
    (hunit : ∀ k ∈ unit, ∃ k' ∈ unit', k'.name.text = k.name.text) (h : c.WellTyped unit) :
    d.WellTyped unit' := by
  have hscope : ScopeLe unit c unit' d := ⟨fun _ _ hc => hc.of_surface hsurface, hunit⟩
  have htypes := typeDefs_eq_of_surface hsurface
  have hfunctions := functions_eq_of_surface hsurface
  have htypeNames : c.typeDefs.map (fun t => t.name.text) = d.typeDefs.map fun t => t.name.text := by
    have hnames := congrArg (List.map TypeSurface.name) htypes
    rwa [List.map_map, List.map_map] at hnames
  have hfunctionNames :
      c.functions.map (fun f => f.name.text) = d.functions.map fun f => f.name.text := by
    have hnames := congrArg (List.map FunctionSurface.name) hfunctions
    rwa [List.map_map, List.map_map] at hnames
  refine ⟨htypeNames ▸ h.types_nodup, fun u hu arity => ?_, hfunctionNames ▸ h.functions_nodup,
    fun u hu => ?_, fun g hg => ?_⟩
  · obtain ⟨t, ht, hsame⟩ := exists_of_map_eq htypes u hu
    have hname : t.name.text = u.name.text := congrArg TypeSurface.name hsame
    rw [← hname]
    exact h.types_not_builtin t ht arity
  · obtain ⟨t, ht, hsame⟩ := exists_of_map_eq htypes u hu
    exact (h.typeDefs t ht).of_surface hscope hsame
  · obtain ⟨f, hf, hsame⟩ := exists_of_map_eq hfunctions g hg
    exact (h.functions f hf).of_surface hscope hsame

/-- Contracts with the surfaces of a well-typed unit are well typed, in it and in every larger unit. -/
theorem WellTyped.of_surface {unit unit' all : List Contract} (h : WellTyped unit)
    (hsurface : unit.map (Contract.surface false) = unit'.map (Contract.surface false))
    (hall : unit' ⊆ all) : ∀ c ∈ unit', c.WellTyped all := by
  intro d hd
  obtain ⟨c, hc, hsame⟩ := exists_of_map_eq hsurface d hd
  refine (h c hc).of_surface hsame fun k hk => ?_
  obtain ⟨k', hk', hsame'⟩ := exists_of_map_eq hsurface.symm k hk
  exact ⟨k', hall hk', Contract.name_eq_of_surface hsame'⟩

/-- **One well-typed unit behind another is well typed.** -/
theorem WellTyped.append {us vs : List Contract} (hus : WellTyped us) (hvs : WellTyped vs) :
    WellTyped (us ++ vs) := by
  intro c hc
  rcases List.mem_append.1 hc with hc | hc
  · exact hus.of_surface rfl (List.subset_append_left us vs) c hc
  · exact hvs.of_surface rfl (List.subset_append_right us vs) c hc

end ContractInterface
