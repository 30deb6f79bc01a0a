import ContractInterface.Proofs.Surface

/-!
# Same declarations

Two declarations are the same if they have the same surface, and functions also the same modifiers.
So contracts that are the same have the same surface, and what looks at surfaces only cannot tell
them apart.

    c.same d = true → c.surface false = d.surface false                    (surface_eq_of_same)

Contracts that have nothing but positions to tell them apart (`Contract.bare`) are the same, and the
bodies of their functions are spelled alike.
-/

namespace ContractInterface

variable {α β γ : Type} {same : α → α → Bool}

/-! ## Lists -/

theorem allSame_iff {f : α → β} (h : ∀ a b, same a b = true ↔ f a = f b) {as bs : List α} :
    allSame same as bs = true ↔ as.map f = bs.map f := by
  induction as generalizing bs with
  | nil => cases bs <;> simp [allSame]
  | cons a as ih => cases bs <;> simp [allSame, h, ih]

theorem map_eq_of_allSame {f : α → β} (h : ∀ a b, same a b = true → f a = f b) {as bs : List α}
    (hall : allSame same as bs = true) : as.map f = bs.map f := by
  induction as generalizing bs with
  | nil =>
    cases bs with
    | nil => rfl
    | cons b bs => cases hall
  | cons a as ih =>
    cases bs with
    | nil => cases hall
    | cons b bs =>
      obtain ⟨ha, has⟩ := Bool.and_eq_true_iff.1 hall
      rw [List.map_cons, List.map_cons, h a b ha, ih has]

theorem allSame_of_map_eq {f : α → β} (h : ∀ a b, f a = f b → same a b = true) {as bs : List α}
    (hmap : as.map f = bs.map f) : allSame same as bs = true := by
  induction as generalizing bs with
  | nil =>
    cases bs with
    | nil => rfl
    | cons b bs => cases hmap
  | cons a as ih =>
    cases bs with
    | nil => cases hmap
    | cons b bs =>
      obtain ⟨ha, has⟩ := List.cons.inj hmap
      rw [allSame, h a b ha, ih has]
      rfl

/-- Lists that look alike have elements that look alike. -/
theorem exists_of_map_eq {f : α → β} {as bs : List α} (h : as.map f = bs.map f) :
    ∀ b ∈ bs, ∃ a ∈ as, f a = f b := by
  intro b hb
  have hmem := List.mem_map_of_mem (f := f) hb
  rwa [← h, List.mem_map] at hmem

/-! ## Declarations -/

theorem Name.same_iff (m n : Name) : m.same n = true ↔ m.text = n.text := beq_iff_eq

theorem sameAscription_iff (a b : Option TypeExpr) :
    sameAscription a b = true ↔ a.map TypeExpr.bare = b.map TypeExpr.bare := by
  cases a <;> cases b <;> simp [sameAscription, TypeExpr.same_iff]

theorem Param.same_iff (p q : Param) : p.same q = true ↔ p.surface = q.surface := by
  rw [same, surface, surface, ParamSurface.mk.injEq, Bool.and_eq_true, TypeExpr.same_iff,
    sameAscription_iff]

theorem TypeDef.same_iff (d e : TypeDef) : d.same e = true ↔ d.surface = e.surface := by
  rw [same, surface, surface, TypeSurface.mk.injEq, Bool.and_eq_true, Bool.and_eq_true,
    Name.same_iff, allSame_iff Name.same_iff, TypeExpr.same_iff, and_assoc]

theorem FunctionDef.same_iff (d e : FunctionDef) : d.same e = true ↔
    d.surface = e.surface ∧ d.isPrivate = e.isPrivate ∧ d.isStateful = e.isStateful := by
  simp only [same, surface, FunctionSurface.mk.injEq, Bool.and_eq_true, beq_iff_eq, Name.same_iff,
    allSame_iff Param.same_iff, sameAscription_iff, and_assoc]

/-- Declarations of one sort, picked from lists that are the same. -/
theorem filterMap_eq_of_allSame {sort? : Decl → Option α} {f : α → β}
    (h : ∀ d e : Decl, d.same e = true → (sort? d).map f = (sort? e).map f) {ds es : List Decl}
    (hall : allSame Decl.same ds es = true) :
    (ds.filterMap sort?).map f = (es.filterMap sort?).map f := by
  rw [List.map_filterMap, List.map_filterMap]
  have hpicked := map_eq_of_allSame h hall
  have hfilter (l : List Decl) : l.filterMap (fun d => (sort? d).map f) =
      (l.map fun d => (sort? d).map f).filterMap id := by
    rw [List.filterMap_map]
    rfl
  rw [hfilter, hfilter, hpicked]

namespace Contract

variable {c d : Contract}

theorem surface_false (c : Contract) : c.surface false =
    ⟨c.name.text, c.typeDefs.map TypeDef.surface, c.functions.map FunctionDef.surface⟩ := by
  have hall : c.functions.filter (fun d => !(false && d.isPrivate)) = c.functions :=
    List.filter_eq_self.2 fun _ _ => rfl
  rw [surface, hall]

/-- Contracts that are the same agree in what they declare. -/
theorem surface_eq_of_same (h : c.same d = true) : c.surface false = d.surface false := by
  obtain ⟨hname, hdecls⟩ := Bool.and_eq_true_iff.1 h
  have htypes : ∀ d e : Decl, d.same e = true →
      d.typeDef?.map TypeDef.surface = e.typeDef?.map TypeDef.surface := by
    intro d e hsame
    cases d <;> cases e <;> try cases hsame
    · exact congrArg some ((TypeDef.same_iff _ _).1 hsame)
    · rfl
    · rfl
  have hfunctions : ∀ d e : Decl, d.same e = true →
      d.function?.map FunctionDef.surface = e.function?.map FunctionDef.surface := by
    intro d e hsame
    cases d <;> cases e <;> try cases hsame
    · rfl
    · exact congrArg some ((FunctionDef.same_iff _ _).1 hsame).1
    · rfl
  rw [surface_false, surface_false, (Name.same_iff _ _).1 hname, typeDefs, typeDefs, functions,
    functions, filterMap_eq_of_allSame htypes hdecls, filterMap_eq_of_allSame hfunctions hdecls]

theorem surfaces_eq_of_allSame {cs ds : List Contract} (h : allSame Contract.same cs ds = true) :
    cs.map (surface false) = ds.map (surface false) :=
  map_eq_of_allSame (fun c d => surface_eq_of_same (c := c) (d := d)) h

theorem name_eq_of_surface (h : c.surface false = d.surface false) : c.name.text = d.name.text :=
  congrArg Surface.name h

theorem typeDefs_eq_of_surface (h : c.surface false = d.surface false) :
    c.typeDefs.map TypeDef.surface = d.typeDefs.map TypeDef.surface :=
  congrArg Surface.typeDefs h

theorem functions_eq_of_surface (h : c.surface false = d.surface false) :
    c.functions.map FunctionDef.surface = d.functions.map FunctionDef.surface := by
  rw [surface_false, surface_false] at h
  exact congrArg Surface.functions h

end Contract

/-! ## Without positions -/

/-- The name, wherever it was written. -/
def Name.bare (n : Name) : Name := ⟨n.text, none⟩

theorem Name.bare_eq_iff {m n : Name} : m.bare = n.bare ↔ m.text = n.text := by
  rw [bare, bare, Name.mk.injEq, and_iff_left rfl]

def Param.bare (p : Param) : Param := ⟨p.label.bare, p.type.map TypeExpr.bare, none⟩

def FunctionDef.bare (d : FunctionDef) : FunctionDef :=
  ⟨d.name.bare, d.params.map Param.bare, d.result.map TypeExpr.bare, d.body.map Token.bare,
    d.isPrivate, d.isStateful, none⟩

def TypeDef.bare (d : TypeDef) : TypeDef := ⟨d.name.bare, d.vars.map Name.bare, d.body.bare, none⟩

def Decl.bare : Decl → Decl
  | typeDef d => typeDef d.bare
  | function d => function d.bare
  | other name _ => other name.bare none

def Contract.bare (c : Contract) : Contract := ⟨c.name.bare, c.decls.map Decl.bare, none⟩

/-- How the bodies of the functions are spelled, in the order of the declarations. -/
def Contract.bodies (c : Contract) : List (List (TokenKind × String)) :=
  c.functions.map fun d => d.body.map Token.spelling

theorem Param.same_of_bare (p q : Param) (h : p.bare = q.bare) : p.same q = true := by
  refine (Param.same_iff p q).2 ?_
  rw [surface, surface, ParamSurface.mk.injEq]
  exact ⟨congrArg label h, congrArg type h⟩

theorem TypeDef.same_of_bare (d e : TypeDef) (h : d.bare = e.bare) : d.same e = true := by
  have hname : d.name.bare = e.name.bare := congrArg name h
  have hvars : d.vars.map Name.bare = e.vars.map Name.bare := congrArg vars h
  have hsame (m n : Name) (hmn : m.bare = n.bare) : m.same n = true :=
    (Name.same_iff m n).2 (Name.bare_eq_iff.1 hmn)
  rw [same, hsame _ _ hname, allSame_of_map_eq hsame hvars, Bool.true_and, Bool.true_and,
    TypeExpr.same_iff]
  exact congrArg body h

theorem FunctionDef.same_of_bare (d e : FunctionDef) (h : d.bare = e.bare) : d.same e = true := by
  rw [bare, bare, FunctionDef.mk.injEq] at h
  obtain ⟨hname, hparams, hresult, -, hprivate, hstateful, -⟩ := h
  rw [same, allSame_of_map_eq Param.same_of_bare hparams, (sameAscription_iff _ _).2 hresult,
    (Name.same_iff _ _).2 (Name.bare_eq_iff.1 hname), hprivate, hstateful]
  simp

theorem Decl.same_of_bare (d e : Decl) (h : d.bare = e.bare) : d.same e = true := by
  cases d <;> cases e <;> simp only [bare, typeDef.injEq, function.injEq, other.injEq,
    reduceCtorEq, and_true] at h
  · exact TypeDef.same_of_bare _ _ h
  · exact FunctionDef.same_of_bare _ _ h
  · exact (Name.same_iff _ _).2 (Name.bare_eq_iff.1 h)

namespace Contract

variable {c d : Contract}

theorem same_of_bare (c d : Contract) (h : c.bare = d.bare) : c.same d = true := by
  have hname : c.name.bare = d.name.bare := congrArg name h
  have hdecls : c.decls.map Decl.bare = d.decls.map Decl.bare := congrArg decls h
  rw [same, (Name.same_iff _ _).2 (Name.bare_eq_iff.1 hname),
    allSame_of_map_eq Decl.same_of_bare hdecls]
  rfl

/-- Positions are no part of the bodies. -/
theorem bodies_bare (c : Contract) : c.bare.bodies = c.bodies := by
  have hfunction (d : Decl) : d.bare.function? = d.function?.map FunctionDef.bare := by
    cases d <;> rfl
  have hfunctions : c.bare.functions = c.functions.map FunctionDef.bare := by
    rw [functions, functions, bare, List.filterMap_map, List.map_filterMap]
    exact congrArg (c.decls.filterMap ·) (funext hfunction)
  rw [bodies, bodies, hfunctions, List.map_map]
  refine congrArg (c.functions.map ·) (funext fun d => ?_)
  show (d.body.map Token.bare).map Token.spelling = d.body.map Token.spelling
  rw [List.map_map]
  rfl

/-- Units that differ in positions only. -/
theorem same_of_bares {cs ds : List Contract} (h : cs.map bare = ds.map bare) :
    allSame Contract.same cs ds = true ∧ cs.map bodies = ds.map bodies := by
  refine ⟨allSame_of_map_eq same_of_bare h, ?_⟩
  have hbodies := congrArg (List.map bodies) h
  rwa [List.map_map, List.map_map, funext (f := bodies ∘ bare) bodies_bare] at hbodies

end Contract

end ContractInterface
