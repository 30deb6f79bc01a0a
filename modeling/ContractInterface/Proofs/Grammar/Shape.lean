import ContractInterface.Proofs.Grammar.Units
import ContractInterface.Proofs.Scan

/-!
# What derivations stand for

The contract of a derivation is built from names that stand in its tokens (`Contract.Built`), and
its declarations stand in the order in which they were written (`Contract.InOrder`).  So it is with
every contract of a source:

    ofSource s = .ok cs → ∀ c ∈ cs, c.Built Lexical ∧ c.InOrder           (built_of_ofSource)

`P k n` is what is known of a name `n` that was written as a token of kind `k`.
-/

namespace ContractInterface

variable (P : TokenKind → Name → Prop)

/-! ## Types -/

mutual

/-- A type as the grammar has it, of names as `P` says. -/
def TypeExpr.Built : TypeExpr → Prop
  | .var n => P .tvar n
  | .named n => P .identifier n
  | .contract n => P .con n
  | .app (.named n) args => P .identifier n ∧ args ≠ [] ∧ TypeExpr.BuiltAll args
  | .tuple parts => parts.length ≠ 1 ∧ TypeExpr.BuiltAll parts
  | _ => False

def TypeExpr.BuiltAll : List TypeExpr → Prop
  | [] => True
  | t :: ts => t.Built ∧ TypeExpr.BuiltAll ts

end

/-- A record has fields with names. -/
def TypeExpr.BuiltField (t : TypeExpr) : Prop :=
  ∃ n type, t = .field (.named n) type n.pos ∧ P .identifier n ∧ type.Built P

/-- A variant has constructors with capitalized names. -/
def TypeExpr.BuiltConstr (t : TypeExpr) : Prop :=
  ∃ n args, t = .constr (.contract n) args n.pos ∧ P .con n ∧ TypeExpr.BuiltAll P args

/-- The body of a type definition. -/
def TypeExpr.BuiltBody : TypeExpr → Prop
  | .synonym type => type.Built P
  | .record fields => fields ≠ [] ∧ ∀ t ∈ fields, t.BuiltField P
  | .variant constructors => constructors ≠ [] ∧ ∀ t ∈ constructors, t.BuiltConstr P
  | _ => False

/-! ## Declarations -/

structure TypeDef.Built (d : TypeDef) : Prop where
  name : P .identifier d.name
  vars : ∀ v ∈ d.vars, P .tvar v
  body : d.body.BuiltBody P

structure Param.Built (p : Param) : Prop where
  label : ∃ n, p.label = .named n ∧ p.pos = n.pos ∧ P .identifier n
  type : ∀ t, p.type = some t → t.Built P

structure FunctionDef.Built (d : FunctionDef) : Prop where
  name : P .identifier d.name
  params : ∀ p ∈ d.params, p.Built P
  result : ∀ t, d.result = some t → t.Built P

def Decl.Built : Decl → Prop
  | .typeDef d => d.Built P
  | .function d => d.Built P
  | .other _ _ => False

structure Contract.Built (c : Contract) : Prop where
  name : P .con c.name
  decls : ∀ d ∈ c.decls, d.Built P

/-- Every declaration stands behind the ones that come before it in the list. -/
def Contract.InOrder (c : Contract) : Prop :=
  c.decls.Pairwise fun d e => d.place.Before e.place

variable {P}

theorem TypeExpr.builtAll_iff {ts : List TypeExpr} :
    TypeExpr.BuiltAll P ts ↔ ∀ t ∈ ts, t.Built P := by
  induction ts with
  | nil => simp [BuiltAll]
  | cons t ts ih => simp [BuiltAll, ih]

theorem TypeExpr.built_app {head : TypeExpr} {args : List TypeExpr}
    (h : (TypeExpr.app head args).Built P) :
    ∃ n, head = .named n ∧ P .identifier n ∧ args ≠ [] ∧ ∀ t ∈ args, t.Built P := by
  cases head with
  | named n => exact ⟨n, rfl, h.1, h.2.1, builtAll_iff.1 h.2.2⟩
  | _ => exact h.elim

theorem Contract.Built.typeDef {c : Contract} (h : c.Built P) {d : TypeDef}
    (hd : d ∈ c.typeDefs) : d.Built P := by
  obtain ⟨a, ha, had⟩ := List.mem_filterMap.1 hd
  have hb := h.decls a ha
  cases a with
  | typeDef e =>
    cases had
    exact hb
  | function e => cases had
  | other n pos => cases had

theorem Contract.Built.function {c : Contract} (h : c.Built P) {d : FunctionDef}
    (hd : d ∈ c.functions) : d.Built P := by
  obtain ⟨a, ha, had⟩ := List.mem_filterMap.1 hd
  have hb := h.decls a ha
  cases a with
  | typeDef e => cases had
  | function e =>
    cases had
    exact hb
  | other n pos => cases had

namespace Grammar

/-! ## Names in tokens -/

variable (P) in
/-- The names that the tokens write are as `P` says. -/
def Names (ts : List Token) : Prop := ∀ t ∈ ts, P t.kind t.name

@[simp] theorem names_cons {t : Token} {ts : List Token} :
    Names P (t :: ts) ↔ P t.kind t.name ∧ Names P ts := by
  simp [Names]

@[simp] theorem names_append {ts us : List Token} :
    Names P (ts ++ us) ↔ Names P ts ∧ Names P us := by
  simp only [Names, List.mem_append, or_imp, forall_and]

theorem Lexeme.built {k : TokenKind} (a : Lexeme k) (h : P a.val.kind a.val.name) :
    P k a.val.name := by
  rwa [a.property] at h

mutual

theorem TypeTree.built (d : TypeTree) (h : Names P d.tokens) : d.ast.Built P := by
  cases d <;> simp only [TypeTree.tokens, names_cons, names_append] at h
  case var v => exact v.built h.1
  case named n => exact n.built h.1
  case contract c => exact c.built h.1
  case unit o c => exact ⟨by simp, trivial⟩
  case app n o args c =>
    exact ⟨n.built h.1, args.asts_ne_nil, args.built h.2.2.1⟩
  case group o inner c => exact inner.built h.2.1
  case tuple o first comma rest c =>
    have hrest := rest.built h.2.2.2.1
    refine ⟨?_, first.built h.2.1, hrest⟩
    rw [List.length_cons, ne_eq, Nat.add_eq_right, List.length_eq_zero_iff]
    exact rest.asts_ne_nil

theorem TypesTree.built (ds : TypesTree) (h : Names P ds.tokens) :
    TypeExpr.BuiltAll P ds.asts := by
  match ds with
  | .one d => exact ⟨d.built h, trivial⟩
  | .more d comma ds =>
    simp only [TypesTree.tokens, names_append, names_cons] at h
    exact ⟨d.built h.1, ds.built h.2.2⟩

end

theorem Separated.forall_map {k : TokenKind} {α β : Type} {f : α → List Token} {g : α → β}
    {Q : β → Prop} (hQ : ∀ a, Names P (f a) → Q (g a)) (s : Separated k α)
    (h : Names P (s.tokens f)) : ∀ b ∈ s.map g, Q b := by
  induction s with
  | one a =>
    intro b hb
    rw [List.mem_singleton.1 hb]
    exact hQ a h
  | more a sep rest ih =>
    simp only [tokens, names_append, names_cons] at h
    intro b hb
    rcases List.mem_cons.1 hb with rfl | hb
    · exact hQ a h.1
    · exact ih h.2.2 b hb

theorem Separated.map_ne_nil {k : TokenKind} {α β : Type} (g : α → β) (s : Separated k α) :
    s.map g ≠ [] := by
  cases s <;> simp [Separated.map]

theorem Ascription.built (a : Ascription) (h : Names P a.tokens) :
    ∀ t, a.ast = some t → t.Built P := by
  rintro t ht
  cases a with
  | none => cases ht
  | some p =>
    cases ht
    exact p.2.built (names_cons.1 h).2

theorem HeadTree.built (d : HeadTree) (h : Names P d.tokens) :
    P .identifier d.ast.1 ∧ ∀ v ∈ d.ast.2, P .tvar v := by
  simp only [HeadTree.tokens, names_cons, names_append] at h
  refine ⟨d.name.built h.1, ?_⟩
  cases hp : d.params with
  | none => simp [HeadTree.ast, TypeParamsTree.names, hp]
  | some p =>
    rw [hp] at h
    simp only [TypeParamsTree.tokens, optional, Parens.tokens, names_cons, names_append] at h
    simp only [HeadTree.ast, TypeParamsTree.names, hp]
    exact Separated.forall_map (fun v hv => v.built (names_cons.1 hv).1) p.inner h.2.1.2.1

theorem FieldTree.built (f : FieldTree) (h : Names P f.tokens) : f.ast.BuiltField P := by
  simp only [FieldTree.tokens, names_cons] at h
  exact ⟨f.label.val.name, f.type.ast, rfl, f.label.built h.1, f.type.built h.2.2⟩

theorem ConstrTree.built (c : ConstrTree) (h : Names P c.tokens) : c.ast.BuiltConstr P := by
  simp only [ConstrTree.tokens, names_cons] at h
  refine ⟨c.tag.val.name, _, rfl, c.tag.built h.1, ?_⟩
  cases hc : c.args with
  | none => trivial
  | some p =>
    rw [hc] at h
    simp only [optional, Parens.tokens, names_cons, names_append] at h
    exact p.inner.built h.2.2.1

theorem ArgTree.built (a : ArgTree) (h : Names P a.tokens) : a.ast.Built P := by
  simp only [ArgTree.tokens, names_cons] at h
  exact ⟨⟨a.name.val.name, rfl, rfl, a.name.built h.1⟩, a.type.built h.2⟩

theorem FunctionTree.built (f : FunctionTree) (h : Names P f.tokens) : f.ast.Built P := by
  obtain ⟨ms, k, n, ⟨o, args, c⟩, result, e, body⟩ := f
  simp only [FunctionTree.tokens, FunctionTree.restTokens, names_append, names_cons] at h
  obtain ⟨-, -, hname, hargs, hresult, -⟩ := h
  refine ⟨n.built hname, ?_, result.built hresult⟩
  show ∀ p ∈ ArgsTree.params ⟨o, args, c⟩, p.Built P
  cases args with
  | none => simp [ArgsTree.params]
  | some args =>
    simp only [ArgsTree.tokens, Parens.tokens, optional, names_cons, names_append] at hargs
    exact Separated.forall_map ArgTree.built args hargs.2.1

theorem DeclTree.built (d : DeclTree) (h : Names P d.tokens) : d.ast.Built P := by
  cases d with
  | synonym k head t =>
    simp only [DeclTree.tokens, names_cons, names_append] at h
    obtain ⟨hname, hvars⟩ := head.built h.2.1
    exact ⟨hname, hvars, t.built h.2.2⟩
  | record k head o fs c =>
    simp only [DeclTree.tokens, names_cons, names_append] at h
    obtain ⟨hname, hvars⟩ := head.built h.2.1
    exact ⟨hname, hvars, fs.map_ne_nil _, Separated.forall_map FieldTree.built fs h.2.2.2.1⟩
  | datatype k head cs =>
    simp only [DeclTree.tokens, names_cons, names_append] at h
    obtain ⟨hname, hvars⟩ := head.built h.2.1
    exact ⟨hname, hvars, cs.map_ne_nil _, Separated.forall_map ConstrTree.built cs h.2.2⟩
  | function f => exact f.built h

theorem ContractTree.built (c : ContractTree) (h : Names P c.tokens) : c.ast.Built P := by
  simp only [ContractTree.tokens, names_cons] at h
  obtain ⟨-, hname, -, hdecls⟩ := h
  refine ⟨c.name.built hname, fun d hd => ?_⟩
  obtain ⟨D, hD, rfl⟩ := List.mem_map.1 hd
  exact D.built fun t ht => hdecls t (List.mem_flatMap.2 ⟨D, hD, ht⟩)

/-! ## Order -/

/-- The places of declarations are among those of their tokens, in the same order. -/
theorem places_sublist (ds : List DeclTree) :
    ((ds.map DeclTree.ast).map Decl.place).Sublist
      ((ds.flatMap DeclTree.tokens).map Token.pos) := by
  induction ds with
  | nil => exact .slnil
  | cons d ds ih =>
    obtain ⟨t, ts, e, -, hpos⟩ := d.tokens_eq_cons
    rw [List.flatMap_cons, e, List.map_cons, List.map_cons, List.cons_append, List.map_cons, hpos,
      List.map_append]
    exact (ih.trans (List.sublist_append_right _ _)).cons_cons _

theorem ContractTree.inOrder (c : ContractTree)
    (h : c.tokens.Pairwise fun t u => t.pos.Before u.pos) : c.ast.InOrder := by
  have hsub : (c.decls.flatMap DeclTree.tokens).Sublist c.tokens :=
    ((List.Sublist.refl _).cons _).cons _ |>.cons _
  have hpos : ((c.decls.flatMap DeclTree.tokens).map Token.pos).Pairwise Position.Before :=
    List.pairwise_map.2 (h.sublist hsub)
  exact List.pairwise_map.1 (hpos.sublist (places_sublist c.decls))

/-! ## Sources -/

/-- The contracts of a source are derived from its tokens, and their aliases are settled. -/
theorem exists_derivation_of_ofSource {s : String} {cs : List Contract}
    (h : Contract.ofSource s = .ok cs) : ∃ (Cs : List ContractTree) (e : Token),
      Token.scan s = .ok (Cs.flatMap ContractTree.tokens ++ [e]) ∧ e.kind = .finish ∧ Cs ≠ [] ∧
      Cs.map ContractTree.ast = cs ∧ AliasesSettledFrom [] cs := by
  unfold Contract.ofSource at h
  split at h
  · cases h
  · next ts hscan =>
    obtain ⟨us, e, rfl, he, hus⟩ := Token.scanned_of_scan hscan
    obtain ⟨Cs, hne, rfl, hcs, hsettled⟩ :=
      contracts_sound (fun t ht => (hus.lexical t ht).ne_finish) he h
    exact ⟨Cs, e, hscan, he, hne, hcs, hsettled⟩

theorem exists_trees_of_ofSource {s : String} {cs : List Contract}
    (h : Contract.ofSource s = .ok cs) : ∃ (Cs : List ContractTree) (e : Token), Cs ≠ [] ∧
      Cs.map ContractTree.ast = cs ∧ Token.scan s = .ok (Cs.flatMap ContractTree.tokens ++ [e]) ∧
      Token.Scanned .start (Cs.flatMap ContractTree.tokens) := by
  obtain ⟨Cs, e, hscan, -, hne, hcs, -⟩ := exists_derivation_of_ofSource h
  obtain ⟨us, e', heq, -, hus⟩ := Token.scanned_of_scan hscan
  obtain ⟨htokens, -⟩ := List.append_inj' heq rfl
  exact ⟨Cs, e, hne, hcs, hscan, htokens ▸ hus⟩

/-- A source has at least one contract. -/
theorem ne_nil_of_ofSource {s : String} {cs : List Contract} (h : Contract.ofSource s = .ok cs) :
    cs ≠ [] := by
  obtain ⟨Cs, -, hne, rfl, -⟩ := exists_trees_of_ofSource h
  exact mt List.map_eq_nil_iff.1 hne

/-- Every contract of a source is built from names in their lexical form, and in order. -/
theorem built_of_ofSource {s : String} {cs : List Contract} (h : Contract.ofSource s = .ok cs) :
    ∀ c ∈ cs, c.Built (fun k n => Token.Lexical k n.text) ∧ c.InOrder := by
  obtain ⟨Cs, -, -, rfl, -, hscan⟩ := exists_trees_of_ofSource h
  intro c hc
  obtain ⟨C, hC, rfl⟩ := List.mem_map.1 hc
  have hsub : C.tokens.Sublist (Cs.flatMap ContractTree.tokens) :=
    List.flatMap_def ▸ List.sublist_flatten_of_mem (List.mem_map_of_mem hC)
  exact ⟨C.built fun t ht => hscan.lexical t (hsub.subset ht),
    C.inOrder (hscan.increasing.sublist hsub)⟩

end Grammar

end ContractInterface
