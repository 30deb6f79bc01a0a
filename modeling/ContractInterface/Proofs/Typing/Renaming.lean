import ContractInterface.Proofs.Rendering
import ContractInterface.Proofs.Typing.Infer

/-!
# Renaming

A `Renaming` gives new names to lower-case identifiers, capitalized names and type variables, so
that names which differ still differ and builtin types keep theirs.  The checker compares names and
looks them up; with tables that hold the new names (`Checker.Renamed`) it finds the same in the
renamed parts of a contract, under the new names: one lemma for each part, and in the end

    c.Renamed ρ d → k.Built LexicalName →
      d.contractFindings (k.rename ρ) = (c.contractFindings k).map (Finding.rename ρ)
                                                                          (contractFindings_rename)

Names count only in the lexical form of their kind.
-/

namespace ContractInterface

/-- New names for the names of each kind. -/
structure Renaming where
  identifier : String → String
  con : String → String
  tvar : String → String
  identifier_injOn : Set.InjOn identifier {s | Token.Lexical .identifier s}
  con_injOn : Set.InjOn con {s | Token.Lexical .con s}
  tvar_injOn : Set.InjOn tvar {s | Token.Lexical .tvar s}
  builtin : ∀ name, isBuiltin name = true → identifier name = name

namespace Renaming

/-- What becomes of the value of a token. -/
def of (ρ : Renaming) : TokenKind → String → String
  | .identifier => ρ.identifier
  | .con => ρ.con
  | .tvar => ρ.tvar
  | _ => id

theorem of_injOn (ρ : Renaming) (k : TokenKind) : Set.InjOn (ρ.of k) {s | Token.Lexical k s} := by
  cases k with
  | identifier => exact ρ.identifier_injOn
  | con => exact ρ.con_injOn
  | tvar => exact ρ.tvar_injOn
  | _ => exact Set.injOn_id _

/-- Every name stays. -/
def refl : Renaming :=
  ⟨id, id, id, Set.injOn_id _, Set.injOn_id _, Set.injOn_id _, fun _ _ => rfl⟩

end Renaming

/-! ## Renamed units -/

section

variable (ρ : Renaming)

def Token.rename (t : Token) : Token := ⟨t.kind, ρ.of t.kind t.value, t.pos⟩

def Name.rename (k : TokenKind) (n : Name) : Name := ⟨ρ.of k n.text, n.pos⟩

namespace TypeExpr

mutual

def rename : TypeExpr → TypeExpr
  | var n => var (n.rename ρ .tvar)
  | named n => named (n.rename ρ .identifier)
  | contract n => contract (n.rename ρ .con)
  | app head args => app head.rename (renames args)
  | tuple parts => tuple (renames parts)
  | record fields => record (renames fields)
  | field label type pos => field label.rename type.rename pos
  | variant constructors => variant (renames constructors)
  | constr tag args pos => constr tag.rename (renames args) pos
  | synonym type => synonym type.rename
  | foreign kind parts shown => foreign kind parts shown

def renames : List TypeExpr → List TypeExpr
  | [] => []
  | t :: ts => t.rename :: renames ts

end

end TypeExpr

def Param.rename (p : Param) : Param := ⟨p.label.rename ρ, p.type.map (TypeExpr.rename ρ), p.pos⟩

def FunctionDef.rename (d : FunctionDef) : FunctionDef :=
  ⟨d.name.rename ρ .identifier, d.params.map (Param.rename ρ), d.result.map (TypeExpr.rename ρ),
    d.body.map (Token.rename ρ), d.isPrivate, d.isStateful, d.pos⟩

def TypeDef.rename (d : TypeDef) : TypeDef :=
  ⟨d.name.rename ρ .identifier, d.vars.map (Name.rename ρ .tvar), d.body.rename ρ, d.pos⟩

def Decl.rename : Decl → Decl
  | typeDef d => typeDef (d.rename ρ)
  | function d => function (d.rename ρ)
  | other name pos => other (name.rename ρ .identifier) pos

def Contract.rename (k : Contract) : Contract :=
  ⟨k.name.rename ρ .con, k.decls.map (Decl.rename ρ), k.pos⟩

/-! ## Renamed issues -/

def Place.rename : Place → Place
  | definition name => definition (ρ.identifier name)
  | function name => function (ρ.identifier name)

def Problem.rename : Problem → Problem
  | duplicateType name contract => duplicateType (ρ.identifier name) (ρ.con contract)
  | shadowsBuiltin name => shadowsBuiltin (ρ.identifier name)
  | repeatedVar name definition => repeatedVar (ρ.tvar name) (ρ.identifier definition)
  | repeatedField name place => repeatedField (ρ.identifier name) (place.rename ρ)
  | repeatedConstructor name place => repeatedConstructor (ρ.con name) (place.rename ρ)
  | repeatedArgument name place => repeatedArgument (ρ.identifier name) (place.rename ρ)
  | duplicateFunction name contract => duplicateFunction (ρ.identifier name) (ρ.con contract)
  | unannotatedArgument name place => unannotatedArgument (ρ.identifier name) (place.rename ρ)
  | unannotatedResult place => unannotatedResult (place.rename ρ)
  | unboundVar name place => unboundVar (ρ.tvar name) (place.rename ρ)
  | unknownContract name place => unknownContract (ρ.con name) (place.rename ρ)
  | unknownType name place => unknownType (ρ.identifier name) (place.rename ρ)
  | arity name expected got place => arity (ρ.identifier name) expected got (place.rename ρ)

/-- The issue stays where it was. -/
def Issue.rename (i : Issue) : Issue := ⟨i.pos, i.problem.rename ρ⟩

def Finding.rename : Finding → Finding
  | issue i => issue (i.rename ρ)
  | obstacle e => obstacle e

end

variable {ρ : Renaming}

theorem Name.rename_refl (k : TokenKind) : Name.rename .refl k = id := by
  cases k <;> rfl

namespace TypeExpr

theorem renames_eq_map (ts : List TypeExpr) : renames ρ ts = ts.map (rename ρ) := by
  induction ts with
  | nil => rfl
  | cons t ts ih => rw [renames, ih, List.map_cons]

mutual

theorem rename_refl (t : TypeExpr) : t.rename .refl = t := by
  cases t <;> simp [rename, rename_refl, renames_refl, Name.rename_refl]

theorem renames_refl (ts : List TypeExpr) : renames .refl ts = ts := by
  cases ts <;> simp [renames, rename_refl, renames_refl]

end

end TypeExpr

theorem Contract.rename_refl (k : Contract) : k.rename .refl = k := by
  have htoken : Token.rename .refl = id := by
    funext ⟨kind, value, pos⟩
    cases kind <;> rfl
  have htype : TypeExpr.rename .refl = id := funext TypeExpr.rename_refl
  have hparam : Param.rename .refl = id := by
    funext p
    simp [Param.rename, htype]
  have hdecl : Decl.rename .refl = id := by
    funext d
    cases d <;> simp [Decl.rename, TypeDef.rename, FunctionDef.rename, Name.rename_refl, htoken,
      htype, hparam]
  simp [rename, Name.rename_refl, hdecl]

theorem Finding.rename_refl (f : Finding) : f.rename .refl = f := by
  have hplace (p : Place) : p.rename .refl = p := by cases p <;> rfl
  cases f with
  | issue i =>
    obtain ⟨pos, problem⟩ := i
    cases problem <;> simp [rename, Issue.rename, Problem.rename, hplace] <;> simp [Renaming.refl]
  | obstacle e => rfl

/-! ## Declarations of a renamed contract -/

namespace Contract

/-- Declarations of one sort are renamed among all of them. -/
theorem filterMap_rename {α : Type} {sort? : Decl → Option α} {g : α → α}
    (h : ∀ d, sort? (d.rename ρ) = (sort? d).map g) (k : Contract) :
    (k.rename ρ).decls.filterMap sort? = (k.decls.filterMap sort?).map g := by
  rw [rename, List.filterMap_map, List.map_filterMap]
  exact congrArg (k.decls.filterMap ·) (funext h)

theorem typeDefs_rename (k : Contract) :
    (k.rename ρ).typeDefs = k.typeDefs.map (TypeDef.rename ρ) :=
  k.filterMap_rename fun d => by cases d <;> rfl

theorem functions_rename (k : Contract) :
    (k.rename ρ).functions = k.functions.map (FunctionDef.rename ρ) :=
  k.filterMap_rename fun d => by cases d <;> rfl

end Contract

/-! ## Names -/

open Token (Lexical)

theorem Text.isUppercase_eq_false_of_isLower {c : Char} (h : c.isLower = true) :
    Text.isUppercase c = false := by
  have hle : 97 ≤ c.toNat ∧ c.toNat ≤ 122 := by simpa [Char.isLower, UInt32.le_iff_toNat_le] using h
  have hupper : c.isUpper = false := by
    simp only [Char.isUpper, UInt32.le_iff_toNat_le, ge_iff_le]
    have : c.val.toNat = c.toNat := rfl
    simp
    omega
  rw [Text.isUppercase, if_pos (by omega), hupper]

theorem lexical_of_isBuiltin {name : String} (h : isBuiltin name = true) :
    Lexical .identifier name := by
  have hall : (builtinTypes.all fun e => e.1.toList.head?.any Char.isLower &&
      e.1.toList.all (fun d => d.isLower || d == '_') &&
      (Token.keyword? e.1.toList).isNone) = true := by cbv
  obtain ⟨arity, hlookup⟩ := Option.isSome_iff_exists.1 h
  have hname := List.all_eq_true.1 hall _ (mem_builtinTypes_iff.2 hlookup)
  simp only [Bool.and_eq_true, Option.isNone_iff_eq_none, List.all_eq_true] at hname
  obtain ⟨⟨hhead, hchars⟩, hkey⟩ := hname
  have hletter {d : Char} (hd : d.isLower = true) : Token.startsName d = true := by
    rw [Token.startsName, Text.isLetter_of_isAlpha d (by simp [Char.isAlpha, hd]), Bool.true_or]
  cases hname : name.toList with
  | nil => simp [hname] at hhead
  | cons c r =>
    rw [hname] at hhead hchars hkey
    refine ⟨c, r, hname, hletter hhead, Text.isUppercase_eq_false_of_isLower hhead, ?_, hkey⟩
    intro d hd
    rcases Bool.or_eq_true_iff.1 (hchars d (List.mem_cons_of_mem c hd)) with hd | hd
    · exact Token.isNameChar_of_startsName (hletter hd)
    · rw [beq_iff_eq.1 hd]
      rfl

/-- No other name becomes that of a builtin type. -/
theorem Renaming.lookup_builtinTypes (ρ : Renaming) {name : String} (h : Lexical .identifier name) :
    builtinTypes.lookup (ρ.identifier name) = builtinTypes.lookup name := by
  by_cases hbuiltin : isBuiltin name = true
  · rw [ρ.builtin name hbuiltin]
  · have hnew : ¬isBuiltin (ρ.identifier name) = true := by
      intro hnew
      have hsame := ρ.identifier_injOn (lexical_of_isBuiltin hnew) h (ρ.builtin _ hnew)
      exact hbuiltin (hsame ▸ hnew)
    simp only [isBuiltin, Option.not_isSome_iff_eq_none] at hbuiltin hnew
    rw [hbuiltin, hnew]

theorem contains_map_injOn {f : String → String} {S : Set String} (hf : Set.InjOn f S)
    {seen : List String} (hseen : ∀ s ∈ seen, s ∈ S) {s : String} (hs : s ∈ S) :
    (seen.map f).contains (f s) = seen.contains s := by
  rw [Bool.eq_iff_iff, List.contains_iff_mem, List.contains_iff_mem, List.mem_map]
  constructor
  · rintro ⟨t, ht, e⟩
    exact hf (hseen t ht) hs e ▸ ht
  · exact fun h => ⟨s, h, rfl⟩

theorem lookup_map_injOn {f : String → String} {S : Set String} (hf : Set.InjOn f S) {α : Type}
    {entries : List (String × α)} (hentries : ∀ e ∈ entries, e.1 ∈ S) {s : String} (hs : s ∈ S) :
    (entries.map fun e => (f e.1, e.2)).lookup (f s) = entries.lookup s := by
  induction entries with
  | nil => rfl
  | cons e entries ih =>
    have hkey : (f s == f e.1) = (s == e.1) := by
      rw [Bool.eq_iff_iff, beq_iff_eq, beq_iff_eq]
      exact ⟨hf hs (hentries e (by simp)), congrArg f⟩
    rw [List.map_cons, List.lookup_cons, List.lookup_cons, hkey,
      ih fun e' he' => hentries e' (List.mem_cons_of_mem _ he')]

/-! ## Checkers of renamed units -/

/-- The tables of `d` hold the new names of what those of `c` hold. -/
structure Checker.Renamed (ρ : Renaming) (c d : Checker) : Prop where
  contracts : ∀ name, Lexical .con name →
    d.contractNames.contains (ρ.con name) = c.contractNames.contains name
  types : ∀ name, Lexical .identifier name → d.arity? (ρ.identifier name) = c.arity? name

namespace Checker

section Names

variable {k : TokenKind} {problem problem' : String → Problem}

/-- The expression is a name of kind `k`. -/
def NameOf (ρ : Renaming) (k : TokenKind) (t : TypeExpr) : Prop :=
  ∃ n, t.name? = some n ∧ (t.rename ρ).name? = some (n.rename ρ k) ∧ LexicalName k n

theorem uniqueFindings_rename {ts : List TypeExpr} (hts : ∀ t ∈ ts, NameOf ρ k t)
    (hproblem : ∀ s, problem' (ρ.of k s) = (problem s).rename ρ) {seen : List String}
    (hseen : ∀ s ∈ seen, Lexical k s) :
    uniqueFindings problem' (seen.map (ρ.of k)) (ts.map (TypeExpr.rename ρ)) =
      (uniqueFindings problem seen ts).map (Finding.rename ρ) := by
  induction ts generalizing seen with
  | nil => rfl
  | cons t ts ih =>
    obtain ⟨n, hn, hn', hlexical⟩ := hts t (by simp)
    have hcontains := contains_map_injOn (ρ.of_injOn k) hseen hlexical
    have hrest := ih (fun u hu => hts u (List.mem_cons_of_mem _ hu))
      (List.forall_mem_cons.2 ⟨hlexical, hseen⟩)
    rw [List.map_cons] at hrest
    simp only [List.map_cons, uniqueFindings, hn, hn', List.map_append, apply_ite (List.map _),
      List.map_nil]
    refine congrArg₂ _ ?_ hrest
    simp only [Name.rename, hcontains, hproblem, issueAt]
    rfl

/-- At first no name has been seen. -/
theorem unseenFindings_rename {ts : List TypeExpr} (hts : ∀ t ∈ ts, NameOf ρ k t)
    (hproblem : ∀ s, problem' (ρ.of k s) = (problem s).rename ρ) :
    uniqueFindings problem' [] (ts.map (TypeExpr.rename ρ)) =
      (uniqueFindings problem [] ts).map (Finding.rename ρ) :=
  uniqueFindings_rename hts hproblem fun _ h => absurd h List.not_mem_nil

variable {label? : TypeExpr → Option TypeExpr}
  (hlabel : ∀ t, label? (t.rename ρ) = (label? t).map (TypeExpr.rename ρ))

include hlabel

theorem unlabelled?_rename (part : String) (t : TypeExpr) :
    unlabelled? label? part (t.rename ρ) = unlabelled? label? part t := by
  have hsome := congrArg Option.isSome (hlabel t)
  rw [Option.isSome_map] at hsome
  cases t with
  | foreign kind parts shown => rfl
  | _ =>
    simp only [unlabelled?, TypeExpr.rename] at hsome ⊢
    rw [hsome]
    rfl

theorem labelFindings_rename (part : String) {members : List TypeExpr}
    (hmembers : ∀ t ∈ members, ∀ label, label? t = some label → NameOf ρ k label)
    (hproblem : ∀ s, problem' (ρ.of k s) = (problem s).rename ρ) :
    labelFindings label? part problem' (members.map (TypeExpr.rename ρ)) =
      (labelFindings label? part problem members).map (Finding.rename ρ) := by
  have hobstacles : (members.map (TypeExpr.rename ρ)).filterMap (unlabelled? label? part) =
      members.filterMap (unlabelled? label? part) := by
    rw [List.filterMap_map]
    congr 1
    funext t
    exact unlabelled?_rename hlabel part t
  have hlabels : (members.map (TypeExpr.rename ρ)).filterMap label? =
      (members.filterMap label?).map (TypeExpr.rename ρ) := by
    rw [List.filterMap_map, List.map_filterMap]
    congr 1
    funext t
    exact hlabel t
  have hnames : ∀ label ∈ members.filterMap label?, NameOf ρ k label := by
    intro label h
    obtain ⟨t, ht, e⟩ := List.mem_filterMap.1 h
    exact hmembers t ht label e
  rw [labelFindings, labelFindings, hobstacles, hlabels, List.map_append,
    ← unseenFindings_rename hnames hproblem, List.map_map]
  rfl

end Names

theorem typeNameFindings_rename {contract : String} {ds : List TypeDef}
    (hds : ∀ d ∈ ds, LexicalName .identifier d.name) {seen : List String}
    (hseen : ∀ s ∈ seen, Lexical .identifier s) :
    typeNameFindings (ρ.con contract) (seen.map ρ.identifier) (ds.map (TypeDef.rename ρ)) =
      (typeNameFindings contract seen ds).map (Finding.rename ρ) := by
  induction ds generalizing seen with
  | nil => rfl
  | cons d ds ih =>
    have hd := hds d (by simp)
    have hcontains := contains_map_injOn ρ.identifier_injOn hseen hd
    have hbuiltin : isBuiltin (ρ.identifier d.name.text) = isBuiltin d.name.text := by
      rw [isBuiltin, isBuiltin, ρ.lookup_builtinTypes hd]
    have hds' : ∀ e ∈ ds, LexicalName .identifier e.name :=
      fun e he => hds e (List.mem_cons_of_mem _ he)
    have hagain := ih hds' hseen
    have hfirst := ih hds' (List.forall_mem_cons.2 ⟨hd, hseen⟩)
    rw [List.map_cons] at hfirst
    simp only [List.map_cons, typeNameFindings, TypeDef.rename, Name.rename, Renaming.of, hcontains,
      hbuiltin, apply_ite (List.map _), List.map_append, List.map_nil] at hagain hfirst ⊢
    rw [hagain, hfirst]
    rfl

/-! ## Types -/

section

variable {c d : Checker} (h : c.Renamed ρ d) {bound : Option (List String)} {place : Place}

include h

theorem arityFindings_rename {n : Name} (hn : LexicalName .identifier n) (got : Nat) :
    d.arityFindings (place.rename ρ) (n.rename ρ .identifier) got =
      (c.arityFindings place n got).map (Finding.rename ρ) := by
  have harity : d.arity? (n.rename ρ .identifier).text = c.arity? n.text := h.types n.text hn
  rw [arityFindings, arityFindings, harity]
  cases c.arity? n.text with
  | none => rfl
  | some expected =>
    show (if expected = got then _ else _) = List.map _ (if expected = got then _ else _)
    rw [apply_ite (List.map (Finding.rename ρ))]
    rfl

omit h in
/-- Types are renamed one by one. -/
theorem typesFindings_rename {ts : List TypeExpr}
    (hts : ∀ t ∈ ts, d.typeFindings (bound.map (List.map ρ.tvar)) (place.rename ρ) (t.rename ρ) =
      (c.typeFindings bound place t).map (Finding.rename ρ)) :
    d.typesFindings (bound.map (List.map ρ.tvar)) (place.rename ρ) (TypeExpr.renames ρ ts) =
      (c.typesFindings bound place ts).map (Finding.rename ρ) := by
  rw [typesFindings_eq, typesFindings_eq, TypeExpr.renames_eq_map, List.map_flatMap,
    List.flatMap_map]
  exact List.flatMap_congr hts

theorem typeFindings_rename (hbound : ∀ vars, bound = some vars → ∀ s ∈ vars, Lexical .tvar s)
    {t : TypeExpr} (ht : t.Built LexicalName) :
    d.typeFindings (bound.map (List.map ρ.tvar)) (place.rename ρ) (t.rename ρ) =
      (c.typeFindings bound place t).map (Finding.rename ρ) := by
  match t with
  | .var n =>
    have hcontains : (bound.map (List.map ρ.tvar)).all (·.contains (ρ.tvar n.text)) =
        bound.all (·.contains n.text) := by
      cases bound with
      | none => rfl
      | some vars => exact contains_map_injOn ρ.tvar_injOn (hbound vars rfl) ht
    rw [TypeExpr.rename, typeFindings, typeFindings, apply_ite (List.map (Finding.rename ρ))]
    simp only [Name.rename, Renaming.of, hcontains]
    rfl
  | .named n => exact arityFindings_rename h ht 0
  | .contract n =>
    have hcontains := h.contracts n.text ht
    rw [TypeExpr.rename, typeFindings, typeFindings, apply_ite (List.map (Finding.rename ρ))]
    simp only [Name.rename, Renaming.of, hcontains]
    rfl
  | .app head args =>
    obtain ⟨n, rfl, hn, -, hargs⟩ := TypeExpr.built_app ht
    have hlength : (TypeExpr.renames ρ args).length = args.length := by
      rw [TypeExpr.renames_eq_map, List.length_map]
    rw [TypeExpr.rename, TypeExpr.rename, typeFindings, typeFindings, hlength, List.map_append]
    exact congrArg₂ _ (arityFindings_rename h hn args.length)
      (typesFindings_rename fun u hu => typeFindings_rename hbound (hargs u hu))
  | .tuple parts =>
    have hparts := TypeExpr.builtAll_iff.1 ht.2
    rw [TypeExpr.rename, typeFindings, typeFindings]
    exact typesFindings_rename fun u hu => typeFindings_rename hbound (hparts u hu)
  | .record _ => exact ht.elim
  | .field _ _ _ => exact ht.elim
  | .variant _ => exact ht.elim
  | .constr _ _ _ => exact ht.elim
  | .synonym _ => exact ht.elim
  | .foreign _ _ _ => exact ht.elim
termination_by sizeOf t
decreasing_by
  all_goals
    have := List.sizeOf_lt_of_mem hu
    simp
    omega

omit h in
variable (place) in
theorem memberFindings_rename {t : TypeExpr} (ht : t.BuiltBody LexicalName) :
    memberFindings (place.rename ρ) (t.rename ρ) =
      (memberFindings place t).map (Finding.rename ρ) := by
  cases t with
  | synonym type => rfl
  | record fields =>
    rw [TypeExpr.rename, TypeExpr.renames_eq_map]
    refine labelFindings_rename (k := .identifier) (fun t => by cases t <;> rfl) "id" ?_
      fun _ => rfl
    intro t hmem label e
    obtain ⟨n, type, rfl, hn, -⟩ := ht.2 t hmem
    cases e
    exact ⟨n, rfl, rfl, hn⟩
  | variant constructors =>
    rw [TypeExpr.rename, TypeExpr.renames_eq_map]
    refine labelFindings_rename (k := .con) (fun t => by cases t <;> rfl) "con" ?_ fun _ => rfl
    intro t hmem label e
    obtain ⟨n, args, rfl, hn, -⟩ := ht.2 t hmem
    cases e
    exact ⟨n, rfl, rfl, hn⟩
  | _ => exact ht.elim

variable (place) in
theorem bodyFindings_rename (hbound : ∀ vars, bound = some vars → ∀ s ∈ vars, Lexical .tvar s)
    {t : TypeExpr} (ht : t.BuiltBody LexicalName) :
    d.typeFindings (bound.map (List.map ρ.tvar)) (place.rename ρ) (t.rename ρ) =
      (c.typeFindings bound place t).map (Finding.rename ρ) := by
  cases t with
  | synonym type => exact typeFindings_rename h hbound (t := type) ht
  | record fields =>
    rw [TypeExpr.rename, typeFindings, typeFindings]
    refine typesFindings_rename fun t hmem => ?_
    obtain ⟨n, type, rfl, -, htype⟩ := ht.2 t hmem
    rw [TypeExpr.rename, typeFindings, typeFindings]
    exact typeFindings_rename h hbound htype
  | variant constructors =>
    rw [TypeExpr.rename, typeFindings, typeFindings]
    refine typesFindings_rename fun t hmem => ?_
    obtain ⟨n, args, rfl, -, hargs⟩ := ht.2 t hmem
    rw [TypeExpr.rename, typeFindings, typeFindings]
    exact typesFindings_rename fun u hu =>
      typeFindings_rename h hbound (TypeExpr.builtAll_iff.1 hargs u hu)
  | _ => exact ht.elim

/-! ## Declarations -/

theorem typeDefFindings_rename {e : TypeDef} (he : e.Built LexicalName) :
    d.typeDefFindings (e.rename ρ) = (c.typeDefFindings e).map (Finding.rename ρ) := by
  have hnames : ∀ t ∈ e.vars.map TypeExpr.var, NameOf ρ .tvar t := by
    intro t ht
    obtain ⟨v, hv, rfl⟩ := List.mem_map.1 ht
    exact ⟨v, rfl, rfl, he.vars v hv⟩
  have hvars : uniqueFindings (.repeatedVar · (ρ.identifier e.name.text)) []
      ((e.vars.map .var).map (TypeExpr.rename ρ)) =
      (uniqueFindings (.repeatedVar · e.name.text) [] (e.vars.map .var)).map (Finding.rename ρ) :=
    unseenFindings_rename hnames fun _ => rfl
  have hbound : ∀ vars, some (e.vars.map Name.text) = some vars → ∀ s ∈ vars, Lexical .tvar s := by
    rintro vars ⟨⟩ s hs
    obtain ⟨v, hv, rfl⟩ := List.mem_map.1 hs
    exact he.vars v hv
  have hbody := bodyFindings_rename h (.definition e.name.text) hbound he.body
  rw [typeDefFindings, typeDefFindings, List.map_append, List.map_append, ← hvars, ← hbody,
    ← memberFindings_rename _ he.body]
  simp only [TypeDef.rename, List.map_map, Option.map_some]
  rfl

variable (place) in
theorem ascriptionFindings_rename (missing : Issue) {type : Option TypeExpr}
    (htype : ∀ t, type = some t → t.Built LexicalName) :
    d.ascriptionFindings (place.rename ρ) (missing.rename ρ) (type.map (TypeExpr.rename ρ)) =
      (c.ascriptionFindings place missing type).map (Finding.rename ρ) := by
  cases type with
  | none => rfl
  | some t =>
    have hbound : ∀ vars : List String, none = some vars → ∀ s ∈ vars, Lexical .tvar s :=
      fun _ e => nomatch e
    exact typeFindings_rename h hbound (htype t rfl)

theorem functionFindings_rename {f : FunctionDef} (hf : f.Built LexicalName) :
    d.functionFindings (f.rename ρ) = (c.functionFindings f).map (Finding.rename ρ) := by
  have hnames : ∀ t ∈ f.params.map Param.label, NameOf ρ .identifier t := by
    intro t ht
    obtain ⟨p, hp, rfl⟩ := List.mem_map.1 ht
    obtain ⟨n, hn, -, hlexical⟩ := (hf.params p hp).label
    exact ⟨n, by rw [hn]; rfl, by rw [hn]; rfl, hlexical⟩
  have hlabels : uniqueFindings (.repeatedArgument · (.function (ρ.identifier f.name.text))) []
      ((f.params.map Param.label).map (TypeExpr.rename ρ)) =
      (uniqueFindings (.repeatedArgument · (.function f.name.text)) []
        (f.params.map Param.label)).map (Finding.rename ρ) :=
    unseenFindings_rename hnames fun _ => rfl
  have hparams : (f.rename ρ).params.flatMap
        (d.paramFindings (.function (ρ.identifier f.name.text))) =
      (f.params.flatMap (c.paramFindings (.function f.name.text))).map (Finding.rename ρ) := by
    rw [FunctionDef.rename, List.flatMap_map, List.map_flatMap]
    refine List.flatMap_congr fun p hp => ?_
    rw [paramFindings, paramFindings, ← ascriptionFindings_rename h _ _ (hf.params p hp).type]
    obtain ⟨n, hn, -, -⟩ := (hf.params p hp).label
    simp only [Param.rename, hn]
    rfl
  have hresult := ascriptionFindings_rename h (.function f.name.text)
    (issueAt f.name (.unannotatedResult (.function f.name.text))) hf.result
  rw [functionFindings, functionFindings, List.map_append, List.map_append, ← hlabels, ← hparams,
    ← hresult, List.map_map]
  simp only [FunctionDef.rename, List.map_map]
  rfl

theorem functionsFindings_rename (contract : String) {fs : List FunctionDef}
    (hfs : ∀ f ∈ fs, f.Built LexicalName) {seen : List String}
    (hseen : ∀ s ∈ seen, Lexical .identifier s) :
    d.functionsFindings (ρ.con contract) (seen.map ρ.identifier) (fs.map (FunctionDef.rename ρ)) =
      (c.functionsFindings contract seen fs).map (Finding.rename ρ) := by
  induction fs generalizing seen with
  | nil => rfl
  | cons f fs ih =>
    have hf := hfs f (by simp)
    have hcontains := contains_map_injOn ρ.identifier_injOn hseen hf.name
    have hrest := ih (fun g hg => hfs g (List.mem_cons_of_mem _ hg))
      (List.forall_mem_cons.2 ⟨hf.name, hseen⟩)
    rw [List.map_cons] at hrest
    rw [List.map_cons, functionsFindings, functionsFindings, List.map_append, List.map_append,
      ← functionFindings_rename h hf, ← hrest, apply_ite (List.map (Finding.rename ρ))]
    simp only [FunctionDef.rename, Name.rename, Renaming.of, hcontains]
    rfl

/-- **Renamed contracts have the same findings**, under the new names. -/
theorem contractFindings_rename {k : Contract} (hk : k.Built LexicalName) :
    d.contractFindings (k.rename ρ) = (c.contractFindings k).map (Finding.rename ρ) := by
  have hnil : ∀ s ∈ ([] : List String), Lexical .identifier s :=
    fun _ h => absurd h List.not_mem_nil
  have hnames : typeNameFindings (ρ.con k.name.text) [] (k.typeDefs.map (TypeDef.rename ρ)) =
      (typeNameFindings k.name.text [] k.typeDefs).map (Finding.rename ρ) :=
    typeNameFindings_rename (fun e he => (hk.typeDef he).name) hnil
  have hfunctions := functionsFindings_rename h k.name.text (fun f hf => hk.function hf) hnil
  have htypes : (k.rename ρ).typeDefs.flatMap d.typeDefFindings =
      (k.typeDefs.flatMap c.typeDefFindings).map (Finding.rename ρ) := by
    rw [Contract.typeDefs_rename, List.flatMap_map, List.map_flatMap]
    exact List.flatMap_congr fun e he => typeDefFindings_rename h (hk.typeDef he)
  rw [contractFindings, contractFindings, List.map_append, List.map_append, ← hnames, ← htypes,
    ← hfunctions, Contract.typeDefs_rename, Contract.functions_rename]
  rfl

end

end Checker

end ContractInterface
