import Mathlib
import ContractInterface.Proofs.Grammar.Shape
import ContractInterface.Proofs.Grammar.Stops

/-!
# Where ambiguities are reported

Only an alias is ever ambiguous, and it is as soon as its type has been read: the tokens so far end
in a capitalized name, maybe in parentheses, that is not the name of a contract completed earlier in
the unit (`ofTokens_eq_ambiguous_iff`).  What stands behind the type is not looked at.  So the alias
is a reading of the whole body where nothing stands there, and the other alternative, a variant of
one constructor, only if there are no parentheses either (`ambiguity_reported`):

    contract C = type t = A            both are readings of the body
    contract C = type t = (A)          only the alias is
    contract C = type t = A | B        neither is
-/

namespace ContractInterface.Grammar

open Reader Contract.Parse

variable {ts rest : List Token} {con : Name}

instance : DecidablePred EndsDecl := fun _ => inferInstanceAs (Decidable (_ ∨ _))

/-! ## Types that are capitalized names -/

/-- The name `c`, maybe in parentheses. -/
inductive TypeTree.Encloses (c : Lexeme .con) : TypeTree → Prop
  | bare : Encloses c (.contract c)
  | group {o : Lexeme .lparen} {T : TypeTree} {close : Lexeme .rparen} (h : Encloses c T) :
      Encloses c (.group o T close)

theorem TypeTree.exists_encloses (T : TypeTree) (h : T.ast = .contract con) :
    ∃ c : Lexeme .con, T.Encloses c ∧ c.val.name = con := by
  match T with
  | .contract c => exact ⟨c, .bare, TypeExpr.contract.inj h⟩
  | .group o inner close =>
    obtain ⟨c, hc, hname⟩ := inner.exists_encloses h
    exact ⟨c, .group hc, hname⟩
  | .var _ => cases h
  | .named _ => cases h
  | .app _ _ _ _ => cases h
  | .unit _ _ => cases h
  | .tuple _ _ _ _ _ => cases h

namespace TypeTree.Encloses

variable {c : Lexeme .con} {T : TypeTree}

theorem not_endsDecl (h : T.Encloses c) : ∀ t ∈ T.tokens, ¬EndsDecl t.kind := by
  induction h with
  | bare =>
    intro t ht
    rw [List.mem_singleton.1 ht, c.property]
    decide
  | @group o T close h ih =>
    intro t ht
    simp only [tokens, List.mem_cons, List.mem_append, List.not_mem_nil, or_false] at ht
    rcases ht with rfl | ht | rfl
    · rw [o.property]
      decide
    · exact ih t ht
    · rw [close.property]
      decide

/-- No type goes on behind such a name. -/
theorem unique (h : T.Encloses c) (A : TypeTree) {r s : List Token}
    (e : A.tokens ++ r = T.tokens ++ s) : A = T ∧ r = s := by
  induction h generalizing A r s with
  | bare =>
    cases A <;> simp [tokens] at e
    case contract c' => exact ⟨by rw [Subtype.ext e.1], e.2⟩
  | group h ih =>
    cases A <;> simp [tokens] at e
    case unit => exact (tokens_ne_rparen _ _ _ _ e.2).elim
    case group o' A close' =>
      obtain ⟨rfl, e'⟩ := ih A e.2
      simp only [List.cons.injEq] at e'
      rw [Subtype.ext e.1, Subtype.ext e'.1]
      exact ⟨rfl, e'.2⟩
    case tuple o' first comma more close' =>
      obtain ⟨-, e'⟩ := ih first e.2
      simp at e'

end TypeTree.Encloses

/-- The reader takes such a name wherever it stands, unless an arrow follows its parentheses. -/
theorem reads_contract_iff : Reads typeExpr ts (.contract con) rest ↔
    ∃ T : TypeTree, ts = T.tokens ++ rest ∧ T.ast = .contract con ∧
      (headKind ts = .lparen → headKind rest ≠ .arrow) := by
  constructor
  · intro h
    obtain ⟨T, rfl, hT⟩ := typeExpr_sound h
    refine ⟨T, rfl, hT, fun hp => ?_⟩
    cases T with
    | group o inner c => exact ((reads_typeExpr_lparen o.property).1 h).1
    | contract c => cases hp.symm.trans c.property
    | _ => cases hT
  · rintro ⟨T, rfl, hT, harrow⟩
    cases T with
    | contract c =>
      cases hT
      exact (reads_typeExpr_con c.property).2 ⟨rfl, rfl⟩
    | group o inner c =>
      have hinner := typeExpr_complete inner (c.val :: rest) (by simp) (by simp)
      refine (reads_typeExpr_lparen o.property).2 ⟨harrow o.property, .inr ⟨?_, [inner.ast], c.val,
        reads_types.2 ⟨_, _, by simpa using hinner, .inl ⟨rfl, rfl, .inr (by simp)⟩⟩,
        c.property, hT.symm⟩⟩
      simpa using inner.headKind_tokens (c.val :: rest)
    | _ => cases hT

/-! ## Readings of a body -/

/-- The tokens up to the next declaration or contract, or the end. -/
def bodyTokens (ts : List Token) : List Token := ts.takeWhile fun t => ¬EndsDecl t.kind

/-- The reading is derived from these tokens, as a type or as the constructors of a variant. -/
def CompleteReading (w : List Token) : Reading → Prop
  | .definition ⟨_, _, .synonym type, _⟩ => ∃ T : TypeTree, T.tokens = w ∧ T.ast = type
  | .definition ⟨_, _, .variant constructors, _⟩ =>
    ∃ cs : Separated .bar ConstrTree, cs.tokens ConstrTree.tokens = w ∧
      cs.map ConstrTree.ast = constructors
  | _ => False

section

variable {w : List Token} {c : Lexeme .con} {T : TypeTree}

theorem prefix_bodyTokens (hT : T.Encloses c) (rest : List Token) :
    T.tokens <+: bodyTokens (T.tokens ++ rest) := by
  rw [bodyTokens, List.takeWhile_append_of_pos]
  · exact List.prefix_append _ _
  · intro t ht
    simpa using hT.not_endsDecl t ht

/-- The alias is read where nothing follows the name. -/
theorem exists_type_iff (hT : T.Encloses c) (hw : T.tokens <+: w) :
    (∃ A : TypeTree, A.tokens = w ∧ A.ast = T.ast) ↔ w = T.tokens := by
  constructor
  · rintro ⟨A, rfl, -⟩
    obtain ⟨r, hr⟩ := hw
    obtain ⟨rfl, -⟩ := hT.unique A ((List.append_nil _).trans hr.symm)
    rfl
  · rintro rfl
    exact ⟨T, rfl, rfl⟩

/-- A variant of one constructor without arguments is a capitalized name. -/
theorem exists_constructors_iff :
    (∃ cs : Separated .bar ConstrTree, cs.tokens ConstrTree.tokens = w ∧
      cs.map ConstrTree.ast = [.constr (.contract con) [] con.pos]) ↔
      ∃ c : Lexeme .con, w = [c.val] ∧ c.val.name = con := by
  constructor
  · rintro ⟨cs, rfl, hcs⟩
    cases cs with
    | more c bar cs => exact absurd (List.cons.inj hcs).2 (cs.map_ne_nil _)
    | one c =>
      obtain ⟨tag, args⟩ := c
      obtain ⟨htag, hargs, -⟩ := TypeExpr.constr.inj (List.cons.inj hcs).1
      cases args with
      | some p => exact absurd hargs p.inner.asts_ne_nil
      | none => exact ⟨tag, rfl, TypeExpr.contract.inj htag⟩
  · rintro ⟨c, rfl, rfl⟩
    exact ⟨.one ⟨c, none⟩, rfl, rfl⟩

/-- Both alternatives are readings of nothing but the bare name. -/
theorem completeReadings_iff (hT : T.Encloses c) (hast : T.ast = .contract con)
    (hw : T.tokens <+: w) (name : Name) (vars : List Name) (pos : Position) :
    (∀ r ∈ aliasReadings name vars con pos, CompleteReading w r) ↔ w.map Token.kind = [.con] := by
  have hall : (∀ r ∈ aliasReadings name vars con pos, CompleteReading w r) ↔
      (∃ A : TypeTree, A.tokens = w ∧ A.ast = T.ast) ∧
        ∃ cs : Separated .bar ConstrTree, cs.tokens ConstrTree.tokens = w ∧
          cs.map ConstrTree.ast = [.constr (.contract con) [] con.pos] := by
    simp [aliasReadings, CompleteReading, hast]
  rw [hall, exists_type_iff hT hw, exists_constructors_iff]
  constructor
  · rintro ⟨-, c, rfl, -⟩
    rw [List.map_singleton, c.property]
  · intro hkind
    obtain ⟨t, rfl, ht⟩ := List.map_eq_singleton_iff.1 hkind
    obtain ⟨r, hr⟩ := hw
    obtain ⟨rfl, rfl⟩ := hT.unique (.contract ⟨t, ht⟩) (r := []) hr.symm
    exact ⟨rfl, ⟨t, ht⟩, rfl, TypeExpr.contract.inj hast⟩

end

/-! ## Units up to an alias -/

/-- What stands in front of the type of an alias: complete contracts, and of the contract at hand
complete declarations and the head of the alias. -/
structure AliasFront where
  contracts : List ContractTree
  keyword : Lexeme .kwContract
  name : Lexeme .con
  eq : Lexeme .eq
  decls : List DeclTree
  typeKeyword : Lexeme .kwType
  head : HeadTree

namespace AliasFront

variable (F : AliasFront)

/-- The tokens of the contract at hand behind its keyword. -/
def restTokens : List Token :=
  F.name.val :: F.eq.val :: (F.decls.flatMap DeclTree.tokens ++ F.typeKeyword.val :: F.head.tokens)

def tokens : List Token :=
  F.contracts.flatMap ContractTree.tokens ++ F.keyword.val :: F.restTokens

/-- The names of the contracts that are complete. -/
def known : List String := F.contracts.map fun C => C.ast.name.text

/-- All aliases so far are settled. -/
structure Settled : Prop where
  contracts : AliasesSettled (F.contracts.map ContractTree.ast)
  decls : ∀ D ∈ F.decls, D.Settled F.known

/-- The alternatives for a type that is the name of a contract. -/
def readings (con : Name) : List Reading :=
  aliasReadings F.head.ast.1 F.head.ast.2 con F.typeKeyword.val.pos

end AliasFront

/-! ## Token lists -/

theorem AliasFront.text_mem_knownBehind (F : AliasFront) :
    con.text ∈ knownBehind [] F.contracts ↔ con.text ∈ F.known := by
  simp [knownBehind, known]

/-- **An ambiguity is reported as soon as the type of an alias has turned out to be the name of no
contract so far.**  An arrow behind parentheses is an error of its own. -/
theorem ofTokens_eq_ambiguous_iff {pos : Position} {rs : List Reading} :
    Contract.ofTokens ts = .error ⟨pos, .ambiguous rs⟩ ↔
      ∃ (F : AliasFront) (T : TypeTree) (con : Name) (rest : List Token),
        ts = F.tokens ++ (T.tokens ++ rest) ∧ F.Settled ∧ T.ast = .contract con ∧
        con.text ∉ F.known ∧ (headKind (T.tokens ++ rest) = .lparen → headKind rest ≠ .arrow) ∧
        pos = (head (T.tokens ++ rest)).pos ∧ rs = F.readings con := by
  have hamong (Cs : List ContractTree) (D : DeclTree) : D.Settled (knownBehind [] Cs) ↔
      D.Settled (Cs.map fun C => C.ast.name.text) := by
    simp [DeclTree.Settled, AliasAmong, knownBehind]
  constructor
  · intro h
    obtain ⟨Cs, k, us, rfl, hCs, hk⟩ := exists_contract_of_ambiguous h
    obtain ⟨n, e, vs, rfl, hds⟩ := contract_eq_ambiguous_iff.1 hk
    obtain ⟨Ds, t, ws, rfl, hDs, -, hd⟩ := exists_decl_of_error hds
    obtain ⟨ht, halias⟩ := decl_eq_ambiguous_iff.1 hd
    obtain ⟨hd, xs, con, rest, hhead, htype, hcon, rfl, rfl⟩ := aliasDef_eq_ambiguous_iff.1 halias
    obtain ⟨H, rfl, rfl⟩ := sound_typeHead _ _ _ hhead
    obtain ⟨T, rfl, hT, harrow⟩ := reads_contract_iff.1 htype
    let F : AliasFront := ⟨Cs, k, n, e, Ds, ⟨t, ht⟩, H⟩
    refine ⟨F, T, con, rest, ?_, ⟨aliasesSettledFrom_nil.1 hCs,
      fun D hD => (hamong Cs D).1 (hDs D hD)⟩, hT, mt F.text_mem_knownBehind.2 hcon, harrow, rfl, rfl⟩
    simp [F, AliasFront.tokens, AliasFront.restTokens]
  · rintro ⟨F, T, con, rest, rfl, hF, hT, hcon, harrow, rfl, rfl⟩
    have halias : aliasDef (knownBehind [] F.contracts) F.typeKeyword.val.pos
        (F.head.tokens ++ (T.tokens ++ rest)) =
        .error ⟨(head (T.tokens ++ rest)).pos, .ambiguous (F.readings con)⟩ :=
      aliasDef_eq_ambiguous_iff.2 ⟨F.head.ast, _, con, rest, complete_typeHead F.head _ trivial,
        reads_contract_iff.2 ⟨T, rfl, hT, harrow⟩, mt F.text_mem_knownBehind.1 hcon, rfl, rfl⟩
    have hdecls := decls_eq_error (by rw [F.typeKeyword.property]; rfl)
      (decl_eq_ambiguous_iff.2 ⟨F.typeKeyword.property, halias⟩) F.decls
      fun D hD => (hamong _ D).2 (hF.decls D hD)
    have hcontract := contracts_eq_error (k := F.keyword) F.contracts
      (aliasesSettledFrom_nil.2 hF.contracts)
      (contract_eq_ambiguous_iff.2 ⟨F.name, F.eq, _, rfl, hdecls⟩)
    simpa [Contract.ofTokens, AliasFront.tokens, AliasFront.restTokens] using hcontract

/-- **What the listed alternatives have to do with the body of the alias.**  The name is not that of
a contract completed earlier.  The tokens of its type begin the body; the alias is a reading of the
body if they are all of it, and both alternatives are if the body is the bare name. -/
theorem ambiguity_reported (ts : List Token) (pos : Position) (rs : List Reading)
    (h : Contract.ofTokens ts = .error ⟨pos, .ambiguous rs⟩) :
    ∃ (F : AliasFront) (T : TypeTree) (con : Name) (rest w : List Token),
      ts = F.tokens ++ (T.tokens ++ rest) ∧ w = bodyTokens (T.tokens ++ rest) ∧
      T.ast = .contract con ∧ con.text ∉ F.known ∧ pos = (head (T.tokens ++ rest)).pos ∧
      rs = F.readings con ∧ T.tokens <+: w ∧
      ((∃ A : TypeTree, A.tokens = w ∧ A.ast = .contract con) ↔ w = T.tokens) ∧
      ((∀ r ∈ rs, CompleteReading w r) ↔ w.map Token.kind = [.con]) := by
  obtain ⟨F, T, con, rest, rfl, -, hT, hcon, -, rfl, rfl⟩ := ofTokens_eq_ambiguous_iff.1 h
  obtain ⟨c, hc, -⟩ := T.exists_encloses hT
  have hw := prefix_bodyTokens hc rest
  exact ⟨F, T, con, rest, _, rfl, rfl, hT, hcon, rfl, rfl, hw, hT ▸ exists_type_iff hc hw,
    completeReadings_iff hc hT hw _ _ _⟩

/-- The tokens of `contract C = type t = A | B`. -/
def barTokens : List Token :=
  [⟨.kwContract, "contract", ⟨1, 1⟩⟩, ⟨.con, "C", ⟨1, 10⟩⟩, ⟨.eq, "=", ⟨1, 12⟩⟩,
    ⟨.kwType, "type", ⟨1, 14⟩⟩, ⟨.identifier, "t", ⟨1, 19⟩⟩, ⟨.eq, "=", ⟨1, 21⟩⟩,
    ⟨.con, "A", ⟨1, 23⟩⟩, ⟨.bar, "|", ⟨1, 25⟩⟩, ⟨.con, "B", ⟨1, 27⟩⟩, ⟨.finish, "", ⟨1, 28⟩⟩]

/-- The readings of `type t = A`. -/
def barReadings : List Reading :=
  aliasReadings ⟨"t", some ⟨1, 19⟩⟩ [] ⟨"A", some ⟨1, 23⟩⟩ ⟨1, 14⟩

theorem ambiguity_reported_bar :
    Contract.ofTokens barTokens = .error ⟨⟨1, 23⟩, .ambiguous barReadings⟩ ∧
    ∃ (F : AliasFront) (T : TypeTree) (con : Name) (rest w : List Token),
      barTokens = F.tokens ++ (T.tokens ++ rest) ∧ w = bodyTokens (T.tokens ++ rest) ∧
      T.ast = .contract con ∧ con.text ∉ F.known ∧ ⟨1, 23⟩ = (head (T.tokens ++ rest)).pos ∧
      barReadings = F.readings con ∧ T.tokens <+: w ∧
      ((∃ A : TypeTree, A.tokens = w ∧ A.ast = .contract con) ↔ w = T.tokens) ∧
      ((∀ r ∈ barReadings, CompleteReading w r) ↔ w.map Token.kind = [.con]) := by
  have h : Contract.ofTokens barTokens = .error ⟨⟨1, 23⟩, .ambiguous barReadings⟩ := by cbv
  exact ⟨h, ambiguity_reported _ _ _ h⟩

/-- Neither reading is one of `A | B`, but both are listed. -/
theorem not_completeReading_bar :
    Token.scan "contract C = type t = A | B" = .ok barTokens ∧
    Contract.ofTokens barTokens = .error ⟨⟨1, 23⟩, .ambiguous barReadings⟩ ∧
    ∀ r ∈ barReadings, ¬CompleteReading (bodyTokens (barTokens.drop 6)) r := by
  refine ⟨by cbv, by cbv, ?_⟩
  have hw : bodyTokens (barTokens.drop 6) = [⟨.con, "A", ⟨1, 23⟩⟩, ⟨.bar, "|", ⟨1, 25⟩⟩,
    ⟨.con, "B", ⟨1, 27⟩⟩] := rfl
  intro r hr
  rw [hw]
  obtain rfl | rfl : r = _ ∨ r = _ := by simpa [barReadings, aliasReadings] using hr
  · intro htype
    have hA : TypeTree.Encloses (lexeme .con "A" ⟨1, 23⟩) (.contract (lexeme .con "A" ⟨1, 23⟩)) :=
      .bare
    cases (exists_type_iff hA (List.prefix_append _ _)).1 htype
  · intro hconstructors
    obtain ⟨c, e, -⟩ := exists_constructors_iff.1 hconstructors
    cases (List.cons.inj e).2

end ContractInterface.Grammar
