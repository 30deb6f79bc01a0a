import Mathlib
import ContractInterface.Proofs.Grammar.Stops

/-!
# Syntax errors stand at the first token that cannot go on

A token list that is refused is refused at the first token with which no unit goes on: the tokens in
front of it begin a list that is accepted or only ambiguous, and every list that is the same up to
and with this token is refused in the same way (`refused_at_first`).

The tokens that a unit spells are always acceptable.  The reader goes through them as far as its
aliases are settled, and the first one that is not makes the list ambiguous.
-/

namespace ContractInterface.Grammar

open Reader Contract.Parse

/-! ## Unsettled aliases -/

/-- An ambiguity stops the reader. -/
def Ambiguous {α : Type} (r : Except Failure α) : Prop :=
  ∃ pos rs, r = .error ⟨pos, .ambiguous rs⟩

/-- An alias that is not settled is ambiguous. -/
theorem ambiguous_decl {known : List String} (D : DeclTree) {r : List Token}
    (hr : EndsDecl (headKind r)) (ha : ¬D.Settled known) :
    ∃ t us, D.tokens ++ r = t :: us ∧ t.kind.startsDecl = true ∧
      Ambiguous (decl known t us) := by
  simp only [DeclTree.Settled, AliasAmong, Classical.not_forall] at ha
  obtain ⟨td, htd, con, hbody, hcon⟩ := ha
  cases D with
  | synonym k hd T =>
    cases htd
    have hT : T.ast = .contract con := TypeExpr.synonym.inj hbody
    refine ⟨k.val, hd.tokens ++ (T.tokens ++ r), by simp [DeclTree.tokens], by simp; rfl, ?_⟩
    have htype := typeExpr_complete T r (hr.ne rfl (by simp) (by simp))
      (hr.ne rfl (by simp) (by simp))
    exact ⟨_, _, decl_eq_ambiguous_iff.2 ⟨k.property, aliasDef_eq_ambiguous_iff.2
      ⟨_, _, con, r, complete_typeHead hd _ trivial, hT ▸ htype, hcon, rfl, rfl⟩⟩⟩
  | record k hd o fs c =>
    cases htd
    cases hbody
  | datatype k hd cs =>
    cases htd
    cases hbody
  | function f => cases htd

theorem ambiguous_decls {known : List String} (Ds : List DeclTree) {r : List Token}
    (hr : headKind r = .kwContract ∨ headKind r = .finish) (ha : ¬∀ D ∈ Ds, D.Settled known) :
    Ambiguous (decls known (Ds.flatMap DeclTree.tokens ++ r)) := by
  induction Ds with
  | nil => exact absurd (by simp) ha
  | cons D Ds ih =>
    have hnext := endsDecl_decls Ds (.inr hr)
    rw [List.flatMap_cons, List.append_assoc]
    by_cases hD : D.Settled known
    · obtain ⟨t, us, e, ht, hread⟩ := decl_complete known D _ hnext hD
      obtain ⟨pos, rs, h⟩ := ih fun hDs => ha (List.forall_mem_cons.2 ⟨hD, hDs⟩)
      rw [e]
      exact ⟨pos, rs, (decls_cons_eq_error_iff ht).2 (.inr ⟨_, _, hread, h⟩)⟩
    · obtain ⟨t, us, e, ht, pos, rs, h⟩ := ambiguous_decl D hnext hD
      rw [e]
      exact ⟨pos, rs, (decls_cons_eq_error_iff ht).2 (.inl h)⟩

theorem ambiguous_contract {known : List String} (C : ContractTree) {r : List Token}
    (hr : headKind r = .kwContract ∨ headKind r = .finish)
    (ha : ¬∀ d ∈ C.ast.typeDefs, AliasAmong known d) :
    Ambiguous (contract known C.keyword.val.pos (C.restTokens ++ r)) := by
  obtain ⟨pos, rs, h⟩ := ambiguous_decls C.decls hr (mt C.settled_iff.2 ha)
  exact ⟨pos, rs, contract_eq_ambiguous_iff.2 ⟨C.name, C.eq, _, rfl, h⟩⟩

/-! ## Units -/

/-- The tokens are those of a unit, or they are ambiguous. -/
def Acceptable (r : Except Failure (List Contract)) : Prop := (∃ cs, r = .ok cs) ∨ Ambiguous r

/-- What contracts spell is accepted up to ambiguities. -/
theorem acceptable_contracts {e : Token} (he : e.kind = .finish) (Cs : List ContractTree)
    (hne : Cs ≠ []) (known : List String) :
    Acceptable (contracts known (Cs.flatMap ContractTree.tokens ++ [e])) := by
  induction Cs generalizing known with
  | nil => exact absurd rfl hne
  | cons C Cs ih =>
    have hr : headKind (Cs.flatMap ContractTree.tokens ++ [e]) = .kwContract ∨
        headKind (Cs.flatMap ContractTree.tokens ++ [e]) = .finish := by
      cases Cs with
      | nil => exact .inr he
      | cons D Ds => exact .inl D.keyword.property
    rw [List.flatMap_cons, List.append_assoc]
    by_cases ha : ∀ d ∈ C.ast.typeDefs, AliasAmong known d
    · obtain ⟨us, e', hread⟩ := contract_complete C _ hr ha
      rw [e']
      cases Cs with
      | nil => exact .inl ⟨_, contracts_cons_eq_ok_iff.2
          ⟨C.keyword.property, _, _, hread, .inl ⟨he, rfl⟩⟩⟩
      | cons D Ds =>
        have hmore : headKind ((D :: Ds).flatMap ContractTree.tokens ++ [e]) ≠ .finish := by
          show D.keyword.val.kind ≠ .finish
          simp
        obtain ⟨cs, hcs⟩ | ⟨pos, rs, hrs⟩ := ih (by simp) (C.ast.name.text :: known)
        · exact .inl ⟨_, contracts_cons_eq_ok_iff.2
            ⟨C.keyword.property, _, _, hread, .inr ⟨hmore, _, hcs, rfl⟩⟩⟩
        · exact .inr ⟨pos, rs, contracts_cons_eq_error_iff.2
            (.inr ⟨C.keyword.property, .inr ⟨_, _, hread, hmore, hrs⟩⟩)⟩
    · obtain ⟨pos, rs, hrs⟩ := ambiguous_contract C hr ha
      exact .inr ⟨pos, rs, contracts_cons_eq_error_iff.2 (.inr ⟨C.keyword.property, .inl hrs⟩)⟩

instance : Nonempty UnitTree :=
  ⟨⟨[⟨lexeme .kwContract "" .unknown, lexeme .con "" .unknown, lexeme .eq "" .unknown, []⟩],
    by simp⟩⟩

/-- **A list that is refused begins a unit up to the token at the failure**, and is refused in the
same way whatever stands behind that token. -/
theorem contracts_fails {known : List String} {ts : List Token} {f : Failure}
    (h : contracts known ts = .error f) (hf : f.cause.isSyntax = true) :
    ∃ (U : UnitTree) (u v rest : List Token), U.tokens = u ++ v ∧ ts = u ++ rest ∧
      f.pos = (head rest).pos ∧ ∀ r, r.head? = rest.head? → contracts known (u ++ r) = .error f := by
  obtain ⟨U₀⟩ : Nonempty UnitTree := inferInstance
  match ts with
  | [] =>
    refine ⟨U₀, [], U₀.tokens, [], rfl, rfl, ?_, fun r hhead => ?_⟩
    · rw [contracts.eq_def] at h
      cases h
      rfl
    · rw [List.head?_eq_none_iff.1 hhead]
      exact h
  | t :: us =>
    obtain ⟨ht, rfl⟩ | ⟨ht, he | ⟨c, vs, hc, hend, he⟩⟩ := contracts_cons_eq_error_iff.1 h
    · refine ⟨U₀, [], U₀.tokens, t :: us, rfl, rfl, rfl, fun r hhead => ?_⟩
      obtain ⟨vs, rfl⟩ := List.head?_eq_some_iff.1 hhead
      exact contracts_cons_eq_error_iff.2 (.inl ⟨ht, rfl⟩)
    · obtain ⟨C, u, v, rest, hC, rfl, hpos, hr⟩ :=
        (prompt_contract known ⟨t, ht⟩ us (Nat.le_refl _)).fails f he hf
      have htokens : ({ C with keyword := ⟨t, ht⟩ } : ContractTree).tokens = t :: (u ++ v) :=
        congrArg (t :: ·) hC
      exact ⟨⟨[{ C with keyword := ⟨t, ht⟩ }], by simp⟩, t :: u, v, rest,
        by simp [UnitTree.tokens, htokens], rfl, hpos,
        fun r hhead => contracts_cons_eq_error_iff.2 (.inr ⟨ht, .inl (hr r hhead)⟩)⟩
    · obtain ⟨C, rfl, hread⟩ := (prompt_contract known ⟨t, ht⟩ us (Nat.le_refl _)).reads c vs hc
      obtain ⟨U, u, v, rest, hU, rfl, hpos, hr⟩ := contracts_fails he hf
      have htokens : ({ C with keyword := ⟨t, ht⟩ } : ContractTree).tokens = t :: C.restTokens := rfl
      refine ⟨⟨{ C with keyword := ⟨t, ht⟩ } :: U.val, by simp⟩, t :: (C.restTokens ++ u), v, rest,
        ?_, by simp, hpos, fun r hhead => ?_⟩
      · rw [UnitTree.tokens] at hU
        simp [UnitTree.tokens, htokens, hU]
      · have hnext := head?_append_congr hhead u
        rw [List.cons_append, List.append_assoc]
        exact contracts_cons_eq_error_iff.2 (.inr ⟨ht, .inr ⟨c, u ++ r, hread _ hnext,
          headKind_eq_of_head? hnext ▸ hend, hr r hhead⟩⟩)
termination_by ts.length
decreasing_by
  subst_vars
  simp only [List.length_cons, List.length_append]
  omega

/-! ## Token lists -/

/-- The end mark stands at the end, and nowhere else. -/
def Ended (ts : List Token) : Prop :=
  ∃ us e, ts = us ++ [e] ∧ e.kind = .finish ∧ ∀ t ∈ us, t.kind ≠ .finish

theorem UnitTree.endless : Endless UnitTree.tokens := by
  intro U t ht
  obtain ⟨C, -, hC⟩ := List.mem_flatMap.1 ht
  exact C.endless t hC

/-- **A syntax error stands at the first token that cannot go on.**  It is that of some token; all
lists that are the same up to this token have the same error; and some list that is the same in
front of this token has none. -/
theorem refused_at_first {ts : List Token} {f : Failure} (hts : Ended ts)
    (h : Contract.ofTokens ts = .error f) (hf : f.cause.isSyntax = true) :
    ∃ k t, ts[k]? = some t ∧ f.pos = t.pos ∧
      (∀ us, Ended us → us.take (k + 1) = ts.take (k + 1) → Contract.ofTokens us = .error f) ∧
      ∃ us, Ended us ∧ us.take k = ts.take k ∧ Acceptable (Contract.ofTokens us) := by
  obtain ⟨U, u, v, rest, hU, rfl, hpos, hr⟩ := contracts_fails h hf
  obtain ⟨us, e, heq, he, -⟩ := hts
  -- a unit holds no end mark, so something is left where the failure is
  obtain ⟨t, rest, rfl⟩ : ∃ t rest', rest = t :: rest' := by
    cases rest with
    | cons t rest => exact ⟨t, rest, rfl⟩
    | nil =>
      rw [List.append_nil] at heq
      exact absurd he (UnitTree.endless U e (by simp [hU, heq]))
  refine ⟨u.length, t, by simp, hpos, fun us _ htake => ?_, U.tokens ++ [e],
    ⟨U.tokens, e, rfl, he, UnitTree.endless U⟩, ?_, acceptable_contracts he U.val U.property []⟩
  · have hfront : us.take (u.length + 1) = u ++ [t] := by
      rw [htake, List.take_length_add_append]
      rfl
    rw [← List.take_append_drop (u.length + 1) us, hfront, List.append_assoc]
    exact hr _ rfl
  · rw [hU, List.append_assoc, List.take_left, List.take_left]

/-- The tokens of `contract C = type t = () => u`. -/
def arrowTokens : List Token :=
  [⟨.kwContract, "contract", ⟨1, 1⟩⟩, ⟨.con, "C", ⟨1, 10⟩⟩, ⟨.eq, "=", ⟨1, 12⟩⟩,
    ⟨.kwType, "type", ⟨1, 14⟩⟩, ⟨.identifier, "t", ⟨1, 19⟩⟩, ⟨.eq, "=", ⟨1, 21⟩⟩,
    ⟨.lparen, "(", ⟨1, 23⟩⟩, ⟨.rparen, ")", ⟨1, 24⟩⟩, ⟨.arrow, "=>", ⟨1, 26⟩⟩,
    ⟨.identifier, "u", ⟨1, 29⟩⟩, ⟨.finish, "", ⟨1, 30⟩⟩]

/-- There are no function types: the arrow offends. -/
theorem refused_at_first_arrow : Token.scan "contract C = type t = () => u" = .ok arrowTokens ∧
    Ended arrowTokens ∧ ∃ f, Contract.ofTokens arrowTokens = .error f ∧
    f.cause.isSyntax = true ∧ ∃ k t, arrowTokens[k]? = some t ∧ f.pos = t.pos ∧
      (∀ us, Ended us → us.take (k + 1) = arrowTokens.take (k + 1) →
        Contract.ofTokens us = .error f) ∧
      ∃ us, Ended us ∧ us.take k = arrowTokens.take k ∧ Acceptable (Contract.ofTokens us) := by
  have hended : Ended arrowTokens := ⟨arrowTokens.dropLast, _, rfl, rfl, by decide⟩
  have hfails : Contract.ofTokens arrowTokens = .error ⟨⟨1, 26⟩, .functionType⟩ := by cbv
  exact ⟨by cbv, hended, _, hfails, rfl, refused_at_first hended hfails rfl⟩

end ContractInterface.Grammar
