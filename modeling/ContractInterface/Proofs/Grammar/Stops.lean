import ContractInterface.Proofs.Grammar.Failures
import ContractInterface.Proofs.Grammar.Prompt

/-!
# Where readers stop

A unit that cannot be read has complete contracts in front of one that stops its reader, and this one
has complete declarations in front of one that does (`exists_contract_of_ambiguous`,
`exists_decl_of_error`), and the other way round: behind whatever is complete a failure is the failure
of the whole (`contracts_eq_error`, `decls_eq_error`).  No reader but the one for aliases finds an
ambiguity.
-/

namespace ContractInterface.Grammar

open Reader Contract.Parse
open Cause (ofReaders_isSyntax)

variable {α β : Type} {ts us : List Token} {known : List String} {pos : Position}
  {rs : List Reading} {f : Failure}

/-! ## Readers in sequence -/

theorem map_eq_error_iff {p : Reader α} {g : α → β} : (g <$> p) ts = .error f ↔ p ts = .error f := by
  have h : (g <$> p) ts = .error f ↔ p ts = .error f ∨ ∃ a us, Reads p ts a us ∧
      (Pure.pure (g a) : Reader β) us = .error f := bind_eq_error_iff
  rw [h]
  constructor
  · rintro (h | ⟨a, us, -, ⟨⟩⟩)
    exact h
  · exact .inl

/-- A reader with errors of the grammar only is not where an ambiguity is found. -/
theorem bind_eq_ambiguous_iff {p : Reader α} {q : α → Reader β}
    (hp : Reader.FailsOnly Cause.isSyntax p) : (p >>= q) ts = .error ⟨pos, .ambiguous rs⟩ ↔
      ∃ a us, Reads p ts a us ∧ q a us = .error ⟨pos, .ambiguous rs⟩ := by
  rw [bind_eq_error_iff, or_iff_right]
  intro h
  cases hp ts _ h

/-! ## Declarations -/

theorem aliasDef_eq_ambiguous_iff {place : Position} :
    aliasDef known place ts = .error ⟨pos, .ambiguous rs⟩ ↔ ∃ hd us con rest,
      Reads typeHead ts hd us ∧ Reads typeExpr us (.contract con) rest ∧ con.text ∉ known ∧
        pos = (head us).pos ∧ rs = aliasReadings hd.1 hd.2 con place := by
  unfold aliasDef
  rw [bind_eq_ambiguous_iff (failsOnly_typeHead ofReaders_isSyntax)]
  constructor
  · rintro ⟨⟨name, vars⟩, us, hhead, h⟩
    obtain ⟨_, _, hpeek, h₁⟩ := (bind_eq_ambiguous_iff failsOnly_peek).1 h
    obtain ⟨rfl, rfl⟩ := Reads.peek_iff.1 hpeek
    obtain ⟨type, rest, htype, h₂⟩ :=
      (bind_eq_ambiguous_iff (failsOnly_typeExpr ofReaders_isSyntax)).1 h₁
    split at h₂
    · next con =>
      split at h₂
      · cases h₂
      · next hcon =>
        cases h₂
        exact ⟨_, _, con, rest, hhead, htype, by simpa using hcon, rfl, rfl⟩
    · cases h₂
  · rintro ⟨hd, us, con, rest, hhead, htype, hcon, rfl, rfl⟩
    refine ⟨hd, us, hhead, (bind_eq_ambiguous_iff failsOnly_peek).2
      ⟨_, us, Reads.peek_iff.2 ⟨rfl, rfl⟩,
        (bind_eq_ambiguous_iff (failsOnly_typeExpr ofReaders_isSyntax)).2 ⟨_, rest, htype, ?_⟩⟩⟩
    simp only
    rw [if_neg (by simpa using hcon)]

/-- Of the declarations only aliases are ambiguous. -/
theorem decl_eq_ambiguous_iff {t : Token} :
    decl known t us = .error ⟨pos, .ambiguous rs⟩ ↔
      t.kind = .kwType ∧ aliasDef known t.pos us = .error ⟨pos, .ambiguous rs⟩ := by
  by_cases ht : t.kind = .kwType
  · simp only [decl, ht, true_and]
    exact map_eq_error_iff
  · refine iff_of_false (fun h => ?_) fun h => ht h.1
    cases failsOnly_decl_of_ne ofReaders_isSyntax known ht us _ h

theorem decls_cons_eq_error_iff {t : Token} (ht : t.kind.startsDecl = true) :
    decls known (t :: us) = .error f ↔ decl known t us = .error f ∨
      ∃ d vs, Reads (decl known t) us d vs ∧ decls known vs = .error f := by
  have hbehind {r : Except Failure (Read (List Decl) us)} :
      behind (t := t) r = .error f ↔ r = .error f := by
    cases r <;> simp [behind]
  rw [decls_cons ht, hbehind, bind_eq_error_iff]
  simp only [map_eq_error_iff]

/-- Where the declarations of a contract cannot be read, it is one of them that cannot. -/
theorem exists_decl_of_error {ts : List Token} (h : decls known ts = .error f) :
    ∃ (Ds : List DeclTree) (t : Token) (us : List Token), ts = Ds.flatMap DeclTree.tokens ++ t :: us ∧
      (∀ D ∈ Ds, D.Settled known) ∧ t.kind.startsDecl = true ∧ decl known t us = .error f := by
  match ts with
  | [] =>
    rw [decls.eq_def] at h
    cases h
  | t :: us =>
    by_cases ht : t.kind.startsDecl = true
    · obtain hd | ⟨d, vs, hd, hvs⟩ := (decls_cons_eq_error_iff ht).1 h
      · exact ⟨[], t, us, rfl, by simp, ht, hd⟩
      · have hlen := hd.length_le
        obtain ⟨Ds, t', us', rfl, hDs, ht', hd'⟩ := exists_decl_of_error hvs
        obtain ⟨D, hD, rfl, ha⟩ := decl_sound ht hd
        exact ⟨D :: Ds, t', us', by simp [hD], List.forall_mem_cons.2 ⟨ha, hDs⟩, ht', hd'⟩
    · rw [decls.eq_def] at h
      simp [ht] at h
termination_by ts.length

theorem decls_eq_error {t : Token} (ht : t.kind.startsDecl = true)
    (h : decl known t us = .error f) (Ds : List DeclTree) (hDs : ∀ D ∈ Ds, D.Settled known) :
    decls known (Ds.flatMap DeclTree.tokens ++ t :: us) = .error f := by
  induction Ds with
  | nil => exact (decls_cons_eq_error_iff ht).2 (.inl h)
  | cons D Ds ih =>
    obtain ⟨hD, hDs⟩ := List.forall_mem_cons.1 hDs
    obtain ⟨t', us', e, ht', hread⟩ :=
      decl_complete known D _ (endsDecl_decls Ds (r := t :: us) (.inl ht)) hD
    rw [List.flatMap_cons, List.append_assoc, e]
    exact (decls_cons_eq_error_iff ht').2 (.inr ⟨_, _, hread, ih hDs⟩)

/-! ## Contracts -/

/-- The tokens of a contract behind its keyword, up to an alias for a name that is not known. -/
theorem contract_eq_ambiguous_iff {place : Position} :
    contract known place ts = .error ⟨pos, .ambiguous rs⟩ ↔
      ∃ (n : Lexeme .con) (e : Lexeme .eq) (us : List Token), ts = n.val :: e.val :: us ∧
        decls known us = .error ⟨pos, .ambiguous rs⟩ := by
  unfold contract
  rw [bind_eq_ambiguous_iff (failsOnly_expect ofReaders_isSyntax _)]
  constructor
  · rintro ⟨n, us, hn, h⟩
    obtain ⟨rfl, hn'⟩ := Reads.expect_iff.1 hn
    obtain ⟨e, vs, he, h₁⟩ :=
      (bind_eq_ambiguous_iff (failsOnly_expect ofReaders_isSyntax _)).1 h
    obtain ⟨rfl, he'⟩ := Reads.expect_iff.1 he
    obtain h₂ | ⟨ds, ws, -, h₂⟩ := bind_eq_error_iff.1 h₁
    · exact ⟨⟨n, hn'⟩, ⟨e, he'⟩, vs, rfl, h₂⟩
    · obtain ⟨t, xs, hpeek, h₃⟩ := (bind_eq_ambiguous_iff failsOnly_peek).1 h₂
      split at h₃ <;> cases h₃
  · rintro ⟨n, e, us, rfl, h⟩
    refine ⟨n.val, _, Reads.expect_iff.2 ⟨rfl, n.property⟩, (bind_eq_ambiguous_iff
      (failsOnly_expect ofReaders_isSyntax _)).2
        ⟨e.val, _, Reads.expect_iff.2 ⟨rfl, e.property⟩, ?_⟩⟩
    exact bind_eq_error_iff.2 (.inl h)

/-! ## Units -/

/-- Where a unit is refused: at its first token, in its first contract or behind it. -/
theorem contracts_cons_eq_error_iff {known : List String} {t : Token} {us : List Token}
    {f : Failure} : contracts known (t :: us) = .error f ↔
      t.kind ≠ .kwContract ∧ f = ⟨t.pos, .unexpected t (.token .kwContract)⟩ ∨
        t.kind = .kwContract ∧ (contract known t.pos us = .error f ∨
          ∃ c vs, Reads (contract known t.pos) us c vs ∧ headKind vs ≠ .finish ∧
            contracts (c.name.text :: known) vs = .error f) := by
  rw [contracts.eq_def]
  simp only [Reads, headKind]
  constructor
  · intro h
    split at h
    · next ht =>
      refine .inr ⟨ht, ?_⟩
      split at h
      · next e he =>
        cases h
        exact .inl he
      · next c vs hv e =>
        refine .inr ⟨c, vs, ⟨hv, e⟩, ?_⟩
        split at h
        · cases h
        · next hend =>
          refine ⟨hend, ?_⟩
          split at h
          · next e' he' =>
            cases h
            exact he'
          · cases h
    · next ht =>
      cases h
      exact .inl ⟨ht, rfl⟩
  · rintro (⟨ht, rfl⟩ | ⟨ht, he | ⟨c, vs, ⟨hv, e⟩, hend, he⟩⟩)
    · simp [ht]
    · simp [ht, he]
    · simp [ht, e, hend, he]

/-- The names that are known behind these contracts. -/
def knownBehind (known : List String) (Cs : List ContractTree) : List String :=
  (Cs.map fun C => C.ast.name.text).reverse ++ known

theorem exists_contract_of_ambiguous {known : List String} {ts : List Token}
    (h : contracts known ts = .error ⟨pos, .ambiguous rs⟩) :
    ∃ (Cs : List ContractTree) (k : Lexeme .kwContract) (us : List Token),
      ts = Cs.flatMap ContractTree.tokens ++ k.val :: us ∧
        AliasesSettledFrom known (Cs.map ContractTree.ast) ∧
        contract (knownBehind known Cs) k.val.pos us = .error ⟨pos, .ambiguous rs⟩ := by
  match ts with
  | [] =>
    rw [contracts.eq_def] at h
    cases h
  | t :: us =>
    obtain ⟨-, ⟨⟩⟩ | ⟨ht, hc | ⟨c, vs, hc, -, hvs⟩⟩ := contracts_cons_eq_error_iff.1 h
    · exact ⟨[], ⟨t, ht⟩, us, rfl, fun before c after e => by simp at e, hc⟩
    · have hlen := hc.length_le
      obtain ⟨Cs, k, us', rfl, hsettled, hk⟩ := exists_contract_of_ambiguous hvs
      obtain ⟨C, hC, rfl, ha, -⟩ := contract_sound ⟨t, ht⟩ hc
      refine ⟨C :: Cs, k, us', by simpa using hC, aliasesSettledFrom_cons.2 ⟨ha, hsettled⟩, ?_⟩
      simpa [knownBehind] using hk
termination_by ts.length

theorem contracts_eq_error {k : Lexeme .kwContract} (Cs : List ContractTree)
    (hCs : AliasesSettledFrom known (Cs.map ContractTree.ast))
    (h : contract (knownBehind known Cs) k.val.pos us = .error f) :
    contracts known (Cs.flatMap ContractTree.tokens ++ k.val :: us) = .error f := by
  induction Cs generalizing known with
  | nil => exact contracts_cons_eq_error_iff.2 (.inr ⟨k.property, .inl h⟩)
  | cons C Cs ih =>
    obtain ⟨ha, hCs⟩ := aliasesSettledFrom_cons.1 hCs
    have hnext : headKind (Cs.flatMap ContractTree.tokens ++ k.val :: us) = .kwContract := by
      cases Cs with
      | nil => exact k.property
      | cons D Ds => exact D.keyword.property
    obtain ⟨us', e, hread⟩ := contract_complete C _ (.inl hnext) ha
    rw [List.flatMap_cons, List.append_assoc, e]
    refine contracts_cons_eq_error_iff.2 (.inr ⟨C.keyword.property, .inr ⟨_, _, hread, ?_, ih hCs ?_⟩⟩)
    · simp [hnext]
    · simpa [knownBehind] using h

end ContractInterface.Grammar
