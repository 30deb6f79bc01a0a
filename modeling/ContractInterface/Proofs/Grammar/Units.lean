import ContractInterface.Proofs.Grammar.Declarations

/-!
# Reading contracts and units

The declarations of a contract go on as long as one can start, and a unit is read in the presence of
the names of the contracts that are complete (`AliasesSettledFrom`).

    contracts known (us ++ [e]) = .ok cs → ∃ ds, us = ds.flatMap tokens ∧ ds.map ast = cs
                                                                       (contracts_sound)
    contracts known (ds.flatMap tokens ++ [e]) = .ok (ds.map ast)      (contracts_complete)
-/

namespace ContractInterface.Grammar

open Reader Contract.Parse

/-! ## No tree spells the end mark -/

/-- Nothing that `f` spells contains the end mark. -/
def Endless {α : Type} (f : α → List Token) : Prop := ∀ a, ∀ t ∈ f a, t.kind ≠ .finish

section

variable {α : Type} {f : α → List Token}

theorem Separated.endless {k : TokenKind} (hk : k ≠ .finish) (hf : Endless f) :
    Endless (Separated.tokens (k := k) f) := by
  intro s
  induction s with
  | one a => exact hf a
  | more a sep rest ih =>
    intro t ht
    simp only [tokens, List.mem_append, List.mem_cons] at ht
    rcases ht with ht | rfl | ht
    · exact hf a t ht
    · simpa using hk
    · exact ih t ht

theorem Parens.endless (hf : Endless f) : Endless (Parens.tokens f) := by
  intro p t ht
  simp only [tokens, List.mem_cons, List.mem_append, List.not_mem_nil, or_false] at ht
  rcases ht with rfl | ht | rfl
  · simp
  · exact hf _ t ht
  · simp

theorem endless_optional (hf : Endless f) : Endless (optional f)
  | none, _, ht => by cases ht
  | some a, t, ht => hf a t ht

end

mutual

theorem TypeTree.endless (d : TypeTree) (t : Token) (ht : t ∈ d.tokens) : t.kind ≠ .finish := by
  cases d <;>
    simp only [TypeTree.tokens, List.mem_cons, List.mem_append, List.not_mem_nil, or_false] at ht
  case app n o args c =>
    rcases ht with rfl | rfl | ht | rfl
    · simp
    · simp
    · exact args.endless t ht
    · simp
  case group o inner c =>
    rcases ht with rfl | ht | rfl
    · simp
    · exact inner.endless t ht
    · simp
  case tuple o first comma rest c =>
    rcases ht with rfl | ht | rfl | ht | rfl
    · simp
    · exact first.endless t ht
    · simp
    · exact rest.endless t ht
    · simp
  case unit o c => rcases ht with rfl | rfl <;> simp
  all_goals
    subst ht
    simp

theorem TypesTree.endless (ds : TypesTree) (t : Token) (ht : t ∈ ds.tokens) :
    t.kind ≠ .finish := by
  match ds with
  | .one d => exact d.endless t ht
  | .more d comma ds =>
    simp only [TypesTree.tokens, List.mem_append, List.mem_cons] at ht
    rcases ht with ht | rfl | ht
    · exact d.endless t ht
    · simp
    · exact ds.endless t ht

end

theorem Ascription.endless : Endless Ascription.tokens := by
  refine endless_optional ?_
  rintro ⟨c, d⟩ t ht
  rcases List.mem_cons.1 ht with rfl | ht
  · simp
  · exact d.endless t ht

theorem HeadTree.endless : Endless HeadTree.tokens := by
  intro h t ht
  have hparams : Endless TypeParamsTree.tokens := by
    refine endless_optional (Parens.endless (Separated.endless (by simp) ?_))
    intro v t ht
    rw [List.mem_singleton.1 ht]
    simp
  simp only [tokens, List.mem_cons, List.mem_append, List.not_mem_nil, or_false] at ht
  rcases ht with rfl | ht | rfl
  · simp
  · exact hparams _ t ht
  · simp

theorem FieldTree.endless : Endless FieldTree.tokens := by
  intro f t ht
  simp only [tokens, List.mem_cons] at ht
  rcases ht with rfl | rfl | ht
  · simp
  · simp
  · exact f.type.endless t ht

theorem ConstrTree.endless : Endless ConstrTree.tokens := by
  intro c t ht
  rcases List.mem_cons.1 ht with rfl | ht
  · simp
  · exact endless_optional (Parens.endless TypesTree.endless) _ t ht

theorem FunctionTree.endless : Endless FunctionTree.tokens := by
  intro f t ht
  have harg : Endless ArgTree.tokens := by
    intro a t ht
    rcases List.mem_cons.1 ht with rfl | ht
    · simp
    · exact Ascription.endless _ t ht
  have hargs : Endless ArgsTree.tokens :=
    Parens.endless (endless_optional (Separated.endless (by simp) harg))
  simp only [tokens, restTokens, List.mem_append, List.mem_cons, List.mem_map] at ht
  rcases ht with ⟨m, -, rfl⟩ | rfl | rfl | ht | ht | rfl | ht
  · intro h
    have := m.property
    rw [h] at this
    cases this
  · simp
  · simp
  · exact hargs _ t ht
  · exact Ascription.endless _ t ht
  · simp
  · exact f.body.property.no_finish t ht

theorem DeclTree.endless : Endless DeclTree.tokens := by
  intro d t ht
  cases d with
  | synonym k h T =>
    simp only [tokens, List.mem_cons, List.mem_append] at ht
    rcases ht with rfl | ht | ht
    · simp
    · exact h.endless t ht
    · exact T.endless t ht
  | record k h o fs c =>
    simp only [tokens, List.mem_cons, List.mem_append, List.not_mem_nil, or_false] at ht
    rcases ht with rfl | ht | rfl | ht | rfl
    · simp
    · exact h.endless t ht
    · simp
    · exact Separated.endless (by simp) FieldTree.endless fs t ht
    · simp
  | datatype k h cs =>
    simp only [tokens, List.mem_cons, List.mem_append] at ht
    rcases ht with rfl | ht | ht
    · simp
    · exact h.endless t ht
    · exact Separated.endless (by simp) ConstrTree.endless cs t ht
  | function f => exact f.endless t ht

theorem ContractTree.endless : Endless ContractTree.tokens := by
  intro c t ht
  simp only [tokens, List.mem_cons, List.mem_flatMap] at ht
  rcases ht with rfl | rfl | rfl | ⟨d, -, ht⟩
  · simp
  · simp
  · simp
  · exact d.endless t ht

/-! ## The declarations of a contract -/

theorem reads_decls_cons {known : List String} {t : Token} {us rest : List Token}
    {ds : List Decl} (ht : t.kind.startsDecl = true) :
    Reads (decls known) (t :: us) ds rest ↔ ∃ d vs es, Reads (decl known t) us d vs ∧
      Reads (decls known) vs es rest ∧ ds = d :: es := by
  unfold Reads
  rw [decls.eq_def]
  simp only [ht, if_true]
  constructor
  · intro h
    split at h
    · simp at h
    · next d vs hv e =>
      split at h
      · simp at h
      · next es ws hw e' =>
        obtain ⟨rfl, rfl⟩ := Yields.ok_iff.1 h
        exact ⟨d, vs, es, ⟨hv, e⟩, ⟨hw, e'⟩, rfl⟩
  · rintro ⟨d, vs, es, ⟨hv, e⟩, ⟨hw, e'⟩, rfl⟩
    simp [e, e']

theorem reads_decls_end {known : List String} {ts rest : List Token} {ds : List Decl}
    (ht : (headKind ts).startsDecl = false) :
    Reads (decls known) ts ds rest ↔ ds = [] ∧ rest = ts := by
  unfold Reads
  rw [decls.eq_def]
  cases ts with
  | nil => simp
  | cons t us =>
    rw [headKind_cons] at ht
    simp [ht]

theorem decls_sound {known : List String} {ts rest : List Token} {ds : List Decl}
    (h : Reads (decls known) ts ds rest) :
    ∃ Ds : List DeclTree, ts = Ds.flatMap DeclTree.tokens ++ rest ∧ Ds.map DeclTree.ast = ds ∧
      ∀ D ∈ Ds, D.Settled known := by
  match ts with
  | [] =>
    obtain ⟨rfl, rfl⟩ := (reads_decls_end rfl).1 h
    exact ⟨[], rfl, rfl, by simp⟩
  | t :: us =>
    by_cases ht : t.kind.startsDecl = true
    · obtain ⟨d, vs, es, hd, hes, rfl⟩ := (reads_decls_cons ht).1 h
      have hlen := hd.length_le
      obtain ⟨Ds, rfl, rfl, hDs⟩ := decls_sound hes
      obtain ⟨D, e, rfl, hD⟩ := decl_sound ht hd
      exact ⟨D :: Ds, by simpa using e, rfl, List.forall_mem_cons.2 ⟨hD, hDs⟩⟩
    · obtain ⟨rfl, rfl⟩ := (reads_decls_end (by simpa using ht)).1 h
      exact ⟨[], rfl, rfl, by simp⟩
termination_by ts.length

/-- Where a declaration can end, it can also in front of others that end there. -/
theorem endsDecl_decls (Ds : List DeclTree) {r : List Token} (hr : EndsDecl (headKind r)) :
    EndsDecl (headKind (Ds.flatMap DeclTree.tokens ++ r)) := by
  cases Ds with
  | nil => exact hr
  | cons D Ds =>
    obtain ⟨t, ts, e, ht, -⟩ := D.tokens_eq_cons
    refine .inl ?_
    simpa [e] using ht

theorem decls_complete {known : List String} (Ds : List DeclTree) (r : List Token)
    (hr : headKind r = .kwContract ∨ headKind r = .finish) (ha : ∀ D ∈ Ds, D.Settled known) :
    Reads (decls known) (Ds.flatMap DeclTree.tokens ++ r) (Ds.map DeclTree.ast) r := by
  induction Ds with
  | nil =>
    refine (reads_decls_end ?_).2 ⟨rfl, rfl⟩
    rcases hr with hr | hr <;> simp [hr, TokenKind.startsDecl]
  | cons D Ds ih =>
    obtain ⟨hD, hDs⟩ := List.forall_mem_cons.1 ha
    obtain ⟨t, us, e, ht, hread⟩ := decl_complete known D
      (Ds.flatMap DeclTree.tokens ++ r) (endsDecl_decls Ds (.inr hr)) hD
    rw [List.flatMap_cons, List.append_assoc, e]
    exact (reads_decls_cons ht).2 ⟨D.ast, _, _, hread, ih hDs, rfl⟩

/-! ## Contracts -/

theorem ContractTree.settled_iff {known : List String} (C : ContractTree) :
    (∀ d ∈ C.ast.typeDefs, AliasAmong known d) ↔ ∀ D ∈ C.decls, D.Settled known := by
  simp only [Contract.typeDefs, ContractTree.ast, List.mem_filterMap, List.mem_map,
    DeclTree.Settled]
  constructor
  · exact fun h D hD td htd => h td ⟨D.ast, ⟨D, hD, rfl⟩, htd⟩
  · rintro h td ⟨_, ⟨D, hD, rfl⟩, htd⟩
    exact h D hD td htd

/-- The rest of a contract behind its keyword. -/
theorem reads_contract {known : List String} {pos : Position} {us rest : List Token}
    {c : Contract} : Reads (contract known pos) us c rest ↔ ∃ (n : Lexeme .con) (e : Lexeme .eq)
      (ts : List Token) (ds : List Decl), us = n.val :: e.val :: ts ∧
        Reads (decls known) ts ds rest ∧
        (headKind rest = .kwContract ∨ headKind rest = .finish) ∧
        c = ⟨n.val.name, ds, some pos⟩ := by
  constructor
  · intro h
    obtain ⟨n, vs, hn, h₁⟩ := Reads.bind_iff.1 h
    obtain ⟨rfl, hn'⟩ := Reads.expect_iff.1 hn
    obtain ⟨e, ws, he, h₂⟩ := Reads.bind_iff.1 h₁
    obtain ⟨rfl, he'⟩ := Reads.expect_iff.1 he
    obtain ⟨ds, xs, hds, h₃⟩ := Reads.bind_iff.1 h₂
    obtain ⟨t, ys, hpeek, h₄⟩ := Reads.bind_iff.1 h₃
    obtain ⟨rfl, rfl⟩ := Reads.peek_iff.1 hpeek
    split at h₄
    · next hend =>
      obtain ⟨rfl, rfl⟩ := Reads.pure_iff.1 h₄
      exact ⟨⟨n, hn'⟩, ⟨e, he'⟩, ws, ds, rfl, hds, by simpa [headKind] using hend, rfl⟩
    · exact (Reads.unexpected_iff.1 h₄).elim
  · rintro ⟨n, e, ts, ds, rfl, hds, hend, rfl⟩
    have hend' : ((head rest).kind = .kwContract || (head rest).kind = .finish) = true := by
      simpa [headKind] using hend
    refine Reads.bind_iff.2 ⟨n.val, _, Reads.expect_iff.2 ⟨rfl, n.property⟩, ?_⟩
    refine Reads.bind_iff.2 ⟨e.val, _, Reads.expect_iff.2 ⟨rfl, e.property⟩, ?_⟩
    refine Reads.bind_iff.2 ⟨ds, rest, hds, ?_⟩
    refine Reads.bind_iff.2 ⟨head rest, rest, Reads.peek_iff.2 ⟨rfl, rfl⟩, ?_⟩
    rw [if_pos hend']
    exact Reads.pure_iff.2 ⟨rfl, rfl⟩

theorem contract_sound {known : List String} (k : Lexeme .kwContract) {us rest : List Token}
    {c : Contract} (h : Reads (contract known k.val.pos) us c rest) :
    ∃ C : ContractTree, k.val :: us = C.tokens ++ rest ∧ C.ast = c ∧
      (∀ d ∈ C.ast.typeDefs, AliasAmong known d) ∧
        (headKind rest = .kwContract ∨ headKind rest = .finish) := by
  obtain ⟨n, e, ts, ds, rfl, hds, hend, rfl⟩ := reads_contract.1 h
  obtain ⟨Ds, rfl, rfl, ha⟩ := decls_sound hds
  exact ⟨⟨k, n, e, Ds⟩, by simp [ContractTree.tokens], rfl, (ContractTree.settled_iff _).2 ha, hend⟩

theorem contract_complete {known : List String} (C : ContractTree) (r : List Token)
    (hr : headKind r = .kwContract ∨ headKind r = .finish)
    (ha : ∀ d ∈ C.ast.typeDefs, AliasAmong known d) :
    ∃ us, C.tokens ++ r = C.keyword.val :: us ∧
      Reads (contract known C.keyword.val.pos) us C.ast r :=
  ⟨C.name.val :: C.eq.val :: (C.decls.flatMap DeclTree.tokens ++ r), rfl,
    reads_contract.2 ⟨C.name, C.eq, _, _, rfl,
      decls_complete C.decls r hr (C.settled_iff.1 ha), hr, rfl⟩⟩

/-! ## Aliases in the presence of complete contracts -/

/-- Aliases for bare capitalized names are for one of the names `known` or for a contract that was
completed earlier. -/
def AliasesSettledFrom (known : List String) (cs : List Contract) : Prop :=
  ∀ before c after, cs = before ++ c :: after → ∀ d ∈ c.typeDefs,
    AliasAmong (known ++ before.map fun k => k.name.text) d

theorem aliasesSettledFrom_nil {cs : List Contract} :
    AliasesSettledFrom [] cs ↔ AliasesSettled cs := Iff.rfl

theorem AliasAmong.mono {names names' : List String} {d : TypeDef} (h : AliasAmong names d)
    (hsub : names ⊆ names') : AliasAmong names' d :=
  fun n hn => hsub (h n hn)

theorem aliasesSettledFrom_cons {known : List String} {c : Contract} {cs : List Contract} :
    AliasesSettledFrom known (c :: cs) ↔
      (∀ d ∈ c.typeDefs, AliasAmong known d) ∧ AliasesSettledFrom (c.name.text :: known) cs := by
  constructor
  · intro h
    refine ⟨fun d hd => ?_, fun before k after e d hd => ?_⟩
    · simpa using h [] c cs rfl d hd
    · refine (h (c :: before) k after (by rw [e]; rfl) d hd).mono fun n hn => ?_
      simpa [or_left_comm] using hn
  · rintro ⟨hc, hcs⟩ before k after e d hd
    cases before with
    | nil =>
      cases e
      simpa using hc d hd
    | cons b before =>
      cases e
      refine (hcs before k after rfl d hd).mono fun n hn => ?_
      simpa [or_left_comm] using hn

/-! ## Units -/

/-- A contract, and more of them unless the end follows it. -/
theorem contracts_cons_eq_ok_iff {known : List String} {t : Token} {us : List Token}
    {cs : List Contract} : contracts known (t :: us) = .ok cs ↔
      t.kind = .kwContract ∧ ∃ c vs, Reads (contract known t.pos) us c vs ∧
        (headKind vs = .finish ∧ cs = [c] ∨ headKind vs ≠ .finish ∧
          ∃ ds, contracts (c.name.text :: known) vs = .ok ds ∧ cs = c :: ds) := by
  rw [contracts.eq_def]
  simp only [Reads, headKind]
  constructor
  · intro h
    split at h
    · next ht =>
      split at h
      · cases h
      · next c vs hv e =>
        refine ⟨ht, c, vs, ⟨hv, e⟩, ?_⟩
        split at h
        · next hend =>
          cases h
          exact .inl ⟨hend, rfl⟩
        · next hend =>
          split at h
          · cases h
          · next ds hds =>
            cases h
            exact .inr ⟨hend, ds, hds, rfl⟩
    · cases h
  · rintro ⟨ht, c, vs, ⟨hv, e⟩, ⟨hend, rfl⟩ | ⟨hend, ds, hds, rfl⟩⟩
    · simp [ht, e, hend]
    · simp [ht, e, hend, hds]

/-- Whatever is read in front of the only end mark is derived by trees. -/
theorem contracts_sound {known : List String} {us : List Token} {e : Token}
    (hus : ∀ t ∈ us, t.kind ≠ .finish) (he : e.kind = .finish) {cs : List Contract}
    (h : contracts known (us ++ [e]) = .ok cs) :
    ∃ Cs : List ContractTree, Cs ≠ [] ∧ us = Cs.flatMap ContractTree.tokens ∧
      Cs.map ContractTree.ast = cs ∧ AliasesSettledFrom known cs := by
  match us with
  | [] =>
    rw [List.nil_append, contracts_cons_eq_ok_iff, he] at h
    cases h.1
  | t :: us =>
    obtain ⟨ht, c, vs, hc, hcs⟩ := contracts_cons_eq_ok_iff.1 h
    have hlen := hc.length_le
    obtain ⟨C, hC, rfl, ha, -⟩ := contract_sound ⟨t, ht⟩ hc
    -- the end mark is not in the tree, so it ends what is left
    obtain ⟨ws, hws, rfl⟩ : ∃ ws, t :: us = C.tokens ++ ws ∧ vs = ws ++ [e] := by
      rcases List.append_eq_append_iff.1 (show (t :: us) ++ [e] = C.tokens ++ vs from hC) with
        ⟨ws, hws, hvs⟩ | ⟨ws, hws, hvs⟩
      · cases ws with
        | nil => exact ⟨[], by simpa using hws.symm, by simpa using hvs.symm⟩
        | cons w ws =>
          refine absurd he (C.endless e ?_)
          have : e = w := by simp at hvs; exact hvs.1
          rw [hws, this]
          simp
      · exact ⟨ws, hws, hvs⟩
    have hws' : ∀ t ∈ ws, t.kind ≠ .finish := fun t ht => hus t (by rw [hws]; simp [ht])
    rcases hcs with ⟨hend, rfl⟩ | ⟨hend, ds, hds, rfl⟩
    · cases ws with
      | nil =>
        refine ⟨[C], by simp, by simpa using hws, rfl, ?_⟩
        exact aliasesSettledFrom_cons.2 ⟨ha, fun before c after e => by simp at e⟩
      | cons w ws => exact absurd hend (hws' w (by simp))
    · have hdec : ws.length < (t :: us).length := by
        simp at hlen ⊢
        omega
      obtain ⟨Cs, -, rfl, rfl, hsettled⟩ := contracts_sound hws' he hds
      exact ⟨C :: Cs, by simp, by simpa using hws, rfl, aliasesSettledFrom_cons.2 ⟨ha, hsettled⟩⟩
termination_by us.length
decreasing_by exact hdec

theorem contracts_complete {e : Token} (he : e.kind = .finish) (Cs : List ContractTree)
    (hne : Cs ≠ []) (known : List String)
    (ha : AliasesSettledFrom known (Cs.map ContractTree.ast)) :
    contracts known (Cs.flatMap ContractTree.tokens ++ [e]) = .ok (Cs.map ContractTree.ast) := by
  induction Cs generalizing known with
  | nil => exact absurd rfl hne
  | cons C Cs ih =>
    obtain ⟨hC, hCs⟩ := aliasesSettledFrom_cons.1 ha
    rw [List.flatMap_cons, List.append_assoc]
    cases Cs with
    | nil =>
      obtain ⟨us, e', hread⟩ := contract_complete C [e] (.inr he) hC
      rw [List.flatMap_nil, List.nil_append, e', contracts_cons_eq_ok_iff]
      exact ⟨C.keyword.property, _, _, hread, .inl ⟨he, rfl⟩⟩
    | cons D Ds =>
      have hk : headKind ((D :: Ds).flatMap ContractTree.tokens ++ [e]) = .kwContract :=
        D.keyword.property
      obtain ⟨us, e', hread⟩ := contract_complete C _ (.inl hk) hC
      rw [e', contracts_cons_eq_ok_iff]
      exact ⟨C.keyword.property, _, _, hread,
        .inr ⟨by rw [hk]; simp, _, ih (by simp) _ hCs, rfl⟩⟩

/-! ## The language -/

/-- **What is read is what the grammar derives.**  A list whose only end mark is its last token is
accepted iff it is derived and its aliases are settled; the result is what the derivation stands for.
No list has two derivations. -/
theorem ofTokens_eq_ok_iff_derived (us : List Token) (e : Token)
    (hus : ∀ t ∈ us, t.kind ≠ .finish) (he : e.kind = .finish) (cs : List Contract) :
    (Contract.ofTokens (us ++ [e]) = .ok cs ↔
      ∃ u : UnitTree, u.tokens = us ∧ u.ast = cs ∧ AliasesSettled cs) ∧
    ∀ u v : UnitTree, u.tokens = us → v.tokens = us → u = v := by
  refine ⟨⟨fun h => ?_, ?_⟩, fun u v hu hv => UnitTree.tokens_injective u v (hu.trans hv.symm)⟩
  · obtain ⟨Cs, hne, rfl, rfl, ha⟩ := contracts_sound hus he h
    exact ⟨⟨Cs, hne⟩, rfl, rfl, aliasesSettledFrom_nil.1 ha⟩
  · rintro ⟨⟨Cs, hne⟩, rfl, rfl, ha⟩
    exact contracts_complete he Cs hne [] (aliasesSettledFrom_nil.2 ha)

/-- `contract A =` and then `contract B = type t = A`. -/
theorem ofTokens_alias_of_earlier :
    Contract.ofTokens ([⟨.kwContract, "contract", ⟨1, 1⟩⟩, ⟨.con, "A", ⟨1, 10⟩⟩, ⟨.eq, "=", ⟨1, 12⟩⟩,
      ⟨.kwContract, "contract", ⟨2, 1⟩⟩, ⟨.con, "B", ⟨2, 10⟩⟩, ⟨.eq, "=", ⟨2, 12⟩⟩,
      ⟨.kwType, "type", ⟨2, 14⟩⟩, ⟨.identifier, "t", ⟨2, 19⟩⟩, ⟨.eq, "=", ⟨2, 21⟩⟩,
      ⟨.con, "A", ⟨2, 23⟩⟩] ++ [⟨.finish, "", ⟨2, 24⟩⟩]) =
    .ok [⟨⟨"A", some ⟨1, 10⟩⟩, [], some ⟨1, 1⟩⟩, ⟨⟨"B", some ⟨2, 10⟩⟩,
      [.typeDef ⟨⟨"t", some ⟨2, 19⟩⟩, [], .synonym (.contract ⟨"A", some ⟨2, 23⟩⟩), some ⟨2, 14⟩⟩],
      some ⟨2, 1⟩⟩] := by
  refine (ofTokens_eq_ok_iff_derived _ _ (by decide) rfl _).1.2 ⟨⟨[
    ⟨⟨⟨.kwContract, "contract", ⟨1, 1⟩⟩, rfl⟩, ⟨⟨.con, "A", ⟨1, 10⟩⟩, rfl⟩,
      ⟨⟨.eq, "=", ⟨1, 12⟩⟩, rfl⟩, []⟩,
    ⟨⟨⟨.kwContract, "contract", ⟨2, 1⟩⟩, rfl⟩, ⟨⟨.con, "B", ⟨2, 10⟩⟩, rfl⟩,
      ⟨⟨.eq, "=", ⟨2, 12⟩⟩, rfl⟩,
      [.synonym ⟨⟨.kwType, "type", ⟨2, 14⟩⟩, rfl⟩
        ⟨⟨⟨.identifier, "t", ⟨2, 19⟩⟩, rfl⟩, none, ⟨⟨.eq, "=", ⟨2, 21⟩⟩, rfl⟩⟩
        (.contract ⟨⟨.con, "A", ⟨2, 23⟩⟩, rfl⟩)]⟩], by simp⟩, ?_, ?_, ?_⟩
  · rfl
  · rfl
  refine aliasesSettledFrom_nil.1 (aliasesSettledFrom_cons.2 ⟨by simp [Contract.typeDefs], ?_⟩)
  refine aliasesSettledFrom_cons.2 ⟨?_, fun before c after h => by simp at h⟩
  simp [Contract.typeDefs, Decl.typeDef?, AliasAmong]

end ContractInterface.Grammar
