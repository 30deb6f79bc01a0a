import ContractInterface.Proofs.Grammar.Blindness
import ContractInterface.Proofs.Outcome
import ContractInterface.Proofs.Scan.Append
import ContractInterface.Proofs.Typing.Surface

/-!
# Units compose

One source behind another, with a line feed between them, has the contracts of both.  Nothing that
the first leaves behind changes how the second is read: its end closes all brackets, and contracts
that are complete only settle more aliases.  A description is that of the first contract, so further
contracts do not change it.

    ofSource (a ++ "\n" ++ b)  =  contracts of a, then those of b further down       (ofSource_append)
    interfaceText indent publicOnly (a ++ "\n" ++ b) = interfaceText indent publicOnly a
-/

namespace ContractInterface

/-! ## Aliases -/

namespace Grammar

theorem exists_of_bare_eq_synonym {t : TypeExpr} {n : Name}
    (h : t.bare = .synonym (.contract n)) : ∃ m, t = .synonym (.contract m) ∧ m.text = n.text := by
  cases t <;> simp only [TypeExpr.bare, TypeExpr.synonym.injEq, reduceCtorEq] at h
  case synonym t =>
    obtain ⟨m, rfl, htext⟩ := exists_of_bare_eq_contract h
    exact ⟨m, rfl, htext⟩

theorem AliasAmong.of_surface {names : List String} {d e : TypeDef} (h : d.surface = e.surface)
    (hd : AliasAmong names d) : AliasAmong names e := by
  intro n hn
  have hbody : d.body.bare = e.body.bare := congrArg TypeSurface.body h
  rw [hn] at hbody
  obtain ⟨m, hm, htext⟩ := exists_of_bare_eq_synonym hbody
  have hmem := hd m hm
  rwa [htext] at hmem

/-- Aliases stay settled where more contracts are complete. -/
theorem AliasesSettledFrom.of_surface {known known' : List String} {cs ds : List Contract}
    (hsub : known ⊆ known')
    (hsurface : cs.map (Contract.surface false) = ds.map (Contract.surface false))
    (h : AliasesSettledFrom known cs) : AliasesSettledFrom known' ds := by
  induction cs generalizing known known' ds with
  | nil =>
    cases ds with
    | nil =>
      intro before c after heq
      simp at heq
    | cons d ds => cases hsurface
  | cons c cs ih =>
    cases ds with
    | nil => cases hsurface
    | cons d ds =>
      obtain ⟨hc, hcs⟩ := List.cons.inj hsurface
      have hname := Contract.name_eq_of_surface hc
      rw [aliasesSettledFrom_cons] at h ⊢
      constructor
      · intro u hu
        obtain ⟨t, ht, hsame⟩ := exists_of_map_eq (Contract.typeDefs_eq_of_surface hc) u hu
        exact ((h.1 t ht).of_surface hsame).mono hsub
      · rw [← hname]
        exact ih (List.cons_subset_cons _ hsub) hcs h.2

theorem AliasesSettledFrom.append {known : List String} {cs ds : List Contract}
    (hcs : AliasesSettledFrom known cs) (hds : AliasesSettledFrom known ds) :
    AliasesSettledFrom known (cs ++ ds) := by
  induction cs generalizing known with
  | nil => exact hds
  | cons c cs ih =>
    rw [aliasesSettledFrom_cons] at hcs
    rw [List.cons_append, aliasesSettledFrom_cons]
    exact ⟨hcs.1, ih hcs.2 (hds.of_surface (List.subset_cons_self _ _) rfl)⟩

end Grammar

/-! ## Sources -/

open Grammar

/-- **One source behind another**: the contracts of the first as they are, and those of the second
apart from positions. -/
theorem Contract.ofSource_append {a b : String} {us vs : List Contract}
    (ha : Contract.ofSource a = .ok us) (hb : Contract.ofSource b = .ok vs) :
    ∃ ws, Contract.ofSource (a ++ "\n" ++ b) = .ok (us ++ ws) ∧
      allSame Contract.same ws vs = true ∧ ws.map Contract.bodies = vs.map Contract.bodies := by
  obtain ⟨Us, e, hscan, -, hne, rfl, hus⟩ := exists_derivation_of_ofSource ha
  obtain ⟨ts, hscan', hvs⟩ : ∃ ts, Token.scan b = .ok ts ∧ Contract.ofTokens ts = .ok vs := by
    unfold Contract.ofSource at hb
    split at hb
    · cases hb
    · next ts hscan' => exact ⟨ts, hscan', hb⟩
  obtain ⟨ws, e', rfl, he', hscanned⟩ := Token.scanned_of_scan hscan'
  -- further down the second source is read as the same contracts
  let lower := Token.move (Position.lower (Position.start.after a.toList).line)
  have hspelled : SpelledAlike (ws ++ [e']) ((ws ++ [e']).map lower) := by
    rw [SpelledAlike, List.map_map]
    rfl
  obtain ⟨cs, hcs, hbare⟩ := (alike_contracts [] hspelled).of_ok hvs
  have hendless : ∀ t ∈ ws.map lower, t.kind ≠ .finish := by
    intro _ hmem
    obtain ⟨t, ht, rfl⟩ := List.mem_map.1 hmem
    exact (hscanned.lexical t ht).ne_finish
  have hfinish : (lower e').kind = .finish := he'
  rw [List.map_append, List.map_singleton] at hcs
  obtain ⟨Cs, -, hCs, rfl, hsettled⟩ := contracts_sound hendless hfinish hcs
  refine ⟨_, ?_, Contract.same_of_bares hbare.symm⟩
  have hne' : Us ++ Cs ≠ [] := mt List.append_eq_nil_iff.1 fun h => hne h.1
  have hboth := hus.append hsettled
  rw [← List.map_append] at hboth
  have hread := contracts_complete hfinish _ hne' [] hboth
  rw [List.flatMap_append, ← hCs, List.map_append] at hread
  rw [Contract.ofSource, Token.scan_append hscan hscan', List.map_append, ← List.append_assoc]
  exact hread

/-- **Units compose.**  One source behind another spells the contracts of both, and is accepted if
both are; its description is that of the first, for every layout. -/
theorem units_compose {a b : String} {us vs : List Contract}
    (ha : Contract.ofSource a = .ok us) (hb : Contract.ofSource b = .ok vs) :
    ∃ ws, Contract.ofSource (a ++ "\n" ++ b) = .ok (us ++ ws) ∧
      allSame Contract.same ws vs = true ∧ ws.map Contract.bodies = vs.map Contract.bodies ∧
      ∀ us' vs', Contract.infer us = .ok us' → Contract.infer vs = .ok vs' →
        Contract.infer (us ++ ws) = .ok (us ++ ws) ∧
        ∀ indent publicOnly, interfaceText indent publicOnly (.text (a ++ "\n" ++ b)) =
            interfaceText indent publicOnly (.text a) ∧
          (Json.indentFault? indent = none →
            ∃ t, interfaceText indent publicOnly (.text a) = .ok t) := by
  obtain ⟨ws, hunit, hsame, hbodies⟩ := Contract.ofSource_append ha hb
  refine ⟨ws, hunit, hsame, hbodies, fun us' vs' hus hvs => ?_⟩
  have hsurface := Contract.surfaces_eq_of_allSame hsame
  have htyped : WellTyped us := wellTyped_of_infer ha hus
  have htyped' : WellTyped ws :=
    (wellTyped_of_infer hb hvs).of_surface hsurface.symm (List.Subset.refl ws)
  have hboth : WellTyped (us ++ ws) := htyped.append htyped'
  refine ⟨infer_of_wellTyped hunit hboth, fun indent publicOnly => ?_⟩
  have hfirst : (Source.text a).HasUnit us := Source.hasUnit_iff.2 ⟨a, rfl, ha⟩
  have hunits : (Source.text (a ++ "\n" ++ b)).HasUnit (us ++ ws) :=
    Source.hasUnit_iff.2 ⟨_, rfl, hunit⟩
  obtain ⟨d, hd⟩ := describe_of_wellTyped hfirst htyped publicOnly
  obtain ⟨c, cs, rfl⟩ := List.exists_cons_of_ne_nil (ne_nil_of_ofSource ha)
  rw [interfaceText_eq, interfaceText_eq,
    describe_eq_of_first hunits hfirst hboth htyped publicOnly, hd]
  refine ⟨rfl, fun hindent => ⟨d.text indent, ?_⟩⟩
  simp only [Description.textWithin, hindent]

/-- A line comment at the end, in which a bracket is open. -/
theorem ofSource_openComment : Contract.ofSource "contract A = // (" =
    .ok [⟨⟨"A", some ⟨1, 10⟩⟩, [], some ⟨1, 1⟩⟩] := by cbv

theorem ofSource_call : Contract.ofSource "contract B =\n  function f() : int = g(1)" =
    .ok [⟨⟨"B", some ⟨1, 10⟩⟩, [.function ⟨⟨"f", some ⟨2, 12⟩⟩, [], some (.named ⟨"int", some ⟨2, 18⟩⟩),
      [⟨.identifier, "g", ⟨2, 24⟩⟩, ⟨.lparen, "(", ⟨2, 25⟩⟩, ⟨.number, "1", ⟨2, 26⟩⟩,
        ⟨.rparen, ")", ⟨2, 27⟩⟩], false, false, some ⟨2, 3⟩⟩], some ⟨1, 1⟩⟩] := by cbv

theorem units_compose_openComment :
    let a := "contract A = // ("
    let b := "contract B =\n  function f() : int = g(1)"
    ∃ us vs ws, Contract.ofSource a = .ok us ∧ Contract.ofSource b = .ok vs ∧
      Contract.infer us = .ok us ∧ Contract.infer vs = .ok vs ∧
      Contract.ofSource (a ++ "\n" ++ b) = .ok (us ++ ws) ∧
      allSame Contract.same ws vs = true ∧ ws.map Contract.bodies = vs.map Contract.bodies ∧
      Contract.infer (us ++ ws) = .ok (us ++ ws) ∧
      interfaceText none false (.text (a ++ "\n" ++ b)) = interfaceText none false (.text a) ∧
      ∃ t, interfaceText none false (.text a) = .ok t := by
  intro a b
  obtain ⟨ws, hunit, hsame, hbodies, haccepted⟩ := units_compose ofSource_openComment ofSource_call
  obtain ⟨hinfer, htext⟩ := haccepted _ _ rfl rfl
  obtain ⟨hequal, hsome⟩ := htext none false
  exact ⟨_, _, ws, ofSource_openComment, ofSource_call, rfl, rfl, hunit, hsame, hbodies, hinfer,
    hequal, hsome rfl⟩

end ContractInterface
