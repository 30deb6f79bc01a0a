import Mathlib
import ContractInterface.Proofs.Order
import ContractInterface.Proofs.Typing.Positions
import ContractInterface.Proofs.Typing.Renaming

/-!
# Symmetries of type checking

What a checker finds in a contract depends on the rest of the unit only through the set of its
names, and commutes with renaming (`Checker.renamed_enter`).  So the verdict on a unit that was put
in another order and renamed is the verdict on the renamed issues of its contracts
(`infer_rename_perm`).  With every name kept, the order of contracts does not matter
(`contracts_in_any_order`): issues of two contracts never share a position, so sorting undoes the
change.  With the order kept, neither do names (`infer_rename`).
-/

namespace ContractInterface

open Token (Lexical)
open Checker (issuesOf)

/-- What a checker has to say against a contract of the unit. -/
def Contract.issuesIn (unit : List Contract) (k : Contract) : List Issue :=
  issuesOf (((Checker.fresh.start unit).enter k).contractFindings k)

/-- The answer to a unit in whose contracts these issues were found, one after the other. -/
def verdict (unit : List Contract) (issues : List Issue) : Except CheckError (List Contract) :=
  if issues = [] then .ok unit else .error (.illTyped (sortByPosition Issue.pos issues))

/-! ## Verdicts -/

theorem verdict_eq_ok_iff {unit : List Contract} {issues : List Issue} :
    verdict unit issues = .ok unit ↔ issues = [] := by
  unfold verdict
  split
  · next h => exact iff_of_true rfl h
  · next h => exact iff_of_false (by rintro ⟨⟩) h

theorem verdict_of_ne_nil {unit : List Contract} {issues : List Issue} (h : issues ≠ []) :
    verdict unit issues = .error (.illTyped (sortByPosition Issue.pos issues)) :=
  if_neg h

theorem Checker.eq_map_issue {fs : List Finding} (h : Unhindered fs) :
    fs = (issuesOf fs).map .issue := by
  induction fs with
  | nil => rfl
  | cons f fs ih =>
    cases f with
    | issue i => rw [issuesOf_cons_issue, List.map_cons, ← ih (unhindered_cons_issue.1 h)]
    | obstacle e => exact absurd h not_unhindered_cons_obstacle

theorem Checker.note_map_issue (c : Checker) (is : List Issue) :
    c.note (is.map .issue) = (none, c.withIssues is) := by
  have hunhindered : Unhindered (is.map Finding.issue) := by
    intro e he
    obtain ⟨i, -, hi⟩ := List.mem_map.1 he
    cases hi
  have hissues : issuesOf (is.map Finding.issue) = is := by
    rw [issuesOf, List.filterMap_map]
    exact List.filterMap_some
  rw [note_of_unhindered hunhindered, hissues]

section

variable {α : Type} {g : α → Contract} {found : α → List Issue} {names : List String}

/-- A checker that knows what it will find goes through all contracts and takes it down. -/
theorem Checker.run_map {xs : List α} (h : ∀ x ∈ xs, ∀ c : Checker, c.contractNames = names →
      (c.enter (g x)).contractFindings (g x) = (found x).map .issue) (c : Checker)
    (hnames : c.contractNames = names) :
    ∃ types, c.run (xs.map g) = (none, ⟨names, types, c.issues ++ xs.flatMap found⟩) := by
  induction xs generalizing c with
  | nil =>
    obtain ⟨cs, types, issues⟩ := c
    cases hnames
    exact ⟨types, by rw [List.flatMap_nil, List.append_nil]; rfl⟩
  | cons x xs ih =>
    have hstep : c.checkContract (g x) = (none, (c.enter (g x)).withIssues (found x)) := by
      rw [checkContract, h x (by simp) c hnames, note_map_issue]
    obtain ⟨types, hrun⟩ := ih (fun y hy => h y (List.mem_cons_of_mem _ hy))
      ((c.enter (g x)).withIssues (found x)) hnames
    refine ⟨types, ?_⟩
    rw [List.map_cons, run, hstep, List.flatMap_cons, ← List.append_assoc]
    exact hrun

theorem infer_map {xs : List α} (h : ∀ x ∈ xs, ∀ c : Checker,
      c.contractNames = (xs.map g).map (fun k => k.name.text) →
        (c.enter (g x)).contractFindings (g x) = (found x).map .issue) :
    Contract.infer (xs.map g) = verdict (xs.map g) (xs.flatMap found) := by
  obtain ⟨types, hrun⟩ := Checker.run_map h (Checker.fresh.start (xs.map g)) rfl
  rw [Contract.infer, Checker.infer, hrun, verdict]
  show (if ([] ++ xs.flatMap found).isEmpty = true then _ else _ :
    Except CheckError (List Contract) × Checker).1 = _
  rw [List.nil_append]
  cases xs.flatMap found <;> rfl

end

/-! ## Names and order -/

section

variable {unit unit' : List Contract} (hbuilt : ∀ k ∈ unit, k.Built LexicalName)

include hbuilt

/-- The tables for a contract of a unit, and those for its renamed form. -/
theorem Checker.renamed_enter (ρ : Renaming) {k : Contract} (hk : k ∈ unit) {c : Checker}
    (hnames : ∀ name, name ∈ c.contractNames ↔ ∃ k ∈ unit, name = ρ.con k.name.text) :
    Renamed ρ ((fresh.start unit).enter k) (c.enter (k.rename ρ)) := by
  constructor
  · intro name hname
    show c.contractNames.contains (ρ.con name) = (unit.map fun k => k.name.text).contains name
    rw [Bool.eq_iff_iff, List.contains_iff_mem, List.contains_iff_mem, hnames, List.mem_map]
    refine exists_congr fun k => and_congr_right fun hk => ?_
    exact ⟨fun e => (ρ.con_injOn hname (hbuilt k hk).name e).symm, fun e => e ▸ rfl⟩
  · intro name hname
    show ((k.rename ρ).arities.lookup (ρ.identifier name)).or
        (builtinTypes.lookup (ρ.identifier name)) =
      (k.arities.lookup name).or (builtinTypes.lookup name)
    have harities : (k.rename ρ).arities = k.arities.map fun e => (ρ.identifier e.1, e.2) := by
      rw [Contract.arities, Contract.arities, Contract.typeDefs_rename, List.map_map, List.map_map]
      refine List.map_congr_left fun d _ => ?_
      show (_, (d.vars.map _).length) = _
      rw [List.length_map]
      rfl
    have hlexical : ∀ e ∈ k.arities, Lexical .identifier e.1 := by
      intro e he
      obtain ⟨d, hd, rfl⟩ := List.mem_map.1 he
      exact ((hbuilt k hk).typeDef hd).name
    rw [harities, lookup_map_injOn ρ.identifier_injOn hlexical hname, ρ.lookup_builtinTypes hname]

/-- **The verdict on a unit in another order and under new names**: the same issues, renamed, in the
order of its contracts. -/
theorem infer_rename_perm (ρ : Renaming) (hperm : unit'.Perm unit) :
    Contract.infer (unit'.map (Contract.rename ρ)) =
      verdict (unit'.map (Contract.rename ρ))
        (unit'.flatMap fun k => (k.issuesIn unit).map (Issue.rename ρ)) := by
  refine infer_map fun k hk c hnames => ?_
  have hunit := hperm.mem_iff.1 hk
  have htables : Checker.Renamed ρ ((Checker.fresh.start unit).enter k) (c.enter (k.rename ρ)) := by
    refine Checker.renamed_enter hbuilt ρ hunit fun name => ?_
    rw [hnames, List.map_map, (hperm.map _).mem_iff, List.mem_map]
    exact exists_congr fun k => and_congr_right fun _ => eq_comm
  have hfound := (hbuilt k hunit).unhindered ((Checker.fresh.start unit).enter k)
  rw [Checker.contractFindings_rename htables (hbuilt k hunit), Checker.eq_map_issue hfound,
    List.map_map, List.map_map]
  rfl

theorem infer_perm (hperm : unit'.Perm unit) :
    Contract.infer unit' = verdict unit' (unit'.flatMap (Contract.issuesIn unit)) := by
  have hcontract : Contract.rename .refl = id := funext Contract.rename_refl
  have hissue (i : Issue) : i.rename .refl = i := Finding.issue.inj (Finding.rename_refl (.issue i))
  have hverdict := infer_rename_perm hbuilt .refl hperm
  rw [hcontract, List.map_id] at hverdict
  simpa only [funext hissue, List.map_id'] using hverdict

end

/-! ## Sources -/

/-- An issue of a contract stands at one of its tokens. -/
theorem Grammar.ContractTree.exists_token {C : ContractTree} {unit : List Contract} {i : Issue}
    (hi : i ∈ C.ast.issuesIn unit) : ∃ t ∈ C.tokens, t.pos = i.pos := by
  have hreports : Reports (C.ast.Violates unit) (C.ast.issuesIn unit) :=
    Checker.reports_contract ⟨rfl, rfl⟩
  obtain ⟨site, hv⟩ := hreports.exists_site hi
  have hbuilt : C.ast.Built fun k n => ∃ t ∈ C.tokens, t.kind = k ∧ t.name = n :=
    C.built fun t ht => ⟨t, ht, rfl, rfl⟩
  obtain ⟨n, ⟨t, ht, -, rfl⟩, -, hpos⟩ := hv.pointsAt hbuilt
  exact ⟨t, ht, hpos.symm⟩

/-- Issues of two contracts of a source stand at different positions. -/
theorem Grammar.issuesIn_apart {source : String} {unit : List Contract}
    (h : Contract.ofSource source = .ok unit) :
    unit.Pairwise fun k l => ∀ i ∈ k.issuesIn unit, ∀ j ∈ l.issuesIn unit, i.pos ≠ j.pos := by
  obtain ⟨Cs, -, -, rfl, -, hscanned⟩ := exists_trees_of_ofSource h
  have hbefore := (List.pairwise_flatMap.1 hscanned.increasing).2
  refine List.pairwise_map.2 (hbefore.imp fun {C D} hCD i hi j hj => ?_)
  obtain ⟨t, ht, hti⟩ := C.exists_token hi
  obtain ⟨u, hu, huj⟩ := D.exists_token hj
  rw [← hti, ← huj]
  exact (hCD t ht u hu).ne

/-- **The order of contracts does not matter**: the checker accepts both units, or reports the same
issues about both in the same order. -/
theorem contracts_in_any_order (source : String) (unit unit' : List Contract)
    (h : Contract.ofSource source = .ok unit) (hperm : unit'.Perm unit) :
    (Contract.infer unit' = .ok unit' ↔ Contract.infer unit = .ok unit) ∧
      (Contract.infer unit ≠ .ok unit → ∃ issues,
        Contract.infer unit = .error (.illTyped issues) ∧
        Contract.infer unit' = .error (.illTyped issues)) := by
  have hbuilt := fun k hk => (Grammar.built_of_ofSource h k hk).1
  have hissues := hperm.flatMap_right (Contract.issuesIn unit)
  rw [infer_perm hbuilt hperm, infer_perm hbuilt (.refl unit), verdict_eq_ok_iff, verdict_eq_ok_iff]
  have hnil : unit'.flatMap (Contract.issuesIn unit) = [] ↔
      unit.flatMap (Contract.issuesIn unit) = [] :=
    ⟨fun e => (e ▸ hissues).nil_eq.symm, fun e => (e ▸ hissues).eq_nil⟩
  refine ⟨hnil, fun hno => ?_⟩
  have hne := mt verdict_eq_ok_iff.2 hno
  refine ⟨_, verdict_of_ne_nil hne, ?_⟩
  rw [verdict_of_ne_nil (mt hnil.1 hne),
    sortByPosition_flatMap_perm hperm.symm (Grammar.issuesIn_apart h)]

theorem contracts_in_any_order_swapped :
    let c : Contract := ⟨⟨"C", some ⟨1, 10⟩⟩, [.typeDef ⟨⟨"t", some ⟨1, 17⟩⟩, [],
      .synonym (.named ⟨"u", some ⟨1, 19⟩⟩), some ⟨1, 12⟩⟩], some ⟨1, 1⟩⟩
    let f (col : Int) : Decl := .function ⟨⟨"f", some ⟨1, col + 9⟩⟩, [], none,
      [⟨.number, "1", ⟨1, col + 13⟩⟩], false, false, some ⟨1, col⟩⟩
    let d : Contract := ⟨⟨"D", some ⟨1, 30⟩⟩, [f 32, f 47], some ⟨1, 21⟩⟩
    let source := "contract C=type t=u contract D=function f()=1 function f()=1"
    Contract.ofSource source = .ok [c, d] ∧ ∃ issues,
      issues.map Issue.pos = [⟨1, 19⟩, ⟨1, 41⟩, ⟨1, 56⟩, ⟨1, 56⟩] ∧
      Contract.infer [c, d] = .error (.illTyped issues) ∧
      Contract.infer [d, c] = .error (.illTyped issues) := by
  intro c f d source
  have hunit : Contract.ofSource source = .ok [c, d] := by cbv
  have hinfer : Contract.infer [c, d] = .error (.illTyped
      [⟨⟨1, 19⟩, .unknownType "u" (.definition "t")⟩,
        ⟨⟨1, 41⟩, .unannotatedResult (.function "f")⟩,
        ⟨⟨1, 56⟩, .duplicateFunction "f" "D"⟩,
        ⟨⟨1, 56⟩, .unannotatedResult (.function "f")⟩]) := rfl
  have hno : Contract.infer [c, d] ≠ .ok [c, d] := by
    rw [hinfer]
    rintro ⟨⟩
  obtain ⟨issues, h, h'⟩ :=
    (contracts_in_any_order source [c, d] [d, c] hunit (.swap c d [])).2 hno
  cases hinfer.symm.trans h
  exact ⟨hunit, _, rfl, h, h'⟩

theorem Issue.pos_rename (ρ : Renaming) (i : Issue) : (i.rename ρ).pos = i.pos := rfl

/-- **Names do not matter**: the checker accepts the renamed unit if it accepts the unit, and
otherwise reports the same issues at the same positions, in the same order and under the new
names. -/
theorem infer_rename (source : String) (unit : List Contract) (ρ : Renaming)
    (h : Contract.ofSource source = .ok unit) :
    (Contract.infer (unit.map (Contract.rename ρ)) = .ok (unit.map (Contract.rename ρ)) ↔
        Contract.infer unit = .ok unit) ∧
      (Contract.infer unit ≠ .ok unit → ∃ issues,
        Contract.infer unit = .error (.illTyped issues) ∧
        Contract.infer (unit.map (Contract.rename ρ)) =
          .error (.illTyped (issues.map (Issue.rename ρ)))) := by
  have hbuilt := fun k hk => (Grammar.built_of_ofSource h k hk).1
  rw [infer_rename_perm hbuilt ρ (.refl unit), infer_perm hbuilt (.refl unit), verdict_eq_ok_iff,
    verdict_eq_ok_iff, ← List.map_flatMap, List.map_eq_nil_iff]
  refine ⟨.rfl, fun hno => ?_⟩
  have hne := mt verdict_eq_ok_iff.2 hno
  refine ⟨_, verdict_of_ne_nil hne, ?_⟩
  rw [verdict_of_ne_nil (mt List.map_eq_nil_iff.1 hne), sortByPosition_map (Issue.pos_rename ρ)]

theorem infer_rename_swapped :
    let unit : List Contract := [⟨⟨"C", some ⟨1, 10⟩⟩, [.typeDef ⟨⟨"t", some ⟨2, 8⟩⟩,
      [⟨"'a", some ⟨2, 10⟩⟩], .synonym (.tuple [.named ⟨"u", some ⟨2, 17⟩⟩,
        .var ⟨"'b", some ⟨2, 20⟩⟩, .contract ⟨"D", some ⟨2, 24⟩⟩]), some ⟨2, 3⟩⟩], some ⟨1, 1⟩⟩]
    ∃ ρ : Renaming, ρ.identifier "u" = "t" ∧ ρ.con "D" = "C" ∧ ρ.tvar "'b" = "'a" ∧
      Contract.ofSource "contract C =\n  type t('a) = (u, 'b, D)" = .ok unit ∧ ∃ issues,
        Contract.infer unit = .error (.illTyped issues) ∧
        Contract.infer (unit.map (Contract.rename ρ)) =
          .error (.illTyped (issues.map (Issue.rename ρ))) := by
  intro unit
  have hbuiltin : ∀ name, isBuiltin name = true → Equiv.swap "t" "u" name = name := by
    intro name h
    refine Equiv.swap_apply_of_ne_of_ne ?_ ?_ <;> rintro rfl <;> exact absurd h (by decide)
  let ρ : Renaming := ⟨Equiv.swap "t" "u", Equiv.swap "C" "D", Equiv.swap "'a" "'b",
    (Equiv.injective _).injOn, (Equiv.injective _).injOn, (Equiv.injective _).injOn, hbuiltin⟩
  have hunit : Contract.ofSource "contract C =\n  type t('a) = (u, 'b, D)" = .ok unit := by cbv
  have hinfer : Contract.infer unit = .error (.illTyped
      [⟨⟨2, 17⟩, .unknownType "u" (.definition "t")⟩,
        ⟨⟨2, 20⟩, .unboundVar "'b" (.definition "t")⟩,
        ⟨⟨2, 24⟩, .unknownContract "D" (.definition "t")⟩]) := rfl
  have hno : Contract.infer unit ≠ .ok unit := by
    rw [hinfer]
    rintro ⟨⟩
  exact ⟨ρ, Equiv.swap_apply_right _ _, Equiv.swap_apply_right _ _, Equiv.swap_apply_right _ _,
    hunit, (infer_rename _ unit ρ hunit).2 hno⟩

end ContractInterface
