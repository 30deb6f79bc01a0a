import ContractInterface.Proofs.Outcome
import ContractInterface.Proofs.Typing.Surface

/-!
# The order of declarations

Sorting by position is determined by what stands at each position (`sortByPosition_congr`), so what
stands at different positions may be sorted from any order.  The declarations of a source do, and
the typing rules do not ask for an order: a unit whose first contract lists its declarations in
another order is accepted if the source is, and has the same description.

    ds.Perm c.decls → the unit with ⟨c.name, ds, c.pos⟩ for `c` has the description of the source
                                                                    (declarations_in_any_order)

Of hand-made contracts with shared or missing positions the lists by position are `SortedStably`.
-/

namespace ContractInterface

/-! ## Sorting -/

theorem Position.le_antisymm {p q : Position} (h : p.le q = true) (h' : q.le p = true) : p = q := by
  obtain ⟨l, c⟩ := p
  obtain ⟨m, d⟩ := q
  simp only [le, Bool.or_eq_true, Bool.and_eq_true, decide_eq_true_eq, beq_iff_eq] at h h'
  rw [mk.injEq]
  omega

section

variable {α β : Type} {pos : α → Position}

/-- The elements of `as` by position; those at one position keep their order. -/
structure SortedStably (pos : α → Position) (as bs : List α) : Prop where
  perm : bs.Perm as
  ascending : Ascending pos bs
  stable : ∀ p, bs.filter (fun b => decide (pos b = p)) = as.filter fun a => decide (pos a = p)

theorem sortedStably_sortByPosition (pos : α → Position) (as : List α) :
    SortedStably pos as (sortByPosition pos as) :=
  ⟨perm_sortByPosition pos as, ascending_sortByPosition pos as,
    fun p => filter_sortByPosition pos p as⟩

/-- An ascending list is determined by what stands at each position. -/
theorem Ascending.eq_of_filter {as bs : List α} (ha : Ascending pos as) (hb : Ascending pos bs)
    (h : ∀ p, as.filter (fun a => decide (pos a = p)) = bs.filter fun b => decide (pos b = p)) :
    as = bs := by
  have hmem (c : α) : c ∈ as ↔ c ∈ bs := by
    have hc := congrArg (c ∈ ·) (h (pos c))
    simpa using hc
  induction as generalizing bs with
  | nil =>
    cases bs with
    | nil => rfl
    | cons b bs => exact absurd ((hmem b).2 (by simp)) List.not_mem_nil
  | cons a as ih =>
    cases bs with
    | nil => exact absurd ((hmem a).1 (by simp)) List.not_mem_nil
    | cons b bs =>
      obtain ⟨ha, has⟩ := List.pairwise_cons.1 ha
      obtain ⟨hb, hbs⟩ := List.pairwise_cons.1 hb
      -- each head stands in the other list, so that neither position is the greater one
      have hle : (pos a).le (pos b) = true := by
        rcases List.mem_cons.1 ((hmem b).2 (by simp)) with rfl | hmem
        · exact Position.le_refl _
        · exact ha b hmem
      have hge : (pos b).le (pos a) = true := by
        rcases List.mem_cons.1 ((hmem a).1 (by simp)) with rfl | hmem
        · exact Position.le_refl _
        · exact hb a hmem
      have hpos := Position.le_antisymm hle hge
      have hheads := h (pos a)
      simp only [List.filter_cons, hpos, decide_true, if_true, List.cons.injEq] at hheads
      obtain ⟨rfl, -⟩ := hheads
      have htails : ∀ p, as.filter (fun c => decide (pos c = p)) =
          bs.filter fun c => decide (pos c = p) := by
        intro p
        have hp := h p
        rw [List.filter_cons, List.filter_cons] at hp
        split at hp
        · exact (List.cons.inj hp).2
        · exact hp
      rw [ih has hbs htails fun c => ?_]
      have hc := congrArg (c ∈ ·) (htails (pos c))
      simpa using hc

theorem sortByPosition_congr {as bs : List α}
    (h : ∀ p, as.filter (fun a => decide (pos a = p)) = bs.filter fun b => decide (pos b = p)) :
    sortByPosition pos as = sortByPosition pos bs := by
  refine (ascending_sortByPosition pos as).eq_of_filter (ascending_sortByPosition pos bs)
    fun p => ?_
  rw [filter_sortByPosition, filter_sortByPosition, h]

theorem sortByPosition_map {pos' : β → Position} {f : α → β}
    (hf : ∀ a, pos' (f a) = pos a) (as : List α) :
    sortByPosition pos' (as.map f) = (sortByPosition pos as).map f := by
  have hinsert (a : α) (bs : List α) :
      insertByPosition pos' (f a) (bs.map f) = (insertByPosition pos a bs).map f := by
    induction bs with
    | nil => rfl
    | cons b bs ih =>
      rw [List.map_cons, insertByPosition, insertByPosition, hf, hf, ih, apply_ite (List.map f)]
      rfl
  induction as with
  | nil => rfl
  | cons a as ih => rw [List.map_cons, sortByPosition, sortByPosition, ih, hinsert]

/-- Lists that have no position in common may be put together in any order. -/
theorem sortByPosition_flatMap_perm {f : β → List α} {xs ys : List β} (h : xs.Perm ys)
    (hapart : xs.Pairwise fun x y => ∀ a ∈ f x, ∀ b ∈ f y, pos a ≠ pos b) :
    sortByPosition pos (xs.flatMap f) = sortByPosition pos (ys.flatMap f) := by
  refine sortByPosition_congr fun p => ?_
  rw [List.filter_flatMap, List.filter_flatMap]
  induction h with
  | nil => rfl
  | cons x _ ih => rw [List.flatMap_cons, List.flatMap_cons, ih (List.pairwise_cons.1 hapart).2]
  | swap x y zs =>
    -- one of the two has nothing at `p`
    have hswap : (f y).filter (fun a => decide (pos a = p)) = [] ∨
        (f x).filter (fun a => decide (pos a = p)) = [] := by
      simp only [List.filter_eq_nil_iff, decide_eq_true_eq]
      by_cases hy : ∃ a ∈ f y, pos a = p
      · obtain ⟨a, ha, rfl⟩ := hy
        exact .inr fun b hb => ((List.pairwise_cons.1 hapart).1 x (by simp) a ha b hb).symm
      · exact .inl fun a ha e => hy ⟨a, ha, e⟩
    simp only [List.flatMap_cons]
    rcases hswap with hnil | hnil <;> simp [hnil]
  | trans hxy _ ih ih' =>
    have hys := (hxy.pairwise_iff fun hxy b hb a ha => (hxy a ha b hb).symm).1 hapart
    exact (ih hapart).trans (ih' hys)

end

/-! ## Declarations -/

/-- Where the declaration stands, if that is known. -/
def Decl.pos : Decl → Option Position
  | typeDef d => d.pos
  | function d => d.pos
  | other _ pos => pos

theorem Grammar.DeclTree.isSome_pos (D : DeclTree) : D.ast.pos.isSome = true := by
  cases D <;> rfl

/-- Every declaration of a source has a position. -/
theorem Grammar.isSome_pos_of_ofSource {source : String} {unit : List Contract}
    (h : Contract.ofSource source = .ok unit) : ∀ c ∈ unit, ∀ d ∈ c.decls, d.pos.isSome = true := by
  obtain ⟨Cs, -, -, rfl, -, -⟩ := exists_trees_of_ofSource h
  intro c hc d hd
  obtain ⟨C, -, rfl⟩ := List.mem_map.1 hc
  obtain ⟨D, -, rfl⟩ := List.mem_map.1 hd
  exact D.isSome_pos

theorem Position.Before.ne {p q : Position} (h : p.Before q) : p ≠ q := by
  rintro rfl
  unfold Before at h
  omega

namespace Contract

/-- The contract with its declarations in place of others. -/
def withDecls (c : Contract) (ds : List Decl) : Contract := ⟨c.name, ds, c.pos⟩

variable {c : Contract} {ds : List Decl}

theorem InOrder.sort_perm {α : Type} (h : c.InOrder) (hds : ds.Perm c.decls)
    {sort? : Decl → Option α} {place : α → Position}
    (hplace : ∀ d a, sort? d = some a → place a = d.place) :
    sortByPosition place (ds.filterMap sort?) = sortByPosition place (c.decls.filterMap sort?) := by
  rw [List.filterMap_eq_flatMap_toList, List.filterMap_eq_flatMap_toList]
  refine (sortByPosition_flatMap_perm hds.symm (List.Pairwise.imp ?_ h)).symm
  intro d e hde a ha b hb
  rw [hplace d a (Option.mem_toList.1 ha), hplace e b (Option.mem_toList.1 hb)]
  exact hde.ne

/-- In another order the declarations are listed as before. -/
theorem InOrder.describe_withDecls (h : c.InOrder) (hds : ds.Perm c.decls) (publicOnly : Bool) :
    (c.withDecls ds).describe publicOnly = c.describe publicOnly := by
  have htypes : (c.withDecls ds).orderedTypeDefs = c.orderedTypeDefs := by
    refine h.sort_perm hds ?_
    rintro (d | d | d) a ha <;> cases ha
    rfl
  have hfunctions : (c.withDecls ds).orderedFunctions = c.orderedFunctions := by
    refine h.sort_perm hds ?_
    rintro (d | d | d) a ha <;> cases ha
    rfl
  rw [describe, describe, describedFunctions, describedFunctions, htypes, hfunctions]
  rfl

theorem Built.withDecls {P : TokenKind → Name → Prop} (h : c.Built P) (hds : ds.Perm c.decls) :
    (c.withDecls ds).Built P :=
  ⟨h.name, fun d hd => h.decls d (hds.mem_iff.1 hd)⟩

/-! ## Typing -/

/-- What is in scope does not depend on the order of declarations. -/
theorem scopeLe_withDecls {unit unit' : List Contract} (hds : ds.Perm c.decls)
    (hunit : ∀ k ∈ unit, ∃ k' ∈ unit', k'.name.text = k.name.text) :
    ScopeLe unit c unit' (c.withDecls ds) := by
  refine ⟨fun name arity hknows => ?_, hunit⟩
  rcases hknows with ⟨d, hd, hname, harity⟩ | hbuiltin
  · exact .inl ⟨d, (hds.filterMap Decl.typeDef?).mem_iff.2 hd, hname, harity⟩
  · exact .inr hbuiltin

theorem WellTyped.withDecls {unit unit' : List Contract} (h : c.WellTyped unit)
    (hds : ds.Perm c.decls) (hunit : ∀ k ∈ unit, ∃ k' ∈ unit', k'.name.text = k.name.text) :
    (c.withDecls ds).WellTyped unit' := by
  have htypes : (c.withDecls ds).typeDefs.Perm c.typeDefs := hds.filterMap _
  have hfunctions : (c.withDecls ds).functions.Perm c.functions := hds.filterMap _
  have hscope := scopeLe_withDecls hds hunit
  exact ⟨(htypes.map _).nodup_iff.2 h.types_nodup,
    fun d hd => h.types_not_builtin d (htypes.mem_iff.1 hd),
    (hfunctions.map _).nodup_iff.2 h.functions_nodup,
    fun d hd => (h.typeDefs d (htypes.mem_iff.1 hd)).of_surface hscope rfl,
    fun d hd => (h.functions d (hfunctions.mem_iff.1 hd)).of_surface hscope rfl⟩

end Contract

theorem WellTyped.withDecls {c : Contract} {cs : List Contract} {ds : List Decl}
    (h : WellTyped (c :: cs)) (hds : ds.Perm c.decls) : WellTyped (c.withDecls ds :: cs) := by
  have hnames : ∀ k ∈ c :: cs, ∃ k' ∈ c.withDecls ds :: cs, k'.name.text = k.name.text := by
    intro k hk
    rcases List.mem_cons.1 hk with rfl | hk
    · exact ⟨_, List.mem_cons_self, rfl⟩
    · exact ⟨k, List.mem_cons_of_mem _ hk, rfl⟩
  intro k hk
  rcases List.mem_cons.1 hk with rfl | hk
  · exact (h c List.mem_cons_self).withDecls hds hnames
  · exact (h k (List.mem_cons_of_mem _ hk)).of_surface rfl hnames

/-- A well-typed unit of names in tokens is accepted, be it of a source or not. -/
theorem infer_of_built {P : TokenKind → Name → Prop} {unit : List Contract}
    (hbuilt : ∀ k ∈ unit, k.Built P) (h : WellTyped unit) : Contract.infer unit = .ok unit := by
  obtain ⟨issues, hissues, hinfer⟩ := infer_eq fun k hk c => (hbuilt k hk).unhindered c
  rwa [if_pos (hissues.eq_nil_iff.2 (wellTyped_iff.1 h))] at hinfer

/-! ## Requests -/

/-- A request is answered with the description of the first contract that its parser returns and the
checker accepts. -/
theorem DescribeRequest.run_eq_ok {r : DescribeRequest} {s : String} {unit cs : List Contract}
    {c : Contract} {d : Description} (hs : r.source.decode = .ok s) (hunit : r.parser s = .ok unit)
    (hinfer : r.checker unit = .ok (c :: cs)) (hd : c.describe r.publicOnly = .ok d) :
    r.run = .ok d := by
  unfold run
  simp only [hs, hunit, hinfer, hd]

/-- **The order of declarations does not matter.**  In an accepted source the declarations stand at
increasing positions, so they are listed as written; and a parser that returns those of the first
contract in another order leads to the same description.  Declarations of any other contract are
listed by position, where a missing one is line 0, column 0, and equal ones keep their order. -/
theorem declarations_in_any_order :
    (∀ indent publicOnly source t, interfaceText indent publicOnly source = .ok t →
      ∃ s c cs, source.decode = .ok s ∧ Contract.ofSource s = .ok (c :: cs) ∧
        (∀ k ∈ c :: cs, k.InOrder ∧ (∀ d ∈ k.decls, d.pos.isSome = true) ∧
          k.orderedTypeDefs = k.typeDefs ∧ k.orderedFunctions = k.functions) ∧
        ∀ onlyPublic, ∃ d, describe onlyPublic source = .ok d ∧ ∀ ds parser, ds.Perm c.decls →
          parser s = .ok (c.withDecls ds :: cs) →
          DescribeRequest.run ⟨source, onlyPublic, parser, Contract.infer⟩ = .ok d) ∧
    ∀ k : Contract, SortedStably TypeDef.place k.typeDefs k.orderedTypeDefs ∧
      SortedStably FunctionDef.place k.functions k.orderedFunctions := by
  refine ⟨fun indent publicOnly source t h => ?_, fun k =>
    ⟨sortedStably_sortByPosition _ _, sortedStably_sortByPosition _ _⟩⟩
  obtain ⟨s, c, cs, -, hs, hunit, hinfer, -⟩ := interfaceText_eq_ok h
  have hbuilt := Grammar.built_of_ofSource hunit
  have htyped := wellTyped_of_infer hunit hinfer
  refine ⟨s, c, cs, hs, hunit, fun k hk => ?_, fun onlyPublic => ?_⟩
  · have horder := (hbuilt k hk).2
    exact ⟨horder, Grammar.isSome_pos_of_ofSource hunit k hk, horder.orderedTypeDefs,
      horder.orderedFunctions⟩
  · obtain ⟨d, hd⟩ := describe_of_wellTyped (Source.hasUnit_iff.2 ⟨s, hs, hunit⟩) htyped onlyPublic
    refine ⟨d, hd, fun ds parser hds hparser => ?_⟩
    have hbuilt' : ∀ k ∈ c.withDecls ds :: cs, k.Built (fun k n => Token.Lexical k n.text) := by
      rw [List.forall_mem_cons] at hbuilt ⊢
      exact ⟨hbuilt.1.1.withDecls hds, fun k hk => (hbuilt.2 k hk).1⟩
    refine DescribeRequest.run_eq_ok hs hparser (infer_of_built hbuilt' (htyped.withDecls hds)) ?_
    rw [(hbuilt c List.mem_cons_self).2.describe_withDecls hds]
    rw [describe_eq_of_infer hs hunit hinfer] at hd
    cases hc : c.describe onlyPublic with
    | error shown =>
      rw [hc] at hd
      cases hd
    | ok d' =>
      rw [hc] at hd
      cases hd
      rfl

theorem declarations_in_any_order_reversed :
    let source := "contract C =\n  type t = int\n  function f() : t = 1"
    let t := Decl.typeDef ⟨⟨"t", some ⟨2, 8⟩⟩, [], .synonym (.named ⟨"int", some ⟨2, 12⟩⟩),
      some ⟨2, 3⟩⟩
    let f := Decl.function ⟨⟨"f", some ⟨3, 12⟩⟩, [], some (.named ⟨"t", some ⟨3, 18⟩⟩),
      [⟨.number, "1", ⟨3, 22⟩⟩], false, false, some ⟨3, 3⟩⟩
    let unit (ds : List Decl) : List Contract := [⟨⟨"C", some ⟨1, 10⟩⟩, ds, some ⟨1, 1⟩⟩]
    Contract.ofSource source = .ok (unit [t, f]) ∧ ∃ d, describe true (.text source) = .ok d ∧
      DescribeRequest.run ⟨.text source, true, fun _ => .ok (unit [f, t]), Contract.infer⟩ =
        .ok d := by
  intro source t f unit
  have hunit : Contract.ofSource source = .ok (unit [t, f]) := by cbv
  have hinfer : Contract.infer (unit [t, f]) = .ok (unit [t, f]) := rfl
  have hspelled : (Source.text source).HasUnit _ := Source.hasUnit_iff.2 ⟨source, rfl, hunit⟩
  obtain ⟨d, hd⟩ := describe_of_wellTyped hspelled (wellTyped_of_infer hunit hinfer) false
  have htext : interfaceText none false (.text source) = .ok (d.text none) := by
    rw [interfaceText_eq, hd]
    rfl
  obtain ⟨s, c, cs, hs, hc, -, h⟩ := declarations_in_any_order.1 none false _ _ htext
  cases hs
  cases hunit.symm.trans hc
  obtain ⟨d, hd, hrun⟩ := h true
  exact ⟨hunit, d, hd, hrun [f, t] _ (.swap t f []) rfl⟩

end ContractInterface
