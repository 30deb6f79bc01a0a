import ContractInterface.Proofs.Grammar.Reads

/-!
# Reading types

`typeExpr` reads exactly what type trees derive.  What it reads is the longest type at the front: a
parenthesis behind a name, or a comma behind a type of a list, belongs to it.  An arrow behind a
parenthesised type is refused; the grammar has no place for one.

    Reads typeExpr ts t rest → ∃ d, ts = d.tokens ++ rest ∧ d.ast = t        (typeExpr_sound)
    Reads typeExpr (d.tokens ++ rest) d.ast rest                              (typeExpr_complete)
-/

namespace ContractInterface.Grammar

open Reader Contract.Parse

variable {ts rest : List Token}

/-! ## The reader's own equations -/

@[simp] theorem reads_closed {t u : TypeExpr} :
    Reads (closed t) ts u rest ↔ u = t ∧ rest = ts ∧ headKind ts ≠ .arrow := by
  unfold closed
  simp only [Reads.bind_iff, Reads.peek_iff]
  constructor
  · rintro ⟨a, us, ⟨rfl, rfl⟩, h⟩
    split at h
    · simp at h
    · next ha =>
      obtain ⟨rfl, rfl⟩ := Reads.pure_iff.1 h
      exact ⟨rfl, rfl, ha⟩
  · rintro ⟨rfl, rfl, ha⟩
    have ha' : ¬(head rest).kind = .arrow := ha
    exact ⟨_, _, ⟨rfl, rfl⟩, by simp [ha']⟩

theorem types_apply (ts : List Token) : types ts = sepBy .comma typeExpr ts := by
  rw [types, sepBy]
  rcases typeExpr ts with e | ⟨a, us, h⟩
  · rfl
  · cases us with
    | nil => rfl
    | cons t us =>
      simp only [types_apply us]
      rcases sepBy .comma typeExpr us with e | ⟨bs, vs, h'⟩ <;> rfl
termination_by ts.length
decreasing_by
  simp at h
  omega

theorem types_eq_sepBy : types = sepBy .comma typeExpr := funext types_apply

theorem reads_types {as : List TypeExpr} :
    Reads types ts as rest ↔ ∃ a us, Reads typeExpr ts a us ∧
      ((as = [a] ∧ rest = us ∧ (us = [] ∨ headKind us ≠ .comma)) ∨
        ∃ t vs bs, us = t :: vs ∧ t.kind = .comma ∧ Reads types vs bs rest ∧ as = a :: bs) := by
  rw [types_eq_sepBy]
  exact Reads.sepBy_iff

/-- The types up to a closing parenthesis. -/
theorem reads_types_rparen {α : Type} {f : List TypeExpr → Reader α} {b : α} :
    Yields (andThen (types ts) fun args => do
      let _ ← expect .rparen
      f args) b rest ↔
      ∃ args c us, Reads types ts args (c :: us) ∧ c.kind = .rparen ∧ Reads (f args) us b rest := by
  have h : _ ↔ ∃ args us, Reads types ts args us ∧
      Reads (expect .rparen >>= fun _ => f args) us b rest := Yields.andThen_iff
  rw [h]
  simp only [Reads.bind_iff, Reads.expect_iff]
  constructor
  · rintro ⟨args, _, h, c, us, ⟨rfl, hc⟩, hf⟩
    exact ⟨args, c, us, h, hc, hf⟩
  · rintro ⟨args, c, us, h, hc, hf⟩
    exact ⟨args, _, h, c, us, ⟨rfl, hc⟩, hf⟩

section

variable {t : Token} {us : List Token} {a : TypeExpr}

theorem reads_typeExpr_nil : ¬Reads typeExpr [] a rest := by
  rw [Reads, typeExpr.eq_def]
  exact Reads.unexpected_iff.1

theorem reads_typeExpr_tvar (h : t.kind = .tvar) :
    Reads typeExpr (t :: us) a rest ↔ a = .var t.name ∧ rest = us := by
  rw [Reads, typeExpr.eq_def]
  simp [h]

theorem reads_typeExpr_con (h : t.kind = .con) :
    Reads typeExpr (t :: us) a rest ↔ a = .contract t.name ∧ rest = us := by
  rw [Reads, typeExpr.eq_def]
  simp [h]

theorem reads_typeExpr_identifier (h : t.kind = .identifier) :
    Reads typeExpr (t :: us) a rest ↔
      (a = .named t.name ∧ rest = us ∧ headKind us ≠ .lparen) ∨
        ∃ o vs args c, us = o :: vs ∧ o.kind = .lparen ∧ Reads types vs args (c :: rest) ∧
          c.kind = .rparen ∧ a = .app (.named t.name) args := by
  rw [Reads, typeExpr.eq_def]
  simp only [h]
  cases us with
  | nil => simp [headKind_nil]
  | cons o vs =>
    by_cases ho : o.kind = .lparen
    · simp only [ho, if_true, Yields.behind_iff, reads_types_rparen, Reads.pure_iff, headKind_cons]
      constructor
      · rintro ⟨args, c, ws, hargs, hc, rfl, rfl⟩
        exact .inr ⟨o, vs, args, c, rfl, ho, hargs, hc, rfl⟩
      · rintro (⟨-, -, h'⟩ | ⟨o', vs', args, c, ⟨⟩, -, hargs, hc, rfl⟩)
        · exact absurd rfl h'
        · exact ⟨args, c, rest, hargs, hc, rfl, rfl⟩
    · simp only [ho, if_false, Yields.ok_iff, headKind_cons]
      constructor
      · rintro ⟨rfl, rfl⟩
        exact .inl ⟨rfl, rfl, ho⟩
      · rintro (⟨rfl, rfl, -⟩ | ⟨o', vs', args, c, ⟨⟩, ho', -⟩)
        · exact ⟨rfl, rfl⟩
        · exact absurd ho' ho

theorem reads_typeExpr_lparen (h : t.kind = .lparen) :
    Reads typeExpr (t :: us) a rest ↔ headKind rest ≠ .arrow ∧
      ((∃ c, us = c :: rest ∧ c.kind = .rparen ∧ a = .tuple []) ∨
        headKind us ≠ .rparen ∧ ∃ args c, Reads types us args (c :: rest) ∧ c.kind = .rparen ∧
          a = grouped args) := by
  rw [Reads, typeExpr.eq_def]
  simp only [h]
  by_cases hu : (head us).kind = .rparen
  · rw [if_pos hu, Yields.behind_iff]
    have h' : _ ↔ ∃ c vs, Reads (expect .rparen) us c vs ∧ Reads (closed (.tuple [])) vs a rest :=
      Yields.andThen_iff
    simp only [h', Reads.expect_iff, reads_closed]
    have hu' : headKind us = .rparen := hu
    constructor
    · rintro ⟨c, vs, ⟨rfl, hc⟩, rfl, rfl, ha⟩
      exact ⟨ha, .inl ⟨c, rfl, hc, rfl⟩⟩
    · rintro ⟨ha, ⟨c, rfl, hc, rfl⟩ | ⟨h', -⟩⟩
      · exact ⟨c, rest, ⟨rfl, hc⟩, rfl, rfl, ha⟩
      · exact absurd hu' h'
  · simp only [hu, if_false, Yields.behind_iff, reads_types_rparen, reads_closed]
    constructor
    · rintro ⟨args, c, vs, hargs, hc, rfl, rfl, ha⟩
      exact ⟨ha, .inr ⟨hu, args, c, hargs, hc, rfl⟩⟩
    · rintro ⟨ha, ⟨c, rfl, hc, -⟩ | ⟨-, args, c, hargs, hc, rfl⟩⟩
      · exact absurd hc hu
      · exact ⟨args, c, rest, hargs, hc, rfl, rfl, ha⟩

theorem reads_typeExpr_other (h : t.kind ≠ .tvar ∧ t.kind ≠ .con ∧ t.kind ≠ .identifier ∧
    t.kind ≠ .lparen) : ¬Reads typeExpr (t :: us) a rest := by
  obtain ⟨h₁, h₂, h₃, h₄⟩ := h
  rw [Reads, typeExpr.eq_def]
  simp only
  exact Reads.unexpected_iff.1

end

/-! ## Soundness -/

theorem TypesTree.asts_ne_nil (ts : TypesTree) : ts.asts ≠ [] := by
  cases ts <;> simp [TypesTree.asts]

mutual

theorem typeExpr_sound {ts rest : List Token} {a : TypeExpr} (h : Reads typeExpr ts a rest) :
    ∃ d : TypeTree, ts = d.tokens ++ rest ∧ d.ast = a := by
  match ts with
  | [] => exact absurd h reads_typeExpr_nil
  | t :: us =>
    by_cases hv : t.kind = .tvar
    · obtain ⟨rfl, rfl⟩ := (reads_typeExpr_tvar hv).1 h
      exact ⟨.var ⟨t, hv⟩, rfl, rfl⟩
    by_cases hc : t.kind = .con
    · obtain ⟨rfl, rfl⟩ := (reads_typeExpr_con hc).1 h
      exact ⟨.contract ⟨t, hc⟩, rfl, rfl⟩
    by_cases hn : t.kind = .identifier
    · rcases (reads_typeExpr_identifier hn).1 h with
        ⟨rfl, rfl, -⟩ | ⟨o, vs, args, c, rfl, ho, hargs, hc, rfl⟩
      · exact ⟨.named ⟨t, hn⟩, rfl, rfl⟩
      · obtain ⟨d, rfl, rfl⟩ := types_sound hargs
        exact ⟨.app ⟨t, hn⟩ ⟨o, ho⟩ d ⟨c, hc⟩, by simp [TypeTree.tokens], rfl⟩
    by_cases hp : t.kind = .lparen
    · rcases (reads_typeExpr_lparen hp).1 h with
        ⟨-, ⟨c, rfl, hc, rfl⟩ | ⟨-, args, c, hargs, hc, rfl⟩⟩
      · exact ⟨.unit ⟨t, hp⟩ ⟨c, hc⟩, rfl, rfl⟩
      · obtain ⟨d, rfl, rfl⟩ := types_sound hargs
        cases d with
        | one d => exact ⟨.group ⟨t, hp⟩ d ⟨c, hc⟩, by simp [TypeTree.tokens, TypesTree.tokens], rfl⟩
        | more d comma ds =>
          refine ⟨.tuple ⟨t, hp⟩ d comma ds ⟨c, hc⟩,
            by simp [TypeTree.tokens, TypesTree.tokens], ?_⟩
          obtain ⟨b, bs, e⟩ := List.exists_cons_of_ne_nil ds.asts_ne_nil
          rw [TypeTree.ast, TypesTree.asts, e]
          rfl
    · exact absurd h (reads_typeExpr_other ⟨hv, hc, hn, hp⟩)
termination_by (ts.length, 0)

theorem types_sound {ts rest : List Token} {as : List TypeExpr} (h : Reads types ts as rest) :
    ∃ d : TypesTree, ts = d.tokens ++ rest ∧ d.asts = as := by
  obtain ⟨a, us, ha, ⟨rfl, rfl, -⟩ | ⟨t, vs, bs, rfl, ht, hbs, rfl⟩⟩ := reads_types.1 h
  · obtain ⟨d, rfl, rfl⟩ := typeExpr_sound ha
    exact ⟨.one d, rfl, rfl⟩
  · have hlen := ha.length_le
    obtain ⟨d, rfl, rfl⟩ := typeExpr_sound ha
    obtain ⟨ds, rfl, rfl⟩ := types_sound hbs
    exact ⟨.more d ⟨t, ht⟩ ds, by simp [TypesTree.tokens], rfl⟩
termination_by (ts.length, 1)

end

/-! ## Completeness -/

theorem TypesTree.headKind_tokens (ds : TypesTree) (r : List Token) :
    headKind (ds.tokens ++ r) ≠ .rparen := by
  cases ds with
  | one d => exact d.headKind_tokens r
  | more d comma ds =>
    rw [TypesTree.tokens, List.append_assoc]
    exact d.headKind_tokens _

mutual

theorem typeExpr_complete (d : TypeTree) (r : List Token) (hp : headKind r ≠ .lparen)
    (ha : headKind r ≠ .arrow) : Reads typeExpr (d.tokens ++ r) d.ast r := by
  match d with
  | .var v => exact (reads_typeExpr_tvar v.property).2 ⟨rfl, rfl⟩
  | .contract c => exact (reads_typeExpr_con c.property).2 ⟨rfl, rfl⟩
  | .named n => exact (reads_typeExpr_identifier n.property).2 (.inl ⟨rfl, rfl, hp⟩)
  | .app n o args c =>
    have h := types_complete args (c.val :: r) (by simp) (by simp) (by simp)
    refine (reads_typeExpr_identifier n.property).2
      (.inr ⟨o.val, _, args.asts, c.val, rfl, o.property, ?_, c.property, rfl⟩)
    simpa using h
  | .unit o c =>
    exact (reads_typeExpr_lparen o.property).2 ⟨ha, .inl ⟨c.val, rfl, c.property, rfl⟩⟩
  | .group o inner c =>
    have h := typeExpr_complete inner (c.val :: r) (by simp) (by simp)
    refine (reads_typeExpr_lparen o.property).2
      ⟨ha, .inr ⟨?_, [inner.ast], c.val, ?_, c.property, rfl⟩⟩
    · simpa using inner.headKind_tokens (c.val :: r)
    · exact reads_types.2 ⟨_, _, by simpa using h, .inl ⟨rfl, rfl, .inr (by simp)⟩⟩
  | .tuple o first comma rest c =>
    have h := typeExpr_complete first (comma.val :: (rest.tokens ++ c.val :: r)) (by simp) (by simp)
    have hs := types_complete rest (c.val :: r) (by simp) (by simp) (by simp)
    refine (reads_typeExpr_lparen o.property).2
      ⟨ha, .inr ⟨?_, first.ast :: rest.asts, c.val, ?_, c.property, ?_⟩⟩
    · simpa using first.headKind_tokens (comma.val :: (rest.tokens ++ c.val :: r))
    · exact reads_types.2
        ⟨_, _, by simpa using h, .inr ⟨comma.val, _, _, rfl, comma.property, hs, rfl⟩⟩
    · obtain ⟨b, bs, e⟩ := List.exists_cons_of_ne_nil rest.asts_ne_nil
      rw [TypeTree.ast, e]
      rfl

theorem types_complete (ds : TypesTree) (r : List Token) (hp : headKind r ≠ .lparen)
    (ha : headKind r ≠ .arrow) (hc : headKind r ≠ .comma) :
    Reads types (ds.tokens ++ r) ds.asts r := by
  match ds with
  | .one d =>
    exact reads_types.2 ⟨d.ast, r, typeExpr_complete d r hp ha, .inl ⟨rfl, rfl, .inr hc⟩⟩
  | .more d comma ds =>
    refine reads_types.2 ⟨d.ast, comma.val :: (ds.tokens ++ r), ?_, .inr
      ⟨comma.val, _, ds.asts, rfl, comma.property, types_complete ds r hp ha hc, rfl⟩⟩
    simpa [TypesTree.tokens] using
      typeExpr_complete d (comma.val :: (ds.tokens ++ r)) (by simp) (by simp)

end

end ContractInterface.Grammar
