import ContractInterface.Proofs.Grammar.Body
import ContractInterface.Proofs.Grammar.Types

/-!
# Reading declarations

For every nonterminal below a contract: what its reader reads is derived by a tree (`Sound`), and
what a tree derives is read if the tokens behind it cannot belong to it (`Complete`).
-/

namespace ContractInterface.Grammar

open Reader Contract.Parse

section

variable {α β : Type}

/-- Whatever `p` reads is what a tree spells, and the value is what the tree stands for. -/
def Sound (p : Reader β) (f : α → List Token) (g : α → β) : Prop :=
  ∀ ts b rest, Reads p ts b rest → ∃ a, ts = f a ++ rest ∧ g a = b

/-- What a tree spells is read in front of tokens that start as `follow` says. -/
def Complete (follow : TokenKind → Prop) (p : Reader β) (f : α → List Token) (g : α → β) : Prop :=
  ∀ a r, follow (headKind r) → Reads p (f a ++ r) (g a) r

variable {p : Reader β} {f : α → List Token} {g : α → β} {k : TokenKind}

theorem reads_sepBy_sound (hp : Sound p f g) {ts rest : List Token} {bs : List β}
    (h : Reads (sepBy k p) ts bs rest) :
    ∃ as : Separated k α, ts = as.tokens f ++ rest ∧ as.map g = bs := by
  obtain ⟨b, us, hb, ⟨rfl, rfl, -⟩ | ⟨t, vs, cs, rfl, ht, hcs, rfl⟩⟩ := Reads.sepBy_iff.1 h
  · obtain ⟨a, rfl, rfl⟩ := hp _ _ _ hb
    exact ⟨.one a, rfl, rfl⟩
  · have hlen := hb.length_le
    obtain ⟨as, rfl, rfl⟩ := reads_sepBy_sound hp hcs
    obtain ⟨a, rfl, rfl⟩ := hp _ _ _ hb
    exact ⟨.more a ⟨t, ht⟩ as, by simp [Separated.tokens], rfl⟩
termination_by ts.length

theorem Sound.sepBy (hp : Sound p f g) :
    Sound (sepBy k p) (Separated.tokens (k := k) f) (Separated.map g) :=
  fun _ _ _ h => reads_sepBy_sound hp h

theorem Complete.mono {follow follow' : TokenKind → Prop} (hp : Complete follow p f g)
    (h : ∀ j, follow' j → follow j) : Complete follow' p f g :=
  fun a r hr => hp a r (h _ hr)

theorem Complete.sepBy {follow : TokenKind → Prop}
    (hp : Complete (fun j => j = k ∨ follow j) p f g) :
    Complete (fun j => j ≠ k ∧ follow j) (sepBy k p) (Separated.tokens (k := k) f)
      (Separated.map g) := by
  intro as r hr
  induction as with
  | one a => exact Reads.sepBy_iff.2 ⟨g a, r, hp a r (.inr hr.2), .inl ⟨rfl, rfl, .inr hr.1⟩⟩
  | more a sep rest ih =>
    refine Reads.sepBy_iff.2 ⟨g a, sep.val :: (rest.tokens f ++ r), ?_, .inr
      ⟨sep.val, _, rest.map g, rfl, sep.property, ih, rfl⟩⟩
    have h := hp a (sep.val :: (rest.tokens f ++ r)) (.inl sep.property)
    simpa [Separated.tokens] using h

end

/-! ## Heads of type definitions -/

theorem sound_typeVar : Sound (Token.name <$> expect .tvar) (fun v : Lexeme .tvar => [v.val])
    fun v => v.val.name := by
  intro ts n rest h
  simp only [Reads.map_iff, Reads.expect_iff] at h
  obtain ⟨t, ⟨rfl, ht⟩, rfl⟩ := h
  exact ⟨⟨t, ht⟩, rfl, rfl⟩

theorem complete_typeVar : Complete (fun _ => True) (Token.name <$> expect .tvar)
    (fun v : Lexeme .tvar => [v.val]) fun v => v.val.name := by
  intro v r _
  exact Reads.map_iff.2 ⟨v.val, Reads.expect_iff.2 ⟨rfl, v.property⟩, rfl⟩

theorem sound_typeParams : Sound typeParams TypeParamsTree.tokens TypeParamsTree.names := by
  intro ts vs rest h
  simp only [typeParams, Reads.bind_iff, Reads.accept_iff (show TokenKind.lparen ≠ .finish by simp)]
    at h
  obtain ⟨b, us, ⟨rfl, t, rfl, ht⟩ | ⟨rfl, rfl, -⟩, h⟩ := h
  · simp only [if_true, Reads.bind_iff, Reads.expect_iff, Reads.pure_iff] at h
    obtain ⟨ns, ws, hns, c, xs, ⟨rfl, hc⟩, rfl, rfl⟩ := h
    obtain ⟨d, rfl, rfl⟩ := sound_typeVar.sepBy _ _ _ hns
    exact ⟨some ⟨⟨t, ht⟩, d, ⟨c, hc⟩⟩, by simp [TypeParamsTree.tokens, optional, Parens.tokens], rfl⟩
  · simp at h
    obtain ⟨rfl, rfl⟩ := h
    exact ⟨none, rfl, rfl⟩

theorem complete_typeParams : Complete (· ≠ .lparen) typeParams TypeParamsTree.tokens
    TypeParamsTree.names := by
  intro o r hr
  simp only [typeParams, Reads.bind_iff, Reads.accept_iff (show TokenKind.lparen ≠ .finish by simp)]
  cases o with
  | none => exact ⟨false, r, .inr ⟨rfl, rfl, hr⟩, by simp [TypeParamsTree.names]⟩
  | some p =>
    have hvars : Complete (fun j => j ≠ .comma ∧ True) (sepBy .comma (Token.name <$> expect .tvar))
        (Separated.tokens fun v : Lexeme .tvar => [v.val])
        (Separated.map fun v : Lexeme .tvar => v.val.name) :=
      (complete_typeVar.mono fun _ _ => trivial).sepBy
    refine ⟨true, _, .inl ⟨rfl, p.opening.val, rfl, p.opening.property⟩, ?_⟩
    simp only [if_true, Reads.bind_iff, Reads.expect_iff, Reads.pure_iff]
    have h := hvars p.inner (p.closing.val :: r) (by simp)
    exact ⟨p.inner.map fun v => v.val.name, p.closing.val :: r, by simpa using h, p.closing.val, r,
      ⟨rfl, p.closing.property⟩, rfl, rfl⟩

theorem sound_typeHead : Sound typeHead HeadTree.tokens HeadTree.ast := by
  intro ts b rest h
  simp only [typeHead, Reads.bind_iff, Reads.expect_iff, Reads.pure_iff] at h
  obtain ⟨n, us, ⟨rfl, hn⟩, vs, ws, hvs, e, xs, ⟨rfl, he⟩, rfl, rfl⟩ := h
  obtain ⟨o, rfl, rfl⟩ := sound_typeParams _ _ _ hvs
  exact ⟨⟨⟨n, hn⟩, o, ⟨e, he⟩⟩, by simp [HeadTree.tokens], rfl⟩

theorem complete_typeHead : Complete (fun _ => True) typeHead HeadTree.tokens HeadTree.ast := by
  intro d r _
  simp only [typeHead, Reads.bind_iff, Reads.expect_iff, Reads.pure_iff]
  have h := complete_typeParams d.params (d.eq.val :: r) (by simp)
  exact ⟨d.name.val, _, ⟨rfl, d.name.property⟩, d.params.names, d.eq.val :: r,
    by simpa using h, d.eq.val, r, ⟨rfl, d.eq.property⟩, rfl, rfl⟩

/-! ## Fields and constructors -/

theorem sound_recordField : Sound recordField FieldTree.tokens FieldTree.ast := by
  intro ts b rest h
  simp only [recordField, Reads.bind_iff, Reads.expect_iff, Reads.pure_iff] at h
  obtain ⟨n, us, ⟨rfl, hn⟩, c, vs, ⟨rfl, hc⟩, t, ws, ht, rfl, rfl⟩ := h
  obtain ⟨d, rfl, rfl⟩ := typeExpr_sound ht
  exact ⟨⟨⟨n, hn⟩, ⟨c, hc⟩, d⟩, rfl, rfl⟩

theorem complete_recordField : Complete (fun j => j ≠ .lparen ∧ j ≠ .arrow) recordField
    FieldTree.tokens FieldTree.ast := by
  intro d r hr
  simp only [recordField, Reads.bind_iff, Reads.expect_iff, Reads.pure_iff]
  exact ⟨d.label.val, _, ⟨rfl, d.label.property⟩, d.colon.val, _, ⟨rfl, d.colon.property⟩,
    d.type.ast, r, typeExpr_complete d.type r hr.1 hr.2, rfl, rfl⟩

theorem sound_typeArgs : Sound typeArgs (Parens.tokens TypesTree.tokens) fun p => p.inner.asts := by
  intro ts b rest h
  simp only [typeArgs, Reads.bind_iff, Reads.expect_iff, Reads.pure_iff] at h
  obtain ⟨o, us, ⟨rfl, ho⟩, as, vs, has, c, ws, ⟨rfl, hc⟩, rfl, rfl⟩ := h
  obtain ⟨d, rfl, rfl⟩ := types_sound has
  exact ⟨⟨⟨o, ho⟩, d, ⟨c, hc⟩⟩, by simp [Parens.tokens], rfl⟩

theorem complete_typeArgs : Complete (fun _ => True) typeArgs (Parens.tokens TypesTree.tokens)
    fun p => p.inner.asts := by
  intro d r _
  simp only [typeArgs, Reads.bind_iff, Reads.expect_iff, Reads.pure_iff]
  have h := types_complete d.inner (d.closing.val :: r) (by simp) (by simp) (by simp)
  exact ⟨d.opening.val, _, ⟨rfl, d.opening.property⟩, d.inner.asts, d.closing.val :: r,
    by simpa using h, d.closing.val, r, ⟨rfl, d.closing.property⟩, rfl, rfl⟩

theorem sound_constructor : Sound constructor ConstrTree.tokens ConstrTree.ast := by
  intro ts b rest h
  simp only [constructor, Reads.bind_iff, Reads.expect_iff, Reads.peek_iff] at h
  obtain ⟨n, us, ⟨rfl, hn⟩, p, vs, ⟨rfl, rfl⟩, h⟩ := h
  split at h
  · simp only [Reads.bind_iff, Reads.pure_iff] at h
    obtain ⟨as, ws, has, rfl, rfl⟩ := h
    obtain ⟨d, rfl, rfl⟩ := sound_typeArgs _ _ _ has
    exact ⟨⟨⟨n, hn⟩, some d⟩, rfl, rfl⟩
  · simp only [Reads.bind_iff, Reads.pure_iff] at h
    obtain ⟨as, ws, ⟨rfl, rfl⟩, rfl, rfl⟩ := h
    exact ⟨⟨⟨n, hn⟩, none⟩, rfl, rfl⟩

theorem complete_constructor : Complete (· ≠ .lparen) constructor ConstrTree.tokens
    ConstrTree.ast := by
  rintro ⟨n, o⟩ r hr
  simp only [constructor, Reads.bind_iff, Reads.expect_iff, Reads.peek_iff]
  refine ⟨n.val, optional (Parens.tokens TypesTree.tokens) o ++ r, ⟨rfl, n.property⟩, _, _,
    ⟨rfl, rfl⟩, ?_⟩
  cases o with
  | none =>
    have h : ¬(head r).kind = .lparen := hr
    simp [optional, h, ConstrTree.ast]
  | some p =>
    have h : (head (p.tokens TypesTree.tokens ++ r)).kind = .lparen := p.opening.property
    simp only [optional, h, if_true, Reads.bind_iff, Reads.pure_iff]
    exact ⟨_, r, complete_typeArgs p r trivial, rfl, rfl⟩

/-! ## Ascriptions and arguments -/

/-- A type behind a colon, if there is a colon. -/
theorem reads_ascription {α : Type} {f : Option TypeExpr → Reader α} {ts rest : List Token}
    {b : α} :
    Reads (accept .colon >>= fun c => if c = true then some <$> typeExpr >>= f else
      Pure.pure none >>= f) ts b rest ↔
      ∃ o us, (o = none ∧ us = ts ∧ headKind ts ≠ .colon ∨
        ∃ t vs a, ts = t :: vs ∧ t.kind = .colon ∧ Reads typeExpr vs a us ∧ o = some a) ∧
        Reads (f o) us b rest := by
  simp only [Reads.bind_iff, Reads.accept_iff (show TokenKind.colon ≠ .finish by simp)]
  constructor
  · rintro ⟨c, us, ⟨rfl, t, rfl, ht⟩ | ⟨rfl, rfl, hc⟩, h⟩
    · simp only [if_true, Reads.bind_iff, Reads.map_iff] at h
      obtain ⟨o, vs, ⟨a, ha, rfl⟩, h⟩ := h
      exact ⟨some a, vs, .inr ⟨t, us, a, rfl, ht, ha, rfl⟩, h⟩
    · simp only [Bool.false_eq_true, if_false, Reads.bind_iff, Reads.pure_iff] at h
      obtain ⟨o, vs, ⟨rfl, rfl⟩, h⟩ := h
      exact ⟨none, vs, .inl ⟨rfl, rfl, hc⟩, h⟩
  · rintro ⟨o, us, ⟨rfl, rfl, hc⟩ | ⟨t, vs, a, rfl, ht, ha, rfl⟩, h⟩
    · refine ⟨false, us, .inr ⟨rfl, rfl, hc⟩, ?_⟩
      simp only [Bool.false_eq_true, if_false, Reads.bind_iff, Reads.pure_iff]
      exact ⟨none, us, ⟨rfl, rfl⟩, h⟩
    · refine ⟨true, vs, .inl ⟨rfl, t, rfl, ht⟩, ?_⟩
      simp only [if_true, Reads.bind_iff, Reads.map_iff]
      exact ⟨some a, us, ⟨a, ha, rfl⟩, h⟩

section

variable {α : Type} {f : Option TypeExpr → Reader α} {ts rest : List Token} {b : α}

theorem reads_ascription_sound (h : Reads (accept .colon >>= fun c =>
    if c = true then some <$> typeExpr >>= f else Pure.pure none >>= f) ts b rest) :
    ∃ (o : Ascription) (us : List Token), ts = o.tokens ++ us ∧ Reads (f o.ast) us b rest := by
  obtain ⟨o, us, ⟨rfl, rfl, hc⟩ | ⟨t, vs, a, rfl, ht, ha, rfl⟩, h'⟩ := reads_ascription.1 h
  · exact ⟨none, us, rfl, h'⟩
  · obtain ⟨d, rfl, rfl⟩ := typeExpr_sound ha
    exact ⟨some (⟨t, ht⟩, d), us, rfl, h'⟩

theorem reads_ascription_complete {us : List Token} (o : Ascription)
    (hus : headKind us ≠ .colon ∧ headKind us ≠ .lparen ∧ headKind us ≠ .arrow)
    (h : Reads (f o.ast) us b rest) : Reads (accept .colon >>= fun c =>
      if c = true then some <$> typeExpr >>= f else Pure.pure none >>= f) (o.tokens ++ us) b rest := by
  refine reads_ascription.2 ⟨o.ast, us, ?_, h⟩
  cases o with
  | none => exact .inl ⟨rfl, rfl, hus.1⟩
  | some p => exact .inr ⟨p.1.val, p.2.tokens ++ us, p.2.ast, rfl, p.1.property,
      typeExpr_complete p.2 us hus.2.1 hus.2.2, rfl⟩

end

theorem sound_param : Sound param ArgTree.tokens ArgTree.ast := by
  intro ts b rest h
  obtain ⟨n, us, hn, h₁⟩ := Reads.bind_iff.1 h
  obtain ⟨rfl, hk⟩ := Reads.expect_iff.1 hn
  obtain ⟨o, vs, rfl, h₂⟩ := reads_ascription_sound
    (f := fun type => Pure.pure (Param.mk (.named n.name) type (some n.pos))) h₁
  obtain ⟨rfl, rfl⟩ := Reads.pure_iff.1 h₂
  exact ⟨⟨⟨n, hk⟩, o⟩, rfl, rfl⟩

theorem complete_param : Complete (fun j => j ≠ .colon ∧ j ≠ .lparen ∧ j ≠ .arrow) param
    ArgTree.tokens ArgTree.ast := by
  intro d r hr
  refine Reads.bind_iff.2 ⟨d.name.val, _, Reads.expect_iff.2 ⟨rfl, d.name.property⟩, ?_⟩
  exact reads_ascription_complete
    (f := fun type => Pure.pure (Param.mk (.named d.name.val.name) type (some d.name.val.pos)))
    d.type hr
    (Reads.pure_iff.2 ⟨rfl, rfl⟩)

theorem sound_params : Sound params ArgsTree.tokens ArgsTree.params := by
  intro ts b rest h
  simp only [params, Reads.bind_iff, Reads.expect_iff,
    Reads.accept_iff (show TokenKind.rparen ≠ .finish by simp)] at h
  obtain ⟨o, us, ⟨rfl, ho⟩, c, vs, ⟨rfl, t, rfl, ht⟩ | ⟨rfl, rfl, -⟩, h⟩ := h
  · simp at h
    obtain ⟨rfl, rfl⟩ := h
    exact ⟨⟨⟨o, ho⟩, none, ⟨t, ht⟩⟩, rfl, rfl⟩
  · simp only [Bool.false_eq_true, if_false, Reads.bind_iff, Reads.expect_iff, Reads.pure_iff] at h
    obtain ⟨as, ws, has, c, xs, ⟨rfl, hc⟩, rfl, rfl⟩ := h
    obtain ⟨d, rfl, rfl⟩ := sound_param.sepBy _ _ _ has
    exact ⟨⟨⟨o, ho⟩, some d, ⟨c, hc⟩⟩, by simp [ArgsTree.tokens, Parens.tokens, optional], rfl⟩

theorem complete_params : Complete (fun _ => True) params ArgsTree.tokens ArgsTree.params := by
  rintro ⟨o, as, c⟩ r -
  simp only [params, Reads.bind_iff, Reads.expect_iff,
    Reads.accept_iff (show TokenKind.rparen ≠ .finish by simp)]
  refine ⟨o.val, _, ⟨rfl, o.property⟩, ?_⟩
  cases as with
  | none => exact ⟨true, r, .inl ⟨rfl, c.val, rfl, c.property⟩, by simp [ArgsTree.params]⟩
  | some as =>
    have hparam : Complete (fun j => j = .comma ∨ j = .rparen) param ArgTree.tokens ArgTree.ast :=
      complete_param.mono (by rintro j (rfl | rfl) <;> simp)
    have h := hparam.sepBy as (c.val :: r) (by simp)
    refine ⟨false, _, .inr ⟨rfl, rfl, ?_⟩, ?_⟩
    · cases as <;> simp [optional, Separated.tokens, ArgTree.tokens]
    · simp only [Bool.false_eq_true, if_false, Reads.bind_iff, Reads.expect_iff, Reads.pure_iff]
      exact ⟨as.map ArgTree.ast, c.val :: r, by simpa [optional] using h, c.val, r,
        ⟨rfl, c.property⟩, rfl, rfl⟩

/-! ## Functions -/

theorem functionRest_sound {pos : Position} {ms : List TokenKind} {ts rest : List Token}
    {d : FunctionDef} (mods : List { t : Token // t.kind.isModifier = true })
    (k : Lexeme .kwFunction) (h : Reads (functionRest pos ms) ts d rest) :
    ∃ f : FunctionTree, f.modifiers = mods ∧ f.keyword = k ∧ ts = f.restTokens ++ rest ∧
      d = ⟨f.name.val.name, f.args.params, f.result.ast, f.body.val, ms.contains .kwPrivate,
        ms.contains .kwStateful, some pos⟩ := by
  obtain ⟨n, us, hn, h₁⟩ := Reads.bind_iff.1 h
  obtain ⟨rfl, hn'⟩ := Reads.expect_iff.1 hn
  obtain ⟨ps, vs, hps, h₂⟩ := Reads.bind_iff.1 h₁
  obtain ⟨as, rfl, rfl⟩ := sound_params _ _ _ hps
  obtain ⟨o, ws, rfl, h₃⟩ := reads_ascription_sound (f := fun result => do
    let _ ← expect .eq
    let tokens ← body
    return FunctionDef.mk n.name as.params result tokens (ms.contains .kwPrivate)
      (ms.contains .kwStateful) (some pos)) h₂
  simp only [Reads.bind_iff, Reads.expect_iff, Reads.pure_iff] at h₃
  obtain ⟨e, xs, ⟨rfl, he⟩, w, ys, hw, rfl, rfl⟩ := h₃
  obtain ⟨rfl, hbody, -⟩ := reads_body.1 hw
  exact ⟨⟨mods, k, ⟨n, hn'⟩, as, o, ⟨e, he⟩, ⟨w, hbody⟩⟩, rfl, rfl,
    by simp [FunctionTree.restTokens], rfl⟩

theorem functionRest_complete {pos : Position} {ms : List TokenKind} (f : FunctionTree)
    (r : List Token) (hr : EndsDecl (headKind r)) :
    Reads (functionRest pos ms) (f.restTokens ++ r)
      ⟨f.name.val.name, f.args.params, f.result.ast, f.body.val, ms.contains .kwPrivate,
        ms.contains .kwStateful, some pos⟩ r := by
  obtain ⟨mods, k, n, as, o, e, w⟩ := f
  have hparams := complete_params as (o.tokens ++ e.val :: (w.val ++ r)) trivial
  refine Reads.bind_iff.2 ⟨n.val, _, Reads.expect_iff.2 ⟨rfl, n.property⟩,
    Reads.bind_iff.2 ⟨as.params, _, by simpa using hparams, ?_⟩⟩
  refine reads_ascription_complete (f := fun result => do
    let _ ← expect .eq
    let tokens ← body
    return FunctionDef.mk n.val.name as.params result tokens (ms.contains .kwPrivate)
      (ms.contains .kwStateful) (some pos)) o (by simp) ?_
  simp only [Reads.bind_iff, Reads.expect_iff, Reads.pure_iff]
  exact ⟨e.val, _, ⟨rfl, e.property⟩, w.val, r, reads_body.2 ⟨rfl, w.property, hr⟩, rfl, rfl⟩

theorem FunctionTree.contains_eq_has {j : TokenKind} (f : FunctionTree) :
    (f.modifiers.map fun m => m.val.kind).contains j = f.has j := by
  rw [List.contains_eq_any_beq, FunctionTree.has, List.any_map]
  exact congrArg f.modifiers.any (funext fun m => Bool.beq_comm)

theorem functionDef_sound {t : Token} {us rest : List Token} {d : FunctionDef}
    (ht : t.kind.isModifier = true ∨ t.kind = .kwFunction)
    (h : Reads (functionDef t) us d rest) :
    ∃ f : FunctionTree, t :: us = f.tokens ++ rest ∧ f.ast = d := by
  unfold functionDef at h
  split at h
  · next hk =>
    obtain ⟨f, hm, hf, rfl, rfl⟩ := functionRest_sound [] ⟨t, hk⟩ h
    refine ⟨f, by simp [FunctionTree.tokens, hm, hf], ?_⟩
    simp [FunctionTree.ast, FunctionTree.has, FunctionTree.pos, hm, hf]
  · next hk =>
    have hm := ht.resolve_right hk
    obtain ⟨ks, vs, hks, h₁⟩ := Reads.bind_iff.1 h
    obtain ⟨ms, rfl, -, rfl⟩ := reads_modifiers.1 hks
    obtain ⟨k, ws, hw, h₂⟩ := Reads.bind_iff.1 h₁
    obtain ⟨rfl, hk'⟩ := Reads.expect_iff.1 hw
    obtain ⟨f, hf, hkey, rfl, rfl⟩ := functionRest_sound (⟨t, hm⟩ :: ms) ⟨k, hk'⟩ h₂
    refine ⟨f, by simp [FunctionTree.tokens, hf, hkey], ?_⟩
    have he (j : TokenKind) : (t.kind :: ms.map fun m => m.val.kind).contains j = f.has j := by
      rw [← f.contains_eq_has, hf]
      rfl
    rw [FunctionTree.ast, he, he, FunctionTree.pos, hf]

theorem functionDef_complete (f : FunctionTree) (r : List Token) (hr : EndsDecl (headKind r)) :
    ∃ t us, f.tokens ++ r = t :: us ∧ (t.kind.isModifier = true ∨ t.kind = .kwFunction) ∧
      Reads (functionDef t) us f.ast r := by
  have hrest (pos : Position) (ms : List TokenKind) (hpos : pos = f.pos)
      (hms : ∀ j, ms.contains j = f.has j) : Reads (functionRest pos ms) (f.restTokens ++ r)
        f.ast r := by
    subst hpos
    have h : Reads (functionRest f.pos ms) (f.restTokens ++ r) _ r := functionRest_complete f r hr
    rwa [hms, hms] at h
  cases hm : f.modifiers with
  | nil =>
    refine ⟨f.keyword.val, f.restTokens ++ r, by simp [FunctionTree.tokens, hm],
      .inr f.keyword.property, ?_⟩
    unfold functionDef
    rw [if_pos f.keyword.property]
    exact hrest _ _ (by simp [FunctionTree.pos, hm]) fun j => by simp [FunctionTree.has, hm]
  | cons m ms =>
    refine ⟨m.val, ms.map Subtype.val ++ f.keyword.val :: (f.restTokens ++ r),
      by simp [FunctionTree.tokens, hm], .inl m.property, ?_⟩
    have hne : m.val.kind ≠ .kwFunction := by
      intro h
      have := m.property
      rw [h] at this
      cases this
    unfold functionDef
    rw [if_neg hne]
    refine Reads.bind_iff.2 ⟨ms.map fun m => m.val.kind, f.keyword.val :: (f.restTokens ++ r),
      reads_modifiers.2 ⟨ms, rfl, by simp [TokenKind.isModifier], rfl⟩, ?_⟩
    refine Reads.bind_iff.2 ⟨f.keyword.val, f.restTokens ++ r,
      Reads.expect_iff.2 ⟨rfl, f.keyword.property⟩, ?_⟩
    refine hrest _ _ (by simp [FunctionTree.pos, hm]) fun j => ?_
    rw [← f.contains_eq_has, hm]
    rfl

/-! ## Type definitions -/

theorem reads_aliasDef {known : List String} {pos : Position} {ts rest : List Token}
    {d : TypeDef} : Reads (aliasDef known pos) ts d rest ↔
      ∃ h us t, Reads typeHead ts h us ∧ Reads typeExpr us t rest ∧
        d = ⟨h.1, h.2, .synonym t, some pos⟩ ∧ AliasAmong known d := by
  have hamong {n : Name} {vs : List Name} {t : TypeExpr} :
      AliasAmong known ⟨n, vs, .synonym t, some pos⟩ ↔ ∀ c, t = .contract c → c.text ∈ known := by
    simp [AliasAmong]
  unfold aliasDef
  constructor
  · intro h
    obtain ⟨⟨n, vs⟩, us, hhead, h₁⟩ := Reads.bind_iff.1 h
    obtain ⟨_, _, hpeek, h₂⟩ := Reads.bind_iff.1 h₁
    obtain ⟨rfl, rfl⟩ := Reads.peek_iff.1 hpeek
    obtain ⟨t, ws, ht, h₃⟩ := Reads.bind_iff.1 h₂
    split at h₃
    · next con =>
      split at h₃
      · next hcon =>
        obtain ⟨rfl, rfl⟩ := Reads.pure_iff.1 h₃
        refine ⟨(n, vs), _, _, hhead, ht, rfl, hamong.2 ?_⟩
        rintro c ⟨⟩
        simpa using hcon
      · exact (Yields.error_iff.1 h₃).elim
    · next hcon =>
      obtain ⟨rfl, rfl⟩ := Reads.pure_iff.1 h₃
      refine ⟨(n, vs), _, _, hhead, ht, rfl, hamong.2 ?_⟩
      rintro c rfl
      exact (hcon c rfl).elim
  · rintro ⟨⟨n, vs⟩, us, t, hhead, ht, rfl, ha⟩
    refine Reads.bind_iff.2 ⟨_, us, hhead, Reads.bind_iff.2 ⟨_, us, Reads.peek_iff.2 ⟨rfl, rfl⟩,
      Reads.bind_iff.2 ⟨t, rest, ht, ?_⟩⟩⟩
    split
    · next con =>
      have hcon := hamong.1 ha con rfl
      rw [if_pos (by simpa using hcon)]
      exact Reads.pure_iff.2 ⟨rfl, rfl⟩
    · exact Reads.pure_iff.2 ⟨rfl, rfl⟩

/-! ## Declarations -/

theorem reads_recordDef_sound {pos : Position} {ts rest : List Token} {d : TypeDef}
    (h : Reads (recordDef pos) ts d rest) :
    ∃ (hd : HeadTree) (o : Lexeme .lbrace) (fs : Separated .comma FieldTree) (c : Lexeme .rbrace),
      ts = hd.tokens ++ o.val :: (fs.tokens FieldTree.tokens ++ c.val :: rest) ∧
        d = ⟨hd.ast.1, hd.ast.2, .record (fs.map FieldTree.ast), some pos⟩ := by
  simp only [recordDef, Reads.bind_iff, Reads.expect_iff, Reads.pure_iff] at h
  obtain ⟨⟨n, vs⟩, us, hhead, o, ws, ⟨rfl, ho⟩, fs, xs, hfs, c, ys, ⟨rfl, hc⟩, rfl, rfl⟩ := h
  obtain ⟨hd, rfl, e⟩ := sound_typeHead _ _ _ hhead
  obtain ⟨d, rfl, rfl⟩ := sound_recordField.sepBy _ _ _ hfs
  exact ⟨hd, ⟨o, ho⟩, d, ⟨c, hc⟩, rfl, by rw [e]⟩

theorem reads_recordDef_complete {pos : Position} (hd : HeadTree) (o : Lexeme .lbrace)
    (fs : Separated .comma FieldTree) (c : Lexeme .rbrace) (r : List Token) :
    Reads (recordDef pos) (hd.tokens ++ o.val :: (fs.tokens FieldTree.tokens ++ c.val :: r))
      ⟨hd.ast.1, hd.ast.2, .record (fs.map FieldTree.ast), some pos⟩ r := by
  simp only [recordDef, Reads.bind_iff, Reads.expect_iff, Reads.pure_iff]
  have hfield : Complete (fun j => j = .comma ∨ j = .rbrace) recordField FieldTree.tokens
      FieldTree.ast := complete_recordField.mono (by rintro j (rfl | rfl) <;> simp)
  exact ⟨hd.ast, _, complete_typeHead hd _ trivial, o.val, _, ⟨rfl, o.property⟩,
    fs.map FieldTree.ast, c.val :: r, hfield.sepBy fs (c.val :: r) (by simp), c.val, r,
    ⟨rfl, c.property⟩, rfl, rfl⟩

theorem reads_datatypeDef_sound {pos : Position} {ts rest : List Token} {d : TypeDef}
    (h : Reads (datatypeDef pos) ts d rest) :
    ∃ (hd : HeadTree) (cs : Separated .bar ConstrTree),
      ts = hd.tokens ++ (cs.tokens ConstrTree.tokens ++ rest) ∧
        d = ⟨hd.ast.1, hd.ast.2, .variant (cs.map ConstrTree.ast), some pos⟩ := by
  simp only [datatypeDef, Reads.bind_iff, Reads.pure_iff] at h
  obtain ⟨⟨n, vs⟩, us, hhead, cs, ws, hcs, rfl, rfl⟩ := h
  obtain ⟨hd, rfl, e⟩ := sound_typeHead _ _ _ hhead
  obtain ⟨d, rfl, rfl⟩ := sound_constructor.sepBy _ _ _ hcs
  exact ⟨hd, d, rfl, by rw [e]⟩

theorem reads_datatypeDef_complete {pos : Position} (hd : HeadTree)
    (cs : Separated .bar ConstrTree) (r : List Token)
    (hr : headKind r ≠ .bar ∧ headKind r ≠ .lparen) :
    Reads (datatypeDef pos) (hd.tokens ++ (cs.tokens ConstrTree.tokens ++ r))
      ⟨hd.ast.1, hd.ast.2, .variant (cs.map ConstrTree.ast), some pos⟩ r := by
  simp only [datatypeDef, Reads.bind_iff, Reads.pure_iff]
  have hconstr : Complete (fun j => j = .bar ∨ j ≠ .lparen) constructor ConstrTree.tokens
      ConstrTree.ast := by
    refine complete_constructor.mono ?_
    rintro j (rfl | hj)
    · simp
    · exact hj
  exact ⟨hd.ast, _, complete_typeHead hd _ trivial, cs.map ConstrTree.ast, r,
    hconstr.sepBy cs r hr, rfl, rfl⟩

/-! ## Declarations -/

/-- An alias for a bare capitalized name is for one that is known. -/
def DeclTree.Settled (known : List String) (D : DeclTree) : Prop :=
  ∀ td, D.ast.typeDef? = some td → AliasAmong known td

theorem decl_sound {known : List String} {t : Token} {us rest : List Token} {d : Decl}
    (ht : t.kind.startsDecl = true) (h : Reads (decl known t) us d rest) :
    ∃ D : DeclTree, t :: us = D.tokens ++ rest ∧ D.ast = d ∧ D.Settled known := by
  -- only an alias can be for a bare capitalized name
  have other {n : Name} {vs : List Name} {b : TypeExpr} {pos : Option Position}
      (hb : ∀ u, b ≠ .synonym u) (td : TypeDef)
      (htd : (Decl.typeDef ⟨n, vs, b, pos⟩).typeDef? = some td) : AliasAmong known td := by
    cases htd
    exact fun c hc => absurd hc (hb _)
  unfold decl at h
  split at h
  · next hk =>
    obtain ⟨td, htd, rfl⟩ := Reads.map_iff.1 h
    obtain ⟨hd, vs, u, hhead, hu, rfl, ha⟩ := reads_aliasDef.1 htd
    obtain ⟨hd, rfl, rfl⟩ := sound_typeHead _ _ _ hhead
    obtain ⟨T, rfl, rfl⟩ := typeExpr_sound hu
    refine ⟨.synonym ⟨t, hk⟩ hd T, by simp [DeclTree.tokens], rfl, ?_⟩
    rintro td ⟨⟩
    exact ha
  · next hk =>
    obtain ⟨td, htd, rfl⟩ := Reads.map_iff.1 h
    obtain ⟨hd, o, fs, c, rfl, rfl⟩ := reads_recordDef_sound htd
    exact ⟨.record ⟨t, hk⟩ hd o fs c, by simp [DeclTree.tokens], rfl, other (by simp)⟩
  · next hk =>
    obtain ⟨td, htd, rfl⟩ := Reads.map_iff.1 h
    obtain ⟨hd, cs, rfl, rfl⟩ := reads_datatypeDef_sound htd
    exact ⟨.datatype ⟨t, hk⟩ hd cs, by simp [DeclTree.tokens], rfl, other (by simp)⟩
  · next h₁ h₂ h₃ =>
    obtain ⟨fd, hfd, rfl⟩ := Reads.map_iff.1 h
    have hk : t.kind.isModifier = true ∨ t.kind = .kwFunction := by
      generalize t.kind = j at *
      cases j <;> simp_all [TokenKind.startsDecl, TokenKind.isModifier]
    obtain ⟨f, hf, rfl⟩ := functionDef_sound hk hfd
    refine ⟨.function f, hf, rfl, ?_⟩
    rintro td ⟨⟩

theorem decl_complete (known : List String) (D : DeclTree) (r : List Token)
    (hr : EndsDecl (headKind r)) (ha : D.Settled known) :
    ∃ t us, D.tokens ++ r = t :: us ∧ t.kind.startsDecl = true ∧
      Reads (decl known t) us D.ast r := by
  cases D with
  | synonym k hd T =>
    refine ⟨k.val, hd.tokens ++ (T.tokens ++ r), by simp [DeclTree.tokens], by simp; rfl, ?_⟩
    simp only [decl, k.property]
    refine Reads.map_iff.2 ⟨_, reads_aliasDef.2 ⟨hd.ast, T.tokens ++ r, T.ast,
      complete_typeHead hd _ trivial, typeExpr_complete T r ?_ ?_, rfl, ha _ rfl⟩, rfl⟩
    · exact hr.ne rfl (by simp) (by simp)
    · exact hr.ne rfl (by simp) (by simp)
  | record k hd o fs c =>
    refine ⟨k.val, hd.tokens ++ o.val :: (fs.tokens FieldTree.tokens ++ c.val :: r),
      by simp [DeclTree.tokens], by simp; rfl, ?_⟩
    simp only [decl, k.property]
    exact Reads.map_iff.2 ⟨_, reads_recordDef_complete hd o fs c r, rfl⟩
  | datatype k hd cs =>
    refine ⟨k.val, hd.tokens ++ (cs.tokens ConstrTree.tokens ++ r), by simp [DeclTree.tokens],
      by simp; rfl, ?_⟩
    simp only [decl, k.property]
    refine Reads.map_iff.2 ⟨_, reads_datatypeDef_complete hd cs r ⟨?_, ?_⟩, rfl⟩
    · exact hr.ne rfl (by simp) (by simp)
    · exact hr.ne rfl (by simp) (by simp)
  | function f =>
    obtain ⟨t, us, e, ht, hf⟩ := functionDef_complete f r hr
    refine ⟨t, us, e, ?_, ?_⟩
    · generalize t.kind = j at ht
      cases j <;> simp_all [TokenKind.startsDecl, TokenKind.isModifier]
    · have hd : decl known t = (Decl.function <$> functionDef t) := by
        unfold decl
        generalize hj : t.kind = j at ht
        cases j <;> simp_all [TokenKind.isModifier]
      rw [hd]
      exact Reads.map_iff.2 ⟨_, hf, rfl⟩

end ContractInterface.Grammar
