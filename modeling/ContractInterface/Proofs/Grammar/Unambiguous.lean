import ContractInterface.Proofs.Grammar

/-!
# The grammar is unambiguous

Two trees of one nonterminal that spell beginnings of the same token list are one tree, provided
that what follows them cannot belong to them (`Unique`).

    u.tokens = v.tokens → u = v        (UnitTree.tokens_injective)
-/

namespace ContractInterface.Grammar

open Reader

/-- The kind of the first token; a list without tokens counts as its own end. -/
def headKind (ts : List Token) : TokenKind := (head ts).kind

theorem headKind_nil : headKind [] = .finish := rfl

@[simp] theorem headKind_cons (t : Token) (ts : List Token) : headKind (t :: ts) = t.kind := rfl

@[simp] theorem Lexeme.kind_val {k : TokenKind} (a : Lexeme k) : a.val.kind = k := a.property

/-- Tokens of different kinds differ. -/
@[simp] theorem Lexeme.val_eq_val_iff_of_ne {j k : TokenKind} (h : j ≠ k) (a : Lexeme j)
    (b : Lexeme k) : a.val = b.val ↔ False := by
  refine ⟨fun e => h ?_, False.elim⟩
  rw [← a.property, e, b.property]

/-- What `f` spells in front of a list that starts as `follow` says determines its argument. -/
def Unique {α : Type} (follow : TokenKind → Prop) (f : α → List Token) : Prop :=
  ∀ a b r s, f a ++ r = f b ++ s → follow (headKind r) → follow (headKind s) → a = b ∧ r = s

theorem Unique.mono {α : Type} {follow follow' : TokenKind → Prop} {f : α → List Token}
    (hf : Unique follow f) (h : ∀ k, follow' k → follow k) : Unique follow' f :=
  fun a b r s e hr hs => hf a b r s e (h _ hr) (h _ hs)

theorem unique_lexeme (k : TokenKind) (follow : TokenKind → Prop) :
    Unique follow fun a : Lexeme k => [a.val] := by
  intro a b r s h _ _
  simp only [List.singleton_append, List.cons.injEq] at h
  exact ⟨Subtype.ext h.1, h.2⟩

/-! ## Repetition and options -/

section

variable {α : Type} {k : TokenKind} {follow : TokenKind → Prop} {f : α → List Token}

theorem Separated.unique (hf : Unique (fun j => j = k ∨ follow j) f) :
    Unique (fun j => j ≠ k ∧ follow j) (Separated.tokens (k := k) f) := by
  intro a
  induction a with
  | one a =>
    intro b r s h hr hs
    cases b with
    | one b =>
      obtain ⟨rfl, rfl⟩ := hf a b r s h (.inr hr.2) (.inr hs.2)
      exact ⟨rfl, rfl⟩
    | more b sep rest =>
      simp only [tokens, List.append_assoc, List.cons_append] at h
      obtain ⟨-, rfl⟩ := hf a b r _ h (.inr hr.2) (.inl sep.property)
      exact absurd sep.property hr.1
  | more a sep rest ih =>
    intro b r s h hr hs
    cases b with
    | one b =>
      simp only [tokens, List.append_assoc, List.cons_append] at h
      obtain ⟨-, rfl⟩ := hf a b _ s h (.inl sep.property) (.inr hs.2)
      exact absurd sep.property hs.1
    | more b sep' rest' =>
      simp only [tokens, List.append_assoc, List.cons_append] at h
      obtain ⟨rfl, h'⟩ := hf a b _ _ h (.inl sep.property) (.inl sep'.property)
      simp only [List.cons.injEq] at h'
      obtain ⟨rfl, rfl⟩ := ih rest' r s h'.2 hr hs
      exact ⟨by rw [Subtype.ext h'.1], rfl⟩

theorem Parens.unique (hf : Unique (· = .rparen) f) : Unique (fun _ => True) (Parens.tokens f) := by
  rintro ⟨o, a, c⟩ ⟨o', a', c'⟩ r s h - -
  simp only [tokens, List.cons_append, List.append_assoc, List.cons.injEq, List.nil_append] at h
  obtain ⟨rfl, h'⟩ := hf a a' _ _ h.2 c.property c'.property
  simp only [List.cons.injEq] at h'
  rw [Subtype.ext h.1, Subtype.ext h'.1]
  exact ⟨rfl, h'.2⟩

/-- Something optional that starts with a token of kind `k`, in front of no such token. -/
theorem unique_optional (hf : Unique follow f) (hk : ∀ a, ∃ t ts, f a = t :: ts ∧ t.kind = k) :
    Unique (fun j => j ≠ k ∧ follow j) (optional f) := by
  intro a b r s h hr hs
  cases a with
  | none =>
    cases b with
    | none => exact ⟨rfl, h⟩
    | some b =>
      obtain ⟨t, ts, e, ht⟩ := hk b
      simp only [optional, e, List.nil_append, List.cons_append] at h
      subst h
      exact absurd ht hr.1
  | some a =>
    cases b with
    | none =>
      obtain ⟨t, ts, e, ht⟩ := hk a
      simp only [optional, e, List.nil_append, List.cons_append] at h
      subst h
      exact absurd ht hs.1
    | some b =>
      obtain ⟨rfl, rfl⟩ := hf a b r s h hr.2 hs.2
      exact ⟨rfl, rfl⟩

/-- Items that start with tokens of certain kinds, in front of no such token. -/
theorem unique_flatMap {starts : TokenKind → Prop} (hf : Unique follow f)
    (hstart : ∀ a, ∃ t ts, f a = t :: ts ∧ starts t.kind) (hfollow : ∀ j, starts j → follow j) :
    Unique (fun j => ¬starts j ∧ follow j) (List.flatMap f) := by
  -- what follows an item is another item or the end of them all
  have next : ∀ (as : List α) (r : List Token), follow (headKind r) →
      follow (headKind (as.flatMap f ++ r)) := by
    intro as r hr
    cases as with
    | nil => exact hr
    | cons a as =>
      obtain ⟨t, ts, e, ht⟩ := hstart a
      simpa [e] using hfollow _ ht
  intro as
  induction as with
  | nil =>
    intro bs r s h hr hs
    cases bs with
    | nil => exact ⟨rfl, h⟩
    | cons b bs =>
      obtain ⟨t, ts, e, ht⟩ := hstart b
      simp only [List.flatMap_cons, List.flatMap_nil, List.nil_append, e, List.cons_append] at h
      subst h
      exact absurd ht hr.1
  | cons a as ih =>
    intro bs r s h hr hs
    cases bs with
    | nil =>
      obtain ⟨t, ts, e, ht⟩ := hstart a
      simp only [List.flatMap_cons, List.flatMap_nil, List.nil_append, e, List.cons_append] at h
      subst h
      exact absurd ht hs.1
    | cons b bs =>
      simp only [List.flatMap_cons, List.append_assoc] at h
      obtain ⟨rfl, h'⟩ := hf a b _ _ h (next as r hr.2) (next bs s hs.2)
      obtain ⟨rfl, rfl⟩ := ih bs r s h' hr hs
      exact ⟨rfl, rfl⟩

end

/-! ## Types -/

/-- A type starts with a name, a variable or an opening parenthesis. -/
theorem TypeTree.headKind_tokens (t : TypeTree) (r : List Token) :
    headKind (t.tokens ++ r) ≠ .rparen := by
  cases t <;> simp [TypeTree.tokens]

theorem TypeTree.tokens_ne_rparen (t : TypeTree) (c : Lexeme .rparen) (r s : List Token) :
    c.val :: r ≠ t.tokens ++ s := by
  intro h
  apply t.headKind_tokens s
  rw [← h]
  exact c.property

mutual

theorem TypeTree.unique (t u : TypeTree) (r s : List Token) (h : t.tokens ++ r = u.tokens ++ s)
    (hr : headKind r ≠ .lparen) (hs : headKind s ≠ .lparen) : t = u ∧ r = s := by
  match t with
  | .var v =>
    cases u <;> simp [TypeTree.tokens] at h
    case var w => exact ⟨by rw [Subtype.ext h.1], h.2⟩
  | .contract c =>
    cases u <;> simp [TypeTree.tokens] at h
    case contract d => exact ⟨by rw [Subtype.ext h.1], h.2⟩
  | .named n =>
    cases u <;> simp [TypeTree.tokens] at h
    case named m => exact ⟨by rw [Subtype.ext h.1], h.2⟩
    case app m o args c =>
      rw [h.2] at hr
      exact absurd o.property hr
  | .app n o args c =>
    cases u <;> simp [TypeTree.tokens] at h
    case named m =>
      rw [← h.2] at hs
      exact absurd o.property hs
    case app m o' args' c' =>
      obtain ⟨hn, ho, h⟩ := h
      obtain ⟨rfl, h'⟩ := TypesTree.unique args args' _ _ h (by simp) (by simp)
      simp only [List.cons.injEq] at h'
      rw [Subtype.ext hn, Subtype.ext ho, Subtype.ext h'.1]
      exact ⟨rfl, h'.2⟩
  | .unit o c =>
    cases u <;> simp [TypeTree.tokens] at h
    case unit o' c' =>
      rw [Subtype.ext h.1, Subtype.ext h.2.1]
      exact ⟨rfl, h.2.2⟩
    case group => exact (TypeTree.tokens_ne_rparen _ _ _ _ h.2).elim
    case tuple => exact (TypeTree.tokens_ne_rparen _ _ _ _ h.2).elim
  | .group o inner c =>
    cases u <;> simp [TypeTree.tokens] at h
    case unit => exact (TypeTree.tokens_ne_rparen _ _ _ _ h.2.symm).elim
    case group o' inner' c' =>
      obtain ⟨ho, h⟩ := h
      obtain ⟨rfl, h'⟩ := TypeTree.unique inner inner' _ _ h (by simp) (by simp)
      simp only [List.cons.injEq] at h'
      rw [Subtype.ext ho, Subtype.ext h'.1]
      exact ⟨rfl, h'.2⟩
    case tuple o' first comma rest c' =>
      obtain ⟨-, h⟩ := TypeTree.unique inner first _ _ h.2 (by simp) (by simp)
      simp at h
  | .tuple o first comma rest c =>
    cases u <;> simp [TypeTree.tokens] at h
    case unit => exact (TypeTree.tokens_ne_rparen _ _ _ _ h.2.symm).elim
    case group o' inner' c' =>
      obtain ⟨-, h⟩ := TypeTree.unique first inner' _ _ h.2 (by simp) (by simp)
      simp at h
    case tuple o' first' comma' rest' c' =>
      obtain ⟨ho, h⟩ := h
      obtain ⟨rfl, h₁⟩ := TypeTree.unique first first' _ _ h (by simp) (by simp)
      simp only [List.cons.injEq] at h₁
      obtain ⟨rfl, h₂⟩ := TypesTree.unique rest rest' _ _ h₁.2 (by simp) (by simp)
      simp only [List.cons.injEq] at h₂
      rw [Subtype.ext ho, Subtype.ext h₁.1, Subtype.ext h₂.1]
      exact ⟨rfl, h₂.2⟩

theorem TypesTree.unique (ts us : TypesTree) (r s : List Token)
    (h : ts.tokens ++ r = us.tokens ++ s) (hr : headKind r ≠ .lparen ∧ headKind r ≠ .comma)
    (hs : headKind s ≠ .lparen ∧ headKind s ≠ .comma) : ts = us ∧ r = s := by
  match ts, us with
  | .one t, .one u =>
    obtain ⟨rfl, rfl⟩ := TypeTree.unique t u r s h hr.1 hs.1
    exact ⟨rfl, rfl⟩
  | .one t, .more u comma us =>
    simp only [TypesTree.tokens, List.append_assoc, List.cons_append] at h
    obtain ⟨-, rfl⟩ := TypeTree.unique t u _ _ h hr.1 (by simp)
    exact absurd comma.property hr.2
  | .more t comma ts, .one u =>
    simp only [TypesTree.tokens, List.append_assoc, List.cons_append] at h
    obtain ⟨-, rfl⟩ := TypeTree.unique t u _ _ h (by simp) hs.1
    exact absurd comma.property hs.2
  | .more t comma ts, .more u comma' us =>
    simp only [TypesTree.tokens, List.append_assoc, List.cons_append] at h
    obtain ⟨rfl, h'⟩ := TypeTree.unique t u _ _ h (by simp) (by simp)
    simp only [List.cons.injEq] at h'
    obtain ⟨rfl, rfl⟩ := TypesTree.unique ts us r s h'.2 hr hs
    rw [Subtype.ext h'.1]
    exact ⟨rfl, rfl⟩

end

/-! ## Declarations -/

theorem Ascription.unique :
    Unique (fun j => j ≠ .colon ∧ j ≠ .lparen) Ascription.tokens := by
  refine unique_optional ?_ fun p => ⟨p.1.val, p.2.tokens, rfl, p.1.property⟩
  rintro ⟨c, t⟩ ⟨d, u⟩ r s h hr hs
  simp only [List.cons_append, List.cons.injEq] at h
  obtain ⟨rfl, rfl⟩ := TypeTree.unique t u r s h.2 hr hs
  rw [Subtype.ext h.1]
  exact ⟨rfl, rfl⟩

theorem TypeParamsTree.unique : Unique (· ≠ .lparen) TypeParamsTree.tokens := by
  have hvars : Unique (· = .rparen)
      (Separated.tokens (k := .comma) fun v : Lexeme .tvar => [v.val]) :=
    (Separated.unique (unique_lexeme .tvar fun j => j = .comma ∨ j = .rparen)).mono (by simp)
  exact (unique_optional (Parens.unique hvars) fun p => ⟨_, _, rfl, p.opening.property⟩).mono
    (by simp)

theorem HeadTree.unique : Unique (fun _ => True) HeadTree.tokens := by
  rintro ⟨n, ps, e⟩ ⟨m, qs, e'⟩ r s h - -
  simp only [tokens, List.cons_append, List.append_assoc, List.cons.injEq, List.nil_append] at h
  obtain ⟨rfl, h'⟩ := TypeParamsTree.unique ps qs _ _ h.2 (by simp) (by simp)
  simp only [List.cons.injEq] at h'
  rw [Subtype.ext h.1, Subtype.ext h'.1]
  exact ⟨rfl, h'.2⟩

theorem FieldTree.unique : Unique (· ≠ .lparen) FieldTree.tokens := by
  rintro ⟨n, c, t⟩ ⟨m, d, u⟩ r s h hr hs
  simp only [tokens, List.cons_append, List.cons.injEq] at h
  obtain ⟨rfl, rfl⟩ := TypeTree.unique t u r s h.2.2 hr hs
  rw [Subtype.ext h.1, Subtype.ext h.2.1]
  exact ⟨rfl, rfl⟩

theorem ConstrTree.unique : Unique (· ≠ .lparen) ConstrTree.tokens := by
  rintro ⟨c, as⟩ ⟨d, bs⟩ r s h hr hs
  simp only [tokens, List.cons_append, List.cons.injEq] at h
  have hargs : Unique (fun j => j ≠ .lparen ∧ True) (optional (Parens.tokens TypesTree.tokens)) :=
    unique_optional (Parens.unique fun ts us r s h hr hs =>
      TypesTree.unique ts us r s h (by simp [hr]) (by simp [hs]))
      fun p => ⟨_, _, rfl, p.opening.property⟩
  obtain ⟨rfl, rfl⟩ := hargs as bs r s h.2 ⟨hr, trivial⟩ ⟨hs, trivial⟩
  rw [Subtype.ext h.1]
  exact ⟨rfl, rfl⟩

theorem ArgTree.unique : Unique (fun j => j ≠ .colon ∧ j ≠ .lparen) ArgTree.tokens := by
  rintro ⟨n, a⟩ ⟨m, b⟩ r s h hr hs
  simp only [tokens, List.cons_append, List.cons.injEq] at h
  obtain ⟨rfl, rfl⟩ := Ascription.unique a b r s h.2 hr hs
  rw [Subtype.ext h.1]
  exact ⟨rfl, rfl⟩

/-- The kinds of token behind a declaration. -/
def EndsDecl (k : TokenKind) : Prop := k.startsDecl = true ∨ k = .kwContract ∨ k = .finish

theorem EndsDecl.ne {j k : TokenKind} (h : EndsDecl j) (hs : k.startsDecl = false)
    (hc : k ≠ .kwContract) (hf : k ≠ .finish) : j ≠ k := by
  rintro rfl
  rcases h with h | h | h
  · rw [h] at hs
    cases hs
  · exact hc h
  · exact hf h

/-- A body ends where the next declaration starts: one that went on would have it inside. -/
theorem IsBody.not_endsDecl_of_prefix {w v : List Token} {t : Token} (hw : depth w = 0)
    (hv : IsBody v) (h : w ++ [t] <+: v) : ¬EndsDecl t.kind := by
  obtain ⟨hs, hc⟩ := hv.no_start w t h hw
  rintro (h' | h' | h')
  · rw [h'] at hs
    cases hs
  · exact hc h'
  · exact hv.no_finish t (h.subset (by simp)) h'

theorem IsBody.unique : Unique EndsDecl fun w : { w : List Token // IsBody w } => w.val := by
  rintro ⟨v, hv⟩ ⟨w, hw⟩ r s h hr hs
  rcases List.append_eq_append_iff.1 h with ⟨u, rfl, rfl⟩ | ⟨u, rfl, rfl⟩
  · cases u with
    | nil => exact ⟨Subtype.ext (by simp), by simp⟩
    | cons t u => exact absurd hr (hw.not_endsDecl_of_prefix (t := t) hv.depth_eq_zero ⟨u, by simp⟩)
  · cases u with
    | nil => exact ⟨Subtype.ext (by simp), by simp⟩
    | cons t u => exact absurd hs (hv.not_endsDecl_of_prefix (t := t) hw.depth_eq_zero ⟨u, by simp⟩)

theorem ArgsTree.unique : Unique (fun _ => True) ArgsTree.tokens := by
  have harg : Unique (fun j => j = .comma ∨ j = .rparen) ArgTree.tokens :=
    ArgTree.unique.mono (by rintro j (rfl | rfl) <;> simp)
  have hstart (as : Separated .comma ArgTree) :
      ∃ t ts, as.tokens ArgTree.tokens = t :: ts ∧ t.kind = .identifier := by
    cases as with
    | one a => exact ⟨_, _, rfl, a.name.property⟩
    | more a sep rest => exact ⟨_, _, rfl, a.name.property⟩
  exact Parens.unique ((unique_optional (Separated.unique harg) hstart).mono (by simp))

theorem FunctionTree.unique : Unique EndsDecl FunctionTree.tokens := by
  rintro ⟨ms, k, n, as, t, e, w⟩ ⟨ms', k', n', as', t', e', w'⟩ r s h hr hs
  simp only [tokens, restTokens, List.append_assoc, List.cons_append, List.map_eq_flatMap] at h
  have hmods : Unique (fun j => ¬j.isModifier = true ∧ True)
      (List.flatMap fun m : { t : Token // t.kind.isModifier = true } => [m.val]) := by
    refine unique_flatMap (fun a b r s h _ _ => ?_) (fun m => ⟨_, _, rfl, m.property⟩) (by simp)
    simp only [List.singleton_append, List.cons.injEq] at h
    exact ⟨Subtype.ext h.1, h.2⟩
  obtain ⟨rfl, h₁⟩ := hmods ms ms' _ _ h (by simp [TokenKind.isModifier])
    (by simp [TokenKind.isModifier])
  simp only [List.cons.injEq] at h₁
  obtain ⟨rfl, h₂⟩ := ArgsTree.unique as as' _ _ h₁.2.2 trivial trivial
  obtain ⟨rfl, h₃⟩ := Ascription.unique t t' _ _ h₂ (by simp) (by simp)
  simp only [List.cons.injEq] at h₃
  obtain ⟨rfl, rfl⟩ := IsBody.unique w w' r s h₃.2 hr hs
  rw [Subtype.ext h₁.1, Subtype.ext h₁.2.1, Subtype.ext h₃.1]
  exact ⟨rfl, rfl⟩

/-- A function starts with a modifier or its keyword. -/
theorem FunctionTree.tokens_eq_cons (f : FunctionTree) : ∃ t ts, f.tokens = t :: ts ∧
    (t.kind.isModifier = true ∨ t.kind = .kwFunction) ∧ t.pos = f.pos := by
  obtain ⟨ms, k, n, as, t, e, w⟩ := f
  cases ms with
  | nil => exact ⟨_, _, rfl, .inr k.property, rfl⟩
  | cons m ms => exact ⟨_, _, rfl, .inl m.property, rfl⟩

theorem FunctionTree.tokens_ne {j : TokenKind} (f : FunctionTree) (a : Lexeme j)
    (hm : j.isModifier = false) (hj : j ≠ .kwFunction) (r s : List Token) :
    a.val :: r ≠ f.tokens ++ s := by
  obtain ⟨t, ts, e, ht, -⟩ := f.tokens_eq_cons
  intro h
  rw [e, List.cons_append, List.cons.injEq] at h
  rw [← h.1, a.property] at ht
  rcases ht with ht | ht
  · rw [hm] at ht
    cases ht
  · exact hj ht

theorem DeclTree.unique : Unique EndsDecl DeclTree.tokens := by
  intro d d' r s h hr hs
  cases d with
  | synonym k head t =>
    cases d' <;> simp [DeclTree.tokens] at h
    case synonym k' head' t' =>
      obtain ⟨rfl, h'⟩ := HeadTree.unique head head' _ _ h.2 trivial trivial
      obtain ⟨rfl, rfl⟩ := TypeTree.unique t t' r s h' (hr.ne rfl (by simp) (by simp))
        (hs.ne rfl (by simp) (by simp))
      rw [Subtype.ext h.1]
      exact ⟨rfl, rfl⟩
    case function f => exact (f.tokens_ne k rfl (by simp) _ _ h).elim
  | record k head o fs c =>
    cases d' <;> simp [DeclTree.tokens] at h
    case record k' head' o' fs' c' =>
      obtain ⟨rfl, h₁⟩ := HeadTree.unique head head' _ _ h.2 trivial trivial
      simp only [List.cons.injEq] at h₁
      have hfield : Unique (fun j => j = .comma ∨ j = .rbrace) FieldTree.tokens :=
        FieldTree.unique.mono (by rintro j (rfl | rfl) <;> simp)
      obtain ⟨rfl, h₂⟩ := Separated.unique hfield fs fs' _ _ h₁.2 (by simp) (by simp)
      simp only [List.cons.injEq] at h₂
      rw [Subtype.ext h.1, Subtype.ext h₁.1, Subtype.ext h₂.1]
      exact ⟨rfl, h₂.2⟩
    case function f => exact (f.tokens_ne k rfl (by simp) _ _ h).elim
  | datatype k head cs =>
    cases d' <;> simp [DeclTree.tokens] at h
    case datatype k' head' cs' =>
      obtain ⟨rfl, h'⟩ := HeadTree.unique head head' _ _ h.2 trivial trivial
      have hconstr : Unique (fun j => j = .bar ∨ EndsDecl j) ConstrTree.tokens := by
        refine ConstrTree.unique.mono ?_
        rintro j (rfl | hj)
        · simp
        · exact hj.ne rfl (by simp) (by simp)
      obtain ⟨rfl, rfl⟩ := Separated.unique hconstr cs cs' r s h'
        ⟨hr.ne rfl (by simp) (by simp), hr⟩ ⟨hs.ne rfl (by simp) (by simp), hs⟩
      rw [Subtype.ext h.1]
      exact ⟨rfl, rfl⟩
    case function f => exact (f.tokens_ne k rfl (by simp) _ _ h).elim
  | function f =>
    cases d' <;> simp only [DeclTree.tokens, List.cons_append] at h
    case function g =>
      obtain ⟨rfl, rfl⟩ := FunctionTree.unique f g r s h hr hs
      exact ⟨rfl, rfl⟩
    all_goals exact (f.tokens_ne _ rfl (by simp) _ _ h.symm).elim

/-! ## Contracts and units -/

theorem DeclTree.tokens_eq_cons (d : DeclTree) :
    ∃ t ts, d.tokens = t :: ts ∧ t.kind.startsDecl = true ∧ t.pos = d.ast.place := by
  cases d with
  | synonym k => exact ⟨_, _, rfl, by rw [k.property]; rfl, rfl⟩
  | record k => exact ⟨_, _, rfl, by rw [k.property]; rfl, rfl⟩
  | datatype k => exact ⟨_, _, rfl, by rw [k.property]; rfl, rfl⟩
  | function f =>
    obtain ⟨t, ts, e, ht, hpos⟩ := f.tokens_eq_cons
    refine ⟨t, ts, e, ?_, hpos⟩
    rcases ht with ht | ht
    · generalize t.kind = j at ht
      cases j <;> simp_all [TokenKind.isModifier, TokenKind.startsDecl]
    · rw [ht]
      rfl

theorem ContractTree.unique :
    Unique (fun j => j = .kwContract ∨ j = .finish) ContractTree.tokens := by
  rintro ⟨k, n, e, ds⟩ ⟨k', n', e', ds'⟩ r s h hr hs
  simp only [tokens, List.cons_append, List.cons.injEq] at h
  have hdecls : Unique (fun j => ¬j.startsDecl = true ∧ EndsDecl j)
      (List.flatMap DeclTree.tokens) := by
    refine unique_flatMap DeclTree.unique (fun d => ?_) fun j hj => .inl hj
    obtain ⟨t, ts, e, ht, -⟩ := d.tokens_eq_cons
    exact ⟨t, ts, e, ht⟩
  have hend {j : TokenKind} (hj : j = .kwContract ∨ j = .finish) :
      ¬j.startsDecl = true ∧ EndsDecl j := by
    rcases hj with rfl | rfl <;> simp [TokenKind.startsDecl, EndsDecl]
  obtain ⟨rfl, rfl⟩ := hdecls ds ds' r s h.2.2.2 (hend hr) (hend hs)
  rw [Subtype.ext h.1, Subtype.ext h.2.1, Subtype.ext h.2.2.1]
  exact ⟨rfl, rfl⟩

/-- **The grammar is unambiguous**: no two derivations spell the same tokens. -/
theorem UnitTree.tokens_injective (u v : UnitTree) (h : u.tokens = v.tokens) : u = v := by
  have hunit : Unique (fun j => ¬j = .kwContract ∧ (j = .kwContract ∨ j = .finish))
      (List.flatMap ContractTree.tokens) :=
    unique_flatMap ContractTree.unique (fun c => ⟨_, _, rfl, c.keyword.property⟩) fun _ hj => .inl hj
  have h' : u.tokens ++ [] = v.tokens ++ [] := by rw [h]
  exact Subtype.ext (hunit u.val v.val [] [] h' (by simp [headKind_nil]) (by simp [headKind_nil])).1

end ContractInterface.Grammar
