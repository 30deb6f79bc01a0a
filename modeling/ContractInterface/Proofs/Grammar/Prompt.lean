import ContractInterface.Proofs.Grammar.Lookahead
import ContractInterface.Proofs.Grammar.Units

/-!
# Declarations and contracts are read promptly

The readers below a unit are prompt for what their trees spell, down to bodies: a run of tokens that
leaves brackets open begins a body, and a bracket that closes nothing ends every such beginning.

    Prompt n (contract known pos) ContractTree.restTokens                          (prompt_contract)
-/

namespace ContractInterface.Grammar

open Reader Contract.Parse

variable {α β γ : Type} {n : Nat} {ts : List Token}

/-! ## Type definitions -/

instance {k : TokenKind} [Nonempty α] : Nonempty (Separated k α) := ⟨.one (Classical.choice ‹_›)⟩

instance : Nonempty HeadTree :=
  ⟨⟨lexeme .identifier "" .unknown, none, lexeme .eq "" .unknown⟩⟩

instance : Nonempty FieldTree :=
  ⟨⟨lexeme .identifier "" .unknown, lexeme .colon "" .unknown, Classical.choice inferInstance⟩⟩

instance : Nonempty ConstrTree := ⟨⟨lexeme .con "" .unknown, none⟩⟩

theorem prompt_typeParams : Prompt n typeParams TypeParamsTree.tokens := by
  have hvars (m : Nat) (_ : m < n) :=
    (((Prompt.expect (n := m) .tvar).map Token.name).sepBy (k := .comma)).bind fun vars =>
      (Prompt.expect .rparen).bind fun _ => Prompt.pure vars
  refine (Prompt.accept hvars (.pure [])).mono ?_
  rintro (⟨o, vars, c, ⟨⟩⟩ | ⟨⟩)
  · exact ⟨some ⟨o, vars, c⟩, rfl⟩
  · exact ⟨none, rfl⟩

theorem prompt_typeHead : Prompt n typeHead HeadTree.tokens :=
  ((Prompt.expect .identifier).bind fun name => prompt_typeParams.bind fun vars =>
    (Prompt.expect .eq).bind fun _ => .pure (name.name, vars)).mono
    fun ⟨n, ps, e, _⟩ => ⟨⟨n, ps, e⟩, rfl⟩

/-- An ambiguity is no refusal. -/
theorem prompt_ambiguous {f : α → List Token} (pos : Position) (rs : List Reading) :
    Prompt n (fun _ => .error ⟨pos, .ambiguous rs⟩ : Reader β) f := by
  refine fun ts _ => ⟨fun b rest hb => (Yields.error_iff.1 hb).elim, fun e he hs => ?_⟩
  cases he
  cases hs

theorem prompt_aliasDef (known : List String) (pos : Position) :
    Prompt n (aliasDef known pos) fun x : HeadTree × TypeTree => x.1.tokens ++ x.2.tokens := by
  refine (prompt_typeHead.bind (g := fun x : TypeTree × Unit => x.1.tokens ++ []) ?_).mono
    fun x => ⟨(x.1, x.2.1), by simp⟩
  rintro ⟨name, vars⟩
  refine .peek fun first => (prompt_typeExpr n).bind (g := fun _ : Unit => []) fun type => ?_
  split
  · split
    · exact .pure _
    · exact prompt_ambiguous _ _
  · exact .pure _

theorem prompt_recordField : Prompt n recordField FieldTree.tokens :=
  ((Prompt.expect .identifier).bind fun name => (Prompt.expect .colon).bind fun _ =>
    (prompt_typeExpr n).bind fun type =>
      Prompt.pure (TypeExpr.field (.named name.name) type (some name.pos))).mono
    fun ⟨l, c, d, _⟩ => ⟨FieldTree.mk l c d, by simp [FieldTree.tokens]⟩

theorem prompt_recordDef (pos : Position) : Prompt n (recordDef pos)
    fun x : HeadTree × Lexeme .lbrace × Separated .comma FieldTree × Lexeme .rbrace =>
      x.1.tokens ++ x.2.1.val :: (x.2.2.1.tokens FieldTree.tokens ++ [x.2.2.2.val]) := by
  have hfields (d : List TypeExpr → TypeDef) := (Prompt.expect (n := n) .lbrace).bind fun _ =>
    (prompt_recordField.sepBy (k := .comma)).bind fun fields =>
      (Prompt.expect .rbrace).bind fun _ => .pure (d fields)
  refine (prompt_typeHead.bind fun (name, vars) => hfields fun fields =>
    ⟨name, vars, .record fields, some pos⟩).mono ?_
  rintro ⟨hd, o, fs, c, ⟨⟩⟩
  exact ⟨(hd, o, fs, c), rfl⟩

theorem prompt_typeArgs : Prompt n typeArgs (Parens.tokens TypesTree.tokens) :=
  ((Prompt.expect .lparen).bind fun _ =>
    (prompt_typeExpr n).types_rparen fun args => .pure args).mono
    fun ⟨o, args, c, _⟩ => ⟨⟨o, args, c⟩, rfl⟩

theorem prompt_constructor : Prompt n constructor ConstrTree.tokens := by
  refine ((Prompt.expect .con).bind (g := fun x : Option (Parens TypesTree) × Unit =>
    optional (Parens.tokens TypesTree.tokens) x.1 ++ []) fun tag => .peek fun t => ?_).mono
    fun ⟨c, args, _⟩ => ⟨⟨c, args⟩, by simp [ConstrTree.tokens]⟩
  split
  · exact (prompt_typeArgs.bind fun args => .pure _).mono fun x => ⟨(some x.1, ()), rfl⟩
  · exact ((Prompt.pure _).bind fun args => .pure _).mono fun x => ⟨(none, ()), rfl⟩

theorem prompt_datatypeDef (pos : Position) : Prompt n (datatypeDef pos)
    fun x : HeadTree × Separated .bar ConstrTree =>
      x.1.tokens ++ x.2.tokens ConstrTree.tokens := by
  have hconstructors (d : List TypeExpr → TypeDef) :=
    (prompt_constructor (n := n).sepBy (k := .bar)).bind fun cs => Prompt.pure (d cs)
  exact (prompt_typeHead.bind fun (name, vars) => hconstructors fun cs =>
    ⟨name, vars, .variant cs, some pos⟩).mono fun x => ⟨(x.1, x.2.1), by simp⟩

/-! ## Arguments -/

instance : Nonempty ArgTree := ⟨⟨lexeme .identifier "" .unknown, none⟩⟩

/-- A type behind a colon, if there is a colon. -/
theorem Prompt.ascription [Nonempty α] {q : Option TypeExpr → Reader β} {f : α → List Token}
    (hq : ∀ o, Prompt n (q o) f) :
    Prompt n (Reader.accept .colon >>= fun c =>
      if c = true then some <$> typeExpr >>= q else Pure.pure none >>= q)
      (fun x : Ascription × α => x.1.tokens ++ f x.2) := by
  have htype (m : Nat) (hm : m < n) := ((prompt_typeExpr m).map some).bind fun o =>
    (hq o).le (Nat.le_of_lt hm)
  refine (Prompt.accept htype
    ((Prompt.pure none).bind hq)).mono ?_
  rintro (⟨colon, d, a⟩ | ⟨⟨⟩, a⟩)
  · exact ⟨(some (colon, d), a), rfl⟩
  · exact ⟨(none, a), rfl⟩

theorem prompt_param : Prompt n param ArgTree.tokens :=
  ((Prompt.expect .identifier).bind fun name => Prompt.ascription fun type =>
    .pure (Param.mk (.named name.name) type (some name.pos))).mono
    fun ⟨name, type, _⟩ => ⟨ArgTree.mk name type, by simp [ArgTree.tokens]⟩

theorem prompt_params : Prompt n params ArgsTree.tokens := by
  have hparams := (prompt_param (n := n).sepBy (k := .comma)).bind fun ps =>
    (Prompt.expect .rparen).bind fun _ => Prompt.pure ps
  have hnone (m : Nat) (_ : m < n) := Prompt.pure (n := m) ([] : List Param)
  refine ((Prompt.expect .lparen).bind fun _ =>
    Prompt.accept hnone hparams).mono ?_
  rintro ⟨o, ⟨c, ⟨⟩⟩ | ⟨args, c, ⟨⟩⟩⟩
  · exact ⟨⟨o, none, c⟩, rfl⟩
  · exact ⟨⟨o, some args, c⟩, rfl⟩

/-! ## Bodies -/

/-- At a token a body ends, is refused or goes on, whatever comes behind. -/
theorem bodyLength_cons_cases (d : Nat) (t : Token) :
    (∀ us, bodyLength d (t :: us) = .ok 0) ∨
      (∃ cause, ∀ us, bodyLength d (t :: us) = .error ⟨t.pos, cause⟩) ∨
      ∃ d' : Nat, (d' : Int) = d + delta t ∧ t.kind ≠ .finish ∧
        (d = 0 → t.kind.startsDecl = false ∧ t.kind ≠ .kwContract) ∧
        ∀ us, bodyLength d (t :: us) = (bodyLength d' us).map (· + 1) := by
  have heq (us : List Token) := bodyLength.eq_def d (t :: us)
  simp only at heq
  by_cases hf : t.kind = .finish
  · simp only [if_pos hf] at heq
    by_cases hd : d = 0
    · exact .inl fun us => by rw [heq, if_pos hd]
    · exact .inr (.inl ⟨.unclosed, fun us => by rw [heq, if_neg hd]⟩)
  by_cases hs : (decide (d = 0) && (t.kind.startsDecl || t.kind = .kwContract)) = true
  · exact .inl fun us => by rw [heq, if_neg hf, if_pos hs]
  simp only [if_neg hf, if_neg hs] at heq
  have hstart : d = 0 → t.kind.startsDecl = false ∧ t.kind ≠ .kwContract := by
    rintro rfl
    simpa using hs
  by_cases ho : t.kind.isOpener = true
  · exact .inr (.inr ⟨d + 1, by rw [delta_of_opener ho]; rfl, hf, hstart,
      fun us => by rw [heq, if_pos ho]⟩)
  by_cases hc : t.kind.isCloser = true
  · simp only [if_neg ho, if_pos hc] at heq
    cases d with
    | zero => exact .inr (.inl ⟨.unbalanced t, heq⟩)
    | succ d => exact .inr (.inr ⟨d, by rw [delta_of_closer hc]; omega, hf, hstart, heq⟩)
  · exact .inr (.inr ⟨d, by rw [delta_of_other ho hc, Int.add_zero], hf, hstart,
      fun us => by rw [heq, if_neg ho, if_neg hc]⟩)

/-- Any number of brackets can be closed. -/
theorem exists_closesFrom (d : Nat) : ∃ v, ClosesFrom d v := by
  induction d with
  | zero => exact ⟨[], closesFrom_nil.2 rfl⟩
  | succ d ih =>
    obtain ⟨v, hv⟩ := ih
    refine ⟨(lexeme .rparen ")" .unknown).val :: v, closesFrom_cons.2 ⟨by omega, by omega, ?_, ?_⟩⟩
    · simp
    · have hdelta : ((d + 1 : Nat) : Int) + delta (lexeme .rparen ")" .unknown).val = d := by
        rw [delta_of_closer rfl]
        omega
      rwa [hdelta]

/-- Where the brackets of a body do not match, the tokens up to there can be closed, and with the
next token they never are. -/
theorem closesFrom_of_bodyLength_error {d : Nat} {e : Failure} (h : bodyLength d ts = .error e) :
    ∃ u v rest, ClosesFrom d (u ++ v) ∧ ts = u ++ rest ∧ e.pos = (head rest).pos ∧
      ∀ r, r.head? = rest.head? → bodyLength d (u ++ r) = .error e := by
  induction ts generalizing d with
  | nil =>
    obtain ⟨v, hv⟩ := exists_closesFrom d
    refine ⟨[], v, [], hv, rfl, ?_, fun r hhead => ?_⟩
    · rw [bodyLength.eq_def] at h
      simp only at h
      split at h <;> cases h
      rfl
    · rw [List.head?_eq_none_iff.1 hhead]
      exact h
  | cons t us ih =>
    obtain hend | ⟨cause, herror⟩ | ⟨d', hd', hf, hstart, hnext⟩ := bodyLength_cons_cases d t
    · rw [hend] at h
      cases h
    · obtain ⟨v, hv⟩ := exists_closesFrom d
      refine ⟨[], v, t :: us, hv, rfl, ?_, fun r hhead => ?_⟩
      · rw [herror] at h
        cases h
        rfl
      · obtain ⟨vs, rfl⟩ := List.head?_eq_some_iff.1 hhead
        rw [← h, List.nil_append, herror, herror]
    · have herror {vs : List Token} :
          bodyLength d (t :: vs) = .error e ↔ bodyLength d' vs = .error e := by
        rw [hnext]
        cases bodyLength d' vs <;> simp [Except.map]
      obtain ⟨u, v, rest, hclose, rfl, hpos, hr⟩ := ih (herror.1 h)
      refine ⟨t :: u, v, rest, ?_, rfl, hpos, fun r hhead => herror.2 (hr r hhead)⟩
      rw [List.cons_append, closesFrom_cons, ← hd']
      exact ⟨by omega, fun hd => hstart (by omega), hf, hclose⟩

theorem isBody_identifier : IsBody [(lexeme .identifier "" .unknown).val] :=
  isBody_iff.2 ⟨by simp, closesFrom_cons.2 ⟨by omega, fun _ => by simp [TokenKind.startsDecl],
    by simp, closesFrom_nil.2 rfl⟩⟩

instance : Nonempty { w : List Token // IsBody w } := ⟨⟨_, isBody_identifier⟩⟩

theorem body_of_error {ts : List Token} {e : Failure} (h : bodyLength 0 ts = .error e) :
    body ts = .error e := by
  rw [body, h]

theorem body_of_zero {ts : List Token} (h : bodyLength 0 ts = .ok 0) :
    body ts = unexpected .functionBody ts := by
  rw [body, h]
  rfl

theorem prompt_body : Prompt n body fun w : { w : List Token // IsBody w } => w.val := by
  intro ts _
  constructor
  · intro w rest h
    obtain ⟨rfl, hw, hrest⟩ := reads_body.1 h
    exact ⟨⟨w, hw⟩, rfl, fun r hhead =>
      reads_body.2 ⟨rfl, hw, headKind_eq_of_head? hhead ▸ hrest⟩⟩
  · intro e h hs
    cases hlength : bodyLength 0 ts with
    | error e' =>
      rw [body_of_error hlength] at h
      cases h
      obtain ⟨u, v, rest, hclose, rfl, hpos, hr⟩ := closesFrom_of_bodyLength_error hlength
      have hfails (r : List Token) (hhead : r.head? = rest.head?) : body (u ++ r) = .error e :=
        body_of_error (hr r hhead)
      by_cases huv : u ++ v = []
      · obtain ⟨rfl, rfl⟩ := List.append_eq_nil_iff.1 huv
        exact ⟨⟨_, isBody_identifier⟩, [], _, rest, rfl, rfl, hpos, hfails⟩
      · exact ⟨⟨u ++ v, isBody_iff.2 ⟨huv, hclose⟩⟩, u, v, rest, rfl, rfl, hpos, hfails⟩
    | ok k =>
      cases k with
      | zero =>
        obtain ⟨w, r, rfl, hw, -, hrest⟩ := bodyLength_sound hlength
        obtain rfl := List.length_eq_zero_iff.1 hw
        have hstart (us : List Token) (hhead : us.head? = ([] ++ r).head?) :
            body us = unexpected .functionBody us := by
          have hus : bodyLength 0 us = .ok 0 :=
            bodyLength_complete (w := []) (closesFrom_nil.2 rfl) (headKind_eq_of_head? hhead ▸ hrest)
          exact body_of_zero hus
        exact ((PromptAt.unexpected .functionBody _).of_head hstart).fails e h hs
      | succ k =>
        rw [body, hlength] at h
        cases h

/-! ## Functions -/

/-- What `functionRest` reads. -/
abbrev FunctionRestTree :=
  Lexeme .identifier × ArgsTree × Ascription × Lexeme .eq × { w : List Token // IsBody w }

def FunctionRestTree.tokens (f : FunctionRestTree) : List Token :=
  f.1.val :: (f.2.1.tokens ++ (f.2.2.1.tokens ++ f.2.2.2.1.val :: f.2.2.2.2.val))

instance : Nonempty ArgsTree := ⟨⟨lexeme .lparen "" .unknown, none, lexeme .rparen "" .unknown⟩⟩

theorem prompt_functionRest (pos : Position) (ms : List TokenKind) :
    Prompt n (functionRest pos ms) FunctionRestTree.tokens := by
  have hbody (d : List Token → FunctionDef) := (Prompt.expect (n := n) .eq).bind fun _ =>
    prompt_body.bind fun tokens => .pure (d tokens)
  refine ((Prompt.expect .identifier).bind fun name => prompt_params.bind fun ps =>
    Prompt.ascription fun result => hbody fun tokens => FunctionDef.mk name.name ps result tokens
      (ms.contains .kwPrivate) (ms.contains .kwStateful) (some pos)).mono ?_
  rintro ⟨name, args, result, eq, w, ⟨⟩⟩
  exact ⟨(name, args, result, eq, w), by simp [FunctionRestTree.tokens]⟩

theorem prompt_modifiers : Prompt n modifiers
    fun ms : List { t : Token // t.kind.isModifier = true } => ms.map Subtype.val := by
  refine fun ts _ => ⟨fun ks rest h => ?_, fun e h => ?_⟩
  · obtain ⟨ms, rfl, hrest, rfl⟩ := reads_modifiers.1 h
    exact ⟨ms, rfl, fun r hhead =>
      reads_modifiers.2 ⟨ms, rfl, headKind_eq_of_head? hhead ▸ hrest, rfl⟩⟩
  · cases h

/-- The trees that start with a token. -/
abbrev Starting (f : α → List Token) (t : Token) := { a : α // ∃ us, f a = t :: us }

/-- The tokens behind the first. -/
def Starting.tail {f : α → List Token} {t : Token} (a : Starting f t) : List Token := (f a.val).tail

theorem Starting.cons_tail {f : α → List Token} {t : Token} (a : Starting f t) :
    t :: a.tail = f a.val := by
  obtain ⟨a, us, h⟩ := a
  rw [tail, h, List.tail_cons]

theorem prompt_functionDef {t : Token} (ht : t.kind.isModifier = true ∨ t.kind = .kwFunction) :
    Prompt n (functionDef t) (Starting.tail (f := FunctionTree.tokens) (t := t)) := by
  unfold functionDef
  split
  · next hk =>
    refine (prompt_functionRest t.pos []).mono ?_
    rintro ⟨name, args, result, eq, w⟩
    exact ⟨⟨⟨[], ⟨t, hk⟩, name, args, result, eq, w⟩, _, rfl⟩, rfl⟩
  · next hk =>
    have hm := ht.resolve_right hk
    refine (prompt_modifiers.bind fun ms => (Prompt.expect .kwFunction).bind fun _ =>
      prompt_functionRest t.pos (t.kind :: ms)).mono ?_
    rintro ⟨ms, k, name, args, result, eq, w⟩
    exact ⟨⟨⟨⟨t, hm⟩ :: ms, k, name, args, result, eq, w⟩, _, rfl⟩, rfl⟩

/-! ## Declarations -/

theorem prompt_decl (known : List String) {t : Token} (ht : t.kind.startsDecl = true) :
    Prompt n (decl known t) (Starting.tail (f := DeclTree.tokens) (t := t)) := by
  unfold decl
  split
  · next hk =>
    exact ((prompt_aliasDef known t.pos).map Decl.typeDef).mono fun x =>
      ⟨⟨.synonym ⟨t, hk⟩ x.1 x.2, _, rfl⟩, rfl⟩
  · next hk =>
    exact ((prompt_recordDef t.pos).map Decl.typeDef).mono fun x =>
      ⟨⟨.record ⟨t, hk⟩ x.1 x.2.1 x.2.2.1 x.2.2.2, _, rfl⟩, rfl⟩
  · next hk =>
    exact ((prompt_datatypeDef t.pos).map Decl.typeDef).mono fun x =>
      ⟨⟨.datatype ⟨t, hk⟩ x.1 x.2, _, rfl⟩, rfl⟩
  · next h₁ h₂ h₃ =>
    have hk : t.kind.isModifier = true ∨ t.kind = .kwFunction := by
      generalize t.kind = j at *
      cases j <;> simp_all [TokenKind.startsDecl, TokenKind.isModifier]
    refine ((prompt_functionDef hk).map Decl.function).mono ?_
    rintro ⟨f, us, hf⟩
    exact ⟨⟨.function f, us, hf⟩, rfl⟩

/-- The declarations go on with a token that starts one. -/
theorem decls_cons {known : List String} {t : Token} (ht : t.kind.startsDecl = true)
    (us : List Token) : decls known (t :: us) =
      behind ((decl known t >>= fun d => (d :: ·) <$> (decls known : Reader (List Decl))) us) := by
  rw [decls.eq_def]
  simp only [ht, if_true]
  show _ = behind (andThen (decl known t us) _)
  cases decl known t us with
  | error e => rfl
  | ok x =>
    obtain ⟨d, vs, h⟩ := x
    have hmap : (((d :: ·) <$> (decls known : Reader (List Decl)) : Reader (List Decl)) vs) =
      andThen (decls known vs) fun ds => Pure.pure (d :: ds) := rfl
    simp only [andThen, hmap]
    cases decls known vs <;> rfl

theorem prompt_decls (known : List String) (n : Nat) :
    Prompt n (decls known) (List.flatMap DeclTree.tokens) := by
  induction n using Nat.strongRecOn with
  | ind n ih =>
    intro ts hts
    cases ts with
    | nil =>
      refine ((PromptAt.pure []).of_head fun us hhead => ?_).mono fun _ => ⟨[], rfl⟩
      rw [List.head?_eq_none_iff.1 hhead, decls.eq_def]
      rfl
    | cons t us =>
      by_cases ht : t.kind.startsDecl = true
      · have hus : us.length < n := hts
        have hrest (d : Decl) := (ih us.length hus).map (d :: ·)
        refine (((prompt_decl known ht).bind hrest us (Nat.le_refl _)).behind (decls_cons ht)).mono ?_
        rintro ⟨D, Ds⟩
        exact ⟨D.val :: Ds, by rw [← List.cons_append, D.cons_tail, List.flatMap_cons]⟩
      · refine ((PromptAt.pure []).of_head fun vs hhead => ?_).mono fun _ => ⟨[], rfl⟩
        obtain ⟨ws, rfl⟩ := List.head?_eq_some_iff.1 hhead
        rw [decls.eq_def]
        simp only [if_neg ht]
        rfl

/-! ## Contracts -/

/-- What a contract spells behind its keyword. -/
def ContractTree.restTokens (C : ContractTree) : List Token :=
  C.name.val :: C.eq.val :: C.decls.flatMap DeclTree.tokens

theorem prompt_contract (known : List String) (k : Lexeme .kwContract) :
    Prompt n (contract known k.val.pos) ContractTree.restTokens := by
  have hend (c : Contract) := Prompt.peek (n := n) (f := fun _ : Unit => [])
    (q := fun next => if (next.kind = .kwContract || next.kind = .finish) = true then
      Pure.pure c else unexpected .declaration) fun next => by
        split
        · exact .pure c
        · exact .unexpected .declaration
  refine ((Prompt.expect .con).bind fun name => (Prompt.expect .eq).bind fun _ =>
    (prompt_decls known n).bind fun ds => hend ⟨name.name, ds, some k.val.pos⟩).mono ?_
  rintro ⟨name, eq, Ds, ⟨⟩⟩
  exact ⟨⟨k, name, eq, Ds⟩, by simp [ContractTree.restTokens]⟩

end ContractInterface.Grammar
