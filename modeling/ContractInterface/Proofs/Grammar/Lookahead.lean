import ContractInterface.Proofs.Grammar.Declarations

/-!
# Readers look one token ahead

A reader for what `f` spells is prompt (`Prompt`): what it does is settled by the tokens that it has
taken and the one that follows.  Where it fails, the tokens in front of the failure begin something
that `f` spells, and with the token at the failure it fails whatever comes behind that.  A reader
built from prompt ones is prompt, and so is the one for types:

    Prompt n typeExpr TypeTree.tokens                                             (prompt_typeExpr)

The bound `n` on the length of the list carries the inductions over lists.
-/

namespace ContractInterface

open Reader

/-- The failure is one of the grammar, not of the scanner, and no ambiguity. -/
def Cause.isSyntax : Cause → Bool
  | unexpected _ _ | functionType | unbalanced _ | unclosed | refused _ => true
  | _ => false

namespace Grammar

variable {α β γ δ : Type} {n : Nat} {ts : List Token}

instance {k : TokenKind} : Nonempty (Lexeme k) := ⟨lexeme k "" .unknown⟩

/-! ## First tokens -/

theorem head?_append_congr {r s : List Token} (h : r.head? = s.head?) (w : List Token) :
    (w ++ r).head? = (w ++ s).head? := by
  cases w with
  | nil => exact h
  | cons t w => rfl

theorem head_eq_of_head? {r s : List Token} (h : r.head? = s.head?) : head r = head s := by
  rw [head, head, List.headD_eq_head?_getD, List.headD_eq_head?_getD, h]

theorem headKind_eq_of_head? {r s : List Token} (h : r.head? = s.head?) :
    headKind r = headKind s := by
  rw [headKind, headKind, head_eq_of_head? h]

/-! ## Results -/

theorem bind_eq_error_iff {p : Reader β} {q : β → Reader γ} {e : Failure} :
    (p >>= q) ts = .error e ↔
      p ts = .error e ∨ ∃ b us, Reads p ts b us ∧ q b us = .error e := by
  show andThen (p ts) q = .error e ↔ _
  unfold andThen Reads
  cases p ts with
  | error e' => simp
  | ok x =>
    obtain ⟨b, us, h⟩ := x
    simp only [reduceCtorEq, false_or, Yields.ok_iff]
    constructor
    · intro he
      refine ⟨b, us, ⟨rfl, rfl⟩, ?_⟩
      split at he
      · next e' hq => rw [hq, Except.error.inj he]
      · cases he
    · rintro ⟨b, us, ⟨rfl, rfl⟩, he⟩
      rw [he]

/-- Behind a value for which nothing was taken. -/
theorem andThen_nothing (b : β) (q : β → Reader γ) :
    andThen (.ok ⟨b, ts, Nat.le_refl _⟩) q = q b ts := by
  unfold andThen
  cases hq : q b ts <;> simp [hq]

theorem peek_bind (q : Token → Reader β) : (peek >>= q) ts = q (head ts) ts :=
  andThen_nothing _ q

/-! ## Prompt readers -/

/-- What `p` reads from `ts` is spelled by `f`, and `p` reads it in front of every list that starts as
the rest does.  Where `p` refuses `ts` at a token, something that `f` spells begins with the tokens
in front of it, and `p` refuses every list that is the same up to this token. -/
structure PromptAt (p : Reader β) (f : α → List Token) (ts : List Token) : Prop where
  reads : ∀ b rest, Reads p ts b rest →
    ∃ a, ts = f a ++ rest ∧ ∀ r, r.head? = rest.head? → Reads p (f a ++ r) b r
  fails : ∀ e, p ts = .error e → e.cause.isSyntax = true →
    ∃ a u v rest, f a = u ++ v ∧ ts = u ++ rest ∧ e.pos = (head rest).pos ∧
      ∀ r, r.head? = rest.head? → p (u ++ r) = .error e

/-- The reader is prompt on lists of at most `n` tokens. -/
def Prompt (n : Nat) (p : Reader β) (f : α → List Token) : Prop :=
  ∀ ts : List Token, ts.length ≤ n → PromptAt p f ts

namespace PromptAt

/-- What `f` spells may be seen as part of something larger. -/
theorem mono {p : Reader β} {f : α → List Token} {g : γ → List Token} (hp : PromptAt p f ts)
    (h : ∀ a, ∃ c, f a = g c) : PromptAt p g ts where
  reads b rest hb := by
    obtain ⟨a, e, hr⟩ := hp.reads b rest hb
    obtain ⟨c, hc⟩ := h a
    exact ⟨c, by rw [e, hc], fun r => hc ▸ hr r⟩
  fails e he hs := by
    obtain ⟨a, u, v, rest, hf, hts⟩ := hp.fails e he hs
    obtain ⟨c, hc⟩ := h a
    exact ⟨c, u, v, rest, hc ▸ hf, hts⟩

/-- Two readers that do the same on all lists with this first token. -/
theorem of_head {p q : Reader β} {f : α → List Token} (hq : PromptAt q f ts)
    (h : ∀ us : List Token, us.head? = ts.head? → p us = q us) : PromptAt p f ts where
  reads b rest hb := by
    rw [Reads, h ts rfl] at hb
    obtain ⟨a, rfl, hr⟩ := hq.reads b rest hb
    refine ⟨a, rfl, fun r hhead => ?_⟩
    rw [Reads, h _ (head?_append_congr hhead _)]
    exact hr r hhead
  fails e he hs := by
    rw [h ts rfl] at he
    obtain ⟨a, u, v, rest, hf, rfl, hpos, hr⟩ := hq.fails e he hs
    refine ⟨a, u, v, rest, hf, rfl, hpos, fun r hhead => ?_⟩
    rw [h _ (head?_append_congr hhead u)]
    exact hr r hhead

/-- A reader that goes on behind the first token. -/
theorem behind {t : Token} {us : List Token} {p q : Reader β} {f : α → List Token}
    (hq : PromptAt q f us) (h : ∀ vs, p (t :: vs) = Reader.behind (q vs)) :
    PromptAt p (fun a => t :: f a) (t :: us) where
  reads b rest hb := by
    rw [Reads, h, Yields.behind_iff] at hb
    obtain ⟨a, rfl, hr⟩ := hq.reads b rest hb
    refine ⟨a, rfl, fun r hhead => ?_⟩
    rw [Reads, List.cons_append, h, Yields.behind_iff]
    exact hr r hhead
  fails e he hs := by
    have herror {vs : List Token} : p (t :: vs) = .error e ↔ q vs = .error e := by
      rw [h]
      cases q vs <;> simp [Reader.behind]
    obtain ⟨a, u, v, rest, hf, rfl, hpos, hr⟩ := hq.fails e (herror.1 he) hs
    exact ⟨a, t :: u, v, rest, by rw [hf, List.cons_append], rfl, hpos,
      fun r hhead => herror.2 (hr r hhead)⟩

theorem pure (b : β) : PromptAt (Pure.pure b) (fun _ : Unit => []) ts where
  reads c rest hc := by
    obtain ⟨rfl, rfl⟩ := Reads.pure_iff.1 hc
    exact ⟨(), rfl, fun r _ => Reads.pure_iff.2 ⟨rfl, rfl⟩⟩
  fails e he := by cases he

theorem fail [Nonempty α] (cause : Cause) (f : α → List Token) :
    PromptAt (Reader.fail cause : Reader β) f ts where
  reads b rest hb := (Reads.fail_iff.1 hb).elim
  fails e he _ := by
    obtain ⟨a⟩ := ‹Nonempty α›
    cases he
    refine ⟨a, [], f a, ts, rfl, rfl, rfl, fun r hhead => ?_⟩
    rw [List.nil_append, Reader.fail, head_eq_of_head? hhead]

theorem unexpected [Nonempty α] (wanted : Wanted) (f : α → List Token) :
    PromptAt (Reader.unexpected wanted : Reader β) f ts := by
  refine (PromptAt.fail (.unexpected (head ts) wanted) f).of_head fun us hhead => ?_
  rw [Reader.unexpected, head_eq_of_head? hhead]

theorem expect (k : TokenKind) :
    PromptAt (Reader.expect k) (fun a : Lexeme k => [a.val]) ts := by
  cases ts with
  | nil =>
    refine (PromptAt.unexpected (.token k) _).of_head fun us hhead => ?_
    rw [List.head?_eq_none_iff.1 hhead, Reader.expect]
  | cons t us =>
    by_cases hk : t.kind = k
    · refine ((PromptAt.pure t).behind fun vs => ?_).mono fun _ => ⟨⟨t, hk⟩, rfl⟩
      rw [Reader.expect, if_pos hk]
      rfl
    · refine (PromptAt.unexpected (.token k) _).of_head fun vs hhead => ?_
      obtain ⟨ws, rfl⟩ := List.head?_eq_some_iff.1 hhead
      rw [Reader.expect, if_neg hk]

/-- One reader behind the other. -/
theorem bind [Nonempty δ] {p : Reader β} {q : β → Reader γ} {f : α → List Token}
    {g : δ → List Token} (hp : PromptAt p f ts)
    (hq : ∀ b us, us.length ≤ ts.length → PromptAt (q b) g us) :
    PromptAt (p >>= q) (fun x : α × δ => f x.1 ++ g x.2) ts where
  reads c rest hc := by
    obtain ⟨b, us, hb, hc⟩ := Reads.bind_iff.1 hc
    obtain ⟨d, rfl, hd⟩ := (hq b us hb.length_le).reads c rest hc
    obtain ⟨a, rfl, ha⟩ := hp.reads b _ hb
    refine ⟨(a, d), (List.append_assoc _ _ _).symm, fun r hhead => ?_⟩
    rw [List.append_assoc]
    exact Reads.bind_iff.2 ⟨b, _, ha _ (head?_append_congr hhead _), hd r hhead⟩
  fails e he hs := by
    obtain he | ⟨b, us, hb, he⟩ := bind_eq_error_iff.1 he
    · obtain ⟨d⟩ := ‹Nonempty δ›
      obtain ⟨a, u, v, rest, hf, rfl, hpos, hr⟩ := hp.fails e he hs
      exact ⟨(a, d), u, v ++ g d, rest, by rw [hf, List.append_assoc], rfl, hpos,
        fun r hhead => bind_eq_error_iff.2 (.inl (hr r hhead))⟩
    · obtain ⟨d, u, v, rest, hg, rfl, hpos, hr⟩ := (hq b us hb.length_le).fails e he hs
      obtain ⟨a, rfl, ha⟩ := hp.reads b _ hb
      refine ⟨(a, d), f a ++ u, v, rest, by rw [hg, List.append_assoc],
        (List.append_assoc _ _ _).symm, hpos, fun r hhead => ?_⟩
      rw [List.append_assoc]
      exact bind_eq_error_iff.2
        (.inr ⟨b, _, ha _ (head?_append_congr hhead _), hr r hhead⟩)

/-- What is looked at is still there. -/
theorem peek {q : Token → Reader β} {f : α → List Token} (hq : PromptAt (q (head ts)) f ts) :
    PromptAt (Reader.peek >>= q) f ts := by
  refine hq.of_head fun us hhead => ?_
  rw [peek_bind, head_eq_of_head? hhead]

/-- A token of kind `k` decides how to go on. -/
theorem accept {k : TokenKind} {q : Bool → Reader β} {f : α → List Token} {g : γ → List Token}
    (hf : ∀ us : List Token, us.length < ts.length → PromptAt (q true) f us)
    (hg : PromptAt (q false) g ts) :
    PromptAt (Reader.accept k >>= q)
      (Sum.elim (fun x : Lexeme k × α => x.1.val :: f x.2) g) ts := by
  have hskip {us : List Token} (h : Reader.accept k us = .ok ⟨false, us, Nat.le_refl _⟩) :
      (Reader.accept k >>= q) us = q false us := by
    show andThen (Reader.accept k us) q = q false us
    rw [h, andThen_nothing]
  cases ts with
  | nil =>
    refine (hg.of_head fun us hhead => ?_).mono fun c => ⟨.inr c, rfl⟩
    rw [List.head?_eq_none_iff.1 hhead]
    exact hskip rfl
  | cons t us =>
    by_cases hk : t.kind = k
    · refine ((hf us (Nat.lt_succ_self _)).behind (t := t) fun vs => ?_).mono
        fun a => ⟨.inl (⟨t, hk⟩, a), rfl⟩
      show andThen (Reader.accept k (t :: vs)) q = Reader.behind (q true vs)
      rw [Reader.accept, if_pos hk]
      rfl
    · refine (hg.of_head fun vs hhead => ?_).mono fun c => ⟨.inr c, rfl⟩
      obtain ⟨ws, rfl⟩ := List.head?_eq_some_iff.1 hhead
      refine hskip ?_
      rw [Reader.accept, if_neg hk]

end PromptAt

namespace Prompt

section

variable {p : Reader β} {f : α → List Token} {g : γ → List Token}

theorem le {m : Nat} (hp : Prompt n p f) (h : m ≤ n) : Prompt m p f :=
  fun ts hts => hp ts (Nat.le_trans hts h)

theorem mono (hp : Prompt n p f) (h : ∀ a, ∃ c, f a = g c) : Prompt n p g :=
  fun ts hts => (hp ts hts).mono h

theorem pure (b : β) : Prompt n (Pure.pure b) (fun _ : Unit => []) := fun _ _ => .pure b

theorem fail [Nonempty α] (cause : Cause) : Prompt n (Reader.fail cause : Reader β) f :=
  fun _ _ => .fail cause f

theorem unexpected [Nonempty α] (wanted : Wanted) :
    Prompt n (Reader.unexpected wanted : Reader β) f :=
  fun _ _ => .unexpected wanted f

theorem expect (k : TokenKind) : Prompt n (Reader.expect k) (fun a : Lexeme k => [a.val]) :=
  fun _ _ => .expect k

theorem bind [Nonempty γ] {q : β → Reader δ} (hp : Prompt n p f) (hq : ∀ b, Prompt n (q b) g) :
    Prompt n (p >>= q) (fun x : α × γ => f x.1 ++ g x.2) :=
  fun ts hts => (hp ts hts).bind fun b us hus => hq b us (Nat.le_trans hus hts)

theorem map (hp : Prompt n p f) (h : β → δ) : Prompt n (h <$> p) f :=
  (hp.bind fun b => .pure (h b)).mono fun x => ⟨x.1, List.append_nil _⟩

theorem peek {q : Token → Reader β} (hq : ∀ t, Prompt n (q t) f) :
    Prompt n (Reader.peek >>= q) f :=
  fun ts hts => .peek (hq _ ts hts)

theorem accept {k : TokenKind} {p q : Reader β} (hf : ∀ m, m < n → Prompt m p f)
    (hg : Prompt n q g) :
    Prompt n (Reader.accept k >>= fun c => if c = true then p else q)
      (Sum.elim (fun x : Lexeme k × α => x.1.val :: f x.2) g) :=
  fun ts hts => .accept (q := fun c => if c = true then p else q)
    (fun us hus => hf _ (Nat.lt_of_lt_of_le hus hts) us (Nat.le_refl _)) (hg ts hts)

end

/-- Items go on as long as separators do. -/
theorem sepBy_eq (k : TokenKind) (item : Reader β) : sepBy k item = item >>= fun b =>
    Reader.accept k >>= fun c => if c = true then (b :: ·) <$> sepBy k item else Pure.pure [b] := by
  funext ts
  rw [sepBy]
  show _ = andThen (item ts) _
  cases item ts with
  | error e => rfl
  | ok x =>
    obtain ⟨b, us, h⟩ := x
    cases us with
    | nil => rfl
    | cons t us =>
      by_cases hk : t.kind = k
      · simp only [andThen, Bind.bind, Reader.bind, Reader.accept, if_pos hk]
        cases hrest : sepBy k item us with
        | error e => simp [Functor.map, Reader.bind, andThen, hrest]
        | ok y => simp [Functor.map, Reader.bind, andThen, hrest, Reader.pure]
      · simp only [andThen, Bind.bind, Reader.bind, Reader.accept, if_neg hk]
        rfl

theorem sepBy [Nonempty α] {k : TokenKind} {item : Reader β} {f : α → List Token}
    (h : Prompt n item f) : Prompt n (Reader.sepBy k item) (Separated.tokens (k := k) f) := by
  induction n using Nat.strongRecOn with
  | ind n ih =>
    have hmore (b : β) (m : Nat) (hm : m < n) :
        Prompt m ((b :: ·) <$> Reader.sepBy k item) (Separated.tokens (k := k) f) :=
      (ih m hm (h.le (Nat.le_of_lt hm))).map (b :: ·)
    rw [sepBy_eq]
    refine (h.bind fun b => accept (hmore b) (.pure [b])).mono ?_
    rintro ⟨a, ⟨sep, rest⟩ | ⟨⟩⟩
    · exact ⟨.more a sep rest, rfl⟩
    · exact ⟨.one a, List.append_nil _⟩

end Prompt

/-! ## Types -/

open Contract.Parse

instance : Nonempty TypeTree := ⟨.var (lexeme .tvar "" .unknown)⟩

instance : Nonempty TypesTree := ⟨.one (.var (lexeme .tvar "" .unknown))⟩

theorem Separated.exists_typesTree (s : Separated .comma TypeTree) :
    ∃ ds : TypesTree, s.tokens TypeTree.tokens = ds.tokens := by
  induction s with
  | one d => exact ⟨.one d, rfl⟩
  | more d comma rest ih =>
    obtain ⟨ds, h⟩ := ih
    exact ⟨.more d comma ds, by rw [tokens, h, TypesTree.tokens]⟩

/-- What follows a lower-case name in a type. -/
def applied (name : Name) : Reader TypeExpr := do
  if ← accept .lparen then
    let args ← types
    let _ ← expect .rparen
    return .app (.named name) args
  else return .named name

/-- What follows an opening parenthesis in a type. -/
def enclosed : Reader TypeExpr := do
  if (← peek).kind = .rparen then
    let _ ← expect .rparen
    closed (.tuple [])
  else
    let args ← types
    let _ ← expect .rparen
    closed (grouped args)

section

variable {t : Token} (us : List Token)

theorem typeExpr_identifier (h : t.kind = .identifier) :
    typeExpr (t :: us) = behind (applied t.name us) := by
  rw [typeExpr.eq_def]
  simp only [h]
  cases us with
  | nil => rfl
  | cons u vs =>
    by_cases hu : u.kind = .lparen
    · show (if u.kind = .lparen then _ else _) = behind (andThen (accept .lparen (u :: vs)) _)
      rw [accept, if_pos hu, if_pos hu]
      rfl
    · show (if u.kind = .lparen then _ else _) = behind (andThen (accept .lparen (u :: vs)) _)
      rw [accept, if_neg hu, if_neg hu]
      rfl

theorem typeExpr_lparen (h : t.kind = .lparen) :
    typeExpr (t :: us) = behind (enclosed us) := by
  rw [typeExpr.eq_def]
  simp only [h]
  rw [enclosed, peek_bind]
  by_cases hu : (head us).kind = .rparen
  · rw [if_pos hu, if_pos hu]
    rfl
  · rw [if_neg hu, if_neg hu]
    rfl

theorem typeExpr_other (h : t.kind ≠ .tvar ∧ t.kind ≠ .con ∧ t.kind ≠ .identifier ∧
    t.kind ≠ .lparen) : typeExpr (t :: us) = unexpected .type (t :: us) := by
  obtain ⟨h₁, h₂, h₃, h₄⟩ := h
  rw [typeExpr.eq_def]
  simp only

end

theorem prompt_closed (type : TypeExpr) : Prompt n (closed type) fun _ : Unit => [] := by
  refine .peek fun t => ?_
  split
  · exact .fail .functionType
  · exact .pure type

theorem Prompt.types (h : Prompt n typeExpr TypeTree.tokens) :
    Prompt n Contract.Parse.types TypesTree.tokens := by
  rw [types_eq_sepBy]
  exact h.sepBy.mono Separated.exists_typesTree

/-- The types up to a closing parenthesis. -/
theorem Prompt.types_rparen [Nonempty α] {f : α → List Token} {q : List TypeExpr → Reader β}
    (h : Prompt n typeExpr TypeTree.tokens) (hq : ∀ args, Prompt n (q args) f) :
    Prompt n (Contract.Parse.types >>= fun args => Reader.expect .rparen >>= fun _ => q args)
      (fun x : TypesTree × Lexeme .rparen × α => x.1.tokens ++ ([x.2.1.val] ++ f x.2.2)) :=
  h.types.bind fun args => (Prompt.expect .rparen).bind fun _ => hq args

theorem prompt_applied (name : Name) (h : ∀ m, m < n → Prompt m typeExpr TypeTree.tokens) :
    Prompt n (applied name) (Sum.elim
      (fun x : Lexeme .lparen × TypesTree × Lexeme .rparen × Unit =>
        x.1.val :: (x.2.1.tokens ++ ([x.2.2.1.val] ++ [])))
      fun _ : Unit => []) := by
  have hargs (m : Nat) (hm : m < n) := (h m hm).types_rparen fun args =>
    Prompt.pure (n := m) (TypeExpr.app (.named name) args)
  exact Prompt.accept hargs (.pure (TypeExpr.named name))

theorem prompt_enclosed (h : Prompt n typeExpr TypeTree.tokens) :
    Prompt n enclosed (Sum.elim
      (fun x : TypesTree × Lexeme .rparen × Unit => x.1.tokens ++ ([x.2.1.val] ++ []))
      (fun c : Lexeme .rparen => [c.val])) := by
  refine .peek fun t => ?_
  split
  · refine ((Prompt.expect .rparen).bind fun _ => prompt_closed _).mono fun x => ⟨.inr x.1, ?_⟩
    exact List.append_nil _
  · exact (h.types_rparen fun args => prompt_closed _).mono fun x => ⟨.inl x, rfl⟩

/-- **The reader for types is prompt.** -/
theorem prompt_typeExpr (n : Nat) : Prompt n typeExpr TypeTree.tokens := by
  induction n using Nat.strongRecOn with
  | ind n ih =>
    intro ts hts
    cases ts with
    | nil =>
      refine (PromptAt.unexpected .type _).of_head fun us hhead => ?_
      rw [List.head?_eq_none_iff.1 hhead, typeExpr.eq_def]
    | cons t us =>
      have hus : us.length < n := hts
      by_cases hv : t.kind = .tvar
      · refine ((PromptAt.pure (.var t.name)).behind fun vs => ?_).mono fun _ => ⟨.var ⟨t, hv⟩, rfl⟩
        rw [typeExpr.eq_def]
        simp only [hv]
        rfl
      by_cases hc : t.kind = .con
      · refine ((PromptAt.pure (.contract t.name)).behind fun vs => ?_).mono
          fun _ => ⟨.contract ⟨t, hc⟩, rfl⟩
        rw [typeExpr.eq_def]
        simp only [hc]
        rfl
      by_cases hn : t.kind = .identifier
      · have happlied := prompt_applied t.name (fun m hm => ih m (Nat.lt_trans hm hus)) us
          (Nat.le_refl _)
        refine (happlied.behind fun vs => typeExpr_identifier vs hn).mono ?_
        rintro (⟨o, args, c, ⟨⟩⟩ | ⟨⟩)
        · exact ⟨.app ⟨t, hn⟩ o args c, rfl⟩
        · exact ⟨.named ⟨t, hn⟩, rfl⟩
      by_cases hp : t.kind = .lparen
      · have henclosed := prompt_enclosed (ih us.length hus) us (Nat.le_refl _)
        refine (henclosed.behind fun vs => typeExpr_lparen vs hp).mono ?_
        rintro (⟨args, c, ⟨⟩⟩ | c)
        · cases args with
          | one d => exact ⟨.group ⟨t, hp⟩ d c, rfl⟩
          | more d comma ds =>
            exact ⟨.tuple ⟨t, hp⟩ d comma ds c, by simp [TypeTree.tokens, TypesTree.tokens]⟩
        · exact ⟨.unit ⟨t, hp⟩ c, rfl⟩
      · refine (PromptAt.unexpected .type _).of_head fun vs hhead => ?_
        obtain ⟨ws, rfl⟩ := List.head?_eq_some_iff.1 hhead
        exact typeExpr_other ws ⟨hv, hc, hn, hp⟩

end Grammar

end ContractInterface
