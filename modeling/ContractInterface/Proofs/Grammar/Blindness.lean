import ContractInterface.Proofs.Grammar.Prompt
import ContractInterface.Proofs.Sameness

/-!
# Readers are blind to positions

Tokens are read by their spelling.  On two lists that are spelled alike a reader does the same: it
fails for the same cause, or it takes values that differ in positions only and leaves rests that are
spelled alike again (`Blind`).  A reader built from blind ones is blind, and so two whole lists yield
the same contracts or the same failure:

    SpelledAlike ts us →
      AlikeResults (List.map Contract.bare) (contracts known ts) (contracts known us) (alike_contracts)
-/

namespace ContractInterface

open Reader

/-! ## Causes without positions -/

def Reading.bare : Reading → Reading
  | definition d => definition d.bare
  | described text => described text

def Cause.bare : Cause → Cause
  | unexpected found wanted => unexpected found.bare wanted
  | unbalanced found => unbalanced found.bare
  | ambiguous readings => ambiguous (readings.map Reading.bare)
  | c => c

/-- The wording of a failure does not look at positions. -/
theorem Cause.detail_bare (c : Cause) : c.bare.detail = c.detail := by
  cases c with
  | ambiguous readings =>
    show s!"ambiguous parse ({(readings.map Reading.bare).length} alternatives)" = _
    rw [List.length_map]
    rfl
  | _ => rfl

namespace Grammar

variable {α α' β γ γ' : Type} {n : Nat} {ts us : List Token}

/-! ## Spelling -/

def SpelledAlike (ts us : List Token) : Prop := ts.map Token.bare = us.map Token.bare

theorem spelledAlike_nil_iff : SpelledAlike [] us ↔ us = [] := by
  cases us <;> simp [SpelledAlike]

/-- Both lists have a first token, or none has. -/
theorem spelledAlike_cons_iff {t : Token} : SpelledAlike (t :: ts) us ↔
    ∃ u vs, us = u :: vs ∧ t.bare = u.bare ∧ SpelledAlike ts vs := by
  cases us <;> simp [SpelledAlike]

theorem SpelledAlike.length_eq (h : SpelledAlike ts us) : ts.length = us.length := by
  have hlength := congrArg List.length h
  rwa [List.length_map, List.length_map] at hlength

theorem SpelledAlike.head (h : SpelledAlike ts us) : (head ts).bare = (head us).bare := by
  cases ts with
  | nil => rw [spelledAlike_nil_iff.1 h]
  | cons t ts =>
    obtain ⟨u, vs, rfl, htu, -⟩ := spelledAlike_cons_iff.1 h
    exact htu

theorem SpelledAlike.take (h : SpelledAlike ts us) (m : Nat) :
    SpelledAlike (ts.take m) (us.take m) := by
  rw [SpelledAlike, List.map_take, List.map_take, h]

theorem SpelledAlike.drop (h : SpelledAlike ts us) (m : Nat) :
    SpelledAlike (ts.drop m) (us.drop m) := by
  rw [SpelledAlike, List.map_drop, List.map_drop, h]

theorem kind_eq_of_bare {t u : Token} (h : t.bare = u.bare) : t.kind = u.kind :=
  (Token.bare_eq_iff.1 h).1

theorem name_bare_of_bare {t u : Token} (h : t.bare = u.bare) : t.name.bare = u.name.bare :=
  Name.bare_eq_iff.2 (Token.bare_eq_iff.1 h).2

/-! ## Results -/

/-- Two failures for the same cause, or values that look alike in front of rests that are spelled
alike. -/
inductive Alike (look : α → β) :
    Except Failure (Read α ts) → Except Failure (Read α us) → Prop
  | error {e f : Failure} (h : e.cause.bare = f.cause.bare) : Alike look (.error e) (.error f)
  | ok {x : Read α ts} {y : Read α us} (hvalue : look x.value = look y.value)
      (hrest : SpelledAlike x.rest y.rest) : Alike look (.ok x) (.ok y)

theorem Alike.andThen {look : α → β} {look' : α' → γ} {r : Except Failure (Read α ts)}
    {r' : Except Failure (Read α us)} {p q : α → Reader α'} (h : Alike look r r')
    (hnext : ∀ (x : Read α ts) (y : Read α us), look x.value = look y.value →
      SpelledAlike x.rest y.rest → Alike look' (p x.value x.rest) (q y.value y.rest)) :
    Alike look' (andThen r p) (andThen r' q) := by
  cases h with
  | error h => exact .error h
  | @ok x y hvalue hrest =>
    have hxy := hnext x y hvalue hrest
    obtain ⟨a, ws, hx⟩ := x
    obtain ⟨b, vs, hy⟩ := y
    simp only [Reader.andThen]
    generalize p a ws = r at hxy ⊢
    generalize q b vs = r' at hxy ⊢
    cases hxy with
    | error h => exact .error h
    | ok hvalue hrest => exact .ok hvalue hrest

theorem Alike.behind {look : α → β} {t u : Token} {r : Except Failure (Read α ts)}
    {r' : Except Failure (Read α us)} (h : Alike look r r') :
    Alike look (behind (t := t) r) (behind (t := u) r') := by
  cases h with
  | error h => exact .error h
  | ok hvalue hrest => exact .ok hvalue hrest

/-! ## Readers -/

/-- On lists of at most `n` tokens that are spelled alike, the readers do alike. -/
def Blind (n : Nat) (look : α → β) (p q : Reader α) : Prop :=
  ∀ ts us : List Token, ts.length ≤ n → SpelledAlike ts us → Alike look (p ts) (q us)

namespace Blind

variable {look : α → β} {look' : α' → γ} {p q : Reader α}

theorem mono {m : Nat} (h : Blind n look p q) (hm : m ≤ n) : Blind m look p q :=
  fun ts us hts => h ts us (Nat.le_trans hts hm)

theorem pure {a b : α} (h : look a = look b) : Blind n look (Pure.pure a) (Pure.pure b) :=
  fun _ _ _ hspelled => .ok h hspelled

theorem fail {c d : Cause} (h : c.bare = d.bare) :
    Blind n look (Reader.fail c) (Reader.fail d) :=
  fun _ _ _ _ => .error h

theorem unexpected (wanted : Wanted) :
    Blind n look (Reader.unexpected wanted) (Reader.unexpected wanted) :=
  fun _ _ _ hspelled => .error (congrArg (Cause.unexpected · wanted) hspelled.head)

theorem expect (k : TokenKind) : Blind n Token.bare (Reader.expect k) (Reader.expect k) := by
  intro ts us hts hspelled
  cases ts with
  | nil =>
    obtain rfl := spelledAlike_nil_iff.1 hspelled
    exact Blind.unexpected (n := n) (.token k) [] [] hts rfl
  | cons t ts =>
    obtain ⟨u, vs, rfl, htu, hrest⟩ := spelledAlike_cons_iff.1 hspelled
    have hkind := kind_eq_of_bare htu
    simp only [Reader.expect, ← hkind]
    split
    · exact .ok htu hrest
    · exact Blind.unexpected (.token k) _ _ hts hspelled

/-- One reader behind the other. -/
theorem bind {f g : α → Reader α'} (h : Blind n look p q)
    (hnext : ∀ a b, look a = look b → Blind n look' (f a) (g b)) :
    Blind n look' (p >>= f) (q >>= g) := by
  intro ts us hts hspelled
  refine (h ts us hts hspelled).andThen fun x y hvalue hrest => ?_
  exact hnext x.value y.value hvalue x.rest y.rest (Nat.le_trans x.le hts) hrest

theorem map {f g : α → α'} (h : Blind n look p q)
    (hnext : ∀ a b, look a = look b → look' (f a) = look' (g b)) :
    Blind n look' (f <$> p) (g <$> q) :=
  h.bind fun a b hab => .pure (hnext a b hab)

theorem ite {c d : Prop} [Decidable c] [Decidable d] {p' q' : Reader α} (hcd : c ↔ d)
    (h : Blind n look p q) (h' : Blind n look p' q') :
    Blind n look (if c then p else p') (if d then q else q') := by
  by_cases hc : c
  · rwa [if_pos hc, if_pos (hcd.1 hc)]
  · rwa [if_neg hc, if_neg (mt hcd.2 hc)]

/-- What is looked at is still there. -/
theorem peek {f g : Token → Reader α} (h : ∀ t u, t.bare = u.bare → Blind n look (f t) (g u)) :
    Blind n look (Reader.peek >>= f) (Reader.peek >>= g) := by
  intro ts us hts hspelled
  rw [peek_bind, peek_bind]
  exact h _ _ hspelled.head ts us hts hspelled

/-- A token of kind `k` decides how to go on. -/
theorem accept {k : TokenKind} {p' q' : Reader α} (h : ∀ m, m < n → Blind m look p q)
    (h' : Blind n look p' q') :
    Blind n look (Reader.accept k >>= fun c => if c = true then p else p')
      (Reader.accept k >>= fun c => if c = true then q else q') := by
  intro ts us hts hspelled
  cases ts with
  | nil =>
    obtain rfl := spelledAlike_nil_iff.1 hspelled
    show Alike look (andThen (Reader.accept k []) fun c => if c = true then p else p')
      (andThen (Reader.accept k []) fun c => if c = true then q else q')
    rw [Reader.accept, andThen_nothing, andThen_nothing]
    exact h' [] [] hts rfl
  | cons t ts =>
    obtain ⟨u, vs, rfl, htu, hrest⟩ := spelledAlike_cons_iff.1 hspelled
    have hkind := kind_eq_of_bare htu
    show Alike look (andThen (Reader.accept k (t :: ts)) _) (andThen (Reader.accept k (u :: vs)) _)
    rw [Reader.accept, Reader.accept, ← hkind]
    split
    · exact (h ts.length hts ts vs (Nat.le_refl _) hrest).behind
    · rw [andThen_nothing, andThen_nothing]
      exact h' _ _ hts hspelled

theorem sepBy {k : TokenKind} (h : Blind n look p q) :
    Blind n (List.map look) (Reader.sepBy k p) (Reader.sepBy k q) := by
  induction n using Nat.strongRecOn with
  | ind n ih =>
    rw [Prompt.sepBy_eq k p, Prompt.sepBy_eq k q]
    refine h.bind fun a b hab => .accept (fun m hm => ?_) (.pure ?_)
    · refine (ih m hm (h.mono (Nat.le_of_lt hm))).map fun as bs hs => ?_
      rw [List.map_cons, List.map_cons, hab, hs]
    · rw [List.map_singleton, List.map_singleton, hab]

end Blind

/-! ## Types -/

open Contract.Parse

theorem blind_closed {t u : TypeExpr} (h : t.bare = u.bare) :
    Blind n TypeExpr.bare (closed t) (closed u) :=
  .peek fun a b hab => .ite (by rw [kind_eq_of_bare hab]) (.fail rfl) (.pure h)

theorem bare_grouped (ts : List TypeExpr) :
    (grouped ts).bare = grouped (ts.map TypeExpr.bare) := by
  match ts with
  | [] => rfl
  | [t] => rfl
  | t :: u :: ts =>
    show TypeExpr.tuple (TypeExpr.bares (t :: u :: ts)) = _
    rw [TypeExpr.bares_eq_map]
    rfl

/-- The types up to a closing parenthesis. -/
theorem Blind.types_rparen {look : α → β} {f g : List TypeExpr → Reader α}
    (h : Blind n TypeExpr.bare typeExpr typeExpr)
    (hnext : ∀ as bs, as.map TypeExpr.bare = bs.map TypeExpr.bare → Blind n look (f as) (g bs)) :
    Blind n look (types >>= fun as => Reader.expect .rparen >>= fun _ => f as)
      (types >>= fun bs => Reader.expect .rparen >>= fun _ => g bs) := by
  rw [types_eq_sepBy]
  exact h.sepBy.bind fun as bs hs => (Blind.expect .rparen).bind fun _ _ _ => hnext as bs hs

theorem blind_applied {l m : Name} (hname : l.bare = m.bare)
    (h : ∀ k, k < n → Blind k TypeExpr.bare typeExpr typeExpr) :
    Blind n TypeExpr.bare (applied l) (applied m) := by
  refine .accept (fun k hk => (h k hk).types_rparen fun as bs hs => .pure ?_) (.pure ?_)
  · simp only [TypeExpr.bare, TypeExpr.bares_eq_map, hs, Name.bare_eq_iff.1 hname]
  · exact congrArg TypeExpr.named hname

theorem blind_enclosed (h : Blind n TypeExpr.bare typeExpr typeExpr) :
    Blind n TypeExpr.bare enclosed enclosed := by
  refine .peek fun t u htu => .ite (by rw [kind_eq_of_bare htu]) ?_ ?_
  · exact (Blind.expect .rparen).bind fun _ _ _ => blind_closed rfl
  · refine h.types_rparen fun as bs hs => blind_closed ?_
    rw [bare_grouped, bare_grouped, hs]

/-- **The reader for types is blind.** -/
theorem blind_typeExpr (n : Nat) : Blind n TypeExpr.bare typeExpr typeExpr := by
  induction n using Nat.strongRecOn with
  | ind n ih =>
    intro ts us hts hspelled
    cases ts with
    | nil =>
      obtain rfl := spelledAlike_nil_iff.1 hspelled
      rw [typeExpr.eq_def]
      exact Blind.unexpected (n := n) .type [] [] hts rfl
    | cons t ts =>
      obtain ⟨u, vs, rfl, htu, hrest⟩ := spelledAlike_cons_iff.1 hspelled
      have hkind := kind_eq_of_bare htu
      have hname := name_bare_of_bare htu
      have hlt : ts.length < n := hts
      by_cases hv : t.kind = .tvar
      · rw [typeExpr.eq_def, typeExpr.eq_def]
        simp only [hv, ← hkind]
        exact .ok (congrArg TypeExpr.var hname) hrest
      by_cases hc : t.kind = .con
      · rw [typeExpr.eq_def, typeExpr.eq_def]
        simp only [hc, ← hkind]
        exact .ok (congrArg TypeExpr.contract hname) hrest
      by_cases hi : t.kind = .identifier
      · rw [typeExpr_identifier ts hi, typeExpr_identifier vs (hkind ▸ hi)]
        have happlied := blind_applied hname fun k hk => ih k (Nat.lt_trans hk hlt)
        exact (happlied ts vs (Nat.le_refl _) hrest).behind
      by_cases hp : t.kind = .lparen
      · rw [typeExpr_lparen ts hp, typeExpr_lparen vs (hkind ▸ hp)]
        exact (blind_enclosed (ih _ hlt) ts vs (Nat.le_refl _) hrest).behind
      · rw [typeExpr_other ts ⟨hv, hc, hi, hp⟩, typeExpr_other vs (hkind ▸ ⟨hv, hc, hi, hp⟩)]
        exact Blind.unexpected .type _ _ hts hspelled

theorem blind_typeArgs : Blind n (List.map TypeExpr.bare) typeArgs typeArgs :=
  (Blind.expect .lparen).bind fun _ _ _ =>
    (blind_typeExpr n).types_rparen fun _ _ hs => .pure hs

/-! ## Type definitions -/

theorem blind_typeParams : Blind n (List.map Name.bare) typeParams typeParams := by
  refine .accept (fun m _ => ?_) (.pure rfl)
  have hvar : Blind m Name.bare (Token.name <$> Reader.expect .tvar)
      (Token.name <$> Reader.expect .tvar) :=
    (Blind.expect .tvar).map fun _ _ => name_bare_of_bare
  exact hvar.sepBy.bind fun vs ws hs => (Blind.expect .rparen).bind fun _ _ _ => .pure hs

/-- The name and parameters without positions. -/
def bareHead (h : Name × List Name) : Name × List Name := (h.1.bare, h.2.map Name.bare)

theorem blind_typeHead : Blind n bareHead typeHead typeHead :=
  (Blind.expect .identifier).bind fun _ _ htu => blind_typeParams.bind fun _ _ hs =>
    (Blind.expect .eq).bind fun _ _ _ =>
      .pure (congrArg₂ Prod.mk (name_bare_of_bare htu) hs)

/-- Definitions with the same head and the same body. -/
theorem bare_typeDef {h h' : Name × List Name} (hh : bareHead h = bareHead h') {t u : TypeExpr}
    (htu : t.bare = u.bare) (p p' : Option Position) :
    (TypeDef.mk h.1 h.2 t p).bare = (TypeDef.mk h'.1 h'.2 u p').bare := by
  obtain ⟨hname, hvars⟩ := Prod.mk.inj hh
  rw [TypeDef.bare, TypeDef.bare, TypeDef.mk.injEq]
  exact ⟨hname, hvars, htu, rfl⟩

theorem bare_aliasReadings {h h' : Name × List Name} (hh : bareHead h = bareHead h') {c c' : Name}
    (hc : c'.text = c.text) (p q : Position) :
    (aliasReadings h.1 h.2 c p).map Reading.bare = (aliasReadings h'.1 h'.2 c' q).map Reading.bare := by
  have hdefinition {t u : TypeExpr} (htu : t.bare = u.bare) :
      (Reading.definition ⟨h.1, h.2, t, some p⟩).bare =
        (Reading.definition ⟨h'.1, h'.2, u, some q⟩).bare :=
    congrArg Reading.definition (bare_typeDef hh htu (some p) (some q))
  refine congrArg₂ (fun a b => [a, b]) (hdefinition ?_) (hdefinition ?_)
  · simp only [TypeExpr.bare, hc]
  · simp only [TypeExpr.bare, TypeExpr.bares, hc]

theorem exists_of_bare_eq_contract {t : TypeExpr} {n : Name} (h : t.bare = .contract n) :
    ∃ m, t = .contract m ∧ m.text = n.text := by
  cases t <;> simp only [TypeExpr.bare, TypeExpr.contract.injEq, reduceCtorEq] at h
  case contract m => exact ⟨m, rfl, by rw [← h]⟩

theorem blind_aliasDef (known : List String) (p q : Position) :
    Blind n TypeDef.bare (aliasDef known p) (aliasDef known q) := by
  refine blind_typeHead.bind fun h h' hh => .peek fun _ _ _ =>
    (blind_typeExpr n).bind fun t u htu => ?_
  have hbody : (TypeExpr.synonym t).bare = (TypeExpr.synonym u).bare :=
    congrArg TypeExpr.synonym htu
  have hplain := bare_typeDef hh hbody (some p) (some q)
  split
  · next con =>
    obtain ⟨con', rfl, htext⟩ := exists_of_bare_eq_contract htu.symm
    simp only [htext]
    exact .ite Iff.rfl (.pure hplain) fun _ _ _ _ =>
      .error (congrArg Cause.ambiguous (bare_aliasReadings hh htext p q))
  · next hnot =>
    have hnot' : ∀ con, u ≠ .contract con := by
      rintro con rfl
      obtain ⟨con', rfl, -⟩ := exists_of_bare_eq_contract htu
      exact hnot con' rfl
    split
    · next con => exact absurd rfl (hnot' con)
    · exact .pure hplain

theorem blind_recordField : Blind n TypeExpr.bare recordField recordField := by
  refine (Blind.expect .identifier).bind fun l m hname => (Blind.expect .colon).bind fun _ _ _ =>
    (blind_typeExpr n).bind fun t u htu => .pure ?_
  simp only [TypeExpr.bare, htu, Name.bare_eq_iff.1 (name_bare_of_bare hname)]

theorem blind_recordDef (p q : Position) : Blind n TypeDef.bare (recordDef p) (recordDef q) := by
  refine blind_typeHead.bind fun h h' hh => (Blind.expect .lbrace).bind fun _ _ _ =>
    (blind_recordField.sepBy).bind fun fs gs hs => (Blind.expect .rbrace).bind fun _ _ _ =>
      .pure (bare_typeDef hh ?_ _ _)
  rw [TypeExpr.bare, TypeExpr.bare, TypeExpr.bares_eq_map, TypeExpr.bares_eq_map, hs]

theorem blind_constructor : Blind n TypeExpr.bare constructor constructor := by
  refine (Blind.expect .con).bind fun l m hname => .peek fun t u htu => ?_
  have hconstr (as bs : List TypeExpr) (hs : as.map TypeExpr.bare = bs.map TypeExpr.bare) :
      (TypeExpr.constr (.contract l.name) as (some l.pos)).bare =
        (TypeExpr.constr (.contract m.name) bs (some m.pos)).bare := by
    simp only [TypeExpr.bare, TypeExpr.bares_eq_map, hs,
      Name.bare_eq_iff.1 (name_bare_of_bare hname)]
  refine .ite (by rw [kind_eq_of_bare htu]) ?_ ?_
  · exact blind_typeArgs.bind fun as bs hs => .pure (hconstr as bs hs)
  · exact .pure (hconstr [] [] rfl)

theorem blind_datatypeDef (p q : Position) :
    Blind n TypeDef.bare (datatypeDef p) (datatypeDef q) := by
  refine blind_typeHead.bind fun h h' hh => (blind_constructor.sepBy).bind fun cs ds hs =>
    .pure (bare_typeDef hh ?_ _ _)
  rw [TypeExpr.bare, TypeExpr.bare, TypeExpr.bares_eq_map, TypeExpr.bares_eq_map, hs]

/-! ## Functions -/

/-- A type behind a colon, if there is a colon. -/
theorem Blind.ascription {look : α → β} {f g : Option TypeExpr → Reader α}
    (h : ∀ o o', o.map TypeExpr.bare = o'.map TypeExpr.bare → Blind n look (f o) (g o')) :
    Blind n look
      (Reader.accept .colon >>= fun c =>
        if c = true then some <$> typeExpr >>= f else Pure.pure none >>= f)
      (Reader.accept .colon >>= fun c =>
        if c = true then some <$> typeExpr >>= g else Pure.pure none >>= g) := by
  have htype (m : Nat) : Blind m (Option.map TypeExpr.bare) (some <$> (typeExpr : Reader TypeExpr))
      (some <$> (typeExpr : Reader TypeExpr)) :=
    (blind_typeExpr m).map fun _ _ htu => congrArg some htu
  have hnone : Blind n (Option.map TypeExpr.bare) (Pure.pure none) (Pure.pure none) := .pure rfl
  refine .accept (fun m hm => ?_) (hnone.bind h)
  exact (htype m).bind fun o o' ho => (h o o' ho).mono (Nat.le_of_lt hm)

theorem blind_param : Blind n Param.bare param param := by
  refine (Blind.expect .identifier).bind fun l m hname => .ascription fun o o' ho => .pure ?_
  rw [Param.bare, Param.bare, Param.mk.injEq]
  exact ⟨congrArg TypeExpr.named (name_bare_of_bare hname), ho, rfl⟩

theorem blind_params : Blind n (List.map Param.bare) params params :=
  (Blind.expect .lparen).bind fun _ _ _ => .accept (fun _ _ => .pure rfl)
    ((blind_param.sepBy).bind fun _ _ hs => (Blind.expect .rparen).bind fun _ _ _ => .pure hs)

/-- Two failures for the same cause, or values that look alike. -/
inductive AlikeResults (look : α → β) : Except Failure α → Except Failure α → Prop
  | error {e f : Failure} (h : e.cause.bare = f.cause.bare) :
      AlikeResults look (.error e) (.error f)
  | ok {a b : α} (h : look a = look b) : AlikeResults look (.ok a) (.ok b)

theorem AlikeResults.of_ok {look : α → β} {r r' : Except Failure α} {a : α}
    (h : AlikeResults look r r') (hr : r = .ok a) : ∃ b, r' = .ok b ∧ look a = look b := by
  cases h with
  | error h => cases hr
  | @ok a' b h =>
    cases hr
    exact ⟨b, rfl, h⟩

/-- A body is as long in both lists. -/
theorem alike_bodyLength {d : Nat} (h : SpelledAlike ts us) :
    AlikeResults id (bodyLength d ts) (bodyLength d us) := by
  have hmore {r r' : Except Failure Nat} (h : AlikeResults id r r') :
      AlikeResults id (r.map (· + 1)) (r'.map (· + 1)) := by
    cases h with
    | error h => exact .error h
    | ok h => exact .ok (congrArg (· + 1) h)
  induction ts generalizing d us with
  | nil =>
    obtain rfl := spelledAlike_nil_iff.1 h
    cases bodyLength d [] with
    | error e => exact .error rfl
    | ok k => exact .ok rfl
  | cons t ts ih =>
    obtain ⟨u, vs, rfl, htu, hrest⟩ := spelledAlike_cons_iff.1 h
    rw [bodyLength.eq_def, bodyLength.eq_def]
    simp only [← kind_eq_of_bare htu]
    split
    · split
      · exact .ok rfl
      · exact .error rfl
    split
    · exact .ok rfl
    split
    · exact hmore (ih hrest)
    split
    · cases d with
      | zero => exact .error (congrArg Cause.unbalanced htu)
      | succ d => exact hmore (ih hrest)
    · exact hmore (ih hrest)

theorem blind_body : Blind n (List.map Token.bare) body body := by
  intro ts us hts hspelled
  have hlength := alike_bodyLength (d := 0) hspelled
  unfold body
  generalize bodyLength 0 ts = r at hlength ⊢
  generalize bodyLength 0 us = r' at hlength ⊢
  cases hlength with
  | error h => exact .error h
  | @ok k k' h =>
    obtain rfl : k = k' := h
    cases k with
    | zero => exact Blind.unexpected .functionBody ts us hts hspelled
    | succ k => exact .ok (hspelled.take _) (hspelled.drop _)

theorem blind_modifiers : Blind n id modifiers modifiers := by
  intro ts us hts hspelled
  have hrun (ws : List Token) : (ws.takeWhile fun t => t.kind.isModifier).map Token.bare =
      (ws.map Token.bare).takeWhile fun t => t.kind.isModifier := by
    rw [List.takeWhile_map]
    rfl
  have htake : SpelledAlike (ts.takeWhile fun t => t.kind.isModifier)
      (us.takeWhile fun t => t.kind.isModifier) := by
    rw [SpelledAlike, hrun, hrun, hspelled]
  have hkinds := congrArg (List.map Token.kind) htake
  rw [List.map_map, List.map_map] at hkinds
  refine .ok hkinds ?_
  show SpelledAlike (ts.drop _) (us.drop _)
  rw [htake.length_eq]
  exact hspelled.drop _

theorem blind_functionRest (p q : Position) (ms : List TokenKind) :
    Blind n FunctionDef.bare (functionRest p ms) (functionRest q ms) := by
  refine (Blind.expect .identifier).bind fun l m hname => blind_params.bind fun ps ps' hps =>
    .ascription fun o o' ho => (Blind.expect .eq).bind fun _ _ _ => blind_body.bind fun w w' hw =>
      .pure ?_
  rw [FunctionDef.bare, FunctionDef.bare, FunctionDef.mk.injEq]
  exact ⟨name_bare_of_bare hname, hps, ho, hw, rfl, rfl, rfl⟩

theorem blind_functionDef {t u : Token} (htu : t.bare = u.bare) :
    Blind n FunctionDef.bare (functionDef t) (functionDef u) := by
  unfold functionDef
  rw [← kind_eq_of_bare htu]
  refine .ite Iff.rfl (blind_functionRest _ _ _) ?_
  refine blind_modifiers.bind fun ms ms' hms => (Blind.expect .kwFunction).bind fun _ _ _ => ?_
  obtain rfl : ms = ms' := hms
  exact blind_functionRest _ _ _

/-! ## Declarations and contracts -/

theorem blind_decl (known : List String) {t u : Token} (htu : t.bare = u.bare) :
    Blind n Decl.bare (decl known t) (decl known u) := by
  have htype {p q : Reader TypeDef} (h : Blind n TypeDef.bare p q) :
      Blind n Decl.bare (Decl.typeDef <$> p) (Decl.typeDef <$> q) :=
    h.map fun _ _ hd => congrArg Decl.typeDef hd
  unfold decl
  rw [← kind_eq_of_bare htu]
  split
  · exact htype (blind_aliasDef known _ _)
  · exact htype (blind_recordDef _ _)
  · exact htype (blind_datatypeDef _ _)
  · exact (blind_functionDef htu).map fun _ _ hd => congrArg Decl.function hd

theorem blind_decls (known : List String) (n : Nat) :
    Blind n (List.map Decl.bare) (decls known) (decls known) := by
  induction n using Nat.strongRecOn with
  | ind n ih =>
    intro ts us hts hspelled
    cases ts with
    | nil =>
      obtain rfl := spelledAlike_nil_iff.1 hspelled
      rw [decls.eq_def]
      exact .ok rfl rfl
    | cons t ts =>
      obtain ⟨u, vs, rfl, htu, hrest⟩ := spelledAlike_cons_iff.1 hspelled
      have hkind := kind_eq_of_bare htu
      by_cases ht : t.kind.startsDecl = true
      · have hmore (d e : Decl) (hd : d.bare = e.bare) :
            Blind ts.length (List.map Decl.bare) ((d :: ·) <$> (decls known : Reader (List Decl)))
              ((e :: ·) <$> (decls known : Reader (List Decl))) :=
          (ih ts.length hts).map fun ds es hs => by rw [List.map_cons, List.map_cons, hd, hs]
        rw [decls_cons ht, decls_cons (hkind ▸ ht)]
        exact ((blind_decl known htu).bind hmore ts vs (Nat.le_refl _) hrest).behind
      · rw [decls.eq_def, decls.eq_def]
        simp only [← hkind, if_neg ht]
        exact .ok rfl hspelled

theorem blind_contract (known : List String) (p q : Position) :
    Blind n Contract.bare (contract known p) (contract known q) := by
  refine (Blind.expect .con).bind fun l m hname => (Blind.expect .eq).bind fun _ _ _ =>
    (blind_decls known n).bind fun ds es hs => .peek fun t u htu =>
      .ite (by rw [kind_eq_of_bare htu]) (.pure ?_) (.unexpected .declaration)
  rw [Contract.bare, Contract.bare, Contract.mk.injEq]
  exact ⟨name_bare_of_bare hname, hs, rfl⟩

/-- **Whole lists of tokens are read by their spelling.** -/
theorem alike_contracts (known : List String) (h : SpelledAlike ts us) :
    AlikeResults (List.map Contract.bare) (contracts known ts) (contracts known us) := by
  induction hn : ts.length using Nat.strongRecOn generalizing known ts us with
  | ind n ih =>
  cases ts with
  | nil =>
    obtain rfl := spelledAlike_nil_iff.1 h
    rw [contracts.eq_def]
    exact .error rfl
  | cons t ts =>
    obtain ⟨u, vs, rfl, htu, hrest⟩ := spelledAlike_cons_iff.1 h
    have hcontract := blind_contract known t.pos u.pos ts vs (Nat.le_refl _) hrest
    rw [contracts.eq_def, contracts.eq_def]
    simp only [← kind_eq_of_bare htu]
    split
    · generalize contract known t.pos ts = r at hcontract ⊢
      generalize contract known u.pos vs = r' at hcontract ⊢
      cases hcontract with
      | error h => exact .error h
      | @ok x y hvalue hspelled =>
        have htext : x.value.name.text = y.value.name.text :=
          Name.bare_eq_iff.1 (congrArg Contract.name hvalue)
        have hlt : x.rest.length < n := by
          have hle := x.le
          rw [← hn, List.length_cons]
          omega
        have hmore := ih _ hlt (x.value.name.text :: known) hspelled rfl
        simp only [← kind_eq_of_bare hspelled.head, ← htext]
        split
        · exact .ok (congrArg (fun c => [c]) hvalue)
        · generalize contracts (x.value.name.text :: known) x.rest = r at hmore ⊢
          generalize contracts (x.value.name.text :: known) y.rest = r' at hmore ⊢
          cases hmore with
          | error h => exact .error h
          | ok h => exact .ok (congrArg₂ List.cons hvalue h)
    · exact .error (congrArg (Cause.unexpected · _) htu)

end Grammar

end ContractInterface
