import ContractInterface.Proofs.Grammar.Shape

/-!
# Canonical texts are unambiguous

The text of a type that was built from names in their lexical form determines the type up to
positions, also in front of other text that cannot belong to it (`Behind`):

    t.chars ++ r = u.chars ++ s → t.bare = u.bare ∧ r = s             (TypeExpr.chars_unique)

and so do the bodies of type definitions at the end of a line (`TypeExpr.body_unique`).  The first
character tells variables, lower-case names, capitalized names and tuples apart; an opening
parenthesis behind a lower-case name tells an applied type from a plain one.
-/

namespace ContractInterface

open Token (isNameChar startsName)

/-- The name is written as tokens of its kind are. -/
abbrev LexicalName (k : TokenKind) (n : Name) : Prop := Token.Lexical k n.text

/-! ## Names -/

/-- Runs of characters with a property, in front of what has it not. -/
theorem append_unique {p : Char → Bool} {a b r s : List Char} (ha : ∀ c ∈ a, p c = true)
    (hb : ∀ c ∈ b, p c = true) (hr : ∀ c, r.head? = some c → p c = false)
    (hs : ∀ c, s.head? = some c → p c = false) (h : a ++ r = b ++ s) : a = b ∧ r = s := by
  have hab : a = b := by rw [← takeWhile_append_eq ha hr, h, takeWhile_append_eq hb hs]
  subst hab
  exact ⟨rfl, List.append_cancel_left h⟩

/-- What can stand behind a type. -/
def Behind (r : List Char) : Prop := ∀ c, r.head? = some c → isNameChar c = false ∧ c ≠ '('

theorem behind_nil : Behind [] := by
  rintro c ⟨⟩

theorem behind_cons {c : Char} {r : List Char} (h : isNameChar c = false ∧ c ≠ '(') :
    Behind (c :: r) := by
  rintro d ⟨⟩
  exact h

theorem Behind.ends {r : List Char} (h : Behind r) : Ends r :=
  fun c hc => (h c hc).1

/-- What can stand behind the body of a type definition: its line ends. -/
def AtLineEnd (r : List Char) : Prop := ∀ c, r.head? = some c → c = '\n'

theorem atLineEnd_nil : AtLineEnd [] := by
  rintro c ⟨⟩

theorem atLineEnd_cons (r : List Char) : AtLineEnd ('\n' :: r) := by
  rintro c ⟨⟩
  rfl

theorem AtLineEnd.behind {r : List Char} (h : AtLineEnd r) : Behind r := by
  intro c hc
  rw [h c hc]
  decide

theorem AtLineEnd.head?_ne {r : List Char} (h : AtLineEnd r) {c : Char} (hc : c ≠ '\n') :
    r.head? ≠ some c :=
  fun hr => hc (h c hr)

theorem LexicalName.chars {k : TokenKind} {n : Name} (h : LexicalName k n)
    (hk : k = .identifier ∨ k = .con ∨ k = .tvar) : ∀ c ∈ n.text.toList, isNameChar c = true := by
  rcases hk with rfl | rfl | rfl
  · obtain ⟨c, r, e, hc, -, hr, -⟩ := h
    rw [e, List.forall_mem_cons]
    exact ⟨Token.isNameChar_of_startsName hc, hr⟩
  · obtain ⟨c, r, e, hc, -, hr⟩ := h
    rw [e, List.forall_mem_cons]
    exact ⟨Token.isNameChar_of_startsName hc, hr⟩
  · obtain ⟨c, r, e, hc, hr⟩ := h
    rw [e, List.forall_mem_cons, List.forall_mem_cons]
    exact ⟨by decide, Token.isNameChar_of_startsName hc, hr⟩

section

variable {k : TokenKind} {m n : Name} {r s : List Char}

/-- A name ends where no character of a name follows. -/
theorem LexicalName.unique (hk : k = .identifier ∨ k = .con ∨ k = .tvar) (hm : LexicalName k m)
    (hn : LexicalName k n) (hr : Ends r) (hs : Ends s)
    (h : m.text.toList ++ r = n.text.toList ++ s) : m.text = n.text ∧ r = s := by
  obtain ⟨e, hrs⟩ := append_unique (hm.chars hk) (hn.chars hk) hr hs h
  exact ⟨String.toList_injective e, hrs⟩

end

/-! ## First characters -/

namespace TypeExpr

/-- What a first character tells. -/
inductive Opening where
  | tick | lower | upper | paren
  /-- no type starts so -/
  | other
deriving DecidableEq

def openingOf (c : Char) : Opening :=
  if c = '\'' then .tick
  else if c = '(' then .paren
  else if startsName c then if Text.isUppercase c then .upper else .lower
  else .other

def opening : TypeExpr → Opening
  | .var _ => .tick
  | .contract _ => .upper
  | .tuple _ => .paren
  | _ => .lower

theorem openingOf_of_startsName {c : Char} (h : startsName c = true) :
    openingOf c = if Text.isUppercase c then .upper else .lower := by
  have h₁ : c ≠ '\'' := by
    rintro rfl
    revert h
    decide
  have h₂ : c ≠ '(' := by
    rintro rfl
    revert h
    decide
  rw [openingOf, if_neg h₁, if_neg h₂, if_pos h]

/-- The first character of a type is as its opening says. -/
theorem text_eq_cons {t : TypeExpr} (h : t.Built LexicalName) :
    ∃ c r, t.text.toList = c :: r ∧ openingOf c = t.opening := by
  cases t with
  | var n =>
    obtain ⟨c, r, e, -⟩ := h
    exact ⟨_, _, e, rfl⟩
  | named n =>
    obtain ⟨c, r, e, hc, hu, -⟩ := h
    exact ⟨_, _, e, by rw [openingOf_of_startsName hc, hu]; rfl⟩
  | contract n =>
    obtain ⟨c, r, e, hc, hu, -⟩ := h
    exact ⟨_, _, e, by rw [openingOf_of_startsName hc, hu]; rfl⟩
  | app head args =>
    obtain ⟨n, rfl, ⟨c, r, e, hc, hu, -⟩, -⟩ := built_app h
    refine ⟨c, _, by rw [text_app, text_named, String.toList_append, String.toList_append,
      String.toList_append, e]; rfl, ?_⟩
    rw [openingOf_of_startsName hc, hu]
    rfl
  | tuple parts => exact ⟨'(', _, by rw [text_tuple]; simp; rfl, rfl⟩
  | _ => exact h.elim

theorem opening_eq_of_append {t u : TypeExpr} (ht : t.Built LexicalName) (hu : u.Built LexicalName)
    {r s : List Char} (h : t.text.toList ++ r = u.text.toList ++ s) : t.opening = u.opening := by
  obtain ⟨c, a, ea, hc⟩ := text_eq_cons ht
  obtain ⟨d, b, eb, hd⟩ := text_eq_cons hu
  rw [ea, eb, List.cons_append, List.cons_append, List.cons.injEq] at h
  rw [← hc, ← hd, h.1]

end TypeExpr

/-! ## Texts with separators -/

section

variable {α β : Type} {text : α → List Char} {g : α → β} {follow : List Char → Prop} {c : Char}
  {sep : List Char}

theorem intercalate_cons {a : α} {as : List α} (h : as ≠ []) (r : List Char) :
    (c :: sep).intercalate ((a :: as).map text) ++ r =
      text a ++ c :: (sep ++ ((c :: sep).intercalate (as.map text) ++ r)) := by
  rw [List.map_cons, List.intercalate_cons_of_ne_nil (by simpa using h)]
  simp only [List.append_assoc, List.cons_append]

variable (follow) in
/-- One or more texts with separators between them are told apart if each of them is. -/
theorem intercalate_unique (hsep : ∀ x, follow (c :: x)) (as bs : List α)
    (item : ∀ a ∈ as, ∀ b ∈ bs, ∀ r s, follow r → follow s → text a ++ r = text b ++ s →
      g a = g b ∧ r = s) (hne : as ≠ []) (hne' : bs ≠ []) {r s : List Char} (hr : follow r)
    (hs : follow s) (hr' : r.head? ≠ some c) (hs' : s.head? ≠ some c)
    (h : (c :: sep).intercalate (as.map text) ++ r = (c :: sep).intercalate (bs.map text) ++ s) :
    as.map g = bs.map g ∧ r = s := by
  induction as generalizing bs with
  | nil => exact absurd rfl hne
  | cons a as ih =>
    cases bs with
    | nil => exact absurd rfl hne'
    | cons b bs =>
      have hab := item a (by simp) b (by simp)
      by_cases has : as = []
      · subst has
        by_cases hbs : bs = []
        · subst hbs
          simp only [List.map_cons, List.map_nil, List.intercalate_singleton] at h
          obtain ⟨e, hrs⟩ := hab r s hr hs h
          exact ⟨by simp [e], hrs⟩
        · rw [intercalate_cons hbs, List.map_cons, List.map_nil, List.intercalate_singleton] at h
          obtain ⟨-, rfl⟩ := hab _ _ hr (hsep _) h
          exact absurd rfl hr'
      · by_cases hbs : bs = []
        · subst hbs
          rw [intercalate_cons has, List.map_cons, List.map_nil, List.intercalate_singleton] at h
          obtain ⟨-, rfl⟩ := hab _ _ (hsep _) hs h
          exact absurd rfl hs'
        · rw [intercalate_cons has, intercalate_cons hbs] at h
          obtain ⟨e, h'⟩ := hab _ _ (hsep _) (hsep _) h
          rw [List.cons.injEq] at h'
          obtain ⟨e', hrs⟩ := ih bs
            (fun x hx y hy => item x (List.mem_cons_of_mem _ hx) y (List.mem_cons_of_mem _ hy))
            has hbs (List.append_cancel_left h'.2)
          exact ⟨by rw [List.map_cons, List.map_cons, e, e'], hrs⟩

end

/-! ## Types -/

namespace TypeExpr

/-- The characters of a type. -/
def chars (t : TypeExpr) : List Char := t.text.toList

theorem toList_text_app (n : Name) (args : List TypeExpr) (r : List Char) :
    (app (.named n) args).chars ++ r =
      n.text.toList ++ '(' :: ([','].intercalate (args.map chars) ++ ')' :: r) := by
  have hmap : (args.map text).map String.toList = args.map chars := List.map_map
  rw [chars, text_app, text_named]
  simp only [String.toList_append, String.toList_intercalate, hmap, List.append_assoc]
  rfl

theorem toList_text_tuple (parts : List TypeExpr) (r : List Char) :
    (tuple parts).chars ++ r = '(' :: ([','].intercalate (parts.map chars) ++ ')' :: r) := by
  have hmap : (parts.map text).map String.toList = parts.map chars := List.map_map
  rw [chars, text_tuple]
  simp only [String.toList_append, String.toList_intercalate, hmap, List.append_assoc]
  rfl

/-- No list of types starts with a closing parenthesis. -/
theorem intercalate_ne_rparen {sep : List Char} {ts : List TypeExpr}
    (hts : ∀ t ∈ ts, t.Built LexicalName) (hne : ts ≠ []) (r s : List Char) :
    sep.intercalate (ts.map chars) ++ r ≠ ')' :: s := by
  cases ts with
  | nil => exact absurd rfl hne
  | cons t ts =>
    obtain ⟨c, a, e, hc⟩ := text_eq_cons (hts t (by simp))
    have hcons : ∃ b, sep.intercalate ((t :: ts).map chars) = c :: b := by
      cases ts with
      | nil => exact ⟨a, by simpa [chars] using e⟩
      | cons u us =>
        refine ⟨a ++ sep ++ sep.intercalate ((u :: us).map chars), ?_⟩
        rw [List.map_cons, List.map_cons, List.intercalate_cons_cons, chars, e, ← List.map_cons]
        rfl
    obtain ⟨b, hb⟩ := hcons
    rw [hb]
    rintro ⟨⟩
    have hopen : openingOf ')' = .other := by decide
    rw [hopen] at hc
    cases t <;> simp [opening] at hc

/-- The parts between the parentheses of two types. -/
theorem parts_unique {sep : List Char} {ts us : List TypeExpr} (hts : ∀ t ∈ ts, t.Built LexicalName)
    (hus : ∀ u ∈ us, u.Built LexicalName) {r s : List Char}
    (item : ∀ t ∈ ts, ∀ u ∈ us, ∀ r s, Behind r → Behind s → t.chars ++ r = u.chars ++ s →
      t.bare = u.bare ∧ r = s)
    (h : (',' :: sep).intercalate (ts.map chars) ++ ')' :: r =
      (',' :: sep).intercalate (us.map chars) ++ ')' :: s) : bares ts = bares us ∧ r = s := by
  by_cases hne : ts = []
  · by_cases hne' : us = []
    · subst hne hne'
      simpa using h
    · subst hne
      exact absurd h.symm (intercalate_ne_rparen hus hne' _ _)
  · by_cases hne' : us = []
    · subst hne'
      exact absurd h (intercalate_ne_rparen hts hne _ _)
    · obtain ⟨e, hrs⟩ := intercalate_unique Behind
        (fun x => behind_cons (by decide)) ts us item hne hne' (behind_cons (by decide))
        (behind_cons (by decide)) (by simp) (by simp) h
      rw [List.cons.injEq] at hrs
      exact ⟨by rw [bares_eq_map, bares_eq_map, e], hrs.2⟩

/-- **The text of a type determines it**, also in front of what can stand behind a type. -/
theorem chars_unique (t u : TypeExpr) (ht : t.Built LexicalName) (hu : u.Built LexicalName)
    (r s : List Char) (hr : Behind r) (hs : Behind s) (h : t.chars ++ r = u.chars ++ s) :
    t.bare = u.bare ∧ r = s := by
  have hopen := opening_eq_of_append ht hu h
  match t with
  | .var n =>
    cases u with
    | var m =>
      obtain ⟨e, hrs⟩ := LexicalName.unique (.inr (.inr rfl)) ht hu hr.ends hs.ends h
      exact ⟨by rw [bare, bare, e], hrs⟩
    | _ => cases hopen
  | .named n =>
    cases u with
    | named m =>
      obtain ⟨e, hrs⟩ := LexicalName.unique (.inl rfl) ht hu hr.ends hs.ends h
      exact ⟨by rw [bare, bare, e], hrs⟩
    | app head args =>
      obtain ⟨m, rfl, hm, -⟩ := built_app hu
      rw [toList_text_app] at h
      obtain ⟨-, rfl⟩ := LexicalName.unique (.inl rfl) ht hm hr.ends (ends_cons (by decide)) h
      exact absurd rfl (hr '(' rfl).2
    | record | field | variant | constr | synonym | foreign => exact hu.elim
    | _ => cases hopen
  | .contract n =>
    cases u with
    | contract m =>
      obtain ⟨e, hrs⟩ := LexicalName.unique (.inr (.inl rfl)) ht hu hr.ends hs.ends h
      exact ⟨by rw [bare, bare, e], hrs⟩
    | _ => cases hopen
  | .app head args =>
    obtain ⟨n, rfl, hn, hne, hargs⟩ := built_app ht
    rw [toList_text_app] at h
    cases u with
    | named m =>
      obtain ⟨-, rfl⟩ := LexicalName.unique (.inl rfl) hn hu (ends_cons (by decide)) hs.ends h
      exact absurd rfl (hs '(' rfl).2
    | app head' args' =>
      obtain ⟨m, rfl, hm, hne', hargs'⟩ := built_app hu
      rw [toList_text_app] at h
      obtain ⟨e, h'⟩ := LexicalName.unique (.inl rfl) hn hm (ends_cons (by decide))
        (ends_cons (by decide)) h
      rw [List.cons.injEq] at h'
      obtain ⟨e', hrs⟩ := parts_unique hargs hargs'
        (fun a ha b hb => chars_unique a b (hargs a ha) (hargs' b hb)) h'.2
      exact ⟨by rw [bare, bare, bare, bare, e, e'], hrs⟩
    | record | field | variant | constr | synonym | foreign => exact hu.elim
    | _ => cases hopen
  | .tuple parts =>
    cases u with
    | tuple parts' =>
      have hparts := builtAll_iff.1 ht.2
      have hparts' := builtAll_iff.1 hu.2
      rw [toList_text_tuple, toList_text_tuple, List.cons.injEq] at h
      obtain ⟨e, hrs⟩ := parts_unique hparts hparts'
        (fun a ha b hb => chars_unique a b (hparts a ha) (hparts' b hb)) h.2
      exact ⟨by rw [bare, bare, e], hrs⟩
    | _ => cases hopen
  | .record _ => exact ht.elim
  | .field _ _ _ => exact ht.elim
  | .variant _ => exact ht.elim
  | .constr _ _ _ => exact ht.elim
  | .synonym _ => exact ht.elim
  | .foreign _ _ _ => exact ht.elim
termination_by sizeOf t
decreasing_by
  all_goals
    have := List.sizeOf_lt_of_mem ha
    simp
    omega

/-! ## Bodies -/

theorem toList_text_field (n : Name) (type : TypeExpr) (pos : Option Position) (r : List Char) :
    (field (.named n) type pos).chars ++ r =
      n.text.toList ++ ' ' :: ':' :: ' ' :: (type.chars ++ r) := by
  rw [chars, text_field, text_named]
  simp only [String.toList_append, List.append_assoc]
  rfl

theorem toList_text_constr (n : Name) (args : List TypeExpr) (pos : Option Position)
    (r : List Char) : (constr (.contract n) args pos).chars ++ r =
      n.text.toList ++ '(' :: ([',', ' '].intercalate (args.map chars) ++ ')' :: r) := by
  have hmap : (args.map text).map String.toList = args.map chars := List.map_map
  rw [chars, text_constr, text_contract]
  simp only [String.toList_append, String.toList_intercalate, hmap, List.append_assoc]
  rfl

theorem toList_text_record (fields : List TypeExpr) (r : List Char) : (record fields).chars ++ r =
    '\x7b' :: ([','].intercalate (fields.map chars) ++ '\x7d' :: r) := by
  have hmap : (fields.map text).map String.toList = fields.map chars := List.map_map
  rw [chars, text_record]
  simp only [String.toList_append, String.toList_intercalate, hmap, List.append_assoc]
  rfl

theorem toList_text_variant (constructors : List TypeExpr) :
    (variant constructors).chars = [' ', '|', ' '].intercalate (constructors.map chars) := by
  have hmap : (constructors.map text).map String.toList = constructors.map chars := List.map_map
  rw [chars, text_variant, String.toList_intercalate, hmap]
  rfl

theorem field_unique {a b : TypeExpr} (ha : a.BuiltField LexicalName)
    (hb : b.BuiltField LexicalName) {r s : List Char} (hr : Behind r) (hs : Behind s)
    (h : a.chars ++ r = b.chars ++ s) : a.bare = b.bare ∧ r = s := by
  obtain ⟨m, t, rfl, hm, ht⟩ := ha
  obtain ⟨n, u, rfl, hn, hu⟩ := hb
  rw [toList_text_field, toList_text_field] at h
  obtain ⟨e, h'⟩ := LexicalName.unique (.inl rfl) hm hn (ends_cons (by decide))
    (ends_cons (by decide)) h
  simp only [List.cons.injEq, true_and] at h'
  obtain ⟨e', hrs⟩ := chars_unique t u ht hu r s hr hs h'
  exact ⟨by rw [bare, bare, bare, bare, e, e'], hrs⟩

theorem constr_unique {a b : TypeExpr} (ha : a.BuiltConstr LexicalName)
    (hb : b.BuiltConstr LexicalName) {r s : List Char} (h : a.chars ++ r = b.chars ++ s) :
    a.bare = b.bare ∧ r = s := by
  obtain ⟨m, ts, rfl, hm, hts⟩ := ha
  obtain ⟨n, us, rfl, hn, hus⟩ := hb
  rw [builtAll_iff] at hts hus
  rw [toList_text_constr, toList_text_constr] at h
  obtain ⟨e, h'⟩ := LexicalName.unique (.inr (.inl rfl)) hm hn (ends_cons (by decide))
    (ends_cons (by decide)) h
  rw [List.cons.injEq] at h'
  obtain ⟨e', hrs⟩ := parts_unique hts hus
    (fun t ht u hu => chars_unique t u (hts t ht) (hus u hu)) h'.2
  exact ⟨by rw [bare, bare, bare, bare, e, e'], hrs⟩

theorem record_unique {fs gs : List TypeExpr} (hf : (record fs).BuiltBody LexicalName)
    (hg : (record gs).BuiltBody LexicalName) {r s : List Char}
    (h : (record fs).chars ++ r = (record gs).chars ++ s) :
    (record fs).bare = (record gs).bare ∧ r = s := by
  rw [toList_text_record, toList_text_record, List.cons.injEq] at h
  obtain ⟨e, hrs⟩ := intercalate_unique Behind (fun x => behind_cons (by decide)) fs gs
    (fun a ha b hb r s hr hs => field_unique (hf.2 a ha) (hg.2 b hb) hr hs) hf.1 hg.1
    (behind_cons (by decide)) (behind_cons (by decide)) (by simp) (by simp) h.2
  rw [List.cons.injEq] at hrs
  exact ⟨by rw [bare, bare, bares_eq_map, bares_eq_map, e], hrs.2⟩

theorem variant_unique {as bs : List TypeExpr} (ha : (variant as).BuiltBody LexicalName)
    (hb : (variant bs).BuiltBody LexicalName) {r s : List Char} (hr : AtLineEnd r)
    (hs : AtLineEnd s) (h : (variant as).chars ++ r = (variant bs).chars ++ s) :
    (variant as).bare = (variant bs).bare ∧ r = s := by
  rw [toList_text_variant, toList_text_variant] at h
  obtain ⟨e, hrs⟩ := intercalate_unique (fun _ => True) (fun x => trivial) as bs
    (fun a hx b hy r s _ _ => constr_unique (ha.2 a hx) (hb.2 b hy)) ha.1 hb.1 trivial trivial
    (hr.head?_ne (by decide)) (hs.head?_ne (by decide)) h
  exact ⟨by rw [bare, bare, bares_eq_map, bares_eq_map, e], hrs⟩

/-- A variant starts with the name of a constructor, in front of a parenthesis. -/
theorem chars_variant_eq {as : List TypeExpr} (h : (variant as).BuiltBody LexicalName) :
    ∃ n r, LexicalName .con n ∧ (variant as).chars = n.text.toList ++ '(' :: r := by
  obtain ⟨hne, has⟩ := h
  cases as with
  | nil => exact absurd rfl hne
  | cons a as =>
    obtain ⟨n, ts, rfl, hn, -⟩ := has a (by simp)
    refine ⟨n, ?_⟩
    rw [toList_text_variant]
    cases as with
    | nil =>
      rw [List.map_cons, List.map_nil, List.intercalate_singleton,
        ← List.append_nil (chars _), toList_text_constr]
      exact ⟨_, hn, rfl⟩
    | cons b bs =>
      rw [List.map_cons, List.map_cons, List.intercalate_cons_cons, List.append_assoc,
        toList_text_constr]
      exact ⟨_, hn, rfl⟩

theorem synonym_ne_record {t : TypeExpr} (ht : t.Built LexicalName) (fs : List TypeExpr)
    (r s : List Char) : (synonym t).chars ++ r ≠ (record fs).chars ++ s := by
  intro h
  obtain ⟨c, a, e, hc⟩ := text_eq_cons ht
  have hcons : c :: (a ++ r) = (record fs).chars ++ s := by
    rw [← List.cons_append, ← e, ← h, chars, text_synonym]
  rw [toList_text_record, List.cons.injEq] at hcons
  have hbrace : openingOf '\x7b' = .other := by decide
  rw [hcons.1, hbrace] at hc
  cases t <;> cases hc

/-- A plain capitalized name is no constructor. -/
theorem synonym_ne_variant {t : TypeExpr} (ht : t.Built LexicalName) {as : List TypeExpr}
    (ha : (variant as).BuiltBody LexicalName) {r : List Char} (hr : Behind r) (s : List Char) :
    (synonym t).chars ++ r ≠ (variant as).chars ++ s := by
  intro h
  obtain ⟨n, b, hn, e⟩ := chars_variant_eq ha
  have happend : t.text.toList ++ r = n.text.toList ++ '(' :: (b ++ s) := by
    rw [e, List.append_assoc, List.cons_append, chars, text_synonym] at h
    exact h
  have hopen : t.opening = .upper := by
    obtain ⟨c, a, ec, hc, hu, -⟩ := hn
    obtain ⟨d, b, ed, hd⟩ := text_eq_cons ht
    rw [ed, ec, List.cons_append, List.cons_append, List.cons.injEq] at happend
    rw [← hd, happend.1, openingOf_of_startsName hc, hu]
    rfl
  cases t with
  | contract m =>
    obtain ⟨-, rfl⟩ := LexicalName.unique (.inr (.inl rfl)) ht hn hr.ends
      (ends_cons (by decide)) happend
    exact (hr '(' rfl).2 rfl
  | _ => cases hopen

theorem record_ne_variant (fs : List TypeExpr) {as : List TypeExpr}
    (ha : (variant as).BuiltBody LexicalName) (r s : List Char) :
    (record fs).chars ++ r ≠ (variant as).chars ++ s := by
  intro h
  obtain ⟨n, b, ⟨c, a, ec, hc, -⟩, e⟩ := chars_variant_eq ha
  rw [toList_text_record, e, ec, List.cons_append, List.cons_append, List.cons.injEq] at h
  rw [← h.1] at hc
  revert hc
  decide

/-- **The text of the body of a type definition determines it**, also in front of a line end. -/
theorem body_unique {t u : TypeExpr} (ht : t.BuiltBody LexicalName)
    (hu : u.BuiltBody LexicalName) {r s : List Char} (hr : AtLineEnd r) (hs : AtLineEnd s)
    (h : t.chars ++ r = u.chars ++ s) : t.bare = u.bare ∧ r = s := by
  cases t with
  | synonym t =>
    cases u with
    | synonym u =>
      obtain ⟨e, hrs⟩ := chars_unique t u ht hu r s hr.behind hs.behind h
      exact ⟨by rw [bare, bare, e], hrs⟩
    | record fs => exact absurd h (synonym_ne_record ht fs r s)
    | variant as => exact absurd h (synonym_ne_variant ht hu hr.behind s)
    | _ => exact hu.elim
  | record fs =>
    cases u with
    | synonym u => exact absurd h.symm (synonym_ne_record hu fs s r)
    | record gs => exact record_unique ht hu h
    | variant as => exact absurd h (record_ne_variant fs hu r s)
    | _ => exact hu.elim
  | variant as =>
    cases u with
    | synonym u => exact absurd h.symm (synonym_ne_variant hu ht hs.behind r)
    | record gs => exact absurd h.symm (record_ne_variant gs ht s r)
    | variant bs => exact variant_unique ht hu hr hs h
    | _ => exact hu.elim
  | _ => exact ht.elim

end TypeExpr

end ContractInterface
