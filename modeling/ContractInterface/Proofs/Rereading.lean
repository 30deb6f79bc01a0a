import ContractInterface.Proofs.Outcome
import ContractInterface.Proofs.Scan.Lines

/-!
# Types are read back from their texts

The text of a type is scanned again as the names and marks that it is made of, wherever it stands in
front of something that does not go on in a name (`Scans`), and these tokens derive the type:

    t.Built LexicalName → ∃ d, d.ast.bare = t.bare ∧ Scans p t.chars d.tokens      (exists_typeTree)

So a type that was read from a source is rendered, scanned and read as the same type
(`rereads_typeExpr`).  A name is scanned as what it was because its kind shows in its characters; no
letter is a digit, so that a name is not taken for a number (`Token.piece_name`).
-/

namespace ContractInterface

namespace Token

/-! ## Texts and their tokens -/

/-- The text is scanned as these tokens from `p` on, in front of what does not go on in a name. -/
def Scans (p : Position) (s : List Char) (us : List Token) : Prop :=
  ∀ r, Ends r → scanFrom p 0 (s ++ r) = (scanFrom (p.after s) 0 r).map (us ++ ·)

namespace Scans

variable {p : Position} {s t : List Char} {us vs : List Token}

theorem nil : Scans p [] [] := by
  intro r _
  show scanFrom p 0 r = (scanFrom p 0 r).map ([] ++ ·)
  cases scanFrom p 0 r <;> rfl

theorem map_append (us vs : List Token) (x : Except Failure (List Token)) :
    (x.map (vs ++ ·)).map (us ++ ·) = x.map (us ++ vs ++ ·) := by
  cases x with
  | error f => rfl
  | ok ts => exact congrArg Except.ok (List.append_assoc us vs ts).symm

/-- A text goes on with what is no part of a name. -/
theorem append {c : Char} (hs : Scans p s us) (ht : Scans (p.after s) (c :: t) vs)
    (hc : isNameChar c = false) : Scans p (s ++ c :: t) (us ++ vs) := by
  intro r hr
  rw [List.append_assoc, List.cons_append, hs _ (ends_cons hc), ← List.cons_append, ht r hr,
    map_append, Position.after_append]

/-- A mark stands alone. -/
theorem mark {c : Char} {k : TokenKind} (hc : punctuation? c = some k)
    (hs : Scans (p.step c) s us) : Scans p (c :: s) (⟨k, String.ofList [c], p⟩ :: us) := by
  intro r hr
  rw [List.cons_append, scanFrom_cons, piece_punctuation hc]
  show (scanFrom (p.step c) 0 (s ++ r)).map _ = _
  rw [hs r hr]
  exact map_append [_] us _

/-- A name is one token, of the kind that it shows. -/
theorem name {k : TokenKind} {n : String} (hk : k = .identifier ∨ k = .con ∨ k = .tvar)
    (h : Lexical k n) : Scans p n.toList [⟨k, n, p⟩] := by
  intro r hr
  have hpiece : ∃ c s, n.toList = c :: s ∧ piece c (s ++ r) = .ok (.lexeme k (c :: s) s.length) := by
    obtain rfl | rfl | rfl := hk
    · obtain ⟨c, s, e, hc, hu, hs, hword⟩ := h
      exact ⟨c, s, e, by rw [piece_name hc hs hr, nameKind, hu, hword]; rfl⟩
    · obtain ⟨c, s, e, hc, hu, hs⟩ := h
      exact ⟨c, s, e, by rw [piece_name hc hs hr, nameKind, hu]; rfl⟩
    · obtain ⟨c, s, e, hc, hs⟩ := h
      exact ⟨_, _, e, piece_tvar hc hs hr⟩
  obtain ⟨c, s, e, hpiece⟩ := hpiece
  have hvalue : String.ofList (c :: s) = n := by rw [← e, String.ofList_toList]
  rw [e, List.cons_append, scanFrom_cons, hpiece]
  simp only [List.take_left, List.drop_left, hvalue]
  rfl

end Scans

end Token

/-! ## Types -/

namespace TypeExpr

open Token (Scans)
open Grammar

/-- Types with commas between them. -/
def charsOf (ts : List TypeExpr) : List Char := [','].intercalate (ts.map chars)

theorem chars_app (n : Name) (args : List TypeExpr) :
    (app (.named n) args).chars = n.text.toList ++ '(' :: (charsOf args ++ [')']) := by
  rw [← List.append_nil (chars _), toList_text_app, charsOf]

theorem chars_tuple (parts : List TypeExpr) :
    (tuple parts).chars = '(' :: (charsOf parts ++ [')']) := by
  rw [← List.append_nil (chars _), toList_text_tuple, charsOf]

theorem charsOf_cons {ts : List TypeExpr} (h : ts ≠ []) (t : TypeExpr) :
    charsOf (t :: ts) = t.chars ++ ',' :: charsOf ts := by
  rw [charsOf, ← List.append_nil (List.intercalate _ _), intercalate_cons h, charsOf]
  simp

/-- The types of a list are scanned as such a list if each of them is scanned as a type. -/
theorem exists_typesTree {ts : List TypeExpr} (hne : ts ≠ [])
    (item : ∀ t ∈ ts, ∀ p, ∃ d : TypeTree, d.ast.bare = t.bare ∧ Scans p t.chars d.tokens)
    (p : Position) :
    ∃ ds : TypesTree, bares ds.asts = bares ts ∧ Scans p (charsOf ts) ds.tokens := by
  induction ts generalizing p with
  | nil => exact absurd rfl hne
  | cons t ts ih =>
    obtain ⟨d, hd, hscan⟩ := item t (by simp) p
    by_cases hts : ts = []
    · subst hts
      have hchars : charsOf [t] = t.chars := List.intercalate_singleton
      exact ⟨.one d, by rw [TypesTree.asts, bares, bares, hd, bares, bares], hchars ▸ hscan⟩
    · obtain ⟨ds, hds, hscans⟩ := ih hts (fun u hu => item u (List.mem_cons_of_mem _ hu))
        ((p.after t.chars).step ',')
      refine ⟨.more d (lexeme .comma "," (p.after t.chars)) ds,
        by rw [TypesTree.asts, bares, bares, hd, hds], ?_⟩
      rw [charsOf_cons hts]
      exact hscan.append (hscans.mark rfl) (by decide)

/-- **The text of a type is scanned as tokens that derive it**, wherever it stands. -/
theorem exists_typeTree (t : TypeExpr) (ht : t.Built LexicalName) (p : Position) :
    ∃ d : TypeTree, d.ast.bare = t.bare ∧ Scans p t.chars d.tokens := by
  match t with
  | .var n => exact ⟨.var (lexeme .tvar n.text p), rfl, .name (.inr (.inr rfl)) ht⟩
  | .named n => exact ⟨.named (lexeme .identifier n.text p), rfl, .name (.inl rfl) ht⟩
  | .contract n => exact ⟨.contract (lexeme .con n.text p), rfl, .name (.inr (.inl rfl)) ht⟩
  | .app head args =>
    obtain ⟨n, rfl, hn, hne, hargs⟩ := built_app ht
    have hname : Scans p n.text.toList [⟨.identifier, n.text, p⟩] := .name (.inl rfl) hn
    let inside := (p.after n.text.toList).step '('
    obtain ⟨ds, hds, hscans⟩ := exists_typesTree hne
      (fun a ha p => exists_typeTree a (hargs a ha) p) inside
    have hclose : Scans inside (charsOf args ++ [')']) _ :=
      hscans.append (Scans.nil.mark rfl) (by decide)
    refine ⟨.app (lexeme .identifier n.text p) (lexeme .lparen "(" (p.after n.text.toList)) ds
      (lexeme .rparen ")" (inside.after (charsOf args))), ?_, ?_⟩
    · rw [TypeTree.ast, bare, bare, bare, hds]
      rfl
    · rw [chars_app]
      exact hname.append (hclose.mark rfl) (by decide)
  | .tuple parts =>
    obtain ⟨hlength, hparts⟩ := ht
    rw [builtAll_iff] at hparts
    rw [chars_tuple]
    by_cases hne : parts = []
    · subst hne
      exact ⟨.unit (lexeme .lparen "(" p) (lexeme .rparen ")" (p.step '(')), rfl,
        (Scans.nil.mark rfl).mark rfl⟩
    · obtain ⟨ds, hds, hscans⟩ := exists_typesTree hne
        (fun a ha p => exists_typeTree a (hparts a ha) p) (p.step '(')
      have hclose : Scans (p.step '(') (charsOf parts ++ [')']) _ :=
        hscans.append (Scans.nil.mark rfl) (by decide)
      cases ds with
      | one d =>
        have hlength' := congrArg List.length hds
        simp only [TypesTree.asts, bares_eq_map, List.length_map, List.length_cons,
          List.length_nil] at hlength'
        exact absurd hlength'.symm hlength
      | more d comma ds =>
        refine ⟨.tuple (lexeme .lparen "(" p) d comma ds
          (lexeme .rparen ")" ((p.step '(').after (charsOf parts))), ?_, ?_⟩
        · rw [TypeTree.ast, bare, bare, ← hds]
          rfl
        · rw [TypesTree.tokens, List.append_assoc] at hclose
          exact hclose.mark rfl
  | .record _ => exact ht.elim
  | .field _ _ _ => exact ht.elim
  | .variant _ => exact ht.elim
  | .constr _ _ _ => exact ht.elim
  | .synonym _ => exact ht.elim
  | .foreign _ _ _ => exact ht.elim
termination_by sizeOf t
decreasing_by
  all_goals
    have := List.sizeOf_lt_of_mem ha
    simp
    omega

end TypeExpr

namespace Grammar

open Contract.Parse

/-- **Reading undoes rendering.**  A type that is read anywhere in a source is one of names and
tuples of any number of parts but one; its text is scanned, and the same type is read from it up to
the end. -/
theorem rereads_typeExpr {source : String} {before ts rest : List Token} {t : TypeExpr}
    (hscan : Token.scan source = .ok (before ++ ts)) (h : Reads typeExpr ts t rest) :
    t.Built LexicalName ∧ ∃ text tokens u e, t.render = .ok text ∧
      Token.scan text = .ok tokens ∧ Reads typeExpr tokens u [e] ∧ e.kind = .finish ∧
      t.same u = true := by
  obtain ⟨us, e, heq, he, hus⟩ := Token.scanned_of_scan hscan
  obtain ⟨d, rfl, rfl⟩ := typeExpr_sound h
  have hmem : ∀ a ∈ d.tokens, a ∈ us := by
    intro a ha
    have hend : a ∈ us ++ [e] := heq ▸ by simp [ha]
    rcases List.mem_append.1 hend with h' | h'
    · exact h'
    · exact absurd (List.mem_singleton.1 h' ▸ he) (d.endless a ha)
  have hbuilt : d.ast.Built LexicalName := d.built fun a ha => hus.lexical a (hmem a ha)
  refine ⟨hbuilt, ?_⟩
  obtain ⟨d', hbare, hscans⟩ := TypeExpr.exists_typeTree d.ast hbuilt .start
  have htext : Token.scan d.ast.text =
      .ok (d'.tokens ++ [⟨.finish, "", Position.start.after d.ast.chars⟩]) := by
    have hscans := hscans [] ends_nil
    rw [List.append_nil] at hscans
    exact hscans
  exact ⟨_, _, d'.ast, _, TypeExpr.render_eq_text hbuilt.firstForeign_eq_none, htext,
    typeExpr_complete d' _ (by simp) (by simp), rfl, (TypeExpr.same_iff _ _).2 hbare.symm⟩

/-- Parentheses around a single type leave no trace, primes belong to the names. -/
theorem rereads_typeExpr_pair : ∃ ts t rest, Token.scan "x : ((k'), 'v) = y" =
      .ok ([⟨.identifier, "x", ⟨1, 1⟩⟩, ⟨.colon, ":", ⟨1, 3⟩⟩] ++ ts) ∧
    Reads typeExpr ts t rest ∧ t.text = "(k','v)" ∧ t.Built LexicalName ∧
    ∃ text tokens u e, t.render = .ok text ∧ Token.scan text = .ok tokens ∧
      Reads typeExpr tokens u [e] ∧ e.kind = .finish ∧ t.same u = true := by
  have hscan : Token.scan "x : ((k'), 'v) = y" =
      .ok ([⟨.identifier, "x", ⟨1, 1⟩⟩, ⟨.colon, ":", ⟨1, 3⟩⟩] ++
        [⟨.lparen, "(", ⟨1, 5⟩⟩, ⟨.lparen, "(", ⟨1, 6⟩⟩, ⟨.identifier, "k'", ⟨1, 7⟩⟩,
          ⟨.rparen, ")", ⟨1, 9⟩⟩, ⟨.comma, ",", ⟨1, 10⟩⟩, ⟨.tvar, "'v", ⟨1, 12⟩⟩,
          ⟨.rparen, ")", ⟨1, 14⟩⟩, ⟨.eq, "=", ⟨1, 16⟩⟩, ⟨.identifier, "y", ⟨1, 18⟩⟩,
          ⟨.finish, "", ⟨1, 19⟩⟩]) := by cbv
  have hreads := typeExpr_complete
    (.tuple (lexeme .lparen "(" ⟨1, 5⟩) (.group (lexeme .lparen "(" ⟨1, 6⟩)
      (.named (lexeme .identifier "k'" ⟨1, 7⟩)) (lexeme .rparen ")" ⟨1, 9⟩))
      (lexeme .comma "," ⟨1, 10⟩) (.one (.var (lexeme .tvar "'v" ⟨1, 12⟩)))
      (lexeme .rparen ")" ⟨1, 14⟩))
    [⟨.eq, "=", ⟨1, 16⟩⟩, ⟨.identifier, "y", ⟨1, 18⟩⟩, ⟨.finish, "", ⟨1, 19⟩⟩] (by simp) (by simp)
  exact ⟨_, _, _, hscan, hreads, by decide, rereads_typeExpr hscan hreads⟩

end Grammar

end ContractInterface
