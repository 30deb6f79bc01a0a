import Mathlib
import ContractInterface.Proofs.Rereading
import ContractInterface.Proofs.Sameness
import ContractInterface.Proofs.Stub.Surface

/-!
# The tokens of stub lines

The front of a line of a stub ends in a blank, so it is scanned the same way whatever follows
(`Delimited`).  A line for a type definition starts like the declaration; if the body is an alias,
all of it spells the declaration (`exists_aliasTree`).  A line for a function has a colon where a
declaration has its arguments.
-/

namespace ContractInterface

namespace Token

variable {p : Position} {s t : List Char} {us vs : List Token}

/-- The text is scanned as these tokens from `p` on, whatever follows. -/
def Delimited (p : Position) (s : List Char) (us : List Token) : Prop :=
  ∀ r, scanFrom p 0 (s ++ r) = (scanFrom (p.after s) 0 r).map (us ++ ·)

/-- What ends a name and starts nothing. -/
abbrev IsBlank (c : Char) : Prop := c ∈ [' ', '\t', '\r', '\n']

variable {c : Char}

theorem scanFrom_blank (hc : IsBlank c) (r : List Char) :
    scanFrom p 0 (c :: r) = scanFrom (p.step c) 0 r := by
  rw [scanFrom_cons, piece_blank hc]
  rfl

theorem isNameChar_of_isBlank (hc : IsBlank c) : isNameChar c = false := by
  simp only [List.mem_cons, List.not_mem_nil, or_false] at hc
  obtain rfl | rfl | rfl | rfl := hc <;> rfl

theorem Scans.blank (hc : IsBlank c) (h : Scans (p.step c) s us) : Scans p (c :: s) us := by
  intro r hr
  rw [List.cons_append, scanFrom_blank hc, h r hr, Position.after_cons]

/-- A blank delimits what stands in front of it. -/
theorem Scans.delimited (h : Scans p s us) (hc : IsBlank c) : Delimited p (s ++ [c]) us := by
  intro r
  rw [List.append_assoc, List.singleton_append, h _ (ends_cons (isNameChar_of_isBlank hc)),
    scanFrom_blank hc, Position.after_append]
  rfl

/-- A name is delimited by what starts with no character of a name. -/
theorem Scans.append_delimited (hs : Scans p s us) (ht : Delimited (p.after s) t vs)
    (hends : ∀ r, Ends (t ++ r)) : Delimited p (s ++ t) (us ++ vs) := by
  intro r
  rw [List.append_assoc, hs _ (hends r), ht, map_append, Position.after_append]

namespace Delimited

theorem append (hs : Delimited p s us) (ht : Delimited (p.after s) t vs) :
    Delimited p (s ++ t) (us ++ vs) := by
  intro r
  rw [List.append_assoc, hs, ht, Scans.map_append, Position.after_append]

theorem blank (hc : IsBlank c) (h : Delimited (p.step c) s us) : Delimited p (c :: s) us := by
  intro r
  rw [List.cons_append, scanFrom_blank hc, h r, Position.after_cons]

/-- A mark that is a token of its own in front of a blank. -/
theorem mark {x : Char} {k : TokenKind} (h : ∀ r, piece x (c :: r) = .ok (.lexeme k [x] 0))
    (hc : IsBlank c) : Delimited p [x, c] [⟨k, String.ofList [x], p⟩] := by
  intro r
  rw [List.cons_append, List.cons_append, List.nil_append, scanFrom_cons, h]
  simp only [List.take_zero, List.drop_zero, Position.after_nil]
  rw [scanFrom_blank hc]
  rfl

theorem keyword {w : List Char} {k : TokenKind} (hw : (w, k) ∈ keywords) (hc : IsBlank c) :
    Delimited p (w ++ [c]) [⟨k, String.ofList w, p⟩] := by
  refine Scans.delimited (fun r hr => ?_) hc
  have hall : (keywords.all fun e => e.1.head?.any (fun c => startsName c && !Text.isUppercase c) &&
      e.1.tail.all isNameChar) = true := by decide
  have hchars := List.all_eq_true.1 hall _ hw
  have hkey := mem_keywords_iff.1 hw
  cases w with
  | nil => cases hchars
  | cons c s =>
    simp only [List.head?_cons, List.tail_cons, Option.any_some, Bool.and_eq_true,
      Bool.not_eq_true', List.all_eq_true] at hchars
    obtain ⟨⟨hstart, hlower⟩, hs⟩ := hchars
    rw [List.cons_append, scanFrom_cons, piece_name hstart hs hr, nameKind, hlower, hkey]
    simp only [List.take_left, List.drop_left]
    rfl

end Delimited

end Token

open Token (Scans Delimited scanFrom)
open Grammar

/-! ## Heads of type definitions -/

/-- Type variables are scanned as such, with `, ` between them. -/
theorem exists_varsTree {vs : List Name} (hne : vs ≠ []) (hvs : ∀ v ∈ vs, LexicalName .tvar v)
    (p : Position) : ∃ s : Separated .comma (Lexeme .tvar),
      (s.map fun v => v.val.name).map Name.bare = vs.map Name.bare ∧
      Scans p ([',', ' '].intercalate (vs.map fun v => v.text.toList))
        (s.tokens fun v => [v.val]) := by
  induction vs generalizing p with
  | nil => exact absurd rfl hne
  | cons v vs ih =>
    have hv : Scans p v.text.toList [⟨.tvar, v.text, p⟩] :=
      .name (.inr (.inr rfl)) (hvs v (by simp))
    by_cases hnil : vs = []
    · subst hnil
      refine ⟨.one (lexeme .tvar v.text p), rfl, ?_⟩
      rw [List.map_singleton, List.intercalate_singleton]
      exact hv
    · obtain ⟨s, hs, hscans⟩ := ih hnil (fun w hw => hvs w (List.mem_cons_of_mem _ hw))
        (((p.after v.text.toList).step ',').step ' ')
      refine ⟨.more (lexeme .tvar v.text p) (lexeme .comma "," (p.after v.text.toList)) s, ?_, ?_⟩
      · rw [Separated.map, List.map_cons, List.map_cons, hs]
        rfl
      · rw [← List.append_nil (List.intercalate _ _), intercalate_cons hnil, List.append_nil]
        exact hv.append ((hscans.blank (by decide)).mark rfl) (by decide)

namespace TypeDef

/-- The line for a type definition in front of its body. -/
def frontChars (d : TypeDef) : List Char :=
  "  type ".toList ++ (d.name.text.toList ++ (d.described.stub.varsText.toList ++ [' ', '=', ' ']))

theorem line_eq (d : TypeDef) (r : List Char) : d.described.stub.line.toList ++ r =
    d.frontChars ++ (d.body.chars ++ '\n' :: r) := by
  have hassoc (keyword name vars body : List Char) :
      keyword ++ (name ++ (vars ++ ' ' :: '=' :: ' ' :: (body ++ '\n' :: r))) =
        keyword ++ (name ++ (vars ++ [' ', '=', ' '])) ++ (body ++ '\n' :: r) := by
    simp only [List.append_assoc, List.cons_append, List.nil_append]
  exact (StubType.toList_line _ r).trans (hassoc _ _ _ _)

theorem ends_varsText (d : TypeDef) (r : List Char) :
    Ends (d.described.stub.varsText.toList ++ [' '] ++ r) := by
  rw [List.append_assoc]
  by_cases hnil : d.vars = []
  · rw [varsText_of_nil hnil]
    exact ends_cons (by decide)
  · rw [varsText_of_ne_nil hnil]
    exact ends_cons (by decide)

theorem exists_paramsTree {d : TypeDef} (hd : d.Built LexicalName) (p : Position) :
    ∃ ps : TypeParamsTree, ps.names.map Name.bare = d.vars.map Name.bare ∧
      Delimited p (d.described.stub.varsText.toList ++ [' ']) ps.tokens := by
  by_cases hnil : d.vars = []
  · rw [varsText_of_nil hnil, hnil]
    exact ⟨none, rfl, Scans.nil.delimited (by decide)⟩
  · obtain ⟨s, hs, hscans⟩ := exists_varsTree hnil hd.vars (p.step '(')
    have hclose : Scans (p.step '(') (_ ++ [')']) _ :=
      hscans.append (Scans.nil.mark rfl) (by decide)
    let inner := [',', ' '].intercalate (d.vars.map fun v => v.text.toList)
    refine ⟨some ⟨lexeme .lparen "(" p, s, lexeme .rparen ")" ((p.step '(').after inner)⟩, hs, ?_⟩
    rw [varsText_of_ne_nil hnil, List.append_cons _ ')']
    exact (hclose.mark rfl).delimited (by decide)

/-- The front of the line is that of a declaration. -/
theorem exists_front {d : TypeDef} (hd : d.Built LexicalName) (p : Position) :
    ∃ (k : Lexeme .kwType) (h : HeadTree), h.ast.1.bare = d.name.bare ∧
      h.ast.2.map Name.bare = d.vars.map Name.bare ∧
      Delimited p d.frontChars (k.val :: h.tokens) := by
  let start := p.after "  type ".toList
  let middle := start.after d.name.text.toList
  have hkeyword : Delimited p "  type ".toList [⟨.kwType, "type", (p.step ' ').step ' '⟩] := by
    refine .blank (by decide) (.blank (by decide) ?_)
    exact .keyword (w := ['t', 'y', 'p', 'e']) (by decide) (by decide)
  have hname : Scans start d.name.text.toList [⟨.identifier, d.name.text, start⟩] :=
    .name (.inl rfl) hd.name
  obtain ⟨ps, hps, hparams⟩ := exists_paramsTree hd middle
  have hend : Delimited (middle.after (d.described.stub.varsText.toList ++ [' '])) ['=', ' '] _ :=
    .mark (fun _ => rfl) (by decide)
  have hhead := hname.append_delimited (hparams.append hend) fun r => by
    rw [List.append_assoc]
    exact d.ends_varsText _
  have hfront := hkeyword.append hhead
  rw [List.append_assoc] at hfront
  exact ⟨lexeme .kwType "type" _, ⟨lexeme .identifier d.name.text start, ps, lexeme .eq "=" _⟩, rfl,
    hps, hfront⟩

/-- The line for an alias spells the declaration. -/
theorem exists_aliasTree {d : TypeDef} (hd : d.Built LexicalName) {type : TypeExpr}
    (hbody : d.body = .synonym type) (p : Position) : ∃ T : DeclTree,
      T.ast.bare = (Decl.typeDef d).bare ∧ Delimited p d.described.stub.line.toList T.tokens := by
  obtain ⟨k, h, hname, hvars, hfront⟩ := exists_front hd p
  have htype : type.Built LexicalName := by
    have hbuilt := hd.body
    rw [hbody] at hbuilt
    exact hbuilt
  obtain ⟨t, ht, hscans⟩ := type.exists_typeTree htype (p.after d.frontChars)
  refine ⟨.synonym k h t, ?_, ?_⟩
  · rw [DeclTree.ast, Decl.bare, Decl.bare, bare, bare, hname, hvars, hbody, TypeExpr.bare,
      TypeExpr.bare, ht]
  · have hline := d.line_eq []
    rw [List.append_nil] at hline
    rw [hline, hbody]
    exact hfront.append (hscans.delimited (by decide))

end TypeDef

/-! ## Functions -/

/-- The line for a function in front of its arguments. -/
def FunctionDef.frontChars (d : FunctionDef) : List Char :=
  "  function ".toList ++ (d.name.text.toList ++ [' ', ':', ' '])

theorem FunctionDef.exists_line_eq (d : FunctionDef) (r : List Char) :
    ∃ s, d.described.stub.line.toList ++ r = d.frontChars ++ s := by
  have hassoc (keyword name s : List Char) : keyword ++ (name ++ ' ' :: ':' :: ' ' :: s) =
      keyword ++ (name ++ [' ', ':', ' ']) ++ s := by
    simp only [List.append_assoc, List.cons_append, List.nil_append]
  exact ⟨_, (StubFunction.toList_line _ r).trans (hassoc _ _ _)⟩

theorem FunctionDef.exists_front {d : FunctionDef} (hd : d.Built LexicalName) (p : Position) :
    ∃ (k : Lexeme .kwFunction) (n : Lexeme .identifier) (c : Lexeme .colon),
      Delimited p d.frontChars [k.val, n.val, c.val] := by
  let start := p.after "  function ".toList
  have hkeyword : Delimited p "  function ".toList
      [⟨.kwFunction, "function", (p.step ' ').step ' '⟩] := by
    refine .blank (by decide) (.blank (by decide) ?_)
    exact .keyword (w := ['f', 'u', 'n', 'c', 't', 'i', 'o', 'n']) (by decide) (by decide)
  have hname : Scans start d.name.text.toList [⟨.identifier, d.name.text, start⟩] :=
    .name (.inl rfl) hd.name
  have hcolon : Delimited (start.after d.name.text.toList) [' ', ':', ' '] _ :=
    .blank (by decide) (.mark (fun _ => rfl) (by decide))
  exact ⟨lexeme .kwFunction "function" _, lexeme .identifier d.name.text start, lexeme .colon ":" _,
    hkeyword.append (hname.append_delimited hcolon fun _ => ends_cons (by decide))⟩

/-! ## The first line -/

/-- The first line of the stub of a contract. -/
def Contract.frontChars (c : Contract) : List Char :=
  "contract ".toList ++ (c.name.text.toList ++ [' ', '=', '\n'])

theorem Contract.exists_front {c : Contract} (hc : c.Built LexicalName) :
    ∃ (k : Lexeme .kwContract) (n : Lexeme .con) (e : Lexeme .eq), n.val.name.bare = c.name.bare ∧
      Delimited .start c.frontChars [k.val, n.val, e.val] := by
  let start := Position.start.after "contract ".toList
  have hkeyword : Delimited .start "contract ".toList [⟨.kwContract, "contract", .start⟩] :=
    .keyword (w := ['c', 'o', 'n', 't', 'r', 'a', 'c', 't']) (by decide) (by decide)
  have hname : Scans start c.name.text.toList [⟨.con, c.name.text, start⟩] :=
    .name (.inr (.inl rfl)) hc.name
  have heq : Delimited (start.after c.name.text.toList) [' ', '=', '\n'] _ :=
    .blank (by decide) (.mark (fun _ => rfl) (by decide))
  exact ⟨lexeme .kwContract "contract" _, lexeme .con c.name.text start, lexeme .eq "=" _, rfl,
    hkeyword.append (hname.append_delimited heq fun _ => ends_cons (by decide))⟩

end ContractInterface
