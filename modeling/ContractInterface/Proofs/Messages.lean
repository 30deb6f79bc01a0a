import ContractInterface.Proofs.Outcome
import ContractInterface.Proofs.Text.Printable
import ContractInterface.Proofs.Typing.Positions

/-!
# Messages are single lines

Whatever a source contains, what is said against it is printable: the message about what cannot be
read in it, and the line of each issue.  Characters of the source come into a message in three ways.

* The value of a token is quoted (`Token.printable_found`).
* So are the names in the listing of an ambiguity, which shows whole definitions
  (`TypeDef.printable_display`).
* Names stand in the lines of issues as they were written.  A name of the unit is one that the
  scanner accepted (`Token.Lexical.printable`), and a problem tells of no other names: its subject
  and that of the contract or declaration around it (`Problem.within?`).

    describe publicOnly source = .error e →
      (∃ s, e = .source s ∧ Printable s.message) ∨
        ∃ issues, e = .typing (.illTyped issues) ∧ ∀ i ∈ issues, Printable i.line
                                                                        (messages_are_printable)
-/

namespace ContractInterface

open Text (Printable printable_append printable_quote printable_intercalate printable_nat
  printable_int)

/-! ## Displays -/

theorem printable_displayTuple {as : List String} (h : ∀ a ∈ as, Printable a) :
    Printable (displayTuple as) := by
  unfold displayTuple
  split
  · next a =>
    have ha := h a (List.mem_singleton_self a)
    simp only [printable_append, ha]
    decide
  · have hparts : Printable (", ".intercalate as) := printable_intercalate (by decide) h
    simp only [printable_append, hparts]
    decide

theorem printable_displayNode {kind : String} (hkind : Printable kind)
    {parts : List (String × String)} (h : ∀ p ∈ parts, Printable p.1 ∧ Printable p.2) :
    Printable (displayNode kind parts) := by
  have hparts : Printable (", ".intercalate (parts.map fun p => p.1 ++ "=" ++ p.2)) := by
    refine printable_intercalate (by decide) fun s hs => ?_
    obtain ⟨p, hp, rfl⟩ := List.mem_map.1 hs
    have hp := h p hp
    simp only [printable_append, hp]
    decide
  simp only [displayNode, printable_append, hkind, hparts]
  decide

theorem Name.printable_display {kind : String} (hkind : Printable kind) (n : Name) :
    Printable (n.display kind) :=
  printable_displayNode hkind
    (List.forall_mem_singleton.2 ⟨(by decide : Printable "name"), printable_quote _⟩)

namespace TypeExpr

mutual

/-- The display of a type expression is printable, whatever its names are. -/
theorem printable_display (t : TypeExpr) (h : t.firstForeign = none) : Printable t.display := by
  cases t with
  | var n | named n | contract n => exact n.printable_display (by decide)
  | app head args =>
    obtain ⟨hhead, hargs⟩ := Option.or_eq_none_iff.1 h
    have hparts := printable_displayTuple (printable_displays args hargs)
    exact printable_displayNode (by decide) (List.forall_mem_cons.2
      ⟨⟨(by decide : Printable "id"), printable_display head hhead⟩,
        List.forall_mem_singleton.2 ⟨(by decide : Printable "fields"), hparts⟩⟩)
  | tuple parts =>
    have hparts := printable_displayTuple (printable_displays parts h)
    exact printable_displayNode (by decide)
      (List.forall_mem_singleton.2 ⟨(by decide : Printable "args"), hparts⟩)
  | record fields =>
    have hparts := printable_displayTuple (printable_displays fields h)
    exact printable_displayNode (by decide)
      (List.forall_mem_singleton.2 ⟨(by decide : Printable "fields"), hparts⟩)
  | field label type _ =>
    obtain ⟨hlabel, htype⟩ := Option.or_eq_none_iff.1 h
    exact printable_displayNode (by decide) (List.forall_mem_cons.2
      ⟨⟨(by decide : Printable "id"), printable_display label hlabel⟩,
        List.forall_mem_singleton.2 ⟨(by decide : Printable "type"), printable_display type htype⟩⟩)
  | variant constructors =>
    have hparts := printable_displayTuple (printable_displays constructors h)
    exact printable_displayNode (by decide)
      (List.forall_mem_singleton.2 ⟨(by decide : Printable "cons"), hparts⟩)
  | constr tag args _ =>
    obtain ⟨htag, hargs⟩ := Option.or_eq_none_iff.1 h
    have hparts := printable_displayTuple (printable_displays args hargs)
    exact printable_displayNode (by decide) (List.forall_mem_cons.2
      ⟨⟨(by decide : Printable "con"), printable_display tag htag⟩,
        List.forall_mem_singleton.2 ⟨(by decide : Printable "args"), hparts⟩⟩)
  | synonym type =>
    exact printable_displayNode (by decide)
      (List.forall_mem_singleton.2 ⟨(by decide : Printable "type"), printable_display type h⟩)
  | foreign kind parts shown => cases h

theorem printable_displays (ts : List TypeExpr) (h : firstForeignOf ts = none) :
    ∀ s ∈ displays ts, Printable s := by
  cases ts with
  | nil => exact List.forall_mem_nil _
  | cons t ts =>
    obtain ⟨ht, hts⟩ := Option.or_eq_none_iff.1 h
    exact List.forall_mem_cons.2 ⟨printable_display t ht, printable_displays ts hts⟩

end

end TypeExpr

theorem TypeDef.printable_display {d : TypeDef} (h : d.body.firstForeign = none) :
    Printable d.display := by
  have hvars : Printable (displayTuple (d.vars.map (Name.display "TVar"))) := by
    refine printable_displayTuple fun s hs => ?_
    obtain ⟨v, -, rfl⟩ := List.mem_map.1 hs
    exact v.printable_display (by decide)
  refine printable_displayNode (by decide) (List.forall_mem_cons.2 ⟨⟨(by decide : Printable "id"),
    d.name.printable_display (by decide)⟩, List.forall_mem_cons.2 ⟨⟨(by decide : Printable "vars"),
    hvars⟩, List.forall_mem_singleton.2 ⟨(by decide : Printable "typedef"), ?_⟩⟩⟩)
  exact TypeExpr.printable_display d.body h

/-! ## What cannot be read -/

theorem Token.printable_found (t : Token) : Printable t.found := by
  unfold found
  split
  · decide
  · exact printable_quote _

theorem Wanted.printable_text (w : Wanted) : Printable w.text := by
  cases w with
  | token kind => cases kind <;> decide
  | _ => decide

/-- What callers are told about such a failure is printable. -/
def Cause.isPrintable (cause : Cause) : Bool :=
  match Failure.translate ⟨.unknown, cause⟩ with
  | .ok e => decide (Printable e.detail)
  | .error message => decide (Printable message)

theorem Cause.isPrintable_of_translate {cause : Cause} {e : SourceError}
    (h : Failure.translate ⟨.unknown, cause⟩ = .ok e) (he : Printable e.detail) :
    cause.isPrintable = true := by
  unfold isPrintable
  rw [h]
  exact decide_eq_true he

/-- The listing of an ambiguity shows definitions, whose bodies are type expressions. -/
theorem printable_aliasReadings (name : Name) (vars : List Name) (con : Name) (pos : Position) :
    ∀ r ∈ Contract.Parse.aliasReadings name vars con pos, Printable r.display :=
  List.forall_mem_cons.2 ⟨TypeDef.printable_display rfl,
    List.forall_mem_singleton.2 (TypeDef.printable_display rfl)⟩

theorem Cause.ofSources_isPrintable : Cause.OfSources Cause.isPrintable where
  unexpected found wanted := by
    have hfound := found.printable_found
    have hwanted := wanted.printable_text
    refine isPrintable_of_translate rfl ?_
    show Printable ("unexpected " ++ found.found ++ ", expected " ++ wanted.text)
    simp only [printable_append, hfound, hwanted]
    decide
  functionType := by decide
  unbalanced found := by
    have hfound := found.printable_found
    refine isPrintable_of_translate rfl ?_
    show Printable ("unbalanced " ++ found.found ++ " in function body")
    simp only [printable_append, hfound]
    decide
  unclosed := by decide
  ambiguous name vars con pos := by
    have hreadings : Printable
        (", ".intercalate ((Contract.Parse.aliasReadings name vars con pos).map Reading.display)) :=
      printable_intercalate (by decide)
        (List.forall_mem_map.2 (printable_aliasReadings name vars con pos))
    refine isPrintable_of_translate rfl ?_
    show Printable ("Ambiguous [" ++ ", ".intercalate _ ++ "]")
    simp only [printable_append, hreadings]
    decide
  scan := by decide
  unfinished := by decide

/-- Where a failure stands does not matter to what is said about it. -/
theorem Failure.printable_detail {f : Failure} {e : SourceError} (h : f.translate = .ok e)
    (hcause : f.cause.isPrintable = true) : Printable e.detail := by
  obtain ⟨pos, cause⟩ := f
  unfold Cause.isPrintable at hcause
  cases cause <;> cases h <;> exact of_decide_eq_true hcause

theorem SourceError.printable_message {e : SourceError} (h : Printable e.detail) :
    Printable e.message := by
  have hline : Printable e.line.repr := printable_int e.line
  have hcolumn : Printable e.column.repr := printable_int e.column
  unfold message
  simp only [printable_append, toString, hline, hcolumn, h]
  decide

theorem printable_invalidByte (bytes : List UInt8) (offset : Nat) :
    Printable (invalidByte bytes offset).message := by
  refine SourceError.printable_message fun c hc => ?_
  rw [invalidByte, String.toList_ofList] at hc
  rcases List.mem_append.1 hc with hc | hc
  · exact (by decide : Printable "invalid UTF-8 byte 0x") c hc
  · exact Text.isPrintable_hexDigits _ _ c hc

/-! ## Issues -/

theorem Place.printable_text {p : Place} (h : Printable p.name) : Printable p.text := by
  unfold text
  cases p with
  | definition name | function name =>
    have hname : Printable name := h
    simp only [printable_append, toString, hname]
    decide

namespace Problem

/-- The name of the contract or declaration that the problem is found in, if it is told. -/
def within? : Problem → Option String
  | duplicateType _ name | repeatedVar _ name | duplicateFunction _ name => some name
  | shadowsBuiltin _ => none
  | repeatedField _ place | repeatedConstructor _ place | repeatedArgument _ place
  | unannotatedArgument _ place | unannotatedResult place | unboundVar _ place
  | unknownContract _ place | unknownType _ place | arity _ _ _ place => some place.name

/-- A problem tells of no other names. -/
theorem printable_message {p : Problem} (h : Printable p.subject)
    (hwithin : ∀ name, p.within? = some name → Printable name) : Printable p.message := by
  unfold message
  cases p with
  | duplicateType name other | duplicateFunction name other | repeatedVar name other =>
    have hname : Printable name := h
    have hother := hwithin _ rfl
    simp only [printable_append, toString, hname, hother]
    decide
  | shadowsBuiltin name =>
    have hname : Printable name := h
    simp only [printable_append, toString, hname]
    decide
  | unannotatedResult place =>
    have hplace := Place.printable_text h
    simp only [printable_append, toString, hplace]
    decide
  | arity name expected got place =>
    have hname : Printable name := h
    have hplace := Place.printable_text (hwithin _ rfl)
    have hexpected := printable_nat expected
    have hgot := printable_nat got
    simp only [printable_append, toString, hname, hplace, hexpected, hgot]
    decide
  | repeatedField name place | repeatedConstructor name place | repeatedArgument name place
  | unannotatedArgument name place | unboundVar name place | unknownContract name place
  | unknownType name place =>
    have hname : Printable name := h
    have hplace := Place.printable_text (hwithin _ rfl)
    simp only [printable_append, toString, hname, hplace]
    decide

end Problem

theorem Issue.printable_line {i : Issue} (h : Printable i.message) : Printable i.line := by
  have hline : Printable i.pos.line.repr := printable_int _
  have hcol : Printable i.pos.col.repr := printable_int _
  unfold line issueLine Position.phrase
  simp only [printable_append, toString, hline, hcol, h]
  decide

section

variable {unit : List Contract} {c : Contract} {issue : Issue}

theorem TypeExpr.Violates.within?_eq {bound : Option (List Name)} {place : Place} {t : TypeExpr}
    {path : List Nat} (h : t.Violates unit c bound place path issue) :
    issue.problem.within? = some place.name := by
  obtain ⟨m, -, hm⟩ := h
  cases hm <;> rfl

theorem TypeDef.Violates.within?_eq {d : TypeDef} {site : TypeDefSite}
    (h : d.Violates unit c site issue) : issue.problem.within? = some d.name.text := by
  cases h with
  | inBody h => exact h.within?_eq
  | _ => rfl

theorem FunctionDef.Violates.within?_eq {d : FunctionDef} {site : FunctionSite}
    (h : d.Violates unit c site issue) : issue.problem.within? = some d.name.text := by
  cases h with
  | inParam _ _ h | inResult _ h => exact h.within?_eq
  | _ => rfl

variable {P : TokenKind → Name → Prop}

/-- The name around a problem was written as the name of a contract or of a declaration. -/
theorem Contract.Violates.exists_within (hc : c.Built P) {site : Site}
    (h : c.Violates unit site issue) {name : String} (hname : issue.problem.within? = some name) :
    ∃ k n, Token.isMark k = false ∧ P k n ∧ n.text = name := by
  cases h with
  | duplicateType _ | duplicateFunction _ =>
    cases hname
    exact ⟨_, c.name, rfl, hc.name, rfl⟩
  | shadowsBuiltin _ _ _ => cases hname
  | inTypeDef hd h =>
    cases h.within?_eq.symm.trans hname
    exact ⟨_, _, rfl, (hc.typeDef (List.mem_of_getElem? hd)).name, rfl⟩
  | inFunction hd h =>
    cases h.within?_eq.symm.trans hname
    exact ⟨_, _, rfl, (hc.function (List.mem_of_getElem? hd)).name, rfl⟩

end

theorem Problem.isMark_subjectKind (p : Problem) : Token.isMark p.subjectKind = false := by
  cases p <;> rfl

/-- A name that the scanner accepted is printable. -/
theorem Token.Lexical.printable {k : TokenKind} {s : String} (hk : isMark k = false)
    (h : Lexical k s) : Printable s := by
  suffices hs : ∀ c ∈ s.toList, isNameChar c = true from
    fun c hc => isPrintable_of_isNameChar (hs c hc)
  cases k with
  | identifier =>
    obtain ⟨c, r, e, hc, -, hr, -⟩ := h
    rw [e]
    exact List.forall_mem_cons.2 ⟨isNameChar_of_startsName hc, hr⟩
  | con =>
    obtain ⟨c, r, e, hc, -, hr⟩ := h
    rw [e]
    exact List.forall_mem_cons.2 ⟨isNameChar_of_startsName hc, hr⟩
  | tvar =>
    obtain ⟨c, r, e, hc, hr⟩ := h
    rw [e]
    exact List.forall_mem_cons.2
      ⟨by decide, List.forall_mem_cons.2 ⟨isNameChar_of_startsName hc, hr⟩⟩
  | finish => exact h.elim
  | _ => cases hk

/-- The issues of a source are printable, for they tell of names in it. -/
theorem printable_issues {source : String} {unit : List Contract} {issues : List Issue}
    (h : Contract.ofSource source = .ok unit)
    (hinfer : Contract.infer unit = .error (.illTyped issues)) :
    ∀ i ∈ issues, Printable i.line := by
  have hbuilt := fun c hc => (Grammar.built_of_ofSource h c hc).1
  obtain ⟨found, hfound, heq⟩ := infer_eq fun k hk c => (hbuilt k hk).unhindered c
  rw [hinfer] at heq
  split at heq
  · cases heq
  cases heq
  intro i hi
  obtain ⟨site, c, hc, hv⟩ :=
    hfound.exists_site ((perm_sortByPosition Issue.pos found).mem_iff.1 hi)
  have hc := hbuilt c (List.mem_of_getElem? hc)
  refine Issue.printable_line (Problem.printable_message ?_ fun name hname => ?_)
  · obtain ⟨n, hn, hsubject, -⟩ := hv.pointsAt hc
    rw [← hsubject]
    exact hn.printable i.problem.isMark_subjectKind
  · obtain ⟨k, n, hk, hn, rfl⟩ := hv.exists_within hc hname
    exact hn.printable hk

/-! ## Sources -/

theorem Source.printable_of_decode {source : Source} {e : SourceError}
    (h : source.decode = .error e) : Printable e.message := by
  cases source with
  | text s => cases h
  | bytes b =>
    simp only [decode] at h
    split at h
    · cases h
    · next offset _ =>
      cases h
      exact printable_invalidByte b offset

theorem Contract.printable_of_ofSource {s : String} {f : Failure} {e : SourceError}
    (h : Contract.ofSource s = .error f) (he : f.translate = .ok e) : Printable e.message :=
  SourceError.printable_message
    (Failure.printable_detail he (failsOnly_ofSource Cause.ofSources_isPrintable s f h))

/-- **A source that is refused is refused in printable lines**: one message says what cannot be
read, or each issue has its line. -/
theorem messages_are_printable (publicOnly : Bool) (source : Source) (e : DescribeError)
    (h : describe publicOnly source = .error e) :
    (∃ s, e = .source s ∧ Printable s.message) ∨
      ∃ issues, e = .typing (.illTyped issues) ∧ ∀ i ∈ issues, Printable i.line := by
  cases hs : source.decode with
  | error s =>
    simp only [describe, DescribeRequest.run, hs] at h
    cases h
    exact .inl ⟨s, rfl, source.printable_of_decode hs⟩
  | ok s =>
    cases hunit : Contract.ofSource s with
    | error f =>
      obtain ⟨s', hs'⟩ := Contract.exists_translate_of_ofSource hunit
      simp only [describe, DescribeRequest.run, hs, hunit, hs'] at h
      cases h
      exact .inl ⟨s', rfl, Contract.printable_of_ofSource hunit hs'⟩
    | ok unit =>
      obtain ⟨ht, -⟩ | ⟨-, issues, hinfer⟩ := infer_cases hunit
      · obtain ⟨d, hd⟩ :=
          describe_of_wellTyped (Source.hasUnit_iff.2 ⟨s, hs, hunit⟩) ht publicOnly
        cases h.symm.trans hd
      · simp only [describe, DescribeRequest.run, hs, hunit, hinfer] at h
        cases h
        exact .inr ⟨issues, rfl, printable_issues hunit hinfer⟩

/-- The line feed in a string token does not reach the message: it is shown as an escape. -/
theorem messages_are_printable_string : ∃ e : SourceError,
    describe false (.text "contract \"a\\nb\"") = .error (.source e) ∧
    e.detail = "unexpected 'a\\nb', expected a capitalized name" ∧
    ((∃ s, DescribeError.source e = .source s ∧ Printable s.message) ∨
      ∃ issues, DescribeError.source e = .typing (.illTyped issues) ∧
        ∀ i ∈ issues, Printable i.line) := by
  have hsource : Contract.ofSource "contract \"a\\nb\"" =
      .error ⟨⟨1, 10⟩, .unexpected ⟨.string, "a\nb", ⟨1, 10⟩⟩ (.token .con)⟩ := by
    cbv
  have h : describe false (.text "contract \"a\\nb\"") = .error (.source ⟨1, 10,
      Cause.detail (.unexpected ⟨.string, "a\nb", ⟨1, 10⟩⟩ (.token .con))⟩) := by
    simp only [describe, DescribeRequest.run, Source.decode, hsource, Failure.translate]
  exact ⟨_, h, by decide, messages_are_printable _ _ _ h⟩

end ContractInterface
