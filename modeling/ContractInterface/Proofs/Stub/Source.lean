import Mathlib
import ContractInterface.Proofs.Composition
import ContractInterface.Proofs.Stub.Lines

/-!
# Stubs as sources

A stub is itself a source if it shows no function and no type definition but aliases, and then it
spells the header of the contract that it was made from (`stub_source_iff`).  Which declarations are
read from its lines is told line by line (`Declares`):

* an alias is read as itself, in front of whatever the further lines declare (`declares_alias`);
* at a record, the reader misses a type, as none starts with a brace;
* at a variant, it meets a capitalized name, and as no contract is complete yet there is none that
  this could be an alias for;
* at a function, it misses the parenthesis of the arguments.
-/

namespace ContractInterface

/-- The definition is an alias: neither a record nor a datatype. -/
def TypeDef.IsAlias (d : TypeDef) : Prop := ∃ type, d.body = .synonym type

namespace Grammar

open Token (Scans Delimited scanFrom)
open Contract.Parse

variable {p : Position} {l s : List Char} {ds : List Decl} {rest : List Token}

/-! ## What a text declares -/

/-- In front of `rest`, these are the declarations that the text from `p` on spells in the first
contract of a unit. -/
def Declares (p : Position) (s : List Char) (ds : List Decl) (rest : List Token) : Prop :=
  ∃ ts, scanFrom p 0 s = .ok ts ∧ Reads (decls []) ts ds rest

theorem declares_nil : Declares p [] ds rest ↔ ds = [] ∧ rest = [⟨.finish, "", p⟩] := by
  have hread : Reads (decls []) [⟨.finish, "", p⟩] ds rest ↔ _ := reads_decls_end rfl
  constructor
  · rintro ⟨ts, hts, h⟩
    cases hts
    exact hread.1 h
  · exact fun h => ⟨_, rfl, hread.2 h⟩

/-- The rest of a text behind what was scanned. -/
theorem declares_delimited {us : List Token} (hl : Delimited p l us) : Declares p (l ++ s) ds rest ↔
    ∃ ts, scanFrom (p.after l) 0 s = .ok ts ∧ Reads (decls []) (us ++ ts) ds rest := by
  rw [Declares, hl s]
  cases scanFrom (p.after l) 0 s with
  | error f => simp [Except.map]
  | ok ts => simp [Except.map]

/-- A declaration that can end where the text goes on is read as itself. -/
theorem declares_cons {T : DeclTree} (hl : Delimited p l T.tokens) (hsettled : T.Settled [])
    (hs : ∀ ts, scanFrom (p.after l) 0 s = .ok ts → EndsDecl (headKind ts)) :
    Declares p (l ++ s) ds rest ↔ ∃ es, ds = T.ast :: es ∧ Declares (p.after l) s es rest := by
  rw [declares_delimited hl]
  constructor
  · rintro ⟨ts, hts, h⟩
    obtain ⟨t, us, e, ht, hread⟩ := decl_complete [] T ts (hs ts hts) hsettled
    rw [e] at h
    obtain ⟨d, vs, es, hd, hes, rfl⟩ := (reads_decls_cons ht).1 h
    obtain ⟨rfl, rfl⟩ := hread.unique hd
    exact ⟨es, rfl, ts, hts, hes⟩
  · rintro ⟨es, rfl, ts, hts, h⟩
    obtain ⟨t, us, e, ht, hread⟩ := decl_complete [] T ts (hs ts hts) hsettled
    refine ⟨ts, hts, ?_⟩
    rw [e]
    exact (reads_decls_cons ht).2 ⟨_, _, es, hread, h, rfl⟩

/-- A text declares nothing at all if its first declaration cannot be read. -/
theorem not_declares {t : Token} {us : List Token} (hl : Delimited p l (t :: us))
    (ht : t.kind.startsDecl = true)
    (h : ∀ ts, scanFrom (p.after l) 0 s = .ok ts → ∀ d vs, ¬Reads (decl [] t) (us ++ ts) d vs) :
    ¬Declares p (l ++ s) ds rest := by
  rw [declares_delimited hl]
  rintro ⟨ts, hts, hread⟩
  obtain ⟨d, vs, es, hd, -⟩ := (reads_decls_cons ht).1 hread
  exact h ts hts d vs hd

/-! ## Lines at which the reader stops -/

/-- Without complete contracts no alias starts with a brace or a capitalized name. -/
theorem not_reads_alias {k : Lexeme .kwType} {hd : HeadTree} {t : Token} {us vs : List Token}
    {d : Decl} (ht : t.kind = .lbrace ∨ t.kind = .con) :
    ¬Reads (decl [] k.val) (hd.tokens ++ t :: us) d vs := by
  intro h
  simp only [decl, k.property] at h
  obtain ⟨td, htd, -⟩ := Reads.map_iff.1 h
  obtain ⟨hd', ts, type, hhead, htype, rfl, hamong⟩ := reads_aliasDef.1 htd
  obtain ⟨rfl, rfl⟩ := (complete_typeHead hd (t :: us) trivial).unique hhead
  rcases ht with ht | ht
  · exact reads_typeExpr_other (by simp [ht]) htype
  · obtain ⟨rfl, -⟩ := (reads_typeExpr_con ht).1 htype
    exact absurd (hamong _ rfl) List.not_mem_nil

theorem not_declares_record {d : TypeDef} (hd : d.Built LexicalName) {fields : List TypeExpr}
    (hbody : d.body = .record fields) :
    ¬Declares p (d.described.stub.line.toList ++ s) ds rest := by
  obtain ⟨k, h, -, -, hfront⟩ := TypeDef.exists_front hd p
  rw [d.line_eq, hbody, TypeExpr.toList_text_record]
  refine not_declares hfront (by rw [k.property]; rfl) fun ts hts e vs => ?_
  rw [Token.scanFrom_cons, Token.piece_punctuation rfl] at hts
  obtain ⟨us, -, rfl⟩ := map_eq_ok_iff.1 hts
  exact not_reads_alias (.inl rfl)

theorem not_declares_variant {d : TypeDef} (hd : d.Built LexicalName) {constructors : List TypeExpr}
    (hbody : d.body = .variant constructors) :
    ¬Declares p (d.described.stub.line.toList ++ s) ds rest := by
  obtain ⟨k, h, -, -, hfront⟩ := TypeDef.exists_front hd p
  have hvariant := hd.body
  rw [hbody] at hvariant
  obtain ⟨n, r, hn, hchars⟩ := TypeExpr.chars_variant_eq hvariant
  rw [d.line_eq, hbody, hchars, List.append_assoc, List.cons_append]
  refine not_declares hfront (by rw [k.property]; rfl) fun ts hts e vs => ?_
  have hname : Scans (p.after d.frontChars) n.text.toList [⟨.con, n.text, p.after d.frontChars⟩] :=
    .name (.inr (.inl rfl)) hn
  rw [hname _ (ends_cons (by decide))] at hts
  obtain ⟨us, -, rfl⟩ := map_eq_ok_iff.1 hts
  exact not_reads_alias (.inr rfl)

theorem not_declares_function {f : FunctionDef} (hf : f.Built LexicalName) :
    ¬Declares p (f.described.stub.line.toList ++ s) ds rest := by
  obtain ⟨r, hline⟩ := f.exists_line_eq s
  obtain ⟨k, n, c, hfront⟩ := FunctionDef.exists_front hf p
  rw [hline]
  refine not_declares hfront (by rw [k.property]; rfl) fun ts _ d vs h => ?_
  simp only [decl, k.property] at h
  obtain ⟨fd, hfd, -⟩ := Reads.map_iff.1 h
  rw [functionDef, if_pos k.property] at hfd
  obtain ⟨n', us, hn, h₁⟩ := Reads.bind_iff.1 hfd
  obtain ⟨e, -⟩ := Reads.expect_iff.1 hn
  cases e
  obtain ⟨ps, us, hps, -⟩ := Reads.bind_iff.1 h₁
  obtain ⟨o, us', ho, -⟩ := Reads.bind_iff.1 hps
  obtain ⟨e, ho'⟩ := Reads.expect_iff.1 ho
  cases e
  rw [c.property] at ho'
  cases ho'

/-! ## The lines of a stub -/

/-- The lines of a stub behind the first. -/
def stubLines (types : List TypeDef) (functions : List FunctionDef) : List Char :=
  types.flatMap (fun d => d.described.stub.line.toList) ++
    functions.flatMap fun f => f.described.stub.line.toList

variable {types : List TypeDef} {functions : List FunctionDef}

theorem stubLines_cons (d : TypeDef) : stubLines (d :: types) functions =
    d.described.stub.line.toList ++ stubLines types functions := by
  rw [stubLines, List.flatMap_cons, List.append_assoc, stubLines]

/-- A declaration can end in front of any line. -/
theorem endsDecl_stubLines (ht : ∀ d ∈ types, d.Built LexicalName)
    (hf : ∀ f ∈ functions, f.Built LexicalName) {ts : List Token}
    (h : scanFrom p 0 (stubLines types functions) = .ok ts) : EndsDecl (headKind ts) := by
  have hfront {l s : List Char} {t : Token} {us : List Token} (hl : Delimited p l (t :: us))
      (h : scanFrom p 0 (l ++ s) = .ok ts) : headKind ts = t.kind := by
    rw [hl s] at h
    obtain ⟨vs, -, rfl⟩ := map_eq_ok_iff.1 h
    rfl
  match types, functions with
  | [], [] =>
    cases h
    exact .inr (.inr rfl)
  | [], f :: fs =>
    obtain ⟨k, n, c, hl⟩ := FunctionDef.exists_front (hf f (by simp)) p
    obtain ⟨r, hline⟩ := f.exists_line_eq (fs.flatMap fun f => f.described.stub.line.toList)
    rw [stubLines, List.flatMap_nil, List.nil_append, List.flatMap_cons, hline] at h
    rw [hfront hl h, k.property]
    exact .inl rfl
  | d :: ds, functions =>
    obtain ⟨k, head, -, -, hl⟩ := TypeDef.exists_front (ht d (by simp)) p
    rw [stubLines_cons, d.line_eq] at h
    rw [hfront hl h, k.property]
    exact .inl rfl

/-- An alias is read as itself in front of whatever else is declared. -/
theorem declares_alias {d : TypeDef} (hd : d.Built LexicalName) (halias : d.IsAlias)
    (hamong : AliasAmong [] d) (p : Position) : ∃ e : Decl, e.bare = (Decl.typeDef d).bare ∧
      ∀ s, (∀ ts, scanFrom (p.after d.described.stub.line.toList) 0 s = .ok ts →
          EndsDecl (headKind ts)) → ∀ ds rest,
        Declares p (d.described.stub.line.toList ++ s) ds rest ↔
          ∃ es, ds = e :: es ∧ Declares (p.after d.described.stub.line.toList) s es rest := by
  obtain ⟨type, hbody⟩ := halias
  obtain ⟨T, hbare, hl⟩ := TypeDef.exists_aliasTree hd hbody p
  have hsettled : T.Settled [] := by
    intro td htd
    cases hT : T.ast with
    | typeDef u =>
      rw [hT] at htd hbare
      cases htd
      have hsame := TypeDef.same_of_bare d td (Decl.typeDef.inj hbare).symm
      exact hamong.of_surface ((TypeDef.same_iff d td).1 hsame)
    | _ =>
      rw [hT] at htd
      cases htd
  exact ⟨T.ast, hbare, fun s hs ds rest => declares_cons hl hsettled hs⟩

/-- **What the lines of a stub declare**: the aliases that they show, if that is all they show, and
otherwise nothing can be read. -/
theorem declares_stubLines (ht : ∀ d ∈ types, d.Built LexicalName ∧ AliasAmong [] d)
    (hf : ∀ f ∈ functions, f.Built LexicalName) (p : Position) :
    ∃ (ds : List Decl) (e : Token), ds.map Decl.bare = types.map (fun d => (Decl.typeDef d).bare) ∧
      e.kind = .finish ∧ ∀ es rest, Declares p (stubLines types functions) es rest ↔
        (functions = [] ∧ ∀ d ∈ types, d.IsAlias) ∧ es = ds ∧ rest = [e] := by
  induction types generalizing p with
  | nil =>
    refine ⟨[], ⟨.finish, "", p⟩, rfl, rfl, fun es rest => ?_⟩
    cases functions with
    | nil => simpa [stubLines] using declares_nil
    | cons f fs =>
      have hnot : ¬Declares p (f.described.stub.line.toList ++
          fs.flatMap fun f => f.described.stub.line.toList) es rest :=
        not_declares_function (hf f (by simp))
      simpa [stubLines] using hnot
  | cons d types ih =>
    obtain ⟨⟨hd, hamong⟩, ht⟩ := List.forall_mem_cons.1 ht
    simp only [stubLines_cons, List.forall_mem_cons]
    by_cases halias : d.IsAlias
    · obtain ⟨u, hu, hdeclares⟩ := declares_alias hd halias hamong p
      obtain ⟨ds, e, hds, he, hlines⟩ := ih ht (p.after d.described.stub.line.toList)
      refine ⟨u :: ds, e, by rw [List.map_cons, List.map_cons, hu, hds], he, fun es rest => ?_⟩
      rw [hdeclares _ (fun ts => endsDecl_stubLines (fun d hd => (ht d hd).1) hf)]
      constructor
      · rintro ⟨es, rfl, h⟩
        obtain ⟨⟨hnone, haliases⟩, rfl, rfl⟩ := (hlines es rest).1 h
        exact ⟨⟨hnone, halias, haliases⟩, rfl, rfl⟩
      · rintro ⟨⟨hnone, -, haliases⟩, rfl, rfl⟩
        exact ⟨ds, rfl, (hlines ds [e]).2 ⟨⟨hnone, haliases⟩, rfl, rfl⟩⟩
    · refine ⟨(d :: types).map .typeDef, ⟨.finish, "", p⟩, by rw [List.map_map]; rfl, rfl,
        fun es rest => ⟨fun h => ?_, fun h => absurd h.1.2.1 halias⟩⟩
      cases hbody : d.body with
      | synonym type => exact absurd ⟨type, hbody⟩ halias
      | record fields => exact absurd h (not_declares_record hd hbody)
      | variant constructors => exact absurd h (not_declares_variant hd hbody)
      | _ =>
        have hnone := hd.body
        rw [hbody] at hnone
        exact hnone.elim

/-! ## From lines to units -/

/-- A text that starts a contract is a source if it declares something, here up to the end. -/
theorem ofSource_eq_ok_iff_declares {text : String} {k : Lexeme .kwContract} {n : Lexeme .con}
    {e : Lexeme .eq} (htext : text.toList = l ++ s)
    (hl : Delimited .start l [k.val, n.val, e.val])
    (hs : ∀ ds rest, Declares (Position.start.after l) s ds rest → headKind rest = .finish)
    {unit : List Contract} : Contract.ofSource text = .ok unit ↔
      ∃ ds rest, Declares (Position.start.after l) s ds rest ∧
        unit = [⟨n.val.name, ds, some k.val.pos⟩] := by
  have hscan : Token.scan text =
      (scanFrom (Position.start.after l) 0 s).map ([k.val, n.val, e.val] ++ ·) := by
    rw [Token.scan, htext, hl s]
  unfold Contract.ofSource
  rw [hscan]
  cases hrest : scanFrom (Position.start.after l) 0 s with
  | error f => simp [Declares, hrest, Except.map]
  | ok ts =>
    have hdeclares (ds : List Decl) (rest : List Token) :
        Declares (Position.start.after l) s ds rest ↔ Reads (decls []) ts ds rest := by
      simp [Declares, hrest]
    have hcontracts : contracts [] (k.val :: n.val :: e.val :: ts) = .ok unit ↔ _ :=
      contracts_cons_eq_ok_iff
    simp only [hdeclares] at hs ⊢
    refine hcontracts.trans ⟨?_, ?_⟩
    · rintro ⟨-, c, rest, hc, hunit⟩
      obtain ⟨n', e', us, ds, heq, hds, -, rfl⟩ := reads_contract.1 hc
      obtain ⟨hn, -, rfl⟩ : n.val = n'.val ∧ e.val = e'.val ∧ ts = us := by simpa using heq
      rcases hunit with ⟨-, rfl⟩ | ⟨hend, -⟩
      · exact ⟨ds, rest, hds, by rw [hn]⟩
      · exact absurd (hs ds rest hds) hend
    · rintro ⟨ds, rest, hds, rfl⟩
      have hend := hs ds rest hds
      exact ⟨k.property, _, rest, reads_contract.2 ⟨n, e, ts, ds, rfl, hds, .inr hend, rfl⟩,
        .inl ⟨hend, rfl⟩⟩

end Grammar

/-! ## The contract that a stub spells -/

namespace Contract

/-- The contract without its functions; its type definitions may be left out, too. -/
def header (includeTypes : Bool) (c : Contract) : Contract :=
  ⟨c.name, c.decls.filter fun d => d.function?.isNone && (includeTypes || d.typeDef?.isNone), c.pos⟩

/-- What a source declares besides functions are type definitions. -/
theorem Built.decls_header {P : TokenKind → Name → Prop} {c : Contract} (h : c.Built P)
    (includeTypes : Bool) :
    (c.header includeTypes).decls = (c.shownTypes includeTypes).map .typeDef := by
  have hdecls (ds : List Decl) (hds : ∀ d ∈ ds, d.Built P) :
      ds.filter (fun d => d.function?.isNone && (includeTypes || d.typeDef?.isNone)) =
        (if includeTypes then ds.filterMap Decl.typeDef? else []).map .typeDef := by
    induction ds with
    | nil => cases includeTypes <;> rfl
    | cons d ds ih =>
      obtain ⟨hd, hrest⟩ := List.forall_mem_cons.1 hds
      cases d with
      | typeDef d => cases includeTypes <;> simpa [Decl.function?, Decl.typeDef?] using ih hrest
      | function d =>
        simp only [List.filter_cons, List.filterMap_cons, Decl.function?, Decl.typeDef?]
        exact ih hrest
      | other name pos => exact hd.elim
  exact hdecls c.decls h.decls

variable {includeTypes publicOnly : Bool}

theorem toList_stubText (c : Contract) : (c.stubSurface includeTypes publicOnly).stub.text.toList =
    c.frontChars ++
      Grammar.stubLines (c.shownTypes includeTypes) (c.shownFunctions publicOnly) := by
  have hassoc (keyword name lines : List Char) : keyword ++ (name ++ ' ' :: '=' :: '\n' :: lines) =
      keyword ++ (name ++ [' ', '=', '\n']) ++ lines := by
    simp only [List.append_assoc, List.cons_append, List.nil_append]
  rw [Stub.toList_text, StubSurface.stub, stubSurface, List.flatMap_map, List.flatMap_map,
    List.flatMap_map, List.flatMap_map]
  simp only [FunctionDef.stub_signature, TypeDef.stub_surface]
  exact hassoc _ _ _

/-- The stub of a contract is read as its header, or not at all. -/
theorem exists_ofSource_stub {c : Contract} (hc : c.Built LexicalName)
    (hamong : ∀ d ∈ c.typeDefs, Grammar.AliasAmong [] d) (includeTypes publicOnly : Bool) :
    ∃ k : Contract, k.bare = (c.header includeTypes).bare ∧ ∀ unit,
      ofSource (c.stubSurface includeTypes publicOnly).stub.text = .ok unit ↔
        (c.shownFunctions publicOnly = [] ∧ ∀ d ∈ c.shownTypes includeTypes, d.IsAlias) ∧
          unit = [k] := by
  have hshown : ∀ d ∈ c.shownTypes includeTypes, d.Built LexicalName ∧ Grammar.AliasAmong [] d := by
    intro d hd
    refine ⟨hc.shownType d hd, ?_⟩
    cases includeTypes with
    | false => cases hd
    | true => exact hamong d hd
  have hfunctions : ∀ f ∈ c.shownFunctions publicOnly, f.Built LexicalName := hc.shownFunction
  obtain ⟨k, n, e, hname, hl⟩ := exists_front hc
  obtain ⟨ds, finish, hds, hfinish, hlines⟩ :=
    Grammar.declares_stubLines hshown hfunctions (Position.start.after c.frontChars)
  refine ⟨⟨n.val.name, ds, some k.val.pos⟩, ?_, fun unit => ?_⟩
  · rw [bare, bare, hc.decls_header, hname, hds, List.map_map]
    rfl
  · rw [Grammar.ofSource_eq_ok_iff_declares c.toList_stubText hl fun es rest hes => by
      obtain ⟨-, -, rfl⟩ := (hlines es rest).1 hes
      exact hfinish]
    simp only [hlines]
    constructor
    · rintro ⟨_, _, ⟨hshows, rfl, rfl⟩, rfl⟩
      exact ⟨hshows, rfl⟩
    · rintro ⟨hshows, rfl⟩
      exact ⟨ds, [finish], ⟨hshows, rfl, rfl⟩, rfl⟩

end Contract

/-- **Which stubs are sources**: those that show no function and no type definition but aliases.
Such a stub spells one contract, the header of the contract that it was made from. -/
theorem stub_source_iff (indent : Option Int) (publicOnly includeTypes : Bool) (source : Source)
    (t : String) (h : interfaceText indent publicOnly source = .ok t) :
    ∃ c stub, source.FirstContract c ∧ (InterfaceText.text t).stub includeTypes = .ok stub ∧
      ((∃ unit, Contract.ofSource stub.text = .ok unit) ↔ c.describedFunctions publicOnly = [] ∧
        (includeTypes = true → ∀ d ∈ c.typeDefs, d.IsAlias)) ∧
      ∀ unit, Contract.ofSource stub.text = .ok unit →
        ∃ k, unit = [k] ∧ k.bare = (c.header includeTypes).bare := by
  obtain ⟨u, c, cs, d, hs, hc, -, hd, rfl⟩ := interfaceText_eq_ok h
  obtain ⟨hbuilt, horder⟩ := Grammar.built_of_ofSource hc c (by simp)
  obtain ⟨-, -, -, -, -, -, hsettled⟩ := Grammar.exists_derivation_of_ofSource hc
  have hfunctions : c.describedFunctions publicOnly = c.shownFunctions publicOnly := by
    rw [Contract.describedFunctions, horder.orderedFunctions, Contract.shownFunctions]
  have haliases : (∀ d ∈ c.shownTypes includeTypes, d.IsAlias) ↔
      (includeTypes = true → ∀ d ∈ c.typeDefs, d.IsAlias) := by
    cases includeTypes <;> simp [Contract.shownTypes]
  obtain ⟨k, hk, hunit⟩ := Contract.exists_ofSource_stub hbuilt
    (Grammar.aliasesSettledFrom_cons.1 hsettled).1 includeTypes publicOnly
  refine ⟨c, _, ⟨u, cs, hs, hc⟩, d.stub_text indent includeTypes, ?_, fun unit h => ?_⟩
  · rw [← Contract.stub_stubSurface horder hd includeTypes, hfunctions, ← haliases]
    constructor
    · rintro ⟨unit, h⟩
      exact ((hunit unit).1 h).1
    · exact fun hshows => ⟨[k], (hunit [k]).2 ⟨hshows, rfl⟩⟩
  · rw [← Contract.stub_stubSurface horder hd includeTypes] at h
    exact ⟨k, ((hunit unit).1 h).2, hk⟩

/-- A private function is no part of the stub. -/
theorem stub_source_iff_private : ∃ c stub,
    (Source.text ("contract C =\n  type t('a) = ('a, int)\n" ++
        "  private function f() : int = 1")).FirstContract c ∧
      (InterfaceText.text ("\x7b\"contract\":\x7b\"name\":\"C\",\"type_defs\":[\x7b" ++
        "\"name\":\"t\",\"vars\":[\x7b\"name\":\"'a\"\x7d],\"typedef\":\"('a,int)\"\x7d]," ++
        "\"functions\":[]\x7d\x7d")).stub true = .ok stub ∧
      ((∃ unit, Contract.ofSource stub.text = .ok unit) ↔ c.describedFunctions true = [] ∧
        (true = true → ∀ d ∈ c.typeDefs, d.IsAlias)) ∧
      ∀ unit, Contract.ofSource stub.text = .ok unit →
        ∃ k, unit = [k] ∧ k.bare = (c.header true).bare :=
  stub_source_iff none true true _ _ (by cbv)

end ContractInterface
