import Mathlib
import ContractInterface.Proofs.Stub
import ContractInterface.Proofs.Surface

/-!
# What stubs tell

A stub shows the name of a contract, the types of arguments and result of each function and, where
they are included, the type definitions (`Contract.stubSurface`).  It can be told from that, and all
of that can be told from its text:

    s₁.text = s₂.text ↔
      c₁.stubSurface types public = c₂.stubSurface types public                   (stubs_eq_iff)

A line determines what it was written for, also in front of further lines: `, ` stands between two
arguments and `,` between two parts of a type, and a type ends where it cannot go on.
-/

namespace ContractInterface

/-! ## Surfaces -/

/-- What a stub shows of a function: its arguments have no names. -/
structure SignatureSurface where
  name : String
  arguments : List (Option TypeExpr)
  result : Option TypeExpr

structure StubSurface where
  name : String
  typeDefs : List TypeSurface
  functions : List SignatureSurface

def FunctionDef.signature (d : FunctionDef) : SignatureSurface :=
  ⟨d.name.text, d.params.map fun p => p.type.map TypeExpr.bare, d.result.map TypeExpr.bare⟩

namespace Contract

/-- The type definitions that a stub shows, as they were written. -/
def shownTypes (includeTypes : Bool) (c : Contract) : List TypeDef :=
  if includeTypes then c.typeDefs else []

/-- The functions that a stub shows, as they were written; private ones may be left out. -/
def shownFunctions (publicOnly : Bool) (c : Contract) : List FunctionDef :=
  c.functions.filter fun d => !(publicOnly && d.isPrivate)

def stubSurface (includeTypes publicOnly : Bool) (c : Contract) : StubSurface :=
  ⟨c.name.text, (c.shownTypes includeTypes).map TypeDef.surface,
    (c.shownFunctions publicOnly).map FunctionDef.signature⟩

end Contract

/-! ## From surfaces to stubs -/

def SignatureSurface.stub (f : SignatureSurface) : StubFunction :=
  ⟨f.name, f.arguments.map ascriptionText, ascriptionText f.result⟩

def TypeSurface.stub (t : TypeSurface) : StubType := ⟨t.name, t.vars, t.body.text⟩

def StubSurface.stub (s : StubSurface) : Stub :=
  ⟨s.name, s.typeDefs.map TypeSurface.stub, s.functions.map SignatureSurface.stub⟩

theorem ascriptionText_bare (type : Option TypeExpr) :
    ascriptionText (type.map TypeExpr.bare) = ascriptionText type := by
  cases type with
  | none => rfl
  | some t => exact t.text_bare

theorem FunctionDef.stub_signature (d : FunctionDef) : d.signature.stub = d.described.stub := by
  simp [signature, SignatureSurface.stub, described, DescribedFunction.stub, Param.described,
    ascriptionText_bare]

theorem TypeDef.stub_surface (d : TypeDef) : d.surface.stub = d.described.stub := by
  simp [surface, TypeSurface.stub, described, DescribedType.stub, TypeExpr.text_bare]

/-- The stub of a description is that of the surface. -/
theorem Contract.stub_stubSurface {c : Contract} (hc : c.InOrder) {publicOnly : Bool}
    {d : Description} (h : c.describe publicOnly = .ok d) (includeTypes : Bool) :
    (c.stubSurface includeTypes publicOnly).stub = d.stub includeTypes := by
  obtain ⟨rfl, -⟩ := Contract.eq_described hc h
  have htypes : (TypeSurface.stub ∘ TypeDef.surface) = fun d => d.described.stub :=
    funext TypeDef.stub_surface
  have hfunctions : (SignatureSurface.stub ∘ FunctionDef.signature) = fun d => d.described.stub :=
    funext FunctionDef.stub_signature
  rw [stubSurface, StubSurface.stub, List.map_map, List.map_map, htypes, hfunctions,
    Description.stub, Stub.mk.injEq, List.map_map, List.map_map]
  refine ⟨rfl, ?_, rfl⟩
  cases includeTypes <;> rfl

/-! ## Lines for functions -/

theorem StubFunction.toList_line (f : StubFunction) (r : List Char) :
    f.line.toList ++ r = "  function ".toList ++ (f.name.toList ++ ' ' :: ':' :: ' ' :: '(' ::
      ([',', ' '].intercalate (f.arguments.map String.toList) ++
        ')' :: ' ' :: '=' :: '>' :: ' ' :: (f.result.toList ++ '\n' :: r))) := by
  rw [line, parenthesised]
  simp only [String.toList_append, String.toList_intercalate, List.append_assoc]
  rfl

namespace FunctionDef

/-- The types of the arguments, if none of them is missing. -/
def argumentTypes (d : FunctionDef) : List TypeExpr := d.params.map fun p => p.type.getD .absent

theorem stub_arguments (d : FunctionDef) :
    d.described.stub.arguments.map String.toList = d.argumentTypes.map TypeExpr.chars := by
  simp [DescribedFunction.stub, described, argumentTypes, Param.described, ascriptionText,
    TypeExpr.chars]

section

variable {d e : FunctionDef} (hd : d.Built LexicalName) (he : e.Built LexicalName)
  (had : d.Annotated) (hae : e.Annotated)

include hd had in
theorem built_argumentTypes : ∀ t ∈ d.argumentTypes, t.Built LexicalName := by
  intro t h
  obtain ⟨p, hp, rfl⟩ := List.mem_map.1 h
  obtain ⟨t, ht⟩ := Option.isSome_iff_exists.1 (had.1 p hp)
  rw [ht]
  exact (hd.params p hp).type t ht

include hd had in
theorem built_result : (d.result.getD .absent).Built LexicalName := by
  obtain ⟨t, ht⟩ := Option.isSome_iff_exists.1 had.2
  rw [ht]
  exact hd.result t ht

include had hae in
/-- Where nothing is missing, a signature is made of the name and the types. -/
theorem signature_eq_of_bare (hname : d.name.text = e.name.text)
    (harguments : TypeExpr.bares d.argumentTypes = TypeExpr.bares e.argumentTypes)
    (hresult : (d.result.getD .absent).bare = (e.result.getD .absent).bare) :
    d.signature = e.signature := by
  have hoption {a b : Option TypeExpr} (ha : a.isSome) (hb : b.isSome) :
      (a.getD .absent).bare = (b.getD .absent).bare ↔
        a.map TypeExpr.bare = b.map TypeExpr.bare := by
    obtain ⟨t, rfl⟩ := Option.isSome_iff_exists.1 ha
    obtain ⟨u, rfl⟩ := Option.isSome_iff_exists.1 hb
    simp
  have hparams : (d.params.map fun p => p.type.map TypeExpr.bare) =
      e.params.map fun p => p.type.map TypeExpr.bare := by
    rw [TypeExpr.bares_eq_map, TypeExpr.bares_eq_map, argumentTypes, argumentTypes, List.map_map,
      List.map_map] at harguments
    exact (map_eq_map_iff fun p hp q hq => hoption (had.1 p hp) (hae.1 q hq)).1 harguments
  rw [signature, signature, hname, hparams, (hoption had.2 hae.2).1 hresult]

include hd he had hae in
/-- **The line for a function determines its signature**, whatever follows. -/
theorem line_unique {r s : List Char}
    (h : d.described.stub.line.toList ++ r = e.described.stub.line.toList ++ s) :
    d.signature = e.signature ∧ r = s := by
  have hd' := built_argumentTypes hd had
  have he' := built_argumentTypes he hae
  rw [StubFunction.toList_line, StubFunction.toList_line, stub_arguments, stub_arguments] at h
  obtain ⟨hname, h₁⟩ := LexicalName.unique (.inl rfl) hd.name he.name (ends_cons (by decide))
    (ends_cons (by decide)) (List.append_cancel_left h)
  simp only [List.cons.injEq, true_and] at h₁
  obtain ⟨harguments, h₂⟩ := TypeExpr.parts_unique hd' he'
    (fun t ht u hu => TypeExpr.chars_unique t u (hd' t ht) (he' u hu)) h₁
  simp only [List.cons.injEq, true_and] at h₂
  obtain ⟨hresult, h₃⟩ := TypeExpr.chars_unique _ _ (built_result hd had) (built_result he hae) _ _
    (atLineEnd_cons r).behind (atLineEnd_cons s).behind h₂
  exact ⟨signature_eq_of_bare had hae hname harguments hresult, (List.cons.inj h₃).2⟩

end

end FunctionDef

/-! ## Lines for type definitions -/

/-- The parameters of a type definition in its line. -/
def StubType.varsText (t : StubType) : String :=
  if t.vars.isEmpty then "" else parenthesised t.vars

theorem StubType.toList_line (t : StubType) (r : List Char) :
    t.line.toList ++ r = "  type ".toList ++ (t.name.toList ++ (t.varsText.toList ++
      ' ' :: '=' :: ' ' :: (t.body.toList ++ '\n' :: r))) := by
  rw [line, ← varsText]
  simp only [String.toList_append, List.append_assoc]
  rfl

namespace TypeDef

theorem varsText_of_nil {d : TypeDef} (h : d.vars = []) (r : List Char) :
    d.described.stub.varsText.toList ++ r = r := by
  simp [StubType.varsText, DescribedType.stub, described, h]

theorem varsText_of_ne_nil {d : TypeDef} (h : d.vars ≠ []) (r : List Char) :
    d.described.stub.varsText.toList ++ r =
      '(' :: ([',', ' '].intercalate (d.vars.map fun v => v.text.toList) ++ ')' :: r) := by
  have hmap : (d.vars.map Name.text).map String.toList = d.vars.map fun v => v.text.toList :=
    List.map_map
  rw [StubType.varsText, if_neg (by simpa [DescribedType.stub, described] using h), parenthesised]
  simp only [DescribedType.stub, described, String.toList_append, String.toList_intercalate, hmap,
    List.append_assoc]
  rfl

variable {d e : TypeDef} (hd : d.Built LexicalName) (he : e.Built LexicalName)

include hd he

/-- The parameters are told apart in front of the equals sign. -/
theorem vars_unique {r s : List Char} (h : d.described.stub.varsText.toList ++ ' ' :: r =
    e.described.stub.varsText.toList ++ ' ' :: s) :
    d.vars.map Name.text = e.vars.map Name.text ∧ r = s := by
  by_cases hdv : d.vars = []
  · rw [varsText_of_nil hdv] at h
    by_cases hev : e.vars = []
    · rw [varsText_of_nil hev] at h
      exact ⟨by rw [hdv, hev], (List.cons.inj h).2⟩
    · rw [varsText_of_ne_nil hev] at h
      cases h
  · rw [varsText_of_ne_nil hdv] at h
    by_cases hev : e.vars = []
    · rw [varsText_of_nil hev] at h
      cases h
    · rw [varsText_of_ne_nil hev, List.cons.injEq] at h
      obtain ⟨hvars, hrest⟩ := intercalate_unique Ends (fun _ => ends_cons (by decide)) d.vars
        e.vars (fun v hv w hw r s => LexicalName.unique (.inr (.inr rfl)) (hd.vars v hv)
          (he.vars w hw)) hdv hev (ends_cons (by decide)) (ends_cons (by decide)) (by simp)
        (by simp) h.2
      simp only [List.cons.injEq, true_and] at hrest
      exact ⟨hvars, hrest⟩

/-- **The line for a type definition determines it**, whatever follows. -/
theorem line_unique {r s : List Char}
    (h : d.described.stub.line.toList ++ r = e.described.stub.line.toList ++ s) :
    d.surface = e.surface ∧ r = s := by
  rw [StubType.toList_line, StubType.toList_line] at h
  have hends (d : TypeDef) (r : List Char) :
      Ends (d.described.stub.varsText.toList ++ ' ' :: r) := by
    by_cases hvars : d.vars = []
    · rw [varsText_of_nil hvars]
      exact ends_cons (by decide)
    · rw [varsText_of_ne_nil hvars]
      exact ends_cons (by decide)
  obtain ⟨hname, h₁⟩ := LexicalName.unique (.inl rfl) hd.name he.name (hends d _) (hends e _)
    (List.append_cancel_left h)
  obtain ⟨hvars, h₂⟩ := vars_unique hd he h₁
  simp only [List.cons.injEq, true_and] at h₂
  obtain ⟨hbody, h₃⟩ := TypeExpr.body_unique hd.body he.body (atLineEnd_cons r) (atLineEnd_cons s) h₂
  exact ⟨by rw [surface, surface, hname, hvars, hbody], (List.cons.inj h₃).2⟩

end TypeDef

/-! ## Texts of stubs -/

/-- Lines in front of something at which no line starts. -/
theorem flatMap_unique {α β : Type} {line : α → List Char} {g : α → β} {as bs : List α}
    (item : ∀ a ∈ as, ∀ b ∈ bs, ∀ r s, line a ++ r = line b ++ s → g a = g b ∧ r = s)
    {r s : List Char} (hr : ∀ b ∈ bs, ∀ x, r ≠ line b ++ x) (hs : ∀ a ∈ as, ∀ x, s ≠ line a ++ x)
    (h : as.flatMap line ++ r = bs.flatMap line ++ s) : as.map g = bs.map g ∧ r = s := by
  induction as generalizing bs with
  | nil =>
    cases bs with
    | nil => exact ⟨rfl, h⟩
    | cons b bs =>
      rw [List.flatMap_cons, List.append_assoc] at h
      exact absurd h (hr b (by simp) _)
  | cons a as ih =>
    rw [List.flatMap_cons, List.append_assoc] at h
    cases bs with
    | nil => exact absurd h.symm (hs a (by simp) _)
    | cons b bs =>
      rw [List.flatMap_cons, List.append_assoc] at h
      obtain ⟨hab, hrest⟩ := item a (by simp) b (by simp) _ _ h
      obtain ⟨hmap, hrs⟩ := ih
        (fun x hx y hy => item x (List.mem_cons_of_mem _ hx) y (List.mem_cons_of_mem _ hy))
        (fun y hy => hr y (List.mem_cons_of_mem _ hy))
        (fun x hx => hs x (List.mem_cons_of_mem _ hx)) hrest
      exact ⟨by rw [List.map_cons, List.map_cons, hab, hmap], hrs⟩

theorem Stub.toList_text (s : Stub) : s.text.toList = "contract ".toList ++ (s.name.toList ++
    ' ' :: '=' :: '\n' :: (s.types.flatMap (fun t => t.line.toList) ++
      s.functions.flatMap fun f => f.line.toList)) := by
  rw [text]
  simp only [String.toList_append, String.toList_join, List.flatMap_map, List.append_assoc]
  rfl

/-- Lines for functions do not start with one for a type definition. -/
theorem TypeDef.line_ne (fs : List FunctionDef) (d : TypeDef) (x : List Char) :
    fs.flatMap (fun f => f.described.stub.line.toList) ≠ d.described.stub.line.toList ++ x := by
  rw [StubType.toList_line]
  cases fs with
  | nil =>
    intro h
    cases h
  | cons f fs =>
    rw [List.flatMap_cons, StubFunction.toList_line]
    intro h
    cases h

theorem FunctionDef.line_ne (d : FunctionDef) (x : List Char) :
    [] ≠ d.described.stub.line.toList ++ x := by
  rw [StubFunction.toList_line]
  intro h
  cases h

namespace Contract

variable {includeTypes publicOnly : Bool}

theorem Built.shownType {c : Contract} (h : c.Built LexicalName) :
    ∀ d ∈ c.shownTypes includeTypes, d.Built LexicalName := by
  intro d hd
  cases includeTypes with
  | false => cases hd
  | true => exact h.typeDef hd

theorem Built.shownFunction {c : Contract} (h : c.Built LexicalName) :
    ∀ d ∈ c.shownFunctions publicOnly, d.Built LexicalName :=
  fun _ hd => h.function (List.mem_filter.1 hd).1

/-- The text of a stub determines the surface that it shows. -/
theorem stubSurface_unique {c₁ c₂ : Contract} (h₁ : c₁.Built LexicalName)
    (h₂ : c₂.Built LexicalName) (a₁ : ∀ f ∈ c₁.shownFunctions publicOnly, f.Annotated)
    (a₂ : ∀ f ∈ c₂.shownFunctions publicOnly, f.Annotated)
    (h : (c₁.stubSurface includeTypes publicOnly).stub.text =
      (c₂.stubSurface includeTypes publicOnly).stub.text) :
    c₁.stubSurface includeTypes publicOnly = c₂.stubSurface includeTypes publicOnly := by
  have hlines := congrArg String.toList h
  rw [Stub.toList_text, Stub.toList_text] at hlines
  obtain ⟨hname, hlines⟩ := LexicalName.unique (.inr (.inl rfl)) h₁.name h₂.name
    (ends_cons (by decide)) (ends_cons (by decide)) (List.append_cancel_left hlines)
  simp only [List.cons.injEq, true_and, StubSurface.stub, stubSurface, List.flatMap_map,
    FunctionDef.stub_signature, TypeDef.stub_surface] at hlines
  obtain ⟨htypes, hlines⟩ := flatMap_unique (g := TypeDef.surface)
    (fun d hd e he r s => TypeDef.line_unique (h₁.shownType d hd) (h₂.shownType e he))
    (fun d _ => TypeDef.line_ne _ d) (fun d _ => TypeDef.line_ne _ d) hlines
  obtain ⟨hfunctions, -⟩ := flatMap_unique (g := FunctionDef.signature) (r := []) (s := [])
    (fun d hd e he r s => FunctionDef.line_unique (h₁.shownFunction d hd) (h₂.shownFunction e he)
      (a₁ d hd) (a₂ e he))
    (fun d _ => d.line_ne) (fun d _ => d.line_ne) (by rw [hlines])
  rw [stubSurface, stubSurface, hname, htypes, hfunctions]

end Contract

/-- **A stub is unambiguous**: it tells the surface that it shows of the first contract, all of it
and nothing else. -/
theorem stubs_eq_iff (indent₁ indent₂ : Option Int) (publicOnly includeTypes : Bool)
    (source₁ source₂ : Source) (t₁ t₂ : String)
    (h₁ : interfaceText indent₁ publicOnly source₁ = .ok t₁)
    (h₂ : interfaceText indent₂ publicOnly source₂ = .ok t₂) :
    ∃ c₁ c₂ s₁ s₂, source₁.FirstContract c₁ ∧ source₂.FirstContract c₂ ∧
      (InterfaceText.text t₁).stub includeTypes = .ok s₁ ∧
      (InterfaceText.text t₂).stub includeTypes = .ok s₂ ∧
      (s₁.text = s₂.text ↔
        c₁.stubSurface includeTypes publicOnly = c₂.stubSurface includeTypes publicOnly) := by
  obtain ⟨u₁, c₁, cs₁, d₁, hs₁, hc₁, -, hd₁, rfl⟩ := interfaceText_eq_ok h₁
  obtain ⟨u₂, c₂, cs₂, d₂, hs₂, hc₂, -, hd₂, rfl⟩ := interfaceText_eq_ok h₂
  obtain ⟨b₁, o₁⟩ := Grammar.built_of_ofSource hc₁ c₁ (by simp)
  obtain ⟨b₂, o₂⟩ := Grammar.built_of_ofSource hc₂ c₂ (by simp)
  refine ⟨c₁, c₂, _, _, ⟨u₁, cs₁, hs₁, hc₁⟩, ⟨u₂, cs₂, hs₂, hc₂⟩, d₁.stub_text indent₁ includeTypes,
    d₂.stub_text indent₂ includeTypes, ?_⟩
  rw [← Contract.stub_stubSurface o₁ hd₁, ← Contract.stub_stubSurface o₂ hd₂]
  exact ⟨Contract.stubSurface_unique b₁ b₂ (Contract.eq_described o₁ hd₁).2
    (Contract.eq_described o₂ hd₂).2, congrArg fun s : StubSurface => s.stub.text⟩

/-- No argument, and one that is the unit. -/
theorem stubs_eq_iff_unit : ∃ c₁ c₂ s₁ s₂,
    (Source.text "contract C = function f() : int = 1").FirstContract c₁ ∧
      (Source.text "contract C = function f(x : ()) : int = 1").FirstContract c₂ ∧
      (InterfaceText.text ("\x7b\"contract\":\x7b\"name\":\"C\",\"type_defs\":[],\"functions\":[" ++
        "\x7b\"name\":\"f\",\"arguments\":[],\"type\":\"int\"\x7d]\x7d\x7d")).stub false = .ok s₁ ∧
      (InterfaceText.text ("\x7b\"contract\":\x7b\"name\":\"C\",\"type_defs\":[],\"functions\":[" ++
        "\x7b\"name\":\"f\",\"arguments\":[\x7b\"name\":\"x\",\"type\":\"()\"\x7d]," ++
        "\"type\":\"int\"\x7d]\x7d\x7d")).stub false = .ok s₂ ∧
      (s₁.text = s₂.text ↔ c₁.stubSurface false false = c₂.stubSurface false false) :=
  stubs_eq_iff none none false false _ _ _ _ (by cbv) (by cbv)

end ContractInterface
