import Mathlib
import ContractInterface.Proofs.Description
import ContractInterface.Proofs.Rendering

/-!
# What interface texts tell

The surface of a contract is what its interface is about: the name, the type definitions and the
signatures of the functions that are described, without positions.  Bodies and modifiers of functions
are no part of it.  Two interface texts are equal exactly if the surfaces are:

    interfaceText indent publicOnly source₁ = .ok t₁ →
    interfaceText indent publicOnly source₂ = .ok t₂ →
      (t₁ = t₂ ↔ c₁.surface publicOnly = c₂.surface publicOnly)          (interfaceText_eq_iff)

Here `c₁` and `c₂` are the first contracts of the sources.
-/

namespace ContractInterface

structure TypeSurface where
  name : String
  vars : List String
  body : TypeExpr

structure ParamSurface where
  label : TypeExpr
  type : Option TypeExpr

structure FunctionSurface where
  name : String
  params : List ParamSurface
  result : Option TypeExpr

structure Surface where
  name : String
  typeDefs : List TypeSurface
  functions : List FunctionSurface

def TypeDef.surface (d : TypeDef) : TypeSurface :=
  ⟨d.name.text, d.vars.map Name.text, d.body.bare⟩

def Param.surface (p : Param) : ParamSurface := ⟨p.label.bare, p.type.map TypeExpr.bare⟩

def FunctionDef.surface (d : FunctionDef) : FunctionSurface :=
  ⟨d.name.text, d.params.map Param.surface, d.result.map TypeExpr.bare⟩

/-- The declarations stand as they were written; private functions may be left out. -/
def Contract.surface (publicOnly : Bool) (c : Contract) : Surface :=
  ⟨c.name.text, c.typeDefs.map TypeDef.surface,
    (c.functions.filter fun d => !(publicOnly && d.isPrivate)).map FunctionDef.surface⟩

/-- The first contract that a source has. -/
def Source.FirstContract (source : Source) (c : Contract) : Prop :=
  ∃ s cs, source.decode = .ok s ∧ Contract.ofSource s = .ok (c :: cs)

/-! ## Texts without positions -/

namespace TypeExpr

mutual

/-- Positions are no part of a text. -/
theorem text_bare (t : TypeExpr) : t.bare.text = t.text := by
  match t with
  | .var n => rfl
  | .named n => rfl
  | .contract n => rfl
  | .app head args => rw [bare, text, text, text_bare head, texts_bares args]
  | .tuple parts => rw [bare, text, text, texts_bares parts]
  | .record fields => rw [bare, text, text, texts_bares fields]
  | .field label type pos => rw [bare, text, text, text_bare label, text_bare type]
  | .variant constructors => rw [bare, text, text, texts_bares constructors]
  | .constr tag args pos => rw [bare, text, text, text_bare tag, texts_bares args]
  | .synonym type => rw [bare, text, text, text_bare type]
  | .foreign kind parts shown => rfl

theorem texts_bares (ts : List TypeExpr) : texts (bares ts) = texts ts := by
  match ts with
  | [] => rfl
  | t :: ts => rw [bares, texts, texts, text_bare t, texts_bares ts]

end

variable {t u : TypeExpr}

theorem text_eq_of_bare (h : t.bare = u.bare) : t.text = u.text := by
  rw [← text_bare t, h, text_bare]

theorem text_eq_iff (ht : t.Built LexicalName) (hu : u.Built LexicalName) :
    t.text = u.text ↔ t.bare = u.bare := by
  refine ⟨fun h => ?_, text_eq_of_bare⟩
  have happend : t.chars ++ [] = u.chars ++ [] := by rw [chars, chars, h]
  exact (chars_unique t u ht hu [] [] behind_nil behind_nil happend).1

theorem text_eq_iff_of_body (ht : t.BuiltBody LexicalName) (hu : u.BuiltBody LexicalName) :
    t.text = u.text ↔ t.bare = u.bare := by
  refine ⟨fun h => ?_, text_eq_of_bare⟩
  have happend : t.chars ++ [] = u.chars ++ [] := by rw [chars, chars, h]
  exact (body_unique ht hu atLineEnd_nil atLineEnd_nil happend).1

theorem render_eq_ok {s : String} (h : t.render = .ok s) : s = t.text := by
  unfold render at h
  split at h <;> cases h
  rfl

end TypeExpr

theorem renderAscription_eq_ok {type : Option TypeExpr} {s : String}
    (h : renderAscription type = .ok s) : ∃ t, type = some t ∧ s = t.text := by
  cases type with
  | none => cases h
  | some t => exact ⟨t, rfl, TypeExpr.render_eq_ok h⟩

/-! ## Declarations -/

/-- The description of a type definition, if it has one. -/
def TypeDef.described (d : TypeDef) : DescribedType :=
  ⟨d.name.text, d.vars.map Name.text, d.body.text⟩

/-- The text of an annotation, if it is not missing. -/
def ascriptionText (type : Option TypeExpr) : String := (type.getD .absent).text

def Param.described (p : Param) : DescribedArgument := ⟨p.label.text, ascriptionText p.type⟩

def FunctionDef.described (d : FunctionDef) : DescribedFunction :=
  ⟨d.name.text, d.params.map Param.described, ascriptionText d.result⟩

/-- No annotation is missing. -/
def FunctionDef.Annotated (d : FunctionDef) : Prop :=
  (∀ p ∈ d.params, p.type.isSome) ∧ d.result.isSome

theorem TypeDef.eq_described {d : TypeDef} {t : DescribedType} (h : d.describe = .ok t) :
    t = d.described := by
  obtain ⟨b, hb, rfl⟩ := TypeDef.describe_eq_ok h
  rw [described, TypeExpr.render_eq_ok hb]

theorem Param.eq_described {p : Param} {a : DescribedArgument} (h : p.describe = .ok a) :
    a = p.described ∧ p.type.isSome := by
  obtain ⟨hl, hr⟩ := Param.describe_eq_ok h
  obtain ⟨t, ht, htext⟩ := renderAscription_eq_ok hr
  obtain ⟨n, u⟩ := a
  rw [described, ascriptionText, ht, DescribedArgument.mk.injEq]
  exact ⟨⟨TypeExpr.render_eq_ok hl, htext⟩, rfl⟩

theorem FunctionDef.eq_described {d : FunctionDef} {f : DescribedFunction}
    (h : d.describe = .ok f) : f = d.described ∧ d.Annotated := by
  obtain ⟨hname, ha, hr⟩ := FunctionDef.describe_eq_ok h
  have has := eq_map_of_mapM (fun p a hp => (Param.eq_described hp).1) ha
  obtain ⟨t, ht, htext⟩ := renderAscription_eq_ok hr
  obtain ⟨n, as, r⟩ := f
  constructor
  · rw [described, ascriptionText, ht, DescribedFunction.mk.injEq]
    exact ⟨hname, has, htext⟩
  · refine ⟨fun p hp => ?_, by rw [ht]; rfl⟩
    obtain ⟨a, hpa⟩ := exists_of_mapM ha p hp
    exact (Param.eq_described hpa).2

theorem TypeDef.described_eq_iff {d e : TypeDef} (hd : d.Built LexicalName)
    (he : e.Built LexicalName) : d.described = e.described ↔ d.surface = e.surface := by
  rw [described, described, surface, surface, DescribedType.mk.injEq, TypeSurface.mk.injEq,
    TypeExpr.text_eq_iff_of_body hd.body he.body]

theorem ascriptionText_eq_iff {a b : Option TypeExpr} (ha : ∀ t, a = some t → t.Built LexicalName)
    (hb : ∀ t, b = some t → t.Built LexicalName) (ha' : a.isSome) (hb' : b.isSome) :
    ascriptionText a = ascriptionText b ↔ a.map TypeExpr.bare = b.map TypeExpr.bare := by
  obtain ⟨t, rfl⟩ := Option.isSome_iff_exists.1 ha'
  obtain ⟨u, rfl⟩ := Option.isSome_iff_exists.1 hb'
  rw [ascriptionText, ascriptionText, Option.map_some, Option.map_some, Option.some.injEq]
  exact TypeExpr.text_eq_iff (ha t rfl) (hb u rfl)

theorem Param.described_eq_iff {p q : Param} (hp : p.Built LexicalName) (hq : q.Built LexicalName)
    (hp' : p.type.isSome) (hq' : q.type.isSome) :
    p.described = q.described ↔ p.surface = q.surface := by
  obtain ⟨⟨m, hm, -, hm'⟩, htype⟩ := hp
  obtain ⟨⟨n, hn, -, hn'⟩, htype'⟩ := hq
  have hlabel : p.label.text = q.label.text ↔ p.label.bare = q.label.bare := by
    rw [hm, hn]
    exact TypeExpr.text_eq_iff hm' hn'
  rw [described, described, surface, surface, DescribedArgument.mk.injEq, ParamSurface.mk.injEq,
    hlabel, ascriptionText_eq_iff htype htype' hp' hq']

theorem FunctionDef.described_eq_iff {d e : FunctionDef} (hd : d.Built LexicalName)
    (he : e.Built LexicalName) (hd' : d.Annotated) (he' : e.Annotated) :
    d.described = e.described ↔ d.surface = e.surface := by
  have hparams : d.params.map Param.described = e.params.map Param.described ↔
      d.params.map Param.surface = e.params.map Param.surface :=
    map_eq_map_iff fun p hp q hq => Param.described_eq_iff (hd.params p hp) (he.params q hq)
      (hd'.1 p hp) (he'.1 q hq)
  rw [described, described, surface, surface, DescribedFunction.mk.injEq, FunctionSurface.mk.injEq,
    hparams, ascriptionText_eq_iff hd.result he.result hd'.2 he'.2]

/-! ## Contracts -/

/-- The functions that are described are annotated. -/
theorem Contract.eq_described {c : Contract} (hc : c.InOrder) {publicOnly : Bool}
    {d : Description} (h : c.describe publicOnly = .ok d) :
    d = ⟨c.name.text, c.typeDefs.map TypeDef.described,
        (c.functions.filter fun d => !(publicOnly && d.isPrivate)).map FunctionDef.described⟩ ∧
      ∀ f ∈ c.functions.filter fun d => !(publicOnly && d.isPrivate), f.Annotated := by
  obtain ⟨hname, ht, hf⟩ := Contract.describe_eq_ok h
  rw [hc.orderedTypeDefs] at ht
  rw [Contract.describedFunctions, hc.orderedFunctions] at hf
  have hts := eq_map_of_mapM (fun _ _ => TypeDef.eq_described) ht
  have hfs := eq_map_of_mapM (fun f g hg => (FunctionDef.eq_described hg).1) hf
  obtain ⟨n, ts, fs⟩ := d
  refine ⟨by rw [Description.mk.injEq]; exact ⟨hname, hts, hfs⟩, fun f hmem => ?_⟩
  obtain ⟨g, hg⟩ := exists_of_mapM hf f hmem
  exact (FunctionDef.eq_described hg).2

/-- Descriptions tell contracts apart exactly where the surfaces do. -/
theorem Contract.describe_eq_iff {c₁ c₂ : Contract} (h₁ : c₁.Built LexicalName)
    (h₂ : c₂.Built LexicalName) (o₁ : c₁.InOrder) (o₂ : c₂.InOrder) {publicOnly : Bool}
    {d₁ d₂ : Description} (hd₁ : c₁.describe publicOnly = .ok d₁)
    (hd₂ : c₂.describe publicOnly = .ok d₂) :
    d₁ = d₂ ↔ c₁.surface publicOnly = c₂.surface publicOnly := by
  obtain ⟨rfl, a₁⟩ := Contract.eq_described o₁ hd₁
  obtain ⟨rfl, a₂⟩ := Contract.eq_described o₂ hd₂
  have htypes := map_eq_map_iff (f := TypeDef.described) (g := TypeDef.surface)
    fun d hd e he => TypeDef.described_eq_iff (h₁.typeDef hd) (h₂.typeDef he)
  have hfunctions := map_eq_map_iff (f := FunctionDef.described) (g := FunctionDef.surface)
    fun d hd e he => FunctionDef.described_eq_iff (h₁.function (List.mem_filter.1 hd).1)
      (h₂.function (List.mem_filter.1 he).1) (a₁ d hd) (a₂ e he)
  rw [Contract.surface, Contract.surface, Description.mk.injEq, Surface.mk.injEq, htypes,
    hfunctions]

/-- **An interface text tells the surface of the first contract**, all of it and nothing else. -/
theorem interfaceText_eq_iff (indent : Option Int) (publicOnly : Bool) (source₁ source₂ : Source)
    (t₁ t₂ : String) (h₁ : interfaceText indent publicOnly source₁ = .ok t₁)
    (h₂ : interfaceText indent publicOnly source₂ = .ok t₂) :
    ∃ c₁ c₂, source₁.FirstContract c₁ ∧ source₂.FirstContract c₂ ∧
      (t₁ = t₂ ↔ c₁.surface publicOnly = c₂.surface publicOnly) := by
  obtain ⟨s₁, c₁, cs₁, d₁, hs₁, hc₁, -, hd₁, rfl⟩ := interfaceText_eq_ok h₁
  obtain ⟨s₂, c₂, cs₂, d₂, hs₂, hc₂, -, hd₂, rfl⟩ := interfaceText_eq_ok h₂
  obtain ⟨b₁, o₁⟩ := Grammar.built_of_ofSource hc₁ c₁ (by simp)
  obtain ⟨b₂, o₂⟩ := Grammar.built_of_ofSource hc₂ c₂ (by simp)
  refine ⟨c₁, c₂, ⟨s₁, cs₁, hs₁, hc₁⟩, ⟨s₂, cs₂, hs₂, hc₂⟩, ?_⟩
  rw [← Contract.describe_eq_iff b₁ b₂ o₁ o₂ hd₁ hd₂]
  exact ⟨Description.text_injective, congrArg (Description.text · indent)⟩

theorem interfaceText_eq_iff_body : ∃ c₁ c₂,
    (Source.text "contract C =\n  function f(x : int) : int = x").FirstContract c₁ ∧
      (Source.text "contract C = // f\n function f(x:int):int=x+1").FirstContract c₂ ∧
      ("\x7b\"contract\":\x7b\"name\":\"C\",\"type_defs\":[],\"functions\":[\x7b\"name\":\"f\"," ++
        "\"arguments\":[\x7b\"name\":\"x\",\"type\":\"int\"\x7d],\"type\":\"int\"\x7d]\x7d\x7d" =
      "\x7b\"contract\":\x7b\"name\":\"C\",\"type_defs\":[],\"functions\":[\x7b\"name\":\"f\"," ++
        "\"arguments\":[\x7b\"name\":\"x\",\"type\":\"int\"\x7d],\"type\":\"int\"\x7d]\x7d\x7d" ↔
        c₁.surface false = c₂.surface false) :=
  interfaceText_eq_iff none false _ _ _ _ (by cbv) (by cbv)

end ContractInterface
