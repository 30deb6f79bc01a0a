import Mathlib
import ContractInterface.Proofs.Description

/-!
# Stubs of interface texts

A stub can be told from the source alone (`Contract.stubText`), and every interface text has one:
what the text says of a contract is read back as it was written, whatever the indent.

    interfaceText indent publicOnly source = .ok t →
      (InterfaceText.text t).stub includeTypes = .ok stub ∧
        c.stubText includeTypes publicOnly = .ok stub.text           (stub_of_interfaceText)

Here `c` is the first contract of the source.
-/

namespace ContractInterface

/-! ## The stub of a contract -/

/-- The line for a type definition. -/
def TypeDef.stubLine (d : TypeDef) : Except String String := do
  let body ← d.body.render
  let vars := if d.vars = [] then "" else "(" ++ ", ".intercalate (d.vars.map Name.text) ++ ")"
  return "  type " ++ d.name.text ++ vars ++ " = " ++ body ++ "\n"

/-- The line for a function. -/
def FunctionDef.stubLine (d : FunctionDef) : Except String String := do
  let arguments ← d.params.mapM fun p => renderAscription p.type
  let result ← renderAscription d.result
  return "  function " ++ d.name.text ++ " : " ++ ("(" ++ ", ".intercalate arguments ++ ")") ++
    " => " ++ result ++ "\n"

/-- The calling stub of a contract, its declarations in the order in which they were written. -/
def Contract.stubText (includeTypes publicOnly : Bool) (c : Contract) : Except String String := do
  let types ← if includeTypes then c.typeDefs.mapM TypeDef.stubLine else .ok []
  let functions ← (c.functions.filter fun d => !(publicOnly && d.isPrivate)).mapM
    FunctionDef.stubLine
  return "contract " ++ c.name.text ++ " =\n" ++ String.join types ++ String.join functions

/-! ## From descriptions -/

open Json

def DescribedType.stub (d : DescribedType) : StubType := ⟨d.name, d.vars, d.body⟩

def DescribedFunction.stub (f : DescribedFunction) : StubFunction :=
  ⟨f.name, f.arguments.map DescribedArgument.type, f.result⟩

def Description.stub (includeTypes : Bool) (d : Description) : Stub :=
  ⟨d.name, if includeTypes then d.typeDefs.map DescribedType.stub else [],
    d.functions.map DescribedFunction.stub⟩

namespace Stub

variable {es : List (String × Value)} {key : String} {path : Path}

theorem require_keyed {v : Value} (h : es.lookup key = some v) :
    require (.keyed es) key path = .ok v := by
  simp only [require, h]

theorem requireText_keyed {s : String} (h : es.lookup key = some (.text s)) :
    requireText (.keyed es) key path = .ok s := by
  simp only [requireText, require_keyed h]

theorem requireList_keyed {vs : List Value} (h : es.lookup key = some (.list vs)) :
    requireList (.keyed es) key path = .ok vs := by
  simp only [requireList, require_keyed h]

end Stub

theorem Stub.eachAt_map {α β : Type} {read : Value → Path → Except Malformed β} {f : α → Value}
    {g : α → β} (h : ∀ a path, read (f a) path = .ok (g a)) (as : List α) (path : Path) (i : Nat) :
    Stub.eachAt read path i (as.map f) = .ok (as.map g) := by
  induction as generalizing i with
  | nil => rfl
  | cons a as ih =>
    rw [List.map_cons, Stub.eachAt, h, ih]
    rfl

theorem DescribedType.readType_reread (d : DescribedType) (path : Path) :
    Stub.readType d.toValue.reread path = .ok d.stub := by
  have hvars (path : Path) : Stub.eachAt (fun a p => Stub.requireText a "name" p) path 0
      (d.vars.map fun v => Value.keyed [("name", .text v)]) = .ok (d.vars.map id) :=
    Stub.eachAt_map (fun v path => rfl) d.vars path 0
  rw [d.reread_toValue]
  unfold Stub.readType
  rw [Stub.requireText_keyed rfl, Stub.requireList_keyed rfl, Stub.requireText_keyed rfl]
  simp only [bind, Except.bind]
  rw [hvars, List.map_id]
  rfl

theorem DescribedFunction.readFunction_reread (f : DescribedFunction) (path : Path) :
    Stub.readFunction f.toValue.reread path = .ok f.stub := by
  have hargs (path : Path) : Stub.eachAt (fun a p => Stub.requireText a "type" p) path 0
      (f.arguments.map fun a => a.toValue.reread) = .ok (f.arguments.map DescribedArgument.type) :=
    Stub.eachAt_map (fun a path => by rw [a.reread_toValue]; rfl) f.arguments path 0
  rw [f.reread_toValue]
  unfold Stub.readFunction
  rw [Stub.requireText_keyed rfl, Stub.requireList_keyed rfl, Stub.requireText_keyed rfl]
  simp only [bind, Except.bind]
  rw [hargs]
  rfl

/-- The value of a description is one that a stub can be told from. -/
theorem Description.ofValue_reread (includeTypes : Bool) (d : Description) :
    Stub.ofValue includeTypes d.toValue.reread = .ok (d.stub includeTypes) := by
  have htypes := Stub.eachAt_map DescribedType.readType_reread d.typeDefs
  have hfunctions := Stub.eachAt_map DescribedFunction.readFunction_reread d.functions
  rw [d.reread_toValue]
  unfold Stub.ofValue
  rw [Stub.require_keyed rfl]
  simp only [bind, Except.bind]
  unfold Stub.ofContract
  dsimp only
  rw [Stub.requireText_keyed rfl, Stub.requireList_keyed rfl, Stub.requireList_keyed rfl]
  simp only [bind, Except.bind, htypes, hfunctions]
  cases includeTypes <;> rfl

/-- Every text of a description has its stub. -/
theorem Description.stub_text (d : Description) (indent : Option Int) (includeTypes : Bool) :
    (InterfaceText.text (d.text indent)).stub includeTypes = .ok (d.stub includeTypes) := by
  rw [InterfaceText.stub, InterfaceText.stubKeeping, d.loadKeeping_text]
  simp only
  rw [d.ofValue_reread]

/-! ## From sources -/

theorem TypeDef.stubLine_of_describe {d : TypeDef} {t : DescribedType} (h : d.describe = .ok t) :
    d.stubLine = .ok t.stub.line := by
  obtain ⟨b, hb, rfl⟩ := TypeDef.describe_eq_ok h
  rw [TypeDef.stubLine, hb]
  by_cases hv : d.vars = []
  · simp [hv, DescribedType.stub, StubType.line, bind, Except.bind, Pure.pure, Except.pure]
  · simp [hv, DescribedType.stub, StubType.line, parenthesised, bind, Except.bind, Pure.pure,
      Except.pure]

theorem FunctionDef.stubLine_of_describe {d : FunctionDef} {f : DescribedFunction}
    (h : d.describe = .ok f) : d.stubLine = .ok f.stub.line := by
  obtain ⟨hname, ha, hr⟩ := FunctionDef.describe_eq_ok h
  have hargs := mapM_eq_ok_map (fun _ _ hp => (Param.describe_eq_ok hp).2) ha
  rw [FunctionDef.stubLine, hargs, hr, ← hname]
  rfl

/-- The stub of a description is that of the contract. -/
theorem Contract.stubText_of_describe {c : Contract} (hc : c.InOrder) {publicOnly : Bool}
    {d : Description} (h : c.describe publicOnly = .ok d) (includeTypes : Bool) :
    c.stubText includeTypes publicOnly = .ok (d.stub includeTypes).text := by
  obtain ⟨hname, ht, hf⟩ := Contract.describe_eq_ok h
  rw [hc.orderedTypeDefs] at ht
  rw [Contract.describedFunctions, hc.orderedFunctions] at hf
  unfold Contract.stubText
  rw [mapM_eq_ok_map (k := fun t => t.stub.line) (fun _ _ => TypeDef.stubLine_of_describe) ht,
    mapM_eq_ok_map (k := fun f => f.stub.line) (fun _ _ => FunctionDef.stubLine_of_describe) hf,
    ← hname]
  cases includeTypes <;>
    simp [Description.stub, Stub.text, bind, Except.bind, Pure.pure, Except.pure,
      Function.comp_def]

/-- **Signatures survive the round trip.**  The stub of an interface text is that of the first
contract of the source. -/
theorem stub_of_interfaceText (indent : Option Int) (publicOnly includeTypes : Bool)
    (source : Source) (t : String) (h : interfaceText indent publicOnly source = .ok t) :
    ∃ s c cs stub, source.decode = .ok s ∧ Contract.ofSource s = .ok (c :: cs) ∧
      (InterfaceText.text t).stub includeTypes = .ok stub ∧
      c.stubText includeTypes publicOnly = .ok stub.text := by
  obtain ⟨s, c, cs, d, hs, hc, -, hd, rfl⟩ := interfaceText_eq_ok h
  have horder := (Grammar.built_of_ofSource hc c (by simp)).2
  exact ⟨s, c, cs, d.stub includeTypes, hs, hc, d.stub_text indent includeTypes,
    Contract.stubText_of_describe horder hd includeTypes⟩

theorem stub_of_interfaceText_alias : ∃ s c cs stub,
    (Source.text "contract C =\n  type t = int\n  function f(x : t) : () = x").decode = .ok s ∧
      Contract.ofSource s = .ok (c :: cs) ∧
      (InterfaceText.text ("\x7b\"contract\":\x7b\"name\":\"C\",\"type_defs\":[\x7b\"name\":\"t\"," ++
        "\"vars\":[],\"typedef\":\"int\"\x7d],\"functions\":[\x7b\"name\":\"f\",\"arguments\":" ++
        "[\x7b\"name\":\"x\",\"type\":\"t\"\x7d],\"type\":\"()\"\x7d]\x7d\x7d")).stub true = .ok stub ∧
      c.stubText true false = .ok stub.text :=
  stub_of_interfaceText none false true _ _ (by cbv)

end ContractInterface
