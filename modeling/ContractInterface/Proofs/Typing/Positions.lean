import Mathlib
import ContractInterface.Proofs.Typing.Infer

/-!
# Issues point at names

Every problem is about one name, its `subject`, and a name of that sort is written as one kind of
token.  In a unit built from names in tokens the issue of a violated rule stands where its subject
was written (`Issue.PointsAt`): one lemma for mentions, which descends into types, and one for each
sort of declaration.  So the issues of a source point at its tokens:

    ofSource source = .ok unit → infer unit = .error e →
      ∃ issues ts, e = .illTyped issues ∧ issues ≠ [] ∧ Ascending Issue.pos issues ∧
        scan source = .ok ts ∧ ∀ i ∈ issues, (∃ site, Violates unit site i) ∧
          (∃ t ∈ ts, t.kind = i.problem.subjectKind ∧ t.value = i.problem.subject ∧
            t.pos = i.pos) ∧ i.pos ≠ .unknown                            (issues_point_at_names)
-/

namespace ContractInterface

/-! ## Subjects -/

def Place.name : Place → String
  | definition name | function name => name

namespace Problem

/-- The name that the problem is about. -/
def subject : Problem → String
  | duplicateType name _ | shadowsBuiltin name | repeatedVar name _ | repeatedField name _
  | repeatedConstructor name _ | repeatedArgument name _ | duplicateFunction name _
  | unannotatedArgument name _ | unboundVar name _ | unknownContract name _ | unknownType name _
  | arity name _ _ _ => name
  | unannotatedResult place => place.name

/-- The kind of token that the subject is written as. -/
def subjectKind : Problem → TokenKind
  | repeatedVar .. | unboundVar .. => .tvar
  | repeatedConstructor .. | unknownContract .. => .con
  | _ => .identifier

end Problem

variable {P : TokenKind → Name → Prop}

variable (P) in
/-- The issue stands where its subject was written. -/
def Issue.PointsAt (issue : Issue) : Prop :=
  ∃ n : Name, P issue.problem.subjectKind n ∧ n.text = issue.problem.subject ∧
    issue.pos = n.pos.getD .unknown

/-! ## Mentions -/

variable (P) in
/-- The name was written as the kind of token that such a mention consists of. -/
def Mention.Written : Mention → Prop
  | var n => P .tvar n
  | type n _ => P .identifier n
  | contract n => P .con n

namespace TypeExpr

theorem Built.child {t u : TypeExpr} (h : t.Built P) (hu : u ∈ t.children) : u.Built P := by
  cases t with
  | app head args =>
    obtain ⟨n, -, -, -, hargs⟩ := built_app h
    exact hargs u hu
  | tuple parts => exact builtAll_iff.1 h.2 u hu
  | var _ | named _ | contract _ => cases hu
  | _ => exact h.elim

theorem Built.written {t : TypeExpr} (h : t.Built P) {path : List Nat} {m : Mention}
    (hm : t.Mentions path m) : m.Written P := by
  induction hm with
  | inside hu _ ih => exact ih (h.child (List.mem_of_getElem? hu))
  | @here t m hm =>
    cases t with
    | var n | named n | contract n =>
      cases hm
      exact h
    | app head args =>
      obtain ⟨n, rfl, hn, -⟩ := built_app h
      cases hm
      exact hn
    | _ => cases hm

/-- A member of a body mentions what its own types mention. -/
theorem written_of_children {t : TypeExpr} (hnone : t.mention? = none)
    (h : ∀ u ∈ t.children, ∀ path m, u.Mentions path m → m.Written P) {path : List Nat}
    {m : Mention} (hm : t.Mentions path m) : m.Written P := by
  cases hm with
  | here hm => cases hnone.symm.trans hm
  | inside hu hm => exact h _ (List.mem_of_getElem? hu) _ _ hm

theorem BuiltBody.written {t : TypeExpr} (h : t.BuiltBody P) {path : List Nat} {m : Mention}
    (hm : t.Mentions path m) : m.Written P := by
  cases t with
  | synonym type =>
    refine written_of_children rfl (fun u hu path m hm => ?_) hm
    rw [List.mem_singleton.1 hu] at hm
    exact Built.written (t := type) h hm
  | record fields =>
    refine written_of_children rfl (fun t ht path m hm => ?_) hm
    obtain ⟨n, type, rfl, -, htype⟩ := h.2 t ht
    refine written_of_children rfl (fun u hu path m hm => ?_) hm
    rw [List.mem_singleton.1 hu] at hm
    exact htype.written hm
  | variant constructors =>
    refine written_of_children rfl (fun t ht path m hm => ?_) hm
    obtain ⟨n, args, rfl, -, hargs⟩ := h.2 t ht
    refine written_of_children rfl (fun u hu path m hm => ?_) hm
    exact (builtAll_iff.1 hargs u hu).written hm
  | _ => exact h.elim

variable {unit : List Contract} {c : Contract} {bound : Option (List Name)} {place : Place}

theorem Violates.pointsAt {t : TypeExpr} (h : ∀ path m, t.Mentions path m → m.Written P)
    {path : List Nat} {issue : Issue} (hv : t.Violates unit c bound place path issue) :
    issue.PointsAt P := by
  obtain ⟨m, hm, hv⟩ := hv
  have hw := h path m hm
  cases hv <;> exact ⟨_, hw, rfl, rfl⟩

/-- The names of fields are identifiers. -/
theorem BuiltBody.field_name {fields : List TypeExpr} (h : (record fields).BuiltBody P) {n : Name}
    (hn : n ∈ (record fields).memberNames) : P .identifier n := by
  obtain ⟨t, ht, e⟩ := List.mem_filterMap.1 hn
  obtain ⟨m, type, rfl, hm, -⟩ := h.2 t ht
  cases e
  exact hm

theorem BuiltBody.constructor_name {constructors : List TypeExpr}
    (h : (variant constructors).BuiltBody P) {n : Name}
    (hn : n ∈ (variant constructors).memberNames) : P .con n := by
  obtain ⟨t, ht, e⟩ := List.mem_filterMap.1 hn
  obtain ⟨m, args, rfl, hm, -⟩ := h.2 t ht
  cases e
  exact hm

end TypeExpr

/-! ## Declarations -/

variable {unit : List Contract} {c : Contract} {issue : Issue}

theorem RepeatedAt.mem {ns : List Name} {i : Nat} {n : Name} (h : RepeatedAt ns i n) : n ∈ ns :=
  List.mem_of_getElem? h.1

theorem TypeDef.Violates.pointsAt {d : TypeDef} (h : d.Built P) {site : TypeDefSite}
    (hv : d.Violates unit c site issue) : issue.PointsAt P := by
  have hbody := h.body
  cases hv with
  | var hn => exact ⟨_, h.vars _ hn.mem, rfl, rfl⟩
  | field e hn =>
    rw [e] at hbody hn
    exact ⟨_, hbody.field_name hn.mem, rfl, rfl⟩
  | constructor e hn =>
    rw [e] at hbody hn
    exact ⟨_, hbody.constructor_name hn.mem, rfl, rfl⟩
  | inBody hv => exact hv.pointsAt fun _ _ => hbody.written

theorem FunctionDef.Violates.pointsAt {d : FunctionDef} (h : d.Built P) {site : FunctionSite}
    (hv : d.Violates unit c site issue) : issue.PointsAt P := by
  cases hv with
  | param hn =>
    obtain ⟨p, hp, e⟩ := List.mem_filterMap.1 hn.mem
    obtain ⟨m, hlabel, -, hm⟩ := (h.params p hp).label
    rw [hlabel] at e
    cases e
    exact ⟨_, hm, rfl, rfl⟩
  | ascription hp _ =>
    obtain ⟨m, hlabel, hpos, hm⟩ := (h.params _ (List.mem_of_getElem? hp)).label
    exact ⟨m, hm, by rw [hlabel]; rfl, by rw [hpos]⟩
  | inParam hp ht hv =>
    have htype := (h.params _ (List.mem_of_getElem? hp)).type _ ht
    exact hv.pointsAt fun _ _ => htype.written
  | result _ => exact ⟨d.name, h.name, rfl, rfl⟩
  | inResult ht hv => exact hv.pointsAt fun _ _ => (h.result _ ht).written

theorem Contract.Violates.pointsAt (h : c.Built P) {site : Site}
    (hv : c.Violates unit site issue) : issue.PointsAt P := by
  have htype {n : Name} (hn : n ∈ c.typeDefs.map TypeDef.name) : P .identifier n := by
    obtain ⟨d, hd, rfl⟩ := List.mem_map.1 hn
    exact (h.typeDef hd).name
  cases hv with
  | duplicateType hn => exact ⟨_, htype hn.mem, rfl, rfl⟩
  | shadowsBuiltin hn _ _ => exact ⟨_, htype (List.mem_of_getElem? hn), rfl, rfl⟩
  | inTypeDef hd hv => exact hv.pointsAt (h.typeDef (List.mem_of_getElem? hd))
  | duplicateFunction hn =>
    obtain ⟨d, hd, rfl⟩ := List.mem_map.1 hn.mem
    exact ⟨_, (h.function hd).name, rfl, rfl⟩
  | inFunction hd hv => exact hv.pointsAt (h.function (List.mem_of_getElem? hd))

/-! ## Sources -/

/-- The names of the unit of a source are its tokens, but for the end mark. -/
theorem Grammar.written_of_ofSource {source : String} {unit : List Contract}
    (h : Contract.ofSource source = .ok unit) : ∃ us e, Token.scan source = .ok (us ++ [e]) ∧
      Token.Scanned .start us ∧ ∀ c ∈ unit, c.Built fun k n => ∃ t ∈ us, t.kind = k ∧ t.name = n := by
  obtain ⟨Cs, e, -, rfl, hscan, hus⟩ := exists_trees_of_ofSource h
  refine ⟨_, e, hscan, hus, fun c hc => ?_⟩
  obtain ⟨C, hC, rfl⟩ := List.mem_map.1 hc
  exact C.built fun t ht => ⟨t, List.mem_flatMap.2 ⟨C, hC, ht⟩, rfl, rfl⟩

/-- **A rejected source is told where each name stands that is complained about**: the issues are
sorted, each is of a violated rule, and none lacks a position. -/
theorem issues_point_at_names (source : String) (unit : List Contract) (e : CheckError)
    (h : Contract.ofSource source = .ok unit) (he : Contract.infer unit = .error e) :
    ∃ issues ts, e = .illTyped issues ∧ issues ≠ [] ∧ Ascending Issue.pos issues ∧
      Token.scan source = .ok ts ∧ ∀ i ∈ issues, (∃ site, Violates unit site i) ∧
        (∃ t ∈ ts, t.kind = i.problem.subjectKind ∧ t.value = i.problem.subject ∧
          t.pos = i.pos) ∧ i.pos ≠ .unknown := by
  obtain ⟨us, last, hscan, hus, hbuilt⟩ := Grammar.written_of_ofSource h
  obtain ⟨issues, hissues, hinfer⟩ := infer_eq fun k hk c => (hbuilt k hk).unhindered c
  rw [he] at hinfer
  split at hinfer
  · cases hinfer
  next hne =>
  cases hinfer
  have hperm := perm_sortByPosition Issue.pos issues
  refine ⟨_, _, rfl, fun hnil => hne ?_, ascending_sortByPosition _ _, hscan, fun i hi => ?_⟩
  · rw [hnil] at hperm
    exact hperm.symm.eq_nil
  · obtain ⟨site, hv⟩ := hissues.exists_site (hperm.mem_iff.1 hi)
    have ⟨c, hc, hcontract⟩ := hv
    obtain ⟨n, ⟨t, ht, hkind, rfl⟩, hsubject, hpos⟩ :=
      hcontract.pointsAt (hbuilt c (List.mem_of_getElem? hc))
    refine ⟨⟨site, hv⟩, ⟨t, List.mem_append_left _ ht, hkind, hsubject, hpos.symm⟩, ?_⟩
    rw [hpos]
    -- the first character of a source stands behind the position that is not known
    exact fun e => absurd (hus.from_le t ht) (by rw [show t.pos = .unknown from e]; decide)

theorem issues_point_at_names_unannotated :
    ∃ unit e, Contract.ofSource "contract C =\n  function f(x) = x" = .ok unit ∧
      Contract.infer unit = .error e ∧ ∃ issues ts, e = .illTyped issues ∧ issues ≠ [] ∧
        Ascending Issue.pos issues ∧
        Token.scan "contract C =\n  function f(x) = x" = .ok ts ∧
        ∀ i ∈ issues, (∃ site, Violates unit site i) ∧
          (∃ t ∈ ts, t.kind = i.problem.subjectKind ∧ t.value = i.problem.subject ∧
            t.pos = i.pos) ∧ i.pos ≠ .unknown := by
  have h : Contract.ofSource "contract C =\n  function f(x) = x" =
      .ok [⟨⟨"C", some ⟨1, 10⟩⟩, [.function ⟨⟨"f", some ⟨2, 12⟩⟩,
        [⟨.named ⟨"x", some ⟨2, 14⟩⟩, none, some ⟨2, 14⟩⟩], none,
        [⟨.identifier, "x", ⟨2, 19⟩⟩], false, false, some ⟨2, 3⟩⟩], some ⟨1, 1⟩⟩] := by
    cbv
  have he : Contract.infer [⟨⟨"C", some ⟨1, 10⟩⟩, [.function ⟨⟨"f", some ⟨2, 12⟩⟩,
      [⟨.named ⟨"x", some ⟨2, 14⟩⟩, none, some ⟨2, 14⟩⟩], none,
      [⟨.identifier, "x", ⟨2, 19⟩⟩], false, false, some ⟨2, 3⟩⟩], some ⟨1, 1⟩⟩] =
      .error (.illTyped [⟨⟨2, 12⟩, .unannotatedResult (.function "f")⟩,
        ⟨⟨2, 14⟩, .unannotatedArgument "x" (.function "f")⟩]) := by
    rfl
  exact ⟨_, _, h, he, issues_point_at_names _ _ _ h he⟩

end ContractInterface
