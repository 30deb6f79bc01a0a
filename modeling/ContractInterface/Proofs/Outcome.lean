import ContractInterface.Proofs.Grammar.Failures
import ContractInterface.Proofs.Surface
import ContractInterface.Proofs.Text.Utf8
import ContractInterface.Proofs.Typing.Infer

/-!
# How a description ends

A source has a description, or it is refused for one of two reasons: it is no text in the contract
language, or the unit that it spells breaks a typing rule.  There is no other way to fail; what is
well typed can always be rendered.

    describe publicOnly source = .error (.source e)             ⟸⟹  the source spells no unit
    describe publicOnly source = .error (.typing (.illTyped _)) ⟸⟹  it spells an ill-typed unit
    describe publicOnly source = .ok d                          ⟸⟹  it spells a well-typed unit
-/

namespace ContractInterface

variable {P : TokenKind → Name → Prop}

/-! ## Rendering -/

namespace TypeExpr

theorem firstForeignOf_eq_none {ts : List TypeExpr} (h : ∀ t ∈ ts, t.firstForeign = none) :
    firstForeignOf ts = none := by
  induction ts with
  | nil => rfl
  | cons t ts ih =>
    rw [firstForeignOf, h t (by simp), ih fun u hu => h u (List.mem_cons_of_mem _ hu)]
    rfl

theorem Built.firstForeign_eq_none {t : TypeExpr} (h : t.Built P) : t.firstForeign = none := by
  match t with
  | .var _ | .named _ | .contract _ => rfl
  | .app head args =>
    obtain ⟨n, rfl, -, -, hargs⟩ := built_app h
    rw [firstForeign, firstForeignOf_eq_none fun u hu => (hargs u hu).firstForeign_eq_none]
    rfl
  | .tuple parts =>
    have hparts := builtAll_iff.1 h.2
    rw [firstForeign, firstForeignOf_eq_none fun u hu => (hparts u hu).firstForeign_eq_none]
  | .record _ => exact h.elim
  | .field _ _ _ => exact h.elim
  | .variant _ => exact h.elim
  | .constr _ _ _ => exact h.elim
  | .synonym _ => exact h.elim
  | .foreign _ _ _ => exact h.elim
termination_by sizeOf t
decreasing_by
  all_goals
    have := List.sizeOf_lt_of_mem hu
    simp
    omega

theorem BuiltBody.firstForeign_eq_none {t : TypeExpr} (h : t.BuiltBody P) :
    t.firstForeign = none := by
  cases t with
  | synonym t => exact Built.firstForeign_eq_none (t := t) h
  | record fields =>
    refine firstForeignOf_eq_none fun t ht => ?_
    obtain ⟨n, type, rfl, -, htype⟩ := h.2 t ht
    exact htype.firstForeign_eq_none
  | variant constructors =>
    refine firstForeignOf_eq_none fun t ht => ?_
    obtain ⟨n, args, rfl, -, hargs⟩ := h.2 t ht
    exact firstForeignOf_eq_none fun u hu => (builtAll_iff.1 hargs u hu).firstForeign_eq_none
  | _ => exact h.elim

theorem render_eq_text {t : TypeExpr} (h : t.firstForeign = none) : t.render = .ok t.text := by
  rw [render, h]

end TypeExpr

/-! ## Descriptions -/

theorem mapM_eq_ok {ε α β : Type} {f : α → Except ε β} {g : α → β} {as : List α}
    (h : ∀ a ∈ as, f a = .ok (g a)) : as.mapM f = .ok (as.map g) := by
  induction as with
  | nil => rfl
  | cons a as ih =>
    have hrest := ih fun b hb => h b (List.mem_cons_of_mem _ hb)
    exact mapM_cons_eq_ok_iff.2 ⟨g a, as.map g, h a (by simp), hrest, rfl⟩

/-- An annotation that is not missing has a text. -/
theorem renderAscription_eq {type : Option TypeExpr} (h : ∀ t, type = some t → t.Built P)
    (hsome : type.isSome) : renderAscription type = .ok (ascriptionText type) := by
  obtain ⟨t, rfl⟩ := Option.isSome_iff_exists.1 hsome
  exact TypeExpr.render_eq_text (h t rfl).firstForeign_eq_none

theorem TypeDef.Built.describe_eq {d : TypeDef} (h : d.Built P) : d.describe = .ok d.described :=
  bind_eq_ok_iff.2 ⟨_, TypeExpr.render_eq_text h.body.firstForeign_eq_none, rfl⟩

theorem Param.Built.describe_eq {p : Param} (h : p.Built P) (hsome : p.type.isSome) :
    p.describe = .ok p.described := by
  obtain ⟨n, hn, -⟩ := h.label
  have hlabel : p.label.render = .ok p.label.text := by
    rw [hn]
    rfl
  exact bind_eq_ok_iff.2 ⟨_, hlabel, bind_eq_ok_iff.2 ⟨_, renderAscription_eq h.type hsome, rfl⟩⟩

theorem FunctionDef.Built.describe_eq {d : FunctionDef} (h : d.Built P) (ha : d.Annotated) :
    d.describe = .ok d.described := by
  have hparams := mapM_eq_ok fun p hp => (h.params p hp).describe_eq (ha.1 p hp)
  exact bind_eq_ok_iff.2 ⟨_, hparams, bind_eq_ok_iff.2 ⟨_, renderAscription_eq h.result ha.2, rfl⟩⟩

/-- A contract that was built from tokens and whose functions are annotated has a description. -/
theorem Contract.Built.exists_describe {c : Contract} (h : c.Built P)
    (ha : ∀ d ∈ c.functions, d.Annotated) (publicOnly : Bool) :
    ∃ d, c.describe publicOnly = .ok d := by
  have htypes := mapM_eq_ok fun d (hd : d ∈ c.orderedTypeDefs) =>
    (h.typeDef ((perm_sortByPosition _ _).mem_iff.1 hd)).describe_eq
  have hmem : ∀ d ∈ c.describedFunctions publicOnly, d ∈ c.functions := fun d hd =>
    (perm_sortByPosition _ _).mem_iff.1 (List.mem_filter.1 hd).1
  have hfunctions := mapM_eq_ok fun d hd =>
    (h.function (hmem d hd)).describe_eq (ha d (hmem d hd))
  exact ⟨_, bind_eq_ok_iff.2 ⟨_, htypes, bind_eq_ok_iff.2 ⟨_, hfunctions, rfl⟩⟩⟩

/-! ## Sources -/

/-- The text of the source: bytes should be its encoding. -/
def Source.Spells : Source → String → Prop
  | .text t, s => t = s
  | .bytes b, s => Text.Utf8.encode s.toList = b

theorem Source.decode_eq_ok_iff {source : Source} {s : String} :
    source.decode = .ok s ↔ source.Spells s := by
  cases source with
  | text t =>
    constructor
    · exact Except.ok.inj
    · exact congrArg Except.ok
  | bytes b =>
    show _ ↔ Text.Utf8.encode s.toList = b
    rw [← Text.Utf8.decode_eq_ok_iff]
    simp only [Source.decode]
    cases Text.Utf8.decode b with
    | error offset => simp
    | ok cs =>
      constructor
      · intro h
        cases h
        rw [String.toList_ofList]
      · intro h
        cases h
        show Except.ok (String.ofList s.toList) = .ok s
        rw [String.ofList_toList]

/-- The source is a text that scans and parses as this unit. -/
def Source.HasUnit (source : Source) (unit : List Contract) : Prop :=
  ∃ s ts, source.Spells s ∧ Token.scan s = .ok ts ∧ Contract.ofTokens ts = .ok unit

theorem Source.hasUnit_iff {source : Source} {unit : List Contract} :
    source.HasUnit unit ↔ ∃ s, source.decode = .ok s ∧ Contract.ofSource s = .ok unit := by
  constructor
  · rintro ⟨s, ts, hs, hscan, hparse⟩
    refine ⟨s, decode_eq_ok_iff.2 hs, ?_⟩
    rw [Contract.ofSource, hscan]
    exact hparse
  · rintro ⟨s, hs, hunit⟩
    unfold Contract.ofSource at hunit
    split at hunit
    · cases hunit
    · next ts hscan => exact ⟨s, ts, decode_eq_ok_iff.1 hs, hscan, hunit⟩

/-- What the checker says to the unit of a source. -/
theorem infer_cases {source : String} {unit : List Contract}
    (h : Contract.ofSource source = .ok unit) :
    WellTyped unit ∧ Contract.infer unit = .ok unit ∨
      ¬WellTyped unit ∧ ∃ issues, Contract.infer unit = .error (.illTyped issues) := by
  obtain ⟨issues, hissues, hinfer⟩ :=
    infer_eq fun k hk c => (Grammar.built_of_ofSource h k hk).1.unhindered c
  have hempty : issues = [] ↔ WellTyped unit := hissues.eq_nil_iff.trans wellTyped_iff.symm
  by_cases hnil : issues = []
  · rw [if_pos hnil] at hinfer
    exact .inl ⟨hempty.1 hnil, hinfer⟩
  · rw [if_neg hnil] at hinfer
    exact .inr ⟨mt hempty.2 hnil, _, hinfer⟩

/-- What the checker accepts is well typed. -/
theorem wellTyped_of_infer {source : String} {unit unit' : List Contract}
    (h : Contract.ofSource source = .ok unit) (hinfer : Contract.infer unit = .ok unit') :
    WellTyped unit := by
  obtain ⟨ht, -⟩ | ⟨-, issues, hfail⟩ := infer_cases h
  · exact ht
  · rw [hinfer] at hfail
    cases hfail

theorem infer_of_wellTyped {source : String} {unit : List Contract}
    (h : Contract.ofSource source = .ok unit) (ht : WellTyped unit) :
    Contract.infer unit = .ok unit := by
  obtain ⟨-, hinfer⟩ | ⟨hno, -⟩ := infer_cases h
  · exact hinfer
  · exact absurd ht hno

/-- An accepted source has the description of its first contract. -/
theorem describe_eq_of_infer {source : Source} {s : String} {c : Contract} {unit cs : List Contract}
    (hs : source.decode = .ok s) (hunit : Contract.ofSource s = .ok unit)
    (hinfer : Contract.infer unit = .ok (c :: cs)) (publicOnly : Bool) :
    describe publicOnly source =
      (c.describe publicOnly).mapError fun shown => .typing (.notAType shown) := by
  unfold describe DescribeRequest.run
  simp only [hs, hunit, hinfer]
  cases c.describe publicOnly <;> rfl

theorem interfaceText_eq (indent : Option Int) (publicOnly : Bool) (source : Source) :
    interfaceText indent publicOnly source =
      match describe publicOnly source with
      | .error e => .error e
      | .ok d => d.textWithin indent := rfl

/-- A source that spells no unit is refused as such. -/
theorem describe_of_no_unit {source : Source} (h : ¬∃ unit, source.HasUnit unit)
    (publicOnly : Bool) : ∃ e, describe publicOnly source = .error (.source e) := by
  unfold describe DescribeRequest.run
  cases hs : source.decode with
  | error e => exact ⟨e, rfl⟩
  | ok s =>
    cases hunit : Contract.ofSource s with
    | ok unit => exact absurd ⟨unit, Source.hasUnit_iff.2 ⟨s, hs, hunit⟩⟩ h
    | error f =>
      obtain ⟨e, he⟩ := Contract.exists_translate_of_ofSource hunit
      refine ⟨e, ?_⟩
      simp only [hunit, he]

/-- A unit that is well typed has a description. -/
theorem describe_of_wellTyped {source : Source} {unit : List Contract} (h : source.HasUnit unit)
    (ht : WellTyped unit) (publicOnly : Bool) : ∃ d, describe publicOnly source = .ok d := by
  obtain ⟨s, hs, hunit⟩ := Source.hasUnit_iff.1 h
  have hinfer := infer_of_wellTyped hunit ht
  cases unit with
  | nil => exact absurd rfl (Grammar.ne_nil_of_ofSource hunit)
  | cons c cs =>
    have hbuilt := (Grammar.built_of_ofSource hunit c (by simp)).1
    have hannotated : ∀ d ∈ c.functions, d.Annotated := fun d hd =>
      have hd := (ht c (by simp)).functions d hd
      ⟨hd.params_annotated, hd.result_annotated⟩
    obtain ⟨d, hd⟩ := hbuilt.exists_describe hannotated publicOnly
    rw [describe_eq_of_infer hs hunit hinfer, hd]
    exact ⟨d, rfl⟩

/-- Well-typed units that start with the same contract have the same description. -/
theorem describe_eq_of_first {source source' : Source} {c : Contract} {cs ds : List Contract}
    (h : source.HasUnit (c :: cs)) (h' : source'.HasUnit (c :: ds)) (ht : WellTyped (c :: cs))
    (ht' : WellTyped (c :: ds)) (publicOnly : Bool) :
    describe publicOnly source = describe publicOnly source' := by
  obtain ⟨s, hs, hunit⟩ := Source.hasUnit_iff.1 h
  obtain ⟨s', hs', hunit'⟩ := Source.hasUnit_iff.1 h'
  have hinfer := infer_of_wellTyped hunit ht
  have hinfer' := infer_of_wellTyped hunit' ht'
  rw [describe_eq_of_infer hs hunit hinfer, describe_eq_of_infer hs' hunit' hinfer']

theorem describe_of_not_wellTyped {source : Source} {unit : List Contract}
    (h : source.HasUnit unit) (ht : ¬WellTyped unit) (publicOnly : Bool) :
    ∃ issues, describe publicOnly source = .error (.typing (.illTyped issues)) := by
  obtain ⟨s, hs, hunit⟩ := Source.hasUnit_iff.1 h
  obtain ⟨htyped, -⟩ | ⟨-, issues, hinfer⟩ := infer_cases hunit
  · exact absurd htyped ht
  · refine ⟨issues, ?_⟩
    unfold describe DescribeRequest.run
    simp only [hs, hunit, hinfer]

/-- A source has at most one unit. -/
theorem Source.HasUnit.unique {source : Source} {u v : List Contract} (hu : source.HasUnit u)
    (hv : source.HasUnit v) : u = v := by
  obtain ⟨s, hs, hu⟩ := hasUnit_iff.1 hu
  obtain ⟨t, ht, hv⟩ := hasUnit_iff.1 hv
  cases hs.symm.trans ht
  exact Except.ok.inj (hu.symm.trans hv)

/-- **A source has a description, or is refused as such or for typing issues**, and which of them
depends only on whether it spells a unit and whether that is well typed. -/
theorem describe_outcome (publicOnly : Bool) (source : Source) :
    ((∃ d, describe publicOnly source = .ok d) ∨
      (∃ e, describe publicOnly source = .error (.source e)) ∨
      ∃ issues, describe publicOnly source = .error (.typing (.illTyped issues))) ∧
    ((∃ e, describe publicOnly source = .error (.source e)) ↔ ¬∃ unit, source.HasUnit unit) ∧
    ((∃ issues, describe publicOnly source = .error (.typing (.illTyped issues))) ↔
      ∃ unit, source.HasUnit unit ∧ ¬WellTyped unit) := by
  by_cases hunit : ∃ unit, source.HasUnit unit
  · obtain ⟨unit, hunit⟩ := hunit
    by_cases ht : WellTyped unit
    · obtain ⟨d, hd⟩ := describe_of_wellTyped hunit ht publicOnly
      rw [hd]
      refine ⟨.inl ⟨d, rfl⟩, iff_of_false (by simp) (not_not_intro ⟨unit, hunit⟩),
        iff_of_false (by simp) ?_⟩
      rintro ⟨v, hv, hno⟩
      exact hno (hunit.unique hv ▸ ht)
    · obtain ⟨issues, hissues⟩ := describe_of_not_wellTyped hunit ht publicOnly
      rw [hissues]
      exact ⟨.inr (.inr ⟨issues, rfl⟩), iff_of_false (by simp) (not_not_intro ⟨unit, hunit⟩),
        iff_of_true ⟨issues, rfl⟩ ⟨unit, hunit, ht⟩⟩
  · obtain ⟨e, he⟩ := describe_of_no_unit hunit publicOnly
    rw [he]
    refine ⟨.inr (.inl ⟨e, rfl⟩), iff_of_true ⟨e, rfl⟩ hunit, iff_of_false (by simp) ?_⟩
    rintro ⟨unit, hu, -⟩
    exact hunit ⟨unit, hu⟩

end ContractInterface
