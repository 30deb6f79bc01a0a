import ContractInterface.Proofs.Grammar.Shape
import ContractInterface.Proofs.Json.RoundTrip
import ContractInterface.Description
import ContractInterface.Stub

/-!
# Descriptions of sources

An interface text is the text of the description of the first contract (`interfaceText_eq_ok`), whose
declarations are listed as they were written.  The text of a description determines it:

    d.text indent = e.text indent → d = e                            (Description.text_injective)
-/

namespace ContractInterface

/-! ## Results -/

section

variable {ε α β γ : Type}

theorem bind_eq_ok_iff {x : Except ε α} {f : α → Except ε β} {b : β} :
    x >>= f = .ok b ↔ ∃ a, x = .ok a ∧ f a = .ok b := by
  cases x <;> simp [bind, Except.bind]

theorem mapM_cons_eq_ok_iff {f : α → Except ε β} {a : α} {as : List α} {bs : List β} :
    (a :: as).mapM f = .ok bs ↔ ∃ b cs, f a = .ok b ∧ as.mapM f = .ok cs ∧ bs = b :: cs := by
  rw [List.mapM_cons, bind_eq_ok_iff]
  constructor
  · rintro ⟨b, hb, h⟩
    obtain ⟨cs, hcs, h⟩ := bind_eq_ok_iff.1 h
    cases h
    exact ⟨b, cs, hb, hcs, rfl⟩
  · rintro ⟨b, cs, hb, hcs, rfl⟩
    exact ⟨b, hb, bind_eq_ok_iff.2 ⟨cs, hcs, rfl⟩⟩

/-- Where `g` does what `f` does, up to `k`, it does so for lists. -/
theorem mapM_eq_ok_map {f : α → Except ε β} {g : α → Except ε γ} {k : β → γ}
    (h : ∀ a b, f a = .ok b → g a = .ok (k b)) {as : List α} {bs : List β}
    (hf : as.mapM f = .ok bs) : as.mapM g = .ok (bs.map k) := by
  induction as generalizing bs with
  | nil =>
    cases hf
    rfl
  | cons a as ih =>
    obtain ⟨b, cs, hb, hcs, rfl⟩ := mapM_cons_eq_ok_iff.1 hf
    exact mapM_cons_eq_ok_iff.2 ⟨k b, cs.map k, h a b hb, ih hcs, rfl⟩

/-- Where there are results of a list, there is one of each of its elements. -/
theorem exists_of_mapM {f : α → Except ε β} {as : List α} {bs : List β}
    (hf : as.mapM f = .ok bs) : ∀ a ∈ as, ∃ b, f a = .ok b := by
  induction as generalizing bs with
  | nil => simp
  | cons a as ih =>
    obtain ⟨b, cs, hb, hcs, -⟩ := mapM_cons_eq_ok_iff.1 hf
    exact List.forall_mem_cons.2 ⟨⟨b, hb⟩, ih hcs⟩

/-- Where all results of `f` are those of `k`, so are lists of results. -/
theorem eq_map_of_mapM {f : α → Except ε β} {k : α → β} (h : ∀ a b, f a = .ok b → b = k a)
    {as : List α} {bs : List β} (hf : as.mapM f = .ok bs) : bs = as.map k := by
  induction as generalizing bs with
  | nil =>
    cases hf
    rfl
  | cons a as ih =>
    obtain ⟨b, cs, hb, hcs, rfl⟩ := mapM_cons_eq_ok_iff.1 hf
    rw [h a b hb, ih hcs, List.map_cons]

/-- Lists that `f` tells apart exactly where `g` does. -/
theorem map_eq_map_iff {f : α → β} {g : α → γ} {as bs : List α}
    (h : ∀ a ∈ as, ∀ b ∈ bs, f a = f b ↔ g a = g b) :
    as.map f = bs.map f ↔ as.map g = bs.map g := by
  induction as generalizing bs with
  | nil => cases bs <;> simp
  | cons a as ih =>
    cases bs with
    | nil => simp
    | cons b bs =>
      have hab := h a (by simp) b (by simp)
      have hr := ih fun x hx y hy => h x (List.mem_cons_of_mem _ hx) y (List.mem_cons_of_mem _ hy)
      rw [List.map_cons, List.map_cons, List.map_cons, List.map_cons, List.cons.injEq,
        List.cons.injEq, hab, hr]

end

/-! ## Order -/

theorem insertByPosition_eq_cons {α : Type} {pos : α → Position} {a : α} {s : List α}
    (h : ∀ b ∈ s, (pos a).le (pos b) = true) : insertByPosition pos a s = a :: s := by
  cases s with
  | nil => rfl
  | cons b r => rw [insertByPosition, if_pos (h b (by simp))]

/-- What is in order is left as it is. -/
theorem sortByPosition_eq_self {α : Type} {pos : α → Position} {s : List α}
    (h : Ascending pos s) : sortByPosition pos s = s := by
  induction s with
  | nil => rfl
  | cons a r ih =>
    obtain ⟨ha, hr⟩ := List.pairwise_cons.1 h
    rw [sortByPosition, ih hr, insertByPosition_eq_cons ha]

namespace Contract

/-- Declarations of one sort are in order if all declarations are. -/
theorem InOrder.ascending {α : Type} {c : Contract} (h : c.InOrder) {sort? : Decl → Option α}
    {place : α → Position} (hplace : ∀ d a, sort? d = some a → place a = d.place) :
    Ascending place (c.decls.filterMap sort?) := by
  refine List.pairwise_filterMap.2 (List.Pairwise.imp ?_ h)
  intro d e hde a ha b hb
  rw [hplace d a ha, hplace e b hb]
  exact hde.le

theorem InOrder.orderedTypeDefs {c : Contract} (h : c.InOrder) : c.orderedTypeDefs = c.typeDefs := by
  refine sortByPosition_eq_self (h.ascending ?_)
  rintro (d | d | d) a ha <;> cases ha
  rfl

theorem InOrder.orderedFunctions {c : Contract} (h : c.InOrder) :
    c.orderedFunctions = c.functions := by
  refine sortByPosition_eq_self (h.ascending ?_)
  rintro (d | d | d) a ha <;> cases ha
  rfl

/-! ## Interface texts -/

/-- The checker returns what it was given, if anything. -/
theorem infer_eq_ok {unit unit' : List Contract} (h : Contract.infer unit = .ok unit') :
    unit' = unit := by
  unfold Contract.infer Checker.infer at h
  split at h
  · cases h
  · split at h
    · cases h
      rfl
    · cases h

end Contract

/-! ## Descriptions of declarations -/

theorem TypeDef.describe_eq_ok {d : TypeDef} {t : DescribedType} (h : d.describe = .ok t) :
    ∃ b, d.body.render = .ok b ∧ t = ⟨d.name.text, d.vars.map Name.text, b⟩ := by
  obtain ⟨b, hb, h⟩ := bind_eq_ok_iff.1 h
  cases h
  exact ⟨b, hb, rfl⟩

theorem Param.describe_eq_ok {p : Param} {a : DescribedArgument} (h : p.describe = .ok a) :
    p.label.render = .ok a.name ∧ renderAscription p.type = .ok a.type := by
  obtain ⟨n, hn, h⟩ := bind_eq_ok_iff.1 h
  obtain ⟨t, ht, h⟩ := bind_eq_ok_iff.1 h
  cases h
  exact ⟨hn, ht⟩

theorem FunctionDef.describe_eq_ok {d : FunctionDef} {f : DescribedFunction}
    (h : d.describe = .ok f) : f.name = d.name.text ∧
      d.params.mapM Param.describe = .ok f.arguments ∧ renderAscription d.result = .ok f.result := by
  obtain ⟨as, ha, h⟩ := bind_eq_ok_iff.1 h
  obtain ⟨r, hr, h⟩ := bind_eq_ok_iff.1 h
  cases h
  exact ⟨rfl, ha, hr⟩

namespace Contract

theorem describe_eq_ok {c : Contract} {publicOnly : Bool} {d : Description}
    (h : c.describe publicOnly = .ok d) :
    d.name = c.name.text ∧ c.orderedTypeDefs.mapM TypeDef.describe = .ok d.typeDefs ∧
      (c.describedFunctions publicOnly).mapM FunctionDef.describe = .ok d.functions := by
  obtain ⟨ts, ht, h⟩ := bind_eq_ok_iff.1 h
  obtain ⟨fs, hf, h⟩ := bind_eq_ok_iff.1 h
  cases h
  exact ⟨rfl, ht, hf⟩

end Contract

/-- An interface text describes the first contract of a source that was read and checked. -/
theorem interfaceText_eq_ok {indent : Option Int} {publicOnly : Bool} {source : Source} {t : String}
    (h : interfaceText indent publicOnly source = .ok t) :
    ∃ s c cs d, source.decode = .ok s ∧ Contract.ofSource s = .ok (c :: cs) ∧
      Contract.infer (c :: cs) = .ok (c :: cs) ∧ c.describe publicOnly = .ok d ∧
      t = d.text indent := by
  unfold interfaceText DescribeRequest.text at h
  split at h
  · cases h
  · next d hd =>
    unfold DescribeRequest.run at hd
    split at hd
    · cases hd
    · next s hs =>
      split at hd
      · split at hd <;> cases hd
      · next unit hunit =>
        split at hd
        · cases hd
        · cases hd
        · next c cs hinfer =>
          split at hd
          · cases hd
          · next d' hdescribe =>
            cases hd
            have hsame := Contract.infer_eq_ok hinfer
            subst hsame
            unfold Description.textWithin at h
            split at h
            · cases h
            · cases h
              exact ⟨s, c, cs, d, hs, hunit, hinfer, hdescribe, rfl⟩

/-! ## Texts of descriptions -/

open Json

theorem DescribedArgument.reread_toValue (a : DescribedArgument) :
    a.toValue.reread = .keyed [("name", .text a.name), ("type", .text a.type)] := by
  simp [toValue, Value.reread, Value.rereadPairs, Entries.ofPairs, Entries.put]

theorem DescribedFunction.reread_toValue (f : DescribedFunction) : f.toValue.reread = .keyed
    [("name", .text f.name),
      ("arguments", .list (f.arguments.map fun a => a.toValue.reread)), ("type", .text f.result)] := by
  simp [toValue, Value.reread, Value.rereadPairs, Entries.ofPairs, Entries.put,
    Value.rereads_eq_map]

theorem DescribedType.reread_toValue (d : DescribedType) : d.toValue.reread = .keyed
    [("name", .text d.name), ("vars", .list (d.vars.map fun v => .keyed [("name", .text v)])),
      ("typedef", .text d.body)] := by
  simp [toValue, Value.reread, Value.rereadPairs, Entries.ofPairs, Entries.put,
    Value.rereads_eq_map]

theorem Description.reread_toValue (d : Description) : d.toValue.reread = .keyed
    [("contract", .keyed [("name", .text d.name),
      ("type_defs", .list (d.typeDefs.map fun t => t.toValue.reread)),
      ("functions", .list (d.functions.map fun f => f.toValue.reread))])] := by
  simp [toValue, Value.reread, Value.rereadPairs, Entries.ofPairs, Entries.put,
    Value.rereads_eq_map]

theorem Json.Value.allWritable_map {α : Type} {f : α → Value} (h : ∀ a, (f a).Writable) (as : List α) :
    Value.AllWritable (as.map f) := by
  induction as with
  | nil => trivial
  | cons a as ih => exact ⟨h a, ih⟩

theorem Description.writable_toValue (d : Description) : d.toValue.Writable := by
  have harg (a : DescribedArgument) : a.toValue.Writable := ⟨trivial, trivial, trivial⟩
  have hfunction (f : DescribedFunction) : f.toValue.Writable :=
    ⟨trivial, Value.allWritable_map harg _, trivial, trivial⟩
  have hvar (v : String) : (Value.ordered [("name", .text v)]).Writable := ⟨trivial, trivial⟩
  have htype (t : DescribedType) : t.toValue.Writable :=
    ⟨trivial, Value.allWritable_map hvar _, trivial, trivial⟩
  exact ⟨⟨trivial, Value.allWritable_map htype _, Value.allWritable_map hfunction _, trivial⟩,
    trivial⟩

/-- The text of a description is read back as its value. -/
theorem Description.loadKeeping_text (lone : Nat → Char) (d : Description) (indent : Option Int) :
    (InterfaceText.text (d.text indent)).loadKeeping lone = .ok d.toValue.reread := by
  rw [InterfaceText.loadKeeping, Description.text,
    Value.readKeeping_write lone d.toValue d.writable_toValue indent, d.reread_toValue]
  rfl

theorem DescribedArgument.reread_injective {a b : DescribedArgument}
    (h : a.toValue.reread = b.toValue.reread) : a = b := by
  obtain ⟨n, t⟩ := a
  obtain ⟨m, u⟩ := b
  rw [reread_toValue, reread_toValue] at h
  simpa using h

theorem DescribedFunction.reread_injective {f g : DescribedFunction}
    (h : f.toValue.reread = g.toValue.reread) : f = g := by
  obtain ⟨n, as, r⟩ := f
  obtain ⟨m, bs, q⟩ := g
  rw [reread_toValue, reread_toValue] at h
  simp only [Value.keyed.injEq, List.cons.injEq, Prod.mk.injEq, Value.text.injEq,
    Value.list.injEq, true_and, and_true] at h
  obtain ⟨rfl, hargs, rfl⟩ := h
  rw [(List.map_inj_right fun a b => DescribedArgument.reread_injective).1 hargs]

theorem DescribedType.reread_injective {d e : DescribedType}
    (h : d.toValue.reread = e.toValue.reread) : d = e := by
  obtain ⟨n, vs, b⟩ := d
  obtain ⟨m, ws, c⟩ := e
  rw [reread_toValue, reread_toValue] at h
  simp only [Value.keyed.injEq, List.cons.injEq, Prod.mk.injEq, Value.text.injEq,
    Value.list.injEq, true_and, and_true] at h
  obtain ⟨rfl, hvars, rfl⟩ := h
  rw [(List.map_inj_right fun v w hvw => by simpa using hvw).1 hvars]

/-- The text of a description determines it. -/
theorem Description.text_injective {d e : Description} {indent : Option Int}
    (h : d.text indent = e.text indent) : d = e := by
  have hvalue : d.toValue.reread = e.toValue.reread := by
    have hd := d.loadKeeping_text (fun _ => ' ') indent
    rw [h, e.loadKeeping_text] at hd
    exact (Except.ok.inj hd).symm
  obtain ⟨n, ts, fs⟩ := d
  obtain ⟨m, us, gs⟩ := e
  rw [reread_toValue, reread_toValue] at hvalue
  simp only [Value.keyed.injEq, List.cons.injEq, Prod.mk.injEq, Value.text.injEq,
    Value.list.injEq, true_and, and_true] at hvalue
  obtain ⟨rfl, htypes, hfunctions⟩ := hvalue
  rw [(List.map_inj_right fun a b => DescribedType.reread_injective).1 htypes,
    (List.map_inj_right fun a b => DescribedFunction.reread_injective).1 hfunctions]

end ContractInterface
