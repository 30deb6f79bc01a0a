import ContractInterface.Contract.Typing

/-!
# One issue for every violation

`Reports V issues` says that the issues are those of the sites that violate a rule: every site that
does has exactly one among them, and there are no others.  Reports on disjoint sites are put together
by `Reports.append`, reports on the elements of a list by `Reports.flatMap`.
-/

namespace ContractInterface

/-- The issues are those in `V`, with one entry for each site. -/
def Reports {S : Type} (V : S → Issue → Prop) (issues : List Issue) : Prop :=
  ∃ vs : List (S × Issue), (vs.map Prod.fst).Nodup ∧
    (∀ site issue, (site, issue) ∈ vs ↔ V site issue) ∧ issues.Perm (vs.map Prod.snd)

namespace Reports

variable {S T : Type} {V W : S → Issue → Prop} {is js : List Issue}

theorem congr (h : Reports V is) (hVW : ∀ site issue, V site issue ↔ W site issue) :
    Reports W is := by
  obtain ⟨vs, hnodup, hmem, hperm⟩ := h
  exact ⟨vs, hnodup, fun site issue => (hmem site issue).trans (hVW site issue), hperm⟩

theorem perm (h : Reports V is) (hjs : js.Perm is) : Reports V js := by
  obtain ⟨vs, hnodup, hmem, hperm⟩ := h
  exact ⟨vs, hnodup, hmem, hjs.trans hperm⟩

theorem eq_nil_iff (h : Reports V is) : is = [] ↔ ∀ site issue, ¬ V site issue := by
  obtain ⟨vs, -, hmem, hperm⟩ := h
  have hvs : is = [] ↔ vs = [] := by
    rw [← List.length_eq_zero_iff, hperm.length_eq, List.length_map, List.length_eq_zero_iff]
  rw [hvs, List.eq_nil_iff_forall_not_mem]
  constructor
  · intro hno site issue hv
    exact hno _ ((hmem site issue).2 hv)
  · rintro hno ⟨site, issue⟩ hv
    exact hno site issue ((hmem site issue).1 hv)

theorem exists_site (h : Reports V is) {issue : Issue} (hi : issue ∈ is) : ∃ site, V site issue := by
  obtain ⟨vs, -, hmem, hperm⟩ := h
  obtain ⟨⟨site, issue⟩, hv, rfl⟩ := List.mem_map.1 (hperm.mem_iff.1 hi)
  exact ⟨site, (hmem site issue).1 hv⟩

theorem nil (h : ∀ site issue, ¬ V site issue) : Reports V [] :=
  ⟨[], .nil, fun site issue => iff_of_false (by simp) (h site issue), .nil⟩

/-- There is only one site. -/
theorem unit {V : Issue → Prop} (hlength : is.length ≤ 1) (h : ∀ issue, issue ∈ is ↔ V issue) :
    Reports (fun _ : Unit => V) is := by
  refine ⟨is.map fun issue => ((), issue), ?_, ?_, ?_⟩
  · match is, hlength with
    | [], _ => exact .nil
    | [issue], _ => exact List.pairwise_singleton _ _
  · rintro ⟨⟩ issue
    refine Iff.trans ?_ (h issue)
    simp
  · rw [List.map_map]
    exact .of_eq (List.map_id _).symm

/-- There is only one site, where a condition is checked. -/
theorem check {V : Issue → Prop} {p : Prop} [Decidable p] {found : Issue}
    (h : ∀ issue, V issue ↔ ¬ p ∧ issue = found) :
    Reports (fun _ : Unit => V) (if p then [] else [found]) := by
  split
  · next hp => exact .nil fun _ issue hv => ((h issue).1 hv).1 hp
  · next hp =>
    refine .unit (Nat.le_refl 1) fun issue => ?_
    rw [List.mem_singleton, h, and_iff_right hp]

/-- Sites may be named in another way. -/
theorem map (h : Reports V is) (f : S → T) (hf : ∀ s t, f s = f t → s = t) :
    Reports (fun site issue => ∃ s, f s = site ∧ V s issue) is := by
  obtain ⟨vs, hnodup, hmem, hperm⟩ := h
  refine ⟨vs.map fun v => (f v.1, v.2), ?_, ?_, ?_⟩
  · have hmap : (vs.map fun v => (f v.1, v.2)).map Prod.fst = (vs.map Prod.fst).map f := by simp
    rw [hmap]
    exact List.pairwise_map.2 (hnodup.imp fun hne e => hne (hf _ _ e))
  · intro site issue
    rw [List.mem_map]
    constructor
    · rintro ⟨⟨s, i⟩, hv, e⟩
      cases e
      exact ⟨s, rfl, (hmem s i).1 hv⟩
    · rintro ⟨s, rfl, hv⟩
      exact ⟨(s, issue), (hmem s issue).2 hv, rfl⟩
  · rwa [List.map_map]

theorem append (hV : Reports V is) (hW : Reports W js)
    (hdisjoint : ∀ site i j, V site i → ¬ W site j) :
    Reports (fun site issue => V site issue ∨ W site issue) (is ++ js) := by
  obtain ⟨vs, hnodup, hmem, hperm⟩ := hV
  obtain ⟨ws, hnodup', hmem', hperm'⟩ := hW
  refine ⟨vs ++ ws, ?_, ?_, ?_⟩
  · rw [List.map_append, List.nodup_append]
    refine ⟨hnodup, hnodup', ?_⟩
    rintro s hs t ht rfl
    obtain ⟨⟨s, i⟩, hv, rfl⟩ := List.mem_map.1 hs
    obtain ⟨⟨t, j⟩, hw, rfl⟩ := List.mem_map.1 ht
    exact hdisjoint _ i j ((hmem _ i).1 hv) ((hmem' _ j).1 hw)
  · intro site issue
    rw [List.mem_append, hmem, hmem']
  · rw [List.map_append]
    exact hperm.append hperm'

/-- Sites in the head of a list, and behind it. -/
theorem cons {V : S → Issue → Prop} {W : Nat × S → Issue → Prop} (hV : Reports V is)
    (hW : Reports W js) {U : Nat × S → Issue → Prop}
    (hzero : ∀ s issue, U (0, s) issue ↔ V s issue)
    (hsucc : ∀ i s issue, U (i + 1, s) issue ↔ W (i, s) issue) : Reports U (is ++ js) := by
  have hhead := hV.map (fun s => (0, s)) (by rintro s t ⟨⟩; rfl)
  have htail := hW.map (fun p : Nat × S => (p.1 + 1, p.2)) (by rintro ⟨i, s⟩ ⟨j, t⟩ ⟨⟩; rfl)
  refine (hhead.append htail ?_).congr ?_
  · rintro site i j ⟨s, rfl, -⟩ ⟨p, e, -⟩
    cases e
  · rintro ⟨_ | i, s⟩ issue
    · rw [hzero]
      constructor
      · rintro (⟨t, ⟨⟩, hv⟩ | ⟨p, ⟨⟩, -⟩)
        exact hv
      · exact fun hv => .inl ⟨s, rfl, hv⟩
    · rw [hsucc]
      constructor
      · rintro (⟨t, ⟨⟩, -⟩ | ⟨⟨j, t⟩, ⟨⟩, hw⟩)
        exact hw
      · exact fun hw => .inr ⟨(i, s), rfl, hw⟩

variable {α : Type}

/-- What holds of the element with the index in the site. -/
def At (xs : List α) (V : α → S → Issue → Prop) (site : Nat × S) (issue : Issue) : Prop :=
  ∃ x, xs[site.1]? = some x ∧ V x site.2 issue

theorem flatMap {V : α → S → Issue → Prop} {f : α → List Issue} (xs : List α)
    (h : ∀ x ∈ xs, Reports (V x) (f x)) : Reports (At xs V) (xs.flatMap f) := by
  induction xs with
  | nil =>
    refine .nil ?_
    rintro site issue ⟨x, hx, -⟩
    cases hx
  | cons x xs ih =>
    rw [List.flatMap_cons]
    refine (h x (by simp)).cons (ih fun y hy => h y (List.mem_cons_of_mem _ hy)) ?_ ?_
    · intro s issue
      simp [At]
    · intro i s issue
      simp [At]

end Reports

end ContractInterface
