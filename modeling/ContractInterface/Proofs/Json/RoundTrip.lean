import ContractInterface.Proofs.Json.Lexemes

/-!
# Reading written values back

A value without doubles whose integers are not too long is read back from its text, whatever the
indent: tuples come back as lists, sequences of pairs as mappings (`Value.reread`).

    readKeeping lone (v.write indent).toList = .ok v.reread          (Value.readKeeping_write)
-/

namespace ContractInterface.Json

open Reading

namespace Value

mutual

/-- What a written value is read back as. -/
def reread : Value → Value
  | list items => list (rereads items)
  | tuple items => list (rereads items)
  | keyed entries => keyed (Entries.ofPairs (rereadPairs entries))
  | ordered pairs => keyed (Entries.ofPairs (rereadPairs pairs))
  | v => v

def rereads : List Value → List Value
  | [] => []
  | v :: vs => v.reread :: rereads vs

def rereadPairs : List (String × Value) → List (String × Value)
  | [] => []
  | (k, v) :: r => (k, v.reread) :: rereadPairs r

end

mutual

/-- There are no doubles in the value, and its integers can be read. -/
def Writable : Value → Prop
  | int n => (Decimal.digits n.natAbs).length ≤ maxDigits
  | double _ => False
  | list items => AllWritable items
  | tuple items => AllWritable items
  | keyed entries => EntriesWritable entries
  | ordered pairs => EntriesWritable pairs
  | _ => True

def AllWritable : List Value → Prop
  | [] => True
  | v :: vs => v.Writable ∧ AllWritable vs

def EntriesWritable : List (String × Value) → Prop
  | [] => True
  | (_, v) :: r => v.Writable ∧ EntriesWritable r

end

theorem rereads_eq_map (vs : List Value) : rereads vs = vs.map reread := by
  induction vs with
  | nil => rfl
  | cons v vs ih => simp [rereads, ih]

theorem rereadPairs_eq_map (ps : List (String × Value)) :
    rereadPairs ps = ps.map fun e => (e.1, e.2.reread) := by
  induction ps with
  | nil => rfl
  | cons e r ih => cases e; simp [rereadPairs, ih]

theorem writeAll_eq_map (layout : Layout) (level : Nat) (vs : List Value) :
    writeAll layout level vs = vs.map (writeAt layout level) := by
  induction vs with
  | nil => rfl
  | cons v vs ih => simp [writeAll, ih]

theorem writePairs_eq_map (layout : Layout) (level : Nat) (ps : List (String × Value)) :
    writePairs layout level ps = ps.map fun e => (e.1, e.2.writeAt layout level) := by
  induction ps with
  | nil => rfl
  | cons e r ih => cases e; simp [writePairs, ih]

end Value

/-! ## Mappings -/

namespace Entries

variable {α β : Type}

theorem put_map (f : α → β) (k : String) (v : α) (m : List (String × α)) :
    put k (f v) (m.map fun e => (e.1, f e.2)) = (put k v m).map fun e => (e.1, f e.2) := by
  induction m with
  | nil => rfl
  | cons e r ih =>
    simp only [List.map_cons, put]
    split
    · rfl
    · rw [List.map_cons, ih]

/-- The mapping may be made before or after its values are changed. -/
theorem ofPairs_map (f : α → β) (ps : List (String × α)) :
    ofPairs (ps.map fun e => (e.1, f e.2)) = (ofPairs ps).map fun e => (e.1, f e.2) := by
  have step (m : List (String × α)) : (ps.map fun e => (e.1, f e.2)).foldl
      (fun m e => put e.1 e.2 m) (m.map fun e => (e.1, f e.2)) =
      (ps.foldl (fun m e => put e.1 e.2 m) m).map fun e => (e.1, f e.2) := by
    induction ps generalizing m with
    | nil => rfl
    | cons e r ih =>
      simp only [List.map_cons, List.foldl_cons, put_map]
      exact ih _
  exact step []

theorem mem_put {k : String} {v : α} {m : List (String × α)} {e : String × α}
    (h : e ∈ put k v m) : e = (k, v) ∨ e ∈ m := by
  induction m with
  | nil => simpa [put] using h
  | cons a r ih =>
    unfold put at h
    split at h
    · rcases List.mem_cons.1 h with h | h
      · exact .inl h
      · exact .inr (List.mem_cons_of_mem _ h)
    · rcases List.mem_cons.1 h with rfl | h
      · exact .inr List.mem_cons_self
      · exact (ih h).imp id (List.mem_cons_of_mem _)

theorem mem_foldl_put {ps m : List (String × α)} {e : String × α}
    (h : e ∈ ps.foldl (fun m e => put e.1 e.2 m) m) : e ∈ m ∨ e ∈ ps := by
  induction ps generalizing m with
  | nil => exact .inl h
  | cons a r ih =>
    rcases ih h with h | h
    · rcases mem_put h with rfl | h
      · exact .inr List.mem_cons_self
      · exact .inl h
    · exact .inr (List.mem_cons_of_mem _ h)

/-- A mapping holds pairs that were set, and no others. -/
theorem mem_of_mem_ofPairs {ps : List (String × α)} {e : String × α} (h : e ∈ ofPairs ps) :
    e ∈ ps :=
  (mem_foldl_put h).resolve_left (by simp)

theorem put_eq_append {k : String} {v : α} {m : List (String × α)} (h : k ∉ m.map Prod.fst) :
    put k v m = m ++ [(k, v)] := by
  induction m with
  | nil => rfl
  | cons e r ih =>
    rw [List.map_cons, List.mem_cons, not_or] at h
    rw [put, if_neg (Ne.symm h.1), ih h.2, List.cons_append]

theorem foldl_put_eq_append {ps m : List (String × α)} (h : ((m ++ ps).map Prod.fst).Nodup) :
    ps.foldl (fun m e => put e.1 e.2 m) m = m ++ ps := by
  induction ps generalizing m with
  | nil => simp
  | cons e r ih =>
    have hk : e.1 ∉ m.map Prod.fst := by
      rw [List.map_append, List.nodup_append] at h
      exact fun hm => h.2.2 _ hm e.1 (by simp) rfl
    rw [List.foldl_cons, put_eq_append hk, ih (by simpa using h)]
    simp

/-- Pairs with distinct keys are a mapping as they are. -/
theorem ofPairs_eq_self {ps : List (String × α)} (h : (ps.map Prod.fst).Nodup) :
    ofPairs ps = ps :=
  foldl_put_eq_append (m := []) h

theorem nodup_keys_put {k : String} {v : α} {m : List (String × α)} (h : (m.map Prod.fst).Nodup) :
    ((put k v m).map Prod.fst).Nodup := by
  rw [keys_put]
  split
  · exact h
  · next hk => exact List.nodup_append.2 ⟨h, by simp, by rintro a ha b hb rfl; simp_all⟩

/-- Every key of a mapping occurs once. -/
theorem nodup_keys_ofPairs (ps : List (String × α)) : ((ofPairs ps).map Prod.fst).Nodup := by
  have step (m : List (String × α)) (h : (m.map Prod.fst).Nodup) :
      ((ps.foldl (fun m e => put e.1 e.2 m) m).map Prod.fst).Nodup := by
    induction ps generalizing m with
    | nil => exact h
    | cons e r ih => exact ih _ (nodup_keys_put h)
  exact step [] (by simp)

end Entries

/-! ## Blanks -/

theorem skip_cons {c : Char} (h : isBlank c = false) (r : List Char) : skip (c :: r) = c :: r := by
  simp [skip, h]

theorem skip_blank {c : Char} (h : isBlank c = true) (r : List Char) : skip (c :: r) = skip r := by
  simp [skip, h]

/-- The line break in front of an item is skipped. -/
theorem skip_newline (layout : Layout) (level : Nat) (r : List Char) :
    skip (layout.newline level ++ r) = skip r := by
  cases layout with
  | compact => rfl
  | lines width =>
    rw [Layout.newline, List.cons_append, skip_blank (by decide)]
    induction width * level with
    | zero => rfl
    | succ n ih => rw [List.replicate_succ, List.cons_append, skip_blank (by decide), ih]

/-- Behind an item stands a line break, or directly what comes next. -/
theorem stops_newline (layout : Layout) (level : Nat) {r : List Char} (hr : Stops r) :
    Stops (layout.newline level ++ r) := by
  cases layout with
  | compact => exact hr
  | lines width => exact stops_cons (by simp)

/-! ## Lists and mappings -/

section

variable {lone : Nat → Char} {s r t u : List Char} {v : Value}

theorem items_last (hv : Gives (value lone) s v r) (hr : skip r = ']' :: t) :
    Gives (items lone) s [v] t := by
  obtain ⟨h, e⟩ := hv
  have hle : t.length ≤ s.length := by
    have := length_skip_le r
    rw [hr, List.length_cons] at this
    omega
  refine ⟨hle, ?_⟩
  rw [items.eq_def]
  simp only [e]
  split
  · next hr' =>
    rw [hr] at hr'
    cases hr'
  · next c' t' hr' =>
    rw [hr] at hr'
    cases hr'
    simp

theorem items_more {vs : List Value} (hv : Gives (value lone) s v r) (hr : skip r = ',' :: t)
    (hvs : Gives (items lone) (skip t) vs u) : Gives (items lone) s (v :: vs) u := by
  obtain ⟨h, e⟩ := hv
  obtain ⟨h', e'⟩ := hvs
  have hle : u.length ≤ s.length := by
    have := length_skip_le r
    have := length_skip_le t
    rw [hr, List.length_cons] at *
    omega
  refine ⟨hle, ?_⟩
  rw [items.eq_def]
  simp only [e]
  split
  · next hr' =>
    rw [hr] at hr'
    cases hr'
  · next c' t' hr' =>
    rw [hr] at hr'
    cases hr'
    simp [e']

/-- A key, the colon behind it and a value. -/
theorem entries_last {k : String} {w q : List Char} (hk : Gives (string lone) s k w)
    (hw : Gives colon w () q) (hv : Gives (value lone) q v r) (hr : skip r = '\x7d' :: t) :
    Gives (entries lone) ('"' :: s) [(k, v)] t := by
  obtain ⟨h₁, e₁⟩ := hk
  obtain ⟨h₂, e₂⟩ := hw
  obtain ⟨h₃, e₃⟩ := hv
  have hle : t.length ≤ ('"' :: s).length := by
    have := length_skip_le r
    rw [hr] at this
    simp only [List.length_cons] at *
    omega
  refine ⟨hle, ?_⟩
  rw [entries.eq_def]
  simp only [if_true, e₁, e₂, e₃]
  split
  · next hr' =>
    rw [hr] at hr'
    cases hr'
  · next c' t' hr' =>
    rw [hr] at hr'
    cases hr'
    simp

theorem entries_more {k : String} {w q : List Char} {es : List (String × Value)}
    (hk : Gives (string lone) s k w) (hw : Gives colon w () q) (hv : Gives (value lone) q v r)
    (hr : skip r = ',' :: t) (hes : Gives (entries lone) (skip t) es u) :
    Gives (entries lone) ('"' :: s) ((k, v) :: es) u := by
  obtain ⟨h₁, e₁⟩ := hk
  obtain ⟨h₂, e₂⟩ := hw
  obtain ⟨h₃, e₃⟩ := hv
  obtain ⟨h₄, e₄⟩ := hes
  have hle : u.length ≤ ('"' :: s).length := by
    have := length_skip_le r
    have := length_skip_le t
    rw [hr] at *
    simp only [List.length_cons] at *
    omega
  refine ⟨hle, ?_⟩
  rw [entries.eq_def]
  simp only [if_true, e₁, e₂, e₃]
  split
  · next hr' =>
    rw [hr] at hr'
    cases hr'
  · next c' t' hr' =>
    rw [hr] at hr'
    cases hr'
    simp [e₄]

end

section

variable {lone : Nat → Char} {r u : List Char}

theorem value_text {t : String} (h : Gives (string lone) r t u) :
    Gives (value lone) ('"' :: r) (.text t) u := by
  obtain ⟨hle, e⟩ := h
  refine ⟨Nat.le_succ_of_le hle, ?_⟩
  rw [value.eq_def]
  simp only [if_true, e]

theorem value_emptyList (h : skip r = ']' :: u) : Gives (value lone) ('[' :: r) (.list []) u := by
  have hle := length_skip_le r
  rw [h, List.length_cons] at hle
  refine ⟨by rw [List.length_cons]; omega, ?_⟩
  rw [value.eq_def]
  simp [h]

theorem value_list {vs : List Value} (hr : (skip r).head? ≠ some ']')
    (h : Gives (items lone) (skip r) vs u) : Gives (value lone) ('[' :: r) (.list vs) u := by
  obtain ⟨hle, e⟩ := h
  have hlen := length_skip_le r
  refine ⟨by rw [List.length_cons]; omega, ?_⟩
  rw [value.eq_def]
  simp [hr, e]

theorem value_emptyMapping (h : skip r = '\x7d' :: u) :
    Gives (value lone) ('\x7b' :: r) (.keyed []) u := by
  have hle := length_skip_le r
  rw [h, List.length_cons] at hle
  refine ⟨by rw [List.length_cons]; omega, ?_⟩
  rw [value.eq_def]
  simp [h]

theorem value_mapping {es : List (String × Value)} (hr : (skip r).head? ≠ some '\x7d')
    (h : Gives (entries lone) (skip r) es u) :
    Gives (value lone) ('\x7b' :: r) (.keyed (Entries.ofPairs es)) u := by
  obtain ⟨hle, e⟩ := h
  have hlen := length_skip_le r
  refine ⟨by rw [List.length_cons]; omega, ?_⟩
  rw [value.eq_def]
  simp [hr, e]

theorem value_scalar {c : Char} {v : Value} (hc : c ≠ '"' ∧ c ≠ '[' ∧ c ≠ '\x7b')
    (h : Gives scalar (c :: r) v u) : Gives (value lone) (c :: r) v u := by
  obtain ⟨hle, e⟩ := h
  refine ⟨hle, ?_⟩
  rw [value.eq_def]
  simp only [if_neg hc.1, if_neg hc.2.1, if_neg hc.2.2, e]

end

theorem colon_written (layout : Layout) {c : Char} (hc : isBlank c = false) (r : List Char) :
    Gives colon (layout.colon ++ c :: r) () (c :: r) := by
  have hskip : skip (layout.colon ++ c :: r) = ':' :: (layout.colon.tail ++ c :: r) := by
    cases layout <;> exact skip_cons (by decide) _
  have hrest : skip (layout.colon.tail ++ c :: r) = c :: r := by
    cases layout with
    | compact => exact skip_cons hc r
    | lines width => exact (skip_blank (by decide) _).trans (skip_cons hc r)
  have hle : (c :: r).length ≤ (layout.colon ++ c :: r).length := by simp
  refine ⟨hle, ?_⟩
  unfold colon
  split
  · next h =>
    rw [hskip] at h
    cases h
  · next d t h =>
    rw [hskip] at h
    cases h
    simp [hrest]

/-! ## Values -/

/-- The text of the value is one that `value` reads back; it starts like the text of an item. -/
structure ReadsBack (lone : Nat → Char) (layout : Layout) (v : Value) : Prop where
  starts : ∀ level, ∃ c t, v.writeAt layout level = c :: t ∧ isBlank c = false ∧ c ≠ ']' ∧
    c ≠ '\ufeff'
  gives : ∀ level rest, Stops rest →
    Gives (value lone) (v.writeAt layout level ++ rest) v.reread rest

section

variable {lone : Nat → Char} {layout : Layout} {level : Nat} {rest : List Char}

theorem ReadsBack.skip_eq {v : Value} (h : ReadsBack lone layout v) (level : Nat)
    (r : List Char) : skip (v.writeAt layout level ++ r) = v.writeAt layout level ++ r := by
  obtain ⟨c, t, e, hc, -⟩ := h.starts level
  rw [e]
  exact skip_cons hc _

variable (level rest) in
/-- The items of a list behind its opening bracket, up to the closing one. -/
theorem items_written {v : Value} {vs : List Value}
    (h : ∀ w ∈ v :: vs, ReadsBack lone layout w) :
    Gives (items lone) (v.writeAt layout (level + 1) ++
      (vs.flatMap (fun w => ',' :: (layout.newline (level + 1) ++ w.writeAt layout (level + 1))) ++
        (layout.newline level ++ ']' :: rest))) (v.reread :: vs.map Value.reread) rest := by
  induction vs generalizing v with
  | nil =>
    have hstop := stops_newline layout level (stops_cons (c := ']') (r := rest) (by simp))
    refine items_last ((h v (by simp)).gives (level + 1) _ hstop) ?_
    rw [List.flatMap_nil, List.nil_append, skip_newline, skip_cons (by decide)]
  | cons w ws ih =>
    have hws := ih fun x hx => h x (List.mem_cons_of_mem _ hx)
    simp only [List.flatMap_cons, List.cons_append, List.append_assoc]
    refine items_more ((h v (by simp)).gives (level + 1) _ (stops_cons (by simp)))
      (skip_cons (by decide) _) ?_
    rw [skip_newline, (h w (by simp)).skip_eq]
    exact hws

variable (level rest) in
/-- The pairs of a mapping behind its opening brace, up to the closing one. -/
theorem entries_written {e : String × Value} {es : List (String × Value)}
    (h : ∀ a ∈ e :: es, ReadsBack lone layout a.2) :
    Gives (entries lone) (writeEntry layout (e.1, e.2.writeAt layout (level + 1)) ++
      (es.flatMap (fun a => ',' :: (layout.newline (level + 1) ++
        writeEntry layout (a.1, a.2.writeAt layout (level + 1)))) ++
        (layout.newline level ++ '\x7d' :: rest)))
      ((e.1, e.2.reread) :: es.map fun a => (a.1, a.2.reread)) rest := by
  have entry (a : String × Value) (ha : ReadsBack lone layout a.2) (r : List Char) :
      ∃ t w, writeEntry layout (a.1, a.2.writeAt layout (level + 1)) ++ r = '"' :: t ∧
        Gives (string lone) t a.1 w ∧ Gives colon w () (a.2.writeAt layout (level + 1) ++ r) := by
    obtain ⟨c, u, e, hc, -⟩ := ha.starts (level + 1)
    obtain ⟨t, ht, hs⟩ := string_written lone a.1 (layout.colon ++ c :: (u ++ r))
    refine ⟨t, _, ?_, hs, ?_⟩
    · rw [← ht, e]
      simp [writeEntry]
    · rw [e]
      exact colon_written layout hc (u ++ r)
  induction es generalizing e with
  | nil =>
    have hstop := stops_newline layout level (stops_cons (c := '\x7d') (r := rest) (by simp))
    obtain ⟨t, w, ht, hk, hcolon⟩ := entry e (h e (by simp)) (layout.newline level ++ '\x7d' :: rest)
    rw [List.flatMap_nil, List.nil_append, ht]
    refine entries_last hk hcolon ((h e (by simp)).gives (level + 1) _ hstop) ?_
    rw [skip_newline, skip_cons (by decide)]
  | cons a as ih =>
    have has := ih fun x hx => h x (List.mem_cons_of_mem _ hx)
    simp only [List.flatMap_cons, List.cons_append, List.append_assoc]
    obtain ⟨t, w, ht, hk, hcolon⟩ := entry e (h e (by simp)) (',' :: (layout.newline (level + 1) ++
      (writeEntry layout (a.1, a.2.writeAt layout (level + 1)) ++
      (as.flatMap (fun a => ',' :: (layout.newline (level + 1) ++
        writeEntry layout (a.1, a.2.writeAt layout (level + 1)))) ++
        (layout.newline level ++ '\x7d' :: rest)))))
    rw [ht]
    refine entries_more hk hcolon ((h e (by simp)).gives (level + 1) _ (stops_cons (by simp)))
      (skip_cons (by decide) _) ?_
    have hskip : isBlank '"' = false := by decide
    rw [skip_newline]
    obtain ⟨t', w', ht', -, -⟩ := entry a (h a (by simp))
      (as.flatMap (fun a => ',' :: (layout.newline (level + 1) ++
        writeEntry layout (a.1, a.2.writeAt layout (level + 1)))) ++
        (layout.newline level ++ '\x7d' :: rest))
    rw [ht'] at has ⊢
    rw [skip_cons hskip]
    exact has

/-- A list is read back if its items are. -/
theorem readsBack_items {items : List Value} (h : ∀ v ∈ items, ReadsBack lone layout v)
    {u : Value} (hw : ∀ level, u.writeAt layout level =
      bracketed layout level '[' ']' (items.map (Value.writeAt layout (level + 1))))
    (hr : u.reread = .list (items.map Value.reread)) : ReadsBack lone layout u := by
  refine ⟨fun level => ?_, fun level rest hrest => ?_⟩
  · rw [hw]
    cases items <;> exact ⟨'[', _, rfl, by decide, by decide, by decide⟩
  · rw [hw, hr]
    cases items with
    | nil => exact value_emptyList (skip_cons (by decide) rest)
    | cons v vs =>
      obtain ⟨c, t, e, hc, hne, -⟩ := (h v (by simp)).starts (level + 1)
      have hitems := items_written level rest h
      simp only [List.map_cons, bracketed, List.flatMap_map, List.cons_append, List.append_assoc,
        List.nil_append]
      refine value_list ?_ ?_
      · rw [skip_newline, e, List.cons_append, skip_cons hc]
        simpa using hne
      · rw [skip_newline, (h v (by simp)).skip_eq]
        exact hitems

/-- A mapping is read back if the values in it are. -/
theorem readsBack_entries {es : List (String × Value)}
    (h : ∀ e ∈ es, ReadsBack lone layout e.2) {u : Value} (hw : ∀ level, u.writeAt layout level =
      bracketed layout level '\x7b' '\x7d' ((Entries.ofPairs
        (es.map fun e => (e.1, e.2.writeAt layout (level + 1)))).map (writeEntry layout)))
    (hr : u.reread = .keyed (Entries.ofPairs (es.map fun e => (e.1, e.2.reread)))) :
    ReadsBack lone layout u := by
  refine ⟨fun level => ?_, fun level rest hrest => ?_⟩
  · rw [hw]
    generalize List.map _ _ = ts
    cases ts <;> exact ⟨'\x7b', _, rfl, by decide, by decide, by decide⟩
  · rw [hw, hr, Entries.ofPairs_map (fun v : Value => v.writeAt layout (level + 1)),
      Entries.ofPairs_map Value.reread]
    -- what is written has every key once, so that reading it makes the same mapping again
    have hkeys := Entries.nodup_keys_ofPairs es
    have hmem : ∀ e ∈ Entries.ofPairs es, ReadsBack lone layout e.2 := fun e he =>
      h e (Entries.mem_of_mem_ofPairs he)
    generalize Entries.ofPairs es = ms at hkeys hmem
    have hself : Entries.ofPairs (ms.map fun e => (e.1, e.2.reread)) =
        ms.map fun e => (e.1, e.2.reread) := by
      refine Entries.ofPairs_eq_self ?_
      rw [List.map_map]
      exact hkeys
    cases ms with
    | nil => exact value_emptyMapping (skip_cons (by decide) rest)
    | cons e es =>
      have hentries := entries_written level rest hmem
      obtain ⟨t, ht⟩ : ∃ t, ∀ r, writeEntry layout (e.1, e.2.writeAt layout (level + 1)) ++ r =
          '"' :: (t ++ r) := ⟨_, fun r => rfl⟩
      rw [← hself]
      simp only [List.map_cons, bracketed, List.flatMap_map, List.cons_append, List.append_assoc,
        List.nil_append]
      refine value_mapping ?_ ?_
      · rw [skip_newline, ht, skip_cons (by decide)]
        simp
      · rw [skip_newline, ht, skip_cons (by decide), ← ht]
        exact hentries

theorem readsBack_text (t : String) : ReadsBack lone layout (.text t) := by
  refine ⟨fun level => ⟨'"', _, rfl, by decide, by decide, by decide⟩, fun level rest _ => ?_⟩
  obtain ⟨u, hu, hs⟩ := string_written lone t rest
  rw [Value.writeAt, hu]
  exact value_text hs

theorem readsBack_int {n : Int} (hn : (Decimal.digits n.natAbs).length ≤ maxDigits) :
    ReadsBack lone layout (.int n) := by
  obtain ⟨c, r, e, hc⟩ : ∃ c r, (Decimal.intText n).toList = c :: r ∧
      (c = '-' ∨ c.isDigit = true) := by
    obtain ⟨c, r, e, hc, -⟩ := digits_eq n.natAbs
    rw [intText_toList, e]
    split
    · exact ⟨'-', _, rfl, .inl rfl⟩
    · exact ⟨c, r, rfl, .inr hc⟩
  have hne {d : Char} (hd : d.isDigit = false) (hm : d ≠ '-') : c ≠ d := by
    rintro rfl
    rcases hc with hc | hc
    · exact hm hc
    · rw [hc] at hd
      cases hd
  have hblank : isBlank c = false := by
    have h₁ : c ≠ ' ' := hne (by decide) (by decide)
    have h₂ : c ≠ '\t' := hne (by decide) (by decide)
    have h₃ : c ≠ '\n' := hne (by decide) (by decide)
    have h₄ : c ≠ '\r' := hne (by decide) (by decide)
    simp [isBlank, h₁, h₂, h₃, h₄]
  refine ⟨fun level => ⟨c, r, e, hblank, hne (by decide) (by decide), hne (by decide) (by decide)⟩,
    fun level rest hrest => ?_⟩
  have h := scalar_intText n hn hrest
  rw [Value.writeAt, e] at *
  exact value_scalar ⟨hne (by decide) (by decide), hne (by decide) (by decide),
    hne (by decide) (by decide)⟩ h

/-- A word that stands for a value is read back. -/
theorem readsBack_word {v : Value} {c : Char} {w : List Char} (hc : isBlank c = false)
    (hne : c ≠ ']' ∧ c ≠ '\ufeff') (hv : c ≠ '"' ∧ c ≠ '[' ∧ c ≠ '\x7b')
    (hw : ∀ level, v.writeAt layout level = c :: w) (hr : v.reread = v)
    (hs : ∀ rest, Gives scalar (c :: (w ++ rest)) v rest) : ReadsBack lone layout v := by
  refine ⟨fun level => ⟨c, w, hw level, hc, hne⟩, fun level rest _ => ?_⟩
  rw [hw, hr]
  exact value_scalar hv (hs rest)

theorem readsBack_null : ReadsBack lone layout .null :=
  readsBack_word (c := 'n') (by decide) (by decide) (by decide) (fun _ => rfl) rfl fun rest =>
    ⟨by simp; omega, by simp [scalar, words]⟩

theorem readsBack_bool (b : Bool) : ReadsBack lone layout (.bool b) := by
  cases b with
  | true =>
    exact readsBack_word (c := 't') (by decide) (by decide) (by decide) (fun _ => rfl) rfl fun rest =>
      ⟨by simp; omega, by simp [scalar, words]⟩
  | false =>
    exact readsBack_word (c := 'f') (by decide) (by decide) (by decide) (fun _ => rfl) rfl fun rest =>
      ⟨by simp; omega, by simp [scalar, words]⟩

mutual

theorem Value.readsBack (v : Value) (h : v.Writable) : ReadsBack lone layout v := by
  match v with
  | .null => exact readsBack_null
  | .bool b => exact readsBack_bool b
  | .int n => exact readsBack_int h
  | .double d => exact h.elim
  | .text t => exact readsBack_text t
  | .list vs =>
    exact readsBack_items (Value.readsBack_of_all vs h)
      (fun level => by rw [Value.writeAt, Value.writeAll_eq_map])
      (by rw [Value.reread, Value.rereads_eq_map])
  | .tuple vs =>
    exact readsBack_items (Value.readsBack_of_all vs h)
      (fun level => by rw [Value.writeAt, Value.writeAll_eq_map])
      (by rw [Value.reread, Value.rereads_eq_map])
  | .keyed es =>
    exact readsBack_entries (Value.readsBack_of_entries es h)
      (fun level => by rw [Value.writeAt, Value.writePairs_eq_map])
      (by rw [Value.reread, Value.rereadPairs_eq_map])
  | .ordered es =>
    exact readsBack_entries (Value.readsBack_of_entries es h)
      (fun level => by rw [Value.writeAt, Value.writePairs_eq_map])
      (by rw [Value.reread, Value.rereadPairs_eq_map])

theorem Value.readsBack_of_all (vs : List Value) (h : Value.AllWritable vs) :
    ∀ v ∈ vs, ReadsBack lone layout v := by
  match vs with
  | [] => simp
  | v :: vs =>
    rintro w (_ | ⟨_, hw⟩)
    · exact v.readsBack h.1
    · exact Value.readsBack_of_all vs h.2 w hw

theorem Value.readsBack_of_entries (es : List (String × Value)) (h : Value.EntriesWritable es) :
    ∀ e ∈ es, ReadsBack lone layout e.2 := by
  match es with
  | [] => simp
  | (k, v) :: es =>
    rintro e (_ | ⟨_, he⟩)
    · exact v.readsBack h.1
    · exact Value.readsBack_of_entries es h.2 e he

end

end

/-! ## Texts -/

theorem Value.readUnmarked_of_gives {lone : Nat → Char} {s : List Char} {v : Value}
    (h : Gives (value lone) (skip s) v []) : Value.readUnmarked lone s = .ok v := by
  obtain ⟨hle, e⟩ := h
  rw [Value.readUnmarked, e]
  rfl

/-- **A written value is read back**, whatever the indent. -/
theorem Value.readKeeping_write (lone : Nat → Char) (v : Value) (hv : v.Writable)
    (indent : Option Int) :
    Value.readKeeping lone (v.write indent).toList = .ok v.reread := by
  have h : ReadsBack lone (Layout.ofIndent indent) v := v.readsBack hv
  obtain ⟨c, t, e, hc, -, hmark⟩ := h.starts 0
  have hgives := h.gives 0 [] stops_nil
  rw [List.append_nil] at hgives
  have hskip : skip (v.writeAt (.ofIndent indent) 0) = v.writeAt (.ofIndent indent) 0 := by
    rw [e]
    exact skip_cons hc t
  rw [Value.write, String.toList_ofList, Value.readKeeping, if_neg (by simp [e, hmark])]
  exact Value.readUnmarked_of_gives (by rwa [hskip])

end ContractInterface.Json
