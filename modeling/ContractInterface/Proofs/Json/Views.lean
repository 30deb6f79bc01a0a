import ContractInterface.Proofs.Json.Plain

/-!
# Views of a sequence of pairs

The values of a sequence of pairs are looked up by key (`Value.get?`), stand in its mapping
(`Value.plain`) and are read from its text.  All three know the same keys.  They part in two places:

    a repeated key      looking up finds its first value, the mapping has its last one
    below a mapping     the text writes sequences of pairs and tuples as objects and lists,
                        the mapping leaves them as they are

So a text is read as the mapping exactly if that is plain throughout:

    v.wellKeyed → (v.reread = v.plain ↔ v.plain.isPlain)                     (reread_eq_plain_iff)
-/

namespace ContractInterface

open Json

/-! ## First and last values -/

namespace Json.Entries

variable {α : Type}

theorem isSome_lookup_iff {ps : List (String × α)} {k : String} :
    (ps.lookup k).isSome ↔ k ∈ ps.map Prod.fst := by
  induction ps with
  | nil => simp
  | cons e ps ih =>
    obtain ⟨a, v⟩ := e
    rw [List.lookup_cons, List.map_cons, List.mem_cons, ← ih]
    by_cases h : k = a
    · simp [h]
    · have hne : (k == a) = false := by simpa using h
      simp [h, hne]

/-- A key that is not repeated has one value. -/
theorem lookup_reverse {ps : List (String × α)} {k : String} {v : α} (h : ps.lookup k = some v)
    (hcount : (ps.map Prod.fst).count k = 1) : ps.reverse.lookup k = some v := by
  obtain ⟨us, vs, rfl, hus⟩ := List.lookup_eq_some_iff.1 h
  have hvs : k ∉ vs.map Prod.fst := by
    rw [List.map_append, List.map_cons, List.count_append, List.count_cons_self] at hcount
    rw [← List.count_eq_zero]
    omega
  have hbehind : vs.reverse.lookup k = none := by
    rw [← Option.not_isSome_iff_eq_none, isSome_lookup_iff, List.map_reverse, List.mem_reverse]
    exact hvs
  rw [List.reverse_append, List.reverse_cons, List.append_assoc, List.lookup_append, hbehind]
  simp

end Json.Entries

namespace Json.Value

/-! ## Values inside a value -/

/-- The values that a value holds. -/
def children : Value → List Value
  | list items | tuple items => items
  | keyed entries | ordered entries => entries.map Prod.snd
  | _ => []

theorem sizeOf_lt_of_mem_children {v w : Value} (h : w ∈ v.children) : sizeOf w < sizeOf v := by
  have hentry {es : List (String × Value)} (h : w ∈ es.map Prod.snd) : sizeOf w < sizeOf es := by
    obtain ⟨⟨k, x⟩, he, rfl⟩ := List.mem_map.1 h
    have hlt := List.sizeOf_lt_of_mem he
    rw [Prod.mk.sizeOf_spec] at hlt
    show sizeOf x < sizeOf es
    omega
  cases v with
  | list items | tuple items =>
    have hlt : sizeOf w < sizeOf items := List.sizeOf_lt_of_mem h
    simp only [list.sizeOf_spec, tuple.sizeOf_spec]
    omega
  | keyed es | ordered es =>
    have hlt := hentry h
    simp only [keyed.sizeOf_spec, ordered.sizeOf_spec]
    omega
  | _ => cases h

/-- What passes from the values that a value holds to the value itself holds of every value. -/
theorem induct_children {motive : Value → Prop}
    (step : ∀ v : Value, (∀ w ∈ v.children, motive w) → motive v) (v : Value) : motive v :=
  step v fun w hw =>
    have := sizeOf_lt_of_mem_children hw
    induct_children step w
termination_by sizeOf v

mutual

/-- The test holds of the value and of every value in it. -/
def everywhere (p : Value → Bool) : Value → Bool
  | list items => p (list items) && allEverywhere p items
  | tuple items => p (tuple items) && allEverywhere p items
  | keyed entries => p (keyed entries) && entriesEverywhere p entries
  | ordered pairs => p (ordered pairs) && entriesEverywhere p pairs
  | v => p v

def allEverywhere (p : Value → Bool) : List Value → Bool
  | [] => true
  | v :: vs => v.everywhere p && allEverywhere p vs

def entriesEverywhere (p : Value → Bool) : List (String × Value) → Bool
  | [] => true
  | (_, v) :: r => v.everywhere p && entriesEverywhere p r

end

theorem allEverywhere_iff {p : Value → Bool} {vs : List Value} :
    allEverywhere p vs = true ↔ ∀ w ∈ vs, w.everywhere p = true := by
  induction vs with
  | nil => simp [allEverywhere]
  | cons v vs ih => simp [allEverywhere, ih]

theorem entriesEverywhere_iff {p : Value → Bool} {es : List (String × Value)} :
    entriesEverywhere p es = true ↔ ∀ w ∈ es.map Prod.snd, w.everywhere p = true := by
  induction es with
  | nil => simp [entriesEverywhere]
  | cons e es ih =>
    rw [entriesEverywhere, Bool.and_eq_true, ih, List.map_cons, List.forall_mem_cons]

theorem everywhere_iff {p : Value → Bool} {v : Value} :
    v.everywhere p = true ↔ p v = true ∧ ∀ w ∈ v.children, w.everywhere p = true := by
  cases v with
  | list items | tuple items => rw [everywhere, Bool.and_eq_true, allEverywhere_iff, children]
  | keyed es | ordered es => rw [everywhere, Bool.and_eq_true, entriesEverywhere_iff, children]
  | _ => simp [everywhere, children]

/-- Every mapping in the value has each of its keys once. -/
def wellKeyed (v : Value) : Bool :=
  v.everywhere fun
    | keyed entries => decide (entries.map Prod.fst).Nodup
    | _ => true

/-- No sequence of pairs and no tuple stands in the value, at any depth. -/
def isPlain (v : Value) : Bool :=
  v.everywhere fun
    | tuple _ | ordered _ => false
    | _ => true

/-- No sequence of pairs and no tuple stands below a mapping in the value. -/
def plainBelowMappings (v : Value) : Bool :=
  v.everywhere fun
    | keyed entries => entries.all fun e => e.2.isPlain
    | _ => true

/-! ## Values read back -/

/-- Whether a value is written or its mapping makes no difference. -/
theorem reread_plain (v : Value) : v.plain.reread = v.reread := by
  induction v using induct_children with
  | step v ih =>
    cases v with
    | list items | tuple items =>
      rw [plain, reread, reread, plains_eq_map, rereads_eq_map, rereads_eq_map, List.map_map]
      exact congrArg list (List.map_congr_left ih)
    | ordered pairs =>
      have hvalues : (plainPairs pairs).map (fun e => (e.1, e.2.reread)) = rereadPairs pairs := by
        rw [plainPairs_eq_map, rereadPairs_eq_map, List.map_map]
        refine List.map_congr_left fun e he => ?_
        exact congrArg (e.1, ·) (ih e.2 (List.mem_map_of_mem he))
      have honce := Entries.ofPairs_eq_self (Entries.nodup_keys_ofPairs (rereadPairs pairs))
      rw [plain, reread, reread, rereadPairs_eq_map, ← Entries.ofPairs_map reread, hvalues, honce]
    | _ => rfl

section

variable {p : Value → Bool} {f : Value → Value}

/-- What a test finds of changed items, it finds of the list of them. -/
theorem everywhere_map {vs : List Value} (hp : p (list (vs.map f)) = true)
    (h : ∀ w ∈ vs, (f w).everywhere p = true) : (list (vs.map f)).everywhere p = true := by
  refine everywhere_iff.2 ⟨hp, fun w hw => ?_⟩
  obtain ⟨x, hx, rfl⟩ := List.mem_map.1 hw
  exact h x hx

/-- What a test finds of changed values, it finds of the mapping that is made of them. -/
theorem everywhere_ofPairs {ps : List (String × Value)}
    (hp : p (keyed (Entries.ofPairs (ps.map fun e => (e.1, f e.2)))) = true)
    (h : ∀ w ∈ ps.map Prod.snd, (f w).everywhere p = true) :
    (keyed (Entries.ofPairs (ps.map fun e => (e.1, f e.2)))).everywhere p = true := by
  refine everywhere_iff.2 ⟨hp, fun w hw => ?_⟩
  obtain ⟨e, he, rfl⟩ := List.mem_map.1 hw
  obtain ⟨a, ha, rfl⟩ := List.mem_map.1 (Entries.mem_of_mem_ofPairs he)
  exact h a.2 (List.mem_map_of_mem ha)

end

/-- What is read back is plain. -/
theorem isPlain_reread (v : Value) : v.reread.isPlain = true := by
  induction v using induct_children with
  | step v ih =>
    cases v with
    | list items | tuple items =>
      rw [reread, rereads_eq_map]
      exact everywhere_map rfl ih
    | keyed es | ordered es =>
      rw [reread, rereadPairs_eq_map]
      exact everywhere_ofPairs rfl ih
    | _ => rfl

/-- A plain value is read back as it is. -/
theorem reread_eq_self {v : Value} (h : v.isPlain = true) (hk : v.wellKeyed = true) :
    v.reread = v := by
  induction v using induct_children with
  | step v ih =>
    obtain ⟨here, hplain⟩ := everywhere_iff.1 h
    obtain ⟨hkeys, hkeyed⟩ := everywhere_iff.1 hk
    cases v with
    | list items =>
      have hsame : items.map reread = items.map id :=
        List.map_congr_left fun w hw => ih w hw (hplain w hw) (hkeyed w hw)
      rw [reread, rereads_eq_map, hsame, List.map_id]
    | keyed es =>
      have hsame : es.map (fun e => (e.1, e.2.reread)) = es.map id := by
        refine List.map_congr_left fun e he => ?_
        have hvalue := List.mem_map_of_mem (f := Prod.snd) he
        exact congrArg (e.1, ·) (ih e.2 hvalue (hplain e.2 hvalue) (hkeyed e.2 hvalue))
      rw [reread, rereadPairs_eq_map, hsame, List.map_id,
        Entries.ofPairs_eq_self (of_decide_eq_true hkeys)]
    | tuple items | ordered pairs => cases here
    | _ => rfl

/-! ## Mappings of values -/

theorem wellKeyed_plain {v : Value} (h : v.wellKeyed = true) : v.plain.wellKeyed = true := by
  induction v using induct_children with
  | step v ih =>
    have hdeeper (w : Value) (hw : w ∈ v.children) : w.plain.wellKeyed = true :=
      ih w hw ((everywhere_iff.1 h).2 w hw)
    cases v with
    | list items | tuple items =>
      rw [plain, plains_eq_map]
      exact everywhere_map rfl hdeeper
    | ordered pairs =>
      rw [plain, plainPairs_eq_map]
      exact everywhere_ofPairs (decide_eq_true (Entries.nodup_keys_ofPairs _)) hdeeper
    | _ => exact h

/-- Where nothing but plain values stands below mappings, the mapping of a value is plain. -/
theorem isPlain_plain {v : Value} (h : v.plainBelowMappings = true) : v.plain.isPlain = true := by
  induction v using induct_children with
  | step v ih =>
    obtain ⟨here, hbelow⟩ := everywhere_iff.1 h
    have hdeeper (w : Value) (hw : w ∈ v.children) : w.plain.isPlain = true :=
      ih w hw (hbelow w hw)
    cases v with
    | list items | tuple items =>
      rw [plain, plains_eq_map]
      exact everywhere_map rfl hdeeper
    | ordered pairs =>
      rw [plain, plainPairs_eq_map]
      exact everywhere_ofPairs rfl hdeeper
    | keyed es =>
      refine everywhere_iff.2 ⟨rfl, fun w hw => ?_⟩
      obtain ⟨e, he, rfl⟩ := List.mem_map.1 hw
      exact List.all_eq_true.1 here e he
    | _ => rfl

/-- **A value is read back as its mapping exactly if that is plain.** -/
theorem reread_eq_plain_iff {v : Value} (h : v.wellKeyed = true) :
    v.reread = v.plain ↔ v.plain.isPlain = true := by
  constructor
  · intro heq
    rw [← heq]
    exact isPlain_reread v
  · intro hplain
    rw [← reread_plain v]
    exact reread_eq_self hplain (wellKeyed_plain h)

end Json.Value

/-! ## The views -/

/-- The text of a sequence of pairs is read. -/
theorem loadKeeping_write_reread (lone : Nat → Char) {pairs : List (String × Value)}
    (h : (Value.ordered pairs).Writable) (indent : Option Int) :
    InterfaceText.loadKeeping lone (.text ((Value.ordered pairs).write indent)) =
      .ok (Value.ordered pairs).reread := by
  rw [InterfaceText.loadKeeping, Value.readKeeping_write lone _ h indent]
  rfl

/-- **What the views of a sequence of pairs have in common.**  They know the same keys.  Under each
key looking up finds the first value and the mapping has the last one, made plain; that is the same
value unless the key is repeated.  The text is read as a plain value, which is the mapping exactly if
the mapping is plain; and it is, unless a sequence of pairs or a tuple stands below a mapping. -/
theorem views_of_pairs (lone : Nat → Char) (pairs : List (String × Value))
    (hwritable : (Value.ordered pairs).Writable) (hkeyed : (Value.ordered pairs).wellKeyed = true) :
    (∀ k, ((Value.ordered pairs).get? k).isSome ↔ k ∈ (Value.ordered pairs).plain.keys) ∧
      (∀ k v, (Value.ordered pairs).get? k = some v → ∃ last, pairs.reverse.lookup k = some last ∧
        (Value.ordered pairs).plain.get? k = some last.plain ∧
        ((Value.ordered pairs).keys.count k = 1 → last = v)) ∧
      (∃ t read, (Value.ordered pairs).writeWithin none = .ok t ∧
        InterfaceText.loadKeeping lone (.text t) = .ok read ∧ read.isPlain = true ∧
        (read = (Value.ordered pairs).plain ↔ (Value.ordered pairs).plain.isPlain = true)) ∧
      ((Value.ordered pairs).plainBelowMappings = true →
        (Value.ordered pairs).plain.isPlain = true) := by
  obtain ⟨entries, hentries, hkeys, hlookup⟩ := Value.plain_ordered pairs
  have hknown (k : String) :
      ((Value.ordered pairs).get? k).isSome ↔ k ∈ (Value.ordered pairs).plain.keys := by
    rw [hentries, Value.keys, hkeys, List.mem_eraseDups]
    exact Entries.isSome_lookup_iff
  refine ⟨hknown, fun k v hv => ?_, ?_, Value.isPlain_plain⟩
  · have hsome : (pairs.reverse.lookup k).isSome := by
      rw [Entries.isSome_lookup_iff, List.map_reverse, List.mem_reverse, ← Entries.isSome_lookup_iff]
      exact Option.isSome_of_eq_some hv
    obtain ⟨last, hlast⟩ := Option.isSome_iff_exists.1 hsome
    have hplain : (Value.ordered pairs).plain.get? k = some last.plain := by
      rw [hentries, Value.get?, hlookup, hlast, Option.map_some]
    refine ⟨last, hlast, hplain, fun hcount => ?_⟩
    rw [Entries.lookup_reverse hv hcount] at hlast
    exact (Option.some.inj hlast).symm
  · exact ⟨_, _, rfl, loadKeeping_write_reread lone hwritable none, Value.isPlain_reread _,
      Value.reread_eq_plain_iff hkeyed⟩

/-- A repeated key, and a sequence of pairs below a mapping. -/
theorem views_of_pairs_nested :
    let pairs := [("x", Value.tuple [.null]), ("y", .keyed [("z", .ordered [])]), ("x", .text "s")]
    (Value.ordered pairs).Writable ∧ (Value.ordered pairs).wellKeyed = true ∧
      (Value.ordered pairs).get? "x" = some (.tuple [.null]) ∧
      (Value.ordered pairs).plain.get? "x" = some (.text "s") ∧
      ∃ t read, (Value.ordered pairs).writeWithin none = .ok t ∧
        InterfaceText.load (.text t) = .ok read ∧ read ≠ (Value.ordered pairs).plain := by
  intro pairs
  have hwritable : (Value.ordered pairs).Writable :=
    ⟨⟨trivial, trivial⟩, ⟨trivial, trivial⟩, trivial, trivial⟩
  have hkeyed : (Value.ordered pairs).wellKeyed = true := by decide
  have hplain : ¬(Value.ordered pairs).plain.isPlain = true := by decide
  obtain ⟨-, hvalues, ⟨t, read, hwrite, hload, -, hread⟩, -⟩ :=
    views_of_pairs Text.replaced pairs hwritable hkeyed
  obtain ⟨last, hlast, hget, -⟩ := hvalues "x" _ rfl
  obtain rfl : Value.text "s" = last := Option.some.inj hlast
  exact ⟨hwritable, hkeyed, rfl, hget, t, read, hwrite, hload, mt hread.1 hplain⟩

/-- With a repeated key looking up and the mapping differ; with a sequence of pairs below a mapping
the mapping is not plain, and not what the text is read as. -/
theorem not_views_agree :
    (¬∀ pairs : List (String × Value), (Value.ordered pairs).Writable →
      (Value.ordered pairs).wellKeyed = true → ∀ k v, (Value.ordered pairs).get? k = some v →
        (Value.ordered pairs).plain.get? k = some v.plain) ∧
      (¬∀ pairs : List (String × Value), (Value.ordered pairs).Writable →
        (Value.ordered pairs).wellKeyed = true → (Value.ordered pairs).plain.isPlain = true) ∧
      ¬∀ pairs : List (String × Value), (Value.ordered pairs).Writable →
        (Value.ordered pairs).wellKeyed = true →
        ∀ t, (Value.ordered pairs).writeWithin none = .ok t →
          InterfaceText.load (.text t) = .ok (Value.ordered pairs).plain := by
  let repeated := [("a", Value.bool true), ("a", .bool false)]
  let below := [("x", Value.keyed [("y", .ordered [])])]
  have hrepeated : (Value.ordered repeated).Writable := ⟨trivial, trivial, trivial⟩
  have hbelow : (Value.ordered below).Writable := ⟨⟨trivial, trivial⟩, trivial⟩
  have hplain : ¬(Value.ordered below).plain.isPlain = true := by decide
  refine ⟨fun h => ?_, fun h => ?_, fun h => ?_⟩
  · have hsame := h repeated hrepeated (by decide) "a" (.bool true) rfl
    cases hsame
  · exact hplain (h below hbelow (by decide))
  · have hload := h below hbelow (by decide) _ rfl
    have hread := loadKeeping_write_reread Text.replaced hbelow none
    have hsame := Except.ok.inj (hread.symm.trans hload)
    exact hplain ((Value.reread_eq_plain_iff (by decide)).1 hsame)

end ContractInterface
