import ContractInterface.Proofs.Description

/-!
# What a stub asks of a description

A stub can be told from a value exactly if the value is a description (`IsDescription`).  Otherwise
the first thing asked for that is not there is blamed, at the place where it was asked for: a
`Spot` is a place of a description, `asks includeTypes v` lists what is asked of `v`, in order.

    (∃ s, Stub.ofValue includeTypes v = .ok s) ↔ IsDescription includeTypes v
    Stub.ofValue includeTypes v = .error m ↔ FirstFault v (asks includeTypes v) m    (ofValue_spec)
-/

namespace ContractInterface

open Json (Value)

/-! ## The schema -/

/-- The value is an object with `w` under the key. -/
def Json.Value.Holds (v : Value) (key : String) (w : Value) : Prop :=
  ∃ es, v = .keyed es ∧ es.lookup key = some w

def Json.Value.HoldsText (v : Value) (key : String) : Prop := ∃ s, v.Holds key (.text s)

/-- The value is an object with a list of such items under the key. -/
def Json.Value.HoldsList (v : Value) (key : String) (Item : Value → Prop) : Prop :=
  ∃ items, v.Holds key (.list items) ∧ ∀ w ∈ items, Item w

structure IsFunction (v : Value) : Prop where
  name : v.HoldsText "name"
  arguments : v.HoldsList "arguments" fun a => a.HoldsText "type"
  type : v.HoldsText "type"

structure IsTypeDef (v : Value) : Prop where
  name : v.HoldsText "name"
  vars : v.HoldsList "vars" fun a => a.HoldsText "name"
  body : v.HoldsText "typedef"

/-- The definitions of types count only where they are included. -/
structure IsContract (includeTypes : Bool) (v : Value) : Prop where
  name : v.HoldsText "name"
  typeDefs : v.HoldsList "type_defs" fun t => includeTypes = true → IsTypeDef t
  functions : v.HoldsList "functions" IsFunction

def IsDescription (includeTypes : Bool) (v : Value) : Prop :=
  ∃ c, v.Holds "contract" c ∧ IsContract includeTypes c

/-! ## Places -/

/-- The part of a value that a path leads to. -/
def Json.Value.follow? : Value → Path → Option Value
  | v, [] => some v
  | .keyed es, .key k :: p => (es.lookup k).bind (follow? · p)
  | .list vs, .index i :: p => vs[i]?.bind (follow? · p)
  | _, _ :: _ => none

/-- A place of a description. -/
inductive Spot where
  | root
  | contract
  | typeDef (i : Nat)
  | typeVar (i j : Nat)
  | function (i : Nat)
  | argument (i j : Nat)

namespace Spot

def path : Spot → Path
  | root => []
  | contract => [.key "contract"]
  | typeDef i => [.key "contract", .key "type_defs", .index i]
  | typeVar i j => [.key "contract", .key "type_defs", .index i, .key "vars", .index j]
  | function i => [.key "contract", .key "functions", .index i]
  | argument i j => [.key "contract", .key "functions", .index i, .key "arguments", .index j]

/-- The place in words. -/
def text : Spot → String
  | root => "$"
  | contract => "contract"
  | typeDef i => s!"contract.type_defs[{i}]"
  | typeVar i j => s!"contract.type_defs[{i}].vars[{j}]"
  | function i => s!"contract.functions[{i}]"
  | argument i j => s!"contract.functions[{i}].arguments[{j}]"

/-- Places are reported in words. -/
theorem text_path (s : Spot) : s.path.text = s.text := by
  have hkey (k : String) (p : Path) :
      Path.text (.key k :: p) = k ++ String.join (p.map PathStep.text) := rfl
  cases s with
  | root | contract => rfl
  | _ =>
    apply String.toList_inj.1
    unfold path text
    simp only [hkey, List.map_cons, List.map_nil, PathStep.text, String.toList_append,
      String.toList_join, List.flatMap_cons, List.flatMap_nil, List.append_assoc]
    rfl

end Spot

/-! ## What is asked -/

/-- What may stand under a key. -/
inductive Wish where
  | any
  | aText
  | aList

def Wish.Admits : Wish → Value → Prop
  | any, _ => True
  | aText, w => ∃ s, w = .text s
  | aList, w => ∃ items, w = .list items

/-- The object at a place should have such a value under the key. -/
structure Ask where
  spot : Spot
  key : String
  wish : Wish

/-- What is asked at a place, in order. -/
def Spot.asks : Spot → List Ask
  | root => [⟨root, "contract", .any⟩]
  | contract => [⟨contract, "name", .aText⟩, ⟨contract, "type_defs", .aList⟩,
      ⟨contract, "functions", .aList⟩]
  | typeDef i => [⟨typeDef i, "name", .aText⟩, ⟨typeDef i, "vars", .aList⟩,
      ⟨typeDef i, "typedef", .aText⟩]
  | typeVar i j => [⟨typeVar i j, "name", .aText⟩]
  | function i => [⟨function i, "name", .aText⟩, ⟨function i, "arguments", .aList⟩,
      ⟨function i, "type", .aText⟩]
  | argument i j => [⟨argument i j, "type", .aText⟩]

/-- How many items the list under the key of the object at a place has. -/
def Json.Value.count (v : Value) (spot : Spot) (key : String) : Nat :=
  match v.follow? (spot.path ++ [.key key]) with
  | some (.list items) => items.length
  | _ => 0

/-- A definition of a type, and its variables from left to right. -/
def typeDefAsks (v : Value) (i : Nat) : List Ask :=
  (Spot.typeDef i).asks ++
    (List.range (v.count (.typeDef i) "vars")).flatMap fun j => (Spot.typeVar i j).asks

/-- A function, and its arguments from left to right. -/
def functionAsks (v : Value) (i : Nat) : List Ask :=
  (Spot.function i).asks ++
    (List.range (v.count (.function i) "arguments")).flatMap fun j => (Spot.argument i j).asks

/-- The contract, the definitions of types if they are included, and the functions. -/
def contractAsks (includeTypes : Bool) (v : Value) : List Ask :=
  Spot.contract.asks ++
    ((if includeTypes then
        (List.range (v.count .contract "type_defs")).flatMap (typeDefAsks v)
      else []) ++
      (List.range (v.count .contract "functions")).flatMap (functionAsks v))

/-- All that is asked of a description, in order. -/
def asks (includeTypes : Bool) (v : Value) : List Ask :=
  Spot.root.asks ++ contractAsks includeTypes v

/-- What is asked for is there. -/
def Ask.Met (a : Ask) (v : Value) : Prop :=
  ∃ o w, v.follow? a.spot.path = some o ∧ o.Holds a.key w ∧ a.wish.Admits w

/-- What is wrong with a value that a wish does not admit. -/
inductive Wish.Refuses : Wish → Value → Malformation → Prop
  | notAText {w : Value} (h : ∀ s, w ≠ .text s) : Refuses .aText w .notAText
  | notAList {w : Value} (h : ∀ items, w ≠ .list items) : Refuses .aList w .notAList

/-- The place is there, but what is asked for is not, and this is what is wrong. -/
inductive Ask.Blames (a : Ask) (v : Value) : Malformed → Prop
  | notAnObject {o : Value} (ho : v.follow? a.spot.path = some o) (h : ∀ es, o ≠ .keyed es) :
      Blames a v ⟨"", a.spot.path, .notAnObject⟩
  | missing {es : List (String × Value)} (ho : v.follow? a.spot.path = some (.keyed es))
      (h : es.lookup a.key = none) : Blames a v ⟨a.key, a.spot.path, .missing⟩
  | refused {o w : Value} {problem : Malformation} (ho : v.follow? a.spot.path = some o)
      (hw : o.Holds a.key w) (h : a.wish.Refuses w problem) :
      Blames a v ⟨a.key, a.spot.path, problem⟩

/-- This is wrong with the first thing asked for that is not there. -/
inductive FirstFault (v : Value) : List Ask → Malformed → Prop
  | here {a : Ask} {rest : List Ask} {m : Malformed} (h : a.Blames v m) : FirstFault v (a :: rest) m
  | later {a : Ask} {rest : List Ask} {m : Malformed} (ha : a.Met v) (h : FirstFault v rest m) :
      FirstFault v (a :: rest) m

/-! ## First faults -/

theorem Json.Value.Holds.unique {o v w : Value} {key : String} (hv : o.Holds key v)
    (hw : o.Holds key w) : v = w := by
  obtain ⟨es, rfl, hv⟩ := hv
  obtain ⟨_, ⟨⟩, hw⟩ := hw
  exact Option.some.inj (hv.symm.trans hw)

theorem Wish.Refuses.not_admits {wish : Wish} {w : Value} {problem : Malformation}
    (h : wish.Refuses w problem) : ¬wish.Admits w := by
  cases h with
  | notAText h | notAList h =>
    rintro ⟨x, rfl⟩
    exact h x rfl

theorem Ask.Blames.not_met {a : Ask} {v : Value} {m : Malformed} (h : a.Blames v m) :
    ¬a.Met v := by
  rintro ⟨o, w, ho, hw, hwish⟩
  cases h with
  | notAnObject ho' h =>
    cases ho.symm.trans ho'
    obtain ⟨es, rfl, -⟩ := hw
    exact h es rfl
  | missing ho' h =>
    cases ho.symm.trans ho'
    obtain ⟨_, ⟨⟩, hlookup⟩ := hw
    cases h.symm.trans hlookup
  | refused ho' hw' h =>
    cases ho.symm.trans ho'
    cases hw.unique hw'
    exact h.not_admits hwish

/-- There is one way to blame what was asked. -/
theorem Ask.Blames.unique {a : Ask} {v : Value} {m m' : Malformed} (h : a.Blames v m)
    (h' : a.Blames v m') : m = m' := by
  cases h with
  | notAnObject ho h =>
    cases h' with
    | notAnObject => rfl
    | missing ho' => exact absurd (Option.some.inj (ho.symm.trans ho')) (h _)
    | refused ho' hw =>
      cases ho.symm.trans ho'
      obtain ⟨es, rfl, -⟩ := hw
      exact absurd rfl (h es)
  | missing ho h =>
    cases h' with
    | notAnObject ho' h' => exact absurd (Option.some.inj (ho'.symm.trans ho)) (h' _)
    | missing => rfl
    | refused ho' hw =>
      cases ho.symm.trans ho'
      obtain ⟨_, ⟨⟩, hlookup⟩ := hw
      cases h.symm.trans hlookup
  | refused ho hw h =>
    cases h' with
    | notAnObject ho' h' =>
      cases ho.symm.trans ho'
      obtain ⟨es, rfl, -⟩ := hw
      exact absurd rfl (h' es)
    | missing ho' h' =>
      cases ho.symm.trans ho'
      obtain ⟨_, ⟨⟩, hlookup⟩ := hw
      cases h'.symm.trans hlookup
    | refused ho' hw' h' =>
      generalize a.wish = wish at h h'
      cases h <;> cases h' <;> rfl

namespace FirstFault

variable {v : Value} {as bs : List Ask} {m m' : Malformed}

theorem not_met (h : FirstFault v as m) : ¬∀ a ∈ as, a.Met v := by
  induction h with
  | here h => exact fun hall => h.not_met (hall _ (List.mem_cons_self ..))
  | later ha h ih => exact fun hall => ih fun a ha => hall a (List.mem_cons_of_mem _ ha)

theorem unique (h : FirstFault v as m) (h' : FirstFault v as m') : m = m' := by
  induction h with
  | here h =>
    cases h' with
    | here h' => exact h.unique h'
    | later ha h' => exact absurd ha h.not_met
  | later ha h ih =>
    cases h' with
    | here h' => exact absurd ha h'.not_met
    | later _ h' => exact ih h'

theorem append_right (h : FirstFault v as m) : FirstFault v (as ++ bs) m := by
  induction h with
  | here h => exact .here h
  | later ha h ih => exact .later ha ih

theorem append_left (has : ∀ a ∈ as, a.Met v) (h : FirstFault v bs m) :
    FirstFault v (as ++ bs) m := by
  induction as with
  | nil => exact h
  | cons a as ih =>
    obtain ⟨ha, has⟩ := List.forall_mem_cons.1 has
    exact .later ha (ih has)

end FirstFault

/-! ## Results -/

/-- The result is there if all that is asked of `v` is, and otherwise blames the first fault. -/
structure Settles (v : Value) (as : List Ask) {α : Type} (r : Except Malformed α) : Prop where
  met : ∀ x, r = .ok x → ∀ a ∈ as, a.Met v
  fault : ∀ m, r = .error m → FirstFault v as m

namespace Settles

variable {v : Value} {as bs : List Ask} {α β : Type}

theorem pure (x : α) : Settles v [] (Pure.pure x : Except Malformed α) :=
  ⟨by simp, by rintro m ⟨⟩⟩

theorem bind {r : Except Malformed α} {f : α → Except Malformed β} (hr : Settles v as r)
    (hf : ∀ x, r = .ok x → Settles v bs (f x)) : Settles v (as ++ bs) (r >>= f) := by
  cases r with
  | error m =>
    refine ⟨by rintro y ⟨⟩, ?_⟩
    rintro _ ⟨⟩
    exact (hr.fault m rfl).append_right
  | ok x =>
    have hmet := hr.met x rfl
    have hnext := hf x rfl
    refine ⟨fun y hy a ha => ?_, fun m hm => (hnext.fault m hm).append_left hmet⟩
    rcases List.mem_append.1 ha with ha | ha
    · exact hmet a ha
    · exact hnext.met y hy a ha

theorem map {r : Except Malformed α} (hr : Settles v as r) (f : α → β) :
    Settles v as (r >>= fun x => Pure.pure (f x)) := by
  have hmap := hr.bind (f := fun x => Pure.pure (f x)) fun x _ => .pure (f x)
  rwa [List.append_nil] at hmap

theorem eq_error_iff {r : Except Malformed α} (h : Settles v as r) {m : Malformed} :
    r = .error m ↔ FirstFault v as m := by
  refine ⟨h.fault m, fun hm => ?_⟩
  cases r with
  | ok x => exact absurd (h.met x rfl) hm.not_met
  | error m' => rw [(h.fault m' rfl).unique hm]

end Settles

/-! ## Reading -/

namespace Stub

variable {v w : Value} {spot : Spot} {key : String}

theorem require_eq_ok_iff {o : Value} (path : Path) :
    require o key path = .ok w ↔ o.Holds key w := by
  unfold require Json.Value.Holds
  cases o with
  | keyed es =>
    cases hlookup : es.lookup key <;> simp [hlookup]
  | _ => simp

theorem requireText_eq_ok_iff {o : Value} {path : Path} {s : String} :
    requireText o key path = .ok s ↔ o.Holds key (.text s) := by
  rw [← require_eq_ok_iff path]
  unfold requireText
  split <;> simp_all

theorem requireList_eq_ok_iff {o : Value} {path : Path} {items : List Value} :
    requireList o key path = .ok items ↔ o.Holds key (.list items) := by
  rw [← require_eq_ok_iff path]
  unfold requireList
  split <;> simp_all

/-- What is wrong without a look at the value under the key. -/
theorem blames_of_require {o : Value} {wish : Wish} {m : Malformed}
    (h : v.follow? spot.path = some o) (hm : require o key spot.path = .error m) :
    (⟨spot, key, wish⟩ : Ask).Blames v m := by
  unfold require at hm
  split at hm
  · next es =>
    split at hm
    · cases hm
    · next hnone =>
      cases hm
      exact .missing h hnone
  · next hno =>
    cases hm
    exact .notAnObject h hno

theorem settles_require {o : Value} (h : v.follow? spot.path = some o) :
    Settles v [⟨spot, key, .any⟩] (require o key spot.path) := by
  refine ⟨fun w hw => ?_, fun m hm => .here (blames_of_require h hm)⟩
  exact List.forall_mem_singleton.2 ⟨o, w, h, (require_eq_ok_iff _).1 hw, trivial⟩

theorem settles_requireText {o : Value} (h : v.follow? spot.path = some o) :
    Settles v [⟨spot, key, .aText⟩] (requireText o key spot.path) := by
  refine ⟨fun s hs => ?_, fun m hm => .here ?_⟩
  · exact List.forall_mem_singleton.2 ⟨o, .text s, h, requireText_eq_ok_iff.1 hs, s, rfl⟩
  · unfold requireText at hm
    split at hm
    · cases hm
    · next w hno hw =>
      cases hm
      exact .refused h ((require_eq_ok_iff _).1 hw) (.notAText fun s hs => hno s hs)
    · next hw =>
      cases hm
      exact blames_of_require h hw

theorem settles_requireList {o : Value} (h : v.follow? spot.path = some o) :
    Settles v [⟨spot, key, .aList⟩] (requireList o key spot.path) := by
  refine ⟨fun items hs => ?_, fun m hm => .here ?_⟩
  · exact List.forall_mem_singleton.2 ⟨o, .list items, h, requireList_eq_ok_iff.1 hs, items, rfl⟩
  · unfold requireList at hm
    split at hm
    · cases hm
    · next w hno hw =>
      cases hm
      exact .refused h ((require_eq_ok_iff _).1 hw) (.notAList fun items hs => hno items hs)
    · next hw =>
      cases hm
      exact blames_of_require h hw

/-- Items are read one after the other; what the `i`-th should be is asked at the `i`-th place. -/
theorem settles_eachAt {α : Type} {read : Value → Path → Except Malformed α} {path : Path}
    {asksAt : Nat → List Ask} {items : List Value} (k : Nat)
    (h : ∀ i w, items[i]? = some w → Settles v (asksAt (k + i)) (read w (path ++ [.index (k + i)]))) :
    Settles v ((List.range' k items.length).flatMap asksAt) (eachAt read path k items) := by
  induction items generalizing k with
  | nil => exact .pure []
  | cons w items ih =>
    rw [List.length_cons, List.range'_succ, List.flatMap_cons, eachAt]
    refine (h 0 w rfl).bind fun x _ => (ih (k + 1) fun i w' hw' => ?_).map _
    have hi := h (i + 1) w' hw'
    rwa [← Nat.add_assoc, Nat.add_right_comm] at hi

end Stub

/-! ## Parts -/

namespace Json.Value

variable {v o w : Value} {key : String} {items : List Value} {p : Path}

theorem follow?_append (v : Value) (p q : Path) :
    v.follow? (p ++ q) = (v.follow? p).bind (·.follow? q) := by
  fun_induction follow? v p with
  | case1 => rfl
  | case2 es k p ih =>
    rw [List.cons_append, follow?, Option.bind_assoc]
    exact Option.bind_congr fun w _ => ih w
  | case3 vs i p ih =>
    rw [List.cons_append, follow?, Option.bind_assoc]
    exact Option.bind_congr fun w _ => ih w
  | case4 v step p hkey hindex =>
    rw [List.cons_append, follow?] <;> simp_all

theorem follow?_key (ho : v.follow? p = some o) (hw : o.Holds key w) :
    v.follow? (p ++ [.key key]) = some w := by
  obtain ⟨es, rfl, hw⟩ := hw
  rw [follow?_append, ho]
  show (es.lookup key).bind _ = _
  rw [hw]
  rfl

theorem follow?_item (ho : v.follow? p = some o) (hitems : o.Holds key (.list items)) {i : Nat}
    (hw : items[i]? = some w) : v.follow? (p ++ [.key key, .index i]) = some w := by
  have hpath : p ++ [.key key, .index i] = p ++ [.key key] ++ [.index i] := List.append_cons ..
  rw [hpath, follow?_append, follow?_key ho hitems]
  show items[i]?.bind _ = _
  rw [hw]
  rfl

theorem count_eq {spot : Spot} (ho : v.follow? spot.path = some o)
    (hitems : o.Holds key (.list items)) : v.count spot key = items.length := by
  rw [count, follow?_key ho hitems]

end Json.Value

namespace Stub

variable {v w : Value}

/-- What is asked of the items of a list, at their places. -/
theorem settles_items {o : Value} {spot : Spot} {key : String} {items : List Value} {α : Type}
    (place : Nat → Spot) (read : Value → Path → Except Malformed α) {asksAt : Nat → List Ask}
    (hplace : ∀ i, (place i).path = spot.path ++ [.key key, .index i])
    (ho : v.follow? spot.path = some o) (hitems : o.Holds key (.list items))
    (h : ∀ i w, v.follow? (place i).path = some w →
      Settles v (asksAt i) (read w (place i).path)) :
    Settles v ((List.range (v.count spot key)).flatMap asksAt)
      (eachAt read (spot.path ++ [.key key]) 0 items) := by
  rw [Json.Value.count_eq ho hitems, List.range_eq_range']
  refine settles_eachAt 0 fun i w hw => ?_
  have hpath : spot.path ++ [.key key] ++ [.index i] = (place i).path := by
    rw [hplace, ← List.append_cons]
  rw [Nat.zero_add, hpath]
  exact h i w (hplace i ▸ Json.Value.follow?_item ho hitems hw)

theorem settles_readFunction {i : Nat} (h : v.follow? (Spot.function i).path = some w) :
    Settles v (functionAsks v i) (readFunction w (Spot.function i).path) := by
  refine (settles_requireText h).bind fun name _ => (settles_requireList h).bind fun args hargs =>
    (settles_requireText h).bind fun result _ => ?_
  have hitems := settles_items (.argument i) (fun a p => requireText a "type" p) (fun j => rfl) h
    (requireList_eq_ok_iff.1 hargs) fun j a ha => settles_requireText ha
  exact hitems.map _

theorem settles_readType {i : Nat} (h : v.follow? (Spot.typeDef i).path = some w) :
    Settles v (typeDefAsks v i) (readType w (Spot.typeDef i).path) := by
  refine (settles_requireText h).bind fun name _ => (settles_requireList h).bind fun vars hvars =>
    (settles_requireText h).bind fun body _ => ?_
  have hitems := settles_items (.typeVar i) (fun a p => requireText a "name" p) (fun j => rfl) h
    (requireList_eq_ok_iff.1 hvars) fun j a ha => settles_requireText ha
  exact hitems.map _

theorem settles_ofContract (includeTypes : Bool) (h : v.follow? Spot.contract.path = some w) :
    Settles v (contractAsks includeTypes v) (ofContract includeTypes w) := by
  refine (settles_requireText h).bind fun name _ => (settles_requireList h).bind fun types htypes =>
    (settles_requireList h).bind fun functions hfunctions => ?_
  have hfunctions := settles_items .function readFunction (fun i => rfl) h
    (requireList_eq_ok_iff.1 hfunctions) fun i f hf => settles_readFunction hf
  cases includeTypes with
  | true =>
    have htypes := settles_items .typeDef readType (fun i => rfl) h
      (requireList_eq_ok_iff.1 htypes) fun i t ht => settles_readType ht
    exact htypes.bind fun types _ => hfunctions.map _
  | false => exact (Settles.pure []).bind fun types _ => hfunctions.map _

/-- A stub settles all that is asked of a description. -/
theorem settles_ofValue (includeTypes : Bool) (v : Value) :
    Settles v (asks includeTypes v) (ofValue includeTypes v) := by
  have hroot : v.follow? Spot.root.path = some v := by
    cases v <;> rfl
  refine (settles_require hroot).bind fun c hc => settles_ofContract includeTypes ?_
  exact Json.Value.follow?_key hroot ((require_eq_ok_iff _).1 hc)

/-! ## Acceptance -/

theorem ite_bind {ε α β : Type} (b : Bool) (x y : Except ε α) (f : α → Except ε β) :
    (if b then x >>= f else y >>= f) = (if b then x else y) >>= f := by
  cases b <;> rfl

theorem exists_bind_eq_ok_iff {ε α β : Type} {x : Except ε α} {f : α → Except ε β} :
    (∃ b, x >>= f = .ok b) ↔ ∃ a, x = .ok a ∧ ∃ b, f a = .ok b := by
  cases x <;> simp [bind, Except.bind]

theorem eachAt_ok_iff {α : Type} {read : Value → Path → Except Malformed α} {Item : Value → Prop}
    (h : ∀ w p, (∃ x, read w p = .ok x) ↔ Item w) (path : Path) (k : Nat) (items : List Value) :
    (∃ xs, eachAt read path k items = .ok xs) ↔ ∀ w ∈ items, Item w := by
  induction items generalizing k with
  | nil => exact iff_of_true ⟨[], rfl⟩ (by simp)
  | cons w items ih =>
    rw [List.forall_mem_cons, ← h w (path ++ [.index k]), ← ih (k + 1), eachAt]
    simp only [exists_bind_eq_ok_iff]
    constructor
    · rintro ⟨x, hx, xs, hxs, -⟩
      exact ⟨⟨x, hx⟩, xs, hxs⟩
    · rintro ⟨⟨x, hx⟩, xs, hxs⟩
      exact ⟨x, hx, xs, hxs, _, rfl⟩

theorem requireText_ok_iff {key : String} (w : Value) (path : Path) :
    (∃ s, requireText w key path = .ok s) ↔ w.HoldsText key :=
  exists_congr fun _ => requireText_eq_ok_iff

theorem readFunction_ok_iff (w : Value) (path : Path) :
    (∃ f, readFunction w path = .ok f) ↔ IsFunction w := by
  unfold readFunction
  simp only [exists_bind_eq_ok_iff, requireText_eq_ok_iff, requireList_eq_ok_iff]
  constructor
  · rintro ⟨name, hname, args, hargs, result, hresult, types, htypes, -⟩
    have hitems := (eachAt_ok_iff requireText_ok_iff _ _ _).1 ⟨types, htypes⟩
    exact ⟨⟨name, hname⟩, ⟨args, hargs, hitems⟩, ⟨result, hresult⟩⟩
  · rintro ⟨⟨name, hname⟩, ⟨args, hargs, hitems⟩, ⟨result, hresult⟩⟩
    obtain ⟨types, htypes⟩ := (eachAt_ok_iff requireText_ok_iff _ 0 args).2 hitems
    exact ⟨name, hname, args, hargs, result, hresult, types, htypes, _, rfl⟩

theorem readType_ok_iff (w : Value) (path : Path) :
    (∃ t, readType w path = .ok t) ↔ IsTypeDef w := by
  unfold readType
  simp only [exists_bind_eq_ok_iff, requireText_eq_ok_iff, requireList_eq_ok_iff]
  constructor
  · rintro ⟨name, hname, vars, hvars, body, hbody, names, hnames, -⟩
    have hitems := (eachAt_ok_iff requireText_ok_iff _ _ _).1 ⟨names, hnames⟩
    exact ⟨⟨name, hname⟩, ⟨vars, hvars, hitems⟩, ⟨body, hbody⟩⟩
  · rintro ⟨⟨name, hname⟩, ⟨vars, hvars, hitems⟩, ⟨body, hbody⟩⟩
    obtain ⟨names, hnames⟩ := (eachAt_ok_iff requireText_ok_iff _ 0 vars).2 hitems
    exact ⟨name, hname, vars, hvars, body, hbody, names, hnames, _, rfl⟩

/-- The definitions of types are read only if they are included. -/
theorem readTypes_ok_iff (includeTypes : Bool) (path : Path) (types : List Value) :
    (∃ ts, (if includeTypes then eachAt readType path 0 types else .ok []) = .ok ts) ↔
      ∀ t ∈ types, includeTypes = true → IsTypeDef t := by
  cases includeTypes with
  | true => simpa using eachAt_ok_iff readType_ok_iff path 0 types
  | false => simp

theorem ofContract_ok_iff (includeTypes : Bool) (w : Value) :
    (∃ s, ofContract includeTypes w = .ok s) ↔ IsContract includeTypes w := by
  have hfunctions := eachAt_ok_iff readFunction_ok_iff [.key "contract", .key "functions"] 0
  have htypes := readTypes_ok_iff includeTypes [.key "contract", .key "type_defs"]
  unfold ofContract
  simp only [ite_bind, exists_bind_eq_ok_iff, requireText_eq_ok_iff, requireList_eq_ok_iff]
  constructor
  · rintro ⟨name, hname, types, htypeDefs, functions, hfuncs, ts, hts, fs, hfs, -⟩
    exact ⟨⟨name, hname⟩, ⟨types, htypeDefs, (htypes types).1 ⟨ts, hts⟩⟩,
      ⟨functions, hfuncs, (hfunctions functions).1 ⟨fs, hfs⟩⟩⟩
  · rintro ⟨⟨name, hname⟩, ⟨types, htypeDefs, hts⟩, ⟨functions, hfuncs, hfs⟩⟩
    obtain ⟨ts, hts⟩ := (htypes types).2 hts
    obtain ⟨fs, hfs⟩ := (hfunctions functions).2 hfs
    exact ⟨name, hname, types, htypeDefs, functions, hfuncs, ts, hts, fs, hfs, _, rfl⟩

end Stub

/-- A fault is reported at a place that is there. -/
theorem FirstFault.exists_spot {v : Value} {as : List Ask} {m : Malformed}
    (h : FirstFault v as m) :
    ∃ spot : Spot, m.path = spot.path ∧ m.path.text = spot.text ∧ (v.follow? m.path).isSome := by
  induction h with
  | @here a rest m h =>
    have hspot : m.path = a.spot.path ∧ (v.follow? a.spot.path).isSome := by
      cases h with
      | notAnObject ho | missing ho | refused ho => exact ⟨rfl, by rw [ho]; rfl⟩
    exact ⟨a.spot, hspot.1, by rw [hspot.1, Spot.text_path], hspot.1 ▸ hspot.2⟩
  | later ha h ih => exact ih

/-- **A stub can be told from a value exactly if it is a description**, and otherwise the first
fault is blamed, at a place that the reported path leads to. -/
theorem Stub.ofValue_spec (includeTypes : Bool) (v : Value) :
    ((∃ s, Stub.ofValue includeTypes v = .ok s) ↔ IsDescription includeTypes v) ∧
      ∀ m, (Stub.ofValue includeTypes v = .error m ↔ FirstFault v (asks includeTypes v) m) ∧
        (Stub.ofValue includeTypes v = .error m → ∃ spot : Spot,
          m.path = spot.path ∧ m.path.text = spot.text ∧ (v.follow? m.path).isSome) := by
  refine ⟨?_, fun m => ⟨(Stub.settles_ofValue includeTypes v).eq_error_iff, fun hm =>
    ((Stub.settles_ofValue includeTypes v).fault m hm).exists_spot⟩⟩
  unfold Stub.ofValue IsDescription
  simp only [Stub.exists_bind_eq_ok_iff, Stub.require_eq_ok_iff, Stub.ofContract_ok_iff]

end ContractInterface
