import ContractInterface.Proofs.Json.Bytes
import ContractInterface.Stub

/-!
# Structures read back

What is written of a structure is read back as its mapping (`Value.plain`), whatever the indent and
from characters as well as from bytes:

    (Value.ordered pairs).writeWithin indent = .ok t → t.load = .ok (Value.ordered pairs).plain

Tuples are lists there, and a repeated key keeps its first place and takes its last value
(`Entries.keys_ofPairs`, `Entries.lookup_ofPairs`).  With an indent that is no machine integer nothing
is written (`load_writeWithin`).
-/

namespace ContractInterface

open Json

/-! ## Repeated keys -/

namespace Json.Entries

variable {α : Type}

theorem keys_foldl_put (ps m : List (String × α))
    (hm : (m.map Prod.fst).eraseDups = m.map Prod.fst) :
    (ps.foldl (fun m e => put e.1 e.2 m) m).map Prod.fst =
      (m.map Prod.fst ++ ps.map Prod.fst).eraseDups := by
  induction ps generalizing m with
  | nil => rw [List.map_nil, List.append_nil, hm, List.foldl_nil]
  | cons e ps ih =>
    have hkeys := keys_put e.1 e.2 m
    rw [List.foldl_cons]
    by_cases he : e.1 ∈ m.map Prod.fst
    · -- the key has its place already
      rw [if_pos he] at hkeys
      have hput : ((put e.1 e.2 m).map Prod.fst).eraseDups = (put e.1 e.2 m).map Prod.fst := by
        rw [hkeys, hm]
      have hgone : (e.1 :: ps.map Prod.fst).removeAll (m.map Prod.fst) =
          (ps.map Prod.fst).removeAll (m.map Prod.fst) := by
        rw [List.cons_removeAll, if_neg (by simpa using he)]
      rw [ih _ hput, hkeys, List.map_cons, List.eraseDups_append, List.eraseDups_append, hgone]
    · rw [if_neg he] at hkeys
      have hput : ((put e.1 e.2 m).map Prod.fst).eraseDups = (put e.1 e.2 m).map Prod.fst := by
        have hnew : [e.1].removeAll (m.map Prod.fst) = [e.1] := by
          rw [List.cons_removeAll, if_pos (by simpa using he)]
          rfl
        rw [hkeys, List.eraseDups_append, hm, hnew]
        rfl
      rw [ih _ hput, hkeys, List.append_assoc]
      rfl

/-- Every key stands in its first place. -/
theorem keys_ofPairs (ps : List (String × α)) :
    (ofPairs ps).map Prod.fst = (ps.map Prod.fst).eraseDups :=
  keys_foldl_put ps [] rfl

theorem lookup_foldl_put (ps m : List (String × α)) (k : String) :
    (ps.foldl (fun m e => put e.1 e.2 m) m).lookup k = (ps.reverse ++ m).lookup k := by
  induction ps generalizing m with
  | nil => rfl
  | cons e ps ih =>
    obtain ⟨a, v⟩ := e
    have hfirst : (put a v m).lookup k = ((a, v) :: m).lookup k := by
      rw [lookup_put, List.lookup_cons]
      by_cases h : k = a
      · simp [h]
      · have hne : (k == a) = false := by simpa using h
        simp [h, hne]
    rw [List.foldl_cons, ih, List.lookup_append, hfirst, List.reverse_cons, List.append_assoc,
      ← List.lookup_append]
    rfl

/-- Every key has its last value. -/
theorem lookup_ofPairs (ps : List (String × α)) (k : String) :
    (ofPairs ps).lookup k = ps.reverse.lookup k := by
  rw [ofPairs, lookup_foldl_put, List.append_nil]

theorem lookup_map {β : Type} (f : α → β) (ps : List (String × α)) (k : String) :
    (ps.map fun e => (e.1, f e.2)).lookup k = (ps.lookup k).map f := by
  induction ps with
  | nil => rfl
  | cons e ps ih =>
    rw [List.map_cons, List.lookup_cons, List.lookup_cons, ih]
    split <;> rfl

end Json.Entries

/-! ## Structures -/

namespace Json.Value

mutual

/-- Built from null, truth values, integers that can be read, texts, lists, tuples and sequences of
pairs. -/
def Structured : Value → Prop
  | int n => (Decimal.digits n.natAbs).length ≤ Reading.maxDigits
  | double _ => False
  | keyed _ => False
  | list items => AllStructured items
  | tuple items => AllStructured items
  | ordered pairs => PairsStructured pairs
  | _ => True

def AllStructured : List Value → Prop
  | [] => True
  | v :: vs => v.Structured ∧ AllStructured vs

def PairsStructured : List (String × Value) → Prop
  | [] => True
  | (_, v) :: r => v.Structured ∧ PairsStructured r

end

mutual

theorem writable_of_structured : ∀ v : Value, v.Structured → v.Writable
  | null, _ => trivial
  | bool _, _ => trivial
  | int _, h => h
  | text _, _ => trivial
  | list items, h => allWritable_of_structured items h
  | tuple items, h => allWritable_of_structured items h
  | ordered pairs, h => entriesWritable_of_structured pairs h

theorem allWritable_of_structured : ∀ vs : List Value, AllStructured vs → AllWritable vs
  | [], _ => trivial
  | v :: vs, h => ⟨writable_of_structured v h.1, allWritable_of_structured vs h.2⟩

theorem entriesWritable_of_structured :
    ∀ ps : List (String × Value), PairsStructured ps → EntriesWritable ps
  | [], _ => trivial
  | (_, v) :: r, h => ⟨writable_of_structured v h.1, entriesWritable_of_structured r h.2⟩

end

mutual

/-- A structure is read back as its mapping. -/
theorem reread_eq_plain : ∀ v : Value, v.Structured → v.reread = v.plain
  | null, _ => rfl
  | bool _, _ => rfl
  | int _, _ => rfl
  | text _, _ => rfl
  | list items, h => congrArg list (rereads_eq_plains items h)
  | tuple items, h => congrArg list (rereads_eq_plains items h)
  | ordered pairs, h =>
    congrArg (fun es => keyed (Entries.ofPairs es)) (rereadPairs_eq_plainPairs pairs h)

theorem rereads_eq_plains : ∀ vs : List Value, AllStructured vs → rereads vs = plains vs
  | [], _ => rfl
  | v :: vs, h => by rw [rereads, plains, reread_eq_plain v h.1, rereads_eq_plains vs h.2]

theorem rereadPairs_eq_plainPairs :
    ∀ ps : List (String × Value), PairsStructured ps → rereadPairs ps = plainPairs ps
  | [], _ => rfl
  | (k, v) :: r, h => by
    rw [rereadPairs, plainPairs, reread_eq_plain v h.1, rereadPairs_eq_plainPairs r h.2]

end

/-- The mapping of a sequence of pairs: keys in their first places, with their last values. -/
theorem plain_ordered (pairs : List (String × Value)) :
    ∃ entries, (ordered pairs).plain = keyed entries ∧
      entries.map Prod.fst = (pairs.map Prod.fst).eraseDups ∧
      ∀ k, entries.lookup k = (pairs.reverse.lookup k).map plain := by
  have hentries : Entries.ofPairs (plainPairs pairs) =
      (Entries.ofPairs pairs).map fun e => (e.1, e.2.plain) := by
    rw [plainPairs_eq_map, Entries.ofPairs_map]
  refine ⟨Entries.ofPairs (plainPairs pairs), rfl, ?_, fun k => ?_⟩
  · rw [hentries, List.map_map]
    exact Entries.keys_ofPairs pairs
  · rw [hentries, Entries.lookup_map, Entries.lookup_ofPairs]

end Json.Value

/-! ## Reading back -/

/-- The text of a structure is read back as its mapping, from characters and from bytes. -/
theorem loadKeeping_write (lone : Nat → Char) {pairs : List (String × Value)}
    (h : (Value.ordered pairs).Structured) (indent : Option Int) :
    let t := (Value.ordered pairs).write indent
    InterfaceText.loadKeeping lone (.text t) = .ok (Value.ordered pairs).plain ∧
      InterfaceText.loadKeeping lone (.bytes (Text.Utf8.encode t.toList)) =
        .ok (Value.ordered pairs).plain := by
  intro t
  have hwritable := Value.writable_of_structured _ h
  have hread : Value.readKeeping lone t.toList = .ok (Value.ordered pairs).plain := by
    rw [← Value.reread_eq_plain _ h]
    exact Value.readKeeping_write lone _ hwritable indent
  obtain ⟨entries, hentries, -⟩ := Value.plain_ordered pairs
  rw [hentries] at hread ⊢
  constructor
  · rw [InterfaceText.loadKeeping, hread]
    rfl
  · rw [InterfaceText.loadKeeping, Value.decode_encode_of_readKeeping hread]
    show loaded t.toList (Value.readUnmarked lone t.toList) = _
    rw [Value.readUnmarked_of_readKeeping hread]
    rfl

/-- **Reading undoes writing.**  With every indent that is a machine integer, the text of a structure
is read back as its mapping, from characters and from bytes; with any other, nothing is written. -/
theorem load_writeWithin (lone : Nat → Char) (pairs : List (String × Value))
    (h : (Value.ordered pairs).Structured) (indent : Option Int) :
    ((∀ n, indent = some n → -0x8000000000000000 ≤ n ∧ n < 0x8000000000000000) →
      ∃ t entries, (Value.ordered pairs).writeWithin indent = .ok t ∧
        InterfaceText.loadKeeping lone (.text t) = .ok (Value.ordered pairs).plain ∧
        InterfaceText.loadKeeping lone (.bytes (Text.Utf8.encode t.toList)) =
          .ok (Value.ordered pairs).plain ∧
        (Value.ordered pairs).plain = .keyed entries ∧
        entries.map Prod.fst = (pairs.map Prod.fst).eraseDups ∧
        ∀ k, entries.lookup k = (pairs.reverse.lookup k).map Value.plain) ∧
    ((∃ n, indent = some n ∧ ¬(-0x8000000000000000 ≤ n ∧ n < 0x8000000000000000)) →
      (Value.ordered pairs).writeWithin indent = .error .notAnIndex) := by
  constructor
  · intro hin
    have hfault : indentFault? indent = none := by
      cases indent with
      | none => rfl
      | some n => exact (indentFault?_eq_none_iff n).2 (hin n rfl)
    obtain ⟨entries, hentries, hkeys, hlookup⟩ := Value.plain_ordered pairs
    obtain ⟨htext, hbytes⟩ := loadKeeping_write lone h indent
    refine ⟨(Value.ordered pairs).write indent, entries, ?_, htext, hbytes, hentries, hkeys,
      hlookup⟩
    unfold Value.writeWithin
    rw [hfault]
  · rintro ⟨n, rfl, hout⟩
    have hfault : indentFault? (some n) = some .notAnIndex := by
      obtain ⟨⟨⟩, hf⟩ := Option.ne_none_iff_exists'.1 (mt (indentFault?_eq_none_iff n).1 hout)
      exact hf
    unfold Value.writeWithin
    rw [hfault]

/-- A repeated key and a tuple, at two spaces a level. -/
theorem load_writeWithin_repeated :
    let pairs := [("a", Value.int 1), ("b", .tuple [.null]), ("a", .text "x")]
    let entries := [("a", Value.text "x"), ("b", .list [.null])]
    (Value.ordered pairs).Structured ∧ (Value.ordered pairs).plain = .keyed entries ∧
      ∃ t, (Value.ordered pairs).writeWithin (some 2) = .ok t ∧
        InterfaceText.load (.text t) = .ok (.keyed entries) ∧
        InterfaceText.load (.bytes (Text.Utf8.encode t.toList)) = .ok (.keyed entries) := by
  intro pairs entries
  have hstructured : (Value.ordered pairs).Structured := by
    refine ⟨?_, ⟨trivial, trivial⟩, trivial, trivial⟩
    show (Decimal.digits 1).length ≤ Reading.maxDigits
    rw [digits_of_lt (by decide)]
    decide
  obtain ⟨t, -, hwrite, htext, hbytes, -⟩ :=
    (load_writeWithin Text.replaced pairs hstructured (some 2)).1 (by rintro n ⟨⟩; decide)
  exact ⟨hstructured, rfl, t, hwrite, htext, hbytes⟩

/-- Below the machine integers there is an indent with which nothing is written. -/
theorem not_load_write_of_every_indent :
    ¬∀ (pairs : List (String × Value)) (indent : Option Int), (Value.ordered pairs).Structured →
      ∃ t, (Value.ordered pairs).writeWithin indent = .ok t ∧
        InterfaceText.load (.text t) = .ok (Value.ordered pairs).plain ∧
        InterfaceText.load (.bytes (Text.Utf8.encode t.toList)) =
          .ok (Value.ordered pairs).plain := by
  intro h
  obtain ⟨t, ht, -⟩ := h [] (some (-9223372036854775809)) trivial
  have herror : (Value.ordered []).writeWithin (some (-9223372036854775809)) =
      .error .notAnIndex := rfl
  rw [herror] at ht
  cases ht

end ContractInterface
