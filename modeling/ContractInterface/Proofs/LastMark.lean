/-!
# Behind the last mark

A list with marks among its elements is parted behind the last of them, in one way: the last line of
a text stands behind its last line feed, what happened since a reset behind the last reset.
-/

namespace ContractInterface

variable {α : Type} {mark : α}

/-- `back` is what stands behind the last `mark` of `s`, or all of `s` if there is none. -/
structure LastMark (mark : α) (s front back : List α) : Prop where
  split : s = front ++ back
  front_ends : front = [] ∨ ∃ r, front = r ++ [mark]
  notMem_back : mark ∉ back

theorem exists_lastMark (mark : α) (s : List α) : ∃ front back, LastMark mark s front back := by
  induction s with
  | nil => exact ⟨[], [], rfl, .inl rfl, List.not_mem_nil⟩
  | cons a s ih =>
    obtain ⟨front, back, rfl, hends, hback⟩ := ih
    rcases hends with rfl | ⟨r, rfl⟩
    · by_cases ha : a = mark
      · exact ⟨[a], back, rfl, .inr ⟨[], by rw [ha]; rfl⟩, hback⟩
      · refine ⟨[], a :: back, rfl, .inl rfl, ?_⟩
        intro hmem
        rcases List.mem_cons.1 hmem with rfl | hmem
        · exact ha rfl
        · exact hback hmem
    · exact ⟨a :: (r ++ [mark]), back, rfl, .inr ⟨a :: r, rfl⟩, hback⟩

namespace LastMark

variable {s front back : List α}

/-- Backwards, one reads up to the mark. -/
theorem takeWhile_reverse (h : LastMark mark s front back) {p : α → Bool}
    (hp : ∀ a, p a = true ↔ a ≠ mark) : s.reverse.takeWhile p = back.reverse := by
  obtain ⟨rfl, hends, hback⟩ := h
  have hpos : ∀ a ∈ back.reverse, p a = true := by
    intro a ha
    apply (hp a).2
    rintro rfl
    exact hback (List.mem_reverse.1 ha)
  have hmark : ¬p mark = true := fun h => (hp mark).1 h rfl
  rw [List.reverse_append, List.takeWhile_append_of_pos hpos]
  rcases hends with rfl | ⟨r, rfl⟩
  · exact List.append_nil _
  · rw [List.reverse_append, List.reverse_singleton, List.singleton_append,
      List.takeWhile_cons_of_neg hmark, List.append_nil]

theorem snoc {a : α} (h : LastMark mark s front back) (ha : a ≠ mark) :
    LastMark mark (s ++ [a]) front (back ++ [a]) := by
  obtain ⟨rfl, hends, hback⟩ := h
  refine ⟨List.append_assoc _ _ _, hends, ?_⟩
  intro hmem
  rcases List.mem_append.1 hmem with hmem | hmem
  · exact hback hmem
  · exact ha (List.mem_singleton.1 hmem).symm

theorem unique [DecidableEq α] {front' back' : List α} (h : LastMark mark s front back)
    (h' : LastMark mark s front' back') : back = back' := by
  have hp (a : α) : decide (a ≠ mark) = true ↔ a ≠ mark := decide_eq_true_iff
  apply List.reverse_inj.1
  rw [← h.takeWhile_reverse hp, h'.takeWhile_reverse hp]

end LastMark

end ContractInterface
