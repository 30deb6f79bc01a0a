/-!
# Line ends

A text file may end its lines with a return, a line feed or both; read as text, each becomes one
line feed.
-/

namespace ContractInterface.Text

/-- Every line end as a line feed. -/
def uniformNewlines : List Char → List Char
  | [] => []
  | '\r' :: '\n' :: r => '\n' :: uniformNewlines r
  | c :: r => (if c = '\r' then '\n' else c) :: uniformNewlines r

theorem uniformNewlines_of_not_mem (s : List Char) (h : '\r' ∉ s) : uniformNewlines s = s := by
  induction s with
  | nil => rfl
  | cons c r ih =>
    simp only [List.mem_cons, not_or] at h
    unfold uniformNewlines
    split
    · simp_all
    · simp_all
    · next heq =>
      obtain ⟨rfl, rfl⟩ := heq
      simp [ih h.2, Ne.symm h.1]

end ContractInterface.Text
