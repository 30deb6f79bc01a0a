/-!
# Positions in a source

Lines and columns count from one; a column is one code point.  Positions are ordered by line, then
column.  `Position.after p s` is where one arrives from `p` by reading `s`, one character at a time:

    p.after (s ++ t) = (p.after s).after t

`sortByPosition s` is a permutation of `s`, `Ascending`, and stable: it keeps the order of elements
that share a position (`filter_sortByPosition`).
-/

namespace ContractInterface

structure Position where
  line : Int
  col : Int
deriving DecidableEq, Repr

namespace Position

/-- The position of the first character. -/
def start : Position := ⟨1, 1⟩

/-- Stands in for a position that is not known. -/
def unknown : Position := ⟨0, 0⟩

/-- The position behind the character `c`. -/
def step (p : Position) (c : Char) : Position :=
  if c = '\n' then ⟨p.line + 1, 1⟩ else ⟨p.line, p.col + 1⟩

def after (p : Position) (s : List Char) : Position := s.foldl step p

/-- Whether `p` comes before `q` or is `q`. -/
def le (p q : Position) : Bool :=
  decide (p.line < q.line) || p.line == q.line && decide (p.col ≤ q.col)

/-- Short form, `L3:7`. -/
def label (p : Position) : String := s!"L{p.line}:{p.col}"

/-- The form that opens a message, `line 3, column 7`. -/
def phrase (p : Position) : String := s!"line {p.line}, column {p.col}"

theorem after_nil (p : Position) : p.after [] = p := rfl

theorem after_cons (p : Position) (c : Char) (s : List Char) :
    p.after (c :: s) = (p.step c).after s := rfl

theorem after_append (p : Position) (s t : List Char) :
    p.after (s ++ t) = (p.after s).after t := by
  simp [after, List.foldl_append]

theorem le_refl (p : Position) : p.le p = true := by simp [le]

theorem le_trans {p q r : Position} (h : p.le q = true) (h' : q.le r = true) : p.le r = true := by
  simp [le] at *; omega

theorem le_total (p q : Position) : p.le q = true ∨ q.le p = true := by
  simp [le]; omega

end Position

section Sorting

variable {α : Type}

/-- Put `a` in front of the first element that does not come before it. -/
def insertByPosition (pos : α → Position) (a : α) : List α → List α
  | [] => [a]
  | b :: r => if (pos a).le (pos b) then a :: b :: r else b :: insertByPosition pos a r

/-- Ascending by position; elements at one position keep their order. -/
def sortByPosition (pos : α → Position) : List α → List α
  | [] => []
  | a :: r => insertByPosition pos a (sortByPosition pos r)

theorem perm_insertByPosition (pos : α → Position) (a : α) (s : List α) :
    (insertByPosition pos a s).Perm (a :: s) := by
  induction s with
  | nil => exact .refl _
  | cons b r ih =>
    unfold insertByPosition
    split
    · exact .refl _
    · exact (ih.cons b).trans (.swap ..)

theorem perm_sortByPosition (pos : α → Position) (s : List α) :
    (sortByPosition pos s).Perm s := by
  induction s with
  | nil => exact .refl _
  | cons a r ih => exact (perm_insertByPosition pos a _).trans (ih.cons a)

/-- No element comes before an earlier one. -/
def Ascending (pos : α → Position) (s : List α) : Prop :=
  s.Pairwise fun a b => (pos a).le (pos b) = true

theorem ascending_insertByPosition (pos : α → Position) (a : α) (s : List α)
    (h : Ascending pos s) : Ascending pos (insertByPosition pos a s) := by
  induction s with
  | nil => exact List.pairwise_singleton _ a
  | cons b r ih =>
    obtain ⟨hb, hr⟩ := List.pairwise_cons.1 h
    unfold insertByPosition
    split
    · next hab =>
      refine List.pairwise_cons.2 ⟨fun c hc => ?_, h⟩
      rcases List.mem_cons.1 hc with rfl | hc
      · exact hab
      · exact Position.le_trans hab (hb c hc)
    · next hab =>
      refine List.pairwise_cons.2 ⟨fun c hc => ?_, ih hr⟩
      rcases List.mem_cons.1 ((perm_insertByPosition pos a r).mem_iff.1 hc) with rfl | hc
      · exact (Position.le_total _ _).resolve_left hab
      · exact hb c hc

theorem ascending_sortByPosition (pos : α → Position) (s : List α) :
    Ascending pos (sortByPosition pos s) := by
  induction s with
  | nil => exact List.Pairwise.nil
  | cons a r ih => exact ascending_insertByPosition pos a _ ih

theorem filter_insertByPosition (pos : α → Position) (p : Position) (a : α) (s : List α) :
    (insertByPosition pos a s).filter (fun b => decide (pos b = p)) =
      (a :: s).filter fun b => decide (pos b = p) := by
  induction s with
  | nil => rfl
  | cons b r ih =>
    unfold insertByPosition
    split
    · rfl
    · next hab =>
      -- `a` and `b` change places, so they are not both at `p`
      have hne : pos b = p → pos a ≠ p := by
        rintro hb ha
        exact hab (by rw [ha, hb]; exact Position.le_refl p)
      by_cases hb : pos b = p
      · simp [ih, hb, hne hb]
      · simp [List.filter_cons, ih, hb]

/-- Elements at one position keep their order. -/
theorem filter_sortByPosition (pos : α → Position) (p : Position) (s : List α) :
    (sortByPosition pos s).filter (fun b => decide (pos b = p)) =
      s.filter fun b => decide (pos b = p) := by
  induction s with
  | nil => rfl
  | cons a r ih =>
    rw [sortByPosition, filter_insertByPosition, List.filter_cons, ih, List.filter_cons]

end Sorting

end ContractInterface
