import ContractInterface.Proofs.Scan.Tiling

/-!
# Lexemes and the ends of lines

Apart from comments and strings, no piece of source looks behind the end of its line: it is the same
in front of all sources that are alike up to there (`SameLine`).

    SameLine r r' → piece c r' = piece c r                                       (SameLine.piece_eq)
-/

namespace ContractInterface

namespace Token

/-- A line ends here, or the source does. -/
def EndsLine (s : List Char) : Prop := ∀ c ∈ s.head?, c = '\n' ∨ c = '\r'

/-- Sources that are alike up to the end of a line. -/
inductive SameLine : List Char → List Char → Prop
  | ends {s t : List Char} (hs : EndsLine s) (ht : EndsLine t) : SameLine s t
  | char {c : Char} {s t : List Char} (hc : c ≠ '\n' ∧ c ≠ '\r') (h : SameLine s t) :
      SameLine (c :: s) (c :: t)

namespace SameLine

variable {s t : List Char} (h : SameLine s t)
include h

theorem head?_eq_some_iff {d : Char} (hd : d ≠ '\n' ∧ d ≠ '\r') :
    t.head? = some d ↔ s.head? = some d := by
  cases h with
  | ends hs ht =>
    have hnot {u : List Char} (hu : EndsLine u) : u.head? ≠ some d := fun hhead =>
      (hu d hhead).elim hd.1 hd.2
    exact iff_of_false (hnot ht) (hnot hs)
  | char hc h => rfl

theorem any_head? {p : Char → Bool} (hn : p '\n' = false) (hr : p '\r' = false) :
    t.head?.any p = s.head?.any p := by
  cases h with
  | ends hs ht =>
    have hnot {u : List Char} (hu : EndsLine u) : u.head?.any p = false := by
      rw [Option.any_eq_false]
      rintro d hhead
      obtain rfl | rfl := hu d hhead
      · simpa using hn
      · simpa using hr
    rw [hnot hs, hnot ht]
  | char hc h => rfl

/-- A run of characters that does not hold line ends stops at the end of the line. -/
theorem takeWhile_eq {p : Char → Bool} (hn : p '\n' = false) (hr : p '\r' = false) :
    t.takeWhile p = s.takeWhile p := by
  induction h with
  | ends hs ht =>
    have hnil {u : List Char} (hu : EndsLine u) : u.takeWhile p = [] := by
      cases u with
      | nil => rfl
      | cons d u =>
        obtain rfl | rfl := hu d rfl
        · rw [List.takeWhile_cons, hn, if_neg Bool.false_ne_true]
        · rw [List.takeWhile_cons, hr, if_neg Bool.false_ne_true]
    rw [hnil hs, hnil ht]
  | char hc h ih => rw [List.takeWhile_cons, List.takeWhile_cons, ih]

theorem isPrefixOf_eq {op : List Char} (hop : ∀ d ∈ op, d ≠ '\n' ∧ d ≠ '\r') :
    op.isPrefixOf t = op.isPrefixOf s := by
  induction op generalizing s t with
  | nil => rw [List.isPrefixOf_nil_left, List.isPrefixOf_nil_left]
  | cons d op ih =>
    have hd := hop d (by simp)
    cases h with
    | ends hs ht =>
      have hnot {u : List Char} (hu : EndsLine u) : (d :: op).isPrefixOf u = false := by
        cases u with
        | nil => rfl
        | cons c u =>
          have hc : d ≠ c := by
            rintro rfl
            exact (hu d rfl).elim hd.1 hd.2
          simp [List.isPrefixOf_cons_cons, hc]
      rw [hnot hs, hnot ht]
    | char hc h =>
      rw [List.isPrefixOf_cons_cons, List.isPrefixOf_cons_cons,
        ih h fun e he => hop e (List.mem_cons_of_mem _ he)]

/-- A number is read alike. -/
theorem number_eq (c : Char) : numberLength c t = numberLength c s ∧
    t.take (numberLength c t) = s.take (numberLength c s) := by
  have hn : (Text.isDigit '\n' || decide ('\n' = '_')) = false := by decide
  have hr : (Text.isDigit '\r' || decide ('\r' = '_')) = false := by decide
  have hdecimal := h.takeWhile_eq (p := fun d => Text.isDigit d || d = '_') hn hr
  have hplain {u : List Char} (hu : c = '0' → ∀ x ∈ u.head?, ¬(x = 'x' ∨ x = 'X')) :
      numberLength c u = (u.takeWhile fun d => Text.isDigit d || d = '_').length := by
    unfold numberLength
    split
    · next x u =>
      have hx := hu rfl x rfl
      rw [if_neg (by simpa using hx)]
    · rfl
  by_cases hmark : c = '0' ∧ ∃ x ∈ s.head?, x = 'x' ∨ x = 'X'
  · obtain ⟨rfl, x, hx, hxs⟩ := hmark
    cases h with
    | ends hs ht =>
      obtain rfl | rfl := hs x hx
      · exact absurd hxs (by decide)
      · exact absurd hxs (by decide)
    | @char d s t hd h =>
      cases hx
      have hhex := h.takeWhile_eq (p := fun d => isHexDigit d || d = '_') (by decide) (by decide)
      have hlength (u : List Char) : numberLength '0' (x :: u) =
          1 + (u.takeWhile fun d => isHexDigit d || d = '_').length := by
        rw [numberLength, if_pos (by simpa using hxs)]
      have htake (u : List Char) : (x :: u).take (numberLength '0' (x :: u)) =
          x :: u.takeWhile fun d => isHexDigit d || d = '_' := by
        rw [hlength, Nat.add_comm, List.take_succ_cons, take_length_takeWhile]
      rw [htake, htake, hlength, hlength, hhex]
      exact ⟨rfl, rfl⟩
  · have hs : numberLength c s = _ := hplain fun hc x hx hxs => hmark ⟨hc, x, hx, hxs⟩
    have ht : numberLength c t = _ := hplain fun hc x hx hxs => by
      refine hmark ⟨hc, x, ?_, hxs⟩
      refine (h.head?_eq_some_iff ?_).1 hx
      obtain rfl | rfl := hxs <;> decide
    rw [ht, hs, take_length_takeWhile, take_length_takeWhile, hdecimal]
    exact ⟨rfl, rfl⟩

/-- **Outside comments and strings** a piece does not depend on what is behind the end of its line. -/
theorem piece_eq {c : Char} (hquote : c ≠ '"') (hcomment : ¬StartsComment (c :: s)) :
    piece c t = piece c s := by
  have hslash := h.head?_eq_some_iff (d := '/') (by decide)
  have hstar := h.head?_eq_some_iff (d := '*') (by decide)
  have hline {u : List Char} (hu : u.head? = some '/' ↔ s.head? = some '/') :
      ¬(decide (c = '/') && decide (u.head? = some '/')) = true := by
    intro hc
    simp only [Bool.and_eq_true, decide_eq_true_eq, hu] at hc
    exact hcomment (startsComment_cons_iff.2 ⟨hc.1, .inl hc.2⟩)
  have hblock {u : List Char} (hu : u.head? = some '*' ↔ s.head? = some '*') :
      ¬(decide (c = '/') && decide (u.head? = some '*')) = true := by
    intro hc
    simp only [Bool.and_eq_true, decide_eq_true_eq, hu] at hc
    exact hcomment (startsComment_cons_iff.2 ⟨hc.1, .inr hc.2⟩)
  have hname := h.takeWhile_eq (p := isNameChar) (by decide) (by decide)
  have hstart := h.any_head? (p := startsName) (by decide) (by decide)
  obtain ⟨hlength, hdigits⟩ := h.number_eq c
  have hoperator : operators.find? (fun op => op.1.isPrefixOf (c :: t)) =
      operators.find? fun op => op.1.isPrefixOf (c :: s) := by
    have hchars : ∀ op ∈ operators, '\n' ∉ op.1.tail ∧ '\r' ∉ op.1.tail := by decide
    refine List.find?_congr fun op hop => ?_
    cases hkind : op.1 with
    | nil => rfl
    | cons d r =>
      obtain ⟨hfeed, hreturn⟩ := hchars op hop
      rw [hkind, List.tail_cons] at hfeed hreturn
      have hr : ∀ e ∈ r, e ≠ '\n' ∧ e ≠ '\r' := fun e he =>
        ⟨fun hn => hfeed (hn ▸ he), fun hn => hreturn (hn ▸ he)⟩
      rw [List.isPrefixOf_cons_cons, List.isPrefixOf_cons_cons, h.isPrefixOf_eq hr]
  unfold piece
  simp only [if_neg (hline hslash), if_neg (hline Iff.rfl), if_neg (hblock hstar),
    if_neg (hblock Iff.rfl), if_neg hquote, hlength, hlength ▸ hdigits, hname, hstart, hoperator]

end SameLine

/-- Outside comments and strings no piece holds a line feed behind its first character. -/
theorem feed_notMem_of_piece {c : Char} {r : List Char} {m : Nat} (hquote : c ≠ '"')
    (hcomment : ¬StartsComment (c :: r))
    (h : piece c r = .ok (.gap m) ∨ ∃ k v, piece c r = .ok (.lexeme k v m)) :
    '\n' ∉ r.take m := by
  have hstart (u : List Char) : StartsComment ('/' :: '/' :: u) ∧ StartsComment ('/' :: '*' :: u) :=
    ⟨.inl ⟨u, rfl⟩, .inr ⟨u, rfl⟩⟩
  have hsplit : c :: r.take m ++ r.drop m = c :: r := by rw [List.cons_append, List.take_append_drop]
  have hname {s : List Char} (hs : IsName (c :: s)) : '\n' ∉ s := fun hmem =>
    absurd ((isName_cons_iff.1 hs).2 _ hmem) (by decide)
  rw [← hsplit] at hcomment
  obtain h | ⟨k, v, h⟩ := h
  · have hgap := gapPiece_of_piece h
    generalize r.take m = s at hgap hcomment ⊢
    cases hgap with
    | blank hc => simp
    | line hu => exact absurd (hstart _).1 hcomment
    | block hu => exact absurd (hstart _).2 hcomment
  · have hlexeme := isLexeme_of_piece h
    generalize r.take m = s at hlexeme ⊢
    cases hlexeme with
    | con hlong => exact hname hlong.mem
    | keyword hlong => exact hname hlong.mem
    | identifier hlong => exact hname hlong.mem
    | tvar hlong =>
      obtain ⟨t, heq, hs⟩ := hlong.mem
      cases heq
      obtain ⟨d, t, rfl, hd, ht⟩ := hs
      simp only [List.mem_cons, not_or]
      refine ⟨?_, fun hmem => absurd (ht _ hmem) (by decide)⟩
      rintro rfl
      exact absurd hd (by decide)
    | number hlong =>
      obtain hdecimal | ⟨x, t, heq, hx, ht⟩ := hlong.mem
      · exact fun hmem => absurd ((isDecimal_cons_iff.1 hdecimal).2 _ hmem) (by decide)
      · cases heq
        simp only [List.mem_cons, not_or]
        refine ⟨?_, fun hmem => absurd (ht _ hmem) (by decide)⟩
        rintro rfl
        exact absurd hx (by decide)
    | string => exact absurd rfl hquote
    | punctuation => simp
    | operator hlong hk =>
      have hchars : ∀ op ∈ operators, '\n' ∉ op.1 := by decide
      exact fun hmem => hchars _ hk (List.mem_cons_of_mem _ hmem)

end Token

end ContractInterface
