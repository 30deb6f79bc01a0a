import ContractInterface.Proofs.Scan

/-!
# Gaps and lexemes

What a piece of source may be, without a scanner: a piece of a gap (`GapPiece`) or the lexeme of a
token (`IsLexeme`), both in front of the characters that follow.  Every piece that `piece` finds is
one of them:

    piece c r = .ok (.gap n) → GapPiece (c :: r.take n) (r.drop n)                 (gapPiece_of_piece)
    piece c r = .ok (.lexeme k v n) → IsLexeme (r.drop n) k (c :: r.take n) v      (isLexeme_of_piece)
-/

namespace ContractInterface

namespace Token

/-! ## Gaps -/

/-- A comment starts here. -/
def StartsComment (s : List Char) : Prop := ['/', '/'] <+: s ∨ ['/', '*'] <+: s

/-- A mark that opens or closes a nested comment stands here. -/
def StartsMark (s : List Char) : Prop := ['/', '*'] <+: s ∨ ['*', '/'] <+: s

/-- What stands between the outer marks of a comment: characters at which no mark starts, and whole
comments. -/
inductive Interior : List Char → Prop
  | nil : Interior []
  | char {c : Char} {s : List Char} (hc : ¬StartsMark (c :: (s ++ ['*', '/']))) (hs : Interior s) :
      Interior (c :: s)
  | nested {u s : List Char} (hu : Interior u) (hs : Interior s) :
      Interior ('/' :: '*' :: (u ++ '*' :: '/' :: s))

/-- A blank or a comment in front of `rest`; one that ends with its line goes up to the line feed, or
to the end of the source. -/
inductive GapPiece : List Char → List Char → Prop
  | blank {c : Char} {rest : List Char} (hc : c ∈ [' ', '\t', '\r', '\n']) : GapPiece [c] rest
  | line {u rest : List Char} (hu : '\n' ∉ u) (hrest : ∀ c ∈ rest.head?, c = '\n') :
      GapPiece ('/' :: '/' :: u) rest
  | block {u rest : List Char} (hu : Interior u) : GapPiece ('/' :: '*' :: (u ++ ['*', '/'])) rest

/-- Blanks and comments in front of `rest`. -/
inductive IsGap (rest : List Char) : List Char → Prop
  | nil : IsGap rest []
  | cons {g s : List Char} (hg : GapPiece g (s ++ rest)) (hs : IsGap rest s) : IsGap rest (g ++ s)

/-! ## Lexemes -/

/-- A name of any kind, keywords included. -/
def IsName (s : List Char) : Prop :=
  ∃ c r, s = c :: r ∧ startsName c = true ∧ ∀ d ∈ r, isNameChar d = true

def IsTypeVar (s : List Char) : Prop := ∃ r, s = '\'' :: r ∧ IsName r

def IsDecimal (s : List Char) : Prop :=
  ∃ c r, s = c :: r ∧ Text.isDigit c = true ∧ ∀ d ∈ r, (Text.isDigit d || d = '_') = true

def IsHexadecimal (s : List Char) : Prop :=
  ∃ x r, s = '0' :: x :: r ∧ (x = 'x' ∨ x = 'X') ∧ ∀ d ∈ r, (isHexDigit d || d = '_') = true

def IsNumber (s : List Char) : Prop := IsDecimal s ∨ IsHexadecimal s

def IsOperator (s : List Char) : Prop := ∃ k, (s, k) ∈ operators

/-- `s` is in the class, and nothing longer in `s ++ rest` is. -/
structure Longest (C : List Char → Prop) (s rest : List Char) : Prop where
  mem : C s
  eq_nil : ∀ t, t <+: rest → C (s ++ t) → t = []

/-- What stands between the quotes of a string, and what it stands for. -/
inductive StringInterior : List Char → List Char → Prop
  | nil : StringInterior [] []
  | plain {c : Char} {s value : List Char} (hc : c ∉ ['"', '\\', '\n'])
      (hs : StringInterior s value) : StringInterior (c :: s) (c :: value)
  | escaped {c : Char} {s value : List Char} (hs : StringInterior s value) :
      StringInterior ('\\' :: c :: s) (unescape c :: value)

/-- The lexeme of a token of some kind in front of `rest`, and the value of the token. -/
inductive IsLexeme (rest : List Char) : TokenKind → List Char → List Char → Prop
  | con {c : Char} {r : List Char} (h : Longest IsName (c :: r) rest)
      (hc : Text.isUppercase c = true) : IsLexeme rest .con (c :: r) (c :: r)
  | keyword {c : Char} {r : List Char} {k : TokenKind} (h : Longest IsName (c :: r) rest)
      (hc : Text.isUppercase c = false) (hk : (c :: r, k) ∈ keywords) :
      IsLexeme rest k (c :: r) (c :: r)
  | identifier {c : Char} {r : List Char} (h : Longest IsName (c :: r) rest)
      (hc : Text.isUppercase c = false) (hk : ∀ k, (c :: r, k) ∉ keywords) :
      IsLexeme rest .identifier (c :: r) (c :: r)
  | tvar {s : List Char} (h : Longest IsTypeVar s rest) : IsLexeme rest .tvar s s
  | number {s : List Char} (h : Longest IsNumber s rest) : IsLexeme rest .number s s
  | string {s value : List Char} (h : StringInterior s value) :
      IsLexeme rest .string ('"' :: (s ++ ['"'])) value
  | punctuation {c : Char} {k : TokenKind} (h : punctuation? c = some k) :
      IsLexeme rest k [c] [c]
  /-- where a comment starts there is no operator -/
  | operator {s : List Char} {k : TokenKind} (h : Longest IsOperator s rest)
      (hk : (s, k) ∈ operators) (hs : ¬StartsComment (s ++ rest)) : IsLexeme rest k s s

theorem IsLexeme.ne_nil {rest s value : List Char} {k : TokenKind}
    (h : IsLexeme rest k s value) : s ≠ [] := by
  cases h with
  | tvar h =>
    obtain ⟨r, rfl, -⟩ := h.mem
    exact List.cons_ne_nil _ _
  | number h =>
    obtain ⟨c, r, rfl, -⟩ | ⟨x, r, rfl, -⟩ := h.mem <;> exact List.cons_ne_nil _ _
  | operator h hk hs =>
    have hne : ∀ op ∈ operators, op.1 ≠ [] := by decide
    exact hne _ hk
  | _ => exact List.cons_ne_nil _ _

/-- The value of a token is its lexeme, except for a string. -/
theorem IsLexeme.value_eq {rest s value : List Char} {k : TokenKind}
    (h : IsLexeme rest k s value) (hk : k ≠ .string) : value = s := by
  cases h with
  | string h => exact absurd rfl hk
  | _ => rfl

/-! ## Comments -/

/-- A run of characters that closes `depth` comments, the last of them at its end. -/
inductive Closing : Nat → List Char → Prop
  | zero : Closing 0 []
  | succ {depth : Nat} {u s : List Char} (hu : Interior u) (hs : Closing depth s) :
      Closing (depth + 1) (u ++ '*' :: '/' :: s)

/-- Whether a mark starts in front of a run that closes a comment is seen before the run ends. -/
theorem startsMark_append_iff {c : Char} {u s t : List Char} :
    StartsMark (c :: (u ++ ['*', '/'])) ↔ StartsMark (c :: (u ++ '*' :: '/' :: s ++ t)) := by
  cases u <;> simp [StartsMark]

theorem closing_of_closeComment {depth : Nat} {s : List Char} {n : Nat}
    (h : closeComment depth s = some n) : Closing depth (s.take n) := by
  fun_induction closeComment depth s generalizing n with
  | case1 s =>
    cases h
    rw [List.take_zero]
    exact .zero
  | case2 depth => cases h
  | case3 depth r ih =>
    obtain ⟨m, hm, rfl⟩ := Option.map_eq_some_iff.1 h
    -- the comment that opens here is closed inside of the others
    generalize hr : r.take m = w
    have hclose := ih hm
    rw [hr] at hclose
    cases hclose with
    | succ hu hs =>
      cases hs with
      | succ hv hs =>
        have := Closing.succ (.nested hu hv) hs
        simpa [List.take_succ_cons, hr] using this
  | case4 depth r ih =>
    obtain ⟨m, hm, rfl⟩ := Option.map_eq_some_iff.1 h
    exact .succ .nil (ih hm)
  | case5 depth c r hopen hclose ih =>
    obtain ⟨m, hm, rfl⟩ := Option.map_eq_some_iff.1 h
    have hmark : ¬StartsMark (c :: r) := by
      rintro (⟨t, ht⟩ | ⟨t, ht⟩) <;> cases ht
      · exact hopen _ rfl rfl
      · exact hclose _ rfl rfl
    generalize hr : r.take m = w
    have hclose := ih hm
    rw [hr] at hclose
    cases hclose with
    | @succ _ u s hu hs =>
      have hplain : ¬StartsMark (c :: (u ++ ['*', '/'])) := by
        rw [startsMark_append_iff (s := s) (t := r.drop m), ← hr, List.take_append_drop]
        exact hmark
      have := Closing.succ (.char hplain hu) hs
      simpa [List.take_succ_cons, hr] using this

/-! ## Runs of characters -/

theorem of_mem_takeWhile {p : Char → Bool} {s : List Char} {d : Char} (h : d ∈ s.takeWhile p) :
    p d = true :=
  List.all_eq_true.1 List.all_takeWhile d h

/-- Behind the longest run of a class of characters no further character of the class stands. -/
theorem eq_nil_of_prefix_dropWhile {p : Char → Bool} {s t : List Char}
    (ht : t <+: s.dropWhile p) (hp : ∀ d ∈ t, p d = true) : t = [] := by
  cases t with
  | nil => rfl
  | cons d t =>
    obtain ⟨v, hv⟩ := ht
    have hd : (s.dropWhile p).head? = some d := by rw [← hv]; rfl
    have hnot := List.head?_dropWhile_not p s
    rw [hd] at hnot
    have hyes := hp d (List.mem_cons_self ..)
    simp [hyes] at hnot

theorem drop_length_takeWhile (p : Char → Bool) (s : List Char) :
    s.drop (s.takeWhile p).length = s.dropWhile p := by
  conv => lhs; arg 2; rw [← List.takeWhile_append_dropWhile (p := p) (l := s)]
  exact List.drop_left

theorem take_length_takeWhile (p : Char → Bool) (s : List Char) :
    s.take (s.takeWhile p).length = s.takeWhile p := by
  conv => lhs; arg 2; rw [← List.takeWhile_append_dropWhile (p := p) (l := s)]
  exact List.take_left

/-- A lexeme that goes on as long as the characters of a class do is the longest of its kind. -/
theorem longest_takeWhile {C : List Char → Prop} {p : Char → Bool} {s r : List Char}
    (hC : C (s ++ r.takeWhile p))
    (hmore : ∀ t, t <+: r.dropWhile p → C (s ++ r.takeWhile p ++ t) → ∀ d ∈ t, p d = true) :
    Longest C (s ++ r.takeWhile p) (r.dropWhile p) :=
  ⟨hC, fun t ht hCt => eq_nil_of_prefix_dropWhile ht (hmore t ht hCt)⟩

/-! ## Names -/

theorem isName_cons_iff {c : Char} {r : List Char} :
    IsName (c :: r) ↔ startsName c = true ∧ ∀ d ∈ r, isNameChar d = true := by
  constructor
  · rintro ⟨_, _, heq, hc, hr⟩
    cases heq
    exact ⟨hc, hr⟩
  · rintro ⟨hc, hr⟩
    exact ⟨c, r, rfl, hc, hr⟩

theorem longest_name {c : Char} (r : List Char) (hc : startsName c = true) :
    Longest IsName (c :: r.takeWhile isNameChar) (r.dropWhile isNameChar) := by
  refine longest_takeWhile (s := [c]) ?_ fun t _ ht d hd => ?_
  · exact isName_cons_iff.2 ⟨hc, isNameChar_of_mem_takeWhile⟩
  · exact (isName_cons_iff.1 ht).2 d (List.mem_append_right _ hd)

theorem isTypeVar_cons_iff {r : List Char} : IsTypeVar ('\'' :: r) ↔ IsName r := by
  constructor
  · rintro ⟨_, heq, hr⟩
    cases heq
    exact hr
  · exact fun hr => ⟨r, rfl, hr⟩

theorem longest_tvar {r : List Char} (hr : r.head?.any startsName = true) :
    Longest IsTypeVar ('\'' :: r.takeWhile isNameChar) (r.dropWhile isNameChar) := by
  obtain ⟨c, r, rfl, hc⟩ : ∃ c s, r = c :: s ∧ startsName c = true := by
    cases r with
    | nil => cases hr
    | cons c s => exact ⟨c, s, rfl, hr⟩
  have hname := isNameChar_of_startsName hc
  rw [List.takeWhile_cons, if_pos hname, List.dropWhile_cons, if_pos hname]
  refine longest_takeWhile (s := ['\'', c]) ?_ fun t _ ht d hd => ?_
  · exact isTypeVar_cons_iff.2 (isName_cons_iff.2 ⟨hc, isNameChar_of_mem_takeWhile⟩)
  · exact (isName_cons_iff.1 (isTypeVar_cons_iff.1 ht)).2 d (List.mem_append_right _ hd)

theorem mem_keywords_iff {w : List Char} {k : TokenKind} :
    (w, k) ∈ keywords ↔ keyword? w = some k := by
  constructor
  · intro h
    have hall : ∀ e ∈ keywords, keyword? e.1 = some e.2 := by decide
    exact hall (w, k) h
  · intro h
    obtain ⟨us, vs, e, -⟩ := List.lookup_eq_some_iff.1 h
    have hmem : (w, k) ∈ us ++ (w, k) :: vs := by simp
    exact e ▸ hmem

theorem isLexeme_nameKind {c : Char} {w rest : List Char} (h : Longest IsName (c :: w) rest) :
    IsLexeme rest (nameKind c (c :: w)) (c :: w) (c :: w) := by
  unfold nameKind
  split
  · next hu => exact .con h hu
  · next hu =>
    have hu : Text.isUppercase c = false := by simpa using hu
    cases hk : keyword? (c :: w) with
    | some k => exact .keyword h hu (mem_keywords_iff.2 hk)
    | none =>
      refine .identifier h hu fun k hmem => ?_
      rw [mem_keywords_iff, hk] at hmem
      cases hmem

/-! ## Numbers -/

theorem isDecimal_cons_iff {c : Char} {r : List Char} :
    IsDecimal (c :: r) ↔
      Text.isDigit c = true ∧ ∀ d ∈ r, (Text.isDigit d || d = '_') = true := by
  constructor
  · rintro ⟨_, _, heq, hc, hr⟩
    cases heq
    exact ⟨hc, hr⟩
  · rintro ⟨hc, hr⟩
    exact ⟨c, r, rfl, hc, hr⟩

theorem isHexadecimal_cons_iff {c x : Char} {r : List Char} :
    IsHexadecimal (c :: x :: r) ↔
      c = '0' ∧ (x = 'x' ∨ x = 'X') ∧ ∀ d ∈ r, (isHexDigit d || d = '_') = true := by
  constructor
  · rintro ⟨_, _, heq, hx, hr⟩
    cases heq
    exact ⟨rfl, hx, hr⟩
  · rintro ⟨rfl, hx, hr⟩
    exact ⟨x, r, rfl, hx, hr⟩

/-- A letter that makes a number hexadecimal is not a digit of a decimal one. -/
theorem not_digit_of_hexMark {x : Char} (hx : x = 'x' ∨ x = 'X') :
    ¬(Text.isDigit x || x = '_') = true := by
  rcases hx with rfl | rfl <;> decide

theorem longest_hexadecimal {x : Char} (r : List Char) (hx : x = 'x' ∨ x = 'X') :
    Longest IsNumber ('0' :: x :: r.takeWhile fun d => isHexDigit d || d = '_')
      (r.dropWhile fun d => isHexDigit d || d = '_') := by
  refine longest_takeWhile (s := ['0', x]) (.inr ?_) fun t _ ht d hd => ?_
  · exact isHexadecimal_cons_iff.2 ⟨rfl, hx, fun _ => of_mem_takeWhile⟩
  · rcases ht with ht | ht
    · exact absurd ((isDecimal_cons_iff.1 ht).2 x (List.mem_cons_self ..)) (not_digit_of_hexMark hx)
    · exact (isHexadecimal_cons_iff.1 ht).2.2 d (List.mem_append_right _ hd)

theorem longest_decimal {c : Char} {r : List Char} (hc : Text.isDigit c = true)
    (hr : c = '0' → ∀ x ∈ r.head?, ¬(x = 'x' ∨ x = 'X')) :
    Longest IsNumber (c :: r.takeWhile fun d => Text.isDigit d || d = '_')
      (r.dropWhile fun d => Text.isDigit d || d = '_') := by
  refine longest_takeWhile (s := [c]) (.inl ?_) fun t ht hnum d hd => ?_
  · exact isDecimal_cons_iff.2 ⟨hc, fun _ => of_mem_takeWhile⟩
  · rcases hnum with hdec | ⟨x, w, heq, hx, -⟩
    · exact (isDecimal_cons_iff.1 hdec).2 d (List.mem_append_right _ hd)
    · -- the letter that makes the number hexadecimal would stand right behind `c`
      obtain ⟨v, hv⟩ := ht
      obtain ⟨rfl, hw⟩ := List.cons_eq_cons.1 heq
      have hhead : r = x :: (w ++ v) := by
        rw [← List.takeWhile_append_dropWhile (l := r), ← hv, ← List.append_assoc]
        exact congrArg (· ++ v) hw
      refine absurd hx (hr rfl x ?_)
      rw [hhead]
      exact rfl

/-- The length of a number is told by its second character, if it starts with a zero. -/
theorem longest_number {c : Char} (r : List Char) (hc : Text.isDigit c = true) :
    Longest IsNumber (c :: r.take (numberLength c r)) (r.drop (numberLength c r)) := by
  fun_cases numberLength c r with
  | case1 x s hx =>
    have hx : x = 'x' ∨ x = 'X' := by simpa using hx
    rw [Nat.add_comm, List.take_succ_cons, List.drop_succ_cons, take_length_takeWhile,
      drop_length_takeWhile]
    exact longest_hexadecimal s hx
  | case2 x s hx =>
    rw [take_length_takeWhile, drop_length_takeWhile]
    refine longest_decimal hc fun _ y hy => ?_
    cases hy
    simpa using hx
  | case3 _ _ hr =>
    rw [take_length_takeWhile, drop_length_takeWhile]
    refine longest_decimal hc fun hzero x hx => ?_
    cases r with
    | nil => cases hx
    | cons y s => exact absurd rfl (hr y s hzero)

/-! ## Strings -/

/-- A string ends at the quote behind its interior. -/
theorem stringInterior_of_readString {r value : List Char} {n : Nat}
    (h : readString r = some (value, n)) :
    ∃ s, r.take n = s ++ ['"'] ∧ StringInterior s value := by
  fun_induction readString r generalizing value n with
  | case1 => cases h
  | case2 s =>
    cases h
    exact ⟨[], rfl, .nil⟩
  | case3 => cases h
  | case4 c s ih =>
    obtain ⟨⟨v, m⟩, hm, heq⟩ := Option.map_eq_some_iff.1 h
    cases heq
    obtain ⟨t, ht, hs⟩ := ih hm
    refine ⟨'\\' :: c :: t, ?_, .escaped hs⟩
    rw [List.take_succ_cons, List.take_succ_cons, ht]
    rfl
  | case5 c s hquote hfeed hescape ih =>
    obtain ⟨⟨v, m⟩, hm, heq⟩ := Option.map_eq_some_iff.1 h
    cases heq
    obtain ⟨t, ht, hs⟩ := ih hm
    have hplain : c ∉ ['"', '\\', '\n'] := by
      intro hc
      obtain rfl | rfl | rfl : c = '"' ∨ c = '\\' ∨ c = '\n' := by simpa using hc
      · exact hquote rfl
      · -- nothing stands behind the backslash, so no quote does
        cases s with
        | nil => cases hm
        | cons d s => exact hescape d s rfl rfl
      · exact hfeed rfl
    refine ⟨c :: t, ?_, .plain hplain hs⟩
    rw [List.take_succ_cons, ht]
    rfl

/-! ## Operators -/

/-- No operator is longer than one that is tried before it. -/
theorem pairwise_operators : operators.Pairwise fun a b => b.1.length ≤ a.1.length := by decide

/-- The operator that is found first is the longest. -/
theorem longest_operator {s op : List Char} {k : TokenKind}
    (h : operators.find? (fun e => e.1.isPrefixOf s) = some (op, k)) :
    Longest IsOperator op (s.drop op.length) := by
  obtain ⟨hpre, us, vs, heq, hus⟩ := List.find?_eq_some_iff_append.1 h
  obtain ⟨rest, rfl⟩ := List.isPrefixOf_iff_prefix.1 hpre
  rw [List.drop_left]
  refine ⟨⟨k, List.mem_of_find?_eq_some h⟩, fun t ht ⟨k', hk'⟩ => ?_⟩
  have hle : (op ++ t).length ≤ op.length := by
    have hsorted := pairwise_operators
    rw [heq] at hk' hsorted
    rcases List.mem_append.1 hk' with hmem | hmem
    · -- it would have been found instead
      have hstarts : (op ++ t).isPrefixOf (op ++ rest) = true :=
        List.isPrefixOf_iff_prefix.2 ((List.prefix_append_right_inj op).2 ht)
      have hnot := hus _ hmem
      simp [hstarts] at hnot
    · rcases List.mem_cons.1 hmem with hsame | hmem
      · exact Nat.le_of_eq (congrArg (fun e => e.1.length) hsame)
      · exact (List.pairwise_cons.1 (List.pairwise_append.1 hsorted).2.1).1 _ hmem
  rw [List.length_append] at hle
  exact List.length_eq_zero_iff.1 (by omega)

/-- An operator that is found in front of a source is its first characters. -/
theorem eq_of_operator {c : Char} {r op : List Char} {k : TokenKind}
    (h : operators.find? (fun e => e.1.isPrefixOf (c :: r)) = some (op, k)) :
    op = c :: r.take (op.length - 1) ∧ (c :: r).drop op.length = r.drop (op.length - 1) := by
  have hne : ∀ e ∈ operators, e.1 ≠ [] := by decide
  have hpre := List.find?_some h
  obtain ⟨rest, hrest⟩ := List.isPrefixOf_iff_prefix.1 hpre
  cases op with
  | nil => exact absurd rfl (hne _ (List.mem_of_find?_eq_some h))
  | cons d op =>
    obtain ⟨rfl, rfl⟩ := List.cons_eq_cons.1 hrest
    constructor <;> simp

/-! ## Pieces -/

theorem startsComment_cons_iff {c : Char} {r : List Char} :
    StartsComment (c :: r) ↔ c = '/' ∧ (r.head? = some '/' ∨ r.head? = some '*') := by
  cases r with
  | nil => simp [StartsComment]
  | cons d r => simp [StartsComment, eq_comm, and_or_left]

theorem gapPiece_of_piece {c : Char} {r : List Char} {n : Nat} (h : piece c r = .ok (.gap n)) :
    GapPiece (c :: r.take n) (r.drop n) := by
  unfold piece at h
  split at h
  · next hc =>
    cases h
    refine .blank ?_
    simpa [isSpace, or_assoc] using hc
  split at h
  · next hc =>
    cases h
    obtain ⟨rfl, hr⟩ : c = '/' ∧ r.head? = some '/' := by simpa using hc
    obtain ⟨r, rfl⟩ := List.head?_eq_some_iff.1 hr
    rw [List.takeWhile_cons, if_pos (by decide), List.length_cons, List.take_succ_cons,
      List.drop_succ_cons, take_length_takeWhile, drop_length_takeWhile]
    refine .line (fun hmem => ?_) fun d hd => ?_
    · simpa using of_mem_takeWhile hmem
    · have hnot := List.head?_dropWhile_not (fun d => decide (d ≠ '\n')) r
      rw [Option.mem_def.1 hd] at hnot
      simpa using hnot
  split at h
  · next hc =>
    obtain ⟨rfl, hr⟩ : c = '/' ∧ r.head? = some '*' := by simpa using hc
    obtain ⟨r, rfl⟩ := List.head?_eq_some_iff.1 hr
    split at h
    · next m hm =>
      cases h
      rw [List.take_succ_cons]
      generalize hw : r.take m = w
      have hclose := closing_of_closeComment hm
      rw [List.tail_cons, hw] at hclose
      cases hclose with
      | succ hu hs =>
        cases hs with
        | zero => exact .block hu
    · cases h
  split at h
  · split at h <;> cases h
  split at h
  · cases h
  split at h
  · split at h <;> cases h
  split at h
  · cases h
  split at h
  · cases h
  · split at h <;> cases h

theorem isLexeme_of_piece {c : Char} {r value : List Char} {k : TokenKind} {n : Nat}
    (h : piece c r = .ok (.lexeme k value n)) :
    IsLexeme (r.drop n) k (c :: r.take n) value := by
  unfold piece at h
  split at h
  · cases h
  split at h
  · cases h
  next hline =>
  split at h
  · split at h <;> cases h
  next hblock =>
  split at h
  · next hc =>
    split at h
    · next hr =>
      cases h
      obtain ⟨s, hs, hvalue⟩ := stringInterior_of_readString hr
      rw [hc, hs]
      exact .string hvalue
    · cases h
  split at h
  · next hc =>
    cases h
    exact .number (longest_number r hc)
  split at h
  · next hc =>
    split at h
    · next hr =>
      cases h
      rw [take_length_takeWhile, drop_length_takeWhile]
      exact hc ▸ .tvar (longest_tvar hr)
    · cases h
  split at h
  · next hc =>
    cases h
    rw [take_length_takeWhile, drop_length_takeWhile]
    exact isLexeme_nameKind (longest_name r hc)
  split at h
  · next hc =>
    cases h
    exact .punctuation hc
  · split at h
    · next hop =>
      cases h
      have hmem := List.mem_of_find?_eq_some hop
      have hcomment : ¬StartsComment (c :: r) := by
        rw [startsComment_cons_iff]
        simpa [and_or_left] using And.intro hline hblock
      obtain ⟨hvalue, hrest⟩ := eq_of_operator hop
      have hlongest := longest_operator hop
      rw [← hrest, ← hvalue]
      refine .operator hlongest hmem ?_
      have hstarts := List.find?_some hop
      rwa [List.prefix_iff_eq_append.1 (List.isPrefixOf_iff_prefix.1 hstarts)]
    · cases h

end Token

end ContractInterface
