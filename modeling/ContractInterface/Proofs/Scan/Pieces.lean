import ContractInterface.Proofs.Scan.Lexemes
import ContractInterface.Proofs.Text.Ranges

/-!
# Every gap and every lexeme is found

What may stand in front of a rest as a piece of a gap or as a lexeme is the piece that `piece` finds
there, so that a source has no other pieces than these:

    GapPiece (c :: s) rest → piece c (s ++ rest) = .ok (.gap s.length)               (piece_of_gapPiece)
    IsLexeme rest k (c :: s) v → piece c (s ++ rest) = .ok (.lexeme k v s.length)    (piece_of_isLexeme)

A gap or a lexeme in front of a text stands in front of every beginning of that text, so a source may
be cut behind it (`IsGap.cut`, `IsLexeme.cut`).
-/

namespace ContractInterface

/-! ## Letters are no digits -/

namespace Text

theorem apart_letterRanges_digitRanges : letterRanges.apart digitRanges = true := by
  have hswept : letterRanges.ordered 0 = true ∧ digitRanges.ordered 0 = true ∧
      letterRanges.sweep digitRanges = true := by decide +kernel
  exact Ranges.apart_of_sweep hswept.1 hswept.2.1 hswept.2.2

theorem isDigit_eq_false_of_isLetter {c : Char} (h : isLetter c = true) : isDigit c = false := by
  unfold isLetter at h
  unfold isDigit
  split at h
  · next hc =>
    have hletter := toNat_of_isAlpha h
    have hdigit : 48 ≤ c.toNat → 57 < c.toNat := by omega
    rw [if_pos hc]
    simpa [Char.isDigit, UInt32.le_iff_toNat_le, UInt32.lt_iff_toNat_lt] using hdigit
  · next hc =>
    rw [if_neg hc]
    exact Ranges.has_eq_false_of_apart apart_letterRanges_digitRanges h

end Text

namespace Token

/-! ## Comments -/

theorem closeComment_cons {c : Char} {s : List Char} (h : ¬StartsMark (c :: s)) (depth : Nat) :
    closeComment (depth + 1) (c :: s) = (closeComment (depth + 1) s).map (· + 1) := by
  rw [closeComment]
  · rintro r rfl rfl
    exact h (.inl ⟨r, rfl⟩)
  · rintro r rfl rfl
    exact h (.inr ⟨r, rfl⟩)

theorem startsMark_cons_iff {c : Char} {s : List Char} : StartsMark (c :: s) ↔
    c = '/' ∧ s.head? = some '*' ∨ c = '*' ∧ s.head? = some '/' := by
  cases s <;> simp [StartsMark, eq_comm]

/-- Behind the interior of a comment one comment less is open. -/
theorem closeComment_interior {u : List Char} (hu : Interior u) (depth : Nat) (t : List Char) :
    closeComment (depth + 1) (u ++ '*' :: '/' :: t) =
      (closeComment depth t).map (· + (u.length + 2)) := by
  induction hu generalizing depth t with
  | nil =>
    rw [List.nil_append, closeComment]
    rfl
  | @char c s hc hs ih =>
    have hmark : ¬StartsMark (c :: (s ++ '*' :: '/' :: t)) := by
      rwa [startsMark_append_iff (s := t) (t := []), List.append_nil] at hc
    rw [List.cons_append, closeComment_cons hmark, ih, Option.map_map]
    rfl
  | @nested u s hu hs ihu ihs =>
    have hassoc : '/' :: '*' :: (u ++ '*' :: '/' :: s) ++ '*' :: '/' :: t =
        '/' :: '*' :: (u ++ '*' :: '/' :: (s ++ '*' :: '/' :: t)) := by simp
    rw [hassoc, closeComment, ihu, ihs, Option.map_map, Option.map_map]
    congr 1
    funext n
    show n + (s.length + 2) + (u.length + 2) + 2 =
      n + (('/' :: '*' :: (u ++ '*' :: '/' :: s)).length + 2)
    simp only [List.length_cons, List.length_append]
    omega

/-! ## Strings -/

/-- The interior of a string is passed, whatever follows it. -/
theorem readString_interior {s value : List Char} (h : StringInterior s value) (t : List Char) :
    readString (s ++ t) = (readString t).map fun x => (value ++ x.1, s.length + x.2) := by
  induction h with
  | nil =>
    rw [List.nil_append]
    cases readString t with
    | none => rfl
    | some x => simp
  | @plain c s value hc hs ih =>
    simp only [List.mem_cons, List.not_mem_nil, or_false, not_or] at hc
    obtain ⟨hquote, hslash, hfeed⟩ := hc
    rw [List.cons_append, readString, ih, Option.map_map]
    · congr 1
      funext x
      simp only [Function.comp, List.cons_append, List.length_cons, Prod.mk.injEq, true_and]
      omega
    · exact hquote
    · exact hfeed
    · rintro d u rfl
      exact absurd rfl hslash
  | @escaped c s value hs ih =>
    rw [List.cons_append, List.cons_append, readString, ih, Option.map_map]
    congr 1
    funext x
    simp only [Function.comp, List.cons_append, List.length_cons, Prod.mk.injEq, true_and]
    omega

/-! ## The longest lexeme -/

/-- No two lexemes of a class are the longest of one text. -/
theorem Longest.unique {C : List Char → Prop} {s s' rest rest' : List Char}
    (h : Longest C s rest) (h' : Longest C s' rest') (heq : s ++ rest = s' ++ rest') : s = s' := by
  have hs : s <+: s ++ rest := List.prefix_append s rest
  have hs' : s' <+: s ++ rest := heq ▸ List.prefix_append s' rest'
  obtain ⟨t, rfl⟩ | ⟨t, rfl⟩ := List.prefix_or_prefix_of_prefix hs hs'
  · rw [List.append_assoc] at heq
    have ht := h.eq_nil t ⟨rest', (List.append_cancel_left heq).symm⟩ h'.mem
    rw [ht, List.append_nil]
  · rw [List.append_assoc] at heq
    have ht := h'.eq_nil t ⟨rest, List.append_cancel_left heq⟩ h.mem
    rw [ht, List.append_nil]

/-- A name goes on as long as characters of names do. -/
theorem ends_of_longest {C : List Char → Prop} {s rest : List Char} (h : Longest C s rest)
    (hC : ∀ d, isNameChar d = true → C (s ++ [d])) : Ends rest := by
  intro d hd
  rw [Bool.eq_false_iff]
  intro hname
  obtain ⟨t, rfl⟩ := List.head?_eq_some_iff.1 hd
  exact List.cons_ne_nil _ _ (h.eq_nil [d] ⟨t, rfl⟩ (hC d hname))

/-! ## Pieces that are names -/

/-- What starts a name starts no other piece. -/
theorem ne_of_startsName {c : Char} (h : startsName c = true) :
    isSpace c = false ∧ c ≠ '/' ∧ c ≠ '"' ∧ Text.isDigit c = false ∧ c ≠ '\'' := by
  have hmark {d : Char} (hd : startsName d = false) : c ≠ d := by
    rintro rfl
    rw [h] at hd
    cases hd
  refine ⟨?_, hmark (by decide), hmark (by decide), ?_, hmark (by decide)⟩
  · have hspace : c ≠ ' ' ∧ c ≠ '\t' ∧ c ≠ '\r' ∧ c ≠ '\n' :=
      ⟨hmark (by decide), hmark (by decide), hmark (by decide), hmark (by decide)⟩
    simpa [isSpace, and_assoc] using hspace
  · rw [startsName, Bool.or_eq_true] at h
    obtain hletter | hlow := h
    · exact Text.isDigit_eq_false_of_isLetter hletter
    · obtain rfl : c = '_' := of_decide_eq_true hlow
      decide

section

variable {c : Char} {s r : List Char}

theorem piece_name (hc : startsName c = true) (hs : ∀ d ∈ s, isNameChar d = true) (hr : Ends r) :
    piece c (s ++ r) = .ok (.lexeme (nameKind c (c :: s)) (c :: s) s.length) := by
  obtain ⟨hspace, hslash, hquote, hdigit, htick⟩ := ne_of_startsName hc
  unfold piece
  simp only [hspace, hslash, hquote, hdigit, htick, hc, takeWhile_append_eq hs hr, if_false, if_true,
    Bool.false_eq_true, decide_false, Bool.false_and]

theorem piece_tvar (hc : startsName c = true) (hs : ∀ d ∈ s, isNameChar d = true) (hr : Ends r) :
    piece '\'' (c :: s ++ r) = .ok (.lexeme .tvar ('\'' :: c :: s) (c :: s).length) := by
  have hname : ∀ d ∈ c :: s, isNameChar d = true :=
    List.forall_mem_cons.2 ⟨isNameChar_of_startsName hc, hs⟩
  have hhead : (c :: s ++ r).head?.any startsName = true := hc
  unfold piece
  rw [takeWhile_append_eq hname hr, hhead]
  rfl

end

theorem piece_punctuation {c : Char} {k : TokenKind} (h : punctuation? c = some k)
    (r : List Char) : piece c r = .ok (.lexeme k [c] 0) := by
  unfold punctuation? at h
  split at h <;> cases h <;> rfl

/-! ## Lengths -/

theorem closeComment_le {depth : Nat} {s : List Char} {n : Nat} (h : closeComment depth s = some n) :
    n ≤ s.length := by
  fun_induction closeComment depth s generalizing n with
  | case1 s =>
    cases h
    exact Nat.zero_le _
  | case2 depth => cases h
  | case3 depth r ih | case4 depth r ih =>
    obtain ⟨m, hm, rfl⟩ := Option.map_eq_some_iff.1 h
    exact Nat.add_le_add_right (ih hm) 2
  | case5 depth c r hopen hclose ih =>
    obtain ⟨m, hm, rfl⟩ := Option.map_eq_some_iff.1 h
    exact Nat.succ_le_succ (ih hm)

theorem readString_le {r value : List Char} {n : Nat} (h : readString r = some (value, n)) :
    n ≤ r.length := by
  fun_induction readString r generalizing value n with
  | case1 => cases h
  | case2 r =>
    cases h
    exact Nat.succ_le_succ (Nat.zero_le _)
  | case3 => cases h
  | case4 c r ih =>
    obtain ⟨⟨v, m⟩, hm, heq⟩ := Option.map_eq_some_iff.1 h
    cases heq
    exact Nat.add_le_add_right (ih hm) 2
  | case5 c r hquote hfeed hescape ih =>
    obtain ⟨⟨v, m⟩, hm, heq⟩ := Option.map_eq_some_iff.1 h
    cases heq
    exact Nat.succ_le_succ (ih hm)

theorem numberLength_le (c : Char) (r : List Char) : numberLength c r ≤ r.length := by
  have hrun (p : Char → Bool) (s : List Char) : (s.takeWhile p).length ≤ s.length :=
    (List.takeWhile_sublist p).length_le
  fun_cases numberLength c r with
  | case1 x s hx =>
    have := hrun (fun d => isHexDigit d || d = '_') s
    rw [List.length_cons]
    omega
  | _ => exact hrun _ _

/-- A piece lies within the source. -/
theorem le_length_of_piece {c : Char} {r : List Char} {m : Nat}
    (h : piece c r = .ok (.gap m) ∨ ∃ k v, piece c r = .ok (.lexeme k v m)) : m ≤ r.length := by
  have hrun (p : Char → Bool) : (r.takeWhile p).length ≤ r.length :=
    (List.takeWhile_sublist p).length_le
  unfold piece at h
  split at h
  · obtain h | ⟨k, v, h⟩ := h <;> cases h
    exact Nat.zero_le _
  split at h
  · obtain h | ⟨k, v, h⟩ := h <;> cases h
    exact hrun _
  split at h
  · next hc =>
    obtain ⟨-, hr⟩ : c = '/' ∧ r.head? = some '*' := by simpa using hc
    obtain ⟨t, rfl⟩ := List.head?_eq_some_iff.1 hr
    split at h
    · next n hn =>
      obtain h | ⟨k, v, h⟩ := h <;> cases h
      exact Nat.succ_le_succ (closeComment_le hn)
    · obtain h | ⟨k, v, h⟩ := h <;> cases h
  split at h
  · split at h
    · next hs =>
      obtain h | ⟨k, v, h⟩ := h <;> cases h
      exact readString_le hs
    · obtain h | ⟨k, v, h⟩ := h <;> cases h
  split at h
  · obtain h | ⟨k, v, h⟩ := h <;> cases h
    exact numberLength_le c r
  split at h
  · split at h
    · obtain h | ⟨k, v, h⟩ := h <;> cases h
      exact hrun _
    · obtain h | ⟨k, v, h⟩ := h <;> cases h
  split at h
  · obtain h | ⟨k, v, h⟩ := h <;> cases h
    exact hrun _
  split at h
  · obtain h | ⟨k, v, h⟩ := h <;> cases h
    exact Nat.zero_le _
  · split at h
    · next op k hop =>
      have hfound := List.find?_some hop
      have hlength : op.length ≤ (c :: r).length :=
        (List.isPrefixOf_iff_prefix.1 hfound).length_le
      obtain h | ⟨k, v, h⟩ := h <;> cases h
      rw [List.length_cons] at hlength
      omega
    · obtain h | ⟨k, v, h⟩ := h <;> cases h

/-! ## Pieces by their first characters -/

theorem piece_blank {c : Char} (h : c ∈ [' ', '\t', '\r', '\n']) (r : List Char) :
    piece c r = .ok (.gap 0) := by
  simp only [List.mem_cons, List.not_mem_nil, or_false] at h
  obtain rfl | rfl | rfl | rfl := h <;> rfl

theorem piece_feed (r : List Char) : piece '\n' r = .ok (.gap 0) := rfl

theorem piece_quote (r : List Char) : piece '"' r =
    match readString r with
    | some (v, n) => .ok (.lexeme .string v n)
    | none => .error (.scan Cause.scanDetail) := rfl

theorem piece_lineComment {r : List Char} (h : r.head? = some '/') :
    piece '/' r = .ok (.gap (r.takeWhile (· ≠ '\n')).length) := by
  rw [piece, if_neg (by decide), if_pos (by simp [h])]

theorem piece_blockComment (r : List Char) : piece '/' ('*' :: r) =
    match closeComment 1 r with
    | some n => .ok (.gap (n + 1))
    | none => .error (.unfinished Cause.scanDetail) := rfl

theorem piece_digit {c : Char} (h : Text.isDigit c = true) (r : List Char) : piece c r =
    .ok (.lexeme .number (c :: r.take (numberLength c r)) (numberLength c r)) := by
  have hmark {d : Char} (hd : Text.isDigit d = false) : c ≠ d := by
    rintro rfl
    rw [h] at hd
    cases hd
  have hspace : isSpace c = false := by
    have hblank : c ≠ ' ' ∧ c ≠ '\t' ∧ c ≠ '\r' ∧ c ≠ '\n' :=
      ⟨hmark (by decide), hmark (by decide), hmark (by decide), hmark (by decide)⟩
    simpa [isSpace, and_assoc] using hblank
  have hslash : c ≠ '/' := hmark (by decide)
  have hquote : c ≠ '"' := hmark (by decide)
  unfold piece
  simp only [hspace, hslash, hquote, h, if_false, if_true, Bool.false_eq_true, decide_false,
    Bool.false_and]

/-- Nothing but an operator can start here. -/
structure StartsOther (c : Char) (r : List Char) : Prop where
  space : isSpace c = false
  comment : ¬StartsComment (c :: r)
  quote : c ≠ '"'
  digit : Text.isDigit c = false
  tick : c ≠ '\''
  name : startsName c = false
  mark : punctuation? c = none

theorem piece_of_startsOther {c : Char} {r : List Char} (h : StartsOther c r) : piece c r =
    match operators.find? fun op => op.1.isPrefixOf (c :: r) with
    | some (op, kind) => .ok (.lexeme kind op (op.length - 1))
    | none => .error (.scan Cause.scanDetail) := by
  have hcomment := h.comment
  rw [startsComment_cons_iff, and_or_left, not_or] at hcomment
  have hline : ¬(decide (c = '/') && decide (r.head? = some '/')) = true := by
    simpa using hcomment.1
  have hblock : ¬(decide (c = '/') && decide (r.head? = some '*')) = true := by
    simpa using hcomment.2
  unfold piece
  rw [if_neg (by rw [h.space]; exact Bool.false_ne_true), if_neg hline, if_neg hblock,
    if_neg h.quote, if_neg (by rw [h.digit]; exact Bool.false_ne_true), if_neg h.tick,
    if_neg (by rw [h.name]; exact Bool.false_ne_true)]
  generalize hp : punctuation? c = p
  obtain rfl : none = p := h.mark.symm.trans hp
  rfl

/-! ## Gaps and lexemes are found -/

theorem piece_of_gapPiece {c : Char} {s rest : List Char} (h : GapPiece (c :: s) rest) :
    piece c (s ++ rest) = .ok (.gap s.length) := by
  generalize hw : c :: s = w at h
  cases h with
  | blank hc =>
    cases hw
    exact piece_blank hc _
  | @line u _ hu hrest =>
    cases hw
    have hrun : (u ++ rest).takeWhile (· ≠ '\n') = u := by
      refine takeWhile_append_eq (fun d hd => ?_) fun d hd => ?_
      · have hne : d ≠ '\n' := by
          rintro rfl
          exact hu hd
        simpa using hne
      · simpa using hrest d hd
    rw [piece_lineComment rfl, List.cons_append, List.takeWhile_cons, if_pos (by decide), hrun]
  | @block u _ hu =>
    cases hw
    rw [List.cons_append, List.append_assoc, piece_blockComment]
    have hclose := closeComment_interior hu 0 rest
    rw [closeComment] at hclose
    show (match closeComment 1 (u ++ '*' :: '/' :: rest) with
      | some n => (.ok (.gap (n + 1)) : Except Cause Piece)
      | none => .error (.unfinished Cause.scanDetail)) = _
    rw [hclose]
    simp

/-- What the operators start with starts nothing else. -/
theorem startsOther_of_operator {op : List Char} {k : TokenKind} {r : List Char} {c : Char}
    (h : (c :: op, k) ∈ operators) (hcomment : ¬StartsComment (c :: r)) : StartsOther c r := by
  have hall : ∀ e ∈ operators, (e.1.head?.all fun d => isSpace d = false ∧ d ≠ '"' ∧
      Text.isDigit d = false ∧ d ≠ '\'' ∧ startsName d = false ∧ punctuation? d = none) = true := by
    decide
  obtain ⟨hspace, hquote, hdigit, htick, hname, hmark⟩ := of_decide_eq_true (hall _ h)
  exact ⟨hspace, hcomment, hquote, hdigit, htick, hname, hmark⟩

theorem piece_operator {c : Char} {s rest : List Char} {k : TokenKind}
    (h : Longest IsOperator (c :: s) rest) (hk : (c :: s, k) ∈ operators)
    (hcomment : ¬StartsComment (c :: (s ++ rest))) :
    piece c (s ++ rest) = .ok (.lexeme k (c :: s) s.length) := by
  rw [piece_of_startsOther (startsOther_of_operator hk hcomment)]
  cases hfind : operators.find? fun op => op.1.isPrefixOf (c :: (s ++ rest)) with
  | none =>
    have hnot := List.find?_eq_none.1 hfind _ hk
    rw [← List.cons_append, List.isPrefixOf_iff_prefix] at hnot
    exact absurd (List.prefix_append _ _) hnot
  | some found =>
    obtain ⟨op, k'⟩ := found
    have hpre := List.find?_some hfind
    rw [List.isPrefixOf_iff_prefix] at hpre
    have hsplit : c :: s ++ rest = op ++ (c :: (s ++ rest)).drop op.length :=
      (List.prefix_iff_eq_append.1 hpre).symm
    obtain rfl := h.unique (longest_operator hfind) hsplit
    -- no operator is listed twice
    have hkinds : ∀ a ∈ operators, ∀ b ∈ operators, a.1 = b.1 → a.2 = b.2 := by decide
    obtain rfl : k' = k := hkinds _ (List.mem_of_find?_eq_some hfind) _ hk rfl
    rfl

theorem piece_number {c : Char} {s rest : List Char} (h : Longest IsNumber (c :: s) rest) :
    piece c (s ++ rest) = .ok (.lexeme .number (c :: s) s.length) := by
  have hc : Text.isDigit c = true := by
    obtain hdecimal | ⟨x, t, heq, -⟩ := h.mem
    · exact (isDecimal_cons_iff.1 hdecimal).1
    · cases heq
      decide
  have hsplit : c :: s ++ rest = c :: (s ++ rest).take (numberLength c (s ++ rest)) ++
      (s ++ rest).drop (numberLength c (s ++ rest)) := by
    rw [List.cons_append, List.cons_append, List.take_append_drop]
  have hnumber := h.unique (longest_number (s ++ rest) hc) hsplit
  have hlength : s.length = numberLength c (s ++ rest) := by
    have hle := numberLength_le c (s ++ rest)
    have hlength := congrArg List.length hnumber
    simp only [List.length_cons, List.length_take] at hlength
    omega
  rw [piece_digit hc, ← hnumber, hlength]

theorem piece_of_longest_name {c : Char} {s rest : List Char} (h : Longest IsName (c :: s) rest) :
    piece c (s ++ rest) = .ok (.lexeme (nameKind c (c :: s)) (c :: s) s.length) := by
  obtain ⟨hc, hs⟩ := isName_cons_iff.1 h.mem
  refine piece_name hc hs (ends_of_longest h fun d hd => isName_cons_iff.2 ⟨hc, ?_⟩)
  simpa [or_imp, forall_and] using And.intro hs hd

theorem piece_of_longest_tvar {s rest : List Char} (h : Longest IsTypeVar ('\'' :: s) rest) :
    piece '\'' (s ++ rest) = .ok (.lexeme .tvar ('\'' :: s) s.length) := by
  obtain ⟨c, t, rfl, hc, ht⟩ := isTypeVar_cons_iff.1 h.mem
  refine piece_tvar hc ht (ends_of_longest h fun d hd => ?_)
  refine isTypeVar_cons_iff.2 (isName_cons_iff.2 ⟨hc, ?_⟩)
  simpa [or_imp, forall_and] using And.intro ht hd

theorem piece_of_isLexeme {c : Char} {s rest value : List Char} {k : TokenKind}
    (h : IsLexeme rest k (c :: s) value) :
    piece c (s ++ rest) = .ok (.lexeme k value s.length) := by
  generalize hw : c :: s = w at h
  cases h with
  | con hlong hc =>
    cases hw
    rw [piece_of_longest_name hlong, nameKind, if_pos hc]
  | keyword hlong hc hk =>
    cases hw
    rw [piece_of_longest_name hlong, nameKind, if_neg (by rw [hc]; exact Bool.false_ne_true),
      mem_keywords_iff.1 hk]
    rfl
  | identifier hlong hc hk =>
    cases hw
    have hnone : keyword? (c :: s) = none := by
      rw [Option.eq_none_iff_forall_ne_some]
      exact fun k hsome => hk k (mem_keywords_iff.2 hsome)
    rw [piece_of_longest_name hlong, nameKind, if_neg (by rw [hc]; exact Bool.false_ne_true), hnone]
    rfl
  | tvar hlong =>
    obtain ⟨t, ht, -⟩ := hlong.mem
    rw [← hw] at ht
    cases ht
    subst hw
    exact piece_of_longest_tvar hlong
  | number hlong =>
    subst hw
    exact piece_number hlong
  | @string t _ ht =>
    cases hw
    rw [piece_quote, List.append_assoc, readString_interior ht]
    simp [readString]
  | punctuation hc =>
    cases hw
    exact piece_punctuation hc rest
  | operator hlong hk hs =>
    subst hw
    exact piece_operator hlong hk hs

/-! ## Cuts -/

section

variable {rest more : List Char}

theorem GapPiece.cut {g : List Char} (h : GapPiece g (rest ++ more)) : GapPiece g rest := by
  cases h with
  | blank hc => exact .blank hc
  | line hu hrest =>
    refine .line hu fun c hc => hrest c ?_
    obtain ⟨t, rfl⟩ := List.head?_eq_some_iff.1 hc
    rfl
  | block hu => exact .block hu

theorem IsGap.cut {g : List Char} (h : IsGap (rest ++ more) g) : IsGap rest g := by
  induction h with
  | nil => exact .nil
  | cons hg hs ih =>
    rw [← List.append_assoc] at hg
    exact .cons hg.cut ih

theorem Longest.cut {C : List Char → Prop} {s : List Char} (h : Longest C s (rest ++ more)) :
    Longest C s rest :=
  ⟨h.mem, fun t ht hC => h.eq_nil t (ht.trans (List.prefix_append rest more)) hC⟩

theorem IsLexeme.cut {s value : List Char} {k : TokenKind} (h : IsLexeme (rest ++ more) k s value) :
    IsLexeme rest k s value := by
  cases h with
  | con hlong hc => exact .con hlong.cut hc
  | keyword hlong hc hk => exact .keyword hlong.cut hc hk
  | identifier hlong hc hk => exact .identifier hlong.cut hc hk
  | tvar hlong => exact .tvar hlong.cut
  | number hlong => exact .number hlong.cut
  | string hs => exact .string hs
  | punctuation hc => exact .punctuation hc
  | operator hlong hk hs =>
    refine .operator hlong.cut hk fun hcomment => hs ?_
    rw [← List.append_assoc]
    have hpre := List.prefix_append (s ++ rest) more
    exact hcomment.imp (·.trans hpre) (·.trans hpre)

end

end Token

end ContractInterface
