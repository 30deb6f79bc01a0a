import ContractInterface.Token.Scan

/-!
# What scanning yields

The tokens of a source stand at strictly increasing positions, only the last of them is the end
mark, and every name has the form of its kind (`Lexical`).

    scan s = .ok ts → ∃ us e, ts = us ++ [e] ∧ e.kind = .finish ∧ Scanned .start us  (scanned_of_scan)
-/

namespace ContractInterface

namespace Position

/-- `p` comes before `q` and is another position. -/
def Before (p q : Position) : Prop := p.line < q.line ∨ p.line = q.line ∧ p.col < q.col

theorem Before.trans {p q r : Position} (h : p.Before q) (h' : q.Before r) : p.Before r := by
  unfold Before at *
  omega

theorem before_step (p : Position) (c : Char) : p.Before (p.step c) := by
  unfold Before step
  split
  · left
    show p.line < p.line + 1
    omega
  · right
    show p.line = p.line ∧ p.col < p.col + 1
    omega

theorem Before.le {p q : Position} (h : p.Before q) : p.le q = true := by
  unfold Before at h
  simp [Position.le]
  omega

end Position

/-! ## Tokens without positions -/

/-- The kind and the value of a token. -/
def Token.spelling (t : Token) : TokenKind × String := (t.kind, t.value)

def Token.bare (t : Token) : Token := ⟨t.kind, t.value, .unknown⟩

theorem Token.bare_eq_iff {t u : Token} :
    t.bare = u.bare ↔ t.kind = u.kind ∧ t.value = u.value := by
  simp [bare]

theorem Token.map_bare_eq_iff {ts us : List Token} :
    ts.map bare = us.map bare ↔ ts.map spelling = us.map spelling := by
  induction ts generalizing us with
  | nil => cases us <;> simp
  | cons t ts ih => cases us <;> simp [ih, bare_eq_iff, spelling]

/-! ## Runs of characters -/

/-- A run of characters with a property ends in front of what has it not. -/
theorem takeWhile_append_eq {p : Char → Bool} {a r : List Char} (ha : ∀ c ∈ a, p c = true)
    (hr : ∀ c, r.head? = some c → p c = false) : (a ++ r).takeWhile p = a := by
  rw [List.takeWhile_append_of_pos ha]
  cases r with
  | nil => simp
  | cons c t => rw [List.takeWhile_cons, if_neg (by simp [hr c rfl]), List.append_nil]

/-- No character of a name comes first. -/
def Ends (r : List Char) : Prop := ∀ c, r.head? = some c → Token.isNameChar c = false

theorem ends_nil : Ends [] := by
  rintro c ⟨⟩

theorem ends_cons {c : Char} {r : List Char} (h : Token.isNameChar c = false) : Ends (c :: r) := by
  rintro d ⟨⟩
  exact h

namespace Token

/-- The form of the tokens of a kind: names start as their kind demands, and no identifier is a
keyword; there is no token for the end. -/
def Lexical (k : TokenKind) (s : String) : Prop :=
  match k with
  | .identifier => ∃ c r, s.toList = c :: r ∧ startsName c = true ∧ Text.isUppercase c = false ∧
      (∀ d ∈ r, isNameChar d = true) ∧ keyword? (c :: r) = none
  | .con => ∃ c r, s.toList = c :: r ∧ startsName c = true ∧ Text.isUppercase c = true ∧
      ∀ d ∈ r, isNameChar d = true
  | .tvar => ∃ c r, s.toList = '\'' :: c :: r ∧ startsName c = true ∧
      ∀ d ∈ r, isNameChar d = true
  | .finish => False
  | _ => True

/-- Kinds that are no names, and not the end. -/
def isMark : TokenKind → Bool
  | .identifier | .con | .tvar | .finish => false
  | _ => true

theorem lexical_of_isMark {k : TokenKind} (h : isMark k = true) (s : String) : Lexical k s := by
  cases k <;> simp_all [isMark, Lexical]

theorem Lexical.ne_finish {k : TokenKind} {s : String} (h : Lexical k s) : k ≠ .finish := by
  rintro rfl
  exact h

theorem isMark_keyword {w : List Char} {k : TokenKind} (h : keyword? w = some k) :
    isMark k = true := by
  have hall : ∀ e ∈ keywords, isMark e.2 = true := by decide
  obtain ⟨us, vs, e, -⟩ := List.lookup_eq_some_iff.1 h
  exact hall (w, k) (by rw [e]; simp)

theorem isMark_punctuation {c : Char} {k : TokenKind} (h : punctuation? c = some k) :
    isMark k = true := by
  unfold punctuation? at h
  split at h <;> cases h <;> rfl

theorem isMark_operator {op : List Char × TokenKind} (h : op ∈ operators) :
    isMark op.2 = true := by
  have : ∀ op ∈ operators, isMark op.2 = true := by decide
  exact this op h

theorem isNameChar_of_mem_takeWhile {r : List Char} : ∀ d ∈ r.takeWhile isNameChar,
    isNameChar d = true :=
  fun _ hd => List.all_eq_true.1 List.all_takeWhile _ hd

theorem isNameChar_of_startsName {c : Char} (h : startsName c = true) : isNameChar c = true := by
  unfold startsName at h
  unfold isNameChar
  rw [Bool.or_eq_true] at h
  rcases h with h | h <;> simp [h]

/-- A name has the form of the kind that it is given. -/
theorem lexical_nameKind {c : Char} (r : List Char) (hc : startsName c = true) :
    Lexical (nameKind c (c :: r.takeWhile isNameChar))
      (String.ofList (c :: r.takeWhile isNameChar)) := by
  unfold nameKind
  split
  · next hu =>
    exact ⟨c, r.takeWhile isNameChar, String.toList_ofList, hc, hu, isNameChar_of_mem_takeWhile⟩
  · next hu =>
    cases hk : keyword? (c :: r.takeWhile isNameChar) with
    | none =>
      exact ⟨c, r.takeWhile isNameChar, String.toList_ofList, hc, by simpa using hu,
        isNameChar_of_mem_takeWhile, hk⟩
    | some k => exact lexical_of_isMark (isMark_keyword hk) _

/-- A lexeme has the form of its kind. -/
theorem lexical_of_piece {c : Char} {r value : List Char} {k : TokenKind} {more : Nat}
    (h : piece c r = .ok (.lexeme k value more)) : Lexical k (String.ofList value) := by
  unfold piece at h
  split at h
  · cases h
  split at h
  · cases h
  split at h
  · split at h <;> cases h
  split at h
  · split at h <;> cases h
    trivial
  split at h
  · cases h
    trivial
  split at h
  · next hc =>
    split at h
    · next hr =>
      cases h
      obtain ⟨d, t, rfl, hd⟩ : ∃ d t, r = d :: t ∧ startsName d = true := by
        cases r with
        | nil => cases hr
        | cons d t => exact ⟨d, t, rfl, hr⟩
      have hname := isNameChar_of_startsName hd
      refine ⟨d, t.takeWhile isNameChar, ?_, hd, isNameChar_of_mem_takeWhile⟩
      rw [String.toList_ofList, hc, List.takeWhile_cons, if_pos hname]
    · cases h
  split at h
  · next hc =>
    cases h
    exact lexical_nameKind r hc
  split at h
  · next hp =>
    cases h
    exact lexical_of_isMark (isMark_punctuation hp) _
  · split at h
    · next hop =>
      cases h
      exact lexical_of_isMark (isMark_operator (List.mem_of_find?_eq_some hop)) _
    · cases h

/-- Tokens that were scanned from `p` on. -/
structure Scanned (p : Position) (us : List Token) : Prop where
  from_le : ∀ t ∈ us, p.le t.pos = true
  increasing : us.Pairwise fun t u => t.pos.Before u.pos
  lexical : ∀ t ∈ us, Lexical t.kind t.value

theorem Scanned.mono {p q : Position} {us : List Token} (h : Scanned q us) (hpq : p.le q = true) :
    Scanned p us :=
  ⟨fun t ht => Position.le_trans hpq (h.from_le t ht), h.increasing, h.lexical⟩

theorem scanned_of_scanFrom {p : Position} {skip : Nat} {s : List Char} {ts : List Token}
    (h : scanFrom p skip s = .ok ts) :
    ∃ us e, ts = us ++ [e] ∧ e.kind = .finish ∧ Scanned p us := by
  induction s generalizing p skip ts with
  | nil =>
    rw [scanFrom] at h
    cases h
    exact ⟨[], _, rfl, rfl, by simp, .nil, by simp⟩
  | cons c r ih =>
    have hstep := Position.before_step p c
    cases skip with
    | succ skip =>
      obtain ⟨us, e, rfl, he, hus⟩ := ih h
      exact ⟨us, e, rfl, he, hus.mono hstep.le⟩
    | zero =>
      rw [scanFrom] at h
      split at h
      · cases h
      · obtain ⟨us, e, rfl, he, hus⟩ := ih h
        exact ⟨us, e, rfl, he, hus.mono hstep.le⟩
      · next kind value more hpiece =>
        split at h
        · next ts hts =>
          cases h
          obtain ⟨us, e, rfl, he, hus⟩ := ih hts
          refine ⟨_ :: us, e, rfl, he, ?_, ?_, ?_⟩
          · rintro t (_ | ⟨_, ht⟩)
            · exact Position.le_refl p
            · exact Position.le_trans hstep.le (hus.from_le t ht)
          · refine List.pairwise_cons.2 ⟨fun t ht => ?_, hus.increasing⟩
            have hle := hus.from_le t ht
            show p.Before t.pos
            unfold Position.Before at hstep ⊢
            simp [Position.le] at hle
            omega
          · rintro t (_ | ⟨_, ht⟩)
            · exact lexical_of_piece hpiece
            · exact hus.lexical t ht
        · cases h

/-- Only the last token of a source is its end mark; the others are as `Scanned` says. -/
theorem scanned_of_scan {source : String} {ts : List Token} (h : scan source = .ok ts) :
    ∃ us e, ts = us ++ [e] ∧ e.kind = .finish ∧ Scanned .start us :=
  scanned_of_scanFrom h

end Token

end ContractInterface
