import ContractInterface.Json.Read
import ContractInterface.Json.Write

/-!
# Reading strings and numbers back

    stringChars lone o (s.flatMap escapeChar ++ '"' :: rest)  gives  s  in front of  rest
                                                                       (stringChars_escaped)
    scalar ((Decimal.intText n).toList ++ rest)               gives  n  in front of  rest
                                                                       (scalar_intText)

A number is read as far as it goes, so `rest` has to start with something else (`Stops`).
-/

namespace ContractInterface.Json

open Reading

variable {α : Type}

/-- Reading `s` gives the value `a` in front of `rest`. -/
def Gives (p : (s : List Char) → Except Fault (Taken α s)) (s : List Char) (a : α)
    (rest : List Char) : Prop :=
  ∃ h, p s = .ok ⟨a, rest, h⟩

/-- What stands behind a value in a written text. -/
def Stops (rest : List Char) : Prop :=
  ∀ c, rest.head? = some c → c = ',' ∨ c = '\n' ∨ c = ']' ∨ c = '\x7d'

theorem stops_nil : Stops [] := by
  intro c h
  cases h

theorem stops_cons {c : Char} {r : List Char} (h : c = ',' ∨ c = '\n' ∨ c = ']' ∨ c = '\x7d') :
    Stops (c :: r) := by
  rintro d ⟨⟩
  exact h

/-! ## Strings -/

/-- The four digits of a code below the space, as they are read. -/
theorem hexDigits_control (n : Nat) (h : n < 32) : ∃ a b c d : Char,
    Text.hexDigits 4 n = [a, b, c, d] ∧ hex4? [a, b, c, d] = some n := by
  have : ∀ k : Fin 32, hex4? (Text.hexDigits 4 k.val) = some k.val := by decide
  have hn := this ⟨n, h⟩
  exact ⟨_, _, _, _, rfl, hn⟩

theorem codeEscape_control (lone : Nat → Char) (n : Nat) (h : n < 32) (e : Char)
    (r : List Char) :
    codeEscape lone (Text.hexDigits 4 n ++ e :: r) = .ok (Char.ofNat n, 4) := by
  obtain ⟨a, b, c, d, hd, hn⟩ := hexDigits_control n h
  have hn' : hex4? (a :: b :: c :: d :: e :: r) = some n := hn
  have hhigh : Text.isHigh n = false := by
    simp [Text.isHigh]
    omega
  have hlow : Text.isLow n = false := by
    simp [Text.isLow]
    omega
  rw [hd]
  unfold codeEscape
  simp [hn', hhigh, Text.charOf, Text.isSurrogate, hlow]

/-- The three ways in which a character is written. -/
theorem escapeChar_cases (c : Char) :
    (∃ e, escapeChar c = ['\\', e] ∧ e ≠ 'u' ∧ unescape? e = some c) ∨
      (c.toNat < 32 ∧ escapeChar c = '\\' :: 'u' :: Text.hexDigits 4 c.toNat) ∨
      (escapeChar c = [c] ∧ ¬c.toNat < 32 ∧ c ≠ '"' ∧ c ≠ '\\') := by
  unfold escapeChar
  split
  case h_8 h₁ h₂ _ _ _ _ _ =>
    split
    · next hc => exact .inr (.inl ⟨hc, rfl⟩)
    · next hc => exact .inr (.inr ⟨rfl, hc, h₁, h₂⟩)
  all_goals exact .inl ⟨_, rfl, by decide, rfl⟩

section

variable {lone : Nat → Char} {opening : Nat} {t rest cs : List Char} {c : Char}

attribute [local simp] stringChars

theorem stringChars_quote :
    stringChars lone opening ('"' :: rest) = .ok ⟨[], rest, Nat.le_succ _⟩ := by
  simp

theorem stringChars_code {n : Nat} (hc : codeEscape lone t = .ok (c, n))
    (h : Gives (stringChars lone opening) (t.drop n) cs rest) :
    Gives (stringChars lone opening) ('\\' :: 'u' :: t) (c :: cs) rest := by
  obtain ⟨hle, hs⟩ := h
  have hlen : rest.length ≤ ('\\' :: 'u' :: t).length := by
    rw [List.length_drop] at hle
    simp only [List.length_cons]
    omega
  refine ⟨hlen, ?_⟩
  simp [hc, hs]

theorem stringChars_escape {e : Char} (he : e ≠ 'u') (hc : unescape? e = some c)
    (h : Gives (stringChars lone opening) t cs rest) :
    Gives (stringChars lone opening) ('\\' :: e :: t) (c :: cs) rest := by
  obtain ⟨hle, hs⟩ := h
  refine ⟨Nat.le_succ_of_le (Nat.le_succ_of_le hle), ?_⟩
  simp [hc, hs]

theorem stringChars_plain (hq : c ≠ '"') (hb : c ≠ '\\') (hc : ¬c.toNat < 32)
    (h : Gives (stringChars lone opening) t cs rest) :
    Gives (stringChars lone opening) (c :: t) (c :: cs) rest := by
  obtain ⟨hle, hs⟩ := h
  refine ⟨Nat.le_succ_of_le hle, ?_⟩
  simp [hc, hs]

/-- A written character is read as that character. -/
theorem stringChars_escapeChar {e : Char} (c : Char)
    (h : Gives (stringChars lone opening) (e :: t) cs rest) :
    Gives (stringChars lone opening) (escapeChar c ++ e :: t) (c :: cs) rest := by
  rcases escapeChar_cases c with ⟨d, he, hu, hd⟩ | ⟨hc, he⟩ | ⟨he, hc, hq, hb⟩
  · rw [he]
    exact stringChars_escape hu hd h
  · have hcode := codeEscape_control lone c.toNat hc e t
    have hdrop : (Text.hexDigits 4 c.toNat ++ e :: t).drop 4 = e :: t := by
      obtain ⟨_, _, _, _, hd, -⟩ := hexDigits_control c.toNat hc
      rw [hd]
      rfl
    rw [Char.ofNat_toNat] at hcode
    rw [he, List.cons_append, List.cons_append]
    exact stringChars_code hcode (by rwa [hdrop])
  · rw [he]
    exact stringChars_plain hq hb hc h

end

theorem stringChars_escaped (lone : Nat → Char) (opening : Nat) (s rest : List Char) :
    Gives (stringChars lone opening) (s.flatMap escapeChar ++ '"' :: rest) s rest := by
  induction s with
  | nil =>
    rw [List.flatMap_nil, List.nil_append]
    exact ⟨Nat.le_succ _, stringChars_quote⟩
  | cons c s ih =>
    rw [List.flatMap_cons, List.append_assoc]
    obtain ⟨e, t, he⟩ : ∃ e t, s.flatMap escapeChar ++ '"' :: rest = e :: t :=
      List.exists_cons_of_ne_nil (by simp)
    rw [he] at ih ⊢
    exact stringChars_escapeChar c ih

/-- A written string is read back, behind its opening quote. -/
theorem string_written (lone : Nat → Char) (s : String) (rest : List Char) :
    ∃ t, writeString s ++ rest = '"' :: t ∧ Gives (string lone) t s rest := by
  refine ⟨s.toList.flatMap escapeChar ++ '"' :: rest, by simp [writeString], ?_⟩
  obtain ⟨h, e⟩ := stringChars_escaped lone
    ((s.toList.flatMap escapeChar ++ '"' :: rest).length + 1) s.toList rest
  refine ⟨h, ?_⟩
  unfold string
  rw [e]
  simp only [String.ofList_toList]

/-! ## Numbers -/

theorem isDigit_digitChar (d : Nat) (h : d < 10) : (Decimal.digitChar d).isDigit = true := by
  have : ∀ k : Fin 10, (Decimal.digitChar k.val).isDigit = true := by decide
  exact this ⟨d, h⟩

theorem digitChar_eq_zero (d : Nat) (h : d < 10) (h' : Decimal.digitChar d = '0') : d = 0 := by
  have : ∀ k : Fin 10, Decimal.digitChar k.val = '0' → k.val = 0 := by decide
  exact this ⟨d, h⟩ h'

theorem digitsOnto_eq (n : Nat) (tail : List Char) : ∃ c r,
    Decimal.digitsOnto n tail = c :: (r ++ tail) ∧ c.isDigit = true ∧
      (∀ d ∈ r, d.isDigit = true) ∧ (c = '0' → n = 0 ∧ r = []) := by
  fun_induction Decimal.digitsOnto n tail with
  | case1 n tail h =>
    exact ⟨_, [], rfl, isDigit_digitChar n h, by simp, fun h' => ⟨digitChar_eq_zero n h h', rfl⟩⟩
  | case2 n tail h ih =>
    obtain ⟨c, r, e, hc, hr, hz⟩ := ih
    refine ⟨c, r ++ [Decimal.digitChar (n % 10)], by rw [e]; simp, hc, ?_, fun h' => ?_⟩
    · intro d hd
      rcases List.mem_append.1 hd with hd | hd
      · exact hr d hd
      · rw [List.mem_singleton.1 hd]
        exact isDigit_digitChar _ (Nat.mod_lt _ (by decide))
    · have := (hz h').1
      omega

/-- Decimal digits: one zero, or a run that does not start with one. -/
theorem digits_eq (n : Nat) : ∃ c r, Decimal.digits n = c :: r ∧ c.isDigit = true ∧
    (∀ d ∈ r, d.isDigit = true) ∧ (c = '0' → r = []) := by
  obtain ⟨c, r, e, hc, hr, hz⟩ := digitsOnto_eq n []
  exact ⟨c, r, by simpa [Decimal.digits] using e, hc, hr, fun h => (hz h).2⟩

theorem digits_of_lt {n : Nat} (h : n < 10) : Decimal.digits n = [Decimal.digitChar n] := by
  rw [Decimal.digits, Decimal.digitsOnto, if_pos h]

theorem takeWhile_isDigit {r rest : List Char} (hr : ∀ d ∈ r, d.isDigit = true)
    (hrest : Stops rest) : (r ++ rest).takeWhile Char.isDigit = r := by
  induction r with
  | nil =>
    cases rest with
    | nil => rfl
    | cons c t => rcases hrest c rfl with rfl | rfl | rfl | rfl <;> rfl
  | cons d r ih =>
    rw [List.cons_append, List.takeWhile_cons, if_pos (hr d (by simp)),
      ih fun d hd => hr d (by simp [hd])]

theorem wholeDigits_digits (n : Nat) {rest : List Char} (hrest : Stops rest) :
    wholeDigits (Decimal.digits n ++ rest) = Decimal.digits n := by
  obtain ⟨c, r, e, hc, hr, hz⟩ := digits_eq n
  rw [e, List.cons_append, wholeDigits]
  by_cases h : c = '0'
  · rw [if_pos h, hz h, h]
  · rw [if_neg h, if_pos hc, takeWhile_isDigit hr hrest]

theorem fractionDigits_stops {rest : List Char} (hrest : Stops rest) : fractionDigits rest = [] := by
  cases rest with
  | nil => rfl
  | cons c t => rcases hrest c rfl with rfl | rfl | rfl | rfl <;> rfl

theorem exponent?_stops {rest : List Char} (hrest : Stops rest) : exponent? rest = none := by
  cases rest with
  | nil => rfl
  | cons c t => rcases hrest c rfl with rfl | rfl | rfl | rfl <;> rfl

theorem digits_ne_nil (n : Nat) : Decimal.digits n ≠ [] := by
  obtain ⟨c, r, e, -⟩ := digits_eq n
  rw [e]
  exact List.cons_ne_nil c r

/-- The characters of an integer. -/
theorem intText_toList (n : Int) : (Decimal.intText n).toList =
    (if n < 0 then ['-'] else []) ++ Decimal.digits n.natAbs := by
  unfold Decimal.intText
  split <;> simp

/-- A digit is no character that is none. -/
theorem ne_of_isDigit {c d : Char} (hc : c.isDigit = true) (hd : d.isDigit = false) : c ≠ d := by
  rintro rfl
  rw [hc] at hd
  cases hd

/-- A run of digits is read as a number without a sign. -/
theorem numeral?_unsigned {whole rest : List Char} (hwhole : wholeDigits (whole ++ rest) = whole)
    (hdigit : ∃ c r, whole = c :: r ∧ c.isDigit = true) (hrest : Stops rest) :
    numeral? (whole ++ rest) = some ⟨false, whole, [], none, whole.length⟩ := by
  obtain ⟨c, r, e, hc⟩ := hdigit
  have hne : whole.isEmpty = false := by rw [e]; rfl
  have hhead : ((whole ++ rest).head? = some '-') = False := by
    rw [e]
    refine eq_false fun h => ?_
    exact ne_of_isDigit hc (by decide) (Option.some.inj h)
  simp only [numeral?, hhead, decide_false, Bool.false_eq_true, if_false, List.drop_zero,
    Nat.zero_add, hwhole, hne, List.drop_left, fractionDigits_stops hrest, List.isEmpty_nil,
    if_true, Nat.add_zero, List.length_nil, exponent?_stops hrest]

/-- An integer is read as a sign and a run of digits. -/
theorem numeral?_intText (n : Int) {rest : List Char} (hrest : Stops rest) :
    numeral? ((Decimal.intText n).toList ++ rest) =
      some ⟨decide (n < 0), Decimal.digits n.natAbs, [], none, (Decimal.intText n).toList.length⟩ := by
  have hwhole := wholeDigits_digits n.natAbs hrest
  have hne : (Decimal.digits n.natAbs).isEmpty = false := by simpa using digits_ne_nil n.natAbs
  rw [intText_toList]
  by_cases hn : n < 0
  · simp [numeral?, hn, hwhole, hne, Nat.add_comm 1, fractionDigits_stops hrest,
      exponent?_stops hrest]
  · obtain ⟨c, r, e, hc, -⟩ := digits_eq n.natAbs
    rw [if_neg hn, List.nil_append, numeral?_unsigned hwhole ⟨c, r, e, hc⟩ hrest,
      decide_eq_false hn]

/-- No word starts with a digit. -/
theorem words_digit {c : Char} (hc : c.isDigit = true) (r : List Char) :
    (words.find? fun w => w.1.isPrefixOf (c :: r)) = none := by
  have hne {d : Char} (hd : d.isDigit = false) : d ≠ c := (ne_of_isDigit hc hd).symm
  have hn : 'n' ≠ c := hne (by decide)
  have ht : 't' ≠ c := hne (by decide)
  have hf : 'f' ≠ c := hne (by decide)
  have hN : 'N' ≠ c := hne (by decide)
  have hI : 'I' ≠ c := hne (by decide)
  have hm : '-' ≠ c := hne (by decide)
  simp [words, hn, ht, hf, hN, hI, hm]

/-- No word starts like a number. -/
theorem words_intText (n : Int) (rest : List Char) :
    (words.find? fun w => w.1.isPrefixOf ((Decimal.intText n).toList ++ rest)) = none := by
  obtain ⟨c, r, e, hc, -⟩ := digits_eq n.natAbs
  have hI : 'I' ≠ c := (ne_of_isDigit hc (by decide)).symm
  rw [intText_toList, e]
  split
  · simp [words, hI]
  · exact words_digit hc _

/-- A written integer is read back, unless it has too many digits. -/
theorem scalar_intText (n : Int) (hn : (Decimal.digits n.natAbs).length ≤ maxDigits)
    {rest : List Char} (hrest : Stops rest) :
    Gives scalar ((Decimal.intText n).toList ++ rest) (.int n) rest := by
  have hvalue : Numeral.value ⟨decide (n < 0), Decimal.digits n.natAbs, [], none,
      (Decimal.intText n).toList.length⟩ = .ok (.int n) := by
    unfold Numeral.value
    simp only [List.isEmpty_nil, Option.isNone_none, Bool.and_self, if_true,
      if_neg (Nat.not_lt.2 hn), Decimal.value_digits]
    split
    · next h =>
      have h' : n < 0 := by simpa using h
      rw [show -(n.natAbs : Int) = n by omega]
    · next h =>
      have h' : ¬n < 0 := by simpa using h
      rw [show (n.natAbs : Int) = n by omega]
  refine ⟨by simp, ?_⟩
  unfold scalar
  rw [words_intText]
  simp only
  rw [numeral?_intText n hrest]
  simp only [hvalue, List.drop_left]

end ContractInterface.Json
