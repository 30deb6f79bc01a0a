import ContractInterface.Text.Printable

/-!
# Quoted texts in messages

A text is quoted with apostrophes, or with double quotes when it holds an apostrophe and no double
quote.  The quote in use and the backslash get a backslash, line feed, return and tab have letters,
and any other character that is not printable is written by its code point with the fewest of two,
four or eight digits.  What is written is printable throughout (`isPrintable_of_mem_quote`).
-/

namespace ContractInterface.Text

def hexDigit (n : Nat) : Char :=
  if n < 10 then Char.ofNat (48 + n) else Char.ofNat (87 + n)

/-- The last `k` hexadecimal digits of `n`. -/
def hexDigits : Nat → Nat → List Char
  | 0, _ => []
  | k + 1, n => hexDigits k (n / 16) ++ [hexDigit (n % 16)]

/-- One character inside the quotes `q`. -/
def quoteChar (q c : Char) : List Char :=
  if c = q || c = '\\' then ['\\', c]
  else if c = '\n' then ['\\', 'n']
  else if c = '\r' then ['\\', 'r']
  else if c = '\t' then ['\\', 't']
  else if isPrintable c then [c]
  else if c.toNat < 0x100 then '\\' :: 'x' :: hexDigits 2 (c.toNat)
  else if c.toNat < 0x10000 then '\\' :: 'u' :: hexDigits 4 (c.toNat)
  else '\\' :: 'U' :: hexDigits 8 (c.toNat)

/-- The quote that goes around `s`. -/
def quoteMark (s : List Char) : Char :=
  if s.contains '\'' && !s.contains '"' then '"' else '\''

def quoteChars (s : List Char) : List Char :=
  quoteMark s :: (s.flatMap (quoteChar (quoteMark s)) ++ [quoteMark s])

def quote (s : String) : String := String.ofList (quoteChars s.toList)

theorem isPrintable_hexDigit (n : Nat) (h : n < 16) : isPrintable (hexDigit n) = true := by
  have : ∀ k : Fin 16, isPrintable (hexDigit k.val) = true := by decide
  exact this ⟨n, h⟩

theorem isPrintable_hexDigits (k n : Nat) : ∀ c ∈ hexDigits k n, isPrintable c = true := by
  induction k generalizing n with
  | zero => simp [hexDigits]
  | succ k ih =>
    intro c hc
    simp only [hexDigits, List.mem_append, List.mem_singleton] at hc
    rcases hc with hc | rfl
    · exact ih _ c hc
    · exact isPrintable_hexDigit _ (Nat.mod_lt _ (by decide))

theorem quoteMark_eq (s : List Char) : quoteMark s = '"' ∨ quoteMark s = '\'' := by
  unfold quoteMark; split <;> simp

theorem isPrintable_quoteChar (q c : Char) (hq : isPrintable q = true) :
    ∀ d ∈ quoteChar q c, isPrintable d = true := by
  intro d hd
  unfold quoteChar at hd
  split at hd
  · next h =>
    simp at h hd
    rcases hd with rfl | rfl
    · decide
    · rcases h with rfl | rfl
      · exact hq
      · decide
  · repeat' split at hd
    all_goals simp at hd
    all_goals first
      | (subst hd; assumption)
      | (rcases hd with rfl | rfl <;> decide)
      | (rcases hd with rfl | rfl | hd
         · decide
         · decide
         · exact isPrintable_hexDigits _ _ _ hd)

theorem isPrintable_of_mem_quote (s : String) (c : Char) (h : c ∈ (quote s).toList) :
    isPrintable c = true := by
  have hq : isPrintable (quoteMark s.toList) = true := by
    rcases quoteMark_eq s.toList with h | h <;> rw [h] <;> decide
  simp only [quote, quoteChars, String.toList_ofList, List.mem_cons, List.mem_append,
    List.mem_flatMap, List.not_mem_nil, or_false] at h
  rcases h with rfl | ⟨a, _, ha⟩ | rfl
  · exact hq
  · exact isPrintable_quoteChar _ _ hq _ ha
  · exact hq

end ContractInterface.Text
