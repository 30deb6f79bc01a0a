import ContractInterface.Proofs.Scan.Pieces

/-!
# Printable texts

Letters and numerals are printable, and so are names, numbers and quoted texts (`Printable`).
-/

namespace ContractInterface

namespace Text

/-! ## Letters and numerals -/

/-- The tables of letters and numerals are in order, and one sweep each sets them apart from the
hidden characters. -/
theorem swept_hiddenRanges : hiddenRanges.ordered 0 = true ∧
    [letterRanges, digitRanges, otherNumeralRanges].all
      (fun r => r.ordered 0 && r.sweep hiddenRanges) = true := by
  decide +kernel

theorem apart_hiddenRanges {r : Ranges}
    (hr : r ∈ [letterRanges, digitRanges, otherNumeralRanges]) : r.apart hiddenRanges = true := by
  obtain ⟨hhidden, htables⟩ := swept_hiddenRanges
  obtain ⟨hordered, hsweep⟩ := Bool.and_eq_true_iff.1 (List.all_eq_true.1 htables r hr)
  exact Ranges.apart_of_sweep hordered hhidden hsweep

theorem isPrintable_of_ascii {c : Char} (h : 32 ≤ c.toNat) (h' : c.toNat < 127) :
    isPrintable c = true := by
  have hascii : c.toNat < 128 := by omega
  rw [isPrintable, if_pos hascii, decide_eq_true h, decide_eq_true h']
  rfl

theorem isPrintable_of_apart {r : Ranges} (hr : r.apart hiddenRanges = true) {c : Char}
    (hascii : ¬c.toNat < 128) (h : r.has c.toNat = true) : isPrintable c = true := by
  rw [isPrintable, if_neg hascii, Ranges.has_eq_false_of_apart hr h]
  rfl

theorem isPrintable_of_isLetter {c : Char} (h : isLetter c = true) : isPrintable c = true := by
  unfold isLetter at h
  by_cases hascii : c.toNat < 128
  · rw [if_pos hascii] at h
    have hbounds := toNat_of_isAlpha h
    apply isPrintable_of_ascii <;> omega
  · rw [if_neg hascii] at h
    exact isPrintable_of_apart (apart_hiddenRanges (by simp)) hascii h

theorem isPrintable_of_isAsciiDigit {c : Char} (h : c.isDigit = true) : isPrintable c = true := by
  simp only [Char.isDigit, Bool.and_eq_true, decide_eq_true_eq, ge_iff_le,
    UInt32.le_iff_toNat_le] at h
  have hlow : 48 ≤ c.toNat := h.1
  have hhigh : c.toNat ≤ 57 := h.2
  apply isPrintable_of_ascii <;> omega

theorem isPrintable_of_isNumeral {c : Char} (h : isNumeral c = true) : isPrintable c = true := by
  unfold isNumeral isDigit at h
  by_cases hascii : c.toNat < 128
  · rw [if_pos hascii, decide_eq_true hascii, Bool.not_true, Bool.false_and, Bool.or_false] at h
    exact isPrintable_of_isAsciiDigit h
  · rw [if_neg hascii, Bool.or_eq_true] at h
    rcases h with h | h
    · exact isPrintable_of_apart (apart_hiddenRanges (by simp)) hascii h
    · exact isPrintable_of_apart (apart_hiddenRanges (by simp)) hascii
        (Bool.and_eq_true_iff.1 h).2

/-! ## Texts -/

/-- All characters of the text are printable: it is one line, without control characters. -/
def Printable (s : String) : Prop := ∀ c ∈ s.toList, isPrintable c = true

instance (s : String) : Decidable (Printable s) :=
  decidable_of_iff (s.toList.all isPrintable = true) List.all_eq_true

@[simp] theorem printable_append {s t : String} :
    Printable (s ++ t) ↔ Printable s ∧ Printable t := by
  simp only [Printable, String.toList_append, List.mem_append, or_imp, forall_and]

@[simp] theorem printable_quote (s : String) : Printable (quote s) := isPrintable_of_mem_quote s

theorem printable_nat (n : Nat) : Printable n.repr := by
  intro c hc
  rw [Nat.toList_repr] at hc
  exact isPrintable_of_isAsciiDigit (Nat.isDigit_of_mem_toDigits (by decide) (by decide) hc)

theorem printable_int (n : Int) : Printable n.repr := by
  cases n with
  | ofNat n => exact printable_nat n
  | negSucc n => exact printable_append.2 ⟨by decide, printable_nat _⟩

theorem printable_intercalate {sep : String} (hsep : Printable sep) {l : List String}
    (h : ∀ s ∈ l, Printable s) : Printable (sep.intercalate l) := by
  induction l with
  | nil => exact fun c hc => by cases hc
  | cons s l ih =>
    have hs := h s List.mem_cons_self
    have hl := ih fun t ht => h t (List.mem_cons_of_mem _ ht)
    by_cases hnil : l = []
    · subst hnil
      exact hs
    · rw [String.intercalate_cons_of_ne_nil hnil, printable_append, printable_append]
      exact ⟨⟨hs, hsep⟩, hl⟩

end Text

/-! ## Names -/

namespace Token

theorem isPrintable_of_isNameChar {c : Char} (h : isNameChar c = true) :
    Text.isPrintable c = true := by
  unfold isNameChar at h
  simp only [Bool.or_eq_true, decide_eq_true_eq] at h
  rcases h with ((h | h) | rfl) | rfl
  · exact Text.isPrintable_of_isLetter h
  · exact Text.isPrintable_of_isNumeral h
  · decide
  · decide

end Token

end ContractInterface
