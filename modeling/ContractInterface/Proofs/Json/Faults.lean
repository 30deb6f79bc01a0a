import ContractInterface.Proofs.Json.RoundTrip

/-!
# Integers with too many digits

The one fault that is no complaint about the text is an integer with too many digits.  It is met only
where a run of so many digits stands (`LongInteger`), and a text that is such a run is faulted for it:

    readKeeping lone s = .error (.tooManyDigits n) → LongInteger n s    (longInteger_of_readKeeping)
    readKeeping lone (c :: r) = .error (.tooManyDigits (r.length + 1))           (readKeeping_run)

Whatever is read leaves an end of the text behind, so a run that stands there stands in the whole
text (`Within`).
-/

namespace ContractInterface.Json

open Reading

/-- A run of `n` digits stands in the text, too many for an integer. -/
def LongInteger (n : Nat) (s : List Char) : Prop :=
  maxDigits < n ∧ ∃ ds, ds <:+: s ∧ ds.length = n ∧ ∀ d ∈ ds, d.isDigit = true

theorem LongInteger.mono {n : Nat} {s t : List Char} (h : LongInteger n s) (hst : s <:+ t) :
    LongInteger n t := by
  obtain ⟨hn, ds, hds, hlength, hdigits⟩ := h
  exact ⟨hn, ds, hds.trans hst.isInfix, hlength, hdigits⟩

/-- What is read leaves an end of the text, and too many digits are found in the text. -/
structure Within {α : Type} {s : List Char} (r : Except Fault (Taken α s)) : Prop where
  rest : ∀ a u h, r = .ok ⟨a, u, h⟩ → u <:+ s
  digits : ∀ n, r = .error (.tooManyDigits n) → LongInteger n s

namespace Within

variable {α β : Type} {s t : List Char}

theorem ok {a : α} {u : List Char} {h : u.length ≤ s.length} (hu : u <:+ s) :
    Within (.ok ⟨a, u, h⟩ : Except Fault (Taken α s)) := by
  refine ⟨?_, by rintro n ⟨⟩⟩
  rintro _ _ _ ⟨⟩
  exact hu

theorem bad (what : Complaint) (remaining : Nat) :
    Within (.error (.bad what remaining) : Except Fault (Taken α s)) :=
  ⟨by rintro a u h ⟨⟩, by rintro n ⟨⟩⟩

/-- A fault of a part is one of the whole. -/
theorem error {r : Except Fault (Taken α s)} {f : Fault} (hr : Within r) (h : r = .error f)
    (hst : s <:+ t) : Within (.error f : Except Fault (Taken β t)) := by
  refine ⟨by rintro a u h ⟨⟩, ?_⟩
  rintro n ⟨⟩
  exact (hr.digits n h).mono hst

end Within

namespace Reading

variable (lone : Nat → Char)

theorem skip_suffix (s : List Char) : skip s <:+ s := List.dropWhile_suffix _

/-! ## Strings -/

/-- An escape is either read or complained about. -/
theorem codeEscape_ne_tooManyDigits (s : List Char) (n : Nat) :
    codeEscape lone s ≠ .error (.tooManyDigits n) := by
  unfold codeEscape
  split
  · simp
  split
  · simp
  split
  · split
    · next f hf =>
      have hlow : ∀ r, lowSurrogate? r ≠ .error (.tooManyDigits n) := by
        intro r
        unfold lowSurrogate?
        split
        · split
          · split <;> simp
          · simp
        · simp
      intro h
      cases h
      exact hlow _ hf
    · simp
    · simp
  · simp

theorem suffix_behind {c : Char} {r u : List Char} (h : u <:+ r) : u <:+ c :: r :=
  h.trans (List.suffix_cons c r)

theorem within_stringChars (opening : Nat) (s : List Char) :
    Within (stringChars lone opening s) := by
  fun_induction stringChars lone opening s with
  | case2 r => exact .ok (List.suffix_cons _ _)
  | case4 t f hf =>
    refine ⟨by rintro a u h ⟨⟩, ?_⟩
    rintro n ⟨⟩
    exact absurd hf (codeEscape_ne_tooManyDigits lone t n)
  | case5 t c n hc f hf ih =>
    exact ih.error hf (suffix_behind (suffix_behind (List.drop_suffix n t)))
  | case6 t c n hc cs u h hcs ih =>
    exact .ok (suffix_behind (suffix_behind ((ih.rest _ _ _ hcs).trans (List.drop_suffix n t))))
  | case8 e t hu c he f hf ih =>
    exact ih.error hf (suffix_behind (List.suffix_cons _ _))
  | case9 e t hu c he cs u h hcs ih =>
    exact .ok (suffix_behind (suffix_behind (ih.rest _ _ _ hcs)))
  | case11 c r hq hb hc f hf ih => exact ih.error hf (List.suffix_cons _ _)
  | case12 c r hq hb hc cs u h hcs ih => exact .ok (suffix_behind (ih.rest _ _ _ hcs))
  | _ => exact .bad _ _

theorem within_string (s : List Char) : Within (string lone s) := by
  have hchars := within_stringChars lone (s.length + 1) s
  unfold string
  split
  · next f hf => exact hchars.error hf (List.suffix_refl s)
  · next cs r h hcs => exact .ok (hchars.rest _ _ _ hcs)

/-! ## Words and numbers -/

/-- The digits in front of the point stand at the front of the text. -/
theorem wholeDigits_front (s : List Char) :
    wholeDigits s <+: s ∧ ∀ d ∈ wholeDigits s, d.isDigit = true := by
  fun_cases wholeDigits s with
  | case1 => exact ⟨List.nil_prefix, by simp⟩
  | case2 r => exact ⟨⟨r, rfl⟩, List.forall_mem_singleton.2 rfl⟩
  | case3 c r hzero hc =>
    refine ⟨(List.prefix_cons_inj c).2 (List.takeWhile_prefix _), ?_⟩
    refine List.forall_mem_cons.2 ⟨hc, fun d hd => ?_⟩
    exact List.all_eq_true.1 List.all_takeWhile d hd
  | case4 c r hzero hc => exact ⟨List.nil_prefix, by simp⟩

/-- The digits of a number in front of its point stand in the text. -/
theorem whole_stands {s : List Char} {n : Numeral} (h : numeral? s = some n) :
    n.whole <:+: s ∧ ∀ d ∈ n.whole, d.isDigit = true := by
  have hwhole (k : Nat) : wholeDigits (s.drop k) <:+: s ∧
      ∀ d ∈ wholeDigits (s.drop k), d.isDigit = true :=
    ⟨(wholeDigits_front _).1.isInfix.trans (List.drop_suffix k s).isInfix,
      (wholeDigits_front _).2⟩
  simp only [numeral?] at h
  generalize (if s.head? = some '-' then 1 else 0) = signs at h
  by_cases hempty : (wholeDigits (s.drop signs)).isEmpty = true
  · rw [if_pos hempty] at h
    cases h
  · rw [if_neg hempty] at h
    generalize exponent? _ = e at h
    cases e <;> cases h <;> exact hwhole _

theorem longInteger_of_value {s : List Char} {n : Numeral} (h : numeral? s = some n) {count : Nat}
    (hv : n.value = .error (.tooManyDigits count)) : LongInteger count s := by
  obtain ⟨hstands, hdigits⟩ := whole_stands h
  unfold Numeral.value at hv
  split at hv
  · split at hv
    · next hmax =>
      cases hv
      exact ⟨hmax, n.whole, hstands, rfl, hdigits⟩
    · cases hv
  · cases hv

theorem within_scalar (s : List Char) : Within (scalar s) := by
  unfold scalar
  split
  · exact .ok (List.drop_suffix _ _)
  · split
    · exact .bad _ _
    · next n hn =>
      split
      · next f hf =>
        refine ⟨by rintro a u h ⟨⟩, ?_⟩
        rintro count ⟨⟩
        exact longInteger_of_value hn hf
      · exact .ok (List.drop_suffix _ _)

theorem within_colon (s : List Char) : Within (colon s) := by
  unfold colon
  split
  · exact .bad _ _
  · next c r h =>
    split
    · have hr : r <:+ s := (List.suffix_cons c r).trans (h ▸ skip_suffix s)
      exact .ok ((skip_suffix r).trans hr)
    · exact .bad _ _

/-! ## Values -/

/-- Behind a character there is less text, even without the blanks in front. -/
theorem length_skip_lt {c : Char} {t s : List Char} (h : c :: t <:+ s) :
    (skip t).length < s.length :=
  Nat.lt_of_lt_of_le (Nat.lt_succ_of_le (length_skip_le t)) h.length_le

mutual

theorem within_value (s : List Char) : Within (value lone s) := by
  rw [value.eq_def]
  split
  · exact .bad _ _
  · next c r =>
    have hskip : skip r <:+ c :: r := suffix_behind (skip_suffix r)
    have hless := length_skip_lt (List.suffix_refl (c :: r))
    split
    · have hstring := within_string lone r
      split
      · next f hf => exact hstring.error hf (List.suffix_cons c r)
      · next t u h ht => exact .ok (suffix_behind (hstring.rest _ _ _ ht))
    split
    · split
      · exact .ok ((List.tail_suffix _).trans hskip)
      · have hitems := within_items (skip r)
        split
        · next f hf => exact hitems.error hf hskip
        · next vs u h hvs => exact .ok ((hitems.rest _ _ _ hvs).trans hskip)
    split
    · split
      · exact .ok ((List.tail_suffix _).trans hskip)
      · have hentries := within_entries (skip r)
        split
        · next f hf => exact hentries.error hf hskip
        · next es u h hes => exact .ok ((hentries.rest _ _ _ hes).trans hskip)
    · exact within_scalar (c :: r)
termination_by (s.length, 0)
decreasing_by all_goals subst_vars; exact Prod.Lex.left _ _ hless

theorem within_items (s : List Char) : Within (items lone s) := by
  have hvalue := within_value s
  rw [items.eq_def]
  split
  · next f hf => exact hvalue.error hf (List.suffix_refl s)
  · next v r h hv =>
    have hrest := hvalue.rest _ _ _ hv
    split
    · exact .bad _ _
    · next c t ht =>
      have hct : c :: t <:+ s := ht ▸ (skip_suffix r).trans hrest
      have htail := (List.suffix_cons c t).trans hct
      have hless := length_skip_lt hct
      split
      · exact .ok htail
      split
      · have hnext := (skip_suffix t).trans htail
        have hitems := within_items (skip t)
        split
        · next f hf => exact hitems.error hf hnext
        · next vs u h' hvs => exact .ok ((hitems.rest _ _ _ hvs).trans hnext)
      · exact .bad _ _
termination_by (s.length, 1)
decreasing_by
  · exact Prod.Lex.right _ (by decide)
  · exact Prod.Lex.left _ _ hless

theorem within_entries (s : List Char) : Within (entries lone s) := by
  rw [entries.eq_def]
  split
  · exact .bad _ _
  · next q s' =>
    split
    · have hstring := within_string lone s'
      split
      · next f hf => exact hstring.error hf (List.suffix_cons q s')
      · next k r hk hkey =>
        have hr := hstring.rest _ _ _ hkey
        have hcolon := within_colon r
        split
        · next f hf => exact hcolon.error hf (suffix_behind hr)
        · next w hw hcol =>
          have hw := (hcolon.rest _ _ _ hcol).trans hr
          have hlength : w.length < (q :: s').length := Nat.lt_succ_of_le hw.length_le
          have hvalue := within_value w
          split
          · next f hf => exact hvalue.error hf (suffix_behind hw)
          · next v x hx hv =>
            have hx : x <:+ q :: s' := suffix_behind ((hvalue.rest _ _ _ hv).trans hw)
            split
            · exact .bad _ _
            · next c t ht =>
              have hct : c :: t <:+ q :: s' := ht ▸ (skip_suffix x).trans hx
              have htail := (List.suffix_cons c t).trans hct
              have hless := length_skip_lt hct
              split
              · exact .ok htail
              split
              · have hnext := (skip_suffix t).trans htail
                have hentries := within_entries (skip t)
                split
                · next f hf => exact hentries.error hf hnext
                · next es u h' hes => exact .ok ((hentries.rest _ _ _ hes).trans hnext)
              · exact .bad _ _
    · exact .bad _ _
termination_by (s.length, 1)
decreasing_by
  · subst_vars; exact Prod.Lex.left _ _ hlength
  · subst_vars; exact Prod.Lex.left _ _ hless

end

/-! ## Runs of digits -/

section

variable {c : Char} {r rest : List Char}

variable (hc : c.isDigit = true) (hzero : c ≠ '0') (hr : ∀ d ∈ r, d.isDigit = true)
  (hlong : maxDigits < (c :: r).length)
include hc hzero hr hlong

theorem scalar_run (hrest : Stops rest) :
    scalar (c :: (r ++ rest)) = .error (.tooManyDigits (c :: r).length) := by
  have hwhole : wholeDigits (c :: r ++ rest) = c :: r := by
    rw [List.cons_append, wholeDigits, if_neg hzero, if_pos hc, takeWhile_isDigit hr hrest]
  have hnumeral := numeral?_unsigned hwhole ⟨c, r, rfl, hc⟩ hrest
  have hvalue : Numeral.value ⟨false, c :: r, [], none, (c :: r).length⟩ =
      .error (.tooManyDigits (c :: r).length) := if_pos hlong
  rw [List.cons_append] at hnumeral
  rw [scalar, words_digit hc]
  simp only [hnumeral, hvalue]

theorem value_run (lone : Nat → Char) (hrest : Stops rest) :
    value lone (c :: (r ++ rest)) = .error (.tooManyDigits (c :: r).length) := by
  have hquote : c ≠ '"' := ne_of_isDigit hc (by decide)
  have hbracket : c ≠ '[' := ne_of_isDigit hc (by decide)
  have hbrace : c ≠ '\x7b' := ne_of_isDigit hc (by decide)
  rw [value.eq_def]
  simp only [if_neg hquote, if_neg hbracket, if_neg hbrace]
  exact scalar_run hc hzero hr hlong hrest

end

end Reading

/-! ## Texts -/

open Value

/-- **Too many digits are found only where they stand.** -/
theorem longInteger_of_readUnmarked {lone : Nat → Char} {s : List Char} {n : Nat}
    (h : readUnmarked lone s = .error (.tooManyDigits n)) : LongInteger n s := by
  have hwithin := within_value lone (skip s)
  unfold readUnmarked at h
  split at h
  · next f hf =>
    cases h
    exact (hwithin.digits n hf).mono (skip_suffix s)
  · split at h <;> cases h

theorem longInteger_of_readKeeping {lone : Nat → Char} {s : List Char} {n : Nat}
    (h : readKeeping lone s = .error (.tooManyDigits n)) : LongInteger n s := by
  unfold readKeeping at h
  split at h
  · cases h
  · exact longInteger_of_readUnmarked h

/-- **A run of too many digits is no value.** -/
theorem readKeeping_run (lone : Nat → Char) {c : Char} {r : List Char} (hc : c.isDigit = true)
    (hzero : c ≠ '0') (hr : ∀ d ∈ r, d.isDigit = true) (hlong : maxDigits < (c :: r).length) :
    readKeeping lone (c :: r) = .error (.tooManyDigits (c :: r).length) := by
  have hblank : isBlank c = false := by
    have hne {d : Char} (hd : d.isDigit = false) : c ≠ d := ne_of_isDigit hc hd
    have h₁ : c ≠ ' ' := hne (by decide)
    have h₂ : c ≠ '\t' := hne (by decide)
    have h₃ : c ≠ '\n' := hne (by decide)
    have h₄ : c ≠ '\r' := hne (by decide)
    simp [isBlank, h₁, h₂, h₃, h₄]
  have hmark : c ≠ '\ufeff' := ne_of_isDigit hc (by decide)
  have hvalue : value lone (skip (c :: r)) = .error (.tooManyDigits (c :: r).length) := by
    have hrun := value_run hc hzero hr hlong lone stops_nil
    rw [List.append_nil] at hrun
    rw [skip_cons hblank]
    exact hrun
  rw [readKeeping, if_neg (by simpa using hmark), readUnmarked, hvalue]

end ContractInterface.Json
