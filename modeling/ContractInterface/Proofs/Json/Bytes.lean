import ContractInterface.Proofs.Json.RoundTrip
import ContractInterface.Proofs.Text.Utf8
import ContractInterface.Text.Encoding

/-!
# Objects in bytes

The encoding of a data file is told by the zeros among its first bytes.  A text that writes an object
starts with two characters of ASCII, so its bytes are taken for UTF-8:

    readKeeping lone s = .ok (.keyed entries) → decode lone (encode s) = .ok s
                                                              (decode_encode_of_readKeeping)
-/

namespace ContractInterface

open Json (Value)

namespace Text

/-! ## Encodings -/

/-- A character is its own code point, and no surrogate. -/
theorem charOf_toNat (lone : Nat → Char) (c : Char) : charOf lone c.toNat = c := by
  have hvalid : c.toNat < 0xD800 ∨ 0xDFFF < c.toNat ∧ c.toNat < 0x110000 := c.valid
  have hsurrogate : isSurrogate c.toNat = false := by
    unfold isSurrogate isHigh isLow
    simp
    omega
  rw [charOf, hsurrogate]
  exact Char.ofNat_toNat c

theorem Utf8.utf8EncodeChar_ascii {c : Char} (h : c.toNat < 0x80) :
    String.utf8EncodeChar c = [UInt8.ofNat c.toNat] := by
  have hn : (UInt8.ofNat c.toNat).toNat = c.toNat := Utf8.toNat_ofNat_of_lt (by omega)
  refine (Utf8.Sequence.one (UInt8.lt_iff_toNat_lt.2 ?_)).utf8EncodeChar_eq hn.symm
  rw [hn]
  exact h

namespace Encoding

/-- Bytes that start with an ASCII character and have no zero in front are UTF-8. -/
theorem detect_eq_utf8 {a b : UInt8} (ha : a < 0x80) (ha₀ : a ≠ 0) (hb₀ : b ≠ 0)
    (r : List UInt8) : detect (a :: b :: r) = utf8 := by
  unfold detect
  split
  · next h =>
    cases h
    exact absurd rfl ha₀
  · next h =>
    cases h
    exact absurd ha (by decide)
  · next h =>
    cases h
    exact absurd ha (by decide)
  · next h =>
    cases h
    exact absurd ha (by decide)
  · next h =>
    cases h
    exact absurd ha (by decide)
  · unfold ofZeros
    split <;> simp_all

/-- Text is read back from its bytes if it starts with two ASCII characters. -/
theorem decode_encode (lone : Nat → Char) {c d : Char} (hc : 0 < c.toNat ∧ c.toNat < 0x80)
    (hd : 0 < d.toNat ∧ d.toNat < 0x80) (r : List Char) :
    decode lone (Utf8.encode (c :: d :: r)) = .ok (c :: d :: r) := by
  have hbyte {c : Char} (hc : 0 < c.toNat ∧ c.toNat < 0x80) :
      (UInt8.ofNat c.toNat).toNat = c.toNat ∧ UInt8.ofNat c.toNat ≠ 0 := by
    have hn : (UInt8.ofNat c.toNat).toNat = c.toNat := Utf8.toNat_ofNat_of_lt (by omega)
    refine ⟨hn, fun h => ?_⟩
    rw [h] at hn
    exact absurd hn (Nat.ne_of_lt hc.1)
  have hbytes : Utf8.encode (c :: d :: r) =
      UInt8.ofNat c.toNat :: UInt8.ofNat d.toNat :: Utf8.encode r := by
    simp only [Utf8.encode, List.flatMap_cons, Utf8.utf8EncodeChar_ascii hc.2,
      Utf8.utf8EncodeChar_ascii hd.2, List.singleton_append]
  have hdetect : detect (Utf8.encode (c :: d :: r)) = utf8 := by
    rw [hbytes]
    refine detect_eq_utf8 (UInt8.lt_iff_toNat_lt.2 ?_) (hbyte hc).2 (hbyte hd).2 _
    rw [(hbyte hc).1]
    exact hc.2
  rw [decode, hdetect, codePoints, Utf8.decodeFrom_encode]
  show Except.ok (((c :: d :: r).map Char.toNat).map (charOf lone)) = _
  rw [List.map_map]
  congr 1
  exact (List.map_congr_left fun c _ => charOf_toNat lone c).trans (List.map_id _)

end Encoding

end Text

namespace Json

open Reading

namespace Reading

/-- Blanks are characters of ASCII, so a text starts with one if it does behind its blanks. -/
theorem ascii_of_skip {s t : List Char} {d : Char} (h : skip s = d :: t)
    (hd : 0 < d.toNat ∧ d.toNat < 0x80) : ∃ c r, s = c :: r ∧ 0 < c.toNat ∧ c.toNat < 0x80 := by
  cases s with
  | nil => cases h
  | cons c r =>
    refine ⟨c, r, rfl, ?_⟩
    by_cases hc : isBlank c = true
    · unfold isBlank at hc
      simp only [Bool.or_eq_true, decide_eq_true_eq] at hc
      obtain ((rfl | rfl) | rfl) | rfl := hc <;> decide
    · rw [skip_cons (by simpa using hc)] at h
      cases h
      exact hd

theorem Numeral.value_ne_keyed {n : Numeral} {v : Value} (h : n.value = .ok v)
    (es : List (String × Value)) : v ≠ .keyed es := by
  unfold Numeral.value at h
  split at h
  · split at h <;> cases h
    rintro ⟨⟩
  · cases h
    rintro ⟨⟩

theorem scalar_ne_keyed {s : List Char} {v : Taken Value s} (h : scalar s = .ok v)
    (es : List (String × Value)) : v.value ≠ .keyed es := by
  unfold scalar at h
  cases hfind : words.find? fun w => w.1.isPrefixOf s with
  | some w =>
    have hwords : ∀ w ∈ words, w.2 ≠ .keyed es := by simp [words]
    simp only [hfind] at h
    cases h
    exact hwords _ (List.mem_of_find?_eq_some hfind)
  | none =>
    cases hn : numeral? s with
    | none =>
      simp only [hfind, hn] at h
      cases h
    | some n =>
      cases hv : n.value with
      | error f =>
        simp only [hfind, hn, hv] at h
        cases h
      | ok v =>
        simp only [hfind, hn, hv] at h
        cases h
        exact Numeral.value_ne_keyed hv es

theorem opens_of_entries {lone : Nat → Char} {s : List Char}
    {es : Taken (List (String × Value)) s} (h : entries lone s = .ok es) : ∃ r, s = '"' :: r := by
  rw [entries.eq_def] at h
  split at h
  · cases h
  · next q r =>
    split at h
    · next hq => exact ⟨r, by rw [hq]⟩
    · cases h

/-- An object starts with its brace, and goes on with a quote or the other brace. -/
theorem opens_of_value {lone : Nat → Char} {s : List Char} {v : Taken Value s}
    {es : List (String × Value)} (h : value lone s = .ok v) (hv : v.value = .keyed es) :
    ∃ r d t, s = '\x7b' :: r ∧ skip r = d :: t ∧ (d = '"' ∨ d = '\x7d') := by
  rw [value.eq_def] at h
  split at h
  · cases h
  next c r =>
  split at h
  · split at h <;> cases h
    cases hv
  split at h
  · split at h
    · cases h
      cases hv
    · split at h <;> cases h
      cases hv
  split at h
  · next hc =>
    split at h
    · next hhead =>
      obtain ⟨t, ht⟩ := List.head?_eq_some_iff.1 hhead
      exact ⟨r, _, t, by rw [hc], ht, .inr rfl⟩
    · split at h
      · cases h
      · next he =>
        obtain ⟨t, ht⟩ := opens_of_entries he
        exact ⟨r, _, t, by rw [hc], ht, .inl rfl⟩
  · exact absurd hv (scalar_ne_keyed h es)

end Reading

namespace Value

variable {lone : Nat → Char} {s : List Char} {entries : List (String × Value)}

theorem readUnmarked_of_readKeeping {v : Value} (h : readKeeping lone s = .ok v) :
    readUnmarked lone s = .ok v := by
  unfold readKeeping at h
  split at h
  · cases h
  · exact h

/-- A text that writes an object starts with two characters of ASCII. -/
theorem ascii_of_readKeeping (h : readKeeping lone s = .ok (.keyed entries)) :
    ∃ c d r, s = c :: d :: r ∧ (0 < c.toNat ∧ c.toNat < 0x80) ∧ 0 < d.toNat ∧ d.toNat < 0x80 := by
  have hunmarked := readUnmarked_of_readKeeping h
  unfold readUnmarked at hunmarked
  split at hunmarked
  · cases hunmarked
  next v u hle hvalue =>
  have hkeyed : v = .keyed entries := by
    split at hunmarked <;> cases hunmarked
    rfl
  obtain ⟨r, d, t, hskip, ht, hd⟩ := opens_of_value hvalue hkeyed
  have hascii : 0 < d.toNat ∧ d.toNat < 0x80 := by
    obtain rfl | rfl := hd <;> decide
  obtain ⟨c, u, rfl, hc⟩ := ascii_of_skip hskip (by decide)
  by_cases hblank : isBlank c = true
  · -- the brace comes later
    rw [skip_blank hblank] at hskip
    obtain ⟨d, u, rfl, hd⟩ := ascii_of_skip hskip (by decide)
    exact ⟨c, d, u, rfl, hc, hd⟩
  · rw [skip_cons (by simpa using hblank)] at hskip
    cases hskip
    obtain ⟨d, r, rfl, hd⟩ := ascii_of_skip ht hascii
    exact ⟨_, d, r, rfl, hc, hd⟩

/-- **The bytes of a text that writes an object** are taken for UTF-8. -/
theorem decode_encode_of_readKeeping (h : readKeeping lone s = .ok (.keyed entries))
    (lone' : Nat → Char) : Text.Encoding.decode lone' (Text.Utf8.encode s) = .ok s := by
  obtain ⟨c, d, r, rfl, hc, hd⟩ := ascii_of_readKeeping h
  exact Text.Encoding.decode_encode lone' hc hd r

end Value

end Json

end ContractInterface
