import ContractInterface.Text.Utf8

/-!
# Strict UTF-8 is the inverse of encoding

`Sequence bs n` says that the bytes `bs` are a valid sequence for the code point `n`.  These are the
encodings of characters, and what is decoded is one after the other of them:

    decode b = .ok s ↔ encode s = b                                      (decode_eq_ok_iff)

Bytes that are no text are one up to where no sequence stands (`exists_of_decode_error`).
-/

namespace ContractInterface.Text.Utf8

/-- A valid sequence of bytes and its code point. -/
inductive Sequence : List UInt8 → Nat → Prop
  | one {a : UInt8} (ha : a < 0x80) : Sequence [a] a.toNat
  | two {a b : UInt8} (h : (0xC2 ≤ a && a ≤ 0xDF && isTail b) = true) : Sequence [a, b] (code2 a b)
  | three {a b c : UInt8} (h : isValid3 false a b c = true) : Sequence [a, b, c] (code3 a b c)
  | four {a b c d : UInt8} (h : isValid4 a b c d = true) : Sequence [a, b, c, d] (code4 a b c d)

/-! ## Bytes as numbers -/

theorem isTail_iff {b : UInt8} : isTail b = true ↔ 0x80 ≤ b.toNat ∧ b.toNat ≤ 0xBF := by
  simp [isTail, UInt8.le_iff_toNat_le]

theorem isValid2_iff {a b : UInt8} : (0xC2 ≤ a && a ≤ 0xDF && isTail b) = true ↔
    (0xC2 ≤ a.toNat ∧ a.toNat ≤ 0xDF) ∧ 0x80 ≤ b.toNat ∧ b.toNat ≤ 0xBF := by
  simp [isTail_iff, UInt8.le_iff_toNat_le]

theorem isValid3_iff {a b c : UInt8} : isValid3 false a b c = true ↔
    (0xE0 ≤ a.toNat ∧ a.toNat ≤ 0xEF) ∧ (0x80 ≤ b.toNat ∧ b.toNat ≤ 0xBF) ∧
      (0x80 ≤ c.toNat ∧ c.toNat ≤ 0xBF) ∧ 0x800 ≤ code3 a b c ∧
      (code3 a b c < 0xD800 ∨ 0xE000 ≤ code3 a b c) := by
  simp [isValid3, isTail_iff, UInt8.le_iff_toNat_le, and_assoc]

/-- What is valid without surrogates is valid with them. -/
theorem isValid3_mono {a b c : UInt8} (h : isValid3 false a b c = true) (surrogates : Bool) :
    isValid3 surrogates a b c = true := by
  cases surrogates with
  | false => exact h
  | true =>
    simp only [isValid3, Bool.and_eq_true, Bool.false_or, Bool.true_or] at h ⊢
    exact ⟨h.1, trivial⟩

theorem not_isValid3 {a : UInt8} (h : 0xEF < a.toNat) (surrogates : Bool) (b c : UInt8) :
    ¬isValid3 surrogates a b c = true := by
  have ha : ¬a ≤ 0xEF := by
    rw [UInt8.le_iff_toNat_le]
    exact Nat.not_le.2 h
  simp [isValid3, ha]

theorem isValid4_iff {a b c d : UInt8} : isValid4 a b c d = true ↔
    (0xF0 ≤ a.toNat ∧ a.toNat ≤ 0xF4) ∧ (0x80 ≤ b.toNat ∧ b.toNat ≤ 0xBF) ∧
      (0x80 ≤ c.toNat ∧ c.toNat ≤ 0xBF) ∧ (0x80 ≤ d.toNat ∧ d.toNat ≤ 0xBF) ∧
      0x10000 ≤ code4 a b c d ∧ code4 a b c d < 0x110000 := by
  simp [isValid4, isTail_iff, UInt8.le_iff_toNat_le, and_assoc]

theorem toNat_ofNat_of_lt {n : Nat} (h : n < 256) : (UInt8.ofNat n).toNat = n := by
  rw [UInt8.toNat_ofNat', Nat.mod_eq_of_lt h]

/-- Two bytes that hold the bits of a code point. -/
theorem sequence_two {n : Nat} {a b : UInt8} (ha : a.toNat = n / 64 % 32 + 192)
    (hb : b.toNat = n % 64 + 128) (h : 0x80 ≤ n) (h' : n ≤ 0x7FF) : Sequence [a, b] n := by
  have hcode : code2 a b = n := by
    unfold code2 tail
    omega
  have htwo := Sequence.two (a := a) (b := b) (isValid2_iff.2 (by omega))
  rwa [hcode] at htwo

theorem sequence_three {n : Nat} {a b c : UInt8} (ha : a.toNat = n / 4096 % 16 + 224)
    (hb : b.toNat = n / 64 % 64 + 128) (hc : c.toNat = n % 64 + 128) (h : 0x800 ≤ n)
    (h' : n < 0xD800 ∨ 0xDFFF < n ∧ n ≤ 0xFFFF) : Sequence [a, b, c] n := by
  have hcode : code3 a b c = n := by
    unfold code3 tail
    omega
  have hthree := Sequence.three (a := a) (b := b) (c := c) (isValid3_iff.2 (by omega))
  rwa [hcode] at hthree

theorem sequence_four {n : Nat} {a b c d : UInt8} (ha : a.toNat = n / 262144 % 8 + 240)
    (hb : b.toNat = n / 4096 % 64 + 128) (hc : c.toNat = n / 64 % 64 + 128)
    (hd : d.toNat = n % 64 + 128) (h : 0x10000 ≤ n) (h' : n < 0x110000) :
    Sequence [a, b, c, d] n := by
  have hcode : code4 a b c d = n := by
    unfold code4 tail
    omega
  have hfour := Sequence.four (a := a) (b := b) (c := c) (d := d) (isValid4_iff.2 (by omega))
  rwa [hcode] at hfour

/-! ## Sequences of characters -/

/-- The encoding of a character is a sequence for its code point. -/
theorem sequence_utf8EncodeChar (c : Char) : Sequence (String.utf8EncodeChar c) c.toNat := by
  have hvalid : c.val.toNat < 0xD800 ∨ 0xDFFF < c.val.toNat ∧ c.val.toNat < 0x110000 := c.valid
  unfold String.utf8EncodeChar Char.toNat
  generalize c.val.toNat = n at hvalid ⊢
  have hbyte (m : Nat) (hm : m < 256) := toNat_ofNat_of_lt hm
  by_cases h₁ : n ≤ 127
  · rw [if_pos h₁]
    have ha : (UInt8.ofNat n).toNat = n := hbyte _ (by omega)
    have hone : Sequence [UInt8.ofNat n] (UInt8.ofNat n).toNat :=
      .one (UInt8.lt_iff_toNat_lt.2 (by rw [ha]; exact Nat.lt_succ_of_le h₁))
    rwa [ha] at hone
  rw [if_neg h₁]
  by_cases h₂ : n ≤ 2047
  · rw [if_pos h₂]
    exact sequence_two (hbyte _ (by omega)) (hbyte _ (by omega)) (by omega) h₂
  rw [if_neg h₂]
  by_cases h₃ : n ≤ 65535
  · rw [if_pos h₃]
    exact sequence_three (hbyte _ (by omega)) (hbyte _ (by omega)) (hbyte _ (by omega)) (by omega)
      (by omega)
  · rw [if_neg h₃]
    exact sequence_four (hbyte _ (by omega)) (hbyte _ (by omega)) (hbyte _ (by omega))
      (hbyte _ (by omega)) (by omega) (by omega)

theorem Sequence.isValidChar {bs : List UInt8} {n : Nat} (h : Sequence bs n) : n.isValidChar := by
  cases h with
  | one ha =>
    rw [UInt8.lt_iff_toNat_lt] at ha
    exact .inl (Nat.lt_trans ha (by decide))
  | two h =>
    rw [isValid2_iff] at h
    unfold code2 tail Nat.isValidChar
    omega
  | three h =>
    rw [isValid3_iff] at h
    unfold code3 tail Nat.isValidChar at *
    omega
  | four h =>
    rw [isValid4_iff] at h
    exact .inr ⟨by omega, by omega⟩

theorem ofNat_eq_of_toNat {n : Nat} {a : UInt8} (h : a.toNat = n) : UInt8.ofNat n = a := by
  rw [← h, UInt8.ofNat_toNat]

/-- Every sequence is the encoding of the character with its code point. -/
theorem Sequence.utf8EncodeChar_eq {bs : List UInt8} {n : Nat} (h : Sequence bs n) {c : Char}
    (hc : c.val.toNat = n) : String.utf8EncodeChar c = bs := by
  unfold String.utf8EncodeChar
  rw [hc]
  clear hc
  cases h with
  | @one a ha =>
    rw [UInt8.lt_iff_toNat_lt] at ha
    have h₁ : a.toNat ≤ 127 := Nat.le_of_lt_succ ha
    simp only [if_pos h₁, UInt8.ofNat_toNat]
  | @two a b h =>
    rw [isValid2_iff] at h
    have hcode : code2 a b = (a.toNat - 0xC0) * 64 + (b.toNat - 0x80) := rfl
    generalize code2 a b = n at hcode ⊢
    have ha : UInt8.ofNat (n / 64 % 32 + 192) = a := ofNat_eq_of_toNat (by omega)
    have hb : UInt8.ofNat (n % 64 + 128) = b := ofNat_eq_of_toNat (by omega)
    have h₁ : ¬n ≤ 127 := by omega
    have h₂ : n ≤ 2047 := by omega
    simp only [if_neg h₁, if_pos h₂, ha, hb]
  | @three a b c h =>
    rw [isValid3_iff] at h
    have hcode : code3 a b c =
        (a.toNat - 0xE0) * 4096 + (b.toNat - 0x80) * 64 + (c.toNat - 0x80) := rfl
    generalize code3 a b c = n at h hcode ⊢
    have ha : UInt8.ofNat (n / 4096 % 16 + 224) = a := ofNat_eq_of_toNat (by omega)
    have hb : UInt8.ofNat (n / 64 % 64 + 128) = b := ofNat_eq_of_toNat (by omega)
    have hc : UInt8.ofNat (n % 64 + 128) = c := ofNat_eq_of_toNat (by omega)
    have h₁ : ¬n ≤ 127 := by omega
    have h₂ : ¬n ≤ 2047 := by omega
    have h₃ : n ≤ 65535 := by omega
    simp only [if_neg h₁, if_neg h₂, if_pos h₃, ha, hb, hc]
  | @four a b c d h =>
    rw [isValid4_iff] at h
    have hcode : code4 a b c d = (a.toNat - 0xF0) * 262144 + (b.toNat - 0x80) * 4096 +
        (c.toNat - 0x80) * 64 + (d.toNat - 0x80) := rfl
    generalize code4 a b c d = n at h hcode ⊢
    have ha : UInt8.ofNat (n / 262144 % 8 + 240) = a := ofNat_eq_of_toNat (by omega)
    have hb : UInt8.ofNat (n / 4096 % 64 + 128) = b := ofNat_eq_of_toNat (by omega)
    have hc : UInt8.ofNat (n / 64 % 64 + 128) = c := ofNat_eq_of_toNat (by omega)
    have hd : UInt8.ofNat (n % 64 + 128) = d := ofNat_eq_of_toNat (by omega)
    have h₁ : ¬n ≤ 127 := by omega
    have h₂ : ¬n ≤ 2047 := by omega
    have h₃ : ¬n ≤ 65535 := by omega
    simp only [if_neg h₁, if_neg h₂, if_neg h₃, ha, hb, hc, hd]

theorem Sequence.utf8EncodeChar_ofNat {bs : List UInt8} {n : Nat} (h : Sequence bs n) :
    String.utf8EncodeChar (Char.ofNat n) = bs := by
  refine h.utf8EncodeChar_eq ?_
  rw [Char.ofNat, dif_pos h.isValidChar]
  rfl

/-- A sequence for another character than an ASCII one does not hold its byte. -/
theorem Sequence.ascii_notMem {bs : List UInt8} {n : Nat} (h : Sequence bs n) {b : UInt8}
    (hb : b.toNat < 0x80) (hn : n ≠ b.toNat) : b ∉ bs := by
  have hne {a : UInt8} (ha : 0x80 ≤ a.toNat) : b ≠ a := by
    rintro rfl
    omega
  cases h with
  | one ha =>
    rw [List.mem_singleton]
    rintro rfl
    exact hn rfl
  | two h =>
    have hbounds := isValid2_iff.1 h
    simp only [List.mem_cons, List.not_mem_nil, or_false, not_or]
    exact ⟨hne (by omega), hne (by omega)⟩
  | three h =>
    have hbounds := isValid3_iff.1 h
    simp only [List.mem_cons, List.not_mem_nil, or_false, not_or]
    exact ⟨hne (by omega), hne (by omega), hne (by omega)⟩
  | four h =>
    have hbounds := isValid4_iff.1 h
    simp only [List.mem_cons, List.not_mem_nil, or_false, not_or]
    exact ⟨hne (by omega), hne (by omega), hne (by omega), hne (by omega)⟩

/-- A line feed is encoded by its own byte, and no other character is by it. -/
theorem feed_notMem_utf8EncodeChar {c : Char} (hc : c ≠ '\n') :
    (0x0A : UInt8) ∉ String.utf8EncodeChar c := by
  refine (sequence_utf8EncodeChar c).ascii_notMem (by decide) ?_
  intro h
  apply hc
  rw [← Char.ofNat_toNat c, h]
  rfl

/-! ## Decoding -/

theorem encode_cons (c : Char) (s : List Char) :
    encode (c :: s) = String.utf8EncodeChar c ++ encode s := List.flatMap_cons

/-- A sequence is decoded as its code point, whatever follows it. -/
theorem Sequence.decodeFrom_append {bs : List UInt8} {n : Nat} (h : Sequence bs n)
    (surrogates : Bool) (offset : Nat) (r : List UInt8) :
    decodeFrom surrogates offset (bs ++ r) =
      (decodeFrom surrogates (offset + bs.length) r).map (n :: ·) := by
  cases h with
  | one ha =>
    rw [List.singleton_append, decodeFrom.eq_def]
    exact if_pos ha
  | @two a b h =>
    have hbounds := isValid2_iff.1 h
    have h₁ : ¬a < 0x80 := by
      rw [UInt8.lt_iff_toNat_lt]
      exact Nat.not_lt.2 (Nat.le_trans (by decide) hbounds.1.1)
    rw [List.cons_append, List.singleton_append, decodeFrom.eq_def]
    simp only [if_neg h₁, if_pos h]
    rfl
  | @three a b c h =>
    have hbounds := isValid3_iff.1 h
    have h₁ : ¬a < 0x80 := by
      rw [UInt8.lt_iff_toNat_lt]
      exact Nat.not_lt.2 (Nat.le_trans (by decide) hbounds.1.1)
    have h₂ : ¬(0xC2 ≤ a && a ≤ 0xDF && isTail b) = true := by
      rw [isValid2_iff]
      omega
    rw [List.cons_append, List.cons_append, List.singleton_append, decodeFrom.eq_def]
    simp only [if_neg h₁, if_neg h₂, if_pos (isValid3_mono h surrogates)]
    rfl
  | @four a b c d h =>
    have hbounds := isValid4_iff.1 h
    have h₁ : ¬a < 0x80 := by
      rw [UInt8.lt_iff_toNat_lt]
      exact Nat.not_lt.2 (Nat.le_trans (by decide) hbounds.1.1)
    have h₂ : ¬(0xC2 ≤ a && a ≤ 0xDF && isTail b) = true := by
      rw [isValid2_iff]
      omega
    have h₃ := not_isValid3 hbounds.1.1 surrogates b c
    rw [List.cons_append, List.cons_append, List.cons_append, List.singleton_append,
      decodeFrom.eq_def]
    simp only [if_neg h₁, if_neg h₂, if_neg h₃, if_pos h]
    rfl

/-- The encoding of a text is decoded. -/
theorem decodeFrom_encode (surrogates : Bool) (offset : Nat) (s : List Char) :
    decodeFrom surrogates offset (encode s) = .ok (s.map Char.toNat) := by
  induction s generalizing offset with
  | nil => rfl
  | cons c s ih =>
    rw [encode_cons, (sequence_utf8EncodeChar c).decodeFrom_append, ih]
    rfl

/-- A sequence goes in front of what was decoded behind it. -/
theorem Sequence.encode_of_map {bs r : List UInt8} {n : Nat} {ns : List Nat}
    {x : Except Nat (List Nat)} (h : Sequence bs n)
    (hr : ∀ ms, x = .ok ms → encode (ms.map Char.ofNat) = r) (hx : x.map (n :: ·) = .ok ns) :
    encode (ns.map Char.ofNat) = bs ++ r := by
  cases x with
  | error offset => cases hx
  | ok ms =>
    cases hx
    rw [List.map_cons, encode_cons, h.utf8EncodeChar_ofNat, hr ms rfl]

/-- What is decoded is the encoding of a text. -/
theorem encode_of_decodeFrom {offset : Nat} {bs : List UInt8} {ns : List Nat}
    (h : decodeFrom false offset bs = .ok ns) : encode (ns.map Char.ofNat) = bs := by
  fun_induction decodeFrom false offset bs generalizing ns with
  | case1 =>
    cases h
    rfl
  | case2 offset a r ha ih => exact (Sequence.one ha).encode_of_map (fun _ => ih) h
  | case4 offset a ha b r hb ih => exact (Sequence.two hb).encode_of_map (fun _ => ih) h
  | case6 offset a ha b hb c r hc ih => exact (Sequence.three hc).encode_of_map (fun _ => ih) h
  | case8 offset a ha b hb c hc d r hd ih =>
    exact (Sequence.four hd).encode_of_map (fun _ => ih) h
  | _ => cases h

/-- **Bytes are decoded as a text exactly if they are its encoding.** -/
theorem decode_eq_ok_iff {bs : List UInt8} {s : List Char} :
    decode bs = .ok s ↔ encode s = bs := by
  unfold decode
  constructor
  · intro h
    cases hd : decodeFrom false 0 bs with
    | error offset =>
      rw [hd] at h
      cases h
    | ok ns =>
      rw [hd] at h
      cases h
      exact encode_of_decodeFrom hd
  · rintro rfl
    rw [decodeFrom_encode]
    show Except.ok ((s.map Char.toNat).map Char.ofNat) = .ok s
    rw [List.map_map]
    simp [Function.comp_def]

/-! ## Bytes that are no text -/

/-- No sequence stands in front of the bytes. -/
def Unreadable (bs : List UInt8) : Prop := ∀ seq n, Sequence seq n → ¬seq <+: bs

theorem decodeFrom_of_unreadable {bs : List UInt8} (hne : bs ≠ []) (h : Unreadable bs)
    (offset : Nat) : decodeFrom false offset bs = .error offset := by
  fun_cases decodeFrom false offset bs with
  | case1 => exact absurd rfl hne
  | case2 a r ha => exact absurd ⟨r, rfl⟩ (h _ _ (.one ha))
  | case4 a ha b r hb => exact absurd ⟨r, rfl⟩ (h _ _ (.two hb))
  | case6 a ha b hb c r hc => exact absurd ⟨r, rfl⟩ (h _ _ (.three hc))
  | case8 a ha b hb c hc d r hd => exact absurd ⟨r, rfl⟩ (h _ _ (.four hd))
  | _ => rfl

/-- Behind a text, decoding goes on. -/
theorem decodeFrom_encode_append (offset : Nat) (s : List Char) (r : List UInt8) :
    decodeFrom false offset (encode s ++ r) =
      (decodeFrom false (offset + (encode s).length) r).map (s.map Char.toNat ++ ·) := by
  induction s generalizing offset with
  | nil =>
    show decodeFrom false offset r = (decodeFrom false (offset + 0) r).map ([] ++ ·)
    rw [Nat.add_zero]
    cases decodeFrom false offset r <;> rfl
  | cons c s ih =>
    rw [encode_cons, List.append_assoc, (sequence_utf8EncodeChar c).decodeFrom_append, ih,
      List.length_append, Nat.add_assoc]
    cases decodeFrom false (offset + ((String.utf8EncodeChar c).length + (encode s).length)) r <;> rfl

/-- Bytes that are no text are one up to where no sequence stands. -/
theorem exists_of_decodeFrom_error {offset k : Nat} {bs : List UInt8}
    (h : decodeFrom false offset bs = .error k) :
    ∃ s r, bs = encode s ++ r ∧ r ≠ [] ∧ Unreadable r := by
  -- on the number of bytes, since a sequence takes up to four
  induction hn : bs.length using Nat.strongRecOn generalizing offset k bs with
  | ind n ih =>
  by_cases hseq : ∃ seq n, Sequence seq n ∧ seq <+: bs
  · obtain ⟨seq, m, hm, r, rfl⟩ := hseq
    have hpos : 0 < seq.length := by cases hm <;> exact Nat.succ_pos _
    rw [hm.decodeFrom_append] at h
    cases hr : decodeFrom false (offset + seq.length) r with
    | ok ms =>
      rw [hr] at h
      cases h
    | error k' =>
      have hlength : r.length < n := by
        rw [← hn, List.length_append]
        omega
      obtain ⟨s, t, rfl, hne, hun⟩ := ih r.length hlength hr rfl
      refine ⟨Char.ofNat m :: s, t, ?_, hne, hun⟩
      rw [encode_cons, hm.utf8EncodeChar_ofNat, List.append_assoc]
  · refine ⟨[], bs, rfl, ?_, fun seq m hm hprefix => hseq ⟨seq, m, hm, hprefix⟩⟩
    rintro rfl
    cases h

/-- Decoding fails behind a text where no sequence stands. -/
theorem decodeFrom_encode_unreadable {r : List UInt8} (hne : r ≠ []) (hun : Unreadable r)
    (offset : Nat) (s : List Char) :
    decodeFrom false offset (encode s ++ r) = .error (offset + (encode s).length) := by
  rw [decodeFrom_encode_append, decodeFrom_of_unreadable hne hun]
  rfl

theorem decode_encode_unreadable {r : List UInt8} (hne : r ≠ []) (hun : Unreadable r)
    (s : List Char) : decode (encode s ++ r) = .error (encode s).length := by
  rw [decode, decodeFrom_encode_unreadable hne hun, Nat.zero_add]
  rfl

/-- Where decoding fails, a text ends and no sequence stands. -/
theorem exists_of_decode_error {bs : List UInt8} {k : Nat} (h : decode bs = .error k) :
    ∃ s a r, bs = encode s ++ a :: r ∧ k = (encode s).length ∧ Unreadable (a :: r) := by
  obtain ⟨k', hk'⟩ : ∃ k', decodeFrom false 0 bs = .error k' := by
    cases hd : decodeFrom false 0 bs with
    | error k' => exact ⟨k', rfl⟩
    | ok ns =>
      rw [decode, hd] at h
      cases h
  obtain ⟨s, r, rfl, hne, hun⟩ := exists_of_decodeFrom_error hk'
  rw [decode_encode_unreadable hne hun] at h
  cases h
  cases r with
  | nil => exact absurd rfl hne
  | cons a r => exact ⟨s, a, r, rfl, rfl, hun⟩

end ContractInterface.Text.Utf8
