import ContractInterface.Description
import ContractInterface.Proofs.LastMark
import ContractInterface.Proofs.Scan.Tiling
import ContractInterface.Proofs.Text.Utf8

/-!
# Where bytes stop being text

Bytes that are no UTF-8 are refused before anything else is looked at.  What is blamed is the byte
behind their longest beginning that is UTF-8; its line counts the line feeds of that beginning, its
column the bytes of the last line of it (`SourceError.Blames`):

    ¬IsText bs → ∃ e before last byte, e.Blames bs before last byte ∧ r.run = .error (.source e)

Where that line is ASCII, this is the position to which stepping through the text leads.  Bytes that
are UTF-8 have the description of the text that they write (`invalid_byte_located`).
-/

namespace ContractInterface

namespace Text

/-! ## Encodings -/

namespace Utf8

/-- The bytes are the encoding of a text. -/
def IsText (bs : List UInt8) : Prop := ∃ s, encode s = bs

/-- No longer beginning of the bytes is a text. -/
structure LongestText (bs before : List UInt8) : Prop where
  isPrefix : before <+: bs
  isText : IsText before
  longest : ∀ p, p <+: bs → IsText p → p.length ≤ before.length

/-- A text in front of bytes that no sequence starts is the longest one. -/
theorem longestText_of_unreadable {r : List UInt8} (hne : r ≠ []) (hun : Unreadable r)
    (s : List Char) : LongestText (encode s ++ r) (encode s) := by
  refine ⟨List.prefix_append _ _, ⟨s, rfl⟩, ?_⟩
  rintro _ ⟨q, hq⟩ ⟨t, rfl⟩
  have herror := decodeFrom_encode_unreadable hne hun 0 s
  rw [← hq, decodeFrom_encode_append] at herror
  -- decoding fails behind `t`, and what fails behind it starts with a text of its own
  cases hd : decodeFrom false (0 + (encode t).length) q with
  | ok ns =>
    rw [hd] at herror
    cases herror
  | error k =>
    obtain ⟨u, r', rfl, hne', hun'⟩ := exists_of_decodeFrom_error hd
    rw [decodeFrom_encode_unreadable hne' hun'] at herror
    have hlength : 0 + (encode t).length + (encode u).length = 0 + (encode s).length :=
      Except.error.inj herror
    omega

theorem encode_append (s t : List Char) : encode (s ++ t) = encode s ++ encode t :=
  List.flatMap_append

theorem encode_feed : encode ['\n'] = [0x0A] := by decide

theorem feed_notMem_encode {s : List Char} (hs : '\n' ∉ s) : (0x0A : UInt8) ∉ encode s := by
  intro h
  obtain ⟨c, hc, hmem⟩ := List.mem_flatMap.1 h
  refine feed_notMem_utf8EncodeChar ?_ hmem
  rintro rfl
  exact hs hc

/-- A text and its encoding have the same line feeds. -/
theorem count_encode (s : List Char) : (encode s).count 0x0A = s.count '\n' := by
  induction s with
  | nil => rfl
  | cons c s ih =>
    rw [encode_cons, List.count_append, ih]
    by_cases hc : c = '\n'
    · rw [hc, List.count_cons_self, Nat.add_comm]
      rfl
    · rw [List.count_cons_of_ne hc, List.count_eq_zero.2 (feed_notMem_utf8EncodeChar hc),
        Nat.zero_add]

/-- A sequence of ASCII bytes is one of them. -/
theorem Sequence.length_of_ascii {bs : List UInt8} {n : Nat} (h : Sequence bs n)
    (hascii : ∀ b ∈ bs, b < 0x80) : bs.length = 1 := by
  cases h with
  | one => rfl
  | two h =>
    have hbounds := isValid2_iff.1 h
    have hlt := UInt8.lt_iff_toNat_lt.1 (hascii _ List.mem_cons_self)
    exact absurd (Nat.le_trans hbounds.1.1 (Nat.le_of_lt hlt)) (by decide)
  | three h =>
    have hbounds := isValid3_iff.1 h
    have hlt := UInt8.lt_iff_toNat_lt.1 (hascii _ List.mem_cons_self)
    exact absurd (Nat.le_trans hbounds.1.1 (Nat.le_of_lt hlt)) (by decide)
  | four h =>
    have hbounds := isValid4_iff.1 h
    have hlt := UInt8.lt_iff_toNat_lt.1 (hascii _ List.mem_cons_self)
    exact absurd (Nat.le_trans hbounds.1.1 (Nat.le_of_lt hlt)) (by decide)

/-- A text in ASCII has one byte for each character. -/
theorem length_encode_of_ascii {s : List Char} (h : ∀ b ∈ encode s, b < 0x80) :
    (encode s).length = s.length := by
  induction s with
  | nil => rfl
  | cons c s ih =>
    rw [encode_cons] at h ⊢
    have hone := (sequence_utf8EncodeChar c).length_of_ascii
      fun b hb => h b (List.mem_append_left _ hb)
    have hrest := ih fun b hb => h b (List.mem_append_right _ hb)
    rw [List.length_append, hone, hrest, List.length_cons, Nat.add_comm]

end Utf8

end Text

/-! ## Positions -/

open Text.Utf8 (IsText LongestText)

/-- The last line of a text is encoded as the last line of its encoding. -/
theorem LastMark.encode {s above last : List Char} (h : LastMark '\n' s above last) :
    LastMark 0x0A (Text.Utf8.encode s) (Text.Utf8.encode above) (Text.Utf8.encode last) := by
  obtain ⟨rfl, hended, hlast⟩ := h
  refine ⟨Text.Utf8.encode_append _ _, ?_, Text.Utf8.feed_notMem_encode hlast⟩
  rcases hended with rfl | ⟨lines, rfl⟩
  · exact .inl rfl
  · exact .inr ⟨Text.Utf8.encode lines, by rw [Text.Utf8.encode_append, Text.Utf8.encode_feed]⟩

theorem Position.start_after {s above last : List Char} (h : LastMark '\n' s above last) :
    start.after s = ⟨1 + s.count '\n', 1 + last.length⟩ := by
  have hlocate : start.after s = locate s := (locate_append [] s).symm
  rw [hlocate, locate, h.takeWhile_reverse fun c => decide_eq_true_iff, List.length_reverse]

/-- Where the last line is ASCII, its bytes count the characters. -/
theorem Position.start_after_of_ascii {s : List Char} {above last : List UInt8}
    (h : LastMark 0x0A (Text.Utf8.encode s) above last) (hascii : ∀ b ∈ last, b < 0x80) :
    start.after s = ⟨1 + (Text.Utf8.encode s).count 0x0A, 1 + last.length⟩ := by
  obtain ⟨above', last', h'⟩ := exists_lastMark '\n' s
  obtain rfl : Text.Utf8.encode last' = last := h'.encode.unique h
  rw [start_after h', Text.Utf8.count_encode, Text.Utf8.length_encode_of_ascii hascii]

/-! ## The blame -/

/-- The error blames the byte `byte` of `bs` behind `before`, the last line of which is `last`. -/
structure SourceError.Blames (e : SourceError) (bs before last : List UInt8) (byte : UInt8) :
    Prop where
  longest : LongestText bs before
  next : before ++ [byte] <+: bs
  lastLine : ∃ above, LastMark 0x0A before above last
  line : e.line = 1 + before.count 0x0A
  column : e.column = 1 + last.length
  detail : e.detail =
    String.ofList ("invalid UTF-8 byte 0x".toList ++ Text.hexDigits 2 byte.toNat)
  position : (∀ b ∈ last, b < 0x80) → ∀ s, Text.Utf8.encode s = before →
    Position.start.after s = ⟨e.line, e.column⟩

/-- The byte behind a text is blamed if no sequence starts with it. -/
theorem blames_invalidByte {byte : UInt8} {rest : List UInt8}
    (h : Text.Utf8.Unreadable (byte :: rest)) (s : List Char) : ∃ last,
      (invalidByte (Text.Utf8.encode s ++ byte :: rest) (Text.Utf8.encode s).length).Blames
        (Text.Utf8.encode s ++ byte :: rest) (Text.Utf8.encode s) last byte := by
  obtain ⟨above, last, hlast⟩ := exists_lastMark (0x0A : UInt8) (Text.Utf8.encode s)
  have htake := hlast.takeWhile_reverse (p := (· != 0x0A)) fun b => bne_iff_ne
  generalize hbefore : Text.Utf8.encode s = before at hlast htake ⊢
  have hline : (invalidByte (before ++ byte :: rest) before.length).line =
      1 + before.count 0x0A := by
    simp only [invalidByte, List.take_left, Int.add_comm]
  have hcolumn : (invalidByte (before ++ byte :: rest) before.length).column =
      1 + last.length := by
    simp only [invalidByte, List.take_left, htake, List.length_reverse]
    omega
  refine ⟨last, ?_, ?_, ⟨above, hlast⟩, hline, hcolumn, ?_, ?_⟩
  · rw [← hbefore]
    exact Text.Utf8.longestText_of_unreadable (List.cons_ne_nil _ _) h s
  · exact ⟨rest, by rw [List.append_assoc]; rfl⟩
  · simp only [invalidByte, List.drop_left, List.headD_cons]
  · rintro hascii t rfl
    rw [hline, hcolumn, Position.start_after_of_ascii hlast hascii]

/-- **Bytes that are no UTF-8 are refused for the byte behind their longest text**, whatever else is
wrong with them; other bytes have the description of the text that they write. -/
theorem invalid_byte_located (bs : List UInt8) :
    (¬IsText bs → ∃ e before last byte, SourceError.Blames e bs before last byte ∧
      ∀ r : DescribeRequest, r.source = .bytes bs → r.run = .error (.source e)) ∧
    ∀ s : String, Text.Utf8.encode s.toList = bs → ∀ r : DescribeRequest, r.source = .bytes bs →
      r.run = { r with source := .text s }.run := by
  constructor
  · intro hno
    obtain ⟨k, hk⟩ : ∃ k, Text.Utf8.decode bs = .error k := by
      cases hd : Text.Utf8.decode bs with
      | error k => exact ⟨k, rfl⟩
      | ok s => exact absurd ⟨s, Text.Utf8.decode_eq_ok_iff.1 hd⟩ hno
    obtain ⟨s, byte, rest, rfl, rfl, hun⟩ := Text.Utf8.exists_of_decode_error hk
    obtain ⟨last, hblames⟩ := blames_invalidByte hun s
    refine ⟨_, _, last, byte, hblames, fun r hr => ?_⟩
    unfold DescribeRequest.run
    rw [hr]
    simp only [Source.decode, hk]
  · intro s hs r hr
    have hdecode : Text.Utf8.decode bs = .ok s.toList := Text.Utf8.decode_eq_ok_iff.2 hs
    unfold DescribeRequest.run
    rw [hr]
    simp only [Source.decode, hdecode, String.ofList_toList]

/-- A sequence of three bytes that is cut short. -/
theorem invalid_byte_located_cut :
    ¬IsText [0x0A, 0x61, 0xE2, 0x82] ∧ ∃ e before last byte,
      SourceError.Blames e [0x0A, 0x61, 0xE2, 0x82] before last byte ∧ ∀ r : DescribeRequest,
        r.source = .bytes [0x0A, 0x61, 0xE2, 0x82] → r.run = .error (.source e) := by
  have hno : ¬IsText [0x0A, 0x61, 0xE2, 0x82] := by
    rintro ⟨s, hs⟩
    have hdecode := Text.Utf8.decode_eq_ok_iff.2 hs
    have herror : Text.Utf8.decode [0x0A, 0x61, 0xE2, 0x82] = .error 2 := rfl
    rw [herror] at hdecode
    cases hdecode
  exact ⟨hno, (invalid_byte_located _).1 hno⟩

end ContractInterface
