import ContractInterface.Proofs.Text.Utf8
import ContractInterface.Text.Newlines

/-!
# Returns in front of line feeds

`withReturns s` is `s` with a return in front of every line feed.  Reading a file as text takes the
returns out again, and the encoding of a character is the same with and without them:

    uniformNewlines (withReturns s) = s                           (uniformNewlines_withReturns)
    encode (withReturns s) = bytesWithReturns (encode s)                   (encode_withReturns)

Bytes that are no text stop being one at the same sequence (`decode_bytesWithReturns`).
-/

namespace ContractInterface.Text

/-! ## Inserting -/

section

variable {α : Type} [DecidableEq α]

/-- Every `feed` with `ret` in front of it. -/
def insertReturns (ret feed : α) (s : List α) : List α :=
  s.flatMap fun a => if a = feed then [ret, feed] else [a]

variable (ret feed : α)

theorem insertReturns_feed (s : List α) :
    insertReturns ret feed (feed :: s) = ret :: feed :: insertReturns ret feed s := by
  simp [insertReturns]

theorem insertReturns_cons {a : α} (ha : a ≠ feed) (s : List α) :
    insertReturns ret feed (a :: s) = a :: insertReturns ret feed s := by
  simp [insertReturns, ha]

theorem insertReturns_append (s t : List α) : insertReturns ret feed (s ++ t) =
    insertReturns ret feed s ++ insertReturns ret feed t := List.flatMap_append

theorem insertReturns_eq_self {s : List α} (hs : feed ∉ s) : insertReturns ret feed s = s := by
  induction s with
  | nil => rfl
  | cons a s ih =>
    have ha : a ≠ feed := fun h => hs (by simp [h])
    rw [insertReturns_cons ret feed ha, ih fun h => hs (List.mem_cons_of_mem _ h)]

theorem count_insertReturns {ret : α} (h : ret ≠ feed) (s : List α) :
    (insertReturns ret feed s).count feed = s.count feed := by
  induction s with
  | nil => rfl
  | cons a s ih =>
    by_cases ha : a = feed
    · rw [ha, insertReturns_feed, List.count_cons_of_ne h, List.count_cons_self,
        List.count_cons_self, ih]
    · rw [insertReturns_cons ret feed ha, List.count_cons_of_ne ha, List.count_cons_of_ne ha, ih]

/-- Without `ret`, nothing stands in front that did not stand there before. -/
theorem prefix_of_insertReturns {ret : α} {s t : List α} (ht : ret ∉ t)
    (h : t <+: insertReturns ret feed s) : t <+: s := by
  induction t generalizing s with
  | nil => exact List.nil_prefix
  | cons b t ih =>
    simp only [List.mem_cons, not_or] at ht
    cases s with
    | nil => cases List.prefix_nil.1 h
    | cons a s =>
      by_cases ha : a = feed
      · rw [ha, insertReturns_feed] at h
        exact absurd (List.cons_prefix_cons.1 h).1.symm ht.1
      · rw [insertReturns_cons ret feed ha] at h
        have hsplit := List.cons_prefix_cons.1 h
        exact List.cons_prefix_cons.2 ⟨hsplit.1, ih ht.2 hsplit.2⟩

/-- What stands behind the last `feed` stays. -/
theorem takeWhile_reverse_insertReturns (s : List α) :
    (insertReturns ret feed s).reverse.takeWhile (· != feed) = s.reverse.takeWhile (· != feed) := by
  rw [insertReturns, List.reverse_flatMap]
  generalize s.reverse = t
  induction t with
  | nil => rfl
  | cons a t ih =>
    rw [List.flatMap_cons, Function.comp_apply]
    by_cases ha : a = feed
    · rw [if_pos ha, ha]
      simp
    · rw [if_neg ha, List.takeWhile_cons, ← ih]
      simp [ha]

end

/-! ## Texts -/

/-- The text with a return in front of every line feed. -/
def withReturns (s : List Char) : List Char := insertReturns '\r' '\n' s

theorem withReturns_feed (s : List Char) : withReturns ('\n' :: s) = '\r' :: '\n' :: withReturns s :=
  insertReturns_feed ..

theorem withReturns_cons {c : Char} (hc : c ≠ '\n') (s : List Char) :
    withReturns (c :: s) = c :: withReturns s :=
  insertReturns_cons _ _ hc s

theorem withReturns_append (s t : List Char) :
    withReturns (s ++ t) = withReturns s ++ withReturns t := insertReturns_append ..

theorem withReturns_eq_self {s : List Char} (hs : '\n' ∉ s) : withReturns s = s :=
  insertReturns_eq_self _ _ hs

/-- Read as text, a file has the line ends that it had without returns. -/
theorem uniformNewlines_withReturns {s : List Char} (hs : '\r' ∉ s) :
    uniformNewlines (withReturns s) = s := by
  induction s with
  | nil => rfl
  | cons c s ih =>
    have hrest := ih fun h => hs (List.mem_cons_of_mem _ h)
    by_cases hc : c = '\n'
    · rw [hc, withReturns_feed, uniformNewlines, hrest]
    · have hreturn : c ≠ '\r' := fun h => hs (by simp [h])
      rw [withReturns_cons hc, uniformNewlines, if_neg hreturn, hrest]
      intro _ h
      exact absurd h hreturn

/-! ## Bytes -/

namespace Utf8

/-- Bytes with a return in front of every line feed. -/
def bytesWithReturns (b : List UInt8) : List UInt8 := insertReturns 0x0D 0x0A b

theorem bytesWithReturns_append (b c : List UInt8) :
    bytesWithReturns (b ++ c) = bytesWithReturns b ++ bytesWithReturns c := insertReturns_append ..

/-- Returns are inserted alike into a text and its encoding. -/
theorem encode_withReturns (s : List Char) :
    encode (withReturns s) = bytesWithReturns (encode s) := by
  induction s with
  | nil => rfl
  | cons c s ih =>
    by_cases hc : c = '\n'
    · have hfeed : String.utf8EncodeChar '\n' = [0x0A] := by decide
      have hreturn : String.utf8EncodeChar '\r' = [0x0D] := by decide
      rw [hc, withReturns_feed, encode_cons, encode_cons, encode_cons, ih, hfeed, hreturn]
      exact (insertReturns_feed 0x0D 0x0A (encode s)).symm
    · have hself : bytesWithReturns (String.utf8EncodeChar c) = String.utf8EncodeChar c :=
        insertReturns_eq_self _ _ (feed_notMem_utf8EncodeChar hc)
      rw [withReturns_cons hc, encode_cons, encode_cons, ih, bytesWithReturns_append, hself]

/-- Returns do not make bytes readable. -/
theorem unreadable_bytesWithReturns {a : UInt8} {r : List UInt8} (h : Unreadable (a :: r)) :
    bytesWithReturns (a :: r) = a :: bytesWithReturns r ∧ Unreadable (bytesWithReturns (a :: r)) := by
  have ha : ¬a < 0x80 := fun ha => h [a] _ (.one ha) ⟨r, rfl⟩
  have hfeed : a ≠ 0x0A := by
    rintro rfl
    exact ha (by decide)
  have hcons : bytesWithReturns (a :: r) = a :: bytesWithReturns r := insertReturns_cons _ _ hfeed r
  refine ⟨hcons, fun seq n hseq hprefix => ?_⟩
  by_cases hn : n = 0x0D
  · -- the sequence is the return, which does not stand there
    have hbyte := hseq.utf8EncodeChar_ofNat
    rw [hn] at hbyte
    have hreturn : String.utf8EncodeChar (Char.ofNat 0x0D) = [0x0D] := by decide
    rw [← hbyte, hreturn, hcons] at hprefix
    rw [← (List.cons_prefix_cons.1 hprefix).1] at ha
    exact ha (by decide)
  · have hmem : (0x0D : UInt8) ∉ seq := hseq.ascii_notMem (by decide) hn
    exact h seq n hseq (prefix_of_insertReturns _ hmem hprefix)

/-- **Where bytes stop being text** they still do so with returns, behind the same text. -/
theorem decode_bytesWithReturns {bs : List UInt8} {k : Nat} (h : decode bs = .error k) :
    ∃ s a r, bs = encode s ++ a :: r ∧ k = (encode s).length ∧
      bytesWithReturns bs = encode (withReturns s) ++ a :: bytesWithReturns r ∧
      decode (bytesWithReturns bs) = .error (encode (withReturns s)).length := by
  obtain ⟨s, a, r, rfl, rfl, hun⟩ := exists_of_decode_error h
  obtain ⟨hcons, hun'⟩ := unreadable_bytesWithReturns hun
  have hbytes : bytesWithReturns (encode s ++ a :: r) =
      encode (withReturns s) ++ a :: bytesWithReturns r := by
    rw [bytesWithReturns_append, encode_withReturns, hcons]
  rw [hcons] at hun'
  refine ⟨s, a, r, rfl, rfl, hbytes, ?_⟩
  rw [hbytes, decode_encode_unreadable (List.cons_ne_nil _ _) hun']

end Utf8

end ContractInterface.Text
