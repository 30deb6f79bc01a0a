import ContractInterface.Text.Quoted

/-!
# Surrogates

Two surrogates, a high and a low one, write a character in 16-bit units.  Data files can hold lone
ones, which are code points but no characters.  Where they do not matter they are read as the
replacement character (`replaced`).  Where they do, each is kept as a character that the text at hand
does not have otherwise (`StandIns.fresh`); such a stand-in is no letter, digit or mark of any
grammar, and messages show it by the code of its surrogate (`StandIns.shown`).  No file or message can
hold a lone surrogate, so a text with stand-ins cannot be sent (`LoneRun.message`).
-/

namespace ContractInterface.Text

/-! ## Code points -/

def isHigh (n : Nat) : Bool := decide (0xD800 ≤ n) && decide (n < 0xDC00)

def isLow (n : Nat) : Bool := decide (0xDC00 ≤ n) && decide (n < 0xE000)

def isSurrogate (n : Nat) : Bool := isHigh n || isLow n

/-- The code point of a pair of surrogates. -/
def joined (high low : Nat) : Nat := 0x10000 + (high - 0xD800) * 0x400 + (low - 0xDC00)

/-- The character of a code point; `lone` gives the one that a surrogate is kept as. -/
def charOf (lone : Nat → Char) (n : Nat) : Char := if isSurrogate n then lone n else Char.ofNat n

/-- The replacement character, for any surrogate. -/
def replaced (_ : Nat) : Char := '\ufffd'

/-! ## Stand-ins -/

/-- Lone surrogates that follow one another in a text. -/
structure LoneRun where
  /-- the number of characters in front of them -/
  offset : Nat
  /-- the first of them -/
  code : Nat
  count : Nat
deriving DecidableEq, Repr

/-- What is said of a text that cannot be encoded because of lone surrogates. -/
def LoneRun.message : LoneRun → String
  | ⟨offset, code, 1⟩ =>
    "'utf-8' codec can't encode character '\\u" ++ String.ofList (hexDigits 4 code) ++
      s!"' in position {offset}: surrogates not allowed"
  | ⟨offset, _, count⟩ =>
    "'utf-8' codec can't encode characters in position " ++
      s!"{offset}-{offset + count - 1}: surrogates not allowed"

/-- Characters with codes in a row that stand for the surrogates. -/
structure StandIns where
  /-- the code of the character that stands for the first surrogate -/
  first : Nat
  count : Nat
deriving DecidableEq, Repr

namespace StandIns

/-- No characters at all, for a text without lone surrogates. -/
def absent : StandIns := ⟨0, 0⟩

/-- The character that stands for the surrogate `n`. -/
def char (b : StandIns) (n : Nat) : Char := Char.ofNat (b.first + (n - 0xD800))

/-- One of the stand-ins has the code `n`. -/
def covers (b : StandIns) (n : Nat) : Bool :=
  decide (b.first ≤ n) && decide (n < b.first + b.count)

def holds (b : StandIns) (c : Char) : Bool := b.covers c.toNat

/-- The surrogate that the stand-in with the code `n` is for. -/
def code (b : StandIns) (n : Nat) : Nat := n - b.first + 0xD800

theorem covers_absent (n : Nat) : absent.covers n = false := by simp [covers, absent]

/-- The stand-ins to choose from, in the planes of which no character is assigned. -/
def candidates : List StandIns := (List.range 320).map fun k => ⟨0x40000 + 0x800 * k, 0x800⟩

/-- Stand-ins that are not among the given characters. -/
def fresh (used : List Char) : StandIns :=
  (candidates.find? fun b => !used.any b.holds).getD absent

theorem not_holds_fresh {used : List Char} {c : Char} (h : c ∈ used) :
    (fresh used).holds c = false := by
  unfold fresh
  cases hf : candidates.find? fun b => !used.any b.holds with
  | none => exact covers_absent _
  | some b =>
    have := List.find?_some hf
    simp at this
    exact this c h

/-- The stand-ins for the lone surrogates of a text, of which `read` gives the characters with one
character for every lone surrogate.  A text that reads alike whichever it is has none. -/
def choose (read : Char → List Char) : StandIns :=
  if read '\x00' = read '\ufffd' then absent else fresh (read '\ufffd')

/-- The number that hexadecimal digits write, with small letters. -/
def hexNumber (ds : List Char) : Nat :=
  ds.foldl (fun n c => 16 * n + (c.toNat - if c.isDigit then 48 else 87)) 0

/-- The surrogate whose stand-in has the code that the digits write. -/
def written? (b : StandIns) (digits : List Char) : Option Nat :=
  if b.covers (hexNumber digits) then some (b.code (hexNumber digits)) else none

/-- A message in which quoted stand-ins are shown by the surrogates that they stand for.  A backslash
that is part of a quoted text is written twice. -/
def shown (b : StandIns) (s : List Char) : List Char :=
  match s with
  | [] => []
  | '\\' :: 'U' :: r =>
    match b.written? (r.take 8) with
    | some n => '\\' :: 'u' :: (hexDigits 4 n ++ shown b (r.drop 8))
    | none => '\\' :: 'U' :: shown b r
  | '\\' :: c :: r => '\\' :: c :: shown b r
  | c :: r => c :: shown b r
termination_by s.length
decreasing_by all_goals simp only [List.length_cons, List.length_drop]; omega

theorem shown_absent (s : List Char) : absent.shown s = s := by
  fun_induction shown absent s <;> simp_all [written?, covers_absent]

/-- The first stand-ins in a text. -/
def loneRun? (b : StandIns) (s : List Char) : Option LoneRun :=
  let before := s.takeWhile fun c => !b.holds c
  match s.drop before.length with
  | [] => none
  | c :: r => some ⟨before.length, b.code c.toNat, (r.takeWhile b.holds).length + 1⟩

theorem loneRun?_absent (s : List Char) : absent.loneRun? s = none := by
  have h : (s.takeWhile fun c => !absent.holds c) = s := by
    induction s with
    | nil => rfl
    | cons c r ih =>
      simp only [List.takeWhile_cons, holds, covers_absent, Bool.not_false, if_true] at ih ⊢
      rw [ih]
  simp [loneRun?, h]

end StandIns

end ContractInterface.Text
