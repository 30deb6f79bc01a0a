/-!
# Letter case of keywords

Keywords of settings and requests are ASCII words that may be written in either case.  What is
needed of the case maps is the part that yields ASCII: besides the ASCII letters themselves, a few
characters have capitals or small letters in ASCII (`ı`, `ſ`, `ß`, the `f` and `s` ligatures, the
Kelvin sign).  Every other character stays as it is and so equals no letter of a keyword.
-/

namespace ContractInterface.Text

/-- The capital form of a character where that form is ASCII. -/
def capital (c : Char) : List Char :=
  if c.toNat < 128 then [c.toUpper]
  else match c with
    | 'ß' => ['S', 'S']
    | 'ı' => ['I']
    | 'ſ' => ['S']
    | 'ﬀ' => ['F', 'F']
    | 'ﬁ' => ['F', 'I']
    | 'ﬂ' => ['F', 'L']
    | 'ﬃ' => ['F', 'F', 'I']
    | 'ﬄ' => ['F', 'F', 'L']
    | 'ﬅ' => ['S', 'T']
    | 'ﬆ' => ['S', 'T']
    | _ => [c]

/-- The small form of a character where that form is ASCII. -/
def small (c : Char) : Char :=
  if c.toNat < 128 then c.toLower else if c.toNat == 0x212A then 'k' else c

def capitals (s : List Char) : List Char := s.flatMap capital

def smallLetters (s : List Char) : List Char := s.map small

end ContractInterface.Text
