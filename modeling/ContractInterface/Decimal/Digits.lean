/-!
# Decimal digits of natural numbers

    value (digits n) = n

`digits` writes without leading zeros, `value` reads any run of digits.
-/

namespace ContractInterface.Decimal

/-- The digit of a value below ten. -/
def digitChar (d : Nat) : Char := Char.ofNat (48 + d)

/-- The value of a digit. -/
def digitValue (c : Char) : Nat := c.toNat - 48

/-- The digits of `n` in front of `tail`. -/
def digitsOnto (n : Nat) (tail : List Char) : List Char :=
  if n < 10 then digitChar n :: tail else digitsOnto (n / 10) (digitChar (n % 10) :: tail)

/-- The decimal digits of `n`. -/
def digits (n : Nat) : List Char := digitsOnto n []

/-- The number that a run of decimal digits denotes. -/
def value (s : List Char) : Nat := s.foldl (fun n c => 10 * n + digitValue c) 0

def intText (n : Int) : String :=
  if n < 0 then String.ofList ('-' :: digits n.natAbs) else String.ofList (digits n.natAbs)

theorem digitValue_digitChar (d : Nat) (h : d < 10) : digitValue (digitChar d) = d := by
  have : ∀ k : Fin 10, digitValue (digitChar k.val) = k.val := by decide
  exact this ⟨d, h⟩

theorem foldl_digitsOnto (n : Nat) (tail : List Char) :
    (digitsOnto n tail).foldl (fun n c => 10 * n + digitValue c) 0 =
      tail.foldl (fun n c => 10 * n + digitValue c) n := by
  fun_induction digitsOnto n tail with
  | case1 n tail h => simp [digitValue_digitChar n h]
  | case2 n tail h ih =>
    rw [ih, List.foldl_cons, digitValue_digitChar _ (Nat.mod_lt _ (by decide)), Nat.div_add_mod]

theorem value_digits (n : Nat) : value (digits n) = n := by
  simp [value, digits, foldl_digitsOnto]

end ContractInterface.Decimal
