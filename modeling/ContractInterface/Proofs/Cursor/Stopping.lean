import ContractInterface.Proofs.Cursor.Scanner
import ContractInterface.Proofs.Cursor.Parser

/-!
# Scanner and parser stop within their input

Run with a cursor that nothing bounds, the scanner stops on every source and the parser on every
list that ends with the end mark, further end marks inside included.  Neither reads where there is
nothing, neither begins a round or a call within what began at the same place, and both find what
`Token.scan` and `Contract.ofTokens` say.  The cursor goes forward in `advance` only, one place at a
time, so where it ends bounds where it has been.
-/

namespace ContractInterface

open Run

theorem exec_tokens (source : String) :
    ∃ c, exec Scanner.tokens (.front source.toList .start) =
        some ((Token.scan source).mapError .failure, c) ∧
      c.stalled = false ∧ c.offset ≤ source.toList.length := by
  have hscans := Scanner.scans_tokens (c := .front source.toList .start)
  have hrest : (Cursor.front source.toList Position.start).rest = source.toList := rfl
  have hkept : (Cursor.front source.toList Position.start).kept = .start := rfl
  rw [hrest, hkept, ← Token.scan] at hscans
  cases hscan : Token.scan source with
  | ok ts =>
    rw [hscan] at hscans
    refine ⟨_, hscans.2, rfl, ?_⟩
    show 0 + source.toList.length ≤ _
    omega
  | error f =>
    rw [hscan] at hscans
    obtain ⟨n, hn, hexec⟩ := hscans
    refine ⟨_, hexec, rfl, ?_⟩
    show 0 + n ≤ _
    rw [hrest] at hn
    omega

theorem exec_contracts (us : List Token) {e : Token} (he : e.kind = .finish) :
    ∃ c, exec Parser.contracts (.front (us ++ [e]) []) =
        some ((Contract.ofTokens (us ++ [e])).mapError .failure, c) ∧
      c.stalled = false ∧ c.offset < (us ++ [e]).length := by
  have hend : (Cursor.front (us ++ [e]) ([] : List String)).Ended := by
    refine ⟨?_, ?_⟩
    · show 0 < (us ++ [e]).length
      simp
    · intro t ht
      have hlast : (us ++ [e]).getLast? = some e := by simp
      obtain rfl : e = t := Option.some.inj (hlast.symm.trans ht)
      exact he
  obtain ⟨o, names, ho, hexec⟩ := Parser.stops_contracts hend
  exact ⟨_, hexec, rfl, ho⟩

/-- **Scanner and parser always stop**, on a place of their input, and find what is to be found. -/
theorem stops_within_input :
    (∀ source : String, ∃ c, exec Scanner.tokens (.front source.toList .start) =
        some ((Token.scan source).mapError .failure, c) ∧
      c.stalled = false ∧ c.offset ≤ source.toList.length) ∧
    ∀ (us : List Token) (e : Token), e.kind = .finish →
      ∃ c, exec Parser.contracts (.front (us ++ [e]) []) =
          some ((Contract.ofTokens (us ++ [e])).mapError .failure, c) ∧
        c.stalled = false ∧ c.offset < (us ++ [e]).length :=
  ⟨exec_tokens, fun us _ he => exec_contracts us he⟩

/-- A type that an end mark cuts short. -/
def cutTokens : List Token :=
  [⟨.kwContract, "contract", ⟨1, 1⟩⟩, ⟨.con, "A", ⟨1, 10⟩⟩, ⟨.eq, "=", ⟨1, 12⟩⟩,
   ⟨.kwType, "type", ⟨2, 1⟩⟩, ⟨.identifier, "t", ⟨2, 6⟩⟩, ⟨.eq, "=", ⟨2, 8⟩⟩,
   ⟨.lparen, "(", ⟨2, 10⟩⟩, ⟨.tvar, "'a", ⟨2, 11⟩⟩, ⟨.comma, ",", ⟨2, 13⟩⟩,
   ⟨.finish, "", ⟨2, 14⟩⟩, ⟨.rparen, ")", ⟨2, 14⟩⟩]

theorem stops_within_input_cut :
    ∃ c, exec Parser.contracts (.front (cutTokens ++ [⟨.finish, "", ⟨2, 15⟩⟩]) []) =
        some (.error (.failure ⟨⟨2, 14⟩, .unexpected ⟨.finish, "", ⟨2, 14⟩⟩ .type⟩), c) ∧
      c.stalled = false ∧ c.offset < 12 := by
  have htokens : Contract.ofTokens (cutTokens ++ [⟨.finish, "", ⟨2, 15⟩⟩]) =
      .error ⟨⟨2, 14⟩, .unexpected ⟨.finish, "", ⟨2, 14⟩⟩ .type⟩ := by cbv
  obtain ⟨c, hexec, hstalled, hoffset⟩ :=
    stops_within_input.2 cutTokens ⟨.finish, "", ⟨2, 15⟩⟩ rfl
  rw [htokens] at hexec
  exact ⟨c, hexec, hstalled, hoffset⟩

end ContractInterface
