import ContractInterface.Contract.Typing

/-!
# One checker for many units

A checker answers to one unit after the other.  Whatever it holds when it is asked, the answer is that
of a fresh checker:

    c.inferAll units = units.map Contract.infer                                   (inferAll_eq_map)

No call sees what an earlier one left: `start` replaces the contracts of the unit and the issues, and
`enter` replaces the table of types before anything is looked up in it.  So checkers that differ in
this table only cannot be told apart (`run_congr`).
-/

namespace ContractInterface.Checker

/-- The answers to one unit after the other.  Each call finds what the call before left, also where
that one was stopped. -/
def inferAll (c : Checker) : List (List Contract) → List (Except CheckError (List Contract))
  | [] => []
  | unit :: units => (c.infer unit).1 :: inferAll (c.infer unit).2 units

/-- The checkers agree on all but the types of the contract at hand. -/
structure Agree (c d : Checker) : Prop where
  contractNames : c.contractNames = d.contractNames
  issues : c.issues = d.issues

theorem agree_start (c d : Checker) (unit : List Contract) :
    Agree (c.start unit) (d.start unit) := ⟨rfl, rfl⟩

variable {c d : Checker}

theorem enter_congr (h : Agree c d) (k : Contract) : c.enter k = d.enter k := by
  rw [enter, enter, h.contractNames, h.issues]

theorem checkContract_congr (h : Agree c d) (k : Contract) :
    c.checkContract k = d.checkContract k := by
  rw [checkContract, checkContract, enter_congr h]

/-- They are stopped by the same obstacle, if any, and agree afterwards. -/
theorem run_congr (h : Agree c d) (ks : List Contract) :
    (c.run ks).1 = (d.run ks).1 ∧ Agree (c.run ks).2 (d.run ks).2 := by
  cases ks with
  | nil => exact ⟨rfl, h⟩
  | cons k ks =>
    -- the first contract brings its own types, and makes them the same checker
    have hrun : c.run (k :: ks) = d.run (k :: ks) := by
      rw [run, run, checkContract_congr h]
    rw [hrun]
    exact ⟨rfl, rfl, rfl⟩

/-- The answer to a unit does not depend on the checker. -/
theorem infer_congr (c d : Checker) (unit : List Contract) :
    (c.infer unit).1 = (d.infer unit).1 := by
  obtain ⟨hstop, hend⟩ := run_congr (agree_start c d unit) unit
  unfold infer
  generalize (c.start unit).run unit = r at hstop hend
  generalize (d.start unit).run unit = s at hstop hend
  obtain ⟨stop, c'⟩ := r
  obtain ⟨_, d'⟩ := s
  cases hstop
  cases stop with
  | some e => rfl
  | none =>
    have hissues : c'.issues = d'.issues := hend.issues
    simp only [hissues]
    split <;> rfl

/-- **A checker carries nothing over from one unit to the next**, whether it accepted the unit,
found issues in it or was stopped. -/
theorem inferAll_eq_map (c : Checker) (units : List (List Contract)) :
    c.inferAll units = units.map Contract.infer := by
  induction units generalizing c with
  | nil => rfl
  | cons unit units ih => rw [inferAll, List.map_cons, ih, infer_congr c .fresh, Contract.infer]

-- stopped, the checker is left with the type `t` and an issue about `u`; neither shows in what follows
example : fresh.inferAll
    [[⟨⟨"C", none⟩, [.typeDef ⟨⟨"t", none⟩, [],
        .synonym (.tuple [.named ⟨"u", none⟩, .absent]), none⟩], none⟩],
      [⟨⟨"D", none⟩, [.typeDef ⟨⟨"v", none⟩, [], .synonym (.named ⟨"t", none⟩), none⟩], none⟩]] =
    [.error (.notAType "None"),
      .error (.illTyped [⟨.unknown, .unknownType "t" (.definition "v")⟩])] := rfl

end ContractInterface.Checker
