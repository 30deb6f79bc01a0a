import ContractInterface.Text.Ranges

/-!
# Tables of code points that do not meet

Two tables in order are compared in one sweep, which passes over each of them once:

    r.sweep s = true → r.apart s = true                                     (Ranges.apart_of_sweep)
-/

namespace ContractInterface.Text

namespace Ranges

/-- No interval of the one meets one of the other. -/
def apart (r s : Ranges) : Bool :=
  r.all fun p => s.all fun q => Nat.blt p.2 q.1 || Nat.blt q.2 p.1

theorem has_eq_false_of_apart {r s : Ranges} (h : r.apart s = true) {n : Nat}
    (hr : r.has n = true) : s.has n = false := by
  rw [Bool.eq_false_iff]
  intro hs
  obtain ⟨p, hp, hlo, hhi⟩ := (has_iff r n).1 hr
  obtain ⟨q, hq, hlo', hhi'⟩ := (has_iff s n).1 hs
  have hpq := List.all_eq_true.1 (List.all_eq_true.1 h p hp) q hq
  simp only [Bool.or_eq_true, Nat.blt_eq] at hpq
  omega

/-- The intervals follow one another, from `n` on. -/
def ordered (n : Nat) : Ranges → Bool
  | [] => true
  | p :: r => Nat.ble n p.1 && Nat.ble p.1 p.2 && ordered (p.2 + 1) r

/-- One sweep over two tables in order finds no interval of the one that meets one of the other. -/
def sweep : Ranges → Ranges → Bool
  | [], _ => true
  | p :: r, s =>
    let rest := s.dropWhile fun q => Nat.blt q.2 p.1
    rest.head?.all (fun q => Nat.blt p.2 q.1) && sweep r rest

variable {m n : Nat} {r s : Ranges} {p q : Nat × Nat}

theorem ordered_cons_iff : ordered n (p :: r) = true ↔
    n ≤ p.1 ∧ p.1 ≤ p.2 ∧ ordered (p.2 + 1) r = true := by
  rw [ordered, Bool.and_eq_true, Bool.and_eq_true, Nat.ble_eq, Nat.ble_eq, and_assoc]

theorem le_of_ordered (h : ordered n s = true) (hq : q ∈ s) : n ≤ q.1 := by
  induction s generalizing n with
  | nil => cases hq
  | cons p s ih =>
    obtain ⟨hn, hp, hs⟩ := ordered_cons_iff.1 h
    rcases List.mem_cons.1 hq with rfl | hq
    · exact hn
    · have hle := ih hs hq
      omega

theorem ordered_of_suffix (h : ordered n s = true) {t : Ranges} (ht : t <:+ s) :
    ∃ n, ordered n t = true := by
  induction s generalizing n with
  | nil =>
    obtain rfl := List.suffix_nil.1 ht
    exact ⟨0, rfl⟩
  | cons p s ih =>
    rcases List.suffix_cons_iff.1 ht with rfl | ht
    · exact ⟨n, h⟩
    · exact ih (ordered_cons_iff.1 h).2.2 ht

/-- Of a table in order, the first interval that does not end before `p` is the one that may meet
it. -/
theorem lt_of_sweep (hs : ordered n s = true) (h : s.head?.all (fun q => Nat.blt p.2 q.1) = true)
    (hq : q ∈ s) : p.2 < q.1 := by
  cases s with
  | nil => cases hq
  | cons q₀ s =>
    have hhead : Nat.blt p.2 q₀.1 = true := h
    rw [Nat.blt_eq] at hhead
    obtain ⟨-, hle, hrest⟩ := ordered_cons_iff.1 hs
    rcases List.mem_cons.1 hq with rfl | hq
    · exact hhead
    · have hbehind := le_of_ordered hrest hq
      omega

theorem lt_or_lt_of_sweep (hr : ordered m r = true) (hs : ordered n s = true)
    (h : sweep r s = true) (hp : p ∈ r) (hq : q ∈ s) : p.2 < q.1 ∨ q.2 < p.1 := by
  induction r generalizing m n s with
  | nil => cases hp
  | cons p₀ r ih =>
    obtain ⟨-, hle, hrest⟩ := ordered_cons_iff.1 hr
    obtain ⟨hhead, hsweep⟩ := Bool.and_eq_true_iff.1 h
    have hfrom : p₀.1 ≤ p.1 := le_of_ordered (ordered_cons_iff.2 ⟨Nat.le_refl _, hle, hrest⟩) hp
    rw [← List.takeWhile_append_dropWhile (p := fun q => Nat.blt q.2 p₀.1) (l := s)] at hq
    rcases List.mem_append.1 hq with hq | hq
    · -- what is dropped ends before `p₀`, and so before all that follow it
      have hlt : Nat.blt q.2 p₀.1 = true := List.all_eq_true.1 List.all_takeWhile q hq
      rw [Nat.blt_eq] at hlt
      omega
    · obtain ⟨k, hordered⟩ := ordered_of_suffix hs
        (List.dropWhile_suffix fun q => Nat.blt q.2 p₀.1)
      rcases List.mem_cons.1 hp with rfl | hp
      · exact .inl (lt_of_sweep hordered hhead hq)
      · exact ih hrest hordered hsweep hp hq

theorem apart_of_sweep (hr : ordered m r = true) (hs : ordered n s = true)
    (h : sweep r s = true) : r.apart s = true := by
  apply List.all_eq_true.2
  intro p hp
  apply List.all_eq_true.2
  intro q hq
  rw [Bool.or_eq_true, Nat.blt_eq, Nat.blt_eq]
  exact lt_or_lt_of_sweep hr hs h hp hq

end Ranges

end ContractInterface.Text
