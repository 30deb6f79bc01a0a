import ContractInterface.Proofs.Grammar.Reads

/-!
# Reading function bodies and modifiers

`body` reads the longest run of tokens that can be a body.  It stops in front of the next
declaration, contract or the end:

    Reads body ts w rest ↔ ts = w ++ rest ∧ IsBody w ∧ EndsDecl (headKind rest)      (reads_body)

Behind a number of open brackets a run goes on as `ClosesFrom` says; this is what the induction over
the tokens is about.
-/

namespace ContractInterface.Grammar

open Reader Contract.Parse

/-- One more bracket is open behind an opening token, one less behind a closing one. -/
def delta (t : Token) : Int := if t.kind.isOpener then 1 else if t.kind.isCloser then -1 else 0

theorem isCloser_eq_false_of_isOpener {k : TokenKind} (h : k.isOpener = true) :
    k.isCloser = false := by
  cases k <;> simp_all [TokenKind.isOpener, TokenKind.isCloser]

@[simp] theorem depth_nil : depth [] = 0 := rfl

@[simp] theorem depth_cons (t : Token) (w : List Token) : depth (t :: w) = delta t + depth w := by
  by_cases ho : t.kind.isOpener = true
  · simp [depth, delta, ho, isCloser_eq_false_of_isOpener ho]
    omega
  · by_cases hc : t.kind.isCloser = true
    · simp [depth, delta, ho, hc]
      omega
    · simp [depth, delta, ho, hc]

/-- The run closes `d` brackets and those it opens itself, and nothing starts in it outside of
brackets. -/
structure ClosesFrom (d : Int) (w : List Token) : Prop where
  nonneg : ∀ u, u <+: w → 0 ≤ d + depth u
  eq_zero : d + depth w = 0
  no_start : ∀ u t, u ++ [t] <+: w → d + depth u = 0 →
    t.kind.startsDecl = false ∧ t.kind ≠ .kwContract
  no_finish : ∀ t ∈ w, t.kind ≠ .finish

theorem isBody_iff {w : List Token} : IsBody w ↔ w ≠ [] ∧ ClosesFrom 0 w := by
  constructor
  · rintro ⟨h₁, h₂, h₃, h₄, h₅⟩
    exact ⟨h₁, by simpa using h₂, by simpa using h₃, by simpa using h₄, h₅⟩
  · rintro ⟨h₁, ⟨h₂, h₃, h₄, h₅⟩⟩
    exact ⟨h₁, by simpa using h₂, by simpa using h₃, by simpa using h₄, h₅⟩

theorem closesFrom_nil {d : Int} : ClosesFrom d [] ↔ d = 0 := by
  constructor
  · intro h
    simpa using h.eq_zero
  · rintro rfl
    exact ⟨by simp, by simp, by simp, by simp⟩

theorem closesFrom_cons {d : Int} {t : Token} {w : List Token} :
    ClosesFrom d (t :: w) ↔ 0 ≤ d ∧ (d = 0 → t.kind.startsDecl = false ∧ t.kind ≠ .kwContract) ∧
      t.kind ≠ .finish ∧ ClosesFrom (d + delta t) w := by
  constructor
  · intro h
    refine ⟨by simpa using h.nonneg [] (by simp), fun hd => ?_, h.no_finish t (by simp),
      ⟨fun u hu => ?_, ?_, fun u s hu hd => ?_, fun s hs => h.no_finish s (by simp [hs])⟩⟩
    · exact h.no_start [] t (by simp) (by simpa using hd)
    · have := h.nonneg (t :: u) (by simpa using hu)
      rwa [depth_cons, ← Int.add_assoc] at this
    · have := h.eq_zero
      rwa [depth_cons, ← Int.add_assoc] at this
    · exact h.no_start (t :: u) s (by simpa using hu) (by rwa [depth_cons, ← Int.add_assoc])
  · rintro ⟨hd, hs, hf, h⟩
    refine ⟨fun u hu => ?_, ?_, fun u s hu h' => ?_, fun s hs => ?_⟩
    · rcases List.prefix_cons_iff.1 hu with rfl | ⟨v, rfl, hv⟩
      · simpa using hd
      · rw [depth_cons, ← Int.add_assoc]
        exact h.nonneg v hv
    · rw [depth_cons, ← Int.add_assoc]
      exact h.eq_zero
    · cases u with
      | nil =>
        obtain ⟨rfl, -⟩ := List.cons_prefix_cons.1 hu
        exact hs (by simpa using h')
      | cons a u =>
        obtain ⟨rfl, hu'⟩ := List.cons_prefix_cons.1 hu
        rw [depth_cons, ← Int.add_assoc] at h'
        exact h.no_start u s hu' h'
    · rcases List.mem_cons.1 hs with rfl | hs
      · exact hf
      · exact h.no_finish s hs

/-! ## Bodies -/

theorem delta_of_opener {t : Token} (h : t.kind.isOpener = true) : delta t = 1 := by
  simp [delta, h]

theorem delta_of_closer {t : Token} (h : t.kind.isCloser = true) : delta t = -1 := by
  have ho : t.kind.isOpener ≠ true := fun ho => by
    rw [isCloser_eq_false_of_isOpener ho] at h
    cases h
  simp [delta, h, ho]

theorem delta_of_other {t : Token} (ho : ¬t.kind.isOpener = true) (hc : ¬t.kind.isCloser = true) :
    delta t = 0 := by
  simp [delta, ho, hc]

theorem map_eq_ok_iff {ε α β : Type} {f : α → β} {r : Except ε α} {b : β} :
    r.map f = .ok b ↔ ∃ a, r = .ok a ∧ f a = b := by
  cases r <;> simp [Except.map]

/-- What is taken closes all brackets and stands in front of something that ends a declaration. -/
theorem bodyLength_sound {d n : Nat} {ts : List Token} (h : bodyLength d ts = .ok n) :
    ∃ w r, ts = w ++ r ∧ w.length = n ∧ ClosesFrom d w ∧ EndsDecl (headKind r) := by
  -- one token more of a body that goes on behind `t`
  have next {e m : Nat} {t : Token} {us : List Token} (hs : ¬t.kind = .finish)
      (hn : ¬((decide (e = 0) && (t.kind.startsDecl || t.kind = .kwContract)) = true))
      (ih : ∃ w r, us = w ++ r ∧ w.length = m ∧ ClosesFrom (e + delta t) w ∧
        EndsDecl (headKind r)) :
      ∃ w r, t :: us = w ++ r ∧ w.length = m + 1 ∧ ClosesFrom e w ∧ EndsDecl (headKind r) := by
    obtain ⟨w, r, rfl, rfl, hw, hr⟩ := ih
    refine ⟨t :: w, r, rfl, rfl, closesFrom_cons.2 ⟨by omega, fun he => ?_, hs, hw⟩, hr⟩
    have he : e = 0 := by omega
    simpa [he] using hn
  induction ts generalizing d n with
  | nil =>
    rw [bodyLength.eq_def] at h
    simp only at h
    split at h
    · next hd =>
      cases h
      exact ⟨[], [], rfl, rfl, closesFrom_nil.2 (by omega), .inr (.inr rfl)⟩
    · cases h
  | cons t us ih =>
    rw [bodyLength.eq_def] at h
    simp only at h
    split at h
    · next ht =>
      split at h
      · next hd =>
        cases h
        exact ⟨[], t :: us, rfl, rfl, closesFrom_nil.2 (by omega), .inr (.inr ht)⟩
      · cases h
    · next ht =>
      split at h
      · next hn =>
        cases h
        simp only [Bool.and_eq_true, decide_eq_true_eq, Bool.or_eq_true] at hn
        refine ⟨[], t :: us, rfl, rfl, closesFrom_nil.2 (by omega), ?_⟩
        exact hn.2.elim .inl fun h => .inr (.inl h)
      · next hn =>
        split at h
        · next ho =>
          obtain ⟨m, hm, rfl⟩ := map_eq_ok_iff.1 h
          refine next ht hn ?_
          rw [delta_of_opener ho]
          exact ih hm
        · split at h
          · next hc =>
            split at h
            · cases h
            · next e =>
              obtain ⟨m, hm, rfl⟩ := map_eq_ok_iff.1 h
              refine next ht hn ?_
              have he : ((e + 1 : Nat) : Int) + -1 = e := by omega
              rw [delta_of_closer hc, he]
              exact ih hm
          · next ho hc =>
            obtain ⟨m, hm, rfl⟩ := map_eq_ok_iff.1 h
            refine next ht hn ?_
            rw [delta_of_other ho hc]
            simpa using ih hm

theorem bodyLength_complete {d : Nat} {w r : List Token} (hw : ClosesFrom d w)
    (hr : EndsDecl (headKind r)) : bodyLength d (w ++ r) = .ok w.length := by
  induction w generalizing d with
  | nil =>
    obtain rfl : d = 0 := by have := closesFrom_nil.1 hw; omega
    cases r with
    | nil => simp [bodyLength]
    | cons t us =>
      rw [List.nil_append, bodyLength.eq_def]
      rcases hr with h | h | h
      · simp_all
      · simp_all
      · simp_all
  | cons t w ih =>
    obtain ⟨-, hs, hf, hw⟩ := closesFrom_cons.1 hw
    have hn : ¬((decide (d = 0) && (t.kind.startsDecl || t.kind = .kwContract)) = true) := by
      simp only [Bool.and_eq_true, decide_eq_true_eq, Bool.or_eq_true, not_and]
      rintro rfl (h | h)
      · rw [(hs rfl).1] at h
        cases h
      · exact (hs rfl).2 h
    rw [List.cons_append, bodyLength.eq_def]
    simp only
    rw [if_neg hf, if_neg hn]
    split
    · next ho =>
      rw [delta_of_opener ho] at hw
      rw [ih (by exact_mod_cast hw)]
      rfl
    · split
      · next hc =>
        rw [delta_of_closer hc] at hw
        have := hw.nonneg [] (by simp)
        cases d with
        | zero => simp at this
        | succ e =>
          have he : ((e + 1 : Nat) : Int) + -1 = e := by omega
          rw [he] at hw
          simp only [ih hw]
          rfl
      · next ho hc =>
        rw [delta_of_other ho hc, Int.add_zero] at hw
        rw [ih hw]
        rfl

/-- A body is read up to the next declaration, contract or end. -/
theorem reads_body {ts w rest : List Token} :
    Reads body ts w rest ↔ ts = w ++ rest ∧ IsBody w ∧ EndsDecl (headKind rest) := by
  unfold Reads body
  constructor
  · intro h
    split at h
    · simp at h
    · exact (Reads.unexpected_iff.1 h).elim
    · next n hn he =>
      obtain ⟨w', r, rfl, rfl, hw, hr⟩ := bodyLength_sound he
      obtain ⟨rfl, rfl⟩ := Yields.ok_iff.1 h
      rw [List.take_left, List.drop_left]
      refine ⟨rfl, isBody_iff.2 ⟨?_, by simpa using hw⟩, hr⟩
      rintro rfl
      exact hn rfl
  · rintro ⟨rfl, hw, hr⟩
    obtain ⟨hne, hw⟩ := isBody_iff.1 hw
    rw [bodyLength_complete (by simpa using hw) hr]
    split
    · next h => cases h
    · next h => simp_all
    · next n hn h =>
      cases h
      simp

/-! ## Modifiers -/

theorem exists_modifiers (ts : List Token) :
    ∃ (ms : List { t : Token // t.kind.isModifier = true }) (r : List Token),
      ts = ms.map Subtype.val ++ r ∧ (headKind r).isModifier = false := by
  induction ts with
  | nil => exact ⟨[], [], rfl, rfl⟩
  | cons t us ih =>
    by_cases ht : t.kind.isModifier = true
    · obtain ⟨ms, r, rfl, hr⟩ := ih
      exact ⟨⟨t, ht⟩ :: ms, r, rfl, hr⟩
    · exact ⟨[], t :: us, rfl, by simpa using ht⟩

theorem takeWhile_modifiers (ms : List { t : Token // t.kind.isModifier = true }) {r : List Token}
    (hr : (headKind r).isModifier = false) :
    (ms.map Subtype.val ++ r).takeWhile (fun t => t.kind.isModifier) = ms.map Subtype.val := by
  induction ms with
  | nil =>
    cases r with
    | nil => rfl
    | cons t us =>
      have ht : t.kind.isModifier = false := hr
      simp [ht]
  | cons m ms ih =>
    rw [List.map_cons, List.cons_append, List.takeWhile_cons, if_pos m.property, ih]

theorem reads_modifiers {ts rest : List Token} {ks : List TokenKind} :
    Reads modifiers ts ks rest ↔ ∃ ms : List { t : Token // t.kind.isModifier = true },
      ts = ms.map Subtype.val ++ rest ∧ (headKind rest).isModifier = false ∧
        ks = ms.map fun m => m.val.kind := by
  unfold Reads modifiers
  simp only [Yields.ok_iff]
  constructor
  · rintro ⟨rfl, rfl⟩
    obtain ⟨ms, r, rfl, hr⟩ := exists_modifiers ts
    simp only [takeWhile_modifiers ms hr]
    refine ⟨ms, ?_, ?_, by simp⟩
    · rw [List.drop_left]
    · rwa [List.drop_left]
  · rintro ⟨ms, rfl, hr, rfl⟩
    simp only [takeWhile_modifiers ms hr]
    exact ⟨by simp, by rw [List.drop_left]⟩

end ContractInterface.Grammar
