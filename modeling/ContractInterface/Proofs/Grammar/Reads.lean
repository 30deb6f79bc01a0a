import ContractInterface.Proofs.Grammar.Unambiguous

/-!
# What readers read

`Reads p ts a rest` says that the reader `p` takes the value `a` from the front of `ts` and hands on
`rest`.  For every reader built from others one lemma says what it reads in terms of what they read.
-/

namespace ContractInterface

open Reader
open Grammar (headKind headKind_nil headKind_cons)

variable {α β : Type} {ts rest : List Token}

/-! ## Results -/

/-- The result is the value `a` in front of `rest`. -/
def Yields (r : Except Failure (Read α ts)) (a : α) (rest : List Token) : Prop :=
  ∃ h, r = .ok ⟨a, rest, h⟩

namespace Yields

@[simp] theorem ok_iff {a b : α} {us : List Token} {h : us.length ≤ ts.length} :
    Yields (.ok ⟨a, us, h⟩) b rest ↔ b = a ∧ rest = us := by
  constructor
  · rintro ⟨_, h'⟩
    cases h'
    exact ⟨rfl, rfl⟩
  · rintro ⟨rfl, rfl⟩
    exact ⟨h, rfl⟩

@[simp] theorem error_iff {e : Failure} {a : α} :
    Yields (.error e : Except Failure (Read α ts)) a rest ↔ False := by
  simp [Yields]

theorem andThen_iff {r : Except Failure (Read α ts)} {f : α → Reader β} {b : β} :
    Yields (andThen r f) b rest ↔ ∃ a us, Yields r a us ∧ Yields (f a us) b rest := by
  unfold andThen
  constructor
  · intro h
    split at h
    · simp at h
    · next a us ha =>
      split at h
      · simp at h
      · next b' vs hb he =>
        obtain ⟨rfl, rfl⟩ := ok_iff.1 h
        exact ⟨a, us, ⟨ha, rfl⟩, ⟨hb, he⟩⟩
  · rintro ⟨a, us, ⟨ha, rfl⟩, ⟨hb, he⟩⟩
    simp [he]

@[simp] theorem behind_iff {t : Token} {us : List Token} {r : Except Failure (Read α us)} {a : α} :
    Yields (behind (t := t) r) a rest ↔ Yields r a rest := by
  unfold behind
  split
  · simp
  · simp

end Yields

/-! ## Readers -/

/-- The value `a` is read from the front of `ts`, in front of `rest`. -/
def Reads (p : Reader α) (ts : List Token) (a : α) (rest : List Token) : Prop :=
  Yields (p ts) a rest

namespace Reads

theorem length_le {p : Reader α} {a : α} (h : Reads p ts a rest) : rest.length ≤ ts.length := h.1

theorem unique {p : Reader α} {a b : α} {us : List Token} (h : Reads p ts a rest)
    (h' : Reads p ts b us) : a = b ∧ rest = us := by
  obtain ⟨hle, e⟩ := h'
  rw [Reads, e] at h
  exact Yields.ok_iff.1 h

@[simp] theorem pure_iff {a b : α} : Reads (Pure.pure a) ts b rest ↔ b = a ∧ rest = ts :=
  Yields.ok_iff

@[simp] theorem bind_iff {p : Reader α} {f : α → Reader β} {b : β} :
    Reads (p >>= f) ts b rest ↔ ∃ a us, Reads p ts a us ∧ Reads (f a) us b rest :=
  Yields.andThen_iff

@[simp] theorem map_iff {p : Reader α} {f : α → β} {b : β} :
    Reads (f <$> p) ts b rest ↔ ∃ a, Reads p ts a rest ∧ b = f a := by
  have h : Reads (f <$> p) ts b rest ↔
      ∃ a us, Reads p ts a us ∧ Reads (Pure.pure (f a)) us b rest :=
    bind_iff (p := p) (f := fun a => Pure.pure (f a))
  simp only [h, pure_iff]
  constructor
  · rintro ⟨a, us, ha, rfl, rfl⟩
    exact ⟨a, ha, rfl⟩
  · rintro ⟨a, ha, rfl⟩
    exact ⟨a, rest, ha, rfl, rfl⟩

@[simp] theorem peek_iff {t : Token} : Reads peek ts t rest ↔ t = head ts ∧ rest = ts :=
  Yields.ok_iff

@[simp] theorem fail_iff {cause : Cause} {a : α} : Reads (fail cause) ts a rest ↔ False :=
  Yields.error_iff

@[simp] theorem unexpected_iff {wanted : Wanted} {a : α} :
    Reads (unexpected wanted) ts a rest ↔ False :=
  Yields.error_iff

@[simp] theorem expect_iff {k : TokenKind} {t : Token} :
    Reads (expect k) ts t rest ↔ ts = t :: rest ∧ t.kind = k := by
  cases ts with
  | nil => simp [Reads, expect, unexpected, fail]
  | cons u us =>
    simp only [Reads, expect]
    split
    · next h =>
      rw [Yields.ok_iff]
      constructor
      · rintro ⟨rfl, rfl⟩
        exact ⟨rfl, h⟩
      · rintro ⟨⟨⟩, -⟩
        exact ⟨rfl, rfl⟩
    · next h =>
      refine ⟨fun h' => (Yields.error_iff.1 h').elim, ?_⟩
      rintro ⟨⟨⟩, h'⟩
      exact absurd h' h

/-- The token is taken, or there is none of the kind. -/
theorem accept_iff {k : TokenKind} {b : Bool} (hk : k ≠ .finish) :
    Reads (accept k) ts b rest ↔
      b = true ∧ (∃ t, ts = t :: rest ∧ t.kind = k) ∨ b = false ∧ rest = ts ∧ headKind ts ≠ k := by
  cases ts with
  | nil => simpa [Reads, accept, headKind_nil] using fun _ _ => hk.symm
  | cons u us =>
    simp only [Reads, accept]
    split
    · next h =>
      rw [Yields.ok_iff]
      constructor
      · rintro ⟨rfl, rfl⟩
        exact .inl ⟨rfl, u, rfl, h⟩
      · rintro (⟨rfl, t, ⟨⟩, -⟩ | ⟨-, -, h'⟩)
        · exact ⟨rfl, rfl⟩
        · exact absurd h h'
    · next h =>
      rw [Yields.ok_iff]
      constructor
      · rintro ⟨rfl, rfl⟩
        exact .inr ⟨rfl, rfl, h⟩
      · rintro (⟨-, t, ⟨⟩, h'⟩ | ⟨rfl, rfl, -⟩)
        · exact absurd h' h
        · exact ⟨rfl, rfl⟩

/-- An item, and more of them if a token of kind `k` follows it. -/
theorem sepBy_iff {k : TokenKind} {item : Reader α} {as : List α} :
    Reads (sepBy k item) ts as rest ↔ ∃ a us, Reads item ts a us ∧
      ((as = [a] ∧ rest = us ∧ (us = [] ∨ headKind us ≠ k)) ∨
        ∃ t vs bs, us = t :: vs ∧ t.kind = k ∧ Reads (sepBy k item) vs bs rest ∧ as = a :: bs) := by
  unfold Reads
  rw [sepBy]
  constructor
  · intro h
    split at h
    · simp at h
    · next a ha he =>
      obtain ⟨rfl, rfl⟩ := Yields.ok_iff.1 h
      exact ⟨a, [], ⟨ha, he⟩, .inl ⟨rfl, rfl, .inl rfl⟩⟩
    · next a t us ha he =>
      split at h
      · next hk =>
        split at h
        · simp at h
        · next bs vs hb hbs =>
          obtain ⟨rfl, rfl⟩ := Yields.ok_iff.1 h
          exact ⟨a, t :: us, ⟨ha, he⟩, .inr ⟨t, us, bs, rfl, hk, ⟨hb, hbs⟩, rfl⟩⟩
      · next hk =>
        obtain ⟨rfl, rfl⟩ := Yields.ok_iff.1 h
        exact ⟨a, t :: us, ⟨ha, he⟩, .inl ⟨rfl, rfl, .inr hk⟩⟩
  · rintro ⟨a, us, ⟨ha, he⟩, ⟨rfl, rfl, hus⟩ | ⟨t, vs, bs, rfl, hk, ⟨hb, hbs⟩, rfl⟩⟩
    · rw [he]
      cases rest with
      | nil => simp
      | cons t us =>
        have hk : t.kind ≠ k := by simpa using hus
        simp [hk]
    · rw [he]
      simp [hk, hbs]

end Reads

end ContractInterface
