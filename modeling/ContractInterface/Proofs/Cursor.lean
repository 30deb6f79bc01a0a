import Mathlib
import ContractInterface.Failure

/-!
# Programs that move a cursor

A `Run` works on an input through a cursor that it moves itself.  Nothing keeps it from reading
where there is nothing, which halts it as `Halt.outOfRange`, or from going on forever, which is
`none`: a loop, or a recursion, is the limit of what it does within ever more rounds, or ever deeper
calls.  Whatever begins another round, or calls itself, says so with `again`; a cursor that has not
moved since then is noted as `stalled`.

    exec (loop round a) c = exec (loop round a') c'    if the round at `a` goes on with `a'` and
                                                       moves the cursor from `c` to `c'` (loop_more)
    exec (loop round a) c = none                       if every round goes on (loop_endless)
-/

namespace ContractInterface

/-- How a run stops early. -/
inductive Halt where
  | failure (f : Failure)
  /-- it has read where there is nothing -/
  | outOfRange

/-- The place of a run in its input, and what it keeps besides. -/
structure Cursor (ι κ : Type) where
  input : List ι
  offset : Nat
  kept : κ
  /-- a round or a call of something has begun where the one around it had begun -/
  stalled : Bool

abbrev Run (ι κ α : Type) := ExceptT Halt (StateT (Cursor ι κ) Option) α

namespace Cursor

variable {ι κ : Type}

/-- The cursor in front of the whole input. -/
def front (input : List ι) (kept : κ) : Cursor ι κ := ⟨input, 0, kept, false⟩

/-- What the cursor has in front of it. -/
def rest (c : Cursor ι κ) : List ι := c.input.drop c.offset

theorem length_rest (c : Cursor ι κ) : c.rest.length = c.input.length - c.offset :=
  List.length_drop

theorem getElem?_rest (c : Cursor ι κ) (n : Nat) : c.rest[n]? = c.input[c.offset + n]? :=
  List.getElem?_drop

end Cursor

namespace Run

variable {ι κ α β : Type} {c c' : Cursor ι κ}

/-- What comes of a run, and where it leaves the cursor; there is nothing if it goes on forever. -/
def exec (m : Run ι κ α) (c : Cursor ι κ) : Option (Except Halt α × Cursor ι κ) := m.run.run c

def halt (pos : Position) (cause : Cause) : Run ι κ α := throw (.failure ⟨pos, cause⟩)

def offset : Run ι κ Nat := do return (← get).offset

/-- What stands at a place of the input. -/
def item (o : Nat) : Run ι κ ι := do
  match (← get).input[o]? with
  | some a => return a
  | none => throw .outOfRange

/-- Begin another round, or call oneself, within what began at `start`. -/
def again (start : Nat) : Run ι κ Unit :=
  modify fun c => { c with stalled := c.stalled || c.offset ≤ start }

/-- A run that does not stop. -/
def endless : Run ι κ α := ExceptT.mk fun _ => none

open Classical in
/-- What ever longer runs come to: the outcome on which they settle, if they do. -/
noncomputable def limit (f : Nat → Run ι κ α) : Run ι κ α := ExceptT.mk fun c =>
  if h : ∃ r n, ∀ k, n ≤ k → (f k).run.run c = r then h.choose else none

/-- At most `n` rounds, as long as one names the state to go on with. -/
def loopUpTo (round : α → Run ι κ (α ⊕ β)) : Nat → α → Run ι κ β
  | 0, _ => endless
  | n + 1, a => do
    let start ← offset
    match ← round a with
    | .inr b => return b
    | .inl a =>
      again start
      loopUpTo round n a

/-- Round after round, however many it takes. -/
noncomputable def loop (round : α → Run ι κ (α ⊕ β)) (a : α) : Run ι κ β :=
  limit fun n => loopUpTo round n a

/-! ## What comes of each step -/

@[simp] theorem exec_pure (a : α) : exec (pure a : Run ι κ α) c = some (.ok a, c) := rfl

@[simp] theorem exec_offset : exec offset c = some (.ok c.offset, c) := rfl

@[simp] theorem exec_get : exec (get : Run ι κ _) c = some (.ok c, c) := rfl

theorem exec_modify (f : Cursor ι κ → Cursor ι κ) :
    exec (modify f : Run ι κ _) c = some (.ok (), f c) := rfl

theorem exec_bind (m : Run ι κ α) (f : α → Run ι κ β) :
    exec (m >>= f) c =
      match exec m c with
      | none => none
      | some (.error h, c') => some (.error h, c')
      | some (.ok a, c') => exec (f a) c' := by
  show (m.run.run c >>= _) = _
  unfold exec
  cases m.run.run c with
  | none => rfl
  | some x =>
    obtain ⟨r, c'⟩ := x
    cases r <;> rfl

theorem exec_bind_ok {m : Run ι κ α} {a : α} (h : exec m c = some (.ok a, c'))
    (f : α → Run ι κ β) : exec (m >>= f) c = exec (f a) c' := by
  rw [exec_bind, h]

theorem exec_bind_error {m : Run ι κ α} {e : Halt} (h : exec m c = some (.error e, c'))
    (f : α → Run ι κ β) : exec (m >>= f) c = some (.error e, c') := by
  rw [exec_bind, h]

theorem exec_item {o : Nat} {a : ι} (h : c.input[o]? = some a) :
    exec (item o) c = some (.ok a, c) := by
  rw [item, exec_bind_ok exec_get, h]
  rfl

/-- Nothing is noted where the cursor has moved. -/
theorem exec_again {start : Nat} (h : start < c.offset) :
    exec (again start) c = some (.ok (), c) := by
  have hmoved : decide (c.offset ≤ start) = false := by
    rw [decide_eq_false_iff_not]
    omega
  rw [again, exec_modify, hmoved, Bool.or_false]

/-! ## Limits -/

variable {f g : Nat → Run ι κ α} {r : Except Halt α × Cursor ι κ}

theorem exec_limit {res : Option (Except Halt α × Cursor ι κ)} {n : Nat}
    (h : ∀ k, n ≤ k → exec (f k) c = res) : exec (limit f) c = res := by
  have hsettles : ∃ r n, ∀ k, n ≤ k → (f k).run.run c = r := ⟨res, n, h⟩
  have hlimit : exec (limit f) c = hsettles.choose := dif_pos hsettles
  obtain ⟨m, hm⟩ := hsettles.choose_spec
  rw [hlimit, ← hm (max n m) (le_max_right n m)]
  exact h _ (le_max_left n m)

theorem exec_limit_eq_some (h : exec (limit f) c = some r) :
    ∃ n, ∀ k, n ≤ k → exec (f k) c = some r := by
  by_cases hsettles : ∃ r n, ∀ k, n ≤ k → (f k).run.run c = r
  · have hlimit : exec (limit f) c = hsettles.choose := dif_pos hsettles
    rw [← h, hlimit]
    exact hsettles.choose_spec
  · have hlimit : exec (limit f) c = none := dif_neg hsettles
    rw [hlimit] at h
    cases h

/-- One step more or less does not matter in the end. -/
theorem exec_limit_shift (h : ∀ k, exec (f (k + 1)) c = exec (g k) c') :
    exec (limit f) c = exec (limit g) c' := by
  have hiff (r) : (∃ n, ∀ k, n ≤ k → exec (f k) c = r) ↔
      ∃ n, ∀ k, n ≤ k → exec (g k) c' = r := by
    constructor
    · rintro ⟨n, hn⟩
      exact ⟨n, fun k hk => (h k).symm.trans (hn _ (Nat.le_succ_of_le hk))⟩
    · rintro ⟨n, hn⟩
      refine ⟨n + 1, fun k hk => ?_⟩
      obtain ⟨k, rfl⟩ := Nat.exists_eq_add_of_le' (Nat.le_trans (Nat.le_add_left 1 n) hk)
      exact (h k).trans (hn k (Nat.le_of_succ_le_succ hk))
  by_cases hsettles : ∃ r n, ∀ k, n ≤ k → exec (g k) c' = r
  · obtain ⟨r, n, hn⟩ := hsettles
    obtain ⟨m, hm⟩ := (hiff r).2 ⟨n, hn⟩
    rw [exec_limit hm, exec_limit hn]
  · have hnot : ¬∃ r n, ∀ k, n ≤ k → exec (f k) c = r :=
      fun ⟨r, hr⟩ => hsettles ⟨r, (hiff r).1 hr⟩
    have hf : exec (limit f) c = none := dif_neg hnot
    have hg : exec (limit g) c' = none := dif_neg hsettles
    rw [hf, hg]

/-! ## Runs that go further -/

/-- Where the one run stops, the other one does so too, in the same way. -/
def Within (m m' : Run ι κ α) : Prop := ∀ c r, exec m c = some r → exec m' c = some r

namespace Within

variable {m m' : Run ι κ α}

theorem refl (m : Run ι κ α) : Within m m := fun _ _ h => h

theorem endless (m : Run ι κ α) : Within Run.endless m := fun _ _ h => by cases h

theorem bind {k k' : α → Run ι κ β} (h : Within m m') (hk : ∀ a, Within (k a) (k' a)) :
    Within (m >>= k) (m' >>= k') := by
  intro c r hr
  rw [exec_bind] at hr
  cases hm : exec m c with
  | none =>
    rw [hm] at hr
    cases hr
  | some x =>
    obtain ⟨res, c'⟩ := x
    rw [hm] at hr
    cases res with
    | error e => exact (exec_bind_error (h _ _ hm) k').trans hr
    | ok a => exact (exec_bind_ok (h _ _ hm) k').trans (hk a c' r hr)

theorem loop {round round' : α → Run ι κ (α ⊕ β)} (h : ∀ a, Within (round a) (round' a)) (a : α) :
    Within (loop round a) (loop round' a) := by
  have hbounded (n : Nat) (a : α) : Within (loopUpTo round n a) (loopUpTo round' n a) := by
    induction n generalizing a with
    | zero => exact endless _
    | succ n ih =>
      refine (refl _).bind fun start => (h a).bind fun x => ?_
      cases x with
      | inr b => exact refl _
      | inl a => exact (refl _).bind fun _ => ih a
  intro c r hr
  obtain ⟨n, hn⟩ := exec_limit_eq_some hr
  exact exec_limit fun k hk => hbounded k a c r (hn k hk)

/-- What one of ever longer runs comes to is what all of them come to. -/
theorem exec_limit (h : ∀ n, Within (f n) (f (n + 1))) {n : Nat} (hn : exec (f n) c = some r) :
    exec (limit f) c = some r := by
  refine Run.exec_limit (n := n) fun k hk => ?_
  induction hk with
  | refl => exact hn
  | step _ ih => exact h _ _ _ ih

end Within

/-! ## Loops -/

variable {round : α → Run ι κ (α ⊕ β)} {a a' : α}

theorem loopUpTo_more (h : exec (round a) c = some (.ok (.inl a'), c')) (n : Nat) :
    exec (loopUpTo round (n + 1) a) c =
      exec (again c.offset >>= fun _ => loopUpTo round n a') c' :=
  (exec_bind_ok exec_offset _).trans (exec_bind_ok h _)

theorem loop_done {b : β} (h : exec (round a) c = some (.ok (.inr b), c')) :
    exec (loop round a) c = some (.ok b, c') := by
  refine exec_limit (n := 1) fun k hk => ?_
  obtain ⟨k, rfl⟩ := Nat.exists_eq_add_of_le' hk
  exact (exec_bind_ok exec_offset _).trans (exec_bind_ok h _)

theorem loop_error {e : Halt} (h : exec (round a) c = some (.error e, c')) :
    exec (loop round a) c = some (.error e, c') := by
  refine exec_limit (n := 1) fun k hk => ?_
  obtain ⟨k, rfl⟩ := Nat.exists_eq_add_of_le' hk
  exact (exec_bind_ok exec_offset _).trans (exec_bind_error h _)

theorem loop_more (h : exec (round a) c = some (.ok (.inl a'), c')) (hc : c.offset < c'.offset) :
    exec (loop round a) c = exec (loop round a') c' :=
  exec_limit_shift fun k => (loopUpTo_more h k).trans (exec_bind_ok (exec_again hc) _)

/-- A loop whose rounds all go on never stops. -/
theorem loop_endless (h : ∀ a c, ∃ a' c', exec (round a) c = some (.ok (.inl a'), c')) (a : α)
    (c : Cursor ι κ) : exec (loop round a) c = none := by
  have hrounds (n : Nat) : exec (loopUpTo round n a) c = none := by
    induction n generalizing a c with
    | zero => rfl
    | succ n ih =>
      obtain ⟨a', c', hround⟩ := h a c
      rw [loopUpTo_more hround]
      exact (exec_bind_ok (exec_modify _) _).trans (ih a' _)
  exact exec_limit (n := 0) fun n _ => hrounds n

end Run

end ContractInterface
