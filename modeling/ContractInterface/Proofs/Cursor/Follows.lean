import ContractInterface.Proofs.Cursor
import ContractInterface.Proofs.Grammar.Lookahead

/-!
# Following a reader with a cursor

A `Parser` looks at the token at its cursor and takes it with `advance`, which stays on the last
token of the list; it keeps the names of the contracts that are complete.  It follows a reader from
`c` (`FollowsAt m p c`) if it stops as the reader does: with the same value, the cursor in front of
what the reader leaves, or with the same failure, and in either case on a token of the list.

    Follows known n m p      `m` follows `p` wherever at most `n` tokens are left, the last of them
                             the end mark, and the contracts named `known` are complete

A loop follows the reader that its rounds unfold to, if what goes on has taken a token (`loop`).
-/

namespace ContractInterface

open Run Reader
open Grammar (headKind)

/-! ## Readers as a monad -/

namespace Reader

variable {α β γ : Type} {ts : List Token}

theorem andThen_pure (r : Except Failure (Read α ts)) : andThen r pure = r := by
  cases r <;> rfl

theorem andThen_assoc (r : Except Failure (Read α ts)) (f : α → Reader β) (g : β → Reader γ) :
    andThen (andThen r f) g = andThen r fun a => bind (f a) g := by
  cases r with
  | error e => rfl
  | ok x =>
    obtain ⟨a, us, hle⟩ := x
    simp only [bind, andThen]
    cases f a us with
    | error e => rfl
    | ok y =>
      obtain ⟨b, vs, hle'⟩ := y
      simp only
      cases g b vs <;> rfl

instance : LawfulMonad Reader := LawfulMonad.mk' Reader
  (fun p => funext fun ts => andThen_pure (p ts))
  (fun a f => funext fun _ => Grammar.andThen_nothing a f)
  (fun p f g => funext fun ts => andThen_assoc (p ts) f g)

theorem bind_congr_at {p p' : Reader α} (h : p ts = p' ts) (f : α → Reader β) :
    (p >>= f) ts = (p' >>= f) ts :=
  congrArg (andThen · f) h

/-- Take the next token, whatever it is. -/
def take : Reader Token
  | [] => pure (head []) []
  | t :: us => behind (pure t us)

/-- More items, each behind a token of the given kind. -/
def moreBy (k : TokenKind) (item : Reader α) : Reader (List α) := do
  if ← accept k then sepBy k item else return []

theorem sepBy_eq_bind (k : TokenKind) (item : Reader α) :
    sepBy k item = item >>= fun a => (a :: ·) <$> moreBy k item := by
  rw [Grammar.Prompt.sepBy_eq]
  refine congrArg (item >>= ·) (funext fun a => ?_)
  rw [moreBy, map_bind]
  refine congrArg (accept k >>= ·) (funext fun b => ?_)
  cases b
  · exact (map_pure ..).symm
  · rfl

theorem take_bind (t : Token) (us : List Token) (q : Token → Reader β) :
    (take >>= q) (t :: us) = behind (q t us) := by
  show andThen (.ok ⟨t, us, Nat.le_succ _⟩) q = _
  simp only [andThen, behind]

theorem length_lt_of_reads_take {q : Token → Reader β} {b : β} {rest : List Token}
    (h : Reads (take >>= q) ts b rest) (ht : headKind ts ≠ .finish) : rest.length < ts.length := by
  cases ts with
  | nil => exact absurd rfl ht
  | cons t us =>
    rw [Reads, take_bind, Yields.behind_iff] at h
    exact Nat.lt_succ_of_le h.1

section

variable {k : TokenKind} {t : Token} {us : List Token}

theorem expect_bind (ht : t.kind = k) (q : Token → Reader β) :
    (expect k >>= q) (t :: us) = behind (q t us) := by
  show andThen (expect k (t :: us)) q = _
  rw [expect, if_pos ht]
  exact take_bind t us q

theorem accept_bind (ht : t.kind = k) (q : Bool → Reader β) :
    (accept k >>= q) (t :: us) = behind (q true us) := by
  show andThen (accept k (t :: us)) q = _
  rw [accept, if_pos ht]
  exact take_bind t us fun _ => q true

theorem accept_bind_of_ne (ht : headKind ts ≠ k) (q : Bool → Reader β) :
    (accept k >>= q) ts = q false ts := by
  have haccept : accept k ts = .ok ⟨false, ts, Nat.le_refl _⟩ := by
    cases ts with
    | nil => rfl
    | cons t us => exact if_neg ht
  show andThen (accept k ts) q = _
  rw [haccept, Grammar.andThen_nothing]

end

end Reader

/-! ## Places in a list of tokens -/

namespace Cursor

variable {c : Cursor Token (List String)} {o : Nat}

/-- The cursor at another place. -/
def moved (c : Cursor Token (List String)) (o : Nat) : Cursor Token (List String) :=
  { c with offset := o }

/-- The cursor is on a token, and the last token marks the end. -/
structure Ended (c : Cursor Token (List String)) : Prop where
  inside : c.offset < c.input.length
  last : ∀ e ∈ c.input.getLast?, e.kind = .finish

namespace Ended

theorem moved (h : c.Ended) (ho : o < c.input.length) : (c.moved o).Ended := ⟨ho, h.last⟩

theorem exists_rest (h : c.Ended) : ∃ t us, c.rest = t :: us :=
  List.exists_cons_of_length_pos (by rw [length_rest]; have := h.inside; omega)

/-- What is not the end mark has a token behind it. -/
theorem next (h : c.Ended) {t : Token} {us : List Token} (hrest : c.rest = t :: us)
    (ht : t.kind ≠ .finish) : c.offset + 1 < c.input.length := by
  by_contra hlast
  have hoffset : c.offset = c.input.length - 1 := by
    have := h.inside
    omega
  have ht' : c.input.getLast? = some t := by
    rw [List.getLast?_eq_getElem?, ← hoffset, ← Nat.add_zero c.offset, ← c.getElem?_rest, hrest]
    rfl
  exact ht (h.last t ht')

/-- Behind the next token fewer are left. -/
theorem length_lt (h : c.Ended) : (c.moved (c.offset + 1)).rest.length < c.rest.length := by
  have hinside := h.inside
  rw [length_rest, length_rest]
  show c.input.length - (c.offset + 1) < _
  omega

end Ended

theorem rest_moved_succ {t : Token} {us : List Token} (h : c.rest = t :: us) :
    (c.moved (c.offset + 1)).rest = us := by
  show c.input.drop (c.offset + 1) = us
  rw [← List.drop_drop, ← rest, h]
  rfl

/-- Fewer tokens are left further on. -/
theorem offset_lt (h : (c.moved o).rest.length < c.rest.length) : c.offset < o := by
  rw [length_rest, length_rest] at h
  show c.offset < o
  have : (c.moved o).input.length - (c.moved o).offset = c.input.length - o := rfl
  omega

end Cursor

/-! ## Single tokens -/

abbrev Parser (α : Type) := Run Token (List String) α

namespace Parser

variable {α β γ : Type} {c : Cursor Token (List String)} {t : Token} {us : List Token}

def current : Parser Token := do item (← offset)

/-- The token at the cursor, which goes on to the next one if there is one. -/
def advance : Parser Token := do
  let c ← get
  let t ← item c.offset
  if c.offset + 1 < c.input.length then set (c.moved (c.offset + 1))
  return t

/-- Stop because the token at the cursor is not the one that is wanted. -/
def unexpected (wanted : Wanted) : Parser α := do
  let t ← current
  halt t.pos (.unexpected t wanted)

/-- Take a token of the given kind. -/
def expect (kind : TokenKind) : Parser Token := do
  let t ← current
  if t.kind = kind then advance else halt t.pos (.unexpected t (.token kind))

/-- Take a token of the given kind if there is one. -/
def accept (kind : TokenKind) : Parser Bool := do
  let t ← current
  if t.kind = kind then
    let _ ← advance
    return true
  else return false

theorem exec_item_rest (h : c.rest = t :: us) : exec (item c.offset) c = some (.ok t, c) := by
  refine exec_item ?_
  rw [← Nat.add_zero c.offset, ← c.getElem?_rest, h]
  rfl

theorem exec_current (h : c.rest = t :: us) : exec current c = some (.ok t, c) := by
  rw [current, exec_bind_ok exec_offset, exec_item_rest h]

theorem exec_advance (h : c.rest = t :: us) (hnext : c.offset + 1 < c.input.length) :
    exec advance c = some (.ok t, c.moved (c.offset + 1)) := by
  rw [advance, exec_bind_ok exec_get, exec_bind_ok (exec_item_rest h), if_pos hnext]
  rfl

/-! ## Following at one place -/

/-- From `c` the parser stops as the reader does, on a token of the list. -/
inductive FollowsAt (m : Parser α) (p : Reader α) (c : Cursor Token (List String)) : Prop
  | value {a : α} {o : Nat} (ho : o < c.input.length) (hread : Reads p c.rest a (c.moved o).rest)
      (hexec : exec m c = some (.ok a, c.moved o))
  | failure {f : Failure} {o : Nat} (ho : o < c.input.length) (hfail : p c.rest = .error f)
      (hexec : exec m c = some (.error (.failure f), c.moved o))

namespace FollowsAt

variable {m m' : Parser α} {p p' : Reader α} {f : α → Parser β} {q : α → Reader β}

/-- Only what is done from `c` matters. -/
theorem congr (h : FollowsAt m' p' c) (hm : exec m c = exec m' c) (hp : p c.rest = p' c.rest) :
    FollowsAt m p c := by
  cases h with
  | value ho hread hexec =>
    refine .value ho ?_ (hm.trans hexec)
    rwa [Reads, hp]
  | failure ho hfail hexec => exact .failure ho (hp.trans hfail) (hm.trans hexec)

theorem pure (hc : c.Ended) (a : α) : FollowsAt (Pure.pure a) (Pure.pure a) c :=
  .value hc.inside (Reads.pure_iff.2 ⟨rfl, rfl⟩) rfl

theorem fail (hc : c.Ended) (h : c.rest = t :: us) (cause : Cause) :
    FollowsAt (halt t.pos cause : Parser α) (Reader.fail cause) c :=
  .failure hc.inside (by rw [h]; rfl) rfl

theorem unexpected (hc : c.Ended) (wanted : Wanted) :
    FollowsAt (Parser.unexpected wanted : Parser α) (Reader.unexpected wanted) c := by
  obtain ⟨t, us, h⟩ := hc.exists_rest
  refine (fail hc h (.unexpected t wanted)).congr ?_ ?_
  · rw [Parser.unexpected, exec_bind_ok (exec_current h)]
  · rw [h]
    rfl

theorem offset {f : Nat → Parser α} (h : FollowsAt (f c.offset) p c) :
    FollowsAt (Run.offset >>= f) p c :=
  h.congr (exec_bind_ok exec_offset f) rfl

theorem again {start : Nat} {f : Unit → Parser α} (hstart : start < c.offset)
    (h : FollowsAt (f ()) p c) : FollowsAt (Run.again start >>= f) p c :=
  h.congr (exec_bind_ok (exec_again hstart) f) rfl

/-- What one of ever longer runs follows, all of them come to. -/
theorem limit {f : Nat → Parser α} (hf : ∀ k, Within (f k) (f (k + 1))) {k : Nat}
    (h : FollowsAt (f k) p c) : FollowsAt (Run.limit f) p c := by
  cases h with
  | value ho hread hexec => exact .value ho hread (Within.exec_limit hf hexec)
  | failure ho hfail hexec => exact .failure ho hfail (Within.exec_limit hf hexec)

/-- A parser that goes on like another one, behind what a reader has read. -/
theorem after {a : α} {o : Nat} {m m' : Parser β} (hread : Reads p c.rest a (c.moved o).rest)
    (hexec : exec m c = exec m' (c.moved o)) (h : FollowsAt m' (q a) (c.moved o)) :
    FollowsAt m (p >>= q) c := by
  cases h with
  | value ho hread' hexec' =>
    exact .value ho (Reads.bind_iff.2 ⟨_, _, hread, hread'⟩) (hexec.trans hexec')
  | failure ho hfail hexec' =>
    exact .failure ho (Grammar.bind_eq_error_iff.2 (.inr ⟨_, _, hread, hfail⟩))
      (hexec.trans hexec')

theorem bind (hc : c.Ended) (h : FollowsAt m p c)
    (h' : ∀ a o, Reads p c.rest a (c.moved o).rest → (c.moved o).Ended →
      FollowsAt (f a) (q a) (c.moved o)) : FollowsAt (m >>= f) (p >>= q) c := by
  cases h with
  | value ho hread hexec =>
    exact after hread (exec_bind_ok hexec f) (h' _ _ hread (hc.moved ho))
  | failure ho hfail hexec =>
    exact .failure ho (Grammar.bind_eq_error_iff.2 (.inl hfail)) (exec_bind_error hexec f)

/-- A parser that goes on behind the first token. -/
theorem behind (h : c.rest = t :: us) (hm : exec m c = exec m' (c.moved (c.offset + 1)))
    (hp : p (t :: us) = Reader.behind (p' us)) (h' : FollowsAt m' p' (c.moved (c.offset + 1))) :
    FollowsAt m p c := by
  have hrest := Cursor.rest_moved_succ h
  cases h' with
  | value ho hread hexec =>
    refine .value ho ?_ (hm.trans hexec)
    rw [hrest] at hread
    rwa [h, Reads, hp, Yields.behind_iff]
  | failure ho hfail hexec =>
    refine .failure ho ?_ (hm.trans hexec)
    rw [hrest] at hfail
    rw [h, hp, hfail]
    rfl

/-- What is looked at is still there. -/
theorem peek {f : Token → Parser β} {q : Token → Reader β} (hc : c.Ended)
    (h : ∀ us, c.rest = head c.rest :: us → FollowsAt (f (head c.rest)) (q (head c.rest)) c) :
    FollowsAt (current >>= f) (Reader.peek >>= q) c := by
  obtain ⟨t, us, hrest⟩ := hc.exists_rest
  have hhead : head c.rest = t := by rw [hrest]; rfl
  refine (h us (by rw [hhead]; exact hrest)).congr ?_ (Grammar.peek_bind q)
  rw [exec_bind_ok (exec_current hrest), hhead]

/-- A token that is not the end mark is taken. -/
theorem take {f : Token → Parser β} {q : Token → Reader β} (hc : c.Ended) (h : c.rest = t :: us)
    (ht : t.kind ≠ .finish) (h' : (c.moved (c.offset + 1)).Ended →
      FollowsAt (f t) (q t) (c.moved (c.offset + 1))) :
    FollowsAt (advance >>= f) (Reader.take >>= q) c :=
  have hnext := hc.next h ht
  behind h (exec_bind_ok (exec_advance h hnext) f) (take_bind t us q) (h' (hc.moved hnext))

theorem expect (hc : c.Ended) {k : TokenKind} (hk : k ≠ .finish) :
    FollowsAt (Parser.expect k) (Reader.expect k) c := by
  obtain ⟨t, us, h⟩ := hc.exists_rest
  by_cases ht : t.kind = k
  · have hnext := hc.next h (ht ▸ hk)
    refine .value hnext (by rw [h, Reads.expect_iff, Cursor.rest_moved_succ h]; exact ⟨rfl, ht⟩) ?_
    rw [Parser.expect, exec_bind_ok (exec_current h), if_pos ht, exec_advance h hnext]
  · refine (fail hc h (.unexpected t (.token k))).congr ?_ ?_
    · rw [Parser.expect, exec_bind_ok (exec_current h), if_neg ht]
    · rw [h, Reader.expect, if_neg ht]
      rfl

/-- A token that has been looked at is taken. -/
theorem advance (hc : c.Ended) {k : TokenKind} (hk : k ≠ .finish) (h : c.rest = t :: us)
    (ht : t.kind = k) : FollowsAt Parser.advance (Reader.expect k) c :=
  (expect hc hk).congr (by rw [Parser.expect, exec_bind_ok (exec_current h), if_pos ht]) rfl

/-- A token of kind `k` decides how to go on. -/
theorem accept {f : Bool → Parser β} {q : Bool → Reader β} (hc : c.Ended) {k : TokenKind}
    (hk : k ≠ .finish)
    (h₁ : (c.moved (c.offset + 1)).Ended → FollowsAt (f true) (q true) (c.moved (c.offset + 1)))
    (h₂ : headKind c.rest ≠ k → FollowsAt (f false) (q false) c) :
    FollowsAt (Parser.accept k >>= f) (Reader.accept k >>= q) c := by
  obtain ⟨t, us, h⟩ := hc.exists_rest
  by_cases ht : t.kind = k
  · have hnext := hc.next h (ht ▸ hk)
    refine behind h ?_ ?_ (h₁ (hc.moved hnext))
    · rw [exec_bind, Parser.accept, exec_bind_ok (exec_current h), if_pos ht,
        exec_bind_ok (exec_advance h hnext)]
      rfl
    · exact accept_bind ht q
  · have hother : headKind c.rest ≠ k := by rwa [h]
    refine (h₂ hother).congr ?_ (accept_bind_of_ne hother q)
    rw [exec_bind, Parser.accept, exec_bind_ok (exec_current h), if_neg ht]
    rfl

end FollowsAt

/-! ## Following everywhere -/

/-- The parser follows the reader wherever at most `n` tokens are left and the contracts named
`known` are complete. -/
def Follows (known : List String) (n : Nat) (m : Parser α) (p : Reader α) : Prop :=
  ∀ c : Cursor Token (List String), c.Ended → c.kept = known → c.rest.length ≤ n → FollowsAt m p c

namespace Follows

variable {known : List String} {n : Nat} {m m' : Parser α} {p p' : Reader α} {f : α → Parser β}
  {q : α → Reader β}

theorem le {k : Nat} (h : Follows known n m p) (hk : k ≤ n) : Follows known k m p :=
  fun c hc hkept hlength => h c hc hkept (Nat.le_trans hlength hk)

theorem pure (a : α) : Follows known n (Pure.pure a) (Pure.pure a) :=
  fun _ hc _ _ => .pure hc a

theorem unexpected (wanted : Wanted) :
    Follows known n (Parser.unexpected wanted : Parser α) (Reader.unexpected wanted) :=
  fun _ hc _ _ => .unexpected hc wanted

theorem expect {k : TokenKind} (hk : k ≠ .finish) :
    Follows known n (Parser.expect k) (Reader.expect k) :=
  fun _ hc _ _ => .expect hc hk

theorem bind (h : Follows known n m p) (h' : ∀ a, Follows known n (f a) (q a)) :
    Follows known n (m >>= f) (p >>= q) :=
  fun c hc hkept hlength => (h c hc hkept hlength).bind hc fun a _ hread hend =>
    h' a _ hend hkept (Nat.le_trans hread.length_le hlength)

theorem map (h : Follows known n m p) (g : α → β) : Follows known n (g <$> m) (g <$> p) :=
  h.bind fun a => pure (g a)

theorem ite {P : Prop} [Decidable P] (h : P → Follows known n m p)
    (h' : ¬P → Follows known n m' p') :
    Follows known n (if P then m else m') (if P then p else p') := by
  split
  · exact h ‹P›
  · exact h' ‹¬P›

theorem peek {f : Token → Parser β} {q : Token → Reader β}
    (h : ∀ t, Follows known n (f t) (q t)) : Follows known n (current >>= f) (Reader.peek >>= q) :=
  fun c hc hkept hlength => .peek hc fun _ _ => h _ c hc hkept hlength

theorem accept {k : TokenKind} (hk : k ≠ .finish) (h : ∀ i, i < n → Follows known i m p)
    (h' : Follows known n m' p') :
    Follows known n (Parser.accept k >>= fun b => if b then m else m')
      (Reader.accept k >>= fun b => if b then p else p') := by
  intro c hc hkept hlength
  refine .accept hc hk (fun hend => ?_) fun _ => h' c hc hkept hlength
  exact h _ (Nat.lt_of_lt_of_le hc.length_lt hlength) _ hend hkept (Nat.le_refl _)

/-- A loop follows what its rounds unfold to, and what comes behind it follows as well. -/
theorem loop_bind {round : α → Parser (α ⊕ β)} {R : α → Reader (α ⊕ β)} {k : β → Parser γ}
    {K : β → Reader γ} {P : α → Reader γ} (hround : ∀ a, Follows known n (round a) (R a))
    (hmore : ∀ a a' ts rest, Reads (R a) ts (.inl a') rest → rest.length < ts.length)
    (hk : ∀ b, Follows known n (k b) (K b)) (hP : ∀ a, P a = R a >>= Sum.elim P K) (a : α) :
    Follows known n (Run.loop round a >>= k) (P a) := by
  induction n using Nat.strongRecOn generalizing a with
  | ind n ih =>
  intro c hc hkept hlength
  rw [hP]
  cases hround a c hc hkept hlength with
  | @value x o ho hread hexec =>
    have hend := hc.moved ho
    cases x with
    | inl a' =>
      have hshort := hmore a a' _ _ hread
      have hn := Nat.lt_of_lt_of_le hshort hlength
      refine .after hread ?_ (ih _ hn (fun a => (hround a).le (Nat.le_of_lt hn))
        (fun b => (hk b).le (Nat.le_of_lt hn)) a' _ hend hkept (Nat.le_refl _))
      rw [exec_bind, loop_more hexec (Cursor.offset_lt hshort), ← exec_bind]
    | inr b =>
      exact .after hread (exec_bind_ok (loop_done hexec) k)
        (hk b _ hend hkept (Nat.le_trans hread.length_le hlength))
  | failure ho hfail hexec =>
    exact .failure ho (Grammar.bind_eq_error_iff.2 (.inl hfail))
      (exec_bind_error (loop_error hexec) k)

/-- A loop follows what its rounds unfold to. -/
theorem loop {round : α → Parser (α ⊕ β)} {R : α → Reader (α ⊕ β)} {P : α → Reader β}
    (hround : ∀ a, Follows known n (round a) (R a))
    (hmore : ∀ a a' ts rest, Reads (R a) ts (.inl a') rest → rest.length < ts.length)
    (hP : ∀ a, P a = R a >>= Sum.elim P Pure.pure) (a : α) :
    Follows known n (Run.loop round a) (P a) := by
  have h := loop_bind (k := Pure.pure) hround hmore (fun b => pure b) hP a
  rwa [bind_pure] at h

/-- A loop that takes items, the last one first, follows what its rounds unfold to. -/
theorem collect {round : List α → Parser (List α ⊕ List α)}
    {R : List α → Reader (List α ⊕ List α)} {P : Reader (List α)}
    (hround : ∀ taken, Follows known n (round taken) (R taken))
    (hmore : ∀ taken taken' ts rest, Reads (R taken) ts (.inl taken') rest →
      rest.length < ts.length)
    (hP : ∀ taken, (taken.reverse ++ ·) <$> P =
      R taken >>= Sum.elim (fun taken => (taken.reverse ++ ·) <$> P) Pure.pure) :
    Follows known n (Run.loop round []) P := by
  have hloop := loop (P := fun taken => (taken.reverse ++ ·) <$> P) hround hmore hP []
  have hid : ((([] : List α).reverse ++ ·) <$> P) = P := id_map (f := Reader) P
  rwa [hid] at hloop

end Follows

/-! ## Items and separators -/

/-- Take an item if it starts with the token in front of the cursor, and go on. -/
def manyRound (starts : TokenKind → Bool) (item : Parser α) (taken : List α) :
    Parser (List α ⊕ List α) := do
  let t ← current
  if starts t.kind then
    let a ← item
    return .inl (a :: taken)
  else return .inr taken.reverse

noncomputable def many (starts : TokenKind → Bool) (item : Parser α) : Parser (List α) :=
  Run.loop (manyRound starts item) []

/-- Take an item, and go on if a token of the given kind follows it. -/
def separatedRound (k : TokenKind) (item : Parser α) (taken : List α) :
    Parser (List α ⊕ List α) := do
  let a ← item
  if ← accept k then return .inl (a :: taken) else return .inr (a :: taken).reverse

noncomputable def separated (k : TokenKind) (item : Parser α) : Parser (List α) :=
  Run.loop (separatedRound k item) []

/-- Take an item if a token of the given kind stands in front of it, and go on. -/
def chainedRound (k : TokenKind) (item : Parser α) (taken : List α) :
    Parser (List α ⊕ List α) := do
  if ← accept k then
    let a ← item
    return .inl (a :: taken)
  else return .inr taken.reverse

noncomputable def chained (k : TokenKind) (item : Parser α) : Parser (List α) := do
  let first ← item
  Run.loop (chainedRound k item) [first]

namespace Follows

variable {known : List String} {n : Nat} {k : TokenKind} {item : Parser α} {p : Reader α}

theorem many {starts : TokenKind → Bool} {q : Token → Reader α} {P : Reader (List α)}
    (hfinish : starts .finish = false)
    (hitem : ∀ (c : Cursor Token (List String)) t us, c.Ended → c.kept = known →
      c.rest = t :: us → starts t.kind = true → FollowsAt item (Reader.take >>= q) c)
    (hmore : ∀ t us, starts t.kind = true →
      P (t :: us) = Reader.behind ((q t >>= fun a => (a :: ·) <$> P) us))
    (hdone : ∀ ts, ¬starts (headKind ts) = true → P ts = (Pure.pure [] : Reader (List α)) ts) :
    Follows known n (Parser.many starts item) P := by
  have hround (taken : List α) : Follows known n (manyRound starts item taken) (do
      let t ← Reader.peek
      if starts t.kind then
        let a ← Reader.take >>= q
        return .inl (a :: taken)
      else return .inr taken.reverse) := by
    intro c hc hkept _
    refine .peek hc fun us h => ?_
    split
    · next ht => exact (hitem c _ us hc hkept h ht).bind hc fun a _ _ hend => .pure hend _
    · exact .pure hc _
  refine collect hround ?_ ?_
  · intro taken taken' ts rest hread
    obtain ⟨t, us, hpeek, hread⟩ := Reads.bind_iff.1 hread
    obtain ⟨rfl, rfl⟩ := Reads.peek_iff.1 hpeek
    split at hread
    · next ht =>
      rw [bind_assoc] at hread
      refine Reader.length_lt_of_reads_take hread fun hf => ?_
      rw [headKind] at hf
      rw [hf, hfinish] at ht
      cases ht
    · cases (Reads.pure_iff.1 hread).1
  · intro taken
    funext ts
    rw [bind_assoc, Grammar.peek_bind]
    by_cases ht : starts (headKind ts) = true
    · cases ts with
      | nil => exact absurd (ht.symm.trans hfinish) (by decide)
      | cons t us =>
        have hP : P (t :: us) = (Reader.take >>= fun t => q t >>= fun a => (a :: ·) <$> P)
            (t :: us) := by rw [hmore t us ht, take_bind]
        rw [headKind] at ht
        rw [if_pos ht, map_eq_pure_bind, Reader.bind_congr_at hP]
        simp
    · rw [headKind] at ht
      rw [if_neg ht, map_eq_pure_bind, Reader.bind_congr_at (hdone ts ht)]
      simp

theorem separated (hk : k ≠ .finish) (h : Follows known n item p) :
    Follows known n (Parser.separated k item) (sepBy k p) := by
  have hround (taken : List α) : Follows known n (separatedRound k item taken) (do
      let a ← p
      if ← Reader.accept k then return .inl (a :: taken) else return .inr (a :: taken).reverse) :=
    h.bind fun a => accept hk (fun _ _ => pure _) (pure _)
  refine collect hround ?_ ?_
  · intro taken taken' ts rest hread
    obtain ⟨a, us, ha, hread⟩ := Reads.bind_iff.1 hread
    obtain ⟨b, vs, hb, hread⟩ := Reads.bind_iff.1 hread
    cases b with
    | false => cases (Reads.pure_iff.1 hread).1
    | true =>
      obtain ⟨-, rfl⟩ := Reads.pure_iff.1 hread
      have hle := ha.length_le
      obtain ⟨-, t, rfl, -⟩ | ⟨h', -⟩ := (Reads.accept_iff hk).1 hb
      · exact Nat.lt_of_lt_of_le (Nat.lt_succ_self _) hle
      · cases h'
  · intro taken
    conv_lhs => rw [Grammar.Prompt.sepBy_eq, map_bind]
    rw [bind_assoc]
    refine congrArg (p >>= ·) (funext fun a => ?_)
    rw [map_bind, bind_assoc]
    refine congrArg (Reader.accept k >>= ·) (funext fun b => ?_)
    cases b with
    | false => simp
    | true => simp

theorem chained (hk : k ≠ .finish) (h : Follows known n item p) :
    Follows known n (Parser.chained k item) (sepBy k p) := by
  have hround (taken : List α) : Follows known n (chainedRound k item taken) (do
      if ← Reader.accept k then
        let a ← p
        return .inl (a :: taken)
      else return .inr taken.reverse) :=
    accept hk (fun i hi => (h.le (Nat.le_of_lt hi)).bind fun a => pure _) (pure _)
  rw [sepBy_eq_bind]
  refine h.bind fun a => loop (P := fun taken => (taken.reverse ++ ·) <$> moreBy k p) hround
    ?_ ?_ [a]
  · intro taken taken' ts rest hread
    obtain ⟨b, vs, hb, hitem⟩ := Reads.bind_iff.1 hread
    cases b with
    | false => cases (Reads.pure_iff.1 hitem).1
    | true =>
      obtain ⟨a, us, ha, hdone⟩ := Reads.bind_iff.1 hitem
      obtain ⟨-, rfl⟩ := Reads.pure_iff.1 hdone
      obtain ⟨-, t, rfl, -⟩ | ⟨h', -⟩ := (Reads.accept_iff hk).1 hb
      · exact Nat.lt_succ_of_le ha.length_le
      · cases h'
  · intro taken
    conv_lhs => rw [moreBy, map_bind]
    rw [bind_assoc]
    refine congrArg (Reader.accept k >>= ·) (funext fun b => ?_)
    cases b with
    | false => simp
    | true => simp [sepBy_eq_bind]

end Follows

end Parser

end ContractInterface
