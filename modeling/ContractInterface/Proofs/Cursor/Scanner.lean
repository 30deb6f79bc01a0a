import ContractInterface.Proofs.Cursor
import ContractInterface.Proofs.Scan.Tiling

/-!
# The scanner as a program that moves a cursor

Every function of the scanner looks at the characters in front of the cursor and takes them one by
one; it keeps the position.  On every source it stops, without reading behind the end and without a
round that takes nothing, and what it finds are the tokens of `Token.scan`.

    Scans m c (.ok (a, n))      from `c` the run `m` takes `n` characters and yields `a`
    Scans m c (.error f)        from `c` the run `m` fails with `f` within the source
-/

namespace ContractInterface

open Run

/-! ## Places in a source -/

namespace Cursor

variable {c : Cursor Char Position}

/-- The cursor `n` characters further. -/
def past (c : Cursor Char Position) (n : Nat) : Cursor Char Position :=
  { c with offset := c.offset + n, kept := c.kept.after (c.rest.take n) }

theorem rest_past (n : Nat) : (c.past n).rest = c.rest.drop n :=
  (List.drop_drop ..).symm

theorem past_past (m n : Nat) : (c.past m).past n = c.past (m + n) := by
  have hkept : (c.kept.after (c.rest.take m)).after ((c.rest.drop m).take n) =
      c.kept.after (c.rest.take (m + n)) := by
    rw [← Position.after_append, ← List.take_add]
  unfold past
  rw [← hkept, ← Nat.add_assoc]
  rw [← rest_past m]
  rfl

theorem kept_past_one {a : Char} {r : List Char} (h : c.rest = a :: r) :
    (c.past 1).kept = c.kept.step a := by
  simp only [past, h]
  rfl

theorem rest_past_succ {a : Char} {r : List Char} (h : c.rest = a :: r) (n : Nat) :
    (c.past (n + 1)).rest = r.drop n := by
  rw [rest_past, h, List.drop_succ_cons]

end Cursor

abbrev Scanner (α : Type) := Run Char Position α

namespace Scanner

variable {α β : Type} {c : Cursor Char Position} {a : Char} {r : List Char}

/-! ## Single characters -/

/-- The character `n` places ahead, if the source goes that far. -/
def ahead (n : Nat) : Scanner (Option Char) := do
  let c ← get
  if c.input.length ≤ c.offset + n then return none
  let a ← item (c.offset + n)
  return some a

def current : Scanner (Option Char) := ahead 0

def peek : Scanner (Option Char) := ahead 1

/-- Take the next character. -/
def advance : Scanner Char := do
  let a ← item (← offset)
  modify fun c => { c with offset := c.offset + 1, kept := c.kept.step a }
  return a

def here : Scanner Position := do return (← get).kept

@[simp] theorem exec_ahead (n : Nat) : exec (ahead n) c = some (.ok c.rest[n]?, c) := by
  rw [ahead, exec_bind_ok exec_get, c.getElem?_rest]
  split
  · next h => rw [exec_pure, List.getElem?_eq_none h]
  · next h =>
    have hitem := List.getElem?_eq_getElem (Nat.lt_of_not_le h)
    rw [hitem, exec_bind_ok (exec_item hitem), exec_pure]

@[simp] theorem exec_current : exec current c = some (.ok c.rest.head?, c) := by
  rw [current, exec_ahead, List.head?_eq_getElem?]

@[simp] theorem exec_peek : exec peek c = some (.ok c.rest.tail.head?, c) := by
  rw [peek, exec_ahead, List.head?_eq_getElem?, List.getElem?_tail]

@[simp] theorem exec_here : exec here c = some (.ok c.kept, c) := rfl

theorem exec_advance (h : c.rest = a :: r) : exec advance c = some (.ok a, c.past 1) := by
  have hitem : c.input[c.offset]? = some a := by
    rw [← Nat.add_zero c.offset, ← c.getElem?_rest, h]
    rfl
  rw [advance, exec_bind_ok exec_offset, exec_bind_ok (exec_item hitem),
    exec_bind_ok (exec_modify _), exec_pure, ← Cursor.kept_past_one h]
  rfl

/-! ## Outcomes -/

/-- `n` more characters taken. -/
def further (n : Nat) (x : α × Nat) : α × Nat := (x.1, x.2 + n)

/-- The run stops within the source: it takes so many characters and yields a value, or it fails. -/
def Scans (m : Scanner α) (c : Cursor Char Position) : Except Failure (α × Nat) → Prop
  | .ok (a, n) => n ≤ c.rest.length ∧ exec m c = some (.ok a, c.past n)
  | .error f => ∃ n ≤ c.rest.length, exec m c = some (.error (.failure f), c.past n)

namespace Scans

variable {m m' : Scanner α} {f : α → Scanner β} {res : Except Failure (α × Nat)}

theorem pure (a : α) : Scans (Pure.pure a) c (.ok (a, 0)) := ⟨Nat.zero_le _, rfl⟩

theorem halt (pos : Position) (cause : Cause) :
    Scans (Run.halt pos cause : Scanner α) c (.error ⟨pos, cause⟩) := ⟨0, Nat.zero_le _, rfl⟩

/-- A run that goes on like another one, `k` characters further. -/
theorem of_exec {k : Nat} (h : exec m c = exec m' (c.past k)) (hk : k ≤ c.rest.length)
    (h' : Scans m' (c.past k) res) : Scans m c (res.map (further k)) := by
  have hlength : (c.past k).rest.length = c.rest.length - k := by
    rw [Cursor.rest_past, List.length_drop]
  cases res with
  | ok x =>
    obtain ⟨hn, hexec⟩ := h'
    refine ⟨?_, ?_⟩
    · show x.2 + k ≤ _
      omega
    · rw [h, hexec, Cursor.past_past, Nat.add_comm]
  | error e =>
    obtain ⟨n, hn, hexec⟩ := h'
    refine ⟨n + k, by omega, ?_⟩
    rw [h, hexec, Cursor.past_past, Nat.add_comm]

/-- A run that goes on like another one in the same place. -/
theorem congr (h : exec m c = exec m' c) (h' : Scans m' c res) : Scans m c res := by
  have := of_exec (k := 0) h (Nat.zero_le _) h'
  cases res <;> exact this

/-- One run behind another one. -/
theorem bind {a : α} {k : Nat} {res : Except Failure (β × Nat)} (h : Scans m c (.ok (a, k)))
    (h' : Scans (f a) (c.past k) res) : Scans (m >>= f) c (res.map (further k)) :=
  of_exec (exec_bind_ok h.2 f) h.1 h'

theorem bind_error {e : Failure} (h : Scans m c (.error e)) : Scans (m >>= f) c (.error e) := by
  obtain ⟨n, hn, hexec⟩ := h
  exact ⟨n, hn, exec_bind_error hexec f⟩

theorem map (h : Scans m c res) (g : α → β) :
    Scans (m >>= fun a => Pure.pure (g a)) c (res.map fun x => (g x.1, x.2)) := by
  cases res with
  | ok x => exact ⟨h.1, exec_bind_ok h.2 _⟩
  | error e => exact h.bind_error

end Scans

/-- The outcome of a search that may fail. -/
def orFail (f : Failure) (found : Option (α × Nat)) : Except Failure (α × Nat) :=
  found.elim (.error f) .ok

theorem map_orFail (f : Failure) (found : Option (α × Nat)) (n : Nat) :
    (orFail f found).map (further n) = orFail f (found.map (further n)) := by
  cases found <;> rfl

/-- A round that takes something, and the search behind it. -/
theorem Scans.search_more {round : α → Scanner (α ⊕ β)} {a a' : α} {n : Nat} {f : Failure}
    {found : Option (β × Nat)} (h : exec (round a) c = some (.ok (.inl a'), c.past (n + 1)))
    (hn : n + 1 ≤ c.rest.length) (h' : Scans (loop round a') (c.past (n + 1)) (orFail f found)) :
    Scans (loop round a) c (orFail f (found.map (further (n + 1)))) := by
  rw [← map_orFail]
  exact of_exec (loop_more h (Nat.lt_add_of_pos_right (Nat.succ_pos n))) hn h'

/-! ## Runs of characters -/

def takeRunRound (p : Char → Bool) (taken : List Char) : Scanner (List Char ⊕ List Char) := do
  match ← current with
  | none => return .inr taken.reverse
  | some a =>
    if p a then
      let _ ← advance
      return .inl (a :: taken)
    else return .inr taken.reverse

/-- Take characters as long as they have the property. -/
noncomputable def takeRun (p : Char → Bool) : Scanner (List Char) := loop (takeRunRound p) []

theorem exec_takeRun_loop (p : Char → Bool) (taken : List Char) :
    exec (loop (takeRunRound p) taken) c =
      some (.ok (taken.reverse ++ c.rest.takeWhile p), c.past (c.rest.takeWhile p).length) := by
  induction h : c.rest generalizing c taken with
  | nil =>
    have hround : exec (takeRunRound p taken) c = some (.ok (.inr taken.reverse), c) := by
      rw [takeRunRound, exec_bind_ok exec_current, h]
      rfl
    rw [loop_done hround, List.takeWhile_nil, List.append_nil]
    rfl
  | cons a r ih =>
    cases hp : p a with
    | false =>
      have hround : exec (takeRunRound p taken) c = some (.ok (.inr taken.reverse), c) := by
        rw [takeRunRound, exec_bind_ok exec_current, h]
        simp only [List.head?_cons, hp]
        rfl
      rw [loop_done hround, List.takeWhile_cons_of_neg (by simp [hp]), List.append_nil]
      rfl
    | true =>
      have hround : exec (takeRunRound p taken) c = some (.ok (.inl (a :: taken)), c.past 1) := by
        rw [takeRunRound, exec_bind_ok exec_current, h]
        simp only [List.head?_cons, hp, if_true]
        rw [exec_bind_ok (exec_advance h), exec_pure]
      rw [loop_more hround (Nat.lt_succ_self _), ih _ (Cursor.rest_past_succ h 0),
        List.takeWhile_cons_of_pos hp, Cursor.past_past, List.reverse_cons, List.append_assoc,
        List.length_cons, Nat.add_comm 1]
      rfl

theorem scans_takeRun (p : Char → Bool) :
    Scans (takeRun p) c (.ok (c.rest.takeWhile p, (c.rest.takeWhile p).length)) :=
  ⟨(List.takeWhile_sublist p).length_le, exec_takeRun_loop p []⟩

/-! ## Comments -/

def commentRound (start : Position) (depth : Nat) : Scanner (Nat ⊕ Unit) := do
  if depth = 0 then return .inr ()
  match ← current with
  | none => halt start (.unfinished Cause.scanDetail)
  | some a =>
    let b ← peek
    if a = '/' && b = some '*' then
      let _ ← advance
      let _ ← advance
      return .inl (depth + 1)
    else if a = '*' && b = some '/' then
      let _ ← advance
      let _ ← advance
      return .inl (depth - 1)
    else
      let _ ← advance
      return .inl depth

/-- Go past a comment, and those inside. -/
noncomputable def blockComment : Scanner Unit := do
  let start ← here
  let _ ← advance
  let _ ← advance
  loop (commentRound start) 1

theorem exec_commentRound (start : Position) (depth : Nat) (h : c.rest = a :: r) :
    exec (commentRound start (depth + 1)) c =
      if a = '/' ∧ r.head? = some '*' ∨ a = '*' ∧ r.head? = some '/' then
        some (.ok (.inl (if a = '/' then depth + 2 else depth)), c.past 2)
      else some (.ok (.inl (depth + 1)), c.past 1) := by
  have hnone : ¬(depth + 1 = 0) := Nat.succ_ne_zero depth
  rw [commentRound, if_neg hnone, exec_bind_ok exec_current, h]
  simp only [List.head?_cons]
  rw [exec_bind_ok exec_peek, h, List.tail_cons]
  have htwice (b : Char) (hb : r.head? = some b) (x : Nat ⊕ Unit) :
      exec (do let _ ← advance; let _ ← advance; return x) c = some (.ok x, c.past 2) := by
    obtain ⟨s, rfl⟩ := List.head?_eq_some_iff.1 hb
    rw [exec_bind_ok (exec_advance h), exec_bind_ok (exec_advance (Cursor.rest_past_succ h 0)),
      exec_pure, Cursor.past_past]
  by_cases hopen : a = '/' ∧ r.head? = some '*'
  · rw [if_pos (by simpa using hopen), if_pos (.inl hopen), htwice _ hopen.2, if_pos hopen.1]
  by_cases hclose : a = '*' ∧ r.head? = some '/'
  · rw [if_neg (by simpa using hopen), if_pos (by simpa using hclose), if_pos (.inr hclose),
      htwice _ hclose.2, if_neg (by rw [hclose.1]; decide), Nat.add_sub_cancel]
  · rw [if_neg (by simpa using hopen), if_neg (by simpa using hclose),
      if_neg (not_or.2 ⟨hopen, hclose⟩), exec_bind_ok (exec_advance h), exec_pure]

theorem scans_commentLoop (start : Position) (depth : Nat) :
    Scans (loop (commentRound start) depth) c (orFail ⟨start, .unfinished Cause.scanDetail⟩
      ((Token.closeComment depth c.rest).map ((), ·))) := by
  generalize hs : c.rest = s
  fun_induction Token.closeComment depth s generalizing c with
  | case1 s => exact ⟨Nat.zero_le _, loop_done rfl⟩
  | case2 depth =>
    refine ⟨0, Nat.zero_le _, loop_error ?_⟩
    rw [commentRound, if_neg (Nat.succ_ne_zero depth), exec_bind_ok exec_current, hs]
    rfl
  | case3 depth r ih | case4 depth r ih =>
    have hmore := Scans.search_more (exec_commentRound start depth hs) (by simp [hs])
      (ih (Cursor.rest_past_succ hs 1))
    rw [Option.map_map] at hmore
    rwa [Option.map_map]
  | case5 depth a r hopen hclose ih =>
    have hmark : ¬(a = '/' ∧ r.head? = some '*' ∨ a = '*' ∧ r.head? = some '/') := by
      rintro (⟨rfl, hr⟩ | ⟨rfl, hr⟩)
      · obtain ⟨t, rfl⟩ := List.head?_eq_some_iff.1 hr
        exact hopen t rfl rfl
      · obtain ⟨t, rfl⟩ := List.head?_eq_some_iff.1 hr
        exact hclose t rfl rfl
    have hround := exec_commentRound start depth hs
    rw [if_neg hmark] at hround
    have hmore := Scans.search_more hround (by simp [hs]) (ih (Cursor.rest_past_succ hs 0))
    rw [Option.map_map] at hmore
    rwa [Option.map_map]

theorem scans_blockComment (h : c.rest = '/' :: '*' :: r) :
    Scans blockComment c (orFail ⟨c.kept, .unfinished Cause.scanDetail⟩
      ((Token.closeComment 1 r).map fun n => ((), n + 2))) := by
  have hloop := scans_commentLoop (c := c.past 2) c.kept 1
  rw [Cursor.rest_past_succ h 1] at hloop
  have hstart : exec blockComment c = exec (loop (commentRound c.kept) 1) (c.past 2) := by
    rw [blockComment, exec_bind_ok exec_here, exec_bind_ok (exec_advance h),
      exec_bind_ok (exec_advance (Cursor.rest_past_succ h 0)), Cursor.past_past]
  have hcomment := Scans.of_exec hstart (by simp [h]) hloop
  rwa [map_orFail, Option.map_map] at hcomment

/-! ## Strings -/

/-- What the character `a` of a string does once it is taken. -/
def stringChar (start : Position) (taken : List Char) (a : Char) :
    Scanner (List Char ⊕ Token) := do
  if a = '"' then return .inr ⟨.string, String.ofList taken.reverse, start⟩
  else if a = '\n' then halt start (.scan Cause.scanDetail)
  else if a = '\\' then
    match ← current with
    | none => halt start (.scan Cause.scanDetail)
    | some _ =>
      let b ← advance
      return .inl (Token.unescape b :: taken)
  else return .inl (a :: taken)

def stringRound (start : Position) (taken : List Char) : Scanner (List Char ⊕ Token) := do
  match ← current with
  | none => halt start (.scan Cause.scanDetail)
  | some _ =>
    let a ← advance
    stringChar start taken a

/-- Take a string, its quotes included. -/
noncomputable def stringToken : Scanner Token := do
  let start ← here
  let _ ← advance
  loop (stringRound start) []

theorem exec_stringRound (start : Position) (taken : List Char) (h : c.rest = a :: r) :
    exec (stringRound start taken) c = exec (stringChar start taken a) (c.past 1) := by
  rw [stringRound, exec_bind_ok exec_current, h]
  simp only [List.head?_cons]
  rw [exec_bind_ok (exec_advance h)]

theorem scans_stringLoop (start : Position) (taken : List Char) :
    Scans (loop (stringRound start) taken) c (orFail ⟨start, .scan Cause.scanDetail⟩
      ((Token.readString c.rest).map fun (s, n) =>
        (⟨.string, String.ofList (taken.reverse ++ s), start⟩, n))) := by
  generalize hs : c.rest = s
  fun_induction Token.readString s generalizing c taken with
  | case1 =>
    refine ⟨0, Nat.zero_le _, loop_error ?_⟩
    rw [stringRound, exec_bind_ok exec_current, hs]
    rfl
  | case2 r =>
    refine ⟨by simp [hs], loop_done ?_⟩
    rw [exec_stringRound start taken hs, stringChar, if_pos rfl, List.append_nil]
    rfl
  | case3 r =>
    refine ⟨1, by simp [hs], loop_error ?_⟩
    rw [exec_stringRound start taken hs, stringChar, if_neg (by decide), if_pos rfl]
    rfl
  | case4 b r ih =>
    have hround : exec (stringRound start taken) c =
        some (.ok (.inl (Token.unescape b :: taken)), c.past 2) := by
      have hrest := Cursor.rest_past_succ hs 0
      rw [exec_stringRound start taken hs, stringChar, if_neg (by decide), if_neg (by decide),
        if_pos rfl, exec_bind_ok exec_current, hrest]
      simp only [List.drop_zero, List.head?_cons]
      rw [exec_bind_ok (exec_advance hrest), exec_pure, Cursor.past_past]
    have hmore := Scans.search_more hround (by simp [hs])
      (ih (Token.unescape b :: taken) (Cursor.rest_past_succ hs 1))
    rw [Option.map_map] at hmore ⊢
    simpa [Function.comp_def, further] using hmore
  | case5 a r hquote hfeed hescape ih =>
    by_cases hslash : a = '\\'
    · -- a backslash is the last character, which ends the source within the string
      obtain rfl : r = [] := by
        cases r with
        | nil => rfl
        | cons b r => exact (hescape b r hslash rfl).elim
      refine ⟨1, by simp [hs], loop_error ?_⟩
      rw [exec_stringRound start taken hs, stringChar, if_neg hquote, if_neg hfeed, if_pos hslash,
        exec_bind_ok exec_current, Cursor.rest_past_succ hs 0]
      rfl
    · have hround : exec (stringRound start taken) c =
          some (.ok (.inl (a :: taken)), c.past 1) := by
        rw [exec_stringRound start taken hs, stringChar, if_neg hquote, if_neg hfeed,
          if_neg hslash, exec_pure]
      have hmore := Scans.search_more hround (by simp [hs])
        (ih (a :: taken) (Cursor.rest_past_succ hs 0))
      rw [Option.map_map] at hmore ⊢
      simpa [Function.comp_def, further] using hmore

theorem scans_stringToken (h : c.rest = '"' :: r) :
    Scans stringToken c (orFail ⟨c.kept, .scan Cause.scanDetail⟩
      ((Token.readString r).map fun (s, n) =>
        (⟨.string, String.ofList s, c.kept⟩, n + 1))) := by
  have hloop := scans_stringLoop (c := c.past 1) c.kept []
  rw [Cursor.rest_past_succ h 0] at hloop
  have hstart : exec stringToken c = exec (loop (stringRound c.kept) []) (c.past 1) := by
    rw [stringToken, exec_bind_ok exec_here, exec_bind_ok (exec_advance h)]
  have hstring := Scans.of_exec hstart (by simp [h]) hloop
  rwa [map_orFail, Option.map_map] at hstring

/-! ## Numbers and names -/

def isHexPart (a : Char) : Bool := Token.isHexDigit a || a = '_'

def isNumberPart (a : Char) : Bool := Text.isDigit a || a = '_'

noncomputable def number : Scanner Token := do
  let start ← here
  let first ← current
  let second ← peek
  if first = some '0' ∧ (second = some 'x' ∨ second = some 'X') then
    let a ← advance
    let b ← advance
    let digits ← takeRun isHexPart
    return ⟨.number, String.ofList (a :: b :: digits), start⟩
  else
    let digits ← takeRun isNumberPart
    return ⟨.number, String.ofList digits, start⟩

/-- Take a name and look at its first character. -/
noncomputable def name : Scanner Token := do
  let start ← here
  let word ← takeRun Token.isNameChar
  match word with
  | [] => throw .outOfRange
  | a :: w => return ⟨Token.nameKind a (a :: w), String.ofList (a :: w), start⟩

noncomputable def typeVariable : Scanner Token := do
  let start ← here
  let _ ← advance
  match ← current with
  | none => halt start (.scan Cause.scanDetail)
  | some a =>
    if Token.startsName a then
      let word ← takeRun Token.isNameChar
      return ⟨.tvar, String.ofList ('\'' :: word), start⟩
    else halt start (.scan Cause.scanDetail)

theorem scans_number_decimal (h : c.rest = a :: r) (ha : Text.isDigit a = true)
    (hx : ¬(a = '0' ∧ (r.head? = some 'x' ∨ r.head? = some 'X'))) :
    Scans number c (.ok (⟨.number, String.ofList (a :: r.takeWhile isNumberPart), c.kept⟩,
      (r.takeWhile isNumberPart).length + 1)) := by
  have hrun := scans_takeRun (c := c) isNumberPart
  rw [h, List.takeWhile_cons_of_pos (by rw [isNumberPart, ha, Bool.true_or])] at hrun
  refine ⟨hrun.1, ?_⟩
  rw [number, exec_bind_ok exec_here, exec_bind_ok exec_current, exec_bind_ok exec_peek, h,
    if_neg (by simpa using hx), exec_bind_ok hrun.2]
  rfl

theorem scans_number_hex {x : Char} (h : c.rest = '0' :: x :: r) (hx : x = 'x' ∨ x = 'X') :
    Scans number c (.ok (⟨.number, String.ofList ('0' :: x :: r.takeWhile isHexPart), c.kept⟩,
      (r.takeWhile isHexPart).length + 2)) := by
  have hrun := scans_takeRun (c := c.past 2) isHexPart
  rw [Cursor.rest_past_succ h 1, List.drop_one, List.tail_cons] at hrun
  have hnumber : exec number c = exec (do
      let digits ← takeRun isHexPart
      return ⟨.number, String.ofList ('0' :: x :: digits), c.kept⟩) (c.past 2) := by
    rw [number, exec_bind_ok exec_here, exec_bind_ok exec_current, exec_bind_ok exec_peek, h,
      if_pos (by simpa using hx), exec_bind_ok (exec_advance h),
      exec_bind_ok (exec_advance (Cursor.rest_past_succ h 0)), Cursor.past_past]
  exact Scans.of_exec hnumber (by simp [h]) (hrun.map _)

theorem scans_number (h : c.rest = a :: r) (ha : Text.isDigit a = true) :
    Scans number c (.ok (⟨.number, String.ofList (a :: r.take (Token.numberLength a r)), c.kept⟩,
      Token.numberLength a r + 1)) := by
  fun_cases Token.numberLength a r with
  | case1 x s hx =>
    have hhex := scans_number_hex h (by simpa using hx)
    rw [Nat.add_comm 1, List.take_succ_cons, Token.take_length_takeWhile]
    exact hhex
  | case2 x s hx =>
    rw [Token.take_length_takeWhile]
    exact scans_number_decimal h ha fun h' => hx (by simpa using h'.2)
  | case3 _ _ hother =>
    rw [Token.take_length_takeWhile]
    refine scans_number_decimal h ha ?_
    rintro ⟨rfl, hr | hr⟩
    · obtain ⟨s, rfl⟩ := List.head?_eq_some_iff.1 hr
      exact hother _ s rfl rfl
    · obtain ⟨s, rfl⟩ := List.head?_eq_some_iff.1 hr
      exact hother _ s rfl rfl

theorem scans_name (h : c.rest = a :: r) (ha : Token.startsName a = true) :
    Scans name c (.ok (⟨Token.nameKind a (a :: r.takeWhile Token.isNameChar),
      String.ofList (a :: r.takeWhile Token.isNameChar), c.kept⟩,
      (r.takeWhile Token.isNameChar).length + 1)) := by
  have hrun := scans_takeRun (c := c) Token.isNameChar
  rw [h, List.takeWhile_cons_of_pos (Token.isNameChar_of_startsName ha)] at hrun
  refine ⟨hrun.1, ?_⟩
  rw [name, exec_bind_ok exec_here, exec_bind_ok hrun.2]
  rfl

theorem scans_typeVariable (h : c.rest = '\'' :: r) :
    Scans typeVariable c (if r.head?.any Token.startsName then
        .ok (⟨.tvar, String.ofList ('\'' :: r.takeWhile Token.isNameChar), c.kept⟩,
          (r.takeWhile Token.isNameChar).length + 1)
      else .error ⟨c.kept, .scan Cause.scanDetail⟩) := by
  have hrest := Cursor.rest_past_succ h 0
  rw [List.drop_zero] at hrest
  have hinside : 1 ≤ c.rest.length := by simp [h]
  split
  · next hr =>
    have hrun := scans_takeRun (c := c.past 1) Token.isNameChar
    rw [hrest] at hrun
    have hname : exec typeVariable c = exec (do
        let word ← takeRun Token.isNameChar
        return ⟨.tvar, String.ofList ('\'' :: word), c.kept⟩) (c.past 1) := by
      obtain ⟨b, hb, hstart⟩ := (Option.any_eq_true _ _).1 hr
      rw [typeVariable, exec_bind_ok exec_here, exec_bind_ok (exec_advance h),
        exec_bind_ok exec_current, hrest, hb]
      simp only [hstart, if_true]
    exact Scans.of_exec hname hinside (hrun.map _)
  · next hr =>
    refine ⟨1, hinside, ?_⟩
    rw [typeVariable, exec_bind_ok exec_here, exec_bind_ok (exec_advance h),
      exec_bind_ok exec_current, hrest]
    cases r with
    | nil => rfl
    | cons b s =>
      have hstart : Token.startsName b = false := by simpa using hr
      simp only [List.head?_cons, hstart, Bool.false_eq_true, if_false]
      rfl

/-! ## Operators -/

/-- Take as many characters as there are in the list. -/
def advanceOver : List Char → Scanner Unit
  | [] => return ()
  | _ :: s => do
    let _ ← advance
    advanceOver s

/-- Take the first of the operators that stands here. -/
def operator : Scanner (Option Token) := do
  let c ← get
  match Token.operators.find? fun op => op.1.isPrefixOf c.rest with
  | none => return none
  | some (op, kind) =>
    let start ← here
    advanceOver op
    return some ⟨kind, String.ofList op, start⟩

theorem scans_advanceOver {s : List Char} (h : s <+: c.rest) :
    Scans (advanceOver s) c (.ok ((), s.length)) := by
  induction s generalizing c with
  | nil => exact Scans.pure ()
  | cons a s ih =>
    obtain ⟨t, ht⟩ := h
    have hrest := Cursor.rest_past_succ ht.symm 0
    have hstart : exec (advanceOver (a :: s)) c = exec (advanceOver s) (c.past 1) := by
      rw [advanceOver, exec_bind_ok (exec_advance ht.symm)]
    exact Scans.of_exec hstart (by simp [← ht]) (ih ⟨t, hrest.symm⟩)

theorem scans_operator {op : List Char} {kind : TokenKind}
    (h : (Token.operators.find? fun op => op.1.isPrefixOf c.rest) = some (op, kind)) :
    Scans operator c (.ok (some ⟨kind, String.ofList op, c.kept⟩, op.length)) := by
  have hop := List.find?_some h
  have htake : exec operator c = exec (do
      advanceOver op
      return some ⟨kind, String.ofList op, c.kept⟩) c := by
    rw [operator, exec_bind_ok exec_get, h]
    exact exec_bind_ok exec_here _
  exact ((scans_advanceOver (List.isPrefixOf_iff_prefix.1 hop)).map _).congr htake

theorem exec_operator_none
    (h : (Token.operators.find? fun op => op.1.isPrefixOf c.rest) = none) :
    exec operator c = some (.ok none, c) := by
  rw [operator, exec_bind_ok exec_get, h]
  rfl

/-! ## Pieces -/

/-- Take a bracket, a comma or an operator. -/
def mark (a : Char) : Scanner (Option Token) := do
  match Token.punctuation? a with
  | some kind =>
    let start ← here
    let _ ← advance
    return some ⟨kind, String.ofList [a], start⟩
  | none =>
    match ← operator with
    | some t => return some t
    | none =>
      let p ← here
      halt p (.scan Cause.scanDetail)

/-- Take the piece that starts with the character `a` here: nothing comes of a comment. -/
noncomputable def piece (a : Char) : Scanner (Option Token) := do
  let b ← peek
  if a = '/' ∧ b = some '/' then
    let _ ← takeRun (· ≠ '\n')
    return none
  else if a = '/' ∧ b = some '*' then
    let _ ← blockComment
    return none
  else if a = '"' then
    let t ← stringToken
    return some t
  else if Text.isDigit a then
    let t ← number
    return some t
  else if a = '\'' then
    let t ← typeVariable
    return some t
  else if Token.startsName a then
    let t ← name
    return some t
  else mark a

/-- What comes of a piece at `p`. -/
def outcome (p : Position) : Except Cause Token.Piece → Except Failure (Option Token × Nat)
  | .error cause => .error ⟨p, cause⟩
  | .ok (.gap more) => .ok (none, more + 1)
  | .ok (.lexeme kind value more) => .ok (some ⟨kind, String.ofList value, p⟩, more + 1)

theorem scans_lineComment (h : c.rest = '/' :: r) :
    Scans (takeRun (· ≠ '\n')) c (.ok ('/' :: r.takeWhile (· ≠ '\n'),
      (r.takeWhile (· ≠ '\n')).length + 1)) := by
  have hrun := scans_takeRun (c := c) (· ≠ '\n')
  rwa [h, List.takeWhile_cons_of_pos (by decide)] at hrun

theorem piece_startsName (ha : Token.startsName a = true) :
    Token.piece a r = .ok (.lexeme (Token.nameKind a (a :: r.takeWhile Token.isNameChar))
      (a :: r.takeWhile Token.isNameChar) (r.takeWhile Token.isNameChar).length) := by
  have hends : Ends (r.dropWhile Token.isNameChar) := by
    intro d hd
    have hnot := List.head?_dropWhile_not Token.isNameChar r
    rw [hd] at hnot
    simpa using hnot
  have hpiece := Token.piece_name ha (Token.isNameChar_of_mem_takeWhile (r := r)) hends
  rwa [List.takeWhile_append_dropWhile] at hpiece

theorem scans_mark (h : c.rest = a :: r)
    (hmark : Token.punctuation? a = none → Token.StartsOther a r) :
    Scans (mark a) c (outcome c.kept (Token.piece a r)) := by
  unfold mark
  cases hp : Token.punctuation? a with
  | some kind =>
    rw [Token.piece_punctuation hp]
    refine ⟨by simp [h], ?_⟩
    rw [exec_bind_ok exec_here, exec_bind_ok (exec_advance h)]
    rfl
  | none =>
    rw [Token.piece_of_startsOther (hmark hp), ← h]
    cases hop : Token.operators.find? fun op => op.1.isPrefixOf c.rest with
    | some x =>
      obtain ⟨op, kind⟩ := x
      have hnonempty : ∀ op ∈ Token.operators, op.1.length - 1 + 1 = op.1.length := by decide
      have hscans := (scans_operator hop).bind (f := fun t => match t with
        | some t => pure (some t)
        | none => do
          let p ← here
          halt p (.scan Cause.scanDetail)) (Scans.pure _)
      simpa [outcome, hnonempty _ (List.mem_of_find?_eq_some hop), Except.map, further] using hscans
    | none =>
      refine (Scans.halt c.kept (.scan Cause.scanDetail)).congr ?_
      rw [exec_bind_ok (exec_operator_none hop)]
      exact exec_bind_ok exec_here _

theorem scans_piece (h : c.rest = a :: r) (hspace : Token.isSpace a = false) :
    Scans (piece a) c (outcome c.kept (Token.piece a r)) := by
  have hpeek {f : Option Char → Scanner (Option Token)} :
      exec (peek >>= f) c = exec (f r.head?) c := by
    rw [exec_bind_ok exec_peek, h, List.tail_cons]
  refine Scans.congr hpeek ?_
  by_cases hline : a = '/' ∧ r.head? = some '/'
  · rw [if_pos hline]
    obtain ⟨rfl, hr⟩ := hline
    rw [Token.piece_lineComment hr]
    exact (scans_lineComment h).map fun _ => none
  rw [if_neg hline]
  by_cases hblock : a = '/' ∧ r.head? = some '*'
  · rw [if_pos hblock]
    obtain ⟨rfl, hr⟩ := hblock
    obtain ⟨s, rfl⟩ := List.head?_eq_some_iff.1 hr
    have hcomment := (scans_blockComment h).map fun _ => (none : Option Token)
    rw [Token.piece_blockComment]
    cases hn : Token.closeComment 1 s <;> rw [hn] at hcomment <;> exact hcomment
  rw [if_neg hblock]
  by_cases hquote : a = '"'
  · rw [if_pos hquote]
    subst hquote
    have hstring := (scans_stringToken h).map some
    rw [Token.piece_quote]
    cases hv : Token.readString r <;> rw [hv] at hstring <;> exact hstring
  rw [if_neg hquote]
  by_cases hdigit : Text.isDigit a = true
  · rw [if_pos hdigit, Token.piece_digit hdigit]
    exact (scans_number h hdigit).map some
  rw [if_neg hdigit]
  by_cases htick : a = '\''
  · rw [if_pos htick]
    subst htick
    have htvar := (scans_typeVariable h).map some
    have hpiece : Token.piece '\'' r = if r.head?.any Token.startsName then
        .ok (.lexeme .tvar ('\'' :: r.takeWhile Token.isNameChar)
          (r.takeWhile Token.isNameChar).length)
      else .error (.scan Cause.scanDetail) := rfl
    rw [hpiece]
    by_cases hr : r.head?.any Token.startsName = true
    · rw [if_pos hr] at htvar ⊢
      exact htvar
    · rw [if_neg hr] at htvar ⊢
      exact htvar
  rw [if_neg htick]
  by_cases hname : Token.startsName a = true
  · rw [if_pos hname, piece_startsName hname]
    exact (scans_name h hname).map some
  rw [if_neg hname]
  refine scans_mark h fun hmark => ⟨hspace, ?_, hquote, ?_, htick, ?_, hmark⟩
  · rw [Token.startsComment_cons_iff, and_or_left]
    exact not_or.2 ⟨hline, hblock⟩
  · simpa using hdigit
  · simpa using hname

/-! ## Sources -/

/-- Pass blanks and take a piece, unless the source ends. -/
noncomputable def tokensRound (found : List Token) : Scanner (List Token ⊕ List Token) := do
  let _ ← takeRun Token.isSpace
  match ← current with
  | none => return .inr found.reverse
  | some a =>
    let t ← piece a
    return .inl (t.toList ++ found)

def withEnd (found : List Token) : Scanner (List Token) := do
  let p ← here
  return found ++ [⟨.finish, "", p⟩]

/-- The tokens of the source, the last of them its end. -/
noncomputable def tokens : Scanner (List Token) := do
  let found ← loop tokensRound []
  withEnd found

theorem scanFrom_blanks (p : Position) (s : List Char) :
    Token.scanFrom p 0 s = Token.scanFrom (p.after (s.takeWhile Token.isSpace)) 0
      (s.dropWhile Token.isSpace) := by
  induction s generalizing p with
  | nil => rfl
  | cons a r ih =>
    cases ha : Token.isSpace a with
    | false =>
      rw [List.takeWhile_cons_of_neg (by simp [ha]), List.dropWhile_cons_of_neg (by simp [ha])]
      rfl
    | true =>
      have hpiece : Token.piece a r = .ok (.gap 0) := by rw [Token.piece, if_pos ha]
      rw [List.takeWhile_cons_of_pos ha, List.dropWhile_cons_of_pos ha, Position.after_cons, ← ih,
        Token.scanFrom_cons, hpiece]
      rfl

/-- What comes of a piece, and the tokens behind it. -/
theorem scanFrom_outcome (p : Position) (a : Char) (r : List Char) :
    Token.scanFrom p 0 (a :: r) = (outcome p (Token.piece a r)).bind fun (t, n) =>
      (Token.scanFrom (p.after ((a :: r).take n)) 0 ((a :: r).drop n)).map (t.toList ++ ·) := by
  rw [Token.scanFrom_cons]
  cases Token.piece a r with
  | error cause => rfl
  | ok x =>
    cases x with
    | gap more =>
      show Token.scanFrom _ 0 _ = (Token.scanFrom _ 0 _).map id
      rw [Except.map_id]
      rfl
    | lexeme kind value more => rfl

theorem outcome_pos {p : Position} {x : Except Cause Token.Piece} {t : Option Token} {n : Nat}
    (h : outcome p x = .ok (t, n)) : 0 < n := by
  unfold outcome at h
  split at h <;> cases h <;> exact Nat.succ_pos _

/-- The scanner goes on behind a round that has taken something. -/
theorem scans_tokensLoop_more {found found' : List Token} {n : Nat} (hn : 0 < n)
    (hround : Scans (tokensRound found) c (.ok (.inl found', n)))
    (h : Scans (loop tokensRound found' >>= withEnd) (c.past n)
      ((Token.scanFrom (c.past n).kept 0 (c.past n).rest).map fun ts =>
        (found'.reverse ++ ts, (c.past n).rest.length))) :
    Scans (loop tokensRound found >>= withEnd) c
      ((Token.scanFrom (c.past n).kept 0 (c.past n).rest).map fun ts =>
        (found'.reverse ++ ts, c.rest.length)) := by
  obtain ⟨hle, hexec⟩ := hround
  have hmore := Scans.of_exec (m := loop tokensRound found >>= withEnd) (by
    rw [exec_bind, loop_more hexec (Nat.lt_add_of_pos_right hn), ← exec_bind]) hle h
  have hlength : (c.past n).rest.length + n = c.rest.length := by
    rw [Cursor.rest_past, List.length_drop]
    omega
  cases hscan : Token.scanFrom (c.past n).kept 0 (c.past n).rest with
  | error f => rwa [hscan] at hmore
  | ok ts =>
    rw [hscan] at hmore
    simpa only [Except.map, further, hlength] using hmore

theorem scans_tokensLoop (found : List Token) :
    Scans (loop tokensRound found >>= withEnd) c
      ((Token.scanFrom c.kept 0 c.rest).map fun ts => (found.reverse ++ ts, c.rest.length)) := by
  induction hn : c.rest.length using Nat.strongRecOn generalizing c found with
  | ind n ih =>
  subst hn
  have hblanks := scans_takeRun (c := c) Token.isSpace
  generalize hw : (c.rest.takeWhile Token.isSpace).length = w at hblanks
  have hscan : Token.scanFrom c.kept 0 c.rest =
      Token.scanFrom (c.past w).kept 0 (c.past w).rest := by
    rw [scanFrom_blanks, Cursor.rest_past, ← hw, Token.drop_length_takeWhile, Cursor.past,
      Token.take_length_takeWhile]
  rw [hscan]
  have hround : exec (tokensRound found) c = exec (do
      match ← current with
      | none => return .inr found.reverse
      | some a =>
        let t ← piece a
        return .inl (t.toList ++ found)) (c.past w) := by
    rw [tokensRound, exec_bind_ok hblanks.2]
  rw [exec_bind_ok exec_current] at hround
  cases hrest : (c.past w).rest with
  | nil =>
    rw [hrest] at hround
    have hw' : w = c.rest.length := by
      rw [Cursor.rest_past, List.drop_eq_nil_iff] at hrest
      exact Nat.le_antisymm hblanks.1 hrest
    refine ⟨Nat.le_refl _, ?_⟩
    rw [exec_bind_ok (loop_done hround), withEnd, exec_bind_ok exec_here, hw']
    rfl
  | cons a r =>
    have hspace : Token.isSpace a = false := by
      rw [Cursor.rest_past, ← hw, Token.drop_length_takeWhile] at hrest
      have hnot := List.head?_dropWhile_not Token.isSpace c.rest
      rw [hrest] at hnot
      simpa using hnot
    have hpiece := (scans_piece hrest hspace).map fun t =>
      (Sum.inl (t.toList ++ found) : List Token ⊕ List Token)
    rw [hrest] at hround
    have hround' := Scans.of_exec hround hblanks.1 hpiece
    rw [scanFrom_outcome]
    cases ho : outcome (c.past w).kept (Token.piece a r) with
    | error f =>
      rw [ho] at hround'
      obtain ⟨n, hn, hexec⟩ := hround'
      exact ⟨n, hn, exec_bind_error (loop_error hexec) _⟩
    | ok x =>
      obtain ⟨t, n⟩ := x
      rw [ho] at hround'
      replace hround' : Scans (tokensRound found) c (.ok (.inl (t.toList ++ found), w + n)) := by
        rwa [Nat.add_comm]
      have hpos : 0 < w + n := Nat.lt_add_left w (outcome_pos ho)
      have hshort : (c.past (w + n)).rest.length < c.rest.length := by
        rw [Cursor.rest_past, List.length_drop]
        have := hround'.1
        omega
      have hmore := scans_tokensLoop_more hpos hround' (ih _ hshort _ rfl)
      have hkept : (c.past (w + n)).kept = (c.past w).kept.after ((a :: r).take n) := by
        rw [← Cursor.past_past, Cursor.past, hrest]
      have hbehind : (c.past (w + n)).rest = (a :: r).drop n := by
        rw [← Cursor.past_past, Cursor.rest_past, hrest]
      have hreverse : t.toList.reverse = t.toList := by cases t <;> rfl
      rw [hkept, hbehind, List.reverse_append, hreverse] at hmore
      simp only [Except.bind]
      cases hts : Token.scanFrom ((c.past w).kept.after ((a :: r).take n)) 0 ((a :: r).drop n) with
      | error f => rwa [hts] at hmore
      | ok ts =>
        rw [hts] at hmore
        simpa only [Except.map, List.append_assoc] using hmore

/-- **The scanner stops on every source** and takes no character that is not there. -/
theorem scans_tokens :
    Scans tokens c ((Token.scanFrom c.kept 0 c.rest).map fun ts => (ts, c.rest.length)) :=
  scans_tokensLoop []

end Scanner

end ContractInterface
