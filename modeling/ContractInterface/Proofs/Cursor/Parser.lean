import ContractInterface.Proofs.Cursor.Types
import ContractInterface.Proofs.Grammar.Stops

/-!
# The parser as a program that moves a cursor

Every function of the parser works on the token at its cursor.  Each follows the reader of its name
(`Parser.Follows`): modifiers, bodies and declarations by loops, units in the presence of the
contracts that are complete.  So the parser stops on every list that ends with the end mark,
whatever stands in front of it, more end marks included.

    Stops contracts c (contracts c.kept c.rest)      from a cursor with the end mark in front of it
                                                                                  (stops_contracts)
-/

namespace ContractInterface

open Run Contract.Parse
open Grammar (headKind)

namespace Parser

variable {α : Type} {known : List String} {n : Nat} {c : Cursor Token (List String)} {t : Token}
  {us : List Token}

/-! ## Functions -/

/-- A type behind a colon, if there is a colon. -/
noncomputable def ascription : Parser (Option TypeExpr) := do
  if ← accept .colon then some <$> typeExpr else return none

noncomputable def param : Parser Param := do
  let name ← expect .identifier
  let type ← ascription
  return ⟨.named name.name, type, some name.pos⟩

noncomputable def params : Parser (List Param) := do
  let _ ← expect .lparen
  if ← accept .rparen then return []
  let ps ← separated .comma param
  let _ ← expect .rparen
  return ps

/-- Take a token of the body inside `depth` brackets, or end where it ends. -/
def bodyRound : List Token × Nat → Parser (List Token × Nat ⊕ List Token × Nat)
  | (taken, depth) => do
    let t ← current
    if t.kind = .finish then return .inr (taken, depth)
    else if depth = 0 && (t.kind.startsDecl || t.kind = .kwContract) then
      return .inr (taken, depth)
    else if t.kind.isOpener then
      let t ← advance
      return .inl (t :: taken, depth + 1)
    else if t.kind.isCloser then
      match depth with
      | 0 => halt t.pos (.unbalanced t)
      | depth + 1 =>
        let t ← advance
        return .inl (t :: taken, depth)
    else
      let t ← advance
      return .inl (t :: taken, depth)

/-- What has been taken is a body unless a bracket is open or there is nothing. -/
def bodyEnd : List Token × Nat → Parser (List Token)
  | (taken, depth) => do
    if 0 < depth then
      let t ← current
      halt t.pos .unclosed
    else if taken = [] then unexpected .functionBody
    else return taken.reverse

noncomputable def body : Parser (List Token) := do
  let x ← loop bodyRound ([], 0)
  bodyEnd x

def modifier : Parser TokenKind := do
  let t ← advance
  return t.kind

/-- A function, which starts with a modifier or the keyword. -/
noncomputable def functionDef : Parser FunctionDef := do
  let start ← current
  let ms ← many TokenKind.isModifier modifier
  let _ ← expect .kwFunction
  let name ← expect .identifier
  let ps ← params
  let result ← ascription
  let _ ← expect .eq
  let tokens ← body
  return ⟨name.name, ps, result, tokens, ms.contains .kwPrivate, ms.contains .kwStateful,
    some start.pos⟩

theorem follows_ascription {f : Option TypeExpr → Parser α}
    {q : Option TypeExpr → Reader α} (h : ∀ o, Follows known n (f o) (q o)) :
    Follows known n (ascription >>= f) (Reader.accept .colon >>= fun b =>
      if b = true then some <$> (Contract.Parse.typeExpr : Reader TypeExpr) >>= q
      else pure none >>= q) := by
  have hassoc : (Reader.accept .colon >>= fun b =>
      if b = true then some <$> (Contract.Parse.typeExpr : Reader TypeExpr) >>= q
      else pure none >>= q) = (Reader.accept .colon >>= fun b =>
        if b = true then some <$> (Contract.Parse.typeExpr : Reader TypeExpr)
        else pure none) >>= q := by
    rw [bind_assoc]
    exact congrArg (Reader.accept .colon >>= ·) (funext fun b => by cases b <;> rfl)
  rw [hassoc]
  exact (Follows.accept (by decide) (fun _ _ => follows_typeExpr.map some) (.pure none)).bind h

theorem follows_param : Follows known n param Contract.Parse.param :=
  (Follows.expect (by decide)).bind fun name => follows_ascription fun type =>
    .pure (Param.mk (.named name.name) type (some name.pos))

theorem follows_params : Follows known n params Contract.Parse.params :=
  (Follows.expect (by decide)).bind fun _ => .accept (by decide) (fun _ _ => .pure [])
    ((follows_param.separated (by decide)).bind fun ps =>
      (Follows.expect (by decide)).bind fun _ => .pure ps)

/-- A round of a body as a reader. -/
def bodyStep : List Token × Nat → Reader (List Token × Nat ⊕ List Token × Nat)
  | (taken, depth) => do
    let t ← Reader.peek
    if t.kind = .finish then return .inr (taken, depth)
    else if depth = 0 && (t.kind.startsDecl || t.kind = .kwContract) then
      return .inr (taken, depth)
    else if t.kind.isOpener then
      let t ← Reader.take
      return .inl (t :: taken, depth + 1)
    else if t.kind.isCloser then
      match depth with
      | 0 => Reader.fail (.unbalanced t)
      | depth + 1 =>
        let t ← Reader.take
        return .inl (t :: taken, depth)
    else
      let t ← Reader.take
      return .inl (t :: taken, depth)

theorem follows_bodyRound (x : List Token × Nat) : Follows known n (bodyRound x) (bodyStep x) := by
  obtain ⟨taken, depth⟩ := x
  intro c hc _ _
  refine .peek hc fun us h => ?_
  have htake (ht : (Reader.head c.rest).kind ≠ .finish) (d : Nat) : FollowsAt (do
      let t ← advance
      return .inl (t :: taken, d) : Parser (List Token × Nat ⊕ List Token × Nat)) (do
      let t ← Reader.take
      return .inl (t :: taken, d)) c := .take hc h ht fun hend => .pure hend _
  split
  · exact .pure hc _
  · next ht =>
    split
    · exact .pure hc _
    split
    · exact htake ht _
    split
    · cases depth with
      | zero => exact .fail hc h _
      | succ depth => exact htake ht depth
    · exact htake ht depth

def bodyClose (x : List Token × Nat) : Reader (List Token) :=
  if 0 < x.2 then Reader.fail .unclosed
  else if x.1 = [] then Reader.unexpected .functionBody
  else return x.1.reverse

theorem length_drop_le (m : Nat) (ts : List Token) : (ts.drop m).length ≤ ts.length :=
  (List.drop_sublist m ts).length_le

/-- The rest of a body behind the tokens `x.1`, inside `x.2` brackets. -/
def bodyFrom (x : List Token × Nat) : Reader (List Token) := fun ts =>
  match bodyLength x.2 ts with
  | .error e => .error e
  | .ok n =>
    if x.1 = [] ∧ n = 0 then Reader.unexpected .functionBody ts
    else .ok ⟨x.1.reverse ++ ts.take n, ts.drop n, length_drop_le n ts⟩

theorem bodyFrom_nothing : bodyFrom ([], 0) = Contract.Parse.body := by
  funext ts
  unfold bodyFrom Contract.Parse.body
  simp only
  cases bodyLength 0 ts with
  | error e => rfl
  | ok n => cases n <;> rfl

/-- A body that ends here, or is left open. -/
theorem bodyFrom_close {taken ts : List Token} {d : Nat}
    (h : bodyLength d ts = if d = 0 then .ok 0 else .error ⟨(Reader.head ts).pos, .unclosed⟩) :
    bodyFrom (taken, d) ts = bodyClose (taken, d) ts := by
  unfold bodyFrom bodyClose
  cases d with
  | zero =>
    simp only [h, if_true, Nat.lt_irrefl, if_false, and_true]
    by_cases htaken : taken = []
    · rw [if_pos htaken, if_pos htaken]
    · simp only [htaken, if_false, List.take_zero, List.append_nil]
      rfl
  | succ d =>
    simp only [h, Nat.succ_ne_zero, Nat.succ_pos, if_true, if_false]
    rfl

theorem bodyFrom_more {taken : List Token} {d d' : Nat}
    (h : bodyLength d (t :: us) = (bodyLength d' us).map (· + 1)) :
    bodyFrom (taken, d) (t :: us) = Reader.behind (bodyFrom (t :: taken, d') us) := by
  unfold bodyFrom
  simp only [h]
  cases bodyLength d' us with
  | error e => rfl
  | ok n => simp [Except.map, Reader.behind]

theorem bodyFrom_eq (x : List Token × Nat) :
    bodyFrom x = bodyStep x >>= Sum.elim bodyFrom bodyClose := by
  obtain ⟨taken, d⟩ := x
  funext ts
  rw [bodyStep, bind_assoc, Grammar.peek_bind]
  have hclose (h : bodyLength d ts = if d = 0 then .ok 0
      else .error ⟨(Reader.head ts).pos, .unclosed⟩) : bodyFrom (taken, d) ts =
        (pure (.inr (taken, d)) >>= Sum.elim bodyFrom bodyClose : Reader (List Token)) ts := by
    rw [pure_bind]
    exact bodyFrom_close h
  cases ts with
  | nil =>
    have hhead : (Reader.head []).kind = .finish := rfl
    rw [if_pos hhead]
    exact hclose (bodyLength.eq_def d [])
  | cons t us =>
    have hlength := bodyLength.eq_def d (t :: us)
    simp only at hlength
    have htake {d' : Nat} (h : bodyLength d (t :: us) = (bodyLength d' us).map (· + 1)) :
        bodyFrom (taken, d) (t :: us) = ((Reader.take >>= fun t => pure (.inl (t :: taken, d'))) >>=
          Sum.elim bodyFrom bodyClose) (t :: us) := by
      rw [bind_assoc, Reader.take_bind, bodyFrom_more h]
      simp only [pure_bind, Sum.elim_inl]
    have hhead : Reader.head (t :: us) = t := rfl
    rw [hhead]
    by_cases hf : t.kind = .finish
    · rw [if_pos hf] at hlength ⊢
      exact hclose hlength
    by_cases hs : (decide (d = 0) && (t.kind.startsDecl || t.kind = .kwContract)) = true
    · have hd : d = 0 := by
        rw [Bool.and_eq_true, decide_eq_true_iff] at hs
        exact hs.1
      rw [if_neg hf, if_pos hs] at hlength ⊢
      exact hclose (by rw [hlength, if_pos hd])
    by_cases ho : t.kind.isOpener = true
    · rw [if_neg hf, if_neg hs, if_pos ho] at hlength ⊢
      exact htake hlength
    by_cases hc : t.kind.isCloser = true
    · rw [if_neg hf, if_neg hs, if_neg ho, if_pos hc] at hlength ⊢
      cases d with
      | zero =>
        unfold bodyFrom
        simp only [hlength]
        rfl
      | succ d => exact htake hlength
    · rw [if_neg hf, if_neg hs, if_neg ho, if_neg hc] at hlength ⊢
      exact htake hlength

theorem length_lt_of_bodyStep {x y : List Token × Nat} {ts rest : List Token}
    (h : Reads (bodyStep x) ts (.inl y) rest) : rest.length < ts.length := by
  obtain ⟨taken, d⟩ := x
  rw [bodyStep] at h
  obtain ⟨t, us, hpeek, h⟩ := Reads.bind_iff.1 h
  obtain ⟨rfl, rfl⟩ := Reads.peek_iff.1 hpeek
  split at h
  · cases (Reads.pure_iff.1 h).1
  · next hf =>
    split at h
    · cases (Reads.pure_iff.1 h).1
    split at h
    · exact Reader.length_lt_of_reads_take h hf
    split at h
    · cases d with
      | zero => exact (Reads.fail_iff.1 h).elim
      | succ d => exact Reader.length_lt_of_reads_take h hf
    · exact Reader.length_lt_of_reads_take h hf

theorem follows_bodyEnd (x : List Token × Nat) : Follows known n (bodyEnd x) (bodyClose x) := by
  obtain ⟨taken, depth⟩ := x
  refine .ite (fun _ c hc _ _ => ?_) fun _ => .ite (fun _ => .unexpected _) fun _ => .pure _
  obtain ⟨t, us, h⟩ := hc.exists_rest
  exact (FollowsAt.fail hc h .unclosed).congr (exec_bind_ok (exec_current h) _) rfl

theorem follows_body : Follows known n body Contract.Parse.body := by
  rw [← bodyFrom_nothing]
  exact Follows.loop_bind follows_bodyRound (fun _ _ _ _ => length_lt_of_bodyStep) follows_bodyEnd
    bodyFrom_eq ([], 0)

theorem modifiers_cons (ht : t.kind.isModifier = true) (us : List Token) :
    modifiers (t :: us) = Reader.behind (((t.kind :: ·) <$> modifiers : Reader _) us) := by
  unfold modifiers
  simp only [List.takeWhile_cons_of_pos (p := fun t : Token => t.kind.isModifier) ht]
  rfl

theorem modifiers_of_not {ts : List Token} (ht : ¬(headKind ts).isModifier = true) :
    modifiers ts = (pure [] : Reader (List TokenKind)) ts := by
  cases ts with
  | nil => rfl
  | cons t us =>
    have ht' : ¬t.kind.isModifier = true := ht
    unfold modifiers
    simp only [List.takeWhile_cons_of_neg (p := fun t : Token => t.kind.isModifier) ht']
    rfl

theorem follows_modifiers : Follows known n (many TokenKind.isModifier modifier) modifiers := by
  refine Follows.many (q := fun t => pure t.kind) rfl ?_ ?_ fun _ => modifiers_of_not
  · intro c t us hc _ h ht
    refine .take hc h ?_ fun hend => .pure hend _
    intro hf
    rw [hf] at ht
    cases ht
  · intro t us ht
    rw [pure_bind]
    exact modifiers_cons ht us

/-- The reader for a function, its first token included. -/
def functionWhole : Reader FunctionDef := do
  let start ← Reader.peek
  let ms ← modifiers
  let _ ← Reader.expect .kwFunction
  functionRest start.pos ms

theorem follows_functionDef : Follows known n functionDef functionWhole :=
  .peek fun start => follows_modifiers.bind fun ms => (Follows.expect (by decide)).bind fun _ =>
    (Follows.expect (by decide)).bind fun name => follows_params.bind fun ps =>
      follows_ascription fun result => (Follows.expect (by decide)).bind fun _ =>
        follows_body.bind fun tokens => .pure _

theorem functionWhole_cons (ht : t.kind.isModifier = true ∨ t.kind = .kwFunction) :
    functionWhole (t :: us) = Reader.behind (Contract.Parse.functionDef t us) := by
  have hhead : Reader.head (t :: us) = t := rfl
  rw [functionWhole, Grammar.peek_bind, hhead, Contract.Parse.functionDef]
  by_cases hk : t.kind = .kwFunction
  · have hnot : ¬(headKind (t :: us)).isModifier = true := by
      rw [headKind, hhead, hk]
      decide
    rw [if_pos hk, Reader.bind_congr_at (modifiers_of_not hnot), pure_bind, Reader.expect_bind hk]
  · have hmodifiers := modifiers_cons (ht.resolve_right hk) us
    rw [← Reader.take_bind t us fun t => (t.kind :: ·) <$> modifiers] at hmodifiers
    rw [if_neg hk, Reader.bind_congr_at hmodifiers, bind_assoc, Reader.take_bind, bind_map_left]

/-! ## Declarations and contracts -/

/-- A declaration that starts with a token of this kind. -/
noncomputable def declOf : TokenKind → Parser Decl
  | .kwType => do
    let start ← advance
    Decl.typeDef <$> aliasDef start.pos
  | .kwRecord => do
    let start ← advance
    Decl.typeDef <$> recordDef start.pos
  | .kwDatatype => do
    let start ← advance
    Decl.typeDef <$> datatypeDef start.pos
  | _ => Decl.function <$> functionDef

noncomputable def decl : Parser Decl := do
  let t ← current
  declOf t.kind

theorem isModifier_of_startsDecl {k : TokenKind} (h : k.startsDecl = true)
    (hk : k ≠ .kwType ∧ k ≠ .kwRecord ∧ k ≠ .kwDatatype) :
    k.isModifier = true ∨ k = .kwFunction := by
  cases k <;> simp_all [TokenKind.startsDecl, TokenKind.isModifier]

theorem follows_decl (hc : c.Ended) (hkept : c.kept = known) (h : c.rest = t :: us)
    (ht : t.kind.startsDecl = true) :
    FollowsAt decl (Reader.take >>= Contract.Parse.decl known) c := by
  have hexec : exec decl c = exec (declOf t.kind) c := exec_bind_ok (exec_current h) _
  have hdecl := Contract.Parse.decl.eq_def known t
  -- a keyword of a type definition is taken here, a function takes its own
  have hkeyword {m : Token → Parser Decl} {p : Reader Decl} (hm : declOf t.kind = advance >>= m)
      (hp : Contract.Parse.decl known t = p) (hfollows : Follows known c.rest.length (m t) p) :
      FollowsAt decl (Reader.take >>= Contract.Parse.decl known) c := by
    have hf : t.kind ≠ .finish := by
      intro hf
      rw [hf] at ht
      cases ht
    refine FollowsAt.congr (.take hc h hf fun hend => ?_) (by rw [hexec, hm]) rfl
    rw [hp]
    exact hfollows _ hend hkept (Nat.le_of_lt hc.length_lt)
  by_cases hy : t.kind = .kwType
  · rw [hy] at hdecl
    exact hkeyword (by rw [hy]; rfl) hdecl ((follows_aliasDef _).map _)
  by_cases hr : t.kind = .kwRecord
  · rw [hr] at hdecl
    exact hkeyword (by rw [hr]; rfl) hdecl ((follows_recordDef _).map _)
  by_cases hd : t.kind = .kwDatatype
  · rw [hd] at hdecl
    exact hkeyword (by rw [hd]; rfl) hdecl ((follows_datatypeDef _).map _)
  have hwhole : functionWhole (t :: us) = _ :=
    functionWhole_cons (isModifier_of_startsDecl ht ⟨hy, hr, hd⟩)
  rw [← Reader.take_bind] at hwhole
  have hof : declOf t.kind = Decl.function <$> functionDef := by
    unfold declOf
    simp only
  refine ((follows_functionDef.map Decl.function) c hc hkept (Nat.le_refl _)).congr
    (by rw [hexec, hof]) ?_
  rw [h, map_eq_pure_bind, Reader.bind_congr_at hwhole, bind_assoc, Reader.take_bind,
    Reader.take_bind, hdecl]
  simp only
  rfl

/-- A contract, up to the next one or the end. -/
noncomputable def contractText : Parser Contract := do
  let start ← expect .kwContract
  let name ← expect .con
  let _ ← expect .eq
  let ds ← many TokenKind.startsDecl decl
  let next ← current
  if next.kind = .kwContract || next.kind = .finish then
    return ⟨name.name, ds, some start.pos⟩
  else unexpected .declaration

/-- A contract, which is complete from then on. -/
noncomputable def contract : Parser Contract := do
  let c ← contractText
  modify fun x => { x with kept := c.name.text :: x.kept }
  return c

/-- At least one contract is wanted. -/
def contractsEnd (cs : List Contract) : Parser (List Contract) :=
  if cs = [] then unexpected (.token .kwContract) else return cs

/-- One contract after the other up to the end mark. -/
noncomputable def contracts : Parser (List Contract) := do
  let cs ← many (· != .finish) contract
  contractsEnd cs

theorem follows_decls : Follows known n (many TokenKind.startsDecl decl) (decls known) := by
  refine Follows.many rfl (fun _ _ _ => follows_decl) (fun _ us ht => Grammar.decls_cons ht us) ?_
  intro ts ht
  rw [decls.eq_def]
  cases ts with
  | nil => rfl
  | cons t us => exact if_neg ht

theorem follows_contractText : Follows known n contractText
    (Reader.expect .kwContract >>= fun start => Contract.Parse.contract known start.pos) :=
  (Follows.expect (by decide)).bind fun start => (Follows.expect (by decide)).bind fun name =>
    (Follows.expect (by decide)).bind fun _ => follows_decls.bind fun ds => .peek fun next =>
      .ite (fun _ => .pure _) fun _ => .unexpected _

/-! ## Units -/

/-- What comes of the rest of a unit behind the contracts `taken`. -/
def contractsFrom (known : List String) (taken : List Contract) (ts : List Token) :
    Except Failure (List Contract) :=
  if taken ≠ [] ∧ headKind ts = .finish then .ok taken.reverse
  else (Contract.Parse.contracts known ts).map (taken.reverse ++ ·)

/-- The first contract decides how a unit goes on. -/
theorem contracts_cons (known : List String) (t : Token) (us : List Token) :
    Contract.Parse.contracts known (t :: us) =
      match (Reader.expect .kwContract >>= fun start => Contract.Parse.contract known start.pos)
        (t :: us) with
      | .error f => .error f
      | .ok ⟨x, rest, _⟩ => contractsFrom (x.name.text :: known) [x] rest := by
  rw [Contract.Parse.contracts.eq_def]
  by_cases ht : t.kind = .kwContract
  · simp only [if_pos ht, Reader.expect_bind ht]
    cases Contract.Parse.contract known t.pos us with
    | error f => rfl
    | ok y =>
      obtain ⟨x, rest, hle⟩ := y
      simp only [Reader.behind, contractsFrom, headKind, ne_eq, List.cons_ne_nil, not_false_eq_true,
        true_and]
      split
      · rfl
      · cases Contract.Parse.contracts (x.name.text :: known) rest <;> rfl
  · have hexpect : (Reader.expect .kwContract >>= fun start =>
        Contract.Parse.contract known start.pos) (t :: us) =
          .error ⟨t.pos, .unexpected t (.token .kwContract)⟩ := by
      refine Grammar.bind_eq_error_iff.2 (.inl ?_)
      rw [Reader.expect, if_neg ht]
      rfl
    simp only [if_neg ht, hexpect]

theorem contractsFrom_cons {taken : List Contract} {x : Contract} {rest : List Token}
    (ht : t.kind ≠ .finish)
    (h : Reads (Reader.expect .kwContract >>= fun start => Contract.Parse.contract known start.pos)
      (t :: us) x rest) :
    contractsFrom known taken (t :: us) =
      contractsFrom (x.name.text :: known) (x :: taken) rest := by
  obtain ⟨hle, hx⟩ := h
  have hnot : ¬(taken ≠ [] ∧ headKind (t :: us) = .finish) := fun h => ht h.2
  rw [contractsFrom, if_neg hnot, contracts_cons, hx]
  simp only [contractsFrom, ne_eq, List.cons_ne_nil, not_false_eq_true, true_and]
  split
  · simp [Except.map]
  · cases Contract.Parse.contracts (x.name.text :: known) rest <;> simp [Except.map]

/-- From `c` the parser stops with this outcome, on a token of the list. -/
def Stops (m : Parser α) (c : Cursor Token (List String)) (res : Except Failure α) : Prop :=
  ∃ o names, o < c.input.length ∧
    exec m c = some (res.mapError .failure, { c with offset := o, kept := names })

/-- At the end mark the unit is complete, unless there is no contract. -/
theorem stops_contractsEnd (hc : c.Ended) (h : c.rest = t :: us) (ht : t.kind = .finish)
    (taken : List Contract) :
    Stops (contractsEnd taken.reverse) c (contractsFrom c.kept taken c.rest) := by
  refine ⟨c.offset, c.kept, hc.inside, ?_⟩
  rw [h, contractsFrom, contractsEnd]
  by_cases htaken : taken = []
  · have hnot : t.kind ≠ .kwContract := by
      rw [ht]
      decide
    have hcontracts : Contract.Parse.contracts c.kept (t :: us) =
        .error ⟨t.pos, .unexpected t (.token .kwContract)⟩ := by
      rw [Contract.Parse.contracts.eq_def]
      simp only [if_neg hnot]
    rw [if_pos (by rw [htaken]; rfl), if_neg (fun h => h.1 htaken), hcontracts, unexpected,
      exec_bind_ok (exec_current h)]
    rfl
  · rw [if_neg (by simpa using htaken), if_pos ⟨htaken, ht⟩]
    rfl

/-- The rest of a unit is read contract by contract. -/
theorem stops_contractsLoop (hc : c.Ended) (taken : List Contract) :
    Stops (loop (manyRound (· != .finish) contract) taken >>= contractsEnd) c
      (contractsFrom c.kept taken c.rest) := by
  induction hn : c.rest.length using Nat.strongRecOn generalizing c taken with
  | ind n ih =>
  subst hn
  obtain ⟨t, us, h⟩ := hc.exists_rest
  by_cases hf : t.kind = .finish
  · have hround : exec (manyRound (· != .finish) contract taken) c =
        some (.ok (.inr taken.reverse), c) := by
      rw [manyRound, exec_bind_ok (exec_current h), if_neg (by simpa using hf), exec_pure]
    obtain ⟨o, names, ho, hexec⟩ := stops_contractsEnd hc h hf taken
    exact ⟨o, names, ho, (exec_bind_ok (loop_done hround) _).trans hexec⟩
  have hround : exec (manyRound (· != .finish) contract taken) c =
      exec (contract >>= fun x => pure (.inl (x :: taken))) c := by
    rw [manyRound, exec_bind_ok (exec_current h), if_pos (by simpa using hf)]
  have hfollows : Follows c.kept c.rest.length contractText _ := follows_contractText
  cases hfollows c hc rfl (Nat.le_refl _) with
  | @value x o ho hread hexec =>
    let next : Cursor Token (List String) := { c.moved o with kept := x.name.text :: c.kept }
    have hnext : next.Ended := ⟨ho, hc.last⟩
    have hcontract : exec contract c = some (.ok x, next) := by
      rw [contract, exec_bind_ok hexec, exec_bind_ok (exec_modify _), exec_pure]
      rfl
    have hshort : (c.moved o).rest.length < c.rest.length := by
      obtain ⟨start, vs, hstart, hrest⟩ := Reads.bind_iff.1 hread
      rw [(Reads.expect_iff.1 hstart).1]
      exact Nat.lt_succ_of_le hrest.length_le
    rw [exec_bind_ok hcontract, exec_pure] at hround
    have hfrom : contractsFrom c.kept taken c.rest =
        contractsFrom next.kept (x :: taken) next.rest := by
      rw [h] at hread ⊢
      exact contractsFrom_cons hf hread
    obtain ⟨o', names, ho', hexec'⟩ := ih _ hshort hnext (x :: taken) rfl
    refine ⟨o', names, ho', ?_⟩
    rw [exec_bind, loop_more hround (Cursor.offset_lt hshort), ← exec_bind, hfrom]
    exact hexec'
  | @failure f o ho hfail hexec =>
    have hcontract : exec contract c = some (.error (.failure f), c.moved o) :=
      exec_bind_error hexec _
    refine ⟨o, c.kept, ho, ?_⟩
    rw [exec_bind_error (loop_error (hround.trans (exec_bind_error hcontract _)))]
    rw [h] at hfail
    rw [h, contractsFrom, if_neg (fun h => hf h.2), contracts_cons, hfail]
    rfl

/-- **The parser stops wherever the last token is the end mark** and stays on the list. -/
theorem stops_contracts (hc : c.Ended) :
    Stops contracts c (Contract.Parse.contracts c.kept c.rest) := by
  obtain ⟨o, names, ho, hexec⟩ := stops_contractsLoop hc []
  have hfrom : contractsFrom c.kept [] c.rest = Contract.Parse.contracts c.kept c.rest := by
    rw [contractsFrom, if_neg (fun h => h.1 rfl)]
    cases Contract.Parse.contracts c.kept c.rest <;> rfl
  exact ⟨o, names, ho, by rw [contracts, many, hexec, hfrom]⟩

end Parser

end ContractInterface
