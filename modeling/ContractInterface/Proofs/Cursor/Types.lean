import ContractInterface.Proofs.Cursor.Follows

/-!
# Types and type definitions with a cursor

A type is read by recursion into its parentheses, as deep as they go: `typeUpTo` allows a number of
calls inside each other, `typeExpr` is what ever more of them come to.  The calls inside begin
behind the token that opens the parentheses, so more calls than tokens change nothing.  The lists of
parameters, fields and constructors are read by loops.  Each function follows the reader of its
name.
-/

namespace ContractInterface

open Run Contract.Parse
open Grammar (headKind)

namespace Parser

variable {known : List String} {n : Nat} {c : Cursor Token (List String)} {t : Token}
  {us : List Token}

/-! ## Types -/

/-- A parenthesised type is no argument of a function type. -/
def closed (type : TypeExpr) : Parser TypeExpr := do
  let t ← current
  if t.kind = .arrow then halt t.pos .functionType else return type

/-- The types between two parentheses, at least one. -/
noncomputable def typeArgsOf (self : Parser TypeExpr) : Parser (List TypeExpr) := do
  let start ← offset
  let _ ← expect .lparen
  again start
  let args ← chained .comma self
  let _ ← expect .rparen
  return args

/-- The type that starts with the token `t`, which stands at `start`; `self` is for those inside. -/
noncomputable def typeForm (self : Parser TypeExpr) (start : Nat) (t : Token) : Parser TypeExpr :=
  match t.kind with
  | .tvar => do
    let _ ← advance
    return .var t.name
  | .identifier => do
    let _ ← advance
    let next ← current
    if next.kind = .lparen then
      again start
      let args ← typeArgsOf self
      return .app (.named t.name) args
    else return .named t.name
  | .con => do
    let _ ← advance
    return .contract t.name
  | .lparen => do
    let _ ← advance
    let next ← current
    if next.kind = .rparen then
      let _ ← advance
      closed (.tuple [])
    else
      again start
      let args ← chained .comma self
      let _ ← expect .rparen
      closed (grouped args)
  | _ => unexpected .type

noncomputable def typeStep (self : Parser TypeExpr) : Parser TypeExpr := do
  let start ← offset
  let t ← current
  let type ← typeForm self start t
  again start
  return type

/-- A type, with fewer than `n` calls inside each other. -/
noncomputable def typeUpTo : Nat → Parser TypeExpr
  | 0 => endless
  | n + 1 => typeStep (typeUpTo n)

/-- A type, however deep. -/
noncomputable def typeExpr : Parser TypeExpr := limit typeUpTo

noncomputable def typeArgs : Parser (List TypeExpr) := typeArgsOf typeExpr

/-! ### Deeper calls -/

section

variable {self self' : Parser TypeExpr}

theorem within_chained (h : Within self self') (k : TokenKind) :
    Within (chained k self) (chained k self') := by
  refine h.bind fun first => .loop (fun taken => (Within.refl _).bind fun b => ?_) _
  split
  · exact h.bind fun _ => .refl _
  · exact .refl _

theorem within_typeArgsOf (h : Within self self') : Within (typeArgsOf self) (typeArgsOf self') :=
  (Within.refl _).bind fun _ => (Within.refl _).bind fun _ => (Within.refl _).bind fun _ =>
    (within_chained h _).bind fun _ => .refl _

theorem within_typeForm (h : Within self self') (start : Nat) (t : Token) :
    Within (typeForm self start t) (typeForm self' start t) := by
  unfold typeForm
  split
  -- only a lower-case name and a parenthesis call `self`
  case h_2 =>
    refine (Within.refl _).bind fun _ => (Within.refl _).bind fun next => ?_
    split
    · exact (Within.refl _).bind fun _ => (within_typeArgsOf h).bind fun _ => .refl _
    · exact .refl _
  case h_4 =>
    refine (Within.refl _).bind fun _ => (Within.refl _).bind fun next => ?_
    split
    · exact .refl _
    · exact (Within.refl _).bind fun _ => (within_chained h _).bind fun _ => .refl _
  all_goals exact .refl _

theorem within_typeStep (h : Within self self') : Within (typeStep self) (typeStep self') :=
  (Within.refl _).bind fun start => (Within.refl _).bind fun t =>
    (within_typeForm h start t).bind fun _ => .refl _

end

theorem within_typeUpTo (n : Nat) : Within (typeUpTo n) (typeUpTo (n + 1)) := by
  induction n with
  | zero => exact .endless _
  | succ n ih => exact within_typeStep ih

/-! ### Following the readers -/

theorem follows_closed (type : TypeExpr) :
    Follows known n (closed type) (Contract.Parse.closed type) := by
  intro c hc _ _
  refine .peek hc fun us hrest => ?_
  split
  · exact .fail hc hrest .functionType
  · exact .pure hc type

/-- The reader for types takes a token. -/
theorem length_lt_of_reads_typeExpr {ts rest : List Token} {a : TypeExpr}
    (h : Reads Contract.Parse.typeExpr ts a rest) : rest.length < ts.length := by
  obtain ⟨d, rfl, -⟩ := Grammar.typeExpr_sound h
  cases d <;> simp only [Grammar.TypeTree.tokens, List.length_append, List.length_cons] <;> omega

section

variable {self : Parser TypeExpr}

theorem follows_types (h : Follows known n self Contract.Parse.typeExpr) :
    Follows known n (chained .comma self) Contract.Parse.types := by
  rw [Grammar.types_eq_sepBy]
  exact h.chained (by decide)

theorem follows_typeArgsOf (h : Follows known n self Contract.Parse.typeExpr) :
    Follows known n (typeArgsOf self) Contract.Parse.typeArgs := by
  intro c hc hkept hlength
  refine .offset ((FollowsAt.expect hc (by decide)).bind hc fun t o hread hend => ?_)
  obtain ⟨hrest, -⟩ := Reads.expect_iff.1 hread
  refine .again (Cursor.offset_lt (by rw [hrest]; exact Nat.lt_succ_self _)) ?_
  exact ((follows_types h).bind fun args => (Follows.expect (by decide)).bind fun _ => .pure args)
    _ hend hkept (Nat.le_trans hread.length_le hlength)

/-- What follows a lower-case name is told by the token behind it. -/
theorem applied_apply (name : Name) (ts : List Token) : Grammar.applied name ts = (do
    let next ← Reader.peek
    if next.kind = .lparen then
      let args ← Contract.Parse.typeArgs
      return .app (.named name) args
    else return .named name : Reader TypeExpr) ts := by
  rw [Grammar.peek_bind]
  by_cases hk : headKind ts = .lparen
  · cases ts with
    | nil => cases hk
    | cons t us =>
      have ht : t.kind = .lparen := hk
      rw [headKind] at hk
      rw [if_pos hk, Grammar.applied, Reader.accept_bind ht, Contract.Parse.typeArgs, bind_assoc,
        Reader.expect_bind ht]
      simp only [bind_assoc, pure_bind, if_true]
  · rw [Grammar.applied, Reader.accept_bind_of_ne hk]
    rw [headKind] at hk
    rw [if_neg hk]
    rfl

theorem follows_applied (hc : c.Ended) (hkept : c.kept = known) {start : Nat}
    (hstart : start < c.offset) (name : Name)
    (hself : Follows known c.rest.length self Contract.Parse.typeExpr) :
    FollowsAt (do
      let next ← current
      if next.kind = .lparen then
        again start
        let args ← typeArgsOf self
        return .app (.named name) args
      else return .named name) (Grammar.applied name) c := by
  refine FollowsAt.congr (.peek hc fun _ _ => ?_) rfl (applied_apply name c.rest)
  split
  · exact .again hstart (((follows_typeArgsOf hself).bind fun args => .pure _) c hc hkept
      (Nat.le_refl _))
  · exact .pure hc _

theorem follows_enclosed (hc : c.Ended) (hkept : c.kept = known) {start : Nat}
    (hstart : start < c.offset) (hself : Follows known c.rest.length self Contract.Parse.typeExpr) :
    FollowsAt (do
      let next ← current
      if next.kind = .rparen then
        let _ ← advance
        closed (.tuple [])
      else
        again start
        let args ← chained .comma self
        let _ ← expect .rparen
        closed (grouped args)) Grammar.enclosed c := by
  refine .peek hc fun us hrest => ?_
  split
  · next hk =>
    exact (FollowsAt.advance hc (by decide) hrest hk).bind hc fun _ _ hread hend =>
      follows_closed _ _ hend hkept (Nat.le_trans hread.length_le (Nat.le_refl _))
  · exact .again hstart (((follows_types hself).bind fun args =>
      (Follows.expect (by decide)).bind fun _ => follows_closed _) c hc hkept (Nat.le_refl _))

/-- The form of a type is followed if shorter types are. -/
theorem follows_typeForm (hc : c.Ended) (hkept : c.kept = known) (h : c.rest = t :: us)
    (hself : ∀ i, i < c.rest.length → Follows known i self Contract.Parse.typeExpr) :
    FollowsAt (typeForm self c.offset t) Contract.Parse.typeExpr c := by
  have hshort := hc.length_lt
  have hmoved (ht : t.kind ≠ .finish) {f : Token → Parser TypeExpr} :
      (c.moved (c.offset + 1)).Ended ∧
        exec (advance >>= f) c = exec (f t) (c.moved (c.offset + 1)) :=
    ⟨hc.moved (hc.next h ht), exec_bind_ok (exec_advance h (hc.next h ht)) f⟩
  rw [typeForm]
  by_cases hv : t.kind = .tvar
  · simp only [hv]
    obtain ⟨hend, hexec⟩ := hmoved (f := fun _ => pure (.var t.name)) (by rw [hv]; decide)
    refine .behind h hexec ?_ (.pure hend _)
    rw [Contract.Parse.typeExpr.eq_def]
    simp only [hv]
    rfl
  by_cases hn : t.kind = .con
  · simp only [hn]
    obtain ⟨hend, hexec⟩ := hmoved (f := fun _ => pure (.contract t.name)) (by rw [hn]; decide)
    refine .behind h hexec ?_ (.pure hend _)
    rw [Contract.Parse.typeExpr.eq_def]
    simp only [hn]
    rfl
  by_cases hi : t.kind = .identifier
  · simp only [hi]
    obtain ⟨hend, hexec⟩ := hmoved (by rw [hi]; decide)
    exact .behind h hexec (Grammar.typeExpr_identifier us hi) (follows_applied hend hkept
      (Nat.lt_succ_self _) t.name (hself _ hshort))
  by_cases hp : t.kind = .lparen
  · simp only [hp]
    obtain ⟨hend, hexec⟩ := hmoved (by rw [hp]; decide)
    exact .behind h hexec (Grammar.typeExpr_lparen us hp) (follows_enclosed hend hkept
      (Nat.lt_succ_self _) (hself _ hshort))
  · simp only
    refine (FollowsAt.unexpected hc .type).congr rfl ?_
    rw [h]
    exact Grammar.typeExpr_other us ⟨hv, hn, hi, hp⟩

theorem follows_typeStep (hself : ∀ i, i < n → Follows known i self Contract.Parse.typeExpr) :
    Follows known n (typeStep self) Contract.Parse.typeExpr := by
  intro c hc hkept hlength
  obtain ⟨t, us, h⟩ := hc.exists_rest
  have hform := follows_typeForm hc hkept h fun i hi => hself i (Nat.lt_of_lt_of_le hi hlength)
  rw [typeStep, ← bind_pure (m := Reader) Contract.Parse.typeExpr]
  refine .offset (FollowsAt.congr ?_ (exec_bind_ok (exec_current h) _) rfl)
  refine hform.bind hc fun type o hread hend => ?_
  exact .again (Cursor.offset_lt (length_lt_of_reads_typeExpr hread)) (.pure hend type)

end

/-- Each call inside begins behind a token, so `n` calls do for fewer than `n` tokens. -/
theorem follows_typeUpTo {k : Nat} (hk : k < n) :
    Follows known k (typeUpTo n) Contract.Parse.typeExpr := by
  induction n generalizing k with
  | zero => exact absurd hk (Nat.not_lt_zero k)
  | succ n ih =>
    exact follows_typeStep fun i hi => ih (Nat.lt_of_lt_of_le hi (Nat.le_of_lt_succ hk))

theorem follows_typeExpr : Follows known n typeExpr Contract.Parse.typeExpr :=
  fun c hc hkept hlength =>
    .limit within_typeUpTo (follows_typeUpTo (Nat.lt_succ_self n) c hc hkept hlength)

theorem follows_typeArgs : Follows known n typeArgs Contract.Parse.typeArgs :=
  follows_typeArgsOf follows_typeExpr

/-! ## Type definitions -/

noncomputable def typeParams : Parser (List Name) := do
  if ← accept .lparen then
    let vars ← separated .comma (Token.name <$> expect .tvar)
    let _ ← expect .rparen
    return vars
  else return []

/-- The name and parameters in front of the body of a type definition. -/
noncomputable def typeHead : Parser (Name × List Name) := do
  let name ← expect .identifier
  let vars ← typeParams
  let _ ← expect .eq
  return (name.name, vars)

/-- The rest of a definition behind the keyword `type` at `pos`. -/
noncomputable def aliasDef (pos : Position) : Parser TypeDef := do
  let (name, vars) ← typeHead
  let first ← current
  let type ← typeExpr
  match type with
  | .contract con =>
    let c ← get
    if c.kept.contains con.text then return ⟨name, vars, .synonym type, some pos⟩
    else halt first.pos (.ambiguous (aliasReadings name vars con pos))
  | _ => return ⟨name, vars, .synonym type, some pos⟩

noncomputable def recordField : Parser TypeExpr := do
  let name ← expect .identifier
  let _ ← expect .colon
  let type ← typeExpr
  return .field (.named name.name) type (some name.pos)

/-- The rest of a definition behind the keyword `record` at `pos`. -/
noncomputable def recordDef (pos : Position) : Parser TypeDef := do
  let (name, vars) ← typeHead
  let _ ← expect .lbrace
  let fields ← separated .comma recordField
  let _ ← expect .rbrace
  return ⟨name, vars, .record fields, some pos⟩

noncomputable def constructor : Parser TypeExpr := do
  let tag ← expect .con
  let next ← current
  let args ← if next.kind = .lparen then typeArgs else pure []
  return .constr (.contract tag.name) args (some tag.pos)

/-- The rest of a definition behind the keyword `datatype` at `pos`. -/
noncomputable def datatypeDef (pos : Position) : Parser TypeDef := do
  let (name, vars) ← typeHead
  let constructors ← chained .bar constructor
  return ⟨name, vars, .variant constructors, some pos⟩

theorem follows_typeParams : Follows known n typeParams Contract.Parse.typeParams :=
  .accept (by decide)
    (fun _ _ => (((Follows.expect (by decide)).map Token.name).separated (by decide)).bind
      fun vars => (Follows.expect (by decide)).bind fun _ => .pure vars)
    (.pure [])

theorem follows_typeHead : Follows known n typeHead Contract.Parse.typeHead :=
  (Follows.expect (by decide)).bind fun name => follows_typeParams.bind fun vars =>
    (Follows.expect (by decide)).bind fun _ => .pure (name.name, vars)

theorem follows_recordField : Follows known n recordField Contract.Parse.recordField :=
  (Follows.expect (by decide)).bind fun name => (Follows.expect (by decide)).bind fun _ =>
    follows_typeExpr.bind fun type => .pure _

theorem follows_constructor : Follows known n constructor Contract.Parse.constructor :=
  (Follows.expect (by decide)).bind fun tag => .peek fun t => .ite
    (fun _ => follows_typeArgs.bind fun args => .pure _) (fun _ => .pure _)

theorem follows_aliasDef (pos : Position) :
    Follows known n (aliasDef pos) (Contract.Parse.aliasDef known pos) := by
  refine follows_typeHead.bind fun (name, vars) => .peek fun first => follows_typeExpr.bind
    fun type => ?_
  cases type with
  | contract con =>
    intro c hc hkept _
    have hget {f : Cursor Token (List String) → Parser TypeDef} :
        exec (get >>= f) c = exec (f c) c := exec_bind_ok exec_get f
    by_cases hknown : known.contains con.text = true
    · simp only [hknown, if_true]
      refine (FollowsAt.pure hc _).congr ?_ rfl
      rw [hget, hkept, if_pos hknown]
    · simp only [hknown]
      refine .failure hc.inside rfl ?_
      rw [hget, hkept, if_neg hknown]
      rfl
  | _ => exact .pure _

theorem follows_recordDef (pos : Position) :
    Follows known n (recordDef pos) (Contract.Parse.recordDef pos) :=
  follows_typeHead.bind fun (_, _) => (Follows.expect (by decide)).bind fun _ =>
    (follows_recordField.separated (by decide)).bind fun _ =>
      (Follows.expect (by decide)).bind fun _ => .pure _

theorem follows_datatypeDef (pos : Position) :
    Follows known n (datatypeDef pos) (Contract.Parse.datatypeDef pos) :=
  follows_typeHead.bind fun (_, _) =>
    (follows_constructor.chained (by decide)).bind fun _ => .pure _

end Parser

end ContractInterface
