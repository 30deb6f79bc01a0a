import ContractInterface.Proofs.Grammar.Lookahead

/-!
# What readers fail with

A reader built from others fails as they do (`FailsOnly`).  All readers below that for declarations
fail with errors of the grammar (`Cause.OfReaders`), except that an alias may be ambiguous; the
scanner has its own two (`Cause.OfSources`).  What holds of all of these holds of whatever stops the
reading of a source, so callers are told about it (`Failure.translate`):

    Cause.OfSources Q → ofSource s = .error f → Q f.cause = true             (failsOnly_ofSource)
    ofSource s = .error f → ∃ e, f.translate = .ok e              (exists_translate_of_ofSource)
-/

namespace ContractInterface

open Reader

def Cause.isKnown : Cause → Bool
  | unclassified _ => false
  | _ => true

/-- Callers are told about a failure of a known kind. -/
theorem Failure.exists_translate {f : Failure} (h : f.cause.isKnown = true) :
    ∃ e, f.translate = .ok e := by
  obtain ⟨pos, cause⟩ := f
  cases cause with
  | unclassified detail => cases h
  | _ => exact ⟨_, rfl⟩

/-- `Q` holds of all errors of the grammar. -/
structure Cause.OfReaders (Q : Cause → Bool) : Prop where
  unexpected (found : Token) (wanted : Wanted) : Q (.unexpected found wanted) = true
  functionType : Q .functionType = true
  unbalanced (found : Token) : Q (.unbalanced found) = true
  unclosed : Q .unclosed = true

/-- `Q` holds of all that can stop the reading of a source. -/
structure Cause.OfSources (Q : Cause → Bool) : Prop extends Cause.OfReaders Q where
  ambiguous (name : Name) (vars : List Name) (con : Name) (pos : Position) :
    Q (.ambiguous (Contract.Parse.aliasReadings name vars con pos)) = true
  scan : Q (.scan scanDetail) = true
  unfinished : Q (.unfinished scanDetail) = true

theorem Cause.ofReaders_isSyntax : Cause.OfReaders Cause.isSyntax where
  unexpected _ _ := rfl
  functionType := rfl
  unbalanced _ := rfl
  unclosed := rfl

theorem Cause.ofSources_isKnown : Cause.OfSources Cause.isKnown where
  unexpected _ _ := rfl
  functionType := rfl
  unbalanced _ := rfl
  unclosed := rfl
  ambiguous _ _ _ _ := rfl
  scan := rfl
  unfinished := rfl

/-- If this is a failure, its cause is as `Q` says. -/
def FailsOnly {α : Type} (Q : Cause → Bool) (r : Except Failure α) : Prop :=
  ∀ f, r = .error f → Q f.cause = true

namespace FailsOnly

variable {α β : Type} {ts : List Token} {Q : Cause → Bool}

@[simp] theorem ok (a : α) : FailsOnly Q (.ok a) := by
  rintro f ⟨⟩

@[simp] theorem error_iff {f : Failure} :
    FailsOnly Q (.error f : Except Failure α) ↔ Q f.cause = true := by
  constructor
  · exact fun h => h f rfl
  · rintro h _ ⟨⟩
    exact h

theorem map {r : Except Failure α} (h : FailsOnly Q r) (g : α → β) : FailsOnly Q (r.map g) := by
  cases r with
  | error f => exact error_iff.2 (error_iff.1 h)
  | ok a => exact ok _

theorem andThen {r : Except Failure (Read α ts)} {f : α → Reader β} (hr : FailsOnly Q r)
    (hf : ∀ a us, FailsOnly Q (f a us)) : FailsOnly Q (Reader.andThen r f) := by
  unfold Reader.andThen
  split
  · exact error_iff.2 (error_iff.1 hr)
  · next a us h =>
    have hnext := hf a us
    split
    · next e => exact error_iff.2 (hnext _ e)
    · exact ok _

theorem behind {t : Token} {us : List Token} {r : Except Failure (Read α us)}
    (hr : FailsOnly Q r) : FailsOnly Q (Reader.behind (t := t) r) := by
  unfold Reader.behind
  split
  · exact error_iff.2 (error_iff.1 hr)
  · exact ok _

/-- Items are read from the rests of `ts` only. -/
theorem sepBy {k : TokenKind} {item : Reader α} {ts : List Token}
    (h : ∀ us : List Token, us.length ≤ ts.length → FailsOnly Q (item us)) :
    FailsOnly Q (Reader.sepBy k item ts) := by
  rw [Reader.sepBy]
  have hitem := h ts (Nat.le_refl _)
  split
  · next e => exact error_iff.2 (hitem _ e)
  · exact ok _
  · next a t us hle _ =>
    split
    · have hlt : us.length < ts.length := hle
      have hrest : FailsOnly Q (Reader.sepBy k item us) :=
        sepBy fun vs hvs => h vs (Nat.le_trans hvs (Nat.le_of_lt hlt))
      split
      · next e => exact error_iff.2 (hrest _ e)
      · exact ok _
    · exact ok _
termination_by ts.length

end FailsOnly

/-! ## Readers -/

namespace Reader

/-- Whatever stops the reader has a cause as `Q` says. -/
def FailsOnly {α : Type} (Q : Cause → Bool) (p : Reader α) : Prop :=
  ∀ ts, ContractInterface.FailsOnly Q (p ts)

section

variable {α β : Type} {p : Reader α} {Q : Cause → Bool}

theorem FailsOnly.bind {f : α → Reader β} (hp : p.FailsOnly Q) (hf : ∀ a, (f a).FailsOnly Q) :
    Reader.FailsOnly Q (p >>= f) :=
  fun ts => (hp ts).andThen hf

theorem failsOnly_pure (a : α) : Reader.FailsOnly Q (Pure.pure a) := fun _ => .ok _

theorem FailsOnly.map (hp : p.FailsOnly Q) (f : α → β) : Reader.FailsOnly Q (f <$> p) :=
  hp.bind fun a => failsOnly_pure (f a)

theorem FailsOnly.ite {c : Prop} [Decidable c] {q : Reader α} (hp : p.FailsOnly Q)
    (hq : q.FailsOnly Q) : Reader.FailsOnly Q (if c then p else q) := by
  split
  · exact hp
  · exact hq

theorem FailsOnly.sepBy (k : TokenKind) (hp : p.FailsOnly Q) :
    Reader.FailsOnly Q (Reader.sepBy k p) :=
  fun _ => ContractInterface.FailsOnly.sepBy fun us _ => hp us

theorem failsOnly_peek : peek.FailsOnly Q := fun _ => .ok _

theorem failsOnly_fail {cause : Cause} (h : Q cause = true) : (fail cause : Reader α).FailsOnly Q :=
  fun _ => FailsOnly.error_iff.2 h

theorem failsOnly_unexpected (hQ : Cause.OfReaders Q) (wanted : Wanted) :
    (unexpected wanted : Reader α).FailsOnly Q :=
  fun _ => FailsOnly.error_iff.2 (hQ.unexpected _ _)

theorem failsOnly_expect (hQ : Cause.OfReaders Q) (k : TokenKind) : (expect k).FailsOnly Q := by
  intro ts
  cases ts with
  | nil => exact failsOnly_unexpected hQ _ _
  | cons t us =>
    simp only [expect]
    split
    · exact .ok _
    · exact failsOnly_unexpected hQ _ _

theorem failsOnly_accept (k : TokenKind) : (accept k).FailsOnly Q := by
  intro ts
  cases ts with
  | nil => exact .ok _
  | cons t us =>
    simp only [accept]
    split <;> exact .ok _

end

end Reader

namespace Contract.Parse

section

variable {Q : Cause → Bool} (hQ : Cause.OfReaders Q)
include hQ

/-! ## Types -/

theorem failsOnly_closed (type : TypeExpr) : (closed type).FailsOnly Q :=
  failsOnly_peek.bind fun _ => .ite (failsOnly_fail hQ.functionType) (failsOnly_pure _)

theorem failsOnly_typeExpr (ts : List Token) : FailsOnly Q (typeExpr ts) := by
  have htypes (us : List Token) (h : us.length < ts.length) : FailsOnly Q (types us) := by
    rw [Grammar.types_eq_sepBy]
    exact .sepBy fun vs hvs => failsOnly_typeExpr vs
  rw [typeExpr.eq_def]
  split
  · exact failsOnly_unexpected hQ _ _
  · next t us =>
    split
    · exact .ok _
    · exact .ok _
    · split
      · exact .ok _
      · next u vs =>
        split
        · refine .behind (.behind (.andThen (htypes vs ?_) fun args => ?_))
          · simp only [List.length_cons]
            omega
          · exact (failsOnly_expect hQ _).bind fun _ => failsOnly_pure _
        · exact .ok _
    · split
      · exact .behind (.andThen (failsOnly_expect hQ _ _) fun _ => failsOnly_closed hQ _)
      · refine .behind (.andThen (htypes us ?_) fun args => ?_)
        · simp
        · exact (failsOnly_expect hQ _).bind fun _ => failsOnly_closed hQ _
    · exact failsOnly_unexpected hQ _ _
termination_by ts.length
decreasing_by omega

theorem failsOnly_types : Reader.FailsOnly Q types := by
  rw [Grammar.types_eq_sepBy]
  exact .sepBy _ (failsOnly_typeExpr hQ)

theorem failsOnly_typeArgs : typeArgs.FailsOnly Q :=
  (failsOnly_expect hQ _).bind fun _ => (failsOnly_types hQ).bind fun _ =>
    (failsOnly_expect hQ _).bind fun _ => failsOnly_pure _

/-! ## Type definitions -/

theorem failsOnly_typeParams : typeParams.FailsOnly Q :=
  (failsOnly_accept _).bind fun _ => .ite
    ((((failsOnly_expect hQ _).map _).sepBy _).bind fun _ =>
      (failsOnly_expect hQ _).bind fun _ => failsOnly_pure _)
    (failsOnly_pure _)

theorem failsOnly_typeHead : typeHead.FailsOnly Q :=
  (failsOnly_expect hQ _).bind fun _ => (failsOnly_typeParams hQ).bind fun _ =>
    (failsOnly_expect hQ _).bind fun _ => failsOnly_pure _

theorem failsOnly_recordField : recordField.FailsOnly Q :=
  (failsOnly_expect hQ _).bind fun _ => (failsOnly_expect hQ _).bind fun _ =>
    Reader.FailsOnly.bind (failsOnly_typeExpr hQ) fun _ => failsOnly_pure _

theorem failsOnly_recordDef (pos : Position) : (recordDef pos).FailsOnly Q :=
  (failsOnly_typeHead hQ).bind fun _ => (failsOnly_expect hQ _).bind fun _ =>
    ((failsOnly_recordField hQ).sepBy _).bind fun _ => (failsOnly_expect hQ _).bind fun _ =>
      failsOnly_pure _

theorem failsOnly_constructor : constructor.FailsOnly Q :=
  (failsOnly_expect hQ _).bind fun _ => failsOnly_peek.bind fun _ =>
    ((failsOnly_typeArgs hQ).bind fun _ => failsOnly_pure _).ite
      ((failsOnly_pure _).bind fun _ => failsOnly_pure _)

theorem failsOnly_datatypeDef (pos : Position) : (datatypeDef pos).FailsOnly Q :=
  (failsOnly_typeHead hQ).bind fun _ => ((failsOnly_constructor hQ).sepBy _).bind fun _ =>
    failsOnly_pure _

/-! ## Functions -/

/-- A type behind a colon, if there is a colon. -/
theorem failsOnly_ascription {α : Type} {f : Option TypeExpr → Reader α}
    (hf : ∀ o, (f o).FailsOnly Q) :
    Reader.FailsOnly Q (accept .colon >>= fun c =>
      if c = true then some <$> typeExpr >>= f else Pure.pure none >>= f) :=
  (failsOnly_accept _).bind fun _ =>
    ((Reader.FailsOnly.map (failsOnly_typeExpr hQ) _).bind hf).ite ((failsOnly_pure _).bind hf)

theorem failsOnly_param : param.FailsOnly Q :=
  (failsOnly_expect hQ _).bind fun _ => failsOnly_ascription hQ fun _ => failsOnly_pure _

theorem failsOnly_params : params.FailsOnly Q :=
  (failsOnly_expect hQ _).bind fun _ => (failsOnly_accept _).bind fun _ =>
    (failsOnly_pure _).ite (((failsOnly_param hQ).sepBy _).bind fun _ =>
      (failsOnly_expect hQ _).bind fun _ => failsOnly_pure _)

theorem failsOnly_bodyLength (depth : Nat) (ts : List Token) :
    FailsOnly Q (bodyLength depth ts) := by
  fun_induction bodyLength depth ts with
  | case2 => exact FailsOnly.error_iff.2 hQ.unclosed
  | case4 => exact FailsOnly.error_iff.2 hQ.unclosed
  | case6 d t ts hend hstart hopen ih => exact ih.map _
  | case7 => exact FailsOnly.error_iff.2 (hQ.unbalanced _)
  | case8 t ts hopen hclose d hend hstart ih => exact ih.map _
  | case9 d t ts hend hstart hopen hclose ih => exact ih.map _
  | _ => exact .ok _

theorem failsOnly_body : body.FailsOnly Q := by
  intro ts
  have hlength := failsOnly_bodyLength hQ 0 ts
  unfold body
  split
  · next e => exact FailsOnly.error_iff.2 (hlength _ e)
  · exact failsOnly_unexpected hQ _ _
  · exact .ok _

theorem failsOnly_functionRest (pos : Position) (ms : List TokenKind) :
    (functionRest pos ms).FailsOnly Q :=
  (failsOnly_expect hQ _).bind fun _ => (failsOnly_params hQ).bind fun _ =>
    failsOnly_ascription hQ fun _ => (failsOnly_expect hQ _).bind fun _ =>
      (failsOnly_body hQ).bind fun _ => failsOnly_pure _

theorem failsOnly_functionDef (t : Token) : (functionDef t).FailsOnly Q := by
  unfold functionDef
  have hmodifiers : modifiers.FailsOnly Q := fun _ => .ok _
  exact (failsOnly_functionRest hQ _ _).ite (hmodifiers.bind fun _ =>
    (failsOnly_expect hQ _).bind fun _ => failsOnly_functionRest hQ _ _)

/-! ## Declarations and contracts -/

/-- All declarations but aliases. -/
theorem failsOnly_decl_of_ne (known : List String) {t : Token} (h : t.kind ≠ .kwType) :
    (decl known t).FailsOnly Q := by
  unfold decl
  split
  · contradiction
  · exact (failsOnly_recordDef hQ t.pos).map _
  · exact (failsOnly_datatypeDef hQ t.pos).map _
  · exact (failsOnly_functionDef hQ t).map _

end

section

variable {Q : Cause → Bool} (hQ : Cause.OfSources Q)
include hQ

theorem failsOnly_aliasDef (known : List String) (pos : Position) :
    (aliasDef known pos).FailsOnly Q := by
  refine (failsOnly_typeHead hQ.toOfReaders).bind fun (name, vars) =>
    failsOnly_peek.bind fun first =>
      Reader.FailsOnly.bind (failsOnly_typeExpr hQ.toOfReaders) fun type => ?_
  cases type with
  | contract con =>
    exact .ite (failsOnly_pure _) fun _ => FailsOnly.error_iff.2 (hQ.ambiguous _ _ _ _)
  | _ => exact failsOnly_pure _

theorem failsOnly_decl (known : List String) (t : Token) : (decl known t).FailsOnly Q := by
  by_cases h : t.kind = .kwType
  · simp only [decl, h]
    exact (failsOnly_aliasDef hQ known t.pos).map _
  · exact failsOnly_decl_of_ne hQ.toOfReaders known h

theorem failsOnly_decls (known : List String) : Reader.FailsOnly Q (decls known) := by
  intro ts
  fun_induction decls known ts with
  | case1 => exact .ok _
  | case2 t us ht e hd => exact FailsOnly.error_iff.2 (failsOnly_decl hQ known t us _ hd)
  | case3 t us ht d vs h hd e hds ih => exact FailsOnly.error_iff.2 (ih _ hds)
  | _ => exact .ok _

theorem failsOnly_contract (known : List String) (pos : Position) :
    (contract known pos).FailsOnly Q :=
  (failsOnly_expect hQ.toOfReaders _).bind fun _ =>
    (failsOnly_expect hQ.toOfReaders _).bind fun _ =>
      (failsOnly_decls hQ known).bind fun _ => failsOnly_peek.bind fun _ =>
        (failsOnly_pure _).ite (failsOnly_unexpected hQ.toOfReaders _)

theorem failsOnly_contracts (known : List String) (ts : List Token) :
    FailsOnly Q (contracts known ts) := by
  fun_induction contracts known ts with
  | case1 => exact FailsOnly.error_iff.2 (hQ.unexpected _ _)
  | case2 known t us ht e hc =>
    exact FailsOnly.error_iff.2 (failsOnly_contract hQ known t.pos us _ hc)
  | case4 known t us ht c vs h hc hend e hcs ih => exact FailsOnly.error_iff.2 (ih _ hcs)
  | case6 => exact FailsOnly.error_iff.2 (hQ.unexpected _ _)
  | _ => exact .ok _

end

end Contract.Parse

/-! ## Scanning -/

section

variable {Q : Cause → Bool} (hQ : Cause.OfSources Q)
include hQ

theorem Token.cause_of_piece {c : Char} {r : List Char} {cause : Cause}
    (h : piece c r = .error cause) : Q cause = true := by
  unfold piece at h
  split at h
  · cases h
  split at h
  · cases h
  split at h
  · split at h <;> cases h
    exact hQ.unfinished
  split at h
  · split at h <;> cases h
    exact hQ.scan
  split at h
  · cases h
  split at h
  · split at h <;> cases h
    exact hQ.scan
  split at h
  · cases h
  split at h
  · cases h
  · split at h <;> cases h
    exact hQ.scan

theorem Token.failsOnly_scanFrom (p : Position) (skip : Nat) (s : List Char) :
    FailsOnly Q (scanFrom p skip s) := by
  fun_induction scanFrom p skip s with
  | case1 => exact .ok _
  | case2 p skip c r ih => exact ih
  | case3 p c r cause h => exact FailsOnly.error_iff.2 (cause_of_piece hQ h)
  | case4 p c r more h ih => exact ih
  | case5 => exact .ok _
  | case6 p c r kind value more h f hf ih => exact FailsOnly.error_iff.2 (ih _ hf)

theorem Contract.failsOnly_ofSource (source : String) :
    FailsOnly Q (Contract.ofSource source) := by
  intro f h
  unfold Contract.ofSource at h
  split at h
  · next hscan =>
    cases h
    exact Token.failsOnly_scanFrom hQ _ _ _ _ hscan
  · exact Contract.Parse.failsOnly_contracts hQ _ _ _ h

end

/-- Whatever is wrong with a source, callers are told. -/
theorem Contract.exists_translate_of_ofSource {source : String} {f : Failure}
    (h : Contract.ofSource source = .error f) : ∃ e, f.translate = .ok e :=
  Failure.exists_translate (failsOnly_ofSource Cause.ofSources_isKnown source f h)

end ContractInterface
