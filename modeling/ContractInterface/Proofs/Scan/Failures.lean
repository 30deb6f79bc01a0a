import ContractInterface.Proofs.Scan.Tiling

/-!
# Scan failures are exact

The scanner fails where it gets to something that it cannot get past (`Stuck`), and nowhere else: the
text in front of that place is made of gaps and lexemes (`Boundary`), and scanned alone it yields the
tokens that had been found.

    piece c r = .error cause ↔ Stuck (c :: r) cause                                (piece_eq_error_iff)

    scan s = .error ⟨p, cause⟩ ↔
      s = u ++ rest, p is the position behind u, Boundary u rest and Stuck rest cause   (scan_fails_at)
-/

namespace ContractInterface

namespace Token

/-! ## What is not closed -/

/-- A comment that is open here is not closed any more. -/
def OpenComment (r : List Char) : Prop := ∀ u v, Interior u → r ≠ u ++ '*' :: '/' :: v

theorem closeComment_eq_none_iff {r : List Char} : closeComment 1 r = none ↔ OpenComment r := by
  constructor
  · rintro h u v hu rfl
    rw [closeComment_interior hu, closeComment] at h
    cases h
  · intro h
    cases hclose : closeComment 1 r with
    | none => rfl
    | some n =>
      have hclosing := closing_of_closeComment hclose
      generalize hw : r.take n = w at hclosing
      cases hclosing with
      | @succ _ u s hu hs =>
        have hr : r = u ++ '*' :: '/' :: (s ++ r.drop n) := by
          conv => lhs; rw [← List.take_append_drop n r, hw]
          simp
        exact absurd hr (h u (s ++ r.drop n) hu)

/-- The interior of a string that no quote closes: the source ends first, or the line does. -/
def OpenString (r : List Char) : Prop :=
  ∃ s value t, StringInterior s value ∧ r = s ++ t ∧ (t = [] ∨ t = ['\\'] ∨ t.head? = some '\n')

theorem readString_eq_none_iff {r : List Char} : readString r = none ↔ OpenString r := by
  constructor
  · intro h
    fun_induction readString r with
    | case1 => exact ⟨[], [], [], .nil, rfl, .inl rfl⟩
    | case2 s => cases h
    | case3 s => exact ⟨[], [], _, .nil, rfl, .inr (.inr rfl)⟩
    | case4 c s ih =>
      obtain ⟨u, value, t, hu, rfl, ht⟩ := ih (Option.map_eq_none_iff.1 h)
      exact ⟨_, _, t, .escaped hu, rfl, ht⟩
    | case5 c s hquote hfeed hescape ih =>
      have hs := Option.map_eq_none_iff.1 h
      by_cases hslash : c = '\\'
      · -- nothing stands behind the backslash
        cases s with
        | nil => exact ⟨[], [], _, .nil, rfl, .inr (.inl (by rw [hslash]))⟩
        | cons d s => exact absurd rfl (hescape d s hslash)
      · obtain ⟨u, value, t, hu, rfl, ht⟩ := ih hs
        have hplain : c ∉ ['"', '\\', '\n'] := by
          simp only [List.mem_cons, List.not_mem_nil, or_false, not_or]
          exact ⟨hquote, hslash, hfeed⟩
        exact ⟨_, _, t, .plain hplain hu, rfl, ht⟩
  · rintro ⟨s, value, t, hs, rfl, ht⟩
    rw [readString_interior hs]
    obtain rfl | rfl | ht := ht
    · rfl
    · rfl
    · obtain ⟨t, rfl⟩ := List.head?_eq_some_iff.1 ht
      rw [readString]
      rfl

/-! ## Where there is no piece -/

theorem piece_tick {r : List Char} (h : ∀ c ∈ r.head?, startsName c = false) :
    piece '\'' r = .error (.scan Cause.scanDetail) := by
  have hhead : ¬r.head?.any startsName = true := by
    rw [Bool.not_eq_true, Option.any_eq_false]
    exact fun c hc => by simp [h c hc]
  unfold piece
  rw [if_neg hhead]
  rfl

/-- What the scanner cannot get past: a comment that is not closed, a string that no quote closes on
its line, an apostrophe without a name, or what starts nothing at all. -/
inductive Stuck : List Char → Cause → Prop
  | comment {r : List Char} (h : OpenComment r) :
      Stuck ('/' :: '*' :: r) (.unfinished Cause.scanDetail)
  | string {r : List Char} (h : OpenString r) : Stuck ('"' :: r) (.scan Cause.scanDetail)
  | tick {r : List Char} (h : ∀ c ∈ r.head?, startsName c = false) :
      Stuck ('\'' :: r) (.scan Cause.scanDetail)
  | other {c : Char} {r : List Char} (h : StartsOther c r)
      (hop : ∀ op ∈ operators, ¬op.1 <+: c :: r) : Stuck (c :: r) (.scan Cause.scanDetail)

theorem stuck_of_piece {c : Char} {r : List Char} {cause : Cause}
    (h : piece c r = .error cause) : Stuck (c :: r) cause := by
  unfold piece at h
  split at h
  · cases h
  next hspace =>
  split at h
  · cases h
  next hline =>
  split at h
  · next hc =>
    obtain ⟨rfl, hr⟩ : c = '/' ∧ r.head? = some '*' := by simpa using hc
    obtain ⟨r, rfl⟩ := List.head?_eq_some_iff.1 hr
    split at h
    · cases h
    · next hclose =>
      cases h
      exact .comment (closeComment_eq_none_iff.1 hclose)
  next hblock =>
  split at h
  · next hc =>
    split at h
    · cases h
    · next hread =>
      cases h
      exact hc ▸ .string (readString_eq_none_iff.1 hread)
  next hquote =>
  split at h
  · cases h
  next hdigit =>
  split at h
  · next hc =>
    split at h
    · cases h
    · next hhead =>
      cases h
      refine hc ▸ .tick fun d hd => ?_
      rw [Bool.not_eq_true, Option.any_eq_false] at hhead
      simpa using hhead d hd
  next htick =>
  split at h
  · cases h
  next hname =>
  split at h
  · cases h
  next hmark =>
  split at h
  · cases h
  · next hfind =>
    cases h
    have hcomment : ¬StartsComment (c :: r) := by
      rw [startsComment_cons_iff]
      simpa [and_or_left] using And.intro hline hblock
    refine .other ⟨?_, hcomment, hquote, ?_, htick, ?_, hmark⟩ fun op hop hpre => ?_
    · simpa using hspace
    · simpa using hdigit
    · simpa using hname
    · exact List.find?_eq_none.1 hfind op hop (List.isPrefixOf_iff_prefix.2 hpre)

theorem piece_of_stuck {c : Char} {r : List Char} {cause : Cause} (h : Stuck (c :: r) cause) :
    piece c r = .error cause := by
  cases h with
  | comment h => rw [piece_blockComment, closeComment_eq_none_iff.2 h]
  | string h => rw [piece_quote, readString_eq_none_iff.2 h]
  | tick h => exact piece_tick h
  | other h hop =>
    have hfind : operators.find? (fun op => op.1.isPrefixOf (c :: r)) = none := by
      refine List.find?_eq_none.2 fun op hmem hpre => ?_
      exact hop op hmem (List.isPrefixOf_iff_prefix.1 hpre)
    rw [piece_of_startsOther h, hfind]

theorem piece_eq_error_iff {c : Char} {r : List Char} {cause : Cause} :
    piece c r = .error cause ↔ Stuck (c :: r) cause :=
  ⟨stuck_of_piece, piece_of_stuck⟩

/-! ## Failures -/

/-- The source may be cut between `u` and `rest`: gaps and lexemes make up `u`. -/
def Boundary (u rest : List Char) : Prop :=
  ∃ tiles last, u = tiles.flatMap Tile.chars ++ last ∧ TilesTo rest last [] tiles

/-- Every source can be cut at its end or where the scanner cannot get past. -/
theorem exists_boundary (s : List Char) :
    ∃ u rest, s = u ++ rest ∧ Boundary u rest ∧ (rest = [] ∨ ∃ cause, Stuck rest cause) := by
  obtain ⟨tiles, last, rest, hchars, htiles, hrest⟩ := exists_tilesTo [] s
  refine ⟨_, rest, hchars.trans (List.append_assoc ..).symm, ⟨tiles, last, rfl, htiles⟩, ?_⟩
  cases rest with
  | nil => exact .inl rfl
  | cons c r =>
    obtain ⟨cause, hpiece⟩ := hrest c r rfl
    exact .inr ⟨cause, piece_eq_error_iff.1 hpiece⟩

/-- What is found in front of a cut does not depend on what follows it. -/
theorem Boundary.found {u rest : List Char} (h : Boundary u rest) :
    ∃ us, progressFrom .start 0 (u ++ rest) =
        (progressFrom (Position.locate u) 0 rest).behind us ∧
      progressFrom .start 0 u = ⟨us, .ok ⟨.finish, "", Position.locate u⟩⟩ := by
  obtain ⟨tiles, last, rfl, htiles⟩ := h
  have hcut : TilesTo ([] ++ rest) last [] tiles := htiles
  have hend := progressFrom_tiles hcut.cut
  rw [List.append_nil, progressFrom_nil, Progress.behind, List.append_nil] at hend
  have hwhole := progressFrom_tiles htiles
  rw [← List.append_assoc] at hwhole
  exact ⟨tiles.map Tile.token, hwhole, hend⟩

theorem progressFrom_of_stuck {rest : List Char} {cause : Cause} (h : Stuck rest cause)
    (p : Position) : progressFrom p 0 rest = ⟨[], .error ⟨p, cause⟩⟩ := by
  cases rest with
  | nil => cases h
  | cons c r => rw [progressFrom_cons, piece_eq_error_iff.2 h]

/-- Where the scanner gets to what it cannot get past, it fails, and the text in front of the place
yields the tokens that had been found. -/
theorem progress_of_stuck {u rest : String} {cause : Cause}
    (hu : Boundary u.toList rest.toList) (hrest : Stuck rest.toList cause) :
    (progress (u ++ rest)).stop = .error ⟨Position.locate u.toList, cause⟩ ∧
      scan u = .ok ((progress (u ++ rest)).found ++ [⟨.finish, "", Position.locate u.toList⟩]) := by
  obtain ⟨us, hwhole, hfront⟩ := hu.found
  rw [← String.toList_append, progressFrom_of_stuck hrest, Progress.behind, List.append_nil]
    at hwhole
  rw [scan_eq_result, progress, progress, hwhole, hfront]
  exact ⟨rfl, rfl⟩

/-- **Scan failures are exact.**  A source fails where the scanner cannot get past what comes next:
with no state where that is an open comment, and otherwise where a string, a type variable or nothing
at all starts.  The text in front of the failure is scanned alone, to the tokens that had been found.
Conversely, a source fails wherever the scanner gets to such a place. -/
theorem scan_fails_at (source : String) :
    (∀ f, scan source = .error f → ∃ u rest, source = u ++ rest ∧
      f.pos = Position.locate u.toList ∧ Boundary u.toList rest.toList ∧
      Stuck rest.toList f.cause ∧ (progress source).stop = .error f ∧
      scan u = .ok ((progress source).found ++ [⟨.finish, "", f.pos⟩])) ∧
    ∀ u rest cause, source = u ++ rest → Boundary u.toList rest.toList → Stuck rest.toList cause →
      scan source = .error ⟨Position.locate u.toList, cause⟩ := by
  constructor
  · intro f hscan
    obtain ⟨u, rest, hchars, hu, hrest⟩ := exists_boundary source.toList
    obtain ⟨u, rfl⟩ : ∃ v : String, v.toList = u := ⟨_, String.toList_ofList⟩
    obtain ⟨rest, rfl⟩ : ∃ v : String, v.toList = rest := ⟨_, String.toList_ofList⟩
    obtain rfl : source = u ++ rest :=
      String.toList_injective (hchars.trans String.toList_append.symm)
    obtain hend | ⟨cause, hstuck⟩ := hrest
    · -- the scanner gets to the end
      obtain ⟨us, hwhole, -⟩ := hu.found
      rw [← String.toList_append, hend, progressFrom] at hwhole
      rw [scan_eq_result, progress, hwhole] at hscan
      cases hscan
    · obtain ⟨hstop, hfront⟩ := progress_of_stuck hu hstuck
      obtain rfl : ⟨Position.locate u.toList, cause⟩ = f := by
        rw [scan_eq_result, Progress.result, hstop] at hscan
        cases hscan
        rfl
      exact ⟨u, rest, rfl, rfl, hu, hstuck, hstop, hfront⟩
  · rintro u rest cause rfl hu hrest
    rw [scan_eq_result, Progress.result, (progress_of_stuck hu hrest).1]
    rfl

/-- A backslash protects the quote behind it, so that the string is open. -/
theorem scan_fails_at_quote : ∃ u rest, "a <= 'b \"\\\"c" = u ++ rest ∧ Position.locate u.toList = ⟨1, 9⟩ ∧
    Boundary u.toList rest.toList ∧ Stuck rest.toList (.scan Cause.scanDetail) ∧
    scan u = .ok [⟨.identifier, "a", ⟨1, 1⟩⟩, ⟨.operator, "<=", ⟨1, 3⟩⟩, ⟨.tvar, "'b", ⟨1, 6⟩⟩,
      ⟨.finish, "", ⟨1, 9⟩⟩] ∧
    scan "a <= 'b \"\\\"c" = .error ⟨Position.locate u.toList, .scan Cause.scanDetail⟩ := by
  have hprogress : progress "a <= 'b \"\\\"c" = ⟨[⟨.identifier, "a", ⟨1, 1⟩⟩,
      ⟨.operator, "<=", ⟨1, 3⟩⟩, ⟨.tvar, "'b", ⟨1, 6⟩⟩],
      .error ⟨⟨1, 9⟩, .scan Cause.scanDetail⟩⟩ := by cbv
  have hscan : scan "a <= 'b \"\\\"c" = .error ⟨⟨1, 9⟩, .scan Cause.scanDetail⟩ := by
    rw [scan_eq_result, hprogress]
    rfl
  obtain ⟨hfails, hstuck⟩ := scan_fails_at "a <= 'b \"\\\"c"
  obtain ⟨u, rest, hsource, hpos, hu, hrest, -, hfront⟩ := hfails _ hscan
  rw [hprogress] at hfront
  exact ⟨u, rest, hsource, hpos.symm, hu, hrest, hfront, hstuck u rest _ hsource hu hrest⟩

end Token

end ContractInterface
