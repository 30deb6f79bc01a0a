import ContractInterface.Proofs.Scan.Layout

/-!
# Scanning one source behind another

A line comment ends at a line feed, and a source that leaves a string or a comment in `/*` open does
not scan.  So the tiles of a source stay what they are in front of a line feed (`TilesTo.extend`), and
with one between them two sources are scanned as each is alone, the second some lines further down:

    scan s = .ok (us ++ [e]) → scan t = .ok vs →
      scan (s ++ "\n" ++ t) = .ok (us ++ vs.map (Token.move (Position.lower n)))     (scan_append)
-/

namespace ContractInterface

/-- So many lines further down. -/
def Position.lower (n : Int) (p : Position) : Position := ⟨p.line + n, p.col⟩

theorem Position.step_lower (n : Int) (p : Position) (c : Char) :
    (p.lower n).step c = (p.step c).lower n := by
  unfold step lower
  by_cases hc : c = '\n'
  · rw [if_pos hc, if_pos hc]
    have hline : p.line + n + 1 = p.line + 1 + n := by omega
    rw [hline]
  · rw [if_neg hc, if_neg hc]

/-- A line feed goes to the start of a line. -/
theorem Position.step_feed (p : Position) : p.step '\n' = start.lower p.line := by
  show (⟨p.line + 1, 1⟩ : Position) = ⟨1 + p.line, 1⟩
  rw [Int.add_comm]

namespace Token

/-- The token where `f` puts it. -/
def move (f : Position → Position) (t : Token) : Token := ⟨t.kind, t.value, f t.pos⟩

/-- Further down a source is scanned alike. -/
theorem scanFrom_lower {p : Position} {skip : Nat} {s : List Char} {ts : List Token}
    (h : scanFrom p skip s = .ok ts) (n : Int) :
    scanFrom (p.lower n) skip s = .ok (ts.map (move (Position.lower n))) := by
  induction s generalizing p skip ts with
  | nil =>
    rw [scanFrom] at h ⊢
    cases h
    rfl
  | cons c r ih =>
    cases skip with
    | succ skip =>
      rw [scanFrom] at h ⊢
      rw [Position.step_lower]
      exact ih h
    | zero =>
      rw [scanFrom] at h ⊢
      rw [Position.step_lower]
      split at h
      · cases h
      · exact ih h
      · split at h
        · next ts hts =>
          cases h
          rw [ih hts]
          rfl
        · cases h

/-- **Two sources with a line feed between them** have the tokens of both, those of the second as
many lines further down as the first has. -/
theorem scan_append {s t : String} {us vs : List Token} {e : Token}
    (hs : scan s = .ok (us ++ [e])) (ht : scan t = .ok vs) :
    scan (s ++ "\n" ++ t) =
      .ok (us ++ vs.map (move (Position.lower (Position.start.after s.toList).line))) := by
  have htoList : (s ++ "\n" ++ t).toList = s.toList ++ '\n' :: t.toList := by
    rw [String.toList_append, String.toList_append, List.append_assoc]
    rfl
  have hfront : scanFrom (Position.locate []) 0 s.toList = .ok (us ++ [e]) := hs
  obtain ⟨tiles, last, hchars, htiles, htokens⟩ := tiles_of_scanFrom hfront
  obtain ⟨rfl, -⟩ := List.append_inj' htokens rfl
  -- the tiles of the first source are found again, and then the line feed
  have hfeed : ∀ c ∈ ('\n' :: t.toList).head?, c = '\n' := by
    rintro c ⟨⟩
    rfl
  have hprogress := progressFrom_tiles ((tilesTo_nil_iff.2 htiles).extend hfeed)
  rw [List.nil_append, List.nil_append, ← List.append_assoc, ← hchars] at hprogress
  have hbehind : progressFrom (Position.locate s.toList) 0 ('\n' :: t.toList) =
      progressFrom ((Position.locate s.toList).step '\n') 0 t.toList := rfl
  have hlocate : Position.locate s.toList = Position.start.after s.toList :=
    Position.locate_append [] s.toList
  rw [hbehind, hlocate, Position.step_feed] at hprogress
  have hlower := scanFrom_lower ht (Position.start.after s.toList).line
  rw [scanFrom_eq_result] at hlower
  rw [scan_eq_result, progress, htoList]
  refine (congrArg Progress.result hprogress).trans ?_
  rw [Progress.result_behind, hlower]
  rfl

end Token

end ContractInterface
