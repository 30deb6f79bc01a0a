import Mathlib
import ContractInterface.Proofs.Scan.Pieces

/-!
# The tokens of a source tile it

A source that scans is gap, lexeme, gap, lexeme and so on up to a last gap, one lexeme for each
token, and every token stands where the count of line feeds and characters in front of its lexeme
says (`Position.locate`).

    scan s = .ok ts → s = gap₁ lexeme₁ … gapₙ lexemeₙ last,
                      ts = token₁, …, tokenₙ, the end                          (tiling_of_scan)

Every source is tiled up to its end or up to a place where there is no piece (`exists_tilesTo`), and
the tiles tell what the scanner finds on its way (`progressFrom_tiles`).
-/

namespace ContractInterface

namespace Position

/-- The position behind `s`: the line counts the line feeds in `s`, the column the characters
since the last of them. -/
def locate (s : List Char) : Position :=
  ⟨1 + s.count '\n', 1 + (s.reverse.takeWhile (· ≠ '\n')).length⟩

theorem locate_snoc (s : List Char) (c : Char) : locate (s ++ [c]) = (locate s).step c := by
  unfold locate step
  rw [List.count_append, List.reverse_append, List.reverse_singleton, List.singleton_append,
    List.takeWhile_cons]
  by_cases hc : c = '\n'
  · subst hc
    rw [if_pos rfl]
    simp
    omega
  · rw [if_neg hc]
    simp [hc]
    omega

theorem locate_append (s t : List Char) : locate (s ++ t) = (locate s).after t := by
  induction t generalizing s with
  | nil => rw [List.append_nil, after_nil]
  | cons c t ih => rw [List.append_cons, ih, locate_snoc, after_cons]

theorem le_after (p : Position) (s : List Char) : p.le (p.after s) = true := by
  induction s generalizing p with
  | nil => exact le_refl p
  | cons c s ih => exact le_trans (before_step p c).le (ih (p.step c))

theorem Before.trans_le {p q r : Position} (h : p.Before q) (h' : q.le r = true) : p.Before r := by
  unfold Before at *
  simp [Position.le] at h'
  omega

theorem locate_le_append (s t : List Char) : (locate s).le (locate (s ++ t)) = true := by
  rw [locate_append]
  exact le_after _ t

theorem locate_before_append (s : List Char) {t : List Char} (ht : t ≠ []) :
    (locate s).Before (locate (s ++ t)) := by
  cases t with
  | nil => exact absurd rfl ht
  | cons c t =>
    rw [locate_append]
    exact (before_step _ c).trans_le (le_after _ t)

end Position

namespace Token

/-- A token with its lexeme and the gap in front of it. -/
structure Tile where
  gap : List Char
  lexeme : List Char
  token : Token

/-- The characters that a tile covers. -/
def Tile.chars (t : Tile) : List Char := t.gap ++ t.lexeme

/-- The tile may stand between `before` and `behind`. -/
structure Tile.Fits (t : Tile) (before behind : List Char) : Prop where
  gap : IsGap (t.lexeme ++ behind) t.gap
  lexeme : IsLexeme behind t.token.kind t.lexeme t.token.value.toList
  pos : t.token.pos = Position.locate (before ++ t.gap)

/-- The tiles fit one behind the other from `before` on, and the gap `last` follows them. -/
def Tiles (last : List Char) : List Char → List Tile → Prop
  | _, [] => IsGap [] last
  | before, t :: r =>
    t.Fits before (r.flatMap Tile.chars ++ last) ∧ Tiles last (before ++ t.chars) r

/-- Such tiles in front of `rest`. -/
def TilesTo (rest last : List Char) : List Char → List Tile → Prop
  | _, [] => IsGap rest last
  | before, t :: r =>
    t.Fits before (r.flatMap Tile.chars ++ (last ++ rest)) ∧
      TilesTo rest last (before ++ t.chars) r

theorem tilesTo_nil_iff {last before : List Char} {tiles : List Tile} :
    TilesTo [] last before tiles ↔ Tiles last before tiles := by
  induction tiles generalizing before with
  | nil => rfl
  | cons t r ih => rw [TilesTo, Tiles, List.append_nil, ih]

/-- A piece of a gap goes to the tile that follows it. -/
theorem TilesTo.prepend {g rest last before : List Char} {tiles : List Tile}
    (hg : GapPiece g (tiles.flatMap Tile.chars ++ (last ++ rest)))
    (h : TilesTo rest last (before ++ g) tiles) :
    ∃ tiles' last', tiles'.flatMap Tile.chars ++ last' = g ++ (tiles.flatMap Tile.chars ++ last) ∧
      TilesTo rest last' before tiles' := by
  cases tiles with
  | nil => exact ⟨[], g ++ last, rfl, .cons hg h⟩
  | cons t r =>
    obtain ⟨hfits, hr⟩ := h
    have hchars : (⟨g ++ t.gap, t.lexeme, t.token⟩ : Tile).chars = g ++ t.chars :=
      List.append_assoc ..
    refine ⟨⟨g ++ t.gap, t.lexeme, t.token⟩ :: r, last, ?_, ⟨⟨.cons ?_ hfits.gap, hfits.lexeme, ?_⟩,
      ?_⟩⟩
    · simp only [List.flatMap_cons, hchars, List.append_assoc]
    · simpa [Tile.chars] using hg
    · rw [hfits.pos, List.append_assoc]
    · rwa [hchars, ← List.append_assoc]

/-- Tiles stay tiles where the source is cut behind them. -/
theorem TilesTo.cut {rest more last before : List Char} {tiles : List Tile}
    (h : TilesTo (rest ++ more) last before tiles) : TilesTo rest last before tiles := by
  induction tiles generalizing before with
  | nil => exact IsGap.cut h
  | cons t r ih =>
    obtain ⟨⟨hgap, hlexeme, hpos⟩, hr⟩ := h
    simp only [← List.append_assoc] at hgap hlexeme
    refine ⟨⟨?_, ?_, hpos⟩, ih hr⟩
    · simp only [← List.append_assoc]
      exact hgap.cut
    · simp only [← List.append_assoc]
      exact hlexeme.cut

/-- **Every source is tiled** up to its end or up to where there is no piece. -/
theorem exists_tilesTo (before s : List Char) :
    ∃ tiles last rest, s = tiles.flatMap Tile.chars ++ (last ++ rest) ∧
      TilesTo rest last before tiles ∧
      ∀ c r, rest = c :: r → ∃ cause, piece c r = .error cause := by
  -- on the length of `s`, since a piece takes any number of its characters
  induction hn : s.length using Nat.strongRecOn generalizing before s with
  | ind n ih =>
  cases s with
  | nil => exact ⟨[], [], [], rfl, .nil, nofun⟩
  | cons c r =>
    have hshort (m : Nat) : (r.drop m).length < n := by
      rw [← hn, List.length_drop, List.length_cons]
      omega
    have hsplit (m : Nat) : (c :: r.take m) ++ r.drop m = c :: r := by
      rw [List.cons_append, List.take_append_drop]
    cases hpiece : piece c r with
    | error cause =>
      refine ⟨[], [], c :: r, rfl, .nil, ?_⟩
      rintro _ _ ⟨⟩
      exact ⟨cause, hpiece⟩
    | ok x =>
      cases x with
      | gap m =>
        obtain ⟨tiles, last, rest, hchars, htiles, hrest⟩ :=
          ih _ (hshort m) (before ++ c :: r.take m) (r.drop m) rfl
        have hgap := gapPiece_of_piece hpiece
        rw [hchars] at hgap
        obtain ⟨tiles', last', hchars', htiles'⟩ := htiles.prepend hgap
        refine ⟨tiles', last', rest, ?_, htiles', hrest⟩
        rw [← List.append_assoc, hchars', List.append_assoc, List.append_assoc, ← hchars, hsplit]
      | lexeme k value m =>
        obtain ⟨tiles, last, rest, hchars, htiles, hrest⟩ :=
          ih _ (hshort m) (before ++ c :: r.take m) (r.drop m) rfl
        have hlexeme := isLexeme_of_piece hpiece
        rw [hchars] at hlexeme
        let tile : Tile := ⟨[], c :: r.take m, ⟨k, String.ofList value, Position.locate before⟩⟩
        refine ⟨tile :: tiles, last, rest, ?_, ⟨⟨.nil, ?_, ?_⟩, htiles⟩, hrest⟩
        · rw [List.flatMap_cons, List.append_assoc, ← hchars]
          exact (hsplit m).symm
        · rw [String.toList_ofList]
          exact hlexeme
        · rw [List.append_nil]

/-! ## How far the scanner gets -/

/-- The tokens that the scanner finds, and the end or the failure at which it stops. -/
structure Progress where
  found : List Token
  stop : Except Failure Token

def Progress.result (x : Progress) : Except Failure (List Token) := x.stop.map (x.found ++ [·])

/-- The tokens were found before. -/
def Progress.behind (x : Progress) (us : List Token) : Progress := ⟨us ++ x.found, x.stop⟩

theorem Progress.result_behind (x : Progress) (us : List Token) :
    (x.behind us).result = x.result.map (us ++ ·) := by
  obtain ⟨found, stop⟩ := x
  cases stop with
  | error f => rfl
  | ok e => exact congrArg Except.ok (List.append_assoc us found [e])

/-- `scanFrom` with the tokens that it has found where it stops. -/
def progressFrom (p : Position) : Nat → List Char → Progress
  | _, [] => ⟨[], .ok ⟨.finish, "", p⟩⟩
  | skip + 1, c :: r => progressFrom (p.step c) skip r
  | 0, c :: r =>
    match piece c r with
    | .error cause => ⟨[], .error ⟨p, cause⟩⟩
    | .ok (.gap more) => progressFrom (p.step c) more r
    | .ok (.lexeme kind value more) =>
      (progressFrom (p.step c) more r).behind [⟨kind, String.ofList value, p⟩]

theorem progressFrom_nil (p : Position) (skip : Nat) :
    progressFrom p skip [] = ⟨[], .ok ⟨.finish, "", p⟩⟩ := by
  cases skip <;> rfl

theorem progressFrom_succ (p : Position) (skip : Nat) (c : Char) (r : List Char) :
    progressFrom p (skip + 1) (c :: r) = progressFrom (p.step c) skip r := rfl

theorem progressFrom_cons (p : Position) (c : Char) (r : List Char) : progressFrom p 0 (c :: r) =
    match piece c r with
    | .error cause => ⟨[], .error ⟨p, cause⟩⟩
    | .ok (.gap more) => progressFrom (p.step c) more r
    | .ok (.lexeme kind value more) =>
      (progressFrom (p.step c) more r).behind [⟨kind, String.ofList value, p⟩] := rfl

def progress (source : String) : Progress := progressFrom .start 0 source.toList

/-- A scan yields what was found and the end, if the scanner gets there. -/
theorem scanFrom_eq_result (p : Position) (skip : Nat) (s : List Char) :
    scanFrom p skip s = (progressFrom p skip s).result := by
  induction s generalizing p skip with
  | nil => rw [scanFrom, progressFrom_nil]; rfl
  | cons c r ih =>
    cases skip with
    | succ skip => rw [scanFrom, progressFrom_succ, ih]
    | zero =>
      rw [scanFrom, progressFrom_cons]
      cases piece c r with
      | error cause => rfl
      | ok x =>
        cases x with
        | gap more => exact ih _ _
        | lexeme kind value more =>
          simp only [ih]
          obtain ⟨found, stop⟩ := progressFrom (p.step c) more r
          cases stop <;> rfl

theorem scan_eq_result (source : String) : scan source = (progress source).result :=
  scanFrom_eq_result _ _ _

/-- Characters that belong to the piece at hand move the position only. -/
theorem progressFrom_skip (p : Position) (s r : List Char) :
    progressFrom p s.length (s ++ r) = progressFrom (p.after s) 0 r := by
  induction s generalizing p with
  | nil => rfl
  | cons c s ih =>
    rw [List.length_cons, List.cons_append, progressFrom_succ, ih, Position.after_cons]

theorem progressFrom_gap {rest g : List Char} (h : IsGap rest g) (p : Position) :
    progressFrom p 0 (g ++ rest) = progressFrom (p.after g) 0 rest := by
  induction h generalizing p with
  | nil => rfl
  | @cons g s hg hs ih =>
    cases g with
    | nil => cases hg
    | cons c g =>
      rw [List.append_assoc, List.cons_append, progressFrom_cons, piece_of_gapPiece hg]
      simp only
      rw [progressFrom_skip, ih, Position.after_append, Position.after_cons]

theorem progressFrom_lexeme {rest s value : List Char} {k : TokenKind}
    (h : IsLexeme rest k s value) (p : Position) : progressFrom p 0 (s ++ rest) =
      (progressFrom (p.after s) 0 rest).behind [⟨k, String.ofList value, p⟩] := by
  cases s with
  | nil => exact absurd rfl h.ne_nil
  | cons c s =>
    rw [List.cons_append, progressFrom_cons, piece_of_isLexeme h]
    simp only
    rw [progressFrom_skip, Position.after_cons]

/-- **Through tiles** the scanner finds their tokens, and goes on behind them. -/
theorem progressFrom_tiles {rest last before : List Char} {tiles : List Tile}
    (h : TilesTo rest last before tiles) :
    progressFrom (Position.locate before) 0 (tiles.flatMap Tile.chars ++ (last ++ rest)) =
      (progressFrom (Position.locate (before ++ (tiles.flatMap Tile.chars ++ last))) 0 rest).behind
        (tiles.map Tile.token) := by
  induction tiles generalizing before with
  | nil =>
    show progressFrom _ 0 (last ++ rest) = _
    rw [progressFrom_gap h, ← Position.locate_append]
    rfl
  | cons t r ih =>
    obtain ⟨⟨hgap, hlexeme, hpos⟩, hr⟩ := h
    have htoken : (⟨t.token.kind, String.ofList t.token.value.toList,
        Position.locate (before ++ t.gap)⟩ : Token) = t.token := by
      rw [String.ofList_toList, ← hpos]
    rw [List.flatMap_cons, Tile.chars, List.append_assoc, List.append_assoc, progressFrom_gap hgap,
      progressFrom_lexeme hlexeme, ← Position.locate_append, ← Position.locate_append, htoken,
      List.append_assoc before, ← Tile.chars, ih hr]
    simp only [Progress.behind, List.map_cons, List.append_assoc, List.cons_append, Tile.chars,
      List.nil_append]

/-- Characters that have been dealt with move the position only. -/
theorem scanFrom_eq_drop (p : Position) (skip : Nat) (s : List Char) :
    scanFrom p skip s = scanFrom (p.after (s.take skip)) 0 (s.drop skip) := by
  induction s generalizing p skip with
  | nil => rw [List.take_nil, List.drop_nil, Position.after_nil, scanFrom, scanFrom]
  | cons c r ih =>
    cases skip with
    | zero => rfl
    | succ skip =>
      rw [scanFrom, ih, List.take_succ_cons, List.drop_succ_cons, Position.after_cons]

/-- The scanner goes on behind the piece. -/
theorem scanFrom_cons (p : Position) (c : Char) (r : List Char) :
    scanFrom p 0 (c :: r) =
      match piece c r with
      | .error cause => .error ⟨p, cause⟩
      | .ok (.gap m) => scanFrom ((p.step c).after (r.take m)) 0 (r.drop m)
      | .ok (.lexeme k v m) =>
        (scanFrom ((p.step c).after (r.take m)) 0 (r.drop m)).map (⟨k, String.ofList v, p⟩ :: ·) := by
  rw [scanFrom]
  cases piece c r with
  | error cause => rfl
  | ok x =>
    cases x with
    | gap m =>
      simp only
      rw [scanFrom_eq_drop]
    | lexeme k v m =>
      simp only
      rw [scanFrom_eq_drop]
      cases scanFrom ((p.step c).after (r.take m)) 0 (r.drop m) <;> rfl

/-- Tiles up to the end of a source tell its tokens. -/
theorem scan_of_tiles {source : String} {last : List Char} {tiles : List Tile}
    (hchars : source.toList = tiles.flatMap Tile.chars ++ last) (h : Tiles last [] tiles) :
    scan source =
      .ok (tiles.map Tile.token ++ [⟨.finish, "", Position.locate source.toList⟩]) := by
  have hprogress := progressFrom_tiles (tilesTo_nil_iff.2 h)
  rw [List.append_nil, ← hchars, progressFrom_nil, Progress.behind, List.append_nil] at hprogress
  rw [scan_eq_result, progress]
  exact congrArg Progress.result hprogress

theorem tiles_of_scanFrom {before s : List Char} {ts : List Token}
    (h : scanFrom (Position.locate before) 0 s = .ok ts) :
    ∃ tiles last, s = tiles.flatMap Tile.chars ++ last ∧ Tiles last before tiles ∧
      ts = tiles.map Tile.token ++ [⟨.finish, "", Position.locate (before ++ s)⟩] := by
  obtain ⟨tiles, last, rest, rfl, htiles, hrest⟩ := exists_tilesTo before s
  rw [scanFrom_eq_result, progressFrom_tiles htiles] at h
  cases rest with
  | nil =>
    rw [progressFrom_nil] at h
    cases h
    rw [List.append_nil]
    refine ⟨tiles, last, rfl, tilesTo_nil_iff.1 htiles, ?_⟩
    simp only [Progress.behind, List.append_nil]
  | cons c r =>
    obtain ⟨cause, hpiece⟩ := hrest c r rfl
    rw [progressFrom_cons, hpiece] at h
    cases h

theorem Tile.Fits.pos_before {t : Tile} {before behind : List Char} (h : t.Fits before behind) :
    t.token.pos.Before (Position.locate (before ++ t.chars)) := by
  rw [h.pos, Tile.chars, ← List.append_assoc]
  exact Position.locate_before_append _ h.lexeme.ne_nil

theorem Tiles.le_pos {last before : List Char} {tiles : List Tile} (h : Tiles last before tiles) :
    ∀ t ∈ tiles, (Position.locate before).le t.token.pos = true := by
  induction tiles generalizing before with
  | nil => simp
  | cons t r ih =>
    obtain ⟨hfits, hr⟩ := h
    rintro u (_ | ⟨_, hu⟩)
    · rw [hfits.pos]
      exact Position.locate_le_append before t.gap
    · exact Position.le_trans (Position.locate_le_append before t.chars) (ih hr u hu)

/-- The tokens of tiles stand at increasing positions, and the end behind all of them. -/
theorem Tiles.increasing {last before : List Char} {tiles : List Tile} {e : Token}
    (h : Tiles last before tiles)
    (he : e.pos = Position.locate (before ++ (tiles.flatMap Tile.chars ++ last))) :
    (tiles.map Tile.token ++ [e]).Pairwise fun t u => t.pos.Before u.pos := by
  induction tiles generalizing before with
  | nil => exact List.pairwise_singleton ..
  | cons t r ih =>
    obtain ⟨hfits, hr⟩ := h
    rw [List.flatMap_cons, List.append_assoc, ← List.append_assoc before] at he
    refine List.pairwise_cons.2 ⟨fun u hu => hfits.pos_before.trans_le ?_, ih hr he⟩
    rcases List.mem_append.1 hu with hu | hu
    · obtain ⟨v, hv, rfl⟩ := List.mem_map.1 hu
      exact hr.le_pos v hv
    · rw [List.mem_singleton.1 hu, he]
      exact Position.locate_le_append ..

theorem Tiles.lexeme_of_mem {last before : List Char} {tiles : List Tile} {t : Tile}
    (h : Tiles last before tiles) (ht : t ∈ tiles) :
    ∃ behind, IsLexeme behind t.token.kind t.lexeme t.token.value.toList := by
  induction tiles generalizing before with
  | nil => cases ht
  | cons u r ih =>
    rcases List.mem_cons.1 ht with rfl | ht
    · exact ⟨_, h.1.lexeme⟩
    · exact ih h.2 ht

/-- The source of a scan is gaps and lexemes, one lexeme for each token but the end.  The tokens
carry their lexemes, a string what its interior stands for, and the positions of their first
characters, and so does the end; the positions increase. -/
theorem tiling_of_scan {source : String} {ts : List Token} (h : scan source = .ok ts) :
    ∃ tiles last, source.toList = tiles.flatMap Tile.chars ++ last ∧ Tiles last [] tiles ∧
      ts = tiles.map Tile.token ++ [⟨.finish, "", Position.locate source.toList⟩] ∧
      (∀ t ∈ tiles, t.lexeme ≠ [] ∧
        (t.token.kind ≠ .string → t.token.value.toList = t.lexeme)) ∧
      ts.Pairwise fun t u => t.pos.Before u.pos := by
  have hscan : scanFrom (Position.locate []) 0 source.toList = .ok ts := h
  obtain ⟨tiles, last, hchars, htiles, rfl⟩ := tiles_of_scanFrom hscan
  refine ⟨tiles, last, hchars, htiles, rfl, fun t ht => ?_, htiles.increasing ?_⟩
  · obtain ⟨behind, hlexeme⟩ := htiles.lexeme_of_mem ht
    exact ⟨hlexeme.ne_nil, hlexeme.value_eq⟩
  · rw [List.nil_append, ← hchars]
    rfl

theorem tiling_of_scan_comments : ∃ ts tiles last,
    scan "/* a /* b */ */0xF_2 'a\n\"\\n\\\n\" <=// end" = .ok ts ∧ ts.length = 5 ∧
      Tiles last [] tiles ∧ ts.Pairwise fun t u => t.pos.Before u.pos := by
  have hscan : scan "/* a /* b */ */0xF_2 'a\n\"\\n\\\n\" <=// end" =
      .ok [⟨.number, "0xF_2", ⟨1, 16⟩⟩, ⟨.tvar, "'a", ⟨1, 22⟩⟩, ⟨.string, "\n\n", ⟨2, 1⟩⟩,
        ⟨.operator, "<=", ⟨3, 3⟩⟩, ⟨.finish, "", ⟨3, 11⟩⟩] := by
    cbv
  obtain ⟨tiles, last, -, htiles, -, -, hpos⟩ := tiling_of_scan hscan
  exact ⟨_, tiles, last, hscan, rfl, htiles, hpos⟩

end Token

end ContractInterface
