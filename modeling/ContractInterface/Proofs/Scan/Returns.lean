import ContractInterface.Proofs.Scan.Lines
import ContractInterface.Proofs.Text.Returns

/-!
# Scanning with returns

A return in front of a line feed is a blank like any other, and stands at the end of its line.  So a
source with returns is scanned like one without, to the same tokens at the same positions:

    scan (withReturns s) = scan s        unless a string of s goes on behind a line feed

In a string, a backslash protects the character behind it, and with it a line feed.  With returns it
protects the return instead, and the string is cut short (`scanFrom_withReturns_cons`).  The first such
string (`SplitsFirst`) is where a source with returns fails (`scan_withReturns_of_splits`).
-/

namespace ContractInterface

open Text (withReturns withReturns_feed withReturns_cons withReturns_append withReturns_eq_self)

theorem Position.after_withReturns (p : Position) (s : List Char) :
    p.after (withReturns s) = p.after s := by
  induction s generalizing p with
  | nil => rfl
  | cons c s ih =>
    by_cases hc : c = '\n'
    · have hstep : (p.step '\r').step '\n' = p.step '\n' := rfl
      rw [hc, withReturns_feed, after_cons, after_cons, hstep, ih, after_cons]
    · rw [withReturns_cons hc, after_cons, ih, after_cons]

namespace Token

/-! ## Pieces with returns -/

theorem sameLine_withReturns (s : List Char) : SameLine s (withReturns s) := by
  induction s with
  | nil => exact .ends nofun nofun
  | cons c s ih =>
    have hends {d : Char} (hd : d = '\n' ∨ d = '\r') (u : List Char) : EndsLine (d :: u) := by
      rintro e ⟨⟩
      exact hd
    by_cases hfeed : c = '\n'
    · rw [hfeed, withReturns_feed]
      exact .ends (hends (.inl rfl) _) (hends (.inr rfl) _)
    · rw [withReturns_cons hfeed]
      by_cases hreturn : c = '\r'
      · exact .ends (hends (.inr hreturn) _) (hends (.inr hreturn) _)
      · exact .char ⟨hfeed, hreturn⟩ ih

/-- A comment is closed by the same mark. -/
theorem closeComment_withReturns (depth : Nat) (s : List Char) :
    closeComment depth (withReturns s) =
      (closeComment depth s).map fun n => (withReturns (s.take n)).length := by
  fun_induction closeComment depth s with
  | case1 s =>
    rw [closeComment]
    rfl
  | case2 depth => rfl
  | case3 depth r ih =>
    rw [withReturns_cons (by decide), withReturns_cons (by decide), closeComment, ih, Option.map_map,
      Option.map_map]
    rfl
  | case4 depth r ih =>
    rw [withReturns_cons (by decide), withReturns_cons (by decide), closeComment, ih, Option.map_map,
      Option.map_map]
    rfl
  | case5 depth c r hopen hclose ih =>
    by_cases hc : c = '\n'
    · have hmark {d : Char} (hd : d = '\r' ∨ d = '\n') (u : List Char) : ¬StartsMark (d :: u) := by
        rw [startsMark_cons_iff]
        obtain rfl | rfl := hd <;> simp
      rw [hc, withReturns_feed, closeComment_cons (hmark (.inl rfl) _),
        closeComment_cons (hmark (.inr rfl) _), ih, Option.map_map, Option.map_map, Option.map_map]
      rfl
    · have hsame := sameLine_withReturns r
      have hmark : ¬StartsMark (c :: withReturns r) := by
        rw [startsMark_cons_iff, hsame.head?_eq_some_iff (by decide),
          hsame.head?_eq_some_iff (by decide), ← startsMark_cons_iff]
        rintro (⟨t, ht⟩ | ⟨t, ht⟩) <;> cases ht
        · exact hopen _ rfl rfl
        · exact hclose _ rfl rfl
      rw [withReturns_cons hc, closeComment_cons hmark, ih, Option.map_map, Option.map_map]
      congr 1
      funext n
      show _ = (withReturns (c :: r.take n)).length
      rw [withReturns_cons hc]
      rfl

theorem contains_take_cons {c : Char} (hc : c ≠ '\n') (s : List Char) (n : Nat) :
    ((c :: s).take (n + 1)).contains '\n' = (s.take n).contains '\n' := by
  have hne : ('\n' == c) = false := by simpa using Ne.symm hc
  rw [List.take_succ_cons, List.contains_cons, hne, Bool.false_or]

/-- A string is read up to the same quote, unless a line feed stands in front of it. -/
theorem readString_withReturns (s : List Char) : readString (withReturns s) =
    (readString s).filter fun x => !(s.take x.2).contains '\n' := by
  have hfeed (t : List Char) : readString ('\n' :: t) = none := by rw [readString]
  fun_induction readString s with
  | case1 => rfl
  | case2 s =>
    rw [withReturns_cons (by decide), readString]
    rfl
  | case3 s =>
    rw [withReturns_feed, readString, hfeed]
    · rfl
    all_goals
      intros
      contradiction
  | case4 c s ih =>
    rw [withReturns_cons (by decide)]
    by_cases hc : c = '\n'
    · -- the backslash protects the return, not the line feed
      rw [hc, withReturns_feed, readString, hfeed]
      cases readString s with
      | none => rfl
      | some x => rfl
    · rw [withReturns_cons hc, readString, ih]
      cases readString s with
      | none => rfl
      | some x =>
        obtain ⟨v, n⟩ := x
        have hbackslash := contains_take_cons (c := '\\') (by decide) (c :: s) (n + 1)
        simp only [Option.filter_some, Option.map_some, hbackslash, contains_take_cons hc]
        split <;> rfl
  | case5 c s hquote hnofeed hescape ih =>
    rw [withReturns_cons hnofeed]
    rw [readString, ih]
    · cases readString s with
      | none => rfl
      | some x =>
        obtain ⟨v, n⟩ := x
        simp only [Option.filter_some, Option.map_some, contains_take_cons hnofeed]
        split <;> rfl
    · exact hquote
    · exact hnofeed
    · rintro d t rfl hs
      -- nothing stands behind the backslash
      cases s with
      | nil => cases hs
      | cons e s => exact hescape e s rfl rfl

/-! ## One piece -/

theorem piece_return (r : List Char) : piece '\r' r = .ok (.gap 0) := rfl

/-- Behind as many characters as another source has in front, with their returns. -/
theorem drop_withReturns (r : List Char) (m : Nat) :
    (withReturns r).take (withReturns (r.take m)).length = withReturns (r.take m) ∧
      (withReturns r).drop (withReturns (r.take m)).length = withReturns (r.drop m) := by
  have hsplit : withReturns r = withReturns (r.take m) ++ withReturns (r.drop m) := by
    rw [← withReturns_append, List.take_append_drop]
  rw [hsplit]
  exact ⟨List.take_left, List.drop_left⟩

theorem drop_withReturns_of_notMem {r : List Char} {m : Nat} (hm : m ≤ r.length)
    (hfeed : '\n' ∉ r.take m) :
    (withReturns r).take m = r.take m ∧ (withReturns r).drop m = withReturns (r.drop m) := by
  have hdrop := drop_withReturns r m
  rwa [withReturns_eq_self hfeed, List.length_take_of_le hm] at hdrop

/-- A comment that ends with its line takes the return in with it. -/
theorem scanFrom_lineComment (p : Position) (r : List Char) :
    scanFrom (p.after ((withReturns r).takeWhile (· ≠ '\n'))) 0
        ((withReturns r).dropWhile (· ≠ '\n')) =
      scanFrom (p.after (r.takeWhile (· ≠ '\n'))) 0 (withReturns (r.dropWhile (· ≠ '\n'))) := by
  induction r generalizing p with
  | nil => rfl
  | cons c r ih =>
    by_cases hc : c = '\n'
    · rw [hc, withReturns_feed]
      show scanFrom (p.step '\r') 0 ('\n' :: withReturns r) =
        scanFrom p 0 (withReturns ('\n' :: r))
      rw [withReturns_feed, scanFrom_cons p, piece_return]
      rfl
    · rw [withReturns_cons hc]
      simp only [List.takeWhile_cons, List.dropWhile_cons, ne_eq, hc, not_false_eq_true, decide_true,
        if_true, Position.after_cons]
      exact ih (p.step c)

/-- **One piece with returns**: the scanner finds the same one and goes on behind it, unless it is a
string that goes on behind a line feed. -/
theorem scanFrom_withReturns_cons (p : Position) (c : Char) (r : List Char) :
    scanFrom p 0 (withReturns (c :: r)) =
      match piece c r with
      | .error cause => .error ⟨p, cause⟩
      | .ok (.gap m) => scanFrom ((p.step c).after (r.take m)) 0 (withReturns (r.drop m))
      | .ok (.lexeme k v m) =>
        if k = .string ∧ '\n' ∈ r.take m then .error ⟨p, .scan Cause.scanDetail⟩
        else (scanFrom ((p.step c).after (r.take m)) 0 (withReturns (r.drop m))).map
          (⟨k, String.ofList v, p⟩ :: ·) := by
  by_cases hfeed : c = '\n'
  · have hstep : (p.step '\r').step '\n' = p.step '\n' := rfl
    rw [hfeed, withReturns_feed, scanFrom_cons, piece_return, piece_feed]
    simp only [List.take_zero, Position.after_nil, List.drop_zero]
    rw [scanFrom_cons, piece_feed]
    rfl
  rw [withReturns_cons hfeed, scanFrom_cons]
  have hsame := sameLine_withReturns r
  by_cases hquote : c = '"'
  · rw [hquote, piece_quote, piece_quote, readString_withReturns]
    cases hread : readString r with
    | none => rfl
    | some x =>
      obtain ⟨v, n⟩ := x
      by_cases hmem : '\n' ∈ r.take n
      · simp [Option.filter_some, hmem]
      · obtain ⟨htake, hdrop⟩ := drop_withReturns_of_notMem (readString_le hread) hmem
        simp [Option.filter_some, hmem, htake, hdrop]
  by_cases hcomment : StartsComment (c :: r)
  · obtain ⟨rfl, hhead | hhead⟩ := startsComment_cons_iff.1 hcomment
    · have hhead' := (hsame.head?_eq_some_iff (by decide)).2 hhead
      rw [piece_lineComment hhead, piece_lineComment hhead']
      simp only [take_length_takeWhile, drop_length_takeWhile]
      exact scanFrom_lineComment _ r
    · obtain ⟨t, rfl⟩ := List.head?_eq_some_iff.1 hhead
      rw [withReturns_cons (by decide), piece_blockComment, piece_blockComment,
        closeComment_withReturns]
      cases closeComment 1 t with
      | none => rfl
      | some n =>
        obtain ⟨htake, hdrop⟩ := drop_withReturns t n
        simp only [Option.map_some, List.take_succ_cons, List.drop_succ_cons, htake, hdrop,
          Position.after_cons, Position.after_withReturns]
  · have hpiece := hsame.piece_eq hquote hcomment
    rw [hpiece]
    cases hresult : piece c r with
    | error cause => rfl
    | ok x =>
      cases x with
      | gap m =>
        obtain ⟨htake, hdrop⟩ := drop_withReturns_of_notMem (le_length_of_piece (.inl hresult))
          (feed_notMem_of_piece hquote hcomment (.inl hresult))
        simp only [htake, hdrop]
      | lexeme k v m =>
        have hmem := feed_notMem_of_piece hquote hcomment (.inr ⟨k, v, hresult⟩)
        obtain ⟨htake, hdrop⟩ := drop_withReturns_of_notMem
          (le_length_of_piece (.inr ⟨k, v, hresult⟩)) hmem
        simp only [htake, hdrop, if_neg fun h : k = .string ∧ _ => hmem h.2]

/-! ## Through tiles -/

theorem scanFrom_withReturns_gap {rest g : List Char} (h : IsGap rest g) (p : Position) :
    scanFrom p 0 (withReturns (g ++ rest)) = scanFrom (p.after g) 0 (withReturns rest) := by
  induction h generalizing p with
  | nil => rfl
  | @cons g s hg hs ih =>
    cases g with
    | nil => cases hg
    | cons c g =>
      rw [List.append_assoc, List.cons_append, scanFrom_withReturns_cons, piece_of_gapPiece hg]
      simp only [List.take_left, List.drop_left]
      rw [ih, Position.after_append, Position.after_cons]

theorem scanFrom_withReturns_lexeme {rest s value : List Char} {k : TokenKind}
    (h : IsLexeme rest k s value) (p : Position) : scanFrom p 0 (withReturns (s ++ rest)) =
      if k = .string ∧ '\n' ∈ s then .error ⟨p, .scan Cause.scanDetail⟩
      else (scanFrom (p.after s) 0 (withReturns rest)).map (⟨k, String.ofList value, p⟩ :: ·) := by
  cases s with
  | nil => exact absurd rfl h.ne_nil
  | cons c s =>
    have hpiece := piece_of_isLexeme h
    have hc : '\n' ≠ c := by
      rintro rfl
      rw [piece_feed] at hpiece
      cases hpiece
    rw [List.cons_append, scanFrom_withReturns_cons, hpiece]
    simp only [List.take_left, List.drop_left, List.mem_cons, hc, false_or, Position.after_cons]

/-- The tile of a string that goes on behind a line feed. -/
def Tile.Splits (t : Tile) : Prop := t.token.kind = .string ∧ '\n' ∈ t.lexeme

instance : DecidablePred Tile.Splits := fun t =>
  inferInstanceAs (Decidable (t.token.kind = .string ∧ '\n' ∈ t.lexeme))

/-- With returns the scanner finds the same tokens on its way, if no string goes on behind a line
feed. -/
theorem scanFrom_withReturns_tiles {rest last before : List Char} {tiles : List Tile}
    (h : TilesTo rest last before tiles) (hsplits : ∀ u ∈ tiles, ¬u.Splits) :
    scanFrom (Position.locate before) 0
        (withReturns (tiles.flatMap Tile.chars ++ (last ++ rest))) =
      (scanFrom (Position.locate (before ++ (tiles.flatMap Tile.chars ++ last))) 0
        (withReturns rest)).map (tiles.map Tile.token ++ ·) := by
  have hmap_nil (x : Except Failure (List Token)) : x.map (([] : List Token) ++ ·) = x := by
    cases x <;> rfl
  have hmap_map (x : Except Failure (List Token)) (u : Token) (us : List Token) :
      (x.map (us ++ ·)).map (u :: ·) = x.map (u :: us ++ ·) := by
    cases x <;> rfl
  induction tiles generalizing before with
  | nil =>
    show scanFrom _ 0 (withReturns (last ++ rest)) = _
    rw [scanFrom_withReturns_gap h, ← Position.locate_append]
    exact (hmap_nil _).symm
  | cons t r ih =>
    obtain ⟨⟨hgap, hlexeme, hpos⟩, hr⟩ := h
    obtain ⟨ht, hsplits⟩ := List.forall_mem_cons.1 hsplits
    have ht : ¬(t.token.kind = .string ∧ '\n' ∈ t.lexeme) := ht
    have htoken : (⟨t.token.kind, String.ofList t.token.value.toList,
        Position.locate (before ++ t.gap)⟩ : Token) = t.token := by
      rw [String.ofList_toList, ← hpos]
    rw [List.flatMap_cons, Tile.chars, List.append_assoc, List.append_assoc,
      scanFrom_withReturns_gap hgap, scanFrom_withReturns_lexeme hlexeme, if_neg ht,
      ← Position.locate_append, ← Position.locate_append, htoken, List.append_assoc before,
      ← Tile.chars, ih hr hsplits, hmap_map]
    simp only [List.map_cons, List.append_assoc, Tile.chars]

/-! ## Sources with returns -/

/-- The first string of a source that goes on behind a line feed: gaps and lexemes lead up to it, and
among these is no such string. -/
def SplitsFirst (s : List Char) (t : Tile) : Prop :=
  ∃ tiles rest, s = tiles.flatMap Tile.chars ++ (t.chars ++ rest) ∧
    TilesTo (t.chars ++ rest) [] [] tiles ∧ t.Fits (tiles.flatMap Tile.chars) rest ∧
    t.Splits ∧ ∀ u ∈ tiles, ¬u.Splits

/-- Tiles up to one of them, and what that one is in front of. -/
theorem TilesTo.upTo {rest last before : List Char} {us : List Tile} {t : Tile} {vs : List Tile}
    (h : TilesTo rest last before (us ++ t :: vs)) :
    TilesTo (t.chars ++ (vs.flatMap Tile.chars ++ (last ++ rest))) [] before us ∧
      t.Fits (before ++ us.flatMap Tile.chars) (vs.flatMap Tile.chars ++ (last ++ rest)) := by
  induction us generalizing before with
  | nil =>
    obtain ⟨hfits, -⟩ := h
    rw [List.flatMap_nil, List.append_nil]
    exact ⟨.nil, hfits⟩
  | cons u us ih =>
    obtain ⟨hfits, hr⟩ := h
    obtain ⟨htiles, ht⟩ := ih hr
    rw [List.append_eq, List.flatMap_append, List.flatMap_cons, List.append_assoc,
      List.append_assoc] at hfits
    rw [List.flatMap_cons, ← List.append_assoc before]
    exact ⟨⟨hfits, htiles⟩, ht⟩

/-- Tiles with a string that goes on behind a line feed have a first one. -/
theorem exists_splitsFirst {rest last : List Char} {tiles : List Tile} {u : Tile}
    (h : TilesTo rest last [] tiles) (hu : u ∈ tiles) (hsplits : u.Splits) :
    ∃ t, SplitsFirst (tiles.flatMap Tile.chars ++ (last ++ rest)) t := by
  cases hfind : tiles.find? (fun u => decide u.Splits) with
  | none => exact absurd hsplits (by simpa using List.find?_eq_none.1 hfind u hu)
  | some t =>
    obtain ⟨ht, us, vs, rfl, hus⟩ := List.find?_eq_some_iff_append.1 hfind
    obtain ⟨htiles, hfits⟩ := h.upTo
    refine ⟨t, us, _, ?_, htiles, hfits, by simpa using ht, by simpa using hus⟩
    simp only [List.flatMap_append, List.flatMap_cons, List.append_assoc]

/-- **With returns a source is scanned alike**, as long as no string goes on behind a line feed. -/
theorem scan_withReturns {s : List Char} (h : ∀ t, ¬SplitsFirst s t) :
    scanFrom .start 0 (withReturns s) = scanFrom .start 0 s := by
  obtain ⟨tiles, last, rest, rfl, htiles, hrest⟩ := exists_tilesTo [] s
  have hsplits : ∀ u ∈ tiles, ¬u.Splits := fun u hu hsplits =>
    (exists_splitsFirst htiles hu hsplits).elim h
  have hfound : scanFrom (Position.locate []) 0 (tiles.flatMap Tile.chars ++ (last ++ rest)) =
      (scanFrom (Position.locate ([] ++ (tiles.flatMap Tile.chars ++ last))) 0 rest).map
        (tiles.map Tile.token ++ ·) := by
    rw [scanFrom_eq_result, progressFrom_tiles htiles, Progress.result_behind, scanFrom_eq_result]
  refine (scanFrom_withReturns_tiles htiles hsplits).trans (Eq.trans ?_ hfound.symm)
  -- what follows the tiles is the end, or is where there is no piece
  cases rest with
  | nil => rfl
  | cons c r =>
    obtain ⟨cause, hpiece⟩ := hrest c r rfl
    rw [scanFrom_withReturns_cons, scanFrom_cons, hpiece]

/-- **The first string that goes on behind a line feed** is where a source with returns fails.  Without
them, the scanner finds the string and gets past it. -/
theorem scan_withReturns_of_splits {s : List Char} {t : Tile} (h : SplitsFirst s t) :
    scanFrom .start 0 (withReturns s) = .error ⟨t.token.pos, .scan Cause.scanDetail⟩ ∧
      t.token ∈ (progressFrom .start 0 s).found := by
  obtain ⟨tiles, rest, rfl, htiles, ⟨hgap, hlexeme, hpos⟩, ht, hsplits⟩ := h
  have ht : t.token.kind = .string ∧ '\n' ∈ t.lexeme := ht
  constructor
  · refine (scanFrom_withReturns_tiles htiles hsplits).trans ?_
    rw [List.append_nil, Tile.chars, List.append_assoc, scanFrom_withReturns_gap hgap,
      scanFrom_withReturns_lexeme hlexeme, if_pos ht, ← Position.locate_append, List.nil_append,
      ← hpos]
    rfl
  · have hfound : progressFrom .start 0 (tiles.flatMap Tile.chars ++ (t.chars ++ rest)) = _ :=
      progressFrom_tiles htiles
    rw [hfound, Tile.chars, List.append_assoc, progressFrom_gap hgap, progressFrom_lexeme hlexeme,
      String.ofList_toList, List.append_nil, ← Position.locate_append, List.nil_append, ← hpos]
    simp [Progress.behind]

end Token

end ContractInterface
