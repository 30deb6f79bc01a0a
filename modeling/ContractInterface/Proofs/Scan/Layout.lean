import ContractInterface.Proofs.Scan.Tiling

/-!
# Lexemes in another layout

No lexeme but a string holds a blank, and a string ends at its quote.  So lexemes stay lexemes where
they are set apart (`IsLexeme.extend`), and a source that is laid out anew, with other gaps between
its lexemes, has the same tokens somewhere else:

    Tiles last [] tiles → text = gap₁ lexeme₁ … gapₙ lexemeₙ gap →
      scan text = .ok ts', where ts' are spelled as the tokens of the tiles           (scan_relaid)
-/

namespace ContractInterface

namespace Token

theorem isSpace_iff {c : Char} : isSpace c = true ↔ c ∈ [' ', '\t', '\r', '\n'] := by
  simp [isSpace, or_assoc]

/-! ## Set apart -/

/-- A blank comes next, or the source ends. -/
def Apart (rest : List Char) : Prop := ∀ c ∈ rest.head?, isSpace c = true

theorem apart_cons {c : Char} (hc : isSpace c = true) (rest : List Char) : Apart (c :: rest) := by
  rintro d ⟨⟩
  exact hc

/-- What has no blanks in it ends in front of them. -/
theorem prefix_of_apart {rest more t : List Char} (hmore : Apart more) (ht : t <+: rest ++ more)
    (hspace : ∀ c ∈ t, isSpace c = false) : t <+: rest := by
  obtain h | ⟨u, rfl⟩ := List.prefix_or_prefix_of_prefix ht (List.prefix_append rest more)
  · exact h
  · rw [List.prefix_append_right_inj] at ht
    cases u with
    | nil => rw [List.append_nil]
    | cons c u =>
      obtain ⟨v, rfl⟩ := ht
      have hyes := hmore c rfl
      rw [hspace c (by simp)] at hyes
      cases hyes

theorem Longest.extend {C : List Char → Prop} {s rest more : List Char}
    (hC : ∀ w, C w → ∀ c ∈ w, isSpace c = false) (h : Longest C s rest) (hmore : Apart more) :
    Longest C s (rest ++ more) := by
  refine ⟨h.mem, fun t ht hCt => h.eq_nil t (prefix_of_apart hmore ht fun c hc => ?_) hCt⟩
  exact hC _ hCt c (List.mem_append_right s hc)

/-- Blanks are in no class of characters that does not have them. -/
theorem isSpace_eq_false {p : Char → Bool}
    (hp : p ' ' = false ∧ p '\t' = false ∧ p '\r' = false ∧ p '\n' = false) {c : Char}
    (hc : p c = true) : isSpace c = false := by
  rw [Bool.eq_false_iff]
  intro hspace
  obtain ⟨h₁, h₂, h₃, h₄⟩ := hp
  simp only [isSpace_iff, List.mem_cons, List.not_mem_nil, or_false] at hspace
  obtain rfl | rfl | rfl | rfl := hspace <;> simp_all

theorem isSpace_of_isName {w : List Char} (h : IsName w) : ∀ c ∈ w, isSpace c = false := by
  obtain ⟨c, r, rfl, hc, hr⟩ := h
  have hname : ∀ d ∈ c :: r, isNameChar d = true :=
    List.forall_mem_cons.2 ⟨isNameChar_of_startsName hc, hr⟩
  exact fun d hd => isSpace_eq_false (by decide) (hname d hd)

theorem isSpace_of_isTypeVar {w : List Char} (h : IsTypeVar w) : ∀ c ∈ w, isSpace c = false := by
  obtain ⟨r, rfl, hr⟩ := h
  exact List.forall_mem_cons.2 ⟨by decide, isSpace_of_isName hr⟩

theorem isSpace_of_isNumber {w : List Char} (h : IsNumber w) : ∀ c ∈ w, isSpace c = false := by
  obtain ⟨c, r, rfl, hc, hr⟩ | ⟨x, r, rfl, hx, hr⟩ := h
  · refine List.forall_mem_cons.2 ⟨isSpace_eq_false (by decide) hc, fun d hd => ?_⟩
    exact isSpace_eq_false (p := fun d => Text.isDigit d || d = '_') (by decide) (hr d hd)
  · refine List.forall_mem_cons.2 ⟨by decide, List.forall_mem_cons.2 ⟨?_, fun d hd => ?_⟩⟩
    · obtain rfl | rfl := hx <;> decide
    · exact isSpace_eq_false (p := fun d => isHexDigit d || d = '_') (by decide) (hr d hd)

theorem isSpace_of_isOperator {w : List Char} (h : IsOperator w) : ∀ c ∈ w, isSpace c = false := by
  obtain ⟨k, hk⟩ := h
  have hall : ∀ op ∈ operators, op.1.all (fun c => !isSpace c) = true := by decide
  have hw := List.all_eq_true.1 (hall _ hk)
  exact fun c hc => by simpa using hw c hc

/-- What is set apart starts no comment with an operator. -/
theorem not_startsComment_extend {s rest more : List Char} (h : IsOperator s)
    (hs : ¬StartsComment (s ++ rest)) (hmore : Apart more) : ¬StartsComment (s ++ rest ++ more) := by
  obtain ⟨k, hk⟩ := h
  have hne : ∀ op ∈ operators, op.1 ≠ [] := by decide
  obtain ⟨c, s, rfl⟩ := List.exists_cons_of_ne_nil (hne _ hk)
  intro hcomment
  apply hs
  rw [List.cons_append, List.cons_append, startsComment_cons_iff] at hcomment
  rw [List.cons_append, startsComment_cons_iff]
  refine ⟨hcomment.1, ?_⟩
  cases hsrest : s ++ rest with
  | nil =>
    -- the slash stands alone
    rw [hsrest, List.nil_append] at hcomment
    obtain hhead | hhead := hcomment.2
    · exact absurd (hmore _ hhead) (by decide)
    · exact absurd (hmore _ hhead) (by decide)
  | cons d t =>
    rw [hsrest] at hcomment
    exact hcomment.2

/-- **A lexeme is one in front of more** that is set apart. -/
theorem IsLexeme.extend {rest more s value : List Char} {k : TokenKind}
    (h : IsLexeme rest k s value) (hmore : Apart more) : IsLexeme (rest ++ more) k s value := by
  cases h with
  | con hlong hc => exact .con (hlong.extend (fun _ => isSpace_of_isName) hmore) hc
  | keyword hlong hc hk =>
    exact .keyword (hlong.extend (fun _ => isSpace_of_isName) hmore) hc hk
  | identifier hlong hc hk =>
    exact .identifier (hlong.extend (fun _ => isSpace_of_isName) hmore) hc hk
  | tvar hlong => exact .tvar (hlong.extend (fun _ => isSpace_of_isTypeVar) hmore)
  | number hlong => exact .number (hlong.extend (fun _ => isSpace_of_isNumber) hmore)
  | string hs => exact .string hs
  | punctuation hc => exact .punctuation hc
  | operator hlong hk hs =>
    refine .operator (hlong.extend (fun _ => isSpace_of_isOperator) hmore) hk ?_
    rw [← List.append_assoc]
    exact not_startsComment_extend hlong.mem hs hmore

/-- Wherever a lexeme stands, it is set apart as the same token. -/
theorem IsLexeme.apart {rest more s value : List Char} {k : TokenKind}
    (h : IsLexeme rest k s value) (hmore : Apart more) : IsLexeme more k s value := by
  have hcut : IsLexeme ([] ++ rest) k s value := h
  exact hcut.cut.extend hmore

/-! ## The next line -/

section

variable {rest more : List Char} (hmore : ∀ c ∈ more.head?, c = '\n')
include hmore

/-- A comment that ends with its line ends in front of the next one. -/
theorem GapPiece.extend {g : List Char} (h : GapPiece g rest) : GapPiece g (rest ++ more) := by
  cases h with
  | blank hc => exact .blank hc
  | line hu hrest =>
    refine .line hu fun c hc => ?_
    cases rest with
    | nil => exact hmore c hc
    | cons d rest => exact hrest c hc
  | block hu => exact .block hu

theorem IsGap.extend {g : List Char} (h : IsGap rest g) : IsGap (rest ++ more) g := by
  induction h with
  | nil => exact .nil
  | cons hg hs ih =>
    refine .cons ?_ ih
    rw [← List.append_assoc]
    exact hg.extend hmore

/-- Tiles stay tiles in front of the next line. -/
theorem TilesTo.extend {last before : List Char} {tiles : List Tile}
    (h : TilesTo rest last before tiles) : TilesTo (rest ++ more) last before tiles := by
  have hapart : Apart more := by
    intro c hc
    rw [hmore c hc]
    decide
  induction tiles generalizing before with
  | nil => exact IsGap.extend hmore h
  | cons t r ih =>
    obtain ⟨⟨hgap, hlexeme, hpos⟩, hr⟩ := h
    have hassoc : r.flatMap Tile.chars ++ (last ++ rest) ++ more =
        r.flatMap Tile.chars ++ (last ++ (rest ++ more)) := by
      simp only [List.append_assoc]
    refine ⟨⟨?_, ?_, hpos⟩, ih hr⟩
    · rw [← hassoc, ← List.append_assoc]
      exact hgap.extend hmore
    · rw [← hassoc]
      exact hlexeme.extend hapart

end

/-! ## Layout -/

/-- A blank, or a comment that is closed or has its line feed. -/
inductive LayoutPiece : List Char → Prop
  | blank {c : Char} (hc : isSpace c = true) : LayoutPiece [c]
  | line {u : List Char} (hu : '\n' ∉ u) : LayoutPiece ('/' :: '/' :: (u ++ ['\n']))
  | block {u : List Char} (hu : Interior u) : LayoutPiece ('/' :: '*' :: (u ++ ['*', '/']))

/-- Blanks and comments, the first of them a blank. -/
def Layout (g : List Char) : Prop :=
  ∃ (c : Char) (ps : List (List Char)),
    isSpace c = true ∧ (∀ p ∈ ps, LayoutPiece p) ∧ g = c :: ps.flatten

theorem Layout.apart {g : List Char} (h : Layout g) (rest : List Char) : Apart (g ++ rest) := by
  obtain ⟨c, ps, hc, -, rfl⟩ := h
  exact apart_cons hc _

theorem LayoutPiece.append_isGap {p s rest : List Char} (h : LayoutPiece p) (hs : IsGap rest s) :
    IsGap rest (p ++ s) := by
  cases h with
  | blank hc => exact .cons (.blank (isSpace_iff.1 hc)) hs
  | @line u hu =>
    have hline : GapPiece ('/' :: '/' :: u) (['\n'] ++ s ++ rest) := by
      refine .line hu ?_
      rintro c ⟨⟩
      rfl
    have hsplit : '/' :: '/' :: (u ++ ['\n']) ++ s = '/' :: '/' :: u ++ (['\n'] ++ s) := by simp
    rw [hsplit]
    exact .cons hline (.cons (.blank (by simp)) hs)
  | block hu => exact .cons (.block hu) hs

/-- A layout is a gap wherever it stands. -/
theorem Layout.isGap {g : List Char} (h : Layout g) (rest : List Char) : IsGap rest g := by
  obtain ⟨c, ps, hc, hps, rfl⟩ := h
  have hrest : IsGap rest ps.flatten := by
    induction ps with
    | nil => exact .nil
    | cons p ps ih =>
      obtain ⟨hp, hps⟩ := List.forall_mem_cons.1 hps
      exact hp.append_isGap (ih hps)
  exact LayoutPiece.append_isGap (.blank hc) hrest

/-- The lexemes of the tiles, each behind another gap, and a gap behind them. -/
def relaid (gaps : List (List Char)) (last : List Char) (tiles : List Tile) : List Char :=
  (List.zipWith (fun g t => g ++ t.lexeme) gaps tiles).flatten ++ last

theorem apart_relaid {gaps : List (List Char)} {last : List Char} (hgaps : ∀ g ∈ gaps, Layout g)
    (hlast : Layout last) (tiles : List Tile) : Apart (relaid gaps last tiles) := by
  have happend := hlast.apart []
  rw [List.append_nil] at happend
  cases gaps with
  | nil => exact happend
  | cons g gaps =>
    cases tiles with
    | nil => exact happend
    | cons t tiles =>
      have hg := (hgaps g (List.mem_cons_self ..)).apart (t.lexeme ++ relaid gaps last tiles)
      rw [relaid, List.zipWith_cons_cons, List.flatten_cons, List.append_assoc, List.append_assoc]
      exact hg

/-- Tiles with other gaps, which fit anywhere. -/
theorem Tiles.relay {last before : List Char} {tiles : List Tile} (h : Tiles last before tiles)
    {gaps : List (List Char)} {last' : List Char} (hlength : gaps.length = tiles.length)
    (hgaps : ∀ g ∈ gaps, Layout g) (hlast : Layout last') (before' : List Char) :
    ∃ tiles', tiles'.flatMap Tile.chars ++ last' = relaid gaps last' tiles ∧
      TilesTo [] last' before' tiles' ∧
      (tiles'.map Tile.token).map spelling = (tiles.map Tile.token).map spelling := by
  induction tiles generalizing gaps before before' with
  | nil =>
    obtain rfl := List.length_eq_zero_iff.1 hlength
    exact ⟨[], rfl, hlast.isGap [], rfl⟩
  | cons t tiles ih =>
    obtain ⟨g, gaps, rfl⟩ := List.exists_cons_of_length_eq_add_one hlength
    obtain ⟨hg, hgaps⟩ := List.forall_mem_cons.1 hgaps
    obtain ⟨hfits, hr⟩ := h
    let tile : Tile :=
      ⟨g, t.lexeme, ⟨t.token.kind, t.token.value, Position.locate (before' ++ g)⟩⟩
    obtain ⟨tiles', hchars, htiles, hspelled⟩ :=
      ih hr (Nat.succ.inj hlength) hgaps (before' ++ tile.chars)
    refine ⟨tile :: tiles', ?_, ⟨⟨hg.isGap _, ?_, rfl⟩, htiles⟩, ?_⟩
    · rw [List.flatMap_cons, List.append_assoc, hchars, relaid, relaid, List.zipWith_cons_cons,
        List.flatten_cons, List.append_assoc]
      rfl
    · rw [List.append_nil, hchars]
      exact hfits.lexeme.apart (apart_relaid hgaps hlast tiles)
    · rw [List.map_cons, List.map_cons, List.map_cons, List.map_cons, hspelled]
      rfl

/-- **Laid out anew** a source has the same tokens, up to positions. -/
theorem scan_relaid {source text : String} {ts : List Token} {tiles : List Tile}
    {last last' : List Char} {gaps : List (List Char)} (h : scan source = .ok ts)
    (hsource : source.toList = tiles.flatMap Tile.chars ++ last) (htiles : Tiles last [] tiles)
    (hlength : gaps.length = tiles.length) (hgaps : ∀ g ∈ gaps, Layout g) (hlast : Layout last')
    (htext : text.toList = relaid gaps last' tiles) :
    ∃ ts', scan text = .ok ts' ∧ ts'.map spelling = ts.map spelling := by
  obtain ⟨tiles', hchars, htiles', hspelled⟩ := htiles.relay hlength hgaps hlast []
  have hscan := scan_of_tiles hsource htiles
  have hscan' := scan_of_tiles (htext.trans hchars.symm) (tilesTo_nil_iff.1 htiles')
  rw [h] at hscan
  cases hscan
  refine ⟨_, hscan', ?_⟩
  rw [List.map_append, List.map_append, hspelled]
  rfl

end Token

end ContractInterface
