import ContractInterface.Proofs.Grammar.Blindness
import ContractInterface.Proofs.Scan.Layout

/-!
# Layout and comments carry no meaning

A source that is laid out anew has the same tokens at other positions, and tokens are read by their
spelling.  So both are refused for the same cause, or both spell the same contracts:

    scan source = .ok ts → text = gap₁ lexeme₁ … gapₙ lexemeₙ gap →
      scan text = .ok ts', where ts' are spelled as ts,
      and both spell the same contracts or fail alike                       (layout_carries_no_meaning)
-/

namespace ContractInterface

open Grammar Token

/-- Sources with tokens that are spelled alike. -/
theorem Contract.alike_ofSource {source text : String} {ts us : List Token}
    (hsource : scan source = .ok ts) (htext : scan text = .ok us) (h : SpelledAlike ts us) :
    AlikeResults (List.map Contract.bare) (Contract.ofSource source) (Contract.ofSource text) := by
  rw [Contract.ofSource, Contract.ofSource, hsource, htext]
  exact alike_contracts [] h

/-- **Layout and comments carry no meaning.**  However the lexemes of a source are set apart, by gaps
that start with a blank and whose comments are closed, they are scanned as the same tokens; the text
spells the same contracts as the source, or it is refused for the same cause in the same words. -/
theorem layout_carries_no_meaning {source : String} {ts : List Token}
    (h : scan source = .ok ts) :
    (∃ tiles last, source.toList = tiles.flatMap Tile.chars ++ last ∧ Tiles last [] tiles) ∧
    ∀ (tiles : List Tile) (last : List Char) (gaps : List (List Char)) (gap : List Char)
      (text : String), source.toList = tiles.flatMap Tile.chars ++ last → Tiles last [] tiles →
      gaps.length = tiles.length → (∀ g ∈ gaps, Layout g) → Layout gap →
      text.toList = relaid gaps gap tiles →
      (∃ ts', scan text = .ok ts' ∧ ts'.map spelling = ts.map spelling) ∧
      ((∃ us vs, Contract.ofSource source = .ok us ∧ Contract.ofSource text = .ok vs ∧
          allSame Contract.same us vs = true ∧ us.map Contract.bodies = vs.map Contract.bodies) ∨
        ∃ f f', Contract.ofSource source = .error f ∧ Contract.ofSource text = .error f' ∧
          f.cause.bare = f'.cause.bare ∧ f.detail = f'.detail) := by
  have hscan : scanFrom (Position.locate []) 0 source.toList = .ok ts := h
  constructor
  · obtain ⟨tiles, last, hchars, htiles, -⟩ := tiles_of_scanFrom hscan
    exact ⟨tiles, last, hchars, htiles⟩
  · intro tiles last gaps gap text hsource htiles hlength hgaps hgap htext
    obtain ⟨us, hus, hspelled⟩ := scan_relaid h hsource htiles hlength hgaps hgap htext
    refine ⟨⟨us, hus, hspelled⟩, ?_⟩
    have halike := Contract.alike_ofSource h hus (map_bare_eq_iff.2 hspelled.symm)
    generalize Contract.ofSource source = r at halike ⊢
    generalize Contract.ofSource text = r' at halike ⊢
    cases halike with
    | ok hbare => exact .inl ⟨_, _, rfl, rfl, Contract.same_of_bares hbare⟩
    | @error f f' hcause =>
      refine .inr ⟨f, f', rfl, rfl, hcause, ?_⟩
      rw [Failure.detail, Failure.detail, ← Cause.detail_bare, hcause, Cause.detail_bare]

/-- Three lexemes, the first two with a blank between them. -/
theorem tiles_emptyContract : Tiles [] [] [
    ⟨[], ['c', 'o', 'n', 't', 'r', 'a', 'c', 't'], ⟨.kwContract, "contract", ⟨1, 1⟩⟩⟩,
    ⟨[' '], ['C'], ⟨.con, "C", ⟨1, 10⟩⟩⟩, ⟨[], ['='], ⟨.eq, "=", ⟨1, 11⟩⟩⟩] := by
  have hkeyword : piece 'c' ['o', 'n', 't', 'r', 'a', 'c', 't', ' ', 'C', '='] =
      .ok (.lexeme .kwContract ['c', 'o', 'n', 't', 'r', 'a', 'c', 't'] 7) := by cbv
  have hname : piece 'C' ['='] = .ok (.lexeme .con ['C'] 0) := by rfl
  have heq : piece '=' [] = .ok (.lexeme .eq ['='] 0) := by rfl
  exact ⟨⟨.nil, isLexeme_of_piece hkeyword, rfl⟩,
    ⟨.cons (.blank (by simp)) .nil, isLexeme_of_piece hname, rfl⟩,
    ⟨.nil, isLexeme_of_piece heq, rfl⟩, .nil⟩

/-- Quotes and openers in comments are no lexemes. -/
theorem layout_carries_no_meaning_comments :
    ∃ ts ts', scan "contract C=" = .ok ts ∧
      scan "\tcontract\n/* \" /**/*/C // '\n= " = .ok ts' ∧ ts'.map spelling = ts.map spelling ∧
      ((∃ us vs, Contract.ofSource "contract C=" = .ok us ∧
          Contract.ofSource "\tcontract\n/* \" /**/*/C // '\n= " = .ok vs ∧
          allSame Contract.same us vs = true ∧ us.map Contract.bodies = vs.map Contract.bodies) ∨
        ∃ f f', Contract.ofSource "contract C=" = .error f ∧
          Contract.ofSource "\tcontract\n/* \" /**/*/C // '\n= " = .error f' ∧
          f.cause.bare = f'.cause.bare ∧ f.detail = f'.detail) := by
  have hscan : scan "contract C=" = .ok [⟨.kwContract, "contract", ⟨1, 1⟩⟩, ⟨.con, "C", ⟨1, 10⟩⟩,
      ⟨.eq, "=", ⟨1, 11⟩⟩, ⟨.finish, "", ⟨1, 12⟩⟩] := by cbv
  have hinterior : Interior [' ', '"', ' ', '/', '*', '*', '/'] :=
    .char (by simp [StartsMark]) (.char (by simp [StartsMark]) (.char (by simp [StartsMark])
      (.nested .nil .nil)))
  have htab : Layout ['\t'] := ⟨'\t', [], rfl, by simp, rfl⟩
  have hblock : Layout ['\n', '/', '*', ' ', '"', ' ', '/', '*', '*', '/', '*', '/'] :=
    ⟨'\n', [_], rfl, List.forall_mem_singleton.2 (.block hinterior), rfl⟩
  have hline : Layout [' ', '/', '/', ' ', '\'', '\n'] :=
    ⟨' ', [_], rfl, List.forall_mem_singleton.2 (.line (u := [' ', '\'']) (by simp)), rfl⟩
  have hblank : Layout [' '] := ⟨' ', [], rfl, by simp, rfl⟩
  obtain ⟨-, hlayout⟩ := layout_carries_no_meaning hscan
  have hgaps := List.forall_mem_cons.2 ⟨htab, List.forall_mem_cons.2 ⟨hblock,
    List.forall_mem_singleton.2 hline⟩⟩
  obtain ⟨⟨ts', hts, hspelled⟩, houtcome⟩ := hlayout _ [] _ _
    "\tcontract\n/* \" /**/*/C // '\n= " rfl tiles_emptyContract rfl hgaps hblank rfl
  exact ⟨_, ts', hscan, hts, hspelled, houtcome⟩

end ContractInterface
