import ContractInterface.Proofs.Agreement
import ContractInterface.Proofs.Scan.Returns

/-!
# Line ends do not matter

A source has the same description, or is refused with the same error at the same place, whether its
lines end with line feeds or with returns and line feeds:

    interfaceText indent publicOnly source.withReturns = interfaceText indent publicOnly source

So a file with returns is answered alike by the commands, which read it as text and see no returns,
and by those who are sent it as it is (`Agree`).  There is one exception: a string that goes on behind
a line feed.  The first such string is where the source with returns is refused.
-/

namespace ContractInterface

open CommandLine

/-- The source with a return in front of every line feed. -/
def Source.withReturns : Source → Source
  | .text s => .text (String.ofList (Text.withReturns s.toList))
  | .bytes b => .bytes (Text.Utf8.bytesWithReturns b)

/-- A string of the source goes on behind a line feed. -/
def Source.SplitsString (source : Source) : Prop :=
  ∃ s t, source.Spells s ∧ Token.SplitsFirst s.toList t

/-! ## Decoding -/

theorem Source.Spells.withReturns {source : Source} {s : String} (h : source.Spells s) :
    source.withReturns.Spells (String.ofList (Text.withReturns s.toList)) := by
  cases source with
  | text t =>
    show String.ofList _ = String.ofList _
    rw [show t = s from h]
  | bytes b =>
    show Text.Utf8.encode _ = Text.Utf8.bytesWithReturns b
    rw [String.toList_ofList, Text.Utf8.encode_withReturns]
    exact congrArg _ h

/-- Bytes that are no text are blamed at the same place. -/
theorem invalidByte_bytesWithReturns (s : List Char) (a : UInt8) (r : List UInt8) :
    invalidByte (Text.Utf8.encode (Text.withReturns s) ++ a :: Text.Utf8.bytesWithReturns r)
        (Text.Utf8.encode (Text.withReturns s)).length =
      invalidByte (Text.Utf8.encode s ++ a :: r) (Text.Utf8.encode s).length := by
  have hbytes := Text.Utf8.encode_withReturns s
  have hcount := Text.count_insertReturns (0x0A : UInt8) (show (0x0D : UInt8) ≠ 0x0A by decide)
    (Text.Utf8.encode s)
  have hcolumn := Text.takeWhile_reverse_insertReturns (0x0D : UInt8) 0x0A (Text.Utf8.encode s)
  unfold invalidByte
  simp only [List.take_left, List.drop_left]
  rw [hbytes, Text.Utf8.bytesWithReturns, hcount, hcolumn]
  rfl

theorem Source.decode_withReturns {source : Source} {e : SourceError}
    (h : source.decode = .error e) : source.withReturns.decode = .error e := by
  cases source with
  | text s => cases h
  | bytes b =>
    simp only [decode] at h
    split at h
    · cases h
    · next k hk =>
      cases h
      obtain ⟨s, a, r, rfl, rfl, hbytes, hdecode⟩ := Text.Utf8.decode_bytesWithReturns hk
      simp only [withReturns, decode, hdecode]
      rw [hbytes, invalidByte_bytesWithReturns]

/-! ## Descriptions -/

theorem Contract.ofSource_withReturns {s : String} (h : ∀ t, ¬Token.SplitsFirst s.toList t) :
    Contract.ofSource (String.ofList (Text.withReturns s.toList)) = Contract.ofSource s := by
  have hscan : Token.scan (String.ofList (Text.withReturns s.toList)) = Token.scan s := by
    rw [Token.scan, String.toList_ofList]
    exact Token.scan_withReturns h
  rw [ofSource, hscan]
  rfl

/-- Sources that spell texts of the same units have the same description. -/
theorem describe_congr {source source' : Source} {s t : String} (hs : source.Spells s)
    (ht : source'.Spells t) (h : Contract.ofSource s = Contract.ofSource t) (publicOnly : Bool) :
    describe publicOnly source = describe publicOnly source' := by
  unfold describe DescribeRequest.run
  simp only [Source.decode_eq_ok_iff.2 hs, Source.decode_eq_ok_iff.2 ht, h]

theorem describe_withReturns {source : Source} (h : ¬source.SplitsString) (publicOnly : Bool) :
    describe publicOnly source.withReturns = describe publicOnly source := by
  cases hdecode : source.decode with
  | error e =>
    unfold describe DescribeRequest.run
    simp only [hdecode, Source.decode_withReturns hdecode]
  | ok s =>
    have hs := Source.decode_eq_ok_iff.1 hdecode
    have hsplits (t : Token.Tile) : ¬Token.SplitsFirst s.toList t := fun ht => h ⟨s, t, hs, ht⟩
    exact describe_congr hs.withReturns hs (Contract.ofSource_withReturns hsplits) publicOnly

/-- The first string that goes on behind a line feed is cut short by the return in front of it. -/
theorem describe_withReturns_of_splits {source : Source} {s : String} {t : Token.Tile}
    (hs : source.Spells s) (ht : Token.SplitsFirst s.toList t) (publicOnly : Bool) :
    describe publicOnly source.withReturns =
      .error (.source ⟨t.token.pos.line, t.token.pos.col, Cause.scanDetail⟩) := by
  have hscan : Token.scan (String.ofList (Text.withReturns s.toList)) =
      .error ⟨t.token.pos, .scan Cause.scanDetail⟩ := by
    rw [Token.scan, String.toList_ofList]
    exact (Token.scan_withReturns_of_splits ht).1
  unfold describe DescribeRequest.run
  simp only [Source.decode_eq_ok_iff.2 hs.withReturns, Contract.ofSource, hscan]
  rfl

/-! ## Line ends -/

/-- What is read of a file with returns has the description of what is sent of it. -/
theorem agree_withReturns (w : World) {F : Service.Framework} (hF : F.Faithful) {source : Source}
    (h : ¬source.SplitsString) {file s body : String} {indent : Option Int}
    (hindent : ∀ n ∈ indent, (Decimal.digits n.natAbs).length ≤ Text.maxDecimalDigits)
    (hs : source.Spells s) (hreturn : '\r' ∉ s.toList)
    (hfile : w.Holds file (String.ofList (Text.withReturns s.toList)))
    (hbody : Service.EncodeRequest.WrittenBy
      ⟨String.ofList (Text.withReturns s.toList), indent, .absent⟩ body) :
    let settings := Settings.ofEnvironment w.environment
    Agree w file indent (interfaceText (indent.or settings.indent) false source.withReturns)
      (run w ("encode" :: file :: indentArguments indent)) (run w ["check", file])
      (F (Service.app settings) (Service.Endpoint.encode.request body)) := by
  have hread : readInput w file = .ok s := by
    rw [readInput_of_holds hfile, String.toList_ofList, Text.uniformNewlines_withReturns hreturn,
      String.ofList_toList]
  have hself (t : String) : (Source.text t).Spells t := rfl
  have hsame := describe_withReturns h false
  refine agree_of_describe w hF hindent hfile.plain hread hbody ?_ ?_
  · rw [hsame]
    exact describe_congr (hself s) hs rfl false
  · exact describe_congr (hself _) hs.withReturns rfl false

/-- **Line ends do not matter**, unless a string goes on behind a line feed: a source and the same
source with returns come to the same text or to the same error, and so do a command that reads a file
with returns and those who are sent it.  The first string that goes on behind a line feed is where the
source with returns is refused; without them it is found and got past. -/
theorem line_ends_do_not_matter (source : Source) :
    (¬source.SplitsString →
      (∀ (indent : Option Int) (publicOnly : Bool),
        interfaceText indent publicOnly source.withReturns =
          interfaceText indent publicOnly source) ∧
      ∀ F : Service.Framework, F.Faithful →
        ∀ (w : World) (file s body : String) (indent : Option Int),
        (∀ n ∈ indent, (Decimal.digits n.natAbs).length ≤ Text.maxDecimalDigits) →
        source.Spells s → '\r' ∉ s.toList →
        w.Holds file (String.ofList (Text.withReturns s.toList)) →
        Service.EncodeRequest.WrittenBy
          ⟨String.ofList (Text.withReturns s.toList), indent, .absent⟩ body →
        let settings := Settings.ofEnvironment w.environment
        Agree w file indent (interfaceText (indent.or settings.indent) false source.withReturns)
          (run w ("encode" :: file :: indentArguments indent)) (run w ["check", file])
          (F (Service.app settings) (Service.Endpoint.encode.request body))) ∧
    ∀ s t, source.Spells s → Token.SplitsFirst s.toList t →
      (∀ (indent : Option Int) (publicOnly : Bool),
        interfaceText indent publicOnly source.withReturns =
          .error (.source ⟨t.token.pos.line, t.token.pos.col, Cause.scanDetail⟩)) ∧
      t.token ∈ (Token.progress s).found := by
  constructor
  · intro h
    refine ⟨fun indent publicOnly => ?_, fun F hF w file s body indent hindent hs hreturn hfile hbody
      => agree_withReturns w hF h hindent hs hreturn hfile hbody⟩
    rw [interfaceText_eq, interfaceText_eq, describe_withReturns h]
  · intro s t hs ht
    refine ⟨fun indent publicOnly => ?_, (Token.scan_withReturns_of_splits ht).2⟩
    rw [interfaceText_eq, describe_withReturns_of_splits hs ht]

theorem isOk_scan_twoLines :
    (Token.scan "contract C=function f():string=\"\\\n\"").isOk = true := by
  cbv

/-- A string on two lines is the first of its source. -/
theorem exists_splitsFirst_twoLines :
    ∃ t, Token.SplitsFirst "contract C=function f():string=\"\\\n\"".toList t ∧
      t.token.pos = ⟨1, 32⟩ := by
  have hreturn : Token.scanFrom .start 0
      (Text.withReturns "contract C=function f():string=\"\\\n\"".toList) =
        .error ⟨⟨1, 32⟩, .scan Cause.scanDetail⟩ := by cbv
  have hdiffer : ¬∀ t, ¬Token.SplitsFirst "contract C=function f():string=\"\\\n\"".toList t :=
    fun hnone => by
      have hsame := congrArg Except.isOk ((Token.scan_withReturns hnone).symm.trans hreturn)
      cases isOk_scan_twoLines.symm.trans hsame
  obtain ⟨t, ht⟩ := Classical.not_forall_not.1 hdiffer
  have hfail := hreturn.symm.trans (Token.scan_withReturns_of_splits ht).1
  exact ⟨t, ht, (congrArg Failure.pos (Except.error.inj hfail)).symm⟩

/-- A contract without declarations, and one with a string on two lines. -/
theorem line_ends_do_not_matter_contract :
    let source := Source.text "contract C =\n"
    let split := Source.text "contract C=function f():string=\"\\\n\""
    let body := (Json.Value.keyed [("source", .text "contract C =\r\n"), ("indent", .int 2)]).write none
    let w := worldOf "contract C =\r\n"
    Service.Framework.Faithful Service.Host.respond ∧ ¬source.SplitsString ∧
      interfaceText (some 2) false source.withReturns = interfaceText (some 2) false source ∧
      Agree w "c.aes" (some 2) (interfaceText (some 2) false source.withReturns)
        (run w ["encode", "c.aes", "--indent", Decimal.intText 2]) (run w ["check", "c.aes"])
        (Service.Host.respond (Service.app (Settings.ofEnvironment w.environment))
          (Service.Endpoint.encode.request body)) ∧
      split.SplitsString ∧ interfaceText (some 2) false split.withReturns =
        .error (.source ⟨1, 32, Cause.scanDetail⟩) := by
  intro source split body w
  have hsource : ¬source.SplitsString := by
    rintro ⟨s, t, rfl, ht⟩
    have hscan : Token.scanFrom .start 0 (Text.withReturns "contract C =\n".toList) =
      .error ⟨t.token.pos, .scan Cause.scanDetail⟩ := (Token.scan_withReturns_of_splits ht).1
    have hok : (Token.scanFrom .start 0 (Text.withReturns "contract C =\n".toList)).isOk = true := by
      cbv
    rw [hscan] at hok
    cases hok
  have hwritten := Service.EncodeRequest.writtenBy_write "contract C =\r\n" digits_two
  obtain ⟨htext, hagree⟩ := (line_ends_do_not_matter source).1 hsource
  obtain ⟨t, ht, hpos⟩ := exists_splitsFirst_twoLines
  obtain ⟨hrefused, -⟩ := (line_ends_do_not_matter split).2 _ t rfl ht
  rw [hpos] at hrefused
  exact ⟨Service.Host.faithful_respond, hsource, htext (some 2) false,
    hagree Service.Host.respond Service.Host.faithful_respond w "c.aes" "contract C =\n" body (some 2)
      digits_two rfl (by decide) (holds_worldOf "contract C =\r\n") hwritten,
    ⟨_, t, rfl, ht⟩, hrefused (some 2) false⟩

/-- A string on two lines is read with line feeds and not with returns. -/
theorem not_interfaceText_withReturns :
    ¬∀ (s : String) (indent : Option Int) (publicOnly : Bool), '\r' ∉ s.toList →
      interfaceText indent publicOnly (Source.text s).withReturns =
        interfaceText indent publicOnly (.text s) := by
  intro h
  have hsame := h "contract C=function f():string=\"\\\n\"" none false (by decide)
  have hfeed : (interfaceText none false (Source.text
      "contract C=function f():string=\"\\\n\"")).isOk = true := by cbv
  obtain ⟨t, ht, -⟩ := exists_splitsFirst_twoLines
  have hspells : (Source.text "contract C=function f():string=\"\\\n\"").Spells _ := rfl
  rw [← hsame, interfaceText_eq, describe_withReturns_of_splits hspells ht] at hfeed
  cases hfeed

end ContractInterface
