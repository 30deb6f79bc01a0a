import Mathlib.Data.List.TakeWhile
import ContractInterface.CommandLine.Invocation
import ContractInterface.Proofs.Json.Lexemes

/-!
# Calls of commands

How the program understands a call with one file, and with an indent for it.

    integer? (intText n).toList = some n                                     (integer?_intText)
    ofArguments ["encode", file, "--indent", intText n] = .ok (encode file (some n) …)
    ofArguments ["check", file] = .ok (check file)                             (ofArguments_check)

The program's own options are told from those of a command before the command is known, so every
argument is classified twice.  A file has to be plain in both readings (`IsPlain`); names that do not
start with `-` are.
-/

namespace ContractInterface

/-! ## Integers -/

namespace Text

theorem toNat_of_isDigit {c : Char} (h : c.isDigit = true) : 48 ≤ c.toNat ∧ c.toNat ≤ 57 := by
  simp only [Char.isDigit, Bool.and_eq_true, decide_eq_true_eq, ge_iff_le] at h
  exact ⟨h.1, h.2⟩

theorem decimalValue?_of_isDigit {c : Char} (h : c.isDigit = true) :
    decimalValue? c = some (Decimal.digitValue c) := by
  have hc := toNat_of_isDigit h
  rw [decimalValue?, if_pos (by omega), if_pos h]
  rfl

theorem separatedDigits?_digits {s : List Char} (hs : ∀ c ∈ s, c.isDigit = true) {after : Bool}
    (h : after = true ∨ s ≠ []) :
    separatedDigits? 10 after s = some (s.map Decimal.digitValue) := by
  induction s generalizing after with
  | nil =>
    rw [separatedDigits?, if_pos (h.resolve_right (not_not_intro rfl))]
    rfl
  | cons c r ih =>
    have hc := hs c (by simp)
    have hbound := toNat_of_isDigit hc
    have hvalue : alphanumericValue? c = some (Decimal.digitValue c) := by
      rw [alphanumericValue?, decimalValue?_of_isDigit hc]
    have hlt : Decimal.digitValue c < 10 := by
      show c.toNat - 48 < 10
      omega
    have hne : c ≠ '_' := Json.ne_of_isDigit hc (by decide)
    rw [separatedDigits?, if_neg hne, hvalue]
    have hrest := ih (fun d hd => hs d (by simp [hd])) (.inl rfl)
    simp only [hlt, if_true, hrest, Option.map_some, List.map_cons]

/-- The digits of a number are read as the number. -/
theorem digitsValue?_digits {n : Nat} (hn : (Decimal.digits n).length ≤ maxDecimalDigits) :
    digitsValue? 10 (Decimal.digits n) = some n := by
  obtain ⟨c, r, e, hc, hr, -⟩ := Json.digits_eq n
  have hs : ∀ d ∈ Decimal.digits n, d.isDigit = true := by
    rw [e]
    exact List.forall_mem_cons.2 ⟨hc, hr⟩
  have hseparated : separatedDigits? 10 false (Decimal.digits n) =
      some ((Decimal.digits n).map Decimal.digitValue) :=
    separatedDigits?_digits hs (.inr (Json.digits_ne_nil n))
  have hvalue : ofDigits 10 ((Decimal.digits n).map Decimal.digitValue) = n := by
    rw [ofDigits, List.foldl_map]
    exact Decimal.value_digits n
  have hlength : ¬maxDecimalDigits < ((Decimal.digits n).map Decimal.digitValue).length := by
    rw [List.length_map]
    omega
  rw [digitsValue?, hseparated]
  simp only [hlength, decide_false, Bool.and_false, Bool.false_eq_true, if_false, hvalue]

theorem trimWith_eq_self {p : Char → Bool} {s : List Char} (h : ∀ c ∈ s, p c = false) :
    trimWith p s = s := by
  have hdrop {t : List Char} (ht : ∀ c ∈ t, p c = false) : t.dropWhile p = t := by
    cases t with
    | nil => rfl
    | cons c r => rw [List.dropWhile_cons, ht c (by simp), if_neg Bool.false_ne_true]
  rw [trimWith, hdrop h, hdrop (by simpa using h), List.reverse_reverse]

/-- An integer is read back from its text, unless that is too long. -/
theorem integer?_intText {n : Int} (hn : (Decimal.digits n.natAbs).length ≤ maxDecimalDigits) :
    integer? (Decimal.intText n).toList = some n := by
  obtain ⟨c, r, e, hc, hr, -⟩ := Json.digits_eq n.natAbs
  have hdigit {d : Char} (hd : d.isDigit = true) : isNumberBlank d = false := by
    have hbound := toNat_of_isDigit hd
    rw [isNumberBlank, if_pos (by omega)]
    simp [isAsciiBlank]
    omega
  have hblank : ∀ d ∈ (Decimal.intText n).toList, isNumberBlank d = false := by
    intro d hd
    rw [Json.intText_toList, e] at hd
    obtain hd | hd | hd := (List.mem_append.1 hd).imp_right List.mem_cons.1
    · split at hd
      · rw [List.mem_singleton.1 hd]
        decide
      · cases hd
    · exact hdigit (hd ▸ hc)
    · exact hdigit (hr d hd)
  have hread := digitsValue?_digits hn
  rw [integer?, trimWith_eq_self hblank, Json.intText_toList]
  by_cases hneg : n < 0
  · rw [if_pos hneg]
    show (digitsValue? 10 (Decimal.digits n.natAbs)).map (fun k => -(k : Int)) = some n
    rw [hread]
    show some (-(n.natAbs : Int)) = some n
    rw [Int.ofNat_natAbs_of_nonpos (by omega), Int.neg_neg]
  · have hsign : signed? (digitsValue? 10) (Decimal.digits n.natAbs) =
        (digitsValue? 10 (Decimal.digits n.natAbs)).map fun k => (k : Int) := by
      rw [e]
      unfold signed?
      split
      · next h => exact absurd (List.cons.inj h).1 (Json.ne_of_isDigit hc (by decide))
      · next h => exact absurd (List.cons.inj h).1 (Json.ne_of_isDigit hc (by decide))
      · rfl
    rw [if_neg hneg, List.nil_append, hsign, hread]
    show some (n.natAbs : Int) = some n
    rw [Int.natAbs_of_nonneg (by omega)]

end Text

namespace CommandLine

/-! ## Plain arguments -/

/-- The argument is neither an option nor a mark on any command line. -/
def IsPlain (a : String) : Prop := ∀ topic : Topic, shape topic.form a.toList = .ok .plain

/-- What does not start with `-` is plain. -/
theorem isPlain_of_head {a : String} (h : a.toList.head? ≠ some '-') : IsPlain a := by
  intro topic
  unfold shape
  split
  · next e =>
    rw [e] at h
    exact absurd rfl h
  · rfl

theorem IsPlain.ne_dashes {a : String} (h : IsPlain a) : a ≠ "--" := by
  rintro rfl
  have hmark := h .check
  cases hmark

/-- The names of the options of a command line do not look like numbers. -/
theorem isDigit_of_name (topic : Topic) :
    ∀ p ∈ topic.form.names, p.1.toList[1]?.any Char.isDigit = false := by
  cases topic <;> decide

/-- An integer is plain, also below zero. -/
theorem isPlain_intText (n : Int) : IsPlain (Decimal.intText n) := by
  obtain ⟨c, r, e, hc, hr, -⟩ := Json.digits_eq n.natAbs
  have htext := Json.intText_toList n
  by_cases hneg : n < 0
  · rw [if_pos hneg, e] at htext
    have hdigits : ∀ d ∈ c :: r, d.isDigit = true := List.forall_mem_cons.2 ⟨hc, hr⟩
    intro topic
    -- no name of an option starts like the number
    have hfind (s : List Char) : topic.form.find? ('-' :: c :: s) = none := by
      refine List.find?_eq_none.2 fun p hp => ?_
      rw [decide_eq_true_eq]
      intro hname
      have hd := isDigit_of_name topic p hp
      rw [hname] at hd
      have hdigit : c.isDigit = false := hd
      rw [hc] at hdigit
      cases hdigit
    have hequals : splitEquals ('-' :: c :: r) = none := by
      have hall : ('-' :: c :: r).takeWhile (· ≠ '=') = '-' :: c :: r := by
        refine List.takeWhile_eq_self_iff.2 (List.forall_mem_cons.2 ⟨by decide, ?_⟩)
        intro d hd
        exact decide_eq_true (Json.ne_of_isDigit (hdigits d hd) (by decide))
      rw [splitEquals, hall, List.drop_length]
    have hmeanings : shortMeanings topic.form ('-' :: c :: r) = [] := by
      rw [shortMeanings, List.map_eq_nil_iff, List.filter_eq_nil_iff]
      exact List.find?_eq_none.1 (hfind [])
    have hnumber : isNegativeNumber ('-' :: c :: r) = true := by
      have hall : (c :: r).takeWhile (fun c => (Text.decimalValue? c).isSome) = c :: r := by
        refine List.takeWhile_eq_self_iff.2 fun d hd => ?_
        rw [Text.decimalValue?_of_isDigit (hdigits d hd)]
        rfl
      simp only [isNegativeNumber, hall, List.drop_length]
      rfl
    have hdash : c ≠ '-' := Json.ne_of_isDigit hc (by decide)
    rw [htext]
    show shape topic.form ('-' :: c :: r) = _
    unfold shape
    simp only [hfind r, hequals, Option.bind_none, if_neg hdash, hmeanings, shapeOfMeanings, hnumber,
      Bool.true_or, if_true]
  · rw [if_neg hneg, e] at htext
    refine isPlain_of_head ?_
    rw [htext]
    exact fun h => Json.ne_of_isDigit hc (by decide) (Option.some.inj h)

/-! ## Calls -/

theorem shapes_cons {f : Form} {a : String} {as : List String} {s : Shape}
    {r : List (String × Shape)} (hne : a ≠ "--") (ha : shape f a.toList = .ok s)
    (has : shapes f as = .ok r) : shapes f (a :: as) = .ok ((a, s) :: r) := by
  rw [shapes, if_neg hne, ha]
  simp only [has]

/-- The program hands everything from the first plain argument on to a command. -/
theorem listen_main {word : String} {args : List String} {r : List (String × Shape)}
    (hword : IsPlain word) (hargs : shapes Topic.main.form args = .ok r)
    (hnames : r.map Prod.fst = args) :
    Topic.main.listen (word :: args) = .ok { Said.nothing with words := some (word :: args) } := by
  have hshapes := shapes_cons hword.ne_dashes (hword .main) hargs
  have hcount : positionalCount .rest ((word, .plain) :: r) = r.length + 1 := by
    show 0 + 1 + r.length = _
    omega
  have hevents : events Topic.main.form .rest ((word, .plain) :: r) =
      [.positional (word :: args)] := by
    rw [events, hcount]
    · simp only [List.take_succ_cons, List.take_length, List.drop_length, List.map_cons, hnames]
      rw [events]
    · intro a h
      cases h
    · intro a o name attached h
      cases h
  rw [Topic.listen, Form.events, hshapes]
  show (events Topic.main.form .rest _).foldlM _ _ = _
  rw [hevents]
  rfl

/-- The call of a command with one file. -/
theorem listen_file {topic : Topic} {file : String} {r : List (String × Shape)} {args : List String}
    (htopic : topic.form.positional = .one) (hfile : IsPlain file)
    (hargs : shapes topic.form args = .ok r) (hr : r.takeWhile (fun a => a.2 = .dashes) = []) :
    topic.listen (file :: args) =
      (events topic.form .none r).foldlM (Said.take topic)
        { Said.nothing with words := some [file] } := by
  have hshapes := shapes_cons hfile.ne_dashes (hfile topic) hargs
  have hcount : positionalCount .one ((file, .plain) :: r) = 0 + 1 := by
    show 0 + 1 + (r.takeWhile fun a => a.2 = .dashes).length = _
    rw [hr]
    rfl
  have hevents : events topic.form .one ((file, .plain) :: r) =
      .positional [file] :: events topic.form .none r := by
    rw [events, hcount]
    · rfl
    · intro a h
      cases h
    · intro a o name attached h
      cases h
  rw [Topic.listen, Form.events, hshapes]
  simp only [htopic, hevents]
  rfl

/-- The command line is understood as the call of a command with a file and nothing else. -/
theorem ofArguments_eq (topic : Topic) {args : List String} {r : List (String × Shape)}
    {said : Said} {command : Command}
    (hfind : (Topic.commands.find? fun t => t.word = topic.word) = some topic)
    (hword : IsPlain topic.word) (hargs : shapes Topic.main.form args = .ok r)
    (hnames : r.map Prod.fst = args) (hlisten : topic.listen args = .ok said)
    (hextras : said.extras = []) (hcommand : topic.command said = .ok command) :
    Invocation.ofArguments (topic.word :: args) = .ok ⟨false, some command⟩ := by
  have hof : commandOf (topic.word :: args) = .ok (command, []) := by
    rw [commandOf, hfind]
    simp only [hlisten, hcommand, hextras]
  rw [Invocation.ofArguments, listen_main hword hargs hnames]
  simp only [hof]
  rfl

theorem fileOf_singleton {file : String} (h : file ≠ "--") : fileOf [file] = file := by
  rw [fileOf, List.erase_cons_tail (by simpa using h)]
  rfl

/-- The arguments that ask for an indent. -/
def indentArguments : Option Int → List String
  | none => []
  | some n => ["--indent", Decimal.intText n]

/-- The shapes of the arguments behind a command, on the program's own command line. -/
theorem shapes_main {file : String} (hfile : IsPlain file) (indent : Option Int) :
    ∃ r, shapes Topic.main.form (file :: indentArguments indent) = .ok r ∧
      r.map Prod.fst = file :: indentArguments indent := by
  cases indent with
  | none => exact ⟨_, shapes_cons hfile.ne_dashes (hfile .main) rfl, rfl⟩
  | some n =>
    have hn := isPlain_intText n
    have hindent : shape Topic.main.form "--indent".toList = .ok .unknown := rfl
    have hnothing : shapes Topic.main.form [] = .ok [] := rfl
    have htext := shapes_cons hn.ne_dashes (hn .main) hnothing
    exact ⟨_, shapes_cons hfile.ne_dashes (hfile .main)
      (shapes_cons (by decide) hindent htext), rfl⟩

/-- What is said by the arguments of a call for a description. -/
theorem listen_encode {file : String} (hfile : IsPlain file) {indent : Option Int}
    (hindent : ∀ n ∈ indent, (Decimal.digits n.natAbs).length ≤ Text.maxDecimalDigits) :
    Topic.encode.listen (file :: indentArguments indent) =
      .ok { Said.nothing with words := some [file], indent := indent } := by
  cases indent with
  | none =>
    rw [indentArguments, listen_file rfl hfile rfl rfl, events]
    rfl
  | some n =>
    have hn := isPlain_intText n
    have hoption : shape Topic.encode.form "--indent".toList =
        .ok (.option .indent "--indent" none) := rfl
    have hnothing : shapes Topic.encode.form [] = .ok [] := rfl
    have htext := shapes_cons hn.ne_dashes (hn .encode) hnothing
    have hshapes := shapes_cons (by decide) hoption htext
    have hevents : events Topic.encode.form .none
        [("--indent", .option .indent "--indent" none), (Decimal.intText n, .plain)] =
          [.option .indent (some (Decimal.intText n))] := by
      have hexpand (long : Bool) : expand Topic.encode.form .indent long
          (some (Decimal.intText n, .plain)) none =
            .ok ([.option .indent (some (Decimal.intText n))], true) := by
        rw [expand]
        rfl
      rw [events, List.head?_cons, hexpand]
      show [_] ++ events Topic.encode.form .none [] = _
      rw [events]
      rfl
    have hread : integerFor .encode .indent (some (Decimal.intText n)) = .ok n := by
      rw [integerFor, Text.integer?_intText (hindent n rfl)]
    rw [indentArguments, listen_file rfl hfile hshapes rfl, hevents]
    show (Said.take .encode _ _) >>= _ = _
    rw [Said.take, hread]
    rfl

/-- **A call for a description** is understood, with its file and its indent. -/
theorem ofArguments_encode {file : String} (hfile : IsPlain file) {indent : Option Int}
    (hindent : ∀ n ∈ indent, (Decimal.digits n.natAbs).length ≤ Text.maxDecimalDigits) :
    Invocation.ofArguments ("encode" :: file :: indentArguments indent) =
      .ok ⟨false, some (.encode file indent false none)⟩ := by
  obtain ⟨r, hr, hnames⟩ := shapes_main hfile indent
  have hcommand : Topic.encode.command
      { Said.nothing with words := some [file], indent := indent } =
        .ok (.encode file indent false none) := by
    rw [Topic.command, fileOf_singleton hfile.ne_dashes]
    · rfl
    · rfl
  exact ofArguments_eq .encode rfl (isPlain_of_head (by decide)) hr hnames
    (listen_encode hfile hindent) rfl hcommand

theorem ofArguments_check {file : String} (hfile : IsPlain file) :
    Invocation.ofArguments ["check", file] = .ok ⟨false, some (.check file)⟩ := by
  obtain ⟨r, hr, hnames⟩ := shapes_main hfile none
  have hlisten : Topic.check.listen [file] = .ok { Said.nothing with words := some [file] } := by
    rw [listen_file rfl hfile rfl rfl, events]
    rfl
  have hcommand : Topic.check.command { Said.nothing with words := some [file] } =
      .ok (.check file) := by
    rw [Topic.command, fileOf_singleton hfile.ne_dashes]
    rfl
  exact ofArguments_eq .check rfl (isPlain_of_head (by decide)) hr hnames hlisten rfl
    hcommand

end CommandLine

end ContractInterface
