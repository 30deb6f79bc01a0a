import ContractInterface.Text.Blank
import ContractInterface.Text.IntegerText
import ContractInterface.Text.LetterCase

/-!
# Settings

Settings come from environment variables; a variable that is not set or does not make sense leaves
the default.  Whatever the environment, the indent is missing or from 1 to 8, the port is from 1 to
65535 and the host is not empty (`Settings.wellFormed_ofEnvironment`).
-/

namespace ContractInterface

/-- The variables that are set. -/
abbrev Environment := List (String × String)

/-- Set a variable, or unset it. -/
def Environment.assign (env : Environment) (name : String) (value : Option String) : Environment :=
  let others := env.filter fun e => e.1 != name
  match value with
  | none => others
  | some v => (name, v) :: others

inductive LogLevel where
  | critical | error | warning | info | debug
deriving DecidableEq, Repr

def LogLevel.label : LogLevel → String
  | critical => "CRITICAL"
  | error => "ERROR"
  | warning => "WARNING"
  | info => "INFO"
  | debug => "DEBUG"

/-- The level as a server names it. -/
def LogLevel.serverLabel : LogLevel → String
  | critical => "critical"
  | error => "error"
  | warning => "warning"
  | info => "info"
  | debug => "debug"

structure Settings where
  logLevel : LogLevel
  /-- missing for compact text -/
  indent : Option Int
  /-- stubs show type definitions -/
  typeDefs : Bool
  host : String
  port : Int
deriving DecidableEq, Repr

namespace Settings

/-- The level named by a text, in either case and between blanks. -/
def level? (s : String) : Option LogLevel :=
  let word := String.ofList (Text.capitals (Text.trim s.toList))
  [.critical, .error, .warning, .info, .debug].find? fun l => l.label = word

/-- The text says yes, in either case and between blanks. -/
def affirms (s : String) : Bool :=
  ["1", "true", "t", "yes", "y", "on"].contains
    (String.ofList (Text.smallLetters (Text.trim s.toList)))

/-- The integer in a text, moved into the given bounds. -/
def intWithin (low high default : Int) (s : Option String) : Int :=
  match s.bind fun s => Text.integerWithBase? s.toList with
  | none => default
  | some n => max low (min high n)

def ofEnvironment (env : Environment) : Settings where
  logLevel := ((env.lookup "ACI_LOG_LEVEL").bind level?).getD .warning
  indent :=
    let n := intWithin 0 8 0 (env.lookup "ACI_JSON_INDENT")
    if n = 0 then none else some n
  typeDefs := ((env.lookup "ACI_DECODE_TYPE_DEFS").map affirms).getD false
  host :=
    match env.lookup "ACI_HOST" with
    | none => "127.0.0.1"
    | some h => if h.isEmpty then "127.0.0.1" else h
  port := intWithin 1 65535 8080 (env.lookup "ACI_PORT")

/-- What holds of all settings. -/
def WellFormed (s : Settings) : Prop :=
  (∀ n ∈ s.indent, 1 ≤ n ∧ n ≤ 8) ∧ 1 ≤ s.port ∧ s.port ≤ 65535 ∧ s.host ≠ ""

theorem intWithin_bounds (low high default : Int) (s : Option String) (h : low ≤ default)
    (h' : default ≤ high) :
    low ≤ intWithin low high default s ∧ intWithin low high default s ≤ high := by
  unfold intWithin
  split
  · exact ⟨h, h'⟩
  · omega

theorem wellFormed_ofEnvironment (env : Environment) : (ofEnvironment env).WellFormed := by
  refine ⟨?_, ?_, ?_, ?_⟩
  · have h := intWithin_bounds 0 8 0 (env.lookup "ACI_JSON_INDENT") (by decide) (by decide)
    simp only [ofEnvironment]
    intro n hn
    split at hn
    · simp at hn
    · simp at hn; omega
  · exact (intWithin_bounds 1 65535 8080 _ (by decide) (by decide)).1
  · exact (intWithin_bounds 1 65535 8080 _ (by decide) (by decide)).2
  · simp only [ofEnvironment]
    split
    · decide
    · split
      · decide
      · next h => simpa using h

end Settings

end ContractInterface
