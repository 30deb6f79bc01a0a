/-!
# Help texts

The usage line of each command and what `--help` prints below it.
-/

namespace ContractInterface.CommandLine

/-- The program as a whole, or one of its commands. -/
inductive Topic where
  | main | encode | decode | check | serve
deriving DecidableEq, Repr

namespace Topic

/-- The commands in the order in which they are listed. -/
def commands : List Topic := [encode, decode, check, serve]

/-- The word that calls a command. -/
def word : Topic → String
  | main => ""
  | encode => "encode"
  | decode => "decode"
  | check => "check"
  | serve => "serve"

/-- What messages are signed with. -/
def program : Topic → String
  | main => "aci"
  | t => "aci " ++ t.word

/-- Text lines, each with its line feed. -/
def lines (ls : List String) : String := String.join (ls.map (· ++ "\n"))

def usage : Topic → String
  | main =>
    lines ["usage: aci [-h] [--version] [--verbose] \x7bencode,decode,check,serve\x7d ..."]
  | encode =>
    lines ["usage: aci encode [-h] [--indent INDENT] [--public-only] [--output OUTPUT]",
      "                  file"]
  | decode => lines ["usage: aci decode [-h] [--type-defs] [--output OUTPUT] file"]
  | check => lines ["usage: aci check [-h] file"]
  | serve => lines ["usage: aci serve [-h] [--host HOST] [--port PORT]"]

/-- The help text below the usage line. -/
def details : Topic → String
  | main =>
    lines ["",
      "Contract interface descriptions: encode, decode, check",
      "",
      "positional arguments:",
      "  \x7bencode,decode,check,serve\x7d",
      "                        Command to run",
      "    encode              Contract source → interface JSON",
      "    decode              Interface JSON → declaration stub",
      "    check               Parse and type-check a contract",
      "    serve               Serve encode/decode over HTTP",
      "",
      "options:",
      "  -h, --help            show this help message and exit",
      "  --version             show program's version number and exit",
      "  --verbose, -v         Log at DEBUG level",
      "",
      "Examples:",
      "  aci encode examples/token.aes --indent 2",
      "  aci decode token.json",
      "  aci check examples/token.aes",
      "  aci serve --port 8080"]
  | encode =>
    lines ["",
      "positional arguments:",
      "  file                  Contract source file ('-' for stdin)",
      "",
      "options:",
      "  -h, --help            show this help message and exit",
      "  --indent INDENT       Pretty-print with this indent",
      "  --public-only         Leave out private functions",
      "  --output OUTPUT, -o OUTPUT",
      "                        Write to a file instead of stdout"]
  | decode =>
    lines ["",
      "positional arguments:",
      "  file                  Interface JSON file ('-' for stdin)",
      "",
      "options:",
      "  -h, --help            show this help message and exit",
      "  --type-defs           Also emit type definitions",
      "  --output OUTPUT, -o OUTPUT",
      "                        Write to a file instead of stdout"]
  | check =>
    lines ["",
      "positional arguments:",
      "  file        Contract source file ('-' for stdin)",
      "",
      "options:",
      "  -h, --help  show this help message and exit"]
  | serve =>
    lines ["",
      "options:",
      "  -h, --help   show this help message and exit",
      "  --host HOST  Bind address (default: ACI_HOST)",
      "  --port PORT  Port number (default: ACI_PORT)"]

def help (t : Topic) : String := t.usage ++ t.details

end Topic

end ContractInterface.CommandLine
